import HelloBoot.Es.EsController
import HelloBoot.Paging.Scan

/-!
# The full scan of `searchEsPage`

The loop of `searchEsPage` receives what the reader of `Paging.scan` receives, and stops
with an exception at the first empty page (`searchPages_of_fed`, `searchPages_of_not_fed`).
Over an index that does not change it returns every matching document once, in the order of
`_id`, with one search for each page (`searchEsPage_of_unchanging`). The number of pages is
fixed by a count that was taken before; so the scan ends well if and only if the index still
has a document for every page when its request arrives (`endsWell_countAndSearch_iff`).
-/

namespace HelloBoot.EsController

open Paging Call
open Es (BoolQueryBuilder)

variable {κ : Type}

/-- The sort values that the next request goes on from. -/
def objects (received : List (Document κ)) : List κ :=
  (received.getLast?.map Document.id).toList

theorem objects_append {received l : List (Document κ)} (h : l ≠ []) :
    objects (received ++ l) = objects l := by
  rw [objects, objects, List.getLast?_append]
  cases hlast : l.getLast? with
  | none => exact absurd (List.getLast?_eq_none_iff.mp hlast) h
  | some d => rfl

theorem lastSortValues_hits (l : List (Document κ)) :
    lastSortValues (l.map Document.hit) =
      if l = [] then .error .indexOutOfBounds else .ok (objects l) := by
  rw [lastSortValues, objects, List.getLast?_map]
  cases hlast : l.getLast? with
  | none => rw [if_pos (List.getLast?_eq_none_iff.mp hlast)]; rfl
  | some d =>
      have hne : l ≠ [] := List.ne_nil_of_mem (List.mem_of_getLast? hlast)
      rw [if_neg hne]
      rfl

variable [LinearOrder κ]

theorem Index.ranked_perm (index : Index κ) (selects : Document κ → Bool) :
    (index.ranked selects).Perm (index.docs.filter selects) :=
  List.perm_insertionSort _ _

theorem Index.ranked_pairwise (index : Index κ) (selects : Document κ → Bool) :
    (index.ranked selects).Pairwise fun d e => d.id < e.id := by
  have : Std.Total fun d e : Document κ => d.id ≤ e.id := ⟨fun d e => le_total d.id e.id⟩
  have : IsTrans (Document κ) fun d e => d.id ≤ e.id := ⟨fun _ _ _ => le_trans⟩
  have hle : (index.ranked selects).Pairwise fun d e => d.id ≤ e.id :=
    List.pairwise_insertionSort _ _
  have hnodup : ((index.ranked selects).map Document.id).Nodup := by
    rw [((index.ranked_perm selects).map _).nodup_iff]
    exact index.nodup.sublist (List.filter_sublist.map _)
  have hne : (index.ranked selects).Pairwise fun d e => d.id ≠ e.id :=
    List.pairwise_map.mp hnodup
  exact (hle.and hne).imp fun h => lt_of_le_of_ne h.1 h.2

variable (client : HighLevelClient κ)

def matching (indices : String → Index κ) : List (Document κ) :=
  (indices "lhm").docs.filter (client.selects buildQuery)

def ranked (indices : String → Index κ) : List (Document κ) :=
  (indices "lhm").ranked (client.selects buildQuery)

/-- What the `i`th of the next requests finds. -/
def arriving (s : Session κ) (i : ℕ) : List (Document κ) := ranked client (s.indices (s.time + i))

theorem arriving_pairwise (s : Session κ) (i : ℕ) :
    (arriving client s i).Pairwise fun d e => d.id < e.id :=
  Index.ranked_pairwise _ _

def Session.answered (s : Session κ) (request : SearchRequest κ) : Session κ :=
  { s with time := s.time + 1, searches := s.searches ++ [request] }

theorem arriving_answered (s : Session κ) (request : SearchRequest κ) :
    arriving client (s.answered request) = fun i => arriving client s (i + 1) := by
  funext i
  rw [arriving, arriving, Session.answered, Nat.add_assoc, Nat.add_comm 1 i]

variable {client} {p n : ℕ} {received : List (Document κ)} {s : Session κ}

theorem search_pageRequest (hwindow : p ≤ client.maxResultWindow "lhm") :
    search client (pageRequest p (objects received)) s =
      .ok ((page Document.id p received (arriving client s 0)).map Document.hit)
        (s.answered (pageRequest p (objects received))) := by
  have hrequest : pageRequest p (objects received) =
      ⟨"lhm", ⟨some buildQuery, some (p : ℤ), [("_id", .asc)],
        (received.getLast?.map Document.id).map ([·])⟩⟩ := by
    rw [pageRequest, objects]
    cases received.getLast? <;> rfl
  have hsearch := client.search_eq (s.indices s.time) "lhm" buildQuery p
    (received.getLast?.map Document.id) hwindow
  rw [← hrequest] at hsearch
  change ofExcept (client.search (s.indices s.time) _) (s.answered _) = _
  rw [hsearch]
  rfl

theorem searchPages_succ (hwindow : p ≤ client.maxResultWindow "lhm") (esDatalist : List (SearchHit κ)) :
    searchPages client p (n + 1) (objects received) esDatalist s =
      if page Document.id p received (arriving client s 0) = [] then
        .error .indexOutOfBounds (s.answered (pageRequest p (objects received)))
      else
        searchPages client p n
          (objects (received ++ page Document.id p received (arriving client s 0)))
          (esDatalist ++ (page Document.id p received (arriving client s 0)).map Document.hit)
          (s.answered (pageRequest p (objects received))) := by
  rw [searchPages, bind_of_ok (search_pageRequest hwindow), lastSortValues_hits]
  cases hpage : page Document.id p received (arriving client s 0) with
  | nil => rfl
  | cons d l =>
      rw [if_neg (List.cons_ne_nil d l), if_neg (List.cons_ne_nil d l),
        objects_append (List.cons_ne_nil d l)]
      rfl

/-- As long as no page is empty, the loop goes on. -/
theorem searchPages_of_fed (hwindow : p ≤ client.maxResultWindow "lhm")
    (h : Fed Document.id p received (arriving client s) n) :
    ∃ s', searchPages client p n (objects received) (received.map Document.hit) s =
        .ok ((scan Document.id p received (arriving client s) n).map Document.hit) s' ∧
      s'.searches.length = s.searches.length + n := by
  induction n generalizing received s with
  | zero => exact ⟨s, rfl, rfl⟩
  | succ n ih =>
      obtain ⟨hfirst, hrest⟩ := fed_succ.mp h
      rw [← arriving_answered client s (pageRequest p (objects received))] at hrest
      obtain ⟨s', hrun, hlength⟩ := ih hrest
      refine ⟨s', ?_, ?_⟩
      · rw [searchPages_succ hwindow, if_neg hfirst, ← List.map_append, hrun, scan, arriving_answered]
      · rw [hlength, Session.answered, List.length_append, List.length_singleton]
        omega

/-- An empty page makes the loop throw. -/
theorem searchPages_of_not_fed (hwindow : p ≤ client.maxResultWindow "lhm")
    (h : ¬Fed Document.id p received (arriving client s) n) :
    ∃ s', searchPages client p n (objects received) (received.map Document.hit) s =
      .error .indexOutOfBounds s' := by
  induction n generalizing received s with
  | zero => exact absurd nofun h
  | succ n ih =>
      rw [searchPages_succ hwindow]
      by_cases hfirst : page Document.id p received (arriving client s 0) = []
      · exact ⟨_, if_pos hfirst⟩
      · rw [if_neg hfirst, ← List.map_append]
        refine ih fun hrest => h (fed_succ.mpr ⟨hfirst, ?_⟩)
        rwa [arriving_answered] at hrest

/-- The number of pages is the quotient rounded up. -/
theorem pages_of_nat (cnt : ℕ) (hp : 0 < p) : (pages cnt p).toNat = (cnt + p - 1) / p := by
  have hdiv := Nat.div_add_mod cnt p
  have hlt := Nat.mod_lt cnt hp
  change (if ((cnt % p : ℕ) : ℤ) = 0 then ((cnt / p : ℕ) : ℤ) else (cnt / p : ℕ) + 1).toNat = _
  by_cases hrem : cnt % p = 0
  · have hcnt : cnt + p - 1 = p * (cnt / p) + (p - 1) := by omega
    rw [if_pos (by omega : ((cnt % p : ℕ) : ℤ) = 0), Int.toNat_natCast, hcnt,
      Nat.mul_add_div hp, Nat.div_eq_of_lt (Nat.sub_lt hp Nat.one_pos), Nat.add_zero]
  · have hcnt : cnt + p - 1 = p * (cnt / p + 1) + (cnt % p - 1) := by
      rw [Nat.mul_succ]
      omega
    have hsucc : ((cnt / p : ℕ) : ℤ) + 1 = ((cnt / p + 1 : ℕ) : ℤ) := rfl
    rw [if_neg (by omega : ¬((cnt % p : ℕ) : ℤ) = 0), hsucc, Int.toNat_natCast, hcnt,
      Nat.mul_add_div hp, Nat.div_eq_of_lt (by omega : cnt % p - 1 < p), Nat.add_zero]

/-- Every page before the last begins inside the list, and the last one reaches its end. -/
theorem pages_cover (cnt : ℕ) (hp : 0 < p) :
    (∀ i < (cnt + p - 1) / p, i * p < cnt) ∧ cnt ≤ (cnt + p - 1) / p * p := by
  constructor
  · intro i hi
    have hle := (Nat.le_div_iff_mul_le hp).mp hi
    rw [Nat.succ_mul] at hle
    omega
  · have hlt := Nat.lt_mul_div_succ (cnt + p - 1) hp
    rw [Nat.mul_succ, Nat.mul_comm] at hlt
    omega

/-- Over an index that does not change, the scan returns every matching document exactly
once and in ascending order, if the index answers for pages of this size. -/
theorem searchEsPage_of_unchanging (client : HighLevelClient κ) (indices : String → Index κ)
    (time : ℕ) {pageSize : ℤ} (hpageSize : 1 ≤ pageSize)
    (hwindow : pageSize ≤ client.maxResultWindow "lhm") :
    ∃ hits s', searchEsPage client (matching client indices).length pageSize
        ⟨fun _ => indices, time, []⟩ = .ok hits s' ∧
      hits.Perm ((matching client indices).map Document.hit) ∧
      (hits.Pairwise fun hit hit' => hit.id < hit'.id) ∧
      (s'.searches.length : ℤ) = ((matching client indices).length + pageSize - 1) / pageSize := by
  obtain ⟨p, rfl⟩ := Int.eq_ofNat_of_zero_le (by omega : 0 ≤ pageSize)
  have hp : 0 < p := by omega
  have hwindow : p ≤ client.maxResultWindow "lhm" := Int.ofNat_le.mp hwindow
  let s : Session κ := ⟨fun _ => indices, time, []⟩
  let docs := ranked client indices
  have hsorted : docs.Pairwise fun d e => d.id < e.id := Index.ranked_pairwise _ _
  have hperm : docs.Perm (matching client indices) := Index.ranked_perm _ _
  obtain ⟨hinside, hend⟩ := pages_cover docs.length hp
  have hfed : Fed Document.id p [] (arriving client s) ((docs.length + p - 1) / p) :=
    (fed_const_iff hp hsorted).mpr hinside
  obtain ⟨s', hrun, hlength⟩ := searchPages_of_fed hwindow hfed
  have hscan : scan Document.id p [] (arriving client s) ((docs.length + p - 1) / p) = docs := by
    have hconst := scan_const (p := p) hsorted 0 ((docs.length + p - 1) / p)
    rwa [List.take_zero, Nat.zero_add, List.take_of_length_le hend] at hconst
  rw [hscan, ← pages_of_nat _ hp, hperm.length_eq] at hrun
  refine ⟨docs.map Document.hit, s', hrun, hperm.map _, List.pairwise_map.mpr hsorted, ?_⟩
  have hcast : ((docs.length + p - 1 : ℕ) : ℤ) = docs.length + p - 1 := by omega
  rw [hlength, List.length_nil, Nat.zero_add, Int.natCast_ediv, hcast, hperm.length_eq]

def hasName (query : BoolQueryBuilder) (d : Document ℕ) : Bool :=
  query.must.all fun clause => clause = .termQuery "name.keyword" d.source

def namesServer : HighLevelClient ℕ where
  selects := hasName
  search indices request :=
    match request.source.query, request.source.size, request.source.searchAfter with
    | some query, some size, none =>
        .ok ((((indices request.index).ranked (hasName query)).take size.toNat).map Document.hit)
    | some query, some size, some [after] =>
        .ok (((beyond Document.id (some after) ((indices request.index).ranked
          (hasName query))).take size.toNat).map Document.hit)
    | _, _, _ => .error .ioException
  maxResultWindow _ := 10000
  count indices request :=
    .ok ((indices request.index).docs.filter (hasName request.query)).length
  search_eq _ _ _ _ after _ := by cases after <;> rfl
  count_eq _ _ _ := rfl

def names : Index ℕ where
  docs := [⟨3, "李会明"⟩, ⟨1, "李会明"⟩, ⟨4, "admin"⟩, ⟨2, "李会明"⟩]
  nodup := by decide

theorem searchEsPage_of_names :
    ∃ hits s', searchEsPage namesServer (matching namesServer fun _ => names).length 2
        ⟨fun _ _ => names, 0, []⟩ = .ok hits s' ∧
      hits.Perm ((matching namesServer fun _ => names).map Document.hit) ∧
      (hits.Pairwise fun hit hit' => hit.id < hit'.id) ∧
      (s'.searches.length : ℤ) =
        (((matching namesServer fun _ => names).length : ℤ) + 2 - 1) / 2 :=
  searchEsPage_of_unchanging namesServer (fun _ => names) 0 (by decide) (by decide)

/-- The scan has returned, with no document twice. -/
def EndsWell : EStateM.Result Throwable (Session κ) (List (SearchHit κ)) → Prop
  | .ok hits _ => (hits.map SearchHit.id).Nodup
  | .error _ _ => False

theorem endsWell_searchPages_iff (hwindow : p ≤ client.maxResultWindow "lhm") :
    EndsWell (searchPages client p n [] [] s) ↔
      Fed Document.id p [] (arriving client s) n := by
  by_cases hfed : Fed Document.id p [] (arriving client s) n
  · obtain ⟨s', hrun, _⟩ := searchPages_of_fed hwindow hfed
    have hsorted := scan_pairwise (p := p) (arriving_pairwise client s) List.Pairwise.nil n
    have hnodup : ((scan Document.id p [] (arriving client s) n).map Document.id).Nodup :=
      List.pairwise_map.mpr (hsorted.imp fun hlt => hlt.ne)
    change searchPages client p n [] [] s = _ at hrun
    rw [hrun, EndsWell, List.map_map]
    exact iff_of_true hnodup hfed
  · obtain ⟨s', hrun⟩ := searchPages_of_not_fed hwindow hfed
    change searchPages client p n [] [] s = _ at hrun
    rw [hrun]
    exact iff_of_false id hfed

def Session.counted (s : Session κ) : Session κ := { s with time := s.time + 1 }

def counted (client : HighLevelClient κ) (s : Session κ) : ℤ :=
  toInt (matching client (s.indices s.time)).length

theorem countMatching_eq : countMatching client s = .ok (counted client s) s.counted := by
  have hcount := client.count_eq (s.indices s.time) "lhm" buildQuery
  have hrun : count client ⟨"lhm", buildQuery⟩ s =
      .ok (matching client (s.indices s.time)).length s.counted := by
    change ofExcept (client.count (s.indices s.time) _) s.counted = _
    rw [hcount]
    rfl
  exact bind_of_ok hrun

/-- The scan survives the changes of the index, which answers for pages of this size, if and
only if the request of each page still finds a matching document beyond those of the pages
before it. -/
theorem endsWell_countAndSearch_iff (client : HighLevelClient κ) (s : Session κ) {pageSize : ℤ}
    (hpageSize : 1 ≤ pageSize) (hwindow : pageSize ≤ client.maxResultWindow "lhm") :
    EndsWell (countAndSearch client pageSize s) ↔
      ∀ i < (pages (counted client s) pageSize).toNat,
        ∃ d ∈ matching client (s.indices (s.time + 1 + i)),
          ∀ e ∈ scan Document.id pageSize.toNat [] (arriving client s.counted) i, e.id < d.id := by
  obtain ⟨p, rfl⟩ := Int.eq_ofNat_of_zero_le (by omega : 0 ≤ pageSize)
  have hp : 0 < p := by omega
  rw [countAndSearch, bind_of_ok countMatching_eq, searchEsPage, endsWell_searchPages_iff (Int.ofNat_le.mp hwindow)]
  refine forall₂_congr fun i _ => ?_
  have hsorted := scan_pairwise (p := p) (arriving_pairwise client s.counted) List.Pairwise.nil i
  rw [page_ne_nil_iff hp hsorted]
  refine exists_congr fun d => and_congr_left fun _ => ?_
  exact (Index.ranked_perm _ _).mem_iff

theorem endsWell_countAndSearch_iff_of_names :
    1 ≤ (2 : ℤ) ∧ (EndsWell (countAndSearch namesServer 2 ⟨fun _ _ => names, 0, []⟩) ↔
      ∀ i < (pages (counted namesServer ⟨fun _ _ => names, 0, []⟩) 2).toNat,
        ∃ d ∈ matching namesServer fun _ => names,
          ∀ e ∈ scan Document.id 2 [] (arriving namesServer ⟨fun _ _ => names, 1, []⟩) i,
            e.id < d.id) :=
  ⟨by decide,
    endsWell_countAndSearch_iff namesServer ⟨fun _ _ => names, 0, []⟩ (by decide) (by decide)⟩

/-- One document matches when the count is taken, and it is deleted before the first page
is asked for. -/
def deletedAfterCount : Session ℕ where
  indices := fun
    | 0, _ => ⟨[⟨1, "李会明"⟩], by decide⟩
    | _ + 1, _ => ⟨[], by decide⟩
  time := 0
  searches := []

theorem not_endsWell_of_deletedAfterCount :
    (∃ s', countAndSearch namesServer 2 deletedAfterCount = .error .indexOutOfBounds s') ∧
      ¬EndsWell (countAndSearch namesServer 2 deletedAfterCount) := by
  have hcount : counted namesServer deletedAfterCount = 1 := by decide
  have hpages : (pages 1 2).toNat = 1 := by decide
  rw [countAndSearch, bind_of_ok countMatching_eq, hcount, searchEsPage, hpages]
  exact ⟨⟨_, rfl⟩, id⟩

end HelloBoot.EsController
