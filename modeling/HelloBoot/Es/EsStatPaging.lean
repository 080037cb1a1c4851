import HelloBoot.Es.EsStatServiceImpl

/-!
# Reading all pages of the statistics service

A client asks for the first page without a cursor and then passes on the `objects` of
the items it has received, until it gets null. Sorted by `startTime` alone, the cursor
cannot tell documents of one time apart: the client receives every matching document
exactly once if and only if no page ends between two documents with the same
`startTime` (`receivesEachOnce_iff`).
-/

namespace HelloBoot.Es.EsStatServiceImpl

open Paging

inductive PageQuery where
  | travel
  | ssmCheck
  deriving DecidableEq

namespace PageQuery

variable {δ : Type} (toBean : String → EsDataDTO) (es : Elasticsearch δ)

def queryBuilder : PageQuery → EsStatDTO → BoolQueryBuilder
  | travel => travelQueryBuilder
  | ssmCheck => ssmCheckQueryBuilder

def accepts : PageQuery → EsStatDTO → Bool
  | travel, labelStatDTO => !isEmpty labelStatDTO.typeCodeList
  | ssmCheck, _ => true

def page : PageQuery → EsStatDTO → Except Throwable (Option (List EsStatVO))
  | travel => queryTravelPage toBean es
  | ssmCheck => querySsmCheckPage toBean es

def selected (q : PageQuery) (labelStatDTO : EsStatDTO) : List δ :=
  (es.docs esTestIndex).filter (es.selects (q.queryBuilder labelStatDTO))

def ranked (q : PageQuery) (labelStatDTO : EsStatDTO) : List δ :=
  es.ranked esTestIndex (q.queryBuilder labelStatDTO) "startTime"

def userId (d : δ) : Option String := (toBean (es.sourceAsString d)).userId

def item (last d : δ) : EsStatVO :=
  ⟨userId toBean es d, 0, some [es.sortValue "startTime" last]⟩

/-- The items of a page; a page without documents is null. -/
def items (l : List δ) : Option (List EsStatVO) :=
  l.getLast?.map fun last => l.map (item toBean es last)

end PageQuery

/-- What a client receives that goes on with the `objects` of the last page until it
gets null; it asks for at most `n` pages. -/
def readAll (query : EsStatDTO → Except Throwable (Option (List EsStatVO))) :
    ℕ → EsStatDTO → Option (Except Throwable (List EsStatVO))
  | 0, _ => none
  | n + 1, labelStatDTO =>
      match query labelStatDTO with
      | .error e => some (.error e)
      | .ok none => some (.ok [])
      | .ok (some items) =>
          (readAll query n
            { labelStatDTO with objects := items.getLast?.bind (·.objects) }).map
            fun rest => rest.map (items ++ ·)

namespace PageQuery

variable {δ : Type} {toBean : String → EsDataDTO} {es : Elasticsearch δ} {q : PageQuery}
  {labelStatDTO : EsStatDTO} {p : ℕ} {after : Option ℤ}

/-- The cursor changes nothing about what a request selects. -/
theorem ranked_objects (objects : Option (List ℤ)) :
    q.ranked es { labelStatDTO with objects := objects } = q.ranked es labelStatDTO := by
  cases q <;> rfl

theorem accepts_objects (objects : Option (List ℤ)) :
    q.accepts { labelStatDTO with objects := objects } = q.accepts labelStatDTO := by
  cases q <;> rfl

variable (toBean) in
theorem dealResponse_eq {response : SearchResponse} {l : List δ} (isCheck : Bool)
    (htop : labelStatDTO.top = none)
    (hhits : response.hits =
      l.map fun d => ⟨es.sourceAsString d, [es.sortValue "startTime" d]⟩) :
    dealResponse toBean response labelStatDTO isCheck = .ok (items toBean es l) := by
  rw [dealResponse, htop, hhits, List.getLast?_map, items]
  cases hlast : l.getLast? with
  | none => rfl
  | some last => cases isCheck <;> simp [item, userId]

theorem searchSource_eq (hsize : labelStatDTO.pageSize = some (p : ℤ))
    (htop : labelStatDTO.top = none) (hobjects : labelStatDTO.objects = after.map ([·]))
    (query : BoolQueryBuilder) (gpFieldName : String) :
    searchSource labelStatDTO query gpFieldName =
      ⟨some query, some (p : ℤ), true, [("startTime", .asc)], after.map ([·]), none⟩ := by
  cases after <;>
    simp [searchSource, searchPageBuilder, hsize, htop, hobjects, isEmpty,
      SearchSourceBuilder.empty]

variable (toBean es) in
theorem page_eq (hwindow : p ≤ es.maxResultWindow esTestIndex)
    (hsize : labelStatDTO.pageSize = some (p : ℤ)) (htop : labelStatDTO.top = none)
    (hobjects : labelStatDTO.objects = after.map ([·]))
    (haccepts : q.accepts labelStatDTO = true) :
    q.page toBean es labelStatDTO = .ok
      (items toBean es
        ((beyond (es.sortValue "startTime") after (q.ranked es labelStatDTO)).take p)) := by
  obtain ⟨response, hresponse, hhits⟩ := es.hits_search esTestIndex
    ⟨some (q.queryBuilder labelStatDTO), some (p : ℤ), true, [("startTime", .asc)],
      after.map ([·]), none⟩ _ _ p after rfl rfl rfl hwindow rfl rfl
  cases q with
  | travel =>
      have hcheck : isEmpty labelStatDTO.typeCodeList = false := by
        simpa [accepts] using haccepts
      have hitems := dealResponse_eq toBean false htop hhits
      have hsource := searchSource_eq hsize htop hobjects (travelQueryBuilder labelStatDTO)
        "gpField"
      rw [queryBuilder, ← hsource] at hresponse
      simp only [page, queryTravelPage, hcheck, hresponse]
      exact hitems
  | ssmCheck =>
      have hitems := dealResponse_eq toBean true htop hhits
      have hsource := searchSource_eq hsize htop hobjects (ssmCheckQueryBuilder labelStatDTO)
        "userId.keyword"
      rw [queryBuilder, ← hsource] at hresponse
      simp only [page, querySsmCheckPage, hresponse]
      exact hitems

theorem map_groupId_item (last : δ) (l : List δ) :
    (l.map (item toBean es last)).map (·.groupId) = l.map (userId toBean es) := by
  rw [List.map_map]
  rfl

/-- The client goes on behind the last document of a page. -/
theorem readAll_succ {query : EsStatDTO → Except Throwable (Option (List EsStatVO))} {n : ℕ}
    {l : List δ} {last : δ} (hlast : l.getLast? = some last)
    (hquery : query labelStatDTO = .ok (items toBean es l)) :
    readAll query (n + 1) labelStatDTO =
      (readAll query n { labelStatDTO with objects := some [es.sortValue "startTime" last] }).map
        fun rest => rest.map (l.map (item toBean es last) ++ ·) := by
  rw [readAll, hquery, items, hlast]
  simp only [Option.map_some, List.getLast?_map, hlast]
  rfl

variable (toBean es after) in
/-- The client receives what the pages of the index serve. -/
theorem readAll_eq (hwindow : p ≤ es.maxResultWindow esTestIndex)
    (hsize : labelStatDTO.pageSize = some (p : ℤ))
    (htop : labelStatDTO.top = none) (haccepts : q.accepts labelStatDTO = true) {n : ℕ}
    (hobjects : labelStatDTO.objects = after.map ([·]))
    (hn : (beyond (es.sortValue "startTime") after (q.ranked es labelStatDTO)).length < n) :
    ∃ received, readAll (q.page toBean es) n labelStatDTO = some (.ok received) ∧
      received.map (·.groupId) =
        (served (es.sortValue "startTime") p
          (beyond (es.sortValue "startTime") after (q.ranked es labelStatDTO))).map
          (userId toBean es) := by
  induction n generalizing labelStatDTO after with
  | zero => omega
  | succ n ih =>
      have hpage := page_eq toBean es hwindow hsize htop hobjects haccepts
      set l := beyond (es.sortValue "startTime") after (q.ranked es labelStatDTO) with hl
      cases hlast : (l.take p).getLast? with
      | none =>
          rw [readAll, hpage, items, hlast,
            served_of_take_eq_nil (List.getLast?_eq_none_iff.mp hlast)]
          exact ⟨[], rfl, rfl⟩
      | some last =>
          have hmem := mem_of_getLast?_take p hlast
          have hshorter := length_beyond_lt (es.sortValue "startTime") hmem
          let next : EsStatDTO :=
            { labelStatDTO with objects := some [es.sortValue "startTime" last] }
          have hbeyond : beyond (es.sortValue "startTime") (some (es.sortValue "startTime" last))
              (q.ranked es next) =
              beyond (es.sortValue "startTime") (some (es.sortValue "startTime" last)) l := by
            rw [ranked_objects, hl, beyond_beyond (hl ▸ hmem)]
          obtain ⟨rest, hrest, hserved⟩ := @ih next (some (es.sortValue "startTime" last)) hsize
            htop ((accepts_objects _).trans haccepts) rfl (by rw [hbeyond]; omega)
          refine ⟨(l.take p).map (item toBean es last) ++ rest, ?_, ?_⟩
          · rw [readAll_succ hlast hpage, hrest]
            rfl
          · rw [served_of_getLast? hlast, List.map_append, List.map_append, hserved,
              map_groupId_item, hbeyond]

/-- The sort values the server goes through are those of the selected documents in
ascending order. -/
theorem map_ranked :
    (q.ranked es labelStatDTO).map (es.sortValue "startTime") =
      ((q.selected es labelStatDTO).map (es.sortValue "startTime")).insertionSort (· ≤ ·) := by
  have hperm := (es.ranked_perm esTestIndex (q.queryBuilder labelStatDTO) "startTime").map
    (es.sortValue "startTime")
  refine (hperm.trans (List.perm_insertionSort _ _).symm).eq_of_pairwise'
    (List.pairwise_map.mpr (es.ranked_sorted _ _ _)) (List.pairwise_insertionSort _ _)

/-- The client gets null in the end, and has received the items of the selected
documents, one for each. -/
def ReceivesEachOnce (toBean : String → EsDataDTO) (es : Elasticsearch δ) (q : PageQuery)
    (labelStatDTO : EsStatDTO) (n : ℕ) : Prop :=
  ∃ (received : List EsStatVO) (l : List δ),
    readAll (q.page toBean es) n labelStatDTO = some (.ok received) ∧
    l.Perm (q.selected es labelStatDTO) ∧ received.map (·.groupId) = l.map (userId toBean es)

/-- With a positive page size for which the index answers, without `top` and from no cursor,
the client receives every selected document exactly once if and only if no page ends between
two documents with the same `startTime`. -/
theorem receivesEachOnce_iff (toBean : String → EsDataDTO) (es : Elasticsearch δ)
    (q : PageQuery) (labelStatDTO : EsStatDTO) {p n : ℕ} (hp : 0 < p)
    (hwindow : p ≤ es.maxResultWindow esTestIndex)
    (hsize : labelStatDTO.pageSize = some (p : ℤ)) (htop : labelStatDTO.top = none)
    (hobjects : labelStatDTO.objects = none) (haccepts : q.accepts labelStatDTO = true)
    (hn : (q.selected es labelStatDTO).length < n) :
    ReceivesEachOnce toBean es q labelStatDTO n ↔
      Separated p
        (((q.selected es labelStatDTO).map (es.sortValue "startTime")).insertionSort (· ≤ ·)) := by
  have hperm : (q.ranked es labelStatDTO).Perm (q.selected es labelStatDTO) :=
    es.ranked_perm _ _ _
  have hsorted := es.ranked_sorted esTestIndex (q.queryBuilder labelStatDTO) "startTime"
  obtain ⟨received, hread, hreceived⟩ := readAll_eq toBean es none hwindow hsize htop
    haccepts hobjects (hperm.length_eq ▸ hn)
  rw [← map_ranked]
  refine Iff.trans ?_ (served_eq_iff hp hsorted)
  constructor
  · rintro ⟨received', l, hread', hl, hitems⟩
    rw [hread] at hread'
    cases hread'
    have hlength := congrArg List.length (hreceived.symm.trans hitems)
    simp only [List.length_map] at hlength
    exact (served_sublist hsorted).eq_of_length
      (hlength.trans (hl.length_eq.trans hperm.length_eq.symm))
  · intro hserved
    refine ⟨received, _, hread, hperm, ?_⟩
    rw [hreceived]
    exact congrArg _ hserved

def serverOf (docs : List (String × ℤ)) : Elasticsearch (String × ℤ) where
  docs _ := docs
  selects _ _ := true
  sourceAsString d := d.1
  sortValue _ d := d.2
  ranked _ _ _ := docs.insertionSort fun d e => d.2 ≤ e.2
  maxResultWindow _ := 10000
  search request := .ok
    ⟨((beyond Prod.snd (request.source.searchAfter.bind List.head?)
        (docs.insertionSort fun d e => d.2 ≤ e.2)).take
          (request.source.size.getD 10).toNat).map fun d => ⟨d.1, [d.2]⟩, none⟩
  ranked_perm _ _ _ := by
    rw [List.filter_true]
    exact List.perm_insertionSort _ _
  ranked_sorted _ _ _ :=
    have : Std.Total fun d e : String × ℤ => d.2 ≤ e.2 := ⟨fun d e => le_total d.2 e.2⟩
    have : IsTrans (String × ℤ) fun d e => d.2 ≤ e.2 := ⟨fun _ _ _ => le_trans⟩
    List.pairwise_insertionSort _ _
  hits_search _ _ _ _ _ after _ _ hsize _ hafter _ := by
    refine ⟨_, rfl, ?_⟩
    rw [hsize, hafter]
    cases after <;> rfl

def firstPage (p : ℕ) : EsStatDTO := ⟨some p, none, none, none, some ["1"], none, none⟩

theorem receivesEachOnce_of_tie_inside_page :
    ReceivesEachOnce (fun source => ⟨some source⟩) (serverOf [("a", 2), ("b", 1), ("c", 1)])
      .travel (firstPage 2) 4 :=
  (receivesEachOnce_iff _ _ _ _ (p := 2) (by decide) (by decide) rfl rfl rfl rfl (by decide)).mpr (by decide)

/-- Two documents of one time and pages of one document: the second is never received. -/
theorem not_receivesEachOnce_of_tie :
    ¬ ReceivesEachOnce (fun source => ⟨some source⟩) (serverOf [("a", 1), ("b", 1)])
      .ssmCheck (firstPage 1) 3 := by
  rintro ⟨received, l, hread, hl, hitems⟩
  have hrun : readAll (ssmCheck.page (fun source => ⟨some source⟩)
      (serverOf [("a", 1), ("b", 1)])) 3 (firstPage 1) =
      some (.ok [⟨some "a", 0, some [1]⟩]) := by rfl
  rw [hrun] at hread
  cases hread
  have hlength := congrArg List.length hitems
  rw [List.length_map, List.length_map, hl.length_eq] at hlength
  cases hlength

end PageQuery

end HelloBoot.Es.EsStatServiceImpl
