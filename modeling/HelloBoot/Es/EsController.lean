import HelloBoot.Es.Search
import HelloBoot.Java.Call
import Mathlib.Algebra.Order.Ring.Int

/-!
# `EsController`

`searchEsPage` reads the documents that `buildQuery` matches page by page, in the order
of their `_id`; the number of pages follows from a count that `getPage` has asked for
before. The index may change between two requests: a `Session` says what it holds when
each request arrives, and keeps the searches that were sent. The identifiers are of a
linearly ordered type `κ`. `HighLevelClient` is the server as far as the controller
relies on it.
-/

namespace HelloBoot.EsController

open Es (QueryBuilder BoolQueryBuilder SortOrder)

variable {κ : Type}

structure Document (κ : Type) where
  id : κ
  source : String
  deriving DecidableEq

/-- What an index holds at one moment: no two documents have the same `_id`. -/
structure Index (κ : Type) where
  docs : List (Document κ)
  nodup : (docs.map Document.id).Nodup

/-- `SearchSourceBuilder`, as `searchEsPage` sets it. -/
structure SearchSourceBuilder (κ : Type) where
  query : Option BoolQueryBuilder
  size : Option ℤ
  sorts : List (String × SortOrder)
  searchAfter : Option (List κ)
  deriving DecidableEq

structure SearchRequest (κ : Type) where
  index : String
  source : SearchSourceBuilder κ
  deriving DecidableEq

structure CountRequest where
  index : String
  query : BoolQueryBuilder
  deriving DecidableEq

structure SearchHit (κ : Type) where
  id : κ
  sourceAsString : String
  sortValues : List κ
  deriving DecidableEq

def Document.hit (d : Document κ) : SearchHit κ := ⟨d.id, d.source, [d.id]⟩

section Server

variable [LinearOrder κ]

/-- The documents that match, in ascending order of their `_id`. -/
def Index.ranked (index : Index κ) (selects : Document κ → Bool) : List (Document κ) :=
  (index.docs.filter selects).insertionSort fun d e => d.id ≤ e.id

/-- A server, with the documents that a query selects and the setting `index.max_result_window`
of each index. A search sorted by `_id` finds the matching documents in ascending order;
`searchAfter` leaves those strictly beyond the value, and `size`, which may be as large as
the setting, truncates what is found. -/
structure HighLevelClient (κ : Type) [LinearOrder κ] where
  selects : BoolQueryBuilder → Document κ → Bool
  search : (String → Index κ) → SearchRequest κ → Except Throwable (List (SearchHit κ))
  count : (String → Index κ) → CountRequest → Except Throwable ℕ
  maxResultWindow : String → ℕ
  search_eq : ∀ indices index query (size : ℕ) after, size ≤ maxResultWindow index →
    search indices
        ⟨index, ⟨some query, some (size : ℤ), [("_id", .asc)], after.map ([·])⟩⟩ =
      .ok (((Paging.beyond Document.id after ((indices index).ranked (selects query))).take
        size).map Document.hit)
  count_eq : ∀ indices index query,
    count indices ⟨index, query⟩ = .ok ((indices index).docs.filter (selects query)).length

end Server

/-- The requests so far, and what the indices hold when each request arrives. -/
structure Session (κ : Type) where
  indices : ℕ → String → Index κ
  time : ℕ
  searches : List (SearchRequest κ)

variable [LinearOrder κ] (client : HighLevelClient κ)

def search (request : SearchRequest κ) : EStateM Throwable (Session κ) (List (SearchHit κ)) := do
  let s ← get
  set { s with time := s.time + 1, searches := s.searches ++ [request] }
  Call.ofExcept (client.search (s.indices s.time) request)

def count (request : CountRequest) : EStateM Throwable (Session κ) ℕ := do
  let s ← get
  set { s with time := s.time + 1 }
  Call.ofExcept (client.count (s.indices s.time) request)

def buildQuery : BoolQueryBuilder := ⟨[.termQuery "name.keyword" "李会明"]⟩

def toInt (n : ℤ) : ℤ := n.bmod (2 ^ 32)

/-- The count that `getPage` asks for before it reads the pages. -/
def countMatching : EStateM Throwable (Session κ) ℤ := do
  let cntRes ← count client ⟨"lhm", buildQuery⟩
  return toInt cntRes

def pages (cnt pageSize : ℤ) : ℤ :=
  let pages := cnt.tdiv pageSize
  let rem := cnt.tmod pageSize
  if rem = 0 then pages else pages + 1

/-- The request of one page; `objects` are the sort values of the last hit. -/
def pageRequest (pageSize : ℤ) (objects : List κ) : SearchRequest κ :=
  ⟨"lhm",
    { query := some buildQuery
      size := some pageSize
      sorts := [("_id", .asc)]
      searchAfter := if objects.length > 0 then some objects else none }⟩

def lastSortValues (hitsArr : List (SearchHit κ)) : Except Throwable (List κ) :=
  match hitsArr.getLast? with
  | none => .error .indexOutOfBounds
  | some hit => .ok hit.sortValues

/-- The loop of `searchEsPage` with a number of rounds to go. -/
def searchPages (pageSize : ℤ) :
    ℕ → List κ → List (SearchHit κ) → EStateM Throwable (Session κ) (List (SearchHit κ))
  | 0, _, esDatalist => return esDatalist
  | n + 1, objects, esDatalist => do
      let hitsArr ← search client (pageRequest pageSize objects)
      let objects ← Call.ofExcept (lastSortValues hitsArr)
      searchPages pageSize n objects (esDatalist ++ hitsArr)

def searchEsPage (cnt pageSize : ℤ) :
    EStateM Throwable (Session κ) (List (SearchHit κ)) :=
  searchPages client pageSize (pages cnt pageSize).toNat [] []

/-- The end of `getPage`, for pages of any size. -/
def countAndSearch (pageSize : ℤ) : EStateM Throwable (Session κ) (List (SearchHit κ)) := do
  let count ← countMatching client
  searchEsPage client count pageSize

end HelloBoot.EsController
