import HelloBoot.Java.Throwable
import HelloBoot.Paging.Served

/-!
# Search requests and the index behind them

The requests that the statistics service sends, as the builders record them, the
responses it reads, and `Elasticsearch`: an index server as far as the service relies
on one. Its fields `docs`, `selects` and `sortValue` say what is stored and what a
query selects; `search` is the server itself, with the laws of a search sorted by one
field.
-/

namespace HelloBoot.Es

inductive QueryBuilder where
  | termQuery (field value : String)
  | termsQuery (field : String) (values : Option (List String))
  | rangeQuery (field : String) (gte lt : Option ℤ)
  deriving DecidableEq

structure BoolQueryBuilder where
  must : List QueryBuilder
  deriving DecidableEq

inductive SortOrder where
  | asc
  | desc
  deriving DecidableEq

/-- `AggregationBuilders.terms(name)` as the service sets it; `orderByCountAsc` is the
argument of `BucketOrder.count`. -/
structure TermsAggregationBuilder where
  name : String
  field : String
  size : ℤ
  orderByCountAsc : Bool
  minDocCount : Option ℤ
  deriving DecidableEq

structure SearchSourceBuilder where
  query : Option BoolQueryBuilder
  size : Option ℤ
  trackTotalHits : Bool
  sorts : List (String × SortOrder)
  searchAfter : Option (List ℤ)
  aggregation : Option TermsAggregationBuilder
  deriving DecidableEq

def SearchSourceBuilder.empty : SearchSourceBuilder := ⟨none, none, false, [], none, none⟩

structure SearchRequest where
  index : String
  source : SearchSourceBuilder
  deriving DecidableEq

structure SearchHit where
  sourceAsString : String
  sortValues : List ℤ
  deriving DecidableEq

structure Bucket where
  keyAsString : String
  docCount : ℤ
  deriving DecidableEq

/-- An aggregation of a response: a `ParsedStringTerms` with its buckets, or one of
another class. -/
inductive Aggregation where
  | parsedStringTerms (buckets : List Bucket)
  | other
  deriving DecidableEq

structure SearchResponse where
  hits : List SearchHit
  aggregations : Option (List (String × Aggregation))
  deriving DecidableEq

/-- An index server with documents `δ` that do not change, and with the setting
`index.max_result_window` of each index. A search sorted by one field in ascending order
finds the matching documents in that order, documents with one sort value in a fixed
order; `searchAfter` leaves those strictly beyond the value, and `size`, which may be as
large as the setting, truncates what is found. -/
structure Elasticsearch (δ : Type) where
  docs : String → List δ
  selects : BoolQueryBuilder → δ → Bool
  sourceAsString : δ → String
  sortValue : String → δ → ℤ
  search : SearchRequest → Except Throwable SearchResponse
  ranked : String → BoolQueryBuilder → String → List δ
  maxResultWindow : String → ℕ
  ranked_perm : ∀ index query field,
    (ranked index query field).Perm ((docs index).filter (selects query))
  ranked_sorted : ∀ index query field,
    (ranked index query field).Pairwise fun d e => sortValue field d ≤ sortValue field e
  hits_search : ∀ index source query field (size : ℕ) after,
    source.query = some query → source.sorts = [(field, .asc)] → source.size = some (size : ℤ) →
    size ≤ maxResultWindow index → source.searchAfter = after.map ([·]) → source.aggregation = none →
    ∃ response, search ⟨index, source⟩ = .ok response ∧
      response.hits =
        ((Paging.beyond (sortValue field) after (ranked index query field)).take size).map
          fun d => ⟨sourceAsString d, [sortValue field d]⟩

end HelloBoot.Es
