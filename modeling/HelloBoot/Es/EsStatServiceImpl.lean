import HelloBoot.Es.Search

/-!
# `EsStatServiceImpl`

The paged queries of the statistics service: the request they build from an
`EsStatDTO`, and the items they make of the response. With `top` the items are the
buckets of an aggregation, without it they are the hits of one page, each carrying the
sort values of the last hit as the cursor of the next page.
-/

namespace HelloBoot.Es

structure EsDataDTO where
  userId : Option String
  deriving DecidableEq

structure EsStatDTO where
  pageSize : Option ℤ
  minDocCount : Option ℤ
  startTime : Option ℤ
  endTime : Option ℤ
  typeCodeList : Option (List String)
  objects : Option (List ℤ)
  top : Option ℤ
  deriving DecidableEq

structure EsStatVO where
  groupId : Option String
  cnt : ℤ
  objects : Option (List ℤ)
  deriving DecidableEq

namespace EsStatServiceImpl

def esTestIndex : String := "es_test_index"

def isEmpty {α : Type} : Option (List α) → Bool
  | none | some [] => true
  | some (_ :: _) => false

def searchPageBuilder (labelStatDTO : EsStatDTO) (orderFieldName : String) :
    SearchSourceBuilder :=
  let searchSourceBuilder :=
    match labelStatDTO.pageSize with
    | none => SearchSourceBuilder.empty
    | some pageSize => { SearchSourceBuilder.empty with size := some pageSize }
  let searchSourceBuilder :=
    { searchSourceBuilder with trackTotalHits := true, sorts := [(orderFieldName, .asc)] }
  if isEmpty labelStatDTO.objects then searchSourceBuilder
  else { searchSourceBuilder with searchAfter := labelStatDTO.objects }

def rangeQueryBuilder (queryBuilder : BoolQueryBuilder) (labelStatDTO : EsStatDTO)
    (fieldName : String) : BoolQueryBuilder :=
  if labelStatDTO.startTime.isSome ∨ labelStatDTO.endTime.isSome then
    ⟨queryBuilder.must ++
      [.rangeQuery fieldName labelStatDTO.startTime labelStatDTO.endTime]⟩
  else queryBuilder

def ssmCheckQueryBuilder (labelStatDTO : EsStatDTO) : BoolQueryBuilder :=
  let boolQueryBuilder : BoolQueryBuilder :=
    ⟨[.termQuery "field1.keyword" "test1", .termQuery "field2.keyword" "test2"]⟩
  let boolQueryBuilder : BoolQueryBuilder :=
    if isEmpty labelStatDTO.typeCodeList then boolQueryBuilder
    else ⟨boolQueryBuilder.must ++ [.termsQuery "type_code" labelStatDTO.typeCodeList]⟩
  rangeQueryBuilder boolQueryBuilder labelStatDTO "startTime"

def travelQueryBuilder (labelStatDTO : EsStatDTO) : BoolQueryBuilder :=
  rangeQueryBuilder ⟨[.termsQuery "typeCode" labelStatDTO.typeCodeList]⟩ labelStatDTO
    "startTime"

/-- `travelQueryAggregationBuilder(labelStatDTO, gpFieldName)` for a non-null `top`. -/
def travelQueryAggregationBuilder (labelStatDTO : EsStatDTO) (top : ℤ)
    (gpFieldName : String) : TermsAggregationBuilder :=
  { name := "group_id", field := gpFieldName, size := top, orderByCountAsc := false,
    minDocCount := labelStatDTO.minDocCount }

/-- `Integer.parseInt(String.valueOf(n))` for a `long`. -/
def parseInt (n : ℤ) : Except Throwable ℤ :=
  if -2147483648 ≤ n ∧ n ≤ 2147483647 then .ok n else .error .numberFormat

def bucketItem (it : Bucket) : Except Throwable EsStatVO := do
  let cnt ← parseInt it.docCount
  return { groupId := some it.keyAsString, cnt := cnt, objects := none }

/-- `getBuckets()` of the aggregation `group_id`. -/
def getBuckets (response : SearchResponse) : Except Throwable (List Bucket) :=
  match response.aggregations with
  | none => .error .nullPointer
  | some aggregations =>
      match aggregations.lookup "group_id" with
      | none => .error .nullPointer
      | some (.parsedStringTerms buckets) => .ok buckets
      -- the cast to ParsedStringTerms
      | some .other => .error .unchecked

/-- `dealResponse(response, labelStatDTO, isCheck)`; `none` is null. -/
def dealResponse (toBean : String → EsDataDTO) (response : SearchResponse)
    (labelStatDTO : EsStatDTO) (isCheck : Bool) : Except Throwable (Option (List EsStatVO)) :=
  if labelStatDTO.top.isSome then do
    let buckets ← getBuckets response
    if buckets = [] then return none
    return some (← buckets.mapM bucketItem)
  else
    match response.hits.getLast? with
    | none => .ok none
    | some last => .ok <| some <| response.hits.map fun hit =>
        if isCheck then
          let scanRecordDto := toBean hit.sourceAsString
          { groupId := scanRecordDto.userId, cnt := 0, objects := some last.sortValues }
        else
          let travelOrderDto := toBean hit.sourceAsString
          { groupId := travelOrderDto.userId, cnt := 0, objects := some last.sortValues }

def searchSource (labelStatDTO : EsStatDTO) (query : BoolQueryBuilder)
    (gpFieldName : String) : SearchSourceBuilder :=
  { searchPageBuilder labelStatDTO "startTime" with
    query := some query
    aggregation := labelStatDTO.top.map fun top =>
      travelQueryAggregationBuilder labelStatDTO top gpFieldName }

variable {δ : Type} (toBean : String → EsDataDTO) (es : Elasticsearch δ)

def queryTravelPage (labelStatDTO : EsStatDTO) :
    Except Throwable (Option (List EsStatVO)) := do
  if isEmpty labelStatDTO.typeCodeList then
    throw (.illegalArgument "条件类型不能为空")
  let boolQueryBuilder := travelQueryBuilder labelStatDTO
  let response ← es.search ⟨esTestIndex, searchSource labelStatDTO boolQueryBuilder "gpField"⟩
  dealResponse toBean response labelStatDTO false

def querySsmCheckPage (labelStatDTO : EsStatDTO) :
    Except Throwable (Option (List EsStatVO)) := do
  let boolQueryBuilder := ssmCheckQueryBuilder labelStatDTO
  let response ← es.search
    ⟨esTestIndex, searchSource labelStatDTO boolQueryBuilder "userId.keyword"⟩
  dealResponse toBean response labelStatDTO true

end EsStatServiceImpl

end HelloBoot.Es
