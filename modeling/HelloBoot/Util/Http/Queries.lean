import HelloBoot.Util.Http.HttpClientUtil

/-!
# The query of a JSON post

`doPostJson` encodes the joined parameters as one text, with the `=` and `&` between them.
The query therefore has no separator left: it is read as one name, the whole text, with an
empty value (`parse_query`), and never as the parameters (`not_survives`).
-/

namespace HelloBoot.HttpClientUtil

open FormUrlEncoded Http

/-- The query of a url: what follows the first `?`, up to the fragment. -/
def query (uri : String) : Option String :=
  let uri := (cut '#' uri.toList).1
  if '?' ∈ uri then some (String.ofList (cut '?' uri).2) else none

section Query

variable {url : String}

theorem query_of_hash_mem (hash : '#' ∈ url.toList) (hurl : '?' ∉ url.toList) (s : String) :
    query (url ++ "?" ++ s) = none := by
  obtain ⟨l, r, hsplit, hl⟩ := List.eq_append_cons_of_mem hash
  have hcut : cut '#' (url ++ "?" ++ s).toList = (l, r ++ '?' :: s.toList) := by
    rw [String.toList_append, String.toList_append, hsplit]
    simp [cut_append hl]
  rw [query, hcut]
  refine if_neg fun hmem => hurl ?_
  rw [hsplit]
  exact List.mem_append_left _ hmem

theorem query_of_hash_notMem {s : String} (hash : '#' ∉ url.toList) (hs : '#' ∉ s.toList)
    (hurl : '?' ∉ url.toList) : query (url ++ "?" ++ s) = some s := by
  have htoList : (url ++ "?" ++ s).toList = url.toList ++ '?' :: s.toList := by simp
  have hcut : cut '#' (url ++ "?" ++ s).toList = (url.toList ++ '?' :: s.toList, []) := by
    rw [htoList]
    exact cut_of_notMem (by simp [hash, hs])
  rw [query, hcut, if_pos (by simp), cut_append hurl]
  simp

theorem utf8_urlEncode (s : String) : utf8 (urlEncode s) = encode s :=
  utf8_ascii fun _ => lt_of_mem_encode

theorem hash_notMem_urlEncode (s : String) : '#' ∉ (urlEncode s).toList := by
  rw [← mem_utf8_iff (by decide), utf8_urlEncode]
  exact notMem_encode (by decide) (by decide) (by decide) s

end Query

section DoPostJson

variable {lib : HttpComponents} {url : String} {urlParam : Params} {json : Option String}
  {header : Option Params} {timeoutSeconds : Option ℤ} {r : HttpPost} {q : String}

theorem parse_query (hurl : '?' ∉ url.toList) (hne : urlParam.entries ≠ [])
    (hr : r ∈ requested (doPostJson lib url (some urlParam) json header timeoutSeconds))
    (hq : query r.uri = some q) :
    parse (utf8 q) = some [(joined (fields urlParam), "")] := by
  rw [uri_of_mem_requested hne hr] at hq
  by_cases hash : '#' ∈ url.toList
  · rw [query_of_hash_mem hash hurl] at hq
    cases hq
  · rw [query_of_hash_notMem hash (hash_notMem_urlEncode _) hurl] at hq
    rw [← Option.some.inj hq, utf8_urlEncode]
    exact parse_encode _

/-- No map of parameters is one entry with all of them in its name. -/
theorem fields_ne_joined (m : Params) : fields m ≠ [(joined (fields m), "")] := by
  intro h
  have hjoined : joined (fields m) = joined (fields m) ++ "=" ++ "" := by
    conv_lhs => rw [h, joined_singleton]
  have hlen := congrArg String.length hjoined
  simp at hlen

theorem not_carries_query (hurl : '?' ∉ url.toList) (hne : urlParam.entries ≠ [])
    (hr : r ∈ requested (doPostJson lib url (some urlParam) json header timeoutSeconds))
    (hq : query r.uri = some q) : ¬ Carries urlParam (utf8 q) := by
  rintro ⟨l, hl, hperm⟩
  rw [parse_query hurl hne hr hq] at hl
  cases hl
  exact fields_ne_joined urlParam (List.singleton_perm.mp hperm).symm

/-- The query of the request that is made is read as the parameters. -/
def Survives (lib : HttpComponents) (url : String) (urlParam : Params) (json : Option String)
    (header : Option Params) (timeoutSeconds : Option ℤ) : Prop :=
  ∃ r ∈ requested (doPostJson lib url (some urlParam) json header timeoutSeconds),
    ∃ q, query r.uri = some q ∧ Carries urlParam (utf8 q)

/-- The parameters never survive the post. -/
theorem not_survives (lib : HttpComponents) (hurl : '?' ∉ url.toList)
    (hne : urlParam.entries ≠ []) (json : Option String) (header : Option Params)
    (timeoutSeconds : Option ℤ) : ¬ Survives lib url urlParam json header timeoutSeconds := by
  rintro ⟨r, hr, q, hq, hcarries⟩
  exact not_carries_query hurl hne hr hq hcarries

end DoPostJson

/-- A library that takes every url and every timeout, and answers with nothing. -/
def loopback : HttpComponents where
  createUri _ := .ok ()
  ofSeconds _ := .ok ()
  urlEncodedFormEntity := format
  execute _ := .ok ""

theorem not_survives_userId :
    ¬ Survives loopback "http://127.0.0.1:8001/testJson" userId (some "[]") none (some 1) :=
  not_survives loopback (by decide) (by decide) _ _ _

def userIdPost : HttpPost where
  uri := "http://127.0.0.1:8001/testJson?userId%3D123"
  config := some 1
  entity := some [91, 93]
  headers := [("Content-Type", "application/json")]

/-- The post with `userId=123` is made, and its query is not read as this parameter. -/
theorem not_carries_userId :
    ¬ ∀ r ∈ requested (doPostJson loopback "http://127.0.0.1:8001/testJson" (some userId)
      (some "[]") none (some 1)), ∃ q, query r.uri = some q ∧ Carries userId (utf8 q) := by
  intro h
  have hr : userIdPost ∈ requested (doPostJson loopback "http://127.0.0.1:8001/testJson"
      (some userId) (some "[]") none (some 1)) := List.mem_singleton.mpr rfl
  obtain ⟨q, hq, hcarries⟩ := h userIdPost hr
  exact not_carries_query (by decide) (by decide) hr hq hcarries

end HelloBoot.HttpClientUtil
