import HelloBoot.Java.Call
import HelloBoot.Util.Http.Params

/-!
# `HttpClientUtil`

A method sets up an `HttpPost` and has it executed by the client. The library behind it is
a parameter, and the state is the list of the requests that have been executed.
-/

namespace HelloBoot.HttpClientUtil

open FormUrlEncoded Http

structure HttpPost where
  uri : String
  config : Option ℤ
  entity : Option Octets
  headers : List (String × String)

structure HttpComponents where
  /-- Whether `URI.create` takes the text. -/
  createUri : String → Except Throwable Unit
  /-- Whether `Timeout.ofSeconds` takes the number. -/
  ofSeconds : ℤ → Except Throwable Unit
  /-- The content of `new UrlEncodedFormEntity(pairs, UTF_8)`. -/
  urlEncodedFormEntity : List (String × String) → Octets
  /-- `httpClient.execute` and the text of the answer. -/
  execute : HttpPost → Except Throwable String

/-- The entity form-encodes names and values. -/
def HttpComponents.FormEncodes (lib : HttpComponents) : Prop :=
  ∀ pairs, lib.urlEncodedFormEntity pairs = format pairs

abbrev Requesting := EStateM Throwable (List HttpPost)

/-- `try { return x; } catch (Exception e) { log.error(url, e); return null; }`. -/
def catchException {α : Type} (x : Requesting α) : Requesting (Option α) := fun s =>
  match x s with
  | .ok a s' => .ok (some a) s'
  | .error t s' => if t.isException then .ok none s' else .error t s'

def assembleUrlParam (formData : Option Params) : Option String := assemble formData

def urlEncode (s : String) : String := ascii (encode s)

section HttpComponents

variable (lib : HttpComponents)

/-- `new HttpPost(url)`, and `setConfig` where a timeout is given. -/
def newHttpPost (url : String) (timeoutSeconds : Option ℤ) : Except Throwable HttpPost := do
  lib.createUri url
  timeoutSeconds.forM lib.ofSeconds
  return { uri := url, config := timeoutSeconds, entity := none, headers := [] }

def doPost (httpPost : HttpPost) (header : Option Params) : Requesting String := do
  let headers ← Call.ofExcept (texts header)
  let httpPost := { httpPost with headers := httpPost.headers ++ headers }
  modify (· ++ [httpPost])
  Call.ofExcept (lib.execute httpPost)

/-- The url of `doPostJson`, with a query if there are parameters. -/
def withUrlParam (url : String) (urlParam : Option Params) : Except Throwable String :=
  if isEmpty urlParam then .ok url
  else
    match assembleUrlParam urlParam with
    | some param => .ok (url ++ "?" ++ urlEncode param)
    | none => .error .nullPointer

def newJsonPost (url : String) (urlParam : Option Params) (json : Option String)
    (timeoutSeconds : Option ℤ) : Except Throwable HttpPost := do
  let url ← withUrlParam url urlParam
  let httpPost ← newHttpPost lib url timeoutSeconds
  match json with
  | some json =>
      return { httpPost with
        entity := some (utf8 json)
        headers := httpPost.headers ++ [("Content-Type", "application/json")] }
  -- new StringEntity(null, UTF_8)
  | none => throw .nullPointer

def doPostJson (url : String) (urlParam : Option Params) (json : Option String)
    (header : Option Params) (timeoutSeconds : Option ℤ) : Requesting (Option String) :=
  catchException do
    let httpPost ← Call.ofExcept (newJsonPost lib url urlParam json timeoutSeconds)
    doPost lib httpPost header

def newFormPost (url : String) (param : Option Params) (timeoutSeconds : Option ℤ) :
    Except Throwable HttpPost := do
  let httpPost ← newHttpPost lib url timeoutSeconds
  match param with
  | some _ =>
      let pairs ← texts param
      return { httpPost with entity := some (lib.urlEncodedFormEntity pairs) }
  | none => return httpPost

def doPostForm (url : String) (param header : Option Params) (timeoutSeconds : Option ℤ) :
    Requesting (Option String) :=
  catchException do
    let httpPost ← Call.ofExcept (newFormPost lib url param timeoutSeconds)
    doPost lib httpPost header

end HttpComponents

def requested {α : Type} (x : Requesting α) : List HttpPost := Call.after x []

section Requested

variable {lib : HttpComponents} {url : String} {timeoutSeconds : Option ℤ} {header : Option Params}
  {httpPost r : HttpPost}

theorem uri_of_newHttpPost (h : newHttpPost lib url timeoutSeconds = .ok httpPost) :
    httpPost.uri = url := by
  obtain ⟨_, _, h⟩ := Loops.exists_of_bind_eq_ok h
  obtain ⟨_, _, h⟩ := Loops.exists_of_bind_eq_ok h
  cases h
  rfl

theorem after_catchException {α : Type} (x : Requesting α) (s : List HttpPost) :
    Call.after (catchException x) s = Call.after x s := by
  rw [Call.after, Call.after, catchException]
  cases x s with
  | ok a s' => rfl
  | error t s' =>
      dsimp only
      by_cases ht : t.isException = true
      · rw [if_pos ht]
      · rw [if_neg ht]

/-- What is executed is the request that has been set up, with more headers. -/
theorem exists_of_mem_requested {build : Except Throwable HttpPost}
    (h : r ∈ requested (catchException do
      let httpPost ← Call.ofExcept build
      doPost lib httpPost header)) :
    ∃ httpPost, build = .ok httpPost ∧ r.uri = httpPost.uri ∧ r.entity = httpPost.entity := by
  have hkeeps : Call.Keeps
      (fun s => ∀ r ∈ s, ∃ httpPost, build = .ok httpPost ∧ r.uri = httpPost.uri ∧
        r.entity = httpPost.entity)
      (do
        let httpPost ← Call.ofExcept build
        doPost lib httpPost header) := by
    refine Call.keeps_ofExcept_bind fun httpPost hbuild => Call.keeps_ofExcept_bind fun _ _ =>
      .bind (Call.keeps_modify fun s hs => ?_) fun _ => Call.keeps_ofExcept _
    rw [List.forall_mem_append, List.forall_mem_singleton]
    exact ⟨hs, httpPost, hbuild, rfl, rfl⟩
  rw [requested, after_catchException] at h
  exact hkeeps [] (by simp) r h

/-- A request with parameters is made for the url with the whole text encoded. -/
theorem uri_of_mem_requested {urlParam : Params} (hne : urlParam.entries ≠ [])
    {json : Option String}
    (h : r ∈ requested (doPostJson lib url (some urlParam) json header timeoutSeconds)) :
    r.uri = url ++ "?" ++ urlEncode (joined (fields urlParam)) := by
  obtain ⟨httpPost, hbuild, huri, -⟩ := exists_of_mem_requested h
  obtain ⟨url', hurl, hbuild⟩ := Loops.exists_of_bind_eq_ok hbuild
  rw [withUrlParam, isEmpty, if_neg (by simpa using hne), assembleUrlParam, assemble_eq hne] at hurl
  cases hurl
  obtain ⟨new, hnew, hbuild⟩ := Loops.exists_of_bind_eq_ok hbuild
  cases json with
  | none => cases hbuild
  | some json =>
      cases hbuild
      have hnewUri := uri_of_newHttpPost hnew
      exact huri.trans hnewUri

/-- A form is posted only if no value is null, and then it is the entity of the entries. -/
theorem of_mem_requested {param : Params}
    (h : r ∈ requested (doPostForm lib url (some param) header timeoutSeconds)) :
    (∀ e ∈ param.entries, e.2 ≠ none) ∧
      r.entity = some (lib.urlEncodedFormEntity (fields param)) := by
  obtain ⟨httpPost, hbuild, -, hentity⟩ := exists_of_mem_requested h
  obtain ⟨new, hnew, hbuild⟩ := Loops.exists_of_bind_eq_ok hbuild
  obtain ⟨pairs, hpairs, hbuild⟩ := Loops.exists_of_bind_eq_ok hbuild
  cases hbuild
  obtain ⟨hnull, rfl⟩ := of_texts hpairs
  exact ⟨hnull, hentity⟩

end Requested

end HelloBoot.HttpClientUtil
