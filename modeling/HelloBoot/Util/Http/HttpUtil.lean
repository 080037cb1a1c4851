import HelloBoot.Java.Call
import HelloBoot.Util.Http.Params

/-!
# `HttpUtil`

A post goes out over a `URLConnection`: the text of the body is written to it in UTF-8,
and the answer is read, or saved to a file. What the network does is a parameter, and the
state is the list of the connections over which a post has gone out.
-/

namespace HelloBoot.HttpUtil

open FormUrlEncoded Http

def jsonType : String := "application/json; charset=UTF-8"

def formType : String := "application/x-www-form-urlencoded"

def assembleFormData (formData : Option Params) : Option String := assemble formData

structure URLConnection where
  url : String
  requestProperties : List (String × String)
  doOutput : Bool
  useCaches : Bool
  connectTimeout : ℕ
  readTimeout : ℕ
  written : Option Octets

structure Network where
  /-- `new URL(url)` and `openConnection()`. -/
  openConnection : String → Except Throwable Unit
  /-- `getOutputStream()`, `write` and `flush`. -/
  write : URLConnection → Octets → Except Throwable Unit
  /-- Copying the answer to the named file. -/
  save : URLConnection → String → Except Throwable Unit
  /-- The lines of the answer. -/
  readLines : URLConnection → Except Throwable (List String)

abbrev Posting := EStateM Throwable (List URLConnection)

section Network

variable (net : Network)

/-- What `catch (IOException e) { throw new RuntimeException("...", e); }` makes of a
throwable. -/
def wrapIOException (t : Throwable) : Throwable := if t.isIOException then .runtime t else t

def writeBody (urlConnection : URLConnection) : Option String → Except Throwable URLConnection
  | none => .ok urlConnection
  | some jsonParam => do
      (net.write urlConnection (utf8 jsonParam)).mapError Call.wrap
      return { urlConnection with written := some (utf8 jsonParam) }

def getAnswer (urlConnection : URLConnection) : Option String → Except Throwable String
  | some downloadFile => do
      (net.save urlConnection downloadFile).mapError wrapIOException
      return "SUCCESS"
  | none => do
      let lines ← (net.readLines urlConnection).mapError Call.wrap
      return lines.foldl (· ++ ·) ""

def sendPost (url : String) (jsonParam : Option String) (header : Option Params) (type : String)
    (downloadFile : Option String) : Posting String := do
  Call.ofExcept ((net.openConnection url).mapError wrapIOException)
  let requestProperties ← Call.ofExcept (texts header)
  let urlConnection ← Call.ofExcept <| writeBody net
    { url
      requestProperties := requestProperties ++ [("Content-Type", type)]
      doOutput := true
      useCaches := false
      connectTimeout := 30000
      readTimeout := 60000
      written := none } jsonParam
  modify (· ++ [urlConnection])
  Call.ofExcept (getAnswer net urlConnection downloadFile)

def sendPostJson (url : String) (jsonParam : Option String) (header : Option Params) :
    Posting String :=
  sendPost net url jsonParam header jsonType none

def sendPostForm (url : String) (formData header : Option Params) : Posting String :=
  sendPost net url (assembleFormData formData) header formType none

def downloadFile (url : String) (formData header : Option Params) (downloadFile : Option String) :
    Posting String :=
  sendPost net url (assembleFormData formData) header formType downloadFile

end Network

def posted {α : Type} (x : Posting α) : List URLConnection := Call.after x []

section Posted

variable {net : Network} {url type : String} {jsonParam : Option String}
  {header : Option Params} {file : Option String} {urlConnection c : URLConnection}

theorem written_of_writeBody (h : writeBody net c jsonParam = .ok urlConnection)
    (hc : c.written = none) : urlConnection.written = jsonParam.map utf8 := by
  cases jsonParam with
  | none =>
      cases h
      exact hc
  | some jsonParam =>
      rw [writeBody] at h
      cases hwrite : (net.write c (utf8 jsonParam)).mapError Call.wrap with
      | error t =>
          rw [hwrite] at h
          cases h
      | ok _ =>
          rw [hwrite] at h
          cases h
          rfl

/-- Whatever is posted is the given text in UTF-8. -/
theorem written_of_mem_posted
    (h : urlConnection ∈ posted (sendPost net url jsonParam header type file)) :
    urlConnection.written = jsonParam.map utf8 := by
  have hkeeps : Call.Keeps (fun s => ∀ c ∈ s, URLConnection.written c = jsonParam.map utf8)
      (sendPost net url jsonParam header type file) := by
    refine Call.keeps_ofExcept_bind fun _ _ => Call.keeps_ofExcept_bind fun _ _ =>
      Call.keeps_ofExcept_bind fun c hc => .bind (Call.keeps_modify fun s hs => ?_) fun _ =>
        Call.keeps_ofExcept _
    rw [List.forall_mem_append, List.forall_mem_singleton]
    exact ⟨hs, written_of_writeBody hc rfl⟩
  exact hkeeps [] (by simp) urlConnection h

end Posted

end HelloBoot.HttpUtil
