import HelloBoot.Java.Call
import HelloBoot.Thrift.UserInfoOrder

/-!
# A call of `HelloService`

The client writes the struct `getUser_args` and reads the struct `getUser_result`; the processor
reads the one and writes the other. What lies between them, the transport and the classes that
frame and dispatch the messages, is a parameter: `Peer` is what the client gets for a method and
the text of its arguments.
-/

namespace HelloBoot.Thrift

namespace HelloService

open Wire

variable {β : Type} (P : TProtocol β)

/-! ### The structs -/

/-- `getUser_args`, with the bit of `__isset_bitfield`. -/
structure GetUserArgs where
  issetId : Bool := false
  id : Int32 := 0
  deriving DecidableEq

namespace GetUserArgs

def setId (struct : GetUserArgs) (id : Int32) : GetUserArgs :=
  { struct with id := id, issetId := true }

/-- The switch of `getUser_argsStandardScheme.read`. -/
def readField (schemeField : TField) (struct : GetUserArgs) : Reader β TException GetUserArgs :=
  if schemeField.id = 1 then P.readTyped .i32 struct.setId schemeField.type struct
  else P.skip schemeField.type >>= fun _ => pure struct

def read (struct : GetUserArgs) : Reader β TException GetUserArgs :=
  StandardScheme.read P (readField P) struct

def write (struct : GetUserArgs) : List β :=
  P.writeStructBegin "getUser_args" ++
  P.writeField ⟨"id", TType.i32, 1⟩ (P.writeI32 struct.id) ++
  P.writeFieldStop ++
  P.writeStructEnd

end GetUserArgs

/-- `getUser_result`, with `none` for null. -/
structure GetUserResult where
  success : Option UserInfo := none
  deriving DecidableEq

namespace GetUserResult

def isSetSuccess (struct : GetUserResult) : Bool := struct.success.isSome

/-- The switch of `getUser_resultStandardScheme.read`. -/
def readField (schemeField : TField) (struct : GetUserResult) :
    Reader β TException GetUserResult :=
  if schemeField.id = 0 then
    if schemeField.type = TType.struct then
      UserInfo.read P {} >>= fun success => pure { struct with success := some success }
    else P.skip schemeField.type >>= fun _ => pure struct
  else P.skip schemeField.type >>= fun _ => pure struct

def read (struct : GetUserResult) : Reader β TException GetUserResult :=
  StandardScheme.read P (readField P) struct

def write (struct : GetUserResult) : List β :=
  P.writeStructBegin "getUser_result" ++
  UserInfo.writeOptional P ⟨"success", TType.struct, 0⟩ (UserInfo.write P) struct.success ++
  P.writeFieldStop ++
  P.writeStructEnd

end GetUserResult

/-! ### The two sides -/

variable {σ : Type}

/-- What the client gets for a method and the text of its arguments: the text of the result, or
the exception with which `sendBase` or `receiveBase` end. The state is the server's. -/
abbrev Peer (β σ : Type) := String → List β → EStateM TException σ (List β)

abbrev Iface (σ : Type) := Int32 → EStateM Throwable σ (Option UserInfo)

def getResult (iface : Iface σ) (args : GetUserArgs) : EStateM Throwable σ GetUserResult := do
  let success ← iface args.id
  return { success := success }

namespace Client

def sendGetUser (id : Int32) : List β := GetUserArgs.write P (GetUserArgs.setId {} id)

def recvGetUser (text : List β) : Except TException UserInfo :=
  match (GetUserResult.read P {}).run text with
  | .error e => .error e
  | .ok (result, _) =>
      match result.success with
      | some success => .ok success
      | none => .error (.application TApplicationException.missingResult
          "getUser failed: unknown result")

def getUser (peer : Peer β σ) (id : Int32) : EStateM TException σ UserInfo := fun s =>
  match peer "getUser" (sendGetUser P id) s with
  | .error e s' => .error e s'
  | .ok text s' =>
      match recvGetUser P text with
      | .error e => .error e s'
      | .ok user => .ok user s'

end Client

/-! ### The text of the structs -/

section Texts

variable {P} {Carries : String → Prop} {Encodes : Int8 → List β → Prop}

theorem GetUserArgs.takes_write (hP : P.Lawful Carries Encodes) (id : Int32) :
    (read P {}).Takes (write P (setId {} id)) (setId {} id) := by
  have htext : write P (setId {} id) =
      structText P "getUser_args" [⟨"id", 1, .scalar .i32 id⟩] := by
    simp only [structText, write, List.flatMap_cons, List.flatMap_nil, List.append_nil,
      List.append_assoc]
    rfl
  have hfield : ∀ f ∈ [(⟨"id", 1, .scalar .i32 id⟩ : SentField β)], ∀ name struct,
      (readField P ⟨name, f.value.type, f.id⟩ struct).Takes (f.value.text P) (setId struct id) :=
    List.forall_mem_singleton.mpr fun name struct => (hP.readI32 id).map
  rw [htext]
  refine StandardScheme.takes_read hP ?_ hfield "getUser_args" {}
  exact List.forall_mem_singleton.mpr (Scalar.type_ne_stop .i32)

theorem GetUserResult.takes_write_none (hP : P.Lawful Carries Encodes) :
    (read P {}).Takes (write P {}) {} := by
  have htext : write P {} = structText P "getUser_result" [] := by
    simp [structText, write, UserInfo.writeOptional]
  have hfield : ∀ f ∈ ([] : List (SentField β)), ∀ name struct,
      (readField P ⟨name, f.value.type, f.id⟩ struct).Takes (f.value.text P) struct :=
    fun f hf => absurd hf List.not_mem_nil
  rw [htext]
  exact StandardScheme.takes_read hP (fun f hf => absurd hf List.not_mem_nil) hfield
    "getUser_result" {}

theorem GetUserResult.takes_write_some (hP : P.Lawful Carries Encodes) {user : UserInfo}
    (h : user.Carried Carries) :
    (read P {}).Takes (write P { success := some user }) { success := some user.received } := by
  have htext : write P { success := some user } = structText P "getUser_result"
      [⟨"success", 0, .other TType.struct (UserInfo.write P user)⟩] := by
    simp [structText, write, UserInfo.writeOptional, SentField.text, TValue.type, TValue.text]
  have hfield : ∀ f ∈ [(⟨"success", 0, .other TType.struct (UserInfo.write P user)⟩ :
      SentField β)], ∀ name struct, (readField P ⟨name, f.value.type, f.id⟩ struct).Takes
        (f.value.text P) { struct with success := some user.received } :=
    List.forall_mem_singleton.mpr fun name struct => (UserInfo.takes_write hP h).map
  rw [htext]
  refine StandardScheme.takes_read hP ?_ hfield "getUser_result" {}
  exact List.forall_mem_singleton.mpr (by decide : TType.struct ≠ TType.stop)

end Texts

/-! ### A call -/

section Call

/-- The peer runs `Processor.getUser` for the service: it reads the arguments, calls the service,
and sends the result, or what `failure` makes of a throwable. -/
def Serves (peer : Peer β σ) (iface : Iface σ) (failure : Throwable → TException) : Prop :=
  ∀ text args rest, (GetUserArgs.read P {}).run text = .ok (args, rest) → ∀ s,
    peer "getUser" text s =
      match getResult iface args s with
      | .ok result s' => .ok (GetUserResult.write P result) s'
      | .error t s' => .error (failure t) s'

variable {P} {Carries : String → Prop} {Encodes : Int8 → List β → Prop} {peer : Peer β σ}
  {iface : Iface σ} {failure : Throwable → TException}

theorem recvGetUser_write_none (hP : P.Lawful Carries Encodes) :
    Client.recvGetUser P (GetUserResult.write P {}) = .error (.application
      TApplicationException.missingResult "getUser failed: unknown result") := by
  have hread := GetUserResult.takes_write_none hP []
  rw [List.append_nil] at hread
  rw [Client.recvGetUser, hread]

theorem recvGetUser_write_some (hP : P.Lawful Carries Encodes) {user : UserInfo}
    (h : user.Carried Carries) :
    Client.recvGetUser P (GetUserResult.write P { success := some user }) = .ok user.received := by
  have hread := GetUserResult.takes_write_some hP h []
  rw [List.append_nil] at hread
  rw [Client.recvGetUser, hread]

theorem peer_sendGetUser (hP : P.Lawful Carries Encodes) (hpeer : Serves P peer iface failure)
    (id : Int32) (s : σ) : peer "getUser" (Client.sendGetUser P id) s =
      match getResult iface (GetUserArgs.setId {} id) s with
      | .ok result s' => .ok (GetUserResult.write P result) s'
      | .error t s' => .error (failure t) s' := by
  have hread := GetUserArgs.takes_write hP id []
  rw [List.append_nil] at hread
  exact hpeer _ _ _ hread s

theorem getUser_of_peer (hP : P.Lawful Carries Encodes) {id : Int32} {s : σ}
    (hcarried : ∀ user s', iface id s = .ok (some user) s' → user.Carried Carries)
    (hpeer : peer "getUser" (Client.sendGetUser P id) s =
      match getResult iface (GetUserArgs.setId {} id) s with
      | .ok result s' => .ok (GetUserResult.write P result) s'
      | .error t s' => .error (failure t) s') :
    Client.getUser P peer id s =
      match iface id s with
      | .ok (some user) s' => .ok user.received s'
      | .ok none s' => .error (.application TApplicationException.missingResult
          "getUser failed: unknown result") s'
      | .error t s' => .error (failure t) s' := by
  have hresult (user : Option UserInfo) (s' : σ) (h : iface id s = .ok user s') :
      getResult iface (GetUserArgs.setId {} id) s = .ok { success := user } s' := by
    change (iface id >>= fun success => pure (GetUserResult.mk success)) s = _
    rw [Call.bind_of_ok h]
    rfl
  rw [Client.getUser, hpeer]
  cases h : iface id s with
  | ok user s' =>
      rw [hresult user s' h]
      cases user with
      | none => simp only [recvGetUser_write_none hP]
      | some user => simp only [recvGetUser_write_some hP (hcarried user s' h)]
  | error t s' =>
      have herror : getResult iface (GetUserArgs.setId {} id) s = .error t s' :=
        Call.bind_of_error h
      rw [herror]

/-- A call of the client does to the server what a call of the service does, and returns what the
service returned as it is received, or the exception that the outcome stands for. -/
theorem getUser_eq (hP : P.Lawful Carries Encodes) (hpeer : Serves P peer iface failure)
    (hcarried : ∀ id s user s', iface id s = .ok (some user) s' → user.Carried Carries)
    (id : Int32) (s : σ) : Client.getUser P peer id s =
      match iface id s with
      | .ok (some user) s' => .ok user.received s'
      | .ok none s' => .error (.application TApplicationException.missingResult
          "getUser failed: unknown result") s'
      | .error t s' => .error (failure t) s' :=
  getUser_of_peer hP (hcarried id s) (peer_sendGetUser hP hpeer id s)

def processorPeer (P : TProtocol β) (iface : Iface σ) (failure : Throwable → TException) :
    Peer β σ := fun _ text s =>
  match (GetUserArgs.read P {}).run text with
  | .error e => .error e s
  | .ok (args, _) =>
      match getResult iface args s with
      | .ok result s' => .ok (GetUserResult.write P result) s'
      | .error t s' => .error (failure t) s'

theorem serves_processorPeer : Serves P (processorPeer P iface failure) iface failure := by
  intro text args rest hread s
  rw [processorPeer, hread]

/-- `HelloServiceImpl.getUser(id)`; `getTestList` is the query of which it logs the result. -/
def helloServiceImpl {α : Type} (getTestList : EStateM Throwable σ α) : Iface σ := fun _ => do
  let _ ← getTestList
  return some (UserInfo.setUsername {} (some "lhm"))

theorem getUser_eq_helloServiceImpl :
    Client.getUser tBinaryProtocol (processorPeer tBinaryProtocol
        (helloServiceImpl (modify (· + 1))) fun _ => .transport) 12 5 =
      .ok { isset := ⟨true, true, false, true⟩, username := some "lhm" } 6 := by
  refine getUser_eq tBinaryProtocol_lawful serves_processorPeer ?_ 12 5
  intro id s user s' h
  cases h
  exact UserInfo.carried_username (by decide)

end Call

end HelloService

end HelloBoot.Thrift
