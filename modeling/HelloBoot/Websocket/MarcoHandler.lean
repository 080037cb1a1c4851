import HelloBoot.Java.Throwable
import Mathlib.Data.List.Nodup

/-!
# `MarcoHandler`

The handler keeps the sessions that are connected in a hash set, so a call of
`sendMsgToUser` meets them in some order; the user names it is to reach come in a hash
set as well. A session carries the name under which its client has logged in, if it has
(`beforeHandshake`), and `sendMessage` on it returns or throws, which is the
environment's choice.

The loop over the sessions ends with the first session that raises an exception, and
the loop over the names with the first name. `deliveries_eq` says what is left of the
call.
-/

namespace HelloBoot.MarcoHandler

/-- A session: its identity, the attribute `WEBSOCKET_USERNAME`, and `isOpen()`. -/
structure WebSocketSession where
  id : ℕ
  userName : Option String
  isOpen : Bool
  deriving DecidableEq

structure TextMessage where
  payload : String
  deriving DecidableEq

/-- `beforeHandshake`: the attributes of a new session take the user name over from the
HTTP session, where `login` has put it. -/
def beforeHandshake (httpUserName attributes : Option String) : Option String :=
  if httpUserName ≠ none then httpUserName else attributes

/-- `userSessionSet`, in the order in which a loop meets it. -/
structure UserSessionSet where
  order : List WebSocketSession
  nodup : order.Nodup

namespace UserSessionSet

def empty : UserSessionSet := ⟨[], List.nodup_nil⟩

def afterConnectionEstablished (sessions : UserSessionSet) (session : WebSocketSession) :
    UserSessionSet where
  order := sessions.order.insert session
  nodup := sessions.nodup.insert

def afterConnectionClosed (sessions : UserSessionSet) (session : WebSocketSession) :
    UserSessionSet where
  order := sessions.order.erase session
  nodup := sessions.nodup.erase session

theorem mem_afterConnectionEstablished {sessions : UserSessionSet} {s t : WebSocketSession} :
    t ∈ (sessions.afterConnectionEstablished s).order ↔ t = s ∨ t ∈ sessions.order :=
  List.mem_insert_iff

theorem mem_afterConnectionClosed {sessions : UserSessionSet} {s t : WebSocketSession} :
    t ∈ (sessions.afterConnectionClosed s).order ↔ t ≠ s ∧ t ∈ sessions.order :=
  sessions.nodup.mem_erase_iff

end UserSessionSet

abbrev Delivery := WebSocketSession × TextMessage

abbrev Push := EStateM Throwable (List Delivery)

section Push

variable (fails : WebSocketSession → Option Throwable)

def sendMessage (session : WebSocketSession) (textMessage : TextMessage) : Push Unit :=
  match fails session with
  | none => modify (· ++ [(session, textMessage)])
  | some t => throw t

def sendToUsers (session : WebSocketSession) (textMessage : TextMessage) :
    List (Option String) → Push Unit
  | [] => pure ()
  -- the `break` stands after the `if`, so the first name is the last one
  | user :: _ =>
      match session.userName with
      | none => throw .nullPointer
      | some targetUser =>
          if some targetUser = user then sendMessage fails session textMessage else pure ()

/-- The loop over the sessions, with its `catch (Exception e)`, which returns. -/
def sendMsgToUser (userNameSet : List (Option String)) (textMessage : TextMessage) :
    List WebSocketSession → Push Unit
  | [] => pure ()
  | session :: sessions => fun sent =>
      match (if session.isOpen then sendToUsers fails session textMessage userNameSet
          else pure ()) sent with
      | .ok _ sent => sendMsgToUser userNameSet textMessage sessions sent
      | .error t sent => if t.isException then .ok () sent else .error t sent

end Push

/-- What has been sent when a call ends. -/
def sent : EStateM.Result Throwable (List Delivery) Unit → List Delivery
  | .ok _ sent | .error _ sent => sent

section Deliveries

variable (fails : WebSocketSession → Option Throwable) (sessions : UserSessionSet)
  (userNameSet : List (Option String)) (textMessage : TextMessage)

def deliveries : List Delivery :=
  sent (sendMsgToUser fails userNameSet textMessage sessions.order [])

def send (targetUser : Option String) (msg : String) : List Delivery :=
  deliveries fails sessions [targetUser] ⟨msg⟩

def raises (session : WebSocketSession) : Bool :=
  session.isOpen && userNameSet.head?.any fun user =>
    session.userName.isNone || session.userName == user && (fails session).isSome

def receives (session : WebSocketSession) : Bool :=
  session.isOpen && userNameSet.head?.any fun user =>
    session.userName.isSome && session.userName == user && (fails session).isNone

end Deliveries

variable {fails : WebSocketSession → Option Throwable} {sessions : UserSessionSet}
  {userNameSet : List (Option String)} {textMessage : TextMessage} {session : WebSocketSession}

theorem raises_iff :
    raises fails userNameSet session = true ↔ session.isOpen = true ∧
      ∃ user, userNameSet.head? = some user ∧
        (session.userName = none ∨ session.userName = user ∧ fails session ≠ none) := by
  simp [raises, Option.any_eq_true, Option.isSome_iff_ne_none]

theorem receives_iff :
    receives fails userNameSet session = true ↔ session.isOpen = true ∧
      userNameSet.head? = some session.userName ∧ session.userName ≠ none ∧
        fails session = none := by
  simp only [receives, Bool.and_eq_true, Option.any_eq_true, Option.isSome_iff_ne_none,
    Option.isNone_iff_eq_none, beq_iff_eq]
  grind

/-- A session that raises an exception has not received the message. -/
theorem body_of_raises (h : raises fails userNameSet session = true)
    (textMessage : TextMessage) (log : List Delivery) :
    ∃ t, (if session.isOpen then sendToUsers fails session textMessage userNameSet
      else pure ()) log = .error t log := by
  cases userNameSet with
  | nil => simp [raises] at h
  | cons user users =>
      cases hname : session.userName with
      | none =>
          simp only [raises, Bool.and_eq_true] at h
          refine ⟨.nullPointer, ?_⟩
          rw [if_pos h.1, sendToUsers, hname]
          rfl
      | some targetUser =>
          simp only [raises, hname, List.head?_cons, Option.any_some, Option.isNone_some,
            Bool.false_or, Bool.and_eq_true, beq_iff_eq] at h
          obtain ⟨hopen, rfl, hfails⟩ := h
          obtain ⟨t, ht⟩ := Option.isSome_iff_exists.mp hfails
          refine ⟨t, ?_⟩
          rw [if_pos hopen, sendToUsers, hname]
          dsimp only
          rw [if_pos rfl, sendMessage, ht]
          rfl

/-- Any other session receives the message or is passed over. -/
theorem body_of_not_raises (h : raises fails userNameSet session = false) (log : List Delivery) :
    (if session.isOpen then sendToUsers fails session textMessage userNameSet
      else pure ()) log =
      .ok () (log ++ if receives fails userNameSet session then [(session, textMessage)]
        else []) := by
  cases hopen : session.isOpen with
  | false => simp [receives, hopen, pure, EStateM.pure]
  | true =>
      cases userNameSet with
      | nil => simp [receives, sendToUsers, pure, EStateM.pure]
      | cons user users =>
          cases hname : session.userName with
          | none => simp [raises, hopen, hname] at h
          | some targetUser =>
              rcases eq_or_ne (some targetUser) user with rfl | huser
              · have hfails : fails session = none := by simpa [raises, hopen, hname] using h
                have hreceives : receives fails (some targetUser :: users) session = true := by
                  simp [receives, hopen, hname, hfails]
                rw [if_pos rfl, hreceives, if_pos rfl, sendToUsers, hname]
                dsimp only
                rw [if_pos rfl, sendMessage, hfails]
                rfl
              · simp [receives, hname, huser, sendToUsers, pure, EStateM.pure]

theorem sent_sendMsgToUser (l : List WebSocketSession) (log : List Delivery) :
    sent (sendMsgToUser fails userNameSet textMessage l log) =
      log ++ ((l.takeWhile (!raises fails userNameSet ·)).filter
        (receives fails userNameSet)).map (·, textMessage) := by
  induction l generalizing log with
  | nil => simp [sendMsgToUser, sent, pure, EStateM.pure]
  | cons session l ih =>
      cases h : raises fails userNameSet session with
      | true =>
          obtain ⟨t, ht⟩ := body_of_raises h textMessage log
          simp only [sendMsgToUser, ht]
          split <;> simp [sent, h]
      | false =>
          simp only [sendMsgToUser, body_of_not_raises h, ih]
          cases hr : receives fails userNameSet session <;> simp [h, hr]

/-- The message goes to the sessions before the first that raises an exception, as far
as they carry the first name. -/
theorem deliveries_eq :
    deliveries fails sessions userNameSet textMessage =
      ((sessions.order.takeWhile (!raises fails userNameSet ·)).filter
        (receives fails userNameSet)).map (·, textMessage) :=
  sent_sendMsgToUser sessions.order []

end HelloBoot.MarcoHandler
