import HelloBoot.Websocket.MarcoHandler
import Mathlib.Data.List.TakeWhile

/-!
# Whom `sendMsgToUser` reaches

Two early exits decide whom a message reaches. The loop over the user names ends with
the first name, so a session is reached only if it carries that one
(`exactlyOnce_iff`). And the first session that raises an exception ends the loop over
the sessions, so those behind it are not reached (`unblocked_iff`).
-/

namespace HelloBoot.MarcoHandler

/-- What the first element without `p` cuts off holds no element with `q` if and only if
no such element stands before one with `q`. -/
theorem forall_mem_takeWhile_iff {α : Type*} {l : List α} (hl : l.Nodup) {p q : α → Bool}
    (hpq : ∀ a, q a = true → p a = true) :
    (∀ b ∈ l, q b = true → b ∈ l.takeWhile p) ↔
      l.Pairwise fun a b => ¬ (p a = false ∧ q b = true) := by
  induction l with
  | nil => simp
  | cons a l ih =>
      obtain ⟨ha, hl⟩ := List.nodup_cons.mp hl
      rw [List.pairwise_cons, ← ih hl]
      cases hp : p a with
      | true =>
          rw [List.takeWhile_cons_of_pos hp]
          constructor
          · intro h
            refine ⟨fun b _ => by simp, fun b hb hq => ?_⟩
            exact (List.mem_cons.mp (h b (.tail a hb) hq)).resolve_left (by grind)
          · rintro ⟨-, h⟩ b hb hq
            rcases List.mem_cons.mp hb with rfl | hb
            · exact .head _
            · exact .tail a (h b hb hq)
      | false =>
          rw [List.takeWhile_cons_of_neg (by simp [hp])]
          constructor
          · intro h
            have hnone : ∀ b ∈ l, ¬ q b = true := fun b hb hq => by
              simpa using h b (.tail a hb) hq
            exact ⟨fun b hb hab => hnone b hb hab.2, fun b hb hq => absurd hq (hnone b hb)⟩
          · rintro ⟨h, -⟩ b hb hq
            rcases List.mem_cons.mp hb with rfl | hb
            · exact absurd (hpq b hq) (by simp [hp])
            · exact absurd ⟨rfl, hq⟩ (h b hb)

section Deliveries

variable {fails : WebSocketSession → Option Throwable} {sessions : UserSessionSet}
  {userNameSet : List (Option String)} {textMessage : TextMessage} {session : WebSocketSession}

theorem mem_deliveries {d : Delivery} :
    d ∈ deliveries fails sessions userNameSet textMessage ↔
      d.1 ∈ sessions.order.takeWhile (!raises fails userNameSet ·) ∧
        receives fails userNameSet d.1 = true ∧ d.2 = textMessage := by
  obtain ⟨s, m⟩ := d
  simp only [deliveries_eq, List.mem_map, List.mem_filter, Prod.mk.injEq]
  constructor
  · rintro ⟨_, ⟨hs, hr⟩, rfl, rfl⟩
    exact ⟨hs, hr, rfl⟩
  · rintro ⟨hs, hr, rfl⟩
    exact ⟨s, ⟨hs, hr⟩, rfl, rfl⟩

theorem nodup_deliveries : (deliveries fails sessions userNameSet textMessage).Nodup := by
  rw [deliveries_eq]
  refine List.Nodup.map (fun s t h => congrArg Prod.fst h) (List.Nodup.filter _ ?_)
  exact sessions.nodup.sublist (List.takeWhile_sublist _)

/-- The message has been sent exactly once to each of the addressed sessions, and to no
other. -/
def ExactlyOnce (sessions : UserSessionSet) (addressed : WebSocketSession → Prop)
    (textMessage : TextMessage) (log : List Delivery) : Prop :=
  (∀ s ∈ sessions.order, addressed s → log.count (s, textMessage) = 1) ∧
    ∀ d ∈ log, d.1 ∈ sessions.order ∧ addressed d.1 ∧ d.2 = textMessage

/-- If no send fails, the message reaches the sessions whose user name is in the set
exactly once if and only if they all carry the name that the set yields first. -/
theorem exactlyOnce_iff (hopen : ∀ s ∈ sessions.order, s.isOpen = true)
    (hname : ∀ s ∈ sessions.order, s.userName ≠ none)
    (hfails : ∀ s ∈ sessions.order, fails s = none) :
    ExactlyOnce sessions (·.userName ∈ userNameSet) textMessage
        (deliveries fails sessions userNameSet textMessage) ↔
      ∀ s ∈ sessions.order, s.userName ∈ userNameSet → userNameSet.head? = some s.userName := by
  have hraises : ∀ s ∈ sessions.order, (!raises fails userNameSet s) = true := fun s hs => by
    rw [Bool.not_eq_true', ← Bool.not_eq_true, raises_iff]
    rintro ⟨-, user, -, hnone | ⟨-, hthrows⟩⟩
    · exact hname s hs hnone
    · exact hthrows (hfails s hs)
  have hmem {d : Delivery} : d ∈ deliveries fails sessions userNameSet textMessage ↔
      d.1 ∈ sessions.order ∧ userNameSet.head? = some d.1.userName ∧ d.2 = textMessage := by
    rw [mem_deliveries, List.takeWhile_eq_self_iff.mpr hraises]
    refine and_congr_right fun hs => and_congr_left fun _ => ?_
    simp [receives_iff, hopen d.1 hs, hname d.1 hs, hfails d.1 hs]
  constructor
  · rintro ⟨honce, -⟩ s hs haddressed
    have hpos : 0 < (deliveries fails sessions userNameSet textMessage).count (s, textMessage) := by
      rw [honce s hs haddressed]
      exact Nat.one_pos
    exact (hmem.mp (List.count_pos_iff.mp hpos)).2.1
  · intro hfirst
    refine ⟨fun s hs haddressed => ?_, fun d hd => ?_⟩
    · exact List.count_eq_one_of_mem nodup_deliveries (hmem.mpr ⟨hs, hfirst s hs haddressed, rfl⟩)
    · obtain ⟨hs, hhead, hm⟩ := hmem.mp hd
      exact ⟨hs, List.mem_of_mem_head? hhead, hm⟩

/-- Two sessions of one user: the first of the two names reaches both. -/
theorem exactlyOnce_iff_two :
    ExactlyOnce ⟨[⟨0, some "a", true⟩, ⟨1, some "a", true⟩], by decide⟩
        (·.userName ∈ [some "a", some "b"]) ⟨"hello"⟩
        (deliveries (fun _ => none) ⟨[⟨0, some "a", true⟩, ⟨1, some "a", true⟩], by decide⟩
          [some "a", some "b"] ⟨"hello"⟩) :=
  (exactlyOnce_iff (by decide) (by decide) (by decide)).mpr (by decide)

/-- A session of the second of two names is not reached. -/
theorem not_exactlyOnce_of_second :
    ¬ ExactlyOnce ⟨[⟨0, some "b", true⟩], by decide⟩ (·.userName ∈ [some "a", some "b"])
        ⟨"hello"⟩
        (deliveries (fun _ => none) ⟨[⟨0, some "b", true⟩], by decide⟩ [some "a", some "b"]
          ⟨"hello"⟩) := by
  rintro ⟨honce, -⟩
  exact absurd (honce ⟨0, some "b", true⟩ (by decide) (by decide)) (by decide)

/-- The session of a client that is logged in as the target. -/
def LoggedInAs (targetUser : Option String) (s : WebSocketSession) : Prop :=
  s.userName ≠ none ∧ s.userName = targetUser

/-- An open session of the target on which `sendMessage` returns. -/
def Healthy (fails : WebSocketSession → Option Throwable) (targetUser : Option String)
    (s : WebSocketSession) : Prop :=
  s.isOpen = true ∧ LoggedInAs targetUser s ∧ fails s = none

/-- An open session that is anonymous, or the target's and `sendMessage` on it throws. -/
def Blocks (fails : WebSocketSession → Option Throwable) (targetUser : Option String)
    (s : WebSocketSession) : Prop :=
  s.isOpen = true ∧ (s.userName = none ∨ s.userName = targetUser ∧ fails s ≠ none)

/-- Each healthy session of the target receives the message, as often as if it were the
only session. -/
def Unblocked (fails : WebSocketSession → Option Throwable) (sessions : UserSessionSet)
    (targetUser : Option String) (msg : String) : Prop :=
  ∀ s ∈ sessions.order, Healthy fails targetUser s →
    (s, ⟨msg⟩) ∈ send fails sessions targetUser msg ∧
      (send fails sessions targetUser msg).count (s, ⟨msg⟩) =
        (send fails ⟨[s], List.nodup_singleton s⟩ targetUser msg).count (s, ⟨msg⟩)

theorem receives_singleton_iff {targetUser : Option String} {s : WebSocketSession} :
    receives fails [targetUser] s = true ↔ Healthy fails targetUser s := by
  simp only [receives_iff, Healthy, LoggedInAs, List.head?_cons, Option.some.injEq]
  grind

theorem raises_singleton_iff {targetUser : Option String} {s : WebSocketSession} :
    raises fails [targetUser] s = true ↔ Blocks fails targetUser s := by
  simp [raises_iff, Blocks]

theorem Healthy.not_blocks {targetUser : Option String} {s : WebSocketSession}
    (h : Healthy fails targetUser s) : ¬ Blocks fails targetUser s := by
  rintro ⟨-, hnone | ⟨-, hfails⟩⟩
  · exact h.2.1.1 hnone
  · exact hfails h.2.2

theorem Healthy.mem_send_iff {targetUser : Option String} {s : WebSocketSession}
    (h : Healthy fails targetUser s) (msg : String) :
    (s, ⟨msg⟩) ∈ send fails sessions targetUser msg ↔
      s ∈ sessions.order.takeWhile (!raises fails [targetUser] ·) := by
  rw [send, mem_deliveries]
  simp [receives_singleton_iff.mpr h]

/-- A request reaches all healthy sessions of the target if and only if no session that
blocks stands before one of them in the order of the set. -/
theorem unblocked_iff (fails : WebSocketSession → Option Throwable) (sessions : UserSessionSet)
    (targetUser : Option String) (msg : String) :
    Unblocked fails sessions targetUser msg ↔
      sessions.order.Pairwise fun s t =>
        ¬ (Blocks fails targetUser s ∧ Healthy fails targetUser t) := by
  have hcut := forall_mem_takeWhile_iff sessions.nodup
    (p := (!raises fails [targetUser] ·)) (q := receives fails [targetUser]) fun s hs => by
      rw [Bool.not_eq_true', ← Bool.not_eq_true, raises_singleton_iff]
      exact (receives_singleton_iff.mp hs).not_blocks
  simp only [Bool.not_eq_false', raises_singleton_iff, receives_singleton_iff] at hcut
  rw [← hcut]
  refine forall₂_congr fun s hs => forall_congr' fun hhealthy => ?_
  rw [← hhealthy.mem_send_iff msg]
  refine and_iff_left_of_imp fun hmem => ?_
  have halone : (s, ⟨msg⟩) ∈ send fails ⟨[s], List.nodup_singleton s⟩ targetUser msg := by
    rw [hhealthy.mem_send_iff]
    have hnot := raises_singleton_iff.not.mpr hhealthy.not_blocks
    simp [hnot]
  exact (List.count_eq_one_of_mem nodup_deliveries hmem).trans
    (List.count_eq_one_of_mem nodup_deliveries halone).symm

/-- The session of a client that never logged in stands before the session of the
target, and the message is not sent. -/
theorem not_unblocked_of_anonymous :
    ¬ Unblocked (fun _ => none)
        ((UserSessionSet.empty.afterConnectionEstablished
          ⟨0, beforeHandshake (some "a") none, true⟩).afterConnectionEstablished
          ⟨1, beforeHandshake none none, true⟩) (some "a") "hello" := by
  intro h
  exact absurd (h ⟨0, some "a", true⟩ (by decide) ⟨rfl, ⟨by decide, rfl⟩, rfl⟩).1 (by decide)

end Deliveries

end HelloBoot.MarcoHandler
