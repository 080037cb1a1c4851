import HelloBoot.AckQueue.Custody
import HelloBoot.Transition.System
import HelloBoot.Util.Mq.Receive

/-!
# What the consumers do to the messages of a queue

Producers put messages into a queue, and the broker hands them to the consumers that `receive` has
installed. A consumer runs `handleDelivery` on its deliveries in their order, and the consumers run
at the same time: that the service returns or throws, an acknowledgement and a `basicNack` are steps
of their own. An acknowledgement may get through or not and return or throw. The broker may lose a
consumer with its connection, or with its channel, which the client library closes when
`handleDelivery` throws; it then makes ready again what the consumer had not settled, while the
client may still run it. A message with an expiration may expire while it is ready.

Whatever happens, no message is lost: each is in exactly one place, and it is settled only after
the service has returned from it (`Inv`). It is not handled once only, unless every
acknowledgement gets through and returns and no consumer is lost (`Exact`). A consumer that goes on
alone does what `handleDelivery` does (`leads_run`).
-/

namespace HelloBoot.RabbitmqUtil

open Transition

/-- A message, with the number under which it was published. -/
structure Message where
  id : ℕ
  body : ByteArray
  expiration : Bool

/-- The queue, the deliveries that the client has still to run, those from which the service has
returned and those from which something was caught, and, for the record, what was published and
from what the service has returned. -/
structure Consuming where
  queue : AckQueue Message ℕ := {}
  inbox : List (Held Message ℕ) := []
  acking : List (Held Message ℕ) := []
  nacking : List (Held Message ℕ) := []
  published : List Message := []
  consumed : List Message := []

/-- What becomes of a method of the channel: the broker may see it or not, and it may throw. -/
structure Answer where
  performed : Bool
  thrown : Option Throwable

/-- The steps of the producers, the consumers and the broker; `outcome` is how the service ends. -/
inductive Event where
  | publish (body : ByteArray) (expiration : Bool)
  | deliver (consumer i : ℕ)
  | serve (consumer : ℕ) (outcome : Except Throwable Unit)
  | ack (consumer : ℕ) (a : Answer)
  | nack (consumer : ℕ) (a : Answer)
  | lose (consumer : ℕ)
  | expire (i : ℕ)

namespace Consuming

/-- A method of the channel that does `f` to the queue. -/
def method (a : Answer) (f : AckQueue Message ℕ → AckQueue Message ℕ) :
    EStateM Throwable Consuming Unit := fun s =>
  let s' := { s with queue := if a.performed then f s.queue else s.queue }
  match a.thrown with
  | none => .ok () s'
  | some t => .error t s'

def consume (d : Held Message ℕ) (outcome : Except Throwable Unit) :
    EStateM Throwable Consuming Unit := fun s =>
  match outcome with
  | .ok _ => .ok () { s with consumed := s.consumed ++ [d.item] }
  | .error t => .error t s

/-- The deliveries that a tag of `holder` means, with `multiple` all up to it. -/
def named (holder tag : ℕ) (multiple : Bool) (d : Held Message ℕ) : Bool :=
  d.holder = holder && if multiple then d.tag ≤ tag else d.tag = tag

def basicAck (a : Answer) (holder tag : ℕ) (multiple : Bool) : EStateM Throwable Consuming Unit :=
  method a fun q => q.settle (named holder tag multiple)

def basicNack (a : Answer) (holder tag : ℕ) (multiple requeue : Bool) :
    EStateM Throwable Consuming Unit :=
  method a fun q =>
    if requeue then q.giveBack (named holder tag multiple)
    else q.reject (named holder tag multiple)

/-- `handleDelivery` of a delivery, run by itself. -/
def run (outcome : Except Throwable Unit) (ack nack : Answer) (d : Held Message ℕ) :
    EStateM Throwable Consuming Unit :=
  handleDelivery (fun _ => "") (fun _ _ => consume d outcome) (basicAck ack d.holder)
    (basicNack nack d.holder) none none d.tag d.item.body

/-- The `catch` clause is next for a delivery, unless it does not catch what was thrown. -/
def caught (d : Held Message ℕ) (t : Throwable) (s : Consuming) : Consuming :=
  if t.isException then { s with nacking := s.nacking ++ [d] } else s

/-- `handleDelivery` of a delivery goes on with `next` or with the `catch` clause. -/
def goOn (d : Held Message ℕ) (next : Consuming → Consuming) :
    EStateM.Result Throwable Consuming Unit → Consuming
  | .ok _ s => next s
  | .error t s => caught d t s

def isOf (consumer : ℕ) (d : Held Message ℕ) : Bool := d.holder = consumer

/-- The service has ended for a delivery of the consumer, and `handleDelivery` has not. -/
def isBusy (s : Consuming) (consumer : ℕ) : Bool :=
  s.acking.any (isOf consumer) || s.nacking.any (isOf consumer)

def step (s : Consuming) : Event → Option Consuming
  | .publish body expiration =>
      let m : Message := ⟨s.published.length, body, expiration⟩
      some { s with queue := s.queue.put m, published := s.published ++ [m] }
  | .deliver consumer i =>
      if h : i < s.queue.ready.length then
        some { s with
          queue := s.queue.take consumer i h
          inbox := s.inbox ++ [⟨consumer, s.queue.nextTag, s.queue.ready[i]⟩] }
      else none
  | .serve consumer outcome =>
      if s.isBusy consumer then none
      else
        (s.inbox.find? (isOf consumer)).map fun d =>
          goOn d (fun s => { s with acking := s.acking ++ [d] })
            (consume d outcome { s with inbox := s.inbox.eraseP (isOf consumer) })
  | .ack consumer a =>
      (s.acking.find? (isOf consumer)).map fun d =>
        goOn d id
          (basicAck a d.holder d.tag false { s with acking := s.acking.eraseP (isOf consumer) })
  | .nack consumer a =>
      (s.nacking.find? (isOf consumer)).map fun d =>
        Call.after (basicNack a d.holder d.tag false true)
          { s with nacking := s.nacking.eraseP (isOf consumer) }
  | .lose consumer => some { s with queue := s.queue.giveBack (isOf consumer) }
  | .expire i =>
      if h : i < s.queue.ready.length then
        if s.queue.ready[i].expiration then some { s with queue := s.queue.expire i h } else none
      else none

def system : System Consuming Event where
  init := {}
  step := step

/-- The deliveries of which `handleDelivery` has not ended. -/
def atClient (s : Consuming) : Multiset (Held Message ℕ) := s.inbox + s.acking + s.nacking

section Moves

variable {s s' : Consuming} {d : Held Message ℕ} {p : Held Message ℕ → Bool} {consumer : ℕ}

theorem mem_atClient : d ∈ s.atClient ↔ d ∈ s.inbox ∨ d ∈ s.acking ∨ d ∈ s.nacking := by
  simp only [atClient, Multiset.mem_add, Multiset.mem_coe, or_assoc]

theorem cons_eraseP {l : List (Held Message ℕ)} (h : l.find? p = some d) :
    d ::ₘ (l.eraseP p : Multiset (Held Message ℕ)) = l := by
  obtain ⟨hp, as, bs, rfl, has⟩ := List.find?_eq_some_iff_append.mp h
  have herase : (as ++ d :: bs).eraseP p = as ++ bs := by
    rw [List.eraseP_append_right _ fun a ha => by simpa using has a ha,
      List.eraseP_cons_of_pos hp]
  rw [herase]
  exact Multiset.coe_eq_coe.mpr List.perm_middle.symm

theorem cons_atClient_inbox (h : s.inbox.find? p = some d) :
    d ::ₘ atClient { s with inbox := s.inbox.eraseP p } = s.atClient := by
  simp only [atClient, ← cons_eraseP h, Multiset.cons_add]

theorem cons_atClient_acking (h : s.acking.find? p = some d) :
    d ::ₘ atClient { s with acking := s.acking.eraseP p } = s.atClient := by
  simp only [atClient, ← cons_eraseP h, Multiset.cons_add, Multiset.add_cons]

theorem cons_atClient_nacking (h : s.nacking.find? p = some d) :
    d ::ₘ atClient { s with nacking := s.nacking.eraseP p } = s.atClient := by
  simp only [atClient, ← cons_eraseP h, Multiset.add_cons]

theorem coe_concat (l : List (Held Message ℕ)) (d : Held Message ℕ) :
    ((l ++ [d] : List (Held Message ℕ)) : Multiset (Held Message ℕ)) = d ::ₘ l :=
  Multiset.coe_eq_coe.mpr (List.perm_append_singleton d l)

theorem atClient_acking (s : Consuming) (d : Held Message ℕ) :
    atClient { s with acking := s.acking ++ [d] } = d ::ₘ s.atClient := by
  simp only [atClient, coe_concat, Multiset.cons_add, Multiset.add_cons]

theorem atClient_nacking (s : Consuming) (d : Held Message ℕ) :
    atClient { s with nacking := s.nacking ++ [d] } = d ::ₘ s.atClient := by
  simp only [atClient, coe_concat, Multiset.add_cons]

section Caught

variable (s d) (t : Throwable)

@[simp] theorem queue_caught : (caught d t s).queue = s.queue := by
  unfold caught
  split <;> rfl

@[simp] theorem published_caught : (caught d t s).published = s.published := by
  unfold caught
  split <;> rfl

@[simp] theorem acking_caught : (caught d t s).acking = s.acking := by
  unfold caught
  split <;> rfl

@[simp] theorem consumed_caught : (caught d t s).consumed = s.consumed := by
  unfold caught
  split <;> rfl

theorem atClient_caught_le : (caught d t s).atClient ≤ d ::ₘ s.atClient := by
  unfold caught
  split
  · exact (atClient_nacking s d).le
  · exact Multiset.le_cons_self _ d

end Caught

theorem goOn_method (d : Held Message ℕ) (next : Consuming → Consuming) (a : Answer)
    (f : AckQueue Message ℕ → AckQueue Message ℕ) (s : Consuming) :
    (a.thrown = none ∧
      goOn d next (method a f s) =
        next { s with queue := if a.performed then f s.queue else s.queue }) ∨
    (∃ t ∈ a.thrown,
      goOn d next (method a f s) =
        caught d t { s with queue := if a.performed then f s.queue else s.queue }) := by
  rw [method]
  cases a.thrown with
  | none => exact .inl ⟨rfl, rfl⟩
  | some t => exact .inr ⟨t, rfl, rfl⟩

/-- A delivery whose service has ended: the acknowledgement is next, or the `catch` clause, or
nothing, where the service has thrown an error. -/
theorem serve_cases {outcome : Except Throwable Unit}
    (h : s.step (.serve consumer outcome) = some s') :
    s.isBusy consumer = false ∧ ∃ d, s.inbox.find? (isOf consumer) = some d ∧
      (s' = { s with
          inbox := s.inbox.eraseP (isOf consumer)
          acking := s.acking ++ [d]
          consumed := s.consumed ++ [d.item] } ∨
        ∃ t, s' = caught d t { s with inbox := s.inbox.eraseP (isOf consumer) }) := by
  simp only [step] at h
  split at h
  case isTrue => cases h
  case isFalse hbusy =>
      obtain ⟨d, hd, rfl⟩ := Option.map_eq_some_iff.mp h
      refine ⟨Bool.not_eq_true _ ▸ hbusy, d, hd, ?_⟩
      cases outcome with
      | ok u => exact .inl rfl
      | error t => exact .inr ⟨t, rfl⟩

theorem ack_cases {a : Answer} (h : s.step (.ack consumer a) = some s') :
    ∃ d, s.acking.find? (isOf consumer) = some d ∧
      ∃ q, q = (if a.performed then s.queue.settle (named d.holder d.tag false) else s.queue) ∧
        (a.thrown = none ∧ s' = { s with acking := s.acking.eraseP (isOf consumer), queue := q } ∨
          ∃ t ∈ a.thrown,
            s' = caught d t { s with acking := s.acking.eraseP (isOf consumer), queue := q }) := by
  simp only [step] at h
  obtain ⟨d, hd, rfl⟩ := Option.map_eq_some_iff.mp h
  exact ⟨d, hd, _, rfl, goOn_method d id a _ _⟩

theorem nack_cases {a : Answer} (h : s.step (.nack consumer a) = some s') :
    ∃ d, s.nacking.find? (isOf consumer) = some d ∧
      s' = { s with
        nacking := s.nacking.eraseP (isOf consumer)
        queue := if a.performed then s.queue.giveBack (named d.holder d.tag false) else s.queue } := by
  simp only [step] at h
  obtain ⟨d, hd, rfl⟩ := Option.map_eq_some_iff.mp h
  refine ⟨d, hd, ?_⟩
  rw [Call.after, basicNack, method]
  cases a.thrown <;> rfl

end Moves

/-! ### A consumer that goes on alone -/

section Alone

variable {s : Consuming} {d : Held Message ℕ} {consumer : ℕ}

theorem find?_concat {l : List (Held Message ℕ)} (hl : l.any (isOf consumer) = false)
    (hd : isOf consumer d = true) : (l ++ [d]).find? (isOf consumer) = some d := by
  rw [List.find?_append, List.find?_eq_none.mpr fun h hh => by simpa using List.any_eq_false.mp hl h hh]
  simp [hd]

theorem eraseP_concat {l : List (Held Message ℕ)} (hl : l.any (isOf consumer) = false)
    (hd : isOf consumer d = true) : (l ++ [d]).eraseP (isOf consumer) = l := by
  rw [List.eraseP_append_right _ fun h hh => List.any_eq_false.mp hl h hh,
    List.eraseP_cons_of_pos hd, List.append_nil]

theorem leads_caught (nack : Answer) (hbusy : s.nacking.any (isOf consumer) = false)
    (hd : isOf consumer d = true) (t : Throwable) :
    system.Leads (caught d t s)
      (if t.isException then Call.after (basicNack nack d.holder d.tag false true) s else s) := by
  rw [caught]
  split
  · refine .single ⟨.nack consumer nack, ?_⟩
    simp only [system, step, find?_concat hbusy hd, eraseP_concat hbusy hd, Option.map_some]
  · exact .refl

theorem after_run_of_error {outcome : Except Throwable Unit} {ack : Answer} (nack : Answer)
    {s' : Consuming} {t : Throwable}
    (h : (consume d outcome >>= fun _ => basicAck ack d.holder d.tag false) s = .error t s') :
    Call.after (run outcome ack nack d) s =
      if t.isException then Call.after (basicNack nack d.holder d.tag false true) s' else s' := by
  have hrun : run outcome ack nack d s =
      if t.isException then basicNack nack d.holder d.tag false true s' else .error t s' :=
    Call.catchException_of_error h
  rw [Call.after, hrun]
  by_cases ht : t.isException = true
  · rw [if_pos ht, if_pos ht, Call.after]
  · rw [if_neg ht, if_neg ht]

theorem nacking_of_method {a : Answer} {f : AckQueue Message ℕ → AckQueue Message ℕ}
    {s' : Consuming} {t : Throwable} (h : method a f s = .error t s') : s'.nacking = s.nacking := by
  rw [method] at h
  cases ha : a.thrown <;> rw [ha] at h <;> cases h
  rfl

/-- A consumer that goes on alone does what `handleDelivery` does. -/
theorem leads_run (outcome : Except Throwable Unit) (ack nack : Answer)
    (hbusy : s.isBusy consumer = false) (hd : s.inbox.find? (isOf consumer) = some d) :
    system.Leads s (Call.after (run outcome ack nack d)
      { s with inbox := s.inbox.eraseP (isOf consumer) }) := by
  obtain ⟨hacking, hnacking⟩ := Bool.or_eq_false_iff.mp hbusy
  have hof : isOf consumer d = true := List.find?_some hd
  have hserve : system.step s (.serve consumer outcome) = some
      (goOn d (fun s => { s with acking := s.acking ++ [d] })
        (consume d outcome { s with inbox := s.inbox.eraseP (isOf consumer) })) := by
    simp only [system, step, hbusy, hd, Option.map_some]
    rfl
  refine .head ⟨_, hserve⟩ ?_
  cases outcome with
  | error t =>
      rw [after_run_of_error nack (t := t) rfl]
      exact leads_caught (s := { s with inbox := s.inbox.eraseP (isOf consumer) }) nack hnacking hof t
  | ok u =>
      set served : Consuming :=
        { s with
          inbox := s.inbox.eraseP (isOf consumer)
          consumed := s.consumed ++ [d.item] }
      have hack : system.step { served with acking := s.acking ++ [d] } (.ack consumer ack) =
          some (goOn d id (basicAck ack d.holder d.tag false served)) := by
        simp only [system, step, find?_concat hacking hof, eraseP_concat hacking hof,
          Option.map_some]
        rfl
      refine .head ⟨_, hack⟩ ?_
      have hserved : (consume d (.ok u) >>= fun _ => basicAck ack d.holder d.tag false)
          { s with inbox := s.inbox.eraseP (isOf consumer) } =
            basicAck ack d.holder d.tag false served := Call.bind_of_ok rfl
      cases h : basicAck ack d.holder d.tag false served with
      | ok _ s' =>
          have hrun : run (.ok u) ack nack d { s with inbox := s.inbox.eraseP (isOf consumer) } =
              .ok () s' := by
            rw [run, handleDelivery, Call.catchException, hserved.trans h]
          rw [Call.after, hrun]
          exact .refl
      | error t s' =>
          rw [after_run_of_error nack (hserved.trans h)]
          exact leads_caught nack (by rw [nacking_of_method h]; exact hnacking) hof t

end Alone

/-! ### No message is lost -/

/-- Each message is in one place, a delivery stands for what is held under its tag, and a message
is settled only after the service has returned from it. -/
structure Inv (s : Consuming) : Prop where
  ids : s.published.map Message.id = List.range s.published.length
  conserved : s.queue.items = s.published
  client_lt : ∀ d ∈ s.atClient, d.tag < s.queue.nextTag
  client_held : ∀ d ∈ s.atClient, ∀ h ∈ s.queue.held, h.tag = d.tag → h = d
  acking : ∀ d ∈ s.acking, d.item ∈ s.consumed
  settled : ∀ m ∈ s.queue.settled, m ∈ s.consumed
  rejected : ∀ m ∈ s.queue.rejected, m.expiration = true

section Steps

variable {s s' : Consuming} {d : Held Message ℕ}

theorem Inv.move (hs : s.Inv) (hclient : s'.atClient ≤ s.atClient) (hqueue : s'.queue = s.queue)
    (hpublished : s'.published = s.published) (hacking : ∀ d ∈ s'.acking, d.item ∈ s'.consumed)
    (hconsumed : s.consumed ⊆ s'.consumed) : s'.Inv where
  ids := hpublished ▸ hs.ids
  conserved := hqueue ▸ hpublished ▸ hs.conserved
  client_lt d hd := hqueue ▸ hs.client_lt d (Multiset.mem_of_le hclient hd)
  client_held d hd := hqueue ▸ hs.client_held d (Multiset.mem_of_le hclient hd)
  acking := hacking
  settled m hm := hconsumed (hs.settled m (hqueue ▸ hm))
  rejected := hqueue ▸ hs.rejected

theorem mem_of_mem_filter_not {p : Held Message ℕ → Bool} {h : Held Message ℕ}
    (hh : h ∈ s.queue.held.filter fun d => !p d) : h ∈ s.queue.held := List.mem_of_mem_filter hh

theorem Inv.giveBack (hs : s.Inv) (p : Held Message ℕ → Bool) :
    Inv { s with queue := s.queue.giveBack p } where
  ids := hs.ids
  conserved := AckQueue.items_giveBack.trans hs.conserved
  client_lt := hs.client_lt
  client_held d hd h hh := hs.client_held d hd h (mem_of_mem_filter_not hh)
  acking := hs.acking
  settled := hs.settled
  rejected := hs.rejected

theorem tag_eq_of_named {h : Held Message ℕ} {holder tag : ℕ}
    (hh : named holder tag false h = true) : h.tag = tag := by
  rw [named, Bool.and_eq_true] at hh
  exact of_decide_eq_true hh.2

theorem Inv.settle (hs : s.Inv) (hd : d ∈ s.acking) :
    Inv { s with queue := s.queue.settle (named d.holder d.tag false) } where
  ids := hs.ids
  conserved := AckQueue.items_settle.trans hs.conserved
  client_lt := hs.client_lt
  client_held d' hd' h hh := hs.client_held d' hd' h (mem_of_mem_filter_not hh)
  acking := hs.acking
  settled := by
    intro m hm
    rcases List.mem_append.mp hm with hm | hm
    · exact hs.settled m hm
    · obtain ⟨h, hh, rfl⟩ := List.mem_map.mp hm
      obtain ⟨hh, hnamed⟩ := List.mem_filter.mp hh
      rw [hs.client_held d (mem_atClient.mpr (.inr (.inl hd))) h hh (tag_eq_of_named hnamed)]
      exact hs.acking d hd
  rejected := hs.rejected

theorem inv_init : Inv system.init where
  ids := rfl
  conserved := rfl
  client_lt := nofun
  client_held := nofun
  acking := nofun
  settled := nofun
  rejected := nofun

theorem Inv.publish (hs : s.Inv) (m : Message) (hm : m.id = s.published.length) :
    Inv { s with queue := s.queue.put m, published := s.published ++ [m] } where
  ids := by
    rw [List.map_append, hs.ids, List.map_singleton, hm, List.length_append, List.length_singleton,
      List.range_succ]
  conserved := by
    rw [AckQueue.items_put, hs.conserved, ← Multiset.coe_singleton, Multiset.coe_add]
  client_lt := hs.client_lt
  client_held := hs.client_held
  acking := hs.acking
  settled := hs.settled
  rejected := hs.rejected

theorem atClient_deliver (consumer : ℕ) {i : ℕ} (h : i < s.queue.ready.length) :
    atClient { s with
      queue := s.queue.take consumer i h
      inbox := s.inbox ++ [⟨consumer, s.queue.nextTag, s.queue.ready[i]⟩] } =
    ⟨consumer, s.queue.nextTag, s.queue.ready[i]⟩ ::ₘ s.atClient := by
  simp only [atClient, coe_concat, Multiset.cons_add]

theorem Inv.deliver (hs : s.Inv) (consumer : ℕ) {i : ℕ} (h : i < s.queue.ready.length) :
    Inv { s with
      queue := s.queue.take consumer i h
      inbox := s.inbox ++ [⟨consumer, s.queue.nextTag, s.queue.ready[i]⟩] } where
  ids := hs.ids
  conserved := (AckQueue.items_take h).trans hs.conserved
  client_lt := by
    intro d hd
    rw [atClient_deliver, Multiset.mem_cons] at hd
    rcases hd with rfl | hd
    · exact Nat.lt_succ_self _
    · exact Nat.lt_succ_of_lt (hs.client_lt d hd)
  client_held := by
    -- the new tag is above those of all earlier deliveries
    intro d hd g hg htag
    rw [atClient_deliver, Multiset.mem_cons] at hd
    rcases hd with rfl | hd <;> rcases List.mem_append.mp hg with hg | hg
    · exact absurd htag (s.queue.tag_lt g hg).ne
    · exact List.mem_singleton.mp hg
    · exact hs.client_held d hd g hg htag
    · rw [List.mem_singleton.mp hg] at htag
      exact absurd htag (hs.client_lt d hd).ne'
  acking := hs.acking
  settled := hs.settled
  rejected := hs.rejected

theorem Inv.expire (hs : s.Inv) {i : ℕ} (h : i < s.queue.ready.length)
    (hexpires : s.queue.ready[i].expiration = true) :
    Inv { s with queue := s.queue.expire i h } where
  ids := hs.ids
  conserved := (AckQueue.items_expire h).trans hs.conserved
  client_lt := hs.client_lt
  client_held := hs.client_held
  acking := hs.acking
  settled := hs.settled
  rejected := by
    intro m hm
    rcases List.mem_append.mp hm with hm | hm
    · exact hs.rejected m hm
    · rw [List.mem_singleton.mp hm]
      exact hexpires

theorem Inv.serve (hs : s.Inv) {consumer : ℕ} {outcome : Except Throwable Unit}
    (h : s.step (.serve consumer outcome) = some s') : s'.Inv := by
  obtain ⟨-, d, hd, rfl | ⟨t, rfl⟩⟩ := serve_cases h
  · have hclient := ((atClient_acking _ d).trans (cons_atClient_inbox hd)).le
    refine hs.move hclient rfl rfl ?_ (List.subset_append_left _ _)
    intro d' hd'
    rcases List.mem_append.mp hd' with hd' | hd'
    · exact List.mem_append_left _ (hs.acking d' hd')
    · rw [List.mem_singleton.mp hd']
      exact List.mem_append_right _ List.mem_cons_self
  · exact hs.move ((atClient_caught_le _ d t).trans (cons_atClient_inbox hd).le) (by simp) (by simp)
      (by simpa using hs.acking) (by simp)

theorem Inv.ack (hs : s.Inv) {consumer : ℕ} {a : Answer}
    (h : s.step (.ack consumer a) = some s') : s'.Inv := by
  obtain ⟨d, hd, q, hq, hs'⟩ := ack_cases h
  have hsettled : Inv { s with queue := q } := by
    rw [hq]
    split
    · exact hs.settle (List.mem_of_find?_eq_some hd)
    · exact hs
  have hacking : s.acking.eraseP (isOf consumer) ⊆ s.acking := List.eraseP_subset
  rcases hs' with ⟨-, rfl⟩ | ⟨t, -, rfl⟩
  · exact hsettled.move (cons_atClient_acking (s := { s with queue := q }) hd ▸
      Multiset.le_cons_self _ d) rfl rfl (fun d hd => hs.acking d (hacking hd)) (List.Subset.refl _)
  · exact hsettled.move ((atClient_caught_le _ d t).trans (cons_atClient_acking hd).le) (by simp)
      (by simp) (by simpa using fun d hd => hs.acking d (hacking hd)) (by simp)

theorem Inv.nack (hs : s.Inv) {consumer : ℕ} {a : Answer}
    (h : s.step (.nack consumer a) = some s') : s'.Inv := by
  obtain ⟨d, hd, rfl⟩ := nack_cases h
  have hmoved : Inv { s with nacking := s.nacking.eraseP (isOf consumer) } :=
    hs.move (cons_atClient_nacking hd ▸ Multiset.le_cons_self _ d) rfl rfl hs.acking
      (List.Subset.refl _)
  split
  · exact hmoved.giveBack _
  · exact hmoved

end Steps

theorem Inv.step {s s' : Consuming} {e : Event} (hs : s.Inv) (h : s.step e = some s') : s'.Inv := by
  cases e with
  | publish body expiration =>
      cases h
      exact hs.publish _ rfl
  | deliver consumer i =>
      simp only [Consuming.step] at h
      split at h
      case isTrue hi =>
          cases h
          exact hs.deliver consumer hi
      case isFalse => cases h
  | serve consumer outcome => exact hs.serve h
  | ack consumer a => exact hs.ack h
  | nack consumer a => exact hs.nack h
  | lose consumer =>
      cases h
      exact hs.giveBack _
  | expire i =>
      simp only [Consuming.step] at h
      split at h
      case isTrue hi =>
          split at h
          case isTrue hexpires =>
              cases h
              exact hs.expire hi hexpires
          case isFalse => cases h
      case isFalse => cases h

theorem inv_of_reached {s : Consuming} (h : system.Reached s) : s.Inv :=
  h.invariant inv_init fun _ _ _ hs _ hstep => Inv.step hs hstep

/-! ### When a message is handled once only -/

/-- No consumer is lost, and every acknowledgement gets through and returns. -/
def Undisturbed (_ : Consuming) : Event → Prop
  | .ack _ a => a.performed = true ∧ a.thrown = none
  | .lose _ => False
  | _ => True

instance (s : Consuming) : (e : Event) → Decidable (s.Undisturbed e)
  | .ack _ a => inferInstanceAs (Decidable (a.performed = true ∧ a.thrown = none))
  | .lose _ => inferInstanceAs (Decidable False)
  | .publish _ _ | .deliver _ _ | .serve _ _ | .nack _ _ | .expire _ => .isTrue trivial

/-- The deliveries of the client are held, each under its own tag, and the service has returned
from the settled messages and from those that are still to be acknowledged. -/
structure Exact (s : Consuming) : Prop where
  inv : s.Inv
  client_mem : ∀ d ∈ s.atClient, d ∈ s.queue.held
  nodup_client : (s.atClient.map Held.tag).Nodup
  consumed : s.consumed.Perm (s.queue.settled ++ s.acking.map Held.item)

section Exact

variable {s s' : Consuming} {d : Held Message ℕ}

theorem named_iff (hd : d ∈ s.queue.held) {d' : Held Message ℕ} (hd' : d' ∈ s.queue.held) :
    named d.holder d.tag false d' = true ↔ d'.tag = d.tag := by
  constructor
  · exact tag_eq_of_named
  · intro h
    rw [AckQueue.eq_of_tag_eq hd' hd h]
    simp [named]

theorem Exact.move (hs : s.Exact) (hclient : s'.atClient ≤ s.atClient)
    (hqueue : s'.queue = s.queue) (hinv : s'.Inv)
    (hconsumed : s'.consumed.Perm (s'.queue.settled ++ s'.acking.map Held.item)) : s'.Exact where
  inv := hinv
  client_mem d hd := hqueue ▸ hs.client_mem d (Multiset.mem_of_le hclient hd)
  nodup_client := Multiset.nodup_of_le (Multiset.map_le_map hclient) hs.nodup_client
  consumed := hconsumed

section Ended

variable {client : Multiset (Held Message ℕ)} (hclient : d ::ₘ client = s.atClient)
include hclient

theorem Exact.mem_filter (hs : s.Exact) {d' : Held Message ℕ} (hd' : d' ∈ client) :
    d' ∈ s.queue.held.filter fun d' => !named d.holder d.tag false d' := by
  have hnodup := hs.nodup_client
  rw [← hclient, Multiset.map_cons, Multiset.nodup_cons] at hnodup
  have hheld := hs.client_mem d' (hclient ▸ Multiset.mem_cons_of_mem hd')
  refine List.mem_filter.mpr ⟨hheld, ?_⟩
  rw [Bool.not_eq_true', ← Bool.not_eq_true,
    named_iff (hs.client_mem d (hclient ▸ Multiset.mem_cons_self d client)) hheld]
  exact fun htag => hnodup.1 (htag ▸ Multiset.mem_map_of_mem _ hd')

theorem Exact.nodup_ended (hs : s.Exact) : (client.map Held.tag).Nodup :=
  Multiset.nodup_of_le (Multiset.map_le_map (hclient ▸ Multiset.le_cons_self client d))
    hs.nodup_client

end Ended

theorem Exact.ack (hs : s.Exact) {consumer : ℕ} {a : Answer}
    (ha : a.performed = true ∧ a.thrown = none) (h : s.step (.ack consumer a) = some s') :
    s'.Exact := by
  have hinv := hs.inv.ack h
  obtain ⟨d, hd, q, rfl, ⟨-, rfl⟩ | ⟨t, ht, -⟩⟩ := ack_cases h
  · have hclient := cons_atClient_acking hd
    have hheld := hs.client_mem d (hclient ▸ Multiset.mem_cons_self d _)
    have hsingle := AckQueue.filter_held_eq_singleton hheld fun d' hd' => named_iff hheld hd'
    have hacking : s.acking.Perm (d :: s.acking.eraseP (isOf consumer)) :=
      Multiset.coe_eq_coe.mp (cons_eraseP hd).symm
    simp only [ha.1, if_true] at hinv ⊢
    refine ⟨hinv, fun d' hd' => hs.mem_filter hclient hd', hs.nodup_ended hclient, ?_⟩
    refine hs.consumed.trans (((hacking.map Held.item).append_left _).trans ?_)
    simp [AckQueue.settle, hsingle]
  · rw [ha.2] at ht
    cases ht

theorem Exact.nack (hs : s.Exact) {consumer : ℕ} {a : Answer}
    (h : s.step (.nack consumer a) = some s') : s'.Exact := by
  have hinv := hs.inv.nack h
  obtain ⟨d, hd, rfl⟩ := nack_cases h
  have hclient := cons_atClient_nacking hd
  split at hinv
  case isTrue hperformed =>
      rw [if_pos hperformed]
      exact ⟨hinv, fun d' hd' => hs.mem_filter hclient hd', hs.nodup_ended hclient, hs.consumed⟩
  case isFalse hlost =>
      rw [if_neg hlost]
      exact hs.move (hclient ▸ Multiset.le_cons_self _ d) rfl hinv hs.consumed

theorem Exact.serve (hs : s.Exact) {consumer : ℕ} {outcome : Except Throwable Unit}
    (h : s.step (.serve consumer outcome) = some s') : s'.Exact := by
  have hinv := hs.inv.serve h
  obtain ⟨-, d, hd, rfl | ⟨t, rfl⟩⟩ := serve_cases h
  · refine hs.move ((atClient_acking _ d).trans (cons_atClient_inbox hd)).le rfl hinv ?_
    rw [List.map_append, ← List.append_assoc]
    exact hs.consumed.append_right _
  · exact hs.move ((atClient_caught_le _ d t).trans (cons_atClient_inbox hd).le) (by simp) hinv
      (by simpa using hs.consumed)

theorem Exact.deliver (hs : s.Exact) (consumer : ℕ) {i : ℕ} (h : i < s.queue.ready.length) :
    Exact { s with
      queue := s.queue.take consumer i h
      inbox := s.inbox ++ [⟨consumer, s.queue.nextTag, s.queue.ready[i]⟩] } where
  inv := hs.inv.deliver consumer h
  client_mem := by
    intro d hd
    rw [atClient_deliver, Multiset.mem_cons] at hd
    rcases hd with rfl | hd
    · exact List.mem_append_right _ (List.mem_singleton_self _)
    · exact List.mem_append_left _ (hs.client_mem d hd)
  nodup_client := by
    rw [atClient_deliver, Multiset.map_cons, Multiset.nodup_cons]
    refine ⟨fun htag => ?_, hs.nodup_client⟩
    obtain ⟨d, hd, htag⟩ := Multiset.mem_map.mp htag
    exact absurd htag (hs.inv.client_lt d hd).ne
  consumed := hs.consumed

theorem Exact.step {e : Event} (hs : s.Exact) (hok : s.Undisturbed e)
    (h : s.step e = some s') : s'.Exact := by
  have hinv := hs.inv.step h
  cases e with
  | publish body expiration =>
      cases h
      exact ⟨hinv, hs.client_mem, hs.nodup_client, hs.consumed⟩
  | deliver consumer i =>
      simp only [Consuming.step] at h
      split at h
      case isTrue hi =>
          cases h
          exact hs.deliver consumer hi
      case isFalse => cases h
  | serve consumer outcome => exact hs.serve h
  | ack consumer a => exact hs.ack hok h
  | nack consumer a => exact hs.nack h
  | lose consumer => exact hok.elim
  | expire i =>
      simp only [Consuming.step] at h
      split at h
      case isTrue hi =>
          split at h
          case isTrue hexpires =>
              cases h
              exact ⟨hinv, hs.client_mem, hs.nodup_client, hs.consumed⟩
          case isFalse => cases h
      case isFalse => cases h

theorem exact_init : Exact system.init where
  inv := inv_init
  client_mem := nofun
  nodup_client := Multiset.nodup_zero
  consumed := .refl _

end Exact

theorem Inv.nodup_published {s : Consuming} (hs : s.Inv) : s.published.Nodup :=
  .of_map _ (hs.ids ▸ List.nodup_range)

/-- No message is lost and none is in two places: those that were published are those that are
ready, with a consumer, settled or expired. Only messages with an expiration expire, and a message
is settled only if the service has returned from it. So a message on which the service always
throws is never settled; it is ready or with a consumer, unless it expires. -/
theorem conserved_of_reached {s : Consuming} (h : system.Reached s) :
    s.queue.items = s.published ∧ s.published.Nodup ∧
    (∀ m ∈ s.queue.settled, m ∈ s.consumed) ∧
    ∀ m ∈ s.published, m ∉ s.consumed → m ∈ s.queue.ready ∨ m ∈ s.queue.held.map Held.item ∨
      m ∈ s.queue.rejected ∧ m.expiration = true := by
  have hs := inv_of_reached h
  refine ⟨hs.conserved, hs.nodup_published, hs.settled, fun m hm hnot => ?_⟩
  have hitems : m ∈ s.queue.items := hs.conserved ▸ Multiset.mem_coe.mpr hm
  rcases AckQueue.mem_items.mp hitems with ((hready | hheld) | hsettled) | hrejected
  · exact .inl hready
  · exact .inr (.inl hheld)
  · exact absurd (hs.settled m hsettled) hnot
  · exact .inr (.inr ⟨hrejected, hs.rejected m hrejected⟩)

theorem conserved_of_reached_refused :
    ∃ s, system.Reached s ∧ s.queue.settled = [] ∧ s.queue.ready.length = 1 ∧
      s.queue.items = s.published ∧ s.published.Nodup := by
  have hrun : ∃ s, system.Reached s ∧ s.queue.settled = [] ∧ s.queue.ready.length = 1 :=
    System.ReachedBy.exists_of_execBy
      [.publish ⟨#[]⟩ false, .deliver 0 0, .serve 0 (.error .ioException), .nack 0 ⟨true, none⟩,
        .publish ⟨#[]⟩ true, .deliver 1 1]
      ⟨_, rfl, rfl, rfl⟩
  obtain ⟨s, hs, hsettled, hready⟩ := hrun
  have hall := conserved_of_reached hs
  exact ⟨s, hs, hsettled, hready, hall.1, hall.2.1⟩

/-- While no consumer is lost and every acknowledgement gets through and returns, the service
returns from each message at most once, and the messages from which it has returned are the
settled ones and those that are about to be acknowledged. -/
theorem consumed_once_of_reachedBy {s : Consuming} (h : system.ReachedBy Undisturbed s) :
    s.consumed.Perm (s.queue.settled ++ s.acking.map Held.item) ∧ s.consumed.Nodup := by
  have hs : s.Exact := h.invariant exact_init fun _ _ _ hs hok hstep => Exact.step hs hok hstep
  have hnodup : (s.acking : Multiset (Held Message ℕ)).Nodup := by
    refine Multiset.nodup_of_le ?_ (Multiset.Nodup.of_map _ hs.nodup_client)
    exact Multiset.le_add_right _ _ |>.trans' (Multiset.le_add_left _ _)
  have hacking : (s.acking : Multiset (Held Message ℕ)) ≤ s.queue.held :=
    (Multiset.le_iff_subset hnodup).mpr fun d hd =>
      hs.client_mem d (mem_atClient.mpr (.inr (.inl hd)))
  have hle : ((s.queue.settled ++ s.acking.map Held.item : List Message) : Multiset Message) ≤
      s.published := by
    rw [← hs.inv.conserved, AckQueue.items, ← Multiset.coe_add, add_comm]
    refine Multiset.le_add_right _ _ |>.trans' (add_le_add ?_ le_rfl)
    exact (Multiset.map_le_map hacking).trans (Multiset.le_add_left _ _)
  refine ⟨hs.consumed, hs.consumed.nodup_iff.mpr ?_⟩
  exact Multiset.coe_nodup.mp (Multiset.nodup_of_le hle
    (Multiset.coe_nodup.mpr hs.inv.nodup_published))

theorem consumed_once_of_reachedBy_refused :
    ∃ s, system.ReachedBy Undisturbed s ∧ s.consumed.length = 2 ∧ s.queue.settled.length = 1 ∧
      s.consumed.Perm (s.queue.settled ++ s.acking.map Held.item) ∧ s.consumed.Nodup := by
  have hrun : ∃ s, system.ReachedBy Undisturbed s ∧ s.consumed.length = 2 ∧
      s.queue.settled.length = 1 :=
    System.ReachedBy.exists_of_execBy
      [.publish ⟨#[]⟩ false, .publish ⟨#[]⟩ false, .deliver 0 0, .serve 0 (.error .ioException),
        .nack 0 ⟨true, none⟩, .deliver 1 1, .deliver 0 0, .serve 1 (.ok ()), .serve 0 (.ok ()),
        .ack 0 ⟨true, none⟩]
      ⟨_, rfl, rfl, rfl⟩
  obtain ⟨s, hs, hconsumed, hsettled⟩ := hrun
  exact ⟨s, hs, hconsumed, hsettled, consumed_once_of_reachedBy hs⟩

end Consuming

end HelloBoot.RabbitmqUtil
