import HelloBoot.Java.Resource
import HelloBoot.Transition.Along
import HelloBoot.Util.RabbitmqUtil
import Mathlib.Data.Finset.Card

/-!
# Open channels

`sendMsg` closes its channel in the last of its steps, and no clause does when a step throws. So
the channel is closed when the call ends if and only if no step throws and leaves it open. A lost
connection closes the channel, and many others with it; a null message always throws before the
close and leaves the channel open (`leavesOpen_of_null`). In a run during which no other channel
comes or goes, the number of open channels stays what it was if and only if every call closes its
own (`closesAll_iff`).
-/

namespace HelloBoot.RabbitmqUtil

open Call Mq Transition

variable {β : Type}

/-- A channel is closed once `close` has returned for it. -/
structure ChannelLaws (api : ChannelApi β) (openChannels : β → Finset Channel) : Prop where
  close : ∀ channel, Closes (channel ∈ openChannels ·) (api.close channel)

structure SendMsg where
  connection : Option ℕ
  exchangeName : Option String
  exchangeType : Option String
  queueName : Option String
  router : Option String
  msg : Option String
  exp : Option String
  dlxExchangeName : Option String
  dlxRoutingkey : Option String

/-- The environment that a call leaves, whether it returns or throws. -/
def next (api : ChannelApi β) (s : β) (m : SendMsg) : β :=
  after (sendMsgOn api m.connection m.exchangeName m.exchangeType m.queueName m.router m.msg
    m.exp m.dlxExchangeName m.dlxRoutingkey) s

namespace SendMsg

def routerOrDefault (m : SendMsg) : Option String :=
  if isBlank m.router then some defaultRouter else m.router

def exchangeTypeOrDefault (m : SendMsg) : Option String :=
  if isBlank m.exchangeType then some defaultExchangeType else m.exchangeType

/-- What a call does on its channel before it publishes. -/
def setup (api : ChannelApi β) (m : SendMsg) (channel : Channel) :
    List (EStateM Throwable β Unit) :=
  [api.exchangeDeclare channel m.exchangeName m.exchangeTypeOrDefault true,
    api.queueDeclare channel m.queueName true false false
      (some (queueArguments m.dlxExchangeName m.dlxRoutingkey)),
    api.queueBind channel m.queueName m.exchangeName m.routerOrDefault,
    api.confirmSelect channel,
    api.addConfirmListener channel]

def publish (api : ChannelApi β) (m : SendMsg) (channel : Channel) :
    EStateM Throwable β Unit := do
  let body ← getBytes m.msg
  api.basicPublish channel m.exchangeName m.routerOrDefault (some (properties m.exp)) body

/-- What a call does on its channel before it closes it. -/
def steps (api : ChannelApi β) (m : SendMsg) (channel : Channel) :
    List (EStateM Throwable β Unit) :=
  m.setup api channel ++ [m.publish api channel]

end SendMsg

def opened (api : ChannelApi β) (s : β) (m : SendMsg) : Option Channel :=
  match createChannel api m.connection s with
  | .ok channel _ => channel
  | .error _ _ => none

/-- The channel that a call opens is closed when the call ends. -/
def ClosesOwn (api : ChannelApi β) (openChannels : β → Finset Channel) (s : β) (m : SendMsg) :
    Prop :=
  ∀ channel ∈ opened api s m, channel ∉ openChannels (next api s m)

/-- The channel that a call opens is a new one, and while the call runs no other one is opened
or closed. -/
def Undisturbed (api : ChannelApi β) (openChannels : β → Finset Channel) (s : β) (m : SendMsg) :
    Prop :=
  (∀ channel ∈ opened api s m, channel ∉ openChannels s) ∧
    ∀ other ∉ opened api s m, other ∈ openChannels (next api s m) ↔ other ∈ openChannels s

/-- A call opens a channel, and then a step throws and leaves it open. -/
def LeavesOpen (api : ChannelApi β) (openChannels : β → Finset Channel) (s : β) (m : SendMsg) :
    Prop :=
  ∃ channel s', createChannel api m.connection s = .ok (some channel) s' ∧
    ThrowsOpen (channel ∈ openChannels ·) (m.steps api channel) (api.close channel) s'

variable {api : ChannelApi β} {openChannels : β → Finset Channel} {m : SendMsg} {s s' : β}

theorem next_of_created {channel : Channel}
    (h : createChannel api m.connection s = .ok (some channel) s') :
    next api s m = after (inTurn (m.steps api channel) (api.close channel)) s' := by
  rw [next, sendMsgOn, after_wrapException, after_bind_of_ok h]
  cases hmsg : m.msg <;> simp only [SendMsg.steps, SendMsg.publish, hmsg] <;> rfl

theorem mem_opened_iff {channel : Channel} :
    channel ∈ opened api s m ↔
      ∃ s', createChannel api m.connection s = .ok (some channel) s' := by
  rw [opened, Option.mem_def]
  cases createChannel api m.connection s with
  | ok channel' s' => simp
  | error t s' => simp

theorem closesOwn_iff (laws : ChannelLaws api openChannels) (s : β) (m : SendMsg) :
    ClosesOwn api openChannels s m ↔ ¬LeavesOpen api openChannels s m := by
  have hopen {channel : Channel} {s' : β}
      (h : createChannel api m.connection s = .ok (some channel) s') :
      channel ∈ openChannels (next api s m) ↔
        ThrowsOpen (channel ∈ openChannels ·) (m.steps api channel) (api.close channel) s' := by
    rw [next_of_created h]
    exact isOpen_after_inTurn_iff (laws.close channel)
  constructor
  · rintro hcloses ⟨channel, s', hcreated, hthrows⟩
    exact hcloses channel (mem_opened_iff.mpr ⟨s', hcreated⟩) ((hopen hcreated).mpr hthrows)
  · intro hleaves channel hopened hchannel
    obtain ⟨s', hcreated⟩ := mem_opened_iff.mp hopened
    exact hleaves ⟨channel, s', hcreated, (hopen hcreated).mp hchannel⟩

/-! ### The number of open channels -/

theorem openChannels_of_closesOwn (h : Undisturbed api openChannels s m)
    (hcloses : ClosesOwn api openChannels s m) :
    openChannels (next api s m) = openChannels s := by
  ext channel
  by_cases hopened : channel ∈ opened api s m
  · exact iff_of_false (hcloses channel hopened) (h.1 channel hopened)
  · exact h.2 channel hopened

theorem card_of_not_closesOwn (h : Undisturbed api openChannels s m)
    (hcloses : ¬ClosesOwn api openChannels s m) :
    (openChannels (next api s m)).card = (openChannels s).card + 1 := by
  obtain ⟨channel, hopened, hleft⟩ : ∃ channel ∈ opened api s m,
      channel ∈ openChannels (next api s m) := by
    simpa [ClosesOwn] using hcloses
  have hinsert : openChannels (next api s m) = insert channel (openChannels s) := by
    ext other
    rw [Finset.mem_insert]
    by_cases hother : other ∈ opened api s m
    · obtain rfl := Option.mem_unique hother hopened
      exact iff_of_true hleft (.inl rfl)
    · have hne : other ≠ channel := fun heq => hother (heq ▸ hopened)
      rw [h.2 other hother, or_iff_right hne]
  rw [hinsert, Finset.card_insert_of_notMem (h.1 channel hopened)]

theorem card_next (h : Undisturbed api openChannels s m) :
    (openChannels s).card ≤ (openChannels (next api s m)).card ∧
      ((openChannels (next api s m)).card = (openChannels s).card ↔
        ClosesOwn api openChannels s m) := by
  by_cases hcloses : ClosesOwn api openChannels s m
  · rw [openChannels_of_closesOwn h hcloses]
    exact ⟨Nat.le_refl _, iff_of_true rfl hcloses⟩
  · rw [card_of_not_closesOwn h hcloses]
    exact ⟨Nat.le_succ _, iff_of_false (Nat.succ_ne_self _) hcloses⟩

/-- Each call of a run closes its channel if and only if none throws and leaves it open. If no
other channel is opened or closed meanwhile, this is so if and only if the run leaves as many open
as before. -/
theorem closesAll_iff (api : ChannelApi β) (openChannels : β → Finset Channel)
    (laws : ChannelLaws api openChannels) (s : β) (sends : List SendMsg) :
    (Along (next api) (ClosesOwn api openChannels) s sends ↔
      Along (next api) (fun s m => ¬LeavesOpen api openChannels s m) s sends) ∧
    (Along (next api) (Undisturbed api openChannels) s sends →
      ((openChannels (sends.foldl (next api) s)).card = (openChannels s).card ↔
        Along (next api) (fun s m => ¬LeavesOpen api openChannels s m) s sends)) := by
  have hown := closesOwn_iff laws
  refine ⟨along_congr hown, fun h => ?_⟩
  rw [← along_congr hown]
  exact (h.imp fun s m hm => card_next hm).foldl_eq_iff (f := fun s => (openChannels s).card)

def keeping : ChannelApi (ℕ × Finset Channel) where
  createChannel c s := .ok (some ⟨c, s.1⟩) (s.1 + 1, insert ⟨c, s.1⟩ s.2)
  exchangeDeclare _ _ _ _ := pure ()
  queueDeclare _ _ _ _ _ _ := pure ()
  queueBind _ _ _ _ := pure ()
  confirmSelect _ := pure ()
  addConfirmListener _ := pure ()
  basicPublish _ _ _ _ _ := pure ()
  close channel s := .ok () (s.1, s.2.erase channel)
  connection_createChannel c s channel s' h := by
    cases h
    rfl

theorem channelLaws_keeping : ChannelLaws keeping Prod.snd where
  close channel s s' h := by
    cases h
    exact Finset.notMem_erase channel s.2

def hello2 (msg : Option String) : SendMsg :=
  ⟨some 0, some "hello2", none, some "hello2", some "hello2", msg, none, none, none⟩

theorem undisturbed_keeping {s : ℕ × Finset Channel} (hnew : ⟨0, s.1⟩ ∉ s.2) (msg : String) :
    Undisturbed keeping Prod.snd s (hello2 (some msg)) := by
  have hnext : (next keeping s (hello2 (some msg))).2 =
      (insert ⟨0, s.1⟩ s.2).erase ⟨0, s.1⟩ := rfl
  rw [Undisturbed, hnext, Finset.erase_insert hnew]
  refine ⟨fun channel hopened => ?_, fun other _ => Iff.rfl⟩
  obtain rfl : ⟨0, s.1⟩ = channel := Option.some.inj hopened
  exact hnew

theorem closesAll_iff_of_keeping :
    Along (next keeping) (ClosesOwn keeping Prod.snd) (0, ∅)
        [hello2 (some "a"), hello2 (some "b")] ∧
      ([hello2 (some "a"), hello2 (some "b")].foldl (next keeping) (0, ∅)).2.card = 0 := by
  have hall := closesAll_iff keeping Prod.snd channelLaws_keeping (0, ∅)
    [hello2 (some "a"), hello2 (some "b")]
  have hreturns (s : ℕ × Finset Channel) (msg : String) :
      ¬LeavesOpen keeping Prod.snd s (hello2 (some msg)) := by
    rintro ⟨channel, s', hcreated, hthrows⟩
    cases hcreated
    exact hthrows
  have hrun : Along (next keeping) (fun s m => ¬LeavesOpen keeping Prod.snd s m) (0, ∅)
      [hello2 (some "a"), hello2 (some "b")] := ⟨hreturns _ _, hreturns _ _, trivial⟩
  have hundisturbed : Along (next keeping) (Undisturbed keeping Prod.snd) (0, ∅)
      [hello2 (some "a"), hello2 (some "b")] :=
    ⟨undisturbed_keeping (by decide) "a", undisturbed_keeping (by decide) "b", trivial⟩
  exact ⟨hall.1.mpr hrun, (hall.2 hundisturbed).mpr hrun⟩

theorem not_closesAll_of_null :
    ¬∀ (β : Type) (api : ChannelApi β) (openChannels : β → Finset Channel),
      ChannelLaws api openChannels → ∀ (s : β) (sends : List SendMsg),
        Along (next api) (ClosesOwn api openChannels) s sends := by
  intro h
  have hcall := (h _ keeping Prod.snd channelLaws_keeping (0, ∅) [hello2 none]).1
  exact hcall ⟨0, 0⟩ rfl (Finset.mem_insert_self _ _)

theorem card_of_leaks (laws : ChannelLaws api openChannels) (sends : List SendMsg)
    (h : Along (next api) (fun s m => Undisturbed api openChannels s m ∧
      LeavesOpen api openChannels s m) s sends) :
    (openChannels (sends.foldl (next api) s)).card = (openChannels s).card + sends.length := by
  have hadd := h.imp fun s m hm =>
    card_of_not_closesOwn hm.1 ((closesOwn_iff laws s m).not.mpr (not_not_intro hm.2))
  exact hadd.foldl_add (f := fun s => (openChannels s).card)

theorem leavesOpen_of_null {channel : Channel} {s'' : β} (hmsg : m.msg = none)
    (hcreated : createChannel api m.connection s = .ok (some channel) s')
    (hsetup : inTurn (m.setup api channel) (pure ()) s' = .ok () s'')
    (hopen : channel ∈ openChannels s'') : LeavesOpen api openChannels s m := by
  refine ⟨channel, s', hcreated, ?_⟩
  rw [SendMsg.steps, throwsOpen_append hsetup, SendMsg.publish, hmsg]
  exact hopen

end HelloBoot.RabbitmqUtil
