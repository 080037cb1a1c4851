import HelloBoot.Transition.System
import HelloBoot.Util.Mq.GetChannelStream
import Mathlib.Algebra.Order.Group.Nat
import Mathlib.Data.List.Perm.Basic

/-!
# Handing channel streams out

Runs of successful calls of `getChannelStream` and of releases, each of a stream that
is held. The invariant `Inv` is that the idle and the held streams together are the
streams made so far, each once, and that stream `i` was made on connection `i`, so that
the connections from `created` on are left. `exclusive_of_reached` reads off that no
stream is in two hands.
-/

namespace HelloBoot.Mq.MQConnectionPool

open Transition

variable {β : Type}

/-- The world, and the references that were handed out and not released. -/
structure Lent (β : Type) where
  world : World β
  held : List ℕ

inductive LentAct where
  | get (sleeps : List Sleep)
  | release (stream : ℕ)

def Lent.step (api : ChannelApi β) (s : Lent β) : LentAct → Option (Lent β)
  | .get sleeps =>
      match getChannelStream api sleeps s.world with
      | .ok stream w => some ⟨w, stream :: s.held⟩
      | .error _ _ => none
  | .release stream =>
      if stream ∈ s.held then
        match releaseChannelStream stream s.world with
        | .ok () w => some ⟨w, s.held.erase stream⟩
        | .error _ _ => none
      else none

def lending (api : ChannelApi β) (minConn : ℤ) (connected : ℕ → Bool) (env : β) :
    System (Lent β) LentAct where
  init := ⟨⟨init minConn connected, env⟩, []⟩
  step := Lent.step api

def capacity (minConn : ℤ) : ℕ := (max minConn 1).toNat

theorem connectionStreams_init (minConn : ℤ) (connected : ℕ → Bool) :
    (init minConn connected).connectionStreams =
      (List.range (capacity minConn)).map fun i =>
        { connection := if connected i then some i else none, free := true, useQuantity := 0 } := by
  have hcapacity : (if minConn > 0 then minConn else 1).toNat = capacity minConn := by
    unfold capacity
    split <;> omega
  simp only [init, hcapacity]

inductive LentStep (api : ChannelApi β) (s : Lent β) : Lent β → Prop
  | reuse {stream : ℕ} {rest : List ℕ} (hidle : s.world.pool.channelStreams = stream :: rest) :
      LentStep api s
        ⟨⟨useStreamOf { s.world.pool with channelStreams := rest } stream, s.world.env⟩,
          stream :: s.held⟩
  | create {poll : ConnectionStream} {rest : List ConnectionStream} {c : ℕ}
      {channel : Option Channel} {env : β} (hidle : s.world.pool.channelStreams = [])
      (hleft : s.world.pool.connectionStreams = poll :: rest) (hc : poll.connection = some c)
      (hchannel : api.createChannel c s.world.env = .ok channel env) :
      LentStep api s
        ⟨⟨newStreamOf { s.world.pool with connectionStreams := rest } channel, env⟩,
          s.world.pool.created :: s.held⟩
  | release {stream : ℕ} (hheld : stream ∈ s.held) :
      LentStep api s
        ⟨⟨releaseStreamOf s.world.pool stream, s.world.env⟩, s.held.erase stream⟩

theorem LentStep.of_eq {api : ChannelApi β} {s s' : Lent β} {a : LentAct}
    (h : s.step api a = some s') : LentStep api s s' := by
  cases a with
  | get sleeps =>
      have hresult := getChannelStream_result api s.world sleeps
      simp only [Lent.step] at h
      generalize getChannelStream api sleeps s.world = result at h hresult
      cases hresult with
      | reuse hidle => exact Option.some.inj h ▸ .reuse hidle
      | create hidle hleft hc hchannel =>
          exact Option.some.inj h ▸ .create hidle hleft hc hchannel
      | fail => cases h
      | wait => cases h
  | release stream =>
      simp only [Lent.step, releaseChannelStream_eq] at h
      obtain ⟨hheld, heq⟩ := Option.ite_none_right_eq_some.mp h
      exact Option.some.inj heq ▸ .release hheld

/-- What the pool promises about the streams it hands out. -/
structure Exclusive (minConn : ℤ) (s : Lent β) : Prop where
  nodup : s.world.pool.channelStreams.Nodup
  notHeld : ∀ i ∈ s.world.pool.channelStreams, i ∉ s.held
  queued : ∀ i ∈ s.world.pool.channelStreams,
    (s.world.pool.streams i).free = true ∧ (s.world.pool.streams i).useQuantity = 0
  held : ∀ i ∈ s.held,
    (s.world.pool.streams i).free = false ∧ (s.world.pool.streams i).useQuantity = 1
  distinct : ∀ i < s.world.pool.created, ∀ j < s.world.pool.created, i ≠ j →
    ∀ channel channel', (s.world.pool.streams i).channel = some channel →
      (s.world.pool.streams j).channel = some channel' →
      channel.connection ≠ channel'.connection
  count : (s.world.pool.created : ℤ) + s.world.pool.connectionStreams.length = max minConn 1

structure Inv (minConn : ℤ) (connected : ℕ → Bool) (s : Lent β) : Prop where
  out : (s.world.pool.channelStreams ++ s.held).Perm (List.range s.world.pool.created)
  queued : ∀ i ∈ s.world.pool.channelStreams,
    (s.world.pool.streams i).free = true ∧ (s.world.pool.streams i).useQuantity = 0
  held : ∀ i ∈ s.held,
    (s.world.pool.streams i).free = false ∧ (s.world.pool.streams i).useQuantity = 1
  left : s.world.pool.connectionStreams =
    ((init minConn connected).connectionStreams).drop s.world.pool.created
  bound : s.world.pool.created ≤ capacity minConn
  own : ∀ i < s.world.pool.created, ∀ channel, (s.world.pool.streams i).channel = some channel →
    channel.connection = i

namespace Inv

variable {minConn : ℤ} {connected : ℕ → Bool} {s s' : Lent β}

theorem nodup (hs : Inv minConn connected s) :
    (s.world.pool.channelStreams ++ s.held).Nodup :=
  hs.out.nodup_iff.mpr List.nodup_range

theorem lt_created (hs : Inv minConn connected s) {i : ℕ}
    (hi : i ∈ s.world.pool.channelStreams ++ s.held) : i < s.world.pool.created :=
  List.mem_range.mp (hs.out.mem_iff.mp hi)

theorem exclusive (hs : Inv minConn connected s) : Exclusive minConn s where
  nodup := (List.nodup_append.mp hs.nodup).1
  notHeld i hi hheld := (List.nodup_append.mp hs.nodup).2.2 i hi i hheld rfl
  queued := hs.queued
  held := hs.held
  distinct i hi j hj hij channel channel' hchannel hchannel' := by
    rw [hs.own i hi channel hchannel, hs.own j hj channel' hchannel']
    exact hij
  count := by
    have hbound := hs.bound
    rw [hs.left, List.length_drop, connectionStreams_init, List.length_map, List.length_range]
    unfold capacity at hbound ⊢
    omega

theorem init (api : ChannelApi β) (minConn : ℤ) (connected : ℕ → Bool) (env : β) :
    Inv minConn connected (lending api minConn connected env).init where
  out := .refl _
  queued i hi := by cases hi
  held i hi := by cases hi
  left := rfl
  bound := Nat.zero_le _
  own i hi := absurd hi (Nat.not_lt_zero i)

theorem head_left (hs : Inv minConn connected s) {poll : ConnectionStream}
    {rest : List ConnectionStream} (hleft : s.world.pool.connectionStreams = poll :: rest) :
    s.world.pool.created < capacity minConn ∧
      poll.connection = (if connected s.world.pool.created then some s.world.pool.created
        else none) ∧
      rest = ((MQConnectionPool.init minConn connected).connectionStreams).drop
        (s.world.pool.created + 1) := by
  have hdrop := hs.left.symm.trans hleft
  have hlt : s.world.pool.created <
      ((MQConnectionPool.init minConn connected).connectionStreams).length := by
    by_contra hge
    rw [List.drop_of_length_le (not_lt.mp hge)] at hdrop
    cases hdrop
  rw [List.drop_eq_getElem_cons hlt] at hdrop
  obtain ⟨hpoll, hrest⟩ := List.cons.inj hdrop
  simp only [connectionStreams_init, List.getElem_map, List.getElem_range] at hpoll
  exact ⟨by simpa [connectionStreams_init] using hlt, by rw [← hpoll], hrest.symm⟩

theorem reuse (hs : Inv minConn connected s) {stream : ℕ} {rest : List ℕ}
    (hidle : s.world.pool.channelStreams = stream :: rest) :
    Inv minConn connected
      ⟨⟨useStreamOf { s.world.pool with channelStreams := rest } stream, s.world.env⟩,
        stream :: s.held⟩ := by
  have hnodup := hs.nodup
  rw [hidle, List.cons_append, List.nodup_cons] at hnodup
  have hne : ∀ i ∈ rest ++ s.held, i ≠ stream := fun i hi h => hnodup.1 (h ▸ hi)
  have hqueued := hs.queued stream (by rw [hidle]; exact List.mem_cons_self)
  refine ⟨?_, fun i hi => ?_, fun i hi => ?_, hs.left, hs.bound, fun i hi => ?_⟩
  · have hout := hs.out
    rw [hidle] at hout
    exact List.perm_middle.trans hout
  · have hi' : i ∈ s.world.pool.channelStreams := hidle ▸ List.mem_cons_of_mem _ hi
    simpa [useStreamOf, setStream, hne i (List.mem_append_left _ hi)] using hs.queued i hi'
  · rcases List.mem_cons.mp hi with rfl | hi
    · simp [useStreamOf, setStream, hqueued.2]
    · simpa [useStreamOf, setStream, hne i (List.mem_append_right _ hi)] using hs.held i hi
  · rcases eq_or_ne i stream with rfl | hi'
    · simpa [useStreamOf, setStream] using hs.own i hi
    · simpa [useStreamOf, setStream, hi'] using hs.own i hi

theorem create {api : ChannelApi β} (hs : Inv minConn connected s) {poll : ConnectionStream}
    {rest : List ConnectionStream} {c : ℕ} {channel : Option Channel} {env : β}
    (hidle : s.world.pool.channelStreams = [])
    (hleft : s.world.pool.connectionStreams = poll :: rest) (hc : poll.connection = some c)
    (hchannel : api.createChannel c s.world.env = .ok channel env) :
    Inv minConn connected
      ⟨⟨newStreamOf { s.world.pool with connectionStreams := rest } channel, env⟩,
        s.world.pool.created :: s.held⟩ := by
  obtain ⟨hlt, hhead, hrest⟩ := hs.head_left hleft
  obtain ⟨-, rfl⟩ : connected s.world.pool.created = true ∧ s.world.pool.created = c := by
    simpa [hhead] using hc
  have hne : ∀ i ∈ s.held, i ≠ s.world.pool.created := fun i hi =>
    (hs.lt_created (List.mem_append_right _ hi)).ne
  refine ⟨?_, fun i hi => ?_, fun i hi => ?_, hrest, hlt, fun i hi => ?_⟩
  · have hout := hs.out
    rw [hidle, List.nil_append] at hout
    simp only [newStreamOf, setStream, hidle, List.nil_append, List.range_succ]
    exact (hout.cons _).trans (List.perm_append_singleton _ _).symm
  · simp only [newStreamOf, setStream, hidle] at hi
    cases hi
  · rcases List.mem_cons.mp hi with rfl | hi
    · simp [newStreamOf, setStream]
    · simpa [newStreamOf, setStream, hne i hi] using hs.held i hi
  · rcases Nat.lt_succ_iff_lt_or_eq.mp hi with hi | rfl
    · simpa [newStreamOf, setStream, hi.ne] using hs.own i hi
    · simp only [newStreamOf, setStream, Function.update_self]
      rintro channel' rfl
      exact api.connection_createChannel _ _ _ _ hchannel

theorem release (hs : Inv minConn connected s) {stream : ℕ} (hheld : stream ∈ s.held) :
    Inv minConn connected
      ⟨⟨releaseStreamOf s.world.pool stream, s.world.env⟩, s.held.erase stream⟩ := by
  have hnodup := List.nodup_append.mp hs.nodup
  refine ⟨?_, fun i hi => ?_, fun i hi => ?_, hs.left, hs.bound, fun i hi => ?_⟩
  · simp only [releaseStreamOf, setStream, List.append_assoc, List.singleton_append]
    exact ((List.perm_cons_erase hheld).symm.append_left _).trans hs.out
  · rcases List.mem_append.mp hi with hi | hi
    · have hne : i ≠ stream := fun h => hnodup.2.2 i hi stream hheld h
      simpa [releaseStreamOf, setStream, hne] using hs.queued i hi
    · obtain rfl := List.mem_singleton.mp hi
      simp [releaseStreamOf, setStream, (hs.held i hheld).2]
  · obtain ⟨hne, hi⟩ := (List.Nodup.mem_erase_iff hnodup.2.1).mp hi
    simpa [releaseStreamOf, setStream, hne] using hs.held i hi
  · rcases eq_or_ne i stream with rfl | hi'
    · simpa [releaseStreamOf, setStream] using hs.own i hi
    · simpa [releaseStreamOf, setStream, hi'] using hs.own i hi

theorem step {api : ChannelApi β} (hs : Inv minConn connected s) (h : LentStep api s s') :
    Inv minConn connected s' := by
  cases h with
  | reuse hidle => exact hs.reuse hidle
  | create hidle hleft hc hchannel => exact hs.create hidle hleft hc hchannel
  | release hheld => exact hs.release hheld

theorem of_reached {api : ChannelApi β} {env : β}
    (h : (lending api minConn connected env).Reached s) : Inv minConn connected s :=
  h.invariant (Inv.init api minConn connected env) fun _ _ _ hs _ hstep =>
    hs.step (LentStep.of_eq hstep)

end Inv

/-- In every run of successful calls no stream is in two hands, and every connection is
used for one stream. -/
theorem exclusive_of_reached {api : ChannelApi β} {minConn : ℤ} {connected : ℕ → Bool}
    {env : β} {s : Lent β} (h : (lending api minConn connected env).Reached s) :
    Exclusive minConn s :=
  (Inv.of_reached h).exclusive

/-- Two streams are handed out, one is given back and used again. -/
theorem exclusive_of_reuse :
    ∃ s, (lending reliable 2 (fun _ => true) ()).Reached s ∧ s.held = [0, 1] ∧
      Exclusive 2 s := by
  have hrun : ∃ s, (lending reliable 2 (fun _ => true) ()).Reached s ∧ s.held = [0, 1] :=
    System.ReachedBy.exists_of_execBy [.get [], .get [], .release 0, .get []]
      (by decide +kernel)
  obtain ⟨s, hs, hheld⟩ := hrun
  exact ⟨s, hs, hheld, exclusive_of_reached hs⟩

end HelloBoot.Mq.MQConnectionPool
