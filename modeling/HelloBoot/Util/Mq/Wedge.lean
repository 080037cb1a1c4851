import HelloBoot.Transition.Permits
import HelloBoot.Util.Mq.HandOut

/-!
# Clients that share the pool

Clients that get a channel stream and later release it, each call as one step under the
monitor of the pool, except that a call which finds nothing sleeps inside and keeps the
monitor. Nothing fails in the client library. The streams a client could still get,
idle ones and connections left, are permits (`Transition.Permits`), so nobody waits as
long as there are at most as many clients as connections. With one client more the pool
wedges: the client that waits keeps out those who could release, and would not look at
what they release (`noWedge_iff`).
-/

namespace HelloBoot.Mq.MQConnectionPool

open Transition

/-- Where a client stands: outside, inside `getConnectionStream`, or with a stream. -/
inductive Place where
  | idle
  | waiting
  | holding (stream : ℕ)
  deriving DecidableEq

/-- The world, the clients, and who keeps the monitor between two steps. -/
structure Clients (C : Type) where
  world : World Unit
  place : C → Place
  monitor : Option C

/-- A client calls `getChannelStream`, wakes up in it, or releases its stream. -/
inductive ClientAct (C : Type) where
  | get (c : C)
  | wake (c : C)
  | release (c : C)

namespace Clients

variable {C : Type} [DecidableEq C]

/-- After `c` has run in the pool: it leaves with a stream, sleeps, or leaves by
throwing. -/
def after (s : Clients C) (c : C) : EStateM.Result Stop (World Unit) ℕ → Clients C
  | .ok stream w => ⟨w, Function.update s.place c (.holding stream), none⟩
  | .error .asleep w => ⟨w, Function.update s.place c .waiting, some c⟩
  | .error (.threw _) w => ⟨w, Function.update s.place c .idle, none⟩

/-- The steps of the clients. A client that wakes up goes on where it slept, after the
poll of `channelStreams`. -/
def step (s : Clients C) : ClientAct C → Option (Clients C)
  | .get c =>
      if s.monitor = none ∧ s.place c = .idle then
        some (s.after c (getChannelStream reliable [] s.world))
      else none
  | .wake c =>
      if s.place c = .waiting then
        some (s.after c (createChannelStream reliable [] s.world))
      else none
  | .release c =>
      match s.place c with
      | .holding stream =>
          if s.monitor = none then
            match releaseChannelStream stream s.world with
            | .ok () w => some ⟨w, Function.update s.place c .idle, none⟩
            | .error _ _ => none
          else none
      | _ => none

/-- Whenever a client waits while another holds a stream, the holder can release it and
the client that waits then gets one. -/
def NoWedge (s : Clients C) : Prop :=
  ∀ c d stream, s.place c = .waiting → s.place d = .holding stream →
    ∃ s', s.step (.release d) = some s' ∧
      ∃ s'' stream', s'.step (.wake c) = some s'' ∧ s''.place c = .holding stream'

end Clients

variable {C : Type} [DecidableEq C]

variable (C) in
def sharing (minConn : ℤ) : System (Clients C) (ClientAct C) where
  init := ⟨⟨init minConn fun _ => true, ()⟩, fun _ => .idle, none⟩
  step := Clients.step

structure SharingInv (s : Clients C) : Prop where
  opened : ∀ poll ∈ s.world.pool.connectionStreams, poll.connection ≠ none
  waits : ∀ c, s.place c = .waiting → s.monitor = some c ∧
    s.world.pool.channelStreams = [] ∧ s.world.pool.connectionStreams = []

inductive ClientStep (s : Clients C) : Clients C → Prop
  | reuse {c : C} {stream : ℕ} {rest : List ℕ} (hc : ∀ i, s.place c ≠ .holding i)
      (hidle : s.world.pool.channelStreams = stream :: rest) :
      ClientStep s
        ⟨⟨useStreamOf { s.world.pool with channelStreams := rest } stream, ()⟩,
          Function.update s.place c (.holding stream), none⟩
  | create {c : C} {poll : ConnectionStream} {rest : List ConnectionStream}
      {channel : Option Channel} (hc : ∀ i, s.place c ≠ .holding i)
      (hidle : s.world.pool.channelStreams = [])
      (hleft : s.world.pool.connectionStreams = poll :: rest) :
      ClientStep s
        ⟨⟨newStreamOf { s.world.pool with connectionStreams := rest } channel, ()⟩,
          Function.update s.place c (.holding s.world.pool.created), none⟩
  | wait {c : C} (hc : ∀ i, s.place c ≠ .holding i)
      (hturn : s.monitor = none ∨ s.place c = .waiting)
      (hidle : s.world.pool.channelStreams = []) (hleft : s.world.pool.connectionStreams = []) :
      ClientStep s ⟨s.world, Function.update s.place c .waiting, some c⟩
  | release {c : C} {stream : ℕ} (hc : s.place c = .holding stream) (hmonitor : s.monitor = none) :
      ClientStep s
        ⟨⟨releaseStreamOf s.world.pool stream, ()⟩, Function.update s.place c .idle, none⟩

namespace SharingInv

variable {s s' : Clients C}

theorem clientStep_after (hs : SharingInv s) {c : C} (hc : ∀ i, s.place c ≠ .holding i)
    (hturn : s.monitor = none ∨ s.place c = .waiting)
    {result : EStateM.Result Stop (World Unit) ℕ} (h : GetResult reliable [] s.world result) :
    ClientStep s (s.after c result) := by
  cases h with
  | reuse hidle => exact .reuse hc hidle
  | create hidle hleft => exact .create hc hidle hleft
  | fail hidle hleft hfails =>
      rcases hfails with ⟨hnone, -⟩ | ⟨k, t, -, hchannel⟩
      · exact absurd hnone (hs.opened _ (by rw [hleft]; exact List.mem_cons_self))
      · cases hchannel
  | wait hidle hleft => exact .wait hc hturn hidle hleft

theorem clientStep (hs : SharingInv s) {a : ClientAct C} (h : s.step a = some s') :
    ClientStep s s' := by
  cases a with
  | get c =>
      obtain ⟨⟨hmonitor, hc⟩, heq⟩ := Option.ite_none_right_eq_some.mp h
      obtain rfl := Option.some.inj heq
      exact hs.clientStep_after (by simp [hc]) (.inl hmonitor) (getChannelStream_result _ _ [])
  | wake c =>
      obtain ⟨hc, heq⟩ := Option.ite_none_right_eq_some.mp h
      obtain rfl := Option.some.inj heq
      exact hs.clientStep_after (by simp [hc]) (.inr hc)
        (createChannelStream_result _ (hs.waits c hc).2.1 [])
  | release c =>
      cases hc : s.place c with
      | idle => simp [Clients.step, hc] at h
      | waiting => simp [Clients.step, hc] at h
      | holding stream =>
          simp only [Clients.step, hc, releaseChannelStream_eq] at h
          obtain ⟨hmonitor, heq⟩ := Option.ite_none_right_eq_some.mp h
          exact Option.some.inj heq ▸ .release hc hmonitor

theorem init (minConn : ℤ) : SharingInv (sharing C minConn).init where
  opened poll hpoll := by
    simp only [sharing, connectionStreams_init] at hpoll
    obtain ⟨i, -, rfl⟩ := List.mem_map.mp hpoll
    simp
  waits c hc := by cases hc

theorem step (hs : SharingInv s) (h : ClientStep s s') : SharingInv s' := by
  cases h with
  | @reuse c stream rest hc hidle =>
      refine ⟨hs.opened, fun d hd => ?_⟩
      rcases eq_or_ne d c with rfl | hdc
      · simp at hd
      · have hempty := (hs.waits d (by simpa [hdc] using hd)).2.1
        rw [hidle] at hempty
        cases hempty
  | @create c poll rest channel hc hidle hleft =>
      refine ⟨fun p hp => hs.opened p (hleft ▸ List.mem_cons_of_mem _ hp), fun d hd => ?_⟩
      rcases eq_or_ne d c with rfl | hdc
      · simp at hd
      · have hempty := (hs.waits d (by simpa [hdc] using hd)).2.2
        rw [hleft] at hempty
        cases hempty
  | @wait c hc hturn hidle hleft =>
      refine ⟨hs.opened, fun d hd => ?_⟩
      rcases eq_or_ne d c with rfl | hdc
      · exact ⟨rfl, hidle, hleft⟩
      · -- only one client can wait, since it keeps the monitor
        have hd := (hs.waits d (by simpa [hdc] using hd)).1
        rcases hturn with hnone | hc
        · rw [hnone] at hd
          cases hd
        · rw [(hs.waits c hc).1] at hd
          exact absurd (Option.some.inj hd).symm hdc
  | @release c stream hc hmonitor =>
      refine ⟨hs.opened, fun d hd => ?_⟩
      rcases eq_or_ne d c with rfl | hdc
      · simp at hd
      · have hd := (hs.waits d (by simpa [hdc] using hd)).1
        rw [hmonitor] at hd
        cases hd

theorem of_reached {minConn : ℤ} (h : (sharing C minConn).Reached s) : SharingInv s :=
  h.invariant (SharingInv.init minConn) fun _ _ _ hs _ hstep => hs.step (hs.clientStep hstep)

end SharingInv

def Place.kind : Place → Permits.Place
  | .idle => .idle
  | .waiting => .waiting
  | .holding _ => .holding

def Clients.permits (s : Clients C) : Permits C :=
  ⟨s.world.pool.channelStreams.length + s.world.pool.connectionStreams.length,
    Place.kind ∘ s.place⟩

namespace ClientStep

variable {s s' : Clients C}

omit [DecidableEq C] in
theorem kind_ne_holding {c : C} (hc : ∀ i, s.place c ≠ .holding i) :
    s.permits.place c ≠ .holding := by
  cases hplace : s.place c with
  | idle => simp [Clients.permits, Place.kind, hplace]
  | waiting => simp [Clients.permits, Place.kind, hplace]
  | holding i => exact absurd hplace (hc i)

/-- A step of a client takes a permit, waits for one, or gives one back. -/
theorem permits_step (h : ClientStep s s') :
    ∃ a, s.permits.step a = some s'.permits := by
  cases h with
  | @reuse c stream rest hc hidle =>
      refine ⟨.acquire c, (Permits.step_acquire_succ (kind_ne_holding hc)
        (k := rest.length + s.world.pool.connectionStreams.length) ?_).trans ?_⟩
      · simp only [Clients.permits, hidle, List.length_cons]
        omega
      · simp only [Clients.permits, Function.comp_update]
        rfl
  | @create c poll rest channel hc hidle hleft =>
      refine ⟨.acquire c, (Permits.step_acquire_succ (kind_ne_holding hc)
        (k := rest.length) ?_).trans ?_⟩
      · simp only [Clients.permits, hidle, hleft, List.length_nil, List.length_cons]
        omega
      · simp only [Clients.permits, Function.comp_update, newStreamOf, setStream, hidle,
          List.length_nil, Nat.zero_add]
        rfl
  | @wait c hc hturn hidle hleft =>
      refine ⟨.acquire c, (Permits.step_acquire_zero (kind_ne_holding hc) ?_).trans ?_⟩
      · simp only [Clients.permits, hidle, hleft, List.length_nil]
      · simp only [Clients.permits, Function.comp_update]
        rfl
  | @release c stream hc hmonitor =>
      refine ⟨.release c, (Permits.step_release ?_).trans ?_⟩
      · simp only [Clients.permits, Function.comp_apply, hc]
        rfl
      · simp only [Clients.permits, Function.comp_update, releaseStreamOf, setStream,
          List.length_append, List.length_singleton]
        refine congrArg some (congrArg₂ Permits.mk ?_ rfl)
        omega

end ClientStep

/-- Runs of the clients are runs on permits, as many as connections were opened. -/
theorem permits_reached {minConn : ℤ} {s : Clients C} (h : (sharing C minConn).Reached s) :
    (Permits.system C (capacity minConn)).Reached s.permits := by
  refine h.simulation Clients.permits ?_ fun _ _ _ hs _ hstep =>
    .inr ((SharingInv.of_reached hs).clientStep hstep).permits_step
  simp only [sharing, Clients.permits, Permits.system, connectionStreams_init, List.length_map,
    List.length_range]
  exact congrArg₂ Permits.mk (Nat.zero_add _) rfl

theorem place_ne_waiting {minConn : ℤ} (hcard : ENat.card C ≤ capacity minConn) {s : Clients C}
    (h : (sharing C minConn).Reached s) (c : C) : s.place c ≠ .waiting := by
  intro hc
  have hwaiting : s.permits.place c = .waiting := by
    simp only [Clients.permits, Function.comp_apply, hc]
    rfl
  exact absurd hcard (not_le.mpr (Permits.lt_card_of_waiting (permits_reached h) hwaiting))

theorem reached_create {minConn : ℤ} {s : Clients C} (h : (sharing C minConn).Reached s)
    (hmonitor : s.monitor = none) (hidle : s.world.pool.channelStreams = []) {c : C}
    (hc : s.place c = .idle) {poll : ConnectionStream} {rest : List ConnectionStream}
    (hleft : s.world.pool.connectionStreams = poll :: rest) :
    ∃ s', (sharing C minConn).Reached s' ∧ s'.monitor = none ∧
      s'.world.pool.channelStreams = [] ∧ s'.world.pool.connectionStreams = rest ∧
      s'.place = Function.update s.place c (.holding s.world.pool.created) := by
  obtain ⟨k, hk⟩ := Option.ne_none_iff_exists'.mp
    ((SharingInv.of_reached h).opened poll (hleft ▸ List.mem_cons_self))
  have hget := (getChannelStream_result reliable s.world []).eq_create hidle hleft hk rfl
  have hstep : (sharing C minConn).step s (.get c) =
      some (s.after c (getChannelStream reliable [] s.world)) := if_pos ⟨hmonitor, hc⟩
  rw [hget] at hstep
  exact ⟨_, h.step trivial hstep, rfl, hidle, rfl, rfl⟩

theorem reached_create_all {minConn : ℤ} {l : List C} (hl : l.Nodup) {s : Clients C}
    (h : (sharing C minConn).Reached s) (hmonitor : s.monitor = none)
    (hidle : s.world.pool.channelStreams = []) (hplace : ∀ c ∈ l, s.place c = .idle)
    (hlength : l.length = s.world.pool.connectionStreams.length) :
    ∃ s', (sharing C minConn).Reached s' ∧ s'.monitor = none ∧
      s'.world.pool.channelStreams = [] ∧ s'.world.pool.connectionStreams = [] ∧
      (∀ c ∈ l, ∃ i, s'.place c = .holding i) ∧ ∀ c ∉ l, s'.place c = s.place c := by
  induction l generalizing s with
  | nil =>
      exact ⟨s, h, hmonitor, hidle, List.length_eq_zero_iff.mp hlength.symm, nofun, fun _ _ => rfl⟩
  | cons c l ih =>
      obtain ⟨hcl, hl⟩ := List.nodup_cons.mp hl
      obtain ⟨poll, rest, hleft⟩ := List.exists_cons_of_length_eq_add_one hlength.symm
      obtain ⟨s₁, h₁, hmonitor₁, hidle₁, hleft₁, hplace₁⟩ :=
        reached_create h hmonitor hidle (hplace c List.mem_cons_self) hleft
      have hne : ∀ d ∈ l, d ≠ c := fun d hd hdc => hcl (hdc ▸ hd)
      obtain ⟨s₂, h₂, hmonitor₂, hidle₂, hleft₂, hin, hout⟩ := ih hl h₁ hmonitor₁ hidle₁
        (fun d hd => by
          rw [hplace₁, Function.update_of_ne (hne d hd)]
          exact hplace d (List.mem_cons_of_mem _ hd))
        (by rw [hleft] at hlength; rw [hleft₁]; exact Nat.succ.inj hlength)
      refine ⟨s₂, h₂, hmonitor₂, hidle₂, hleft₂, fun d hd => ?_, fun d hd => ?_⟩
      · rcases List.mem_cons.mp hd with rfl | hd
        · exact ⟨_, by rw [hout _ hcl, hplace₁, Function.update_self]⟩
        · exact hin d hd
      · obtain ⟨hdc, hdl⟩ := not_or.mp (List.mem_cons.not.mp hd)
        rw [hout d hdl, hplace₁, Function.update_of_ne hdc]

/-- A client that comes to an exhausted pool waits and keeps the monitor. -/
theorem reached_wait {minConn : ℤ} {s : Clients C} (h : (sharing C minConn).Reached s)
    (hmonitor : s.monitor = none) (hidle : s.world.pool.channelStreams = [])
    (hleft : s.world.pool.connectionStreams = []) {c : C} (hc : s.place c = .idle) :
    (sharing C minConn).Reached ⟨s.world, Function.update s.place c .waiting, some c⟩ := by
  have hget := (getChannelStream_result reliable s.world []).eq_wait hidle hleft
  have hstep : (sharing C minConn).step s (.get c) =
      some (s.after c (getChannelStream reliable [] s.world)) := if_pos ⟨hmonitor, hc⟩
  rw [hget] at hstep
  exact h.step trivial hstep

omit [DecidableEq C] in
theorem exists_list_of_lt_card {n : ℕ} (h : (n : ℕ∞) < ENat.card C) :
    ∃ l : List C, l.Nodup ∧ l.length = n + 1 := by
  rw [← Set.encard_univ] at h
  obtain ⟨t, -, ht⟩ := Set.exists_subset_encard_eq (Order.add_one_le_of_lt h)
  have hfinite : t.Finite := Set.finite_of_encard_eq_coe (k := n + 1) (by exact_mod_cast ht)
  refine ⟨hfinite.toFinset.toList, Finset.nodup_toList _, ?_⟩
  rw [hfinite.encard_eq_coe_toFinset_card] at ht
  rw [Finset.length_toList]
  exact_mod_cast ht

/-- The pool never wedges if and only if there are at most as many clients as it has
opened connections. -/
theorem noWedge_iff (C : Type) [DecidableEq C] (minConn : ℤ) :
    (∀ s, (sharing C minConn).Reached s → s.NoWedge) ↔ ENat.card C ≤ (max minConn 1).toNat := by
  constructor
  · intro h
    by_contra hcard
    obtain ⟨l, hl, hlength⟩ := exists_list_of_lt_card (not_le.mp hcard)
    obtain ⟨c, l, rfl⟩ := List.exists_cons_of_length_eq_add_one hlength
    obtain ⟨hcl, hl⟩ := List.nodup_cons.mp hl
    have hlength : l.length = capacity minConn := Nat.succ.inj hlength
    -- all connections are taken by the clients of `l`
    obtain ⟨s, hs, hmonitor, hidle, hleft, hin, hout⟩ := reached_create_all hl
      (.init (S := sharing C minConn)) rfl rfl (fun _ _ => rfl)
      (by simp [sharing, connectionStreams_init, hlength])
    have hwait := reached_wait hs hmonitor hidle hleft (c := c) (hout c hcl)
    obtain ⟨d, hd⟩ : ∃ d, d ∈ l := by
      refine List.exists_mem_of_length_pos ?_
      rw [hlength, capacity]
      omega
    obtain ⟨i, hi⟩ := hin d hd
    have hdc : d ≠ c := fun hdc => hcl (hdc ▸ hd)
    obtain ⟨s', hrelease, -⟩ := h _ hwait c d i (by simp) (by simpa [hdc] using hi)
    simp [Clients.step, hdc, hi] at hrelease
  · intro hcard s hs c d stream hc
    exact absurd hc (place_ne_waiting hcard hs c)

/-- One connection and two clients: the second waits while the first cannot release. -/
theorem not_noWedge_of_two_clients : ∃ s, (sharing Bool 1).Reached s ∧ ¬ s.NoWedge := by
  have hrun : ∃ s, (sharing Bool 1).Reached s ∧ s.place true = .waiting ∧
      s.place false = .holding 0 ∧ (s.step (.release false)).isNone = true :=
    System.ReachedBy.exists_of_execBy [.get false, .get true] (by decide +kernel)
  obtain ⟨s, hs, hwaiting, hholding, hnone⟩ := hrun
  refine ⟨s, hs, fun h => ?_⟩
  obtain ⟨s', hrelease, -⟩ := h true false 0 hwaiting hholding
  rw [hrelease] at hnone
  cases hnone

end HelloBoot.Mq.MQConnectionPool
