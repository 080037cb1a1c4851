import HelloBoot.Transition.System
import HelloBoot.Util.Mq.GetChannelStream
import Mathlib.Data.List.Perm.Basic

/-!
# Requests that fail

When no channel stream is idle, `getChannelStream` takes a connection out of its queue
and then creates a channel on it. If that throws, the connection is in no queue and in no
hand: nothing on the way out puts it back, and no later call does
(`not_sameQueues_of_requestFails`). This is so for a connection that is open and for the
null that `init` pools when the broker is down.
-/

namespace HelloBoot.Mq.MQConnectionPool

open Transition

variable {β : Type} {api : ChannelApi β} {w w' : World β}

/-- A call of a public method, or anything that happens outside the pool (closing a
connection does not touch the queues). -/
inductive PoolAct (β : Type) where
  | getChannelStream (sleeps : List Sleep)
  | getConnectionStream (sleeps : List Sleep)
  | releaseChannelStream (stream : ℕ)
  | outside (env : β)

/-- The world after a call that has ended, whether it returned or threw; one that sleeps
keeps everybody else out. -/
def ended {α : Type} : EStateM.Result Stop (World β) α → Option (World β)
  | .ok _ w | .error (.threw _) w => some w
  | .error .asleep _ => none

def requestStep (api : ChannelApi β) (w : World β) : PoolAct β → Option (World β)
  | .getChannelStream sleeps => ended (getChannelStream api sleeps w)
  | .getConnectionStream sleeps => ended (getConnectionStream sleeps w)
  | .releaseChannelStream stream => ended (releaseChannelStream stream w)
  | .outside env => some { w with env := env }

/-- Runs of calls on a new pool, with connections that could be opened or not. -/
def requests (api : ChannelApi β) (minConn : ℤ) (connected : ℕ → Bool) (env : β) :
    System (World β) (PoolAct β) where
  init := ⟨init minConn connected, env⟩
  step := requestStep api

def SameQueues (w w' : World β) : Prop :=
  w'.pool.connectionStreams.Perm w.pool.connectionStreams ∧
    w'.pool.channelStreams.Perm w.pool.channelStreams

/-- A request finds no idle stream, and creating a channel fails on the connection that it
takes. -/
def RequestFails (api : ChannelApi β) (w : World β) : Prop :=
  w.pool.channelStreams = [] ∧ ∃ poll rest env, w.pool.connectionStreams = poll :: rest ∧
    CreateFails api poll.connection w.env env

theorem GetResult.eq_fail {sleeps : List Sleep} {result : EStateM.Result Stop (World β) ℕ}
    (h : GetResult api sleeps w result) (hfails : RequestFails api w) :
    ∃ t poll rest env, w.pool.connectionStreams = poll :: rest ∧
      result = .error (.threw t) ⟨{ w.pool with connectionStreams := rest }, env⟩ := by
  obtain ⟨hidle, poll, rest, env, hleft, hcreate⟩ := hfails
  cases h with
  | reuse hidle' => simp [hidle] at hidle'
  | create _ hleft' hc hchannel =>
      obtain ⟨rfl, -⟩ := List.cons.inj (hleft.symm.trans hleft')
      rcases hcreate with ⟨hnone, -⟩ | ⟨c, t, hc', hthrows⟩
      · simp [hc] at hnone
      · obtain rfl := Option.some.inj (hc.symm.trans hc')
        simp [hchannel] at hthrows
  | fail _ hleft' => exact ⟨_, _, _, _, hleft', rfl⟩
  | wait _ hleft' => simp [hleft] at hleft'

theorem connectionStreams_step {a : PoolAct β} (h : requestStep api w a = some w') :
    w'.pool.connectionStreams.length ≤ w.pool.connectionStreams.length := by
  cases a with
  | getChannelStream sleeps =>
      have hresult := getChannelStream_result api w sleeps
      simp only [requestStep] at h
      generalize getChannelStream api sleeps w = result at h hresult
      cases hresult with
      | reuse => exact Option.some.inj h ▸ Nat.le_refl _
      | create _ hleft =>
          rw [← Option.some.inj h, hleft]
          exact Nat.le_succ _
      | fail _ hleft =>
          rw [← Option.some.inj h, hleft]
          exact Nat.le_succ _
      | wait =>
          unfold waiting at h
          split at h
          · exact Option.some.inj h ▸ Nat.le_refl _
          · cases h
  | getConnectionStream sleeps =>
      simp only [requestStep] at h
      cases hleft : w.pool.connectionStreams with
      | nil =>
          rw [getConnectionStream_of_empty hleft, waiting] at h
          split at h
          · refine Nat.le_of_eq ?_
            rw [← Option.some.inj h, hleft]
          · cases h
      | cons poll rest =>
          rw [getConnectionStream_of_cons hleft] at h
          rw [← Option.some.inj h]
          exact Nat.le_succ _
  | releaseChannelStream stream => exact Option.some.inj h ▸ Nat.le_refl _
  | outside env => exact Option.some.inj h ▸ Nat.le_refl _

theorem connectionStreams_leads {minConn : ℤ} {connected : ℕ → Bool} {env : β}
    (h : (requests api minConn connected env).Leads w w') :
    w'.pool.connectionStreams.length ≤ w.pool.connectionStreams.length := by
  induction h with
  | refl => exact Nat.le_refl _
  | tail _ hstep ih =>
      obtain ⟨a, hstep⟩ := hstep
      exact Nat.le_trans (connectionStreams_step hstep) ih

/-- In every state of the pool, a request for which creating the channel fails throws, and
the queues do not hold the same elements as before: one connection is missing, and stays
so whatever is called afterwards. -/
theorem not_sameQueues_of_requestFails (hfails : RequestFails api w) (sleeps : List Sleep)
    (minConn : ℤ) (connected : ℕ → Bool) (env : β) :
    ∃ t w', getChannelStream api sleeps w = .error (.threw t) w' ∧ ¬ SameQueues w w' ∧
      ∀ w'', (requests api minConn connected env).Leads w' w'' →
        w''.pool.connectionStreams.length < w.pool.connectionStreams.length := by
  obtain ⟨t, poll, rest, env', hleft, hresult⟩ :=
    (getChannelStream_result api w sleeps).eq_fail hfails
  refine ⟨t, _, hresult, fun hsame => ?_, fun w'' hlater => ?_⟩
  · have hlength := hsame.1.length_eq
    rw [hleft, List.length_cons] at hlength
    exact absurd hlength (Nat.ne_of_lt (Nat.lt_succ_self rest.length))
  · rw [hleft]
    exact Nat.lt_succ_of_le (connectionStreams_leads hlater)

def downPool : World Unit := ⟨init 1 fun _ => false, ()⟩

theorem not_sameQueues_of_downPool :
    ∃ t w', getChannelStream reliable [] downPool = .error (.threw t) w' ∧
      ¬ SameQueues downPool w' ∧
      ∀ w'', (requests reliable 1 (fun _ => false) ()).Leads w' w'' →
        w''.pool.connectionStreams.length < downPool.pool.connectionStreams.length :=
  not_sameQueues_of_requestFails ⟨rfl, _, _, _, rfl, .inl ⟨rfl, rfl⟩⟩ [] 1 (fun _ => false) ()

/-- The first request throws and leaves the pool empty, and the second one sleeps. -/
theorem not_sameQueues_of_null_connection :
    (requests reliable 1 (fun _ => false) ()).Reached downPool ∧
      ∃ t w', getChannelStream reliable [] downPool = .error (.threw t) w' ∧
        ¬ SameQueues downPool w' ∧ ∃ w'', getChannelStream reliable [] w' = .error .asleep w'' := by
  obtain ⟨t, poll, rest, env, hleft, hresult⟩ :=
    (getChannelStream_result reliable downPool []).eq_fail ⟨rfl, _, _, _, rfl, .inl ⟨rfl, rfl⟩⟩
  obtain ⟨-, rfl⟩ := List.cons.inj hleft
  refine ⟨.init, t, _, hresult, fun hsame => ?_, _,
    (getChannelStream_result reliable _ []).eq_wait rfl rfl⟩
  exact Nat.zero_ne_one hsame.1.length_eq

end HelloBoot.Mq.MQConnectionPool
