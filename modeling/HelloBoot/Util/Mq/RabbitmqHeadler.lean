import HelloBoot.Util.Mq.GetChannelStream

/-!
# `RabbitmqHeadler`

`sendMsg` sends through a channel stream of the pool. The release stands at the end of
the `try` block, so a call that throws there, or before, has taken a stream or a
connection out of the pool for good; `conservesAll_iff` says that a run of sends keeps
what the pool can hand out if and only if no send that gets hold of a stream or a
connection fails.
-/

namespace HelloBoot.Mq

namespace RabbitmqHeadler

open MQConnectionPool

variable {β : Type}

def inEnv {α : Type} (x : EStateM Throwable β α) : Call (World β) α :=
  Call.onPart World.env (fun env w => { w with env := env }) id x

/-- The `try` block of `sendMsg`. -/
def publish (api : ChannelApi β) (exchangeName exchangeType queueName router msg : Option String)
    (channelStream : ℕ) (channel : Option Channel) : Call (World β) Unit := do
  inEnv <| onChannel channel (api.exchangeDeclare · exchangeName exchangeType false)
  inEnv <| onChannel channel (api.queueDeclare · queueName true false false none)
  let body ← inEnv <| getBytes msg
  inEnv <| onChannel channel (api.basicPublish · exchangeName router none body)
  releaseChannelStream channelStream

/-- `sendMsg(exchangeName, exchangeType, queueName, router, msg)` on the pool that `init`
has made. -/
def sendMsg (api : ChannelApi β) (exchangeName exchangeType queueName router msg : Option String)
    (sleeps : List Sleep) : Call (World β) Unit := do
  let channelStream ← getChannelStream api sleeps
  let w ← get
  let channel := (w.pool.streams channelStream).channel
  Call.catchIOException
    (publish api exchangeName exchangeType queueName router msg channelStream channel)

/-- The arguments of a call, and how its sleeps end. -/
structure Send where
  exchangeName : Option String
  exchangeType : Option String
  queueName : Option String
  router : Option String
  msg : Option String
  sleeps : List Sleep

def Send.run (api : ChannelApi β) (m : Send) : Call (World β) Unit :=
  sendMsg api m.exchangeName m.exchangeType m.queueName m.router m.msg m.sleeps

/-- The idle channel streams and the unused connections. -/
def available (pool : MQConnectionPool) : ℕ :=
  pool.channelStreams.length + pool.connectionStreams.length

/-- A call that has ended, in `w`, leaves as much available as before; a call that sleeps
on has not ended. -/
def Conserves (w : World β) : EStateM.Result Stop (World β) Unit → Prop
  | .ok _ w' | .error (.threw _) w' => available w'.pool = available w.pool
  | .error .asleep _ => True

instance (w : World β) :
    (result : EStateM.Result Stop (World β) Unit) → Decidable (Conserves w result)
  | .ok _ _ | .error (.threw _) _ => inferInstanceAs (Decidable (_ = _))
  | .error .asleep _ => .isTrue trivial

/-- `P` holds of each call of a run and the world it finds. Nothing comes after a call
that sleeps on. -/
def AlongRun (api : ChannelApi β) (P : Send → World β → Prop) : List Send → World β → Prop
  | [], _ => True
  | m :: ms, w =>
      P m w ∧
      match m.run api w with
      | .ok _ w' | .error (.threw _) w' => AlongRun api P ms w'
      | .error .asleep _ => True

/-- There is a message, and on an open channel the declarations and the publication
return, leading from `env` to `env'`. -/
def Publishes (api : ChannelApi β) (m : Send) (channel : Channel) (env env' : β) : Prop :=
  ∃ msg env₁ env₂, m.msg = some msg ∧
    api.exchangeDeclare channel m.exchangeName m.exchangeType false env = .ok () env₁ ∧
    api.queueDeclare channel m.queueName true false false none env₁ = .ok () env₂ ∧
    api.basicPublish channel m.exchangeName m.router none msg.toByteArray env₂ = .ok () env'

/-- Nothing is left to hand out, or what is handed out has a channel that publishes. -/
inductive Clean (api : ChannelApi β) (m : Send) (w : World β) : Prop
  | exhausted (hidle : w.pool.channelStreams = []) (hleft : w.pool.connectionStreams = [])
  | reuse {stream : ℕ} {rest : List ℕ} {channel : Channel} {env' : β}
      (hidle : w.pool.channelStreams = stream :: rest)
      (hchannel : (w.pool.streams stream).channel = some channel)
      (hpublishes : Publishes api m channel w.env env')
  | create {poll : ConnectionStream} {rest : List ConnectionStream} {c : ℕ} {channel : Channel}
      {env env' : β} (hidle : w.pool.channelStreams = [])
      (hleft : w.pool.connectionStreams = poll :: rest) (hc : poll.connection = some c)
      (hchannel : api.createChannel c w.env = .ok (some channel) env)
      (hpublishes : Publishes api m channel env env')

variable {api : ChannelApi β} {m : Send} {w : World β}

theorem inEnv_of_ok {α : Type} {x : EStateM Throwable β α} {a : α} {env : β}
    (h : x w.env = .ok a env) : inEnv x w = .ok a ⟨w.pool, env⟩ := by
  simp only [inEnv, Call.onPart, h]

theorem inEnv_of_error {α : Type} {x : EStateM Throwable β α} {t : Throwable} {env : β}
    (h : x w.env = .error t env) : inEnv x w = .error (.threw t) ⟨w.pool, env⟩ := by
  simp only [inEnv, Call.onPart, h]
  rfl

variable (api m w) in
/-- The `try` block releases the stream, or throws with the pool as it was. -/
theorem publish_cases (channelStream : ℕ) (channel : Option Channel) :
    (∃ c env', channel = some c ∧ Publishes api m c w.env env' ∧
      publish api m.exchangeName m.exchangeType m.queueName m.router m.msg channelStream channel w =
        .ok () ⟨releaseStreamOf w.pool channelStream, env'⟩) ∨
    ((∀ c env', channel = some c → ¬ Publishes api m c w.env env') ∧ ∃ t env',
      publish api m.exchangeName m.exchangeType m.queueName m.router m.msg channelStream channel w =
        .error (.threw t) ⟨w.pool, env'⟩) := by
  unfold publish
  cases channel with
  | none => exact .inr ⟨nofun, .nullPointer, w.env, Call.bind_of_error (inEnv_of_error rfl)⟩
  | some c =>
      have honly : (∀ env', ¬ Publishes api m c w.env env') →
          ∀ c' env', some c = some c' → ¬ Publishes api m c' w.env env' :=
        fun hnot c' env' hc => Option.some.inj hc ▸ hnot env'
      simp only [onChannel_some]
      cases hexchange : api.exchangeDeclare c m.exchangeName m.exchangeType false w.env with
      | error t env =>
          exact .inr ⟨honly (by simp [Publishes, hexchange]), t, env,
            Call.bind_of_error (inEnv_of_error hexchange)⟩
      | ok _ env₁ =>
          rw [Call.bind_of_ok (inEnv_of_ok hexchange)]
          cases hqueue : api.queueDeclare c m.queueName true false false none env₁ with
          | error t env =>
              exact .inr ⟨honly (by simp [Publishes, hexchange, hqueue]), t, env,
                Call.bind_of_error (inEnv_of_error hqueue)⟩
          | ok _ env₂ =>
              rw [Call.bind_of_ok (inEnv_of_ok hqueue)]
              cases hmsg : m.msg with
              | none =>
                  exact .inr ⟨honly (by simp [Publishes, hmsg]), .nullPointer, env₂,
                    Call.bind_of_error (inEnv_of_error rfl)⟩
              | some msg =>
                  have hbody : getBytes (some msg) env₂ = .ok msg.toByteArray env₂ := rfl
                  rw [Call.bind_of_ok (inEnv_of_ok hbody)]
                  cases hpublish : api.basicPublish c m.exchangeName m.router none
                    msg.toByteArray env₂ with
                  | error t env =>
                      have hnot : ∀ env', ¬ Publishes api m c w.env env' := by
                        simp [Publishes, hmsg, hexchange, hqueue, hpublish]
                      exact .inr ⟨honly hnot, t, env,
                        Call.bind_of_error (inEnv_of_error hpublish)⟩
                  | ok _ env₃ =>
                      rw [Call.bind_of_ok (inEnv_of_ok hpublish)]
                      have hpublishes : Publishes api m c w.env env₃ :=
                        ⟨msg, env₁, env₂, hmsg, hexchange, hqueue, hpublish⟩
                      exact .inl ⟨c, env₃, rfl, hpublishes, rfl⟩

/-- Of a call that has got hold of a stream only the release can put it back. -/
theorem conserves_publish_iff {w' : World β} (hw' : available w'.pool + 1 = available w.pool)
    (channelStream : ℕ) (channel : Option Channel) :
    Conserves w (Call.catchIOException (publish api m.exchangeName m.exchangeType m.queueName
      m.router m.msg channelStream channel) w') ↔
      ∃ c env', channel = some c ∧ Publishes api m c w'.env env' := by
  rcases publish_cases api m w' channelStream channel with
    ⟨c, env, hc, hpublishes, hresult⟩ | ⟨hnot, t, env, hresult⟩
  · have hconserves : Conserves w (.ok () ⟨releaseStreamOf w'.pool channelStream, env⟩) := by
      simp only [Conserves, available, releaseStreamOf, setStream, List.length_append,
        List.length_singleton] at hw' ⊢
      omega
    simp only [Call.catchIOException, hresult]
    exact iff_of_true hconserves ⟨c, env, hc, hpublishes⟩
  · have hleaks : ¬ available w'.pool = available w.pool := by omega
    refine iff_of_false ?_ ?_
    · cases ht : t.isIOException <;>
        simpa [Conserves, Call.catchIOException, hresult, ht] using hleaks
    · rintro ⟨c, env', hc, hpublishes⟩
      exact hnot c env' hc hpublishes

theorem run_of_ok {channelStream : ℕ} {w' : World β}
    (h : getChannelStream api m.sleeps w = .ok channelStream w') :
    m.run api w = Call.catchIOException (publish api m.exchangeName m.exchangeType m.queueName
      m.router m.msg channelStream (w'.pool.streams channelStream).channel) w' := by
  rw [Send.run, sendMsg, Call.bind_of_ok h]
  rfl

theorem run_of_error {stop : Stop} {w' : World β}
    (h : getChannelStream api m.sleeps w = .error stop w') : m.run api w = .error stop w' := by
  rw [Send.run, sendMsg, Call.bind_of_error h]

theorem clean_iff_of_idle {stream : ℕ} {rest : List ℕ}
    (hidle : w.pool.channelStreams = stream :: rest) :
    Clean api m w ↔
      ∃ c env', (w.pool.streams stream).channel = some c ∧ Publishes api m c w.env env' := by
  constructor
  · intro hclean
    cases hclean with
    | exhausted hidle' => simp [hidle] at hidle'
    | @reuse _ _ c env' hidle' hc hpublishes =>
        obtain ⟨rfl, -⟩ := List.cons.inj (hidle.symm.trans hidle')
        exact ⟨c, env', hc, hpublishes⟩
    | create hidle' => simp [hidle] at hidle'
  · rintro ⟨c, env', hc, hpublishes⟩
    exact .reuse hidle hc hpublishes

theorem clean_iff_of_left {poll : ConnectionStream} {rest : List ConnectionStream} {k : ℕ}
    {channel : Option Channel} {env : β} (hidle : w.pool.channelStreams = [])
    (hleft : w.pool.connectionStreams = poll :: rest) (hk : poll.connection = some k)
    (hchannel : api.createChannel k w.env = .ok channel env) :
    Clean api m w ↔ ∃ c env', channel = some c ∧ Publishes api m c env env' := by
  constructor
  · intro hclean
    cases hclean with
    | exhausted _ hleft' => simp [hleft] at hleft'
    | reuse hidle' => simp [hidle] at hidle'
    | @create _ _ k' c _ env' _ hleft' hk' hchannel' hpublishes =>
        obtain ⟨rfl, -⟩ := List.cons.inj (hleft.symm.trans hleft')
        obtain rfl := Option.some.inj (hk.symm.trans hk')
        rw [hchannel] at hchannel'
        cases hchannel'
        exact ⟨c, env', rfl, hpublishes⟩
  · rintro ⟨c, env', rfl, hpublishes⟩
    exact .create hidle hleft hk hchannel hpublishes

theorem not_clean_of_fails {poll : ConnectionStream} {rest : List ConnectionStream} {env : β}
    (hidle : w.pool.channelStreams = []) (hleft : w.pool.connectionStreams = poll :: rest)
    (hfails : CreateFails api poll.connection w.env env) : ¬ Clean api m w := by
  intro hclean
  cases hclean with
  | exhausted _ hleft' => simp [hleft] at hleft'
  | reuse hidle' => simp [hidle] at hidle'
  | create _ hleft' hk hchannel =>
      obtain ⟨rfl, -⟩ := List.cons.inj (hleft.symm.trans hleft')
      rcases hfails with ⟨hnone, -⟩ | ⟨k, t, hk', hthrows⟩
      · simp [hk] at hnone
      · obtain rfl := Option.some.inj (hk.symm.trans hk')
        simp [hchannel] at hthrows

theorem conserves_iff (api : ChannelApi β) (m : Send) (w : World β) :
    Conserves w (m.run api w) ↔ Clean api m w := by
  have hresult := getChannelStream_result api w m.sleeps
  generalize hget : getChannelStream api m.sleeps w = result at hresult
  cases hresult with
  | @reuse stream rest hidle =>
      have htaken : available (useStreamOf { w.pool with channelStreams := rest } stream) + 1 =
          available w.pool := by
        simp only [available, useStreamOf, setStream, hidle, List.length_cons]
        omega
      rw [run_of_ok hget, conserves_publish_iff htaken, clean_iff_of_idle hidle]
      simp only [useStreamOf, setStream, Function.update_self]
  | @create poll rest c channel env hidle hleft hc hchannel =>
      have htaken : available (newStreamOf { w.pool with connectionStreams := rest } channel) + 1 =
          available w.pool := by
        simp only [available, newStreamOf, setStream, hleft, List.length_cons]
        omega
      rw [run_of_ok hget, conserves_publish_iff htaken, clean_iff_of_left hidle hleft hc hchannel]
      simp only [newStreamOf, setStream, Function.update_self]
  | @fail poll rest t env hidle hleft hfails =>
      rw [run_of_error hget]
      refine iff_of_false ?_ (not_clean_of_fails hidle hleft hfails)
      simp [Conserves, available, hleft]
  | wait hidle hleft =>
      rw [run_of_error hget, waiting]
      refine iff_of_true ?_ (.exhausted hidle hleft)
      split <;> simp [Conserves]

theorem alongRun_congr {P Q : Send → World β → Prop} (h : ∀ m w, P m w ↔ Q m w)
    (ms : List Send) (w : World β) : AlongRun api P ms w ↔ AlongRun api Q ms w := by
  induction ms generalizing w with
  | nil => rfl
  | cons m ms ih =>
      refine and_congr (h m w) ?_
      split
      · exact ih _
      · exact ih _
      · rfl

/-- Every call of a run leaves as much available as it found if and only if every call
that gets hold of a stream or a connection gets a channel on it and publishes. -/
theorem conservesAll_iff (api : ChannelApi β) (ms : List Send) (w : World β) :
    AlongRun api (fun m w => Conserves w (m.run api w)) ms w ↔ AlongRun api (Clean api) ms w :=
  alongRun_congr (conserves_iff api) ms w

def publishFails : ChannelApi Unit :=
  { reliable with basicPublish := fun _ _ _ _ _ => throw .ioException }

/-- One connection, and a publication that fails with an `IOException`: the call returns,
and nothing is left. -/
theorem not_conserves_of_publishFails :
    ¬ AlongRun publishFails (fun m w => Conserves w (m.run publishFails w))
      [⟨some "hello", some "direct", some "abdc", some "hello", some "1", []⟩]
      ⟨init 1 fun _ => true, ()⟩ := by
  rintro ⟨hconserves, -⟩
  revert hconserves
  decide +kernel

end RabbitmqHeadler

end HelloBoot.Mq
