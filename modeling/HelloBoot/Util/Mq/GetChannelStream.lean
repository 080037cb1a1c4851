import HelloBoot.Util.Mq.MQConnectionPool

/-!
# What `getChannelStream` can do

`GetResult` lists the results of `getChannelStream`, one constructor for each: an idle
stream is used again, a new one is made on a connection that is left, the connection
has no channel, or nothing is left and the call waits. In the last case no sleep helps,
because the call looks for connections and only `init` puts any there.
-/

namespace HelloBoot.Mq.MQConnectionPool

variable {β : Type} {api : ChannelApi β} {w : World β}

def useStreamOf (pool : MQConnectionPool) (stream : ℕ) : MQConnectionPool :=
  pool.setStream stream
    { pool.streams stream with
      useQuantity := (pool.streams stream).useQuantity + 1, free := false }

def newStreamOf (pool : MQConnectionPool) (channel : Option Channel) : MQConnectionPool :=
  { pool.setStream pool.created ⟨channel, false, 1⟩ with created := pool.created + 1 }

def releaseStreamOf (pool : MQConnectionPool) (stream : ℕ) : MQConnectionPool :=
  { pool.setStream stream
      { pool.streams stream with
        free := true, useQuantity := (pool.streams stream).useQuantity - 1 } with
    channelStreams := pool.channelStreams ++ [stream] }

theorem releaseChannelStream_eq (stream : ℕ) (w : World β) :
    releaseChannelStream stream w = .ok () ⟨releaseStreamOf w.pool stream, w.env⟩ := rfl

/-- How a call ends that finds no connection, however long it sleeps. -/
def waiting (sleeps : List Sleep) : Stop :=
  if .interrupted ∈ sleeps then .threw .nullPointer else .asleep

def CreateFails (api : ChannelApi β) (connection : Option ℕ) (env env' : β) : Prop :=
  connection = none ∧ env' = env ∨
    ∃ c t, connection = some c ∧ api.createChannel c env = .error t env'

inductive GetResult (api : ChannelApi β) (sleeps : List Sleep) (w : World β) :
    EStateM.Result Stop (World β) ℕ → Prop
  | reuse {stream : ℕ} {rest : List ℕ} (hidle : w.pool.channelStreams = stream :: rest) :
      GetResult api sleeps w
        (.ok stream ⟨useStreamOf { w.pool with channelStreams := rest } stream, w.env⟩)
  | create {poll : ConnectionStream} {rest : List ConnectionStream} {c : ℕ}
      {channel : Option Channel} {env : β} (hidle : w.pool.channelStreams = [])
      (hleft : w.pool.connectionStreams = poll :: rest) (hc : poll.connection = some c)
      (hchannel : api.createChannel c w.env = .ok channel env) :
      GetResult api sleeps w
        (.ok w.pool.created ⟨newStreamOf { w.pool with connectionStreams := rest } channel, env⟩)
  | fail {poll : ConnectionStream} {rest : List ConnectionStream} {t : Throwable} {env : β}
      (hidle : w.pool.channelStreams = []) (hleft : w.pool.connectionStreams = poll :: rest)
      (hfails : CreateFails api poll.connection w.env env) :
      GetResult api sleeps w
        (.error (.threw t) ⟨{ w.pool with connectionStreams := rest }, env⟩)
  | wait (hidle : w.pool.channelStreams = []) (hleft : w.pool.connectionStreams = []) :
      GetResult api sleeps w (.error (waiting sleeps) w)

theorem GetResult.eq_wait {sleeps : List Sleep} {result : EStateM.Result Stop (World β) ℕ}
    (h : GetResult api sleeps w result) (hidle : w.pool.channelStreams = [])
    (hleft : w.pool.connectionStreams = []) : result = .error (waiting sleeps) w := by
  cases h with
  | reuse hidle' => simp [hidle] at hidle'
  | create _ hleft' => simp [hleft] at hleft'
  | fail _ hleft' => simp [hleft] at hleft'
  | wait => rfl

/-- A call that finds only connections makes a stream on the first, if that is open. -/
theorem GetResult.eq_create {sleeps : List Sleep} {result : EStateM.Result Stop (World β) ℕ}
    (h : GetResult api sleeps w result) (hidle : w.pool.channelStreams = [])
    {poll : ConnectionStream} {rest : List ConnectionStream}
    (hleft : w.pool.connectionStreams = poll :: rest) {c : ℕ} (hc : poll.connection = some c)
    {channel : Option Channel} {env : β} (hchannel : api.createChannel c w.env = .ok channel env) :
    result =
      .ok w.pool.created ⟨newStreamOf { w.pool with connectionStreams := rest } channel, env⟩ := by
  cases h with
  | reuse hidle' => simp [hidle] at hidle'
  | create _ hleft' hc' hchannel' =>
      obtain ⟨rfl, rfl⟩ := List.cons.inj (hleft.symm.trans hleft')
      obtain rfl := Option.some.inj (hc.symm.trans hc')
      rw [hchannel] at hchannel'
      cases hchannel'
      rfl
  | fail _ hleft' hfails =>
      obtain ⟨rfl, -⟩ := List.cons.inj (hleft.symm.trans hleft')
      rcases hfails with ⟨hnone, -⟩ | ⟨k, t, hk, hthrows⟩
      · simp [hc] at hnone
      · obtain rfl := Option.some.inj (hc.symm.trans hk)
        simp [hchannel] at hthrows
  | wait _ hleft' => simp [hleft] at hleft'

theorem getConnectionStream_of_empty (hleft : w.pool.connectionStreams = [])
    (sleeps : List Sleep) : getConnectionStream sleeps w = .error (waiting sleeps) w := by
  have hpoll : pollConnectionStreams w = .ok none w := by rw [pollConnectionStreams, hleft]
  induction sleeps with
  | nil =>
      rw [getConnectionStream.eq_def, Call.bind_of_ok hpoll]
      rfl
  | cons sleep sleeps ih =>
      rw [getConnectionStream.eq_def, Call.bind_of_ok hpoll]
      cases sleep with
      | elapsed => simpa [waiting] using ih
      | interrupted => simp [waiting]; rfl

theorem getConnectionStream_of_cons {poll : ConnectionStream} {rest : List ConnectionStream}
    (hleft : w.pool.connectionStreams = poll :: rest) (sleeps : List Sleep) :
    getConnectionStream sleeps w =
      .ok { poll with useQuantity := poll.useQuantity + 1, free := false }
        { w with pool := { w.pool with connectionStreams := rest } } := by
  have hpoll : pollConnectionStreams w =
      .ok (some poll) { w with pool := { w.pool with connectionStreams := rest } } := by
    rw [pollConnectionStreams, hleft]
  cases sleeps <;> rw [getConnectionStream.eq_def, Call.bind_of_ok hpoll] <;> rfl

theorem newStream_useStream (channel : Option Channel) (w : World β) :
    (newStream channel >>= useStream) w =
      .ok w.pool.created ⟨newStreamOf w.pool channel, w.env⟩ := by
  have hnew : newStream channel w = .ok w.pool.created
      ⟨{ w.pool.setStream w.pool.created ⟨channel, false, 0⟩ with
          created := w.pool.created + 1 }, w.env⟩ := rfl
  rw [Call.bind_of_ok hnew]
  simp [useStream, newStreamOf, setStream]

variable (api) in
theorem createChannelStream_result (hidle : w.pool.channelStreams = []) (sleeps : List Sleep) :
    GetResult api sleeps w (createChannelStream api sleeps w) := by
  rw [createChannelStream]
  cases hleft : w.pool.connectionStreams with
  | nil =>
      rw [Call.bind_of_error (getConnectionStream_of_empty hleft sleeps)]
      exact .wait hidle hleft
  | cons poll rest =>
      rw [Call.bind_of_ok (getConnectionStream_of_cons hleft sleeps)]
      cases hc : poll.connection with
      | none => exact .fail hidle hleft (.inl ⟨hc, rfl⟩)
      | some c =>
          cases hchannel : api.createChannel c w.env with
          | error t env =>
              have hcreate : createChannel api (some c)
                  { w with pool := { w.pool with connectionStreams := rest } } =
                  .error (.threw (Call.wrap t))
                    ⟨{ w.pool with connectionStreams := rest }, env⟩ := by
                simp only [createChannel, Call.onPart, hchannel]
              rw [Call.bind_of_error hcreate]
              exact .fail hidle hleft (.inr ⟨c, t, hc, hchannel⟩)
          | ok channel env =>
              have hcreate : createChannel api (some c)
                  { w with pool := { w.pool with connectionStreams := rest } } =
                  .ok channel ⟨{ w.pool with connectionStreams := rest }, env⟩ := by
                simp only [createChannel, Call.onPart, hchannel]
              rw [Call.bind_of_ok hcreate, newStream_useStream]
              exact .create hidle hleft hc hchannel

variable (api w) in
theorem getChannelStream_result (sleeps : List Sleep) :
    GetResult api sleeps w (getChannelStream api sleeps w) := by
  rw [getChannelStream]
  cases hidle : w.pool.channelStreams with
  | nil =>
      have hpoll : pollChannelStreams w = .ok none w := by rw [pollChannelStreams, hidle]
      rw [Call.bind_of_ok hpoll]
      exact createChannelStream_result api hidle sleeps
  | cons stream rest =>
      have hpoll : pollChannelStreams w =
          .ok (some stream) { w with pool := { w.pool with channelStreams := rest } } := by
        rw [pollChannelStreams, hidle]
      rw [Call.bind_of_ok hpoll]
      exact .reuse hidle

end HelloBoot.Mq.MQConnectionPool
