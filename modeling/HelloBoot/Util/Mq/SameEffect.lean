import HelloBoot.Util.Mq.Broker
import HelloBoot.Util.Mq.RabbitmqHeadler
import HelloBoot.Util.RabbitmqUtil
import Mathlib.Tactic.Set

/-!
# The pooled and the plain sender on one broker

Both senders declare the exchange and the queue and then publish; only the plain one
binds the queue. On a broker that has neither, the message of the plain sender is in
the queue afterwards (`plain_holds`), and that of the pooled sender is dropped
(`pooled_not_holds`), whatever the names and the key.
-/

namespace HelloBoot.Mq

open RabbitmqHeadler

variable {routing : Routing} {broker : Broker} {exchangeName exchangeType queueName router : String}

def Broker.declared (broker : Broker) (exchangeName exchangeType queueName : String)
    (durable : Bool) : Broker :=
  (broker.addExchange exchangeName ⟨exchangeType, durable⟩).addQueue queueName
    ⟨true, false, false, [], []⟩

theorem queues_declared (durable : Bool) :
    (broker.declared exchangeName exchangeType queueName durable).queues queueName =
      some ⟨true, false, false, [], []⟩ := by
  simp [Broker.declared, Broker.addQueue]

theorem exchanges_declared (queueName : String) (durable : Bool) :
    (broker.declared exchangeName exchangeType queueName durable).exchanges exchangeName =
      some ⟨exchangeType, durable⟩ := by
  simp [Broker.declared, Broker.addQueue, Broker.addExchange]

theorem unbound_of_absent (hqueue : broker.queues queueName = none) {binding : Binding}
    (hbinding : binding ∈ broker.bindings) : binding.queue ≠ queueName := by
  rintro rfl
  simpa [hqueue] using (broker.bound binding hbinding).1

/-- What the pooled sender leaves when it publishes. -/
theorem publishes_iff (hexchange : broker.exchanges exchangeName = none)
    (hqueue : broker.queues queueName = none) (msg : String) (sleeps : List Sleep)
    (channel : Channel) (env' : Broker) :
    Publishes (Broker.api routing)
      ⟨some exchangeName, some exchangeType, some queueName, some router, some msg, sleeps⟩
      channel broker env' ↔
    env' = (broker.declared exchangeName exchangeType queueName false).deliver routing
      exchangeName router msg.toByteArray := by
  have hqueue' : (broker.addExchange exchangeName ⟨exchangeType, false⟩).queues queueName = none :=
    hqueue
  simp [Publishes, Broker.api, Broker.exchangeDeclare_of_absent hexchange,
    Broker.queueDeclare_of_absent hqueue', Broker.basicPublish, Broker.declared, eq_comm]

theorem not_holds_declared (hexchange : broker.exchanges exchangeName = none)
    (hqueue : broker.queues queueName = none) (durable : Bool) (body : ByteArray) :
    ¬ ((broker.declared exchangeName exchangeType queueName durable).deliver routing exchangeName
      router body).Holds queueName body := by
  have hunreached : (broker.declared exchangeName exchangeType queueName durable).reaches routing
      exchangeName router queueName = false :=
    Broker.reaches_of_unbound (Broker.ne_nameless hexchange) fun _ hbinding =>
      unbound_of_absent hqueue hbinding
  rw [Broker.holds_deliver_iff (queues_declared durable) rfl, hunreached]
  exact Bool.false_ne_true

/-- With a stream in hand, the pooled sender returns without the message in the queue. -/
theorem not_holds_publish (hexchange : broker.exchanges exchangeName = none)
    (hqueue : broker.queues queueName = none) {msg : String} (sleeps : List Sleep)
    {pool : MQConnectionPool} {channelStream : ℕ} {channel : Option Channel} {w' : World Broker}
    (hpublish : Call.catchIOException (publish (Broker.api routing) (some exchangeName)
      (some exchangeType) (some queueName) (some router) (some msg) channelStream channel)
      ⟨pool, broker⟩ = .ok () w') :
    ¬ w'.env.Holds queueName msg.toByteArray := by
  rcases publish_cases (Broker.api routing)
    ⟨some exchangeName, some exchangeType, some queueName, some router, some msg, sleeps⟩
    ⟨pool, broker⟩ channelStream channel with
    ⟨c, env', -, hpublishes, hresult⟩ | ⟨hnot, t, env', hresult⟩
  · rw [Call.catchIOException, hresult] at hpublish
    cases hpublish
    rw [(publishes_iff hexchange hqueue msg sleeps c env').mp hpublishes]
    exact not_holds_declared hexchange hqueue false _
  · cases channel with
    | none =>
        cases hpublish
    | some c =>
        exact absurd ((publishes_iff hexchange hqueue msg sleeps c _).mpr rfl) (hnot c _ rfl)

theorem pooled_not_holds (hexchange : broker.exchanges exchangeName = none)
    (hqueue : broker.queues queueName = none) {msg : String} {sleeps : List Sleep}
    {pool : MQConnectionPool} {w' : World Broker}
    (hsend : RabbitmqHeadler.sendMsg (Broker.api routing) (some exchangeName) (some exchangeType)
      (some queueName) (some router) (some msg) sleeps ⟨pool, broker⟩ = .ok () w') :
    ¬ w'.env.Holds queueName msg.toByteArray := by
  set m : Send :=
    ⟨some exchangeName, some exchangeType, some queueName, some router, some msg, sleeps⟩
  have hsend : m.run (Broker.api routing) ⟨pool, broker⟩ = .ok () w' := hsend
  have hresult := MQConnectionPool.getChannelStream_result (Broker.api routing)
    ⟨pool, broker⟩ sleeps
  generalize hget : MQConnectionPool.getChannelStream (Broker.api routing) sleeps ⟨pool, broker⟩ =
    result at hresult
  cases hresult with
  | reuse hidle =>
      rw [run_of_ok (m := m) hget] at hsend
      exact not_holds_publish hexchange hqueue sleeps hsend
  | create hidle hleft hc hchannel =>
      -- opening a channel leaves the broker as it was
      cases hchannel
      rw [run_of_ok (m := m) hget] at hsend
      exact not_holds_publish hexchange hqueue sleeps hsend
  | fail hidle hleft hfails =>
      rw [run_of_error (m := m) hget] at hsend
      cases hsend
  | wait hidle hleft =>
      rw [run_of_error (m := m) hget] at hsend
      cases hsend

theorem pooled_completes (routing : Routing) (exchangeType router msg : String)
    (sleeps : List Sleep) (hexchange : broker.exchanges exchangeName = none)
    (hqueue : broker.queues queueName = none) {pool : MQConnectionPool} {poll : ConnectionStream}
    {rest : List ConnectionStream} {c : ℕ} (hidle : pool.channelStreams = [])
    (hleft : pool.connectionStreams = poll :: rest) (hc : poll.connection = some c) :
    ∃ w', RabbitmqHeadler.sendMsg (Broker.api routing) (some exchangeName) (some exchangeType)
      (some queueName) (some router) (some msg) sleeps ⟨pool, broker⟩ = .ok () w' := by
  set m : Send :=
    ⟨some exchangeName, some exchangeType, some queueName, some router, some msg, sleeps⟩
  have hget := (MQConnectionPool.getChannelStream_result (Broker.api routing) ⟨pool, broker⟩
    sleeps).eq_create hidle hleft hc rfl
  have hrun := run_of_ok (m := m) hget
  simp only [MQConnectionPool.newStreamOf, MQConnectionPool.setStream,
    Function.update_self] at hrun
  rcases publish_cases (Broker.api routing) m _ _ _ with ⟨c, env', -, -, hpublish⟩ | ⟨hnot, -⟩
  · rw [Call.catchIOException, hpublish] at hrun
    exact ⟨_, hrun⟩
  · exact absurd ((publishes_iff hexchange hqueue msg sleeps _ _).mpr rfl) (hnot _ _ rfl)

/-- The broker after the plain sender has declared the exchange and the queue and has
bound the queue with the key. -/
def Broker.boundWith (broker : Broker) (exchangeName exchangeType queueName key : String) :
    Broker :=
  (broker.declared exchangeName exchangeType queueName true).addBinding
    ⟨queueName, exchangeName, key⟩ (by rw [queues_declared]; rfl) (by rw [exchanges_declared]; rfl)

theorem plain_sendMsg (hexchange : broker.exchanges exchangeName = none)
    (hqueue : broker.queues queueName = none)
    (htype : exchangeType = "direct" ∨ exchangeType = "fanout") (connection : ℕ)
    (router : Option String) (msg : String) :
    ∃ key, RabbitmqUtil.sendMsg (Broker.api routing) (some connection) (some exchangeName)
      (some exchangeType) (some queueName) router (some msg) broker =
      .ok () ((broker.boundWith exchangeName exchangeType queueName key).deliver routing
        exchangeName key msg.toByteArray) := by
  obtain ⟨key, hkey⟩ : ∃ key, (if RabbitmqUtil.isBlank router then
      some RabbitmqUtil.defaultRouter else router) = some key := by
    cases router with
    | none => exact ⟨_, rfl⟩
    | some r => split <;> exact ⟨_, rfl⟩
  have hblank : RabbitmqUtil.isBlank (some exchangeType) = false := by
    rcases htype with rfl | rfl <;> decide
  have hqueue' : (broker.addExchange exchangeName ⟨exchangeType, true⟩).queues queueName = none :=
    hqueue
  set declared := broker.declared exchangeName exchangeType queueName true with hdeclared
  have hchannel : RabbitmqUtil.createChannel (Broker.api routing) (some connection) broker =
      .ok (some ⟨connection, 0⟩) broker := rfl
  have hdeclare : (Broker.api routing).exchangeDeclare ⟨connection, 0⟩ (some exchangeName)
      (some exchangeType) true broker =
      .ok () (broker.addExchange exchangeName ⟨exchangeType, true⟩) :=
    Broker.exchangeDeclare_of_absent hexchange true
  have hdeclare' : (Broker.api routing).queueDeclare ⟨connection, 0⟩ (some queueName) true false
      false (some (RabbitmqUtil.queueArguments none none))
      (broker.addExchange exchangeName ⟨exchangeType, true⟩) = .ok () declared :=
    Broker.queueDeclare_of_absent hqueue' true false false (some [])
  have hbind : (Broker.api routing).queueBind ⟨connection, 0⟩ (some queueName) (some exchangeName)
      (some key) declared = .ok () (broker.boundWith exchangeName exchangeType queueName key) :=
    Broker.queueBind_of_present (Broker.ne_nameless hexchange) (by rw [hdeclared, queues_declared]; rfl)
      (by rw [hdeclared, exchanges_declared]; rfl)
  refine ⟨key, ?_⟩
  rw [RabbitmqUtil.sendMsg, RabbitmqUtil.sendMsgOn, Call.wrapException]
  simp only [hkey, hblank, Bool.false_eq_true, if_false]
  rw [Call.bind_of_ok hchannel]
  simp only [onChannel_some]
  rw [Call.bind_of_ok hdeclare, Call.bind_of_ok hdeclare', Call.bind_of_ok hbind]
  rfl

theorem holds_boundWith (hexchange : broker.exchanges exchangeName = none)
    (htype : exchangeType = "direct" ∨ exchangeType = "fanout") (key : String)
    (body : ByteArray) :
    ((broker.boundWith exchangeName exchangeType queueName key).deliver routing exchangeName key
      body).Holds queueName body := by
  have hqueue : (broker.boundWith exchangeName exchangeType queueName key).queues queueName =
      some ⟨true, false, false, [], []⟩ := queues_declared true
  have hbound : (broker.boundWith exchangeName exchangeType queueName key).exchanges exchangeName =
      some ⟨exchangeType, true⟩ := exchanges_declared queueName true
  rw [Broker.holds_deliver_iff hqueue rfl]
  exact Broker.reaches_of_bound (Broker.ne_nameless hexchange) hbound List.mem_cons_self htype

theorem plain_holds (hexchange : broker.exchanges exchangeName = none)
    (hqueue : broker.queues queueName = none)
    (htype : exchangeType = "direct" ∨ exchangeType = "fanout") (connection : ℕ)
    (router : Option String) (msg : String) :
    ∃ broker', RabbitmqUtil.sendMsg (Broker.api routing) (some connection) (some exchangeName)
      (some exchangeType) (some queueName) router (some msg) broker = .ok () broker' ∧
      broker'.Holds queueName msg.toByteArray := by
  obtain ⟨key, hsend⟩ := plain_sendMsg hexchange hqueue htype connection router msg
  exact ⟨_, hsend, holds_boundWith hexchange htype key _⟩

/-- On a broker with neither the exchange nor the queue the two senders never have the
same effect on the queue. -/
theorem not_same_effect (routing : Routing) {broker : Broker}
    {exchangeName exchangeType queueName router msg : String}
    (hexchange : broker.exchanges exchangeName = none) (hqueue : broker.queues queueName = none)
    (htype : exchangeType = "direct" ∨ exchangeType = "fanout") (connection : ℕ)
    {sleeps : List Sleep} {pool : MQConnectionPool} {w' : World Broker}
    (hsend : RabbitmqHeadler.sendMsg (Broker.api routing) (some exchangeName) (some exchangeType)
      (some queueName) (some router) (some msg) sleeps ⟨pool, broker⟩ = .ok () w') :
    ¬ (w'.env.Holds queueName msg.toByteArray ↔
      ∃ broker', RabbitmqUtil.sendMsg (Broker.api routing) (some connection) (some exchangeName)
        (some exchangeType) (some queueName) (some router) (some msg) broker = .ok () broker' ∧
        broker'.Holds queueName msg.toByteArray) := by
  intro h
  exact pooled_not_holds hexchange hqueue hsend
    (h.mpr (plain_holds hexchange hqueue htype connection (some router) msg))

theorem sendMsg_newBroker :
    ∃ w', RabbitmqHeadler.sendMsg (Broker.api directFanout) (some "hello") (some "direct")
      (some "abdc") (some "hello") (some "1") []
      ⟨MQConnectionPool.init 1 fun _ => true, newBroker⟩ = .ok () w' :=
  pooled_completes directFanout "direct" "hello" "1" [] (by decide) rfl rfl rfl rfl

/-- With a new pool the pooled sender completes and the effects differ. -/
theorem not_same_effect_newBroker :
    ∃ w', RabbitmqHeadler.sendMsg (Broker.api directFanout) (some "hello") (some "direct")
      (some "abdc") (some "hello") (some "1") []
      ⟨MQConnectionPool.init 1 fun _ => true, newBroker⟩ = .ok () w' ∧
      ¬ (w'.env.Holds "abdc" "1".toByteArray ↔
        ∃ broker', RabbitmqUtil.sendMsg (Broker.api directFanout) (some 0) (some "hello")
          (some "direct") (some "abdc") (some "hello") (some "1") newBroker = .ok () broker' ∧
          broker'.Holds "abdc" "1".toByteArray) := by
  obtain ⟨w', hsend⟩ := sendMsg_newBroker
  exact ⟨w', hsend, not_same_effect directFanout (by decide) rfl (.inl rfl) 0 hsend⟩

/-- On a new broker the message of the plain sender is in the queue and that of the
pooled sender is lost. -/
theorem lost_message_newBroker :
    ∃ w' broker', RabbitmqHeadler.sendMsg (Broker.api directFanout) (some "hello") (some "direct")
      (some "abdc") (some "hello") (some "1") []
      ⟨MQConnectionPool.init 1 fun _ => true, newBroker⟩ = .ok () w' ∧
      ¬ w'.env.Holds "abdc" "1".toByteArray ∧
      RabbitmqUtil.sendMsg (Broker.api directFanout) (some 0) (some "hello") (some "direct")
        (some "abdc") (some "hello") (some "1") newBroker = .ok () broker' ∧
      broker'.Holds "abdc" "1".toByteArray := by
  obtain ⟨w', hsend⟩ := sendMsg_newBroker
  have hplain : ∃ broker', RabbitmqUtil.sendMsg (Broker.api directFanout) (some 0) (some "hello")
      (some "direct") (some "abdc") (some "hello") (some "1") newBroker = .ok () broker' ∧
      broker'.Holds "abdc" "1".toByteArray :=
    plain_holds (by decide) rfl (.inl rfl) 0 (some "hello") "1"
  obtain ⟨broker', hplain, hholds⟩ := hplain
  exact ⟨w', broker', hsend, pooled_not_holds (by decide) rfl hsend, hplain, hholds⟩

end HelloBoot.Mq
