import HelloBoot.Util.Mq.Broker
import HelloBoot.Util.RabbitmqUtil

/-!
# `RabbitmqUtil.receive`

`receive` binds a queue, declares it once more, and installs a consumer on it, whose
`handleDelivery` hands a message to the service and then acknowledges it, or puts it back when
something threw. Whatever goes wrong while it is installed is caught and logged.

The broker is a parameter. If it can be reached and does for one client at a time what AMQP says
(`Serves`), `receive` installs a consumer on a queue that is declared as it declares it, and changes
nothing otherwise (`receive_returns`).
-/

namespace HelloBoot.RabbitmqUtil

open Mq

variable {β : Type}

structure ConsumerApi (β : Type) extends ChannelApi β where
  basicConsume : Channel → (queue : Option String) → (autoAck : Bool) → EStateM Throwable β Unit

/-- `receive` on a connection; the exception handler logs. -/
def receiveOn (api : ConsumerApi β) (connection : Option ℕ)
    (exchangeName queueName router : Option String) : EStateM Throwable β Unit :=
  Call.catchException (do
    let channel ← createChannel api.toChannelApi connection
    onChannel channel (api.queueBind · queueName exchangeName router)
    onChannel channel (api.queueDeclare · queueName true false false none)
    onChannel channel (api.basicConsume · queueName false)) fun _ => pure ()

def routerOrDefault (router : Option String) : Option String :=
  if isBlank router then some defaultRouter else router

def receive (api : ConsumerApi β) (connection : Option ℕ)
    (exchangeName queueName router : Option String) : EStateM Throwable β Unit :=
  receiveOn api connection exchangeName queueName (routerOrDefault router)

/-- `handleDelivery(consumerTag, envelope, properties, body)` of the consumer: `newString` is
`new String(body, "UTF-8")`. -/
def handleDelivery (newString : ByteArray → String)
    (consume : String → List (Option String) → EStateM Throwable β Unit)
    (basicAck : (deliveryTag : ℕ) → (multiple : Bool) → EStateM Throwable β Unit)
    (basicNack : (deliveryTag : ℕ) → (multiple requeue : Bool) → EStateM Throwable β Unit)
    (queueName router : Option String) (deliveryTag : ℕ) (body : ByteArray) :
    EStateM Throwable β Unit :=
  Call.catchException (do
    consume (newString body) [queueName, router]
    basicAck deliveryTag false) fun _ => basicNack deliveryTag false true

/-! ### Which calls install a consumer -/

/-- A text that can be sent as a routing key. -/
def IsShort (key : String) : Prop := key.utf8ByteSize ≤ 255

instance : DecidablePred IsShort := fun _ => inferInstanceAs (Decidable (_ ≤ _))

/-- The properties with which a queue was declared; `arguments` are those that a later declaration
has to agree with. -/
structure QueueProperties where
  durable : Bool
  exclusive : Bool
  autoDelete : Bool
  arguments : List (String × Option String)

structure Subscription where
  queue : String
  autoAck : Bool
  exclusive : Bool

structure Topology where
  exchanges : String → Option Exchange
  queues : String → Option QueueProperties
  consumers : List Subscription

namespace Topology

def subscribe (t : Topology) (c : Subscription) : Topology :=
  { t with consumers := t.consumers ++ [c] }

def Exists (t : Topology) (exchange queue : String) : Prop :=
  (t.exchanges exchange).isSome = true ∧ (t.queues queue).isSome = true

/-- The queue is there, as `receive` declares it. -/
def HasPlain (t : Topology) (queue : String) : Prop :=
  t.queues queue = some ⟨true, false, false, []⟩

def IsFree (t : Topology) (queue : String) : Prop :=
  ∀ c ∈ t.consumers, c.queue = queue → c.exclusive = false

def Receivable (t : Topology) (connection : Option ℕ)
    (exchangeName queueName router : Option String) : Prop :=
  connection.isSome = true ∧ (∃ key ∈ router, IsShort key) ∧
    ∃ exchange ∈ exchangeName, exchange ≠ "" ∧ (t.exchanges exchange).isSome = true ∧
      ∃ queue ∈ queueName, t.HasPlain queue ∧ t.IsFree queue

end Topology

/-- A method that is due for some arguments and possible for some others: it returns and makes `t`
of what is declared, or it throws an exception and changes nothing. -/
def Answers (topology : β → Topology) (x : EStateM Throwable β Unit) (due possible : Prop)
    (t : Topology) (s : β) : Prop :=
  match x s with
  | .ok _ s' => possible ∧ topology s' = t
  | .error e s' => ¬due ∧ e.isException = true ∧ topology s' = topology s

/-- A broker that can be reached, has a channel left, and lets no other client in between. Queues
are bound to every exchange but the nameless one; whether a queue can be bound that is not plain,
but say exclusive to a connection, stays open. -/
structure Serves (api : ConsumerApi β) (topology : β → Topology) : Prop where
  createChannel : ∀ connection s, ∃ channel s',
    api.createChannel connection s = .ok (some channel) s' ∧ topology s' = topology s
  queueBind : ∀ channel queue exchange routingKey s,
    Answers topology (api.queueBind channel queue exchange routingKey)
      (∃ q ∈ queue, ∃ e ∈ exchange, (∃ key ∈ routingKey, IsShort key) ∧ e ≠ "" ∧
        (topology s).Exists e q ∧ (topology s).HasPlain q)
      (∃ q ∈ queue, ∃ e ∈ exchange, (∃ key ∈ routingKey, IsShort key) ∧ e ≠ "" ∧
        (topology s).Exists e q) (topology s) s
  queueDeclare : ∀ channel queue s, ((topology s).queues queue).isSome = true →
    Answers topology (api.queueDeclare channel (some queue) true false false none)
      ((topology s).HasPlain queue) ((topology s).HasPlain queue) (topology s) s
  basicConsume : ∀ channel queue s, (topology s).HasPlain queue →
    Answers topology (api.basicConsume channel (some queue) false)
      ((topology s).IsFree queue) ((topology s).IsFree queue)
      ((topology s).subscribe ⟨queue, false, false⟩) s

section Receives

variable {api : ConsumerApi β} {topology : β → Topology} {s : β} {connection : Option ℕ}
  {exchangeName queueName router : Option String}

/-- A consumer is installed if and only if this is possible, and nothing else changes. -/
def Receives (topology : β → Topology) (s s' : β) (connection : Option ℕ)
    (exchangeName queueName router : Option String) : Prop :=
  ((topology s).Receivable connection exchangeName queueName router →
    ∃ queue ∈ queueName, topology s' = (topology s).subscribe ⟨queue, false, false⟩) ∧
  (¬(topology s).Receivable connection exchangeName queueName router → topology s' = topology s)

/-- What goes wrong is caught. -/
theorem exists_of_error {x : EStateM Throwable β Unit} {t : Throwable} {s' : β}
    (h : x s = .error t s') (ht : t.isException = true) (htopology : topology s' = topology s)
    (hnot : ¬(topology s).Receivable connection exchangeName queueName router) :
    ∃ s', Call.catchException x (fun _ => pure ()) s = .ok () s' ∧
      Receives topology s s' connection exchangeName queueName router := by
  refine ⟨s', ?_, fun hreceivable => absurd hreceivable hnot, fun _ => htopology⟩
  rw [Call.catchException_of_error h, if_pos ht]
  rfl

theorem exists_of_ok {x : EStateM Throwable β Unit} {s' : β} {queue : String} (h : x s = .ok () s')
    (htopology : topology s' = (topology s).subscribe ⟨queue, false, false⟩)
    (hreceivable : (topology s).Receivable connection exchangeName (some queue) router) :
    ∃ s', Call.catchException x (fun _ => pure ()) s = .ok () s' ∧
      Receives topology s s' connection exchangeName (some queue) router := by
  refine ⟨s', ?_, fun _ => ⟨queue, rfl, htopology⟩, fun hnot => absurd hreceivable hnot⟩
  rw [Call.catchException, h]

theorem receiveOn_returns (laws : Serves api topology) (s : β) (connection : Option ℕ)
    (exchangeName queueName router : Option String) :
    ∃ s', receiveOn api connection exchangeName queueName router s = .ok () s' ∧
      Receives topology s s' connection exchangeName queueName router := by
  rw [receiveOn]
  cases connection with
  | none => exact exists_of_error rfl rfl rfl fun h => Bool.noConfusion h.1
  | some connection =>
      obtain ⟨channel, s₁, hchannel, ht₁⟩ := laws.createChannel connection s
      have hcreated : createChannel api.toChannelApi (some connection) s =
        .ok (some channel) s₁ := hchannel
      have hbind := laws.queueBind channel queueName exchangeName router s₁
      rw [Answers, ht₁] at hbind
      cases h₁ : api.queueBind channel queueName exchangeName router s₁ with
      | error t s₂ =>
          rw [h₁] at hbind
          obtain ⟨hdue, hexception, ht₂⟩ := hbind
          refine exists_of_error ((Call.bind_of_ok hcreated).trans (Call.bind_of_error h₁))
            hexception ht₂ ?_
          rintro ⟨-, hkey, e, he, hne, hexchange, q, hq, hplain, -⟩
          refine hdue ⟨q, hq, e, he, hkey, hne, ⟨hexchange, ?_⟩, hplain⟩
          rw [hplain]
          rfl
      | ok _ s₂ =>
          rw [h₁] at hbind
          obtain ⟨⟨queue, hqueue, exchange, hexchange, hkey, hne, hexists⟩, ht₂⟩ := hbind
          obtain rfl : queueName = some queue := hqueue
          obtain rfl : exchangeName = some exchange := hexchange
          have hdeclare := laws.queueDeclare channel queue s₂ (ht₂ ▸ hexists.2)
          rw [Answers, ht₂] at hdeclare
          cases h₂ : api.queueDeclare channel (some queue) true false false none s₂ with
          | error t s₃ =>
              rw [h₂] at hdeclare
              obtain ⟨hplain, hexception, ht₃⟩ := hdeclare
              refine exists_of_error ((Call.bind_of_ok hcreated).trans
                ((Call.bind_of_ok h₁).trans (Call.bind_of_error h₂))) hexception ht₃ ?_
              rintro ⟨-, -, -, -, -, -, q, hq, hq', -⟩
              cases hq
              exact hplain hq'
          | ok _ s₃ =>
              rw [h₂] at hdeclare
              obtain ⟨hplain, ht₃⟩ := hdeclare
              have hconsume := laws.basicConsume channel queue s₃ (ht₃ ▸ hplain)
              rw [Answers, ht₃] at hconsume
              cases h₃ : api.basicConsume channel (some queue) false s₃ with
              | error t s₄ =>
                  rw [h₃] at hconsume
                  obtain ⟨hfree, hexception, ht₄⟩ := hconsume
                  refine exists_of_error ((Call.bind_of_ok hcreated).trans
                    ((Call.bind_of_ok h₁).trans ((Call.bind_of_ok h₂).trans h₃))) hexception ht₄ ?_
                  rintro ⟨-, -, -, -, -, -, q, hq, -, hq'⟩
                  cases hq
                  exact hfree hq'
              | ok _ s₄ =>
                  rw [h₃] at hconsume
                  obtain ⟨hfree, ht₄⟩ := hconsume
                  exact exists_of_ok ((Call.bind_of_ok hcreated).trans
                    ((Call.bind_of_ok h₁).trans ((Call.bind_of_ok h₂).trans h₃))) ht₄
                    ⟨rfl, hkey, exchange, rfl, hne, hexists.1, queue, rfl, hplain, hfree⟩

/-- `receive` returns for every connection and all arguments, and neither makes nor changes a queue
or an exchange. It installs a consumer if and only if there is a connection, the routing key is not
too long, the exchange exists and is not the nameless one, and the queue exists, durable and without
arguments, and no consumer has it for itself; so not on a queue with a dead letter exchange. -/
theorem receive_returns (laws : Serves api topology) (s : β) (connection : Option ℕ)
    (exchangeName queueName router : Option String) :
    ∃ s', receive api connection exchangeName queueName router s = .ok () s' ∧
      Receives topology s s' connection exchangeName queueName (routerOrDefault router) :=
  receiveOn_returns laws s connection exchangeName queueName (routerOrDefault router)

end Receives

structure Serving where
  broker : Broker
  consumers : List Subscription

namespace Serving

def onBroker {α : Type} (x : EStateM Throwable Broker α) : EStateM Throwable Serving α := fun s =>
  match x s.broker with
  | .ok a b => .ok a { s with broker := b }
  | .error t b => .error t { s with broker := b }

def queueBind (queue exchange routingKey : Option String) : EStateM Throwable Serving Unit :=
  if ∀ key ∈ routingKey, IsShort key then onBroker (Broker.queueBind queue exchange routingKey)
  else throw (.illegalArgument "Short string too long")

def basicConsume (queue : Option String) (autoAck : Bool) : EStateM Throwable Serving Unit :=
  fun s =>
    match queue with
    | none => .error .unchecked s
    | some queue =>
        if (s.broker.queues queue).isSome ∧
            s.consumers.all (fun c => !(c.queue = queue && c.exclusive)) then
          .ok () { s with consumers := s.consumers ++ [⟨queue, autoAck, false⟩] }
        else .error .ioException s

def api (routing : Routing) : ConsumerApi Serving where
  createChannel c := onBroker ((Broker.api routing).createChannel c)
  exchangeDeclare channel exchange type durable :=
    onBroker ((Broker.api routing).exchangeDeclare channel exchange type durable)
  queueDeclare channel queue durable exclusive autoDelete arguments :=
    onBroker ((Broker.api routing).queueDeclare channel queue durable exclusive autoDelete arguments)
  queueBind _ queue exchange routingKey := queueBind queue exchange routingKey
  confirmSelect channel := onBroker ((Broker.api routing).confirmSelect channel)
  addConfirmListener channel := onBroker ((Broker.api routing).addConfirmListener channel)
  basicPublish channel exchange routingKey props body :=
    onBroker ((Broker.api routing).basicPublish channel exchange routingKey props body)
  close channel := onBroker ((Broker.api routing).close channel)
  basicConsume _ queue autoAck := basicConsume queue autoAck
  connection_createChannel c s channel s' h := by
    cases h
    rfl

def topology (s : Serving) : Topology where
  exchanges := s.broker.exchanges
  queues name := (s.broker.queues name).map fun queue =>
    ⟨queue.durable, queue.exclusive, queue.autoDelete, queue.arguments⟩
  consumers := s.consumers

theorem queues_topology {s : Serving} {queue : String} {q : Queue}
    (h : s.broker.queues queue = some q) :
    s.topology.queues queue = some ⟨q.durable, q.exclusive, q.autoDelete, q.arguments⟩ := by
  simp [topology, h]

theorem isSome_topology (s : Serving) (queue : String) :
    (s.topology.queues queue).isSome = (s.broker.queues queue).isSome := Option.isSome_map

theorem hasPlain_iff {s : Serving} {queue : String} {q : Queue}
    (h : s.broker.queues queue = some q) : s.topology.HasPlain queue ↔
      q.durable = true ∧ q.exclusive = false ∧ q.autoDelete = false ∧ q.arguments = [] := by
  rw [Topology.HasPlain, queues_topology h, Option.some_inj, QueueProperties.mk.injEq]

theorem answers_queueBind (routing : Routing) (channel : Channel)
    (queue exchange routingKey : Option String) (s : Serving) :
    Answers topology ((api routing).queueBind channel queue exchange routingKey)
      (∃ q ∈ queue, ∃ e ∈ exchange, (∃ key ∈ routingKey, IsShort key) ∧ e ≠ "" ∧
        s.topology.Exists e q ∧ s.topology.HasPlain q)
      (∃ q ∈ queue, ∃ e ∈ exchange, (∃ key ∈ routingKey, IsShort key) ∧ e ≠ "" ∧
        s.topology.Exists e q) s.topology s := by
  have hapi : (api routing).queueBind channel queue exchange routingKey s =
      queueBind queue exchange routingKey s := rfl
  rw [Answers, hapi, queueBind]
  by_cases hshort : ∀ key ∈ routingKey, IsShort key
  · rw [if_pos hshort, onBroker]
    match queue, exchange, routingKey with
    | none, _, _ => exact ⟨by simp, rfl, rfl⟩
    | some queue, none, _ => exact ⟨by simp, rfl, rfl⟩
    | some queue, some exchange, none => exact ⟨by simp, rfl, rfl⟩
    | some queue, some exchange, some key =>
        by_cases h : exchange ≠ "" ∧ s.topology.Exists exchange queue
        · have hqueue := h.2.2
          rw [isSome_topology] at hqueue
          rw [Broker.queueBind_of_present h.1 hqueue h.2.1]
          exact ⟨⟨queue, rfl, exchange, rfl, ⟨key, rfl, hshort key rfl⟩, h.1, h.2⟩, rfl⟩
        · rw [Broker.queueBind_of_absent fun hne hqueue hexchange =>
            h ⟨hne, hexchange, (isSome_topology s queue).trans hqueue⟩]
          refine ⟨?_, rfl, rfl⟩
          rintro ⟨q, hq, e, he, -, hne, hexists, -⟩
          cases hq
          cases he
          exact h ⟨hne, hexists⟩
  · rw [if_neg hshort]
    refine ⟨?_, rfl, rfl⟩
    rintro ⟨-, -, -, -, ⟨key, hkey, hkeyShort⟩, -⟩
    exact hshort fun key' hkey' => Option.mem_unique hkey hkey' ▸ hkeyShort

theorem answers_queueDeclare (routing : Routing) (channel : Channel) {queue : String} {s : Serving}
    (h : (s.topology.queues queue).isSome = true) :
    Answers topology ((api routing).queueDeclare channel (some queue) true false false none)
      (s.topology.HasPlain queue) (s.topology.HasPlain queue) s.topology s := by
  rw [isSome_topology] at h
  obtain ⟨q, hq⟩ := Option.isSome_iff_exists.mp h
  have hplain := hasPlain_iff hq
  have hapi : (api routing).queueDeclare channel (some queue) true false false none s =
      onBroker (Broker.queueDeclare (some queue) true false false none) s := rfl
  rw [Answers, hapi, onBroker]
  simp only [Broker.queueDeclare, hq, Option.getD_none]
  by_cases hp : s.topology.HasPlain queue
  · rw [if_pos (hplain.mp hp)]
    exact ⟨hp, rfl⟩
  · rw [if_neg fun hq' => hp (hplain.mpr hq')]
    exact ⟨hp, rfl, rfl⟩

theorem answers_basicConsume (routing : Routing) (channel : Channel) {queue : String} {s : Serving}
    (h : s.topology.HasPlain queue) :
    Answers topology ((api routing).basicConsume channel (some queue) false)
      (s.topology.IsFree queue) (s.topology.IsFree queue)
      (s.topology.subscribe ⟨queue, false, false⟩) s := by
  have hsome : (s.broker.queues queue).isSome = true := by
    rw [← isSome_topology, h]
    rfl
  have hfree : s.topology.IsFree queue ↔
      s.consumers.all (fun c => !(c.queue = queue && c.exclusive)) = true := by
    simp [Topology.IsFree, topology, imp_iff_not_or]
  have hapi : (api routing).basicConsume channel (some queue) false s =
      basicConsume (some queue) false s := rfl
  rw [Answers, hapi]
  simp only [basicConsume]
  by_cases hf : s.topology.IsFree queue
  · rw [if_pos ⟨hsome, hfree.mp hf⟩]
    exact ⟨hf, rfl⟩
  · rw [if_neg fun hf' => hf (hfree.mpr hf'.2)]
    exact ⟨hf, rfl, rfl⟩

theorem serves_api (routing : Routing) : Serves (api routing) topology where
  createChannel connection s := ⟨⟨connection, 0⟩, s, rfl, rfl⟩
  queueBind channel queue exchange routingKey s :=
    answers_queueBind routing channel queue exchange routingKey s
  queueDeclare channel _ _ := answers_queueDeclare routing channel
  basicConsume channel _ _ := answers_basicConsume routing channel

def hello2 : Serving where
  broker := (newBroker.addExchange "hello2" ⟨"direct", true⟩).addQueue "hello2"
    ⟨true, false, false, [], []⟩
  consumers := []

theorem receive_returns_hello2 :
    ∃ s', receive (api directFanout) (some 0) (some "hello2") (some "hello2") (some "hello2") hello2 =
        .ok () s' ∧ s'.topology = hello2.topology.subscribe ⟨"hello2", false, false⟩ := by
  obtain ⟨s', hreturns, hinstalls, -⟩ := receive_returns (serves_api directFanout) hello2 (some 0)
    (some "hello2") (some "hello2") (some "hello2")
  have hreceivable : hello2.topology.Receivable (some 0) (some "hello2") (some "hello2")
      (routerOrDefault (some "hello2")) :=
    ⟨rfl, ⟨"hello2", rfl, by decide⟩, "hello2", rfl, by decide, rfl, "hello2", rfl, rfl,
      fun c hc => by cases hc⟩
  obtain ⟨queue, hqueue, htopology⟩ := hinstalls hreceivable
  cases hqueue
  exact ⟨s', hreturns, htopology⟩

end Serving

end HelloBoot.RabbitmqUtil
