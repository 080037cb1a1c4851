import HelloBoot.Util.Mq.ChannelApi
import Mathlib.Logic.Function.Basic

/-!
# A broker

Exchanges, queues and bindings as AMQP has them. A declaration creates what is absent
and refuses what exists with other properties; a publication copies the message to the
queues that are bound to the exchange with a matching key, and drops it when there are
none. The nameless exchange, which always exists, hands a message to the queue that the
key names, and nothing can be bound to it. Bindings only join what exists.
-/

namespace HelloBoot.Mq

structure Exchange where
  type : String
  durable : Bool
  deriving DecidableEq

structure Queue where
  durable : Bool
  exclusive : Bool
  autoDelete : Bool
  arguments : List (String × Option String)
  messages : List ByteArray

structure Binding where
  queue : String
  exchange : String
  routingKey : String
  deriving DecidableEq

structure Broker where
  exchanges : String → Option Exchange
  queues : String → Option Queue
  bindings : List Binding
  nameless : (exchanges "").isSome = true
  bound : ∀ b ∈ bindings, (queues b.queue).isSome = true ∧ (exchanges b.exchange).isSome = true

/-- Which keys of bindings match a routing key, for each type of exchange. -/
structure Routing where
  matching : (type bindingKey routingKey : String) → Bool
  direct : ∀ bindingKey routingKey, matching "direct" bindingKey routingKey = true ↔
    bindingKey = routingKey
  fanout : ∀ bindingKey routingKey, matching "fanout" bindingKey routingKey = true

namespace Broker

theorem isSome_update {γ : Type} {f : String → Option γ} {name name' : String} (value : γ)
    (h : (f name').isSome = true) :
    (Function.update f name (some value) name').isSome = true := by
  rcases eq_or_ne name' name with rfl | hne
  · simp
  · simpa [hne] using h

def addExchange (b : Broker) (name : String) (exchange : Exchange) : Broker where
  exchanges := Function.update b.exchanges name (some exchange)
  queues := b.queues
  bindings := b.bindings
  nameless := isSome_update exchange b.nameless
  bound binding h := ⟨(b.bound binding h).1, isSome_update exchange (b.bound binding h).2⟩

def addQueue (b : Broker) (name : String) (queue : Queue) : Broker where
  exchanges := b.exchanges
  queues := Function.update b.queues name (some queue)
  bindings := b.bindings
  nameless := b.nameless
  bound binding h := ⟨isSome_update queue (b.bound binding h).1, (b.bound binding h).2⟩

def addBinding (b : Broker) (binding : Binding)
    (hqueue : (b.queues binding.queue).isSome = true)
    (hexchange : (b.exchanges binding.exchange).isSome = true) : Broker where
  exchanges := b.exchanges
  queues := b.queues
  bindings := binding :: b.bindings
  nameless := b.nameless
  bound binding' h := by
    rcases List.mem_cons.mp h with rfl | h
    · exact ⟨hqueue, hexchange⟩
    · exact b.bound binding' h

/-- A message put on `exchange` with the key `routingKey` reaches `queue`. -/
def reaches (routing : Routing) (b : Broker) (exchange routingKey queue : String) : Bool :=
  if exchange = "" then queue = routingKey
  else
    match b.exchanges exchange with
    | none => false
    | some e => b.bindings.any fun binding =>
        binding.queue = queue ∧ binding.exchange = exchange ∧
          routing.matching e.type binding.routingKey routingKey

def deliver (routing : Routing) (b : Broker) (exchange routingKey : String)
    (body : ByteArray) : Broker where
  exchanges := b.exchanges
  queues name := (b.queues name).map fun queue =>
    if b.reaches routing exchange routingKey name then
      { queue with messages := queue.messages ++ [body] }
    else queue
  bindings := b.bindings
  nameless := b.nameless
  bound binding h := by simpa using b.bound binding h

def exchangeDeclare (name type : Option String) (durable : Bool) : EStateM Throwable Broker Unit :=
  fun b =>
    match name, type with
    | some name, some type =>
        if name = "" then .error .ioException b
        else
          match b.exchanges name with
          | none => .ok () (b.addExchange name ⟨type, durable⟩)
          | some exchange =>
              if exchange = ⟨type, durable⟩ then .ok () b else .error .ioException b
    | _, _ => .error .unchecked b

def queueDeclare (name : Option String) (durable exclusive autoDelete : Bool)
    (arguments : Option (List (String × Option String))) : EStateM Throwable Broker Unit :=
  fun b =>
    match name with
    | none => .error .unchecked b
    | some name =>
        match b.queues name with
        | none =>
            .ok () (b.addQueue name ⟨durable, exclusive, autoDelete, arguments.getD [], []⟩)
        | some queue =>
            if queue.durable = durable ∧ queue.exclusive = exclusive ∧
                queue.autoDelete = autoDelete ∧ queue.arguments = arguments.getD [] then .ok () b
            else .error .ioException b

def queueBind (queue exchange routingKey : Option String) : EStateM Throwable Broker Unit :=
  fun b =>
    match queue, exchange, routingKey with
    | some queue, some exchange, some routingKey =>
        if exchange = "" then .error .ioException b
        else
          if h : (b.queues queue).isSome = true ∧ (b.exchanges exchange).isSome = true then
            .ok () (b.addBinding ⟨queue, exchange, routingKey⟩ h.1 h.2)
          else .error .ioException b
    | _, _, _ => .error .unchecked b

def basicPublish (routing : Routing) (exchange routingKey : Option String) (body : ByteArray) :
    EStateM Throwable Broker Unit :=
  fun b =>
    match exchange, routingKey with
    | some exchange, some routingKey => .ok () (b.deliver routing exchange routingKey body)
    | _, _ => .error .unchecked b

/-- The client library on a broker that can be reached, and that serves all channels alike. -/
def api (routing : Routing) : ChannelApi Broker where
  createChannel c := pure (some ⟨c, 0⟩)
  exchangeDeclare _ exchange type durable := exchangeDeclare exchange type durable
  queueDeclare _ queue durable exclusive autoDelete arguments :=
    queueDeclare queue durable exclusive autoDelete arguments
  queueBind _ queue exchange routingKey := queueBind queue exchange routingKey
  confirmSelect _ := pure ()
  addConfirmListener _ := pure ()
  basicPublish _ exchange routingKey _ body := basicPublish routing exchange routingKey body
  close _ := pure ()
  connection_createChannel c s channel s' h := by
    cases h
    rfl

def Holds (b : Broker) (queueName : String) (body : ByteArray) : Prop :=
  ∃ queue, b.queues queueName = some queue ∧ body ∈ queue.messages

variable {routing : Routing} {b : Broker} {name type : String}

theorem ne_nameless (h : b.exchanges name = none) : name ≠ "" := by
  rintro rfl
  simpa [h] using b.nameless

theorem exchangeDeclare_of_absent (h : b.exchanges name = none) (durable : Bool) :
    exchangeDeclare (some name) (some type) durable b =
      .ok () (b.addExchange name ⟨type, durable⟩) := by
  simp [exchangeDeclare, ne_nameless h, h]

theorem queueDeclare_of_absent (h : b.queues name = none) (durable exclusive autoDelete : Bool)
    (arguments : Option (List (String × Option String))) :
    queueDeclare (some name) durable exclusive autoDelete arguments b =
      .ok () (b.addQueue name ⟨durable, exclusive, autoDelete, arguments.getD [], []⟩) := by
  simp [queueDeclare, h]

theorem queueBind_of_present {queue exchange routingKey : String} (hne : exchange ≠ "")
    (hqueue : (b.queues queue).isSome = true) (hexchange : (b.exchanges exchange).isSome = true) :
    queueBind (some queue) (some exchange) (some routingKey) b =
      .ok () (b.addBinding ⟨queue, exchange, routingKey⟩ hqueue hexchange) := by
  simp [queueBind, hne, hqueue, hexchange]

theorem queueBind_of_absent {queue exchange routingKey : String}
    (h : exchange ≠ "" → (b.queues queue).isSome = true →
      (b.exchanges exchange).isSome = true → False) :
    queueBind (some queue) (some exchange) (some routingKey) b = .error .ioException b := by
  rw [queueBind]
  split
  · rfl
  · rename_i hne
    exact dif_neg fun hboth => h hne hboth.1 hboth.2

theorem reaches_of_unbound {exchange routingKey queue : String} (hexchange : exchange ≠ "")
    (hunbound : ∀ binding ∈ b.bindings, binding.queue ≠ queue) :
    b.reaches routing exchange routingKey queue = false := by
  rw [reaches, if_neg hexchange]
  cases b.exchanges exchange with
  | none => rfl
  | some e =>
      refine List.any_eq_false.mpr fun binding hbinding => ?_
      simp [hunbound binding hbinding]

theorem reaches_of_bound {exchange routingKey queue : String} {e : Exchange}
    (hexchange : exchange ≠ "") (he : b.exchanges exchange = some e)
    (hbound : ⟨queue, exchange, routingKey⟩ ∈ b.bindings)
    (htype : e.type = "direct" ∨ e.type = "fanout") :
    b.reaches routing exchange routingKey queue = true := by
  rw [reaches, if_neg hexchange, he]
  refine List.any_eq_true.mpr ⟨_, hbound, ?_⟩
  have hmatching : routing.matching e.type routingKey routingKey = true := by
    rcases htype with htype | htype <;> rw [htype]
    · exact (routing.direct _ _).mpr rfl
    · exact routing.fanout _ _
  simp [hmatching]

/-- Whether a delivered message is in a queue that was empty depends on whether it
reaches it. -/
theorem holds_deliver_iff {exchange routingKey queueName : String} {body : ByteArray}
    {queue : Queue} (hqueue : b.queues queueName = some queue) (hempty : queue.messages = []) :
    (b.deliver routing exchange routingKey body).Holds queueName body ↔
      b.reaches routing exchange routingKey queueName = true := by
  cases hreaches : b.reaches routing exchange routingKey queueName <;>
    simp [Holds, deliver, hqueue, hreaches, hempty]

end Broker

def directFanout : Routing where
  matching type bindingKey routingKey := type = "direct" ∧ bindingKey = routingKey ∨ type = "fanout"
  direct := by simp
  fanout := by simp

def newBroker : Broker where
  exchanges name := if name = "" then some ⟨"direct", true⟩ else none
  queues _ := none
  bindings := []
  nameless := rfl
  bound _ h := by cases h

end HelloBoot.Mq
