import HelloBoot.Java.Call
import Mathlib.Data.Nat.Notation

/-!
# The client library

`ChannelApi β` is what the senders call of the client library: opening a channel on a
connection, and the methods of `Channel`, on an environment with the state `β` (the
broker and the network) that decides what returns and what throws.
-/

namespace HelloBoot.Mq

/-- A `Channel` object, with the connection it was created on. -/
structure Channel where
  connection : ℕ
  id : ℕ
  deriving DecidableEq

structure BasicProperties where
  contentType : Option String
  contentEncoding : Option String
  deliveryMode : Option ℕ
  priority : Option ℕ
  expiration : Option String
  deriving DecidableEq

/-- The client library on an environment `β`. A created channel may be null, and is one
of its connection otherwise. -/
structure ChannelApi (β : Type) where
  createChannel : ℕ → EStateM Throwable β (Option Channel)
  exchangeDeclare : Channel → (exchange type : Option String) → (durable : Bool) →
    EStateM Throwable β Unit
  queueDeclare : Channel → (queue : Option String) → (durable exclusive autoDelete : Bool) →
    (arguments : Option (List (String × Option String))) → EStateM Throwable β Unit
  queueBind : Channel → (queue exchange routingKey : Option String) →
    EStateM Throwable β Unit
  confirmSelect : Channel → EStateM Throwable β Unit
  addConfirmListener : Channel → EStateM Throwable β Unit
  basicPublish : Channel → (exchange routingKey : Option String) →
    (props : Option BasicProperties) → (body : ByteArray) → EStateM Throwable β Unit
  close : Channel → EStateM Throwable β Unit
  connection_createChannel : ∀ c s channel s',
    createChannel c s = .ok (some channel) s' → channel.connection = c

/-- A method call on a channel, which may be null. -/
def onChannel {β : Type} (channel : Option Channel) (f : Channel → EStateM Throwable β Unit) :
    EStateM Throwable β Unit :=
  match channel with
  | none => throw .nullPointer
  | some channel => f channel

@[simp] theorem onChannel_some {β : Type} (channel : Channel)
    (f : Channel → EStateM Throwable β Unit) : onChannel (some channel) f = f channel := rfl

def getBytes {β : Type} (msg : Option String) : EStateM Throwable β ByteArray :=
  match msg with
  | none => throw .nullPointer
  | some msg => return msg.toByteArray

/-- An environment in which nothing fails, whichever channel a method is called on. -/
def reliable : ChannelApi Unit where
  createChannel c := pure (some ⟨c, 0⟩)
  exchangeDeclare _ _ _ _ := pure ()
  queueDeclare _ _ _ _ _ _ := pure ()
  queueBind _ _ _ _ := pure ()
  confirmSelect _ := pure ()
  addConfirmListener _ := pure ()
  basicPublish _ _ _ _ _ := pure ()
  close _ := pure ()
  connection_createChannel c s channel s' h := by
    cases h
    rfl

end HelloBoot.Mq
