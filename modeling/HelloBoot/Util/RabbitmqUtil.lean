import HelloBoot.Util.Mq.ChannelApi

/-!
# `RabbitmqUtil`

The plain sender: every call opens a channel on the shared connection, declares the
exchange and the queue, binds the queue, publishes, and closes the channel.
-/

namespace HelloBoot.RabbitmqUtil

open Mq

variable {β : Type}

def defaultRouter : String := "info"

def defaultExchangeType : String := "direct"

/-- `null == s || "".equals(s.trim())`; `trim` takes off what is not above the space. -/
def isBlank : Option String → Bool
  | none => true
  | some s => s.toList.all (· ≤ ' ')

def persistentTextPlain : BasicProperties := ⟨some "text/plain", none, some 2, some 0, none⟩

def properties (exp : Option String) : BasicProperties :=
  if isBlank exp then persistentTextPlain else ⟨none, some "UTF-8", some 2, none, exp⟩

def queueArguments (dlxExchangeName dlxRoutingkey : Option String) :
    List (String × Option String) :=
  if dlxExchangeName.isSome then
    [("x-dead-letter-exchange", dlxExchangeName), ("x-dead-letter-routing-key", dlxRoutingkey)]
  else []

def createChannel (api : ChannelApi β) (connection : Option ℕ) :
    EStateM Throwable β (Option Channel) :=
  match connection with
  | none => throw .nullPointer
  | some connection => api.createChannel connection

/-- `sendMsg` on a connection, with the expiration and the dead letter exchange. -/
def sendMsgOn (api : ChannelApi β) (connection : Option ℕ)
    (exchangeName exchangeType queueName router msg exp dlxExchangeName dlxRoutingkey :
      Option String) : EStateM Throwable β Unit :=
  let router := if isBlank router then some defaultRouter else router
  let exchangeType := if isBlank exchangeType then some defaultExchangeType else exchangeType
  let params := queueArguments dlxExchangeName dlxRoutingkey
  Call.wrapException do
    let channel ← createChannel api connection
    onChannel channel (api.exchangeDeclare · exchangeName exchangeType true)
    onChannel channel (api.queueDeclare · queueName true false false (some params))
    onChannel channel (api.queueBind · queueName exchangeName router)
    onChannel channel api.confirmSelect
    onChannel channel api.addConfirmListener
    let body ← getBytes msg
    onChannel channel
      (api.basicPublish · exchangeName router (some (properties exp)) body)
    onChannel channel api.close

def sendMsg (api : ChannelApi β) (connection : Option ℕ)
    (exchangeName exchangeType queueName router msg : Option String) :
    EStateM Throwable β Unit :=
  sendMsgOn api connection exchangeName exchangeType queueName router msg none none none

end HelloBoot.RabbitmqUtil
