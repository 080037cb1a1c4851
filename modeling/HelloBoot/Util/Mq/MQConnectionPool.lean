import HelloBoot.Util.Mq.ChannelApi
import Mathlib.Data.Int.Notation
import Mathlib.Logic.Function.Basic

/-!
# `MQConnectionPool`

The pool keeps its opened connections in one queue and its idle channel streams in
another. A `ChannelStream` is an object that callers hold on to, so the queue holds
references and the pool keeps the objects under them; the reference of a new object is
`created`, the number of objects made so far. `lastUseTime`, which nothing reads, is
left out.

All methods are synchronized on the pool. `Thread.sleep` in `getConnectionStream` keeps
the monitor, so while a call sleeps nothing else happens to the pool; how the sleeps of
a call end is an argument, and a call for which no further end is given sleeps on.
-/

namespace HelloBoot.Mq

/-- `ConnectionStream`; a connection that could not be opened is null. -/
structure ConnectionStream where
  connection : Option ℕ
  free : Bool
  useQuantity : ℤ
  deriving DecidableEq

structure ChannelStream where
  channel : Option Channel
  free : Bool
  useQuantity : ℤ
  deriving DecidableEq

structure MQConnectionPool where
  connectionStreams : List ConnectionStream
  channelStreams : List ℕ
  streams : ℕ → ChannelStream
  created : ℕ

/-- The pool, and the environment of the client library. -/
structure World (β : Type) where
  pool : MQConnectionPool
  env : β

/-- How a `Thread.sleep` ends. -/
inductive Sleep where
  | elapsed
  | interrupted
  deriving DecidableEq

namespace MQConnectionPool

variable {β : Type}

/-- `init()`: `createConnection` gives the `i`-th connection, or null. -/
def init (minConn : ℤ) (connected : ℕ → Bool) : MQConnectionPool :=
  let minConn := if minConn > 0 then minConn else 1
  { connectionStreams := (List.range minConn.toNat).map fun i =>
      { connection := if connected i then some i else none, free := true, useQuantity := 0 }
    channelStreams := []
    streams := fun _ => ⟨none, false, 0⟩
    created := 0 }

def setStream (pool : MQConnectionPool) (stream : ℕ) (value : ChannelStream) :
    MQConnectionPool :=
  { pool with streams := Function.update pool.streams stream value }

def pollConnectionStreams : Call (World β) (Option ConnectionStream) := fun w =>
  match w.pool.connectionStreams with
  | [] => .ok none w
  | poll :: rest => .ok (some poll) { w with pool := { w.pool with connectionStreams := rest } }

def pollChannelStreams : Call (World β) (Option ℕ) := fun w =>
  match w.pool.channelStreams with
  | [] => .ok none w
  | stream :: rest =>
      .ok (some stream) { w with pool := { w.pool with channelStreams := rest } }

def getConnectionStream (sleeps : List Sleep) : Call (World β) ConnectionStream := do
  match ← pollConnectionStreams with
  | some poll => return { poll with useQuantity := poll.useQuantity + 1, free := false }
  | none =>
      match sleeps with
      | [] => throw .asleep
      | .elapsed :: sleeps => getConnectionStream sleeps
      -- the exception is printed, and the method goes on with the null it polled
      | .interrupted :: _ => throw (.threw .nullPointer)

def createChannel (api : ChannelApi β) (connection : Option ℕ) :
    Call (World β) (Option Channel) :=
  match connection with
  | none => throw (.threw (.runtime .nullPointer))
  | some connection =>
      Call.onPart World.env (fun env w => { w with env := env }) Call.wrap
        (api.createChannel connection)

/-- `new ChannelStream()` with its channel set. -/
def newStream (channel : Option Channel) : Call (World β) ℕ := fun w =>
  let pool := w.pool.setStream w.pool.created ⟨channel, false, 0⟩
  .ok w.pool.created { w with pool := { pool with created := pool.created + 1 } }

def useStream (stream : ℕ) : Call (World β) ℕ := fun w =>
  let value := w.pool.streams stream
  let pool := w.pool.setStream stream
    { value with useQuantity := value.useQuantity + 1, free := false }
  .ok stream { w with pool := pool }

/-- `getChannelStream()` where no channel stream is idle. -/
def createChannelStream (api : ChannelApi β) (sleeps : List Sleep) : Call (World β) ℕ := do
  let connectionStream ← getConnectionStream sleeps
  let channel ← createChannel api connectionStream.connection
  let stream ← newStream channel
  useStream stream

def getChannelStream (api : ChannelApi β) (sleeps : List Sleep) : Call (World β) ℕ := do
  match ← pollChannelStreams with
  | some stream => useStream stream
  | none => createChannelStream api sleeps

def releaseChannelStream (channelStream : ℕ) : Call (World β) Unit := fun w =>
  let value := w.pool.streams channelStream
  let pool := w.pool.setStream channelStream
    { value with free := true, useQuantity := value.useQuantity - 1 }
  .ok () { w with pool := { pool with channelStreams := pool.channelStreams ++ [channelStream] } }

end MQConnectionPool

end HelloBoot.Mq
