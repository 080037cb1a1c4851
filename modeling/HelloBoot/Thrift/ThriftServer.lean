import HelloBoot.Java.LinkedHashMap
import HelloBoot.Java.Loops
import HelloBoot.Java.Substring

/-!
# Thrift services

`ThriftServerProxyListener` finds for each bean the class of the service that it
implements, `ThriftServerProxy` makes a table of the processors under the names of these
classes, and `ThriftClient` addresses its requests to the name that it cuts off the name of
an interface. What they load by reflection is a parameter, `ClassPath`.
-/

namespace HelloBoot.Thrift

structure Class where
  name : String
  canonicalName : String
  deriving DecidableEq

/-- A bean, with the interfaces that `getInterfaces()` lists for its class and those that the
class inherits from its superclass or from these interfaces. -/
structure Bean where
  name : String
  interfaces : List Class
  inherited : List Class
  deriving DecidableEq

/-- The interfaces of which a bean is an instance. -/
def Bean.implemented (bean : Bean) : List Class := bean.interfaces ++ bean.inherited

/-- A processor: an instance of `processClass` for a bean. -/
structure TProcessor where
  processClass : Class
  serviceImplObject : Bean
  deriving DecidableEq

/-- What reflection finds. `newProcessor` looks the constructor of a class for a parameter
of the second class up and calls it on a bean, and `newClient` does this for a protocol. -/
structure ClassPath where
  forName : String → Except Throwable Class
  newProcessor : (processClass iface : Class) → Bean → Except Throwable Unit
  newClient : Class → Except Throwable Unit

variable (cp : ClassPath)

section Server

structure Processor where
  serviceInterface : Class
  serviceImplObject : Bean
  deriving DecidableEq

/-- The loop over the interfaces of a bean: the first canonical name that contains
`Iface`. -/
def ifaceName (bean : Bean) : Option String :=
  (bean.interfaces.map Class.canonicalName).find? fun str => contains str "Iface"

/-- `ifaceName.substring(0, ifaceName.indexOf(".Iface"))`. -/
def serviceName (ifaceName : String) : Except Throwable String :=
  substringTo ifaceName (indexOf ".Iface".toList ifaceName.toList)

def serviceClass (name : String) : Except Throwable Class :=
  match cp.forName name with
  | .ok serviceClass => .ok serviceClass
  | .error e => .error (.runtime e)

def processorOf (bean : Bean) : Except Throwable Processor :=
  match ifaceName bean with
  -- the exception that names the class
  | none => .error .unchecked
  | some ifaceName => do
      let name ← serviceName ifaceName
      let serviceClass ← serviceClass cp name
      return ⟨serviceClass, bean⟩

/-- `onApplicationEvent(event)`: what `thriftServerProxy` is started with. -/
def onApplicationEvent (beans : List Bean) : Except Throwable (List Processor) :=
  beans.mapM (processorOf cp)

def newTProcessor (processor : Processor) : Except Throwable TProcessor := do
  let processClass ← cp.forName (processor.serviceInterface.canonicalName ++ "$Processor")
  let iface ← cp.forName (processor.serviceInterface.canonicalName ++ "$Iface")
  cp.newProcessor processClass iface processor.serviceImplObject
  return ⟨processClass, processor.serviceImplObject⟩

def putProcessor (map : LinkedHashMap String TProcessor) (processor : Processor) :
    Except Throwable (LinkedHashMap String TProcessor) := do
  let tProcessor ← newTProcessor cp processor
  return map.put processor.serviceInterface.canonicalName tProcessor

/-- `getProcessorList()`: the list holds one map, once for each processor. -/
def getProcessorList (processors : List Processor) :
    Except Throwable (List (LinkedHashMap String TProcessor)) := do
  let map ← processors.foldlM (putProcessor cp) LinkedHashMap.empty
  return List.replicate processors.length map

/-- `registerProcessor(tProcessors)`: the table of the `TMultiplexedProcessor`. -/
def registerProcessor (tProcessors : List (LinkedHashMap String TProcessor)) :
    LinkedHashMap String TProcessor :=
  tProcessors.foldl (fun table tProcessor => table.putAll tProcessor.entries) LinkedHashMap.empty

def processorTable (processors : List Processor) :
    Except Throwable (LinkedHashMap String TProcessor) := do
  let tProcessors ← getProcessorList cp processors
  return registerProcessor tProcessors

end Server

section Client

/-- A client: an instance of `clientClass` on a `TMultiplexedProtocol` for a name. -/
structure Client where
  clientClass : Class
  serviceName : String
  deriving DecidableEq

/-- `ThriftClient.get(serviceClazz)`, with `none` for null; failures are caught. -/
def get (serviceClazz : Class) : Option Client :=
  match cp.forName (serviceClazz.name ++ "$Client") with
  | .error _ => none
  | .ok client =>
      match cp.newClient client with
      | .error _ => none
      | .ok _ => some ⟨client, serviceClazz.name⟩

def getClient (clientClass : Class) : Option Client :=
  let name := clientClass.canonicalName
  match substringTo name (lastIndexOf ".".toList name.toList) with
  | .error _ => none
  | .ok service =>
      match cp.forName service with
      | .error _ => none
      | .ok serviceClazz => get cp serviceClazz

end Client

end HelloBoot.Thrift
