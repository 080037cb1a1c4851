import HelloBoot.Thrift.ThriftServer

/-!
# Which services are registered

A generated service has an interface `Iface`, a processor and a client. Its bean is found by
the first of the interfaces that its class names whose name contains `Iface`, and this need not
be the generated one, which the class may also inherit. The processors of all beans are registered under the names that the clients ask for if
and only if the names of these interfaces, up to their first `.Iface`, are those of the
services (`registersAll_iff`).
-/

namespace HelloBoot.Thrift

/-- A service that the compiler of Thrift has generated: a top-level class with its nested
classes. -/
structure Service (cp : ClassPath) where
  name : String
  iface : Class
  processor : Class
  client : Class
  forName_name : cp.forName name = .ok ⟨name, name⟩
  canonicalName_iface : iface.canonicalName = name ++ ".Iface"
  forName_iface : cp.forName (name ++ "$Iface") = .ok iface
  forName_processor : cp.forName (name ++ "$Processor") = .ok processor
  newProcessor : ∀ bean : Bean, iface ∈ bean.implemented →
    cp.newProcessor processor iface bean = .ok ()
  forName_client : cp.forName (name ++ "$Client") = .ok client
  newClient : cp.newClient client = .ok ()

structure ServiceBean (cp : ClassPath) where
  bean : Bean
  service : Service cp
  mem : service.iface ∈ bean.implemented

variable {cp : ClassPath}

def ServiceBean.entry (b : ServiceBean cp) : String × TProcessor :=
  (b.service.name, ⟨b.service.processor, b.bean⟩)

/-- The listener starts the server with exactly one processor for each bean, under the name
to which the client of the service addresses its requests. -/
def RegistersAll (beans : List (ServiceBean cp)) : Prop :=
  (∃ processors table,
    onApplicationEvent cp (beans.map ServiceBean.bean) = .ok processors ∧
      processorTable cp processors = .ok table ∧
        ∀ name tProcessor, table.get name = some tProcessor ↔
          (name, tProcessor) ∈ beans.map ServiceBean.entry) ∧
    ∀ b ∈ beans, (getClient cp b.service.iface).map Client.serviceName = some b.service.name

/-- The first interface whose name contains `Iface` has the name of the service up to its
first `.Iface`. -/
def NamesService (b : ServiceBean cp) : Prop :=
  ∃ clazz name serviceClass,
    b.bean.interfaces.find? (fun clazz => contains clazz.canonicalName "Iface") = some clazz ∧
      serviceName clazz.canonicalName = .ok name ∧ cp.forName name = .ok serviceClass ∧
        serviceClass.canonicalName = b.service.name

section Client

theorem getClient_iface (service : Service cp) :
    getClient cp service.iface = some ⟨service.client, service.name⟩ := by
  have hindex : lastIndexOf ".".toList (service.name ++ ".Iface").toList =
      some service.name.toList.length := by
    rw [String.toList_append]
    exact lastIndexOf_append_cons (by decide)
  rw [getClient, service.canonicalName_iface]
  simp only [hindex, substringTo_append, service.forName_name, get, service.forName_client,
    service.newClient]

end Client

section Table

variable {processors : List Processor} {entries : List (String × TProcessor)}

def newEntry (cp : ClassPath) (processor : Processor) : Except Throwable (String × TProcessor) :=
  (newTProcessor cp processor).map (processor.serviceInterface.canonicalName, ·)

theorem foldlM_putProcessor (map : LinkedHashMap String TProcessor) :
    processors.foldlM (putProcessor cp) map = (processors.mapM (newEntry cp)).map map.putAll := by
  induction processors generalizing map with
  | nil => rfl
  | cons processor processors ih =>
      rw [List.foldlM_cons, List.mapM_cons, putProcessor, newEntry]
      cases newTProcessor cp processor with
      | error t => rfl
      | ok tProcessor =>
          refine (ih _).trans ?_
          cases processors.mapM (newEntry cp) <;> rfl

theorem get_foldl_putAll (map table : LinkedHashMap String TProcessor) (n : ℕ) (name : String) :
    ((List.replicate (n + 1) map).foldl
      (fun table tProcessor => table.putAll tProcessor.entries) table).get name =
        (map.get name).or (table.get name) := by
  induction n generalizing table with
  | zero => exact LinkedHashMap.get_putAll_entries map
  | succ n ih =>
      rw [List.replicate_succ, List.foldl_cons, ih, LinkedHashMap.get_putAll_entries,
        ← Option.or_assoc, Option.or_self]

/-- Registering one map several times is registering it once. -/
theorem get_registerProcessor {map : LinkedHashMap String TProcessor} {n : ℕ}
    (h : n = 0 → map = LinkedHashMap.empty) (name : String) :
    (registerProcessor (List.replicate n map)).get name = map.get name := by
  cases n with
  | zero =>
      rw [h rfl]
      rfl
  | succ n => rw [registerProcessor, get_foldl_putAll, LinkedHashMap.get_empty, Option.or_none]

theorem processorTable_of_ok (h : processors.mapM (newEntry cp) = .ok entries) :
    ∃ table, processorTable cp processors = .ok table ∧
      ∀ name, table.get name = (LinkedHashMap.empty.putAll entries).get name := by
  refine ⟨registerProcessor (List.replicate processors.length
    (LinkedHashMap.empty.putAll entries)), ?_, fun name => get_registerProcessor ?_ name⟩
  · rw [processorTable, getProcessorList, foldlM_putProcessor, h]
    rfl
  · intro hlength
    obtain rfl := List.length_eq_zero_iff.mp hlength
    cases h
    rfl

theorem exists_of_processorTable {table : LinkedHashMap String TProcessor}
    (h : processorTable cp processors = .ok table) :
    ∃ entries, processors.mapM (newEntry cp) = .ok entries := by
  cases hentries : processors.mapM (newEntry cp) with
  | ok entries => exact ⟨entries, rfl⟩
  | error t =>
      rw [processorTable, getProcessorList, foldlM_putProcessor, hentries] at h
      cases h

end Table

section Derived

variable {b : ServiceBean cp} {processor : Processor}

theorem serviceClass_eq_ok_iff {name : String} {clazz : Class} :
    serviceClass cp name = .ok clazz ↔ cp.forName name = .ok clazz := by
  rw [serviceClass]
  cases cp.forName name with
  | ok clazz' => rfl
  | error e => exact iff_of_false nofun nofun

theorem ifaceName_eq (bean : Bean) :
    ifaceName bean = (bean.interfaces.find? fun clazz =>
      contains clazz.canonicalName "Iface").map Class.canonicalName :=
  List.find?_map ..

/-- The listener takes the class for the first interface whose name contains `Iface`. -/
theorem processorOf_eq_ok_iff {bean : Bean} :
    processorOf cp bean = .ok processor ↔
      ∃ clazz name serviceClass,
        bean.interfaces.find? (fun clazz => contains clazz.canonicalName "Iface") = some clazz ∧
          serviceName clazz.canonicalName = .ok name ∧ cp.forName name = .ok serviceClass ∧
            processor = ⟨serviceClass, bean⟩ := by
  rw [processorOf, ifaceName_eq]
  constructor
  · intro h
    cases hfind : bean.interfaces.find? fun clazz => contains clazz.canonicalName "Iface" with
    | none =>
        rw [hfind] at h
        cases h
    | some clazz =>
        rw [hfind, Option.map_some] at h
        obtain ⟨name, hname, h⟩ := Loops.exists_of_bind_eq_ok h
        obtain ⟨serviceClass, hclass, h⟩ := Loops.exists_of_bind_eq_ok h
        exact ⟨clazz, name, serviceClass, rfl, hname, serviceClass_eq_ok_iff.mp hclass,
          (Except.ok.inj h).symm⟩
  · rintro ⟨clazz, name, serviceClass, hfind, hname, hclass, rfl⟩
    rw [hfind, Option.map_some]
    simp only [hname]
    change (Thrift.serviceClass cp name >>= _) = _
    rw [serviceClass_eq_ok_iff.mpr hclass]
    rfl

/-- The class that the listener takes has the name of the service. -/
theorem namesService_iff :
    NamesService b ↔ ∃ processor, processorOf cp b.bean = .ok processor ∧
      processor.serviceInterface.canonicalName = b.service.name := by
  constructor
  · rintro ⟨clazz, name, serviceClass, hfind, hname, hclass, hcanonical⟩
    exact ⟨⟨serviceClass, b.bean⟩,
      processorOf_eq_ok_iff.mpr ⟨clazz, name, serviceClass, hfind, hname, hclass, rfl⟩, hcanonical⟩
  · rintro ⟨processor, hprocessor, hcanonical⟩
    obtain ⟨clazz, name, serviceClass, hfind, hname, hclass, rfl⟩ :=
      processorOf_eq_ok_iff.mp hprocessor
    exact ⟨clazz, name, serviceClass, hfind, hname, hclass, hcanonical⟩

theorem serviceImplObject_of_processorOf {bean : Bean}
    (h : processorOf cp bean = .ok processor) : processor.serviceImplObject = bean := by
  obtain ⟨_, _, _, _, _, _, rfl⟩ := processorOf_eq_ok_iff.mp h
  rfl

theorem newEntry_of_canonicalName (hobject : processor.serviceImplObject = b.bean)
    (hcanonical : processor.serviceInterface.canonicalName = b.service.name) :
    newEntry cp processor = .ok b.entry := by
  rw [newEntry, newTProcessor, hobject, hcanonical, b.service.forName_processor,
    b.service.forName_iface]
  change (cp.newProcessor b.service.processor b.service.iface b.bean >>= _).map _ = _
  rw [b.service.newProcessor b.bean b.mem]
  rfl

theorem of_newEntry {name : String} {tProcessor : TProcessor}
    (h : newEntry cp processor = .ok (name, tProcessor)) :
    processor.serviceInterface.canonicalName = name ∧
      processor.serviceImplObject = tProcessor.serviceImplObject := by
  rw [newEntry] at h
  cases htp : newTProcessor cp processor with
  | error t =>
      rw [htp] at h
      cases h
  | ok tProcessor' =>
      rw [htp] at h
      cases h
      obtain ⟨processClass, -, htp⟩ := Loops.exists_of_bind_eq_ok htp
      obtain ⟨iface, -, htp⟩ := Loops.exists_of_bind_eq_ok htp
      obtain ⟨_, -, htp⟩ := Loops.exists_of_bind_eq_ok htp
      cases htp
      exact ⟨rfl, rfl⟩

end Derived

variable {beans : List (ServiceBean cp)}

theorem registersAll_of_namesService (hnodup : (beans.map fun b => b.service.name).Nodup)
    (h : ∀ b ∈ beans, NamesService b) : RegistersAll beans := by
  refine ⟨?_, fun b _ => by rw [getClient_iface, Option.map_some]⟩
  have hrounds : ∀ b ∈ beans, ∃ processor, processorOf cp b.bean = .ok processor ∧
      newEntry cp processor = .ok b.entry := by
    intro b hb
    obtain ⟨processor, hprocessor, hcanonical⟩ := namesService_iff.mp (h b hb)
    exact ⟨processor, hprocessor,
      newEntry_of_canonicalName (serviceImplObject_of_processorOf hprocessor) hcanonical⟩
  obtain ⟨processors, hprocessors, hR⟩ := Loops.exists_mapM_ok hrounds
  have hentries : processors.mapM (newEntry cp) = .ok (beans.map ServiceBean.entry) :=
    Loops.mapM_ok_of_forall₂ (List.forall₂_map_right_iff.mpr hR.flip)
  obtain ⟨table, htable, hget⟩ := processorTable_of_ok hentries
  refine ⟨processors, table, ?_, htable, fun name tProcessor => ?_⟩
  · rw [onApplicationEvent, List.mapM_map]
    exact hprocessors
  · have hkeys : ((beans.map ServiceBean.entry).map Prod.fst).Nodup := by
      rwa [List.map_map]
    have hnew : ∀ e ∈ beans.map ServiceBean.entry,
        e.1 ∉ (LinkedHashMap.empty : LinkedHashMap String TProcessor).keys :=
      fun _ _ => List.not_mem_nil
    rw [hget, LinkedHashMap.get_eq_some_iff, LinkedHashMap.entries_putAll hkeys hnew]
    rfl

/-- All services are registered under the names that their clients ask for if and only if
each bean names its service. -/
theorem registersAll_iff (hnodup : (beans.map fun b => b.service.name).Nodup) :
    RegistersAll beans ↔ ∀ b ∈ beans, NamesService b := by
  refine ⟨?_, registersAll_of_namesService hnodup⟩
  rintro ⟨⟨processors, table, hprocessors, htable, hmem⟩, -⟩ b hb
  obtain ⟨entries, hentries⟩ := exists_of_processorTable htable
  obtain ⟨table', htable', hget⟩ := processorTable_of_ok hentries
  obtain rfl : table = table' := Except.ok.inj (htable.symm.trans htable')
  -- the entry of the bean comes from a processor, and this one from the bean itself
  have hentry : b.entry ∈ entries := by
    refine LinkedHashMap.mem_of_mem_entries_putAll (LinkedHashMap.get_eq_some_iff.mp ?_)
    rw [← hget]
    exact (hmem _ _).mpr (List.mem_map_of_mem hb)
  obtain ⟨processor, hprocessor, hnew⟩ := Loops.exists_of_mem_of_mapM_ok hentries hentry
  obtain ⟨hcanonical, hobject⟩ := of_newEntry hnew
  obtain ⟨bean, -, hround⟩ := Loops.exists_of_mem_of_mapM_ok hprocessors hprocessor
  obtain rfl : bean = b.bean := (serviceImplObject_of_processorOf hround).symm.trans hobject
  exact namesService_iff.mpr ⟨processor, hround, hcanonical⟩

section HelloService

def helloClasses : List Class :=
  [⟨"server.HelloService", "server.HelloService"⟩,
    ⟨"server.HelloService$Iface", "server.HelloService.Iface"⟩,
    ⟨"server.HelloService$AsyncIface", "server.HelloService.AsyncIface"⟩,
    ⟨"server.HelloService$Processor", "server.HelloService.Processor"⟩,
    ⟨"server.HelloService$Client", "server.HelloService.Client"⟩]

def helloPath : ClassPath where
  forName name :=
    match helloClasses.find? fun clazz => clazz.name = name with
    | some clazz => .ok clazz
    | none => .error .unchecked
  newProcessor _ iface bean :=
    if iface ∈ bean.implemented then .ok () else .error (.illegalArgument "")
  newClient _ := .ok ()

def helloService : Service helloPath where
  name := "server.HelloService"
  iface := ⟨"server.HelloService$Iface", "server.HelloService.Iface"⟩
  processor := ⟨"server.HelloService$Processor", "server.HelloService.Processor"⟩
  client := ⟨"server.HelloService$Client", "server.HelloService.Client"⟩
  forName_name := by decide
  canonicalName_iface := by decide
  forName_iface := by decide
  forName_processor := by decide
  newProcessor bean h := if_pos h
  forName_client := by decide
  newClient := rfl

/-- A bean of `HelloService` that listens to the application as well. -/
def helloServiceImpl : ServiceBean helloPath where
  bean := ⟨"helloServiceImpl",
    [⟨"server.HelloService$Iface", "server.HelloService.Iface"⟩,
      ⟨"context.ApplicationListener", "context.ApplicationListener"⟩], []⟩
  service := helloService
  mem := List.mem_cons_self

theorem registersAll_iff_of_helloServiceImpl :
    RegistersAll [helloServiceImpl] ↔ ∀ b ∈ [helloServiceImpl], NamesService b :=
  registersAll_iff (List.nodup_singleton _)

/-- A bean that implements the asynchronous interface too, and names it first. -/
def asyncServiceImpl : ServiceBean helloPath where
  bean := ⟨"asyncServiceImpl",
    [⟨"server.HelloService$AsyncIface", "server.HelloService.AsyncIface"⟩,
      ⟨"server.HelloService$Iface", "server.HelloService.Iface"⟩], []⟩
  service := helloService
  mem := List.mem_cons_of_mem _ List.mem_cons_self

theorem not_registersAll_of_asyncServiceImpl :
    onApplicationEvent helloPath [asyncServiceImpl.bean] = .error .indexOutOfBounds ∧
      ¬RegistersAll [asyncServiceImpl] := by
  have hfails : onApplicationEvent helloPath [asyncServiceImpl.bean] =
      .error .indexOutOfBounds := by decide
  refine ⟨hfails, ?_⟩
  rintro ⟨⟨processors, table, hprocessors, -⟩, -⟩
  cases hfails.symm.trans hprocessors

end HelloService

end HelloBoot.Thrift
