import HelloBoot.Util.Http.HttpClientUtil
import HelloBoot.Util.Http.HttpUtil
import HelloBoot.Util.Str.UrlParam

/-!
# Reading assembled parameters back

`assembleUrlParam` and `assembleFormData` join the entries of a map without any encoding,
and `StrUtil` cuts an address without any decoding. On texts without the three separators
one undoes the other (`assembled_reads_back`).
-/

namespace HelloBoot.StrUtil

open Http (Params fields joined assemble_eq)
open HttpClientUtil (assembleUrlParam)
open HttpUtil (assembleFormData)

def NoSeparator (s : String) : Prop := '=' ∉ s.toList ∧ '&' ∉ s.toList ∧ '?' ∉ s.toList

/-- An entry that can be a part of a query. -/
def Readable (e : String × String) : Prop :=
  (e.1 ≠ "" ∧ NoSeparator e.1) ∧ e.2 ≠ "" ∧ NoSeparator e.2

def partOf (e : String × String) (h : Readable e) : Part :=
  ⟨e.1, e.2, h.1.1, h.1.2, h.2.2.2.1⟩

def urlOf {base : String} (hbase : NoSeparator base) (es : List (String × String))
    (hes : ∀ e ∈ es, Readable e) : Url :=
  ⟨base, es.pmap partOf hes, hbase.2.2⟩

theorem param_eq_getEntry (u : Url) (key : String) :
    u.param key = LinkedHashMap.getEntry key (u.parts.map fun p => (p.key, p.value)) := by
  rw [Url.param]
  induction u.parts with
  | nil => rfl
  | cons p parts ih =>
      rw [List.map_cons, LinkedHashMap.getEntry, List.find?_cons]
      by_cases hp : p.key = key
      · simp [hp]
      · simp [hp, ih]

section UrlOf

variable {base : String} (hbase : NoSeparator base) {es : List (String × String)}
  (hes : ∀ e ∈ es, Readable e)

theorem map_parts_urlOf : (urlOf hbase es hes).parts.map (fun p => (p.key, p.value)) = es := by
  rw [urlOf, List.map_pmap]
  exact (List.pmap_eq_map hes).trans (List.map_id _)

theorem text_urlOf : (urlOf hbase es hes).text = base ++ "?" ++ joined es := by
  rw [Url.text, Url.query, map_parts_urlOf]
  rfl

theorem value_of_mem_parts {p : Part} (hp : p ∈ (urlOf hbase es hes).parts) :
    p.value ≠ "" ∧ NoSeparator p.value := by
  obtain ⟨e, he, rfl⟩ := List.mem_pmap.mp hp
  exact (hes e he).2

/-- No stray is read. -/
theorem findSome?_strays_urlOf (key : String) :
    ((urlOf hbase es hes).strays key).findSome? (valueIn key) = none := by
  have hstrays : (urlOf hbase es hes).strays key = [base] := by
    rw [Url.strays, List.flatMap_eq_nil_iff.mpr, List.append_nil]
    · exact pieces_of_notMem hbase.2.1
    · intro p hp
      have hvalue := value_of_mem_parts hbase hes ((List.takeWhile_prefix _).subset hp)
      rw [pieces_of_notMem hvalue.2.2.2, List.tail_cons]
  have hvalue : valueIn key base = none := by
    rw [valueIn, split, if_neg hbase.1]
  rw [hstrays, List.findSome?_singleton, hvalue]

include hbase hes

/-- Every key of the entries is read with its value. -/
theorem getUrlParam_urlOf (hne : es ≠ []) (key : String) :
    getUrlParam (base ++ "?" ++ joined es) key = LinkedHashMap.getEntry key es := by
  have hparts : (urlOf hbase es hes).parts ≠ [] := by
    simpa [urlOf] using hne
  have hparam := param_eq_getEntry (urlOf hbase es hes) key
  rw [map_parts_urlOf] at hparam
  rw [← text_urlOf hbase hes, ← hparam]
  refine (Url.getUrlParam_eq_param_iff hparts).mpr ⟨fun v hv => ?_, ?_⟩
  · obtain ⟨p, hp, rfl⟩ := Option.map_eq_some_iff.mp hv
    have hvalue := value_of_mem_parts hbase hes (List.mem_of_find?_eq_some hp)
    exact ⟨hvalue.1, hvalue.2.1, hvalue.2.2.2⟩
  · rw [findSome?_strays_urlOf]
    exact nofun

theorem getUrlAddr_urlOf (hne : es ≠ []) : getUrlAddr (base ++ "?" ++ joined es) = .ok base := by
  have hparts : (urlOf hbase es hes).parts ≠ [] := by
    simpa [urlOf] using hne
  rw [← text_urlOf hbase hes, Url.getUrlAddr_text hparts]
  rfl

end UrlOf

/-- Both utilities make the same query of a map, and each key is read back from it. -/
theorem assembled_reads_back {m : Params} {base : String} (hne : m.entries ≠ [])
    (hm : ∀ e ∈ fields m, Readable e) (hbase : NoSeparator base) :
    ∃ q, assembleUrlParam (some m) = some q ∧ assembleFormData (some m) = some q ∧
      (∀ key, getUrlParam (base ++ "?" ++ q) key = (m.get key).map Obj.valueOf) ∧
      getUrlAddr (base ++ "?" ++ q) = .ok base := by
  have hfields : fields m ≠ [] := by simpa [fields] using hne
  refine ⟨joined (fields m), assemble_eq hne, assemble_eq hne, fun key => ?_, ?_⟩
  · rw [getUrlParam_urlOf hbase hm hfields, fields, LinkedHashMap.getEntry_map,
      LinkedHashMap.get]
  · exact getUrlAddr_urlOf hbase hm hfields

def user : Params where
  entries := [("name", some (.string "lhm")), ("phone", some (.other "123"))]
  nodup := by decide

theorem assembled_reads_back_of_user :
    ∃ q, assembleUrlParam (some user) = some q ∧ assembleFormData (some user) = some q ∧
      (∀ key, getUrlParam ("http://www.baidu.com/test" ++ "?" ++ q) key =
        (user.get key).map Obj.valueOf) ∧
      getUrlAddr ("http://www.baidu.com/test" ++ "?" ++ q) = .ok "http://www.baidu.com/test" :=
  assembled_reads_back (by decide)
    (by simp [fields, user, Readable, NoSeparator, Obj.valueOf, Obj.toString])
    (by simp [NoSeparator])

end HelloBoot.StrUtil
