import HelloBoot.Thrift.TCompactProtocol
import HelloBoot.Thrift.UserInfoSchemes
import Mathlib.Order.Compare

/-!
# When two `UserInfo` are the same

Each scheme has its own notion of sameness. `equals` holds if and only if the standard scheme
writes the same text for both (`equals_iff_write_eq`), and `compareTo` is zero if and only if the
tuple scheme does (`compareTo_eq_zero_iff_writeTuple`). The two differ on the marks of `id`, `age`
and `workYear`, which `equals` does not look at, and on the values of these fields without a mark,
which `compareTo` does not look at.

`compareTo` orders totally what it tells apart (`compareTo_total`), if the comparisons of
`TBaseHelper` do.
-/

namespace HelloBoot.Thrift

open Wire

namespace UserInfo

variable {u v : UserInfo}

/-! ### `equals` and the standard scheme -/

section Equals

theorem equalsField_iff {α : Type} [DecidableEq α] {a b : Option α} :
    equalsField a b = true ↔ a = b := by
  cases a <;> cases b <;> simp [equalsField]

theorem equals_iff : u.equals v = true ↔ u.id = v.id ∧ u.username = v.username ∧
    u.password = v.password ∧ u.age = v.age ∧ u.sex? = v.sex? ∧ u.workYear = v.workYear := by
  simp only [equals, Bool.and_eq_true, equalsField_iff, Option.some.injEq, and_assoc]

theorem sex?_received (u : UserInfo) : u.received.sex? = u.sex? := by
  obtain ⟨⟨hid, hage, hsex, hworkYear⟩, id, username, password, age, sex, workYear⟩ := u
  cases hsex <;> rfl

theorem equals_received (u : UserInfo) : u.equals u.received = true :=
  equals_iff.mpr ⟨rfl, rfl, rfl, rfl, (sex?_received u).symm, rfl⟩

theorem isSome_sex? (u : UserInfo) : u.sex?.isSome = u.isset.sex := by
  rw [sex?]
  cases u.isset.sex <;> rfl

/-- What is received depends on what `equals` compares only, and on all of it. -/
theorem equals_iff_received : u.equals v = true ↔ u.received = v.received := by
  constructor
  · intro h
    obtain ⟨hid, husername, hpassword, hage, hsex, hworkYear⟩ := equals_iff.mp h
    have hmark : u.isset.sex = v.isset.sex := by rw [← isSome_sex?, ← isSome_sex?, hsex]
    simp only [received, hid, husername, hpassword, hage, hsex, hworkYear, hmark]
  · intro h
    rw [equals_iff, ← sex?_received u, ← sex?_received v, h]
    exact ⟨(congrArg UserInfo.id h :), (congrArg username h :), (congrArg password h :),
      (congrArg age h :), rfl, (congrArg workYear h :)⟩

variable {β : Type} {P : TProtocol β} {Carries : String → Prop}
  {Encodes : Int8 → List β → Prop}

/-- A struct that is sent arrives equal, and what is sent on from there is the same text. -/
theorem run_read_write (hP : P.Lawful Carries Encodes) (hu : u.Carried Carries) (rest : List β) :
    (read P {}).run (write P u ++ rest) = .ok (u.received, rest) ∧
      u.equals u.received = true ∧ write P u.received = write P u :=
  ⟨takes_write hP hu rest, equals_received u, write_received u⟩

theorem carried_username {s : String} (h : Carries s) :
    Carried Carries { username := some s } := by
  refine ⟨fun t ht => ?_, fun t ht => ?_⟩
  · cases ht
    exact h
  · cases ht

theorem carried_of_eq_none (husername : u.username = none) (hpassword : u.password = none) :
    u.Carried Carries := by
  refine ⟨fun t ht => ?_, fun t ht => ?_⟩
  · rw [husername] at ht
    cases ht
  · rw [hpassword] at ht
    cases ht

theorem run_read_write_username :
    (read tBinaryProtocol {}).run (write tBinaryProtocol { username := some "lhm" } ++ []) =
      .ok (received { username := some "lhm" }, []) ∧
    equals { username := some "lhm" } (received { username := some "lhm" }) = true ∧
    write tBinaryProtocol (received { username := some "lhm" }) =
      write tBinaryProtocol { username := some "lhm" } :=
  run_read_write tBinaryProtocol_lawful (carried_username (by decide)) []

/-- `equals` compares what the standard scheme writes. -/
theorem equals_iff_write_eq (hP : P.Lawful Carries Encodes) (hu : u.Carried Carries)
    (hv : v.Carried Carries) : u.equals v = true ↔ write P u = write P v := by
  rw [equals_iff_received]
  constructor
  · intro h
    rw [← write_received u, h, write_received]
  · intro h
    have hread := takes_write hP hu
    rw [h] at hread
    exact hread.unique (takes_write hP hv)

/-- `equals` does not ask whether the id is set. -/
theorem equals_iff_write_eq_set : equals {} (setId {} 0) = true ↔
    write tBinaryProtocol {} = write tBinaryProtocol (setId {} 0) :=
  equals_iff_write_eq tBinaryProtocol_lawful (carried_of_eq_none rfl rfl)
    (carried_of_eq_none rfl rfl)

theorem hashCode_eq_of_equals (hash : Hashes) (h : u.equals v = true) :
    hashCode hash u = hashCode hash v := by
  obtain ⟨hid, husername, hpassword, hage, hsex, hworkYear⟩ := equals_iff.mp h
  simp only [hashCode, hid, husername, hpassword, hage, hsex, hworkYear]

end Equals

/-! ### `compareTo` and the tuple scheme -/

section CompareTo

/-- What the sign of an `int` says about an order. -/
def sign (c : Int32) : Ordering := compare c 0

theorem sign_eq_eq_iff {c : Int32} : sign c = .eq ↔ c = 0 :=
  Std.LawfulEqOrd.compare_eq_iff_eq

structure TBaseHelper.Lawful (helper : TBaseHelper) : Prop where
  trans_long : Std.TransCmp fun a b => sign (helper.compareLong a b)
  trans_byte : Std.TransCmp fun a b => sign (helper.compareByte a b)
  trans_string : Std.TransCmp fun a b => sign (helper.compareString a b)
  long_eq_zero_iff : ∀ a b, helper.compareLong a b = 0 ↔ a = b
  byte_eq_zero_iff : ∀ a b, helper.compareByte a b = 0 ↔ a = b
  string_eq_zero_iff : ∀ a b, helper.compareString a b = 0 ↔ a = b

def compareOf {α : Type} [Ord α] (a b : α) : Int32 :=
  match compare a b with
  | .lt => -1
  | .eq => 0
  | .gt => 1

theorem sign_compareOf {α : Type} [Ord α] (a b : α) : sign (compareOf a b) = compare a b := by
  rw [compareOf]
  cases compare a b <;> rfl

theorem compareOf_eq_zero_iff {α : Type} [Ord α] [Std.LawfulEqOrd α] (a b : α) :
    compareOf a b = 0 ↔ a = b := by
  rw [← sign_eq_eq_iff, sign_compareOf, Std.LawfulEqOrd.compare_eq_iff_eq]

def tBaseHelper : TBaseHelper where
  compareLong := compareOf
  compareByte := compareOf
  compareString := compareOf

theorem tBaseHelper_lawful : tBaseHelper.Lawful where
  trans_long := by
    simp only [tBaseHelper, sign_compareOf]
    infer_instance
  trans_byte := by
    simp only [tBaseHelper, sign_compareOf]
    infer_instance
  trans_string := by
    simp only [tBaseHelper, sign_compareOf]
    infer_instance
  long_eq_zero_iff := compareOf_eq_zero_iff
  byte_eq_zero_iff := compareOf_eq_zero_iff
  string_eq_zero_iff := compareOf_eq_zero_iff

/-- The order of a field: no value comes before any value. -/
def fieldOrder {α : Type} (compareTo : α → α → Int32) (a b : Option α) : Ordering :=
  @compare _ (@instOrdOption _ ⟨fun a b => sign (compareTo a b)⟩) a b

section Field

variable {α : Type} {compareTo : α → α → Int32}

theorem sign_compareField (a b : Option α) (rest : Int32) :
    sign (compareField compareTo a b rest) = (fieldOrder compareTo a b).then (sign rest) := by
  cases a with
  | none =>
      cases b with
      | none => rfl
      | some b => rfl
  | some a =>
      cases b with
      | none => rfl
      | some b =>
          change sign (if compareTo a b ≠ 0 then compareTo a b else rest) =
            (sign (compareTo a b)).then (sign rest)
          split
          case isTrue h =>
              cases hsign : sign (compareTo a b) with
              | eq => exact absurd (sign_eq_eq_iff.mp hsign) h
              | lt => rfl
              | gt => rfl
          case isFalse h =>
              rw [sign_eq_eq_iff.mpr (not_not.mp h)]
              rfl

theorem transCmp_fieldOrder (h : Std.TransCmp fun a b => sign (compareTo a b)) :
    Std.TransCmp (fieldOrder compareTo) :=
  letI : Ord α := ⟨fun a b => sign (compareTo a b)⟩
  haveI : Std.TransOrd α := h
  Option.instTransOrd

theorem fieldOrder_eq_eq_iff (h : ∀ a b, compareTo a b = 0 ↔ a = b) {a b : Option α} :
    fieldOrder compareTo a b = .eq ↔ a = b := by
  cases a with
  | none => cases b <;> simp [fieldOrder, compare]
  | some a =>
      cases b with
      | none => simp [fieldOrder, compare]
      | some b =>
          rw [Option.some.injEq, ← h, ← sign_eq_eq_iff]
          rfl

end Field

variable (helper : TBaseHelper)

def order : UserInfo → UserInfo → Ordering :=
  compareLex (fun u v => fieldOrder helper.compareLong u.id? v.id?) <|
  compareLex (fun u v => fieldOrder helper.compareString u.username v.username) <|
  compareLex (fun u v => fieldOrder helper.compareString u.password v.password) <|
  compareLex (fun u v => fieldOrder helper.compareByte u.age? v.age?) <|
  compareLex (fun u v => fieldOrder helper.compareByte u.sex? v.sex?) <|
  fun u v => fieldOrder helper.compareByte u.workYear? v.workYear?

theorem sign_compareTo (u v : UserInfo) : sign (u.compareTo helper v) = order helper u v := by
  have hlast : sign 0 = .eq := rfl
  simp only [compareTo, sign_compareField, order, compareLex, hlast, Ordering.then_eq]

variable {helper}

theorem transCmp_order (h : helper.Lawful) : Std.TransCmp (order helper) := by
  have hcomap {α : Type} {cmp : α → α → Ordering} (hcmp : Std.TransCmp cmp)
      (f : UserInfo → α) : Std.TransCmp fun u v => cmp (f u) (f v) :=
    { eq_swap := Std.OrientedCmp.eq_swap
      isLE_trans := Std.TransCmp.isLE_trans }
  have hlong := transCmp_fieldOrder h.trans_long
  have hstring := transCmp_fieldOrder h.trans_string
  have hbyte := transCmp_fieldOrder h.trans_byte
  have hid := hcomap hlong id?
  have husername := hcomap hstring username
  have hpassword := hcomap hstring password
  have hage := hcomap hbyte age?
  have hsex := hcomap hbyte sex?
  have hworkYear := hcomap hbyte workYear?
  unfold order
  infer_instance

theorem compareTo_eq_zero_iff (h : helper.Lawful) : u.compareTo helper v = 0 ↔
    u.id? = v.id? ∧ u.username = v.username ∧ u.password = v.password ∧ u.age? = v.age? ∧
      u.sex? = v.sex? ∧ u.workYear? = v.workYear? := by
  rw [← sign_eq_eq_iff, sign_compareTo]
  simp only [order, compareLex_eq_eq, fieldOrder_eq_eq_iff h.long_eq_zero_iff,
    fieldOrder_eq_eq_iff h.string_eq_zero_iff, fieldOrder_eq_eq_iff h.byte_eq_zero_iff]

/-- `compareTo` is a total order up to what it does not tell apart. -/
theorem compareTo_total (h : helper.Lawful) (u v w : UserInfo) :
    (u.compareTo helper v < 0 ↔ 0 < v.compareTo helper u) ∧
    (u.compareTo helper v ≤ 0 → v.compareTo helper w ≤ 0 → u.compareTo helper w ≤ 0) := by
  have hlt (c : Int32) : c < 0 ↔ sign c = .lt := Std.compare_eq_lt.symm
  have hgt (c : Int32) : 0 < c ↔ sign c = .gt := Std.compare_eq_gt.symm
  have hle (c : Int32) : c ≤ 0 ↔ (sign c).isLE = true := Std.isLE_compare.symm
  have htrans := transCmp_order h
  constructor
  · rw [hlt, hgt, sign_compareTo, sign_compareTo]
    exact Std.OrientedCmp.gt_iff_lt.symm
  · rw [hle, hle, hle, sign_compareTo, sign_compareTo, sign_compareTo]
    exact Std.TransCmp.isLE_trans

/-- A struct without an id comes before one with an id, whatever its id is. -/
theorem compareTo_total_unset :
    (compareTo tBaseHelper { id := 9 } (setId {} 1) < 0 ↔
      0 < compareTo tBaseHelper (setId {} 1) { id := 9 }) ∧
    (compareTo tBaseHelper { id := 9 } (setId {} 1) ≤ 0 →
      compareTo tBaseHelper (setId {} 1) (setId {} 2) ≤ 0 →
        compareTo tBaseHelper { id := 9 } (setId {} 2) ≤ 0) :=
  compareTo_total tBaseHelper_lawful { id := 9 } (setId {} 1) (setId {} 2)

/-! ### The tuple scheme -/

section Tuple

variable {β : Type} {P : TTupleProtocol β} {Carries : String → Prop}

theorem ifSet_receivedTuple (u : UserInfo) : u.receivedTuple.id? = u.id? ∧
    u.receivedTuple.age? = u.age? ∧ u.receivedTuple.sex? = u.sex? ∧
      u.receivedTuple.workYear? = u.workYear? := by
  obtain ⟨⟨hid, hage, hsex, hworkYear⟩, id, username, password, age, sex, workYear⟩ := u
  cases hid <;> cases hage <;> cases hsex <;> cases hworkYear <;> exact ⟨rfl, rfl, rfl, rfl⟩

theorem compareTo_receivedTuple (h : helper.Lawful) (u : UserInfo) :
    u.compareTo helper u.receivedTuple = 0 := by
  obtain ⟨hid, hage, hsex, hworkYear⟩ := ifSet_receivedTuple u
  rw [compareTo_eq_zero_iff h, hid, hage, hsex, hworkYear]
  exact ⟨rfl, rfl, rfl, rfl, rfl, rfl⟩

theorem getD_ifSet_eq_iff {α : Type} {set : Bool} {a default : α} :
    a = (if set then some a else none).getD default ↔ (set = false → a = default) := by
  cases set <;> simp

theorem equals_receivedTuple_iff (u : UserInfo) : u.equals u.receivedTuple = true ↔
    (u.isset.id = false → u.id = 0) ∧ (u.isset.age = false → u.age = 0) ∧
      (u.isset.workYear = false → u.workYear = 18) := by
  have hsex := (ifSet_receivedTuple u).2.2.1
  rw [equals_iff, hsex]
  constructor
  · rintro ⟨hid, -, -, hage, -, hworkYear⟩
    exact ⟨getD_ifSet_eq_iff.mp hid, getD_ifSet_eq_iff.mp hage, getD_ifSet_eq_iff.mp hworkYear⟩
  · rintro ⟨hid, hage, hworkYear⟩
    exact ⟨getD_ifSet_eq_iff.mpr hid, rfl, rfl, getD_ifSet_eq_iff.mpr hage, rfl,
      getD_ifSet_eq_iff.mpr hworkYear⟩

/-- A struct that is sent by the tuple scheme arrives the same for `compareTo`, but for `equals`
only if its numbers without a mark are those of a new struct. -/
theorem run_readTuple_writeTuple (h : helper.Lawful) (hP : P.Lawful Carries)
    (hu : u.Carried Carries) (rest : List β) :
    (readTuple P {}).run (writeTuple P u ++ rest) = .ok (u.receivedTuple, rest) ∧
    u.compareTo helper u.receivedTuple = 0 ∧
    (u.equals u.receivedTuple = true ↔
      (u.isset.id = false → u.id = 0) ∧ (u.isset.age = false → u.age = 0) ∧
        (u.isset.workYear = false → u.workYear = 18)) :=
  ⟨takes_writeTuple hP hu rest, compareTo_receivedTuple h u, equals_receivedTuple_iff u⟩

/-- A number that has been assigned without its setter does not arrive. -/
theorem run_readTuple_writeTuple_unset :
    (readTuple tTupleProtocol {}).run (writeTuple tTupleProtocol { age := 5 } ++ []) =
      .ok ({}, []) ∧
    compareTo tBaseHelper { age := 5 } {} = 0 ∧
    (equals { age := 5 } {} = true ↔
      (false = false → (0 : Int64) = 0) ∧ (false = false → (5 : Int8) = 0) ∧
        (false = false → (18 : Int8) = 18)) :=
  run_readTuple_writeTuple (u := { age := 5 }) tBaseHelper_lawful tTupleProtocol_lawful
    (carried_of_eq_none rfl rfl) []

theorem compareTo_eq_zero_iff_writeTuple (h : helper.Lawful) (hP : P.Lawful Carries)
    (hu : u.Carried Carries) (hv : v.Carried Carries) :
    u.compareTo helper v = 0 ↔ writeTuple P u = writeTuple P v := by
  rw [compareTo_eq_zero_iff h]
  constructor
  · rintro ⟨hid, husername, hpassword, hage, hsex, hworkYear⟩
    simp only [writeTuple, hid, husername, hpassword, hage, hsex, hworkYear]
  · intro htext
    have hread := takes_writeTuple hP hu
    rw [htext] at hread
    have heq := hread.unique (takes_writeTuple hP hv)
    obtain ⟨hid, hage, hsex, hworkYear⟩ := ifSet_receivedTuple u
    obtain ⟨hid', hage', hsex', hworkYear'⟩ := ifSet_receivedTuple v
    rw [← hid, ← hage, ← hsex, ← hworkYear, heq]
    exact ⟨hid', (congrArg username heq :), (congrArg password heq :), hage', hsex', hworkYear'⟩

theorem isset_eq_iff : u.isset = v.isset ↔ u.id?.isSome = v.id?.isSome ∧
    u.age?.isSome = v.age?.isSome ∧ u.sex?.isSome = v.sex?.isSome ∧
      u.workYear?.isSome = v.workYear?.isSome := by
  have hsome {α : Type} (set : Bool) (a : α) : (if set then some a else none).isSome = set := by
    cases set <;> rfl
  simp only [id?, age?, sex?, workYear?, hsome]
  constructor
  · intro h
    rw [h]
    exact ⟨rfl, rfl, rfl, rfl⟩
  · rintro ⟨hid, hage, hsex, hworkYear⟩
    exact IsSetBits.ext hid hage hsex hworkYear

theorem equals_and_isset_eq_iff (h : helper.Lawful) :
    u.equals v = true ∧ u.isset = v.isset ↔
      u.compareTo helper v = 0 ∧ u.id = v.id ∧ u.age = v.age ∧ u.workYear = v.workYear := by
  rw [equals_iff, compareTo_eq_zero_iff h]
  constructor
  · rintro ⟨⟨hid, husername, hpassword, hage, hsex, hworkYear⟩, hisset⟩
    refine ⟨⟨?_, husername, hpassword, ?_, hsex, ?_⟩, hid, hage, hworkYear⟩
    · rw [id?, id?, hisset, hid]
    · rw [age?, age?, hisset, hage]
    · rw [workYear?, workYear?, hisset, hworkYear]
  · rintro ⟨⟨hid?, husername, hpassword, hage?, hsex, hworkYear?⟩, hid, hage, hworkYear⟩
    refine ⟨⟨hid, husername, hpassword, hage, hsex, hworkYear⟩, ?_⟩
    rw [isset_eq_iff, hid?, hage?, hsex, hworkYear?]
    exact ⟨rfl, rfl, rfl, rfl⟩

/-- `compareTo` compares what the tuple scheme writes. It is zero on structs with the same
numbers if and only if `equals` holds and the marks are the same. -/
theorem compareTo_eq_zero_iff_writeTuple_eq (h : helper.Lawful) (hP : P.Lawful Carries)
    (hu : u.Carried Carries) (hv : v.Carried Carries) :
    (u.compareTo helper v = 0 ↔ writeTuple P u = writeTuple P v) ∧
    (u.equals v = true ∧ u.isset = v.isset ↔
      u.compareTo helper v = 0 ∧ u.id = v.id ∧ u.age = v.age ∧ u.workYear = v.workYear) :=
  ⟨compareTo_eq_zero_iff_writeTuple h hP hu hv, equals_and_isset_eq_iff h⟩

/-- Two structs that are equal, of which one has its id set. -/
theorem compareTo_eq_zero_iff_writeTuple_eq_set :
    (compareTo tBaseHelper {} (setId {} 0) = 0 ↔
      writeTuple tTupleProtocol {} = writeTuple tTupleProtocol (setId {} 0)) ∧
    (equals {} (setId {} 0) = true ∧ ({} : UserInfo).isset = (setId {} 0).isset ↔
      compareTo tBaseHelper {} (setId {} 0) = 0 ∧ (0 : Int64) = 0 ∧ (0 : Int8) = 0 ∧
        (18 : Int8) = 18) :=
  compareTo_eq_zero_iff_writeTuple_eq (u := {}) (v := setId {} 0) tBaseHelper_lawful
    tTupleProtocol_lawful (carried_of_eq_none rfl rfl) (carried_of_eq_none rfl rfl)

end Tuple

end CompareTo

end UserInfo

end HelloBoot.Thrift
