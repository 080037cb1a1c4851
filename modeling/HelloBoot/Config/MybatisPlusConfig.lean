import HelloBoot.Java.Split
import HelloBoot.Java.Substring

/-!
# `MybatisPlusConfig`

The handler for table names asks whether a name is a part of the configured text, in which
the dynamic tables stand between commas. So it redirects their names, and also every other
text that stands somewhere in the configuration (`onlyConfigured_iff`).
-/

namespace HelloBoot.MybatisPlusConfig

def checkDynamicTable (dynamicTableNameList tableName : String) : Bool :=
  contains dynamicTableNameList tableName

/-- `dealTableName(oldTable)`; `tableName` is what `TableNameHelper` holds on the thread. -/
def dealTableName (tableName : Option String) (oldTable : String) : String :=
  match tableName with
  | none => oldTable
  | some tableName =>
      if tableName = "" then oldTable
      else if contains tableName oldTable then tableName
      else oldTable ++ "_" ++ tableName

/-- The table-name handler of `mybatisPlusInterceptor`, which does not look at the
statement. -/
def tableNameHandler (dynamicTableNameList : String) (helper : Option String)
    (_sql tableName : String) : String :=
  if checkDynamicTable dynamicTableNameList tableName then dealTableName helper tableName
  else tableName

variable {dynamicTableNameList sql tableName : String} {helper : Option String}

/-- A name is only replaced if it is an element of the list. -/
def OnlyConfigured (dynamicTableNameList : String) (helper : Option String)
    (sql tableName : String) : Prop :=
  tableNameHandler dynamicTableNameList helper sql tableName ≠ tableName →
    tableName ∈ pieces ',' dynamicTableNameList

/-- Names stay as they are when nothing else is set. -/
theorem dealTableName_eq_iff :
    dealTableName helper tableName = tableName ↔
      helper = none ∨ helper = some "" ∨ helper = some tableName := by
  cases helper with
  | none => simp [dealTableName]
  | some name =>
      rw [dealTableName]
      by_cases hempty : name = ""
      · simp [hempty]
      · by_cases hfull : contains name tableName = true
        · simp [hempty, hfull]
        · have hself : name ≠ tableName := by
            rintro rfl
            exact hfull (contains_iff.mpr (List.infix_refl _))
          have hsuffix : tableName ++ "_" ++ name ≠ tableName := by
            intro heq
            have hlength := congrArg (fun s => s.toList.length) heq
            simp only [String.toList_append, List.length_append] at hlength
            have hone : "_".toList.length = 1 := rfl
            omega
          simp [hempty, hfull, hself, hsuffix]

/-- Only the elements of the list are redirected, unless a name stands in the configured
text without being one of them and `TableNameHelper` holds another name. -/
theorem onlyConfigured_iff (dynamicTableNameList : String) (helper : Option String)
    (sql tableName : String) :
    OnlyConfigured dynamicTableNameList helper sql tableName ↔
      (tableName.toList <:+: dynamicTableNameList.toList →
        tableName ∉ pieces ',' dynamicTableNameList →
          helper = none ∨ helper = some "" ∨ helper = some tableName) := by
  rw [OnlyConfigured, tableNameHandler, checkDynamicTable]
  by_cases hcheck : contains dynamicTableNameList tableName = true
  · rw [if_pos hcheck, ne_eq, dealTableName_eq_iff, not_imp_comm]
    exact ⟨fun h _ => h, fun h => h (contains_iff.mp hcheck)⟩
  · rw [if_neg hcheck]
    exact iff_of_true (absurd rfl) fun hinfix => absurd (contains_iff.mpr hinfix) hcheck

theorem tableNameHandler_of_mem (h : tableName ∈ pieces ',' dynamicTableNameList) :
    tableNameHandler dynamicTableNameList helper sql tableName =
      dealTableName helper tableName :=
  if_pos (contains_iff.mpr (infix_of_mem_pieces h))

/-- The table `test` is not in the list, and it is redirected. -/
theorem not_onlyConfigured_of_test :
    tableNameHandler "t_test,user" (some "2023") "select * from test" "test" = "test_2023" ∧
      ¬OnlyConfigured "t_test,user" (some "2023") "select * from test" "test" := by
  have hhandler :
      tableNameHandler "t_test,user" (some "2023") "select * from test" "test" = "test_2023" := by
    decide
  refine ⟨hhandler, fun h => ?_⟩
  have hmem := h (by rw [hhandler]; decide)
  exact absurd hmem (by decide)

end HelloBoot.MybatisPlusConfig
