import Mathlib.Data.Fintype.Card
import Mathlib.Data.Set.Finite.Basic
import Mathlib.Logic.Relation

/-!
# Descents along a relation

Whoever follows a relation from `a` and turns back only where it leads no further comes to
an end if `a` is accessible. From such an element no cycle is reached
(`not_cycle_of_acc`), and when all steps lead into a finite list, the converse holds
(`acc_of_not_cycle`).
-/

namespace Forest

variable {α : Type*} {r : α → α → Prop} {a : α}

/-- From an accessible element no cycle is reached. -/
theorem not_cycle_of_acc (h : Acc (Function.swap r) a) :
    ¬ ∃ x, Relation.ReflTransGen r a x ∧ Relation.TransGen r x x := by
  induction h with
  | intro a _ ih =>
      rintro ⟨x, hax, hxx⟩
      rcases hax.cases_head with rfl | ⟨b, hab, hbx⟩
      · -- the cycle starts here, so it is reached from its next element
        obtain ⟨b, hab, hba⟩ := Relation.TransGen.head'_iff.mp hxx
        exact ih b hab ⟨a, hba, hxx⟩
      · exact ih b hab ⟨x, hbx, hxx⟩

theorem acc_of_not_cycle {l : List α} (hl : ∀ a b, r a b → b ∈ l)
    (h : ¬ ∃ x, Relation.ReflTransGen r a x ∧ Relation.TransGen r x x) :
    Acc (Function.swap r) a := by
  -- the elements of the list that are reached, with the transitive closure
  let reached := {x // x ∈ l ∧ Relation.ReflTransGen r a x}
  let below : reached → reached → Prop := fun y x => Relation.TransGen r x.1 y.1
  have hfinite : Finite reached :=
    ((List.finite_toSet l).subset fun _ hx => hx.1).to_subtype
  have htrans : IsTrans reached below := ⟨fun _ _ _ hxy hyz => hyz.trans hxy⟩
  have hirrefl : Std.Irrefl below := ⟨fun x hxx => h ⟨x.1, x.2.2, hxx⟩⟩
  have hwf := Finite.wellFounded_of_trans_of_irrefl below
  have hacc : ∀ x : reached, Acc (Function.swap r) x.1 := by
    intro x
    induction x using hwf.induction with
    | _ x ih => exact .intro x.1 fun y hxy => ih ⟨y, hl x.1 y hxy, x.2.2.tail hxy⟩ (.single hxy)
  exact .intro a fun y hay => hacc ⟨y, hl a y hay, .single hay⟩

end Forest
