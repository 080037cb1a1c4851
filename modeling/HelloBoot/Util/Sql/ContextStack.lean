import HelloBoot.Util.Sql.SqlSessionFactoryUtil

/-!
# What `batch` leaves on the context stack

`batch` pushes the data source that it finds on top of the stack once more and never
polls it, whatever else returns or throws (`stack_batch`). So the stack is left as it
was if and only if it was empty (`stack_batch_eq_iff`), and on a thread that is used
again and again it grows by one entry with each call (`stack_batches`).
-/

namespace HelloBoot.SqlSessionFactoryUtil

open Call

variable {β τ α : Type} {st : List String}

section OffEnv

/-- What a change of the environment leaves alone. -/
def OffEnv (P : World β → Prop) : Prop := ∀ w env, P w → P { w with env := env }

variable {P : World β → Prop} (hP : OffEnv P)

include hP

theorem OffEnv.keeps_inEnv (x : EStateM Throwable β α) : Keeps P (inEnv x) := by
  intro w hw
  rw [after, inEnv]
  cases x w.env <;> exact hP w _ hw

theorem OffEnv.keeps_batchItem (api : SqlSessionApi β τ) (opened : Class × String) (mapper : ℕ)
    (item : Option τ) : Keeps P (batchItem api opened.1 opened.2 mapper item) := by
  cases item with
  | none => exact keeps_throw _
  | some item => exact (hP.keeps_inEnv _).bind fun method => hP.keeps_inEnv _

end OffEnv

theorem offEnv_stack : OffEnv fun w : World β => w.stack = st := fun _ _ hw => hw

theorem keepsStack_onSession (call : SessionCall) (x : EStateM Throwable β Unit) :
    Keeps (fun w : World β => w.stack = st) (onSession call x) := by
  intro w hw
  rw [after, onSession]
  cases w.sqlSession with
  | none => exact hw
  | some calls =>
      simp only
      cases x w.env <;> exact hw

variable (api : SqlSessionApi β τ)

theorem keepsStack_runBatch (list : List (Option τ)) (opened : Class × String) :
    Keeps (fun w : World β => w.stack = st) (runBatch api list opened) :=
  (offEnv_stack.keeps_inEnv _).bind fun mapper =>
    (keeps_forM fun item _ => offEnv_stack.keeps_batchItem api opened mapper item).bind fun _ =>
      keepsStack_onSession _ _

def pushed (stack : List String) : List String := stack.head?.toList ++ stack

theorem pushPeek_eq (w : World β) : pushPeek w = .ok () { w with stack := pushed w.stack } := by
  obtain ⟨stack, sqlSession, env⟩ := w
  cases stack <;> rfl

theorem stack_openBatch (action : LambdaFun β) (w : World β) :
    (after (openBatch api action) w).stack = pushed w.stack := by
  rw [openBatch, after_bind_of_ok (pushPeek_eq w)]
  refine Keeps.bind (offEnv_stack.keeps_inEnv _) (fun lambda => ?_) _ rfl
  refine (offEnv_stack.keeps_inEnv _).bind fun aClass => ?_
  refine (offEnv_stack.keeps_inEnv _).bind fun lambda => ?_
  refine (offEnv_stack.keeps_inEnv _).bind fun _ => Keeps.bind ?_ fun _ => keeps_pure _
  exact keeps_modify fun _ hw => hw

/-- However the call ends, the top of the stack has been pushed once more. -/
theorem stack_batch (list : List (Option τ)) (action : LambdaFun β) (w : World β) :
    (after (batch api list action) w).stack = pushed w.stack := by
  let Pushed : World β → Prop := fun w' => w'.stack = pushed w.stack
  have hopen : Pushed (after (openBatch api action) { w with sqlSession := none }) :=
    stack_openBatch api action { w with sqlSession := none }
  have hcommit : Pushed (after (upToCommit api list action) { w with sqlSession := none }) :=
    after_bind hopen (keepsStack_runBatch api list)
  refine after_andFinally (P := Pushed) (after_catchException (P := Pushed)
    (after_bind (P := Pushed) hcommit fun _ => ?_) fun t => ?_) ?_
  · exact keepsStack_onSession _ _
  · exact (keepsStack_onSession _ _).bind fun _ => keeps_throw _
  · exact keepsStack_onSession _ _

/-- A call of `batch` leaves the stack as it was if and only if the stack is empty. -/
theorem stack_batch_eq_iff (list : List (Option τ)) (action : LambdaFun β) (w : World β) :
    (after (batch api list action) w).stack = w.stack ↔ w.stack = [] := by
  rw [stack_batch, pushed]
  cases w.stack with
  | nil => simp
  | cons top stack => simp

def batches (calls : List (List (Option τ) × LambdaFun β)) (w : World β) : World β :=
  calls.foldl (fun w call => after (batch api call.1 call.2) w) w

theorem stack_batches (calls : List (List (Option τ) × LambdaFun β)) {w : World β} {top : String}
    {stack : List String} (hw : w.stack = top :: stack) :
    (batches api calls w).stack = List.replicate calls.length top ++ top :: stack := by
  induction calls generalizing w stack with
  | nil => exact hw
  | cons call calls ih =>
      have hpushed : (after (batch api call.1 call.2) w).stack = top :: top :: stack := by
        rw [stack_batch, hw]
        rfl
      rw [batches, List.foldl_cons, ← batches, ih hpushed, List.length_cons,
        List.replicate_succ', List.append_assoc]
      rfl

def reliable : SqlSessionApi Unit String where
  forName name := pure ⟨name⟩
  openSession := pure ()
  getMapper _ := pure 0
  getDeclaredMethod aClass name _ := pure ⟨aClass, name⟩
  invoke _ _ _ := pure ()
  commit := pure ()
  clearCache := pure ()
  rollback := pure ()
  close := pure ()

def insertTest {β : Type} : LambdaFun β where
  writeReplace := pure ⟨"com/hugmount/helloboot/test/mapper/TestMapper", "insertTest"⟩

/-- A call that succeeds, on a thread that works on the data source `slaver`. -/
theorem not_stack_batch_eq_of_slaver :
    (∃ w', batch reliable [some "lhm"] insertTest ⟨["slaver"], none, ()⟩ = .ok () w') ∧
      (after (batch reliable [some "lhm"] insertTest) ⟨["slaver"], none, ()⟩).stack =
        ["slaver", "slaver"] :=
  ⟨⟨_, rfl⟩, rfl⟩

end HelloBoot.SqlSessionFactoryUtil
