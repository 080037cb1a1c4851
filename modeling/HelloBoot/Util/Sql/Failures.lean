import HelloBoot.Util.Sql.ContextStack

/-!
# Failures of `batch`

The `catch` clause and the `finally` clause of `batch` work on a session that is null as
long as `openSession` has not returned. Both then raise a `NullPointerException` that
takes the place of the failure (`batch_of_null`). A failure behind the opening is rolled
back, closed and reported with its cause if it is an `Exception` and the two calls return
(`failsCleanly_iff`).
-/

namespace HelloBoot.SqlSessionFactoryUtil

open Call

variable {β τ α : Type}

/-- What the session went through when `sqlSession` holds `session`. -/
abbrev Session (session : Option (List SessionCall)) (w : World β) : Prop :=
  w.sqlSession = session

theorem offEnv_session (session : Option (List SessionCall)) : OffEnv (β := β) (Session session) :=
  fun _ _ hw => hw

theorem keepsSession_pushPeek {session : Option (List SessionCall)} :
    Keeps (Session session) (pushPeek : EStateM Throwable (World β) Unit) := by
  intro w hw
  rw [after, pushPeek_eq]
  exact hw

theorem onSession_of_ok {call : SessionCall} {x : EStateM Throwable β Unit} {w : World β}
    {calls : List SessionCall} {env : β} (hcalls : w.sqlSession = some calls)
    (h : x w.env = .ok () env) :
    onSession call x w = .ok () { w with sqlSession := some (calls ++ [call]), env := env } := by
  simp only [onSession, hcalls, h]

theorem onSession_of_error {call : SessionCall} {x : EStateM Throwable β Unit} {w : World β}
    {calls : List SessionCall} {t : Throwable} {env : β} (hcalls : w.sqlSession = some calls)
    (h : x w.env = .error t env) : onSession call x w = .error t { w with env := env } := by
  simp only [onSession, hcalls, h]

theorem ends_onSession {calls : List SessionCall} (call : SessionCall)
    (x : EStateM Throwable β Unit) :
    Ends (Session (some calls)) (Session (some (calls ++ [call]))) (Session (some calls))
      (onSession call x) := by
  intro w hw
  cases h : x w.env with
  | ok _ env => rw [onSession_of_ok hw h]
  | error t env =>
      rw [onSession_of_error hw h]
      exact hw

variable (api : SqlSessionApi β τ)

/-- `sqlSession` is null when `openBatch` throws, and a session without calls when it
returns. -/
theorem ends_openBatch (action : LambdaFun β) :
    Ends (Session none) (Session (some [])) (Session none) (openBatch api action) := by
  have hcall : ∀ {γ : Type} (x : EStateM Throwable β γ), Keeps (Session none) (inEnv x) :=
    (offEnv_session none).keeps_inEnv
  refine keepsSession_pushPeek.ends.bind fun _ => (hcall _).ends.bind fun _ => ?_
  refine (hcall _).ends.bind fun _ => (hcall _).ends.bind fun _ => ?_
  refine (hcall _).ends.bind fun _ => ?_
  intro w _
  rfl

theorem ends_runBatch (list : List (Option τ)) (opened : Class × String) :
    Ends (Session (some [])) (Session (some [.commit])) (Session (some []))
      (runBatch api list opened) := by
  have hkeeps : OffEnv (β := β) (Session (some [])) := offEnv_session _
  refine (hkeeps.keeps_inEnv _).ends.bind fun mapper => ?_
  refine (keeps_forM fun item _ => hkeeps.keeps_batchItem api opened mapper item).ends.bind ?_
  exact fun _ => ends_onSession _ _

variable {api} {list : List (Option τ)} {action : LambdaFun β} {w w₁ : World β} {t : Throwable}

def Opens (api : SqlSessionApi β τ) (action : LambdaFun β) (w : World β) : Prop :=
  ∃ opened w', openBatch api action { w with sqlSession := none } = .ok opened w'

/-- Whether the failing step comes behind the opening shows in `sqlSession`. -/
theorem session_of_upToCommit_error
    (h : upToCommit api list action { w with sqlSession := none } = .error t w₁) :
    Opens api action w ∧ w₁.sqlSession = some [] ∨
      ¬Opens api action w ∧ w₁.sqlSession = none := by
  cases hopen : openBatch api action { w with sqlSession := none } with
  | ok opened w' =>
      have hw' : w'.sqlSession = some [] := (ends_openBatch api action).of_ok rfl hopen
      rw [upToCommit, bind_of_ok hopen] at h
      exact .inl ⟨⟨opened, w', hopen⟩, (ends_runBatch api list opened).of_error hw' h⟩
  | error e w' =>
      have hw' : w'.sqlSession = none := (ends_openBatch api action).of_error rfl hopen
      rw [upToCommit, bind_of_error hopen] at h
      injection h with _ hw
      refine .inr ⟨?_, hw ▸ hw'⟩
      rintro ⟨opened, w'', hok⟩
      rw [hopen] at hok
      cases hok

/-- The `catch` clause of `batch` on the failure `t`, if it is an `Exception`. -/
def rescue (api : SqlSessionApi β τ) (t : Throwable) : EStateM Throwable (World β) Unit := do
  if t.isException then
    onSession .rollback api.rollback
    throw (.runtime t)
  else
    throw t

theorem batch_of_error
    (h : upToCommit api list action { w with sqlSession := none } = .error t w₁) :
    batch api list action w = andFinally (rescue api t) (onSession .close api.close) w₁ := by
  change andFinally _ _ { w with sqlSession := none } = _
  refine andFinally_congr ?_
  rw [catchException_of_error (bind_of_error h), rescue]
  cases ht : t.isException <;> rfl

/-- A failure while `sqlSession` is null comes out as a `NullPointerException`. -/
theorem batch_of_null
    (h : upToCommit api list action { w with sqlSession := none } = .error t w₁)
    (hnull : w₁.sqlSession = none) : batch api list action w = .error .nullPointer w₁ := by
  have hcall : ∀ call x, onSession call x w₁ = .error .nullPointer w₁ := by
    intro call x
    rw [onSession, hnull]
  have hafter : after (rescue api t) w₁ = w₁ := by
    rw [after, rescue]
    cases ht : t.isException with
    | true => rw [if_pos rfl, bind_of_error (hcall _ _)]
    | false => rfl
  rw [batch_of_error h]
  refine andFinally_of_last_error ?_
  rw [hafter, hcall]

/-- `batch` has raised a `RuntimeException` with the cause `t`; nothing is committed, and a
session that was opened has been rolled back and closed once. -/
def FailsCleanly (t : Throwable) : EStateM.Result Throwable (World β) Unit → Prop
  | .ok _ _ => False
  | .error e w' => e = .runtime t ∧ ∀ calls, w'.sqlSession = some calls →
      calls.count .commit = 0 ∧ calls.count .rollback = 1 ∧ calls.count .close = 1

/-- Closing a session completes a clean failure if the rest has been done before. -/
theorem failsCleanly_close_iff {x : EStateM Throwable (World β) Unit} {e : Throwable}
    {w₂ : World β} {calls : List SessionCall} (hx : x w₁ = .error e w₂)
    (hcalls : w₂.sqlSession = some calls) (hclose : calls.count .close = 0) :
    FailsCleanly t (andFinally x (onSession .close api.close) w₁) ↔
      (e = .runtime t ∧ calls.count .commit = 0 ∧ calls.count .rollback = 1) ∧
        ∃ env, api.close w₂.env = .ok () env := by
  cases hc : api.close w₂.env with
  | ok _ env =>
      rw [andFinally_of_error hx (onSession_of_ok hcalls hc), FailsCleanly]
      simp [List.count_append, hclose]
  | error c env =>
      have hlast : onSession .close api.close (after x w₁) = .error c { w₂ with env := env } := by
        rw [after, hx]
        exact onSession_of_error hcalls hc
      rw [andFinally_of_last_error hlast, FailsCleanly]
      simp [hcalls, hclose]

def Releases (api : SqlSessionApi β τ) (env : β) : Prop :=
  ∃ env' env'', api.rollback env = .ok () env' ∧ api.close env' = .ok () env''

theorem failsCleanly_rescue_iff (hopened : w₁.sqlSession = some []) :
    FailsCleanly t (andFinally (rescue api t) (onSession .close api.close) w₁) ↔
      t.isException ∧ Releases api w₁.env := by
  cases ht : t.isException with
  | false =>
      have hthrow : rescue api t w₁ = .error t w₁ := by
        rw [rescue, ht]
        rfl
      rw [failsCleanly_close_iff hthrow hopened rfl]
      simp
  | true =>
      cases hr : api.rollback w₁.env with
      | error e env =>
          have hthrow : rescue api t w₁ = .error e { w₁ with env := env } := by
            rw [rescue, if_pos ht]
            exact bind_of_error (onSession_of_error hopened hr)
          rw [failsCleanly_close_iff hthrow hopened rfl]
          simp [Releases, hr]
      | ok _ env =>
          have hthrow : rescue api t w₁ =
              .error (.runtime t) { w₁ with sqlSession := some [.rollback], env := env } := by
            rw [rescue, if_pos ht]
            exact bind_of_ok (onSession_of_ok hopened hr)
          rw [failsCleanly_close_iff hthrow rfl rfl]
          simp [Releases, hr]

/-- A failure of `batch` up to the commit is clean if and only if it comes behind the
opening of the session, is an `Exception`, and the session can be released. -/
theorem failsCleanly_iff
    (h : upToCommit api list action { w with sqlSession := none } = .error t w₁) :
    FailsCleanly t (batch api list action w) ↔
      Opens api action w ∧ t.isException ∧ Releases api w₁.env := by
  obtain ⟨hopens, hopened⟩ | ⟨hopens, hnull⟩ := session_of_upToCommit_error h
  · rw [batch_of_error h, failsCleanly_rescue_iff hopened]
    exact (and_iff_right hopens).symm
  · rw [batch_of_null h hnull, FailsCleanly]
    simp [hopens]

/-- An environment in which only the first item can be inserted. -/
def duplicateKey : SqlSessionApi ℕ String where
  forName name := pure ⟨name⟩
  openSession := pure ()
  getMapper _ := pure 0
  getDeclaredMethod aClass name _ := pure ⟨aClass, name⟩
  invoke _ _ _ := do
    if (← get) = 1 then throw .unchecked
    modify (· + 1)
  commit := pure ()
  clearCache := pure ()
  rollback := pure ()
  close := pure ()

theorem failsCleanly_iff_of_duplicateKey :
    FailsCleanly .unchecked
        (batch duplicateKey [some "lhm", some "lhm"] insertTest ⟨[], none, 0⟩) ↔
      Opens duplicateKey insertTest ⟨[], none, 0⟩ ∧ Throwable.unchecked.isException ∧
        Releases duplicateKey 1 := by
  have hfails : upToCommit duplicateKey [some "lhm", some "lhm"] insertTest ⟨[], none, 0⟩ =
      .error .unchecked ⟨[], some [], 1⟩ := rfl
  exact failsCleanly_iff (w := ⟨[], none, 0⟩) hfails

def unreachable : SqlSessionApi Unit String :=
  { reliable with openSession := throw .unchecked }

/-- The failure of `openSession` is masked. -/
theorem not_failsCleanly_of_openSession :
    ∃ w₁, upToCommit unreachable [some "lhm"] insertTest ⟨[], none, ()⟩ = .error .unchecked w₁ ∧
      batch unreachable [some "lhm"] insertTest ⟨[], none, ()⟩ = .error .nullPointer w₁ ∧
      ¬FailsCleanly .unchecked (batch unreachable [some "lhm"] insertTest ⟨[], none, ()⟩) :=
  ⟨_, rfl, rfl, fun h => nomatch h.1⟩

end HelloBoot.SqlSessionFactoryUtil
