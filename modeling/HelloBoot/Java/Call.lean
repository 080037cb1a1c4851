import HelloBoot.Java.Throwable

/-!
# Calls that change objects

A `Call σ α` runs on objects with the state `σ`. It returns a value, throws, or has
not come back because it sleeps; either way the objects keep what was done to them
before. The lemmas compute a sequence of calls from the results of its parts.
-/

namespace HelloBoot

/-- Why a call has not returned: it threw, or it sleeps on. -/
inductive Stop where
  | threw (t : Throwable)
  | asleep
  deriving DecidableEq

abbrev Call (σ : Type) := EStateM Stop σ

namespace Call

variable {σ τ α γ : Type}

/-- `try { x } catch (IOException e) { e.printStackTrace(); }`. -/
def catchIOException (x : Call σ Unit) : Call σ Unit := fun s =>
  match x s with
  | .error (.threw t) s' => if t.isIOException then .ok () s' else .error (.threw t) s'
  | r => r

/-- What `catch (Exception e) { throw new RuntimeException(e); }` makes of a throwable. -/
def wrap (t : Throwable) : Throwable := if t.isException then .runtime t else t

/-- `try { x } catch (Exception e) { throw new RuntimeException(e); }`. -/
def wrapException (x : EStateM Throwable σ α) : EStateM Throwable σ α := fun s =>
  match x s with
  | .error t s' => .error (wrap t) s'
  | r => r

/-- A method of another object that is part of the state, with what is thrown mapped
by `f`. -/
def onPart (get : σ → τ) (set : τ → σ → σ) (f : Throwable → Throwable)
    (x : EStateM Throwable τ α) : Call σ α := fun s =>
  match x (get s) with
  | .ok a t => .ok a (set t s)
  | .error e t => .error (.threw (f e)) (set t s)

def ofExcept {ε : Type} (x : Except ε α) : EStateM ε σ α := fun s =>
  match x with
  | .ok a => .ok a s
  | .error t => .error t s

/-- What the objects are when `x` has returned or thrown. -/
def after {ε : Type} (x : EStateM ε σ α) (s : σ) : σ :=
  match x s with
  | .ok _ s' | .error _ s' => s'

/-- `try { x } catch (Exception e) { handler }`. -/
def catchException (x : EStateM Throwable σ α) (handler : Throwable → EStateM Throwable σ α) :
    EStateM Throwable σ α := fun s =>
  match x s with
  | .error t s' => if t.isException then handler t s' else .error t s'
  | r => r

/-- `try { x } finally { last }`: what `last` throws takes the place of the outcome. -/
def andFinally (x : EStateM Throwable σ α) (last : EStateM Throwable σ Unit) :
    EStateM Throwable σ α := fun s =>
  match x s with
  | .ok a s' =>
      match last s' with
      | .ok _ s'' => .ok a s''
      | .error t s'' => .error t s''
  | .error e s' =>
      match last s' with
      | .ok _ s'' => .error e s''
      | .error t s'' => .error t s''

theorem bind_of_ok {ε : Type} {x : EStateM ε σ α} {f : α → EStateM ε σ γ} {s s' : σ} {a : α}
    (h : x s = .ok a s') : (x >>= f) s = f a s' := by
  change EStateM.bind x f s = _
  rw [EStateM.bind, h]

theorem bind_of_error {ε : Type} {x : EStateM ε σ α} {f : α → EStateM ε σ γ} {s s' : σ} {e : ε}
    (h : x s = .error e s') : (x >>= f) s = .error e s' := by
  change EStateM.bind x f s = _
  rw [EStateM.bind, h]

theorem exists_of_bind_eq_ok {ε : Type} {x : EStateM ε σ α} {f : α → EStateM ε σ γ} {s s'' : σ}
    {c : γ} (h : (x >>= f) s = .ok c s'') : ∃ a s', x s = .ok a s' ∧ f a s' = .ok c s'' := by
  cases hx : x s with
  | ok a s' => exact ⟨a, s', rfl, (bind_of_ok hx).symm.trans h⟩
  | error e s' => cases (bind_of_error hx).symm.trans h

theorem catchException_of_error {x : EStateM Throwable σ α}
    {handler : Throwable → EStateM Throwable σ α} {s s' : σ} {t : Throwable}
    (h : x s = .error t s') :
    catchException x handler s = if t.isException then handler t s' else .error t s' := by
  rw [catchException, h]

theorem andFinally_congr {x y : EStateM Throwable σ α} {last : EStateM Throwable σ Unit}
    {s s' : σ} (h : x s = y s') : andFinally x last s = andFinally y last s' := by
  rw [andFinally, andFinally, h]

theorem andFinally_of_error {x : EStateM Throwable σ α} {last : EStateM Throwable σ Unit}
    {s s' s'' : σ} {t : Throwable} (h : x s = .error t s') (hlast : last s' = .ok () s'') :
    andFinally x last s = .error t s'' := by
  simp only [andFinally, h, hlast]

/-- What `last` throws takes the place of the outcome. -/
theorem andFinally_of_last_error {x : EStateM Throwable σ α} {last : EStateM Throwable σ Unit}
    {s s'' : σ} {t : Throwable} (hlast : last (after x s) = .error t s'') :
    andFinally x last s = .error t s'' := by
  rw [after] at hlast
  rw [andFinally]
  cases h : x s <;> rw [h] at hlast <;> simp only [hlast]

section Keeps

variable {ε : Type} {P : σ → Prop} {x : EStateM ε σ α} {f : α → EStateM ε σ γ}

/-- If `P` holds of the objects before `x`, then also when `x` has returned or thrown. -/
def Keeps (P : σ → Prop) (x : EStateM ε σ α) : Prop := ∀ s, P s → P (after x s)

theorem after_bind_of_ok {s s' : σ} {a : α} (h : x s = .ok a s') :
    after (x >>= f) s = after (f a) s' := by
  rw [after, bind_of_ok h, after]

theorem after_bind_of_error {s s' : σ} {e : ε} (h : x s = .error e s') :
    after (x >>= f) s = s' := by
  rw [after, bind_of_error h]

theorem after_wrapException (x : EStateM Throwable σ α) (s : σ) :
    after (wrapException x) s = after x s := by
  rw [after, after, wrapException]
  cases x s <;> rfl

/-- What `f` keeps holds after the sequence if it holds after the first part. -/
theorem after_bind {s : σ} (hx : P (after x s)) (hf : ∀ a, Keeps P (f a)) :
    P (after (x >>= f) s) := by
  rw [after] at hx
  cases h : x s with
  | ok a s' =>
      rw [h] at hx
      exact after_bind_of_ok h ▸ hf a s' hx
  | error e s' =>
      rw [h] at hx
      exact after_bind_of_error h ▸ hx

theorem Keeps.bind (hx : Keeps P x) (hf : ∀ a, Keeps P (f a)) : Keeps P (x >>= f) :=
  fun s hs => after_bind (hx s hs) hf

theorem keeps_pure (a : α) : Keeps P (pure a : EStateM ε σ α) := fun _ hs => hs

theorem keeps_throw (e : ε) : Keeps P (throw e : EStateM ε σ α) := fun _ hs => hs

theorem keeps_ofExcept (e : Except ε α) : Keeps P (ofExcept e) := by
  intro s hs
  cases e <;> exact hs

theorem keeps_ofExcept_bind {e : Except ε α} (h : ∀ a, e = .ok a → Keeps P (f a)) :
    Keeps P (ofExcept e >>= f) := by
  intro s hs
  cases e with
  | ok a => exact h a rfl s hs
  | error t => exact hs

theorem keeps_forM {β : Type} {l : List β} {f : β → EStateM ε σ PUnit}
    (h : ∀ b ∈ l, Keeps P (f b)) : Keeps P (l.forM f) := by
  induction l with
  | nil => exact keeps_pure PUnit.unit
  | cons b l ih =>
      obtain ⟨hb, hl⟩ := List.forall_mem_cons.mp h
      exact hb.bind fun _ => ih hl

theorem keeps_modify {g : σ → σ} (h : ∀ s, P s → P (g s)) :
    Keeps P (modify g : EStateM ε σ PUnit) := h

theorem after_catchException {x : EStateM Throwable σ α}
    {handler : Throwable → EStateM Throwable σ α} {s : σ} (hx : P (after x s))
    (hhandler : ∀ t, Keeps P (handler t)) : P (after (catchException x handler) s) := by
  rw [after] at hx ⊢
  rw [catchException]
  cases h : x s with
  | ok a s' =>
      rw [h] at hx
      exact hx
  | error t s' =>
      rw [h] at hx
      cases ht : t.isException with
      | true =>
          simp only [ht, if_true]
          exact hhandler t s' hx
      | false =>
          simp only [ht, Bool.false_eq_true, if_false]
          exact hx

theorem after_andFinally {x : EStateM Throwable σ α} {last : EStateM Throwable σ Unit} {s : σ}
    (hx : P (after x s)) (hlast : Keeps P last) : P (after (andFinally x last) s) := by
  rw [after] at hx ⊢
  rw [andFinally]
  cases h : x s with
  | ok a s' | error t s' =>
      rw [h] at hx
      have hend := hlast s' hx
      rw [after] at hend
      simp only
      cases hl : last s' <;> rw [hl] at hend <;> exact hend

end Keeps

section Ends

variable {ε : Type} {P Q R E : σ → Prop} {x : EStateM ε σ α} {f : α → EStateM ε σ γ}

/-- From objects with `P`, `x` returns and leaves objects with `Q`, or throws and leaves
objects with `E`. -/
def Ends (P Q E : σ → Prop) (x : EStateM ε σ α) : Prop := ∀ s, P s →
  match x s with
  | .ok _ s' => Q s'
  | .error _ s' => E s'

theorem Keeps.ends (hx : Keeps P x) : Ends P P P x := by
  intro s hs
  have hend := hx s hs
  rw [after] at hend
  cases h : x s <;> rw [h] at hend <;> exact hend

theorem Ends.bind (hx : Ends P Q E x) (hf : ∀ a, Ends Q R E (f a)) : Ends P R E (x >>= f) := by
  intro s hs
  have hend := hx s hs
  cases h : x s with
  | ok a s' =>
      rw [h] at hend
      rw [bind_of_ok h]
      exact hf a s' hend
  | error e s' =>
      rw [h] at hend
      rw [bind_of_error h]
      exact hend

theorem Ends.of_ok (hx : Ends P Q E x) {s s' : σ} {a : α} (hs : P s) (h : x s = .ok a s') :
    Q s' := by
  have hend := hx s hs
  rwa [h] at hend

theorem Ends.of_error (hx : Ends P Q E x) {s s' : σ} {e : ε} (hs : P s)
    (h : x s = .error e s') : E s' := by
  have hend := hx s hs
  rwa [h] at hend

end Ends

end Call

end HelloBoot
