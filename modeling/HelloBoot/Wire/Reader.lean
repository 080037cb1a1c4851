import Mathlib.Data.List.Basic

/-!
# Readers of a stream

A reader takes a part off the front of its input and makes a value of it, or fails. That it
never puts anything back is part of the type, so a loop whose every round begins with a reader
that takes something off ends by itself (`whileSome`).

`Takes r ws a` says that `r` reads the text `ws` as `a` whatever follows it; the lemmas about it
put what a sequence and a loop read together from what their parts read.
-/

namespace Wire

structure Reader (β ε α : Type) where
  run : List β → Except ε (α × List β)
  length_le : ∀ {ws : List β} {a : α} {rest : List β},
    run ws = .ok (a, rest) → rest.length ≤ ws.length

namespace Reader

variable {β ε α γ σ η ι : Type}

instance : Monad (Reader β ε) where
  pure a :=
    { run := fun ws => .ok (a, ws)
      length_le := by
        intro ws a rest h
        cases h
        exact Nat.le_refl _ }
  bind r f :=
    { run := fun ws =>
        match r.run ws with
        | .error e => .error e
        | .ok (a, rest) => (f a).run rest
      length_le := by
        intro ws c rest h
        cases hr : r.run ws with
        | error e =>
            rw [hr] at h
            cases h
        | ok p =>
            rw [hr] at h
            exact Nat.le_trans ((f p.1).length_le h) (r.length_le hr) }

theorem run_bind_of_ok {r : Reader β ε α} {f : α → Reader β ε γ} {ws rest : List β} {a : α}
    (h : r.run ws = .ok (a, rest)) : (r >>= f).run ws = (f a).run rest := by
  change (match r.run ws with
    | .error e => Except.error e
    | .ok (a, rest) => (f a).run rest) = _
  rw [h]

/-- `r` takes something off whenever it does not fail. -/
def Strict (r : Reader β ε α) : Prop :=
  ∀ ⦃ws : List β⦄ ⦃a : α⦄ ⦃rest : List β⦄, r.run ws = .ok (a, rest) → rest.length < ws.length

def take (e : ε) (n : ℕ) : Reader β ε (List β) where
  run ws := if n ≤ ws.length then .ok (ws.take n, ws.drop n) else .error e
  length_le := by
    intro ws a rest h
    split at h
    case isTrue =>
        cases h
        rw [List.length_drop]
        omega
    case isFalse => cases h

/-- What `f` makes of what `r` reads; `e` is raised where it makes nothing of it. -/
def mapOption (e : ε) (f : α → Option γ) (r : Reader β ε α) : Reader β ε γ where
  run ws :=
    match r.run ws with
    | .error e' => .error e'
    | .ok (a, rest) =>
        match f a with
        | none => .error e
        | some c => .ok (c, rest)
  length_le := by
    intro ws c rest h
    cases hr : r.run ws with
    | error e' =>
        rw [hr] at h
        cases h
    | ok p =>
        simp only [hr] at h
        split at h
        · cases h
        · cases h
          exact r.length_le hr

def fail (e : ε) : Reader β ε α where
  run _ := .error e
  length_le := by
    intro ws a rest h
    cases h

theorem Strict.bind {r : Reader β ε α} (h : r.Strict) (f : α → Reader β ε γ) :
    (r >>= f).Strict := by
  intro ws c rest hrun
  cases hr : r.run ws with
  | error e =>
      have : (r >>= f).run ws = .error e := by
        change (match r.run ws with
          | .error e => Except.error e
          | .ok (a, rest) => (f a).run rest) = _
        rw [hr]
      cases this.symm.trans hrun
  | ok p =>
      rw [run_bind_of_ok hr] at hrun
      exact Nat.lt_of_le_of_lt ((f p.1).length_le hrun) (h hr)

theorem strict_take (e : ε) {n : ℕ} (hn : 0 < n) : (take e n : Reader β ε _).Strict := by
  intro ws a rest h
  simp only [take] at h
  split at h
  case isTrue hle =>
      cases h
      rw [List.length_drop]
      omega
  case isFalse => cases h

theorem Strict.mapOption {r : Reader β ε α} (h : r.Strict) (e : ε) (f : α → Option γ) :
    (mapOption e f r).Strict := by
  intro ws c rest hrun
  simp only [Reader.mapOption] at hrun
  cases hr : r.run ws with
  | error e' =>
      rw [hr] at hrun
      cases hrun
  | ok p =>
      simp only [hr] at hrun
      split at hrun
      · cases hrun
      · cases hrun
        exact h hr

section WhileSome

variable (head : Reader β ε η) (hhead : head.Strict) (body : η → σ → Option (Reader β ε σ))

def runWhileSome (s : σ) (ws : List β) : Except ε (σ × List β) :=
  match h : head.run ws with
  | .error e => .error e
  | .ok (a, rest) =>
      match body a s with
      | none => .ok (s, rest)
      | some r =>
          match hr : r.run rest with
          | .error e => .error e
          | .ok (s', rest') =>
              have : rest'.length < ws.length := Nat.lt_of_le_of_lt (r.length_le hr) (hhead h)
              runWhileSome s' rest'
termination_by ws.length

theorem runWhileSome_length_le {s s' : σ} {ws rest : List β}
    (h : runWhileSome head hhead body s ws = .ok (s', rest)) : rest.length ≤ ws.length := by
  fun_induction runWhileSome head hhead body s ws with
  | case1 s ws e hws => cases h
  | case2 s ws a rest' hws hbody =>
      cases h
      exact Nat.le_of_lt (hhead hws)
  | case3 s ws a rest' hws r hbody e hr => cases h
  | case4 s ws a rest' hws r hbody s' rest'' hr hlt ih =>
      exact Nat.le_trans (ih h) (Nat.le_of_lt hlt)

/-- Each round reads with `head` and then with what `body` chooses by it; the loop ends in the
round in which `body` chooses nothing. -/
def whileSome (s : σ) : Reader β ε σ where
  run := runWhileSome head hhead body s
  length_le := runWhileSome_length_le head hhead body

end WhileSome

/-! ### What a reader takes -/

/-- `r` reads `ws` as `a`, whatever follows. -/
def Takes (r : Reader β ε α) (ws : List β) (a : α) : Prop :=
  ∀ rest, r.run (ws ++ rest) = .ok (a, rest)

theorem takes_pure (a : α) : Takes (pure a : Reader β ε α) [] a := fun _ => rfl

section Takes

variable {r : Reader β ε α} {f : α → Reader β ε γ} {ws vs us : List β} {a a' : α} {c : γ}

theorem Takes.bind (hr : Takes r ws a) (hf : Takes (f a) vs c) :
    Takes (r >>= f) (ws ++ vs) c := by
  intro rest
  rw [List.append_assoc, run_bind_of_ok (hr (vs ++ rest))]
  exact hf rest

theorem Takes.map {g : α → γ} (hr : Takes r ws a) :
    Takes (r >>= fun a => pure (g a)) ws (g a) := by
  have h := hr.bind (f := fun a => (pure (g a) : Reader β ε γ)) (takes_pure (g a))
  rwa [List.append_nil] at h

theorem Takes.unique (h : Takes r ws a) (h' : Takes r ws a') : a = a' := by
  have heq := (h []).symm.trans (h' [])
  exact congrArg Prod.fst (Except.ok.inj heq)

theorem takes_take (e : ε) (ws : List β) : Takes (take e ws.length) ws ws := by
  intro rest
  simp [take]

theorem Takes.mapOption {e : ε} {g : α → Option γ} (hr : Takes r ws a) (hg : g a = some c) :
    Takes (mapOption e g r) ws c := by
  intro rest
  simp only [Reader.mapOption, hr rest, hg]

end Takes

section Loop

variable {head : Reader β ε η} {hhead : head.Strict} {body : η → σ → Option (Reader β ε σ)}
  {ws vs us : List β} {a : η} {s s' s'' : σ} {r : Reader β ε σ}

theorem takes_whileSome_stop (hws : Takes head ws a) (hbody : body a s = none) :
    Takes (whileSome head hhead body s) ws s := by
  intro rest
  change runWhileSome head hhead body s (ws ++ rest) = _
  rw [runWhileSome]
  split
  · rename_i e h
    cases (hws rest).symm.trans h
  · rename_i a' rest' h
    cases (hws rest).symm.trans h
    simp only [hbody]

theorem takes_whileSome_round (hws : Takes head ws a) (hbody : body a s = some r)
    (hvs : Takes r vs s') (hus : Takes (whileSome head hhead body s') us s'') :
    Takes (whileSome head hhead body s) (ws ++ vs ++ us) s'' := by
  intro rest
  have hhead' : head.run (ws ++ vs ++ us ++ rest) = .ok (a, vs ++ (us ++ rest)) := by
    rw [List.append_assoc, List.append_assoc]
    exact hws _
  have hr : r.run (vs ++ (us ++ rest)) = .ok (s', us ++ rest) := hvs _
  change runWhileSome head hhead body s (ws ++ vs ++ us ++ rest) = _
  rw [runWhileSome]
  split
  · rename_i e h
    cases hhead'.symm.trans h
  · rename_i a' rest' h
    cases hhead'.symm.trans h
    simp only [hbody]
    split
    · rename_i e h
      cases hr.symm.trans h
    · rename_i s₁ rest₁ h
      cases hr.symm.trans h
      exact hus rest

/-- A loop over the texts of a list of items, closed by a text at which `body` ends it, does
the steps of the items in their order. -/
theorem takes_whileSome {text : ι → List β} {step : σ → ι → σ} {items : List ι}
    (hround : ∀ i ∈ items, ∀ s, ∃ ws vs a r, text i = ws ++ vs ∧ Takes head ws a ∧
      body a s = some r ∧ Takes r vs (step s i))
    (hstop : Takes head us a) (hnone : ∀ s, body a s = none) (s : σ) :
    Takes (whileSome head hhead body s) (items.flatMap text ++ us) (items.foldl step s) := by
  induction items generalizing s with
  | nil => exact takes_whileSome_stop hstop (hnone s)
  | cons i items ih =>
      obtain ⟨hi, hitems⟩ := List.forall_mem_cons.mp hround
      obtain ⟨ws, vs, a', r, htext, hws, hbody, hvs⟩ := hi s
      rw [List.flatMap_cons, htext, List.append_assoc]
      exact takes_whileSome_round hws hbody hvs (ih hitems (step s i))

end Loop

end Reader

end Wire
