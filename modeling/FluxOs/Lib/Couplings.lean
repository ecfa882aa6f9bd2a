import FluxOs.Lib.Loops
import Mathlib.Data.Option.Basic

/-!
# Computations in step

`Follows f x y` says that `y` does what `x` does, with `f` applied to the result, and faults where `x`
faults.  The rules follow the structure of a program, as those of `Ensures` do, and compare a program
on a state with the same program on a changed state.  `InStep R x y` says the same of results that a
relation connects.
-/

namespace Faulting

variable {ε α α' β β' : Type}

/-- The result of `y` is `f` of the result of `x`, or both end with the same fault. -/
def Follows (f : α → α') (x : Except ε α) (y : Except ε α') : Prop := y = f <$> x

variable {f : α → α'} {g : β → β'} {x : Except ε α} {y : Except ε α'} {k : α → Except ε β}
  {k' : α' → Except ε β'}

/-- The two computations are the same. -/
theorem follows_same (x : Except ε α) : Follows (fun a => a) x x := by
  cases x <;> rfl

theorem Follows.of_ok (h : Follows f x y) {a : α} (hx : x = .ok a) : y = .ok (f a) := by
  rw [h, hx]
  rfl

theorem Follows.of_error (h : Follows f x y) {e : ε} (hx : x = .error e) : y = .error e := by
  rw [h, hx]
  rfl

/-- The rule of sequential composition. -/
theorem Follows.bind (hx : Follows f x y) (hk : ∀ a, Follows g (k a) (k' (f a))) :
    Follows g (x >>= k) (y >>= k') := by
  cases x with
  | ok a =>
    rw [hx.of_ok rfl]
    exact hk a
  | error e =>
    rw [hx.of_error rfl]
    rfl

/-- The rule for a value that both read. -/
theorem Follows.read {x : Except ε α} {k : α → Except ε β} {k' : α → Except ε β'}
    (hk : ∀ a, Follows g (k a) (k' a)) : Follows g (x >>= k) (x >>= k') :=
  (follows_same x).bind hk

/-- The rule for a condition that both test. -/
theorem follows_ite {c : Prop} [Decidable c] {x₁ x₂ : Except ε α} {y₁ y₂ : Except ε α'}
    (h₁ : c → Follows f x₁ y₁) (h₂ : ¬ c → Follows f x₂ y₂) :
    Follows f (if c then x₁ else x₂) (if c then y₁ else y₂) := by
  by_cases h : c
  · rw [if_pos h, if_pos h]
    exact h₁ h
  · rw [if_neg h, if_neg h]
    exact h₂ h

/-! ## Computations with related results -/

/-- Both computations end with results that `R` relates, or both with the same fault. -/
def InStep (R : α → α' → Prop) : Except ε α → Except ε α' → Prop
  | .ok a, .ok a' => R a a'
  | .error e, .error e' => e = e'
  | _, _ => False

variable {R : α → α' → Prop} {S : β → β' → Prop}

theorem inStep_same (x : Except ε α) : InStep (fun a a' => a' = a) x x := by
  cases x <;> rfl

theorem InStep.of_ok (h : InStep R x y) {a : α} (hx : x = .ok a) : ∃ a', y = .ok a' ∧ R a a' := by
  subst hx
  cases y with
  | ok a' => exact ⟨a', rfl, h⟩
  | error e => exact h.elim

theorem InStep.mono {R' : α → α' → Prop} (h : InStep R x y) (hR : ∀ a a', R a a' → R' a a') : InStep R' x y := by
  cases x <;> cases y <;> first | exact h.elim | exact h | exact hR _ _ h

/-- The rule of sequential composition. -/
theorem InStep.bind (hx : InStep R x y) (hk : ∀ a a', R a a' → InStep S (k a) (k' a')) :
    InStep S (x >>= k) (y >>= k') := by
  cases x <;> cases y <;> first | exact hx.elim | exact hx | exact hk _ _ hx

/-- The rule for a condition that both test. -/
theorem inStep_ite {c : Prop} [Decidable c] {x₁ x₂ : Except ε α} {y₁ y₂ : Except ε α'}
    (h₁ : c → InStep R x₁ y₁) (h₂ : ¬ c → InStep R x₂ y₂) :
    InStep R (if c then x₁ else x₂) (if c then y₁ else y₂) := by
  by_cases h : c
  · rw [if_pos h, if_pos h]
    exact h₁ h
  · rw [if_neg h, if_neg h]
    exact h₂ h

/-- The rule of the loop: the bodies keep the states related and leave the loops together. -/
theorem inStep_loop {step : α → Except ε (Option α)} {step' : α' → Except ε (Option α')} {diverged : ε}
    (hstep : ∀ a a', R a a' → InStep (Option.Rel R) (step a) (step' a')) {fuel : Nat} {a : α} {a' : α'}
    (ha : R a a') :
    InStep R (loop step diverged fuel a) (loop step' diverged fuel a') := by
  induction fuel generalizing a a' with
  | zero => rfl
  | succ fuel ih =>
    refine (hstep a a' ha).bind fun next next' hnext => ?_
    cases hnext with
    | none => exact ha
    | some hnext => exact ih hnext

end Faulting
