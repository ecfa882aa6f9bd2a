import Mathlib.Logic.Function.Iterate
import Mathlib.Logic.Relation
import FluxOs.Lib.Faulting

/-!
# Runs of a machine that may fault

A machine is given by a step function `step : σ → Except ε (ρ × σ)` on states `σ`, which returns a
status `ρ` with the next state or faults.  A run is a sequence of steps that all return; `GuardedRun`
is a run each of whose steps starts in a state satisfying a guard.  An invariant is proved for one
step and then holds along every run.
-/

namespace Faulting

open Relation

variable {σ ε ρ : Type} (step : σ → Except ε (ρ × σ))

/-- One step returns and leads from `s` to `t`. -/
def Steps (s t : σ) : Prop := ∃ r, step s = .ok (r, t)

/-- `t` is reached from `s` by any number of steps. -/
def Run : σ → σ → Prop := ReflTransGen (Steps step)

/-- `t` is reached from `s` by steps that start in states satisfying `guard`. -/
def GuardedRun (guard : σ → Prop) : σ → σ → Prop :=
  ReflTransGen fun s t => guard s ∧ Steps step s t

variable {step} {guard I : σ → Prop} {s t u : σ}

theorem GuardedRun.refl (s : σ) : GuardedRun step guard s s := ReflTransGen.refl

theorem GuardedRun.tail (h : GuardedRun step guard s t) (hg : guard t) {r : ρ}
    (hs : step t = .ok (r, u)) : GuardedRun step guard s u :=
  ReflTransGen.tail h ⟨hg, r, hs⟩

theorem run_iff_guardedRun : Run step s t ↔ GuardedRun step (fun _ => True) s t := by
  simp [Run, GuardedRun]

/-- An invariant of the guarded steps holds along a guarded run. -/
theorem GuardedRun.invariant (h : GuardedRun step guard s t)
    (hstep : ∀ s r t, guard s → I s → step s = .ok (r, t) → I t) (hs : I s) : I t := by
  induction h with
  | refl => exact hs
  | tail _ h ih => exact hstep _ h.2.choose _ h.1 ih h.2.choose_spec

/-- An invariant of the steps holds along a run. -/
theorem Run.invariant (h : Run step s t)
    (hstep : ∀ s r t, I s → step s = .ok (r, t) → I t) (hs : I s) : I t :=
  (run_iff_guardedRun.1 h).invariant (fun s r t _ => hstep s r t) hs

/-! ## Executing a run -/

/-- The state after a step that returns. -/
def next (step : σ → Except ε (ρ × σ)) (s : σ) : σ :=
  match step s with
  | .ok (_, t) => t
  | .error _ => s

/-- `n` steps return, one after the other. -/
def stepsReturn (step : σ → Except ε (ρ × σ)) : Nat → σ → Bool
  | 0, _ => true
  | n + 1, s => (step s).toBool && stepsReturn step n (next step s)

theorem steps_next (h : (step s).toBool = true) : Steps step s (next step s) := by
  unfold next
  cases hs : step s with
  | ok r => exact ⟨r.1, hs⟩
  | error e => rw [hs] at h; cases h

theorem run_of_stepsReturn (n : Nat) (h : stepsReturn step n s = true) :
    Run step s ((next step)^[n] s) := by
  induction n generalizing s with
  | zero => exact ReflTransGen.refl
  | succ n ih =>
    rw [stepsReturn, Bool.and_eq_true] at h
    exact ReflTransGen.head (steps_next h.1) (ih h.2)

end Faulting
