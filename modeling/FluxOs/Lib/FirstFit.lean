import Mathlib.Order.Basic
import Mathlib.Order.Nat

/-!
# Search for a run of free places

A scan from `lo` counts the free places in a row behind the last one in use, and stops when they are enough.
-/

namespace FirstFit

variable (free : Nat → Prop)

/-- The `n` places from `a` on are free. -/
def Run (a n : Nat) : Prop := ∀ i, a ≤ i → i < a + n → free i

/-- A scan for `n` places from `lo` on is at `i`, behind `count` free ones. -/
structure Scan (lo n i count : Nat) : Prop where
  bound : lo + count ≤ i
  run : Run free (i - count) count
  none : ∀ a, lo ≤ a → a < i - count → ¬ Run free a n

variable {free} {lo n i count a hi : Nat}

theorem scan_start : Scan free lo n lo 0 where
  bound := Nat.le_refl lo
  run := fun i ha hi => absurd hi (by omega)
  none := fun a ha h => absurd h (by omega)

theorem Scan.take (h : Scan free lo n i count) (hi : free i) : Scan free lo n (i + 1) (count + 1) := by
  have hbound := h.bound
  have hsub : i + 1 - (count + 1) = i - count := by omega
  refine ⟨by omega, fun j hj hlt => ?_, fun a ha hlt => h.none a ha (hsub ▸ hlt)⟩
  rw [hsub] at hj
  by_cases heq : j = i
  · exact heq ▸ hi
  · exact h.run j hj (by omega)

theorem Scan.skip (h : Scan free lo n i count) (hi : ¬ free i) (hcount : count < n) :
    Scan free lo n (i + 1) 0 := by
  have hbound := h.bound
  refine ⟨by omega, fun j hj hlt => absurd hlt (by omega), fun a ha hlt hrun => ?_⟩
  by_cases hearly : a < i - count
  · exact h.none a ha hearly hrun
  · exact hi (hrun i (by omega) (by omega))

/-- A scan that ends without enough places has missed none. -/
theorem Scan.no_run (h : Scan free lo n hi count) (hcount : count < n) (ha : lo ≤ a) (hfit : a + n ≤ hi) :
    ¬ Run free a n := h.none a ha (by omega)

end FirstFit
