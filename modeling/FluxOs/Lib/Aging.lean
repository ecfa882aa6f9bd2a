import Mathlib.Algebra.Order.Group.Nat
import Mathlib.Data.Nat.Basic

/-!
# Waiting in a queue with aging

A queue hands out the first of its entries of the highest level.  An entry that waits is raised once in a period, and
no entry is raised above the top level.  So it gets to the top, and from there on every entry that is handed out
brings it forward: only a bounded number of others are handed out before it.
-/

namespace FluxOs

/-- Entries rise by `amount` once in a `period` of entries handed out, and from any level to the top in `rises` times.
The queue has room for `capacity` entries. -/
structure Aging where
  period : Nat
  amount : Nat
  rises : Nat
  top : Nat
  capacity : Nat
  period_pos : 0 < period
  top_le : top ≤ amount * rises

namespace Aging

variable (a : Aging)

/-- By then an entry is at the top.  It may have come too late for the first aging. -/
def topTime : Nat := a.period * (a.rises + 1)

/-- Before then an entry is handed out itself. -/
def bound : Nat := a.topTime + a.capacity

/-- How an entry stands after `count` entries have been handed out, counted from the last aging before it came. -/
structure Waits (count place level : Nat) : Prop where
  level_ge : min a.top (a.amount * (count / a.period - 1)) ≤ level
  place_lt : a.topTime ≤ count → place + (count - a.topTime) < a.capacity

namespace Waits

variable {a} {count place place' level level' : Nat}

theorem start (hcount : count < a.period) : a.Waits count place level := by
  refine ⟨?_, fun hle => ?_⟩
  · rw [Nat.div_eq_of_lt hcount]
    exact (Nat.min_le_right ..).trans (Nat.zero_le _)
  · have hperiod : a.period ≤ a.topTime := Nat.le_mul_of_pos_right _ (Nat.succ_pos _)
    omega

/-- The levels after another entry is handed out. -/
theorem level_next (h : a.Waits count place level) (hkept : level ≤ level')
    (hraised : a.period ∣ count + 1 → 2 * a.period ≤ count + 1 → min a.top (level + a.amount) ≤ level') :
    min a.top (a.amount * ((count + 1) / a.period - 1)) ≤ level' := by
  have hlevel := h.level_ge
  by_cases hdue : a.period ∣ count + 1
  · by_cases hfirst : 2 * a.period ≤ count + 1
    · have hone : 1 ≤ count / a.period := by
        rw [Nat.le_div_iff_mul_le a.period_pos]
        have hperiod := a.period_pos
        omega
      have hrise : a.amount * (count / a.period) = a.amount * (count / a.period - 1) + a.amount := by
        rw [← Nat.mul_succ, Nat.succ_eq_add_one, Nat.sub_add_cancel hone]
      have hraised := hraised hdue hfirst
      rw [Nat.succ_div_of_dvd hdue, Nat.add_sub_cancel, hrise]
      omega
    · have hsmall : (count + 1) / a.period < 2 := (Nat.div_lt_iff_lt_mul a.period_pos).2 (Nat.not_le.1 hfirst)
      rw [show (count + 1) / a.period - 1 = 0 by omega]
      exact (Nat.min_le_right ..).trans (Nat.zero_le _)
  · rw [Nat.succ_div_of_not_dvd hdue]
    exact hlevel.trans hkept

/-- Another entry is handed out.  One that is not above the entry stood in front of it. -/
theorem next (h : a.Waits count place level) (hkept : level ≤ level')
    (hraised : a.period ∣ count + 1 → 2 * a.period ≤ count + 1 → min a.top (level + a.amount) ≤ level')
    (hroom : place' < a.capacity) (hforward : a.top ≤ level' → place' < place) :
    a.Waits (count + 1) place' level' := by
  have hlevel := h.level_next hkept hraised
  refine ⟨hlevel, fun hle => ?_⟩
  by_cases hbefore : a.topTime ≤ count
  · have hrises : a.rises + 1 ≤ (count + 1) / a.period := by
      rw [Nat.le_div_iff_mul_le a.period_pos, Nat.mul_comm]
      exact hle
    have htop : a.top ≤ a.amount * ((count + 1) / a.period - 1) :=
      a.top_le.trans (Nat.mul_le_mul_left _ (Nat.le_sub_of_add_le hrises))
    rw [Nat.min_eq_left htop] at hlevel
    have hplace := h.place_lt hbefore
    have hless := hforward hlevel
    omega
  · omega

theorem count_lt (h : a.Waits count place level) : count < a.bound := by
  unfold bound
  by_cases hle : a.topTime ≤ count
  · have hplace := h.place_lt hle
    omega
  · omega

end Waits
end Aging

end FluxOs
