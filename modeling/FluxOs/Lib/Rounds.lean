import FluxOs.Lib.Runs
import Mathlib.Data.List.Forall2

/-!
# Repeating rounds until nothing changes

A pass of the form `while (changed) { changed = false; … }`: a round returns the next state with the flag
that says whether it changed anything, or faults.  `rounds_return` is the rule for its termination, and
`Rounds.invariant` the rule for what holds of its result.
-/

namespace Faulting

open Relation

variable {σ ε : Type} (round : σ → Except ε (σ × Bool))

/-- Repeat rounds until one reports no change; `none` when `fuel` rounds do not get there. -/
def rounds : Nat → σ → Option (Except ε σ)
  | 0, _ => none
  | fuel + 1, s =>
    match round s with
    | .error e => some (.error e)
    | .ok (t, changed) => if changed then rounds fuel t else some (.ok t)

/-- The rounds from `s` end with `t`. -/
def RoundsTo (s t : σ) : Prop := ∃ fuel, rounds round fuel s = some (.ok t)

/-- A round from `s` reports a change and leads to `t`. -/
def Changes (s t : σ) : Prop := round s = .ok (t, true)

variable {round} {s t : σ}

/-- The rounds end with `t` exactly when a round that reports no change leads to it. -/
theorem roundsTo_iff :
    RoundsTo round s t ↔ ∃ u, ReflTransGen (Changes round) s u ∧ round u = .ok (t, false) := by
  constructor
  · rintro ⟨fuel, h⟩
    induction fuel generalizing s with
    | zero => cases h
    | succ fuel ih =>
      rw [rounds] at h
      cases hs : round s with
      | error e => rw [hs] at h; cases h
      | ok r =>
        obtain ⟨s', changed⟩ := r
        rw [hs] at h
        cases changed with
        | false =>
          cases h
          exact ⟨s, ReflTransGen.refl, hs⟩
        | true =>
          obtain ⟨u, hu, ht⟩ := ih h
          exact ⟨u, ReflTransGen.head hs hu, ht⟩
  · rintro ⟨u, hu, ht⟩
    induction hu using ReflTransGen.head_induction_on with
    | refl => exact ⟨1, by rw [rounds, ht]; rfl⟩
    | head h _ ih =>
      obtain ⟨fuel, hfuel⟩ := ih
      refine ⟨fuel + 1, ?_⟩
      rw [rounds, h]
      exact hfuel

/-- More rounds do not change the result. -/
theorem rounds_mono {r : Except ε σ} {m n : Nat} (hle : m ≤ n) (h : rounds round m s = some r) :
    rounds round n s = some r := by
  induction m generalizing n s with
  | zero => cases h
  | succ m ih =>
    obtain ⟨n, rfl⟩ : ∃ k, n = k + 1 := ⟨n - 1, by omega⟩
    rw [rounds] at h ⊢
    cases hs : round s with
    | error e =>
      rw [hs] at h
      exact h
    | ok t =>
      obtain ⟨t, changed⟩ := t
      rw [hs] at h
      cases changed with
      | false => exact h
      | true => exact ih (Nat.le_of_succ_le_succ hle) h

/-- What every element needs some fuel for, all elements get with enough fuel. -/
theorem exists_forall₂_of_mono {α β : Type} {R : Nat → α → β → Prop} {l : List α}
    (hmono : ∀ {m n : Nat}, m ≤ n → ∀ a b, R m a b → R n a b) (h : ∀ a ∈ l, ∃ fuel b, R fuel a b) :
    ∃ fuel l', List.Forall₂ (R fuel) l l' := by
  induction l with
  | nil => exact ⟨0, [], .nil⟩
  | cons a l ih =>
    obtain ⟨m, b, hb⟩ := h a List.mem_cons_self
    obtain ⟨n, l', hl⟩ := ih fun a ha => h a (List.mem_cons_of_mem _ ha)
    refine ⟨max m n, b :: l', .cons (hmono (Nat.le_max_left m n) a b hb) ?_⟩
    exact hl.imp fun a b h => hmono (Nat.le_max_right m n) a b h

/-- Rounds that go through the stages `P 0`, `P 1`, … and report a change in the first `K` stages only
end. -/
theorem rounds_return {P : Nat → σ → Prop} {K : Nat}
    (hround : ∀ k s, P k s → ∃ t changed, round s = .ok (t, changed) ∧
      (changed = true → k < K ∧ P (k + 1) t))
    (hs : P 0 s) : ∃ t, RoundsTo round s t := by
  have h (n : Nat) : ∀ k s, k + n = K → P k s → ∃ t, RoundsTo round s t := by
    induction n with
    | zero =>
      intro k s hk hP
      obtain ⟨t, changed, ht, hchanged⟩ := hround k s hP
      cases changed with
      | false => exact ⟨t, roundsTo_iff.2 ⟨s, ReflTransGen.refl, ht⟩⟩
      | true =>
        have := (hchanged rfl).1
        omega
    | succ n ih =>
      intro k s hk hP
      obtain ⟨t, changed, ht, hchanged⟩ := hround k s hP
      cases changed with
      | false => exact ⟨t, roundsTo_iff.2 ⟨s, ReflTransGen.refl, ht⟩⟩
      | true =>
        obtain ⟨u, hu⟩ := ih (k + 1) t (by omega) (hchanged rfl).2
        obtain ⟨v, hv, hend⟩ := roundsTo_iff.1 hu
        exact ⟨u, roundsTo_iff.2 ⟨v, ReflTransGen.head ht hv, hend⟩⟩
  exact h K 0 s (by omega) hs

/-- Rounds that cannot fault, and decrease a measure when they report a change, end with as many rounds
as the measure says. -/
theorem rounds_of_measure (m : σ → Nat)
    (hround : ∀ s, ∃ t changed, round s = .ok (t, changed) ∧ (changed = true → m t < m s)) :
    ∃ t, ∀ fuel > m s, rounds round fuel s = some (.ok t) := by
  have h (k : Nat) : ∀ s, m s ≤ k → ∃ t, ∀ fuel > k, rounds round fuel s = some (.ok t) := by
    induction k with
    | zero =>
      intro s hs
      obtain ⟨t, changed, ht, hchanged⟩ := hround s
      cases changed with
      | true =>
        have := hchanged rfl
        omega
      | false =>
        refine ⟨t, fun fuel hfuel => ?_⟩
        obtain ⟨n, rfl⟩ := Nat.exists_eq_add_of_lt hfuel
        rw [rounds, ht]
        rfl
    | succ k ih =>
      intro s hs
      obtain ⟨t, changed, ht, hchanged⟩ := hround s
      cases changed with
      | true =>
        have := hchanged rfl
        obtain ⟨u, hu⟩ := ih t (by omega)
        refine ⟨u, fun fuel hfuel => ?_⟩
        obtain ⟨n, rfl⟩ : ∃ n, fuel = n + 1 := ⟨fuel - 1, by omega⟩
        rw [rounds, ht]
        exact hu n (by omega)
      | false =>
        refine ⟨t, fun fuel hfuel => ?_⟩
        obtain ⟨n, rfl⟩ : ∃ n, fuel = n + 1 := ⟨fuel - 1, by omega⟩
        rw [rounds, ht]
        rfl
  exact h (m s) s (Nat.le_refl _)

/-- Rounds that all report a change never end. -/
theorem not_roundsTo {I : σ → Prop} (hround : ∀ s, I s → ∃ t, round s = .ok (t, true) ∧ I t)
    (hs : I s) : ¬ RoundsTo round s t := by
  rintro ⟨fuel, h⟩
  induction fuel generalizing s with
  | zero => cases h
  | succ fuel ih =>
    obtain ⟨u, hu, hI⟩ := hround s hs
    rw [rounds, hu] at h
    exact ih hI h

/-- An invariant of the rounds holds of the result. -/
theorem RoundsTo.invariant {I : σ → Prop} (h : RoundsTo round s t)
    (hround : ∀ s t changed, I s → round s = .ok (t, changed) → I t) (hs : I s) : I t := by
  obtain ⟨u, hu, ht⟩ := roundsTo_iff.1 h
  refine hround u t false ?_ ht
  clear ht
  induction hu with
  | refl => exact hs
  | tail _ h ih => exact hround _ _ true ih h

end Faulting
