import FluxOs.Lib.Rounds
import Mathlib.Data.List.Basic

/-!
# One round as a sweep over a list

The body of a round visits the elements of a list in order, with `foldlM`.  The rules give what holds
after a sweep from what one visit does, the moment at which an element is visited, and, for a state with
a change flag, the first visit that changes something.
-/

namespace Faulting

variable {σ ε α β : Type}

section Sweeps

variable {step : σ → α → Except ε σ} {l : List α} {s t : σ} {a : α}

theorem sweep_cons :
    (a :: l).foldlM step s = .ok t ↔ ∃ u, step s a = .ok u ∧ l.foldlM step u = .ok t := by
  rw [List.foldlM_cons]
  constructor
  · intro h
    cases hu : step s a with
    | error e => rw [hu] at h; cases h
    | ok u => exact ⟨u, rfl, by rw [hu] at h; exact h⟩
  · rintro ⟨u, hu, h⟩
    rw [hu]
    exact h

/-- A reflexive and transitive relation that holds over one visit holds over the sweep. -/
theorem sweep_rel {R : σ → σ → Prop} (hrefl : ∀ s, R s s) (htrans : ∀ s t u, R s t → R t u → R s u)
    (hstep : ∀ s a t, step s a = .ok t → R s t) (h : l.foldlM step s = .ok t) : R s t := by
  induction l generalizing s with
  | nil =>
    cases h
    exact hrefl _
  | cons a l ih =>
    obtain ⟨u, hu, h⟩ := sweep_cons.1 h
    exact htrans s u t (hstep s a u hu) (ih h)

/-- What every visit preserves holds after the sweep. -/
theorem sweep_invariant {I : σ → Prop} (hstep : ∀ s a t, a ∈ l → I s → step s a = .ok t → I t)
    (hs : I s) (h : l.foldlM step s = .ok t) : I t := by
  induction l generalizing s with
  | nil =>
    cases h
    exact hs
  | cons a l ih =>
    obtain ⟨u, hu, h⟩ := sweep_cons.1 h
    exact ih (fun s a t ha => hstep s a t (List.mem_cons_of_mem _ ha))
      (hstep s a u List.mem_cons_self hs hu) h

/-- A sweep of visits that cannot fault while an invariant holds returns. -/
theorem sweep_returns {I : σ → Prop}
    (hstep : ∀ s a, a ∈ l → I s → ∃ t, step s a = .ok t ∧ I t) (hs : I s) :
    ∃ t, l.foldlM step s = .ok t ∧ I t := by
  induction l generalizing s with
  | nil => exact ⟨s, rfl, hs⟩
  | cons a l ih =>
    obtain ⟨u, hu, hI⟩ := hstep s a List.mem_cons_self hs
    obtain ⟨t, ht, hI⟩ := ih (fun s a ha => hstep s a (List.mem_cons_of_mem _ ha)) hI
    exact ⟨t, sweep_cons.2 ⟨u, hu, ht⟩, hI⟩

/-- Every element is visited in a state between the first and the last one. -/
theorem sweep_visits {R : σ → σ → Prop} (hrefl : ∀ s, R s s)
    (htrans : ∀ s t u, R s t → R t u → R s u) (hstep : ∀ s a t, step s a = .ok t → R s t)
    (h : l.foldlM step s = .ok t) (ha : a ∈ l) :
    ∃ u v, R s u ∧ step u a = .ok v ∧ R v t := by
  induction l generalizing s with
  | nil => cases ha
  | cons b l ih =>
    obtain ⟨u, hu, hrest⟩ := sweep_cons.1 h
    rcases List.mem_cons.1 ha with rfl | ha
    · exact ⟨s, u, hrefl s, hu, sweep_rel hrefl htrans hstep hrest⟩
    · obtain ⟨v, w, huv, hv, hwt⟩ := ih hrest ha
      exact ⟨v, w, htrans _ _ _ (hstep _ _ _ hu) huv, hv, hwt⟩

/-- The sweep over the list from the state `s` gets to the element in the state `u`. -/
inductive Visits (step : σ → α → Except ε σ) : List α → σ → σ → α → Prop
  | here {a : α} {l : List α} {s : σ} : Visits step (a :: l) s s a
  | later {a b : α} {l : List α} {s t u : σ} (hb : step s b = .ok t) (ha : Visits step l t u a) :
      Visits step (b :: l) s u a

theorem Visits.mem {u : σ} (h : Visits step l s u a) : a ∈ l := by
  induction h with
  | here => exact List.mem_cons_self
  | later _ _ ih => exact List.mem_cons_of_mem _ ih

/-- What every visit keeps holds whenever an element is visited. -/
theorem Visits.invariant {I : σ → Prop} {u : σ} (h : Visits step l s u a)
    (hstep : ∀ s a t, a ∈ l → I s → step s a = .ok t → I t) (hs : I s) : I u := by
  induction h with
  | here => exact hs
  | later hb _ ih =>
    exact ih (fun s a t ha => hstep s a t (List.mem_cons_of_mem _ ha)) (hstep _ _ _ List.mem_cons_self hs hb)

/-- A sweep keeps what each of its visits keeps. -/
theorem sweep_visits_invariant {I : σ → Prop}
    (hstep : ∀ u a v, Visits step l s u a → I u → step u a = .ok v → I v) (hs : I s)
    (h : l.foldlM step s = .ok t) : I t := by
  induction l generalizing s with
  | nil =>
    cases h
    exact hs
  | cons b l ih =>
    obtain ⟨u, hu, hrest⟩ := sweep_cons.1 h
    exact ih (fun v a w hv => hstep v a w (.later hu hv)) (hstep s b u .here hs hu) hrest

/-- A sweep of sweeps over a fixed list is one sweep over the pairs. -/
theorem sweep_pairs (f : α → σ → β → Except ε σ) (k : List β) (s : σ) :
    l.foldlM (fun s a => k.foldlM (f a) s) s =
      (l.flatMap fun a => k.map fun b => (a, b)).foldlM (fun s p => f p.1 s p.2) s := by
  induction l generalizing s with
  | nil => rfl
  | cons a l ih =>
    rw [List.flatMap_cons, List.foldlM_append, List.foldlM_cons, List.foldlM_map]
    exact bind_congr fun u => ih u

/-- A sweep over the numbers below `n` goes through the states `g 0`, `g 1`, …, `g n`. -/
theorem sweep_range {f : σ → Nat → Except ε σ} {g : Nat → σ} {n : Nat}
    (hstep : ∀ i, i < n → f (g i) i = .ok (g (i + 1))) : (List.range n).foldlM f (g 0) = .ok (g n) := by
  induction n with
  | zero => rfl
  | succ n ih =>
    rw [List.range_succ, List.foldlM_append, ih fun i hi => hstep i (Nat.lt_succ_of_lt hi)]
    exact sweep_cons.2 ⟨g (n + 1), hstep n (Nat.lt_succ_self n), rfl⟩

/-- A sweep in which no visit does anything. -/
theorem sweep_fixed (h : ∀ a ∈ l, step s a = .ok s) : l.foldlM step s = .ok s := by
  induction l with
  | nil => rfl
  | cons a l ih => exact sweep_cons.2 ⟨s, h a List.mem_cons_self, ih fun b hb => h b (List.mem_cons_of_mem _ hb)⟩

end Sweeps

section Flags

variable {step : σ × Bool → α → Except ε (σ × Bool)} {l : List α} {s t : σ}

/-- A visit leaves the state and the flag, or sets the flag. -/
def Flagged (step : σ × Bool → α → Except ε (σ × Bool)) : Prop :=
  ∀ s c a t c', step (s, c) a = .ok (t, c') → t = s ∧ c' = c ∨ c' = true

theorem Flagged.sweep_true (hstep : Flagged step) {c : Bool}
    (h : l.foldlM step (s, true) = .ok (t, c)) : c = true := by
  refine sweep_invariant (I := fun s => s.2 = true) (fun s a t _ hs ht => ?_) rfl h
  obtain ⟨s, c⟩ := s
  obtain ⟨t, c'⟩ := t
  rcases hstep s c a t c' ht with ⟨-, hc⟩ | hc
  · exact hc.trans hs
  · exact hc

/-- In a sweep that ends with the flag unset no visit does anything. -/
theorem Flagged.quiet (hstep : Flagged step) (h : l.foldlM step (s, false) = .ok (t, false)) :
    t = s ∧ ∀ a ∈ l, step (s, false) a = .ok (s, false) := by
  induction l with
  | nil =>
    cases h
    exact ⟨rfl, fun a ha => nomatch ha⟩
  | cons a l ih =>
    obtain ⟨⟨u, c⟩, hu, h⟩ := sweep_cons.1 h
    rcases hstep s false a u c hu with ⟨rfl, rfl⟩ | rfl
    · obtain ⟨rfl, hall⟩ := ih h
      exact ⟨rfl, List.forall_mem_cons.2 ⟨hu, hall⟩⟩
    · cases hstep.sweep_true h

/-- In a sweep that sets the flag some visit of the first state sets it. -/
theorem Flagged.changes (hstep : Flagged step) (h : l.foldlM step (s, false) = .ok (t, true)) :
    ∃ a ∈ l, ∃ (u : σ) (k : List α), step (s, false) a = .ok (u, true) ∧
      k.foldlM step (u, true) = .ok (t, true) := by
  induction l with
  | nil => cases h
  | cons a l ih =>
    obtain ⟨⟨u, c⟩, hu, h⟩ := sweep_cons.1 h
    rcases hstep s false a u c hu with ⟨rfl, rfl⟩ | rfl
    · obtain ⟨b, hb, hrest⟩ := ih h
      exact ⟨b, List.mem_cons_of_mem _ hb, hrest⟩
    · exact ⟨a, List.mem_cons_self, u, l, hu, h⟩

end Flags

end Faulting
