import FluxOs.Lib.Faulting

/-!
# Loops of a computation that may fault

The body of a `while` loop returns the next state, or `none` where the loop is left: by its condition, by
a `break`, or by a `return` inside it.  A loop that is still running when its fuel is used up faults with
`diverged`, so `ensures_loop` proves at once that the loop ends and what holds where it does.  Where the
turns are known one by one, `LeavesWithin` counts them.
-/

namespace Faulting

variable {ε σ : Type} {step : σ → Except ε (Option σ)} {diverged : ε}

/-- Run the body until it leaves the loop. -/
def loop (step : σ → Except ε (Option σ)) (diverged : ε) : Nat → σ → Except ε σ
  | 0, _ => .error diverged
  | fuel + 1, s => do
    match ← step s with
    | none => pure s
    | some t => loop step diverged fuel t

theorem loop_of_none {fuel : Nat} {s : σ} (h : step s = .ok none) :
    loop step diverged (fuel + 1) s = .ok s := by
  rw [loop, h]
  rfl

theorem loop_of_some {fuel : Nat} {s t : σ} (h : step s = .ok (some t)) :
    loop step diverged (fuel + 1) s = loop step diverged fuel t := by
  rw [loop, h]
  rfl

/-- A postcondition may use that the computation had the result it speaks of. -/
theorem Ensures.with_eq {α : Type} {E : ε → Prop} {Q : α → Prop} {x : Except ε α}
    (h : Ensures E Q x) : Ensures E (fun a => Q a ∧ x = .ok a) x := by
  cases x with
  | ok a => exact ⟨h, rfl⟩
  | error e => exact h

/-- The rule of the loop: the body keeps `I` and decreases the measure, and where it leaves the loop
`Q` holds. -/
theorem ensures_loop {E : ε → Prop} {I Q : σ → Prop} (m : σ → Nat)
    (hstep : ∀ s, I s → Ensures E (fun next => next.elim (Q s) fun t => I t ∧ m t < m s) (step s))
    {fuel : Nat} {s : σ} (hs : I s) (hfuel : m s < fuel) :
    Ensures E Q (loop step diverged fuel s) := by
  induction fuel generalizing s with
  | zero => omega
  | succ fuel ih =>
    rw [loop, ensures_bind]
    refine (hstep s hs).imp fun next hnext => ?_
    cases next with
    | none => exact hnext
    | some t =>
      obtain ⟨ht, hlt⟩ : I t ∧ m t < m s := hnext
      exact ih ht (by omega)

/-- The rule of a loop that need not end: the body keeps `I`. -/
theorem ensures_loop_of_keeps {E : ε → Prop} {I : σ → Prop} (hdiverged : E diverged)
    (hstep : ∀ s, I s → Ensures E (fun next => ∀ t, next = some t → I t) (step s)) {fuel : Nat} {s : σ} (hs : I s) :
    Ensures E I (loop step diverged fuel s) := by
  induction fuel generalizing s with
  | zero => exact hdiverged
  | succ fuel ih =>
    rw [loop]
    refine (hstep s hs).bind fun next hnext => ?_
    cases next with
    | none => exact hs
    | some t => exact ih (hnext t rfl)

/-- A loop is left where its body leaves it. -/
theorem exit_of_loop {fuel : Nat} {s t : σ} (h : loop step diverged fuel s = .ok t) :
    step t = .ok none := by
  induction fuel generalizing s with
  | zero => cases h
  | succ fuel ih =>
    obtain ⟨next, hnext, h⟩ := bind_eq_ok.1 h
    cases next with
    | none =>
      obtain rfl : s = t := Except.ok.inj h
      exact hnext
    | some t' => exact ih h

/-- The rule of a loop that ended, read from its end: what holds where the loop is left, and is passed back over a
turn, holds between its first and its last state. -/
theorem of_loop {P : σ → σ → Prop} (hnone : ∀ s, step s = .ok none → P s s)
    (hsome : ∀ s t u, step s = .ok (some t) → P t u → P s u) {fuel : Nat} {s t : σ}
    (h : loop step diverged fuel s = .ok t) : P s t := by
  induction fuel generalizing s with
  | zero => cases h
  | succ fuel ih =>
    obtain ⟨next, hnext, h⟩ := bind_eq_ok.1 h
    cases next with
    | none =>
      obtain rfl : s = t := Except.ok.inj h
      exact hnone s hnext
    | some s' => exact hsome s s' t hnext (ih h)

/-! ## Counting the turns -/

/-- From `s` the body leaves the loop at the last state, within `n` turns. -/
inductive LeavesWithin (step : σ → Except ε (Option σ)) : Nat → σ → σ → Prop
  | here {n : Nat} {s : σ} (h : step s = .ok none) : LeavesWithin step n s s
  | next {n : Nat} {s t u : σ} (h : step s = .ok (some t)) (hrest : LeavesWithin step n t u) :
    LeavesWithin step (n + 1) s u

theorem LeavesWithin.mono {m n : Nat} {s t : σ} (h : LeavesWithin step m s t) (hle : m ≤ n) :
    LeavesWithin step n s t := by
  induction h generalizing n with
  | here h => exact .here h
  | next h _ ih =>
    cases n with
    | zero => omega
    | succ n => exact .next h (ih (by omega))

/-- With fuel for one turn more the loop ends where its body leaves it. -/
theorem LeavesWithin.loop_eq {n fuel : Nat} {s t : σ} (h : LeavesWithin step n s t) (hfuel : n < fuel) :
    loop step diverged fuel s = .ok t := by
  induction h generalizing fuel with
  | here h =>
    cases fuel with
    | zero => omega
    | succ fuel => exact loop_of_none h
  | next h _ ih =>
    cases fuel with
    | zero => omega
    | succ fuel =>
      rw [loop_of_some h]
      exact ih (by omega)

end Faulting
