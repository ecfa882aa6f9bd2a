import FluxOs.Lib.Faulting

/-!
# Computations that may not end

A computation `x : Diverging ε α` does not end, or ends with a result or with a fault.  The rules say when what is
built from such computations ends with a result.
-/

namespace Faulting

/-- A computation that may not end, and may fault. -/
abbrev Diverging (ε : Type) := ExceptT ε Option

namespace Diverging

variable {ε α β : Type} {x : Diverging ε α} {a a' : α} {b b' : β}

/-- The computation ends with a result. -/
def Returns (x : Diverging ε α) (a : α) : Prop := x.run = some (.ok a)

theorem Returns.unique (h : Returns x a) (h' : Returns x a') : a = a' :=
  Except.ok.inj (Option.some.inj (h.symm.trans h'))

theorem returns_pure : Returns (pure a : Diverging ε α) a' ↔ a = a' := by simp [Returns]

theorem returns_bind {f : α → Diverging ε β} :
    Returns (x >>= f) b ↔ ∃ a, Returns x a ∧ Returns (f a) b := by
  unfold Returns
  rw [ExceptT.run_bind]
  cases x.run with
  | none => simp
  | some r => cases r <;> simp

theorem bind_congr_returns {f g : α → Diverging ε β} (h : ∀ a, Returns x a → f a = g a) : x >>= f = x >>= g := by
  refine ExceptT.ext ?_
  rw [ExceptT.run_bind, ExceptT.run_bind]
  cases hx : x.run with
  | none => rfl
  | some r =>
    cases r with
    | error e => rfl
    | ok a => exact congrArg ExceptT.run (h a hx)

/-! ## Loops over a list -/

variable {step : β → α → Diverging ε β} {l : List α}

theorem returns_foldlM_nil : Returns ([].foldlM step b) b' ↔ b = b' := returns_pure

theorem returns_foldlM_cons :
    Returns ((a :: l).foldlM step b) b' ↔ ∃ c, Returns (step b a) c ∧ Returns (l.foldlM step c) b' := by
  rw [List.foldlM_cons, returns_bind]

/-- A loop keeps what its body keeps. -/
theorem foldlM_invariant {I : β → Prop} (hstep : ∀ b a c, a ∈ l → I b → Returns (step b a) c → I c) (hb : I b)
    (h : Returns (l.foldlM step b) b') : I b' := by
  induction l generalizing b with
  | nil => exact returns_foldlM_nil.1 h ▸ hb
  | cons a l ih =>
    obtain ⟨c, hc, h⟩ := returns_foldlM_cons.1 h
    have hI : I c := hstep b a c List.mem_cons_self hb hc
    exact ih (fun b a c ha => hstep b a c (List.mem_cons_of_mem _ ha)) hI h

/-- A loop does the same on states that stand for other states, as long as its body does. -/
theorem foldlM_map {γ : Type} {f : γ → β} {I : γ → Prop} {step' : γ → α → Diverging ε γ} {c : γ}
    (hstep : ∀ c a, I c → step (f c) a = f <$> step' c a) (hI : ∀ c a d, I c → Returns (step' c a) d → I d)
    (hc : I c) :
    l.foldlM step (f c) = f <$> l.foldlM step' c := by
  induction l generalizing c with
  | nil => rfl
  | cons a l ih =>
    rw [List.foldlM_cons, List.foldlM_cons, hstep c a hc, bind_map_left, map_bind]
    exact bind_congr_returns fun d hd => ih (hI c a d hc hd)

end Diverging

end Faulting
