import Mathlib.Tactic.Common

/-!
# Computations that may fault

A computation `x : Except ε α` ends with a result or with a fault.  `Ensures E Q x` says that a
result satisfies `Q` and a fault satisfies `E`; the rules below follow the structure of a program,
so that a specification of each primitive is enough to specify what is built from it.
-/

namespace Faulting

variable {ε α β : Type}

/-- A result of `x` satisfies `Q` and a fault of `x` satisfies `E`. -/
def Ensures (E : ε → Prop) (Q : α → Prop) : Except ε α → Prop
  | .ok a => Q a
  | .error e => E e

@[simp] theorem ensures_ok (E : ε → Prop) (Q : α → Prop) (a : α) :
    Ensures E Q (.ok a) ↔ Q a := Iff.rfl

@[simp] theorem ensures_error (E : ε → Prop) (Q : α → Prop) (e : ε) :
    Ensures E Q (.error e : Except ε α) ↔ E e := Iff.rfl

@[simp] theorem ensures_pure (E : ε → Prop) (Q : α → Prop) (a : α) :
    Ensures E Q (pure a) ↔ Q a := Iff.rfl

@[simp] theorem ensures_bind (E : ε → Prop) (Q : β → Prop) (x : Except ε α) (f : α → Except ε β) :
    Ensures E Q (x >>= f) ↔ Ensures E (fun a => Ensures E Q (f a)) x := by
  cases x <;> rfl

@[simp] theorem ensures_map (E : ε → Prop) (Q : β → Prop) (x : Except ε α) (f : α → β) :
    Ensures E Q (f <$> x) ↔ Ensures E (fun a => Q (f a)) x := by
  cases x <;> rfl

theorem Ensures.mono {E E' : ε → Prop} {Q Q' : α → Prop} {x : Except ε α} (h : Ensures E Q x)
    (hE : ∀ e, E e → E' e) (hQ : ∀ a, Q a → Q' a) : Ensures E' Q' x := by
  cases x with
  | ok a => exact hQ a h
  | error e => exact hE e h

/-- Weakening of the postcondition alone. -/
theorem Ensures.imp {E : ε → Prop} {Q Q' : α → Prop} {x : Except ε α} (h : Ensures E Q x)
    (hQ : ∀ a, Q a → Q' a) : Ensures E Q' x :=
  h.mono (fun _ he => he) hQ

theorem Ensures.of_ok {E : ε → Prop} {Q : α → Prop} {x : Except ε α} {a : α} (h : Ensures E Q x)
    (hx : x = .ok a) : Q a := by
  subst hx; exact h

theorem Ensures.of_error {E : ε → Prop} {Q : α → Prop} {x : Except ε α} {e : ε}
    (h : Ensures E Q x) (hx : x = .error e) : E e := by
  subst hx; exact h

theorem ensures_of_forall {E : ε → Prop} {Q : α → Prop} {x : Except ε α}
    (hQ : ∀ a, x = .ok a → Q a) (hE : ∀ e, x = .error e → E e) : Ensures E Q x := by
  cases x with
  | ok a => exact hQ a rfl
  | error e => exact hE e rfl

/-- The rule of sequential composition. -/
theorem Ensures.bind {E : ε → Prop} {R : α → Prop} {Q : β → Prop} {x : Except ε α}
    {f : α → Except ε β} (hx : Ensures E R x) (hf : ∀ a, R a → Ensures E Q (f a)) :
    Ensures E Q (x >>= f) :=
  (ensures_bind E Q x f).2 (hx.imp hf)

theorem ensures_ite (E : ε → Prop) (Q : α → Prop) (c : Prop) [Decidable c] (x y : Except ε α) :
    Ensures E Q (if c then x else y) ↔ (c → Ensures E Q x) ∧ (¬ c → Ensures E Q y) := by
  by_cases h : c <;> simp [h]

theorem bind_eq_ok {x : Except ε α} {f : α → Except ε β} {b : β} :
    (x >>= f) = .ok b ↔ ∃ a, x = .ok a ∧ f a = .ok b := by
  cases x with
  | ok a => simp [Bind.bind, Except.bind]
  | error e => simp [Bind.bind, Except.bind]

theorem toOption_eq_some {x : Except ε α} {a : α} : x.toOption = some a ↔ x = .ok a := by
  cases x with
  | ok b => simp [Except.toOption]
  | error e => simp [Except.toOption]

/-! ## Loops -/

/-- A loop over a list keeps an invariant of its body. -/
theorem ensures_foldlM {E : ε → Prop} {I : β → Prop} {f : β → α → Except ε β} {l : List α} {b : β}
    (hf : ∀ b, I b → ∀ a ∈ l, Ensures E I (f b a)) (hb : I b) : Ensures E I (l.foldlM f b) := by
  induction l generalizing b with
  | nil => exact hb
  | cons a l ih =>
    rw [List.foldlM_cons]
    exact (hf b hb a List.mem_cons_self).bind fun c hc =>
      ih (fun b hb a ha => hf b hb a (List.mem_cons_of_mem _ ha)) hc

/-- A loop with one body that always faults does not return. -/
theorem foldlM_faults {I : β → Prop} {f : β → α → Except ε β} {l : List α} {b : β} {a : α}
    (hf : ∀ b, I b → ∀ c, ∀ b', f b c = .ok b' → I b') (hb : I b) (ha : a ∈ l)
    (hfault : ∀ b, I b → ∃ e, f b a = .error e) : ∃ e, l.foldlM f b = .error e := by
  induction l generalizing b with
  | nil => cases ha
  | cons c l ih =>
    rw [List.foldlM_cons]
    cases hc : f b c with
    | error e => exact ⟨e, rfl⟩
    | ok b' =>
      rcases List.mem_cons.1 ha with rfl | ha
      · obtain ⟨e, he⟩ := hfault b hb
        rw [hc] at he
        cases he
      · exact ih (hf b hb c b' hc) ha

/-! ## Computations with a result -/

/-- `x` ends with a result. -/
def Defined (x : Except ε α) : Prop := ∃ a, x = .ok a

@[simp] theorem defined_ok (a : α) : Defined (.ok a : Except ε α) := ⟨a, rfl⟩

@[simp] theorem defined_pure (a : α) : Defined (pure a : Except ε α) := ⟨a, rfl⟩

@[simp] theorem not_defined_error (e : ε) : ¬ Defined (.error e : Except ε α) := fun ⟨_, h⟩ => by cases h

@[simp] theorem defined_bind (x : Except ε α) (f : α → Except ε β) :
    Defined (x >>= f) ↔ ∃ a, x = .ok a ∧ Defined (f a) := by
  cases x <;> simp [Defined, Bind.bind, Except.bind]

@[simp] theorem defined_map (x : Except ε α) (f : α → β) : Defined (f <$> x) ↔ Defined x := by
  cases x <;> simp [Defined, Functor.map, Except.map]

/-- A composition has a result if its first part has one and, then, its second part has one for whatever the
first returns. -/
theorem defined_bind_iff {x : Except ε α} {f : α → Except ε β} {P Q : Prop} (hx : Defined x ↔ P)
    (hf : P → ∀ a, Defined (f a) ↔ Q) : Defined (x >>= f) ↔ P ∧ Q := by
  rw [defined_bind]
  constructor
  · rintro ⟨a, ha, hrest⟩
    have hP := hx.1 ⟨a, ha⟩
    exact ⟨hP, (hf hP a).1 hrest⟩
  · rintro ⟨hP, hQ⟩
    obtain ⟨a, ha⟩ := hx.2 hP
    exact ⟨a, ha, (hf hP a).2 hQ⟩

theorem Ensures.defined {Q : α → Prop} {x : Except ε α} (h : Ensures (fun _ => False) Q x) : Defined x := by
  cases x with
  | ok a => exact ⟨a, rfl⟩
  | error => exact h.elim

/-! ## Faults of one kind -/

/-- `x` ends with a fault that satisfies `P`. -/
def FaultsWith (P : ε → Prop) (x : Except ε α) : Prop := ∃ e, x = .error e ∧ P e

section

variable (P : ε → Prop)

@[simp] theorem faultsWith_ok (a : α) : FaultsWith P (.ok a : Except ε α) ↔ False := by
  simp [FaultsWith]

@[simp] theorem faultsWith_error (e : ε) : FaultsWith P (.error e : Except ε α) ↔ P e := by
  simp [FaultsWith]

@[simp] theorem faultsWith_bind (x : Except ε α) (f : α → Except ε β) :
    FaultsWith P (x >>= f) ↔ FaultsWith P x ∨ ∃ a, x = .ok a ∧ FaultsWith P (f a) := by
  cases x <;> simp [FaultsWith, Bind.bind, Except.bind]

@[simp] theorem faultsWith_map (x : Except ε α) (f : α → β) :
    FaultsWith P (f <$> x) ↔ FaultsWith P x := by
  cases x <;> simp [FaultsWith, Functor.map, Except.map]

theorem not_faultsWith_iff (x : Except ε α) :
    ¬ FaultsWith P x ↔ Ensures (fun e => ¬ P e) (fun _ => True) x := by
  cases x <;> simp

end

end Faulting
