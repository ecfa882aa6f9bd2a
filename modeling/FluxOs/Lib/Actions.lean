import Mathlib.Data.Option.Basic
import Mathlib.Logic.Relation

/-!
# Machines with actions

A machine is given by a partial step function `step : α → σ → Option σ`: an action `a` is possible in a
state `s` if `step a s` is defined.  A run takes any actions in any order; `allowed` restricts which
action is taken in which state.  An invariant is proved for one step and then holds along every run.
-/

namespace Actions

open Relation

variable {σ α : Type} (step : α → σ → Option σ) (allowed : α → σ → Prop)

/-- One action leads from `s` to `t`. -/
def Acts (s t : σ) : Prop := ∃ a, allowed a s ∧ step a s = some t

/-- `t` is reached from `s` by any number of actions. -/
def Reaches : σ → σ → Prop := ReflTransGen (Acts step allowed)

/-- Take the actions of a list, one after the other. -/
def execute : List α → σ → Option σ
  | [], s => some s
  | a :: as, s => (step a s).bind (execute as)

/-- All states of the run with the given actions satisfy `P`. -/
def HoldsAlong (P : σ → Prop) : List α → σ → Prop
  | [], s => P s
  | a :: as, s => P s ∧ ∀ t, step a s = some t → HoldsAlong P as t

/-- All actions of the run satisfy `C` in the states in which they are taken. -/
def MeetsAlong (C : α → σ → Prop) : List α → σ → Prop
  | [], _ => True
  | a :: as, s => ∀ t, step a s = some t → C a s ∧ MeetsAlong C as t

/-- All actions of the run satisfy `C` in the states in which they are tried, also one that is not possible. -/
def TriesAlong (C : α → σ → Prop) : List α → σ → Prop
  | [], _ => True
  | a :: as, s => C a s ∧ ∀ t, step a s = some t → TriesAlong C as t

variable {step allowed} {allowed' : α → σ → Prop} {I : σ → Prop} {s t u : σ} {a : α} {as : List α}

theorem Reaches.refl (s : σ) : Reaches step allowed s s := ReflTransGen.refl

theorem Reaches.tail (h : Reaches step allowed s t) (ha : allowed a t) (hu : step a t = some u) :
    Reaches step allowed s u := ReflTransGen.tail h ⟨a, ha, hu⟩

theorem Reaches.trans (h : Reaches step allowed s t) (h' : Reaches step allowed t u) :
    Reaches step allowed s u := ReflTransGen.trans h h'

theorem Reaches.mono (h : Reaches step allowed s t) (hle : ∀ a s, allowed a s → allowed' a s) :
    Reaches step allowed' s t :=
  ReflTransGen.mono (fun _ _ ⟨a, ha, hu⟩ => ⟨a, hle a _ ha, hu⟩) _ _ h

/-- An invariant of the allowed actions holds along a run. -/
theorem Reaches.invariant (h : Reaches step allowed s t)
    (hstep : ∀ a s t, allowed a s → I s → step a s = some t → I t) (hs : I s) : I t := by
  induction h with
  | refl => exact hs
  | tail _ hact ih =>
    obtain ⟨a, ha, hu⟩ := hact
    exact hstep a _ _ ha ih hu

/-- An invariant that needs another one, which is known to hold along every run. -/
theorem Reaches.invariant_of {J : σ → Prop} (h : Reaches step allowed s t)
    (hJ : ∀ t, Reaches step allowed s t → J t)
    (hstep : ∀ a s t, allowed a s → J s → I s → step a s = some t → I t) (hs : I s) : I t := by
  induction h with
  | refl => exact hs
  | tail hrun hact ih =>
    obtain ⟨a, ha, hu⟩ := hact
    exact hstep a _ _ ha (hJ _ hrun) ih hu

theorem execute_cons : execute step (a :: as) s = some t ↔ ∃ u, step a s = some u ∧ execute step as u = some t :=
  Option.bind_eq_some_iff

theorem execute_append {bs : List α} :
    execute step (as ++ bs) s = some t ↔ ∃ u, execute step as s = some u ∧ execute step bs u = some t := by
  induction as generalizing s with
  | nil => simp [execute]
  | cons a as ih =>
    simp only [List.cons_append, execute_cons, ih]
    constructor
    · rintro ⟨u, ha, v, has, hbs⟩
      exact ⟨v, ⟨u, ha, has⟩, hbs⟩
    · rintro ⟨v, ⟨u, ha, has⟩, hbs⟩
      exact ⟨u, ha, v, has, hbs⟩

/-- What executes is a run of the actions that are allowed, if all of them are. -/
theorem MeetsAlong.reaches (has : MeetsAlong step allowed as s) (h : execute step as s = some t) :
    Reaches step allowed s t := by
  induction as generalizing s with
  | nil =>
    cases h
    exact Reaches.refl _
  | cons a as ih =>
    obtain ⟨u, hu, hrest⟩ := Option.bind_eq_some_iff.1 h
    obtain ⟨ha, has⟩ := has u hu
    exact ReflTransGen.head ⟨a, ha, hu⟩ (ih has hrest)

/-- What all actions satisfy in all states, they satisfy along a run. -/
theorem meetsAlong_of_forall {C : α → σ → Prop} (has : ∀ a ∈ as, ∀ s, C a s) : MeetsAlong step C as s := by
  induction as generalizing s with
  | nil => trivial
  | cons a as ih =>
    intro t _
    exact ⟨has a List.mem_cons_self s, ih fun b hb => has b (List.mem_cons_of_mem a hb)⟩

/-- What executes is a run of the machine without restrictions. -/
theorem reaches_of_execute (h : execute step as s = some t) : Reaches step (fun _ _ => True) s t :=
  (meetsAlong_of_forall fun _ _ _ => trivial).reaches h

/-- An invariant holds in the state that a run of allowed actions reaches. -/
theorem MeetsAlong.invariant (has : MeetsAlong step allowed as s)
    (hstep : ∀ a s t, allowed a s → I s → step a s = some t → I t) (hs : I s)
    (h : execute step as s = some t) : I t := by
  induction as generalizing s with
  | nil =>
    cases h
    exact hs
  | cons a as ih =>
    obtain ⟨u, hu, hrest⟩ := Option.bind_eq_some_iff.1 h
    obtain ⟨ha, has⟩ := has u hu
    exact ih has (hstep a s u ha hs hu) hrest

theorem HoldsAlong.head {P : σ → Prop} (h : HoldsAlong step P as s) : P s := by
  cases as with
  | nil => exact h
  | cons => exact h.1

variable {J P Q : σ → Prop} {C D : α → σ → Prop}

/-- Two properties are the same along a run if they agree in the states with an invariant. -/
theorem holdsAlong_congr_of_invariant (hJ : ∀ a s t, J s → step a s = some t → J t)
    (hPQ : ∀ s, J s → (P s ↔ Q s)) (hs : J s) : HoldsAlong step P as s ↔ HoldsAlong step Q as s := by
  induction as generalizing s with
  | nil => exact hPQ s hs
  | cons a as ih =>
    refine and_congr (hPQ s hs) (forall_congr' fun t => forall_congr' fun ht => ?_)
    exact ih (hJ a s t hs ht)

/-- If a condition is exact for one action, it is exact for every run of allowed actions: the property holds
in all states if and only if all actions meet the condition.  The proof for one action may use an invariant
that is kept as long as the property holds. -/
theorem holdsAlong_iff_meetsAlong_of_kept
    (hJ : ∀ a s t, allowed a s → J s → P s → P t → step a s = some t → J t)
    (hstep : ∀ a s t, allowed a s → J s → P s → step a s = some t → (P t ↔ C a s))
    (has : MeetsAlong step allowed as s) (hs : J s) (hP : P s) :
    HoldsAlong step P as s ↔ MeetsAlong step C as s := by
  induction as generalizing s with
  | nil => exact iff_of_true hP trivial
  | cons a as ih =>
    have hrest (t : σ) (ht : step a s = some t) (hPt : P t) :=
      ih (has t ht).2 (hJ a s t (has t ht).1 hs hP hPt ht) hPt
    constructor
    · rintro ⟨-, hall⟩ t ht
      have hPt : P t := (hall t ht).head
      exact ⟨(hstep a s t (has t ht).1 hs hP ht).1 hPt, (hrest t ht hPt).1 (hall t ht)⟩
    · intro hall
      refine ⟨hP, fun t ht => ?_⟩
      obtain ⟨hC, hmeets⟩ := hall t ht
      exact (hrest t ht ((hstep a s t (has t ht).1 hs hP ht).2 hC)).2 hmeets

theorem holdsAlong_iff_meetsAlong
    (hJ : ∀ a s t, allowed a s → J s → step a s = some t → J t)
    (hstep : ∀ a s t, allowed a s → J s → P s → step a s = some t → (P t ↔ C a s))
    (has : MeetsAlong step allowed as s) (hs : J s) (hP : P s) :
    HoldsAlong step P as s ↔ MeetsAlong step C as s :=
  holdsAlong_iff_meetsAlong_of_kept (fun a s t ha hs _ _ ht => hJ a s t ha hs ht) hstep has hs hP

/-- What the actions satisfy in the states with the property, they satisfy along a run on which it holds. -/
theorem HoldsAlong.meetsAlong (h : HoldsAlong step P as s)
    (hJ : ∀ a s t, allowed a s → J s → step a s = some t → J t)
    (hD : ∀ a s, allowed a s → J s → P s → D a s)
    (has : MeetsAlong step allowed as s) (hs : J s) : MeetsAlong step D as s := by
  induction as generalizing s with
  | nil => trivial
  | cons a as ih =>
    intro t ht
    obtain ⟨ha, hrest⟩ := has t ht
    exact ⟨hD a s ha hs h.1, ih (h.2 t ht) hrest (hJ a s t ha hs ht)⟩

/-- Two conditions are the same along a run if they agree in the states with an invariant, which is kept as long as
the second one is met. -/
theorem meetsAlong_iff_of_invariant (hJ : ∀ a s t, J s → D a s → step a s = some t → J t)
    (hCD : ∀ a s t, J s → step a s = some t → (C a s ↔ D a s)) (hs : J s) :
    MeetsAlong step C as s ↔ MeetsAlong step D as s := by
  induction as generalizing s with
  | nil => exact Iff.rfl
  | cons a as ih =>
    refine forall_congr' fun t => forall_congr' fun ht => ?_
    rw [hCD a s t hs ht]
    exact and_congr_right fun hD => ih (hJ a s t hs hD ht)

/-- What follows from a condition in the states with an invariant, which is kept as long as the condition is met,
holds along a run that meets it. -/
theorem MeetsAlong.imp_of_invariant (h : MeetsAlong step D as s)
    (hJ : ∀ a s t, J s → D a s → step a s = some t → J t) (hDC : ∀ a s, J s → D a s → C a s) (hs : J s) :
    MeetsAlong step C as s := by
  induction as generalizing s with
  | nil => trivial
  | cons a as ih =>
    intro t ht
    obtain ⟨hD, hrest⟩ := h t ht
    exact ⟨hDC a s hs hD, ih hrest (hJ a s t hs hD ht)⟩

theorem triesAlong_congr (h : ∀ a s, C a s ↔ D a s) : TriesAlong step C as s ↔ TriesAlong step D as s := by
  induction as generalizing s with
  | nil => exact Iff.rfl
  | cons a as ih => exact and_congr (h a s) (forall_congr' fun t => forall_congr' fun _ => ih)

theorem TriesAlong.meetsAlong (h : TriesAlong step C as s) : MeetsAlong step C as s := by
  induction as generalizing s with
  | nil => trivial
  | cons a as ih => exact fun t ht => ⟨h.1, ih (h.2 t ht)⟩

/-- A run executes if every allowed action is possible and keeps an invariant as long as it meets a condition. -/
theorem TriesAlong.executes (h : TriesAlong step allowed as s) (hC : MeetsAlong step C as s)
    (hstep : ∀ a s, allowed a s → I s → ∃ t, step a s = some t ∧ (C a s → I t)) (hs : I s) :
    ∃ t, execute step as s = some t := by
  induction as generalizing s with
  | nil => exact ⟨s, rfl⟩
  | cons a as ih =>
    obtain ⟨t, ht, hI⟩ := hstep a s h.1 hs
    obtain ⟨hCa, hrest⟩ := hC t ht
    obtain ⟨u, hu⟩ := ih (h.2 t ht) hrest (hI hCa)
    exact ⟨u, execute_cons.2 ⟨t, ht, hu⟩⟩

variable (allowed) in
theorem holdsAlong_iff
    (hJ : ∀ a s t, allowed a s → J s → step a s = some t → J t)
    (hstep : ∀ a s t, allowed a s → J s → P s → step a s = some t → (P t ↔ C a s))
    (has : ∀ a ∈ as, ∀ s, allowed a s) (hs : J s) (hP : P s) :
    HoldsAlong step P as s ↔ MeetsAlong step C as s :=
  holdsAlong_iff_meetsAlong hJ hstep (meetsAlong_of_forall has) hs hP

/-! ## What is seen of a run -/

section Traces

variable {ω : Type} {see : α → σ → ω} {R : σ → σ → Prop} {s' : σ}

/-- What is seen of the actions, up to the first one that is not possible. -/
def trace (step : α → σ → Option σ) (see : α → σ → ω) : List α → σ → List ω
  | [], _ => []
  | a :: as, s => see a s :: (step a s).elim [] (trace step see as)

variable (allowed) in
/-- Two states look the same along all runs if a relation between them is kept by every action and related states
are not told apart by one action. -/
theorem trace_eq_of_simulation (hsee : ∀ a s s', allowed a s → R s s' → see a s' = see a s)
    (hstep : ∀ a s s', allowed a s → R s s' → Option.Rel R (step a s) (step a s'))
    (has : ∀ a ∈ as, ∀ s, allowed a s) (hs : R s s') : trace step see as s' = trace step see as s := by
  induction as generalizing s s' with
  | nil => rfl
  | cons a as ih =>
    have ha : allowed a s := has a List.mem_cons_self s
    rw [trace, trace, hsee a s s' ha hs]
    congr 1
    have hrel := hstep a s s' ha hs
    generalize step a s = r at hrel ⊢
    generalize step a s' = r' at hrel ⊢
    cases hrel with
    | none => rfl
    | some hR => exact ih (fun b hb => has b (List.mem_cons_of_mem a hb)) hR

end Traces

end Actions
