import Mathlib.Data.List.Basic

/-!
# Nested runs

The steps of a machine are marked: some enter something, some leave it, and the others do neither.  In a nested run
every step that leaves has a matching step that enters.  What one pair does around a body is enough to know what a
nested run does.
-/

namespace Nesting

/-- What a step does with the nesting. -/
inductive Mark
  | enter | leave | inner
  deriving DecidableEq

/-- Every `leave` has a matching `enter` and the other way round. -/
inductive Nested : List Mark → Prop
  | nil : Nested []
  | inner {ms : List Mark} : Nested ms → Nested (.inner :: ms)
  | pair {body ms : List Mark} : Nested body → Nested ms → Nested (.enter :: (body ++ .leave :: ms))

variable {σ : Type} {step : σ → Mark → σ → Prop} {s t u : σ} {ms ms' pre post : List Mark}

/-- The steps of a run have these marks. -/
inductive MarkedRun (step : σ → Mark → σ → Prop) : σ → List Mark → σ → Prop
  | nil {s : σ} : MarkedRun step s [] s
  | cons {s t u : σ} {m : Mark} {ms : List Mark} : step s m t → MarkedRun step t ms u → MarkedRun step s (m :: ms) u

theorem markedRun_append : MarkedRun step s (ms ++ ms') u ↔ ∃ t, MarkedRun step s ms t ∧ MarkedRun step t ms' u := by
  induction ms generalizing s with
  | nil =>
    constructor
    · intro h
      exact ⟨s, .nil, h⟩
    · rintro ⟨t, hnil, h⟩
      cases hnil
      exact h
  | cons m ms ih =>
    constructor
    · intro h
      cases h with
      | cons hstep hrest =>
        obtain ⟨t, hfirst, hlast⟩ := ih.1 hrest
        exact ⟨t, .cons hstep hfirst, hlast⟩
    · rintro ⟨t, hfirst, hlast⟩
      cases hfirst with
      | cons hstep hrest => exact .cons hstep (ih.2 ⟨t, hrest, hlast⟩)

/-- The step that enters where a step leaves, with what is nested in between. -/
theorem Nested.exists_enter (h : Nested ms) (heq : ms = pre ++ .leave :: post) :
    ∃ pre' body, pre = pre' ++ .enter :: body ∧ Nested body := by
  induction h generalizing pre post with
  | nil =>
    have := congrArg List.length heq
    simp at this
  | inner _ ih =>
    cases pre with
    | nil => cases heq
    | cons m pre =>
      obtain ⟨rfl, hrest⟩ := List.cons.inj ((List.cons_append ..).symm ▸ heq)
      obtain ⟨pre', body, rfl, hbody⟩ := ih hrest
      exact ⟨.inner :: pre', body, rfl, hbody⟩
  | @pair body ms hbody _ ihBody ihRest =>
    cases pre with
    | nil => cases heq
    | cons m pre =>
      obtain ⟨rfl, hrest⟩ := List.cons.inj ((List.cons_append ..).symm ▸ heq)
      -- the step that leaves is behind the body, is the end of this pair, or is in the body
      obtain ⟨mid, hpre, hmid⟩ | ⟨mid, hpre, hmid⟩ := List.append_eq_append_iff.1 hrest
      · cases mid with
        | nil => exact ⟨[], body, by rw [hpre, List.append_nil]; rfl, hbody⟩
        | cons m mid =>
          obtain ⟨rfl, hrest⟩ := List.cons.inj hmid
          obtain ⟨pre', body', rfl, hbody'⟩ := ihRest hrest
          refine ⟨.enter :: (body ++ .leave :: pre'), body', ?_, hbody'⟩
          simp [hpre]
      · cases mid with
        | nil => exact ⟨[], pre, rfl, by rwa [hpre, List.append_nil] at hbody⟩
        | cons m mid =>
          obtain ⟨rfl, -⟩ := List.cons.inj hmid
          obtain ⟨pre', body', rfl, hbody'⟩ := ihBody hpre
          exact ⟨.enter :: pre', body', rfl, hbody'⟩

/-- What the steps inside and a pair around its body do, a nested run does. -/
theorem Nested.run {R : σ → σ → Prop} (hrefl : ∀ s, R s s) (htrans : ∀ s t u, R s t → R t u → R s u)
    (hinner : ∀ s t, step s .inner t → R s t)
    (hpair : ∀ s t u v, step s .enter t → R t u → step u .leave v → R s v)
    (hn : Nested ms) (h : MarkedRun step s ms u) : R s u := by
  induction hn generalizing s u with
  | nil =>
    cases h
    exact hrefl s
  | inner _ ih =>
    cases h with
    | cons hstep hrest => exact htrans _ _ _ (hinner _ _ hstep) (ih hrest)
  | pair _ _ ihBody ihRest =>
    cases h with
    | cons henter hrest =>
      obtain ⟨t, hbody, hrest⟩ := markedRun_append.1 hrest
      cases hrest with
      | cons hleave hrest => exact htrans _ _ _ (hpair _ _ _ _ henter (ihBody hbody) hleave) (ihRest hrest)

end Nesting
