import FluxOs.Lib.Actions

/-!
# Bracketed runs

Some actions of a machine open a bracket of some kind, some close one, and the others do neither.  If the state has
a stack on which what opens a bracket puts the words of its kind, and what closes one takes them away, then a
balanced run leaves the stack as it was.
-/

namespace Brackets

open Actions

/-- What an action does with the brackets. -/
inductive Mark (κ : Type)
  | enter (k : κ)
  | leave (k : κ)
  | inner

variable {κ α σ ω : Type}

/-- Every bracket is closed by an action of its kind, with a balanced list in between. -/
inductive Balanced (mark : α → Option (Mark κ)) : List α → Prop
  | nil : Balanced mark []
  | inner {a : α} {as : List α} : mark a = some .inner → Balanced mark as → Balanced mark (a :: as)
  | pair {k : κ} {a b : α} {body as : List α} : mark a = some (.enter k) → Balanced mark body →
      mark b = some (.leave k) → Balanced mark as → Balanced mark (a :: (body ++ b :: as))

/-- A stack of `size` words, `used` of which are in use, has room for the brackets of the list.  Actions without a
mark do not occur in it. -/
def RoomFor (mark : α → Option (Mark κ)) (width : κ → Nat) (size : Nat) : Nat → List α → Prop
  | _, [] => True
  | used, a :: as =>
    match mark a with
    | some (.enter k) => used + width k ≤ size ∧ RoomFor mark width size (used + width k) as
    | some (.leave k) => RoomFor mark width size (used - width k) as
    | some .inner => RoomFor mark width size used as
    | none => False

/-- The machine keeps the brackets on the stack `view`. -/
structure Stacked (step : α → σ → Option σ) (mark : α → Option (Mark κ)) (width : κ → Nat) (view : σ → List ω) :
    Prop where
  inner : ∀ a s t, mark a = some .inner → step a s = some t → view t = view s
  enter : ∀ a k s t, mark a = some (.enter k) → step a s = some t →
    ∃ ws, ws.length = width k ∧ view t = ws ++ view s
  leave : ∀ a k s t, mark a = some (.leave k) → step a s = some t →
    ∃ ws, ws.length = width k ∧ view s = ws ++ view t

variable {step : α → σ → Option σ} {mark : α → Option (Mark κ)} {width : κ → Nat} {view : σ → List ω}
  {s t : σ} {a b : α} {as pre post body : List α} {k : κ} {size : Nat}

/-- A balanced run leaves the stack as it was. -/
theorem Balanced.view_eq (h : Balanced mark as) (hview : Stacked step mark width view)
    (hrun : execute step as s = some t) : view t = view s := by
  induction h generalizing s t with
  | nil =>
    cases hrun
    rfl
  | inner ha _ ih =>
    obtain ⟨s₁, hstep, hrest⟩ := execute_cons.1 hrun
    rw [ih hrest, hview.inner _ _ _ ha hstep]
  | pair ha _ hb _ ihBody ihRest =>
    obtain ⟨s₁, hstep, hrest⟩ := execute_cons.1 hrun
    obtain ⟨s₂, hbody, hrest⟩ := execute_append.1 hrest
    obtain ⟨s₃, hclose, hrest⟩ := execute_cons.1 hrest
    obtain ⟨ws, hws, hpush⟩ := hview.enter _ _ _ _ ha hstep
    obtain ⟨ws', hws', hpop⟩ := hview.leave _ _ _ _ hb hclose
    -- what is popped is what was pushed, since the body keeps it
    have hsame : ws ++ view s = ws' ++ view s₃ := by rw [← hpush, ← ihBody hbody, hpop]
    rw [ihRest hrest]
    exact (List.append_inj hsame (hws.trans hws'.symm)).2.symm

/-- A bracket that is closed was opened before, with a balanced list in between. -/
theorem Balanced.exists_enter (h : Balanced mark as) (heq : as = pre ++ b :: post) (hb : mark b = some (.leave k)) :
    ∃ pre' a body, pre = pre' ++ a :: body ∧ mark a = some (.enter k) ∧ Balanced mark body := by
  induction h generalizing pre post with
  | nil =>
    have := congrArg List.length heq
    simp at this
  | @inner c as hc _ ih =>
    cases pre with
    | nil =>
      obtain ⟨rfl, -⟩ := List.cons.inj heq
      rw [hc] at hb
      cases hb
    | cons m pre =>
      obtain ⟨rfl, hrest⟩ := List.cons.inj heq
      obtain ⟨pre', a, body, rfl, ha, hbody⟩ := ih hrest
      exact ⟨c :: pre', a, body, rfl, ha, hbody⟩
  | @pair k' c d body as hc hbody hd _ ihBody ihRest =>
    cases pre with
    | nil =>
      obtain ⟨rfl, -⟩ := List.cons.inj heq
      rw [hc] at hb
      cases hb
    | cons m pre =>
      obtain ⟨rfl, hrest⟩ := List.cons.inj heq
      -- the action that closes is behind the body, is the end of this pair, or is in the body
      obtain ⟨mid, hpre, hmid⟩ | ⟨mid, hpre, hmid⟩ := List.append_eq_append_iff.1 hrest
      · cases mid with
        | nil =>
          obtain ⟨rfl, -⟩ := List.cons.inj hmid
          rw [hd] at hb
          cases hb
          exact ⟨[], c, body, by rw [hpre, List.append_nil]; rfl, hc, hbody⟩
        | cons m mid =>
          obtain ⟨rfl, hrest⟩ := List.cons.inj hmid
          obtain ⟨pre', a, body', rfl, ha, hbody'⟩ := ihRest hrest
          refine ⟨c :: (body ++ d :: pre'), a, body', ?_, ha, hbody'⟩
          simp [hpre]
      · cases mid with
        | nil =>
          obtain ⟨rfl, -⟩ := List.cons.inj hmid
          rw [hd] at hb
          cases hb
          exact ⟨[], c, pre, rfl, hc, by rwa [hpre, List.append_nil] at hbody⟩
        | cons m mid =>
          obtain ⟨rfl, -⟩ := List.cons.inj hmid
          obtain ⟨pre', a, body', rfl, ha, hbody'⟩ := ihBody hpre
          exact ⟨c :: pre', a, body', rfl, ha, hbody'⟩

/-- Where a bracket opens, the stack has room for its words. -/
theorem RoomFor.enter (h : RoomFor mark width size (view s).length (pre ++ a :: post))
    (hview : Stacked step mark width view) (hrun : execute step pre s = some t) (ha : mark a = some (.enter k)) :
    (view t).length + width k ≤ size := by
  induction pre generalizing s with
  | nil =>
    cases hrun
    simp only [List.nil_append, RoomFor, ha] at h
    exact h.1
  | cons c pre ih =>
    obtain ⟨s₁, hstep, hrest⟩ := execute_cons.1 hrun
    refine ih ?_ hrest
    simp only [List.cons_append, RoomFor] at h
    cases hc : mark c with
    | none => simp only [hc] at h
    | some m =>
      cases m with
      | inner =>
        simp only [hc] at h
        rwa [hview.inner _ _ _ hc hstep]
      | enter k' =>
        simp only [hc] at h
        obtain ⟨ws, hws, hpush⟩ := hview.enter _ _ _ _ hc hstep
        rw [hpush, List.length_append, hws, Nat.add_comm]
        exact h.2
      | leave k' =>
        simp only [hc] at h
        obtain ⟨ws, hws, hpop⟩ := hview.leave _ _ _ _ hc hstep
        rwa [hpop, List.length_append, hws, Nat.add_sub_cancel_left] at h

end Brackets
