import FluxOs.Fir.Passes
import Mathlib.Data.List.Forall2

/-!
# Dead code elimination

`fir_dead_code_elim` removes one value after the other, each at a moment when its id occurs nowhere.  An
occurrence is never created, so no id that occurs in the result has lost a definition; and the pass ends
with a round that removes nothing, so whatever is left is a terminator, has a side effect, or occurs.
-/

namespace FluxOs

open Faulting Relation

/-- A terminator, or an operation with a side effect. -/
def FirValue.essential (val : FirValue) : Bool := firIsTerminator val.op || FirFunc.hasSideEffect val.op

/-- The id is an operand or a phi source of the value. -/
def FirValue.Mentions (val : FirValue) (id : UInt32) : Prop :=
  id ∈ val.operands ∨ ∃ src ∈ val.phi, src.srcId = id

/-- The values of a block that survive are in their order, and all that satisfy `p` do. -/
structure FirBlock.Keeps (p : FirValue → Bool) (block block' : FirBlock) : Prop where
  same : block' = { block with values := block'.values }
  order : block'.values.Sublist block.values
  kept : block'.values.filter p = block.values.filter p

/-! ## Lists -/

section

variable {α : Type} {l : List α} {i : Nat} {a : α}

/-- Erasing an element does not matter to a filter that drops it. -/
theorem filter_eraseIdx_of_not {p : α → Bool} (h : l[i]? = some a) (ha : p a = false) :
    (l.eraseIdx i).filter p = l.filter p := by
  induction l generalizing i with
  | nil => cases h
  | cons b l ih =>
    cases i with
    | zero =>
      obtain rfl : b = a := by simpa using h
      rw [List.eraseIdx_cons_zero, List.filter_cons_of_neg (by simp [ha])]
    | succ i =>
      rw [List.eraseIdx_cons_succ, List.filter_cons, List.filter_cons, ih (by simpa using h)]

/-- What a modification does to one element relates the lists. -/
theorem forall₂_modify {R : α → α → Prop} {f : α → α} (hrefl : ∀ b, R b b)
    (h : ∀ b, l[i]? = some b → R b (f b)) : List.Forall₂ R l (l.modify i f) := by
  induction l generalizing i with
  | nil =>
    rw [List.modify_nil]
    exact .nil
  | cons b l ih =>
    cases i with
    | zero => exact .cons (h b rfl) (List.forall₂_same.2 fun c _ => hrefl c)
    | succ i => exact .cons (hrefl b) (ih fun c hc => h c hc)

theorem length_flatMap_modify_lt {β : Type} {f : α → α} {g : α → List β} (h : l[i]? = some a)
    (hf : (g (f a)).length < (g a).length) : ((l.modify i f).flatMap g).length < (l.flatMap g).length := by
  induction l generalizing i with
  | nil => cases h
  | cons b l ih =>
    cases i with
    | zero =>
      obtain rfl : b = a := by simpa using h
      simpa using hf
    | succ i =>
      have := ih (i := i) (by simpa using h)
      simpa using this

end

namespace FirBlock.Keeps

variable {p : FirValue → Bool} {block block' block'' : FirBlock}

theorem refl (block : FirBlock) : Keeps p block block := ⟨rfl, List.Sublist.refl _, rfl⟩

theorem trans (h : Keeps p block block') (h' : Keeps p block' block'') : Keeps p block block'' := by
  refine ⟨?_, h'.order.trans h.order, h'.kept.trans h.kept⟩
  rw [h'.same, h.same]

end FirBlock.Keeps

namespace FirFunc

variable {func s t u : FirFunc} {val : FirValue} {pos : Nat × Nat} {id : UInt32}
  {p : FirValue → Bool}

/-! ## What survives -/

/-- Block by block, the surviving values are in their order, and all that satisfy `p` survive. -/
structure Keeps (p : FirValue → Bool) (s t : FirFunc) : Prop where
  same : t = { s with blocks := t.blocks }
  blocks : List.Forall₂ (FirBlock.Keeps p) s.blocks t.blocks

theorem Keeps.refl (s : FirFunc) : Keeps p s s :=
  ⟨rfl, List.forall₂_same.2 fun block _ => FirBlock.Keeps.refl block⟩

theorem Keeps.trans (h : Keeps p s t) (h' : Keeps p t u) : Keeps p s u := by
  refine ⟨?_, ?_⟩
  · rw [h'.same, h.same]
  · refine List.forall₂_iff_get.2 ⟨?_, ?_⟩
    · exact h.blocks.length_eq.trans h'.blocks.length_eq
    · intro i hi hi''
      have hi' : i < t.blocks.length := by rwa [← h.blocks.length_eq]
      exact ((List.forall₂_iff_get.1 h.blocks).2 i hi hi').trans
        ((List.forall₂_iff_get.1 h'.blocks).2 i hi' hi'')

/-- The surviving values of the function are in their order. -/
theorem Keeps.values (h : Keeps p s t) : t.values.Sublist s.values := by
  unfold FirFunc.values
  have hblocks := h.blocks
  generalize s.blocks = bs, t.blocks = bs' at hblocks
  induction hblocks with
  | nil => exact List.Sublist.refl _
  | cons hb _ ih => exact hb.order.append ih

theorem keeps_removeAt (hval : func.valueAt? pos = some val) (hp : p val = false) :
    Keeps p func (func.removeAt pos) := by
  refine ⟨rfl, forall₂_modify (fun block => FirBlock.Keeps.refl block) fun block hblock => ?_⟩
  have hv : block.values[pos.2]? = some val := by
    unfold valueAt? at hval
    rwa [hblock] at hval
  exact ⟨rfl, List.eraseIdx_sublist _ _, filter_eraseIdx_of_not hv hp⟩

/-! ## Occurrences -/

/-- The id occurs among the operands and phi sources of the function. -/
def Occurs (func : FirFunc) (id : UInt32) : Prop := ∃ val ∈ func.values, val.Mentions id

theorem valueIsUsed_iff : func.valueIsUsed id = true ↔ func.Occurs id := by
  unfold valueIsUsed Occurs
  rw [List.any_eq_true]
  refine exists_congr fun val => and_congr_right fun _ => ?_
  simp only [Bool.or_eq_true, Bool.and_eq_true, List.any_eq_true, decide_eq_true_eq,
    FirValue.Mentions, exists_eq_right]
  refine ⟨fun h => ?_, .inl⟩
  rcases h with h | ⟨-, h | h⟩
  · exact h
  · exact .inl (List.mem_of_getElem? h)
  · exact .inl (List.mem_of_getElem? h)

theorem Keeps.occurs (h : Keeps p s t) (hid : t.Occurs id) : s.Occurs id := by
  obtain ⟨val, hval, hmentions⟩ := hid
  exact ⟨val, h.values.subset hval, hmentions⟩

/-! ## Removals -/

/-- The pass may remove the value at the position. -/
def Removable (func : FirFunc) (pos : Nat × Nat) (val : FirValue) : Prop :=
  func.valueAt? pos = some val ∧ val.essential = false ∧ ¬ func.Occurs val.id

/-- One removal, of a value whose id occurs nowhere at that moment. -/
def Removes (s t : FirFunc) : Prop := ∃ pos val, s.Removable pos val ∧ t = s.removeAt pos

/-- What a removal does not remove survives. -/
theorem Removes.keeps (h : Removes s t)
    (hp : ∀ val, val.essential = false → ¬ s.Occurs val.id → p val = false) : Keeps p s t := by
  obtain ⟨pos, val, ⟨hval, hessential, hoccurs⟩, rfl⟩ := h
  exact keeps_removeAt hval (hp val hessential hoccurs)

/-- A removal creates no occurrence. -/
theorem Removes.occurs (h : Removes s t) (hid : t.Occurs id) : s.Occurs id :=
  (h.keeps (p := fun _ => false) fun _ _ _ => rfl).occurs hid

theorem occurs_of_removals (h : ReflTransGen Removes s t) (hid : t.Occurs id) : s.Occurs id := by
  induction h with
  | refl => exact hid
  | tail _ hstep ih => exact ih (hstep.occurs hid)

theorem keeps_essential (h : ReflTransGen Removes s t) : Keeps FirValue.essential s t := by
  induction h with
  | refl => exact Keeps.refl s
  | tail _ hstep ih => exact ih.trans (hstep.keeps fun _ hessential _ => hessential)

/-- An id that occurs after removals has kept all its definitions. -/
theorem keeps_definitions (h : ReflTransGen Removes s t) (hid : t.Occurs id) :
    Keeps (fun val => val.id = id) s t := by
  induction h using ReflTransGen.head_induction_on with
  | refl => exact Keeps.refl t
  | head hstep hrest ih =>
    refine (hstep.keeps fun val _ hoccurs => decide_eq_false fun heq => hoccurs ?_).trans ih
    rw [heq]
    exact hstep.occurs (occurs_of_removals hrest hid)

theorem removeAt_length (h : func.valueAt? pos = some val) :
    (func.removeAt pos).values.length < func.values.length := by
  obtain ⟨block, hblock, hval⟩ := Option.bind_eq_some_iff.1 h
  refine length_flatMap_modify_lt hblock ?_
  have hlt := (List.getElem?_eq_some_iff.1 hval).1
  show (block.values.eraseIdx pos.2).length < _
  rw [List.length_eraseIdx_of_lt hlt]
  omega

/-! ## A round of the pass -/

theorem dceVisit_cases (changed : Bool) (pos : Nat × Nat) :
    (dceVisit (s, changed) pos = (s, changed) ∧ ∀ val, ¬ s.Removable pos val) ∨
    ∃ val, s.Removable pos val ∧ dceVisit (s, changed) pos = (s.removeAt pos, true) := by
  cases hval : s.valueAt? pos with
  | none =>
    refine .inl ⟨by simp only [dceVisit, hval], fun val h => ?_⟩
    rw [h.1] at hval
    cases hval
  | some val =>
    by_cases h : (val.essential || s.valueIsUsed val.id) = true
    · refine .inl ⟨?_, fun val' h' => ?_⟩
      · simp only [dceVisit, hval]
        exact if_pos h
      · obtain rfl : val' = val := Option.some.inj (h'.1.symm.trans hval)
        rcases Bool.or_eq_true_iff.1 h with h | h
        · exact absurd (h.symm.trans h'.2.1) (by decide)
        · exact h'.2.2 (valueIsUsed_iff.1 h)
    · obtain ⟨hessential, hused⟩ := Bool.or_eq_false_iff.1 (Bool.eq_false_iff.2 h)
      refine .inr ⟨val, ⟨hval, hessential, fun hoccurs => ?_⟩, ?_⟩
      · exact absurd ((valueIsUsed_iff.2 hoccurs).symm.trans hused) (by decide)
      · simp only [dceVisit, hval]
        exact if_neg h

/-- What visits do: they remove values, and where they change the state it gets smaller. -/
structure Sweeps (s t : FirFunc × Bool) : Prop where
  removes : ReflTransGen Removes s.1 t.1
  shrinks : t = s ∨ (t.2 = true ∧ t.1.values.length < s.1.values.length)

theorem Sweeps.trans {s t u : FirFunc × Bool} (h : Sweeps s t) (h' : Sweeps t u) : Sweeps s u := by
  refine ⟨h.removes.trans h'.removes, ?_⟩
  rcases h'.shrinks with rfl | ⟨hu, hlt⟩
  · exact h.shrinks
  · rcases h.shrinks with rfl | ⟨-, hlt'⟩
    · exact .inr ⟨hu, hlt⟩
    · exact .inr ⟨hu, Nat.lt_trans hlt hlt'⟩

theorem dceVisit_sweeps (s : FirFunc × Bool) (pos : Nat × Nat) : Sweeps s (dceVisit s pos) := by
  obtain ⟨s, changed⟩ := s
  rcases dceVisit_cases (s := s) changed pos with ⟨heq, -⟩ | ⟨val, hval, heq⟩
  · rw [heq]
    exact ⟨ReflTransGen.refl, .inl rfl⟩
  · rw [heq]
    exact ⟨ReflTransGen.single ⟨pos, val, hval, rfl⟩, .inr ⟨rfl, removeAt_length hval.1⟩⟩

theorem dceVisits_sweeps (l : List (Nat × Nat)) (s : FirFunc × Bool) :
    Sweeps s (l.foldl dceVisit s) := by
  induction l generalizing s with
  | nil => exact ⟨ReflTransGen.refl, .inl rfl⟩
  | cons pos l ih => exact (dceVisit_sweeps s pos).trans (ih _)

/-- Visits that change nothing find nothing to remove. -/
theorem not_removable_of_unchanged {l : List (Nat × Nat)}
    (h : (l.foldl dceVisit (s, false)).2 = false) (hpos : pos ∈ l) : ¬ s.Removable pos val := by
  induction l with
  | nil => cases hpos
  | cons q l ih =>
    rw [List.foldl_cons] at h
    rcases dceVisit_cases (s := s) false q with ⟨heq, hnone⟩ | ⟨w, -, heq⟩
    · rw [heq] at h
      rcases List.mem_cons.1 hpos with rfl | hpos
      · exact hnone val
      · exact ih h hpos
    · rw [heq] at h
      rcases (dceVisits_sweeps l (s.removeAt q, true)).shrinks with hsame | ⟨htrue, -⟩
      · rw [hsame] at h
        cases h
      · rw [htrue] at h
        cases h

theorem mem_positionsBackwards (h : func.valueAt? pos = some val) : pos ∈ func.positionsBackwards := by
  have hpos : pos ∈ func.positions := mem_positions_iff.2 ⟨val, h⟩
  unfold positions at hpos
  unfold positionsBackwards
  obtain ⟨block, hblock, hmem⟩ := List.mem_flatMap.1 hpos
  refine List.mem_flatMap.2 ⟨block, hblock, ?_⟩
  simpa using hmem

theorem dceSweep_sweeps (func : FirFunc) : Sweeps (func, false) func.dceSweep := dceVisits_sweeps _ _

/-- A sweep that reports no change leaves the function as it is, and there is nothing to remove. -/
theorem dceSweep_of_unchanged (h : func.dceSweep.2 = false) :
    func.dceSweep = (func, false) ∧ ∀ pos val, ¬ func.Removable pos val := by
  refine ⟨?_, fun pos val hval => ?_⟩
  · rcases (dceSweep_sweeps func).shrinks with hsame | ⟨htrue, -⟩
    · exact hsame
    · rw [htrue] at h
      cases h
  · exact not_removable_of_unchanged h (mem_positionsBackwards hval.1) hval

/-! ## The pass -/

/-- What `fir_dead_code_elim` makes of a function. -/
structure DeadCodeEliminated (s t : FirFunc) : Prop where
  /-- Values are removed one by one, none that is essential, and each when its id occurs nowhere. -/
  removes : ReflTransGen Removes s t
  /-- Every terminator and every operation with a side effect is kept, and the order in each block. -/
  essential : Keeps FirValue.essential s t
  /-- An id that occurs in the result has all the definitions that it had. -/
  definitions : ∀ id, t.Occurs id → Keeps (fun val => val.id = id) s t
  /-- Whatever is left otherwise occurs in the result. -/
  needed : ∀ val ∈ t.values, val.essential = false → t.Occurs val.id

/-- The rounds of the pass end within one round for each value and one more. -/
theorem firDeadCodeElim_ends (func : FirFunc) :
    ∃ t, ∀ fuel > func.values.length, firDeadCodeElim fuel func = some (.ok t) := by
  refine rounds_of_measure (fun func : FirFunc => func.values.length) fun s : FirFunc =>
    ⟨s.dceSweep.1, s.dceSweep.2, rfl, fun h => ?_⟩
  rcases (dceSweep_sweeps s).shrinks with hsame | ⟨-, hlt⟩
  · rw [hsame] at h
    cases h
  · exact hlt

/-- The pass removes values until nothing can be removed. -/
theorem removes_of_firDeadCodeElim {fuel : Nat} (h : firDeadCodeElim fuel func = some (.ok t)) :
    ReflTransGen Removes func t ∧ t.dceSweep = (t, false) ∧ ∀ pos val, ¬ t.Removable pos val := by
  obtain ⟨u, hu, hround⟩ := roundsTo_iff.1 ⟨fuel, h⟩
  have hlast : u.dceSweep = (t, false) := Except.ok.inj hround
  obtain ⟨hsame, hnone⟩ := dceSweep_of_unchanged (show u.dceSweep.2 = false by rw [hlast])
  obtain rfl : t = u := congrArg Prod.fst (hlast.symm.trans hsame)
  refine ⟨?_, hsame, hnone⟩
  clear hlast hsame hnone hround h
  induction hu with
  | refl => exact ReflTransGen.refl
  | @tail v w _ hstep ih =>
    have hsweep : v.dceSweep = (w, true) := Except.ok.inj hstep
    have hremoves := (dceSweep_sweeps v).removes
    rw [hsweep] at hremoves
    exact ih.trans hremoves

theorem deadCodeEliminated_of_removes (h : ReflTransGen Removes func t)
    (hnone : ∀ pos val, ¬ t.Removable pos val) : DeadCodeEliminated func t := by
  refine ⟨h, keeps_essential h, fun _ hid => keeps_definitions h hid, fun val hval hessential => ?_⟩
  obtain ⟨pos, hpos⟩ := mem_values_iff.1 hval
  exact by_contra fun hoccurs => hnone pos val ⟨hpos, hessential, hoccurs⟩

/-- The pass ends, whatever the function is; its result contains no dead code, and the pass does not
change it. -/
theorem firDeadCodeElim_spec (func : FirFunc) :
    ∃ t, (∀ fuel > func.values.length, firDeadCodeElim fuel func = some (.ok t)) ∧
      DeadCodeEliminated func t ∧ ∀ fuel > 0, firDeadCodeElim fuel t = some (.ok t) := by
  obtain ⟨t, ht⟩ := firDeadCodeElim_ends func
  obtain ⟨hremoves, hsweep, hnone⟩ := removes_of_firDeadCodeElim (ht _ (Nat.lt_succ_self _))
  refine ⟨t, ht, deadCodeEliminated_of_removes hremoves hnone, fun fuel hfuel => ?_⟩
  obtain ⟨n, rfl⟩ : ∃ n, fuel = n + 1 := ⟨fuel - 1, by omega⟩
  show rounds _ (n + 1) t = _
  rw [rounds, hsweep]
  rfl

end FirFunc

end FluxOs
