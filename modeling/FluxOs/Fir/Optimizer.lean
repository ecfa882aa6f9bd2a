import FluxOs.Fir.Ids
import FluxOs.Fir.Meaning
import FluxOs.Lib.Diverging
import Mathlib.Algebra.GroupWithZero.Nat

/-!
# The optimizer

`fir_validate` and `fir_optimize`, which runs constant folding and dead code elimination over all functions of a
module, and three times more at level 2.  The first round leaves nothing to do for the others: a value that survives
dead code elimination has kept its constant operands, and folding had found nothing to do with them.

Level 3 also calls `fir_inline_small`, which only marks calls, in a field that values do not have and that nothing
reads; it is left out.
-/

namespace FluxOs

open Faulting Relation

/-- `fir_validate`. -/
def firValidate (mod : FirModule) : Bool := mod.funcs.all fun func => func.firValidateFunc = 0

namespace FirFunc

/-! ## The passes over a function -/

/-- `fir_constant_fold(func); fir_dead_code_elim(func);`, with at most `fuel` rounds for each. -/
def foldAndEliminate (fuel : Nat) (func : FirFunc) : Diverging FoldFault FirFunc := do
  let t ← ExceptT.mk (firConstantFold fuel func)
  ExceptT.mk ((firDeadCodeElim fuel t).map fun r => r.mapError Empty.elim)

/-- The loop over `pass`, with `n` turns to go. -/
def repeatPasses (fuel : Nat) : Nat → FirFunc → Diverging FoldFault FirFunc
  | 0, func => pure func
  | n + 1, func => foldAndEliminate fuel func >>= repeatPasses fuel n

/-- The body of the loop of `fir_optimize`: the number that it adds to `total_changes`, and the function. -/
def optimize (fuel : Nat) (level : Int) (func : FirFunc) : Diverging FoldFault (Int × FirFunc) := do
  let prevVals := func.values.length
  let t ← foldAndEliminate fuel func
  let newVals := t.values.length
  let u ← (if level ≥ 2 then repeatPasses fuel 3 else pure) t
  return (prevVals - newVals, u)

end FirFunc

/-- The loop of `fir_optimize` over the functions. -/
def optimizeFuncs (fuel : Nat) (level : Int) : List FirFunc → Diverging FoldFault (Int × List FirFunc)
  | [] => pure (0, [])
  | func :: funcs => do
    let (changes, func) ← func.optimize fuel level
    let (rest, funcs) ← optimizeFuncs fuel level funcs
    return (changes + rest, func :: funcs)

/-- `fir_optimize`: `total_changes` and the module. -/
def firOptimize (fuel : Nat) (mod : FirModule) (level : Int) : Diverging FoldFault (Int × FirModule) :=
  if level = 0 then pure (0, mod)
  else do
    let (totalChanges, funcs) ← optimizeFuncs fuel level mod.funcs
    return (totalChanges, { mod with funcs })

/-- The number of values of a module. -/
def FirModule.size (mod : FirModule) : Nat := (mod.funcs.map fun func => func.values.length).sum

namespace FirFunc

open Diverging

variable {func s t u : FirFunc} {val : FirValue} {rule : FoldRule} {fuel fuel' : Nat} {id : UInt32}

theorem foldAndEliminate_returns : (foldAndEliminate fuel func).Returns u ↔
    ∃ t, firConstantFold fuel func = some (.ok t) ∧ firDeadCodeElim fuel t = some (.ok u) := by
  have helim (t : FirFunc) : Returns (ExceptT.mk ((firDeadCodeElim fuel t).map fun r => r.mapError Empty.elim) :
      Diverging FoldFault FirFunc) u ↔ firDeadCodeElim fuel t = some (.ok u) := by
    unfold Returns
    rw [ExceptT.run_mk]
    cases firDeadCodeElim fuel t with
    | none => simp
    | some r =>
      rcases r with ⟨⟨⟩⟩ | r
      simp [Except.mapError]
  rw [foldAndEliminate, returns_bind]
  exact exists_congr fun t => and_congr Iff.rfl (helim t)

/-! ## What one round leaves to do -/

/-- No rule of constant folding applies to a value. -/
def Settled (func : FirFunc) : Prop := ∀ val ∈ func.values, ∀ rule ∈ foldRules, rule func val = .ok none

/-- Constant folding ends with a round in which no rule applied. -/
theorem settled_of_fold (h : firConstantFold fuel func = some (.ok t)) : t.Settled := by
  obtain ⟨u, -, ht⟩ := roundsTo_iff.1 ⟨fuel, h⟩
  obtain ⟨rfl, hquiet⟩ := trials_flagged.quiet (foldSweep_eq_trials.symm.trans ht)
  intro val hval rule hrule
  obtain ⟨pos, hpos⟩ := mem_values_iff.1 hval
  rcases tryRule_cases (hquiet (pos, rule) (mem_trials.2 ⟨mem_positions_iff.2 ⟨val, hpos⟩, hrule⟩)) with
    ⟨-, hnone⟩ | ⟨_, _, -, -, heq⟩
  · exact hnone val hpos
  · cases (Prod.mk.inj heq).2

theorem Settled.fold (h : func.Settled) (hfuel : 0 < fuel) : firConstantFold fuel func = some (.ok func) := by
  have hsweep : func.foldSweep = .ok (func, false) := by
    rw [foldSweep_eq_trials]
    refine sweep_fixed fun ⟨pos, rule⟩ hp => ?_
    obtain ⟨hpos, hrule⟩ := mem_trials.1 hp
    obtain ⟨val, hval⟩ := mem_positions_iff.1 hpos
    simp only [tryRule, hval, h val (mem_values_iff.2 ⟨pos, hval⟩) rule hrule]
    rfl
  obtain ⟨n, rfl⟩ : ∃ n, fuel = n + 1 := ⟨fuel - 1, by omega⟩
  show rounds _ (n + 1) func = _
  rw [rounds, hsweep]
  rfl

/-- A rule looks up the operands of the value only. -/
theorem rule_congr (hrule : rule ∈ foldRules) (h : ∀ x ∈ val.operands, t.getConstInt x = s.getConstInt x) :
    rule t val = rule s val := by
  have hbinary (applies : FirOp → Bool) (fold : FirOp → Int64 → Int64 → Except FoldFault (Option Int64)) :
      binaryRule applies fold t val = binaryRule applies fold s val := by
    unfold binaryRule
    rcases hops : val.operands with _ | ⟨x, _ | ⟨y, rest⟩⟩
    · rfl
    · rfl
    · simp only [h x (by simp [hops]), h y (by simp [hops])]
  have hneg : negRule t val = negRule s val := by
    unfold negRule
    rcases hops : val.operands with _ | ⟨x, rest⟩
    · cases val.op
      all_goals rfl
    · have hx := h x (by simp [hops])
      cases val.op
      all_goals simp only [hx]
  have hidentity : rightRule t val = rightRule s val ∧ leftRule t val = leftRule s val := by
    unfold rightRule leftRule
    rcases hops : val.operands with _ | ⟨x, _ | ⟨y, rest⟩⟩
    · exact ⟨rfl, rfl⟩
    · exact ⟨rfl, rfl⟩
    · simp only [h x (by simp [hops]), h y (by simp [hops]), and_self]
  simp only [foldRules, List.mem_cons, List.not_mem_nil, or_false] at hrule
  rcases hrule with rfl | rfl | rfl | rfl | rfl | rfl
  · exact hbinary _ _
  · exact hbinary _ _
  · exact hbinary _ _
  · exact hneg
  · exact hidentity.1
  · exact hidentity.2

theorem Keeps.getConstInt (h : Keeps (fun val => val.id = id) s t) : t.getConstInt id = s.getConstInt id := by
  have hfilter : t.values.filter (fun val => decide (val.id = id)) =
      s.values.filter fun val => decide (val.id = id) := by
    unfold FirFunc.values
    have hblocks := h.blocks
    generalize s.blocks = bs, t.blocks = bs' at hblocks
    induction hblocks with
    | nil => rfl
    | cons hb _ ih => rw [List.flatMap_cons, List.flatMap_cons, List.filter_append, List.filter_append, hb.kept, ih]
  have hfind (l : List FirValue) : (l.find? fun val => val.id = id && val.op = .CONST) =
      (l.filter fun val => decide (val.id = id)).find? fun val => decide (val.op = .CONST) := by
    rw [List.find?_filter]
    simp
  rw [FirFunc.getConstInt, FirFunc.getConstInt, hfind, hfind, hfilter]

/-- Dead code elimination keeps the constants that the values left over use. -/
theorem Settled.eliminate (h : s.Settled) (ht : ReflTransGen Removes s t) : t.Settled := by
  intro val hval rule hrule
  rw [rule_congr hrule fun x hx => (keeps_definitions ht ⟨val, hval, .inl hx⟩).getConstInt]
  exact h val ((keeps_essential ht).values.subset hval) rule hrule

/-- One round after another changes nothing. -/
theorem foldAndEliminate_again (h : (foldAndEliminate fuel func).Returns u) (hfuel : 0 < fuel') :
    (foldAndEliminate fuel' u).Returns u := by
  obtain ⟨t, hfold, helim⟩ := foldAndEliminate_returns.1 h
  obtain ⟨hremoves, hsweep, -⟩ := removes_of_firDeadCodeElim helim
  refine foldAndEliminate_returns.2 ⟨u, ((settled_of_fold hfold).eliminate hremoves).fold hfuel, ?_⟩
  obtain ⟨n, rfl⟩ : ∃ n, fuel' = n + 1 := ⟨fuel' - 1, by omega⟩
  show rounds _ (n + 1) u = _
  rw [rounds, hsweep]
  rfl

theorem pos_of_foldAndEliminate (h : (foldAndEliminate fuel func).Returns u) : 0 < fuel := by
  rcases Nat.eq_zero_or_pos fuel with rfl | hpos
  · cases h
  · exact hpos

theorem foldAndEliminate_mono (hle : fuel ≤ fuel') (h : (foldAndEliminate fuel func).Returns u) :
    (foldAndEliminate fuel' func).Returns u := by
  obtain ⟨t, hfold, helim⟩ := foldAndEliminate_returns.1 h
  exact foldAndEliminate_returns.2 ⟨t, rounds_mono hle hfold, rounds_mono hle helim⟩

/-- The passes return where constant folding does. -/
theorem exists_foldAndEliminate : (∃ fuel u, (foldAndEliminate fuel func).Returns u) ↔ func.FoldReturns := by
  constructor
  · rintro ⟨fuel, u, h⟩
    obtain ⟨t, hfold, -⟩ := foldAndEliminate_returns.1 h
    exact ⟨fuel, t, hfold⟩
  · rintro ⟨fuel, t, hfold⟩
    obtain ⟨u, helim⟩ := firDeadCodeElim_ends t
    refine ⟨max fuel (t.values.length + 1), u, foldAndEliminate_returns.2 ⟨t, ?_, helim _ ?_⟩⟩
    · exact rounds_mono (Nat.le_max_left _ _) hfold
    · exact Nat.lt_of_succ_le (Nat.le_max_right _ _)

theorem repeatPasses_again (h : (foldAndEliminate fuel func).Returns u) (n : Nat) :
    (repeatPasses fuel n u).Returns u := by
  induction n with
  | zero => rfl
  | succ n ih => exact returns_bind.2 ⟨u, foldAndEliminate_again h (pos_of_foldAndEliminate h), ih⟩

/-- What `fir_optimize` does to a function does not depend on the level. -/
theorem optimize_returns {level n : Int} : (optimize fuel level func).Returns (n, u) ↔
    (foldAndEliminate fuel func).Returns u ∧ n = func.values.length - u.values.length := by
  have hrest {t u : FirFunc} (ht : (foldAndEliminate fuel func).Returns t) :
      Returns ((if level ≥ 2 then repeatPasses fuel 3 else pure) t) u ↔ t = u := by
    split_ifs
    · have hrepeat := repeatPasses_again ht 3
      constructor
      · intro hu
        exact Except.ok.inj (Option.some.inj (hrepeat.symm.trans hu))
      · rintro rfl
        exact hrepeat
    · exact returns_pure
  rw [optimize, returns_bind]
  constructor
  · rintro ⟨t, ht, h⟩
    obtain ⟨t', ht', heq⟩ := returns_bind.1 h
    obtain rfl := (hrest ht).1 ht'
    obtain ⟨rfl, rfl⟩ := Prod.mk.inj (returns_pure.1 heq)
    exact ⟨ht, rfl⟩
  · rintro ⟨ht, rfl⟩
    exact ⟨u, ht, returns_bind.2 ⟨u, (hrest ht).2 rfl, returns_pure.2 rfl⟩⟩

/-! ## What the passes preserve -/

/-- The id of a value that equals an operand is not the block id of a branch. -/
def TargetsApart (func : FirFunc) : Prop :=
  ∀ val ∈ func.values, ∀ z, val.EqualsOperand func.EvalsTo z → ¬ func.IsTarget val.id

theorem foldAndEliminate_preserves (hvalid : func.firValidateFunc = 0) (hid : func.DistinctIds)
    (hapart : func.TargetsApart) (h : (foldAndEliminate fuel func).Returns u) : func.Preserved u := by
  obtain ⟨t, hfold, helim⟩ := foldAndEliminate_returns.1 h
  obtain ⟨v, hv, hsweep⟩ := roundsTo_iff.1 ⟨fuel, hfold⟩
  have hswept : func.Swept t := by
    refine ReflTransGen.tail (ReflTransGen.mono ?_ _ _ hv) ⟨false, hsweep⟩
    exact fun _ _ hstep => ⟨true, hstep⟩
  have hfolded : func.Folded t := hswept.folded hid fun s hs id hreplaces htarget => by
    obtain ⟨val, hval, rfl, z, heq⟩ := exists_identity_of_replaces hid hs hreplaces
    exact hapart val hval z heq htarget
  obtain ⟨hremoves, -, -⟩ := removes_of_firDeadCodeElim helim
  constructor
  · exact (hfolded.keepsMeaning hid).trans (keepsMeaning_of_removes hremoves)
  · exact firValidateFunc_of_removes hremoves (firValidateFunc_of_folded hid hfolded hvalid)

end FirFunc

/-! ## The module -/

section Module

open Diverging FirFunc

variable {mod mod' : FirModule} {funcs funcs' : List FirFunc} {fuel fuel' : Nat} {level n : Int}

theorem optimizeFuncs_returns : (optimizeFuncs fuel level funcs).Returns (n, funcs') ↔
    List.Forall₂ (fun func t => (foldAndEliminate fuel func).Returns t) funcs funcs' ∧
      n = FirModule.size ⟨funcs⟩ - FirModule.size ⟨funcs'⟩ := by
  induction funcs generalizing n funcs' with
  | nil =>
    rw [optimizeFuncs, returns_pure, Prod.mk.injEq, List.forall₂_nil_left_iff]
    constructor
    · rintro ⟨rfl, rfl⟩
      exact ⟨rfl, rfl⟩
    · rintro ⟨rfl, rfl⟩
      exact ⟨rfl, rfl⟩
  | cons func funcs ih =>
    rw [optimizeFuncs, returns_bind]
    constructor
    · rintro ⟨⟨changes, t⟩, ht, h⟩
      obtain ⟨⟨rest, ts⟩, hts, heq⟩ := returns_bind.1 h
      obtain ⟨rfl, rfl⟩ := Prod.mk.inj (returns_pure.1 heq)
      obtain ⟨hpass, rfl⟩ := optimize_returns.1 ht
      obtain ⟨hpasses, rfl⟩ := ih.1 hts
      refine ⟨.cons hpass hpasses, ?_⟩
      simp only [FirModule.size, List.map_cons, List.sum_cons]
      omega
    · rintro ⟨h, rfl⟩
      obtain ⟨t, ts, ht, hts, rfl⟩ := List.forall₂_cons_left_iff.1 h
      refine ⟨_, optimize_returns.2 ⟨ht, rfl⟩, returns_bind.2 ⟨_, ih.2 ⟨hts, rfl⟩, returns_pure.2 ?_⟩⟩
      simp only [FirModule.size, List.map_cons, List.sum_cons, Prod.mk.injEq, and_true]
      omega

/-- The optimizer applies the passes once to each function, at all levels but 0. -/
theorem firOptimize_returns (hlevel : level ≠ 0) : (firOptimize fuel mod level).Returns (n, mod') ↔
    List.Forall₂ (fun func t => (foldAndEliminate fuel func).Returns t) mod.funcs mod'.funcs ∧
      n = mod.size - mod'.size := by
  rw [firOptimize, if_neg hlevel, returns_bind]
  constructor
  · rintro ⟨⟨changes, funcs⟩, h, heq⟩
    obtain ⟨rfl, rfl⟩ := Prod.mk.inj (returns_pure.1 heq)
    exact optimizeFuncs_returns.1 h
  · intro h
    exact ⟨_, optimizeFuncs_returns.2 h, returns_pure.2 rfl⟩

/-- `return 5 + 0`. -/
def fiveModule : FirModule := ⟨[addZeroFunc.modifyAt (0, 0) (FirValue.toConst 5)]⟩

theorem firValidate_iff : firValidate mod = true ↔ ∀ func ∈ mod.funcs, func.firValidateFunc = 0 := by
  simp [firValidate]

/-- The optimizer returns when folding returns for every function. -/
theorem exists_firOptimize (hlevel : level ≠ 0) :
    (∃ fuel r, (firOptimize fuel mod level).Returns r) ↔ ∀ func ∈ mod.funcs, func.FoldReturns := by
  constructor
  · rintro ⟨fuel, ⟨n, mod'⟩, h⟩ func hfunc
    obtain ⟨i, hi⟩ := List.mem_iff_getElem?.1 hfunc
    obtain ⟨t, -, ht⟩ := exists_of_forall₂ ((firOptimize_returns hlevel).1 h).1 hi
    exact exists_foldAndEliminate.1 ⟨fuel, t, ht⟩
  · intro h
    have hmono {m n : Nat} (hle : m ≤ n) (func t : FirFunc) :
        (foldAndEliminate m func).Returns t → (foldAndEliminate n func).Returns t := foldAndEliminate_mono hle
    obtain ⟨fuel, funcs, hfuncs⟩ := exists_forall₂_of_mono hmono fun func hfunc =>
        exists_foldAndEliminate.2 (h func hfunc)
    exact ⟨fuel, ⟨_, ⟨funcs⟩⟩, (firOptimize_returns hlevel).2 ⟨hfuncs, rfl⟩⟩

/-- A module that `fir_validate` accepts, with distinct ids in each function, none of which is replaced and also the
block id of a branch: the optimizer returns if and only if no division overflows in the compiler and every value
that equals an operand is a constant.  Then each function keeps its meaning, `fir_validate` accepts the result, and
the return value is the number of values that are gone. -/
theorem firOptimize_spec (hlevel : level ≠ 0) (hvalid : firValidate mod = true)
    (hssa : ∀ func ∈ mod.funcs, func.DistinctIds ∧ func.TargetsApart) :
    ((∃ fuel r, (firOptimize fuel mod level).Returns r) ↔ ∀ func ∈ mod.funcs, func.FoldsSafely) ∧
      ∀ fuel n mod', (firOptimize fuel mod level).Returns (n, mod') →
        List.Forall₂ FirFunc.KeepsMeaning mod.funcs mod'.funcs ∧ firValidate mod' = true ∧
          n = mod.size - mod'.size := by
  constructor
  · rw [exists_firOptimize hlevel]
    refine forall₂_congr fun func hfunc => ⟨?_, FoldsSafely.foldReturns⟩
    exact foldsSafely_of_foldReturns (hssa func hfunc).1
  · intro fuel n mod' h
    obtain ⟨hfuncs, hn⟩ := (firOptimize_returns hlevel).1 h
    have hpreserved : List.Forall₂ FirFunc.Preserved mod.funcs mod'.funcs := by
      refine (List.forall₂_and_left _ _).2 ⟨fun func hfunc => hfunc, hfuncs⟩ |>.imp fun func t h => ?_
      exact foldAndEliminate_preserves (firValidate_iff.1 hvalid func h.1) (hssa func h.1).1 (hssa func h.1).2 h.2
    refine ⟨hpreserved.imp fun _ _ h => h.meaning, firValidate_iff.2 fun t ht => ?_, hn⟩
    obtain ⟨i, hi⟩ := List.mem_iff_getElem?.1 ht
    obtain ⟨func, -, hfunc⟩ := exists_of_forall₂ hpreserved.flip hi
    exact hfunc.valid

/-- The module with `return 5 + 0` has no branches. -/
theorem firOptimize_spec_five : (∃ fuel r, (firOptimize fuel fiveModule 3).Returns r) ↔
    ∀ func ∈ fiveModule.funcs, func.FoldsSafely := by
  refine (firOptimize_spec (by decide) (by decide +kernel) fun func hfunc => ?_).1
  obtain rfl := List.mem_singleton.1 hfunc
  refine ⟨distinctIds_iff.2 (by decide), fun val hval z heq htarget => ?_⟩
  obtain ⟨w, hw, hop, -⟩ := htarget
  have hnone : ∀ w ∈ (addZeroFunc.modifyAt (0, 0) (FirValue.toConst 5)).values, w.op ≠ .BRANCH := by decide
  exact hnone w hw hop

end Module

end FluxOs
