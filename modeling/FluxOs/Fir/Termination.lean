import FluxOs.Fir.Folding
import Mathlib.Data.Finset.Card

/-!
# When constant folding ends

`fir_constant_fold` repeats its round while one changes anything, and a value that equals an operand is
replaced anew in every round.  So the rounds end when every such operand evaluates, and the value turns
into a constant in the end; and when values have distinct ids they end only then.
-/

namespace FluxOs

open Faulting Relation

namespace FirFunc

variable {func func0 s t : FirFunc} {val : FirValue} {pos : Nat × Nat} {id z : UInt32} {n : Int64}
  {k : Nat}

/-- `fir_constant_fold` returns. -/
def FoldReturns (func : FirFunc) : Prop := ∃ fuel t, firConstantFold fuel func = some (.ok t)

/-- No value divides `INT64_MIN` by `-1`, and whatever equals an operand turns into a constant, since
that operand evaluates. -/
structure FoldsSafely (func : FirFunc) : Prop where
  noTrap : ∀ val ∈ func.values, ¬ val.Traps func.EvalsTo
  identities : ∀ val ∈ func.values, ∀ z, val.EqualsOperand func.EvalsTo z →
    func.DistinctIds ∧ ∃ n, func.EvalsTo z n

theorem FoldsSafely.identitiesBelow (h : func.FoldsSafely) : func.IdentitiesBelow :=
  fun val hval z heq => (h.identities val hval z heq).1.identitiesBelow val hval z heq

/-! ## Folding keeps track of the function -/

theorem Tracks.tryRule (ht : Tracks func0 s) (hbelow : func0.IdentitiesBelow) {rule : FoldRule}
    (hrule : rule ∈ foldRules) {c c' : Bool} (h : tryRule pos (s, c) rule = .ok (t, c')) :
    Tracks func0 t := by
  rcases tryRule_cases h with ⟨heq, -⟩ | ⟨w, r, hw, hr, heq⟩
  · cases heq
    exact ht
  · cases heq
    exact ht.rewrite hbelow hw ((sound_of_mem_foldRules hrule).fires hr)

theorem Tracks.foldVisit (ht : Tracks func0 s) (hbelow : func0.IdentitiesBelow) {c c' : Bool}
    (h : foldVisit (s, c) pos = .ok (t, c')) : Tracks func0 t :=
  sweep_invariant (I := fun s => Tracks func0 s.1)
    (fun _ _ _ hrule hs ht => Tracks.tryRule hs hbelow hrule ht) ht h

theorem Tracks.foldSweep (ht : Tracks func0 s) (hbelow : func0.IdentitiesBelow) {c : Bool}
    (h : s.foldSweep = .ok (t, c)) : Tracks func0 t :=
  sweep_invariant (I := fun s => Tracks func0 s.1)
    (fun _ _ _ _ hs ht => Tracks.foldVisit hs hbelow ht) ht h

theorem Tracks.rounds (ht : Tracks func0 s) (hbelow : func0.IdentitiesBelow)
    (h : ReflTransGen (Changes FirFunc.foldSweep) s t) : Tracks func0 t := by
  induction h with
  | refl => exact ht
  | tail _ h ih => exact ih.foldSweep hbelow h

/-- A value that traps in the middle of folding traps in the beginning. -/
theorem Tracks.traps (ht : Tracks func0 s) {w : FirValue} (hw : Tracked func0 val w)
    (h : w.Traps s.Consts) : val.Traps func0.EvalsTo := by
  obtain ⟨-, ⟨hop, -⟩ | ⟨hop, -, hops⟩⟩ := hw
  · obtain ⟨-, -, -, -, hdiv, -⟩ := h
    simp [hop] at hdiv
  · exact h.congr hop.symm (List.Forall₂.flip (hops.imp fun x y hxy a ha => hxy.backward a (ht.consts ha)))

/-- A round returns where no value of the beginning traps. -/
theorem foldSweep_returns (ht : Tracks func0 s) (hbelow : func0.IdentitiesBelow)
    (hnoTrap : ∀ val ∈ func0.values, ¬ val.Traps func0.EvalsTo) : ∃ t c, s.foldSweep = .ok (t, c) := by
  have hstep (u : FirFunc × Bool) (p : (Nat × Nat) × FoldRule) (hp : p ∈ s.trials)
      (hu : Tracks func0 u.1) : ∃ v, FirFunc.tryRule p.1 u p.2 = .ok v ∧ Tracks func0 v.1 := by
    obtain ⟨u, c⟩ := u
    obtain ⟨pos, rule⟩ := p
    have hrule := (mem_trials.1 hp).2
    cases h : FirFunc.tryRule pos (u, c) rule with
    | ok t => exact ⟨t, rfl, hu.tryRule hbelow hrule h⟩
    | error e =>
      obtain ⟨w, hw, he⟩ := tryRule_error h
      obtain ⟨val, hval, htracked⟩ := hu.of_some hw
      exact absurd (hu.traps htracked ((sound_of_mem_foldRules hrule).traps he))
        (hnoTrap val (mem_values_iff.2 ⟨pos, hval⟩))
  obtain ⟨⟨t, c⟩, h, -⟩ :=
    sweep_returns (I := fun s : FirFunc × Bool => Tracks func0 s.1) hstep (s := (s, false)) ht
  exact ⟨t, c, foldSweep_eq_trials.trans h⟩

/-! ## A round without a new constant -/

/-- With distinct ids a constant holds what its id evaluates to. -/
theorem Tracks.consts_of_const (ht : Tracks func0 s) (hid : func0.DistinctIds)
    (hval : s.valueAt? pos = some val) (hop : val.op = .CONST) (hn : func0.EvalsTo val.id n) :
    s.Consts val.id n := by
  obtain ⟨m, hm⟩ := exists_consts (mem_values_iff.2 ⟨pos, hval⟩) hop
  rwa [← EvalsTo.unique hid (ht.consts hm) hn]

theorem Tracks.consts_advance (hs : Tracks func0 s) (ht : Tracks func0 t) (hid : func0.DistinctIds)
    (hst : Advances s t) (hn : s.Consts id n) : t.Consts id n := by
  obtain ⟨val, hval, rfl, hop, -⟩ := consts_mem hn
  obtain ⟨pos, hpos⟩ := mem_values_iff.1 hval
  obtain ⟨w, hw, hwid, hconst⟩ := hst pos val hpos
  rw [← hwid]
  exact ht.consts_of_const hid hw (hconst hop) (by rw [hwid]; exact hs.consts hn)

/-- The state in which a round visits the value at a position. -/
theorem exists_visit (hbelow : func0.IdentitiesBelow) (hs : Tracks func0 s) {c : Bool}
    (h : s.foldSweep = .ok (t, c)) (hpos : pos ∈ s.positions) :
    ∃ u cu v cv, Advances s u ∧ Tracks func0 u ∧ foldVisit (u, cu) pos = .ok (v, cv) ∧ Advances v t := by
  obtain ⟨⟨u, cu⟩, ⟨v, cv⟩, ⟨hsu, hu⟩, hvisit, hvt, -⟩ :=
    sweep_visits (R := fun s t : FirFunc × Bool =>
        Advances s.1 t.1 ∧ (Tracks func0 s.1 → Tracks func0 t.1))
      (fun s => ⟨.refl s.1, fun h => h⟩)
      (fun _ _ _ h h' => ⟨Advances.trans h.1 h'.1, fun hs => h'.2 (h.2 hs)⟩)
      (fun _ _ _ h => ⟨advances_foldVisit h, fun hs => Tracks.foldVisit hs hbelow h⟩) h hpos
  exact ⟨u, cu, v, cv, hsu, hu hs, hvisit, hvt⟩

/-- When a round makes no new constant, every value that evaluates is a constant already. -/
theorem consts_of_sweep (hid : func0.DistinctIds) (hs : Tracks func0 s) {c : Bool}
    (h : s.foldSweep = .ok (t, c)) (hsame : ∀ pos, t.ConstAt pos → s.ConstAt pos)
    (hn : func0.EvalsIn k id n) : s.Consts id n := by
  have hbelow := hid.identitiesBelow
  have hconst {val : FirValue} {pos n} (hval : func0.valueAt? pos = some val)
      (hc : s.ConstAt pos) (hn : func0.EvalsTo val.id n) : s.Consts val.id n := by
    obtain ⟨w, hw, hop⟩ := hc
    obtain ⟨val', hval', hwid, -⟩ := hs.of_some hw
    obtain rfl := Option.some.inj (hval.symm.trans hval')
    rw [← hwid] at hn ⊢
    exact hs.consts_of_const hid hw hop hn
  induction k generalizing id n with
  | zero =>
    obtain ⟨val, hval, rfl, hop, rfl⟩ := hn
    obtain ⟨pos, hpos⟩ := mem_values_iff.1 hval
    obtain ⟨w, hw, -, hcase⟩ := hs.exists hpos
    exact hconst hpos ⟨w, hw, hcase.elim And.left fun h => h.1.trans hop⟩ (.const hval hop)
  | succ k ih =>
    rcases hn with hn | ⟨val, hval, rfl, hfold⟩
    · exact ih hn
    · obtain ⟨pos, hpos⟩ := mem_values_iff.1 hval
      obtain ⟨w0, hw0, -⟩ := hs.exists hpos
      obtain ⟨u, cu, v, cv, hsu, hu, hvisit, hvt⟩ :=
        exists_visit hbelow hs h (mem_positions_iff.2 ⟨w0, hw0⟩)
      obtain ⟨w, hw, hwid, hcase⟩ := hu.exists hpos
      have hv : v.ConstAt pos := by
        rcases hcase with ⟨hop, -⟩ | ⟨hop, -, hops⟩
        · exact (advances_foldVisit hvisit).constAt ⟨w, hw, hop⟩
        · refine foldVisit_const hw (hfold.congr hop (hops.imp fun x y hxy a ha => ?_)) hvisit
          exact hs.consts_advance hu hid hsu (ih (hxy.forward k a ha))
      exact hconst hpos (hsame pos (Advances.constAt hvt hv)) ⟨k + 1, .inr ⟨val, hval, rfl, hfold⟩⟩

/-- Where the constants of a function are found, a value that divides `INT64_MIN` by `-1` still does so. -/
theorem Tracks.exists_traps (hs : Tracks func0 s) (hid : func0.DistinctIds) (hval : func0.valueAt? pos = some val)
    (htraps : val.Traps func0.EvalsTo) (hconsts : ∀ {id n}, func0.EvalsTo id n → s.Consts id n) :
    ∃ w, s.valueAt? pos = some w ∧ w.Traps s.Consts := by
  obtain ⟨w, hw, -, ⟨-, hn⟩ | ⟨hop, -, hops⟩⟩ := hs.exists hval
  · rcases EvalsTo.cases hid (mem_values_iff.2 ⟨pos, hval⟩) hn with ⟨hop, -⟩ | hfold
    · obtain ⟨-, -, -, -, hdiv, -⟩ := htraps
      simp [hop] at hdiv
    · exact absurd hfold (htraps.not_folds fun _ _ _ => EvalsTo.unique hid)
  · exact ⟨w, hw, htraps.congr hop (hops.imp fun x y hxy a hn => hconsts (hn.imp fun k hk => hxy.forward k a hk))⟩

/-- A round that reports a change makes a new constant. -/
theorem exists_new_const (hsafe : func0.FoldsSafely) (hs : Tracks func0 s)
    (h : s.foldSweep = .ok (t, true)) : ∃ pos, ¬ s.ConstAt pos ∧ t.ConstAt pos := by
  by_contra hnone
  have hsame (pos : Nat × Nat) (ht : t.ConstAt pos) : s.ConstAt pos := by
    by_contra hsc
    exact hnone ⟨pos, hsc, ht⟩
  obtain ⟨⟨pos, rule⟩, hp, u, l, hu, hrest⟩ :=
    trials_flagged.changes (foldSweep_eq_trials.symm.trans h)
  have hut : Advances u t := sweep_rel (R := fun s t => Advances s.1 t.1) (fun s => .refl s.1)
    (fun _ _ _ => .trans) (fun _ _ _ h => advances_tryRule h) hrest
  rcases tryRule_cases hu with ⟨heq, -⟩ | ⟨w, r, hw, hr, heq⟩
  · cases heq
  · obtain ⟨rfl, -⟩ := Prod.mk.inj heq
    have hfires := (sound_of_mem_foldRules (mem_trials.1 hp).2).fires hr
    -- in both cases the rewritten value would have to be a constant before the round
    have hop : w.op = .CONST → False := by
      cases r with
      | constant m => exact FirValue.Folds.op_ne_const hfires
      | replace z => exact FirValue.EqualsOperand.op_ne_const hfires
    have hwc (hc : s.ConstAt pos) : False := by
      obtain ⟨w', hw', hop'⟩ := hc
      obtain rfl := Option.some.inj (hw.symm.trans hw')
      exact hop hop'
    cases r with
    | constant m => exact hwc (hsame pos (hut.constAt (constAt_rewrite hw)))
    | replace z =>
      obtain ⟨val, hval, htracked⟩ := hs.of_some hw
      obtain ⟨z0, -, heq⟩ := hs.equalsOperand htracked hfires
      have hmem : val ∈ func0.values := mem_values_iff.2 ⟨pos, hval⟩
      obtain ⟨hid, n, hz⟩ := hsafe.identities val hmem z0 heq
      obtain ⟨k, hk⟩ := EvalsTo.folds hmem (heq.folds hz)
      obtain ⟨w', hw', hwid, hop', -⟩ := consts_mem (consts_of_sweep hid hs h hsame hk)
      obtain ⟨q, hq⟩ := mem_values_iff.1 hw'
      obtain ⟨val', hval', hwid', -⟩ := hs.of_some hq
      obtain rfl := hid q pos val' val hval' hval (hwid'.symm.trans hwid)
      exact hwc ⟨w', hq, hop'⟩

/-! ## Termination -/

instance (func : FirFunc) (pos : Nat × Nat) : Decidable (func.ConstAt pos) :=
  decidable_of_iff ((func.valueAt? pos).any (·.op = .CONST) = true) <| by
    simp [ConstAt, Option.any_eq_true]

/-- The positions whose value is no constant yet. -/
def openPositions (func0 func : FirFunc) : Finset (Nat × Nat) :=
  func0.positions.toFinset.filter fun pos => ¬ func.ConstAt pos

theorem openPositions_lt_of_new (ht : Tracks func0 t) (hst : Advances s t)
    (h : ∃ pos, ¬ s.ConstAt pos ∧ t.ConstAt pos) :
    (openPositions func0 t).card < (openPositions func0 s).card := by
  obtain ⟨pos, hsc, w, hw, hop⟩ := h
  obtain ⟨val, hval, -⟩ := ht.of_some hw
  refine Finset.card_lt_card (Finset.ssubset_iff_of_subset (fun q hq => ?_) |>.2 ⟨pos, ?_, ?_⟩)
  · obtain ⟨hq, hqc⟩ := Finset.mem_filter.1 hq
    exact Finset.mem_filter.2 ⟨hq, fun hc => hqc (hst.constAt hc)⟩
  · exact Finset.mem_filter.2 ⟨List.mem_toFinset.2 (mem_positions_iff.2 ⟨val, hval⟩), hsc⟩
  · exact fun hq => (Finset.mem_filter.1 hq).2 ⟨w, hw, hop⟩

theorem advances_foldSweep {c : Bool} (h : s.foldSweep = .ok (t, c)) : Advances s t :=
  sweep_rel (R := fun s t => Advances s.1 t.1) (fun s => .refl s.1) (fun _ _ _ => .trans)
    (fun _ _ _ h => advances_foldVisit h) h

theorem openPositions_lt (hsafe : func0.FoldsSafely) (hs : Tracks func0 s)
    (h : s.foldSweep = .ok (t, true)) :
    (openPositions func0 t).card < (openPositions func0 s).card :=
  openPositions_lt_of_new (hs.foldSweep hsafe.identitiesBelow h) (advances_foldSweep h)
    (exists_new_const hsafe hs h)

theorem FoldsSafely.foldReturns (hsafe : func.FoldsSafely) : func.FoldReturns := by
  let K := (openPositions func func).card
  have h : ∃ t, RoundsTo FirFunc.foldSweep func t := by
    refine rounds_return (K := K)
      (P := fun k s => Tracks func s ∧ (openPositions func s).card + k ≤ K) ?_ ⟨.refl func, Nat.le_refl _⟩
    rintro k s ⟨hs, hk⟩
    obtain ⟨t, c, ht⟩ := foldSweep_returns hs hsafe.identitiesBelow hsafe.noTrap
    refine ⟨t, c, ht, ?_⟩
    rintro rfl
    have := openPositions_lt hsafe hs ht
    exact ⟨by omega, hs.foldSweep hsafe.identitiesBelow ht, by omega⟩
  obtain ⟨t, fuel, h⟩ := h
  exact ⟨fuel, t, h⟩

theorem foldsSafely_of_foldReturns (hid : func.DistinctIds) (h : func.FoldReturns) :
    func.FoldsSafely := by
  obtain ⟨fuel, t, h⟩ := h
  obtain ⟨u, hu, ht⟩ := roundsTo_iff.1 ⟨fuel, h⟩
  have hs : Tracks func u := (Tracks.refl func).rounds hid.identitiesBelow hu
  obtain ⟨rfl, hquiet⟩ := trials_flagged.quiet (foldSweep_eq_trials.symm.trans ht)
  have hconsts {id n} (hn : func.EvalsTo id n) : t.Consts id n :=
    consts_of_sweep hid hs ht (fun _ h => h) hn.choose_spec
  have hrule {pos w rule} (hw : t.valueAt? pos = some w) (hrule : rule ∈ foldRules) :
      rule t w = .ok none := by
    have := hquiet (pos, rule) (mem_trials.2 ⟨mem_positions_iff.2 ⟨w, hw⟩, hrule⟩)
    rcases tryRule_cases this with ⟨-, hnone⟩ | ⟨_, _, -, -, heq⟩
    · exact hnone w hw
    · cases (Prod.mk.inj heq).2
  constructor
  · intro val hval htraps
    obtain ⟨pos, hpos⟩ := mem_values_iff.1 hval
    obtain ⟨w, hw, hw'⟩ := hs.exists_traps hid hpos htraps hconsts
    have hquiet : arithRule t w = .ok none := hrule hw (by simp [foldRules])
    rw [arithRule_traps hw'] at hquiet
    cases hquiet
  · intro val hval z heq
    refine ⟨hid, ?_⟩
    obtain ⟨pos, hpos⟩ := mem_values_iff.1 hval
    obtain ⟨w, hw, -, ⟨-, hn⟩ | ⟨hop, -, hops⟩⟩ := hs.exists hpos
    · obtain ⟨k, hk⟩ := hn
      exact ⟨_, k, (below_of_equalsOperand hid hval heq).forward k _ hk⟩
    · obtain ⟨z', -, heq'⟩ := heq.congr hop hops
        fun x y a hxy hn => hconsts (hn.imp fun k hk => hxy.forward k a hk)
      obtain ⟨rule, hmem, hr⟩ := exists_replace_rule heq'
      rw [hrule hw hmem] at hr
      cases hr

/-- Constant folding returns when it folds safely; with distinct ids, as in SSA form, only then. -/
theorem foldReturns_iff (func : FirFunc) :
    (func.FoldsSafely → func.FoldReturns) ∧
      (func.DistinctIds → func.FoldReturns → func.FoldsSafely) :=
  ⟨FoldsSafely.foldReturns, foldsSafely_of_foldReturns⟩

/-- `return syscall() + 0`. -/
def addZeroFunc : FirFunc := {
  returnType := .I64
  paramTypes := []
  numParams := 0
  entryBlock := 0
  blocks := [{
    id := 0
    values := [
      { id := 0, type := .I64, op := .SYSCALL, operands := [], payload := 0, phi := [] },
      { id := 1, type := .I64, op := .CONST, operands := [], payload := 0, phi := [] },
      { id := 2, type := .I64, op := .ADD, operands := [0, 1], payload := 0, phi := [] },
      { id := 3, type := .VOID, op := .RETURN, operands := [2], payload := 0, phi := [] }]
    terminator := 3
    isSealed := true }]
  isAgent := false
  isCompiled := false
  nextValueId := 0 }

/-- The uses of the sum are replaced in every round. -/
theorem addZeroFunc_not_foldReturns : ¬ addZeroFunc.FoldReturns := by
  rintro ⟨fuel, t, h⟩
  refine not_roundsTo (I := fun s => s = addZeroFunc ∨ s = addZeroFunc.replaceUses 2 0)
    (fun s hs => ?_) (.inl rfl) ⟨fuel, h⟩
  rcases hs with rfl | rfl
  · exact ⟨_, by decide, .inr rfl⟩
  · exact ⟨_, by decide, .inr rfl⟩

/-- `return 5 + 0` folds safely: both operands are constants. -/
theorem addZeroFunc_five_foldReturns :
    (addZeroFunc.modifyAt (0, 0) (FirValue.toConst 5)).FoldReturns := by
  refine (foldReturns_iff _).1 ⟨fun val hval htraps => ?_, fun val hval z heq => ?_⟩
  · have hdiv : ∀ val ∈ (addZeroFunc.modifyAt (0, 0) (FirValue.toConst 5)).values,
        ¬(val.op = .DIV ∨ val.op = .MOD) := by decide
    obtain ⟨x, y, rest, -, hop, -⟩ := htraps
    exact hdiv val hval hop
  · have hops : ∀ val ∈ (addZeroFunc.modifyAt (0, 0) (FirValue.toConst 5)).values,
        val.operands = [] ∨ val.operands = [0, 1] ∨ val.operands = [2] := by decide
    have hfive : (⟨0, .I64, .CONST, [], 5, []⟩ : FirValue) ∈
        (addZeroFunc.modifyAt (0, 0) (FirValue.toConst 5)).values := .head _
    have hzero : (⟨1, .I64, .CONST, [], 0, []⟩ : FirValue) ∈
        (addZeroFunc.modifyAt (0, 0) (FirValue.toConst 5)).values := .tail _ (.head _)
    have hz : z = 0 ∨ z = 1 := by
      rcases hops val hval with h | h | h
      all_goals cases heq with
        | right hxy | left hxy => simp_all
    refine ⟨distinctIds_iff.2 (by decide), ?_⟩
    rcases hz with rfl | rfl
    · exact ⟨_, .const hfive rfl⟩
    · exact ⟨_, .const hzero rfl⟩

end FirFunc

end FluxOs
