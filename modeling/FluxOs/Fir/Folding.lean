import FluxOs.Fir.Evaluation
import FluxOs.Lib.Sweeps

/-!
# What the rules of constant folding do

Each rule that fires turns a value into a constant that it computes from the constants of the function,
or replaces it by an operand that it equals; and a value that computes a constant, equals an operand or
traps is caught by some rule.  `Tracks func0 func` is the relation between a function and its state in
the middle of folding.
-/

namespace FluxOs

open Faulting

namespace FirFunc

variable {func func0 : FirFunc} {val : FirValue} {pos : Nat × Nat} {r : Rewriting} {n : Int64}
  {id z : UInt32}

/-- The constants that `get_const_int` finds. -/
def Consts (func : FirFunc) (id : UInt32) (n : Int64) : Prop := func.getConstInt id = some n

theorem consts_mem (h : func.Consts id n) :
    ∃ val ∈ func.values, val.id = id ∧ val.op = .CONST ∧ val.ival = n := by
  obtain ⟨val, hval, hn⟩ := Option.map_eq_some_iff.1 h
  have hp := List.find?_some hval
  rw [Bool.and_eq_true] at hp
  exact ⟨val, List.mem_of_find?_eq_some hval, of_decide_eq_true hp.1, of_decide_eq_true hp.2, hn⟩

theorem exists_consts (hval : val ∈ func.values) (hop : val.op = .CONST) :
    ∃ n, func.Consts val.id n := by
  unfold Consts getConstInt
  cases hfind : func.values.find? fun w => w.id = val.id && w.op = .CONST with
  | some w => exact ⟨w.ival, rfl⟩
  | none =>
    have := List.find?_eq_none.1 hfind val hval
    simp [hop] at this

/-! ## A rule that fires -/

/-- What a rewriting of a value by the rules rests on. -/
def Fires (func : FirFunc) (val : FirValue) : Rewriting → Prop
  | .constant n => val.Folds func.Consts n
  | .replace z => val.EqualsOperand func.Consts z

/-- A rule rewrites a value only as it fires, and faults only where the value traps. -/
structure Sound (rule : FoldRule) : Prop where
  fires : ∀ {func val r}, rule func val = .ok (some r) → Fires func val r
  traps : ∀ {func val e}, rule func val = .error e → val.Traps func.Consts

theorem binaryRule_sound {applies : FirOp → Bool}
    {fold : FirOp → Int64 → Int64 → Except FoldFault (Option Int64)}
    (hfold : ∀ op a b, applies op = true → fold op a b = foldBinary op a b) :
    Sound (binaryRule applies fold) := by
  have h (func : FirFunc) (val : FirValue) :
      binaryRule applies fold func val = .ok none ∨ ∃ x y rest a b, val.operands = x :: y :: rest ∧
        func.Consts x a ∧ func.Consts y b ∧
        binaryRule applies fold func val =
          (do return (← foldBinary val.op a b).map Rewriting.constant) := by
    unfold binaryRule
    match hops : val.operands with
    | [] | [x] => exact .inl rfl
    | x :: y :: rest =>
      by_cases happ : applies val.op = true
      · cases ha : func.getConstInt x with
        | none =>
          left
          simp [happ, ha]
        | some a =>
          cases hb : func.getConstInt y with
          | none =>
            left
            simp [happ, ha, hb]
          | some b =>
            right
            refine ⟨x, y, rest, a, b, rfl, ha, hb, ?_⟩
            simp only [happ, if_true, ha, hb, hfold _ _ _ happ]
      · left
        simp [happ]
  constructor
  · intro func val r hr
    rcases h func val with hnone | ⟨x, y, rest, a, b, hops, ha, hb, heq⟩
    · rw [hnone] at hr
      cases hr
    · rw [heq] at hr
      cases hn : foldBinary val.op a b with
      | error e =>
        rw [hn] at hr
        cases hr
      | ok o =>
        rw [hn] at hr
        cases o with
        | none => cases hr
        | some n =>
          cases hr
          exact .binary hops ha hb hn
  · intro func val e he
    rcases h func val with hnone | ⟨x, y, rest, a, b, hops, ha, hb, heq⟩
    · rw [hnone] at he
      cases he
    · rw [heq] at he
      cases hn : foldBinary val.op a b with
      | error e' =>
        obtain ⟨hop, rfl, rfl⟩ := foldBinary_error hn
        exact ⟨x, y, rest, hops, hop, ha, hb⟩
      | ok o =>
        rw [hn] at he
        cases he

theorem arithRule_sound : Sound arithRule :=
  binaryRule_sound fun op a b h => by rw [foldBinary, if_pos h]

theorem bitwiseRule_sound : Sound bitwiseRule := by
  refine binaryRule_sound fun op a b h => ?_
  cases op
  all_goals first | rfl | cases h

theorem comparisonRule_sound : Sound comparisonRule := by
  refine binaryRule_sound fun op a b h => ?_
  cases op
  all_goals first | rfl | cases h

theorem negRule_sound : Sound negRule := by
  constructor
  · intro func val r hr
    unfold negRule at hr
    split at hr
    · rename_i x rest hop hops
      obtain ⟨a, ha, rfl⟩ := Option.map_eq_some_iff.1 (Except.ok.inj hr)
      exact .neg hop hops ha
    · cases hr
  · intro func val e he
    unfold negRule at he
    split at he
    · cases he
    · cases he

theorem rightRule_sound : Sound rightRule := by
  constructor
  · intro func val r hr
    unfold rightRule at hr
    split at hr
    · rename_i x y rest hops
      have hr := Except.ok.inj hr
      split at hr
      · rename_i c hop hc
        split_ifs at hr with h
        cases hr
        exact .right hops (.inl ⟨.inl hop, by rwa [Consts, ← h]⟩)
      · rename_i c hop hc
        split_ifs at hr with h
        cases hr
        exact .right hops (.inl ⟨.inr hop, by rwa [Consts, ← h]⟩)
      · rename_i c hop hc
        split_ifs at hr with h h'
        · cases hr
          exact .right hops (.inr ⟨hop, by rwa [Consts, ← h]⟩)
        · cases hr
          exact .mulZero hop hops (.inr (by rwa [Consts, ← h']))
      · cases hr
    · cases hr
  · intro func val e he
    unfold rightRule at he
    split at he
    · cases he
    · cases he

theorem leftRule_sound : Sound leftRule := by
  constructor
  · intro func val r hr
    unfold leftRule at hr
    split at hr
    · rename_i x y rest hops
      have hr := Except.ok.inj hr
      split at hr
      · rename_i c hop hc
        split_ifs at hr with h
        cases hr
        exact .left hops (.inl ⟨hop, by rwa [Consts, ← h]⟩)
      · rename_i c hop hc
        split_ifs at hr with h h'
        · cases hr
          exact .left hops (.inr ⟨hop, by rwa [Consts, ← h]⟩)
        · cases hr
          exact .mulZero hop hops (.inl (by rwa [Consts, ← h']))
      · cases hr
    · cases hr
  · intro func val e he
    unfold leftRule at he
    split at he
    · cases he
    · cases he

theorem sound_of_mem_foldRules {rule : FoldRule} (h : rule ∈ foldRules) : Sound rule := by
  simp only [foldRules, List.mem_cons, List.not_mem_nil, or_false] at h
  rcases h with rfl | rfl | rfl | rfl | rfl | rfl
  · exact arithRule_sound
  · exact bitwiseRule_sound
  · exact comparisonRule_sound
  · exact negRule_sound
  · exact rightRule_sound
  · exact leftRule_sound

/-! ## A value that is caught -/

theorem binaryRule_ne_replace {applies : FirOp → Bool}
    {fold : FirOp → Int64 → Int64 → Except FoldFault (Option Int64)} :
    binaryRule applies fold func val ≠ .ok (some (.replace z)) := by
  intro h
  unfold binaryRule at h
  split at h
  · split_ifs at h
    · split at h
      · rename_i a b _ _
        cases hn : fold val.op a b with
        | error e =>
          rw [hn] at h
          cases h
        | ok o =>
          rw [hn] at h
          cases o with
          | none => cases h
          | some n => cases h
      · cases h
    · cases h
  · cases h

theorem negRule_ne_replace : negRule func val ≠ .ok (some (.replace z)) := by
  intro h
  unfold negRule at h
  split at h
  · obtain ⟨a, -, ha⟩ := Option.map_eq_some_iff.1 (Except.ok.inj h)
    cases ha
  · cases h

/-- Only the identities, the last two rules, replace a value. -/
theorem ne_replace {rule : FoldRule} (h : rule ∈ foldRules.take 4) :
    rule func val ≠ .ok (some (.replace z)) := by
  simp only [foldRules, List.take_succ_cons, List.take_zero, List.mem_cons, List.not_mem_nil,
    or_false] at h
  rcases h with rfl | rfl | rfl | rfl
  · exact binaryRule_ne_replace
  · exact binaryRule_ne_replace
  · exact binaryRule_ne_replace
  · exact negRule_ne_replace

/-- Some rule turns the value into a constant, and no rule before it replaces the value. -/
def FoldsFirst (func : FirFunc) (val : FirValue) : Prop :=
  ∃ i rule n, foldRules[i]? = some rule ∧ rule func val = .ok (some (.constant n)) ∧
    ∀ r ∈ foldRules.take i, ∀ z, r func val ≠ .ok (some (.replace z))

theorem binaryRule_constant {applies : FirOp → Bool}
    {fold : FirOp → Int64 → Int64 → Except FoldFault (Option Int64)} {x y : UInt32}
    {rest : List UInt32} {a b : Int64} (hops : val.operands = x :: y :: rest)
    (hx : func.Consts x a) (hy : func.Consts y b) (happ : applies val.op = true)
    (hfold : fold val.op a b = .ok (some n)) :
    binaryRule applies fold func val = .ok (some (.constant n)) := by
  have hx : func.getConstInt x = some a := hx
  have hy : func.getConstInt y = some b := hy
  simp only [binaryRule, hops, happ, if_true, hx, hy, hfold]
  rfl

theorem foldsFirst_of_binary {x y : UInt32} {rest : List UInt32} {a b : Int64}
    (hops : val.operands = x :: y :: rest) (hx : func.Consts x a) (hy : func.Consts y b)
    (hfold : foldBinary val.op a b = .ok (some n)) : FoldsFirst func val := by
  unfold foldBinary at hfold
  split_ifs at hfold with harith hbitwise hcomparison
  · refine ⟨0, arithRule, n, rfl, binaryRule_constant hops hx hy harith hfold, ?_⟩
    exact fun r hr => nomatch hr
  · refine ⟨1, bitwiseRule, n, rfl, binaryRule_constant hops hx hy hbitwise hfold, ?_⟩
    exact fun r hr z => ne_replace (List.take_subset_take_left _ (by omega) hr)
  · refine ⟨2, comparisonRule, n, rfl, binaryRule_constant hops hx hy hcomparison hfold, ?_⟩
    exact fun r hr z => ne_replace (List.take_subset_take_left _ (by omega) hr)
  · cases hfold

/-- A value that computes a constant becomes one. -/
theorem foldsFirst_of_folds (h : val.Folds func.Consts n) : FoldsFirst func val := by
  cases h with
  | binary hops hx hy hfold => exact foldsFirst_of_binary hops hx hy hfold
  | @neg x rest a hop hops hx =>
    have hx : func.getConstInt x = some a := hx
    refine ⟨3, negRule, -a, rfl, by simp [negRule, hop, hops, hx], ?_⟩
    exact fun r hr z => ne_replace (List.take_subset_take_left _ (by omega) hr)
  | @mulZero x y rest hop hops hz =>
    cases hy : func.getConstInt y with
    | some b =>
      cases hx : func.getConstInt x with
      | some a => exact foldsFirst_of_binary hops hx hy (by rw [hop, foldBinary_mul])
      | none =>
        have hb : b = 0 := by simpa [Consts, hx, hy] using hz
        refine ⟨4, rightRule, 0, rfl, by simp [rightRule, hop, hops, hy, hb], ?_⟩
        exact fun r hr z => ne_replace hr
    | none =>
      have hx : func.getConstInt x = some 0 := by simpa [Consts, hy] using hz
      refine ⟨5, leftRule, 0, rfl, by simp [leftRule, hop, hops, hx], fun r hr z => ?_⟩
      have hr : r ∈ foldRules.take 4 ∨ r = rightRule := by
        simpa [foldRules, or_assoc] using hr
      rcases hr with hr | rfl
      · exact ne_replace hr
      · simp [rightRule, hop, hops, hy]

theorem exists_replace_rule (h : val.EqualsOperand func.Consts z) :
    ∃ rule ∈ foldRules, rule func val = .ok (some (.replace z)) := by
  cases h with
  | @right x y rest hops h =>
    refine ⟨rightRule, by simp [foldRules], ?_⟩
    rcases h with ⟨hop | hop, hy⟩ | ⟨hop, hy⟩
    · simp [rightRule, hops, hop, show func.getConstInt y = some 0 from hy]
    · simp [rightRule, hops, hop, show func.getConstInt y = some 0 from hy]
    · simp [rightRule, hops, hop, show func.getConstInt y = some 1 from hy]
  | @left x y rest hops h =>
    refine ⟨leftRule, by simp [foldRules], ?_⟩
    rcases h with ⟨hop, hx⟩ | ⟨hop, hx⟩
    · simp [leftRule, hops, hop, show func.getConstInt x = some 0 from hx]
    · simp [leftRule, hops, hop, show func.getConstInt x = some 1 from hx]

theorem arithRule_traps (h : val.Traps func.Consts) :
    arithRule func val = .error .divOverflow := by
  obtain ⟨x, y, rest, hops, hop, hx, hy⟩ := h
  have hx : func.getConstInt x = some Int64.minValue := hx
  have hy : func.getConstInt y = some (-1) := hy
  have hfold : foldArith val.op Int64.minValue (-1) = .error .divOverflow := by
    rcases hop with hop | hop
    · rw [hop]; rfl
    · rw [hop]; rfl
  have happ : firIsBinaryArith val.op = true := by
    rcases hop with hop | hop
    · rw [hop]; rfl
    · rw [hop]; rfl
  simp only [arithRule, binaryRule, hops, happ, if_true, hx, hy, hfold]
  rfl

/-! ## Trying a rule -/

/-- Trying a rule does nothing, or sets the flag and rewrites the value. -/
theorem tryRule_cases {t : FirFunc} {c c' : Bool} {rule : FoldRule}
    (h : tryRule pos (func, c) rule = .ok (t, c')) :
    ((t, c') = (func, c) ∧ ∀ val, func.valueAt? pos = some val → rule func val = .ok none) ∨
      ∃ val r, func.valueAt? pos = some val ∧ rule func val = .ok (some r) ∧
        (t, c') = (func.rewrite pos val r, true) := by
  unfold tryRule at h
  cases hval : func.valueAt? pos with
  | none =>
    simp only [hval] at h
    exact .inl ⟨(Except.ok.inj h).symm, fun val hv => nomatch hv⟩
  | some val =>
    simp only [hval] at h
    cases hr : rule func val with
    | error e =>
      rw [hr] at h
      cases h
    | ok o =>
      rw [hr] at h
      cases o with
      | none =>
        refine .inl ⟨(Except.ok.inj h).symm, fun w hw => ?_⟩
        obtain rfl := Option.some.inj hw
        exact hr
      | some r => exact .inr ⟨val, r, rfl, hr, (Except.ok.inj h).symm⟩

theorem tryRule_error {c : Bool} {rule : FoldRule} {e : FoldFault}
    (h : tryRule pos (func, c) rule = .error e) :
    ∃ val, func.valueAt? pos = some val ∧ rule func val = .error e := by
  unfold tryRule at h
  cases hval : func.valueAt? pos with
  | none =>
    simp only [hval] at h
    cases h
  | some val =>
    simp only [hval] at h
    cases hr : rule func val with
    | error e' =>
      rw [hr] at h
      cases h
      exact ⟨val, rfl, hr⟩
    | ok o =>
      rw [hr] at h
      cases o with
      | none => cases h
      | some r => cases h

theorem tryRule_some {c : Bool} {rule : FoldRule} (hval : func.valueAt? pos = some val)
    (h : rule func val = .ok (some r)) :
    tryRule pos (func, c) rule = .ok (func.rewrite pos val r, true) := by
  simp only [tryRule, hval, h]
  rfl

theorem tryRule_flagged (pos : Nat × Nat) : Flagged (tryRule pos) := by
  intro s c rule t c' h
  rcases tryRule_cases h with ⟨heq, -⟩ | ⟨_, _, -, -, heq⟩
  · exact .inl (Prod.mk.inj heq)
  · exact .inr (Prod.mk.inj heq).2

/-- The trials of one round: every rule on every value. -/
def trials (func : FirFunc) : List ((Nat × Nat) × FoldRule) :=
  func.positions.flatMap fun pos => foldRules.map fun rule => (pos, rule)

theorem foldSweep_eq_trials :
    func.foldSweep = func.trials.foldlM (fun s p => tryRule p.1 s p.2) (func, false) :=
  sweep_pairs tryRule foldRules (func, false)

theorem trials_flagged : Flagged fun s (p : (Nat × Nat) × FoldRule) => tryRule p.1 s p.2 :=
  fun s c p => tryRule_flagged p.1 s c p.2

theorem mem_trials {rule : FoldRule} :
    (pos, rule) ∈ func.trials ↔ pos ∈ func.positions ∧ rule ∈ foldRules := by
  simp only [trials, List.mem_flatMap, List.mem_map, Prod.mk.injEq]
  constructor
  · rintro ⟨p, hp, r, hr, rfl, rfl⟩
    exact ⟨hp, hr⟩
  · rintro ⟨hp, hr⟩
    exact ⟨pos, hp, rule, hr, rfl, rfl⟩

/-! ## Functions in the middle of folding -/

/-- `w` is what folding has made of the value `val` so far. -/
def Tracked (func0 : FirFunc) (val w : FirValue) : Prop :=
  w.id = val.id ∧ (w.op = .CONST ∧ func0.EvalsTo val.id w.ival ∨
    w.op = val.op ∧ w.payload = val.payload ∧ List.Forall₂ func0.Below val.operands w.operands)

/-- `func` is what folding has made of `func0` so far. -/
def Tracks (func0 func : FirFunc) : Prop :=
  ∀ pos, Option.Rel (Tracked func0) (func0.valueAt? pos) (func.valueAt? pos)

theorem Tracks.refl (func : FirFunc) : Tracks func func := by
  intro pos
  cases func.valueAt? pos with
  | none => exact .none
  | some val => exact .some ⟨rfl, .inr ⟨rfl, rfl, List.forall₂_same.2 fun x _ => .refl func x⟩⟩

theorem Tracks.of_some (h : Tracks func0 func) {w : FirValue} (hw : func.valueAt? pos = some w) :
    ∃ val, func0.valueAt? pos = some val ∧ Tracked func0 val w := by
  have := h pos
  rw [hw] at this
  cases hval : func0.valueAt? pos with
  | none =>
    rw [hval] at this
    cases this
  | some val =>
    rw [hval] at this
    cases this with
    | some h => exact ⟨val, rfl, h⟩

theorem Tracks.exists (h : Tracks func0 func) (hval : func0.valueAt? pos = some val) :
    ∃ w, func.valueAt? pos = some w ∧ Tracked func0 val w := by
  have := h pos
  rw [hval] at this
  cases hw : func.valueAt? pos with
  | none =>
    rw [hw] at this
    cases this
  | some w =>
    rw [hw] at this
    cases this with
    | some h => exact ⟨w, rfl, h⟩

/-- The constants found in the middle of folding are right. -/
theorem Tracks.consts (h : Tracks func0 func) (hn : func.Consts id n) : func0.EvalsTo id n := by
  obtain ⟨w, hw, rfl, hop, rfl⟩ := consts_mem hn
  obtain ⟨pos, hpos⟩ := mem_values_iff.1 hw
  obtain ⟨val, hval, hid, hcase⟩ := h.of_some hpos
  rw [hid]
  rcases hcase with ⟨-, hn⟩ | ⟨hop', hpayload, -⟩
  · exact hn
  · rw [FirValue.ival, hpayload]
    exact .const (mem_values_iff.2 ⟨pos, hval⟩) (hop'.symm.trans hop)

/-- Whatever equals an operand evaluates as that operand does. -/
def IdentitiesBelow (func : FirFunc) : Prop :=
  ∀ val ∈ func.values, ∀ z, val.EqualsOperand func.EvalsTo z → func.Below val.id z

theorem DistinctIds.identitiesBelow (hid : func.DistinctIds) : func.IdentitiesBelow :=
  fun _ hval _ h => below_of_equalsOperand hid hval h

/-- A value that computes a constant in the middle of folding does so in the beginning. -/
theorem Tracks.folds (ht : Tracks func0 func) {w : FirValue}
    (hw : Tracked func0 val w) (h : w.Folds func.Consts n) : val.Folds func0.EvalsTo n := by
  obtain ⟨-, ⟨hop, -⟩ | ⟨hop, -, hops⟩⟩ := hw
  · exact absurd hop h.op_ne_const
  · refine h.congr hop.symm (List.Forall₂.flip (hops.imp fun x y hxy a ha => ?_))
    exact hxy.backward a (ht.consts ha)

theorem Tracks.equalsOperand (ht : Tracks func0 func) {w : FirValue} (hw : Tracked func0 val w)
    (h : w.EqualsOperand func.Consts z) :
    ∃ z0, func0.Below z0 z ∧ val.EqualsOperand func0.EvalsTo z0 := by
  obtain ⟨-, ⟨hop, -⟩ | ⟨hop, -, hops⟩⟩ := hw
  · exact absurd hop h.op_ne_const
  · exact h.congr (R := fun y x => func0.Below x y) hop.symm hops.flip
      fun x y a hxy ha => hxy.backward a (ht.consts ha)

/-- Rewriting a value by a rule that fires keeps track of the function. -/
theorem Tracks.rewrite (ht : Tracks func0 func) (hbelow : func0.IdentitiesBelow) {w : FirValue}
    (hw : func.valueAt? pos = some w) (hr : Fires func w r) :
    Tracks func0 (func.rewrite pos w r) := by
  obtain ⟨val, hval, htracked⟩ := ht.of_some hw
  intro q
  cases r with
  | constant n =>
    have hn : func0.EvalsTo val.id n :=
      .folds (mem_values_iff.2 ⟨pos, hval⟩) (ht.folds htracked hr)
    rw [FirFunc.rewrite, valueAt?_modifyAt]
    by_cases hq : q = pos
    · subst hq
      rw [if_pos rfl, hw, hval]
      refine .some ⟨htracked.1, .inl ⟨rfl, ?_⟩⟩
      simpa [FirValue.toConst, FirValue.ival] using hn
    · rw [if_neg hq]
      exact ht q
  | replace z =>
    obtain ⟨z0, hz0, heq⟩ := ht.equalsOperand htracked hr
    have hz : func0.Below w.id z := by
      rw [htracked.1]
      exact (hbelow val (mem_values_iff.2 ⟨pos, hval⟩) z0 heq).trans hz0
    rw [FirFunc.rewrite, replaceUses, valueAt?_mapValues]
    have hq := ht q
    cases h0 : func0.valueAt? q with
    | none =>
      rw [h0] at hq
      cases h1 : func.valueAt? q with
      | none => exact .none
      | some w' =>
        rw [h1] at hq
        cases hq
    | some v =>
      obtain ⟨w', hw', hid, hcase⟩ := ht.exists h0
      rw [hw']
      refine .some ⟨hid, hcase.imp id fun ⟨hop, hpayload, hops⟩ => ⟨hop, hpayload, ?_⟩⟩
      refine List.forall₂_map_right_iff.2 (hops.imp fun x y hxy => ?_)
      by_cases hy : y = w.id
      · rw [if_pos hy]
        exact hxy.trans (hy ▸ hz)
      · rw [if_neg hy]
        exact hxy

/-! ## Constants stay -/

/-- Values keep their places and ids, and constants stay constants. -/
def Advances (func t : FirFunc) : Prop :=
  ∀ pos val, func.valueAt? pos = some val →
    ∃ w, t.valueAt? pos = some w ∧ w.id = val.id ∧ (val.op = .CONST → w.op = .CONST)

theorem Advances.refl (func : FirFunc) : Advances func func := fun _ val hval => ⟨val, hval, rfl, id⟩

theorem Advances.trans {t u : FirFunc} (h : Advances func t) (h' : Advances t u) :
    Advances func u := by
  intro pos val hval
  obtain ⟨v, hv, hid, hop⟩ := h pos val hval
  obtain ⟨w, hw, hid', hop'⟩ := h' pos v hv
  exact ⟨w, hw, hid'.trans hid, fun hc => hop' (hop hc)⟩

theorem advances_rewrite : Advances func (func.rewrite pos val r) := by
  intro q v hv
  cases r with
  | constant n =>
    rw [FirFunc.rewrite, valueAt?_modifyAt]
    by_cases hq : q = pos
    · rw [if_pos hq, hv]
      exact ⟨_, rfl, rfl, fun _ => rfl⟩
    · rw [if_neg hq]
      exact ⟨v, hv, rfl, id⟩
  | replace z =>
    rw [FirFunc.rewrite, replaceUses, valueAt?_mapValues, hv]
    exact ⟨_, rfl, rfl, id⟩

theorem advances_tryRule {t : FirFunc} {c c' : Bool} {rule : FoldRule}
    (h : tryRule pos (func, c) rule = .ok (t, c')) : Advances func t := by
  rcases tryRule_cases h with ⟨heq, -⟩ | ⟨_, _, -, -, heq⟩
  · cases heq
    exact .refl func
  · cases heq
    exact advances_rewrite

theorem advances_foldVisit {t : FirFunc} {c c' : Bool}
    (h : foldVisit (func, c) pos = .ok (t, c')) : Advances func t :=
  sweep_rel (R := fun s t => Advances s.1 t.1) (fun s => .refl s.1) (fun _ _ _ => .trans)
    (fun _ _ _ h => advances_tryRule h) h

/-- There is a constant at the position. -/
def ConstAt (func : FirFunc) (pos : Nat × Nat) : Prop :=
  ∃ val, func.valueAt? pos = some val ∧ val.op = .CONST

theorem Advances.constAt {t : FirFunc} (h : Advances func t) (hc : func.ConstAt pos) :
    t.ConstAt pos := by
  obtain ⟨val, hval, hop⟩ := hc
  obtain ⟨w, hw, -, hconst⟩ := h pos val hval
  exact ⟨w, hw, hconst hop⟩

theorem constAt_rewrite (hval : func.valueAt? pos = some val) :
    (func.rewrite pos val (.constant n)).ConstAt pos := by
  refine ⟨val.toConst n, ?_, rfl⟩
  rw [FirFunc.rewrite, valueAt?_modifyAt, if_pos rfl, hval]
  rfl

/-- Visiting a value that computes a constant makes it one. -/
theorem foldVisit_const {t : FirFunc} {c c' : Bool} (hval : func.valueAt? pos = some val)
    (hfold : val.Folds func.Consts n) (h : foldVisit (func, c) pos = .ok (t, c')) :
    t.ConstAt pos := by
  obtain ⟨i, rule, m, hi, hrule, hbefore⟩ := foldsFirst_of_folds hfold
  -- until the rule is tried the function is unchanged or the value already is a constant
  have hsplit : foldRules = foldRules.take i ++ rule :: foldRules.drop (i + 1) := by
    obtain ⟨hlt, hget⟩ := List.getElem?_eq_some_iff.1 hi
    rw [← hget, ← List.drop_eq_getElem_cons hlt, List.take_append_drop]
  rw [foldVisit, hsplit, List.foldlM_append] at h
  obtain ⟨u, hu, h⟩ := bind_eq_ok.1 h
  obtain ⟨v, hv, h⟩ := sweep_cons.1 h
  have hI : u.1 = func ∨ u.1.ConstAt pos := by
    refine sweep_invariant (I := fun s => s.1 = func ∨ s.1.ConstAt pos) ?_ (.inl rfl) hu
    rintro ⟨s, cs⟩ r ⟨t, ct⟩ hr (rfl | hs) ht
    · rcases tryRule_cases ht with ⟨heq, -⟩ | ⟨w, r', hw, hr', heq⟩
      · cases heq
        exact .inl rfl
      · cases heq
        obtain rfl := Option.some.inj (hval.symm.trans hw)
        cases r' with
        | constant m => exact .inr (constAt_rewrite hval)
        | replace z => exact absurd hr' (hbefore r hr z)
    · exact .inr ((advances_tryRule ht).constAt hs)
  have hconst : v.1.ConstAt pos := by
    rcases hI with rfl | hc
    · rw [show u = (u.1, u.2) from rfl, tryRule_some hval hrule] at hv
      cases hv
      exact constAt_rewrite hval
    · have huv : Advances u.1 v.1 := advances_tryRule hv
      exact huv.constAt hc
  exact (sweep_rel (R := fun s t => Advances s.1 t.1) (fun s => .refl s.1) (fun _ _ _ => .trans)
    (fun _ _ _ h => advances_tryRule h) h).constAt hconst

end FirFunc

end FluxOs
