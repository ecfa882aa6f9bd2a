import FluxOs.Fir.Passes
import Mathlib.Data.List.Forall2

/-!
# Compile-time evaluation of values

What one value computes from constant operands, and `EvalsIn func k id n`: constant folding can compute
the value `id` of `func` to be the constant `n`, through at most `k` nested rules.  When value ids are
distinct the constant is unique, and a value evaluates exactly as the operand that replaces its uses.
-/

namespace FluxOs

open Faulting

/-! ## One value -/

/-- What the rules for two constant operands compute. -/
def foldBinary (op : FirOp) (a b : Int64) : Except FoldFault (Option Int64) :=
  if firIsBinaryArith op then foldArith op a b
  else if firIsBinaryBitwise op then .ok (foldBitwise op a b)
  else if firIsComparison op then .ok (some (foldComparison op a b))
  else .ok none

theorem foldBinary_add (a b : Int64) : foldBinary .ADD a b = .ok (some (a + b)) := rfl

theorem foldBinary_sub (a b : Int64) : foldBinary .SUB a b = .ok (some (a - b)) := rfl

theorem foldBinary_mul (a b : Int64) : foldBinary .MUL a b = .ok (some (a * b)) := rfl

theorem foldBinary_neg (a b : Int64) : foldBinary .NEG a b = .ok (some (-a)) := rfl

theorem foldDivision_error {div : Int64 → Int64 → Int64} {a b : Int64} {fault : FoldFault}
    (h : foldDivision div a b = .error fault) : a = Int64.minValue ∧ b = -1 := by
  unfold foldDivision at h
  split_ifs at h with _ hover
  exact hover

/-- Folding traps only on a division whose quotient overflows. -/
theorem foldBinary_error {op : FirOp} {a b : Int64} {fault : FoldFault}
    (h : foldBinary op a b = .error fault) :
    (op = .DIV ∨ op = .MOD) ∧ a = Int64.minValue ∧ b = -1 := by
  cases op
  case DIV => exact ⟨.inl rfl, foldDivision_error h⟩
  case MOD => exact ⟨.inr rfl, foldDivision_error h⟩
  all_goals cases h

/-- A division whose quotient overflows traps. -/
theorem foldBinary_overflow {op : FirOp} (hop : op = .DIV ∨ op = .MOD) :
    foldBinary op Int64.minValue (-1) = .error .divOverflow := by
  rcases hop with rfl | rfl
  · rfl
  · rfl

namespace FirValue

section

variable (C : UInt32 → Int64 → Prop) (val : FirValue)

/-- The value computes `n` from operands with the constants `C`. -/
inductive Folds : Int64 → Prop
  | binary {x y : UInt32} {rest : List UInt32} {a b n : Int64}
    (hops : val.operands = x :: y :: rest) (hx : C x a) (hy : C y b)
    (hfold : foldBinary val.op a b = .ok (some n)) : Folds n
  | neg {x : UInt32} {rest : List UInt32} {a : Int64} (hop : val.op = .NEG)
    (hops : val.operands = x :: rest) (hx : C x a) : Folds (-a)
  | mulZero {x y : UInt32} {rest : List UInt32} (hop : val.op = .MUL)
    (hops : val.operands = x :: y :: rest) (hz : C x 0 ∨ C y 0) : Folds 0

/-- The value adds or subtracts zero, or multiplies by one, so that it equals its operand. -/
inductive EqualsOperand : UInt32 → Prop
  | right {x y : UInt32} {rest : List UInt32} (hops : val.operands = x :: y :: rest)
    (h : (val.op = .ADD ∨ val.op = .SUB) ∧ C y 0 ∨ val.op = .MUL ∧ C y 1) : EqualsOperand x
  | left {x y : UInt32} {rest : List UInt32} (hops : val.operands = x :: y :: rest)
    (h : val.op = .ADD ∧ C x 0 ∨ val.op = .MUL ∧ C x 1) : EqualsOperand y

/-- The value divides `INT64_MIN` by `-1`. -/
def Traps : Prop :=
  ∃ x y rest, val.operands = x :: y :: rest ∧ (val.op = .DIV ∨ val.op = .MOD) ∧
    C x Int64.minValue ∧ C y (-1)

end

variable {C D : UInt32 → Int64 → Prop} {val w : FirValue} {n m : Int64} {z : UInt32}

theorem Folds.op_ne_const (h : val.Folds C n) : val.op ≠ .CONST := by
  intro hop
  cases h with
  | binary _ _ _ hfold =>
    rw [hop] at hfold
    cases hfold
  | neg hneg =>
    rw [hop] at hneg
    cases hneg
  | mulZero hmul =>
    rw [hop] at hmul
    cases hmul

theorem EqualsOperand.op_ne_const (h : val.EqualsOperand C z) : val.op ≠ .CONST := by
  intro hop
  cases h with
  | right _ h => simp [hop] at h
  | left _ h => simp [hop] at h

/-- Two values with one operation and operands that carry over constants fold alike. -/
theorem Folds.congr (h : val.Folds C n) (hop : w.op = val.op)
    (hops : List.Forall₂ (fun x y => ∀ a, C x a → D y a) val.operands w.operands) : w.Folds D n := by
  cases h with
  | @binary x y rest a b n hval hx hy hfold =>
    rw [hval] at hops
    obtain ⟨x', _, hxx, htail, hw⟩ := List.forall₂_cons_left_iff.1 hops
    obtain ⟨y', rest', hyy, -, rfl⟩ := List.forall₂_cons_left_iff.1 htail
    exact .binary hw (hxx a hx) (hyy b hy) (by rw [hop, hfold])
  | @neg x rest a hneg hval hx =>
    rw [hval] at hops
    obtain ⟨x', _, hxx, -, hw⟩ := List.forall₂_cons_left_iff.1 hops
    exact .neg (hop.trans hneg) hw (hxx a hx)
  | @mulZero x y rest hmul hval hz =>
    rw [hval] at hops
    obtain ⟨x', _, hxx, htail, hw⟩ := List.forall₂_cons_left_iff.1 hops
    obtain ⟨y', rest', hyy, -, rfl⟩ := List.forall₂_cons_left_iff.1 htail
    exact .mulZero (hop.trans hmul) hw (hz.imp (hxx 0) (hyy 0))

theorem Folds.mono (h : val.Folds C n) (hC : ∀ x a, C x a → D x a) : val.Folds D n :=
  h.congr rfl (List.forall₂_same.2 fun x _ a => hC x a)

/-- Two values with one operation and operands that carry over constants are the same identity. -/
theorem EqualsOperand.congr {R : UInt32 → UInt32 → Prop} (h : val.EqualsOperand C z)
    (hop : w.op = val.op) (hops : List.Forall₂ R val.operands w.operands)
    (hR : ∀ x y a, R x y → C x a → D y a) : ∃ z', R z z' ∧ w.EqualsOperand D z' := by
  cases h with
  | @right x y rest hval h =>
    rw [hval] at hops
    obtain ⟨x', _, hxx, htail, hw⟩ := List.forall₂_cons_left_iff.1 hops
    obtain ⟨y', rest', hyy, -, rfl⟩ := List.forall₂_cons_left_iff.1 htail
    refine ⟨x', hxx, .right hw ?_⟩
    rw [hop]
    exact h.imp (And.imp_right (hR y y' 0 hyy)) (And.imp_right (hR y y' 1 hyy))
  | @left x y rest hval h =>
    rw [hval] at hops
    obtain ⟨x', _, hxx, htail, hw⟩ := List.forall₂_cons_left_iff.1 hops
    obtain ⟨y', rest', hyy, -, rfl⟩ := List.forall₂_cons_left_iff.1 htail
    refine ⟨y', hyy, .left hw ?_⟩
    rw [hop]
    exact h.imp (And.imp_right (hR x x' 0 hxx)) (And.imp_right (hR x x' 1 hxx))

/-- Two values with one operation and operands that carry over constants trap alike. -/
theorem Traps.congr (h : val.Traps C) (hop : w.op = val.op)
    (hops : List.Forall₂ (fun x y => ∀ a, C x a → D y a) val.operands w.operands) : w.Traps D := by
  obtain ⟨x, y, rest, hval, hdiv, hx, hy⟩ := h
  rw [hval] at hops
  obtain ⟨x', _, hxx, htail, hw⟩ := List.forall₂_cons_left_iff.1 hops
  obtain ⟨y', rest', hyy, -, rfl⟩ := List.forall₂_cons_left_iff.1 htail
  exact ⟨x', y', rest', hw, by rwa [hop], hxx _ hx, hyy _ hy⟩

/-- From agreeing constants a value computes one constant only. -/
theorem Folds.unique (h : val.Folds C n) (h' : val.Folds D m)
    (hCD : ∀ x a b, C x a → D x b → a = b) : n = m := by
  cases h with
  | binary hops hx hy hfold =>
    cases h' with
    | binary hops' hx' hy' hfold' =>
      rw [hops] at hops'
      cases hops'
      rw [hCD _ _ _ hx hx', hCD _ _ _ hy hy', hfold'] at hfold
      exact (Option.some.inj (Except.ok.inj hfold)).symm
    | neg hop hops' hx' =>
      rw [hops] at hops'
      cases hops'
      rw [hop, foldBinary_neg, hCD _ _ _ hx hx'] at hfold
      exact (Option.some.inj (Except.ok.inj hfold)).symm
    | mulZero hop hops' hz =>
      rw [hops] at hops'
      cases hops'
      rw [hop, foldBinary_mul] at hfold
      obtain rfl := Option.some.inj (Except.ok.inj hfold)
      rcases hz with hz | hz
      · rw [hCD _ _ _ hx hz, Int64.zero_mul]
      · rw [hCD _ _ _ hy hz, Int64.mul_zero]
  | neg hop hops hx =>
    cases h' with
    | binary hops' hx' _ hfold =>
      rw [hops] at hops'
      cases hops'
      rw [hop, foldBinary_neg, ← hCD _ _ _ hx hx'] at hfold
      exact Option.some.inj (Except.ok.inj hfold)
    | neg _ hops' hx' =>
      rw [hops] at hops'
      cases hops'
      rw [hCD _ _ _ hx hx']
    | mulZero hmul =>
      rw [hop] at hmul
      cases hmul
  | mulZero hop hops hz =>
    cases h' with
    | binary hops' hx hy hfold =>
      rw [hops] at hops'
      cases hops'
      rw [hop, foldBinary_mul] at hfold
      obtain rfl := Option.some.inj (Except.ok.inj hfold)
      rcases hz with hz | hz
      · rw [← hCD _ _ _ hz hx, Int64.zero_mul]
      · rw [← hCD _ _ _ hz hy, Int64.mul_zero]
    | neg hneg =>
      rw [hop] at hneg
      cases hneg
    | mulZero => rfl

/-- A value that equals its operand computes what the operand is. -/
theorem EqualsOperand.folds (h : val.EqualsOperand C z) (hz : C z n) : val.Folds C n := by
  cases h with
  | right hops h =>
    rcases h with ⟨hop | hop, hy⟩ | ⟨hop, hy⟩
    · exact .binary hops hz hy (by rw [hop, foldBinary_add, Int64.add_zero])
    · exact .binary hops hz hy (by rw [hop, foldBinary_sub, Int64.sub_zero])
    · exact .binary hops hz hy (by rw [hop, foldBinary_mul, Int64.mul_one])
  | left hops h =>
    rcases h with ⟨hop, hx⟩ | ⟨hop, hx⟩
    · exact .binary hops hx hz (by rw [hop, foldBinary_add, Int64.zero_add])
    · exact .binary hops hx hz (by rw [hop, foldBinary_mul, Int64.one_mul])

/-- A value that equals its operand computes a constant only when the operand is that constant. -/
theorem EqualsOperand.of_folds (h : val.EqualsOperand D z) (hn : val.Folds C n)
    (hCD : ∀ x a b, C x a → D x b → a = b) : C z n := by
  cases h with
  | @right x y _ hops h =>
    cases hn with
    | binary hops' hx hy hfold =>
      rw [hops] at hops'
      cases hops'
      rcases h with ⟨hop | hop, hd⟩ | ⟨hop, hd⟩
      · rw [hop, foldBinary_add, hCD _ _ _ hy hd, Int64.add_zero] at hfold
        rwa [← Option.some.inj (Except.ok.inj hfold)]
      · rw [hop, foldBinary_sub, hCD _ _ _ hy hd, Int64.sub_zero] at hfold
        rwa [← Option.some.inj (Except.ok.inj hfold)]
      · rw [hop, foldBinary_mul, hCD _ _ _ hy hd, Int64.mul_one] at hfold
        rwa [← Option.some.inj (Except.ok.inj hfold)]
    | neg hneg => simp [hneg] at h
    | mulZero hmul hops' hz =>
      rw [hops] at hops'
      cases hops'
      rcases hz with hz | hz
      · exact hz
      · have hd : D y 1 := by simpa [hmul] using h
        exact absurd (hCD _ _ _ hz hd) (by decide)
  | @left x y _ hops h =>
    cases hn with
    | binary hops' hx hy hfold =>
      rw [hops] at hops'
      cases hops'
      rcases h with ⟨hop, hd⟩ | ⟨hop, hd⟩
      · rw [hop, foldBinary_add, hCD _ _ _ hx hd, Int64.zero_add] at hfold
        rwa [← Option.some.inj (Except.ok.inj hfold)]
      · rw [hop, foldBinary_mul, hCD _ _ _ hx hd, Int64.one_mul] at hfold
        rwa [← Option.some.inj (Except.ok.inj hfold)]
    | neg hneg => simp [hneg] at h
    | mulZero hmul hops' hz =>
      rw [hops] at hops'
      cases hops'
      rcases hz with hz | hz
      · have hd : D x 1 := by simpa [hmul] using h
        exact absurd (hCD _ _ _ hz hd) (by decide)
      · exact hz

/-- A value that traps computes no constant. -/
theorem Traps.not_folds (h : val.Traps D) (hCD : ∀ x a b, C x a → D x b → a = b) :
    ¬ val.Folds C n := by
  obtain ⟨x, y, rest, hops, hop, hx, hy⟩ := h
  intro hn
  cases hn with
  | binary hops' hx' hy' hfold =>
    rw [hops] at hops'
    cases hops'
    rw [hCD _ _ _ hx' hx, hCD _ _ _ hy' hy, foldBinary_overflow hop] at hfold
    cases hfold
  | neg hneg => simp [hneg] at hop
  | mulZero hmul => simp [hmul] at hop

end FirValue

/-! ## Values of a function -/

namespace FirFunc

variable {func : FirFunc} {x y id : UInt32} {a b n m : Int64} {k k' : Nat} {val : FirValue}

/-- The value `id` evaluates to `n` through at most `k` nested rules. -/
def EvalsIn (func : FirFunc) : Nat → UInt32 → Int64 → Prop
  | 0, id, n => ∃ val ∈ func.values, val.id = id ∧ val.op = .CONST ∧ val.ival = n
  | k + 1, id, n => func.EvalsIn k id n ∨ ∃ val ∈ func.values, val.id = id ∧ val.Folds (func.EvalsIn k) n

/-- The value `id` evaluates to `n`. -/
def EvalsTo (func : FirFunc) (id : UInt32) (n : Int64) : Prop := ∃ k, func.EvalsIn k id n

/-- No two values have the same id. -/
def DistinctIds (func : FirFunc) : Prop :=
  ∀ p q v w, func.valueAt? p = some v → func.valueAt? q = some w → v.id = w.id → p = q

theorem DistinctIds.eq {v w : FirValue} (hid : func.DistinctIds) (hv : v ∈ func.values)
    (hw : w ∈ func.values) (h : v.id = w.id) : v = w := by
  obtain ⟨p, hp⟩ := mem_values_iff.1 hv
  obtain ⟨q, hq⟩ := mem_values_iff.1 hw
  obtain rfl := hid p q v w hp hq h
  exact Option.some.inj (hp.symm.trans hq)

theorem distinctIds_iff : func.DistinctIds ↔ (func.values.map FirValue.id).Nodup := by
  have h : func.positions.map (fun pos => (func.valueAt? pos).map FirValue.id) =
      (func.values.map FirValue.id).map some := by
    calc func.positions.map (fun pos => (func.valueAt? pos).map FirValue.id)
        = (func.positions.map func.valueAt?).map (Option.map FirValue.id) := by rw [List.map_map]; rfl
      _ = _ := by rw [map_valueAt?_positions, List.map_map, List.map_map]; rfl
  rw [← List.nodup_map_iff fun _ _ h => Option.some.inj h, ← h, List.nodup_map_iff_inj_on nodup_positions]
  constructor
  · intro hid p hp q hq heq
    obtain ⟨v, hv⟩ := mem_positions_iff.1 hp
    obtain ⟨w, hw⟩ := mem_positions_iff.1 hq
    rw [hv, hw] at heq
    exact hid p q v w hv hw (Option.some.inj heq)
  · intro hinj p q v w hv hw heq
    refine hinj p (mem_positions_iff.2 ⟨v, hv⟩) q (mem_positions_iff.2 ⟨w, hw⟩) ?_
    rw [hv, hw]
    exact congrArg some heq

theorem EvalsIn.mono (h : func.EvalsIn k id n) (hk : k ≤ k') : func.EvalsIn k' id n := by
  induction hk with
  | refl => exact h
  | step _ ih => exact .inl ih

theorem EvalsTo.const (hval : val ∈ func.values) (hop : val.op = .CONST) :
    func.EvalsTo val.id val.ival := ⟨0, val, hval, rfl, hop, rfl⟩

/-- What a value computes from values that evaluate, it evaluates to. -/
theorem EvalsTo.folds (hval : val ∈ func.values) (h : val.Folds func.EvalsTo n) :
    func.EvalsTo val.id n := by
  have hk : ∃ k, val.Folds (func.EvalsIn k) n := by
    cases h with
    | binary hops hx hy hfold =>
      obtain ⟨k, hk⟩ := hx
      obtain ⟨j, hj⟩ := hy
      exact ⟨max k j, .binary hops (hk.mono (Nat.le_max_left ..)) (hj.mono (Nat.le_max_right ..)) hfold⟩
    | neg hop hops hx =>
      obtain ⟨k, hk⟩ := hx
      exact ⟨k, .neg hop hops hk⟩
    | mulZero hop hops hz =>
      rcases hz with ⟨k, hk⟩ | ⟨k, hk⟩
      · exact ⟨k, .mulZero hop hops (.inl hk)⟩
      · exact ⟨k, .mulZero hop hops (.inr hk)⟩
  obtain ⟨k, hk⟩ := hk
  exact ⟨k + 1, .inr ⟨val, hval, rfl, hk⟩⟩

/-- With distinct ids a value evaluates to one constant only. -/
theorem EvalsIn.unique (hid : func.DistinctIds) (h : func.EvalsIn k id n)
    (h' : func.EvalsIn k' id m) : n = m := by
  induction k generalizing k' id n m with
  | zero =>
    obtain ⟨v, hv, rfl, hop, rfl⟩ := h
    induction k' with
    | zero =>
      obtain ⟨w, hw, hvw, -, rfl⟩ := h'
      rw [hid.eq hw hv hvw]
    | succ k' ih =>
      rcases h' with h' | ⟨w, hw, hvw, hfold⟩
      · exact ih h'
      · obtain rfl := hid.eq hw hv hvw
        exact absurd hop hfold.op_ne_const
  | succ k ihk =>
    rcases h with h | ⟨v, hv, rfl, hfold⟩
    · exact ihk h h'
    · induction k' with
      | zero =>
        obtain ⟨w, hw, hvw, hop, -⟩ := h'
        obtain rfl := hid.eq hw hv hvw
        exact absurd hop hfold.op_ne_const
      | succ k' ih =>
        rcases h' with h' | ⟨w, hw, hvw, hfold'⟩
        · exact ih h'
        · obtain rfl := hid.eq hw hv hvw
          exact hfold.unique hfold' fun _ _ _ hx hx' => ihk hx hx'

theorem EvalsTo.unique (hid : func.DistinctIds) (h : func.EvalsTo id n) (h' : func.EvalsTo id m) :
    n = m := by
  obtain ⟨k, hk⟩ := h
  obtain ⟨j, hj⟩ := h'
  exact hk.unique hid hj

/-- With distinct ids a value that evaluates is a constant or computes one. -/
theorem EvalsTo.cases (hid : func.DistinctIds) (hval : val ∈ func.values)
    (h : func.EvalsTo val.id n) : val.op = .CONST ∧ val.ival = n ∨ val.Folds func.EvalsTo n := by
  obtain ⟨k, hk⟩ := h
  induction k with
  | zero =>
    obtain ⟨w, hw, hvw, hop, hn⟩ := hk
    obtain rfl := hid.eq hw hval hvw
    exact .inl ⟨hop, hn⟩
  | succ k ih =>
    rcases hk with hk | ⟨w, hw, hvw, hfold⟩
    · exact ih hk
    · obtain rfl := hid.eq hw hval hvw
      exact .inr (hfold.mono fun _ _ hx => ⟨k, hx⟩)

/-! ## Identities -/

/-- Evaluating `y` is never harder than evaluating `x`, and gives the same constant. -/
structure Below (func : FirFunc) (x y : UInt32) : Prop where
  forward : ∀ k n, func.EvalsIn k x n → func.EvalsIn k y n
  backward : ∀ n, func.EvalsTo y n → func.EvalsTo x n

theorem Below.refl (func : FirFunc) (x : UInt32) : func.Below x x := ⟨fun _ _ h => h, fun _ h => h⟩

theorem Below.trans {z : UInt32} (h : func.Below x y) (h' : func.Below y z) : func.Below x z :=
  ⟨fun k n hx => h'.forward k n (h.forward k n hx), fun n hz => h.backward n (h'.backward n hz)⟩

/-- A value evaluates exactly as the operand it equals. -/
theorem below_of_equalsOperand {z : UInt32} (hid : func.DistinctIds) (hval : val ∈ func.values)
    (h : val.EqualsOperand func.EvalsTo z) : func.Below val.id z := by
  constructor
  · intro k n hn
    induction k with
    | zero =>
      obtain ⟨w, hw, hvw, hop, -⟩ := hn
      obtain rfl := hid.eq hw hval hvw
      exact absurd hop h.op_ne_const
    | succ k ih =>
      rcases hn with hn | ⟨w, hw, hvw, hfold⟩
      · exact .inl (ih hn)
      · obtain rfl := hid.eq hw hval hvw
        exact .inl (h.of_folds hfold fun _ _ _ hx hx' => EvalsTo.unique hid ⟨k, hx⟩ hx')
  · intro n hz
    exact EvalsTo.folds hval (h.folds hz)

end FirFunc

end FluxOs
