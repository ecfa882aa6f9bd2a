import FluxOs.Fir.Evaluation
import FluxOs.Fir.Semantics

/-!
# What the values of a run satisfy

A constant or an arithmetic value that has been executed satisfies its equation for as long as it is available:
its operands are not defined anew before it is.  So an available value that folding evaluates has that constant as
its value, and one that equals an operand has the same value as the operand.
-/

namespace FluxOs

open Availability FlowGraph Relation

/-! ## Computing -/

theorem FirOp.compute_of_foldBinary {op : FirOp} {a b n : Int64} {rest : List Int64}
    (h : foldBinary op a b = .ok (some n)) : op.compute (a :: b :: rest) = some n := by
  have hdiv (div : Int64 → Int64 → Int64) (h : foldDivision div a b = .ok (some n)) :
      (if b = 0 then none else some (div a b)) = some n := by
    unfold foldDivision at h
    by_cases hzero : b = 0
    · rw [if_pos hzero] at h
      cases Except.ok.inj h
    · rw [if_neg hzero] at h ⊢
      split_ifs at h
      exact Except.ok.inj h
  cases op
  case DIV => exact hdiv _ h
  case MOD => exact hdiv _ h
  all_goals exact Except.ok.inj h

theorem FirOp.computes_of_foldBinary {op : FirOp} {a b n : Int64} (h : foldBinary op a b = .ok (some n)) :
    op.computes = true := by
  cases op
  all_goals first | rfl | cases Except.ok.inj h

theorem FirOp.computes_of_terminator {op : FirOp} (h : firIsTerminator op = true) : op.computes = false := by
  revert h
  cases op
  all_goals decide

namespace FirValue

variable {C : UInt32 → Int64 → Prop} {val : FirValue} {env : SsaEnv} {n : Int64} {x z : UInt32}

theorem Folds.computes (h : val.Folds C n) : val.op.computes = true := by
  cases h with
  | binary _ _ _ hfold => exact FirOp.computes_of_foldBinary hfold
  | neg hop =>
    rw [hop]
    rfl
  | mulZero hop =>
    rw [hop]
    rfl

/-- Where the operands have the values that the constants say, folding computes what the operation does. -/
theorem Folds.compute (h : val.Folds C n) (henv : ∀ x ∈ val.operands, ∀ a, C x a → env x = a) :
    val.op.compute (val.operands.map env) = some n := by
  cases h with
  | binary hops hx hy hfold =>
    rw [hops, List.map_cons, List.map_cons, henv _ (by simp [hops]) _ hx, henv _ (by simp [hops]) _ hy]
    exact FirOp.compute_of_foldBinary hfold
  | neg hop hops hx =>
    rw [hop, hops, List.map_cons, henv _ (by simp [hops]) _ hx]
    rfl
  | mulZero hop hops hz =>
    rw [hop, hops, List.map_cons, List.map_cons]
    show some (_ * _) = _
    rcases hz with hx | hy
    · rw [henv _ (by simp [hops]) _ hx, Int64.zero_mul]
    · rw [henv _ (by simp [hops]) _ hy, Int64.mul_zero]

theorem EqualsOperand.computes (h : val.EqualsOperand C z) : val.op.computes = true := by
  cases h with
  | right _ h =>
    rcases h with ⟨hop | hop, -⟩ | ⟨hop, -⟩
    all_goals
      rw [hop]
      rfl
  | left _ h =>
    rcases h with ⟨hop, -⟩ | ⟨hop, -⟩
    all_goals
      rw [hop]
      rfl

theorem EqualsOperand.mem (h : val.EqualsOperand C z) : z ∈ val.operands := by
  cases h with
  | right hops => simp [hops]
  | left hops => simp [hops]

theorem EqualsOperand.compute (h : val.EqualsOperand C z) (henv : ∀ x ∈ val.operands, ∀ a, C x a → env x = a) :
    val.op.compute (val.operands.map env) = some (env z) := by
  cases h with
  | right hops h =>
    rcases h with ⟨hop | hop, hy⟩ | ⟨hop, hy⟩
    · rw [hop, hops, List.map_cons, List.map_cons, henv _ (by simp [hops]) _ hy]
      exact congrArg some (Int64.add_zero _)
    · rw [hop, hops, List.map_cons, List.map_cons, henv _ (by simp [hops]) _ hy]
      exact congrArg some (Int64.sub_zero _)
    · rw [hop, hops, List.map_cons, List.map_cons, henv _ (by simp [hops]) _ hy]
      exact congrArg some (Int64.mul_one _)
  | left hops h =>
    rcases h with ⟨hop, hx⟩ | ⟨hop, hx⟩
    · rw [hop, hops, List.map_cons, List.map_cons, henv _ (by simp [hops]) _ hx]
      exact congrArg some (Int64.zero_add _)
    · rw [hop, hops, List.map_cons, List.map_cons, henv _ (by simp [hops]) _ hx]
      exact congrArg some (Int64.one_mul _)

theorem uses_of_computes (h : val.op.computes = true) : val.uses = val.operands := by
  unfold uses
  split
  all_goals first | rfl | (rename_i hop; rw [hop] at h; cases h)

end FirValue

/-- The value has the constant, or what it computes from the values of its operands. -/
structure FirValue.Satisfies (val : FirValue) (env : SsaEnv) : Prop where
  const : val.op = .CONST → env val.id = val.ival
  computes : val.op.computes = true → val.op.compute (val.operands.map env) = some (env val.id)

theorem satisfies_of_terminator {val : FirValue} {env : SsaEnv} (h : firIsTerminator val.op = true) :
    val.Satisfies env := by
  refine ⟨fun hop => ?_, fun hop => ?_⟩
  · rw [hop] at h
    cases h
  · rw [FirOp.computes_of_terminator h] at hop
    cases hop

namespace FirFunc

variable {func : FirFunc} {val u : FirValue} {env env' : SsaEnv} {p q : Nat × Nat} {n : Int64} {x z : UInt32}

/-! ## Uses -/

theorem DistinctIds.definesOnce (hid : func.DistinctIds) : func.graph.DefinesOnce := by
  rintro p q x ⟨v, hv, rfl⟩ ⟨w, hw, heq⟩
  exact hid p q v w hv hw heq.symm

/-- Where a value is available, what it uses is ready. -/
theorem SsaForm.ready (hssa : func.SsaForm) (hid : func.DistinctIds) (hval : val ∈ func.values) (hx : x ∈ val.uses)
    (havail : func.graph.Available val.id q) : func.graph.Ready x q := by
  intro hdef
  refine havail.of_definitions ?_
  rintro p ⟨v, hv, heq⟩
  obtain rfl := hid.eq (mem_values_iff.2 ⟨p, hv⟩) hval heq
  exact hssa.operands p v hv x hx hdef

/-- A value does not use itself. -/
theorem SsaForm.not_mem_uses (hssa : func.SsaForm) (hid : func.DistinctIds) (hreach : func.graph.Reaches p)
    (hval : func.valueAt? p = some val) : val.id ∉ val.uses := by
  intro hmem
  have hdef : func.graph.defines p val.id := ⟨val, hval, rfl⟩
  exact not_available_of_defines hid.definesOnce hreach hdef (hssa.operands p val hval _ hmem ⟨p, hdef⟩)

/-! ## The invariant -/

/-- Every value that is available satisfies its equation. -/
def Solved (func : FirFunc) (env : SsaEnv) (p : Nat × Nat) : Prop :=
  ∀ val ∈ func.values, func.graph.Available val.id p → val.Satisfies env

theorem solved_start : func.Solved env func.graph.start := fun _ _ havail => absurd havail not_available_start

/-- A step that gives the value at the point what it satisfies, and no other a new value. -/
theorem Solved.step (hs : func.Solved env p) (hssa : func.SsaForm) (hid : func.DistinctIds)
    (hreach : func.graph.Reaches p) (hu : func.valueAt? p = some u) (hedge : func.graph.edge p q)
    (hagree : ∀ x, x ≠ u.id → env' x = env x) (hnew : u.Satisfies env') : func.Solved env' q := by
  intro v hv havail
  have humem : u ∈ func.values := mem_values_iff.2 ⟨p, hu⟩
  by_cases hvu : v.id = u.id
  · obtain rfl := hid.eq hv humem hvu
    exact hnew
  have hkeeps : ¬ func.graph.defines p v.id := by
    rintro ⟨w, hw, hwid⟩
    obtain rfl := Option.some.inj (hu.symm.trans hw)
    exact hvu hwid.symm
  have hbefore : func.graph.Available v.id p := (havail.before hedge).resolve_right hkeeps
  have hsat := hs v hv hbefore
  refine ⟨fun hop => ?_, fun hop => ?_⟩
  · rw [hagree v.id hvu]
    exact hsat.const hop
  · have hops : v.operands.map env' = v.operands.map env := by
      refine List.map_congr_left fun x hx => hagree x ?_
      rintro rfl
      have hdef : func.graph.defines p u.id := ⟨u, hu, rfl⟩
      refine not_defines_of_available hid.definesOnce hreach hedge havail hkeeps ?_ hdef
      rintro r ⟨w, hw, hwid⟩
      obtain rfl := hid.eq (mem_values_iff.2 ⟨r, hw⟩) hv hwid
      exact hssa.operands r w hw _ (by rwa [FirValue.uses_of_computes hop]) ⟨p, hdef⟩
    rw [hops, hagree v.id hvu]
    exact hsat.computes hop

/-- A value that is executed satisfies its equation. -/
theorem satisfies_of_exec {host : FirHost} {pred : Option UInt32} {entry : SsaEnv} {s t : SsaState}
    (hssa : func.SsaForm) (hid : func.DistinctIds) (hreach : func.graph.Reaches p)
    (hval : func.valueAt? p = some val) (h : val.exec host pred entry s = some t) :
    (∀ x, x ≠ val.id → t.env x = s.env x) ∧ val.Satisfies t.env := by
  obtain ⟨n, hn, rfl⟩ := Option.map_eq_some_iff.1 h
  refine ⟨fun x hx => Function.update_of_ne hx _ _, fun hop => ?_, fun hop => ?_⟩
  · rw [FirValue.result, if_pos hop] at hn
    rw [Option.some.inj hn]
    exact Function.update_self ..
  · have hconst : val.op ≠ .CONST := by
      intro heq
      rw [heq] at hop
      cases hop
    have hphi : val.op ≠ .PHI := by
      intro heq
      rw [heq] at hop
      cases hop
    rw [FirValue.result, if_neg hconst, if_neg hphi, if_pos hop] at hn
    have hself := hssa.not_mem_uses hid hreach hval
    rw [FirValue.uses_of_computes hop] at hself
    have hops : val.operands.map (Function.update s.env val.id n) = val.operands.map s.env := by
      refine List.map_congr_left fun x hx => Function.update_of_ne ?_ _ _
      rintro rfl
      exact hself hx
    show val.op.compute (val.operands.map (Function.update s.env val.id n)) =
      some (Function.update s.env val.id n val.id)
    rw [hops, hn, Function.update_self]

/-! ## What folding knows -/

theorem exists_of_evalsIn {k : Nat} (h : func.EvalsIn k x n) : ∃ val ∈ func.values, val.id = x := by
  induction k with
  | zero =>
    obtain ⟨val, hval, hvx, -⟩ := h
    exact ⟨val, hval, hvx⟩
  | succ k ih =>
    rcases h with h | ⟨val, hval, hvx, -⟩
    · exact ih h
    · exact ⟨val, hval, hvx⟩

theorem exists_defines (hval : val ∈ func.values) : ∃ p, func.graph.defines p val.id := by
  obtain ⟨p, hp⟩ := mem_values_iff.1 hval
  exact ⟨p, val, hp, rfl⟩

/-- What is ready and evaluates is available. -/
theorem available_of_evalsTo (hready : func.graph.Ready x p) (h : func.EvalsTo x n) : func.graph.Available x p := by
  obtain ⟨k, hk⟩ := h
  obtain ⟨val, hval, rfl⟩ := exists_of_evalsIn hk
  exact hready (exists_defines hval)

/-- An available value that evaluates has that constant as its value. -/
theorem Solved.evalsIn {k : Nat} (hs : func.Solved env p) (hssa : func.SsaForm) (hid : func.DistinctIds)
    (h : func.EvalsIn k x n) (havail : func.graph.Available x p) : env x = n := by
  induction k generalizing x n with
  | zero =>
    obtain ⟨val, hval, rfl, hop, rfl⟩ := h
    exact (hs val hval havail).const hop
  | succ k ih =>
    rcases h with h | ⟨val, hval, rfl, hfold⟩
    · exact ih h havail
    · have hops : val.op.compute (val.operands.map env) = some n := by
        refine hfold.compute fun x hx a ha => ih ha ?_
        rw [← FirValue.uses_of_computes hfold.computes] at hx
        exact available_of_evalsTo (hssa.ready hid hval hx havail) ⟨k, ha⟩
      exact Option.some.inj (((hs val hval havail).computes hfold.computes).symm.trans hops)

theorem Solved.evalsTo (hs : func.Solved env p) (hssa : func.SsaForm) (hid : func.DistinctIds)
    (hready : func.graph.Ready x p) (h : func.EvalsTo x n) : env x = n :=
  hs.evalsIn hssa hid h.choose_spec (available_of_evalsTo hready h)

/-! ## Identities -/

/-- A branch goes to the block with this id. -/
def IsTarget (func : FirFunc) (id : UInt32) : Prop :=
  ∃ val ∈ func.values, val.op = .BRANCH ∧ some id ∈ val.targets

/-- The value `x` equals its operand `z`, and its id is not that of a block that a branch goes to. -/
def IdentityStep (func : FirFunc) (x z : UInt32) : Prop :=
  ¬ func.IsTarget x ∧ ∃ val ∈ func.values, val.id = x ∧ val.EqualsOperand func.EvalsTo z

/-- Folding may replace `x` by `z`, through values that equal their operands. -/
def Reduces (func : FirFunc) : UInt32 → UInt32 → Prop := ReflTransGen func.IdentityStep

theorem Reduces.below (hid : func.DistinctIds) (h : func.Reduces x z) : func.Below x z := by
  induction h with
  | refl => exact .refl func x
  | tail _ hstep ih =>
    obtain ⟨-, val, hval, rfl, heq⟩ := hstep
    exact ih.trans (below_of_equalsOperand hid hval heq)

theorem IdentityStep.ready (h : func.IdentityStep x z) (hssa : func.SsaForm) (hid : func.DistinctIds)
    (hready : func.graph.Ready x p) : func.graph.Ready z p := by
  obtain ⟨-, val, hval, rfl, heq⟩ := h
  refine hssa.ready hid hval ?_ (hready (exists_defines hval))
  rw [FirValue.uses_of_computes heq.computes]
  exact heq.mem

/-- What replaces a value is ready wherever the value is. -/
theorem Reduces.ready (h : func.Reduces x z) (hssa : func.SsaForm) (hid : func.DistinctIds)
    (hready : func.graph.Ready x p) : func.graph.Ready z p := by
  induction h with
  | refl => exact hready
  | tail _ hstep ih => exact hstep.ready hssa hid ih

/-- What replaces a value has the same value. -/
theorem Reduces.env_eq (h : func.Reduces x z) (hs : func.Solved env p) (hssa : func.SsaForm)
    (hid : func.DistinctIds) (hready : func.graph.Ready x p) : env x = env z := by
  induction h with
  | refl => rfl
  | @tail y z hpath hstep ih =>
    refine ih.trans ?_
    have hy : func.graph.Ready y p := Reduces.ready hpath hssa hid hready
    obtain ⟨-, val, hval, rfl, heq⟩ := hstep
    have havail := hy (exists_defines hval)
    have hops : val.op.compute (val.operands.map env) = some (env z) := by
      refine heq.compute fun x hx a ha => ?_
      rw [← FirValue.uses_of_computes heq.computes] at hx
      exact hs.evalsTo hssa hid (hssa.ready hid hval hx havail) ha
    exact Option.some.inj (((hs val hval havail).computes heq.computes).symm.trans hops)

end FirFunc

end FluxOs
