import FluxOs.Fir.Passes
import Mathlib.Logic.Relation

/-!
# What validation guarantees

Control enters a function at its entry block and goes from value to value; a terminator returns or
transfers it to a block.  A function that `fir_validate_func` accepts has one terminator at the end of each
block, and its targets exist, except that a `BRANCH` with fewer than two operands is not checked at all.
So the accepted functions in which control never goes astray are those whose branches have two operands.
-/

namespace FluxOs

open Relation

/-- The block ids that a terminator transfers control to, `none` where the operand is missing. -/
def FirValue.targets (val : FirValue) : List (Option UInt32) :=
  match val.op with
  | .JUMP => [some val.blockId]
  | .BRANCH => [val.operands[1]?, val.operands[2]?]
  | _ => []

/-- The last of the values is their only terminator. -/
def EndsWithTerminator (values : List FirValue) : Prop :=
  ∃ body term, values = body ++ [term] ∧ firIsTerminator term.op = true ∧
    ∀ val ∈ body, firIsTerminator val.op = false

/-! ## Control flow -/

/-- Where control is: in front of a value of a block, or behind the end of the function. -/
inductive Control
  | at (block : FirBlock) (v : Nat)
  | returned
  | fellOff
  | missingBlock

namespace FirFunc

variable {func : FirFunc} {block : FirBlock} {val : FirValue}

/-- Control transferred to a target. -/
inductive Transfers (func : FirFunc) : Option UInt32 → Control → Prop
  | block {block : FirBlock} (h : block ∈ func.blocks) : Transfers func (some block.id) (.at block 0)
  | missing {id : UInt32} (h : func.hasBlock id = false) : Transfers func (some id) .missingBlock
  | none : Transfers func none .missingBlock

/-- One step of control. -/
inductive Goes (func : FirFunc) : Control → Control → Prop
  | next {block v val} (hval : block.values[v]? = some val) (h : firIsTerminator val.op = false) :
      Goes func (.at block v) (.at block (v + 1))
  | ret {block v val} (hval : block.values[v]? = some val) (h : val.op = .RETURN) :
      Goes func (.at block v) .returned
  | transfer {block v val target c} (hval : block.values[v]? = some val) (h : target ∈ val.targets)
      (hc : Transfers func target c) : Goes func (.at block v) c
  | fallOff {block v} (h : block.values.length ≤ v) : Goes func (.at block v) .fellOff

/-- Control at the entry block. -/
def start (func : FirFunc) : Control :=
  match func.blocks[func.entryBlock.toNat]? with
  | some block => .at block 0
  | none => .missingBlock

/-- The targets that the value needs are there and name blocks. -/
def TargetsExist (func : FirFunc) (val : FirValue) : Prop :=
  ∀ target ∈ val.targets, ∃ id, target = some id ∧ func.hasBlock id = true

/-- What validation promises: each block ends with its only terminator, every target is there and names a
block, the entry block exists, and control goes from it to blocks of the function only. -/
structure WellFormed (func : FirFunc) : Prop where
  terminated : ∀ block ∈ func.blocks, EndsWithTerminator block.values
  targets : ∀ val ∈ func.values, func.TargetsExist val
  entry : func.entryBlock.toNat < func.blocks.length
  control : ∀ c, ReflTransGen func.Goes func.start c → c ≠ .fellOff ∧ c ≠ .missingBlock

/-! ## The checks -/

section

variable {α : Type} {check : α → Nat} {l : List α}

theorem errorsIn_eq_zero : errorsIn check l = 0 ↔ ∀ a ∈ l, check a = 0 := by
  have h (errors : Nat) : l.foldl (fun errors a => errors + check a) errors = 0 ↔
      errors = 0 ∧ ∀ a ∈ l, check a = 0 := by
    induction l generalizing errors with
    | nil => simp
    | cons a l ih =>
      rw [List.foldl_cons, ih, Nat.add_eq_zero_iff, and_assoc, List.forall_mem_cons]
  exact (h 0).trans (and_iff_right rfl)

end

/-- The visit of one value by the terminator check of a block of `n` values. -/
def terminatorStep (n : Nat) (state : Nat × Bool) (p : FirValue × Nat) : Nat × Bool :=
  if firIsTerminator p.1.op then
    (state.1 + (if state.2 then 1 else 0) + (if p.2 + 1 ≠ n then 1 else 0), true)
  else state

theorem endsWithTerminator_cons_of_terminator {a : FirValue} {l : List FirValue}
    (ha : firIsTerminator a.op = true) : EndsWithTerminator (a :: l) ↔ l = [] := by
  constructor
  · rintro ⟨body, term, heq, -, hbody⟩
    cases body with
    | nil => exact (List.cons.inj heq).2
    | cons b body =>
      obtain ⟨rfl, -⟩ := List.cons.inj heq
      have := hbody a List.mem_cons_self
      rw [ha] at this
      cases this
  · rintro rfl
    exact ⟨[], a, rfl, ha, fun val hval => by cases hval⟩

theorem endsWithTerminator_cons_of_other {a : FirValue} {l : List FirValue}
    (ha : firIsTerminator a.op = false) : EndsWithTerminator (a :: l) ↔ EndsWithTerminator l := by
  constructor
  · rintro ⟨body, term, heq, hterm, hbody⟩
    cases body with
    | nil =>
      obtain ⟨rfl, -⟩ := List.cons.inj heq
      rw [ha] at hterm
      cases hterm
    | cons b body =>
      obtain ⟨-, rfl⟩ := List.cons.inj heq
      exact ⟨body, term, rfl, hterm, fun val hval => hbody val (List.mem_cons_of_mem _ hval)⟩
  · rintro ⟨body, term, rfl, hterm, hbody⟩
    exact ⟨a :: body, term, rfl, hterm, List.forall_mem_cons.2 ⟨ha, hbody⟩⟩

/-- The check finds no error in what is left of a block: there is no terminator in it, or there was none
before and it ends with its only one. -/
theorem terminatorSteps_spec {n k : Nat} {l : List FirValue} (errors : Nat) (hasTerminator : Bool)
    (hk : k + l.length = n) :
    ((l.zipIdx k).foldl (terminatorStep n) (errors, hasTerminator)).2 =
        (hasTerminator || l.any fun val => firIsTerminator val.op) ∧
      (((l.zipIdx k).foldl (terminatorStep n) (errors, hasTerminator)).1 = 0 ↔
        errors = 0 ∧ ((∀ val ∈ l, firIsTerminator val.op = false) ∨
          hasTerminator = false ∧ EndsWithTerminator l)) := by
  induction l generalizing k errors hasTerminator with
  | nil => simp
  | cons a l ih =>
    have hk' : k + 1 + l.length = n := by rw [← hk, List.length_cons]; omega
    rw [List.zipIdx_cons, List.foldl_cons, List.any_cons, List.forall_mem_cons]
    cases ha : firIsTerminator a.op with
    | false =>
      have hstep : terminatorStep n (errors, hasTerminator) (a, k) = (errors, hasTerminator) := by
        unfold terminatorStep
        simp [ha]
      rw [hstep, endsWithTerminator_cons_of_other ha]
      simpa using ih errors hasTerminator hk'
    | true =>
      have hstep : terminatorStep n (errors, hasTerminator) (a, k) =
          (errors + (if hasTerminator then 1 else 0) + (if k + 1 ≠ n then 1 else 0), true) := by
        unfold terminatorStep
        simp [ha]
      obtain ⟨hflag, herrors⟩ := ih
        (errors + (if hasTerminator then 1 else 0) + (if k + 1 ≠ n then 1 else 0)) true hk'
      rw [hstep, endsWithTerminator_cons_of_terminator ha]
      refine ⟨by rw [hflag]; simp, ?_⟩
      rw [herrors]
      cases l with
      | nil =>
        have hlast : k + 1 = n := hk'
        cases hasTerminator <;> simp [hlast]
      | cons b l =>
        have hlast : k + 1 ≠ n := by
          rw [List.length_cons] at hk'
          omega
        simp [hlast]

theorem terminatorErrors_eq_zero : terminatorErrors block = 0 ↔ EndsWithTerminator block.values := by
  have hspec := terminatorSteps_spec (l := block.values) (k := 0) 0 false (Nat.zero_add _)
  have hstep : terminatorErrors block =
      (block.values.zipIdx.foldl (terminatorStep block.values.length) (0, false)).1 +
        if (block.values.zipIdx.foldl (terminatorStep block.values.length) (0, false)).2 then 0 else 1 :=
    rfl
  rw [hstep, Nat.add_eq_zero_iff, hspec.1, hspec.2]
  constructor
  · rintro ⟨⟨-, hnone | ⟨-, hends⟩⟩, hany⟩
    · have hfalse : (block.values.any fun val => firIsTerminator val.op) = false :=
        List.any_eq_false.2 fun val hval => by simp [hnone val hval]
      rw [hfalse] at hany
      cases hany
    · exact hends
  · intro hends
    refine ⟨⟨rfl, .inr ⟨rfl, hends⟩⟩, ?_⟩
    obtain ⟨body, term, heq, hterm, -⟩ := hends
    simp [heq, hterm]

/-- The check of the targets of a value finds every error but a branch with less than two operands. -/
theorem targetErrors_eq_zero (h : func.targetErrors val = 0) :
    func.TargetsExist val ↔ (val.op = .BRANCH → 2 ≤ val.operands.length) := by
  by_cases hjump : val.op = .JUMP
  · have htargets : val.targets = [some val.blockId] := by simp only [FirValue.targets, hjump]
    simp only [targetErrors, hjump] at h
    refine iff_of_true (fun target hmem => ?_) fun hbranch => ?_
    · rw [htargets, List.mem_singleton] at hmem
      refine ⟨val.blockId, hmem, ?_⟩
      by_contra hmissing
      rw [if_neg hmissing] at h
      cases h
    · rw [hjump] at hbranch
      cases hbranch
  by_cases hbranch : val.op = .BRANCH
  · have htargets : val.targets = [val.operands[1]?, val.operands[2]?] := by
      simp only [FirValue.targets, hbranch]
    simp only [targetErrors, hbranch] at h
    unfold TargetsExist
    rw [htargets]
    rcases hoperands : val.operands with _ | ⟨x, _ | ⟨t, _ | ⟨f, rest⟩⟩⟩
    · simp [hbranch]
    · simp [hbranch]
    · rw [hoperands] at h
      cases h
    · rw [hoperands] at h
      have hblocks : func.hasBlock t && func.hasBlock f := by
        by_contra hmissing
        simp only [if_neg hmissing] at h
        cases h
      rw [Bool.and_eq_true] at hblocks
      simp [hblocks]
  · have htargets : val.targets = [] := by
      unfold FirValue.targets
      split
      · exact absurd ‹_› hjump
      · exact absurd ‹_› hbranch
      · rfl
    unfold TargetsExist
    rw [htargets]
    exact iff_of_true (fun target hmem => by cases hmem) fun h => absurd h hbranch

/-! ## Accepted functions -/

/-- What the checks of an accepted function say. -/
structure Accepted (func : FirFunc) : Prop where
  terminated : ∀ block ∈ func.blocks, EndsWithTerminator block.values
  targets : ∀ val ∈ func.values, func.targetErrors val = 0
  entry : func.entryBlock.toNat < func.blocks.length

theorem firValidateFunc_eq_zero : func.firValidateFunc = 0 ↔
    func.blocks.length ≠ 0 ∧ func.entryBlock < UInt32.ofNat func.blocks.length ∧
      ∀ block ∈ func.blocks, EndsWithTerminator block.values ∧
        ∀ val ∈ block.values, func.targetErrors val = 0 ∧ func.phiErrors val = 0 := by
  have hentry : (if func.entryBlock ≥ UInt32.ofNat func.blocks.length then 1 else 0) = 0 ↔
      func.entryBlock < UInt32.ofNat func.blocks.length := by
    by_cases hge : func.entryBlock ≥ UInt32.ofNat func.blocks.length
    · rw [if_pos hge]
      exact iff_of_false Nat.one_ne_zero (UInt32.not_lt.2 hge)
    · rw [if_neg hge]
      exact iff_of_true rfl (UInt32.not_le.1 hge)
  have hblock (block : FirBlock) : func.blockErrors block = 0 ↔ EndsWithTerminator block.values ∧
      ∀ val ∈ block.values, func.targetErrors val = 0 ∧ func.phiErrors val = 0 := by
    unfold blockErrors
    rw [Nat.add_eq_zero_iff, Nat.add_eq_zero_iff, errorsIn_eq_zero, errorsIn_eq_zero, terminatorErrors_eq_zero,
      and_assoc, ← forall₂_and]
  unfold firValidateFunc
  by_cases hnone : func.blocks.length = 0
  · rw [if_pos hnone]
    exact iff_of_false Nat.one_ne_zero fun h => h.1 hnone
  · rw [if_neg hnone, Nat.add_eq_zero_iff, errorsIn_eq_zero, hentry, and_comm,
      forall₂_congr fun block _ => hblock block]
    exact (and_iff_right hnone).symm

theorem accepted_of_firValidateFunc (h : func.firValidateFunc = 0) : func.Accepted := by
  obtain ⟨-, hentry, hblocks⟩ := firValidateFunc_eq_zero.1 h
  refine ⟨fun block hmem => (hblocks block hmem).1, fun val hval => ?_, ?_⟩
  · obtain ⟨block, hmem, hval⟩ := List.mem_flatMap.1 hval
    exact ((hblocks block hmem).2 val hval).1
  · have := UInt32.lt_iff_toNat_lt.1 hentry
    rw [UInt32.toNat_ofNat'] at this
    exact Nat.lt_of_lt_of_le this (Nat.mod_le _ _)

/-- Control inside the function, in front of a value or behind a return. -/
def Inside (func : FirFunc) : Control → Prop
  | .at block v => block ∈ func.blocks ∧ v < block.values.length
  | .returned => True
  | .fellOff => False
  | .missingBlock => False

/-- A value in front of the end of the block is not its last. -/
theorem lt_length_of_endsWithTerminator {values : List FirValue} {v : Nat}
    (h : EndsWithTerminator values) (hval : values[v]? = some val)
    (hother : firIsTerminator val.op = false) : v + 1 < values.length := by
  obtain ⟨body, term, rfl, hterm, -⟩ := h
  have hv := (List.getElem?_eq_some_iff.1 hval).1
  rw [List.length_append, List.length_singleton] at hv ⊢
  rcases Nat.lt_succ_iff_lt_or_eq.1 hv with hlt | rfl
  · omega
  · rw [List.getElem?_append_right (Nat.le_refl _), Nat.sub_self] at hval
    obtain rfl : term = val := by simpa using hval
    rw [hterm] at hother
    cases hother

theorem inside_of_goes {c c' : Control} (hterm : ∀ block ∈ func.blocks, EndsWithTerminator block.values)
    (htargets : ∀ val ∈ func.values, func.TargetsExist val) (hc : func.Inside c)
    (h : func.Goes c c') : func.Inside c' := by
  cases h with
  | next hval hother =>
    exact ⟨hc.1, lt_length_of_endsWithTerminator (hterm _ hc.1) hval hother⟩
  | ret => exact trivial
  | fallOff hend => exact absurd hc.2 (Nat.not_lt.2 hend)
  | transfer hval htarget htransfer =>
    obtain ⟨id, rfl, hid⟩ := htargets _
      (List.mem_flatMap.2 ⟨_, hc.1, List.mem_of_getElem? hval⟩) _ htarget
    cases htransfer with
    | block hmem =>
      obtain ⟨body, term, heq, -⟩ := hterm _ hmem
      refine ⟨hmem, ?_⟩
      rw [heq, List.length_append, List.length_singleton]
      omega
    | missing hmissing =>
      rw [hid] at hmissing
      cases hmissing

theorem inside_start (hterm : ∀ block ∈ func.blocks, EndsWithTerminator block.values)
    (hentry : func.entryBlock.toNat < func.blocks.length) : func.Inside func.start := by
  unfold start
  rw [List.getElem?_eq_getElem hentry]
  have hmem := List.getElem_mem hentry
  obtain ⟨body, term, heq, -⟩ := hterm _ hmem
  refine ⟨hmem, ?_⟩
  rw [heq, List.length_append, List.length_singleton]
  omega

/-- Control stays inside. -/
theorem inside_of_reachable {c : Control}
    (hterm : ∀ block ∈ func.blocks, EndsWithTerminator block.values)
    (htargets : ∀ val ∈ func.values, func.TargetsExist val)
    (hentry : func.entryBlock.toNat < func.blocks.length) (h : ReflTransGen func.Goes func.start c) :
    func.Inside c := by
  induction h with
  | refl => exact inside_start hterm hentry
  | tail _ hstep ih => exact inside_of_goes hterm htargets ih hstep

/-- A function that validation accepts is well formed exactly when each of its branches has two
operands. -/
theorem wellFormed_iff_of_validated (h : func.firValidateFunc = 0) :
    func.WellFormed ↔ ∀ val ∈ func.values, val.op = .BRANCH → 2 ≤ val.operands.length := by
  have haccepted := accepted_of_firValidateFunc h
  constructor
  · intro hwf val hval
    exact (targetErrors_eq_zero (haccepted.targets val hval)).1 (hwf.targets val hval)
  · intro hbranches
    have htargets val (hval : val ∈ func.values) : func.TargetsExist val :=
      (targetErrors_eq_zero (haccepted.targets val hval)).2 (hbranches val hval)
    refine ⟨haccepted.terminated, htargets, haccepted.entry, fun c hc => ?_⟩
    have hinside := inside_of_reachable haccepted.terminated htargets haccepted.entry hc
    exact ⟨fun h => by rw [h] at hinside; exact hinside, fun h => by rw [h] at hinside; exact hinside⟩

/-- A block with one value. -/
def blockOf (id : UInt32) (op : FirOp) (operands : List UInt32) : FirBlock :=
  { id := id, values := [⟨id * 1024, .VOID, op, operands, 0, []⟩], terminator := id * 1024,
    isSealed := true }

/-- A function of the given blocks, entered at the first. -/
def funcOf (blocks : List FirBlock) : FirFunc :=
  { returnType := .VOID, paramTypes := [], numParams := 0, entryBlock := 0, blocks := blocks,
    isAgent := false, isCompiled := false, nextValueId := 0 }

/-- A block that branches to itself or to a block that returns. -/
theorem wellFormed_loop : (funcOf [blockOf 0 .BRANCH [7, 0, 1], blockOf 1 .RETURN []]).WellFormed :=
  (wellFormed_iff_of_validated (by decide)).2 (by decide)

/-- A branch without operands is accepted, and control has no block to go to. -/
theorem branch_without_operands_accepted : ¬ ∀ func : FirFunc,
    func.firValidateFunc = 0 → func.WellFormed := by
  intro h
  have hwf := h (funcOf [blockOf 0 .BRANCH []]) (by decide)
  obtain ⟨id, hid, -⟩ := hwf.targets ⟨0, .VOID, .BRANCH, [], 0, []⟩ (by decide) none (by decide)
  cases hid

end FirFunc

end FluxOs
