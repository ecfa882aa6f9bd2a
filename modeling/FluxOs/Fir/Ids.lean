import FluxOs.Fir.DeadCode
import FluxOs.Fir.Folding

/-!
# Value ids over construction and optimization

`fir_value_create` numbers a value by its block and the number of values the block holds, and takes no
notice of the parameters, which have the first ids, or of values that dead code elimination has removed.
A run of calls keeps every id to one definition exactly when no call hits either.
-/

namespace FluxOs

open Faulting

/-- The calls that work on a function; `fill` stands for the writes of a client to the payload and the
sources of a value it has created. -/
inductive FirCall
  | blockCreate
  | valueCreate (b : Nat) (op : FirOp) (type : FirType) (operands : List UInt32)
  | fill (pos : Nat × Nat) (payload : UInt64) (phi : List PhiSource)
  | constantFold
  | deadCodeElim

/-- A call on `func` returns and leaves it as `t`. -/
def FirCall.Returns (func t : FirFunc) : FirCall → Prop
  | .blockCreate => t = (firBlockCreate func).1
  | .valueCreate b op type operands => t = (firValueCreate func b op type operands).1
  | .fill pos payload phi => t = func.modifyAt pos fun val => { val with payload, phi }
  | .constantFold => ∃ fuel, func.firConstantFold fuel = some (.ok t)
  | .deadCodeElim => ∃ fuel, func.firDeadCodeElim fuel = some (.ok t)

/-- A run of calls on `func`, with the state that each leaves. -/
inductive CallsReturn : FirFunc → List (FirCall × FirFunc) → Prop
  | nil (func : FirFunc) : CallsReturn func []
  | cons {func t : FirFunc} {call : FirCall} {run : List (FirCall × FirFunc)}
    (h : call.Returns func t) (hrun : CallsReturn t run) : CallsReturn func ((call, t) :: run)

/-- Every call of a run starts in a state that satisfies the guard. -/
def CallsGuarded (guard : FirFunc → FirCall → Prop) : FirFunc → List (FirCall × FirFunc) → Prop
  | _, [] => True
  | func, (call, t) :: run => guard func call ∧ CallsGuarded guard t run

namespace FirFunc

variable {func t u : FirFunc} {block : FirBlock} {b : Nat}

/-- The ids of the parameters, which `fir_func_create` numbers first. -/
def paramIds (func : FirFunc) : List UInt32 := (List.range func.numParams.toNat).map UInt32.ofNat

/-- Every id names one definition, a parameter or a value. -/
def SingleDefinitions (func : FirFunc) : Prop := (func.paramIds ++ func.values.map FirValue.id).Nodup

/-- A created value gets an id that is neither a parameter's nor that of a value left in its block. -/
def CreatesFresh (func : FirFunc) : FirCall → Prop
  | .valueCreate b _ _ _ => ∀ block, func.blocks[b]? = some block →
      block.values.length < firMaxValues →
      func.numParams ≤ block.nextId.toNat ∧ ∀ val ∈ block.values, val.id ≠ block.nextId
  | _ => True

/-- Blocks have their index as id, and values ids in the range of their block. -/
structure Numbered (func : FirFunc) : Prop where
  numParams : func.numParams ≤ 16
  numBlocks : func.blocks.length ≤ firMaxBlocks
  blockId : ∀ (b : Nat) (block : FirBlock), func.blocks[b]? = some block → block.id = UInt32.ofNat b
  numValues : ∀ (b : Nat) (block : FirBlock), func.blocks[b]? = some block →
    block.values.length ≤ firMaxValues
  valueId : ∀ (b : Nat) (block : FirBlock), func.blocks[b]? = some block →
    ∀ val ∈ block.values, val.id.toNat / firMaxValues = b

/-! ## Passes and edits remove ids at most -/

/-- A block keeps its id, and the ids of its values, up to removed ones. -/
def BlockShrinks (block block' : FirBlock) : Prop :=
  block'.id = block.id ∧ (block'.values.map FirValue.id).Sublist (block.values.map FirValue.id)

theorem BlockShrinks.refl (block : FirBlock) : BlockShrinks block block :=
  ⟨rfl, List.Sublist.refl _⟩

/-- Every block keeps its id, and the ids of its values, up to removed ones. -/
structure Shrinks (func t : FirFunc) : Prop where
  numParams : t.numParams = func.numParams
  blocks : List.Forall₂ BlockShrinks func.blocks t.blocks

theorem Shrinks.refl (func : FirFunc) : Shrinks func func :=
  ⟨rfl, List.forall₂_same.2 fun block _ => .refl block⟩

theorem Shrinks.trans (h : Shrinks func t) (h' : Shrinks t u) : Shrinks func u := by
  refine ⟨h'.numParams.trans h.numParams, ?_⟩
  have hlist {k l m : List FirBlock} (h : List.Forall₂ BlockShrinks k l)
      (h' : List.Forall₂ BlockShrinks l m) : List.Forall₂ BlockShrinks k m := by
    induction h generalizing m with
    | nil => exact h'
    | cons hab _ ih =>
      obtain ⟨c, m, hbc, htail, rfl⟩ := List.forall₂_cons_left_iff.1 h'
      exact .cons ⟨hbc.1.trans hab.1, hbc.2.trans hab.2⟩ (ih htail)
  exact hlist h.blocks h'.blocks

theorem shrinks_modifyAt {pos : Nat × Nat} {g : FirValue → FirValue} (hg : ∀ val, (g val).id = val.id) :
    Shrinks func (func.modifyAt pos g) := by
  refine ⟨rfl, forall₂_modify BlockShrinks.refl fun block _ => ⟨rfl, ?_⟩⟩
  have h : (block.values.modify pos.2 g).map FirValue.id = block.values.map FirValue.id := by
    refine List.ext_getElem? fun v => ?_
    rw [List.getElem?_map, List.getElem?_modify, List.getElem?_map]
    cases block.values[v]? with
    | none => rfl
    | some val => split_ifs <;> simp [hg]
  rw [h]

theorem shrinks_mapValues {g : FirValue → FirValue} (hg : ∀ val, (g val).id = val.id) :
    Shrinks func (func.mapValues g) := by
  refine ⟨rfl, List.forall₂_map_right_iff.2 (List.forall₂_same.2 fun block _ => ⟨rfl, ?_⟩)⟩
  rw [List.map_map, show FirValue.id ∘ g = FirValue.id from funext hg]

theorem shrinks_removeAt {pos : Nat × Nat} : Shrinks func (func.removeAt pos) := by
  exact ⟨rfl, forall₂_modify BlockShrinks.refl fun block _ => ⟨rfl, (List.eraseIdx_sublist ..).map _⟩⟩

theorem shrinks_foldSweep {c : Bool} (h : func.foldSweep = .ok (t, c)) : Shrinks func t := by
  rw [foldSweep_eq_trials] at h
  refine sweep_rel (R := fun s t : FirFunc × Bool => Shrinks s.1 t.1) (fun s => .refl s.1)
    (fun _ _ _ => .trans) (fun s p t ht => ?_) h
  obtain ⟨s, cs⟩ := s
  obtain ⟨t, ct⟩ := t
  rcases tryRule_cases ht with ⟨heq, -⟩ | ⟨val, r, -, -, heq⟩
  · cases heq
    exact .refl s
  · cases heq
    cases r with
    | constant n => exact shrinks_modifyAt fun _ => rfl
    | replace z => exact shrinks_mapValues fun _ => rfl

theorem shrinks_dceVisit (s : FirFunc × Bool) (pos : Nat × Nat) :
    Shrinks s.1 (dceVisit s pos).1 := by
  obtain ⟨func, c⟩ := s
  simp only [dceVisit]
  split
  · exact .refl func
  · split_ifs
    · exact .refl func
    · exact shrinks_removeAt

theorem shrinks_dceSweep : Shrinks func func.dceSweep.1 :=
  List.foldlRecOn (motive := fun s => Shrinks func s.1) func.positionsBackwards dceVisit
    (.refl func) fun s hs pos _ => hs.trans (shrinks_dceVisit s pos)

/-- Every call but the creation of a block or a value only removes ids. -/
theorem shrinks_of_returns {call : FirCall} (h : call.Returns func t) (hblock : call ≠ .blockCreate)
    (hvalue : ∀ b op type operands, call ≠ .valueCreate b op type operands) : Shrinks func t := by
  cases call with
  | blockCreate => exact absurd rfl hblock
  | valueCreate b op type operands => exact absurd rfl (hvalue b op type operands)
  | fill pos payload phi =>
    cases h
    exact shrinks_modifyAt fun _ => rfl
  | constantFold =>
    exact RoundsTo.invariant (I := Shrinks func) h
      (fun _ _ _ hs ht => hs.trans (shrinks_foldSweep ht)) (.refl func)
  | deadCodeElim =>
    refine RoundsTo.invariant (I := Shrinks func) h (fun s t c hs ht => ?_) (.refl func)
    have hst : Shrinks s s.dceSweep.1 := shrinks_dceSweep
    rw [Except.ok.inj ht] at hst
    exact hs.trans hst

/-! ## What shrinking preserves -/

theorem Shrinks.valueIds (h : Shrinks func t) :
    (t.values.map FirValue.id).Sublist (func.values.map FirValue.id) := by
  have hlist {l m : List FirBlock} (h : List.Forall₂ BlockShrinks l m) :
      ((m.flatMap FirBlock.values).map FirValue.id).Sublist
        ((l.flatMap FirBlock.values).map FirValue.id) := by
    induction h with
    | nil => exact List.Sublist.refl _
    | cons hab _ ih =>
      rw [List.flatMap_cons, List.flatMap_cons, List.map_append, List.map_append]
      exact hab.2.append ih
  exact hlist h.blocks

theorem Shrinks.singleDefinitions (h : Shrinks func t) (hf : func.SingleDefinitions) :
    t.SingleDefinitions := by
  unfold SingleDefinitions paramIds
  rw [h.numParams]
  exact hf.sublist ((List.Sublist.refl _).append h.valueIds)

theorem Shrinks.exists_block {block' : FirBlock} (h : Shrinks func t) (hb : t.blocks[b]? = some block') :
    ∃ block, func.blocks[b]? = some block ∧ BlockShrinks block block' := by
  obtain ⟨hlen, hall⟩ := List.forall₂_iff_get.1 h.blocks
  obtain ⟨hlt, rfl⟩ := List.getElem?_eq_some_iff.1 hb
  exact ⟨func.blocks[b], List.getElem?_eq_getElem (by omega), hall b (by omega) hlt⟩

theorem Shrinks.numbered (h : Shrinks func t) (hf : func.Numbered) : t.Numbered where
  numParams := by rw [h.numParams]; exact hf.numParams
  numBlocks := by rw [← h.blocks.length_eq]; exact hf.numBlocks
  blockId b block' hb := by
    obtain ⟨block, hblock, hshrink⟩ := h.exists_block hb
    rw [hshrink.1, hf.blockId b block hblock]
  numValues b block' hb := by
    obtain ⟨block, hblock, hshrink⟩ := h.exists_block hb
    have := hshrink.2.length_le
    rw [List.length_map, List.length_map] at this
    exact Nat.le_trans this (hf.numValues b block hblock)
  valueId b block' hb val hval := by
    obtain ⟨block, hblock, hshrink⟩ := h.exists_block hb
    obtain ⟨w, hw, hid⟩ := List.mem_map.1 (hshrink.2.subset (List.mem_map_of_mem hval))
    rw [← hid]
    exact hf.valueId b block hblock w hw

/-! ## Creating blocks and values -/

theorem mem_paramIds (hn : func.numParams ≤ 16) {id : UInt32} :
    id ∈ func.paramIds ↔ (id.toNat : Int) < func.numParams := by
  unfold paramIds
  rw [List.mem_map]
  constructor
  · rintro ⟨i, hi, rfl⟩
    have hi := List.mem_range.1 hi
    rw [UInt32.toNat_ofNat_of_lt' (by simp only [UInt32.size]; omega)]
    omega
  · intro hid
    exact ⟨id.toNat, List.mem_range.2 (by omega), UInt32.ofNat_toNat⟩

theorem nodup_paramIds (hn : func.numParams ≤ 16) : func.paramIds.Nodup := by
  refine List.Nodup.map_on (fun i hi j hj hij => ?_) List.nodup_range
  have hi := List.mem_range.1 hi
  have hj := List.mem_range.1 hj
  have := congrArg UInt32.toNat hij
  rwa [UInt32.toNat_ofNat_of_lt' (by simp only [UInt32.size]; omega),
    UInt32.toNat_ofNat_of_lt' (by simp only [UInt32.size]; omega)] at this

theorem of_firFuncCreate {mod mod' : FirModule} {ret : FirType} {n : Int} {types : List FirType}
    (h : firFuncCreate mod ret n types = some (func, mod')) :
    func.Numbered ∧ func.SingleDefinitions := by
  unfold firFuncCreate at h
  by_cases hfull : mod.funcs.length ≥ firMaxFuncs
  · rw [if_pos hfull] at h
    cases h
  rw [if_neg hfull] at h
  cases h
  have hn : (if n > 16 then 16 else n) ≤ 16 := by
    split_ifs <;> omega
  refine ⟨⟨hn, Nat.zero_le _, ?_, ?_, ?_⟩, ?_⟩
  · exact fun b block hb => nomatch hb
  · exact fun b block hb => nomatch hb
  · exact fun b block hb => nomatch hb
  · unfold SingleDefinitions
    rw [show FirFunc.values _ = [] from rfl, List.map_nil, List.append_nil]
    exact nodup_paramIds hn

theorem Numbered.blockCreate (h : func.Numbered) : (firBlockCreate func).1.Numbered := by
  by_cases hfull : func.blocks.length ≥ firMaxBlocks
  · simp only [firBlockCreate, if_pos hfull]
    exact h
  · simp only [firBlockCreate, if_neg hfull]
    have hnew {b : Nat} {block : FirBlock} {new : FirBlock}
        (hb : (func.blocks ++ [new])[b]? = some block) :
        func.blocks[b]? = some block ∨ b = func.blocks.length ∧ block = new := by
      rw [List.getElem?_append] at hb
      split_ifs at hb with hlt
      · exact .inl hb
      · obtain ⟨hlt', hget⟩ := List.getElem?_eq_some_iff.1 hb
        rw [List.length_singleton] at hlt'
        exact .inr ⟨by omega, by rw [← hget]; simp⟩
    refine ⟨h.numParams, ?_, fun b block hb => ?_, fun b block hb => ?_, fun b block hb => ?_⟩
    · rw [List.length_append, List.length_singleton]
      omega
    · rcases hnew hb with hb | ⟨rfl, rfl⟩
      · exact h.blockId b block hb
      · rfl
    · rcases hnew hb with hb | ⟨rfl, rfl⟩
      · exact h.numValues b block hb
      · exact Nat.zero_le _
    · rcases hnew hb with hb | ⟨rfl, rfl⟩
      · exact h.valueId b block hb
      · exact fun val hval => nomatch hval

theorem SingleDefinitions.blockCreate (h : func.SingleDefinitions) :
    (firBlockCreate func).1.SingleDefinitions := by
  by_cases hfull : func.blocks.length ≥ firMaxBlocks
  · simp only [firBlockCreate, if_pos hfull]
    exact h
  · simp only [firBlockCreate, if_neg hfull]
    unfold SingleDefinitions paramIds values at *
    simpa using h

/-- The id of a new value counts on from the start of the block's range. -/
theorem Numbered.toNat_nextId (h : func.Numbered) (hb : func.blocks[b]? = some block)
    (hlen : block.values.length < firMaxValues) :
    block.nextId.toNat = b * firMaxValues + block.values.length := by
  have hlt := (List.getElem?_eq_some_iff.1 hb).1
  have hmax := h.numBlocks
  unfold FirBlock.nextId
  rw [h.blockId b block hb, UInt32.toNat_add, UInt32.toNat_mul, UInt32.toNat_ofNat', UInt32.toNat_ofNat',
    UInt32.toNat_ofNat']
  simp only [firMaxValues, firMaxBlocks] at *
  omega

/-- The values after one more value is put at the end of a block. -/
theorem values_set_perm {block' : FirBlock} {val : FirValue} (hb : func.blocks[b]? = some block)
    (hvals : block'.values = block.values ++ [val]) :
    ((func.blocks.set b block').flatMap FirBlock.values).Perm (val :: func.values) := by
  obtain ⟨hlt, hget⟩ := List.getElem?_eq_some_iff.1 hb
  have hsplit : func.blocks = func.blocks.take b ++ block :: func.blocks.drop (b + 1) := by
    rw [← hget, ← List.drop_eq_getElem_cons hlt, List.take_append_drop]
  rw [List.set_eq_take_append_cons_drop, if_pos hlt]
  unfold values
  conv_rhs => rw [hsplit]
  simp only [List.flatMap_append, List.flatMap_cons, hvals, List.append_assoc, List.singleton_append]
  rw [← List.append_assoc, ← List.append_assoc]
  exact List.perm_middle

/-- `fir_value_create` does nothing, or appends a value with the next id to the block. -/
theorem firValueCreate_cases (func : FirFunc) (b : Nat) (op : FirOp) (type : FirType)
    (operands : List UInt32) :
    ((firValueCreate func b op type operands).1 = func ∧
      ∀ block, func.blocks[b]? = some block → firMaxValues ≤ block.values.length) ∨
    ∃ block block' val, func.blocks[b]? = some block ∧ block.values.length < firMaxValues ∧
      (firValueCreate func b op type operands).1 = { func with blocks := func.blocks.set b block' } ∧
      block'.id = block.id ∧ block'.values = block.values ++ [val] ∧ val.id = block.nextId := by
  cases hb : func.blocks[b]? with
  | none =>
    left
    simp [firValueCreate, hb]
  | some block =>
    by_cases hlen : block.values.length ≥ firMaxValues
    · left
      refine ⟨?_, fun block' h => Option.some.inj h ▸ hlen⟩
      obtain ⟨hlt, rfl⟩ := List.getElem?_eq_some_iff.1 hb
      simp [firValueCreate, hb, FirBlock.valueCreate, hlen]
    · right
      refine ⟨block, (block.valueCreate op type operands).1,
        { id := block.nextId, type, op, operands := operands.take firMaxOperands, payload := 0,
          phi := [] }, rfl, by omega, ?_, ?_, ?_, rfl⟩
      · simp [firValueCreate, hb]
      · simp only [FirBlock.valueCreate, if_neg hlen]
        split_ifs <;> rfl
      · simp only [FirBlock.valueCreate, if_neg hlen]
        split_ifs <;> rfl

theorem Numbered.valueCreate (h : func.Numbered) {op : FirOp} {type : FirType}
    {operands : List UInt32} : (firValueCreate func b op type operands).1.Numbered := by
  rcases firValueCreate_cases func b op type operands with
    ⟨heq, -⟩ | ⟨block, block', val, hb, hlen, heq, hid, hvals, hval⟩
  · rw [heq]
    exact h
  · rw [heq]
    have hset {c : Nat} {new : FirBlock} (hc : (func.blocks.set b block')[c]? = some new) :
        c = b ∧ new = block' ∨ func.blocks[c]? = some new := by
      rw [List.getElem?_set] at hc
      split_ifs at hc with hcb hlt
      · exact .inl ⟨hcb.symm, (Option.some.inj hc).symm⟩
      · exact .inr hc
    refine ⟨h.numParams, ?_, fun c new hc => ?_, fun c new hc => ?_, fun c new hc => ?_⟩
    · rw [List.length_set]
      exact h.numBlocks
    · rcases hset hc with ⟨rfl, rfl⟩ | hc
      · rw [hid, h.blockId c block hb]
      · exact h.blockId c new hc
    · rcases hset hc with ⟨rfl, rfl⟩ | hc
      · rw [hvals, List.length_append, List.length_singleton]
        omega
      · exact h.numValues c new hc
    · rcases hset hc with ⟨rfl, rfl⟩ | hc
      · intro w hw
        rw [hvals, List.mem_append, List.mem_singleton] at hw
        rcases hw with hw | rfl
        · exact h.valueId c block hb w hw
        · rw [hval, h.toNat_nextId hb hlen]
          simp only [firMaxValues] at *
          omega
      · exact h.valueId c new hc

/-- Creating a value keeps definitions single exactly when its id is fresh. -/
theorem singleDefinitions_valueCreate (h : func.Numbered) (hs : func.SingleDefinitions) {op : FirOp}
    {type : FirType} {operands : List UInt32} :
    (firValueCreate func b op type operands).1.SingleDefinitions ↔
      func.CreatesFresh (.valueCreate b op type operands) := by
  rcases firValueCreate_cases func b op type operands with
    ⟨heq, hfull⟩ | ⟨block, block', val, hb, hlen, heq, -, hvals, hval⟩
  · rw [heq]
    refine iff_of_true hs fun block hblock hlen => ?_
    have := hfull block hblock
    omega
  · have hperm : (func.paramIds ++
        ((func.blocks.set b block').flatMap FirBlock.values).map FirValue.id).Perm
          (block.nextId :: (func.paramIds ++ func.values.map FirValue.id)) := by
      refine ((((values_set_perm hb hvals).map FirValue.id).append_left func.paramIds)).trans ?_
      rw [List.map_cons, hval]
      exact List.perm_middle
    have hiff : (firValueCreate func b op type operands).1.SingleDefinitions ↔
        block.nextId ∉ func.paramIds ++ func.values.map FirValue.id := by
      rw [heq]
      exact hperm.nodup_iff.trans (List.nodup_cons.trans (and_iff_left hs))
    rw [hiff, List.mem_append, not_or, mem_paramIds h.numParams]
    -- a value with the id of the new one is in the same block
    have hmem : block.nextId ∈ func.values.map FirValue.id ↔
        ∃ val ∈ block.values, val.id = block.nextId := by
      rw [List.mem_map]
      constructor
      · rintro ⟨w, hw, hid⟩
        obtain ⟨block₂, hblock₂, hw⟩ := List.mem_flatMap.1 hw
        obtain ⟨c, hc⟩ := List.mem_iff_getElem?.1 hblock₂
        have hrange := h.valueId c block₂ hc w hw
        rw [hid, h.toNat_nextId hb hlen] at hrange
        obtain rfl : b = c := by
          simp only [firMaxValues] at *
          omega
        obtain rfl := Option.some.inj (hb.symm.trans hc)
        exact ⟨w, hw, hid⟩
      · rintro ⟨w, hw, hid⟩
        exact ⟨w, List.mem_flatMap.2 ⟨block, List.mem_of_getElem? hb, hw⟩, hid⟩
    rw [hmem]
    constructor
    · rintro ⟨hparams, hvalues⟩ block₂ hb₂ -
      obtain rfl := Option.some.inj (hb.symm.trans hb₂)
      exact ⟨by omega, fun val hv heq => hvalues ⟨val, hv, heq⟩⟩
    · intro hfresh
      obtain ⟨hparams, hvalues⟩ := hfresh block hb hlen
      exact ⟨by omega, fun ⟨val, hv, heq⟩ => hvalues val hv heq⟩

theorem Numbered.returns (h : func.Numbered) {call : FirCall} (hcall : call.Returns func t) :
    t.Numbered := by
  cases call with
  | blockCreate =>
    cases hcall
    exact h.blockCreate
  | valueCreate b op type operands =>
    cases hcall
    exact h.valueCreate
  | fill | constantFold | deadCodeElim =>
    exact (shrinks_of_returns hcall (by simp) (by simp)).numbered h

/-- A call keeps definitions single exactly when the value it creates, if any, is fresh. -/
theorem singleDefinitions_returns (h : func.Numbered) (hs : func.SingleDefinitions) {call : FirCall}
    (hcall : call.Returns func t) : t.SingleDefinitions ↔ func.CreatesFresh call := by
  cases call with
  | blockCreate =>
    cases hcall
    exact iff_of_true hs.blockCreate trivial
  | valueCreate b op type operands =>
    cases hcall
    exact singleDefinitions_valueCreate h hs
  | fill | constantFold | deadCodeElim =>
    exact iff_of_true ((shrinks_of_returns hcall (by simp) (by simp)).singleDefinitions hs) trivial

/-! ## Runs of calls -/

theorem singleDefinitions_run {run : List (FirCall × FirFunc)} (hrun : CallsReturn func run)
    (h : func.Numbered) (hs : func.SingleDefinitions) :
    (∀ p ∈ run, p.2.SingleDefinitions) ↔ CallsGuarded CreatesFresh func run := by
  induction hrun with
  | nil => exact iff_of_true (fun p hp => nomatch hp) trivial
  | @cons func t call run hcall _ ih =>
    rw [List.forall_mem_cons, CallsGuarded, ← singleDefinitions_returns h hs hcall]
    exact and_congr_right fun ht => ih (h.returns hcall) ht

/-- Along a run of calls on a new function every id names one definition exactly when each value is
created with a fresh id. -/
theorem singleDefinitions_iff {mod mod' : FirModule} {ret : FirType} {n : Int} {types : List FirType}
    {run : List (FirCall × FirFunc)}
    (hcreate : firFuncCreate mod ret n types = some (func, mod')) (hrun : CallsReturn func run) :
    (func.SingleDefinitions ∧ ∀ p ∈ run, p.2.SingleDefinitions) ↔
      CallsGuarded CreatesFresh func run := by
  obtain ⟨hnum, hs⟩ := of_firFuncCreate hcreate
  rw [and_iff_right hs]
  exact singleDefinitions_run hrun hnum hs

/-- A new function with `n` parameters. -/
def newFunc (n : Int) : FirFunc := {
  returnType := .I64
  paramTypes := [.I64].take n.toNat
  numParams := n
  entryBlock := 0
  blocks := []
  isAgent := false
  isCompiled := false
  nextValueId := UInt32.ofInt n }

/-- Create a block, and in it the negation of value 0. -/
def negRun (func : FirFunc) : List (FirCall × FirFunc) :=
  let func₁ := (firBlockCreate func).1
  [(.blockCreate, func₁),
    (.valueCreate 0 .NEG .I64 [0], (firValueCreate func₁ 0 .NEG .I64 [0]).1)]

theorem negRun_returns (func : FirFunc) : CallsReturn func (negRun func) :=
  .cons rfl (.cons rfl (.nil _))

/-- The first value of a function with a parameter has the id of the parameter. -/
theorem parameter_redefined :
    firFuncCreate ⟨[]⟩ .I64 1 [.I64] = some (newFunc 1, ⟨[newFunc 1]⟩) ∧
      CallsReturn (newFunc 1) (negRun (newFunc 1)) ∧
      ¬ ∀ p ∈ negRun (newFunc 1), p.2.SingleDefinitions := by
  refine ⟨rfl, negRun_returns _, fun h => ?_⟩
  have := h _ (List.mem_cons_of_mem _ List.mem_cons_self)
  revert this
  unfold SingleDefinitions
  decide

/-- Without parameters it is the first definition of its id. -/
theorem singleDefinitions_negRun :
    (newFunc 0).SingleDefinitions ∧ ∀ p ∈ negRun (newFunc 0), p.2.SingleDefinitions := by
  have hcreate : firFuncCreate ⟨[]⟩ .I64 0 [.I64] = some (newFunc 0, ⟨[newFunc 0]⟩) := rfl
  refine (singleDefinitions_iff hcreate (negRun_returns _)).2 ⟨trivial, fun block hb _ => ?_, trivial⟩
  cases hb
  decide

end FirFunc

end FluxOs
