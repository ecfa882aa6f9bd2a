import FluxOs.Fir.Equations
import FluxOs.Fir.Termination

/-!
# Constant folding and the meaning of a function

In the middle of folding, a value is the constant that it evaluates to, or has operands and sources that folding may
replace the first ones by.  Where no block id of a branch is taken for the id of a replaced value, control
goes as before, and a run of the folded function goes through the same states.
-/

namespace FluxOs

open Availability FlowGraph Relation

/-- A source of a PHI whose id has been replaced. -/
structure SourceRewritten (func : FirFunc) (src src' : PhiSource) : Prop where
  block : src'.blockId = src.blockId
  id : func.Reduces src.srcId src'.srcId

/-- `w` is what folding has made of the value `val`. -/
structure FirValue.Rewritten (func : FirFunc) (val w : FirValue) : Prop where
  id : w.id = val.id
  type : w.type = val.type
  phi : List.Forall₂ (SourceRewritten func) val.phi w.phi
  op : w.op = .CONST ∧ func.EvalsTo val.id w.ival ∨
    w.op = val.op ∧ w.payload = val.payload ∧ List.Forall₂ func.Reduces val.operands w.operands

/-- `block'` is what folding has made of the block. -/
structure FirBlock.Rewritten (func : FirFunc) (block block' : FirBlock) : Prop where
  same : block' = { block with values := block'.values }
  values : List.Forall₂ (FirValue.Rewritten func) block.values block'.values

/-! ## Related lists -/

section

variable {α β : Type} {R : α → β → Prop} {l : List α} {l' : List β} {i : Nat} {a : α}

theorem exists_of_forall₂ (h : List.Forall₂ R l l') (ha : l[i]? = some a) : ∃ b, l'[i]? = some b ∧ R a b := by
  induction h generalizing i with
  | nil => cases ha
  | @cons c b l l' hcb _ ih =>
    cases i with
    | zero =>
      obtain rfl : c = a := by simpa using ha
      exact ⟨b, rfl, hcb⟩
    | succ i => exact ih (by simpa using ha)

/-- The second list may be modified where the elements stay related. -/
theorem forall₂_modify_right {f : β → β} (h : List.Forall₂ R l l')
    (hf : ∀ a b, l[i]? = some a → l'[i]? = some b → R a b → R a (f b)) : List.Forall₂ R l (l'.modify i f) := by
  induction h generalizing i with
  | nil =>
    rw [List.modify_nil]
    exact .nil
  | @cons a b l l' hab htail ih =>
    cases i with
    | zero => exact .cons (hf a b rfl rfl hab) htail
    | succ i => exact .cons hab (ih fun c d hc hd => hf c d hc hd)

theorem map_eq_of_forall₂ {γ : Type} {f : α → γ} {g : β → γ} (h : List.Forall₂ R l l')
    (hfg : ∀ a ∈ l, ∀ b, R a b → g b = f a) : l'.map g = l.map f := by
  induction h with
  | nil => rfl
  | @cons a b l l' hab _ ih =>
    rw [List.map_cons, List.map_cons, hfg a List.mem_cons_self b hab,
      ih fun a ha => hfg a (List.mem_cons_of_mem _ ha)]

end

namespace FirFunc

/-- `s` is what folding has made of the function. -/
structure Folded (func s : FirFunc) : Prop where
  same : s = { func with blocks := s.blocks }
  blocks : List.Forall₂ (FirBlock.Rewritten func) func.blocks s.blocks

variable {func s t : FirFunc} {val w : FirValue} {p q pos : Nat × Nat} {x y z : UInt32} {n : Int64}

/-! ## Values that are rewritten -/

theorem rewritten_refl (func : FirFunc) (val : FirValue) : val.Rewritten func val := by
  refine ⟨rfl, rfl, ?_, .inr ⟨rfl, rfl, ?_⟩⟩
  · exact List.forall₂_same.2 fun src _ => ⟨rfl, ReflTransGen.refl⟩
  · exact List.forall₂_same.2 fun x _ => ReflTransGen.refl

theorem Folded.refl (func : FirFunc) : func.Folded func :=
  ⟨rfl, List.forall₂_same.2 fun _ _ => ⟨rfl, List.forall₂_same.2 fun val _ => rewritten_refl func val⟩⟩

theorem Folded.block {b : Nat} {block : FirBlock} (h : func.Folded s) (hb : func.blocks[b]? = some block) :
    ∃ block', s.blocks[b]? = some block' ∧ block.Rewritten func block' := exists_of_forall₂ h.blocks hb

theorem Folded.value (h : func.Folded s) (hval : func.valueAt? p = some val) :
    ∃ w, s.valueAt? p = some w ∧ val.Rewritten func w := by
  obtain ⟨block, hb, hv⟩ := Option.bind_eq_some_iff.1 hval
  obtain ⟨block', hb', hblock⟩ := h.block hb
  obtain ⟨w, hw, hrewritten⟩ := exists_of_forall₂ hblock.values hv
  exact ⟨w, Option.bind_eq_some_iff.2 ⟨block', hb', hw⟩, hrewritten⟩

theorem Folded.value_of (h : func.Folded s) (hw : s.valueAt? p = some w) :
    ∃ val, func.valueAt? p = some val ∧ val.Rewritten func w := by
  obtain ⟨block', hb', hw'⟩ := Option.bind_eq_some_iff.1 hw
  obtain ⟨block, hb, hblock⟩ := exists_of_forall₂ h.blocks.flip hb'
  obtain ⟨val, hval, hrewritten⟩ := exists_of_forall₂ hblock.values.flip hw'
  exact ⟨val, Option.bind_eq_some_iff.2 ⟨block, hb, hval⟩, hrewritten⟩

/-- A value that has become a constant is one or computes it. -/
theorem op_cases (hid : func.DistinctIds) (hval : val ∈ func.values) (h : val.Rewritten func w) :
    w.op = .CONST ∧ (val.op = .CONST ∧ val.ival = w.ival ∨ val.Folds func.EvalsTo w.ival) ∨
      w.op = val.op ∧ w.payload = val.payload ∧ List.Forall₂ func.Reduces val.operands w.operands :=
  h.op.imp_left fun ⟨hop, hn⟩ => ⟨hop, EvalsTo.cases hid hval hn⟩

/-! ## A rule keeps the relation -/

theorem Folded.tracks (hid : func.DistinctIds) (h : func.Folded s) : Tracks func s := by
  intro p
  cases hval : func.valueAt? p with
  | none =>
    cases hw : s.valueAt? p with
    | none => exact .none
    | some w =>
      obtain ⟨val, hval', -⟩ := h.value_of hw
      rw [hval] at hval'
      cases hval'
  | some val =>
    obtain ⟨w, hw, hrewritten⟩ := h.value hval
    rw [hw]
    refine .some ⟨hrewritten.id, hrewritten.op.imp_right fun ⟨hop, hpayload, hops⟩ => ⟨hop, hpayload, ?_⟩⟩
    exact hops.imp fun x y hxy => hxy.below hid

theorem Folded.folds (hid : func.DistinctIds) (h : func.Folded s) (hval : func.valueAt? p = some val)
    (hw : s.valueAt? p = some w) (hn : w.Folds s.Consts n) : func.EvalsTo val.id n := by
  obtain ⟨val', hval', htracked⟩ := (h.tracks hid).of_some hw
  obtain rfl := Option.some.inj (hval.symm.trans hval')
  exact .folds (mem_values_iff.2 ⟨p, hval⟩) ((h.tracks hid).folds htracked hn)

/-- A value that equals its operand in the middle of folding may be replaced by it. -/
theorem Folded.equalsOperand (hid : func.DistinctIds) (h : func.Folded s) (hval : func.valueAt? p = some val)
    (hrewritten : val.Rewritten func w) (heq : w.EqualsOperand s.Consts z) (hapart : ¬ func.IsTarget w.id) :
    func.Reduces w.id z := by
  rcases hrewritten.op with ⟨hop, -⟩ | ⟨hop, -, hops⟩
  · exact absurd hop heq.op_ne_const
  · obtain ⟨z0, hz0, heq0⟩ := heq.congr (R := fun y x => func.Reduces x y) hop.symm hops.flip
      fun x y a hxy ha => (Reduces.below hid hxy).backward a ((h.tracks hid).consts ha)
    exact ReflTransGen.head ⟨hapart, val, mem_values_iff.2 ⟨p, hval⟩, hrewritten.id.symm, heq0⟩ hz0

theorem reduces_replace (hxy : func.Reduces x y) {id : UInt32} (hz : func.Reduces id z) :
    func.Reduces x (if y = id then z else y) := by
  by_cases hy : y = id
  · rw [if_pos hy]
    subst hy
    exact hxy.trans hz
  · rw [if_neg hy]
    exact hxy

/-- Replacing the uses of a value keeps what is rewritten. -/
theorem rewritten_replaceIn {id : UInt32} (hz : func.Reduces id z) (h : val.Rewritten func w) :
    val.Rewritten func (replaceIn id z w) := by
  refine ⟨h.id, h.type, ?_, h.op.imp_right fun ⟨hop, hpayload, hops⟩ => ⟨hop, hpayload, ?_⟩⟩
  · exact List.forall₂_map_right_iff.2 (h.phi.imp fun src src' hsrc => ⟨hsrc.block, reduces_replace hsrc.id hz⟩)
  · exact List.forall₂_map_right_iff.2 (hops.imp fun x y hxy => reduces_replace hxy hz)

theorem rewritten_toConst (h : val.Rewritten func w) (hn : func.EvalsTo val.id n) :
    val.Rewritten func (w.toConst n) :=
  ⟨h.id, h.type, h.phi, .inl ⟨rfl, by simpa [FirValue.toConst, FirValue.ival] using hn⟩⟩

theorem Folded.rewrite {r : Rewriting} (hid : func.DistinctIds) (h : func.Folded s) (hw : s.valueAt? pos = some w)
    (hr : Fires s w r) (hapart : ∀ z, r = .replace z → ¬ func.IsTarget w.id) :
    func.Folded (s.rewrite pos w r) := by
  obtain ⟨val, hval, hrewritten⟩ := h.value_of hw
  cases r with
  | constant n =>
    have hn := h.folds hid hval hw hr
    refine ⟨by rw [h.same]; rfl, forall₂_modify_right h.blocks fun block block' hb hb' hblock => ?_⟩
    refine ⟨by rw [hblock.same], forall₂_modify_right hblock.values fun v v' hv hv' hvv' => ?_⟩
    obtain rfl : v = val := by
      have : func.valueAt? pos = some v := Option.bind_eq_some_iff.2 ⟨block, hb, hv⟩
      exact Option.some.inj (this.symm.trans hval)
    exact rewritten_toConst hvv' hn
  | replace z =>
    have hz := h.equalsOperand hid hval hrewritten hr (hapart z rfl)
    refine ⟨by rw [h.same]; rfl, List.forall₂_map_right_iff.2 (h.blocks.imp fun block block' hblock => ?_)⟩
    refine ⟨by rw [hblock.same], List.forall₂_map_right_iff.2 (hblock.values.imp fun v v' hvv' => ?_)⟩
    exact rewritten_replaceIn hz hvv'

/-- Trying the rule on the value at the position replaces the uses of the id. -/
def ReplacesAt (s : FirFunc) (pos : Nat × Nat) (rule : FoldRule) (id : UInt32) : Prop :=
  ∃ w z, s.valueAt? pos = some w ∧ rule s w = .ok (some (.replace z)) ∧ w.id = id

theorem Folded.tryRule {rule : FoldRule} {c c' : Bool} (hid : func.DistinctIds) (h : func.Folded s)
    (hrule : rule ∈ foldRules) (hapart : ∀ id, s.ReplacesAt pos rule id → ¬ func.IsTarget id)
    (ht : FirFunc.tryRule pos (s, c) rule = .ok (t, c')) : func.Folded t := by
  rcases tryRule_cases ht with ⟨heq, -⟩ | ⟨w, r, hw, hr, heq⟩
  · cases heq
    exact h
  · cases heq
    refine h.rewrite hid hw ((sound_of_mem_foldRules hrule).fires hr) ?_
    rintro z rfl
    exact hapart w.id ⟨w, z, hw, hr, rfl⟩

/-- The sweep over the function replaces the uses of the id. -/
def Replaces (s : FirFunc) (id : UInt32) : Prop :=
  ∃ u p, Faulting.Visits (fun s (p : (Nat × Nat) × FoldRule) => FirFunc.tryRule p.1 s p.2) s.trials (s, false) u p ∧
    u.1.ReplacesAt p.1 p.2 id

/-- A sweep that does not replace the id of a target keeps the relation. -/
theorem Folded.foldSweep {c : Bool} (hid : func.DistinctIds) (h : func.Folded s)
    (hapart : ∀ id, s.Replaces id → ¬ func.IsTarget id) (ht : s.foldSweep = .ok (t, c)) : func.Folded t := by
  refine Faulting.sweep_visits_invariant (I := fun s => func.Folded s.1) (fun u p v hvisits hu hv => ?_) h
    (foldSweep_eq_trials.symm.trans ht)
  refine Folded.tryRule hid hu (mem_trials.1 hvisits.mem).2 (fun id hreplaces => ?_) hv
  exact hapart id ⟨u, p, hvisits, hreplaces⟩

/-! ## Control goes as before -/

theorem isTerminator_of_rewritten (hid : func.DistinctIds) (hval : val ∈ func.values) (h : val.Rewritten func w) :
    firIsTerminator w.op = firIsTerminator val.op := by
  rcases op_cases hid hval h with ⟨hop, hconst | hfolds⟩ | ⟨hop, -⟩
  · rw [hop, hconst.1]
  · rw [hop]
    have hcomputes := hfolds.computes
    revert hcomputes
    cases val.op
    all_goals decide
  · rw [hop]

/-- A terminator has the operation that it had. -/
theorem op_of_terminator (hid : func.DistinctIds) (hval : val ∈ func.values) (h : val.Rewritten func w)
    (hterm : firIsTerminator val.op = true) :
    w.op = val.op ∧ w.payload = val.payload ∧ List.Forall₂ func.Reduces val.operands w.operands := by
  rcases op_cases hid hval h with ⟨hop, -⟩ | hsame
  · have := isTerminator_of_rewritten hid hval h
    rw [hop, hterm] at this
    cases this
  · exact hsame

/-- The block id of a branch is not replaced. -/
theorem Reduces.eq_of_target (hval : val ∈ func.values) (hop : val.op = .BRANCH)
    (hx : some x ∈ val.targets) (h : func.Reduces x y) : y = x := by
  rcases h.cases_head with heq | ⟨z, ⟨hapart, -⟩, -⟩
  · exact heq.symm
  · exact absurd ⟨val, hval, hop, hx⟩ hapart

theorem targets_of_rewritten (hid : func.DistinctIds) (hval : val ∈ func.values)
    (h : val.Rewritten func w) (hterm : firIsTerminator val.op = true) : w.targets = val.targets := by
  obtain ⟨hop, hpayload, hops⟩ := op_of_terminator hid hval h hterm
  by_cases hjump : val.op = .JUMP
  · simp only [FirValue.targets, hop, hjump, FirValue.blockId, hpayload]
  by_cases hbranch : val.op = .BRANCH
  · have hkeep (x y : UInt32) (hx : some x ∈ val.targets) (hxy : func.Reduces x y) : y = x :=
      Reduces.eq_of_target hval hbranch hx hxy
    simp only [FirValue.targets, hop, hbranch] at hkeep ⊢
    have hget (i : Nat) (hi : val.operands[i]? ∈ [val.operands[1]?, val.operands[2]?]) :
        w.operands[i]? = val.operands[i]? := by
      cases hx : val.operands[i]? with
      | none =>
        rw [List.getElem?_eq_none_iff] at hx ⊢
        exact hops.length_eq ▸ hx
      | some x =>
        obtain ⟨y, hy, hxy⟩ := exists_of_forall₂ hops hx
        rw [hy, hkeep x y (hx ▸ hi) hxy]
    rw [hget 1 (by simp), hget 2 (by simp)]
  · unfold FirValue.targets
    rw [hop]
    split
    · exact absurd ‹_› hjump
    · exact absurd ‹_› hbranch
    · rfl

theorem Folded.blockIndex (h : func.Folded s) (id : UInt32) : s.blockIndex id = func.blockIndex id := by
  unfold FirFunc.blockIndex
  have hblocks := h.blocks
  generalize func.blocks = l, s.blocks = l' at hblocks
  induction hblocks with
  | nil => rfl
  | @cons block block' _ _ hblock _ ih =>
    rw [List.findIdx?_cons, List.findIdx?_cons, ih, hblock.same]

theorem Folded.graph (hid : func.DistinctIds) (h : func.Folded s) :
    s.graph = func.graph := by
  have hentry : s.entryBlock = func.entryBlock := by rw [h.same]
  have hedge (p q : Nat × Nat) : s.graph.edge p q ↔ func.graph.edge p q := by
    have hflow (val w : FirValue) (hval : func.valueAt? p = some val) (hrewritten : val.Rewritten func w) :
        (if firIsTerminator w.op then ∃ id, some id ∈ w.targets ∧ s.blockIndex id = some q.1 ∧ q.2 = 0
          else q = (p.1, p.2 + 1)) ↔
        if firIsTerminator val.op then ∃ id, some id ∈ val.targets ∧ func.blockIndex id = some q.1 ∧ q.2 = 0
          else q = (p.1, p.2 + 1) := by
      have hmem := mem_values_iff.2 ⟨p, hval⟩
      rw [isTerminator_of_rewritten hid hmem hrewritten]
      by_cases hterm : firIsTerminator val.op = true
      · simp only [hterm, if_true, targets_of_rewritten hid hmem hrewritten hterm, h.blockIndex]
      · rw [if_neg hterm, if_neg hterm]
    constructor
    · rintro ⟨w, hw, hgoes⟩
      obtain ⟨val, hval, hrewritten⟩ := h.value_of hw
      exact ⟨val, hval, (hflow val w hval hrewritten).1 hgoes⟩
    · rintro ⟨val, hval, hgoes⟩
      obtain ⟨w, hw, hrewritten⟩ := h.value hval
      exact ⟨w, hw, (hflow val w hval hrewritten).2 hgoes⟩
  have hdefines (p : Nat × Nat) (x : UInt32) : s.graph.defines p x ↔ func.graph.defines p x := by
    constructor
    · rintro ⟨w, hw, rfl⟩
      obtain ⟨val, hval, hrewritten⟩ := h.value_of hw
      exact ⟨val, hval, hrewritten.id.symm⟩
    · rintro ⟨val, hval, rfl⟩
      obtain ⟨w, hw, hrewritten⟩ := h.value hval
      exact ⟨w, hw, hrewritten.id⟩
  exact FlowGraph.ext (by rw [FirFunc.graph, FirFunc.graph, hentry])
    (funext fun p => funext fun q => propext (hedge p q)) (funext fun p => funext fun x => propext (hdefines p x))

/-! ## Values are executed as before -/

/-- The values at the entry of a block do not tell a source of its PHIs from what replaces it. -/
def EntryAgrees (func : FirFunc) (b : Nat) (pred : Option UInt32) (entry : SsaEnv) : Prop :=
  ∀ v val, func.valueAt? (b, v) = some val → val.op = .PHI →
    ∀ x, val.source pred = some x → ∀ y, func.Reduces x y → entry x = entry y

/-- The end of the block that control has come from, if there is one, with the values there. -/
def Arrives (func : FirFunc) (b : Nat) (pred : Option UInt32) (entry : SsaEnv) : Prop :=
  ∀ id, pred = some id → ∃ p block, func.blocks[p.1]? = some block ∧ block.id = id ∧
    func.graph.edge p (b, 0) ∧ func.Solved entry p

theorem Arrives.entryAgrees {b : Nat} {pred : Option UInt32} {entry : SsaEnv} (h : func.Arrives b pred entry)
    (hssa : func.SsaForm) (hid : func.DistinctIds) : func.EntryAgrees b pred entry := by
  intro v val hval hop x hx y hxy
  obtain ⟨id, hpred, hx⟩ := Option.bind_eq_some_iff.1 hx
  obtain ⟨src, hsrc, hx⟩ := Option.bind_eq_some_iff.1 hx
  obtain rfl : src.srcId = x := Option.some.inj hx
  obtain ⟨p, block, hblock, rfl, hedge, hs⟩ := h id hpred
  exact hxy.env_eq hs hssa hid (hssa.sources p (b, v) val block src hval hop hblock hedge hsrc)

theorem op_of_phi (h : val.Rewritten func w) (hop : w.op = .PHI) : val.op = .PHI := by
  rcases h.op with ⟨hconst, -⟩ | ⟨hsame, -⟩
  · rw [hop] at hconst
    cases hconst
  · exact hsame.symm.trans hop

/-- The source for a block is that of the first value, with its id replaced. -/
theorem find_of_rewritten (h : val.Rewritten func w) (id : UInt32) :
    Option.Rel (SourceRewritten func) (val.phi.find? fun src => src.blockId = id)
      (w.phi.find? fun src => src.blockId = id) := by
  have hphi := h.phi
  generalize val.phi = l, w.phi = l' at hphi
  induction hphi with
  | nil => exact .none
  | @cons src src' l l' hsrc _ ih =>
    rw [List.find?_cons, List.find?_cons, hsrc.block]
    by_cases hblock : src.blockId = id
    · simp only [hblock, decide_true]
      exact .some hsrc
    · simp only [hblock, decide_false]
      exact ih

theorem source_of_rewritten (h : val.Rewritten func w) (pred : Option UInt32) {entry : SsaEnv}
    (hentry : ∀ x, val.source pred = some x → ∀ y, func.Reduces x y → entry x = entry y) :
    (w.source pred).map entry = (val.source pred).map entry := by
  cases pred with
  | none => rfl
  | some id =>
    have hrel := find_of_rewritten h id
    simp only [FirValue.source, Option.bind_eq_bind, Option.bind_some] at hentry ⊢
    generalize (val.phi.find? fun src => src.blockId = id) = o,
      (w.phi.find? fun src => src.blockId = id) = o' at hrel hentry
    cases hrel with
    | none => rfl
    | some hsrc => exact congrArg some (hentry _ rfl _ hsrc.id).symm

variable {host : FirHost} {pred : Option UInt32} {entry env : SsaEnv} {st st' : SsaState}

/-- The operands of a value have the values that the first ones had. -/
theorem operands_env (hssa : func.SsaForm) (hid : func.DistinctIds) (hval : func.valueAt? p = some val)
    (hs : func.Solved env p) (huses : val.uses = val.operands)
    (hops : List.Forall₂ func.Reduces val.operands w.operands) :
    w.operands.map env = val.operands.map env :=
  map_eq_of_forall₂ hops fun x hx _ hxy =>
    (hxy.env_eq hs hssa hid (hssa.operands p val hval x (huses ▸ hx))).symm

theorem uses_eq_operands (hterm : firIsTerminator val.op = false) (hconst : val.op ≠ .CONST)
    (hphi : val.op ≠ .PHI) : val.uses = val.operands := by
  unfold FirValue.uses
  split
  · exact absurd ‹_› hconst
  · exact absurd ‹_› hphi
  · rw [‹val.op = .JUMP›] at hterm
    cases hterm
  · rw [‹val.op = .BRANCH›] at hterm
    cases hterm
  · rw [‹val.op = .RETURN›] at hterm
    cases hterm
  · rfl

theorem effects_of_computes (h : val.op.computes = true) : val.effects st = st.trace := by
  have hnone : val.op.effect? = none := by
    revert h
    cases val.op
    all_goals decide
  rw [FirValue.effects, hnone]
  rfl

/-- A value that folding has made a constant of computes that constant. -/
theorem exec_of_folds (hssa : func.SsaForm) (hid : func.DistinctIds) (hval : func.valueAt? p = some val)
    (hs : func.Solved st.env p) (hfolds : val.Folds func.EvalsTo n) :
    val.exec host pred entry st = some (st.assign val.id n) := by
  have hcomputes := hfolds.computes
  have hconst : val.op ≠ .CONST := hfolds.op_ne_const
  have hphi : val.op ≠ .PHI := by
    intro hop
    rw [hop] at hcomputes
    cases hcomputes
  have hresult : val.op.compute (val.operands.map st.env) = some n :=
    hfolds.compute fun x hx a ha => hs.evalsTo hssa hid
      (hssa.operands p val hval x (by rwa [FirValue.uses_of_computes hcomputes])) ha
  rw [FirValue.exec, FirValue.result, if_neg hconst, if_neg hphi, if_pos hcomputes, hresult,
    effects_of_computes hcomputes]
  rfl

theorem exec_of_const (hop : val.op = .CONST) :
    val.exec host pred entry st = some (st.assign val.id val.ival) := by
  rw [FirValue.exec, FirValue.result, if_pos hop, FirValue.effects, hop]
  rfl

theorem exec_of_rewritten (hssa : func.SsaForm) (hid : func.DistinctIds) (hval : func.valueAt? p = some val)
    (hs : func.Solved st.env p) (hterm : firIsTerminator val.op = false)
    (hentry : val.op = .PHI → ∀ x, val.source pred = some x → ∀ y, func.Reduces x y → entry x = entry y)
    (h : val.Rewritten func w) : w.exec host pred entry st = val.exec host pred entry st := by
  rcases op_cases hid (mem_values_iff.2 ⟨p, hval⟩) h with ⟨hw, ⟨hop, hn⟩ | hfolds⟩ | ⟨hop, hpayload, hops⟩
  · rw [exec_of_const hw, exec_of_const hop, h.id, hn]
  · rw [exec_of_const hw, exec_of_folds hssa hid hval hs hfolds, h.id]
  by_cases hconst : val.op = .CONST
  · rw [exec_of_const hconst, exec_of_const (hop.trans hconst), h.id, FirValue.ival, hpayload]
    rfl
  by_cases hphi : val.op = .PHI
  · have hnone : FirOp.effect? .PHI = none := rfl
    simp only [FirValue.exec, FirValue.result, FirValue.effects, hop, hphi, if_true, h.id,
      source_of_rewritten h pred (hentry hphi), hnone]
    rfl
  · have hargs := operands_env hssa hid hval hs (uses_eq_operands hterm hconst hphi) hops
    have hact : w.act st.env = val.act st.env := by
      rw [FirValue.act, FirValue.act, h.id, hop, h.type, hpayload, hargs]
    simp only [FirValue.exec, FirValue.result, FirValue.effects, hop, hargs, hact, h.id, if_neg hconst, if_neg hphi]

/-! ## Runs go through the same states -/

theorem edge_next (hval : func.valueAt? p = some val) (hterm : firIsTerminator val.op = false) :
    func.graph.edge p (p.1, p.2 + 1) := by
  refine ⟨val, hval, ?_⟩
  rw [hterm]
  rfl

/-- The values of a block end at the same terminator with the same state. -/
theorem runValues_of_rewritten (hssa : func.SsaForm) (hid : func.DistinctIds) {b v : Nat}
    {vals vals' : List FirValue} {term : FirValue} (hrel : List.Forall₂ (FirValue.Rewritten func) vals vals')
    (hvals : ∀ i, func.valueAt? (b, v + i) = vals[i]?) (hreach : func.graph.Reaches (b, v))
    (hs : func.Solved st.env (b, v)) (hentry : func.EntryAgrees b pred entry)
    (h : runValues host pred entry vals st = some (term, st')) :
    ∃ term' k, runValues host pred entry vals' st = some (term', st') ∧ func.valueAt? (b, k) = some term ∧
      firIsTerminator term.op = true ∧ term.Rewritten func term' ∧ func.graph.Reaches (b, k) ∧
      func.Solved st'.env (b, k) := by
  induction hrel generalizing v st with
  | nil => cases h
  | @cons val w vals vals' hrewritten _ ih =>
    have hval : func.valueAt? (b, v) = some val := hvals 0
    have hsame := isTerminator_of_rewritten hid (mem_values_iff.2 ⟨_, hval⟩) hrewritten
    rcases runValues_cons.1 h with ⟨hterm, rfl, rfl⟩ | ⟨hother, st₁, hexec, h⟩
    · exact ⟨w, v, runValues_cons.2 (.inl ⟨hsame.trans hterm, rfl, rfl⟩), hval, hterm, hrewritten, hreach, hs⟩
    · have hedge := edge_next hval hother
      obtain ⟨hagree, hnew⟩ := satisfies_of_exec hssa hid hreach hval hexec
      have hvals' (i : Nat) : func.valueAt? (b, v + 1 + i) = vals[i]? := by
        rw [Nat.add_assoc, Nat.add_comm 1]
        exact hvals (i + 1)
      obtain ⟨term', k, hrun, hrest⟩ :=
        ih hvals' (hreach.tail hedge) (hs.step hssa hid hreach hval hedge hagree hnew) h
      have hexec' := (exec_of_rewritten hssa hid hval hs hother (hentry v val hval) hrewritten).trans hexec
      exact ⟨term', k, runValues_cons.2 (.inr ⟨hsame.trans hother, st₁, hexec', hrun⟩), hrest⟩

theorem leave_of_rewritten (hssa : func.SsaForm) (hid : func.DistinctIds)
    (hval : func.valueAt? p = some val) (hs : func.Solved env p) (hterm : firIsTerminator val.op = true)
    (h : val.Rewritten func w) : w.leave env = val.leave env := by
  have hmem := mem_values_iff.2 ⟨p, hval⟩
  obtain ⟨hop, hpayload, hops⟩ := op_of_terminator hid hmem h hterm
  have hfirst (x y : UInt32) (hx : x ∈ val.uses) (hxy : func.Reduces x y) : env y = env x :=
    (hxy.env_eq hs hssa hid (hssa.operands p val hval x hx)).symm
  have hkeep (hbranch : val.op = .BRANCH) (x y : UInt32) (hx : some x ∈ val.targets) (hxy : func.Reduces x y) :
      y = x := Reduces.eq_of_target hmem hbranch hx hxy
  unfold FirValue.leave
  rw [hop]
  by_cases hjump : val.op = .JUMP
  · simp only [hjump, FirValue.blockId, hpayload]
  by_cases hret : val.op = .RETURN
  · simp only [FirValue.uses, hret] at hfirst
    simp only [hret]
    generalize val.operands = l, w.operands = l' at hops hfirst
    cases hops with
    | nil => rfl
    | @cons x y l l' hxy _ => simp [hfirst x y (by simp) hxy]
  have hbranch : val.op = .BRANCH := by
    revert hterm hjump hret
    cases val.op
    all_goals decide
  have hkeep := hkeep hbranch
  simp only [FirValue.uses, FirValue.targets, hbranch] at hfirst hkeep
  simp only [hbranch]
  generalize val.operands = l, w.operands = l' at hops hfirst hkeep
  rcases hops with _ | ⟨hcond, _ | ⟨ht, _ | ⟨hf, hrest⟩⟩⟩
  · rfl
  · rfl
  · rfl
  · show some (Exit.goto _) = some (Exit.goto _)
    rw [hfirst _ _ (by simp) hcond, hkeep _ _ (by simp) ht, hkeep _ _ (by simp) hf]

/-- Where control goes from a terminator. -/
theorem edge_of_leave {id : UInt32} {b : Nat} (hval : func.valueAt? p = some val)
    (hterm : firIsTerminator val.op = true) (hleave : val.leave env = some (.goto id))
    (hindex : func.blockIndex id = some b) : func.graph.edge p (b, 0) := by
  refine ⟨val, hval, ?_⟩
  rw [if_pos hterm]
  refine ⟨id, ?_, hindex, rfl⟩
  unfold FirValue.leave at hleave
  split at hleave
  · cases hleave
    simp only [FirValue.targets, ‹val.op = .JUMP›, List.mem_singleton]
  · cases hleave
    simp only [FirValue.targets, ‹val.op = .BRANCH›, ‹val.operands = _›]
    split_ifs
    · exact List.mem_cons_self
    · exact List.mem_cons_of_mem _ List.mem_cons_self
  · cases hleave
  · cases hleave

theorem runBlocks_of_folded (hssa : func.SsaForm) (hid : func.DistinctIds)
    (hfolded : func.Folded s) (m : Nat) {b : Nat} {behaviour : FirBehaviour} (hreach : func.graph.Reaches (b, 0))
    (hs : func.Solved st.env (b, 0)) (harrives : func.Arrives b pred st.env)
    (h : func.runBlocks host m pred b st = some behaviour) : s.runBlocks host m pred b st = some behaviour := by
  induction m generalizing b pred st behaviour with
  | zero => exact h
  | succ m ih =>
    obtain ⟨block, term, st', hblock, hvalues, hexit⟩ := runBlocks_succ.1 h
    obtain ⟨block', hblock', hrewritten⟩ := hfolded.block hblock
    have hposition (i : Nat) : func.valueAt? (b, 0 + i) = block.values[i]? := by
      rw [Nat.zero_add, valueAt?, hblock]
      rfl
    obtain ⟨term', k, hvalues', hterm, hends, hsame, hreach', hs'⟩ :=
      runValues_of_rewritten hssa hid hrewritten.values hposition hreach hs (harrives.entryAgrees hssa hid) hvalues
    have hleave := leave_of_rewritten hssa hid hterm hs' hends hsame
    refine runBlocks_succ.2 ⟨block', term', st', hblock', hvalues', ?_⟩
    rw [hleave]
    refine hexit.imp_right ?_
    rintro ⟨id, b', rest, hgoto, hindex, hrest, rfl⟩
    have hedge := edge_of_leave hterm hends hgoto hindex
    refine ⟨id, b', rest, hgoto, (hfolded.blockIndex id).trans hindex, ?_, rfl⟩
    rw [show block'.id = block.id by rw [hrewritten.same]]
    refine ih (hreach'.tail hedge) (hs'.step hssa hid hreach' hterm hedge (fun _ _ => rfl) ?_) ?_ hrest
    · exact satisfies_of_terminator hends
    · intro id hid
      exact ⟨(b, k), block, hblock, Option.some.inj hid, hedge, hs'⟩

/-! ## The meaning is kept -/

theorem exists_use_of_rewritten (hid : func.DistinctIds) (hval : val ∈ func.values) (h : val.Rewritten func w)
    (hy : y ∈ w.uses) : ∃ x ∈ val.uses, func.Reduces x y := by
  rcases op_cases hid hval h with ⟨hop, -⟩ | ⟨hop, -, hops⟩
  · simp only [FirValue.uses, hop, List.not_mem_nil] at hy
  · have huses : List.Forall₂ func.Reduces val.uses w.uses := by
      unfold FirValue.uses
      rw [hop]
      split
      · exact .nil
      · exact .nil
      · exact .nil
      · exact List.forall₂_take 1 hops
      · exact List.forall₂_take 1 hops
      · exact hops
    obtain ⟨i, hi⟩ := List.mem_iff_getElem?.1 hy
    obtain ⟨x, hx, hxy⟩ := exists_of_forall₂ huses.flip hi
    exact ⟨x, List.mem_of_getElem? hx, hxy⟩

theorem ssaForm_of_folded (hssa : func.SsaForm) (hid : func.DistinctIds)
    (hfolded : func.Folded s) : s.SsaForm := by
  have hgraph := hfolded.graph hid
  refine ⟨fun p w hw y hy => ?_, fun p q w block' src' hw hop hblock' hedge hsrc' => ?_⟩
  · rw [hgraph]
    obtain ⟨val, hval, hrewritten⟩ := hfolded.value_of hw
    obtain ⟨x, hx, hxy⟩ := exists_use_of_rewritten hid (mem_values_iff.2 ⟨p, hval⟩) hrewritten hy
    exact hxy.ready hssa hid (hssa.operands p val hval x hx)
  · rw [hgraph] at hedge ⊢
    obtain ⟨val, hval, hrewritten⟩ := hfolded.value_of hw
    obtain ⟨block, hblock, hsame⟩ := exists_of_forall₂ hfolded.blocks.flip hblock'
    have hop' : val.op = .PHI := op_of_phi hrewritten hop
    have hrel := find_of_rewritten hrewritten block'.id
    rw [hsrc', show block'.id = block.id by rw [hsame.same]] at hrel
    cases hsrc : val.phi.find? fun src => src.blockId = block.id with
    | none =>
      rw [hsrc] at hrel
      cases hrel
    | some src =>
      rw [hsrc] at hrel
      cases hrel with
      | some hrel => exact hrel.id.ready hssa hid (hssa.sources p q val block src hval hop' hblock hedge hsrc)

/-- What folding has made of a function has its meaning. -/
theorem Folded.keepsMeaning (hid : func.DistinctIds) (hfolded : func.Folded s) :
    func.KeepsMeaning s := by
  intro hssa
  refine ⟨ssaForm_of_folded hssa hid hfolded, fun host input n behaviour h => ?_⟩
  have hentry : s.entryBlock = func.entryBlock := by rw [hfolded.same]
  rw [run, hentry]
  refine runBlocks_of_folded hssa hid hfolded n ReflTransGen.refl solved_start (fun id hid => ?_) h
  cases hid

/-! ## Validation -/

theorem Folded.hasBlock (h : func.Folded s) (id : UInt32) : s.hasBlock id = func.hasBlock id := by
  unfold FirFunc.hasBlock
  have hblocks := h.blocks
  generalize func.blocks = l, s.blocks = l' at hblocks
  induction hblocks with
  | nil => rfl
  | @cons block block' _ _ hblock _ ih => rw [List.any_cons, List.any_cons, ih, hblock.same]

theorem endsWithTerminator_of_forall₂ {l l' : List FirValue}
    (h : List.Forall₂ (fun val w => firIsTerminator w.op = firIsTerminator val.op) l l')
    (hends : EndsWithTerminator l) : EndsWithTerminator l' := by
  induction h with
  | nil => exact hends
  | @cons val w l l' hsame htail ih =>
    cases hval : firIsTerminator val.op with
    | true =>
      obtain rfl := (endsWithTerminator_cons_of_terminator hval).1 hends
      cases htail
      exact (endsWithTerminator_cons_of_terminator (hsame.trans hval)).2 rfl
    | false =>
      exact (endsWithTerminator_cons_of_other (hsame.trans hval)).2
        (ih ((endsWithTerminator_cons_of_other hval).1 hends))

theorem targetErrors_of_rewritten (hid : func.DistinctIds) (hfolded : func.Folded s)
    (hval : val ∈ func.values) (h : val.Rewritten func w) (herrors : func.targetErrors val = 0) :
    s.targetErrors w = 0 := by
  cases hterm : firIsTerminator val.op with
  | false =>
    have hother := (isTerminator_of_rewritten hid hval h).trans hterm
    unfold targetErrors
    split
    · rw [‹w.op = .JUMP›] at hother
      cases hother
    · rw [‹w.op = .BRANCH›] at hother
      cases hother
    · rw [‹w.op = .BRANCH›] at hother
      cases hother
    · rfl
  | true =>
    obtain ⟨hop, hpayload, hops⟩ := op_of_terminator hid hval h hterm
    by_cases hbranch : val.op = .BRANCH
    · have hkeep (x y : UInt32) (hx : some x ∈ val.targets) (hxy : func.Reduces x y) : y = x :=
        Reduces.eq_of_target hval hbranch hx hxy
      simp only [FirValue.targets, hbranch] at hkeep
      simp only [targetErrors, hop, hbranch] at herrors ⊢
      generalize val.operands = l, w.operands = l' at hops hkeep herrors
      rcases hops with _ | ⟨hcond, _ | ⟨ht, _ | ⟨hf, hrest⟩⟩⟩
      · rfl
      · rfl
      · cases herrors
      · simp only [hkeep _ _ (by simp) ht, hkeep _ _ (by simp) hf, hfolded.hasBlock]
        exact herrors
    · unfold targetErrors at herrors ⊢
      rw [hop]
      split
      · rename_i hjump
        rw [hjump] at herrors
        simp only [hfolded.hasBlock, FirValue.blockId, hpayload] at herrors ⊢
        exact herrors
      · exact absurd ‹_› hbranch
      · exact absurd ‹_› hbranch
      · rfl

theorem phiErrors_of_rewritten (hfolded : func.Folded s) (h : val.Rewritten func w)
    (herrors : func.phiErrors val = 0) : s.phiErrors w = 0 := by
  unfold phiErrors at herrors ⊢
  by_cases hop : w.op = .PHI
  · have hop' : val.op = .PHI := op_of_phi h hop
    rw [if_pos hop'] at herrors
    rw [if_pos hop]
    have hphi := h.phi
    generalize val.phi = l, w.phi = l' at hphi herrors
    induction hphi with
    | nil => rfl
    | @cons src src' l l' hsrc _ ih =>
      rw [List.filter_cons, hfolded.hasBlock, hsrc.block]
      rw [List.filter_cons] at herrors
      by_cases hmissing : (!func.hasBlock src.blockId) = true
      · rw [if_pos hmissing] at herrors
        exact absurd herrors (Nat.succ_ne_zero _)
      · rw [if_neg hmissing] at herrors ⊢
        exact ih herrors
  · exact if_neg hop

/-- A folded function is accepted as well. -/
theorem firValidateFunc_of_folded (hid : func.DistinctIds) (hfolded : func.Folded s)
    (h : func.firValidateFunc = 0) : s.firValidateFunc = 0 := by
  obtain ⟨hnone, hentry, hblocks⟩ := firValidateFunc_eq_zero.1 h
  have hlength : s.blocks.length = func.blocks.length := hfolded.blocks.length_eq.symm
  have hsame : s.entryBlock = func.entryBlock := by rw [hfolded.same]
  refine firValidateFunc_eq_zero.2 ⟨by rwa [hlength], by rwa [hlength, hsame], fun block' hblock' => ?_⟩
  obtain ⟨b, hb⟩ := List.mem_iff_getElem?.1 hblock'
  obtain ⟨block, hblock, hrewritten⟩ := exists_of_forall₂ hfolded.blocks.flip hb
  have hmem : block ∈ func.blocks := List.mem_of_getElem? hblock
  obtain ⟨hends, hvalues⟩ := hblocks block hmem
  have hval (val : FirValue) (hval : val ∈ block.values) : val ∈ func.values :=
    List.mem_flatMap.2 ⟨block, hmem, hval⟩
  refine ⟨endsWithTerminator_of_forall₂ (List.forall₂_iff_zip.2 ⟨hrewritten.values.length_eq, ?_⟩) hends, ?_⟩
  · intro val w hpair
    have hrel := (List.forall₂_iff_zip.1 hrewritten.values).2 hpair
    exact isTerminator_of_rewritten hid (hval val (List.of_mem_zip hpair).1) hrel
  · intro w hw
    obtain ⟨i, hi⟩ := List.mem_iff_getElem?.1 hw
    obtain ⟨val, hv, hrel⟩ := exists_of_forall₂ hrewritten.values.flip hi
    have hv : val ∈ block.values := List.mem_of_getElem? hv
    exact ⟨targetErrors_of_rewritten hid hfolded (hval val hv) hrel (hvalues val hv).1,
      phiErrors_of_rewritten hfolded hrel (hvalues val hv).2⟩

end FirFunc

end FluxOs
