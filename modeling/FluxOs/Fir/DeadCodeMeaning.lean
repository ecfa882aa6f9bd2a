import FluxOs.Fir.DeadCode
import FluxOs.Fir.Semantics

/-!
# Dead code elimination and the meaning of a function

A value whose id occurs nowhere is removed.  The run without it has the same values but for that id, which nothing
reads, and a path that avoids another id avoids it in the function that still has the value.
-/

namespace FluxOs

open Availability FlowGraph Relation

/-- The states differ in the value of one id at most. -/
structure SsaState.AgreeOff (id : UInt32) (s t : SsaState) : Prop where
  env : ∀ x, x ≠ id → t.env x = s.env x
  trace : t.trace = s.trace

namespace FirFunc

variable {func t : FirFunc} {val : FirValue} {pos p q : Nat × Nat} {id x : UInt32}

theorem terminator_of_removable (h : func.Removable pos val) : firIsTerminator val.op = false :=
  (Bool.or_eq_false_iff.1 h.2.1).1

/-! ## Positions -/

/-- Where a value is when nothing has been removed at the position. -/
def shift (pos q : Nat × Nat) : Nat × Nat := if q.1 = pos.1 ∧ pos.2 ≤ q.2 then (q.1, q.2 + 1) else q

theorem shift_fst : (shift pos q).1 = q.1 := by
  unfold shift
  split_ifs
  · rfl
  · rfl

theorem valueAt?_removeAt : (func.removeAt pos).valueAt? q = func.valueAt? (shift pos q) := by
  obtain ⟨b, v⟩ := pos
  obtain ⟨b', v'⟩ := q
  unfold valueAt? removeAt shift
  simp only [List.getElem?_modify]
  by_cases hb : b = b'
  · subst hb
    cases hblock : func.blocks[b]? with
    | none => split_ifs <;> simp [hblock]
    | some block =>
      by_cases hv : v ≤ v'
      · simp [hv, hblock, List.getElem?_eraseIdx, Nat.not_lt.2 hv]
      · simp [hv, hblock, List.getElem?_eraseIdx, Nat.not_le.1 hv]
  · simp [hb, Ne.symm hb]

/-- A block when the value at a position is removed. -/
def blockWithout (pos : Nat × Nat) (b : Nat) (block : FirBlock) : FirBlock :=
  if pos.1 = b then { block with values := block.values.eraseIdx pos.2 } else block

theorem id_blockWithout (b : Nat) (block : FirBlock) : (blockWithout pos b block).id = block.id := by
  unfold blockWithout
  split_ifs
  · rfl
  · rfl

theorem getElem?_removeAt (b : Nat) :
    (func.removeAt pos).blocks[b]? = func.blocks[b]?.map (blockWithout pos b) := by
  rw [removeAt, List.getElem?_modify]
  rfl

theorem map_id_removeAt : (func.removeAt pos).blocks.map FirBlock.id = func.blocks.map FirBlock.id := by
  refine List.ext_getElem? fun b => ?_
  rw [List.getElem?_map, List.getElem?_map, getElem?_removeAt, Option.map_map]
  exact congrArg (fun f => Option.map f func.blocks[b]?) (funext (id_blockWithout b))

theorem blockIndex_removeAt : (func.removeAt pos).blockIndex id = func.blockIndex id := by
  have hindex (func : FirFunc) : func.blockIndex id = (func.blocks.map FirBlock.id).findIdx? (· = id) := by
    rw [List.findIdx?_map]
    rfl
  rw [hindex, hindex, map_id_removeAt]

/-! ## Control goes as before -/

theorem edge_removeAt (h : (func.removeAt pos).graph.edge p q) :
    ∃ val, func.valueAt? (shift pos p) = some val ∧
      if firIsTerminator val.op then ∃ id, some id ∈ val.targets ∧ func.blockIndex id = some q.1 ∧ q.2 = 0
      else q = (p.1, p.2 + 1) := by
  obtain ⟨val, hval, hgoes⟩ := h
  rw [valueAt?_removeAt] at hval
  simp only [blockIndex_removeAt] at hgoes
  exact ⟨val, hval, hgoes⟩

/-- The removed value is passed without a definition of any other id. -/
theorem avoids_passing (h : func.Removable pos val) (hx : x ≠ val.id) (hq : func.graph.Avoids x q) :
    func.graph.Avoids x (if q = pos then (pos.1, pos.2 + 1) else q) := by
  by_cases hpos : q = pos
  · subst hpos
    rw [if_pos rfl]
    refine hq.tail ⟨⟨val, h.1, ?_⟩, ?_⟩
    · rw [terminator_of_removable h]
      rfl
    · rintro ⟨w, hw, rfl⟩
      obtain rfl := Option.some.inj (h.1.symm.trans hw)
      exact hx rfl
  · rwa [if_neg hpos]

/-- A path that avoids an id without the value avoids it with the value. -/
theorem avoids_shift (h : func.Removable pos val) (hx : x ≠ val.id) (hq : (func.removeAt pos).graph.Avoids x q) :
    func.graph.Avoids x (shift pos q) := by
  have hfirst (b : Nat) : shift pos (b, 0) = if (b, 0) = pos then (pos.1, pos.2 + 1) else (b, 0) := by
    obtain ⟨b', v⟩ := pos
    simp only [shift, Nat.le_zero, Prod.mk.injEq]
    split_ifs with h₁ h₂ h₂
    · rw [h₁.1, h₁.2]
    · exact absurd ⟨h₁.1, h₁.2.symm⟩ h₂
    · exact absurd ⟨h₂.1, h₂.2.symm⟩ h₁
    · rfl
  have hnext (p : Nat × Nat) : shift pos (p.1, p.2 + 1) =
      if ((shift pos p).1, (shift pos p).2 + 1) = pos then (pos.1, pos.2 + 1)
      else ((shift pos p).1, (shift pos p).2 + 1) := by
    obtain ⟨b', v⟩ := pos
    obtain ⟨b, k⟩ := p
    simp only [shift]
    by_cases hb : b = b'
    · subst hb
      by_cases hk : v ≤ k
      · simp [hk, Nat.le_succ_of_le hk, show ¬ k + 1 + 1 = v by omega]
      · by_cases hk' : v = k + 1
        · simp [hk', show ¬ k + 1 ≤ k by omega]
        · simp [hk, show ¬ v ≤ k + 1 by omega, Ne.symm hk']
    · simp [hb]
  refine hq.map (H := func.graph) (f := shift pos) ?_ fun p q hedge hdef hp => ?_
  · show func.graph.Avoids x (shift pos (func.entryBlock.toNat, 0))
    rw [hfirst]
    exact avoids_passing h hx ReflTransGen.refl
  · obtain ⟨w, hw, hgoes⟩ := edge_removeAt hedge
    have hkeeps : ¬ func.graph.defines (shift pos p) x := by
      rintro ⟨w', hw', hid⟩
      exact hdef ⟨w', by rwa [valueAt?_removeAt], hid⟩
    by_cases hterm : firIsTerminator w.op = true
    · rw [if_pos hterm] at hgoes
      obtain ⟨id, htarget, hindex, hzero⟩ := hgoes
      obtain ⟨b, v⟩ := q
      obtain rfl : v = 0 := hzero
      rw [hfirst]
      refine avoids_passing h hx (hp.tail ⟨⟨w, hw, ?_⟩, hkeeps⟩)
      rw [if_pos hterm]
      exact ⟨id, htarget, hindex, rfl⟩
    · rw [if_neg hterm] at hgoes
      subst hgoes
      rw [hnext]
      refine avoids_passing h hx (hp.tail ⟨⟨w, hw, ?_⟩, hkeeps⟩)
      rw [if_neg hterm]

/-! ## SSA form -/

theorem mentions_of_uses {x : UInt32} (hx : x ∈ val.uses) : val.Mentions x := by
  refine .inl ?_
  unfold FirValue.uses at hx
  split at hx
  · cases hx
  · cases hx
  · cases hx
  · exact List.mem_of_mem_take hx
  · exact List.mem_of_mem_take hx
  · exact hx

theorem mentions_of_source {id : UInt32} {src : PhiSource}
    (h : val.phi.find? (fun src => src.blockId = id) = some src) : val.Mentions src.srcId :=
  .inr ⟨src, List.mem_of_find?_eq_some h, rfl⟩

/-- Nothing reads the id of a value that may be removed. -/
theorem ne_of_mentions {w : FirValue} (h : func.Removable pos val) (hw : func.valueAt? p = some w)
    (hx : w.Mentions x) : x ≠ val.id := by
  rintro rfl
  exact h.2.2 ⟨w, mem_values_iff.2 ⟨p, hw⟩, hx⟩

theorem ready_removeAt (h : func.Removable pos val) (hx : x ≠ val.id)
    (hready : func.graph.Ready x (shift pos q)) : (func.removeAt pos).graph.Ready x q := by
  rintro ⟨p, w, hw, rfl⟩ hq
  rw [valueAt?_removeAt] at hw
  exact hready ⟨_, w, hw, rfl⟩ (avoids_shift h hx hq)

theorem edge_shift {b : Nat} (h : (func.removeAt pos).graph.edge p (b, 0)) :
    func.graph.edge (shift pos p) (b, 0) := by
  obtain ⟨w, hw, hgoes⟩ := edge_removeAt h
  refine ⟨w, hw, ?_⟩
  by_cases hterm : firIsTerminator w.op = true
  · rw [if_pos hterm] at hgoes ⊢
    exact hgoes
  · rw [if_neg hterm] at hgoes
    cases hgoes

theorem ssaForm_removeAt (h : func.Removable pos val) (hssa : func.SsaForm) : (func.removeAt pos).SsaForm := by
  refine ⟨fun p w hw x hx => ?_, fun p q w block src hw hop hblock hedge hsrc => ?_⟩
  · rw [valueAt?_removeAt] at hw
    exact ready_removeAt h (ne_of_mentions h hw (mentions_of_uses hx)) (hssa.operands _ w hw x hx)
  · rw [valueAt?_removeAt] at hw
    rw [getElem?_removeAt] at hblock
    obtain ⟨block, hblock, rfl⟩ := Option.map_eq_some_iff.1 hblock
    rw [id_blockWithout] at hsrc
    refine ready_removeAt h (ne_of_mentions h hw (mentions_of_source hsrc)) ?_
    refine hssa.sources _ (shift pos q) w block src hw hop ?_ ?_ hsrc
    · rwa [shift_fst]
    · rw [shift_fst]
      exact edge_shift hedge

/-! ## Runs agree -/

/-- Dead code elimination keeps every operation that has an effect. -/
theorem effect?_eq_none {op : FirOp} (h : hasSideEffect op = false) : op.effect? = none := by
  revert h
  cases op
  all_goals decide

variable {host : FirHost} {pred : Option UInt32} {entry entry' : SsaEnv} {s s' u : SsaState} {term : FirValue}
  {vals : List FirValue}

theorem map_env_of_agree {env env' : SsaEnv} (hargs : id ∉ val.operands) (henv : ∀ x, x ≠ id → env' x = env x) :
    val.operands.map env' = val.operands.map env := by
  refine List.map_congr_left fun x hx => henv x ?_
  rintro rfl
  exact hargs hx

theorem exec_agrees (hmentions : ¬ val.Mentions id) (hagree : s.AgreeOff id u)
    (hentry : ∀ x, x ≠ id → entry' x = entry x) (h : val.exec host pred entry s = some s') :
    ∃ u', val.exec host pred entry' u = some u' ∧ s'.AgreeOff id u' := by
  obtain ⟨n, hn, rfl⟩ := Option.map_eq_some_iff.1 h
  have hargs := map_env_of_agree (fun hmem => hmentions (.inl hmem)) hagree.env
  have hact : val.act u.env = val.act s.env := by rw [FirValue.act, FirValue.act, hargs]
  have hsource : (val.source pred).map entry' = (val.source pred).map entry := by
    refine Option.map_congr fun x hx => hentry x ?_
    rintro rfl
    obtain ⟨b, rfl, hx⟩ := Option.bind_eq_some_iff.1 hx
    obtain ⟨src, hsrc, hx⟩ := Option.bind_eq_some_iff.1 hx
    cases hx
    exact hmentions (mentions_of_source hsrc)
  have hresult : val.result host pred entry' u = some n := by
    rw [← hn]
    simp only [FirValue.result, hargs, hact, hsource, hagree.trace]
  have heffects : val.effects u = val.effects s := by
    simp only [FirValue.effects, hact, hagree.trace]
  refine ⟨_, by rw [FirValue.exec, hresult]; rfl, fun x hx => ?_, heffects⟩
  show Function.update u.env val.id n x = Function.update s.env val.id n x
  rw [Function.update_apply, Function.update_apply, hagree.env x hx]

theorem runValues_agrees (hmentions : ∀ val ∈ vals, ¬ val.Mentions id) (hagree : s.AgreeOff id u)
    (hentry : ∀ x, x ≠ id → entry' x = entry x) (h : runValues host pred entry vals s = some (term, s')) :
    ∃ u', runValues host pred entry' vals u = some (term, u') ∧ s'.AgreeOff id u' := by
  induction vals generalizing s u with
  | nil => cases h
  | cons val vals ih =>
    rcases runValues_cons.1 h with ⟨hterm, rfl, rfl⟩ | ⟨hother, s₁, hexec, h⟩
    · exact ⟨u, runValues_cons.2 (.inl ⟨hterm, rfl, rfl⟩), hagree⟩
    · obtain ⟨u₁, hexec', hagree₁⟩ := exec_agrees (hmentions val List.mem_cons_self) hagree hentry hexec
      obtain ⟨u', hrun, hagree'⟩ := ih (fun w hw => hmentions w (List.mem_cons_of_mem _ hw)) hagree₁ h
      exact ⟨u', runValues_cons.2 (.inr ⟨hother, u₁, hexec', hrun⟩), hagree'⟩

/-- The values of a block without one that has no side effect and that nothing mentions. -/
theorem runValues_eraseIdx {v : Nat} (hmentions : ∀ val ∈ vals, ¬ val.Mentions id) (hval : vals[v]? = some val)
    (hid : val.id = id) (hessential : val.essential = false) (hagree : s.AgreeOff id u)
    (hentry : ∀ x, x ≠ id → entry' x = entry x) (h : runValues host pred entry vals s = some (term, s')) :
    ∃ u', runValues host pred entry' (vals.eraseIdx v) u = some (term, u') ∧ s'.AgreeOff id u' := by
  obtain ⟨hother, hkeeps⟩ := Bool.or_eq_false_iff.1 hessential
  induction vals generalizing s u v with
  | nil => cases h
  | cons w vals ih =>
    have hrest : ∀ val ∈ vals, ¬ val.Mentions id := fun w hw => hmentions w (List.mem_cons_of_mem _ hw)
    cases v with
    | zero =>
      obtain rfl : w = val := by simpa using hval
      rcases runValues_cons.1 h with ⟨hterm, -⟩ | ⟨-, s₁, hexec, h⟩
      · rw [hother] at hterm
        cases hterm
      obtain ⟨n, -, rfl⟩ := Option.map_eq_some_iff.1 hexec
      refine runValues_agrees hrest ⟨fun x hx => ?_, ?_⟩ hentry h
      · show u.env x = Function.update s.env w.id n x
        rw [Function.update_of_ne (hid ▸ hx), hagree.env x hx]
      · show u.trace = w.effects s
        rw [FirValue.effects, effect?_eq_none hkeeps]
        exact hagree.trace
    | succ v =>
      rw [List.eraseIdx_cons_succ]
      rcases runValues_cons.1 h with ⟨hterm, rfl, rfl⟩ | ⟨hother, s₁, hexec, h⟩
      · exact ⟨u, runValues_cons.2 (.inl ⟨hterm, rfl, rfl⟩), hagree⟩
      · obtain ⟨u₁, hexec', hagree₁⟩ := exec_agrees (hmentions w List.mem_cons_self) hagree hentry hexec
        obtain ⟨u', hrun, hagree'⟩ := ih hrest (by simpa using hval) hagree₁ h
        exact ⟨u', runValues_cons.2 (.inr ⟨hother, u₁, hexec', hrun⟩), hagree'⟩

/-- The terminator is one of the values. -/
theorem mem_of_runValues (h : runValues host pred entry vals s = some (term, s')) : term ∈ vals := by
  induction vals generalizing s with
  | nil => cases h
  | cons val vals ih =>
    rcases runValues_cons.1 h with ⟨-, rfl, -⟩ | ⟨-, s₁, -, h⟩
    · exact List.mem_cons_self
    · exact List.mem_cons_of_mem _ (ih h)

theorem leave_agrees {env env' : SsaEnv} (hmentions : ¬ val.Mentions id) (henv : ∀ x, x ≠ id → env' x = env x) :
    val.leave env' = val.leave env := by
  have hoperand (x : UInt32) (hx : x ∈ val.operands) : env' x = env x := by
    refine henv x ?_
    rintro rfl
    exact hmentions (.inl hx)
  unfold FirValue.leave
  split
  · rfl
  · rename_i cond t f rest hop hops
    rw [hops] at hoperand
    rw [hoperand cond List.mem_cons_self]
  · refine congrArg (fun value => some (Exit.ret value)) (Option.map_congr fun x hx => hoperand x ?_)
    exact List.mem_of_head? hx
  · rfl

theorem runBlocks_removeAt (h : func.Removable pos val) (m : Nat) {b : Nat} {behaviour : FirBehaviour}
    (hagree : s.AgreeOff val.id u) (hrun : func.runBlocks host m pred b s = some behaviour) :
    (func.removeAt pos).runBlocks host m pred b u = some behaviour := by
  induction m generalizing b pred s u behaviour with
  | zero =>
    cases hrun
    show some (FirBehaviour.mk [] u.trace none) = _
    rw [hagree.trace]
  | succ m ih =>
    obtain ⟨block, term, s', hblock, hvalues, hexit⟩ := runBlocks_succ.1 hrun
    have hmentions (w : FirValue) (hw : w ∈ block.values) : ¬ w.Mentions val.id := fun hmem =>
      h.2.2 ⟨w, List.mem_flatMap.2 ⟨block, List.mem_of_getElem? hblock, hw⟩, hmem⟩
    obtain ⟨u', hvalues', hagree'⟩ : ∃ u', runValues host pred u.env (blockWithout pos b block).values u =
        some (term, u') ∧ s'.AgreeOff val.id u' := by
      unfold blockWithout
      by_cases hb : pos.1 = b
      · rw [if_pos hb]
        subst hb
        have hval : block.values[pos.2]? = some val := by
          have hpos := h.1
          rwa [valueAt?, hblock] at hpos
        exact runValues_eraseIdx hmentions hval rfl h.2.1 hagree hagree.env hvalues
      · rw [if_neg hb]
        exact runValues_agrees hmentions hagree hagree.env hvalues
    have hterm := mem_of_runValues hvalues
    refine runBlocks_succ.2 ⟨blockWithout pos b block, term, u', ?_, hvalues', ?_⟩
    · rw [getElem?_removeAt, hblock]
      rfl
    · rw [leave_agrees (hmentions term hterm) hagree'.env, hagree'.trace, id_blockWithout]
      refine hexit.imp_right ?_
      rintro ⟨id, b', rest, hgoto, hindex, hrest, rfl⟩
      exact ⟨id, b', rest, hgoto, blockIndex_removeAt.trans hindex, ih hagree' hrest, rfl⟩

/-- A removal keeps the meaning. -/
theorem keepsMeaning_removeAt (h : func.Removable pos val) : func.KeepsMeaning (func.removeAt pos) := by
  intro hssa
  refine ⟨ssaForm_removeAt h hssa, fun host input n behaviour hrun => ?_⟩
  exact runBlocks_removeAt h n ⟨fun _ _ => rfl, rfl⟩ hrun

theorem KeepsMeaning.refl (func : FirFunc) : func.KeepsMeaning func := fun hssa => ⟨hssa, fun _ _ _ _ h => h⟩

theorem KeepsMeaning.trans {t' : FirFunc} (h : func.KeepsMeaning t) (h' : t.KeepsMeaning t') :
    func.KeepsMeaning t' := by
  intro hssa
  obtain ⟨hssa', hrun⟩ := h hssa
  obtain ⟨hssa'', hrun'⟩ := h' hssa'
  exact ⟨hssa'', fun host input n behaviour hbehaviour =>
    hrun' host input n behaviour (hrun host input n behaviour hbehaviour)⟩

theorem keepsMeaning_of_removes (h : ReflTransGen Removes func t) : func.KeepsMeaning t := by
  induction h with
  | refl => exact .refl func
  | tail _ hstep ih =>
    obtain ⟨pos, val, hremovable, rfl⟩ := hstep
    exact ih.trans (keepsMeaning_removeAt hremovable)

/-! ## Validation -/

theorem hasBlock_removeAt : (func.removeAt pos).hasBlock id = func.hasBlock id := by
  have hany (func : FirFunc) : func.hasBlock id = (func.blocks.map FirBlock.id).any (· = id) := by
    rw [List.any_map]
    rfl
  rw [hany, hany, map_id_removeAt]

theorem endsWithTerminator_eraseIdx {l : List FirValue} {v : Nat} (hval : l[v]? = some val)
    (hother : firIsTerminator val.op = false) (h : EndsWithTerminator l) : EndsWithTerminator (l.eraseIdx v) := by
  induction l generalizing v with
  | nil => cases hval
  | cons w l ih =>
    cases v with
    | zero =>
      obtain rfl : w = val := by simpa using hval
      exact (endsWithTerminator_cons_of_other hother).1 h
    | succ v =>
      have hval : l[v]? = some val := by simpa using hval
      rw [List.eraseIdx_cons_succ]
      cases hw : firIsTerminator w.op with
      | true =>
        obtain rfl := (endsWithTerminator_cons_of_terminator hw).1 h
        cases hval
      | false =>
        exact (endsWithTerminator_cons_of_other hw).2 (ih hval ((endsWithTerminator_cons_of_other hw).1 h))

/-- A removal keeps a function accepted. -/
theorem firValidateFunc_removeAt (h : func.Removable pos val) (hvalid : func.firValidateFunc = 0) :
    (func.removeAt pos).firValidateFunc = 0 := by
  obtain ⟨hnone, hentry, hblocks⟩ := firValidateFunc_eq_zero.1 hvalid
  have hlength : (func.removeAt pos).blocks.length = func.blocks.length := by
    rw [← List.length_map (f := FirBlock.id), map_id_removeAt, List.length_map]
  refine firValidateFunc_eq_zero.2 ⟨by rwa [hlength], by rwa [hlength], fun block' hblock' => ?_⟩
  obtain ⟨b, hb⟩ := List.mem_iff_getElem?.1 hblock'
  rw [getElem?_removeAt] at hb
  obtain ⟨block, hblock, rfl⟩ := Option.map_eq_some_iff.1 hb
  obtain ⟨hends, hvalues⟩ := hblocks block (List.mem_of_getElem? hblock)
  have hsame (w : FirValue) : (func.removeAt pos).targetErrors w = func.targetErrors w ∧
      (func.removeAt pos).phiErrors w = func.phiErrors w := by
    refine ⟨?_, ?_⟩
    · unfold targetErrors
      simp only [hasBlock_removeAt]
    · unfold phiErrors
      simp only [hasBlock_removeAt]
  have hvalues' (w : FirValue) (hw : w ∈ block.values) : (func.removeAt pos).targetErrors w = 0 ∧
      (func.removeAt pos).phiErrors w = 0 := by
    rw [(hsame w).1, (hsame w).2]
    exact hvalues w hw
  unfold blockWithout
  by_cases hpos : pos.1 = b
  · rw [if_pos hpos]
    subst hpos
    have hval : block.values[pos.2]? = some val := by
      have hpos := h.1
      rwa [valueAt?, hblock] at hpos
    exact ⟨endsWithTerminator_eraseIdx hval (terminator_of_removable h) hends,
      fun w hw => hvalues' w (List.mem_of_mem_eraseIdx hw)⟩
  · rw [if_neg hpos]
    exact ⟨hends, hvalues'⟩

theorem firValidateFunc_of_removes (h : ReflTransGen Removes func t) (hvalid : func.firValidateFunc = 0) :
    t.firValidateFunc = 0 := by
  induction h with
  | refl => exact hvalid
  | tail _ hstep ih =>
    obtain ⟨pos, val, hremovable, rfl⟩ := hstep
    exact firValidateFunc_removeAt hremovable ih

end FirFunc

end FluxOs
