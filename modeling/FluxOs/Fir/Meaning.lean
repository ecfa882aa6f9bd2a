import FluxOs.Fir.DeadCodeMeaning
import FluxOs.Fir.FoldMeaning

/-!
# The passes and the meaning of a function

Each sweep of constant folding keeps the meaning of an accepted function with distinct ids, and so does dead code
elimination behind it, provided that the sweeps do not take the block id of a branch for the id of a value whose
uses they replace, and that no division overflows in the compiler.
-/

namespace FluxOs

open Availability FlowGraph Relation Faulting

namespace FirFunc

/-- Sweeps of constant folding make `s` of the function. -/
def Swept (func s : FirFunc) : Prop := ReflTransGen (fun s t => ∃ c, s.foldSweep = .ok (t, c)) func s

/-- The function `t` has the meaning of `func`, and is accepted. -/
structure Preserved (func t : FirFunc) : Prop where
  meaning : func.KeepsMeaning t
  valid : t.firValidateFunc = 0

/-- Each sweep over the function returns and preserves it, followed or not by dead code elimination. -/
def SweepsPreserve (func : FirFunc) : Prop :=
  ∀ s, func.Swept s → ∃ t c, s.foldSweep = .ok (t, c) ∧ func.Preserved t ∧
    ∃ u, (∀ fuel > t.values.length, firDeadCodeElim fuel t = some (.ok u)) ∧ func.Preserved u

/-- No value divides `INT64_MIN` by `-1`, and no sweep replaces an id that is the block id of a branch. -/
structure SweepsApart (func : FirFunc) : Prop where
  noTrap : ∀ val ∈ func.values, ¬ val.Traps func.EvalsTo
  apart : ∀ s, func.Swept s → ∀ id, s.Replaces id → ¬ func.IsTarget id

variable {func s t : FirFunc} {val : FirValue} {id x : UInt32}

/-! ## Sweeps -/

theorem Swept.tracks (h : func.Swept s) (hid : func.DistinctIds) : Tracks func s := by
  induction h with
  | refl => exact .refl func
  | tail _ hstep ih =>
    obtain ⟨c, hsweep⟩ := hstep
    exact ih.foldSweep hid.identitiesBelow hsweep

theorem Swept.folded (h : func.Swept s) (hid : func.DistinctIds)
    (hapart : ∀ s, func.Swept s → ∀ id, s.Replaces id → ¬ func.IsTarget id) : func.Folded s := by
  induction h with
  | refl => exact .refl func
  | @tail s t hpath hstep ih =>
    obtain ⟨c, hsweep⟩ := hstep
    exact ih.foldSweep hid (hapart s hpath) hsweep

/-- Dead code elimination of a preserved function. -/
theorem Preserved.deadCodeElim (h : func.Preserved t) :
    ∃ u, (∀ fuel > t.values.length, firDeadCodeElim fuel t = some (.ok u)) ∧ func.Preserved u := by
  obtain ⟨u, hu, heliminated, -⟩ := firDeadCodeElim_spec t
  exact ⟨u, hu, h.meaning.trans (keepsMeaning_of_removes heliminated.removes),
    firValidateFunc_of_removes heliminated.removes h.valid⟩

theorem SweepsApart.sweepsPreserve (h : func.SweepsApart) (hvalid : func.firValidateFunc = 0)
    (hid : func.DistinctIds) : func.SweepsPreserve := by
  intro s hs
  obtain ⟨t, c, hsweep⟩ := foldSweep_returns (hs.tracks hid) hid.identitiesBelow h.noTrap
  have hfolded : func.Folded t := Swept.folded (hs.tail ⟨c, hsweep⟩) hid h.apart
  have hpreserved : func.Preserved t := ⟨hfolded.keepsMeaning hid, firValidateFunc_of_folded hid hfolded hvalid⟩
  exact ⟨t, c, hsweep, hpreserved, hpreserved.deadCodeElim⟩

/-! ## Sweeps that return -/

/-- When every sweep returns, there is one that makes no new constant. -/
theorem exists_quiet_sweep (hid : func.DistinctIds)
    (hreturns : ∀ s, func.Swept s → ∃ t c, s.foldSweep = .ok (t, c)) :
    ∃ s t c, func.Swept s ∧ s.foldSweep = .ok (t, c) ∧ ∀ pos, t.ConstAt pos → s.ConstAt pos := by
  have h (k : Nat) (s : FirFunc) (hs : func.Swept s) (hk : (openPositions func s).card = k) :
      ∃ s t c, func.Swept s ∧ s.foldSweep = .ok (t, c) ∧ ∀ pos, t.ConstAt pos → s.ConstAt pos := by
    induction k using Nat.strong_induction_on generalizing s with
    | h k ih =>
      obtain ⟨t, c, hsweep⟩ := hreturns s hs
      have ht : func.Swept t := hs.tail ⟨c, hsweep⟩
      by_cases hnew : ∃ pos, ¬ s.ConstAt pos ∧ t.ConstAt pos
      · have hlt := openPositions_lt_of_new (ht.tracks hid) (advances_foldSweep hsweep) hnew
        exact ih _ (hk ▸ hlt) t ht rfl
      · exact ⟨s, t, c, hs, hsweep, fun pos hpos => by_contra fun hno => hnew ⟨pos, hno, hpos⟩⟩
  exact h _ func ReflTransGen.refl rfl

/-- When every sweep returns, no value divides `INT64_MIN` by `-1`. -/
theorem noTrap_of_returns (hid : func.DistinctIds)
    (hreturns : ∀ s, func.Swept s → ∃ t c, s.foldSweep = .ok (t, c)) (hval : val ∈ func.values) :
    ¬ val.Traps func.EvalsTo := by
  intro htraps
  obtain ⟨s, t, c, hswept, hsweep, hsame⟩ := exists_quiet_sweep hid hreturns
  have hs := hswept.tracks hid
  obtain ⟨pos, hpos⟩ := mem_values_iff.1 hval
  obtain ⟨w₀, hw₀, -⟩ := hs.exists hpos
  obtain ⟨u, cu, v, cv, hsu, hu, hvisit, -⟩ :=
    exists_visit hid.identitiesBelow hs hsweep (mem_positions_iff.2 ⟨w₀, hw₀⟩)
  obtain ⟨⟨u', cu'⟩, htry, -⟩ := sweep_cons.1 hvisit
  obtain ⟨w, hw, hwtraps⟩ := hu.exists_traps hid hpos htraps fun hn =>
    hs.consts_advance hu hid hsu (consts_of_sweep hid hs hsweep hsame hn.choose_spec)
  have herror := arithRule_traps hwtraps
  rcases tryRule_cases htry with ⟨-, hnone⟩ | ⟨w', r, hw', hr, -⟩
  · rw [hnone w hw] at herror
    cases herror
  · obtain rfl := Option.some.inj (hw.symm.trans hw')
    rw [hr] at herror
    cases herror

/-- Each sweep over an accepted function with distinct ids, followed or not by dead code elimination, preserves it
when no sweep replaces the block id of a branch and no division overflows; where one does, a sweep traps. -/
theorem sweepsPreserve_spec (hvalid : func.firValidateFunc = 0) (hid : func.DistinctIds) :
    (func.SweepsApart → func.SweepsPreserve) ∧
      (func.SweepsPreserve → ∀ val ∈ func.values, ¬ val.Traps func.EvalsTo) := by
  refine ⟨fun h => h.sweepsPreserve hvalid hid, fun h val hval => noTrap_of_returns hid (fun s hs => ?_) hval⟩
  obtain ⟨t, c, hsweep, -⟩ := h s hs
  exact ⟨t, c, hsweep⟩

/-- Only the id of a value that equals an operand is replaced. -/
theorem exists_identity_of_replaces (hid : func.DistinctIds) (hs : func.Swept s) (h : s.Replaces id) :
    ∃ val ∈ func.values, val.id = id ∧ ∃ z, val.EqualsOperand func.EvalsTo z := by
  obtain ⟨⟨u, cu⟩, ⟨pos, rule⟩, hvisits, w, z, hw, hr, rfl⟩ := h
  have hu : Tracks func u := hvisits.invariant (I := fun s => Tracks func s.1)
    (fun _ _ _ hp hs ht => Tracks.tryRule hs hid.identitiesBelow (mem_trials.1 hp).2 ht) (hs.tracks hid)
  obtain ⟨val, hval, htracked⟩ := hu.of_some hw
  obtain ⟨z₀, -, heq⟩ := hu.equalsOperand htracked ((sound_of_mem_foldRules (mem_trials.1 hvisits.mem).2).fires hr)
  exact ⟨val, mem_values_iff.2 ⟨pos, hval⟩, htracked.1.symm, z₀, heq⟩

/-! ## A sum whose id is a block id -/

/-- The sum of a system call and zero, with the id 2, and a branch to the block 1, or to the given one when the call
returns zero. -/
def branchFunc (target : UInt32) : FirFunc := {
  returnType := .VOID
  paramTypes := []
  numParams := 0
  entryBlock := 0
  blocks := [{
    id := 0
    values := [
      { id := 0, type := .I64, op := .SYSCALL, operands := [], payload := 0, phi := [] },
      { id := 1, type := .I64, op := .CONST, operands := [], payload := 0, phi := [] },
      { id := 2, type := .I64, op := .ADD, operands := [0, 1], payload := 0, phi := [] },
      { id := 3, type := .VOID, op := .BRANCH, operands := [0, 1, target], payload := 0, phi := [] }]
    terminator := 3
    isSealed := true }, blockOf 1 .RETURN [], blockOf 2 .RETURN []]
  isAgent := false
  isCompiled := false
  nextValueId := 0 }

/-- What is defined in the entry block before any terminator is available behind it. -/
theorem available_of_entry {k : Nat} {p : Nat × Nat}
    (hvals : ∀ v, v ≤ k → ∀ val, func.valueAt? (func.entryBlock.toNat, v) = some val →
      firIsTerminator val.op = false ∧ (v = k → val.id = x))
    (hp : ¬ (p.1 = func.entryBlock.toNat ∧ p.2 ≤ k)) : func.graph.Available x p := by
  intro hq
  have hinside : ∀ q, func.graph.Avoids x q → q.1 = func.entryBlock.toNat ∧ q.2 ≤ k := by
    intro q hq
    induction hq with
    | refl => exact ⟨rfl, Nat.zero_le k⟩
    | @tail r q _ hstep ih =>
      obtain ⟨b, v⟩ := r
      obtain ⟨rfl, hv⟩ : b = func.entryBlock.toNat ∧ v ≤ k := ih
      obtain ⟨⟨val, hval, hgoes⟩, hdef⟩ := hstep
      obtain ⟨hother, hid⟩ := hvals v hv val hval
      rw [hother] at hgoes
      obtain rfl : q = (func.entryBlock.toNat, v + 1) := hgoes
      refine ⟨rfl, ?_⟩
      by_contra hlt
      exact hdef ⟨val, hval, hid (by simp only at hlt; omega)⟩
  exact hp (hinside p hq)

theorem branchFunc_ssaForm : (branchFunc 2).SsaForm := by
  have huses : ∀ p ∈ (branchFunc 2).positions, ∀ val ∈ (branchFunc 2).valueAt? p,
      val.uses.all (fun x => x.toNat < 2 ∧ p.1 = 0 ∧ 2 ≤ p.2) = true := by decide +kernel
  have hvals : ∀ k, k < 2 → ∀ v, v ≤ k → ∀ val ∈ (branchFunc 2).valueAt? (0, v),
      firIsTerminator val.op = false ∧ (v = k → val.id = UInt32.ofNat k) := by decide +kernel
  refine ⟨fun p val hval x hx _ => ?_, fun p q val block src hval hop => ?_⟩
  · have hall := List.all_eq_true.1 (huses p (mem_positions_iff.2 ⟨val, hval⟩) val hval) x hx
    obtain ⟨hlt, -, hbehind⟩ := of_decide_eq_true hall
    refine available_of_entry (k := x.toNat) (fun v hv val hval => ?_) fun hp => ?_
    · obtain ⟨hother, hid⟩ := hvals x.toNat hlt v hv val hval
      exact ⟨hother, fun heq => (hid heq).trans UInt32.ofNat_toNat⟩
    · have := hp.2
      omega
  · have hphi : ∀ val ∈ (branchFunc 2).values, val.op ≠ .PHI := by decide +kernel
    exact absurd hop (hphi val (mem_values_iff.2 ⟨q, hval⟩))

/-- The uses of the sum are replaced by the system call, and with them the target 2: the branch goes back to the
block 0 when the call returns zero. -/
theorem branchFunc_not_preserved : ¬ ∀ func : FirFunc,
    func.firValidateFunc = 0 → func.DistinctIds → func.SweepsPreserve := by
  intro h
  obtain ⟨t, c, hsweep, hpreserved, -⟩ :=
    h (branchFunc 2) (by decide +kernel) (distinctIds_iff.2 (by decide +kernel)) _ ReflTransGen.refl
  have hreplaced : (branchFunc 2).foldSweep = .ok ((branchFunc 2).replaceUses 2 0, true) := by decide +kernel
  obtain ⟨rfl, -⟩ := Prod.mk.inj (Except.ok.inj (hreplaced.symm.trans hsweep))
  have hrun := (hpreserved.meaning branchFunc_ssaForm).2 (fun _ _ => 0) (fun _ => 0) 2
    ⟨[2], [⟨0, .SYSCALL, .I64, 0, []⟩], some none⟩ (by decide +kernel)
  revert hrun
  decide +kernel

/-- Where the branch goes back to the block 0, its ids are not replaced. -/
theorem sweepsPreserve_spec_loop : (branchFunc 0).SweepsPreserve := by
  have hid : (branchFunc 0).DistinctIds := distinctIds_iff.2 (by decide +kernel)
  refine (sweepsPreserve_spec (by decide +kernel) hid).1
    ⟨fun val hval htraps => ?_, fun s hs id hreplaces htarget => ?_⟩
  · have hdiv : ∀ val ∈ (branchFunc 0).values, ¬ (val.op = .DIV ∨ val.op = .MOD) := by decide +kernel
    obtain ⟨-, -, -, -, hop, -⟩ := htraps
    exact hdiv val hval hop
  · have hsum : ∀ val ∈ (branchFunc 0).values, val.op.computes = true → val.id = 2 := by decide +kernel
    have hbranch : ∀ val ∈ (branchFunc 0).values, val.op = .BRANCH → some 2 ∉ val.targets := by decide +kernel
    obtain ⟨val, hval, rfl, z, heq⟩ := exists_identity_of_replaces hid hs hreplaces
    obtain ⟨w, hw, hop, hmem⟩ := htarget
    rw [hsum val hval heq.computes] at hmem
    exact hbranch w hw hop hmem

end FirFunc

end FluxOs
