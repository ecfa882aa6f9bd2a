import FluxOs.Lib.Histories
import FluxOs.Vm.RegionBuffers

/-!
# The trace buffer

`TRACE_ON` starts a trace, and while tracing is on every instruction leaves a snapshot before it executes.  The
snapshots go round and round in a buffer of 4096 entries: the place of the next one is the remainder of
`trace_idx`, a C `int` that grows until the next `TRACE_ON`.  After 2^31 snapshots it has become negative, and soon
its remainder is.
-/

namespace FluxOs

open Faulting Actions Histories FluxVm

/-- A VM with the snapshots taken since the last `TRACE_ON`. -/
structure TracedVm where
  vm : FluxVm
  snapshots : List TraceEntry

namespace FluxVm

/-- What a snapshot records. -/
def snapshot (vm : FluxVm) (opcode : UInt8) : TraceEntry :=
  ⟨vm.pc.toUInt32, opcode, fun i => vm.regs (i.castLE (Nat.le_add_right 8 56))⟩

/-- The place that the next snapshot is written to. -/
def traceIndex (vm : FluxVm) : Int := (vm.traceIdx % 4096).toInt

/-- The next step gets to its snapshot while tracing is on. -/
def TakesSnapshot (vm : FluxVm) : Prop :=
  vm.tracing = true ∧ ∃ i, vm.nextInsn = some i ∧ i.rs1.toNat < 64 ∧ i.rs2.toNat < 64

/-- The entries of the buffer after `n` snapshots, the oldest first. -/
def traced (vm : FluxVm) (n : Nat) : List TraceEntry :=
  (List.range (min n fluxVmTraceBuffer)).map fun i =>
    vm.trace ((n - min n fluxVmTraceBuffer + i) % fluxVmTraceBuffer)

end FluxVm

/-- The snapshots taken since the last `TRACE_ON` when an action has been taken; there are none after a reset. -/
def LifecycleAction.record (t : TracedVm) : LifecycleAction → List TraceEntry
  | .region .execute =>
    match t.vm.nextInsn with
    | none => t.snapshots
    | some i =>
      if opcodeOf i.opcode = .flux .TRACE_ON then []
      else if t.vm.tracing then t.snapshots ++ [t.vm.snapshot i.opcode]
      else t.snapshots
  | .region _ => t.snapshots
  | .reset => []

namespace TracedVm

/-- The VM and its snapshots after an action; a fault ends the run. -/
def step (host : Host) (action : LifecycleAction) (t : TracedVm) : Option TracedVm :=
  (action.step host t.vm).map fun vm => ⟨vm, action.record t⟩

/-- The next snapshot is written inside the buffer, and the buffer holds the latest 4096 snapshots, in order. -/
structure TraceRight (t : TracedVm) : Prop where
  inside : t.vm.TakesSnapshot → 0 ≤ t.vm.traceIndex ∧ t.vm.traceIndex < fluxVmTraceBuffer
  latest : t.vm.traced t.snapshots.length = latest fluxVmTraceBuffer t.snapshots

/-- A snapshot is taken only when there are at most 2^31 of them. -/
def SnapshotsLimited (t : TracedVm) : Prop := t.vm.TakesSnapshot → t.snapshots.length ≤ 2 ^ 31

/-- The index counts the snapshots, and where its remainder is negative no more of them can be taken. -/
structure Sound (t : TracedVm) : Prop where
  idx : t.vm.traceIdx = Int32.ofNat t.snapshots.length
  le : t.snapshots.length ≤ 2 ^ 31 + 1
  holds : Holds fluxVmTraceBuffer t.vm.trace t.snapshots

end TracedVm

namespace FluxVm

variable {vm vm' : FluxVm} {host : Host} {i : FluxVmInsn} {v1 v2 : UInt64}

/-! ## The index -/

/-- Up to 2^31 snapshots the remainder is that of their number, also when the `int` has just overflowed. -/
theorem ofNat_mod_toInt {n : Nat} (hn : n ≤ 2 ^ 31) : (Int32.ofNat n % 4096).toInt = (n % 4096 : Nat) := by
  rcases Nat.lt_or_eq_of_le hn with hlt | rfl
  · rw [Int32.toInt_mod, Int32.toInt_ofNat_of_lt hlt]
    exact Int.tmod_eq_emod_of_nonneg (Int.natCast_nonneg n)
  · decide

theorem traceIndex_nonneg_iff {n : Nat} (hidx : vm.traceIdx = Int32.ofNat n) (hn : n ≤ 2 ^ 31 + 1) :
    0 ≤ vm.traceIndex ↔ n ≤ 2 ^ 31 := by
  unfold traceIndex
  rw [hidx]
  constructor
  · intro h
    by_contra hlt
    obtain rfl : n = 2 ^ 31 + 1 := by omega
    revert h
    decide
  · intro h
    rw [ofNat_mod_toInt h]
    exact Int.natCast_nonneg _

theorem traceIndex_lt (vm : FluxVm) : vm.traceIndex < fluxVmTraceBuffer := by
  unfold traceIndex
  rw [Int32.toInt_mod]
  exact Int.tmod_lt_of_pos _ (by decide)

/-! ## What a step does to the trace -/

/-- The part of a step before the switch: where tracing is on, a snapshot is written and counted. -/
structure Captures (vm : FluxVm) (i : FluxVmInsn) (vm' : FluxVm) : Prop where
  off : vm.tracing = false → KeepsTrace vm vm'
  inside : vm.tracing = true → 0 ≤ vm.traceIndex
  trace : vm.tracing = true →
    vm'.trace = Function.update vm.trace vm.traceIndex.toNat (vm.snapshot i.opcode)
  traceIdx : vm.tracing = true → vm'.traceIdx = vm.traceIdx + 1

theorem traceSnapshot_captures (h : vm.traceSnapshot i.opcode = .ok vm') : Captures vm i vm' := by
  unfold traceSnapshot at h
  split_ifs at h with hoff
  · cases h
    have hfalse : vm.tracing = false := by simpa using hoff
    refine ⟨fun _ => ⟨rfl, rfl, rfl⟩, ?_, ?_, ?_⟩
    all_goals
      intro htrue
      rw [hfalse] at htrue
      cases htrue
  · have htrue : vm.tracing = true := by simpa using hoff
    simp only at h
    split_ifs at h with hidx
    cases h
    refine ⟨fun hfalse => ?_, fun _ => hidx, fun _ => rfl, fun _ => rfl⟩
    rw [htrue] at hfalse
    cases hfalse

theorem prepare_captures {p : UInt64 × UInt64 × FluxVm}
    (h : ({ vm with state := .running } : FluxVm).prepare i = .ok p) : Captures vm i p.2.2 := by
  unfold prepare at h
  obtain ⟨v1, -, h⟩ := bind_eq_ok.1 h
  obtain ⟨v2, -, h⟩ := bind_eq_ok.1 h
  obtain ⟨vm₁, hsnapshot, h⟩ := bind_eq_ok.1 h
  cases h
  have hcaptures := traceSnapshot_captures hsnapshot
  refine ⟨fun hoff => ?_, hcaptures.inside, hcaptures.trace, hcaptures.traceIdx⟩
  have hkeeps := hcaptures.off hoff
  exact ⟨hkeeps.trace, hkeeps.traceIdx, hkeeps.tracing⟩

/-- The buffer stays as it is, and the index is what `idx` says. -/
def SetsTraceIdx (vm : FluxVm) (idx : Int32) (vm' : FluxVm) : Prop := vm'.trace = vm.trace ∧ vm'.traceIdx = idx

theorem execFlux_setsTraceIdx (host : Host) {op : FluxOp} (hop : op ≠ .TRACE_ON) :
    Ensures (fun _ => True) (fun r => SetsTraceIdx vm vm.traceIdx r.2) (vm.execFlux host op i v1 v2) := by
  cases op
  case TRACE_ON => exact absurd rfl hop
  case TILE_LOAD | TILE_COMPOSE => exact setRd_ensures _ fun _ => ⟨rfl, rfl⟩
  case REGION_CREATE =>
    obtain ⟨regions, activeRegion, heap, h⟩ := fluxVmRegionCreate_update vm host (some dyn) v1 false
    simp only [execFlux, h]
    exact setRd_ensures _ fun _ => ⟨rfl, rfl⟩
  case REGION_DESTROY =>
    refine (ensures_bind ..).2 (.mono (fluxVmRegionDestroy_ensures (Q := fun r => SetsTraceIdx vm vm.traceIdx r.2)
      fun _ _ _ _ => ⟨rfl, rfl⟩) (fun _ _ => trivial) fun _ h => h)
  case REGION_MAP =>
    simp only [execFlux]
    split_ifs
    · exact setRd_ensures _ fun _ => ⟨rfl, rfl⟩
    all_goals exact ⟨rfl, rfl⟩
  case GAS_INIT => exact (fluxVmGetReg_ensures fun _ => trivial).bind fun _ _ => ⟨rfl, rfl⟩
  case GAS_CHECK =>
    refine (fluxVmGetReg_ensures fun _ => trivial).bind fun _ _ => ?_
    split_ifs
    · exact ⟨rfl, rfl⟩
    · exact ⟨rfl, rfl⟩
  all_goals exact ⟨rfl, rfl⟩

theorem setsTraceIdx_of_keepsTrace (h : KeepsTrace vm vm') : SetsTraceIdx vm vm.traceIdx vm' :=
  ⟨h.trace, h.traceIdx⟩

theorem MemoryOutcome.setsTraceIdx {op : MemoryOp} (h : MemoryOutcome vm op v1 vm') :
    SetsTraceIdx vm vm.traceIdx vm' := by
  cases h with
  | regs => exact ⟨rfl, rfl⟩
  | region => exact ⟨rfl, rfl⟩
  | stackWord => exact ⟨rfl, rfl⟩

/-- Only `TRACE_ON` changes the index. -/
theorem execute_setsTraceIdx (host : Host) (i : FluxVmInsn) (v1 v2 : UInt64) :
    Ensures (fun _ => True)
      (fun r => SetsTraceIdx vm (if opcodeOf i.opcode = .flux .TRACE_ON then 0 else vm.traceIdx) r.2)
      (vm.execute host i v1 v2) := by
  unfold execute
  cases opcodeOf i.opcode with
  | flux op =>
    by_cases hop : op = .TRACE_ON
    · subst hop
      exact ⟨rfl, rfl⟩
    · rw [if_neg fun h => hop (Opcode.flux.inj h)]
      exact execFlux_setsTraceIdx host hop
  | system op => exact (execSystem_effect op).imp fun _ h => setsTraceIdx_of_keepsTrace h.toKeepsTrace
  | arith op => exact (execArith_effect op).imp fun _ h => setsTraceIdx_of_keepsTrace h.toKeepsTrace
  | logic op => exact (execLogic_effect op).imp fun _ h => setsTraceIdx_of_keepsTrace h.toKeepsTrace
  | compare op => exact (execCompare_effect op).imp fun _ h => setsTraceIdx_of_keepsTrace h.toKeepsTrace
  | branch op => exact (execBranch_effect op).imp fun _ h => setsTraceIdx_of_keepsTrace h.toKeepsTrace
  | memory op => exact (execMemory_outcome op).imp fun _ h => h.setsTraceIdx
  | stack op => exact (execStack_effect op).imp fun _ h => setsTraceIdx_of_keepsTrace h.toKeepsTrace
  | call op => exact (execCall_effect op).imp fun _ h => setsTraceIdx_of_keepsTrace h.toKeepsTrace
  | agent op => exact (execAgent_effect op).imp fun _ h => setsTraceIdx_of_keepsTrace h.toKeepsTrace
  | io op => exact (execIo_effect op).imp fun _ h => setsTraceIdx_of_keepsTrace h.toKeepsTrace
  | native op => exact (execNative_effect op).imp fun _ h => setsTraceIdx_of_keepsTrace h.toKeepsTrace
  | unknown => exact ⟨rfl, rfl⟩

/-- A step that executes an instruction writes the snapshot and sets the index. -/
theorem fluxVmStep_captures {rc : FluxStatus} (hi : vm.nextInsn = some i)
    (h : vm.fluxVmStep host = .ok (rc, vm')) :
    ∃ vm₁, Captures vm i vm₁ ∧
      SetsTraceIdx vm₁ (if opcodeOf i.opcode = .flux .TRACE_ON then 0 else vm₁.traceIdx) vm' := by
  rw [fluxVmStep_eq hi] at h
  obtain ⟨p, hprepare, h⟩ := bind_eq_ok.1 h
  refine ⟨p.2.2, prepare_captures hprepare, ?_⟩
  cases hexec : p.2.2.execute host i p.1 p.2.1 with
  | error fault =>
    rw [hexec] at h
    cases h
  | ok r =>
    rw [hexec] at h
    have hsets := (execute_setsTraceIdx host i p.1 p.2.1).of_ok hexec
    rcases r with ⟨_ | status, vm₂⟩
    · cases h
      exact hsets
    · cases h
      exact hsets

/-- A step that executes no instruction leaves the trace alone. -/
theorem fluxVmStep_setsTraceIdx_of_none {rc : FluxStatus} (hi : vm.nextInsn = none)
    (h : vm.fluxVmStep host = .ok (rc, vm')) : SetsTraceIdx vm vm.traceIdx vm' := by
  refine (fluxVmStep_ensures (E := fun _ => True) (Q := fun r => SetsTraceIdx vm vm.traceIdx r.2) (fun r hr => ?_)
    (fun _ _ _ => trivial) (fun _ _ _ _ _ => trivial) (fun _ => trivial) (fun j _ hj => ?_)).of_ok h
  · unfold stopped? at hr
    split_ifs at hr
    all_goals
      cases hr
      exact ⟨rfl, rfl⟩
  · rw [hi] at hj
    cases hj

/-! ## The other calls -/

theorem destroySlots_setsTraceIdx (slots : List (Fin 16)) :
    Ensures (fun _ => True) (SetsTraceIdx vm vm.traceIdx) (destroySlots slots vm) := by
  induction slots generalizing vm with
  | nil => exact ⟨rfl, rfl⟩
  | cons slot slots ih =>
    simp only [destroySlots]
    split_ifs
    · refine (ensures_bind ..).2 (ensures_of_forall (fun heap _ => ?_) fun _ _ => trivial)
      exact ih.imp fun _ h => h
    · exact ih

theorem call_setsTraceIdx {action : RegionAction} (hexec : action ≠ .execute)
    (h : action.step host vm = some vm') : SetsTraceIdx vm vm.traceIdx vm' := by
  cases action with
  | execute => exact absurd rfl hexec
  | load bytecode len =>
    cases h
    unfold fluxVmLoad
    split
    · exact ⟨rfl, rfl⟩
    · split_ifs
      · exact ⟨rfl, rfl⟩
      · exact ⟨rfl, rfl⟩
  | create name size readonly =>
    obtain ⟨regions, activeRegion, heap, heq⟩ := fluxVmRegionCreate_update vm host name size readonly
    cases h
    rw [heq]
    exact ⟨rfl, rfl⟩
  | destroy regionId =>
    obtain ⟨⟨rc, vm₁⟩, heq, rfl⟩ := Option.map_eq_some_iff.1 h
    exact (fluxVmRegionDestroy_ensures (Q := fun r => SetsTraceIdx vm vm.traceIdx r.2)
      fun _ _ _ _ => ⟨rfl, rfl⟩).of_ok (toOption_eq_some.1 heq)
  | destroyAll =>
    obtain ⟨⟨rc, vm₁⟩, heq, rfl⟩ := Option.map_eq_some_iff.1 h
    obtain ⟨vm₂, hslots, hend⟩ := bind_eq_ok.1 (toOption_eq_some.1 heq)
    cases hend
    have hsets : SetsTraceIdx vm vm.traceIdx vm₂ := (destroySlots_setsTraceIdx _).of_ok hslots
    exact ⟨hsets.1, hsets.2⟩
  | setActive regionId =>
    cases h
    unfold fluxVmRegionSetActive
    split
    · exact ⟨rfl, rfl⟩
    · exact ⟨rfl, rfl⟩
  | resize regionId newSize =>
    cases h
    unfold fluxVmRegionResize
    split
    · exact ⟨rfl, rfl⟩
    · simp only
      split
      · exact ⟨rfl, rfl⟩
      · split_ifs
        all_goals exact ⟨rfl, rfl⟩

end FluxVm

namespace TracedVm

variable {t t' : TracedVm} {host : Host} {action : LifecycleAction} {actions : List LifecycleAction}

/-! ## The invariant -/

theorem Sound.of_setsTraceIdx {vm' : FluxVm} (hs : t.Sound) (h : t.vm.SetsTraceIdx t.vm.traceIdx vm') :
    Sound ⟨vm', t.snapshots⟩ := by
  refine ⟨h.2.trans hs.idx, hs.le, ?_⟩
  show Holds _ vm'.trace _
  rw [h.1]
  exact hs.holds

theorem sound_nil {vm : FluxVm} (h : vm.traceIdx = 0) : Sound ⟨vm, []⟩ :=
  ⟨h, Nat.zero_le _, holds_nil⟩

/-- A snapshot that is written is one of the first 2^31 + 1. -/
theorem Sound.captures {i : FluxVmInsn} {vm₁ : FluxVm} (hs : t.Sound) (h : t.vm.Captures i vm₁) :
    Sound ⟨vm₁, if t.vm.tracing then t.snapshots ++ [t.vm.snapshot i.opcode] else t.snapshots⟩ := by
  cases htracing : t.vm.tracing with
  | false => exact hs.of_setsTraceIdx (setsTraceIdx_of_keepsTrace (h.off htracing))
  | true =>
    have hle : t.snapshots.length ≤ 2 ^ 31 := (traceIndex_nonneg_iff hs.idx hs.le).1 (h.inside htracing)
    have hindex : t.vm.traceIndex = (t.snapshots.length % 4096 : Nat) := by
      unfold FluxVm.traceIndex
      rw [hs.idx, ofNat_mod_toInt hle]
    refine ⟨?_, ?_, ?_⟩
    · show vm₁.traceIdx = _
      rw [h.traceIdx htracing, hs.idx, if_pos rfl, List.length_append, List.length_singleton, Int32.ofNat_add]
      rfl
    · rw [if_pos rfl, List.length_append, List.length_singleton]
      omega
    · show Holds _ vm₁.trace _
      rw [h.trace htracing, hindex, if_pos rfl]
      exact hs.holds.write

theorem Sound.execute (hs : t.Sound) (h : step host (.region .execute) t = some t') : t'.Sound := by
  obtain ⟨vm', hvm', rfl⟩ := Option.map_eq_some_iff.1 h
  obtain ⟨⟨rc, vm'⟩, hok, rfl⟩ := Option.map_eq_some_iff.1 (step_region ▸ hvm')
  have hok := toOption_eq_some.1 hok
  unfold LifecycleAction.record
  cases hi : t.vm.nextInsn with
  | none => exact hs.of_setsTraceIdx (fluxVmStep_setsTraceIdx_of_none hi hok)
  | some i =>
    obtain ⟨vm₁, hcaptures, hsets⟩ := fluxVmStep_captures hi hok
    by_cases hon : opcodeOf i.opcode = .flux .TRACE_ON
    · rw [if_pos hon] at hsets
      simp only [if_pos hon]
      exact sound_nil hsets.2
    · rw [if_neg hon] at hsets
      simp only [if_neg hon]
      exact (hs.captures hcaptures).of_setsTraceIdx hsets

theorem Sound.step (hs : t.Sound) (h : step host action t = some t') : t'.Sound := by
  cases action with
  | reset =>
    obtain ⟨vm', hvm', rfl⟩ := Option.map_eq_some_iff.1 h
    cases hvm'
    exact sound_nil rfl
  | region action =>
    by_cases hexec : action = .execute
    · subst hexec
      exact hs.execute h
    · obtain ⟨vm', hvm', rfl⟩ := Option.map_eq_some_iff.1 h
      have hrecord : (LifecycleAction.region action).record t = t.snapshots := by
        cases action with
        | execute => exact absurd rfl hexec
        | _ => rfl
      rw [hrecord]
      exact hs.of_setsTraceIdx (call_setsTraceIdx hexec (step_region ▸ hvm'))

/-! ## Runs -/

theorem Sound.traceRight_iff (hs : t.Sound) : t.TraceRight ↔ t.SnapshotsLimited := by
  have hiff := traceIndex_nonneg_iff hs.idx hs.le
  refine ⟨fun h htakes => hiff.1 (h.inside htakes).1, fun h => ⟨fun htakes => ?_, ?_⟩⟩
  · exact ⟨hiff.2 (h htakes), t.vm.traceIndex_lt⟩
  · unfold FluxVm.traced
    rw [hs.holds.read_latest (Nat.min_le_right ..) (Nat.min_le_left ..), latest_min]

theorem sound_of_init {heap : HostHeap} {vm : FluxVm} (h : fluxVmInit host heap = .ok vm) :
    Sound ⟨vm, []⟩ := by
  unfold fluxVmInit at h
  split at h
  · cases h
  · cases h
    exact sound_nil rfl

/-- Over all calls and steps of a VM, the trace is right if and only if no snapshot is taken when more than 2^31
have been taken since the last `TRACE_ON`. -/
theorem traceRight_holdsAlong_iff {heap : HostHeap} {vm : FluxVm} (hinit : fluxVmInit host heap = .ok vm) :
    HoldsAlong (step host) TraceRight actions ⟨vm, []⟩ ↔
      HoldsAlong (step host) SnapshotsLimited actions ⟨vm, []⟩ :=
  holdsAlong_congr_of_invariant (J := Sound) (fun _ _ _ hs h => hs.step h) (fun _ hs => hs.traceRight_iff)
    (sound_of_init hinit)

/-- `TRACE_ON`, and a jump to itself. -/
def spinCode : List UInt8 := [0xAA, 0, 0, 0, 0x40, 0, 0, 4]

/-- A trace of two jumps. -/
theorem traceRight_holdsAlong_iff_spin :
    HoldsAlong (step carefulHost) TraceRight
        [.region (.load (some fun k => spinCode.getD k 0) 8), .region .execute,
          .region .execute, .region .execute] ⟨newVm, []⟩ ↔
      HoldsAlong (step carefulHost) SnapshotsLimited
        [.region (.load (some fun k => spinCode.getD k 0) 8), .region .execute,
          .region .execute, .region .execute] ⟨newVm, []⟩ :=
  traceRight_holdsAlong_iff newVm_init

/-! ## A trace that does not end -/

/-- The VM is at the jump, with tracing on. -/
structure Spins (t : TracedVm) : Prop where
  sound : t.Sound
  state : t.vm.state = .running
  bytecode : t.vm.bytecode = fun k => spinCode.getD k 0
  bytecodeLen : t.vm.bytecodeLen = 8
  breakpoints : t.vm.breakpointAddrs = []
  pc : t.vm.pc = 4
  tracing : t.vm.tracing = true

theorem Spins.nextInsn (h : t.Spins) : t.vm.nextInsn = some (decodeInsn 0x40000004) := by
  have hstop : t.vm.stopped? = none := by
    simp [FluxVm.stopped?, h.state, h.breakpoints, h.pc, h.bytecodeLen]
  have hfetch : t.vm.fetchInstruction = .ok 0x40000004 := by
    simp only [FluxVm.fetchInstruction, FluxVm.codeAt, h.pc, h.bytecodeLen, h.bytecode]
    rfl
  unfold FluxVm.nextInsn
  rw [hstop, hfetch]

theorem Spins.takesSnapshot (h : t.Spins) : t.vm.TakesSnapshot :=
  ⟨h.tracing, _, h.nextInsn, by decide, by decide⟩

/-- While there are at most 2^31 snapshots the VM jumps and takes one more. -/
theorem Spins.execute (h : t.Spins) (hle : t.snapshots.length ≤ 2 ^ 31) :
    ∃ t', step host (.region .execute) t = some t' ∧ t'.Spins ∧
      t'.snapshots.length = t.snapshots.length + 1 := by
  obtain ⟨vm₁, hvm₁, hstep⟩ := @fluxVmStep_of_preparable t.vm host _ h.nextInsn
    ⟨by decide, by decide, fun _ => (traceIndex_nonneg_iff h.sound.idx h.sound.le).2 hle⟩
  have hjump : t.vm.fluxVmStep host = .ok (finish (none, { vm₁ with pc := 4 })) := by
    rw [hstep]
    rfl
  have hrun : step host (.region .execute) t = some
      ⟨(finish (none, { vm₁ with pc := 4 })).2, t.snapshots ++ [t.vm.snapshot 0x40]⟩ := by
    simp only [step, LifecycleAction.step, LifecycleAction.outcome, RegionAction.outcome, hjump,
      LifecycleAction.record, h.nextInsn, h.tracing]
    rfl
  refine ⟨_, hrun, ⟨h.sound.execute hrun, ?_, ?_, ?_, ?_, rfl, ?_⟩, by simp⟩
  all_goals
    obtain ⟨trace, traceIdx, rfl⟩ := hvm₁.eq
  · rfl
  · exact h.bytecode
  · exact h.bytecodeLen
  · exact h.breakpoints
  · exact h.tracing

theorem Spins.not_limited (k : Nat) (h : t.Spins) (hk : t.snapshots.length + k = 2 ^ 31 + 1) :
    ¬ HoldsAlong (step host) SnapshotsLimited (List.replicate k (.region .execute)) t := by
  induction k generalizing t with
  | zero =>
    intro hall
    have hle : t.snapshots.length ≤ 2 ^ 31 := hall.head h.takesSnapshot
    omega
  | succ k ih =>
    rintro ⟨-, hall⟩
    obtain ⟨t', hstep, ht', hlen⟩ := h.execute (by omega)
    exact ih ht' (by omega) (hall t' hstep)

/-- The loaded program gets to the jump with its first step. -/
theorem spins_start : ∃ t t' : TracedVm,
    step carefulHost (.region (.load (some fun k => spinCode.getD k 0) 8)) ⟨newVm, []⟩ = some t ∧
      step carefulHost (.region .execute) t = some t' ∧ t'.Spins ∧ t'.snapshots = [] := by
  refine ⟨⟨(newVm.fluxVmLoad (some fun k => spinCode.getD k 0) 8).2, []⟩, ?_⟩
  have hi : (newVm.fluxVmLoad (some fun k => spinCode.getD k 0) 8).2.nextInsn = some (decodeInsn 0xAA000000) := rfl
  obtain ⟨vm₁, hvm₁, hstep⟩ := @fluxVmStep_of_preparable _ carefulHost _ hi
    ⟨by decide, by decide, fun htracing => by cases htracing⟩
  have hon : (newVm.fluxVmLoad (some fun k => spinCode.getD k 0) 8).2.fluxVmStep carefulHost =
      .ok (finish (none, { vm₁ with tracing := true, traceIdx := 0 })) := by
    rw [hstep]
    rfl
  refine ⟨⟨(finish (none, { vm₁ with tracing := true, traceIdx := 0 })).2, []⟩, rfl, ?_, ?_, rfl⟩
  · simp only [step, LifecycleAction.step, LifecycleAction.outcome, RegionAction.outcome, hon,
      LifecycleAction.record, hi]
    rfl
  · obtain ⟨trace, traceIdx, rfl⟩ := hvm₁.eq
    exact ⟨sound_nil rfl, rfl, rfl, rfl, rfl, rfl, rfl⟩

/-- After 2^31 + 1 snapshots of the jump the next one is written in front of the buffer. -/
theorem spin_not_traceRight : ¬ HoldsAlong (step carefulHost) TraceRight
    (.region (.load (some fun k => spinCode.getD k 0) 8) :: .region .execute ::
      List.replicate (2 ^ 31 + 1) (.region .execute)) ⟨newVm, []⟩ := by
  rw [holdsAlong_congr_of_invariant (J := Sound) (fun _ _ _ hs h => hs.step h) (fun _ hs => hs.traceRight_iff)
    (sound_of_init newVm_init)]
  obtain ⟨t, t', hload, hon, hspins, hnone⟩ := spins_start
  rintro ⟨-, hall⟩
  obtain ⟨-, hall⟩ := hall t hload
  exact hspins.not_limited (2 ^ 31 + 1) (by rw [hnone]; rfl) (hall t' hon)

end TracedVm

end FluxOs
