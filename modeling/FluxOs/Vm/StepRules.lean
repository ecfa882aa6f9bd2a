import FluxOs.Vm.Effects

/-!
# Rules for the interpreter step

The instruction a step is about to execute, the state in which it dispatches, and the rule that
reduces a property of `fluxVmStep` to a property of the opcode cases.  `Reachable` is the set of
states that steps lead to from a loaded program.
-/

namespace FluxOs

open Faulting

namespace FluxVm

/-- `vm` is what `flux_vm_init` and a successful `flux_vm_load` leave. -/
def Loaded (host : Host) (vm : FluxVm) : Prop :=
  ∃ heap vm₀ bytecode len, fluxVmInit host heap = .ok vm₀ ∧
    vm₀.fluxVmLoad (some bytecode) len = (.ok, vm)

/-- `vm` is reached from a loaded program by any number of steps. -/
def Reachable (host : Host) (vm : FluxVm) : Prop :=
  ∃ vm₀, Loaded host vm₀ ∧ Run (fluxVmStep · host) vm₀ vm

/-- `vm` is reached from a loaded program by steps that start in states satisfying `guard`. -/
def ReachableUnder (host : Host) (guard : FluxVm → Prop) (vm : FluxVm) : Prop :=
  ∃ vm₀, Loaded host vm₀ ∧ GuardedRun (fluxVmStep · host) guard vm₀ vm

/-- The parts of a loaded VM that the invariants start from. -/
theorem Loaded.spec {host : Host} {vm : FluxVm} (h : Loaded host vm) :
    vm.regs = initRegs fluxStackSize ∧ vm.stackSize = fluxStackSize ∧ vm.stackPtr = 0 ∧
      vm.callDepth = 0 ∧ vm.activeRegion = -1 ∧ (∀ s, vm.regions s = .zero) ∧
      vm.breakpointAddrs = [] ∧ 4 ≤ vm.bytecodeLen := by
  obtain ⟨heap, vm₀, bytecode, len, hinit, hload⟩ := h
  unfold fluxVmInit at hinit
  split at hinit
  · cases hinit
  · cases hinit
    unfold fluxVmLoad at hload
    split_ifs at hload with hlen
    · cases hload
    · cases hload
      exact ⟨rfl, rfl, rfl, rfl, rfl, fun _ => rfl, rfl, UInt64.not_lt.1 hlen⟩

/-- An invariant of the steps that holds after loading holds in every reachable state. -/
theorem Reachable.invariant {host : Host} {I : FluxVm → Prop} {vm : FluxVm}
    (h : Reachable host vm) (hload : ∀ vm, Loaded host vm → I vm)
    (hstep : ∀ vm rc vm', I vm → vm.fluxVmStep host = .ok (rc, vm') → I vm') : I vm := by
  obtain ⟨vm₀, hvm₀, hrun⟩ := h
  exact hrun.invariant hstep (hload vm₀ hvm₀)

/-! ## Programs given by their bytes -/

/-- A host on which every allocation succeeds. -/
def plentifulHost : Host := ⟨fun _ _ => some 4096, fun _ addr _ => some addr⟩

/-- The VM that `flux_vm_init` leaves on `plentifulHost`, with the given code loaded. -/
def boot (code : List UInt8) : FluxVm where
  __ := FluxVm.zero ⟨1, [4096]⟩
  regs := initRegs fluxStackSize
  stackSize := fluxStackSize
  activeRegion := -1
  bytecode k := code.getD k 0
  bytecodeLen := UInt64.ofNat code.length

theorem boot_loaded (code : List UInt8) (h : ¬ UInt64.ofNat code.length < 4) :
    Loaded plentifulHost (boot code) :=
  ⟨⟨0, []⟩, _, fun k => code.getD k 0, UInt64.ofNat code.length, rfl, if_neg h⟩

/-- The VM after `n` steps of a program. -/
def bootSteps (code : List UInt8) (n : Nat) : FluxVm :=
  (next (fluxVmStep · plentifulHost))^[n] (boot code)

theorem bootSteps_reachable (code : List UInt8) (n : Nat) (h : ¬ UInt64.ofNat code.length < 4)
    (hn : stepsReturn (fluxVmStep · plentifulHost) n (boot code) = true) :
    Reachable plentifulHost (bootSteps code n) :=
  ⟨boot code, boot_loaded code h, run_of_stepsReturn n hn⟩

/-! ## The instruction about to execute -/

variable (vm : FluxVm)

/-- The value of a register operand inside the register file. -/
def regValue (r : UInt8) : UInt64 :=
  if h : r.toNat < 64 then (if r = 0 then 0 else vm.regs ⟨r.toNat, h⟩) else 0

/-- The instruction that the next step executes, unless it returns or faults before. -/
def nextInsn : Option FluxVmInsn :=
  match vm.stopped? with
  | some _ => none
  | none => match vm.fetchInstruction with
    | .ok w => some (decodeInsn w)
    | .error _ => none

variable {vm}

theorem fluxVmGetReg_ok {r : UInt8} {v : UInt64} (h : vm.fluxVmGetReg r = .ok v) :
    r.toNat < 64 ∧ v = vm.regValue r := by
  unfold fluxVmGetReg at h
  unfold regValue
  split_ifs at h with h0 h64
  · simp [h0, ← Except.ok.inj h]
  · exact ⟨h64, by rw [dif_pos h64, if_neg h0, Except.ok.inj h]⟩

theorem fluxVmGetReg_of_lt {r : UInt8} (h : r.toNat < 64) :
    vm.fluxVmGetReg r = .ok (vm.regValue r) := by
  obtain ⟨v, hv⟩ := (show ∃ v, vm.fluxVmGetReg r = .ok v by
    unfold fluxVmGetReg
    split_ifs
    · exact ⟨_, rfl⟩
    · exact ⟨_, rfl⟩)
  rw [hv, (fluxVmGetReg_ok hv).2]

theorem fluxVmGetReg_of_not_lt {r : UInt8} (h : ¬ r.toNat < 64) :
    vm.fluxVmGetReg r = .error (.reg r.toNat) := by
  unfold fluxVmGetReg
  rw [if_neg (by rintro rfl; exact h (by decide)), dif_neg h]

/-- The VM in which instruction `i` of `vm` dispatches: the state is `RUNNING`, the counts include the
instruction, a trace entry may have been added, and `pc` points behind the instruction. -/
structure Dispatches (vm : FluxVm) (i : FluxVmInsn) (vm₁ : FluxVm) : Prop where
  rs1 : i.rs1.toNat < 64
  rs2 : i.rs2.toNat < 64
  eq : ∃ trace traceIdx, vm₁ = { vm with
    state := .running
    cycleCount := vm.cycleCount + 1
    insnCount := vm.insnCount + 1
    opCounts := Function.update vm.opCounts i.opcode (vm.opCounts i.opcode + 1)
    lastOpCycles := 1
    trace
    traceIdx
    pc := vm.pc + 4 }

theorem traceSnapshot_ensures (opcode : UInt8) :
    Ensures (fun fault => ∃ k, fault = .traceEntry k)
      (fun vm' => ∃ trace traceIdx, vm' = { vm with trace, traceIdx })
      (vm.traceSnapshot opcode) := by
  unfold traceSnapshot
  split_ifs
  · exact ⟨vm.trace, vm.traceIdx, rfl⟩
  · simp only
    split_ifs
    · exact ⟨_, _, rfl⟩
    · exact ⟨_, rfl⟩

theorem fetchInstruction_error {fault : Fault} (h : vm.fetchInstruction = .error fault) :
    ∃ k, fault = .codeByte k := by
  have code (pc : UInt64) : Ensures (fun fault => ∃ k, fault = .codeByte k) (fun _ => True)
      (vm.codeAt pc) := by
    unfold codeAt
    split_ifs
    · trivial
    · exact ⟨_, rfl⟩
  have hfetch : Ensures (fun fault => ∃ k, fault = .codeByte k) (fun _ => True)
      vm.fetchInstruction := by
    unfold fetchInstruction
    simp only
    split_ifs
    · trivial
    · exact (code _).bind fun _ _ => (code _).bind fun _ _ => (code _).bind fun _ _ =>
        (code _).bind fun _ _ => trivial
  exact hfetch.of_error h

/-- The part of a step before the switch, from the VM whose state was set to `RUNNING`. -/
theorem prepare_ensures (vm : FluxVm) {i : FluxVmInsn} {E : Fault → Prop}
    (hreg : ∀ r, r = i.rs1 ∨ r = i.rs2 → 64 ≤ r.toNat → E (.reg r.toNat))
    (htrace : ∀ k, E (.traceEntry k)) :
    Ensures E (fun p => ∃ vm₁, vm.Dispatches i vm₁ ∧
        p = (vm.regValue i.rs1, vm.regValue i.rs2, vm₁))
      (({ vm with state := .running } : FluxVm).prepare i) := by
  unfold prepare
  by_cases h1 : i.rs1.toNat < 64
  · by_cases h2 : i.rs2.toNat < 64
    · rw [fluxVmGetReg_of_lt h1, fluxVmGetReg_of_lt h2]
      simp only [ensures_bind, ensures_ok]
      refine (traceSnapshot_ensures i.opcode).mono ?_ ?_
      · rintro _ ⟨k, rfl⟩
        exact htrace k
      · rintro _ ⟨trace, traceIdx, rfl⟩
        exact ⟨_, ⟨h1, h2, trace, traceIdx, rfl⟩, rfl⟩
    · rw [fluxVmGetReg_of_lt h1, fluxVmGetReg_of_not_lt h2]
      exact hreg _ (.inr rfl) (by omega)
  · rw [fluxVmGetReg_of_not_lt h1]
    exact hreg _ (.inl rfl) (by omega)

/-- A step does what its instruction does: the rule for `fluxVmStep`. -/
theorem fluxVmStep_ensures {host : Host} {E : Fault → Prop} {Q : FluxStatus × FluxVm → Prop}
    (hstop : ∀ r, vm.stopped? = some r → Q r)
    (hfetch : ∀ fault, vm.stopped? = none → vm.fetchInstruction = .error fault → E fault)
    (hreg : ∀ i, vm.nextInsn = some i → ∀ r, r = i.rs1 ∨ r = i.rs2 → 64 ≤ r.toNat →
      E (.reg r.toNat))
    (htrace : ∀ k, E (.traceEntry k))
    (hexec : ∀ i vm₁, vm.nextInsn = some i → vm.Dispatches i vm₁ →
      Ensures E (fun r => Q (finish r))
        (vm₁.execute host i (vm.regValue i.rs1) (vm.regValue i.rs2))) :
    Ensures E Q (vm.fluxVmStep host) := by
  unfold fluxVmStep
  cases hs : vm.stopped? with
  | some r => exact hstop r hs
  | none =>
    cases hw : vm.fetchInstruction with
    | error fault =>
      have : ({ vm with state := .running } : FluxVm).fetchInstruction = .error fault := hw
      simp only [this]
      exact hfetch fault hs hw
    | ok w =>
      have hrun : ({ vm with state := .running } : FluxVm).fetchInstruction = .ok w := hw
      have hnext : vm.nextInsn = some (decodeInsn w) := by simp [nextInsn, hs, hw]
      simp only [hrun]
      refine (prepare_ensures vm (hreg _ hnext) htrace).bind ?_
      rintro _ ⟨vm₁, hvm₁, rfl⟩
      exact (ensures_bind ..).2 (hexec _ vm₁ hnext hvm₁)

/-- The registers that the step reads before it dispatches are in the register file, and so is the place of the
trace entry in the trace buffer. -/
structure Preparable (vm : FluxVm) (i : FluxVmInsn) : Prop where
  rs1 : i.rs1.toNat < 64
  rs2 : i.rs2.toNat < 64
  trace : vm.tracing = true → 0 ≤ (vm.traceIdx % 4096).toInt

theorem traceSnapshot_eq_ok (vm : FluxVm) (opcode : UInt8) (h : vm.tracing = true → 0 ≤ (vm.traceIdx % 4096).toInt) :
    ∃ trace traceIdx, vm.traceSnapshot opcode = .ok { vm with trace, traceIdx } := by
  unfold traceSnapshot
  split_ifs with htracing
  · exact ⟨vm.trace, vm.traceIdx, rfl⟩
  · simp only
    rw [if_pos (h (by simpa using htracing))]
    exact ⟨_, _, rfl⟩

theorem traceSnapshot_eq_error (vm : FluxVm) (opcode : UInt8)
    (h : ¬ (vm.tracing = true → 0 ≤ (vm.traceIdx % 4096).toInt)) :
    ∃ fault, vm.traceSnapshot opcode = .error fault := by
  obtain ⟨htracing, hneg⟩ := Classical.not_imp.1 h
  unfold traceSnapshot
  rw [if_neg (by simp [htracing])]
  simp only
  rw [if_neg hneg]
  exact ⟨_, rfl⟩

theorem prepare_eq_ok {i : FluxVmInsn} (h : vm.Preparable i) :
    ∃ vm₁, vm.Dispatches i vm₁ ∧
      ({ vm with state := .running } : FluxVm).prepare i = .ok (vm.regValue i.rs1, vm.regValue i.rs2, vm₁) := by
  obtain ⟨trace, traceIdx, hsnapshot⟩ :=
    traceSnapshot_eq_ok (({ vm with state := .running } : FluxVm).countInsn i.opcode) i.opcode h.trace
  unfold prepare
  rw [fluxVmGetReg_of_lt h.rs1, fluxVmGetReg_of_lt h.rs2, hsnapshot]
  exact ⟨_, ⟨h.rs1, h.rs2, trace, traceIdx, rfl⟩, rfl⟩

theorem prepare_eq_error {i : FluxVmInsn} (h : ¬ vm.Preparable i) :
    ∃ fault, ({ vm with state := .running } : FluxVm).prepare i = .error fault := by
  unfold prepare
  by_cases h1 : i.rs1.toNat < 64
  · by_cases h2 : i.rs2.toNat < 64
    · obtain ⟨fault, hsnapshot⟩ :=
        traceSnapshot_eq_error (({ vm with state := .running } : FluxVm).countInsn i.opcode) i.opcode
          fun htrace => h ⟨h1, h2, htrace⟩
      rw [fluxVmGetReg_of_lt h1, fluxVmGetReg_of_lt h2, hsnapshot]
      exact ⟨fault, rfl⟩
    · rw [fluxVmGetReg_of_lt h1, fluxVmGetReg_of_not_lt h2]
      exact ⟨_, rfl⟩
  · rw [fluxVmGetReg_of_not_lt h1]
    exact ⟨_, rfl⟩

theorem stopped?_of_nextInsn {i : FluxVmInsn} (h : vm.nextInsn = some i) : vm.stopped? = none := by
  unfold nextInsn at h
  split at h
  · cases h
  · assumption

theorem fluxVmStep_eq {host : Host} {i : FluxVmInsn} (hi : vm.nextInsn = some i) :
    vm.fluxVmStep host = ({ vm with state := .running } : FluxVm).prepare i >>= fun p =>
      finish <$> p.2.2.execute host i p.1 p.2.1 := by
  have hstop := stopped?_of_nextInsn hi
  unfold nextInsn at hi
  rw [hstop] at hi
  unfold fluxVmStep
  rw [hstop]
  cases hw : vm.fetchInstruction with
  | error fault => simp [hw] at hi
  | ok w =>
    have hrun : ({ vm with state := .running } : FluxVm).fetchInstruction = .ok w := hw
    obtain rfl : decodeInsn w = i := by simpa [hw] using hi
    simp only [hrun]
    rfl

/-- A step that gets to the switch does what the instruction does. -/
theorem fluxVmStep_of_preparable {host : Host} {i : FluxVmInsn} (hi : vm.nextInsn = some i) (h : vm.Preparable i) :
    ∃ vm₁, vm.Dispatches i vm₁ ∧ vm.fluxVmStep host =
      finish <$> vm₁.execute host i (vm.regValue i.rs1) (vm.regValue i.rs2) := by
  obtain ⟨vm₁, hvm₁, hprepare⟩ := prepare_eq_ok h
  refine ⟨vm₁, hvm₁, ?_⟩
  rw [fluxVmStep_eq hi, hprepare]
  rfl

theorem fluxVmStep_eq_error {host : Host} {i : FluxVmInsn} (hi : vm.nextInsn = some i) (h : ¬ vm.Preparable i) :
    ∃ fault, vm.fluxVmStep host = .error fault := by
  obtain ⟨fault, hprepare⟩ := prepare_eq_error h
  refine ⟨fault, ?_⟩
  rw [fluxVmStep_eq hi, hprepare]
  rfl

/-- A step that returns and has an instruction to execute does what that instruction does. -/
theorem fluxVmStep_executes {host : Host} {i : FluxVmInsn} {Q : FluxStatus × FluxVm → Prop}
    (hi : vm.nextInsn = some i)
    (hexec : ∀ vm₁, vm.Dispatches i vm₁ → Ensures (fun _ => True) (fun r => Q (finish r))
      (vm₁.execute host i (vm.regValue i.rs1) (vm.regValue i.rs2))) :
    Ensures (fun _ => True) Q (vm.fluxVmStep host) := by
  refine fluxVmStep_ensures (fun r hr => ?_) (fun _ _ _ => trivial) (fun _ _ _ _ _ => trivial)
    (fun _ => trivial) fun j vm₁ hj hvm₁ => ?_
  · rw [stopped?_of_nextInsn hi] at hr
    cases hr
  · rw [hi] at hj
    cases hj
    exact hexec vm₁ hvm₁

end FluxVm

end FluxOs
