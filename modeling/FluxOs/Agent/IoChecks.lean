import FluxOs.Agent.SandboxRules

/-!
# Capabilities for I/O

The sandbox looks at the capability bits of an agent before it executes one of eight I/O opcodes, and refuses it
if the agent has neither the bit for reading nor the bit for writing.  The 64-bit and the DMA opcodes are executed
unchecked.
-/

namespace FluxOs

open Actions AgentRuntime

/-! ## I/O instructions -/

/-- The capability that an I/O opcode needs. -/
def ioCapability (opcode : UInt8) : Option UInt64 :=
  match opcodeOf opcode with
  | .io .IO_READ | .io .IO_READ8 | .io .IO_READ16 | .io .IO_READ32 | .io .IO_READ64 | .io .IO_DMA_READ =>
    some fluxCapIoRead
  | .io .IO_WRITE | .io .IO_WRITE8 | .io .IO_WRITE16 | .io .IO_WRITE32 | .io .IO_WRITE64
  | .io .IO_DMA_WRITE => some fluxCapIoWrite
  | _ => none

/-- The agent has neither of the I/O capabilities. -/
def LacksIo (capabilities : UInt64) : Prop :=
  capabilities &&& fluxCapIoRead = 0 ∧ capabilities &&& fluxCapIoWrite = 0

namespace SandboxEvent

/-- The VM that the sandbox steps or stops. -/
def vm : SandboxEvent → FluxVm
  | .vmStep vm _ _ => vm
  | .violation vm _ _ => vm

/-- The capability bits of its agent. -/
def capabilities : SandboxEvent → UInt64
  | .vmStep _ capabilities _ => capabilities
  | .violation _ capabilities _ => capabilities

/-- The VM stands at an I/O instruction that needs the capability, and the agent does not hold it. -/
def Unauthorized (e : SandboxEvent) (insn : FluxVmInsn) : Prop :=
  e.vm.nextInsn = some insn ∧ ∃ cap, ioCapability insn.opcode = some cap ∧ e.capabilities &&& cap = 0

/-- The instruction is one of the eight opcodes that are checked, and the agent has neither I/O capability. -/
def Checks (e : SandboxEvent) (insn : FluxVmInsn) : Prop :=
  isIoOpcode insn.opcode = true ∧ LacksIo e.capabilities

end SandboxEvent

/-- The instruction would exceed a limit on a resource: the one on CPU ticks, on memory, or on the rate of I/O. -/
def AgentSlot.ReachesLimit (slot : AgentSlot) (insn : FluxVmInsn) : Prop :=
  slot.CpuExceeded ∨ slot.MemoryExceeded ∨ isIoOpcode insn.opcode = true ∧ slot.sandboxCheckIo = true

/-- The sandbox stops the agent exactly at an instruction that exceeds a limit or fails the check. -/
def SandboxEvent.IoSound (e : SandboxEvent) (slot : AgentSlot) : Prop :=
  ∀ insn, e.vm.nextInsn = some insn → (e.Violates ↔ slot.ReachesLimit insn ∨ e.Checks insn)

/-! ## One run -/

namespace AgentSlot

variable {slot slot' : AgentSlot} {host : Host} {now : UInt64} {r : Except Fault FluxStatus × AgentSlot}

/-- The check of an I/O opcode passes exactly with one of the capabilities and below the limit on I/O. -/
theorem ioViolation_eq_none_iff :
    slot.ioViolation = none ↔ ¬ LacksIo slot.desc.capabilities ∧ slot.sandboxCheckIo = false := by
  unfold ioViolation LacksIo
  split_ifs with hlacks hio
  · simp [hlacks]
  · simp [hio]
  · simpa [hlacks] using hio

/-- Where nothing exceeds a limit and the check passes, the step of the VM is sound. -/
theorem ioSound_vmStep (hcpu : ¬ slot.CpuExceeded) (hmemory : ¬ slot.MemoryExceeded)
    (hio : ∀ opcode, slot.vm.sandboxPeek = .ok (some opcode) → isIoOpcode opcode = true →
      slot.ioViolation = none) : (slot.vmStepEvent host).IoSound slot := by
  refine fun insn hnext => iff_of_false id ?_
  have hpass (hopcode : isIoOpcode insn.opcode = true) :
      ¬ LacksIo slot.desc.capabilities ∧ slot.sandboxCheckIo = false :=
    ioViolation_eq_none_iff.1 (hio insn.opcode (FluxVm.sandboxPeek_of_nextInsn hnext) hopcode)
  rintro ((hlimit | hlimit | ⟨hopcode, hrate⟩) | ⟨hopcode, hlacks⟩)
  · exact hcpu hlimit
  · exact hmemory hlimit
  · simp [(hpass hopcode).2] at hrate
  · exact (hpass hopcode).1 hlacks

/-- A violation of the limit on CPU ticks or on memory is sound. -/
theorem ioSound_limit {vm : FluxVm} {capabilities : UInt64} {code : UInt8}
    (h : slot.CpuExceeded ∨ slot.MemoryExceeded) :
    (SandboxEvent.violation vm capabilities code).IoSound slot := by
  refine fun insn _ => iff_of_true trivial (.inl ?_)
  exact h.imp_right .inl

/-- A violation that the check of an I/O opcode finds is sound. -/
theorem ioSound_denied {opcode code : UInt8} (hpeek : slot.vm.sandboxPeek = .ok (some opcode))
    (hio : isIoOpcode opcode = true) (hviolation : slot.ioViolation = some code) :
    (SandboxEvent.violation slot.vm slot.desc.capabilities code).IoSound slot := by
  refine fun insn hnext => iff_of_true trivial ?_
  cases (FluxVm.sandboxPeek_of_nextInsn hnext).symm.trans hpeek
  by_cases hlacks : LacksIo slot.desc.capabilities
  · exact .inr ⟨hio, hlacks⟩
  · refine .inl (.inr (.inr ⟨hio, ?_⟩))
    by_contra hrate
    have hnone : slot.ioViolation = none := ioViolation_eq_none_iff.2 ⟨hlacks, by simpa using hrate⟩
    rw [hviolation] at hnone
    cases hnone

/-- The limits are the same after the memory check. -/
theorem ioSound_measured {e : SandboxEvent} (h : e.IoSound slot.measured) : e.IoSound slot := by
  intro insn hnext
  have hlimit : slot.measured.ReachesLimit insn ↔ slot.ReachesLimit insn := by
    unfold ReachesLimit
    rw [cpuExceeded_measured, memoryExceeded_measured, measured_keeps sandboxCheckIo fun _ _ => rfl]
  rw [h insn hnext, hlimit]

/-- A round logs at most one event, which is sound; it is a violation only if the agent is `FAILED`.  Before the
next round it has logged one that is none. -/
def LogsRight (slot : AgentSlot) (r : Except Fault FluxStatus × AgentSlot) : Prop :=
  r.2.log = slot.log ∧ r.1 ≠ .ok .ok ∨
    ∃ e, r.2.log = slot.log ++ [e] ∧ e.IoSound slot ∧ (e.Violates → r.2.desc.state = .failed ∧ r.1 ≠ .ok .ok)

theorem logsRight_quiet (hlog : r.2.log = slot.log) (hresult : r.1 ≠ .ok .ok) : LogsRight slot r :=
  .inl ⟨hlog, hresult⟩

theorem logsRight_violation {status : FluxStatus} {code : UInt8} (hlog : slot'.log = slot.log)
    (hresult : status ≠ .ok)
    (hsound : (SandboxEvent.violation slot'.vm slot'.desc.capabilities code).IoSound slot) :
    LogsRight slot (.ok status, slot'.sandboxHandleViolation code) :=
  .inr ⟨_, by rw [log_sandboxHandleViolation, hlog], hsound,
    fun _ => ⟨state_sandboxHandleViolation, by simpa using hresult⟩⟩

theorem logsRight_vmStep (hlog : r.2.log = slot.log ++ [slot.vmStepEvent host])
    (hsound : (slot.vmStepEvent host).IoSound slot) : LogsRight slot r :=
  .inr ⟨_, hlog, hsound, False.elim⟩

theorem Checked.logsRight (hcpu : ¬ slot.CpuExceeded) (hmemory : ¬ slot.MemoryExceeded)
    (h : Checked host now slot r) : LogsRight slot r := by
  cases h with
  | halted => exact logsRight_quiet rfl (by simp)
  | refused => exact logsRight_quiet rfl (by simp)
  | denied opcode code _ hpeek hio hviolation =>
    exact logsRight_violation rfl (by simp) (ioSound_denied hpeek hio hviolation)
  | io opcode _ hpeek hio hviolation =>
    have hsound : (slot.vmStepEvent host).IoSound slot := ioSound_vmStep hcpu hmemory fun _ _ _ => hviolation
    exact logsRight_vmStep log_stepPlain hsound
  | a2a opcode _ hpeek ha2a =>
    refine logsRight_vmStep log_stepA2a (ioSound_vmStep hcpu hmemory fun opcode' hpeek' hio => ?_)
    cases hpeek.symm.trans hpeek'
    rw [isA2aOpcode_of_isIoOpcode hio] at ha2a
    cases ha2a
  | plain _ hother =>
    refine logsRight_vmStep log_stepPlain (ioSound_vmStep hcpu hmemory fun opcode hpeek hio => ?_)
    rw [(hother opcode hpeek).1] at hio
    cases hio

theorem LogsRight.measured (h : LogsRight slot.measured r) : LogsRight slot r := by
  have hlog : slot.measured.log = slot.log := measured_keeps log (fun _ _ => rfl) slot
  obtain ⟨hsame, hresult⟩ | ⟨e, hevent, hsound, hviolates⟩ := h
  · exact logsRight_quiet (hsame.trans hlog) hresult
  · exact .inr ⟨e, by rw [hevent, hlog], ioSound_measured hsound, hviolates⟩

theorem Rounds.logsRight (h : Rounds host now slot r) : LogsRight slot r := by
  cases h with
  | cpu hcpu => exact logsRight_violation rfl (by simp) (ioSound_limit (.inl hcpu))
  | memory hmemory =>
    exact logsRight_violation (measured_keeps log (fun _ _ => rfl) slot) (by simp)
      (ioSound_limit (.inr hmemory))
  | noVm => exact logsRight_quiet rfl (by simp)
  | checked _ _ hcpu hmemory hchecked =>
    exact (hchecked.logsRight (mt cpuExceeded_measured.1 hcpu)
      (mt memoryExceeded_measured.1 hmemory)).measured

/-- The slot has the log of an earlier one and one event for each round, the event of a round is sound for the
slot `before` it, and a violation leaves the agent `FAILED`. -/
def IoRight (before : Nat → Option AgentSlot) (slot slot' : AgentSlot) : Prop :=
  ∃ es, slot'.log = slot.log ++ es ∧ ∀ k e, es[k]? = some e →
    (∃ s, before k = some s ∧ e.IoSound s) ∧ (e.Violates → slot'.desc.state = .failed)

theorem ioRight_of_log {before : Nat → Option AgentSlot} (h : slot'.log = slot.log) :
    IoRight before slot slot' :=
  ⟨[], by rw [h, List.append_nil], by simp⟩

/-- After `n` rounds that went on, each has logged a sound event that is no violation. -/
def RoundsRight (before : Nat → Option AgentSlot) (slot : AgentSlot) (n : Nat) (s : AgentSlot) : Prop :=
  before n = some s ∧ ∃ es, es.length = n ∧ s.log = slot.log ++ es ∧
    ∀ k e, es[k]? = some e → (∃ s', before k = some s' ∧ e.IoSound s') ∧ ¬ e.Violates

namespace RoundsRight

variable {before : Nat → Option AgentSlot} {n : Nat} {s : AgentSlot}

theorem ioRight (h : RoundsRight before slot n s) (hlog : slot'.log = s.log) : IoRight before slot slot' := by
  obtain ⟨-, es, -, heq, hes⟩ := h
  exact ⟨es, hlog.trans heq, fun k e he => ⟨(hes k e he).1, fun hviolates => absurd hviolates (hes k e he).2⟩⟩

/-- A further event belongs to the slot after the `n` rounds. -/
theorem event_of_snoc {es : List SandboxEvent} {e e' : SandboxEvent} {k : Nat} {P : SandboxEvent → Prop}
    (hes : ∀ k e, es[k]? = some e → (∃ s', before k = some s' ∧ e.IoSound s') ∧ P e)
    (hbefore : before es.length = some s) (hsound : e.IoSound s) (hP : P e)
    (h : (es ++ [e])[k]? = some e') : (∃ s', before k = some s' ∧ e'.IoSound s') ∧ P e' := by
  rcases Nat.lt_or_ge k es.length with hk | hk
  · rw [List.getElem?_append_left hk] at h
    exact hes k e' h
  · rw [List.getElem?_append_right hk, List.getElem?_singleton] at h
    split_ifs at h with hzero
    cases h
    obtain rfl : k = es.length := by omega
    exact ⟨⟨s, hbefore, hsound⟩, hP⟩

theorem next (h : RoundsRight before slot n s) (hround : LogsRight s r) (hok : r.1 = .ok .ok)
    (hnext : before (n + 1) = some r.2) : RoundsRight before slot (n + 1) r.2 := by
  obtain ⟨hbefore, es, rfl, heq, hes⟩ := h
  obtain ⟨-, hne⟩ | ⟨e, hevent, hsound, hviolates⟩ := hround
  · exact absurd hok hne
  · exact ⟨hnext, es ++ [e], by simp, by rw [hevent, heq, List.append_assoc], fun k e' he' =>
      event_of_snoc hes hbefore hsound (fun h => (hviolates h).2 hok) he'⟩

theorem last (h : RoundsRight before slot n s) (hround : LogsRight s r) : IoRight before slot r.2 := by
  obtain ⟨hlog, -⟩ | ⟨e, hevent, hsound, hviolates⟩ := hround
  · exact h.ioRight hlog
  · obtain ⟨hbefore, es, rfl, heq, hes⟩ := h
    exact ⟨es ++ [e], by rw [hevent, heq, List.append_assoc], fun k e' he' =>
      event_of_snoc (fun k e he => ⟨(hes k e he).1, fun hviolates => absurd hviolates (hes k e he).2⟩)
        hbefore hsound (fun h => (hviolates h).1) he'⟩

end RoundsRight

/-- A round of a run adds its event; if it was the last one, the run is over. -/
theorem RoundsRight.round {n : Nat} {s : AgentSlot}
    (h : RoundsRight (fun k => afterRounds host now k (slot.startRun now)) slot n s)
    (heq : (s.withinLimits fun slot => slot.sandboxStep host now) = r) :
    (r.1 = .ok .ok → RoundsRight (fun k => afterRounds host now k (slot.startRun now)) slot (n + 1) r.2) ∧
      (r.1 ≠ .ok .ok → IoRight (fun k => afterRounds host now k (slot.startRun now)) slot r.2) := by
  have hlogs : LogsRight s r := (rounds_of_eq heq).logsRight
  constructor
  · intro hok
    have hgoes : (s.withinLimits fun slot => slot.sandboxStep host now) = (.ok .ok, r.2) :=
      heq.trans (Prod.ext hok rfl)
    exact h.next hlogs hok (afterRounds_snoc h.1 hgoes)
  · exact fun _ => h.last hlogs

theorem run_ioRight {maxTicks : UInt32} (h : slot.run host now maxTicks = some r) :
    IoRight (fun k => afterRounds host now k (slot.startRun now)) slot r.2 := by
  have hstart : RoundsRight (fun k => afterRounds host now k (slot.startRun now)) slot 0 (slot.startRun now) :=
    ⟨rfl, [], rfl, by rw [log_startRun, List.append_nil], by simp⟩
  obtain ⟨r', hright, hne, rfl⟩ := run_rule
    (I := fun s => ∃ n, RoundsRight (fun k => afterRounds host now k (slot.startRun now)) slot n s)
    (Q := fun r => IoRight (fun k => afterRounds host now k (slot.startRun now)) slot r.2)
    (fun s hs => hs.elim fun _ hs => hs.ioRight rfl)
    (fun s r hs heq => hs.elim fun n hs => (hs.round heq).imp_left fun hgoes hok => ⟨n + 1, hgoes hok⟩)
    ⟨0, hstart⟩ h
  rcases (finishRun_eq hne).2 with heq | ⟨-, heq⟩
  · rw [heq]
    exact hright
  · rw [heq]
    exact hright

theorem step_ioRight :
    IoRight (fun k => if k = 0 then some (slot.startStep now) else none) slot (slot.step host now).2 := by
  have hstart : RoundsRight (fun k => if k = 0 then some (slot.startStep now) else none) slot 0
      (slot.startStep now) :=
    ⟨rfl, [], rfl, by rw [log_startStep, List.append_nil], by simp⟩
  have hround : LogsRight (slot.startStep now) (slot.step host now) := (sandboxStep_rounds _ host now).logsRight
  exact hstart.last hround

end AgentSlot

/-! ## Calls of the runtime -/

namespace AgentSystem

variable {s : AgentSystem} {a : AgentAction} {rt : AgentRuntime} {i : AgentIdx} {host : Host}

/-- In the call, no agent executes an I/O instruction without the capability that it needs; it becomes `FAILED`
instead. -/
def IoLawful (a : AgentAction) (s : AgentSystem) : Prop :=
  ∀ rt i, s.sandboxed a = some rt → ∀ e ∈ s.newEvents rt i, ∀ insn, e.Unauthorized insn →
    e.Violates ∧ (rt.agents i).desc.state = .failed

/-- The agent before event `k` that the call logs for it: each event is logged in a round of its own. -/
def slotBefore (s : AgentSystem) (i : AgentIdx) (k : Nat) : AgentAction → Option AgentSlot
  | .run host _ _ => AgentSlot.afterRounds host s.rt.agentNow k ((s.rt.agents i).startRun s.rt.agentNow)
  | .step _ _ => if k = 0 then some ((s.rt.agents i).startStep s.rt.agentNow) else none
  | _ => none

/-- In the call, wherever an agent stands at an I/O instruction without the capability that it needs, it exceeds a
limit there, or the instruction is one that is checked and the agent has neither capability. -/
def IoCovered (a : AgentAction) (s : AgentSystem) : Prop :=
  ∀ rt i, s.sandboxed a = some rt → ∀ k e, (s.newEvents rt i)[k]? = some e → ∀ insn, e.Unauthorized insn →
    (∃ slot, s.slotBefore i k a = some slot ∧ slot.ReachesLimit insn) ∨ e.Checks insn

theorem ioRight_of_sandboxed (h : s.sandboxed a = some rt) (i : AgentIdx) :
    (s.rt.agents i).IoRight (fun k => s.slotBefore i k a) (rt.agents i) := by
  cases a with
  | run host id maxTicks =>
    obtain heq | ⟨r, hrun, -, -, heq, -⟩ := sandboxed_run h i
    · rw [heq]
      exact AgentSlot.ioRight_of_log rfl
    · rw [heq]
      exact AgentSlot.run_ioRight hrun
  | step host id =>
    obtain heq | ⟨-, -, -, heq, -⟩ := sandboxed_step h i
    · rw [heq]
      exact AgentSlot.ioRight_of_log rfl
    · rw [heq]
      exact AgentSlot.step_ioRight
  | _ => cases h

/-- Event `k` of a call stops the agent exactly if the agent before it exceeds a limit or fails the check, and then
leaves it `FAILED`. -/
theorem violates_iff_of_event {k : Nat} {e : SandboxEvent} {insn : FluxVmInsn} (h : s.sandboxed a = some rt)
    (he : (s.newEvents rt i)[k]? = some e) (hinsn : e.Unauthorized insn) :
    (e.Violates ↔ (∃ slot, s.slotBefore i k a = some slot ∧ slot.ReachesLimit insn) ∨ e.Checks insn) ∧
      (e.Violates → (rt.agents i).desc.state = .failed) := by
  obtain ⟨es, hlog, hes⟩ := ioRight_of_sandboxed h i
  rw [newEvents, hlog, List.drop_left] at he
  obtain ⟨⟨slot, hslot, hsound⟩, hstate⟩ := hes k e he
  refine ⟨?_, hstate⟩
  simp only [hslot, Option.some.injEq, exists_eq_left']
  exact hsound insn hinsn.1

end AgentSystem

/-- In every sequence of calls, no agent executes an I/O instruction without the capability that it needs but
becomes `FAILED`, if and only if wherever an agent stands at an I/O instruction without the capability, it exceeds
a limit there, or the instruction is one of the eight that are checked and the agent has neither I/O
capability. -/
theorem sandbox_ioLawful_iff (s : AgentSystem) (as : List AgentAction) :
    TriesAlong AgentSystem.step AgentSystem.IoLawful as s ↔
      TriesAlong AgentSystem.step AgentSystem.IoCovered as s := by
  refine triesAlong_congr fun a s => ?_
  refine forall_congr' fun rt => forall_congr' fun i => forall_congr' fun hrt => ?_
  constructor
  · intro hlawful k e he insn hinsn
    exact (AgentSystem.violates_iff_of_event hrt he hinsn).1.1
      (hlawful e (List.mem_of_getElem? he) insn hinsn).1
  · intro hcovered e he insn hinsn
    obtain ⟨k, he⟩ := List.mem_iff_getElem?.1 he
    obtain ⟨hviolates, hstate⟩ := AgentSystem.violates_iff_of_event hrt he hinsn
    have hstops : e.Violates := hviolates.2 (hcovered k e he insn hinsn)
    exact ⟨hstops, hstate hstops⟩

/-- `IO_WRITE64` is executed for an agent without any capability. -/
theorem writes_without_capability :
    ¬ TriesAlong AgentSystem.step AgentSystem.IoLawful oneRun (spawnedWith 0x99) := by
  rintro ⟨hlawful, -⟩
  have hevent : ∃ e ∈ (spawnedWith 0x99).newEvents (ranWith 0x99).rt firstAgent,
      ¬ e.Violates ∧ e.vm.nextInsn = some (decodeInsn 0x99000000) ∧ e.capabilities = 0 := by
    decide +kernel
  obtain ⟨e, he, hviolates, hinsn, hcaps⟩ := hevent
  have hunauthorized : e.Unauthorized (decodeInsn 0x99000000) :=
    ⟨hinsn, fluxCapIoWrite, by decide, by rw [hcaps]; decide⟩
  exact hviolates (hlawful (ranWith 0x99).rt firstAgent rfl e he _ hunauthorized).1

end FluxOs
