import FluxOs.Agent.AgentIds
import FluxOs.Agent.CpuLimits
import FluxOs.Agent.Frames

/-!
# Agents that yield

An A2A instruction makes its agent yield.  The next run goes on with the instruction after it, and finds the VM as
the yield left it, unless the instruction was `YIELD_AGENT`, which leaves the VM in a state that no run accepts, or
the agent was paused meanwhile, which halts the VM.
-/

namespace FluxOs

open Actions AgentRuntime

/-- The sandbox has executed the A2A instruction, which left the VM. -/
def SandboxEvent.YieldsAt (opcode : UInt8) (left : FluxVm) (e : SandboxEvent) : Prop :=
  ∃ vm capabilities, e = .vmStep vm capabilities (.ok (.ok, left)) ∧ vm.sandboxPeek = .ok (some opcode) ∧
    isA2aOpcode opcode = true

namespace AgentSlot

variable {slot slot' : AgentSlot} {host : Host} {now : UInt64} {r : Except Fault FluxStatus × AgentSlot}
  {opcode : UInt8} {left : FluxVm} {n : Nat}

/-! ## A call in which an agent yields -/

/-- What a yield leaves. -/
structure Yielded (opcode : UInt8) (left : FluxVm) (slot : AgentSlot) : Prop where
  vm : slot.vm = left
  vmState : left.state = if opcodeOf opcode = .agent .YIELD_AGENT then .waiting else .running
  vmInitialized : slot.vmInitialized = true
  state : slot.desc.state = .waiting
  memory : ¬ slot.MemoryExceeded

theorem not_yieldsAt_violation {vm : FluxVm} {capabilities : UInt64} {code : UInt8} :
    ¬ (SandboxEvent.violation vm capabilities code).YieldsAt opcode left := by
  rintro ⟨_, _, h, -⟩
  cases h

/-- An event of the log, counted from `n`, that is the last one and a yield. -/
def LastYields (n : Nat) (opcode : UInt8) (left : FluxVm) (slot : AgentSlot) : Prop :=
  ∃ e, (slot.log.drop n).getLast? = some e ∧ e.YieldsAt opcode left

theorem lastYields_congr (h : slot'.log = slot.log) :
    LastYields n opcode left slot' ↔ LastYields n opcode left slot := by
  rw [LastYields, LastYields, h]

theorem lastYields_of_append {e : SandboxEvent} (hn : n ≤ slot.log.length) (h : slot'.log = slot.log ++ [e])
    (hlast : LastYields n opcode left slot') : e.YieldsAt opcode left := by
  obtain ⟨e', he', hyields⟩ := hlast
  rw [h, List.drop_append_of_le_length hn, List.getLast?_append] at he'
  cases he'
  exact hyields

/-- A step of the VM that is logged as a yield. -/
theorem yieldsAt_vmStepEvent (h : (slot.vmStepEvent host).YieldsAt opcode left) :
    slot.vm.fluxVmStep host = .ok (.ok, left) ∧ slot.vm.sandboxPeek = .ok (some opcode) ∧
      isA2aOpcode opcode = true := by
  obtain ⟨vm, capabilities, heq, hpeek, ha2a⟩ := h
  injection heq with hvm _ hstep
  subst hvm
  exact ⟨hstep, hpeek, ha2a⟩

/-- A step of another instruction is not a yield. -/
theorem not_yieldsAt_of_peek
    (hpeek : ∀ opcode, slot.vm.sandboxPeek = .ok (some opcode) → isA2aOpcode opcode = false) :
    ¬ (slot.vmStepEvent host).YieldsAt opcode left := by
  intro h
  obtain ⟨-, hop, ha2a⟩ := yieldsAt_vmStepEvent h
  rw [hpeek opcode hop] at ha2a
  cases ha2a

theorem memoryExceeded_congr (hvm : slot'.vmInitialized = slot.vmInitialized)
    (hmax : slot'.desc.limits.maxMemory = slot.desc.limits.maxMemory)
    (hregions : slot'.vm.regions = slot.vm.regions) :
    slot'.MemoryExceeded ↔ slot.MemoryExceeded := by
  unfold MemoryExceeded Measures activeRegionSize
  rw [hvm, hmax, hregions]

/-- The A2A step after which the agent yields. -/
theorem yielded_stepA2a (hvm : slot.vmInitialized = true) (hmemory : ¬ slot.MemoryExceeded)
    (h : (slot.vmStepEvent host).YieldsAt opcode left) : (slot.stepA2a host).2.Yielded opcode left := by
  obtain ⟨hstep, hpeek, ha2a⟩ := yieldsAt_vmStepEvent h
  have ha2aStep := FluxVm.fluxVmStep_a2a host hpeek ha2a
  rw [hstep] at ha2aStep
  obtain ⟨hregions, herror | ⟨-, -, hstate⟩⟩ := ha2aStep
  · cases herror.1
  have hslot : (slot.stepA2a host).2.vm = left ∧ (slot.stepA2a host).2.vmInitialized = slot.vmInitialized ∧
      (slot.stepA2a host).2.desc.state = .waiting ∧
      (slot.stepA2a host).2.desc.limits.maxMemory = slot.desc.limits.maxMemory := by
    unfold stepA2a stepVm
    rw [hstep]
    exact ⟨rfl, rfl, rfl, rfl⟩
  obtain ⟨hleft, hinit, hwaiting, hmax⟩ := hslot
  refine ⟨hleft, hstate, hinit.trans hvm, hwaiting, ?_⟩
  rw [memoryExceeded_congr hinit hmax (by rw [hleft]; exact hregions.regions)]
  exact hmemory

/-- After a round, the last event is no yield, or the round has ended with it. -/
theorem Rounds.yielded (h : Rounds host now slot r) (hn : n ≤ slot.log.length)
    (hnot : ¬ LastYields n opcode left slot) (hlast : LastYields n opcode left r.2) :
    r.2.Yielded opcode left ∧ r.1 ≠ .ok .ok := by
  have hlog : slot.measured.log = slot.log := measured_keeps log (fun _ _ => rfl) slot
  cases h with
  | cpu =>
    exact absurd (lastYields_of_append hn log_sandboxHandleViolation hlast) not_yieldsAt_violation
  | memory =>
    refine absurd (lastYields_of_append (hlog ▸ hn) log_sandboxHandleViolation hlast) not_yieldsAt_violation
  | noVm => exact absurd hlast hnot
  | checked r hvm hcpu hmemory hchecked =>
    have hvm' : slot.measured.vmInitialized = true := (measured_keeps vmInitialized (fun _ _ => rfl) slot).trans hvm
    have hn' : n ≤ slot.measured.log.length := hlog ▸ hn
    cases hchecked with
    | halted => exact absurd ((lastYields_congr hlog).1 ((lastYields_congr rfl).1 hlast)) hnot
    | refused => exact absurd ((lastYields_congr hlog).1 hlast) hnot
    | denied => exact absurd (lastYields_of_append hn' log_sandboxHandleViolation hlast) not_yieldsAt_violation
    | io opcode' _ hpeek hio =>
      have hlogged : (slot.measured.sandboxAccountIo.stepPlain host now).2.log =
          slot.measured.log ++ [slot.measured.sandboxAccountIo.vmStepEvent host] := log_stepPlain
      refine absurd (lastYields_of_append hn' hlogged hlast) ?_
      refine not_yieldsAt_of_peek fun opcode hop => ?_
      have hsame := hpeek.symm.trans hop
      cases hsame
      exact isA2aOpcode_of_isIoOpcode hio
    | a2a =>
      refine ⟨yielded_stepA2a hvm' (mt memoryExceeded_measured.1 hmemory) ?_, stepA2a_ne_ok⟩
      exact lastYields_of_append hn' log_stepA2a hlast
    | plain _ hpeek =>
      refine absurd (lastYields_of_append hn' log_stepPlain hlast) ?_
      exact not_yieldsAt_of_peek fun opcode hop => (hpeek opcode hop).2

/-- A round only appends to the log. -/
theorem Rounds.log_extends (h : Rounds host now slot r) : slot.log <+: r.2.log := by
  have hlog : slot.measured.log = slot.log := measured_keeps log (fun _ _ => rfl) slot
  have happend {slot' : AgentSlot} {e : SandboxEvent} (h : slot'.log = slot.measured.log ++ [e]) :
      slot.log <+: slot'.log := by
    rw [h, hlog]
    exact List.prefix_append ..
  have hsame {slot' : AgentSlot} (h : slot'.log = slot.log) : slot.log <+: slot'.log :=
    h ▸ List.prefix_rfl
  cases h with
  | cpu =>
    rw [log_sandboxHandleViolation]
    exact List.prefix_append ..
  | memory => exact happend log_sandboxHandleViolation
  | noVm => exact List.prefix_rfl
  | checked r _ _ _ hchecked =>
    cases hchecked with
    | halted => exact hsame hlog
    | refused => exact hsame hlog
    | denied => exact happend log_sandboxHandleViolation
    | io => exact happend log_stepPlain
    | a2a => exact happend log_stepA2a
    | plain => exact happend log_stepPlain

theorem not_lastYields_self : ¬ LastYields slot.log.length opcode left slot := by
  rintro ⟨e, he, -⟩
  rw [List.drop_length] at he
  cases he

/-- A call whose last event is a yield leaves the agent as the yield did. -/
theorem Call.yielded (h : Call host now slot r) (hlast : LastYields slot.log.length opcode left r.2) :
    r.2.Yielded opcode left := by
  cases h with
  | run maxTicks r hrun =>
    have hstart : (slot.startRun now).log = slot.log := log_startRun
    obtain ⟨r', hQ, hresult, rfl⟩ := run_rule
      (I := fun s => slot.log.length ≤ s.log.length ∧ ¬ LastYields slot.log.length opcode left s)
      (Q := fun r => LastYields slot.log.length opcode left r.2 → r.2.Yielded opcode left)
      (fun s hs hlast => absurd hlast hs.2)
      (fun s r hs heq => have hround := rounds_of_eq heq
        ⟨fun hok => ⟨hs.1.trans hround.log_extends.length_le,
          fun hlast => (hround.yielded hs.1 hs.2 hlast).2 hok⟩,
        fun _ hlast => (hround.yielded hs.1 hs.2 hlast).1⟩)
      ⟨by rw [hstart], fun h => not_lastYields_self ((lastYields_congr hstart).1 h)⟩ hrun
    obtain ⟨-, heq | ⟨hterminated, heq⟩⟩ := finishRun_eq hresult
    · rw [heq] at hlast ⊢
      exact hQ hlast
    · have hyielded := hQ ((lastYields_congr (by rw [heq]; rfl)).1 hlast)
      rw [hyielded.state] at hterminated
      cases hterminated
  | step hvm =>
    unfold AgentSlot.step at hlast ⊢
    dsimp only at hlast ⊢
    generalize hslot : ({ (if slot.vm.state = .idle then slot.withVmState .running else slot) with
      desc := { (if slot.vm.state = .idle then slot.withVmState .running else slot).desc with
        lastActive := now } } : AgentSlot) = slot₁ at hlast ⊢
    have hlog : slot₁.log = slot.log := by
      subst hslot
      dsimp only
      split_ifs <;> rfl
    have hnot : ¬ LastYields slot.log.length opcode left slot₁ :=
      fun h => not_lastYields_self ((lastYields_congr hlog).1 h)
    exact ((sandboxStep_rounds slot₁ host now).yielded (by rw [hlog]) hnot hlast).1

/-! ## The first round of a run -/

/-- The violation for which the sandbox refuses the instruction at the program counter. -/
def ioDenial (slot : AgentSlot) : Option UInt8 :=
  match slot.vm.sandboxPeek with
  | .ok (some opcode) => if isIoOpcode opcode then slot.ioViolation else none
  | _ => none

/-- What the sandbox does with the instruction at the program counter: it refuses an I/O instruction that the
agent may not execute, and executes any other. -/
def nextEvent (slot : AgentSlot) (host : Host) : SandboxEvent :=
  match slot.ioDenial with
  | some violation => .violation slot.vm slot.desc.capabilities violation
  | none => slot.vmStepEvent host

/-- A round that is within the limits logs what it does with the instruction. -/
theorem Rounds.log_of_runnable (h : Rounds host now slot r) (hvm : slot.vmInitialized = true)
    (hcpu : ¬ slot.CpuExceeded) (hmemory : ¬ slot.MemoryExceeded) (hrunnable : slot.vm.Runnable) :
    r.2.log = slot.log ++ [slot.nextEvent host] := by
  have hlog : slot.measured.log = slot.log := measured_keeps log (fun _ _ => rfl) slot
  have hnext : slot.measured.nextEvent host = slot.nextEvent host :=
    measured_keeps (fun slot => slot.nextEvent host) (fun _ _ => rfl) slot
  have hvmKept : slot.measured.vm = slot.vm := measured_keeps AgentSlot.vm (fun _ _ => rfl) slot
  rw [← hlog, ← hnext]
  cases h with
  | cpu h => exact absurd h hcpu
  | memory h => exact absurd h hmemory
  | noVm h =>
    rw [hvm] at h
    cases h
  | checked r _ _ _ hchecked =>
    cases hchecked with
    | halted hhalted =>
      rw [FluxVm.Runnable, ← hvmKept, hhalted] at hrunnable
      simp at hrunnable
    | refused hnot =>
      rw [hvmKept] at hnot
      exact absurd hrunnable hnot
    | denied opcode violation _ hpeek hio hviolation =>
      have hdenial : slot.measured.ioDenial = some violation := by
        rw [ioDenial, hpeek, ← hviolation]
        exact if_pos hio
      rw [nextEvent, hdenial]
      exact log_sandboxHandleViolation
    | io opcode _ hpeek hio hviolation =>
      have hdenial : slot.measured.ioDenial = none := by
        rw [ioDenial, hpeek, ← hviolation]
        exact if_pos hio
      rw [nextEvent, hdenial]
      exact log_stepPlain
    | a2a opcode _ hpeek ha2a =>
      have hdenial : slot.measured.ioDenial = none := by
        rw [ioDenial, hpeek]
        refine if_neg fun hio => ?_
        rw [isA2aOpcode_of_isIoOpcode hio] at ha2a
        cases ha2a
      rw [nextEvent, hdenial]
      exact log_stepA2a
    | plain _ hpeek =>
      have hdenial : slot.measured.ioDenial = none := by
        unfold ioDenial
        split
        · rename_i opcode hop
          rw [if_neg (by simp [(hpeek opcode hop).1])]
        · rfl
      rw [nextEvent, hdenial]
      exact log_stepPlain

/-- A round that is within the limits does nothing with a VM that is not runnable. -/
theorem Rounds.log_of_not_runnable (h : Rounds host now slot r) (hcpu : ¬ slot.CpuExceeded)
    (hmemory : ¬ slot.MemoryExceeded) (hrunnable : ¬ slot.vm.Runnable) :
    r.2.log = slot.log ∧ r.1 ≠ .ok .ok := by
  have hlog : slot.measured.log = slot.log := measured_keeps log (fun _ _ => rfl) slot
  have hvmKept : slot.measured.vm = slot.vm := measured_keeps AgentSlot.vm (fun _ _ => rfl) slot
  cases h with
  | cpu h => exact absurd h hcpu
  | memory h => exact absurd h hmemory
  | noVm => exact ⟨rfl, by simp⟩
  | checked r _ _ _ hchecked =>
    cases hchecked with
    | halted => exact ⟨hlog, by simp⟩
    | refused => exact ⟨hlog, by simp⟩
    | denied _ _ h => exact absurd (hvmKept ▸ h) hrunnable
    | io _ h => exact absurd (hvmKept ▸ h) hrunnable
    | a2a _ h => exact absurd (hvmKept ▸ h) hrunnable
    | plain h => exact absurd (hvmKept ▸ h) hrunnable

theorem log_finishRun (r : Except Fault FluxStatus × AgentSlot) : (finishRun r).2.log = r.2.log := by
  obtain ⟨result, slot⟩ := r
  cases result with
  | error => rfl
  | ok status =>
    rw [finishRun]
    split_ifs <;> rfl

/-- A run logs its first round first, and nothing else if the round does not go on. -/
theorem log_of_run {maxTicks : UInt32} (h : slot.run host now maxTicks = some r) :
    (slot.firstRound host now).2.log <+: r.2.log ∧
      ((slot.firstRound host now).1 ≠ .ok .ok → r.2.log = (slot.firstRound host now).2.log) := by
  by_cases hok : (slot.firstRound host now).1 = .ok .ok
  · refine ⟨?_, fun hne => absurd hok hne⟩
    obtain ⟨fuel, -, hrun⟩ := run_of_continues maxTicks (Prod.ext hok rfl)
    rw [hrun] at h
    obtain ⟨r', hloop, rfl⟩ := Option.map_eq_some_iff.1 h
    rw [log_finishRun]
    by_cases hlast : 0 + 1 ≥ maxRunSteps ∧ maxTicks = 0
    · rw [if_pos hlast] at hloop
      cases hloop
      exact List.prefix_rfl
    · rw [if_neg hlast] at hloop
      exact (runLoop_rule (I := fun s => (slot.firstRound host now).2.log <+: s.log)
        (Q := fun r => (slot.firstRound host now).2.log <+: r.2.log) (fun s hs => hs)
        (fun s r hs heq => have hround := rounds_of_eq heq
          ⟨fun _ => hs.trans hround.log_extends, fun _ => hs.trans hround.log_extends⟩)
        List.prefix_rfl hloop).1
  · rw [run_of_ends maxTicks hok] at h
    cases h
    rw [log_finishRun]
    exact ⟨List.prefix_rfl, fun _ => rfl⟩

/-- A run of an agent whose VM is running begins with what the sandbox does with the next instruction. -/
theorem head_of_run {maxTicks : UInt32} (h : slot.run host now maxTicks = some r)
    (hvm : slot.vmInitialized = true) (hcpu : ¬ slot.CpuExceeded) (hmemory : ¬ slot.MemoryExceeded)
    (hrunning : slot.vm.state = .running) :
    (r.2.log.drop slot.log.length).head? = some (slot.nextEvent host) := by
  obtain ⟨hextends, -⟩ := log_of_run h
  have hround : Rounds host now (slot.startRun now) (slot.firstRound host now) := round_rounds ..
  have hstart : slot.startRun now =
      { slot with desc := { slot.desc with state := .thinking, lastActive := now } } := by
    unfold startRun
    simp only
    rw [if_neg]
    rintro ⟨-, hidle⟩
    rw [hrunning] at hidle
    cases hidle
  rw [hstart] at hround
  have hlog : (slot.firstRound host now).2.log = slot.log ++ [slot.nextEvent host] :=
    hround.log_of_runnable hvm hcpu hmemory (.inr hrunning)
  obtain ⟨es, hes⟩ := hextends
  rw [← hes, hlog, List.append_assoc, List.drop_left]
  rfl

/-- A run of an agent whose VM is not runnable does nothing. -/
theorem log_of_run_stuck {maxTicks : UInt32} (h : slot.run host now maxTicks = some r)
    (hcpu : ¬ slot.CpuExceeded) (hmemory : ¬ slot.MemoryExceeded) (hrunnable : ¬ slot.vm.Runnable) :
    r.2.log = slot.log := by
  obtain ⟨-, hends⟩ := log_of_run h
  have hround : Rounds host now (slot.startRun now) (slot.firstRound host now) := round_rounds ..
  have hstart : slot.startRun now =
      { slot with desc := { slot.desc with state := .thinking, lastActive := now } } := by
    unfold startRun
    simp only
    rw [if_neg]
    rintro ⟨-, hidle⟩
    exact hrunnable (.inl hidle)
  rw [hstart] at hround
  obtain ⟨hlog, hresult⟩ := hround.log_of_not_runnable hcpu hmemory hrunnable
  exact (hends hresult).trans hlog

/-! ## Between two calls -/

theorem Rounds.paused (h : Rounds host now slot r) : r.2.paused = slot.paused := by
  have hmeasured : slot.measured.paused = slot.paused := measured_keeps AgentSlot.paused (fun _ _ => rfl) slot
  have hviolation (slot : AgentSlot) (code : UInt8) : (slot.sandboxHandleViolation code).paused = slot.paused := by
    unfold sandboxHandleViolation
    simp only
    split_ifs <;> rfl
  have hplain (slot : AgentSlot) : (slot.stepPlain host now).2.paused = slot.paused := by
    unfold stepPlain stepVm
    cases slot.vm.fluxVmStep host with
    | error fault => rfl
    | ok p =>
      obtain ⟨status, vm⟩ := p
      cases status <;> rfl
  have ha2a (slot : AgentSlot) : (slot.stepA2a host).2.paused = slot.paused := by
    unfold stepA2a stepVm
    cases slot.vm.fluxVmStep host with
    | error fault => rfl
    | ok p =>
      obtain ⟨status, vm⟩ := p
      cases status <;> rfl
  cases h with
  | cpu => exact hviolation ..
  | memory => exact (hviolation ..).trans hmeasured
  | noVm => rfl
  | checked r _ _ _ hchecked =>
    cases hchecked with
    | halted => exact hmeasured
    | refused => exact hmeasured
    | denied => exact (hviolation ..).trans hmeasured
    | io => exact (hplain _).trans hmeasured
    | a2a => exact (ha2a _).trans hmeasured
    | plain => exact (hplain _).trans hmeasured

theorem Call.paused (h : Call host now slot r) : r.2.paused = slot.paused := by
  cases h with
  | run maxTicks r hrun =>
    have hstart : (slot.startRun now).paused = slot.paused := by
      unfold startRun
      simp only
      split_ifs <;> rfl
    obtain ⟨r', hQ, hresult, rfl⟩ := run_rule (I := fun s => s.paused = slot.paused)
      (Q := fun r => r.2.paused = slot.paused) (fun s hs => hs)
      (fun s r hs heq => have hround := rounds_of_eq heq
        ⟨fun _ => hround.paused.trans hs, fun _ => hround.paused.trans hs⟩) hstart hrun
    obtain ⟨-, heq | ⟨-, heq⟩⟩ := finishRun_eq hresult
    · rw [heq]
      exact hQ
    · rw [heq]
      exact hQ
  | step =>
    refine (sandboxStep_rounds _ host now).paused.trans ?_
    dsimp only
    split_ifs <;> rfl

/-- The agent stands where it yielded. -/
structure Stands (left : FluxVm) (slot : AgentSlot) : Prop where
  vm : slot.vm = left
  vmInitialized : slot.vmInitialized = true
  passive : slot.Passive
  paused : slot.paused = false
  memory : ¬ slot.MemoryExceeded

/-- The VM is in a state that no run accepts. -/
structure Stuck (slot : AgentSlot) : Prop where
  vm : ¬ slot.vm.Runnable
  passive : slot.Passive
  memory : ¬ slot.MemoryExceeded

theorem Undisturbed.memoryExceeded (h : Undisturbed slot slot') : slot'.MemoryExceeded ↔ slot.MemoryExceeded :=
  memoryExceeded_congr h.vmInitialized (by rw [h.limits]) (by rw [h.vm])

theorem Stands.undisturbed (h : slot.Stands left) (h' : Undisturbed slot slot') : slot'.Stands left :=
  ⟨h'.vm.trans h.vm, h'.vmInitialized.trans h.vmInitialized, h'.passive h.passive, h'.paused.trans h.paused,
    mt h'.memoryExceeded.1 h.memory⟩

theorem Stuck.undisturbed (h : slot.Stuck) (h' : Undisturbed slot slot') : slot'.Stuck := by
  refine ⟨?_, h'.passive h.passive, mt h'.memoryExceeded.1 h.memory⟩
  rw [h'.vm]
  exact h.vm

theorem memoryExceeded_pauseSlot : (pauseSlot now slot).MemoryExceeded ↔ slot.MemoryExceeded := by
  refine memoryExceeded_congr rfl rfl ?_
  unfold pauseSlot
  dsimp only
  split_ifs <;> rfl

theorem memoryExceeded_resumeSlot : (resumeSlot now slot).MemoryExceeded ↔ slot.MemoryExceeded := by
  refine memoryExceeded_congr rfl rfl ?_
  unfold resumeSlot
  dsimp only
  split_ifs <;> rfl

/-- A pause halts the VM if it was running. -/
theorem Stands.pause (h : slot.Stands left) (hleft : left.state ≠ .idle) : (pauseSlot now slot).Stuck := by
  refine ⟨?_, h.passive, mt memoryExceeded_pauseSlot.1 h.memory⟩
  unfold pauseSlot
  dsimp only
  split_ifs with hrunning
  · simp [FluxVm.Runnable, FluxVm.fluxVmHalt]
  · rintro (hidle | hrunning')
    · rw [h.vm] at hidle
      exact hleft hidle
    · exact hrunning ⟨h.vmInitialized, hrunning'⟩

theorem Stuck.pause (h : slot.Stuck) : (pauseSlot now slot).Stuck := by
  have hvm : (pauseSlot now slot).vm = slot.vm := if_neg fun hrunning => h.vm (.inr hrunning.2)
  refine ⟨?_, h.passive, mt memoryExceeded_pauseSlot.1 h.memory⟩
  rw [hvm]
  exact h.vm

/-- A resume makes only the VM of an agent that is thinking idle again. -/
theorem Stuck.resume (h : slot.Stuck) : (resumeSlot now slot).Stuck := by
  have hvm : (resumeSlot now slot).vm = slot.vm := by
    refine if_neg ?_
    rintro ⟨hthinking, -⟩
    have hpassive := h.passive
    rw [Passive, hthinking] at hpassive
    simp at hpassive
  refine ⟨?_, h.passive, mt memoryExceeded_resumeSlot.1 h.memory⟩
  rw [hvm]
  exact h.vm

end AgentSlot

/-- The call executes or terminates the agent. -/
def AgentAction.RunsOrEnds (id : UInt32) : AgentAction → Prop
  | .terminate id' | .run _ id' _ | .step _ id' => id' = id
  | _ => False

namespace AgentSystem

variable {s t u : AgentSystem} {a : AgentAction} {as : List AgentAction} {i : AgentIdx} {left : FluxVm}

/-- A call that neither executes, ends, pauses nor resumes the agent does not disturb it. -/
theorem drives_cases (ha : ¬ a.RunsOrEnds (agentIdOf i)) :
    ¬ a.Drives (agentIdOf i) ∨ a = .pause (agentIdOf i) ∨ a = .resume (agentIdOf i) := by
  cases a with
  | pause id =>
    by_cases hid : id = agentIdOf i
    · exact .inr (.inl (by rw [hid]))
    · exact .inl hid
  | resume id =>
    by_cases hid : id = agentIdOf i
    · exact .inr (.inr (by rw [hid]))
    · exact .inl hid
  | _ => exact .inl ha

/-- The slot of an active agent satisfies `P`. -/
structure Holds (P : AgentSlot → Prop) (i : AgentIdx) (s : AgentSystem) : Prop where
  ids : s.rt.view.IdsSound
  active : (s.rt.agents i).active = true
  slot : P (s.rt.agents i)

/-- What is kept when an agent is not disturbed, when it is paused and when it is resumed, is kept by every call
that neither executes nor ends the agent. -/
theorem Holds.of_step {P : AgentSlot → Prop} (hs : Holds P i s)
    (hkeeps : ∀ slot slot' : AgentSlot, slot.Undisturbed slot' → P slot → P slot')
    (hpause : a = .pause (agentIdOf i) → ∀ now slot, P slot → P (pauseSlot now slot))
    (hresume : ∀ now (slot : AgentSlot), slot.paused = true → P slot → P (resumeSlot now slot))
    (ha : ¬ a.RunsOrEnds (agentIdOf i)) (h : step a s = some t) : Holds P i t := by
  have hids : t.rt.view.IdsSound := idsSound_of_step hs.ids h
  obtain hdrives | rfl | rfl := drives_cases ha
  · have hbit : s.rt.agentBitmap i = true := (hs.ids.bits i (hs.ids.ne_zero_of_active hs.active)).trans hs.active
    have hundisturbed := undisturbed_of_step hbit hdrives h
    exact ⟨hids, hundisturbed.active.trans hs.active, hkeeps _ _ hundisturbed hs.slot⟩
  · cases h
    obtain heq | ⟨j, hj, -, -, heq⟩ := fluxAgentPause_cases s.rt (agentIdOf i)
    · exact ⟨hids, by rw [withRt, heq]; exact hs.active, by rw [withRt, heq]; exact hs.slot⟩
    · obtain rfl : i = j := agentIdOf_inj.1 (agentSlotById_eq_some.1 hj).1
      have hslot : (s.rt.fluxAgentPause (agentIdOf i)).2.agents i = pauseSlot s.rt.agentNow (s.rt.agents i) := by
        rw [heq, modifySlot_self]
      exact ⟨hids, by rw [withRt, hslot]; exact hs.active, by rw [withRt, hslot]; exact hpause rfl _ _ hs.slot⟩
  · cases h
    obtain heq | ⟨j, hj, hpaused, heq⟩ := fluxAgentResume_cases s.rt (agentIdOf i)
    · exact ⟨hids, by rw [withRt, heq]; exact hs.active, by rw [withRt, heq]; exact hs.slot⟩
    · obtain rfl : i = j := agentIdOf_inj.1 (agentSlotById_eq_some.1 hj).1
      have hslot : (s.rt.fluxAgentResume (agentIdOf i)).2.agents i = resumeSlot s.rt.agentNow (s.rt.agents i) := by
        rw [heq, modifySlot_self]
      exact ⟨hids, by rw [withRt, hslot]; exact hs.active,
        by rw [withRt, hslot]; exact hresume _ _ hpaused hs.slot⟩

theorem stands_of_step (hs : Holds (·.Stands left) i s) (ha : ¬ a.RunsOrEnds (agentIdOf i))
    (hpause : a ≠ .pause (agentIdOf i)) (h : step a s = some t) : Holds (·.Stands left) i t := by
  refine hs.of_step (fun _ _ hkeep hstands => hstands.undisturbed hkeep) (fun heq => absurd heq hpause) ?_ ha h
  intro now slot hpaused hstands
  rw [hstands.paused] at hpaused
  cases hpaused

theorem stuck_of_step (hs : Holds AgentSlot.Stuck i s) (ha : ¬ a.RunsOrEnds (agentIdOf i))
    (h : step a s = some t) : Holds AgentSlot.Stuck i t :=
  hs.of_step (fun _ _ hkeep hstuck => hstuck.undisturbed hkeep) (fun _ _ _ hstuck => hstuck.pause)
    (fun _ _ _ hstuck => hstuck.resume) ha h

/-- An agent that stands where it yielded is stuck once it was paused. -/
theorem stuck_of_pause (hs : Holds (·.Stands left) i s) (hleft : left.state ≠ .idle)
    (h : step (.pause (agentIdOf i)) s = some t) : Holds AgentSlot.Stuck i t := by
  have hids : t.rt.view.IdsSound := idsSound_of_step hs.ids h
  cases h
  have heq := fluxAgentPause_agents_self hs.ids.initialized hs.active hs.slot.passive.not_ended hs.slot.paused
  have hslot : (s.rt.fluxAgentPause (agentIdOf i)).2.agents i = pauseSlot s.rt.agentNow (s.rt.agents i) := by
    rw [heq, modifySlot_self]
  exact ⟨hids, by rw [withRt, hslot]; exact hs.active, by rw [withRt, hslot]; exact hs.slot.pause hleft⟩

theorem stands_of_execute (hs : Holds (·.Stands left) i s) (has : ∀ a ∈ as, ¬ a.RunsOrEnds (agentIdOf i))
    (hpause : .pause (agentIdOf i) ∉ as) (h : execute step as s = some u) : Holds (·.Stands left) i u := by
  refine MeetsAlong.invariant (I := Holds (·.Stands left) i)
    (meetsAlong_of_forall (C := fun a _ => a ∈ as) fun a ha _ => ha) (fun a s t ha hs hstep => ?_) hs h
  exact stands_of_step hs (has a ha) (fun heq => hpause (heq ▸ ha)) hstep

theorem stuck_of_execute (hs : Holds AgentSlot.Stuck i s) (has : ∀ a ∈ as, ¬ a.RunsOrEnds (agentIdOf i))
    (h : execute step as s = some u) : Holds AgentSlot.Stuck i u :=
  MeetsAlong.invariant (I := Holds AgentSlot.Stuck i)
    (meetsAlong_of_forall (C := fun a _ => ¬ a.RunsOrEnds (agentIdOf i)) fun a ha _ => has a ha)
    (fun _ _ _ ha hs hstep => stuck_of_step hs ha hstep) hs h

/-- One pause is enough. -/
theorem stuck_of_paused (hs : Holds (·.Stands left) i s) (hleft : left.state ≠ .idle)
    (has : ∀ a ∈ as, ¬ a.RunsOrEnds (agentIdOf i)) (hpause : .pause (agentIdOf i) ∈ as)
    (h : execute step as s = some u) : Holds AgentSlot.Stuck i u := by
  induction as generalizing s with
  | nil => cases hpause
  | cons a as ih =>
    obtain ⟨t, hstep, hrest⟩ := Option.bind_eq_some_iff.1 h
    have has' : ∀ a ∈ as, ¬ a.RunsOrEnds (agentIdOf i) := fun a ha => has a (List.mem_cons_of_mem _ ha)
    by_cases heq : a = .pause (agentIdOf i)
    · subst heq
      exact stuck_of_execute (stuck_of_pause hs hleft hstep) has' hrest
    · have hmem : .pause (agentIdOf i) ∈ as := (List.mem_cons.1 hpause).resolve_left (Ne.symm heq)
      exact ih (stands_of_step hs (has a List.mem_cons_self) heq hstep) has' hmem hrest

/-! ## A yield and the next run -/

variable {host : Host} {maxTicks : UInt32} {opcode : UInt8}

/-- In the step from `s` to `t` the agent yields at the opcode, with the VM that is left. -/
def YieldsAt (i : AgentIdx) (opcode : UInt8) (left : FluxVm) (s t : AgentSystem) : Prop :=
  ∃ e, (s.newEvents t.rt i).getLast? = some e ∧ e.YieldsAt opcode left

/-- A run of the agent begins with the instruction at which the VM was left, in exactly that VM. -/
def ResumesFrom (i : AgentIdx) (left : FluxVm) (host : Host) (maxTicks : UInt32) (u : AgentSystem) : Prop :=
  ∃ rt, u.sandboxed (.run host (agentIdOf i) maxTicks) = some rt ∧
    (u.newEvents rt i).head? = some (AgentSlot.nextEvent { u.rt.agents i with vm := left } host)

/-- An agent stands where it yielded. -/
theorem stands_of_yieldsAt (hs : s.rt.view.IdsSound) {host : Host} (hhost : a.host? = some host)
    (h : step a s = some t) (hyields : YieldsAt i opcode left s t) :
    Holds (·.Stands left) i t ∧
      left.state = if opcodeOf opcode = .agent .YIELD_AGENT then .waiting else .running := by
  obtain hsame | ⟨host', r, -, hact, hmay, hcall, hr, -⟩ := sandboxed_cases (sandboxed_of_step hhost h) i
  · obtain ⟨e, he, -⟩ := hyields
    rw [newEvents, hsame, List.drop_length] at he
    cases he
  · have hyielded : (t.rt.agents i).Yielded opcode left := by
      rw [hr]
      refine hcall.yielded ?_
      rw [← hr]
      exact hyields
    have hpaused : (t.rt.agents i).paused = false := by
      rw [hr, hcall.paused]
      simpa using fun h => hmay (.inr (.inr h))
    have hkind : a.kind ≠ .lifecycle := by
      cases a
      case run | step => simp [AgentAction.kind]
      all_goals cases hhost
    have hactive : (t.rt.agents i).active = true := ((step_changes h).active_eq hkind i).trans hact
    exact ⟨⟨idsSound_of_step hs h, hactive, hyielded.vm, hyielded.vmInitialized, .inr (.inl hyielded.state),
      hpaused, hyielded.memory⟩, hyielded.vmState⟩

/-- A run of an agent that is not paused and within its limits goes through. -/
theorem run_of_holds {P : AgentSlot → Prop} (hu : Holds P i u) (hpassive : (u.rt.agents i).Passive)
    (hpaused : (u.rt.agents i).paused = false) (host : Host) (maxTicks : UInt32) :
    ∃ r, (u.rt.agents i).run host u.rt.agentNow maxTicks = some r ∧
      u.sandboxed (.run host (agentIdOf i) maxTicks) = some (u.rt.modifySlot i fun _ => r.2) := by
  obtain ⟨r, hr⟩ := (u.rt.agents i).run_returns host u.rt.agentNow maxTicks
  have hmay : ¬ (u.rt.agents i).MayNotRun := by
    rintro (h | h | h)
    · exact hpassive.not_ended (.inl h)
    · exact hpassive.not_ended (.inr h)
    · rw [hpaused] at h
      cases h
  have hi : u.rt.agentSlotById (agentIdOf i) = some i := agentSlotById_eq_some.2 ⟨rfl, hu.active⟩
  have hinit : u.rt.initialized = true := hu.ids.initialized
  refine ⟨r, hr, ?_⟩
  rw [sandboxed, fluxAgentRun, hinit, hi]
  simp [hmay, hr]

end AgentSystem

open AgentSystem

/-- An agent that yielded, and that since then was neither executed nor terminated, goes on with the instruction
after the yield in its next run, with the VM as the yield left it, if and only if it did not yield at
`YIELD_AGENT` and was not paused since. -/
theorem fluxAgentRun_resumes_iff {allowed : AgentAction → AgentSystem → Prop} {s t u : AgentSystem}
    {a : AgentAction} {as : List AgentAction} {i : AgentIdx} {opcode : UInt8} {left : FluxVm} {host host' : Host}
    {maxTicks : UInt32} (hs : Reachable allowed s) (hhost : a.host? = some host) (hstep : step a s = some t)
    (hyields : YieldsAt i opcode left s t) (has : ∀ a ∈ as, ¬ a.RunsOrEnds (agentIdOf i))
    (hrun : execute step as t = some u) (hpaused : (u.rt.agents i).paused = false)
    (hbudget : ¬ (u.rt.agents i).CpuExceeded) :
    ResumesFrom i left host' maxTicks u ↔
      opcodeOf opcode ≠ .agent .YIELD_AGENT ∧ .pause (agentIdOf i) ∉ as := by
  obtain ⟨hstands, hstate⟩ := stands_of_yieldsAt (idsSound_of_reachable hs) hhost hstep hyields
  have hstuck (hu : Holds AgentSlot.Stuck i u) : ¬ ResumesFrom i left host' maxTicks u := by
    rintro ⟨rt, hrt, hhead⟩
    obtain ⟨r, hr, hsandboxed⟩ := run_of_holds hu hu.slot.passive hpaused host' maxTicks
    rw [hsandboxed] at hrt
    cases hrt
    have hlog := AgentSlot.log_of_run_stuck hr hbudget hu.slot.memory hu.slot.vm
    rw [newEvents, modifySlot_self, hlog, List.drop_length] at hhead
    cases hhead
  by_cases hopcode : opcodeOf opcode = .agent .YIELD_AGENT
  · refine iff_of_false (hstuck (stuck_of_execute ?_ has hrun)) fun h => h.1 hopcode
    rw [if_pos hopcode] at hstate
    refine ⟨hstands.ids, hstands.active, ?_, hstands.slot.passive, hstands.slot.memory⟩
    rw [hstands.slot.vm, FluxVm.Runnable, hstate]
    simp
  · rw [if_neg hopcode] at hstate
    by_cases hpause : .pause (agentIdOf i) ∈ as
    · exact iff_of_false (hstuck (stuck_of_paused hstands (by simp [hstate]) has hpause hrun)) fun h => h.2 hpause
    · refine iff_of_true ?_ ⟨hopcode, hpause⟩
      have hu : Holds (·.Stands left) i u := stands_of_execute hstands has hpause hrun
      obtain ⟨r, hr, hsandboxed⟩ := run_of_holds hu hu.slot.passive hpaused host' maxTicks
      have hrunning : (u.rt.agents i).vm.state = .running := by rw [hu.slot.vm, hstate]
      have hhead := AgentSlot.head_of_run hr hu.slot.vmInitialized hbudget hu.slot.memory hrunning
      refine ⟨_, hsandboxed, ?_⟩
      rw [newEvents, modifySlot_self, hhead, ← hu.slot.vm]

/-! ## Two programs -/

/-- A runtime with an agent whose program is one instruction and a `NOP`, and a second agent. -/
def yieldingSystem (opcode : UInt8) : AgentSystem :=
  ⟨((fluxAgentInit none).fluxAgentSpawn FluxVm.plentifulHost true none none 0
    (some fun k => [opcode, 0, 0, 0, 0, 0, 0, 0].getD k 0) 8).2.withBare fluxCapCommunicate, []⟩

/-- The call in which the agent yields. -/
def yieldCall : AgentAction := .run FluxVm.plentifulHost 5 10

/-- The runtime after the yield. -/
def afterYield (opcode : UInt8) : AgentSystem := (step yieldCall (yieldingSystem opcode)).getD (yieldingSystem opcode)

/-- The second agent wakes the first one. -/
def wakeUp : List AgentAction := [.send true 6 5 .tell [7]]

/-- The runtime after the message. -/
def afterWakeUp (opcode : UInt8) : AgentSystem :=
  (execute step wakeUp (afterYield opcode)).getD (afterYield opcode)

theorem reachable_yieldingSystem (opcode : UInt8) : Reachable (fun _ _ => True) (yieldingSystem opcode) :=
  ⟨none, ((Reaches.refl (boot none)).tail (a := .spawn FluxVm.plentifulHost true none none 0
    (some fun k => [opcode, 0, 0, 0, 0, 0, 0, 0].getD k 0) 8) trivial rfl).tail
      (a := .spawnBare fluxCapCommunicate) trivial rfl⟩

/-- After `TELL` the agent goes on with the `NOP`. -/
theorem fluxAgentRun_resumes_iff_tell :
    ResumesFrom firstAgent ((afterYield 0x81).rt.agents firstAgent).vm FluxVm.plentifulHost 10
      (afterWakeUp 0x81) := by
  have hyields : YieldsAt firstAgent 0x81 ((afterYield 0x81).rt.agents firstAgent).vm (yieldingSystem 0x81)
      (afterYield 0x81) := ⟨_, rfl, _, _, rfl, rfl, rfl⟩
  have hstep : step yieldCall (yieldingSystem 0x81) = some (afterYield 0x81) := rfl
  have hrun : execute step wakeUp (afterYield 0x81) = some (afterWakeUp 0x81) := rfl
  refine (fluxAgentRun_resumes_iff (reachable_yieldingSystem 0x81) rfl hstep hyields ?_ hrun ?_ ?_).2
    ⟨by decide, ?_⟩
  · simp [wakeUp, AgentAction.RunsOrEnds]
  · decide +kernel
  · decide +kernel
  · simp [wakeUp]

/-- After `YIELD_AGENT` the next run of the agent does nothing, though a message has woken it. -/
theorem yieldAgent_not_resumes :
    step yieldCall (yieldingSystem 0x86) = some (afterYield 0x86) ∧
      YieldsAt firstAgent 0x86 ((afterYield 0x86).rt.agents firstAgent).vm (yieldingSystem 0x86) (afterYield 0x86) ∧
      execute step wakeUp (afterYield 0x86) = some (afterWakeUp 0x86) ∧
      ((afterYield 0x86).rt.agents firstAgent).desc.state = .waiting ∧
      ((afterWakeUp 0x86).rt.agents firstAgent).desc.state = .idle ∧
      ¬ ((afterWakeUp 0x86).rt.agents firstAgent).CpuExceeded ∧
      ¬ ResumesFrom firstAgent ((afterYield 0x86).rt.agents firstAgent).vm FluxVm.plentifulHost 10
        (afterWakeUp 0x86) := by
  refine ⟨rfl, ⟨_, rfl, _, _, rfl, rfl, rfl⟩, rfl, ?_, ?_, ?_, ?_⟩
  · decide +kernel
  · decide +kernel
  · decide +kernel
  · have hnone : ((afterWakeUp 0x86).sandboxed (.run FluxVm.plentifulHost 5 10)).all
        fun rt => ((afterWakeUp 0x86).newEvents rt firstAgent).isEmpty := by decide +kernel
    rintro ⟨rt, hrt, hhead⟩
    rw [show agentIdOf firstAgent = 5 from rfl] at hrt
    rw [hrt, Option.all_some, List.isEmpty_iff] at hnone
    rw [hnone] at hhead
    cases hhead

end FluxOs
