import FluxOs.Agent.AgentIds
import FluxOs.Agent.CpuLimits
import FluxOs.Agent.Frames
import FluxOs.Agent.Pausing

/-!
# The sandbox is transparent

Apart from the state and the error code of the VM, which the sandbox, pauses and resumes set, nothing but the
instructions of its program changes the VM of an agent: at any moment of any run of the agent system it is what the
VM alone makes of the loaded program with as many instructions as the agent has executed.
-/

namespace FluxOs

open Actions AgentRuntime

namespace FluxVm

variable {vm vm₀ u v : FluxVm} {host : Host} {status : FluxStatus} {n : Nat}

/-- The VM apart from its state and its error code. -/
def program (vm : FluxVm) : FluxVm := { vm with state := .idle, errorCode := 0 }

/-- The VM executes `n` instructions on some hosts, and someone else may set its state and its error code. -/
inductive HasExecuted (vm₀ : FluxVm) : Nat → FluxVm → Prop
  | start {vm : FluxVm} : vm.program = vm₀.program → HasExecuted vm₀ 0 vm
  | insn {n : Nat} {vm u v : FluxVm} {host : Host} {status : FluxStatus} : HasExecuted vm₀ n u → u.stopped? = none →
      u.fluxVmStep host = .ok (status, v) → vm.program = v.program → HasExecuted vm₀ (n + 1) vm

theorem HasExecuted.congr (h : HasExecuted vm₀ n u) (hvm : vm.program = u.program) : HasExecuted vm₀ n vm := by
  cases h with
  | start hu => exact .start (hvm.trans hu)
  | insn hu hstop hstep hv => exact .insn hu hstop hstep (hvm.trans hv)

/-- A step that returns before the fetch sets the state and the error code only. -/
theorem program_of_stopped {r : FluxStatus × FluxVm} (h : vm.stopped? = some r) : r.2.program = vm.program := by
  unfold stopped? at h
  split_ifs at h
  all_goals
    cases h
    rfl

/-- A step of the VM. -/
theorem HasExecuted.step (h : HasExecuted vm₀ n u) (hstep : u.fluxVmStep host = .ok (status, v)) :
    HasExecuted vm₀ (if u.stopped?.isNone then n + 1 else n) v := by
  cases hstop : u.stopped? with
  | none => exact .insn h hstop hstep rfl
  | some r =>
    rw [fluxVmStep, hstop] at hstep
    cases hstep
    exact h.congr (program_of_stopped hstop)

end FluxVm

namespace AgentSlot

variable {slot slot' : AgentSlot} {host : Host} {now : UInt64} {vm₀ : FluxVm}
  {r : Except Fault FluxStatus × AgentSlot}

/-- The VM of the agent has come from `vm₀` with the instructions that the agent has executed. -/
def TracedFrom (vm₀ : FluxVm) (slot : AgentSlot) : Prop := vm₀.HasExecuted slot.executed slot.vm

/-- A call that returns leaves a VM that has come from `vm₀`. -/
def ReturnsTraced (vm₀ : FluxVm) (r : Except Fault FluxStatus × AgentSlot) : Prop :=
  ∀ status, r.1 = .ok status → r.2.TracedFrom vm₀

theorem TracedFrom.congr (h : slot.TracedFrom vm₀) (hvm : slot'.vm.program = slot.vm.program)
    (hexec : slot'.executed = slot.executed) : slot'.TracedFrom vm₀ := by
  unfold TracedFrom
  rw [hexec]
  exact FluxVm.HasExecuted.congr h hvm

/-! ## A step of the sandbox -/

theorem TracedFrom.violation {code : UInt8} (h : slot.TracedFrom vm₀) :
    (slot.sandboxHandleViolation code).TracedFrom vm₀ := by
  unfold sandboxHandleViolation
  simp only
  split_ifs
  all_goals exact h.congr rfl rfl

theorem TracedFrom.measured (h : slot.TracedFrom vm₀) : slot.measured.TracedFrom vm₀ :=
  h.congr (congrArg FluxVm.program (measured_keeps AgentSlot.vm (fun _ _ => rfl) slot))
    (measured_keeps AgentSlot.executed (fun _ _ => rfl) slot)

theorem TracedFrom.stepVm (h : slot.TracedFrom vm₀) : ReturnsTraced vm₀ (slot.stepVm host) := by
  intro status hstatus
  unfold AgentSlot.stepVm at hstatus ⊢
  cases hstep : slot.vm.fluxVmStep host with
  | error fault =>
    rw [hstep] at hstatus
    cases hstatus
  | ok p =>
    obtain ⟨status', vm⟩ := p
    exact FluxVm.HasExecuted.step h hstep

theorem TracedFrom.stepPlain (h : slot.TracedFrom vm₀) : ReturnsTraced vm₀ (slot.stepPlain host now) := by
  have hvm : ReturnsTraced vm₀ (slot.stepVm host) := h.stepVm
  unfold AgentSlot.stepPlain
  generalize slot.stepVm host = r at hvm
  obtain ⟨result, slot'⟩ := r
  intro status hstatus
  cases result with
  | error fault => cases hstatus
  | ok status' =>
    have hslot' : slot'.TracedFrom vm₀ := hvm status' rfl
    cases status' <;> exact hslot'.congr rfl rfl

theorem TracedFrom.stepA2a (h : slot.TracedFrom vm₀) : ReturnsTraced vm₀ (slot.stepA2a host) := by
  have hvm : ReturnsTraced vm₀ (slot.stepVm host) := h.stepVm
  unfold AgentSlot.stepA2a
  generalize slot.stepVm host = r at hvm
  obtain ⟨result, slot'⟩ := r
  intro status hstatus
  cases result with
  | error fault => cases hstatus
  | ok status' =>
    have hslot' : slot'.TracedFrom vm₀ := hvm status' rfl
    simp only
    split_ifs
    all_goals exact hslot'.congr rfl rfl

theorem TracedFrom.checked (h : slot.TracedFrom vm₀) (hr : Checked host now slot r) : ReturnsTraced vm₀ r := by
  cases hr with
  | halted => exact fun _ _ => h.congr rfl rfl
  | refused => exact fun _ _ => h
  | denied => exact fun _ _ => h.violation
  | io =>
    have haccount : slot.sandboxAccountIo.TracedFrom vm₀ := h.congr rfl rfl
    exact haccount.stepPlain
  | a2a => exact h.stepA2a
  | plain => exact h.stepPlain

theorem TracedFrom.rounds (h : slot.TracedFrom vm₀) (hr : Rounds host now slot r) : ReturnsTraced vm₀ r := by
  cases hr with
  | cpu => exact fun _ _ => h.violation
  | memory => exact fun _ _ => h.measured.violation
  | noVm => exact fun _ _ => h
  | checked _ _ _ _ hchecked => exact h.measured.checked hchecked

/-! ## A call -/

theorem TracedFrom.startRun (h : slot.TracedFrom vm₀) : (slot.startRun now).TracedFrom vm₀ := by
  unfold AgentSlot.startRun
  simp only
  split_ifs
  all_goals exact h.congr rfl rfl

theorem TracedFrom.run {maxTicks : UInt32} (h : slot.TracedFrom vm₀) (hr : slot.run host now maxTicks = some r) :
    ReturnsTraced vm₀ r := by
  have hround (slot : AgentSlot) (r : Except Fault FluxStatus × AgentSlot) (hslot : slot.TracedFrom vm₀)
      (heq : (slot.withinLimits fun slot => slot.sandboxStep host now) = r) :
      (r.1 = .ok .ok → r.2.TracedFrom vm₀) ∧ (r.1 ≠ .ok .ok → ReturnsTraced vm₀ r) :=
    ⟨hslot.rounds (rounds_of_eq heq) .ok, fun _ => hslot.rounds (rounds_of_eq heq)⟩
  obtain ⟨r', htraced, hne, rfl⟩ := run_rule (Q := ReturnsTraced vm₀) (fun _ hslot _ _ => hslot.congr rfl rfl)
    hround h.startRun hr
  obtain ⟨hresult, hslot | ⟨-, hslot⟩⟩ := finishRun_eq hne
  · intro status hstatus
    rw [hslot]
    exact htraced status (hresult ▸ hstatus)
  · intro status hstatus
    rw [hslot]
    exact (htraced status (hresult ▸ hstatus)).congr rfl rfl

theorem TracedFrom.step (h : slot.TracedFrom vm₀) : ReturnsTraced vm₀ (slot.step host now) := by
  unfold AgentSlot.step
  refine TracedFrom.rounds ?_ (sandboxStep_rounds ..)
  split_ifs
  all_goals exact h.congr rfl rfl

theorem TracedFrom.pause (h : slot.TracedFrom vm₀) : (pauseSlot now slot).TracedFrom vm₀ := by
  refine h.congr ?_ rfl
  unfold pauseSlot
  simp only
  split_ifs
  all_goals rfl

theorem TracedFrom.resume (h : slot.TracedFrom vm₀) : (resumeSlot now slot).TracedFrom vm₀ := by
  refine h.congr ?_ rfl
  unfold resumeSlot
  simp only
  split_ifs
  all_goals rfl

end AgentSlot

/-! ## Spawns -/

/-- The arguments of `flux_agent_spawn` that decide about the VM. -/
structure SpawnCall where
  host : Host
  bytecode : Option (Nat → UInt8)
  len : UInt64

open AgentRuntime in
/-- The VM that the call makes in slot `i`; bytecode of length 0 is not loaded. -/
def SpawnCall.vm (c : SpawnCall) (i : AgentIdx) (memory : UInt64) : FluxVm :=
  if c.bytecode.isSome ∧ c.len > 0 then spawnVm c.host (agentIdOf i) c.bytecode c.len memory
  else spawnVm c.host (agentIdOf i) none 0 memory

/-- The last call that returned the id of each slot, after an action. -/
def AgentAction.spawned (rt : AgentRuntime) (spawns : AgentIdx → Option SpawnCall) :
    AgentAction → AgentIdx → Option SpawnCall
  | .spawn host mem name model caps bytecode len => fun i =>
    if (rt.fluxAgentSpawn host mem name model caps bytecode len).1 = AgentRuntime.agentIdOf i then
      some ⟨host, bytecode, len⟩
    else spawns i
  | _ => spawns

namespace AgentRuntime

variable {rt rt' : AgentRuntime} {host : Host} {id : UInt32} {i k : AgentIdx} {call : Option SpawnCall}

/-- The VM of the agent in slot `i` has come from the VM that the call made. -/
def TracedAt (call : Option SpawnCall) (i : AgentIdx) (rt : AgentRuntime) : Prop :=
  (rt.agents i).active = true →
    ∃ c, call = some c ∧ (rt.agents i).TracedFrom (c.vm i rt.config.defaultMemory)

theorem TracedAt.congr (h : rt.TracedAt call i) (hconfig : rt'.config = rt.config)
    (hslot : rt'.agents i = rt.agents i) : rt'.TracedAt call i := by
  unfold TracedAt
  rw [hconfig, hslot]
  exact h

/-- A change of one slot that keeps what its VM has come from. -/
theorem TracedAt.modifySlot {slot : AgentSlot} (h : rt.TracedAt call i)
    (hactive : slot.active = (rt.agents k).active)
    (hslot : ∀ vm₀, (rt.agents k).TracedFrom vm₀ → slot.TracedFrom vm₀) :
    (rt.modifySlot k fun _ => slot).TracedAt call i := by
  by_cases hi : i = k
  · subst hi
    unfold TracedAt
    rw [modifySlot_self, hactive]
    intro hact
    obtain ⟨c, hc, htraced⟩ := h hact
    exact ⟨c, hc, hslot _ htraced⟩
  · exact h.congr rfl (modifySlot_of_ne hi)

theorem TracedAt.clearSlot (h : rt.TracedAt call i) (k : AgentIdx) : (rt.clearSlot k).TracedAt call i := by
  by_cases hi : i = k
  · subst hi
    intro hact
    rw [AgentRuntime.clearSlot, record, modifySlot_self] at hact
    cases hact
  · exact h.congr rfl (clearSlot_agents_of_ne hi)

/-- A new agent in slot `k` comes from the VM of its call. -/
theorem TracedAt.spawnSlot {name model : Option CString} {caps len len' : UInt64}
    {bytecode bytecode' : Option (Nat → UInt8)} (h : rt.TracedAt call i)
    (hvm : (SpawnCall.mk host bytecode len).vm k rt.config.defaultMemory =
      spawnVm host (agentIdOf k) bytecode' len' rt.config.defaultMemory) :
    (rt.modifySlot k fun _ => rt.spawnSlot host (agentIdOf k) name model caps bytecode' len').TracedAt
      (if agentIdOf k = agentIdOf i then some ⟨host, bytecode, len⟩ else call) i := by
  by_cases hi : i = k
  · subst hi
    intro _
    refine ⟨⟨host, bytecode, len⟩, if_pos rfl, ?_⟩
    rw [modifySlot_self]
    refine .start ?_
    show _ = ((SpawnCall.mk host bytecode len).vm i rt.config.defaultMemory).program
    rw [hvm]
    rfl
  · rw [if_neg fun hid => hi (agentIdOf_inj.1 hid).symm]
    exact h.congr rfl (modifySlot_of_ne hi)

theorem TracedAt.spawn {mem : Bool} {name model : Option CString} {caps len : UInt64}
    {bytecode : Option (Nat → UInt8)} (h : rt.TracedAt call i) :
    (rt.fluxAgentSpawn host mem name model caps bytecode len).2.TracedAt
      (if (rt.fluxAgentSpawn host mem name model caps bytecode len).1 = agentIdOf i then
        some ⟨host, bytecode, len⟩ else call) i := by
  have hrefused : fluxAgentIdInvalid ≠ agentIdOf i := (agentIdOf_ne_invalid i).symm
  unfold fluxAgentSpawn agentAllocId
  split
  · exact h
  split
  · exact h
  cases (List.finRange fluxAgentMax).find? fun i => !rt.agentBitmap i with
  | none =>
    rw [if_neg hrefused]
    exact h
  | some k =>
    have halloc : ({ rt with agentBitmap := Function.update rt.agentBitmap k true } : AgentRuntime).TracedAt call i :=
      h
    dsimp only
    by_cases hloads : bytecode.isSome = true ∧ len > 0
    · simp only [if_pos hloads]
      cases mem with
      | true => exact (halloc.clearSlot k).spawnSlot (if_pos hloads)
      | false =>
        simp only [Bool.false_eq_true, if_false]
        rw [if_neg hrefused, agentFreeId, agentIndexFromId_agentIdOf]
        exact halloc.clearSlot k
    · simp only [if_neg hloads]
      exact (halloc.clearSlot k).spawnSlot (if_neg hloads)

theorem TracedAt.terminate (h : rt.TracedAt call i) : (rt.fluxAgentTerminate id).2.TracedAt call i := by
  unfold fluxAgentTerminate
  split
  · exact h
  cases hk : rt.agentSlotById id with
  | none => exact h
  | some k =>
    simp only
    split
    · exact h
    · rw [(agentSlotById_eq_some.1 hk).1, agentFreeId, agentIndexFromId_agentIdOf]
      by_cases hi : i = k
      · subst hi
        have hclean (rt : AgentRuntime) :
            (rt.agentSlotCleanup i).agents i = cleanSlot (rt.agents i) := modifySlot_self
        intro hact
        cases (congrArg AgentSlot.active (hclean _)).symm.trans hact
      · exact h.congr rfl ((modifySlot_of_ne hi).trans (modifySlot_of_ne hi))

theorem TracedAt.pause (h : rt.TracedAt call i) : (rt.fluxAgentPause id).2.TracedAt call i := by
  obtain heq | ⟨k, -, -, -, heq⟩ := fluxAgentPause_cases rt id
  · rw [heq]
    exact h
  · rw [heq]
    exact h.modifySlot rfl fun _ => AgentSlot.TracedFrom.pause

theorem TracedAt.resume (h : rt.TracedAt call i) : (rt.fluxAgentResume id).2.TracedAt call i := by
  obtain heq | ⟨k, -, -, heq⟩ := fluxAgentResume_cases rt id
  · rw [heq]
    exact h
  · rw [heq]
    exact h.modifySlot rfl fun _ => AgentSlot.TracedFrom.resume

end AgentRuntime

namespace AgentSystem

variable {s t : AgentSystem} {a : AgentAction} {i : AgentIdx} {spawns : AgentIdx → Option SpawnCall}
  {call : Option SpawnCall}

/-- What an action that neither executes an agent nor changes the table of agents leaves of one. -/
theorem tracedAt_of_step_other (hs : s.rt.view.IdsSound) (htraced : s.rt.TracedAt call i) (h : step a s = some t)
    (hkind : a.kind = .mail ∨ a.kind = .capabilities ∨ a.kind = .registry) : t.rt.TracedAt call i := by
  have hdrives : ¬ a.Drives (agentIdOf i) := by
    cases a
    all_goals first | exact id | simp [AgentAction.kind] at hkind
  have hslot : (t.rt.view.slots i).active = (s.rt.view.slots i).active ∧
      (t.rt.view.slots i).executed = (s.rt.view.slots i).executed ∧ t.rt.view.config = s.rt.view.config := by
    have hkeeps := step_keeps (g := fun V => ((V.slots i).active, (V.slots i).executed, V.config)) h
      fun V V' hchange => ?_
    · simpa only [Prod.mk.injEq] using hkeeps
    · rw [hchange.config_eq.2]
      rcases hkind with hkind | hkind | hkind <;> rw [hkind] at hchange
      · rw [AgentView.Change.mail_keeps (g := SlotView.active) hchange (fun _ _ _ => rfl) i,
          AgentView.Change.mail_keeps (g := SlotView.executed) hchange (fun _ _ _ => rfl) i]
      · cases hchange
        rfl
      · cases hchange
        rfl
  intro hact
  have hact' : (s.rt.agents i).active = true := hslot.1.symm.trans hact
  have hbit : s.rt.agentBitmap i = true := (hs.bits i (hs.ne_zero_of_active hact')).trans hact'
  have hsame := undisturbed_of_step hbit hdrives h
  obtain ⟨c, hc, hfrom⟩ := htraced hact'
  refine ⟨c, hc, ?_⟩
  rw [show t.rt.config = s.rt.config from hslot.2.2]
  exact hfrom.congr (congrArg FluxVm.program hsame.vm) hslot.2.1

theorem tracedAt_of_step (hs : s.rt.view.IdsSound) (htraced : s.rt.TracedAt (spawns i) i) (h : step a s = some t) :
    t.rt.TracedAt (a.spawned s.rt spawns i) i := by
  have hother := tracedAt_of_step_other hs htraced h
  cases a with
  | spawn => cases h; exact htraced.spawn
  | terminate => cases h; exact htraced.terminate
  | pause => cases h; exact htraced.pause
  | resume => cases h; exact htraced.resume
  | run host id maxTicks =>
    obtain ⟨r, hr, hafter⟩ := Option.bind_eq_some_iff.1 h
    obtain ⟨status, -, rfl⟩ | ⟨k, r', -, -, hrun, rfl⟩ := fluxAgentRun_cases hr
    · cases hafter
      exact htraced
    · obtain ⟨result, slot⟩ := r'
      cases result with
      | error => cases hafter
      | ok status =>
        cases hafter
        refine htraced.modifySlot (AgentSlot.keepsAgent_run hrun).active fun vm₀ hfrom => ?_
        exact hfrom.run hrun status rfl
  | step host id =>
    rw [step] at h
    obtain ⟨status, -, heq⟩ | ⟨k, -, -, -, heq⟩ := fluxAgentStep_cases s.rt host id
    · rw [heq] at h
      cases h
      exact htraced
    · rw [heq] at h
      have hactive : ((s.rt.agents k).step host s.rt.agentNow).2.active = (s.rt.agents k).active :=
        AgentSlot.keepsAgent_step.active
      have hstep (vm₀ : FluxVm) (hfrom : (s.rt.agents k).TracedFrom vm₀) :
          AgentSlot.ReturnsTraced vm₀ ((s.rt.agents k).step host s.rt.agentNow) := hfrom.step
      generalize (s.rt.agents k).step host s.rt.agentNow = r at h hactive hstep
      obtain ⟨result, slot⟩ := r
      cases result with
      | error => cases h
      | ok status =>
        cases h
        exact htraced.modifySlot hactive fun vm₀ hfrom => hstep vm₀ hfrom status rfl
  | tick => cases h; exact htraced
  | grant | revoke | hasCap | transfer | inherit => exact hother (.inr (.inl rfl))
  | publish | unpublish | subscribe | unsubscribe => exact hother (.inr (.inr rfl))
  | send | recv | recvRound | broadcast | reply | delegate | delegateResult => exact hother (.inl rfl)

end AgentSystem

/-! ## The ledger of spawns -/

/-- The agent system with the last call for each slot that returned its id. -/
structure SpawnRun where
  sys : AgentSystem
  spawns : AgentIdx → Option SpawnCall

namespace SpawnRun

variable {x y : SpawnRun} {a : AgentAction} {i : AgentIdx} {config : Option AgentConfig}

/-- One action, noted in the ledger. -/
def step (a : AgentAction) (x : SpawnRun) : Option SpawnRun :=
  (AgentSystem.step a x.sys).map fun s => ⟨s, a.spawned x.sys.rt x.spawns⟩

/-- The state after `flux_agent_init`: nothing was spawned. -/
def boot (config : Option AgentConfig) : SpawnRun := ⟨AgentSystem.boot config, fun _ => none⟩

/-- The ids are sound, and the VMs of the agents have come from those of the calls in the ledger. -/
structure Traced (x : SpawnRun) : Prop where
  ids : x.sys.rt.view.IdsSound
  traced : ∀ i, x.sys.rt.TracedAt (x.spawns i) i

theorem Traced.step (hx : x.Traced) (h : SpawnRun.step a x = some y) : y.Traced := by
  obtain ⟨s, hs, rfl⟩ := Option.map_eq_some_iff.1 h
  exact ⟨AgentSystem.idsSound_of_step hx.ids hs, fun i => AgentSystem.tracedAt_of_step hx.ids (hx.traced i) hs⟩

/-- At any moment of a run the VM of an active agent has, apart from its state and its error code, come from the VM
that the spawn made which last returned the agent's id, by as many instructions as the agent has executed. -/
theorem agent_vm_transparent (h : Reaches SpawnRun.step (fun _ _ => True) (SpawnRun.boot config) x)
    (hact : (x.sys.rt.agents i).active = true) :
    ∃ c, x.spawns i = some c ∧ (c.vm i x.sys.rt.config.defaultMemory).HasExecuted
      (x.sys.rt.agents i).executed (x.sys.rt.agents i).vm := by
  have hboot : (SpawnRun.boot config).Traced := by
    have hboot : AgentSystem.Reachable (fun _ _ => True) (AgentSystem.boot config) := ⟨config, Reaches.refl _⟩
    refine ⟨AgentSystem.idsSound_of_reachable hboot, fun i hact => ?_⟩
    cases hact
  have hx : x.Traced := h.invariant (fun _ _ _ _ hx hstep => hx.step hstep) hboot
  exact hx.traced i hact

/-- An agent with a program of two `NOP`s, run for one instruction. -/
def slicedRun : Option SpawnRun :=
  execute SpawnRun.step [.spawn FluxVm.plentifulHost true none none 0
    (some fun k => [0, 0, 0, 0, 0, 0, 0, 0].getD k 0) 8, .run FluxVm.plentifulHost 5 1] (SpawnRun.boot none)

/-- Between two time slices, the agent has executed one instruction of the program that it was spawned with. -/
theorem agent_vm_transparent_sliced : ∃ x ∈ slicedRun, (x.sys.rt.agents firstAgent).executed = 1 ∧
    ∃ c, x.spawns firstAgent = some c ∧
      (c.vm firstAgent x.sys.rt.config.defaultMemory).HasExecuted 1
        (x.sys.rt.agents firstAgent).vm := by
  have hdone : slicedRun.any (fun x => (x.sys.rt.agents firstAgent).executed = 1 ∧
      (x.sys.rt.agents firstAgent).active = true) = true := by decide +kernel
  obtain ⟨x, hx, hfirst⟩ := (Option.any_eq_true ..).1 hdone
  obtain ⟨hexecuted, hact⟩ := of_decide_eq_true hfirst
  refine ⟨x, hx, hexecuted, ?_⟩
  rw [← hexecuted]
  exact agent_vm_transparent (reaches_of_execute hx) hact

end SpawnRun

end FluxOs
