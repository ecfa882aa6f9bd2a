import FluxOs.Agent.SandboxRules

/-!
# How an agent ends

`flux_agent_run` is to return `FLUX_OK` when the VM has halted, and to mark the agent as `FAILED` when the VM has
raised an error or a trap, or a limit was violated.  The VM reports an error mostly as `FLUX_ERR_GENERAL`, which
the sandbox takes for the end of the program.
-/

namespace FluxOs

open Actions AgentRuntime

/-! ## What the VM did -/

namespace SandboxEvent

/-- The VM has halted in the step. -/
def Halts : SandboxEvent → Prop
  | .vmStep _ _ (.ok (_, vm)) => vm.state = .halted
  | _ => False

/-- The VM has raised an error or a trap in the step. -/
def Raises : SandboxEvent → Prop
  | .vmStep _ _ (.ok (status, vm)) => status ≠ .ok ∨ vm.state = .error ∨ vm.state = .trapped
  | _ => False

/-- The step has returned a status other than `FLUX_OK` and `FLUX_ERR_GENERAL`. -/
def Reports : SandboxEvent → Prop
  | .vmStep _ _ (.ok (status, _)) => status ≠ .ok ∧ status ≠ .errGeneral
  | _ => False

/-- What makes the sandbox mark the agent as `FAILED`. -/
def Fails (e : SandboxEvent) : Prop := e.Reports ∨ e.Violates

instance : DecidablePred Halts
  | .vmStep _ _ (.ok (_, vm)) => inferInstanceAs (Decidable (vm.state = .halted))
  | .vmStep _ _ (.error _) => .isFalse id
  | .violation .. => .isFalse id

instance : DecidablePred Raises
  | .vmStep _ _ (.ok (status, vm)) =>
    inferInstanceAs (Decidable (status ≠ .ok ∨ vm.state = .error ∨ vm.state = .trapped))
  | .vmStep _ _ (.error _) => .isFalse id
  | .violation .. => .isFalse id

instance : DecidablePred Reports
  | .vmStep _ _ (.ok (status, _)) => inferInstanceAs (Decidable (status ≠ .ok ∧ status ≠ .errGeneral))
  | .vmStep _ _ (.error _) => .isFalse id
  | .violation .. => .isFalse id

variable {e : SandboxEvent}

theorem Reports.raises (h : e.Reports) : e.Raises := by
  cases e with
  | violation => exact h.elim
  | vmStep vm capabilities result =>
    cases result with
    | error => exact h.elim
    | ok r => exact .inl h.1

end SandboxEvent

/-! ## One run -/

namespace AgentSlot

variable {slot slot' : AgentSlot} {host : Host} {now : UInt64} {r : Except Fault FluxStatus × AgentSlot}

/-- The agent is `FAILED` exactly if something in its log makes it so. -/
def FailedRight (slot : AgentSlot) : Prop := slot.desc.state = .failed ↔ ∃ e ∈ slot.log, e.Fails

/-- The agent has not failed. -/
structure Unfailed (slot : AgentSlot) : Prop where
  state : slot.desc.state ≠ .failed
  log : ∀ e ∈ slot.log, ¬ e.Fails

theorem Unfailed.failedRight (h : slot.Unfailed) : slot.FailedRight :=
  iff_of_false h.state fun ⟨e, he, hfails⟩ => h.log e he hfails

theorem FailedRight.unfailed (h : slot.FailedRight) (hstate : slot.desc.state ≠ .failed) : slot.Unfailed :=
  ⟨hstate, fun e he hfails => hstate (h.2 ⟨e, he, hfails⟩)⟩

theorem Unfailed.congr (h : slot.Unfailed) (hstate : slot'.desc.state ≠ .failed) (hlog : slot'.log = slot.log) :
    slot'.Unfailed := ⟨hstate, fun e he => h.log e (hlog ▸ he)⟩

theorem Unfailed.withState {state : AgentState} (h : slot.Unfailed) (hstate : state ≠ .failed) :
    (slot.withState state).Unfailed := ⟨hstate, h.log⟩

theorem failedRight_violation (slot : AgentSlot) (violation : UInt8) :
    (slot.sandboxHandleViolation violation).FailedRight := by
  have hviolates : (SandboxEvent.violation slot.vm slot.desc.capabilities violation).Violates := trivial
  refine iff_of_true state_sandboxHandleViolation ⟨_, ?_, .inr hviolates⟩
  rw [log_sandboxHandleViolation]
  exact List.mem_append_right _ List.mem_cons_self

/-- A VM step that the sandbox takes for a success or for the end of the program. -/
theorem VmStepped.unfailed {status : FluxStatus} {vm : FluxVm} (h : VmStepped host slot vm slot')
    (hstep : slot.vm.fluxVmStep host = .ok (status, vm)) (hslot : slot.Unfailed)
    (hstatus : status = .ok ∨ status = .errGeneral) (hstate : slot'.desc.state ≠ .failed) : slot'.Unfailed := by
  refine ⟨hstate, fun e he => ?_⟩
  rw [h.log, List.mem_append, List.mem_singleton] at he
  rcases he with he | rfl
  · exact hslot.log e he
  · rw [vmStepEvent, hstep]
    rintro (⟨hok, hgeneral⟩ | hfalse)
    · exact hstatus.elim hok hgeneral
    · exact hfalse

/-- A round keeps an agent that has not failed, or the agent fails for a reason. -/
def RoundRight (r : Except Fault FluxStatus × AgentSlot) : Prop :=
  (r.1 = .ok .ok → r.2.Unfailed) ∧ ∀ status, r.1 = .ok status → r.2.FailedRight

theorem Unfailed.roundRight {status : FluxStatus} (h : slot.Unfailed) : RoundRight (.ok status, slot) :=
  ⟨fun _ => h, fun _ _ => h.failedRight⟩

theorem roundRight_fault {fault : Fault} (h : r.1 = .error fault) : RoundRight r := by
  refine ⟨fun hok => ?_, fun status hok => ?_⟩
  · rw [h] at hok
    cases hok
  · rw [h] at hok
    cases hok

theorem roundRight_stepPlain (hslot : slot.Unfailed) : RoundRight (slot.stepPlain host now) := by
  cases hstep : slot.vm.fluxVmStep host with
  | error fault => exact roundRight_fault (stepPlain_of_fault hstep)
  | ok p =>
    obtain ⟨status, vm⟩ := p
    obtain ⟨hresult, hstate, hstepped⟩ := stepPlain_of_ok now hstep
    by_cases hstatus : status = .ok ∨ status = .errGeneral
    · have hunfailed : (slot.stepPlain host now).2.Unfailed := by
        refine hstepped.unfailed hstep hslot hstatus ?_
        rcases hstatus with rfl | rfl
        · simp [hstate, plainState]
        · simp [hstate, plainState]
      exact ⟨fun _ => hunfailed, fun _ _ => hunfailed.failedRight⟩
    · have hreports : status ≠ .ok ∧ status ≠ .errGeneral := not_or.1 hstatus
      refine ⟨fun hok => ?_, fun _ _ => iff_of_true ?_ ⟨slot.vmStepEvent host, ?_, .inl ?_⟩⟩
      · simp [hresult, hreports.1] at hok
      · rw [hstate]
        cases status
        case ok => exact absurd rfl hreports.1
        case errGeneral => exact absurd rfl hreports.2
        all_goals rfl
      · rw [hstepped.log]
        exact List.mem_append_right _ List.mem_cons_self
      · rw [vmStepEvent, hstep]
        exact hreports

theorem roundRight_stepA2a {opcode : UInt8} (hslot : slot.Unfailed)
    (hpeek : slot.vm.sandboxPeek = .ok (some opcode)) (ha2a : isA2aOpcode opcode = true) :
    RoundRight (slot.stepA2a host) := by
  have heffect := FluxVm.fluxVmStep_a2a host hpeek ha2a
  cases hstep : slot.vm.fluxVmStep host with
  | error fault => exact roundRight_fault (stepA2a_of_fault hstep)
  | ok p =>
    obtain ⟨status, vm⟩ := p
    obtain ⟨hresult, hstate, hstepped⟩ := stepA2a_of_ok hstep
    rw [hstep] at heffect
    have hstatus : status = .ok ∨ status = .errGeneral := by
      rcases heffect.2 with ⟨h, -⟩ | ⟨h, -⟩
      · exact .inr h
      · exact .inl h
    have hunfailed : (slot.stepA2a host).2.Unfailed := by
      refine hstepped.unfailed hstep hslot hstatus ?_
      rw [hstate]
      split_ifs
      · simp
      · exact hslot.state
    exact ⟨fun _ => hunfailed, fun _ _ => hunfailed.failedRight⟩

theorem Checked.roundRight (h : Checked host now slot r) (hslot : slot.Unfailed) : RoundRight r := by
  cases h with
  | halted => exact (hslot.withState (by simp)).roundRight
  | refused => exact hslot.roundRight
  | denied opcode violation => exact ⟨by simp, fun _ _ => failedRight_violation ..⟩
  | io => exact roundRight_stepPlain (hslot.congr hslot.state rfl)
  | a2a opcode hrun hpeek ha2a => exact roundRight_stepA2a hslot hpeek ha2a
  | plain => exact roundRight_stepPlain hslot

theorem Rounds.roundRight (h : Rounds host now slot r) (hslot : slot.Unfailed) : RoundRight r := by
  cases h with
  | cpu => exact ⟨by simp, fun _ _ => failedRight_violation ..⟩
  | memory => exact ⟨by simp, fun _ _ => failedRight_violation ..⟩
  | noVm => exact hslot.roundRight
  | checked _ _ _ _ hchecked =>
    refine hchecked.roundRight (hslot.congr ?_ (measured_keeps log (fun _ _ => rfl) slot))
    rw [measured_keeps (fun slot => slot.desc.state) (fun _ _ => rfl) slot]
    exact hslot.state

/-- A run of an agent that has not failed leaves it `FAILED` exactly if it should, and never returns
`FLUX_OK`. -/
theorem run_failedRight {maxTicks : UInt32} (hslot : slot.Unfailed) (h : slot.run host now maxTicks = some r) :
    r.1 ≠ .ok .ok ∧ ∀ status, r.1 = .ok status → r.2.FailedRight := by
  have hstart : (slot.startRun now).Unfailed := by
    refine hslot.congr ?_ ?_
    · simp [state_startRun]
    · exact log_startRun
  obtain ⟨r', hright, hne, rfl⟩ := run_rule (Q := fun r => ∀ status, r.1 = .ok status → r.2.FailedRight)
    (fun slot hslot _ _ => (hslot.withState (by simp)).failedRight)
    (fun slot r hslot heq =>
      have hround := (rounds_of_eq heq).roundRight hslot
      ⟨hround.1, fun _ => hround.2⟩) hstart h
  obtain ⟨hresult, hfinish⟩ := finishRun_eq hne
  refine ⟨hresult ▸ hne, fun status hok => ?_⟩
  rw [hresult] at hok
  rcases hfinish with heq | ⟨-, heq⟩
  · rw [heq]
    exact hright status hok
  · rw [heq]
    exact hright status hok

/-- A step of an agent that has not failed leaves it `FAILED` exactly if it should. -/
theorem step_failedRight (hslot : slot.Unfailed) (status : FluxStatus)
    (h : (slot.step host now).1 = .ok status) : (slot.step host now).2.FailedRight := by
  unfold step at h ⊢
  refine ((sandboxStep_rounds _ host now).roundRight ?_).2 status h
  split_ifs
  · exact hslot.congr hslot.state rfl
  · exact hslot.congr hslot.state rfl

end AgentSlot

/-! ## Runs of the runtime -/

namespace AgentSystem

variable {s t : AgentSystem} {i : AgentIdx} {a : AgentAction}

/-- A call of `flux_agent_run` for the agent returns `FLUX_OK`. -/
def ReturnsOk (id : UInt32) : List AgentAction → AgentSystem → Prop
  | [], _ => False
  | a :: as, s =>
    (∃ host maxTicks rt, a = .run host id maxTicks ∧ s.rt.fluxAgentRun host id maxTicks = some (.ok .ok, rt)) ∨
      ∃ t, step a s = some t ∧ ReturnsOk id as t

/-- The agent ends `TERMINATED` with the result `FLUX_OK` if and only if its VM has halted, and `FAILED` if and
only if its VM has raised an error or a trap or a check was violated. -/
structure EndsRight (i : AgentIdx) (as : List AgentAction) (s t : AgentSystem) : Prop where
  halted : (t.rt.agents i).desc.state = .terminated ∧ ReturnsOk (agentIdOf i) as s ↔
    ∃ e ∈ (t.rt.agents i).log, e.Halts
  failed : (t.rt.agents i).desc.state = .failed ↔ ∃ e ∈ (t.rt.agents i).log, e.Raises ∨ e.Violates

theorem fluxAgentRun_ne_ok {rt rt' : AgentRuntime} {host : Host} {id maxTicks : UInt32} :
    rt.fluxAgentRun host id maxTicks ≠ some (.ok .ok, rt') := by
  intro h
  obtain ⟨status, hne, heq⟩ | ⟨i, r', -, -, hrun, heq⟩ := fluxAgentRun_cases h
  · cases heq
    exact hne rfl
  · obtain ⟨r, hloop, rfl⟩ := Option.map_eq_some_iff.1 hrun
    have hne : r.1 ≠ .ok .ok := (AgentSlot.runLoop_rule (I := fun _ => True) (Q := fun _ => True)
      (fun _ _ => trivial) (fun _ _ _ _ => ⟨fun _ => trivial, fun _ => trivial⟩) trivial hloop).2
    rw [(AgentSlot.finishRun_eq hne).1] at heq
    exact hne (congrArg Prod.fst heq).symm

theorem not_returnsOk {id : UInt32} {as : List AgentAction} : ¬ ReturnsOk id as s := by
  induction as generalizing s with
  | nil => exact fun h => h
  | cons a as ih =>
    rintro (⟨host, maxTicks, rt, -, h⟩ | ⟨t, -, h⟩)
    · exact fluxAgentRun_ne_ok h
    · exact ih h

/-- A call keeps the agents `FAILED` exactly if they should be. -/
theorem failedRight_of_step (ha : a.Executes) (hs : (s.rt.agents i).FailedRight) (h : step a s = some t) :
    (t.rt.agents i).FailedRight := by
  have hcalls (hhost : ∃ host, a.host? = some host) : (t.rt.agents i).FailedRight := by
    obtain ⟨host, hhost⟩ := hhost
    obtain heq | ⟨host', r, -, -, hmay, hcall, heq, hok⟩ := sandboxed_cases (sandboxed_of_step hhost h) i
    · rwa [heq]
    · rw [heq]
      have hunfailed := hs.unfailed fun hstate => hmay (.inr (.inl hstate))
      obtain ⟨status, hstatus⟩ := hok t h
      cases hcall with
      | run maxTicks _ hrun => exact (AgentSlot.run_failedRight hunfailed hrun).2 status hstatus
      | step => exact AgentSlot.step_failedRight hunfailed status hstatus
  cases a with
  | tick =>
    cases h
    exact hs
  | run host => exact hcalls ⟨host, rfl⟩
  | step host => exact hcalls ⟨host, rfl⟩
  | _ => exact ha.elim

end AgentSystem

/-- An agent that has not run yet ends in the right way after a sequence of runs and steps if and only if its VM
does not halt, and if the VM raises an error or a trap, then a step of it returns a status other than
`FLUX_OK` and `FLUX_ERR_GENERAL`, or a check is violated. -/
theorem fluxAgentRun_endsRight_iff {s t : AgentSystem} {i : AgentIdx} {as : List AgentAction}
    (hexec : ∀ a ∈ as, a.Executes) (hnew : (s.rt.agents i).log = []) (hstate : (s.rt.agents i).desc.state ≠ .failed)
    (hrun : execute AgentSystem.step as s = some t) :
    AgentSystem.EndsRight i as s t ↔ (∀ e ∈ (t.rt.agents i).log, ¬ e.Halts) ∧
      ((∃ e ∈ (t.rt.agents i).log, e.Raises) → ∃ e ∈ (t.rt.agents i).log, e.Reports ∨ e.Violates) := by
  have hstart : (s.rt.agents i).FailedRight := iff_of_false hstate (by simp [hnew])
  have hfailed : (t.rt.agents i).FailedRight :=
    MeetsAlong.invariant (I := fun u => (u.rt.agents i).FailedRight)
      (meetsAlong_of_forall (C := fun a _ => a.Executes) fun a ha _ => hexec a ha)
      (fun a u v ha hu hstep => AgentSystem.failedRight_of_step ha hu hstep) hstart hrun
  have hok : ¬ AgentSystem.ReturnsOk (agentIdOf i) as s := AgentSystem.not_returnsOk
  constructor
  · rintro ⟨hhalted, hends⟩
    refine ⟨fun e he hhalts => hok (hhalted.2 ⟨e, he, hhalts⟩).2, ?_⟩
    rintro ⟨e, he, hraises⟩
    exact hfailed.1 (hends.2 ⟨e, he, .inl hraises⟩)
  · rintro ⟨hhalts, hraises⟩
    refine ⟨iff_of_false (fun h => hok h.2) fun ⟨e, he, h⟩ => hhalts e he h, hfailed.trans ⟨?_, ?_⟩⟩
    · rintro ⟨e, he, hreports | hviolates⟩
      · exact ⟨e, he, .inl hreports.raises⟩
      · exact ⟨e, he, .inr hviolates⟩
    · rintro ⟨e, he, hraised | hviolates⟩
      · exact hraises ⟨e, he, hraised⟩
      · exact ⟨e, he, .inr hviolates⟩

/-! ## Programs of one instruction -/

/-- `INVALID` makes the agent `FAILED`. -/
theorem fluxAgentRun_endsRight_iff_invalid :
    AgentSystem.EndsRight firstAgent oneRun (spawnedWith 0x03) (ranWith 0x03) := by
  refine (fluxAgentRun_endsRight_iff (by simp [oneRun, AgentAction.Executes]) rfl (by decide +kernel) rfl).2
    ⟨by decide +kernel, fun _ => ?_⟩
  have hreports : ∃ e ∈ ((ranWith 0x03).rt.agents firstAgent).log, e.Reports := by decide +kernel
  obtain ⟨e, he, h⟩ := hreports
  exact ⟨e, he, .inl h⟩

/-- After `HALT` the agent is `TERMINATED`, but `flux_agent_run` has not returned `FLUX_OK`. -/
theorem ranHalt_not_endsRight :
    execute AgentSystem.step oneRun (spawnedWith 0x01) = some (ranWith 0x01) ∧
      ((ranWith 0x01).rt.agents firstAgent).desc.state = .terminated ∧
      ¬ AgentSystem.EndsRight firstAgent oneRun (spawnedWith 0x01) (ranWith 0x01) := by
  refine ⟨rfl, by decide +kernel, fun hends => ?_⟩
  have hhalts : ∃ e ∈ ((ranWith 0x01).rt.agents firstAgent).log, e.Halts := by decide +kernel
  exact AgentSystem.not_returnsOk (hends.halted.2 hhalts).2

/-- A division by zero ends the agent as if its program had halted. -/
example : ((ranWith 0x13).rt.agents firstAgent).desc.state = .terminated ∧
      ∃ e ∈ ((ranWith 0x13).rt.agents firstAgent).log, e.Raises := by
  decide +kernel

end FluxOs
