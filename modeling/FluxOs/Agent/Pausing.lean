import FluxOs.Agent.CpuLimits
import FluxOs.Agent.Frames

/-!
# Pause and resume

A pause halts a VM that is running, and a resume makes the VM idle only if its agent is `THINKING`.  The runs and
steps of an agent that was paused and resumed are compared with those of the same agent left alone.
-/

namespace FluxOs

open Actions AgentRuntime

namespace AgentSlot

variable {slot slot' : AgentSlot} {host : Host} {now : UInt64} {r : Except Fault FluxStatus × AgentSlot}
  {maxTicks : UInt32}

/-! ## Slots that behave in the same way -/

/-- What is seen of an agent: its descriptor but for the time of its last activity, and its VM but for the state. -/
def visible (slot : AgentSlot) : AgentDesc × FluxVm :=
  ({ slot.desc with lastActive := 0 }, { slot.vm with state := .idle })

/-- Two slots that show the same. -/
def Alike (slot slot' : AgentSlot) : Prop :=
  ∃ state lastActive log,
    slot' = { slot with vm := { slot.vm with state }, desc := { slot.desc with lastActive }, log }

theorem Alike.refl (slot : AgentSlot) : Alike slot slot := ⟨_, _, _, rfl⟩

theorem Alike.visible (h : Alike slot slot') : slot'.visible = slot.visible := by
  obtain ⟨state, lastActive, log, rfl⟩ := h
  rfl

theorem Alike.mayNotRun (h : Alike slot slot') : slot'.MayNotRun ↔ slot.MayNotRun := by
  obtain ⟨state, lastActive, log, rfl⟩ := h
  exact Iff.rfl

theorem Alike.cpuExceeded (h : Alike slot slot') : slot'.CpuExceeded ↔ slot.CpuExceeded := by
  obtain ⟨state, lastActive, log, rfl⟩ := h
  exact Iff.rfl

theorem Alike.memoryExceeded (h : Alike slot slot') : slot'.MemoryExceeded ↔ slot.MemoryExceeded := by
  obtain ⟨state, lastActive, log, rfl⟩ := h
  exact Iff.rfl

theorem Alike.measured (h : Alike slot slot') : Alike slot.measured slot'.measured := by
  obtain ⟨state, lastActive, log, rfl⟩ := h
  by_cases hmeasures : slot.Measures
  · rw [show slot.measured = _ from if_pos hmeasures]
    exact ⟨state, lastActive, log, if_pos hmeasures⟩
  · rw [measured_of_not hmeasures]
    exact ⟨state, lastActive, log, if_neg hmeasures⟩

theorem Alike.startRun (h : Alike slot slot') : Alike (slot.startRun now) (slot'.startRun now) := by
  obtain ⟨state, lastActive, log, rfl⟩ := h
  unfold AgentSlot.startRun
  dsimp only
  split_ifs <;> exact ⟨_, _, _, rfl⟩

theorem Alike.sandboxHandleViolation {code : UInt8} (h : Alike slot slot') :
    Alike (slot.sandboxHandleViolation code) (slot'.sandboxHandleViolation code) := by
  obtain ⟨state, lastActive, log, rfl⟩ := h
  unfold AgentSlot.sandboxHandleViolation withState
  dsimp only
  split_ifs <;> exact ⟨_, _, _, rfl⟩

/-- A limit of the agent is exceeded. -/
def LimitExceeded (slot : AgentSlot) : Prop := slot.CpuExceeded ∨ slot.MemoryExceeded

instance : Decidable slot.LimitExceeded := inferInstanceAs (Decidable (_ ∨ _))

/-- Two slots with the same runs and steps: they begin them in the same way, or there are none. -/
structure Matches (slot slot' : AgentSlot) : Prop where
  alike : Alike slot slot'
  starts : slot.MayNotRun ∨ slot.LimitExceeded ∨
    (∀ now, slot'.startRun now = slot.startRun now) ∧ ∀ host now, slot'.step host now = slot.step host now

theorem Matches.refl (slot : AgentSlot) : Matches slot slot :=
  ⟨.refl slot, .inr (.inr ⟨fun _ => rfl, fun _ _ => rfl⟩)⟩

/-- The results are the same, and the slots match. -/
def SameOutcome (r r' : Except Fault FluxStatus × AgentSlot) : Prop := r'.1 = r.1 ∧ Matches r.2 r'.2

theorem SameOutcome.refl (r : Except Fault FluxStatus × AgentSlot) : SameOutcome r r := ⟨rfl, .refl r.2⟩

/-- A violation makes both agents `FAILED`. -/
theorem sameOutcome_violation {code : UInt8} (h : Alike slot slot') :
    SameOutcome (.ok .errInvalid, slot.sandboxHandleViolation code)
      (.ok .errInvalid, slot'.sandboxHandleViolation code) :=
  ⟨rfl, h.sandboxHandleViolation, .inl (.inr (.inl state_sandboxHandleViolation))⟩

/-- If a limit is exceeded, the agents fail before they do anything. -/
theorem sameOutcome_withinLimits {next : AgentSlot → Except Fault FluxStatus × AgentSlot} (h : Alike slot slot')
    (hlimit : slot.LimitExceeded) : SameOutcome (slot.withinLimits next) (slot'.withinLimits next) ∧
      (slot.withinLimits next).1 = .ok .errInvalid ∧ (slot.withinLimits next).2.desc.state = .failed := by
  rw [withinLimits_eq, withinLimits_eq]
  by_cases hcpu : slot.CpuExceeded
  · rw [if_pos hcpu, if_pos (h.cpuExceeded.2 hcpu)]
    exact ⟨sameOutcome_violation h, rfl, state_sandboxHandleViolation⟩
  · have hmemory : slot.MemoryExceeded := hlimit.resolve_left hcpu
    rw [if_neg hcpu, if_neg (mt h.cpuExceeded.1 hcpu), if_pos hmemory, if_pos (h.memoryExceeded.2 hmemory)]
    exact ⟨sameOutcome_violation h.measured, rfl, state_sandboxHandleViolation⟩

theorem finishRun_of_failed (hresult : r.1 = .ok .errInvalid) (hstate : r.2.desc.state = .failed) :
    finishRun r = r := by
  obtain ⟨result, slot⟩ := r
  subst hresult
  rw [finishRun, if_neg]
  rintro ⟨h | h, -⟩
  · cases h
  · rw [hstate] at h
    cases h

theorem limitExceeded_startRun : (slot.startRun now).LimitExceeded ↔ slot.LimitExceeded := by
  unfold startRun
  dsimp only
  split_ifs <;> exact Iff.rfl

/-- The runs of slots that match. -/
theorem Matches.run (h : Matches slot slot') (hmay : ¬ slot.MayNotRun) :
    Option.Rel SameOutcome (slot.run host now maxTicks) (slot'.run host now maxTicks) := by
  obtain hlimit | ⟨hstart, -⟩ := h.starts.resolve_left hmay
  · have hround : SameOutcome (slot.firstRound host now) (slot'.firstRound host now) ∧
        (slot.firstRound host now).1 = .ok .errInvalid ∧ (slot.firstRound host now).2.desc.state = .failed :=
      sameOutcome_withinLimits h.alike.startRun (limitExceeded_startRun.2 hlimit)
    obtain ⟨hsame, hresult, hstate⟩ := hround
    have hresult' : (slot'.firstRound host now).1 = .ok .errInvalid := hsame.1.trans hresult
    have hstate' : (slot'.firstRound host now).2.desc.state = .failed := by
      obtain ⟨state, lastActive, log, heq⟩ := hsame.2.alike
      exact (congrArg (fun slot => slot.desc.state) heq).trans hstate
    rw [run_of_ends maxTicks (by simp [hresult]), run_of_ends maxTicks (by simp [hresult']),
      finishRun_of_failed hresult hstate, finishRun_of_failed hresult' hstate']
    exact .some hsame
  · have hused : slot'.desc.limits = slot.desc.limits := by
      obtain ⟨state, lastActive, log, rfl⟩ := h.alike
      rfl
    rw [AgentSlot.run, AgentSlot.run, hstart, hused]
    cases runLoop host now maxTicks _ slot.desc.limits.usedCpuTicks (runFuel maxTicks) 0 (slot.startRun now) with
    | none => exact .none
    | some r => exact .some (.refl _)

theorem step_eq (hvm : slot.vmInitialized = true) : slot.step host now =
    (slot.startStep now).withinLimits fun slot => slot.stepChecked host now := by
  refine sandboxStep_of_vm ?_
  dsimp only
  split_ifs <;> exact hvm

theorem Alike.startStep (h : Alike slot slot') : Alike (slot.startStep now) (slot'.startStep now) := by
  obtain ⟨state, lastActive, log, rfl⟩ := h
  unfold AgentSlot.startStep
  dsimp only
  split_ifs <;> exact ⟨_, _, _, rfl⟩

theorem limitExceeded_startStep : (slot.startStep now).LimitExceeded ↔ slot.LimitExceeded := by
  unfold startStep
  dsimp only
  split_ifs <;> exact Iff.rfl

/-- The steps of slots that match. -/
theorem Matches.step (h : Matches slot slot') (hmay : ¬ slot.MayNotRun) (hvm : slot.vmInitialized = true) :
    SameOutcome (slot.step host now) (slot'.step host now) := by
  obtain hlimit | ⟨-, hstep⟩ := h.starts.resolve_left hmay
  · have hvm' : slot'.vmInitialized = true := by
      obtain ⟨state, lastActive, log, rfl⟩ := h.alike
      exact hvm
    rw [step_eq hvm, step_eq hvm']
    exact (sameOutcome_withinLimits h.alike.startStep (limitExceeded_startStep.2 hlimit)).1
  · rw [hstep]
    exact .refl _

end AgentSlot

/-! ## Runtimes that behave in the same way -/

namespace AgentRuntime

variable {rt rt' : AgentRuntime} {i j : AgentIdx} {slot slot' : AgentSlot} {host : Host} {id maxTicks : UInt32}

/-- The runtimes differ in one slot only, and the two slots match. -/
def SimilarAt (i : AgentIdx) (rt rt' : AgentRuntime) : Prop :=
  ∃ slot, (rt.agents i).Matches slot ∧ rt' = rt.modifySlot i fun _ => slot

theorem similarAt_modify_of_ne (hij : j ≠ i) (h : (rt.agents i).Matches slot) :
    SimilarAt i (rt.modifySlot j fun _ => slot') ((rt.modifySlot i fun _ => slot).modifySlot j fun _ => slot') := by
  refine ⟨slot, ?_, ?_⟩
  · rw [modifySlot_of_ne hij.symm]
    exact h
  · unfold modifySlot
    rw [Function.update_comm hij]

theorem similarAt_modify_self {slot₁ slot₂ : AgentSlot} (h : slot₁.Matches slot₂) :
    SimilarAt i (rt.modifySlot i fun _ => slot₁) ((rt.modifySlot i fun _ => slot).modifySlot i fun _ => slot₂) := by
  refine ⟨slot₂, ?_, ?_⟩
  · rw [modifySlot_self]
    exact h
  · unfold modifySlot
    simp only [Function.update_idem]

theorem SimilarAt.slotById (h : SimilarAt i rt rt') (id : UInt32) : rt'.agentSlotById id = rt.agentSlotById id := by
  obtain ⟨slot, ⟨⟨state, lastActive, log, heq⟩, -⟩, rfl⟩ := h
  refine slotById_of_active (fun k => ?_) id
  by_cases hk : k = i
  · subst hk
    rw [modifySlot_self, heq]
  · rw [modifySlot_of_ne hk]

/-- The results are the same, and the runtimes similar. -/
def SameResult (i : AgentIdx) (r r' : Except Fault FluxStatus × AgentRuntime) : Prop :=
  r'.1 = r.1 ∧ SimilarAt i r.2 r'.2

theorem SimilarAt.run (h : SimilarAt i rt rt') :
    Option.Rel (SameResult i) (rt.fluxAgentRun host id maxTicks) (rt'.fluxAgentRun host id maxTicks) := by
  have hid := h.slotById id
  obtain ⟨slot, hmatch, rfl⟩ := h
  have hsame : (rt.modifySlot i fun _ => slot).initialized = rt.initialized ∧
      (rt.modifySlot i fun _ => slot).agentNow = rt.agentNow := ⟨rfl, rfl⟩
  unfold fluxAgentRun
  rw [hid, hsame.1, hsame.2]
  by_cases hinit : (!rt.initialized) = true
  · rw [if_pos hinit, if_pos hinit]
    exact .some ⟨rfl, slot, hmatch, rfl⟩
  rw [if_neg hinit, if_neg hinit]
  cases rt.agentSlotById id with
  | none => exact .some ⟨rfl, slot, hmatch, rfl⟩
  | some j =>
    dsimp only
    by_cases hij : j = i
    · subst hij
      rw [modifySlot_self]
      by_cases hmay : (rt.agents j).MayNotRun
      · rw [if_pos hmay, if_pos (hmatch.alike.mayNotRun.2 hmay)]
        exact .some ⟨rfl, slot, hmatch, rfl⟩
      rw [if_neg hmay, if_neg (mt hmatch.alike.mayNotRun.1 hmay)]
      have hrun : Option.Rel AgentSlot.SameOutcome ((rt.agents j).run host rt.agentNow maxTicks)
        (slot.run host rt.agentNow maxTicks) := hmatch.run hmay
      generalize (rt.agents j).run host rt.agentNow maxTicks = r at hrun
      generalize slot.run host rt.agentNow maxTicks = r' at hrun
      cases hrun with
      | none => exact .none
      | some hsame => exact .some ⟨hsame.1, similarAt_modify_self hsame.2⟩
    · rw [modifySlot_of_ne hij]
      by_cases hmay : (rt.agents j).MayNotRun
      · rw [if_pos hmay, if_pos hmay]
        exact .some ⟨rfl, slot, hmatch, rfl⟩
      rw [if_neg hmay, if_neg hmay]
      cases (rt.agents j).run host rt.agentNow maxTicks with
      | none => exact .none
      | some r => exact .some ⟨rfl, similarAt_modify_of_ne hij hmatch⟩

theorem SimilarAt.step (h : SimilarAt i rt rt') :
    SameResult i (rt.fluxAgentStep host id) (rt'.fluxAgentStep host id) := by
  have hid := h.slotById id
  obtain ⟨slot, hmatch, rfl⟩ := h
  have hsame : (rt.modifySlot i fun _ => slot).initialized = rt.initialized ∧
      (rt.modifySlot i fun _ => slot).agentNow = rt.agentNow := ⟨rfl, rfl⟩
  unfold fluxAgentStep
  rw [hid, hsame.1, hsame.2]
  by_cases hinit : (!rt.initialized) = true
  · rw [if_pos hinit, if_pos hinit]
    exact ⟨rfl, slot, hmatch, rfl⟩
  rw [if_neg hinit, if_neg hinit]
  cases rt.agentSlotById id with
  | none => exact ⟨rfl, slot, hmatch, rfl⟩
  | some j =>
    dsimp only
    by_cases hij : j = i
    · subst hij
      rw [modifySlot_self]
      have hload : slot.vmInitialized = (rt.agents j).vmInitialized ∧
          slot.vm.bytecodeLen = (rt.agents j).vm.bytecodeLen := by
        obtain ⟨state, lastActive, log, rfl⟩ := hmatch.alike
        exact ⟨rfl, rfl⟩
      rw [hload.1, hload.2]
      by_cases hmay : (rt.agents j).MayNotRun
      · rw [if_pos hmay, if_pos (hmatch.alike.mayNotRun.2 hmay)]
        exact ⟨rfl, slot, hmatch, rfl⟩
      rw [if_neg hmay, if_neg (mt hmatch.alike.mayNotRun.1 hmay)]
      split_ifs with hvm
      · exact ⟨rfl, slot, hmatch, rfl⟩
      · have hstep : AgentSlot.SameOutcome ((rt.agents j).step host rt.agentNow) (slot.step host rt.agentNow) :=
          hmatch.step hmay (by simpa using (not_or.1 hvm).1)
        exact ⟨hstep.1, similarAt_modify_self hstep.2⟩
    · rw [modifySlot_of_ne hij]
      split_ifs
      · exact ⟨rfl, slot, hmatch, rfl⟩
      · exact ⟨rfl, slot, hmatch, rfl⟩
      · exact ⟨rfl, similarAt_modify_of_ne hij hmatch⟩

theorem SimilarAt.visible (h : SimilarAt i rt rt') : (rt'.agents i).visible = (rt.agents i).visible := by
  obtain ⟨slot, hmatch, rfl⟩ := h
  rw [modifySlot_self]
  exact hmatch.alike.visible

theorem SimilarAt.tick (h : SimilarAt i rt rt') : SimilarAt i { rt with tickCounter := rt.tickCounter + 1 }
    { rt' with tickCounter := rt'.tickCounter + 1 } := by
  obtain ⟨slot, hmatch, rfl⟩ := h
  exact ⟨slot, hmatch, rfl⟩

end AgentRuntime

namespace AgentSystem

variable {s s' t u : AgentSystem} {a : AgentAction} {i : AgentIdx}

/-- What a call returns, and what it leaves, also if the VM faults in it. -/
def outcome (s : AgentSystem) : AgentAction → Option (Except Fault FluxStatus × AgentRuntime)
  | .run host id maxTicks => s.rt.fluxAgentRun host id maxTicks
  | .step host id => some (s.rt.fluxAgentStep host id)
  | _ => none

/-- What is seen of a call: its result, and what it leaves of the agent. -/
def see (i : AgentIdx) (a : AgentAction) (s : AgentSystem) :
    Option (Except Fault FluxStatus × AgentDesc × FluxVm) :=
  (s.outcome a).map fun r => (r.1, (r.2.agents i).visible)

/-- The systems are similar. -/
def SimilarAt (i : AgentIdx) (s s' : AgentSystem) : Prop := s.rt.SimilarAt i s'.rt ∧ s'.receives = s.receives

theorem SimilarAt.outcome (h : SimilarAt i s s') (a : AgentAction) :
    Option.Rel (SameResult i) (s.outcome a) (s'.outcome a) := by
  cases a
  case run => exact h.1.run
  case step => exact .some h.1.step
  all_goals exact .none

theorem SimilarAt.see_eq (h : SimilarAt i s s') (a : AgentAction) : see i a s' = see i a s := by
  have hsame := h.outcome a
  unfold see
  generalize s.outcome a = r at hsame
  generalize s'.outcome a = r' at hsame
  cases hsame with
  | none => rfl
  | some hsame => exact congrArg some (Prod.ext hsame.1 hsame.2.visible)

theorem SimilarAt.afterExecution {r r' : Except Fault FluxStatus × AgentRuntime} (h : SimilarAt i s s')
    (hsame : SameResult i r r') : Option.Rel (SimilarAt i) (s.afterExecution r) (s'.afterExecution r') := by
  obtain ⟨result, rt⟩ := r
  obtain ⟨result', rt'⟩ := r'
  obtain ⟨rfl, hsimilar⟩ := hsame
  cases result' with
  | error => exact .none
  | ok status => exact .some ⟨hsimilar, h.2⟩

theorem SimilarAt.step (h : SimilarAt i s s') (ha : a.Executes) :
    Option.Rel (SimilarAt i) (step a s) (step a s') := by
  cases a with
  | run host id maxTicks =>
    have hsame : Option.Rel (SameResult i) (s.rt.fluxAgentRun host id maxTicks)
      (s'.rt.fluxAgentRun host id maxTicks) := h.1.run
    rw [AgentSystem.step, AgentSystem.step]
    generalize s.rt.fluxAgentRun host id maxTicks = r at hsame
    generalize s'.rt.fluxAgentRun host id maxTicks = r' at hsame
    cases hsame with
    | none => exact .none
    | some hsame => exact h.afterExecution hsame
  | step host id => exact h.afterExecution h.1.step
  | tick => exact .some ⟨h.1.tick, h.2⟩
  | _ => exact ha.elim

/-- Similar systems are not told apart by runs and steps. -/
theorem SimilarAt.trace {as : List AgentAction} (h : SimilarAt i s s') (has : ∀ a ∈ as, a.Executes) :
    trace AgentSystem.step (see i) as s' = trace AgentSystem.step (see i) as s :=
  trace_eq_of_simulation (fun a _ => a.Executes) (fun a _ _ _ h => h.see_eq a) (fun _ _ _ ha h => h.step ha)
    (fun a ha _ => has a ha) h

end AgentSystem

/-! ## A pause and a resume -/

namespace AgentSlot

variable {slot : AgentSlot} {host : Host} {now : UInt64} {r : Except Fault FluxStatus × AgentSlot}

/-- The state of the VM after a pause and a resume. -/
def restoredState (slot : AgentSlot) : FluxVmState :=
  if slot.desc.state = .thinking then .idle
  else if slot.vm.state = .running then .halted else slot.vm.state

theorem resumeSlot_pauseSlot (hvm : slot.vmInitialized = true) : resumeSlot now (pauseSlot now slot) =
    { slot with
      paused := false
      vm := { slot.vm with state := slot.restoredState }
      desc := { slot.desc with lastActive := now } } := by
  unfold resumeSlot pauseSlot restoredState
  dsimp only
  rw [hvm]
  by_cases hthinking : slot.desc.state = .thinking
  · by_cases hrunning : slot.vm.state = .running
    · simp [hthinking, hrunning, FluxVm.fluxVmHalt]
    · simp [hthinking, hrunning]
  · by_cases hrunning : slot.vm.state = .running
    · simp [hthinking, hrunning, FluxVm.fluxVmHalt]
    · simp [hthinking, hrunning]

/-- The resume undoes what the pause did: a running VM is idle again, and any other VM is left alone. -/
def Restored (slot : AgentSlot) : Prop :=
  slot.vm.state = .running ∧ slot.desc.state = .thinking ∨
    slot.vm.state ≠ .running ∧ (slot.desc.state = .thinking → slot.vm.state = .idle)

/-- The agent is not paused, and it fails at once anyway, or the resume undoes what the pause did. -/
def PauseHarmless (slot : AgentSlot) : Prop := slot.paused = false ∧ (slot.LimitExceeded ∨ slot.Restored)

/-- Two states of a VM in which it begins alike. -/
theorem starts_alike (hvm : slot.vmInitialized = true) {state : FluxVmState} {lastActive : UInt64}
    (hstate : state = slot.vm.state ∨ state = .idle ∧ slot.vm.state = .running) :
    (∀ now, AgentSlot.startRun { slot with
        vm := { slot.vm with state }, desc := { slot.desc with lastActive } } now = slot.startRun now) ∧
      ∀ host now, AgentSlot.step { slot with
        vm := { slot.vm with state }, desc := { slot.desc with lastActive } } host now = slot.step host now := by
  obtain rfl | ⟨rfl, hrunning⟩ := hstate
  · refine ⟨fun now => rfl, fun host now => ?_⟩
    unfold step
    dsimp only
    split_ifs <;> rfl
  · have hvmEq : ({ slot.vm with state := .running } : FluxVm) = slot.vm := by rw [← hrunning]
    refine ⟨fun now => ?_, fun host now => ?_⟩
    · unfold startRun withVmState
      simp [hvm, hrunning, hvmEq]
    · unfold step withVmState
      simp [hrunning, hvmEq]

theorem matches_of_pauseHarmless (hvm : slot.vmInitialized = true) (h : slot.PauseHarmless) :
    slot.Matches (resumeSlot now (pauseSlot now slot)) := by
  rw [resumeSlot_pauseSlot hvm, ← h.1]
  refine ⟨⟨_, _, _, rfl⟩, .inr ?_⟩
  obtain ⟨-, hlimit | hrestored⟩ := h
  · exact .inl hlimit
  · refine .inr (starts_alike hvm ?_)
    unfold restoredState
    obtain ⟨hrunning, hthinking⟩ | ⟨hrunning, hidle⟩ := hrestored
    · exact .inr ⟨if_pos hthinking, hrunning⟩
    · left
      split_ifs with hthinking
      · exact (hidle hthinking).symm
      · rfl

/-! ## A run of one tick -/

/-- The ticks that the agent has used. -/
def usedTicks (slot : AgentSlot) : UInt64 := slot.desc.limits.usedCpuTicks

theorem usedTicks_measured : slot.measured.usedTicks = slot.usedTicks :=
  measured_keeps usedTicks (fun _ _ => rfl) slot

/-- What an instruction can end with: it faults, it is refused, the agent goes on or yields, or the agent ends; a
step that ends the agent is charged. -/
inductive Executed (slot : AgentSlot) : Except Fault FluxStatus × AgentSlot → Prop
  | faulted (fault : Fault) (slot' : AgentSlot) : Executed slot (.error fault, slot')
  | denied (slot' : AgentSlot) : Executed slot (.ok .errDenied, slot')
  | yielded (slot' : AgentSlot) : Executed slot (.ok .errBusy, slot')
  | ended (slot' : AgentSlot) : slot'.desc.state ≠ .terminated ∨ slot'.usedTicks ≠ slot.usedTicks →
      Executed slot (.ok .errGeneral, slot')
  | continues (slot' : AgentSlot) : slot'.usedTicks ≠ slot.usedTicks → Executed slot (.ok .ok, slot')

theorem stepTicks_ne_zero : slot.stepTicks ≠ 0 := by
  unfold stepTicks
  split_ifs with h
  · decide
  · exact h

theorem executed_stepPlain : Executed slot (slot.stepPlain host now) := by
  have hcharged (slot' : AgentSlot) : slot.usedTicks + slot'.stepTicks ≠ slot.usedTicks :=
    mt UInt64.add_eq_left.1 stepTicks_ne_zero
  unfold stepPlain stepVm
  cases slot.vm.fluxVmStep host with
  | error fault => exact .faulted ..
  | ok p =>
    obtain ⟨status, vm⟩ := p
    cases status
    case ok => exact .continues _ (hcharged _)
    case errGeneral => exact .ended _ (.inr (hcharged _))
    all_goals exact .ended _ (.inl (by simp [withState, withVmState]))

theorem executed_stepA2a {opcode : UInt8} (hstate : slot.desc.state = .thinking)
    (hpeek : slot.vm.sandboxPeek = .ok (some opcode)) (ha2a : isA2aOpcode opcode = true) :
    Executed slot (slot.stepA2a host) := by
  have hstep := FluxVm.fluxVmStep_a2a host hpeek ha2a
  unfold stepA2a stepVm
  generalize slot.vm.fluxVmStep host = p at hstep
  cases p with
  | error fault => exact .faulted ..
  | ok p =>
    obtain ⟨status, vm⟩ := p
    obtain ⟨-, ⟨rfl, -⟩ | ⟨rfl, -⟩⟩ := hstep
    · exact .ended _ (.inl (by simp [modifyLimits, hstate]))
    · exact .yielded _

theorem Executed.congr {slot' : AgentSlot} (h : Executed slot r) (hused : slot.usedTicks = slot'.usedTicks) :
    Executed slot' r := by
  cases h with
  | faulted => exact .faulted ..
  | denied => exact .denied _
  | yielded => exact .yielded _
  | ended _ h => exact .ended _ (hused ▸ h)
  | continues _ h => exact .continues _ (hused ▸ h)

/-- A round that is within the limits executes the instruction of a VM that is runnable. -/
theorem Rounds.executed (h : Rounds host now slot r) (hvm : slot.vmInitialized = true)
    (hlimit : ¬ slot.LimitExceeded) (hstate : slot.desc.state = .thinking) (hrunnable : slot.vm.Runnable) :
    Executed slot r := by
  have hvmKept : slot.measured.vm = slot.vm := measured_keeps AgentSlot.vm (fun _ _ => rfl) slot
  have hstateKept : slot.measured.desc.state = slot.desc.state :=
    measured_keeps (fun slot => slot.desc.state) (fun _ _ => rfl) slot
  cases h with
  | cpu h => exact absurd (.inl h) hlimit
  | memory h => exact absurd (.inr h) hlimit
  | noVm h =>
    rw [hvm] at h
    cases h
  | checked r _ _ _ hchecked =>
    refine Executed.congr ?_ usedTicks_measured
    cases hchecked with
    | halted hhalted =>
      rw [FluxVm.Runnable, ← hvmKept, hhalted] at hrunnable
      simp at hrunnable
    | refused hnot =>
      rw [hvmKept] at hnot
      exact absurd hrunnable hnot
    | denied => exact .denied _
    | io =>
      have hplain : Executed slot.measured.sandboxAccountIo (slot.measured.sandboxAccountIo.stepPlain host now) :=
        executed_stepPlain
      exact hplain.congr rfl
    | a2a opcode _ hpeek ha2a => exact executed_stepA2a (hstateKept.trans hstate) hpeek ha2a
    | plain => exact executed_stepPlain

theorem one_le_sub {a b : UInt64} (h : a ≠ b) : 1 ≤ a - b := by
  rw [UInt64.le_iff_toNat_le]
  have hne : (a - b).toNat ≠ 0 := by
    intro hzero
    have hsub : a - b = 0 := UInt64.toNat_inj.1 hzero
    rw [← UInt64.sub_add_cancel a b, hsub, UInt64.zero_add] at h
    exact h rfl
  exact Nat.one_le_iff_ne_zero.2 hne

/-- The result of a run that executes, if it ends with the first instruction. -/
def Worked (slot : AgentSlot) (r : Except Fault FluxStatus × AgentSlot) : Prop :=
  r.1 ≠ .ok .errInvalid ∧
    ¬ (r.1 = .ok .errGeneral ∧ r.2.desc.state = .terminated ∧ r.2.usedTicks = slot.usedTicks)

theorem finishRun_seen (h : r.1 ≠ .ok .ok) : (finishRun r).1 = r.1 ∧ (finishRun r).2.desc = r.2.desc := by
  obtain ⟨hresult, heq | ⟨-, heq⟩⟩ := finishRun_eq h
  · exact ⟨hresult, by rw [heq]⟩
  · exact ⟨hresult, by rw [heq]; rfl⟩

/-- A run of one tick executes one instruction of a VM that is runnable. -/
theorem run_one_worked (hvm : slot.vmInitialized = true) (hlimit : ¬ slot.LimitExceeded)
    (hrunnable : slot.vm.Runnable) (host : Host) (now : UInt64) :
    ∃ r, slot.run host now 1 = some r ∧ Worked slot r := by
  have hstart : (slot.startRun now).vmInitialized = true ∧ (slot.startRun now).vm.Runnable := by
    unfold startRun
    dsimp only
    split_ifs
    · exact ⟨hvm, .inr rfl⟩
    · exact ⟨hvm, hrunnable⟩
  have hround : Rounds host now (slot.startRun now) (slot.firstRound host now) := round_rounds ..
  have hexec : Executed slot (slot.firstRound host now) :=
    (hround.executed hstart.1 (mt limitExceeded_startRun.1 hlimit) state_startRun hstart.2).congr
      usedCpuTicks_startRun
  by_cases hok : (slot.firstRound host now).1 = .ok .ok
  · generalize heq : slot.firstRound host now = r at hexec hok
    cases hexec with
    | continues slot' hused =>
      obtain ⟨fuel, hfuel, hrun⟩ := run_of_continues 1 heq
      obtain rfl : fuel = 1 := by
        rw [runFuel] at hfuel
        exact (Nat.succ.inj hfuel).symm
      have hlimit : (if (1 : UInt32) > 0 then (1 : UInt32).toUInt64 else slot.desc.limits.maxCpuTicks) = 1 := rfl
      rw [if_neg (by simp), hlimit, runLoop, if_pos ⟨by decide, one_le_sub hused⟩] at hrun
      exact ⟨_, hrun, by simp [finishRun, withState], by simp [finishRun, withState]⟩
    | _ => simp at hok
  · refine ⟨_, run_of_ends 1 hok, ?_⟩
    obtain ⟨hresult, hdesc⟩ := finishRun_seen hok
    rw [Worked, usedTicks, hresult, hdesc]
    generalize slot.firstRound host now = r at hexec hok
    cases hexec with
    | faulted => exact ⟨by simp, by simp⟩
    | denied => exact ⟨by simp, by simp⟩
    | yielded => exact ⟨by simp, by simp⟩
    | ended slot' h =>
      refine ⟨by simp, ?_⟩
      rintro ⟨-, hstate, hused⟩
      exact h.elim (absurd hstate) (absurd hused)
    | continues => exact absurd rfl hok

/-- A round that is within the limits executes nothing if the VM is not runnable. -/
theorem Rounds.eq_of_not_runnable (h : Rounds host now slot r) (hvm : slot.vmInitialized = true)
    (hlimit : ¬ slot.LimitExceeded) (hrunnable : ¬ slot.vm.Runnable) :
    r = if slot.vm.state = .halted then (.ok .errGeneral, slot.measured.withState .terminated)
      else (.ok .errInvalid, slot.measured) := by
  have hvmKept : slot.measured.vm = slot.vm := measured_keeps AgentSlot.vm (fun _ _ => rfl) slot
  cases h with
  | cpu h => exact absurd (.inl h) hlimit
  | memory h => exact absurd (.inr h) hlimit
  | noVm h =>
    rw [hvm] at h
    cases h
  | checked r _ _ _ hchecked =>
    rw [← hvmKept] at hrunnable ⊢
    cases hchecked with
    | halted hhalted => rw [if_pos hhalted]
    | refused _ hhalted => rw [if_neg hhalted]
    | denied _ _ h => exact absurd h hrunnable
    | io _ h => exact absurd h hrunnable
    | a2a _ h => exact absurd h hrunnable
    | plain h => exact absurd h hrunnable

/-- A run of an agent whose VM is not runnable ends the agent without a tick, or it is refused by the sandbox. -/
theorem run_of_not_runnable (hvm : slot.vmInitialized = true) (hlimit : ¬ slot.LimitExceeded)
    (hrunnable : ¬ slot.vm.Runnable) (maxTicks : UInt32) (host : Host) (now : UInt64) :
    ∃ r, slot.run host now maxTicks = some r ∧
      (slot.vm.state = .halted ∧ r.1 = .ok .errGeneral ∧ r.2.desc.state = .terminated ∧
          r.2.usedTicks = slot.usedTicks ∨
        slot.vm.state ≠ .halted ∧ r.1 = .ok .errInvalid ∧ r.2.desc.state = .thinking) := by
  have hstart : slot.startRun now =
      { slot with desc := { slot.desc with state := .thinking, lastActive := now } } := by
    unfold startRun
    exact if_neg fun h => hrunnable (.inl h.2)
  have hround : Rounds host now (slot.startRun now) (slot.firstRound host now) := round_rounds ..
  have hlimit' : ¬ (slot.startRun now).LimitExceeded := mt limitExceeded_startRun.1 hlimit
  have hused : (slot.startRun now).measured.usedTicks = slot.usedTicks :=
    usedTicks_measured.trans usedCpuTicks_startRun
  have hstate : (slot.startRun now).measured.desc.state = .thinking :=
    (measured_keeps (fun slot => slot.desc.state) (fun _ _ => rfl) _).trans state_startRun
  have hvmSame : (slot.startRun now).vm = slot.vm := by rw [hstart]
  have heq := hround.eq_of_not_runnable (by rw [hstart]; exact hvm) hlimit' (by rw [hvmSame]; exact hrunnable)
  rw [hvmSame] at heq
  by_cases hhalted : slot.vm.state = .halted
  · rw [if_pos hhalted] at heq
    have hne : (slot.firstRound host now).1 ≠ .ok .ok := by simp [heq]
    refine ⟨_, run_of_ends maxTicks hne, .inl ⟨hhalted, ?_⟩⟩
    rw [usedTicks, (finishRun_seen hne).1, (finishRun_seen hne).2, heq]
    exact ⟨rfl, rfl, hused⟩
  · rw [if_neg hhalted] at heq
    have hne : (slot.firstRound host now).1 ≠ .ok .ok := by simp [heq]
    refine ⟨_, run_of_ends maxTicks hne, .inr ⟨hhalted, ?_⟩⟩
    rw [(finishRun_seen hne).1, (finishRun_seen hne).2, heq]
    exact ⟨rfl, hstate⟩

/-- What is seen of a run of one tick tells a VM that is runnable from one that is not. -/
theorem run_one_distinguishes {slot' : AgentSlot} (hvm : slot.vmInitialized = true) (hlimit : ¬ slot.LimitExceeded)
    (hrunnable : slot.vm.Runnable) (hvm' : slot'.vmInitialized = true) (hlimit' : ¬ slot'.LimitExceeded)
    (hrunnable' : ¬ slot'.vm.Runnable) (hused : slot'.usedTicks = slot.usedTicks) (host : Host) (now : UInt64) :
    ∃ r r', slot.run host now 1 = some r ∧ slot'.run host now 1 = some r' ∧
      (r'.1, r'.2.visible) ≠ (r.1, r.2.visible) := by
  obtain ⟨r, hr, hinvalid, hended⟩ := run_one_worked hvm hlimit hrunnable host now
  obtain ⟨r', hr', h⟩ := run_of_not_runnable hvm' hlimit' hrunnable' 1 host now
  refine ⟨r, r', hr, hr', fun heq => ?_⟩
  obtain ⟨hresult, hvisible⟩ := Prod.mk.inj heq
  have hdesc := (Prod.mk.inj hvisible).1
  have hstate : r'.2.desc.state = r.2.desc.state := by
    have := congrArg AgentDesc.state hdesc
    exact this
  have hticks : r'.2.usedTicks = r.2.usedTicks := by
    have := congrArg (fun d => d.limits.usedCpuTicks) hdesc
    exact this
  obtain ⟨-, hgeneral, hterminated, hsame⟩ | ⟨-, hrefused, -⟩ := h
  · exact hended ⟨hresult.symm.trans hgeneral, hstate.symm.trans hterminated,
      hticks.symm.trans (hsame.trans hused)⟩
  · exact hinvalid (hresult.symm.trans hrefused)

/-- A pause and a resume that change what the VM does are seen in a run of one tick. -/
theorem run_one_of_not_restored (hvm : slot.vmInitialized = true) (hlimit : ¬ slot.LimitExceeded)
    (hrestored : ¬ slot.Restored) (host : Host) (now : UInt64) :
    ∃ r r', slot.run host now 1 = some r ∧ (resumeSlot now (pauseSlot now slot)).run host now 1 = some r' ∧
      (r'.1, r'.2.visible) ≠ (r.1, r.2.visible) := by
  rw [resumeSlot_pauseSlot hvm]
  generalize hslot : ({ slot with
    paused := false
    vm := { slot.vm with state := slot.restoredState }
    desc := { slot.desc with lastActive := now } } : AgentSlot) = slot'
  have hstate : slot'.vm.state = slot.restoredState := by rw [← hslot]
  have hvm' : slot'.vmInitialized = true := by
    rw [← hslot]
    exact hvm
  have hlimit' : ¬ slot'.LimitExceeded := by
    rw [← hslot]
    exact hlimit
  have hused : slot'.usedTicks = slot.usedTicks := by rw [← hslot]; rfl
  by_cases hthinking : slot.desc.state = .thinking
  · have hidle : slot'.vm.state = .idle := by rw [hstate, restoredState, if_pos hthinking]
    have hrunnable : ¬ slot.vm.Runnable := by
      rintro (h | h)
      · exact hrestored (.inr ⟨by rw [h]; simp, fun _ => h⟩)
      · exact hrestored (.inl ⟨h, hthinking⟩)
    obtain ⟨r', r, hr', hr, hne⟩ := run_one_distinguishes hvm' hlimit' (.inl hidle) hvm hlimit hrunnable hused.symm
      host now
    exact ⟨r, r', hr, hr', hne.symm⟩
  · have hrunning : slot.vm.state = .running := by
      by_contra hnot
      exact hrestored (.inr ⟨hnot, fun h => absurd h hthinking⟩)
    have hhalted : slot'.vm.state = .halted := by
      rw [hstate, restoredState, if_neg hthinking, if_pos hrunning]
    have hrunnable' : ¬ slot'.vm.Runnable := by simp [FluxVm.Runnable, hhalted]
    exact run_one_distinguishes hvm hlimit (.inr hrunning) hvm' hlimit' hrunnable' hused host now

/-- A run of one tick of an agent that is resumed is seen: it does not return `FLUX_ERR_INVALID`, or it changes the
state of the agent. -/
theorem run_one_of_resumed (hvm : slot.vmInitialized = true) (hended : ¬ slot.Ended) (host : Host) :
    ∃ r, (resumeSlot now slot).run host now 1 = some r ∧
      ¬ (r.1 = .ok .errInvalid ∧ r.2.desc.state = slot.desc.state) := by
  have hvm' : (resumeSlot now slot).vmInitialized = true := hvm
  by_cases hlimit : (resumeSlot now slot).LimitExceeded
  · have hround : SameOutcome ((resumeSlot now slot).firstRound host now)
        ((resumeSlot now slot).firstRound host now) ∧
        ((resumeSlot now slot).firstRound host now).1 = .ok .errInvalid ∧
        ((resumeSlot now slot).firstRound host now).2.desc.state = .failed :=
      sameOutcome_withinLimits (.refl _) (limitExceeded_startRun.2 hlimit)
    obtain ⟨-, hresult, hstate⟩ := hround
    refine ⟨_, run_of_ends 1 (by simp [hresult]), ?_⟩
    rw [finishRun_of_failed hresult hstate, hstate]
    exact fun h => hended (.inr h.2.symm)
  · by_cases hrunnable : (resumeSlot now slot).vm.Runnable
    · obtain ⟨r, hr, hworked⟩ := run_one_worked hvm' hlimit hrunnable host now
      exact ⟨r, hr, fun h => hworked.1 h.1⟩
    · have hthinking : slot.desc.state ≠ .thinking := by
        intro h
        refine hrunnable (.inl ?_)
        unfold resumeSlot
        simp [h, hvm]
      obtain ⟨r, hr, ⟨-, hresult, -⟩ | ⟨-, -, hstate⟩⟩ := run_of_not_runnable hvm' hlimit hrunnable 1 host now
      · exact ⟨r, hr, by simp [hresult]⟩
      · refine ⟨r, hr, fun h => hthinking ?_⟩
        rw [← h.2, hstate]

end AgentSlot

namespace AgentView

/-- An active agent has a VM. -/
def HasVms (V : AgentView) : Prop := ∀ i, (V.slots i).active = true → (V.slots i).vmInitialized = true

variable {V V' : AgentView} {kind : ChangeKind}

theorem Change.hasVms (hchange : Change kind V V') (h : V.HasVms) : V'.HasVms := by
  by_cases hkind : kind = .lifecycle
  · subst hkind
    cases hchange with
    | clears i =>
      exact forall_renewed (P := fun _ slot => slot.active = true → slot.vmInitialized = true)
        (by simp [AgentSlot.view, AgentSlot.zero]) h
    | spawns i slot caps _ hnew =>
      exact forall_renewed (P := fun _ slot => slot.active = true → slot.vmInitialized = true)
        (fun _ => hnew.vmInitialized) h
    | terminates i lastOpCycles =>
      exact forall_renewed (P := fun _ slot => slot.active = true → slot.vmInitialized = true)
        (by simp [AgentSlot.view, AgentSlot.zero]) h
  · intro i hact
    have hidentity := hchange.identity_eq hkind i
    obtain ⟨hactive, -, hvm⟩ : (V'.slots i).active = (V.slots i).active ∧ (V'.slots i).agentId = (V.slots i).agentId ∧
        (V'.slots i).vmInitialized = (V.slots i).vmInitialized := by simpa [SlotView.identity] using hidentity
    rw [hvm]
    exact h i (hactive ▸ hact)

end AgentView

namespace AgentSystem

open AgentView

variable {s : AgentSystem} {i : AgentIdx} {id : UInt32}

theorem hasVms_of_reachable {allowed : AgentAction → AgentSystem → Prop} (h : Reachable allowed s) :
    s.rt.view.HasVms := by
  obtain ⟨config, hrun⟩ := h
  refine invariant_of_changes (fun _ _ _ hchange hV => hchange.hasVms hV) hrun ?_
  intro i hact
  cases hact

/-- A pause and then a resume of an agent. -/
def pauseResume (id : UInt32) (s : AgentSystem) : AgentSystem :=
  s.withRt ((s.rt.fluxAgentPause id).2.fluxAgentResume id).2

/-- No sequence of runs and steps shows whether the agent was paused and resumed before. -/
def PauseTransparent (i : AgentIdx) (s : AgentSystem) : Prop :=
  ∀ as : List AgentAction, (∀ a ∈ as, a.Executes) →
    trace step (see i) as (s.pauseResume (agentIdOf i)) = trace step (see i) as s

/-- What a pause needs. -/
theorem of_pause_ok (h : (s.rt.fluxAgentPause (agentIdOf i)).1 = .ok) :
    s.rt.initialized = true ∧ (s.rt.agents i).active = true ∧ ¬ (s.rt.agents i).Ended := by
  unfold fluxAgentPause at h
  split at h
  · cases h
  rename_i hinit
  cases hi : s.rt.agentSlotById (agentIdOf i) with
  | none =>
    rw [hi] at h
    cases h
  | some j =>
    obtain ⟨hid, hact⟩ := agentSlotById_eq_some.1 hi
    obtain rfl : i = j := agentIdOf_inj.1 hid
    rw [hi] at h
    simp only at h
    split_ifs at h with hended
    · exact ⟨by simpa using hinit, hact, hended⟩
    · exact ⟨by simpa using hinit, hact, hended⟩

/-- What is seen of a run of an agent that may run. -/
theorem see_run {rt : AgentRuntime} {receives : List A2aReceive} (hinit : rt.initialized = true)
    (hact : (rt.agents i).active = true) (hmay : ¬ (rt.agents i).MayNotRun) {host : Host} {maxTicks : UInt32}
    {r : Except Fault FluxStatus × AgentSlot} (hr : (rt.agents i).run host rt.agentNow maxTicks = some r) :
    see i (.run host (agentIdOf i) maxTicks) ⟨rt, receives⟩ = some (r.1, r.2.visible) := by
  have hi : rt.agentSlotById (agentIdOf i) = some i := agentSlotById_eq_some.2 ⟨rfl, hact⟩
  rw [see, outcome, fluxAgentRun, hinit, hi]
  simp [hmay, hr]

/-- What is seen of a run of an agent that may not run. -/
theorem see_run_refused (hinit : s.rt.initialized = true) (hact : (s.rt.agents i).active = true)
    (hmay : (s.rt.agents i).MayNotRun) {host : Host} {maxTicks : UInt32} :
    see i (.run host (agentIdOf i) maxTicks) s = some (.ok .errInvalid, (s.rt.agents i).visible) := by
  have hi : s.rt.agentSlotById (agentIdOf i) = some i := agentSlotById_eq_some.2 ⟨rfl, hact⟩
  rw [see, outcome, fluxAgentRun, hinit, hi]
  simp [hmay]

/-- A pause and a resume of an agent that is paused only resume it. -/
theorem pauseResume_of_paused (hinit : s.rt.initialized = true) (hact : (s.rt.agents i).active = true)
    (hpaused : (s.rt.agents i).paused = true) :
    s.pauseResume (agentIdOf i) = s.withRt (s.rt.modifySlot i (resumeSlot s.rt.agentNow)) := by
  have hpause : (s.rt.fluxAgentPause (agentIdOf i)).2 = s.rt := by
    obtain heq | ⟨j, hj, -, hnot, -⟩ := fluxAgentPause_cases s.rt (agentIdOf i)
    · exact heq
    · obtain rfl : i = j := agentIdOf_inj.1 (agentSlotById_eq_some.1 hj).1
      rw [hpaused] at hnot
      cases hnot
  rw [pauseResume, hpause, fluxAgentResume_agents_self hinit hact hpaused]

theorem pauseResume_of_not_paused (hinit : s.rt.initialized = true) (hact : (s.rt.agents i).active = true)
    (hended : ¬ (s.rt.agents i).Ended) (hpaused : (s.rt.agents i).paused = false) :
    s.pauseResume (agentIdOf i) = s.withRt (s.rt.modifySlot i fun _ =>
      resumeSlot s.rt.agentNow (pauseSlot s.rt.agentNow (s.rt.agents i))) := by
  have hslot : (s.rt.modifySlot i (pauseSlot s.rt.agentNow)).agents i = pauseSlot s.rt.agentNow (s.rt.agents i) :=
    modifySlot_self
  have hactive : ((s.rt.modifySlot i (pauseSlot s.rt.agentNow)).agents i).active = true := by
    rw [hslot]
    exact hact
  have hpaused' : ((s.rt.modifySlot i (pauseSlot s.rt.agentNow)).agents i).paused = true := by
    rw [hslot]
    rfl
  have hinit' : (s.rt.modifySlot i (pauseSlot s.rt.agentNow)).initialized = true := hinit
  have hnow : (s.rt.modifySlot i (pauseSlot s.rt.agentNow)).agentNow = s.rt.agentNow := rfl
  rw [pauseResume, fluxAgentPause_agents_self hinit hact hended hpaused,
    fluxAgentResume_agents_self hinit' hactive hpaused', hnow]
  unfold modifySlot
  simp only [Function.update_idem, Function.update_self]

/-- A run of one tick tells two systems apart. -/
theorem not_pauseTransparent (host : Host)
    (h : see i (.run host (agentIdOf i) 1) (s.pauseResume (agentIdOf i)) ≠ see i (.run host (agentIdOf i) 1) s) :
    ¬ PauseTransparent i s := by
  intro htransparent
  have htrace := htransparent [.run host (agentIdOf i) 1] (by simp [AgentAction.Executes])
  exact h (List.cons.inj htrace).1

end AgentSystem

open AgentSystem

/-- Where `flux_agent_pause` succeeds, no sequence of runs and steps shows whether the agent was paused and resumed
before it, if and only if the agent was not paused yet, and either a limit is exceeded, so that it fails anyway, or
its VM was running and it was `THINKING`, or its VM was not running, and idle if it was `THINKING`. -/
theorem fluxAgentPause_transparent_iff {allowed : AgentAction → AgentSystem → Prop} {s : AgentSystem}
    {i : AgentIdx} (hs : Reachable allowed s) (hpause : (s.rt.fluxAgentPause (agentIdOf i)).1 = .ok) :
    PauseTransparent i s ↔ (s.rt.agents i).PauseHarmless := by
  obtain ⟨hinit, hact, hended⟩ := of_pause_ok hpause
  have hvm : (s.rt.agents i).vmInitialized = true := hasVms_of_reachable hs i hact
  -- a run of one tick after the pause and the resume, which have left the slot `slot'`
  have hrun {slot' : AgentSlot} {r : Except Fault FluxStatus × AgentSlot}
      (heq : s.pauseResume (agentIdOf i) = s.withRt (s.rt.modifySlot i fun _ => slot')) (hact' : slot'.active = true)
      (hmay : ¬ slot'.MayNotRun) (hr : slot'.run FluxVm.plentifulHost s.rt.agentNow 1 = some r) :
      see i (.run FluxVm.plentifulHost (agentIdOf i) 1) (s.pauseResume (agentIdOf i)) = some (r.1, r.2.visible) := by
    have hslot : (s.rt.modifySlot i fun _ => slot').agents i = slot' := modifySlot_self
    have hinit' : (s.rt.modifySlot i fun _ => slot').initialized = true := hinit
    rw [heq]
    refine see_run hinit' ?_ ?_ ?_
    · rw [hslot]
      exact hact'
    · rw [hslot]
      exact hmay
    · rw [hslot]
      exact hr
  have hmayResumed {slot' : AgentSlot} (hstate : slot'.desc.state = (s.rt.agents i).desc.state)
      (hpaused : slot'.paused = false) : ¬ slot'.MayNotRun := by
    rintro (h | h | h)
    · exact hended (.inl (hstate ▸ h))
    · exact hended (.inr (hstate ▸ h))
    · rw [hpaused] at h
      cases h
  by_cases hpaused : (s.rt.agents i).paused = true
  · refine iff_of_false (not_pauseTransparent FluxVm.plentifulHost ?_) fun h => ?_
    · obtain ⟨r, hr, hseen⟩ : ∃ r, (resumeSlot s.rt.agentNow (s.rt.agents i)).run FluxVm.plentifulHost
          s.rt.agentNow 1 = some r ∧ ¬ (r.1 = .ok .errInvalid ∧ r.2.desc.state = (s.rt.agents i).desc.state) :=
        AgentSlot.run_one_of_resumed hvm hended FluxVm.plentifulHost
      rw [hrun (pauseResume_of_paused hinit hact hpaused) hact (hmayResumed rfl rfl) hr,
        see_run_refused hinit hact (.inr (.inr hpaused))]
      intro heq
      obtain ⟨hresult, hvisible⟩ := Prod.mk.inj (Option.some.inj heq)
      have hstate := congrArg (fun p => p.1.state) hvisible
      exact hseen ⟨hresult, hstate⟩
    · rw [h.1] at hpaused
      cases hpaused
  · have hnot : (s.rt.agents i).paused = false := by simpa using hpaused
    have heq := pauseResume_of_not_paused hinit hact hended hnot
    by_cases hharmless : (s.rt.agents i).PauseHarmless
    · refine iff_of_true (fun as has => ?_) hharmless
      have hsimilar : AgentSystem.SimilarAt i s (s.pauseResume (agentIdOf i)) := by
        rw [heq]
        exact ⟨⟨_, AgentSlot.matches_of_pauseHarmless hvm hharmless, rfl⟩, rfl⟩
      exact hsimilar.trace has
    · refine iff_of_false (not_pauseTransparent FluxVm.plentifulHost ?_) hharmless
      obtain ⟨hlimit, hrestored⟩ : ¬ (s.rt.agents i).LimitExceeded ∧ ¬ (s.rt.agents i).Restored :=
        not_or.1 fun h => hharmless ⟨hnot, h⟩
      obtain ⟨r, r', hr, hr', hne⟩ := AgentSlot.run_one_of_not_restored hvm hlimit hrestored
        FluxVm.plentifulHost s.rt.agentNow
      rw [hrun heq hact (hmayResumed rfl rfl) hr', see_run hinit hact (hmayResumed rfl hnot) hr]
      exact fun h => hne (Option.some.inj h)

/-! ## An agent between two time slices -/

/-- A runtime with an agent whose program is two `NOP`s. -/
def twoNops : AgentSystem :=
  ⟨((fluxAgentInit none).fluxAgentSpawn FluxVm.plentifulHost true none none 0
    (some fun k => [0, 0, 0, 0, 0, 0, 0, 0].getD k 0) 8).2, []⟩

theorem reachable_twoNops : Reachable (fun _ _ => True) twoNops :=
  ⟨none, (Reaches.refl (boot none)).tail (a := .spawn FluxVm.plentifulHost true none none 0
    (some fun k => [0, 0, 0, 0, 0, 0, 0, 0].getD k 0) 8) trivial rfl⟩

/-- The agent has executed one `NOP`. -/
def sliced : AgentSystem := (step (.run FluxVm.plentifulHost 5 1) twoNops).getD twoNops

/-- A pause before the first run is not seen. -/
theorem fluxAgentPause_transparent_iff_new : PauseTransparent firstAgent twoNops := by
  refine (fluxAgentPause_transparent_iff reachable_twoNops rfl).2 ⟨rfl, .inr (.inr ⟨?_, fun _ => rfl⟩)⟩
  decide +kernel

/-- A pause between two time slices ends the agent. -/
theorem sliced_not_pauseTransparent :
    step (.run FluxVm.plentifulHost 5 1) twoNops = some sliced ∧
      (sliced.rt.fluxAgentPause 5).1 = .ok ∧ (sliced.rt.agents firstAgent).desc.state = .idle ∧
      ¬ PauseTransparent firstAgent sliced := by
  refine ⟨rfl, by decide +kernel, by decide +kernel, not_pauseTransparent FluxVm.plentifulHost fun heq => ?_⟩
  have hpaused : (see firstAgent (.run FluxVm.plentifulHost 5 1) (sliced.pauseResume 5)).map Prod.fst =
      some (.ok .errGeneral) := by decide +kernel
  have hleft : (see firstAgent (.run FluxVm.plentifulHost 5 1) sliced).map Prod.fst = some (.ok .errBusy) := by
    decide +kernel
  have hid : agentIdOf firstAgent = 5 := rfl
  rw [hid] at heq
  rw [heq, hleft] at hpaused
  simp at hpaused

end FluxOs
