import FluxOs.Vm.StepRules

/-!
# Calls after the VM has stopped

`flux_vm_step` does nothing to a VM that is `HALTED` or in `ERROR`.  `flux_vm_run` sets the state to `RUNNING`
first, so that a stopped VM goes on unless the fetch is refused or the cycle limit is reached.
-/

namespace FluxOs

namespace FluxVm

/-- A call that executes a program. -/
inductive Call
  | step
  | run (maxCycles : UInt64)
  deriving DecidableEq

variable {vm vm' : FluxVm} {host : Host} {maxCycles : UInt64}

/-- The states in which the loop of `flux_vm_run` calls `flux_vm_step`, in the first rounds. -/
def stepCalls (host : Host) (maxCycles : UInt64) : Nat → FluxVm → List FluxVm
  | 0, _ => []
  | fuel + 1, vm =>
    if vm.state ≠ .running then []
    else if maxCycles > 0 ∧ vm.cycleCount ≥ maxCycles then []
    else vm ::
      match vm.fluxVmStep host with
      | .ok (.ok, vm) => stepCalls host maxCycles fuel vm
      | _ => []

/-- The call executes an instruction: a step gets past the checks in front of the fetch. -/
def Executes (host : Host) (vm : FluxVm) : Call → Prop
  | .step => vm.stopped? = none
  | .run maxCycles =>
    ∃ fuel, ∃ vm' ∈ stepCalls host maxCycles fuel { vm with state := .running }, vm'.stopped? = none

/-- The call returns and leaves the VM `vm'`. -/
def Returns (host : Host) (vm vm' : FluxVm) : Call → Prop
  | .step => ∃ status, vm.fluxVmStep host = .ok (status, vm')
  | .run maxCycles => ∃ fuel status steps, vm.fluxVmRun host maxCycles fuel = some (.ok (status, vm'), steps)

/-- Only the state and the error code differ. -/
def SameProgram (vm vm' : FluxVm) : Prop := ∃ state errorCode, vm' = { vm with state, errorCode }

/-- No call of a sequence executes an instruction, and each leaves all but the state and the error code. -/
def StaysStopped (host : Host) : List Call → FluxVm → Prop
  | [], _ => True
  | call :: calls, vm =>
    ¬ vm.Executes host call ∧ ∀ vm', vm.Returns host vm' call → vm.SameProgram vm' ∧ StaysStopped host calls vm'

/-- The VM is `HALTED` or in `ERROR`. -/
def HasStopped (vm : FluxVm) : Prop := vm.state = .halted ∨ vm.state = .error

/-- A step of a VM that has not stopped is refused: there is a breakpoint at `pc`, or `pc + 4` is out of
bounds. -/
def Refuses (vm : FluxVm) : Prop :=
  vm.breakpointAddrs.any (· == vm.pc.toUInt32) = true ∨ vm.pc + 4 > vm.bytecodeLen

/-- The cycle limit of a call is reached. -/
def Call.TimesOut (cycles : UInt64) : Call → Prop
  | .step => True
  | .run maxCycles => 0 < maxCycles ∧ maxCycles ≤ cycles

instance (cycles : UInt64) : DecidablePred (Call.TimesOut cycles) := fun call => by
  cases call <;> unfold Call.TimesOut <;> infer_instance

/-! ## One call -/

theorem stopped?_eq_none : vm.stopped? = none ↔ ¬ vm.HasStopped ∧ ¬ vm.Refuses := by
  unfold stopped? HasStopped Refuses
  split_ifs <;> simp_all

theorem step_of_hasStopped (h : vm.HasStopped) : vm.fluxVmStep host = .ok (.errGeneral, vm) := by
  have hstate : vm.state = .halted ∨ vm.state = .error := h
  unfold fluxVmStep stopped?
  rw [if_pos hstate]

variable (host) in
/-- A step that is refused changes the state and the error code. -/
theorem step_of_refuses (h : vm.Refuses) (hrun : ¬ vm.HasStopped) :
    ∃ vm', vm.fluxVmStep host = .ok (.errGeneral, vm') ∧ vm.SameProgram vm' := by
  have hstate : ¬ (vm.state = .halted ∨ vm.state = .error) := hrun
  unfold fluxVmStep stopped?
  rw [if_neg hstate]
  split_ifs with hbreak hpc
  · exact ⟨_, rfl, _, _, rfl⟩
  · exact ⟨_, rfl, _, _, rfl⟩
  · exact absurd h (not_or.2 ⟨hbreak, hpc⟩)

theorem SameProgram.refuses (h : vm.SameProgram vm') (hvm : vm.Refuses) : vm'.Refuses := by
  obtain ⟨state, errorCode, rfl⟩ := h
  exact hvm

theorem SameProgram.running : vm.SameProgram { vm with state := .running } := ⟨.running, vm.errorCode, rfl⟩

theorem SameProgram.trans {vm'' : FluxVm} (h : vm.SameProgram vm') (h' : vm'.SameProgram vm'') :
    vm.SameProgram vm'' := by
  obtain ⟨state, errorCode, rfl⟩ := h
  obtain ⟨state', errorCode', rfl⟩ := h'
  exact ⟨state', errorCode', rfl⟩

variable (host) in
/-- A run that times out at once calls no step and leaves the VM `WAITING`. -/
theorem run_of_timesOut (h : (Call.run maxCycles).TimesOut vm.cycleCount) :
    ¬ vm.Executes host (.run maxCycles) ∧
      ∀ vm', vm.Returns host vm' (.run maxCycles) → vm' = { vm with state := .waiting } := by
  have hlimit : maxCycles > 0 ∧ vm.cycleCount ≥ maxCycles := h
  constructor
  · rintro ⟨fuel, vm', hmem, -⟩
    cases fuel with
    | zero => cases hmem
    | succ fuel =>
      have hnil : stepCalls host maxCycles (fuel + 1) { vm with state := .running } = [] := by
        rw [stepCalls, if_neg (not_not.2 rfl), if_pos hlimit]
      rw [hnil] at hmem
      cases hmem
  · rintro vm' ⟨fuel, status, steps, hrun⟩
    cases fuel with
    | zero => cases hrun
    | succ fuel =>
      rw [fluxVmRun, runLoop, if_neg (not_not.2 rfl), if_pos hlimit] at hrun
      cases hrun
      rfl

variable (host) in
/-- A run of a VM that refuses the step changes the state and the error code. -/
theorem run_of_refuses (h : vm.Refuses) :
    ¬ vm.Executes host (.run maxCycles) ∧
      ∀ vm', vm.Returns host vm' (.run maxCycles) → vm.SameProgram vm' := by
  by_cases hlimit : maxCycles > 0 ∧ vm.cycleCount ≥ maxCycles
  · obtain ⟨hexec, hreturns⟩ := run_of_timesOut host hlimit
    refine ⟨hexec, fun vm' hvm' => ?_⟩
    rw [hreturns vm' hvm']
    exact ⟨.waiting, vm.errorCode, rfl⟩
  have hrunning : ({ vm with state := .running } : FluxVm).Refuses := h
  have hnot : ¬ ({ vm with state := .running } : FluxVm).HasStopped := by simp [HasStopped]
  obtain ⟨vm₁, hstep, hsame⟩ := step_of_refuses host hrunning hnot
  constructor
  · rintro ⟨fuel, vm', hmem, hnone⟩
    cases fuel with
    | zero => cases hmem
    | succ fuel =>
      have hone : stepCalls host maxCycles (fuel + 1) { vm with state := .running } =
          [{ vm with state := .running }] := by
        rw [stepCalls, if_neg (not_not.2 rfl), if_neg hlimit, hstep]
      rw [hone, List.mem_singleton] at hmem
      subst hmem
      exact (stopped?_eq_none.1 hnone).2 hrunning
  · rintro vm' ⟨fuel, status, steps, hrun⟩
    cases fuel with
    | zero => cases hrun
    | succ fuel =>
      rw [fluxVmRun, runLoop, if_neg (not_not.2 rfl), if_neg hlimit, hstep] at hrun
      cases hrun
      exact SameProgram.running.trans hsame

/-- A run executes an instruction unless it times out or the step is refused. -/
theorem executes_run (h : ¬ vm.Refuses) (htime : ¬ (Call.run maxCycles).TimesOut vm.cycleCount) :
    vm.Executes host (.run maxCycles) := by
  have hlimit : ¬ (maxCycles > 0 ∧ vm.cycleCount ≥ maxCycles) := htime
  refine ⟨1, { vm with state := .running }, ?_, ?_⟩
  · rw [stepCalls, if_neg (not_not.2 rfl), if_neg hlimit]
    exact List.mem_cons_self
  · exact stopped?_eq_none.2 ⟨by simp [HasStopped], h⟩

/-! ## Sequences of calls -/

/-- Where steps are refused, nothing happens. -/
theorem staysStopped_of_refuses {calls : List Call} (h : vm.Refuses) : StaysStopped host calls vm := by
  induction calls generalizing vm with
  | nil => trivial
  | cons call calls ih =>
    cases call with
    | step =>
      refine ⟨fun hnone => (stopped?_eq_none.1 hnone).2 h, ?_⟩
      rintro vm' ⟨status, hstep⟩
      by_cases hstop : vm.HasStopped
      · rw [step_of_hasStopped hstop] at hstep
        cases hstep
        exact ⟨⟨_, _, rfl⟩, ih h⟩
      · obtain ⟨vm₁, hstep₁, hsame⟩ := step_of_refuses host h hstop
        rw [hstep₁] at hstep
        cases hstep
        exact ⟨hsame, ih (hsame.refuses h)⟩
    | run maxCycles =>
      obtain ⟨hexec, hreturns⟩ := run_of_refuses host h
      refine ⟨hexec, fun vm' hvm' => ?_⟩
      have hsame := hreturns vm' hvm'
      exact ⟨hsame, ih (hsame.refuses h)⟩

/-- A run that times out can be left out of the sequence, but the VM is `WAITING` after it. -/
theorem staysStopped_run_cons {calls : List Call} (h : ¬ vm.Refuses) :
    StaysStopped host (.run maxCycles :: calls) vm ↔
      (Call.run maxCycles).TimesOut vm.cycleCount ∧ StaysStopped host calls { vm with state := .waiting } := by
  by_cases htime : (Call.run maxCycles).TimesOut vm.cycleCount
  · obtain ⟨hexec, hreturns⟩ := run_of_timesOut host htime
    have hreturn : vm.Returns host { vm with state := .waiting } (.run maxCycles) := by
      have hlimit : maxCycles > 0 ∧ vm.cycleCount ≥ maxCycles := htime
      refine ⟨1, .errTimeout, 0, ?_⟩
      rw [fluxVmRun, runLoop, if_neg (not_not.2 rfl), if_pos hlimit]
    constructor
    · intro hstays
      exact ⟨htime, (hstays.2 _ hreturn).2⟩
    · rintro ⟨-, hrest⟩
      refine ⟨hexec, fun vm' hvm' => ?_⟩
      rw [hreturns vm' hvm']
      exact ⟨⟨.waiting, vm.errorCode, rfl⟩, hrest⟩
  · refine iff_of_false (fun hstays => ?_) fun hand => htime hand.1
    exact hstays.1 (executes_run h htime)

/-- After a run has timed out, only further runs that time out do nothing. -/
theorem staysStopped_waiting {calls : List Call} (h : ¬ vm.Refuses) (hstate : vm.state = .waiting) :
    StaysStopped host calls vm ↔ ∀ call ∈ calls, call ≠ .step ∧ call.TimesOut vm.cycleCount := by
  induction calls generalizing vm with
  | nil => simp [StaysStopped]
  | cons call calls ih =>
    cases call with
    | step =>
      refine iff_of_false (fun hstays => ?_) fun hall => (hall .step List.mem_cons_self).1 rfl
      refine hstays.1 (stopped?_eq_none.2 ⟨?_, h⟩)
      simp [HasStopped, hstate]
    | run maxCycles =>
      have hrefuses : ¬ ({ vm with state := .waiting } : FluxVm).Refuses := h
      have hrest := ih hrefuses rfl
      rw [staysStopped_run_cons h, hrest, List.forall_mem_cons]
      simp

/-- From a stopped VM, steps do nothing, runs must time out, and no step may follow a run. -/
theorem staysStopped_iff_of_not_refuses {calls : List Call} (h : ¬ vm.Refuses) (hstop : vm.HasStopped) :
    StaysStopped host calls vm ↔ (∀ call ∈ calls, call.TimesOut vm.cycleCount) ∧
      calls.Pairwise fun a b => a = .step ∨ b ≠ .step := by
  induction calls with
  | nil => simp [StaysStopped]
  | cons call calls ih =>
    rw [List.forall_mem_cons, List.pairwise_cons]
    cases call with
    | step =>
      have hcons : StaysStopped host (.step :: calls) vm ↔ StaysStopped host calls vm := by
        constructor
        · intro hstays
          exact (hstays.2 vm ⟨_, step_of_hasStopped hstop⟩).2
        · intro hrest
          refine ⟨fun hnone => (stopped?_eq_none.1 hnone).1 hstop, ?_⟩
          rintro vm' ⟨status, hstep⟩
          rw [step_of_hasStopped hstop] at hstep
          cases hstep
          exact ⟨⟨_, _, rfl⟩, hrest⟩
      rw [hcons, ih]
      simp [Call.TimesOut]
    | run maxCycles =>
      have hrefuses : ¬ ({ vm with state := .waiting } : FluxVm).Refuses := h
      rw [staysStopped_run_cons h, staysStopped_waiting hrefuses rfl]
      constructor
      · rintro ⟨htime, hall⟩
        have hnone : ∀ call ∈ calls, call ≠ .step := fun call hcall => (hall call hcall).1
        refine ⟨⟨htime, fun call hcall => (hall call hcall).2⟩, fun b hb => .inr (hnone b hb), ?_⟩
        refine List.pairwise_of_forall_mem_list fun a _ b hb => ?_
        exact .inr (hnone b hb)
      · rintro ⟨⟨htime, hall⟩, hfirst, -⟩
        refine ⟨htime, fun call hcall => ⟨?_, hall call hcall⟩⟩
        exact (hfirst call hcall).resolve_left (by simp)

end FluxVm

/-- A VM that is `HALTED` or in `ERROR` stays as it is in a sequence of calls of `flux_vm_step` and
`flux_vm_run` if and only if a step at `pc` is refused anyway, or every run times out at once and no step comes
after a run. -/
theorem fluxVm_staysStopped_iff (vm : FluxVm) (host : Host) (calls : List FluxVm.Call) (hstop : vm.HasStopped) :
    FluxVm.StaysStopped host calls vm ↔
      vm.Refuses ∨ (∀ call ∈ calls, call.TimesOut vm.cycleCount) ∧
        calls.Pairwise fun a b => a = .step ∨ b ≠ .step := by
  by_cases h : vm.Refuses
  · exact iff_of_true (FluxVm.staysStopped_of_refuses h) (.inl h)
  · rw [FluxVm.staysStopped_iff_of_not_refuses h hstop, or_iff_right h]

/-- `HALT; NOP` after one step. -/
def haltedVm : FluxVm := FluxVm.bootSteps [0x01, 0, 0, 0, 0, 0, 0, 0] 1

theorem haltedVm_hasStopped : haltedVm.HasStopped := .inl rfl

theorem fluxVm_staysStopped_iff_halt :
    FluxVm.StaysStopped FluxVm.plentifulHost [.run 0] haltedVm ↔
      haltedVm.Refuses ∨ (∀ call ∈ [FluxVm.Call.run 0], call.TimesOut haltedVm.cycleCount) ∧
        [FluxVm.Call.run 0].Pairwise fun a b => a = .step ∨ b ≠ .step :=
  fluxVm_staysStopped_iff haltedVm FluxVm.plentifulHost [.run 0] haltedVm_hasStopped

/-- A VM that has executed `HALT` executes the `NOP` behind it when it is run again. -/
theorem haltedVm_runs_on :
    FluxVm.Reachable FluxVm.plentifulHost haltedVm ∧ haltedVm.HasStopped ∧
      ¬ FluxVm.StaysStopped FluxVm.plentifulHost [.run 0] haltedVm := by
  refine ⟨FluxVm.bootSteps_reachable _ _ (by decide) rfl, haltedVm_hasStopped, fun hstays => ?_⟩
  have hrefuses : ¬ haltedVm.Refuses := by
    rintro (hbreak | hpc)
    · cases hbreak
    · exact absurd hpc (by decide)
  have htime := ((FluxVm.staysStopped_iff_of_not_refuses hrefuses haltedVm_hasStopped).1 hstays).1
  exact absurd (htime (.run 0) List.mem_cons_self) (by decide)

end FluxOs
