import FluxOs.Agent.AgentIds
import FluxOs.Agent.CpuLimits
import FluxOs.Agent.Pausing
import FluxOs.Lib.RoundRobin
import Mathlib.Algebra.Group.Fin.Basic
import Mathlib.Data.List.Nodup

/-!
# The agent scheduler

`flux_agent_schedule` runs all agents that are ready, round by round, each time from the next slot on, until none is
ready or it has made twice as many rounds as there are slots; `flux_agent_schedule_step` steps each one once.  An
agent gets where its own time slices lead it, whatever the other agents do, and a call is nothing but runs or steps
of agents followed by a tick.
-/

namespace FluxOs

open Actions AgentRuntime Faulting Diverging

/-- `g_agent_rt` with its `schedule_cursor`, which stays below `FLUX_AGENT_MAX`. -/
structure AgentScheduler where
  rt : AgentRuntime
  scheduleCursor : AgentIdx

namespace AgentSlot

/-- The agent is active and in none of the states that `flux_agent_schedule` passes over. -/
def ready (slot : AgentSlot) : Bool :=
  slot.active && !(slot.desc.state = .terminated || slot.desc.state = .failed || slot.desc.state = .waiting ||
    slot.desc.state = .delegating || slot.paused)

/-- The agent is active, not paused, and in one of the states in which `flux_agent_schedule_step` steps it. -/
def stepReady (slot : AgentSlot) : Bool :=
  slot.active && (slot.desc.state = .idle || slot.desc.state = .thinking || slot.desc.state = .created ||
    slot.desc.state = .initializing) && !slot.paused

end AgentSlot

/-- The ticks that `flux_agent_schedule` gives to an agent at a time. -/
def AgentConfig.timeSlice (config : AgentConfig) : UInt32 :=
  let slice := config.defaultCpuTicks / 10
  let slice := if slice < 100 then 100 else slice
  if slice > 100000 then 100000 else slice

namespace AgentRuntime

/-- The result of a call whose status is not looked at; a fault of the VM ends everything. -/
def runtimeOf (r : Except Fault FluxStatus × AgentRuntime) : Except Fault AgentRuntime := r.1.map fun _ => r.2

variable (hosts : AgentIdx → Host)

/-- The body of the inner loop of `flux_agent_schedule`, with `found_ready`. -/
def scheduleVisit (state : AgentRuntime × Bool) (idx : AgentIdx) : Diverging Fault (AgentRuntime × Bool) :=
  let slot := state.1.agents idx
  if slot.ready then do
    let slice := state.1.config.timeSlice
    let rt ← ExceptT.mk ((state.1.fluxAgentRun (hosts idx) slot.desc.agentId slice).map runtimeOf)
    return (rt, true)
  else pure state

/-- The slots in the order of a round. -/
def slotsFrom (cursor : AgentIdx) : List AgentIdx := (List.finRange fluxAgentMax).map (cursor + ·)

/-- The outer loop, with `n` rounds to go. -/
def scheduleRounds : Nat → AgentRuntime × AgentIdx → Diverging Fault (AgentRuntime × AgentIdx)
  | 0, state => pure state
  | n + 1, (rt, cursor) => do
    let (rt, foundReady) ← (slotsFrom cursor).foldlM (scheduleVisit hosts) (rt, false)
    let cursor := cursor + 1
    if foundReady then scheduleRounds n (rt, cursor) else pure (rt, cursor)

/-- The body of the loop of `flux_agent_schedule_step`, with `stepped`. -/
def stepVisit (state : AgentRuntime × Nat) (i : AgentIdx) : Diverging Fault (AgentRuntime × Nat) :=
  let slot := state.1.agents i
  if slot.stepReady then do
    let rt ← ExceptT.mk (some (runtimeOf (state.1.fluxAgentStep (hosts i) slot.desc.agentId)))
    return (rt, state.2 + 1)
  else pure state

/-- `flux_agent_schedule_step`. -/
def fluxAgentScheduleStep (rt : AgentRuntime) : Diverging Fault (Nat × AgentRuntime) :=
  if !rt.initialized then pure (0, rt)
  else do
    let (rt, stepped) ← (List.finRange fluxAgentMax).foldlM (stepVisit hosts) (rt, 0)
    return (stepped, { rt with tickCounter := rt.tickCounter + 1 })

end AgentRuntime

namespace AgentScheduler

def maxRounds : Nat := fluxAgentMax * 2

/-- `flux_agent_schedule`; the agent in each slot runs on a host of its own. -/
def fluxAgentSchedule (hosts : AgentIdx → Host) (s : AgentScheduler) :
    Diverging Fault (FluxStatus × AgentScheduler) :=
  if !s.rt.initialized then pure (.errInvalid, s)
  else do
    let (rt, scheduleCursor) ← scheduleRounds hosts maxRounds (s.rt, s.scheduleCursor)
    return (.ok, ⟨{ rt with tickCounter := rt.tickCounter + 1 }, scheduleCursor⟩)

end AgentScheduler

/-! ## Slots by themselves -/

namespace AgentSlot

variable {slot slot' : AgentSlot} {i : AgentIdx} {host : Host} {now : UInt64} {slice : UInt32}

theorem stepReady_eq (slot : AgentSlot) : slot.stepReady = slot.ready := by
  unfold stepReady ready
  cases slot.desc.state <;> simp

theorem ready_iff : slot.ready = true ↔
    slot.active = true ∧ ¬ slot.MayNotRun ∧ slot.desc.state ≠ .waiting ∧ slot.desc.state ≠ .delegating := by
  simp only [ready, MayNotRun, Bool.and_eq_true, Bool.not_eq_true', Bool.or_eq_false_iff, decide_eq_false_iff_not,
    not_or, Bool.not_eq_true]
  tauto

/-- A time slice of the agent. -/
def runTurn (host : Host) (now : UInt64) (slice : UInt32) (slot : AgentSlot) : Diverging Fault AgentSlot :=
  ExceptT.mk ((slot.run host now slice).map fun r => r.1.map fun _ => r.2)

/-- A step of the agent, if there is a program. -/
def stepTurn (host : Host) (now : UInt64) (slot : AgentSlot) : Diverging Fault AgentSlot :=
  if !slot.vmInitialized ∨ slot.vm.bytecodeLen = 0 then pure slot
  else ExceptT.mk (some ((slot.step host now).1.map fun _ => (slot.step host now).2))

theorem returns_runTurn : Returns (slot.runTurn host now slice) slot' ↔
    ∃ status, slot.run host now slice = some (.ok status, slot') := by
  unfold runTurn Returns
  rw [ExceptT.run_mk]
  cases slot.run host now slice with
  | none => simp
  | some r => rcases r with ⟨e | status, t⟩ <;> simp [Except.map]

theorem keepsAgent_runTurn (h : Returns (slot.runTurn host now slice) slot') : KeepsAgent slot slot' := by
  obtain ⟨status, h⟩ := returns_runTurn.1 h
  exact keepsAgent_run h

theorem keepsAgent_stepTurn (h : Returns (slot.stepTurn host now) slot') : KeepsAgent slot slot' := by
  unfold stepTurn at h
  split_ifs at h
  · exact returns_pure.1 h ▸ .refl
  · have hstep : KeepsAgent slot (slot.step host now).2 := keepsAgent_step
    unfold Returns at h
    rw [ExceptT.run_mk] at h
    generalize slot.step host now = r at h hstep
    obtain ⟨e | status, t⟩ := r
    · cases h
    · cases h
      exact hstep

/-- The descriptor in slot `i` has the id of the slot, if the agent is active. -/
def NamedAt (i : AgentIdx) (slot : AgentSlot) : Prop := slot.active = true → slot.desc.agentId = agentIdOf i

theorem KeepsAgent.namedAt (h : KeepsAgent slot slot') (hnamed : slot.NamedAt i) : slot'.NamedAt i := by
  intro hact
  rw [h.agentId]
  exact hnamed (h.active ▸ hact)

end AgentSlot

/-! ## Calls as turns -/

namespace AgentRuntime

variable {rt rt' : AgentRuntime} {hosts : AgentIdx → Host} {cursor i : AgentIdx} {table table' : AgentIdx → AgentSlot}
  {turns : Nat}

theorem nodup_slotsFrom (cursor : AgentIdx) : (slotsFrom cursor).Nodup :=
  List.Nodup.map (fun _ _ h => add_left_cancel h) (List.nodup_finRange _)

theorem mem_slotsFrom (cursor i : AgentIdx) : i ∈ slotsFrom cursor :=
  List.mem_map.2 ⟨i - cursor, List.mem_finRange _, by simp⟩

def withAgents (rt : AgentRuntime) (table : AgentIdx → AgentSlot) : AgentRuntime := { rt with agents := table }

theorem withAgents_self : rt.withAgents (Function.update rt.agents i (rt.agents i)) = rt := by
  rw [Function.update_eq_self]
  rfl

/-- The call for a slot that is ready runs the agent in the slot. -/
theorem fluxAgentRun_of_ready (rt : AgentRuntime) {host : Host} {slice : UInt32} (hinit : rt.initialized = true)
    (hnamed : (rt.agents i).NamedAt i) (hready : (rt.agents i).ready = true) :
    ExceptT.mk ((rt.fluxAgentRun host (rt.agents i).desc.agentId slice).map runtimeOf) =
      (fun slot => rt.withAgents (Function.update rt.agents i slot)) <$>
        (rt.agents i).runTurn host rt.agentNow slice := by
  obtain ⟨hact, hmay, -, -⟩ := AgentSlot.ready_iff.1 hready
  have hslot : rt.agentSlotById (rt.agents i).desc.agentId = some i := agentSlotById_eq_some.2 ⟨hnamed hact, hact⟩
  refine ExceptT.ext ?_
  simp only [fluxAgentRun, hinit, hslot, hmay, Bool.not_true, Bool.false_eq_true, if_false, ExceptT.run_mk,
    AgentSlot.runTurn, ExceptT.run_map]
  cases (rt.agents i).run host rt.agentNow slice with
  | none => rfl
  | some r => rcases r with ⟨e | status, t⟩ <;> rfl

theorem fluxAgentStep_of_ready (rt : AgentRuntime) {host : Host} (hinit : rt.initialized = true)
    (hnamed : (rt.agents i).NamedAt i) (hready : (rt.agents i).ready = true) :
    ExceptT.mk (some (runtimeOf (rt.fluxAgentStep host (rt.agents i).desc.agentId))) =
      (fun slot => rt.withAgents (Function.update rt.agents i slot)) <$>
        (rt.agents i).stepTurn host rt.agentNow := by
  obtain ⟨hact, hmay, -, -⟩ := AgentSlot.ready_iff.1 hready
  have hslot : rt.agentSlotById (rt.agents i).desc.agentId = some i := agentSlotById_eq_some.2 ⟨hnamed hact, hact⟩
  refine ExceptT.ext ?_
  simp only [fluxAgentStep, hinit, hslot, hmay, Bool.not_true, Bool.false_eq_true, if_false, ExceptT.run_mk,
    AgentSlot.stepTurn, ExceptT.run_map]
  split_ifs
  · exact congrArg (fun rt => some (Except.ok rt)) withAgents_self.symm
  · generalize (rt.agents i).step host rt.agentNow = r
    rcases r with ⟨e | status, t⟩ <;> rfl

/-- The turns of `flux_agent_schedule`. -/
def runTurns (rt : AgentRuntime) (hosts : AgentIdx → Host) (i : AgentIdx) : AgentSlot → Diverging Fault AgentSlot :=
  AgentSlot.runTurn (hosts i) rt.agentNow rt.config.timeSlice

/-- The turns of `flux_agent_schedule_step`. -/
def stepTurns (rt : AgentRuntime) (hosts : AgentIdx → Host) (i : AgentIdx) : AgentSlot → Diverging Fault AgentSlot :=
  AgentSlot.stepTurn (hosts i) rt.agentNow

theorem scheduleVisit_eq (hinit : rt.initialized = true) (hnamed : (table i).NamedAt i) :
    scheduleVisit hosts (rt.withAgents table, decide (0 < turns)) i =
      (fun p => (rt.withAgents p.1, decide (0 < p.2))) <$>
        RoundRobin.visit AgentSlot.ready (rt.runTurns hosts) (table, turns) i := by
  have hrun (hready : (table i).ready = true) :
      ExceptT.mk (((rt.withAgents table).fluxAgentRun (hosts i) (table i).desc.agentId rt.config.timeSlice).map
        runtimeOf) = (fun slot => rt.withAgents (Function.update table i slot)) <$> rt.runTurns hosts i (table i) :=
    fluxAgentRun_of_ready (rt.withAgents table) hinit hnamed hready
  show (if (table i).ready = true then _ else _) = _
  unfold RoundRobin.visit
  split_ifs with hready
  · show (ExceptT.mk (((rt.withAgents table).fluxAgentRun (hosts i) (table i).desc.agentId rt.config.timeSlice).map
      runtimeOf) >>= fun rt => pure (rt, true)) = _
    rw [hrun hready, bind_map_left, map_bind]
    simp
  · simp

theorem stepVisit_eq (hinit : rt.initialized = true) (hnamed : (table i).NamedAt i) :
    stepVisit hosts (rt.withAgents table, turns) i =
      (fun p => (rt.withAgents p.1, p.2)) <$>
        RoundRobin.visit AgentSlot.ready (rt.stepTurns hosts) (table, turns) i := by
  have hstep (hready : (table i).ready = true) :
      ExceptT.mk (some (runtimeOf ((rt.withAgents table).fluxAgentStep (hosts i) (table i).desc.agentId))) =
        (fun slot => rt.withAgents (Function.update table i slot)) <$> rt.stepTurns hosts i (table i) :=
    fluxAgentStep_of_ready (rt.withAgents table) hinit hnamed hready
  show (if (table i).stepReady = true then _ else _) = _
  rw [AgentSlot.stepReady_eq]
  unfold RoundRobin.visit
  split_ifs with hready
  · show (ExceptT.mk (some (runtimeOf ((rt.withAgents table).fluxAgentStep (hosts i) (table i).desc.agentId))) >>=
      fun rt => pure (rt, turns + 1)) = _
    rw [hstep hready, bind_map_left, map_bind]
    simp
  · simp

/-- A visit keeps the ids of the agents. -/
theorem visit_named {turn : AgentIdx → AgentSlot → Diverging Fault AgentSlot} {p q : (AgentIdx → AgentSlot) × Nat}
    (hturn : ∀ i slot slot', Returns (turn i slot) slot' → slot.KeepsAgent slot') (hnamed : ∀ i, (p.1 i).NamedAt i)
    (h : Returns (RoundRobin.visit AgentSlot.ready turn p i) q) (j : AgentIdx) : (q.1 j).NamedAt j := by
  obtain ⟨hi, hrest, -⟩ := RoundRobin.returns_visit.1 h
  by_cases hj : j = i
  · subst hj
    unfold RoundRobin.advance at hi
    split_ifs at hi
    · exact (hturn j _ _ hi).namedAt (hnamed j)
    · exact returns_pure.1 hi ▸ hnamed j
  · rw [hrest j hj]
    exact hnamed j

theorem keepsAgent_runTurns (i : AgentIdx) (slot slot' : AgentSlot) (h : Returns (rt.runTurns hosts i slot) slot') :
    slot.KeepsAgent slot' := AgentSlot.keepsAgent_runTurn h

theorem keepsAgent_stepTurns (i : AgentIdx) (slot slot' : AgentSlot) (h : Returns (rt.stepTurns hosts i slot) slot') :
    slot.KeepsAgent slot' := AgentSlot.keepsAgent_stepTurn h

/-- A round of the scheduler is a round robin over the table of agents. -/
theorem scheduleRound_eq (hinit : rt.initialized = true) (hnamed : ∀ i, (table i).NamedAt i) (l : List AgentIdx) :
    l.foldlM (scheduleVisit hosts) (rt.withAgents table, false) =
      (fun p => (rt.withAgents p.1, decide (0 < p.2))) <$>
        RoundRobin.round AgentSlot.ready (rt.runTurns hosts) l table := by
  unfold RoundRobin.round
  refine foldlM_map (f := fun p : (AgentIdx → AgentSlot) × Nat => (rt.withAgents p.1, decide (0 < p.2)))
    (I := fun p => ∀ i, (p.1 i).NamedAt i) (fun p i hp => ?_)
    (fun p i q hp h => visit_named keepsAgent_runTurns hp h) (c := (table, 0)) hnamed
  exact scheduleVisit_eq hinit (hp i)

theorem scheduleRounds_succ (hosts : AgentIdx → Host) (n : Nat) (cursor : AgentIdx) :
    scheduleRounds hosts (n + 1) (rt, cursor) =
      ((slotsFrom cursor).foldlM (scheduleVisit hosts) (rt, false) >>= fun p =>
        if p.2 then scheduleRounds hosts n (p.1, cursor + 1) else pure (p.1, cursor + 1)) := rfl

theorem scheduleRounds_eq (hosts : AgentIdx → Host) (hinit : rt.initialized = true)
    (hnamed : ∀ i, (table i).NamedAt i) (cursor : AgentIdx) (n k : Nat) :
    scheduleRounds hosts n (rt.withAgents table, (· + 1)^[k] cursor) =
      (fun p => (rt.withAgents p.2, (· + 1)^[p.1] cursor)) <$>
        RoundRobin.rounds AgentSlot.ready (rt.runTurns hosts)
          (fun k => slotsFrom ((· + 1)^[k] cursor)) n k table := by
  induction n generalizing k table with
  | zero => rfl
  | succ n ih =>
    rw [scheduleRounds_succ, RoundRobin.rounds, scheduleRound_eq hinit hnamed, bind_map_left, map_bind]
    refine bind_congr_returns fun p hp => ?_
    obtain ⟨table', turns⟩ := p
    have hnamed' (i : AgentIdx) : (table' i).NamedAt i := by
      have hround := foldlM_invariant (I := fun p : (AgentIdx → AgentSlot) × Nat => ∀ i, (p.1 i).NamedAt i)
        (fun _ _ _ _ hp h => visit_named keepsAgent_runTurns hp h) hnamed hp
      exact hround i
    simp only [decide_eq_true_eq]
    split_ifs
    · rw [← Function.iterate_succ_apply' (· + 1)]
      exact ih hnamed' (k + 1)
    · rw [map_pure, Function.iterate_succ_apply']

/-! ## Calls as runs of the agent system -/

variable {receives : List A2aReceive}

/-- A call that executes an agent is an action. -/
theorem reaches_of_runtimeOf {rt₀ : AgentRuntime} {a : AgentAction} {r : Except Fault FluxStatus × AgentRuntime}
    (h : Reaches AgentSystem.step (fun a _ => a.Executes) ⟨rt₀, receives⟩ ⟨rt, receives⟩) (ha : a.Executes)
    (hstep : AgentSystem.step a ⟨rt, receives⟩ = AgentSystem.afterExecution ⟨rt, receives⟩ r)
    (hr : runtimeOf r = .ok rt') :
    Reaches AgentSystem.step (fun a _ => a.Executes) ⟨rt₀, receives⟩ ⟨rt', receives⟩ := by
  obtain ⟨e | status, rt₁⟩ := r
  · cases hr
  · cases hr
    exact h.tail ha hstep

theorem scheduleVisit_reaches {rt₀ : AgentRuntime} {p q : AgentRuntime × Bool}
    (h : Reaches AgentSystem.step (fun a _ => a.Executes) ⟨rt₀, receives⟩ ⟨p.1, receives⟩)
    (hvisit : Returns (scheduleVisit hosts p i) q) :
    Reaches AgentSystem.step (fun a _ => a.Executes) ⟨rt₀, receives⟩ ⟨q.1, receives⟩ := by
  obtain ⟨rt, found⟩ := p
  unfold scheduleVisit at hvisit
  simp only at hvisit
  split_ifs at hvisit
  · obtain ⟨rt', hrun, hq⟩ := returns_bind.1 hvisit
    obtain rfl := returns_pure.1 hq
    obtain ⟨r, hr, hrt'⟩ := Option.map_eq_some_iff.1 hrun
    refine reaches_of_runtimeOf (a := .run (hosts i) (rt.agents i).desc.agentId rt.config.timeSlice) h trivial ?_ hrt'
    rw [AgentSystem.step, hr]
    rfl
  · exact returns_pure.1 hvisit ▸ h

theorem stepVisit_reaches {rt₀ : AgentRuntime} {p q : AgentRuntime × Nat}
    (h : Reaches AgentSystem.step (fun a _ => a.Executes) ⟨rt₀, receives⟩ ⟨p.1, receives⟩)
    (hvisit : Returns (stepVisit hosts p i) q) :
    Reaches AgentSystem.step (fun a _ => a.Executes) ⟨rt₀, receives⟩ ⟨q.1, receives⟩ := by
  obtain ⟨rt, stepped⟩ := p
  unfold stepVisit at hvisit
  simp only at hvisit
  split_ifs at hvisit
  · obtain ⟨rt', hstep, hq⟩ := returns_bind.1 hvisit
    obtain rfl := returns_pure.1 hq
    exact reaches_of_runtimeOf (a := .step (hosts i) (rt.agents i).desc.agentId) h trivial rfl (Option.some.inj hstep)
  · exact returns_pure.1 hvisit ▸ h

theorem scheduleRounds_reaches {rt₀ : AgentRuntime} {n : Nat} {p q : AgentRuntime × AgentIdx}
    (h : Reaches AgentSystem.step (fun a _ => a.Executes) ⟨rt₀, receives⟩ ⟨p.1, receives⟩)
    (hrounds : Returns (scheduleRounds hosts n p) q) :
    Reaches AgentSystem.step (fun a _ => a.Executes) ⟨rt₀, receives⟩ ⟨q.1, receives⟩ := by
  induction n generalizing p with
  | zero => exact returns_pure.1 hrounds ▸ h
  | succ n ih =>
    obtain ⟨rt, cursor⟩ := p
    obtain ⟨⟨rt', found⟩, hround, hrest⟩ := returns_bind.1 hrounds
    have hreach : Reaches AgentSystem.step (fun a _ => a.Executes) ⟨rt₀, receives⟩ ⟨rt', receives⟩ :=
      foldlM_invariant (I := fun p : AgentRuntime × Bool =>
          Reaches AgentSystem.step (fun a _ => a.Executes) ⟨rt₀, receives⟩ ⟨p.1, receives⟩)
        (fun _ _ _ _ hp hvisit => scheduleVisit_reaches hp hvisit) h hround
    simp only at hrest
    split_ifs at hrest
    · exact ih hreach hrest
    · exact returns_pure.1 hrest ▸ hreach

theorem tick_reaches {rt₀ : AgentRuntime}
    (h : Reaches AgentSystem.step (fun a _ => a.Executes) ⟨rt₀, receives⟩ ⟨rt, receives⟩) :
    Reaches AgentSystem.step (fun a _ => a.Executes) ⟨rt₀, receives⟩
      ⟨{ rt with tickCounter := rt.tickCounter + 1 }, receives⟩ :=
  h.tail (a := .tick) trivial rfl

end AgentRuntime

/-! ## What a call does -/

namespace AgentScheduler

variable {s : AgentScheduler} {hosts : AgentIdx → Host}

/-- The time slices of the agent in a slot, if nothing else happens. -/
def slices (s : AgentScheduler) (hosts : AgentIdx → Host) (i : AgentIdx) : Diverging Fault AgentSlot :=
  RoundRobin.advances AgentSlot.ready (s.rt.runTurns hosts) i maxRounds (s.rt.agents i)

/-- A slice is never empty. -/
theorem timeSlice_pos (config : AgentConfig) : 0 < config.timeSlice := by
  unfold AgentConfig.timeSlice
  simp only
  split_ifs with h₁ h₂ h₃
  · exact absurd h₂ (by decide)
  · decide
  · decide
  · exact UInt32.lt_of_lt_of_le (by decide) (UInt32.not_lt.1 h₁)

/-- In its time slices an agent executes no more instructions than they have ticks. -/
theorem executed_slices {i : AgentIdx} {slot : AgentSlot} (h : Returns (s.slices hosts i) slot) :
    slot.executed ≤ (s.rt.agents i).executed + maxRounds * s.rt.config.timeSlice.toNat := by
  have hturn (m : Nat) (a b : AgentSlot)
      (ha : a.executed ≤ (s.rt.agents i).executed + m * s.rt.config.timeSlice.toNat)
      (hb : Returns (s.rt.runTurns hosts i a) b) :
      b.executed ≤ (s.rt.agents i).executed + (m + 1) * s.rt.config.timeSlice.toNat := by
    obtain ⟨status, hrun⟩ := AgentSlot.returns_runTurn.1 hb
    obtain ⟨r, hr, hle⟩ := AgentSlot.run_bound a (hosts i) s.rt.agentNow (timeSlice_pos s.rt.config)
    obtain rfl := Option.some.inj (hr.symm.trans hrun)
    have hle : b.executed ≤ a.executed + s.rt.config.timeSlice.toNat := hle
    rw [Nat.succ_mul]
    omega
  have hle := RoundRobin.advances_stage (P := fun m slot =>
    slot.executed ≤ (s.rt.agents i).executed + m * s.rt.config.timeSlice.toNat) hturn
    (fun m a ha => by rw [Nat.succ_mul]; omega) h (m := 0) (by omega)
  rwa [Nat.zero_add] at hle

/-- In a state that a run of the agent system reaches, `flux_agent_schedule` returns when each agent that is ready
can by itself have 128 time slices, or as many as it takes, without a fault, and then each agent is where these
lead it.  A call ends when no agent is ready or all rounds are made. -/
theorem fluxAgentSchedule_spec {receives : List A2aReceive}
    (hreach : AgentSystem.Reachable (fun _ _ => True) ⟨s.rt, receives⟩) :
    ((∃ r, Returns (s.fluxAgentSchedule hosts) r) ↔ ∀ i, ∃ slot, Returns (s.slices hosts i) slot) ∧
      ∀ status t, Returns (s.fluxAgentSchedule hosts) (status, t) →
        status = .ok ∧ (∀ i, Returns (s.slices hosts i) (t.rt.agents i)) ∧
          (∀ i, (t.rt.agents i).executed ≤ (s.rt.agents i).executed + maxRounds * s.rt.config.timeSlice.toNat) ∧
          t.rt = { s.rt with agents := t.rt.agents, tickCounter := s.rt.tickCounter + 1 } ∧
          ∃ rounds ≤ maxRounds, t.scheduleCursor = (· + 1)^[rounds] s.scheduleCursor ∧
            (rounds = maxRounds ∨ ∀ i, (t.rt.agents i).ready = false) := by
  have hinit : s.rt.initialized = true := (AgentSystem.idsSound_of_reachable hreach).initialized
  have hnamed (i : AgentIdx) : (s.rt.agents i).NamedAt i := AgentSystem.named_of_reachable hreach i
  have horder (k : Nat) : (slotsFrom ((· + 1)^[k] s.scheduleCursor)).Nodup ∧
      ∀ i, i ∈ slotsFrom ((· + 1)^[k] s.scheduleCursor) :=
    ⟨nodup_slotsFrom _, mem_slotsFrom _⟩
  have heq := scheduleRounds_eq hosts hinit hnamed s.scheduleCursor maxRounds 0
  have hcall {status : FluxStatus} {t : AgentScheduler} : Returns (s.fluxAgentSchedule hosts) (status, t) ↔
      ∃ k table, Returns (RoundRobin.rounds AgentSlot.ready (s.rt.runTurns hosts)
          (fun k => slotsFrom ((· + 1)^[k] s.scheduleCursor)) maxRounds 0 s.rt.agents) (k, table) ∧
        status = .ok ∧ t = ⟨{ s.rt with agents := table, tickCounter := s.rt.tickCounter + 1 },
          (· + 1)^[k] s.scheduleCursor⟩ := by
    rw [fluxAgentSchedule, hinit, Bool.not_true, if_neg Bool.false_ne_true]
    rw [show (s.rt, s.scheduleCursor) = (s.rt.withAgents s.rt.agents, (· + 1)^[0] s.scheduleCursor) from rfl, heq,
      bind_map_left, returns_bind, Prod.exists]
    refine exists_congr fun k => exists_congr fun table => and_congr_right fun _ => ?_
    rw [returns_pure, Prod.mk.injEq, eq_comm, eq_comm (a := t)]
    rfl
  constructor
  · unfold slices
    rw [← RoundRobin.exists_rounds horder]
    constructor
    · rintro ⟨⟨status, t⟩, h⟩
      obtain ⟨k, table, hrounds, -⟩ := hcall.1 h
      exact ⟨_, hrounds⟩
    · rintro ⟨⟨k, table⟩, hrounds⟩
      exact ⟨_, hcall.2 ⟨k, table, hrounds, rfl, rfl⟩⟩
  · intro status t h
    obtain ⟨k, table, hrounds, rfl, rfl⟩ := hcall.1 h
    obtain ⟨hall, hle, hend⟩ := RoundRobin.rounds_advances horder hrounds
    rw [Nat.zero_add] at hle hend
    exact ⟨rfl, hall, fun i => executed_slices (hall i), rfl, k, hle, rfl, hend⟩

/-- An agent whose VM has no memory. -/
theorem fluxAgentSchedule_spec_bare :
    (∃ r, Returns (fluxAgentSchedule (fun _ => FluxVm.plentifulHost) ⟨(fluxAgentInit none).withBare 0, 5⟩) r) ↔
      ∀ i, ∃ slot, Returns (slices ⟨(fluxAgentInit none).withBare 0, 5⟩ (fun _ => FluxVm.plentifulHost) i) slot := by
  have hboot : Reaches AgentSystem.step (fun _ _ => True) (AgentSystem.boot none) _ := Reaches.refl _
  have hreach : AgentSystem.Reachable (fun _ _ => True) ⟨(fluxAgentInit none).withBare 0, []⟩ :=
    ⟨none, hboot.tail (a := .spawnBare 0) trivial rfl⟩
  exact (fluxAgentSchedule_spec hreach).1

/-- What a call does, a run of the agent system does that only executes agents and ticks. -/
theorem fluxAgentSchedule_reaches (receives : List A2aReceive) {status : FluxStatus} {t : AgentScheduler}
    (h : Returns (s.fluxAgentSchedule hosts) (status, t)) :
    Reaches AgentSystem.step (fun a _ => a.Executes) ⟨s.rt, receives⟩ ⟨t.rt, receives⟩ := by
  unfold fluxAgentSchedule at h
  split_ifs at h
  · obtain ⟨-, rfl⟩ := Prod.mk.inj (returns_pure.1 h)
    exact Reaches.refl _
  · obtain ⟨⟨rt, cursor⟩, hrounds, hend⟩ := returns_bind.1 h
    obtain ⟨-, rfl⟩ := Prod.mk.inj (returns_pure.1 hend)
    exact tick_reaches (scheduleRounds_reaches (Reaches.refl _) hrounds)

end AgentScheduler

namespace AgentRuntime

variable {rt rt' : AgentRuntime} {hosts : AgentIdx → Host}

/-- In a state that a run of the agent system reaches, `flux_agent_schedule_step` gives each agent that is ready one
step, returns how many there were, and returns when none of the steps faults. -/
theorem fluxAgentScheduleStep_spec {receives : List A2aReceive}
    (hreach : AgentSystem.Reachable (fun _ _ => True) ⟨rt, receives⟩) (stepped : Nat) :
    Returns (rt.fluxAgentScheduleStep hosts) (stepped, rt') ↔
      (∀ i, Returns (RoundRobin.advance AgentSlot.ready (rt.stepTurns hosts) i (rt.agents i)) (rt'.agents i)) ∧
        rt' = { rt with agents := rt'.agents, tickCounter := rt.tickCounter + 1 } ∧
        stepped = (List.finRange fluxAgentMax).countP fun i => (rt.agents i).ready := by
  have hinit : rt.initialized = true := (AgentSystem.idsSound_of_reachable hreach).initialized
  have hnamed (i : AgentIdx) : (rt.agents i).NamedAt i := AgentSystem.named_of_reachable hreach i
  have heq : (List.finRange fluxAgentMax).foldlM (stepVisit hosts) (rt, 0) =
      (fun p => (rt.withAgents p.1, p.2)) <$>
        RoundRobin.round AgentSlot.ready (rt.stepTurns hosts) (List.finRange fluxAgentMax) rt.agents := by
    unfold RoundRobin.round
    refine foldlM_map (f := fun p : (AgentIdx → AgentSlot) × Nat => (rt.withAgents p.1, p.2))
      (I := fun p => ∀ i, (p.1 i).NamedAt i) (fun p i hp => ?_)
      (fun p i q hp h => visit_named keepsAgent_stepTurns hp h) (c := (rt.agents, 0)) hnamed
    exact stepVisit_eq hinit (hp i)
  rw [fluxAgentScheduleStep, if_neg (by simp [hinit]), heq, bind_map_left, returns_bind]
  constructor
  · rintro ⟨⟨table, turns⟩, hround, h⟩
    obtain ⟨hadvance, rfl⟩ := (RoundRobin.returns_round (List.nodup_finRange _) List.mem_finRange).1 hround
    obtain ⟨rfl, rfl⟩ := Prod.mk.inj (returns_pure.1 h)
    exact ⟨hadvance, rfl, rfl⟩
  · rintro ⟨hadvance, hrt', rfl⟩
    refine ⟨_, (RoundRobin.returns_round (List.nodup_finRange _) List.mem_finRange).2 ⟨hadvance, rfl⟩, ?_⟩
    exact returns_pure.2 (Prod.ext rfl hrt'.symm)

/-- An agent that jumps to its own instruction takes one step. -/
theorem fluxAgentScheduleStep_spec_jump : ∃ rt,
    Returns ((spawnedWith 0x40).rt.fluxAgentScheduleStep fun _ => FluxVm.plentifulHost) (1, rt) ∧
      ((spawnedWith 0x40).rt.agents firstAgent).executed = 0 ∧ (rt.agents firstAgent).executed = 1 := by
  have hboot : Reaches AgentSystem.step (fun _ _ => True) (AgentSystem.boot none) _ := Reaches.refl _
  have hreach : AgentSystem.Reachable (fun _ _ => True) ⟨(spawnedWith 0x40).rt, []⟩ :=
    ⟨none, hboot.tail (a := .spawn FluxVm.plentifulHost true none none 0
      (some fun k => [0x40, 0, 0, 0].getD k 0) 4) trivial rfl⟩
  obtain ⟨slot, hslot, hexec⟩ : ∃ slot, Returns (RoundRobin.advance AgentSlot.ready
      ((spawnedWith 0x40).rt.stepTurns fun _ => FluxVm.plentifulHost) firstAgent
      ((spawnedWith 0x40).rt.agents firstAgent)) slot ∧ slot.executed = 1 := ⟨_, rfl, rfl⟩
  have hothers : ∀ i, i ≠ firstAgent → ((spawnedWith 0x40).rt.agents i).ready = false := by decide +kernel
  have htable (i : AgentIdx) : Returns (RoundRobin.advance AgentSlot.ready
      ((spawnedWith 0x40).rt.stepTurns fun _ => FluxVm.plentifulHost) i ((spawnedWith 0x40).rt.agents i))
      (Function.update (spawnedWith 0x40).rt.agents firstAgent slot i) := by
    by_cases hi : i = firstAgent
    · subst hi
      rw [Function.update_self]
      exact hslot
    · rw [Function.update_of_ne hi, RoundRobin.advance_of_not_ready (hothers i hi)]
      exact returns_pure.2 rfl
  refine ⟨{ (spawnedWith 0x40).rt with
    agents := Function.update (spawnedWith 0x40).rt.agents firstAgent slot
    tickCounter := (spawnedWith 0x40).rt.tickCounter + 1 },
    (fluxAgentScheduleStep_spec hreach 1).2 ⟨htable, rfl, by decide +kernel⟩, rfl, ?_⟩
  show (Function.update (spawnedWith 0x40).rt.agents firstAgent slot firstAgent).executed = 1
  rw [Function.update_self]
  exact hexec

theorem fluxAgentScheduleStep_reaches (receives : List A2aReceive) {stepped : Nat}
    (h : Returns (rt.fluxAgentScheduleStep hosts) (stepped, rt')) :
    Reaches AgentSystem.step (fun a _ => a.Executes) ⟨rt, receives⟩ ⟨rt', receives⟩ := by
  unfold fluxAgentScheduleStep at h
  split_ifs at h
  · obtain ⟨-, rfl⟩ := Prod.mk.inj (returns_pure.1 h)
    exact Reaches.refl _
  · obtain ⟨⟨rt₁, n⟩, hround, hend⟩ := returns_bind.1 h
    obtain ⟨-, rfl⟩ := Prod.mk.inj (returns_pure.1 hend)
    refine tick_reaches ?_
    exact foldlM_invariant (I := fun p : AgentRuntime × Nat =>
        Reaches AgentSystem.step (fun a _ => a.Executes) ⟨rt, receives⟩ ⟨p.1, receives⟩)
      (fun _ _ _ _ hp hvisit => stepVisit_reaches hp hvisit) (Reaches.refl _) hround

end AgentRuntime

/-! ## Runs with the scheduler -/

/-- The agent system with the cursor of the scheduler. -/
structure ScheduledSystem where
  sys : AgentSystem
  scheduleCursor : AgentIdx

/-- A call of the agent runtime, or of the scheduler. -/
inductive SchedulerAction
  | call (a : AgentAction)
  | schedule (hosts : AgentIdx → Host)
  | scheduleStep (hosts : AgentIdx → Host)

namespace ScheduledSystem

/-- The result of a computation, if there is one. -/
def resultOf {α : Type} (x : Diverging Fault α) : Option α := x.run.bind Except.toOption

/-- One action.  It is not possible where the code is undefined. -/
def step : SchedulerAction → ScheduledSystem → Option ScheduledSystem
  | .call a, s => (AgentSystem.step a s.sys).map fun sys => { s with sys }
  | .schedule hosts, s =>
    (resultOf (AgentScheduler.fluxAgentSchedule hosts ⟨s.sys.rt, s.scheduleCursor⟩)).map fun r =>
      ⟨s.sys.withRt r.2.rt, r.2.scheduleCursor⟩
  | .scheduleStep hosts, s =>
    (resultOf (s.sys.rt.fluxAgentScheduleStep hosts)).map fun r => { s with sys := s.sys.withRt r.2 }

variable {s t : ScheduledSystem} {a : SchedulerAction}

theorem resultOf_eq_some {α : Type} {x : Diverging Fault α} {r : α} : resultOf x = some r ↔ Returns x r := by
  unfold resultOf Returns
  cases x.run with
  | none => simp
  | some o => cases o <;> simp [Except.toOption]

/-- An action is a run of the agent system. -/
theorem step_reaches (h : step a s = some t) : Reaches AgentSystem.step (fun _ _ => True) s.sys t.sys := by
  cases a with
  | call a =>
    obtain ⟨sys, hsys, rfl⟩ := Option.map_eq_some_iff.1 h
    exact (Reaches.refl _).tail trivial hsys
  | schedule hosts =>
    obtain ⟨⟨status, t'⟩, hr, rfl⟩ := Option.map_eq_some_iff.1 h
    have hrun := AgentScheduler.fluxAgentSchedule_reaches s.sys.receives (resultOf_eq_some.1 hr)
    exact hrun.mono fun _ _ _ => trivial
  | scheduleStep hosts =>
    obtain ⟨⟨stepped, rt'⟩, hr, rfl⟩ := Option.map_eq_some_iff.1 h
    have hrun := fluxAgentScheduleStep_reaches s.sys.receives (resultOf_eq_some.1 hr)
    exact hrun.mono fun _ _ _ => trivial

/-- Whatever is called in whatever order, the scheduler included, leads to a state that the agent system reaches by
itself, in which no agent has executed more instructions than its limit. -/
theorem reachable_of_scheduled {config : Option AgentConfig} {cursor : AgentIdx}
    (h : Reaches step (fun _ _ => True) ⟨AgentSystem.boot config, cursor⟩ t) :
    AgentSystem.Reachable (fun _ _ => True) t.sys ∧ ∀ i, (t.sys.rt.agents i).KeepsCpuLimit := by
  have hreach : AgentSystem.Reachable (fun _ _ => True) t.sys :=
    h.invariant (I := fun s => AgentSystem.Reachable (fun _ _ => True) s.sys)
      (fun a s t _ hs hstep => hs.imp fun config hrun => hrun.trans (step_reaches hstep)) ⟨config, Reaches.refl _⟩
  obtain ⟨config, hrun⟩ := hreach
  refine ⟨⟨config, hrun⟩, keepsCpuLimit_of_paid ?_⟩
  exact AgentSystem.invariant_of_changes (fun _ _ _ => AgentView.Change.paid) hrun
    (paid_of_unused fun _ => ⟨rfl, rfl, rfl⟩)

/-- A call of the scheduler without agents, and a spawn. -/
theorem reachable_of_scheduled_spawn :
    ∃ t : ScheduledSystem, t.scheduleCursor = 8 ∧ AgentSystem.Reachable (fun _ _ => True) t.sys := by
  have hboot : Reaches step (fun _ _ => True) ⟨AgentSystem.boot none, 7⟩ _ := Reaches.refl _
  have hschedule := hboot.tail (a := .schedule fun _ => FluxVm.plentifulHost) trivial rfl
  have hspawn := hschedule.tail (a := .call (.spawnBare 0)) trivial rfl
  exact ⟨_, rfl, (reachable_of_scheduled hspawn).1⟩

end ScheduledSystem

end FluxOs
