import FluxOs.Agent.Changes

/-!
# Delegations

The table of delegations of an agent has 16 entries, and its counter only grows: the entry of a task whose result
was delivered is marked as complete, but it is never given to another task.
-/

namespace FluxOs

open Actions Relation AgentRuntime AgentView

/-! ## The refusal of a delegation -/

namespace AgentRuntime

variable (rt : AgentRuntime) (mem : Bool) (i : AgentIdx) (target : UInt32) (task : List UInt8)

/-- A task of agent `i` passes all checks of `flux_a2a_delegate` but the one of the table. -/
structure MayDelegate : Prop where
  initialized : rt.initialized = true
  payload : task.length ≤ fluxA2aMaxPayload
  active : (rt.agents i).active = true
  communicates : rt.holds i fluxCapCommunicate = true
  worker : ∃ j, rt.agentSlotById target = some j
  other : agentIdOf i ≠ target

/-- No slot is left for a task of agent `i`: it fits into a message, and `flux_a2a_delegate` returns
`FLUX_ERR_OVERFLOW` before it builds one. -/
def LacksSlots : Prop := task.length ≤ fluxA2aMaxPayload ∧
  (rt.fluxA2aDelegate mem (agentIdOf i) target task).1 = .error .errOverflow ∧
  (rt.fluxA2aDelegate mem (agentIdOf i) target task).2.history.generated = rt.history.generated

variable {rt mem i target task}

/-- A full inbox is found after an id was generated. -/
theorem post_generated {j : AgentIdx} {fill : UInt32 → A2aMsg} (h : (rt.post mem j fill).1 = .errOverflow) :
    (rt.post mem j fill).2.2.history.generated = rt.history.generated + 1 := by
  have hposted := post_view rt mem j fill
  generalize rt.post mem j fill = r at h hposted
  obtain ⟨status, id, rt'⟩ := r
  obtain rfl : status = .errOverflow := h
  show rt'.view.history.generated = rt.view.history.generated + 1
  generalize rt'.view = V at hposted
  cases hposted
  rfl

theorem MayDelegate.slotById (h : rt.MayDelegate i target task) : rt.agentSlotById (agentIdOf i) = some i :=
  agentSlotById_eq_some.2 ⟨rfl, h.active⟩

/-- A task that does not pass the other checks changes nothing. -/
theorem fluxA2aDelegate_refused (h : ¬rt.MayDelegate i target task) :
    ∃ status, rt.fluxA2aDelegate mem (agentIdOf i) target task = (.error status, rt) ∧
      (status = .errOverflow → fluxA2aMaxPayload < task.length) := by
  unfold fluxA2aDelegate
  split
  · exact ⟨_, rfl, by simp⟩
  rename_i hinit
  split
  · rename_i hlong
    exact ⟨_, rfl, fun _ => hlong⟩
  rename_i hpayload
  cases hi : rt.agentSlotById (agentIdOf i) with
  | none => exact ⟨_, rfl, by simp⟩
  | some i' =>
    obtain ⟨hid, hact⟩ := agentSlotById_eq_some.1 hi
    obtain rfl := agentIdOf_inj.1 hid
    simp only
    split
    · exact ⟨_, rfl, by simp⟩
    rename_i hcap
    cases hj : rt.agentSlotById target with
    | none => exact ⟨_, rfl, by simp⟩
    | some j =>
      simp only
      split
      · exact ⟨_, rfl, by simp⟩
      rename_i hother
      refine absurd ⟨?_, Nat.le_of_not_lt hpayload, hact, ?_, ⟨j, hj⟩, hother⟩ h
      · simpa using hinit
      · simpa using hcap

theorem fluxA2aDelegate_full (h : rt.MayDelegate i target task)
    (hfull : fluxDelegationsMax ≤ (rt.agents i).delegations.length) :
    rt.fluxA2aDelegate mem (agentIdOf i) target task = (.error .errOverflow, rt) := by
  obtain ⟨j, hj⟩ := h.worker
  have hpayload := Nat.not_lt_of_le h.payload
  simp [fluxA2aDelegate, h.initialized, hpayload, h.slotById, h.communicates, hj, h.other, hfull]

/-- With a free slot, an overflow comes from the inbox of the worker. -/
theorem generated_of_room (h : rt.MayDelegate i target task)
    (hroom : (rt.agents i).delegations.length < fluxDelegationsMax)
    (hoverflow : (rt.fluxA2aDelegate mem (agentIdOf i) target task).1 = .error .errOverflow) :
    (rt.fluxA2aDelegate mem (agentIdOf i) target task).2.history.generated = rt.history.generated + 1 := by
  obtain ⟨j, hj⟩ := h.worker
  have hpayload := Nat.not_lt_of_le h.payload
  have hnot := Nat.not_le_of_lt hroom
  simp only [fluxA2aDelegate, h.initialized, hpayload, h.slotById, h.communicates, hj, h.other, ge_iff_le, hnot,
    Bool.not_true, Bool.false_eq_true, if_false] at hoverflow ⊢
  have hpost : (rt.post mem j (delegateMsg rt.agentNow (agentIdOf i) target task)).1 = .errOverflow →
      (rt.post mem j (delegateMsg rt.agentNow (agentIdOf i) target task)).2.2.history.generated =
        rt.history.generated + 1 := post_generated
  generalize rt.post mem j (delegateMsg rt.agentNow (agentIdOf i) target task) = r at hpost hoverflow ⊢
  obtain ⟨status, id, rt'⟩ := r
  cases status
  case errOverflow => exact hpost rfl
  all_goals cases hoverflow

/-- A task lacks a slot exactly when it passes the other checks and the table is full. -/
theorem lacksSlots_iff : rt.LacksSlots mem i target task ↔
    rt.MayDelegate i target task ∧ fluxDelegationsMax ≤ (rt.agents i).delegations.length := by
  by_cases hmay : rt.MayDelegate i target task
  · by_cases hfull : fluxDelegationsMax ≤ (rt.agents i).delegations.length
    · refine iff_of_true ⟨hmay.payload, ?_⟩ ⟨hmay, hfull⟩
      rw [fluxA2aDelegate_full hmay hfull]
      exact ⟨rfl, rfl⟩
    · refine iff_of_false ?_ fun h => hfull h.2
      rintro ⟨-, hoverflow, hsame⟩
      have := generated_of_room hmay (Nat.lt_of_not_le hfull) hoverflow
      omega
  · refine iff_of_false ?_ fun h => hmay h.1
    rintro ⟨hpayload, hoverflow, -⟩
    obtain ⟨status, heq, hlong⟩ : ∃ status,
      rt.fluxA2aDelegate mem (agentIdOf i) target task = (.error status, rt) ∧ _ := fluxA2aDelegate_refused hmay
    rw [heq] at hoverflow
    have := hlong (Except.error.inj hoverflow)
    omega

/-- A task is delegated only if a slot is left. -/
theorem room_of_delegated {source id : UInt32} (hi : rt.agentSlotById source = some i)
    (hok : (rt.fluxA2aDelegate mem source target task).1 = .ok id) :
    (rt.agents i).delegations.length < fluxDelegationsMax := by
  obtain ⟨rfl, hact⟩ := agentSlotById_eq_some.1 hi
  by_contra hfull
  by_cases hmay : rt.MayDelegate i target task
  · rw [fluxA2aDelegate_full hmay (Nat.le_of_not_lt hfull)] at hok
    cases hok
  · obtain ⟨status, heq, -⟩ : ∃ status,
      rt.fluxA2aDelegate mem (agentIdOf i) target task = (.error status, rt) ∧ _ := fluxA2aDelegate_refused hmay
    rw [heq] at hok
    cases hok

end AgentRuntime

/-! ## The tasks of a run -/

/-- A task that was delegated, and whether its result was delivered. -/
structure Task where
  id : UInt32
  answered : Bool
  deriving DecidableEq

/-- The result of the task with this id was delivered. -/
def Task.answer (id : UInt32) (t : Task) : Task := if t.id = id then { t with answered := true } else t

/-- The agent runtime, with the tasks that each agent has delegated since it was spawned. -/
structure DelegationRun where
  sys : AgentSystem
  tasks : AgentIdx → List Task

namespace DelegationRun

/-- The tasks after a delegation by the agent that has the id of the caller. -/
def delegated (tasks : AgentIdx → List Task) : Except FluxStatus UInt32 → Option AgentIdx → AgentIdx → List Task
  | .ok id, some i => Function.update tasks i (tasks i ++ [⟨id, false⟩])
  | _, _ => tasks

/-- The tasks after a result for an entry that was found. -/
def answered (tasks : AgentIdx → List Task) (id : UInt32) :
    FluxStatus → Option (AgentIdx × Nat) → AgentIdx → List Task
  | .ok, some (d, _) => Function.update tasks d ((tasks d).map (Task.answer id))
  | _, _ => tasks

/-- The tasks after a spawn that returned this id: a new agent has none. -/
def spawned (tasks : AgentIdx → List Task) (id : UInt32) : AgentIdx → List Task :=
  match agentIndexFromId id with
  | some i => Function.update tasks i []
  | none => tasks

/-- The tasks after an action. -/
def note (s : AgentSystem) (tasks : AgentIdx → List Task) : AgentAction → AgentIdx → List Task
  | .delegate mem source target task =>
    delegated tasks (s.rt.fluxA2aDelegate mem source target task).1 (s.rt.agentSlotById source)
  | .delegateResult mem worker id result =>
    answered tasks id (s.rt.fluxA2aDelegateResult mem worker id result).1 (s.rt.findDelegation id)
  | .spawn host mem name model caps bytecode len =>
    spawned tasks (s.rt.fluxAgentSpawn host mem name model caps bytecode len).1
  | _ => tasks

/-- One action. -/
def step (a : AgentAction) (r : DelegationRun) : Option DelegationRun :=
  (AgentSystem.step a r.sys).map fun t => ⟨t, note r.sys r.tasks a⟩

/-- The states that a run from the initialisation reaches. -/
def Reachable (r : DelegationRun) : Prop :=
  ∃ config, Reaches step (fun _ _ => True) ⟨.boot config, fun _ => []⟩ r

/-- The tasks of agent `i` that are not answered yet. -/
def outstanding (r : DelegationRun) (i : AgentIdx) : List Task := (r.tasks i).filter fun t => !t.answered

/-- The table of every agent has one entry for each task, and at most 16. -/
def Tabled (r : DelegationRun) : Prop := ∀ k, (r.sys.rt.agents k).active = true →
  (r.sys.rt.agents k).delegations.length = (r.tasks k).length ∧ (r.tasks k).length ≤ fluxDelegationsMax

variable {r r' : DelegationRun} {s t : AgentSystem} {tasks : AgentIdx → List Task} {a : AgentAction}
  {k : AgentIdx} {V V' : AgentView}

/-! ## The table is kept -/

/-- What an entry of the table says of its task for good: its id and the agent it was given to. -/
def entryKey (d : Delegation) : UInt32 × UInt32 := (d.originalMsgId, d.targetAgent)

/-- The tasks in the table of an agent. -/
def entries (slot : SlotView) : Bool × List (UInt32 × UInt32) := (slot.active, slot.delegations.map entryKey)

/-- What the invariant reads of a slot. -/
def table (slot : SlotView) : Bool × Nat := (slot.active, slot.delegations.length)

theorem table_of_entries {slot slot' : SlotView} (h : entries slot' = entries slot) : table slot' = table slot := by
  obtain ⟨hact, hkeys⟩ := Prod.mk.inj h
  have hlength := congrArg List.length hkeys
  rw [List.length_map, List.length_map] at hlength
  exact Prod.ext hact hlength

theorem entries_mailed (h : Mailed V V') : entries (V'.slots k) = entries (V.slots k) := by
  cases h with
  | none heq => rw [heq]
  | posts i _ hposts =>
    induction hposts with
    | refl => rfl
    | tail _ hposted ih =>
      obtain ⟨mem, j, fill, status, id, -, -, hposted⟩ := hposted
      exact (hposted.keeps (g := entries) (fun _ _ => rfl) k).trans ih

theorem entries_received (h : AgentRuntime.Received V V') : entries (V'.slots k) = entries (V.slots k) := by
  cases h with
  | none heq => rw [heq]
  | takes i msg _ htakes => exact takes_keeps htakes (fun _ _ => rfl) k

/-- Marking a task as complete does not free its entry. -/
theorem entries_completed {d : AgentIdx} {n : Nat} :
    entries ((V.completed d n).slots k) = entries (V.slots k) := by
  refine modify_keeps entries (fun slot => ?_) k
  refine congrArg (Prod.mk _) (List.ext_getElem? fun m => ?_)
  rw [List.getElem?_map, List.getElem?_map, List.getElem?_modify]
  cases slot.delegations[m]? with
  | none => rfl
  | some e =>
    refine congrArg some ?_
    dsimp only
    split_ifs <;> rfl

theorem entries_answers {rt : AgentRuntime} {mem : Bool} {worker id : UInt32} {result : List UInt8}
    {status : FluxStatus} (h : rt.Answers mem worker id result status V) :
    entries (V.slots k) = entries (rt.view.slots k) := by
  cases h with
  | refused => rfl
  | lost d n => exact entries_completed
  | posted i d j n status msgId V _ _ _ _ hposted =>
    exact (hposted.keeps (g := entries) (fun _ _ => rfl) k).trans entries_completed

/-- An action that starts no agent, ends none and delegates nothing keeps the tables. -/
theorem entries_step (h : AgentSystem.step a s = some t)
    (hkind : a.kind ≠ .lifecycle) (hdelegate : ∀ mem source target task, a ≠ .delegate mem source target task) :
    entries (t.rt.view.slots k) = entries (s.rt.view.slots k) := by
  have hkeeps (hmail : a.kind ≠ .mail) : entries (t.rt.view.slots k) = entries (s.rt.view.slots k) := by
    refine AgentSystem.step_keeps (g := fun V => entries (V.slots k)) h fun V V' hchange => ?_
    generalize a.kind = kind at hkind hmail hchange
    cases hchange with
    | posts | takes | delegations => exact absurd rfl hmail
    | clears | spawns | terminates => exact absurd rfl hkind
    | capabilities => rfl
    | registry => rfl
    | executes => exact withUsage_keeps entries (fun _ _ _ _ => rfl) k
  cases a with
  | spawn | terminate | pause | resume => exact absurd rfl hkind
  | send => cases h; exact entries_mailed fluxA2aSend_mailed
  | recv => cases h; exact entries_received fluxA2aRecv_received
  | recvRound =>
    rw [AgentSystem.step] at h
    split_ifs at h
    cases h
    exact entries_received recvRound_received
  | broadcast => cases h; exact entries_mailed fluxA2aBroadcast_mailed
  | reply => cases h; exact entries_mailed fluxA2aReply_mailed
  | delegate mem source target task => exact absurd rfl (hdelegate mem source target task)
  | delegateResult => cases h; exact entries_answers fluxA2aDelegateResult_answers
  | _ => exact hkeeps (by simp [AgentAction.kind])

theorem table_step (h : AgentSystem.step a s = some t)
    (hkind : a.kind ≠ .lifecycle) (hdelegate : ∀ mem source target task, a ≠ .delegate mem source target task) :
    table (t.rt.view.slots k) = table (s.rt.view.slots k) := table_of_entries (entries_step h hkind hdelegate)

/-- The slot of agent `k` has one entry for each of the tasks, unless the agent is not active. -/
def TabledAt (slot : SlotView) (tasks : List Task) : Prop :=
  slot.active = true → slot.delegations.length = tasks.length ∧ tasks.length ≤ fluxDelegationsMax

theorem TabledAt.congr {slot slot' : SlotView} {tasks tasks' : List Task} (h : TabledAt slot tasks)
    (hslot : table slot' = table slot) (htasks : tasks'.length = tasks.length) : TabledAt slot' tasks' := by
  obtain ⟨hact, hlength⟩ := Prod.mk.inj hslot
  intro hactive
  rw [hlength, htasks]
  exact h (hact ▸ hactive)

theorem length_answered {id : UInt32} {status : FluxStatus} {found : Option (AgentIdx × Nat)} :
    (answered tasks id status found k).length = (tasks k).length := by
  unfold answered
  split
  · rename_i d _
    by_cases hk : k = d
    · subst hk
      rw [Function.update_self, List.length_map]
    · rw [Function.update_of_ne hk]
  · rfl

theorem tabledAt_delegate {mem : Bool} {source target : UInt32} {task : List UInt8}
    (h : TabledAt (s.rt.view.slots k) (tasks k)) :
    TabledAt ((s.rt.fluxA2aDelegate mem source target task).2.view.slots k)
      (delegated tasks (s.rt.fluxA2aDelegate mem source target task).1 (s.rt.agentSlotById source) k) := by
  have hdelegates : s.rt.Delegates mem source target task _ _ := fluxA2aDelegate_delegates
  have hroom {id : UInt32} {i : AgentIdx} (hi : s.rt.agentSlotById source = some i)
      (hok : (s.rt.fluxA2aDelegate mem source target task).1 = .ok id) :
      (s.rt.agents i).delegations.length < fluxDelegationsMax := room_of_delegated hi hok
  generalize (s.rt.fluxA2aDelegate mem source target task).1 = result at hdelegates hroom ⊢
  generalize (s.rt.fluxA2aDelegate mem source target task).2.view = V at hdelegates ⊢
  cases hdelegates with
  | refused => exact h
  | posted i j status id V hi hj _ _ hposted =>
    have hkept (m : AgentIdx) : table (V.slots m) = table (s.rt.view.slots m) :=
      hposted.keeps (g := table) (fun _ _ => rfl) m
    rw [hi]
    split_ifs at hroom ⊢ with hok
    · dsimp only [delegated]
      by_cases hk : k = i
      · subst hk
        rw [Function.update_self, tracked, modify_self]
        obtain ⟨hact, hlength⟩ := Prod.mk.inj (hkept k)
        intro hactive
        have hold := h (hact ▸ hactive)
        have hfree : (s.rt.view.slots k).delegations.length < fluxDelegationsMax := hroom hi rfl
        simp only [List.length_append, List.length_singleton, hlength]
        omega
      · rw [Function.update_of_ne hk, tracked, modify_of_ne hk]
        exact h.congr (hkept k) rfl
    · exact h.congr (hkept k) rfl

theorem tabledAt_spawns {caps : UInt64} {id : UInt32} (hspawns : Spawns V caps id V')
    (h : TabledAt (V.slots k) (tasks k)) : TabledAt (V'.slots k) (spawned tasks id k) := by
  have hinvalid : spawned tasks fluxAgentIdInvalid = tasks := rfl
  cases hspawns with
  | refused => exact h
  | noMemory i _ =>
    rw [hinvalid]
    by_cases hk : k = i
    · subst hk
      rw [renewed_self]
      intro hact
      cases hact
    · rwa [renewed_of_ne hk]
  | spawned i slot _ hnew =>
    rw [spawned, agentIndexFromId_agentIdOf]
    dsimp only
    by_cases hk : k = i
    · subst hk
      rw [renewed_self, Function.update_self]
      intro _
      rw [hnew.delegations]
      decide
    · rwa [renewed_of_ne hk, Function.update_of_ne hk]

theorem tabledAt_terminates {id : UInt32} {status : FluxStatus} (hterminates : Terminates V id status V')
    (h : TabledAt (V.slots k) (tasks k)) : TabledAt (V'.slots k) (tasks k) := by
  cases hterminates with
  | refused => exact h
  | terminated i lastOpCycles _ _ _ =>
    unfold cleaned
    by_cases hk : k = i
    · subst hk
      dsimp only
      rw [renewed_self]
      intro hact
      cases hact
    · dsimp only
      rwa [renewed_of_ne hk]

/-- Every action keeps the tables. -/
theorem Tabled.step (hr : r.Tabled) (h : step a r = some r') : r'.Tabled := by
  obtain ⟨t, ht, rfl⟩ := Option.map_eq_some_iff.1 h
  intro k
  have hk : TabledAt (r.sys.rt.view.slots k) (r.tasks k) := hr k
  show TabledAt (t.rt.view.slots k) (note r.sys r.tasks a k)
  cases a with
  | spawn => cases ht; exact tabledAt_spawns fluxAgentSpawn_spawns hk
  | terminate => cases ht; exact tabledAt_terminates fluxAgentTerminate_terminates hk
  | pause id =>
    cases ht
    show TabledAt ((r.sys.rt.fluxAgentPause id).2.view.slots k) (r.tasks k)
    rwa [view_fluxAgentPause]
  | resume id =>
    cases ht
    show TabledAt ((r.sys.rt.fluxAgentResume id).2.view.slots k) (r.tasks k)
    rwa [view_fluxAgentResume]
  | delegate => cases ht; exact tabledAt_delegate hk
  | delegateResult => exact hk.congr (table_step ht (by simp [AgentAction.kind]) (by simp)) length_answered
  | _ => exact hk.congr (table_step ht (by simp [AgentAction.kind]) (by simp)) rfl

theorem Reachable.tabled (h : r.Reachable) : r.Tabled := by
  obtain ⟨config, h⟩ := h
  refine Reaches.invariant h (fun _ _ _ _ hr hstep => hr.step hstep) fun k hact => ?_
  cases hact

/-- For every run and every task after it: that no slot is left for the task means that 16 tasks of its agent are
outstanding, if and only if it fails another check, or the agent has delegated fewer than 16 tasks, or none of
these was answered. -/
theorem slots_outstanding_iff (h : r.Reachable) (mem : Bool) (i : AgentIdx) (target : UInt32) (task : List UInt8) :
    (r.sys.rt.LacksSlots mem i target task → (r.outstanding i).length = fluxDelegationsMax) ↔
      (r.sys.rt.MayDelegate i target task →
        (r.tasks i).length < fluxDelegationsMax ∨ ∀ t ∈ r.tasks i, t.answered = false) := by
  rw [lacksSlots_iff]
  have hall : (r.outstanding i).length = (r.tasks i).length ↔ ∀ t ∈ r.tasks i, t.answered = false := by
    unfold outstanding
    rw [List.length_filter_eq_length_iff]
    simp only [Bool.not_eq_true']
  constructor
  · intro hout hmay
    obtain ⟨hlength, hmax⟩ := h.tabled i hmay.active
    by_cases hfew : (r.tasks i).length < fluxDelegationsMax
    · exact .inl hfew
    · have hfull := hout ⟨hmay, by omega⟩
      exact .inr (hall.1 (by omega))
  · rintro hcond ⟨hmay, hfull⟩
    obtain ⟨hlength, hmax⟩ := h.tabled i hmay.active
    obtain hfew | hnone := hcond hmay
    · omega
    · rw [hall.2 hnone]
      omega

/-- Agent 2, whose id is 6, delegates a task to agent 1, whose id is 5 and which answers it.  Then agent 1 delegates
16 tasks to agent 2. -/
def sixteenGiven : List AgentAction :=
  [.spawnBare fluxCapCommunicate, .spawnBare fluxCapCommunicate, .delegate true 6 5 [],
    .delegateResult true 5 1 []] ++
    List.replicate 16 (.delegate true 5 6 [])

/-- No slot is left for agent 1, and 16 of its tasks are outstanding; agent 2 has none outstanding. -/
theorem slots_outstanding_iff_given : ∃ r : DelegationRun,
    execute step sixteenGiven ⟨.boot none, fun _ => []⟩ = some r ∧ r.sys.rt.LacksSlots true 1 (agentIdOf 2) [] ∧
      (r.outstanding 1).length = fluxDelegationsMax ∧ (r.tasks 2).length = 1 ∧ r.outstanding 2 = [] := by
  have hrun : (execute step sixteenGiven ⟨.boot none, fun _ => []⟩).map (fun r =>
      (((r.sys.rt.initialized, (r.sys.rt.agents 1).active, r.sys.rt.holds 1 fluxCapCommunicate),
        r.sys.rt.agentSlotById (agentIdOf 2), (r.sys.rt.agents 1).delegations.length),
        (r.tasks 1).all fun t => !t.answered, (r.tasks 2).length, r.outstanding 2)) =
      some (((true, true, true), some 2, 16), true, 1, []) := by decide +kernel
  obtain ⟨r, hr, heq⟩ := Option.map_eq_some_iff.1 hrun
  simp only [Prod.mk.injEq] at heq
  obtain ⟨⟨⟨hinit, hact, hcomm⟩, htarget, hlength⟩, hnone, htasks, hout⟩ := heq
  have hlacks : r.sys.rt.LacksSlots true 1 (agentIdOf 2) [] :=
    lacksSlots_iff.2 ⟨⟨hinit, by decide, hact, hcomm, ⟨2, htarget⟩, by decide⟩, hlength.ge⟩
  have hreach : r.Reachable := ⟨none, reaches_of_execute hr⟩
  refine ⟨r, hr, hlacks, ?_, htasks, hout⟩
  exact (slots_outstanding_iff hreach true 1 (agentIdOf 2) []).2 (fun _ => .inr (by simpa using hnone)) hlacks

/-- Agent 1, whose id is 5, delegates 16 tasks to agent 2, whose id is 6 and which answers all of them. -/
def allAnswered : List AgentAction :=
  [.spawnBare fluxCapCommunicate, .spawnBare fluxCapCommunicate] ++
    List.replicate 16 (.delegate true 5 6 []) ++
    (List.range 16).map fun n => .delegateResult true 6 (UInt32.ofNat (n + 1)) []

/-- After 16 tasks that were all answered, no slot is left for the next one. -/
theorem allAnswered_lacks_slots : ∃ r : DelegationRun, r.Reachable ∧
    execute step allAnswered ⟨.boot none, fun _ => []⟩ = some r ∧
    r.sys.rt.LacksSlots true 1 (agentIdOf 2) [] ∧ r.outstanding 1 = [] := by
  have hrun : (execute step allAnswered ⟨.boot none, fun _ => []⟩).map (fun r =>
      ((r.sys.rt.initialized, (r.sys.rt.agents 1).active, r.sys.rt.holds 1 fluxCapCommunicate),
        r.sys.rt.agentSlotById (agentIdOf 2), (r.sys.rt.agents 1).delegations.length, r.outstanding 1)) =
      some ((true, true, true), some 2, 16, []) := by decide +kernel
  obtain ⟨r, hr, heq⟩ := Option.map_eq_some_iff.1 hrun
  simp only [Prod.mk.injEq] at heq
  obtain ⟨⟨hinit, hact, hcomm⟩, htarget, hlength, hout⟩ := heq
  refine ⟨r, ⟨none, reaches_of_execute hr⟩, hr, lacksSlots_iff.2 ⟨?_, hlength.ge⟩, hout⟩
  exact ⟨hinit, by decide, hact, hcomm, ⟨2, htarget⟩, by decide⟩

end DelegationRun

end FluxOs
