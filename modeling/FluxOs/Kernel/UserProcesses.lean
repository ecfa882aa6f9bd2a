import FluxOs.Kernel.Bytecode
import FluxOs.Kernel.Pids

/-!
# User processes

`flux_spawn` gives a process `SPAWN` and `COMMUNICATE` and a medium priority.  No operation of the kernel gives more
to one outside the slot of the kernel process, except that aging raises priorities to a limit.  The pids that the
scheduler deals with do not lead to this slot, and the kernel process never waits.
-/

namespace FluxOs

open Rings RingBuffer

/-- The pid is none of the slot of the kernel process. -/
def IsUser (pid : UInt32) : Prop := slotOf pid ≠ some 0

instance (pid : UInt32) : Decidable (IsUser pid) := inferInstanceAs (Decidable (_ ≠ _))

theorem isUser_zero : IsUser 0 := by decide

/-- The capabilities of a spawned process. -/
def spawnCaps : UInt64 := fluxCapSpawn ||| fluxCapCommunicate

/-! ## The invariant -/

namespace Kernel

variable {k k' : Kernel} {i j : Slot} {f : Pcb → Pcb} {pid : UInt32}

theorem storeMessage_sched (imsg : IpcMessage) (sender : UInt32) :
    (k.storeMessage j imsg sender).sched = k.sched ∧ (k.storeMessage j imsg sender).ks = k.ks := by
  unfold storeMessage
  dsimp only
  split <;> exact ⟨rfl, rfl⟩

/-- The kernel process neither waits nor has ended. -/
def Awake (s : ProcState) : Prop := s ≠ .unused ∧ s ≠ .blocked ∧ s ≠ .agentIdle

/-- No process but that of the kernel has had more capabilities than `flux_spawn` gives or a priority above what aging
gives, and no pid in use by the scheduler leads to the slot of the kernel. -/
structure Guarded (k : Kernel) : Prop where
  awake : Awake (k.pcb 0).state
  caps i : i ≠ 0 → (k.pcb i).capabilities &&& spawnCaps = (k.pcb i).capabilities
  priority i : i ≠ 0 → (k.pcb i).priority ≤ fluxSchedMaxPriorityBoost
  current : k.ks.currentPid = fluxPidKernel ∨ IsUser k.ks.currentPid
  scheduled : k.sched.currentPid = fluxPidKernel ∨ IsUser k.sched.currentPid
  slots n : IsUser (k.sched.readyQueue.slots n).pid ∧
    (k.sched.readyQueue.slots n).priority ≤ fluxSchedMaxPriorityBoost

/-- The same capabilities and priority. -/
def SameRights (pcb pcb' : Pcb) : Prop := pcb'.capabilities = pcb.capabilities ∧ pcb'.priority = pcb.priority

/-- The capabilities and priorities stay, and the kernel process stays awake. -/
structure KeepsRights (k k' : Kernel) : Prop where
  awake : Awake (k.pcb 0).state → Awake (k'.pcb 0).state
  rights i : SameRights (k.pcb i) (k'.pcb i)

theorem KeepsRights.of_pcb (h : k'.pcb = k.pcb) : KeepsRights k k' := by
  constructor
  · rw [h]
    exact id
  · intro i
    rw [h]
    exact ⟨rfl, rfl⟩

theorem KeepsRights.modifyPcb (hrights : SameRights (k.pcb i) (f (k.pcb i)))
    (hawake : i = 0 → Awake (k.pcb 0).state → Awake (f (k.pcb 0)).state) : KeepsRights k (k.modifyPcb i f) := by
  refine ⟨fun h => ?_, fun j => ?_⟩
  · by_cases hi : i = 0
    · subst hi
      rw [pcb_modifyPcb_self]
      exact hawake rfl h
    · rwa [pcb_modifyPcb_of_ne (Ne.symm hi)]
  · rw [pcb_modifyPcb]
    split_ifs with hj
    · rw [hj]
      exact hrights
    · exact ⟨rfl, rfl⟩

theorem boostedPriority_le (priority : UInt8) : boostedPriority priority ≤ fluxSchedMaxPriorityBoost := by
  unfold boostedPriority
  dsimp only
  split_ifs with h
  · exact UInt8.le_refl _
  · exact UInt8.not_lt.1 h

theorem priority_agedEntry_le {now : UInt64} {e : SchedEntry} (he : e.priority ≤ fluxSchedMaxPriorityBoost) :
    (agedEntry now e).priority ≤ fluxSchedMaxPriorityBoost := by
  unfold agedEntry
  split_ifs
  · exact boostedPriority_le _
  · exact he

namespace Guarded

theorem congr (h : k.Guarded) (hrights : KeepsRights k k') (hsched : k'.sched = k.sched)
    (hcurrent : k'.ks.currentPid = k.ks.currentPid) : k'.Guarded := by
  refine ⟨hrights.awake h.awake, fun i hi => ?_, fun i hi => ?_, ?_, ?_, fun n => ?_⟩
  · rw [(hrights.rights i).1]
    exact h.caps i hi
  · rw [(hrights.rights i).2]
    exact h.priority i hi
  · rw [hcurrent]
    exact h.current
  · rw [hsched]
    exact h.scheduled
  · rw [hsched]
    exact h.slots n

theorem of_procs (h : k.Guarded) (hprocs : k'.procs = k.procs) (hsched : k'.sched = k.sched)
    (hcurrent : k'.ks.currentPid = k.ks.currentPid) : k'.Guarded :=
  h.congr (.of_pcb (congrArg ProcTable.pcb hprocs)) hsched hcurrent

/-- A process other than the kernel changes, but not its capabilities and priority. -/
theorem modifyUser (h : k.Guarded) (hi : i ≠ 0) (hrights : SameRights (k.pcb i) (f (k.pcb i))) :
    (k.modifyPcb i f).Guarded :=
  h.congr (.modifyPcb hrights fun h0 => absurd h0 hi) rfl rfl

/-- Who waits is not the kernel process. -/
theorem ne_zero_of_waits (h : k.Guarded) (hi : (k.pcb i).state = .blocked ∨ (k.pcb i).state = .agentIdle) :
    i ≠ 0 := by
  rintro rfl
  exact hi.elim h.awake.2.1 h.awake.2.2

theorem ne_zero_of_unused (h : k.Guarded) (hi : (k.pcb i).state = .unused) : i ≠ 0 := by
  rintro rfl
  exact h.awake.1 hi

/-! ## The scheduler -/

theorem enqueue (h : k.Guarded) (hpid : IsUser pid) : (k.fluxSchedEnqueue pid).2.Guarded := by
  rcases fluxSchedEnqueue_cases k pid with ⟨heq, -⟩ | ⟨i, -, -, hget, heq⟩
  · rw [heq]
    exact h
  · have hi : i ≠ 0 := by
      rintro rfl
      exact hpid (fluxGetPcb_eq_some.1 hget).1
    have hwoken := h.modifyUser (f := wokenPcb) hi (by unfold wokenPcb; split_ifs <;> exact ⟨rfl, rfl⟩)
    rw [heq]
    refine ⟨hwoken.awake, hwoken.caps, hwoken.priority, hwoken.current, hwoken.scheduled, fun n => ?_⟩
    dsimp only [RingBuffer.push]
    rw [Function.update_apply]
    split_ifs
    · exact ⟨hpid, h.priority i hi⟩
    · exact h.slots n

/-- A process is made ready and enqueued. -/
theorem wake (h : k.Guarded) (hi : i ≠ 0) (hrights : SameRights (k.pcb i) (f (k.pcb i)))
    (hpid : IsUser pid) : ((k.modifyPcb i f).fluxSchedEnqueue pid).2.Guarded :=
  (h.modifyUser hi hrights).enqueue hpid

theorem ageVisit (h : k.Guarded) (now : UInt64) (m : Nat) : (ageVisit now k m).Guarded := by
  obtain ⟨pri, q, haged⟩ := exists_aged_ageVisit (k := k) now m
  have hslots : (Kernel.ageVisit now k m).sched.readyQueue.slots = Function.update k.sched.readyQueue.slots
      (k.sched.readyQueue.index fluxSchedQueueSize m)
      (agedEntry now (k.sched.readyQueue.slots (k.sched.readyQueue.index fluxSchedQueueSize m))) := by
    unfold Kernel.ageVisit
    dsimp only
    split_ifs
    · split <;> rfl
    · rfl
  refine ⟨?_, fun i hi => ?_, fun i hi => ?_, ?_, ?_, fun n => ?_⟩
  · rw [haged]
    exact h.awake
  · rw [haged]
    exact h.caps i hi
  · unfold Kernel.ageVisit
    dsimp only
    split_ifs
    · split
      · rw [pcb_modifyPcb]
        split_ifs
        · exact boostedPriority_le _
        · exact h.priority i hi
      · exact h.priority i hi
    · exact h.priority i hi
  · rw [haged]
    exact h.current
  · rw [haged]
    exact h.scheduled
  · rw [hslots, Function.update_apply]
    split_ifs
    · have hpid (e : SchedEntry) : (agedEntry now e).pid = e.pid := by
        unfold agedEntry
        split_ifs <;> rfl
      rw [hpid]
      exact ⟨(h.slots _).1, priority_agedEntry_le (h.slots _).2⟩
    · exact h.slots n

theorem agePriorities (h : k.Guarded) : k.schedAgePriorities.Guarded := by
  have htimer (timer : UInt32) : ({ k with sched := { k.sched with boostTimer := timer } } : Kernel).Guarded :=
    ⟨h.awake, h.caps, h.priority, h.current, h.scheduled, h.slots⟩
  unfold schedAgePriorities
  dsimp only
  split_ifs
  · exact htimer _
  · exact List.foldlRecOn _ _ (htimer 0) fun k' hk' m _ => hk'.ageVisit _ m

theorem slots_remove (h : k.Guarded) (best n : Nat) : IsUser ((schedRemove k.sched.readyQueue best).slots n).pid ∧
    ((schedRemove k.sched.readyQueue best).slots n).priority ≤ fluxSchedMaxPriorityBoost := by
  unfold schedRemove
  split_ifs
  · exact h.slots n
  · exact shift_keeps (P := fun e : SchedEntry => IsUser e.pid ∧ e.priority ≤ fluxSchedMaxPriorityBoost) h.slots n

theorem dequeue (h : k.Guarded) : k.fluxSchedDequeue.2.Guarded ∧ IsUser k.fluxSchedDequeue.1 := by
  unfold fluxSchedDequeue
  split_ifs
  · exact ⟨h, isUser_zero⟩
  have haged := h.agePriorities
  obtain ⟨huser, -⟩ := haged.slots (schedFindHighestPriority k.schedAgePriorities.sched.readyQueue)
  have hremoved : ({ k.schedAgePriorities with sched := { k.schedAgePriorities.sched with
      readyQueue := schedRemove k.schedAgePriorities.sched.readyQueue
        (schedFindHighestPriority k.schedAgePriorities.sched.readyQueue) } } : Kernel).Guarded :=
    ⟨haged.awake, haged.caps, haged.priority, haged.current, haged.scheduled, haged.slots_remove _⟩
  dsimp only
  split
  · rename_i i hget
    have hi : i ≠ 0 := by
      rintro rfl
      exact huser (fluxGetPcb_eq_some (k := k.schedAgePriorities).1 hget).1
    have hrunning := hremoved.modifyUser (f := fun pcb => { pcb with state := .running }) hi ⟨rfl, rfl⟩
    exact ⟨⟨hrunning.awake, hrunning.caps, hrunning.priority, hrunning.current, hrunning.scheduled, hrunning.slots⟩,
      huser⟩
  · exact ⟨hremoved, huser⟩

theorem requeueCurrent (h : k.Guarded) : k.requeueCurrent.Guarded := by
  unfold Kernel.requeueCurrent
  split_ifs with hcurrent
  · split
    · split_ifs
      · exact h.enqueue (h.scheduled.resolve_left hcurrent.2)
      · exact h
    · exact h
  · exact h

theorem iteration (h : k.Guarded) : k.schedIteration.Guarded := by
  have htick : k.tick.Guarded := ⟨h.awake, h.caps, h.priority, h.current, h.scheduled, h.slots⟩
  rw [schedIteration_eq]
  split_ifs
  · unfold spendTick
    dsimp only
    have hslice : ({ k.tick with sched := { k.tick.sched with
        currentTimeslice := k.tick.sched.currentTimeslice - 1 } } : Kernel).Guarded :=
      ⟨htick.awake, htick.caps, htick.priority, htick.current, htick.scheduled, htick.slots⟩
    split
    · exact hslice.congr (.modifyPcb ⟨rfl, rfl⟩ fun _ hawake => hawake) rfl rfl
    · exact hslice
  · obtain ⟨hdequeued, huser⟩ := htick.requeueCurrent.dequeue
    unfold switchTo
    split_ifs
    · exact ⟨hdequeued.awake, hdequeued.caps, hdequeued.priority, .inl rfl, .inl rfl, hdequeued.slots⟩
    · exact ⟨hdequeued.awake, hdequeued.caps, hdequeued.priority, .inr huser, .inr huser, hdequeued.slots⟩

theorem yieldCurrent (h : k.Guarded) : k.fluxSchedYieldCurrent.Guarded :=
  ⟨h.awake, h.caps, h.priority, h.current, .inr isUser_zero, h.slots⟩

/-! ## Processes -/

theorem spawn (h : k.Guarded) {entry stackSize : UInt64} {isAgent : Bool} {r : UInt32 × Kernel}
    (hr : k.fluxSpawn entry stackSize isAgent = some r) : r.2.Guarded := by
  rcases kernel_of_spawn hr with heq | ⟨n, heap, heq⟩ | ⟨n, heap, top, pid, i, hslot, hfree, heq⟩
  · rw [heq]
    exact h
  · rw [heq]
    exact h.congr (.of_pcb rfl) rfl rfl
  · have hi := h.ne_zero_of_unused hfree
    have hplaced : ((k.withAllocated n heap).placed i (k.spawnedPcb pid entry top isAgent)).Guarded := by
      refine ⟨?_, fun j hj => ?_, fun j hj => ?_, h.current, h.scheduled, h.slots⟩
      · show Awake (Function.update k.pcb i (k.spawnedPcb pid entry top isAgent) 0).state
        rw [Function.update_of_ne (Ne.symm hi)]
        exact h.awake
      · show (Function.update k.pcb i (k.spawnedPcb pid entry top isAgent) j).capabilities &&& spawnCaps =
          (Function.update k.pcb i (k.spawnedPcb pid entry top isAgent) j).capabilities
        by_cases hji : j = i
        · rw [hji, Function.update_self]
          exact UInt64.and_self
        · rw [Function.update_of_ne hji]
          exact h.caps j hj
      · show (Function.update k.pcb i (k.spawnedPcb pid entry top isAgent) j).priority ≤ fluxSchedMaxPriorityBoost
        by_cases hji : j = i
        · rw [hji, Function.update_self]
          exact (by decide : (128 : UInt8) ≤ fluxSchedMaxPriorityBoost)
        · rw [Function.update_of_ne hji]
          exact h.priority j hj
    have hpid : IsUser pid := fun h0 => hi (Option.some.inj (hslot.symm.trans h0))
    rw [heq]
    exact hplaced.enqueue hpid

/-- The process in a slot other than the kernel's is cleaned up. -/
theorem remove (h : k.Guarded) (hi : i ≠ 0) : (k.removeProcess i).Guarded :=
  (h.modifyUser (f := ProcTable.cleanedPcb) hi ⟨rfl, rfl⟩).congr (.of_pcb rfl) rfl rfl

theorem wakeParent (h : k.Guarded) (parent pid : UInt32) : (k.wakeParent parent pid).Guarded := by
  rcases wakeParent_cases k parent pid with ⟨heq, -⟩ | ⟨j, -, hwaits, -, heq⟩
  · rw [heq]
    exact h
  · rw [heq]
    exact h.modifyUser (h.ne_zero_of_waits hwaits) ⟨rfl, rfl⟩

theorem exit (h : k.Guarded) {r : FluxStatus × Kernel} (hr : k.fluxExit = some r) : r.2.Guarded := by
  rcases fluxExit_cases hr with ⟨-, heq⟩ | ⟨i, hi, hkernel, heq⟩
  · rw [heq]
    exact h
  · have hi0 : i ≠ 0 := by
      rintro rfl
      exact h.current.resolve_left hkernel (usedSlot_eq_some.1 hi).1
    rw [heq]
    exact (((h.modifyUser hi0 ⟨rfl, rfl⟩).wakeParent _ _).remove hi0).yieldCurrent

theorem kill (h : k.Guarded) (hpid : IsUser pid) : (k.fluxKill pid).2.Guarded := by
  rcases fluxKill_cases k pid with ⟨heq, -⟩ | ⟨i, hi, -, heq⟩
  · rw [heq]
    exact h
  · rw [heq]
    refine h.remove ?_
    rintro rfl
    exact hpid (usedSlot_eq_some.1 hi).1

theorem yield (h : k.Guarded) (hcaller : IsUser k.ks.currentPid) : k.fluxYield.2.Guarded := by
  unfold fluxYield
  split_ifs
  · exact h
  · split
    · exact h
    · rename_i i hslot
      have hi : i ≠ 0 := by
        rintro rfl
        exact hcaller hslot
      dsimp only
      split_ifs
      · exact ((h.modifyUser hi ⟨rfl, rfl⟩).enqueue hcaller).yieldCurrent
      · exact (h.enqueue hcaller).yieldCurrent

theorem blockCurrent (h : k.Guarded) (hcaller : IsUser k.ks.currentPid) (waitingFor : UInt32) :
    (k.blockCurrent waitingFor).Guarded := by
  unfold Kernel.blockCurrent
  split
  · rename_i i hget
    refine h.modifyUser ?_ ⟨rfl, rfl⟩
    rintro rfl
    exact hcaller (fluxGetPcb_eq_some.1 hget).1
  · exact h

theorem wait (h : k.Guarded) (hcaller : IsUser k.ks.currentPid) (target : UInt32) :
    (k.syscallWait target).2.Guarded := by
  cases hget : k.procs.fluxGetPcb target with
  | none =>
    rw [syscallWait_of_none hget]
    exact h
  | some i =>
    rw [syscallWait_of_some hget]
    exact h.blockCurrent hcaller target

/-! ## Messages -/

theorem send (h : k.Guarded) (target : UInt32) (msg : List UInt8) : (k.fluxA2aSend target msg).2.Guarded := by
  rcases fluxA2aSend_cases k target msg with ⟨-, heq, -⟩ | ⟨i, j, hcan⟩
  · rw [heq]
    exact h
  rw [fluxA2aSend_of_canSend hcan]
  obtain ⟨hsched, hks⟩ := storeMessage_sched (k := k) (j := j) (k.buildMessage k.ks.currentPid target msg)
    k.ks.currentPid
  have hstored : (k.storeMessage j (k.buildMessage k.ks.currentPid target msg) k.ks.currentPid).Guarded :=
    h.of_procs storeMessage_procs hsched (congrArg KernelState.currentPid hks)
  unfold wakeTarget
  split_ifs with hwake
  · have hi := hstored.ne_zero_of_waits hwake
    refine hstored.wake hi ⟨rfl, rfl⟩ fun h0 => ?_
    exact hi (Option.some.inj ((fluxGetPcb_eq_some.1 hcan.pcb).1.symm.trans h0))
  · exact hstored

theorem recv (h : k.Guarded) (hcaller : IsUser k.ks.currentPid) (filter : UInt32) (len timeout : UInt64) :
    (k.fluxA2aRecv filter len timeout).2.Guarded := by
  rcases fluxA2aRecv_cases k filter len timeout with ⟨⟨_, heq⟩, -⟩ | ⟨j, n, -, -, heq⟩ | ⟨j, -, -, -, heq⟩
  · rw [heq]
    exact h
  · rw [heq]
    exact h.of_procs rfl rfl rfl
  · rw [heq]
    exact h.blockCurrent hcaller filter

/-- A receive of a process other than the kernel. -/
def IsUserReceive (r : Receive) : Prop := IsUser r.pid ∧ r.pcb ≠ some 0

theorem isUserReceive_of_recv (hcaller : IsUser k.ks.currentPid) {filter : UInt32} {len timeout : UInt64}
    {r : Receive} (hr : (k.fluxA2aRecv filter len timeout).1 = .waiting r) : IsUserReceive r := by
  rcases fluxA2aRecv_cases k filter len timeout with ⟨⟨_, heq⟩, -⟩ | ⟨j, n, -, -, heq⟩ | ⟨j, -, -, -, heq⟩
  · rw [heq] at hr
    cases hr
  · rw [heq] at hr
    cases hr
  · rw [heq] at hr
    cases hr
    exact ⟨hcaller, fun hget => hcaller (fluxGetPcb_eq_some.1 hget).1⟩

theorem poll (h : k.Guarded) {r : Receive} (hr : IsUserReceive r) : (k.recvPoll r).2.Guarded := by
  rcases recvPoll_cases k r with ⟨-, heq⟩ | ⟨-, ⟨n, -, heq⟩ | ⟨-, heq⟩⟩
  · rw [heq]
    dsimp only
    unfold expire
    split
    · rename_i i hi
      split_ifs
      · exact h.wake (fun h0 => hr.2 (h0 ▸ hi)) ⟨rfl, rfl⟩ hr.1
      · exact h
    · exact h
  · rw [heq]
    have htaken : (k.takeMessage r.queue n r.len).2.Guarded := h.of_procs rfl rfl rfl
    dsimp only
    unfold resume
    split
    · rename_i i hi
      exact htaken.modifyUser (fun h0 => hr.2 (h0 ▸ hi)) ⟨rfl, rfl⟩
    · exact htaken
  · rw [heq]
    exact h

theorem broadcast (h : k.Guarded) (msg : List UInt8) : (k.fluxA2aBroadcast msg).2.Guarded := by
  refine broadcast_keeps (P := Guarded) h (h.of_procs rfl rfl rfl) (fun k' sender bmsg pid hk' => ?_) msg
  rcases broadcastVisit_cases sender bmsg k' pid with ⟨heq, -⟩ | ⟨i, j, hget, -, -, -, ⟨-, heq⟩ | ⟨-, heq⟩⟩
  · rw [heq]
    exact hk'
  · rw [heq]
    exact hk'.of_procs rfl rfl rfl
  · rw [heq]
    have hstored : (k'.modifyQueue j fun q => (q.ipcEnqueueMessage bmsg).2).Guarded := hk'.of_procs rfl rfl rfl
    unfold wakeAgent
    split_ifs with hidle
    · have hi := hstored.ne_zero_of_waits (.inr hidle)
      refine hstored.wake hi ⟨rfl, rfl⟩ fun h0 => ?_
      exact hi (Option.some.inj ((fluxGetPcb_eq_some.1 hget).1.symm.trans h0))
    · exact hstored

/-! ## Bytecode -/

theorem bcLoad (h : k.Guarded) {bytecode len : UInt64} {r : FluxStatus × Kernel}
    (hr : k.fluxBcLoad pid bytecode len = some r) : r.2.Guarded := by
  rcases fluxBcLoad_cases hr with ⟨-, heq⟩ | ⟨i, q, heap, -, -, -, ⟨-, -, heq⟩ | ⟨-, -, heq⟩⟩
  · rw [heq]
    exact h
  · rw [heq]
    exact h.of_procs rfl rfl rfl
  · rw [heq]
    have hfilled : ({ k with heap := { heap with
        mem := ByteMemory.copy heap.mem q.toNat bytecode.toNat len.toNat } } : Kernel).Guarded :=
          h.of_procs rfl rfl rfl
    exact hfilled.congr (.modifyPcb ⟨rfl, rfl⟩ fun _ hawake => hawake) rfl rfl

theorem bcExec (h : k.Guarded) (pid : UInt32) : (k.fluxBcExec pid).2.Guarded := by
  unfold fluxBcExec
  split_ifs
  · exact h
  · split
    · exact h
    · split_ifs
      · exact h
      · exact h.congr (.modifyPcb ⟨rfl, rfl⟩ fun _ _ => ⟨nofun, nofun, nofun⟩) rfl rfl

end Guarded

theorem bootKernel_guarded : bootKernel.Guarded := by
  have hzero (i : Slot) (hi : i ≠ 0) : bootKernel.pcb i = Pcb.zero := if_neg fun h0 => hi (Fin.ext h0)
  refine ⟨⟨nofun, nofun, nofun⟩, fun i hi => ?_, fun i hi => ?_, .inl rfl, .inl rfl, fun n => ⟨isUser_zero, ?_⟩⟩
  · rw [hzero i hi]
    rfl
  · rw [hzero i hi]
    exact (by decide : (0 : UInt8) ≤ fluxSchedMaxPriorityBoost)
  · exact (by decide : (0 : UInt8) ≤ fluxSchedMaxPriorityBoost)

end Kernel

end FluxOs
