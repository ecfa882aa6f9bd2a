import FluxOs.Kernel.OsRuns
import FluxOs.Kernel.Privileges
import FluxOs.Kernel.Running
import FluxOs.Kernel.UserProcesses

/-!
# Time slices

The scheduler gives a process a time slice when it dequeues it, and an iteration takes one tick away from it.  Nothing
else lengthens the slice, so that no order of calls keeps the next dequeue away for longer than the longest slice.
-/

namespace FluxOs

open Actions Rings RingBuffer

namespace Kernel

variable {k k' : Kernel} {i j : Slot} {f : Pcb → Pcb} {pid : UInt32} {b : Nat}

/-! ## Slices in the scheduler -/

/-- The current slice, the next ones and those in the queue have at most `b` ticks. -/
structure SlicesWithin (b : Nat) (k : Kernel) : Prop where
  current : k.sched.currentTimeslice.toNat ≤ b
  next : k.sched.defaultTimeslice.toNat + fluxSchedAgentThinkBonus.toNat ≤ b
  slots n : (k.sched.readyQueue.slots n).timeSlice.toNat ≤ b

/-- The current slice has at most `b` ticks. -/
def SliceWithin (b : Nat) (k : Kernel) : Prop := k.sched.currentTimeslice.toNat ≤ b

/-- A call lets the clock stand.  It can end the time of the current process, and add an entry to the queue. -/
inductive SchedStep (k k' : Kernel) : Prop
  | same (h : k'.sched = k.sched) (htick : k'.ks.tickCount = k.ks.tickCount)
  | push (pid : UInt32) (i : Slot) (hroom : k.sched.readyQueue.count < fluxSchedQueueSize) (h : k'.sched =
      { k.sched with readyQueue := k.sched.readyQueue.push fluxSchedQueueSize (k.newEntry pid i) })
      (htick : k'.ks.tickCount = k.ks.tickCount)
  | yield (h : k'.sched = { k.sched with currentPid := fluxPidInvalid }) (htick : k'.ks.tickCount = k.ks.tickCount)

theorem toNat_newEntry_timeSlice_le (hnext : k.sched.defaultTimeslice.toNat + fluxSchedAgentThinkBonus.toNat ≤ b) :
    (k.newEntry pid i).timeSlice.toNat ≤ b := by
  show (if _ then k.sched.defaultTimeslice + fluxSchedAgentThinkBonus else k.sched.defaultTimeslice).toNat ≤ b
  split_ifs
  · rw [UInt64.toNat_add]
    exact (Nat.mod_le ..).trans hnext
  · exact (Nat.le_add_right ..).trans hnext

namespace SchedStep

theorem current (h : SchedStep k k') : k'.sched.currentTimeslice = k.sched.currentTimeslice := by
  cases h with
  | same h _ => rw [h]
  | push pid i _ h _ => rw [h]
  | yield h _ => rw [h]

theorem slices (h : SchedStep k k') (hk : k.SlicesWithin b) : k'.SlicesWithin b := by
  refine ⟨?_, ?_, fun n => ?_⟩
  · rw [h.current]
    exact hk.current
  · cases h with
    | same h _ => rw [h]; exact hk.next
    | push pid i _ h _ => rw [h]; exact hk.next
    | yield h _ => rw [h]; exact hk.next
  · cases h with
    | same h _ => rw [h]; exact hk.slots n
    | push pid i _ h _ =>
      rw [h]
      show (Function.update k.sched.readyQueue.slots k.sched.readyQueue.tail (k.newEntry pid i) n).timeSlice.toNat ≤ b
      rw [Function.update_apply]
      split_ifs
      · exact toNat_newEntry_timeSlice_le hk.next
      · exact hk.slots n
    | yield h _ => rw [h]; exact hk.slots n

end SchedStep

/-! ## Calls -/

/-- What every step of the scheduler's data keeps. -/
structure SchedInvariant (P : Kernel → Prop) : Prop where
  step {k k' : Kernel} : SchedStep k k' → P k → P k'

namespace SchedInvariant

variable {P : Kernel → Prop} (h : SchedInvariant P) (hk : P k)

include h hk

theorem same (hsched : k'.sched = k.sched) (htick : k'.ks.tickCount = k.ks.tickCount) : P k' :=
  h.step (.same hsched htick) hk

theorem enqueue (pid : UInt32) : P (k.fluxSchedEnqueue pid).2 := by
  rcases fluxSchedEnqueue_cases k pid with ⟨heq, -⟩ | ⟨i, -, hroom, -, heq⟩
  · rw [heq]
    exact hk
  · rw [heq]
    exact h.step (.push pid i hroom rfl rfl) hk

theorem wake (pid : UInt32) : P ((k.modifyPcb i f).fluxSchedEnqueue pid).2 :=
  have hwoken : P (k.modifyPcb i f) := h.same hk rfl rfl
  h.enqueue hwoken pid

theorem spawn {entry stackSize : UInt64} {isAgent : Bool} {r : UInt32 × Kernel}
    (hr : k.fluxSpawn entry stackSize isAgent = some r) : P r.2 := by
  rcases kernel_of_spawn hr with heq | ⟨n, heap, heq⟩ | ⟨n, heap, top, pid, i, -, -, heq⟩
  · rw [heq]
    exact hk
  · rw [heq]
    exact h.same hk rfl rfl
  · rw [heq]
    have hplaced : P ((k.withAllocated n heap).placed i (k.spawnedPcb pid entry top isAgent)) := h.same hk rfl rfl
    exact h.enqueue hplaced pid

theorem exit {r : FluxStatus × Kernel} (hr : k.fluxExit = some r) : P r.2 := by
  rcases fluxExit_cases hr with ⟨-, heq⟩ | ⟨i, -, -, heq⟩
  · rw [heq]
    exact hk
  · have hdying : P (k.dying i) := by
      rcases wakeParent_cases (k.modifyPcb i fun pcb => { pcb with state := .zombie }) (k.pcb i).parentPid
        k.ks.currentPid with ⟨hwake, -⟩ | ⟨j, -, -, -, hwake⟩
      · rw [dying, hwake]
        exact h.same hk rfl rfl
      · rw [dying, hwake]
        exact h.same hk rfl rfl
    have hremoved : P ((k.dying i).removeProcess i) := h.same hdying rfl rfl
    rw [heq]
    exact h.step (.yield rfl rfl) hremoved

theorem kill (pid : UInt32) : P (k.fluxKill pid).2 := by
  rcases fluxKill_cases k pid with ⟨heq, -⟩ | ⟨i, -, -, heq⟩
  · rw [heq]
    exact hk
  · rw [heq]
    exact h.same hk rfl rfl

theorem requeueCurrent : P k.requeueCurrent := by
  unfold Kernel.requeueCurrent
  split_ifs
  · split
    · split_ifs
      · exact h.enqueue hk _
      · exact hk
    · exact hk
  · exact hk

theorem yield : P k.fluxYield.2 := by
  unfold fluxYield
  split_ifs
  · exact hk
  · split
    · exact hk
    · dsimp only
      split_ifs
      · exact h.step (.yield rfl rfl) (h.wake hk _)
      · exact h.step (.yield rfl rfl) (h.enqueue hk _)

theorem blockCurrent (waitingFor : UInt32) : P (k.blockCurrent waitingFor) := by
  unfold Kernel.blockCurrent
  split
  · exact h.same hk rfl rfl
  · exact hk

theorem wait (target : UInt32) : P (k.syscallWait target).2 := by
  cases hget : k.procs.fluxGetPcb target with
  | none =>
    rw [syscallWait_of_none hget]
    exact hk
  | some i =>
    rw [syscallWait_of_some hget]
    exact h.blockCurrent hk target

theorem send (target : UInt32) (msg : List UInt8) : P (k.fluxA2aSend target msg).2 := by
  rcases fluxA2aSend_cases k target msg with ⟨-, heq, -⟩ | ⟨i, j, hcan⟩
  · rw [heq]
    exact hk
  · rw [fluxA2aSend_of_canSend hcan]
    have hstored : P (k.storeMessage j (k.buildMessage k.ks.currentPid target msg) k.ks.currentPid) :=
      h.same hk (storeMessage_sched ..).1 (congrArg KernelState.tickCount (storeMessage_sched ..).2)
    unfold wakeTarget
    split_ifs
    · exact h.wake hstored target
    · exact hstored

theorem recv (filter : UInt32) (len timeout : UInt64) : P (k.fluxA2aRecv filter len timeout).2 := by
  rcases fluxA2aRecv_cases k filter len timeout with ⟨⟨_, heq⟩, -⟩ | ⟨j, n, -, -, heq⟩ | ⟨j, -, -, -, heq⟩
  · rw [heq]
    exact hk
  · rw [heq]
    exact h.same hk rfl rfl
  · rw [heq]
    exact h.blockCurrent hk filter

theorem poll (r : Receive) : P (k.recvPoll r).2 := by
  rcases recvPoll_cases k r with ⟨-, heq⟩ | ⟨-, ⟨n, -, heq⟩ | ⟨-, heq⟩⟩
  · rw [heq]
    dsimp only
    unfold expire
    split
    · split_ifs
      · exact h.wake hk r.pid
      · exact hk
    · exact hk
  · rw [heq]
    dsimp only
    unfold resume
    split
    · exact h.same hk rfl rfl
    · exact h.same hk rfl rfl
  · rw [heq]
    exact hk

theorem broadcast (msg : List UInt8) : P (k.fluxA2aBroadcast msg).2 := by
  refine broadcast_keeps hk (h.same hk rfl rfl) (fun k' sender bmsg pid hk' => ?_) msg
  rcases broadcastVisit_cases sender bmsg k' pid with ⟨heq, -⟩ | ⟨i, j, -, -, -, -, ⟨-, heq⟩ | ⟨-, heq⟩⟩
  · rw [heq]
    exact hk'
  · rw [heq]
    exact h.same hk' rfl rfl
  · rw [heq]
    have hstored : P (k'.modifyQueue j fun q => (q.ipcEnqueueMessage bmsg).2) := h.same hk' rfl rfl
    unfold wakeAgent
    split_ifs
    · exact h.wake hstored pid
    · exact hstored

theorem bcLoad {bytecode len : UInt64} {r : FluxStatus × Kernel} (hr : k.fluxBcLoad pid bytecode len = some r) :
    P r.2 := by
  rcases fluxBcLoad_cases hr with ⟨-, heq⟩ | ⟨i, q, heap, -, -, -, ⟨-, -, heq⟩ | ⟨-, -, heq⟩⟩
  · rw [heq]
    exact hk
  · rw [heq]
    exact h.same hk rfl rfl
  · rw [heq]
    exact h.same hk rfl rfl

theorem bcExec (pid : UInt32) : P (k.fluxBcExec pid).2 := by
  unfold fluxBcExec
  split_ifs
  · exact hk
  · split
    · exact hk
    · split_ifs
      · exact hk
      · exact h.same hk rfl rfl

omit hk

/-- The calls keep what the steps of the scheduler's data keep. -/
theorem callInvariant {MayKill : UInt32 → Prop} {MaySet : UInt64 → Prop}
    (hset : ∀ k ticks, P k → MaySet ticks → P (k.fluxSchedSetTimeslice ticks)) :
    CallInvariant MayKill MaySet (fun _ => True) P where
  frame hk _ hsched _ htick := h.same hk hsched htick
  spawn hk hr := h.spawn hk hr
  exit hk hr := h.exit hk hr
  kill hk _ := h.kill hk _
  yield hk _ := h.yield hk
  wait target hk _ := h.wait hk target
  send target msg hk := h.send hk target msg
  recv filter len timeout hk _ := ⟨h.recv hk filter len timeout, fun _ _ => trivial⟩
  poll hk _ := h.poll hk _
  broadcast msg hk := h.broadcast hk msg
  bcLoad hk hr := h.bcLoad hk hr
  bcExec pid hk := h.bcExec hk pid
  setTimeslice hk hticks := hset _ _ hk hticks

end SchedInvariant

/-! ## Iterations -/

theorem SlicesWithin.ageVisit (hk : k.SlicesWithin b) (now : UInt64) (m : Nat) :
    (ageVisit now k m).SlicesWithin b := by
  have hsched : (Kernel.ageVisit now k m).sched = { k.sched with readyQueue := { k.sched.readyQueue with
      slots := Function.update k.sched.readyQueue.slots (k.sched.readyQueue.index fluxSchedQueueSize m)
        (agedEntry now (k.sched.readyQueue.slots (k.sched.readyQueue.index fluxSchedQueueSize m))) } } := by
    unfold Kernel.ageVisit
    dsimp only
    split_ifs
    · split <;> rfl
    · rfl
  refine ⟨?_, ?_, fun n => ?_⟩
  · rw [hsched]
    exact hk.current
  · rw [hsched]
    exact hk.next
  · rw [hsched]
    dsimp only
    rw [Function.update_apply]
    split_ifs
    · have hslice (e : SchedEntry) : (agedEntry now e).timeSlice = e.timeSlice := by
        unfold agedEntry
        split_ifs <;> rfl
      rw [hslice]
      exact hk.slots _
    · exact hk.slots n

theorem SlicesWithin.agePriorities (hk : k.SlicesWithin b) : k.schedAgePriorities.SlicesWithin b := by
  unfold schedAgePriorities
  dsimp only
  split_ifs
  · exact ⟨hk.current, hk.next, hk.slots⟩
  · exact List.foldlRecOn _ _ ⟨hk.current, hk.next, hk.slots⟩ fun k' hk' m _ => hk'.ageVisit _ m

theorem SlicesWithin.dequeue (hk : k.SlicesWithin b) : k.fluxSchedDequeue.2.SlicesWithin b := by
  unfold fluxSchedDequeue
  split_ifs
  · exact hk
  have haged := hk.agePriorities
  have hslots (best n : Nat) :
      ((schedRemove k.schedAgePriorities.sched.readyQueue best).slots n).timeSlice.toNat ≤ b := by
    unfold schedRemove
    split_ifs
    · exact haged.slots n
    · exact shift_keeps (P := fun e : SchedEntry => e.timeSlice.toNat ≤ b) haged.slots n
  dsimp only
  split
  · refine ⟨?_, haged.next, hslots _⟩
    show (k.schedAgePriorities.sched.readyQueue.slots _).timeSlice.toUInt32.toNat ≤ b
    rw [UInt64.toNat_toUInt32]
    exact (Nat.mod_le ..).trans (haged.slots _)
  · exact ⟨haged.current, haged.next, hslots _⟩

/-- An iteration that leaves the current process its CPU takes a tick from its slice. -/
theorem toNat_slice_spendTick (htime : k.TimeLeft) :
    k.schedIteration.sched.currentTimeslice.toNat + 1 = k.sched.currentTimeslice.toNat := by
  have hsched : k.tick.spendTick.sched.currentTimeslice = k.sched.currentTimeslice - 1 := by
    unfold spendTick
    dsimp only
    split <;> rfl
  have hpos : 0 < k.sched.currentTimeslice.toNat := UInt32.lt_iff_toNat_lt.1 htime.2
  have hone : (1 : UInt32) ≤ k.sched.currentTimeslice := UInt32.le_iff_toNat_le.2 hpos
  rw [schedIteration_eq, if_pos htime, hsched, UInt32.toNat_sub_of_le _ _ hone]
  exact Nat.sub_add_cancel hpos

theorem SlicesWithin.iteration (hk : k.SlicesWithin b) : k.schedIteration.SlicesWithin b := by
  have htick : k.tick.SlicesWithin b := ⟨hk.current, hk.next, hk.slots⟩
  by_cases htime : k.TimeLeft
  · have hslice := toNat_slice_spendTick htime
    rw [schedIteration_eq, if_pos htime] at hslice ⊢
    have hcurrent := hk.current
    have hqueue := (sched_spendTick (k := k.tick)).1
    have hdefault : k.tick.spendTick.sched.defaultTimeslice = k.sched.defaultTimeslice := by
      unfold spendTick
      dsimp only
      split <;> rfl
    refine ⟨by omega, ?_, fun n => ?_⟩
    · rw [hdefault]
      exact hk.next
    · rw [hqueue]
      exact hk.slots n
  · have hslices : SchedInvariant (SlicesWithin b) := ⟨SchedStep.slices⟩
    have hdequeued := (hslices.requeueCurrent htick).dequeue
    rw [schedIteration_eq, if_neg htime]
    unfold switchTo
    split_ifs
    · refine ⟨?_, hdequeued.next, hdequeued.slots⟩
      have hnext := hk.next
      have hbonus : fluxSchedAgentThinkBonus.toNat = 20 := rfl
      have hone : (1 : UInt32).toNat = 1 := rfl
      show (1 : UInt32).toNat ≤ b
      omega
    · exact ⟨hdequeued.current, hdequeued.next, hdequeued.slots⟩

/-- Slices stay short while only short ones are set. -/
theorem slicesWithin_osInvariant {MayKill : UInt32 → Prop} {MaySet : UInt64 → Prop}
    (hset : ∀ ticks, MaySet ticks → ticks < 10000 → ticks.toNat + fluxSchedAgentThinkBonus.toNat ≤ b) :
    OsInvariant MayKill MaySet (fun _ => True) (SlicesWithin b) where
  toCallInvariant := by
    refine (SchedInvariant.mk SchedStep.slices).callInvariant fun k ticks hk hticks => ?_
    unfold fluxSchedSetTimeslice
    split_ifs with haccepted
    · exact ⟨hk.current, hset ticks hticks haccepted.2, hk.slots⟩
    · exact hk
  iteration := SlicesWithin.iteration

/-- No call lengthens the current slice. -/
theorem sliceWithin_callInvariant : CallInvariant (fun _ => True) (fun _ => True) (fun _ => True)
    (SliceWithin b) := by
  refine SchedInvariant.callInvariant ⟨fun hstep hk => ?_⟩ fun k ticks hk _ => ?_
  · unfold SliceWithin
    rw [hstep.current]
    exact hk
  · unfold fluxSchedSetTimeslice
    split_ifs
    · exact hk
    · exact hk

theorem bootKernel_slicesWithin (hb : 30 ≤ b) : bootKernel.SlicesWithin b :=
  ⟨Nat.zero_le b, hb, fun _ => Nat.zero_le b⟩

end Kernel

/-! ## Runs -/

namespace OsSystem

variable {p : Platform} {s t : OsSystem} {as : List OsAction} {b : Nat}

/-- An iteration of the scheduler leaves the current process its CPU. -/
def KeepsCpu (a : OsAction) (s : OsSystem) : Prop := a = .schedule → s.os.kernel.TimeLeft

/-- The iterations between two dequeues are paid from the current slice. -/
theorem countIterations_le (hp : p.Protects)
    (has : MeetsAlong (step p) (OsAction.Permitted (fun _ => True) fun _ => True) as s)
    (hcpu : MeetsAlong (step p) KeepsCpu as s) (ht : execute (step p) as s = some t) :
    as.count .schedule + t.os.kernel.sched.currentTimeslice.toNat ≤ s.os.kernel.sched.currentTimeslice.toNat := by
  induction as generalizing s with
  | nil =>
    cases ht
    exact (Nat.zero_add _).le
  | cons a as ih =>
    obtain ⟨u, hu, hrest⟩ := execute_cons.1 ht
    obtain ⟨hpermitted, has⟩ := has u hu
    obtain ⟨hkeeps, hcpu⟩ := hcpu u hu
    have hle := ih has hcpu hrest
    by_cases ha : a = .schedule
    · subst ha
      cases hu
      have hslice := Kernel.toNat_slice_spendTick (hkeeps rfl)
      rw [List.count_cons_self]
      have hle : _ ≤ s.os.kernel.schedIteration.sched.currentTimeslice.toNat := hle
      omega
    · have hcall := Kernel.sliceWithin_callInvariant.step hp hpermitted ha ⟨Nat.le_refl _, fun _ _ => trivial⟩ hu
      have hslice : u.os.kernel.sched.currentTimeslice.toNat ≤ s.os.kernel.sched.currentTimeslice.toNat := hcall.1
      rw [List.count_cons_of_ne ha]
      omega

/-- Whatever calls are made in between, at most `b` iterations of the scheduler follow each other without a dequeue,
where `b` is the longest slice: the default one and the bonus of an agent that thinks. -/
theorem iterations_within_slice (hb : 30 ≤ b) (hp : p.Protects)
    (hrun : s.Reachable p (fun _ => True) fun ticks => ticks.toNat + fluxSchedAgentThinkBonus.toNat ≤ b)
    (has : MeetsAlong (step p) (OsAction.Permitted (fun _ => True) fun _ => True) as s)
    (hcpu : MeetsAlong (step p) KeepsCpu as s) (ht : execute (step p) as s = some t) : as.count .schedule ≤ b := by
  obtain ⟨hslices, -⟩ :=
    (Kernel.slicesWithin_osInvariant fun _ h _ => h).holds hp (Kernel.bootKernel_slicesWithin hb) hrun
  have hcount := countIterations_le hp has hcpu ht
  have hcurrent := hslices.current
  omega

/-- A process is spawned and scheduled, and goes on for two iterations. -/
theorem iterations_within_slice_spawn : ∃ s t : OsSystem,
    (s.Reachable plainPlatform (fun _ => True) fun ticks => ticks.toNat + fluxSchedAgentThinkBonus.toNat ≤ 30) ∧
      execute (step plainPlatform) [.schedule, .schedule] s = some t ∧
      ([.schedule, .schedule] : List OsAction).count .schedule ≤ 30 := by
  have hrun : ((step plainPlatform (.spawn 0 0 false) (boot fun _ => 0)).bind (step plainPlatform .schedule)).map
      (fun s => decide (s.os.kernel.TimeLeft ∧ s.os.kernel.schedIteration.TimeLeft)) = some true := by decide +kernel
  obtain ⟨s, hs, htime⟩ := Option.map_eq_some_iff.1 hrun
  obtain ⟨s₁, h₁, h₂⟩ := Option.bind_eq_some_iff.1 hs
  obtain ⟨hnow, hnext⟩ := of_decide_eq_true htime
  have hreach : s.Reachable plainPlatform (fun _ => True)
      fun ticks => ticks.toNat + fluxSchedAgentThinkBonus.toNat ≤ 30 :=
    ⟨fun _ => 0, ((Reaches.refl _).tail (a := .spawn 0 0 false) trivial h₁).tail (a := .schedule) trivial h₂⟩
  have hp : plainPlatform.Protects := fun _ _ _ => ⟨rfl, rfl, rfl, rfl⟩
  refine ⟨s, _, hreach, rfl, iterations_within_slice (le_refl 30) hp hreach ?_ ?_ rfl⟩
  · exact fun t _ => ⟨trivial, fun u _ => ⟨trivial, trivial⟩⟩
  · intro t ht
    cases ht
    exact ⟨fun _ => hnow, fun u _ => ⟨fun _ => hnext, trivial⟩⟩

end OsSystem
end FluxOs
