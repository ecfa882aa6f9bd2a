import FluxOs.Kernel.CapConfinement
import FluxOs.Kernel.Ticks
import FluxOs.Kernel.TimeSlices
import FluxOs.Lib.Aging

/-!
# Aging prevents starvation

A process in the ready queue rises by 10 in a thousand dequeues until it stands at 200, above which no process gets.
Then each dequeue brings it forward.  With the bound for a time slice, it is dequeued within a bounded time,
whatever calls are made and whatever processes are spawned, as long as the dequeues keep the queue in order.
-/

namespace FluxOs

open Actions Rings RingBuffer

/-- The aging of the ready queue. -/
def schedAging : Aging where
  period := fluxSchedPriorityBoostInterval.toNat
  amount := fluxSchedPriorityBoostAmount.toNat
  rises := 20
  top := fluxSchedMaxPriorityBoost.toNat
  capacity := fluxSchedQueueSize
  period_pos := Nat.succ_pos 999
  top_le := Nat.le_refl 200

/-- The longest time slice: the longest that can be set, and the bonus of an agent that thinks. -/
def longestSlice : Nat := 9999 + fluxSchedAgentThinkBonus.toNat

/-- An entry that no other exceeds moves forward when another one is dequeued. -/
theorem IsFirstMax.forward {l : List SchedEntry} {i j : Nat} {e x : SchedEntry} (h : IsFirstMax l j e)
    (hx : l[i]? = some x) (hij : i ≠ j) :
    ∃ i' ≤ i, (l.eraseIdx j)[i']? = some x ∧ (e.priority ≤ x.priority → i' < i) := by
  rcases Nat.lt_or_gt_of_ne hij with hlt | hgt
  · refine ⟨i, Nat.le_refl i, ?_, fun hle => ?_⟩
    · rw [List.getElem?_eraseIdx_of_lt hlt, hx]
    · exact absurd hle (UInt8.not_le.2 (h.2.2 x (getElem?_mem_take hx hlt)))
  · refine ⟨i - 1, Nat.sub_le i 1, ?_, fun _ => by omega⟩
    rw [List.getElem?_eraseIdx_of_ge (by omega), Nat.sub_add_cancel (by omega), hx]

namespace Kernel

variable {k k' : Kernel} {e : SchedEntry} {pid : UInt32} {start : UInt64} {i n count ticks : Nat}

/-! ## The queue and its timer -/

/-- The ready queue is one, and the boost timer runs. -/
structure AgingSound (k : Kernel) : Prop where
  valid : k.ReadyValid
  timer : k.sched.boostTimer.toNat < fluxSchedPriorityBoostInterval.toNat

theorem SchedStep.agingSound (h : SchedStep k k') (hk : k.AgingSound) : k'.AgingSound := by
  cases h with
  | same h _ => exact ⟨by rw [ReadyValid, h]; exact hk.valid, by rw [h]; exact hk.timer⟩
  | push pid i hroom h _ => exact ⟨by rw [ReadyValid, h]; exact hk.valid.push hroom, by rw [h]; exact hk.timer⟩
  | yield h _ => exact ⟨by rw [ReadyValid, h]; exact hk.valid, by rw [h]; exact hk.timer⟩

theorem agingDue_iff (hk : k.AgingSound) :
    k.AgingDue ↔ k.sched.boostTimer.toNat + 1 = fluxSchedPriorityBoostInterval.toNat := by
  have htimer := hk.timer
  have hinterval : fluxSchedPriorityBoostInterval.toNat = 1000 := rfl
  have hnext : (k.sched.boostTimer + 1).toNat = k.sched.boostTimer.toNat + 1 := by
    rw [UInt32.toNat_add, show (1 : UInt32).toNat = 1 from rfl]
    omega
  rw [AgingDue, UInt64.lt_iff_toNat_lt, UInt32.toNat_toUInt64, hnext]
  omega

/-- The boost timer after a dequeue, and what a dequeue leaves as it is. -/
theorem timer_dequeue (hpos : k.sched.readyQueue.count ≠ 0) :
    k.fluxSchedDequeue.2.sched.boostTimer = (if k.AgingDue then 0 else k.sched.boostTimer + 1) ∧
      k.fluxSchedDequeue.2.ks = k.ks := by
  have haged : k.schedAgePriorities.sched.boostTimer = (if k.AgingDue then 0 else k.sched.boostTimer + 1) ∧
      k.schedAgePriorities.ks = k.ks := by
    unfold schedAgePriorities
    by_cases h : (k.sched.boostTimer + 1).toUInt64 < fluxSchedPriorityBoostInterval
    · rw [if_neg (show ¬k.AgingDue from not_not_intro h)]
      dsimp only
      rw [if_pos h]
      exact ⟨rfl, rfl⟩
    · rw [if_pos (show k.AgingDue from h)]
      dsimp only
      rw [if_neg h]
      obtain ⟨pri, q, heq⟩ := exists_aged_foldl (k := { k with sched := { k.sched with boostTimer := 0 } })
        k.schedCurrentTick (List.range k.sched.readyQueue.count)
      exact ⟨(congrArg (fun k => k.sched.boostTimer) heq).trans rfl, (congrArg Kernel.ks heq).trans rfl⟩
  rw [fluxSchedDequeue_of_pos hpos, dispatch]
  dsimp only
  split <;> exact haged

theorem AgingSound.dequeue (hk : k.AgingSound) : k.fluxSchedDequeue.2.AgingSound := by
  by_cases hcount : k.sched.readyQueue.count = 0
  · rw [show k.fluxSchedDequeue = (fluxPidInvalid, k) from if_pos hcount]
    exact hk
  · obtain ⟨j, e, -, -, hvalid, -⟩ := fluxSchedDequeue_spec hk.valid (Nat.pos_of_ne_zero hcount)
    refine ⟨hvalid, ?_⟩
    rw [(timer_dequeue hcount).1]
    split_ifs with hdue
    · exact Nat.succ_pos 999
    · have htimer := hk.timer
      have hinterval : fluxSchedPriorityBoostInterval.toNat = 1000 := rfl
      rw [agingDue_iff hk] at hdue
      rw [UInt32.toNat_add, show (1 : UInt32).toNat = 1 from rfl]
      omega

/-- The queue stays one, and the timer running. -/
theorem AgingSound.iteration (hk : k.AgingSound) : k.schedIteration.AgingSound := by
  have hqueue : SchedInvariant AgingSound := ⟨SchedStep.agingSound⟩
  have htick : k.tick.AgingSound := ⟨hk.valid, hk.timer⟩
  rw [schedIteration_eq]
  split_ifs
  · have htimer : k.tick.spendTick.sched.boostTimer = k.sched.boostTimer := by
      unfold spendTick
      dsimp only
      split <;> rfl
    refine ⟨?_, htimer ▸ hk.timer⟩
    rw [ReadyValid, (sched_spendTick (k := k.tick)).1]
    exact hk.valid
  · have hdequeued := (hqueue.requeueCurrent htick).dequeue
    unfold switchTo
    split_ifs <;> exact ⟨hdequeued.valid, hdequeued.timer⟩

/-! ## Aging of an entry -/

/-- With the clock more than an interval ahead, in 32 bits, the entry has waited too long. -/
theorem Showed.lt_sub (h : k.Showed start n) (hlo : fluxSchedPriorityBoostInterval.toNat < n)
    (hhi : n < UInt32.size) :
    fluxSchedPriorityBoostInterval < k.schedCurrentTick - start := by
  obtain ⟨hstart, hnow⟩ := h.toNat
  have hinterval : fluxSchedPriorityBoostInterval.toNat = 1000 := rfl
  rw [show UInt32.size = 4294967296 from rfl] at hstart hnow hhi
  rw [UInt64.lt_iff_toNat_lt]
  by_cases hle : start ≤ k.schedCurrentTick
  · rw [UInt64.toNat_sub_of_le _ _ hle]
    rw [UInt64.le_iff_toNat_le] at hle
    omega
  · have hwide : UInt64.size = 18446744073709551616 := rfl
    rw [sub_of_lt (UInt64.not_le.1 hle)]
    omega

theorem toNat_boostedPriority (hp : e.priority < fluxSchedMaxPriorityBoost) :
    min schedAging.top (e.priority.toNat + schedAging.amount) ≤ (boostedPriority e.priority).toNat := by
  have hp : e.priority.toNat < 200 := UInt8.lt_iff_toNat_lt.1 hp
  have hadd : (e.priority + fluxSchedPriorityBoostAmount).toNat = e.priority.toNat + 10 := by
    rw [UInt8.toNat_add, show fluxSchedPriorityBoostAmount.toNat = 10 from rfl]
    omega
  unfold boostedPriority
  dsimp only
  split_ifs
  · exact Nat.min_le_left ..
  · rw [hadd]
    exact Nat.min_le_right ..

/-- Aging leaves the entries in their places, and raises one that has waited too long. -/
theorem agedReady_at (he : k.ready[i]? = some e) :
    ∃ e', k.agedReady[i]? = some e' ∧ e'.pid = e.pid ∧ e'.waitStart = e.waitStart ∧
      e.priority.toNat ≤ e'.priority.toNat ∧
      (k.AgingDue → fluxSchedPriorityBoostInterval < k.schedCurrentTick - e.waitStart →
        min schedAging.top (e.priority.toNat + schedAging.amount) ≤ e'.priority.toNat) := by
  unfold agedReady
  by_cases hdue : k.AgingDue
  · refine ⟨agedEntry k.schedCurrentTick e, ?_, ?_, ?_, (agedEntry_bounds _ e).1, fun _ hwait => ?_⟩
    · rw [if_pos hdue, List.getElem?_map, he]
      rfl
    · unfold agedEntry
      split_ifs <;> rfl
    · unfold agedEntry
      split_ifs <;> rfl
    · unfold agedEntry
      by_cases hlow : e.priority < fluxSchedMaxPriorityBoost
      · rw [if_pos (starves_iff.2 ⟨hwait, hlow⟩)]
        exact toNat_boostedPriority hlow
      · rw [if_neg fun hstarves => hlow (starves_iff.1 hstarves).2]
        exact (Nat.min_le_left ..).trans (UInt8.le_iff_toNat_le.1 (UInt8.not_lt.1 hlow))
  · exact ⟨e, by rw [if_neg hdue, he], rfl, rfl, Nat.le_refl _, fun h => absurd h hdue⟩

/-- No entry stands above the top. -/
theorem Guarded.agedReady_le (h : k.Guarded) (he : e ∈ k.agedReady) : e.priority ≤ fluxSchedMaxPriorityBoost := by
  have hready {x : SchedEntry} (hx : x ∈ k.ready) : x.priority ≤ fluxSchedMaxPriorityBoost := by
    obtain ⟨m, -, rfl⟩ := List.mem_map.1 hx
    exact (h.slots _).2
  unfold agedReady at he
  split_ifs at he
  · obtain ⟨x, hx, rfl⟩ := List.mem_map.1 he
    exact priority_agedEntry_le (hready hx)
  · exact hready he

/-! ## A waiting process -/

/-- The entry stands in the queue at the place `i`, since `ticks` ticks. -/
structure Stands (k : Kernel) (i : Nat) (e : SchedEntry) (count ticks : Nat) : Prop where
  sound : k.AgingSound
  place : k.ready[i]? = some e
  timer : k.sched.boostTimer.toNat = count % schedAging.period
  clock : k.Showed e.waitStart ticks

/-- The process waits in the queue since `ticks` ticks, in which all time slices have been paid. -/
structure Awaits (k : Kernel) (pid : UInt32) (count ticks : Nat) : Prop where
  entry : ∃ i e, e.pid = pid ∧ k.Stands i e count ticks ∧ schedAging.Waits count i e.priority.toNat
  late : count < ticks + schedAging.period
  paid : ticks + k.sched.currentTimeslice.toNat ≤ count * (longestSlice + 1) + longestSlice

theorem SchedStep.stands (h : SchedStep k k') (hk : k.Stands i e count ticks) : k'.Stands i e count ticks := by
  have hsound := h.agingSound hk.sound
  cases h with
  | same h htick =>
    refine ⟨hsound, ?_, ?_, ?_⟩
    · rw [ready, h]
      exact hk.place
    · rw [h]
      exact hk.timer
    · rw [Showed, htick]
      exact hk.clock
  | push pid j hroom h htick =>
    refine ⟨hsound, ?_, ?_, ?_⟩
    · rw [ready, h, contents_push hk.sound.valid hroom, List.getElem?_append_left]
      · exact hk.place
      · exact (List.getElem?_eq_some_iff.1 hk.place).1
    · rw [h]
      exact hk.timer
    · rw [Showed, htick]
      exact hk.clock
  | yield h htick =>
    refine ⟨hsound, ?_, ?_, ?_⟩
    · rw [ready, h]
      exact hk.place
    · rw [h]
      exact hk.timer
    · rw [Showed, htick]
      exact hk.clock

theorem SchedStep.awaits (h : SchedStep k k') (hk : k.Awaits pid count ticks) : k'.Awaits pid count ticks := by
  obtain ⟨i, e, hpid, hstands, hwaits⟩ := hk.entry
  refine ⟨⟨i, e, hpid, h.stands hstands, hwaits⟩, hk.late, ?_⟩
  rw [h.current]
  exact hk.paid

theorem Showed.tick (h : k.Showed start n) : k.tick.Showed start (n + 1) := by
  obtain ⟨t, rfl, hcount⟩ := h
  refine ⟨t, rfl, ?_⟩
  show k.ks.tickCount + 1 = t + UInt32.ofNat (n + 1)
  rw [hcount, UInt32.ofNat_add, UInt32.add_assoc]
  rfl

theorem Stands.tick (h : k.Stands i e count ticks) : k.tick.Stands i e count (ticks + 1) :=
  ⟨⟨h.sound.valid, h.sound.timer⟩, h.place, h.timer, h.clock.tick⟩

/-- The time that a process can have waited. -/
theorem Awaits.ticks_lt (h : k.Awaits pid count ticks) : ticks < schedAging.bound * (longestSlice + 1) := by
  obtain ⟨i, e, -, -, hwaits⟩ := h.entry
  have hle : (count + 1) * (longestSlice + 1) ≤ schedAging.bound * (longestSlice + 1) :=
    Nat.mul_le_mul_right _ hwaits.count_lt
  have hpaid := h.paid
  rw [Nat.succ_mul] at hle
  omega

/-- The current process goes on for a tick of its slice. -/
theorem Awaits.goOn (h : k.Awaits pid count ticks) (htime : k.TimeLeft) :
    k.schedIteration.Awaits pid count (ticks + 1) := by
  obtain ⟨i, e, hpid, hstands, hwaits⟩ := h.entry
  have hslice := toNat_slice_spendTick htime
  have hpaid := h.paid
  have hlate := h.late
  rw [schedIteration_eq, if_pos htime] at hslice ⊢
  have hsched : k.tick.spendTick.sched.readyQueue = k.tick.sched.readyQueue ∧
      k.tick.spendTick.sched.boostTimer = k.tick.sched.boostTimer ∧ k.tick.spendTick.ks = k.tick.ks := by
    unfold spendTick
    dsimp only
    split <;> exact ⟨rfl, rfl, rfl⟩
  obtain ⟨hqueue, htimer, hks⟩ := hsched
  have htick := hstands.tick
  refine ⟨⟨i, e, hpid, ⟨⟨?_, ?_⟩, ?_, ?_, ?_⟩, hwaits⟩, by omega, by omega⟩
  · rw [ReadyValid, hqueue]
    exact htick.sound.valid
  · rw [htimer]
    exact htick.sound.timer
  · rw [ready, hqueue]
    exact htick.place
  · rw [htimer]
    exact htick.timer
  · rw [Showed, hks]
    exact htick.clock

/-! ## Dequeues of others -/

/-- No entry past the end of the array has a priority above those of all entries before it, so that a dequeue removes
just the entry that it selects. -/
def KeepsOrder (k : Kernel) : Prop :=
  ∀ x ∈ k.agedReady.drop (fluxSchedQueueSize - k.sched.readyQueue.head),
    ∃ y ∈ k.agedReady.take (fluxSchedQueueSize - k.sched.readyQueue.head), x.priority ≤ y.priority

/-- Another process is dequeued.  It stood in front of one at the top. -/
theorem Stands.dequeue (h : k.Stands i e count ticks) (hguarded : k.Guarded) (horder : k.KeepsOrder)
    (hother : k.fluxSchedDequeue.1 ≠ e.pid) :
    ∃ i' e', e'.pid = e.pid ∧ k.fluxSchedDequeue.2.Stands i' e' (count + 1) ticks ∧ i' < schedAging.capacity ∧
      e.priority.toNat ≤ e'.priority.toNat ∧
      (schedAging.period ∣ count + 1 → fluxSchedPriorityBoostInterval < k.schedCurrentTick - e.waitStart →
        min schedAging.top (e.priority.toNat + schedAging.amount) ≤ e'.priority.toNat) ∧
      (schedAging.top ≤ e'.priority.toNat → i' < i) := by
  have hplace := h.place
  have hpos : 0 < k.sched.readyQueue.count := by
    rw [← length_contents (n := fluxSchedQueueSize)]
    exact Nat.zero_lt_of_lt (List.getElem?_eq_some_iff.1 hplace).1
  have hperiod : schedAging.period = 1000 := rfl
  have hinterval : fluxSchedPriorityBoostInterval.toNat = 1000 := rfl
  have hdue : k.AgingDue ↔ schedAging.period ∣ count + 1 := by
    rw [agingDue_iff h.sound, h.timer, hinterval, hperiod]
    omega
  obtain ⟨e', haged, hpid, hwait, hkept, hraised⟩ := agedReady_at hplace
  obtain ⟨j, x, hmax, hselected, hvalid, hready⟩ := fluxSchedDequeue_spec h.sound.valid hpos
  rw [if_pos (hmax.lt_iff.2 horder)] at hready
  have hij : i ≠ j := by
    rintro rfl
    obtain rfl : e' = x := Option.some.inj (haged.symm.trans hmax.1)
    exact hother (hselected.trans hpid)
  obtain ⟨i', -, hi', hforward⟩ := hmax.forward haged hij
  obtain ⟨htimer, hks⟩ := timer_dequeue (Nat.pos_iff_ne_zero.1 hpos)
  refine ⟨i', e', hpid, ⟨h.sound.dequeue, ?_, ?_, ?_⟩, ?_, hkept, fun hdvd => hraised (hdue.2 hdvd), fun htop => ?_⟩
  · rw [hready]
    exact hi'
  · have hsound := h.timer
    rw [htimer, hperiod]
    rw [hperiod] at hdue hsound
    split_ifs with hnow
    · exact (Nat.mod_eq_zero_of_dvd (hdue.1 hnow)).symm
    · have hnot := mt hdue.2 hnow
      rw [UInt32.toNat_add, show (1 : UInt32).toNat = 1 from rfl]
      omega
  · rw [Showed, hks, hwait]
    exact h.clock
  · have hlt := (List.getElem?_eq_some_iff.1 (hready ▸ hi')).1
    rw [ready, length_contents] at hlt
    exact hlt.trans_le hvalid.count_le
  · refine hforward (UInt8.le_trans (hguarded.agedReady_le hmax.mem) ?_)
    exact UInt8.le_iff_toNat_le.2 htop

/-- An iteration that gives the CPU to another process. -/
theorem Awaits.passOver (h : k.Awaits pid count ticks) (hguarded : k.Guarded) (hslices : k.SlicesWithin longestSlice)
    (htime : ¬k.TimeLeft) (horder : k.tick.requeueCurrent.KeepsOrder)
    (hother : k.tick.requeueCurrent.fluxSchedDequeue.1 ≠ pid) :
    k.schedIteration.Awaits pid (count + 1) (ticks + 1) := by
  obtain ⟨i, e, hpid, hstands, hwaits⟩ := h.entry
  have hlt := h.ticks_lt
  have hlate := h.late
  have hpaid := h.paid
  have hbound : schedAging.bound * (longestSlice + 1) < UInt32.size - 1 := by decide
  have hinterval : fluxSchedPriorityBoostInterval.toNat = 1000 := rfl
  have hperiod : schedAging.period = 1000 := rfl
  have hstep : SchedInvariant fun k => k.Stands i e count (ticks + 1) := ⟨SchedStep.stands⟩
  have hrequeued := hstep.requeueCurrent hstands.tick
  have htickGuarded : k.tick.Guarded :=
    ⟨hguarded.awake, hguarded.caps, hguarded.priority, hguarded.current, hguarded.scheduled, hguarded.slots⟩
  obtain ⟨i', e', hpid', hstands', hroom, hkept, hraised, hforward⟩ :=
    hrequeued.dequeue htickGuarded.requeueCurrent horder (hpid ▸ hother)
  have hnext : schedAging.Waits (count + 1) i' e'.priority.toNat := by
    refine hwaits.next hkept (fun hdvd hfirst => hraised hdvd ?_) hroom hforward
    exact hrequeued.clock.lt_sub (by omega) (by omega)
  have hslice := hslices.iteration.current
  rw [schedIteration_eq, if_neg htime] at hslice ⊢
  refine ⟨⟨i', e', hpid'.trans hpid, ?_, hnext⟩, by omega, ?_⟩
  · unfold switchTo
    split_ifs <;> exact ⟨⟨hstands'.sound.valid, hstands'.sound.timer⟩, hstands'.place, hstands'.timer, hstands'.clock⟩
  · rw [Nat.succ_mul]
    omega

/-! ## Calls -/

section Calls

variable {MayKill : UInt32 → Prop} {MaySet : UInt64 → Prop}

theorem agingSound_osInvariant : OsInvariant MayKill MaySet (fun _ => True) AgingSound where
  toCallInvariant := by
    refine (SchedInvariant.mk SchedStep.agingSound).callInvariant fun k ticks hk _ => ?_
    unfold fluxSchedSetTimeslice
    split_ifs
    · exact ⟨hk.valid, hk.timer⟩
    · exact hk
  iteration := AgingSound.iteration

/-- No call changes the wait of a process. -/
theorem awaits_callInvariant :
    CallInvariant MayKill MaySet (fun _ => True) fun k => k.Awaits pid count ticks := by
  refine (SchedInvariant.mk SchedStep.awaits).callInvariant fun k ticks' hk _ => ?_
  unfold fluxSchedSetTimeslice
  split_ifs
  · obtain ⟨i, e, hpid, hstands, hwaits⟩ := hk.entry
    refine ⟨⟨i, e, hpid, ?_, hwaits⟩, hk.late, hk.paid⟩
    exact ⟨⟨hstands.sound.valid, hstands.sound.timer⟩, hstands.place, hstands.timer, hstands.clock⟩
  · exact hk

/-- No slice is longer than the longest one. -/
theorem slicesWithin_longest : OsInvariant MayKill MaySet (fun _ => True) (SlicesWithin longestSlice) := by
  refine slicesWithin_osInvariant fun ticks _ hticks => ?_
  have hlt : ticks.toNat < 10000 := UInt64.lt_iff_toNat_lt.1 hticks
  have hlongest : longestSlice = 9999 + fluxSchedAgentThinkBonus.toNat := rfl
  omega

end Calls

theorem bootKernel_agingSound : bootKernel.AgingSound :=
  ⟨⟨Nat.succ_pos 255, Nat.zero_le 256, rfl⟩, Nat.succ_pos 999⟩

/-- A process that is put in the queue begins to wait. -/
theorem awaits_of_new (hsound : k.AgingSound) (hslices : k.SlicesWithin longestSlice) (he : e ∈ k.ready)
    (hnew : e.waitStart = k.schedCurrentTick) : k.Awaits e.pid k.sched.boostTimer.toNat 0 := by
  obtain ⟨i, hi⟩ := List.mem_iff_getElem?.1 he
  have htimer : k.sched.boostTimer.toNat < schedAging.period := hsound.timer
  refine ⟨⟨i, e, rfl, ⟨hsound, hi, (Nat.mod_eq_of_lt htimer).symm, ?_⟩, .start htimer⟩, ?_, ?_⟩
  · exact ⟨k.ks.tickCount, hnew, (UInt32.add_zero _).symm⟩
  · rw [Nat.zero_add]
    exact htimer
  · have hcurrent := hslices.current
    omega

end Kernel

/-! ## Runs -/

namespace OsSystem

variable {p : Platform} {s t : OsSystem} {as : List OsAction} {pid : UInt32} {count ticks : Nat}

/-- If an iteration of the scheduler dequeues a process, it keeps the queue in order. -/
def KeepsOrder (a : OsAction) (s : OsSystem) : Prop :=
  a = .schedule → ¬s.os.kernel.TimeLeft → s.os.kernel.tick.requeueCurrent.KeepsOrder

/-- If an iteration of the scheduler dequeues a process, it is another one. -/
def PassesOver (pid : UInt32) (a : OsAction) (s : OsSystem) : Prop :=
  a = .schedule → ¬s.os.kernel.TimeLeft → s.os.kernel.tick.requeueCurrent.fluxSchedDequeue.1 ≠ pid

theorem awaits_of_run (hp : p.Protects) (hrun : s.Reachable p IsUser fun _ => True)
    (hwaits : s.os.kernel.Awaits pid count ticks)
    (has : MeetsAlong (step p) (OsAction.Permitted IsUser fun _ => True) as s)
    (horder : MeetsAlong (step p) KeepsOrder as s) (hother : MeetsAlong (step p) (PassesOver pid) as s)
    (ht : execute (step p) as s = some t) :
    ∃ count', t.os.kernel.Awaits pid count' (ticks + as.count .schedule) := by
  induction as generalizing s count ticks with
  | nil =>
    cases ht
    exact ⟨count, hwaits⟩
  | cons a as ih =>
    obtain ⟨u, hu, hrest⟩ := execute_cons.1 ht
    obtain ⟨hpermitted, hallowed⟩ := has u hu
    obtain ⟨hkeeps, hordered⟩ := horder u hu
    obtain ⟨hpasses, hothers⟩ := hother u hu
    have hreach : u.Reachable p IsUser fun _ => True := hrun.imp fun _ h => h.tail hpermitted hu
    by_cases ha : a = .schedule
    · subst ha
      have hguarded := (guarded_osInvariant.holds hp Kernel.bootKernel_guarded hrun).1
      have hslices := (Kernel.slicesWithin_longest.holds hp (Kernel.bootKernel_slicesWithin (by decide)) hrun).1
      have hnext : ∃ count', u.os.kernel.Awaits pid count' (ticks + 1) := by
        cases hu
        by_cases htime : s.os.kernel.TimeLeft
        · exact ⟨count, hwaits.goOn htime⟩
        · exact ⟨count + 1, hwaits.passOver hguarded hslices htime (hkeeps rfl htime) (hpasses rfl htime)⟩
      obtain ⟨count', hnext⟩ := hnext
      obtain ⟨count'', hend⟩ := ih hreach hnext hallowed hordered hothers hrest
      refine ⟨count'', ?_⟩
      rwa [List.count_cons_self, Nat.add_comm _ 1, ← Nat.add_assoc]
    · obtain ⟨hnext, -⟩ := Kernel.awaits_callInvariant.step hp hpermitted ha ⟨hwaits, fun _ _ => trivial⟩ hu
      rw [List.count_cons_of_ne ha]
      exact ih hreach hnext hallowed hordered hothers hrest

/-- No process starves: until a process in the ready queue is dequeued, the scheduler makes fewer iterations than it
takes to dequeue 21256 others, with the longest slice for each of them.  Any calls are made and any processes are
spawned in between, and the clock may wrap. -/
theorem starvation_free (hp : p.Protects) (hrun : s.Reachable p IsUser fun _ => True)
    (hqueued : ∃ e ∈ s.os.kernel.ready, e.pid = pid ∧ e.waitStart = s.os.kernel.schedCurrentTick)
    (has : MeetsAlong (step p) (OsAction.Permitted IsUser fun _ => True) as s)
    (horder : MeetsAlong (step p) KeepsOrder as s) (hother : MeetsAlong (step p) (PassesOver pid) as s)
    (ht : execute (step p) as s = some t) : as.count .schedule < schedAging.bound * (longestSlice + 1) := by
  obtain ⟨e, he, rfl, hnew⟩ := hqueued
  have hsound := (Kernel.agingSound_osInvariant.holds hp Kernel.bootKernel_agingSound hrun).1
  have hslices := (Kernel.slicesWithin_longest.holds hp (Kernel.bootKernel_slicesWithin (by decide)) hrun).1
  obtain ⟨count, hwaits⟩ :=
    awaits_of_run hp hrun (Kernel.awaits_of_new hsound hslices he hnew) has horder hother ht
  rw [← Nat.zero_add (as.count _)]
  exact hwaits.ticks_lt

/-- Two processes are spawned, and the first one is dequeued. -/
theorem starvation_free_spawn : ∃ s t : OsSystem, (s.Reachable plainPlatform IsUser fun _ => True) ∧
    (∃ e ∈ s.os.kernel.ready, e.pid = 3 ∧ e.waitStart = s.os.kernel.schedCurrentTick) ∧
      execute (step plainPlatform) [.schedule] s = some t ∧
      ([.schedule] : List OsAction).count .schedule < schedAging.bound * (longestSlice + 1) := by
  have hrun : ((step plainPlatform (.spawn 0 0 false) (boot fun _ => 0)).bind
      (step plainPlatform (.spawn 0 0 false))).map (fun s =>
        (decide (∃ e ∈ s.os.kernel.ready, e.pid = 3 ∧ e.waitStart = s.os.kernel.schedCurrentTick),
          s.os.kernel.tick.requeueCurrent.agedReady.drop
            (fluxSchedQueueSize - s.os.kernel.tick.requeueCurrent.sched.readyQueue.head),
          s.os.kernel.tick.requeueCurrent.fluxSchedDequeue.1)) = some (true, [], 2) := by decide +kernel
  obtain ⟨s, hs, hfacts⟩ := Option.map_eq_some_iff.1 hrun
  obtain ⟨s₁, h₁, h₂⟩ := Option.bind_eq_some_iff.1 hs
  obtain ⟨hqueued, hfacts⟩ := Prod.mk.inj hfacts
  obtain ⟨hdrop, hselected⟩ := Prod.mk.inj hfacts
  have hreach : s.Reachable plainPlatform IsUser fun _ => True :=
    ⟨fun _ => 0, ((Reaches.refl _).tail (a := .spawn 0 0 false) trivial h₁).tail (a := .spawn 0 0 false) trivial h₂⟩
  have hp : plainPlatform.Protects := fun _ _ _ => ⟨rfl, rfl, rfl, rfl⟩
  have hqueued := of_decide_eq_true hqueued
  refine ⟨s, _, hreach, hqueued, rfl, starvation_free hp hreach hqueued ?_ ?_ ?_ rfl⟩
  · exact fun t _ => ⟨trivial, trivial⟩
  · refine fun t _ => ⟨fun _ _ x hx => ?_, trivial⟩
    rw [hdrop] at hx
    exact absurd hx List.not_mem_nil
  · refine fun t _ => ⟨fun _ _ => ?_, trivial⟩
    rw [hselected]
    decide

end OsSystem
end FluxOs
