import FluxOs.Kernel.Runs

/-!
# The ready queue as a list

What `flux_sched_enqueue` and `flux_sched_dequeue` do to the list of the queued entries.  A dequeue
selects the first entry of greatest priority.  It removes just this entry if it is stored before the end
of the array; past the end the loop runs for a round too many and damages the queue.
-/

namespace FluxOs

open Rings RingBuffer

/-- Entry number `j` is the first one of greatest priority. -/
def IsFirstMax (l : List SchedEntry) (j : Nat) (e : SchedEntry) : Prop :=
  l[j]? = some e ∧ (∀ x ∈ l, x.priority ≤ e.priority) ∧ ∀ x ∈ l.take j, x.priority < e.priority

section Lists

variable {l : List SchedEntry} {j j' m : Nat} {e e' : SchedEntry}

theorem IsFirstMax.mem (h : IsFirstMax l j e) : e ∈ l := List.mem_of_getElem? h.1

theorem IsFirstMax.lt (h : IsFirstMax l j e) : j < l.length := (List.getElem?_eq_some_iff.1 h.1).1

theorem getElem?_mem_take (h : l[j]? = some e) (hj : j < m) : e ∈ l.take m := by
  refine List.mem_of_getElem? (i := j) ?_
  rw [List.getElem?_take_of_lt hj, h]

theorem getElem?_mem_drop (h : l[j]? = some e) (hj : m ≤ j) : e ∈ l.drop m := by
  refine List.mem_of_getElem? (i := j - m) ?_
  rw [List.getElem?_drop, Nat.add_sub_cancel' hj, h]

/-- There is only one such entry. -/
theorem IsFirstMax.unique (h : IsFirstMax l j e) (h' : IsFirstMax l j' e') : j = j' ∧ e = e' := by
  have hle : ∀ {j j' : Nat} {e e' : SchedEntry}, IsFirstMax l j e → IsFirstMax l j' e' → j ≤ j' := by
    intro j j' e e' h h'
    refine Nat.le_of_not_lt fun hlt => ?_
    have h₁ := h.2.2 e' (getElem?_mem_take h'.1 hlt)
    exact absurd (h'.2.1 e h.mem) (UInt8.not_le.2 h₁)
  have hj : j = j' := Nat.le_antisymm (hle h h') (hle h' h)
  subst hj
  exact ⟨rfl, Option.some.inj (h.1.symm.trans h'.1)⟩

/-- The first maximum is among the first `m` entries if no later entry is greater than all of them. -/
theorem IsFirstMax.lt_iff (h : IsFirstMax l j e) :
    j < m ↔ ∀ x ∈ l.drop m, ∃ y ∈ l.take m, x.priority ≤ y.priority := by
  constructor
  · intro hj x hx
    exact ⟨e, getElem?_mem_take h.1 hj, h.2.1 x (List.mem_of_mem_drop hx)⟩
  · intro hall
    refine Nat.lt_of_not_le fun hj => ?_
    obtain ⟨y, hy, hle⟩ := hall e (getElem?_mem_drop h.1 hj)
    exact absurd hle (UInt8.not_le.2 (h.2.2 y (List.take_subset_take_left l hj hy)))

/-- Moving `s` in at the end and the first element out changes nothing only if all elements are `s`. -/
theorem concat_eq_cons_iff {α : Type} {a s : α} {l : List α} :
    l ++ [s] = a :: l ↔ ∀ x ∈ a :: l, x = s := by
  induction l generalizing a with
  | nil => simp [eq_comm]
  | cons b l ih =>
    rw [List.cons_append, List.cons.injEq, ih, List.forall_mem_cons (a := a)]
    constructor
    · rintro ⟨rfl, hall⟩
      exact ⟨hall b List.mem_cons_self, hall⟩
    · rintro ⟨rfl, hall⟩
      exact ⟨hall b List.mem_cons_self, hall⟩

theorem tail_concat_eq_iff {α : Type} {s : α} {l : List α} :
    (l ++ [s]).tail = l ↔ ∀ x ∈ l, x = s := by
  cases l with
  | nil => simp
  | cons a l => exact concat_eq_cons_iff

end Lists

namespace Kernel

variable {k : Kernel} {q : RingBuffer SchedEntry} {j m : Nat} {e : SchedEntry}

/-- The entries of the ready queue. -/
def ready (k : Kernel) : List SchedEntry := k.sched.readyQueue.contents fluxSchedQueueSize

/-! ## Aging -/

theorem foldl_ageVisit_queue (now : UInt64) (l : List Nat) :
    (l.foldl (ageVisit now) k).sched.readyQueue =
      { k.sched.readyQueue with
        slots := l.foldl (fun s i =>
          Function.update s (k.sched.readyQueue.index fluxSchedQueueSize i)
            (agedEntry now (s (k.sched.readyQueue.index fluxSchedQueueSize i))))
          k.sched.readyQueue.slots } := by
  induction l generalizing k with
  | nil => rfl
  | cons i l ih =>
    have hqueue : (ageVisit now k i).sched.readyQueue =
        { k.sched.readyQueue with
          slots := Function.update k.sched.readyQueue.slots
            (k.sched.readyQueue.index fluxSchedQueueSize i)
            (agedEntry now (k.sched.readyQueue.slots (k.sched.readyQueue.index fluxSchedQueueSize i))) } := by
      unfold ageVisit
      dsimp only
      split_ifs
      · split <;> rfl
      · rfl
    rw [List.foldl_cons, ih, hqueue]
    rfl

/-- Aging is due at this call of `flux_sched_dequeue`. -/
def AgingDue (k : Kernel) : Prop := ¬(k.sched.boostTimer + 1).toUInt64 < fluxSchedPriorityBoostInterval

instance : Decidable k.AgingDue := inferInstanceAs (Decidable (¬_))

/-- The entries that `flux_sched_dequeue` chooses from. -/
def agedReady (k : Kernel) : List SchedEntry :=
  if k.AgingDue then k.ready.map (agedEntry k.schedCurrentTick) else k.ready

/-- The ready queue after `sched_age_priorities`. -/
def agedQueue (k : Kernel) : RingBuffer SchedEntry := k.schedAgePriorities.sched.readyQueue

theorem agedQueue_eq : k.agedQueue =
    if k.AgingDue then k.sched.readyQueue.mapEntries fluxSchedQueueSize (agedEntry k.schedCurrentTick)
    else k.sched.readyQueue := by
  unfold agedQueue schedAgePriorities
  by_cases h : (k.sched.boostTimer + 1).toUInt64 < fluxSchedPriorityBoostInterval
  · rw [if_neg (show ¬k.AgingDue from not_not_intro h)]
    dsimp only
    rw [if_pos h]
  · rw [if_pos (show k.AgingDue from h)]
    dsimp only
    rw [if_neg h, foldl_ageVisit_queue]
    rfl

theorem agedQueue_valid (hv : k.sched.readyQueue.Valid fluxSchedQueueSize) :
    k.agedQueue.Valid fluxSchedQueueSize := by
  rw [agedQueue_eq]
  split_ifs
  · exact hv.mapEntries
  · exact hv

theorem contents_agedQueue (hv : k.sched.readyQueue.Valid fluxSchedQueueSize) :
    k.agedQueue.contents fluxSchedQueueSize = k.agedReady := by
  rw [agedQueue_eq, agedReady]
  split_ifs
  · exact contents_mapEntries hv
  · rfl

theorem agedQueue_counters : k.agedQueue.head = k.sched.readyQueue.head ∧
    k.agedQueue.tail = k.sched.readyQueue.tail ∧ k.agedQueue.count = k.sched.readyQueue.count := by
  rw [agedQueue_eq]
  split_ifs
  · exact ⟨rfl, rfl, rfl⟩
  · exact ⟨rfl, rfl, rfl⟩

/-! ## The best entry -/

/-- `sched_find_highest_priority` returns the slot of the first entry of greatest priority. -/
theorem schedFindHighestPriority_eq (hv : q.Valid fluxSchedQueueSize) (hpos : 0 < q.count) :
    ∃ j e, IsFirstMax (q.contents fluxSchedQueueSize) j e ∧
      schedFindHighestPriority q = q.index fluxSchedQueueSize j ∧
      q.slots (q.index fluxSchedQueueSize j) = e := by
  have hhead : q.index fluxSchedQueueSize 0 = q.head := Nat.mod_eq_of_lt hv.head_lt
  -- after `m` rounds the best entry is the first maximum of the first `m`, or the head
  have hscan (m : Nat) : ∃ j, j < max m 1 ∧
      (List.range m).foldl (fun best i =>
        let idx := q.index fluxSchedQueueSize i
        let pri := (q.slots idx).priority
        if pri > best.2 then (idx, pri) else best) (q.head, (q.slots q.head).priority) =
        (q.index fluxSchedQueueSize j, (q.entry fluxSchedQueueSize j).priority) ∧
      (∀ i < m, (q.entry fluxSchedQueueSize i).priority ≤ (q.entry fluxSchedQueueSize j).priority) ∧
      ∀ i < j, (q.entry fluxSchedQueueSize i).priority < (q.entry fluxSchedQueueSize j).priority := by
    induction m with
    | zero =>
      refine ⟨0, by decide, ?_, fun i hi => absurd hi (Nat.not_lt_zero i),
        fun i hi => absurd hi (Nat.not_lt_zero i)⟩
      rw [entry, hhead]
      rfl
    | succ m ih =>
      obtain ⟨j, hj, hfold, hle, hlt⟩ := ih
      rw [List.range_succ, List.foldl_append, List.foldl_cons, List.foldl_nil, hfold]
      by_cases hbetter : (q.entry fluxSchedQueueSize m).priority > (q.entry fluxSchedQueueSize j).priority
      · refine ⟨m, by omega, if_pos hbetter, fun i hi => ?_, fun i hi => ?_⟩
        · rcases Nat.lt_succ_iff_lt_or_eq.1 hi with hi | rfl
          · exact UInt8.le_trans (hle i hi) (UInt8.le_of_lt hbetter)
          · exact UInt8.le_refl _
        · exact UInt8.lt_of_le_of_lt (hle i hi) hbetter
      · refine ⟨j, by omega, if_neg hbetter, fun i hi => ?_, hlt⟩
        rcases Nat.lt_succ_iff_lt_or_eq.1 hi with hi | rfl
        · exact hle i hi
        · exact UInt8.not_lt.1 hbetter
  obtain ⟨j, hj, hfold, hle, hlt⟩ := hscan q.count
  have hj : j < q.count := by omega
  have hentry (i : Nat) (hi : i < q.count) :
      (q.contents fluxSchedQueueSize)[i]? = some (q.entry fluxSchedQueueSize i) := by
    rw [List.getElem?_eq_getElem (by rwa [length_contents]), getElem_contents]
  refine ⟨j, q.entry fluxSchedQueueSize j, ⟨hentry j hj, fun x hx => ?_, fun x hx => ?_⟩, ?_, rfl⟩
  · obtain ⟨i, hi, rfl⟩ := List.mem_iff_getElem.1 hx
    rw [getElem_contents]
    exact hle i (by rwa [length_contents] at hi)
  · obtain ⟨i, hi, rfl⟩ := List.mem_iff_getElem.1 hx
    rw [List.getElem_take, getElem_contents]
    exact hlt i (by rw [List.length_take] at hi; omega)
  · rw [schedFindHighestPriority, hfold]

/-! ## The removal -/

theorem schedRemove_valid (hv : q.Valid fluxSchedQueueSize) (hpos : 0 < q.count) (best : Nat) :
    (schedRemove q best).Valid fluxSchedQueueSize := by
  unfold schedRemove
  split_ifs
  · exact hv.popHead hpos
  · exact hv.closeGap hpos

/-- The removal is right for an entry stored before the end of the array; for one past it the first entry
goes as well, and the slot at the tail comes in. -/
theorem contents_schedRemove (hv : q.Valid fluxSchedQueueSize) (hj : j < q.count) :
    (schedRemove q (q.index fluxSchedQueueSize j)).contents fluxSchedQueueSize =
      if j < fluxSchedQueueSize - q.head then (q.contents fluxSchedQueueSize).eraseIdx j
      else ((q.contents fluxSchedQueueSize).eraseIdx j ++ [q.slots q.tail]).tail := by
  have hhead := hv.head_lt
  have hcount := hv.count_le
  have hzero : q.index fluxSchedQueueSize 0 = q.head := Nat.mod_eq_of_lt hhead
  have hn : fluxSchedQueueSize = 256 := rfl
  have hindex : q.index fluxSchedQueueSize j =
      if q.head + j < fluxSchedQueueSize then q.head + j else q.head + j - fluxSchedQueueSize := by
    split_ifs with hlt
    · exact Nat.mod_eq_of_lt hlt
    · rw [index, Nat.mod_eq_sub_mod (by omega), Nat.mod_eq_of_lt (by omega)]
  have hmod : q.index fluxSchedQueueSize j % fluxSchedQueueSize = q.index fluxSchedQueueSize j :=
    Nat.mod_mod ..
  unfold schedRemove
  by_cases hj0 : j = 0
  · subst hj0
    rw [if_pos hzero, if_pos (by omega), contents_popHead, List.eraseIdx_zero]
  · rw [if_neg fun h => hj0 ((index_inj (by omega) (by omega)).1 (h.trans hzero.symm))]
    dsimp only
    by_cases hlt : j < fluxSchedQueueSize - q.head
    · rw [if_pos hlt]
      refine contents_closeGap hv hj ?_ hmod
      rw [hindex, if_pos (by omega)]
      omega
    · rw [if_neg hlt]
      have hmove : ((q.count : Int) - ((q.index fluxSchedQueueSize j : Int) - q.head + 1)).toNat =
          fluxSchedQueueSize + (q.count - 1 - j) := by
        rw [hindex, if_neg (by omega)]
        omega
      rw [hmove]
      exact contents_closeGap_round hv (by omega) (by omega) hmod

/-! ## Dequeuing -/

/-- `flux_sched_dequeue` returns the first entry of greatest priority and removes just this one. -/
def DequeueRefines (k : Kernel) : Prop :=
  ∃ j e, IsFirstMax k.agedReady j e ∧ k.fluxSchedDequeue.1 = e.pid ∧
    k.fluxSchedDequeue.2.ready = k.agedReady.eraseIdx j

/-- `flux_sched_dequeue` after the aging, on the ready queue. -/
theorem fluxSchedDequeue_queue (hpos : 0 < k.sched.readyQueue.count) :
    k.fluxSchedDequeue.1 = (k.agedQueue.slots (schedFindHighestPriority k.agedQueue)).pid ∧
      k.fluxSchedDequeue.2.sched.readyQueue =
        schedRemove k.agedQueue (schedFindHighestPriority k.agedQueue) := by
  unfold fluxSchedDequeue
  rw [if_neg (Nat.pos_iff_ne_zero.1 hpos)]
  dsimp only
  split <;> exact ⟨rfl, rfl⟩

/-- The entry that `flux_sched_dequeue` selects, and the ready queue that it leaves. -/
theorem fluxSchedDequeue_spec (hv : k.sched.readyQueue.Valid fluxSchedQueueSize)
    (hpos : 0 < k.sched.readyQueue.count) :
    ∃ j e, IsFirstMax k.agedReady j e ∧ k.fluxSchedDequeue.1 = e.pid ∧
      k.fluxSchedDequeue.2.sched.readyQueue.Valid fluxSchedQueueSize ∧
      k.fluxSchedDequeue.2.ready =
        if j < fluxSchedQueueSize - k.sched.readyQueue.head then k.agedReady.eraseIdx j
        else (k.agedReady.eraseIdx j ++ [k.agedQueue.slots k.sched.readyQueue.tail]).tail := by
  obtain ⟨hhead, htail, hcount⟩ := k.agedQueue_counters
  obtain ⟨hpid, hqueue⟩ := fluxSchedDequeue_queue hpos
  have hvalid := agedQueue_valid hv
  obtain ⟨j, e, hmax, hbest, hentry⟩ := schedFindHighestPriority_eq hvalid (hcount ▸ hpos)
  have hj : j < k.agedQueue.count := length_contents ▸ hmax.lt
  refine ⟨j, e, contents_agedQueue hv ▸ hmax, ?_, ?_, ?_⟩
  · rw [hpid, hbest, hentry]
  · rw [hqueue]
    exact schedRemove_valid hvalid (hcount ▸ hpos) _
  · rw [ready, hqueue, hbest, contents_schedRemove hvalid hj, hhead, htail, contents_agedQueue hv]

/-- The exact condition for a dequeue that is right: no entry past the end of the array has a priority
above those of all entries before it, or the damage does not show because the other entries are all
the same as the slot at the tail. -/
theorem fluxSchedDequeue_refines_iff (k : Kernel) (hv : k.sched.readyQueue.Valid fluxSchedQueueSize)
    (hpos : 0 < k.sched.readyQueue.count) :
    k.DequeueRefines ↔
      (∀ x ∈ k.agedReady.drop (fluxSchedQueueSize - k.sched.readyQueue.head),
        ∃ y ∈ k.agedReady.take (fluxSchedQueueSize - k.sched.readyQueue.head),
          x.priority ≤ y.priority) ∨
      ∀ j e, IsFirstMax k.agedReady j e →
        ∀ x ∈ k.agedReady.eraseIdx j, x = k.agedQueue.slots k.sched.readyQueue.tail := by
  obtain ⟨j, e, hmax, hpid, -, hready⟩ := fluxSchedDequeue_spec hv hpos
  have hright : k.DequeueRefines ↔ k.fluxSchedDequeue.2.ready = k.agedReady.eraseIdx j := by
    constructor
    · rintro ⟨j', e', hmax', -, hready'⟩
      rw [hready', (hmax.unique hmax').1]
    · exact fun h => ⟨j, e, hmax, hpid, h⟩
  rw [hright, hready]
  by_cases hj : j < fluxSchedQueueSize - k.sched.readyQueue.head
  · rw [if_pos hj]
    exact iff_of_true rfl (Or.inl (hmax.lt_iff.1 hj))
  · rw [if_neg hj, or_iff_right fun h => hj (hmax.lt_iff.2 h), tail_concat_eq_iff]
    constructor
    · rintro hall j' e' hmax'
      obtain ⟨rfl, rfl⟩ := hmax.unique hmax'
      exact hall
    · exact fun hall => hall j e hmax

/-- Process 3 was queued and dequeued until the head is at the last slot; now process 2 is queued there, and
process 3 after it, with a greater priority. -/
def wrappedQueue : RingBuffer SchedEntry where
  slots i := if i = 255 then ⟨2, 10, 0, 10, false⟩ else ⟨3, 20, 0, 10, false⟩
  head := 255
  tail := 1
  count := 2

def wrappedKernel : Kernel :=
  { bootKernel with sched := { bootKernel.sched with readyQueue := wrappedQueue } }

theorem wrappedKernel_valid : wrappedKernel.sched.readyQueue.Valid fluxSchedQueueSize :=
  ⟨by decide, by decide, by decide⟩

theorem wrappedKernel_agedReady :
    wrappedKernel.agedReady = [⟨2, 10, 0, 10, false⟩, ⟨3, 20, 0, 10, false⟩] := rfl

theorem wrappedKernel_first_max : IsFirstMax wrappedKernel.agedReady 1 ⟨3, 20, 0, 10, false⟩ := by
  rw [wrappedKernel_agedReady]
  exact ⟨rfl, by decide, by decide⟩

theorem fluxSchedDequeue_refines_iff_wrapped : wrappedKernel.DequeueRefines ↔
    (∀ x ∈ wrappedKernel.agedReady.drop 1, ∃ y ∈ wrappedKernel.agedReady.take 1,
      x.priority ≤ y.priority) ∨
    ∀ j e, IsFirstMax wrappedKernel.agedReady j e → ∀ x ∈ wrappedKernel.agedReady.eraseIdx j,
      x = wrappedKernel.agedQueue.slots wrappedKernel.sched.readyQueue.tail :=
  fluxSchedDequeue_refines_iff wrappedKernel wrappedKernel_valid (by decide)

/-- The dequeue selects process 3 and leaves it in the queue instead of process 2. -/
theorem wrappedKernel_ready : wrappedKernel.fluxSchedDequeue.2.ready = [⟨3, 20, 0, 10, false⟩] := by
  obtain ⟨j, e, hmax, -, -, hready⟩ := fluxSchedDequeue_spec wrappedKernel_valid (by decide)
  obtain ⟨rfl, -⟩ := hmax.unique wrappedKernel_first_max
  rw [hready, wrappedKernel_agedReady]
  rfl

theorem wrappedKernel_not_refines : wrappedKernel.sched.readyQueue.Valid fluxSchedQueueSize ∧
    0 < wrappedKernel.sched.readyQueue.count ∧ ¬wrappedKernel.DequeueRefines := by
  refine ⟨wrappedKernel_valid, by decide, ?_⟩
  rintro ⟨j, e, hmax, -, hready⟩
  obtain ⟨rfl, -⟩ := hmax.unique wrappedKernel_first_max
  rw [wrappedKernel_ready, wrappedKernel_agedReady] at hready
  exact absurd hready (by decide)

end Kernel

end FluxOs
