import FluxOs.Kernel.QueueRuns

/-!
# Ticks

The kernel counts its ticks in 32 bits and measures a time as the 64-bit difference of two counter values.  That
is at most the time that has passed if the later value is not the smaller one, and close to `2 ^ 64` otherwise.
-/

namespace FluxOs

open Rings Actions

namespace Kernel

variable {k : Kernel} {e e' : SchedEntry} {r : Receive} {j n : Nat} {now start : UInt64} {p : UInt8}

/-! ## The time that has passed -/

/-- The counter showed `start` before its last `n` ticks. -/
def Showed (k : Kernel) (start : UInt64) (n : Nat) : Prop :=
  ∃ tick : UInt32, start = tick.toUInt64 ∧ k.ks.tickCount = tick + UInt32.ofNat n

theorem Showed.toNat (h : k.Showed start n) : start.toNat < UInt32.size ∧
    k.schedCurrentTick.toNat = (start.toNat + n) % UInt32.size := by
  obtain ⟨tick, rfl, hcount⟩ := h
  rw [UInt32.toNat_toUInt64, schedCurrentTick, UInt32.toNat_toUInt64, hcount, UInt32.toNat_add,
    UInt32.toNat_ofNat']
  refine ⟨tick.toNat_lt, ?_⟩
  exact Nat.add_mod_mod ..

/-- Without a wrap between, the difference is not more than the time. -/
theorem Showed.sub_le (h : k.Showed start n) (hle : start ≤ k.schedCurrentTick) :
    (k.schedCurrentTick - start).toNat ≤ n := by
  obtain ⟨-, hnow⟩ := h.toNat
  have hmod := Nat.mod_le (start.toNat + n) UInt32.size
  rw [UInt64.toNat_sub_of_le _ _ hle]
  omega

theorem sub_of_lt (h : now < start) : (now - start).toNat = UInt64.size + now.toNat - start.toNat := by
  have hlt := UInt64.lt_iff_toNat_lt.1 h
  have hstart := start.toNat_lt
  rw [UInt64.toNat_sub]
  have hsize : UInt64.size = 18446744073709551616 := rfl
  omega

/-! ## Aging -/

/-- A boost is more than nothing and stops at 200. -/
theorem boostedPriority_bounds (hp : p < fluxSchedMaxPriorityBoost) :
    p < boostedPriority p ∧ boostedPriority p ≤ fluxSchedMaxPriorityBoost := by
  have hp : p.toNat < 200 := UInt8.lt_iff_toNat_lt.1 hp
  have hadd : (p + fluxSchedPriorityBoostAmount).toNat = p.toNat + 10 := by
    rw [UInt8.toNat_add, show fluxSchedPriorityBoostAmount.toNat = 10 from rfl]
    omega
  unfold boostedPriority
  dsimp only
  split_ifs with hmax
  · exact ⟨UInt8.lt_iff_toNat_lt.2 hp, UInt8.le_refl _⟩
  · refine ⟨?_, UInt8.not_lt.1 hmax⟩
    rw [UInt8.lt_iff_toNat_lt, hadd]
    omega

theorem starves_iff : starves now e = true ↔
    fluxSchedPriorityBoostInterval < now - e.waitStart ∧ e.priority < fluxSchedMaxPriorityBoost := by
  unfold starves
  rw [Bool.and_eq_true, decide_eq_true_iff, decide_eq_true_iff]

/-- The priority is not lowered, and not raised above the greater one of itself and 200. -/
def RaisedWithin (p p' : UInt8) : Prop :=
  p.toNat ≤ p'.toNat ∧ p'.toNat ≤ max p.toNat fluxSchedMaxPriorityBoost.toNat

theorem RaisedWithin.refl (p : UInt8) : RaisedWithin p p := ⟨Nat.le_refl _, Nat.le_max_left ..⟩

theorem RaisedWithin.trans {p' p'' : UInt8} (h : RaisedWithin p p') (h' : RaisedWithin p' p'') :
    RaisedWithin p p'' := by
  obtain ⟨h₁, h₂⟩ := h
  obtain ⟨h₁', h₂'⟩ := h'
  constructor
  · omega
  · omega

theorem agedEntry_bounds (now : UInt64) (e : SchedEntry) : RaisedWithin e.priority (agedEntry now e).priority := by
  unfold agedEntry
  split_ifs with hstarves
  · obtain ⟨hlt, hle⟩ := boostedPriority_bounds (starves_iff.1 hstarves).2
    rw [UInt8.lt_iff_toNat_lt] at hlt
    rw [UInt8.le_iff_toNat_le] at hle
    exact ⟨Nat.le_of_lt hlt, Nat.le_trans hle (Nat.le_max_right ..)⟩
  · exact .refl _

/-- The entry is one that the next aging would raise if it had waited long enough. -/
def BoostDue (k : Kernel) (e : SchedEntry) : Prop := k.AgingDue ∧ e.priority < fluxSchedMaxPriorityBoost

/-- The entries stay in their places. -/
theorem ready_aged (hv : k.ReadyValid) : k.schedAgePriorities.ready =
    if k.AgingDue then k.ready.map (agedEntry k.schedCurrentTick) else k.ready := contents_agedQueue hv

theorem aged_at (hv : k.ReadyValid) (he : k.ready[j]? = some e) (he' : k.schedAgePriorities.ready[j]? = some e') :
    (e' = e ∨ e' = agedEntry k.schedCurrentTick e) ∧ (e.priority < e'.priority ↔
      k.BoostDue e ∧ fluxSchedPriorityBoostInterval < k.schedCurrentTick - e.waitStart) := by
  rw [ready_aged hv] at he'
  by_cases hdue : k.AgingDue
  · rw [if_pos hdue, List.getElem?_map, he] at he'
    cases he'
    refine ⟨.inr rfl, ?_⟩
    unfold agedEntry
    by_cases hstarves : starves k.schedCurrentTick e = true
    · obtain ⟨hwait, hlow⟩ := starves_iff.1 hstarves
      rw [if_pos hstarves]
      exact iff_of_true (boostedPriority_bounds hlow).1 ⟨⟨hdue, hlow⟩, hwait⟩
    · rw [if_neg hstarves]
      refine iff_of_false (UInt8.lt_irrefl _) fun hall => hstarves (starves_iff.2 ⟨hall.2, hall.1.2⟩)
  · rw [if_neg hdue, he] at he'
    cases he'
    exact ⟨.inl rfl, iff_of_false (UInt8.lt_irrefl _) fun hall => hdue hall.1.1⟩

/-- The entry number `j` is raised only after more than a boost interval. -/
def RaisedLate (k : Kernel) (j n : Nat) : Prop :=
  ∀ e e', k.ready[j]? = some e → k.schedAgePriorities.ready[j]? = some e' → e.priority < e'.priority →
    fluxSchedPriorityBoostInterval.toNat < n

/-- The counter has not wrapped since the entry was queued, or enough time has passed all the same, or the entry is
not to be raised. -/
def MayAge (k : Kernel) (e : SchedEntry) (n : Nat) : Prop :=
  e.waitStart ≤ k.schedCurrentTick ∨ fluxSchedPriorityBoostInterval.toNat < n ∨ ¬k.BoostDue e

theorem raisedLate_iff (hv : k.ReadyValid) (he : k.ready[j]? = some e) (hn : k.Showed e.waitStart n) :
    k.RaisedLate j n ↔ k.MayAge e n := by
  have hlength : k.schedAgePriorities.ready.length = k.ready.length := by
    rw [ready_aged hv]
    split_ifs
    · exact List.length_map ..
    · rfl
  have hj : j < k.schedAgePriorities.ready.length := hlength ▸ (List.getElem?_eq_some_iff.1 he).1
  obtain ⟨e', he'⟩ : ∃ e', k.schedAgePriorities.ready[j]? = some e' := ⟨_, List.getElem?_eq_getElem hj⟩
  have hraised : k.RaisedLate j n ↔ (e.priority < e'.priority → fluxSchedPriorityBoostInterval.toNat < n) := by
    constructor
    · exact fun hall => hall e e' he he'
    · intro hone e₁ e₁' he₁ he₁'
      rw [he] at he₁
      rw [he'] at he₁'
      cases he₁
      cases he₁'
      exact hone
  rw [hraised, (aged_at hv he he').2, UInt64.lt_iff_toNat_lt]
  constructor
  · intro hsound
    by_cases hwrap : e.waitStart ≤ k.schedCurrentTick
    · exact .inl hwrap
    by_cases hdue : k.BoostDue e
    · refine .inr (.inl (hsound ⟨hdue, ?_⟩))
      -- the difference is almost `2 ^ 64`
      rw [sub_of_lt (UInt64.not_le.1 hwrap)]
      have hstart : e.waitStart.toNat < 4294967296 := hn.toNat.1
      have hsize : UInt64.size = 18446744073709551616 := rfl
      have hinterval : fluxSchedPriorityBoostInterval.toNat = 1000 := rfl
      omega
    · exact .inr (.inr hdue)
  · rintro (hle | hlong | hdue) ⟨hdue', hwait⟩
    · exact Nat.lt_of_lt_of_le hwait (hn.sub_le hle)
    · exact hlong
    · exact absurd hdue' hdue

/-! ## Receives -/

/-- The receive gives up only after its timeout. -/
def ExpiresLate (k : Kernel) (r : Receive) (n : Nat) : Prop :=
  (k.recvPoll r).1 = .done .errTimeout none → r.timeout.toNat ≤ n

/-- The counter has not wrapped since the receive started, or enough time has passed all the same, or there is no
timeout, or one that exceeds even the difference. -/
def MayExpire (k : Kernel) (r : Receive) (n : Nat) : Prop :=
  r.start ≤ k.schedCurrentTick ∨ r.timeout.toNat ≤ n ∨ r.timeout = fluxIpcTimeoutInfinite ∨
    UInt64.size + k.schedCurrentTick.toNat < r.timeout.toNat + r.start.toNat

theorem expiresLate_iff (hn : k.Showed r.start n) : k.ExpiresLate r n ↔ k.MayExpire r n := by
  have hexpired : (k.recvPoll r).1 = .done .errTimeout none ↔ k.Expired r := by
    rcases recvPoll_cases k r with ⟨hexp, h⟩ | ⟨hexp, ⟨m, -, h⟩ | ⟨-, h⟩⟩
    · rw [h]
      exact iff_of_true rfl hexp
    · rw [h]
      exact iff_of_false (fun heq => by cases heq) hexp
    · rw [h]
      exact iff_of_false RecvOutcome.noConfusion hexp
  rw [ExpiresLate, hexpired, Expired, ge_iff_le, UInt64.le_iff_toNat_le]
  constructor
  · intro hsound
    by_cases hwrap : r.start ≤ k.schedCurrentTick
    · exact .inl hwrap
    by_cases hinfinite : r.timeout = fluxIpcTimeoutInfinite
    · exact .inr (.inr (.inl hinfinite))
    rw [sub_of_lt (UInt64.not_le.1 hwrap)] at hsound
    have hlt := UInt64.lt_iff_toNat_lt.1 (UInt64.not_le.1 hwrap)
    by_cases hbeyond : r.timeout.toNat ≤ UInt64.size + k.schedCurrentTick.toNat - r.start.toNat
    · exact .inr (.inl (hsound ⟨hinfinite, hbeyond⟩))
    · refine .inr (.inr (.inr ?_))
      have := r.start.toNat_lt
      have hsize : UInt64.size = 18446744073709551616 := rfl
      omega
  · rintro hor ⟨hfinite, hreached⟩
    by_cases hwrap : r.start ≤ k.schedCurrentTick
    · exact Nat.le_trans hreached (hn.sub_le hwrap)
    rcases (hor.resolve_left hwrap) with hlong | hinfinite | hbeyond
    · exact hlong
    · exact absurd hinfinite hfinite
    · rw [sub_of_lt (UInt64.not_le.1 hwrap)] at hreached
      omega

/-! ## Repeated aging -/

/-- Aging when the counter shows `tick`. -/
def ageAt (k : Kernel) (tick : UInt32) : Kernel :=
  { k with ks := { k.ks with tickCount := tick } }.schedAgePriorities

theorem ageAt_entry (tick : UInt32) (hv : k.ReadyValid) (he : k.ready[j]? = some e) :
    ∃ e', (k.ageAt tick).ready[j]? = some e' ∧ e'.pid = e.pid ∧ RaisedWithin e.priority e'.priority := by
  have hready : (k.ageAt tick).ready = if AgingDue { k with ks := { k.ks with tickCount := tick } } then
      k.ready.map (agedEntry tick.toUInt64) else k.ready :=
    ready_aged (k := { k with ks := { k.ks with tickCount := tick } }) hv
  rw [hready]
  split_ifs
  · refine ⟨agedEntry tick.toUInt64 e, ?_, ?_, agedEntry_bounds _ e⟩
    · rw [List.getElem?_map, he]
      rfl
    · unfold agedEntry
      split_ifs <;> rfl
  · exact ⟨e, he, rfl, .refl _⟩

/-- Any number of agings keeps every entry in its place and its priority within bounds. -/
theorem foldl_ageAt_bounds (ticks : List UInt32) (hv : k.ReadyValid) (he : k.ready[j]? = some e) :
    ∃ e', (ticks.foldl ageAt k).ready[j]? = some e' ∧ e'.pid = e.pid ∧ RaisedWithin e.priority e'.priority := by
  induction ticks generalizing k e with
  | nil => exact ⟨e, he, rfl, .refl _⟩
  | cons tick ticks ih =>
    have hv' : (k.ageAt tick).ReadyValid :=
      agedQueue_valid (k := { k with ks := { k.ks with tickCount := tick } }) hv
    obtain ⟨e₁, he₁, hpid₁, hraised₁⟩ := ageAt_entry tick hv he
    obtain ⟨e', he', hpid', hraised'⟩ := ih hv' he₁
    exact ⟨e', he', hpid'.trans hpid₁, hraised₁.trans hraised'⟩

/-! ## Runs -/

theorem tickCount_spawn {entry stackSize : UInt64} {isAgent : Bool} {r : UInt32 × Kernel}
    (hr : k.fluxSpawn entry stackSize isAgent = some r) : r.2.ks.tickCount = k.ks.tickCount := by
  rcases kernel_of_spawn hr with h | ⟨n, heap, h⟩ | ⟨n, heap, top, pid, i, -, -, h⟩
  · rw [h]
  · rw [h]
    rfl
  · rw [h]
    exact (base_enqueue pid).tickCount

end Kernel

namespace System

variable {s s₀ : System} {a : Action} {as : List Action}

/-- Only an iteration of the scheduler is a tick. -/
theorem step_tick (ht : s₀.step a = some s) :
    s.kernel.ks.tickCount = s₀.kernel.ks.tickCount + if a = .schedule then 1 else 0 := by
  have hsame (ha : a ≠ .schedule) (hbase : s.kernel.ks.tickCount = s₀.kernel.ks.tickCount) :
      s.kernel.ks.tickCount = s₀.kernel.ks.tickCount + if a = .schedule then 1 else 0 := by
    rw [if_neg ha, hbase]
    exact (UInt32.add_zero _).symm
  cases a with
  | spawn entry stackSize isAgent =>
    obtain ⟨r, hr, rfl⟩ := Option.map_eq_some_iff.1 ht
    exact hsame Action.noConfusion (Kernel.tickCount_spawn hr)
  | exit =>
    obtain ⟨r, hr, rfl⟩ := Option.map_eq_some_iff.1 ht
    exact hsame Action.noConfusion (Kernel.base_exit hr).tickCount
  | kill pid =>
    cases ht
    exact hsame Action.noConfusion (Kernel.base_kill pid).tickCount
  | yield =>
    cases ht
    exact hsame Action.noConfusion Kernel.base_yield.tickCount
  | wait target =>
    cases ht
    exact hsame Action.noConfusion (Kernel.base_wait target).tickCount
  | send target msg =>
    cases ht
    exact hsame Action.noConfusion (Kernel.base_send target msg).tickCount
  | recv filter len timeout =>
    cases ht
    exact hsame Action.noConfusion (Kernel.base_recv filter len timeout).tickCount
  | poll r =>
    obtain ⟨-, rfl⟩ := step_poll_eq_some.1 ht
    exact hsame Action.noConfusion (Kernel.base_poll r).tickCount
  | broadcast msg =>
    cases ht
    exact hsame Action.noConfusion (Kernel.base_broadcast msg).tickCount
  | enqueue pid =>
    cases ht
    exact hsame Action.noConfusion (Kernel.base_enqueue pid).tickCount
  | dequeue =>
    cases ht
    exact hsame Action.noConfusion Kernel.base_dequeue.tickCount
  | schedule =>
    cases ht
    rw [if_pos rfl]
    exact Kernel.base_iteration.tickCount
  | alloc size type =>
    obtain ⟨r, -, rfl⟩ := Option.map_eq_some_iff.1 ht
    exact hsame Action.noConfusion rfl
  | free p =>
    obtain ⟨r, -, rfl⟩ := Option.map_eq_some_iff.1 ht
    exact hsame Action.noConfusion rfl

/-- The counter after a run shows the ticks of the run. -/
theorem showed_of_execute (hrun : execute step as s₀ = some s) :
    s.kernel.Showed s₀.kernel.schedCurrentTick (as.count .schedule) := by
  refine ⟨s₀.kernel.ks.tickCount, rfl, ?_⟩
  induction as generalizing s₀ with
  | nil =>
    cases hrun
    exact (UInt32.add_zero _).symm
  | cons a as ih =>
    obtain ⟨t, ht, hrest⟩ := Option.bind_eq_some_iff.1 hrun
    rw [ih hrest, step_tick ht, List.count_cons, UInt32.ofNat_add, UInt32.add_assoc, UInt32.add_comm (.ofNat _)]
    by_cases ha : a = .schedule
    · rw [if_pos ha, if_pos (by rw [ha]; exact beq_self_eq_true _)]
      rfl
    · rw [if_neg ha, if_neg (by simpa using ha)]
      rfl

theorem readyValid_of_execute (hv : s₀.kernel.ReadyValid) (hrun : execute step as s₀ = some s) :
    s.kernel.ReadyValid :=
  Reaches.invariant (I := fun s => s.kernel.ReadyValid) (reaches_of_execute hrun)
    (fun _ _ _ _ h ht => h.step ht) hv

end System

open Kernel in
/-- Let `s` follow `s₀` with any actions between.  Aging and receives are right about the time that has passed since
`s₀` if and only if the counter shows no less than then, or the time is long enough all the same, or nothing is to
be raised or given up.  Repeated aging keeps all priorities within bounds. -/
theorem ticks_wrapSafe_iff {s s₀ : System} {as : List Action} (hv : s₀.kernel.ReadyValid)
    (hrun : execute System.step as s₀ = some s) :
    (∀ (j : Nat) (e : SchedEntry), s.kernel.ready[j]? = some e → e.waitStart = s₀.kernel.schedCurrentTick →
      (s.kernel.RaisedLate j (as.count .schedule) ↔ s.kernel.MayAge e (as.count .schedule))) ∧
    (∀ r : Receive, r.start = s₀.kernel.schedCurrentTick →
      (s.kernel.ExpiresLate r (as.count .schedule) ↔ s.kernel.MayExpire r (as.count .schedule))) ∧
    ∀ (ticks : List UInt32) (j : Nat) (e : SchedEntry), s.kernel.ready[j]? = some e →
      ∃ e' : SchedEntry, (ticks.foldl ageAt s.kernel).ready[j]? = some e' ∧ e'.pid = e.pid ∧
        RaisedWithin e.priority e'.priority := by
  have hv := System.readyValid_of_execute hv hrun
  have hshowed := System.showed_of_execute hrun
  refine ⟨fun j e he hstart => ?_, fun r hstart => ?_, fun ticks j e he => ?_⟩
  · exact raisedLate_iff hv he (hstart ▸ hshowed)
  · exact expiresLate_iff (hstart ▸ hshowed)
  · exact foldl_ageAt_bounds ticks hv he

open Kernel in
/-- Of two processes that are spawned at once, process 3 still waits one tick later. -/
theorem ticks_wrapSafe_iff_spawned :
    ∃ s e, execute System.step [.spawn 0 0 false, .spawn 0 0 false, .schedule] bootSystem =
    some s ∧ s.kernel.ready[0]? = some e ∧ e.pid = 3 ∧ s.kernel.RaisedLate 0 1 ∧
      ∀ ticks : List UInt32, ∃ e' : SchedEntry, (ticks.foldl ageAt s.kernel).ready[0]? = some e' ∧ e'.pid = 3 ∧
        RaisedWithin e.priority e'.priority := by
  have hrun : (execute System.step [.spawn 0 0 false, .spawn 0 0 false, .schedule] bootSystem).map (fun s =>
      s.kernel.ready.map fun e => (e.pid, decide (e.waitStart = bootKernel.schedCurrentTick))) =
      some [(3, true)] := by decide +kernel
  obtain ⟨s, hs, hready⟩ := Option.map_eq_some_iff.1 hrun
  obtain ⟨e, he, hfacts⟩ := List.map_eq_singleton_iff.1 hready
  obtain ⟨hpid, hwait⟩ := Prod.mk.inj hfacts
  have hwait : e.waitStart = bootKernel.schedCurrentTick := of_decide_eq_true hwait
  have hentry : s.kernel.ready[0]? = some e := by rw [he]; rfl
  have hvalid : bootSystem.kernel.ReadyValid := ⟨by decide, by decide, by decide⟩
  obtain ⟨hraised, -, haged⟩ := ticks_wrapSafe_iff hvalid hs
  refine ⟨s, e, hs, hentry, hpid, (hraised 0 e hentry hwait).2 (.inl ?_), fun ticks => hpid ▸ haged ticks 0 e hentry⟩
  rw [hwait]
  exact UInt64.zero_le

/-- Process 2 was queued at the last tick before the counter wraps, and the next aging is due. -/
def wrapSystem : System :=
  ⟨{ bootKernel with
      sched := { bootKernel.sched with
        readyQueue := ⟨fun _ => ⟨2, 128, 0xFFFFFFFF, 10, false⟩, 0, 1, 1⟩
        currentTimeslice := 5
        boostTimer := 999 }
      ks := { bootKernel.ks with tickCount := 0xFFFFFFFF } }, []⟩

/-- One tick later the entry is raised, and a receive with a timeout of 1000 ticks gives up. -/
theorem wrapSystem_not_wrapSafe : wrapSystem.kernel.ReadyValid ∧ wrapSystem.kernel.schedCurrentTick = 0xFFFFFFFF ∧
    ∃ s, execute System.step [.schedule] wrapSystem = some s ∧
      s.kernel.ready = [⟨2, 128, 0xFFFFFFFF, 10, false⟩] ∧ ¬s.kernel.RaisedLate 0 1 ∧
      ¬s.kernel.ExpiresLate ⟨2, 1, none, 0, 64, 1000, 0xFFFFFFFF⟩ 1 := by
  refine ⟨⟨by decide, by decide, by decide⟩, rfl, _, rfl, by decide +kernel, fun hlate => ?_, fun hlate => ?_⟩
  · have := hlate ⟨2, 128, 0xFFFFFFFF, 10, false⟩ ⟨2, 138, 0xFFFFFFFF, 10, false⟩
      (by decide +kernel) (by decide +kernel) (by decide)
    exact absurd this (by decide)
  · exact absurd (hlate (by decide +kernel)) (by decide)

end FluxOs
