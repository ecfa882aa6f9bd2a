import FluxOs.Vm.MemoryEffects
import FluxOs.Vm.StepRules

/-!
# The cycle budget of `flux_vm_run`

The loop of `flux_vm_run` stops when the cycle counter of the VM has reached `max_cycles`.  Every
instruction adds one to the counter, except that `PROF_START` sets it to zero.  A run stays within its
budget exactly when none of the steps faults that it has cycles for, and it stops by itself or does not
execute `PROF_START` in time.
-/

namespace FluxOs

open Faulting

namespace FluxVm

variable {vm vm' : FluxVm} {i : FluxVmInsn} {v1 v2 : UInt64} {host : Host} {maxCycles : UInt64}

/-! ## The counter -/

/-- The next instruction is `PROF_START`. -/
def AtProfStart (vm : FluxVm) : Prop :=
  ∃ i, vm.nextInsn = some i ∧ opcodeOf i.opcode = .flux .PROF_START

theorem MemoryOutcome.keepsCounters {op : MemoryOp} (h : MemoryOutcome vm op v1 vm') :
    KeepsCounters vm vm' := by
  cases h <;> exact ⟨rfl, rfl, rfl, rfl⟩

theorem execFlux_keepsCounters (op : FluxOp) (hop : op ≠ .PROF_START) :
    Ensures (fun _ => True) (fun r => KeepsCounters vm r.2) (vm.execFlux host op i v1 v2) := by
  have hrefl : KeepsCounters vm vm := ⟨rfl, rfl, rfl, rfl⟩
  cases op
  case PROF_START => exact absurd rfl hop
  case TILE_LOAD | TILE_COMPOSE => exact setRd_ensures _ fun _ => ⟨rfl, rfl, rfl, rfl⟩
  case REGION_CREATE =>
    obtain ⟨regions, activeRegion, heap, h⟩ :=
      fluxVmRegionCreate_update vm host (some dyn) v1 false
    simp only [execFlux, h]
    exact setRd_ensures _ fun _ => ⟨rfl, rfl, rfl, rfl⟩
  case REGION_DESTROY =>
    have h : Ensures _ (fun r => KeepsCounters vm r.2)
        (vm.fluxVmRegionDestroy (v1 &&& 0xFF).toNat) :=
      fluxVmRegionDestroy_ensures fun _ _ _ _ => ⟨rfl, rfl, rfl, rfl⟩
    exact (ensures_bind ..).2 (h.mono (fun _ _ => trivial) fun _ h => h)
  case REGION_MAP =>
    simp only [execFlux]
    split_ifs
    · exact setRd_ensures _ fun _ => ⟨rfl, rfl, rfl, rfl⟩
    all_goals exact ⟨rfl, rfl, rfl, rfl⟩
  case GAS_INIT => exact (fluxVmGetReg_ensures fun _ => trivial).bind fun _ _ => ⟨rfl, rfl, rfl, rfl⟩
  case GAS_CHECK =>
    refine (fluxVmGetReg_ensures fun _ => trivial).bind fun _ _ => ?_
    split_ifs
    all_goals exact ⟨rfl, rfl, rfl, rfl⟩
  all_goals exact ⟨rfl, rfl, rfl, rfl⟩

theorem execute_keepsCounters (hop : opcodeOf i.opcode ≠ .flux .PROF_START) :
    Ensures (fun _ => True) (fun r => KeepsCounters vm r.2) (vm.execute host i v1 v2) := by
  unfold execute
  cases hcat : opcodeOf i.opcode with
  | system op => exact (execSystem_effect op).imp fun _ h => h.toKeepsCounters
  | arith op => exact (execArith_effect op).imp fun _ h => h.toKeepsCounters
  | logic op => exact (execLogic_effect op).imp fun _ h => h.toKeepsCounters
  | compare op => exact (execCompare_effect op).imp fun _ h => h.toKeepsCounters
  | branch op => exact (execBranch_effect op).imp fun _ h => h.toKeepsCounters
  | memory op => exact (execMemory_outcome op).imp fun _ h => h.keepsCounters
  | stack op => exact (execStack_effect op).imp fun _ h => h.toKeepsCounters
  | call op => exact (execCall_effect op).imp fun _ h => h.toKeepsCounters
  | agent op => exact (execAgent_effect op).imp fun _ h => h.toKeepsCounters
  | io op => exact (execIo_effect op).imp fun _ h => h.toKeepsCounters
  | flux op => exact execFlux_keepsCounters op fun h => hop (h ▸ hcat)
  | native op => exact (execNative_effect op).imp fun _ h => h.toKeepsCounters
  | unknown => exact ⟨rfl, rfl, rfl, rfl⟩

/-- No opcode changes the cycles of the last operation, not even `PROF_START`. -/
theorem execute_keepsLastOpCycles :
    Ensures (fun _ => True) (fun r => r.2.lastOpCycles = vm.lastOpCycles) (vm.execute host i v1 v2) := by
  by_cases hop : opcodeOf i.opcode = .flux .PROF_START
  · simp only [execute, hop]
    rfl
  · exact (execute_keepsCounters hop).imp fun _ h => h.lastOpCycles

theorem finish_lastOpCycles (r : Option FluxStatus × FluxVm) :
    (finish r).2.lastOpCycles = r.2.lastOpCycles := by
  rcases r with ⟨_ | status, vm'⟩ <;> rfl

/-- A step that returns early does so with an error and leaves the cycles of the last operation alone; every
other step takes one cycle. -/
theorem lastOpCycles_of_step {status : FluxStatus} (h : vm.fluxVmStep host = .ok (status, vm')) :
    (vm.stopped? ≠ none ∧ status = .errGeneral ∧ vm'.lastOpCycles = vm.lastOpCycles) ∨
      (vm.stopped? = none ∧ vm'.lastOpCycles = 1) := by
  have hstep : Ensures (fun _ => True) (fun r : FluxStatus × FluxVm =>
      (vm.stopped? ≠ none ∧ r.1 = .errGeneral ∧ r.2.lastOpCycles = vm.lastOpCycles) ∨
        (vm.stopped? = none ∧ r.2.lastOpCycles = 1)) (vm.fluxVmStep host) := by
    refine fluxVmStep_ensures (fun r hr => .inl ⟨by simp [hr], ?_⟩) (fun _ _ _ => trivial)
      (fun _ _ _ _ _ => trivial) (fun _ => trivial) fun i vm₁ hi hvm₁ => ?_
    · unfold stopped? at hr
      split_ifs at hr
      all_goals
        cases hr
        exact ⟨rfl, rfl⟩
    · obtain ⟨trace, traceIdx, heq⟩ := hvm₁.eq
      have hstop : vm.stopped? = none := by
        by_contra hne
        obtain ⟨r, hr⟩ := Option.ne_none_iff_exists'.1 hne
        simp [nextInsn, hr] at hi
      refine execute_keepsLastOpCycles.imp fun r hr => .inr ⟨hstop, ?_⟩
      rw [finish_lastOpCycles, hr, heq]
  exact hstep.of_ok h

/-- A step that returns `FLUX_OK` counts one cycle, or resets the count. -/
theorem cycleCount_of_step (h : vm.fluxVmStep host = .ok (.ok, vm')) :
    (¬ vm.AtProfStart ∧ vm'.cycleCount = vm.cycleCount + 1) ∨
      (vm.AtProfStart ∧ vm'.cycleCount = 0) := by
  have hstep : Ensures (fun _ => True) (fun r : FluxStatus × FluxVm => r.1 = .ok →
      (¬ vm.AtProfStart ∧ r.2.cycleCount = vm.cycleCount + 1) ∨
        (vm.AtProfStart ∧ r.2.cycleCount = 0)) (vm.fluxVmStep host) := by
    refine fluxVmStep_ensures (fun r hr hok => ?_) (fun _ _ _ => trivial)
      (fun _ _ _ _ _ => trivial) (fun _ => trivial) fun i vm₁ hi hvm₁ => ?_
    · unfold stopped? at hr
      split_ifs at hr
      all_goals
        cases hr
        cases hok
    · obtain ⟨trace, traceIdx, heq⟩ := hvm₁.eq
      have hcount : vm₁.cycleCount = vm.cycleCount + 1 := by rw [heq]
      have hat : vm.AtProfStart ↔ opcodeOf i.opcode = .flux .PROF_START :=
        ⟨fun ⟨j, hj, hop⟩ => by rw [hi, Option.some.injEq] at hj; rw [hj]; exact hop,
          fun hop => ⟨i, hi, hop⟩⟩
      have hfinish (r : Option FluxStatus × FluxVm) : (finish r).2.cycleCount = r.2.cycleCount := by
        rcases r with ⟨_ | status, vm'⟩ <;> rfl
      by_cases hop : opcodeOf i.opcode = .flux .PROF_START
      · simp only [execute, hop]
        exact fun _ => .inr ⟨hat.2 hop, rfl⟩
      · refine (execute_keepsCounters hop).imp fun r hr _ => .inl ⟨mt hat.1 hop, ?_⟩
        rw [hfinish, hr.cycleCount, hcount]
  exact hstep.of_ok h rfl

theorem toNat_succ {a b : UInt64} (h : a.toNat < b.toNat) : (a + 1).toNat = a.toNat + 1 := by
  have hb := b.toNat_lt
  rw [UInt64.toNat_add]
  exact Nat.mod_eq_of_lt (by simpa using by omega)

/-! ## Steps without a limit -/

/-- The state in which `flux_vm_run` without a limit begins its step `n + 1`, unless it has stopped or
faulted before. -/
def unlimited (host : Host) : Nat → FluxVm → Option FluxVm
  | 0, vm => if vm.state = .running then some vm else none
  | n + 1, vm =>
    if vm.state = .running then
      match vm.fluxVmStep host with
      | .ok (.ok, vm') => unlimited host n vm'
      | _ => none
    else none

/-- One of the first `n` instructions is `PROF_START`. -/
def ProfStartWithin (host : Host) (n : Nat) (vm : FluxVm) : Prop :=
  ∃ k < n, ∃ vm' ∈ unlimited host k vm, vm'.AtProfStart

/-- One of the first `n` steps faults. -/
def FaultsWithin (host : Host) (n : Nat) (vm : FluxVm) : Prop :=
  ∃ k < n, ∃ vm' ∈ unlimited host k vm, ∃ fault, vm'.fluxVmStep host = .error fault

theorem unlimited_succ (hrun : vm.state = .running) (h : vm.fluxVmStep host = .ok (.ok, vm'))
    (n : Nat) : unlimited host (n + 1) vm = unlimited host n vm' := by
  rw [unlimited, if_pos hrun, h]

theorem profStartWithin_succ (hrun : vm.state = .running)
    (h : vm.fluxVmStep host = .ok (.ok, vm')) (n : Nat) :
    ProfStartWithin host (n + 1) vm ↔ vm.AtProfStart ∨ ProfStartWithin host n vm' := by
  have h0 : unlimited host 0 vm = some vm := if_pos hrun
  constructor
  · rintro ⟨_ | k, hk, v, hv, hat⟩
    · rw [h0, Option.mem_some_iff] at hv
      exact .inl (hv ▸ hat)
    · rw [unlimited_succ hrun h] at hv
      exact .inr ⟨k, by omega, v, hv, hat⟩
  · rintro (hat | ⟨k, hk, v, hv, hat⟩)
    · exact ⟨0, by omega, vm, h0, hat⟩
    · exact ⟨k + 1, by omega, v, by rwa [unlimited_succ hrun h], hat⟩

theorem faultsWithin_of_error {fault : Fault} (hrun : vm.state = .running)
    (h : vm.fluxVmStep host = .error fault) (n : Nat) : FaultsWithin host (n + 1) vm :=
  ⟨0, by omega, vm, if_pos hrun, fault, h⟩

theorem faultsWithin_succ_of_rest (hrun : vm.state = .running)
    (h : vm.fluxVmStep host = .ok (.ok, vm')) {n : Nat} (hrest : FaultsWithin host n vm') :
    FaultsWithin host (n + 1) vm := by
  obtain ⟨k, hk, v, hv, hfault⟩ := hrest
  exact ⟨k + 1, by omega, v, by rwa [unlimited_succ hrun h], hfault⟩

/-! ## The loop -/

/-- A run without a fault in its next `n + 1` steps returns in time if, after a turn of the loop that goes
on, the rest of it does. -/
theorem runLoop_of_rest {n s fuel : Nat} (hfault : ¬ FaultsWithin host (n + 1) vm)
    (h : ∀ vm', vm.state = .running → ¬ (maxCycles > 0 ∧ vm.cycleCount ≥ maxCycles) →
      vm.fluxVmStep host = .ok (.ok, vm') →
        ∃ r m, runLoop host maxCycles fuel (s + 1) vm' = some (.ok r, m) ∧ m ≤ s + 1 + n) :
    ∃ r m, runLoop host maxCycles (fuel + 1) s vm = some (.ok r, m) ∧ m ≤ s + (n + 1) := by
  rw [runLoop]
  split_ifs with hrun hmax
  · exact ⟨_, s, rfl, by omega⟩
  · exact ⟨_, s, rfl, by omega⟩
  · rw [not_not] at hrun
    cases hstep : vm.fluxVmStep host with
    | error fault => exact absurd (faultsWithin_of_error hrun hstep n) hfault
    | ok r =>
      obtain ⟨rc, vm'⟩ := r
      simp only
      split_ifs with hrc
      · exact ⟨_, s + 1, rfl, by omega⟩
      · rw [not_not] at hrc
        subst hrc
        obtain ⟨r, m, hm, hle⟩ := h vm' hrun hmax hstep
        exact ⟨r, m, hm, by omega⟩

/-- Below the limit the loop goes on. -/
theorem not_limit (hlt : vm.cycleCount.toNat < maxCycles.toNat) :
    ¬ (maxCycles > 0 ∧ vm.cycleCount ≥ maxCycles) := by
  rintro ⟨-, hge⟩
  have := UInt64.le_iff_toNat_le.1 hge
  omega

/-- The run that stops by itself within `n` steps without a fault returns, whatever its limit is. -/
theorem runLoop_of_stops (maxCycles : UInt64) (n s : Nat) (hfault : ¬ FaultsWithin host n vm)
    (h : unlimited host n vm = none) :
    ∃ r m, runLoop host maxCycles (n + 1) s vm = some (.ok r, m) ∧ m ≤ s + n := by
  induction n generalizing vm s with
  | zero =>
    rw [unlimited] at h
    split_ifs at h with hrun
    exact ⟨_, s, by rw [runLoop, if_pos hrun], Nat.le_refl _⟩
  | succ n ih =>
    refine runLoop_of_rest hfault fun vm' hrun _ hstep => ?_
    refine ih (s + 1) (mt (faultsWithin_succ_of_rest hrun hstep) hfault) ?_
    rwa [unlimited_succ hrun hstep] at h

/-- The run returns within the `n` cycles that are left, when none of its first `n` instructions faults or
is `PROF_START`. -/
theorem runLoop_of_not_profStart (n s : Nat) (h0 : 0 < maxCycles)
    (hn : maxCycles.toNat ≤ vm.cycleCount.toNat + n) (hfault : ¬ FaultsWithin host n vm)
    (h : ¬ ProfStartWithin host n vm) :
    ∃ r m, runLoop host maxCycles (n + 1) s vm = some (.ok r, m) ∧ m ≤ s + n := by
  induction n generalizing vm s with
  | zero =>
    rw [runLoop]
    have hge : vm.cycleCount ≥ maxCycles := UInt64.le_iff_toNat_le.2 hn
    split_ifs with hrun hmax
    · exact ⟨_, s, rfl, Nat.le_refl _⟩
    · exact ⟨_, s, rfl, Nat.le_refl _⟩
    · exact absurd ⟨h0, hge⟩ hmax
  | succ n ih =>
    refine runLoop_of_rest hfault fun vm' hrun hmax hstep => ?_
    rw [profStartWithin_succ hrun hstep, not_or] at h
    obtain ⟨-, hcount⟩ := (cycleCount_of_step hstep).resolve_right fun h' => h.1 h'.1
    have hlt : vm.cycleCount.toNat < maxCycles.toNat := by
      rw [← UInt64.lt_iff_toNat_lt, ← UInt64.not_le]
      exact fun hle => hmax ⟨h0, hle⟩
    refine ih (s + 1) ?_ (mt (faultsWithin_succ_of_rest hrun hstep) hfault) h.2
    rw [hcount, toNat_succ hlt]
    omega

/-- A run that faults within the cycles that are left does not return: below the limit it takes every step up
to the one that faults, as `PROF_START` only lowers the counter. -/
theorem not_faultsWithin_of_runLoop {fuel s m : Nat} {r : FluxStatus × FluxVm} (n : Nat)
    (hn : vm.cycleCount.toNat + n ≤ maxCycles.toNat)
    (h : runLoop host maxCycles fuel s vm = some (.ok r, m)) : ¬ FaultsWithin host n vm := by
  induction n generalizing vm s fuel with
  | zero =>
    rintro ⟨k, hk, -⟩
    omega
  | succ n ih =>
    rintro ⟨k, hk, v, hv, fault, hfault⟩
    have hlt : vm.cycleCount.toNat < maxCycles.toNat := by omega
    have hrun : vm.state = .running := by
      by_contra hrun
      cases k <;> simp [unlimited, hrun] at hv
    cases fuel with
    | zero => cases h
    | succ fuel =>
      rw [runLoop, if_neg (not_not.2 hrun), if_neg (not_limit hlt)] at h
      cases k with
      | zero =>
        rw [unlimited, if_pos hrun, Option.mem_some_iff] at hv
        subst hv
        rw [hfault] at h
        cases h
      | succ k =>
        rw [unlimited, if_pos hrun] at hv
        split at hv
        · rename_i vm' hstep
          rw [hstep] at h
          have hn' : vm'.cycleCount.toNat + n ≤ maxCycles.toNat := by
            rcases cycleCount_of_step hstep with ⟨-, hcount⟩ | ⟨-, hcount⟩
            · rw [hcount, toNat_succ hlt]
              omega
            · rw [hcount]
              change 0 + n ≤ _
              omega
          exact ih hn' h ⟨k, by omega, v, hv, fault, hfault⟩
        · cases hv

theorem runLoop_steps_le {fuel s m : Nat} {r : Except Fault (FluxStatus × FluxVm)}
    (h : runLoop host maxCycles fuel s vm = some (r, m)) : s ≤ m := by
  induction fuel generalizing vm s with
  | zero => cases h
  | succ fuel ih =>
    rw [runLoop] at h
    split_ifs at h
    · cases h
      exact Nat.le_refl _
    · cases h
      exact Nat.le_refl _
    · split at h
      · cases h
        omega
      · split_ifs at h
        · cases h
          omega
        · have := ih h
          omega

/-- A run that has not stopped by itself after `n` steps and whose counter is still below the limit
begins another step.  The counter is behind because `n` cycles were left at least one of which was
taken back by `PROF_START`, or because more than `n` were left. -/
theorem runLoop_exceeds (n : Nat) {fuel s m : Nat} {r : Except Fault (FluxStatus × FluxVm)}
    (hstop : unlimited host n vm ≠ none)
    (hn : vm.cycleCount.toNat + n < maxCycles.toNat ∨
      vm.cycleCount.toNat + n = maxCycles.toNat ∧ ProfStartWithin host n vm)
    (h : runLoop host maxCycles fuel s vm = some (r, m)) : s + n < m := by
  induction n generalizing vm s fuel with
  | zero =>
    have hlt : vm.cycleCount.toNat < maxCycles.toNat := by
      refine hn.resolve_right ?_
      rintro ⟨-, k, hk, -⟩
      omega
    have hrun : vm.state = .running := by
      by_contra hrun
      exact hstop (if_neg hrun)
    cases fuel with
    | zero => cases h
    | succ fuel =>
      rw [runLoop, if_neg (not_not.2 hrun), if_neg (not_limit hlt)] at h
      split at h
      · cases h
        omega
      · split_ifs at h
        · cases h
          omega
        · have := runLoop_steps_le h
          omega
  | succ n ih =>
    have hle : vm.cycleCount.toNat + (n + 1) ≤ maxCycles.toNat := hn.elim (by omega) (by omega)
    have hrun : vm.state = .running := by
      by_contra hrun
      exact hstop (if_neg hrun)
    obtain ⟨vm', hstep⟩ : ∃ vm', vm.fluxVmStep host = .ok (.ok, vm') := by
      rw [unlimited, if_pos hrun] at hstop
      split at hstop
      · rename_i vm' hvm'
        exact ⟨vm', hvm'⟩
      · exact absurd rfl hstop
    cases fuel with
    | zero => cases h
    | succ fuel =>
      have hlt : vm.cycleCount.toNat < maxCycles.toNat := by omega
      rw [runLoop, if_neg (not_not.2 hrun), if_neg (not_limit hlt), hstep] at h
      rw [unlimited_succ hrun hstep] at hstop
      have hn' : vm'.cycleCount.toNat + n < maxCycles.toNat ∨
          vm'.cycleCount.toNat + n = maxCycles.toNat ∧ ProfStartWithin host n vm' := by
        rcases cycleCount_of_step hstep with ⟨hat, hcount⟩ | ⟨-, hcount⟩
        · rw [hcount, toNat_succ hlt]
          refine hn.imp (by omega) fun ⟨heq, hprof⟩ => ⟨by omega, ?_⟩
          exact ((profStartWithin_succ hrun hstep n).1 hprof).resolve_left hat
        · rw [hcount]
          left
          change 0 + n < _
          omega
      have := ih hstop hn' h
      omega

/-! ## The budget -/

/-- The cycles that are left of `maxCycles` when the run starts. -/
def cyclesLeft (vm : FluxVm) (maxCycles : UInt64) : Nat :=
  (maxCycles - min maxCycles vm.cycleCount).toNat

/-- `flux_vm_run` returns, without a fault, after at most as many steps as cycles are left. -/
def RunsWithinBudget (vm : FluxVm) (host : Host) (maxCycles : UInt64) : Prop :=
  ∃ fuel status vm' steps, vm.fluxVmRun host maxCycles fuel = some (.ok (status, vm'), steps) ∧
    steps ≤ vm.cyclesLeft maxCycles

theorem cyclesLeft_eq (vm : FluxVm) (maxCycles : UInt64) :
    vm.cyclesLeft maxCycles = maxCycles.toNat - vm.cycleCount.toNat := by
  unfold cyclesLeft
  by_cases h : maxCycles ≤ vm.cycleCount
  · have hmin : min maxCycles vm.cycleCount = maxCycles := if_pos h
    rw [hmin, UInt64.sub_self]
    have := UInt64.le_iff_toNat_le.1 h
    change 0 = _
    omega
  · have hmin : min maxCycles vm.cycleCount = vm.cycleCount := if_neg h
    have hle : vm.cycleCount ≤ maxCycles := UInt64.le_of_lt (UInt64.not_le.1 h)
    rw [hmin, UInt64.toNat_sub_of_le _ _ hle]

/-- A run stays within its budget exactly when none of the steps faults for which cycles are left, and the VM
stops by itself during them or does not execute `PROF_START`. -/
theorem runsWithinBudget_iff (vm : FluxVm) (host : Host) (maxCycles : UInt64) (h0 : 0 < maxCycles) :
    let start : FluxVm := { vm with state := .running }
    let left := vm.cyclesLeft maxCycles
    vm.RunsWithinBudget host maxCycles ↔
      ¬ FaultsWithin host left start ∧
        (unlimited host left start = none ∨ ¬ ProfStartWithin host left start) := by
  intro start left
  have hleft : left = maxCycles.toNat - start.cycleCount.toNat := cyclesLeft_eq vm maxCycles
  constructor
  · rintro ⟨fuel, status, vm', steps, hrun, hle⟩
    have hfault : ¬ FaultsWithin host left start := by
      intro hfault
      have hpos : 0 < left := by
        obtain ⟨k, hk, -⟩ := hfault
        omega
      have hle : start.cycleCount.toNat + left ≤ maxCycles.toNat := by omega
      exact not_faultsWithin_of_runLoop left hle hrun hfault
    refine ⟨hfault, ?_⟩
    by_contra hcon
    rw [not_or, not_not] at hcon
    obtain ⟨hstop, hprof⟩ := hcon
    have hpos : 0 < left := by
      obtain ⟨k, hk, -⟩ := hprof
      omega
    have := runLoop_exceeds left hstop (.inr ⟨by omega, hprof⟩) hrun
    omega
  · rintro ⟨hfault, hstop | hprof⟩
    · obtain ⟨⟨status, vm'⟩, m, hm, hle⟩ := runLoop_of_stops maxCycles left 0 hfault hstop
      exact ⟨left + 1, status, vm', m, hm, by omega⟩
    · obtain ⟨⟨status, vm'⟩, m, hm, hle⟩ := runLoop_of_not_profStart left 0 h0 (by omega) hfault hprof
      exact ⟨left + 1, status, vm', m, hm, by omega⟩

/-- A jump to itself stops at a limit of two cycles. -/
theorem runsWithinBudget_jump : (boot [0x40, 0, 0, 0]).RunsWithinBudget plentifulHost 2 := by
  refine (runsWithinBudget_iff (boot [0x40, 0, 0, 0]) plentifulHost 2 (by decide)).2 ⟨?_, .inr ?_⟩
  · rintro ⟨_ | _ | k, hk, v, hv, fault, hfault⟩
    · cases hv
      cases hfault
    · cases hv
      cases hfault
    · exact absurd hk (by change ¬ k + 2 < 2; omega)
  · rintro ⟨_ | _ | k, hk, v, hv, i, hi, hop⟩
    · cases hv
      cases hi
      cases hop
    · cases hv
      cases hi
      cases hop
    · exact absurd hk (by change ¬ k + 2 < 2; omega)

/-- `PROF_START` and a jump back to it run for ever on a budget of two cycles. -/
theorem profStart_exceeds :
    ¬ (boot [0xAC, 0, 0, 0, 0x40, 0, 0, 0]).RunsWithinBudget plentifulHost 2 := by
  rintro ⟨fuel, status, vm', steps, hrun, hle⟩
  have hprof : ProfStartWithin plentifulHost 2
      { boot [0xAC, 0, 0, 0, 0x40, 0, 0, 0] with state := .running } :=
    ⟨0, by decide, _, rfl, _, rfl, rfl⟩
  have hlt := runLoop_exceeds 2 (Option.isSome_iff_ne_none.1 rfl) (.inr ⟨rfl, hprof⟩) hrun
  have hleft : (boot [0xAC, 0, 0, 0, 0x40, 0, 0, 0]).cyclesLeft 2 = 2 := rfl
  omega

end FluxVm

end FluxOs
