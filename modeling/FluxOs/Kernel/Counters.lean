import FluxOs.Kernel.Pids
import FluxOs.Lib.Tallies

/-!
# The process counters

`flux_spawn` counts a new process and `proc_cleanup` counts it out, but `flux_proc_set_state` can also empty a
slot, and does not count.  The counters are right as long as it is not used for that.
-/

namespace FluxOs

open Actions Tallies

/-- The slot is not UNUSED. -/
def Pcb.Live (p : Pcb) : Prop := p.state ≠ .unused

def Pcb.LiveAgent (p : Pcb) : Prop := p.state ≠ .unused ∧ p.isAgent = true

instance : DecidablePred Pcb.Live := fun _ => inferInstanceAs (Decidable (¬_))

instance : DecidablePred Pcb.LiveAgent := fun _ => inferInstanceAs (Decidable (_ ∧ _))

/-- A call on the processes, or an iteration of the scheduler, which makes another process the current one. -/
inductive ProcCall
  | spawn (entry stackSize : UInt64) (isAgent : Bool)
  | exit
  | kill (pid : UInt32)
  | setState (pid : UInt32) (newState : ProcState)
  | schedule

namespace ProcCall

/-- One call.  It is not possible if the code faults or panics there. -/
def step : ProcCall → Kernel → Option Kernel
  | .spawn entry stackSize isAgent, k => (k.fluxSpawn entry stackSize isAgent).map Prod.snd
  | .exit, k => k.fluxExit.map Prod.snd
  | .kill pid, k => some (k.fluxKill pid).2
  | .setState pid newState, k => some { k with procs := (k.procs.fluxProcSetState pid newState).2 }
  | .schedule, k => some k.schedIteration

/-- The slot that the call cleans up. -/
def cleans : ProcCall → Kernel → Option Slot
  | .exit, k => if k.ks.currentPid = fluxPidKernel then none else k.procs.usedSlot k.ks.currentPid
  | .kill pid, k => if pid = fluxPidKernel then none else k.procs.usedSlot pid
  | _, _ => none

/-- No counter is decremented at 0. -/
def NoWrap (c : ProcCall) (k : Kernel) : Prop := ∀ i, c.cleans k = some i →
  k.procs.activeCount ≠ 0 ∧ ((k.pcb i).isAgent = true → k.procs.agentCount ≠ 0)

/-- No process is set to UNUSED. -/
def KeepsSlots (c : ProcCall) (k : Kernel) : Prop :=
  ∀ pid, c = .setState pid .unused → k.procs.usedSlot pid = none

end ProcCall

namespace Kernel

/-- The counters show how many processes and agents there are. -/
structure Counted (k : Kernel) : Prop where
  active : k.procs.activeCount.toNat = tally Pcb.Live k.procs.pcb
  agents : k.procs.agentCount.toNat = tally Pcb.LiveAgent k.procs.pcb
  processes : k.ks.numProcesses = k.procs.activeCount

/-- The counters that the scheduler does not touch. -/
structure SameCounters (k k' : Kernel) : Prop where
  agentCount : k'.procs.agentCount = k.procs.agentCount
  numProcesses : k'.ks.numProcesses = k.ks.numProcesses

variable {k k' k'' : Kernel} {i : Slot} {pid : UInt32} {p : Pcb} {f : Pcb → Pcb}

/-! ## The scheduler -/

theorem SameCounters.trans (h : SameCounters k k') (h' : SameCounters k' k'') : SameCounters k k'' :=
  ⟨h'.agentCount.trans h.agentCount, h'.numProcesses.trans h.numProcesses⟩

theorem sameCounters_enqueue (k : Kernel) (pid : UInt32) : SameCounters k (k.fluxSchedEnqueue pid).2 := by
  rcases fluxSchedEnqueue_cases k pid with ⟨h, -⟩ | ⟨i, -, -, -, h⟩
  · rw [h]
    exact ⟨rfl, rfl⟩
  · rw [h]
    exact ⟨rfl, rfl⟩

theorem sameCounters_dequeue (k : Kernel) : SameCounters k k.fluxSchedDequeue.2 := by
  obtain ⟨pri, sched, -, h⟩ := exists_dispatched k
  rw [h]
  exact ⟨rfl, rfl⟩

theorem sameCounters_requeueCurrent (k : Kernel) : SameCounters k k.requeueCurrent := by
  unfold requeueCurrent
  split_ifs
  · split
    · split_ifs
      · exact sameCounters_enqueue ..
      · exact ⟨rfl, rfl⟩
    · exact ⟨rfl, rfl⟩
  · exact ⟨rfl, rfl⟩

theorem sameCounters_iteration (k : Kernel) : SameCounters k k.schedIteration := by
  have htick : SameCounters k k.tick := ⟨rfl, rfl⟩
  rw [schedIteration_eq]
  split_ifs
  · refine htick.trans ?_
    unfold spendTick
    dsimp only
    split <;> exact ⟨rfl, rfl⟩
  · refine ((htick.trans (sameCounters_requeueCurrent _)).trans (sameCounters_dequeue _)).trans ?_
    unfold switchTo
    split_ifs <;> exact ⟨rfl, rfl⟩

theorem sameCounters_dying (k : Kernel) (i : Slot) : SameCounters k (k.dying i) := by
  unfold dying
  rcases wakeParent_cases (k.modifyPcb i fun pcb => { pcb with state := .zombie }) (k.pcb i).parentPid
    k.ks.currentPid with ⟨heq, -⟩ | ⟨m, -, -, -, heq⟩
  · rw [heq]
    exact ⟨rfl, rfl⟩
  · rw [heq]
    exact ⟨rfl, rfl⟩

namespace Counted

/-- The same processes are counted by the same counters. -/
theorem of_same (h : k.Counted) (hs : SameProcesses k k') (hc : SameCounters k k') : k'.Counted where
  active := by
    rw [hs.activeCount, h.active]
    exact tally_congr fun i => not_congr (hs.unused i).symm
  agents := by
    rw [hc.agentCount, h.agents]
    refine tally_congr fun i => and_congr (not_congr (hs.unused i).symm) ?_
    have hagent : (k'.procs.pcb i).isAgent = (k.procs.pcb i).isAgent := hs.isAgent i
    rw [hagent]
  processes := by rw [hc.numProcesses, hs.activeCount, h.processes]

/-- A live process is counted. -/
theorem noWrap (h : k.Counted) (hi : k.Used i) :
    k.procs.activeCount ≠ 0 ∧ ((k.pcb i).isAgent = true → k.procs.agentCount ≠ 0) := by
  constructor
  · intro h0
    have hpos : 0 < tally Pcb.Live k.procs.pcb := tally_pos hi
    rw [← h.active, h0] at hpos
    exact absurd hpos (by decide)
  · intro hagent h0
    have hpos : 0 < tally Pcb.LiveAgent k.procs.pcb := tally_pos ⟨hi, hagent⟩
    rw [← h.agents, h0] at hpos
    exact absurd hpos (by decide)

theorem toNat_pred {n : UInt32} (hn : n ≠ 0) : (n - 1).toNat = n.toNat - 1 := by
  apply UInt32.toNat_sub_of_le
  have hpos : 0 < n.toNat := Nat.pos_of_ne_zero fun h => hn (UInt32.toNat_inj.1 h)
  exact UInt32.le_iff_toNat_le.2 hpos

/-- A process that is cleaned up is counted out. -/
theorem remove (h : k.Counted) (hi : k.Used i) : (k.removeProcess i).Counted := by
  obtain ⟨hactive, hagents⟩ := h.noWrap hi
  have hlive := tally_update Pcb.Live k.procs.pcb i (ProcTable.cleanedPcb (k.pcb i))
  have hagent := tally_update Pcb.LiveAgent k.procs.pcb i (ProcTable.cleanedPcb (k.pcb i))
  have hcounted : weight Pcb.Live (k.procs.pcb i) = 1 := weight_of hi
  have hcleaned : weight Pcb.Live (ProcTable.cleanedPcb (k.pcb i)) = 0 := weight_of_not fun h => h rfl
  have hcleaned' : weight Pcb.LiveAgent (ProcTable.cleanedPcb (k.pcb i)) = 0 := weight_of_not fun h => h.1 rfl
  refine ⟨?_, ?_, rfl⟩
  · rw [hcounted, hcleaned, ← h.active] at hlive
    have hcount : (k.removeProcess i).procs.activeCount.toNat = k.procs.activeCount.toNat - 1 := toNat_pred hactive
    have htally : tally Pcb.Live (k.removeProcess i).procs.pcb =
      tally Pcb.Live (Function.update k.procs.pcb i (ProcTable.cleanedPcb (k.pcb i))) := rfl
    omega
  · rw [hcleaned', ← h.agents] at hagent
    have htally : tally Pcb.LiveAgent (k.removeProcess i).procs.pcb =
      tally Pcb.LiveAgent (Function.update k.procs.pcb i (ProcTable.cleanedPcb (k.pcb i))) := rfl
    have hcount : (k.removeProcess i).procs.agentCount =
      if (k.pcb i).isAgent then k.procs.agentCount - 1 else k.procs.agentCount := rfl
    by_cases hi' : (k.pcb i).isAgent = true
    · have hone : weight Pcb.LiveAgent (k.procs.pcb i) = 1 := weight_of ⟨hi, hi'⟩
      rw [if_pos hi'] at hcount
      rw [hcount, toNat_pred (hagents hi')]
      omega
    · have hzero : weight Pcb.LiveAgent (k.procs.pcb i) = 0 := weight_of_not fun h => hi' h.2
      rw [if_neg hi'] at hcount
      rw [hcount]
      omega

/-- A new process in a free slot is counted. -/
theorem place (h : k.Counted) (hfree : (k.pcb i).state = .unused) (hp : p.state ≠ .unused) :
    (k.placed i p).Counted := by
  have hlive := tally_update Pcb.Live k.procs.pcb i p
  have hagent := tally_update Pcb.LiveAgent k.procs.pcb i p
  have hold : weight Pcb.Live (k.procs.pcb i) = 0 := weight_of_not fun h => h hfree
  have hold' : weight Pcb.LiveAgent (k.procs.pcb i) = 0 := weight_of_not fun h => h.1 hfree
  have hnew : weight Pcb.Live p = 1 := weight_of hp
  -- the table has 256 slots, and this one is free
  have hroom : tally Pcb.Live k.procs.pcb < fluxMaxProcesses :=
    (tally_lt (i := i) fun h => h hfree).trans_eq (Fintype.card_fin _)
  have hmax : fluxMaxProcesses = 256 := rfl
  have hfewer : tally Pcb.LiveAgent k.procs.pcb ≤ tally Pcb.Live k.procs.pcb := tally_mono fun p hp => hp.1
  have htally : tally Pcb.Live (k.placed i p).procs.pcb = tally Pcb.Live (Function.update k.procs.pcb i p) := rfl
  have htally' : tally Pcb.LiveAgent (k.placed i p).procs.pcb =
    tally Pcb.LiveAgent (Function.update k.procs.pcb i p) := rfl
  have hsucc (n : UInt32) (hn : n.toNat < fluxMaxProcesses) : (n + 1).toNat = n.toNat + 1 := by
    rw [UInt32.toNat_add, show (1 : UInt32).toNat = 1 from rfl]
    omega
  refine ⟨?_, ?_, rfl⟩
  · have hcount : (k.placed i p).procs.activeCount.toNat = k.procs.activeCount.toNat + 1 :=
      hsucc _ (h.active ▸ hroom)
    rw [hcount, htally, h.active]
    omega
  · have hcount : (k.placed i p).procs.agentCount =
      if p.isAgent then k.procs.agentCount + 1 else k.procs.agentCount := rfl
    rw [hcount, htally']
    by_cases hp' : p.isAgent = true
    · have hone : weight Pcb.LiveAgent p = 1 := weight_of ⟨hp, hp'⟩
      rw [if_pos hp', hsucc _ (h.agents ▸ Nat.lt_of_le_of_lt hfewer hroom), h.agents]
      omega
    · have hzero : weight Pcb.LiveAgent p = 0 := weight_of_not fun h => hp' h.2
      rw [if_neg hp', h.agents]
      omega

/-! ## The calls -/

theorem spawn (h : k.Counted) {entry stackSize : UInt64} {isAgent : Bool} {r : UInt32 × Kernel}
    (hr : k.fluxSpawn entry stackSize isAgent = some r) : r.2.Counted := by
  have hallocated (n : UInt32) (heap : MemHeap) : (k.withAllocated n heap).Counted :=
    h.of_same ⟨fun _ => rfl, fun _ => Iff.rfl, fun _ => rfl, rfl⟩ ⟨rfl, rfl⟩
  rcases kernel_of_spawn hr with heq | ⟨n, heap, heq⟩ | ⟨n, heap, top, pid, i, -, hfree, heq⟩
  · rw [heq]
    exact h
  · rw [heq]
    exact hallocated n heap
  · rw [heq]
    refine ((hallocated n heap).place (i := i) hfree ?_).of_same (sameProcesses_enqueue pid)
      (sameCounters_enqueue _ pid)
    exact ProcState.noConfusion

theorem exit (h : k.Counted) {r : FluxStatus × Kernel} (hr : k.fluxExit = some r) : r.2.Counted := by
  rcases fluxExit_cases hr with ⟨-, hsame⟩ | ⟨i, hi, -, hexit⟩
  · rw [hsame]
    exact h
  · rw [hexit]
    have hlive : k.Used i := (usedSlot_eq_some.1 hi).2
    have hdying := sameProcesses_dying hlive
    have hused : (k.dying i).Used i := fun hu => hlive ((hdying.unused i).1 hu)
    exact ((h.of_same hdying (sameCounters_dying k i)).remove hused).of_same (SameProcesses.of_procs rfl) ⟨rfl, rfl⟩

theorem kill (h : k.Counted) (pid : UInt32) : (k.fluxKill pid).2.Counted := by
  rcases fluxKill_cases k pid with ⟨hsame, -⟩ | ⟨i, hi, -, hkill⟩
  · rw [hsame]
    exact h
  · rw [hkill]
    exact h.remove (usedSlot_eq_some.1 hi).2

/-- A change of a state is counted rightly if and only if it empties no slot. -/
theorem setState_iff (h : k.Counted) (pid : UInt32) (newState : ProcState) :
    Counted { k with procs := (k.procs.fluxProcSetState pid newState).2 } ↔
      (newState = .unused → k.procs.usedSlot pid = none) := by
  unfold ProcTable.fluxProcSetState
  by_cases hpid : pid = fluxPidInvalid
  · subst hpid
    exact iff_of_true h fun _ => rfl
  rw [if_neg hpid]
  cases hslot : k.procs.usedSlot pid with
  | none => exact iff_of_true h fun _ => rfl
  | some i =>
    have hlive : k.Used i := (usedSlot_eq_some.1 hslot).2
    constructor
    · rintro hcounted rfl
      have htally := tally_update Pcb.Live k.procs.pcb i { k.procs.pcb i with state := .unused }
      have hold : weight Pcb.Live (k.procs.pcb i) = 1 := weight_of hlive
      have hnew : weight Pcb.Live { k.procs.pcb i with state := .unused } = 0 := weight_of_not fun h => h rfl
      have hactive : k.procs.activeCount.toNat = tally Pcb.Live (Function.update k.procs.pcb i _) := hcounted.active
      rw [← hactive, hold, hnew, h.active] at htally
      omega
    · intro hkeeps
      have hstate : newState ≠ .unused := fun h => Option.some_ne_none i (hkeeps h)
      exact h.of_same (SameProcesses.setState (f := fun p => { p with state := newState }) hlive rfl hstate rfl)
        ⟨rfl, rfl⟩

theorem init (k : Kernel) : k.fluxProcInit.Counted := by
  have htable : k.fluxProcInit.procs.pcb = Function.update (fun _ => Pcb.zero) 0 kernelPcb := by
    funext i
    rw [Function.update_apply]
    exact if_congr (Fin.ext_iff (b := 0)).symm rfl rfl
  have hempty (P : Pcb → Prop) [DecidablePred P] (hzero : ¬P Pcb.zero) :
      tally P k.fluxProcInit.procs.pcb = weight P kernelPcb := by
    have hnone : tally P (fun _ : Slot => Pcb.zero) = 0 := by
      rw [tally_eq_sum]
      exact Finset.sum_eq_zero fun _ _ => weight_of_not hzero
    have hupdate := tally_update P (fun _ : Slot => Pcb.zero) 0 kernelPcb
    rw [htable]
    rw [hnone, weight_of_not hzero] at hupdate
    omega
  refine ⟨?_, ?_, rfl⟩
  · rw [hempty _ (by decide)]
    rfl
  · rw [hempty _ (by decide)]
    rfl

end Counted

end Kernel

/-! ## Runs -/

open Kernel (Counted)

variable {c : ProcCall} {k k' : Kernel}

theorem ProcCall.noWrap (h : k.Counted) (c : ProcCall) : c.NoWrap k := by
  have hused {pid : UInt32} {i : Slot} (hi : (if pid = fluxPidKernel then none else k.procs.usedSlot pid) = some i) :
      k.Used i := by
    split_ifs at hi
    exact (Kernel.usedSlot_eq_some.1 hi).2
  intro i hi
  cases c with
  | exit => exact h.noWrap (hused hi)
  | kill pid => exact h.noWrap (hused hi)
  | spawn | setState | schedule => cases hi

/-- The counters stay right if and only if the call empties no slot without counting. -/
theorem counted_step_iff (h : k.Counted) (hstep : c.step k = some k') : k'.Counted ↔ c.KeepsSlots k := by
  have hother (hc : ∀ pid, c ≠ .setState pid .unused) (h' : k'.Counted) : k'.Counted ↔ c.KeepsSlots k :=
    iff_of_true h' fun pid heq => absurd heq (hc pid)
  cases c with
  | spawn entry stackSize isAgent =>
    obtain ⟨r, hr, rfl⟩ := Option.map_eq_some_iff.1 hstep
    exact hother (fun _ => ProcCall.noConfusion) (h.spawn hr)
  | exit =>
    obtain ⟨r, hr, rfl⟩ := Option.map_eq_some_iff.1 hstep
    exact hother (fun _ => ProcCall.noConfusion) (h.exit hr)
  | kill pid =>
    cases hstep
    exact hother (fun _ => ProcCall.noConfusion) (h.kill pid)
  | setState pid newState =>
    cases hstep
    rw [h.setState_iff pid newState]
    constructor
    · rintro hkeeps _ heq
      obtain ⟨rfl, rfl⟩ := ProcCall.setState.inj heq
      exact hkeeps rfl
    · rintro hkeeps rfl
      exact hkeeps pid rfl
  | schedule =>
    cases hstep
    exact hother (fun _ => ProcCall.noConfusion)
      (h.of_same Kernel.sameProcesses_iteration (Kernel.sameCounters_iteration k))

/-- In every run from the initialisation the counters are right in all states and none wraps, if and only if no
`flux_proc_set_state` sets a process to UNUSED. -/
theorem counters_right_iff (calls : List ProcCall) (k : Kernel) :
    (HoldsAlong ProcCall.step Counted calls k.fluxProcInit ∧
      MeetsAlong ProcCall.step ProcCall.NoWrap calls k.fluxProcInit) ↔
      MeetsAlong ProcCall.step ProcCall.KeepsSlots calls k.fluxProcInit := by
  have hiff : HoldsAlong ProcCall.step Counted calls k.fluxProcInit ↔
      MeetsAlong ProcCall.step ProcCall.KeepsSlots calls k.fluxProcInit :=
    holdsAlong_iff (J := fun _ => True) (fun _ _ => True) (fun _ _ _ _ _ _ => trivial)
      (fun _ _ _ _ _ h ht => counted_step_iff h ht) (fun _ _ _ => trivial) trivial (Kernel.Counted.init k)
  constructor
  · intro hall
    exact hiff.1 hall.1
  · intro hkeeps
    have hholds := hiff.2 hkeeps
    have hall : MeetsAlong ProcCall.step (fun _ _ => True) calls k.fluxProcInit :=
      meetsAlong_of_forall fun _ _ _ => trivial
    exact ⟨hholds, hholds.meetsAlong (J := fun _ => True) (fun _ _ _ _ _ _ => trivial)
      (fun c k _ _ h => c.noWrap h) hall trivial⟩

/-- A new process that is set to UNUSED is still counted. -/
theorem setUnused_not_counted : ∃ k, execute ProcCall.step
      [.spawn 0 0 true, .setState 2 .unused] bootKernel = some k ∧
    k.procs.activeCount = 2 ∧ tally Pcb.Live k.procs.pcb = 1 ∧ ¬k.Counted := by
  have hrun : (execute ProcCall.step [.spawn 0 0 true, .setState 2 .unused] bootKernel).map
      (fun k => (k.procs.activeCount, tally Pcb.Live k.procs.pcb)) = some (2, 1) := by decide +kernel
  obtain ⟨k, hk, hvalues⟩ := Option.map_eq_some_iff.1 hrun
  obtain ⟨hactive, htally⟩ := Prod.mk.inj hvalues
  refine ⟨k, hk, hactive, htally, fun h => ?_⟩
  have := h.active
  rw [hactive, htally] at this
  exact absurd this (by decide)

end FluxOs
