import FluxOs.Kernel.Bytecode
import FluxOs.Kernel.Effects
import Mathlib.Data.Finset.Card
import Mathlib.Data.Fintype.Card

/-!
# Pids and slots

A pid stands for the slot that is its remainder modulo the size of the table, as long as it is not negative
as a signed number.  In every run the processes have pids of their own slots, and a spawn finds a free slot.
The lookup of a process takes any pid of the slot, also one of a process that does not exist.
-/

namespace FluxOs

open ByteMemory Actions

/-! ## The slot of a pid -/

/-- The largest pid whose index is not computed from a negative number. -/
def maxIndexedPid : Nat := 2147483648

theorem toNat_pred {pid : UInt32} (h : pid ≠ 0) : (pid - 1).toBitVec.toNat = pid.toNat - 1 := by
  have hpos : 0 < pid.toNat := Nat.pos_of_ne_zero fun h0 => h (UInt32.toNat_inj.1 h0)
  exact UInt32.toNat_sub_of_le _ _ (UInt32.le_iff_toNat_le.2 (show 1 ≤ pid.toNat from hpos))

theorem procPidToIndex_of_le {pid : UInt32} (h : pid ≠ 0) (hle : pid.toNat ≤ maxIndexedPid) :
    procPidToIndex pid = ((pid.toNat - 1) % fluxMaxProcesses : Nat) := by
  have hpred := toNat_pred h
  have hmax : maxIndexedPid = 2147483648 := rfl
  have hint : (pid - 1).toBitVec.toInt = (pid.toNat - 1 : Nat) := by
    rw [BitVec.toInt_eq_toNat_cond, hpred, if_pos (by omega)]
  rw [procPidToIndex, if_neg (show pid ≠ fluxPidInvalid from h), hint]
  exact (Int.ofNat_tmod ..).symm

theorem procPidToIndex_of_lt {pid : UInt32} (h : pid ≠ 0) (hlt : maxIndexedPid < pid.toNat) :
    procPidToIndex pid = -((4294967297 - pid.toNat) % fluxMaxProcesses : Nat) := by
  have hpred := toNat_pred h
  have hmax : maxIndexedPid = 2147483648 := rfl
  have hint : (pid - 1).toBitVec.toInt = -(4294967297 - pid.toNat : Nat) := by
    rw [BitVec.toInt_eq_toNat_cond, hpred, if_neg (by omega)]
    omega
  rw [procPidToIndex, if_neg (show pid ≠ fluxPidInvalid from h), hint, Int.neg_tmod]
  congr 1

/-- A pid stands for a slot; past the largest indexed pid only slot 0 is left. -/
theorem slotOf_eq_some {pid : UInt32} {i : Slot} : slotOf pid = some i ↔
    pid ≠ 0 ∧ pid.toNat % fluxMaxProcesses = (i.val + 1) % fluxMaxProcesses ∧
      (pid.toNat ≤ maxIndexedPid ∨ i.val = 0) := by
  have hi := i.isLt
  have hmax : maxIndexedPid = 2147483648 := rfl
  by_cases h : pid = 0
  · rw [h]
    exact iff_of_false nofun fun h => h.1 rfl
  have hpos : 0 < pid.toNat := Nat.pos_of_ne_zero fun h0 => h (UInt32.toNat_inj.1 h0)
  have hiff (x : Int) (hx : procPidToIndex pid = x) : slotOf pid = some i ↔ x = i.val := by
    unfold slotOf
    split_ifs with h0
    · rw [Option.some.injEq, Fin.ext_iff]
      dsimp only
      omega
    · exact iff_of_false nofun (by omega)
  have hlt := pid.toNat_lt
  rcases Nat.lt_or_ge maxIndexedPid pid.toNat with hbig | hsmall
  · rw [hiff _ (procPidToIndex_of_lt h hbig)]
    dsimp only [fluxMaxProcesses] at hi ⊢
    refine ⟨fun heq => ⟨h, ?_, ?_⟩, fun ⟨_, hmod, hslot⟩ => ?_⟩ <;> omega
  · rw [hiff _ (procPidToIndex_of_le h hsmall)]
    dsimp only [fluxMaxProcesses] at hi ⊢
    refine ⟨fun heq => ⟨h, ?_, Or.inl hsmall⟩, fun ⟨_, hmod, _⟩ => ?_⟩ <;> omega

theorem slotOf_succ (i : Slot) : slotOf (UInt32.ofNat (i.val + 1)) = some i := by
  have hi : i.val < 256 := i.isLt
  have hnat : (UInt32.ofNat (i.val + 1)).toNat = i.val + 1 := UInt32.toNat_ofNat_of_lt' (by
    have : UInt32.size = 4294967296 := rfl
    omega)
  refine slotOf_eq_some.2 ⟨fun h => ?_, by rw [hnat], Or.inl ?_⟩
  · rw [h] at hnat
    exact absurd hnat (Nat.succ_ne_zero _).symm
  · rw [hnat]
    have : maxIndexedPid = 2147483648 := rfl
    omega

/-! ## Spawning -/

namespace ProcTable

variable {t : ProcTable}

/-- The pid that is found stands for a free slot. -/
theorem allocateFrom_spec (fuel : Nat) (t : ProcTable) :
    ∃ n, (allocateFrom fuel t).2 = { t with nextPid := n } ∧ ((allocateFrom fuel t).1 = 0 ∨
      ∃ i, slotOf (allocateFrom fuel t).1 = some i ∧ (t.pcb i).state = .unused) := by
  induction fuel generalizing t with
  | zero => exact ⟨t.nextPid, rfl, Or.inl rfl⟩
  | succ fuel ih =>
    unfold allocateFrom
    dsimp only
    split_ifs
    · exact ih { t with nextPid := fluxPidFirstApp }
    · split
      · rename_i i hslot
        split_ifs with hfree
        · exact ⟨_, rfl, Or.inr ⟨i, hslot, hfree⟩⟩
        · exact ih { t with nextPid := nextCandidate t.nextPid }
      · exact ih { t with nextPid := nextCandidate t.nextPid }

/-- A spawn fails to find a pid only if there is no free slot. -/
theorem spawnPid_spec (t : ProcTable) : ∃ n, t.spawnPid.2 = { t with nextPid := n } ∧
    (t.spawnPid.1 = none ∧ (∀ i, (t.pcb i).state ≠ .unused) ∨
      ∃ pid i, t.spawnPid.1 = some pid ∧ slotOf pid = some i ∧ (t.pcb i).state = .unused) := by
  obtain ⟨n, ht, hpid⟩ := allocateFrom_spec fluxMaxProcesses t
  unfold spawnPid procAllocatePid
  dsimp only
  split_ifs with hzero
  · refine ⟨n, ht, ?_⟩
    rw [ht]
    dsimp only
    cases hfind : procFindUnusedSlot { t with nextPid := n } with
    | none =>
      refine Or.inl ⟨rfl, fun i hi => ?_⟩
      exact absurd (List.find?_eq_none.1 hfind i (List.mem_finRange i)) (by simpa using hi)
    | some i =>
      refine Or.inr ⟨_, i, rfl, slotOf_succ i, ?_⟩
      simpa using List.find?_some hfind
  · refine ⟨n, ht, Or.inr ?_⟩
    obtain ⟨i, hslot, hfree⟩ := hpid.resolve_left hzero
    exact ⟨_, i, rfl, hslot, hfree⟩

end ProcTable

namespace Kernel

variable {k k' : Kernel} {i j : Slot} {pid : UInt32} {entry stackSize : UInt64} {isAgent : Bool}

/-- The kernel during a spawn. -/
def withAllocated (k : Kernel) (nextPid : UInt32) (heap : MemHeap) : Kernel :=
  { k with procs := { k.procs with nextPid }, heap }

/-- A spawn fails without a free slot, and otherwise only if the allocation fails. -/
theorem fluxSpawn_cases (k : Kernel) (entry stackSize : UInt64) (isAgent : Bool) :
    (k.procs.activeCount.toNat ≥ fluxMaxProcesses ∧ k.fluxSpawn entry stackSize isAgent = some (0, k)) ∨
    k.procs.activeCount.toNat < fluxMaxProcesses ∧ ∃ n,
      ((∀ i, (k.pcb i).state ≠ .unused) ∧
        k.fluxSpawn entry stackSize isAgent = some (0, k.withAllocated n k.heap)) ∨
      ∃ pid i, slotOf pid = some i ∧ (k.pcb i).state = .unused ∧
        k.fluxSpawn entry stackSize isAgent =
          (k.heap.fluxAlloc (spawnStackSize stackSize) (if isAgent then fluxMemAgent else fluxMemKernel)
            k.ks.currentPid).map fun r =>
              if r.1 = 0 then (0, k.withAllocated n r.2)
              else (pid, (k.withAllocated n r.2).installPcb i
                (k.spawnedPcb pid entry (r.1 + spawnStackSize stackSize) isAgent)) := by
  unfold fluxSpawn
  by_cases hfull : k.procs.activeCount.toNat ≥ fluxMaxProcesses
  · rw [if_pos hfull]
    exact Or.inl ⟨hfull, rfl⟩
  rw [if_neg hfull]
  refine Or.inr ⟨Nat.not_le.1 hfull, ?_⟩
  dsimp only
  obtain ⟨n, ht, h⟩ := k.procs.spawnPid_spec
  refine ⟨n, ?_⟩
  rcases hspawn : k.procs.spawnPid with ⟨pid?, t⟩
  rw [hspawn] at ht h
  dsimp only at ht h
  subst ht
  rcases h with ⟨rfl, hall⟩ | ⟨pid, i, rfl, hslot, hfree⟩
  · exact Or.inl ⟨hall, rfl⟩
  · refine Or.inr ⟨pid, i, hslot, hfree, ?_⟩
    dsimp only
    rw [hslot]
    rfl

/-- After a spawn the kernel is as before, or a pid is drawn, and a process is put in a free slot or not. -/
theorem kernel_of_spawn {r : UInt32 × Kernel} (hr : k.fluxSpawn entry stackSize isAgent = some r) :
    r.2 = k ∨ (∃ n heap, r.2 = k.withAllocated n heap) ∨
      ∃ n heap top pid i, slotOf pid = some i ∧ (k.pcb i).state = .unused ∧
        r.2 = (k.withAllocated n heap).installPcb i (k.spawnedPcb pid entry top isAgent) := by
  rcases fluxSpawn_cases k entry stackSize isAgent with
    ⟨-, h⟩ | ⟨-, n, ⟨-, h⟩ | ⟨pid, i, hslot, hfree, h⟩⟩
  · rw [h] at hr
    cases hr
    exact .inl rfl
  · rw [h] at hr
    cases hr
    exact .inr (.inl ⟨n, _, rfl⟩)
  · rw [h] at hr
    obtain ⟨⟨q, heap⟩, -, rfl⟩ := Option.map_eq_some_iff.1 hr
    dsimp only
    split_ifs
    · exact .inr (.inl ⟨n, heap, rfl⟩)
    · exact .inr (.inr ⟨n, heap, _, pid, i, hslot, hfree, rfl⟩)

/-- A load of bytecode changes nothing, or it allocates a buffer and, if there is one, fills it and sets it in
the process that the pid stands for. -/
theorem fluxBcLoad_cases {bytecode len : UInt64} {r : FluxStatus × Kernel}
    (hr : k.fluxBcLoad pid bytecode len = some r) :
    (r.1 ≠ .ok ∧ r.2 = k) ∨ ∃ i q heap, bytecode ≠ 0 ∧ k.procs.fluxGetPcb pid = some i ∧
      k.heap.fluxAlloc len fluxMemBytecode k.ks.currentPid = some (q, heap) ∧
      (q = 0 ∧ r.1 ≠ .ok ∧ r.2 = { k with heap } ∨ q ≠ 0 ∧ r.1 = .ok ∧ r.2 =
        { k with heap := { heap with mem := copy heap.mem q.toNat bytecode.toNat len.toNat } }.modifyPcb i
          fun pcb => { pcb with bc := { active := true, bytecodeBase := q, bytecodeLen := len, pc := 0 } }) := by
  unfold fluxBcLoad at hr
  split_ifs at hr with hargs
  · cases hr
    exact Or.inl ⟨by simp, rfl⟩
  · split at hr
    · cases hr
      exact Or.inl ⟨by simp, rfl⟩
    · rename_i i hi
      obtain ⟨⟨q, heap⟩, halloc, rfl⟩ := Option.map_eq_some_iff.1 hr
      refine Or.inr ⟨i, q, heap, fun h0 => hargs (Or.inr (Or.inl h0)), hi, halloc, ?_⟩
      dsimp only
      by_cases hq : q = 0
      · rw [if_pos hq]
        exact Or.inl ⟨hq, by simp, rfl⟩
      · rw [if_neg hq]
        exact Or.inr ⟨hq, rfl, rfl⟩

/-! ## Processes have pids of their own slots -/

/-- A process lives in the slot. -/
def Used (k : Kernel) (i : Slot) : Prop := (k.pcb i).state ≠ .unused

instance : DecidablePred k.Used := fun _ => inferInstanceAs (Decidable (¬_))

/-- `installPcb` before the new process is queued. -/
def placed (k : Kernel) (i : Slot) (pcb : Pcb) : Kernel :=
  let procs := { k.procs.modify i fun _ => pcb with
    agentCount := if pcb.isAgent then k.procs.agentCount + 1 else k.procs.agentCount
    activeCount := k.procs.activeCount + 1 }
  { k with
    procs
    ks := { k.ks with numProcesses := procs.activeCount, nextPid := procs.nextPid } }

theorem pcb_installPcb_self {p : Pcb} (hp : p.state = .ready) : (k.installPcb i p).pcb i = p := by
  have hnew : (k.placed i p).pcb i = p := Function.update_self ..
  have hwoken : wokenPcb p = p := wokenPcb_of_ne (by rw [hp]; exact nofun) (by rw [hp]; exact nofun)
  show ((k.placed i p).fluxSchedEnqueue p.pid).2.pcb i = p
  rcases pcb_enqueue (k := k.placed i p) p.pid i with h | ⟨-, h⟩
  · rw [h, hnew]
  · rw [h, hnew, hwoken]

/-- Every process has a pid of its slot, and the processes are counted. -/
structure OwnPids (k : Kernel) : Prop where
  slot i : k.Used i → slotOf (k.pcb i).pid = some i
  count : k.procs.activeCount.toNat = (Finset.univ.filter k.Used).card

namespace OwnPids

theorem of_same (h : k.OwnPids) (hs : SameProcesses k k') : k'.OwnPids := by
  have hused : k'.Used = k.Used := funext fun i => propext (not_congr (hs.unused i))
  refine ⟨fun i hi => ?_, ?_⟩
  · rw [hs.pid]
    exact h.slot i (hused ▸ hi)
  · rw [hs.activeCount, h.count]
    simp only [hused]

/-- No two processes have the same pid. -/
theorem pid_inj (h : k.OwnPids) (hi : k.Used i) (hj : k.Used j) (heq : (k.pcb i).pid = (k.pcb j).pid) :
    i = j := Option.some.inj ((h.slot i hi).symm.trans ((congrArg slotOf heq).trans (h.slot j hj)))

theorem pid_ne_zero (h : k.OwnPids) (hi : k.Used i) : (k.pcb i).pid ≠ 0 :=
  (slotOf_eq_some.1 (h.slot i hi)).1

/-- With a free slot there is room for one more process. -/
theorem activeCount_lt (h : k.OwnPids) (hfree : (k.pcb i).state = .unused) :
    k.procs.activeCount.toNat < fluxMaxProcesses := by
  have hi : i ∉ Finset.univ.filter k.Used := by simp [Used, hfree]
  have hcard := Finset.card_lt_univ_of_notMem hi
  rwa [Fintype.card_fin, ← h.count] at hcard

theorem remove (h : k.OwnPids) (hi : k.Used i) : (k.removeProcess i).OwnPids := by
  have hpcb (j : Slot) : (k.removeProcess i).pcb j =
      if j = i then ProcTable.cleanedPcb (k.pcb i) else k.pcb j := Function.update_apply ..
  have hused (j : Slot) : (k.removeProcess i).Used j ↔ j ≠ i ∧ k.Used j := by
    unfold Used
    rw [hpcb]
    split_ifs with hij
    · exact iff_of_false (fun h => h rfl) (fun h => h.1 hij)
    · exact (and_iff_right hij).symm
  have hfilter : Finset.univ.filter (k.removeProcess i).Used = (Finset.univ.filter k.Used).erase i := by
    ext j
    simp only [Finset.mem_filter, Finset.mem_univ, true_and, Finset.mem_erase, hused]
  have hmem : i ∈ Finset.univ.filter k.Used := by simpa using hi
  refine ⟨fun j hj => ?_, ?_⟩
  · rw [hpcb, if_neg ((hused j).1 hj).1]
    exact h.slot j ((hused j).1 hj).2
  · have hpos := Finset.card_pos.2 ⟨i, hmem⟩
    rw [hfilter, Finset.card_erase_of_mem hmem, ← h.count]
    rw [← h.count] at hpos
    exact UInt32.toNat_sub_of_le _ _ (UInt32.le_iff_toNat_le.2 hpos)

theorem place (h : k.OwnPids) (hfree : (k.pcb i).state = .unused) {p : Pcb}
    (hslot : slotOf p.pid = some i) (hlive : p.state ≠ .unused) : (k.placed i p).OwnPids := by
  have hpcb (j : Slot) : (k.placed i p).pcb j = if j = i then p else k.pcb j :=
    Function.update_apply ..
  have hused (j : Slot) : (k.placed i p).Used j ↔ j = i ∨ k.Used j := by
    unfold Used
    rw [hpcb]
    split_ifs with hij
    · exact iff_of_true hlive (Or.inl hij)
    · exact (or_iff_right hij).symm
  have hfilter : Finset.univ.filter (k.placed i p).Used = insert i (Finset.univ.filter k.Used) := by
    ext j
    simp only [Finset.mem_filter, Finset.mem_univ, true_and, Finset.mem_insert, hused]
  have hmem : i ∉ Finset.univ.filter k.Used := by simp [Used, hfree]
  refine ⟨fun j hj => ?_, ?_⟩
  · rw [hpcb]
    split_ifs with hij
    · rw [hij, hslot]
    · exact h.slot j (((hused j).1 hj).resolve_left hij)
  · have hlt := h.activeCount_lt hfree
    rw [hfilter, Finset.card_insert_of_notMem hmem, ← h.count]
    show (k.procs.activeCount + 1).toNat = _
    have hn : fluxMaxProcesses = 256 := rfl
    rw [UInt32.toNat_add, show (1 : UInt32).toNat = 1 from rfl]
    omega

/-- With a free slot and enough memory a spawn succeeds. -/
theorem spawn_succeeds (h : k.OwnPids) (hfree : (k.pcb i).state = .unused) {q : UInt64} {heap : MemHeap}
    (halloc : k.heap.fluxAlloc (spawnStackSize stackSize) (if isAgent then fluxMemAgent else fluxMemKernel)
      k.ks.currentPid = some (q, heap)) (hq : q ≠ 0) :
    ∃ pid k' j, k.fluxSpawn entry stackSize isAgent = some (pid, k') ∧ pid ≠ 0 ∧ ¬k.Used j ∧
      (k'.pcb j).pid = pid ∧ (k'.pcb j).state = .ready := by
  have hcount := h.activeCount_lt hfree
  rcases fluxSpawn_cases k entry stackSize isAgent with ⟨hfull, -⟩ | ⟨-, n, ⟨hall, -⟩ |
    ⟨pid, j, hslot, hj, h'⟩⟩
  · exact absurd hcount (Nat.not_lt.2 hfull)
  · exact absurd hfree (hall i)
  · rw [halloc, Option.map_some, if_neg hq] at h'
    refine ⟨pid, _, j, h', (slotOf_eq_some.1 hslot).1, not_not.2 hj, ?_⟩
    rw [pcb_installPcb_self rfl]
    exact ⟨rfl, rfl⟩

theorem boot : bootKernel.OwnPids := by
  have hused (i : Slot) : bootKernel.Used i ↔ i = 0 := by
    show (if i.val = 0 then kernelPcb else Pcb.zero).state ≠ .unused ↔ i = 0
    split_ifs with h0
    · exact iff_of_true nofun (Fin.ext h0)
    · exact iff_of_false (fun h => h rfl) fun h => h0 (congrArg Fin.val h)
  have hfilter : Finset.univ.filter bootKernel.Used = {0} := by
    ext i
    simp only [Finset.mem_filter, Finset.mem_univ, true_and, Finset.mem_singleton, hused]
  refine ⟨fun i hi => ?_, ?_⟩
  · rw [(hused i).1 hi]
    rfl
  · rw [hfilter]
    rfl

end OwnPids

end Kernel

/-! ## Runs -/

/-- The action is no round of a waiting receive. -/
def Action.NotPoll (a : Action) (_ : System) : Prop := ∀ r, a ≠ .poll r

variable {s t : System} {a : Action}

/-- The action ends the process that `pid` stands for. -/
def Action.Ends (a : Action) (s : System) (pid : UInt32) : Prop :=
  a = .kill pid ∨ a = .exit ∧ pid = s.kernel.ks.currentPid

/-- What an action does to the processes: nothing, or a new one takes a free slot, or one ends. -/
inductive ProcessStep (s : System) (a : Action) (t : System) : Prop
  | same : Kernel.SameProcesses s.kernel t.kernel → ProcessStep s a t
  | born (k : Kernel) (i : Slot) (p : Pcb) : Kernel.SameProcesses s.kernel k →
      (s.kernel.pcb i).state = .unused → slotOf p.pid = some i → p.state = .ready →
      Kernel.SameProcesses (k.placed i p) t.kernel → ProcessStep s a t
  | ended (k : Kernel) (i : Slot) (pid : UInt32) : Kernel.SameProcesses s.kernel k → a.Ends s pid →
      pid ≠ fluxPidKernel → s.kernel.procs.fluxGetPcb pid = some i →
      Kernel.SameProcesses (k.removeProcess i) t.kernel → ProcessStep s a t

theorem processStep_spawn {entry stackSize : UInt64} {isAgent : Bool} {r : UInt32 × Kernel}
    (hr : s.kernel.fluxSpawn entry stackSize isAgent = some r) : ProcessStep s a (s.withKernel r.2) := by
  have hallocated (n : UInt32) (heap : MemHeap) :
      Kernel.SameProcesses s.kernel (s.kernel.withAllocated n heap) :=
        ⟨fun _ => rfl, fun _ => Iff.rfl, fun _ => rfl, rfl⟩
  rcases Kernel.kernel_of_spawn hr with h | ⟨n, heap, h⟩ | ⟨n, heap, top, pid, i, hslot, hfree, h⟩
  · rw [h]
    exact .same (Kernel.SameProcesses.refl _)
  · rw [h]
    exact .same (hallocated n heap)
  · rw [h]
    exact .born _ i _ (hallocated n heap) hfree hslot rfl (Kernel.sameProcesses_enqueue pid)

theorem processStep_exit {r : FluxStatus × Kernel} (hr : s.kernel.fluxExit = some r) :
    ProcessStep s .exit (s.withKernel r.2) := by
  rcases Kernel.fluxExit_cases hr with ⟨-, h⟩ | ⟨i, hi, hkernel, h⟩
  · rw [h]
    exact .same (Kernel.SameProcesses.refl _)
  · rw [h]
    exact .ended _ i _ (Kernel.sameProcesses_dying (Kernel.usedSlot_eq_some.1 hi).2) (Or.inr ⟨rfl, rfl⟩) hkernel
      (Kernel.fluxGetPcb_eq_usedSlot.trans hi) (Kernel.SameProcesses.of_procs rfl)

theorem processStep_kill (pid : UInt32) :
    ProcessStep s (.kill pid) (s.withKernel (s.kernel.fluxKill pid).2) := by
  rcases s.kernel.fluxKill_cases pid with ⟨h, -⟩ | ⟨i, hi, hkernel, h⟩
  · rw [h]
    exact .same (Kernel.SameProcesses.refl _)
  · rw [h]
    exact .ended _ i pid (Kernel.SameProcesses.refl _) (Or.inl rfl) hkernel
      (Kernel.fluxGetPcb_eq_usedSlot.trans hi) (Kernel.SameProcesses.refl _)

/-- Every action but a round of a waiting receive is such a step. -/
theorem System.processStep (ha : a.NotPoll s) (hs : s.step a = some t) : ProcessStep s a t := by
  cases a with
  | spawn entry stackSize isAgent =>
    obtain ⟨r, hr, rfl⟩ := Option.map_eq_some_iff.1 hs
    exact processStep_spawn hr
  | exit =>
    obtain ⟨r, hr, rfl⟩ := Option.map_eq_some_iff.1 hs
    exact processStep_exit hr
  | kill pid =>
    cases hs
    exact processStep_kill pid
  | yield =>
    cases hs
    exact .same Kernel.sameProcesses_yield
  | wait target =>
    cases hs
    exact .same (Kernel.sameProcesses_wait target)
  | send target msg =>
    cases hs
    exact .same (Kernel.sameProcesses_send target msg)
  | recv filter len timeout =>
    cases hs
    exact .same (Kernel.sameProcesses_recv filter len timeout)
  | poll r => exact absurd rfl (ha r)
  | broadcast msg =>
    cases hs
    exact .same (Kernel.sameProcesses_broadcast msg)
  | enqueue pid =>
    cases hs
    exact .same (Kernel.sameProcesses_enqueue pid)
  | dequeue =>
    cases hs
    exact .same Kernel.sameProcesses_dequeue
  | schedule =>
    cases hs
    exact .same Kernel.sameProcesses_iteration
  | alloc size type =>
    obtain ⟨r, -, rfl⟩ := Option.map_eq_some_iff.1 hs
    exact .same (Kernel.SameProcesses.of_procs rfl)
  | free p =>
    obtain ⟨r, -, rfl⟩ := Option.map_eq_some_iff.1 hs
    exact .same (Kernel.SameProcesses.of_procs rfl)

theorem Kernel.OwnPids.step (h : s.kernel.OwnPids) (hs : ProcessStep s a t) : t.kernel.OwnPids := by
  cases hs with
  | same hsame => exact h.of_same hsame
  | born k i p hsame hfree hslot hready hsame' =>
    have hlive : p.state ≠ .unused := by
      rw [hready]
      exact nofun
    exact ((h.of_same hsame).place ((hsame.unused i).2 hfree) hslot hlive).of_same hsame'
  | ended k i pid hsame _ _ hget hsame' =>
    have hused := (Kernel.fluxGetPcb_eq_some.1 hget).2
    exact ((h.of_same hsame).remove fun h0 => hused ((hsame.unused i).1 h0)).of_same hsame'

theorem System.Reachable.ownPids (hr : s.Reachable Action.NotPoll) : s.kernel.OwnPids :=
  Reaches.invariant (I := fun s => s.kernel.OwnPids) hr
    (fun _ _ _ ha h hs => h.step (System.processStep ha hs)) Kernel.OwnPids.boot

/-- The processes have pairwise distinct pids of their own slots, and a spawn with a free slot and enough
memory succeeds: a free slot then holds the new process, which is ready. -/
structure Kernel.PidsSound (k : Kernel) : Prop where
  distinct i j : k.Used i → k.Used j → (k.pcb i).pid = (k.pcb j).pid → i = j
  congruent i : k.Used i → (k.pcb i).pid ≠ 0 ∧
    (k.pcb i).pid.toNat % fluxMaxProcesses = (i.val + 1) % fluxMaxProcesses
  spawns i entry stackSize isAgent q heap : ¬k.Used i →
    k.heap.fluxAlloc (Kernel.spawnStackSize stackSize) (if isAgent then fluxMemAgent else fluxMemKernel)
      k.ks.currentPid = some (q, heap) → q ≠ 0 →
    ∃ pid k' j, k.fluxSpawn entry stackSize isAgent = some (pid, k') ∧ pid ≠ 0 ∧ ¬k.Used j ∧
      (k'.pcb j).pid = pid ∧ (k'.pcb j).state = .ready

/-- Pids are sound in every state of every run, whatever the counter for the next pid has gone through. -/
theorem livePids_sound (hr : s.Reachable Action.NotPoll) : s.kernel.PidsSound where
  distinct _ _ hi hj := hr.ownPids.pid_inj hi hj
  congruent i hi := ⟨hr.ownPids.pid_ne_zero hi, (slotOf_eq_some.1 (hr.ownPids.slot i hi)).2.1⟩
  spawns _ _ _ _ _ _ hi halloc hq := hr.ownPids.spawn_succeeds (not_not.1 hi) halloc hq

/-- Two processes are spawned, the first of them is killed, and another one is spawned. -/
def respawned : List Action := [.spawn 0 0 false, .spawn 0 0 true, .kill 2, .spawn 0 0 false]

theorem livePids_sound_respawned : ∃ s, execute System.step respawned bootSystem = some s ∧
    ((s.kernel.pcb 1).pid, (s.kernel.pcb 2).pid, (s.kernel.pcb 3).pid) = (0, 3, 4) ∧ s.kernel.PidsSound := by
  have hrun : (execute System.step respawned bootSystem).map (fun s =>
      ((s.kernel.pcb 1).pid, (s.kernel.pcb 2).pid, (s.kernel.pcb 3).pid)) = some (0, 3, 4) := by decide +kernel
  obtain ⟨s, hs, hpids⟩ := Option.map_eq_some_iff.1 hrun
  have hallowed : MeetsAlong System.step Action.NotPoll respawned bootSystem :=
    meetsAlong_of_forall fun a ha _ r hr => by
      subst hr
      simp [respawned] at ha
  exact ⟨s, hs, hpids, livePids_sound (hallowed.reaches hs)⟩

/-! ## Looking up a process by its pid -/

namespace Kernel

variable {k : Kernel} {i j : Slot} {pid : UInt32}

/-- A process has this pid. -/
def Live (k : Kernel) (pid : UInt32) : Prop := ∃ i, k.Used i ∧ (k.pcb i).pid = pid

instance : Decidable (k.Live pid) := inferInstanceAs (Decidable (∃ i, k.Used i ∧ (k.pcb i).pid = pid))

/-- The pid is one of a process, or it has no slot, or no process has a pid of the same slot. -/
def Unambiguous (k : Kernel) (pid : UInt32) : Prop :=
  k.Live pid ∨ pid = 0 ∨ (maxIndexedPid < pid.toNat ∧ pid.toNat % fluxMaxProcesses ≠ 1) ∨
    ∀ p, k.Live p → p.toNat % fluxMaxProcesses ≠ pid.toNat % fluxMaxProcesses

/-- `flux_get_pcb` returns the process with this pid, if any. -/
def FindsNamed (k : Kernel) (pid : UInt32) : Prop :=
  ∀ i, k.procs.fluxGetPcb pid = some i → (k.pcb i).pid = pid

theorem OwnPids.getPcb_of_pid (h : k.OwnPids) (hi : k.Used i) :
    k.procs.fluxGetPcb (k.pcb i).pid = some i := fluxGetPcb_eq_some.2 ⟨h.slot i hi, hi⟩

theorem OwnPids.findsNamed_iff (h : k.OwnPids) (pid : UInt32) : k.FindsNamed pid ↔ k.Unambiguous pid := by
  constructor
  · intro hfind
    by_cases hget : ∃ i, k.procs.fluxGetPcb pid = some i
    · obtain ⟨i, hget⟩ := hget
      exact Or.inl ⟨i, (fluxGetPcb_eq_some.1 hget).2, hfind i hget⟩
    · refine Or.inr ?_
      by_cases hzero : pid = 0
      · exact Or.inl hzero
      refine Or.inr ?_
      by_cases hbig : maxIndexedPid < pid.toNat ∧ pid.toNat % fluxMaxProcesses ≠ 1
      · exact Or.inl hbig
      refine Or.inr ?_
      rintro _ ⟨i, hi, rfl⟩ hmod
      refine hget ⟨i, fluxGetPcb_eq_some.2 ⟨slotOf_eq_some.2 ⟨hzero, ?_, ?_⟩, hi⟩⟩
      · rw [← hmod]
        exact (slotOf_eq_some.1 (h.slot i hi)).2.1
      · have hslot := (slotOf_eq_some.1 (h.slot i hi)).2.1
        have hlt := i.isLt
        dsimp only [fluxMaxProcesses] at hmod hslot hbig hlt
        omega
  · intro hcond i hget
    obtain ⟨hslot, hi⟩ := fluxGetPcb_eq_some.1 hget
    rcases hcond with ⟨j, hj, rfl⟩ | rfl | ⟨hbig, hmod⟩ | hall
    · rw [Option.some.inj (hget.symm.trans (h.getPcb_of_pid hj))]
    · exact absurd hslot nofun
    · have := (slotOf_eq_some.1 hslot).2
      dsimp only [fluxMaxProcesses] at hmod this
      omega
    · refine absurd ?_ (hall _ ⟨i, hi, rfl⟩)
      rw [(slotOf_eq_some.1 (h.slot i hi)).2.1, (slotOf_eq_some.1 hslot).2.1]

/-- The functions that take a pid change no process but the one with this pid. -/
structure ActsOnNamed (k : Kernel) (pid : UInt32) : Prop where
  kill j : (k.fluxKill pid).2.pcb j ≠ k.pcb j → (k.pcb j).pid = pid
  setState newState j : (k.procs.fluxProcSetState pid newState).2.pcb j ≠ k.pcb j → (k.pcb j).pid = pid
  setPriority priority j :
    (k.procs.fluxProcSetPriority pid priority).2.pcb j ≠ k.pcb j → (k.pcb j).pid = pid
  wait : (k.syscallWait pid).1 = .ok → k.Live pid
  load bytecode len r j : k.fluxBcLoad pid bytecode len = some r → r.2.pcb j ≠ k.pcb j →
    (k.pcb j).pid = pid
  exec j : (k.fluxBcExec pid).2.pcb j ≠ k.pcb j → (k.pcb j).pid = pid

/-- What a change of one slot changes. -/
theorem eq_of_update_ne {pcb : Slot → Pcb} {p : Pcb} (h : Function.update pcb i p j ≠ pcb j) : j = i := by
  by_contra hji
  exact h (Function.update_of_ne hji ..)

theorem FindsNamed.actsOnNamed (h : k.FindsNamed pid) : k.ActsOnNamed pid := by
  have hused (i : Slot) (hi : k.procs.usedSlot pid = some i) : (k.pcb i).pid = pid :=
    h i (fluxGetPcb_eq_usedSlot.trans hi)
  refine ⟨fun j hj => ?_, fun newState j hj => ?_, fun priority j hj => ?_, fun hok => ?_,
    fun bytecode len r j hr hj => ?_, fun j hj => ?_⟩
  · unfold fluxKill at hj
    split_ifs at hj
    · exact absurd rfl hj
    · split at hj
      · exact absurd rfl hj
      · rename_i i hi
        rw [eq_of_update_ne hj]
        exact hused i hi
  · unfold ProcTable.fluxProcSetState at hj
    split_ifs at hj
    · exact absurd rfl hj
    · split at hj
      · rename_i i hi
        rw [eq_of_update_ne hj]
        exact hused i hi
      · exact absurd rfl hj
  · unfold ProcTable.fluxProcSetPriority at hj
    split_ifs at hj
    · exact absurd rfl hj
    · split at hj
      · rename_i i hi
        rw [eq_of_update_ne hj]
        exact hused i hi
      · exact absurd rfl hj
  · cases hget : k.procs.fluxGetPcb pid with
    | none =>
      rw [syscallWait_of_none hget] at hok
      exact absurd hok nofun
    | some i => exact ⟨i, (fluxGetPcb_eq_some.1 hget).2, h i hget⟩
  · unfold fluxBcLoad at hr
    split_ifs at hr
    · cases hr
      exact absurd rfl hj
    · split at hr
      · cases hr
        exact absurd rfl hj
      · rename_i i hi
        obtain ⟨q, -, rfl⟩ := Option.map_eq_some_iff.1 hr
        dsimp only at hj
        split_ifs at hj
        · exact absurd rfl hj
        · rw [eq_of_update_ne hj]
          exact h i hi
  · unfold fluxBcExec at hj
    split_ifs at hj
    · exact absurd rfl hj
    · split at hj
      · exact absurd rfl hj
      · rename_i i hi
        split_ifs at hj
        · exact absurd rfl hj
        · rw [eq_of_update_ne hj]
          exact h i hi

/-! ## The kernel process -/

/-- The kernel process lives in slot 0. -/
def KernelLives (k : Kernel) : Prop := k.Used 0 ∧ (k.pcb 0).pid = fluxPidKernel

theorem KernelLives.of_same (h : k.KernelLives) {k' : Kernel} (hs : SameProcesses k k') : k'.KernelLives :=
  ⟨fun h0 => h.1 ((hs.unused 0).1 h0), (hs.pid 0).trans h.2⟩

end Kernel

/-- Processes are ended by unambiguous pids only. -/
def Action.EndsUnambiguous (a : Action) (s : System) : Prop :=
  a.NotPoll s ∧ ∀ pid, a.Ends s pid → s.kernel.Unambiguous pid

theorem Kernel.KernelLives.step (h : s.kernel.KernelLives) (hown : s.kernel.OwnPids)
    (ha : a.EndsUnambiguous s) (hs : ProcessStep s a t) : t.kernel.KernelLives := by
  cases hs with
  | same hsame => exact h.of_same hsame
  | born k i p hsame hfree _ _ hsame' =>
    have hi : (0 : Slot) ≠ i := fun h0 => h.1 (h0 ▸ hfree)
    have hpcb : (k.placed i p).pcb 0 = k.pcb 0 := Function.update_of_ne hi ..
    have hk := h.of_same hsame
    refine KernelLives.of_same ⟨?_, ?_⟩ hsame'
    · rw [Used, hpcb]
      exact hk.1
    · rw [hpcb]
      exact hk.2
  | ended k i pid hsame hends hkernel hget hsame' =>
    have hnamed := (hown.findsNamed_iff pid).2 (ha.2 pid hends) i hget
    have hi : (0 : Slot) ≠ i := by
      rintro rfl
      exact hkernel (hnamed.symm.trans h.2)
    have hpcb : (k.removeProcess i).pcb 0 = k.pcb 0 := Function.update_of_ne hi ..
    have hk := h.of_same hsame
    refine KernelLives.of_same ⟨?_, ?_⟩ hsame'
    · rw [Used, hpcb]
      exact hk.1
    · rw [hpcb]
      exact hk.2

theorem System.Reachable.kernelLives (hr : s.Reachable Action.EndsUnambiguous) : s.kernel.KernelLives := by
  refine Reaches.invariant_of (I := fun s => s.kernel.KernelLives) (J := fun s => s.kernel.OwnPids) hr
    (fun t ht => ?_) (fun a s t ha hown h hs => h.step hown ha (System.processStep ha.1 hs)) ⟨nofun, rfl⟩
  exact System.Reachable.ownPids (ht.mono fun _ _ ha => ha.1)

/-- A lookup finds the process with the given pid, or none, exactly for the unambiguous pids, and then the
functions that take a pid act on this process only.  In a run in which processes are ended by such pids, the
kernel process is never freed. -/
theorem pidLookup_sound (hr : s.Reachable Action.NotPoll) (pid : UInt32) :
    (s.kernel.FindsNamed pid ↔ s.kernel.Unambiguous pid) ∧
    (s.kernel.Unambiguous pid → s.kernel.ActsOnNamed pid) ∧
    (s.Reachable Action.EndsUnambiguous → s.kernel.KernelLives) := by
  have hiff := hr.ownPids.findsNamed_iff pid
  exact ⟨hiff, fun h => (hiff.2 h).actsOnNamed, fun hends => hends.kernelLives⟩

theorem pidLookup_sound_boot : (bootKernel.FindsNamed 257 ↔ bootKernel.Unambiguous 257) ∧
    (bootKernel.Unambiguous 257 → bootKernel.ActsOnNamed 257) ∧
    (bootSystem.Reachable Action.EndsUnambiguous → bootKernel.KernelLives) :=
  pidLookup_sound (s := bootSystem) (Reaches.refl _) 257

/-- Pid 257 stands for the kernel process: a kill of it frees the kernel. -/
theorem kill257_frees_kernel : bootSystem.Reachable Action.NotPoll ∧
    bootKernel.procs.fluxGetPcb 257 = some 0 ∧ (bootKernel.pcb 0).pid = fluxPidKernel ∧
    (bootKernel.fluxKill 257).1 = .ok ∧ ((bootKernel.fluxKill 257).2.pcb 0).state = .unused :=
  ⟨Reaches.refl _, by decide, rfl, by decide, by decide⟩

end FluxOs
