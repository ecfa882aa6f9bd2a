import FluxOs.Kernel.Effects
import FluxOs.Kernel.Ownership
import FluxOs.Kernel.Pids
import FluxOs.Kernel.Syscall

/-!
# System calls of a process without capabilities

What a call changes besides the process that makes it, and which calls leave all other processes and their
blocks alone: the handlers check the capabilities for some operations only, and no handler checks a pid or
a pointer against the process that passes it.
-/

namespace FluxOs

open ByteMemory Actions MemHeap

/-! ## Changes to one's own process -/

namespace Kernel

variable {k k' k'' : Kernel} {me i j : Slot} {pid : UInt32} {f : Pcb → Pcb}

/-- Nothing of the heap and of the other processes changes. -/
structure ChangesOwn (me : Slot) (k k' : Kernel) : Prop where
  heap : k'.heap = k.heap
  current : k'.ks.currentPid = k.ks.currentPid
  caps : (k'.pcb me).capabilities = (k.pcb me).capabilities
  others j : j ≠ me → k'.pcb j = k.pcb j

namespace ChangesOwn

theorem refl (me : Slot) (k : Kernel) : ChangesOwn me k k := ⟨rfl, rfl, rfl, fun _ _ => rfl⟩

theorem trans (h : ChangesOwn me k k') (h' : ChangesOwn me k' k'') : ChangesOwn me k k'' :=
  ⟨h'.heap.trans h.heap, h'.current.trans h.current, h'.caps.trans h.caps,
    fun j hj => (h'.others j hj).trans (h.others j hj)⟩

theorem of_procs (hprocs : k'.procs.pcb = k.procs.pcb) (hheap : k'.heap = k.heap)
    (hcurrent : k'.ks.currentPid = k.ks.currentPid) : ChangesOwn me k k' := by
  have hpcb (j : Slot) : k'.pcb j = k.pcb j := congrFun hprocs j
  exact ⟨hheap, hcurrent, congrArg Pcb.capabilities (hpcb me), fun j _ => hpcb j⟩

theorem modifyPcb (hf : ∀ pcb, (f pcb).capabilities = pcb.capabilities) :
    ChangesOwn me k (k.modifyPcb me f) := by
  refine ⟨rfl, rfl, ?_, fun j hj => pcb_modifyPcb_of_ne hj⟩
  rw [pcb_modifyPcb_self]
  exact hf _

theorem capabilities_wokenPcb (pcb : Pcb) : (wokenPcb pcb).capabilities = pcb.capabilities := by
  unfold wokenPcb
  split_ifs <;> rfl

theorem enqueue (hpid : ∀ i, k.procs.fluxGetPcb pid = some i → i = me) :
    ChangesOwn me k (k.fluxSchedEnqueue pid).2 := by
  rcases fluxSchedEnqueue_cases k pid with ⟨h, -⟩ | ⟨i, -, -, hget, h⟩
  · rw [h]
    exact refl me k
  · rw [h, hpid i hget]
    exact (modifyPcb capabilities_wokenPcb).trans (of_procs rfl rfl rfl)

theorem remove : ChangesOwn me k (k.removeProcess me) := by
  have hpcb (j : Slot) : (k.removeProcess me).pcb j =
      if j = me then ProcTable.cleanedPcb (k.pcb me) else k.pcb j := Function.update_apply ..
  refine ⟨rfl, rfl, ?_, fun j hj => ?_⟩
  · rw [hpcb, if_pos rfl]
    rfl
  · rw [hpcb, if_neg hj]

end ChangesOwn

/-- The pid stands for the current process, if for any. -/
def StandsForCaller (k : Kernel) (pid : UInt32) : Prop :=
  ∀ i, k.procs.fluxGetPcb pid = some i → slotOf k.ks.currentPid = some i

theorem standsForCaller_current : k.StandsForCaller k.ks.currentPid := fun _ hi => (fluxGetPcb_eq_some.1 hi).1

theorem StandsForCaller.eq (h : k.StandsForCaller pid) (hme : slotOf k.ks.currentPid = some me)
    (hi : k.procs.fluxGetPcb pid = some i) : i = me := Option.some.inj ((h i hi).symm.trans hme)

theorem changesOwn_yield (hme : slotOf k.ks.currentPid = some me) : ChangesOwn me k k.fluxYield.2 := by
  unfold fluxYield
  rw [hme]
  split_ifs
  · exact ChangesOwn.refl me k
  · have hready : ChangesOwn me k (if (k.pcb me).state = .running then
        k.modifyPcb me fun pcb => { pcb with state := .ready } else k) := by
      split_ifs
      · exact ChangesOwn.modifyPcb fun _ => rfl
      · exact ChangesOwn.refl me k
    refine (hready.trans (ChangesOwn.enqueue fun i hi => ?_)).trans (ChangesOwn.of_procs rfl rfl rfl)
    have hslot := (fluxGetPcb_eq_some.1 hi).1
    rw [hready.current, hme] at hslot
    exact (Option.some.inj hslot).symm

theorem changesOwn_kill (hme : slotOf k.ks.currentPid = some me)
    (hpid : pid = fluxPidKernel ∨ k.StandsForCaller pid) : ChangesOwn me k (k.fluxKill pid).2 := by
  rcases k.fluxKill_cases pid with ⟨h, -⟩ | ⟨i, hi, hkernel, h⟩
  · rw [h]
    exact ChangesOwn.refl me k
  · have hi' : k.procs.fluxGetPcb pid = some i := fluxGetPcb_eq_usedSlot.trans hi
    rw [h, (hpid.resolve_left hkernel).eq hme hi']
    exact ChangesOwn.remove

theorem changesOwn_wait (hme : slotOf k.ks.currentPid = some me) (target : UInt32) :
    ChangesOwn me k (k.syscallWait target).2 := by
  cases h : k.procs.fluxGetPcb target with
  | none =>
    rw [syscallWait_of_none h]
    exact ChangesOwn.refl me k
  | some _ =>
    rw [syscallWait_of_some h]
    unfold blockCurrent
    split
    · rename_i i hi
      rw [standsForCaller_current.eq hme hi]
      exact ChangesOwn.modifyPcb fun _ => rfl
    · exact ChangesOwn.refl me k

theorem changesOwn_bcExec (hme : slotOf k.ks.currentPid = some me)
    (hpid : ∀ i, k.procs.fluxGetPcb pid = some i → (k.pcb i).bc.active = true →
      slotOf k.ks.currentPid = some i) : ChangesOwn me k (k.fluxBcExec pid).2 := by
  unfold fluxBcExec
  split_ifs
  · exact ChangesOwn.refl me k
  · split
    · exact ChangesOwn.refl me k
    · rename_i i hi
      split_ifs with hactive
      · exact ChangesOwn.refl me k
      · rw [Option.some.inj ((hpid i hi (by simpa using hactive)).symm.trans hme)]
        exact ChangesOwn.modifyPcb fun _ => rfl

end Kernel

/-! ## What others keep -/

/-- The process waits for the one with this pid. -/
def Pcb.WaitsFor (pcb : Pcb) (pid : UInt32) : Prop :=
  (pcb.state = .blocked ∨ pcb.state = .agentIdle) ∧ pcb.waitingFor = pid

/-- The region is the block's own or overlaps its contents. -/
def Block.Meets (b : Block) (addr size : UInt64) : Prop :=
  addr = b.ptr ∨ addr.toNat < b.stop ∧ b.payload < addr.toNat + size.toNat

instance (b : Block) (addr size : UInt64) : Decidable (b.Meets addr size) :=
  inferInstanceAs (Decidable (_ ∨ _ ∧ _))

namespace Os

variable {p : Platform} {s t u : Os} {me i j : Slot} {exits exits' : Prop} {k : Kernel}

/-- The pid of the process that makes the calls. -/
def caller (s : Os) : UInt32 := s.kernel.ks.currentPid

def blocks (p : Platform) (s : Os) : List Block := s.kernel.heap.heapBlocks p.place

/-- The entries of `s_perm_table` for regions that meet a block. -/
def permEntries (s : Os) (b : Block) : List MemPermEntry :=
  s.permTable.filter fun entry => entry.active ∧ b.Meets entry.base entry.size

/-- The process in slot `me` makes the calls and has no capability bits. -/
structure Capless (me : Slot) (s : Os) : Prop where
  slot : slotOf s.caller = some me
  notKernel : s.caller ≠ fluxPidKernel
  caps : (s.kernel.pcb me).capabilities = 0

/-- All other processes and their blocks are as before.  With `exits`, a process that waited for the caller
may have become ready. -/
structure OthersKept (p : Platform) (me : Slot) (exits : Prop) (s t : Os) : Prop where
  pcb j : j ≠ me → t.kernel.pcb j = s.kernel.pcb j ∨
    exits ∧ (s.kernel.pcb j).WaitsFor s.caller ∧
      t.kernel.pcb j = { s.kernel.pcb j with state := .ready, waitingFor := fluxPidInvalid }
  block b : b ∈ s.blocks p → s.kernel.heap.OwnedByOther s.caller b →
    KeepsBlock p.place b s.kernel.heap t.kernel.heap ∧ t.permEntries b = s.permEntries b

/-- A step of the caller keeps the others, and the state stays fit for further steps. -/
structure CallerStep (p : Platform) (me : Slot) (exits : Prop) (s t : Os) : Prop
    extends OthersKept p me exits s t where
  current : t.caller = s.caller
  caps : (t.kernel.pcb me).capabilities = (s.kernel.pcb me).capabilities
  heap : HeapOk p.place t.kernel.heap

theorem CallerStep.capless (h : CallerStep p me exits s t) (hs : s.Capless me) : t.Capless me :=
  ⟨h.current ▸ hs.slot, h.current ▸ hs.notKernel, h.caps.trans hs.caps⟩

theorem OthersKept.refl (s : Os) : OthersKept p me exits s s :=
  ⟨fun _ _ => .inl rfl, fun _ hb _ => ⟨KeepsBlock.refl hb, rfl⟩⟩

/-- A process that has been made ready does not wait any more. -/
theorem OthersKept.trans (h : OthersKept p me exits s t) (h' : OthersKept p me exits' t u)
    (hcurrent : t.caller = s.caller) : OthersKept p me (exits ∨ exits') s u := by
  refine ⟨fun j hj => ?_, fun b hb hother => ?_⟩
  · rcases h.pcb j hj with heq | ⟨he, hwaits, heq⟩
    · rcases h'.pcb j hj with heq' | ⟨he', hwaits', heq'⟩
      · exact .inl (heq'.trans heq)
      · rw [heq, hcurrent] at hwaits'
        rw [heq] at heq'
        exact .inr ⟨.inr he', hwaits', heq'⟩
    · rcases h'.pcb j hj with heq' | ⟨-, hwaits', -⟩
      · exact .inr ⟨.inl he, hwaits, heq'.trans heq⟩
      · rw [heq] at hwaits'
        rcases hwaits'.1 with hstate | hstate <;> cases hstate
  · obtain ⟨hkept, hperm⟩ := h.block b hb hother
    have hother' : t.kernel.heap.OwnedByOther t.caller b := by
      rw [hcurrent]
      exact hkept.ownedByOther.2 hother
    obtain ⟨hkept', hperm'⟩ := h'.block b hkept.stays hother'
    exact ⟨hkept.trans hkept', hperm'.trans hperm⟩

theorem OthersKept.mono (h : OthersKept p me exits s t) (himp : exits → exits') :
    OthersKept p me exits' s t :=
  ⟨fun j hj => (h.pcb j hj).imp_right fun hw => ⟨himp hw.1, hw.2⟩, h.block⟩

theorem CallerStep.trans (h : CallerStep p me exits s t) (h' : CallerStep p me exits t u) :
    CallerStep p me exits s u :=
  ⟨(h.toOthersKept.trans h'.toOthersKept h.current).mono fun hor => hor.elim id id,
    h'.current.trans h.current, h'.caps.trans h.caps, h'.heap⟩

/-! ## Single changes -/

theorem CallerStep.refl (hok : HeapOk p.place s.kernel.heap) : CallerStep p me exits s s :=
  ⟨OthersKept.refl s, rfl, rfl, hok⟩

theorem callerStep_own (hok : HeapOk p.place s.kernel.heap) (h : Kernel.ChangesOwn me s.kernel k) :
    CallerStep p me exits s (s.withKernel k) := by
  refine ⟨⟨fun j hj => .inl (h.others j hj), fun b hb _ => ⟨?_, rfl⟩⟩, h.current, h.caps, ?_⟩
  · show KeepsBlock p.place b s.kernel.heap k.heap
    rw [h.heap]
    exact KeepsBlock.refl hb
  · show HeapOk p.place k.heap
    rw [h.heap]
    exact hok

/-- The heap changes, and the blocks of others stay. -/
theorem callerStep_heap {heap : MemHeap} (hok : HeapOk p.place heap)
    (hkept : ∀ b ∈ s.blocks p, s.kernel.heap.OwnedByOther s.caller b →
      KeepsBlock p.place b s.kernel.heap heap) :
    CallerStep p me exits s (s.withKernel { s.kernel with heap }) :=
  ⟨⟨fun _ _ => .inl rfl, fun b hb hother => ⟨hkept b hb hother, rfl⟩⟩, rfl, rfl, hok⟩

/-- The caller owns the `n` bytes at `a`: they are in its blocks or outside of what the kernel uses. -/
def Owns (p : Platform) (s : Os) (a : UInt64) (n : Nat) : Prop := ∀ i, a.toNat ≤ i → i < a.toNat + n →
  p.statics i = false ∧ s.kernel.heap.ByteIn p.place (s.kernel.heap.OwnedBy s.caller) i

/-- What one owns stays one's own as long as its blocks stay. -/
theorem Owns.of_blocks {a : UInt64} {n : Nat} (howns : s.Owns p a n)
    (hblocks : ∀ b ∈ s.blocks p, s.kernel.heap.OwnedBy s.caller b →
      b ∈ t.blocks p ∧ t.kernel.heap.OwnedBy t.caller b) : t.Owns p a n := by
  intro i h₁ h₂
  obtain ⟨hstatic, hin⟩ := howns i h₁ h₂
  refine ⟨hstatic, hin.imp_right fun hin => hin.imp_right ?_⟩
  rintro ⟨b, hb, hown, hbytes⟩
  obtain ⟨hb', hown'⟩ := hblocks b hb hown
  exact ⟨b, hb', hown', hbytes⟩

/-- A store to bytes that one owns. -/
theorem callerStep_store {a : UInt64} {bs : List UInt8} (hok : HeapOk p.place s.kernel.heap)
    (howns : s.Owns p a bs.length) : CallerStep p me exits s (s.store p a bs) ∧
      ∀ a' n, s.Owns p a' n → (s.store p a bs).Owns p a' n := by
  have hplain : s.store p a bs =
      s.withKernel (s.kernel.writeMem (write s.kernel.heap.mem a.toNat bs)) := by
    refine if_neg ?_
    rw [List.any_eq_true]
    rintro ⟨i, hi, hstatic⟩
    rw [(howns (a.toNat + i) (Nat.le_add_right ..) (by have := List.mem_range.1 hi; omega)).1] at hstatic
    exact Bool.noConfusion hstatic
  have hmem (i : Nat) (hi : ¬s.kernel.heap.ByteIn p.place (s.kernel.heap.OwnedBy s.caller) i) :
      write s.kernel.heap.mem a.toNat bs i = s.kernel.heap.mem i := by
    refine write_of_outside ?_
    by_contra hin
    exact hi (howns i (by omega) (by omega)).2
  obtain ⟨hok', hstays, hkept⟩ := hok.write hmem
  rw [hplain]
  refine ⟨callerStep_heap hok' fun b hb hother => hkept b hb fun hown => hother.2 hown.2, fun a' n howns' => ?_⟩
  refine howns'.of_blocks fun b hb hown => ⟨(hstays b hb).1, hown.1, ?_⟩
  exact (congrArg MemBlock.ownerPid (hstays b hb).2).trans hown.2

/-- An entry of a list changes, but not one that is selected. -/
theorem filter_modify_of_not {α : Type} {P : α → Bool} {m : List α} {n : Nat} {f : α → α}
    (hold : ∀ y, m[n]? = some y → P y = false ∧ P (f y) = false) : (m.modify n f).filter P = m.filter P := by
  rw [List.modify_eq_set_getElem?]
  cases hy : m[n]? with
  | none => rfl
  | some y =>
    have hall (z : α) (hz : m[n]? = some z) : P z = false := (hold z hz).1
    exact filter_set_of_not (hold y hy).2 hall

/-- What a change of permissions does to the memory map. -/
theorem mapEntries_protect {heap : MemHeap} {addr q : UInt64} {perm : UInt32} {n : Nat}
    (hn : (heap.memMap.take heap.memMapCount.toNat).findIdx? (fun entry =>
      entry.active && entry.base = addr) = some n) (hq : q ≠ addr) :
    ({ heap with memMap := heap.memMap.modify n fun entry => { entry with perms := perm } } :
      MemHeap).mapEntries q = heap.mapEntries q := by
  refine filter_modify_of_not fun y hy => ?_
  obtain ⟨hlt, hbase, -⟩ := List.findIdx?_eq_some_iff_getElem.1 hn
  rw [List.getElem_take, Bool.and_eq_true, decide_eq_true_iff] at hbase
  have hlt' : n < heap.memMap.length := by
    rw [List.length_take] at hlt
    omega
  rw [List.getElem?_eq_getElem hlt'] at hy
  cases hy
  simp [hbase.2, hq.symm]

/-- The exact entry of the permission table for a region. -/
def permIndex (s : Os) (addr size : UInt64) : Option Nat :=
  s.permTable.findIdx? fun entry => entry.active && entry.base = addr && entry.size = size

/-- The checks of `flux_mem_protect` reject the region, or there is no room for it. -/
def RejectsProtect (s : Os) (addr size : UInt64) : Prop :=
  size = 0 ∨ addr = 0 ∨ s.permIndex addr size = none ∧ fluxMemMaxPermissions ≤ s.permTable.length

/-- The memory map keeps the entries of the blocks of others. -/
theorem callerStep_protectMap {addr size : UInt64} {perm : UInt32} {memMap : List MemMapEntry}
    {permTable : List MemPermEntry} (hok : HeapOk p.place s.kernel.heap)
    (hmemMap : memMap =
      match (s.kernel.heap.memMap.take s.kernel.heap.memMapCount.toNat).findIdx? fun entry =>
        entry.active && entry.base = addr with
      | some i => s.kernel.heap.memMap.modify i fun entry => { entry with perms := perm }
      | none => s.kernel.heap.memMap)
    (hmeets : ∀ b ∈ s.blocks p, s.kernel.heap.OwnedByOther s.caller b → ¬b.Meets addr size)
    (hperm : ∀ b, ¬b.Meets addr size →
      (permTable.filter fun entry => entry.active ∧ b.Meets entry.base entry.size) = s.permEntries b) :
    CallerStep p me exits s
      { s with kernel := { s.kernel with heap := { s.kernel.heap with memMap } }, permTable } := by
  have hcongr : HeapOk p.place { s.kernel.heap with memMap } ∧
      { s.kernel.heap with memMap }.heapBlocks p.place = s.kernel.heap.heapBlocks p.place :=
    hok.congr rfl rfl
  refine ⟨⟨fun _ _ => .inl rfl, fun b hb hother => ⟨⟨?_, fun _ _ _ => rfl, ?_⟩, ?_⟩⟩, rfl, rfl, hcongr.1⟩
  · rw [hcongr.2]
    exact hb
  · have hptr : b.ptr ≠ addr := fun h => hmeets b hb hother (.inl h.symm)
    subst hmemMap
    split
    · rename_i n hn
      exact mapEntries_protect hn hptr
    · rfl
  · exact hperm b (hmeets b hb hother)

/-- A change of permissions that is rejected, or of a region that meets no block of others. -/
theorem callerStep_protect {addr size : UInt64} {perm : UInt32} (hok : HeapOk p.place s.kernel.heap)
    (hmeets : s.RejectsProtect addr size ∨ ∀ b ∈ s.blocks p,
      s.kernel.heap.OwnedByOther s.caller b → ¬b.Meets addr size) :
    CallerStep p me exits s (s.fluxMemProtect addr size perm).2 := by
  by_cases hargs : size = 0 ∨ addr = 0
  · unfold fluxMemProtect
    rw [if_pos hargs]
    exact CallerStep.refl hok
  unfold fluxMemProtect
  rw [if_neg hargs]
  dsimp only
  cases hindex : s.permIndex addr size with
  | some n =>
    rw [show s.permTable.findIdx? _ = some n from hindex]
    have hmeets' := hmeets.resolve_left fun hrej => by
      rcases hrej with h0 | h0 | ⟨hnone, -⟩
      · exact hargs (.inl h0)
      · exact hargs (.inr h0)
      · rw [hindex] at hnone
        cases hnone
    refine callerStep_protectMap hok rfl hmeets' fun b hb => filter_modify_of_not fun y hy => ?_
    obtain ⟨hlt, hentry, -⟩ := List.findIdx?_eq_some_iff_getElem.1 hindex
    rw [List.getElem?_eq_getElem hlt] at hy
    cases hy
    simp only [Bool.and_eq_true, decide_eq_true_iff] at hentry
    simp [hentry.1.2, hentry.2, hb]
  | none =>
    rw [show s.permTable.findIdx? _ = none from hindex]
    dsimp only
    by_cases hroom : s.permTable.length < fluxMemMaxPermissions
    · rw [if_pos hroom]
      have hmeets' := hmeets.resolve_left fun hrej => by
        rcases hrej with h0 | h0 | ⟨-, hfull⟩
        · exact hargs (.inl h0)
        · exact hargs (.inr h0)
        · exact absurd hroom (Nat.not_lt.2 hfull)
      refine callerStep_protectMap hok rfl hmeets' fun b hb => ?_
      rw [List.filter_append, permEntries]
      simp [hb]
    · rw [if_neg hroom]
      exact CallerStep.refl hok

/-- An allocation for the caller. -/
theorem callerStep_alloc {size q : UInt64} {type : UInt32} {heap : MemHeap}
    (hok : HeapOk p.place s.kernel.heap)
    (halloc : s.kernel.heap.fluxAlloc size type s.caller = some (q, heap)) :
    CallerStep p me exits s (s.withKernel { s.kernel with heap }) ∧
      ∀ a n, s.Owns p a n → (s.withKernel { s.kernel with heap }).Owns p a n := by
  obtain ⟨hok', hkept, -⟩ := hok.alloc halloc
  refine ⟨callerStep_heap hok' fun b hb hother => hkept b hb hother.1, fun a n howns =>
    howns.of_blocks fun b hb hown => ⟨(hkept b hb hown.1).stays, (hkept b hb hown.1).ownedBy.2 hown⟩⟩

/-- The caller owns the block at a pointer, or `flux_free` ignores the pointer. -/
def MayFree (p : Platform) (s : Os) (q : UInt64) : Prop :=
  s.kernel.heap.IgnoresFree q ∨ ∃ b ∈ s.blocks p, b.ptr = q ∧ s.kernel.heap.OwnedBy s.caller b

theorem callerStep_free {q : UInt64} {heap : MemHeap} (hok : HeapOk p.place s.kernel.heap)
    (hmay : s.MayFree p q) (hfree : s.kernel.heap.fluxFree q = some heap) :
    CallerStep p me exits s (s.withKernel { s.kernel with heap }) := by
  rcases hmay with hignored | ⟨b, hb, rfl, hown⟩
  · rw [hignored.fluxFree_eq] at hfree
    cases hfree
    exact callerStep_heap hok fun b hb _ => KeepsBlock.refl hb
  · obtain ⟨hok', hkept⟩ := hok.free hb hown.1 hfree
    refine callerStep_heap hok' fun c hc hother => hkept c hc hother.1 ?_
    rintro rfl
    exact hother.2 hown.2

/-- A load of bytecode into one's own process, with a length that does not wrap when it is aligned. -/
theorem callerStep_bcLoad {pid : UInt32} {bytecode len : UInt64} {r : FluxStatus × Kernel}
    (hok : HeapOk p.place s.kernel.heap) (hme : slotOf s.caller = some me)
    (hpid : bytecode = 0 ∨ s.kernel.heap.freeList = 0 ∨ ∀ i, s.kernel.procs.fluxGetPcb pid = some i →
      slotOf s.caller = some i ∧ len.toNat + 15 < UInt64.size)
    (hr : s.kernel.fluxBcLoad pid bytecode len = some r) :
    CallerStep p me exits s (s.withKernel r.2) := by
  rcases Kernel.fluxBcLoad_cases hr with
    ⟨-, h⟩ | ⟨i, q, heap, hbytecode, hi, halloc, ⟨-, -, h⟩ | ⟨hq, -, h⟩⟩
  · rw [h]
    exact CallerStep.refl hok
  · rw [h]
    exact (callerStep_alloc hok halloc).1
  obtain ⟨hslot, hlen⟩ : slotOf s.caller = some i ∧ len.toNat + 15 < UInt64.size := by
    refine ((hpid.resolve_left hbytecode).resolve_left fun hempty => ?_) i hi
    by_cases hlen0 : len = 0
    · rw [fluxAlloc, if_pos hlen0] at halloc
      cases halloc
      exact hq rfl
    · rw [fluxAlloc_of_empty hlen0 hempty] at halloc
      cases halloc
      exact hq rfl
  have him : i = me := Option.some.inj (hslot.symm.trans hme)
  subst him
  -- the bytecode is copied into the new block
  obtain ⟨hok', hkept, hnew⟩ := hok.alloc halloc
  obtain ⟨c, hc, rfl, -, hroom, hold⟩ := hnew hq
  have hsize : len.toNat ≤ c.size.toNat :=
    Nat.le_trans (le_memAlignUp hlen) (UInt64.le_iff_toNat_le.1 hroom)
  obtain ⟨live, hs⟩ := hok'.shape
  have hcopy (n : Nat) (hn : ¬heap.ByteIn p.place (· = c) n) :
      copy heap.mem c.ptr.toNat bytecode.toNat len.toNat n = heap.mem n := by
    refine copy_of_outside ?_
    have hstop : c.stop = c.payload + c.size.toNat := rfl
    rw [hs.layout.tiles.toNat_ptr hc]
    by_contra hin
    exact hn (.inr (.inr ⟨c, hc, rfl, by omega, by omega⟩))
  obtain ⟨hok'', -, hkept'⟩ := hok'.write hcopy
  have hheap : CallerStep p i exits s (s.withKernel { s.kernel with
      heap := { heap with mem := copy heap.mem c.ptr.toNat bytecode.toNat len.toNat } }) := by
    refine callerStep_heap hok'' fun b hb hother => ?_
    have hb' := hkept b hb hother.1
    exact hb'.trans (hkept' b hb'.stays (hold b hb hother.1))
  rw [h]
  exact hheap.trans (callerStep_own hok'' (Kernel.ChangesOwn.modifyPcb fun _ => rfl))

/-- An exit of the caller. -/
theorem callerStep_exit {r : FluxStatus × Kernel} (hok : HeapOk p.place s.kernel.heap)
    (hme : slotOf s.caller = some me) (hr : s.kernel.fluxExit = some r) :
    CallerStep p me True s (s.withKernel r.2) := by
  rcases Kernel.fluxExit_cases hr with ⟨-, h⟩ | ⟨i, hi, -, h⟩
  · rw [h]
    exact CallerStep.refl hok
  · have him : i = me := Option.some.inj ((Kernel.usedSlot_eq_some.1 hi).1.symm.trans hme)
    subst him
    rw [h]
    obtain ⟨-, -, hheap, hcurrent⟩ := Kernel.frame_exited (k := s.kernel) (i := i)
    refine ⟨⟨fun j hj => ?_, fun b hb _ => ⟨?_, rfl⟩⟩, hcurrent, ?_, ?_⟩
    · show (s.kernel.exited i).pcb j = _ ∨ True ∧ _ ∧ (s.kernel.exited i).pcb j = _
      rw [Kernel.pcb_exited, if_neg hj]
      split_ifs with hwoken
      · exact .inr ⟨trivial, hwoken.2.2, rfl⟩
      · exact .inl rfl
    · show KeepsBlock p.place b s.kernel.heap (s.kernel.exited i).heap
      rw [hheap]
      exact KeepsBlock.refl hb
    · show ((s.kernel.exited i).pcb i).capabilities = _
      rw [Kernel.pcb_exited, if_pos rfl]
      rfl
    · show HeapOk p.place (s.kernel.exited i).heap
      rw [hheap]
      exact hok

/-! ## Harmless calls -/

/-- The message that a receive of the caller takes. -/
def nextMessage (s : Os) (filter : UInt32) : Option IpcMessage :=
  (ipcGetQueue s.caller).bind fun j => ((s.kernel.ipc.queues j).findMessage filter).map fun n =>
    (s.kernel.ipc.queues j).messages.entry fluxIpcQueueDepth n

/-- The process whose bytecode a dump copies. -/
def dumped (s : Os) (pid : UInt32) : Option BcState :=
  (s.kernel.procs.fluxGetPcb pid).bind fun i =>
    if (s.kernel.pcb i).bc.active then some (s.kernel.pcb i).bc else none

end Os

namespace Syscall

variable {p : Platform} {s t : Os} {c : Syscall} {me : Slot}

/-- The places that a call without capabilities stores to: addresses with numbers of bytes. -/
def outputs (p : Platform) (c : Syscall) (s : Os) : List (UInt64 × Nat) :=
  if c.num = fluxSyscallGetpid then if c.arg0 = 0 then [] else [(c.arg0, 4)]
  else if c.num = fluxSyscallAlloc ∨ c.num = fluxSyscallMmap then
    if c.arg0 = 0 ∨ s.kernel.heap.memFindFreeBlock (memAlignUp c.arg0 fluxMemAlign) = some 0 then []
    else [(c.arg0, 8)]
  else if c.num = fluxSyscallA2aRecv then
    if c.arg1 = 0 ∨ c.arg2 = 0 then []
    else
      match s.nextMessage (if c.arg0 = 0 then fluxPidInvalid else UInt32.ofNat (s.load c.arg0 4)) with
      | none => []
      | some msg =>
        (c.arg1, (msg.deliver (UInt64.ofNat (s.load c.arg2 8))).payload.length) :: (c.arg2, 8) ::
          if c.arg0 = 0 then [] else [(c.arg0, 4)]
  else if c.num = fluxSyscallBcDump then
    if c.arg1 = 0 ∨ c.arg2 = 0 then []
    else
      match s.dumped c.arg0.toUInt32 with
      | none => []
      | some bc =>
        let size := UInt64.ofNat (s.load c.arg2 8)
        [(c.arg1, (if bc.bytecodeLen > size then size else bc.bytecodeLen).toNat), (c.arg2, 8)]
  else if c.num = fluxSyscallHwInfo then
    if c.arg0 = 0 ∨ c.arg1 = 0 then [] else [(c.arg0, (snprintf c.arg1.toNat (Os.hwInfoText p)).length)]
  else if c.num = fluxSyscallInfo then if c.arg0 = 0 then [] else [(c.arg0, 8)]
  else []

/-- The pids and pointers of a call are the caller's own, as far as nothing checks them. -/
structure Harmless (p : Platform) (c : Syscall) (s : Os) : Prop where
  kill : c.num = fluxSyscallKill →
    c.arg0.toUInt32 = fluxPidKernel ∨ s.kernel.StandsForCaller c.arg0.toUInt32
  free : c.num = fluxSyscallFree ∨ c.num = fluxSyscallMunmap → s.MayFree p c.arg0
  protect : c.num = fluxSyscallMprotect → s.RejectsProtect c.arg0 c.arg1 ∨ ∀ b ∈ s.blocks p,
    s.kernel.heap.OwnedByOther s.caller b → ¬b.Meets c.arg0 c.arg1
  load : c.num = fluxSyscallBcLoad → c.arg1 = 0 ∨ s.kernel.heap.freeList = 0 ∨
    ∀ i, s.kernel.procs.fluxGetPcb c.arg0.toUInt32 = some i →
      slotOf s.caller = some i ∧ c.arg2.toNat + 15 < UInt64.size
  exec : c.num = fluxSyscallBcExec → ∀ i, s.kernel.procs.fluxGetPcb c.arg0.toUInt32 = some i →
    (s.kernel.pcb i).bc.active = true → slotOf s.caller = some i
  out : ∀ o ∈ c.outputs p s, s.Owns p o.1 o.2

end Syscall

/-! ## The handlers -/

namespace Os

variable {p : Platform} {s t : Os} {c : Syscall} {me : Slot} {exits : Prop} {r : Returned} {num : Int32}
  {arg0 arg1 arg2 arg3 : UInt64}

/-- A check fails for a caller without capabilities. -/
theorem Capless.checkCap (hs : s.Capless me) (required : UInt64) : s.syscallCheckCap required = false := by
  unfold syscallCheckCap
  dsimp only
  rw [if_neg (show s.kernel.ks.currentPid ≠ fluxPidKernel from hs.notKernel)]
  cases hi : s.kernel.procs.fluxGetPcb s.kernel.ks.currentPid with
  | none => rfl
  | some i =>
    have him : i = me := Kernel.standsForCaller_current.eq hs.slot hi
    dsimp only
    rw [him, hs.caps, UInt64.zero_and]
    rfl

theorem Capless.ipcCheckCapability (hs : s.Capless me) : s.kernel.ipcCheckCapability s.caller = false := by
  unfold Kernel.ipcCheckCapability
  cases hi : s.kernel.procs.fluxGetPcb s.caller with
  | none => rfl
  | some i =>
    have him : i = me := Kernel.standsForCaller_current.eq hs.slot hi
    dsimp only
    rw [him, hs.caps, UInt64.zero_and]
    rfl

theorem CallerStep.of_done {status : FluxStatus} (h : CallerStep p me exits s t)
    (hr : t.done status = some r) : CallerStep p me exits s r.2 := by
  cases hr
  exact h

section Handlers

variable (hs : s.Capless me) (hok : HeapOk p.place s.kernel.heap)

include hs hok

theorem callerStep_process (hkill : num = fluxSyscallKill →
      arg0.toUInt32 = fluxPidKernel ∨ s.kernel.StandsForCaller arg0.toUInt32)
    (hout : num = fluxSyscallGetpid → arg0 ≠ 0 → s.Owns p arg0 4)
    (hr : s.handleProcessSyscall p num arg0 arg1 arg2 arg3 = some r) :
    CallerStep p me (num = fluxSyscallExit) s r.2 := by
  unfold handleProcessSyscall at hr
  simp only [hs.checkCap, Bool.not_false, if_true] at hr
  split_ifs at hr with hspawn hyield hexit hkill' hvalid hwait hgetpid harg
  · exact (CallerStep.refl hok).of_done hr
  · exact (callerStep_own hok (Kernel.changesOwn_yield hs.slot)).of_done hr
  · obtain ⟨x, hx, hr⟩ := Option.bind_eq_some_iff.1 hr
    have hstep := (callerStep_exit hok hs.slot hx).of_done hr
    exact { hstep with toOthersKept := hstep.toOthersKept.mono fun _ => hexit }
  · exact (CallerStep.refl hok).of_done hr
  · exact (callerStep_own hok (Kernel.changesOwn_kill hs.slot (hkill hkill'))).of_done hr
  · exact (callerStep_own hok (Kernel.changesOwn_wait hs.slot _)).of_done hr
  · refine (callerStep_store hok ?_).1.of_done hr
    rw [length_leBytes]
    exact hout hgetpid harg
  · exact (CallerStep.refl hok).of_done hr
  · exact (CallerStep.refl hok).of_done hr

omit hs in
theorem callerStep_syscallAlloc (hout : arg0 ≠ 0 →
      s.kernel.heap.memFindFreeBlock (memAlignUp arg0 fluxMemAlign) ≠ some 0 → s.Owns p arg0 8)
    (hr : s.syscallAlloc p arg0 arg1 = some r) : CallerStep p me exits s r.2 := by
  unfold syscallAlloc at hr
  split_ifs at hr with harg
  · exact (CallerStep.refl hok).of_done hr
  · obtain ⟨⟨q, heap⟩, halloc, hr⟩ := Option.bind_eq_some_iff.1 hr
    obtain ⟨hstep, howns⟩ : CallerStep p me exits s _ ∧ _ := callerStep_alloc hok halloc
    dsimp only at hr
    split_ifs at hr with hq
    · exact hstep.of_done hr
    · refine (hstep.trans (callerStep_store hstep.heap ?_).1).of_done hr
      rw [length_leBytes]
      refine howns _ _ (hout harg fun hnone => hq ?_)
      rw [fluxAlloc_of_none harg hnone] at halloc
      cases halloc
      rfl

omit hs in
theorem callerStep_syscallFree (hmay : s.MayFree p arg0) (hr : s.syscallFree arg0 = some r) :
    CallerStep p me exits s r.2 := by
  unfold syscallFree at hr
  split_ifs at hr
  · exact (CallerStep.refl hok).of_done hr
  · obtain ⟨heap, hfree, hr⟩ := Option.bind_eq_some_iff.1 hr
    exact (callerStep_free hok hmay hfree).of_done hr

omit hs in
theorem callerStep_memory (hfree : num = fluxSyscallFree ∨ num = fluxSyscallMunmap → s.MayFree p arg0)
    (hprotect : num = fluxSyscallMprotect → s.RejectsProtect arg0 arg1 ∨ ∀ b ∈ s.blocks p,
      s.kernel.heap.OwnedByOther s.caller b → ¬b.Meets arg0 arg1)
    (hout : num = fluxSyscallAlloc ∨ num = fluxSyscallMmap → arg0 ≠ 0 →
      s.kernel.heap.memFindFreeBlock (memAlignUp arg0 fluxMemAlign) ≠ some 0 → s.Owns p arg0 8)
    (hr : s.handleMemorySyscall p num arg0 arg1 arg2 = some r) : CallerStep p me exits s r.2 := by
  unfold handleMemorySyscall at hr
  split_ifs at hr with halloc hfree' hmmap hmunmap hprotect'
  · exact callerStep_syscallAlloc hok (hout (.inl halloc)) hr
  · exact callerStep_syscallFree hok (hfree (.inl hfree')) hr
  · exact callerStep_syscallAlloc hok (hout (.inr hmmap)) hr
  · exact callerStep_syscallFree hok (hfree (.inr hmunmap)) hr
  · exact (callerStep_protect hok (hprotect hprotect')).of_done hr
  · exact (CallerStep.refl hok).of_done hr

omit hs in
/-- The outputs of a receive, one after the other. -/
theorem callerStep_storeReceived {x : Received} (hbuf : s.Owns p arg1 x.payload.length)
    (hlen : s.Owns p arg2 8) (hsender : arg0 ≠ 0 → s.Owns p arg0 4) :
    CallerStep p me exits s (s.storeReceived p arg0 arg1 arg2 x) := by
  obtain ⟨hstep₁, howns₁⟩ : CallerStep p me exits s _ ∧ _ := callerStep_store hok hbuf
  have hlen₁ : (s.store p arg1 x.payload).Owns p arg2 (leBytes 8 x.len).length := by
    rw [length_leBytes]
    exact howns₁ _ _ hlen
  obtain ⟨hstep₂, howns₂⟩ : CallerStep p me exits _ _ ∧ _ := callerStep_store hstep₁.heap hlen₁
  unfold storeReceived
  dsimp only
  split_ifs with harg
  · refine (hstep₁.trans hstep₂).trans (callerStep_store hstep₂.heap ?_).1
    rw [length_leBytes]
    exact howns₂ _ _ (howns₁ _ _ (hsender harg))
  · exact hstep₁.trans hstep₂

omit hs in
theorem callerStep_syscallRecv (hout : arg1 ≠ 0 → arg2 ≠ 0 → ∀ msg,
      s.nextMessage (if arg0 = 0 then fluxPidInvalid else UInt32.ofNat (s.load arg0 4)) = some msg →
      s.Owns p arg1 (msg.deliver (UInt64.ofNat (s.load arg2 8))).payload.length ∧ s.Owns p arg2 8 ∧
        (arg0 ≠ 0 → s.Owns p arg0 4))
    (hr : s.syscallRecv p arg0 arg1 arg2 arg3 = some r) : CallerStep p me exits s r.2 := by
  unfold syscallRecv at hr
  by_cases hargs : arg1 = 0 ∨ arg2 = 0
  · rw [if_pos hargs] at hr
    exact (CallerStep.refl hok).of_done hr
  · rw [if_neg hargs] at hr
    obtain ⟨hbuf, hlen⟩ := not_or.1 hargs
    dsimp only at hr
    generalize hfilter : (if arg0 = 0 then fluxPidInvalid else UInt32.ofNat (s.load arg0 4)) = filter at hr hout
    rcases Kernel.fluxA2aRecv_cases s.kernel filter (UInt64.ofNat (s.load arg2 8)) arg3 with
      ⟨⟨status, h⟩, -⟩ | ⟨j, n, hj, hn, h⟩ | ⟨j, -, -, -, h⟩
    · rw [h] at hr
      exact (CallerStep.refl hok).of_done hr
    · rw [h] at hr
      have hmsg : s.nextMessage filter =
          some ((s.kernel.ipc.queues j).messages.entry fluxIpcQueueDepth n) := by
        rw [nextMessage, show ipcGetQueue s.caller = some j from hj, Option.bind_some, hn]
        rfl
      obtain ⟨hobuf, holen, hosender⟩ := hout hbuf hlen _ hmsg
      have htake : CallerStep p me exits s
          (s.withKernel (s.kernel.takeMessage j n (UInt64.ofNat (s.load arg2 8))).2) :=
        callerStep_own hok (Kernel.ChangesOwn.of_procs rfl rfl rfl)
      exact (htake.trans (callerStep_storeReceived htake.heap hobuf holen hosender)).of_done hr
    · rw [h] at hr
      cases hr

theorem callerStep_ipc (hout : num = fluxSyscallA2aRecv → arg1 ≠ 0 → arg2 ≠ 0 → ∀ msg,
      s.nextMessage (if arg0 = 0 then fluxPidInvalid else UInt32.ofNat (s.load arg0 4)) = some msg →
      s.Owns p arg1 (msg.deliver (UInt64.ofNat (s.load arg2 8))).payload.length ∧ s.Owns p arg2 8 ∧
        (arg0 ≠ 0 → s.Owns p arg0 4))
    (hr : s.handleIpcSyscall p num arg0 arg1 arg2 arg3 = some r) : CallerStep p me exits s r.2 := by
  unfold handleIpcSyscall at hr
  dsimp only at hr
  have hdenied := hs.ipcCheckCapability
  split_ifs at hr with hsend hrecv
  · refine CallerStep.of_done ?_ hr
    rcases Kernel.fluxA2aSend_cases s.kernel arg0.toUInt32 (s.bytesAt arg1 arg2) with ⟨-, h, -⟩ | ⟨i, j, h⟩
    · rw [h]
      exact CallerStep.refl hok
    · exact Bool.noConfusion (hdenied.symm.trans h.capability)
  · exact callerStep_syscallRecv hok (hout hrecv) hr
  · refine CallerStep.of_done ?_ hr
    rcases Kernel.fluxA2aBroadcast_cases s.kernel (s.bytesAt arg0 arg1) with ⟨-, h, -⟩ | h
    · rw [h]
      exact CallerStep.refl hok
    · exact Bool.noConfusion (hdenied.symm.trans h.capability)
  · exact (CallerStep.refl hok).of_done hr
  · exact (CallerStep.refl hok).of_done hr

omit hs in
theorem callerStep_bcStatus {pid : UInt32} (hr : s.syscallBcStatus pid = some r) :
    CallerStep p me exits s r.2 := by
  unfold syscallBcStatus at hr
  split at hr
  · exact (CallerStep.refl hok).of_done hr
  · split_ifs at hr
    · exact (CallerStep.refl hok).of_done hr
    · cases hr
      exact CallerStep.refl hok

omit hs in
theorem callerStep_bcDump {pid : UInt32} (hout : arg1 ≠ 0 → arg2 ≠ 0 → ∀ bc, s.dumped pid = some bc →
      s.Owns p arg1 (if bc.bytecodeLen > UInt64.ofNat (s.load arg2 8) then UInt64.ofNat (s.load arg2 8)
        else bc.bytecodeLen).toNat ∧ s.Owns p arg2 8)
    (hr : s.syscallBcDump p pid arg1 arg2 = some r) : CallerStep p me exits s r.2 := by
  unfold syscallBcDump at hr
  split_ifs at hr with hargs
  · exact (CallerStep.refl hok).of_done hr
  · split at hr
    · exact (CallerStep.refl hok).of_done hr
    · rename_i i hi
      dsimp only at hr
      by_cases hactive : (s.kernel.pcb i).bc.active = true
      · rw [if_neg (by simp [hactive])] at hr
        have hdumped : s.dumped pid = some (s.kernel.pcb i).bc := by
          rw [dumped, hi, Option.bind_some, if_pos hactive]
        obtain ⟨hobuf, holen⟩ := hout (fun h0 => hargs (.inr (.inl h0))) (fun h0 => hargs (.inr (.inr h0))) _
          hdumped
        have hbuf : s.Owns p arg1 (read s.kernel.heap.mem (s.kernel.pcb i).bc.bytecodeBase.toNat
            (if (s.kernel.pcb i).bc.bytecodeLen > UInt64.ofNat (s.load arg2 8) then
              UInt64.ofNat (s.load arg2 8) else (s.kernel.pcb i).bc.bytecodeLen).toNat).length := by
          rw [length_read]
          exact hobuf
        obtain ⟨hstep, howns⟩ : CallerStep p me exits s _ ∧ _ := callerStep_store hok hbuf
        refine (hstep.trans (callerStep_store hstep.heap ?_).1).of_done hr
        rw [length_leBytes]
        exact howns _ _ holen
      · rw [if_pos (by simpa using hactive)] at hr
        exact (CallerStep.refl hok).of_done hr

theorem callerStep_bytecode (hload : num = fluxSyscallBcLoad → arg1 = 0 ∨ s.kernel.heap.freeList = 0 ∨
      ∀ i, s.kernel.procs.fluxGetPcb arg0.toUInt32 = some i →
        slotOf s.caller = some i ∧ arg2.toNat + 15 < UInt64.size)
    (hexec : num = fluxSyscallBcExec → ∀ i, s.kernel.procs.fluxGetPcb arg0.toUInt32 = some i →
      (s.kernel.pcb i).bc.active = true → slotOf s.caller = some i)
    (hout : num = fluxSyscallBcDump → arg1 ≠ 0 → arg2 ≠ 0 → ∀ bc, s.dumped arg0.toUInt32 = some bc →
      s.Owns p arg1 (if bc.bytecodeLen > UInt64.ofNat (s.load arg2 8) then UInt64.ofNat (s.load arg2 8)
        else bc.bytecodeLen).toNat ∧ s.Owns p arg2 8)
    (hr : s.handleBytecodeSyscall p num arg0 arg1 arg2 = some r) : CallerStep p me exits s r.2 := by
  unfold handleBytecodeSyscall at hr
  dsimp only at hr
  split_ifs at hr with hload' hexec' hstatus hdump
  · obtain ⟨x, hx, hr⟩ := Option.bind_eq_some_iff.1 hr
    exact (callerStep_bcLoad hok hs.slot (hload hload') hx).of_done hr
  · exact (callerStep_own hok (Kernel.changesOwn_bcExec hs.slot (hexec hexec'))).of_done hr
  · exact callerStep_bcStatus hok hr
  · exact callerStep_bcDump hok (hout hdump) hr
  · exact (CallerStep.refl hok).of_done hr

theorem callerStep_compiler (hr : s.handleCompilerSyscall p num arg0 arg1 arg2 arg3 = some r) :
    CallerStep p me exits s r.2 := by
  unfold handleCompilerSyscall at hr
  simp only [hs.checkCap, Bool.not_false, if_true] at hr
  split_ifs at hr
  all_goals exact (CallerStep.refl hok).of_done hr

theorem callerStep_io (hr : s.handleIoSyscall p num arg0 arg1 = some r) : CallerStep p me exits s r.2 := by
  unfold handleIoSyscall syscallRead at hr
  simp only [hs.checkCap, Bool.not_false, if_true] at hr
  split_ifs at hr
  all_goals exact (CallerStep.refl hok).of_done hr

omit hs in
theorem callerStep_storeText {len : UInt64} {text : String}
    (hout : arg0 ≠ 0 → len ≠ 0 → s.Owns p arg0 (snprintf len.toNat text).length)
    (hr : s.storeText p arg0 len text = some r) : CallerStep p me exits s r.2 := by
  unfold storeText at hr
  split_ifs at hr with hargs
  · exact (CallerStep.refl hok).of_done hr
  · obtain ⟨hbuf, hlen⟩ := not_or.1 hargs
    exact (callerStep_store hok (hout hbuf hlen)).1.of_done hr

theorem callerStep_hw (hout : num = fluxSyscallHwInfo → arg0 ≠ 0 → arg1 ≠ 0 →
      s.Owns p arg0 (snprintf arg1.toNat (hwInfoText p)).length)
    (hr : s.handleHwSyscall p num arg0 arg1 = some r) : CallerStep p me exits s r.2 := by
  unfold handleHwSyscall at hr
  simp only [hs.checkCap, Bool.not_false, if_true] at hr
  split_ifs at hr with hinfo
  · exact callerStep_storeText hok (hout hinfo) hr
  · exact (CallerStep.refl hok).of_done hr
  · exact (CallerStep.refl hok).of_done hr

omit hs in
theorem callerStep_info (hout : num = fluxSyscallInfo → arg0 ≠ 0 → s.Owns p arg0 8)
    (hr : s.handleInfoSyscall p num arg0 = some r) : CallerStep p me exits s r.2 := by
  unfold handleInfoSyscall at hr
  split_ifs at hr with hinfo harg
  · refine (callerStep_store hok ?_).1.of_done hr
    rw [length_leBytes]
    exact hout hinfo harg
  · exact (CallerStep.refl hok).of_done hr
  · exact (CallerStep.refl hok).of_done hr
  · exact (CallerStep.refl hok).of_done hr

end Handlers

end Os

/-! ## Runs -/

namespace Syscall

variable {p : Platform} {s t : Os} {c : Syscall} {me : Slot}

section Outputs

variable (hc : c.Harmless p s)

include hc

theorem Harmless.owns {a : UInt64} {n : Nat} (h : (a, n) ∈ c.outputs p s) : s.Owns p a n := hc.out (a, n) h

theorem Harmless.getpid (hnum : c.num = fluxSyscallGetpid) (harg : c.arg0 ≠ 0) : s.Owns p c.arg0 4 := by
  refine hc.owns ?_
  rw [outputs, if_pos hnum, if_neg harg]
  exact List.mem_singleton_self _

theorem Harmless.alloc (hnum : c.num = fluxSyscallAlloc ∨ c.num = fluxSyscallMmap) (harg : c.arg0 ≠ 0)
    (hfind : s.kernel.heap.memFindFreeBlock (memAlignUp c.arg0 fluxMemAlign) ≠ some 0) :
    s.Owns p c.arg0 8 := by
  refine hc.owns ?_
  have hother : c.num ≠ fluxSyscallGetpid := by
    rcases hnum with h | h <;> rw [h] <;> decide
  rw [outputs, if_neg hother, if_pos hnum, if_neg (not_or.2 ⟨harg, hfind⟩)]
  exact List.mem_singleton_self _

theorem Harmless.recv (hnum : c.num = fluxSyscallA2aRecv) (hbuf : c.arg1 ≠ 0) (hlen : c.arg2 ≠ 0)
    (msg : IpcMessage) (hmsg : s.nextMessage
      (if c.arg0 = 0 then fluxPidInvalid else UInt32.ofNat (s.load c.arg0 4)) = some msg) :
    s.Owns p c.arg1 (msg.deliver (UInt64.ofNat (s.load c.arg2 8))).payload.length ∧ s.Owns p c.arg2 8 ∧
      (c.arg0 ≠ 0 → s.Owns p c.arg0 4) := by
  have hout : c.outputs p s = (c.arg1, (msg.deliver (UInt64.ofNat (s.load c.arg2 8))).payload.length) ::
      (c.arg2, 8) :: if c.arg0 = 0 then [] else [(c.arg0, 4)] := by
    rw [outputs, hnum, if_neg (by decide), if_neg (by decide), if_pos rfl, if_neg (not_or.2 ⟨hbuf, hlen⟩), hmsg]
  refine ⟨hc.owns ?_, hc.owns ?_, fun harg => hc.owns ?_⟩
  · rw [hout]
    exact List.mem_cons_self
  · rw [hout]
    exact List.mem_cons_of_mem _ List.mem_cons_self
  · rw [hout, if_neg harg]
    simp

theorem Harmless.dump (hnum : c.num = fluxSyscallBcDump) (hbuf : c.arg1 ≠ 0) (hlen : c.arg2 ≠ 0)
    (bc : BcState) (hbc : s.dumped c.arg0.toUInt32 = some bc) :
    s.Owns p c.arg1 (if bc.bytecodeLen > UInt64.ofNat (s.load c.arg2 8) then UInt64.ofNat (s.load c.arg2 8)
      else bc.bytecodeLen).toNat ∧ s.Owns p c.arg2 8 := by
  have hout : c.outputs p s = [(c.arg1, (if bc.bytecodeLen > UInt64.ofNat (s.load c.arg2 8) then
      UInt64.ofNat (s.load c.arg2 8) else bc.bytecodeLen).toNat), (c.arg2, 8)] := by
    rw [outputs, hnum, if_neg (by decide), if_neg (by decide), if_neg (by decide), if_pos rfl,
      if_neg (not_or.2 ⟨hbuf, hlen⟩), hbc]
  refine ⟨hc.owns ?_, hc.owns ?_⟩
  · rw [hout]
    exact List.mem_cons_self
  · rw [hout]
    simp

theorem Harmless.hwInfo (hnum : c.num = fluxSyscallHwInfo) (hbuf : c.arg0 ≠ 0) (hlen : c.arg1 ≠ 0) :
    s.Owns p c.arg0 (snprintf c.arg1.toNat (Os.hwInfoText p)).length := by
  refine hc.owns ?_
  rw [outputs, hnum, if_neg (by decide), if_neg (by decide), if_neg (by decide), if_neg (by decide), if_pos rfl,
    if_neg (not_or.2 ⟨hbuf, hlen⟩)]
  exact List.mem_singleton_self _

theorem Harmless.info (hnum : c.num = fluxSyscallInfo) (harg : c.arg0 ≠ 0) : s.Owns p c.arg0 8 := by
  refine hc.owns ?_
  rw [outputs, hnum, if_neg (by decide), if_neg (by decide), if_neg (by decide), if_neg (by decide),
    if_neg (by decide), if_pos rfl, if_neg harg]
  exact List.mem_singleton_self _

end Outputs

/-- The count of the calls is nothing a condition is about. -/
theorem Harmless.counted (hc : c.Harmless p s) : c.Harmless p s.countSyscall :=
  ⟨hc.kill, hc.free, hc.protect, hc.load, hc.exec, hc.out⟩

end Syscall

namespace Os

variable {p : Platform} {s t : Os} {c : Syscall} {calls : List Syscall} {me : Slot}

/-- A harmless call of a process without capabilities. -/
theorem callerStep_dispatch (hs : s.Capless me) (hok : HeapOk p.place s.kernel.heap) (hc : c.Harmless p s)
    (hstep : Os.step p c s = some t) : CallerStep p me (c.num = fluxSyscallExit) s t := by
  obtain ⟨r, hr, rfl⟩ := Option.map_eq_some_iff.1 hstep
  have hcount : CallerStep p me (c.num = fluxSyscallExit) s s.countSyscall :=
    callerStep_own hok (Kernel.ChangesOwn.of_procs rfl rfl rfl)
  have hs' := hcount.capless hs
  have hok' := hcount.heap
  have hc' := hc.counted
  refine hcount.trans ?_
  unfold fluxSyscallDispatch at hr
  dsimp only at hr
  split at hr
  · exact (CallerStep.refl hok').of_done hr
  split at hr
  · exact callerStep_process hs' hok' hc'.kill hc'.getpid hr
  split at hr
  · exact callerStep_memory hok' hc'.free hc'.protect hc'.alloc hr
  split at hr
  · exact callerStep_ipc hs' hok' hc'.recv hr
  split at hr
  · exact callerStep_bytecode hs' hok' hc'.load hc'.exec hc'.dump hr
  split at hr
  · exact callerStep_compiler hs' hok' hr
  split at hr
  · exact callerStep_io hs' hok' hr
  split at hr
  · exact callerStep_hw hs' hok' hc'.hwInfo hr
  split at hr
  · exact callerStep_info hok' hc'.info hr
  · exact (CallerStep.refl hok').of_done hr

/-- Harmless calls of a process without capabilities leave all other processes and their blocks alone, except
that its exit makes a process ready that waits for it. -/
theorem caplessCalls_keep_others (hs : s.Capless me) (hok : HeapOk p.place s.kernel.heap)
    (hcalls : MeetsAlong (Os.step p) (Syscall.Harmless p) calls s)
    (hrun : execute (Os.step p) calls s = some t) :
    OthersKept p me (∃ c ∈ calls, c.num = fluxSyscallExit) s t := by
  induction calls generalizing s with
  | nil =>
    cases hrun
    exact OthersKept.refl _
  | cons c calls ih =>
    obtain ⟨u, hu, hrest⟩ := Option.bind_eq_some_iff.1 hrun
    obtain ⟨hc, hcalls⟩ := hcalls u hu
    have hstep := callerStep_dispatch hs hok hc hu
    have hothers := ih (hstep.capless hs) hstep.heap hcalls hrest
    refine (hstep.toOthersKept.trans hothers hstep.current).mono fun hor => ?_
    rcases hor with hexit | ⟨d, hd, hexit⟩
    · exact ⟨c, List.mem_cons_self, hexit⟩
    · exact ⟨d, List.mem_cons_of_mem _ hd, hexit⟩

end Os

/-! ## A process whose capabilities are cleared -/

section Cleared

variable {place : HeapPlace} {k : Kernel}

theorem heapOk_spawn {entry stackSize : UInt64} {isAgent : Bool} {r : UInt32 × Kernel}
    (hok : HeapOk place k.heap) (hr : k.fluxSpawn entry stackSize isAgent = some r) : HeapOk place r.2.heap := by
  rcases k.fluxSpawn_cases entry stackSize isAgent with ⟨-, h⟩ | ⟨-, n, ⟨-, h⟩ | ⟨pid, i, -, -, h⟩⟩
  · rw [h] at hr
    cases hr
    exact hok
  · rw [h] at hr
    cases hr
    exact hok
  · rw [h] at hr
    obtain ⟨⟨q, heap⟩, halloc, rfl⟩ := Option.map_eq_some_iff.1 hr
    have hheap := (hok.alloc halloc).1
    dsimp only
    split_ifs
    · exact hheap
    · show HeapOk place (Kernel.installPcb _ _ _).heap
      unfold Kernel.installPcb
      dsimp only
      rw [(Kernel.base_enqueue _).heap]
      exact hheap

end Cleared

/-- The processes 2 and 3 are spawned, and 2 is scheduled. -/
def spawnTwo : List Action := [.spawn 0 0 false, .spawn 0 0 false, .schedule]

/-- The state after `spawnTwo`, with the capabilities of process 2 cleared. -/
def clearedOs : Os where
  kernel := ((execute System.step spawnTwo bootSystem).getD bootSystem).kernel.modifyPcb 1
    fun pcb => { pcb with capabilities := 0 }
  permTable := []
  console := fun _ => 0

/-- A platform without static variables besides the heap. -/
def plainPlatform : Platform where
  place := heapPlace
  statics := fun _ => false
  overwrite := fun k _ _ => k
  infoBuf := 0
  arch := "x86_64"
  avx := false

theorem clearedOs_capless : clearedOs.Capless 1 := ⟨by decide +kernel, by decide +kernel, by decide +kernel⟩

theorem clearedOs_heapOk : HeapOk plainPlatform.place clearedOs.kernel.heap := by
  have hboot : HeapOk heapPlace bootHeap := ⟨_, _, fluxMemInit_shape⟩
  have hrun : (execute System.step spawnTwo bootSystem).isSome := by decide +kernel
  obtain ⟨s, hs⟩ := Option.isSome_iff_exists.1 hrun
  have hcleared : clearedOs.kernel.heap = s.kernel.heap := by
    rw [clearedOs, hs]
    rfl
  show HeapOk heapPlace clearedOs.kernel.heap
  rw [hcleared]
  obtain ⟨s₁, h₁, hs⟩ := Option.bind_eq_some_iff.1 hs
  obtain ⟨s₂, h₂, hs⟩ := Option.bind_eq_some_iff.1 hs
  obtain ⟨s₃, h₃, hs⟩ := Option.bind_eq_some_iff.1 hs
  have hstep (s : System) : System.step (.spawn 0 0 false) s =
      (s.kernel.fluxSpawn 0 0 false).map fun r => s.withKernel r.2 := rfl
  rw [hstep] at h₁ h₂
  obtain ⟨r₁, hr₁, rfl⟩ := Option.map_eq_some_iff.1 h₁
  obtain ⟨r₂, hr₂, rfl⟩ := Option.map_eq_some_iff.1 h₂
  cases h₃
  cases hs
  show HeapOk heapPlace r₂.2.schedIteration.heap
  rw [Kernel.base_iteration.heap]
  exact heapOk_spawn (heapOk_spawn hboot hr₁) hr₂

/-- A yield and an exit of process 2. -/
theorem caplessCalls_keep_others_cleared : ∃ t,
    execute (Os.step plainPlatform) [⟨fluxSyscallYield, 0, 0, 0, 0⟩, ⟨fluxSyscallExit, 0, 0, 0, 0⟩] clearedOs =
      some t ∧
    Os.OthersKept plainPlatform 1 (∃ c ∈ [(⟨fluxSyscallYield, 0, 0, 0, 0⟩ : Syscall),
      ⟨fluxSyscallExit, 0, 0, 0, 0⟩], c.num = fluxSyscallExit) clearedOs t := by
  have hrun : (execute (Os.step plainPlatform)
      [⟨fluxSyscallYield, 0, 0, 0, 0⟩, ⟨fluxSyscallExit, 0, 0, 0, 0⟩] clearedOs).isSome := by decide +kernel
  obtain ⟨t, ht⟩ := Option.isSome_iff_exists.1 hrun
  refine ⟨t, ht, Os.caplessCalls_keep_others clearedOs_capless clearedOs_heapOk ?_ ht⟩
  have hharmless (num : Int32) (hnum : num = fluxSyscallYield ∨ num = fluxSyscallExit) (s : Os) :
      Syscall.Harmless plainPlatform ⟨num, 0, 0, 0, 0⟩ s := by
    rcases hnum with rfl | rfl
    all_goals exact ⟨fun h => absurd h (by decide), fun h => absurd h (by decide), fun h => absurd h (by decide),
      fun h => absurd h (by decide), fun h => absurd h (by decide), fun o ho => absurd ho List.not_mem_nil⟩
  exact fun s _ => ⟨hharmless _ (.inl rfl) _, fun u _ => ⟨hharmless _ (.inr rfl) s, trivial⟩⟩

/-- Process 2 has no capabilities and kills process 3. -/
theorem caplessKill_frees_other : clearedOs.Capless 1 ∧
    HeapOk plainPlatform.place clearedOs.kernel.heap ∧ (clearedOs.kernel.pcb 2).pid = 3 ∧
    (clearedOs.kernel.pcb 2).state = .ready ∧ ∃ t,
      execute (Os.step plainPlatform) [⟨fluxSyscallKill, 3, 0, 0, 0⟩] clearedOs = some t ∧
      (t.kernel.pcb 2).state = .unused ∧ ¬Os.OthersKept plainPlatform 1 (∃ c ∈
        [(⟨fluxSyscallKill, 3, 0, 0, 0⟩ : Syscall)], c.num = fluxSyscallExit) clearedOs t := by
  have hready : (clearedOs.kernel.pcb 2).state = .ready := by decide +kernel
  have hrun : ((execute (Os.step plainPlatform) [⟨fluxSyscallKill, 3, 0, 0, 0⟩] clearedOs).map fun t =>
      (t.kernel.pcb 2).state) = some .unused := by decide +kernel
  obtain ⟨t, ht, hfree⟩ := Option.map_eq_some_iff.1 hrun
  refine ⟨clearedOs_capless, clearedOs_heapOk, by decide +kernel, hready, t, ht, hfree, fun hkept => ?_⟩
  rcases hkept.pcb 2 (by decide) with heq | ⟨-, -, heq⟩
  · rw [heq, hready] at hfree
    cases hfree
  · rw [heq] at hfree
    cases hfree

end FluxOs
