import FluxOs.Kernel.Pids
import FluxOs.Kernel.HeapCalls

/-!
# The memory of processes

A process gets a stack from `flux_spawn` and a buffer from every `flux_bc_load`.  `proc_cleanup` clears the
fields that point to them and frees neither, so that what has not been freed before is lost when the process
ends.
-/

namespace FluxOs

open ByteMemory Actions MemHeap HeapState

/-- An operation of the kernel, or a client's write. -/
inductive MemoryAction
  | run (a : Action)
  | bcLoad (pid : UInt32) (bytecode len : UInt64)
  | bcExec (pid : UInt32)
  | realloc (p size : UInt64) (type : UInt32)
  | write (mem : Memory)

/-- The kernel, with the pointers that are allocated: all of them, the stack and the buffers of the process in
each slot, and those of the processes that ended. -/
structure MemoryState where
  sys : System
  live : List UInt64
  held : Slot → List UInt64
  lost : List UInt64

/-- There is a block in use whose contents start at `p`. -/
def MemHeap.Allocated (place : HeapPlace) (h : MemHeap) (p : UInt64) : Prop :=
  ∃ b ∈ h.heapBlocks place, b.free = false ∧ b.ptr = p

/-- The pointers of a list after `flux_realloc` of `p` to `size` bytes returned `q`. -/
def movePointers (p size q : UInt64) (l : List UInt64) : List UInt64 :=
  if p = 0 then l
  else if size = 0 then l.filter (· ≠ p)
  else if q = 0 then l
  else l.map fun r => if r = p then q else r

/-- The slot of the process that an action ends. -/
def MemoryAction.ended : MemoryAction → Kernel → Option Slot
  | .run .exit, k => k.procs.usedSlot k.ks.currentPid
  | .run (.kill pid), k => if pid = fluxPidKernel then none else k.procs.usedSlot pid
  | _, _ => none

namespace MemoryState

variable (s : MemoryState)

def heap : HeapState := ⟨s.sys.kernel.heap, s.live⟩

/-- The process in slot `i` gets the allocation at `p`. -/
def gain (k : Kernel) (i : Slot) (p : UInt64) : MemoryState :=
  ⟨s.sys.withKernel k, p :: s.live, Function.update s.held i (p :: s.held i), s.lost⟩

/-- The process in the slot ends. -/
def lose (k : Kernel) : Option Slot → MemoryState
  | some i => ⟨s.sys.withKernel k, s.live, Function.update s.held i [], s.held i ++ s.lost⟩
  | none => { s with sys := s.sys.withKernel k }

/-- The load of a buffer returned. -/
def loaded (pid : UInt32) (r : FluxStatus × Kernel) : MemoryState :=
  match r.1, s.sys.kernel.procs.fluxGetPcb pid with
  | .ok, some i => s.gain r.2 i (r.2.pcb i).bc.bytecodeBase
  | _, _ => { s with sys := s.sys.withKernel r.2 }

/-- One action.  The pointer to the stack is the start of the stack that `stack_ptr` is the top of, and the
pointer to the buffer is `bytecode_base`. -/
def step : MemoryAction → MemoryState → Option MemoryState
  | .run (.spawn entry stackSize isAgent), s =>
    (s.sys.kernel.fluxSpawn entry stackSize isAgent).map fun r =>
      match slotOf r.1 with
      | some i => s.gain r.2 i ((r.2.pcb i).stackPtr - Kernel.spawnStackSize stackSize)
      | none => { s with sys := s.sys.withKernel r.2 }
  | .run .exit, s =>
    s.sys.kernel.fluxExit.map fun r => s.lose r.2 (MemoryAction.ended (.run .exit) s.sys.kernel)
  | .run (.kill pid), s =>
    some (s.lose (s.sys.kernel.fluxKill pid).2 (MemoryAction.ended (.run (.kill pid)) s.sys.kernel))
  | .run (.alloc size type), s =>
    (s.sys.kernel.heap.fluxAlloc size type s.sys.kernel.ks.currentPid).map fun r =>
      { s with sys := s.sys.withKernel { s.sys.kernel with heap := r.2 }, live := liveAfterAlloc s.live r.1 }
  | .run (.free p), s =>
    (s.sys.kernel.heap.fluxFree p).map fun heap =>
      ⟨s.sys.withKernel { s.sys.kernel with heap }, s.live.erase p, fun i => (s.held i).filter (· ≠ p),
        s.lost.filter (· ≠ p)⟩
  | .run a, s => (s.sys.step a).map fun sys => { s with sys }
  | .bcLoad pid bytecode len, s =>
    (s.sys.kernel.fluxBcLoad pid bytecode len).map (s.loaded pid)
  | .bcExec pid, s => some { s with sys := s.sys.withKernel (s.sys.kernel.fluxBcExec pid).2 }
  | .realloc p size type, s =>
    (s.sys.kernel.heap.fluxRealloc p size type s.sys.kernel.ks.currentPid).map fun r =>
      ⟨s.sys.withKernel { s.sys.kernel with heap := r.2 }, liveAfterRealloc s.live p size r.1,
        fun i => movePointers p size r.1 (s.held i), movePointers p size r.1 s.lost⟩
  | .write mem, s => some { s with sys := s.sys.withKernel (s.sys.kernel.writeMem mem) }

/-- Clients pass pointers that they hold or that are rejected, they write to what is theirs, and the size of a
buffer of bytecode does not wrap when it is aligned. -/
def Legal (place : HeapPlace) : MemoryAction → MemoryState → Prop
  | .run (.free p), s | .realloc p _ _, s => p ∈ s.live ∨ s.sys.kernel.heap.IgnoresFree p
  | .bcLoad _ _ len, _ => len.toNat + 15 < UInt64.size
  | .write mem, s => ClientWrites place s.sys.kernel.heap s.live mem
  | _, _ => True

/-- No memory of a process that ended is still allocated. -/
def Clean (place : HeapPlace) (s : MemoryState) : Prop := ∀ p ∈ s.lost, ¬s.sys.kernel.heap.Allocated place p

/-- A process that ends has no allocation left. -/
def Released (a : MemoryAction) (s : MemoryState) : Prop :=
  ∀ i, a.ended s.sys.kernel = some i → s.held i = []

/-- The blocks in use are the allocated pointers, and all others are among them. -/
structure Sound (place : HeapPlace) (s : MemoryState) : Prop where
  shaped : Shaped place s.heap
  held i p : p ∈ s.held i → p ∈ s.live
  lost p : p ∈ s.lost → p ∈ s.live

end MemoryState

/-! ## What leaves the heap alone -/

namespace Kernel

variable {k : Kernel} {i : Slot} {pid : UInt32}

theorem heap_bcExec (pid : UInt32) : (k.fluxBcExec pid).2.heap = k.heap := by
  unfold fluxBcExec
  split_ifs
  · rfl
  · split
    · rfl
    · split_ifs <;> rfl

end Kernel

/-- An operation that neither allocates nor frees. -/
theorem System.heap_step {s t : System} {a : Action} (ht : s.step a = some t)
    (hspawn : ∀ entry stackSize isAgent, a ≠ .spawn entry stackSize isAgent)
    (halloc : ∀ size type, a ≠ .alloc size type) (hfree : ∀ p, a ≠ .free p) :
    t.kernel.heap = s.kernel.heap := by
  cases a with
  | spawn entry stackSize isAgent => exact absurd rfl (hspawn entry stackSize isAgent)
  | alloc size type => exact absurd rfl (halloc size type)
  | free p => exact absurd rfl (hfree p)
  | exit =>
    obtain ⟨r, hr, rfl⟩ := Option.map_eq_some_iff.1 ht
    exact (Kernel.base_exit hr).heap
  | kill pid =>
    cases ht
    exact (Kernel.base_kill pid).heap
  | yield =>
    cases ht
    exact Kernel.base_yield.heap
  | wait target =>
    cases ht
    exact (Kernel.base_wait target).heap
  | send target msg =>
    cases ht
    exact (Kernel.base_send target msg).heap
  | recv filter len timeout =>
    cases ht
    exact (Kernel.base_recv filter len timeout).heap
  | poll r =>
    obtain ⟨-, rfl⟩ := System.step_poll_eq_some.1 ht
    exact (Kernel.base_poll r).heap
  | broadcast msg =>
    cases ht
    exact (Kernel.base_broadcast msg).heap
  | enqueue pid =>
    cases ht
    exact (Kernel.base_enqueue pid).heap
  | dequeue =>
    cases ht
    exact Kernel.base_dequeue.heap
  | schedule =>
    cases ht
    exact Kernel.base_iteration.heap

/-! ## What allocates -/

namespace Kernel

variable {k k' : Kernel} {i : Slot} {pid : UInt32} {q entry stackSize : UInt64} {isAgent : Bool}

theorem stackPtr_installPcb {pcb : Pcb} : ((k.installPcb i pcb).pcb i).stackPtr = pcb.stackPtr := by
  have hself : Function.update k.procs.pcb i pcb i = pcb := Function.update_self ..
  unfold installPcb
  dsimp only
  rcases pcb_enqueue pcb.pid i with h | ⟨-, h⟩
  · rw [h]
    exact congrArg Pcb.stackPtr hself
  · rw [h]
    have hwoken (p : Pcb) : (wokenPcb p).stackPtr = p.stackPtr := by
      unfold wokenPcb
      split_ifs <;> rfl
    rw [hwoken]
    exact congrArg Pcb.stackPtr hself

theorem heap_installPcb {pcb : Pcb} : (k.installPcb i pcb).heap = k.heap := by
  unfold installPcb
  dsimp only
  rw [(base_enqueue _).heap]

/-- A spawn allocates nothing, or it allocates the stack of the process that it returns. -/
theorem heap_spawn {r : UInt32 × Kernel} (hr : k.fluxSpawn entry stackSize isAgent = some r) :
    (slotOf r.1 = none ∧ r.2.heap = k.heap) ∨ ∃ q,
      k.heap.fluxAlloc (spawnStackSize stackSize) (if isAgent then fluxMemAgent else fluxMemKernel)
        k.ks.currentPid = some (q, r.2.heap) ∧
      (q = 0 ∧ slotOf r.1 = none ∨ q ≠ 0 ∧ ∃ i, slotOf r.1 = some i ∧
        (r.2.pcb i).stackPtr - spawnStackSize stackSize = q) := by
  rcases fluxSpawn_cases k entry stackSize isAgent with
    ⟨-, h⟩ | ⟨-, n, ⟨-, h⟩ | ⟨pid, i, hslot, -, h⟩⟩
  · rw [h] at hr
    cases hr
    exact .inl ⟨slotOf_zero, rfl⟩
  · rw [h] at hr
    cases hr
    exact .inl ⟨slotOf_zero, rfl⟩
  · right
    rw [h] at hr
    obtain ⟨⟨q, heap⟩, halloc, hr⟩ := Option.map_eq_some_iff.1 hr
    by_cases hq : q = 0
    · have hr : (0, k.withAllocated n heap) = r := (if_pos hq).symm.trans hr
      subst hr
      exact ⟨q, halloc, .inl ⟨hq, slotOf_zero⟩⟩
    · have hr : (pid, (k.withAllocated n heap).installPcb i
          (k.spawnedPcb pid entry (q + spawnStackSize stackSize) isAgent)) = r := (if_neg hq).symm.trans hr
      subst hr
      refine ⟨q, halloc.trans ?_, .inr ⟨hq, i, hslot, ?_⟩⟩
      · rw [heap_installPcb]
        rfl
      · rw [stackPtr_installPcb]
        exact UInt64.add_sub_cancel ..

end Kernel

section Runs

variable {place : HeapPlace} {s t : MemoryState} {a : MemoryAction} {h h' : MemHeap} {live : List UInt64}
  {p q size : UInt64} {type pid : UInt32} {i : Slot}

theorem shaped_alloc (hs : Shaped place ⟨h, live⟩) (halloc : h.fluxAlloc size type pid = some (q, h')) :
    Shaped place ⟨h', liveAfterAlloc live q⟩ := by
  refine shaped_step place (.alloc size type pid) ⟨h, live⟩ _ trivial hs ?_
  rw [step, halloc]
  rfl

/-- The buffer that `flux_bc_load` allocates can hold the bytecode. -/
theorem shaped_load {bytecode len : UInt64} (hs : Shaped place ⟨h, live⟩)
    (halloc : h.fluxAlloc len type pid = some (q, h')) (hq : q ≠ 0) (hlen : len.toNat + 15 < UInt64.size) :
    Shaped place ⟨{ h' with mem := copy h'.mem q.toNat bytecode.toNat len.toNat }, q :: live⟩ := by
  rcases alloc_effect hs halloc with ⟨h0, -⟩ | ⟨-, -, heffect⟩
  · exact absurd h0 hq
  · refine (copy_effect heffect.shaped (q := q) List.mem_cons_self bytecode.toNat ?_).shaped
    exact Nat.le_trans (le_memAlignUp hlen) (UInt64.le_iff_toNat_le.1 heffect.room)

theorem loaded_of_error {r : FluxStatus × Kernel} (hstatus : r.1 ≠ .ok) :
    s.loaded pid r = { s with sys := s.sys.withKernel r.2 } := by
  unfold MemoryState.loaded
  split
  · rename_i hok _
    exact absurd hok hstatus
  · rfl

theorem loaded_of_ok {r : FluxStatus × Kernel} (hstatus : r.1 = .ok)
    (hi : s.sys.kernel.procs.fluxGetPcb pid = some i) :
    s.loaded pid r = s.gain r.2 i (r.2.pcb i).bc.bytecodeBase := by
  unfold MemoryState.loaded
  rw [hstatus, hi]

/-- What is live is a block in use. -/
theorem HeapState.Shaped.allocated (hs : Shaped place ⟨h, live⟩) (hp : p ∈ live) : h.Allocated place p := by
  obtain ⟨bs, hshape⟩ := hs
  obtain ⟨b, hb, hused, hptr, -, -⟩ := hshape.block_of_live hp
  exact ⟨b, hshape.layout.heapBlocks_eq ▸ hb, hused, hptr⟩

namespace MemoryState

theorem Sound.clean_iff (hs : Sound place s) : Clean place s ↔ s.lost = [] := by
  constructor
  · intro hclean
    refine List.eq_nil_iff_forall_not_mem.2 fun p hp => ?_
    exact hclean p hp (hs.shaped.allocated (hs.lost p hp))
  · intro hnil p hp
    rw [hnil] at hp
    cases hp

theorem sound_gain {k : Kernel} (hs : Sound place s) (hshaped : Shaped place ⟨k.heap, q :: s.live⟩) (i : Slot) :
    Sound place (s.gain k i q) := by
  refine ⟨hshaped, fun j p hp => ?_, fun p hp => List.mem_cons_of_mem _ (hs.lost p hp)⟩
  have hp : p ∈ Function.update s.held i (q :: s.held i) j := hp
  by_cases hji : j = i
  · subst hji
    rw [Function.update_self] at hp
    rcases List.mem_cons.1 hp with rfl | hp
    · exact List.mem_cons_self
    · exact List.mem_cons_of_mem _ (hs.held j p hp)
  · rw [Function.update_of_ne hji] at hp
    exact List.mem_cons_of_mem _ (hs.held j p hp)

theorem sound_lose {k : Kernel} (hs : Sound place s) (hheap : k.heap = s.sys.kernel.heap) (i : Option Slot) :
    Sound place (s.lose k i) := by
  have hshaped : Shaped place ⟨k.heap, s.live⟩ := hheap ▸ hs.shaped
  cases i with
  | none => exact ⟨hshaped, hs.held, hs.lost⟩
  | some i =>
    refine ⟨hshaped, fun j p hp => ?_, fun p hp => ?_⟩
    · have hp : p ∈ Function.update s.held i [] j := hp
      by_cases hji : j = i
      · subst hji
        rw [Function.update_self] at hp
        cases hp
      · rw [Function.update_of_ne hji] at hp
        exact hs.held j p hp
    · rcases List.mem_append.1 hp with hp | hp
      · exact hs.held i p hp
      · exact hs.lost p hp

theorem sound_withKernel {sys : System} (hs : Sound place s)
    (hheap : sys.kernel.heap = s.sys.kernel.heap) : Sound place { s with sys } := by
  have hshaped : Shaped place ⟨sys.kernel.heap, s.live⟩ := hheap ▸ hs.shaped
  exact ⟨hshaped, hs.held, hs.lost⟩

/-- Pointers that are allocated are so after `flux_realloc`. -/
theorem mem_movePointers {l live : List UInt64} (hl : ∀ r ∈ l, r ∈ live) :
    ∀ r ∈ movePointers p size q l, r ∈ liveAfterRealloc live p size q := by
  intro r hr
  unfold movePointers at hr
  unfold liveAfterRealloc
  split_ifs at hr ⊢ with hp hsize hq
  · unfold liveAfterAlloc
    split_ifs
    · exact hl r hr
    · exact List.mem_cons_of_mem _ (hl r hr)
  · obtain ⟨hr, hne⟩ := List.mem_filter.1 hr
    exact (List.mem_erase_of_ne (by simpa using hne)).2 (hl r hr)
  · exact hl r hr
  · obtain ⟨o, ho, rfl⟩ := List.mem_map.1 hr
    split_ifs with hop
    · exact List.mem_cons_self
    · exact List.mem_cons_of_mem _ ((List.mem_erase_of_ne hop).2 (hl o ho))

/-- An action keeps the state sound, and loses exactly what the process that it ends still holds. -/
structure StepSound (place : HeapPlace) (a : MemoryAction) (s t : MemoryState) : Prop where
  sound : Sound place t
  lost : s.lost = [] → (t.lost = [] ↔ Released a s)

theorem released_of_none (hended : a.ended s.sys.kernel = none) : Released a s := by
  intro i hi
  rw [hended] at hi
  cases hi

theorem stepSound_of_kept (hended : a.ended s.sys.kernel = none) (hsound : Sound place t)
    (hlost : s.lost = [] → t.lost = []) : StepSound place a s t :=
  ⟨hsound, fun hs => iff_of_true (hlost hs) (released_of_none hended)⟩

theorem stepSound_lose {k : Kernel} (hs : Sound place s) (hheap : k.heap = s.sys.kernel.heap) :
    StepSound place a s (s.lose k (a.ended s.sys.kernel)) := by
  refine ⟨sound_lose hs hheap _, fun hlost => ?_⟩
  unfold Released
  cases a.ended s.sys.kernel with
  | none => exact iff_of_true hlost fun i hi => by cases hi
  | some i =>
    have hshow : (s.lose k (some i)).lost = s.held i := by
      show s.held i ++ s.lost = s.held i
      rw [hlost, List.append_nil]
    rw [hshow]
    constructor
    · rintro hnil j ⟨⟩
      exact hnil
    · intro hall
      exact hall i rfl

theorem stepSound_other {sys : System} (hs : Sound place s) (hended : a.ended s.sys.kernel = none)
    (hheap : sys.kernel.heap = s.sys.kernel.heap) : StepSound place a s { s with sys } :=
  stepSound_of_kept hended (sound_withKernel hs hheap) id

theorem stepSound_run {a : Action} (hs : Sound place s) (hended : (MemoryAction.run a).ended s.sys.kernel = none)
    (ht : ((s.sys.step a).map fun sys => { s with sys }) = some t)
    (hspawn : ∀ entry stackSize isAgent, a ≠ .spawn entry stackSize isAgent)
    (halloc : ∀ size type, a ≠ .alloc size type) (hfree : ∀ p, a ≠ .free p) :
    StepSound place (.run a) s t := by
  obtain ⟨sys, hsys, rfl⟩ := Option.map_eq_some_iff.1 ht
  exact stepSound_other hs hended (System.heap_step hsys hspawn halloc hfree)

theorem stepSound_bcLoad {bytecode len : UInt64} {r : FluxStatus × Kernel} (hs : Sound place s)
    (hlen : len.toNat + 15 < UInt64.size) (hr : s.sys.kernel.fluxBcLoad pid bytecode len = some r) :
    StepSound place (.bcLoad pid bytecode len) s (s.loaded pid r) := by
  rcases Kernel.fluxBcLoad_cases hr with
    ⟨hstatus, hk⟩ | ⟨i, q, h', -, hi, halloc, ⟨hq, hstatus, hk⟩ | ⟨hq, hstatus, hk⟩⟩
  · rw [loaded_of_error hstatus, hk]
    exact stepSound_other hs rfl rfl
  · rw [loaded_of_error hstatus, hk]
    refine stepSound_of_kept rfl ⟨?_, hs.held, hs.lost⟩ id
    have hshaped := shaped_alloc hs.shaped halloc
    rw [liveAfterAlloc, if_pos hq] at hshaped
    exact hshaped
  · have hbase : (r.2.pcb i).bc.bytecodeBase = q := by
      rw [hk, Kernel.pcb_modifyPcb_self]
    rw [loaded_of_ok hstatus hi, hbase]
    refine stepSound_of_kept rfl (sound_gain hs ?_ i) id
    rw [hk]
    exact shaped_load hs.shaped halloc hq hlen

theorem step_spec (hlegal : Legal place a s) (hs : Sound place s) (ht : step a s = some t) :
    StepSound place a s t := by
  cases a with
  | bcExec pid =>
    cases ht
    exact stepSound_other hs rfl (Kernel.heap_bcExec pid)
  | write mem =>
    cases ht
    refine stepSound_of_kept rfl ⟨?_, hs.held, hs.lost⟩ id
    exact (write_effect hs.shaped hlegal).shaped
  | realloc p size type =>
    obtain ⟨⟨q, h'⟩, hrealloc, rfl⟩ := Option.map_eq_some_iff.1 ht
    refine stepSound_of_kept rfl ⟨?_, fun i => ?_, ?_⟩ fun hlost => ?_
    · refine shaped_step place (.realloc p size type s.sys.kernel.ks.currentPid) s.heap _ hlegal hs.shaped ?_
      exact Option.map_eq_some_iff.2 ⟨_, hrealloc, rfl⟩
    · exact mem_movePointers (hs.held i)
    · exact mem_movePointers hs.lost
    · show movePointers p size q s.lost = []
      rw [hlost]
      unfold movePointers
      split_ifs <;> rfl
  | bcLoad pid bytecode len =>
    obtain ⟨r, hr, rfl⟩ := Option.map_eq_some_iff.1 ht
    exact stepSound_bcLoad hs hlegal hr
  | run a =>
    cases a with
    | spawn entry stackSize isAgent =>
      obtain ⟨r, hr, rfl⟩ := Option.map_eq_some_iff.1 ht
      rcases Kernel.heap_spawn hr with ⟨hslot, hheap⟩ | ⟨q, halloc, ⟨hq, hslot⟩ | ⟨hq, i, hslot, hstack⟩⟩
      · rw [hslot]
        exact stepSound_other hs rfl hheap
      · rw [hslot]
        refine stepSound_of_kept rfl ⟨?_, hs.held, hs.lost⟩ id
        have hshaped := shaped_alloc hs.shaped halloc
        rw [liveAfterAlloc, if_pos hq] at hshaped
        exact hshaped
      · rw [hslot]
        dsimp only
        rw [hstack]
        refine stepSound_of_kept rfl (sound_gain hs ?_ i) id
        have hshaped := shaped_alloc hs.shaped halloc
        rw [liveAfterAlloc, if_neg hq] at hshaped
        exact hshaped
    | exit =>
      obtain ⟨r, hr, rfl⟩ := Option.map_eq_some_iff.1 ht
      exact stepSound_lose hs (Kernel.base_exit hr).heap
    | kill pid =>
      cases ht
      exact stepSound_lose hs (Kernel.base_kill pid).heap
    | alloc size type =>
      obtain ⟨⟨q, h'⟩, halloc, rfl⟩ := Option.map_eq_some_iff.1 ht
      have hsubset (p : UInt64) (hp : p ∈ s.live) : p ∈ liveAfterAlloc s.live q := by
        unfold liveAfterAlloc
        split_ifs
        · exact hp
        · exact List.mem_cons_of_mem _ hp
      exact stepSound_of_kept rfl ⟨shaped_alloc hs.shaped halloc, fun i p hp => hsubset p (hs.held i p hp),
        fun p hp => hsubset p (hs.lost p hp)⟩ id
    | free p =>
      obtain ⟨h', hfree, rfl⟩ := Option.map_eq_some_iff.1 ht
      have hkept (l : List UInt64) (hl : ∀ r ∈ l, r ∈ s.live) :
          ∀ r ∈ l.filter (· ≠ p), r ∈ s.live.erase p := by
        intro r hr
        obtain ⟨hr, hne⟩ := List.mem_filter.1 hr
        exact (List.mem_erase_of_ne (by simpa using hne)).2 (hl r hr)
      refine stepSound_of_kept rfl ⟨?_, fun i => hkept _ (hs.held i), hkept _ hs.lost⟩ fun hlost => ?_
      · refine shaped_step place (.free p) s.heap _ hlegal hs.shaped ?_
        exact Option.map_eq_some_iff.2 ⟨_, hfree, rfl⟩
      · show s.lost.filter (· ≠ p) = []
        rw [hlost]
        rfl
    | yield | wait | send | recv | poll | broadcast | enqueue | dequeue | schedule =>
      exact stepSound_run hs rfl ht (by simp) (by simp) (by simp)

end MemoryState

end Runs

namespace MemoryState

/-- After the boot nothing is allocated. -/
def bootMemory : MemoryState := ⟨bootSystem, [], fun _ => [], []⟩

theorem bootMemory_sound : Sound heapPlace bootMemory := by
  have hshape : HeapShape heapPlace bootHeap [initialBlock heapPlace] [] := fluxMemInit_shape
  refine ⟨⟨_, hshape⟩, fun i p hp => ?_, fun p hp => ?_⟩
  · cases hp
  · cases hp

/-- In every run of the kernel the memory of processes that ended is not allocated any more, if and only if every
process that ends has nothing left that was allocated for it. -/
theorem processMemory_iff {actions : List MemoryAction}
    (hlegal : MeetsAlong step (Legal heapPlace) actions bootMemory) :
    HoldsAlong step (Clean heapPlace) actions bootMemory ↔
      MeetsAlong step Released actions bootMemory := by
  refine holdsAlong_iff_meetsAlong
    (fun a s t (hlegal : Legal heapPlace a s) hs ht => (step_spec hlegal hs ht).sound)
    (fun a s t hlegal hs hclean ht => ?_) hlegal bootMemory_sound (bootMemory_sound.clean_iff.2 rfl)
  have hstep := step_spec hlegal hs ht
  rw [hstep.sound.clean_iff]
  exact hstep.lost (hs.clean_iff.1 hclean)

theorem processMemory_iff_kill :
    HoldsAlong step (Clean heapPlace) [.run (.spawn 0 0 false), .run (.kill 2)] bootMemory ↔
      MeetsAlong step Released [.run (.spawn 0 0 false), .run (.kill 2)] bootMemory :=
  processMemory_iff fun _ _ => ⟨trivial, fun _ _ => ⟨trivial, trivial⟩⟩

/-- A process that is spawned, gets bytecode twice and is killed leaves three blocks. -/
theorem killedProcess_not_clean : ∃ s, execute step
      [.run (.spawn 0 0 false), .bcLoad 2 100 4, .bcLoad 2 100 4, .run (.kill 2)] bootMemory = some s ∧
    s.lost.length = 3 ∧ (∀ p ∈ s.lost, s.sys.kernel.heap.Allocated heapPlace p) ∧ ¬Clean heapPlace s := by
  have hrun : ((execute step
      [.run (.spawn 0 0 false), .bcLoad 2 100 4, .bcLoad 2 100 4, .run (.kill 2)] bootMemory).map fun s =>
        s.lost.length) = some 3 := by
    decide +kernel
  obtain ⟨s, hs, hlost⟩ := Option.map_eq_some_iff.1 hrun
  have hlen : (4 : UInt64).toNat + 15 < UInt64.size := by decide
  have hlegal : MeetsAlong step (Legal heapPlace)
      [.run (.spawn 0 0 false), .bcLoad 2 100 4, .bcLoad 2 100 4, .run (.kill 2)] bootMemory :=
    fun _ _ => ⟨trivial, fun _ _ => ⟨hlen, fun _ _ => ⟨hlen, fun _ _ => ⟨trivial, trivial⟩⟩⟩⟩
  have hsound : Sound heapPlace s :=
    hlegal.invariant (fun _ _ _ hlegal hs ht => (step_spec hlegal hs ht).sound) bootMemory_sound hs
  refine ⟨s, hs, hlost, fun p hp => hsound.shaped.allocated (hsound.lost p hp), fun hclean => ?_⟩
  rw [hsound.clean_iff.1 hclean] at hlost
  exact absurd hlost (by decide)

end MemoryState

end FluxOs
