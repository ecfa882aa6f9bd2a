import FluxOs.Kernel.Runs
import FluxOs.Kernel.Syscall

/-!
# Runs of the operating system

The kernel with its system calls as one machine: the current process makes calls, receives that wait take rounds of
their loop, and the scheduler iterates.  What the operations of the kernel keep, the calls keep, and so every run of
the machine, as long as stores through pointers of calls do not reach the tables of the kernel.
-/

namespace FluxOs

open ByteMemory Actions

/-! ## The machine -/

/-- A receive that waits, with the pointers for its results. -/
structure WaitingRecv where
  receive : Receive
  sender : UInt64
  buf : UInt64
  len : UInt64
  deriving DecidableEq

/-- The kernel with the system calls that have not returned. -/
structure OsSystem where
  os : Os
  waiting : List WaitingRecv

/-- A spawn or a new default time slice by the kernel, a system call of the current process, a round of a receive that
waits, or an iteration of `flux_sched_run`. -/
inductive OsAction
  | spawn (entry stackSize : UInt64) (isAgent : Bool)
  | setTimeslice (ticks : UInt64)
  | syscall (c : Syscall)
  | poll (w : WaitingRecv)
  | schedule
  deriving DecidableEq

/-- `flux_sched_set_timeslice`. -/
def Kernel.fluxSchedSetTimeslice (k : Kernel) (ticks : UInt64) : Kernel :=
  if ticks > 0 ∧ ticks < 10000 then { k with sched := { k.sched with defaultTimeslice := ticks } } else k

/-- The receive that a call leaves waiting, and the kernel then. -/
def Os.startsToWait (c : Syscall) (s : Os) : Option (WaitingRecv × Os) :=
  if c.num = fluxSyscallA2aRecv ∧ c.arg1 ≠ 0 ∧ c.arg2 ≠ 0 then
    let filter := if c.arg0 = 0 then fluxPidInvalid else UInt32.ofNat (s.load c.arg0 4)
    match s.kernel.fluxA2aRecv filter (UInt64.ofNat (s.load c.arg2 8)) c.arg3 with
    | (.waiting r, k) => some (⟨r, c.arg0, c.arg1, c.arg2⟩, s.withKernel k)
    | (.done .., _) => none
  else none

namespace OsSystem

variable (p : Platform)

def step : OsAction → OsSystem → Option OsSystem
  | .spawn entry stackSize isAgent, s =>
    (s.os.kernel.fluxSpawn entry stackSize isAgent).map fun r => { s with os := s.os.withKernel r.2 }
  | .setTimeslice ticks, s => some { s with os := s.os.withKernel (s.os.kernel.fluxSchedSetTimeslice ticks) }
  | .syscall c, s =>
    match s.os.countSyscall.startsToWait c with
    | some (w, os) => some ⟨os, w :: s.waiting⟩
    | none => (s.os.step p c).map fun os => { s with os }
  | .poll w, s =>
    if w ∈ s.waiting then
      match s.os.kernel.recvPoll w.receive with
      | (.waiting _, k) => some { s with os := s.os.withKernel k }
      | (.done _ none, k) => some ⟨s.os.withKernel k, s.waiting.erase w⟩
      | (.done _ (some r), k) => some ⟨(s.os.withKernel k).storeReceived p w.sender w.buf w.len r, s.waiting.erase w⟩
    else none
  | .schedule, s => some { s with os := s.os.withKernel s.os.kernel.schedIteration }

/-- After the boot, with any console input. -/
def boot (console : Nat → UInt8) : OsSystem := ⟨⟨bootKernel, [], console⟩, []⟩

end OsSystem

/-- Calls are made by processes other than the kernel, with limits on whom they kill and what the time slice is. -/
def OsAction.Permitted (MayKill : UInt32 → Prop) (MaySet : UInt64 → Prop) (a : OsAction) (s : OsSystem) : Prop :=
  match a with
  | .setTimeslice ticks => MaySet ticks
  | .syscall c => s.os.kernel.ks.currentPid ≠ fluxPidKernel ∧ (c.num = fluxSyscallKill → MayKill c.arg0.toUInt32)
  | _ => True

/-- Stores to static variables do not reach the process table, the scheduler, the current pid and the clock. -/
def Platform.Protects (p : Platform) : Prop := ∀ k a bs, (p.overwrite k a bs).procs = k.procs ∧
  (p.overwrite k a bs).sched = k.sched ∧ (p.overwrite k a bs).ks.currentPid = k.ks.currentPid ∧
    (p.overwrite k a bs).ks.tickCount = k.ks.tickCount

/-! ## Invariants -/

/-- What calls do keeps `P`, if they do not come from the kernel process.  Receives that wait have the property
`R`. -/
structure CallInvariant (MayKill : UInt32 → Prop) (MaySet : UInt64 → Prop) (R : Receive → Prop)
    (P : Kernel → Prop) : Prop where
  frame {k k' : Kernel} : P k → k'.procs = k.procs → k'.sched = k.sched → k'.ks.currentPid = k.ks.currentPid →
    k'.ks.tickCount = k.ks.tickCount → P k'
  spawn {k : Kernel} {entry stackSize : UInt64} {isAgent : Bool} {r : UInt32 × Kernel} :
    P k → k.fluxSpawn entry stackSize isAgent = some r → P r.2
  exit {k : Kernel} {r : FluxStatus × Kernel} : P k → k.fluxExit = some r → P r.2
  kill {k : Kernel} {pid : UInt32} : P k → MayKill pid → P (k.fluxKill pid).2
  yield {k : Kernel} : P k → k.ks.currentPid ≠ fluxPidKernel → P k.fluxYield.2
  wait {k : Kernel} (target : UInt32) : P k → k.ks.currentPid ≠ fluxPidKernel → P (k.syscallWait target).2
  send {k : Kernel} (target : UInt32) (msg : List UInt8) : P k → P (k.fluxA2aSend target msg).2
  recv {k : Kernel} (filter : UInt32) (len timeout : UInt64) : P k → k.ks.currentPid ≠ fluxPidKernel →
    P (k.fluxA2aRecv filter len timeout).2 ∧ ∀ r, (k.fluxA2aRecv filter len timeout).1 = .waiting r → R r
  poll {k : Kernel} {r : Receive} : P k → R r → P (k.recvPoll r).2
  broadcast {k : Kernel} (msg : List UInt8) : P k → P (k.fluxA2aBroadcast msg).2
  bcLoad {k : Kernel} {pid : UInt32} {bytecode len : UInt64} {r : FluxStatus × Kernel} :
    P k → k.fluxBcLoad pid bytecode len = some r → P r.2
  bcExec {k : Kernel} (pid : UInt32) : P k → P (k.fluxBcExec pid).2
  setTimeslice {k : Kernel} {ticks : UInt64} : P k → MaySet ticks → P (k.fluxSchedSetTimeslice ticks)

/-- The scheduler keeps `P`, too. -/
structure OsInvariant (MayKill : UInt32 → Prop) (MaySet : UInt64 → Prop) (R : Receive → Prop)
    (P : Kernel → Prop) : Prop extends CallInvariant MayKill MaySet R P where
  iteration {k : Kernel} : P k → P k.schedIteration

/-! ## System calls -/

namespace Os

variable {p : Platform} {s : Os} {c : Syscall} {r : Returned} {num : Int32} {arg0 arg1 arg2 arg3 : UInt64}
  {MayKill : UInt32 → Prop} {MaySet : UInt64 → Prop} {R : Receive → Prop} {P : Kernel → Prop}

theorem keeps_of_done {status : FluxStatus} (hs : P s.kernel) (hr : s.done status = some r) : P r.2.kernel := by
  cases hr
  exact hs

section Handlers

variable (h : CallInvariant MayKill MaySet R P) (hp : p.Protects) (hcaller : s.kernel.ks.currentPid ≠ fluxPidKernel)
  (hs : P s.kernel)

include h hs

theorem keeps_heap (heap : MemHeap) : P (s.withKernel { s.kernel with heap }).kernel := h.frame hs rfl rfl rfl rfl

theorem keeps_protect (addr size : UInt64) (perm : UInt32) : P (s.fluxMemProtect addr size perm).2.kernel := by
  unfold fluxMemProtect
  split_ifs
  · exact hs
  · dsimp only
    split
    · exact h.frame hs rfl rfl rfl rfl
    · exact h.frame hs rfl rfl rfl rfl
  · dsimp only
    split
    · exact h.frame hs rfl rfl rfl rfl
    · exact hs

theorem keeps_syscallFree (hr : s.syscallFree arg0 = some r) : P r.2.kernel := by
  unfold syscallFree at hr
  split_ifs at hr
  · exact keeps_of_done hs hr
  · obtain ⟨heap, -, hr⟩ := Option.bind_eq_some_iff.1 hr
    exact keeps_of_done (keeps_heap h hs heap) hr

include hp

theorem keeps_store (a : UInt64) (bs : List UInt8) : P (s.store p a bs).kernel := by
  unfold Os.store
  split_ifs
  · obtain ⟨hprocs, hsched, hcurrent, htick⟩ := hp s.kernel a.toNat bs
    exact h.frame hs hprocs hsched hcurrent htick
  · exact h.frame hs rfl rfl rfl rfl

theorem keeps_syscallAlloc (hr : s.syscallAlloc p arg0 arg1 = some r) : P r.2.kernel := by
  unfold syscallAlloc at hr
  split_ifs at hr
  · exact keeps_of_done hs hr
  · obtain ⟨⟨q, heap⟩, -, hr⟩ := Option.bind_eq_some_iff.1 hr
    dsimp only at hr
    split_ifs at hr
    · exact keeps_of_done (keeps_heap h hs heap) hr
    · exact keeps_of_done (keeps_store h hp (keeps_heap h hs heap) _ _) hr

theorem keeps_memory (hr : s.handleMemorySyscall p num arg0 arg1 arg2 = some r) : P r.2.kernel := by
  unfold handleMemorySyscall at hr
  split_ifs at hr
  · exact keeps_syscallAlloc h hp hs hr
  · exact keeps_syscallFree h hs hr
  · exact keeps_syscallAlloc h hp hs hr
  · exact keeps_syscallFree h hs hr
  · exact keeps_of_done (keeps_protect h hs _ _ _) hr
  · exact keeps_of_done hs hr

theorem keeps_storeReceived (sender buf len : UInt64) (x : Received) :
    P (s.storeReceived p sender buf len x).kernel := by
  have htwo := keeps_store h hp (keeps_store h hp hs buf x.payload) len (leBytes 8 x.len)
  unfold storeReceived
  dsimp only
  split_ifs
  · exact keeps_store h hp htwo _ _
  · exact htwo

theorem keeps_bytecode (hr : s.handleBytecodeSyscall p num arg0 arg1 arg2 = some r) : P r.2.kernel := by
  unfold handleBytecodeSyscall at hr
  split_ifs at hr
  · obtain ⟨x, hx, hr⟩ := Option.bind_eq_some_iff.1 hr
    exact keeps_of_done (s := s.withKernel x.2) (h.bcLoad hs hx) hr
  · exact keeps_of_done (s := s.withKernel _) (h.bcExec _ hs) hr
  · unfold syscallBcStatus at hr
    split at hr
    · exact keeps_of_done hs hr
    · split_ifs at hr
      · exact keeps_of_done hs hr
      · cases hr
        exact hs
  · unfold syscallBcDump at hr
    split_ifs at hr
    · exact keeps_of_done hs hr
    · split at hr
      · exact keeps_of_done hs hr
      · rename_i i _
        dsimp only at hr
        by_cases hactive : (!(s.kernel.pcb i).bc.active) = true
        · rw [if_pos hactive] at hr
          exact keeps_of_done hs hr
        · rw [if_neg hactive] at hr
          exact keeps_of_done (keeps_store h hp (keeps_store h hp hs _ _) _ _) hr
  · exact keeps_of_done hs hr

theorem keeps_storeText {len : UInt64} {text : String} (hr : s.storeText p arg0 len text = some r) :
    P r.2.kernel := by
  unfold storeText at hr
  split_ifs at hr
  · exact keeps_of_done hs hr
  · exact keeps_of_done (keeps_store h hp hs _ _) hr

theorem keeps_compiler (hr : s.handleCompilerSyscall p num arg0 arg1 arg2 arg3 = some r) : P r.2.kernel := by
  unfold handleCompilerSyscall at hr
  split_ifs at hr
  · exact keeps_of_done hs hr
  · exact keeps_storeText h hp hs hr
  · exact keeps_of_done hs hr
  · exact keeps_of_done hs hr
  · exact keeps_of_done (keeps_store h hp hs _ _) hr
  · exact keeps_of_done hs hr
  · exact keeps_storeText h hp hs hr
  · exact keeps_of_done hs hr

theorem keeps_io (hr : s.handleIoSyscall p num arg0 arg1 = some r) : P r.2.kernel := by
  unfold handleIoSyscall syscallRead at hr
  split_ifs at hr
  case neg =>
    have hread (console : Nat → UInt8) : P ({ s with console } : Os).kernel := hs
    exact keeps_of_done (keeps_store h hp (keeps_store h hp (hread _) _ _) _ _) hr
  all_goals exact keeps_of_done hs hr

theorem keeps_hw (hr : s.handleHwSyscall p num arg0 arg1 = some r) : P r.2.kernel := by
  unfold handleHwSyscall at hr
  split_ifs at hr
  · exact keeps_storeText h hp hs hr
  · exact keeps_of_done hs hr
  · exact keeps_storeText h hp hs hr
  · exact keeps_of_done hs hr

theorem keeps_info (hr : s.handleInfoSyscall p num arg0 = some r) : P r.2.kernel := by
  unfold handleInfoSyscall at hr
  split_ifs at hr
  · exact keeps_of_done (keeps_store h hp hs _ _) hr
  · exact keeps_of_done hs hr
  · exact keeps_of_done hs hr
  · exact keeps_of_done hs hr

include hcaller

theorem keeps_process (hkill : num = fluxSyscallKill → MayKill arg0.toUInt32)
    (hr : s.handleProcessSyscall p num arg0 arg1 arg2 arg3 = some r) : P r.2.kernel := by
  unfold handleProcessSyscall at hr
  dsimp only at hr
  split_ifs at hr with hspawn hdenied hyield hexit hkill'
  · exact keeps_of_done hs hr
  · obtain ⟨x, hx, rfl⟩ := Option.map_eq_some_iff.1 hr
    exact h.spawn hs hx
  · exact keeps_of_done (s := s.withKernel _) (h.yield hs hcaller) hr
  · obtain ⟨x, hx, hr⟩ := Option.bind_eq_some_iff.1 hr
    exact keeps_of_done (s := s.withKernel x.2) (h.exit hs hx) hr
  · exact keeps_of_done hs hr
  · exact keeps_of_done (s := s.withKernel _) (h.kill hs (hkill hkill')) hr
  · exact keeps_of_done (s := s.withKernel _) (h.wait _ hs hcaller) hr
  · exact keeps_of_done (keeps_store h hp hs _ _) hr
  · exact keeps_of_done hs hr
  · exact keeps_of_done hs hr

theorem keeps_syscallRecv (hr : s.syscallRecv p arg0 arg1 arg2 arg3 = some r) : P r.2.kernel := by
  unfold syscallRecv at hr
  by_cases hargs : arg1 = 0 ∨ arg2 = 0
  · rw [if_pos hargs] at hr
    exact keeps_of_done hs hr
  rw [if_neg hargs] at hr
  dsimp only at hr
  generalize (if arg0 = 0 then fluxPidInvalid else UInt32.ofNat (s.load arg0 4)) = filter at hr
  obtain ⟨hrecv, -⟩ := h.recv filter (UInt64.ofNat (s.load arg2 8)) arg3 hs hcaller
  split at hr
  · rename_i status k hk
    rw [hk] at hrecv
    exact keeps_of_done (s := s.withKernel k) hrecv hr
  · rename_i status x k hk
    rw [hk] at hrecv
    exact keeps_of_done (keeps_storeReceived (s := s.withKernel k) h hp hrecv _ _ _ _) hr
  · cases hr

theorem keeps_ipc (hr : s.handleIpcSyscall p num arg0 arg1 arg2 arg3 = some r) : P r.2.kernel := by
  unfold handleIpcSyscall at hr
  split_ifs at hr
  · exact keeps_of_done (s := s.withKernel _) (h.send _ _ hs) hr
  · exact keeps_syscallRecv h hp hcaller hs hr
  · exact keeps_of_done (s := s.withKernel _) (h.broadcast _ hs) hr
  · exact keeps_of_done hs hr
  · exact keeps_of_done hs hr

/-- A call that returns keeps the invariant. -/
theorem keeps_dispatch (hkill : num = fluxSyscallKill → MayKill arg0.toUInt32)
    (hr : s.fluxSyscallDispatch p num arg0 arg1 arg2 arg3 = some r) : P r.2.kernel := by
  have hcount : P s.countSyscall.kernel := h.frame hs rfl rfl rfl rfl
  unfold fluxSyscallDispatch at hr
  dsimp only at hr
  split at hr
  · exact keeps_of_done hcount hr
  split at hr
  · exact keeps_process (s := s.countSyscall) h hp hcaller hcount hkill hr
  split at hr
  · exact keeps_memory h hp hcount hr
  split at hr
  · exact keeps_ipc (s := s.countSyscall) h hp hcaller hcount hr
  split at hr
  · exact keeps_bytecode h hp hcount hr
  split at hr
  · exact keeps_compiler h hp hcount hr
  split at hr
  · exact keeps_io h hp hcount hr
  split at hr
  · exact keeps_hw h hp hcount hr
  split at hr
  · exact keeps_info h hp hcount hr
  · exact keeps_of_done hcount hr

omit hp

/-- A call that leaves a receive waiting keeps the invariant, and the receive has its property. -/
theorem keeps_startsToWait {w : WaitingRecv} {os : Os} (hw : s.startsToWait c = some (w, os)) :
    P os.kernel ∧ R w.receive := by
  unfold startsToWait at hw
  dsimp only at hw
  generalize (if c.arg0 = 0 then fluxPidInvalid else UInt32.ofNat (s.load c.arg0 4)) = filter at hw
  split_ifs at hw
  obtain ⟨hrecv, hwaiting⟩ := h.recv filter (UInt64.ofNat (s.load c.arg2 8)) c.arg3 hs hcaller
  split at hw
  · rename_i r k hk
    obtain ⟨rfl, rfl⟩ := Prod.mk.inj (Option.some.inj hw)
    rw [hk] at hrecv
    exact ⟨hrecv, hwaiting r (congrArg Prod.fst hk)⟩
  · cases hw

end Handlers
end Os

/-! ## Runs -/

section Runs

variable {p : Platform} {MayKill : UInt32 → Prop} {MaySet : UInt64 → Prop} {R : Receive → Prop} {P : Kernel → Prop}
  {s t : OsSystem} {a : OsAction}

/-- The property of the kernel holds, and that of receives for those that wait. -/
def OsSystem.Holds (R : Receive → Prop) (P : Kernel → Prop) (s : OsSystem) : Prop :=
  P s.os.kernel ∧ ∀ w ∈ s.waiting, R w.receive

/-- The states that runs of permitted actions reach. -/
def OsSystem.Reachable (p : Platform) (MayKill : UInt32 → Prop) (MaySet : UInt64 → Prop) (s : OsSystem) : Prop :=
  ∃ console, Reaches (step p) (OsAction.Permitted MayKill MaySet) (boot console) s

/-- An action other than an iteration of the scheduler. -/
theorem CallInvariant.step (h : CallInvariant MayKill MaySet R P) (hp : p.Protects)
    (ha : a.Permitted MayKill MaySet s)
    (hcall : a ≠ .schedule) (hs : s.Holds R P) (ht : OsSystem.step p a s = some t) : t.Holds R P := by
  obtain ⟨hkernel, hwaiting⟩ := hs
  cases a with
  | spawn entry stackSize isAgent =>
    obtain ⟨r, hr, rfl⟩ := Option.map_eq_some_iff.1 ht
    exact ⟨h.spawn hkernel hr, hwaiting⟩
  | setTimeslice ticks =>
    cases ht
    exact ⟨h.setTimeslice hkernel ha, hwaiting⟩
  | syscall c =>
    obtain ⟨hcaller, hkill⟩ := ha
    have hcount : P s.os.countSyscall.kernel := h.frame hkernel rfl rfl rfl rfl
    rw [OsSystem.step] at ht
    split at ht
    · rename_i w os hw
      cases ht
      obtain ⟨hos, hreceive⟩ := Os.keeps_startsToWait (s := s.os.countSyscall) h hcaller hcount hw
      exact ⟨hos, List.forall_mem_cons.2 ⟨hreceive, hwaiting⟩⟩
    · obtain ⟨os, hos, rfl⟩ := Option.map_eq_some_iff.1 ht
      obtain ⟨r, hr, rfl⟩ := Option.map_eq_some_iff.1 hos
      exact ⟨Os.keeps_dispatch h hp hcaller hkernel hkill hr, hwaiting⟩
  | poll w =>
    rw [OsSystem.step] at ht
    split_ifs at ht with hw
    have hpoll := h.poll hkernel (hwaiting w hw)
    have hrest (v : WaitingRecv) (hv : v ∈ s.waiting.erase w) := hwaiting v (List.mem_of_mem_erase hv)
    split at ht
    · rename_i r k hk
      rw [hk] at hpoll
      cases ht
      exact ⟨hpoll, hwaiting⟩
    · rename_i status k hk
      rw [hk] at hpoll
      cases ht
      exact ⟨hpoll, hrest⟩
    · rename_i status x k hk
      rw [hk] at hpoll
      cases ht
      exact ⟨Os.keeps_storeReceived (s := s.os.withKernel k) h hp hpoll _ _ _ _, hrest⟩
  | schedule => exact absurd rfl hcall

theorem OsInvariant.step (h : OsInvariant MayKill MaySet R P) (hp : p.Protects) (a : OsAction) (s t : OsSystem)
    (ha : a.Permitted MayKill MaySet s) (hs : s.Holds R P) (ht : OsSystem.step p a s = some t) : t.Holds R P := by
  by_cases hcall : a = .schedule
  · subst hcall
    cases ht
    exact ⟨h.iteration hs.1, hs.2⟩
  · exact h.toCallInvariant.step hp ha hcall hs ht

/-- An invariant of the operations holds in every state that is reached. -/
theorem OsInvariant.holds (h : OsInvariant MayKill MaySet R P) (hp : p.Protects) (hboot : P bootKernel)
    (hrun : s.Reachable p MayKill MaySet) : s.Holds R P := by
  obtain ⟨console, hrun⟩ := hrun
  exact hrun.invariant (h.step hp) ⟨hboot, fun _ hw => absurd hw List.not_mem_nil⟩

end Runs

end FluxOs
