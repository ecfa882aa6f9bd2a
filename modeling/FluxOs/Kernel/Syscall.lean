import FluxOs.Kernel.Runs
import FluxOs.Kernel.Bytecode

/-!
# System calls

The dispatcher of `kernel/syscall.c` with its handlers, `flux_mem_protect` of `mem.c`, and the functions of
`main.c` and of the native HAL that only the handlers call.  Arguments are words; a pointer is an address of
the memory that holds the heap.  The log and the counters that are only printed are left out.
-/

namespace FluxOs

open ByteMemory Actions

/-! ## State -/

/-- `mem_perm_entry_t`. -/
structure MemPermEntry where
  base : UInt64
  size : UInt64
  perms : UInt32
  active : Bool
  deriving DecidableEq

def fluxMemMaxPermissions : Nat := 256

/-- The kernel with the used part of `s_perm_table` and the console input that is still to come. -/
structure Os where
  kernel : Kernel
  permTable : List MemPermEntry
  console : Nat → UInt8

/-- What the build and the host decide: where the variables lie, and what the hardware is. -/
structure Platform where
  place : HeapPlace
  /-- The bytes of the static variables besides the heap. -/
  statics : Nat → Bool
  /-- What bytes stored to static variables make of the kernel. -/
  overwrite : Kernel → Nat → List UInt8 → Kernel
  /-- The address of the text that `flux_kernel_info` returns. -/
  infoBuf : UInt64
  arch : String
  avx : Bool

/-- `flux_status_t` of a status. -/
def FluxStatus.code : FluxStatus → Int32
  | .ok => 0
  | .errGeneral => -1
  | .errNomem => -2
  | .errInvalid => -3
  | .errDenied => -4
  | .errTimeout => -5
  | .errBusy => -6
  | .errNotfound => -7
  | .errExists => -8
  | .errOverflow => -9
  | .errDeadlock => -10

/-! ## System call numbers -/

def fluxSyscallSpawn : Int32 := 100

def fluxSyscallYield : Int32 := 101

def fluxSyscallExit : Int32 := 102

def fluxSyscallKill : Int32 := 103

def fluxSyscallWait : Int32 := 104

def fluxSyscallGetpid : Int32 := 105

def fluxSyscallAlloc : Int32 := 200

def fluxSyscallFree : Int32 := 201

def fluxSyscallMmap : Int32 := 202

def fluxSyscallMunmap : Int32 := 203

def fluxSyscallMprotect : Int32 := 204

def fluxSyscallA2aSend : Int32 := 300

def fluxSyscallA2aRecv : Int32 := 301

def fluxSyscallA2aBroadcast : Int32 := 302

def fluxSyscallA2aSubscribe : Int32 := 303

def fluxSyscallBcLoad : Int32 := 400

def fluxSyscallBcExec : Int32 := 401

def fluxSyscallBcStatus : Int32 := 402

def fluxSyscallBcDump : Int32 := 403

def fluxSyscallCompile : Int32 := 500

def fluxSyscallEmit : Int32 := 501

def fluxSyscallDevcode : Int32 := 502

def fluxSyscallRead : Int32 := 600

def fluxSyscallWrite : Int32 := 601

def fluxSyscallIoctl : Int32 := 602

def fluxSyscallOpen : Int32 := 603

def fluxSyscallClose : Int32 := 604

def fluxSyscallHwInfo : Int32 := 700

def fluxSyscallHwConfig : Int32 := 701

def fluxSyscallInfo : Int32 := 800

def fluxSyscallLog : Int32 := 801

/-! ## Memory -/

/-- The bytes of a text. -/
def textBytes (text : String) : List UInt8 := text.toList.map fun c => UInt8.ofNat c.toNat

/-- What `snprintf` puts into a buffer of `len` bytes. -/
def snprintf (len : Nat) (text : String) : List UInt8 := (textBytes text).take (len - 1) ++ [0]

namespace Os

variable (p : Platform) (s : Os)

def withKernel (k : Kernel) : Os := { s with kernel := k }

/-- The number in the `n` bytes at an address. -/
def load (a : UInt64) (n : Nat) : Nat := leNat (read s.kernel.heap.mem a.toNat n)

/-- Store bytes through a pointer. -/
def store (a : UInt64) (bs : List UInt8) : Os :=
  if (List.range bs.length).any fun i => p.statics (a.toNat + i) then
    s.withKernel (p.overwrite s.kernel a.toNat bs)
  else s.withKernel (s.kernel.writeMem (write s.kernel.heap.mem a.toNat bs))

/-! ## Checks -/

/-- `syscall_validate_pid`. -/
def syscallValidatePid (pid : UInt32) : Bool :=
  if pid = fluxPidInvalid then false else (s.kernel.procs.fluxGetPcb pid).isSome

/-- `syscall_check_cap`. -/
def syscallCheckCap (required : UInt64) : Bool :=
  let pid := s.kernel.ks.currentPid
  if pid = fluxPidKernel then true
  else
    match s.kernel.procs.fluxGetPcb pid with
    | some i => (s.kernel.pcb i).capabilities &&& required ≠ 0
    | none => false

/-- The status and the state of a call that has returned. -/
abbrev Returned := Int32 × Os

/-- Return a status. -/
def done (status : FluxStatus) : Option Returned := some (status.code, s)

/-! ## Processes -/

/-- `handle_process_syscall`. -/
def handleProcessSyscall (num : Int32) (arg0 arg1 arg2 arg3 : UInt64) : Option Returned :=
  if num = fluxSyscallSpawn then
    if !s.syscallCheckCap fluxCapSpawn then s.done .errDenied
    else
      (s.kernel.fluxSpawn arg1 arg2 (arg3 ≠ 0)).map fun r =>
        (if r.1 ≠ fluxPidInvalid then r.1.toInt32 else FluxStatus.errGeneral.code, s.withKernel r.2)
  else if num = fluxSyscallYield then
    let r := s.kernel.fluxYield
    (s.withKernel r.2).done r.1
  else if num = fluxSyscallExit then
    s.kernel.fluxExit.bind fun r => (s.withKernel r.2).done r.1
  else if num = fluxSyscallKill then
    let target := arg0.toUInt32
    if !s.syscallValidatePid target then s.done .errNotfound
    else
      let r := s.kernel.fluxKill target
      (s.withKernel r.2).done r.1
  else if num = fluxSyscallWait then
    let r := s.kernel.syscallWait arg0.toUInt32
    (s.withKernel r.2).done r.1
  else if num = fluxSyscallGetpid then
    if arg0 ≠ 0 then (s.store p arg0 (leBytes 4 s.kernel.ks.currentPid.toNat)).done .ok else s.done .ok
  else s.done .errInvalid

/-! ## Memory management -/

/-- `flux_mem_protect`; the function of the native HAL does nothing. -/
def fluxMemProtect (addr size : UInt64) (perm : UInt32) : FluxStatus × Os :=
  if size = 0 ∨ addr = 0 then (.errInvalid, s)
  else
    let k := { s.kernel with heap := { s.kernel.heap with
      memMap :=
        match (s.kernel.heap.memMap.take s.kernel.heap.memMapCount.toNat).findIdx? fun entry =>
          entry.active && entry.base = addr with
        | some i => s.kernel.heap.memMap.modify i fun entry => { entry with perms := perm }
        | none => s.kernel.heap.memMap } }
    match s.permTable.findIdx? fun entry => entry.active && entry.base = addr && entry.size = size with
    | some i =>
      (.ok, { s with kernel := k, permTable := s.permTable.modify i fun entry => { entry with perms := perm } })
    | none =>
      if s.permTable.length < fluxMemMaxPermissions then
        (.ok, { s with kernel := k, permTable := s.permTable ++ [⟨addr, size, perm, true⟩] })
      else (.errOverflow, s)

/-- The cases `FLUX_SYSCALL_ALLOC` and `FLUX_SYSCALL_MMAP`: the size is also the address for the result. -/
def syscallAlloc (arg0 arg1 : UInt64) : Option Returned :=
  if arg0 = 0 then s.done .errInvalid
  else
    (s.kernel.heap.fluxAlloc arg0 arg1.toUInt32 s.kernel.ks.currentPid).bind fun r =>
      let s := s.withKernel { s.kernel with heap := r.2 }
      if r.1 = 0 then s.done .errNomem else (s.store p arg0 (leBytes 8 r.1.toNat)).done .ok

/-- The cases `FLUX_SYSCALL_FREE` and `FLUX_SYSCALL_MUNMAP`. -/
def syscallFree (arg0 : UInt64) : Option Returned :=
  if arg0 = 0 then s.done .errInvalid
  else (s.kernel.heap.fluxFree arg0).bind fun heap => (s.withKernel { s.kernel with heap }).done .ok

/-- `handle_memory_syscall`. -/
def handleMemorySyscall (num : Int32) (arg0 arg1 arg2 : UInt64) : Option Returned :=
  if num = fluxSyscallAlloc then s.syscallAlloc p arg0 arg1
  else if num = fluxSyscallFree then s.syscallFree arg0
  else if num = fluxSyscallMmap then s.syscallAlloc p arg0 arg1
  else if num = fluxSyscallMunmap then s.syscallFree arg0
  else if num = fluxSyscallMprotect then
    let r := s.fluxMemProtect arg0 arg1 arg2.toUInt32
    r.2.done r.1
  else s.done .errInvalid

/-! ## Messages -/

/-- The bytes at a pointer, none at `NULL`. -/
def bytesAt (a len : UInt64) : List UInt8 :=
  if a = 0 then [] else read s.kernel.heap.mem a.toNat len.toNat

/-- The results of a receive are stored through its pointers. -/
def storeReceived (sender buf len : UInt64) (r : Received) : Os :=
  let s := s.store p buf r.payload
  let s := s.store p len (leBytes 8 r.len)
  if sender ≠ 0 then s.store p sender (leBytes 4 r.sender.toNat) else s

/-- The case `FLUX_SYSCALL_A2A_RECV`.  A receive that waits does not return as long as nothing else runs. -/
def syscallRecv (sender buf len timeout : UInt64) : Option Returned :=
  if buf = 0 ∨ len = 0 then s.done .errInvalid
  else
    let filter := if sender = 0 then fluxPidInvalid else UInt32.ofNat (s.load sender 4)
    match s.kernel.fluxA2aRecv filter (UInt64.ofNat (s.load len 8)) timeout with
    | (.done status none, k) => (s.withKernel k).done status
    | (.done status (some r), k) => ((s.withKernel k).storeReceived p sender buf len r).done status
    | (.waiting _, _) => none

/-- `handle_ipc_syscall`. -/
def handleIpcSyscall (num : Int32) (arg0 arg1 arg2 arg3 : UInt64) : Option Returned :=
  if num = fluxSyscallA2aSend then
    let r := s.kernel.fluxA2aSend arg0.toUInt32 (s.bytesAt arg1 arg2)
    (s.withKernel r.2).done r.1
  else if num = fluxSyscallA2aRecv then s.syscallRecv p arg0 arg1 arg2 arg3
  else if num = fluxSyscallA2aBroadcast then
    let r := s.kernel.fluxA2aBroadcast (s.bytesAt arg0 arg1)
    (s.withKernel r.2).done r.1
  else if num = fluxSyscallA2aSubscribe then s.done .ok
  else s.done .errInvalid

/-! ## Bytecode -/

/-- The case `FLUX_SYSCALL_BC_STATUS`. -/
def syscallBcStatus (pid : UInt32) : Option Returned :=
  match s.kernel.procs.fluxGetPcb pid with
  | none => s.done .errNotfound
  | some i =>
    if !(s.kernel.pcb i).bc.active then s.done .errInvalid
    else some ((s.kernel.pcb i).bc.pc.toUInt32.toInt32, s)

/-- The case `FLUX_SYSCALL_BC_DUMP`: `flux_bc_dump` with its stores through pointers. -/
def syscallBcDump (pid : UInt32) (buf len : UInt64) : Option Returned :=
  if pid = fluxPidInvalid ∨ buf = 0 ∨ len = 0 then s.done .errInvalid
  else
    match s.kernel.procs.fluxGetPcb pid with
    | none => s.done .errNotfound
    | some i =>
      let bc := (s.kernel.pcb i).bc
      if !bc.active then s.done .errNotfound
      else
        let size := UInt64.ofNat (s.load len 8)
        let copyLen := if bc.bytecodeLen > size then size else bc.bytecodeLen
        let s := s.store p buf (read s.kernel.heap.mem bc.bytecodeBase.toNat copyLen.toNat)
        (s.store p len (leBytes 8 bc.bytecodeLen.toNat)).done .ok

/-- `handle_bytecode_syscall`. -/
def handleBytecodeSyscall (num : Int32) (arg0 arg1 arg2 : UInt64) : Option Returned :=
  if num = fluxSyscallBcLoad then
    (s.kernel.fluxBcLoad arg0.toUInt32 arg1 arg2).bind fun r => (s.withKernel r.2).done r.1
  else if num = fluxSyscallBcExec then
    let r := s.kernel.fluxBcExec arg0.toUInt32
    (s.withKernel r.2).done r.1
  else if num = fluxSyscallBcStatus then s.syscallBcStatus arg0.toUInt32
  else if num = fluxSyscallBcDump then s.syscallBcDump p arg0.toUInt32 arg1 arg2
  else s.done .errInvalid

/-! ## Compiler -/

/-- A text, cut to a buffer of `len` bytes with a final zero byte. -/
def storeText (output len : UInt64) (text : String) : Option Returned :=
  if output = 0 ∨ len = 0 then s.done .errInvalid
  else (s.store p output (snprintf len.toNat text)).done .ok

/-- `flux_compile_source`. -/
def fluxCompileSource (output outLen : UInt64) : Option Returned :=
  s.storeText p output outLen "// FLUX compiled output (stub)\n"

/-- `flux_devcode`. -/
def fluxDevcode (output outLen : UInt64) : Option Returned :=
  s.storeText p output outLen "// FLUX devcode output (stub)\n"

/-- `handle_compiler_syscall`. -/
def handleCompilerSyscall (num : Int32) (arg0 arg1 arg2 arg3 : UInt64) : Option Returned :=
  if num = fluxSyscallCompile then
    if !s.syscallCheckCap fluxCapCompile then s.done .errDenied else s.fluxCompileSource p arg2 arg3
  else if num = fluxSyscallEmit then
    if !s.syscallCheckCap fluxCapCompile then s.done .errDenied
    else if arg0 = 0 ∨ arg1 = 0 ∨ arg2 = 0 then s.done .errInvalid
    else (s.store p arg1 (s.bytesAt arg0 arg2)).done .ok
  else if num = fluxSyscallDevcode then
    if !s.syscallCheckCap (fluxCapCompile ||| fluxCapSupervisor) then s.done .errDenied
    else s.fluxDevcode p arg1 arg2
  else s.done .errInvalid

/-! ## Input and output -/

/-- The loop of the case `FLUX_SYSCALL_READ`: up to `n` characters, or to the end of a line. -/
def readLine (console : Nat → UInt8) : Nat → List UInt8
  | 0 => []
  | n + 1 =>
    let c := console 0
    if c = 13 ∨ c = 10 then [c] else c :: readLine (fun i => console (i + 1)) n

/-- The case `FLUX_SYSCALL_READ` with `*len` converted to `int` as its limit. -/
def syscallRead (buf len : UInt64) : Option Returned :=
  if !s.syscallCheckCap fluxCapIoRead then s.done .errDenied
  else if buf = 0 ∨ len = 0 ∨ s.load len 8 = 0 then s.done .errInvalid
  else
    let line := readLine s.console (UInt64.ofNat (s.load len 8)).toUInt32.toInt32.toInt.toNat
    let s := { s with console := fun i => s.console (i + line.length) }
    ((s.store p buf line).store p len (leBytes 8 line.length)).done .ok

/-- `handle_io_syscall`; what is written to the console is not kept. -/
def handleIoSyscall (num : Int32) (arg0 arg1 : UInt64) : Option Returned :=
  if num = fluxSyscallRead then s.syscallRead p arg0 arg1
  else if num = fluxSyscallWrite then
    if !s.syscallCheckCap fluxCapIoWrite then s.done .errDenied
    else if arg0 = 0 ∨ arg1 = 0 then s.done .errInvalid
    else s.done .ok
  else if num = fluxSyscallIoctl then s.done .ok
  else if num = fluxSyscallOpen ∨ num = fluxSyscallClose then s.done .errGeneral
  else s.done .errInvalid

/-! ## Hardware and information -/

/-- The text of `native_hw_info_dump`. -/
def hwInfoText : String :=
  "FLUX Native HAL\n  arch: " ++ p.arch ++ "\n  hal_version: 0.1.0\n" ++
    "  platform: hosted (Linux/macOS/POSIX)\n  features: mmu fpu sse sse2" ++
    (if p.avx then " avx" else "") ++ "\n  memory: simulated 16MB\n"

/-- The text of `native_hw_optimal_config`. -/
def hwConfigText : String :=
  "optimal_config \x7b\n  target: native\n  optimize: speed\n  simd: auto\n\x7d\n"

/-- `handle_hw_syscall`. -/
def handleHwSyscall (num : Int32) (arg0 arg1 : UInt64) : Option Returned :=
  if num = fluxSyscallHwInfo then s.storeText p arg0 arg1 (hwInfoText p)
  else if num = fluxSyscallHwConfig then
    if !s.syscallCheckCap fluxCapHardware then s.done .errDenied
    else s.storeText p arg0 arg1 hwConfigText
  else s.done .errInvalid

/-- `handle_info_syscall`. -/
def handleInfoSyscall (num : Int32) (arg0 : UInt64) : Option Returned :=
  if num = fluxSyscallInfo then
    if arg0 ≠ 0 then (s.store p arg0 (leBytes 8 p.infoBuf.toNat)).done .ok else s.done .ok
  else if num = fluxSyscallLog then s.done .ok
  else s.done .errInvalid

/-! ## Dispatch -/

/-- Count a system call. -/
def countSyscall : Os :=
  s.withKernel { s.kernel with ks := { s.kernel.ks with syscallCount := s.kernel.ks.syscallCount + 1 } }

/-- `flux_syscall_dispatch`. -/
def fluxSyscallDispatch (num : Int32) (arg0 arg1 arg2 arg3 : UInt64) : Option Returned :=
  let s := s.countSyscall
  if num < 100 ∨ num > 899 then s.done .errInvalid
  else
    let category := num / 100
    if category = 1 then s.handleProcessSyscall p num arg0 arg1 arg2 arg3
    else if category = 2 then s.handleMemorySyscall p num arg0 arg1 arg2
    else if category = 3 then s.handleIpcSyscall p num arg0 arg1 arg2 arg3
    else if category = 4 then s.handleBytecodeSyscall p num arg0 arg1 arg2
    else if category = 5 then s.handleCompilerSyscall p num arg0 arg1 arg2 arg3
    else if category = 6 then s.handleIoSyscall p num arg0 arg1
    else if category = 7 then s.handleHwSyscall p num arg0 arg1
    else if category = 8 then s.handleInfoSyscall p num arg0
    else s.done .errInvalid

end Os

/-- A system call with its arguments; the fifth one is never used. -/
structure Syscall where
  num : Int32
  arg0 : UInt64
  arg1 : UInt64
  arg2 : UInt64
  arg3 : UInt64
  deriving DecidableEq

/-- The state after a call, if it returns. -/
def Os.step (p : Platform) (c : Syscall) (s : Os) : Option Os :=
  (s.fluxSyscallDispatch p c.num c.arg0 c.arg1 c.arg2 c.arg3).map Prod.snd

end FluxOs
