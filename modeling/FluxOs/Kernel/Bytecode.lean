import FluxOs.Kernel.Ipc

/-!
# Bytecode of processes

The functions `flux_bc_load`, `flux_bc_exec` and `flux_bc_dump` of `kernel/main.c`.
-/

namespace FluxOs

open ByteMemory

namespace Kernel

variable (k : Kernel)

/-- Write bytes of the memory that processes and the kernel share. -/
def writeMem (mem : Memory) : Kernel := { k with heap := { k.heap with mem } }

/-- `flux_bc_load` of `len` bytes at `bytecode`. -/
def fluxBcLoad (pid : UInt32) (bytecode len : UInt64) : Option (FluxStatus × Kernel) :=
  if pid = fluxPidInvalid ∨ bytecode = 0 ∨ len = 0 then some (.errInvalid, k)
  else
    match k.procs.fluxGetPcb pid with
    | none => some (.errNotfound, k)
    | some i =>
      (k.heap.fluxAlloc len fluxMemBytecode k.ks.currentPid).map fun r =>
        let k := { k with heap := r.2 }
        if r.1 = 0 then (.errNomem, k)
        else
          let k := k.writeMem (copy k.heap.mem r.1.toNat bytecode.toNat len.toNat)
          (.ok, k.modifyPcb i fun pcb =>
            { pcb with bc := { active := true, bytecodeBase := r.1, bytecodeLen := len, pc := 0 } })

/-- `flux_bc_exec`. -/
def fluxBcExec (pid : UInt32) : FluxStatus × Kernel :=
  if pid = fluxPidInvalid then (.errInvalid, k)
  else
    match k.procs.fluxGetPcb pid with
    | none => (.errInvalid, k)
    | some i =>
      if !(k.pcb i).bc.active then (.errInvalid, k)
      else (.ok, k.modifyPcb i fun pcb => { pcb with isCompiled := true, state := .compiled })

/-- `flux_bc_dump` to the buffer `buf`, whose size is stored at `len`. -/
def fluxBcDump (pid : UInt32) (buf len : UInt64) : FluxStatus × Kernel :=
  if pid = fluxPidInvalid ∨ buf = 0 ∨ len = 0 then (.errInvalid, k)
  else
    match k.procs.fluxGetPcb pid with
    | none => (.errNotfound, k)
    | some i =>
      let bc := (k.pcb i).bc
      if !bc.active then (.errNotfound, k)
      else
        let size := UInt64.ofNat (leNat (read k.heap.mem len.toNat 8))
        let copyLen := if bc.bytecodeLen > size then size else bc.bytecodeLen
        let k := k.writeMem (copy k.heap.mem buf.toNat bc.bytecodeBase.toNat copyLen.toNat)
        (.ok, k.writeMem (write k.heap.mem len.toNat (leBytes 8 bc.bytecodeLen.toNat)))

end Kernel

end FluxOs
