import Mathlib.Tactic.Common

/-!
# Opcodes and instruction decoding

The opcode table of `flux/opcodes.h`, by category, with the cases that the interpreter's switch adds
to it.  An opcode byte is a category (its high nibble) and a position in the category's row.
-/

namespace FluxOs

/-- System operations, `0x00` to `0x0F`. -/
inductive SystemOp
  | NOP | HALT | TRAP | INVALID
  | SYS_WAKE | SYS_PANIC | SYS_DEBUG | SYS_INFO | SYS_RESET | SYS_SUSPEND | SYS_RESUME | SYS_YIELD
  | SYS_SLEEP | SYS_TIMED_WAIT | SYS_INTERRUPT | SYS_EXCEPTION
  deriving DecidableEq, Repr

/-- Arithmetic operations, `0x10` to `0x1F`. -/
inductive ArithOp
  | IADD | ISUB | IMUL | IDIV | IMOD | INEG | IABS | INC | DEC
  | FADD | FSUB | FMUL | FDIV | FNEG | I2F | F2I
  deriving DecidableEq, Repr

/-- Logical and bitwise operations, `0x20` to `0x2F`. -/
inductive LogicOp
  | IAND | IOR | IXOR | INOT | ISHL | ISHR | USHR | ROTATE_L | ROTATE_R | POPCOUNT | CLZ | CTZ
  | BSWAP | ANDI | ORI | XORI
  deriving DecidableEq, Repr

/-- Comparison operations, `0x30` to `0x3F`; the last five compare floating-point values. -/
inductive CompareOp
  | CMP | CMPI | FCMP | TEST | TESTI | CMP_EQ | CMP_NE | CMP_LT | CMP_GT | CMP_LE | CMP_GE
  | FCMP_EQ | FCMP_LT | FCMP_GT | FCMP_LE | FCMP_GE
  deriving DecidableEq, Repr

/-- Branch operations, `0x40` to `0x4F`. -/
inductive BranchOp
  | JMP | JZ | JNZ | JE | JNE | JG | JL | JGE | JLE | JA | JB | JAE | JBE | JC | JO | LOOP
  deriving DecidableEq, Repr

/-- Memory operations, `0x50` to `0x5F`. -/
inductive MemoryOp
  | LOAD | LOAD8 | LOAD16 | LOAD32 | STORE | STORE8 | STORE16 | STORE32 | LEA
  | CMPXCHG | ATOMIC_ADD | ATOMIC_SUB | FENCE | LOAD_RM | STORE_RM | MEMSET
  deriving DecidableEq, Repr

/-- Stack operations, `0x60` to `0x6F`. -/
inductive StackOp
  | PUSH | POP | PUSH_IMM | DUP | SWAP | ENTER | LEAVE | PUSHA | POPA
  | PUSHF | POPF | PUSHR | POPR | STACK_CHK | STACK_ALLOC | STACK_FREE
  deriving DecidableEq, Repr

/-- Call and return operations, `0x70` to `0x7F`. -/
inductive CallOp
  | CALL | CALLI | RET | RETI | SYSCALL | CALL_REG | TAILCALL | ICALL
  | CALL_EXT | CALL_NATIVE | CALL_AGENT | THROW | CATCH | FINALLY | EXCEPTION_RET | SET_HANDLER
  deriving DecidableEq, Repr

/-- Agent operations, `0x80` to `0x8F`. -/
inductive AgentOp
  | DELEGATE | TELL | ASK | REPLY | BARRIER | SPAWN | YIELD_AGENT | CAP_GRANT | CAP_CHECK
  | CAP_REVOKE | AGENT_WAIT | AGENT_SIGNAL | AGENT_BROADCAST | AGENT_SUBSCRIBE | AGENT_UNSUBSCRIBE
  | AGENT_QUERY
  deriving DecidableEq, Repr

/-- I/O operations, `0x90` to `0x9F`. -/
inductive IoOp
  | IO_READ | IO_WRITE | IO_READ8 | IO_WRITE8 | IO_READ16 | IO_WRITE16 | IO_READ32 | IO_WRITE32
  | IO_READ64 | IO_WRITE64 | IO_DMA_READ | IO_DMA_WRITE | IO_IOCTL | IO_MMAP | IO_MUNMAP | IO_POLL
  deriving DecidableEq, Repr

/-- FLUX-specific operations, `0xA0` to `0xAF`. -/
inductive FluxOp
  | TILE_LOAD | TILE_COMPOSE | TILE_EXEC | REGION_CREATE | REGION_DESTROY | REGION_MAP | ADAPT
  | EVOLVE | MODULE_IMPORT | MODULE_EXPORT | TRACE_ON | TRACE_OFF | PROF_START | PROF_STOP
  | GAS_INIT | GAS_CHECK
  deriving DecidableEq, Repr

/-- Native operations, `0xB0` to `0xB7`. -/
inductive NativeOp
  | NATIVE_CALL | NATIVE_LOAD | VEC_LOAD | VEC_STORE | VEC_ADD | VEC_MUL | VEC_DOT | VEC_SPLAT
  deriving DecidableEq, Repr

/-- The opcodes the interpreter dispatches on; `unknown` is its `default` case. -/
inductive Opcode
  | system (op : SystemOp)
  | arith (op : ArithOp)
  | logic (op : LogicOp)
  | compare (op : CompareOp)
  | branch (op : BranchOp)
  | memory (op : MemoryOp)
  | stack (op : StackOp)
  | call (op : CallOp)
  | agent (op : AgentOp)
  | io (op : IoOp)
  | flux (op : FluxOp)
  | native (op : NativeOp)
  | unknown
  deriving DecidableEq, Repr

/-! ## The opcode table -/

def systemOps : List SystemOp :=
  [.NOP, .HALT, .TRAP, .INVALID, .SYS_WAKE, .SYS_PANIC, .SYS_DEBUG, .SYS_INFO, .SYS_RESET,
    .SYS_SUSPEND, .SYS_RESUME, .SYS_YIELD, .SYS_SLEEP, .SYS_TIMED_WAIT, .SYS_INTERRUPT,
    .SYS_EXCEPTION]

def arithOps : List ArithOp :=
  [.IADD, .ISUB, .IMUL, .IDIV, .IMOD, .INEG, .IABS, .INC, .DEC, .FADD, .FSUB, .FMUL, .FDIV, .FNEG,
    .I2F, .F2I]

def logicOps : List LogicOp :=
  [.IAND, .IOR, .IXOR, .INOT, .ISHL, .ISHR, .USHR, .ROTATE_L, .ROTATE_R, .POPCOUNT, .CLZ, .CTZ,
    .BSWAP, .ANDI, .ORI, .XORI]

def compareOps : List CompareOp :=
  [.CMP, .CMPI, .FCMP, .TEST, .TESTI, .CMP_EQ, .CMP_NE, .CMP_LT, .CMP_GT, .CMP_LE, .CMP_GE,
    .FCMP_EQ, .FCMP_LT, .FCMP_GT, .FCMP_LE, .FCMP_GE]

def branchOps : List BranchOp :=
  [.JMP, .JZ, .JNZ, .JE, .JNE, .JG, .JL, .JGE, .JLE, .JA, .JB, .JAE, .JBE, .JC, .JO, .LOOP]

def memoryOps : List MemoryOp :=
  [.LOAD, .LOAD8, .LOAD16, .LOAD32, .STORE, .STORE8, .STORE16, .STORE32, .LEA, .CMPXCHG,
    .ATOMIC_ADD, .ATOMIC_SUB, .FENCE, .LOAD_RM, .STORE_RM, .MEMSET]

def stackOps : List StackOp :=
  [.PUSH, .POP, .PUSH_IMM, .DUP, .SWAP, .ENTER, .LEAVE, .PUSHA, .POPA, .PUSHF, .POPF, .PUSHR, .POPR,
    .STACK_CHK, .STACK_ALLOC, .STACK_FREE]

def callOps : List CallOp :=
  [.CALL, .CALLI, .RET, .RETI, .SYSCALL, .CALL_REG, .TAILCALL, .ICALL, .CALL_EXT, .CALL_NATIVE,
    .CALL_AGENT, .THROW, .CATCH, .FINALLY, .EXCEPTION_RET, .SET_HANDLER]

def agentOps : List AgentOp :=
  [.DELEGATE, .TELL, .ASK, .REPLY, .BARRIER, .SPAWN, .YIELD_AGENT, .CAP_GRANT, .CAP_CHECK,
    .CAP_REVOKE, .AGENT_WAIT, .AGENT_SIGNAL, .AGENT_BROADCAST, .AGENT_SUBSCRIBE,
    .AGENT_UNSUBSCRIBE, .AGENT_QUERY]

def ioOps : List IoOp :=
  [.IO_READ, .IO_WRITE, .IO_READ8, .IO_WRITE8, .IO_READ16, .IO_WRITE16, .IO_READ32, .IO_WRITE32,
    .IO_READ64, .IO_WRITE64, .IO_DMA_READ, .IO_DMA_WRITE, .IO_IOCTL, .IO_MMAP, .IO_MUNMAP, .IO_POLL]

def fluxOps : List FluxOp :=
  [.TILE_LOAD, .TILE_COMPOSE, .TILE_EXEC, .REGION_CREATE, .REGION_DESTROY, .REGION_MAP, .ADAPT,
    .EVOLVE, .MODULE_IMPORT, .MODULE_EXPORT, .TRACE_ON, .TRACE_OFF, .PROF_START, .PROF_STOP,
    .GAS_INIT, .GAS_CHECK]

def nativeOps : List NativeOp :=
  [.NATIVE_CALL, .NATIVE_LOAD, .VEC_LOAD, .VEC_STORE, .VEC_ADD, .VEC_MUL, .VEC_DOT, .VEC_SPLAT]

/-- The opcode of an opcode byte. -/
def opcodeOf (b : UInt8) : Opcode :=
  let row {α : Type} (ops : List α) (mk : α → Opcode) : Opcode :=
    ((ops[b.toNat % 16]?).map mk).getD .unknown
  match b.toNat / 16 with
  | 0x0 => row systemOps .system
  | 0x1 => row arithOps .arith
  | 0x2 => row logicOps .logic
  | 0x3 => row compareOps .compare
  | 0x4 => row branchOps .branch
  | 0x5 => row memoryOps .memory
  | 0x6 => row stackOps .stack
  | 0x7 => row callOps .call
  | 0x8 => row agentOps .agent
  | 0x9 => row ioOps .io
  | 0xA => row fluxOps .flux
  | 0xB => row nativeOps .native
  | _ => .unknown

/-! ## Decoding -/

def fluxDecodeOpcode (insn : UInt32) : UInt8 := (insn >>> 24).toUInt8

def fluxDecodeRd (insn : UInt32) : UInt8 := ((insn >>> 16) &&& 0xFF).toUInt8

def fluxDecodeRs1 (insn : UInt32) : UInt8 := ((insn >>> 8) &&& 0xFF).toUInt8

def fluxDecodeRs2 (insn : UInt32) : UInt8 := (insn &&& 0xFF).toUInt8

def fluxDecodeImm16 (insn : UInt32) : Int16 := (insn &&& 0xFFFF).toUInt16.toInt16

def fluxDecodeTarget (insn : UInt32) : UInt32 := insn &&& 0x00FFFFFF

/-- An instruction word with its operand fields, as `flux_vm_step` decodes it. -/
structure FluxVmInsn where
  opcode : UInt8
  rd : UInt8
  rs1 : UInt8
  rs2 : UInt8
  /-- `imm16`, sign-extended to 32 bits. -/
  imm : Int32
  target : UInt32
  deriving DecidableEq, Repr

def decodeInsn (insn : UInt32) : FluxVmInsn where
  opcode := fluxDecodeOpcode insn
  rd := fluxDecodeRd insn
  rs1 := fluxDecodeRs1 insn
  rs2 := fluxDecodeRs2 insn
  imm := (fluxDecodeImm16 insn).toInt32
  target := fluxDecodeTarget insn

/-- `(uint64_t)(int32_t)imm`: the immediate sign-extended to 64 bits. -/
def FluxVmInsn.imm64 (i : FluxVmInsn) : UInt64 := i.imm.toInt64.toUInt64

/-- `(int64_t)(int32_t)(int8_t)rs2`: the `rs2` byte as a signed address offset. -/
def FluxVmInsn.offset (i : FluxVmInsn) : UInt64 := i.rs2.toInt8.toInt64.toUInt64

example : opcodeOf 0x74 = .call .SYSCALL := by decide

end FluxOs
