import FluxOs.Vm.StepRules
import Mathlib.Algebra.BigOperators.Fin

/-!
# Instruction encoding

The encoders of `flux/opcodes.h`, the format that `flux_opcode_format_hint` gives an opcode, and what
the interpreter makes of an encoded instruction.  Decoding gives the opcode and the operands back, but
for an `E` immediate that reaches into the opcode byte.  Some opcode cases use fields that do not belong
to the operands of their format: `readsBeyond` lists them.
-/

namespace FluxOs

open Faulting

/-! ## Encoding -/

def fluxEncodeA (opcode rd rs1 rs2 : UInt8) : UInt32 :=
  (opcode.toUInt32 <<< 24) ||| (rd.toUInt32 <<< 16) ||| (rs1.toUInt32 <<< 8) ||| rs2.toUInt32

def fluxEncodeB (opcode rd : UInt8) (imm : Int16) : UInt32 :=
  (opcode.toUInt32 <<< 24) ||| (rd.toUInt32 <<< 16) ||| imm.toUInt16.toUInt32

def fluxEncodeC (opcode : UInt8) (target : UInt32) : UInt32 :=
  (opcode.toUInt32 <<< 24) ||| (target &&& 0x00FFFFFF)

def fluxEncodeE (opcode : UInt8) (imm : UInt32) : UInt32 :=
  (opcode.toUInt32 <<< 24) ||| imm

/-- The formats that `flux_opcode_format_hint` names; `unknown` is `'?'`. -/
inductive InsnFormat
  | A | B | C | D | E | unknown
  deriving DecidableEq, Repr

/-- The `case` labels of the switches in `flux_opcode_format_hint`, with the formats they return. -/
def formatCases : List (List Opcode × InsnFormat) :=
  [(List.map .arith [.IADD, .ISUB, .IMUL, .IDIV, .IMOD, .FADD, .FSUB, .FMUL, .FDIV], .A),
    (List.map .arith [.INEG, .IABS, .FNEG], .A),
    (List.map .arith [.INC, .DEC], .A),
    (List.map .arith [.I2F, .F2I], .A),
    (List.map .logic [.IAND, .IOR, .IXOR, .ISHL, .ISHR, .USHR, .ROTATE_L, .ROTATE_R], .A),
    (List.map .logic [.INOT, .POPCOUNT, .CLZ, .CTZ, .BSWAP], .A),
    (List.map .logic [.ANDI, .ORI, .XORI], .B),
    (List.map .compare [.CMP, .FCMP, .TEST], .A),
    (List.map .compare [.CMPI, .TESTI], .B)]

/-- The same for the switches after the tests of the branch and memory ranges. -/
def formatCases' : List (List Opcode × InsnFormat) :=
  [(List.map .stack [.PUSH, .POP, .DUP, .SWAP, .ENTER, .LEAVE, .PUSHA, .POPA], .A),
    (List.map .stack [.PUSH_IMM], .B),
    (List.map .call [.CALL, .CALL_REG, .ICALL, .TAILCALL], .A),
    (List.map .call [.CALLI], .C),
    (List.map .call [.RET, .RETI], .A),
    (List.map .call [.SYSCALL], .E)]

/-- The format of the first switch with a label for `op`. -/
def formatIn (cases : List (List Opcode × InsnFormat)) (op : Opcode) : Option InsnFormat :=
  (cases.find? fun labels => op ∈ labels.1).map Prod.snd

def fluxOpcodeFormatHint (opcode : UInt8) : InsnFormat :=
  let op := opcodeOf opcode
  if opcode ≤ 0x03 then .E
  else if opcode ≤ 0x0F then .E
  else (formatIn formatCases op).getD <|
    if opcode ≥ 0x40 ∧ opcode ≤ 0x4F then .C
    else if op = .branch .LOOP then .C
    else if opcode ≥ 0x50 ∧ opcode ≤ 0x5C then .D
    else if op = .memory .LOAD_RM ∨ op = .memory .STORE_RM then .D
    else (formatIn formatCases' op).getD <|
      if opcode ≥ 0x80 ∧ opcode ≤ 0x89 then .E
      else if opcode ≥ 0x90 ∧ opcode ≤ 0x97 then .D
      else if opcode ≥ 0xA0 ∧ opcode ≤ 0xAF then .E
      else if opcode ≥ 0xB0 ∧ opcode ≤ 0xB7 then .A
      else .unknown

/-- The operands of the formats that have an encoder, in the ranges of the formats. -/
inductive Operands
  | a (rd rs1 rs2 : UInt8)
  | b (rd : UInt8) (imm : Int16)
  | c (target : UInt32) (h : target < 0x01000000)
  | e (imm : UInt32)

namespace Operands

def format : Operands → InsnFormat
  | .a .. => .A
  | .b .. => .B
  | .c .. => .C
  | .e .. => .E

def encode (opcode : UInt8) : Operands → UInt32
  | .a rd rs1 rs2 => fluxEncodeA opcode rd rs1 rs2
  | .b rd imm => fluxEncodeB opcode rd imm
  | .c target _ => fluxEncodeC opcode target
  | .e imm => fluxEncodeE opcode imm

/-- The fields of a decoded instruction are the operands. -/
def Recovered (i : FluxVmInsn) : Operands → Prop
  | .a rd rs1 rs2 => i.rd = rd ∧ i.rs1 = rs1 ∧ i.rs2 = rs2
  | .b rd imm => i.rd = rd ∧ i.imm = imm.toInt32
  | .c target _ => i.target = target
  | .e imm => i.target = imm

end Operands

/-! ## What the interpreter reads -/

/-- Two instructions have the same operands of a format; the immediate of an `E` instruction is decoded
as `target` and, cut off, as `imm`. -/
def SameOperands (format : InsnFormat) (i j : FluxVmInsn) : Prop :=
  match format with
  | .A => i.rd = j.rd ∧ i.rs1 = j.rs1 ∧ i.rs2 = j.rs2
  | .B => i.rd = j.rd ∧ i.imm = j.imm
  | .C => i.target = j.target
  | .E => i.target = j.target ∧ i.imm = j.imm
  | .D | .unknown => True

instance (format : InsnFormat) (i j : FluxVmInsn) : Decidable (SameOperands format i j) :=
  match format with
  | .A => inferInstanceAs (Decidable (_ ∧ _ ∧ _))
  | .B => inferInstanceAs (Decidable (_ ∧ _))
  | .C => inferInstanceAs (Decidable (_ = _))
  | .E => inferInstanceAs (Decidable (_ ∧ _))
  | .D | .unknown => inferInstanceAs (Decidable True)

/-- The case of an opcode uses the operands of the format and no other field of the instruction. -/
def ReadsOnly (opcode : UInt8) (format : InsnFormat) : Prop :=
  ∀ (host : Host) (vm : FluxVm) (i j : FluxVmInsn), i.opcode = opcode → j.opcode = opcode →
    SameOperands format i j →
    vm.execute host i (vm.regValue i.rs1) (vm.regValue i.rs2) =
      vm.execute host j (vm.regValue j.rs1) (vm.regValue j.rs2)

/-- Encoding, decoding and execution agree on an instruction. -/
structure EncodingAgrees (opcode : UInt8) (x : Operands) : Prop where
  decoded : (decodeInsn (x.encode opcode)).opcode = opcode
  operands : x.Recovered (decodeInsn (x.encode opcode))
  readsOnly : ReadsOnly opcode x.format

/-- The opcodes whose case uses a field that is no operand of their format: the immediate of `ENTER`
(format `A`), the register `rs1` beside an immediate (`B`) or a target (`C`), and registers in `E`. -/
def readsBeyond : Opcode → Bool
  | .stack .ENTER => true
  | .logic .ANDI | .logic .ORI | .logic .XORI | .compare .CMPI | .compare .TESTI => true
  | .branch .JZ | .branch .JNZ => true
  | .agent .SPAWN | .agent .CAP_GRANT | .agent .CAP_CHECK | .agent .CAP_REVOKE => true
  | .flux .TILE_LOAD | .flux .TILE_COMPOSE | .flux .REGION_CREATE | .flux .REGION_DESTROY
  | .flux .REGION_MAP | .flux .GAS_INIT | .flux .GAS_CHECK => true
  | _ => false

/-- The format of an opcode, by category. -/
def Opcode.format : Opcode → InsnFormat
  | .system _ => .E
  | .arith _ => .A
  | .logic op => if op = .ANDI ∨ op = .ORI ∨ op = .XORI then .B else .A
  | .compare op =>
    if op = .CMPI ∨ op = .TESTI then .B
    else if op = .CMP ∨ op = .FCMP ∨ op = .TEST then .A else .unknown
  | .branch _ => .C
  | .memory op => if op = .MEMSET then .unknown else .D
  | .stack op =>
    if op = .PUSH_IMM then .B
    else if op = .PUSH ∨ op = .POP ∨ op = .DUP ∨ op = .SWAP ∨ op = .ENTER ∨ op = .LEAVE ∨ op = .PUSHA ∨
      op = .POPA then .A else .unknown
  | .call op =>
    if op = .CALLI then .C else if op = .SYSCALL then .E
    else if op = .CALL ∨ op = .CALL_REG ∨ op = .ICALL ∨ op = .TAILCALL ∨ op = .RET ∨ op = .RETI then .A
    else .unknown
  | .agent op =>
    if op = .DELEGATE ∨ op = .TELL ∨ op = .ASK ∨ op = .REPLY ∨ op = .BARRIER ∨ op = .SPAWN ∨
      op = .YIELD_AGENT ∨ op = .CAP_GRANT ∨ op = .CAP_CHECK ∨ op = .CAP_REVOKE then .E else .unknown
  | .io op =>
    if op = .IO_READ ∨ op = .IO_WRITE ∨ op = .IO_READ8 ∨ op = .IO_WRITE8 ∨ op = .IO_READ16 ∨
      op = .IO_WRITE16 ∨ op = .IO_READ32 ∨ op = .IO_WRITE32 then .D else .unknown
  | .flux _ => .E
  | .native _ => .A
  | .unknown => .unknown

theorem fluxOpcodeFormatHint_eq (opcode : UInt8) :
    fluxOpcodeFormatHint opcode = (opcodeOf opcode).format := by
  have h : ∀ n < 256, fluxOpcodeFormatHint (UInt8.ofNat n) = (opcodeOf (UInt8.ofNat n)).format := by
    decide +kernel
  have := h opcode.toNat opcode.toNat_lt
  rwa [UInt8.ofNat_toNat] at this

/-! ## Decoding what was encoded -/

theorem toNat_shiftLeft_or {a b k : UInt32} (hk : k.toNat < 32) (ha : a.toNat < 2 ^ (32 - k.toNat))
    (hb : b.toNat < 2 ^ k.toNat) : ((a <<< k) ||| b).toNat = a.toNat * 2 ^ k.toNat + b.toNat := by
  have hlt : a.toNat * 2 ^ k.toNat < 2 ^ 32 := by
    calc a.toNat * 2 ^ k.toNat < 2 ^ (32 - k.toNat) * 2 ^ k.toNat :=
          Nat.mul_lt_mul_of_pos_right ha (Nat.two_pow_pos _)
      _ = 2 ^ 32 := by rw [← Nat.pow_add, Nat.sub_add_cancel (Nat.le_of_lt hk)]
  rw [UInt32.toNat_or, UInt32.toNat_shiftLeft, Nat.mod_eq_of_lt hk, Nat.shiftLeft_eq,
    Nat.mod_eq_of_lt hlt, ← Nat.shiftLeft_eq, Nat.shiftLeft_add_eq_or_of_lt hb]

section

variable (w : UInt32)

theorem fluxDecodeOpcode_toNat : (fluxDecodeOpcode w).toNat = w.toNat / 2 ^ 24 := by
  have := w.toNat_lt
  simp [fluxDecodeOpcode, Nat.shiftRight_eq_div_pow]
  omega

theorem fluxDecodeRd_toNat : (fluxDecodeRd w).toNat = w.toNat / 2 ^ 16 % 2 ^ 8 := by
  simp [fluxDecodeRd, Nat.shiftRight_eq_div_pow]
  rw [show (255 : Nat) = 2 ^ 8 - 1 from rfl, Nat.and_two_pow_sub_one_eq_mod]
  omega

theorem fluxDecodeRs1_toNat : (fluxDecodeRs1 w).toNat = w.toNat / 2 ^ 8 % 2 ^ 8 := by
  simp [fluxDecodeRs1, Nat.shiftRight_eq_div_pow]
  rw [show (255 : Nat) = 2 ^ 8 - 1 from rfl, Nat.and_two_pow_sub_one_eq_mod]
  omega

theorem fluxDecodeRs2_toNat : (fluxDecodeRs2 w).toNat = w.toNat % 2 ^ 8 := by
  simp [fluxDecodeRs2]
  rw [show (255 : Nat) = 2 ^ 8 - 1 from rfl, Nat.and_two_pow_sub_one_eq_mod]
  omega

theorem fluxDecodeImm16_toNat : (fluxDecodeImm16 w).toUInt16.toNat = w.toNat % 2 ^ 16 := by
  rw [fluxDecodeImm16, UInt16.toUInt16_toInt16, UInt32.toNat_toUInt16, UInt32.toNat_and]
  rw [show (0xFFFF : UInt32).toNat = 2 ^ 16 - 1 from rfl, Nat.and_two_pow_sub_one_eq_mod]
  omega

theorem fluxDecodeTarget_toNat : (fluxDecodeTarget w).toNat = w.toNat % 2 ^ 24 := by
  simp [fluxDecodeTarget]
  rw [show (16777215 : Nat) = 2 ^ 24 - 1 from rfl, Nat.and_two_pow_sub_one_eq_mod]

end

variable {op rd rs1 rs2 : UInt8} {imm : Int16} {target : UInt32}

theorem fluxEncodeA_toNat : (fluxEncodeA op rd rs1 rs2).toNat =
    op.toNat * 2 ^ 24 + (rd.toNat * 2 ^ 16 + (rs1.toNat * 2 ^ 8 + rs2.toNat)) := by
  have := op.toNat_lt
  have := rd.toNat_lt
  have := rs1.toNat_lt
  have := rs2.toNat_lt
  have h8 : (8 : UInt32).toNat = 8 := rfl
  have h16 : (16 : UInt32).toNat = 16 := rfl
  have h24 : (24 : UInt32).toNat = 24 := rfl
  have low : (rs1.toUInt32 <<< 8 ||| rs2.toUInt32).toNat = rs1.toNat * 2 ^ 8 + rs2.toNat := by
    rw [toNat_shiftLeft_or] <;> simp only [h8, UInt8.toNat_toUInt32] <;> omega
  have mid : (rd.toUInt32 <<< 16 ||| (rs1.toUInt32 <<< 8 ||| rs2.toUInt32)).toNat =
      rd.toNat * 2 ^ 16 + (rs1.toNat * 2 ^ 8 + rs2.toNat) := by
    rw [toNat_shiftLeft_or] <;> simp only [h16, low, UInt8.toNat_toUInt32] <;> omega
  rw [fluxEncodeA, UInt32.or_assoc, UInt32.or_assoc, toNat_shiftLeft_or] <;>
    simp only [h24, mid, UInt8.toNat_toUInt32] <;> omega

theorem fluxEncodeB_toNat : (fluxEncodeB op rd imm).toNat =
    op.toNat * 2 ^ 24 + (rd.toNat * 2 ^ 16 + imm.toUInt16.toNat) := by
  have := op.toNat_lt
  have := rd.toNat_lt
  have := imm.toUInt16.toNat_lt
  have h16 : (16 : UInt32).toNat = 16 := rfl
  have h24 : (24 : UInt32).toNat = 24 := rfl
  have low : (rd.toUInt32 <<< 16 ||| imm.toUInt16.toUInt32).toNat =
      rd.toNat * 2 ^ 16 + imm.toUInt16.toNat := by
    rw [toNat_shiftLeft_or] <;> simp only [h16, UInt8.toNat_toUInt32, UInt16.toNat_toUInt32] <;> omega
  rw [fluxEncodeB, UInt32.or_assoc, toNat_shiftLeft_or] <;>
    simp only [h24, low, UInt8.toNat_toUInt32] <;> omega

theorem fluxEncodeC_toNat : (fluxEncodeC op target).toNat = op.toNat * 2 ^ 24 + target.toNat % 2 ^ 24 := by
  have := op.toNat_lt
  have h24 : (24 : UInt32).toNat = 24 := rfl
  have low : (target &&& 0x00FFFFFF).toNat = target.toNat % 2 ^ 24 := fluxDecodeTarget_toNat target
  rw [fluxEncodeC, toNat_shiftLeft_or] <;> simp only [h24, low, UInt8.toNat_toUInt32] <;> omega

/-- An immediate below `2 ^ 24` leaves the opcode byte alone. -/
theorem fluxEncodeE_eq (h : target < 0x01000000) : fluxEncodeE op target = fluxEncodeC op target := by
  have hlt : target.toNat < 2 ^ 24 := UInt32.lt_iff_toNat_lt.1 h
  have hmask : target &&& 0x00FFFFFF = target := by
    apply UInt32.toNat_inj.1
    have := fluxDecodeTarget_toNat target
    rw [Nat.mod_eq_of_lt hlt] at this
    exact this
  rw [fluxEncodeE, fluxEncodeC, hmask]

/-- The opcode and the operands are recovered unless an immediate reaches into the opcode byte. -/
theorem decodeInsn_encode (op : UInt8) (x : Operands) :
    ((decodeInsn (x.encode op)).opcode = op ∧ x.Recovered (decodeInsn (x.encode op))) ↔
      ∀ imm, x = .e imm → imm < 0x01000000 := by
  cases x with
  | a rd rs1 rs2 =>
    refine iff_of_true ⟨?_, ?_, ?_, ?_⟩ fun imm h => by cases h
    all_goals
      apply UInt8.toNat_inj.1
      have := rd.toNat_lt
      have := rs1.toNat_lt
      have := rs2.toNat_lt
      simp only [decodeInsn, Operands.encode, fluxDecodeOpcode_toNat, fluxDecodeRd_toNat,
        fluxDecodeRs1_toNat, fluxDecodeRs2_toNat, fluxEncodeA_toNat]
      omega
  | b rd imm =>
    have := rd.toNat_lt
    have := imm.toUInt16.toNat_lt
    refine iff_of_true ⟨?_, ?_, ?_⟩ fun imm h => by cases h
    · apply UInt8.toNat_inj.1
      simp only [decodeInsn, Operands.encode, fluxDecodeOpcode_toNat, fluxEncodeB_toNat]
      omega
    · apply UInt8.toNat_inj.1
      simp only [decodeInsn, Operands.encode, fluxDecodeRd_toNat, fluxEncodeB_toNat]
      omega
    · have himm : (fluxDecodeImm16 (fluxEncodeB op rd imm)).toUInt16 = imm.toUInt16 := by
        apply UInt16.toNat_inj.1
        rw [fluxDecodeImm16_toNat, fluxEncodeB_toNat]
        omega
      refine congrArg Int16.toInt32 ?_
      rw [Operands.encode, ← Int16.toInt16_toUInt16 (fluxDecodeImm16 _), himm, Int16.toInt16_toUInt16]
  | c target h =>
    have hlt : target.toNat < 2 ^ 24 := UInt32.lt_iff_toNat_lt.1 h
    refine iff_of_true ⟨?_, ?_⟩ fun imm h => by cases h
    · apply UInt8.toNat_inj.1
      simp only [decodeInsn, Operands.encode, fluxDecodeOpcode_toNat, fluxEncodeC_toNat]
      omega
    · apply UInt32.toNat_inj.1
      simp only [decodeInsn, Operands.encode, fluxDecodeTarget_toNat, fluxEncodeC_toNat]
      omega
  | e imm =>
    constructor
    · rintro ⟨-, hrec⟩ imm' heq
      cases heq
      have hrec : (fluxDecodeTarget (fluxEncodeE op imm)).toNat = imm.toNat := congrArg UInt32.toNat hrec
      rw [fluxDecodeTarget_toNat] at hrec
      rw [UInt32.lt_iff_toNat_lt, ← hrec]
      exact Nat.mod_lt _ (by decide)
    · intro h
      have h := h imm rfl
      have hlt : imm.toNat < 2 ^ 24 := UInt32.lt_iff_toNat_lt.1 h
      constructor
      · apply UInt8.toNat_inj.1
        simp only [decodeInsn, Operands.encode, fluxEncodeE_eq h, fluxDecodeOpcode_toNat, fluxEncodeC_toNat]
        omega
      · apply UInt32.toNat_inj.1
        simp only [decodeInsn, Operands.encode, fluxEncodeE_eq h, fluxDecodeTarget_toNat, fluxEncodeC_toNat]
        omega

/-! ## The opcode cases -/

theorem readsOnly_of_A {op : UInt8} (hformat : (opcodeOf op).format = .A)
    (hreads : readsBeyond (opcodeOf op) = false) : ReadsOnly op .A := by
  rintro host vm ⟨opcode, rd, rs1, rs2, imm, target⟩ ⟨opcode', rd', rs1', rs2', imm', target'⟩ hi hj
    ⟨hrd, hrs1, hrs2⟩
  simp only at hi hj hrd hrs1 hrs2
  subst hi hj hrd hrs1 hrs2
  unfold FluxVm.execute
  simp only
  cases hop : opcodeOf opcode' <;> rw [hop] at hformat hreads
  case arith op => cases op <;> rfl
  case logic op => cases op <;> first | rfl | exact absurd hformat (by decide)
  case compare op => cases op <;> first | rfl | exact absurd hformat (by decide)
  case stack op =>
    cases op
    case ENTER => cases hreads
    all_goals first | rfl | exact absurd hformat (by decide)
  case call op => cases op <;> first | rfl | exact absurd hformat (by decide)
  case native op => cases op <;> rfl
  case system | branch | flux => cases hformat
  case memory op => cases op <;> exact absurd hformat (by decide)
  case agent op => cases op <;> exact absurd hformat (by decide)

theorem readsOnly_of_B {op : UInt8} (hformat : (opcodeOf op).format = .B)
    (hreads : readsBeyond (opcodeOf op) = false) : ReadsOnly op .B := by
  rintro host vm ⟨opcode, rd, rs1, rs2, imm, target⟩ ⟨opcode', rd', rs1', rs2', imm', target'⟩ hi hj
    ⟨hrd, himm⟩
  simp only at hi hj hrd himm
  subst hi hj hrd himm
  unfold FluxVm.execute
  simp only
  cases hop : opcodeOf opcode' <;> rw [hop] at hformat hreads
  case stack op => cases op <;> first | rfl | exact absurd hformat (by decide)
  case logic op => cases op <;> first | exact absurd hformat (by decide) | exact absurd hreads (by decide)
  case compare op => cases op <;> first | exact absurd hformat (by decide) | exact absurd hreads (by decide)
  case call op => cases op <;> exact absurd hformat (by decide)
  case arith | native | system | branch | flux => cases hformat
  case memory op => cases op <;> exact absurd hformat (by decide)
  case agent op => cases op <;> exact absurd hformat (by decide)

theorem readsOnly_of_C {op : UInt8} (hformat : (opcodeOf op).format = .C)
    (hreads : readsBeyond (opcodeOf op) = false) : ReadsOnly op .C := by
  rintro host vm ⟨opcode, rd, rs1, rs2, imm, target⟩ ⟨opcode', rd', rs1', rs2', imm', target'⟩ hi hj
    htarget
  have htarget : target = target' := htarget
  simp only at hi hj
  subst hi hj htarget
  unfold FluxVm.execute
  simp only
  cases hop : opcodeOf opcode' <;> rw [hop] at hformat hreads
  case branch op => cases op <;> first | rfl | exact absurd hreads (by decide)
  case call op => cases op <;> first | rfl | exact absurd hformat (by decide)
  case logic op => cases op <;> exact absurd hformat (by decide)
  case compare op => cases op <;> exact absurd hformat (by decide)
  case stack op => cases op <;> exact absurd hformat (by decide)
  case arith | native | system | flux => cases hformat
  case memory op => cases op <;> exact absurd hformat (by decide)
  case agent op => cases op <;> exact absurd hformat (by decide)

theorem readsOnly_of_E {op : UInt8} (hformat : (opcodeOf op).format = .E)
    (hreads : readsBeyond (opcodeOf op) = false) : ReadsOnly op .E := by
  rintro host vm ⟨opcode, rd, rs1, rs2, imm, target⟩ ⟨opcode', rd', rs1', rs2', imm', target'⟩ hi hj
    ⟨htarget, himm⟩
  simp only at hi hj htarget himm
  subst hi hj htarget himm
  unfold FluxVm.execute
  simp only
  cases hop : opcodeOf opcode' <;> rw [hop] at hformat hreads
  case system op => cases op <;> rfl
  case call op => cases op <;> first | rfl | exact absurd hformat (by decide)
  case agent op => cases op <;> first | rfl | exact absurd hreads (by decide)
  case flux op => cases op <;> first | rfl | exact absurd hreads (by decide)
  case logic op => cases op <;> exact absurd hformat (by decide)
  case compare op => cases op <;> exact absurd hformat (by decide)
  case stack op => cases op <;> exact absurd hformat (by decide)
  case arith | native | branch => cases hformat
  case memory op => cases op <;> exact absurd hformat (by decide)

/-! ## The cases that read more -/

/-- A VM in which every register holds its number, with one region. -/
def numbered : FluxVm :=
  { ((FluxVm.boot [0, 0, 0, 0]).fluxVmRegionCreate FluxVm.plentifulHost none 8 false).2 with
    regs := fun r => UInt64.ofNat r.val }

/-- What the cases change, as numbers. -/
def numbersOf (r : Except Fault (Option FluxStatus × FluxVm)) : List UInt64 :=
  match r with
  | .error _ => []
  | .ok (_, vm) => [vm.regValue 2, vm.regValue 3, vm.regs fluxRegFlags, vm.regs fluxRegCycleCount,
      vm.regs fluxRegCapability, vm.stackPtr, vm.pc] ++ List.ofFn fun slot => (vm.regions slot).size

/-- Two instructions that differ in a field which is no operand of their format. -/
def distinguished (opcode : UInt8) : FluxVmInsn × FluxVmInsn :=
  match opcodeOf opcode with
  | .stack _ => (⟨opcode, 3, 0, 0, 0, 8⟩, ⟨opcode, 3, 0, 0, 8, 8⟩)
  | .agent .SPAWN | .agent .CAP_CHECK | .flux .TILE_LOAD | .flux .TILE_COMPOSE
  | .flux .REGION_CREATE | .flux .REGION_MAP | .flux .GAS_INIT | .flux .GAS_CHECK =>
    (⟨opcode, 3, 0, 0, 1, 8⟩, ⟨opcode, 2, 0, 0, 1, 8⟩)
  | _ => (⟨opcode, 3, 0, 0, 1, 8⟩, ⟨opcode, 3, 3, 0, 1, 8⟩)

/-- The case of the opcode tells the two instructions apart. -/
def Distinguishes (opcode : UInt8) : Prop :=
  let (i, j) := distinguished opcode
  i.opcode = opcode ∧ j.opcode = opcode ∧ SameOperands (opcodeOf opcode).format i j ∧
    numbersOf (numbered.execute FluxVm.plentifulHost i (numbered.regValue i.rs1)
      (numbered.regValue i.rs2)) ≠
    numbersOf (numbered.execute FluxVm.plentifulHost j (numbered.regValue j.rs1)
      (numbered.regValue j.rs2))

instance (opcode : UInt8) : Decidable (Distinguishes opcode) :=
  inferInstanceAs (Decidable (_ ∧ _ ∧ _ ∧ _))

theorem distinguishes_of_readsBeyond {op : UInt8} (hreads : readsBeyond (opcodeOf op) = true) :
    Distinguishes op := by
  have h : ∀ n < 256, readsBeyond (opcodeOf (UInt8.ofNat n)) = true → Distinguishes (UInt8.ofNat n) := by
    decide +kernel
  have := h op.toNat op.toNat_lt
  rw [UInt8.ofNat_toNat] at this
  exact this hreads

theorem readsOnly_iff {op : UInt8} {format : InsnFormat} (hformat : fluxOpcodeFormatHint op = format)
    (hF : format = .A ∨ format = .B ∨ format = .C ∨ format = .E) :
    ReadsOnly op format ↔ readsBeyond (opcodeOf op) = false := by
  rw [fluxOpcodeFormatHint_eq] at hformat
  constructor
  · intro h
    refine Bool.eq_false_iff.2 fun hreads => ?_
    obtain ⟨hi, hj, hsame, hne⟩ := distinguishes_of_readsBeyond hreads
    rw [hformat] at hsame
    exact hne (congrArg numbersOf (h FluxVm.plentifulHost numbered _ _ hi hj hsame))
  · intro hreads
    rcases hF with rfl | rfl | rfl | rfl
    · exact readsOnly_of_A hformat hreads
    · exact readsOnly_of_B hformat hreads
    · exact readsOnly_of_C hformat hreads
    · exact readsOnly_of_E hformat hreads

/-- An instruction in the format of its opcode is decoded and executed as it was encoded exactly if its
case reads no field beyond its operands, and an `E` immediate is below `2 ^ 24`. -/
theorem encodingAgrees_iff (op : UInt8) (x : Operands) (hformat : fluxOpcodeFormatHint op = x.format) :
    EncodingAgrees op x ↔
      readsBeyond (opcodeOf op) = false ∧ ∀ imm, x = .e imm → imm < 0x01000000 := by
  have hF : x.format = .A ∨ x.format = .B ∨ x.format = .C ∨ x.format = .E := by
    cases x <;> simp [Operands.format]
  rw [← decodeInsn_encode op x, ← readsOnly_iff hformat hF]
  exact ⟨fun h => ⟨h.readsOnly, h.decoded, h.operands⟩, fun h => ⟨h.2.1, h.2.2, h.1⟩⟩

/-- `IADD R1, R2, R3`. -/
theorem encodingAgrees_iff_iadd : EncodingAgrees 0x10 (.a 1 2 3) :=
  (encodingAgrees_iff 0x10 (.a 1 2 3) (by decide)).2 ⟨rfl, fun _ h => by cases h⟩

/-- `ANDI R1, 0x0203` takes the high byte of its immediate as a register, and `NOP` with the immediate
`2 ^ 24` is decoded as `HALT`. -/
theorem andi_not_encodingAgrees :
    (fluxOpcodeFormatHint 0x2D = .B ∧ ¬ EncodingAgrees 0x2D (.b 1 0x0203)) ∧
      fluxOpcodeFormatHint 0x00 = .E ∧ ¬ EncodingAgrees 0x00 (.e 0x01000000) := by
  refine ⟨⟨by decide, fun h => ?_⟩, by decide, fun h => ?_⟩
  · have hreads : Distinguishes 0x2D := by decide +kernel
    obtain ⟨hi, hj, hsame, hne⟩ := hreads
    exact hne (congrArg numbersOf (h.readsOnly FluxVm.plentifulHost numbered _ _ hi hj hsame))
  · exact absurd h.decoded (by decide)

end FluxOs
