import FluxOs.Lib.Faulting
import Mathlib.Data.List.Nodup

/-!
# FIR, the FLUX intermediate representation

The data types of `flux/compiler.h` and the builder functions of `fluxc/fir.c`.  A function is a list of
basic blocks, a block a list of values, and a value an instruction whose operands are value ids.  Labels
and names are left out: no pass reads them.
-/

namespace FluxOs

/-- `fir_type_t`. -/
inductive FirType
  | VOID | I8 | I16 | I32 | I64 | F32 | F64 | PTR | FUNC | STRUCT | ARRAY | BOOL | AGENT | CAPABILITY
  | BYTECODE | REGION | ANY
  deriving DecidableEq, Repr

/-- `fir_op_t`. -/
inductive FirOp
  | CONST | CONST_F
  | ADD | SUB | MUL | DIV | MOD | NEG | ABS
  | AND | OR | XOR | NOT | SHL | SHR
  | EQ | NE | LT | GT | LE | GE
  | JUMP | BRANCH | RETURN | CALL | PHI
  | ALLOC | LOAD | STORE | GEP
  | EXTRACT | INSERT | AGGREGATE
  | DELEGATE | TELL | ASK | BARRIER | SPAWN
  | TILE | REGION | COMPOSE | ADAPT
  | SYSCALL | INTRINSIC | TRAP
  deriving DecidableEq, Repr

/-- The value of the enumerator. -/
def FirOp.code : FirOp → Nat
  | CONST => 0 | CONST_F => 1
  | ADD => 10 | SUB => 11 | MUL => 12 | DIV => 13 | MOD => 14 | NEG => 15 | ABS => 16
  | AND => 20 | OR => 21 | XOR => 22 | NOT => 23 | SHL => 24 | SHR => 25
  | EQ => 30 | NE => 31 | LT => 32 | GT => 33 | LE => 34 | GE => 35
  | JUMP => 40 | BRANCH => 41 | RETURN => 42 | CALL => 43 | PHI => 44
  | ALLOC => 50 | LOAD => 51 | STORE => 52 | GEP => 53
  | EXTRACT => 60 | INSERT => 61 | AGGREGATE => 62
  | DELEGATE => 70 | TELL => 71 | ASK => 72 | BARRIER => 73 | SPAWN => 74
  | TILE => 80 | REGION => 81 | COMPOSE => 82 | ADAPT => 83
  | SYSCALL => 90 | INTRINSIC => 91 | TRAP => 92

def firMaxOperands : Nat := 4

def firMaxBlocks : Nat := 256

def firMaxValues : Nat := 1024

def firMaxFuncs : Nat := 64

/-- One source of a PHI node. -/
structure PhiSource where
  srcId : UInt32
  blockId : UInt32
  deriving DecidableEq, Repr

/-- `fir_value_t`; `payload` is the union of `ival`, `fval`, `sval` and `block_id`. -/
structure FirValue where
  id : UInt32
  type : FirType
  op : FirOp
  operands : List UInt32
  payload : UInt64
  phi : List PhiSource
  deriving DecidableEq, Repr

def FirValue.ival (val : FirValue) : Int64 := val.payload.toInt64

/-- The first four bytes of the union, on a little-endian host. -/
def FirValue.blockId (val : FirValue) : UInt32 := val.payload.toUInt32

/-- `fir_block_t`. -/
structure FirBlock where
  id : UInt32
  values : List FirValue
  terminator : UInt32
  isSealed : Bool
  deriving DecidableEq, Repr

/-- `fir_func_t`. -/
structure FirFunc where
  returnType : FirType
  paramTypes : List FirType
  numParams : Int
  entryBlock : UInt32
  blocks : List FirBlock
  isAgent : Bool
  isCompiled : Bool
  nextValueId : UInt32
  deriving DecidableEq, Repr

/-- `fir_module_t`. -/
structure FirModule where
  funcs : List FirFunc

namespace FirFunc

variable (func : FirFunc)

/-- The values of all blocks, in the order in which the loops over a function visit them. -/
def values : List FirValue := func.blocks.flatMap FirBlock.values

/-- `func->blocks[b].values[v]`. -/
def valueAt? (pos : Nat × Nat) : Option FirValue :=
  func.blocks[pos.1]?.bind fun block => block.values[pos.2]?

/-- Apply `g` to the value at a position. -/
def modifyAt (pos : Nat × Nat) (g : FirValue → FirValue) : FirFunc :=
  { func with blocks := func.blocks.modify pos.1 fun block =>
      { block with values := block.values.modify pos.2 g } }

/-- Apply `g` to every value. -/
def mapValues (g : FirValue → FirValue) : FirFunc :=
  { func with blocks := func.blocks.map fun block => { block with values := block.values.map g } }

/-- The positions of the values, in the order of the loops over a function. -/
def positions : List (Nat × Nat) :=
  (func.blocks.zipIdx).flatMap fun (block, b) => (List.range block.values.length).map fun v => (b, v)

end FirFunc

/-! ## Building -/

def firFuncCreate (mod : FirModule) (retType : FirType) (numParams : Int)
    (paramTypes : List FirType) : Option (FirFunc × FirModule) :=
  if mod.funcs.length ≥ firMaxFuncs then none
  else
    let numParams := if numParams > 16 then 16 else numParams
    let func : FirFunc := {
      returnType := retType
      paramTypes := paramTypes.take numParams.toNat
      numParams
      entryBlock := 0
      blocks := []
      isAgent := false
      isCompiled := false
      nextValueId := UInt32.ofInt numParams }
    some (func, ⟨mod.funcs ++ [func]⟩)

/-- `fir_block_create`, with the index of the new block; `none` stands for `NULL`. -/
def firBlockCreate (func : FirFunc) : FirFunc × Option Nat :=
  let numBlocks := func.blocks.length
  if numBlocks ≥ firMaxBlocks then (func, none)
  else
    let block : FirBlock :=
      { id := UInt32.ofNat numBlocks, values := [], terminator := 0, isSealed := false }
    ({ func with
        blocks := func.blocks ++ [block]
        entryBlock := if numBlocks = 0 then block.id else func.entryBlock }, some numBlocks)

/-- Check if an opcode is a terminator. -/
def firIsTerminator (op : FirOp) : Bool := op = .JUMP || op = .BRANCH || op = .RETURN

/-- The value id that `fir_value_create` gives to the next value of a block. -/
def FirBlock.nextId (block : FirBlock) : UInt32 :=
  block.id * UInt32.ofNat firMaxValues + UInt32.ofNat block.values.length

/-- `fir_value_create` on a block, with the id it returns. -/
def FirBlock.valueCreate (block : FirBlock) (op : FirOp) (type : FirType) (operands : List UInt32) :
    FirBlock × UInt32 :=
  if block.values.length ≥ firMaxValues then (block, 0xFFFFFFFF)
  else
    let val : FirValue :=
      { id := block.nextId, type, op, operands := operands.take firMaxOperands, payload := 0, phi := [] }
    let block := { block with values := block.values ++ [val] }
    (if firIsTerminator op then { block with terminator := val.id, isSealed := true } else block,
      val.id)

/-- `fir_value_create` on the block at index `b`; a block that does not exist stands for `NULL`. -/
def firValueCreate (func : FirFunc) (b : Nat) (op : FirOp) (type : FirType)
    (operands : List UInt32) : FirFunc × UInt32 :=
  match func.blocks[b]? with
  | none => (func, 0xFFFFFFFF)
  | some block =>
    let (block, id) := block.valueCreate op type operands
    ({ func with blocks := func.blocks.set b block }, id)

/-! ## Positions -/

namespace FirFunc

variable {func : FirFunc} {pos q : Nat × Nat} {val : FirValue} {g : FirValue → FirValue}

theorem mem_values_iff : val ∈ func.values ↔ ∃ pos, func.valueAt? pos = some val := by
  unfold values valueAt?
  rw [List.mem_flatMap]
  constructor
  · rintro ⟨block, hblock, hval⟩
    obtain ⟨b, hb⟩ := List.mem_iff_getElem?.1 hblock
    obtain ⟨v, hv⟩ := List.mem_iff_getElem?.1 hval
    exact ⟨(b, v), by rw [hb]; exact hv⟩
  · rintro ⟨⟨b, v⟩, h⟩
    obtain ⟨block, hb, hv⟩ := Option.bind_eq_some_iff.1 h
    exact ⟨block, List.mem_iff_getElem?.2 ⟨b, hb⟩, List.mem_iff_getElem?.2 ⟨v, hv⟩⟩

theorem mem_positions_iff : pos ∈ func.positions ↔ ∃ val, func.valueAt? pos = some val := by
  obtain ⟨b, v⟩ := pos
  unfold positions valueAt?
  rw [List.mem_flatMap]
  constructor
  · rintro ⟨⟨block, b'⟩, hblock, hv⟩
    obtain ⟨v', hv', heq⟩ := List.mem_map.1 hv
    cases heq
    have hb : func.blocks[b]? = some block := List.mem_zipIdx_iff_getElem?.1 hblock
    exact ⟨_, by rw [hb]; exact List.getElem?_eq_getElem (List.mem_range.1 hv')⟩
  · rintro ⟨val, h⟩
    obtain ⟨block, hb, hv⟩ := Option.bind_eq_some_iff.1 h
    refine ⟨(block, b), List.mem_zipIdx_iff_getElem?.2 hb, List.mem_map.2 ⟨v, ?_, rfl⟩⟩
    exact List.mem_range.2 (List.getElem?_eq_some_iff.1 hv).1

theorem map_valueAt?_positions : func.positions.map func.valueAt? = func.values.map some := by
  unfold positions values
  rw [List.map_flatMap, List.map_flatMap]
  have h (p : FirBlock × Nat) (hp : p ∈ func.blocks.zipIdx) :
      ((List.range p.1.values.length).map fun v => (p.2, v)).map func.valueAt? =
        p.1.values.map some := by
    obtain ⟨block, b⟩ := p
    have hb : func.blocks[b]? = some block := List.mem_zipIdx_iff_getElem?.1 hp
    refine List.ext_getElem? fun v => ?_
    simp only [List.map_map, List.getElem?_map]
    by_cases hv : v < block.values.length
    · rw [List.getElem?_range hv]
      simp [valueAt?, hb, hv]
    · simp [hv]
  calc func.blocks.zipIdx.flatMap _ = func.blocks.zipIdx.flatMap fun p => p.1.values.map some :=
        List.flatMap_congr h
    _ = (func.blocks.zipIdx.map Prod.fst).flatMap fun block => block.values.map some := by
        rw [List.flatMap_map]
    _ = _ := by rw [List.zipIdx_map_fst]

theorem nodup_positions : func.positions.Nodup := by
  unfold positions
  rw [List.nodup_flatMap]
  constructor
  · rintro ⟨block, b⟩ -
    exact List.Nodup.map (fun _ _ h => (Prod.mk.inj h).2) List.nodup_range
  · have hnodup : (func.blocks.zipIdx.map Prod.snd).Nodup := by
      rw [List.zipIdx_map_snd]
      exact List.nodup_range'
    refine (List.pairwise_map.1 hnodup).imp fun {p q} hpq => ?_
    intro pos hp hq
    obtain ⟨v, -, rfl⟩ := List.mem_map.1 hp
    obtain ⟨w, -, h⟩ := List.mem_map.1 hq
    exact hpq (Prod.mk.inj h).1.symm

theorem valueAt?_modifyAt :
    (func.modifyAt pos g).valueAt? q = (if q = pos then (func.valueAt? q).map g else func.valueAt? q) := by
  obtain ⟨b, v⟩ := pos
  obtain ⟨b', v'⟩ := q
  unfold valueAt? modifyAt
  simp only [List.getElem?_modify, Prod.mk.injEq]
  by_cases hb : b = b'
  · subst hb
    cases func.blocks[b]? with
    | none => simp
    | some block =>
      simp only [if_true, Option.bind_some, true_and]
      by_cases hv : v = v'
      · subst hv
        simp
      · simp [hv, Ne.symm hv]
  · simp [hb, Ne.symm hb]

theorem valueAt?_mapValues : (func.mapValues g).valueAt? q = (func.valueAt? q).map g := by
  unfold valueAt? mapValues
  simp only [List.getElem?_map]
  cases func.blocks[q.1]? with
  | none => rfl
  | some block => simp

end FirFunc

end FluxOs
