import FluxOs.Fir.Ir
import FluxOs.Lib.Rounds

/-!
# Validation and the optimization passes

`fir_validate_func`, `fir_dead_code_elim` and `fir_constant_fold` of `fluxc/fir.c`.  The visit of one
value by constant folding is the list `foldRules` of its rules in order: each reads the value anew, and
either turns it into a constant or replaces all uses of it.
-/

namespace FluxOs

/-! ## Validation -/

namespace FirFunc

variable (func : FirFunc)

/-- A block with the given id exists. -/
def hasBlock (id : UInt32) : Bool := func.blocks.any fun block => block.id = id

/-- The errors counted by the terminator check of one block: a second terminator, a terminator that is
not at the end, and a missing one. -/
def terminatorErrors (block : FirBlock) : Nat :=
  let (errors, hasTerminator) := block.values.zipIdx.foldl (fun (errors, hasTerminator) (val, v) =>
    if firIsTerminator val.op then
      (errors + (if hasTerminator then 1 else 0) + (if v + 1 ≠ block.values.length then 1 else 0),
        true)
    else (errors, hasTerminator)) (0, false)
  errors + if hasTerminator then 0 else 1

/-- The errors counted for the branch and jump targets of one value. -/
def targetErrors (val : FirValue) : Nat :=
  match val.op, val.operands with
  | .JUMP, _ => if func.hasBlock val.blockId then 0 else 1
  | .BRANCH, _ :: t :: f :: _ => if func.hasBlock t && func.hasBlock f then 0 else 1
  | .BRANCH, [_, _] => 1
  | _, _ => 0

/-- The errors counted for the sources of one value. -/
def phiErrors (val : FirValue) : Nat :=
  if val.op = .PHI then (val.phi.filter fun src => !func.hasBlock src.blockId).length else 0

/-- The errors that a check counts in a loop over a list. -/
def errorsIn {α : Type} (check : α → Nat) (l : List α) : Nat :=
  l.foldl (fun errors a => errors + check a) 0

/-- The errors counted for one block. -/
def blockErrors (block : FirBlock) : Nat :=
  terminatorErrors block + errorsIn func.targetErrors block.values + errorsIn func.phiErrors block.values

/-- `fir_validate_func`: the number of errors. -/
def firValidateFunc : Nat :=
  if func.blocks.length = 0 then 1
  else
    errorsIn func.blockErrors func.blocks +
      if func.entryBlock ≥ UInt32.ofNat func.blocks.length then 1 else 0

/-! ## Looking up and replacing values -/

/-- `get_const_int`: the first constant with the given id. -/
def getConstInt (id : UInt32) : Option Int64 :=
  (func.values.find? fun val => val.id = id && val.op = .CONST).map FirValue.ival

/-- `replace_uses` on one value. -/
def replaceIn (oldId newId : UInt32) (val : FirValue) : FirValue :=
  { val with
    operands := val.operands.map fun o => if o = oldId then newId else o
    phi := val.phi.map fun src => { src with srcId := if src.srcId = oldId then newId else src.srcId } }

def replaceUses (oldId newId : UInt32) : FirFunc := func.mapValues (replaceIn oldId newId)

/-- `value_is_used`. -/
def valueIsUsed (id : UInt32) : Bool :=
  func.values.any fun val =>
    val.operands.any (· = id) || val.phi.any (fun src => src.srcId = id) ||
      val.op = .BRANCH && (val.operands[1]? = some id || val.operands[2]? = some id)

end FirFunc

/-! ## Constant folding -/

/-- `INT64_MIN / -1` traps in the compiler. -/
inductive FoldFault
  | divOverflow
  deriving DecidableEq, Repr

/-- Check if an opcode is a binary arithmetic op. -/
def firIsBinaryArith (op : FirOp) : Bool := FirOp.ADD.code ≤ op.code && op.code ≤ FirOp.ABS.code

/-- Check if an opcode is a binary bitwise op. -/
def firIsBinaryBitwise (op : FirOp) : Bool := FirOp.AND.code ≤ op.code && op.code ≤ FirOp.SHR.code

def firIsComparison (op : FirOp) : Bool := FirOp.EQ.code ≤ op.code && op.code ≤ FirOp.GE.code

/-- `a / b` and `a % b`, with `valid = false` for a zero divisor. -/
def foldDivision (div : Int64 → Int64 → Int64) (a b : Int64) : Except FoldFault (Option Int64) :=
  if b = 0 then .ok none
  else if a = Int64.minValue ∧ b = -1 then .error .divOverflow
  else .ok (some (div a b))

/-- The switch on the binary arithmetic operations. -/
def foldArith (op : FirOp) (a b : Int64) : Except FoldFault (Option Int64) :=
  match op with
  | .ADD => .ok (some (a + b))
  | .SUB => .ok (some (a - b))
  | .MUL => .ok (some (a * b))
  | .DIV => foldDivision (· / ·) a b
  | .MOD => foldDivision (· % ·) a b
  | .NEG => .ok (some (-a))
  | .ABS => .ok (some (if a < 0 then -a else a))
  | _ => .ok none

/-- The switch on the binary bitwise operations. -/
def foldBitwise (op : FirOp) (a b : Int64) : Option Int64 :=
  match op with
  | .AND => some (a &&& b)
  | .OR => some (a ||| b)
  | .XOR => some (a ^^^ b)
  | .SHL => some (a <<< (b &&& 63))
  | .SHR => some (a >>> (b &&& 63))
  | .NOT => some (~~~a)
  | _ => none

/-- The switch on the comparisons. -/
def foldComparison (op : FirOp) (a b : Int64) : Int64 :=
  match op with
  | .EQ => if a = b then 1 else 0
  | .NE => if a ≠ b then 1 else 0
  | .LT => if a < b then 1 else 0
  | .GT => if a > b then 1 else 0
  | .LE => if a ≤ b then 1 else 0
  | .GE => if a ≥ b then 1 else 0
  | _ => 0

/-- What a rule does to the value it matches. -/
inductive Rewriting
  /-- Turn the value into a constant. -/
  | constant (n : Int64)
  /-- Replace all uses of the value, which stays in place. -/
  | replace (newId : UInt32)
  deriving DecidableEq, Repr

/-- A rule of constant folding, applied to a value of a function. -/
abbrev FoldRule := FirFunc → FirValue → Except FoldFault (Option Rewriting)

/-- A rule for two constant operands. -/
def binaryRule (applies : FirOp → Bool)
    (fold : FirOp → Int64 → Int64 → Except FoldFault (Option Int64)) : FoldRule := fun func val =>
  match val.operands with
  | x :: y :: _ =>
    if applies val.op then
      match func.getConstInt x, func.getConstInt y with
      | some a, some b => do return (← fold val.op a b).map .constant
      | _, _ => .ok none
    else .ok none
  | _ => .ok none

def arithRule : FoldRule := binaryRule firIsBinaryArith foldArith

def bitwiseRule : FoldRule := binaryRule firIsBinaryBitwise fun op a b => .ok (foldBitwise op a b)

def comparisonRule : FoldRule :=
  binaryRule firIsComparison fun op a b => .ok (some (foldComparison op a b))

/-- Unary negation of a constant. -/
def negRule : FoldRule := fun func val =>
  match val.op, val.operands with
  | .NEG, x :: _ => .ok ((func.getConstInt x).map fun a => .constant (-a))
  | _, _ => .ok none

/-- `x + 0`, `x - 0`, `x * 1` and `x * 0`. -/
def rightRule : FoldRule := fun func val =>
  match val.operands with
  | x :: y :: _ => .ok <|
    match val.op, func.getConstInt y with
    | .ADD, some c | .SUB, some c => if c = 0 then some (.replace x) else none
    | .MUL, some c =>
      if c = 1 then some (.replace x) else if c = 0 then some (.constant 0) else none
    | _, _ => none
  | _ => .ok none

/-- `0 + x`, `1 * x` and `0 * x`. -/
def leftRule : FoldRule := fun func val =>
  match val.operands with
  | x :: y :: _ => .ok <|
    match val.op, func.getConstInt x with
    | .ADD, some c => if c = 0 then some (.replace y) else none
    | .MUL, some c =>
      if c = 1 then some (.replace y) else if c = 0 then some (.constant 0) else none
    | _, _ => none
  | _ => .ok none

/-- The rules in the order in which a visit tries them. -/
def foldRules : List FoldRule :=
  [arithRule, bitwiseRule, comparisonRule, negRule, rightRule, leftRule]

/-- `val->op = FIR_OP_CONST; val->ival = n; val->num_operands = 0`. -/
def FirValue.toConst (n : Int64) (val : FirValue) : FirValue :=
  { val with op := .CONST, payload := n.toUInt64, operands := [] }

namespace FirFunc

/-- Do what a rule says to the value at a position. -/
def rewrite (func : FirFunc) (pos : Nat × Nat) (val : FirValue) : Rewriting → FirFunc
  | .constant n => func.modifyAt pos (FirValue.toConst n)
  | .replace newId => func.replaceUses val.id newId

/-- Try one rule on the value at a position; the flag is `changed`. -/
def tryRule (pos : Nat × Nat) (state : FirFunc × Bool) (rule : FoldRule) :
    Except FoldFault (FirFunc × Bool) :=
  let (func, changed) := state
  match func.valueAt? pos with
  | none => .ok (func, changed)
  | some val => do
    match ← rule func val with
    | none => return (func, changed)
    | some r => return (func.rewrite pos val r, true)

/-- The visit of the value at a position. -/
def foldVisit (state : FirFunc × Bool) (pos : Nat × Nat) : Except FoldFault (FirFunc × Bool) :=
  foldRules.foldlM (tryRule pos) state

/-- One round of the loop of `fir_constant_fold`, with the flag it leaves. -/
def foldSweep (func : FirFunc) : Except FoldFault (FirFunc × Bool) :=
  func.positions.foldlM foldVisit (func, false)

/-- `fir_constant_fold`; `none` when `fuel` rounds do not end it. -/
def firConstantFold : Nat → FirFunc → Option (Except FoldFault FirFunc) := Faulting.rounds foldSweep

/-! ## Dead code elimination -/

/-- The operations that dead code elimination never removes besides terminators. -/
def hasSideEffect (op : FirOp) : Bool :=
  op = .CALL || op = .STORE || op = .SYSCALL || op = .INTRINSIC || op = .TRAP || op = .DELEGATE ||
    op = .TELL || op = .ASK || op = .SPAWN || op = .BARRIER

/-- Remove the value at a position by shifting the remaining ones. -/
def removeAt (func : FirFunc) (pos : Nat × Nat) : FirFunc :=
  { func with blocks := func.blocks.modify pos.1 fun block =>
      { block with values := block.values.eraseIdx pos.2 } }

/-- The visit of the value at a position. -/
def dceVisit (state : FirFunc × Bool) (pos : Nat × Nat) : FirFunc × Bool :=
  let (func, changed) := state
  match func.valueAt? pos with
  | none => (func, changed)
  | some val =>
    if firIsTerminator val.op || hasSideEffect val.op || func.valueIsUsed val.id then (func, changed)
    else (func.removeAt pos, true)

/-- The positions in the order of dead code elimination: the blocks forwards, the values of a block
backwards. -/
def positionsBackwards (func : FirFunc) : List (Nat × Nat) :=
  func.blocks.zipIdx.flatMap fun (block, b) =>
    (List.range block.values.length).reverse.map fun v => (b, v)

/-- One round of the loop of `fir_dead_code_elim`. -/
def dceSweep (func : FirFunc) : FirFunc × Bool :=
  func.positionsBackwards.foldl dceVisit (func, false)

/-- `fir_dead_code_elim`; `none` when `fuel` rounds do not end it. -/
def firDeadCodeElim : Nat → FirFunc → Option (Except Empty FirFunc) :=
  Faulting.rounds fun func => .ok func.dceSweep

end FirFunc

end FluxOs
