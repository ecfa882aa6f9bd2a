import FluxOs.Fir.Validation
import FluxOs.Lib.Availability
import Mathlib.Logic.Function.Basic

/-!
# The meaning of FIR

The standard semantics of a function in SSA form, with 64-bit two's-complement integers.  Every id has a value, at
first that of the input; a PHI reads the source for the block that control comes from, as it was at the end of that
block.  What is not arithmetic is carried out by a host, which sees the operation, its operands and the side
effects so far.  A division by zero, a missing operand and a missing block have no meaning.

A function is in SSA form when every id that it uses is defined nowhere, as the parameters are, or on every path to
the use.
-/

namespace FluxOs

open Availability

/-! ## Values -/

/-- The values of all ids. -/
abbrev SsaEnv := UInt32 → Int64

/-- An operation that the host carries out. -/
structure Act where
  id : UInt32
  op : FirOp
  type : FirType
  payload : UInt64
  args : List Int64
  deriving DecidableEq, Repr

/-- What an operation returns after the given side effects. -/
abbrev FirHost := List Act → Act → Int64

/-- The operation is integer arithmetic or a comparison. -/
def FirOp.computes (op : FirOp) : Bool := firIsBinaryArith op || firIsBinaryBitwise op || firIsComparison op

/-- What an arithmetic operation computes. -/
def FirOp.compute (op : FirOp) (args : List Int64) : Option Int64 :=
  match op, args with
  | .ADD, a :: b :: _ => some (a + b)
  | .SUB, a :: b :: _ => some (a - b)
  | .MUL, a :: b :: _ => some (a * b)
  | .DIV, a :: b :: _ => if b = 0 then none else some (a / b)
  | .MOD, a :: b :: _ => if b = 0 then none else some (a % b)
  | .NEG, a :: _ => some (-a)
  | .ABS, a :: _ => some (if a < 0 then -a else a)
  | .AND, a :: b :: _ => some (a &&& b)
  | .OR, a :: b :: _ => some (a ||| b)
  | .XOR, a :: b :: _ => some (a ^^^ b)
  | .NOT, a :: _ => some (~~~a)
  | .SHL, a :: b :: _ => some (a <<< (b &&& 63))
  | .SHR, a :: b :: _ => some (a >>> (b &&& 63))
  | .EQ, a :: b :: _ => some (if a = b then 1 else 0)
  | .NE, a :: b :: _ => some (if a ≠ b then 1 else 0)
  | .LT, a :: b :: _ => some (if a < b then 1 else 0)
  | .GT, a :: b :: _ => some (if a > b then 1 else 0)
  | .LE, a :: b :: _ => some (if a ≤ b then 1 else 0)
  | .GE, a :: b :: _ => some (if a ≥ b then 1 else 0)
  | _, _ => none

/-- What an operation does besides computing its value. -/
inductive FirEffect
  | control
  | memory
  | agents
  | system
  deriving DecidableEq, Repr

/-- A call runs another function, a store writes memory, the operations on agents send, wait or spawn, and those of
the system leave the program.  All others only compute or read. -/
def FirOp.effect? : FirOp → Option FirEffect
  | .CALL => some .control
  | .STORE => some .memory
  | .DELEGATE | .TELL | .ASK | .BARRIER | .SPAWN => some .agents
  | .SYSCALL | .INTRINSIC | .TRAP => some .system
  | _ => none

/-- The values of the ids and the side effects so far. -/
structure SsaState where
  env : SsaEnv
  trace : List Act

def SsaState.assign (s : SsaState) (id : UInt32) (n : Int64) : SsaState :=
  { s with env := Function.update s.env id n }

namespace FirValue

variable (val : FirValue)

/-- The source of a PHI for the block that control comes from. -/
def source (pred : Option UInt32) : Option UInt32 := do
  let pred ← pred
  return (← val.phi.find? fun src => src.blockId = pred).srcId

/-- The operation that the host is asked for. -/
def act (env : SsaEnv) : Act := ⟨val.id, val.op, val.type, val.payload, val.operands.map env⟩

/-- What a value that is no terminator computes; `entry` are the values at the entry of its block. -/
def result (host : FirHost) (pred : Option UInt32) (entry : SsaEnv) (s : SsaState) : Option Int64 :=
  if val.op = .CONST then some val.ival
  else if val.op = .PHI then (val.source pred).map entry
  else if val.op.computes then val.op.compute (val.operands.map s.env)
  else some (host s.trace (val.act s.env))

/-- The side effects when a value has been executed. -/
def effects (s : SsaState) : List Act :=
  if val.op.effect?.isSome then s.trace ++ [val.act s.env] else s.trace

def exec (host : FirHost) (pred : Option UInt32) (entry : SsaEnv) (s : SsaState) : Option SsaState :=
  (val.result host pred entry s).map fun n => { s with trace := val.effects s }.assign val.id n

/-- The ids that a value reads where it is executed. -/
def uses : List UInt32 :=
  match val.op with
  | .CONST | .PHI | .JUMP => []
  | .BRANCH | .RETURN => val.operands.take 1
  | _ => val.operands

end FirValue

/-! ## Blocks -/

/-- The values of a block up to its terminator. -/
def runValues (host : FirHost) (pred : Option UInt32) (entry : SsaEnv) :
    List FirValue → SsaState → Option (FirValue × SsaState)
  | [], _ => none
  | val :: rest, s =>
    if firIsTerminator val.op then some (val, s)
    else (val.exec host pred entry s).bind fun s => runValues host pred entry rest s

/-- Where control goes. -/
inductive Exit
  | goto (id : UInt32)
  | ret (value : Option Int64)
  deriving DecidableEq, Repr

/-- What a terminator does. -/
def FirValue.leave (val : FirValue) (env : SsaEnv) : Option Exit :=
  match val.op, val.operands with
  | .JUMP, _ => some (.goto val.blockId)
  | .BRANCH, cond :: t :: f :: _ => some (.goto (if env cond ≠ 0 then t else f))
  | .RETURN, operands => some (.ret (operands.head?.map env))
  | _, _ => none

/-! ## Functions -/

/-- What is seen of a run: the blocks that control goes to, the side effects, and the value that is returned when
the function has returned. -/
structure FirBehaviour where
  blocks : List UInt32
  trace : List Act
  returned : Option (Option Int64)
  deriving DecidableEq, Repr

namespace FirFunc

variable (func : FirFunc)

/-- The index of the first block with the id. -/
def blockIndex (id : UInt32) : Option Nat := func.blocks.findIdx? fun block => block.id = id

/-- What is seen of at most `n` blocks, from the block at index `b` on. -/
def runBlocks (host : FirHost) : Nat → Option UInt32 → Nat → SsaState → Option FirBehaviour
  | 0, _, _, s => some ⟨[], s.trace, none⟩
  | n + 1, pred, b, s => do
    let block ← func.blocks[b]?
    let (term, s) ← runValues host pred s.env block.values s
    match ← term.leave s.env with
    | .ret value => return ⟨[], s.trace, some value⟩
    | .goto id => do
      let behaviour ← runBlocks host n (some block.id) (← func.blockIndex id) s
      return { behaviour with blocks := id :: behaviour.blocks }

/-- What is seen of the first `n` blocks of a call; `input` are the values of the ids that are not defined. -/
def run (host : FirHost) (input : SsaEnv) (n : Nat) : Option FirBehaviour :=
  func.runBlocks host n none func.entryBlock.toNat ⟨input, []⟩

/-! ## SSA form -/

/-- The positions of the values, joined as control goes. -/
def graph : FlowGraph (Nat × Nat) UInt32 where
  start := (func.entryBlock.toNat, 0)
  edge p q := ∃ val, func.valueAt? p = some val ∧
    if firIsTerminator val.op then ∃ id, some id ∈ val.targets ∧ func.blockIndex id = some q.1 ∧ q.2 = 0
    else q = (p.1, p.2 + 1)
  defines p x := ∃ val, func.valueAt? p = some val ∧ val.id = x

/-- Every use of an id is ready: that of an operand where the value is executed, that of a PHI at the end of the
block that control comes from. -/
structure SsaForm : Prop where
  operands : ∀ p val, func.valueAt? p = some val → ∀ x ∈ val.uses, func.graph.Ready x p
  sources : ∀ p q val block src, func.valueAt? q = some val → val.op = .PHI → func.blocks[p.1]? = some block →
    func.graph.edge p (q.1, 0) → val.phi.find? (fun src => src.blockId = block.id) = some src →
    func.graph.Ready src.srcId p

/-- What is seen of a function in SSA form is seen of `func'` as well. -/
def KeepsMeaning (func' : FirFunc) : Prop :=
  func.SsaForm → func'.SsaForm ∧
    ∀ host input n behaviour, func.run host input n = some behaviour → func'.run host input n = some behaviour

variable {func} {host : FirHost} {n b : Nat} {pred : Option UInt32} {s : SsaState} {behaviour : FirBehaviour}

/-- A terminator ends the values of a block, and another value is executed before the rest of them. -/
theorem runValues_cons {val term : FirValue} {vals : List FirValue} {entry : SsaEnv} {s' : SsaState} :
    runValues host pred entry (val :: vals) s = some (term, s') ↔
      firIsTerminator val.op = true ∧ term = val ∧ s' = s ∨
      firIsTerminator val.op = false ∧ ∃ t, val.exec host pred entry s = some t ∧
        runValues host pred entry vals t = some (term, s') := by
  rw [runValues]
  cases hterm : firIsTerminator val.op with
  | true =>
    rw [if_pos rfl, Option.some.injEq, Prod.mk.injEq, eq_comm (a := val), eq_comm (a := s)]
    simp only [true_and, Bool.true_eq_false, false_and, or_false]
  | false =>
    rw [if_neg Bool.false_ne_true, Option.bind_eq_some_iff]
    simp only [Bool.false_eq_true, false_and, true_and, false_or]

/-- A block returns, or goes to the next one. -/
theorem runBlocks_succ : func.runBlocks host (n + 1) pred b s = some behaviour ↔
    ∃ block term s', func.blocks[b]? = some block ∧ runValues host pred s.env block.values s = some (term, s') ∧
      ((∃ value, term.leave s'.env = some (.ret value) ∧ behaviour = ⟨[], s'.trace, some value⟩) ∨
        ∃ id b' rest, term.leave s'.env = some (.goto id) ∧ func.blockIndex id = some b' ∧
          func.runBlocks host n (some block.id) b' s' = some rest ∧
          behaviour = { rest with blocks := id :: rest.blocks }) := by
  constructor
  · intro h
    obtain ⟨block, hblock, h⟩ := Option.bind_eq_some_iff.1 h
    obtain ⟨⟨term, s'⟩, hvalues, h⟩ := Option.bind_eq_some_iff.1 h
    obtain ⟨exit, hexit, h⟩ := Option.bind_eq_some_iff.1 h
    refine ⟨block, term, s', hblock, hvalues, ?_⟩
    cases exit with
    | ret value =>
      cases h
      exact .inl ⟨value, hexit, rfl⟩
    | goto id =>
      obtain ⟨b', hindex, h⟩ := Option.bind_eq_some_iff.1 h
      obtain ⟨rest, hrest, h⟩ := Option.bind_eq_some_iff.1 h
      cases h
      exact .inr ⟨id, b', rest, hexit, hindex, hrest, rfl⟩
  · rintro ⟨block, term, s', hblock, hvalues, hexit⟩
    refine Option.bind_eq_some_iff.2 ⟨block, hblock, Option.bind_eq_some_iff.2 ⟨_, hvalues, ?_⟩⟩
    rcases hexit with ⟨value, hexit, rfl⟩ | ⟨id, b', rest, hexit, hindex, hrest, rfl⟩
    · exact Option.bind_eq_some_iff.2 ⟨_, hexit, rfl⟩
    · refine Option.bind_eq_some_iff.2 ⟨_, hexit, Option.bind_eq_some_iff.2 ⟨b', hindex, ?_⟩⟩
      exact Option.bind_eq_some_iff.2 ⟨rest, hrest, rfl⟩

end FirFunc

end FluxOs
