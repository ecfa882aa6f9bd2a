import Mathlib.Algebra.Order.Ring.Nat
import Mathlib.Data.List.Basic

/-!
# Big-endian numbers in a memory of bytes

A memory of bytes and the numbers in it, the most significant byte first, with accesses of any width.  The
contents of a memory after a sequence of accesses are given byte by byte: what the latest store to the byte left.
-/

namespace BigEndian

/-- The number in the `w` bytes from `a` on. -/
def value (bytes : Nat → UInt8) (a : Nat) : Nat → Nat
  | 0 => 0
  | w + 1 => value bytes a w * 256 + (bytes (a + w)).toNat

/-- Byte `k` of the `w` low bytes of a number. -/
def byte (w v k : Nat) : UInt8 := UInt8.ofNat (v / 256 ^ (w - 1 - k))

/-- The memory after the `w` low bytes of a number were stored from `a` on. -/
def put (bytes : Nat → UInt8) (a w v o : Nat) : UInt8 :=
  if a ≤ o ∧ o < a + w then byte w v (o - a) else bytes o

/-- An access to the memory. -/
inductive Access
  | load (a w : Nat)
  | store (a w v : Nat)
  deriving DecidableEq

/-- The byte that an access stores at `o`. -/
def Access.storedAt (o : Nat) : Access → Option UInt8
  | .store a w v => if a ≤ o ∧ o < a + w then some (byte w v (o - a)) else none
  | .load .. => none

/-- The memory after some accesses: at each address, what the latest store to it left there. -/
def contents (accs : List Access) (bytes : Nat → UInt8) (o : Nat) : UInt8 :=
  (accs.reverse.findSome? (Access.storedAt o)).getD (bytes o)

variable {bytes bytes' : Nat → UInt8} {a w v : Nat} {accs : List Access}

theorem value_lt : value bytes a w < 256 ^ w := by
  induction w with
  | zero => exact Nat.one_pos
  | succ w ih =>
    have hbyte := (bytes (a + w)).toNat_lt
    rw [value, pow_succ]
    omega

@[simp] theorem contents_nil : contents [] bytes = bytes := rfl

theorem contents_load : contents (accs ++ [.load a w]) bytes = contents accs bytes := by
  funext o
  rw [contents, contents, List.reverse_append]
  rfl

theorem contents_store : contents (accs ++ [.store a w v]) bytes = put (contents accs bytes) a w v := by
  funext o
  rw [contents, put, contents, List.reverse_append]
  simp only [List.reverse_cons, List.reverse_nil, List.nil_append, List.singleton_append, List.findSome?_cons,
    Access.storedAt]
  split_ifs <;> rfl

end BigEndian
