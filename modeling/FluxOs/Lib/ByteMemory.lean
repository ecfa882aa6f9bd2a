import Mathlib.Algebra.Group.Nat.Defs
import Mathlib.Data.List.Range
import Mathlib.Tactic.SplitIfs

/-!
# Byte-addressed memory

A memory maps addresses to bytes.  Numbers are stored as their little-endian bytes.  What is read back
from the place of a write is what was written, and a read elsewhere does not see it.
-/

namespace ByteMemory

/-- A memory with a byte at every address. -/
abbrev Memory := Nat → UInt8

variable {mem mem' : Memory} {a i n w : Nat} {bs : List UInt8}

/-! ## Little-endian numbers -/

/-- The `w` low bytes of a number, the lowest first. -/
def leBytes : Nat → Nat → List UInt8
  | 0, _ => []
  | w + 1, n => UInt8.ofNat n :: leBytes w (n / 256)

/-- The number with the given bytes, the lowest first. -/
def leNat : List UInt8 → Nat
  | [] => 0
  | b :: bs => b.toNat + 256 * leNat bs

@[simp] theorem length_leBytes (w n : Nat) : (leBytes w n).length = w := by
  induction w generalizing n with
  | zero => rfl
  | succ w ih => rw [leBytes, List.length_cons, ih]

theorem leNat_leBytes (w n : Nat) : leNat (leBytes w n) = n % 256 ^ w := by
  induction w generalizing n with
  | zero => rw [leBytes, leNat, Nat.pow_zero, Nat.mod_one]
  | succ w ih =>
    have hpow : 256 ^ (w + 1) = 256 * 256 ^ w := Nat.pow_succ'
    rw [leBytes, leNat, ih, UInt8.toNat_ofNat', hpow]
    exact Nat.mod_mul.symm

theorem leNat_leBytes_of_lt (h : n < 256 ^ w) : leNat (leBytes w n) = n := by
  rw [leNat_leBytes, Nat.mod_eq_of_lt h]

theorem leNat_append (bs cs : List UInt8) : leNat (bs ++ cs) = leNat bs + 256 ^ bs.length * leNat cs := by
  induction bs with
  | nil => simp [leNat]
  | cons b bs ih =>
    rw [List.cons_append, leNat, leNat, ih, List.length_cons, Nat.pow_succ', Nat.mul_add, Nat.mul_assoc,
      Nat.add_assoc]

/-! ## Reading and writing -/

/-- The `n` bytes from address `a` on. -/
def read (mem : Memory) (a n : Nat) : List UInt8 := (List.range n).map fun i => mem (a + i)

/-- Put bytes at address `a`. -/
def write (mem : Memory) (a : Nat) (bs : List UInt8) : Memory := fun i =>
  if a ≤ i then (bs[i - a]?).getD (mem i) else mem i

/-- Put `n` times the byte `v` at address `a`. -/
def fill (mem : Memory) (a n : Nat) (v : UInt8) : Memory := fun i =>
  if a ≤ i ∧ i < a + n then v else mem i

/-- Copy `n` bytes from `src` to `dst`. -/
def copy (mem : Memory) (dst src n : Nat) : Memory := fun i =>
  if dst ≤ i ∧ i < dst + n then mem (src + (i - dst)) else mem i

@[simp] theorem length_read (mem : Memory) (a n : Nat) : (read mem a n).length = n := by
  rw [read, List.length_map, List.length_range]

theorem read_append (mem : Memory) (a m n : Nat) : read mem a (m + n) = read mem a m ++ read mem (a + m) n := by
  simp [read, List.range_add, Nat.add_assoc]

/-- A part of what is read. -/
theorem take_drop_read {k m : Nat} (h : k + m ≤ n) : ((read mem a n).drop k).take m = read mem (a + k) m := by
  obtain ⟨r, rfl⟩ := Nat.exists_eq_add_of_le h
  rw [read_append, read_append, List.append_assoc, List.drop_left' (length_read ..), List.take_left' (length_read ..)]

theorem read_congr (h : ∀ i, a ≤ i → i < a + n → mem' i = mem i) : read mem' a n = read mem a n := by
  refine List.map_congr_left fun i hi => h (a + i) (by omega) ?_
  have := List.mem_range.1 hi
  omega

theorem write_of_outside (h : i < a ∨ a + bs.length ≤ i) : write mem a bs i = mem i := by
  unfold write
  split_ifs with ha
  · rw [List.getElem?_eq_none (by omega)]
    rfl
  · rfl

theorem fill_of_inside {v : UInt8} (ha : a ≤ i) (hn : i < a + n) : fill mem a n v i = v :=
  if_pos ⟨ha, hn⟩

theorem fill_of_outside {v : UInt8} (h : i < a ∨ a + n ≤ i) : fill mem a n v i = mem i := by
  rw [fill, if_neg (by omega)]

theorem copy_of_inside {dst src : Nat} (h : i < n) : copy mem dst src n (dst + i) = mem (src + i) := by
  rw [copy, if_pos (by omega), Nat.add_sub_cancel_left]

theorem copy_of_outside {src : Nat} (h : i < a ∨ a + n ≤ i) : copy mem a src n i = mem i := by
  rw [copy, if_neg (by omega)]

/-- The bytes just written are read back. -/
theorem read_write : read (write mem a bs) a bs.length = bs := by
  refine List.ext_getElem (length_read ..) fun i _ hi => ?_
  simp only [read, write, List.getElem_map, List.getElem_range]
  rw [if_pos (by omega), Nat.add_sub_cancel_left, List.getElem?_eq_getElem hi]
  rfl

/-- A read of other addresses does not see a write. -/
theorem read_write_of_disjoint {b : Nat} (h : b + n ≤ a ∨ a + bs.length ≤ b) :
    read (write mem a bs) b n = read mem b n :=
  read_congr fun i _ _ => write_of_outside (by omega)

end ByteMemory
