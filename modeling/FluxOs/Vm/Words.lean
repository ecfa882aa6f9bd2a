import Mathlib.Tactic.Common

/-!
# Word helpers of the interpreter

The bit-counting, byte-swapping and rotation helpers of `vm.c`, and the reinterpretation of register
words as floating-point numbers.
-/

namespace FluxOs

/-- Count leading zeros. -/
def clz64 (x : UInt64) : UInt64 :=
  if x = 0 then 64 else
    let s₀ : UInt64 × UInt64 := (0, x)
    let s₁ := if s₀.2 ≤ 0x00000000FFFFFFFF then (s₀.1 + 32, s₀.2 <<< 32) else s₀
    let s₂ := if s₁.2 ≤ 0x0000FFFFFFFFFFFF then (s₁.1 + 16, s₁.2 <<< 16) else s₁
    let s₃ := if s₂.2 ≤ 0x00FFFFFFFFFFFFFF then (s₂.1 + 8, s₂.2 <<< 8) else s₂
    let s₄ := if s₃.2 ≤ 0x0FFFFFFFFFFFFFFF then (s₃.1 + 4, s₃.2 <<< 4) else s₃
    let s₅ := if s₄.2 ≤ 0x3FFFFFFFFFFFFFFF then (s₄.1 + 2, s₄.2 <<< 2) else s₄
    if s₅.2 ≤ 0x7FFFFFFFFFFFFFFF then s₅.1 + 1 else s₅.1

/-- Count trailing zeros. -/
def ctz64 (x : UInt64) : UInt64 :=
  if x = 0 then 64 else
    let s₀ : UInt64 × UInt64 := (0, x)
    let s₁ := if s₀.2 &&& 0x00000000FFFFFFFF = 0 then (s₀.1 + 32, s₀.2 >>> 32) else s₀
    let s₂ := if s₁.2 &&& 0x000000000000FFFF = 0 then (s₁.1 + 16, s₁.2 >>> 16) else s₁
    let s₃ := if s₂.2 &&& 0x00000000000000FF = 0 then (s₂.1 + 8, s₂.2 >>> 8) else s₂
    let s₄ := if s₃.2 &&& 0x000000000000000F = 0 then (s₃.1 + 4, s₃.2 >>> 4) else s₃
    let s₅ := if s₄.2 &&& 0x0000000000000003 = 0 then (s₄.1 + 2, s₄.2 >>> 2) else s₄
    if s₅.2 &&& 0x0000000000000001 = 0 then s₅.1 + 1 else s₅.1

/-- Number of set bits. -/
def popcount64 (x : UInt64) : UInt64 :=
  let x := x - ((x >>> 1) &&& (0x5555555555555555 : UInt64))
  let x := (x &&& (0x3333333333333333 : UInt64)) + ((x >>> 2) &&& (0x3333333333333333 : UInt64))
  let x := (x + (x >>> 4)) &&& (0x0F0F0F0F0F0F0F0F : UInt64)
  (x * (0x0101010101010101 : UInt64)) >>> 56

/-- Byte swap. -/
def bswap64 (x : UInt64) : UInt64 :=
  let x := ((x &&& 0x00000000FFFFFFFF) <<< 32) ||| ((x &&& 0xFFFFFFFF00000000) >>> 32)
  let x := ((x &&& 0x0000FFFF0000FFFF) <<< 16) ||| ((x &&& 0xFFFF0000FFFF0000) >>> 16)
  ((x &&& 0x00FF00FF00FF00FF) <<< 8) ||| ((x &&& 0xFF00FF00FF00FF00) >>> 8)

/-- Rotate left.  For `n = 0` the right shift is by 64, which the host takes modulo 64. -/
def rotl64 (x n : UInt64) : UInt64 :=
  let n := n &&& 63
  (x <<< n) ||| (x >>> (64 - n))

/-- Rotate right. -/
def rotr64 (x n : UInt64) : UInt64 :=
  let n := n &&& 63
  (x >>> n) ||| (x <<< (64 - n))

/-! ## Floating point

`u64_to_double` and `double_to_u64` copy the bits of a word. -/

def u64ToDouble (v : UInt64) : Float := Float.ofBits v

def doubleToU64 (d : Float) : UInt64 := d.toBits

/-- `(uint64_t)(int64_t)d`, saturating where the conversion is out of range. -/
def doubleToInt (d : Float) : UInt64 := d.toInt64.toUInt64

def intToDouble (v : UInt64) : Float := v.toInt64.toFloat

end FluxOs
