import FluxOs.Lib.Splices
import FluxOs.Vm.Region

/-!
# Regions as byte arrays

`flux_vm_region_read`, `flux_vm_region_write`, `flux_vm_region_copy` and `flux_vm_region_fill` read and overwrite
ranges of byte arrays, as far as the arrays reach.  A region id that is not valid has the empty array.
-/

namespace FluxOs

open Splices

/-- The bytes of a region. -/
def FluxVmRegion.contents (reg : FluxVmRegion) : List UInt8 := (List.range reg.size.toNat).map reg.data.bytes

namespace FluxVm

variable {vm vm' : FluxVm} {id src dst : Int} {slot : Fin 16} {off n : UInt64} {buf : Nat → UInt8}

/-- The bytes of the region with an id. -/
def arrayOf (vm : FluxVm) (id : Int) : List UInt8 :=
  match vm.validateRegionId id with
  | some slot => (vm.regions slot).contents
  | none => []

/-- The region with an id, if it may be written. -/
def writable (vm : FluxVm) (id : Int) : Option (Fin 16) :=
  (vm.validateRegionId id).filter fun slot => !(vm.regions slot).readonly

/-- The bytes of a host buffer. -/
def bufferBytes (buf : Nat → UInt8) (n : UInt64) : List UInt8 := (List.range n.toNat).map buf

/-- A region has a range overwritten, and nothing else is changed. -/
structure Overwrites (vm vm' : FluxVm) (slot : Fin 16) (off : Nat) (xs : List UInt8) : Prop where
  contents : (vm'.regions slot).contents = splice (vm.regions slot).contents off xs
  outside : ∀ i, (i < off ∨ off + xs.length ≤ i ∨ (vm.regions slot).size.toNat ≤ i) →
    (vm'.regions slot).data.bytes i = (vm.regions slot).data.bytes i
  rest : ∃ bytes, vm' = vm.putRegion slot
    { vm.regions slot with data := { (vm.regions slot).data with bytes } }

/-- The functions on regions are functions on byte arrays. -/
structure OnArrays (vm : FluxVm) : Prop where
  read : ∀ id off n, vm.fluxVmRegionRead id off n = slice (vm.arrayOf id) off.toNat n.toNat
  write : ∀ id off buf n,
    match vm.writable id with
    | none => vm.fluxVmRegionWrite id off buf n = (0, vm)
    | some slot =>
      (vm.fluxVmRegionWrite id off buf n).1.toNat = (slice (vm.arrayOf id) off.toNat n.toNat).length ∧
        vm.Overwrites (vm.fluxVmRegionWrite id off buf n).2 slot off.toNat (bufferBytes buf n)
  readBack : ∀ id off buf n,
    (vm.fluxVmRegionWrite id off buf n).2.fluxVmRegionRead id off (vm.fluxVmRegionWrite id off buf n).1 =
      bufferBytes buf (vm.fluxVmRegionWrite id off buf n).1
  copy : ∀ src srcOff dst dstOff n,
    match vm.writable dst with
    | none => (vm.fluxVmRegionCopy src srcOff dst dstOff n).2 = vm
    | some slot => vm.Overwrites (vm.fluxVmRegionCopy src srcOff dst dstOff n).2 slot dstOff.toNat
        (slice (vm.arrayOf src) srcOff.toNat n.toNat)
  copyOk : ∀ src srcOff dst dstOff n, (vm.fluxVmRegionCopy src srcOff dst dstOff n).1 = .ok ↔
    (vm.writable dst).isSome ∧ srcOff.toNat < (vm.arrayOf src).length ∧ dstOff.toNat < (vm.arrayOf dst).length
  fill : ∀ id off n value,
    match vm.writable id with
    | none => (vm.fluxVmRegionFill id off n value).2 = vm
    | some slot => vm.Overwrites (vm.fluxVmRegionFill id off n value).2 slot off.toNat
        (List.replicate n.toNat value)
  fillOk : ∀ id off n value, (vm.fluxVmRegionFill id off n value).1 = .ok ↔
    (vm.writable id).isSome ∧ off.toNat < (vm.arrayOf id).length

/-! ## Clipping -/

@[simp]
theorem length_contents (reg : FluxVmRegion) : reg.contents.length = reg.size.toNat := by
  rw [FluxVmRegion.contents, List.length_map, List.length_range]

theorem getElem?_contents (reg : FluxVmRegion) (i : Nat) :
    reg.contents[i]? = if i < reg.size.toNat then some (reg.data.bytes i) else none := by
  rw [FluxVmRegion.contents, List.getElem?_map]
  split
  · rw [List.getElem?_range ‹_›]
    rfl
  · rw [List.getElem?_eq_none (by rw [List.length_range]; omega)]
    rfl

/-- The number of bytes from an offset on, up to a limit. -/
theorem toNat_clip {size : UInt64} (h : ¬ off ≥ size) :
    (min n (size - off)).toNat = min n.toNat (size.toNat - off.toNat) := by
  have hsub : (size - off).toNat = size.toNat - off.toNat :=
    UInt64.toNat_sub_of_le size off (UInt64.le_of_lt (UInt64.not_le.1 h))
  rw [← hsub]
  show (if n ≤ size - off then n else size - off).toNat = _
  split
  · next hle => exact (Nat.min_eq_left (UInt64.le_iff_toNat_le.1 hle)).symm
  · next hlt => exact (Nat.min_eq_right (Nat.le_of_lt (UInt64.lt_iff_toNat_lt.1 (UInt64.not_le.1 hlt)))).symm

theorem toNat_lt_of_not_ge {size : UInt64} (h : ¬ off ≥ size) : off.toNat < size.toNat :=
  UInt64.lt_iff_toNat_lt.1 (UInt64.not_le.1 h)

theorem toNat_le_of_ge {size : UInt64} (h : off ≥ size) : size.toNat ≤ off.toNat := UInt64.le_iff_toNat_le.1 h

/-- A range of a region, as the bytes that are copied. -/
theorem slice_contents (reg : FluxVmRegion) (offset count : Nat) : slice reg.contents offset count =
    (List.range (min count (reg.size.toNat - offset))).map fun i => reg.data.bytes (offset + i) := by
  refine List.ext_getElem? fun i => ?_
  by_cases hi : i < count ∧ offset + i < reg.size.toNat
  · rw [slice, List.getElem?_take_of_lt hi.1, List.getElem?_drop, getElem?_contents, if_pos hi.2, List.getElem?_map,
      List.getElem?_range (by omega)]
    rfl
  · rw [List.getElem?_eq_none (by rw [length_slice, length_contents]; omega),
      List.getElem?_eq_none (by rw [List.length_map, List.length_range]; omega)]

/-- A copy into a buffer overwrites the bytes of the region. -/
theorem overwrites_copyIn {xs : List UInt8} {source : Nat → UInt8} {offset count : Nat}
    (hcount : count = min xs.length ((vm.regions slot).size.toNat - offset))
    (hsource : ∀ i, i < count → xs[i]? = some (source i)) :
    vm.Overwrites (vm.putRegion slot
      { vm.regions slot with data := (vm.regions slot).data.copyIn offset count source }) slot offset xs where
  contents := by
    rw [putRegion_self]
    refine List.ext_getElem? fun i => ?_
    rw [getElem?_contents]
    by_cases hi : i < (vm.regions slot).size.toNat
    · rw [if_pos hi]
      by_cases hin : offset ≤ i ∧ i < offset + xs.length
      · rw [getElem?_splice_of_inside hin.1 (by rwa [length_contents]) hin.2, hsource (i - offset) (by omega)]
        exact congrArg some (if_pos ⟨hin.1, by omega⟩)
      · rw [getElem?_splice_of_outside (by omega), getElem?_contents, if_pos hi]
        exact congrArg some (if_neg (by omega))
    · rw [if_neg hi, List.getElem?_eq_none (by rw [length_splice, length_contents]; omega)]
  outside i hi := by
    rw [putRegion_self]
    exact if_neg (by omega)
  rest := ⟨_, rfl⟩

/-- Nothing is overwritten where the range does not reach the region, or holds no bytes. -/
theorem overwrites_refl {xs : List UInt8} {offset : Nat}
    (h : xs = [] ∨ (vm.regions slot).size.toNat ≤ offset) : vm.Overwrites vm slot offset xs where
  contents := by
    rcases h with rfl | h
    · rw [splice_nil]
    · rw [splice_of_le (by rwa [length_contents])]
  outside _ _ := rfl
  rest := by
    refine ⟨(vm.regions slot).data.bytes, ?_⟩
    show vm = { vm with regions := Function.update vm.regions slot (vm.regions slot) }
    rw [Function.update_eq_self]

/-! ## The functions -/

theorem arrayOf_eq (h : vm.validateRegionId id = some slot) : vm.arrayOf id = (vm.regions slot).contents := by
  rw [arrayOf, h]

theorem arrayOf_eq_nil (h : vm.validateRegionId id = none) : vm.arrayOf id = [] := by
  rw [arrayOf, h]

theorem writable_eq (h : vm.validateRegionId id = some slot) :
    vm.writable id = if (vm.regions slot).readonly then none else some slot := by
  rw [writable, h, Option.filter_some]
  cases (vm.regions slot).readonly <;> rfl

theorem fluxVmRegionRead_eq : vm.fluxVmRegionRead id off n = slice (vm.arrayOf id) off.toNat n.toNat := by
  unfold fluxVmRegionRead
  split
  · next hn =>
    rw [hn]
    exact List.take_zero.symm
  cases h : vm.validateRegionId id with
  | none =>
    rw [arrayOf_eq_nil h, slice_of_le (Nat.zero_le _)]
  | some slot =>
    simp only
    rw [arrayOf_eq h]
    split
    · next hoff => rw [slice_of_le (by rw [length_contents]; exact toNat_le_of_ge hoff)]
    · next hoff => rw [slice_contents, toNat_clip hoff]

/-- The region that may be written. -/
theorem writable_eq_some (h : vm.writable id = some slot) :
    vm.validateRegionId id = some slot ∧ (vm.regions slot).readonly = false := by
  obtain ⟨hid, hro⟩ := Option.filter_eq_some_iff.1 h
  exact ⟨hid, by simpa using hro⟩

/-- A region that exists and may not be written is read-only. -/
theorem readonly_of_not_writable (h : vm.writable id = none) (hid : vm.validateRegionId id = some slot) :
    (vm.regions slot).readonly = true := by
  rw [writable_eq hid] at h
  by_contra hro
  rw [if_neg hro] at h
  cases h

theorem length_bufferBytes : (bufferBytes buf n).length = n.toNat := by
  rw [bufferBytes, List.length_map, List.length_range]

theorem getElem?_bufferBytes {i : Nat} (hi : i < n.toNat) : (bufferBytes buf n)[i]? = some (buf i) := by
  rw [bufferBytes, List.getElem?_map, List.getElem?_range hi]
  rfl

theorem fluxVmRegionWrite_of_not_writable (h : vm.writable id = none) :
    vm.fluxVmRegionWrite id off buf n = (0, vm) := by
  unfold fluxVmRegionWrite
  split
  · rfl
  cases hid : vm.validateRegionId id with
  | none => rfl
  | some slot =>
    simp only
    rw [if_pos (readonly_of_not_writable h hid)]

variable (off buf n) in
theorem fluxVmRegionWrite_overwrites (h : vm.writable id = some slot) :
    (vm.fluxVmRegionWrite id off buf n).1.toNat = (slice (vm.arrayOf id) off.toNat n.toNat).length ∧
      vm.Overwrites (vm.fluxVmRegionWrite id off buf n).2 slot off.toNat (bufferBytes buf n) := by
  obtain ⟨hid, hro⟩ := writable_eq_some h
  rw [arrayOf_eq hid, length_slice, length_contents]
  unfold fluxVmRegionWrite
  split
  · next hn =>
    subst hn
    exact ⟨(Nat.zero_min _).symm, overwrites_refl (.inl rfl)⟩
  rw [hid]
  simp only
  rw [if_neg (Bool.eq_false_iff.1 hro)]
  split
  · next hoff =>
    have hle := toNat_le_of_ge hoff
    refine ⟨?_, overwrites_refl (.inr hle)⟩
    show 0 = _
    omega
  · next hoff =>
    refine ⟨toNat_clip hoff, ?_⟩
    apply overwrites_copyIn
    · rw [toNat_clip hoff, length_bufferBytes]
    · intro i hi
      rw [toNat_clip hoff] at hi
      exact getElem?_bufferBytes (by omega)

/-- Overwriting leaves the regions valid that were. -/
theorem Overwrites.arrayOf {xs : List UInt8} {offset : Nat} (h : vm.Overwrites vm' slot offset xs)
    (hid : vm.validateRegionId id = some slot) : vm'.arrayOf id = splice (vm.arrayOf id) offset xs := by
  have hid' : vm'.validateRegionId id = some slot := by
    obtain ⟨bytes, rfl⟩ := h.rest
    rw [validateRegionId_eq_some] at hid ⊢
    rw [putRegion_self]
    exact hid
  rw [arrayOf_eq hid', arrayOf_eq hid, h.contents]

/-- What was just written is read back. -/
theorem fluxVmRegionRead_write : (vm.fluxVmRegionWrite id off buf n).2.fluxVmRegionRead id off
    (vm.fluxVmRegionWrite id off buf n).1 = bufferBytes buf (vm.fluxVmRegionWrite id off buf n).1 := by
  rw [fluxVmRegionRead_eq]
  cases h : vm.writable id with
  | none =>
    rw [fluxVmRegionWrite_of_not_writable h]
    exact List.take_zero
  | some slot =>
    obtain ⟨hcount, hover⟩ := fluxVmRegionWrite_overwrites off n buf h
    rw [length_slice] at hcount
    rw [hover.arrayOf (writable_eq_some h).1, slice_splice (by rw [length_bufferBytes]; omega), bufferBytes,
      bufferBytes, ← List.map_take, List.take_range]
    congr 2
    omega

theorem fluxVmRegionCopy_of_not_writable {srcOff dstOff : UInt64} (h : vm.writable dst = none) :
    ∃ status, vm.fluxVmRegionCopy src srcOff dst dstOff n = (status, vm) ∧ status ≠ .ok := by
  unfold fluxVmRegionCopy
  cases hsrc : vm.validateRegionId src with
  | none => exact ⟨.errNotfound, rfl, by decide⟩
  | some s =>
    cases hdst : vm.validateRegionId dst with
    | none => exact ⟨.errNotfound, rfl, by decide⟩
    | some d =>
      simp only
      rw [if_pos (readonly_of_not_writable h hdst)]
      exact ⟨.errDenied, rfl, by decide⟩

theorem fluxVmRegionCopy_overwrites {srcOff dstOff : UInt64} (h : vm.writable dst = some slot) :
    vm.Overwrites (vm.fluxVmRegionCopy src srcOff dst dstOff n).2 slot dstOff.toNat
        (slice (vm.arrayOf src) srcOff.toNat n.toNat) ∧
      ((vm.fluxVmRegionCopy src srcOff dst dstOff n).1 = .ok ↔
        srcOff.toNat < (vm.arrayOf src).length ∧ dstOff.toNat < (vm.arrayOf dst).length) := by
  obtain ⟨hdst, hro⟩ := writable_eq_some h
  rw [arrayOf_eq hdst, length_contents]
  unfold fluxVmRegionCopy
  cases hsrc : vm.validateRegionId src with
  | none =>
    rw [arrayOf_eq_nil hsrc, slice_of_le (Nat.zero_le _)]
    exact ⟨overwrites_refl (.inl rfl), iff_of_false (show FluxStatus.errNotfound ≠ .ok by decide)
      fun h => absurd h.1 (Nat.not_lt_zero _)⟩
  | some s =>
    rw [arrayOf_eq hsrc, length_contents, hdst]
    simp only
    rw [if_neg (Bool.eq_false_iff.1 hro)]
    split
    · next hoff =>
      have hle := toNat_le_of_ge hoff
      rw [slice_of_le (by rwa [length_contents])]
      exact ⟨overwrites_refl (.inl rfl), iff_of_false (show FluxStatus.errInvalid ≠ .ok by decide)
        fun h => absurd h.1 (Nat.not_lt.2 hle)⟩
    next hsrcOff =>
    split
    · next hoff =>
      have hle := toNat_le_of_ge hoff
      exact ⟨overwrites_refl (.inr hle), iff_of_false (show FluxStatus.errInvalid ≠ .ok by decide)
        fun h => absurd h.2 (Nat.not_lt.2 hle)⟩
    next hdstOff =>
    have hok := And.intro (toNat_lt_of_not_ge hsrcOff) (toNat_lt_of_not_ge hdstOff)
    have hcount : (min (min n ((vm.regions s).size - srcOff)) ((vm.regions slot).size - dstOff)).toNat =
        min (slice (vm.regions s).contents srcOff.toNat n.toNat).length
          ((vm.regions slot).size.toNat - dstOff.toNat) := by
      rw [toNat_clip hdstOff, toNat_clip hsrcOff, length_slice, length_contents]
    split
    · next hzero =>
      rw [hzero] at hcount
      refine ⟨overwrites_refl (.inl (List.eq_nil_of_length_eq_zero ?_)), iff_of_true rfl hok⟩
      have hpos := hok.2
      have hmin : 0 = _ := hcount
      omega
    · refine ⟨?_, iff_of_true rfl hok⟩
      apply overwrites_copyIn hcount
      intro i hi
      rw [hcount, length_slice, length_contents] at hi
      rw [slice, List.getElem?_take_of_lt (by omega), List.getElem?_drop, getElem?_contents, if_pos (by omega)]

theorem fluxVmRegionFill_of_not_writable {value : UInt8} (h : vm.writable id = none) :
    ∃ status, vm.fluxVmRegionFill id off n value = (status, vm) ∧ status ≠ .ok := by
  unfold fluxVmRegionFill
  cases hid : vm.validateRegionId id with
  | none => exact ⟨.errNotfound, rfl, by decide⟩
  | some slot =>
    simp only
    rw [if_pos (readonly_of_not_writable h hid)]
    exact ⟨.errDenied, rfl, by decide⟩

theorem fluxVmRegionFill_overwrites {value : UInt8} (h : vm.writable id = some slot) :
    vm.Overwrites (vm.fluxVmRegionFill id off n value).2 slot off.toNat (List.replicate n.toNat value) ∧
      ((vm.fluxVmRegionFill id off n value).1 = .ok ↔ off.toNat < (vm.arrayOf id).length) := by
  obtain ⟨hid, hro⟩ := writable_eq_some h
  rw [arrayOf_eq hid, length_contents]
  unfold fluxVmRegionFill
  rw [hid]
  simp only
  rw [if_neg (Bool.eq_false_iff.1 hro)]
  split
  · next hoff =>
    have hle := toNat_le_of_ge hoff
    exact ⟨overwrites_refl (.inr hle), iff_of_false (show FluxStatus.errInvalid ≠ .ok by decide)
      (Nat.not_lt.2 hle)⟩
  · next hoff =>
    refine ⟨?_, iff_of_true rfl (toNat_lt_of_not_ge hoff)⟩
    apply overwrites_copyIn
    · rw [toNat_clip hoff, List.length_replicate]
    · intro i hi
      rw [toNat_clip hoff] at hi
      exact List.getElem?_replicate_of_lt (by omega)

/-- For every region table, region ids, offsets and lengths, the functions on regions are functions on byte
arrays. -/
theorem regions_onArrays (vm : FluxVm) : vm.OnArrays where
  read _ _ _ := fluxVmRegionRead_eq
  write id off buf n := by
    cases h : vm.writable id with
    | none => exact fluxVmRegionWrite_of_not_writable h
    | some slot => exact fluxVmRegionWrite_overwrites off n buf h
  readBack _ _ _ _ := fluxVmRegionRead_write
  copy src srcOff dst dstOff n := by
    cases h : vm.writable dst with
    | none =>
      obtain ⟨status, hcall, -⟩ := fluxVmRegionCopy_of_not_writable h
      exact congrArg Prod.snd hcall
    | some slot => exact (fluxVmRegionCopy_overwrites h).1
  copyOk src srcOff dst dstOff n := by
    cases h : vm.writable dst with
    | none =>
      obtain ⟨status, hcall, hstatus⟩ := fluxVmRegionCopy_of_not_writable h
      exact iff_of_false (hcall ▸ hstatus) fun h => absurd h.1 (by decide)
    | some slot => exact (fluxVmRegionCopy_overwrites h).2.trans (and_iff_right rfl).symm
  fill id off n value := by
    cases h : vm.writable id with
    | none =>
      obtain ⟨status, hcall, -⟩ := fluxVmRegionFill_of_not_writable h
      exact congrArg Prod.snd hcall
    | some slot => exact (fluxVmRegionFill_overwrites h).1
  fillOk id off n value := by
    cases h : vm.writable id with
    | none =>
      obtain ⟨status, hcall, hstatus⟩ := fluxVmRegionFill_of_not_writable h
      exact iff_of_false (hcall ▸ hstatus) fun h => absurd h.1 (by decide)
    | some slot => exact (fluxVmRegionFill_overwrites h).2.trans (and_iff_right rfl).symm

end FluxVm

end FluxOs
