import FluxOs.Lib.BigEndian
import FluxOs.Vm.MemoryEffects
import FluxOs.Vm.StepRules

/-!
# Loads and stores as one memory of bytes

The loads and stores of all widths on the active region, in any sequence, as accesses to one big-endian memory.
-/

namespace FluxOs

open Faulting BigEndian

namespace FluxVmRegion

variable {reg : FluxVmRegion} {slot : Fin 16} {width : Nat} {offset val : UInt64}

/-- A region with other bytes. -/
def withBytes (reg : FluxVmRegion) (bytes : Nat → UInt8) : FluxVmRegion :=
  { reg with data := { reg.data with bytes } }

/-! ## Byte accesses -/

theorem shift_or (v : Nat) (b : UInt8) (h : v < 2 ^ 56) :
    (UInt64.ofNat v <<< 8) ||| b.toUInt64 = UInt64.ofNat (v * 256 + b.toNat) := by
  have hb := b.toNat_lt
  apply UInt64.toNat_inj.1
  rw [UInt64.toNat_or, UInt64.toNat_shiftLeft, UInt8.toNat_toUInt64, UInt64.toNat_ofNat', UInt64.toNat_ofNat',
    Nat.mod_eq_of_lt (a := v) (by omega), Nat.mod_eq_of_lt (a := v * 256 + b.toNat) (by omega)]
  show v <<< 8 % 2 ^ 64 ||| b.toNat = v * 256 + b.toNat
  rw [Nat.shiftLeft_eq, Nat.mod_eq_of_lt (by omega), ← Nat.shiftLeft_eq,
    ← Nat.shiftLeft_add_eq_or_of_lt (by omega), Nat.shiftLeft_eq]

theorem readBigEndian_eq (hwidth : width ≤ 8) (h : offset.toNat + width ≤ reg.size.toNat) :
    reg.readBigEndian slot width offset = .ok (UInt64.ofNat (value reg.data.bytes offset.toNat width)) := by
  induction width with
  | zero => rfl
  | succ n ih =>
    have hsize := reg.size.toNat_lt
    have hn : (offset + UInt64.ofNat n).toNat = offset.toNat + n := toNat_add_ofNat (by
      show _ < 2 ^ 64
      omega)
    have hbyte : reg.byteAt slot (offset + UInt64.ofNat n) = .ok (reg.data.bytes (offset.toNat + n)) := by
      rw [byteAt_of_lt (by rw [UInt64.lt_iff_toNat_lt]; omega), hn]
    have hvalue : value reg.data.bytes offset.toNat n < 2 ^ 56 := by
      refine Nat.lt_of_lt_of_le value_lt ?_
      exact Nat.pow_le_pow_right (by decide : 0 < 256) (by omega : n ≤ 7)
    have hread := ih (by omega) (by omega)
    unfold readBigEndian at hread ⊢
    rw [List.range_succ, List.foldlM_append, hread]
    simp only [List.foldlM_cons, List.foldlM_nil, hbyte]
    show Except.ok _ = Except.ok _
    rw [shift_or _ _ hvalue, value]

theorem byte_of_shift {k : Nat} (hwidth : width ≤ 8) (hk : k < width) :
    (val >>> UInt64.ofNat (8 * (width - 1 - k))).toUInt8 = byte width val.toNat k := by
  apply UInt8.toNat_inj.1
  have hshift : (UInt64.ofNat (8 * (width - 1 - k))).toNat % 64 = 8 * (width - 1 - k) := by
    rw [UInt64.toNat_ofNat', Nat.mod_eq_of_lt (a := 8 * (width - 1 - k)) (by omega)]
    omega
  rw [UInt64.toNat_toUInt8, UInt64.toNat_shiftRight, hshift, byte, UInt8.toNat_ofNat', Nat.shiftRight_eq_div_pow,
    pow_mul]
  rfl

/-- The bytes that the first rounds of a store have written. -/
theorem writeBigEndian_rounds {n : Nat} (hwidth : width ≤ 8) (hn : n ≤ width)
    (h : offset.toNat + width ≤ reg.size.toNat) :
    (List.range n).foldlM (fun reg i => reg.setByteAt slot (offset + UInt64.ofNat i)
      (val >>> UInt64.ofNat (8 * (width - 1 - i))).toUInt8) reg =
    (.ok (reg.withBytes fun o => if offset.toNat ≤ o ∧ o < offset.toNat + n then
      byte width val.toNat (o - offset.toNat) else reg.data.bytes o) : Except Fault FluxVmRegion) := by
  induction n with
  | zero =>
    have hnone (o : Nat) : ¬(offset.toNat ≤ o ∧ o < offset.toNat + 0) := by omega
    simp only [hnone, if_false]
    rfl
  | succ n ih =>
    have hsize := reg.size.toNat_lt
    have haddr : (offset + UInt64.ofNat n).toNat = offset.toNat + n := toNat_add_ofNat (by
      show _ < 2 ^ 64
      omega)
    rw [List.range_succ, List.foldlM_append, ih (by omega)]
    show FluxVmRegion.setByteAt _ slot (offset + UInt64.ofNat n) _ >>= pure = _
    rw [bind_pure, byte_of_shift hwidth (by omega : n < width), setByteAt, if_pos]
    · show Except.ok _ = Except.ok _
      congr 1
      unfold withBytes
      dsimp only
      congr 2
      funext o
      rw [haddr, Function.update_apply]
      by_cases ho : o = offset.toNat + n
      · rw [if_pos ho, if_pos (by omega), ho, Nat.add_sub_cancel_left]
      · rw [if_neg ho]
        congr 1
        apply propext
        omega
    · rw [UInt64.lt_iff_toNat_lt, haddr]
      show _ < reg.size.toNat
      omega

theorem writeBigEndian_eq (hwidth : width ≤ 8) (h : offset.toNat + width ≤ reg.size.toNat) :
    reg.writeBigEndian slot width offset val =
      .ok (reg.withBytes (put reg.data.bytes offset.toNat width val.toNat)) :=
  writeBigEndian_rounds hwidth (Nat.le_refl _) h

/-! ## Loads and stores of each width -/

/-- A number of `width` bytes, extended by its sign. -/
def signExtended (width v : Nat) : UInt64 := UInt64.ofBitVec ((BitVec.ofNat (8 * width) v).signExtend 64)

theorem signExtended_eight (v : Nat) : UInt64.ofNat v = signExtended 8 v := by
  unfold signExtended
  rw [BitVec.signExtend_eq]
  rfl

theorem signExtend32_ofNat (v : Nat) : signExtend32 (UInt64.ofNat v) = signExtended 4 v := by
  apply UInt64.toBitVec_inj.1
  simp [signExtend32, signExtended]

theorem signExtend16_ofNat (v : Nat) : signExtend16 (UInt64.ofNat v) = signExtended 2 v := by
  apply UInt64.toBitVec_inj.1
  simp [signExtend16, signExtended]

theorem signExtend8_ofNat (v : Nat) : signExtend8 (UInt64.ofNat v) = signExtended 1 v := by
  apply UInt64.toBitVec_inj.1
  simp [signExtend8, signExtended]

theorem not_beyond (hwidth : width ≤ 8) (h : offset.toNat + width ≤ reg.size.toNat) :
    ¬offset + UInt64.ofNat width > reg.size :=
  (not_check_iff offset hwidth reg.size).2 (.inl h)

theorem memRead_eq {extend : UInt64 → UInt64} (hwidth : width ≤ 8) (h : offset.toNat + width ≤ reg.size.toNat)
    (hextend : ∀ v, extend (UInt64.ofNat v) = signExtended width v) :
    memRead width extend reg slot offset = .ok (signExtended width (value reg.data.bytes offset.toNat width)) := by
  rw [memRead, if_neg (not_beyond hwidth h), readBigEndian_eq hwidth h, ← hextend]
  rfl

theorem memRead8_eq (h : offset.toNat + 1 ≤ reg.size.toNat) :
    memRead8 reg slot offset = .ok (signExtended 1 (value reg.data.bytes offset.toNat 1)) := by
  have hlt : offset < reg.size := UInt64.lt_iff_toNat_lt.2 (by omega)
  have hvalue : (reg.data.bytes offset.toNat).toUInt64 = UInt64.ofNat (value reg.data.bytes offset.toNat 1) := by
    apply UInt64.toNat_inj.1
    simp [value]
  rw [memRead8, if_neg (UInt64.not_le.2 hlt), byteAt_of_lt hlt, ← signExtend8_ofNat, ← hvalue]
  rfl

theorem memWrite_eq (hwidth : width ≤ 8) (h : offset.toNat + width ≤ reg.size.toNat) :
    memWrite width reg slot offset val =
      .ok (reg.withBytes (put reg.data.bytes offset.toNat width val.toNat)) := by
  rw [memWrite, if_neg (not_beyond hwidth h), writeBigEndian_eq hwidth h]

theorem memWrite8_eq (h : offset.toNat + 1 ≤ reg.size.toNat) :
    memWrite8 reg slot offset val = .ok (reg.withBytes (put reg.data.bytes offset.toNat 1 val.toNat)) := by
  have hlt : offset < reg.size := UInt64.lt_iff_toNat_lt.2 (by omega)
  have hbytes : Function.update reg.data.bytes offset.toNat val.toUInt8 =
      put reg.data.bytes offset.toNat 1 val.toNat := by
    funext o
    rw [Function.update_apply, put]
    by_cases ho : o = offset.toNat
    · rw [if_pos ho, if_pos (by omega), ho, Nat.sub_self]
      apply UInt8.toNat_inj.1
      simp [byte]
    · rw [if_neg ho, if_neg (by omega)]
  rw [memWrite8, if_neg (UInt64.not_le.2 hlt), setByteAt, if_pos hlt, hbytes]
  rfl

end FluxVmRegion

namespace FluxVm

open FluxVmRegion

variable {vm vm₁ vm' vm'' : FluxVm} {host : Host} {op : MemoryOp} {i : FluxVmInsn} {width : Nat} {slot : Fin 16}
  {ea : UInt64} {v1 v2 : UInt64}

/-- The width of a load. -/
def loadWidth : MemoryOp → Option Nat
  | .LOAD => some 8
  | .LOAD32 => some 4
  | .LOAD16 => some 2
  | .LOAD8 => some 1
  | _ => none

/-- The width of a store. -/
def storeWidth : MemoryOp → Option Nat
  | .STORE => some 8
  | .STORE32 => some 4
  | .STORE16 => some 2
  | .STORE8 => some 1
  | _ => none

theorem regionAccess_load (hop : loadWidth op = some width)
    (h : ea.toNat + width ≤ (vm.regions slot).size.toNat) :
    vm.regionAccess op i ea slot = (do
      return (none, ← vm.fluxVmSetReg i.rd
        (signExtended width (value (vm.regions slot).data.bytes ea.toNat width)))) := by
  cases op <;> cases hop <;> dsimp only [regionAccess]
  case LOAD => rw [memRead64, memRead_eq (by decide) h signExtended_eight]; rfl
  case LOAD32 => rw [memRead32, memRead_eq (by decide) h signExtend32_ofNat]; rfl
  case LOAD16 => rw [memRead16, memRead_eq (by decide) h signExtend16_ofNat]; rfl
  case LOAD8 => rw [memRead8_eq h]; rfl

theorem regionAccess_store (hop : storeWidth op = some width) (hrd : i.rd.toNat < 64)
    (h : ea.toNat + width ≤ (vm.regions slot).size.toNat) :
    vm.regionAccess op i ea slot = .ok (none, vm.putRegion slot ((vm.regions slot).withBytes
      (put (vm.regions slot).data.bytes ea.toNat width (vm.regValue i.rd).toNat))) := by
  have hstore {write : FluxVmRegion → Fin 16 → UInt64 → UInt64 → Except Fault FluxVmRegion}
      (hwrite : write (vm.regions slot) slot ea (vm.regValue i.rd) = .ok ((vm.regions slot).withBytes
        (put (vm.regions slot).data.bytes ea.toNat width (vm.regValue i.rd).toNat))) :
      (do let val ← vm.fluxVmGetReg i.rd; return (none, vm.putRegion slot (← write (vm.regions slot) slot ea val)) :
        Exec) = .ok (none, vm.putRegion slot ((vm.regions slot).withBytes
          (put (vm.regions slot).data.bytes ea.toNat width (vm.regValue i.rd).toNat))) := by
    rw [fluxVmGetReg_of_lt hrd]
    show (do return (none, vm.putRegion slot (← write _ _ _ _)) : Exec) = _
    rw [hwrite]
    rfl
  cases op <;> cases hop
  case STORE | STORE32 | STORE16 => exact hstore (memWrite_eq (by decide) h)
  case STORE8 => exact hstore (memWrite8_eq h)

theorem execMemory_region (hop : loadWidth op = some width ∨ storeWidth op = some width)
    (hslot : vm.activeSlot = some slot) : vm.execMemory op i v1 v2 = vm.regionAccess op i (v1 + i.offset) slot := by
  rcases hop with hop | hop
  all_goals
    cases op <;> cases hop <;> unfold execMemory <;> rw [hslot]

/-- A register of the file is written, unless it is `R0`. -/
theorem fluxVmSetReg_of_lt {r : UInt8} (h : r.toNat < 64) (val : UInt64) :
    vm.fluxVmSetReg r val = .ok (if r = 0 then vm else vm.putReg ⟨r.toNat, h⟩ val) := by
  unfold fluxVmSetReg
  by_cases h0 : r = 0
  · rw [if_pos h0, if_pos h0]
  · rw [if_neg h0, dif_pos h, if_neg h0]

/-! ## The steps -/

/-- `rs1` and the signed byte `rs2`. -/
def effectiveAddr (vm : FluxVm) (i : FluxVmInsn) : UInt64 := vm.regValue i.rs1 + i.offset

/-- The next instruction names registers of the file and addresses `width` bytes inside the active, writable region
in this slot. -/
structure Addresses (vm : FluxVm) (slot : Fin 16) (i : FluxVmInsn) (width : Nat) : Prop where
  next : vm.nextInsn = some i
  region : vm.activeSlot = some slot
  writable : (vm.regions slot).readonly = false
  rd : i.rd.toNat < 64
  rs1 : i.rs1.toNat < 64
  rs2 : i.rs2.toNat < 64
  inside : (vm.effectiveAddr i).toNat + width ≤ (vm.regions slot).size.toNat

/-- The next instruction is a load inside the region. -/
def Loads (vm : FluxVm) (slot : Fin 16) (i : FluxVmInsn) (width : Nat) : Prop :=
  ∃ op, opcodeOf i.opcode = .memory op ∧ loadWidth op = some width ∧ vm.Addresses slot i width

/-- The next instruction is a store inside the region. -/
def Stores (vm : FluxVm) (slot : Fin 16) (i : FluxVmInsn) (width : Nat) : Prop :=
  ∃ op, opcodeOf i.opcode = .memory op ∧ storeWidth op = some width ∧ vm.Addresses slot i width

/-- The entry of the trace buffer is outside the buffer. -/
def TraceFault (fault : Fault) : Prop := ∃ k, fault = .traceEntry k

/-- A step executes the instruction that is addressed. -/
theorem Addresses.step (h : vm.Addresses slot i width) {Q : FluxStatus × FluxVm → Prop}
    (hexec : ∀ vm₁, vm.Dispatches i vm₁ → vm₁.regs = vm.regs → vm₁.regions = vm.regions →
      vm₁.activeSlot = some slot →
      Ensures TraceFault (fun r => Q (finish r))
        (vm₁.execute host i (vm.regValue i.rs1) (vm.regValue i.rs2))) :
    Ensures TraceFault Q (vm.fluxVmStep host) := by
  have hsame {j : FluxVmInsn} (hj : vm.nextInsn = some j) : i = j := Option.some.inj (h.next.symm.trans hj)
  refine fluxVmStep_ensures (fun r hr => ?_) (fun fault _ hfault => ?_) (fun j hj r hr hlarge => ?_)
    (fun k => ⟨k, rfl⟩) fun j vm₁ hj hvm₁ => ?_
  · rw [stopped?_of_nextInsn h.next] at hr
    cases hr
  · have hnext := h.next
    rw [nextInsn, hfault] at hnext
    split at hnext <;> cases hnext
  · obtain rfl := hsame hj
    have hrs1 := h.rs1
    have hrs2 := h.rs2
    rcases hr with rfl | rfl <;> omega
  · obtain rfl := hsame hj
    obtain ⟨trace, traceIdx, heq⟩ := hvm₁.eq
    refine hexec vm₁ hvm₁ (by rw [heq]) (by rw [heq]) ?_
    rw [heq]
    exact h.region

/-- A load leaves all regions alone, and its register has the value, unless it is `R0`, or `R57`, which gets the
cycle count. -/
theorem Loads.step (h : vm.Loads slot i width) :
    Ensures TraceFault (fun r => r.1 = .ok ∧ r.2.regions = vm.regions ∧
      (i.rd ≠ 0 → i.rd ≠ 57 → r.2.regValue i.rd =
        signExtended width (value (vm.regions slot).data.bytes (vm.effectiveAddr i).toNat width)))
      (vm.fluxVmStep host) := by
  obtain ⟨op, hop, hwidth, h⟩ := h
  refine h.step fun vm₁ hvm₁ hregs hregions hslot => ?_
  unfold execute
  rw [hop]
  dsimp only
  rw [execMemory_region (.inl hwidth) hslot, regionAccess_load hwidth (by rw [hregions]; exact h.inside), hregions,
    fluxVmSetReg_of_lt h.rd]
  refine ⟨rfl, ?_, fun h0 h57 => ?_⟩
  · show (if i.rd = 0 then vm₁ else vm₁.putReg _ _).regions = vm.regions
    split_ifs
    · exact hregions
    · exact hregions
  · have hne : (⟨i.rd.toNat, h.rd⟩ : Fin 64) ≠ fluxRegCycleCount := by
      intro heq
      exact h57 (UInt8.toNat_inj.1 (show i.rd.toNat = 57 from congrArg Fin.val heq))
    show regValue (putReg (if i.rd = 0 then vm₁ else vm₁.putReg ⟨i.rd.toNat, h.rd⟩ _) fluxRegCycleCount _) i.rd = _
    rw [if_neg h0, regValue, dif_pos h.rd, if_neg h0, putReg_of_ne _ hne, putReg_self]
    rfl

/-- A store changes the bytes that it covers, to those of the register, and nothing else in any region. -/
theorem Stores.step (h : vm.Stores slot i width) :
    Ensures TraceFault (fun r => r.1 = .ok ∧ r.2.regions = Function.update vm.regions slot
      ((vm.regions slot).withBytes (put (vm.regions slot).data.bytes (vm.effectiveAddr i).toNat width
        (vm.regValue i.rd).toNat))) (vm.fluxVmStep host) := by
  obtain ⟨op, hop, hwidth, h⟩ := h
  refine h.step fun vm₁ hvm₁ hregs hregions hslot => ?_
  have hvalue : vm₁.regValue i.rd = vm.regValue i.rd := by rw [regValue, regValue, hregs]
  unfold execute
  rw [hop]
  dsimp only
  rw [execMemory_region (.inr hwidth) hslot,
    regionAccess_store hwidth h.rd (by rw [hregions]; exact h.inside), hregions, hvalue]
  refine ⟨rfl, ?_⟩
  show Function.update vm₁.regions slot _ = _
  rw [hregions]
  rfl

/-! ## Runs -/

/-- A step of the VM is this access to the region. -/
inductive Performs (host : Host) (slot : Fin 16) (vm vm' : FluxVm) : Access → Prop
  | load {i : FluxVmInsn} {width : Nat} : vm.Loads slot i width → Steps (fluxVmStep · host) vm vm' →
      Performs host slot vm vm' (.load (vm.effectiveAddr i).toNat width)
  | store {i : FluxVmInsn} {width : Nat} : vm.Stores slot i width → Steps (fluxVmStep · host) vm vm' →
      Performs host slot vm vm' (.store (vm.effectiveAddr i).toNat width (vm.regValue i.rd).toNat)

/-- The steps of the VM are these accesses, one after the other. -/
inductive PerformsAll (host : Host) (slot : Fin 16) (vm : FluxVm) : List Access → FluxVm → Prop
  | nil : PerformsAll host slot vm [] vm
  | snoc {accs : List Access} {acc : Access} {vm' vm'' : FluxVm} : PerformsAll host slot vm accs vm' →
      Performs host slot vm' vm'' acc → PerformsAll host slot vm (accs ++ [acc]) vm''

variable {accs : List Access}

/-- After any sequence of loads and stores every byte of the region is what the latest store to it left. -/
theorem PerformsAll.regions (h : PerformsAll host slot vm accs vm') :
    vm'.regions = Function.update vm.regions slot
      ((vm.regions slot).withBytes (contents accs (vm.regions slot).data.bytes)) := by
  induction h with
  | nil => exact (Function.update_eq_self ..).symm
  | snoc _ hacc ih =>
    cases hacc with
    | load hload hstep =>
      obtain ⟨rc, hstep⟩ := hstep
      rw [(hload.step.of_ok hstep).2.1, ih, contents_load]
    | store hstore hstep =>
      obtain ⟨rc, hstep⟩ := hstep
      rw [(hstore.step.of_ok hstep).2, ih, Function.update_self, Function.update_idem, contents_store]
      rfl

/-- The accesses went to one memory of bytes: each byte of the region is what the latest store to it left, and all
else in the regions is as it was.  The next load or store returns `FLUX_OK`, unless the trace buffer is left.  A load
gives the sign-extended big-endian number in its bytes, but to `R0` and `R57`, and a store changes the bytes that it
covers to those of its register. -/
structure BehavesAsBytes (host : Host) (slot : Fin 16) (vm : FluxVm) (accs : List Access) (vm' : FluxVm) : Prop where
  regions : vm'.regions = Function.update vm.regions slot
    ((vm.regions slot).withBytes (contents accs (vm.regions slot).data.bytes))
  load : ∀ i width, vm'.Loads slot i width → Ensures TraceFault (fun r => r.1 = .ok ∧ r.2.regions = vm'.regions ∧
    (i.rd ≠ 0 → i.rd ≠ 57 → r.2.regValue i.rd = signExtended width
      (value (contents accs (vm.regions slot).data.bytes) (vm'.effectiveAddr i).toNat width)))
    (vm'.fluxVmStep host)
  store : ∀ i width, vm'.Stores slot i width → Ensures TraceFault (fun r => r.1 = .ok ∧
    r.2.regions = Function.update vm'.regions slot ((vm'.regions slot).withBytes
      (put (contents accs (vm.regions slot).data.bytes) (vm'.effectiveAddr i).toNat width
        (vm'.regValue i.rd).toNat))) (vm'.fluxVmStep host)

/-- Every sequence of loads and stores inside the active region behaves as one big-endian memory. -/
theorem bigEndian_memory (h : PerformsAll host slot vm accs vm') : BehavesAsBytes host slot vm accs vm' := by
  have hbytes : (vm'.regions slot).data.bytes = contents accs (vm.regions slot).data.bytes := by
    rw [h.regions, Function.update_self]
    rfl
  refine ⟨h.regions, fun i width hload => ?_, fun i width hstore => ?_⟩
  · rw [← hbytes]
    exact hload.step
  · rw [← hbytes]
    exact hstore.step

/-- A VM with a program and a region of 16 bytes, which is the active one. -/
def withRegion (code : List UInt8) : FluxVm := ((boot code).fluxVmRegionCreate plentifulHost none 16 false).2

/-- The states of the run of a program. -/
def regionSteps (code : List UInt8) (n : Nat) : FluxVm := (next (fluxVmStep · plentifulHost))^[n] (withRegion code)

/-- `STORE R63, [0]; STORE8 R0, [3]; LOAD32 R4, [0]`. -/
def mixedWidths : List UInt8 := [0x54, 63, 0, 0, 0x55, 0, 0, 3, 0x53, 4, 0, 0]

theorem bigEndian_memory_mixed : BehavesAsBytes plentifulHost 0 (withRegion mixedWidths)
    [.store 0 8 0xFFFFFFFFFFFFFFFF, .store 3 1 0] (regionSteps mixedWidths 2) := by
  have hword : (withRegion mixedWidths).Stores 0 (decodeInsn 0x543F0000) 8 :=
    ⟨.STORE, rfl, rfl, rfl, rfl, rfl, by decide, by decide, by decide, by decide⟩
  have hbyte : (regionSteps mixedWidths 1).Stores 0 (decodeInsn 0x55000003) 1 :=
    ⟨.STORE8, rfl, rfl, rfl, rfl, rfl, by decide, by decide, by decide, by decide⟩
  have hfirst : Performs plentifulHost 0 (withRegion mixedWidths) (regionSteps mixedWidths 1)
    (.store 0 8 0xFFFFFFFFFFFFFFFF) := .store hword ⟨_, rfl⟩
  have hsecond : Performs plentifulHost 0 (regionSteps mixedWidths 1) (regionSteps mixedWidths 2)
    (.store 3 1 0) := .store hbyte ⟨_, rfl⟩
  exact bigEndian_memory (.snoc (.snoc .nil hfirst) hsecond)

/-- `LOAD8 R57, [0]`. -/
def loadCycleCount : List UInt8 := [0x51, 57, 0, 0]

/-- A load into `R57` reads 0, and the register has the cycle count afterwards. -/
theorem loadCycleCount_overwritten : ∃ (vm : FluxVm) (i : FluxVmInsn) (vm' : FluxVm), vm.Loads 0 i 1 ∧ i.rd ≠ 0 ∧
    vm.fluxVmStep plentifulHost = .ok (.ok, vm') ∧ vm'.regValue i.rd = 1 ∧
    signExtended 1 (value (vm.regions 0).data.bytes (vm.effectiveAddr i).toNat 1) = 0 := by
  refine ⟨withRegion loadCycleCount, decodeInsn 0x51390000, regionSteps loadCycleCount 1,
    ⟨.LOAD8, rfl, rfl, rfl, rfl, rfl, by decide, by decide, by decide, by decide⟩, by decide, rfl, rfl, ?_⟩
  decide

end FluxVm

end FluxOs
