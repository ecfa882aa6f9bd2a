import FluxOs.Lib.Brackets
import FluxOs.Vm.StackFrames

/-!
# Stack discipline

The words on the operand stack, seen as a list with the top first: `PUSH`, `PUSHF` and `PUSHA` put words in front of
it, and `POP`, `POPF` and `POPA` take them away and load them into registers.  In a sequence in which each of the
latter has a matching one of the former, with arithmetic and logic in between, the registers get what they had at
the matching instruction (`stack_discipline`).  `R57` is the exception: the end of every step overwrites it with the
cycle count.
-/

namespace FluxOs

open Brackets Faulting

/-- The pairs of instructions that save and restore registers. -/
inductive PairKind
  | PUSH | PUSHF | PUSHA
  deriving DecidableEq, Repr

/-- The words that a pair keeps on the stack. -/
def PairKind.words : PairKind → Nat
  | .PUSH | .PUSHF => 1
  | .PUSHA => 15

/-- What an instruction does with the stack, if it is one of the instructions considered here. -/
def stackMark (i : FluxVmInsn) : Option (Mark PairKind) :=
  match opcodeOf i.opcode with
  | .stack .PUSH => some (.enter .PUSH)
  | .stack .PUSHF => some (.enter .PUSHF)
  | .stack .PUSHA => some (.enter .PUSHA)
  | .stack .POP => some (.leave .PUSH)
  | .stack .POPF => some (.leave .PUSHF)
  | .stack .POPA => some (.leave .PUSHA)
  | .arith _ | .logic _ => some .inner
  | _ => none

/-- The register numbers of the instruction are below 64. -/
structure FluxVmInsn.InFile (i : FluxVmInsn) : Prop where
  rd : i.rd.toNat < 64
  rs1 : i.rs1.toNat < 64
  rs2 : i.rs2.toNat < 64

/-- The first `n` words of a stack, the last one first. -/
def wordsBelow (stack : Nat → UInt64) : Nat → List UInt64
  | 0 => []
  | n + 1 => stack n :: wordsBelow stack n

namespace FluxVm

/-- The words on the operand stack, the top first. -/
def operands (vm : FluxVm) : List UInt64 := wordsBelow vm.stack vm.stackPtr.toNat

/-- The step that executes `i` and returns `FLUX_OK`. -/
def insnStep (host : Host) (i : FluxVmInsn) (vm : FluxVm) : Option FluxVm :=
  if vm.nextInsn = some i then
    match vm.fluxVmStep host with
    | .ok (.ok, vm') => some vm'
    | _ => none
  else none

/-- The registers that the pair restores are in `d` what they were in `a`; `i` and `j` are its instructions.  `R0` is
always zero, and `SP` and `R57` are written after the word was loaded. -/
def RestoredBy (k : PairKind) (i j : FluxVmInsn) (a d : FluxVm) : Prop :=
  match k with
  | .PUSH => j.rd ≠ 0 → j.rd ≠ 2 → j.rd ≠ 57 → d.regValue j.rd = a.regValue i.rd
  | .PUSHF => d.regs fluxRegFlags = a.regs fluxRegFlags
  | .PUSHA => ∀ r ∈ generalRegs, r ≠ fluxRegSp → d.regs r = a.regs r

/-- The sequence `is` saves and restores as it should when it starts in `vm`. -/
structure StackDisciplined (host : Host) (vm : FluxVm) (is : List FluxVmInsn) : Prop where
  completes : ∀ pre i post a m, is = pre ++ i :: post → Actions.execute (insnStep host) pre vm = some a →
    a.nextInsn = some i → stackMark i = some m → m ≠ .inner →
    Ensures (fun fault => ∃ k, fault = .traceEntry k) (fun r => r.1 = .ok) (a.fluxVmStep host)
  restores : ∀ pre k i body j post a b c d, is = pre ++ i :: (body ++ j :: post) → stackMark i = some (.enter k) →
    Balanced stackMark body → stackMark j = some (.leave k) → Actions.execute (insnStep host) pre vm = some a →
    insnStep host i a = some b → Actions.execute (insnStep host) body b = some c → insnStep host j c = some d →
    RestoredBy k i j a d
  stackPtr : ∀ vm', Actions.execute (insnStep host) is vm = some vm' → vm'.stackPtr = vm.stackPtr
  sp : ∀ pre k j vm', is = pre ++ [j] → stackMark j = some (.leave k) →
    Actions.execute (insnStep host) is vm = some vm' → vm'.regs fluxRegSp = vm'.stackSize - vm'.stackPtr

variable {host : Host} {vm vm' : FluxVm} {i : FluxVmInsn} {v1 v2 val : UInt64} {ws : List UInt64}

/-! ## The stack as a list -/

theorem length_wordsBelow (stack : Nat → UInt64) (n : Nat) : (wordsBelow stack n).length = n := by
  induction n with
  | zero => rfl
  | succ n ih => rw [wordsBelow, List.length_cons, ih]

theorem length_operands (vm : FluxVm) : vm.operands.length = vm.stackPtr.toNat := length_wordsBelow ..

theorem wordsBelow_update (stack : Nat → UInt64) {n k : Nat} (hk : n ≤ k) :
    wordsBelow (Function.update stack k val) n = wordsBelow stack n := by
  induction n with
  | zero => rfl
  | succ n ih => rw [wordsBelow, wordsBelow, Function.update_of_ne (by omega), ih (by omega)]

theorem operands_of_keeps (h : KeepsStack vm vm') : vm'.operands = vm.operands := by
  rw [operands, operands, h.stack, h.stackPtr]

/-- The VM with a word pushed. -/
def pushed (vm : FluxVm) (val : UInt64) : FluxVm :=
  { vm with stack := Function.update vm.stack vm.stackPtr.toNat val, stackPtr := vm.stackPtr + 1 }

/-- The VM with a word popped. -/
def popped (vm : FluxVm) : FluxVm := { vm with stackPtr := vm.stackPtr - 1 }

/-- The word on top of the stack. -/
def top (vm : FluxVm) : UInt64 := vm.stack (vm.stackPtr - 1).toNat

theorem stackPush_eq (h : vm.stackPtr < vm.stackSize) : vm.stackPush val = .ok (.ok, vm.pushed val) := by
  rw [stackPush, if_neg (UInt64.not_le.2 h), setStackAt, if_pos h]
  rfl

theorem stackPop_eq (h : vm.stackPtr ≠ 0) (hle : vm.stackPtr ≤ vm.stackSize) :
    vm.stackPop = .ok (.ok, vm.popped, some vm.top) := by
  rw [stackPop, if_neg h, stackAt, if_pos (sub_lt_of_le (by decide) (one_le_of_ne_zero h) hle)]
  rfl

theorem toNat_add_one_of_lt {a n : UInt64} (h : a < n) : (a + 1).toNat = a.toNat + 1 := by
  have hn := n.toNat_lt
  rw [UInt64.lt_iff_toNat_lt] at h
  rw [UInt64.toNat_add, Nat.mod_eq_of_lt]
  · rfl
  · have : (1 : UInt64).toNat = 1 := rfl
    omega

theorem toNat_sub_one {a : UInt64} (h : a ≠ 0) : (a - 1).toNat + 1 = a.toNat := by
  have hle := UInt64.le_iff_toNat_le.1 (one_le_of_ne_zero h)
  have hone : (1 : UInt64).toNat = 1 := rfl
  rw [UInt64.toNat_sub_of_le _ _ (one_le_of_ne_zero h)]
  omega

theorem pushed_operands (h : vm.stackPtr < vm.stackSize) : (vm.pushed val).operands = val :: vm.operands := by
  show wordsBelow (Function.update vm.stack vm.stackPtr.toNat val) (vm.stackPtr + 1).toNat = _
  rw [toNat_add_one_of_lt h, wordsBelow, Function.update_self, wordsBelow_update _ (Nat.le_refl _)]
  rfl

theorem operands_popped (h : vm.stackPtr ≠ 0) : vm.operands = vm.top :: vm.popped.operands := by
  rw [operands, ← toNat_sub_one h]
  rfl

/-! ## What the cases do with the stack -/

/-- The operation put these words on the stack. -/
structure Pushed (vm : FluxVm) (ws : List UInt64) (vm' : FluxVm) : Prop where
  operands : vm'.operands = ws ++ vm.operands
  stackSize : vm'.stackSize = vm.stackSize

/-- The operation took these words from the stack, and `SP` mirrors the stack pointer. -/
structure Popped (vm : FluxVm) (ws : List UInt64) (vm' : FluxVm) : Prop where
  operands : vm.operands = ws ++ vm'.operands
  stackSize : vm'.stackSize = vm.stackSize
  mirrors : vm'.regs fluxRegSp = vm'.stackSize - vm'.stackPtr

/-- A case that pushes these words returns `FLUX_OK` if there is room, and only if it pushed them. -/
structure PushOutcome (vm : FluxVm) (ws : List UInt64) (r : FluxStatus × FluxVm) : Prop where
  fits : vm.operands.length + ws.length ≤ vm.stackSize.toNat → r.1 = .ok
  pushed : r.1 = .ok → Pushed vm ws r.2

/-- A case that pops `n` words returns `FLUX_OK` if they are there, and only if it popped them and `P` holds. -/
structure PopOutcome (vm : FluxVm) (n : Nat) (P : List UInt64 → FluxVm → Prop) (r : FluxStatus × FluxVm) : Prop where
  fits : n ≤ vm.operands.length → r.1 = .ok
  popped : r.1 = .ok → ∃ ws, ws.length = n ∧ Popped vm ws r.2 ∧ P ws r.2

theorem lt_stackSize (h : vm.operands.length < vm.stackSize.toNat) : vm.stackPtr < vm.stackSize := by
  rw [length_operands] at h
  exact UInt64.lt_iff_toNat_lt.2 h

theorem pushCase_outcome (val : UInt64) :
    Ensures (fun _ => False) (fun r => PushOutcome vm [val] (finish r)) (vm.pushCase val) := by
  by_cases hfull : vm.stackSize ≤ vm.stackPtr
  · rw [pushCase, stackPush, if_pos hfull]
    refine ⟨fun hfits => ?_, by simp [finish]⟩
    exact absurd (lt_stackSize hfits) (UInt64.not_lt.2 hfull)
  · have hlt := UInt64.not_le.1 hfull
    rw [pushCase, stackPush_eq hlt]
    exact ⟨fun _ => rfl, fun _ => ⟨pushed_operands hlt, rfl⟩⟩

theorem pushRegs_outcome (rs : List (Fin 64)) :
    Ensures (fun _ => False) (fun r => PushOutcome vm (rs.reverse.map vm.regs) (finish r)) (pushRegs rs vm) := by
  induction rs generalizing vm with
  | nil => exact ⟨fun _ => rfl, fun _ => ⟨rfl, rfl⟩⟩
  | cons r rs ih =>
    by_cases hfull : vm.stackSize ≤ vm.stackPtr
    · rw [pushRegs, stackPush, if_pos hfull]
      refine ⟨fun hfits => ?_, by simp [finish]⟩
      have hlt : vm.operands.length < vm.stackSize.toNat := by
        simp only [List.length_map, List.length_reverse, List.length_cons] at hfits
        omega
      exact absurd (lt_stackSize hlt) (UInt64.not_lt.2 hfull)
    · have hlt := UInt64.not_le.1 hfull
      have hpush := @pushed_operands vm (vm.regs r) hlt
      rw [pushRegs, stackPush_eq hlt]
      refine (@ih (vm.pushed (vm.regs r))).imp fun out hout => ⟨fun hfits => hout.fits ?_, fun hok => ?_⟩
      · rw [hpush]
        simp only [List.length_map, List.length_reverse, List.length_cons] at hfits ⊢
        show _ ≤ vm.stackSize.toNat
        omega
      · refine ⟨?_, (hout.pushed hok).stackSize⟩
        rw [(hout.pushed hok).operands, hpush, List.reverse_cons, List.map_append, List.append_assoc]
        rfl

/-- The register `r` after a case that ends with the mirrored `SP`. -/
theorem finish_mirrorSp (vm : FluxVm) {r : Fin 64} (hsp : r ≠ fluxRegSp) (hcycle : r ≠ fluxRegCycleCount) :
    (finish (none, vm.mirrorSp)).2.regs r = vm.regs r := by
  show (vm.mirrorSp.putReg fluxRegCycleCount _).regs r = _
  rw [putReg_of_ne _ hcycle, mirrorSp, putReg_of_ne _ hsp]

theorem finish_mirrorSp_sp (vm : FluxVm) :
    (finish (none, vm.mirrorSp)).2.regs fluxRegSp = vm.stackSize - vm.stackPtr := by
  show (vm.mirrorSp.putReg fluxRegCycleCount _).regs fluxRegSp = _
  rw [putReg_of_ne _ (by decide), mirrorSp, putReg_self]

theorem stackPop_outside (h : ¬ vm.stackPtr ≤ vm.stackSize) : ∃ fault, vm.stackPop = .error fault := by
  have hne : vm.stackPtr ≠ 0 := by
    intro h0
    rw [h0] at h
    exact h (UInt64.le_iff_toNat_le.2 (Nat.zero_le _))
  have hout : ¬ vm.stackPtr - 1 < vm.stackSize := by
    rw [UInt64.lt_iff_toNat_lt]
    rw [UInt64.le_iff_toNat_le] at h
    have := toNat_sub_one hne
    omega
  refine ⟨.stackWord (vm.stackPtr - 1).toNat, ?_⟩
  rw [stackPop, if_neg hne, stackAt, if_neg hout]
  rfl

theorem popCase_outcome {put : FluxVm → UInt64 → Except Fault FluxVm} {P : List UInt64 → FluxVm → Prop} {E : Prop}
    (hput : ∀ vm val, Ensures (fun _ => E) (fun vm' => KeepsStack vm vm' ∧ P [val] (finish (none, vm'.mirrorSp)).2)
      (put vm val)) :
    Ensures (fun _ => E ∨ ¬ vm.stackPtr ≤ vm.stackSize) (fun r => PopOutcome vm 1 P (finish r))
      (vm.popCase put) := by
  by_cases hempty : vm.stackPtr = 0
  · rw [popCase, stackPop, if_pos hempty]
    refine ⟨fun hfits => ?_, by simp [finish]⟩
    rw [length_operands, hempty] at hfits
    exact absurd hfits (by decide)
  · by_cases hle : vm.stackPtr ≤ vm.stackSize
    · rw [popCase, stackPop_eq hempty hle]
      refine ((hput vm.popped vm.top).mono (fun _ => .inl) fun _ h => h).bind fun vm' h => ?_
      obtain ⟨hkeeps, hP⟩ := h
      refine ⟨fun _ => rfl, fun _ => ⟨[vm.top], rfl, ⟨?_, hkeeps.stackSize, finish_mirrorSp_sp vm'⟩, hP⟩⟩
      rw [operands_popped hempty]
      exact congrArg _ (operands_of_keeps hkeeps).symm
    · obtain ⟨fault, hfault⟩ := stackPop_outside hle
      rw [popCase, hfault]
      exact .inr hle

/-- `r` has the value that belongs to it among the words loaded by `POPA`. -/
def LoadsAll (rs : List (Fin 64)) (ws : List UInt64) (vm : FluxVm) : Prop :=
  ∀ saved : Fin 64 → UInt64, ws = rs.map saved → ∀ r ∈ rs, r ≠ fluxRegSp → r ≠ fluxRegCycleCount →
    vm.regs r = saved r

theorem popRegs_outcome (rs : List (Fin 64)) :
    Ensures (fun _ => ¬ vm.stackPtr ≤ vm.stackSize)
      (fun r => PopOutcome vm rs.length (fun ws vm' => LoadsAll rs ws vm' ∧ ∀ r, r ∉ rs → r ≠ fluxRegSp →
        r ≠ fluxRegCycleCount → vm'.regs r = vm.regs r) (finish r)) (popRegs rs vm) := by
  induction rs generalizing vm with
  | nil =>
    refine ⟨fun _ => rfl, fun _ => ⟨[], rfl, ⟨rfl, rfl, finish_mirrorSp_sp vm⟩, ?_, ?_⟩⟩
    · intro _ _ r hr
      cases hr
    · intro r _ hsp hcycle
      exact finish_mirrorSp vm hsp hcycle
  | cons r rs ih =>
    by_cases hempty : vm.stackPtr = 0
    · rw [popRegs, stackPop, if_pos hempty]
      refine ⟨fun hfits => ?_, by simp [finish]⟩
      rw [length_operands, hempty] at hfits
      cases hfits
    · by_cases hle : vm.stackPtr ≤ vm.stackSize
      · have hpop := operands_popped hempty
        rw [popRegs, stackPop_eq hempty hle]
        have hbelow : (vm.popped.putReg r vm.top).stackPtr ≤ (vm.popped.putReg r vm.top).stackSize :=
          sub_le_of_le 1 (one_le_of_ne_zero hempty) hle
        refine (@ih (vm.popped.putReg r vm.top)).mono (fun _ h => absurd hbelow h) fun out hout =>
          ⟨fun hfits => hout.fits ?_, fun hok => ?_⟩
        · rw [hpop] at hfits
          exact Nat.le_of_succ_le_succ hfits
        · obtain ⟨ws, hws, hpopped, hloads, hothers⟩ := hout.popped hok
          refine ⟨vm.top :: ws, congrArg Nat.succ hws, ⟨?_, hpopped.stackSize, hpopped.mirrors⟩, ?_, ?_⟩
          · rw [hpop]
            exact congrArg _ hpopped.operands
          · intro saved hsaved q hq hsp hcycle
            obtain ⟨htop, hrest⟩ := List.cons.inj hsaved
            by_cases hmem : q ∈ rs
            · exact hloads saved hrest q hmem hsp hcycle
            · obtain rfl : q = r := (List.mem_cons.1 hq).resolve_right hmem
              rw [hothers q hmem hsp hcycle, putReg_self, htop]
          · intro q hq hsp hcycle
            rw [List.mem_cons, not_or] at hq
            rw [hothers q hq.2 hsp hcycle, putReg_of_ne _ hq.1]
            rfl
      · obtain ⟨fault, hfault⟩ := stackPop_outside hle
        rw [popRegs, hfault]
        exact hle

/-! ## What the steps do with the stack -/

/-- The opcodes of a pair. -/
def pairOps : PairKind → StackOp × StackOp
  | .PUSH => (.PUSH, .POP)
  | .PUSHF => (.PUSHF, .POPF)
  | .PUSHA => (.PUSHA, .POPA)

theorem opcode_of_enter {k : PairKind} (h : stackMark i = some (.enter k)) :
    opcodeOf i.opcode = .stack (pairOps k).1 := by
  unfold stackMark at h
  split at h
  all_goals
    cases h
    try assumption

theorem opcode_of_leave {k : PairKind} (h : stackMark i = some (.leave k)) :
    opcodeOf i.opcode = .stack (pairOps k).2 := by
  unfold stackMark at h
  split at h
  all_goals
    cases h
    try assumption

theorem opcode_of_inner (h : stackMark i = some .inner) :
    (∃ op, opcodeOf i.opcode = .arith op) ∨ ∃ op, opcodeOf i.opcode = .logic op := by
  unfold stackMark at h
  split at h
  case h_7 op hop => exact .inl ⟨op, hop⟩
  case h_8 op hop => exact .inr ⟨op, hop⟩
  all_goals cases h

/-- The words that the first instruction of a pair saves. -/
def savedWords (k : PairKind) (i : FluxVmInsn) (vm : FluxVm) : List UInt64 :=
  match k with
  | .PUSH => [vm.regValue i.rd]
  | .PUSHF => [vm.regs fluxRegFlags]
  | .PUSHA => generalRegs.reverse.map vm.regs

/-- The registers that the last instruction of a pair loads have the values of these words. -/
def LoadsWords (k : PairKind) (j : FluxVmInsn) (ws : List UInt64) (vm : FluxVm) : Prop :=
  match k with
  | .PUSH => j.rd ≠ 0 → j.rd ≠ 2 → j.rd ≠ 57 → ws = [vm.regValue j.rd]
  | .PUSHF => ws = [vm.regs fluxRegFlags]
  | .PUSHA => LoadsAll generalRegs.reverse ws vm

theorem length_savedWords (k : PairKind) (i : FluxVmInsn) (vm : FluxVm) : (savedWords k i vm).length = k.words := by
  cases k
  all_goals rfl

theorem restoredBy_of_loads {k : PairKind} {i j : FluxVmInsn} {a d : FluxVm}
    (h : LoadsWords k j (savedWords k i a) d) : RestoredBy k i j a d := by
  cases k with
  | PUSH =>
    intro h0 hsp hcycle
    exact (List.cons.inj (h h0 hsp hcycle)).1.symm
  | PUSHF => exact (List.cons.inj h).1.symm
  | PUSHA =>
    intro r hr hsp
    refine h a.regs rfl r (List.mem_reverse.2 hr) hsp ?_
    rintro rfl
    revert hr
    decide

theorem execute_enter {k : PairKind} (h : stackMark i = some (.enter k)) :
    Ensures (fun _ => ¬ i.InFile) (fun r => PushOutcome vm (savedWords k i vm) (finish r))
      (vm.execute host i v1 v2) := by
  rw [execute, opcode_of_enter h]
  cases k with
  | PUSH =>
    show Ensures _ _ (vm.fluxVmGetReg i.rd >>= vm.pushCase)
    by_cases hrd : i.rd.toNat < 64
    · rw [fluxVmGetReg_of_lt hrd]
      exact (pushCase_outcome _).mono (fun _ h => h.elim) fun _ h => h
    · rw [fluxVmGetReg_of_not_lt hrd]
      exact fun hfile => hrd hfile.rd
  | PUSHF => exact (pushCase_outcome _).mono (fun _ h => h.elim) fun _ h => h
  | PUSHA => exact (pushRegs_outcome generalRegs).mono (fun _ h => h.elim) fun _ h => h

theorem regIndex_ne {r q : UInt8} (hr : r.toNat < 64) (hq : q.toNat < 64) (h : r ≠ q) :
    (⟨r.toNat, hr⟩ : Fin 64) ≠ ⟨q.toNat, hq⟩ := by
  intro heq
  exact h (UInt8.toNat_inj.1 (Fin.mk.inj heq))

/-- The register that `POP` loads has the word at the end of the step. -/
theorem setReg_loads {j : FluxVmInsn} :
    Ensures (fun _ => ¬ j.InFile)
      (fun vm' => KeepsStack vm vm' ∧ LoadsWords .PUSH j [val] (finish (none, vm'.mirrorSp)).2)
      (vm.fluxVmSetReg j.rd val) := by
  unfold fluxVmSetReg
  split_ifs with h0 hrd
  · exact ⟨⟨rfl, rfl, rfl⟩, fun hne => absurd h0 hne⟩
  · refine ⟨⟨rfl, rfl, rfl⟩, fun _ hsp hcycle => ?_⟩
    have hsp' : (⟨j.rd.toNat, hrd⟩ : Fin 64) ≠ fluxRegSp := regIndex_ne hrd (by decide) hsp
    have hcycle' : (⟨j.rd.toNat, hrd⟩ : Fin 64) ≠ fluxRegCycleCount := regIndex_ne hrd (by decide) hcycle
    rw [regValue, dif_pos hrd, if_neg h0, finish_mirrorSp _ hsp' hcycle', putReg_self]
  · exact fun hfile => hrd hfile.rd

theorem execute_leave {k : PairKind} {j : FluxVmInsn} (h : stackMark j = some (.leave k)) :
    Ensures (fun _ => ¬ j.InFile ∨ ¬ vm.stackPtr ≤ vm.stackSize)
      (fun r => PopOutcome vm k.words (LoadsWords k j) (finish r)) (vm.execute host j v1 v2) := by
  rw [execute, opcode_of_leave h]
  cases k with
  | PUSH => exact popCase_outcome fun vm val => setReg_loads
  | PUSHF =>
    refine @popCase_outcome vm (fun vm val => .ok (vm.putReg fluxRegFlags val)) _ _
      fun vm val => ⟨⟨rfl, rfl, rfl⟩, ?_⟩
    show [val] = [(finish (none, (vm.putReg fluxRegFlags val).mirrorSp)).2.regs fluxRegFlags]
    rw [finish_mirrorSp _ (by decide) (by decide), putReg_self]
  | PUSHA =>
    refine (popRegs_outcome generalRegs.reverse).mono (fun _ => .inr) fun r hout => ⟨hout.fits, fun hok => ?_⟩
    obtain ⟨ws, hws, hpopped, hloads, -⟩ := hout.popped hok
    exact ⟨ws, hws, hpopped, hloads⟩

/-! ## Runs -/

theorem insnStep_eq_some (h : insnStep host i vm = some vm') :
    vm.nextInsn = some i ∧ vm.fluxVmStep host = .ok (.ok, vm') := by
  unfold insnStep at h
  split at h
  · refine ⟨‹_›, ?_⟩
    split at h
    · cases h
      assumption
    · cases h
  · cases h

/-- The faults of a step of the sequence: in the trace snapshot, or else an operand or the stack pointer is out of
bounds. -/
def StepFault (i : FluxVmInsn) (inside : Prop) (fault : Fault) : Prop :=
  (∃ k, fault = .traceEntry k) ∨ ¬ i.InFile ∨ ¬ inside

/-- The step of an instruction whose case is known. -/
theorem step_ensures {inside : Prop} {Q : FluxStatus × FluxVm → Prop} (hi : vm.nextInsn = some i)
    (hexec : ∀ vm₁, vm.Dispatches i vm₁ → Ensures (fun _ => ¬ i.InFile ∨ ¬ inside) (fun r => Q (finish r))
      (vm₁.execute host i (vm.regValue i.rs1) (vm.regValue i.rs2))) :
    Ensures (StepFault i inside) Q (vm.fluxVmStep host) := by
  have hnext {j : FluxVmInsn} (hj : vm.nextInsn = some j) : j = i := Option.some.inj (hj.symm.trans hi)
  refine fluxVmStep_ensures (fun r hr => ?_) (fun fault hstop hfault => ?_) (fun j hj r hr h64 => ?_)
    (fun k => .inl ⟨k, rfl⟩) fun j vm₁ hj hvm₁ => ?_
  · rw [stopped?_of_nextInsn hi] at hr
    cases hr
  · simp [nextInsn, hstop, hfault] at hi
  · obtain rfl := hnext hj
    refine .inr (.inl fun hfile => ?_)
    obtain rfl | rfl := hr
    · exact absurd hfile.rs1 (Nat.not_lt.2 h64)
    · exact absurd hfile.rs2 (Nat.not_lt.2 h64)
  · obtain rfl := hnext hj
    exact (hexec vm₁ hvm₁).mono (fun _ => .inr) fun _ h => h

theorem enter_outcome {k : PairKind} (hi : vm.nextInsn = some i) (h : stackMark i = some (.enter k)) :
    Ensures (StepFault i True) (fun r => PushOutcome vm (savedWords k i vm) r) (vm.fluxVmStep host) := by
  refine step_ensures hi fun vm₁ hvm₁ => ?_
  obtain ⟨trace, traceIdx, rfl⟩ := hvm₁.eq
  refine (execute_enter h).mono (fun _ => .inl) fun r hout => ⟨hout.fits, fun hok => ?_⟩
  have hsaved := (hout.pushed hok).operands
  exact ⟨hsaved, (hout.pushed hok).stackSize⟩

theorem leave_outcome {k : PairKind} (hi : vm.nextInsn = some i) (h : stackMark i = some (.leave k)) :
    Ensures (StepFault i (vm.stackPtr ≤ vm.stackSize)) (fun r => PopOutcome vm k.words (LoadsWords k i) r)
      (vm.fluxVmStep host) := by
  refine step_ensures hi fun vm₁ hvm₁ => ?_
  obtain ⟨trace, traceIdx, rfl⟩ := hvm₁.eq
  refine (execute_leave h).imp fun r hout => ⟨hout.fits, fun hok => ?_⟩
  obtain ⟨ws, hws, hpopped, hloads⟩ := hout.popped hok
  exact ⟨ws, hws, ⟨hpopped.operands, hpopped.stackSize, hpopped.mirrors⟩, hloads⟩

/-- Arithmetic and logic leave the stack alone. -/
theorem inner_outcome (hi : vm.nextInsn = some i) (h : stackMark i = some .inner) :
    Ensures (fun _ => True) (fun r => KeepsStack vm r.2) (vm.fluxVmStep host) := by
  refine fluxVmStep_executes hi fun vm₁ hvm₁ => ?_
  have cpu {x : Exec} (hx : Ensures (fun _ => True) (fun r => CpuEffect vm₁ r.2) x) :
      Ensures (fun _ => True) (fun r => KeepsStack vm (finish r).2) x := by
    obtain ⟨trace, traceIdx, rfl⟩ := hvm₁.eq
    refine hx.imp fun r he => ?_
    rcases r with ⟨_ | rc, vm₂⟩
    · exact ⟨he.stack, he.stackSize, he.stackPtr⟩
    · exact ⟨he.stack, he.stackSize, he.stackPtr⟩
  rw [execute]
  obtain ⟨op, hop⟩ | ⟨op, hop⟩ := opcode_of_inner h
  · rw [hop]
    exact cpu (execArith_effect op)
  · rw [hop]
    exact cpu (execLogic_effect op)

/-- The interpreter keeps what the pairs save on the operand stack. -/
theorem stacked (host : Host) : Stacked (insnStep host) stackMark PairKind.words operands where
  inner i vm vm' hm h := by
    obtain ⟨hi, hstep⟩ := insnStep_eq_some h
    exact operands_of_keeps ((inner_outcome hi hm).of_ok hstep)
  enter i k vm vm' hm h := by
    obtain ⟨hi, hstep⟩ := insnStep_eq_some h
    exact ⟨_, length_savedWords k i vm, (((enter_outcome hi hm).of_ok hstep).pushed rfl).operands⟩
  leave i k vm vm' hm h := by
    obtain ⟨hi, hstep⟩ := insnStep_eq_some h
    obtain ⟨ws, hws, hpopped, -⟩ := ((leave_outcome hi hm).of_ok hstep).popped rfl
    exact ⟨ws, hws, hpopped.operands⟩

theorem stackSize_of_execute {is : List FluxVmInsn} (h : Actions.execute (insnStep host) is vm = some vm') :
    vm'.stackSize = vm.stackSize := by
  refine (Actions.reaches_of_execute h).invariant (I := fun t => t.stackSize = vm.stackSize) ?_ rfl
  intro i s t _ hs hstep
  exact (fluxVmStep_stackSize (insnStep_eq_some hstep).2).trans hs

/-- What a pair restores around a balanced body. -/
theorem pair_restores {k : PairKind} {i j : FluxVmInsn} {body : List FluxVmInsn} {a b c d : FluxVm}
    (hi : stackMark i = some (.enter k)) (hbody : Balanced stackMark body) (hj : stackMark j = some (.leave k))
    (hpush : insnStep host i a = some b) (hrun : Actions.execute (insnStep host) body b = some c)
    (hpop : insnStep host j c = some d) : RestoredBy k i j a d := by
  obtain ⟨hnext, hstep⟩ := insnStep_eq_some hpush
  obtain ⟨hnext', hstep'⟩ := insnStep_eq_some hpop
  have hsaved := (((enter_outcome hnext hi).of_ok hstep).pushed rfl).operands
  obtain ⟨ws, hws, hpopped, hloads⟩ := ((leave_outcome hnext' hj).of_ok hstep').popped rfl
  have hsame : ws ++ d.operands = savedWords k i a ++ a.operands := by
    rw [← hpopped.operands, hbody.view_eq (stacked host) hrun, hsaved]
  obtain ⟨rfl, -⟩ := List.append_inj hsame (hws.trans (length_savedWords k i a).symm)
  exact restoredBy_of_loads hloads

/-- Where there is room for the words it saves, the first instruction of a pair completes. -/
theorem enter_completes {k : PairKind} (hi : vm.nextInsn = some i) (hfile : i.InFile)
    (hm : stackMark i = some (.enter k)) (hroom : vm.operands.length + k.words ≤ vm.stackSize.toNat) :
    Ensures (fun fault => ∃ k, fault = .traceEntry k) (fun r => r.1 = .ok) (vm.fluxVmStep host) := by
  refine (enter_outcome hi hm).mono ?_ fun r hout => ?_
  · rintro fault (htrace | hout | hfalse)
    · exact htrace
    · exact absurd hfile hout
    · exact absurd trivial hfalse
  · apply hout.fits
    rwa [length_savedWords]

/-- Where the stack is in bounds and has the words, the last instruction of a pair completes. -/
theorem leave_completes {k : PairKind} (hi : vm.nextInsn = some i) (hfile : i.InFile)
    (hm : stackMark i = some (.leave k)) (hwords : k.words ≤ vm.operands.length)
    (hinside : vm.operands.length ≤ vm.stackSize.toNat) :
    Ensures (fun fault => ∃ k, fault = .traceEntry k) (fun r => r.1 = .ok) (vm.fluxVmStep host) := by
  refine (leave_outcome hi hm).mono ?_ fun r hout => hout.fits hwords
  rintro fault (htrace | hout | hout)
  · exact htrace
  · exact absurd hfile hout
  · rw [length_operands] at hinside
    exact absurd (UInt64.le_iff_toNat_le.2 hinside) hout

/-- Pairs with arithmetic and logic in between restore the registers, the stack pointer and `SP`. -/
theorem stack_discipline (host : Host) (vm : FluxVm) (is : List FluxVmInsn) (his : Balanced stackMark is)
    (hfile : ∀ i ∈ is, i.InFile)
    (hroom : RoomFor stackMark PairKind.words vm.stackSize.toNat vm.stackPtr.toNat is) :
    StackDisciplined host vm is where
  completes pre i post a m heq hrun hi hm hinner := by
    have hi_file : i.InFile := hfile i (by simp [heq])
    have hsize := stackSize_of_execute hrun
    rw [← length_operands] at hroom
    cases m with
    | inner => exact absurd rfl hinner
    | enter k =>
      rw [heq] at hroom
      apply enter_completes hi hi_file hm
      rw [hsize]
      exact hroom.enter (stacked host) hrun hm
    | leave k =>
      -- the words are those that the matching instruction pushed
      obtain ⟨pre', i', body, rfl, hm', hbody⟩ := his.exists_enter heq hm
      obtain ⟨s, hpre, hrest⟩ := Actions.execute_append.1 hrun
      obtain ⟨t, hpush, hrunBody⟩ := Actions.execute_cons.1 hrest
      obtain ⟨ws, hws, hpushed⟩ := (stacked host).enter _ _ _ _ hm' hpush
      rw [heq, List.append_assoc] at hroom
      have hfits := hroom.enter (stacked host) hpre hm'
      have hlength : a.operands.length = s.operands.length + k.words := by
        rw [hbody.view_eq (stacked host) hrunBody, hpushed, List.length_append, hws, Nat.add_comm]
      apply leave_completes hi hi_file hm
      · omega
      · rw [hsize]
        omega
  restores pre k i body j post a b c d _ hi hbody hj _ hpush hrun hpop := pair_restores hi hbody hj hpush hrun hpop
  stackPtr vm' hrun := by
    have hlen := congrArg List.length (his.view_eq (stacked host) hrun)
    rw [length_operands, length_operands] at hlen
    exact UInt64.toNat_inj.1 hlen
  sp pre k j vm' heq hj hrun := by
    rw [heq] at hrun
    obtain ⟨c, _, hlast⟩ := Actions.execute_append.1 hrun
    obtain ⟨d, hpop, hnil⟩ := Actions.execute_cons.1 hlast
    cases hnil
    obtain ⟨hi, hstep⟩ := insnStep_eq_some hpop
    obtain ⟨ws, hws, hpopped, -⟩ := ((leave_outcome hi hj).of_ok hstep).popped rfl
    exact hpopped.mirrors

/-- `PUSH R1; PUSHA; INC R1; POPA; PUSHF; POPF; POP R4`. -/
def nestedPairs : List FluxVmInsn :=
  [0x60010000, 0x67000000, 0x17010000, 0x68000000, 0x69000000, 0x6A000000, 0x61040000].map decodeInsn

theorem stack_discipline_nestedPairs : StackDisciplined plentifulHost (boot []) nestedPairs := by
  have hpairs : Balanced stackMark nestedPairs := by
    apply @Balanced.pair _ _ _ .PUSH _ _ ((nestedPairs.drop 1).take 5) [] rfl ?_ rfl .nil
    apply @Balanced.pair _ _ _ .PUSHA _ _ [decodeInsn 0x17010000] _ rfl (.inner rfl .nil) rfl
    exact @Balanced.pair _ _ _ .PUSHF _ _ [] _ rfl .nil rfl .nil
  have hfile : ∀ i ∈ nestedPairs, i.rd.toNat < 64 ∧ i.rs1.toNat < 64 ∧ i.rs2.toNat < 64 := by decide
  refine stack_discipline _ _ _ hpairs (fun i hi => ?_) ?_
  · obtain ⟨hrd, hrs1, hrs2⟩ := hfile i hi
    exact ⟨hrd, hrs1, hrs2⟩
  · refine ⟨by decide, ⟨by decide, ?_⟩⟩
    exact ⟨by decide, trivial⟩

/-- `PUSH R1; POP R57`. -/
def popCycleCount : List UInt8 := [0x60, 1, 0, 0, 0x61, 57, 0, 0]

theorem popCycleCount_not_restored :
    ∃ i j d, Loaded plentifulHost (boot popCycleCount) ∧ Balanced stackMark [i, j] ∧ i.InFile ∧ j.InFile ∧
      RoomFor stackMark PairKind.words (boot popCycleCount).stackSize.toNat
        (boot popCycleCount).stackPtr.toNat [i, j] ∧
      Actions.execute (insnStep plentifulHost) [i, j] (boot popCycleCount) = some d ∧
      stackMark j = some (.leave .PUSH) ∧ j.rd ≠ 0 ∧ j.rd ≠ 2 ∧
        d.regValue j.rd ≠ (boot popCycleCount).regValue i.rd := by
  refine ⟨decodeInsn 0x60010000, decodeInsn 0x61390000, bootSteps popCycleCount 2, boot_loaded _ (by decide), ?_,
    ⟨by decide, by decide, by decide⟩, ⟨by decide, by decide, by decide⟩, ⟨by decide, trivial⟩, rfl, rfl, by decide,
    by decide, by decide⟩
  exact @Balanced.pair _ _ _ .PUSH _ _ [] _ rfl .nil rfl .nil

end FluxVm

end FluxOs
