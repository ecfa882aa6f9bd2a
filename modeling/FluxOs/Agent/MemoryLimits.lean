import FluxOs.Agent.SandboxRules
import FluxOs.Vm.RegionSizes

/-!
# Memory limits

The sandbox compares the total size of the regions of an agent with its limit before a step, and not after it.  So
the limit is kept when a call returns unless the last instruction of the call has created a region.
-/

namespace FluxOs

open Actions AgentRuntime FluxVm

/-! ## The limit -/

namespace SandboxEvent

/-- The VM step creates a region that brings the total size over a limit. -/
def Overfills (host : Host) (maxMemory : UInt64) : SandboxEvent → Prop
  | .vmStep vm _ _ => maxMemory ≠ 0 ∧ 0 < vm.nextCreated host ∧
      maxMemory.toNat < vm.regionTotal + vm.nextCreated host
  | .violation .. => False

/-- The regions that the host has given the VM fit in its address space. -/
def Fits : SandboxEvent → Prop
  | .vmStep _ _ (.ok (_, vm)) => vm.regionTotal < UInt64.size
  | _ => True

instance : DecidablePred Fits
  | .vmStep _ _ (.ok (_, vm)) => inferInstanceAs (Decidable (vm.regionTotal < UInt64.size))
  | .vmStep _ _ (.error _) => .isTrue trivial
  | .violation .. => .isTrue trivial

instance {host : Host} {maxMemory : UInt64} : DecidablePred (Overfills host maxMemory)
  | .vmStep vm _ _ => inferInstanceAs (Decidable (maxMemory ≠ 0 ∧ 0 < vm.nextCreated host ∧
      maxMemory.toNat < vm.regionTotal + vm.nextCreated host))
  | .violation .. => .isFalse id

/-- The last event is a VM step that brings the total size over a limit. -/
def EndsOverfull (host : Host) (maxMemory : UInt64) (es : List SandboxEvent) : Prop :=
  ∃ e ∈ es.getLast?, e.Overfills host maxMemory

variable {host : Host} {maxMemory : UInt64} {e : SandboxEvent}

theorem not_endsOverfull_nil : ¬ EndsOverfull host maxMemory [] := by
  rintro ⟨e, he, -⟩
  cases he

theorem endsOverfull_append (es : List SandboxEvent) :
    EndsOverfull host maxMemory (es ++ [e]) ↔ e.Overfills host maxMemory := by
  simp [EndsOverfull]

end SandboxEvent

namespace AgentSlot

open SandboxEvent

variable {slot slot' : AgentSlot} {host : Host} {now : UInt64} {r : Except Fault FluxStatus × AgentSlot}

/-- The regions of the agent are larger than its limit. -/
def Overfull (slot : AgentSlot) : Prop :=
  slot.Measures ∧ slot.desc.limits.maxMemory.toNat < slot.vm.regionTotal

instance : DecidablePred Overfull := fun slot =>
  inferInstanceAs (Decidable (slot.Measures ∧ slot.desc.limits.maxMemory.toNat < slot.vm.regionTotal))

/-- The agent has ended, or its regions are not larger than its limit. -/
def KeepsMemory (slot : AgentSlot) : Prop :=
  slot.desc.state ≠ .failed → slot.desc.state ≠ .terminated → ¬ slot.Overfull

instance : DecidablePred KeepsMemory := fun slot =>
  inferInstanceAs (Decidable (_ → _ → ¬ slot.Overfull))

/-- The sum of the sandbox is the total size, unless it wraps around. -/
theorem toNat_activeRegionSize (h : slot.vm.regionTotal < UInt64.size) :
    slot.activeRegionSize.toNat = slot.vm.regionTotal := by
  have hword : UInt64.size = 2 ^ 64 := rfl
  have hsum (l : List (Fin 16)) (total : UInt64)
      (hl : total.toNat + (l.map fun s => (slot.vm.regions s).activeSize).sum < UInt64.size) :
      (l.foldl (fun total s => if (slot.vm.regions s).active then total + (slot.vm.regions s).size else total)
        total).toNat = total.toNat + (l.map fun s => (slot.vm.regions s).activeSize).sum := by
    induction l generalizing total with
    | nil => rfl
    | cons s l ih =>
      rw [List.map_cons, List.sum_cons, FluxVmRegion.activeSize] at hl ⊢
      rw [List.foldl_cons]
      split_ifs at hl ⊢
      · have hadd : (total + (slot.vm.regions s).size).toNat =
            total.toNat + (slot.vm.regions s).size.toNat := by
          rw [UInt64.toNat_add]
          exact Nat.mod_eq_of_lt (by omega)
        rw [ih _ (by omega), hadd]
        omega
      · rw [ih _ (by omega)]
        omega
  have htotal : slot.vm.regionTotal = ((List.finRange 16).map fun s => (slot.vm.regions s).activeSize).sum :=
    Fin.sum_univ_def _
  rw [htotal] at h ⊢
  have h0 : (0 : UInt64).toNat = 0 := rfl
  have hfold := hsum (List.finRange 16) 0 (by omega)
  rw [h0, Nat.zero_add] at hfold
  exact hfold

theorem memoryExceeded_iff (h : slot.vm.regionTotal < UInt64.size) : slot.MemoryExceeded ↔ slot.Overfull := by
  rw [MemoryExceeded, Overfull, UInt64.lt_iff_toNat_lt, toNat_activeRegionSize h]

/-! ## One call -/

/-- The slot has the log of an earlier one and further events.  If the regions fit in the address space, then `P`
holds of the slot exactly if the last of the events overfills the regions, and without an event the regions were
not too large. -/
def MemoryTracked (host : Host) (slot : AgentSlot) (P : AgentSlot → Prop) (slot' : AgentSlot) : Prop :=
  ∃ es, slot'.log = slot.log ++ es ∧ slot'.vmInitialized = slot.vmInitialized ∧
    slot'.desc.limits.maxMemory = slot.desc.limits.maxMemory ∧
    (slot.vm.regionTotal < UInt64.size → (∀ e ∈ es, e.Fits) → slot'.vm.regionTotal < UInt64.size ∧
      (P slot' ↔ EndsOverfull host slot.desc.limits.maxMemory es) ∧ (es = [] → ¬ slot.Overfull))

/-- The agent has not ended, and its regions are larger than its limit. -/
def BreaksLimit (slot : AgentSlot) : Prop := ¬ slot.KeepsMemory

theorem breaksLimit_iff (hfailed : slot.desc.state ≠ .failed) (hterminated : slot.desc.state ≠ .terminated) :
    slot.BreaksLimit ↔ slot.Overfull := by
  simp [BreaksLimit, KeepsMemory, hfailed, hterminated]

theorem not_breaksLimit_of_ended (h : slot.desc.state = .failed ∨ slot.desc.state = .terminated) :
    ¬ slot.BreaksLimit := by
  rw [BreaksLimit, not_not]
  intro hfailed hterminated
  exact absurd h (not_or.2 ⟨hfailed, hterminated⟩)

/-- A VM step from below the limit gets over it exactly if it overfills the regions. -/
theorem VmStepped.overfull_iff {status : FluxStatus} {vm : FluxVm} (h : VmStepped host slot vm slot')
    (hstep : slot.vm.fluxVmStep host = .ok (status, vm)) (hvm : slot.vmInitialized = true)
    (hslot : ¬ slot.Overfull) :
    (slot'.Overfull ↔ (slot.vmStepEvent host).Overfills host slot.desc.limits.maxMemory) ∧
      ((slot.vmStepEvent host).Overfills host slot.desc.limits.maxMemory → status = .ok) := by
  have hregions := fluxVmStep_regionTotal slot.vm host
  rw [hstep] at hregions
  have hcreates : 0 < slot.vm.nextCreated host →
      status = .ok ∧ vm.regionTotal = slot.vm.regionTotal + slot.vm.nextCreated host := hregions.1
  have hkeeps : slot.vm.nextCreated host = 0 → vm.regionTotal ≤ slot.vm.regionTotal := hregions.2
  obtain ⟨state, hstate⟩ := h.vm
  have htotal : slot'.vm.regionTotal = vm.regionTotal := by
    rw [hstate]
    exact regionTotal_of_regions rfl
  have hmeasures : slot'.Measures ↔ slot.desc.limits.maxMemory ≠ 0 := by
    rw [Measures, h.maxMemory, h.vmInitialized, hvm]
    simp
  have hbelow (hmax : slot.desc.limits.maxMemory ≠ 0) :
      slot.vm.regionTotal ≤ slot.desc.limits.maxMemory.toNat :=
    Nat.le_of_not_lt fun hlt => hslot ⟨⟨hmax, hvm⟩, hlt⟩
  refine ⟨?_, fun hover => (hcreates hover.2.1).1⟩
  rw [Overfull, hmeasures, htotal, h.maxMemory]
  constructor
  · rintro ⟨hmax, hlt⟩
    have hle := hbelow hmax
    by_cases hzero : slot.vm.nextCreated host = 0
    · have := hkeeps hzero
      omega
    · have hpos : 0 < slot.vm.nextCreated host := Nat.pos_of_ne_zero hzero
      have heq := (hcreates hpos).2
      exact ⟨hmax, hpos, by omega⟩
  · rintro ⟨hmax, hpos, hlt⟩
    have heq := (hcreates hpos).2
    exact ⟨hmax, by omega⟩

/-- What a VM step that returns does for an agent below its limit. -/
theorem VmStepped.tracked {status : FluxStatus} {vm : FluxVm} {P : AgentSlot → Prop}
    (h : VmStepped host slot vm slot') (hstep : slot.vm.fluxVmStep host = .ok (status, vm))
    (hP : ¬ slot.Overfull → (P slot' ↔ (slot.vmStepEvent host).Overfills host slot.desc.limits.maxMemory))
    (hslot : ¬ slot.MemoryExceeded) : MemoryTracked host slot P slot' := by
  refine ⟨[slot.vmStepEvent host], h.log, h.vmInitialized, h.maxMemory, fun htotal hfits => ⟨?_, ?_, ?_⟩⟩
  · obtain ⟨state, hstate⟩ := h.vm
    have hfit := hfits _ List.mem_cons_self
    rw [vmStepEvent, hstep] at hfit
    rw [hstate]
    exact (regionTotal_of_regions rfl).trans_lt hfit
  · rw [hP (mt (memoryExceeded_iff htotal).2 hslot)]
    exact (endsOverfull_append []).symm
  · intro hnil
    cases hnil

/-- What is tracked after more events. -/
theorem MemoryTracked.trans {slot'' : AgentSlot} {P : AgentSlot → Prop}
    (h : MemoryTracked host slot Overfull slot') (h' : MemoryTracked host slot' P slot'') :
    MemoryTracked host slot P slot'' := by
  obtain ⟨es, hlog, hvm, hmax, hes⟩ := h
  obtain ⟨es', hlog', hvm', hmax', hes'⟩ := h'
  refine ⟨es ++ es', by rw [hlog', hlog, List.append_assoc], hvm'.trans hvm, hmax'.trans hmax,
    fun htotal hfits => ?_⟩
  obtain ⟨hfits₁, hfits₂⟩ := List.forall_mem_append.1 hfits
  obtain ⟨htotal₁, hover, hnil⟩ := hes htotal hfits₁
  obtain ⟨htotal₂, hP, hnil'⟩ := hes' htotal₁ hfits₂
  refine ⟨htotal₂, ?_, fun happend => hnil (List.append_eq_nil_iff.1 happend).1⟩
  rw [hP, hmax]
  by_cases hempty : es' = []
  · subst hempty
    rw [List.append_nil, ← hover]
    exact iff_of_false not_endsOverfull_nil (hnil' rfl)
  · rw [EndsOverfull, EndsOverfull, List.getLast?_append_of_ne_nil _ hempty]

/-- A slot with the same regions, limits and log. -/
theorem memoryTracked_quiet {P : AgentSlot → Prop} (hlog : slot'.log = slot.log)
    (hvm : slot'.vmInitialized = slot.vmInitialized)
    (hmax : slot'.desc.limits.maxMemory = slot.desc.limits.maxMemory)
    (hregions : slot'.vm.regions = slot.vm.regions) (hP : ¬ slot.Overfull → ¬ P slot')
    (hslot : slot.vm.regionTotal < UInt64.size → ¬ slot.Overfull) : MemoryTracked host slot P slot' := by
  refine ⟨[], by rw [hlog, List.append_nil], hvm, hmax, fun htotal _ => ⟨?_, ?_, fun _ => hslot htotal⟩⟩
  · rw [regionTotal_of_regions hregions]
    exact htotal
  · exact iff_of_false (hP (hslot htotal)) not_endsOverfull_nil

/-- A violation makes the agent `FAILED`. -/
theorem memoryTracked_violation {code : UInt8} (hlog : slot'.log = slot.log)
    (hvm : slot'.vmInitialized = slot.vmInitialized)
    (hmax : slot'.desc.limits.maxMemory = slot.desc.limits.maxMemory)
    (hregions : slot'.vm.regions = slot.vm.regions) :
    MemoryTracked host slot BreaksLimit (slot'.sandboxHandleViolation code) := by
  have hkeep : KeepsAgent slot' (slot'.sandboxHandleViolation code) := keepsAgent_handleViolation
  have hsame : (slot'.sandboxHandleViolation code).vm.regions = slot'.vm.regions ∧
      (slot'.sandboxHandleViolation code).desc.limits.maxMemory = slot'.desc.limits.maxMemory := by
    unfold sandboxHandleViolation
    simp only
    split_ifs <;> exact ⟨rfl, rfl⟩
  refine ⟨_, by rw [log_sandboxHandleViolation, hlog], hkeep.vmInitialized.trans hvm, hsame.2.trans hmax,
    fun htotal _ => ⟨?_, ?_, fun hnil => by cases hnil⟩⟩
  · rw [regionTotal_of_regions (hsame.1.trans hregions)]
    exact htotal
  · refine iff_of_false (not_breaksLimit_of_ended (.inl state_sandboxHandleViolation)) ?_
    rw [← List.nil_append [_], endsOverfull_append]
    exact id

/-! ## Rounds -/

/-- A round that goes on is followed by `Overfull`, and one that ends by `BreaksLimit`. -/
def MemoryRound (host : Host) (slot : AgentSlot) (r : Except Fault FluxStatus × AgentSlot) : Prop :=
  (r.1 = .ok .ok → MemoryTracked host slot Overfull r.2) ∧
    ∀ status, r.1 = .ok status → MemoryTracked host slot BreaksLimit r.2

theorem memoryRound_fault {fault : Fault} (h : r.1 = .error fault) : MemoryRound host slot r := by
  refine ⟨fun hok => ?_, fun status hok => ?_⟩
  · rw [h] at hok
    cases hok
  · rw [h] at hok
    cases hok

theorem memoryRound_stepPlain (hvm : slot.vmInitialized = true) (hslot : ¬ slot.MemoryExceeded) :
    MemoryRound host slot (slot.stepPlain host now) := by
  cases hstep : slot.vm.fluxVmStep host with
  | error fault => exact memoryRound_fault (stepPlain_of_fault hstep)
  | ok p =>
    obtain ⟨status, vm⟩ := p
    obtain ⟨hresult, hstate, hstepped⟩ := stepPlain_of_ok now hstep
    have hover (hbelow : ¬ slot.Overfull) := hstepped.overfull_iff hstep hvm hbelow
    refine ⟨fun _ => hstepped.tracked hstep (fun hbelow => (hover hbelow).1) hslot,
      fun _ _ => hstepped.tracked hstep (fun hbelow => ?_) hslot⟩
    by_cases hstatus : status = .ok
    · subst hstatus
      rw [breaksLimit_iff (by simp [hstate, plainState]) (by simp [hstate, plainState])]
      exact (hover hbelow).1
    · refine iff_of_false (not_breaksLimit_of_ended ?_) fun h => hstatus ((hover hbelow).2 h)
      rw [hstate]
      cases status
      case ok => exact absurd rfl hstatus
      case errGeneral => exact .inr rfl
      all_goals exact .inl rfl

theorem memoryRound_stepA2a {opcode : UInt8} (hpeek : slot.vm.sandboxPeek = .ok (some opcode))
    (ha2a : isA2aOpcode opcode = true) (hvm : slot.vmInitialized = true) (hslot : ¬ slot.MemoryExceeded) :
    MemoryRound host slot (slot.stepA2a host) := by
  have heffect := fluxVmStep_a2a host hpeek ha2a
  cases hstep : slot.vm.fluxVmStep host with
  | error fault => exact memoryRound_fault (stepA2a_of_fault hstep)
  | ok p =>
    obtain ⟨status, vm⟩ := p
    refine ⟨fun hok => absurd hok stepA2a_ne_ok, fun _ _ => ?_⟩
    obtain ⟨hresult, hstate, hstepped⟩ := stepA2a_of_ok hstep
    rw [hstep] at heffect
    have hregions : vm.regionTotal = slot.vm.regionTotal := regionTotal_of_regions heffect.1.regions
    obtain ⟨state, hvmstate⟩ := hstepped.vm
    have hsame : (slot.stepA2a host).2.vm.regionTotal = slot.vm.regionTotal := by
      rw [hvmstate, ← hregions]
      exact regionTotal_of_regions rfl
    have hover : (slot.stepA2a host).2.Overfull ↔ slot.Overfull := by
      rw [Overfull, Measures, hsame, hstepped.vmInitialized, hstepped.maxMemory]
      exact Iff.rfl
    refine hstepped.tracked hstep (fun hbelow => ?_) hslot
    have hbelow' : ¬ (slot.stepA2a host).2.Overfull := mt hover.1 hbelow
    have hevent := (hstepped.overfull_iff hstep hvm hbelow).1
    exact iff_of_false (fun hbreaks => hbreaks fun _ _ => hbelow') (mt hevent.2 hbelow')

theorem memoryRound_of_quiet {status : FluxStatus} (hne : status ≠ .ok) (hlog : slot'.log = slot.log)
    (hvm : slot'.vmInitialized = slot.vmInitialized)
    (hmax : slot'.desc.limits.maxMemory = slot.desc.limits.maxMemory)
    (hregions : slot'.vm.regions = slot.vm.regions) (hP : ¬ slot.Overfull → ¬ slot'.BreaksLimit)
    (hslot : slot.vm.regionTotal < UInt64.size → ¬ slot.Overfull) : MemoryRound host slot (.ok status, slot') := by
  refine ⟨fun hok => absurd (Except.ok.inj hok) hne, fun _ _ => ?_⟩
  exact memoryTracked_quiet hlog hvm hmax hregions hP hslot

theorem memoryRound_violation {status : FluxStatus} {code : UInt8} (hne : status ≠ .ok)
    (hlog : slot'.log = slot.log) (hvm : slot'.vmInitialized = slot.vmInitialized)
    (hmax : slot'.desc.limits.maxMemory = slot.desc.limits.maxMemory)
    (hregions : slot'.vm.regions = slot.vm.regions) :
    MemoryRound host slot (.ok status, slot'.sandboxHandleViolation code) := by
  refine ⟨fun hok => absurd (Except.ok.inj hok) hne, fun _ _ => ?_⟩
  exact memoryTracked_violation hlog hvm hmax hregions

theorem Checked.memoryRound (h : Checked host now slot r) (hvm : slot.vmInitialized = true)
    (hslot : ¬ slot.MemoryExceeded) : MemoryRound host slot r := by
  have hbelow (htotal : slot.vm.regionTotal < UInt64.size) : ¬ slot.Overfull :=
    mt (memoryExceeded_iff htotal).2 hslot
  cases h with
  | halted =>
    exact memoryRound_of_quiet (by simp) rfl rfl rfl rfl (fun _ => not_breaksLimit_of_ended (.inr rfl)) hbelow
  | refused =>
    exact memoryRound_of_quiet (by simp) rfl rfl rfl rfl
      (fun hnot hbreaks => hbreaks fun _ _ => hnot) hbelow
  | denied => exact memoryRound_violation (by simp) rfl rfl rfl rfl
  | io =>
    have haccount : MemoryRound host slot.sandboxAccountIo (slot.sandboxAccountIo.stepPlain host now) :=
      memoryRound_stepPlain hvm hslot
    exact haccount
  | a2a opcode _ hpeek ha2a => exact memoryRound_stepA2a hpeek ha2a hvm hslot
  | plain => exact memoryRound_stepPlain hvm hslot

theorem Rounds.memoryRound (h : Rounds host now slot r) : MemoryRound host slot r := by
  cases h with
  | cpu => exact memoryRound_violation (by simp) rfl rfl rfl rfl
  | memory =>
    exact memoryRound_violation (by simp) (measured_keeps log (fun _ _ => rfl) slot)
      (measured_keeps vmInitialized (fun _ _ => rfl) slot)
      (measured_keeps (fun slot => slot.desc.limits.maxMemory) (fun _ _ => rfl) slot)
      (measured_keeps (fun slot => slot.vm.regions) (fun _ _ => rfl) slot)
  | noVm hvm =>
    have hbelow : ¬ slot.Overfull := fun h => by
      rw [h.1.2] at hvm
      cases hvm
    exact memoryRound_of_quiet (by simp) rfl rfl rfl rfl (fun hnot hbreaks => hbreaks fun _ _ => hnot)
      fun _ => hbelow
  | checked _ hvm _ hmem hchecked =>
    have hsame : MemoryRound host slot.measured r = MemoryRound host slot r :=
      measured_keeps (fun slot => MemoryRound host slot r) (fun _ _ => rfl) slot
    rw [← hsame]
    refine hchecked.memoryRound ?_ (mt memoryExceeded_measured.1 hmem)
    rw [measured_keeps vmInitialized (fun _ _ => rfl) slot]
    exact hvm

/-- The same regions, limits and log, and another property. -/
theorem MemoryTracked.congr {slot'' : AgentSlot} {P Q : AgentSlot → Prop} (h : MemoryTracked host slot P slot')
    (hlog : slot''.log = slot'.log) (hvm : slot''.vmInitialized = slot'.vmInitialized)
    (hmax : slot''.desc.limits.maxMemory = slot'.desc.limits.maxMemory)
    (hregions : slot''.vm.regions = slot'.vm.regions) (hQ : Q slot'' ↔ P slot') :
    MemoryTracked host slot Q slot'' := by
  obtain ⟨es, heq, hvm', hmax', hes⟩ := h
  refine ⟨es, hlog.trans heq, hvm.trans hvm', hmax.trans hmax', fun htotal hfits => ?_⟩
  rw [regionTotal_of_regions hregions, hQ]
  exact hes htotal hfits

/-- An agent that keeps its limit and may run is below the limit. -/
theorem not_overfull_of_keepsMemory (hkeeps : slot.KeepsMemory) (hmay : ¬ slot.MayNotRun) : ¬ slot.Overfull :=
  hkeeps (fun h => hmay (.inr (.inl h))) fun h => hmay (.inl h)

theorem run_memoryTracked {maxTicks : UInt32} {status : FluxStatus} (hslot : ¬ slot.Overfull)
    (h : slot.run host now maxTicks = some (.ok status, slot')) : MemoryTracked host slot BreaksLimit slot' := by
  have hstart : MemoryTracked host slot Overfull (slot.startRun now) := by
    have hsame : (slot.startRun now).vmInitialized = slot.vmInitialized ∧
        (slot.startRun now).desc.limits.maxMemory = slot.desc.limits.maxMemory ∧
        (slot.startRun now).vm.regions = slot.vm.regions ∧
        ((slot.startRun now).Overfull ↔ slot.Overfull) := by
      unfold startRun
      simp only
      split_ifs <;> exact ⟨rfl, rfl, rfl, Iff.rfl⟩
    exact memoryTracked_quiet log_startRun hsame.1 hsame.2.1 hsame.2.2.1 (mt hsame.2.2.2.1) fun _ => hslot
  obtain ⟨r', htracked, hne, heq⟩ := run_rule (I := MemoryTracked host slot Overfull)
    (Q := fun r => ∀ status, r.1 = .ok status → MemoryTracked host slot BreaksLimit r.2)
    (fun s hs _ _ => hs.congr rfl rfl rfl rfl (breaksLimit_iff (by simp [withState]) (by simp [withState])))
    (fun s r hs heq => have hround := (rounds_of_eq heq).memoryRound
      ⟨fun hok => hs.trans (hround.1 hok), fun _ status hok => hs.trans (hround.2 status hok)⟩) hstart h
  obtain ⟨hresult, hfinish⟩ := finishRun_eq hne
  rw [← heq] at hresult hfinish
  have htracked := htracked status hresult.symm
  rcases hfinish with hsame | ⟨-, hsame⟩
  · have hsame : slot' = r'.2 := hsame
    rw [hsame]
    exact htracked
  · have hsame : slot' = r'.2.withVmState .halted := hsame
    rw [hsame]
    exact htracked.congr rfl rfl rfl rfl Iff.rfl

theorem step_memoryTracked {status : FluxStatus} (hslot : ¬ slot.Overfull)
    (h : (slot.step host now).1 = .ok status) : MemoryTracked host slot BreaksLimit (slot.step host now).2 := by
  unfold step at h ⊢
  have hstart : MemoryTracked host slot Overfull
      { (if slot.vm.state = .idle then slot.withVmState .running else slot) with
        desc := { (if slot.vm.state = .idle then slot.withVmState .running else slot).desc with
          lastActive := now } } := by
    split_ifs
    · exact memoryTracked_quiet rfl rfl rfl rfl id fun _ => hslot
    · exact memoryTracked_quiet rfl rfl rfl rfl id fun _ => hslot
  exact hstart.trans ((sandboxStep_rounds _ host now).memoryRound.2 status h)

end AgentSlot

/-! ## Runs of the runtime -/

namespace AgentSystem

variable {s t : AgentSystem} {a : AgentAction} {i : AgentIdx}

/-- What the host gives the VM of the agent in the call fits in its address space. -/
def HostFits (i : AgentIdx) (a : AgentAction) (s : AgentSystem) : Prop :=
  ∀ rt, s.sandboxed a = some rt → ∀ e ∈ s.newEvents rt i, e.Fits

/-- The last instruction of the agent in the call creates a region that brings the total size over its limit. -/
def OverfillsLast (i : AgentIdx) (a : AgentAction) (s : AgentSystem) : Prop :=
  ∃ rt host, s.sandboxed a = some rt ∧ a.host? = some host ∧
    SandboxEvent.EndsOverfull host (s.rt.agents i).desc.limits.maxMemory (s.newEvents rt i)

/-- A call leaves the agent alone, or what it does is tracked. -/
theorem memoryTracked_of_sandboxed {rt : AgentRuntime} (hkeeps : (s.rt.agents i).KeepsMemory)
    (hrt : s.sandboxed a = some rt) (h : step a s = some t) :
    rt.agents i = s.rt.agents i ∨ ∃ host, a.host? = some host ∧
      (s.rt.agents i).MemoryTracked host AgentSlot.BreaksLimit (rt.agents i) := by
  refine (sandboxed_cases hrt i).imp id ?_
  rintro ⟨host, r, hhost, -, hmay, hcall, heq, hok⟩
  obtain ⟨status, hstatus⟩ := hok t h
  refine ⟨host, hhost, ?_⟩
  rw [heq]
  have hbelow := AgentSlot.not_overfull_of_keepsMemory hkeeps hmay
  cases hcall with
  | run maxTicks _ hrun =>
    obtain ⟨result, slot⟩ := r
    cases hstatus
    exact AgentSlot.run_memoryTracked hbelow hrun
  | step => exact AgentSlot.step_memoryTracked hbelow hstatus

/-- One call: the limit is kept after it exactly if its last instruction does not overfill the regions. -/
theorem keepsMemory_of_step (ha : a.Executes) (hfits : HostFits i a s)
    (htotal : (s.rt.agents i).vm.regionTotal < UInt64.size) (hkeeps : (s.rt.agents i).KeepsMemory)
    (h : step a s = some t) : (t.rt.agents i).vm.regionTotal < UInt64.size ∧
      ((t.rt.agents i).KeepsMemory ↔ ¬ OverfillsLast i a s) := by
  by_cases hhost : ∃ host, a.host? = some host
  · obtain ⟨host, hhost⟩ := hhost
    have hrt := sandboxed_of_step hhost h
    have hlast : OverfillsLast i a s ↔ SandboxEvent.EndsOverfull host (s.rt.agents i).desc.limits.maxMemory
        (s.newEvents t.rt i) := by
      constructor
      · rintro ⟨rt', host', hrt', hhost', hends⟩
        cases hrt.symm.trans hrt'
        cases hhost.symm.trans hhost'
        exact hends
      · intro hends
        exact ⟨t.rt, host, hrt, hhost, hends⟩
    rw [hlast]
    obtain heq | ⟨host', hhost', es, hlog, -, -, hes⟩ := memoryTracked_of_sandboxed hkeeps hrt h
    · have hnone : s.newEvents t.rt i = [] := by rw [newEvents, heq, List.drop_length]
      rw [hnone, heq]
      exact ⟨htotal, iff_of_true hkeeps SandboxEvent.not_endsOverfull_nil⟩
    · cases hhost.symm.trans hhost'
      have hnew : s.newEvents t.rt i = es := by rw [newEvents, hlog, List.drop_left]
      obtain ⟨htotal', hbreaks, -⟩ := hes htotal (hnew ▸ hfits t.rt hrt)
      rw [hnew, ← hbreaks, AgentSlot.BreaksLimit, not_not]
      exact ⟨htotal', Iff.rfl⟩
  · have hquiet : ¬ OverfillsLast i a s := fun ⟨rt, host, _, hhost', _⟩ => hhost ⟨host, hhost'⟩
    cases a with
    | tick =>
      cases h
      exact ⟨htotal, iff_of_true hkeeps hquiet⟩
    | run host => exact absurd ⟨host, rfl⟩ hhost
    | step host => exact absurd ⟨host, rfl⟩ hhost
    | _ => exact ha.elim

end AgentSystem

/-- In a sequence of calls of `flux_agent_run` and `flux_agent_step`, on hosts whose memory fits in their address
space, the regions of an agent are within its limit after every call, unless it has ended, if and only if no call
ends with an instruction that creates a region and brings the total size over the limit. -/
theorem memoryLimit_holdsAlong_iff (s : AgentSystem) (i : AgentIdx) (as : List AgentAction)
    (hcalls : MeetsAlong AgentSystem.step (fun a s => a.Executes ∧ AgentSystem.HostFits i a s) as s)
    (htotal : (s.rt.agents i).vm.regionTotal < UInt64.size) (hkeeps : (s.rt.agents i).KeepsMemory) :
    HoldsAlong AgentSystem.step (fun u => (u.rt.agents i).KeepsMemory) as s ↔
      MeetsAlong AgentSystem.step (fun a u => ¬ AgentSystem.OverfillsLast i a u) as s :=
  holdsAlong_iff_meetsAlong_of_kept (J := fun u => (u.rt.agents i).vm.regionTotal < UInt64.size)
    (fun _ _ _ ha hJ hP _ h => (AgentSystem.keepsMemory_of_step ha.1 ha.2 hJ hP h).1)
    (fun _ _ _ ha hJ hP h => (AgentSystem.keepsMemory_of_step ha.1 ha.2 hJ hP h).2) hcalls htotal hkeeps

/-- One step of the first agent. -/
def oneStep : List AgentAction := [.step FluxVm.plentifulHost 5]

/-- A `NOP` leaves the agent within its limit. -/
theorem memoryLimit_holdsAlong_iff_nop :
    HoldsAlong AgentSystem.step (fun u => (u.rt.agents firstAgent).KeepsMemory) oneStep (spawnedWith 0x00) := by
  have hnew {rt : AgentRuntime} (hrt : (spawnedWith 0x00).sandboxed (.step FluxVm.plentifulHost 5) = some rt) :
      ∀ e ∈ (spawnedWith 0x00).newEvents rt firstAgent, e.Fits ∧
        ¬ e.Overfills FluxVm.plentifulHost ((spawnedWith 0x00).rt.agents firstAgent).desc.limits.maxMemory := by
    cases hrt
    decide +kernel
  refine (memoryLimit_holdsAlong_iff (spawnedWith 0x00) firstAgent oneStep ?_ ?_ ?_).2 ?_
  · exact fun t _ => ⟨⟨trivial, fun rt hrt e he => (hnew hrt e he).1⟩, trivial⟩
  · decide +kernel
  · decide +kernel
  · refine fun t _ => ⟨?_, trivial⟩
    rintro ⟨rt, host, hrt, hhost, e, he, hover⟩
    cases hhost
    exact (hnew hrt e (List.mem_of_getLast? he)).2 hover

/-- The workspace of an agent is as large as its limit, so that any region it creates is too much; the step
returns, and the agent goes on. -/
theorem regionCreate_breaksLimit :
    ¬ HoldsAlong AgentSystem.step (fun u => (u.rt.agents firstAgent).KeepsMemory) oneStep (spawnedWith 0xA3) := by
  rintro ⟨-, hall⟩
  have hstep : ∃ t, AgentSystem.step (.step FluxVm.plentifulHost 5) (spawnedWith 0xA3) = some t ∧
      ¬ (t.rt.agents firstAgent).KeepsMemory := ⟨_, rfl, by decide +kernel⟩
  obtain ⟨t, ht, hbreaks⟩ := hstep
  exact hbreaks (hall t ht)

end FluxOs
