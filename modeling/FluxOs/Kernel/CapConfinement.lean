import FluxOs.Kernel.OsRuns
import FluxOs.Kernel.Privileges
import FluxOs.Kernel.UserProcesses

/-!
# Confinement of processes

No order of system calls of any processes, rounds of receives that wait and iterations of the scheduler gives a
process more capabilities than it gets from `flux_spawn`, unless a call kills the kernel process under another pid of
its slot.
-/

namespace FluxOs

open Actions

/-- The call wants a capability besides `SPAWN` and `COMMUNICATE`. -/
def Syscall.Privileged (c : Syscall) : Prop :=
  c.num ∈ [fluxSyscallCompile, fluxSyscallEmit, fluxSyscallDevcode, fluxSyscallRead, fluxSyscallWrite,
    fluxSyscallHwConfig]

/-- The operations of the kernel guard it, if the kernel process is not killed. -/
theorem guarded_osInvariant :
    OsInvariant IsUser (fun _ => True) Kernel.Guarded.IsUserReceive Kernel.Guarded where
  frame h hprocs hsched hcurrent _ := h.of_procs hprocs hsched hcurrent
  spawn h hr := h.spawn hr
  exit h hr := h.exit hr
  kill h hpid := h.kill hpid
  yield h hcaller := h.yield (h.current.resolve_left hcaller)
  wait target h hcaller := h.wait (h.current.resolve_left hcaller) target
  send target msg h := h.send target msg
  recv filter len timeout h hcaller := by
    have huser := h.current.resolve_left hcaller
    exact ⟨h.recv huser filter len timeout, fun _ => Kernel.Guarded.isUserReceive_of_recv huser⟩
  poll h hr := h.poll hr
  broadcast msg h := h.broadcast msg
  bcLoad h hr := h.bcLoad hr
  bcExec pid h := h.bcExec pid
  setTimeslice {k ticks} h _ := by
    unfold Kernel.fluxSchedSetTimeslice
    split_ifs
    · exact ⟨h.awake, h.caps, h.priority, h.current, h.scheduled, h.slots⟩
    · exact h
  iteration h := h.iteration

namespace Os

variable {p : Platform} {s : Os} {c : Syscall} {num : Int32} {arg0 arg1 arg2 arg3 : UInt64}

/-! ## Refusals -/

theorem fluxSyscallDispatch_compiler (hrange : ¬(num < 100 ∨ num > 899)) (hcategory : num / 100 = 5) :
    s.fluxSyscallDispatch p num arg0 arg1 arg2 arg3 =
      s.countSyscall.handleCompilerSyscall p num arg0 arg1 arg2 arg3 := by
  unfold fluxSyscallDispatch
  dsimp only
  rw [if_neg hrange, hcategory, if_neg (by decide), if_neg (by decide), if_neg (by decide), if_neg (by decide),
    if_pos rfl]

theorem fluxSyscallDispatch_io (hrange : ¬(num < 100 ∨ num > 899)) (hcategory : num / 100 = 6) :
    s.fluxSyscallDispatch p num arg0 arg1 arg2 arg3 = s.countSyscall.handleIoSyscall p num arg0 arg1 := by
  unfold fluxSyscallDispatch
  dsimp only
  rw [if_neg hrange, hcategory, if_neg (by decide), if_neg (by decide), if_neg (by decide), if_neg (by decide),
    if_neg (by decide), if_pos rfl]

theorem fluxSyscallDispatch_hw (hrange : ¬(num < 100 ∨ num > 899)) (hcategory : num / 100 = 7) :
    s.fluxSyscallDispatch p num arg0 arg1 arg2 arg3 = s.countSyscall.handleHwSyscall p num arg0 arg1 := by
  unfold fluxSyscallDispatch
  dsimp only
  rw [if_neg hrange, hcategory, if_neg (by decide), if_neg (by decide), if_neg (by decide), if_neg (by decide),
    if_neg (by decide), if_neg (by decide), if_pos rfl]

/-- A user process lacks what `flux_spawn` does not give. -/
theorem checkCap_of_guarded (h : s.kernel.Guarded) (hpid : s.kernel.ks.currentPid ≠ fluxPidKernel) {required : UInt64}
    (hrequired : spawnCaps &&& required = 0) : s.syscallCheckCap required = false := by
  unfold syscallCheckCap
  rw [if_neg hpid]
  cases hi : s.kernel.procs.fluxGetPcb s.kernel.ks.currentPid with
  | none => rfl
  | some i =>
    have hi0 : i ≠ 0 := by
      rintro rfl
      exact h.current.resolve_left hpid (Kernel.fluxGetPcb_eq_some.1 hi).1
    have hnone : (s.kernel.pcb i).capabilities &&& required = 0 := by
      rw [← h.caps i hi0, UInt64.and_assoc, hrequired, UInt64.and_zero]
    exact decide_eq_false (not_not.2 hnone)

/-- A privileged call of a user process is refused, and only counted. -/
theorem privileged_of_guarded (h : s.kernel.Guarded)
    (hpid : s.kernel.ks.currentPid ≠ fluxPidKernel) (hc : c.Privileged) :
    s.fluxSyscallDispatch p c.num c.arg0 c.arg1 c.arg2 c.arg3 = some (FluxStatus.errDenied.code, s.countSyscall) := by
  have hcount : s.countSyscall.kernel.Guarded := h.of_procs rfl rfl rfl
  have hno (required : UInt64) (hrequired : spawnCaps &&& required = 0) :
      s.countSyscall.syscallCheckCap required = false := checkCap_of_guarded hcount hpid hrequired
  have hcompile := hno fluxCapCompile (by decide)
  have hdevcode := hno (fluxCapCompile ||| fluxCapSupervisor) (by decide)
  have hread := hno fluxCapIoRead (by decide)
  have hwrite := hno fluxCapIoWrite (by decide)
  have hhardware := hno fluxCapHardware (by decide)
  simp only [Syscall.Privileged, List.mem_cons, List.not_mem_nil, or_false] at hc
  rcases hc with hnum | hnum | hnum | hnum | hnum | hnum <;> rw [hnum]
  · rw [fluxSyscallDispatch_compiler (by decide) (by decide), handleCompilerSyscall, if_pos rfl, hcompile]
    rfl
  · rw [fluxSyscallDispatch_compiler (by decide) (by decide), handleCompilerSyscall, if_neg (by decide), if_pos rfl,
      hcompile]
    rfl
  · rw [fluxSyscallDispatch_compiler (by decide) (by decide), handleCompilerSyscall, if_neg (by decide),
      if_neg (by decide), if_pos rfl, hdevcode]
    rfl
  · rw [fluxSyscallDispatch_io (by decide) (by decide), handleIoSyscall, if_pos rfl, syscallRead, hread]
    rfl
  · rw [fluxSyscallDispatch_io (by decide) (by decide), handleIoSyscall, if_neg (by decide), if_pos rfl, hwrite]
    rfl
  · rw [fluxSyscallDispatch_hw (by decide) (by decide), handleHwSyscall, if_neg (by decide), if_pos rfl, hhardware]
    rfl

end Os

namespace OsSystem

variable {p : Platform} {s : OsSystem}

/-- In every run of spawns, system calls of processes, receives that wait and scheduler iterations, only the kernel
process has more capabilities than `SPAWN` and `COMMUNICATE`.  So every call of a process that wants another one is
refused. -/
theorem privileges_confined (hp : p.Protects) (hrun : s.Reachable p IsUser fun _ => True) :
    (∀ i, i ≠ 0 → (s.os.kernel.pcb i).capabilities &&& spawnCaps = (s.os.kernel.pcb i).capabilities) ∧
      ∀ c : Syscall, s.os.kernel.ks.currentPid ≠ fluxPidKernel → c.Privileged →
        s.os.fluxSyscallDispatch p c.num c.arg0 c.arg1 c.arg2 c.arg3 =
          some (FluxStatus.errDenied.code, s.os.countSyscall) := by
  obtain ⟨hguarded, -⟩ := guarded_osInvariant.holds hp Kernel.bootKernel_guarded hrun
  exact ⟨hguarded.caps, fun c hpid hc => Os.privileged_of_guarded hguarded hpid hc⟩

/-- The first process is scheduled, spawns another one and tries to write to the console. -/
theorem privileges_confined_write : ∃ s : OsSystem, (s.Reachable plainPlatform IsUser fun _ => True) ∧
    (s.os.kernel.pcb 2).capabilities = spawnCaps ∧
    s.os.fluxSyscallDispatch plainPlatform fluxSyscallWrite 0 0 0 0 =
      some (FluxStatus.errDenied.code, s.os.countSyscall) := by
  have hrun : ((step plainPlatform (.spawn 0 0 false) (boot fun _ => 0)).bind fun s =>
      (step plainPlatform .schedule s).bind fun s =>
      (step plainPlatform (.syscall ⟨fluxSyscallSpawn, 0, 0, 0, 0⟩) s).map
        fun t => (s.os.kernel.ks.currentPid, t.os.kernel.ks.currentPid, (t.os.kernel.pcb 2).capabilities)) =
          some (2, 2, spawnCaps) := by decide +kernel
  obtain ⟨s₁, h₁, hrun⟩ := Option.bind_eq_some_iff.1 hrun
  obtain ⟨s₂, h₂, hrun⟩ := Option.bind_eq_some_iff.1 hrun
  obtain ⟨s₃, h₃, hpids⟩ := Option.map_eq_some_iff.1 hrun
  obtain ⟨hcurrent, hpids⟩ := Prod.mk.inj hpids
  obtain ⟨hcurrent', hcaps⟩ := Prod.mk.inj hpids
  have hpermitted : OsAction.Permitted IsUser (fun _ => True) (.syscall ⟨fluxSyscallSpawn, 0, 0, 0, 0⟩) s₂ :=
    ⟨by rw [hcurrent]; decide, fun hkill => absurd hkill (by decide)⟩
  have hreach : s₃.Reachable plainPlatform IsUser fun _ => True :=
    ⟨fun _ => 0, (((Reaches.refl _).tail trivial h₁).tail trivial h₂).tail hpermitted h₃⟩
  have hp : plainPlatform.Protects := fun _ _ _ => ⟨rfl, rfl, rfl, rfl⟩
  have hpid : s₃.os.kernel.ks.currentPid ≠ fluxPidKernel := by
    rw [hcurrent']
    decide
  have hwrite : Syscall.Privileged ⟨fluxSyscallWrite, 0, 0, 0, 0⟩ := by simp [Syscall.Privileged]
  exact ⟨s₃, hreach, hcaps, (privileges_confined hp hreach).2 ⟨fluxSyscallWrite, 0, 0, 0, 0⟩ hpid hwrite⟩

end OsSystem
end FluxOs
