import FluxOs.Hal.DeviceLists

/-!
# Runs of the device registry

In any run of calls, the registry agrees with the list of the devices that were registered and not
unregistered since, up to the first device that is registered into a list whose last node is not known.
-/

namespace FluxOs

open Actions

/-- A call to the registry; where a device is registered, with what `calloc` returns. -/
inductive DeviceCall
  | register (dev : Option FluxDevice) (addr : Nat)
  | unregister (dev : DevicePointer)

/-- The registry with the devices that were registered and not unregistered since. -/
structure DeviceTrack where
  reg : DeviceRegistry
  registered : List DeviceData

namespace DeviceTrack

open DeviceRegistry

def start : DeviceTrack := { reg := empty, registered := [] }

/-- A call, unless it faults. -/
def step : DeviceCall → DeviceTrack → Option DeviceTrack
  | .register dev addr, x =>
    match x.reg.nativeDeviceRegister dev addr with
    | .ok (status, reg) =>
      some { reg, registered := x.registered ++ if status = .ok then (dev.map (·.initialized)).toList else [] }
    | .error _ => none
  | .unregister dev, x =>
    match x.reg.nameOf dev, x.reg.nativeDeviceUnregister dev with
    | .ok name, .ok (_, reg) =>
      some { reg, registered := if dev = .null then x.registered else x.registered.filter (·.name ≠ name) }
    | _, _ => none

/-- `calloc` returns a node that is not in use, names are distinct, and a pointer to a node points to one that is
in use. -/
def Allowed : DeviceCall → DeviceTrack → Prop
  | .register (some dev) addr, x =>
    (addr ≠ 0 → x.reg.nodes addr = none) ∧ dev.initialized.name ∉ x.registered.map DeviceData.name
  | .unregister (.node addr), x => x.reg.nodes addr ≠ none
  | _, _ => True

/-- The walk visits the registered devices in order, each of them is found by its name, and they are counted. -/
structure Agrees (x : DeviceTrack) : Prop where
  list : x.reg.nativeDeviceList = .ok (x.registered.length, x.registered)
  count : x.reg.count = x.registered.length
  find : ∀ name, ∃ addr, x.reg.nativeDeviceFind (some name) = .ok addr ∧
    ((addr = 0 ∧ ∀ d ∈ x.registered, d.name ≠ name) ∨
      ∃ d ∈ x.registered, d.name = name ∧ x.reg.dataOf addr = some d)

/-- A device that gets a node is registered into an empty list or behind a known last node. -/
def TailKnown : DeviceCall → DeviceTrack → Prop
  | .register (some _) addr, x =>
    x.reg.count < nativeMaxDevices → addr ≠ 0 → x.reg.tail = 0 → x.reg.head = 0
  | _, _ => True

/-- The registry is a list of the registered devices. -/
def Linked (x : DeviceTrack) : Prop := ∃ addrs, x.reg.Represents addrs x.registered

variable {x t : DeviceTrack} {c : DeviceCall} {calls : List DeviceCall}

theorem linked_start : start.Linked := ⟨[], represents_empty⟩

theorem Linked.agrees (h : x.Linked) : x.Agrees := by
  obtain ⟨addrs, h⟩ := h
  exact ⟨h.list, h.count, h.find⟩

/-- A device that is registered without a last node, into a list that is not empty, is all that is left. -/
theorem not_agrees_of_lost {dev : FluxDevice} {addr : Nat} (h : x.Linked) (hroom : x.reg.count < nativeMaxDevices)
    (haddr : addr ≠ 0) (htail : x.reg.tail = 0) (hhead : x.reg.head ≠ 0) :
    ∃ t, step (.register (some dev) addr) x = some t ∧ ¬ t.Agrees := by
  obtain ⟨reg, hcall, hlist⟩ := register_lost dev hroom haddr htail
  refine ⟨{ reg, registered := x.registered ++ [dev.initialized] }, ?_, fun hagrees => hhead ?_⟩
  · rw [step, hcall]
    rfl
  · have heq := hagrees.list.symm.trans hlist
    have hnil : x.registered = [] := List.append_left_eq_self.1 (Prod.mk.inj (Except.ok.inj heq)).2
    obtain ⟨addrs, h⟩ := h
    rw [h.chain.eq_null_iff, ← List.length_eq_zero_iff, h.length_eq, hnil]
    rfl

/-- Registering behind a known last node keeps the list. -/
theorem Linked.register {dev : Option FluxDevice} {addr : Nat} (h : x.Linked)
    (ha : Allowed (.register dev addr) x) (hC : TailKnown (.register dev addr) x) :
    ∃ t, step (.register dev addr) x = some t ∧ t.Linked := by
  have hkept (status : FluxStatus) (hstatus : status ≠ .ok)
      (hcall : x.reg.nativeDeviceRegister dev addr = .ok (status, x.reg)) :
      ∃ t, step (.register dev addr) x = some t ∧ t.Linked := by
    refine ⟨x, ?_, h⟩
    rw [step, hcall]
    simp only
    rw [if_neg hstatus, List.append_nil]
  rcases dev with - | dev
  · exact hkept .errInvalid (by decide) rfl
  by_cases hroom : x.reg.count < nativeMaxDevices
  · by_cases haddr : addr = 0
    · refine hkept .errNomem (by decide) ?_
      unfold nativeDeviceRegister
      simp only
      rw [if_neg (Int.not_le.2 hroom), if_pos haddr]
      rfl
    · obtain ⟨addrs, h⟩ := h
      obtain ⟨reg, hcall, hreg⟩ := h.register hroom haddr (ha.1 haddr) ha.2 (hC hroom haddr)
      refine ⟨{ reg, registered := x.registered ++ [dev.initialized] }, ?_, _, hreg⟩
      rw [step, hcall]
      rfl
  · refine hkept .errOverflow (by decide) ?_
    unfold nativeDeviceRegister
    simp only
    rw [if_pos (Int.not_lt.1 hroom)]
    rfl

/-- Unregistering removes the device with the name and keeps the others. -/
theorem Linked.unregister {dev : DevicePointer} (h : x.Linked) (ha : Allowed (.unregister dev) x) :
    ∃ t, step (.unregister dev) x = some t ∧ t.Linked := by
  by_cases hdev : dev = .null
  · subst hdev
    exact ⟨x, rfl, h⟩
  have hname : ∃ name, x.reg.nameOf dev = .ok name := by
    rcases dev with - | name | addr
    · exact absurd rfl hdev
    · exact ⟨name, rfl⟩
    · obtain ⟨n, hn⟩ := Option.ne_none_iff_exists'.1 ha
      refine ⟨n.device.data.name, ?_⟩
      show (·.device.data.name) <$> x.reg.node addr = _
      rw [node_eq hn]
      rfl
  obtain ⟨name, hname⟩ := hname
  obtain ⟨addrs, h⟩ := h
  have hstep {status : FluxStatus} {reg : DeviceRegistry}
      (hcall : x.reg.nativeDeviceUnregister dev = .ok (status, reg)) :
      step (.unregister dev) x = some { reg, registered := x.registered.filter (·.name ≠ name) } := by
    rw [step, hname, hcall]
    simp only
    rw [if_neg hdev]
  obtain ⟨p, q, rfl, hp, hq⟩ := exists_split x.reg name addrs
  rcases q with - | ⟨a, q⟩
  · rw [List.append_nil] at h
    refine ⟨_, hstep (h.unregister_notFound hdev hname hp), p, ?_⟩
    have hall : x.registered.filter (·.name ≠ name) = x.registered :=
      List.filter_eq_self.2 fun d hd => decide_eq_true (name_ne_of_data hp h.data hd)
    rw [hall]
    exact h
  · obtain ⟨reg, hcall, hreg⟩ := h.unregister hdev hname hp (hq a rfl)
    exact ⟨_, hstep hcall, p ++ q, hreg⟩

/-- A call keeps the list exactly if it knows the last node where it needs it. -/
theorem Linked.step (h : x.Linked) (ha : Allowed c x) :
    ∃ t, step c x = some t ∧ (TailKnown c x → t.Linked) ∧ (¬ TailKnown c x → ¬ t.Agrees) := by
  by_cases hC : TailKnown c x
  · suffices hlinked : ∃ t, DeviceTrack.step c x = some t ∧ t.Linked by
      obtain ⟨t, ht, hlinked⟩ := hlinked
      exact ⟨t, ht, fun _ => hlinked, fun hC' => absurd hC hC'⟩
    cases c with
    | register dev addr => exact h.register ha hC
    | unregister dev => exact h.unregister ha
  · suffices hlost : ∃ t, DeviceTrack.step c x = some t ∧ ¬ t.Agrees by
      obtain ⟨t, ht, hlost⟩ := hlost
      exact ⟨t, ht, fun hC' => absurd hC' hC, fun _ => hlost⟩
    rcases c with ⟨- | dev, addr⟩ | dev
    · exact absurd trivial hC
    · simp only [TailKnown, Classical.not_imp] at hC
      exact not_agrees_of_lost h hC.1 hC.2.1 hC.2.2.1 hC.2.2.2
    · exact absurd trivial hC

/-- In every run of allowed calls, the registry agrees with the registered devices in all states exactly if no
device is registered into a list whose last node is not known; such a run does not fault. -/
theorem deviceRegistry_agrees_iff (calls : List DeviceCall) (h : TriesAlong step Allowed calls start) :
    (HoldsAlong step Agrees calls start ↔ MeetsAlong step TailKnown calls start) ∧
      (MeetsAlong step TailKnown calls start → ∃ t, execute step calls start = some t) := by
  refine ⟨holdsAlong_iff_meetsAlong_of_kept (J := Linked) ?_ ?_ h.meetsAlong linked_start linked_start.agrees,
    fun hC => h.executes (I := Linked) hC ?_ linked_start⟩
  · intro c x t ha hx _ hagrees ht
    obtain ⟨t', ht', hlinked, hlost⟩ := hx.step ha
    obtain rfl : t' = t := Option.some.inj (ht'.symm.trans ht)
    exact hlinked (not_not.1 fun hC => hlost hC hagrees)
  · intro c x t ha hx _ ht
    obtain ⟨t', ht', hlinked, hlost⟩ := hx.step ha
    obtain rfl : t' = t := Option.some.inj (ht'.symm.trans ht)
    exact ⟨fun hagrees => not_not.1 fun hC => hlost hC hagrees, fun hC => (hlinked hC).agrees⟩
  · intro c x ha hx
    obtain ⟨t, ht, hlinked, -⟩ := hx.step ha
    exact ⟨t, ht, hlinked⟩

/-- A device without a driver function. -/
def plainDevice (name : List Char) : FluxDevice :=
  { data := { name, devId := 0, privateData := 0 }, init := none }

/-- Two devices are registered, and the first one is unregistered. -/
def firstLeaves : List DeviceCall :=
  [.register (some (plainDevice ['a'])) 1, .register (some (plainDevice ['b'])) 2, .unregister (.own ['a']),
    .register (some (plainDevice ['c'])) 1]

theorem deviceRegistry_agrees_iff_firstLeaves :
    HoldsAlong step Agrees firstLeaves start ∧ ∃ t, execute step firstLeaves start = some t := by
  have hallowed : TriesAlong step Allowed firstLeaves start := by
    refine ⟨⟨fun _ => rfl, by decide⟩, fun x hx => ?_⟩
    cases hx
    refine ⟨⟨fun _ => rfl, by decide⟩, fun x hx => ?_⟩
    cases hx
    refine ⟨trivial, fun x hx => ?_⟩
    cases hx
    exact ⟨⟨fun _ => rfl, by decide⟩, fun _ _ => trivial⟩
  have hknown : MeetsAlong step TailKnown firstLeaves start := by
    intro x hx
    cases hx
    refine ⟨fun _ _ _ => rfl, fun x hx => ?_⟩
    cases hx
    refine ⟨fun _ _ h => absurd h (by decide), fun x hx => ?_⟩
    cases hx
    refine ⟨trivial, fun x hx => ?_⟩
    cases hx
    exact ⟨fun _ _ h => absurd h (by decide), trivial⟩
  obtain ⟨hiff, hexec⟩ := deviceRegistry_agrees_iff firstLeaves hallowed
  exact ⟨hiff.2 hknown, hexec hknown⟩

/-- Two devices are registered, and the last one is unregistered. -/
def lastLeaves : List DeviceCall :=
  [.register (some (plainDevice ['a'])) 1, .register (some (plainDevice ['b'])) 2, .unregister (.own ['b']),
    .register (some (plainDevice ['c'])) 2]

/-- The device that is left is gone with the next one that is registered. -/
theorem lastLeaves_not_agrees : TriesAlong step Allowed lastLeaves start ∧
    (∃ x, execute step lastLeaves start = some x ∧ x.registered.map DeviceData.name = [['a'], ['c']] ∧
      x.reg.nativeDeviceFind (some ['a']) = .ok 0) ∧ ¬ HoldsAlong step Agrees lastLeaves start := by
  refine ⟨⟨⟨fun _ => rfl, by decide⟩, fun x hx => ?_⟩, ⟨_, rfl, rfl, rfl⟩, fun hholds => ?_⟩
  · cases hx
    refine ⟨⟨fun _ => rfl, by decide⟩, fun x hx => ?_⟩
    cases hx
    refine ⟨trivial, fun x hx => ?_⟩
    cases hx
    exact ⟨⟨fun _ => rfl, by decide⟩, fun _ _ => trivial⟩
  · obtain ⟨-, hfirst⟩ := hholds
    obtain ⟨-, hsecond⟩ := hfirst _ rfl
    obtain ⟨-, hthird⟩ := hsecond _ rfl
    obtain ⟨-, hfourth⟩ := hthird _ rfl
    have hlist : (.ok (2, [(plainDevice ['c']).data]) : Except DeviceFault (Int × List DeviceData)) =
        .ok (2, [(plainDevice ['a']).data, (plainDevice ['c']).data]) := (hfourth _ rfl).list
    exact absurd (Except.ok.inj hlist) (by decide)

end DeviceTrack

end FluxOs
