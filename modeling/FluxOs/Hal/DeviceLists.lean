import FluxOs.Hal.Devices
import FluxOs.Lib.Actions
import FluxOs.Lib.Chains
import Mathlib.Data.List.TakeWhile

/-!
# The device registry as a list

As long as the pointer to the last node is right where it is used, the registry is the list of the devices
that were registered and not unregistered since.  Unregistering the last of several devices sets the pointer
to NULL; the next device that is registered then replaces the whole list.
-/

namespace FluxOs

open Faulting Chains

/-- A device after the call of its `init`. -/
def FluxDevice.afterInit (dev : FluxDevice) : FluxDevice := { dev with data := dev.initialized }

namespace DeviceRegistry

variable {s : DeviceRegistry} {addrs k l p q : List Nat} {ds : List DeviceData} {a addr : Nat} {name : List Char}
  {dev : DevicePointer} {n : DeviceNode}

def nextOf (s : DeviceRegistry) (addr : Nat) : Option Nat := (s.nodes addr).map (·.next)

def dataOf (s : DeviceRegistry) (addr : Nat) : Option DeviceData := (s.nodes addr).map (·.device.data)

/-- The device in the node has this name. -/
def Named (s : DeviceRegistry) (name : List Char) (addr : Nat) : Prop :=
  ∃ n, s.nodes addr = some n ∧ n.device.data.name = name

/-- The nodes `addrs` are linked from the head, and their devices are `ds`. -/
structure Represents (s : DeviceRegistry) (addrs : List Nat) (ds : List DeviceData) : Prop where
  chain : Chain 0 s.nextOf s.head addrs
  nodup : addrs.Nodup
  data : addrs.map s.dataOf = ds.map some
  tail : s.tail = addrs.getLast?.getD 0 ∨ s.tail = 0
  count : s.count = ds.length
  bound : ds.length ≤ nativeMaxDevices
  names : (ds.map DeviceData.name).Nodup

/-! ## Nodes -/

theorem node_eq (h : s.nodes addr = some n) : s.node addr = .ok n := by
  rw [node, h]
  rfl

theorem exists_node (h : Chain 0 s.nextOf a addrs) (haddr : addr ∈ addrs) : ∃ n, s.nodes addr = some n := by
  have hnext := h.next_ne_none haddr
  cases hn : s.nodes addr with
  | none => exact absurd (by rw [nextOf, hn, Option.map_none]) hnext
  | some n => exact ⟨n, rfl⟩

theorem nextOf_setNode (s : DeviceRegistry) (addr : Nat) (n : Option DeviceNode) :
    (s.setNode addr n).nextOf = Function.update s.nextOf addr (n.map (·.next)) := by
  funext a
  by_cases h : a = addr
  · subst h
    simp [nextOf, setNode]
  · simp [nextOf, setNode, h]

theorem dataOf_setNode (s : DeviceRegistry) (addr : Nat) (n : Option DeviceNode) :
    (s.setNode addr n).dataOf = Function.update s.dataOf addr (n.map (·.device.data)) := by
  funext a
  by_cases h : a = addr
  · subst h
    simp [dataOf, setNode]
  · simp [dataOf, setNode, h]

/-- The pointer to the rest of a list. -/
theorem follow_eq (h : Chain 0 s.nextOf s.head (k ++ l)) : s.follow k.getLast? = .ok (first 0 l) := by
  rcases List.eq_nil_or_concat k with rfl | ⟨k, x, rfl⟩
  · exact congrArg Except.ok h.eq_first
  · rw [List.concat_eq_append] at h ⊢
    rw [List.append_assoc] at h
    have hnext : s.nextOf x = some (first 0 l) := h.next_eq
    obtain ⟨n, hn, hn'⟩ := Option.map_eq_some_iff.1 hnext
    rw [List.getLast?_concat]
    show (·.next) <$> s.node x = _
    rw [node_eq hn]
    exact congrArg Except.ok hn'

theorem first_ne_zero (h : Chain 0 s.nextOf s.head (k ++ a :: l)) : a ≠ 0 :=
  h.ne_null (List.mem_append_right k List.mem_cons_self)

/-! ## The loops -/

/-- The first node of a list that is not empty, and the list behind it. -/
theorem exists_first (h : Chain 0 s.nextOf a (addr :: l)) :
    a = addr ∧ addr ≠ 0 ∧ ∃ n, s.nodes addr = some n ∧ Chain 0 s.nextOf n.next l := by
  obtain ⟨rfl, hne, b, hb, hrest⟩ := h
  obtain ⟨n, hn, rfl⟩ := Option.map_eq_some_iff.1 hb
  exact ⟨rfl, hne, n, hn, hrest⟩

/-- A pointer to a node has the name of its device. -/
theorem named_iff (hname : s.nameOf dev = .ok name) (hn : s.nodes a = some n) :
    (dev = .node a ∨ n.device.data.name = name) ↔ s.Named name a := by
  have hnamed : s.Named name a ↔ n.device.data.name = name := by
    constructor
    · rintro ⟨n', hn', h⟩
      obtain rfl : n = n' := Option.some.inj (hn.symm.trans hn')
      exact h
    · exact fun h => ⟨n, hn, h⟩
  rw [hnamed, or_iff_right_of_imp]
  rintro rfl
  have hread : (·.device.data.name) <$> s.node a = .ok name := hname
  rw [node_eq hn] at hread
  exact Except.ok.inj hread

theorem unregisterTurn_eq {pp : Option Nat} (hname : s.nameOf dev = .ok name)
    (hpp : s.follow pp = .ok a) (ha : a ≠ 0) (hn : s.nodes a = some n) :
    (s.Named name a → s.unregisterTurn dev pp = .ok none) ∧
      (¬ s.Named name a → s.unregisterTurn dev pp = .ok (some (some a))) := by
  have hturn : s.unregisterTurn dev pp =
      if dev = .node a ∨ n.device.data.name = name then .ok none else .ok (some (some a)) := by
    unfold unregisterTurn
    rw [hpp]
    show (if _ then _ else _) = _
    rw [if_neg ha, node_eq hn, hname]
    rfl
  rw [hturn, ← named_iff hname hn]
  exact ⟨fun h => if_pos h, fun h => if_neg h⟩

/-- The loop of `native_device_unregister` goes over the nodes in front of the first with the name. -/
theorem unregister_leaves (hname : s.nameOf dev = .ok name) (h : Chain 0 s.nextOf s.head (k ++ (p ++ q)))
    (hp : ∀ a ∈ p, ¬ s.Named name a) (hq : ∀ a, q.head? = some a → s.Named name a) :
    LeavesWithin (s.unregisterTurn dev) p.length k.getLast? (k ++ p).getLast? := by
  induction p generalizing k with
  | nil =>
    rw [List.nil_append] at h
    rw [List.append_nil]
    have hpp := follow_eq h
    apply LeavesWithin.here
    rcases q with - | ⟨x, q⟩
    · unfold unregisterTurn
      rw [hpp]
      rfl
    · obtain ⟨n, hn⟩ := exists_node h (List.mem_append_right k List.mem_cons_self)
      exact (unregisterTurn_eq hname hpp (first_ne_zero h) hn).1 (hq x rfl)
  | cons x p ih =>
    rw [List.cons_append] at h
    obtain ⟨n, hn⟩ := exists_node h (List.mem_append_right k List.mem_cons_self)
    have hturn := (unregisterTurn_eq hname (follow_eq h) (first_ne_zero h) hn).2 (hp x List.mem_cons_self)
    have hlast : (k ++ [x]).getLast? = some (first 0 (x :: (p ++ q))) := List.getLast?_concat
    rw [List.append_cons] at h ⊢
    apply LeavesWithin.next hturn
    rw [← hlast]
    exact ih h fun a ha => hp a (List.mem_cons_of_mem x ha)

/-- The loop of `native_device_find` goes on to the first node with the name. -/
theorem find_leaves (h : Chain 0 s.nextOf a (p ++ q)) (hp : ∀ a ∈ p, ¬ s.Named name a)
    (hq : ∀ a, q.head? = some a → s.Named name a) :
    LeavesWithin (s.findTurn name) p.length a (first 0 q) := by
  induction p generalizing a with
  | nil =>
    rw [List.nil_append] at h
    obtain rfl : a = first 0 q := h.eq_first
    apply LeavesWithin.here
    rcases q with - | ⟨x, q⟩
    · exact if_pos rfl
    · obtain ⟨n, hn, hnamed⟩ := hq x rfl
      have hne : x ≠ 0 := h.2.1
      show s.findTurn name x = .ok none
      unfold findTurn
      rw [if_neg hne, node_eq hn]
      exact if_pos hnamed
  | cons x p ih =>
    obtain ⟨rfl, hne, n, hn, hrest⟩ := exists_first h
    have hturn : s.findTurn name a = .ok (some n.next) := by
      unfold findTurn
      rw [if_neg hne, node_eq hn]
      exact if_neg fun h => hp a List.mem_cons_self ⟨n, hn, h⟩
    apply LeavesWithin.next hturn
    exact ih hrest fun a ha => hp a (List.mem_cons_of_mem _ ha)

/-- The loop of `native_device_list` visits every node. -/
theorem list_leaves (h : Chain 0 s.nextOf a addrs) (hdata : addrs.map s.dataOf = ds.map some)
    {acc : List DeviceData} : LeavesWithin s.listTurn addrs.length (a, acc) (0, acc ++ ds) := by
  induction addrs generalizing a ds acc with
  | nil =>
    obtain rfl : ds = [] := List.map_eq_nil_iff.1 hdata.symm
    obtain rfl : a = 0 := h
    rw [List.append_nil]
    exact .here (if_pos rfl)
  | cons x addrs ih =>
    obtain ⟨rfl, hne, n, hn, hrest⟩ := exists_first h
    rcases ds with - | ⟨d, ds⟩
    · cases hdata
    obtain ⟨hd, hds⟩ := List.cons.inj hdata
    have hdev : n.device.data = d := by
      rw [dataOf, hn, Option.map_some] at hd
      exact Option.some.inj hd
    have hturn : s.listTurn (a, acc) = .ok (some (n.next, acc ++ [d])) := by
      unfold listTurn
      rw [if_neg hne, node_eq hn, ← hdev]
      rfl
    apply LeavesWithin.next hturn
    rw [List.append_cons acc d ds]
    exact ih hrest hds

/-! ## The registry of a list -/

theorem represents_empty : empty.Represents [] [] where
  chain := rfl
  nodup := List.nodup_nil
  data := rfl
  tail := .inl rfl
  count := rfl
  bound := Nat.zero_le _
  names := List.nodup_nil

theorem Represents.length_eq (h : s.Represents addrs ds) : addrs.length = ds.length := by
  have := congrArg List.length h.data
  rwa [List.length_map, List.length_map] at this

theorem Represents.mem_nodes (h : s.Represents addrs ds) (ha : a ∈ addrs) : s.nodes a ≠ none := by
  obtain ⟨n, hn⟩ := exists_node h.chain ha
  rw [hn]
  exact Option.some_ne_none n

/-- The list is walked in order. -/
theorem Represents.list (h : s.Represents addrs ds) : s.nativeDeviceList = .ok (ds.length, ds) := by
  have hfuel : addrs.length < nativeMaxDevices + 1 := by
    rw [h.length_eq]
    exact Nat.lt_succ_of_le h.bound
  unfold nativeDeviceList
  rw [(list_leaves h.chain h.data).loop_eq hfuel, List.nil_append, h.count]
  rfl

/-- A list is split in front of the first node with a name. -/
theorem exists_split (s : DeviceRegistry) (name : List Char) (addrs : List Nat) :
    ∃ p q, addrs = p ++ q ∧ (∀ a ∈ p, ¬ s.Named name a) ∧ ∀ a, q.head? = some a → s.Named name a := by
  classical
  refine ⟨addrs.takeWhile fun a => ¬ s.Named name a, addrs.dropWhile fun a => ¬ s.Named name a,
    List.takeWhile_append_dropWhile.symm, fun a ha => ?_, fun a ha => ?_⟩
  · have := List.mem_takeWhile_imp ha
    simpa using this
  · have := List.head?_dropWhile_not (fun a => decide (¬ s.Named name a)) addrs
    rw [ha] at this
    simpa using this

/-- The devices in front of a node and behind it. -/
theorem data_split (h : (p ++ a :: q).map s.dataOf = ds.map some) :
    ∃ ds₁ d ds₂, ds = ds₁ ++ d :: ds₂ ∧ p.map s.dataOf = ds₁.map some ∧ s.dataOf a = some d ∧
      q.map s.dataOf = ds₂.map some := by
  rw [List.map_append, List.map_cons] at h
  obtain ⟨ds₁, ds', rfl, hp, hq⟩ := List.map_eq_append_iff.1 h.symm
  obtain ⟨d, ds₂, rfl, hd, hq⟩ := List.map_eq_cons_iff.1 hq
  exact ⟨ds₁, d, ds₂, rfl, hp.symm, hd.symm, hq.symm⟩

/-- No device in front of the first node with the name has it. -/
theorem name_ne_of_data {d : DeviceData} (hp : ∀ a ∈ p, ¬ s.Named name a) (h : p.map s.dataOf = ds.map some)
    (hd : d ∈ ds) : d.name ≠ name := by
  have hmem : some d ∈ p.map s.dataOf := h ▸ List.mem_map_of_mem hd
  obtain ⟨a, ha, hdata⟩ := List.mem_map.1 hmem
  obtain ⟨n, hn, rfl⟩ := Option.map_eq_some_iff.1 hdata
  exact fun hname => hp a ha ⟨n, hn, hname⟩

/-- The device with a name is found, in the first node that has it. -/
theorem Represents.find (h : s.Represents addrs ds) (name : List Char) :
    ∃ a, s.nativeDeviceFind (some name) = .ok a ∧
      ((a = 0 ∧ ∀ d ∈ ds, d.name ≠ name) ∨ ∃ d ∈ ds, d.name = name ∧ s.dataOf a = some d) := by
  obtain ⟨p, q, rfl, hp, hq⟩ := exists_split s name addrs
  have hfuel : p.length < nativeMaxDevices + 1 := by
    have hlen := h.length_eq
    have hbound := h.bound
    rw [List.length_append] at hlen
    omega
  refine ⟨first 0 q, (find_leaves h.chain hp hq).loop_eq hfuel, ?_⟩
  rcases q with - | ⟨a, q⟩
  · refine .inl ⟨rfl, fun d hd => name_ne_of_data hp ?_ hd⟩
    rw [← h.data, List.append_nil]
  · obtain ⟨ds₁, d, ds₂, rfl, -, hd, -⟩ := data_split h.data
    obtain ⟨n, hn, hname⟩ := hq a rfl
    refine .inr ⟨d, List.mem_append_right _ List.mem_cons_self, ?_, hd⟩
    rw [dataOf, hn, Option.map_some, Option.some.injEq] at hd
    rw [← hd, hname]

/-! ## Registering -/

/-- Without a last node, the new one becomes the whole list. -/
theorem register_of_no_tail {dev : FluxDevice} (hroom : s.count < nativeMaxDevices) (haddr : addr ≠ 0)
    (htail : s.tail = 0) : s.nativeDeviceRegister (some dev) addr =
      .ok (.ok, { (s.setNode addr (some { device := dev.afterInit, next := 0 })) with
        head := addr, tail := addr, count := s.count + 1 }) := by
  unfold nativeDeviceRegister
  simp only
  rw [if_neg (Int.not_le.2 hroom), if_neg haddr]
  simp only [setNode, htail, relink, node]
  simp [bind, Except.bind, pure, Except.pure, FluxDevice.afterInit]

/-- The new node is linked behind the last one. -/
theorem register_of_tail {dev : FluxDevice} (hroom : s.count < nativeMaxDevices) (haddr : addr ≠ 0)
    (htail : s.tail ≠ 0) (hn : s.nodes s.tail = some n) (hne : s.tail ≠ addr) :
    s.nativeDeviceRegister (some dev) addr =
      .ok (.ok, { (((s.setNode addr (some { device := dev, next := 0 })).setNode s.tail
          (some { n with next := addr })).setNode addr (some { device := dev.afterInit, next := 0 })) with
        tail := addr, count := s.count + 1 }) := by
  unfold nativeDeviceRegister
  simp only
  rw [if_neg (Int.not_le.2 hroom), if_neg haddr]
  simp only [setNode, relink, node]
  simp [bind, Except.bind, pure, Except.pure, FluxDevice.afterInit, htail, hn, hne, hne.symm]

/-- Registering adds the device at the end, if the last node is known. -/
theorem Represents.register {dev : FluxDevice} (h : s.Represents addrs ds) (hroom : s.count < nativeMaxDevices)
    (haddr : addr ≠ 0) (hfresh : s.nodes addr = none) (hname : dev.initialized.name ∉ ds.map DeviceData.name)
    (htail : s.tail = 0 → s.head = 0) : ∃ s', s.nativeDeviceRegister (some dev) addr = .ok (.ok, s') ∧
      s'.Represents (addrs ++ [addr]) (ds ++ [dev.initialized]) := by
  have hnew : addr ∉ addrs := fun ha => h.mem_nodes ha hfresh
  have hcount : s.count + 1 = ((ds ++ [dev.initialized]).length : Int) := by
    rw [h.count, List.length_append]
    rfl
  have hbound : (ds ++ [dev.initialized]).length ≤ nativeMaxDevices := by
    rw [h.count] at hroom
    rw [List.length_append, List.length_singleton]
    exact Int.ofNat_lt.1 hroom
  have hnames : ((ds ++ [dev.initialized]).map DeviceData.name).Nodup := by
    rw [List.map_append, List.map_singleton]
    exact List.concat_eq_append ▸ h.names.concat hname
  have hnodup : (addrs ++ [addr]).Nodup := List.concat_eq_append ▸ h.nodup.concat hnew
  have hlast : (addrs ++ [addr]).getLast?.getD 0 = addr := by rw [List.getLast?_concat, Option.getD_some]
  rcases List.eq_nil_or_concat addrs with rfl | ⟨k, x, rfl⟩
  · have hzero : s.tail = 0 := h.tail.elim id id
    refine ⟨_, register_of_no_tail hroom haddr hzero, ?_, hnodup, ?_, .inl hlast.symm, hcount, hbound, hnames⟩
    · refine ⟨rfl, haddr, 0, ?_, rfl⟩
      simp [nextOf, setNode]
    · obtain rfl : ds = [] := List.map_eq_nil_iff.1 h.data.symm
      simp [dataOf, setNode, FluxDevice.afterInit]
  · rw [List.concat_eq_append] at *
    have hx : x ∈ k ++ [x] := List.mem_append_right k List.mem_cons_self
    have hhead : s.head ≠ 0 := fun hhead => by simpa using h.chain.eq_null_iff.1 hhead
    have hne : s.tail ≠ 0 := fun hzero => hhead (htail hzero)
    have htail : s.tail = x := by
      have hold := h.tail.resolve_right hne
      rwa [List.getLast?_concat, Option.getD_some] at hold
    obtain ⟨n, hn⟩ := exists_node h.chain hx
    have hxa : x ≠ addr := fun heq => hnew (heq ▸ hx)
    refine ⟨_, register_of_tail hroom haddr hne (htail ▸ hn) (htail ▸ hxa), ?_, hnodup, ?_, .inl hlast.symm,
      hcount, hbound, hnames⟩
    · show Chain 0 (setNode _ addr _).nextOf s.head _
      rw [nextOf_setNode, nextOf_setNode, nextOf_setNode, htail, List.append_assoc]
      have hbase : Chain 0 (Function.update s.nextOf addr (some 0)) s.head (k ++ [x]) :=
        h.chain.congr fun y hy => Function.update_of_ne (fun heq : y = addr => hnew (heq ▸ hy)) _ _
      have hlink : Chain 0 (Function.update s.nextOf addr (some 0)) addr [addr] :=
        ⟨rfl, haddr, 0, Function.update_self .., rfl⟩
      have hk : x ∉ k := (List.nodup_cons.1 (List.nodup_append_comm.1 h.nodup)).1
      refine (hbase.relink hk hlink (by simpa using hxa)).congr fun y _ => ?_
      by_cases hy : y = addr
      · subst hy
        rw [Function.update_self, Function.update_of_ne hxa.symm, Function.update_self]
        rfl
      · exact Function.update_of_ne hy _ _
    · show _ = (ds ++ [dev.initialized]).map some
      rw [List.map_append, List.map_append (f := some), ← h.data]
      congr 1
      · refine List.map_congr_left fun y hy => ?_
        have hya : y ≠ addr := fun heq => hnew (heq ▸ hy)
        show (setNode _ addr _).dataOf y = _
        rw [dataOf_setNode, dataOf_setNode, dataOf_setNode, htail, Function.update_of_ne hya]
        by_cases hyx : y = x
        · subst hyx
          rw [Function.update_self, dataOf, hn]
          rfl
        · rw [Function.update_of_ne hyx, Function.update_of_ne hya]
      · show [(setNode _ addr _).dataOf addr] = _
        rw [dataOf_setNode, Function.update_self]
        rfl

/-- Without a last node, registering loses the devices of the list. -/
theorem register_lost (dev : FluxDevice) (hroom : s.count < nativeMaxDevices) (haddr : addr ≠ 0)
    (htail : s.tail = 0) : ∃ s', s.nativeDeviceRegister (some dev) addr = .ok (.ok, s') ∧
      s'.nativeDeviceList = .ok (s'.count, [dev.initialized]) := by
  refine ⟨_, register_of_no_tail hroom haddr htail, ?_⟩
  have hchain : Chain 0 (s.setNode addr (some { device := dev.afterInit, next := 0 })).nextOf addr [addr] := by
    rw [nextOf_setNode]
    exact ⟨rfl, haddr, 0, Function.update_self .., rfl⟩
  have hdata : [addr].map (s.setNode addr (some { device := dev.afterInit, next := 0 })).dataOf =
      [dev.initialized].map some := by
    rw [dataOf_setNode, List.map_singleton, Function.update_self]
    rfl
  unfold nativeDeviceList
  have hlist : LeavesWithin _ 1 (addr, []) (0, [] ++ [dev.initialized]) :=
    list_leaves (s := { (s.setNode addr (some { device := dev.afterInit, next := 0 })) with
      head := addr, tail := addr, count := s.count + 1 }) hchain hdata
  rw [hlist.loop_eq (Nat.succ_lt_succ (by decide))]
  rfl

/-! ## Unregistering -/

/-- The loop of `native_device_unregister` on the whole list. -/
theorem Represents.unregister_loop (h : s.Represents (p ++ q) ds) (hname : s.nameOf dev = .ok name)
    (hp : ∀ a ∈ p, ¬ s.Named name a) (hq : ∀ a, q.head? = some a → s.Named name a) :
    loop (s.unregisterTurn dev) .diverged (nativeMaxDevices + 1) none = .ok p.getLast? := by
  have hfuel : p.length < nativeMaxDevices + 1 := by
    have hlen := h.length_eq
    have hbound := h.bound
    rw [List.length_append] at hlen
    omega
  exact (unregister_leaves (k := []) hname h.chain hp hq).loop_eq hfuel

theorem Represents.unregister_notFound (h : s.Represents addrs ds) (hdev : dev ≠ .null)
    (hname : s.nameOf dev = .ok name) (hnone : ∀ a ∈ addrs, ¬ s.Named name a) :
    s.nativeDeviceUnregister dev = .ok (.errNotfound, s) := by
  rw [← List.append_nil addrs] at h
  have hloop := h.unregister_loop hname hnone (by simp)
  unfold nativeDeviceUnregister
  rw [if_neg hdev, hloop]
  show (s.follow addrs.getLast? >>= _) = _
  rw [follow_eq h.chain]
  rfl

theorem getLast?_of_rest (hq : q ≠ []) : (p ++ a :: q).getLast? = q.getLast? := by
  rcases q with - | ⟨b, q⟩
  · exact absurd rfl hq
  · rw [List.getLast?_append, List.getLast?_cons_cons, List.getLast?_cons, Option.some_or]

theorem getLast?_append_of_rest (hq : q ≠ []) : (p ++ q).getLast? = q.getLast? := by
  rcases q with - | ⟨b, q⟩
  · exact absurd rfl hq
  · rw [List.getLast?_append, List.getLast?_cons, Option.some_or]

/-- The pointer to a node gets the node behind it. -/
theorem relink_eq (h : Chain 0 s.nextOf s.head (p ++ a :: q)) (hnodup : (p ++ a :: q).Nodup) :
    ∃ s', s.relink p.getLast? (first 0 q) = .ok s' ∧ Chain 0 s'.nextOf s'.head (p ++ q) ∧
      s'.dataOf = s.dataOf ∧ s'.tail = s.tail ∧ s'.count = s.count := by
  rcases List.eq_nil_or_concat p with rfl | ⟨k, x, rfl⟩
  · exact ⟨_, rfl, Chain.rest (k := [a]) h, rfl, rfl, rfl⟩
  · rw [List.concat_eq_append] at *
    rw [List.append_assoc, List.singleton_append] at h hnodup
    obtain ⟨n, hn⟩ := exists_node h (List.mem_append_right k List.mem_cons_self)
    have hrest : Chain 0 s.nextOf (first 0 q) q := Chain.rest (k := k ++ [x, a]) (by simpa using h)
    have hx : x ∉ k ∧ x ∉ q := by
      have hxs := (List.nodup_cons.1 (List.nodup_middle.1 hnodup)).1
      simp only [List.mem_append, List.mem_cons, not_or] at hxs
      exact ⟨hxs.1, hxs.2.2⟩
    refine ⟨s.setNode x (some { n with next := first 0 q }), ?_, ?_, ?_, rfl, rfl⟩
    · rw [List.getLast?_concat]
      show (s.node x >>= _) = _
      rw [node_eq hn]
      rfl
    · rw [nextOf_setNode, List.append_assoc]
      exact h.relink hx.1 hrest hx.2
    · rw [dataOf_setNode]
      refine Function.update_eq_self_iff.2 ?_
      rw [dataOf, hn]
      rfl

/-- Only one of the devices has the name. -/
theorem filter_name_ne {ds₁ ds₂ : List DeviceData} {d : DeviceData}
    (hnames : ((ds₁ ++ d :: ds₂).map DeviceData.name).Nodup) (hname : d.name = name) :
    (ds₁ ++ d :: ds₂).filter (fun d => d.name ≠ name) = ds₁ ++ ds₂ := by
  rw [List.map_append, List.map_cons, List.nodup_middle, List.nodup_cons, ← List.map_append, hname] at hnames
  have hothers : ∀ e ∈ ds₁ ++ ds₂, e.name ≠ name := fun e he heq => hnames.1 (List.mem_map.2 ⟨e, he, heq⟩)
  rw [List.filter_append, List.filter_cons_of_neg (by simpa using hname), ← List.filter_append]
  exact List.filter_eq_self.2 fun e he => decide_eq_true (hothers e he)

/-- The call takes the node out, and the pointer to it gets the node behind it. -/
theorem Represents.unregister_eq (h : s.Represents (p ++ a :: q) ds) (hdev : dev ≠ .null)
    (hname : s.nameOf dev = .ok name) (hp : ∀ a ∈ p, ¬ s.Named name a) (ha : s.Named name a)
    {s₁ : DeviceRegistry} (hrelink : s.relink p.getLast? (first 0 q) = .ok s₁)
    (hchain : Chain 0 s₁.nextOf s₁.head (p ++ q)) : s.nativeDeviceUnregister dev = .ok (.ok,
      { ((if s₁.tail = a then { s₁ with tail := first 0 q } else s₁).setNode a none) with
        count := (if s₁.tail = a then { s₁ with tail := first 0 q } else s₁).count - 1 }) := by
  have hloop := h.unregister_loop hname hp fun b hb => by
    obtain rfl : a = b := Option.some.inj hb
    exact ha
  have hfollow : s.follow p.getLast? = .ok a := follow_eq h.chain
  obtain ⟨n, hn⟩ := exists_node h.chain (List.mem_append_right p List.mem_cons_self)
  have hnext : n.next = first 0 q := by
    have hlink := h.chain.next_eq
    rw [nextOf, hn, Option.map_some] at hlink
    exact Option.some.inj hlink
  unfold nativeDeviceUnregister
  rw [if_neg hdev, hloop]
  show (s.follow p.getLast? >>= _) = _
  rw [hfollow]
  show (if a = 0 then _ else _) = _
  rw [if_neg (first_ne_zero h.chain), node_eq hn]
  show (s.relink p.getLast? n.next >>= _) = _
  rw [hnext, hrelink]
  show (s₁.follow p.getLast? >>= _) = _
  rw [follow_eq hchain]
  rfl

/-- Without the node `a`, the pointer to the last node is still right, or it is lost. -/
theorem Represents.tail_unlinked (h : s.Represents (p ++ a :: q) ds) :
    (if s.tail = a then first 0 q else s.tail) = (p ++ q).getLast?.getD 0 ∨
      (if s.tail = a then first 0 q else s.tail) = 0 := by
  have hmid := List.nodup_cons.1 (List.nodup_middle.1 h.nodup)
  split
  · next heq =>
    -- the last node is the one that goes, so that there is none behind it
    have hlast := h.tail.resolve_right (heq ▸ first_ne_zero h.chain)
    refine .inr ?_
    by_cases hq : q = []
    · rw [hq]
      rfl
    · obtain ⟨b, hb⟩ := Option.ne_none_iff_exists'.1 (mt List.getLast?_eq_none_iff.1 hq)
      rw [heq, getLast?_of_rest hq, hb, Option.getD_some] at hlast
      exact absurd (List.mem_append_right p (List.mem_of_getLast? (hlast ▸ hb))) hmid.1
  · next hother =>
    refine h.tail.imp (fun hlast => ?_) id
    by_cases hq : q = []
    · rw [hq, List.getLast?_concat, Option.getD_some] at hlast
      exact absurd hlast hother
    · rw [hlast, getLast?_of_rest hq, getLast?_append_of_rest hq]

theorem Represents.unregister (h : s.Represents (p ++ a :: q) ds) (hdev : dev ≠ .null)
    (hname : s.nameOf dev = .ok name) (hp : ∀ a ∈ p, ¬ s.Named name a) (ha : s.Named name a) :
    ∃ s', s.nativeDeviceUnregister dev = .ok (.ok, s') ∧
      s'.Represents (p ++ q) (ds.filter fun d => d.name ≠ name) := by
  obtain ⟨ds₁, d, ds₂, rfl, hd₁, hd, hd₂⟩ := data_split h.data
  obtain ⟨s₁, hrelink, hchain, hdata, htail, hcount⟩ := relink_eq h.chain h.nodup
  have hdname : d.name = name := by
    obtain ⟨n, hn, hnamed⟩ := ha
    rw [dataOf, hn, Option.map_some, Option.some.injEq] at hd
    rw [← hd, hnamed]
  have hmid := List.nodup_cons.1 (List.nodup_middle.1 h.nodup)
  have hnames : ((ds₁ ++ ds₂).map DeviceData.name).Nodup :=
    h.names.sublist (((List.sublist_cons_self d ds₂).append_left ds₁).map _)
  have hcall := h.unregister_eq hdev hname hp ha hrelink hchain
  generalize hs₂ : (if s₁.tail = a then { s₁ with tail := first 0 q } else s₁) = s₂ at hcall
  have hnodes : s₂.nodes = s₁.nodes ∧ s₂.head = s₁.head ∧ s₂.count = s₁.count := by
    rw [← hs₂]
    split <;> exact ⟨rfl, rfl, rfl⟩
  have htail₂ : s₂.tail = if s.tail = a then first 0 q else s.tail := by
    rw [← hs₂, ← htail]
    split <;> rfl
  have hnext₂ : s₂.nextOf = s₁.nextOf := funext fun b => by rw [nextOf, nextOf, hnodes.1]
  have hdata₂ : s₂.dataOf = s.dataOf := by
    rw [← hdata]
    exact funext fun b => by rw [dataOf, dataOf, hnodes.1]
  have hgone : ∀ b ∈ p ++ q, b ≠ a := fun b hb heq => hmid.1 (heq ▸ hb)
  rw [filter_name_ne h.names hdname]
  refine ⟨_, hcall, ?_, hmid.2, ?_, ?_, ?_, ?_, hnames⟩
  · show Chain 0 (s₂.setNode a none).nextOf s₂.head _
    rw [nextOf_setNode, hnext₂, hnodes.2.1]
    exact hchain.congr fun b hb => Function.update_of_ne (hgone b hb) _ _
  · show _ = (ds₁ ++ ds₂).map some
    rw [List.map_append (f := some), ← hd₁, ← hd₂, ← List.map_append]
    refine List.map_congr_left fun b hb => ?_
    show (s₂.setNode a none).dataOf b = _
    rw [dataOf_setNode, Function.update_of_ne (hgone b hb), hdata₂]
  · show s₂.tail = _ ∨ s₂.tail = 0
    rw [htail₂]
    exact h.tail_unlinked
  · show s₂.count - 1 = _
    rw [hnodes.2.2, hcount, h.count, List.length_append, List.length_append, List.length_cons]
    omega
  · have hbound := h.bound
    rw [List.length_append, List.length_cons] at hbound
    rw [List.length_append]
    omega

end DeviceRegistry

end FluxOs
