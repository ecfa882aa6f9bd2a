import FluxOs.Agent.Execution

/-!
# Changes of the agent runtime

Every action of the agent runtime is a sequence of changes of one kind.  An invariant of the view is proved
for each change, and what no change of a kind touches is left alone by all actions of that kind.
-/

namespace FluxOs

open Relation Rings Actions AgentRuntime

/-- The CPU account of an agent. -/
def SlotView.usage (slot : SlotView) : CpuUsage :=
  ⟨slot.limits.maxCpuTicks, slot.limits.usedCpuTicks, slot.lastOpCycles, slot.executed⟩

/-- What an agent is from when it is spawned until it is terminated. -/
def SlotView.identity (slot : SlotView) : Bool × UInt32 × Bool := (slot.active, slot.agentId, slot.vmInitialized)

/-- The parts of the runtime that a change is about. -/
inductive ChangeKind
  | mail | lifecycle | capabilities | registry | execution
  deriving DecidableEq

/-- The kind of the changes that an action makes. -/
def AgentAction.kind : AgentAction → ChangeKind
  | .spawn .. | .terminate _ | .pause _ | .resume _ => .lifecycle
  | .grant .. | .revoke .. | .hasCap .. | .transfer .. | .inherit .. => .capabilities
  | .send .. | .recv .. | .recvRound _ | .broadcast .. | .reply .. | .delegate .. | .delegateResult .. => .mail
  | .publish .. | .unpublish .. | .subscribe .. | .unsubscribe .. => .registry
  | .run .. | .step .. | .tick => .execution

namespace AgentView

/-- The delegations of the agents are replaced. -/
def withDelegations (V : AgentView) (d : AgentIdx → List Delegation) : AgentView :=
  { V with slots := fun k => { V.slots k with delegations := d k } }

/-- One change of the view. -/
inductive Change : ChangeKind → AgentView → AgentView → Prop
  | posts {V V' : AgentView} (i : AgentIdx) : V.Communicates i → PostedBy i V V' → Change .mail V V'
  | takes {V V' : AgentView} (i : AgentIdx) (msg : Option A2aMsg) : (V.slots i).active = true →
      Takes V i msg V' → Change .mail V V'
  | delegations {V : AgentView} (d : AgentIdx → List Delegation) : Change .mail V (V.withDelegations d)
  | clears {V : AgentView} (i : AgentIdx) : V.bitmap i = false →
      Change .lifecycle V (V.renewed i AgentSlot.zero.view)
  | spawns {V : AgentView} (i : AgentIdx) (slot : SlotView) (caps : UInt64) : V.bitmap i = false →
      slot.New i caps →
      Change .lifecycle V { V.renewed i slot with bitmap := Function.update V.bitmap i true }
  | terminates {V : AgentView} (i : AgentIdx) (lastOpCycles : UInt64) : (V.slots i).active = true →
      (lastOpCycles = 0 ∨ lastOpCycles = (V.slots i).lastOpCycles) →
      Change .lifecycle V (V.cleaned i lastOpCycles)
  | capabilities {V : AgentView} (c : AgentIdx → UInt64) : Change .capabilities V (V.withCapabilities c)
  | registry {V : AgentView} (topics : List FluxTopic) (pubCaps : Fin fluxPubCapsMax → PublishedCap)
      (numPubCaps : Nat) (caps : AgentIdx → List CapDesc) :
      Change .registry V (V.withRegistry topics pubCaps numPubCaps caps)
  | executes {V : AgentView} (i : AgentIdx) (limits : AgentLimits) (lastOpCycles : UInt64) (executed : Nat) :
      ((V.slots i).usage.Sound →
        CpuUsage.Sound ⟨limits.maxCpuTicks, limits.usedCpuTicks, lastOpCycles, executed⟩) →
      Change .execution V (V.withUsage i limits lastOpCycles executed)

/-- Any number of changes of one kind. -/
def Changes (k : ChangeKind) : AgentView → AgentView → Prop := ReflTransGen (Change k)

variable {V V' W : AgentView} {i : AgentIdx}

/-! ## Mail -/

theorem Communicates.posted (h : V.Communicates i) {k : AgentIdx} (hposted : PostedBy k V V') :
    V'.Communicates i := by
  obtain ⟨hact, hcaps⟩ := hposted.agents i
  rw [Communicates, hact, hcaps]
  exact h

theorem Mailed.changes (h : V.Mailed V') : Changes .mail V V' := by
  cases h with
  | none h =>
    rw [h]
    exact .refl
  | posts i hi hposts =>
    have : Changes .mail V V' ∧ V'.Communicates i := by
      induction hposts with
      | refl => exact ⟨.refl, hi⟩
      | tail _ hposted ih => exact ⟨ih.1.tail (.posts i ih.2 hposted), ih.2.posted hposted⟩
    exact this.1

theorem takes_keeps {msg : Option A2aMsg} {β : Type} {g : SlotView → β} (h : Takes V i msg V')
    (hg : ∀ slot inbox, g { slot with inbox } = g slot) (k : AgentIdx) :
    g (V'.slots k) = g (V.slots k) := by
  have hmodify := modify_keeps (V := V) (i := i) (f := fun slot =>
    { slot with inbox := slot.inbox.takeHead fluxInboxSize none }) g (fun slot => hg slot _) k
  cases h with
  | empty => rfl
  | null => exact hmodify
  | message => exact hmodify

/-- Mail changes nothing of an agent but its inbox and its delegations. -/
theorem Change.mail_keeps {β : Type} {g : SlotView → β} (h : Change .mail V V')
    (hg : ∀ slot inbox delegations, g { slot with inbox, delegations } = g slot) (k : AgentIdx) :
    g (V'.slots k) = g (V.slots k) := by
  cases h with
  | posts j _ hposted =>
    obtain ⟨mem, j, fill, status, id, -, -, hposted⟩ := hposted
    exact hposted.keeps (fun slot inbox => hg slot inbox slot.delegations) k
  | takes j msg _ htakes =>
    exact takes_keeps htakes (fun slot inbox => hg slot inbox slot.delegations) k
  | delegations d => exact hg (V.slots k) (V.slots k).inbox (d k)

/-- The configuration never changes. -/
theorem Change.config_eq {k : ChangeKind} (h : Change k V V') :
    V'.initialized = V.initialized ∧ V'.config = V.config := by
  cases h with
  | posts j _ hposted =>
    obtain ⟨mem, j, fill, status, id, -, -, hposted⟩ := hposted
    cases hposted <;> exact ⟨rfl, rfl⟩
  | takes j msg _ htakes => cases htakes <;> exact ⟨rfl, rfl⟩
  | _ => exact ⟨rfl, rfl⟩

/-- Only spawning and terminating an agent changes the bitmap. -/
theorem Change.bitmap_eq {k : ChangeKind} (h : Change k V V') (hk : k ≠ .lifecycle) : V'.bitmap = V.bitmap := by
  cases h with
  | posts j _ hposted =>
    obtain ⟨mem, j, fill, status, id, -, -, hposted⟩ := hposted
    cases hposted <;> rfl
  | takes j msg _ htakes => cases htakes <;> rfl
  | clears | spawns | terminates => exact absurd rfl hk
  | _ => rfl

/-- Only spawning and terminating an agent changes who is active. -/
theorem Change.identity_eq {k : ChangeKind} (h : Change k V V') (hk : k ≠ .lifecycle) (m : AgentIdx) :
    (V'.slots m).identity = (V.slots m).identity := by
  cases k with
  | mail => exact h.mail_keeps (g := SlotView.identity) (fun _ _ _ => rfl) m
  | lifecycle => exact absurd rfl hk
  | capabilities =>
    cases h
    rfl
  | registry =>
    cases h
    rfl
  | execution =>
    cases h
    exact withUsage_keeps SlotView.identity (fun _ _ _ _ => rfl) m

theorem Changes.active_eq {k : ChangeKind} (h : Changes k V V') (hk : k ≠ .lifecycle) (m : AgentIdx) :
    (V'.slots m).active = (V.slots m).active := by
  induction h with
  | refl => rfl
  | tail _ hchange ih => exact (congrArg Prod.fst (hchange.identity_eq hk m)).trans ih

/-- A change of the delegations of one agent. -/
theorem changes_modify_delegations (i : AgentIdx) (f : List Delegation → List Delegation) :
    Change .mail V (V.modify i fun slot => { slot with delegations := f slot.delegations }) := by
  have : V.modify i (fun slot => { slot with delegations := f slot.delegations }) = V.withDelegations
      (Function.update (fun k => (V.slots k).delegations) i (f (V.slots i).delegations)) := by
    rw [modify, withDelegations]
    congr 1
    funext k
    by_cases hk : k = i
    · subst hk
      simp
    · simp [hk]
  rw [this]
  exact .delegations _

end AgentView

namespace AgentRuntime

open AgentView

variable {rt : AgentRuntime} {V V' : AgentView} {mem : Bool}

/-- Ids stand for the same agents while the same agents are active. -/
theorem slotById_of_active {rt' : AgentRuntime} (h : ∀ k, (rt'.agents k).active = (rt.agents k).active)
    (id : UInt32) : rt'.agentSlotById id = rt.agentSlotById id := by
  unfold agentSlotById
  congr 1
  funext k
  exact h k

theorem Delegates.changes {source target : UInt32} {task : List UInt8} {result : Except FluxStatus UInt32}
    (h : rt.Delegates mem source target task result V) : Changes .mail rt.view V := by
  cases h with
  | refused => exact .refl
  | posted i j status id W hi hj hne hcomm hposted =>
    have hpost : Changes .mail rt.view W :=
      .single (.posts i hcomm ⟨mem, j, _, status, id, active_of_slotById hj,
        builtBy hi hj fun _ => ⟨rfl, rfl, rfl⟩, hposted⟩)
    split_ifs
    · exact hpost.tail (changes_modify_delegations i (· ++ [⟨id, target, true⟩]))
    · exact hpost

theorem Answers.changes {worker id : UInt32} {result : List UInt8} {status : FluxStatus}
    (h : rt.Answers mem worker id result status V) : Changes .mail rt.view V := by
  cases h with
  | refused => exact .refl
  | lost d k => exact .single (changes_modify_delegations d _)
  | posted i d j k status msgId V hi hcomm hfind hj hposted =>
    have hact (m : AgentIdx) : ((rt.view.completed d k).slots m).active = (rt.view.slots m).active :=
      completed_keeps SlotView.active (fun _ _ => rfl) m
    have hcaps : ((rt.view.completed d k).slots i).capabilities = (rt.view.slots i).capabilities :=
      completed_keeps SlotView.capabilities (fun _ _ => rfl) i
    have hcompleted : Change .mail rt.view (rt.view.completed d k) := changes_modify_delegations d _
    refine .head hcompleted (.single (.posts i ⟨?_, ?_⟩ ?_))
    · exact (hact i).trans hcomm.1
    · rw [hcaps]
      exact hcomm.2
    · exact ⟨mem, j, _, status, msgId, (hact j).trans (active_of_slotById hj),
        builtBy hi hj fun _ => ⟨rfl, rfl, rfl⟩, hposted⟩

theorem Received.changes (h : Received V V') : Changes .mail V V' := by
  cases h with
  | none h =>
    rw [h]
    exact .refl
  | takes i msg hact htakes => exact .single (.takes i msg hact htakes)

/-! ## Other kinds -/

theorem Spawns.changes {caps : UInt64} {id : UInt32} (h : Spawns V caps id V') : Changes .lifecycle V V' := by
  cases h with
  | refused => exact .refl
  | noMemory i hfree => exact .single (.clears i hfree)
  | spawned i slot hfree hnew => exact .single (.spawns i slot caps hfree hnew)

theorem Terminates.changes {id : UInt32} {status : FluxStatus} (h : Terminates V id status V') :
    Changes .lifecycle V V' := by
  cases h with
  | refused => exact .refl
  | terminated i lastOpCycles hid hact hlast => exact .single (.terminates i lastOpCycles hact hlast)

theorem CapsChanged.changes (h : CapsChanged V V') : Changes .capabilities V V' := by
  obtain ⟨c, rfl⟩ := h
  exact .single (.capabilities c)

theorem RegistryChanged.changes (h : RegistryChanged V V') : Changes .registry V V' := by
  obtain ⟨topics, pubCaps, numPubCaps, caps, rfl⟩ := h
  exact .single (.registry topics pubCaps numPubCaps caps)

theorem Executed.changes {id : UInt32} {P : AgentIdx → AgentSlot → Prop} (h : Executed rt id P V)
    (hP : ∀ i slot, P i slot → (rt.agents i).usage.Sound → slot.usage.Sound) :
    Changes .execution rt.view V := by
  cases h with
  | refused => exact .refl
  | executed i slot _ hslot _ => exact .single (.executes i _ _ _ (hP i slot hslot))

end AgentRuntime

/-! ## Actions -/

namespace AgentSystem

open AgentView

variable {s t : AgentSystem} {a : AgentAction} {allowed : AgentAction → AgentSystem → Prop}

theorem changes_of_afterExecution {r : Except Fault FluxStatus × AgentRuntime} {id : UInt32}
    {P : AgentIdx → AgentSlot → Prop} (hr : Executed s.rt id P r.2.view)
    (hP : ∀ status i slot, r.1 = .ok status → P i slot → (s.rt.agents i).usage.Sound → slot.usage.Sound)
    (h : s.afterExecution r = some t) : Changes .execution s.rt.view t.rt.view := by
  obtain ⟨result, rt⟩ := r
  cases result with
  | error => cases h
  | ok status =>
    cases h
    exact hr.changes fun i slot => hP status i slot rfl

/-- An action is a sequence of changes of its kind. -/
theorem step_changes (h : step a s = some t) : Changes a.kind s.rt.view t.rt.view := by
  cases a with
  | spawn => cases h; exact fluxAgentSpawn_spawns.changes
  | terminate => cases h; exact fluxAgentTerminate_terminates.changes
  | pause => cases h; exact view_fluxAgentPause ▸ .refl
  | resume => cases h; exact view_fluxAgentResume ▸ .refl
  | grant => cases h; exact fluxAgentGrantCap_changed.changes
  | revoke => cases h; exact fluxAgentRevokeCap_changed.changes
  | hasCap => cases h; exact view_fluxAgentHasCap ▸ .refl
  | transfer => cases h; exact fluxAgentTransferCap_changed.changes
  | inherit => cases h; exact fluxAgentInheritCaps_changed.changes
  | send => cases h; exact fluxA2aSend_mailed.changes
  | recv => cases h; exact fluxA2aRecv_received.changes
  | recvRound =>
    rw [step] at h
    split_ifs at h
    cases h
    exact recvRound_received.changes
  | broadcast => cases h; exact fluxA2aBroadcast_mailed.changes
  | reply => cases h; exact fluxA2aReply_mailed.changes
  | delegate => cases h; exact fluxA2aDelegate_delegates.changes
  | delegateResult => cases h; exact fluxA2aDelegateResult_answers.changes
  | publish => cases h; exact fluxAgentPublishCap_changed.changes
  | unpublish => cases h; exact fluxAgentUnpublishCap_changed.changes
  | subscribe => cases h; exact fluxAgentSubscribe_changed.changes
  | unsubscribe => cases h; exact fluxAgentUnsubscribe_changed.changes
  | run host id maxTicks =>
    obtain ⟨r, hr, hafter⟩ := Option.bind_eq_some_iff.1 h
    refine changes_of_afterExecution (fluxAgentRun_executed hr) ?_ hafter
    rintro status i slot hok ⟨result, hrun, rfl⟩ hsound
    exact (AgentSlot.run_kept hsound hrun).sound status hok
  | step host id =>
    refine changes_of_afterExecution fluxAgentStep_executed ?_ h
    intro status i slot hok hstep hsound
    have hkept := AgentSlot.step_kept host s.rt.agentNow hsound
    rw [hstep] at hkept
    exact hkept.sound status hok
  | tick => cases h; exact .refl

/-- An invariant of all changes holds along a run. -/
theorem invariant_of_changes {I : AgentView → Prop}
    (hI : ∀ k V V', Change k V V' → I V → I V') (h : Reaches step allowed s t) (hs : I s.rt.view) :
    I t.rt.view := by
  refine Reaches.invariant (I := fun u => I u.rt.view) h (fun a u v _ hu hstep => ?_) hs
  have hchanges := step_changes hstep
  generalize v.rt.view = V at hchanges
  induction hchanges with
  | refl => exact hu
  | tail _ hchange ih => exact hI _ _ _ hchange ih

/-- What no change of the kind of an action touches, the action leaves alone. -/
theorem step_keeps {β : Type} {g : AgentView → β} (h : step a s = some t)
    (hg : ∀ V V', Change a.kind V V' → g V' = g V) : g t.rt.view = g s.rt.view := by
  have hchanges := step_changes h
  generalize t.rt.view = V at hchanges
  induction hchanges with
  | refl => rfl
  | tail _ hchange ih => exact (hg _ _ hchange).trans ih

end AgentSystem

end FluxOs
