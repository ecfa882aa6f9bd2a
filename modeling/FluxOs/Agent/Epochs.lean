import FluxOs.Agent.MessagePool

/-!
# Starting and ending the agent runtime

`flux_agent_init` and `flux_agent_shutdown` may be called at any time, also between two sections of a receive that
waits.  A shutdown leaves no agent, no VM and no message behind, so that the next start finds the state that the first
one found.
-/

namespace FluxOs

open Actions Rings Holdings AgentRuntime AgentView

/-! ## Shutdown and init -/

/-- The runtime before the first `flux_agent_init`. -/
def AgentRuntime.zero : AgentRuntime where
  initialized := false
  config := ⟨0, 0, 0⟩
  agents := fun _ => .zero
  agentBitmap := fun _ => false
  msgPool := .zero
  nextMsgId := 0
  topics := []
  pubCaps := fun _ => .zero
  numPubCaps := 0
  tickCounter := 0
  history := ⟨[], 0⟩

/-- `memset` of the pool; the messages on the heap are lost unless they were freed. -/
def MsgPool.wipe (p : MsgPool) : MsgPool := { p with messages := fun _ => .zero, allocated := fun _ => false }

/-- A pool without messages, where `n` messages were on the heap before. -/
def MsgPool.unused (n : Nat) : MsgPool := { MsgPool.zero with heapSerial := n }

namespace AgentRuntime

variable (rt : AgentRuntime)

/-- A turn of the loop of `flux_agent_shutdown`. -/
def endAgent (i : AgentIdx) : AgentRuntime := if (rt.agents i).active then rt.agentSlotCleanup i else rt

/-- The loop of `flux_agent_shutdown`. -/
def endAgents : AgentRuntime := (List.finRange fluxAgentMax).foldl endAgent rt

/-- `flux_agent_shutdown`. -/
def fluxAgentShutdown : AgentRuntime :=
  if !rt.initialized then rt
  else { rt.endAgents with
    agentBitmap := fun _ => false
    topics := []
    numPubCaps := 0
    initialized := false }

/-- The runtime after `flux_agent_init` with a pool whose slots are clear. -/
def started (config : Option AgentConfig) (pool : MsgPool) : AgentRuntime :=
  { fluxAgentInit config with msgPool := pool }

/-- `flux_agent_init` from any state. -/
def fluxAgentRestart (config : Option AgentConfig) : AgentRuntime :=
  started config (if rt.initialized then rt.fluxAgentShutdown else rt).msgPool.wipe

end AgentRuntime

/-- What is called: init, shutdown or any other function of the runtime. -/
inductive EpochAction
  | init (config : Option AgentConfig)
  | shutdown
  | call (a : AgentAction)

namespace AgentSystem

/-- One call.  The receives that wait go on waiting over a shutdown. -/
def epochStep : EpochAction → AgentSystem → Option AgentSystem
  | .init settings, s => some (s.withRt (s.rt.fluxAgentRestart settings))
  | .shutdown, s => some (s.withRt s.rt.fluxAgentShutdown)
  | .call a, s => step a s

/-- The states that are reached by any calls, from before the first `flux_agent_init`. -/
def ReachableOverEpochs (s : AgentSystem) : Prop := Reaches epochStep (fun _ _ => True) ⟨.zero, []⟩ s

end AgentSystem

/-! ## What a slot keeps -/

namespace AgentView

variable {V V' : AgentView}

/-- Agents that are not active have no VM. -/
def Tidy (V : AgentView) : Prop := ∀ i, (V.slots i).active = false → (V.slots i).vmInitialized = false

/-- A slot is replaced by one without an agent or by one with an agent and its VM. -/
theorem Tidy.renew (h : V.Tidy) {i : AgentIdx} (slot : SlotView)
    (hslot : slot.active = false → slot.vmInitialized = false) (hslots : V'.slots = (V.renewed i slot).slots) :
    V'.Tidy := by
  intro k
  rw [hslots]
  exact forall_modify (f := fun _ => slot) (P := fun _ slot => slot.active = false → slot.vmInitialized = false)
    hslot h k

theorem Change.tidy {kind : ChangeKind} (hchange : Change kind V V') (h : V.Tidy) : V'.Tidy := by
  by_cases hkind : kind = .lifecycle
  · subst hkind
    cases hchange with
    | clears i => exact h.renew _ (fun _ => rfl) rfl
    | spawns i slot caps _ hnew => exact h.renew _ (fun hact => absurd (hnew.active.symm.trans hact) (by decide)) rfl
    | terminates i => exact h.renew _ (fun _ => rfl) rfl
  · intro k hk
    have hsame := hchange.identity_eq hkind k
    have hact : (V'.slots k).active = (V.slots k).active := congrArg Prod.fst hsame
    have hvm : (V'.slots k).vmInitialized = (V.slots k).vmInitialized := congrArg (·.2.2) hsame
    rw [hvm]
    exact h k (hact ▸ hk)

end AgentView

/-! ## Shutdown -/

namespace AgentRuntime

variable {rt rt' : AgentRuntime} {i j : AgentIdx}

/-- Nothing is left of the agents and their messages. -/
structure ShutDown (rt : AgentRuntime) : Prop where
  initialized : rt.initialized = false
  active : ∀ i, (rt.agents i).active = false
  vmInitialized : ∀ i, (rt.agents i).vmInitialized = false
  allocated : ∀ ref, rt.msgPool.Allocated ref = false

/-- What holds between any two calls. -/
structure EpochSound (rt : AgentRuntime) : Prop where
  mail : rt.view.MailSound
  tidy : rt.view.Tidy
  inactive : rt.initialized = false → ∀ i, (rt.agents i).active = false

/-- No message is allocated if no agent is active. -/
theorem EpochSound.allocated_eq (h : rt.EpochSound) (hinactive : ∀ i, (rt.agents i).active = false) (ref : MsgRef) :
    rt.msgPool.Allocated ref = false := by
  cases halloc : rt.msgPool.Allocated ref with
  | false => rfl
  | true =>
    obtain ⟨i, hi⟩ := (h.mail.held.alloc_iff ref).1 halloc
    rw [h.mail.inactive i (hinactive i)] at hi
    exact absurd hi List.not_mem_nil

theorem EpochSound.shutDown (h : rt.EpochSound) (hinit : rt.initialized = false) : rt.ShutDown :=
  ⟨hinit, h.inactive hinit, fun i => h.tidy i (h.inactive hinit i), h.allocated_eq (h.inactive hinit)⟩

/-- What the loop of the shutdown keeps, and what it leaves alone. -/
structure Ending (rt rt' : AgentRuntime) : Prop where
  mail : rt'.view.MailSound
  tidy : rt'.view.Tidy
  active : ∀ i, (rt'.agents i).active = true → (rt.agents i).active = true
  heapSerial : rt'.msgPool.heapSerial = rt.msgPool.heapSerial

theorem heapSerial_drainPool (pool : MsgPool) (inbox : RingBuffer (Option MsgRef)) :
    (drainPool pool inbox).heapSerial = pool.heapSerial := by
  unfold drainPool
  generalize inbox.contents fluxInboxSize = refs
  induction refs generalizing pool with
  | nil => rfl
  | cons ref refs ih =>
    rw [List.foldl_cons, ih]
    cases ref with
    | none => rfl
    | some ref => cases ref <;> rfl

theorem view_agentSlotCleanup : (rt.agentSlotCleanup i).view =
    { rt.view.renewed i (cleanSlot (rt.agents i)).view with pool := drainPool rt.msgPool (rt.agents i).inbox } := by
  have hslot : (rt.modifySlot i cleanSlot).view = rt.view.modify i fun _ => (cleanSlot (rt.agents i)).view :=
    view_modifySlot_at
  rw [AgentView.renewed, ← hslot]
  rfl

theorem mailSound_agentSlotCleanup (h : rt.view.MailSound) : (rt.agentSlotCleanup i).view.MailSound := by
  rw [view_agentSlotCleanup]
  refine h.renew (valid_drainInbox _) rfl (fun hact => absurd hact Bool.false_ne_true) (fun _ _ => rfl) ?_
  have hcontents : (rt.agents i).inbox.contents fluxInboxSize = (rt.view.stored i).map some := h.contents i
  rw [drainPool, hcontents]
  exact MsgPool.drops_foldl h.pool (h.held.nodup i) fun r hr => h.allocated hr

/-- A turn of the loop ends its agent, and no other one comes to life. -/
theorem endAgent_ending (hmail : rt.view.MailSound) (htidy : rt.view.Tidy) :
    rt.Ending (rt.endAgent i) ∧ ((rt.endAgent i).agents i).active = false := by
  unfold endAgent
  split
  · have hself : (rt.agentSlotCleanup i).agents i = cleanSlot (rt.agents i) := modifySlot_self
    have hother (k : AgentIdx) (hk : k ≠ i) : (rt.agentSlotCleanup i).agents k = rt.agents k := modifySlot_of_ne hk
    refine ⟨⟨mailSound_agentSlotCleanup hmail, ?_, fun k hk => ?_, heapSerial_drainPool ..⟩, by rw [hself]; rfl⟩
    · exact htidy.renew (cleanSlot (rt.agents i)).view (fun _ => rfl) (by rw [view_agentSlotCleanup])
    · by_cases hki : k = i
      · subst hki
        rw [hself] at hk
        exact absurd hk Bool.false_ne_true
      · rwa [hother k hki] at hk
  · next hact => exact ⟨⟨hmail, htidy, fun _ hk => hk, rfl⟩, by simpa using hact⟩

theorem foldl_endAgent_ending (l : List AgentIdx) (hmail : rt.view.MailSound) (htidy : rt.view.Tidy) :
    rt.Ending (l.foldl endAgent rt) ∧ ∀ i ∈ l, ((l.foldl endAgent rt).agents i).active = false := by
  induction l generalizing rt with
  | nil => exact ⟨⟨hmail, htidy, fun _ hk => hk, rfl⟩, fun _ hi => absurd hi List.not_mem_nil⟩
  | cons j l ih =>
    obtain ⟨hone, hj⟩ := endAgent_ending (i := j) hmail htidy
    obtain ⟨hrest, hl⟩ := ih hone.mail hone.tidy
    rw [List.foldl_cons]
    refine ⟨⟨hrest.mail, hrest.tidy, fun k hk => hone.active k (hrest.active k hk),
      hrest.heapSerial.trans hone.heapSerial⟩, fun i hi => ?_⟩
    rcases List.mem_cons.1 hi with rfl | hi
    · cases hact : ((l.foldl endAgent (rt.endAgent i)).agents i).active with
      | false => rfl
      | true =>
        rw [hrest.active i hact] at hj
        cases hj
    · exact hl i hi

theorem endAgents_ending (hmail : rt.view.MailSound) (htidy : rt.view.Tidy) :
    rt.Ending rt.endAgents ∧ ∀ i, (rt.endAgents.agents i).active = false := by
  unfold endAgents
  obtain ⟨hending, hall⟩ := foldl_endAgent_ending (List.finRange fluxAgentMax) hmail htidy
  exact ⟨hending, fun i => hall i (List.mem_finRange i)⟩

theorem EpochSound.shutdown (h : rt.EpochSound) : rt.fluxAgentShutdown.EpochSound := by
  unfold fluxAgentShutdown
  split
  · exact h
  · obtain ⟨hending, hinactive⟩ := endAgents_ending h.mail h.tidy
    generalize rt.endAgents = rt' at hending hinactive
    refine ⟨?_, hending.tidy, fun _ => hinactive⟩
    exact ⟨hending.mail.pool, hending.mail.valid, hending.mail.contents, hending.mail.held, hending.mail.inactive,
      fun i hact => absurd (hact.symm.trans (hinactive i)) (by decide), hending.mail.order⟩

theorem initialized_shutdown : rt.fluxAgentShutdown.initialized = false := by
  unfold fluxAgentShutdown
  split
  · next hinit => simpa using hinit
  · rfl

theorem heapSerial_shutdown (h : rt.EpochSound) :
    rt.fluxAgentShutdown.msgPool.heapSerial = rt.msgPool.heapSerial := by
  unfold fluxAgentShutdown
  split
  · rfl
  · have hserial := (endAgents_ending h.mail h.tidy).1.heapSerial
    generalize rt.endAgents = rt' at hserial
    exact hserial

/-! ## Init -/

/-- A pool without allocated messages is the pool of the first start, but for the number of the next message on the
heap. -/
theorem wipe_of_shutDown (hvalid : rt.msgPool.Valid) (h : rt.ShutDown) :
    rt.msgPool.wipe = .unused rt.msgPool.heapSerial := by
  have hheap : rt.msgPool.heap = fun _ => none := by
    funext n
    have hfree : (rt.msgPool.heap n).isSome = false := h.allocated (.heap n)
    simpa using hfree
  unfold MsgPool.wipe MsgPool.unused
  rw [hheap, hvalid.doubleFree]
  rfl

/-- Every start finds the state of the first one. -/
theorem EpochSound.restart_eq (h : rt.EpochSound) (config : Option AgentConfig) :
    rt.fluxAgentRestart config = started config (.unused rt.msgPool.heapSerial) := by
  unfold fluxAgentRestart
  by_cases hinit : rt.initialized = true
  · rw [if_pos hinit, wipe_of_shutDown h.shutdown.mail.pool (h.shutdown.shutDown initialized_shutdown),
      heapSerial_shutdown h]
  · rw [if_neg hinit, wipe_of_shutDown h.mail.pool (h.shutDown (by simpa using hinit))]

theorem epochSound_started (config : Option AgentConfig) (n : Nat) : (started config (.unused n)).EpochSound := by
  have hboot := mailSound_init config
  refine ⟨⟨⟨rfl, fun _ _ => rfl⟩, hboot.valid, hboot.contents, ?_, hboot.inactive, hboot.bitmap, hboot.order⟩,
    fun _ _ => rfl, fun _ _ => rfl⟩
  exact HeldOnce.empty fun ref => by cases ref <;> exact Bool.false_ne_true

end AgentRuntime

/-! ## Runs -/

namespace AgentSystem

variable {s t : AgentSystem} {a : AgentAction}

/-- No agent comes to life while the runtime is shut down. -/
theorem inactive_of_step (h : step a s = some t) (hinit : s.rt.initialized = false)
    (hinactive : ∀ i, (s.rt.agents i).active = false) (i : AgentIdx) : (t.rt.agents i).active = false := by
  by_cases hkind : a.kind = .lifecycle
  · have hrt : t.rt = s.rt := by
      cases a with
      | spawn =>
        cases h
        show (s.rt.fluxAgentSpawn _ _ _ _ _ _ _).2 = _
        rw [fluxAgentSpawn, hinit]
        rfl
      | terminate =>
        cases h
        show (s.rt.fluxAgentTerminate _).2 = _
        rw [fluxAgentTerminate, hinit]
        rfl
      | pause =>
        cases h
        show (s.rt.fluxAgentPause _).2 = _
        rw [fluxAgentPause, hinit]
        rfl
      | resume =>
        cases h
        show (s.rt.fluxAgentResume _).2 = _
        rw [fluxAgentResume, hinit]
        rfl
      | _ => cases hkind
    rw [hrt]
    exact hinactive i
  · exact ((step_changes h).active_eq hkind i).trans (hinactive i)

/-- Any call but init and shutdown. -/
theorem epochSound_of_call (h : step a s = some t) (hs : s.rt.EpochSound) : t.rt.EpochSound := by
  have hrun : Reaches step (fun _ _ => True) s t := (Reaches.refl s).tail trivial h
  refine ⟨?_, ?_, fun hinit => ?_⟩
  · exact invariant_of_changes (fun _ _ _ hchange hV => hchange.mailSound hV) hrun hs.mail
  · exact invariant_of_changes (fun _ _ _ hchange hV => hchange.tidy hV) hrun hs.tidy
  · have hsame : t.rt.view.initialized = s.rt.view.initialized :=
      step_keeps h fun _ _ hchange => hchange.config_eq.1
    exact inactive_of_step h (hsame.symm.trans hinit) (hs.inactive (hsame.symm.trans hinit))

theorem epochSound_zero : AgentRuntime.zero.EpochSound := by
  have hboot := mailSound_init none
  refine ⟨⟨hboot.pool, hboot.valid, hboot.contents, hboot.held, hboot.inactive, ?_, hboot.order⟩, fun _ _ => rfl,
    fun _ _ => rfl⟩
  exact fun i hact => absurd hact Bool.false_ne_true

theorem epochSound_of_reachable (h : s.ReachableOverEpochs) : s.rt.EpochSound := by
  refine Reaches.invariant (I := fun s => s.rt.EpochSound) h (fun a s t _ hs hstep => ?_) epochSound_zero
  cases a with
  | init settings =>
    cases hstep
    show (s.rt.fluxAgentRestart settings).EpochSound
    rw [hs.restart_eq]
    exact epochSound_started settings _
  | shutdown =>
    cases hstep
    exact hs.shutdown
  | call a => exact epochSound_of_call hstep hs

/-- A receive that waits gives up at its next look into the inbox. -/
theorem recvRetry_of_shutDown {rt : AgentRuntime} (h : rt.ShutDown) (r : A2aReceive) :
    rt.recvRetry r = (.done .errNotfound none, rt) := by
  have hnone : rt.agentSlotById r.agentId = none := by
    cases hid : rt.agentSlotById r.agentId with
    | none => rfl
    | some i => exact absurd ((agentSlotById_eq_some.1 hid).2.symm.trans (h.active i)) (by decide)
  rw [recvRetry, hnone]

/-- In every state that is reached by any calls of init, shutdown and the other functions, the allocated messages are
those in the inboxes of active agents, each in one of them, and none was freed twice.  While the runtime is shut down,
and so after every shutdown, no agent, no VM and no message is left, and receives that wait give up.  Every init leads
to the state of the first one. -/
theorem epochs_exact (h : s.ReachableOverEpochs) :
    s.rt.PoolExact ∧ (s.rt.initialized = false → s.rt.ShutDown ∧
      ∀ r, s.rt.recvRetry r = (.done .errNotfound none, s.rt)) ∧ s.rt.fluxAgentShutdown.ShutDown ∧
      ∀ config, s.rt.fluxAgentRestart config = started config (.unused s.rt.msgPool.heapSerial) := by
  have hsound := epochSound_of_reachable h
  refine ⟨poolExact_of_mailSound hsound.mail, fun hinit => ?_, hsound.shutdown.shutDown initialized_shutdown,
    hsound.restart_eq⟩
  exact ⟨hsound.shutDown hinit, recvRetry_of_shutDown (hsound.shutDown hinit)⟩

/-- A message waits in an inbox when the runtime is shut down. -/
theorem epochs_exact_send :
    (((((AgentRuntime.zero.fluxAgentRestart none).withBare fluxCapCommunicate).withBare 0).fluxA2aSend
    true (agentIdOf 1) (agentIdOf 2) .tell [7]).2.fluxAgentShutdown).ShutDown := by
  have hboot : Reaches epochStep (fun _ _ => True) ⟨.zero, []⟩ _ := Reaches.refl _
  have hstart := hboot.tail (a := .init none) trivial rfl
  have hone := hstart.tail (a := .call (.spawnBare fluxCapCommunicate)) trivial rfl
  have htwo := hone.tail (a := .call (.spawnBare 0)) trivial rfl
  have hsent := htwo.tail (a := .call (.send true (agentIdOf 1) (agentIdOf 2) .tell [7])) trivial rfl
  have hexact := epochs_exact (show ReachableOverEpochs _ from hsent)
  simpa only [AgentSystem.withRt, AgentRuntime.withBare] using hexact.2.2.1

end AgentSystem
end FluxOs
