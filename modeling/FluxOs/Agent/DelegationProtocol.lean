import FluxOs.Agent.AgentIds
import FluxOs.Agent.Atomicity
import FluxOs.Agent.Delegations

/-!
# Answers to delegations

`flux_a2a_delegate_result` finds the delegation by the id of its message.  The entry that it finds says which
agent the task was given to and whether it is complete, but the code reads neither, so that any agent may answer,
and more than once.  Every delegation is answered at most once and by its worker exactly when the callers see to
it (`answeredRightly_iff`).
-/

namespace FluxOs

open Actions AgentRuntime AgentView DelegationRun

/-! ## The answers that are accepted -/

namespace AgentRuntime

/-- `flux_a2a_delegate_result` accepts the result: the worker may send messages, an active agent has an entry with
the id, and there is room for the message. -/
structure MayAnswer (rt : AgentRuntime) (mem : Bool) (worker id : UInt32) (result : List UInt8) : Prop where
  initialized : rt.initialized = true
  payload : result.length ≤ fluxA2aMaxPayload
  worker : ∃ i, rt.agentSlotById worker = some i ∧ rt.holds i fluxCapCommunicate = true
  found : ∃ d k, rt.findDelegation id = some (d, k) ∧ (rt.agents d).inbox.count < fluxInboxSize
  memory : rt.msgPool.freeSlot = none → mem = true

variable {rt : AgentRuntime} {mem : Bool} {worker id : UInt32} {result : List UInt8} {d : AgentIdx} {k : Nat}

theorem mayAnswer_of_ok (hnamed : rt.view.Named)
    (hok : (rt.fluxA2aDelegateResult mem worker id result).1 = .ok) : rt.MayAnswer mem worker id result := by
  unfold fluxA2aDelegateResult at hok
  split at hok
  · cases hok
  rename_i hinit
  split at hok
  · cases hok
  rename_i hpayload
  cases hi : rt.agentSlotById worker with
  | none =>
    rw [hi] at hok
    cases hok
  | some i =>
  rw [hi] at hok
  simp only at hok
  split at hok
  · cases hok
  rename_i hcap
  cases hfind : rt.findDelegation id with
  | none =>
    rw [hfind] at hok
    cases hok
  | some found =>
  obtain ⟨d, k⟩ := found
  have hact := (findDelegation_some hfind).1
  have hd : rt.agentSlotById (rt.agents d).desc.agentId = some d := agentSlotById_eq_some.2 ⟨hnamed d hact, hact⟩
  simp only [hfind, slotById_completeDelegation, hd] at hok
  generalize hfill : resultMsg (rt.completeDelegation d k).agentNow worker (rt.agents d).desc.agentId id result =
    fill at hok
  have hpost : ((rt.completeDelegation d k).post mem d fill).1 = .ok := by
    generalize (rt.completeDelegation d k).post mem d fill = r at hok
    obtain ⟨status, msgId, rt'⟩ := r
    cases status
    case ok => rfl
    all_goals exact hok
  have hroom := mt post_fails_iff.2 (fun hfails => hfails hpost)
  rw [inbox_completeDelegation, pool_completeDelegation, not_or] at hroom
  refine ⟨by simpa using hinit, Nat.le_of_not_lt hpayload, ⟨i, hi, by simpa using hcap⟩, ?_, fun hfree => ?_⟩
  · exact ⟨d, k, hfind, Nat.lt_of_not_le hroom.2⟩
  · simpa [hfree] using hroom.1

theorem MayAnswer.ok (hnamed : rt.view.Named) (h : rt.MayAnswer mem worker id result) :
    (rt.fluxA2aDelegateResult mem worker id result).1 = .ok := by
  obtain ⟨i, hi, hcap⟩ := h.worker
  obtain ⟨d, k, hfind, hroom⟩ := h.found
  have hact := (findDelegation_some hfind).1
  have hd : rt.agentSlotById (rt.agents d).desc.agentId = some d := agentSlotById_eq_some.2 ⟨hnamed d hact, hact⟩
  have hpayload := Nat.not_lt_of_le h.payload
  simp only [fluxA2aDelegateResult, h.initialized, hpayload, hi, hcap, hfind, slotById_completeDelegation, hd,
    Bool.not_true, Bool.false_eq_true, if_false]
  generalize hfill : resultMsg (rt.completeDelegation d k).agentNow worker (rt.agents d).desc.agentId id result =
    fill
  have hpost : ((rt.completeDelegation d k).post mem d fill).1 = .ok := by
    by_contra hfails
    have hlost := post_fails_iff.1 hfails
    rw [inbox_completeDelegation, pool_completeDelegation] at hlost
    obtain ⟨hfree, hmem⟩ | hfull := hlost
    · rw [h.memory hfree] at hmem
      cases hmem
    · exact absurd hfull (Nat.not_le_of_lt hroom)
  generalize (rt.completeDelegation d k).post mem d fill = r at hpost
  obtain ⟨status, msgId, rt'⟩ := r
  obtain rfl : status = .ok := hpost
  rfl

end AgentRuntime

/-! ## The delegations of a run -/

/-- A task that was given to a worker, the agent that its slot held after that many spawns, and the agents that
delivered a result for it. -/
structure Given where
  id : UInt32
  worker : AgentIdx
  born : Nat
  answers : List (AgentIdx × Nat)

/-- A result is delivered. -/
def Given.answer (a : AgentIdx × Nat) (g : Given) : Given := { g with answers := g.answers ++ [a] }

/-- The task was answered at most once, and only by the agent it was given to. -/
def Given.Right (g : Given) : Prop := g.answers.length ≤ 1 ∧ ∀ a ∈ g.answers, a = (g.worker, g.born)

/-- The agent runtime with the history of its delegations, which the source does not record: how often an agent was
spawned in each slot, the tasks that were delegated, and for each entry of an agent's table the number of its
task. -/
structure ProtocolRun where
  sys : AgentSystem
  spawns : AgentIdx → Nat
  given : List Given
  numbers : AgentIdx → List Nat

namespace ProtocolRun

variable (r : ProtocolRun)

/-- A task was given to the agent in slot `j`. -/
def noteDelegated : Except FluxStatus UInt32 → Option AgentIdx → Option AgentIdx → ProtocolRun
  | .ok id, some i, some j => { r with
      given := r.given ++ [⟨id, j, r.spawns j, []⟩]
      numbers := Function.update r.numbers i (r.numbers i ++ [r.given.length]) }
  | _, _, _ => r

/-- The task of entry `k` of agent `d`. -/
def task (d : AgentIdx) (k : Nat) : Option Given := (r.numbers d)[k]?.bind fun n => r.given[n]?

/-- The agent in slot `i` delivered a result for entry `k` of agent `d`. -/
def noteAnswered : FluxStatus → Option AgentIdx → Option (AgentIdx × Nat) → ProtocolRun
  | .ok, some i, some (d, k) => { r with
      given := (r.numbers d)[k]?.elim r.given fun n => r.given.modify n (.answer (i, r.spawns i)) }
  | _, _, _ => r

/-- An agent was spawned with this id. -/
def noteSpawned (id : UInt32) : ProtocolRun :=
  match agentIndexFromId id with
  | some i => { r with
      spawns := Function.update r.spawns i (r.spawns i + 1)
      numbers := Function.update r.numbers i [] }
  | none => r

/-- The history after an action. -/
def note : AgentAction → ProtocolRun
  | .delegate mem source target task => r.noteDelegated (r.sys.rt.fluxA2aDelegate mem source target task).1
      (r.sys.rt.agentSlotById source) (r.sys.rt.agentSlotById target)
  | .delegateResult mem worker id result => r.noteAnswered (r.sys.rt.fluxA2aDelegateResult mem worker id result).1
      (r.sys.rt.agentSlotById worker) (r.sys.rt.findDelegation id)
  | .spawn host mem name model caps bytecode len =>
    r.noteSpawned (r.sys.rt.fluxAgentSpawn host mem name model caps bytecode len).1
  | _ => r

/-- One action. -/
def step (a : AgentAction) (r : ProtocolRun) : Option ProtocolRun :=
  (AgentSystem.step a r.sys).map fun t => { r.note a with sys := t }

/-- The state after `flux_agent_init`. -/
def boot (config : Option AgentConfig) : ProtocolRun := ⟨.boot config, fun _ => 0, [], fun _ => []⟩

/-- Every delegation was answered at most once, and only by its worker. -/
def AnsweredRightly : Prop := ∀ g ∈ r.given, g.Right

/-- A result that is accepted comes from the agent that the entry which is found names as its target, which was not
replaced since, and no result was delivered for the entry before. -/
def Proper (a : AgentAction) (r : ProtocolRun) : Prop := ∀ mem worker id result,
  a = .delegateResult mem worker id result → r.sys.rt.MayAnswer mem worker id result →
  ∀ d k, r.sys.rt.findDelegation id = some (d, k) → ∃ e g, (r.sys.rt.agents d).delegations[k]? = some e ∧
    r.task d k = some g ∧ e.targetAgent = worker ∧ r.spawns g.worker = g.born ∧ g.answers = []

/-! ## The tables -/

variable {r} {r' : ProtocolRun} {given given' : List Given} {V V' : AgentView} {a : AgentAction} {k : AgentIdx}

/-- What an entry says of a task. -/
def keyOf (given : List Given) (n : Nat) : Option (UInt32 × UInt32) :=
  given[n]?.map fun g => (g.id, agentIdOf g.worker)

/-- The entries of an active agent are those of its tasks. -/
def LinkedAt (given : List Given) (slot : Bool × List (UInt32 × UInt32)) (numbers : List Nat) : Prop :=
  slot.1 = true → numbers.map (keyOf given) = slot.2.map some

/-- The tables of all agents are those of their tasks. -/
def Linked (r : ProtocolRun) : Prop := ∀ k, LinkedAt r.given (entries (r.sys.rt.view.slots k)) (r.numbers k)

theorem LinkedAt.extend {slot : Bool × List (UInt32 × UInt32)} {numbers : List Nat}
    (h : LinkedAt given slot numbers) (hkeys : ∀ n x, keyOf given n = some x → keyOf given' n = some x) :
    LinkedAt given' slot numbers := by
  intro hact
  rw [← h hact]
  refine List.map_congr_left fun n hn => ?_
  have hmem : keyOf given n ∈ slot.2.map some := h hact ▸ List.mem_map_of_mem hn
  obtain ⟨x, -, hx⟩ := List.mem_map.1 hmem
  rw [← hx]
  exact hkeys n x hx.symm

theorem keyOf_append {new : List Given} {n : Nat} {x : UInt32 × UInt32} (h : keyOf given n = some x) :
    keyOf (given ++ new) n = some x := by
  obtain ⟨g, hg, rfl⟩ := Option.map_eq_some_iff.1 h
  obtain ⟨hn, -⟩ := List.getElem?_eq_some_iff.1 hg
  rw [keyOf, List.getElem?_append_left hn, hg]
  rfl

theorem keyOf_answer {x : AgentIdx × Nat} (n m : Nat) :
    keyOf (given.modify n (.answer x)) m = keyOf given m := by
  rw [keyOf, keyOf, List.getElem?_modify]
  cases given[m]? with
  | none => rfl
  | some g =>
    refine congrArg some ?_
    dsimp only
    split_ifs <;> rfl

theorem linkedAt_delegate {mem : Bool} {source target : UInt32} {task : List UInt8} (h : r.Linked) :
    LinkedAt (r.noteDelegated (r.sys.rt.fluxA2aDelegate mem source target task).1
        (r.sys.rt.agentSlotById source) (r.sys.rt.agentSlotById target)).given
      (entries ((r.sys.rt.fluxA2aDelegate mem source target task).2.view.slots k))
      ((r.noteDelegated (r.sys.rt.fluxA2aDelegate mem source target task).1
        (r.sys.rt.agentSlotById source) (r.sys.rt.agentSlotById target)).numbers k) := by
  have hdelegates : r.sys.rt.Delegates mem source target task _ _ := fluxA2aDelegate_delegates
  generalize (r.sys.rt.fluxA2aDelegate mem source target task).1 = result at hdelegates ⊢
  generalize (r.sys.rt.fluxA2aDelegate mem source target task).2.view = V at hdelegates ⊢
  cases hdelegates with
  | refused => exact h k
  | posted i j status id V hi hj _ _ hposted =>
    have hkept (m : AgentIdx) : entries (V.slots m) = entries (r.sys.rt.view.slots m) :=
      hposted.keeps (g := entries) (fun _ _ => rfl) m
    rw [hi, hj]
    split_ifs
    · dsimp only [noteDelegated]
      by_cases hk : k = i
      · subst hk
        rw [Function.update_self, tracked, modify_self]
        intro hact
        have hlinked : LinkedAt (r.given ++ [⟨id, j, r.spawns j, []⟩]) _ _ := (h k).extend fun n x => keyOf_append
        rw [← hkept k] at hlinked
        have hlast : keyOf (r.given ++ [⟨id, j, r.spawns j, []⟩]) r.given.length = some (id, agentIdOf j) := by
          rw [keyOf, List.getElem?_concat_length]
          rfl
        rw [List.map_append, hlinked hact, List.map_singleton, hlast, (agentSlotById_eq_some.1 hj).1]
        simp [entries, entryKey]
      · rw [Function.update_of_ne hk, tracked, modify_of_ne hk, hkept k]
        exact (h k).extend fun n x => keyOf_append
    · rw [hkept k]
      exact h k

theorem linkedAt_spawns {caps : UInt64} {id : UInt32} (hspawns : Spawns V caps id V')
    (h : LinkedAt r.given (entries (V.slots k)) (r.numbers k)) :
    LinkedAt (r.noteSpawned id).given (entries (V'.slots k)) ((r.noteSpawned id).numbers k) := by
  have hinvalid : r.noteSpawned fluxAgentIdInvalid = r := rfl
  cases hspawns with
  | refused => exact h
  | noMemory i _ =>
    rw [hinvalid]
    by_cases hk : k = i
    · subst hk
      rw [renewed_self]
      intro hact
      cases hact
    · rwa [renewed_of_ne hk]
  | spawned i slot _ hnew =>
    rw [noteSpawned, agentIndexFromId_agentIdOf]
    dsimp only
    by_cases hk : k = i
    · subst hk
      rw [renewed_self, Function.update_self]
      intro _
      simp [entries, hnew.delegations]
    · rwa [renewed_of_ne hk, Function.update_of_ne hk]

theorem linkedAt_terminates {id : UInt32} {status : FluxStatus} {numbers : List Nat}
    (hterminates : Terminates V id status V') (h : LinkedAt given (entries (V.slots k)) numbers) :
    LinkedAt given (entries (V'.slots k)) numbers := by
  cases hterminates with
  | refused => exact h
  | terminated i lastOpCycles _ _ _ =>
    unfold cleaned
    by_cases hk : k = i
    · subst hk
      dsimp only
      rw [renewed_self]
      intro hact
      cases hact
    · dsimp only
      rwa [renewed_of_ne hk]

theorem linkedAt_answered {status : FluxStatus} {i : Option AgentIdx} {found : Option (AgentIdx × Nat)}
    {slot : Bool × List (UInt32 × UInt32)} (h : LinkedAt r.given slot (r.numbers k)) :
    LinkedAt (r.noteAnswered status i found).given slot ((r.noteAnswered status i found).numbers k) := by
  unfold noteAnswered
  split
  · rename_i d e
    dsimp only
    cases (r.numbers d)[e]? with
    | none => exact h
    | some n => exact h.extend fun m x hx => (keyOf_answer n m).trans hx
  · exact h

/-- Every action keeps the tables. -/
theorem Linked.step (hr : r.Linked) (h : step a r = some r') : r'.Linked := by
  obtain ⟨t, ht, rfl⟩ := Option.map_eq_some_iff.1 h
  intro k
  show LinkedAt (r.note a).given (entries (t.rt.view.slots k)) ((r.note a).numbers k)
  cases a with
  | spawn => cases ht; exact linkedAt_spawns fluxAgentSpawn_spawns (hr k)
  | terminate => cases ht; exact linkedAt_terminates fluxAgentTerminate_terminates (hr k)
  | pause id =>
    cases ht
    show LinkedAt r.given (entries ((r.sys.rt.fluxAgentPause id).2.view.slots k)) (r.numbers k)
    rw [view_fluxAgentPause]
    exact hr k
  | resume id =>
    cases ht
    show LinkedAt r.given (entries ((r.sys.rt.fluxAgentResume id).2.view.slots k)) (r.numbers k)
    rw [view_fluxAgentResume]
    exact hr k
  | delegate => cases ht; exact linkedAt_delegate hr
  | delegateResult =>
    rw [entries_step ht (by simp [AgentAction.kind]) (by simp)]
    exact linkedAt_answered (hr k)
  | _ =>
    rw [entries_step ht (by simp [AgentAction.kind]) (by simp)]
    exact hr k

/-- The task of an entry that is found. -/
theorem Linked.task (h : r.Linked) {d : AgentIdx} {n : Nat} {e : Delegation}
    (hact : (r.sys.rt.agents d).active = true) (he : (r.sys.rt.agents d).delegations[n]? = some e) :
    ∃ m g, (r.numbers d)[n]? = some m ∧ r.given[m]? = some g ∧ e.targetAgent = agentIdOf g.worker := by
  have hget := congrArg (fun l => l[n]?) (h d hact)
  have hkeys : ((entries (r.sys.rt.view.slots d)).2.map some)[n]? = some (some (entryKey e)) := by
    rw [List.getElem?_map, entries, List.getElem?_map]
    exact congrArg (fun o => (o.map entryKey).map some) he
  rw [hkeys, List.getElem?_map] at hget
  obtain ⟨m, hm, hkey⟩ := Option.map_eq_some_iff.1 hget
  obtain ⟨g, hg, heq⟩ := Option.map_eq_some_iff.1 hkey
  exact ⟨m, g, hm, hg, (congrArg Prod.snd heq).symm⟩

/-! ## Answers -/

theorem right_of_none {g : Given} (h : g.answers = []) : g.Right := by
  rw [Given.Right, h]
  exact ⟨Nat.zero_le _, fun _ hmem => absurd hmem List.not_mem_nil⟩

/-- A task is answered rightly if it was not answered before and the answer comes from its worker. -/
theorem right_answer_iff {g : Given} {x : AgentIdx × Nat} :
    (g.answer x).Right ↔ g.answers = [] ∧ x = (g.worker, g.born) := by
  unfold Given.Right Given.answer
  constructor
  · rintro ⟨hlength, hall⟩
    rw [List.length_append, List.length_singleton] at hlength
    exact ⟨List.eq_nil_of_length_eq_zero (by omega), hall x (List.mem_append_right _ List.mem_cons_self)⟩
  · rintro ⟨hnil, rfl⟩
    rw [hnil]
    exact ⟨Nat.le_refl _, fun y hy => List.mem_singleton.1 hy⟩

/-- A property of all tasks after one of them is answered. -/
theorem forall_mem_answered {g : Given} {n : Nat} {x : AgentIdx × Nat} (hg : given[n]? = some g) :
    (∀ h ∈ given.modify n (.answer x), h.Right) ↔ (∀ h ∈ given, h.Right) ∧ (g.answer x).Right := by
  have hget (m : Nat) : (given.modify n (.answer x))[m]? = if n = m then some (g.answer x) else given[m]? := by
    rw [List.getElem?_modify]
    by_cases hm : n = m
    · subst hm
      rw [if_pos rfl, hg]
      simp
    · simp [hm]
  constructor
  · intro hall
    have hone : (g.answer x).Right := hall _ (List.mem_of_getElem? ((hget n).trans (if_pos rfl)))
    refine ⟨fun h hmem => ?_, hone⟩
    obtain ⟨m, hm⟩ := List.mem_iff_getElem?.1 hmem
    by_cases hnm : n = m
    · subst hnm
      rw [hg] at hm
      cases hm
      exact right_of_none (right_answer_iff.1 hone).1
    · exact hall h (List.mem_of_getElem? ((hget m).trans ((if_neg hnm).trans hm)))
  · rintro ⟨hall, hone⟩ h hmem
    obtain ⟨m, hm⟩ := List.mem_iff_getElem?.1 hmem
    rw [hget m] at hm
    split_ifs at hm
    · cases hm
      exact hone
    · exact hall h (List.mem_of_getElem? hm)

theorem answeredRightly_delegated {result : Except FluxStatus UInt32} {i j : Option AgentIdx} :
    (r.noteDelegated result i j).AnsweredRightly ↔ r.AnsweredRightly := by
  unfold noteDelegated
  split
  · simp only [AnsweredRightly, List.forall_mem_append, List.forall_mem_singleton]
    exact and_iff_left (right_of_none rfl)
  · exact Iff.rfl

theorem answeredRightly_spawned {id : UInt32} :
    (r.noteSpawned id).AnsweredRightly ↔ r.AnsweredRightly := by
  unfold noteSpawned
  split <;> exact Iff.rfl

/-- A result that is accepted is one for the entry that is found. -/
theorem answeredRightly_answered (hlinked : r.Linked) (hnamed : r.sys.rt.view.Named) {mem : Bool}
    {worker id : UInt32} {result : List UInt8} :
    (r.note (.delegateResult mem worker id result)).AnsweredRightly ↔
      r.AnsweredRightly ∧ Proper (.delegateResult mem worker id result) r := by
  by_cases hmay : r.sys.rt.MayAnswer mem worker id result
  · have hok := hmay.ok hnamed
    obtain ⟨i, hi, -⟩ := hmay.worker
    obtain ⟨d, k, hfind, -⟩ := hmay.found
    obtain ⟨hact, e, he⟩ := findDelegation_some hfind
    obtain ⟨n, g, hn, hg, htarget⟩ := hlinked.task hact he
    obtain rfl := (agentSlotById_eq_some.1 hi).1
    have htask : r.task d k = some g := by rw [task, hn, Option.bind_some, hg]
    have hnote : (r.note (.delegateResult mem (agentIdOf i) id result)).given =
        r.given.modify n (.answer (i, r.spawns i)) := by
      rw [note, hok, hi, hfind]
      dsimp only [noteAnswered]
      rw [hn]
      rfl
    rw [AnsweredRightly, hnote, forall_mem_answered hg, right_answer_iff]
    refine and_congr_right fun _ => ?_
    constructor
    · rintro ⟨hnone, hworker⟩ mem' worker' id' result' heq - d' k' hfind'
      cases heq
      rw [hfind] at hfind'
      cases hfind'
      obtain ⟨rfl, hborn⟩ := Prod.mk.inj hworker
      exact ⟨e, g, he, htask, htarget, hborn, hnone⟩
    · intro hproper
      obtain ⟨e', g', he', htask', htarget', hborn, hnone⟩ := hproper _ _ _ _ rfl hmay d k hfind
      rw [he] at he'
      rw [htask] at htask'
      cases he'
      cases htask'
      obtain rfl := agentIdOf_inj.1 (htarget.symm.trans htarget')
      exact ⟨hnone, Prod.ext rfl hborn⟩
  · have hnote : r.note (.delegateResult mem worker id result) = r := by
      have hfails : (r.sys.rt.fluxA2aDelegateResult mem worker id result).1 ≠ .ok :=
        fun hok => hmay (mayAnswer_of_ok hnamed hok)
      rw [note]
      unfold noteAnswered
      split
      · rename_i hok _ _
        exact absurd hok hfails
      · rfl
    rw [hnote]
    refine (and_iff_left fun mem' worker' id' result' heq hmay' => ?_).symm
    cases heq
    exact absurd hmay' hmay

/-- What one action does: the delegations are answered rightly after it if they were before it and the action is
proper. -/
theorem answeredRightly_step (hlinked : r.Linked) (hnamed : r.sys.rt.view.Named) (h : step a r = some r') :
    r'.AnsweredRightly ↔ r.AnsweredRightly ∧ Proper a r := by
  obtain ⟨t, -, rfl⟩ := Option.map_eq_some_iff.1 h
  show (r.note a).AnsweredRightly ↔ _
  have hother (hne : ∀ mem worker id result, a ≠ .delegateResult mem worker id result)
      (hsame : (r.note a).AnsweredRightly ↔ r.AnsweredRightly) :
      (r.note a).AnsweredRightly ↔ r.AnsweredRightly ∧ Proper a r :=
    hsame.trans (and_iff_left fun _ _ _ _ heq => absurd heq (hne _ _ _ _)).symm
  cases a with
  | delegateResult => exact answeredRightly_answered hlinked hnamed
  | delegate => exact hother (by simp) answeredRightly_delegated
  | spawn => exact hother (by simp) answeredRightly_spawned
  | _ => exact hother (by simp) Iff.rfl

/-! ## Runs -/

/-- What the results use of a run: the tables are linked, and the state of the runtime is reached. -/
def Started (r : ProtocolRun) : Prop := r.Linked ∧ AgentSystem.Reachable (fun _ _ => True) r.sys

theorem started_boot (config : Option AgentConfig) : (boot config).Started := by
  refine ⟨fun k hact => ?_, config, Reaches.refl _⟩
  cases hact

theorem Started.step (hr : r.Started) (h : step a r = some r') : r'.Started := by
  refine ⟨hr.1.step h, ?_⟩
  obtain ⟨t, ht, rfl⟩ := Option.map_eq_some_iff.1 h
  obtain ⟨config, hrun⟩ := hr.2
  exact ⟨config, hrun.tail trivial ht⟩

/-- Along every run, every delegation is answered at most once and only by its worker, if and only if all actions
of the run are proper. -/
theorem answeredRightly_iff (config : Option AgentConfig) (actions : List AgentAction) :
    HoldsAlong step AnsweredRightly actions (boot config) ↔ MeetsAlong step Proper actions (boot config) := by
  refine holdsAlong_iff (fun _ _ => True) (fun a r r' _ hr hstep => hr.step hstep)
    (fun a r r' _ hr hright hstep => ?_) (fun _ _ _ => trivial) (started_boot config)
    fun g hg => absurd hg List.not_mem_nil
  have hnamed := AgentSystem.named_of_reachable hr.2
  exact (answeredRightly_step hr.1 hnamed hstep).trans (and_iff_right hright)

/-- Agent 1, whose id is 5, delegates a task to agent 2, whose id is 6; agent 3, whose id is 7, answers it twice. -/
def strangerAnswers : List AgentAction :=
  [.spawnBare fluxCapCommunicate, .spawnBare fluxCapCommunicate, .spawnBare fluxCapCommunicate,
    .delegate true 5 6 [], .delegateResult true 7 1 [], .delegateResult true 7 1 []]

theorem strangerAnswers_accepted : ∃ r, execute step strangerAnswers (boot none) = some r ∧
    r.given.map Given.answers = [[(3, 1), (3, 1)]] ∧ ¬r.AnsweredRightly := by
  have hrun : (execute step strangerAnswers (boot none)).map (fun r => r.given.map Given.answers) =
      some [[(3, 1), (3, 1)]] := by decide +kernel
  obtain ⟨r, hr, hanswers⟩ := Option.map_eq_some_iff.1 hrun
  refine ⟨r, hr, hanswers, fun hright => ?_⟩
  have hmem : [((3 : AgentIdx), 1), (3, 1)] ∈ r.given.map Given.answers := hanswers ▸ List.mem_cons_self
  obtain ⟨g, hg, heq⟩ := List.mem_map.1 hmem
  have hlength := (hright g hg).1
  rw [heq] at hlength
  exact absurd hlength (by decide)

end ProtocolRun

end FluxOs
