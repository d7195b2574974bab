import Spaces.Supervisor.AgentReference

/-!
# What the state file counts

The file counts the clients that hold the agent it names: a client that holds the
lock is the only one that changes the file, and every other client is in a phase that
says nothing about it. An agent that is live and held is the one the file names,
because only a record that is not live is replaced, and an agent that is not live
never is again.

All this holds in every run. Whom a signal reaches is another matter: `terminate_agent`
and `stop_agent` signal a group by its number, and do not ask, as an acquire does,
whether the number is still the agent's. `OwnGroup` is the condition that it is.
-/

namespace Spaces.Supervisor

open Spaces.Library

variable {ι : Type} [Fintype ι]

/-- The process leads the group of its number. -/
def Leads (table : ProcessTable) (agent : Identity) : Prop :=
  table agent.1 = some ⟨agent.2, true⟩

theorem agentStateIsLive_iff {table : ProcessTable} {state : AgentState} :
    agentStateIsLive table state = true ↔
      1 < state.pid ∧ 0 < state.references ∧ Leads table state.identity := by
  unfold agentStateIsLive getpgid processStartTime groupExists Leads AgentState.identity
  rcases table state.pid with _ | ⟨startTime, _ | _⟩
  · simp
  · by_cases hpid : 1 < state.pid <;> simp
  · by_cases hpid : 1 < state.pid
    · simp [hpid, Int.not_le.mpr hpid]
    · simp [hpid]

/-! ## The invariant -/

/-- What a client knows in its phase. -/
def Sound (s : Session ι) (p : Client) : Prop :=
  match p.phase with
  | .idle | .acquired =>
      p.reference.starting = false ∧ (p.reference.held = true → p.identity ∈ s.agents)
  | .releaseLock | .releaseRead =>
      p.reference.starting = false ∧ p.reference.held = true ∧ p.identity ∈ s.agents
  | .acquireLock | .acquireRead => p.reference.held = false
  | .acquireStart => p.reference.held = false ∧ s.file.references = 0
  | .starting _ => p.identity ∈ s.agents ∧ Leads s.table p.identity ∧
      s.holders p.identity = 0 ∧ s.file.references = 0
  | .stopping _ => p.identity ∈ s.agents ∧ ¬Leads s.table p.identity ∧
      s.holders p.identity = 0 ∧ s.file.references = 0
  | .terminating | .polling _ | .killing =>
      p.identity ∈ s.agents ∧ s.holders p.identity = 0
  | .released => True

structure Inv (s : Session ι) : Prop where
  locked : ∀ q, (s.client q).phase.locked = true ↔ s.lock = some q
  clients : ∀ q, Sound s (s.client q)
  agents_used : ∀ agent ∈ s.agents, agent ∈ s.used
  agents_pid : ∀ agent ∈ s.agents, 1 < agent.1
  table_used : ∀ pid group, s.table pid = some group → (pid, group.startTime) ∈ s.used
  file_agents : 0 < s.file.references → s.file.identity ∈ s.agents
  recorded : 0 < s.file.references → s.file.references = s.holders s.file.identity
  live : ∀ agent, Leads s.table agent → 0 < s.holders agent →
    s.file.identity = agent ∧ 0 < s.file.references

/-- What an unlocked client knows is about the agents only. -/
theorem Sound.of_unlocked {s s' : Session ι} {p : Client} (h : Sound s p)
    (hunlocked : p.phase.locked = false) (hagents : ∀ a ∈ s.agents, a ∈ s'.agents) :
    Sound s' p := by
  unfold Sound at h ⊢
  cases hphase : p.phase <;> simp only [hphase, Phase.locked, reduceCtorEq] at h hunlocked ⊢
  · exact ⟨h.1, fun hheld => hagents _ (h.2 hheld)⟩
  · exact h
  · exact ⟨h.1, h.2.1, hagents _ h.2.2⟩

theorem Sound.holder {s : Session ι} {p : Client} {agent : Identity} (h : Sound s p)
    (hholds : p.Holds agent) : agent ∈ s.agents := by
  obtain ⟨hheld, -, hkeeps, rfl⟩ := hholds
  unfold Sound at h
  cases hphase : p.phase <;> simp only [hphase, Phase.keeps, reduceCtorEq] at h hkeeps
  · exact h.2 hheld
  · exact h.2 hheld
  · exact h.2.2
  · exact h.2.2

/-! ## Counting -/

theorem not_holds_of_phase {p : Client} (h : p.phase.keeps = false) (agent : Identity) :
    ¬p.Holds agent := fun hholds => by
  rw [hholds.2.2.1] at h
  cases h

theorem not_holds_of_held {p : Client} (h : p.reference.held = false) (agent : Identity) :
    ¬p.Holds agent := fun hholds => by
  rw [hholds.1] at h
  cases h

section

variable {s s' : Session ι} {q : ι} {agent : Identity}

theorem holders_eq (agent : Identity) (hothers : ∀ r, r ≠ q → s'.client r = s.client r)
    (hq : (s'.client q).Holds agent ↔ (s.client q).Holds agent) :
    s'.holders agent = s.holders agent := by
  refine countOf_congr fun r => ?_
  rcases eq_or_ne r q with rfl | hr
  · exact hq
  · rw [hothers r hr]

end

section

variable [DecidableEq ι] {s : Session ι} {q : ι}

omit [Fintype ι] in
@[simp] theorem set_client_self (p : Client) : (s.set q p).client q = p :=
  Function.update_self ..

omit [Fintype ι] in
theorem set_client_of_ne (p : Client) {r : ι} (hr : r ≠ q) :
    (s.set q p).client r = s.client r := Function.update_of_ne hr ..

variable {agent : Identity}

theorem holders_set {p : Client} (h : p.Holds agent ↔ (s.client q).Holds agent) :
    (s.set q p).holders agent = s.holders agent :=
  holders_eq agent (fun r hr => set_client_of_ne p hr) (by rw [set_client_self]; exact h)

theorem holders_set_gain {p : Client} (hq : ¬(s.client q).Holds agent) (hp : p.Holds agent) :
    (s.set q p).holders agent = s.holders agent + 1 :=
  countOf_add_one hq (by rw [set_client_self]; exact hp)
    fun r hr => by rw [set_client_of_ne p hr]

theorem holders_set_lose {p : Client} (hq : (s.client q).Holds agent) (hp : ¬p.Holds agent) :
    s.holders agent = (s.set q p).holders agent + 1 :=
  countOf_add_one (by rw [set_client_self]; exact hp) hq
    fun r hr => by rw [set_client_of_ne p hr]

/-- A client that comes to hold nothing gives up what it held, and nothing else. -/
theorem holders_toPhase {phase : Phase} (hkeeps : phase.keeps = false) {held : Identity}
    (hholds : ∀ agent, (s.client q).Holds agent ↔ held = agent) (agent : Identity) :
    s.holders agent = (s.toPhase q phase).holders agent + if held = agent then 1 else 0 := by
  split
  · next heq => exact holders_set_lose ((hholds agent).mpr heq) (not_holds_of_phase hkeeps agent)
  · next hne =>
      exact (holders_set (iff_of_false (not_holds_of_phase hkeeps agent)
        fun hold => hne ((hholds agent).mp hold))).symm

end

namespace Inv

variable {s s' : Session ι} {q : ι}

theorem holder_agents (h : Inv s) {agent : Identity} (hpos : 0 < s.holders agent) :
    agent ∈ s.agents := by
  obtain ⟨r, hr⟩ := countOf_pos_iff.mp hpos
  exact (h.clients r).holder hr

/-- No other client is locked beside one that is. -/
theorem unlocked_of_ne (h : Inv s) (hq : (s.client q).phase.locked = true) {r : ι}
    (hr : r ≠ q) : (s.client r).phase.locked = false := by
  rw [Bool.eq_false_iff]
  intro hlocked
  have hq' := (h.locked q).mp hq
  rw [(h.locked r).mp hlocked] at hq'
  exact hr (Option.some.inj hq')

/-- A step of the kernel by which no process that was there before comes back, and
no child that is waited for goes. -/
theorem of_table {table : ProcessTable} {used : List Identity} (h : Inv s)
    (hsub : ∀ a ∈ s.used, a ∈ used)
    (hused : ∀ pid group, table pid = some group → (pid, group.startTime) ∈ used)
    (hleads : ∀ agent ∈ s.used, Leads table agent → Leads s.table agent)
    (hawaited : ∀ pid, s.Awaited pid → table pid = s.table pid) :
    Inv { s with table, used } where
  locked := h.locked
  clients r := by
    have hsound := h.clients r
    unfold Sound at hsound ⊢
    cases hphase : (s.client r).phase <;> simp only [hphase] at hsound ⊢ <;> try exact hsound
    · refine ⟨hsound.1, ?_, hsound.2.2⟩
      have hpid : (s.client r).identity.1 = (s.client r).reference.pid := by
        simp [Client.identity, hphase]
      unfold Leads
      rw [hawaited _ ⟨r, by simp [hphase, Phase.awaits], hpid.symm⟩]
      exact hsound.2.1
    · exact ⟨hsound.1, fun hled =>
        hsound.2.1 (hleads _ (h.agents_used _ hsound.1) hled), hsound.2.2⟩
  agents_used a ha := hsub a (h.agents_used a ha)
  agents_pid := h.agents_pid
  table_used := hused
  file_agents := h.file_agents
  recorded := h.recorded
  live agent hled hpos :=
    h.live agent (hleads agent (h.agents_used _ (h.holder_agents hpos)) hled) hpos

/-- The lock after a step of the client that has it. -/
theorem locked_of_locked (h : Inv s) (hq : (s.client q).phase.locked = true)
    (hothers : ∀ r, r ≠ q → s'.client r = s.client r)
    (hlock : s'.lock = if (s'.client q).phase.locked then some q else none) :
    ∀ r, (s'.client r).phase.locked = true ↔ s'.lock = some r := by
  intro r
  rw [hlock]
  rcases eq_or_ne r q with rfl | hr
  · split <;> simp_all
  · rw [hothers r hr, h.unlocked_of_ne hq hr]
    split <;> simp [hr.symm]

/-- A step of the client that has the lock. What the others know stays true, and
what is left to show is about the step's own client and the file. -/
theorem of_locked (h : Inv s) (hq : (s.client q).phase.locked = true)
    (hothers : ∀ r, r ≠ q → s'.client r = s.client r)
    (hlock : s'.lock = if (s'.client q).phase.locked then some q else none)
    (hagents : ∀ a ∈ s.agents, a ∈ s'.agents) (hclient : Sound s' (s'.client q))
    (hused : ∀ a ∈ s'.agents, a ∈ s'.used) (hpid : ∀ a ∈ s'.agents, 1 < a.1)
    (htable : ∀ pid group, s'.table pid = some group → (pid, group.startTime) ∈ s'.used)
    (hfile : 0 < s'.file.references → s'.file.identity ∈ s'.agents ∧
      s'.file.references = s'.holders s'.file.identity)
    (hlive : ∀ agent, Leads s'.table agent → 0 < s'.holders agent →
      s'.file.identity = agent ∧ 0 < s'.file.references) : Inv s' where
  locked := h.locked_of_locked hq hothers hlock
  clients r := by
    rcases eq_or_ne r q with rfl | hr
    · exact hclient
    · rw [hothers r hr]
      exact (h.clients r).of_unlocked (h.unlocked_of_ne hq hr) hagents
  agents_used := hused
  agents_pid := hpid
  table_used := htable
  file_agents hpos := (hfile hpos).1
  recorded hpos := (hfile hpos).2
  live := hlive

variable [DecidableEq ι]

/-- A step of one client by which neither the file, the processes nor who holds what
is changed. -/
theorem of_phase (h : Inv s) (p : Client) (lock : Option ι) (signals : List Signal)
    (hlocked : ∀ r, ((s.set q p).client r).phase.locked = true ↔ lock = some r)
    (hholds : ∀ agent, p.Holds agent ↔ (s.client q).Holds agent) (hclient : Sound s p) :
    Inv { s.set q p with lock, signals } := by
  have hholders : ∀ agent, (s.set q p).holders agent = s.holders agent :=
    fun agent => holders_set (hholds agent)
  constructor
  · exact hlocked
  · intro r
    have hsound : Sound s ((s.set q p).client r) := by
      rcases eq_or_ne r q with rfl | hr
      · rw [set_client_self]
        exact hclient
      · rw [set_client_of_ne p hr]
        exact h.clients r
    unfold Sound at hsound ⊢
    simp only [← hholders] at hsound
    exact hsound
  · exact h.agents_used
  · exact h.agents_pid
  · exact h.table_used
  · exact h.file_agents
  · intro hpos
    exact (h.recorded hpos).trans (hholders _).symm
  · intro agent hled hpos
    exact h.live agent hled (hholders agent ▸ hpos)

/-- The lock after a step by which nobody takes it or gives it back. -/
theorem locked_of_eq (h : Inv s) {p : Client} (hp : p.phase.locked = (s.client q).phase.locked) :
    ∀ r, ((s.set q p).client r).phase.locked = true ↔ s.lock = some r := by
  intro r
  rcases eq_or_ne r q with rfl | hr
  · rw [set_client_self, hp]
    exact h.locked r
  · rw [set_client_of_ne p hr]
    exact h.locked r

theorem locked_of_none (h : Inv s) (hlock : s.lock = none) {p : Client}
    (hp : p.phase.locked = true) :
    ∀ r, ((s.set q p).client r).phase.locked = true ↔ some q = some r := by
  intro r
  rcases eq_or_ne r q with rfl | hr
  · rw [set_client_self, hp]
    simp
  · rw [set_client_of_ne p hr, h.locked r, hlock]
    simp [hr.symm]

theorem unlocked_of_locked (h : Inv s) (hq : (s.client q).phase.locked = true) {p : Client}
    (hp : p.phase.locked = false) :
    ∀ r, ((s.set q p).client r).phase.locked = true ↔ (none : Option ι) = some r := by
  intro r
  rcases eq_or_ne r q with rfl | hr
  · rw [set_client_self, hp]
    simp
  · rw [set_client_of_ne p hr, h.unlocked_of_ne hq hr]
    simp

end Inv

/-! ## The steps keep it -/

omit [Fintype ι] in
theorem leads_make {s : Session ι} {process agent : Identity}
    (hled : Leads (s.make process).table agent) :
    agent = process ∨ Leads s.table agent := by
  simp only [Leads, Session.make, Function.update_apply] at hled
  split at hled
  · next heq =>
      injection hled with hled
      injection hled with hstart
      exact .inl (Prod.ext heq hstart.symm)
  · exact .inr hled

section

variable {s : Session ι}

/-- A fresh process is nobody's agent yet. -/
theorem not_held_of_fresh (h : Inv s) {child : Identity} (hfresh : s.Fresh child) :
    s.holders child = 0 := by
  by_contra hne
  exact hfresh.2.2 (h.agents_used _ (h.holder_agents (Nat.pos_of_ne_zero hne)))

theorem make_table_used (h : Inv s) (process : Identity) (pid : Int) (group : Group)
    (hgroup : (s.make process).table pid = some group) :
    (pid, group.startTime) ∈ (s.make process).used := by
  simp only [Session.make, Function.update_apply] at hgroup ⊢
  split at hgroup
  · next heq =>
      cases hgroup
      rw [heq]
      exact List.mem_cons_self
  · exact List.mem_cons_of_mem _ (h.table_used pid group hgroup)

theorem Session.Starts.inv (h : s.Starts) : Inv s := by
  have hnone : ∀ agent, s.holders agent = 0 := fun agent => countOf_eq_zero_iff.mpr fun q => by
    rw [h.client]
    exact not_holds_of_held rfl agent
  constructor
  · intro q
    rw [h.client, h.lock]
    simp [Phase.locked]
  · intro q
    rw [h.client]
    exact ⟨rfl, fun hheld => by cases hheld⟩
  · rw [h.agents]
    exact fun a ha => absurd ha List.not_mem_nil
  · rw [h.agents]
    exact fun a ha => absurd ha List.not_mem_nil
  · exact h.table_used
  · rw [h.file]
    exact fun hpos => absurd hpos (Nat.lt_irrefl 0)
  · rw [h.file]
    exact fun hpos => absurd hpos (Nat.lt_irrefl 0)
  · intro agent _ hpos
    rw [hnone] at hpos
    omega

theorem appear_inv (h : Inv s) (process : Identity) : Inv (appear s process) := by
  unfold appear
  split
  · next hfresh =>
      refine h.of_table (fun a => List.mem_cons_of_mem process) (make_table_used h process) ?_ ?_
      · intro agent hused hled
        rcases leads_make hled with rfl | hled
        · exact absurd hused hfresh.2.2
        · exact hled
      · rintro pid ⟨r, hr, rfl⟩
        refine Function.update_of_ne (fun heq => ?_) ..
        -- A child that is waited for has its number still.
        have hsound := h.clients r
        cases hphase : (s.client r).phase <;> simp only [hphase, Phase.awaits, reduceCtorEq] at hr
        unfold Sound at hsound
        simp only [hphase, Client.identity] at hsound
        have hled : s.table (s.client r).reference.pid = _ := hsound.2.1
        rw [heq, hfresh.2.1] at hled
        cases hled
  · exact h

/-- A group that is changed in its place and led no more. -/
theorem update_inv (h : Inv s) {pid : Int} (hpid : ¬s.Awaited pid) {group : Option Group}
    (hled : ∀ startTime, group ≠ some ⟨startTime, true⟩)
    (hused : ∀ g, group = some g → (pid, g.startTime) ∈ s.used) :
    Inv { s with table := Function.update s.table pid group } := by
  refine h.of_table (fun a ha => ha) ?_ ?_ ?_
  · intro other g hg
    rw [Function.update_apply] at hg
    split at hg
    · next heq => exact heq ▸ hused g hg
    · exact h.table_used other g hg
  · intro agent _ hagent
    simp only [Leads, Function.update_apply] at hagent
    split at hagent
    · exact absurd hagent (hled _)
    · exact hagent
  · intro other hother
    refine Function.update_of_ne (fun heq => hpid ?_) ..
    rwa [heq] at hother

theorem orphan_inv (h : Inv s) (pid : Int) : Inv (orphan s pid) := by
  unfold orphan
  split
  · exact h
  · next hpid =>
      split
      · next startTime led hgroup =>
          exact update_inv h hpid (fun _ heq => by cases heq)
            (fun g hg => by cases hg; exact h.table_used pid ⟨startTime, led⟩ hgroup)
      · exact h

theorem vanish_inv (h : Inv s) (pid : Int) : Inv (vanish s pid) := by
  unfold vanish
  split
  · exact h
  · next hpid => exact update_inv h hpid (fun _ heq => by cases heq) (fun _ hg => by cases hg)

variable [DecidableEq ι] {q : ι}

theorem call_inv (h : Inv s) (operation : Operation) : Inv (call s q operation) := by
  have hsound := h.clients q
  cases operation with
  | acquire =>
      rw [call]
      split
      · next hcall =>
          obtain ⟨hphase, hheld⟩ := hcall
          exact h.of_phase ⟨.acquireLock, (s.client q).reference⟩ s.lock s.signals
            (h.locked_of_eq (by rw [hphase]; rfl))
            (fun agent => iff_of_false (not_holds_of_phase rfl agent)
              (not_holds_of_held hheld agent)) hheld
      · exact h
  | release =>
      rw [call]
      split
      · next hcall =>
          obtain ⟨hphase, hheld, -⟩ := hcall
          unfold Sound at hsound
          simp only [hphase] at hsound
          have hidentity : (Client.mk .releaseLock (s.client q).reference).identity =
              (s.client q).identity := by simp [Client.identity, hphase]
          exact h.of_phase ⟨.releaseLock, (s.client q).reference⟩ s.lock s.signals
            (h.locked_of_eq (by rw [hphase]; rfl))
            (fun agent => by simp [Client.Holds, Client.identity, Phase.keeps, hphase])
            ⟨hsound.1, hheld, hidentity ▸ hsound.2 hheld⟩
      · exact h

theorem lockAgentState_inv (h : Inv s) : Inv (lockAgentState s q) := by
  have hsound := h.clients q
  unfold lockAgentState
  split
  · next hlock =>
      split
      · next hphase =>
          unfold Sound at hsound
          simp only [hphase] at hsound
          exact h.of_phase ⟨.acquireRead, (s.client q).reference⟩ (some q) s.signals
            (h.locked_of_none hlock rfl)
            (fun agent => iff_of_false (not_holds_of_phase rfl agent)
              (not_holds_of_held hsound agent)) hsound
      · next hphase =>
          unfold Sound at hsound
          simp only [hphase] at hsound
          have hidentity : (Client.mk .releaseRead (s.client q).reference).identity =
              (s.client q).identity := by simp [Client.identity, hphase]
          exact h.of_phase ⟨.releaseRead, (s.client q).reference⟩ (some q) s.signals
            (h.locked_of_none hlock rfl)
            (fun agent => by simp [Client.Holds, Client.identity, Phase.keeps, hphase])
            ⟨hsound.1, hsound.2.1, hidentity ▸ hsound.2.2⟩
      · exact h
  · exact h

theorem unlock_inv (h : Inv s) : Inv (unlock s q) := by
  have hsound := h.clients q
  unfold unlock
  split
  · next hphase =>
      unfold Sound at hsound
      simp only [hphase] at hsound
      have hidentity : (Client.mk .idle (s.client q).reference).identity =
          (s.client q).identity := by simp [Client.identity, hphase]
      exact h.of_phase ⟨.idle, (s.client q).reference⟩ none s.signals
        (h.unlocked_of_locked (by rw [hphase]; rfl) rfl)
        (fun agent => by simp [Client.Holds, Client.identity, Phase.keeps, hphase])
        ⟨hsound.1, fun hheld => hidentity ▸ hsound.2 hheld⟩
  · next hphase =>
      exact h.of_phase {} none s.signals (h.unlocked_of_locked (by rw [hphase]; rfl) rfl)
        (fun agent => iff_of_false (not_holds_of_held rfl agent)
          (not_holds_of_phase (by rw [hphase]; rfl) agent))
        ⟨rfl, fun hheld => by cases hheld⟩
  · exact h

theorem poll_inv (h : Inv s) : Inv (poll s q) := by
  have hsound := h.clients q
  -- Who is in this loop holds nothing, and goes on to hold nothing.
  have htoPhase : ∀ phase : Phase, phase.locked = true → phase.keeps = false →
      (s.client q).phase.locked = true → (s.client q).phase.keeps = false →
        Sound s ⟨phase, (s.client q).reference⟩ → Inv (s.toPhase q phase) :=
    fun phase hlocked hkeeps hlocked' hkeeps' hclient =>
      h.of_phase ⟨phase, (s.client q).reference⟩ s.lock s.signals
        (h.locked_of_eq (by rw [hlocked, hlocked']))
        (fun agent => iff_of_false (not_holds_of_phase hkeeps agent)
          (not_holds_of_phase hkeeps' agent)) hclient
  unfold poll
  split
  · next hphase =>
      unfold Sound at hsound
      simp only [hphase, Client.identity] at hsound
      exact htoPhase .killing rfl rfl (by rw [hphase]; rfl) (by rw [hphase]; rfl) hsound
  · next attempts hphase =>
      unfold Sound at hsound
      simp only [hphase, Client.identity] at hsound
      split
      · exact htoPhase (.polling attempts) rfl rfl (by rw [hphase]; rfl) (by rw [hphase]; rfl)
          hsound
      · exact htoPhase .released rfl rfl (by rw [hphase]; rfl) (by rw [hphase]; rfl) trivial
  · exact h

theorem signal_inv (h : Inv s) : Inv (signal s q) := by
  have hsound := h.clients q
  unfold signal
  split
  · next hphase =>
      exact h.of_phase ⟨.acquired, {}⟩ s.lock _ (h.locked_of_eq (by rw [hphase]; rfl))
        (fun agent => iff_of_false (not_holds_of_held rfl agent)
          (not_holds_of_phase (by rw [hphase]; rfl) agent))
        ⟨rfl, fun hheld => by cases hheld⟩
  · next hphase =>
      unfold Sound at hsound
      simp only [hphase, Client.identity] at hsound
      exact h.of_phase ⟨.polling 20, (s.client q).reference⟩ s.lock _
        (h.locked_of_eq (by rw [hphase]; rfl))
        (fun agent => iff_of_false (not_holds_of_phase rfl agent)
          (not_holds_of_phase (by rw [hphase]; rfl) agent)) hsound
  · next hphase =>
      exact h.of_phase ⟨.released, (s.client q).reference⟩ s.lock _
        (h.locked_of_eq (by rw [hphase]; rfl))
        (fun agent => iff_of_false (not_holds_of_phase rfl agent)
          (not_holds_of_phase (by rw [hphase]; rfl) agent)) trivial
  · exact h

/-- Who is about to read and held nothing comes to hold the live agent of the file,
or the file named no live agent that is held. -/
theorem acquireRead_inv (h : Inv s) (hcard : Fintype.card ι < uintMax)
    (hphase : (s.client q).phase = .acquireRead) : Inv (acquireRead s q) := by
  have hlocked : (s.client q).phase.locked = true := by rw [hphase]; rfl
  have hnot := not_holds_of_phase (p := s.client q) (by rw [hphase]; rfl)
  have hlock := (h.locked q).mp hlocked
  unfold acquireRead
  split
  · next hlive =>
      obtain ⟨hlive, -⟩ := hlive
      obtain ⟨-, hpos, hled⟩ := agentStateIsLive_iff.mp hlive
      have hholds : (Client.mk .acquired ⟨s.file.pid, s.file.startTime, true, false⟩).Holds
          s.file.identity := ⟨rfl, rfl, rfl, rfl⟩
      have hothers : ∀ r, r ≠ q →
          (s.set q ⟨.acquired, ⟨s.file.pid, s.file.startTime, true, false⟩⟩).client r =
            s.client r := fun r hr => set_client_of_ne _ hr
      have hgain := holders_set_gain (hnot _) hholds
      refine h.of_locked hlocked hothers ?_ (fun a ha => ha) ?_ h.agents_used h.agents_pid
        h.table_used ?_ ?_
      · simp [Session.set, Phase.locked, hlock]
      · simp only [Session.set, Function.update_self]
        exact ⟨rfl, fun _ => h.file_agents hpos⟩
      · exact fun _ => ⟨h.file_agents hpos, (congrArg (· + 1) (h.recorded hpos)).trans hgain.symm⟩
      · intro agent hledAgent hposAgent
        refine ⟨?_, Nat.succ_pos _⟩
        by_contra hne
        have hother : ¬(Client.mk .acquired ⟨s.file.pid, s.file.startTime, true, false⟩).Holds
            agent := fun hother => hne hother.2.2.2
        have hsame := holders_set (iff_of_false hother (hnot agent))
        have hold := h.live agent hledAgent (hsame ▸ hposAgent)
        exact hne hold.1
  · next hdead =>
      have hothers : ∀ r, r ≠ q → (s.toPhase q .acquireStart).client r = s.client r :=
        fun r hr => set_client_of_ne _ hr
      have hsound := h.clients q
      unfold Sound at hsound
      simp only [hphase] at hsound
      refine h.of_locked hlocked hothers ?_ (fun a ha => ha) ?_ h.agents_used h.agents_pid
        h.table_used ?_ ?_
      · simp [Session.toPhase, Session.set, Phase.locked, hlock]
      · simp only [Session.toPhase, Session.set, Function.update_self]
        exact ⟨hsound, rfl⟩
      · exact fun hpos => absurd hpos (Nat.lt_irrefl 0)
      · intro agent hled hpos
        change 0 < (s.toPhase q .acquireStart).holders agent at hpos
        rw [Session.toPhase, holders_set (iff_of_false (not_holds_of_phase rfl agent) (hnot _))]
          at hpos
        obtain ⟨rfl, hrefs⟩ := h.live agent hled hpos
        -- Its record was live, and there is room for one more reference.
        refine absurd ⟨agentStateIsLive_iff.mpr
          ⟨h.agents_pid _ (h.file_agents hrefs), hrefs, hled⟩, ?_⟩ hdead
        rw [h.recorded hrefs]
        exact Nat.lt_of_le_of_lt countOf_le_card hcard

theorem releaseRead_inv (h : Inv s) (hphase : (s.client q).phase = .releaseRead) :
    Inv (releaseRead s q) := by
  have hlocked : (s.client q).phase.locked = true := by rw [hphase]; rfl
  have hlock := (h.locked q).mp hlocked
  have hsound := h.clients q
  unfold Sound at hsound
  simp only [hphase] at hsound
  have hholds : ∀ agent, (s.client q).Holds agent ↔
      ((s.client q).reference.pid, (s.client q).reference.startTime) = agent := by
    intro agent
    simp [Client.Holds, Client.identity, hphase, hsound, Phase.keeps]
  have hothers : ∀ phase r, r ≠ q → (s.toPhase q phase).client r = s.client r :=
    fun phase r hr => set_client_of_ne _ hr
  have hle : ∀ phase : Phase, phase.keeps = false → ∀ agent,
      0 < (s.toPhase q phase).holders agent → 0 < s.holders agent := by
    intro phase hkeeps agent hpos
    rw [holders_toPhase hkeeps hholds agent]
    omega
  simp only [releaseRead]
  split
  · next hmatch =>
      obtain ⟨hpid, hstart, hpos⟩ := hmatch
      have hfile : ((s.client q).reference.pid, (s.client q).reference.startTime) =
          s.file.identity := by rw [AgentState.identity, hpid, hstart]
      have hrecorded := h.recorded hpos
      split
      · next hlast =>
          have hcount := holders_toPhase (show Phase.terminating.keeps = false from rfl) hholds
            s.file.identity
          rw [if_pos hfile] at hcount
          refine h.of_locked hlocked (hothers _) ?_ (fun a ha => ha) ?_ h.agents_used h.agents_pid
            h.table_used ?_ ?_
          · simp [Session.toPhase, Session.set, Phase.locked, hlock]
          · simp only [Session.toPhase, Session.set, Function.update_self]
            refine ⟨(congrArg (· ∈ s.agents) hfile).mpr (h.file_agents hpos), ?_⟩
            change (s.toPhase q .terminating).holders
              ((s.client q).reference.pid, (s.client q).reference.startTime) = 0
            rw [hfile]
            omega
          · exact fun hpos => absurd hpos (Nat.lt_irrefl 0)
          · intro agent hled hposAgent
            obtain ⟨heq, -⟩ := h.live agent hled (hle _ rfl agent hposAgent)
            change 0 < (s.toPhase q .terminating).holders agent at hposAgent
            rw [← heq] at hposAgent
            omega
      · next hmore =>
          have hcount := holders_toPhase (show Phase.released.keeps = false from rfl) hholds
            s.file.identity
          rw [if_pos hfile] at hcount
          refine h.of_locked hlocked (hothers _) ?_ (fun a ha => ha) ?_ h.agents_used h.agents_pid
            h.table_used ?_ ?_
          · simp [Session.toPhase, Session.set, Phase.locked, hlock]
          · simp only [Session.toPhase, Session.set, Function.update_self]
            exact trivial
          · refine fun _ => ⟨h.file_agents hpos, ?_⟩
            change s.file.references - 1 = (s.toPhase q .released).holders s.file.identity
            omega
          · intro agent hled hposAgent
            refine ⟨(h.live agent hled (hle _ rfl agent hposAgent)).1, ?_⟩
            change 0 < s.file.references - 1
            omega
  · next hmismatch =>
      refine h.of_locked hlocked (hothers _) ?_ (fun a ha => ha) ?_ h.agents_used h.agents_pid
        h.table_used ?_ ?_
      · simp [Session.toPhase, Session.set, Phase.locked, hlock]
      · simp only [Session.toPhase, Session.set, Function.update_self]
        exact trivial
      · intro hpos
        have hcount := holders_toPhase (show Phase.released.keeps = false from rfl) hholds
          s.file.identity
        rw [if_neg fun heq => hmismatch ⟨congrArg (·.1) heq.symm, congrArg (·.2) heq.symm, hpos⟩]
          at hcount
        exact ⟨h.file_agents hpos, (h.recorded hpos).trans hcount⟩
      · exact fun agent hled hposAgent => h.live agent hled (hle _ rfl agent hposAgent)

theorem readAgentState_inv (h : Inv s) (hcard : Fintype.card ι < uintMax) :
    Inv (readAgentState s q) := by
  unfold readAgentState
  split
  · next hphase => exact acquireRead_inv h hcard hphase
  · next hphase => exact releaseRead_inv h hphase
  · exact h

theorem startAgent_inv (h : Inv s) (child : Option Identity) : Inv (startAgent s q child) := by
  unfold startAgent
  split
  · next hphase =>
      have hlocked : (s.client q).phase.locked = true := by rw [hphase]; rfl
      have hlock := (h.locked q).mp hlocked
      have hnot := not_holds_of_phase (p := s.client q) (by rw [hphase]; rfl)
      have hsound := h.clients q
      unfold Sound at hsound
      simp only [hphase] at hsound
      split
      · exact h.of_phase ⟨.acquired, {}⟩ s.lock s.signals (h.locked_of_eq (by rw [hphase]; rfl))
          (fun agent => iff_of_false (not_holds_of_held rfl agent) (hnot agent))
          ⟨rfl, fun hheld => by cases hheld⟩
      · next child =>
          split
          · next hfresh =>
              have hothers : ∀ r, r ≠ q →
                  (s.set q ⟨.starting child.2, ⟨child.1, 0, true, true⟩⟩).client r = s.client r :=
                fun r hr => set_client_of_ne _ hr
              have hsame : ∀ agent,
                  (s.set q ⟨.starting child.2, ⟨child.1, 0, true, true⟩⟩).holders agent =
                    s.holders agent := fun agent =>
                holders_set (iff_of_false (not_holds_of_phase rfl agent) (hnot agent))
              refine h.of_locked hlocked hothers ?_ (fun a => List.mem_cons_of_mem child) ?_ ?_ ?_
                (make_table_used h child) ?_ ?_
              · simp [Session.set, Session.make, Phase.locked, hlock]
              · simp only [Session.set, Session.make, Function.update_self]
                exact ⟨List.mem_cons_self, Function.update_self ..,
                  (hsame child).trans (not_held_of_fresh h hfresh), hsound.2⟩
              · intro a ha
                rcases List.mem_cons.mp ha with rfl | ha
                · exact List.mem_cons_self
                · exact List.mem_cons_of_mem _ (h.agents_used a ha)
              · intro a ha
                rcases List.mem_cons.mp ha with rfl | ha
                · exact hfresh.1
                · exact h.agents_pid a ha
              · exact fun hpos => absurd hsound.2 (Nat.ne_of_gt hpos)
              · intro agent hled hpos
                change 0 < (s.set q _).holders agent at hpos
                rw [hsame] at hpos
                rcases leads_make hled with rfl | hled
                · rw [not_held_of_fresh h hfresh] at hpos
                  omega
                · exact h.live agent hled hpos
          · exact h
  · exact h

theorem finishAgentReference_inv (h : Inv s) (exited : Bool) :
    Inv (finishAgentReference s q exited) := by
  simp only [finishAgentReference]
  split
  · next startTime hphase =>
      have hlocked : (s.client q).phase.locked = true := by rw [hphase]; rfl
      have hlock := (h.locked q).mp hlocked
      have hnot := not_holds_of_phase (p := s.client q) (by rw [hphase]; rfl)
      have hsound := h.clients q
      unfold Sound at hsound
      simp only [hphase, Client.identity] at hsound
      obtain ⟨hagent, hled, hnone, hfile⟩ := hsound
      have hzero : ∀ agent, Leads s.table agent → s.holders agent = 0 := by
        intro agent hledAgent
        by_contra hne
        have := (h.live agent hledAgent (Nat.pos_of_ne_zero hne)).2
        omega
      cases exited with
      | true =>
          have hothers : ∀ r, r ≠ q →
              (s.toPhase q (.stopping startTime)).client r = s.client r :=
            fun r hr => set_client_of_ne _ hr
          have hsame : ∀ agent,
              (s.toPhase q (.stopping startTime)).holders agent = s.holders agent :=
            fun agent => holders_set (iff_of_false (not_holds_of_phase rfl agent) (hnot agent))
          rw [if_pos rfl]
          refine h.of_locked hlocked hothers ?_ (fun a ha => ha) ?_ h.agents_used h.agents_pid
            ?_ ?_ ?_
          · simp [Session.toPhase, Session.set, Phase.locked, hlock]
          · simp only [Session.toPhase, Session.set, Function.update_self]
            refine ⟨hagent, ?_, (hsame _).trans hnone, rfl⟩
            simp [Leads, Client.identity]
          · intro pid group hgroup
            simp only [Function.update_apply] at hgroup
            split at hgroup
            · next heq =>
                cases hgroup
                rw [heq]
                exact h.table_used _ ⟨startTime, true⟩ hled
            · exact h.table_used pid group hgroup
          · exact fun hpos => absurd hpos (Nat.lt_irrefl 0)
          · intro agent hledAgent hpos
            change 0 < (s.toPhase q _).holders agent at hpos
            rw [hsame] at hpos
            simp only [Leads, Function.update_apply] at hledAgent
            split at hledAgent
            · cases hledAgent
            · rw [hzero agent hledAgent] at hpos
              omega
      | false =>
          have hpid : ¬(s.client q).reference.pid ≤ 1 := Int.not_le.mpr (h.agents_pid _ hagent)
          have hfound : processStartTime s.table (s.client q).reference.pid = some startTime := by
            rw [processStartTime, if_neg hpid, show s.table (s.client q).reference.pid = _
              from hled]
          rw [if_neg Bool.false_ne_true, hfound]
          have hothers : ∀ r, r ≠ q →
              (s.set q ⟨.acquired, ⟨(s.client q).reference.pid, startTime, true, false⟩⟩).client r =
                s.client r := fun r hr => set_client_of_ne _ hr
          have hholds : (Client.mk .acquired
              ⟨(s.client q).reference.pid, startTime, true, false⟩).Holds
                ((s.client q).reference.pid, startTime) := ⟨rfl, rfl, rfl, rfl⟩
          have hgain := holders_set_gain (hnot _) hholds
          refine h.of_locked hlocked hothers ?_ (fun a ha => ha) ?_ h.agents_used h.agents_pid
            h.table_used ?_ ?_
          · simp [Session.set, Phase.locked, hlock]
          · simp only [Session.set, Function.update_self]
            exact ⟨rfl, fun _ => hagent⟩
          · exact fun _ => ⟨hagent, (hgain.trans (by rw [hnone])).symm⟩
          · intro agent hledAgent hpos
            refine ⟨?_, Nat.one_pos⟩
            by_contra hne
            have hother : ¬(Client.mk .acquired
                ⟨(s.client q).reference.pid, startTime, true, false⟩).Holds agent :=
              fun hother => hne hother.2.2.2
            have hsame := holders_set (iff_of_false hother (hnot agent))
            have hpos' : 0 < s.holders agent := hsame ▸ hpos
            rw [hzero agent hledAgent] at hpos'
            omega
  · exact h

theorem step_inv (h : Inv s) (hcard : Fintype.card ι < uintMax) (e : Event ι) :
    Inv (step s e) := by
  cases e with
  | call q operation => exact call_inv h operation
  | lock q => exact lockAgentState_inv h
  | read q => exact readAgentState_inv h hcard
  | start q child => exact startAgent_inv h child
  | finish q exited => exact finishAgentReference_inv h exited
  | signal q => exact signal_inv h
  | poll q => exact poll_inv h
  | unlock q => exact unlock_inv h
  | appear process => exact appear_inv h process
  | orphan pid => exact orphan_inv h pid
  | vanish pid => exact vanish_inv h pid

end

end Spaces.Supervisor
