import Spaces.Supervisor.ReferenceCount

/-!
# One agent for all, and whom a signal reaches

In every run the file's count is the number of holders, and no two live agents are
held. Every signal is sent when nobody holds the agent it is meant for. It reaches
that agent's group, or none, in a run in which no other group has the agent's number
by then; in a run in which the agent has died and its number was given away, the
release of the last holder signals the group that has it now.
-/

namespace Spaces.Supervisor

open Spaces.Library

variable {ι : Type} [Fintype ι]

/-- The count that the file has for an agent. -/
def Session.recorded (s : Session ι) (agent : Identity) : Nat :=
  if s.file.identity = agent then s.file.references else 0

theorem Inv.recorded_eq {s : Session ι} (h : Inv s) {agent : Identity}
    (hled : Leads s.table agent) : s.recorded agent = s.holders agent := by
  unfold Session.recorded
  rcases Nat.eq_zero_or_pos (s.holders agent) with hzero | hpos
  · split
    · next heq =>
        rcases Nat.eq_zero_or_pos s.file.references with hrefs | hrefs
        · rw [hrefs, hzero]
        · rw [h.recorded hrefs, heq]
    · exact hzero.symm
  · obtain ⟨heq, hrefs⟩ := h.live agent hled hpos
    rw [if_pos heq, h.recorded hrefs, heq]

/-- A signal that is sent when nobody holds the agent, and after a failed start only
when the agent has ended. -/
def Signal.Due (signal : Signal) : Prop :=
  signal.holders = 0 ∧
    (signal.cause = .failedStart → signal.target ≠ some ⟨signal.agent.2, true⟩)

/-- A signal to the group of an agent, or to none. -/
def Signal.Own (agents : List Identity) (signal : Signal) : Prop :=
  signal.agent ∈ agents ∧ signal.number = signal.agent.1 ∧
    ∀ group, signal.target = some group → group.startTime = signal.agent.2

structure Shared (s : Session ι) : Prop where
  counted : ∀ agent, Leads s.table agent → s.recorded agent = s.holders agent
  single : ∀ agent other, Leads s.table agent → Leads s.table other → 0 < s.holders agent →
    0 < s.holders other → agent = other
  due : ∀ signal ∈ s.signals, signal.Due
  own : ∀ signal ∈ s.signals, signal.Own s.agents

/-- No other group has the number that a client is about to signal. -/
def OwnGroup (s : Session ι) : Event ι → Prop
  | .signal q => ∀ group, s.table (s.client q).reference.pid = some group →
      group.startTime = (s.client q).identity.2
  | _ => True

variable {s : Session ι} {q : ι}

@[simp] theorem identity_fst (p : Client) : p.identity.1 = p.reference.pid := by
  unfold Client.identity
  split <;> rfl

/-- What a client knows when it sends a signal. -/
theorem Inv.signalling (h : Inv s)
    (hphase : (∃ startTime, (s.client q).phase = .stopping startTime) ∨
      (s.client q).phase = .terminating ∨ (s.client q).phase = .killing) :
    (s.client q).identity ∈ s.agents ∧ s.holders (s.client q).identity = 0 := by
  have hsound := h.clients q
  unfold Sound at hsound
  rcases hphase with ⟨startTime, hphase⟩ | hphase | hphase
  · simp only [hphase] at hsound
    exact ⟨hsound.1, hsound.2.2.1⟩
  · simp only [hphase] at hsound
    exact hsound
  · simp only [hphase] at hsound
    exact hsound

theorem Inv.not_leads_of_stopping (h : Inv s) {startTime : Nat}
    (hphase : (s.client q).phase = .stopping startTime) :
    s.table (s.client q).reference.pid ≠ some ⟨(s.client q).identity.2, true⟩ := by
  have hsound := h.clients q
  unfold Sound at hsound
  simp only [hphase, Leads, identity_fst] at hsound
  exact hsound.2.1

variable [DecidableEq ι]

def Event.client : Event ι → Option ι
  | .call q _ | .lock q | .read q | .start q _ | .finish q _ | .signal q | .poll q
  | .unlock q => some q
  | .appear _ | .orphan _ | .vanish _ => none

/-- In an acquire, from its call to its end. -/
def Phase.acquiring : Phase → Bool
  | .acquireLock | .acquireRead | .acquireStart | .starting _ | .stopping _ | .acquired => true
  | _ => false

/-- Agents are recorded for good, and signals are recorded only when they are sent. -/
theorem step_records (s : Session ι) (e : Event ι) :
    (∀ a ∈ s.agents, a ∈ (step s e).agents) ∧
      ((∀ q, e ≠ .signal q) → (step s e).signals = s.signals) := by
  cases e with
  | signal q =>
      refine ⟨fun a ha => ?_, fun hne => absurd rfl (hne q)⟩
      simp only [step, signal]
      split <;> exact ha
  | start q child =>
      simp only [step, startAgent]
      repeat' split
      all_goals first
        | exact ⟨fun a ha => ha, fun _ => rfl⟩
        | exact ⟨fun a ha => List.mem_cons_of_mem _ ha, fun _ => rfl⟩
  | call q operation =>
      cases operation <;> simp only [step, call] <;> split <;>
        exact ⟨fun a ha => ha, fun _ => rfl⟩
  | lock q =>
      simp only [step, lockAgentState]
      repeat' split
      all_goals exact ⟨fun a ha => ha, fun _ => rfl⟩
  | read q =>
      simp only [step, readAgentState, acquireRead, releaseRead]
      repeat' split
      all_goals exact ⟨fun a ha => ha, fun _ => rfl⟩
  | finish q exited =>
      simp only [step, finishAgentReference]
      repeat' split
      all_goals exact ⟨fun a ha => ha, fun _ => rfl⟩
  | poll q =>
      simp only [step, poll]
      repeat' split
      all_goals exact ⟨fun a ha => ha, fun _ => rfl⟩
  | unlock q =>
      simp only [step, unlock]
      split <;> exact ⟨fun a ha => ha, fun _ => rfl⟩
  | appear process =>
      simp only [step, appear]
      split <;> exact ⟨fun a ha => ha, fun _ => rfl⟩
  | orphan pid =>
      simp only [step, orphan]
      repeat' split
      all_goals exact ⟨fun a ha => ha, fun _ => rfl⟩
  | vanish pid =>
      simp only [step, vanish]
      split <;> exact ⟨fun a ha => ha, fun _ => rfl⟩

/-- What is recorded of a signal, and in which phase it was sent. -/
theorem mem_signal {new : Signal} (h : new ∈ (signal s q).signals) :
    new ∈ s.signals ∨
      ∃ cause, new = ⟨(s.client q).reference.pid, (s.client q).identity,
          s.table (s.client q).reference.pid, cause, s.holders (s.client q).identity⟩ ∧
        (cause = .failedStart ∧ (∃ startTime, (s.client q).phase = .stopping startTime) ∨
          cause = .lastRelease ∧
            ((s.client q).phase = .terminating ∨ (s.client q).phase = .killing)) := by
  unfold signal at h
  split at h
  · next startTime hphase =>
      rcases List.mem_cons.mp h with rfl | h
      · exact .inr ⟨_, rfl, .inl ⟨rfl, startTime, hphase⟩⟩
      · exact .inl h
  · next hphase =>
      rcases List.mem_cons.mp h with rfl | h
      · exact .inr ⟨_, rfl, .inr ⟨rfl, .inl hphase⟩⟩
      · exact .inl h
  · next hphase =>
      rcases List.mem_cons.mp h with rfl | h
      · exact .inr ⟨_, rfl, .inr ⟨rfl, .inr hphase⟩⟩
      · exact .inl h
  · exact .inl h

theorem step_due (h : Inv s) (hdue : ∀ signal ∈ s.signals, signal.Due) (e : Event ι) :
    ∀ signal ∈ (step s e).signals, signal.Due := by
  intro new hnew
  by_cases he : ∀ q, e ≠ .signal q
  · rw [(step_records s e).2 he] at hnew
    exact hdue new hnew
  · push Not at he
    obtain ⟨q, rfl⟩ := he
    rcases mem_signal hnew with hold | ⟨cause, rfl, hphase⟩
    · exact hdue new hold
    · rcases hphase with ⟨-, startTime, hphase⟩ | ⟨hcause, hphase⟩
      · exact ⟨(h.signalling (.inl ⟨startTime, hphase⟩)).2, fun _ =>
          h.not_leads_of_stopping hphase⟩
      · refine ⟨(h.signalling (.inr hphase)).2, fun hfailed => ?_⟩
        rw [hcause] at hfailed
        cases hfailed

theorem step_own (h : Inv s) (hown : ∀ signal ∈ s.signals, signal.Own s.agents) {e : Event ι}
    (hok : OwnGroup s e) : ∀ signal ∈ (step s e).signals, signal.Own (step s e).agents := by
  intro new hnew
  have hagents := (step_records s e).1
  by_cases he : ∀ q, e ≠ .signal q
  · rw [(step_records s e).2 he] at hnew
    exact ⟨hagents _ (hown new hnew).1, (hown new hnew).2⟩
  · push Not at he
    obtain ⟨q, rfl⟩ := he
    rcases mem_signal hnew with hold | ⟨cause, rfl, hphase⟩
    · exact ⟨hagents _ (hown new hold).1, (hown new hold).2⟩
    · refine ⟨hagents _ (h.signalling ?_).1, (identity_fst _).symm, hok⟩
      rcases hphase with ⟨-, hphase⟩ | ⟨-, hphase⟩
      · exact .inl hphase
      · exact .inr hphase

/-! ## Failed acquires -/

theorem step_client_of_ne (e : Event ι) {r : ι} (hr : ∀ q, e.client = some q → r ≠ q) :
    (step s e).client r = s.client r := by
  have hset : ∀ q p, e.client = some q → (s.set q p).client r = s.client r := fun q p hq =>
    set_client_of_ne p (hr q hq)
  cases e with
  | call q operation =>
      cases operation <;> simp only [step, call] <;> split <;>
        first | exact hset q _ rfl | rfl
  | lock q =>
      simp only [step, lockAgentState]
      repeat' split
      all_goals first | exact hset q _ rfl | rfl
  | read q =>
      simp only [step, readAgentState, acquireRead, releaseRead]
      repeat' split
      all_goals first | exact hset q _ rfl | rfl
  | start q child =>
      simp only [step, startAgent]
      repeat' split
      all_goals first | exact hset q _ rfl | rfl
  | finish q exited =>
      simp only [step, finishAgentReference]
      repeat' split
      all_goals first | exact hset q _ rfl | rfl
  | signal q =>
      simp only [step, signal]
      repeat' split
      all_goals first | exact hset q _ rfl | rfl
  | poll q =>
      simp only [step, poll]
      repeat' split
      all_goals first | exact hset q _ rfl | rfl
  | unlock q =>
      simp only [step, unlock]
      repeat' split
      all_goals first | exact hset q _ rfl | rfl
  | appear process => simp only [step, appear]; split <;> rfl
  | orphan pid =>
      simp only [step, orphan]
      repeat' split
      all_goals rfl
  | vanish pid => simp only [step, vanish]; split <;> rfl

/-- A step of an acquire that makes its client no holder changes no count. -/
theorem step_failedAcquire {e : Event ι} (hq : e.client = some q)
    (hacquiring : (s.client q).phase.acquiring = true)
    (hfailed : ∀ agent, ¬((step s e).client q).Holds agent) (agent : Identity) :
    (step s e).holders agent = s.holders agent := by
  refine holders_eq (q := q) _ (fun r hr => step_client_of_ne e fun other hother => ?_)
    (iff_of_false (hfailed agent) fun hholds => hfailed agent ?_)
  · rw [hq] at hother
    exact Option.some.inj hother ▸ hr
  · -- It held the agent already, and only the end of its acquire is left.
    have hphase : (s.client q).phase = .acquired := by
      have hkeeps := hholds.2.2.1
      cases hcase : (s.client q).phase <;>
        simp only [hcase, Phase.acquiring, Phase.keeps, reduceCtorEq] at hacquiring hkeeps ⊢
    cases e <;> simp only [Event.client, Option.some.injEq, reduceCtorEq] at hq <;> subst hq
    case call operation => cases operation <;> simpa [step, call, hphase] using hholds
    case lock => simpa [step, lockAgentState, hphase] using hholds
    case read => simpa [step, readAgentState, hphase] using hholds
    case start => simpa [step, startAgent, hphase] using hholds
    case finish => simpa [step, finishAgentReference, hphase] using hholds
    case signal => simpa [step, signal, hphase] using hholds
    case poll => simpa [step, poll, hphase] using hholds
    case unlock =>
      simp only [step, unlock, hphase, Session.toPhase, Session.set, Function.update_self]
      simpa [Client.Holds, Client.identity, Phase.keeps, hphase] using hholds

/-! ## Runs -/

/-- What holds whatever becomes of the numbers. -/
theorem counted_of_reachable {t : Session ι} (hs : s.Starts) (hcard : Fintype.card ι < uintMax)
    (h : Reachable step s t) : Inv t ∧ ∀ signal ∈ t.signals, signal.Due := by
  refine @Guarded.invariant _ _ _ _ _ _ (fun t => Inv t ∧ ∀ signal ∈ t.signals, signal.Due) h ?_
    fun t e hinv _ => ?_
  · refine ⟨hs.inv, ?_⟩
    rw [hs.signals]
    exact fun signal hsignal => absurd hsignal List.not_mem_nil
  · exact ⟨step_inv hinv.1 hcard e, step_due hinv.1 hinv.2 e⟩

/-- In a run in which no other group comes to have the number that is signalled, the
file counts the holders of the live agent, and every signal reaches an agent that
nobody holds, or nothing. An acquire that fails changes no count. -/
theorem shared_of_ownGroup {t : Session ι} (hs : s.Starts) (hcard : Fintype.card ι < uintMax)
    (h : Guarded step OwnGroup s t) :
    Shared t ∧ ∀ q e, Event.client e = some q → (t.client q).phase.acquiring = true →
      (∀ agent, ¬((step t e).client q).Holds agent) →
        ∀ agent, (step t e).holders agent = t.holders agent ∧
          (Leads t.table agent → Leads (step t e).table agent →
            (step t e).recorded agent = t.recorded agent) := by
  obtain ⟨hinv, hdue⟩ := counted_of_reachable hs hcard h.reachable
  have hown : ∀ signal ∈ t.signals, signal.Own t.agents := by
    have hboth : Inv t ∧ ∀ signal ∈ t.signals, signal.Own t.agents := by
      refine @Guarded.invariant _ _ _ _ _ _
        (fun t => Inv t ∧ ∀ signal ∈ t.signals, signal.Own t.agents) h ?_ fun t e hinv hok => ?_
      · refine ⟨hs.inv, ?_⟩
        rw [hs.signals]
        exact fun signal hsignal => absurd hsignal List.not_mem_nil
      · exact ⟨step_inv hinv.1 hcard e, step_own hinv.1 hinv.2 hok⟩
    exact hboth.2
  refine ⟨⟨fun agent hled => hinv.recorded_eq hled, ?_, hdue, hown⟩, ?_⟩
  · intro agent other hled hother hpos hpos'
    exact (hinv.live agent hled hpos).1.symm.trans (hinv.live other hother hpos').1
  · intro q e hq hacquiring hfailed agent
    have hholders := step_failedAcquire hq hacquiring hfailed agent
    refine ⟨hholders, fun hled hled' => ?_⟩
    rw [(step_inv hinv hcard e).recorded_eq hled', hholders, hinv.recorded_eq hled]

/-! ## An agent that dies -/

def emptySession : Session Unit where
  table := fun _ => none
  used := []

theorem emptySession_starts : emptySession.Starts :=
  ⟨fun _ _ h => (by cases h), rfl, rfl, rfl, rfl, rfl⟩

/-- One client acquires an agent with the number 100. -/
def acquired : List (Event Unit) :=
  [.call () .acquire, .lock (), .read (), .start () (some (100, 1)), .finish () false,
    .unlock ()]

/-- It gives it back. -/
def lastRelease : List (Event Unit) :=
  [.call () .release, .lock (), .read (), .signal ()]

/-- In between the agent dies, and its number goes to another group. -/
def reused : List (Event Unit) :=
  acquired ++ [.vanish 100, .appear (100, 2)] ++ lastRelease

theorem shared_of_ownGroup_sample :
    let t := (acquired ++ lastRelease).foldl step emptySession
    Shared t ∧ ∀ q e, Event.client e = some q → (t.client q).phase.acquiring = true →
      (∀ agent, ¬((step t e).client q).Holds agent) →
        ∀ agent, (step t e).holders agent = t.holders agent ∧
          (Leads t.table agent → Leads (step t e).table agent →
            (step t e).recorded agent = t.recorded agent) := by
  refine shared_of_ownGroup emptySession_starts (by decide) (Guarded.start.foldl ?_)
  refine ⟨trivial, trivial, trivial, trivial, trivial, trivial, trivial, trivial, trivial,
    ?_, trivial⟩
  intro group hgroup
  cases (show some (⟨1, true⟩ : Group) = some group from hgroup)
  rfl

/-- The group that has the number now is signalled. -/
theorem reused_signals_other :
    ¬∀ t, Reachable step emptySession t →
      ∀ signal ∈ t.signals, ∀ group, signal.target = some group →
        (signal.number, group.startTime) ∈ t.agents := by
  intro hall
  have hmem := hall _ (Guarded.run reused emptySession)
    ⟨100, (100, 1), some ⟨2, true⟩, .lastRelease, 0⟩ (by decide) ⟨2, true⟩ rfl
  revert hmem
  decide

end Spaces.Supervisor
