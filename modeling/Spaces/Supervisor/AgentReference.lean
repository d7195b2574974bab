import Mathlib.Data.Fintype.Pi
import Spaces.Library.Counting
import Spaces.Library.Runs

/-!
# The polkit agent that a session shares

The supervisors of one session share one polkit agent. A state file names it by its
process id and start time and counts who holds it; the file is locked while an
operation runs. An acquire takes one more reference to a live agent or starts
another and keeps the lock until that start is finished, and a release that gives
back the last reference terminates the agent.

Each step of an operation is one event, and between two of them the kernel may end
processes and give their numbers away again. A process that has ended keeps its
number until it is waited for, and a group keeps its number as long as a process
is in it; what an agent that was started is waited for by is the operation that
started it, until this has finished. Two processes of one number differ in their
start times. `agents` and `signals` are records for the theorems.

Reading and writing the file and `/proc` does not fail, and a call without an agent
does nothing. The three questions of `agent_state_is_live` are asked at one moment:
an agent for which all answers were yes was live when its start time was read, and
one that failed a question was not live at that time.
-/

namespace Spaces.Supervisor

open Spaces.Library

/-! ## The kernel -/

/-- A process id and a start time. -/
abbrev Identity := Int × Nat

/-- A process group, with the start time of the process it is named after, and
whether that process is still there. -/
structure Group where
  startTime : Nat
  led : Bool
  deriving DecidableEq

abbrev ProcessTable := Int → Option Group

/-- `getpgid`. It fails for what leads no group here. -/
def getpgid (table : ProcessTable) (pid : Int) : Int :=
  match table pid with
  | some ⟨_, true⟩ => pid
  | _ => -1

def processStartTime (table : ProcessTable) (pid : Int) : Option Nat :=
  if pid ≤ 1 then none
  else
    match table pid with
    | some ⟨startTime, true⟩ => some startTime
    | _ => none

/-- Whether a signal to a group finds it. -/
def groupExists (table : ProcessTable) (pid : Int) : Bool := (table pid).isSome

/-! ## The state file -/

structure AgentState where
  pid : Int
  startTime : Nat
  references : Nat
  deriving DecidableEq

def AgentState.identity (state : AgentState) : Identity := (state.pid, state.startTime)

/-- What is read of a file that was created just now. -/
def AgentState.unread : AgentState := ⟨-1, 0, 0⟩

def AgentState.cleared : AgentState := ⟨0, 0, 0⟩

def uintMax : Nat := 4294967295

def agentStateIsLive (table : ProcessTable) (state : AgentState) : Bool :=
  decide (state.pid > 1)
    && decide (state.references > 0)
    && decide (getpgid table state.pid = state.pid)
    && decide (processStartTime table state.pid = some state.startTime)
    && groupExists table state.pid

/-! ## Operations -/

structure AgentReference where
  pid : Int := -1
  startTime : Nat := 0
  held : Bool := false
  starting : Bool := false
  deriving DecidableEq

/-- How far an operation has come. -/
inductive Phase where
  | idle
  /-- Waiting for the lock. -/
  | acquireLock
  | acquireRead
  /-- About to start an agent. -/
  | acquireStart
  /-- Between the two halves of an acquire, with the start time of the child. -/
  | starting (startTime : Nat)
  /-- In `stop_agent`, for a child that was waited for. -/
  | stopping (startTime : Nat)
  /-- About to unlock after an acquire. -/
  | acquired
  | releaseLock
  | releaseRead
  | terminating
  | polling (attempts : Nat)
  | killing
  /-- About to unlock after a release. -/
  | released
  deriving DecidableEq

def Phase.locked : Phase → Bool
  | .idle | .acquireLock | .releaseLock => false
  | _ => true

structure Client where
  phase : Phase := .idle
  reference : AgentReference := {}
  deriving DecidableEq

/-- The agent a supervisor is concerned with. -/
def Client.identity (p : Client) : Identity :=
  match p.phase with
  | .starting startTime | .stopping startTime => (p.reference.pid, startTime)
  | _ => (p.reference.pid, p.reference.startTime)

/-- Whether a release has not given its reference back yet. -/
def Phase.keeps : Phase → Bool
  | .idle | .acquired | .releaseLock | .releaseRead => true
  | _ => false

/-- The supervisor acquired the agent and has not released it. -/
def Client.Holds (p : Client) (agent : Identity) : Prop :=
  p.reference.held = true ∧ p.reference.starting = false ∧ p.phase.keeps = true ∧
    p.identity = agent

instance (p : Client) (agent : Identity) : Decidable (p.Holds agent) :=
  inferInstanceAs (Decidable (_ ∧ _))

inductive Cause where
  | lastRelease
  | failedStart
  deriving DecidableEq

/-- A signal to a process group: its number, the agent that is meant, the group that
has the number, and how many clients hold the agent. -/
structure Signal where
  number : Int
  agent : Identity
  target : Option Group
  cause : Cause
  holders : Nat
  deriving DecidableEq

structure Session (ι : Type) where
  table : ProcessTable
  used : List Identity
  file : AgentState := .unread
  lock : Option ι := none
  client : ι → Client := fun _ => {}
  agents : List Identity := []
  signals : List Signal := []

variable {ι : Type} [Fintype ι] [DecidableEq ι]

def Session.holders (s : Session ι) (agent : Identity) : Nat :=
  countOf fun q => (s.client q).Holds agent

def Session.set (s : Session ι) (q : ι) (p : Client) : Session ι :=
  { s with client := Function.update s.client q p }

def Session.toPhase (s : Session ι) (q : ι) (phase : Phase) : Session ι :=
  s.set q { s.client q with phase }

/-! ## Steps -/

inductive Operation where
  | acquire
  | release
  deriving DecidableEq

inductive Event (ι : Type) where
  | call (q : ι) (operation : Operation)
  | lock (q : ι)
  | read (q : ι)
  /-- `start_agent`, with the child unless it fails. -/
  | start (q : ι) (child : Option Identity)
  /-- `finish_agent_start`, and whether the child had ended. -/
  | finish (q : ι) (exited : Bool)
  | signal (q : ι)
  | poll (q : ι)
  | unlock (q : ι)
  /-- A process that no supervisor started comes to lead a group. -/
  | appear (process : Identity)
  /-- The process a group is named after is gone, and others are in it. -/
  | orphan (pid : Int)
  /-- The last process of a group is gone. -/
  | vanish (pid : Int)

/-- A release without a reference returns at once. -/
def call (s : Session ι) (q : ι) : Operation → Session ι
  | .acquire =>
      if (s.client q).phase = .idle ∧ (s.client q).reference.held = false then
        s.toPhase q .acquireLock
      else s
  | .release =>
      if (s.client q).phase = .idle ∧ (s.client q).reference.held = true ∧
          (s.client q).reference.pid > 0 then
        s.toPhase q .releaseLock
      else s

def lockAgentState (s : Session ι) (q : ι) : Session ι :=
  if s.lock = none then
    match (s.client q).phase with
    | .acquireLock => { s.toPhase q .acquireRead with lock := some q }
    | .releaseLock => { s.toPhase q .releaseRead with lock := some q }
    | _ => s
  else s

def acquireRead (s : Session ι) (q : ι) : Session ι :=
  if agentStateIsLive s.table s.file = true ∧ s.file.references < uintMax then
    { s.set q ⟨.acquired, ⟨s.file.pid, s.file.startTime, true, false⟩⟩ with
      file := { s.file with references := s.file.references + 1 } }
  else
    { s.toPhase q .acquireStart with file := .cleared }

def releaseRead (s : Session ι) (q : ι) : Session ι :=
  let reference := (s.client q).reference
  if s.file.pid = reference.pid ∧ s.file.startTime = reference.startTime ∧
      s.file.references > 0 then
    if s.file.references - 1 = 0 then
      { s.toPhase q .terminating with file := .cleared }
    else
      { s.toPhase q .released with
        file := { s.file with references := s.file.references - 1 } }
  else s.toPhase q .released

def readAgentState (s : Session ι) (q : ι) : Session ι :=
  match (s.client q).phase with
  | .acquireRead => acquireRead s q
  | .releaseRead => releaseRead s q
  | _ => s

/-- A process that the kernel may make. -/
def Session.Fresh (s : Session ι) (process : Identity) : Prop :=
  1 < process.1 ∧ s.table process.1 = none ∧ process ∉ s.used

instance (s : Session ι) (process : Identity) : Decidable (s.Fresh process) :=
  inferInstanceAs (Decidable (_ ∧ _))

def Session.make (s : Session ι) (process : Identity) : Session ι :=
  { s with
    table := Function.update s.table process.1 (some ⟨process.2, true⟩)
    used := process :: s.used }

def startAgent (s : Session ι) (q : ι) (child : Option Identity) : Session ι :=
  if (s.client q).phase = .acquireStart then
    match child with
    | none => s.set q ⟨.acquired, {}⟩
    | some child =>
        if s.Fresh child then
          { (s.make child).set q ⟨.starting child.2, ⟨child.1, 0, true, true⟩⟩ with
            agents := child :: s.agents }
        else s
  else s

def finishAgentReference (s : Session ι) (q : ι) (exited : Bool) : Session ι :=
  let reference := (s.client q).reference
  match (s.client q).phase with
  | .starting startTime =>
      if exited then
        { s.toPhase q (.stopping startTime) with
          table := Function.update s.table reference.pid (some ⟨startTime, false⟩)
          file := .cleared }
      else
        match processStartTime s.table reference.pid with
        | some found =>
            { s.set q ⟨.acquired, ⟨reference.pid, found, true, false⟩⟩ with
              file := ⟨reference.pid, found, 1⟩ }
        | none => s.toPhase q .acquired
  | _ => s

def Session.kill (s : Session ι) (q : ι) (cause : Cause) : Session ι :=
  let number := (s.client q).reference.pid
  let agent := (s.client q).identity
  { s with signals := ⟨number, agent, s.table number, cause, s.holders agent⟩ :: s.signals }

/-- The next signal of `stop_agent` or `terminate_agent`. The child that
`stop_agent` goes on to wait for is gone already. -/
def signal (s : Session ι) (q : ι) : Session ι :=
  match (s.client q).phase with
  | .stopping _ => (s.kill q .failedStart).set q ⟨.acquired, {}⟩
  | .terminating => (s.kill q .lastRelease).toPhase q (.polling 20)
  | .killing => (s.kill q .lastRelease).toPhase q .released
  | _ => s

def poll (s : Session ι) (q : ι) : Session ι :=
  match (s.client q).phase with
  | .polling 0 => s.toPhase q .killing
  | .polling (attempts + 1) =>
      if groupExists s.table (s.client q).reference.pid then
        s.toPhase q (.polling attempts)
      else s.toPhase q .released
  | _ => s

def unlock (s : Session ι) (q : ι) : Session ι :=
  match (s.client q).phase with
  | .acquired => { s.toPhase q .idle with lock := none }
  | .released => { s.set q {} with lock := none }
  | _ => s

def Phase.awaits : Phase → Bool
  | .starting _ => true
  | _ => false

/-- Whether an operation has not waited for its child yet. -/
def Session.Awaited (s : Session ι) (pid : Int) : Prop :=
  ∃ q, (s.client q).phase.awaits = true ∧ (s.client q).reference.pid = pid

instance (s : Session ι) (pid : Int) : Decidable (s.Awaited pid) :=
  inferInstanceAs (Decidable (∃ _, _))

def appear (s : Session ι) (process : Identity) : Session ι :=
  if s.Fresh process then s.make process else s

def orphan (s : Session ι) (pid : Int) : Session ι :=
  if s.Awaited pid then s
  else
    match s.table pid with
    | some ⟨startTime, _⟩ =>
        { s with table := Function.update s.table pid (some ⟨startTime, false⟩) }
    | none => s

def vanish (s : Session ι) (pid : Int) : Session ι :=
  if s.Awaited pid then s else { s with table := Function.update s.table pid none }

def step (s : Session ι) : Event ι → Session ι
  | .call q operation => call s q operation
  | .lock q => lockAgentState s q
  | .read q => readAgentState s q
  | .start q child => startAgent s q child
  | .finish q exited => finishAgentReference s q exited
  | .signal q => signal s q
  | .poll q => poll s q
  | .unlock q => unlock s q
  | .appear process => appear s process
  | .orphan pid => orphan s pid
  | .vanish pid => vanish s pid

/-- A session before its first operation, among the processes that there are. -/
structure Session.Starts (s : Session ι) : Prop where
  table_used : ∀ pid group, s.table pid = some group → (pid, group.startTime) ∈ s.used
  file : s.file = .unread
  lock : s.lock = none
  client : s.client = fun _ => {}
  agents : s.agents = []
  signals : s.signals = []

end Spaces.Supervisor
