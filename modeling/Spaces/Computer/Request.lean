import Spaces.Library.Attempt
import Spaces.Library.Text
import Spaces.Mcp.Protocol

/-!
# The request being served, and what stops it

A request works on the host in long operations, which dispatch what comes in from
outside at safe places: that the request was cancelled, that the screen was locked,
that the login or the compositor went away. `scuTick` is such a place, and it fails
once the request has to stop. A request for vision also stops at a lock.

`Host` is the host under all this. Its operations are given, and each says what it
dispatched and read, the failure that is recorded after it, and what it left of the
host. So a cancellation that was dispatched is not forgotten, and neither is a lock.
-/

namespace Spaces.Computer.Batch

open Spaces.Library
open Spaces.Mcp (Failure Members)

/-- The session of the desktop, as the host last knew it. -/
structure Desktop where
  session : Bool
  valid : Bool
  locked : Bool
  lockKnown : Bool
  screenLocked : Bool
  screenKnown : Bool
  systemClosed : Bool

/-- What is dispatched from outside or read there. -/
inductive Event where
  | cancelled
  | clientClosed
  | stopping
  | deadlinePassed
  | lockedHint (locked : Bool)
  | lockedHintUnknown
  | loginInactive
  | screenChanged (locked : Bool)
  | lockerOwnerChanged
  | sessionRead (locked : Bool)
  | screenRead (locked : Option Bool)
  | lockChecked
  | systemBusClosed
  | sessionBusClosed
  | compositorClosed
  | visualOpened
  | visualClosed
  | treesCleared

/-- The tree that a client was last sent of a window. -/
structure TreeBaseline where
  window : Int := 0
  tree : Option Text := none
  truncated : Bool := false

structure Client where
  visionTree : TreeBaseline := {}
  accessibilityTree : TreeBaseline := {}

/-- The state of a request, with the host it works on. -/
structure Scu (R : Type) where
  failure : Option Failure := none
  visionRequest : Bool := false
  lockSeen : Bool := false
  lockMonitor : Bool := false
  cancelled : Bool := false
  stopping : Bool := false
  late : Bool := false
  keyboardFallback : Bool := false
  desktop : Desktop
  /-- The connection of the visual session is lost. -/
  broken : Bool := false
  /-- The visual session has a connection. -/
  bus : Bool := false
  sessionBusClosed : Bool := false
  /-- The client whose request it is, while it is connected. -/
  client : Option Client := none
  rest : R

/-- What an operation of the host did. -/
structure Outcome (R α : Type) where
  events : List Event
  failure : Option Failure
  rest : R
  value : Option α

abbrev Operation (R α : Type) := Scu R → Outcome R α

structure Host (R : Type) where
  /-- `poll_backend` and the main context. -/
  dispatch : Operation R Unit
  /-- How often a pause of at most so many milliseconds looks at the clock. -/
  rounds : Nat → Scu R → Nat
  releaseInput : R → R
  /-- `scu_invalidate`, as far as the host itself goes. -/
  invalidate : R → R
  clearImages : R → R
  /-- The `LockedHint` of the login, while it is active. -/
  readSession : Operation R Bool
  /-- `GetActive` of the screen locker. -/
  readScreen : Operation R Bool
  ensureVisualSession : Operation R Unit
  keyboardAction : Json → Operation R Members
  typeForegroundText : Json → Operation R Members
  pointerAction : String → Json → Operation R Members
  atspi : String → Json → Operation R Members
  typeTargetValue : String → Json → Bool → Operation R Members
  captureDesktop : Operation R Members
  refreshGeometry : Operation R Unit
  observeWindow : Int → Bool → Operation R Members
  /-- Whether the helper that reads trees is running. -/
  worker : R → Bool
  /-- Whether memory is given for a table of so many entries. -/
  allocated : Nat → Bool

variable {R α : Type} (host : Host R)

/-! ## Failures and events -/

/-- `scu_fail`: the first failure is the one that is recorded. -/
def record (failure : Failure) (s : Scu R) : Scu R :=
  { s with failure := s.failure <|> some failure }

def scuFail (code hint : String) : Attempt (Scu R) α := Attempt.fail (record ⟨code, hint⟩)

def clearToolError (s : Scu R) : Scu R := { s with failure := none }

def release (s : Scu R) : Scu R := { s with rest := host.releaseInput s.rest }

def isLocked (s : Scu R) : Bool :=
  s.desktop.session && (s.desktop.locked || s.desktop.screenLocked)

/-- `desktop_check_lock`. -/
def checkLock (s : Scu R) : Scu R :=
  if !s.desktop.session then s
  else if !s.desktop.valid || s.desktop.systemClosed then release host { s with stopping := true }
  else if s.desktop.locked || s.desktop.screenLocked then
    release host { s with lockSeen := s.lockSeen || s.lockMonitor }
  else if !s.desktop.lockKnown || !s.desktop.screenKnown then release host s
  else s

def TreeBaseline.clear (baseline : TreeBaseline) : TreeBaseline := { baseline with tree := none }

/-- `host_clear_tree_baselines`, for the client of the request. -/
def clearTrees (s : Scu R) : Scu R :=
  { s with
    client := s.client.map fun client =>
      { visionTree := client.visionTree.clear
        accessibilityTree := client.accessibilityTree.clear } }

def handle (s : Scu R) : Event → Scu R
  | .cancelled => { s with cancelled := true }
  | .clientClosed => { s with cancelled := true, client := none }
  | .stopping => { s with stopping := true }
  | .deadlinePassed => { s with late := true }
  | .lockedHint locked =>
      { s with
        desktop := { s.desktop with locked, lockKnown := true }
        lockSeen := s.lockSeen || (locked && s.lockMonitor) }
  | .lockedHintUnknown => { s with desktop := { s.desktop with lockKnown := false } }
  | .loginInactive => { s with desktop := { s.desktop with valid := false } }
  | .screenChanged locked =>
      checkLock host { s with
        desktop := { s.desktop with screenLocked := locked, screenKnown := true }
        lockSeen := s.lockSeen || (locked && s.lockMonitor) }
  | .lockerOwnerChanged =>
      release host { s with desktop := { s.desktop with screenKnown := false } }
  | .sessionRead locked =>
      { s with desktop := { s.desktop with locked, lockKnown := true, valid := true } }
  | .screenRead none => { s with desktop := { s.desktop with screenKnown := false } }
  | .screenRead (some locked) =>
      { s with
        desktop := { s.desktop with screenLocked := locked, screenKnown := true }
        lockMonitor := true }
  | .lockChecked => checkLock host s
  | .systemBusClosed => { s with desktop := { s.desktop with systemClosed := true } }
  | .sessionBusClosed => { s with sessionBusClosed := true }
  | .compositorClosed => { s with broken := true }
  | .visualOpened => { s with bus := true }
  | .visualClosed => { s with broken := false, bus := false }
  | .treesCleared => clearTrees s

/-- The state after an operation of the host. -/
def settle (s : Scu R) (outcome : Outcome R α) : Scu R :=
  { outcome.events.foldl (handle host) s with
    failure := outcome.failure
    rest := outcome.rest }

def perform (operation : Operation R α) : Attempt (Scu R) α := fun s =>
  ((operation s).value, settle host s (operation s))

/-! ## The places where a request may have to stop -/

def desktopLockedWarning : String :=
  "The screen is locked. Vision tools are unavailable. You need to use the accesibility tool " ++
  "or ask the user to unlock."

def lockUnavailable : String := "Cannot inspect the host session lock."

/-- `desktop_input_allowed`. -/
def inputAllowed : Attempt (Scu R) Unit := fun s =>
  if isLocked s || s.lockSeen then scuFail "desktop_locked" desktopLockedWarning s
  else if s.desktop.session && (!s.desktop.lockKnown || !s.desktop.screenKnown) then
    scuFail "desktop_session_unavailable" lockUnavailable s
  else (some (), s)

/-- Whether the request is still wanted, and in time. -/
def wanted : Attempt (Scu R) Unit := do
  let s ← Attempt.look
  if s.cancelled || s.stopping then
    scuFail "cancelled" "Operation cancelled. Completed actions were not rolled back."
  else if s.late then
    scuFail "timeout" "Operation exceeded its time limit; inspect state before retrying."
  else pure ()

/-- Whether the request goes on, once everything was dispatched. -/
def goOn : Attempt (Scu R) Unit := do
  if (← Attempt.look).visionRequest then inputAllowed
  wanted

def scuTick : Attempt (Scu R) Unit := do
  perform host host.dispatch
  Attempt.update (checkLock host)
  goOn

def scuPause (ms : Nat) : Attempt (Scu R) Unit := do
  scuTick host
  (scuTick host).times (host.rounds ms (← Attempt.look))

/-- `require_computer_access`. -/
def requireComputerAccess : Attempt (Scu R) Unit := do
  let s ← Attempt.look
  if s.broken then
    Attempt.update fun s =>
      clearTrees { s with broken := false, bus := false, rest := host.invalidate s.rest }
    scuFail "computer_use_disconnected"
      ("KWin computer use disconnected. Inspect status before continuing; no action was " ++
       "replayed.")
  else if s.sessionBusClosed then
    scuFail "computer_use_unavailable" "The host session bus is unavailable."
  else
    Attempt.update fun s => { s with bus := true }
    scuTick host

/-- `wait_for_delay`. -/
def waitForDelay (ms : Nat) : Attempt (Scu R) Unit := do
  let round : Attempt (Scu R) Unit := do
    scuPause host 10
    requireComputerAccess host
  round.times (host.rounds ms (← Attempt.look))

/-- The lock cannot be read. The bus says why, if it is the bus. -/
def unavailable (s : Scu R) : Option Unit × Scu R :=
  scuFail "desktop_session_unavailable" lockUnavailable (release host s)

/-- `desktop_refresh_lock`. -/
def refreshLock : Attempt (Scu R) Unit := fun s =>
  if !s.desktop.session then (some (), s)
  else if !s.desktop.valid then
    scuFail "desktop_session_unavailable" "The selected graphical login is no longer active." s
  else
    match perform host host.readSession s with
    | (none, s) => unavailable host s
    | (some locked, s) =>
        match perform host host.readScreen (handle host s (.sessionRead locked)) with
        | (none, s) => unavailable host (handle host s (.screenRead none))
        | (some locked, s) =>
            (some (), checkLock host (handle host s (.screenRead (some locked))))

/-- `desktop_foreground_ready`. -/
def foregroundReady : Attempt (Scu R) Unit := do
  refreshLock host
  inputAllowed

/-- `visual_step`. -/
def visualStep : Attempt (Scu R) Unit := do
  scuTick host
  requireComputerAccess host
  if (← Attempt.look).broken then Attempt.fail id
  inputAllowed

end Spaces.Computer.Batch
