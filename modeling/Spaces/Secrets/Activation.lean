import Spaces.Library.Runs

/-!
# The activation of the secret provider

The session bus starts `spaces-secret-helper` when something asks for one of
four names that nobody owns. The helper takes a lock, so that one activation
runs at a time, and `activate_provider` then adopts the storage provider that
owns `org.freedesktop.secrets`, or starts one and asks it whether its wallet is
open. A wallet that stays locked is moved aside and the provider started again.

That an owner of the storage name was started by an earlier activation is
remembered by a marker file only. A process outside the helper may take and
release names between any two of its calls, so the state of the bus and the
activation are stepped apart: a step of the helper is one call of the source
that the bus, the portal, the wallet or a child answers. A process is told from
all others as long as the history goes on (process numbers are not reused), and
killing one is not the end of it: `exits` is a step of its own.

Of the wallet only its answers are kept, and of its files only that they are
moved. The texts of the messages are left out.
-/

namespace Spaces.Secrets

/-- The names that activate the helper. -/
inductive Name where
  | secrets
  | secretservicecompat
  | kwalletd5
  | kwalletd6
deriving DecidableEq, Repr

/-- A process that may own a name: a child of some activation, numbered in the
order they were started in, or any other. -/
inductive Process where
  | started (number : Nat)
  | other (number : Nat)
deriving DecidableEq, Repr

def Process.Other : Process → Prop
  | .started _ => False
  | .other _ => True

instance : DecidablePred Process.Other
  | .started _ => inferInstanceAs (Decidable False)
  | .other _ => inferInstanceAs (Decidable True)

inductive WalletState where
  | opened
  | closed
  | timeout
  | error
deriving DecidableEq, Repr

/-- What an activation does after it has killed providers. -/
inductive After where
  | fail
  /-- Unlink the marker and fail. -/
  | unlink
  /-- Unlink the marker and back up the wallet. -/
  | backUp
deriving DecidableEq, Repr

/-- Where in `activate_provider` an activation is. -/
inductive Phase where
  | start
  | secret
  | spawn
  | awaitStorage
  /-- `ensure_kf6_proxy`, up to its first answer. -/
  | proxy
  | awaitProxy
  /-- `wallet_open_state`. -/
  | ask
  /-- Calls of `kill_provider` still to be made, each with the child that is
  passed to it. -/
  | kill (targets : List (Name × Option Nat)) (after : After)
  | backUp
  | mark
  | final
deriving DecidableEq, Repr

/-- The activation that holds the lock. -/
structure Activation where
  activationName : Name
  kf6 : Bool
  /-- The storage provider it has started; none while it adopts one. -/
  child : Option Nat
  proxyChild : Option Nat
  /-- The portal has given it the secret. -/
  keyed : Bool
  walletBackedUp : Bool
  phase : Phase
  /-- The names whose owner it has asked the bus for. -/
  seen : List Name
  /-- The owners it goes by, since it began or last started a provider. -/
  reliedOn : List Process

/-- What an activation has done that others can tell. -/
inductive Deed where
  | succeeded (reliedOn : List Process)
  | failed (reliedOn : List Process)
  | killed (process : Process) (reliedOn : List Process)
  | backedUp (reliedOn : List Process)

/-- The processes a deed is done to or goes by. -/
def Deed.because : Deed → List Process
  | .succeeded reliedOn => reliedOn
  | .failed reliedOn => reliedOn
  | .killed process reliedOn => process :: reliedOn
  | .backedUp reliedOn => reliedOn

def Deed.Refuses : Deed → Prop
  | .failed _ => True
  | _ => False

structure State where
  owner : Name → Option Process
  marker : Bool
  /-- How many children the activations have started. -/
  spawned : Nat
  helper : Option Activation
  deeds : List Deed

def State.initial : State where
  owner := fun _ => none
  marker := false
  spawned := 0
  helper := none
  deeds := []

/-- What the world answers to the call an activation makes next. -/
structure Answer where
  /-- A call to the bus itself comes back. -/
  reached : Bool := true
  /-- The program is there, the child is started, the portal gives the secret,
  the files are moved, the marker is made. -/
  works : Bool := true
  /-- A child was forked, whether or not it can be used. -/
  forked : Bool := true
  /-- The child passed to `kill_provider` has not ended. -/
  running : Bool := true
  wallet : WalletState := .opened

inductive Event where
  /-- An activation gets the lock. -/
  | begins (activationName : Name) (kf6 : Bool)
  | helper (answer : Answer)
  /-- The helper process ends before its activation does. -/
  | aborts
  | gains (process : Process) (name : Name)
  | releases (name : Name)
  | exits (process : Process)

/-! ## The parts of `activate_provider` -/

/-- The name `wallet_open_state` asks. -/
def Activation.walletName (a : Activation) : Name :=
  if a.kf6 then .kwalletd6 else .kwalletd5

/-- The bus has been asked for the owner of a name, and this is what it said. -/
def Activation.sees (a : Activation) (name : Name) (found : Option Process) : Activation :=
  { a with seen := name :: a.seen, reliedOn := found.toList ++ a.reliedOn }

namespace State

/-- `name_has_owner`, `connection_pid`: a call that fails finds nobody. -/
def finds (s : State) (answer : Answer) (name : Name) : Option Process :=
  if answer.reached then s.owner name else none

def proceeds (s : State) (a : Activation) (phase : Phase) : State :=
  { s with helper := some { a with phase } }

/-- `goto out` with the result of a failure. -/
def fails (s : State) (a : Activation) : State :=
  { s with helper := none, deeds := .failed a.reliedOn :: s.deeds }

def unlinkMarker (s : State) : State :=
  { s with marker := false }

/-- The next part is `ensure_kf6_proxy` where there is a proxy. -/
def ensuresProxy (s : State) (a : Activation) : State :=
  s.proceeds a (if a.kf6 then .proxy else .ask)

/-- Up to the branch on `storage_owned`. -/
def start (s : State) (a : Activation) (answer : Answer) : State :=
  let found := s.finds answer .secrets
  let a := a.sees .secrets found
  if !answer.works then s.fails a
  else if found.isSome && !s.marker then s.fails a
  else if found.isSome then s.ensuresProxy a
  else s.proceeds a .secret

def secret (s : State) (a : Activation) (answer : Answer) : State :=
  if answer.works then s.proceeds { a with keyed := true } .spawn else s.fails a

/-- `spawn_storage_provider`. A child that cannot be given its key is killed. -/
def spawn (s : State) (a : Activation) (answer : Answer) : State :=
  if answer.works then
    { s with spawned := s.spawned + 1 }.proceeds
      { a with child := some s.spawned, reliedOn := [] } .awaitStorage
  else if answer.forked then
    { s with
      spawned := s.spawned + 1
      deeds := .killed (.started s.spawned) a.reliedOn :: s.deeds }.unlinkMarker.fails a
  else s.unlinkMarker.fails a

/-- `wait_for_owner` of the storage name, one look at a time. -/
def awaitStorage (s : State) (a : Activation) (answer : Answer) : State :=
  let found := s.finds answer .secrets
  if found.isSome then s.ensuresProxy (a.sees .secrets found)
  else if answer.works then s.proceeds a .awaitStorage
  else s.proceeds { a with child := none } (.kill [(.secrets, a.child)] .unlink)

/-- `ensure_kf6_proxy` returns -1. -/
def lacksProxy (s : State) (a : Activation) : State :=
  match a.child with
  | none => s.fails a
  | some _ => s.proceeds { a with child := none } (.kill [(.secrets, a.child)] .fail)

/-- `ensure_kf6_proxy`. -/
def proxy (s : State) (a : Activation) (answer : Answer) : State :=
  let found := s.finds answer .kwalletd6
  let a := a.sees .kwalletd6 found
  if found.isSome then s.proceeds { a with proxyChild := none } .ask
  else if answer.works then
    { s with spawned := s.spawned + 1 }.proceeds
      { a with proxyChild := some s.spawned } .awaitProxy
  else s.lacksProxy a

/-- `wait_for_owner` of the proxy's name, one look at a time. A proxy that does
not come is killed. -/
def awaitProxy (s : State) (a : Activation) (answer : Answer) : State :=
  let found := s.finds answer .kwalletd6
  if found.isSome then s.proceeds (a.sees .kwalletd6 found) .ask
  else if answer.works then s.proceeds a .awaitProxy
  else
    { s with
      deeds := (a.proxyChild.map fun child => Deed.killed (.started child) a.reliedOn).toList
        ++ s.deeds }.lacksProxy { a with proxyChild := none }

/-- What the wallet says, when there is one to ask. -/
def walletState (s : State) (a : Activation) (answer : Answer) : WalletState :=
  match s.owner a.walletName, answer.wallet with
  | none, .timeout => .timeout
  | none, _ => .error
  | some _, state => state

/-- `kill_provider` of the proxy, where there is one. -/
def proxyTarget (a : Activation) : List (Name × Option Nat) :=
  if a.kf6 then [(.kwalletd6, a.proxyChild)] else []

/-- `wallet_open_state`, and what follows from the answer. -/
def ask (s : State) (a : Activation) (answer : Answer) : State :=
  let a := a.sees a.walletName (s.owner a.walletName)
  let storage := (.secrets, a.child)
  let spared := { a with proxyChild := none, child := none }
  match a.child, s.walletState a answer with
  | none, .opened => s.proceeds a .final
  | none, .timeout => s.proceeds a (.kill (proxyTarget a ++ [storage]) .unlink)
  | none, .error => s.proceeds a (.kill (proxyTarget a) .fail)
  | none, .closed => s.proceeds spared (.kill (proxyTarget a ++ [storage]) .backUp)
  | some _, .opened => s.proceeds a .mark
  | some _, .closed =>
      s.proceeds spared (.kill (proxyTarget a ++ [storage])
        (if a.walletBackedUp then .unlink else .backUp))
  | some _, _ => s.proceeds spared (.kill (proxyTarget a ++ [storage]) .unlink)

/-- The processes that `kill_provider` kills: the owner of the name, and its
own child if that has not ended. -/
def victims (s : State) (answer : Answer) (name : Name) (child : Option Nat) : List Process :=
  let owner := s.finds answer name
  owner.toList ++
    (if answer.running then (child.map Process.started).filter (some · ≠ owner) else none).toList

/-- `kill_provider`, or what comes after the last of them. -/
def kill (s : State) (a : Activation) (answer : Answer) :
    List (Name × Option Nat) → After → State
  | (name, child) :: targets, after =>
      { s with
        deeds := (s.victims answer name child).map (Deed.killed · a.reliedOn) ++ s.deeds }.proceeds
          a (.kill targets after)
  | [], .fail => s.fails a
  | [], .unlink => s.unlinkMarker.fails a
  | [], .backUp => s.unlinkMarker.proceeds a .backUp

/-- `spaces_backup_failed_wallet`. -/
def backUp (s : State) (a : Activation) (answer : Answer) : State :=
  if answer.works then
    { s with deeds := .backedUp a.reliedOn :: s.deeds }.proceeds
      { a with walletBackedUp := true } (if a.keyed then .spawn else .secret)
  else s.fails a

/-- `create_marker`. -/
def mark (s : State) (a : Activation) (answer : Answer) : State :=
  if answer.works then { s with marker := true }.proceeds a .final
  else s.proceeds { a with child := none } (.kill [(.secrets, a.child)] .fail)

/-- The last look, at the name that was asked for. -/
def final (s : State) (a : Activation) (answer : Answer) : State :=
  let found := s.finds answer a.activationName
  let a := a.sees a.activationName found
  if found.isSome then
    { s with helper := none, deeds := .succeeded a.reliedOn :: s.deeds }
  else s.fails a

/-- One call of `activate_provider` and what it does with the answer. -/
def helps (s : State) (a : Activation) (answer : Answer) : State :=
  match a.phase with
  | .start => s.start a answer
  | .secret => s.secret a answer
  | .spawn => s.spawn a answer
  | .awaitStorage => s.awaitStorage a answer
  | .proxy => s.proxy a answer
  | .awaitProxy => s.awaitProxy a answer
  | .ask => s.ask a answer
  | .kill targets after => s.kill a answer targets after
  | .backUp => s.backUp a answer
  | .mark => s.mark a answer
  | .final => s.final a answer

def begins (s : State) (activationName : Name) (kf6 : Bool) : State :=
  { s with
    helper := some
      { activationName, kf6
        child := none
        proxyChild := none
        keyed := false
        walletBackedUp := false
        phase := .start
        seen := []
        reliedOn := [] } }

/-- A name changes hands. -/
def hands (s : State) (name : Name) (process : Option Process) : State :=
  { s with owner := Function.update s.owner name process }

def step (s : State) : Event → State
  | .begins activationName kf6 =>
      match s.helper with
      | none => s.begins activationName kf6
      | some _ => s
  | .helper answer =>
      match s.helper with
      | none => s
      | some a => s.helps a answer
  | .aborts => { s with helper := none }
  | .gains process name => s.hands name process
  | .releases name => s.hands name none
  | .exits process =>
      { s with owner := fun name => (s.owner name).filter (· ≠ process) }

end State

end Spaces.Secrets
