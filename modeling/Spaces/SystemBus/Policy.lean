import Mathlib.Data.List.Basic
import Spaces.Portal.Variant

/-!
# What the system-bus bridge lets through

A Space reaches three services of the host's system bus through a bridge, and
the bridge decides for every call whether it may go on. The same decision is
taken twice, by the relay inside the Space and by the broker on the host.

`Permitted` says what the decision is for a caller without Network Admin: a call
that reads, at a path of the service it is for. `systemCallAllowed_iff` says that
the code decides exactly that.
-/

namespace Spaces.SystemBus

open Portal (Variant)

/-! ## Messages -/

inductive MessageType where
  | methodCall
  | methodReturn
  | error
  | signal
  deriving DecidableEq

/-- What the bridge reads of a D-Bus message. The body is the tuple of
arguments, `bodySize` what `g_variant_get_size` says of it and `fds` the length
of the descriptor list. -/
structure Message where
  type : MessageType := .methodCall
  serial : Nat := 0
  replySerial : Nat := 0
  noReplyExpected : Bool := false
  sender : Option String := none
  destination : Option String := none
  path : Option String := none
  interfaceName : Option String := none
  member : Option String := none
  errorName : Option String := none
  body : Option (List Variant) := none
  bodySize : Nat := 0
  fds : Nat := 0

/-- `spaces_message_bounded`. -/
def messageBounded (message : Message) : Bool :=
  (message.body.isNone || message.bodySize ≤ 8 * 1024 * 1024) && message.fds ≤ 64

/-- `spaces_message_copy`. -/
def messageCopy (source : Message) (destination : Option String) : Message :=
  { source with sender := none, destination := destination }

/-! ## Services -/

def control : String := "org.anatase.Spaces.SystemBridge1"
def controlPath : String := "/org/anatase/Spaces/SystemBridge"
def introspectable : String := "org.freedesktop.DBus.Introspectable"
def peerInterface : String := "org.freedesktop.DBus.Peer"
def objectManager : String := "org.freedesktop.DBus.ObjectManager"
def properties : String := "org.freedesktop.DBus.Properties"
def nm : String := "org.freedesktop.NetworkManager"
def resolve : String := "org.freedesktop.resolve1"
def upower : String := "org.freedesktop.UPower"

inductive Service where
  | resolve
  | networkManager
  | upower
  deriving DecidableEq

namespace Service

/-- `services`. -/
def name : Service → String
  | .resolve => SystemBus.resolve
  | .networkManager => nm
  | .upower => SystemBus.upower

/-- `roots`. -/
def root : Service → String
  | .resolve => "/org/freedesktop/resolve1"
  | .networkManager => "/org/freedesktop/NetworkManager"
  | .upower => "/org/freedesktop/UPower"

def all : List Service := [.resolve, .networkManager, .upower]

end Service

/-- `service_index`. -/
def serviceIndex (name : Option String) : Option Service :=
  Service.all.find? fun service => name == some service.name

/-- `path_has_prefix`. -/
def pathHasPrefix (value root : String) (separator : Char) : Bool :=
  root.toList.isPrefixOf value.toList &&
    match value.toList.drop root.toList.length with
    | [] => true
    | c :: _ => c == separator

/-- `service_path`. -/
def servicePath (service : Service) (path : Option String) : Bool :=
  path.any (pathHasPrefix · service.root '/')
    || (service == .networkManager && path == some "/org/freedesktop")

def serviceInterface (service : Service) (interfaceName : String) : Bool :=
  pathHasPrefix interfaceName service.name '.'

/-! ## The decision -/

def readMethod (service : Service) (interfaceName method : String) : Bool :=
  match service with
  | .resolve =>
      if interfaceName == resolve ++ ".Manager" then
        ["GetLink", "ResolveHostname", "ResolveAddress", "ResolveRecord",
          "ResolveService"].contains method
      else false
  | .networkManager =>
      if interfaceName == nm then
        ["GetDevices", "GetAllDevices", "GetDeviceByIpIface", "GetPermissions",
          "GetLogging", "state"].contains method
      else if interfaceName == nm ++ ".Settings" then
        ["ListConnections", "GetConnectionByUuid"].contains method
      else if interfaceName == nm ++ ".Settings.Connection" then
        method == "GetSettings"
      else if interfaceName == nm ++ ".Device.Wireless" then
        ["GetAccessPoints", "GetAllAccessPoints"].contains method
      else if interfaceName == nm ++ ".Device.WifiP2P" then
        method == "GetPeers"
      else if interfaceName == nm ++ ".Device" then
        method == "GetAppliedConnection"
      else false
  | .upower =>
      if interfaceName == upower then
        ["EnumerateDevices", "EnumerateKbdBacklights", "GetDisplayDevice",
          "GetCriticalAction"].contains method
      else if interfaceName == upower ++ ".Device" then
        ["GetHistory", "GetStatistics", "Refresh"].contains method
      else if interfaceName == upower ++ ".KbdBacklight" then
        ["GetBrightness", "GetMaxBrightness"].contains method
      else false

/-- The branch of `system_call_allowed` for the properties interface. -/
def propertiesAllowed (service : Service) (method : String)
    (body : Option (List Variant)) (admin : Bool) : Bool :=
  match body with
  | some (.str target :: _) =>
      (serviceInterface service target || (target == "" && method == "GetAll"))
        && (["Get", "GetAll"].contains method
          || (admin && service != .upower && method == "Set"))
  | _ => false

def systemCallAllowed (message : Message) (admin : Bool) : Bool :=
  match serviceIndex message.destination, message.interfaceName, message.member with
  | some service, some interfaceName, some method =>
      if !servicePath service message.path then false
      else if interfaceName == introspectable then method == "Introspect"
      else if interfaceName == peerInterface then
        ["Ping", "GetMachineId"].contains method
      else if interfaceName == objectManager then method == "GetManagedObjects"
      else if interfaceName == properties then
        propertiesAllowed service method message.body admin
      else serviceInterface service interfaceName
        && (readMethod service interfaceName method || (service != .upower && admin))
  | _, _, _ => false

/-! ## What it amounts to -/

/-- The methods of a service's own interfaces that only read. -/
def readMethods : Service → List (String × List String)
  | .resolve =>
      [("org.freedesktop.resolve1.Manager", ["GetLink", "ResolveHostname",
        "ResolveAddress", "ResolveRecord", "ResolveService"])]
  | .networkManager =>
      [("org.freedesktop.NetworkManager", ["GetDevices", "GetAllDevices",
        "GetDeviceByIpIface", "GetPermissions", "GetLogging", "state"]),
      ("org.freedesktop.NetworkManager.Settings",
        ["ListConnections", "GetConnectionByUuid"]),
      ("org.freedesktop.NetworkManager.Settings.Connection", ["GetSettings"]),
      ("org.freedesktop.NetworkManager.Device.Wireless",
        ["GetAccessPoints", "GetAllAccessPoints"]),
      ("org.freedesktop.NetworkManager.Device.WifiP2P", ["GetPeers"]),
      ("org.freedesktop.NetworkManager.Device", ["GetAppliedConnection"])]
  | .upower =>
      [("org.freedesktop.UPower", ["EnumerateDevices", "EnumerateKbdBacklights",
        "GetDisplayDevice", "GetCriticalAction"]),
      ("org.freedesktop.UPower.Device", ["GetHistory", "GetStatistics", "Refresh"]),
      ("org.freedesktop.UPower.KbdBacklight", ["GetBrightness", "GetMaxBrightness"])]

/-- A path of the service: its root, a path under it, or the place where
NetworkManager publishes its object manager. -/
def PathOf (service : Service) (path : String) : Prop :=
  path = service.root ∨ (∃ rest, path = service.root ++ String.ofList ('/' :: rest)) ∨
    (service = .networkManager ∧ path = "/org/freedesktop")

/-- An interface of the service: named by it or below its name. -/
def InterfaceOf (service : Service) (interfaceName : String) : Prop :=
  interfaceName = service.name ∨
    ∃ rest, interfaceName = service.name ++ String.ofList ('.' :: rest)

/-- A call that reads. -/
inductive ReadOnly (service : Service) :
    (interfaceName member : String) → Option (List Variant) → Prop
  | introspect (body) : ReadOnly service introspectable "Introspect" body
  | ping (body) : ReadOnly service peerInterface "Ping" body
  | machineId (body) : ReadOnly service peerInterface "GetMachineId" body
  | managedObjects (body) : ReadOnly service objectManager "GetManagedObjects" body
  | property (target : String) (rest : List Variant) : InterfaceOf service target →
      ReadOnly service properties "Get" (some (.str target :: rest))
  | propertiesOf (target : String) (rest : List Variant) : InterfaceOf service target →
      ReadOnly service properties "GetAll" (some (.str target :: rest))
  /-- The empty interface asks for the properties of every interface. -/
  | allProperties (rest : List Variant) :
      ReadOnly service properties "GetAll" (some (.str "" :: rest))
  | listed {interfaceName member : String} {methods : List String} (body) :
      (interfaceName, methods) ∈ readMethods service → member ∈ methods →
      ReadOnly service interfaceName member body

/-- What a caller without Network Admin may call. -/
def Permitted (message : Message) : Prop :=
  ∃ service path interfaceName member, message.destination = some (Service.name service) ∧
    message.path = some path ∧ PathOf service path ∧
    message.interfaceName = some interfaceName ∧ message.member = some member ∧
    ReadOnly service interfaceName member message.body

theorem pathHasPrefix_iff {value root : String} {separator : Char} :
    pathHasPrefix value root separator = true ↔
      value = root ∨ ∃ rest, value = root ++ String.ofList (separator :: rest) := by
  unfold pathHasPrefix
  constructor
  · intro h
    obtain ⟨hroot, hrest⟩ := Bool.and_eq_true_iff.mp h
    obtain ⟨tail, htail⟩ := List.isPrefixOf_iff_prefix.mp hroot
    rw [← htail, List.drop_left] at hrest
    cases tail with
    | nil =>
        left
        apply String.toList_injective
        rw [← htail, List.append_nil]
    | cons c rest =>
        right
        have hc : c = separator := by simpa using hrest
        subst hc
        refine ⟨rest, ?_⟩
        apply String.toList_injective
        rw [← htail, String.toList_append, String.toList_ofList]
  · intro h
    rcases h with rfl | ⟨rest, rfl⟩
    · simp
    · rw [String.toList_append, String.toList_ofList, List.drop_left]
      simp

theorem readMethod_iff {service : Service} {interfaceName method : String} :
    readMethod service interfaceName method = true ↔
      ∃ methods, (interfaceName, methods) ∈ readMethods service ∧ method ∈ methods := by
  constructor
  · intro h
    cases service <;>
    · simp only [readMethod] at h
      repeat' split at h
      all_goals simp_all [readMethods, resolve, nm, upower]
  · rintro ⟨methods, hmethods, hmethod⟩
    cases service with
    | resolve =>
        obtain ⟨rfl, rfl⟩ := Prod.mk.inj (List.mem_singleton.mp hmethods)
        simpa [readMethod, resolve] using hmethod
    | networkManager =>
        simp only [readMethods, List.mem_cons, List.not_mem_nil, or_false,
          Prod.mk.injEq] at hmethods
        rcases hmethods with ⟨rfl, rfl⟩ | ⟨rfl, rfl⟩ | ⟨rfl, rfl⟩ | ⟨rfl, rfl⟩ |
          ⟨rfl, rfl⟩ | ⟨rfl, rfl⟩
        all_goals simpa [readMethod, nm] using hmethod
    | upower =>
        simp only [readMethods, List.mem_cons, List.not_mem_nil, or_false,
          Prod.mk.injEq] at hmethods
        rcases hmethods with ⟨rfl, rfl⟩ | ⟨rfl, rfl⟩ | ⟨rfl, rfl⟩
        all_goals simpa [readMethod, upower] using hmethod

theorem serviceIndex_eq_some {name : Option String} {service : Service} :
    serviceIndex name = some service ↔ name = some service.name := by
  unfold serviceIndex
  constructor
  · intro h
    simpa using List.find?_some h
  · rintro rfl
    cases service <;> decide

theorem servicePath_iff {service : Service} {path : Option String} :
    servicePath service path = true ↔ ∃ p, path = some p ∧ PathOf service p := by
  cases path with
  | none => simp [servicePath]
  | some path =>
      simp only [servicePath, Option.any_some, Bool.or_eq_true, Bool.and_eq_true,
        beq_iff_eq, Option.some.injEq, pathHasPrefix_iff, PathOf, exists_eq_left', or_assoc]

theorem serviceInterface_iff {service : Service} {interfaceName : String} :
    serviceInterface service interfaceName = true ↔ InterfaceOf service interfaceName :=
  pathHasPrefix_iff

/-- The listed methods are all on interfaces of their service, none of which is
an interface of the bus. -/
theorem readMethods_interface {service : Service} {interfaceName : String}
    {methods : List String} (h : (interfaceName, methods) ∈ readMethods service) :
    serviceInterface service interfaceName = true ∧ interfaceName ≠ introspectable ∧
      interfaceName ≠ peerInterface ∧ interfaceName ≠ objectManager ∧
      interfaceName ≠ properties := by
  have hall : ∀ service : Service, ∀ entry ∈ readMethods service,
      serviceInterface service entry.1 = true ∧ entry.1 ≠ introspectable ∧
        entry.1 ≠ peerInterface ∧ entry.1 ≠ objectManager ∧ entry.1 ≠ properties := by
    intro service
    cases service <;> decide +kernel
  exact hall service _ h

theorem propertiesAllowed_readOnly {service : Service} {method : String}
    {body : Option (List Variant)} (h : propertiesAllowed service method body false = true) :
    ReadOnly service properties method body := by
  unfold propertiesAllowed at h
  split at h
  · next target rest =>
      simp only [Bool.and_eq_true, Bool.or_eq_true, beq_iff_eq, Bool.false_and,
        Bool.false_eq_true, or_false, List.contains_cons, List.contains_nil] at h
      obtain ⟨htarget, hmethod⟩ := h
      rcases htarget with htarget | ⟨rfl, rfl⟩
      · have htarget := serviceInterface_iff.mp htarget
        rcases hmethod with rfl | rfl
        · exact .property target rest htarget
        · exact .propertiesOf target rest htarget
      · exact .allProperties rest
  · cases h

/-- The decision, once the service and the path are right. -/
theorem ReadOnly.allowed {service : Service} {interfaceName method : String}
    {message : Message} (h : ReadOnly service interfaceName method message.body)
    (hservice : message.destination = some service.name)
    (hpath : servicePath service message.path = true)
    (hinterface : message.interfaceName = some interfaceName)
    (hmethod : message.member = some method) : systemCallAllowed message false = true := by
  rw [systemCallAllowed, serviceIndex_eq_some.mpr hservice, hinterface, hmethod]
  simp only [hpath, Bool.not_true, Bool.false_eq_true, if_false]
  generalize hbody : message.body = body at h
  cases h with
  | introspect => rfl
  | ping => rfl
  | machineId => rfl
  | managedObjects => rfl
  | property target rest htarget =>
      rw [if_neg (by decide), if_neg (by decide), if_neg (by decide),
        if_pos (beq_self_eq_true _)]
      simp [propertiesAllowed, serviceInterface_iff.mpr htarget]
  | propertiesOf target rest htarget =>
      rw [if_neg (by decide), if_neg (by decide), if_neg (by decide),
        if_pos (beq_self_eq_true _)]
      simp [propertiesAllowed, serviceInterface_iff.mpr htarget]
  | allProperties rest =>
      rw [if_neg (by decide), if_neg (by decide), if_neg (by decide),
        if_pos (beq_self_eq_true _)]
      simp [propertiesAllowed]
  | listed _ hmethods hmem =>
      obtain ⟨hown, hi, hp, ho, hr⟩ := readMethods_interface hmethods
      have hread := readMethod_iff.mpr ⟨_, hmethods, hmem⟩
      simp [hi, hp, ho, hr, hown, hread]

theorem systemCallAllowed_iff {message : Message} :
    systemCallAllowed message false = true ↔ Permitted message := by
  constructor
  · intro h
    unfold systemCallAllowed at h
    split at h
    · next service interfaceName method hservice hinterface hmethod =>
        split at h
        · cases h
        · next hpath =>
            obtain ⟨path, hpath, hof⟩ := servicePath_iff.mp (by simpa using hpath)
            refine ⟨service, path, interfaceName, method,
              serviceIndex_eq_some.mp hservice, hpath, hof, hinterface, hmethod, ?_⟩
            split at h
            · next hi =>
                rw [eq_of_beq hi, eq_of_beq h]
                exact .introspect _
            · split at h
              · next hi =>
                  have hmem : method = "Ping" ∨ method = "GetMachineId" := by simpa using h
                  rw [eq_of_beq hi]
                  rcases hmem with rfl | rfl
                  · exact .ping _
                  · exact .machineId _
              · split at h
                · next hi =>
                    rw [eq_of_beq hi, eq_of_beq h]
                    exact .managedObjects _
                · split at h
                  · next hi =>
                      rw [eq_of_beq hi]
                      exact propertiesAllowed_readOnly h
                  · have hread : readMethod service interfaceName method = true := by
                      simpa using (Bool.and_eq_true_iff.mp h).2
                    obtain ⟨methods, hmethods, hmem⟩ := readMethod_iff.mp hread
                    exact .listed _ hmethods hmem
    · cases h
  · rintro ⟨service, path, interfaceName, method, hservice, hpath, hof, hinterface,
      hmethod, hread⟩
    exact hread.allowed hservice (servicePath_iff.mpr ⟨path, hpath, hof⟩) hinterface hmethod

end Spaces.SystemBus
