import Spaces.Desktop.Planning
import Spaces.Library.Outcome

/-!
# What the planned environment names

Nine variables of the environment name something of the host's session. Each phase of
the planner settles its own: the variable is set together with the bind that it leads
to, or it is gone. No later phase changes it, and binds are never taken back.

`XAUTHORITY` is the exception. It is copied with the rest of the environment and only
replaced where the display was forwarded and the cookie file is accepted. Otherwise the
host's path stays in the plan and nothing is bound there, while the variables of the
sound servers are taken out in the same case.
-/

namespace Spaces.Desktop

open Spaces.Library Outcome Spaces.Shortcuts Spaces.Binds

inductive ResourceVariable where
  | waylandDisplay
  | display
  | xauthority
  | pulseServer
  | pipewireRuntimeDir
  | pipewireRemote
  | dconfProfile
  | fontconfigFile
  | sshAuthSock
  deriving DecidableEq

namespace ResourceVariable

def name : ResourceVariable → String
  | waylandDisplay => "WAYLAND_DISPLAY"
  | display => "DISPLAY"
  | xauthority => "XAUTHORITY"
  | pulseServer => "PULSE_SERVER"
  | pipewireRuntimeDir => "PIPEWIRE_RUNTIME_DIR"
  | pipewireRemote => "PIPEWIRE_REMOTE"
  | dconfProfile => "DCONF_PROFILE"
  | fontconfigFile => "FONTCONFIG_FILE"
  | sshAuthSock => "SSH_AUTH_SOCK"

/-- The variables that say together where this one leads. -/
def names : ResourceVariable → List String
  | pipewireRuntimeDir | pipewireRemote => ["PIPEWIRE_RUNTIME_DIR", "PIPEWIRE_REMOTE"]
  | v => [v.name]

/-- Where a value of the variable leads in the machine. -/
def leadsTo (environment : Environment) : ResourceVariable → FsName → Option Place
  | display, value => (localDisplay value).map fun number => place (displaySocket number)
  | pulseServer, value => (value.dropPrefix? (fsName "unix:")).map fun rest => place (fsPath rest)
  | pipewireRuntimeDir, value =>
      (environment "PIPEWIRE_REMOTE").map fun remote => place ((fsPath value).div remote)
  | pipewireRemote, value =>
      (environment "PIPEWIRE_RUNTIME_DIR").map fun runtime => place ((fsPath runtime).div value)
  | _, value => some (place (fsPath value))

theorem leadsTo_congr {environment environment' : Environment} {v : ResourceVariable}
    (h : ∀ name ∈ v.names, environment' name = environment name) (value : FsName) :
    leadsTo environment' v value = leadsTo environment v value := by
  cases v with
  | pipewireRuntimeDir => simp [leadsTo, h "PIPEWIRE_REMOTE" (by simp [names])]
  | pipewireRemote => simp [leadsTo, h "PIPEWIRE_RUNTIME_DIR" (by simp [names])]
  | _ => rfl

theorem name_mem_names (v : ResourceVariable) : v.name ∈ v.names := by
  cases v <;> simp [names, name]

end ResourceVariable

/-! ## What is granted -/

/-- The source is there and is accepted. -/
def Accepts (host : Host) (item : Item) : Prop :=
  ∃ found, host.check item.resource item.request = .ok (some found)

/-- The roots that do not exist do not count. -/
def AcceptsCredential (host : Host) (item : Item) : Prop :=
  let roots := item.request.roots.filter (host.kernel item.resource).pathExists
  roots ≠ [] ∧ Accepts host { item with request := { item.request with roots := roots } }

/-- What the host's environment has and what the checks find, for a session's desktop. -/
structure Setting where
  host : Host
  user : PlannedUser
  source : Environment
  generated : FsPath

/-- The session's resource of a variable is there and is accepted. -/
def DesktopGrants (s : Setting) : ResourceVariable → Prop
  | .waylandDisplay => ∃ value item, copiedEnvironment s.source "WAYLAND_DISPLAY" = some value ∧
      waylandItem s.user value = .ok item ∧ Accepts s.host item
  | .display => ∃ value number, copiedEnvironment s.source "DISPLAY" = some value ∧
      localDisplay value = some number ∧ Accepts s.host (displayItem number)
  | .xauthority => (∃ value number, copiedEnvironment s.source "DISPLAY" = some value ∧
      localDisplay value = some number ∧ Accepts s.host (displayItem number)) ∧
      Accepts s.host (xauthorityItem s.user s.source)
  | .pulseServer => Accepts s.host (pulseItem s.user s.source)
  | .pipewireRuntimeDir | .pipewireRemote =>
      Accepts s.host (pipewireItem s.user .pipewire (pipewireRemote s.source))
  | .dconfProfile => ∃ layout,
      gtkDecorationLayout s.host s.user (configHome s.user s.source) toolkits =
        .ok (some layout) ∧
      s.host.writeDesktopSettings layout = .ok () ∧
      Accepts s.host (dconfProfile s.user s.generated) ∧
      Accepts s.host (dconfDatabase s.user s.generated)
  | .fontconfigFile => (∃ item ∈ fontItems s.user, Accepts s.host item) ∧
      Accepts s.host (fontConfigItem s.user s.generated)
  | .sshAuthSock => False

def CredentialGrants (s : Setting) : ResourceVariable → Prop
  | .sshAuthSock =>
      AcceptsCredential s.host (sshAgentItem s.user (fsPath (sshValue s.user s.source)))
  | _ => False

/-- The variable's resource is granted to the user, and accepted. -/
def Granted (s : Setting) (sessions : List LoginSession) (v : ResourceVariable) : Prop :=
  ((selectedSession s.user sessions s.source).isSome ∧ DesktopGrants s v) ∨
    (s.user.credentialAgents = true ∧ CredentialGrants s v)

/-! ## Drafts -/

/-- Binds are only added, and the environment is changed in some places only. -/
structure Draft.Leads (changed : List String) (draft draft' : Draft) : Prop where
  kept : ∀ name ∉ changed, draft'.environment name = draft.environment name
  binds : draft.binds ⊆ draft'.binds

/-- The variable is gone, or its resource is bound where it leads. -/
def Draft.Settled (grants : ResourceVariable → Prop) (v : ResourceVariable) (draft : Draft) :
    Prop :=
  ∀ value, draft.environment v.name = some value →
    grants v ∧ ∃ binding ∈ draft.binds,
      v.leadsTo draft.environment value = some binding.destination

namespace Draft

variable {grants : ResourceVariable → Prop} {changed others : List String}
  {draft draft' draft'' : Draft} {v : ResourceVariable}

theorem pop_gone (draft : Draft) (name : String) : (draft.pop name).environment name = none :=
  Environment.pop_self ..

theorem Leads.refl (draft : Draft) : Leads [] draft draft := ⟨fun _ _ => rfl, List.Subset.refl _⟩

theorem Leads.trans (h : Leads changed draft draft') (h' : Leads others draft' draft'') :
    Leads (changed ++ others) draft draft'' where
  kept name hname := by
    rw [List.mem_append, not_or] at hname
    rw [h'.kept name hname.2, h.kept name hname.1]
  binds := fun _ hmem => h'.binds (h.binds hmem)

theorem Leads.set (h : Leads changed draft draft') (name : String) (value : FsName) :
    Leads (changed ++ [name]) draft (draft'.set name value) where
  kept other hother := by
    rw [List.mem_append, not_or, List.mem_singleton] at hother
    rw [set_environment, Environment.set_of_ne _ _ hother.2, h.kept other hother.1]
  binds := h.binds

theorem Leads.pop (h : Leads changed draft draft') (name : String) :
    Leads (changed ++ [name]) draft (draft'.pop name) where
  kept other hother := by
    rw [List.mem_append, not_or, List.mem_singleton] at hother
    rw [pop_environment, Environment.pop_of_ne _ hother.2, h.kept other hother.1]
  binds := h.binds

theorem Leads.mono (h : Leads changed draft draft') (hsub : changed ⊆ others) :
    Leads others draft draft' where
  kept name hname := h.kept name fun hmem => hname (hsub hmem)
  binds := h.binds

theorem Leads.gone (h : Leads [] draft draft') {name : String}
    (hnone : draft.environment name = none) : draft'.environment name = none :=
  (h.kept name List.not_mem_nil).trans hnone

theorem Settled.keep (hsettled : Settled grants v draft) (h : Leads changed draft draft')
    (hnames : ∀ name ∈ v.names, name ∉ changed) : Settled grants v draft' := by
  intro value hvalue
  rw [h.kept _ (hnames _ v.name_mem_names)] at hvalue
  obtain ⟨hgrants, binding, hbinding, hleads⟩ := hsettled value hvalue
  refine ⟨hgrants, binding, h.binds hbinding, ?_⟩
  rw [ResourceVariable.leadsTo_congr fun name hname => h.kept name (hnames name hname), hleads]

theorem Settled.of_none (h : draft.environment v.name = none) : Settled grants v draft := by
  intro value hvalue
  rw [h] at hvalue
  cases hvalue

end Draft

/-! ## Adding -/

theorem add_ok {host : Host} {item : Item} {draft draft' : Draft} {found : Bool}
    (h : add host item draft = .ok (found, draft')) :
    Draft.Leads [] draft draft' ∧ (found = true ↔ Accepts host item) ∧
      (found = true → ∃ binding ∈ draft'.binds, binding.destination = place item.destination) := by
  unfold add at h
  obtain ⟨checked, hchecked, h⟩ := map_eq_ok.mp h
  cases checked with
  | none =>
      cases h
      refine ⟨.refl draft, ?_, fun hfalse => by cases hfalse⟩
      simp [Accepts, hchecked]
  | some checked =>
      cases h
      refine ⟨⟨fun _ _ => rfl, List.subset_append_left ..⟩, ?_, fun _ => ?_⟩
      · simp [Accepts, hchecked]
      · exact ⟨_, List.mem_append_right _ (List.mem_singleton_self _), rfl⟩

theorem addEach_ok {host : Host} {items found : List Item} {draft draft' : Draft}
    (h : addEach host items draft = .ok (found, draft')) :
    Draft.Leads [] draft draft' ∧ ∀ item ∈ found, item ∈ items ∧ Accepts host item := by
  induction items generalizing found draft with
  | nil =>
      cases h
      exact ⟨.refl _, fun item hitem => absurd hitem List.not_mem_nil⟩
  | cons item items ih =>
      rw [addEach] at h
      obtain ⟨⟨added, middle⟩, hadd, h⟩ := bind_eq_ok.mp h
      obtain ⟨⟨others, last⟩, hothers, h⟩ := bind_eq_ok.mp h
      cases h
      obtain ⟨hleads, haccepts, -⟩ := add_ok hadd
      obtain ⟨hleads', hall⟩ := ih hothers
      refine ⟨hleads.trans hleads', fun other hother => ?_⟩
      have hlater : other ∈ others → other ∈ item :: items ∧ Accepts host other := fun hmem =>
        ⟨List.mem_cons_of_mem _ (hall other hmem).1, (hall other hmem).2⟩
      split at hother
      · next hadded =>
          rcases List.mem_cons.mp hother with rfl | hmem
          · exact ⟨List.mem_cons_self, haccepts.mp hadded⟩
          · exact hlater hmem
      · exact hlater hother

theorem addRoots_ok {host : Host} {roots : List DataRoot} {found : List FsName}
    {draft draft' : Draft} (h : addRoots host roots draft = .ok (found, draft')) :
    Draft.Leads [] draft draft' := by
  induction roots generalizing found draft with
  | nil =>
      cases h
      exact .refl _
  | cons root roots ih =>
      rw [addRoots] at h
      obtain ⟨⟨added, middle⟩, hadd, h⟩ := bind_eq_ok.mp h
      obtain ⟨⟨others, last⟩, hothers, h⟩ := bind_eq_ok.mp h
      cases h
      exact (addEach_ok hadd).1.trans (ih hothers)

/-! ## Places in the machine -/

theorem fsPath_str {path : FsPath} (h : path.root = .single) : fsPath path.str = path :=
  PurePath.parse_str h

theorem slash_not_mem_digits (n : Nat) : FsChar.char '/' ∉ digits n := by
  intro hmem
  obtain ⟨c, hc, hslash⟩ := List.mem_map.mp hmem
  cases hslash
  exact absurd hc (Text.not_mem_toDigits (by decide) n)

theorem div_single {path : FsPath} {text : FsName} (h : path.root = .single)
    (htext : FsChar.char '/' ∉ text) : (path.div text).root = .single :=
  (PurePath.div_root htext).trans h

theorem rootPath_single (user : PlannedUser) : (rootPath user).root = .single :=
  div_single (by decide) (slash_not_mem_digits user.uid)

theorem rootPath_div_single (user : PlannedUser) {name : FsName} (h : FsChar.char '/' ∉ name) :
    ((rootPath user).div name).root = .single := div_single (rootPath_single user) h

theorem credentialRoot_single (user : PlannedUser) : (credentialRoot user).root = .single :=
  div_single (by decide) (slash_not_mem_digits user.uid)

theorem waylandItem_single {user : PlannedUser} {wayland : FsName} {item : Item}
    (h : waylandItem user wayland = .ok item) : item.destination.root = .single := by
  unfold waylandItem at h
  simp only at h
  split at h
  · cases h
  · cases h
    exact div_single (rootPath_div_single user (by decide)) (PurePath.slash_not_mem_name _)

/-! ## Phases -/

section Phases

variable {s : Setting} {draft draft' : Draft}

theorem leadsTo_str {v : ResourceVariable} {environment : Environment} {path : FsPath}
    (hv : v.leadsTo environment = fun value => some (place (fsPath value)))
    (h : path.root = .single) : v.leadsTo environment path.str = some (place path) := by
  rw [congrFun hv, fsPath_str h]

/-- A variable that is set to the place of what was just added. -/
theorem Draft.Settled.of_add {grants : ResourceVariable → Prop} {v : ResourceVariable}
    {draft : Draft} {place : Place} {value : FsName} (hgrants : grants v)
    (hbinding : ∃ binding ∈ draft.binds, binding.destination = place)
    (hleads : v.leadsTo (draft.set v.name value).environment value = some place) :
    Settled grants v (draft.set v.name value) := by
  intro value' hvalue
  rw [set_environment, Environment.set_self] at hvalue
  cases hvalue
  obtain ⟨binding, hmem, hplace⟩ := hbinding
  exact ⟨hgrants, binding, hmem, by rw [hleads, hplace]⟩

theorem forwardWayland_ok
    (hcopied : draft.environment "WAYLAND_DISPLAY" = copiedEnvironment s.source "WAYLAND_DISPLAY")
    (h : forwardWayland s.host s.user draft = .ok draft') :
    Draft.Leads ["WAYLAND_DISPLAY"] draft draft' ∧
      Draft.Settled (DesktopGrants s) .waylandDisplay draft' := by
  unfold forwardWayland at h
  split at h
  · next hnone =>
      cases h
      exact ⟨(Draft.Leads.refl draft).mono (List.nil_subset _), .of_none hnone⟩
  · next wayland hwayland =>
      obtain ⟨item, hitem, h⟩ := bind_eq_ok.mp h
      obtain ⟨⟨found, middle⟩, hadd, h⟩ := bind_eq_ok.mp h
      cases h
      obtain ⟨hleads, haccepts, hbinding⟩ := add_ok hadd
      have hpopped : Draft.Leads ["WAYLAND_DISPLAY"] draft middle :=
        ((Draft.Leads.refl draft).pop "WAYLAND_DISPLAY").trans hleads
      split
      · next hfound =>
          refine ⟨(hpopped.set "WAYLAND_DISPLAY" _).mono (by simp), ?_⟩
          refine .of_add ⟨wayland, item, hcopied ▸ hwayland, hitem, haccepts.mp hfound⟩
            (hbinding hfound) ?_
          rw [leadsTo_str rfl (waylandItem_single hitem)]
      · exact ⟨hpopped, .of_none (hleads.gone (draft.pop_gone _))⟩

theorem forwardDisplay_ok
    (hcopied : draft.environment "DISPLAY" = copiedEnvironment s.source "DISPLAY")
    (h : forwardDisplay s.host draft = .ok draft') :
    Draft.Leads ["DISPLAY"] draft draft' ∧ Draft.Settled (DesktopGrants s) .display draft' ∧
      ((draft'.environment "DISPLAY").isSome ↔ DesktopGrants s .display) := by
  unfold forwardDisplay at h
  split at h
  · next hnone =>
      cases h
      refine ⟨(Draft.Leads.refl draft).mono (List.nil_subset _), .of_none hnone, ?_⟩
      simp [DesktopGrants, hnone, ← hcopied]
  · next display hdisplay =>
      split at h
      · cases h
      · next number hnumber =>
          obtain ⟨⟨found, middle⟩, hadd, h⟩ := bind_eq_ok.mp h
          cases h
          obtain ⟨hleads, haccepts, hbinding⟩ := add_ok hadd
          have hpopped : Draft.Leads ["DISPLAY"] draft middle :=
            ((Draft.Leads.refl draft).pop "DISPLAY").trans hleads
          have hgrants : DesktopGrants s .display ↔ found = true := by
            simp [DesktopGrants, ← hcopied, hdisplay, hnumber, haccepts]
          split
          · next hfound =>
              refine ⟨(hpopped.set "DISPLAY" _).mono (by simp), ?_, ?_⟩
              · refine .of_add (hgrants.mpr hfound) (hbinding hfound) ?_
                simp [ResourceVariable.leadsTo, hnumber, displayItem]
              · simp [hgrants, hfound]
          · next hfound =>
              have hgone : middle.environment "DISPLAY" = none := hleads.gone (draft.pop_gone _)
              exact ⟨hpopped, .of_none hgone, by simp [hgrants, hfound, hgone]⟩

/-- The variable is not taken out where nothing is bound for it. -/
theorem forwardXauthority_ok
    (hdisplay : (draft.environment "DISPLAY").isSome ↔ DesktopGrants s .display)
    (h : forwardXauthority s.host s.user s.source draft = .ok draft') :
    Draft.Leads ["XAUTHORITY"] draft draft' ∧
      (DesktopGrants s .xauthority → Draft.Settled (DesktopGrants s) .xauthority draft') ∧
      (¬ DesktopGrants s .xauthority →
        draft'.environment "XAUTHORITY" = draft.environment "XAUTHORITY") := by
  have hunchanged : Draft.Leads ["XAUTHORITY"] draft draft :=
    (Draft.Leads.refl draft).mono (List.nil_subset _)
  unfold forwardXauthority at h
  split at h
  · next hsome =>
      simp only at h
      split at h
      · cases h
      · obtain ⟨⟨found, middle⟩, hadd, h⟩ := bind_eq_ok.mp h
        cases h
        obtain ⟨hleads, haccepts, hbinding⟩ := add_ok hadd
        have hgrants : DesktopGrants s .xauthority ↔ found = true := by
          rw [haccepts]
          exact and_iff_right (hdisplay.mp hsome)
        split
        · next hfound =>
            refine ⟨hleads.set "XAUTHORITY" _, fun hgrant => ?_, fun hnot => ?_⟩
            · refine .of_add hgrant (hbinding hfound) ?_
              have hsingle : (xauthorityItem s.user s.source).destination.root = .single :=
                rootPath_div_single s.user (by decide)
              rw [leadsTo_str rfl hsingle]
            · exact absurd (hgrants.mpr hfound) hnot
        · next hfound =>
            refine ⟨hleads.mono (List.nil_subset _), fun hgrant => ?_, fun _ => ?_⟩
            · exact absurd (hgrants.mp hgrant) hfound
            · exact hleads.kept _ List.not_mem_nil
  · next hnone =>
      cases h
      exact ⟨hunchanged, fun hgrant => absurd (hdisplay.mpr hgrant.1) hnone, fun _ => rfl⟩

theorem forwardPulse_ok (h : forwardPulse s.host s.user s.source draft = .ok draft') :
    Draft.Leads ["PULSE_SERVER"] draft draft' ∧
      Draft.Settled (DesktopGrants s) .pulseServer draft' := by
  unfold forwardPulse at h
  obtain ⟨⟨found, middle⟩, hadd, h⟩ := bind_eq_ok.mp h
  cases h
  obtain ⟨hleads, haccepts, hbinding⟩ := add_ok hadd
  split
  · next hfound =>
      refine ⟨hleads.set "PULSE_SERVER" _, ?_⟩
      refine .of_add (haccepts.mp hfound) (hbinding hfound) ?_
      have hsingle : (pulseItem s.user s.source).destination.root = .single :=
        div_single (rootPath_div_single s.user (by decide)) (by decide)
      rw [ResourceVariable.leadsTo, List.dropPrefix?_append_of_beq _ (by simp), Option.map_some,
        fsPath_str hsingle]
  · exact ⟨hleads.pop "PULSE_SERVER", .of_none (middle.pop_gone _)⟩

theorem forwardPipewire_ok (h : forwardPipewire s.host s.user s.source draft = .ok draft') :
    Draft.Leads ["PIPEWIRE_RUNTIME_DIR", "PIPEWIRE_REMOTE"] draft draft' ∧
      Draft.Settled (DesktopGrants s) .pipewireRuntimeDir draft' ∧
      Draft.Settled (DesktopGrants s) .pipewireRemote draft' := by
  unfold forwardPipewire at h
  simp only at h
  split at h
  · cases h
  · obtain ⟨⟨found, middle⟩, hadd, h⟩ := bind_eq_ok.mp h
    obtain ⟨hleads, haccepts, hbinding⟩ := add_ok hadd
    dsimp only at h
    split at h
    · next hfound =>
        obtain ⟨⟨manager, last⟩, hmanager, h⟩ := bind_eq_ok.mp h
        cases h
        obtain ⟨hmanager, -, -⟩ := add_ok hmanager
        have hroot : fsPath (pipewireRoot s.user).str = pipewireRoot s.user :=
          fsPath_str (rootPath_div_single s.user (by decide))
        obtain ⟨binding, hmem, hplace⟩ := hbinding hfound
        have hset := (hleads.set "PIPEWIRE_RUNTIME_DIR" (pipewireRoot s.user).str).set
          "PIPEWIRE_REMOTE" (pipewireRemote s.source)
        refine ⟨(hset.trans hmanager).mono (by simp), ?_, ?_⟩
        · refine Draft.Settled.keep ?_ hmanager (fun _ _ => List.not_mem_nil)
          intro value hvalue
          have hvalue : value = (pipewireRoot s.user).str := by
            simpa [ResourceVariable.name] using hvalue.symm
          refine ⟨haccepts.mp hfound, binding, hmem, ?_⟩
          simp [ResourceVariable.leadsTo, hvalue, hroot, hplace, pipewireItem]
        · refine Draft.Settled.keep ?_ hmanager (fun _ _ => List.not_mem_nil)
          intro value hvalue
          have hvalue : value = pipewireRemote s.source := by
            simpa [ResourceVariable.name] using hvalue.symm
          refine ⟨haccepts.mp hfound, binding, hmem, ?_⟩
          simp [ResourceVariable.leadsTo, hvalue, hroot, hplace, pipewireItem]
    · cases h
      have hpopped := (hleads.pop "PIPEWIRE_REMOTE").pop "PIPEWIRE_RUNTIME_DIR"
      refine ⟨hpopped.mono (by simp), .of_none (Draft.pop_gone _ _), .of_none ?_⟩
      simp [ResourceVariable.name]

theorem forwardLayout_ok {layout : FsName}
    (hnone : draft.environment "DCONF_PROFILE" = none)
    (hlayout : gtkDecorationLayout s.host s.user (configHome s.user s.source) toolkits =
      .ok (some layout))
    (h : forwardLayout s.host s.user s.generated layout draft = .ok draft') :
    Draft.Leads ["DCONF_PROFILE"] draft draft' ∧
      Draft.Settled (DesktopGrants s) .dconfProfile draft' := by
  unfold forwardLayout at h
  split at h
  · cases h
    exact ⟨(Draft.Leads.refl draft).mono (List.nil_subset _), .of_none hnone⟩
  · cases h
  · next hwritten =>
      obtain ⟨⟨profile, middle⟩, hprofile, h⟩ := bind_eq_ok.mp h
      obtain ⟨⟨database, last⟩, hdatabase, h⟩ := bind_eq_ok.mp h
      cases h
      obtain ⟨hleads, hacceptsProfile, hbinding⟩ := add_ok hprofile
      obtain ⟨hleads', hacceptsDatabase, -⟩ := add_ok hdatabase
      have hboth := hleads.trans hleads'
      split
      · next hfound =>
          rw [Bool.and_eq_true] at hfound
          refine ⟨hboth.set "DCONF_PROFILE" _, ?_⟩
          obtain ⟨binding, hmem, hplace⟩ := hbinding hfound.1
          refine .of_add ⟨layout, hlayout, hwritten, hacceptsProfile.mp hfound.1,
            hacceptsDatabase.mp hfound.2⟩ ⟨binding, hleads'.binds hmem, hplace⟩ ?_
          exact leadsTo_str rfl (div_single (rootPath_div_single s.user (by decide)) (by decide))
      · exact ⟨hboth.mono (List.nil_subset _), .of_none (hboth.gone hnone)⟩

theorem forwardConfig_ok (hnone : draft.environment "DCONF_PROFILE" = none)
    (h : forwardConfig s.host s.user s.source s.generated draft = .ok draft') :
    Draft.Leads ["DCONF_PROFILE"] draft draft' ∧
      Draft.Settled (DesktopGrants s) .dconfProfile draft' := by
  unfold forwardConfig at h
  simp only at h
  split at h
  · cases h
  · obtain ⟨⟨added, middle⟩, hadd, h⟩ := bind_eq_ok.mp h
    obtain ⟨layout, hlayout, h⟩ := bind_eq_ok.mp h
    have hleads := (addEach_ok hadd).1
    have hmiddle : middle.environment "DCONF_PROFILE" = none := hleads.gone hnone
    cases layout with
    | none =>
        cases h
        exact ⟨hleads.mono (List.nil_subset _), .of_none hmiddle⟩
    | some layout =>
        obtain ⟨hleads', hsettled⟩ := forwardLayout_ok hmiddle hlayout h
        exact ⟨hleads.trans hleads', hsettled⟩

theorem forwardData_ok {roots : List FsName}
    (h : forwardData s.host s.user s.source draft = .ok (roots, draft')) :
    Draft.Leads [] draft draft' := by
  unfold forwardData at h
  simp only at h
  split at h
  · cases h
  · exact addRoots_ok h

theorem forwardFonts_ok (hnone : draft.environment "FONTCONFIG_FILE" = none)
    (h : forwardFonts s.host s.user s.generated draft = .ok draft') :
    Draft.Leads ["FONTCONFIG_FILE"] draft draft' ∧
      Draft.Settled (DesktopGrants s) .fontconfigFile draft' := by
  unfold forwardFonts at h
  obtain ⟨⟨fonts, middle⟩, hfonts, h⟩ := bind_eq_ok.mp h
  obtain ⟨hleads, hall⟩ := addEach_ok hfonts
  have hmiddle : middle.environment "FONTCONFIG_FILE" = none := hleads.gone hnone
  dsimp only at h
  split at h
  · cases h
    exact ⟨hleads.mono (List.nil_subset _), .of_none hmiddle⟩
  · next hfonts =>
      obtain ⟨-, -, h⟩ := bind_eq_ok.mp h
      obtain ⟨⟨found, last⟩, hadd, h⟩ := bind_eq_ok.mp h
      cases h
      obtain ⟨hleads', haccepts, hbinding⟩ := add_ok hadd
      have hboth := hleads.trans hleads'
      split
      · next hfound =>
          refine ⟨hboth.set "FONTCONFIG_FILE" _, ?_⟩
          obtain ⟨font, rest, hcons⟩ := List.exists_cons_of_ne_nil
            (fun hnil => hfonts (by simp [hnil]) : fonts ≠ [])
          refine .of_add ⟨⟨font, hall font (by simp [hcons])⟩, haccepts.mp hfound⟩
            (hbinding hfound) ?_
          exact leadsTo_str rfl (rootPath_div_single s.user (by decide))
      · exact ⟨hboth.mono (List.nil_subset _), .of_none (hleads'.gone hmiddle)⟩

theorem forwardOpenData_ok {sources : List (FsPath × FsPath)}
    (h : forwardOpenData s.host s.user s.generated sources draft = .ok draft') :
    Draft.Leads [] draft draft' := by
  unfold forwardOpenData at h
  obtain ⟨-, -, h⟩ := bind_eq_ok.mp h
  obtain ⟨⟨found, last⟩, hadd, h⟩ := bind_eq_ok.mp h
  cases h
  exact (add_ok hadd).1

/-- What the last phase sets. -/
def FINISHED : List String :=
  ["XDG_DATA_DIRS", "XCURSOR_PATH", "XDG_CURRENT_DESKTOP", "BROWSER", "XDG_CONFIG_DIRS",
    "XDG_SESSION_TYPE", "XDG_SESSION_CLASS"]

theorem finish_leads (unicode : Text.Unicode) (user : PlannedUser) (selected : LoginSession)
    (roots : List FsName) (draft : Draft) :
    Draft.Leads FINISHED draft (finish unicode user selected roots draft) := by
  have hbase := (Draft.Leads.refl draft).set "XDG_DATA_DIRS" (colons
    (((rootPath user).div (fsName "open-data")).str ::
      roots ++ [fsName "/usr/local/share", fsName "/usr/share"]))
  unfold finish
  dsimp only
  split
  · exact (((((hbase.set _ _).set _ _).set _ _).set _ _).set _ _).mono (by simp [FINISHED])
  · exact ((((((hbase.set _ _).set _ _).set _ _).set _ _).set _ _).set _ _).mono
      (by simp [FINISHED])

theorem copiedEnvironment_forbidden (source : Environment) (name : String)
    (h : name ∈ FORBIDDEN) : copiedEnvironment source name = none := if_neg fun hname => hname.2 h

/-- Everything but `XAUTHORITY` is settled, and that too where it is granted. -/
theorem drafted_ok {selected : LoginSession} {sources : List (FsPath × FsPath)}
    (h : drafted s.host s.user selected s.source s.generated sources = .ok draft') :
    (∀ v, v ≠ .xauthority → Draft.Settled (DesktopGrants s) v draft') ∧
      (DesktopGrants s .xauthority → Draft.Settled (DesktopGrants s) .xauthority draft') ∧
      (¬ DesktopGrants s .xauthority →
        draft'.environment "XAUTHORITY" = copiedEnvironment s.source "XAUTHORITY") := by
  unfold drafted at h
  obtain ⟨d₁, h₁, h⟩ := bind_eq_ok.mp h
  obtain ⟨d₂, h₂, h⟩ := bind_eq_ok.mp h
  obtain ⟨d₃, h₃, h⟩ := bind_eq_ok.mp h
  obtain ⟨d₄, h₄, h⟩ := bind_eq_ok.mp h
  obtain ⟨d₅, h₅, h⟩ := bind_eq_ok.mp h
  obtain ⟨d₆, h₆, h⟩ := bind_eq_ok.mp h
  obtain ⟨⟨roots, d₇⟩, h₇, h⟩ := bind_eq_ok.mp h
  obtain ⟨d₈, h₈, h⟩ := bind_eq_ok.mp h
  obtain ⟨d₉, h₉, h⟩ := bind_eq_ok.mp h
  cases h
  obtain ⟨l₁, hwayland⟩ := forwardWayland_ok (s := s) rfl h₁
  obtain ⟨l₂, hdisplay, hforwarded⟩ := forwardDisplay_ok (s := s) (l₁.kept _ (by simp)) h₂
  obtain ⟨l₃, hxauthority, hcopied⟩ := forwardXauthority_ok hforwarded h₃
  obtain ⟨l₄, hpulse⟩ := forwardPulse_ok h₄
  obtain ⟨l₅, hruntime, hremote⟩ := forwardPipewire_ok h₅
  -- Nothing before its own phase touches a variable that is not copied.
  have before := l₁.trans (l₂.trans (l₃.trans (l₄.trans l₅)))
  have hdconf : d₅.environment "DCONF_PROFILE" = none := by
    rw [before.kept "DCONF_PROFILE" (by decide)]
    exact copiedEnvironment_forbidden s.source "DCONF_PROFILE" (by decide)
  obtain ⟨l₆, hprofile⟩ := forwardConfig_ok hdconf h₆
  have l₇ := forwardData_ok h₇
  have hfont : d₇.environment "FONTCONFIG_FILE" = none := by
    rw [(before.trans (l₆.trans l₇)).kept "FONTCONFIG_FILE" (by decide)]
    exact copiedEnvironment_forbidden s.source "FONTCONFIG_FILE" (by decide)
  obtain ⟨l₈, hfontconfig⟩ := forwardFonts_ok hfont h₈
  -- What is settled stays so through the phases that follow.
  have t₈ := (forwardOpenData_ok h₉).trans (finish_leads s.host.unicode s.user selected roots d₉)
  have t₆ := l₇.trans (l₈.trans t₈)
  have t₅ := l₆.trans t₆
  have t₄ := l₅.trans t₅
  have t₃ := l₄.trans t₄
  have t₂ := l₃.trans t₃
  have t₁ := l₂.trans t₂
  refine ⟨fun v hv => ?_, fun hgrant => ?_, fun hnot => ?_⟩
  · cases v with
    | waylandDisplay => exact hwayland.keep t₁ (by decide)
    | display => exact hdisplay.keep t₂ (by decide)
    | xauthority => exact absurd rfl hv
    | pulseServer => exact hpulse.keep t₄ (by decide)
    | pipewireRuntimeDir => exact hruntime.keep t₅ (by decide)
    | pipewireRemote => exact hremote.keep t₅ (by decide)
    | dconfProfile => exact hprofile.keep t₆ (by decide)
    | fontconfigFile => exact hfontconfig.keep t₈ (by decide)
    | sshAuthSock =>
        refine .of_none (((l₁.trans t₁).kept "SSH_AUTH_SOCK" (by decide)).trans ?_)
        exact copiedEnvironment_forbidden s.source "SSH_AUTH_SOCK" (by decide)
  · exact (hxauthority hgrant).keep t₃ (by decide)
  · rw [t₃.kept "XAUTHORITY" (by decide), hcopied hnot,
      (l₁.trans l₂).kept "XAUTHORITY" (by decide)]

end Phases

/-! ## Credentials -/

theorem addCredential_ok {host : Host} {item : Item} {draft draft' : Draft} {found : Bool}
    (h : addCredential host item draft = .ok (found, draft')) :
    Draft.Leads [] draft draft' ∧ (found = true → AcceptsCredential host item) ∧
      (found = true → ∃ binding ∈ draft'.binds, binding.destination = place item.destination) := by
  unfold addCredential at h
  simp only at h
  split at h
  · cases h
    exact ⟨.refl draft, nofun, nofun⟩
  · next hroots =>
      obtain ⟨hleads, haccepts, hbinding⟩ := add_ok h
      exact ⟨hleads, fun hfound => ⟨hroots, haccepts.mp hfound⟩, hbinding⟩

theorem forwardGpgAgent_ok {host : Host} {user : PlannedUser} {candidates : List FsPath}
    {draft draft' : Draft} (h : forwardGpgAgent host user candidates draft = .ok draft') :
    Draft.Leads [] draft draft' := by
  induction candidates generalizing draft with
  | nil =>
      cases h
      exact .refl _
  | cons candidate candidates ih =>
      rw [forwardGpgAgent] at h
      obtain ⟨⟨found, middle⟩, hadd, h⟩ := bind_eq_ok.mp h
      have hleads := (addCredential_ok hadd).1
      dsimp only at h
      split at h
      · cases h
        exact ⟨hleads.kept, fun _ hmem => List.mem_append_left _ (hleads.binds hmem)⟩
      · exact hleads.trans (ih h)

theorem forwardSshAgent_ok {s : Setting} {draft draft' : Draft}
    (hnone : draft.environment "SSH_AUTH_SOCK" = none)
    (h : forwardSshAgent s.host s.user s.source draft = .ok draft') :
    Draft.Leads ["SSH_AUTH_SOCK"] draft draft' ∧
      Draft.Settled (CredentialGrants s) .sshAuthSock draft' := by
  unfold forwardSshAgent at h
  simp only at h
  split at h
  · split at h
    · cases h
    · obtain ⟨⟨found, middle⟩, hadd, h⟩ := bind_eq_ok.mp h
      cases h
      obtain ⟨hleads, haccepts, hbinding⟩ := addCredential_ok hadd
      split
      · next hfound =>
          refine ⟨hleads.set "SSH_AUTH_SOCK" _, ?_⟩
          refine .of_add (haccepts hfound) (hbinding hfound) ?_
          exact leadsTo_str rfl (div_single (credentialRoot_single s.user) (by decide))
      · refine ⟨hleads.mono (List.nil_subset _), .of_none ?_⟩
        exact (hleads.kept "SSH_AUTH_SOCK" List.not_mem_nil).trans hnone
  · cases h
    exact ⟨(Draft.Leads.refl draft).mono (List.nil_subset _), .of_none hnone⟩

/-! ## Plans -/

/-- What the plan has of a draft. -/
def DesktopPlan.draft (plan : DesktopPlan PlanRest) : Draft := ⟨plan.rest.environment, plan.binds⟩

theorem credentialPlan_ok {s : Setting} {plan : DesktopPlan PlanRest}
    (h : credentialPlan s.host s.user s.source = .ok plan) :
    (∀ name, name ≠ "SSH_AUTH_SOCK" → plan.rest.environment name = none) ∧
      Draft.Settled (CredentialGrants s) .sshAuthSock plan.draft := by
  unfold credentialPlan at h
  obtain ⟨draft, hssh, h⟩ := bind_eq_ok.mp h
  obtain ⟨directories, -, h⟩ := bind_eq_ok.mp h
  obtain ⟨draft', hgpg, h⟩ := bind_eq_ok.mp h
  cases h
  obtain ⟨hleads, hsettled⟩ := forwardSshAgent_ok (s := s) rfl hssh
  have hgpg := forwardGpgAgent_ok hgpg
  have hplan : Draft.Leads [] draft' ⟨draft'.environment, sorted draft'.binds⟩ :=
    ⟨fun _ _ => rfl, fun _ hmem => mem_sorted.mpr hmem⟩
  refine ⟨fun name hname => ?_, hsettled.keep (hgpg.trans hplan) (by simp)⟩
  exact (hleads.trans hgpg).kept name (by simpa using hname)

/-- What a Space has besides names nothing of the session. -/
theorem withSpace_kept (space : Space) (user : PlannedUser) (selected : LoginSession)
    (environment : Environment) {name : String}
    (h : name ∉ ["SPACES_NAME", "SPACES_INTEGRATION_BROKER", "GTK_USE_PORTAL"]) :
    withSpace space user selected environment name = environment name := by
  simp only [List.mem_cons, List.not_mem_nil, or_false, not_or] at h
  unfold withSpace
  split
  · rw [Environment.set_of_ne _ _ h.2.2, Environment.set_of_ne _ _ h.2.1,
      Environment.set_of_ne _ _ h.1]
  · rw [Environment.set_of_ne _ _ h.2.1, Environment.set_of_ne _ _ h.1]

theorem graphicalPlan_ok {s : Setting} {space : Space} {openMappings : List OpenPathMapping}
    {selected : Option LoginSession} {plan : DesktopPlan PlanRest}
    (h : graphicalPlan s.host space s.user s.source s.generated openMappings selected = .ok plan) :
    (selected = none → ∀ name, plan.rest.environment name = none) ∧
      (selected.isSome → (∀ v, v ≠ .xauthority → Draft.Settled (DesktopGrants s) v plan.draft) ∧
        (DesktopGrants s .xauthority → Draft.Settled (DesktopGrants s) .xauthority plan.draft) ∧
        (¬ DesktopGrants s .xauthority →
          plan.rest.environment "XAUTHORITY" = copiedEnvironment s.source "XAUTHORITY")) := by
  cases selected with
  | none =>
      cases h
      exact ⟨fun _ _ => rfl, nofun⟩
  | some selected =>
      refine ⟨nofun, fun _ => ?_⟩
      unfold graphicalPlan at h
      obtain ⟨base, hbase, h⟩ := map_eq_ok.mp h
      unfold desktopPlan at hbase
      obtain ⟨draft, hdraft, hbase⟩ := bind_eq_ok.mp hbase
      cases hbase
      cases h
      obtain ⟨hsettled, hgranted, hcopied⟩ := drafted_ok hdraft
      have hplan : Draft.Leads ["SPACES_NAME", "SPACES_INTEGRATION_BROKER", "GTK_USE_PORTAL"] draft
          ⟨withSpace space s.user selected draft.environment, sorted draft.binds⟩ :=
        ⟨fun name hname => withSpace_kept _ _ _ _ hname, fun _ hmem => mem_sorted.mpr hmem⟩
      refine ⟨fun v hv => (hsettled v hv).keep hplan ?_,
        fun hgrant => (hgranted hgrant).keep hplan (by decide), fun hnot => ?_⟩
      · cases v <;> decide
      · rw [← hcopied hnot]
        exact withSpace_kept _ _ _ _ (by decide)

theorem Draft.Settled.mono {grants grants' : ResourceVariable → Prop} {v : ResourceVariable}
    {draft : Draft} (h : Settled grants v draft) (hgrants : grants v → grants' v) :
    Settled grants' v draft := fun value hvalue =>
  ⟨hgrants (h value hvalue).1, (h value hvalue).2⟩

/-- The credentials' variable is settled by them, and every other one is left alone. -/
theorem withCredentials_settled {s : Setting} {sessions : List LoginSession}
    {plan credentials : DesktopPlan PlanRest} (huser : s.user.credentialAgents = true)
    (hothers : ∀ name, name ≠ "SSH_AUTH_SOCK" → credentials.rest.environment name = none)
    (hssh : Draft.Settled (CredentialGrants s) .sshAuthSock credentials.draft)
    {v : ResourceVariable}
    (hplan : v ≠ .sshAuthSock → Draft.Settled (Granted s sessions) v plan.draft)
    (hnone : plan.rest.environment "SSH_AUTH_SOCK" = none) :
    Draft.Settled (Granted s sessions) v (withCredentials plan credentials).draft := by
  by_cases hv : v = .sshAuthSock
  · subst hv
    have hssh : Draft.Settled (Granted s sessions) .sshAuthSock credentials.draft :=
      hssh.mono fun hgrants => .inr ⟨huser, hgrants⟩
    intro value hvalue
    have henv : (withCredentials plan credentials).rest.environment "SSH_AUTH_SOCK" =
        credentials.rest.environment "SSH_AUTH_SOCK" := by
      simp [withCredentials, hnone]
    obtain ⟨hgrants, binding, hmem, hleads⟩ := hssh value (henv.symm.trans hvalue)
    exact ⟨hgrants, binding, mem_sorted.mpr (List.mem_append_right _ hmem), hleads⟩
  · have hleads :
        Draft.Leads ["SSH_AUTH_SOCK"] plan.draft (withCredentials plan credentials).draft :=
      ⟨fun name hname => by
        simp [DesktopPlan.draft, withCredentials, hothers name (by simpa using hname)],
        fun _ hmem => mem_sorted.mpr (List.mem_append_left _ hmem)⟩
    refine (hplan hv).keep hleads ?_
    revert hv
    cases v <;> decide

/-- The cookie is forwarded, or there is none that the host's environment names. -/
def SettlesXauthority (s : Setting) (sessions : List LoginSession) : Prop :=
  selectedSession s.user sessions s.source = none ∨
    copiedEnvironment s.source "XAUTHORITY" = none ∨ DesktopGrants s .xauthority

/-- Otherwise a value stays that nothing was granted for. -/
theorem graphicalPlan_settled {s : Setting} {space : Space} {openMappings : List OpenPathMapping}
    {sessions : List LoginSession} {plan : DesktopPlan PlanRest}
    (h : graphicalPlan s.host space s.user s.source s.generated openMappings
      (selectedSession s.user sessions s.source) = .ok plan) :
    (∀ v, (v = .xauthority → SettlesXauthority s sessions) →
      Draft.Settled (Granted s sessions) v plan.draft) ∧
      plan.rest.environment "SSH_AUTH_SOCK" = none ∧
      (¬ SettlesXauthority s sessions →
        ¬ Granted s sessions .xauthority ∧ plan.rest.environment "XAUTHORITY" ≠ none) := by
  obtain ⟨hnone, hsome⟩ := graphicalPlan_ok h
  cases hselected : selectedSession s.user sessions s.source with
  | none =>
      have hempty := hnone hselected
      exact ⟨fun v _ => .of_none (hempty _), hempty _, fun hnot => absurd (.inl hselected) hnot⟩
  | some selected =>
      rw [hselected] at hsome
      obtain ⟨hsettled, hgranted, hcopied⟩ := hsome rfl
      have hgrants : ∀ v, DesktopGrants s v → Granted s sessions v := fun v hv =>
        .inl ⟨by rw [hselected]; rfl, hv⟩
      refine ⟨fun v hv => ?_, ?_, fun hnot => ?_⟩
      · by_cases hx : v = .xauthority
        · subst hx
          by_cases hgrant : DesktopGrants s .xauthority
          · exact (hgranted hgrant).mono (hgrants _)
          · rcases hv rfl with hunselected | hunset | hgrant'
            · rw [hselected] at hunselected
              cases hunselected
            · exact .of_none ((hcopied hgrant).trans hunset)
            · exact absurd hgrant' hgrant
        · exact (hsettled v hx).mono (hgrants v)
      · cases hssh : plan.rest.environment "SSH_AUTH_SOCK" with
        | none => rfl
        | some value => exact (hsettled .sshAuthSock (by decide) value hssh).1.elim
      · simp only [SettlesXauthority, not_or] at hnot
        refine ⟨?_, ?_⟩
        · rintro (⟨-, hgrant⟩ | ⟨-, hcredential⟩)
          · exact hnot.2.2 hgrant
          · exact hcredential.elim
        · rw [hcopied hnot.2.2]
          exact hnot.2.1

/-- The same of the plan that the credentials are in. -/
theorem reconciledPlan_settled {s : Setting} {space : Space} {openMappings : List OpenPathMapping}
    {sessions : List LoginSession} {sessionActive : Bool} {plan : DesktopPlan PlanRest}
    (h : reconciledPlan s.host space s.user sessions s.source s.generated openMappings
      sessionActive = .ok (some plan)) :
    (∀ v, (v = .xauthority → SettlesXauthority s sessions) →
      Draft.Settled (Granted s sessions) v plan.draft) ∧
      (¬ SettlesXauthority s sessions →
        ¬ Granted s sessions .xauthority ∧ plan.rest.environment "XAUTHORITY" ≠ none) := by
  unfold reconciledPlan at h
  dsimp only at h
  split at h
  · cases h
  split at h
  · cases h
  obtain ⟨graphical, hgraphical, h⟩ := bind_eq_ok.mp h
  obtain ⟨hsettled, hnone, hleft⟩ := graphicalPlan_settled hgraphical
  split at h
  · next huser =>
      obtain ⟨credentials, hcredentials, h⟩ := bind_eq_ok.mp h
      cases h
      obtain ⟨hothers, hssh⟩ := credentialPlan_ok hcredentials
      refine ⟨fun v hv =>
        withCredentials_settled huser hothers hssh (fun _ => hsettled v hv) hnone, fun hnot => ?_⟩
      obtain ⟨hgranted, hvalue⟩ := hleft hnot
      refine ⟨hgranted, ?_⟩
      rw [withCredentials]
      dsimp only
      rw [hothers "XAUTHORITY" (by decide), Option.none_or]
      exact hvalue
  · cases h
    exact ⟨hsettled, hleft⟩

/-- Every variable that is set leads to something that is bound. -/
def NamesOnlyBound (plan : DesktopPlan PlanRest) : Prop :=
  ∀ (v : ResourceVariable) (value : FsName), plan.rest.environment v.name = some value →
    ∃ binding ∈ plan.binds, v.leadsTo plan.rest.environment value = some binding.destination

/-- What was not granted, or was rejected, has no variable. -/
def DropsUngranted (s : Setting) (sessions : List LoginSession) (plan : DesktopPlan PlanRest) :
    Prop :=
  ∀ v : ResourceVariable, ¬ Granted s sessions v → plan.rest.environment v.name = none

/-- The planned environment names only what is granted and bound, if and only if the
session's cookie is forwarded or the host's environment names none. -/
theorem plannedEnvironment_bound_iff {s : Setting} {space : Space}
    {openMappings : List OpenPathMapping} {sessions : List LoginSession} {sessionActive : Bool}
    {plan : DesktopPlan PlanRest}
    (h : reconciledPlan s.host space s.user sessions s.source s.generated openMappings
      sessionActive = .ok (some plan)) :
    NamesOnlyBound plan ∧ DropsUngranted s sessions plan ↔ SettlesXauthority s sessions := by
  obtain ⟨hsettled, hleft⟩ := reconciledPlan_settled h
  constructor
  · rintro ⟨-, hdrops⟩
    by_contra hnot
    obtain ⟨hgranted, hvalue⟩ := hleft hnot
    exact hvalue (hdrops .xauthority hgranted)
  · intro hsettles
    refine ⟨fun v value hvalue => (hsettled v (fun _ => hsettles) value hvalue).2,
      fun v hgranted => ?_⟩
    cases hvalue : plan.rest.environment v.name with
    | none => rfl
    | some value => exact absurd (hsettled v (fun _ => hsettles) value hvalue).1 hgranted

/-- A host where nothing is found. -/
def bareHost : Host where
  kernel _ := ⟨fun _ => .error .fileNotFound, some, fun _ => .error .fileNotFound, fun _ => false⟩
  account := ⟨1000, []⟩
  layout _ := none
  writeDesktopSettings _ := .ok ()
  writeFontConfig _ := .ok ()
  writeOpenData _ := .ok ()
  generatedExists := false
  gpgDirectories := .ok []
  unicode := asciiUnicode

def loginUser : PlannedUser where
  uid := 1000
  hostHome := fsPath (fsName "/home/a")
  spaceHome := none
  guestHome := fsPath (fsName "/home/a")
  desktop := true
  accessibility := false
  credentialAgents := false

def waylandSession : LoginSession := ⟨['3'], true, false, "wayland".toList, "user".toList⟩

/-- A session's environment with a cookie and no display. -/
def cookieSource : Environment := fun name =>
  if name = "XDG_SESSION_ID" then some (fsName "3")
  else if name = "XAUTHORITY" then some (fsName "/run/user/1000/cookie")
  else none

def cookieSetting : Setting := ⟨bareHost, loginUser, cookieSource, fsPath (fsName "/run/spaces/a")⟩

def cookieSpace : Space := ⟨['a'], none, true⟩

theorem cookiePlan_made : ∃ plan,
    reconciledPlan cookieSetting.host cookieSpace cookieSetting.user [waylandSession]
      cookieSetting.source cookieSetting.generated [] true = .ok (some plan) := ⟨_, rfl⟩

/-- The same session with a display and the sockets of its compositor and sound servers. -/
def displaySource : Environment := fun name =>
  if name = "DISPLAY" then some (fsName ":0")
  else if name = "WAYLAND_DISPLAY" then some (fsName "wayland-0")
  else cookieSource name

/-- What this host has of the session, each owned by the user, in directories that anyone
can search. -/
def sessionFiles : List (FsPath × SourceKind) :=
  [(fsPath (fsName "/run/user/1000/wayland-0"), .socket),
    (fsPath (fsName "/tmp/.X11-unix/X0"), .socket),
    (fsPath (fsName "/run/user/1000/cookie"), .regular),
    (fsPath (fsName "/run/user/1000/pulse/native"), .socket),
    (fsPath (fsName "/run/user/1000/pipewire-0"), .socket)]

def sessionKernel : Kernel where
  lstat path := if (sessionFiles.lookup path).isSome then .ok () else .error .fileNotFound
  resolve := some
  stat path := match sessionFiles.lookup path with
    | some kind => .ok ⟨45, 7, kind, 0o700, 1000, 1000, 0⟩
    | none => .ok ⟨45, 2, .directory, 0o755, 0, 0, 0⟩
  pathExists path := (sessionFiles.lookup path).isSome

def displaySetting : Setting :=
  { cookieSetting with host := { bareHost with kernel := fun _ => sessionKernel }
                       source := displaySource }

theorem displayPlan_made : ∃ plan,
    reconciledPlan displaySetting.host cookieSpace displaySetting.user [waylandSession]
      displaySetting.source displaySetting.generated [] true = .ok (some plan) ∧
    plan.rest.environment "XAUTHORITY" = some (fsName "/run/spaces/desktop/1000/xauthority") :=
  ⟨_, rfl, rfl⟩

/-- Here the cookie is bound beside the display, and the variable leads to it. -/
theorem displayPlan_bound_iff : ∃ plan,
    reconciledPlan displaySetting.host cookieSpace displaySetting.user [waylandSession]
      displaySetting.source displaySetting.generated [] true = .ok (some plan) ∧
    plan.rest.environment "XAUTHORITY" =
      some (fsName "/run/spaces/desktop/1000/xauthority") ∧
    (NamesOnlyBound plan ∧ DropsUngranted displaySetting [waylandSession] plan ↔
      SettlesXauthority displaySetting [waylandSession]) := by
  obtain ⟨plan, hplan, hxauthority⟩ := displayPlan_made
  exact ⟨plan, hplan, hxauthority, plannedEnvironment_bound_iff (s := displaySetting) hplan⟩

/-- The host's cookie stays in the plan where no display is forwarded. -/
theorem cookie_stays : ¬ ∀ (s : Setting) (space : Space) (openMappings : List OpenPathMapping)
    (sessions : List LoginSession) (sessionActive : Bool) (plan : DesktopPlan PlanRest),
    reconciledPlan s.host space s.user sessions s.source s.generated openMappings sessionActive =
      .ok (some plan) →
    NamesOnlyBound plan ∧ DropsUngranted s sessions plan := by
  intro h
  obtain ⟨plan, hplan⟩ := cookiePlan_made
  have hnot : ¬ SettlesXauthority cookieSetting [waylandSession] := by
    rintro (hunselected | hunset | ⟨⟨value, number, hdisplay, -⟩, -⟩)
    · cases hunselected
    · revert hunset
      decide
    · cases hdisplay
  obtain ⟨hgranted, hvalue⟩ := (reconciledPlan_settled (s := cookieSetting) hplan).2 hnot
  exact hvalue ((h cookieSetting cookieSpace [] [waylandSession] true plan hplan).2 .xauthority
    hgranted)

end Spaces.Desktop
