import Spaces.Binds.RoundTrip
import Spaces.Binds.Walk

/-!
# What configured mounts leave alone

No mount is to lie at the root, or in a tree that has another owner, and none is to make
anything in such a tree. The configuration is asked for this by the components of the
destination as they are written; the launch goes where they lead. With two dots among
them the answers differ.

A destination is all right when its way is: where it leads is harmless, if its parents can
be walked at all, and no name on the way is in a protected tree. For the destination of an
overlay, which has to be there already, it is enough that it leads to a harmless place.
-/

namespace Spaces.Binds

open Spaces.Library Spaces.Shortcuts

/-! ## What is to hold -/

/-- In a protected tree, and not its root. -/
def Below (names : List Name) : Prop :=
  ∃ top ∈ UNSAFE_DESTINATIONS, top.parts <+: names ∧ names ≠ top.parts

def Harmless (path : GuestPath) : Prop := path ≠ ⟨.single, []⟩ ∧ isUnsafe path = false

/-- Of a state in the middle of a launch that found the tree `before`. -/
structure Confined (before : Rootfs) (s : State) : Prop where
  arguments : ∀ launch, s.launch = some launch → ∀ bound ∈ launch.bound,
    Harmless bound.destination.normpath
  made : ∀ p, s.rootfs.kind p ≠ .absent → before.kind p = .absent → ¬Below p.reverse

/-- A launch, up to one of its steps. -/
def launched (s : State) (config : Config) (faults : List Fault) : State :=
  faults.foldl go (begin s config)

/-- Another state of the sources. -/
def SameDestinations (config config' : Config) : Prop :=
  config'.mounts.map Mount.destination = config.mounts.map Mount.destination ∧
    config'.overlays.map Overlay.destination = config.overlays.map Overlay.destination

/-- `os.walk` finds no two dots. -/
def Overlay.Walked (overlay : Overlay) : Prop :=
  ∀ entries, overlay.source = .directory entries → ∀ entry ∈ entries, up ∉ entry.names

/-! ## The condition -/

def MountOk (path : GuestPath) : Prop :=
  path.root = .single →
    (∀ above, walk [] path.parts.dropLast = some above → Harmless path.normpath) ∧
      ∀ p, OnWay [] path.parts p → ¬Below p.reverse

def OverlayOk (path : GuestPath) : Prop :=
  path.root = .single → ∀ last, walk [] path.parts = some last → Harmless path.normpath

theorem isUnsafe_append {place : List Name} (h : place ≠ []) (names : List Name) :
    isUnsafe ⟨.single, place ++ names⟩ = isUnsafe ⟨.single, place⟩ := by
  let path : GuestPath := ⟨.single, place⟩
  have hparts : path.root = .single → path.parts ≠ [] := fun _ => h
  exact isUnsafe_joinpath hparts names

theorem Harmless.append {place : List Name} (h : Harmless ⟨.single, place⟩) (names : List Name) :
    Harmless ⟨.single, place ++ names⟩ := by
  have hne : place ≠ [] := fun hnil => h.1 (by rw [hnil])
  refine ⟨fun heq => hne ?_, ?_⟩
  · exact (List.append_eq_nil_iff.mp (congrArg PurePath.parts heq)).1
  · exact (isUnsafe_append hne names).trans h.2

theorem not_below_of_harmless {place : List Name} (h : Harmless ⟨.single, place⟩) :
    ¬Below place := by
  rintro ⟨top, htop, hin, -⟩
  obtain ⟨hroot, -⟩ := mem_unsafe htop
  have hunsafe := h.2
  simp only [isUnsafe, List.any_eq_false] at hunsafe
  exact hunsafe top htop (PurePath.within_iff.mpr ⟨hroot.symm, hin⟩)

/-! ## A mount that is to be prepared -/

/-- It is one of the configuration, or an overlay has it, whose destination is there. -/
def Pending (tree : Rootfs) (mount : Mount) : Prop :=
  MountOk mount.destination ∨ ∃ base names, mount.destination.parts = base ++ names ∧
    isAvailable tree [] base = true ∧ Harmless ⟨.single, normal [] base⟩ ∧ up ∉ names

variable {tree tree' before : Rootfs} {mount : Mount}

theorem Pending.harmless (h : Pending tree mount) (hroot : mount.destination.root = .single)
    {above : Place} (hwalk : walk [] mount.destination.parts.dropLast = some above) :
    Harmless mount.destination.normpath := by
  rcases h with hok | ⟨base, names, hparts, -, hbase, hup⟩
  · exact (hok hroot).1 above hwalk
  · have hnormal : mount.destination.normpath = ⟨.single, normal [] base ++ names⟩ := by
      rw [PurePath.normpath, hroot, hparts, normal_append, normal_plain hup]
    rw [hnormal]
    exact hbase.append names

theorem Pending.made (h : Pending tree mount) (hroot : mount.destination.root = .single)
    {p : Place} (hway : OnWay [] mount.destination.parts p) (habsent : tree.kind p = .absent) :
    ¬Below p.reverse := by
  rcases h with hok | ⟨base, names, hparts, havailable, hbase, hup⟩
  · exact (hok hroot).2 p hway
  · rw [hparts] at hway
    have hthere : ¬OnWay [] base p := by
      intro hway
      rw [(isAvailable_iff.mp havailable).2 p hway] at habsent
      cases habsent
    obtain ⟨first, name, above, hway, hname, hwalk, rfl⟩ := hway
    rcases List.prefix_or_prefix_of_prefix hway (List.prefix_append base names) with hin | hout
    · exact absurd ⟨first, name, above, hin, hname, hwalk, rfl⟩ hthere
    · rcases List.prefix_concat_iff.mp hout with heq | ⟨more, rfl⟩
      · exact absurd ⟨first, name, above, heq ▸ List.prefix_rfl, hname, hwalk, rfl⟩ hthere
      · -- The way has passed the destination of the overlay.
        have hmore : up ∉ more := by
          rw [List.append_assoc, List.prefix_append_right_inj] at hway
          exact fun hmem => hup (hway.subset (List.mem_append_left _ hmem))
        have habove : above.reverse = normal [] base ++ more := by
          rw [← normal_of_walk hwalk, List.reverse_nil, normal_append, normal_plain hmore]
        rw [List.reverse_cons, habove, List.append_assoc]
        exact not_below_of_harmless (hbase.append _)

/-- What is there stays, so what is pending stays so. -/
theorem Pending.mono (h : Pending tree mount)
    (hkept : ∀ p, tree.kind p = .dir → tree'.kind p = .dir) : Pending tree' mount := by
  rcases h with hok | ⟨base, names, hparts, havailable, hrest⟩
  · exact .inl hok
  · obtain ⟨hwalk, hway⟩ := isAvailable_iff.mp havailable
    exact .inr ⟨base, names, hparts,
      isAvailable_iff.mpr ⟨hwalk, fun p hp => hkept p (hway p hp)⟩, hrest⟩

/-! ## The steps of a launch -/

section Steps

variable {s : State} {launch : Launch} {fault : Fault}

/-- The arguments that a mount adds. -/
def Outcome.arguments (mount : Mount) : Outcome → List Bound
  | .skipped => []
  | .bound place _ => [⟨mount.destination, place⟩]

theorem goMount_spec (s : State) (launch : Launch) (mount : Mount) (rest : List Mount)
    (overlays : List Overlay) (fault : Fault) :
    (goMount s launch mount rest overlays fault).rootfs = (prepareMount s.rootfs mount fault).1 ∧
      ∃ after, (goMount s launch mount rest overlays fault).launch = some after ∧
        after.phase = .preparing rest overlays ∧
        after.bound =
          launch.bound ++ (prepareMount s.rootfs mount fault).2.arguments mount := by
  unfold goMount
  split
  · next rootfs h => exact ⟨by rw [h], _, rfl, rfl, by rw [h]; exact (List.append_nil _).symm⟩
  · next rootfs place h => exact ⟨by rw [h], _, rfl, rfl, by rw [h]; rfl⟩
  · next rootfs place h => exact ⟨by rw [h], _, rfl, rfl, by rw [h]; rfl⟩

/-- With what is still to be prepared. -/
structure Running (before : Rootfs) (s : State) : Prop where
  confined : Confined before s
  pending : ∀ launch mounts overlays, s.launch = some launch →
    launch.phase = .preparing mounts overlays → (∀ mount ∈ mounts, Pending s.rootfs mount) ∧
      ∀ overlay ∈ overlays, OverlayOk overlay.destination ∧ overlay.Walked

theorem goMount_running (h : Running before s) (hlaunch : s.launch = some launch)
    {rest : List Mount} {overlays : List Overlay}
    (hphase : launch.phase = .preparing (mount :: rest) overlays) :
    Running before (goMount s launch mount rest overlays fault) := by
  obtain ⟨hrootfs, after, hafter, hrest, hbound⟩ :=
    goMount_spec s launch mount rest overlays fault
  obtain ⟨hmounts, hoverlays⟩ := h.pending launch _ _ hlaunch hphase
  have hpending := hmounts mount List.mem_cons_self
  have hway := prepareMount_way s.rootfs mount fault
  have hspec := prepareMount_spec s.rootfs mount fault
  refine ⟨⟨fun l hl b hb => ?_, fun p hp hbefore => ?_⟩, fun l mounts' overlays' hl hp => ?_⟩
  · rw [hafter] at hl
    cases hl
    rw [hbound] at hb
    rcases List.mem_append.mp hb with hb | hb
    · exact h.confined.arguments launch hlaunch b hb
    · cases houtcome : (prepareMount s.rootfs mount fault).2 with
      | skipped =>
          rw [houtcome] at hb
          cases hb
      | bound place created =>
          rw [houtcome] at hb
          cases List.mem_singleton.mp hb
          obtain ⟨hroot, above, -, -, hwalk⟩ := hway.bound place created houtcome
          exact hpending.harmless hroot hwalk
  · rw [hrootfs] at hp
    by_cases habsent : s.rootfs.kind p = .absent
    · rcases hway.added p hp with hpresent | ⟨hroot, hon⟩
      · exact absurd habsent hpresent
      · exact hpending.made hroot hon habsent
    · exact h.confined.made p habsent hbefore
  · rw [hafter] at hl
    cases hl
    rw [hrest] at hp
    cases hp
    refine ⟨fun m hm => ?_, hoverlays⟩
    refine (hmounts m (List.mem_cons_of_mem _ hm)).mono fun p hp => ?_
    rw [hrootfs, hspec.present p (by rw [hp]; simp), hp]

theorem prepareOverlay_pending {overlay : Overlay} (hok : OverlayOk overlay.destination)
    (hwalked : overlay.Walked) :
    ∀ mount ∈ prepareOverlay tree overlay fault, Pending tree mount := by
  intro mount hmount
  unfold prepareOverlay at hmount
  split at hmount
  · cases hmount
  · next hcond =>
      simp only [Bool.or_eq_true, not_or, decide_eq_true_eq, not_not, Bool.not_eq_true',
        Bool.not_eq_false] at hcond
      obtain ⟨⟨-, hroot⟩, havailable⟩ := hcond
      unfold Overlay.mounts at hmount
      split at hmount
      · next entries hsource =>
          obtain ⟨entry, hentry, rfl⟩ := List.mem_map.mp hmount
          obtain ⟨⟨last, hlast⟩, -⟩ := isAvailable_iff.mp havailable
          have hharmless := hok hroot last hlast
          rw [PurePath.normpath, hroot] at hharmless
          exact .inr ⟨overlay.destination.parts, entry.names, rfl, havailable, hharmless,
            hwalked entries hsource entry hentry⟩
      · cases hmount

theorem removeObsoleteBindFile_present (tree : Rootfs) (listed : ListedPath) {p : Place}
    (h : (removeObsoleteBindFile tree listed fault).1.kind p ≠ .absent) :
    tree.kind p ≠ .absent := by
  have hspec := removeObsoleteBindFile_spec tree listed fault
  cases hremoved : (removeObsoleteBindFile tree listed fault).2.1 with
  | false => rwa [(hspec.left hremoved).1] at h
  | true =>
      obtain ⟨hunlink, hfile, -⟩ := hspec.taken hremoved
      by_cases hp : p = listed.place
      · rw [hp, hfile]
        simp
      · rwa [hunlink, FileTree.unlink_of_ne hp] at h

/-- A step of the launch keeps all of it. -/
theorem go_running (h : Running before s) (fault : Fault) : Running before (go s fault) := by
  unfold go
  split
  · exact h
  · next launch hlaunch =>
      have harguments := h.confined.arguments launch hlaunch
      split
      · next mount rest overlays hphase => exact goMount_running h hlaunch hphase
      · next overlay overlays hphase =>
          obtain ⟨-, hoverlays⟩ := h.pending launch _ _ hlaunch hphase
          obtain ⟨hok, hwalked⟩ := hoverlays overlay List.mem_cons_self
          refine ⟨⟨fun l hl => ?_, h.confined.made⟩, fun l mounts' overlays' hl hp => ?_⟩
          · cases hl
            exact harguments
          · cases hl
            cases hp
            exact ⟨prepareOverlay_pending hok hwalked,
              fun o ho => hoverlays o (List.mem_cons_of_mem _ ho)⟩
      · refine ⟨⟨fun l hl => ?_, h.confined.made⟩, fun l mounts' overlays' hl hp => ?_⟩
        · cases hl
          exact harguments
        · cases hl
          cases hp
      · next listed rest retained hphase =>
          have hmade : ∀ p, (removeObsoleteBindFile s.rootfs listed fault).1.kind p ≠ .absent →
              before.kind p = .absent → ¬Below p.reverse := fun p hp =>
            h.confined.made p (removeObsoleteBindFile_present s.rootfs listed hp)
          unfold goRemove
          split
          · next rootfs retry hremove =>
              rw [hremove] at hmade
              refine ⟨⟨fun l hl => ?_, hmade⟩, fun l mounts' overlays' hl hp => ?_⟩
              · cases hl
                exact harguments
              · cases hl
                cases hp
          · refine ⟨⟨fun l hl => ?_, h.confined.made⟩, fun l mounts' overlays' hl hp => ?_⟩
            · cases hl
              exact harguments
            · cases hl
              cases hp
      · unfold finish
        split
        · exact ⟨⟨fun l hl => (by cases hl), h.confined.made⟩, fun l _ _ hl => by cases hl⟩
        · exact ⟨⟨fun l hl => (by cases hl), h.confined.made⟩, fun l _ _ hl => by cases hl⟩

theorem begin_running {config : Config} (hlaunch : s.launch = none)
    (hmounts : ∀ mount ∈ config.mounts, MountOk mount.destination)
    (hoverlays : ∀ overlay ∈ config.overlays, OverlayOk overlay.destination ∧ overlay.Walked) :
    Running s.rootfs (begin s config) := by
  have hmade : ∀ p, s.rootfs.kind p ≠ .absent → s.rootfs.kind p = .absent → ¬Below p.reverse :=
    fun p hp habsent => absurd habsent hp
  unfold begin
  split
  · refine ⟨⟨fun l hl => ?_, hmade⟩, fun l _ _ hl => ?_⟩
    · exact absurd (hlaunch.symm.trans hl) (by simp)
    · exact absurd (hlaunch.symm.trans hl) (by simp)
  · refine ⟨⟨fun l hl b hb => ?_, hmade⟩, fun l mounts' overlays' hl hp => ?_⟩
    · cases hl
      cases hb
    · cases hl
      cases hp
      exact ⟨fun m hm => .inl (hmounts m hm), hoverlays⟩

theorem launched_running {config : Config} (h : Running before (begin s config))
    (faults : List Fault) : Running before (launched s config faults) := by
  unfold launched
  generalize begin s config = t at h
  induction faults generalizing t with
  | nil => exact h
  | cons fault faults ih => exact ih _ (go_running h fault)

end Steps

/-! ## The condition is needed -/

theorem forall_of_map_eq {α β : Type} {f : α → β} {P : β → Prop} {l l' : List α}
    (h : l'.map f = l.map f) (hl : ∀ x ∈ l, P (f x)) : ∀ x ∈ l', P (f x) := by
  intro x hx
  have hmem : f x ∈ l.map f := h ▸ List.mem_map_of_mem hx
  obtain ⟨y, hy, heq⟩ := List.mem_map.mp hmem
  exact heq ▸ hl y hy

/-- The same destinations, from other sources. -/
def Config.resourced (config : Config) (mounts : List Mount) (overlays : List Overlay)
    (hmounts : mounts.map Mount.destination = config.mounts.map Mount.destination)
    (hoverlays : overlays.map Overlay.destination = config.overlays.map Overlay.destination) :
    Config where
  mounts := mounts
  overlays := overlays
  acceptedMounts := forall_of_map_eq (P := fun path => ∃ value,
    safeMountDestination value = some path) hmounts config.acceptedMounts
  acceptedOverlays := forall_of_map_eq (P := fun path => ∃ value,
    safeMountDestination value = some path) hoverlays config.acceptedOverlays

def Mount.silenced (mount : Mount) : Mount := { mount with source := .missing }

def Overlay.silenced (overlay : Overlay) : Overlay := { overlay with source := .missing }

theorem map_silenced_mounts (mounts : List Mount) :
    (mounts.map Mount.silenced).map Mount.destination = mounts.map Mount.destination :=
  List.map_map

theorem map_silenced_overlays (overlays : List Overlay) :
    (overlays.map Overlay.silenced).map Overlay.destination =
      overlays.map Overlay.destination :=
  List.map_map

/-- A state in which this is still to be prepared. -/
def State.preparing (s : State) (launch : Launch) (mounts : List Mount)
    (overlays : List Overlay) : State :=
  { s with launch := some { launch with phase := .preparing mounts overlays } }

theorem skip_mounts (s : State) (launch : Launch) (front mounts : List Mount)
    (overlays : List Overlay) :
    (List.replicate front.length none).foldl go
        (s.preparing launch (front.map Mount.silenced ++ mounts) overlays) =
      s.preparing launch mounts overlays := by
  induction front with
  | nil => rfl
  | cons mount front ih => exact ih

theorem go_preparing_overlay (s : State) (launch : Launch) (overlay : Overlay)
    (overlays : List Overlay) (fault : Fault) :
    go (s.preparing launch [] (overlay :: overlays)) fault =
      s.preparing launch (prepareOverlay s.rootfs overlay fault) overlays := rfl

theorem prepareOverlay_silenced (tree : Rootfs) (overlay : Overlay) (fault : Fault) :
    prepareOverlay tree overlay.silenced fault = [] := by
  unfold prepareOverlay
  split
  · rfl
  · rfl

theorem skip_overlays (s : State) (launch : Launch) (front overlays : List Overlay) :
    (List.replicate front.length none).foldl go
        (s.preparing launch [] (front.map Overlay.silenced ++ overlays)) =
      s.preparing launch [] overlays := by
  induction front with
  | nil => rfl
  | cons overlay front ih =>
      rw [List.length_cons, List.replicate_succ, List.foldl_cons, List.map_cons, List.cons_append,
        go_preparing_overlay, prepareOverlay_silenced]
      exact ih

/-- Nothing goes wrong, whatever the sources hold and whatever the launch finds. -/
def AlwaysConfined (config : Config) : Prop :=
  ∀ config', SameDestinations config config' → (∀ overlay ∈ config'.overlays, overlay.Walked) →
    ∀ s, s.launch = none → ∀ faults, Confined s.rootfs (launched s config' faults)

theorem emptyRootfs_absent {p : Place} (h : p ≠ []) : emptyRootfs.kind p = .absent := if_neg h

theorem emptyRootfs_clear : Clear emptyRootfs := by
  intro p
  by_cases hp : p = []
  · exact .inr (if_pos hp)
  · exact .inl (emptyRootfs_absent hp)

theorem silenced_walked (overlays : List Overlay) :
    ∀ overlay ∈ overlays.map Overlay.silenced, overlay.Walked := by
  intro overlay hoverlay entries hentries
  obtain ⟨other, -, rfl⟩ := List.mem_map.mp hoverlay
  cases hentries

/-- With nothing in the way a directory shows what is wrong with its destination. -/
theorem goMount_shows {s : State} {launch : Launch} {rest : List Mount} {overlays : List Overlay}
    (hsource : mount.source = .directory) (hroot : mount.destination.root = .single)
    (hclear : Clear s.rootfs) (h : Confined before (goMount s launch mount rest overlays none)) :
    (∀ p, OnWay [] mount.destination.parts p → before.kind p = .absent → ¬Below p.reverse) ∧
      ∀ above, walk [] mount.destination.parts.dropLast = some above →
        Harmless mount.destination.normpath := by
  obtain ⟨hrootfs, after, hafter, -, hbound⟩ := goMount_spec s launch mount rest overlays none
  obtain ⟨hmade, hreached⟩ := prepareMount_clear hclear hsource hroot
  refine ⟨fun p hway habsent => ?_, fun above hwalk => ?_⟩
  · refine h.made p ?_ habsent
    rw [hrootfs, hmade p hway]
    simp
  · obtain ⟨place, houtcome⟩ := hreached above (mount.safe.parts hroot) hwalk
    refine h.arguments after hafter ⟨mount.destination, place⟩ ?_
    rw [hbound, houtcome]
    exact List.mem_append_right _ (List.mem_singleton_self _)

/-- In an empty tree, with no source for the mounts before. -/
theorem mountOk_of_confined {config : Config} (h : AlwaysConfined config)
    (hmount : mount ∈ config.mounts) : MountOk mount.destination := by
  intro hroot
  obtain ⟨front, back, hsplit⟩ := List.append_of_mem hmount
  let loud : Mount := { mount with source := .directory }
  have hmounts : (front.map Mount.silenced ++ loud :: back).map Mount.destination =
      config.mounts.map Mount.destination := by
    rw [hsplit, List.map_append, List.map_append, map_silenced_mounts]
    rfl
  have hoverlays := map_silenced_overlays config.overlays
  have hconfined := h (config.resourced _ _ hmounts hoverlays) ⟨hmounts, hoverlays⟩
    (silenced_walked _) firstLaunch rfl (List.replicate front.length none ++ [none])
  have hbegin : begin firstLaunch (config.resourced _ _ hmounts hoverlays) =
      firstLaunch.preparing { previous := [], phase := .preparing [] [] }
        (front.map Mount.silenced ++ loud :: back) (config.overlays.map Overlay.silenced) := rfl
  rw [launched, hbegin, List.foldl_append, skip_mounts] at hconfined
  have hsource : loud.source = .directory := rfl
  have hshows := goMount_shows hsource hroot emptyRootfs_clear hconfined
  refine ⟨hshows.2, fun p hway => hshows.1 p hway ?_⟩
  obtain ⟨-, name, above, -, -, -, rfl⟩ := hway
  exact emptyRootfs_absent (List.cons_ne_nil name above)

theorem home_isName : Component.ofName fsChars (fsText "home".toList) ≠ none := by decide

theorem home_isSome : (Component.ofName fsChars (fsText "home".toList)).isSome = true :=
  Option.isSome_iff_ne_none.mpr home_isName

def homeName : Name := (Component.ofName fsChars (fsText "home".toList)).get home_isSome

theorem homeName_noNul : ∀ name ∈ [homeName], nul ∉ name.name := by decide

def homeEntry : Entry := ⟨[homeName], homeName_noNul, .directory⟩

/-- What is harmless with a protected name after it is harmless itself. -/
theorem harmless_of_home {place : List Name} (h : Harmless ⟨.single, place ++ [homeName]⟩) :
    Harmless ⟨.single, place⟩ := by
  have hne : place ≠ [] := by
    rintro rfl
    exact absurd h.2 (by decide)
  refine ⟨fun heq => hne (congrArg PurePath.parts heq), ?_⟩
  exact (isUnsafe_append hne [homeName]).symm.trans h.2

/-- With the destination made before, and one directory in the source. -/
theorem overlayOk_of_confined {config : Config} (h : AlwaysConfined config) {overlay : Overlay}
    (hoverlay : overlay ∈ config.overlays) : OverlayOk overlay.destination := by
  intro hroot last hlast
  obtain ⟨front, back, hsplit⟩ := List.append_of_mem hoverlay
  let loud : Overlay := { overlay with source := .directory [homeEntry] }
  have hmounts := map_silenced_mounts config.mounts
  have hoverlays : (front.map Overlay.silenced ++ loud :: back.map Overlay.silenced).map
      Overlay.destination = config.overlays.map Overlay.destination := by
    rw [hsplit, List.map_append, List.map_append, map_silenced_overlays, List.map_cons,
      map_silenced_overlays, List.map_cons]
  have hwalked : ∀ overlay ∈ front.map Overlay.silenced ++ loud :: back.map Overlay.silenced,
      overlay.Walked := by
    intro o ho
    rcases List.mem_append.mp ho with ho | ho
    · exact silenced_walked _ o ho
    · rcases List.mem_cons.mp ho with rfl | ho
      · intro entries hentries entry hentry
        cases hentries
        cases List.mem_singleton.mp hentry
        decide
      · exact silenced_walked _ o ho
  have hcleared := enterParents_cleared overlay.destination.parts emptyRootfs_clear
    emptyRootfs.root
  let start : State :=
    { firstLaunch with rootfs := (enterParents emptyRootfs [] overlay.destination.parts none).1 }
  have hconfined := h (config.resourced _ _ hmounts hoverlays) ⟨hmounts, hoverlays⟩ hwalked
    start rfl (List.replicate config.mounts.length none ++
      (List.replicate front.length none ++ [none, none]))
  have hbegin : begin start (config.resourced _ _ hmounts hoverlays) =
      start.preparing { previous := [], phase := .preparing [] [] }
        (config.mounts.map Mount.silenced ++ [])
        (front.map Overlay.silenced ++ loud :: back.map Overlay.silenced) := by
    rw [List.append_nil]
    rfl
  have havailable : prepareOverlay start.rootfs loud none = loud.mounts := by
    refine if_neg ?_
    have hon := isAvailable_iff.mpr ⟨⟨last, hlast⟩, hcleared.made⟩
    simp [loud, start, hroot, hon]
  rw [launched, hbegin, List.foldl_append, skip_mounts, List.foldl_append, skip_overlays,
    List.foldl_cons, go_preparing_overlay, havailable] at hconfined
  let entry : Mount := ⟨.directory, overlay.destination.joinpath [homeName],
    overlay.safe.joinpath homeName_noNul⟩
  have hsource : entry.source = .directory := rfl
  have hshows := (goMount_shows hsource hroot hcleared.clear hconfined).2 last
  have hdrop : (overlay.destination.joinpath [homeName]).parts.dropLast =
      overlay.destination.parts := List.dropLast_concat
  have hplain : up ∉ [homeName] := by decide
  have hnormpath : (overlay.destination.joinpath [homeName]).normpath =
      ⟨.single, normal [] overlay.destination.parts ++ [homeName]⟩ := by
    rw [PurePath.normpath, PurePath.joinpath, hroot, normal_append, normal_plain hplain]
  have hharmless := harmless_of_home (hnormpath ▸ hshows (by rw [hdrop, hlast]))
  rwa [PurePath.normpath, hroot]

/-- A configuration is confined on every tree just when its destinations are all right. -/
theorem alwaysConfined_iff (config : Config) :
    AlwaysConfined config ↔ (∀ mount ∈ config.mounts, MountOk mount.destination) ∧
      ∀ overlay ∈ config.overlays, OverlayOk overlay.destination := by
  constructor
  · exact fun h => ⟨fun _ => mountOk_of_confined h, fun _ => overlayOk_of_confined h⟩
  · rintro ⟨hmounts, hoverlays⟩ config' ⟨hsame, hsame'⟩ hwalked s hlaunch faults
    have hmounts' := forall_of_map_eq hsame hmounts
    have hoverlays' := forall_of_map_eq hsame' hoverlays
    exact (launched_running (begin_running hlaunch hmounts' fun overlay hoverlay =>
      ⟨hoverlays' overlay hoverlay, hwalked overlay hoverlay⟩) faults).confined

/-! ## A detour to the home directories -/

theorem detour_accepted :
    (safeMountDestination (fsText "/opt/../home/notes".toList)).isSome = true := by decide

def detour : Config := fileMount (fsText "/opt/../home/notes".toList) detour_accepted

/-- The destination is accepted, and a file is made below `/home`. -/
theorem detour_not_confined :
    ¬∀ config : Config, (∀ overlay ∈ config.overlays, overlay.Walked) →
      ∀ s, s.launch = none → ∀ faults, Confined s.rootfs (launched s config faults) := by
  intro h
  have hconfined := h detour (fun _ hoverlay => by cases hoverlay) firstLaunch rfl [none]
  have hmade : (launched firstLaunch detour [none]).rootfs.kind
      (components fsChars (fsText "/home/notes".toList)).reverse ≠ .absent := by
    decide +kernel
  refine hconfined.made _ hmade (by decide +kernel) ⟨topLevel "home" home_isName, ?_, ?_, ?_⟩
  · exact List.mem_cons_of_mem _ List.mem_cons_self
  · decide +kernel
  · decide +kernel

end Spaces.Binds
