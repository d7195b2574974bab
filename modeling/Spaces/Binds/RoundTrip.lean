import Spaces.Binds.Effects
import Mathlib.Data.List.Dedup

/-!
# The manifest over several launches

Every launch can read what the last one has written, every file that was made and is
still an empty file is listed, and only such files are removed, when nothing is bound
there. This holds of every run, with three things kept out: a file that is made under a
destination with two dots, the removal of a file that is bound under such a destination,
and a launch that ends before it has recorded what it made.
-/

namespace Spaces.Binds

open Spaces.Library Spaces.Shortcuts

/-! ## What is to hold -/

def ListedAt (manifest : Manifest) (place : Place) : Prop :=
  ∃ paths, loadBindFiles manifest = .ok paths ∧ ∃ listed ∈ paths, listed.place = place

structure RoundTrip (s : State) : Prop where
  /-- The next launch can read the manifest. -/
  accepted : ∃ paths, loadBindFiles s.manifest = .ok paths
  /-- What was made and not removed is listed. -/
  listed : s.launch = none → ∀ place ∈ s.owned, ListedAt s.manifest place
  /-- What is no longer bound is removed or still listed. -/
  retired : ∀ launch, s.last = some launch → ∀ listed ∈ launch.previous,
    listed.text ∉ launch.destinations → s.rootfs.kind listed.place = .file 0 →
      ListedAt s.manifest listed.place
  /-- What is removed was an empty file, listed and not bound. -/
  removed : ∀ removal ∈ s.removals, removal.kind = .file 0 ∧
    (∃ listed ∈ removal.previous, listed.place = removal.place) ∧
      ∀ bound ∈ removal.bound, bound.place ≠ some removal.place

/-- What a launch has made was listed before. -/
def Launch.Recorded (launch : Launch) : Prop :=
  ∀ text ∈ launch.created, ∃ listed ∈ launch.previous, listed.text = text

/-- What a run may not do. -/
def Allowed (s : State) : Event → Prop
  | .go fault => ∀ launch, s.launch = some launch →
      match launch.phase with
      | .preparing (mount :: _) _ => mount.source = .file → mount.destination.root = .single →
          up ∈ mount.destination.parts → Completes fault mount.destination.parts.length →
          ∀ place, target s.rootfs mount.destination = some place →
            s.rootfs.kind place ≠ .absent
      | .removing (listed :: _) _ => s.rootfs.kind listed.place = .file 0 →
          Completes fault listed.path.parts.length →
          ∀ bound ∈ launch.bound, up ∈ bound.destination.parts →
            bound.place ≠ some listed.place
      | .removing [] _ => fault.isSome = true → launch.Recorded
      | .preparing [] _ => True
  | .interrupt => ∀ launch, s.launch = some launch → launch.Recorded
  | .launch _ | .guest _ => True

/-! ## The invariant -/

/-- Where a text that is listed leads. -/
def placeOf (text : FsName) : Place := (PurePath.parse fsChars text).parts.reverse

structure Removing (s : State) (launch : Launch) (obsolete : List ListedPath)
    (retained : List FsName) : Prop where
  owned : ∀ place ∈ s.owned, (∃ listed ∈ obsolete, listed.place = place) ∨
    ∃ text ∈ retained, placeOf text = place
  unbound : ∀ listed ∈ obsolete, listed ∈ launch.previous ∧
    listed.text ∉ launch.destinations
  known : ∀ text ∈ retained, (∃ listed ∈ launch.previous, listed.text = text) ∨
    text ∈ launch.created
  retired : ∀ listed ∈ launch.previous, listed.text ∉ launch.destinations →
    listed ∈ obsolete ∨ listed.text ∈ retained ∨ s.rootfs.kind listed.place ≠ .file 0

def PhaseOk (s : State) (launch : Launch) : Phase → Prop
  | .preparing _ _ => ∀ place ∈ s.owned, (∃ listed ∈ launch.previous, listed.place = place) ∨
      ∃ text ∈ launch.created, placeOf text = place
  | .removing obsolete retained => Removing s launch obsolete retained

structure LaunchOk (s : State) (launch : Launch) : Prop where
  loaded : loadBindFiles s.manifest = .ok launch.previous
  created : ∀ text ∈ launch.created, nul ∉ text ∧ isListable text = true
  bound : ∀ bound ∈ launch.bound, up ∉ bound.destination.parts →
    ∀ place, bound.place = some place →
      bound.destination.root = .single ∧ bound.destination.parts.reverse = place
  phase : PhaseOk s launch launch.phase

structure Inv (s : State) : Prop where
  roundTrip : RoundTrip s
  owned : ∀ place ∈ s.owned, s.rootfs.kind place = .file 0
  launch : ∀ launch, s.launch = some launch → LaunchOk s launch ∧ s.last = none

/-- Whatever is owned in the middle of a launch was listed before it, or it was made in
it. -/
theorem LaunchOk.owned {s : State} {launch : Launch} (h : LaunchOk s launch) :
    ∀ place ∈ s.owned, (∃ listed ∈ launch.previous, listed.place = place) ∨
      ∃ text ∈ launch.created, placeOf text = place := by
  have hphase := h.phase
  intro place hplace
  cases hp : launch.phase with
  | preparing mounts overlays =>
      rw [hp] at hphase
      exact hphase place hplace
  | removing obsolete retained =>
      rw [hp] at hphase
      rcases hphase.owned place hplace with ⟨listed, hlisted, rfl⟩ | ⟨text, htext, rfl⟩
      · exact .inl ⟨listed, (hphase.unbound listed hlisted).1, rfl⟩
      · rcases hphase.known text htext with ⟨listed, hlisted, rfl⟩ | hcreated
        · exact .inl ⟨listed, hlisted, rfl⟩
        · exact .inr ⟨text, hcreated, rfl⟩

/-! ## The manifest that is written -/

theorem mapM_loadPath {texts : List FsName}
    (h : ∀ text ∈ texts, nul ∉ text ∧ isListable text = true) :
    ∃ paths, (texts.map ManifestValue.text).mapM loadPath = .ok paths ∧
      ∀ listed : ListedPath, listed ∈ paths ↔ listed.text ∈ texts := by
  induction texts with
  | nil => exact ⟨[], rfl, by simp⟩
  | cons text texts ih =>
      obtain ⟨hnul, hlistable⟩ := h text (List.mem_cons_self ..)
      obtain ⟨paths, hpaths, hmem⟩ := ih fun t ht => h t (List.mem_cons_of_mem _ ht)
      have hload : loadPath (.text text) = .ok ⟨text, hnul, hlistable⟩ := by
        rw [loadPath, dif_neg hnul, dif_pos hlistable]
      refine ⟨⟨text, hnul, hlistable⟩ :: paths, ?_, fun listed => ?_⟩
      · rw [List.map_cons, List.mapM_cons, hload, hpaths]
        rfl
      · rw [List.mem_cons, List.mem_cons, hmem, ListedPath.ext_iff]

theorem loadBindFiles_list {texts : List FsName}
    (h : ∀ text ∈ texts, nul ∉ text ∧ isListable text = true) :
    ∃ paths, loadBindFiles (.list (texts.map .text)) = .ok paths ∧
      ∀ listed : ListedPath, listed ∈ paths ↔ listed.text ∈ texts := by
  obtain ⟨paths, hpaths, hmem⟩ := mapM_loadPath h
  refine ⟨paths.dedup, ?_, fun listed => ?_⟩
  · rw [loadBindFiles, hpaths]
    rfl
  · rw [List.mem_dedup, hmem]

/-! ## The steps of a launch -/

section

variable {s : State} {launch : Launch} {fault : Fault}

theorem placeOf_str {path : GuestPath} (h : path.root = .single) :
    placeOf path.str = path.parts.reverse := by
  rw [placeOf, PurePath.parse_str h]

/-- A step that leaves the launch in the middle keeps what is said of all launches. -/
theorem RoundTrip.of_launching {t : State} (h : RoundTrip s) (hmanifest : t.manifest = s.manifest)
    (hlaunch : t.launch ≠ none) (hlast : t.last = none)
    (hremoved : ∀ removal ∈ t.removals, removal.kind = .file 0 ∧
      (∃ listed ∈ removal.previous, listed.place = removal.place) ∧
        ∀ bound ∈ removal.bound, bound.place ≠ some removal.place) : RoundTrip t := by
  refine ⟨?_, fun hnone => absurd hnone hlaunch, fun l hl => ?_, hremoved⟩
  · rw [hmanifest]
    exact h.accepted
  · rw [hlast] at hl
    cases hl

theorem goMount_inv (h : Inv s) (hlaunch : s.launch = some launch) {mount : Mount}
    {rest : List Mount} {overlays : List Overlay}
    (hphase : launch.phase = .preparing (mount :: rest) overlays)
    (hok : Allowed s (.go fault)) : Inv (goMount s launch mount rest overlays fault) := by
  obtain ⟨hlaunchOk, hlast⟩ := h.launch launch hlaunch
  have hspec := prepareMount_spec s.rootfs mount fault
  have hallowed := hok launch hlaunch
  have howned := hlaunchOk.phase
  simp only [hphase] at hallowed
  rw [hphase] at howned
  have hkept : ∀ place ∈ s.owned, ∀ rootfs : Rootfs,
      (s.rootfs.kind place ≠ .absent → rootfs.kind place = s.rootfs.kind place) →
        rootfs.kind place = .file 0 := by
    intro place hplace rootfs hpresent
    have hfile := h.owned place hplace
    rw [hpresent (by rw [hfile]; simp), hfile]
  -- A destination without two dots is bound where its text says.
  have hbound : ∀ place created, (prepareMount s.rootfs mount fault).2 = .bound place created →
      ∀ b ∈ launch.bound ++ [⟨mount.destination, place⟩], up ∉ b.destination.parts →
        ∀ p, b.place = some p → b.destination.root = .single ∧
          b.destination.parts.reverse = p := by
    intro place created houtcome b hb hup p hp
    rcases List.mem_append.mp hb with hb | hb
    · exact hlaunchOk.bound b hb hup p hp
    · cases List.mem_singleton.mp hb
      obtain ⟨hroot, htarget⟩ := hspec.bound place created houtcome
      exact ⟨hroot, (target_of_noDots hup (htarget p hp)).symm⟩
  unfold goMount
  split
  · next rootfs heq =>
      rw [heq] at hspec
      refine ⟨h.roundTrip.of_launching rfl (by simp) hlast h.roundTrip.removed,
        fun place hplace => hkept place hplace _ (hspec.present place), fun l hl => ?_⟩
      cases hl
      exact ⟨⟨hlaunchOk.loaded, hlaunchOk.created, hlaunchOk.bound, howned⟩, hlast⟩
  · next rootfs place heq =>
      rw [heq] at hspec hbound
      refine ⟨h.roundTrip.of_launching rfl (by simp) hlast h.roundTrip.removed,
        fun place hplace => hkept place hplace _ (hspec.present place), fun l hl => ?_⟩
      cases hl
      exact ⟨⟨hlaunchOk.loaded, hlaunchOk.created, hbound place false rfl, howned⟩, hlast⟩
  · next rootfs place heq =>
      rw [heq] at hspec hbound
      obtain ⟨p, rfl, hsource, habsent, hfile, hcompletes⟩ := hspec.created place rfl
      obtain ⟨hroot, htarget⟩ := hspec.bound (some p) true rfl
      have hup : up ∉ mount.destination.parts := fun hup =>
        hallowed hsource hroot hup hcompletes p (htarget p rfl) habsent
      have hplace : placeOf mount.destination.str = p := by
        rw [placeOf_str hroot, target_of_noDots hup (htarget p rfl)]
      refine ⟨h.roundTrip.of_launching rfl (by simp) hlast h.roundTrip.removed,
        fun place hplace => ?_, fun l hl => ?_⟩
      · rcases List.mem_append.mp hplace with hplace | hplace
        · cases List.mem_singleton.mp hplace
          exact hfile
        · exact hkept place hplace _ (hspec.present place)
      · cases hl
        refine ⟨⟨hlaunchOk.loaded, fun text htext => ?_, hbound _ true rfl,
          fun place hplace' => ?_⟩, hlast⟩
        · rcases List.mem_append.mp htext with htext | htext
          · exact hlaunchOk.created text htext
          · cases List.mem_singleton.mp htext
            exact mount.safe.listable hroot hup
        · rcases List.mem_append.mp hplace' with hplace' | hplace'
          · cases List.mem_singleton.mp hplace'
            exact .inr ⟨_, List.mem_append_right _ (List.mem_singleton_self _), hplace⟩
          · rcases howned place hplace' with hold | ⟨text, htext, hold⟩
            · exact .inl hold
            · exact .inr ⟨text, List.mem_append_left _ htext, hold⟩

/-- A step that only goes on to another phase. -/
theorem phase_inv (h : Inv s) (hlaunch : s.launch = some launch) {phase : Phase}
    (hphase : PhaseOk s launch launch.phase → PhaseOk s launch phase)  :
    Inv { s with launch := some { launch with phase } } := by
  obtain ⟨hlaunchOk, hlast⟩ := h.launch launch hlaunch
  refine ⟨h.roundTrip.of_launching rfl (by simp) hlast h.roundTrip.removed, h.owned,
    fun l hl => ?_⟩
  cases hl
  refine ⟨⟨hlaunchOk.loaded, hlaunchOk.created, hlaunchOk.bound, ?_⟩, hlast⟩
  have hnew := hphase hlaunchOk.phase
  cases phase with
  | preparing => exact hnew
  | removing => exact ⟨hnew.owned, hnew.unbound, hnew.known, hnew.retired⟩

theorem retire_ok (h : PhaseOk s launch (.preparing [] [])) : PhaseOk s launch (retire launch) := by
  refine ⟨fun place hplace => ?_, fun listed hlisted => ?_, fun text htext => ?_,
    fun listed hlisted hunbound => .inl ?_⟩
  · rcases h place hplace with ⟨listed, hlisted, rfl⟩ | ⟨text, htext, rfl⟩
    · by_cases hbound : listed.text ∈ launch.destinations
      · exact .inr ⟨listed.text, List.mem_append_left _ (List.mem_map.mpr
          ⟨listed, List.mem_filter.mpr ⟨hlisted, by simpa using hbound⟩, rfl⟩), rfl⟩
      · exact .inl ⟨listed, List.mem_filter.mpr ⟨hlisted, by simpa using hbound⟩, rfl⟩
    · exact .inr ⟨text, List.mem_append_right _ htext, rfl⟩
  · obtain ⟨hprevious, hunbound⟩ := List.mem_filter.mp hlisted
    exact ⟨hprevious, by simpa using hunbound⟩
  · rcases List.mem_append.mp htext with htext | htext
    · obtain ⟨listed, hlisted, rfl⟩ := List.mem_map.mp htext
      exact .inl ⟨listed, (List.mem_filter.mp hlisted).1, rfl⟩
    · exact .inr htext
  · exact List.mem_filter.mpr ⟨hlisted, by simpa using hunbound⟩

/-- What is bound without two dots has the name it is listed under. -/
theorem LaunchOk.unbound (h : LaunchOk s launch) {listed : ListedPath}
    (hunbound : listed.text ∉ launch.destinations)
    (hdots : ∀ bound ∈ launch.bound, up ∈ bound.destination.parts →
      bound.place ≠ some listed.place) :
    ∀ bound ∈ launch.bound, bound.place ≠ some listed.place := by
  intro bound hbound hplace
  by_cases hup : up ∈ bound.destination.parts
  · exact hdots bound hbound hup hplace
  · obtain ⟨hroot, hparts⟩ := h.bound bound hbound hup _ hplace
    refine hunbound (List.mem_map.mpr ⟨bound, hbound, ?_⟩)
    have hpath : bound.destination = listed.path := by
      have hsame : bound.destination.parts = listed.path.parts := List.reverse_injective hparts
      cases hdestination : bound.destination
      cases hpath : listed.path
      have hlistedRoot := listed.root
      simp_all
    rw [hpath, listed.str_path]

theorem goRemove_inv (h : Inv s) (hlaunch : s.launch = some launch) {listed : ListedPath}
    {rest : List ListedPath} {retained : List FsName}
    (hphase : launch.phase = .removing (listed :: rest) retained)
    (hok : Allowed s (.go fault)) : Inv (goRemove s launch listed rest retained fault) := by
  obtain ⟨hlaunchOk, hlast⟩ := h.launch launch hlaunch
  have hspec := removeObsoleteBindFile_spec s.rootfs listed fault
  have hallowed := hok launch hlaunch
  have hremoving := hlaunchOk.phase
  simp only [hphase] at hallowed
  rw [hphase] at hremoving
  obtain ⟨howned, hunbound, hknown, hretired⟩ := hremoving
  unfold goRemove
  split
  · next rootfs retry heq =>
      rw [heq] at hspec
      obtain ⟨rfl, hfile, hcompletes⟩ := hspec.taken rfl
      refine ⟨h.roundTrip.of_launching rfl (by simp) hlast fun removal hremoval => ?_,
        fun place hplace => ?_, fun l hl => ?_⟩
      · rcases List.mem_cons.mp hremoval with rfl | hremoval
        · obtain ⟨hprevious, hnot⟩ := hunbound listed (List.mem_cons_self ..)
          exact ⟨hfile, ⟨listed, hprevious, rfl⟩,
            hlaunchOk.unbound hnot (hallowed hfile hcompletes)⟩
        · exact h.roundTrip.removed removal hremoval
      · obtain ⟨hplace, hne⟩ := List.mem_filter.mp hplace
        simp only
        rw [FileTree.unlink_of_ne (by simpa using hne)]
        exact h.owned place hplace
      · cases hl
        refine ⟨⟨hlaunchOk.loaded, hlaunchOk.created, hlaunchOk.bound, ?_, ?_, hknown, ?_⟩, hlast⟩
        · intro place hplace
          obtain ⟨hplace, hne⟩ := List.mem_filter.mp hplace
          rcases howned place hplace with ⟨other, hother, rfl⟩ | hold
          · rcases List.mem_cons.mp hother with rfl | hother
            · simp at hne
            · exact .inl ⟨other, hother, rfl⟩
          · exact .inr hold
        · exact fun other hother => hunbound other (List.mem_cons_of_mem _ hother)
        · intro other hother hnot
          by_cases hplace : other.place = listed.place
          · refine .inr (.inr ?_)
            simp only [hplace]
            rw [FileTree.unlink_kind (by rw [hfile]; simp), Function.update_self]
            simp
          · rcases hretired other hother hnot with hobsolete | hretained | hkind
            · rcases List.mem_cons.mp hobsolete with rfl | hobsolete
              · exact absurd rfl hplace
              · exact .inl hobsolete
            · exact .inr (.inl hretained)
            · refine .inr (.inr ?_)
              simp only
              rw [FileTree.unlink_of_ne hplace]
              exact hkind
  · next rootfs retry heq =>
      rw [heq] at hspec
      obtain ⟨-, hretry⟩ := hspec.left rfl
      refine phase_inv h hlaunch fun _ => ⟨fun place hplace => ?_, fun other hother => ?_,
        fun text htext => ?_, fun other hother hnot => ?_⟩
      · rcases howned place hplace with ⟨other, hother, rfl⟩ | ⟨text, htext, rfl⟩
        · rcases List.mem_cons.mp hother with rfl | hother
          · refine .inr ⟨_, ?_, rfl⟩
            rw [if_pos (hretry (h.owned _ hplace))]
            exact List.mem_append_right _ (List.mem_singleton_self _)
          · exact .inl ⟨other, hother, rfl⟩
        · refine .inr ⟨text, ?_, rfl⟩
          split
          · exact List.mem_append_left _ htext
          · exact htext
      · exact hunbound other (List.mem_cons_of_mem _ hother)
      · split at htext
        · rcases List.mem_append.mp htext with htext | htext
          · exact hknown text htext
          · cases List.mem_singleton.mp htext
            exact .inl ⟨listed, (hunbound listed (List.mem_cons_self ..)).1, rfl⟩
        · exact hknown text htext
      · rcases hretired other hother hnot with hobsolete | hretained | hkind
        · rcases List.mem_cons.mp hobsolete with rfl | hobsolete
          · by_cases hfile : s.rootfs.kind other.place = .file 0
            · refine .inr (.inl ?_)
              rw [if_pos (hretry hfile)]
              exact List.mem_append_right _ (List.mem_singleton_self _)
            · exact .inr (.inr hfile)
          · exact .inl hobsolete
        · refine .inr (.inl ?_)
          split
          · exact List.mem_append_left _ hretained
          · exact hretained
        · exact .inr (.inr hkind)

/-- A launch that ends before it has written, with nothing made that was not listed. -/
theorem ended_inv (h : Inv s) (hlaunch : s.launch = some launch) (hrecorded : launch.Recorded) :
    Inv { s with launch := none } := by
  obtain ⟨hlaunchOk, hlast⟩ := h.launch launch hlaunch
  refine ⟨⟨h.roundTrip.accepted, fun _ place hplace => ?_, h.roundTrip.retired,
    h.roundTrip.removed⟩, h.owned, fun l hl => by cases hl⟩
  rcases hlaunchOk.owned place hplace with hlisted | ⟨text, htext, rfl⟩
  · exact ⟨_, hlaunchOk.loaded, hlisted⟩
  · obtain ⟨listed, hlisted, rfl⟩ := hrecorded text htext
    exact ⟨_, hlaunchOk.loaded, listed, hlisted, rfl⟩

theorem finish_inv (h : Inv s) (hlaunch : s.launch = some launch) {retained : List FsName}
    (hphase : launch.phase = .removing [] retained) (hok : Allowed s (.go fault)) :
    Inv (finish s launch retained fault) := by
  obtain ⟨hlaunchOk, hlast⟩ := h.launch launch hlaunch
  have hallowed := hok launch hlaunch
  have hremoving := hlaunchOk.phase
  simp only [hphase] at hallowed
  rw [hphase] at hremoving
  unfold finish
  split
  · next hfault => exact ended_inv h hlaunch (hallowed hfault)
  · have hloadable : ∀ text ∈ retained, nul ∉ text ∧ isListable text = true := by
      intro text htext
      rcases hremoving.known text htext with ⟨listed, -, rfl⟩ | hcreated
      · exact ⟨listed.noNul, listed.listable⟩
      · exact hlaunchOk.created text hcreated
    obtain ⟨paths, hpaths, hmem⟩ := loadBindFiles_list hloadable
    have hlisted : ∀ text ∈ retained, ListedAt (.list (retained.map .text)) (placeOf text) := by
      intro text htext
      have hlistable : nul ∉ text ∧ isListable text = true := by
        rcases hremoving.known text htext with ⟨listed, -, rfl⟩ | hcreated
        · exact ⟨listed.noNul, listed.listable⟩
        · exact hlaunchOk.created text hcreated
      exact ⟨paths, hpaths, ⟨text, hlistable.1, hlistable.2⟩, (hmem _).mpr htext, rfl⟩
    refine ⟨⟨⟨paths, hpaths⟩, fun _ place hplace => ?_, fun l hl listed hprevious hnot hfile => ?_,
      h.roundTrip.removed⟩, h.owned, fun l hl => by cases hl⟩
    · rcases hremoving.owned place hplace with ⟨other, hother, -⟩ | ⟨text, htext, rfl⟩
      · cases hother
      · exact hlisted text htext
    · cases hl
      rcases hremoving.retired listed hprevious hnot with hobsolete | hretained | hkind
      · cases hobsolete
      · exact hlisted listed.text hretained
      · exact absurd hfile hkind

theorem go_inv (h : Inv s) (hok : Allowed s (.go fault)) : Inv (go s fault) := by
  unfold go
  split
  · exact h
  · next launch hlaunch =>
      split
      · next mount rest overlays hphase => exact goMount_inv h hlaunch hphase hok
      · next overlay overlays hphase =>
          refine phase_inv h hlaunch fun hold => ?_
          rw [hphase] at hold
          exact hold
      · next hphase =>
          refine phase_inv h hlaunch fun hold => ?_
          rw [hphase] at hold
          exact retire_ok hold
      · next listed rest retained hphase => exact goRemove_inv h hlaunch hphase hok
      · next retained hphase => exact finish_inv h hlaunch hphase hok

theorem begin_inv (h : Inv s) (hlaunch : s.launch = none) (config : Config) :
    Inv (begin s config) := by
  unfold begin
  split
  · next error herror =>
      obtain ⟨paths, hpaths⟩ := h.roundTrip.accepted
      rw [hpaths] at herror
      cases herror
  · next previous hprevious =>
      refine ⟨h.roundTrip.of_launching rfl (by simp) rfl h.roundTrip.removed, h.owned,
        fun l hl => ?_⟩
      cases hl
      refine ⟨⟨hprevious, fun _ htext => (by cases htext), fun _ hb => (by cases hb),
        fun place hplace => .inl ?_⟩, rfl⟩
      obtain ⟨paths, hpaths, hlisted⟩ := h.roundTrip.listed hlaunch place hplace
      rw [hprevious] at hpaths
      cases hpaths
      exact hlisted

theorem step_inv (h : Inv s) {e : Event} (hok : Allowed s e) : Inv (step s e) := by
  cases e with
  | launch config =>
      simp only [step]
      split
      · exact h
      · next hnone => exact begin_inv h (by simpa using hnone) config
  | go fault => exact go_inv h hok
  | interrupt =>
      simp only [step]
      cases hlaunch : s.launch with
      | none =>
          refine ⟨⟨h.roundTrip.accepted, fun _ => h.roundTrip.listed hlaunch,
            fun l hl => (by cases hl), h.roundTrip.removed⟩, h.owned, fun l hl => by cases hl⟩
      | some launch =>
          have hended := ended_inv h hlaunch (hok launch hlaunch)
          exact ⟨⟨hended.roundTrip.accepted, hended.roundTrip.listed, fun l hl => (by cases hl),
            hended.roundTrip.removed⟩, hended.owned, fun l hl => by cases hl⟩
  | guest rootfs =>
      simp only [step]
      split
      · exact h
      · next hnone =>
          have hlaunch : s.launch = none := by simpa using hnone
          refine ⟨⟨h.roundTrip.accepted, fun _ place hplace => ?_, fun l hl => (by cases hl),
            h.roundTrip.removed⟩, fun place hplace => ?_, fun l hl => ?_⟩
          · exact h.roundTrip.listed hlaunch place (List.mem_filter.mp hplace).1
          · simpa using (List.mem_filter.mp hplace).2
          · rw [hlaunch] at hl
            cases hl

/-- No step of a launch changes what is there, unless it is removed and that is noted. -/
theorem step_keeps {e : Event} (he : ∀ rootfs, e ≠ .guest rootfs) {place : Place}
    (hplace : s.rootfs.kind place ≠ .absent) :
    (step s e).rootfs.kind place = s.rootfs.kind place ∨
      ∃ removal, (step s e).removals = removal :: s.removals ∧ removal.place = place := by
  cases e with
  | guest rootfs => exact absurd rfl (he rootfs)
  | interrupt => exact .inl rfl
  | launch config =>
      simp only [step]
      split
      · exact .inl rfl
      · unfold begin
        split <;> exact .inl rfl
  | go fault =>
      simp only [step, go]
      split
      · exact .inl rfl
      · split
        · next mount rest overlays hphase =>
            refine .inl ?_
            have hspec := prepareMount_spec s.rootfs mount fault
            unfold goMount
            split
            all_goals
              next heq =>
                rw [heq] at hspec
                exact hspec.present place hplace
        · exact .inl rfl
        · exact .inl rfl
        · next listed rest retained hphase =>
            have hspec := removeObsoleteBindFile_spec s.rootfs listed fault
            unfold goRemove
            split
            · next rootfs retry heq =>
                rw [heq] at hspec
                obtain ⟨rfl, -, -⟩ := hspec.taken rfl
                by_cases hself : place = listed.place
                · exact .inr ⟨_, rfl, hself.symm⟩
                · exact .inl (FileTree.unlink_of_ne hself)
            · exact .inl rfl
        · unfold finish
          split <;> exact .inl rfl

/-! ## Runs -/

/-- Before the first launch nothing has been made; a manifest, if there is one, can be
read. -/
structure Starts (s : State) : Prop where
  manifest : ∃ paths, loadBindFiles s.manifest = .ok paths
  launch : s.launch = none
  last : s.last = none
  owned : s.owned = []
  removals : s.removals = []

theorem Starts.inv (h : Starts s) : Inv s := by
  refine ⟨⟨h.manifest, fun _ place hplace => ?_, fun l hl => ?_, fun r hr => ?_⟩,
    fun place hplace => ?_, fun l hl => ?_⟩
  · rw [h.owned] at hplace
    cases hplace
  · rw [h.last] at hl
    cases hl
  · rw [h.removals] at hr
    cases hr
  · rw [h.owned] at hplace
    cases hplace
  · rw [h.launch] at hl
    cases hl

theorem roundTrip_of_allowed {start : State} (hstart : Starts start)
    (h : Guarded step Allowed start s) :
    RoundTrip s ∧ ∀ e, (∀ rootfs, e ≠ .guest rootfs) → ∀ place,
      s.rootfs.kind place ≠ .absent →
        (step s e).rootfs.kind place = s.rootfs.kind place ∨
          ∃ removal, (step s e).removals = removal :: s.removals ∧ removal.place = place := by
  have hinv : Inv s := h.invariant hstart.inv fun _ _ hinv hok => step_inv hinv hok
  exact ⟨hinv.roundTrip, fun e he place hplace => step_keeps he hplace⟩

end

/-! ## A destination with two dots -/

def emptyRootfs : Rootfs where
  kind place := if place = [] then .dir else .absent
  root := rfl
  parents name place h := by simp at h

def fileMount (value : FsName) (h : (safeMountDestination value).isSome = true) : Config where
  mounts := [⟨.file, (safeMountDestination value).get h,
    safe_of_safeMountDestination (Option.some_get h).symm⟩]
  overlays := []
  acceptedMounts mount hmount := by
    cases List.mem_singleton.mp hmount
    exact ⟨value, (Option.some_get h).symm⟩
  acceptedOverlays overlay hoverlay := by cases hoverlay

def firstLaunch : State := { rootfs := emptyRootfs, manifest := .absent }

def plainMount : Config := fileMount (fsText "/etc/vendor".toList) (by decide)

def dottedMount : Config := fileMount (fsText "/opt/../vendor".toList) (by decide)

def noMounts : Config where
  mounts := []
  overlays := []
  acceptedMounts mount hmount := by cases hmount
  acceptedOverlays overlay hoverlay := by cases hoverlay

/-- No destination that counts for the next step has two dots. -/
def Launch.undotted (launch : Launch) : Bool :=
  match launch.phase with
  | .preparing (mount :: _) _ => mount.destination.parts.all (· != up)
  | .removing (_ :: _) _ => launch.bound.all fun bound => bound.destination.parts.all (· != up)
  | _ => true

theorem not_up_of_all {parts : List (Component fsChars)} (h : parts.all (· != up) = true) :
    up ∉ parts := by
  intro hmem
  have hne := List.all_eq_true.mp h up hmem
  simp at hne

theorem allowed_go {s : State} (h : s.launch.all Launch.undotted = true) :
    Allowed s (.go none) := by
  intro launch hlaunch
  rw [hlaunch, Option.all_some] at h
  unfold Launch.undotted at h
  split
  · next hphase =>
      rw [hphase] at h
      exact fun _ _ hup => absurd hup (not_up_of_all h)
  · next hphase =>
      rw [hphase] at h
      exact fun _ _ bound hbound hup =>
        absurd hup (not_up_of_all (List.all_eq_true.mp h bound hbound))
  · exact fun hfault => by cases hfault
  · trivial

/-- A file is made for a mount, and removed when the next launch has no such mount. -/
def launches : List Event :=
  [.launch plainMount, .go none, .go none, .go none, .launch noMounts, .go none, .go none,
    .go none]

theorem roundTrip_plainMount :
    let written := (launches.take 4).foldl step firstLaunch
    let s := launches.foldl step firstLaunch
    (written.owned.length = 1 ∧ s.owned = [] ∧ s.removals.length = 1 ∧
      s.last.isSome = true) ∧
    RoundTrip s ∧ ∀ e, (∀ rootfs, e ≠ .guest rootfs) → ∀ place,
      s.rootfs.kind place ≠ .absent →
        (step s e).rootfs.kind place = s.rootfs.kind place ∨
          ∃ removal, (step s e).removals = removal :: s.removals ∧ removal.place = place := by
  intro written s
  refine ⟨by decide +kernel, roundTrip_of_allowed ⟨⟨[], rfl⟩, rfl, rfl, rfl, rfl⟩
    (Guarded.start.foldl ⟨trivial, ?_, ?_, ?_, trivial, ?_, ?_, ?_, trivial⟩)⟩
  all_goals exact allowed_go (by decide +kernel)
/-- The file is made and listed, and no later launch gets past the manifest. -/
theorem dottedMount_rejected :
    ∃ s, Reachable step firstLaunch s ∧ s.last.isSome = true ∧ ¬RoundTrip s := by
  refine ⟨_, Guarded.run [.launch dottedMount, .go none, .go none, .go none] firstLaunch, rfl,
    fun h => ?_⟩
  obtain ⟨paths, hpaths⟩ := h.accepted
  cases hpaths

end Spaces.Binds
