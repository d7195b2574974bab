import Spaces.Naming.Brokers

/-!
# The ids of dynamic launchers

What a guest installs as a launcher is given an id below its Space's on the host.
The portal and the broker both see to it, each with a function of its own. An id
that is below the Space's already is left as it is.

The Space has a desktop file too, and its id is not below the Space's. But it is
the Space's with a full stop after it, and that is all that is looked at.
-/

namespace Spaces.Naming

open Spaces.Library BusName Spaces.Shortcuts

/-! ## Ids -/

/-- `_portal_app_id`. The portal makes it of its Space's name too. -/
def portalAppId (spaceName : Text) : Text := "org.anatase.Spaces.".toList ++ spaceName

def launcherId (appId : Text) : Option Text → Option Text
  | none => none
  | some desktopId =>
      if '/' ∈ desktopId ∨ ¬ ".desktop".toList <:+ desktopId then none
      else if appId <+: desktopId ∧ desktopId[appId.length]? = some '.' then some desktopId
      else some (appId ++ '.' :: desktopId)

/-- What the portal and the broker have of their Space. -/
structure Portal where
  appId : Text

structure Broker where
  appId : Text

/-- `dynamic_launcher_id`. -/
def dynamicLauncherId (portal : Portal) (desktopId : Option Text) : Option Text :=
  launcherId portal.appId desktopId

/-- `broker_launcher_id`. -/
def brokerLauncherId (broker : Broker) (desktopId : Option Text) : Option Text :=
  launcherId broker.appId desktopId

/-! ## What an id can be -/

/-- It begins with the Space's and a full stop. -/
theorem launcherId_eq {appId id : Text} {desktopId : Option Text}
    (h : launcherId appId desktopId = some id) :
    ∃ text, desktopId = some text ∧ '/' ∉ text ∧ ".desktop".toList <:+ text ∧
      (text = id ∨ id = appId ++ '.' :: text) ∧ ∃ rest, id = appId ++ '.' :: rest := by
  cases desktopId with
  | none => cases h
  | some text =>
      rw [launcherId] at h
      split at h
      · cases h
      · next hform =>
          rw [not_or, not_not] at hform
          refine ⟨text, rfl, hform.1, hform.2, ?_⟩
          split at h
          · next hunder =>
              cases h
              obtain ⟨⟨rest, rfl⟩, hdot⟩ := hunder
              rw [List.getElem?_append_right (Nat.le_refl _), Nat.sub_self] at hdot
              cases rest with
              | nil => cases hdot
              | cons c rest =>
                  cases hdot
                  exact ⟨.inl rfl, rest, rfl⟩
          · cases h
            exact ⟨.inr rfl, text, rfl⟩

theorem launcherId_under {appId rest : Text} (hslash : '/' ∉ appId ++ '.' :: rest)
    (hsuffix : ".desktop".toList <:+ appId ++ '.' :: rest) :
    launcherId appId (some (appId ++ '.' :: rest)) = some (appId ++ '.' :: rest) := by
  rw [launcherId, if_neg (not_or.mpr ⟨hslash, not_not.mpr hsuffix⟩), if_pos]
  refine ⟨List.prefix_append _ _, ?_⟩
  rw [List.getElem?_append_right (Nat.le_refl _), Nat.sub_self]
  rfl

theorem slash_not_mem {appId rest : Text} (hslash : '/' ∉ appId) (hrest : '/' ∉ rest) :
    '/' ∉ appId ++ rest := by
  rw [List.mem_append, not_or]
  exact ⟨hslash, hrest⟩

theorem slash_not_mem_under {appId rest : Text} (hslash : '/' ∉ appId) (hrest : '/' ∉ rest) :
    '/' ∉ appId ++ '.' :: rest :=
  slash_not_mem hslash (List.not_mem_cons_of_ne_of_not_mem (by decide) hrest)

theorem launcherId_idem {appId id : Text} {desktopId : Option Text} (hslash : '/' ∉ appId)
    (h : launcherId appId desktopId = some id) : launcherId appId (some id) = some id := by
  obtain ⟨text, -, htext, hsuffix, hid, rest, rfl⟩ := launcherId_eq h
  rcases hid with rfl | hid
  · exact launcherId_under htext hsuffix
  · rw [hid]
    exact launcherId_under (slash_not_mem_under hslash htext)
      (hsuffix.trans ⟨appId ++ ['.'], by simp⟩)

/-! ## Below the Space -/

/-- An id with something between the Space's and the suffix. -/
def Below (appId id : Text) : Prop :=
  '/' ∉ id ∧ ∃ middle, middle ≠ [] ∧ id = appId ++ '.' :: middle ++ ".desktop".toList

theorem desktop_suffix {before rest : Text}
    (h : ".desktop".toList <:+ before ++ '.' :: rest) :
    rest = "desktop".toList ∨ ∃ middle, rest = middle ++ ".desktop".toList := by
  have hsuffix : ".desktop".toList <:+ '.' :: rest := by
    rcases List.suffix_or_suffix_of_suffix h (List.suffix_append before _) with hin | hshort
    · exact hin
    · -- a full stop is nowhere in the suffix but at its beginning
      rcases List.suffix_cons_iff.mp hshort with heq | hlater
      · rw [heq]
        exact List.suffix_refl _
      · exact absurd (hlater.mem List.mem_cons_self) (by decide)
  rcases List.suffix_cons_iff.mp hsuffix with heq | ⟨middle, hmiddle⟩
  · exact .inl (List.cons.inj heq).2.symm
  · exact .inr ⟨middle, hmiddle.symm⟩

/-- The desktop file of the Space itself. -/
def identityFile (space : SpaceName) : Text := portalAppId space.text ++ ".desktop".toList

/-- An id that leaves nothing between the Space's and the suffix. -/
def Bare (appId : Text) (desktopId : Option Text) : Prop :=
  desktopId = some ".desktop".toList ∨ desktopId = some (appId ++ ".desktop".toList) ∨
    desktopId = some (appId ++ '.' :: ".desktop".toList)

instance (appId : Text) (desktopId : Option Text) : Decidable (Bare appId desktopId) :=
  inferInstanceAs (Decidable (_ ∨ _ ∨ _))

theorem below_of_not_bare {appId id : Text} {desktopId : Option Text} (hslash : '/' ∉ appId)
    (h : launcherId appId desktopId = some id) (hbare : ¬ Bare appId desktopId) :
    Below appId id := by
  obtain ⟨text, rfl, htext, hsuffix, hid, rest, rfl⟩ := launcherId_eq h
  simp only [Bare, Option.some.injEq, not_or] at hbare
  rcases hid with rfl | hid
  · rcases desktop_suffix hsuffix with rfl | ⟨middle, rfl⟩
    · exact absurd rfl hbare.2.1
    · refine ⟨htext, middle, ?_, by simp⟩
      rintro rfl
      exact hbare.2.2 rfl
  · obtain rfl := (List.cons.inj (List.append_cancel_left hid)).2
    obtain ⟨middle, rfl⟩ := hsuffix
    refine ⟨slash_not_mem_under hslash htext, middle, ?_, by simp⟩
    rintro rfl
    exact hbare.1 rfl

theorem not_below_of_short {appId id : Text} (h : id.length ≤ appId.length + 9) :
    ¬ Below appId id := by
  rintro ⟨-, middle, hne, rfl⟩
  have hmiddle := List.length_pos_of_ne_nil hne
  rw [List.length_append, List.length_append, List.length_cons,
    show ".desktop".toList.length = 8 by decide] at h
  omega

theorem launcherId_bare {appId : Text} {desktopId : Option Text} (hslash : '/' ∉ appId)
    (h : Bare appId desktopId) :
    ∃ id, launcherId appId desktopId = some id ∧ id.length ≤ appId.length + 9 := by
  rcases h with rfl | rfl | rfl
  · by_cases hunder : appId <+: ".desktop".toList ∧ ".desktop".toList[appId.length]? = some '.'
    · exact ⟨_, by rw [launcherId, if_neg (by decide), if_pos hunder], by simp⟩
    · exact ⟨_, by rw [launcherId, if_neg (by decide), if_neg hunder], by simp⟩
  · exact ⟨_, launcherId_under (slash_not_mem hslash (by decide)) (List.suffix_append _ _),
      by simp⟩
  · exact ⟨_, launcherId_under (slash_not_mem hslash (by decide))
      ⟨appId ++ ['.'], by simp⟩, by simp⟩

/-! ## Spaces -/

theorem portalAppId_slash (space : SpaceName) : '/' ∉ portalAppId space.text := by
  have hstart : '/' ∉ "org.anatase.Spaces.".toList := by decide
  have hname : '/' ∉ space.text := fun hmem =>
    absurd (space.isSpaceNameChar '/' hmem) (by decide)
  exact slash_not_mem hstart hname

theorem spaceName_dotless (space : SpaceName) : '.' ∉ space.text := fun hmem =>
  absurd (space.isSpaceNameChar '.' hmem) (by decide)

/-- What is below two Spaces is below one. -/
theorem space_of_under {space other : SpaceName} {rest rest' : Text}
    (h : portalAppId space.text ++ '.' :: rest = portalAppId other.text ++ '.' :: rest') :
    space = other := by
  unfold portalAppId at h
  generalize "org.anatase.Spaces.".toList = start at h
  rw [List.append_assoc, List.append_assoc, List.append_cancel_left_eq] at h
  have htext := (append_cons_inj_left (spaceName_dotless space) (spaceName_dotless other) h).1
  obtain ⟨text, _⟩ := space
  obtain ⟨text', _⟩ := other
  cases htext
  rfl

theorem Below.ne_identityFile {space : SpaceName} {id : Text}
    (h : Below (portalAppId space.text) id) (other : SpaceName) : id ≠ identityFile other := by
  rintro rfl
  by_cases hsame : space = other
  · subst hsame
    refine not_below_of_short ?_ h
    simp [identityFile]
  · obtain ⟨-, middle, -, hmiddle⟩ := h
    rw [List.append_assoc] at hmiddle
    exact hsame (space_of_under hmiddle.symm)

/-- What both processes make of an id: the same, an id below the Space that is no
Space's own and that no other Space has, and that again when it is asked for. -/
def Namespaced (space : SpaceName) (desktopId : Option Text) : Prop :=
  dynamicLauncherId ⟨portalAppId space.text⟩ desktopId =
      brokerLauncherId ⟨portalAppId space.text⟩ desktopId ∧
    ∀ id, dynamicLauncherId ⟨portalAppId space.text⟩ desktopId = some id →
      Below (portalAppId space.text) id ∧ (∀ other, id ≠ identityFile other) ∧
      dynamicLauncherId ⟨portalAppId space.text⟩ (some id) = some id ∧
      ∀ other, other ≠ space → ∀ desktopId',
        dynamicLauncherId ⟨portalAppId other.text⟩ desktopId' ≠ some id

theorem namespaced_iff (space : SpaceName) (desktopId : Option Text) :
    Namespaced space desktopId ↔ ¬ Bare (portalAppId space.text) desktopId := by
  have hslash := portalAppId_slash space
  constructor
  · rintro ⟨-, hid⟩ hbare
    obtain ⟨id, hsome, hshort⟩ := launcherId_bare hslash hbare
    exact not_below_of_short hshort (hid id hsome).1
  · intro hbare
    refine ⟨rfl, fun id hsome => ?_⟩
    have hbelow := below_of_not_bare hslash hsome hbare
    refine ⟨hbelow, hbelow.ne_identityFile, launcherId_idem hslash hsome, ?_⟩
    intro other hother desktopId' hsome'
    obtain ⟨_, -, -, -, -, rest, hrest⟩ := launcherId_eq hsome
    obtain ⟨_, -, -, -, -, rest', hrest'⟩ := launcherId_eq hsome'
    exact hother (space_of_under (hrest'.symm.trans hrest))

/-- The Space `a` asks for its own desktop file. -/
theorem identity_passes : ¬ Namespaced ⟨['a'], by decide⟩
    (some "org.anatase.Spaces.a.desktop".toList) := by
  intro h
  exact (h.2 "org.anatase.Spaces.a.desktop".toList (by decide)).2.1 ⟨['a'], by decide⟩ (by decide)

end Spaces.Naming
