import Spaces.Naming.Brokers

/-!
# The names of mirrors

The portal owns a name on the host's session bus for each status item and player of
its Space. The element that tells mirrors of one kind and number apart is the
Space's name, a hyphen and a readable form of the application's id. Both sides of
the hyphen may have hyphens of their own, so that the element settles neither.
-/

namespace Spaces.Naming

open Spaces.Library BusName Spaces.Shortcuts

/-! ## Applications -/

/-- What a bus client says it is called. It ends where the first NUL is. -/
structure AppId where
  bytes : List UInt8
  terminated : 0 ∉ bytes
  deriving DecidableEq

def charOf (byte : UInt8) : Char := Char.ofNat byte.toNat

def isKept (byte : UInt8) : Bool :=
  (charOf byte).isAlphanum || charOf byte == '_' || charOf byte == '-'

/-- The loop of `mirror_app_component`. -/
def appendBytes (component : Text) (separator : Bool) : List UInt8 → Text
  | [] => component
  | byte :: rest =>
      if component.length < 63 then
        if isKept byte then appendBytes (component ++ [(charOf byte).toLower]) false rest
        else if !separator && component ≠ [] then appendBytes (component ++ ['-']) true rest
        else appendBytes component separator rest
      else component

/-- `mirror_app_component`. -/
def mirrorAppComponent (value : List UInt8) : Text :=
  let component := (appendBytes [] false value).rdropWhile (· == '-')
  if component = [] then "app".toList else component

/-! ## Words

An id is read as words: what is kept of it between what is not. -/

def lowered (word : List UInt8) : Text := word.map fun byte => (charOf byte).toLower

def wordsOf (runs : List (List UInt8)) : List Text := (runs.filter (· ≠ [])).map lowered

def words (value : List UInt8) : List Text :=
  wordsOf (value.splitOnP fun byte => !isKept byte)

def hyphenated (ws : List Text) : Text := ['-'].intercalate ws

/-- The first 63 characters, less the hyphens they end with. -/
def trimmed (text : Text) : Text := (text.take 63).rdropWhile (· == '-')

/-- The words of an id with hyphens between them, in 63 characters. -/
def readable (value : List UInt8) : Text :=
  let component := trimmed (hyphenated (words value))
  if component = [] then "app".toList else component

/-- Words that come after another. -/
def later (ws : List Text) : Text := if ws = [] then [] else '-' :: hyphenated ws

theorem hyphenated_cons (word : Text) (ws : List Text) :
    hyphenated (word :: ws) = word ++ later ws := by
  cases ws with
  | nil => simp [hyphenated, later]
  | cons next ws => simp [hyphenated, later, List.intercalate_cons_cons]

/-- What bytes add to a word that has begun. -/
def continued (value : List UInt8) : Text :=
  match value.splitOnP fun byte => !isKept byte with
  | [] => []
  | run :: runs => lowered run ++ later (wordsOf runs)

theorem words_kept {byte : UInt8} (h : isKept byte = true) (rest : List UInt8) :
    hyphenated (words (byte :: rest)) = (charOf byte).toLower :: continued rest := by
  unfold words continued
  rw [List.splitOnP_cons_eq_if_modifyHead, h, Bool.not_true, if_neg Bool.false_ne_true]
  cases hruns : rest.splitOnP fun byte => !isKept byte with
  | nil => exact absurd hruns (List.splitOnP_ne_nil _ _)
  | cons run runs => exact hyphenated_cons (lowered (byte :: run)) (wordsOf runs)

theorem words_skipped {byte : UInt8} (h : isKept byte = false) (rest : List UInt8) :
    words (byte :: rest) = words rest := by
  unfold words
  rw [List.splitOnP_cons_eq_if_modifyHead, h, Bool.not_false, if_pos rfl]
  rfl

theorem continued_kept {byte : UInt8} (h : isKept byte = true) (rest : List UInt8) :
    continued (byte :: rest) = (charOf byte).toLower :: continued rest := by
  unfold continued
  rw [List.splitOnP_cons_eq_if_modifyHead, h, Bool.not_true, if_neg Bool.false_ne_true]
  cases hruns : rest.splitOnP fun byte => !isKept byte with
  | nil => exact absurd hruns (List.splitOnP_ne_nil _ _)
  | cons run runs => rfl

theorem continued_skipped {byte : UInt8} (h : isKept byte = false) (rest : List UInt8) :
    continued (byte :: rest) = later (words rest) := by
  unfold continued words
  rw [List.splitOnP_cons_eq_if_modifyHead, h, Bool.not_false, if_pos rfl]
  rfl

/-! ## The loop reads the words -/

theorem trimmed_of_full {text : Text} (h : ¬ text.length < 63) (rest : Text) :
    trimmed (text ++ rest) = trimmed text := by
  rw [trimmed, List.take_append_of_le_length (by omega), trimmed]

theorem trimmed_hyphen (text : Text) : trimmed (text ++ ['-']) = trimmed text := by
  by_cases h : text.length < 63
  · have hlength : (text ++ ['-']).length ≤ 63 := by
      rw [List.length_append, List.length_singleton]
      omega
    unfold trimmed
    rw [List.take_of_length_le hlength, List.take_of_length_le (by omega),
      List.rdropWhile_concat_pos _ _ _ rfl]
  · exact trimmed_of_full h ['-']

theorem trimmed_appendBytes (component : Text) (separator : Bool) (value : List UInt8) :
    (separator = false → component ≠ [] →
      trimmed (appendBytes component separator value) = trimmed (component ++ continued value)) ∧
    (∀ before, separator = true → component = before ++ ['-'] →
      trimmed (appendBytes component separator value) =
        trimmed (before ++ later (words value))) ∧
    (separator = false → component = [] →
      trimmed (appendBytes component separator value) = trimmed (hyphenated (words value))) := by
  fun_induction appendBytes component separator value with
  | case1 component separator =>
      refine ⟨fun _ _ => ?_, ?_, ?_⟩
      · rw [show continued [] = [] from rfl, List.append_nil]
      · rintro before - rfl
        rw [show later (words []) = [] from rfl, List.append_nil, trimmed_hyphen]
      · rintro - rfl
        rfl
  | case2 component separator byte rest hshort hkept ih =>
      have hword := ih.1 rfl (by simp)
      rw [List.append_assoc, List.singleton_append] at hword
      refine ⟨fun _ _ => ?_, ?_, ?_⟩
      · rw [hword, continued_kept hkept]
      · rintro before - rfl
        have hne : words (byte :: rest) ≠ [] := by
          intro hnil
          have hcons := words_kept hkept rest
          rw [hnil] at hcons
          cases hcons
        rw [hword, later, if_neg hne, words_kept hkept, List.append_assoc, List.singleton_append]
      · rintro - rfl
        rw [hword, words_kept hkept, List.nil_append]
  | case3 component separator byte rest hshort hkept hseparate ih =>
      rw [Bool.not_eq_true] at hkept
      simp only [Bool.and_eq_true, Bool.not_eq_true', decide_eq_true_eq] at hseparate
      refine ⟨fun _ _ => ?_, ?_, ?_⟩
      · rw [ih.2.1 component rfl rfl, continued_skipped hkept]
      · rintro before rfl -
        cases hseparate.1
      · rintro - rfl
        exact absurd rfl hseparate.2
  | case4 component separator byte rest hshort hkept hseparate ih =>
      rw [Bool.not_eq_true] at hkept
      simp only [Bool.and_eq_true, Bool.not_eq_true', decide_eq_true_eq, not_and,
        not_not] at hseparate
      refine ⟨fun hfalse hne => absurd (hseparate hfalse) hne, ?_, ?_⟩
      · intro before htrue hcomponent
        rw [ih.2.1 before htrue hcomponent, words_skipped hkept]
      · intro hfalse hnil
        rw [ih.2.2 hfalse hnil, words_skipped hkept]
  | case5 component separator byte rest hfull =>
      refine ⟨fun _ _ => (trimmed_of_full hfull _).symm, ?_, ?_⟩
      · rintro before - rfl
        unfold later
        split
        · rw [List.append_nil, trimmed_hyphen]
        · rw [← trimmed_of_full hfull (hyphenated (words (byte :: rest))), List.append_assoc,
            List.singleton_append]
      · rintro - rfl
        exact absurd (by decide) hfull

theorem length_appendBytes (component : Text) (separator : Bool) (value : List UInt8)
    (h : component.length ≤ 63) : (appendBytes component separator value).length ≤ 63 := by
  fun_induction appendBytes component separator value with
  | case1 => exact h
  | case2 component separator byte rest hshort hkept ih =>
      refine ih ?_
      rw [List.length_append, List.length_singleton]
      omega
  | case3 component separator byte rest hshort hkept hseparate ih =>
      refine ih ?_
      rw [List.length_append, List.length_singleton]
      omega
  | case4 component separator byte rest hshort hkept hseparate ih => exact ih h
  | case5 => exact h

theorem mirrorAppComponent_eq (value : List UInt8) :
    mirrorAppComponent value = readable value := by
  have htrimmed := (trimmed_appendBytes [] false value).2.2 rfl rfl
  have hlength := length_appendBytes [] false value (Nat.zero_le _)
  rw [trimmed, List.take_of_length_le hlength] at htrimmed
  rw [mirrorAppComponent, readable, htrimmed]

/-! ## What a component is made of -/

theorem isElementChar_kept {byte : UInt8} (h : isKept byte = true) :
    isElementChar (charOf byte).toLower = true := by
  have hbytes : ∀ n < 256, isKept (UInt8.ofNat n) = true →
      isElementChar (charOf (UInt8.ofNat n)).toLower = true := by decide +kernel
  have hbyte := hbytes byte.toNat byte.toNat_lt
  rw [UInt8.ofNat_toNat] at hbyte
  exact hbyte h

theorem all_appendBytes (component : Text) (separator : Bool) (value : List UInt8)
    (h : component.all isElementChar = true) :
    (appendBytes component separator value).all isElementChar = true := by
  fun_induction appendBytes component separator value with
  | case1 => exact h
  | case2 component separator byte rest hshort hkept ih =>
      refine ih ?_
      rw [List.all_append, h, List.all_cons, isElementChar_kept hkept]
      rfl
  | case3 component separator byte rest hshort hkept hseparate ih =>
      refine ih ?_
      rw [List.all_append, h]
      rfl
  | case4 component separator byte rest hshort hkept hseparate ih => exact ih h
  | case5 => exact h

theorem mirrorAppComponent_element (value : List UInt8) :
    (mirrorAppComponent value).all isElementChar = true ∧
      (mirrorAppComponent value).length ≤ 63 := by
  unfold mirrorAppComponent
  dsimp only
  split
  · decide
  · constructor
    · refine List.all_eq_true.mpr fun c hc => ?_
      exact List.all_eq_true.mp (all_appendBytes [] false value rfl) c
        ((List.rdropWhile_prefix _ _).mem hc)
    · exact ((List.rdropWhile_prefix _ _).length_le).trans
        (length_appendBytes [] false value (Nat.zero_le _))

/-! ## Names -/

/-- `mirror_host_name`, and the portal's serial after it. -/
def mirrorHostName (spaceName mirrorInterface app : Text) (statusItem : Bool)
    (mirrorSerial : UInt32) : Text × UInt32 :=
  let spaceApp := spaceName ++ '-' :: app
  let mirrorSerial := mirrorSerial + 1
  (mirrorInterface ++ ".spaces.space.".toList
    ++ (if beginsWithDigit spaceApp then ['s'] else []) ++ spaceApp
    ++ '.' :: (if statusItem then "item".toList else "player".toList)
    ++ '.' :: 'i' :: Nat.toDigits 10 mirrorSerial.toNat, mirrorSerial)

/-- What `create_mirror` asks a name for. -/
structure Mirrored where
  space : SpaceName
  application : AppId
  statusItem : Bool
  serial : UInt32

namespace Mirrored

def name (m : Mirrored) : Text :=
  (mirrorHostName m.space.text
    (if m.statusItem then "org.kde.StatusNotifierItem".toList else "org.mpris.MediaPlayer2".toList)
    (mirrorAppComponent m.application.bytes) m.statusItem m.serial).1

/-- The elements before the one that tells mirrors apart. -/
def base (statusItem : Bool) : Text :=
  if statusItem then "org.kde.StatusNotifierItem.spaces.space".toList
  else "org.mpris.MediaPlayer2.spaces.space".toList

def kind (statusItem : Bool) : Text :=
  if statusItem then "item".toList else "player".toList

def number (serial : UInt32) : Text := 'i' :: Nat.toDigits 10 (serial + 1).toNat

/-- The element that tells mirrors apart. -/
def element (m : Mirrored) : Text := lead m.space.text ++ '-' :: readable m.application.bytes

theorem name_eq (m : Mirrored) : m.name =
    base m.statusItem ++
      '.' :: (m.element ++ '.' :: (kind m.statusItem ++ '.' :: number m.serial)) := by
  have hne : m.space.text ≠ [] := by
    obtain ⟨first, rest, htext, -⟩ := SpaceName.begins m.space
    rw [htext]
    exact List.cons_ne_nil _ _
  have hlead : ∀ text : Text, (if beginsWithDigit text then ['s'] else []) ++ text = lead text := by
    intro text
    unfold lead
    split
    · rfl
    · rfl
  have hbase : ∀ statusItem : Bool,
      (if statusItem then "org.kde.StatusNotifierItem".toList
        else "org.mpris.MediaPlayer2".toList) ++ ".spaces.space.".toList =
      base statusItem ++ ['.'] := by decide
  unfold name mirrorHostName element
  dsimp only
  rw [hbase, List.append_assoc (base m.statusItem ++ ['.']), hlead, lead_append hne,
    mirrorAppComponent_eq, ← kind, ← number]
  simp only [List.append_assoc, List.cons_append, List.nil_append]

theorem begins (m : Mirrored) : m.space.text ≠ [] := by
  obtain ⟨first, rest, htext, -⟩ := SpaceName.begins m.space
  rw [htext]
  exact List.cons_ne_nil _ _

theorem isElement_element (m : Mirrored) : isElement m.element = true := by
  have hspace : m.space.text.all isElementChar = true := by
    refine List.all_eq_true.mpr fun c hc => ?_
    have hchar := m.space.isSpaceNameChar c hc
    by_cases hunderscore : c = '_'
    · rw [hunderscore]
      rfl
    · rcases plain_of_isSpaceNameChar hchar hunderscore with halnum | rfl
      · rw [isElementChar, halnum]
        rfl
      · rfl
  have happ := (mirrorAppComponent_element m.application.bytes).1
  rw [mirrorAppComponent_eq] at happ
  have hall : (m.space.text ++ '-' :: readable m.application.bytes).all isElementChar = true := by
    rw [List.all_append, hspace, List.all_cons, happ]
    rfl
  rw [element, ← lead_append m.begins]
  exact isElement_lead (List.append_ne_nil_of_left_ne_nil m.begins _) hall

theorem element_dotless (m : Mirrored) : '.' ∉ m.element :=
  not_mem_of_all (all_of_isElement m.isElement_element)

theorem isElement_number (serial : UInt32) : isElement (number serial) = true := by
  refine isElement_cons rfl ?_
  rw [List.all_cons, Bool.and_eq_true]
  refine ⟨rfl, List.all_eq_true.mpr fun c hc => ?_⟩
  have hdigit := Nat.isDigit_of_mem_toDigits (by omega) (by omega) hc
  simp [isElementChar, Char.isAlphanum, hdigit]

theorem number_inj {serial serial' : UInt32} (h : number serial = number serial') :
    serial = serial' := by
  have hnext := UInt32.toNat_inj.mp (toDigits_inj (List.cons.inj h).2)
  exact (UInt32.add_left_inj 1).mp hnext

theorem length_number (serial : UInt32) : (number serial).length ≤ 11 := by
  have hlt := (serial + 1).toNat_lt
  have hdigits : (Nat.toDigits 10 (serial + 1).toNat).length ≤ 10 :=
    (Nat.length_toDigits_le_iff (by omega) (by omega)).mpr (by omega)
  rw [number, List.length_cons]
  omega

theorem length_spaceName (space : SpaceName) : space.text.length ≤ 63 := by
  obtain ⟨text, valid⟩ := space
  cases text with
  | nil => exact Nat.zero_le _
  | cons first rest =>
      simp only [isSpaceName, Bool.and_eq_true, decide_eq_true_eq] at valid
      rw [List.length_cons]
      omega

theorem length_element (m : Mirrored) : m.element.length ≤ 128 := by
  have happ := (mirrorAppComponent_element m.application.bytes).2
  rw [mirrorAppComponent_eq] at happ
  have hspace := length_spaceName m.space
  have hdigit := Bool.toNat_le (beginsWithDigit m.space.text)
  rw [element, List.length_append, List.length_cons, length_lead]
  omega

theorem isWellKnown_name (m : Mirrored) : isWellKnown m.name = true := by
  have hbase : ∀ statusItem, isDotted (base statusItem) = true ∧
      (base statusItem).length ≤ 40 := by decide
  have hkind : ∀ statusItem, isElement (kind statusItem) = true ∧
      (kind statusItem).length ≤ 6 := by decide
  have hnumber := length_number m.serial
  have helement := m.length_element
  rw [name_eq, isWellKnown_append (hbase m.statusItem).1
    (isDotted_append (isDotted_of_isElement m.isElement_element)
      (isDotted_append (isDotted_of_isElement (hkind m.statusItem).1)
        (isDotted_of_isElement (isElement_number m.serial))))]
  have hbase := (hbase m.statusItem).2
  have hkind := (hkind m.statusItem).2
  simp only [List.length_append, List.length_cons]
  omega

/-- One Space's name goes on with a hyphen where the other's ends, and the other's
application has what follows before its own hyphen. -/
def Longer (a b : Mirrored) : Prop :=
  ∃ m, lead b.space.text = lead a.space.text ++ '-' :: m ∧
    readable a.application.bytes = m ++ '-' :: readable b.application.bytes

/-- A Space and an application read as another Space and application do. -/
def ReadAlike (a b : Mirrored) : Prop :=
  (lead a.space.text = lead b.space.text ∧
    readable a.application.bytes = readable b.application.bytes) ∨ Longer a b ∨ Longer b a

theorem element_eq_iff (a b : Mirrored) : a.element = b.element ↔ ReadAlike a b :=
  append_cons_eq_iff

theorem statusItem_of_base {statusItem statusItem' : Bool} {rest rest' : Text}
    (h : base statusItem ++ rest = base statusItem' ++ rest') : statusItem = statusItem' := by
  have hbegins : ∀ statusItem, (base statusItem)[4]? =
      some (if statusItem then 'k' else 'm') := by decide
  have hfifth := congrArg (·[4]?) h
  have hlong : ∀ statusItem, 4 < (base statusItem).length := by decide
  rw [List.getElem?_append_left (hlong _), List.getElem?_append_left (hlong _), hbegins,
    hbegins] at hfifth
  cases statusItem with
  | true =>
      cases statusItem' with
      | true => rfl
      | false => cases hfifth
  | false =>
      cases statusItem' with
      | true => cases hfifth
      | false => rfl

theorem name_eq_iff (a b : Mirrored) : a.name = b.name ↔
    a.statusItem = b.statusItem ∧ a.serial = b.serial ∧ ReadAlike a b := by
  rw [name_eq, name_eq, ← element_eq_iff]
  constructor
  · intro h
    have hkind := statusItem_of_base h
    rw [hkind, List.append_cancel_left_eq] at h
    obtain ⟨helement, hrest⟩ := append_cons_inj_left a.element_dotless b.element_dotless
      (List.cons.inj h).2
    rw [List.append_cancel_left_eq] at hrest
    exact ⟨hkind, number_inj (List.cons.inj hrest).2, helement⟩
  · rintro ⟨hkind, hserial, helement⟩
    rw [hkind, hserial, helement]

/-- Two mirrors have names, and different ones where their Spaces or applications
are different. -/
def Named (a b : Mirrored) : Prop :=
  (a.space ≠ b.space ∨ a.application ≠ b.application → a.name ≠ b.name) ∧
    isWellKnown a.name = true ∧ isWellKnown b.name = true

/-- Two mirrors of one kind and number, of different Spaces or applications that are
read alike. -/
def Clash (a b : Mirrored) : Prop :=
  (a.space ≠ b.space ∨ a.application ≠ b.application) ∧
    a.statusItem = b.statusItem ∧ a.serial = b.serial ∧ ReadAlike a b

theorem mirrors_named_iff (a b : Mirrored) : Named a b ↔ ¬ Clash a b := by
  rw [Named, isWellKnown_name, isWellKnown_name, Clash, ← name_eq_iff]
  simp only [and_true, not_and]

/-- The status items of an application `b-c` in a Space `a` and of an application `c`
in a Space `a-b`. -/
theorem hyphenatedSpaces_meet : ¬ Named
    ⟨⟨['a'], by decide⟩, ⟨"b-c".toUTF8.data.toList, by decide⟩, true, 0⟩
    ⟨⟨['a', '-', 'b'], by decide⟩, ⟨"c".toUTF8.data.toList, by decide⟩, true, 0⟩ := by
  intro h
  exact h.1 (.inl (by simp)) (by decide)

end Mirrored

end Spaces.Naming
