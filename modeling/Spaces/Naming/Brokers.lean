import Spaces.Library.BusName
import Spaces.Shortcuts.Names

/-!
# The names of the integration brokers

Each broker owns a name on the host's session bus that is made of the Space, the
user and the login session. What the session is made of has no hyphen, and so the
last two hyphens of the name settle all three, whatever the Space is called.

What they do not settle is the letter before a digit. The Space `1` and the Space
`s1` come to one name, if one user runs both in one session.
-/

namespace Spaces.Naming

open Spaces.Library BusName Spaces.Shortcuts

/-! ## Components -/

/-- One byte of a component. `isAlphanum` is true of ASCII only. -/
def escapeByte (byte : UInt8) : Text :=
  let character := Char.ofNat byte.toNat
  if character.isAlphanum || character == '-' then [character]
  else if character == '_' then ['_', '_']
  else ['_', Nat.digitChar (byte.toNat / 16), Nat.digitChar (byte.toNat % 16)]

/-- `_dbus_name_value`. -/
def dbusNameValue (value : Text) : Text :=
  (value.flatMap String.utf8EncodeChar).flatMap escapeByte

theorem toNat_ofByte (byte : UInt8) : (Char.ofNat byte.toNat).toNat = byte.toNat := by
  have hlt := byte.toNat_lt
  have hvalid : byte.toNat.isValidChar := .inl (by omega)
  rw [Char.ofNat, dif_pos hvalid]
  exact UInt32.toNat_ofNatLT

theorem ofByte_inj {byte other : UInt8} (h : Char.ofNat byte.toNat = Char.ofNat other.toNat) :
    byte = other := by
  have hnat := congrArg Char.toNat h
  rw [toNat_ofByte, toNat_ofByte] at hnat
  exact UInt8.toNat_inj.mp hnat

theorem digitChar_inj : ∀ n < 16, ∀ m < 16, Nat.digitChar n = Nat.digitChar m → n = m := by
  decide

theorem digitChar_alphanum : ∀ n < 16, (Nat.digitChar n).isAlphanum = true := by decide

/-- The three shapes that the code of a byte has. -/
inductive Escaped (byte : UInt8) : Text → Prop where
  | plain : (Char.ofNat byte.toNat).isAlphanum || Char.ofNat byte.toNat == '-' →
      Escaped byte [Char.ofNat byte.toNat]
  | underscore : Char.ofNat byte.toNat = '_' → Escaped byte ['_', '_']
  | hex : Escaped byte
      ['_', Nat.digitChar (byte.toNat / 16), Nat.digitChar (byte.toNat % 16)]

theorem escapeByte_escaped (byte : UInt8) : Escaped byte (escapeByte byte) := by
  unfold escapeByte
  dsimp only
  split
  · next h => exact .plain h
  · split
    · next h => exact .underscore (beq_iff_eq.mp h)
    · exact .hex

theorem prefixCode_escapeByte : PrefixCode escapeByte where
  ne_nil byte hnil := by
    have hescaped := escapeByte_escaped byte
    rw [hnil] at hescaped
    cases hescaped
  distinct := by
    have hplain : ∀ c : Char, (c.isAlphanum || c == '-') = true → c ≠ '_' := by
      rintro c h rfl
      exact absurd h (by decide)
    have hdigit : ∀ n < 16, Nat.digitChar n ≠ '_' := by decide
    intro x y h
    have hx := x.toNat_lt
    have hy := y.toNat_lt
    generalize hcode : escapeByte x = code at h
    generalize hcode' : escapeByte y = code' at h
    have hescaped := hcode ▸ escapeByte_escaped x
    have hescaped' := hcode' ▸ escapeByte_escaped y
    cases hescaped with
    | plain hchar =>
        cases hescaped' with
        | plain _ => exact ofByte_inj (List.cons_prefix_cons.mp h).1
        | underscore _ => exact absurd (List.cons_prefix_cons.mp h).1 (hplain _ hchar)
        | hex => exact absurd (List.cons_prefix_cons.mp h).1 (hplain _ hchar)
    | underscore hchar =>
        cases hescaped' with
        | plain hchar' => exact absurd (List.cons_prefix_cons.mp h).1.symm (hplain _ hchar')
        | underscore hchar' => exact ofByte_inj (hchar.trans hchar'.symm)
        | hex =>
            have hsecond := (List.cons_prefix_cons.mp (List.cons_prefix_cons.mp h).2).1
            exact absurd hsecond.symm (hdigit _ (by omega))
    | hex =>
        cases hescaped' with
        | plain hchar' => exact absurd (List.cons_prefix_cons.mp h).1.symm (hplain _ hchar')
        | underscore _ =>
            have hsecond := (List.cons_prefix_cons.mp (List.cons_prefix_cons.mp h).2).1
            exact absurd hsecond (hdigit _ (by omega))
        | hex =>
            obtain ⟨hhigh, hrest⟩ := List.cons_prefix_cons.mp (List.cons_prefix_cons.mp h).2
            have hlow := (List.cons_prefix_cons.mp hrest).1
            have hhigh := digitChar_inj _ (by omega) _ (by omega) hhigh
            have hlow := digitChar_inj _ (by omega) _ (by omega) hlow
            refine UInt8.toNat_inj.mp ?_
            omega

theorem utf8_injective : Function.Injective fun text : Text =>
    text.flatMap String.utf8EncodeChar := by
  intro a b h
  have hencode : a.utf8Encode = b.utf8Encode := congrArg List.toByteArray h
  rw [← String.toByteArray_ofList, ← String.toByteArray_ofList, String.toByteArray_inj] at hencode
  exact String.ofList_injective hencode

/-- The value of a component can be read back. -/
theorem dbusNameValue_injective : Function.Injective dbusNameValue :=
  prefixCode_escapeByte.flatMap_injective.comp utf8_injective

theorem all_dbusNameValue (value : Text) :
    (dbusNameValue value).all isElementChar = true := by
  rw [dbusNameValue, List.all_flatMap, List.all_eq_true]
  intro byte _
  have hlt := byte.toNat_lt
  generalize hcode : escapeByte byte = code
  have hescaped := hcode ▸ escapeByte_escaped byte
  cases hescaped with
  | plain h =>
      rw [List.all_cons, List.all_nil, Bool.and_true, isElementChar]
      rcases Bool.or_eq_true_iff.mp h with halnum | hhyphen
      · rw [halnum]
        rfl
      · rw [hhyphen, Bool.or_true]
  | underscore h => rfl
  | hex =>
      have hhigh := digitChar_alphanum (byte.toNat / 16) (by omega)
      have hlow := digitChar_alphanum (byte.toNat % 16) (by omega)
      simp [isElementChar, hhigh, hlow]

theorem utf8EncodeChar_ascii {c : Char} (h : c.toNat < 128) :
    String.utf8EncodeChar c = [c.val.toUInt8] := by
  refine String.utf8EncodeChar_eq_singleton (Char.utf8Size_eq_one_iff.mpr ?_)
  rw [UInt32.le_iff_toNat_le]
  exact Nat.le_of_lt_succ h

theorem ofByte_ascii {c : Char} (h : c.toNat < 128) : Char.ofNat c.val.toUInt8.toNat = c := by
  have hbyte : c.val.toUInt8.toNat = c.toNat := by
    rw [UInt32.toNat_toUInt8]
    exact Nat.mod_eq_of_lt (show c.toNat < 256 by omega)
  rw [hbyte, Char.ofNat_toNat]

theorem toNat_of_alphanum {c : Char} (h : c.isAlphanum = true) : c.toNat < 128 := by
  have hranges : ((decide (c.val ≥ 'A'.val ∧ c.val ≤ 'Z'.val) ||
      (decide (c.val ≥ 'a'.val) && decide (c.val ≤ 'z'.val))) ||
      (decide (c.val ≥ '0'.val) && decide (c.val ≤ '9'.val))) = true := h
  simp only [Bool.or_eq_true, Bool.and_eq_true, decide_eq_true_eq, UInt32.le_iff_toNat_le,
    ge_iff_le] at hranges
  show c.val.toNat < 128
  have hupper : 'Z'.val.toNat = 90 := rfl
  have hlower : 'z'.val.toNat = 122 := rfl
  have hdigit : '9'.val.toNat = 57 := rfl
  omega

@[simp] theorem dbusNameValue_nil : dbusNameValue [] = [] := rfl

/-- A character that needs no escape. -/
theorem dbusNameValue_cons {c : Char} (h : c.isAlphanum = true ∨ c = '-') (rest : Text) :
    dbusNameValue (c :: rest) = c :: dbusNameValue rest := by
  have hascii : c.toNat < 128 := by
    rcases h with h | rfl
    · exact toNat_of_alphanum h
    · decide
  have hplain : (c.isAlphanum || c == '-') = true := by
    rcases h with h | rfl
    · rw [h]
      rfl
    · rfl
  rw [dbusNameValue, List.flatMap_cons, List.flatMap_append, utf8EncodeChar_ascii hascii,
    List.flatMap_singleton, escapeByte, ofByte_ascii hascii, if_pos hplain]
  rfl

theorem dbusNameValue_underscore (rest : Text) :
    dbusNameValue ('_' :: rest) = '_' :: '_' :: dbusNameValue rest := rfl

theorem dbusNameValue_of_alphanum {value : Text} (h : value.all Char.isAlphanum = true) :
    dbusNameValue value = value := by
  induction value with
  | nil => rfl
  | cons c rest ih =>
      obtain ⟨hc, hrest⟩ := Bool.and_eq_true_iff.mp h
      rw [dbusNameValue_cons (.inl hc), ih hrest]

/-! ## Names -/

def brokerIdentity (spaceName : Text) (uid : Nat) (sessionId : Text) : Text :=
  dbusNameValue spaceName ++ '-' :: 'u' :: Nat.toDigits 10 uid
    ++ '-' :: 's' :: dbusNameValue sessionId

/-- `_broker_name`. -/
def brokerName (spaceName : Text) (uid : Nat) (sessionId : Text) : Text :=
  "org.anatase.Spaces.Integration.".toList ++ lead (brokerIdentity spaceName uid sessionId)

theorem hyphen_not_mem {text : Text} (h : text.all Char.isAlphanum = true) : '-' ∉ text := by
  intro hmem
  exact absurd (List.all_eq_true.mp h '-' hmem) (by decide)

theorem toDigits_inj {n m : Nat} (h : Nat.toDigits 10 n = Nat.toDigits 10 m) : n = m := by
  rw [← Nat.ofDigitChars_ten_toDigits (n := n), h, Nat.ofDigitChars_ten_toDigits]

/-- The last two hyphens tell the parts of an identity apart. -/
theorem brokerIdentity_inj {space space' : Text} {uid uid' : Nat} {session session' : Text}
    (hsession : session.all Char.isAlphanum = true)
    (hsession' : session'.all Char.isAlphanum = true)
    (h : brokerIdentity space uid session = brokerIdentity space' uid' session') :
    space = space' ∧ uid = uid' ∧ session = session' := by
  have hafter : ∀ {text : Text}, text.all Char.isAlphanum = true → '-' ∉ 's' :: text :=
    fun htext => List.not_mem_cons_of_ne_of_not_mem (by decide) (hyphen_not_mem htext)
  have hdigits : ∀ n, '-' ∉ 'u' :: Nat.toDigits 10 n := by
    intro n
    refine List.not_mem_cons_of_ne_of_not_mem (by decide) fun hmem => ?_
    exact absurd (Nat.isDigit_of_mem_toDigits (by omega) (by omega) hmem) (by decide)
  unfold brokerIdentity at h
  rw [dbusNameValue_of_alphanum hsession, dbusNameValue_of_alphanum hsession'] at h
  obtain ⟨hbefore, hlast⟩ := append_cons_inj_right (hafter hsession) (hafter hsession') h
  obtain ⟨hspace, huid⟩ := append_cons_inj_right (hdigits uid) (hdigits uid') hbefore
  exact ⟨dbusNameValue_injective hspace, toDigits_inj (List.cons.inj huid).2,
    (List.cons.inj hlast).2⟩

theorem isAlphanum_of_isLower {c : Char} (h : c.isLower = true) : c.isAlphanum = true := by
  show ((c.isUpper || c.isLower) || c.isDigit) = true
  rw [h, Bool.or_true, Bool.true_or]

theorem isAlphanum_of_isDigit {c : Char} (h : c.isDigit = true) : c.isAlphanum = true := by
  show (c.isAlpha || c.isDigit) = true
  rw [h, Bool.or_true]

theorem plain_of_isSpaceNameChar {c : Char} (h : isSpaceNameChar c = true) (hne : c ≠ '_') :
    c.isAlphanum = true ∨ c = '-' := by
  simp only [isSpaceNameChar, Bool.or_eq_true, beq_iff_eq] at h
  rcases h with ((hlower | hdigit) | hunderscore) | hhyphen
  · exact .inl (isAlphanum_of_isLower hlower)
  · exact .inl (isAlphanum_of_isDigit hdigit)
  · exact absurd hunderscore hne
  · exact .inr hhyphen

/-- A Space's name begins with what needs no escape. -/
theorem SpaceName.begins (space : SpaceName) : ∃ first rest,
    space.text = first :: rest ∧ first.isAlphanum = true := by
  obtain ⟨text, valid⟩ := space
  cases text with
  | nil => exact absurd valid (by decide)
  | cons first rest =>
      simp only [isSpaceName, Bool.and_eq_true] at valid
      refine ⟨first, rest, rfl, ?_⟩
      rcases Bool.or_eq_true_iff.mp valid.1.1 with hlower | hdigit
      · exact isAlphanum_of_isLower hlower
      · exact isAlphanum_of_isDigit hdigit

/-- What a broker is started for. -/
structure Brokered where
  space : SpaceName
  uid : Nat
  sessionId : Text
  alphanumeric : sessionId.all Char.isAlphanum = true

namespace Brokered

def name (b : Brokered) : Text := brokerName b.space.text b.uid b.sessionId

/-- The Space's name begins with a digit, and the other's is that with an `s` before
it. -/
def Led (space other : SpaceName) : Prop :=
  beginsWithDigit space.text = true ∧ other.text = 's' :: space.text

/-- One user runs two such Spaces in one session. -/
def Clash (a b : Brokered) : Prop :=
  a.uid = b.uid ∧ a.sessionId = b.sessionId ∧ (Led a.space b.space ∨ Led b.space a.space)

/-- The name is not too long: an underscore counts twice, and 35 characters are
always there. -/
def Fits (b : Brokered) : Prop :=
  b.space.text.length + b.space.text.count '_' + (beginsWithDigit b.space.text).toNat
    + (Nat.toDigits 10 b.uid).length + b.sessionId.length + 35 ≤ 255

theorem length_dbusNameValue {text : Text} (h : text.all isSpaceNameChar = true) :
    (dbusNameValue text).length = text.length + text.count '_' := by
  induction text with
  | nil => rfl
  | cons c rest ih =>
      obtain ⟨hc, hrest⟩ := Bool.and_eq_true_iff.mp h
      have ih := ih hrest
      by_cases hunderscore : c = '_'
      · subst hunderscore
        rw [dbusNameValue_underscore, List.count_cons_self]
        simp only [List.length_cons]
        omega
      · rw [dbusNameValue_cons (plain_of_isSpaceNameChar hc hunderscore),
          List.count_cons_of_ne hunderscore]
        simp only [List.length_cons]
        omega

theorem beginsWithDigit_identity (b : Brokered) :
    beginsWithDigit (brokerIdentity b.space.text b.uid b.sessionId) =
      beginsWithDigit b.space.text := by
  obtain ⟨first, rest, htext, halnum⟩ := SpaceName.begins b.space
  rw [brokerIdentity, htext, dbusNameValue_cons (.inl halnum)]
  rfl

theorem brokerName_eq (space : Text) (uid : Nat) (session : Text) :
    brokerName space uid session = "org.anatase.Spaces.Integration".toList ++ '.' ::
      lead (brokerIdentity space uid session) := by
  have hdot : "org.anatase.Spaces.Integration.".toList =
      "org.anatase.Spaces.Integration".toList ++ ['.'] := by decide
  unfold brokerName
  generalize lead (brokerIdentity space uid session) = element
  simp [hdot]

theorem isWellKnown_name (b : Brokered) : isWellKnown b.name = true ↔ b.Fits := by
  have hall : (brokerIdentity b.space.text b.uid b.sessionId).all isElementChar = true := by
    have hdigits : (Nat.toDigits 10 b.uid).all isElementChar = true := by
      refine List.all_eq_true.mpr fun c hc => ?_
      have hdigit := Nat.isDigit_of_mem_toDigits (by omega) (by omega) hc
      simp [isElementChar, Char.isAlphanum, hdigit]
    simp only [brokerIdentity, List.all_append, List.all_cons, all_dbusNameValue, hdigits]
    rfl
  have helement := isElement_lead (by simp [brokerIdentity]) hall
  have hlength : (dbusNameValue b.space.text).length =
      b.space.text.length + b.space.text.count '_' :=
    length_dbusNameValue (List.all_eq_true.mpr b.space.isSpaceNameChar)
  rw [name, brokerName_eq, isWellKnown_append (by decide) (isDotted_of_isElement helement), Fits,
    List.length_append, List.length_cons, length_lead, beginsWithDigit_identity]
  simp only [brokerIdentity, List.length_append, List.length_cons, hlength,
    dbusNameValue_of_alphanum b.alphanumeric]
  rw [show "org.anatase.Spaces.Integration".toList.length = 30 by decide]
  constructor
  · intro h
    omega
  · intro h
    omega

theorem identity_led {a b : Brokered} (huid : a.uid = b.uid) (hsession : a.sessionId = b.sessionId)
    (hspace : b.space.text = 's' :: a.space.text) :
    brokerIdentity b.space.text b.uid b.sessionId =
      's' :: brokerIdentity a.space.text a.uid a.sessionId := by
  rw [huid, hsession, hspace, brokerIdentity, dbusNameValue_cons (.inl (by decide))]
  rfl

theorem led_of_identity {a b : Brokered}
    (h : brokerIdentity b.space.text b.uid b.sessionId =
      's' :: brokerIdentity a.space.text a.uid a.sessionId) :
    b.space.text = 's' :: a.space.text ∧ b.uid = a.uid ∧ b.sessionId = a.sessionId := by
  have hled : 's' :: brokerIdentity a.space.text a.uid a.sessionId =
      brokerIdentity ('s' :: a.space.text) a.uid a.sessionId := by
    rw [brokerIdentity, brokerIdentity, dbusNameValue_cons (.inl (by decide))]
    rfl
  exact brokerIdentity_inj b.alphanumeric a.alphanumeric (h.trans hled)

theorem name_eq_iff (a b : Brokered) : a.name = b.name ↔ a = b ∨ Clash a b := by
  unfold name brokerName
  rw [List.append_cancel_left_eq, lead_eq_iff, beginsWithDigit_identity, beginsWithDigit_identity]
  constructor
  · rintro (hsame | ⟨hdigit, hled⟩ | ⟨hdigit, hled⟩)
    · obtain ⟨hspace, huid, hsession⟩ := brokerIdentity_inj a.alphanumeric b.alphanumeric hsame
      left
      obtain ⟨⟨space, _⟩, uid, session, _⟩ := a
      obtain ⟨⟨space', _⟩, uid', session', _⟩ := b
      cases hspace
      cases huid
      cases hsession
      rfl
    · obtain ⟨hspace, huid, hsession⟩ := led_of_identity hled
      exact .inr ⟨huid.symm, hsession.symm, .inl ⟨hdigit, hspace⟩⟩
    · obtain ⟨hspace, huid, hsession⟩ := led_of_identity hled
      exact .inr ⟨huid, hsession, .inr ⟨hdigit, hspace⟩⟩
  · rintro (rfl | ⟨huid, hsession, ⟨hdigit, hspace⟩ | ⟨hdigit, hspace⟩⟩)
    · exact .inl rfl
    · exact .inr (.inl ⟨hdigit, identity_led huid hsession hspace⟩)
    · exact .inr (.inr ⟨hdigit, identity_led huid.symm hsession.symm hspace⟩)

theorem Clash.ne {a b : Brokered} (h : Clash a b) : a ≠ b := by
  rintro rfl
  obtain ⟨-, -, ⟨-, htext⟩ | ⟨-, htext⟩⟩ := h
  · exact absurd (congrArg List.length htext) (by simp)
  · exact absurd (congrArg List.length htext) (by simp)

/-- Two brokers have names, and different ones. -/
def Named (a b : Brokered) : Prop :=
  (a ≠ b → a.name ≠ b.name) ∧ isWellKnown a.name = true ∧ isWellKnown b.name = true

theorem brokers_named_iff (a b : Brokered) : Named a b ↔ ¬ Clash a b ∧ a.Fits ∧ b.Fits := by
  unfold Named
  rw [isWellKnown_name, isWellKnown_name, and_congr_left_iff]
  intro _
  constructor
  · intro h hclash
    exact h hclash.ne ((name_eq_iff a b).mpr (.inr hclash))
  · intro h hne heq
    rcases (name_eq_iff a b).mp heq with hsame | hclash
    · exact hne hsame
    · exact h hclash

/-- The Spaces `1` and `s1` of one user in one session. -/
theorem digitSpaces_contend : ¬ Named ⟨⟨['1'], by decide⟩, 1000, ['3'], by decide⟩
    ⟨⟨['s', '1'], by decide⟩, 1000, ['3'], by decide⟩ := by
  intro h
  exact h.1 (by simp) rfl

end Brokered

end Spaces.Naming
