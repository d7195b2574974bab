import Spaces.Library.Json
import Spaces.Library.Text

/-!
# JSON text, as yyjson writes it, and how long it is

The writer escapes a string character by character, so the text of a string is
as long as the texts of its parts together, but for the two quotes. An object is
as long as its members with a comma each, and one brace: the comma of the last
member stands where the other brace does.

How a double is spelled is not fixed here.
-/

namespace Spaces.Library

namespace Text

@[simp] theorem encodedLength_nil : encodedLength [] = 0 := rfl

@[simp] theorem encodedLength_cons (c : Char) (text : Text) :
    encodedLength (c :: text) = c.utf8Size + encodedLength text := rfl

@[simp] theorem encodedLength_append (text more : Text) :
    encodedLength (text ++ more) = encodedLength text + encodedLength more := by
  induction text with
  | nil => simp
  | cons c text ih =>
      rw [List.cons_append, encodedLength_cons, encodedLength_cons, ih, Nat.add_assoc]

theorem encodedLength_replicate (n : Nat) (c : Char) :
    encodedLength (List.replicate n c) = n * c.utf8Size := by
  induction n with
  | zero => simp
  | succ n ih =>
      rw [List.replicate_succ, encodedLength_cons, ih, Nat.succ_mul, Nat.add_comm]

/-- Parts joined by a comma, with the one that ends the last part. -/
theorem encodedLength_intercalate {parts : List Text} (h : parts ≠ []) :
    encodedLength ([','].intercalate parts) + 1
      = (parts.map fun part => encodedLength part + 1).sum := by
  induction parts with
  | nil => exact absurd rfl h
  | cons part parts ih =>
      cases parts with
      | nil => simp
      | cons next parts =>
          have hrest := ih (List.cons_ne_nil next parts)
          rw [List.intercalate_cons_cons, encodedLength_append, encodedLength_append,
            List.map_cons, List.sum_cons, ← hrest]
          have hcomma : encodedLength [','] = 1 := by decide
          omega

end Text

namespace Json

def hexDigit (n : Nat) : Char := Char.ofNat (if n < 10 then 0x30 + n else 0x41 + n - 10)

/-- A control character without a letter of its own is written with its number. -/
def escapeChar (c : Char) : Text :=
  if c = '"' then ['\\', '"']
  else if c = '\\' then ['\\', '\\']
  else if c = '\x08' then ['\\', 'b']
  else if c = '\t' then ['\\', 't']
  else if c = '\n' then ['\\', 'n']
  else if c = '\x0c' then ['\\', 'f']
  else if c = '\r' then ['\\', 'r']
  else if c.toNat < 0x20 then
    ['\\', 'u', '0', '0', hexDigit (c.toNat / 16), hexDigit (c.toNat % 16)]
  else [c]

def escape (text : Text) : Text := text.flatMap escapeChar

def writeString (text : Text) : Text := '"' :: escape text ++ ['"']

def writeInt (z : Int) : Text :=
  if z < 0 then '-' :: Nat.toDigits 10 z.natAbs else Nat.toDigits 10 z.natAbs

variable (real : Rat → Text)

mutual

/-- `yyjson_mut_val_write`. -/
def write : Json → Text
  | null => "null".toList
  | bool true => "true".toList
  | bool false => "false".toList
  | uint n => Nat.toDigits 10 n
  | sint z => writeInt z
  | .real q => real q
  | str text => writeString text.toList
  | arr elements => '[' :: [','].intercalate (writeElements elements) ++ [']']
  | obj members => '\x7b' :: [','].intercalate (writeMembers members) ++ ['\x7d']

def writeElements : List Json → List Text
  | [] => []
  | element :: rest => write element :: writeElements rest

def writeMembers : List (String × Json) → List Text
  | [] => []
  | (key, value) :: rest =>
      (writeString key.toList ++ ':' :: write value) :: writeMembers rest

end

/-! ## Lengths -/

open Text (encodedLength encodedLength_append)

/-- The bytes of a string between its quotes. -/
def escapedLength (text : Text) : Nat := encodedLength (escape text)

@[simp] theorem escapedLength_nil : escapedLength [] = 0 := rfl

@[simp] theorem escapedLength_append (text more : Text) :
    escapedLength (text ++ more) = escapedLength text + escapedLength more := by
  unfold escapedLength escape
  rw [List.flatMap_append, encodedLength_append]

theorem escapedLength_flatten (texts : List Text) :
    escapedLength texts.flatten = (texts.map escapedLength).sum := by
  induction texts with
  | nil => rfl
  | cons text texts ih =>
      rw [List.flatten_cons, escapedLength_append, ih, List.map_cons, List.sum_cons]

theorem encodedLength_writeString (text : Text) :
    encodedLength (writeString text) = escapedLength text + 2 := by
  have hquote : encodedLength ['"'] = 1 := by decide
  have hsplit : writeString text = ['"'] ++ escape text ++ ['"'] := rfl
  rw [hsplit, encodedLength_append, encodedLength_append, hquote, escapedLength]
  omega

def encodedSize (value : Json) : Nat := encodedLength (write real value)

/-- The bytes of a member, and the comma after it. -/
def memberSize (member : String × Json) : Nat :=
  escapedLength member.1.toList + encodedSize real member.2 + 4

def membersSize (members : List (String × Json)) : Nat :=
  (members.map (memberSize real)).sum

variable {real}

@[simp] theorem membersSize_nil : membersSize real [] = 0 := rfl

@[simp] theorem membersSize_cons (member : String × Json) (members : List (String × Json)) :
    membersSize real (member :: members) = memberSize real member + membersSize real members :=
  rfl

theorem encodedSize_str (text : String) :
    encodedSize real (str text) = escapedLength text.toList + 2 :=
  encodedLength_writeString text.toList

theorem membersSize_eq (members : List (String × Json)) :
    ((writeMembers real members).map fun part => encodedLength part + 1).sum
      = membersSize real members := by
  induction members with
  | nil => rfl
  | cons member members ih =>
      obtain ⟨key, value⟩ := member
      have hcolon : encodedLength (':' :: write real value)
          = encodedLength (write real value) + 1 := Nat.add_comm _ _
      rw [writeMembers, List.map_cons, List.sum_cons, ih, membersSize_cons, memberSize,
        encodedLength_append, encodedLength_writeString, hcolon, encodedSize]
      dsimp only
      omega

theorem encodedSize_obj {members : List (String × Json)} (h : members ≠ []) :
    encodedSize real (obj members) = membersSize real members + 1 := by
  have hparts : writeMembers real members ≠ [] := by
    obtain ⟨⟨key, value⟩, rest, rfl⟩ := List.exists_cons_of_ne_nil h
    exact List.cons_ne_nil _ _
  have hsplit : write real (obj members)
      = ['\x7b'] ++ [','].intercalate (writeMembers real members) ++ ['\x7d'] := by
    rw [write]
    rfl
  have hopen : encodedLength ['\x7b'] = 1 := by decide
  have hclose : encodedLength ['\x7d'] = 1 := by decide
  have hjoined := Text.encodedLength_intercalate hparts
  rw [membersSize_eq] at hjoined
  rw [encodedSize, hsplit, encodedLength_append, encodedLength_append, hopen, hclose]
  omega

/-! ## What putting a member does to the size -/

theorem putMember_ne_nil (key : String) (value : Json) (members : List (String × Json)) :
    putMember key value members ≠ [] := by
  cases members with
  | nil => exact List.cons_ne_nil _ _
  | cons member members =>
      unfold putMember
      split <;> exact List.cons_ne_nil _ _

theorem filter_putMember_ne {key other : String} (h : key ≠ other) (value : Json)
    (members : List (String × Json)) :
    (putMember key value members).filter (·.1 ≠ other)
      = putMember key value (members.filter (·.1 ≠ other)) := by
  induction members with
  | nil => simp [putMember, h]
  | cons member members ih =>
      obtain ⟨k, v⟩ := member
      by_cases hk : k = key
      · subst hk
        have hcomm : (members.filter (·.1 ≠ k)).filter (·.1 ≠ other)
            = (members.filter (·.1 ≠ other)).filter (·.1 ≠ k) := List.filter_comm ..
        simpa [putMember, h] using hcomm
      · by_cases ho : k = other
        · subst ho
          simpa [putMember, hk] using ih
        · simpa [putMember, hk, ho] using ih

/-- A member comes for all those of its key. -/
theorem membersSize_putMember (key : String) (value : Json) (members : List (String × Json)) :
    membersSize real (putMember key value members)
      = membersSize real (members.filter (·.1 ≠ key)) + memberSize real (key, value) := by
  induction members with
  | nil => simp [putMember]
  | cons member members ih =>
      obtain ⟨k, v⟩ := member
      by_cases hk : k = key
      · subst hk
        have hput : putMember k value ((k, v) :: members)
            = (k, value) :: members.filter (·.1 ≠ k) := if_pos rfl
        have hfilter : ((k, v) :: members).filter (·.1 ≠ k) = members.filter (·.1 ≠ k) :=
          List.filter_cons_of_neg (by simp)
        rw [hput, hfilter, membersSize_cons, Nat.add_comm]
      · have hput : putMember key value ((k, v) :: members)
            = (k, v) :: putMember key value members := if_neg hk
        have hfilter : ((k, v) :: members).filter (·.1 ≠ key)
            = (k, v) :: members.filter (·.1 ≠ key) := List.filter_cons_of_pos (by simpa using hk)
        rw [hput, hfilter, membersSize_cons, membersSize_cons, ih, Nat.add_assoc]

variable (real) in
theorem membersSize_filter (keep : String × Json → Bool) (members : List (String × Json)) :
    membersSize real (members.filter keep) + membersSize real (members.filter fun m => !keep m)
      = membersSize real members := by
  induction members with
  | nil => rfl
  | cons member members ih =>
      cases hkeep : keep member with
      | true =>
          rw [List.filter_cons_of_pos hkeep, List.filter_cons_of_neg (by simp [hkeep]),
            membersSize_cons, membersSize_cons, ← ih, Nat.add_assoc]
      | false =>
          rw [List.filter_cons_of_neg (by simp [hkeep]), List.filter_cons_of_pos (by simp [hkeep]),
            membersSize_cons, membersSize_cons, ← ih]
          omega

theorem filter_key {members : List (String × Json)} (h : (members.map Prod.fst).Nodup)
    (key : String) :
    members.filter (·.1 = key) = (members.lookup key).toList.map fun value => (key, value) := by
  induction members with
  | nil => rfl
  | cons member members ih =>
      obtain ⟨k, v⟩ := member
      rw [List.map_cons, List.nodup_cons] at h
      by_cases hk : k = key
      · subst hk
        have hnone : members.lookup k = none := by
          by_contra hsome
          exact h.1 (lookup_isSome.mp (Option.isSome_iff_ne_none.mpr hsome))
        simpa [hnone] using ih h.2
      · have hne : (key == k) = false := by simpa using fun heq => hk heq.symm
        simpa [List.lookup_cons, hne, hk] using ih h.2

theorem nodup_putMember {key : String} {members : List (String × Json)}
    (h : (members.map Prod.fst).Nodup) (value : Json) :
    ((putMember key value members).map Prod.fst).Nodup := by
  induction members with
  | nil => simp [putMember]
  | cons member members ih =>
      rw [List.map_cons, List.nodup_cons] at h
      unfold putMember
      split
      · next hk =>
          rw [List.map_cons, List.nodup_cons]
          refine ⟨fun hmem => ?_, (List.filter_sublist.map Prod.fst).nodup h.2⟩
          exact h.1 ((List.filter_sublist.map Prod.fst).mem hmem)
      · next hk =>
          rw [List.map_cons, List.nodup_cons]
          refine ⟨fun hmem => ?_, ih h.2⟩
          obtain ⟨m, hm, hkey⟩ := List.mem_map.mp hmem
          rcases mem_putMember hm with rfl | ⟨hm, -⟩
          · exact hk hkey.symm
          · exact h.1 (hkey ▸ List.mem_map.mpr ⟨m, hm, rfl⟩)

theorem putMember_fresh {key : String} {members : List (String × Json)}
    (h : key ∉ members.map Prod.fst) (value : Json) :
    putMember key value members = members ++ [(key, value)] := by
  induction members with
  | nil => rfl
  | cons member members ih =>
      rw [List.map_cons, List.mem_cons, not_or] at h
      unfold putMember
      rw [if_neg (Ne.symm h.1), ih h.2, List.cons_append]

/-- Members that are put one after another stay as they are, where no key comes
twice. -/
theorem foldl_putMember {members before : List (String × Json)}
    (h : ((before ++ members).map Prod.fst).Nodup) :
    members.foldl (fun object member => putMember member.1 member.2 object) before
      = before ++ members := by
  induction members generalizing before with
  | nil => exact (List.append_nil before).symm
  | cons member members ih =>
      have happend : before ++ member :: members = (before ++ [member]) ++ members := by simp
      rw [happend] at h ⊢
      rw [List.foldl_cons, ← ih h]
      have hfresh : member.1 ∉ before.map Prod.fst := by
        rw [List.map_append, List.map_append] at h
        have hlast := (List.nodup_append.mp (List.nodup_append.mp h).1).2.2
        exact fun hmem => hlast _ hmem member.1 (by simp) rfl
      rw [putMember_fresh hfresh member.2]

end Json

end Spaces.Library
