import Spaces.Library.Json
import Spaces.Library.Outcome
import Spaces.Library.Text

/-!
# Reading JSON, as Python's `json.loads`

A scanner takes what it recognizes off the front of a text, and what it returns says that
the rest is shorter. So the loops over the members of a container end, and there is no
fuel. What is limited is the nesting, by the interpreter's stack, and the number of digits
that it converts to an integer.

A string of Python's is a sequence of code points, and an escape may put half a surrogate
pair into it. A text has no such characters. They are written with a mark that stands for
nothing else, so that equal texts are equal strings.
-/

namespace Spaces.Library.JsonText

inductive Failure where
  /-- `JSONDecodeError` -/
  | malformed
  /-- The `ValueError` of an integer with too many digits. -/
  | tooManyDigits
  /-- `RecursionError` -/
  | tooDeep

/-- What the caller and the interpreter decide: the values of floats, and the limit on
the digits of an integer, where 0 is none. -/
structure Reader where
  parseFloat : Text → Rat
  parseConstant : Text → Rat
  maxStrDigits : Nat

/-- What was read off the front of a text. -/
structure Scanned (α : Type) (text : Text) where
  value : α
  rest : Text
  shorter : rest.length < text.length

def Scanned.map {α β : Type} {text : Text} (f : α → β) (s : Scanned α text) : Scanned β text :=
  ⟨f s.value, s.rest, s.shorter⟩

/-- The same, read off a text that ends in this one. -/
def Scanned.within {α : Type} {text whole : Text} (s : Scanned α text)
    (h : text.length ≤ whole.length) : Scanned α whole :=
  ⟨s.value, s.rest, s.shorter.trans_le h⟩

def isJsonSpace (c : Char) : Bool := c == ' ' || c == '\t' || c == '\n' || c == '\r'

def skipSpace (text : Text) : Text := text.dropWhile isJsonSpace

theorem length_skipSpace_le (text : Text) : (skipSpace text).length ≤ text.length :=
  List.IsSuffix.length_le (List.dropWhile_suffix _)

/-! ## Strings -/

/-- A code point: a character, or half a surrogate pair. -/
inductive Point where
  | char (c : Char)
  | surrogate (n : Fin 2048)

def Point.ofUnit (n : Nat) : Point :=
  if h : 0xD800 ≤ n ∧ n < 0xE000 then .surrogate ⟨n - 0xD800, by omega⟩ else .char (Char.ofNat n)

/-- A high surrogate and the low one behind it are one character. -/
def joinPairs : List Point → List Point
  | .surrogate high :: .surrogate low :: rest =>
      if high.val < 1024 ∧ 1024 ≤ low.val then
        .char (Char.ofNat (0x10000 + high.val * 1024 + (low.val - 1024))) :: joinPairs rest
      else .surrogate high :: joinPairs (.surrogate low :: rest)
  | point :: rest => point :: joinPairs rest
  | [] => []

def mark : Char := Char.ofNat 0x10FFFF

def Point.text : Point → Text
  | .char c => if c = mark then [mark, mark] else [c]
  | .surrogate n => [mark, Char.ofNat (0xE000 + n.val)]

def ofPoints (points : List Point) : String := String.ofList (points.flatMap Point.text)

theorem toNat_ofNat_surrogate (n : Fin 2048) :
    (Char.ofNat (0xE000 + n.val)).toNat = 0xE000 + n.val := by
  have hn := n.isLt
  have hvalid : (0xE000 + n.val).isValidChar := .inr ⟨by omega, by omega⟩
  rw [Char.ofNat, dif_pos hvalid]
  rfl

theorem ofNat_surrogate_ne_mark (n : Fin 2048) : Char.ofNat (0xE000 + n.val) ≠ mark := by
  intro h
  have hn := n.isLt
  have hmark : mark.toNat = 0x10FFFF := by decide
  have htoNat := toNat_ofNat_surrogate n
  rw [h, hmark] at htoNat
  omega

theorem text_mark : (Point.char mark).text = [mark, mark] := by rw [Point.text, if_pos rfl]

theorem text_char {c : Char} (h : c ≠ mark) : (Point.char c).text = [c] := by
  rw [Point.text, if_neg h]

theorem text_surrogate (n : Fin 2048) :
    (Point.surrogate n).text = [mark, Char.ofNat (0xE000 + n.val)] := rfl

/-- Where a character ends is seen from its text. -/
theorem text_append_inj {p q : Point} {a b : Text} (h : p.text ++ a = q.text ++ b) :
    p = q ∧ a = b := by
  cases p with
  | char c =>
      cases q with
      | char d =>
          by_cases hc : c = mark
          · by_cases hd : d = mark
            · rw [hc, hd, List.append_cancel_left_eq] at h
              exact ⟨by rw [hc, hd], h⟩
            · rw [hc, text_mark, text_char hd] at h
              exact absurd (List.cons.inj h).1.symm hd
          · by_cases hd : d = mark
            · rw [hd, text_char hc, text_mark] at h
              exact absurd (List.cons.inj h).1 hc
            · rw [text_char hc, text_char hd] at h
              exact ⟨congrArg Point.char (List.cons.inj h).1, (List.cons.inj h).2⟩
      | surrogate n =>
          by_cases hc : c = mark
          · rw [hc, text_mark, text_surrogate] at h
            have hsecond := (List.cons.inj (List.cons.inj h).2).1
            exact absurd hsecond.symm (ofNat_surrogate_ne_mark n)
          · rw [text_char hc, text_surrogate] at h
            exact absurd (List.cons.inj h).1 hc
  | surrogate m =>
      cases q with
      | char d =>
          by_cases hd : d = mark
          · rw [hd, text_mark, text_surrogate] at h
            have hsecond := (List.cons.inj (List.cons.inj h).2).1
            exact absurd hsecond (ofNat_surrogate_ne_mark m)
          · rw [text_char hd, text_surrogate] at h
            exact absurd (List.cons.inj h).1.symm hd
      | surrogate n =>
          rw [text_surrogate, text_surrogate] at h
          obtain ⟨hsecond, hrest⟩ := List.cons.inj (List.cons.inj h).2
          have hval := congrArg Char.toNat hsecond
          rw [toNat_ofNat_surrogate, toNat_ofNat_surrogate] at hval
          have heq : m = n := Fin.ext (by omega)
          exact ⟨congrArg Point.surrogate heq, hrest⟩

theorem text_ne_nil (p : Point) : p.text ≠ [] := by
  cases p with
  | char c =>
      by_cases hc : c = mark
      · rw [hc, text_mark]
        exact List.cons_ne_nil _ _
      · rw [text_char hc]
        exact List.cons_ne_nil _ _
  | surrogate n => exact List.cons_ne_nil _ _

def hexDigit (c : Char) : Option Nat :=
  if '0' ≤ c ∧ c ≤ '9' then some (c.toNat - '0'.toNat)
  else if 'a' ≤ c ∧ c ≤ 'f' then some (c.toNat - 'a'.toNat + 10)
  else if 'A' ≤ c ∧ c ≤ 'F' then some (c.toNat - 'A'.toNat + 10)
  else none

def hexUnit (a b c d : Char) : Option Nat := do
  let digits ← [a, b, c, d].mapM hexDigit
  return digits.foldl (fun n digit => 16 * n + digit) 0

def escaped : Char → Option Char
  | '"' => some '"'
  | '\\' => some '\\'
  | '/' => some '/'
  | 'b' => some (Char.ofNat 8)
  | 'f' => some (Char.ofNat 12)
  | 'n' => some '\n'
  | 'r' => some '\r'
  | 't' => some '\t'
  | _ => none

/-- What follows the opening quote, up to the closing one. -/
def scanPoints : (text : Text) → Except Failure (Scanned (List Point) text)
  | [] => .error .malformed
  | '"' :: rest => .ok ⟨[], rest, Nat.lt_succ_self _⟩
  | '\\' :: 'u' :: a :: b :: c :: d :: rest =>
      match hexUnit a b c d, scanPoints rest with
      | none, _ => .error .malformed
      | some _, .error failure => .error failure
      | some n, .ok s =>
          .ok ((s.within (by simp only [List.length_cons]; omega)).map (.ofUnit n :: ·))
  | '\\' :: c :: rest =>
      match escaped c, scanPoints rest with
      | none, _ => .error .malformed
      | some _, .error failure => .error failure
      | some c, .ok s =>
          .ok ((s.within (by simp only [List.length_cons]; omega)).map (.char c :: ·))
  | c :: rest =>
      if c.toNat < 32 ∨ c = '\\' then .error .malformed
      else
        match scanPoints rest with
        | .error failure => .error failure
        | .ok s => .ok ((s.within (by simp only [List.length_cons]; omega)).map (.char c :: ·))

def scanString (text : Text) : Except Failure (Scanned String text) :=
  (scanPoints text).map (·.map fun points => ofPoints (joinPairs points))

/-! ## Words and numbers -/

def words (reader : Reader) : List (Text × Json) :=
  [("null".toList, .null), ("true".toList, .bool true), ("false".toList, .bool false),
    ("NaN".toList, .real (reader.parseConstant "NaN".toList)),
    ("Infinity".toList, .real (reader.parseConstant "Infinity".toList)),
    ("-Infinity".toList, .real (reader.parseConstant "-Infinity".toList))]

theorem length_drop_lt {text : Text} {n : Nat} (hn : 0 < n) (h : text ≠ []) :
    (text.drop n).length < text.length := by
  have hpos := List.length_pos_of_ne_nil h
  rw [List.length_drop]
  omega

theorem ne_nil_of_isPrefix {word text : Text} (h : word ≠ [] ∧ word <+: text) : text ≠ [] := by
  rintro rfl
  exact h.1 (List.prefix_nil.mp h.2)

def scanWord : List (Text × Json) → (text : Text) → Option (Scanned Json text)
  | [], _ => none
  | (word, value) :: words, text =>
      if h : word ≠ [] ∧ word <+: text then
        some ⟨value, text.drop word.length,
          length_drop_lt (List.length_pos_of_ne_nil h.1) (ne_nil_of_isPrefix h)⟩
      else scanWord words text

def integerPart : Text → Text
  | '0' :: _ => ['0']
  | text => text.takeWhile Char.isDigit

/-- A point is read only with a digit behind it. -/
def fractionPart : Text → Text
  | '.' :: rest =>
      if rest.takeWhile Char.isDigit = [] then [] else '.' :: rest.takeWhile Char.isDigit
  | _ => []

def signPart : Text → Text
  | '+' :: _ => ['+']
  | '-' :: _ => ['-']
  | _ => []

def exponentPart : Text → Text
  | [] => []
  | e :: rest =>
      let digits := (rest.drop (signPart rest).length).takeWhile Char.isDigit
      if (e = 'e' ∨ e = 'E') ∧ digits ≠ [] then e :: (signPart rest ++ digits) else []

/-- `int`, of a sign and digits. -/
def integer (negative : Bool) (digits : Text) : Json :=
  let n : Nat := (digits.map fun c => c.toNat - 48).foldl (fun n digit => 10 * n + digit) 0
  if negative ∧ n ≠ 0 then .sint (-(n : Int)) else .uint n

def minusPart (text : Text) : Text := if text.head? = some '-' then ['-'] else []

def scanNumber (reader : Reader) (text : Text) : Except Failure (Scanned Json text) :=
  let minus := minusPart text
  let digits := integerPart (text.drop minus.length)
  let fraction := fractionPart (text.drop (minus ++ digits).length)
  let exponent := exponentPart (text.drop (minus ++ digits ++ fraction).length)
  let literal := minus ++ digits ++ fraction ++ exponent
  if h : literal ≠ [] ∧ text ≠ [] then
    let scanned value : Scanned Json text :=
      ⟨value, text.drop literal.length, length_drop_lt (List.length_pos_of_ne_nil h.1) h.2⟩
    if digits = [] then .error .malformed
    else if fraction ++ exponent ≠ [] then .ok (scanned (.real (reader.parseFloat literal)))
    else if 0 < reader.maxStrDigits ∧ reader.maxStrDigits < digits.length then
      .error .tooManyDigits
    else .ok (scanned (integer (minus ≠ []) digits))
  else .error .malformed

def scanScalar (reader : Reader) : (text : Text) → Except Failure (Scanned Json text)
  | '"' :: rest =>
      (scanString rest).map fun s => (s.map Json.str).within (Nat.le_succ _)
  | text =>
      match scanWord (words reader) text with
      | some s => .ok s
      | none => scanNumber reader text

/-! ## Containers -/

section

variable {α : Type} (item : (text : Text) → Except Failure (Scanned α text)) (close : Char)

theorem length_lt_of_skipSpace {text rest : Text} {c : Char} (h : skipSpace text = c :: rest) :
    rest.length < text.length := by
  have hle := length_skipSpace_le text
  rw [h, List.length_cons] at hle
  exact hle

/-- At least one item, with commas between them, up to what closes the container. -/
def scanItems (text : Text) : Except Failure (Scanned (List α) text) :=
  match item text with
  | .error failure => .error failure
  | .ok first =>
      match h : skipSpace first.rest with
      | [] => .error .malformed
      | c :: rest =>
          have hrest := (length_lt_of_skipSpace h).trans first.shorter
          if c = close then .ok ⟨[first.value], rest, hrest⟩
          else if c = ',' then
            have hspace := (length_skipSpace_le rest).trans_lt hrest
            match scanItems (skipSpace rest) with
            | .error failure => .error failure
            | .ok more => .ok ((more.map (first.value :: ·)).within hspace.le)
          else .error .malformed
termination_by text.length

/-- What follows the character that opens a container. -/
def scanContainer (text : Text) : Except Failure (Scanned (List α) text) :=
  match h : skipSpace text with
  | [] => .error .malformed
  | c :: rest =>
      if c = close then .ok ⟨[], rest, length_lt_of_skipSpace h⟩
      else (scanItems item close (skipSpace text)).map (·.within (length_skipSpace_le text))

end

def scanMember (value : (text : Text) → Except Failure (Scanned Json text)) :
    (text : Text) → Except Failure (Scanned (String × Json) text)
  | '"' :: rest =>
      match scanString rest with
      | .error failure => .error failure
      | .ok key =>
          match h : skipSpace key.rest with
          | ':' :: after =>
              have hafter := (length_lt_of_skipSpace h).trans key.shorter
              (value (skipSpace after)).map fun s =>
                (s.map (key.value, ·)).within
                  (((length_skipSpace_le after).trans hafter.le).trans (Nat.le_succ _))
          | _ => .error .malformed
  | _ => .error .malformed

/-- A repeated key has its last value, in the place of its first. -/
def ofPairs (pairs : List (String × Json)) : List (String × Json) :=
  pairs.foldl (fun members m => Json.putMember m.1 m.2 members) []

/-- A value, with what scans the values inside of it: nothing does at the limit. -/
def scanTerm (reader : Reader)
    (nested : Option ((text : Text) → Except Failure (Scanned Json text))) :
    (text : Text) → Except Failure (Scanned Json text)
  | '[' :: rest =>
      match nested with
      | none => .error .tooDeep
      | some value =>
          (scanContainer value ']' rest).map fun s => (s.map Json.arr).within (Nat.le_succ _)
  | '{' :: rest =>
      match nested with
      | none => .error .tooDeep
      | some value =>
          (scanContainer (scanMember value) '}' rest).map fun s =>
            (s.map fun pairs => Json.obj (ofPairs pairs)).within (Nat.le_succ _)
  | text => scanScalar reader text

/-- A value with at most so many containers around one another. -/
def scanValue (reader : Reader) : Nat → (text : Text) → Except Failure (Scanned Json text)
  | 0 => scanTerm reader none
  | depth + 1 => scanTerm reader (some (scanValue reader depth))

/-- A byte order mark is an error of its own. -/
def loads (reader : Reader) (depth : Nat) (text : Text) : Except Failure Json :=
  if text.head? = some (Char.ofNat 0xFEFF) then .error .malformed
  else
    match scanValue reader depth (skipSpace text) with
    | .error failure => .error failure
    | .ok s => if skipSpace s.rest = [] then .ok s.value else .error .malformed

/-! ## Repeated keys -/

/-- No object of the document has two members of one key. -/
inductive Distinct : Json → Prop where
  | scalar {value : Json} : value.isObj = false → value.isArr = false → Distinct value
  | arr {elements : List Json} : (∀ e ∈ elements, Distinct e) → Distinct (.arr elements)
  | obj {members : List (String × Json)} : (members.map Prod.fst).Nodup →
      (∀ m ∈ members, Distinct m.2) → Distinct (.obj members)

theorem Distinct.members {members : List (String × Json)} (h : Distinct (.obj members)) :
    (members.map Prod.fst).Nodup ∧ ∀ m ∈ members, Distinct m.2 := by
  cases h with
  | scalar hobj => cases hobj
  | obj hkeys hall => exact ⟨hkeys, hall⟩

theorem nodup_putMember (key : String) (value : Json) {members : List (String × Json)}
    (h : (members.map Prod.fst).Nodup) :
    ((Json.putMember key value members).map Prod.fst).Nodup := by
  induction members with
  | nil => exact List.nodup_singleton key
  | cons m rest ih =>
      obtain ⟨k, v⟩ := m
      obtain ⟨hk, hrest⟩ := List.nodup_cons.mp h
      rw [Json.putMember]
      split
      · next heq =>
          subst heq
          refine List.nodup_cons.mpr ⟨fun hmem => ?_, ?_⟩
          · obtain ⟨m, hm, hkey⟩ := List.mem_map.mp hmem
            exact of_decide_eq_true (List.mem_filter.mp hm).2 hkey
          · exact hrest.sublist (List.filter_sublist.map _)
      · next hne =>
          refine List.nodup_cons.mpr ⟨fun hmem => ?_, ih hrest⟩
          obtain ⟨m, hm, hkey⟩ := List.mem_map.mp hmem
          rcases Json.mem_putMember hm with rfl | ⟨hin, -⟩
          · exact hne hkey.symm
          · exact hk (List.mem_map.mpr ⟨m, hin, hkey⟩)

/-- What holds of the items holds of what is read of a container. -/
theorem scanItems_mem {α : Type} {item : (text : Text) → Except Failure (Scanned α text)}
    {close : Char} {P : α → Prop} (hitem : ∀ text s, item text = .ok s → P s.value)
    {text : Text} {s : Scanned (List α) text} (h : scanItems item close text = .ok s) :
    ∀ a ∈ s.value, P a := by
  induction hn : text.length using Nat.strong_induction_on generalizing text with
  | _ n ih =>
      rw [scanItems] at h
      split at h
      · cases h
      · next first hfirst =>
          have hhead : P first.value := hitem text first hfirst
          split at h
          · cases h
          · next c rest hskip =>
              have hrest := (length_lt_of_skipSpace hskip).trans first.shorter
              split at h
              · cases h
                exact List.forall_mem_singleton.mpr hhead
              · split at h
                · split at h
                  · cases h
                  · next more hmore =>
                      cases h
                      have hspace := (length_skipSpace_le rest).trans_lt hrest
                      exact List.forall_mem_cons.mpr
                        ⟨hhead, ih _ (hn ▸ hspace) hmore rfl⟩
                · cases h

theorem scanContainer_mem {α : Type} {item : (text : Text) → Except Failure (Scanned α text)}
    {close : Char} {P : α → Prop} (hitem : ∀ text s, item text = .ok s → P s.value)
    {text : Text} {s : Scanned (List α) text} (h : scanContainer item close text = .ok s) :
    ∀ a ∈ s.value, P a := by
  unfold scanContainer at h
  split at h
  · cases h
  · split at h
    · cases h
      exact List.forall_mem_nil _
    · obtain ⟨items, hitems, rfl⟩ := Outcome.map_eq_ok.mp h
      have hall := scanItems_mem hitem hitems
      exact hall

theorem scanMember_distinct {value : (text : Text) → Except Failure (Scanned Json text)}
    (hvalue : ∀ text s, value text = .ok s → Distinct s.value) {text : Text}
    {s : Scanned (String × Json) text} (h : scanMember value text = .ok s) :
    Distinct s.value.2 := by
  unfold scanMember at h
  split at h
  · split at h
    · cases h
    · split at h
      · obtain ⟨found, hfound, rfl⟩ := Outcome.map_eq_ok.mp h
        exact hvalue _ _ hfound
      · cases h
  · cases h

theorem ofPairs_distinct {pairs : List (String × Json)} (h : ∀ m ∈ pairs, Distinct m.2) :
    Distinct (.obj (ofPairs pairs)) := by
  have hfold : ∀ (pairs members : List (String × Json)), (∀ m ∈ pairs, Distinct m.2) →
      Distinct (.obj members) →
      Distinct (.obj (pairs.foldl (fun members m => Json.putMember m.1 m.2 members) members)) := by
    intro pairs
    induction pairs with
    | nil => exact fun _ _ hmembers => hmembers
    | cons m pairs ih =>
        intro members hpairs hmembers
        obtain ⟨hm, hrest⟩ := List.forall_mem_cons.mp hpairs
        obtain ⟨hkeys, hall⟩ := hmembers.members
        refine ih _ hrest (.obj (nodup_putMember _ _ hkeys) fun other hother => ?_)
        rcases Json.mem_putMember hother with rfl | ⟨hin, -⟩
        · exact hm
        · exact hall other hin
  exact hfold pairs [] h (.obj List.nodup_nil (List.forall_mem_nil _))

theorem scanWord_distinct {words : List (Text × Json)} (hwords : ∀ w ∈ words, Distinct w.2)
    {text : Text} {s : Scanned Json text} (h : scanWord words text = some s) :
    Distinct s.value := by
  induction words with
  | nil => cases h
  | cons w words ih =>
      obtain ⟨hw, hrest⟩ := List.forall_mem_cons.mp hwords
      rw [scanWord] at h
      split at h
      · cases h
        exact hw
      · exact ih hrest h

theorem scanNumber_distinct {reader : Reader} {text : Text} {s : Scanned Json text}
    (h : scanNumber reader text = .ok s) : Distinct s.value := by
  have hinteger : ∀ negative digits, Distinct (integer negative digits) := by
    intro negative digits
    unfold integer
    dsimp only
    split
    · exact .scalar rfl rfl
    · exact .scalar rfl rfl
  unfold scanNumber at h
  dsimp only at h
  split at h
  · split at h
    · cases h
    · split at h
      · cases h
        exact .scalar rfl rfl
      · split at h
        · cases h
        · cases h
          exact hinteger _ _
  · cases h

theorem scanScalar_distinct {reader : Reader} {text : Text} {s : Scanned Json text}
    (h : scanScalar reader text = .ok s) : Distinct s.value := by
  have hwords : ∀ w ∈ words reader, Distinct w.2 := by
    simp only [words, List.forall_mem_cons]
    exact ⟨.scalar rfl rfl, .scalar rfl rfl, .scalar rfl rfl, .scalar rfl rfl, .scalar rfl rfl,
      .scalar rfl rfl, List.forall_mem_nil _⟩
  unfold scanScalar at h
  split at h
  · obtain ⟨found, -, rfl⟩ := Outcome.map_eq_ok.mp h
    exact .scalar rfl rfl
  · split at h
    · next found hfound =>
        cases h
        exact scanWord_distinct hwords hfound
    · exact scanNumber_distinct h

theorem scanTerm_distinct {reader : Reader}
    {nested : Option ((text : Text) → Except Failure (Scanned Json text))}
    (hnested : ∀ value ∈ nested, ∀ text s, value text = .ok s → Distinct s.value)
    {text : Text} {s : Scanned Json text} (h : scanTerm reader nested text = .ok s) :
    Distinct s.value := by
  unfold scanTerm at h
  split at h
  · split at h
    · cases h
    · next value =>
        obtain ⟨found, hfound, rfl⟩ := Outcome.map_eq_ok.mp h
        exact .arr (scanContainer_mem (hnested value rfl) hfound)
  · split at h
    · cases h
    · next value =>
        obtain ⟨found, hfound, rfl⟩ := Outcome.map_eq_ok.mp h
        have hmember : ∀ text s, scanMember value text = .ok s → Distinct s.value.2 :=
          fun _ _ => scanMember_distinct (hnested value rfl)
        exact ofPairs_distinct (scanContainer_mem hmember hfound)
  · exact scanScalar_distinct h

theorem scanValue_distinct {reader : Reader} (depth : Nat) {text : Text} {s : Scanned Json text}
    (h : scanValue reader depth text = .ok s) : Distinct s.value := by
  induction depth generalizing text with
  | zero => exact scanTerm_distinct (fun _ hvalue => absurd hvalue (Option.not_mem_none _)) h
  | succ depth ih =>
      refine scanTerm_distinct (fun value hvalue => ?_) h
      cases hvalue
      exact fun _ _ hs => ih hs

theorem loads_distinct {reader : Reader} {depth : Nat} {text : Text} {value : Json}
    (h : loads reader depth text = .ok value) : Distinct value := by
  unfold loads at h
  split at h
  · cases h
  · split at h
    · cases h
    · next s hs =>
        split at h
        · cases h
          exact scanValue_distinct depth hs
        · cases h

end Spaces.Library.JsonText
