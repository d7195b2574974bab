import Mathlib.Algebra.Order.Ring.Rat
import Mathlib.Data.List.TakeWhile
import Mathlib.Tactic.Positivity

/-!
# JSON documents, as yyjson reads and compares them

A document keeps what the reader keeps: the members of an object in their order,
repeated keys included, and for a number whether it was read as an unsigned
integer, a negative one or a double. A double is the rational it stands for.

A string of a document may hold `U+0000`. A C caller that takes such a string as
a null-terminated one sees only what comes before it, and `cString` is what it
sees.
-/

namespace Spaces.Library

inductive Json where
  | null
  | bool (value : Bool)
  | uint (value : Nat)
  | sint (value : Int)
  | real (value : Rat)
  | str (value : String)
  | arr (elements : List Json)
  | obj (members : List (String × Json))

namespace Json

/-- What `strlen` and `strcmp` see of a string. -/
def cString (text : String) : String :=
  String.ofList (text.toList.takeWhile (· ≠ '\x00'))

/-- Whether a C string says all of this text. -/
def Plain (text : String) : Prop := '\x00' ∉ text.toList

instance (text : String) : Decidable (Plain text) :=
  inferInstanceAs (Decidable ('\x00' ∉ text.toList))

theorem cString_plain {text : String} (h : Plain text) : cString text = text := by
  have hall : ∀ c ∈ text.toList, decide (c ≠ '\x00') = true := by
    intro c hc
    simp only [ne_eq, decide_not, Bool.not_eq_eq_eq_not, Bool.not_true, decide_eq_false_iff_not]
    rintro rfl
    exact h hc
  rw [cString, List.takeWhile_eq_self_iff.mpr hall, String.ofList_toList]

/-! ## Objects -/

/-- `yyjson_obj_get`: the first member of that key, and nothing of a value that
is not an object. -/
def get (key : String) : Json → Option Json
  | obj members => members.lookup key
  | _ => none

def getStr : Option Json → Option String
  | some (str text) => some text
  | _ => none

/-- `yyjson_arr_foreach` and `yyjson_arr_size`: no element of what is no array. -/
def items : Option Json → List Json
  | some (arr elements) => elements
  | _ => []

/-- The members after the first one of a key, with the later ones of it gone. -/
def putMember (key : String) (value : Json) : List (String × Json) → List (String × Json)
  | [] => [(key, value)]
  | (k, v) :: rest =>
      if k = key then (k, value) :: rest.filter (·.1 ≠ key)
      else (k, v) :: putMember key value rest

/-- `yyjson_mut_obj_put`. -/
def put (key : String) (value : Json) : Json → Json
  | obj members => obj (putMember key value members)
  | other => other

theorem lookup_filter_ne {key other : String} (h : other ≠ key) (members : List (String × Json)) :
    (members.filter (·.1 ≠ key)).lookup other = members.lookup other := by
  induction members with
  | nil => rfl
  | cons m rest ih =>
      obtain ⟨k, v⟩ := m
      by_cases hk : k = key
      · subst hk
        have hne : (other == k) = false := by simpa using h
        simpa [List.lookup_cons, hne] using ih
      · by_cases ho : other = k
        · subst ho
          simp [hk]
        · have hne : (other == k) = false := by simpa using ho
          simpa [hk, List.lookup_cons, hne] using ih

theorem lookup_putMember_self (key : String) (value : Json) (members : List (String × Json)) :
    (putMember key value members).lookup key = some value := by
  induction members with
  | nil => simp [putMember]
  | cons m rest ih =>
      obtain ⟨k, v⟩ := m
      by_cases hk : k = key
      · simp [putMember, hk]
      · have hne : (key == k) = false := by simpa using fun h => hk h.symm
        simpa [putMember, hk, List.lookup_cons, hne] using ih

theorem lookup_putMember_ne {key other : String} (h : other ≠ key) (value : Json)
    (members : List (String × Json)) :
    (putMember key value members).lookup other = members.lookup other := by
  induction members with
  | nil =>
      have hne : (other == key) = false := by simpa using h
      simp [putMember, List.lookup_cons, hne]
  | cons m rest ih =>
      obtain ⟨k, v⟩ := m
      by_cases hk : k = key
      · subst hk
        have hne : (other == k) = false := by simpa using h
        have hfilter := lookup_filter_ne h rest
        simpa [putMember, List.lookup_cons, hne] using hfilter
      · by_cases ho : other = k
        · subst ho
          simp [putMember, hk]
        · have hne : (other == k) = false := by simpa using ho
          simpa [putMember, hk, List.lookup_cons, hne] using ih

theorem mem_putMember {key : String} {value : Json} {members : List (String × Json)}
    {m : String × Json} (h : m ∈ putMember key value members) :
    m = (key, value) ∨ (m ∈ members ∧ m.1 ≠ key) := by
  induction members with
  | nil => exact .inl (List.mem_singleton.mp h)
  | cons head rest ih =>
      obtain ⟨k, v⟩ := head
      by_cases hk : k = key
      · simp only [putMember, hk, if_true, List.mem_cons] at h
        rcases h with rfl | h
        · exact .inl rfl
        · obtain ⟨hmem, hne⟩ := List.mem_filter.mp h
          exact .inr ⟨List.mem_cons_of_mem _ hmem, by simpa using hne⟩
      · simp only [putMember, hk, if_false, List.mem_cons] at h
        rcases h with rfl | h
        · exact .inr ⟨List.mem_cons_self .., hk⟩
        · exact (ih h).imp_right fun h => ⟨List.mem_cons_of_mem _ h.1, h.2⟩

theorem mem_of_lookup {key : String} {value : Json} {members : List (String × Json)}
    (h : members.lookup key = some value) : (key, value) ∈ members := by
  induction members with
  | nil => cases h
  | cons m rest ih =>
      obtain ⟨k, v⟩ := m
      by_cases hk : key = k
      · subst hk
        have hv : v = value := by simpa using h
        exact hv ▸ List.mem_cons_self ..
      · have hne : (key == k) = false := by simpa using hk
        exact List.mem_cons_of_mem _ (ih (by simpa [List.lookup_cons, hne] using h))

theorem lookup_isSome {key : String} {members : List (String × Json)} :
    (members.lookup key).isSome = true ↔ key ∈ members.map Prod.fst := by
  induction members with
  | nil => simp
  | cons m rest ih =>
      obtain ⟨k, v⟩ := m
      by_cases hk : key = k
      · simp [hk]
      · have hne : (key == k) = false := by simpa using hk
        simp [List.lookup_cons, hne, ih, hk]

theorem sizeOf_lt_of_get {key : String} {value object : Json} (h : get key object = some value) :
    sizeOf value < sizeOf object := by
  cases object with
  | obj members =>
      have hmem := List.sizeOf_lt_of_mem (mem_of_lookup h)
      simp only [Prod.mk.sizeOf_spec] at hmem
      simp only [obj.sizeOf_spec]
      omega
  | null | bool | uint | sint | real | str | arr => cases h

/-! ## Numbers -/

/-- The double next to an unsigned integer, the even one of two that are equally
near. -/
def toDouble (n : Nat) : Nat :=
  if n < 2 ^ 53 then n
  else
    let unit := 2 ^ (n.log2 - 52)
    let significand := n / unit
    let rest := n % unit
    if 2 * rest < unit ∨ (2 * rest = unit ∧ significand % 2 = 0) then significand * unit
    else (significand + 1) * unit

theorem toDouble_of_lt {n : Nat} (h : n < 2 ^ 53) : toDouble n = n := if_pos h

theorem le_toDouble {n : Nat} (h : 2 ^ 53 ≤ n) : 2 ^ 53 ≤ toDouble n := by
  have hne : n ≠ 0 := by
    have : 0 < 2 ^ 53 := by positivity
    omega
  have hlog : 53 ≤ n.log2 := (Nat.le_log2 hne).mpr h
  have hunit : 2 ^ 53 ≤ n / 2 ^ (n.log2 - 52) * 2 ^ (n.log2 - 52) := by
    have hsignificand : 2 ^ 52 ≤ n / 2 ^ (n.log2 - 52) := by
      rw [Nat.le_div_iff_mul_le (by positivity), ← Nat.pow_add]
      have hsum : 52 + (n.log2 - 52) = n.log2 := by omega
      rw [hsum]
      exact Nat.log2_self_le hne
    have htwo : 2 ^ 1 ≤ 2 ^ (n.log2 - 52) := Nat.pow_le_pow_right (by omega) (by omega)
    calc 2 ^ 53 = 2 ^ 52 * 2 ^ 1 := rfl
      _ ≤ n / 2 ^ (n.log2 - 52) * 2 ^ (n.log2 - 52) := Nat.mul_le_mul hsignificand htwo
  rw [toDouble, if_neg (by omega)]
  dsimp only
  split
  · exact hunit
  · exact hunit.trans (Nat.mul_le_mul_right _ (Nat.le_succ _))

/-- The conversion of an integer of either sign, which rounds its magnitude. -/
def roundInt (z : Int) : Int :=
  if z < 0 then -(toDouble z.natAbs : Int) else (toDouble z.natAbs : Int)

theorem roundInt_of_lt {z : Int} (h : z.natAbs < 2 ^ 53) : roundInt z = z := by
  rw [roundInt, toDouble_of_lt h]
  split <;> omega

/-- A number that a double says exactly stays on its side of what was rounded. -/
theorem le_of_le_roundInt {n z : Int} (hn : n.natAbs < 2 ^ 53) (h : n ≤ roundInt z) : n ≤ z := by
  rcases Nat.lt_or_ge z.natAbs (2 ^ 53) with hlt | hge
  · rwa [roundInt_of_lt hlt] at h
  · have hround := le_toDouble hge
    rw [roundInt] at h
    split at h <;> omega

theorem le_of_roundInt_le {n z : Int} (hn : n.natAbs < 2 ^ 53) (h : roundInt z ≤ n) : z ≤ n := by
  rcases Nat.lt_or_ge z.natAbs (2 ^ 53) with hlt | hge
  · rwa [roundInt_of_lt hlt] at h
  · have hround := le_toDouble hge
    rw [roundInt] at h
    split at h <;> omega

/-- `yyjson_get_num`. -/
def getNum : Json → Rat
  | uint n => roundInt n
  | sint z => roundInt z
  | real q => q
  | _ => 0

/-- The number a document says, before any rounding. -/
def number : Json → Option Rat
  | uint n => some n
  | sint z => some z
  | real q => some q
  | _ => none

theorem le_number {v : Json} {q : Rat} (hv : v.number = some q) {n : Int}
    (hn : n.natAbs < 2 ^ 53) (h : (n : Rat) ≤ v.getNum) : (n : Rat) ≤ q := by
  cases v with
  | uint k =>
      cases hv
      exact_mod_cast le_of_le_roundInt hn (Int.cast_le.mp h)
  | sint z =>
      cases hv
      exact_mod_cast le_of_le_roundInt hn (Int.cast_le.mp h)
  | real r =>
      cases hv
      exact h
  | null | bool | str | arr | obj => cases hv

theorem number_le {v : Json} {q : Rat} (hv : v.number = some q) {n : Int}
    (hn : n.natAbs < 2 ^ 53) (h : v.getNum ≤ (n : Rat)) : q ≤ (n : Rat) := by
  cases v with
  | uint k =>
      cases hv
      exact_mod_cast le_of_roundInt_le hn (Int.cast_le.mp h)
  | sint z =>
      cases hv
      exact_mod_cast le_of_roundInt_le hn (Int.cast_le.mp h)
  | real r =>
      cases hv
      exact h
  | null | bool | str | arr | obj => cases hv

def isNum (value : Json) : Bool := value.number.isSome

def isInt : Json → Bool
  | uint _ | sint _ => true
  | _ => false

mutual

/-- `yyjson_equals`, for values whose objects repeat no key. Integers compare by
value whichever way they were read, and a double equals only a double. -/
def equals : Json → Json → Bool
  | null, null => true
  | bool a, bool b => a == b
  | uint a, uint b => a == b
  | uint a, sint b => (a : Int) == b
  | sint a, uint b => a == (b : Int)
  | sint a, sint b => a == b
  | real a, real b => a == b
  | str a, str b => a == b
  | arr xs, arr ys => equalElements xs ys
  | obj xs, obj ys => xs.length == ys.length && equalMembers xs (obj ys)
  | _, _ => false

def equalElements : List Json → List Json → Bool
  | [], [] => true
  | x :: xs, y :: ys => equals x y && equalElements xs ys
  | _, _ => false

def equalMembers : List (String × Json) → Json → Bool
  | [], _ => true
  | (key, x) :: xs, other =>
      (match get key other with
        | some y => equals x y
        | none => false) && equalMembers xs other

end

mutual

/-- Whether `yyjson_val_write` writes the same text for both. -/
def sameText : Json → Json → Bool
  | null, null => true
  | bool a, bool b => a == b
  | uint a, uint b => a == b
  | uint a, sint b => (a : Int) == b
  | sint a, uint b => a == (b : Int)
  | sint a, sint b => a == b
  | real a, real b => a == b
  | str a, str b => a == b
  | arr xs, arr ys => sameElements xs ys
  | obj xs, obj ys => sameMembers xs ys
  | _, _ => false

def sameElements : List Json → List Json → Bool
  | [], [] => true
  | x :: xs, y :: ys => sameText x y && sameElements xs ys
  | _, _ => false

def sameMembers : List (String × Json) → List (String × Json) → Bool
  | [], [] => true
  | (k, x) :: xs, (l, y) :: ys => k == l && sameText x y && sameMembers xs ys
  | _, _ => false

end

def isNull : Json → Bool
  | null => true
  | _ => false

def isBool : Json → Bool
  | bool _ => true
  | _ => false

def isFalse : Json → Bool
  | bool false => true
  | _ => false

/-- A string without `U+0000`: `strlen` finds the length that the reader did. -/
def isCString : Json → Bool
  | str text => Plain text
  | _ => false

def isObj : Json → Bool
  | obj _ => true
  | _ => false

def isArr : Json → Bool
  | arr _ => true
  | _ => false

end Json

end Spaces.Library
