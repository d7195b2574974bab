import Mathlib.Data.Nat.Digits.Lemmas
import Spaces.Library.Text

/-!
# Integers as Python reads and writes them

`int` takes a text with white space around it, a sign and underscores between the digits,
and digits of any script. Its limit on the number of digits is left out. What `str` makes
of a natural number is read back, and other digits of the same number differ from these by
leading zeros.
-/

namespace Spaces.Library.Text

/-- The value of the digits of a number. -/
def decimalValue (u : Unicode) (digits : Text) : Option Nat :=
  if (digits.splitOn '_').any List.isEmpty then none
  else ((digits.splitOn '_').flatten.mapM u.decimal).map (·.foldl (fun n d => 10 * n + d) 0)

/-- The white space that `int` passes over: the ASCII separators are not in it. -/
def intSpace (c : Char) : Bool := isSpace c && !(28 ≤ c.toNat && c.toNat ≤ 31)

/-- `int(text)` -/
def int (u : Unicode) (text : Text) : Option Int :=
  match (text.dropWhile intSpace).rdropWhile intSpace with
  | '+' :: digits => (decimalValue u digits).map Int.ofNat
  | '-' :: digits => (decimalValue u digits).map fun n => -(n : Int)
  | digits => (decimalValue u digits).map Int.ofNat

theorem intStrip_eq {text : Text} (h : ∀ c ∈ text, isSpace c = false) :
    (text.dropWhile intSpace).rdropWhile intSpace = text := by
  have hspace : ∀ c ∈ text, ¬intSpace c = true := by
    intro c hc
    rw [intSpace, h c hc]
    exact Bool.false_ne_true
  rw [List.dropWhile_eq_self_iff.mpr fun hlength => hspace _ (List.getElem_mem hlength),
    List.rdropWhile_eq_self_iff.mpr fun hne => hspace _ (List.getLast_mem hne)]

theorem mapM_decimal (u : Unicode) {digits : Text} (h : ∀ c ∈ digits, c.isDigit = true) :
    digits.mapM u.decimal = some (digits.map fun c => c.toNat - 48) := by
  induction digits with
  | nil => rfl
  | cons c digits ih =>
      rw [List.mapM_cons, u.decimal_ascii c (h c List.mem_cons_self),
        ih fun d hd => h d (List.mem_cons_of_mem c hd)]
      rfl

theorem foldl_toDigits (n : Nat) :
    ((Nat.toDigits 10 n).map fun c => c.toNat - 48).foldl (fun n d => 10 * n + d) 0 = n := by
  rw [List.foldl_map]
  exact Nat.ofDigitChars_ten_toDigits

theorem isDigit_toDigits (n : Nat) : ∀ c ∈ Nat.toDigits 10 n, c.isDigit = true :=
  fun _ hc => Nat.isDigit_of_mem_toDigits (by omega) (by omega) hc

/-- The number that digits are, the first one the highest. -/
def positional (digits : List Nat) : Nat := digits.foldl (fun n d => 10 * n + d) 0

/-- A digit is none of the characters that `int` passes over. -/
theorem plain_of_isDigit {c : Char} (h : c.isDigit = true) :
    isSpace c = false ∧ c ≠ '_' ∧ c ≠ '+' ∧ c ≠ '-' := by
  refine ⟨isSpace_of_isDigit h, ?_, ?_, ?_⟩
  · rintro rfl
    cases h
  · rintro rfl
    cases h
  · rintro rfl
    cases h

/-- Of decimal digits `int` reads the number. -/
theorem int_of_decimal (u : Unicode) {text : Text} {digits : List Nat} (hne : text ≠ [])
    (hplain : ∀ c ∈ text, isSpace c = false ∧ c ≠ '_' ∧ c ≠ '+' ∧ c ≠ '-')
    (hdigits : text.mapM u.decimal = some digits) :
    int u text = some (positional digits : Int) := by
  have hvalue : decimalValue u text = some (positional digits) := by
    have hsplit : text.splitOn '_' = [text] :=
      List.splitOn_eq_singleton fun hmem => (hplain '_' hmem).2.1 rfl
    rw [decimalValue, hsplit, if_neg (by simpa using hne), List.flatten_singleton, hdigits]
    rfl
  unfold int
  rw [intStrip_eq fun c hc => (hplain c hc).1]
  split
  · exact absurd rfl (hplain '+' List.mem_cons_self).2.2.1
  · exact absurd rfl (hplain '-' List.mem_cons_self).2.2.2
  · rw [hvalue]
    rfl

/-- What `str` writes of a natural number, `int` reads. -/
theorem int_toDigits (u : Unicode) (n : Nat) : int u (Nat.toDigits 10 n) = some (n : Int) := by
  have hplain : ∀ c ∈ Nat.toDigits 10 n, isSpace c = false ∧ c ≠ '_' ∧ c ≠ '+' ∧ c ≠ '-' :=
    fun c hc => plain_of_isDigit (isDigit_toDigits n c hc)
  rw [int_of_decimal u Nat.toDigits_ne_nil hplain (mapM_decimal u (isDigit_toDigits n)),
    positional, foldl_toDigits]

/-! ## Leading zeros -/

theorem positional_eq_ofDigits (digits : List Nat) :
    positional digits = Nat.ofDigits 10 digits.reverse := by
  rw [Nat.ofDigits_eq_foldr, List.foldr_reverse, positional]
  congr
  funext n d
  rw [Nat.add_comm]
  rfl

theorem positional_dropZeros (digits : List Nat) :
    positional (digits.dropWhile (· == 0)) = positional digits := by
  induction digits with
  | nil => rfl
  | cons d digits ih =>
      by_cases hd : d = 0
      · rw [List.dropWhile_cons_of_pos (by simpa using hd), ih, hd]
        rfl
      · rw [List.dropWhile_cons_of_neg (by simpa using hd)]

/-- The digits of a number are known up to leading zeros. -/
theorem positional_eq_iff {a b : List Nat} (ha : ∀ d ∈ a, d < 10) (hb : ∀ d ∈ b, d < 10) :
    positional a = positional b ↔ a.dropWhile (· == 0) = b.dropWhile (· == 0) := by
  have hdigits : ∀ ds : List Nat, (∀ d ∈ ds, d < 10) →
      Nat.digits 10 (positional ds) = (ds.dropWhile (· == 0)).reverse := by
    intro ds hds
    rw [← positional_dropZeros, positional_eq_ofDigits]
    refine Nat.digits_ofDigits 10 (by decide) _ (fun d hd => ?_) (fun hne => ?_)
    · exact hds d ((List.dropWhile_sublist _).mem (List.mem_reverse.mp hd))
    · rw [List.getLast_reverse]
      have hne : ds.dropWhile (· == 0) ≠ [] := by simpa using hne
      simpa using List.head_dropWhile_not (· == 0) hne
  constructor
  · intro h
    have heq := congrArg (Nat.digits 10) h
    rw [hdigits a ha, hdigits b hb] at heq
    exact List.reverse_injective heq
  · intro h
    rw [← positional_dropZeros a, h, positional_dropZeros]

end Spaces.Library.Text
