import Spaces.Library.Text

/-!
# Escapes that are taken back one after the other

A writer puts a code in the place of every character that has one: a lead character, and
a tail that tells which character it was. The reader replaces one code after the other
in the whole text. An earlier replacement must not make a later code out of pieces, and
it cannot: the lead stands at the head of a code and nowhere else as long as the lead's
own code is the last to be replaced, and tails of one length are no beginnings of each
other.
-/

namespace Spaces.Library

namespace Text

variable {α : Type} [DecidableEq α]

/-- `str.replace`, with so many characters of the last occurrence still ahead. -/
def replaceFrom (old new : List α) : Nat → List α → List α
  | _, [] => []
  | ahead + 1, _ :: rest => replaceFrom old new ahead rest
  | 0, c :: rest =>
      if old <+: c :: rest then new ++ replaceFrom old new (old.length - 1) rest
      else c :: replaceFrom old new 0 rest

/-- `text.replace(old, new)`, for a text `old` that is not empty. -/
def replace (old new text : List α) : List α := replaceFrom old new 0 text

@[simp]
theorem replace_nil (old new : List α) : replace old new [] = [] := rfl

theorem replaceFrom_append (old new : List α) (block rest : List α) :
    replaceFrom old new block.length (block ++ rest) = replace old new rest := by
  induction block with
  | nil => rfl
  | cons c block ih =>
      rw [List.length_cons, List.cons_append, replaceFrom]
      exact ih

theorem replace_old (lead : α) (tail new rest : List α) :
    replace (lead :: tail) new (lead :: tail ++ rest)
      = new ++ replace (lead :: tail) new rest := by
  rw [List.cons_append, replace, replaceFrom,
    if_pos (List.cons_prefix_cons.mpr ⟨rfl, List.prefix_append tail rest⟩),
    List.length_cons, Nat.add_sub_cancel, replaceFrom_append]

theorem replace_cons {lead c : α} {tail rest : List α} (new : List α)
    (h : lead = c → ¬ tail <+: rest) :
    replace (lead :: tail) new (c :: rest) = c :: replace (lead :: tail) new rest := by
  rw [replace, replaceFrom, if_neg]
  · rfl
  · intro hpre
    obtain ⟨heq, htail⟩ := List.cons_prefix_cons.mp hpre
    exact h heq htail

theorem replace_append {lead : α} {block : List α} (tail new rest : List α)
    (h : lead ∉ block) :
    replace (lead :: tail) new (block ++ rest)
      = block ++ replace (lead :: tail) new rest := by
  induction block with
  | nil => rfl
  | cons c block ih =>
      rw [List.mem_cons, not_or] at h
      rw [List.cons_append, replace_cons new fun heq => absurd heq h.1, ih h.2,
        List.cons_append]

/-- Another code stays as it is. -/
theorem replace_other {lead : α} {tail other : List α} (new rest : List α)
    (hlead : lead ∉ other) (hlength : tail.length = other.length) (hne : tail ≠ other) :
    replace (lead :: tail) new (lead :: other ++ rest)
      = lead :: other ++ replace (lead :: tail) new rest := by
  rw [List.cons_append, replace_cons, replace_append tail new rest hlead,
    List.cons_append]
  intro _ hpre
  apply hne
  have htake := List.prefix_iff_eq_take.mp hpre
  rwa [hlength, List.take_left] at htake

theorem mem_replaceFrom {old new : List α} {c : α} {ahead : Nat} {text : List α}
    (h : c ∈ replaceFrom old new ahead text) : c ∈ text ∨ c ∈ new := by
  induction text generalizing ahead with
  | nil => cases ahead <;> cases h
  | cons d rest ih =>
      cases ahead with
      | succ ahead =>
          rw [replaceFrom] at h
          exact (ih h).imp_left (List.mem_cons_of_mem d)
      | zero =>
          rw [replaceFrom] at h
          split at h
          · rcases List.mem_append.mp h with h | h
            · exact .inr h
            · exact (ih h).imp_left (List.mem_cons_of_mem d)
          · rcases List.mem_cons.mp h with rfl | h
            · exact .inl List.mem_cons_self
            · exact (ih h).imp_left (List.mem_cons_of_mem d)

theorem mem_replace {old new : List α} {c : α} {text : List α}
    (h : c ∈ replace old new text) : c ∈ text ∨ c ∈ new :=
  mem_replaceFrom h

end Text

namespace Escapes

variable {α : Type} [DecidableEq α]

/-- What is written for a character. The list pairs the characters that have a code with
their tails, and `own` is the tail of the lead itself. -/
def code (lead : α) (own : List α) (others : List (α × List α)) (c : α) : List α :=
  if c = lead then lead :: own
  else match others.lookup c with
    | some tail => lead :: tail
    | none => [c]

def write (lead : α) (own : List α) (others : List (α × List α)) (text : List α) : List α :=
  text.flatMap (code lead own others)

/-- The replacements in their order, the lead's own last. -/
def read (lead : α) (own : List α) (others : List (α × List α)) (text : List α) : List α :=
  Text.replace (lead :: own) [lead]
    (others.foldl (fun text other => Text.replace (lead :: other.2) [other.1] text) text)

/-- The codes can be told apart, and the lead is in no tail. -/
structure Distinct (lead : α) (own : List α) (others : List (α × List α)) : Prop where
  own_free : lead ∉ own
  free : ∀ other ∈ others, lead ∉ other.2
  length : ∀ other ∈ others, other.2.length = own.length
  tails : (own :: others.map Prod.snd).Nodup
  keys : (lead :: others.map Prod.fst).Nodup

omit [DecidableEq α] in
theorem Distinct.rest {lead : α} {own : List α} {other : α × List α}
    {others : List (α × List α)} (h : Distinct lead own (other :: others)) :
    Distinct lead own others where
  own_free := h.own_free
  free o ho := h.free o (List.mem_cons_of_mem other ho)
  length o ho := h.length o (List.mem_cons_of_mem other ho)
  tails := h.tails.sublist ((List.sublist_cons_self _ _).cons_cons own)
  keys := h.keys.sublist ((List.sublist_cons_self _ _).cons_cons lead)

@[simp]
theorem write_cons (lead : α) (own : List α) (others : List (α × List α)) (c : α)
    (text : List α) :
    write lead own others (c :: text)
      = code lead own others c ++ write lead own others text :=
  List.flatMap_cons

theorem mem_of_lookup {c : α} {tail : List α} {others : List (α × List α)}
    (h : others.lookup c = some tail) : (c, tail) ∈ others := by
  induction others with
  | nil => cases h
  | cons other others ih =>
      rw [List.lookup_cons] at h
      split at h
      · next heq =>
          rw [← Option.some.inj h, beq_iff_eq.mp heq]
          exact List.mem_cons_self
      · exact List.mem_cons_of_mem other (ih h)

/-- One replacement takes one code out of a text. -/
theorem replace_write {lead c : α} {own tail : List α} {others : List (α × List α)}
    (h : Distinct lead own ((c, tail) :: others)) (text : List α) :
    Text.replace (lead :: tail) [c] (write lead own ((c, tail) :: others) text)
      = write lead own others text := by
  have hkeys := (List.nodup_cons.mp h.keys).1
  rw [List.map_cons, List.mem_cons, not_or] at hkeys
  have hlength := h.length (c, tail) List.mem_cons_self
  induction text with
  | nil => rfl
  | cons d text ih =>
      rw [write_cons, write_cons]
      unfold code
      split
      · -- the lead: its own code is still there
        have hne : tail ≠ own := by
          intro heq
          exact (List.nodup_cons.mp h.tails).1 (heq ▸ List.mem_cons_self)
        rw [Text.replace_other [c] _ h.own_free hlength hne, ih]
      · next hd =>
          rw [List.lookup_cons]
          cases hdc : d == c with
          | true =>
              -- the character whose code goes
              rw [beq_iff_eq] at hdc
              subst hdc
              have hnone : others.lookup d = none := by
                rw [Option.eq_none_iff_forall_ne_some]
                intro tail' hlookup
                have hmem := List.mem_map_of_mem (f := Prod.fst) (mem_of_lookup hlookup)
                exact (List.nodup_cons.mp (List.nodup_cons.mp h.keys).2).1 hmem
              rw [hnone]
              dsimp only
              rw [Text.replace_old, ih]
          | false =>
              cases hlookup : others.lookup d with
              | some other =>
                  have hmem := List.mem_cons_of_mem (c, tail) (mem_of_lookup hlookup)
                  have hne : tail ≠ other := by
                    rintro rfl
                    have hmem := List.mem_map_of_mem (f := Prod.snd) (mem_of_lookup hlookup)
                    exact (List.nodup_cons.mp (List.nodup_cons.mp h.tails).2).1 hmem
                  dsimp only
                  rw [Text.replace_other [c] _ (h.free _ hmem)
                    (hlength.trans (h.length _ hmem).symm) hne, ih]
              | none =>
                  dsimp only
                  rw [Text.replace_append tail [c] _
                    (fun hmem => hd (List.mem_singleton.mp hmem).symm), ih]

theorem replace_write_own {lead : α} {own : List α} (text : List α) :
    Text.replace (lead :: own) [lead] (write lead own [] text) = text := by
  induction text with
  | nil => rfl
  | cons d text ih =>
      rw [write_cons]
      unfold code
      split
      · next hd => rw [Text.replace_old, ih, hd, List.singleton_append]
      · next hd =>
          rw [List.lookup_nil]
          dsimp only
          rw [Text.replace_append own [lead] _
            (fun hmem => hd (List.mem_singleton.mp hmem).symm), ih, List.singleton_append]

/-- What was written is read back. -/
theorem read_write {lead : α} {own : List α} {others : List (α × List α)}
    (h : Distinct lead own others) (text : List α) :
    read lead own others (write lead own others text) = text := by
  unfold read
  induction others with
  | nil => exact replace_write_own text
  | cons other others ih =>
      rw [List.foldl_cons, replace_write h]
      exact ih h.rest

/-- A reader brings in no character but those that have a code. -/
theorem mem_read {lead : α} {own : List α} {others : List (α × List α)} {c : α}
    {text : List α} (h : c ∈ read lead own others text) :
    c ∈ text ∨ c = lead ∨ c ∈ others.map Prod.fst := by
  have hfold : ∀ (others : List (α × List α)) (text : List α),
      c ∈ others.foldl (fun text other => Text.replace (lead :: other.2) [other.1] text) text →
        c ∈ text ∨ c ∈ others.map Prod.fst := by
    intro others
    induction others with
    | nil => exact fun _ hmem => .inl hmem
    | cons other others ih =>
        intro text hmem
        rcases ih _ hmem with hmem | hmem
        · rcases Text.mem_replace hmem with hmem | hmem
          · exact .inl hmem
          · exact .inr (List.mem_cons.mpr (.inl (List.mem_singleton.mp hmem)))
        · exact .inr (List.mem_cons_of_mem _ hmem)
  rcases Text.mem_replace h with h | h
  · exact (hfold others text h).imp_right .inr
  · exact .inr (.inl (List.mem_singleton.mp h))

/-- A writer leaves no character that has a code, but for the lead and what is in
the tails. -/
theorem mem_write {lead : α} {own : List α} {others : List (α × List α)} {c : α}
    {text : List α} (h : c ∈ write lead own others text) :
    c = lead ∨ c ∈ own ∨ (∃ other ∈ others, c ∈ other.2) ∨
      c ∈ text ∧ c ∉ others.map Prod.fst := by
  obtain ⟨d, hd, hc⟩ := List.mem_flatMap.mp h
  unfold code at hc
  split at hc
  · rcases List.mem_cons.mp hc with rfl | hc
    · exact .inl rfl
    · exact .inr (.inl hc)
  · split at hc
    · next tail hlookup =>
        rcases List.mem_cons.mp hc with rfl | hc
        · exact .inl rfl
        · exact .inr (.inr (.inl ⟨(d, tail), mem_of_lookup hlookup, hc⟩))
    · next hlookup =>
        obtain rfl := List.mem_singleton.mp hc
        refine .inr (.inr (.inr ⟨hd, fun hmem => ?_⟩))
        obtain ⟨other, hother, rfl⟩ := List.mem_map.mp hmem
        rw [List.lookup_eq_none_iff] at hlookup
        simpa using hlookup other hother

end Escapes

end Spaces.Library
