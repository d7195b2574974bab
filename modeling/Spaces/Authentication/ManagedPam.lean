import Spaces.Library.LineEnds

/-!
# A block in a file that others write

`reconcile_managed_pam_file` puts the Spaces rule into a PAM file of the distribution, or
takes it out again. The file is read as text, the block goes in front of its first line,
or behind it if that is the header, and the block is taken out by looking for it.

Inserting cuts the text in two and removing joins the parts, so a file that knows
nothing of Spaces comes back as it was read. It may not have been read as it was. And
`splitlines` ends the header at line boundaries that PAM does not know: what follows one
of them was a part of a comment, and the block makes it a line of its own.
-/

namespace Spaces.Authentication.ManagedPam

open Spaces.Library Spaces.Library.Text Spaces.Library.Substring

def marker : Text := "# Managed by Spaces: host authentication".toList

def modulePath : Text := "/run/spaces-host/bin/pam_spaces.so".toList

def spacesRule : Text := "auth [success=done open_err=ignore default=die] ".toList ++ modulePath

def SPACES_PAM_BLOCK : Text := marker ++ '\n' :: (spacesRule ++ ['\n'])

def header : Text := "#%PAM-".toList

structure PamFile where
  content : Text
  mode : Nat
  deriving DecidableEq

inductive Raised
  | distributionError
  | osError
  deriving DecidableEq

/-- The file is replaced at once or not at all. -/
def atomicWrite (writable : Bool) (content : Text) (mode : Nat) (file : PamFile) :
    Except Raised Unit × PamFile :=
  if writable then (.ok (), ⟨content, mode⟩) else (.error .osError, file)

def insertBlock (content : Text) : Text :=
  let lines := splitlinesKeepends content
  let insertion := if (lines.head?).any (header.isPrefixOf ·) then 1 else 0
  (lines.insertIdx insertion SPACES_PAM_BLOCK).flatten

/-- From where `safe_file` has accepted the path, for a file that is UTF-8. -/
def reconcileManagedPamFile (writable enabled : Bool) (file : PamFile) :
    Except Raised Bool × PamFile :=
  let content := universalNewlines file.content
  let blockCount := count SPACES_PAM_BLOCK content
  let markerPresent := decide (marker <:+: content)
  let modulePresent := decide (modulePath <:+: content)
  if blockCount > 1 || (blockCount = 0 && (markerPresent || modulePresent)) then
    (.error .distributionError, file)
  else if enabled && blockCount = 1 then (.ok true, file)
  else if !enabled && blockCount = 0 then (.ok true, file)
  else
    let updated := if enabled then insertBlock content else removeFirst SPACES_PAM_BLOCK content
    match atomicWrite writable updated (file.mode &&& 0o777) file with
    | (.ok (), file) => (.ok true, file)
    | (.error e, file) => (.error e, file)

/-! ## What PAM reads of a file -/

/-- A line that is blank or a comment. -/
def skipped (line : Text) : Bool :=
  match line.dropWhile (fun c => c = ' ' || c = '\t') with
  | [] => true
  | c :: _ => c = '#'

/-- The rules of the lines, the first of which goes on with what is pending. -/
def joinRules : Option Text → List Text → List Text
  | pending, [] => pending.toList
  | pending, line :: rest =>
      if skipped line then joinRules pending rest
      else if line.getLast? = some '\\' then
        joinRules (some (pending.getD [] ++ (line.dropLast ++ [' ']))) rest
      else (pending.getD [] ++ line) :: joinRules none rest

def rules (content : Text) : List Text := joinRules none (lines content)

/-! ## What is asked of the function -/

/-- Nothing of Spaces is in the content. -/
def Clean (content : Text) : Prop := ¬ marker <:+: content ∧ ¬ modulePath <:+: content

/-- Something of the block is there, and it is not just the block. -/
def Damaged (content : Text) : Prop :=
  ¬ Clean content ∧ ¬ ∃ before after, content = before ++ SPACES_PAM_BLOCK ++ after ∧
    Clean before ∧ Clean after

structure Managed (file : PamFile) : Prop where
  reversible : Clean file.content → ∃ enabled disabled,
    reconcileManagedPamFile true true file = (.ok true, enabled) ∧
      reconcileManagedPamFile true false enabled = (.ok true, disabled) ∧
        disabled.content = file.content
  rules : Clean file.content → ∀ enabled,
    reconcileManagedPamFile true true file = (.ok true, enabled) →
      rules enabled.content = spacesRule :: rules file.content
  idempotent : ∀ way once, reconcileManagedPamFile true way file = (.ok true, once) →
    reconcileManagedPamFile true way once = (.ok true, once)
  rejected : Damaged file.content → ∀ writable way,
    reconcileManagedPamFile writable way file = (.error .distributionError, file)

/-- What stands in the first line behind a line boundary that does not end it for PAM. -/
def behindBoundary (content : Text) : Text :=
  match content.dropWhile (fun c => !isLineBreak c) with
  | [] => []
  | c :: rest => if c = '\n' then [] else firstLine rest

/-- The block, found once in what is read, is in the file as it is, and without it
nothing of Spaces is left. -/
def OneBlock (content : Text) : Prop :=
  SPACES_PAM_BLOCK <:+: content ∧
    Clean (removeFirst SPACES_PAM_BLOCK (universalNewlines content))

variable {content before after line : Text} {file : PamFile}

/-! ## The block in a text -/

def blockRest : Text := SPACES_PAM_BLOCK.tail

theorem marker_chars : marker = '#' :: marker.tail ∧ '#' ∉ marker.tail ∧ '\n' ∉ marker ∧
    '\r' ∉ marker ∧ ':' ∈ marker :=
  of_literal
    (fun text => text = '#' :: text.tail ∧ '#' ∉ text.tail ∧ '\n' ∉ text ∧ '\r' ∉ text ∧
      ':' ∈ text) rfl (by decide +kernel)

theorem modulePath_chars : '#' ∉ modulePath ∧ '\n' ∉ modulePath ∧ '\r' ∉ modulePath ∧
    '/' ∈ modulePath ∧ modulePath.getLast? = some 'o' :=
  of_literal
    (fun text => '#' ∉ text ∧ '\n' ∉ text ∧ '\r' ∉ text ∧ '/' ∈ text ∧
      text.getLast? = some 'o') rfl (by decide +kernel)

theorem spacesRule_start : ∃ start, spacesRule = 'a' :: (start ++ modulePath) ∧
    '#' ∉ start ∧ '\n' ∉ start ∧ '\r' ∉ start :=
  of_literal (fun text => ∃ start, text ++ modulePath = 'a' :: (start ++ modulePath) ∧
    '#' ∉ start ∧ '\n' ∉ start ∧ '\r' ∉ start) rfl ⟨_, rfl, by decide +kernel⟩

theorem header_chars : header = '#' :: header.tail ∧
    header.all (fun c => !isLineBreak c) = true :=
  of_literal (fun text => text = '#' :: text.tail ∧ text.all (fun c => !isLineBreak c) = true) rfl
    (by decide +kernel)

theorem spacesRule_chars : '#' ∉ spacesRule ∧ '\n' ∉ spacesRule ∧ '\r' ∉ spacesRule := by
  obtain ⟨start, hrule, hsharp, hnewline, hreturn⟩ := spacesRule_start
  obtain ⟨hmodule, hmodule', hmodule'', -⟩ := modulePath_chars
  rw [hrule]
  simp [*]

theorem block_eq : SPACES_PAM_BLOCK = '#' :: blockRest := by
  rw [blockRest, SPACES_PAM_BLOCK, marker_chars.1, List.cons_append, List.tail_cons]

theorem block_ne_nil : SPACES_PAM_BLOCK ≠ [] := by
  rw [block_eq]
  exact List.cons_ne_nil _ _

theorem block_headed : '#' ∉ blockRest := by
  have hrest : blockRest = marker.tail ++ '\n' :: (spacesRule ++ ['\n']) := by
    rw [blockRest, SPACES_PAM_BLOCK, marker_chars.1, List.cons_append, List.tail_cons,
      List.tail_cons]
  rw [hrest]
  simp [marker_chars.2.1, spacesRule_chars.1]

theorem return_not_mem_block : '\r' ∉ SPACES_PAM_BLOCK := by
  rw [SPACES_PAM_BLOCK]
  simp [marker_chars.2.2.2, spacesRule_chars.2.2]

theorem marker_infix_block : marker <:+: SPACES_PAM_BLOCK :=
  (List.prefix_append marker _).isInfix

theorem Clean.not_block (h : Clean content) : ¬ SPACES_PAM_BLOCK <:+: content :=
  fun hblock => h.1 (marker_infix_block.trans hblock)

/-- Without one character of each text neither of them is there. -/
theorem clean_of_not_mem (hcolon : ':' ∉ content) (hslash : '/' ∉ content) : Clean content :=
  ⟨fun hmarker => hcolon (hmarker.subset marker_chars.2.2.2.2),
    fun hmodule => hslash (hmodule.subset modulePath_chars.2.2.2.1)⟩

theorem Clean.mono (h : Clean content) (hpart : before <:+: content) : Clean before :=
  ⟨fun hin => h.1 (hin.trans hpart), fun hin => h.2 (hin.trans hpart)⟩

theorem clean_universalNewlines_iff : Clean (universalNewlines content) ↔ Clean content := by
  have hmarker : marker <:+: universalNewlines content ↔ marker <:+: content :=
    infix_universalNewlines_iff marker_chars.2.2.1 marker_chars.2.2.2.1
  have hmodule : modulePath <:+: universalNewlines content ↔ modulePath <:+: content :=
    infix_universalNewlines_iff modulePath_chars.2.1 modulePath_chars.2.2.1
  rw [Clean, Clean, hmarker, hmodule]

theorem Clean.count_eq_zero (h : Clean content) : count SPACES_PAM_BLOCK content = 0 :=
  (count_eq_zero_iff block_ne_nil).mpr h.not_block

theorem count_block (hbefore : ¬ SPACES_PAM_BLOCK <:+: before)
    (hafter : ¬ SPACES_PAM_BLOCK <:+: after) :
    count SPACES_PAM_BLOCK (before ++ SPACES_PAM_BLOCK ++ after) = 1 := by
  rw [block_eq] at hbefore hafter ⊢
  exact count_append block_headed hbefore hafter

theorem remove_block (hbefore : ¬ SPACES_PAM_BLOCK <:+: before) :
    removeFirst SPACES_PAM_BLOCK (before ++ SPACES_PAM_BLOCK ++ after) = before ++ after := by
  rw [block_eq] at hbefore ⊢
  exact removeFirst_append block_headed hbefore

theorem universalNewlines_block : universalNewlines (before ++ SPACES_PAM_BLOCK ++ after) =
    universalNewlines before ++ SPACES_PAM_BLOCK ++ universalNewlines after := by
  rw [List.append_assoc, List.append_assoc, ← universalNewlines_unbroken return_not_mem_block,
    block_eq, List.cons_append, universalNewlines_append (by decide)]

/-- A content with one block is that block between two clean parts. -/
theorem parts_of_oneBlock (hcount : count SPACES_PAM_BLOCK (universalNewlines content) = 1)
    (h : OneBlock content) : ∃ before after, content = before ++ SPACES_PAM_BLOCK ++ after ∧
      Clean before ∧ Clean after := by
  obtain ⟨⟨before, after, hparts⟩, hclean⟩ := h
  obtain ⟨x, y, hcut, hy⟩ := (count_eq_one_iff block_ne_nil).mp hcount
  rw [removeFirst_of_cutAt hcut] at hclean
  have heq : universalNewlines content =
      universalNewlines before ++ SPACES_PAM_BLOCK ++ universalNewlines after := by
    rw [← hparts, universalNewlines_block]
  rw [block_eq] at hcut hy heq
  obtain ⟨rfl, rfl⟩ := eq_of_cutAt block_headed hcut hy heq
  refine ⟨before, after, hparts.symm, ?_, ?_⟩
  · exact clean_universalNewlines_iff.mp (hclean.mono (List.prefix_append _ _).isInfix)
  · exact clean_universalNewlines_iff.mp (hclean.mono (List.suffix_append _ _).isInfix)

/-! ## What the function does -/

theorem reconcile_insert (h : Clean (universalNewlines file.content)) :
    reconcileManagedPamFile true true file =
      (.ok true, ⟨insertBlock (universalNewlines file.content), file.mode &&& 0o777⟩) := by
  simp [reconcileManagedPamFile, h.count_eq_zero, h.1, h.2, atomicWrite]

theorem reconcile_absent (writable : Bool) (h : Clean (universalNewlines file.content)) :
    reconcileManagedPamFile writable false file = (.ok true, file) := by
  simp [reconcileManagedPamFile, h.count_eq_zero, h.1, h.2]

theorem reconcile_present (writable : Bool)
    (h : count SPACES_PAM_BLOCK (universalNewlines file.content) = 1) :
    reconcileManagedPamFile writable true file = (.ok true, file) := by
  simp [reconcileManagedPamFile, h]

theorem reconcile_remove (h : count SPACES_PAM_BLOCK (universalNewlines file.content) = 1) :
    reconcileManagedPamFile true false file =
      (.ok true, ⟨removeFirst SPACES_PAM_BLOCK (universalNewlines file.content),
        file.mode &&& 0o777⟩) := by
  simp [reconcileManagedPamFile, h, atomicWrite]

theorem reconcile_refused (writable way : Bool) (h : ¬ Clean (universalNewlines file.content))
    (hcount : count SPACES_PAM_BLOCK (universalNewlines file.content) ≠ 1) :
    reconcileManagedPamFile writable way file = (.error .distributionError, file) := by
  have hpresent : count SPACES_PAM_BLOCK (universalNewlines file.content) = 0 →
      marker <:+: universalNewlines file.content ∨
        modulePath <:+: universalNewlines file.content := by
    intro _
    by_contra hnone
    exact h (not_or.mp hnone)
  unfold reconcileManagedPamFile
  rw [if_pos]
  rcases Nat.lt_or_ge 1 (count SPACES_PAM_BLOCK (universalNewlines file.content)) with hlt | hle
  · simp [hlt]
  · have hzero : count SPACES_PAM_BLOCK (universalNewlines file.content) = 0 := by omega
    simpa [hzero] using hpresent hzero

/-! ## Where the block goes -/

def unbroken (content : Text) : Text := content.takeWhile (fun c => !isLineBreak c)

/-- The first line with the line boundary that ends it, and the rest. -/
def firstKept (content : Text) : Text :=
  unbroken content ++ (content.dropWhile (fun c => !isLineBreak c)).take 1

def laterKept (content : Text) : Text := (content.dropWhile (fun c => !isLineBreak c)).tail

theorem firstKept_append (content : Text) : firstKept content ++ laterKept content = content := by
  rw [firstKept, laterKept, List.append_assoc, ← List.drop_one, List.take_append_drop,
    unbroken, List.takeWhile_append_dropWhile]

theorem isLineBreak_unbroken : ∀ c ∈ unbroken content, isLineBreak c = false := by
  intro c hc
  simpa using List.mem_takeWhile_imp hc

theorem header_prefix_unbroken (h : header <+: content) : header <+: unbroken content := by
  obtain ⟨rest, rfl⟩ := h
  rw [unbroken, List.takeWhile_append_of_pos (List.all_eq_true.mp header_chars.2)]
  exact List.prefix_append _ _

theorem splitlinesKeepends_eq (h : '\r' ∉ content) (hne : content ≠ []) :
    ∃ others, splitlinesKeepends content = firstKept content :: others := by
  have hcontent : unbroken content ++ content.dropWhile (fun c => !isLineBreak c) = content :=
    List.takeWhile_append_dropWhile
  have hkept : splitlinesKeepends content =
      keependsFrom (unbroken content) (content.dropWhile (fun c => !isLineBreak c)) := by
    rw [splitlinesKeepends]
    nth_rewrite 1 [← hcontent]
    rw [keependsFrom_unbroken isLineBreak_unbroken, List.nil_append]
  cases hrest : content.dropWhile (fun c => !isLineBreak c) with
  | nil =>
      rw [hrest, List.append_nil] at hcontent
      rw [hkept, firstKept, hrest, hcontent, keependsFrom, if_neg hne]
      exact ⟨[], by rw [List.take_nil, List.append_nil]⟩
  | cons c rest =>
      have hbreak : isLineBreak c = true := by
        have hhead := List.head_dropWhile_not (fun c => !isLineBreak c)
          (l := content) (by rw [hrest]; exact List.cons_ne_nil c rest)
        simpa [hrest] using hhead
      have hc : c ≠ '\r' := by
        rintro rfl
        exact h (hcontent ▸ hrest ▸ List.mem_append_right _ List.mem_cons_self)
      rw [hkept, firstKept, hrest, keependsFrom_break hbreak hc]
      exact ⟨_, rfl⟩

theorem insertBlock_of_header (h : header <+: content) (hreturn : '\r' ∉ content) :
    insertBlock content = firstKept content ++ SPACES_PAM_BLOCK ++ laterKept content := by
  have hne : content ≠ [] := by
    rintro rfl
    exact absurd (header_chars.1.symm.trans (List.prefix_nil.mp h)) (List.cons_ne_nil _ _)
  obtain ⟨others, hlines⟩ := splitlinesKeepends_eq hreturn hne
  have hothers : others.flatten = laterKept content := by
    have hall := flatten_splitlinesKeepends content
    rw [hlines, List.flatten_cons] at hall
    exact List.append_cancel_left (hall.trans (firstKept_append content).symm)
  have hfirst : header.isPrefixOf (firstKept content) = true :=
    List.isPrefixOf_iff_prefix.mpr
      ((header_prefix_unbroken h).trans (List.prefix_append _ _))
  simp [insertBlock, hlines, hfirst, hothers]

theorem insertBlock_of_not_header (h : ¬ header <+: content) :
    insertBlock content = SPACES_PAM_BLOCK ++ content := by
  have hfirst : ((splitlinesKeepends content).head?).any (header.isPrefixOf ·) = false := by
    have hall := flatten_splitlinesKeepends content
    cases hlines : splitlinesKeepends content with
    | nil => rfl
    | cons line others =>
        rw [hlines, List.flatten_cons] at hall
        rw [List.head?_cons, Option.any_some, Bool.eq_false_iff, Ne, List.isPrefixOf_iff_prefix]
        exact fun hline => h (hline.trans ⟨_, hall⟩)
  simp [insertBlock, hfirst, flatten_splitlinesKeepends]

/-- The block is put between two parts of the content. -/
theorem insertBlock_parts (hreturn : '\r' ∉ content) : ∃ before after,
    content = before ++ after ∧ insertBlock content = before ++ SPACES_PAM_BLOCK ++ after := by
  by_cases h : header <+: content
  · exact ⟨_, _, (firstKept_append content).symm, insertBlock_of_header h hreturn⟩
  · exact ⟨[], content, rfl, insertBlock_of_not_header h⟩

/-! ## Which rules there are -/

theorem header_sharp : ['#'] <+: header := ⟨header.tail, header_chars.1.symm⟩

theorem skipped_of_comment (h : ['#'] <+: line) : skipped line = true := by
  obtain ⟨rest, rfl⟩ := h
  rfl

/-- What is pending goes to the front of the first rule, or is a rule by itself. -/
theorem joinRules_append (pending : Option Text) (front : Text) (rest : List Text) :
    joinRules (some (front ++ pending.getD [])) rest =
      match joinRules pending rest with
      | [] => [front]
      | rule :: others => (front ++ rule) :: others := by
  induction rest generalizing pending with
  | nil => cases pending <;> simp [joinRules]
  | cons line rest ih =>
      rw [joinRules, joinRules]
      split
      · exact ih pending
      · split
        · rw [Option.getD_some, List.append_assoc]
          exact ih (some _)
        · simp

/-- A line that is not skipped changes the rules. -/
theorem joinRules_cons_eq_iff (line : Text) (rest : List Text) :
    joinRules none (line :: rest) = joinRules none rest ↔ skipped line = true := by
  rw [joinRules]
  split
  · next hskipped => exact iff_of_true rfl hskipped
  · next hskipped =>
      refine iff_of_false (fun heq => ?_) hskipped
      split at heq
      · -- the line goes to the front of the next rule, and is not empty
        have hjoined := joinRules_append none (line.dropLast ++ [' ']) rest
        simp only [Option.getD_none, List.append_nil] at hjoined
        rw [Option.getD_none, List.nil_append, hjoined] at heq
        cases hrules : joinRules none rest with
        | nil => simp [hrules] at heq
        | cons rule others =>
            simp only [hrules, List.cons.injEq, and_true] at heq
            have hlength := congrArg List.length heq
            simp only [List.length_append, List.length_cons] at hlength
            omega
      · exact List.cons_ne_self _ _ heq

theorem lines_break (h : '\n' ∉ line) (after : Text) :
    lines (line ++ '\n' :: after) = line :: lines after :=
  List.splitOn_append_cons_self_of_not_mem h _

theorem lines_block (h : '\n' ∉ before) (after : Text) :
    lines (before ++ SPACES_PAM_BLOCK ++ after) =
      (before ++ marker) :: spacesRule :: lines after := by
  have hmarker : '\n' ∉ before ++ marker := by
    rw [List.mem_append, not_or]
    exact ⟨h, marker_chars.2.2.1⟩
  have heq : before ++ SPACES_PAM_BLOCK ++ after =
      (before ++ marker) ++ '\n' :: (spacesRule ++ '\n' :: after) := by
    simp [SPACES_PAM_BLOCK]
  rw [heq, lines_break hmarker, lines_break spacesRule_chars.2.1]

theorem joinRules_spacesRule (rest : List Text) :
    joinRules none (spacesRule :: rest) = spacesRule :: joinRules none rest := by
  obtain ⟨start, hrule, -⟩ := spacesRule_start
  have hskipped : skipped spacesRule = false := by
    rw [hrule]
    rfl
  have hlast : spacesRule.getLast? ≠ some '\\' := by
    rw [hrule, ← List.cons_append, List.getLast?_append, modulePath_chars.2.2.2.2]
    simp
  rw [joinRules, hskipped, if_neg Bool.false_ne_true, if_neg hlast]
  rfl

theorem joinRules_skip (h : skipped line = true) (pending : Option Text) (rest : List Text) :
    joinRules pending (line :: rest) = joinRules pending rest := by
  rw [joinRules, if_pos h]

theorem rules_block (after : Text) :
    rules (SPACES_PAM_BLOCK ++ after) = spacesRule :: rules after := by
  have hmarker : skipped ([] ++ marker) = true := by
    rw [List.nil_append]
    exact skipped_of_comment ⟨marker.tail, marker_chars.1.symm⟩
  rw [← List.nil_append SPACES_PAM_BLOCK, rules, lines_block List.not_mem_nil,
    joinRules_skip hmarker, joinRules_spacesRule, rules]

/-- A comment that the block was put behind goes on into its first line. -/
theorem rules_comment_block (hsharp : ['#'] <+: before) (h : '\n' ∉ before) (after : Text) :
    rules (before ++ SPACES_PAM_BLOCK ++ after) = spacesRule :: rules after := by
  have hmarker : skipped (before ++ marker) = true :=
    skipped_of_comment (hsharp.trans (List.prefix_append _ _))
  rw [rules, lines_block h, joinRules_skip hmarker, joinRules_spacesRule, rules]

theorem rules_comment (hsharp : ['#'] <+: before) (h : '\n' ∉ before) (after : Text) :
    rules (before ++ after) = joinRules none (laterLines after) := by
  have hline : skipped (before ++ firstLine after) = true :=
    skipped_of_comment (hsharp.trans (List.prefix_append _ _))
  rw [rules, lines_append h, joinRules_skip hline]

theorem laterLines_newline (after : Text) : laterLines ('\n' :: after) = lines after := by
  have hlines := lines_break List.not_mem_nil after
  rw [List.nil_append] at hlines
  rw [laterLines, hlines, List.tail_cons]

theorem rules_insertBlock_iff (hreturn : '\r' ∉ content) :
    rules (insertBlock content) = spacesRule :: rules content ↔
      (header <+: content → skipped (behindBoundary content) = true) := by
  by_cases h : header <+: content
  · have hsharp : ['#'] <+: unbroken content := header_sharp.trans (header_prefix_unbroken h)
    have hnewline : '\n' ∉ unbroken content := fun hmem =>
      absurd (isLineBreak_unbroken '\n' hmem) (by decide)
    have hrules : rules content =
        joinRules none (laterLines (content.dropWhile (fun c => !isLineBreak c))) := by
      rw [← rules_comment hsharp hnewline, unbroken, List.takeWhile_append_dropWhile]
    rw [insertBlock_of_header h hreturn, hrules, firstKept, laterKept, behindBoundary]
    cases content.dropWhile (fun c => !isLineBreak c) with
    | nil =>
        rw [List.take_nil, List.append_nil, rules_comment_block hsharp hnewline]
        exact iff_of_true rfl (fun _ => rfl)
    | cons c rest =>
        rw [List.take_succ_cons, List.take_zero, List.tail_cons]
        dsimp only
        by_cases hc : c = '\n'
        · rw [if_pos hc, hc, List.append_assoc, List.append_assoc, List.singleton_append,
            rules_comment hsharp hnewline, laterLines_newline, laterLines_newline, ← rules,
            rules_block, rules]
          exact iff_of_true rfl (fun _ => rfl)
        · -- the rest of the line was part of the comment
          have hbehind : '\n' ∉ [c] := fun hmem => hc (List.mem_singleton.mp hmem).symm
          have hline : '\n' ∉ unbroken content ++ [c] := by
            rw [List.mem_append, not_or]
            exact ⟨hnewline, hbehind⟩
          have hlater : laterLines (c :: rest) = laterLines rest := by
            have hlines := lines_append hbehind rest
            rw [List.singleton_append] at hlines
            rw [laterLines, hlines, List.tail_cons]
          rw [if_neg hc, rules_comment_block (hsharp.trans (List.prefix_append _ _)) hline, hlater,
            rules, lines_eq, List.cons.injEq, joinRules_cons_eq_iff]
          exact ⟨fun hskipped _ => hskipped.2, fun hskipped => ⟨rfl, hskipped h⟩⟩
  · rw [insertBlock_of_not_header h, rules_block]
    exact iff_of_true rfl (fun hheader => absurd hheader h)

/-! ## Inserting, removing, and inserting again -/

/-- What a clean content is with the block in it. -/
theorem enabled_facts (h : Clean content) (hreturn : '\r' ∉ content) :
    universalNewlines (insertBlock content) = insertBlock content ∧
      count SPACES_PAM_BLOCK (insertBlock content) = 1 ∧
        removeFirst SPACES_PAM_BLOCK (insertBlock content) = content := by
  obtain ⟨before, after, rfl, hinsert⟩ := insertBlock_parts hreturn
  have hbefore := h.mono (List.prefix_append before after).isInfix
  have hafter := h.mono (List.suffix_append before after).isInfix
  rw [hinsert]
  refine ⟨universalNewlines_eq ?_, count_block hbefore.not_block hafter.not_block,
    remove_block hbefore.not_block⟩
  rw [List.mem_append, not_or] at hreturn
  simp only [List.mem_append, not_or]
  exact ⟨⟨hreturn.1, return_not_mem_block⟩, hreturn.2⟩

/-- The content comes back as it was read. -/
theorem reconcile_enabled_disabled (h : Clean file.content) : ∃ enabled disabled,
    reconcileManagedPamFile true true file = (.ok true, enabled) ∧
      reconcileManagedPamFile true false enabled = (.ok true, disabled) ∧
        disabled.content = universalNewlines file.content := by
  have hread : Clean (universalNewlines file.content) := clean_universalNewlines_iff.mpr h
  obtain ⟨hnewlines, hcount, hremove⟩ :=
    enabled_facts hread (return_not_mem_universalNewlines file.content)
  refine ⟨_, _, reconcile_insert hread, reconcile_remove ?_, ?_⟩
  · rw [hnewlines, hcount]
  · rw [hnewlines, hremove]

theorem removeFirst_ne (h : count SPACES_PAM_BLOCK content = 1) :
    removeFirst SPACES_PAM_BLOCK content ≠ content := by
  obtain ⟨before, after, hcut, -⟩ := (count_eq_one_iff block_ne_nil).mp h
  intro heq
  rw [removeFirst_of_cutAt hcut, cutAt_eq_some hcut] at heq
  have hlength := congrArg List.length heq
  have hpos := List.length_pos_of_ne_nil block_ne_nil
  simp only [List.length_append] at hlength
  omega

theorem return_not_mem_removeFirst (h : '\r' ∉ content) :
    '\r' ∉ removeFirst SPACES_PAM_BLOCK content := by
  unfold removeFirst
  cases hcut : cutAt SPACES_PAM_BLOCK content with
  | none => exact h
  | some parts =>
      rw [cutAt_eq_some hcut] at h
      simp only [List.mem_append, not_or] at h ⊢
      exact ⟨h.1.1, h.2⟩

theorem universalNewlines_removed (content : Text) :
    universalNewlines (removeFirst SPACES_PAM_BLOCK (universalNewlines content)) =
      removeFirst SPACES_PAM_BLOCK (universalNewlines content) :=
  universalNewlines_eq
    (return_not_mem_removeFirst (return_not_mem_universalNewlines content))

/-- Removing a block once and for all needs that nothing of Spaces is left. -/
theorem removed_again_iff {mode : Nat} :
    reconcileManagedPamFile true false
        ⟨removeFirst SPACES_PAM_BLOCK (universalNewlines content), mode⟩ =
      (.ok true, ⟨removeFirst SPACES_PAM_BLOCK (universalNewlines content), mode⟩) ↔
    Clean (removeFirst SPACES_PAM_BLOCK (universalNewlines content)) := by
  have hread := universalNewlines_removed content
  constructor
  · intro hagain
    by_contra hclean
    rw [← hread] at hclean
    by_cases hcount : count SPACES_PAM_BLOCK
        (universalNewlines (removeFirst SPACES_PAM_BLOCK (universalNewlines content))) = 1
    · rw [reconcile_remove hcount] at hagain
      simp only [Prod.mk.injEq, true_and, PamFile.mk.injEq] at hagain
      rw [hread] at hagain hcount
      exact removeFirst_ne hcount hagain.1
    · rw [reconcile_refused true false hclean hcount] at hagain
      cases hagain
  · intro hclean
    exact reconcile_absent true (hread.symm ▸ hclean)

theorem not_clean_of_count (h : count SPACES_PAM_BLOCK content = 1) : ¬ Clean content := by
  intro hclean
  rw [hclean.count_eq_zero] at h
  cases h

theorem Managed.oneBlock (h : Managed file)
    (hcount : count SPACES_PAM_BLOCK (universalNewlines file.content) = 1) :
    OneBlock file.content := by
  constructor
  · by_contra hblock
    have hdamaged : Damaged file.content := by
      refine ⟨fun hclean => not_clean_of_count hcount (clean_universalNewlines_iff.mpr hclean), ?_⟩
      rintro ⟨before, after, hparts, -⟩
      exact hblock ⟨before, after, hparts.symm⟩
    have hrefused := h.rejected hdamaged true true
    rw [reconcile_present true hcount] at hrefused
    cases hrefused
  · exact removed_again_iff.mp (h.idempotent false _ (reconcile_remove hcount))

theorem Managed.of_clean (h : Managed file) (hclean : Clean file.content) :
    '\r' ∉ file.content ∧
      (header <+: file.content → skipped (behindBoundary file.content) = true) := by
  obtain ⟨enabled, disabled, henabled, hdisabled, hback⟩ := reconcile_enabled_disabled hclean
  obtain ⟨enabled', disabled', henabled', hdisabled', hsame⟩ := h.reversible hclean
  rw [henabled] at henabled'
  cases henabled'
  rw [hdisabled] at hdisabled'
  cases hdisabled'
  have hread : universalNewlines file.content = file.content := hback.symm.trans hsame
  have hreturn : '\r' ∉ file.content :=
    hread ▸ return_not_mem_universalNewlines file.content
  have hrules := h.rules hclean _ (reconcile_insert (clean_universalNewlines_iff.mpr hclean))
  rw [hread] at hrules
  exact ⟨hreturn, (rules_insertBlock_iff hreturn).mp hrules⟩

theorem managed_idempotent
    (h : count SPACES_PAM_BLOCK (universalNewlines file.content) = 1 → OneBlock file.content)
    {way : Bool} {once : PamFile}
    (honce : reconcileManagedPamFile true way file = (.ok true, once)) :
    reconcileManagedPamFile true way once = (.ok true, once) := by
  by_cases hcount : count SPACES_PAM_BLOCK (universalNewlines file.content) = 1
  · cases way with
    | true =>
        rw [reconcile_present true hcount] at honce
        cases honce
        exact reconcile_present true hcount
    | false =>
        rw [reconcile_remove hcount] at honce
        cases honce
        exact removed_again_iff.mpr (h hcount).2
  · by_cases hclean : Clean (universalNewlines file.content)
    · cases way with
      | true =>
          rw [reconcile_insert hclean] at honce
          cases honce
          obtain ⟨hnewlines, hone, -⟩ :=
            enabled_facts hclean (return_not_mem_universalNewlines file.content)
          refine reconcile_present true ?_
          rw [hnewlines, hone]
      | false =>
          rw [reconcile_absent true hclean] at honce
          cases honce
          exact reconcile_absent true hclean
    · rw [reconcile_refused true way hclean hcount] at honce
      cases honce

/-- The function does what is asked of it where a clean file has no return, and behind
the header nothing that its line hides, and where a block that is found is all of Spaces
that there is. -/
theorem managed_iff (file : PamFile) : Managed file ↔
    (Clean file.content → '\r' ∉ file.content ∧
      (header <+: file.content → skipped (behindBoundary file.content) = true)) ∧
    (count SPACES_PAM_BLOCK (universalNewlines file.content) = 1 → OneBlock file.content) := by
  constructor
  · intro h
    exact ⟨h.of_clean, h.oneBlock⟩
  · rintro ⟨hclean, hone⟩
    refine ⟨fun h => ?_, fun h enabled henabled => ?_, fun way once => managed_idempotent hone, ?_⟩
    · have hback := reconcile_enabled_disabled h
      rwa [universalNewlines_eq (hclean h).1] at hback
    · have hread := universalNewlines_eq (hclean h).1
      rw [reconcile_insert (clean_universalNewlines_iff.mpr h), hread] at henabled
      cases henabled
      exact (rules_insertBlock_iff (hclean h).1).mpr (hclean h).2
    · intro hdamaged writable way
      refine reconcile_refused writable way (fun h => hdamaged.1 ?_) (fun hcount => hdamaged.2 ?_)
      · exact clean_universalNewlines_iff.mp h
      · exact parts_of_oneBlock hcount (hone hcount)

/-- A file with the line ends of another system, a header whose line goes on behind a
form feed, and a block with another marker behind it. -/
theorem three_not_managed :
    ¬ Managed ⟨"auth required pam_unix.so\x0d\n".toList, 0o644⟩ ∧
      ¬ Managed ⟨"#%PAM-1.0\x0cauth required pam_deny.so\n".toList, 0o644⟩ ∧
        ¬ Managed ⟨SPACES_PAM_BLOCK ++ marker, 0o644⟩ := by
  refine ⟨fun h => ?_, fun h => ?_, fun h => ?_⟩
  · obtain ⟨hcolon, hslash, hreturn⟩ : ':' ∉ "auth required pam_unix.so\x0d\n".toList ∧
        '/' ∉ "auth required pam_unix.so\x0d\n".toList ∧
          '\r' ∈ "auth required pam_unix.so\x0d\n".toList :=
      of_literal (fun text => ':' ∉ text ∧ '/' ∉ text ∧ '\r' ∈ text) rfl (by decide +kernel)
    exact (h.of_clean (clean_of_not_mem hcolon hslash)).1 hreturn
  · obtain ⟨hcolon, hslash, hstart, hskipped⟩ :
        ':' ∉ "#%PAM-1.0\x0cauth required pam_deny.so\n".toList ∧
          '/' ∉ "#%PAM-1.0\x0cauth required pam_deny.so\n".toList ∧
            "#%PAM-".toList <+: "#%PAM-1.0\x0cauth required pam_deny.so\n".toList ∧
              skipped (behindBoundary "#%PAM-1.0\x0cauth required pam_deny.so\n".toList) =
                false :=
      of_literal (fun text => ':' ∉ text ∧ '/' ∉ text ∧ "#%PAM-".toList <+: text ∧
        skipped (behindBoundary text) = false) rfl (by decide +kernel)
    have hread := (h.of_clean (clean_of_not_mem hcolon hslash)).2 hstart
    rw [hskipped] at hread
    cases hread
  · have hmarker : ¬ SPACES_PAM_BLOCK <:+: marker := by
      intro hin
      refine marker_chars.2.2.1 (hin.subset ?_)
      rw [SPACES_PAM_BLOCK]
      exact List.mem_append_right _ List.mem_cons_self
    have hnil : ¬ SPACES_PAM_BLOCK <:+: [] := fun hin => block_ne_nil (List.infix_nil.mp hin)
    have hread : universalNewlines (SPACES_PAM_BLOCK ++ marker) =
        [] ++ SPACES_PAM_BLOCK ++ marker := by
      rw [List.nil_append, universalNewlines_eq]
      rw [List.mem_append, not_or]
      exact ⟨return_not_mem_block, marker_chars.2.2.2.1⟩
    have hcount := count_block hnil hmarker
    rw [← hread] at hcount
    have hclean := (h.oneBlock hcount).2
    rw [hread, remove_block hnil] at hclean
    exact hclean.1 (List.infix_refl marker)

end Spaces.Authentication.ManagedPam
