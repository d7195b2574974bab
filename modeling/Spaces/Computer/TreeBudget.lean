import Mathlib.Algebra.Order.Floor.Semiring
import Mathlib.Data.Rat.Floor
import Spaces.Computer.CompactTree
import Spaces.Library.Budget
import Spaces.Library.JsonWriter

/-!
# The budget of an observation

A window is observed as a text with one line for each row of its compacted tree,
in a JSON object with what else is known of the window. `limitTreeOutput` adds
lines as long as the encoded object stays within `treeBytes`. It sets out from
the object with the warning in it that goes with a cut, and with an empty text.

The warning takes the place of the members `truncated` and
`accessibility_error`. So the count falls short where a tree brings a longer one
of these along and is not cut. The trees that are collected bring none.
-/

namespace Spaces.Computer.Accessibility

open Spaces.Library
open Spaces.Library.Json (putMember writeString memberSize membersSize encodedSize escapedLength
  membersSize_putMember membersSize_filter filter_putMember_ne encodedSize_obj putMember_ne_nil)

def treeBytes : Nat := 512 * 1024

structure Frame where
  x : Rat
  y : Rat
  width : Rat
  height : Rat
  deriving DecidableEq, Inhabited

/-- A row with what only its line shows. -/
structure TreeRow extends Row where
  /-- The value, when it is a number. -/
  current : Option Rat := none
  minimum : Option Rat := none
  maximum : Option Rat := none
  actions : List Text := []
  enabled : Bool := true
  focused : Bool := false
  selected : Bool := false
  checked : Bool := false
  isProtected : Bool := false
  frame : Option Frame := none
  deriving DecidableEq, Inhabited

/-! ## The line of a row -/

variable (real : Rat → Text) (includeFrame : Bool)

/-- The nearest integer, the one away from zero of two. -/
def rounded (value : Rat) : Int :=
  if value < 0 then -⌊-value + 1 / 2⌋ else ⌊value + 1 / 2⌋

def appendResultFrame (frame : Frame) : Text :=
  '[' :: [','].intercalate
    ([frame.x, frame.y, frame.width, frame.height].map fun v => Json.writeInt (rounded v)) ++ [']']

/-- The value of a row: a number, or else a text. -/
def writtenValue (row : TreeRow) : Option Text :=
  match row.current with
  | some number => some (real number)
  | none => row.value.map writeString

def writtenField (name : String) : Option Text → Text
  | some value => ' ' :: name.toList ++ '=' :: value
  | none => []

def shownActions (row : TreeRow) : List Text :=
  row.actions.filter fun name => name = "type_text".toList || name = "set_value".toList

def shownFlags (row : TreeRow) : List Text :=
  [(!row.enabled, "disabled"), (row.focused, "focused"), (row.selected, "selected"),
    (row.checked, "checked"), (row.isProtected, "protected"),
    (row.textTruncated, "text_truncated")].filterMap fun flag =>
      if flag.1 then some flag.2.toList else none

def appendTreeRow (row : TreeRow) : Text :=
  List.replicate (row.depth * 2) ' '
    ++ (match row.elementId with
        | some id => '[' :: Nat.toDigits 10 id ++ "] ".toList
        | none => [])
    ++ row.role.getD "unknown".toList ++ [' ']
    ++ (match row.label with
        | some label => writeString label
        | none => "null".toList)
    ++ writtenField "value" (writtenValue real row)
    ++ writtenField "minimum" (row.minimum.map real)
    ++ writtenField "maximum" (row.maximum.map real)
    ++ (shownActions row ++ shownFlags row).flatMap (' ' :: ·)
    ++ (match row.frame with
        | some frame => if includeFrame then " frame=".toList ++ appendResultFrame frame else []
        | none => [])
    ++ ['\n']

/-! ## The rows that are observed -/

/-- `compactTextRows` on the whole rows. -/
def compactTreeRows (rows : List TreeRow) : List TreeRow :=
  let plain := rows.map TreeRow.toRow
  ((retained (distill plain) rows.length).zip (compactTextRows plain)).map fun kept =>
    { rows.getD kept.1 default with toRow := kept.2 }

/-- Two prose rows that follow one another and are read in one. -/
def sameRun (row next : TreeRow) : Bool :=
  proseRow row.toRow && proseRow next.toRow
    && row.parentIndex = next.parentIndex && row.depth = next.depth

/-- A run of prose is one row, and none where it says next to nothing. -/
def proseTextRun (first : TreeRow) (run : List TreeRow) : Option TreeRow :=
  let prose := joinTexts (run.map fun row => proseText row.toRow)
  if 5 ≤ prose.length then
    some { first with
      role := some "text".toList
      label := some prose
      value := none
      current := none
      textTruncated := run.any (·.textTruncated) }
  else none

def observedRow (run : List TreeRow) : Option TreeRow :=
  match run with
  | [] => none
  | first :: _ => if proseRow first.toRow then proseTextRun first run else some first

/-- The depth of the rows of a run, from the levels below the rows before. -/
def depthAt (levels : List Nat) (run : List TreeRow) : Nat :=
  match run with
  | [] => 0
  | first :: _ => if 0 ≤ first.parentIndex then levels.getD first.parentIndex.toNat 0 else 0

/-- The levels below the rows up to the end of a run. -/
def levelsAfter (levels : List Nat) (run : List TreeRow) : List Nat :=
  levels ++ List.replicate run.length
    (depthAt levels run + if (observedRow run).isSome then 1 else 0)

/-- The line of a run. -/
def runLine (levels : List Nat) (run : List TreeRow) : Option Text :=
  (observedRow run).map fun row =>
    appendTreeRow real includeFrame { row with depth := depthAt levels run }

/-- The lines of all the runs. -/
def renderRuns : List Nat → List (List TreeRow) → List Text
  | _, [] => []
  | levels, run :: runs =>
      (runLine real includeFrame levels run).toList ++ renderRuns (levelsAfter levels run) runs

def renderedRows (rows : List TreeRow) : List Text :=
  renderRuns real includeFrame [] ((compactTreeRows rows).splitBy sameRun)

/-! ## The budget -/

/-- The lines that are added, and whether one was left. -/
def limitRuns : List Nat → Nat → List (List TreeRow) → List Text × Bool
  | _, _, [] => ([], false)
  | levels, bytes, run :: runs =>
      match runLine real includeFrame levels run with
      | none => limitRuns (levelsAfter levels run) bytes runs
      | some line =>
          -- the line as a string of its own, without the quotes
          let lineBytes := encodedSize real (.str (String.ofList line)) - 2
          if treeBytes < bytes + lineBytes then ([], true)
          else
            let later := limitRuns (levelsAfter levels run) (bytes + lineBytes) runs
            (line :: later.1, later.2)

/-- An observed window: its members other than `elements`, and its rows. -/
structure Tree where
  members : List (String × Json)
  nodup : (members.map Prod.fst).Nodup
  elements : Option (List TreeRow)

def treeResponseBudget : String :=
  "This window exceeds the accessibility response budget. The partial tree's elements remain usable."

def limitation : Json :=
  .obj [("code", .str "accessibility_tree_too_complex"), ("hint", .str treeResponseBudget)]

def markTreeComplex (members : List (String × Json)) : List (String × Json) :=
  putMember "accessibility_error" limitation (putMember "truncated" (.bool true) members)

/-- What is there before any line: the warning, and an empty text. -/
def reservedMembers (tree : Tree) : List (String × Json) :=
  let metadata := tree.members.foldl (fun copy member => putMember member.1 member.2 copy) []
  putMember "tree_markdown" (.str "") (markTreeComplex metadata)

def limitTreeOutput (tree : Tree) : List (String × Json) :=
  match tree.elements with
  | none => tree.members
  | some rows =>
      let bytes := encodedSize real (.obj (reservedMembers tree))
      let limited := limitRuns real includeFrame [] bytes ((compactTreeRows rows).splitBy sameRun)
      putMember "tree_markdown" (.str (String.ofList limited.1.flatten))
        (if limited.2 then markTreeComplex tree.members else tree.members)

/-! ## The lines fill the budget -/

variable {real includeFrame}

theorem limitRuns_eq_fill (levels : List Nat) (bytes : Nat) (runs : List (List TreeRow)) :
    limitRuns real includeFrame levels bytes runs
      = fill escapedLength treeBytes bytes (renderRuns real includeFrame levels runs) := by
  induction runs generalizing levels bytes with
  | nil => rfl
  | cons run runs ih =>
      rw [limitRuns, renderRuns]
      cases hline : runLine real includeFrame levels run with
      | none => exact ih _ _
      | some line =>
          have hbytes : encodedSize real (.str (String.ofList line)) - 2 = escapedLength line := by
            rw [Json.encodedSize_str, String.toList_ofList, Nat.add_sub_cancel]
          simp only [hbytes, Option.toList_some, List.singleton_append, fill]
          split
          · rfl
          · rw [ih]

/-- The lines of an observation. -/
def keptRows (real : Rat → Text) (includeFrame : Bool) (tree : Tree) (rows : List TreeRow) :
    List Text × Bool :=
  fill escapedLength treeBytes (encodedSize real (.obj (reservedMembers tree)))
    (renderedRows real includeFrame rows)

theorem limitTreeOutput_eq {tree : Tree} {rows : List TreeRow} (h : tree.elements = some rows) :
    limitTreeOutput real includeFrame tree
      = putMember "tree_markdown"
          (.str (String.ofList (keptRows real includeFrame tree rows).1.flatten))
          (if (keptRows real includeFrame tree rows).2 then markTreeComplex tree.members
            else tree.members) := by
  unfold limitTreeOutput
  rw [h]
  simp only [limitRuns_eq_fill]
  rfl

theorem reservedMembers_eq (tree : Tree) :
    reservedMembers tree = putMember "tree_markdown" (.str "") (markTreeComplex tree.members) := by
  have hcopy : tree.members.foldl (fun copy member => putMember member.1 member.2 copy) []
      = tree.members := Json.foldl_putMember tree.nodup
  simp only [reservedMembers, hcopy]

variable (real) in
/-- Members with the tree text take the bytes of the text more than with an empty one. -/
theorem membersSize_treeText (members : List (String × Json)) (text : Text) :
    membersSize real (putMember "tree_markdown" (.str (String.ofList text)) members)
      = membersSize real (putMember "tree_markdown" (.str "") members) + escapedLength text := by
  have hempty : escapedLength "".toList = 0 := rfl
  have htext : (String.ofList text).toList = text := String.toList_ofList
  rw [membersSize_putMember, membersSize_putMember, memberSize, memberSize, Json.encodedSize_str,
    Json.encodedSize_str, htext, hempty]
  dsimp only
  omega

/-! ## The members the warning comes for -/

/-- The members that a warning replaces. -/
def ownWarning (members : List (String × Json)) : List (String × Json) :=
  members.filter fun m => m.1 = "truncated" || m.1 = "accessibility_error"

def truncationWarning : List (String × Json) :=
  [("truncated", .bool true), ("accessibility_error", limitation)]

variable (real) in
theorem membersSize_markTreeComplex (members : List (String × Json)) :
    membersSize real (markTreeComplex members) + membersSize real (ownWarning members)
      = membersSize real members + membersSize real truncationWarning := by
  have hothers : (members.filter (·.1 ≠ "accessibility_error")).filter (·.1 ≠ "truncated")
      = members.filter fun m => !(m.1 = "truncated" || m.1 = "accessibility_error") := by
    rw [List.filter_filter]
    refine List.filter_congr fun m _ => ?_
    simp
  have hsplit := membersSize_filter real
    (fun m => m.1 = "truncated" || m.1 = "accessibility_error") members
  unfold markTreeComplex ownWarning truncationWarning
  rw [membersSize_putMember, filter_putMember_ne (by decide), membersSize_putMember, hothers,
    Json.membersSize_cons, Json.membersSize_cons, Json.membersSize_nil]
  omega

/-- The warning does not come for the tree text. -/
theorem markTreeComplex_filter (members : List (String × Json)) :
    (markTreeComplex members).filter (·.1 ≠ "tree_markdown")
      = markTreeComplex (members.filter (·.1 ≠ "tree_markdown")) := by
  unfold markTreeComplex
  rw [filter_putMember_ne (by decide), filter_putMember_ne (by decide)]

theorem ownWarning_filter (members : List (String × Json)) :
    ownWarning (members.filter (·.1 ≠ "tree_markdown")) = ownWarning members := by
  unfold ownWarning
  rw [List.filter_filter]
  refine List.filter_congr fun m _ => ?_
  by_cases hm : m.1 = "tree_markdown"
  · simp [hm]
  · simp [hm]

variable (real) in
/-- The members without a cut take no more room than those with the warning. -/
theorem membersSize_uncut {members : List (String × Json)} (text : Text)
    (h : membersSize real (ownWarning members) ≤ membersSize real truncationWarning) :
    membersSize real (putMember "tree_markdown" (.str (String.ofList text)) members)
      ≤ membersSize real
        (putMember "tree_markdown" (.str (String.ofList text)) (markTreeComplex members)) := by
  rw [membersSize_putMember, membersSize_putMember, markTreeComplex_filter]
  have hmark := membersSize_markTreeComplex real
    (members.filter (·.1 ≠ "tree_markdown"))
  rw [ownWarning_filter] at hmark
  omega

/-! ## The trees that are collected -/

/-- A tree that was not truncated brings no warning along, and one that was brings
the same that a cut makes. -/
def Collected (members : List (String × Json)) : Prop :=
  (members.map Prod.fst).Nodup ∧ ∃ truncated,
    members.lookup "truncated" = some (.bool truncated) ∧
    members.lookup "accessibility_error" = if truncated then some limitation else none

/-- What `readWindowState` makes, its rows apart. -/
def readWindowState (windowId : Int) (truncated : Bool) : List (String × Json) :=
  let members := [("window_id", Json.sint windowId), ("truncated", Json.bool truncated)]
  if truncated then markTreeComplex members else members

theorem readWindowState_collected (windowId : Int) (truncated : Bool) :
    Collected (readWindowState windowId truncated) := by
  cases truncated with
  | false => exact ⟨by simp [readWindowState], false, rfl, rfl⟩
  | true => exact ⟨by simp [readWindowState, markTreeComplex, putMember], true, rfl, rfl⟩

theorem Collected.put {members : List (String × Json)} (h : Collected members) {key : String}
    (htruncated : key ≠ "truncated") (herror : key ≠ "accessibility_error") (value : Json) :
    Collected (putMember key value members) := by
  obtain ⟨hnodup, truncated, hflag, hwarning⟩ := h
  refine ⟨Json.nodup_putMember hnodup value, truncated, ?_, ?_⟩
  · rw [Json.lookup_putMember_ne (Ne.symm htruncated), hflag]
  · rw [Json.lookup_putMember_ne (Ne.symm herror), hwarning]

/-- What `observeWindow` puts into a tree: where a screenshot was asked for, it or
why there is none, and then the window. -/
def observeWindow (image : Option (Except Json Json)) (windowId : Int)
    (members : List (String × Json)) : List (String × Json) :=
  putMember "window_id" (.sint windowId) <|
    match image with
    | none => members
    | some (.ok screenshot) => putMember "screenshot" screenshot members
    | some (.error error) => putMember "screenshot_error" error members

theorem Collected.membersSize_le {members : List (String × Json)} (h : Collected members) :
    membersSize real (ownWarning members) ≤ membersSize real truncationWarning := by
  obtain ⟨hnodup, truncated, hflag, hwarning⟩ := h
  have hsplit := membersSize_filter real (·.1 = "truncated") (ownWarning members)
  have hown : (ownWarning members).filter (·.1 = "truncated")
      = members.filter (·.1 = "truncated") := by
    unfold ownWarning
    rw [List.filter_filter]
    refine List.filter_congr fun m _ => ?_
    simp +contextual
  have herror : (ownWarning members).filter (fun m => !(m.1 = "truncated"))
      = members.filter (·.1 = "accessibility_error") := by
    unfold ownWarning
    rw [List.filter_filter]
    refine List.filter_congr fun m _ => ?_
    by_cases hm : m.1 = "truncated" <;> simp [hm]
  rw [hown, herror, Json.filter_key hnodup, Json.filter_key hnodup, hflag, hwarning] at hsplit
  have hsize : ∀ b, encodedSize real (.bool b) = if b then 4 else 5 := by
    intro b
    cases b <;> rfl
  unfold truncationWarning
  cases truncated with
  | true =>
      rw [← hsplit]
      exact Nat.le_of_eq rfl
  | false =>
      rw [← hsplit]
      simp only [Option.toList_some, Option.toList_none, List.map_cons, List.map_nil,
        Json.membersSize_cons, Json.membersSize_nil, memberSize, hsize, Bool.false_eq_true,
        if_false, if_true]
      omega

/-! ## The bound -/

/-- The object stays within the bytes, where the tree's own members are no longer
than the warning. -/
theorem limitTreeOutput_within {tree : Tree} {rows : List TreeRow}
    (hrows : tree.elements = some rows)
    (hfits : encodedSize real (.obj (reservedMembers tree)) ≤ treeBytes)
    (hmodest : membersSize real (ownWarning tree.members) ≤ membersSize real truncationWarning) :
    encodedSize real (.obj (limitTreeOutput real includeFrame tree)) ≤ treeBytes := by
  have hfill : _ + ((keptRows real includeFrame tree rows).1.map escapedLength).sum ≤ treeBytes :=
    fill_within hfits _
  rw [← Json.escapedLength_flatten] at hfill
  have hreserved : encodedSize real (.obj (reservedMembers tree))
      = membersSize real
          (putMember "tree_markdown" (.str "") (markTreeComplex tree.members)) + 1 := by
    rw [reservedMembers_eq, encodedSize_obj (putMember_ne_nil _ _ _)]
  have hcut := membersSize_treeText real (markTreeComplex tree.members)
    (keptRows real includeFrame tree rows).1.flatten
  have huncut := membersSize_uncut real
    (keptRows real includeFrame tree rows).1.flatten hmodest
  rw [limitTreeOutput_eq hrows, encodedSize_obj (putMember_ne_nil _ _ _)]
  split <;> omega

theorem lookup_markTreeComplex (members : List (String × Json)) :
    (markTreeComplex members).lookup "truncated" = some (.bool true) := by
  unfold markTreeComplex
  rw [Json.lookup_putMember_ne (by decide), Json.lookup_putMember_self]

/-- An observation stays within the bytes; its text is a first part of the lines of
the rows; and it is marked as truncated when that is not all of them, or the tree
was before. -/
theorem observation_within {tree : Tree} {rows : List TreeRow}
    (hrows : tree.elements = some rows) :
    let observation := limitTreeOutput real includeFrame tree
    let rendered := renderedRows real includeFrame rows
    (encodedSize real (.obj (reservedMembers tree)) ≤ treeBytes →
      membersSize real (ownWarning tree.members) ≤ membersSize real truncationWarning →
      encodedSize real (.obj observation) ≤ treeBytes) ∧
    ∃ kept, kept <+: rendered ∧
      observation.lookup "tree_markdown" = some (.str (String.ofList kept.flatten)) ∧
      (observation.lookup "truncated" = some (.bool true) ↔
        kept.length < rendered.length ∨
          tree.members.lookup "truncated" = some (.bool true)) := by
  refine ⟨limitTreeOutput_within hrows, (keptRows real includeFrame tree rows).1,
    fill_isPrefix _ _, ?_, ?_⟩
  · rw [limitTreeOutput_eq hrows, Json.lookup_putMember_self]
  · rw [limitTreeOutput_eq hrows, Json.lookup_putMember_ne (by decide)]
    have hcut : (keptRows real includeFrame tree rows).2 = true ↔
        (keptRows real includeFrame tree rows).1.length
          < (renderedRows real includeFrame rows).length := fill_cut_iff _ _
    rw [← hcut]
    cases (keptRows real includeFrame tree rows).2 with
    | true => simp [lookup_markTreeComplex]
    | false => simp

theorem limitation_size : encodedSize real limitation = 148 := by
  have hcode : escapedLength "code".toList = 4 := rfl
  have hhint : escapedLength "hint".toList = 4 := rfl
  have hcomplex : escapedLength "accessibility_tree_too_complex".toList = 30 := rfl
  have hbudget : escapedLength treeResponseBudget.toList = 97 := by
    simp only [treeResponseBudget, String.reduceToList]
    rfl
  unfold limitation
  rw [encodedSize_obj (List.cons_ne_nil _ _), Json.membersSize_cons, Json.membersSize_cons,
    Json.membersSize_nil, memberSize, memberSize, Json.encodedSize_str, Json.encodedSize_str,
    hcode, hhint, hcomplex, hbudget]

theorem truncationWarning_size : membersSize real truncationWarning = 188 := by
  have htruncated : escapedLength "truncated".toList = 9 := rfl
  have herror : escapedLength "accessibility_error".toList = 19 := rfl
  have htrue : encodedSize real (.bool true) = 4 := rfl
  unfold truncationWarning
  rw [Json.membersSize_cons, Json.membersSize_cons, Json.membersSize_nil, memberSize, memberSize,
    limitation_size, htruncated, herror, htrue]

variable (real) in
/-- What is reserved beside the warning: the members it does not come for, and the
name of the text. -/
theorem reservedMembers_size (tree : Tree) :
    encodedSize real (.obj (reservedMembers tree))
      ≤ membersSize real tree.members + membersSize real truncationWarning + 20 := by
  have htext : memberSize real ("tree_markdown", .str "") = 19 := rfl
  have hmark := membersSize_markTreeComplex real tree.members
  have hothers := membersSize_filter real (·.1 ≠ "tree_markdown")
    (markTreeComplex tree.members)
  rw [reservedMembers_eq, encodedSize_obj (putMember_ne_nil _ _ _), membersSize_putMember, htext]
  omega

/-- A window with a slider, as it is collected. -/
def sliderTree : Tree where
  members := readWindowState 7 false
  nodup := (readWindowState_collected 7 false).1
  elements := some
    [{ elementId := some 0, role := some "frame".toList, label := some "Sound".toList },
     { elementId := some 1, parentIndex := 0, depth := 1, role := some "slider".toList,
       label := some "Volume".toList, current := some 3, minimum := some 0, maximum := some 10,
       actions := ["set_value".toList] }]

/-- How a whole double is written. -/
def writeWhole (q : Rat) : Text := Json.writeInt q.num ++ ".0".toList

theorem sliderTree_within :
    encodedSize writeWhole (.obj (limitTreeOutput writeWhole false sliderTree)) ≤ treeBytes ∧
      ∃ kept, kept <+: renderedRows writeWhole false (sliderTree.elements.getD []) ∧
        (limitTreeOutput writeWhole false sliderTree).lookup "tree_markdown"
          = some (.str (String.ofList kept.flatten)) := by
  have hmembers : membersSize writeWhole sliderTree.members = 32 := rfl
  have hreserved := reservedMembers_size writeWhole sliderTree
  rw [hmembers, truncationWarning_size] at hreserved
  obtain ⟨hwithin, kept, hkept, htext, -⟩ := @observation_within writeWhole false sliderTree _ rfl
  refine ⟨hwithin ?_ (readWindowState_collected 7 false).membersSize_le, kept, hkept, htext⟩
  unfold treeBytes
  omega

/-! ## A tree with a longer error of its own -/

theorem escape_replicate (n : Nat) :
    Json.escape (List.replicate n 'a') = List.replicate n 'a' := by
  induction n with
  | zero => rfl
  | succ n ih =>
      have hplain : Json.escapeChar 'a' = ['a'] := rfl
      unfold Json.escape at ih ⊢
      rw [List.replicate_succ, List.flatMap_cons, ih, hplain, List.singleton_append]

theorem escapedLength_replicate (n : Nat) : escapedLength (List.replicate n 'a') = n := by
  rw [escapedLength, escape_replicate, Text.encodedLength_replicate]
  exact Nat.mul_one n

/-- A text of one letter, again and again. -/
def letters (n : Nat) : Text := List.replicate (n + 1) 'a'

def longError (n : Nat) : Json :=
  .obj [("code", .str "accessibility_unavailable"), ("hint", .str (String.ofList (letters n)))]

def longErrorRow (n : Nat) : TreeRow :=
  { elementId := some 0, role := some "frame".toList, label := some (letters n) }

/-- A window whose error is as long as the name of its only row. -/
def longErrorTree (n : Nat) : Tree where
  members := [("accessibility_error", longError n)]
  nodup := by simp
  elements := some [longErrorRow n]

theorem longErrorRow_rendered (n : Nat) : renderedRows writeWhole false [longErrorRow n] =
    ["[0] frame \"".toList ++ letters n ++ ['"', '\n']] := by
  have hcompact : compactTreeRows [longErrorRow n] = [longErrorRow n] := rfl
  have hlabel : writeString (letters n) = '"' :: letters n ++ ['"'] := by
    rw [writeString, letters, escape_replicate]
  have hline : appendTreeRow writeWhole false (longErrorRow n)
      = "[0] frame ".toList ++ writeString (letters n) ++ ['\n'] := by
    simp [appendTreeRow, longErrorRow, writtenField, writtenValue, shownActions, shownFlags]
  have hrendered : renderedRows writeWhole false [longErrorRow n]
      = [appendTreeRow writeWhole false (longErrorRow n)] := by
    rw [renderedRows, hcompact]
    rfl
  rw [hrendered, hline, hlabel]
  simp

theorem longError_size (n : Nat) : encodedSize writeWhole (longError n) = n + 47 := by
  have hcode : escapedLength "code".toList = 4 := rfl
  have hhint : escapedLength "hint".toList = 4 := rfl
  have hunavailable : escapedLength "accessibility_unavailable".toList = 25 := rfl
  have htext : (String.ofList (letters n)).toList = letters n := String.toList_ofList
  have hletters : escapedLength (letters n) = n + 1 := escapedLength_replicate (n + 1)
  unfold longError
  rw [encodedSize_obj (List.cons_ne_nil _ _), Json.membersSize_cons, Json.membersSize_cons,
    Json.membersSize_nil, memberSize, memberSize, Json.encodedSize_str, Json.encodedSize_str,
    htext, hletters, hcode, hhint, hunavailable]
  omega

theorem longErrorTree_size (n : Nat) :
    membersSize writeWhole (longErrorTree n).members = n + 70 := by
  have hkey : escapedLength "accessibility_error".toList = 19 := rfl
  have hmembers : (longErrorTree n).members = [("accessibility_error", longError n)] := rfl
  rw [hmembers, Json.membersSize_cons, Json.membersSize_nil, memberSize, longError_size, hkey]
  omega

/-- What is reserved is the warning, not the tree's own error. -/
theorem longErrorTree_reserved (n : Nat) :
    encodedSize writeWhole (.obj (reservedMembers (longErrorTree n))) ≤ 1000 := by
  have hreserved : reservedMembers (longErrorTree n) = [("accessibility_error", limitation),
      ("truncated", .bool true), ("tree_markdown", .str "")] := rfl
  have htext : memberSize writeWhole ("tree_markdown", .str "") = 19 := rfl
  have htruncated : memberSize writeWhole ("truncated", .bool true) = 17 := rfl
  have herror : escapedLength "accessibility_error".toList = 19 := rfl
  rw [hreserved, encodedSize_obj (List.cons_ne_nil _ _), Json.membersSize_cons,
    Json.membersSize_cons, Json.membersSize_cons, Json.membersSize_nil, htext, htruncated,
    memberSize, limitation_size, herror]
  omega

theorem longErrorTree_kept {n : Nat} (h : n ≤ 500000) :
    keptRows writeWhole false (longErrorTree n) [longErrorRow n]
      = (["[0] frame \"".toList ++ letters n ++ ['"', '\n']], false) := by
  have hbytes := longErrorTree_reserved n
  have hfront : escapedLength "[0] frame \"".toList = 12 := rfl
  have hback : escapedLength ['"', '\n'] = 4 := rfl
  have hletters : escapedLength (letters n) = n + 1 := escapedLength_replicate (n + 1)
  unfold keptRows
  rw [longErrorRow_rendered, fill, if_neg]
  · rfl
  · rw [Json.escapedLength_append, Json.escapedLength_append, hfront, hback, hletters, treeBytes]
    omega

/-- So the observation holds the error as well as a text of its length. -/
theorem longErrorTree_encoded {n : Nat} (h : n ≤ 500000) :
    2 * n ≤ encodedSize writeWhole (.obj (limitTreeOutput writeWhole false (longErrorTree n))) := by
  have hletters : escapedLength (letters n) = n + 1 := escapedLength_replicate (n + 1)
  have hothers : (longErrorTree n).members.filter (·.1 ≠ "tree_markdown")
      = (longErrorTree n).members := rfl
  rw [limitTreeOutput_eq rfl, longErrorTree_kept h, encodedSize_obj (putMember_ne_nil _ _ _),
    List.flatten_singleton, if_neg Bool.false_ne_true, membersSize_treeText,
    Json.escapedLength_append, Json.escapedLength_append, hletters, membersSize_putMember,
    hothers, longErrorTree_size]
  omega

/-- The room that an error of the tree's own takes is not counted. -/
theorem longErrorTree_overflows : ¬ ∀ (tree : Tree) (rows : List TreeRow),
    tree.elements = some rows →
    encodedSize writeWhole (.obj tree.members) + membersSize writeWhole truncationWarning
      ≤ treeBytes →
    encodedSize writeWhole (.obj (reservedMembers tree)) ≤ treeBytes →
    encodedSize writeWhole (.obj (limitTreeOutput writeWhole false tree)) ≤ treeBytes := by
  intro hbound
  have hlong := longErrorTree_encoded (n := 300000) (by omega)
  have hbytes := longErrorTree_reserved 300000
  have hwarning : membersSize writeWhole truncationWarning = 188 := truncationWarning_size
  have hown : encodedSize writeWhole (.obj (longErrorTree 300000).members) = 300071 := by
    have hne : (longErrorTree 300000).members ≠ [] := List.cons_ne_nil _ _
    rw [encodedSize_obj hne, longErrorTree_size]
  unfold treeBytes at hbound
  have hwithin := hbound (longErrorTree 300000) [longErrorRow 300000] rfl (by omega) (by omega)
  omega

end Spaces.Computer.Accessibility
