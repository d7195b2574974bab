import Mathlib.Data.List.Basic
import Mathlib.Logic.Function.Basic
import Spaces.Library.Runs
import Spaces.Library.Text

/-!
# Compacting an accessibility tree

The helper reads a tree as a list of rows in pre-order, each with the index of
its parent. Much of the reading text comes twice: a paragraph has a text of its
own and children that hold the pieces of it. `distill` decides from the last row
to the first which rows go: a run of adjacent leaves that only repeats the text
of its parent, and an aggregate whose literal parts its children cover, so that
its children are hoisted to its parent. `renumber` then copies the rows that stay
and finds their parents and depths again.

The linked lists of children are lists here. `rendered` is the text below and at
a row, as the loop puts it together.
-/

namespace Spaces.Computer.Accessibility

open Spaces.Library

structure Row where
  elementIndex : Nat := 0
  elementId : Option Nat := none
  /-- Negative at the root. -/
  parentIndex : Int := -1
  depth : Nat := 0
  role : Option Text := none
  label : Option Text := none
  /-- The value, when it is a text. -/
  value : Option Text := none
  textParts : Option (List Text) := none
  textPartial : Bool := false
  textTruncated : Bool := false
  deriving DecidableEq, Inhabited

def proseRoles : List Text := ["static".toList, "paragraph".toList, "heading".toList]

def proseRow (row : Row) : Bool :=
  row.elementId.isNone && row.role.any proseRoles.contains

/-- A name without the mark of a shortened one. -/
def unshortened (label : Text) : Text :=
  if label.getLast? = some '…' then label.dropLast else label

def proseValueCoversLabel (label value : Option Text) (paragraph : Bool) : Bool :=
  let start := unshortened (label.getD [])
  value.any fun value => value ≠ [] && (paragraph || (start ≠ [] && start.isPrefixOf value))

/-- A text after another, with a space between them where neither is empty. -/
def glue (text next : Text) : Text :=
  if text = [] then next else if next = [] then text else text ++ ' ' :: next

def joinTexts (texts : List Text) : Text := texts.foldr glue []

/-- The label of a prose row, where its text does not extend it. -/
def shownLabel (row : Row) : Text :=
  let paragraph := row.role = some "paragraph".toList
  if proseValueCoversLabel row.label row.value paragraph then [] else row.label.getD []

def proseText (row : Row) : Text := joinTexts [shownLabel row, row.value.getD []]

/-- `strstr`: what comes after the first occurrence of a part. -/
def afterPart (part : Text) : Text → Option Text
  | [] => if part = [] then some [] else none
  | c :: rest =>
      if part.isPrefixOf (c :: rest) then some ((c :: rest).drop part.length)
      else afterPart part rest

/-- The parts after the first. -/
def coverParts (textPartial : Bool) : List Text → Text → Bool
  | [], cursor => textPartial || cursor = []
  | part :: rest, cursor =>
      if rest = [] && !textPartial then part.isSuffixOf cursor
      else (afterPart part cursor).any (coverParts textPartial rest)

def childTextCovers (parts : List Text) (textPartial : Bool) (text : Text) : Bool :=
  match parts with
  | [] => textPartial || text = []
  | part :: rest =>
      part.isPrefixOf text && coverParts textPartial rest (text.drop part.length)

/-! ## Which rows go -/

variable (rows : List Row)

def rowAt (i : Nat) : Row := rows.getD i default

def parent? (i : Nat) : Option Nat :=
  if 0 ≤ (rowAt rows i).parentIndex then some (rowAt rows i).parentIndex.toNat else none

def content (i : Nat) : Option Text :=
  if proseRow (rowAt rows i) then some (proseText (rowAt rows i)) else none

/-- The text of a row itself: what is read of a prose row, the label of another. -/
def own (i : Nat) : Text := (content rows i).getD ((rowAt rows i).label.getD [])

structure Distilled where
  omitted : Nat → Bool
  children : Nat → List Nat
  rendered : Nat → Text
  /-- The flag `text_truncated` of the rows. -/
  truncated : Nat → Bool

def Distilled.initial : Distilled where
  omitted := fun _ => false
  children := fun p => (List.range rows.length).filter fun i => parent? rows i = some p
  rendered := fun _ => []
  truncated := fun i => (rowAt rows i).textTruncated

/-- A removed child gives its place to its own children. -/
def hoist (d : Distilled) : Nat → Nat → List Nat
  | 0, child => if d.omitted child then [] else [child]
  | fuel + 1, child =>
      if d.omitted child then (d.children child).flatMap (hoist d fuel) else [child]

/-- The texts follow one another in what is left of a text, each after any spaces. -/
def followsIn : List Text → Text → Bool
  | [], cursor => cursor = []
  | text :: rest, cursor =>
      let cursor := cursor.dropWhile (· = ' ')
      text.isPrefixOf cursor && followsIn rest (cursor.drop text.length)

/-- The texts are the text, but for spaces at the places where they meet. -/
def repeatsText (text : Text) : List Text → Bool
  | [] => text = []
  | first :: rest => first.isPrefixOf text && followsIn rest (text.drop first.length)

/-- The children that stay and those that go. A run of adjacent leaves goes as a
whole; `run` is the one being read. -/
def settle (leaf : Nat → Bool) (goes : List Nat → Bool) :
    List Nat → List Nat → List Nat × List Nat
  | run, [] => if goes run then ([], run) else (run, [])
  | run, child :: rest =>
      if leaf child then settle leaf goes (run ++ [child]) rest
      else
        let later := settle leaf goes [] rest
        if goes run then (child :: later.1, run ++ later.2)
        else (run ++ child :: later.1, later.2)

def isLeaf (d : Distilled) (i : Nat) : Bool :=
  (content rows i).isSome && (d.children i).isEmpty

/-- A run of leaves that repeats the text of row `i`. -/
def repeatsRow (i : Nat) (run : List Nat) : Bool :=
  own rows i ≠ [] && repeatsText (own rows i) (run.map fun j => (content rows j).getD [])

/-- The children of row `i` with the removed ones replaced by theirs. -/
def hoisted (d : Distilled) (i : Nat) : List Nat :=
  (d.children i).flatMap (hoist d rows.length)

def settled (d : Distilled) (i : Nat) : List Nat × List Nat :=
  settle (isLeaf rows d) (repeatsRow rows i) [] (hoisted rows d i)

/-- An aggregate goes when the text below it covers its parts. -/
def coveredBy (i : Nat) (descendants : Text) : Bool :=
  (content rows i).isSome && descendants ≠ [] &&
    (rowAt rows i).textParts.any fun parts =>
      childTextCovers parts (rowAt rows i).textPartial descendants

/-- The text below row `i`, in the children that stay. -/
def textBelow (d : Distilled) (i : Nat) : Text :=
  joinTexts ((settled rows d i).1.map d.rendered)

def distillRow (d : Distilled) (i : Nat) : Distilled :=
  let kept := (settled rows d i).1
  let gone := (settled rows d i).2
  let descendants := textBelow rows d i
  let covered := coveredBy rows i descendants
  { omitted := fun j => d.omitted j || gone.contains j || (j == i && covered)
    children := Function.update d.children i kept
    rendered := Function.update d.rendered i
      (if covered then descendants else joinTexts [own rows i, descendants])
    truncated := Function.update d.truncated i
      (d.truncated i || gone.any d.truncated) }

/-- The rows are settled from the last to the first. -/
def distill : Distilled :=
  (List.range rows.length).reverse.foldl (distillRow rows) (.initial rows)

/-! ## The rows that stay -/

structure Renumbered where
  /-- The new index of a row that stays, and of the parent of one that goes. -/
  parents : Nat → Int
  /-- By new index. -/
  depths : Nat → Nat
  compact : List Row

def renumberRow (d : Distilled) (r : Renumbered) (i : Nat) : Renumbered :=
  let parent := match parent? rows i with
    | some p => r.parents p
    | none => -1
  if d.omitted i then { r with parents := Function.update r.parents i parent }
  else
    let index := r.compact.length
    let depth := if 0 ≤ parent then r.depths parent.toNat + 1 else 0
    { parents := Function.update r.parents i index
      depths := Function.update r.depths index depth
      compact := r.compact ++ [{ rowAt rows i with
        textTruncated := d.truncated i
        elementIndex := index
        parentIndex := parent
        depth := depth }] }

def renumber (d : Distilled) : Renumbered :=
  (List.range rows.length).foldl (renumberRow rows d) ⟨fun _ => -1, fun _ => 0, []⟩

def compactTextRows : List Row := (renumber rows (distill rows)).compact

end Spaces.Computer.Accessibility
