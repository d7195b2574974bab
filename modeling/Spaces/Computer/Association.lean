import Mathlib.Data.List.Basic
import Spaces.Library.Text

/-!
# The accessible window of a compositor window

The compositor and the accessibility bus each have an inventory of windows, and
no number is common to both. The helper pairs them by evidence: the process, the
title, the size of one of the compositor's rectangles at the scale of a display,
and the position on the screen. Each pair has to be unique in both inventories.

A window is settled in stages. The first stage asks for the title, and for the
size where it also has a picture to anchor or does not know the process; later
stages ask for more, or for the size alone when nothing has the title.

The arithmetic of doubles is a parameter, so what is proved holds of any
rounding.
-/

namespace Spaces.Computer.Association

open Spaces.Library

/-- The arithmetic on coordinates. -/
class Doubles (K : Type) extends Zero K, One K, Mul K, Div K where
  /-- They differ by two at most. -/
  near : K → K → Bool
  positive : K → Bool

structure CanvasRect (K : Type) where
  x : K
  y : K
  width : K
  height : K

/-- A rectangle as it came, when its four numbers are finite and not too large. -/
abbrev RawRect (K : Type) := Option (CanvasRect K)

structure Window (K : Type) where
  pid : Int := 0
  title : Option Text := none
  shown : Bool := false
  client : RawRect K := none
  buffer : RawRect K := none
  frame : RawRect K := none

structure Candidate (K : Type) where
  title : Option Text := none
  toolkit : Option Text := none
  shown : Bool := false
  bounds : RawRect K := none
  screenBounds : RawRect K := none

structure App (K : Type) where
  pid : Int := 0
  windows : List (Candidate K) := []

structure Display (K : Type) where
  width : K
  logicalWidth : K

/-- Both inventories. -/
structure Desktop (K : Type) where
  windows : List (Window K)
  apps : List (App K)
  displays : List (Display K)

variable {K : Type} [Doubles K]

/-! ## Size and position -/

def CanvasRect.zero : CanvasRect K := ⟨0, 0, 0, 0⟩

def readRect (value : RawRect K) : Option (CanvasRect K) :=
  value.filter fun rect => Doubles.positive rect.width && Doubles.positive rect.height

def scales (displays : List (Display K)) : List K :=
  1 :: displays.map fun display => display.width / display.logicalWidth

/-- The bounds of the candidate, as far as they were read, and the rectangle of
the window that has their size, with the ratio of the sizes. -/
def accessibilitySize (displays : List (Display K)) (window : Window K)
    (candidate : Candidate K) : CanvasRect K × Option (CanvasRect K × K) :=
  let anchor := candidate.bounds.getD .zero
  if (readRect candidate.bounds).isNone then (anchor, none)
  else
    let rectangles := [window.client, window.buffer, window.frame].filterMap readRect
    (anchor, rectangles.findSome? fun rect =>
      (scales displays).findSome? fun scale =>
        if Doubles.near anchor.width (rect.width * scale) &&
            Doubles.near anchor.height (rect.height * scale) then some (rect, 1 / scale)
        else none)

def accessibilityPosition (candidate : Candidate K) (anchor client : CanvasRect K)
    (ratio : K) : Bool :=
  (readRect candidate.screenBounds).any fun screen =>
    Doubles.near screen.width anchor.width && Doubles.near screen.height anchor.height &&
      Doubles.near (screen.x * ratio) client.x && Doubles.near (screen.y * ratio) client.y

/-! ## Titles -/

def brands : List Text := ["Chromium".toList, "Google Chrome".toList]

/-- A title without the playback state that Chromium appends. -/
def accessibilityTitle (title : Text) (chromium : Bool) : Text :=
  let playing (brand : Text) := " - Audio playing - ".toList ++ brand
  match brands.find? fun brand => chromium && (playing brand).isSuffixOf title with
  | some brand =>
      title.take (title.length - (playing brand).length) ++ " - ".toList ++ brand
  | none => title

def accessibilityTitlesMatch (window : Window K) (candidate : Candidate K) : Bool :=
  let chromium : Bool := candidate.toolkit = some "Chromium".toList
  match window.title, candidate.title with
  | some a, some b =>
      accessibilityTitle a chromium ≠ [] &&
        accessibilityTitle a chromium = accessibilityTitle b chromium
  | _, _ => false

/-! ## Evidence -/

structure AccessibilityEvidence where
  title : Bool := false
  size : Bool := false
  position : Bool := false
  deriving DecidableEq

def accessibilityCandidateVisible (window : Window K) (candidate : Candidate K) : Bool :=
  !window.shown || candidate.shown

def accessibilityEvidence (displays : List (Display K)) (window : Window K)
    (candidate : Candidate K) (evidence : AccessibilityEvidence) : Bool :=
  if !accessibilityCandidateVisible window candidate ||
      (evidence.title && !accessibilityTitlesMatch window candidate) then false
  else if !evidence.size && !evidence.position then true
  else
    match accessibilitySize displays window candidate with
    | (anchor, some (client, ratio)) =>
        !evidence.position || accessibilityPosition candidate anchor client ratio
    | (_, none) => false

/-- A process passes the filter; no filter is zero. -/
def passes (pidFilter pid : Int) : Bool := pidFilter = 0 || pid = pidFilter

/-- How many windows of the compositor have the evidence. -/
def accessibilityCompositorMatches (desktop : Desktop K) (candidate : Candidate K)
    (pidFilter : Int) (evidence : AccessibilityEvidence) : Nat :=
  desktop.windows.countP fun window =>
    passes pidFilter window.pid &&
      accessibilityEvidence desktop.displays window candidate evidence

/-- A candidate where it stands in the inventory. -/
structure Entry (K : Type) where
  /-- The application, and the window in it. -/
  place : Nat × Nat
  pid : Int
  candidate : Candidate K

def entries (apps : List (App K)) (pidFilter : Int) : List (Entry K) :=
  apps.zipIdx.flatMap fun (app, i) =>
    if passes pidFilter app.pid then
      app.windows.zipIdx.map fun (candidate, j) => ⟨(i, j), app.pid, candidate⟩
    else []

structure AccessibilityMatch (K : Type) where
  candidate : Option (Entry K)
  anchor : CanvasRect K
  client : CanvasRect K
  ratio : K
  matched : Nat := 0
  frames : Nat := 0
  titles : Nat := 0
  sizes : Nat := 0
  positions : Nat := 0
  ambiguous : Bool := false

def AccessibilityMatch.empty : AccessibilityMatch K where
  candidate := none
  anchor := .zero
  client := .zero
  ratio := 0

/-- The match of one candidate more. -/
def findStep (desktop : Desktop K) (window : Window K) (pidFilter : Int)
    (evidence : AccessibilityEvidence) (result : AccessibilityMatch K) (entry : Entry K) :
    AccessibilityMatch K :=
  let candidate := entry.candidate
  if !accessibilityCandidateVisible window candidate then result
  else
    let titleMatches := accessibilityTitlesMatch window candidate
    let size := accessibilitySize desktop.displays window candidate
    let sizeMatches := size.2.isSome
    let client := (size.2.map Prod.fst).getD .zero
    let ratio := (size.2.map Prod.snd).getD 1
    let positionMatches :=
      sizeMatches && accessibilityPosition candidate size.1 client ratio
    let result := { result with
      frames := result.frames + 1
      titles := result.titles + titleMatches.toNat
      sizes := result.sizes + sizeMatches.toNat
      positions := result.positions + positionMatches.toNat }
    if (evidence.title && !titleMatches) || (evidence.size && !sizeMatches) ||
        (evidence.position && !positionMatches) then result
    else
      let reverse := accessibilityCompositorMatches desktop candidate pidFilter evidence
      if reverse ≠ 1 then { result with ambiguous := result.ambiguous || reverse > 1 }
      else { result with
        candidate := some entry
        anchor := size.1
        client := client
        ratio := ratio
        matched := result.matched + 1 }

def findAccessibilityMatch (desktop : Desktop K) (window : Window K) (pidFilter : Int)
    (evidence : AccessibilityEvidence) : AccessibilityMatch K :=
  (entries desktop.apps pidFilter).foldl (findStep desktop window pidFilter evidence) .empty

/-! ## The stages -/

/-- A match that its callers take. -/
def AccessibilityMatch.unique (m : AccessibilityMatch K) : Bool := m.matched = 1 && !m.ambiguous

def accessibilityHasPid (apps : List (App K)) (pid : Int) : Bool :=
  pid > 0 && apps.any fun app => app.pid = pid

def pidFilterOf (desktop : Desktop K) (window : Window K) : Int :=
  if accessibilityHasPid desktop.apps window.pid then window.pid else 0

def selectAccessibilityMatch (desktop : Desktop K) (window : Window K) (readText : Bool) :
    AccessibilityMatch K :=
  let pidFilter := pidFilterOf desktop window
  let find := findAccessibilityMatch desktop window pidFilter
  let evidence : AccessibilityEvidence :=
    { title := true, size := !readText || pidFilter = 0 }
  let first := find evidence
  let second :=
    if !evidence.size && (first.matched > 1 || first.ambiguous) then
      let sized := find { title := true, size := true }
      if sized.unique then sized else first
    else first
  if second.unique then second
  else
    let title := second.matched ≠ 0 || second.ambiguous
    let positioned := find { title := title, size := true, position := true }
    if positioned.unique then positioned
    else if !title then find { size := true }
    else second

/-- The candidate that a compositor window is associated with, by their places. -/
def selected (desktop : Desktop K) (readText : Bool) (i : Nat) : Option (Nat × Nat) :=
  desktop.windows[i]?.bind fun window =>
    let m := selectAccessibilityMatch desktop window readText
    if m.unique then m.candidate.map Entry.place else none

end Spaces.Computer.Association
