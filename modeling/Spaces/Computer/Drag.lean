import Spaces.Computer.Canvas
import Spaces.Library.Slab

/-!
# Dragging across the displays

A drag is sampled along its way, and every sample is handed to the device of the
tile it is in. Before anything is sent, `dragCrossesTile` looks for the tiles on
the way, and the drag is refused where one of them belongs to another seat.

It leaves out a tile that the way meets in one point only: one on whose left or
top edge the drag ends, or whose left top corner it passes from outside to
outside. The point is in the tile all the same, and a sample there is handed to
the tile's device.
-/

namespace Spaces.Computer.Pointer

open Spaces.Library
open Spaces.Computer.Association (CanvasRect)
open Spaces.Mcp (Failure)

inductive Button where
  | left
  | right
  | middle
  deriving DecidableEq

def buttonCode : Button → Nat
  | .right => 0x111
  | .middle => 0x112
  | .left => 0x110

inductive Direction where
  | up
  | down
  | left
  | right
  deriving DecidableEq

inductive PointerTool where
  | drag (toX toY : ℚ) (duration : Option Nat) (button : Button)
  | click (button : Button) (count : Option Nat)
  | moveCursor
  | scroll (direction : Direction) (amount : Option Nat)

/-- A call: where it begins, in the overview, and what it does. -/
structure PointerCall where
  x : ℚ
  y : ℚ
  tool : PointerTool

def PointerCall.isDrag (call : PointerCall) : Bool :=
  match call.tool with
  | .drag .. => true
  | _ => false

/-- Where it ends. -/
def PointerCall.goal (call : PointerCall) : ℚ × ℚ :=
  match call.tool with
  | .drag toX toY .. => (toX, toY)
  | _ => (call.x, call.y)

/-- The number of the last sample. -/
def PointerCall.count (call : PointerCall) : Nat :=
  match call.tool with
  | .drag _ _ duration _ => max 1 (duration.getD 500 / 16)
  | _ => 0

def PointerCall.fraction (call : PointerCall) (i : Nat) : ℚ :=
  if call.count = 0 then 0 else (i : ℚ) / call.count

/-- A sample, in the overview. -/
def PointerCall.sample (call : PointerCall) (i : Nat) : ℚ × ℚ :=
  (call.x + (call.goal.1 - call.x) * call.fraction i,
    call.y + (call.goal.2 - call.y) * call.fraction i)

/-! ## What is resolved before anything is sent -/

def dragCrossesTile (tile : CanvasRect ℚ) (origin goal : ℚ × ℚ) : Bool :=
  let range := (clipAxis tile.x (tile.x + tile.width) origin.1 (goal.1 - origin.1) ⟨0, 1⟩).bind
    fun range => clipAxis tile.y (tile.y + tile.height) origin.2 (goal.2 - origin.2) range
  range.any fun range => range.enter < range.leave

/-- Every tile on the way is one of the seat. -/
def checkDrag (visual : VisualSession) (seat : Nat) (origin goal : ℚ × ℚ) :
    List (CanvasRect ℚ × Display) → Except Failure Unit
  | [] => .ok ()
  | screen :: rest =>
      if dragCrossesTile screen.1 origin goal &&
          (bindStreamRegion visual screen.2).all fun binding => binding.device.seat ≠ seat then
        .error ⟨"input_unavailable",
          "The drag crosses an ambiguous region or incompatible input seat. No input was sent."⟩
      else checkDrag visual seat origin goal rest

/-- The pointer itself where it can do it, or else another device of its seat. -/
def seatDevice (visual : VisualSession) (pointer : EiDevice) (capability : Capability) :
    Except Failure EiDevice :=
  let able := visual.devices.filter fun device =>
    device.resumed && device.hasCapability capability
  match able.find? fun device => device.device = pointer with
  | some device => .ok device.device
  | none =>
      match able.find? fun device => device.device.seat = pointer.seat with
      | some device => .ok device.device
      | none => .error ⟨"input_unavailable",
          "The pointer's input seat has no compatible resumed device."⟩

def waitForDevice (visual : VisualSession) (capability : Capability) : Except Failure Unit :=
  if visual.devices.any fun device => device.resumed && device.hasCapability capability then .ok ()
  else .error ⟨"input_unavailable",
    "The granted EIS session has no resumed device for this input operation."⟩

structure Plan where
  samples : List (Option Target)
  buttons : Option EiDevice
  scroll : Option EiDevice

def pointerSamples (visual : VisualSession) (call : PointerCall) :
    Except Failure (List (Option Target)) :=
  (List.range (call.count + 1)).mapM fun i =>
    pointerTarget visual (call.sample i).1 (call.sample i).2
      (call.isDrag && 0 < i && i < call.count)

def planDrag (visual : VisualSession) (call : PointerCall) (seat : Nat) : Except Failure Unit := do
  let canvas ← validateCanvas visual
  checkDrag visual seat (canvas.logical call.x call.y) (canvas.logical call.goal.1 call.goal.2)
    (canvas.screens visual)

/-- The devices of a call, and its samples. -/
def planPointer (visual : VisualSession) (call : PointerCall) : Except Failure Plan := do
  waitForDevice visual .pointerAbsolute
  match ← pointerSamples visual call with
  | some first :: rest =>
      if call.isDrag then planDrag visual call first.device.seat
      let buttons ← match call.tool with
        | .drag .. | .click .. => do pure (some (← seatDevice visual first.device .button))
        | .moveCursor | .scroll .. => pure none
      let scroll ← match call.tool with
        | .scroll .. => do pure (some (← seatDevice visual first.device .scroll))
        | _ => pure none
      pure { samples := some first :: rest, buttons, scroll }
  -- the first sample may not be in a gap
  | _ => .error ⟨"invalid_coordinates",
      "Coordinates fall in a gap between granted desktop regions."⟩

/-! ## What is sent -/

inductive Sent where
  | motion (target : Target)
  | button (device : EiDevice) (code : Nat) (pressed : Bool)
  | scrollDiscrete (device : EiDevice) (dx dy : Int)
  deriving DecidableEq

/-- The session as it is found after each pause, or why the call ends there. -/
abbrev Moments := Nat → Except Failure VisualSession

def deviceResumed (visual : VisualSession) (device : EiDevice) : Except Failure Unit :=
  if visual.devices.any fun known => known.device = device && known.resumed then .ok ()
  else .error ⟨"input_unavailable", "The input device was removed or paused during the action."⟩

/-- What is looked at before a sample is sent. -/
def readyFor (plan : Plan) (moment : Except Failure VisualSession) (sample : Option Target) :
    Except Failure Unit := do
  let visual ← moment
  let _ ← validateCanvas visual
  (plan.buttons.toList ++ plan.scroll.toList ++ (sample.map Target.device).toList).forM
    (deviceResumed visual)

/-- The samples are sent one after another, and a drag presses its button after the
first. -/
def sendSamples (plan : Plan) (press : List Sent) (moments : Moments) :
    Nat → List (Option Target) → List Sent × Except Failure Unit
  | _, [] => ([], .ok ())
  | i, sample :: rest =>
      match readyFor plan (moments i) sample with
      | .error failure => ([], .error failure)
      | .ok () =>
          let later := sendSamples plan press moments (i + 1) rest
          ((sample.map Sent.motion).toList ++ (if i = 0 then press else []) ++ later.1, later.2)

def clickPointer (device : EiDevice) (code : Nat) (moments : Moments) :
    Nat → Nat → List Sent × Except Failure Unit
  | _, 0 => ([], .ok ())
  | k, count + 1 =>
      match (do deviceResumed (← moments k) device) with
      | .error failure => ([], .error failure)
      | .ok () =>
          let sent := [Sent.button device code true, Sent.button device code false]
          match moments (k + 1), moments (k + 2) with
          | .error failure, _ => (sent, .error failure)
          | .ok _, .error failure => (sent, if count = 0 then .ok () else .error failure)
          | .ok _, .ok _ =>
              let later := clickPointer device code moments (k + 3) count
              (sent ++ later.1, later.2)

def scrollStep (direction : Direction) (amount : Option Nat) : Int × Int :=
  let amount : Int := amount.getD 1 * 120
  match direction with
  | .left => (-amount, 0)
  | .right => (amount, 0)
  | .up => (0, -amount)
  | .down => (0, amount)

/-- A button that was pressed for a drag is released, however the drag ends. -/
def sendDrag (plan : Plan) (device : EiDevice) (code : Nat) (moments : Moments) :
    List Sent × Except Failure Unit :=
  let press := [Sent.button device code true]
  let (sent, result) := sendSamples plan press moments 0 plan.samples
  (sent ++ if sent.any (· = Sent.button device code true) then [.button device code false] else [],
    result)

def sendPlan (plan : Plan) (tool : PointerTool) (moments : Moments) :
    List Sent × Except Failure Unit :=
  match tool, plan.buttons, plan.scroll with
  | .drag _ _ _ button, some device, _ => sendDrag plan device (buttonCode button) moments
  | tool, buttons, scroll =>
      match sendSamples plan [] moments 0 plan.samples with
      | (sent, .error failure) => (sent, .error failure)
      | (sent, .ok ()) =>
          match tool, buttons, scroll with
          | .click button count, some device, _ =>
              let later := clickPointer device (buttonCode button) moments plan.samples.length
                (count.getD 1)
              (sent ++ later.1, later.2)
          | .scroll direction amount, _, some device =>
              let step := scrollStep direction amount
              (sent ++ [.scrollDiscrete device step.1 step.2], .ok ())
          | _, _, _ => (sent, .ok ())

def pointerAction (visual : VisualSession) (call : PointerCall) (moments : Moments) :
    List Sent × Except Failure Unit :=
  match planPointer visual call with
  | .error failure => ([], .error failure)
  | .ok plan => sendPlan plan call.tool moments

/-! ## The tiles on the way -/

/-- The point of a way at a fraction of it. -/
def along (origin goal : ℚ × ℚ) (t : ℚ) : ℚ × ℚ :=
  (origin.1 + t * (goal.1 - origin.1), origin.2 + t * (goal.2 - origin.2))

/-- The way meets the tile at this point only: it ends on the left or the top edge,
coming from outside of it, or it passes the left top corner. -/
def Touches (tile : CanvasRect ℚ) (origin goal point : ℚ × ℚ) : Prop :=
  (point = goal ∧
    ((origin.1 < goal.1 ∧ point.1 = tile.x) ∨ (origin.2 < goal.2 ∧ point.2 = tile.y))) ∨
  (point = (tile.x, tile.y) ∧
    ((origin.1 < goal.1 ∧ goal.2 < origin.2) ∨ (goal.1 < origin.1 ∧ origin.2 < goal.2)))

theorem along_one (origin goal : ℚ × ℚ) : along origin goal 1 = goal := by
  ext <;> simp [along]

/-- Only the end of a way that moves is where it ends. -/
theorem eq_one_of_along {origin goal : ℚ × ℚ} {t : ℚ} (h : along origin goal t = goal)
    (hmoves : origin.1 < goal.1 ∨ origin.2 < goal.2) : t = 1 := by
  have hx : origin.1 + t * (goal.1 - origin.1) = goal.1 := congrArg Prod.fst h
  have hy : origin.2 + t * (goal.2 - origin.2) = goal.2 := congrArg Prod.snd h
  rcases hmoves with hmoves | hmoves
  · refine mul_right_cancel₀ (sub_pos.mpr hmoves).ne' ?_
    linarith
  · refine mul_right_cancel₀ (sub_pos.mpr hmoves).ne' ?_
    linarith

/-- A tile with a point of the way in it is left out just if the way touches it
there. -/
theorem dragCrossesTile_iff {tile : CanvasRect ℚ} {origin goal : ℚ × ℚ} {t : ℚ} (hpos : 0 < t)
    (hle : t ≤ 1)
    (hin : rectContains tile (along origin goal t).1 (along origin goal t).2 = true) :
    dragCrossesTile tile origin goal = true ↔ ¬ Touches tile origin goal (along origin goal t) := by
  simp only [rectContains, Bool.and_eq_true, decide_eq_true_eq] at hin
  obtain ⟨⟨⟨hminx, hminy⟩, hmaxx⟩, hmaxy⟩ := hin
  have hstart : (⟨0, 1⟩ : Range ℚ).enter ≤ t := hpos.le
  obtain ⟨first, hfirst, henter, hleave, henterx, hleavex⟩ :=
    clipAxis_inside hminx hmaxx hstart hle
  obtain ⟨range, hrange, henter, hleave, hentery, hleavey⟩ :=
    clipAxis_inside hminy hmaxy henter hleave
  have hcrosses : dragCrossesTile tile origin goal = decide (range.enter < range.leave) := by
    simp only [dragCrossesTile, hfirst, hrange, Option.bind_some, Option.any_some]
  have hpoint : range.enter < range.leave ↔ ¬ (t = range.enter ∧ t = range.leave) := by
    constructor
    · intro hlt ⟨hfront, hback⟩
      exact hlt.ne (hfront.symm.trans hback)
    · intro hne
      by_contra hge
      have hsame := not_lt.mp hge
      exact hne ⟨le_antisymm (hleave.trans hsame) henter, le_antisymm hleave (hsame.trans henter)⟩
  rw [hcrosses, decide_eq_true_eq, hpoint, hentery, hleavey, henterx, hleavex, not_iff_not]
  -- it is entered at an edge that is reached, and left at the end or at an edge
  simp only [hpos.ne', false_or, sub_pos, sub_neg]
  constructor
  · rintro ⟨hreached, (rfl | hleft) | hleft⟩
    · exact .inl ⟨along_one origin goal, hreached⟩
    · rcases hreached with hreached | hreached
      · exact absurd hleft.1 hreached.1.not_gt
      · exact .inr ⟨Prod.ext hleft.2 hreached.2, .inr ⟨hleft.1, hreached.1⟩⟩
    · rcases hreached with hreached | hreached
      · exact .inr ⟨Prod.ext hreached.2 hleft.2, .inl ⟨hreached.1, hleft.1⟩⟩
      · exact absurd hleft.1 hreached.1.not_gt
  · rintro (⟨hend, hreached⟩ | ⟨hcorner, hreached | hreached⟩)
    · exact ⟨hreached, .inl (.inl (eq_one_of_along hend (hreached.imp And.left And.left)))⟩
    · exact ⟨.inl ⟨hreached.1, congrArg Prod.fst hcorner⟩,
        .inr ⟨hreached.2, congrArg Prod.snd hcorner⟩⟩
    · exact ⟨.inr ⟨hreached.2, congrArg Prod.snd hcorner⟩,
        .inl (.inr ⟨hreached.1, congrArg Prod.fst hcorner⟩)⟩

/-! ## What is known of a plan -/

variable {visual : VisualSession} {call : PointerCall} {plan : Plan}

theorem mem_pointerRegions {devices : List InputDevice} {binding : RegionBinding}
    (h : binding ∈ pointerRegions devices) :
    ∃ device ∈ devices, device.device = binding.device ∧ device.resumed = true := by
  obtain ⟨device, hdevice, hbinding⟩ := List.mem_flatMap.mp h
  obtain ⟨region, -, rfl⟩ := List.mem_map.mp hbinding
  obtain ⟨hmem, hable⟩ := List.mem_filter.mp hdevice
  rw [Bool.and_eq_true] at hable
  exact ⟨device, hmem, rfl, hable.1⟩

theorem bindStreamRegion_resumed {display : Display} {binding : RegionBinding}
    (h : bindStreamRegion visual display = some binding) :
    deviceResumed visual binding.device = .ok () := by
  have hmem : binding ∈ pointerRegions visual.devices := by
    obtain ⟨hchosen, -⟩ := Option.filter_eq_some_iff.mp h
    split at hchosen
    · next only _ hregions =>
        split at hchosen
        · rw [hregions, ← Option.some.inj hchosen]
          exact List.mem_singleton_self only
        · cases hchosen
    · next only hmatching =>
        have hin := List.mem_singleton_self only
        rw [← hmatching] at hin
        exact Option.some.inj hchosen ▸ (List.mem_filter.mp hin).1
    · cases hchosen
  obtain ⟨device, hdevice, hsame, hresumed⟩ := mem_pointerRegions hmem
  unfold deviceResumed
  rw [if_pos]
  exact List.any_eq_true.mpr ⟨device, hdevice, by simp [hsame, hresumed]⟩

theorem seatDevice_ok {pointer device : EiDevice} {capability : Capability}
    (h : seatDevice visual pointer capability = .ok device) :
    device.seat = pointer.seat ∧ deviceResumed visual device = .ok () := by
  have hresumed : ∀ known ∈ visual.devices.filter fun device =>
      device.resumed && device.hasCapability capability,
      deviceResumed visual known.device = .ok () := by
    intro known hknown
    obtain ⟨hmem, hable⟩ := List.mem_filter.mp hknown
    rw [Bool.and_eq_true] at hable
    exact if_pos (List.any_eq_true.mpr ⟨known, hmem, by simp [hable.1]⟩)
  unfold seatDevice at h
  dsimp only at h
  split at h
  · next known hfound =>
      cases h
      have hsame := List.find?_some hfound
      rw [decide_eq_true_eq] at hsame
      exact ⟨congrArg EiDevice.seat hsame, hresumed known (List.mem_of_find?_eq_some hfound)⟩
  · split at h
    · next known hfound =>
        cases h
        have hseat := List.find?_some hfound
        rw [decide_eq_true_eq] at hseat
        exact ⟨hseat, hresumed known (List.mem_of_find?_eq_some hfound)⟩
    · cases h

theorem rectContains_of_screenAt {screens : List (CanvasRect ℚ × Display)} {point : ℚ × ℚ}
    {screen : CanvasRect ℚ × Display} (h : screenAt screens point = some screen) :
    rectContains screen.1 point.1 point.2 = true :=
  List.find?_some (p := fun s : CanvasRect ℚ × Display => rectContains s.1 point.1 point.2) h

/-- The seat that a point of the layout is handed to. -/
def seatAt (visual : VisualSession) (canvas : CanvasSnapshot) (point : ℚ × ℚ) : Option Nat :=
  (screenAt (canvas.screens visual) point).bind fun screen =>
    (bindStreamRegion visual screen.2).map fun binding => binding.device.seat

theorem validateCanvas_ok {canvas : CanvasSnapshot} (h : validateCanvas visual = .ok canvas) :
    visual.canvas = some canvas := by
  unfold validateCanvas at h
  split at h
  · cases h
  · next snapshot hsnapshot =>
      obtain ⟨⟨layout, key⟩, -, h⟩ := Outcome.bind_eq_ok.mp h
      dsimp only at h
      split at h
      · cases h
        exact hsnapshot
      · cases h

/-- What a point is handed to. -/
theorem pointerTarget_ok {x y : ℚ} {allowGap : Bool} {sample : Option Target}
    (h : pointerTarget visual x y allowGap = .ok sample) :
    ∃ canvas, validateCanvas visual = .ok canvas ∧
      match screenAt (canvas.screens visual) (canvas.logical x y) with
      | none => sample = none
      | some screen => ∃ binding, bindStreamRegion visual screen.2 = some binding ∧
          sample = some (onRegion binding screen.1 (canvas.logical x y)) := by
  unfold pointerTarget at h
  obtain ⟨canvas, hcanvas, h⟩ := Outcome.bind_eq_ok.mp h
  refine ⟨canvas, hcanvas, ?_⟩
  split at h
  · cases h
  · dsimp only at h
    split at h
    · next tile display hscreen =>
        rw [hscreen]
        split at h
        · cases h
        · next binding hbinding =>
            cases h
            exact ⟨binding, hbinding, rfl⟩
    · next hscreen =>
        rw [hscreen]
        split at h
        · cases h
          rfl
        · cases h

/-- A drag that is let through: the overview it is in, its samples, and the device
for its button. -/
structure DragPlan (visual : VisualSession) (call : PointerCall) (canvas : CanvasSnapshot)
    (first : Target) (rest : List (Option Target)) (device : EiDevice) : Prop where
  valid : validateCanvas visual = .ok canvas
  samples : pointerSamples visual call = .ok (some first :: rest)
  checked : checkDrag visual first.device.seat (canvas.logical call.x call.y)
    (canvas.logical call.goal.1 call.goal.2) (canvas.screens visual) = .ok ()
  able : seatDevice visual first.device .button = .ok device

theorem planPointer_drag (hdrag : call.isDrag = true) (h : planPointer visual call = .ok plan) :
    ∃ canvas first rest device, DragPlan visual call canvas first rest device ∧
      plan = { samples := some first :: rest, buttons := some device, scroll := none } := by
  unfold planPointer at h
  obtain ⟨-, -, h⟩ := Outcome.bind_eq_ok.mp h
  obtain ⟨samples, hsamples, h⟩ := Outcome.bind_eq_ok.mp h
  match samples with
  | [] | none :: _ => cases h
  | some first :: rest =>
      simp only [hdrag, if_true] at h
      obtain ⟨_, hplan, h⟩ := Outcome.bind_eq_ok.mp h
      unfold planDrag at hplan
      obtain ⟨canvas, hcanvas, hchecked⟩ := Outcome.bind_eq_ok.mp hplan
      match htool : call.tool with
      | .drag toX toY duration button =>
          simp only [htool] at h
          obtain ⟨device, hdevice, h⟩ := Outcome.bind_eq_ok.mp h
          cases h
          exact ⟨canvas, first, rest, device, ⟨hcanvas, hsamples, hchecked, hdevice⟩, rfl⟩
      | .click .. | .moveCursor | .scroll .. => simp [PointerCall.isDrag, htool] at hdrag

section Plan

variable {canvas : CanvasSnapshot} {first : Target} {rest : List (Option Target)}
  {device : EiDevice}

/-- A sample of the way, in the layout. -/
def layoutSample (canvas : CanvasSnapshot) (call : PointerCall) (i : Nat) : ℚ × ℚ :=
  canvas.logical (call.sample i).1 (call.sample i).2

/-- The samples of the overview are samples of the layout, at the same fractions. -/
theorem layoutSample_eq (canvas : CanvasSnapshot) (call : PointerCall) (i : Nat) :
    layoutSample canvas call i = along (canvas.logical call.x call.y)
      (canvas.logical call.goal.1 call.goal.2) (call.fraction i) := by
  ext
  · simp only [layoutSample, CanvasSnapshot.logical, PointerCall.sample, along]
    ring
  · simp only [layoutSample, CanvasSnapshot.logical, PointerCall.sample, along]
    ring

theorem fraction_pos {i : Nat} (hpos : 0 < i) (hle : i ≤ call.count) :
    0 < call.fraction i ∧ call.fraction i ≤ 1 := by
  have hcount : 0 < call.count := by omega
  have hcast : (0 : ℚ) < call.count := by exact_mod_cast hcount
  unfold PointerCall.fraction
  rw [if_neg hcount.ne', div_le_one hcast]
  exact ⟨div_pos (by exact_mod_cast hpos) hcast, by exact_mod_cast hle⟩

theorem fraction_zero (call : PointerCall) : call.fraction 0 = 0 := by
  unfold PointerCall.fraction
  split
  · rfl
  · rw [Nat.cast_zero, zero_div]

theorem layoutSample_zero (canvas : CanvasSnapshot) (call : PointerCall) :
    layoutSample canvas call 0 = canvas.logical call.x call.y := by
  rw [layoutSample_eq, fraction_zero]
  ext <;> simp [along]

/-- A sample is handed to the seat of its point. -/
theorem seatAt_of_pointerTarget {x y : ℚ} {allowGap : Bool} {sample : Option Target}
    (hvalid : validateCanvas visual = .ok canvas)
    (h : pointerTarget visual x y allowGap = .ok sample) :
    seatAt visual canvas (canvas.logical x y) = sample.map fun target => target.device.seat := by
  obtain ⟨canvas', hcanvas, htarget⟩ := pointerTarget_ok h
  rw [hvalid] at hcanvas
  cases hcanvas
  unfold seatAt
  cases hscreen : screenAt (canvas.screens visual) (canvas.logical x y) with
  | none =>
      rw [hscreen] at htarget
      rw [htarget]
      rfl
  | some screen =>
      rw [hscreen] at htarget
      obtain ⟨binding, hbinding, rfl⟩ := htarget
      rw [Option.bind_some, hbinding]
      rfl

theorem DragPlan.seatAt_origin (h : DragPlan visual call canvas first rest device) :
    seatAt visual canvas (canvas.logical call.x call.y) = some first.device.seat := by
  have hsamples := Outcome.mapM_ok h.samples
  rw [List.range_succ_eq_map] at hsamples
  cases hsamples with
  | cons hfirst _ =>
      have hseat := seatAt_of_pointerTarget h.valid hfirst
      rwa [← layoutSample, layoutSample_zero] at hseat

/-- Every sample by its number. -/
theorem DragPlan.seatAt_sample (h : DragPlan visual call canvas first rest device)
    {sample : Option Target} (hmem : sample ∈ some first :: rest) :
    ∃ i ≤ call.count, seatAt visual canvas (layoutSample canvas call i)
      = sample.map fun target => target.device.seat := by
  obtain ⟨i, hi, hok⟩ := (Outcome.mapM_mem h.samples).2 sample hmem
  exact ⟨i, Nat.le_of_lt_succ (List.mem_range.mp hi), seatAt_of_pointerTarget h.valid hok⟩

theorem DragPlan.exists_target (h : DragPlan visual call canvas first rest device) {i : Nat}
    (hi : i ≤ call.count) {screen : CanvasRect ℚ × Display}
    (hscreen : screenAt (canvas.screens visual) (layoutSample canvas call i) = some screen) :
    ∃ target, some target ∈ some first :: rest ∧
      seatAt visual canvas (layoutSample canvas call i) = some target.device.seat := by
  obtain ⟨sample, hmem, hok⟩ :=
    (Outcome.mapM_mem h.samples).1 i (List.mem_range.mpr (Nat.lt_succ_of_le hi))
  have hseat := seatAt_of_pointerTarget h.valid hok
  obtain ⟨canvas', hcanvas, htarget⟩ := pointerTarget_ok hok
  rw [h.valid] at hcanvas
  cases hcanvas
  rw [← layoutSample, hscreen] at htarget
  obtain ⟨binding, -, rfl⟩ := htarget
  exact ⟨_, hmem, hseat⟩

theorem checkDrag_ok {seat : Nat} {origin goal : ℚ × ℚ}
    {screens : List (CanvasRect ℚ × Display)}
    (h : checkDrag visual seat origin goal screens = .ok ()) :
    ∀ screen ∈ screens, dragCrossesTile screen.1 origin goal = true →
      ∃ binding, bindStreamRegion visual screen.2 = some binding ∧ binding.device.seat = seat := by
  induction screens with
  | nil => exact fun screen hmem => absurd hmem List.not_mem_nil
  | cons head screens ih =>
      unfold checkDrag at h
      split at h
      · cases h
      · next hpasses =>
          refine List.forall_mem_cons.mpr ⟨fun hcrosses => ?_, ih h⟩
          cases hbinding : bindStreamRegion visual head.2 with
          | none => exact absurd (by simp [hcrosses, hbinding]) hpasses
          | some binding =>
              refine ⟨binding, rfl, ?_⟩
              by_contra hseat
              exact hpasses (by simp [hcrosses, hbinding, hseat])

/-- On a tile that was found on the way a sample stays on the seat. -/
theorem DragPlan.seatAt_crossed (h : DragPlan visual call canvas first rest device)
    {point : ℚ × ℚ} {screen : CanvasRect ℚ × Display}
    (hscreen : screenAt (canvas.screens visual) point = some screen)
    (hcrosses : dragCrossesTile screen.1 (canvas.logical call.x call.y)
      (canvas.logical call.goal.1 call.goal.2) = true) :
    seatAt visual canvas point = some first.device.seat := by
  obtain ⟨binding, hbinding, hseat⟩ :=
    checkDrag_ok h.checked screen (List.mem_of_find?_eq_some hscreen) hcrosses
  rw [seatAt, hscreen, Option.bind_some, hbinding, Option.map_some, hseat]

/-- Each tile that the way only touches, at a sample, is on the seat of the tile the
drag begins in. -/
def TouchesOwnSeat (visual : VisualSession) (call : PointerCall) : Prop :=
  ∀ canvas, visual.canvas = some canvas →
    let origin := canvas.logical call.x call.y
    let goal := canvas.logical call.goal.1 call.goal.2
    ∀ i, 0 < i → i ≤ call.count →
      ∀ screen, screenAt (canvas.screens visual) (layoutSample canvas call i) = some screen →
        Touches screen.1 origin goal (layoutSample canvas call i) →
        seatAt visual canvas (layoutSample canvas call i) = seatAt visual canvas origin

theorem DragPlan.seatAt_of_touches (h : DragPlan visual call canvas first rest device)
    (htouches : TouchesOwnSeat visual call) {i : Nat} (hi : i ≤ call.count)
    {screen : CanvasRect ℚ × Display}
    (hscreen : screenAt (canvas.screens visual) (layoutSample canvas call i) = some screen) :
    seatAt visual canvas (layoutSample canvas call i) = some first.device.seat := by
  rcases Nat.eq_zero_or_pos i with rfl | hpos
  · rw [layoutSample_zero, h.seatAt_origin]
  · obtain ⟨hfraction, hle⟩ := fraction_pos hpos hi
    have hin := rectContains_of_screenAt hscreen
    rw [layoutSample_eq] at hin
    by_cases hcrosses : dragCrossesTile screen.1 (canvas.logical call.x call.y)
        (canvas.logical call.goal.1 call.goal.2) = true
    · exact h.seatAt_crossed hscreen hcrosses
    · rw [dragCrossesTile_iff hfraction hle hin, not_not, ← layoutSample_eq] at hcrosses
      rw [htouches canvas (validateCanvas_ok h.valid) i hpos hi screen hscreen hcrosses,
        h.seatAt_origin]

end Plan

/-! ## What is sent with the button held -/

/-- No motion is on another seat than the device whose button is pressed. -/
def OneSeat (sent : List Sent) : Prop :=
  ∀ target device code, .motion target ∈ sent → .button device code true ∈ sent →
    target.device.seat = device.seat

/-- There is a motion after the button was pressed. -/
def MovesHeld (sent : List Sent) : Prop :=
  ∃ before after device code target,
    sent = before ++ .button device code true :: after ∧ .motion target ∈ after

theorem mem_sendSamples {press : List Sent} {moments : Moments} {i : Nat}
    {samples : List (Option Target)} {event : Sent}
    (h : event ∈ (sendSamples plan press moments i samples).1) :
    event ∈ press ∨ ∃ target, some target ∈ samples ∧ event = .motion target := by
  induction samples generalizing i with
  | nil => cases h
  | cons sample samples ih =>
      unfold sendSamples at h
      split at h
      · cases h
      · rcases List.mem_append.mp h with h | h
        · rcases List.mem_append.mp h with h | h
          · obtain ⟨target, rfl, rfl⟩ : ∃ target, sample = some target ∧
                event = .motion target := by
              cases sample with
              | none => cases h
              | some target => exact ⟨target, rfl, List.mem_singleton.mp h⟩
            exact .inr ⟨target, List.mem_cons_self, rfl⟩
          · split at h
            · exact .inl h
            · cases h
        · exact (ih h).imp_right fun ⟨target, hmem, hevent⟩ =>
            ⟨target, List.mem_cons_of_mem _ hmem, hevent⟩

/-- While everything stays as it was, every sample is sent. -/
theorem sendSamples_steady (press : List Sent) {i : Nat} {samples : List (Option Target)}
    (h : ∀ sample ∈ samples, readyFor plan (.ok visual) sample = .ok ()) :
    (sendSamples plan press (fun _ => .ok visual) (i + 1) samples).1
      = (samples.filterMap id).map Sent.motion := by
  induction samples generalizing i with
  | nil => rfl
  | cons sample samples ih =>
      unfold sendSamples
      rw [h sample List.mem_cons_self]
      dsimp only
      rw [ih fun next hnext => h next (List.mem_cons_of_mem sample hnext), if_neg (by omega)]
      cases sample with
      | none => rfl
      | some target => rfl

section Sending

variable {canvas : CanvasSnapshot} {first : Target} {rest : List (Option Target)}
  {device : EiDevice}

/-- Nothing that a drag is planned with has to be waited for. -/
theorem DragPlan.ready (h : DragPlan visual call canvas first rest device)
    {sample : Option Target} (hmem : sample ∈ some first :: rest) :
    readyFor { samples := some first :: rest, buttons := some device, scroll := none }
      (.ok visual) sample = .ok () := by
  obtain ⟨i, -, hok⟩ := (Outcome.mapM_mem h.samples).2 sample hmem
  have hbuttons := (seatDevice_ok h.able).2
  have htarget : ∀ target, sample = some target →
      deviceResumed visual target.device = .ok () := by
    rintro target rfl
    obtain ⟨canvas', -, htarget⟩ := pointerTarget_ok hok
    cases hscreen : screenAt (canvas'.screens visual)
        (canvas'.logical (call.sample i).1 (call.sample i).2) with
    | none =>
        rw [hscreen] at htarget
        cases htarget
    | some screen =>
        rw [hscreen] at htarget
        obtain ⟨binding, hbinding, hsome⟩ := htarget
        rw [Option.some.inj hsome]
        exact bindStreamRegion_resumed hbinding
  unfold readyFor
  cases sample with
  | none => simp [h.valid, hbuttons, bind, Except.bind, pure, Except.pure]
  | some target =>
      simp [h.valid, hbuttons, htarget target rfl, bind, Except.bind, pure, Except.pure]

/-- What a drag sends while nothing changes: all its samples. -/
theorem DragPlan.sent_steady (h : DragPlan visual call canvas first rest device) (code : Nat) :
    (sendDrag { samples := some first :: rest, buttons := some device, scroll := none } device code
        fun _ => .ok visual).1 =
      .motion first :: .button device code true ::
        (rest.filterMap id).map Sent.motion ++ [.button device code false] := by
  have hlater := sendSamples_steady [Sent.button device code true] (i := 0)
    fun sample hsample => h.ready (List.mem_cons_of_mem (some first) hsample)
  unfold sendDrag
  simp only [sendSamples, h.ready List.mem_cons_self]
  rw [hlater]
  simp

theorem pointerAction_drag (hdrag : call.isDrag = true) (h : planPointer visual call = .ok plan) :
    ∃ canvas first rest device code, DragPlan visual call canvas first rest device ∧
      ∀ moments, pointerAction visual call moments =
        sendDrag { samples := some first :: rest, buttons := some device, scroll := none }
          device code moments := by
  obtain ⟨canvas, first, rest, device, hplan, rfl⟩ := planPointer_drag hdrag h
  match htool : call.tool with
  | .drag toX toY duration button =>
      refine ⟨canvas, first, rest, device, buttonCode button, hplan, fun moments => ?_⟩
      simp only [pointerAction, h, sendPlan, htool]
  | .click .. | .moveCursor | .scroll .. => simp [PointerCall.isDrag, htool] at hdrag

/-- The press and the release are those of the planned device. -/
theorem mem_sendDrag {code : Nat} {moments : Moments} {event : Sent} {device : EiDevice}
    (h : event ∈ (sendDrag plan device code moments).1) :
    (∃ pressed, event = .button device code pressed) ∨
      ∃ target, some target ∈ plan.samples ∧ event = .motion target := by
  rcases List.mem_append.mp h with h | h
  · rcases mem_sendSamples h with hpress | hmotion
    · exact .inl ⟨true, List.mem_singleton.mp hpress⟩
    · exact .inr hmotion
  · split at h
    · exact .inl ⟨false, List.mem_singleton.mp h⟩
    · cases h

/-- A drag that is let through keeps to one seat, whatever happens on the way, just
if the tiles it only touches are on the seat it begins on. -/
theorem drag_oneSeat_iff (hdrag : call.isDrag = true) (h : planPointer visual call = .ok plan) :
    (∀ moments, MovesHeld (pointerAction visual call moments).1 →
      OneSeat (pointerAction visual call moments).1) ↔ TouchesOwnSeat visual call := by
  obtain ⟨canvas, first, rest, device, code, hplan, haction⟩ := pointerAction_drag hdrag h
  have hseat := (seatDevice_ok hplan.able).1
  constructor
  · intro hone canvas' hcanvas origin goal i hpos hi screen hscreen _
    rw [validateCanvas_ok hplan.valid] at hcanvas
    cases hcanvas
    obtain ⟨target, hmem, hsample⟩ := hplan.exists_target hi hscreen
    rw [hsample, hplan.seatAt_origin]
    rcases List.mem_cons.mp hmem with hfirst | hrest
    · rw [Option.some.inj hfirst]
    · -- nothing changes on the way, so the sample is sent
      have hsent := hplan.sent_steady code
      rw [← haction] at hsent
      have hmotion : Sent.motion target ∈ (rest.filterMap id).map Sent.motion :=
        List.mem_map.mpr ⟨target, List.mem_filterMap.mpr ⟨some target, hrest, rfl⟩, rfl⟩
      have hone := hone (fun _ => .ok visual)
        ⟨[.motion first], _, device, code, target, hsent, List.mem_append_left _ hmotion⟩
      rw [hsent] at hone
      have hin := List.mem_append_left [Sent.button device code false]
        (List.mem_cons_of_mem (.motion first)
          (List.mem_cons_of_mem (.button device code true) hmotion))
      rw [hone target device code hin (by simp), hseat]
  · intro htouches moments _ target pressed code' htarget hpressed
    rw [haction] at htarget hpressed
    have hdevice : pressed = device := by
      rcases mem_sendDrag hpressed with ⟨_, heq⟩ | ⟨_, _, heq⟩
      · cases heq
        rfl
      · cases heq
    rcases mem_sendDrag htarget with ⟨_, heq⟩ | ⟨sent, hsent, heq⟩
    · cases heq
    · cases heq
      obtain ⟨i, hi, hsample⟩ := hplan.seatAt_sample hsent
      cases hscreen : screenAt (canvas.screens visual) (layoutSample canvas call i) with
      | none =>
          rw [seatAt, hscreen] at hsample
          cases hsample
      | some screen =>
          rw [hplan.seatAt_of_touches htouches hi hscreen] at hsample
          rw [hdevice, hseat]
          exact (Option.some.inj hsample).symm

end Sending

/-! ## A drag to the edge of a display -/

/-- Two displays side by side, and a pointer for each. -/
def sideBySide (seat : Nat) : VisualSession :=
  let display (name : String) (x : Int) : Display :=
    { mappingId := some name.toList, width := 100, height := 100, logicalX := x, logicalY := 0,
      logicalWidth := 100, logicalHeight := 100, hasGeometry := true, revision := 0,
      failed := false }
  let pointer (id seat : Nat) (name : String) : InputDevice :=
    { device := ⟨id, seat⟩, resumed := true, capabilities := [.pointerAbsolute, .button],
      regions := [⟨some name.toList, 0, 0, 100, 100⟩] }
  let session : VisualSession :=
    { broken := false, owner := some ":1.5".toList, mappingRevision := 0, canvas := none,
      devices := [pointer 1 1 "DP-1", pointer 2 seat "DP-2"],
      displays := [display "DP-1" 0, display "DP-2" 100] }
  let overview : CanvasSnapshot :=
    { key := canvasKey session, width := 200, height := 100,
      layout := boundingLayout ⟨0, 0, 100, 100⟩ [⟨100, 0, 100, 100⟩] }
  { session with canvas := some overview }

/-- A drag that ends on the left edge of the second display. -/
def edgeDrag : PointerCall := { x := 50, y := 50, tool := .drag 100 50 (some 16) .left }

def edgePlan (seat : Nat) : Plan where
  samples := [some ⟨⟨1, 1⟩, 50, 50⟩, some ⟨⟨2, seat⟩, 0, 50⟩]
  buttons := some ⟨1, 1⟩
  scroll := none

theorem edgeDrag_sent {seat : Nat} (h : seat = 1 ∨ seat = 2) :
    (pointerAction (sideBySide seat) edgeDrag fun _ => .ok (sideBySide seat)).1 =
      [.motion ⟨⟨1, 1⟩, 50, 50⟩, .button ⟨1, 1⟩ 0x110 true, .motion ⟨⟨2, seat⟩, 0, 50⟩,
        .button ⟨1, 1⟩ 0x110 false] := by
  rcases h with rfl | rfl <;> with_unfolding_all rfl

/-- It takes the button of the one seat to the pointer of the other. -/
theorem edgeDrag_leavesSeat : ¬ ∀ visual call plan, call.isDrag = true →
    planPointer visual call = .ok plan → ∀ moments,
      MovesHeld (pointerAction visual call moments).1 →
      OneSeat (pointerAction visual call moments).1 := by
  intro h
  have hplanned : planPointer (sideBySide 2) edgeDrag = .ok (edgePlan 2) := by
    with_unfolding_all rfl
  have hone := h _ _ _ rfl hplanned fun _ => .ok (sideBySide 2)
  rw [edgeDrag_sent (.inr rfl)] at hone
  have hheld := hone ⟨[_], [_, _], _, _, _, rfl, List.mem_cons_self⟩
  have hseat := hheld ⟨⟨2, 2⟩, 0, 50⟩ ⟨1, 1⟩ 0x110 (by simp) (by simp)
  exact absurd hseat (by decide)

/-- With both pointers on one seat it does not matter. -/
theorem edgeDrag_oneSeat :
    OneSeat (pointerAction (sideBySide 1) edgeDrag fun _ => .ok (sideBySide 1)).1 := by
  have hplanned : planPointer (sideBySide 1) edgeDrag = .ok (edgePlan 1) := by
    with_unfolding_all rfl
  have hheld : MovesHeld (pointerAction (sideBySide 1) edgeDrag fun _ => .ok (sideBySide 1)).1 := by
    rw [edgeDrag_sent (.inl rfl)]
    exact ⟨[_], [_, _], _, _, _, rfl, List.mem_cons_self⟩
  refine (drag_oneSeat_iff rfl hplanned).mpr ?_ _ hheld
  intro canvas hcanvas origin goal i hpos hle screen _ _
  obtain rfl : i = 1 := Nat.le_antisymm hle hpos
  cases hcanvas
  show seatAt _ _ _ = seatAt _ _ _
  decide +kernel

end Spaces.Computer.Pointer
