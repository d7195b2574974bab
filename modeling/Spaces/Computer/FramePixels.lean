import Mathlib.Algebra.Order.Ring.Nat
import Mathlib.Tactic.Ring
import Spaces.Library.Checked

/-!
# The pixels of a captured frame

The compositor answers a capture with the width, height, stride and format of an image
and sends its bytes. `host_capture` judges the numbers before it takes memory for the
bytes, and `decode_kwin_pixels` judges them again and turns each pixel into three bytes.

Both compute with numbers the compositor has chosen. The first check that multiplies
three of them comes after the one that bounds the length, and a length that is bounded
and not zero bounds the height. Everything after it is below the limit of a frame.
-/

namespace Spaces.Computer.Capture

open Spaces.Library Spaces.Library.Checked

def maxFrameBytes : Nat := 256 * 1024 * 1024

inductive CaptureError
  | call
  | metadataInvalid
  | memoryLimit
  | interrupted
  | formatInvalid
  | allocationFailed
  deriving DecidableEq

/-- What is looked up in the reply. An entry that is missing stays as it was. -/
structure Metadata where
  width : UInt32
  height : UInt32
  stride : UInt32
  format : UInt32

/-- `GBytes`: some of a block of memory, and no more than there is. -/
structure Frame where
  block : Array UInt8
  size : Nat
  inside : size ≤ block.size

variable {m n : Nat}

/-- `g_bytes_new_take`. -/
def takeBytes (pixels : Vector UInt8 n) (size : Nat) : Checked Frame :=
  if h : size ≤ n then .ok ⟨pixels.toArray, size, h.trans pixels.size_toArray.ge⟩
  else .error .readOutside

def channels (format : UInt32) : Nat := if format = 13 then 3 else 4

def supported (format : UInt32) : Bool :=
  format = 4 || format = 5 || format = 6 || format = 13 || format = 16 || format = 17 ||
    format = 18

/-- The four bytes of an `uint32_t`, the lowest first. -/
def word (bytes : Vector UInt8 4) : UInt32 :=
  bytes[0].toUInt32 ||| bytes[1].toUInt32 <<< 8 ||| bytes[2].toUInt32 <<< 16 |||
    bytes[3].toUInt32 <<< 24

/-- The three bytes of a pixel over black. -/
def paint (pixels : Vector UInt8 m) (out alpha : Nat) : Checked (Vector UInt8 m) :=
  forBelow 32 (fun c pixels => do
    let value ← load pixels (← add 64 out c)
    let product ← mul 32 value.toNat alpha
    store pixels (← add 64 out c) (UInt8.ofNat (product / 255))) pixels 3

/-- A pixel that is a word, of formats 4 to 6. -/
def decodeWord (raw : Vector UInt8 n) (pixels : Vector UInt8 m) (format : UInt32) (i out : Nat) :
    Checked (Vector UInt8 m) := do
  let argb := word (← copy raw (Vector.replicate 4 0) i 0 4)
  let pixels ← store pixels out (argb >>> 16).toUInt8
  let pixels ← store pixels (← add 64 out 1) (argb >>> 8).toUInt8
  let pixels ← store pixels (← add 64 out 2) argb.toUInt8
  paint pixels out (if format = 5 then (argb >>> 24).toNat else 255)

def bytesAlpha (raw : Vector UInt8 n) (format : UInt32) (i : Nat) : Checked Nat :=
  if format = 17 then do
    let alpha ← load raw (← add 64 i 3)
    return alpha.toNat
  else return 255

/-- A pixel that is three bytes, and a fourth where the format has one. -/
def decodeBytes (raw : Vector UInt8 n) (pixels : Vector UInt8 m) (format : UInt32) (i out : Nat) :
    Checked (Vector UInt8 m) := do
  let pixels ← copy raw pixels i out 3
  let alpha ← bytesAlpha raw format i
  paint pixels out alpha

/-- The body of the two loops. -/
def decodePixel (raw : Vector UInt8 n) (width stride format : UInt32) (y x : Nat)
    (pixels : Vector UInt8 m) : Checked (Vector UInt8 m) := do
  let i ← add 64 (← mul 64 y stride.toNat) (← mul 32 x (channels format))
  let out ← mul 64 (← add 64 (← mul 64 y width.toNat) x) 3
  if 4 ≤ format && format ≤ 6 then decodeWord raw pixels format i out
  else decodeBytes raw pixels format i out

/-- The condition at the head of `decode_kwin_pixels`, each part of it only if none
before it has refused. -/
def acceptable (width height stride format : UInt32) (length : Nat) : Checked Bool :=
  if !supported format || width = 0 || height = 0 then return false
  else do
    let bytes ← mul 64 (← mul 64 width.toNat height.toNat) 4
    if bytes > maxFrameBytes then return false
    else do
      let row ← mul 64 width.toNat (channels format)
      if row > stride.toNat then return false
      else do
        let total ← mul 64 stride.toNat height.toNat
        return total = length

section

-- `g_try_malloc` gives no memory, or a block with whatever is in it, and
-- `host_read_pixels` fills a block or gives up
variable (malloc : (n : Nat) → Option (Vector UInt8 n))
  (readPixels : (n : Nat) → Vector UInt8 n → Except CaptureError (Vector UInt8 n))

def decodeKwinPixels (raw : Vector UInt8 n) (width height stride format : UInt32) :
    Checked (Except CaptureError Frame) := do
  let accepted ← acceptable width height stride format n
  if !accepted then return .error .formatInvalid
  else do
    let size ← mul 64 (← mul 64 width.toNat height.toNat) 3
    match malloc size with
    | none => return .error .allocationFailed
    | some pixels => do
        let pixels ← forBelow 32 (fun y pixels =>
          forBelow 32 (fun x pixels => decodePixel raw width stride format y x pixels)
            pixels width.toNat) pixels height.toNat
        let frame ← takeBytes pixels (← mul 64 (← mul 64 width.toNat height.toNat) 3)
        return .ok frame

/-- `host_capture` from the compositor's reply on. -/
def hostCapture (reply : Except CaptureError Metadata) : Checked (Except CaptureError Frame) :=
  match reply with
  | .error e => return .error e
  | .ok metadata => do
      let length ← mul 64 metadata.stride.toNat metadata.height.toNat
      if 0 < metadata.width && 0 < metadata.height && 0 < length && length ≤ maxFrameBytes then do
        let bytes ← mul 64 (← mul 64 metadata.width.toNat metadata.height.toNat) 4
        if bytes ≤ maxFrameBytes then
          match malloc length with
          | none => return .error .memoryLimit
          | some raw =>
              match readPixels length raw with
              | .error e => return .error e
              | .ok raw =>
                  decodeKwinPixels malloc raw metadata.width metadata.height metadata.stride
                    metadata.format
        else return .error .metadataInvalid
      else return .error .metadataInvalid

end

/-! ## Where the accesses fall -/

variable {width height stride format : UInt32} {x y i out : Nat}

theorem channels_le (format : UInt32) : channels format ≤ 4 := by
  unfold channels
  split <;> omega

theorem three_le_channels (format : UInt32) : 3 ≤ channels format := by
  unfold channels
  split <;> omega

/-- Only the format with three bytes a pixel has no fourth one. -/
theorem channels_of_ne (h : format ≠ 13) : channels format = 4 := if_neg h

/-- The number of a cell in a table of rows. -/
theorem cell_lt {w h : Nat} (hx : x < w) (hy : y < h) : y * w + x < w * h := by
  calc y * w + x < y * w + w := Nat.add_lt_add_left hx _
    _ = (y + 1) * w := (Nat.succ_mul y w).symm
    _ ≤ h * w := Nat.mul_le_mul_right w hy
    _ = w * h := Nat.mul_comm h w

/-- A pixel of a row that fits into the stride ends before the rows do. -/
theorem source_le {w h c s : Nat} (hx : x < w) (hy : y < h) (hrow : w * c ≤ s) :
    y * s + x * c + c ≤ s * h := by
  calc y * s + x * c + c = y * s + (x + 1) * c := by ring
    _ ≤ y * s + w * c := Nat.add_le_add_left (Nat.mul_le_mul_right c hx) _
    _ ≤ y * s + s := Nat.add_le_add_left hrow _
    _ = (y + 1) * s := (Nat.succ_mul y s).symm
    _ ≤ h * s := Nat.mul_le_mul_right s hy
    _ = s * h := Nat.mul_comm h s

theorem paint_runs (pixels : Vector UInt8 m) {alpha : Nat} (hm : m < 2 ^ 64) (hout : out + 3 ≤ m)
    (halpha : alpha < 256) : Runs (paint pixels out alpha) (fun _ => True) := by
  refine runs_forBelow (by omega) (fun c hc pixels => ?_) pixels
  refine (runs_add (by omega)).bind (fun j hj => ?_)
  refine (runs_load pixels (by omega)).bind (fun value _ => ?_)
  have hproduct : value.toNat * alpha ≤ 255 * 255 :=
    Nat.mul_le_mul (Nat.le_of_lt_succ value.toNat_lt) (Nat.le_of_lt_succ halpha)
  refine (runs_mul (by omega)).bind (fun product _ => ?_)
  refine (runs_add (by omega)).bind (fun k hk => ?_)
  exact runs_store pixels _ (by omega)

theorem top_lt (argb : UInt32) : (argb >>> 24).toNat < 256 := by
  have h := argb.toNat_lt
  have hshift : (24 : UInt32).toNat % 32 = 24 := rfl
  rw [UInt32.toNat_shiftRight, hshift, Nat.shiftRight_eq_div_pow]
  omega

theorem decodeWord_runs (raw : Vector UInt8 n) (pixels : Vector UInt8 m) (format : UInt32)
    (hn : n < 2 ^ 64) (hm : m < 2 ^ 64) (hi : i + 4 ≤ n) (hout : out + 3 ≤ m) :
    Runs (decodeWord raw pixels format i out) (fun _ => True) := by
  refine (runs_copy raw _ hn (by omega) hi (by omega)).bind (fun bytes _ => ?_)
  refine (runs_store pixels _ (by omega)).bind (fun pixels _ => ?_)
  refine (runs_add (by omega)).bind (fun j hj => ?_)
  refine (runs_store pixels _ (by omega)).bind (fun pixels _ => ?_)
  refine (runs_add (by omega)).bind (fun k hk => ?_)
  refine (runs_store pixels _ (by omega)).bind (fun pixels _ => ?_)
  refine paint_runs pixels hm hout ?_
  split
  · exact top_lt _
  · omega

theorem bytesAlpha_runs (raw : Vector UInt8 n) (hn : n < 2 ^ 64) (hi : i + channels format ≤ n) :
    Runs (bytesAlpha raw format i) (· < 256) := by
  unfold bytesAlpha
  split
  · next hformat =>
      have hfour : channels format = 4 := channels_of_ne (by rw [hformat]; decide)
      refine (runs_add (by omega)).bind (fun j hj => ?_)
      refine (runs_load raw (by omega)).bind (fun alpha _ => ?_)
      exact runs_ok alpha.toNat_lt
  · exact runs_ok (by omega)

theorem decodeBytes_runs (raw : Vector UInt8 n) (pixels : Vector UInt8 m) (hn : n < 2 ^ 64)
    (hm : m < 2 ^ 64) (hi : i + channels format ≤ n) (hout : out + 3 ≤ m) :
    Runs (decodeBytes raw pixels format i out) (fun _ => True) := by
  have hthree := three_le_channels format
  refine (runs_copy raw pixels hn hm (by omega) hout).bind (fun pixels _ => ?_)
  refine (bytesAlpha_runs raw hn hi).bind (fun alpha halpha => ?_)
  exact paint_runs pixels hm hout halpha

/-- What the two checks leave of the numbers. -/
structure Admitted (width height stride format : UInt32) (length : Nat) : Prop where
  total : stride.toNat * height.toNat = length
  length_le : length ≤ maxFrameBytes
  bytes_le : width.toNat * height.toNat * 4 ≤ maxFrameBytes
  row_le : width.toNat * channels format ≤ stride.toNat

theorem decodePixel_runs (raw : Vector UInt8 n) (pixels : Vector UInt8 m)
    (h : Admitted width height stride format n) (hm : m = width.toNat * height.toNat * 3)
    (hy : y < height.toNat) (hx : x < width.toNat) :
    Runs (decodePixel raw width stride format y x pixels) (fun _ => True) := by
  obtain ⟨htotal, hlength, hbytes, hrow⟩ := h
  rw [maxFrameBytes] at hlength hbytes
  have hsource := source_le hx hy hrow
  have hcell := cell_lt hx hy
  have hstride := stride.toNat_lt
  have hcolumn : x * channels format ≤ width.toNat * channels format :=
    Nat.mul_le_mul_right _ hx.le
  refine (runs_mul (by omega)).bind (fun line hline => ?_)
  refine (runs_mul (by omega)).bind (fun column hcol => ?_)
  refine (runs_add (by omega)).bind (fun i hi => ?_)
  refine (runs_mul (by omega)).bind (fun above habove => ?_)
  refine (runs_add (by omega)).bind (fun cell hc => ?_)
  refine (runs_mul (by omega)).bind (fun out hout => ?_)
  split
  · next hword =>
      have hfour : channels format = 4 := by
        apply channels_of_ne
        rintro rfl
        exact absurd hword (by decide)
      exact decodeWord_runs raw pixels format (by omega) (by omega) (by omega) (by omega)
  · exact decodeBytes_runs raw pixels (by omega) (by omega) (by omega) (by omega)

/-! ## What the checks admit -/

/-- The head of the decoder, behind a check of the length and of the area. -/
theorem acceptable_runs (htotal : stride.toNat * height.toNat = n) (hlength : n ≤ maxFrameBytes)
    (hbytes : width.toNat * height.toNat * 4 ≤ maxFrameBytes) :
    Runs (acceptable width height stride format n)
      (fun accepted => accepted = true → Admitted width height stride format n) := by
  have hlimit : maxFrameBytes < 2 ^ 64 := by decide
  have hfour := channels_le format
  have hwidth := width.toNat_lt
  unfold acceptable
  split
  · exact runs_ok (fun h => absurd h Bool.false_ne_true)
  · refine (runs_mul (by omega)).bind (fun area harea => ?_)
    refine (runs_mul (by omega)).bind (fun bytes hb => ?_)
    split
    · exact runs_ok (fun h => absurd h Bool.false_ne_true)
    · have hrow : width.toNat * channels format ≤ width.toNat * 4 :=
        Nat.mul_le_mul_left _ hfour
      refine (runs_mul (by omega)).bind (fun row hr => ?_)
      split
      · exact runs_ok (fun h => absurd h Bool.false_ne_true)
      · next hstride =>
          refine (runs_mul (by omega)).bind (fun total _ => ?_)
          exact runs_ok (fun _ => ⟨htotal, hlength, hbytes, by omega⟩)

-- on its own the head wraps: it is the bound on the length that keeps the area small
example : acceptable 2147483648 2147483648 1 4 0 = .error .wrapped := rfl

theorem takeBytes_runs (pixels : Vector UInt8 n) {size : Nat} (h : size = n) :
    Runs (takeBytes pixels size) (fun frame => frame.size = n) :=
  ⟨_, dif_pos h.le, h⟩

section

variable {malloc : (n : Nat) → Option (Vector UInt8 n)}

theorem decodeKwinPixels_runs (raw : Vector UInt8 n)
    (htotal : stride.toNat * height.toNat = n) (hlength : n ≤ maxFrameBytes)
    (hbytes : width.toNat * height.toNat * 4 ≤ maxFrameBytes) :
    Runs (decodeKwinPixels malloc raw width height stride format) (fun result =>
      ∀ frame, result = .ok frame → frame.size = width.toNat * height.toNat * 3) := by
  have hlimit : maxFrameBytes < 2 ^ 32 := by decide
  unfold decodeKwinPixels
  refine (acceptable_runs htotal hlength hbytes).bind (fun accepted hadmitted => ?_)
  split
  · exact runs_ok (fun frame h => by cases h)
  · next haccepted =>
      have hall := hadmitted (by simpa using haccepted)
      refine (runs_mul (by omega)).bind (fun area harea => ?_)
      refine (runs_mul (by omega)).bind (fun size hsize => ?_)
      subst harea hsize
      split
      · exact runs_ok (fun frame h => by cases h)
      · next pixels _ =>
          have hloops := runs_forBelow (height.toNat_lt) (fun y hy pixels =>
            runs_forBelow (width.toNat_lt) (fun x hx pixels =>
              decodePixel_runs raw pixels hall rfl hy hx) pixels) pixels
          refine hloops.bind (fun pixels _ => ?_)
          refine (runs_mul (by omega)).bind (fun area harea => ?_)
          refine (runs_mul (by omega)).bind (fun size hsize => ?_)
          refine (takeBytes_runs pixels (by omega)).bind (fun frame hframe => ?_)
          exact runs_ok (fun frame' h => Except.ok.inj h ▸ hframe)

end

example : (decodeKwinPixels (fun n => some (Vector.replicate n 0)) #v[48, 32, 16, 128] 1 1 4 5).map
    (fun result => result.toOption.map (·.block)) = .ok (some #[8, 16, 24]) := by decide +kernel

/-- A length that is neither zero nor above a limit bounds the height. -/
theorem area_le {w h s limit : Nat} (hw : w < 2 ^ 32) (hpos : 0 < s * h) (hle : s * h ≤ limit) :
    w * h ≤ 2 ^ 32 * limit := by
  have hs : 0 < s := Nat.pos_of_mul_pos_right hpos
  exact Nat.mul_le_mul hw.le ((Nat.le_mul_of_pos_left h hs).trans hle)

/-- Whatever the compositor answers, nothing wraps and nothing outside of the two blocks
is touched, and a frame has three bytes for each pixel. -/
theorem hostCapture_inBounds (malloc : (n : Nat) → Option (Vector UInt8 n))
    (readPixels : (n : Nat) → Vector UInt8 n → Except CaptureError (Vector UInt8 n))
    (reply : Except CaptureError Metadata) :
    ∃ result, hostCapture malloc readPixels reply = .ok result ∧
      ∀ metadata frame, reply = .ok metadata → result = .ok frame →
        frame.size = metadata.width.toNat * metadata.height.toNat * 3 := by
  cases reply with
  | error e => exact ⟨.error e, rfl, fun _ _ h => by cases h⟩
  | ok metadata =>
      suffices h : Runs (hostCapture malloc readPixels (.ok metadata)) (fun result =>
          ∀ frame, result = .ok frame →
            frame.size = metadata.width.toNat * metadata.height.toNat * 3) by
        obtain ⟨result, hresult, hframe⟩ := h
        exact ⟨result, hresult, fun _ frame hreply => Except.ok.inj hreply ▸ hframe frame⟩
      have hlimit : maxFrameBytes = 2 ^ 28 := rfl
      have hwidth := metadata.width.toNat_lt
      have hproduct := Nat.mul_lt_mul'' metadata.stride.toNat_lt metadata.height.toNat_lt
      unfold hostCapture
      refine (runs_mul (by omega)).bind (fun length hlength => ?_)
      subst hlength
      split
      · next hadmitted =>
          simp only [Bool.and_eq_true, decide_eq_true_eq] at hadmitted
          have harea := area_le hwidth hadmitted.1.2 hadmitted.2
          refine (runs_mul (by omega)).bind (fun area hval => ?_)
          refine (runs_mul (by omega)).bind (fun bytes hbytes => ?_)
          subst hval hbytes
          split
          · next hbytes =>
              split
              · exact runs_ok (fun frame h => by cases h)
              · split
                · exact runs_ok (fun frame h => by cases h)
                · exact decodeKwinPixels_runs _ rfl hadmitted.2 hbytes
          · exact runs_ok (fun frame h => by cases h)
      · exact runs_ok (fun frame h => by cases h)

end Spaces.Computer.Capture
