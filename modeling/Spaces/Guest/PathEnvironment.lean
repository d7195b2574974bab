import Mathlib.Data.List.Sublists
import Spaces.Library.Block
import Spaces.Library.Records

/-!
# Merging search paths

The paths of the guest's service manager go behind those that Spaces prefers. A
component that is there already is not put there again, and an empty one is passed
over.

The result grows in one block, which is long enough: what is put behind it never is
longer than what was read of the preserved paths with the colons between them.
-/

namespace Spaces.Guest

open Spaces.Library

/-- A string of C, without the zero at its end. -/
abbrev CString := { bytes : List UInt8 // 0 ∉ bytes }

def colon : UInt8 := 58

/-- `end == NULL ? strlen(cursor) : end - cursor`, for `end = strchr(cursor, ':')`. -/
def componentLength (cursor : List UInt8) : Nat := cursor.findIdx (· == colon)

def pathHasComponent (cursor component : List UInt8) : Bool :=
  if cursor = [] then false
  else if cursor.take (componentLength cursor) = component then true
  else if componentLength cursor = cursor.length then false
  else pathHasComponent (cursor.drop (componentLength cursor + 1)) component
termination_by cursor.length
decreasing_by
  rw [List.length_drop]
  have := List.length_pos_of_ne_nil ‹_›
  omega

/-- A colon, unless nothing is there yet. -/
def startComponent (merged : Block UInt8) (length : Nat) : Access (Block UInt8 × Nat) :=
  if 0 < length then do
    let merged ← merged.store length colon
    return (merged, length + 1)
  else return (merged, length)

def appendComponent (merged : Block UInt8) (length : Nat) (component : List UInt8) :
    Access (Block UInt8 × Nat) := do
  let (merged, length) ← startComponent merged length
  let merged ← merged.copy length component
  let length := length + component.length
  let merged ← merged.store length 0
  return (merged, length)

def mergeComponent (merged : Block UInt8) (length : Nat) (component : List UInt8) :
    Access (Block UInt8 × Nat) :=
  if 0 < component.length then do
    let text ← merged.string 0
    if pathHasComponent text component then pure (merged, length)
    else appendComponent merged length component
  else pure (merged, length)

def mergeLoop (merged : Block UInt8) (length : Nat) (cursor : List UInt8) :
    Access (Block UInt8) :=
  if cursor = [] then .ok merged
  else do
    let component := cursor.take (componentLength cursor)
    let (merged, length) ← mergeComponent merged length component
    if componentLength cursor = cursor.length then pure merged
    else mergeLoop merged length (cursor.drop (componentLength cursor + 1))
termination_by cursor.length
decreasing_by
  rw [List.length_drop]
  have := List.length_pos_of_ne_nil ‹_›
  omega

/-- `merge_path_environment`. It returns `NULL` where nothing could be allocated. -/
def mergePathEnvironment (available : Bool) (preferred preserved : CString) :
    Access (Option (Block UInt8)) :=
  if available then do
    let merged := Block.allocate (preferred.1.length + preserved.1.length + 2)
    let merged ← merged.copy 0 preferred.1
    let merged ← merged.store preferred.1.length 0
    let merged ← mergeLoop merged preferred.1.length preserved.1
    return some merged
  else .ok none

/-! ## Components -/

/-- The components of a path that are not empty. -/
def components (path : List UInt8) : List (List UInt8) :=
  (path.splitOn colon).filter (· ≠ [])

/-- A component at the end of a path. -/
def follow (text component : List UInt8) : List UInt8 :=
  if text = [] then component else text ++ colon :: component

/-- A path is empty, or a single component, or a component with a path behind it. -/
theorem path_induction {P : List UInt8 → Prop} (empty : P [])
    (single : ∀ component, component ≠ [] → colon ∉ component → P component)
    (more : ∀ component rest, colon ∉ component → P rest → P (component ++ colon :: rest))
    (path : List UInt8) : P path := by
  induction hlength : path.length using Nat.strong_induction_on generalizing path with
  | _ length ih =>
      by_cases hcolon : colon ∈ path
      · obtain ⟨component, rest, rfl, hnone⟩ := List.eq_append_cons_of_mem hcolon
        refine more component rest hnone (ih rest.length ?_ rest rfl)
        rw [List.length_append, List.length_cons] at hlength
        omega
      · rcases eq_or_ne path [] with rfl | hne
        · exact empty
        · exact single path hne hcolon

theorem componentLength_single {component : List UInt8} (h : colon ∉ component) :
    componentLength component = component.length := by
  refine List.findIdx_eq_length_of_false fun byte hmem => ?_
  exact beq_eq_false_iff_ne.mpr fun heq => h (heq ▸ hmem)

theorem componentLength_append {component : List UInt8} (h : colon ∉ component)
    (rest : List UInt8) : componentLength (component ++ colon :: rest) = component.length := by
  have hlength : component.findIdx (· == colon) = component.length := componentLength_single h
  rw [componentLength, List.findIdx_append, hlength, if_neg (Nat.lt_irrefl _), List.findIdx_cons]
  simp

theorem components_nil : components [] = [] := rfl

theorem components_single {component : List UInt8} (h : colon ∉ component)
    (hne : component ≠ []) : components component = [component] := by
  rw [components, List.splitOn_eq_singleton h]
  simp [hne]

theorem components_append (path rest : List UInt8) :
    components (path ++ colon :: rest) = components path ++ components rest := by
  rw [components, List.splitOn_append_cons_self, List.filter_append, components, components]

theorem components_follow {text component : List UInt8} (h : colon ∉ component)
    (hne : component ≠ []) :
    components (follow text component) = components text ++ [component] := by
  unfold follow
  split
  · next htext => rw [htext, components_nil, List.nil_append, components_single h hne]
  · rw [components_append, components_single h hne]

/-- What is behind the colon. -/
theorem drop_past (component rest : List UInt8) :
    (component ++ colon :: rest).drop (component.length + 1) = rest := by
  rw [← List.drop_drop, List.drop_left, List.drop_one, List.tail_cons]

theorem pathHasComponent_single {first : List UInt8} (hfirst : colon ∉ first) (hne : first ≠ [])
    (component : List UInt8) : pathHasComponent first component = decide (first = component) := by
  rw [pathHasComponent, if_neg hne, componentLength_single hfirst, List.take_length]
  simp

theorem pathHasComponent_append {first : List UInt8} (hfirst : colon ∉ first)
    (rest component : List UInt8) : pathHasComponent (first ++ colon :: rest) component
      = (decide (first = component) || pathHasComponent rest component) := by
  rw [pathHasComponent, if_neg (by simp), componentLength_append hfirst, List.take_left,
    if_neg (by simp : ¬ first.length = (first ++ colon :: rest).length), drop_past]
  by_cases heq : first = component
  · simp [heq]
  · simp [heq]

theorem pathHasComponent_iff (path : List UInt8) {component : List UInt8} (hne : component ≠ []) :
    pathHasComponent path component = true ↔ component ∈ components path := by
  induction path using path_induction with
  | empty => simp [pathHasComponent, components_nil]
  | single first hfirst hnone =>
      rw [pathHasComponent_single hnone hfirst, components_single hnone hfirst]
      simp [eq_comm]
  | more first rest hnone ih =>
      rw [pathHasComponent_append hnone, Bool.or_eq_true, ih, components_append, List.mem_append]
      refine or_congr_left ?_
      rcases eq_or_ne first [] with rfl | hfirst
      · simp [components_nil, hne.symm]
      · rw [components_single hnone hfirst]
        simp [eq_comm]

/-! ## Merging in place -/

def addMissing (text component : List UInt8) : List UInt8 :=
  if component ∈ components text then text else follow text component

theorem length_follow_le (text component : List UInt8) :
    (follow text component).length ≤ text.length + component.length + 1 := by
  unfold follow
  split
  · omega
  · rw [List.length_append, List.length_cons]
    omega

theorem zero_not_mem_follow {text component : List UInt8} (htext : 0 ∉ text)
    (hcomponent : 0 ∉ component) : 0 ∉ follow text component := by
  unfold follow
  split
  · exact hcomponent
  · rw [List.mem_append, List.mem_cons]
    rintro (hmem | hmem | hmem)
    · exact htext hmem
    · exact absurd hmem (by decide)
    · exact hcomponent hmem

/-- The colon takes the place of the zero. -/
theorem startComponent_spec {merged : Block UInt8} {text : List UInt8}
    (h : Block.Begins merged (text ++ [0])) :
    ∃ merged' start, startComponent merged text.length = .ok (merged', start.length)
      ∧ Block.Begins merged' start ∧ merged'.length = merged.length
      ∧ ∀ component, start ++ component = follow text component := by
  unfold startComponent follow
  rcases eq_or_ne text [] with rfl | hne
  · exact ⟨merged, [], rfl, Block.begins_nil merged, rfl, fun component => rfl⟩
  · have hroom := h.length_le
    rw [List.length_append, List.length_singleton] at hroom
    obtain ⟨stored, hstore, hbegins, hlength⟩ := h.of_append.store colon (by omega)
    refine ⟨stored, text ++ [colon], ?_, hbegins, hlength, fun component => ?_⟩
    · rw [if_pos (List.length_pos_of_ne_nil hne), hstore, List.length_append]
      rfl
    · rw [if_neg hne, List.append_assoc, List.singleton_append]

theorem appendComponent_spec {merged : Block UInt8} {text component : List UInt8}
    (h : Block.Begins merged (text ++ [0]))
    (hroom : text.length + component.length + 2 ≤ merged.length) :
    ∃ merged', appendComponent merged text.length component
        = .ok (merged', (follow text component).length)
      ∧ Block.Begins merged' (follow text component ++ [0])
      ∧ merged'.length = merged.length := by
  have hfollow := length_follow_le text component
  obtain ⟨started, start, hstarted, hbegins, hlength, htext⟩ := startComponent_spec h
  have hlong := congrArg List.length (htext component)
  rw [List.length_append] at hlong
  obtain ⟨copied, hcopy, hbegins, hlength'⟩ := hbegins.copy component (by omega)
  rw [htext] at hbegins
  obtain ⟨stored, hstore, hbegins, hlength''⟩ := hbegins.store 0 (by omega)
  rw [← hlong] at hstore
  refine ⟨stored, ?_, hbegins, by omega⟩
  rw [appendComponent, hstarted, ← hlong]
  simp only [bind, Except.bind, hcopy, hstore]
  rfl

/-- What one component, which may be empty, makes of the text. -/
def mergeText (text component : List UInt8) : List UInt8 :=
  (components component).foldl addMissing text

theorem mergeText_bounds {text component : List UInt8} (hcolon : colon ∉ component)
    (htext : 0 ∉ text) (hcomponent : 0 ∉ component) :
    0 ∉ mergeText text component
      ∧ (mergeText text component).length ≤ text.length + component.length + 1 := by
  unfold mergeText
  rcases eq_or_ne component [] with rfl | hne
  · exact ⟨htext, Nat.le_add_right _ _⟩
  · rw [components_single hcolon hne, List.foldl_cons, List.foldl_nil, addMissing]
    split
    · exact ⟨htext, by omega⟩
    · exact ⟨zero_not_mem_follow htext hcomponent, length_follow_le text component⟩

theorem mergeComponent_spec {merged : Block UInt8} {text component : List UInt8}
    (h : Block.Begins merged (text ++ [0])) (hzero : 0 ∉ text) (hcolon : colon ∉ component)
    (hroom : text.length + component.length + 2 ≤ merged.length) :
    ∃ merged', mergeComponent merged text.length component
        = .ok (merged', (mergeText text component).length)
      ∧ Block.Begins merged' (mergeText text component ++ [0])
      ∧ merged'.length = merged.length := by
  unfold mergeText
  rcases eq_or_ne component [] with rfl | hne
  · exact ⟨merged, rfl, h, rfl⟩
  · rw [components_single hcolon hne, List.foldl_cons, List.foldl_nil, addMissing, mergeComponent,
      if_pos (List.length_pos_of_ne_nil hne), h.string hzero]
    simp only [bind, Except.bind]
    by_cases hmem : component ∈ components text
    · rw [if_pos hmem, (pathHasComponent_iff text hne).mpr hmem]
      exact ⟨merged, rfl, h, rfl⟩
    · have habsent : ¬ pathHasComponent text component = true :=
        mt (pathHasComponent_iff text hne).mp hmem
      rw [if_neg hmem, if_neg habsent]
      exact appendComponent_spec h hroom

theorem mergeLoop_spec {merged : Block UInt8} {text : List UInt8} (cursor : List UInt8)
    (h : Block.Begins merged (text ++ [0])) (htext : 0 ∉ text) (hcursor : 0 ∉ cursor)
    (hroom : text.length + cursor.length + 2 ≤ merged.length) :
    ∃ merged', mergeLoop merged text.length cursor = .ok merged'
      ∧ Block.Begins merged' ((components cursor).foldl addMissing text ++ [0])
      ∧ 0 ∉ (components cursor).foldl addMissing text ∧ merged'.length = merged.length := by
  induction cursor using path_induction generalizing merged text with
  | empty => exact ⟨merged, by rw [mergeLoop, if_pos rfl], h, htext, rfl⟩
  | single component hne hcolon =>
      obtain ⟨merged', hmerge, hbegins, hlength⟩ := mergeComponent_spec h htext hcolon hroom
      refine ⟨merged', ?_, hbegins, (mergeText_bounds hcolon htext hcursor).1, hlength⟩
      rw [mergeLoop, if_neg hne]
      simp only [componentLength_single hcolon, List.take_length, hmerge, bind, Except.bind,
        if_pos]
      rfl
  | more component rest hcolon ih =>
      rw [List.length_append, List.length_cons] at hroom
      rw [List.mem_append, List.mem_cons, not_or, not_or] at hcursor
      obtain ⟨hgrown, hgrowth⟩ := mergeText_bounds hcolon htext hcursor.1
      obtain ⟨merged', hmerge, hbegins, hlength⟩ :=
        mergeComponent_spec h htext hcolon (by omega)
      obtain ⟨merged'', hloop, hbegins', hzero, hlength'⟩ :=
        ih hbegins hgrown hcursor.2.2 (by omega)
      have hmore : ¬ component.length = (component ++ colon :: rest).length := by simp
      rw [components_append, List.foldl_append]
      refine ⟨merged'', ?_, hbegins', hzero, hlength'.trans hlength⟩
      rw [mergeLoop, if_neg (by simp)]
      simp only [componentLength_append hcolon, List.take_left, hmerge, bind, Except.bind,
        if_neg hmore, drop_past, hloop]

/-! ## What is merged -/

/-- The components of the preserved path that are not in the preferred one, in their
order and once each. -/
def missing (preferred preserved : List UInt8) : List (List UInt8) :=
  ((components preserved).filter (· ∉ components preferred)).eraseDups

theorem foldl_addMissing {text : List UInt8} {list : List (List UInt8)}
    (h : ∀ component ∈ list, component ≠ [] ∧ colon ∉ component) :
    list.foldl addMissing text
      = ((list.filter (· ∉ components text)).eraseDups).foldl follow text := by
  induction list generalizing text with
  | nil => rfl
  | cons component list ih =>
      obtain ⟨hne, hcolon⟩ := h component List.mem_cons_self
      rw [List.foldl_cons, ih fun c hmem => h c (List.mem_cons_of_mem _ hmem), addMissing]
      by_cases hmem : component ∈ components text
      · rw [if_pos hmem, List.filter_cons_of_neg (by simpa using hmem)]
      · rw [if_neg hmem, List.filter_cons_of_pos (by simpa using hmem), List.eraseDups_cons,
          List.foldl_cons, components_follow hcolon hne, List.filter_filter]
        congr 2
        refine List.filter_congr fun c _ => ?_
        rcases eq_or_ne c component with rfl | hdiffers
        · simp
        · simp [hdiffers]

theorem components_foldl_follow {text : List UInt8} {list : List (List UInt8)}
    (h : ∀ component ∈ list, component ≠ [] ∧ colon ∉ component) :
    components (list.foldl follow text) = components text ++ list := by
  induction list generalizing text with
  | nil => exact (List.append_nil _).symm
  | cons component list ih =>
      obtain ⟨hne, hcolon⟩ := h component List.mem_cons_self
      rw [List.foldl_cons, ih fun c hmem => h c (List.mem_cons_of_mem _ hmem),
        components_follow hcolon hne, List.append_assoc, List.singleton_append]

theorem mem_components {path component : List UInt8} (h : component ∈ components path) :
    component ≠ [] ∧ colon ∉ component := by
  refine ⟨by simpa using List.of_mem_filter h, ?_⟩
  induction path using path_induction with
  | empty => cases h
  | single first hne hcolon =>
      rw [components_single hcolon hne, List.mem_singleton] at h
      exact h ▸ hcolon
  | more first rest hcolon ih =>
      rw [components_append, List.mem_append] at h
      rcases h with hfirst | hrest
      · rcases eq_or_ne first [] with rfl | hne
        · cases hfirst
        · rw [components_single hcolon hne, List.mem_singleton] at hfirst
          exact hfirst ▸ hcolon
      · exact ih hrest

theorem mem_missing {preferred preserved component : List UInt8} :
    component ∈ missing preferred preserved
      ↔ component ∈ components preserved ∧ component ∉ components preferred := by
  rw [missing, List.mem_eraseDups, List.mem_filter, decide_eq_true_eq]

/-- The path that is made. -/
def mergedText (preferred preserved : List UInt8) : List UInt8 :=
  (missing preferred preserved).foldl follow preferred

theorem components_mergedText (preferred preserved : List UInt8) :
    components (mergedText preferred preserved)
      = components preferred ++ missing preferred preserved :=
  components_foldl_follow fun _ hmem => mem_components (mem_missing.mp hmem).1

theorem prefix_foldl_follow (text : List UInt8) (list : List (List UInt8)) :
    text <+: list.foldl follow text := by
  induction list generalizing text with
  | nil => exact List.prefix_rfl
  | cons component list ih =>
      refine List.IsPrefix.trans ?_ (ih (follow text component))
      unfold follow
      split
      · next htext => exact htext ▸ List.nil_prefix
      · exact List.prefix_append _ _

/-- Nothing is missing any more. -/
theorem mergedText_again (preferred preserved : List UInt8) :
    mergedText preferred (mergedText preferred preserved) = mergedText preferred preserved := by
  have hsame : missing preferred (mergedText preferred preserved)
      = missing preferred preserved := by
    rw [missing, components_mergedText, List.filter_append,
      List.filter_eq_nil_iff.mpr (by simp), List.nil_append, List.filter_eq_self.mpr]
    · exact Records.eraseDups_eq_self (Records.nodup_eraseDups _)
    · intro component hmem
      simpa using (mem_missing.mp hmem).2
  rw [mergedText, hsame, mergedText]

theorem mergePathEnvironment_text (preferred preserved : CString) :
    ∃ merged, mergePathEnvironment true preferred preserved = .ok (some merged)
      ∧ merged.string 0 = .ok (mergedText preferred.1 preserved.1)
      ∧ 0 ∉ mergedText preferred.1 preserved.1
      ∧ merged.length = preferred.1.length + preserved.1.length + 2 := by
  obtain ⟨preferred, hpreferred⟩ := preferred
  obtain ⟨preserved, hpreserved⟩ := preserved
  set block : Block UInt8 := Block.allocate (preferred.length + preserved.length + 2) with hblock
  have hsize : block.length = preferred.length + preserved.length + 2 := List.length_replicate
  obtain ⟨copied, hcopy, hbegins, hcopied⟩ :=
    (Block.begins_nil block).copy preferred (by rw [List.length_nil]; omega)
  obtain ⟨stored, hstore, hbegins, hstored⟩ := hbegins.store 0 (by rw [List.nil_append]; omega)
  rw [List.nil_append] at hstore hbegins
  obtain ⟨merged, hloop, hbegins, hzero, hlength⟩ :=
    mergeLoop_spec preserved hbegins hpreferred hpreserved (by omega)
  rw [foldl_addMissing fun _ hmem => mem_components hmem] at hbegins hzero
  refine ⟨merged, ?_, hbegins.string hzero, hzero,
    hlength.trans (hstored.trans (hcopied.trans hsize))⟩
  rw [List.length_nil] at hcopy
  simp only [mergePathEnvironment, if_pos, ← hblock, hcopy, hstore, hloop, bind, Except.bind]
  rfl

/-- Every write is inside the block that was allocated, and a second merge with the same
preferred path writes the same again. -/
theorem mergePathEnvironment_spec (preferred preserved : CString) :
    ∃ merged text, mergePathEnvironment true preferred preserved = .ok (some merged)
      ∧ merged.length = preferred.1.length + preserved.1.length + 2
      ∧ merged.string 0 = .ok text.1
      ∧ text.1 = (missing preferred.1 preserved.1).foldl follow preferred.1
      ∧ preferred.1 <+: text.1
      ∧ components text.1 = components preferred.1 ++ missing preferred.1 preserved.1
      ∧ (missing preferred.1 preserved.1).Nodup
      ∧ (∀ component, component ∈ components text.1
          ↔ component ∈ components preferred.1 ∨ component ∈ components preserved.1)
      ∧ ∃ again : Block UInt8, mergePathEnvironment true preferred text = .ok (some again)
          ∧ again.string 0 = .ok text.1 := by
  obtain ⟨merged, hmerge, hstring, hzero, hlength⟩ :=
    mergePathEnvironment_text preferred preserved
  have hcomponents := components_mergedText preferred.1 preserved.1
  obtain ⟨again, hagain, hsame, -, -⟩ :=
    mergePathEnvironment_text preferred ⟨mergedText preferred.1 preserved.1, hzero⟩
  refine ⟨merged, ⟨mergedText preferred.1 preserved.1, hzero⟩, hmerge, hlength, hstring, rfl,
    prefix_foldl_follow _ _, hcomponents, Records.nodup_eraseDups _, fun component => ?_, again,
    hagain, by rw [hsame, mergedText_again]⟩
  rw [hcomponents, List.mem_append, mem_missing]
  tauto

end Spaces.Guest
