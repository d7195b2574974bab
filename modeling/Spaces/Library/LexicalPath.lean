import Mathlib.Data.List.DropRight
import Spaces.Library.PosixPath

/-!
# Two dots, by the text alone

`os.path.normpath` never looks at the files: two dots take the component before them
away, and at the root they are nothing. Where components lead from a place is then known
without the place. They climb out of it some times, and descend to what is left of them.
-/

namespace Spaces.Library

structure Route {α : Type} (chars : PathChars α) where
  climb : Nat
  descent : List (Component chars)

namespace Route

variable {α : Type} {chars : PathChars α}

/-- Where the route leads from a place. -/
def target (route : Route chars) (place : List (Component chars)) : List (Component chars) :=
  place.rdrop route.climb ++ route.descent

theorem rdrop_append_rtake (place : List (Component chars)) (n : Nat) :
    place.rdrop n ++ place.rtake n = place :=
  List.take_append_drop ..

/-- A route that leads to below its place goes back by the components it has left. -/
theorem prefix_target_iff {route : Route chars} {place : List (Component chars)} :
    place <+: route.target place ↔ place.rtake route.climb <+: route.descent := by
  calc place <+: route.target place
      ↔ place.rdrop route.climb ++ place.rtake route.climb <+:
          place.rdrop route.climb ++ route.descent := by rw [rdrop_append_rtake, target]
    _ ↔ place.rtake route.climb <+: route.descent := List.prefix_append_right_inj _

theorem target_of_back {route : Route chars} {place rest : List (Component chars)}
    (h : place.rtake route.climb ++ rest = route.descent) : route.target place = place ++ rest := by
  rw [target, ← h, ← List.append_assoc, rdrop_append_rtake]

end Route

variable {α : Type} [DecidableEq α] {chars : PathChars α}

/-- One turn of `normpath`, for a path that begins at the root. -/
def normalStep (place : List (Component chars)) (c : Component chars) : List (Component chars) :=
  if c = .up chars then place.dropLast else place ++ [c]

/-- Where the components lead from a place. -/
def normal (place parts : List (Component chars)) : List (Component chars) :=
  parts.foldl normalStep place

/-- `os.path.normpath` of an absolute path. -/
def PurePath.normpath (path : PurePath chars) : PurePath chars := ⟨path.root, normal [] path.parts⟩

theorem normal_append (place parts rest : List (Component chars)) :
    normal place (parts ++ rest) = normal (normal place parts) rest :=
  List.foldl_append

/-- Without two dots nothing is taken away. -/
theorem normal_plain {place parts : List (Component chars)} (h : .up chars ∉ parts) :
    normal place parts = place ++ parts := by
  induction parts generalizing place with
  | nil => simp [normal]
  | cons c parts ih =>
      obtain ⟨hc, hparts⟩ := List.ne_and_not_mem_of_not_mem_cons h
      have hstep : normalStep place c = place ++ [c] := if_neg (Ne.symm hc)
      calc normal place (c :: parts) = normal (place ++ [c]) parts := by
            rw [normal, List.foldl_cons, hstep, normal]
        _ = place ++ c :: parts := by rw [ih hparts, List.append_assoc, List.singleton_append]

namespace Route

def step (route : Route chars) (c : Component chars) : Route chars :=
  if c = .up chars then
    if route.descent = [] then ⟨route.climb + 1, []⟩ else ⟨route.climb, route.descent.dropLast⟩
  else ⟨route.climb, route.descent ++ [c]⟩

def of (parts : List (Component chars)) : Route chars := parts.foldl step ⟨0, []⟩

theorem target_step (route : Route chars) (place : List (Component chars))
    (c : Component chars) : normalStep (route.target place) c = (route.step c).target place := by
  unfold normalStep step
  split
  · split
    · next hdescent =>
        rw [target, hdescent, List.append_nil, target, List.append_nil, List.rdrop, List.rdrop,
          List.dropLast_eq_take, List.take_take, List.length_take]
        congr 1
        simp only
        omega
    · next hdescent => exact List.dropLast_append_of_ne_nil hdescent
  · exact List.append_assoc ..

theorem normal_eq_target (place parts : List (Component chars)) :
    normal place parts = (of parts).target place := by
  have hstart : place = target ⟨0, []⟩ place := by simp [target]
  calc normal place parts = parts.foldl normalStep (target ⟨0, []⟩ place) := by
        rw [← hstart, normal]
    _ = (of parts).target place :=
      List.foldl_hom (fun route => target route place) (target_step · place ·)

end Route

/-! ## Walking

A walk goes from directory to directory and does not leave the root. Its places are
written from the end, the last name first. -/

def walk (place : List (Component chars)) :
    List (Component chars) → Option (List (Component chars))
  | [] => some place
  | c :: rest =>
      if c = .up chars then
        match place with
        | [] => none
        | _ :: above => walk above rest
      else walk (c :: place) rest

theorem walk_up (name : Component chars) (place rest : List (Component chars)) :
    walk (name :: place) (.up chars :: rest) = walk place rest := by
  rw [walk.eq_def]
  exact if_pos rfl

theorem walk_name {c : Component chars} (h : c ≠ .up chars) (place rest : List (Component chars)) :
    walk place (c :: rest) = walk (c :: place) rest := by
  rw [walk.eq_def]
  exact if_neg h

/-- A walk comes to where its components lead by their text. -/
theorem normal_of_walk {place parts last : List (Component chars)}
    (h : walk place parts = some last) : normal place.reverse parts = last.reverse := by
  induction parts generalizing place with
  | nil =>
      cases h
      rfl
  | cons c parts ih =>
      by_cases hup : c = .up chars
      · cases place with
        | nil => simp [walk, hup] at h
        | cons name above =>
            rw [hup, walk_up] at h
            have hstep : normalStep (name :: above).reverse (.up chars) = above.reverse := by
              rw [normalStep, if_pos rfl, List.reverse_cons, List.dropLast_concat]
            rw [normal, List.foldl_cons, hup, hstep]
            exact ih h
      · rw [walk_name hup] at h
        have hstep : normalStep place.reverse c = (c :: place).reverse := by
          rw [normalStep, if_neg hup, List.reverse_cons]
        rw [normal, List.foldl_cons, hstep]
        exact ih h

end Spaces.Library
