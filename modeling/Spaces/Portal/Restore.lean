import Mathlib.Data.List.Induction
import Mathlib.Data.List.Nodup
import Mathlib.Tactic.Common
import Spaces.Portal.Variant

/-!
# Restore tokens

A frontend of the portal gives out a token to restore a session by, and a backend
gives out data of its own. The router stands between the two, so the token that the
host's portal returns is packed into restore data for the guest's portal, and unpacked
when the guest's portal asks for the session again.

A dictionary on the bus may repeat a key. A lookup finds the first entry of a key, and
rebuilding the dictionary keeps the last one.
-/

namespace Spaces.Portal

open Variant

def restoreDataVendor : String := "Spaces"
def restoreDataVersion : Int := 1

/-- The data that a token is packed into. -/
def restoreData (token : String) : Variant :=
  .tuple [.str restoreDataVendor, .basic 'u' restoreDataVersion, .variant (.str token)]

/-- `restore_token_from_data`. -/
def restoreTokenFromData : Variant → Option String
  | .tuple [.str vendor, .basic 'u' version, .variant privateData] =>
      if vendor = restoreDataVendor ∧ version = restoreDataVersion then
        match privateData with
        | .str token => some token
        | _ => none
      else none
  | _ => none

/-- `g_variant_dict_remove`. -/
def dictRemove (key : String) (entries : List (String × Variant)) : List (String × Variant) :=
  entries.filter fun e => e.1 != key

/-- `portal_restore_options_to_host`. -/
def portalRestoreOptionsToHost (options : Variant) : Variant :=
  let restoreToken := (options.lookupValue "restore_data").bind restoreTokenFromData
  let dictionary := options.dictInit
  let dictionary := dictRemove "restore_data" dictionary
  let dictionary := dictRemove "restore_token" dictionary
  vardict (match restoreToken with
    | some token => dictInsert "restore_token" (.str token) dictionary
    | none => dictionary)

/-- `portal_restore_results_to_backend`. -/
def portalRestoreResultsToBackend (results : Variant) : Variant :=
  let restoreToken := results.lookupString "restore_token"
  let dictionary := results.dictInit
  let dictionary := dictRemove "restore_token" dictionary
  vardict (match restoreToken with
    | some token => dictInsert "restore_data" (restoreData token) dictionary
    | none => dictionary)

/-! ## Looking up -/

/-- The first value of a key. -/
def valueOf (entries : List (String × Variant)) (key : String) : Option Variant :=
  (entries.find? fun e => e.1 == key).map Prod.snd

/-- The last value of a key in a dictionary. -/
def lastValue (dictionary : Variant) (key : String) : Option Variant :=
  valueOf dictionary.entries.reverse key

@[simp] theorem entries_vardict (entries : List (String × Variant)) :
    (vardict entries).entries = entries := by
  induction entries with
  | nil => rfl
  | cons e entries ih =>
      simp only [vardict, Variant.entries, List.map_cons, List.filterMap_cons] at ih ⊢
      rw [ih]

@[simp] theorem lookupValue_vardict (entries : List (String × Variant)) (key : String) :
    (vardict entries).lookupValue key = valueOf entries key := by
  rw [lookupValue, entries_vardict, valueOf]

theorem valueOf_append (before after : List (String × Variant)) (key : String) :
    valueOf (before ++ after) key = (valueOf before key).or (valueOf after key) := by
  rw [valueOf, List.find?_append, Option.map_or]
  rfl

@[simp] theorem valueOf_dictRemove_self (key : String) (entries : List (String × Variant)) :
    valueOf (dictRemove key entries) key = none := by
  rw [valueOf, dictRemove, Option.map_eq_none_iff, List.find?_eq_none]
  intro e he
  simpa using List.of_mem_filter he

@[simp] theorem valueOf_dictRemove_ne {key other : String} (h : other ≠ key)
    (entries : List (String × Variant)) :
    valueOf (dictRemove key entries) other = valueOf entries other := by
  rw [valueOf, valueOf, dictRemove, List.find?_filter]
  congr 2
  funext e
  by_cases he : e.1 = other
  · simp [he, h]
  · simp [he]

@[simp] theorem valueOf_dictInsert_self (key : String) (value : Variant)
    (entries : List (String × Variant)) :
    valueOf (dictInsert key value entries) key = some value := by
  have hremoved : valueOf (entries.filter fun e => e.1 != key) key = none :=
    valueOf_dictRemove_self key entries
  rw [dictInsert, valueOf_append, hremoved, Option.none_or, valueOf]
  simp

@[simp] theorem valueOf_dictInsert_ne {key other : String} (h : other ≠ key) (value : Variant)
    (entries : List (String × Variant)) :
    valueOf (dictInsert key value entries) other = valueOf entries other := by
  have hremoved : valueOf (entries.filter fun e => e.1 != key) other = valueOf entries other :=
    valueOf_dictRemove_ne h entries
  have hnone : valueOf [(key, value)] other = none := by
    simp [valueOf, h.symm]
  rw [dictInsert, valueOf_append, hremoved, hnone, Option.or_none]

theorem valueOf_dictInit (dictionary : Variant) (key : String) :
    valueOf dictionary.dictInit key = lastValue dictionary key := by
  rw [dictInit, lastValue]
  induction dictionary.entries using List.reverseRecOn with
  | nil => rfl
  | append_singleton entries e ih =>
      rw [List.foldl_append, List.foldl_cons, List.foldl_nil, List.reverse_append,
        List.reverse_singleton, List.singleton_append]
      by_cases he : key = e.1
      · rw [he, valueOf_dictInsert_self, valueOf]
        simp
      · rw [valueOf_dictInsert_ne he, ih, valueOf, valueOf, List.find?_cons_of_neg]
        simpa using Ne.symm he

/-! ## The round trip -/

theorem restoreTokenFromData_eq_some {data : Variant} {token : String} :
    restoreTokenFromData data = some token ↔ data = restoreData token := by
  constructor
  · intro h
    unfold restoreTokenFromData at h
    split at h
    · next vendor version privateData =>
        split at h
        · next hours =>
            obtain ⟨rfl, rfl⟩ := hours
            split at h
            · cases h
              rfl
            · cases h
        · cases h
    · cases h
  · rintro rfl
    simp [restoreTokenFromData, restoreData]

/-- The host gets a token if the data holds one of ours, and never another. -/
theorem toHost_restoreToken (options : Variant) :
    (portalRestoreOptionsToHost options).lookupValue "restore_token"
      = ((options.lookupValue "restore_data").bind restoreTokenFromData).map Variant.str := by
  rw [portalRestoreOptionsToHost, lookupValue_vardict]
  cases (options.lookupValue "restore_data").bind restoreTokenFromData with
  | none => exact valueOf_dictRemove_self _ _
  | some token => exact valueOf_dictInsert_self _ _ _

theorem toHost_other (options : Variant) {key : String} (htoken : key ≠ "restore_token")
    (hdata : key ≠ "restore_data") :
    (portalRestoreOptionsToHost options).lookupValue key = lastValue options key := by
  rw [portalRestoreOptionsToHost, lookupValue_vardict, ← valueOf_dictInit]
  cases (options.lookupValue "restore_data").bind restoreTokenFromData with
  | none => simp [htoken, hdata]
  | some token => simp [htoken, hdata]

theorem toBackend_restoreData (results : Variant) :
    (portalRestoreResultsToBackend results).lookupValue "restore_data"
      = ((results.lookupString "restore_token").map restoreData).or
          (lastValue results "restore_data") := by
  rw [portalRestoreResultsToBackend, lookupValue_vardict, ← valueOf_dictInit]
  cases results.lookupString "restore_token" with
  | none => simp
  | some token => simp

theorem toBackend_other (results : Variant) {key : String} (htoken : key ≠ "restore_token")
    (hdata : key ≠ "restore_data") :
    (portalRestoreResultsToBackend results).lookupValue key = lastValue results key := by
  rw [portalRestoreResultsToBackend, lookupValue_vardict, ← valueOf_dictInit]
  cases results.lookupString "restore_token" with
  | none => simp [htoken]
  | some token => simp [htoken, hdata]

/-! ## Rebuilt dictionaries repeat no key -/

def DistinctKeys (entries : List (String × Variant)) : Prop := (entries.map Prod.fst).Nodup

theorem DistinctKeys.dictRemove {entries : List (String × Variant)} (h : DistinctKeys entries)
    (key : String) : DistinctKeys (dictRemove key entries) :=
  (List.filter_sublist.map Prod.fst).nodup h

theorem DistinctKeys.dictInsert {entries : List (String × Variant)} (h : DistinctKeys entries)
    (key : String) (value : Variant) : DistinctKeys (dictInsert key value entries) := by
  rw [DistinctKeys, Variant.dictInsert, List.map_append, List.nodup_append]
  refine ⟨h.dictRemove key, List.nodup_singleton _, fun other hother key' hkey => ?_⟩
  obtain ⟨e, he, rfl⟩ := List.mem_map.mp hother
  rw [List.map_singleton, List.mem_singleton] at hkey
  simpa [hkey] using List.of_mem_filter he

theorem distinctKeys_dictInit (dictionary : Variant) : DistinctKeys dictionary.dictInit := by
  rw [dictInit]
  induction dictionary.entries using List.reverseRecOn with
  | nil => exact List.nodup_nil
  | append_singleton entries e ih =>
      rw [List.foldl_append, List.foldl_cons, List.foldl_nil]
      exact ih.dictInsert e.1 e.2

theorem DistinctKeys.valueOf_reverse {entries : List (String × Variant)} (h : DistinctKeys entries)
    (key : String) : valueOf entries.reverse key = valueOf entries key := by
  induction entries with
  | nil => rfl
  | cons e entries ih =>
      obtain ⟨hfresh, hrest⟩ := List.nodup_cons.mp h
      rw [List.reverse_cons, valueOf_append, ih hrest]
      by_cases hkey : e.1 = key
      · have hnone : valueOf entries key = none := by
          rw [valueOf, Option.map_eq_none_iff, List.find?_eq_none]
          intro other hother heq
          exact hfresh (List.mem_map.mpr ⟨other, hother, (beq_iff_eq.mp heq).trans hkey.symm⟩)
        rw [hnone, Option.none_or, valueOf, valueOf]
        simp [hkey]
      · have hnone : valueOf [e] key = none := by simp [valueOf, hkey]
        rw [hnone, Option.or_none, valueOf, valueOf, List.find?_cons_of_neg]
        simpa using hkey

theorem lastValue_toBackend (results : Variant) (key : String) :
    lastValue (portalRestoreResultsToBackend results) key
      = (portalRestoreResultsToBackend results).lookupValue key := by
  have hdistinct : DistinctKeys (portalRestoreResultsToBackend results).entries := by
    rw [portalRestoreResultsToBackend, entries_vardict]
    have hremoved := (distinctKeys_dictInit results).dictRemove "restore_token"
    cases results.lookupString "restore_token" with
    | none => exact hremoved
    | some token => exact hremoved.dictInsert _ _
  exact hdistinct.valueOf_reverse key

/-- The round trip: the token comes back, and only where there is one, and every other
key keeps its value. -/
def RoundTrips (results : Variant) : Prop :=
  let host := portalRestoreOptionsToHost (portalRestoreResultsToBackend results)
  host.lookupValue "restore_token" = (results.lookupString "restore_token").map Variant.str
    ∧ ∀ key, key ≠ "restore_token" → key ≠ "restore_data" →
        host.lookupValue key = results.lookupValue key

/-- Data of any other form leads to no token. -/
def ForeignRejected (options : Variant) : Prop :=
  (∀ token, options.lookupValue "restore_data" ≠ some (restoreData token)) →
    (portalRestoreOptionsToHost options).lookupValue "restore_token" = none

theorem foreignRejected (options : Variant) : ForeignRejected options := by
  intro hforeign
  rw [toHost_restoreToken]
  cases hdata : options.lookupValue "restore_data" with
  | none => rfl
  | some data =>
      cases htoken : restoreTokenFromData data with
      | none => simp [htoken]
      | some token =>
          exact absurd (restoreTokenFromData_eq_some.mp htoken ▸ hdata) (hforeign token)

theorem roundTrips_iff (results : Variant) : RoundTrips results ↔
    ((results.lookupString "restore_token").isSome = true ∨
        (lastValue results "restore_data").bind restoreTokenFromData = none) ∧
      ∀ key, key ≠ "restore_token" → key ≠ "restore_data" →
        lastValue results key = results.lookupValue key := by
  refine and_congr ?_ (forall_congr' fun key => forall_congr' fun htoken =>
    forall_congr' fun hdata => ?_)
  · rw [toHost_restoreToken, toBackend_restoreData]
    cases results.lookupString "restore_token" with
    | none => simp
    | some token => simp [restoreTokenFromData_eq_some.mpr rfl]
  · rw [toHost_other _ htoken hdata, lastValue_toBackend, toBackend_other _ htoken hdata]

/-- Results of a host that returns restore data of the router's own form and no token. -/
theorem ownData_unpacked :
    ¬ RoundTrips (vardict [("restore_data", restoreData "token")]) := by
  rw [roundTrips_iff]
  simp [lastValue, valueOf, lookupString, restoreTokenFromData_eq_some.mpr rfl]

/-- Both directions: a token is never made of foreign data, and it makes the round trip
if the results' own data holds none that would take its place. -/
theorem restoreToken_roundTrip_iff (results : Variant) :
    (RoundTrips results ∧ ∀ options, ForeignRejected options) ↔
      ((results.lookupString "restore_token").isSome = true ∨
          ∀ token, lastValue results "restore_data" ≠ some (restoreData token)) ∧
        ∀ key, key ≠ "restore_token" → key ≠ "restore_data" →
          lastValue results key = results.lookupValue key := by
  have hown : (lastValue results "restore_data").bind restoreTokenFromData = none ↔
      ∀ token, lastValue results "restore_data" ≠ some (restoreData token) := by
    rw [Option.eq_none_iff_forall_not_mem]
    refine forall_congr' fun token => not_congr ?_
    rw [Option.mem_def, Option.bind_eq_some_iff]
    simp [restoreTokenFromData_eq_some]
  rw [and_iff_left foreignRejected, roundTrips_iff, hown]

end Spaces.Portal
