import Spaces.Library.Ring
import Spaces.Library.Runs

/-!
# The handles of accessible elements

The accessibility helper gives each element it shows a number, by which a later
call names the element. Each client has a table of its own, a ring of slots with
an index of its objects. An object is told by its endpoint, the bus name and the
path, wherever it stands in the tree.

Seeing an object again returns the number it has, and does not make it younger.
Only a new object takes the next slot, and once the ring has gone round its
number is one that was given out before. So a number stands for the object it
was given to last.
-/

namespace Spaces.Computer.Accessibility

open Spaces.Library

def elementCapacity : Nat := 20000

instance : NeZero elementCapacity := ⟨by decide⟩

/-- A proxy of an accessible object; its application and its path may be missing. -/
structure Accessible where
  busName : Option String
  path : Option String
  reference : Nat
  deriving DecidableEq

def objectKey (o : Accessible) : String := o.busName.getD "" ++ ":" ++ o.path.getD ""

structure Window where
  id : Nat
  pid : Nat

structure Element where
  accessible : Accessible
  window : Nat
  pid : Nat
  deriving DecidableEq

abbrev ElementTable := Ring elementCapacity String Element
abbrev ElementId := Fin elementCapacity

/-- The table has the object, and the proxy it keeps of it is defunct. -/
def foundDefunct (defunct : Accessible → Bool) (table : ElementTable) (key : String) : Bool :=
  match table.index key with
  | none => false
  | some i => (table.slots i).any fun slot => defunct slot.2.accessible

def cacheElement (defunct : Accessible → Bool) (table : ElementTable) (node : Accessible)
    (window : Window) : ElementTable × ElementId :=
  let key := objectKey node
  let element := ⟨node, window.id, window.pid⟩
  let table := if foundDefunct defunct table key then table.drop key else table
  match table.index key with
  | none => (table.push key element, table.next)
  | some i => (table.refresh i key element, i)

/-- Caching an object that takes a new number. -/
def allocates (defunct : Accessible → Bool) (table : ElementTable) (key : String) : Bool :=
  (table.index key).isNone || foundDefunct defunct table key

/-! ## The helper and its clients -/

/-- The tables of the clients, and the client of the request being served. -/
structure Worker where
  tables : Nat → Option ElementTable
  selected : Option Nat

def Worker.initial : Worker := ⟨fun _ => none, none⟩

/-- `select_element_table`: the tables of clients that have gone are dropped. -/
def Worker.selectElementTable (w : Worker) (clients : List Nat) (serial : Nat) : Worker :=
  let tables := fun client => if client ∈ clients then w.tables client else none
  if serial ≠ 0 ∧ serial ∈ clients then
    ⟨Function.update tables serial (some ((tables serial).getD .empty)), some serial⟩
  else ⟨tables, none⟩

/-- The client being served, when it has a table. -/
def Worker.current (w : Worker) : Option (Nat × ElementTable) := do
  let client ← w.selected
  let table ← w.tables client
  pure (client, table)

def Worker.setTable (w : Worker) (client : Nat) (table : ElementTable) : Worker :=
  { w with tables := Function.update w.tables client (some table) }

def Worker.lookupElement (w : Worker) (id : Int) : Option Element :=
  match w.current with
  | none => none
  | some (_, table) =>
      if h : 0 ≤ id ∧ id.toNat < elementCapacity then
        (table.slots ⟨id.toNat, h.2⟩).map Prod.snd
      else none

inductive Operation where
  | select (clients : List Nat) (serial : Nat)
  /-- A row of a tree is shown; which proxies are defunct is read meanwhile. -/
  | cache (defunct : Accessible → Bool) (node : Accessible) (window : Window)
  | lookup (id : Int)
  /-- `scu_atspi_close`. -/
  | close

/-- A number that was given to a client for an object. -/
structure Issue where
  client : Nat
  id : ElementId
  object : String

/-- The number an operation gives out. -/
def Worker.issue (w : Worker) : Operation → Option Issue
  | .cache defunct node window => w.current.map fun (client, table) =>
      ⟨client, (cacheElement defunct table node window).2, objectKey node⟩
  | _ => none

def Worker.step (w : Worker) : Operation → Worker
  | .select clients serial => w.selectElementTable clients serial
  | .cache defunct node window =>
      match w.current with
      | none => w
      | some (client, table) =>
          w.setTable client (cacheElement defunct table node window).1
  | .lookup _ => w
  | .close => .initial

/-- The client in whose table an operation takes a new number. -/
def Worker.allocatesFor (w : Worker) : Operation → Option Nat
  | .cache defunct node _ => (w.current.filter fun (_, table) =>
      allocates defunct table (objectKey node)).map Prod.fst
  | _ => none

/-- The helper with all the numbers it gave out, the newest first. -/
structure History where
  worker : Worker
  issues : List Issue

def History.initial : History := ⟨.initial, []⟩

def History.next (h : History) (op : Operation) : History :=
  ⟨h.worker.step op, (h.worker.issue op).toList ++ h.issues⟩

/-- The object a number of a client was given to last. -/
def lastIssued (issues : List Issue) (client : Nat) (id : ElementId) : Option String :=
  (issues.find? fun issue => issue.client = client ∧ issue.id = id).map Issue.object

/-! ## Caching one object -/

variable {defunct : Accessible → Bool} {table : ElementTable} {node : Accessible}
  {window : Window}

/-- A new object, or one whose proxy is defunct, takes the next slot. -/
theorem cacheElement_of_allocates (window : Window)
    (h : allocates defunct table (objectKey node) = true) :
    cacheElement defunct table node window =
      ((table.drop (objectKey node)).push (objectKey node) ⟨node, window.id, window.pid⟩,
        table.next) := by
  unfold cacheElement
  extract_lets key element table'
  have htable : table' = table.drop key := by
    simp only [table']
    split
    · rfl
    · next hfound =>
        have hindex : table.index key = none := by
          rw [allocates, Bool.or_eq_true] at h
          rcases h with hnone | hdefunct
          · exact Option.isNone_iff_eq_none.mp hnone
          · exact absurd hdefunct hfound
        rw [Ring.drop, hindex]
  have hnone : table'.index key = none := by rw [htable, Ring.index_drop, if_pos rfl]
  rw [hnone, htable, Ring.next_drop]

/-- An object that is there keeps its slot. -/
theorem cacheElement_of_cached (window : Window)
    (h : allocates defunct table (objectKey node) = false) :
    ∃ i, table.index (objectKey node) = some i ∧ cacheElement defunct table node window =
      (table.refresh i (objectKey node) ⟨node, window.id, window.pid⟩, i) := by
  rw [allocates, Bool.or_eq_false_iff] at h
  obtain ⟨i, hi⟩ := Option.isSome_iff_exists.mp (Option.isNone_eq_false_iff.mp h.1)
  refine ⟨i, hi, ?_⟩
  unfold cacheElement
  extract_lets key element table'
  have htable : table' = table := if_neg (by rw [h.2]; exact Bool.false_ne_true)
  rw [htable, hi]

/-- A table whose index and slots name each other, each slot the object in it. -/
structure TableOk (table : ElementTable) : Prop where
  consistent : table.Consistent
  keyed : ∀ i key element, table.slots i = some (key, element) →
    objectKey element.accessible = key

theorem tableOk_empty : TableOk .empty where
  consistent := Ring.consistent_empty
  keyed := nofun

theorem TableOk.cacheElement (h : TableOk table) :
    TableOk (cacheElement defunct table node window).1 := by
  cases halloc : allocates defunct table (objectKey node) with
  | true =>
      rw [cacheElement_of_allocates _ halloc]
      refine ⟨(h.consistent.drop _).push ?_ _, fun i key element hslot => ?_⟩
      · rw [Ring.index_drop, if_pos rfl]
      · rw [Ring.slot_push] at hslot
        split at hslot
        · cases hslot
          rfl
        · exact h.keyed i key element (Ring.slot_of_drop hslot)
  | false =>
      obtain ⟨i, hi, hcache⟩ := cacheElement_of_cached window halloc
      rw [hcache]
      refine ⟨h.consistent.refresh ((h.consistent _ i).mp hi) _, fun j key element hslot => ?_⟩
      rw [Ring.slot_refresh] at hslot
      split at hslot
      · cases hslot
        rfl
      · exact h.keyed j key element hslot

/-- The number that is given out is the object's. -/
theorem TableOk.holder_cacheElement (h : TableOk table) :
    (Accessibility.cacheElement defunct table node window).1.holder
      (Accessibility.cacheElement defunct table node window).2 = some (objectKey node) := by
  cases halloc : allocates defunct table (objectKey node) with
  | true =>
      rw [cacheElement_of_allocates _ halloc, Ring.holder_push, Ring.next_drop, if_pos rfl]
  | false =>
      obtain ⟨i, hi, hcache⟩ := cacheElement_of_cached window halloc
      have hheld := (h.consistent _ i).mp hi
      rw [hcache, Ring.holder_refresh hheld]
      exact hheld

/-- No other slot gets an object. -/
theorem TableOk.holder_before (h : TableOk table) {j : ElementId} {key : String}
    (hj : j ≠ (Accessibility.cacheElement defunct table node window).2)
    (hheld : (Accessibility.cacheElement defunct table node window).1.holder j = some key) :
    table.holder j = some key := by
  cases halloc : allocates defunct table (objectKey node) with
  | true =>
      rw [cacheElement_of_allocates _ halloc] at hj hheld
      rw [Ring.holder_push, Ring.next_drop, if_neg hj, Ring.holder_drop h.consistent] at hheld
      split at hheld
      · cases hheld
      · exact hheld
  | false =>
      obtain ⟨i, hi, hcache⟩ := cacheElement_of_cached window halloc
      rw [hcache, Ring.holder_refresh ((h.consistent _ i).mp hi)] at hheld
      exact hheld

/-! ## All tables -/

structure Inv (h : History) : Prop where
  ok : ∀ client table, h.worker.tables client = some table → TableOk table
  issued : ∀ client table id object, h.worker.tables client = some table →
    table.holder id = some object → lastIssued h.issues client id = some object

theorem inv_initial : Inv .initial where
  ok := nofun
  issued := nofun

theorem lastIssued_cons_self (issue : Issue) (issues : List Issue) :
    lastIssued (issue :: issues) issue.client issue.id = some issue.object := by
  simp [lastIssued]

theorem lastIssued_cons_of_ne {issue : Issue} {issues : List Issue} {client : Nat}
    {id : ElementId} (h : ¬ (issue.client = client ∧ issue.id = id)) :
    lastIssued (issue :: issues) client id = lastIssued issues client id := by
  simp [lastIssued, h]

/-- The tables of a selection were there before, or are new and empty. -/
theorem Worker.tables_select {w : Worker} {clients : List Nat} {serial client : Nat}
    {table : ElementTable}
    (h : (w.selectElementTable clients serial).tables client = some table) :
    w.tables client = some table ∨ table = .empty := by
  have hlive : ∀ {c t}, (if c ∈ clients then w.tables c else none) = some t →
      w.tables c = some t := by
    intro c t hc
    split at hc
    · exact hc
    · cases hc
  unfold selectElementTable at h
  extract_lets tables at h
  split at h
  · simp only [Function.update_apply] at h
    split at h
    · next hself =>
        subst hself
        cases htable : tables client with
        | none =>
            rw [htable] at h
            exact .inr (Option.some.inj h).symm
        | some t =>
            rw [htable] at h
            exact .inl ((hlive htable).trans h)
    · exact .inl (hlive h)
  · exact .inl (hlive h)

theorem Worker.current_eq_some {w : Worker} {client : Nat} {t : ElementTable} :
    w.current = some (client, t) ↔ w.selected = some client ∧ w.tables client = some t := by
  simp [Worker.current, Option.bind_eq_some_iff]

theorem Worker.tables_setTable (w : Worker) (client c : Nat) (t : ElementTable) :
    (w.setTable client t).tables c = if c = client then some t else w.tables c :=
  Function.update_apply ..

theorem Worker.current_setTable {w : Worker} {client : Nat} {t t' : ElementTable}
    (h : w.current = some (client, t)) : (w.setTable client t').current = some (client, t') := by
  rw [Worker.current_eq_some] at h ⊢
  exact ⟨h.1, by rw [Worker.tables_setTable, if_pos rfl]⟩

theorem History.next_cache {h : History} {client : Nat} {t : ElementTable}
    (hcurrent : h.worker.current = some (client, t)) :
    h.next (.cache defunct node window) =
      ⟨h.worker.setTable client (cacheElement defunct t node window).1,
        ⟨client, (cacheElement defunct t node window).2, objectKey node⟩ :: h.issues⟩ := by
  simp [History.next, Worker.step, Worker.issue, hcurrent]

/-- Without a table nothing is cached. -/
theorem History.next_cache_none {h : History} (hcurrent : h.worker.current = none) :
    h.next (.cache defunct node window) = h := by
  simp [History.next, Worker.step, Worker.issue, hcurrent]

theorem Inv.next {h : History} (hinv : Inv h) (op : Operation) : Inv (h.next op) := by
  cases op with
  | lookup id => exact hinv
  | close => exact ⟨nofun, nofun⟩
  | select clients serial =>
      refine ⟨fun client table htable => ?_, fun client table id object htable hheld => ?_⟩
      · rcases Worker.tables_select htable with hbefore | rfl
        · exact hinv.ok client table hbefore
        · exact tableOk_empty
      · rcases Worker.tables_select htable with hbefore | rfl
        · exact hinv.issued client table id object hbefore hheld
        · cases hheld
  | cache defunct node window =>
      cases hcurrent : h.worker.current with
      | none =>
          rw [History.next_cache_none hcurrent]
          exact hinv
      | some served =>
          obtain ⟨client, t⟩ := served
          obtain ⟨-, ht⟩ := Worker.current_eq_some.mp hcurrent
          have hok := hinv.ok client t ht
          rw [History.next_cache hcurrent]
          refine ⟨fun c table htable => ?_, fun c table id object htable hheld => ?_⟩
          · rw [Worker.tables_setTable] at htable
            split at htable
            · exact Option.some.inj htable ▸ hok.cacheElement
            · exact hinv.ok c table htable
          · rw [Worker.tables_setTable] at htable
            split at htable
            · next hc =>
                subst hc
                obtain rfl := Option.some.inj htable
                by_cases hid : id = (Accessibility.cacheElement defunct t node window).2
                · rw [hid, hok.holder_cacheElement] at hheld
                  rw [hid, ← Option.some.inj hheld]
                  exact lastIssued_cons_self _ _
                · rw [lastIssued_cons_of_ne fun heq => hid heq.2.symm]
                  exact hinv.issued c t id object ht (hok.holder_before hid hheld)
            · next hc =>
                rw [lastIssued_cons_of_ne fun heq => hc heq.1.symm]
                exact hinv.issued c table id object htable hheld

/-! ## How long a number lasts -/

/-- The object has this number in a client's table, and the number leads to it. -/
def History.Holds (h : History) (client : Nat) (object : String) (id : ElementId) : Prop :=
  ∃ table, h.worker.tables client = some table ∧ table.index object = some id ∧
    ∃ element, table.slots id = some (object, element) ∧
      objectKey element.accessible = object

/-- The table of the client stays, and the object is not found defunct in it. -/
def Spares (client : Nat) (object : String) (h : History) : Operation → Prop
  | .select clients _ => client ∈ clients
  | .cache defunct node _ => objectKey node = object →
      ∀ table, h.worker.current = some (client, table) →
        foundDefunct defunct table object = false
  | .lookup _ => True
  | .close => False

/-- The new numbers that operations take in a client's table. -/
def allocations (client : Nat) : History → List Operation → Nat
  | _, [] => 0
  | h, op :: ops =>
      (if h.worker.allocatesFor op = some client then 1 else 0)
        + allocations client (h.next op) ops

/-- The number is the object's, and `m` slots were taken after it. -/
def Kept (client : Nat) (object : String) (id : ElementId) (m : Nat) (h : History) : Prop :=
  ∃ table, h.worker.tables client = some table ∧ table.holder id = some object ∧
    Ring.Behind id table.next m

theorem Kept.holds {h : History} {client m : Nat} {object : String} {id : ElementId}
    (hinv : Inv h) (hkept : Kept client object id m h) : h.Holds client object id := by
  obtain ⟨table, htable, hheld, -⟩ := hkept
  have hok := hinv.ok client table htable
  obtain ⟨⟨key, element⟩, hslot, rfl⟩ := Option.map_eq_some_iff.mp hheld
  exact ⟨table, htable, (hok.consistent _ id).mpr hheld, element, hslot,
    hok.keyed id key element hslot⟩

theorem Worker.tables_select_of_mem {w : Worker} {clients : List Nat} {serial client : Nat}
    {t : ElementTable} (hmem : client ∈ clients) (ht : w.tables client = some t) :
    (w.selectElementTable clients serial).tables client = some t := by
  have hlive : (if client ∈ clients then w.tables client else none) = some t := by
    rw [if_pos hmem, ht]
  unfold selectElementTable
  extract_lets tables
  split
  · show Function.update tables serial _ client = _
    rw [Function.update_apply]
    split
    · next hself =>
        have hserial : tables serial = some t := hself ▸ hlive
        rw [hserial]
        rfl
    · exact hlive
  · exact hlive

/-- Caching keeps an object's number, unless it finds the object defunct or the
ring has come round to its slot. -/
theorem TableOk.kept {t : ElementTable} (hok : TableOk t) (window : Window)
    {object : String} {id : ElementId} {m : Nat} (hheld : t.holder id = some object)
    (hbehind : Ring.Behind id t.next m)
    (hspared : objectKey node = object → foundDefunct defunct t object = false)
    (hroom : m + (if allocates defunct t (objectKey node) then 1 else 0) < elementCapacity) :
    (Accessibility.cacheElement defunct t node window).1.holder id = some object ∧
      Ring.Behind id (Accessibility.cacheElement defunct t node window).1.next
        (m + if allocates defunct t (objectKey node) then 1 else 0) := by
  cases halloc : allocates defunct t (objectKey node) with
  | true =>
      rw [halloc, if_pos rfl] at hroom
      have hkey : objectKey node ≠ object := by
        intro hkey
        rw [allocates, hkey, hspared hkey, (hok.consistent _ id).mpr hheld] at halloc
        cases halloc
      have hlost : t.holder id ≠ some (objectKey node) := by
        rw [hheld]
        exact fun heq => hkey (Option.some.inj heq).symm
      rw [cacheElement_of_allocates _ halloc, Ring.holder_push, Ring.next_drop,
        if_neg (hbehind.ne hroom), Ring.holder_drop hok.consistent, if_neg hlost]
      refine ⟨hheld, ?_⟩
      show Ring.Behind id (Ring.after (t.drop (objectKey node)).next) (m + 1)
      rw [Ring.next_drop]
      exact hbehind.after
  | false =>
      obtain ⟨i, hi, hcache⟩ := cacheElement_of_cached window halloc
      rw [hcache, Ring.holder_refresh ((hok.consistent _ i).mp hi)]
      exact ⟨hheld, hbehind⟩

theorem Kept.next {h : History} {client m : Nat} {object : String} {id : ElementId}
    {op : Operation} (hinv : Inv h) (hkept : Kept client object id m h)
    (hspares : Spares client object h op)
    (hroom : m + (if h.worker.allocatesFor op = some client then 1 else 0) < elementCapacity) :
    Kept client object id
      (m + if h.worker.allocatesFor op = some client then 1 else 0) (h.next op) := by
  obtain ⟨table, htable, hheld, hbehind⟩ := hkept
  cases op with
  | lookup _ => exact ⟨table, htable, hheld, hbehind⟩
  | close => exact hspares.elim
  | select clients serial =>
      exact ⟨table, Worker.tables_select_of_mem hspares htable, hheld, hbehind⟩
  | cache defunct node window =>
      cases hcurrent : h.worker.current with
      | none =>
          have hnot : h.worker.allocatesFor (.cache defunct node window) ≠ some client := by
            simp [Worker.allocatesFor, hcurrent]
          rw [History.next_cache_none hcurrent, if_neg hnot]
          exact ⟨table, htable, hheld, hbehind⟩
      | some served =>
          obtain ⟨c, t⟩ := served
          rw [History.next_cache hcurrent]
          by_cases hc : c = client
          · subst hc
            obtain ⟨-, ht⟩ := Worker.current_eq_some.mp hcurrent
            obtain rfl := Option.some.inj (htable.symm.trans ht)
            have hiff : (h.worker.allocatesFor (.cache defunct node window) = some c) ↔
                allocates defunct table (objectKey node) = true := by
              simp [Worker.allocatesFor, hcurrent, Option.filter_some]
            simp only [hiff] at hroom ⊢
            obtain ⟨hheld', hbehind'⟩ := (hinv.ok c table ht).kept window hheld
              hbehind (fun hkey => hspares hkey table hcurrent) hroom
            refine ⟨_, ?_, hheld', hbehind'⟩
            rw [Worker.tables_setTable, if_pos rfl]
          · have hnot : h.worker.allocatesFor (.cache defunct node window) ≠ some client := by
              simp [Worker.allocatesFor, hcurrent, Option.filter_some, hc]
            rw [if_neg hnot]
            refine ⟨table, ?_, hheld, hbehind⟩
            rw [Worker.tables_setTable, if_neg (Ne.symm hc)]
            exact htable

theorem Kept.run {client : Nat} {object : String} {id : ElementId} {ops : List Operation} :
    ∀ {h : History} {m : Nat}, Inv h → Kept client object id m h →
      Allowed History.next (Spares client object) h ops →
      m + allocations client h ops < elementCapacity →
      (ops.foldl History.next h).Holds client object id := by
  induction ops with
  | nil => exact fun hinv hkept _ _ => hkept.holds hinv
  | cons op ops ih =>
      intro h m hinv hkept hallowed hroom
      rw [allocations, ← Nat.add_assoc] at hroom
      have hone : m + (if h.worker.allocatesFor op = some client then 1 else 0) <
          elementCapacity := Nat.lt_of_le_of_lt (Nat.le_add_right ..) hroom
      exact ih (hinv.next op) (hkept.next hinv hallowed.1 hone) hallowed.2 hroom

/-! ## The handles of all clients -/

/-- What holds of the handles after any operations. -/
structure Handles (h : History) : Prop where
  /-- The index and the filled slots of a table are each other's inverse. -/
  bijection : ∀ client table, h.worker.tables client = some table → ∀ object id,
    table.index object = some id ↔ ∃ element, table.slots id = some (object, element) ∧
      objectKey element.accessible = object
  /-- A number resolves to the object that its own client got it for last. -/
  resolves : ∀ id element, h.worker.lookupElement id = some element →
    ∃ client i, h.worker.selected = some client ∧ (i.val : Int) = id ∧
      lastIssued h.issues client i = some (objectKey element.accessible)
  /-- A new number stays with its object while it is spared and the ring has not
  come round. -/
  lasts : ∀ op client id object, h.worker.allocatesFor op = some client →
    h.worker.issue op = some ⟨client, id, object⟩ → ∀ later,
      Allowed History.next (Spares client object) (h.next op) later →
      allocations client (h.next op) later < elementCapacity →
      (later.foldl History.next (h.next op)).Holds client object id

theorem Inv.resolves {h : History} (hinv : Inv h) {id : Int} {element : Element}
    (hlookup : h.worker.lookupElement id = some element) :
    ∃ client i, h.worker.selected = some client ∧ (i.val : Int) = id ∧
      lastIssued h.issues client i = some (objectKey element.accessible) := by
  unfold Worker.lookupElement at hlookup
  split at hlookup
  · cases hlookup
  · next client table hcurrent =>
      obtain ⟨hselected, htable⟩ := Worker.current_eq_some.mp hcurrent
      split at hlookup
      · next hid =>
          obtain ⟨⟨key, e⟩, hslot, rfl⟩ := Option.map_eq_some_iff.mp hlookup
          refine ⟨client, ⟨id.toNat, hid.2⟩, hselected, Int.toNat_of_nonneg hid.1, ?_⟩
          rw [(hinv.ok client table htable).keyed _ key e hslot]
          exact hinv.issued client table _ key htable (Ring.holder_of_slot hslot)
      · cases hlookup

theorem Inv.lasts {h : History} (hinv : Inv h) {op : Operation} {client : Nat}
    {id : ElementId} {object : String} (hallocates : h.worker.allocatesFor op = some client)
    (hissue : h.worker.issue op = some ⟨client, id, object⟩) :
    Kept client object id 0 (h.next op) := by
  cases op with
  | cache defunct node window =>
      obtain ⟨⟨c, t⟩, hfilter, rfl⟩ := Option.map_eq_some_iff.mp hallocates
      obtain ⟨hcurrent, halloc⟩ := Option.filter_eq_some_iff.mp hfilter
      rw [History.next_cache hcurrent]
      simp only [Worker.issue, hcurrent, Option.map_some, Option.some_inj, Issue.mk.injEq,
        true_and] at hissue
      obtain ⟨rfl, rfl⟩ := hissue
      have hok := hinv.ok c t (Worker.current_eq_some.mp hcurrent).2
      refine ⟨_, by rw [Worker.tables_setTable, if_pos rfl], hok.holder_cacheElement, ?_⟩
      rw [cacheElement_of_allocates _ halloc]
      show Ring.Behind t.next (Ring.after (t.drop (objectKey node)).next) 0
      rw [Ring.next_drop]
      exact Ring.behind_after t.next
  | select clients serial => cases hallocates
  | lookup id => cases hallocates
  | close => cases hallocates

theorem element_handles (ops : List Operation) : Handles (ops.foldl History.next .initial) := by
  have hrun : Reachable History.next .initial (ops.foldl History.next .initial) :=
    Guarded.run ops _
  have hinv := hrun.invariant inv_initial fun _ op hinv _ => hinv.next op
  refine ⟨fun client table htable object id => ?_, fun id element => hinv.resolves,
    fun op client id object hallocates hissue later hspares hroom => ?_⟩
  · have hok := hinv.ok client table htable
    rw [hok.consistent object id]
    constructor
    · intro hheld
      obtain ⟨⟨key, element⟩, hslot, rfl⟩ := Option.map_eq_some_iff.mp hheld
      exact ⟨element, hslot, hok.keyed id key element hslot⟩
    · rintro ⟨element, hslot, -⟩
      exact Ring.holder_of_slot hslot
  · refine (hinv.lasts hallocates hissue).run (hinv.next op) hspares ?_
    rw [Nat.zero_add]
    exact hroom

/-! ## A ring that has gone round -/

def sampleNode (j : Nat) : Accessible :=
  ⟨some ":1.7", some ("/org/a11y/atspi/accessible/" ++ j.repr), j⟩

def sampleCache (j : Nat) : Operation := .cache (fun _ => false) (sampleNode j) ⟨1, 100⟩

/-- One client sees so many objects. -/
def seen (m : Nat) : List Operation := .select [1] 1 :: (List.range m).map sampleCache

theorem sampleNode_inj {i j : Nat}
    (h : objectKey (sampleNode i) = objectKey (sampleNode j)) : i = j := by
  have hlist := congrArg String.toList h
  simp only [objectKey, sampleNode, Option.getD_some, String.toList_append,
    List.append_cancel_left_eq, Nat.toList_repr] at hlist
  rw [← Nat.ofDigitChars_ten_toDigits (n := i), hlist, Nat.ofDigitChars_ten_toDigits]

/-- The first slots hold the objects in the order in which they were seen. -/
structure Filled (m : Nat) (h : History) (t : ElementTable) : Prop where
  current : h.worker.current = some (1, t)
  next : t.next.val = m % elementCapacity
  holder : ∀ id : ElementId,
    t.holder id = if id.val < m then some (objectKey (sampleNode id)) else none

theorem filled_seen {m : Nat} (hm : m ≤ elementCapacity) :
    ∃ t, Filled m ((seen m).foldl History.next .initial) t := by
  induction m with
  | zero => exact ⟨.empty, rfl, rfl, fun id => rfl⟩
  | succ m ih =>
      obtain ⟨t, hfilled⟩ := ih (by omega)
      have hrun : Reachable History.next .initial ((seen m).foldl History.next .initial) :=
        Guarded.run _ _
      have hinv := hrun.invariant inv_initial fun _ op hinv _ => hinv.next op
      have hok := hinv.ok 1 t (Worker.current_eq_some.mp hfilled.current).2
      have hseen : seen (m + 1) = seen m ++ [sampleCache m] := by
        simp [seen, List.range_succ]
      -- none of the objects seen before is this one
      have hnone : t.index (objectKey (sampleNode m)) = none := by
        refine Option.eq_none_iff_forall_ne_some.mpr fun id hid => ?_
        have hheld := (hok.consistent _ id).mp hid
        rw [hfilled.holder] at hheld
        split at hheld
        · next hlt => exact absurd (sampleNode_inj (Option.some.inj hheld)) (by omega)
        · cases hheld
      have hdrop : t.drop (objectKey (sampleNode m)) = t := by rw [Ring.drop, hnone]
      have halloc : allocates (fun _ => false) t (objectKey (sampleNode m)) = true := by
        rw [allocates, hnone]
        rfl
      rw [hseen, List.foldl_append, List.foldl_cons, List.foldl_nil, sampleCache,
        History.next_cache hfilled.current, cacheElement_of_allocates _ halloc, hdrop]
      refine ⟨_, Worker.current_setTable hfilled.current, ?_, fun id => ?_⟩
      · show (t.next.val + 1) % elementCapacity = _
        rw [hfilled.next, Nat.mod_add_mod]
      · have hnext : t.next.val = m := hfilled.next.trans (Nat.mod_eq_of_lt (by omega))
        rw [Ring.holder_push, hfilled.holder]
        by_cases hid : id = t.next
        · have heq : id.val = m := by rw [hid, hnext]
          rw [if_pos hid, if_pos (by omega), heq]
        · have hne : id.val ≠ m := fun heq => hid (Fin.ext (heq.trans hnext.symm))
          rw [if_neg hid]
          by_cases hlt : id.val < m
          · rw [if_pos hlt, if_pos (by omega)]
          · rw [if_neg hlt, if_neg (by omega)]

/-- A number that a client got only ever stands for the object it got it for. -/
def NeverReused (h : History) : Prop :=
  ∀ issue ∈ h.issues, ∀ element, h.worker.selected = some issue.client →
    h.worker.lookupElement issue.id.val = some element →
    objectKey element.accessible = issue.object

/-- A number lasts from when it was last returned. -/
def LastsFromReturn (h : History) : Prop :=
  ∀ op client id object, h.worker.issue op = some ⟨client, id, object⟩ → ∀ later,
    Allowed History.next (Spares client object) (h.next op) later →
    allocations client (h.next op) later < elementCapacity →
    (later.foldl History.next (h.next op)).Holds client object id

/-- The first object was seen again, and the next new object took its slot. -/
structure Overwritten (h last : History) : Prop where
  issued : h.worker.issue (sampleCache 0) = some ⟨1, 0, objectKey (sampleNode 0)⟩
  remembered : ⟨1, 0, objectKey (sampleNode 0)⟩ ∈ last.issues
  resolves : ∃ t, last.worker.current = some (1, t) ∧ t.slots 0 =
    some (objectKey (sampleNode elementCapacity), ⟨sampleNode elementCapacity, 1, 100⟩)

theorem Filled.overwritten {h : History} {t : ElementTable} (hinv : Inv h)
    (hfilled : Filled elementCapacity h t) :
    Overwritten h ((h.next (sampleCache 0)).next (sampleCache elementCapacity)) := by
  have hok := hinv.ok 1 t (Worker.current_eq_some.mp hfilled.current).2
  have hnext : t.next = 0 := Fin.ext (hfilled.next.trans (Nat.mod_self _))
  have hheld : t.holder 0 = some (objectKey (sampleNode 0)) :=
    (hfilled.holder 0).trans (if_pos (0 : ElementId).isLt)
  have hindex : t.index (objectKey (sampleNode 0)) = some 0 := (hok.consistent _ 0).mpr hheld
  have halloc : allocates (fun _ => false) t (objectKey (sampleNode 0)) = false := by
    simp [allocates, foundDefunct, hindex]
  obtain ⟨i, hi, hcache⟩ := cacheElement_of_cached ⟨1, 100⟩ halloc
  obtain rfl := Option.some.inj (hindex.symm.trans hi)
  have hissue : h.worker.issue (sampleCache 0) = some ⟨1, 0, objectKey (sampleNode 0)⟩ := by
    simp only [sampleCache, Worker.issue, hfilled.current, Option.map_some, hcache]
  let t' := t.refresh 0 (objectKey (sampleNode 0)) ⟨sampleNode 0, 1, 100⟩
  have hcurrent : (h.worker.setTable 1 t').current = some (1, t') :=
    Worker.current_setTable hfilled.current
  have hfirst : h.next (sampleCache 0) =
      ⟨h.worker.setTable 1 t', ⟨1, 0, objectKey (sampleNode 0)⟩ :: h.issues⟩ := by
    rw [sampleCache, History.next_cache hfilled.current, hcache]
  -- the object after the last slot is new
  have hnone : t.index (objectKey (sampleNode elementCapacity)) = none := by
    refine Option.eq_none_iff_forall_ne_some.mpr fun id hid => ?_
    have hid' := (hok.consistent _ id).mp hid
    rw [hfilled.holder, if_pos id.isLt] at hid'
    exact absurd (sampleNode_inj (Option.some.inj hid')) (Nat.ne_of_lt id.isLt)
  have hnew : allocates (fun _ => false) t' (objectKey (sampleNode elementCapacity)) = true := by
    show ((t.index _).isNone || _) = true
    rw [hnone]
    rfl
  rw [hfirst]
  refine ⟨hissue, ?_, ?_⟩
  · rw [sampleCache, History.next_cache hcurrent]
    exact List.mem_cons_of_mem _ List.mem_cons_self
  · rw [sampleCache, History.next_cache hcurrent, cacheElement_of_allocates _ hnew]
    refine ⟨_, Worker.current_setTable hcurrent, ?_⟩
    rw [Ring.slot_push, Ring.next_drop]
    exact if_pos hnext.symm

theorem allocations_one_lt (client : Nat) (h : History) (op : Operation) :
    allocations client h [op] < elementCapacity := by
  show (if _ then 1 else 0) + 0 < 20000
  split <;> omega

theorem sampleNode_ne :
    objectKey (sampleNode elementCapacity) ≠ objectKey (sampleNode 0) :=
  fun heq => NeZero.ne elementCapacity (sampleNode_inj heq)

theorem Overwritten.not_neverReused {h last : History} (hover : Overwritten h last) :
    ¬ NeverReused last := by
  intro hnever
  obtain ⟨t, hcurrent, hslot⟩ := hover.resolves
  refine sampleNode_ne (hnever _ hover.remembered ⟨sampleNode elementCapacity, 1, 100⟩
    (Worker.current_eq_some.mp hcurrent).1 ?_)
  rw [Worker.lookupElement, hcurrent]
  simp only []
  rw [dif_pos ⟨Int.natCast_nonneg _, (0 : ElementId).isLt⟩]
  exact congrArg (Option.map Prod.snd) hslot

theorem Overwritten.not_lastsFromReturn {h : History} (hover : Overwritten h
    ((h.next (sampleCache 0)).next (sampleCache elementCapacity))) :
    ¬ LastsFromReturn h := by
  intro hlasts
  obtain ⟨t, hcurrent, hslot⟩ := hover.resolves
  have hspares : Spares 1 (objectKey (sampleNode 0)) (h.next (sampleCache 0))
      (sampleCache elementCapacity) := fun heq => absurd heq sampleNode_ne
  obtain ⟨table, htable, -, element, hheld, -⟩ := hlasts (sampleCache 0) 1 0
    (objectKey (sampleNode 0)) hover.issued [sampleCache elementCapacity]
    ⟨hspares, trivial⟩ (allocations_one_lt ..)
  obtain rfl := Option.some.inj (htable.symm.trans (Worker.current_eq_some.mp hcurrent).2)
  rw [hslot] at hheld
  exact sampleNode_ne (congrArg Prod.fst (Option.some.inj hheld))

/-- The next occupant of a slot takes its number over, and an object that was
seen again did not get a later turn. -/
theorem overwritten_element :
    (¬ ∀ ops, NeverReused (List.foldl History.next .initial ops)) ∧
      ¬ ∀ ops, LastsFromReturn (List.foldl History.next .initial ops) := by
  obtain ⟨t, hfilled⟩ := filled_seen (Nat.le_refl elementCapacity)
  have hrun : Reachable History.next .initial
      ((seen elementCapacity).foldl History.next .initial) := Guarded.run _ _
  have hinv := hrun.invariant inv_initial fun _ op hinv _ => hinv.next op
  have hover := hfilled.overwritten hinv
  refine ⟨fun hnever => ?_, fun hlasts => ?_⟩
  · have h := hnever (seen elementCapacity ++ [sampleCache 0, sampleCache elementCapacity])
    rw [List.foldl_append, List.foldl_cons, List.foldl_cons, List.foldl_nil] at h
    exact hover.not_neverReused h
  · exact hover.not_lastsFromReturn (hlasts (seen elementCapacity))

end Spaces.Computer.Accessibility
