import Mathlib.Data.Set.Basic
import Spaces.Library.Runs
import Spaces.Workers.DeviceNodes

/-!
# Binds, policy and what the worker remembers

Between two wakings what the worker takes for bound is what is bound, and the policy
permits it. While the worker is at work the views part for a while, but always so that
the policy permits what is bound: a bind goes before its permission does, and comes
after it.

What the policy permits besides is another matter. An assignment adds to the unit's list
and takes nothing off it, so that a node that was unbound, or was allowed and could not be
bound, stays allowed. The policy is the one for what is bound only as long as every such
node has the number of one that is bound: `Tidy` says so of a waking, by what it finds and
which of its commands fail.
-/

namespace Spaces.Workers

open Spaces.Library Routine

variable {manager : Manager} {level : DeviceLevel} {s : DeviceState} {node : DeviceNode}
  {nodes : List DeviceNode}

/-! ## Lists of nodes -/

/-- One node to a place, and none below another. -/
structure Placed (nodes : List DeviceNode) : Prop where
  nodup : (nodes.map DeviceNode.destination).Nodup
  flat : ∀ a ∈ nodes, ∀ b ∈ nodes, a.destination <+: b.destination →
    a.destination = b.destination

theorem Placed.inj (h : Placed nodes) {a b : DeviceNode} (ha : a ∈ nodes) (hb : b ∈ nodes)
    (heq : a.destination = b.destination) : a = b :=
  List.inj_on_of_nodup_map h.nodup ha hb heq

theorem Placed.sublist {fewer : List DeviceNode} (h : Placed nodes) (hsub : fewer.Sublist nodes) :
    Placed fewer where
  nodup := h.nodup.sublist (hsub.map _)
  flat a ha b hb := h.flat a (hsub.subset ha) b (hsub.subset hb)

theorem mem_sortedNodes {a : DeviceNode} : a ∈ sortedNodes nodes ↔ a ∈ nodes :=
  (List.mergeSort_perm nodes _).mem_iff

theorem Discovery.mem_discover {d : Discovery} (h : node ∈ d.discover) :
    ∃ p ∈ d.walk.paths, d.nodeAt p = some node ∧ node.destination = "dev" :: p := by
  obtain ⟨p, hp, hnode⟩ := List.mem_filterMap.mp (mem_sortedNodes.mp h)
  obtain ⟨a, -, rfl⟩ := Option.map_eq_some_iff.mp hnode
  exact ⟨p, hp, hnode, rfl⟩

/-- What is discovered is placed. -/
theorem Discovery.placed (d : Discovery) : Placed d.discover := by
  constructor
  · refine List.Nodup.map_on (fun a ha b hb heq => ?_) ?_
    · obtain ⟨p, -, hnode, hplace⟩ := mem_discover ha
      obtain ⟨q, -, hnode', hplace'⟩ := mem_discover hb
      obtain ⟨-, rfl⟩ := List.cons.inj (hplace.symm.trans (heq.trans hplace'))
      exact Option.some.inj (hnode.symm.trans hnode')
    · refine (List.mergeSort_perm _ _).nodup_iff.mpr (d.walk.nodup.filterMap ?_)
      intro p q a ha hb
      obtain ⟨x, -, rfl⟩ := Option.map_eq_some_iff.mp ha
      obtain ⟨y, -, heq⟩ := Option.map_eq_some_iff.mp hb
      exact (List.cons.inj (congrArg DeviceNode.destination heq).symm).2
  · intro a ha b hb hbelow
    obtain ⟨p, hp, -, hplace⟩ := mem_discover ha
    obtain ⟨q, hq, -, hplace'⟩ := mem_discover hb
    rw [hplace, hplace'] at hbelow ⊢
    rw [d.walk.files p hp q hq (List.cons_prefix_cons.mp hbelow).2]

/-! ## What the unit lists -/

/-- The entries of a policy for the nodes. -/
def entries (nodes : Set DeviceNode) : Set (String × String) :=
  {entry | entry ∈ baseDeviceAllow ∨ ∃ node ∈ nodes, entry = (node.allowSpec, "rw")}

theorem entries_union (nodes more : Set DeviceNode) {entry : String × String} :
    entry ∈ entries (nodes ∪ more) ↔ entry ∈ entries nodes ∨ entry ∈ entries more := by
  constructor
  · rintro (hbase | ⟨node, hnode | hnode, rfl⟩)
    · exact .inl (.inl hbase)
    · exact .inl (.inr ⟨node, hnode, rfl⟩)
    · exact .inr (.inr ⟨node, hnode, rfl⟩)
  · rintro ((hbase | ⟨node, hnode, rfl⟩) | (hbase | ⟨node, hnode, rfl⟩))
    · exact .inl hbase
    · exact .inr ⟨node, .inl hnode, rfl⟩
    · exact .inl hbase
    · exact .inr ⟨node, .inr hnode, rfl⟩

/-- A number is none of the names in the base list. -/
theorem allowSpec_ne_base (node : DeviceNode) :
    ∀ entry ∈ baseDeviceAllow, entry.1 ≠ node.allowSpec := by
  have hlists : ∀ entry ∈ baseDeviceAllow, ∀ kind : Kind, ∀ rest : List Char,
      entry.1.toList ≠ ("/dev/" ++ kind.family ++ "/").toList ++ rest := by
    intro entry hentry kind rest heq
    simp only [baseDeviceAllow, List.mem_cons, List.not_mem_nil, or_false] at hentry
    rcases hentry with rfl | rfl | rfl <;> cases kind <;> simp [Kind.family] at heq
  intro entry hentry heq
  refine hlists entry hentry node.kind
    (toString node.major ++ ":" ++ toString node.minor).toList ?_
  rw [heq, ← String.toList_append]
  simp only [DeviceNode.allowSpec, String.append_assoc]

theorem entries_inj {nodes more : Set DeviceNode} {a b : String × String} (ha : a ∈ entries nodes)
    (hb : b ∈ entries more) (h : a.1 = b.1) : a = b := by
  rcases ha with ha | ⟨node, -, rfl⟩ <;> rcases hb with hb | ⟨other, -, rfl⟩
  · have hbase : ∀ a ∈ baseDeviceAllow, ∀ b ∈ baseDeviceAllow, a.1 = b.1 → a = b := by decide
    exact hbase a ha b hb h
  · exact absurd h (allowSpec_ne_base other a ha)
  · exact absurd h.symm (allowSpec_ne_base node b hb)
  · exact Prod.ext h rfl

theorem mem_devicePolicy (hlevel : level ≠ .full) {entry : String × String} :
    entry ∈ (devicePolicy level nodes).allow ↔ entry ∈ entries {node | node ∈ nodes} := by
  rw [devicePolicy, if_neg hlevel]
  constructor
  · intro hentry
    rcases List.mem_append.mp hentry with hbase | hmap
    · exact .inl hbase
    · obtain ⟨node, hnode, rfl⟩ := List.mem_map.mp hmap
      exact .inr ⟨node, mem_sortedNodes.mp hnode, rfl⟩
  · rintro (hbase | ⟨node, hnode, rfl⟩)
    · exact List.mem_append_left _ hbase
    · exact List.mem_append_right _ (List.mem_map.mpr ⟨node, mem_sortedNodes.mpr hnode, rfl⟩)

theorem devicePolicy_full (hlevel : level = .full) : devicePolicy level nodes = ⟨"auto", []⟩ :=
  if_pos hlevel

theorem devicePolicy_policy (level : DeviceLevel) (nodes more : List DeviceNode) :
    (devicePolicy level nodes).policy = (devicePolicy level more).policy := by
  unfold devicePolicy
  split <;> rfl

/-- The policy lists what it was set to for some nodes, one assignment after another, and
what the unit listed before of other paths. -/
structure Lists (level : DeviceLevel) (listed : List (String × String))
    (named : Set DeviceNode) (p : DevicePolicy) : Prop where
  policy : p.policy = (devicePolicy level []).policy
  full : level = .full → p.allow = []
  allow : level ≠ .full → ∀ entry, entry ∈ p.allow ↔
    entry ∈ entries named ∨ entry ∈ listed ∧ ∀ other ∈ entries named, other.1 ≠ entry.1

theorem mem_assign_devicePolicy (hlevel : level ≠ .full) {listed : List (String × String)}
    {entry : String × String} :
    entry ∈ manager.assign listed (devicePolicy level nodes).allow ↔
      entry ∈ entries {node | node ∈ nodes} ∨
        entry ∈ listed ∧ ∀ other ∈ entries {node | node ∈ nodes}, other.1 ≠ entry.1 := by
  have hne : (devicePolicy level nodes).allow ≠ [] := by
    rw [devicePolicy, if_neg hlevel]
    exact List.cons_ne_nil _ _
  have hconsistent : Consistent (devicePolicy level nodes).allow := fun a ha b hb =>
    entries_inj ((mem_devicePolicy hlevel).mp ha) ((mem_devicePolicy hlevel).mp hb)
  rw [manager.mem_assign hne hconsistent]
  simp only [mem_devicePolicy hlevel]

theorem Lists.launch (manager : Manager) (level : DeviceLevel) (policy : String)
    (listed : List (String × String)) (nodes : List DeviceNode) :
    Lists level listed {node | node ∈ nodes}
      (DevicePolicy.assign manager ⟨policy, listed⟩ (devicePolicy level nodes)) where
  policy := devicePolicy_policy level nodes []
  full hlevel := by
    rw [DevicePolicy.assign, devicePolicy_full hlevel]
    exact manager.reset _
  allow hlevel _ := mem_assign_devicePolicy hlevel

variable {listed : List (String × String)} {named : Set DeviceNode} {p : DevicePolicy}

/-- An assignment adds. -/
theorem Lists.assign (h : Lists level listed named p) (manager : Manager)
    (nodes : List DeviceNode) :
    Lists level listed (named ∪ {node | node ∈ nodes})
      (p.assign manager (devicePolicy level nodes)) where
  policy := devicePolicy_policy level nodes []
  full hlevel := by
    rw [DevicePolicy.assign, devicePolicy_full hlevel]
    exact manager.reset _
  allow hlevel entry := by
    rw [DevicePolicy.assign, mem_assign_devicePolicy hlevel, h.allow hlevel, entries_union]
    constructor
    · rintro (hnew | ⟨hold | ⟨hlisted, hfree⟩, hother⟩)
      · exact .inl (.inr hnew)
      · exact .inl (.inl hold)
      · exact .inr ⟨hlisted, fun other hmem =>
          ((entries_union _ _).mp hmem).elim (hfree other) (hother other)⟩
    · rintro ((hold | hnew) | ⟨hlisted, hfree⟩)
      · by_cases hpath : ∃ other ∈ entries {node | node ∈ nodes}, other.1 = entry.1
        · obtain ⟨other, hother, heq⟩ := hpath
          exact .inl (entries_inj hother hold heq ▸ hother)
        · exact .inr ⟨.inl hold, fun other hother heq => hpath ⟨other, hother, heq⟩⟩
      · exact .inl hnew
      · exact .inr ⟨.inr ⟨hlisted, fun other hother =>
          hfree other ((entries_union _ _).mpr (.inl hother))⟩,
          fun other hother => hfree other ((entries_union _ _).mpr (.inr hother))⟩

/-- One that names nothing new changes nothing that counts. -/
theorem Lists.assign_named (h : Lists level listed named p) (manager : Manager)
    (hnodes : ∀ node ∈ nodes, node ∈ named) :
    Lists level listed named (p.assign manager (devicePolicy level nodes)) := by
  have hsub : {node | node ∈ nodes} ⊆ named := hnodes
  have hassign := h.assign manager nodes
  rwa [Set.union_eq_left.mpr hsub] at hassign

theorem Lists.permits (h : Lists level listed named p) (hnode : node ∈ named) :
    p.permits node = true := by
  unfold DevicePolicy.permits
  by_cases hlevel : level = .full
  · rw [h.policy, h.full hlevel, devicePolicy_full hlevel]
    rfl
  · have hmem : (node.allowSpec, "rw") ∈ p.allow :=
      (h.allow hlevel _).mpr (.inl (.inr ⟨node, hnode, rfl⟩))
    simp [hmem]

/-- Every bound node may be opened. -/
def Permitted (s : DeviceState) : Prop := ∀ node ∈ s.bound, s.policy.permits node = true

/-! ## The policy for what is bound -/

/-- The policy lists the base list and the tracked nodes, and nothing else. -/
structure Exact (level : DeviceLevel) (s : DeviceState) : Prop where
  policy : s.policy.policy = (devicePolicy level s.mounted).policy
  allow : ∀ entry, entry ∈ s.policy.allow ↔ entry ∈ (devicePolicy level s.mounted).allow

/-- Another node has the number. -/
def Stands (nodes : List DeviceNode) (node : DeviceNode) : Prop :=
  ∃ other ∈ nodes, other.allowSpec = node.allowSpec

/-- The unit lists nothing but for paths that the policy names. -/
def Clear (listed : List (String × String)) (named : Set DeviceNode) : Prop :=
  ∀ entry ∈ listed, ∃ other ∈ entries named, other.1 = entry.1

theorem Lists.exact_full (h : Lists level listed named s.policy) (hlevel : level = .full) :
    Exact level s where
  policy := h.policy.trans (devicePolicy_policy level [] s.mounted)
  allow entry := by rw [h.full hlevel, devicePolicy_full hlevel]

theorem Lists.exact_iff (h : Lists level listed named s.policy) (hlevel : level ≠ .full)
    (hmounted : ∀ node ∈ s.mounted, node ∈ named) :
    Exact level s ↔ (∀ node ∈ named, Stands s.mounted node) ∧ Clear listed named := by
  have hmore : ∀ entry ∈ entries {node | node ∈ s.mounted}, entry ∈ entries named := by
    rintro entry (hbase | ⟨node, hnode, rfl⟩)
    · exact .inl hbase
    · exact .inr ⟨node, hmounted node hnode, rfl⟩
  constructor
  · intro hexact
    have hallow : ∀ entry ∈ s.policy.allow, entry ∈ entries {node | node ∈ s.mounted} :=
      fun entry hentry => (mem_devicePolicy hlevel).mp ((hexact.allow entry).mp hentry)
    refine ⟨fun node hnode => ?_, fun entry hentry => ?_⟩
    · rcases hallow _ ((h.allow hlevel _).mpr (.inl (.inr ⟨node, hnode, rfl⟩))) with
        hbase | ⟨other, hother, heq⟩
      · exact absurd rfl (allowSpec_ne_base node _ hbase)
      · exact ⟨other, hother, (congrArg Prod.fst heq).symm⟩
    · by_contra hfree
      push Not at hfree
      exact hfree entry (hmore entry (hallow entry
        ((h.allow hlevel _).mpr (.inr ⟨hentry, hfree⟩)))) rfl
  · rintro ⟨hstands, hclear⟩
    refine ⟨h.policy.trans (devicePolicy_policy level [] s.mounted), fun entry => ?_⟩
    rw [h.allow hlevel, mem_devicePolicy hlevel]
    constructor
    · rintro ((hbase | ⟨node, hnode, rfl⟩) | ⟨hlisted, hfree⟩)
      · exact .inl hbase
      · obtain ⟨other, hother, heq⟩ := hstands node hnode
        exact .inr ⟨other, hother, by rw [heq]⟩
      · obtain ⟨other, hother, heq⟩ := hclear entry hlisted
        exact absurd heq (hfree other hother)
    · exact fun hentry => .inl (hmore entry hentry)

/-! ## A waking -/

/-- What a waking starts from, and what it is to meet. -/
structure Round where
  level : DeviceLevel
  listed : List (String × String)
  failures : Failures
  /-- The nodes the policy names. -/
  named : Set DeviceNode
  mounted : List DeviceNode
  desired : List DeviceNode
  subset : ∀ node ∈ mounted, node ∈ named
  placed : Placed desired

/-- Both commands for a new node succeed. -/
def Failures.binds (failures : Failures) (node : DeviceNode) : Bool :=
  failures.widen node = .none && !failures.bindFails node

/-- No command fails but those whose failure is passed over. -/
structure Failures.Pass (failures : Failures) (mounted desired : List DeviceNode) : Prop where
  unmount : ∀ node ∈ mounted, node ∉ desired → failures.unmount node = .none
  narrow : (∃ node ∈ mounted, node ∉ desired) → failures.narrow = .none
  restore : ∀ node ∈ desired, node ∉ mounted → failures.binds node = false →
    failures.restore node = .none

namespace Round

variable {r : Round}

/-- The new nodes that the policy was widened for, but for those that are still to come. -/
def widened (r : Round) (rest : List DeviceNode) : Set DeviceNode :=
  {node | node ∈ r.desired ∧ node ∉ r.mounted ∧ node ∉ rest ∧ r.failures.widen node ≠ .before}

theorem permitted_of_lists {named : Set DeviceNode} (h : Lists r.level r.listed named s.policy)
    (hbound : ∀ node ∈ s.bound, node ∈ named) : Permitted s :=
  fun node hnode => h.permits (hbound node hnode)

/-- While nodes are unbound the policy stays. -/
structure Removing (r : Round) (rest : List DeviceNode) (s : DeviceState) : Prop where
  unique : s.mounted.Nodup
  same : ∀ node, node ∈ s.mounted ↔ node ∈ s.bound
  placed : Placed s.bound
  lists : Lists r.level r.listed r.named s.policy
  kept : ∀ node, node ∈ s.mounted ↔ node ∈ r.mounted ∧ (node ∈ r.desired ∨ node ∈ rest)
  todo : ∀ node ∈ rest, node ∈ r.mounted ∧ node ∉ r.desired
  nodup : rest.Nodup
  unmounted : ∀ node ∈ r.mounted, node ∉ r.desired → node ∉ rest →
    r.failures.unmount node = .none

/-- One of them is unbound and not yet forgotten. -/
structure Unbound (r : Round) (gone : DeviceNode) (rest : List DeviceNode) (s : DeviceState) :
    Prop where
  unique : s.mounted.Nodup
  same : ∀ node, node ∈ s.bound ↔ node ∈ s.mounted ∧ node ≠ gone
  placed : Placed s.bound
  lists : Lists r.level r.listed r.named s.policy
  kept : ∀ node, node ∈ s.mounted ↔
    node ∈ r.mounted ∧ (node ∈ r.desired ∨ node ∈ gone :: rest)
  todo : ∀ node ∈ gone :: rest, node ∈ r.mounted ∧ node ∉ r.desired
  nodup : (gone :: rest).Nodup
  unmounted : ∀ node ∈ r.mounted, node ∉ r.desired → node ∉ rest →
    r.failures.unmount node = .none

/-- What goes is unbound, and what stays is tracked. -/
structure Narrowed (r : Round) (s : DeviceState) : Prop where
  unique : s.mounted.Nodup
  same : ∀ node, node ∈ s.mounted ↔ node ∈ s.bound
  placed : Placed s.bound
  lists : Lists r.level r.listed r.named s.policy
  kept : ∀ node, node ∈ s.mounted ↔ node ∈ r.mounted ∧ node ∈ r.desired
  unmounted : ∀ node ∈ r.mounted, node ∉ r.desired → r.failures.unmount node = .none
  narrow : (∃ node ∈ r.mounted, node ∉ r.desired) → r.failures.narrow = .none

/-- While nodes are bound, those that were tried are bound or passed over. -/
structure Adding (r : Round) (rest : List DeviceNode) (s : DeviceState) : Prop where
  unique : s.mounted.Nodup
  same : ∀ node, node ∈ s.mounted ↔ node ∈ s.bound
  placed : Placed s.bound
  lists : Lists r.level r.listed (r.named ∪ r.widened rest) s.policy
  tracked : ∀ node, node ∈ s.mounted ↔
    node ∈ r.desired ∧ node ∉ rest ∧ (node ∈ r.mounted ∨ r.failures.binds node = true)
  todo : ∀ node ∈ rest, node ∈ r.desired ∧ node ∉ r.mounted
  nodup : rest.Nodup
  restored : ∀ node ∈ r.desired, node ∉ r.mounted → node ∉ rest →
    r.failures.binds node = false → r.failures.restore node = .none
  unmounted : ∀ node ∈ r.mounted, node ∉ r.desired → r.failures.unmount node = .none
  narrow : (∃ node ∈ r.mounted, node ∉ r.desired) → r.failures.narrow = .none

/-- The policy was widened for a node, if its failure let it be. -/
structure Trying (r : Round) (node : DeviceNode) (rest : List DeviceNode) (s : DeviceState) :
    Prop where
  adding : ∃ policy, r.Adding (node :: rest) { s with policy := policy }
  lists : Lists r.level r.listed (r.named ∪ r.widened rest) s.policy

/-- Bound, and about to be remembered. -/
structure Bound (r : Round) (node : DeviceNode) (rest : List DeviceNode) (s : DeviceState) :
    Prop where
  before : ∃ bound, r.Trying node rest { s with bound := bound } ∧ s.bound = node :: bound
  placed : Placed s.bound
  binds : r.failures.binds node = true

/-! ## The steps -/

variable {rest : List DeviceNode}

theorem unmount_meets : Meets Permitted (r.Removing (node :: rest))
    (unmountInMachine r.failures node) (fun _ => r.Unbound node rest) (fun _ _ => True) := by
  refine Meets.performAs (fun s s' h heffect _ => ?_) fun _ _ _ => trivial
  obtain ⟨bound, hdetach, rfl⟩ := Option.map_eq_some_iff.mp heffect
  have hnode : node ∈ s.bound := (h.same node).mp ((h.kept node).mpr
    ⟨(h.todo node List.mem_cons_self).1, .inr List.mem_cons_self⟩)
  have hbelow : ∀ other ∈ s.bound, node.destination <+: other.destination →
      other.destination = node.destination := fun other hother hpre =>
    (h.placed.flat node hnode other hother hpre).symm
  have hsame : ∀ other, other ∈ bound ↔ other ∈ s.mounted ∧ other ≠ node := by
    intro other
    rw [MountTable.mem_detach_place h.placed.nodup hnode hbelow hdetach, h.same other]
  have hnamed : ∀ other ∈ bound, other ∈ r.named := fun other hother =>
    r.subset other ((h.kept other).mp ((hsame other).mp hother).1).1
  refine ⟨permitted_of_lists h.lists hnamed, fun hfault => ?_, fun _ => trivial⟩
  exact
    { unique := h.unique
      same := hsame
      placed := h.placed.sublist (MountTable.detach_sublist hdetach)
      lists := h.lists
      kept := h.kept
      todo := h.todo
      nodup := h.nodup
      unmounted := fun other hother hgone hrest => by
        by_cases heq : other = node
        · exact heq ▸ hfault
        · exact h.unmounted other hother hgone fun hmem =>
            hrest ((List.mem_cons.mp hmem).resolve_left heq) }

theorem removeNode_meets : Meets Permitted (r.Removing (node :: rest))
    (removeNode r.failures node) (fun _ => r.Removing rest) (fun _ _ => True) := by
  refine Meets.bind unmount_meets fun _ => Meets.update fun s h => ?_
  have hmem : ∀ {other}, other ∈ (s.untrack node).mounted ↔ other ∈ s.mounted ∧ other ≠ node := by
    intro other
    simp [DeviceState.untrack]
  obtain ⟨hnode, hnodup⟩ := List.nodup_cons.mp h.nodup
  have hnext : r.Removing rest (s.untrack node) :=
    { unique := h.unique.filter _
      same := fun other => hmem.trans (h.same other).symm
      placed := h.placed
      lists := h.lists
      kept := fun other => by
        rw [hmem, h.kept, List.mem_cons]
        constructor
        · rintro ⟨⟨hmounted, hstays | rfl | hrest⟩, hne⟩
          · exact ⟨hmounted, .inl hstays⟩
          · exact absurd rfl hne
          · exact ⟨hmounted, .inr hrest⟩
        · rintro ⟨hmounted, hstays | hrest⟩
          · refine ⟨⟨hmounted, .inl hstays⟩, fun heq => ?_⟩
            exact (h.todo node List.mem_cons_self).2 (heq ▸ hstays)
          · exact ⟨⟨hmounted, .inr (.inr hrest)⟩, fun heq => hnode (heq ▸ hrest)⟩
      todo := fun other hother => h.todo other (List.mem_cons_of_mem _ hother)
      nodup := hnodup
      unmounted := h.unmounted }
  refine ⟨permitted_of_lists h.lists fun other hother => r.subset other ?_, hnext⟩
  exact ((h.kept other).mp ((h.same other).mp hother).1).1

theorem Removing.narrowed (h : r.Removing [] s)
    (hnarrow : (∃ node ∈ r.mounted, node ∉ r.desired) → r.failures.narrow = .none) :
    r.Narrowed s where
  unique := h.unique
  same := h.same
  placed := h.placed
  lists := h.lists
  kept node := by rw [h.kept, or_iff_left List.not_mem_nil]
  unmounted node hnode hgone := h.unmounted node hnode hgone List.not_mem_nil
  narrow := hnarrow

/-- The one update of the policy names nothing new. -/
theorem narrow_meets (manager : Manager) : Meets Permitted (r.Removing [])
    (setDevicePolicy manager r.level r.failures.narrow DeviceState.mounted)
    (fun _ => r.Narrowed) (fun _ _ => True) := by
  refine Meets.performAs (fun s s' h heffect _ => ?_) fun _ _ _ => trivial
  cases heffect
  have hmounted : ∀ node ∈ s.mounted, node ∈ r.named := fun node hnode =>
    r.subset node ((h.kept node).mp hnode).1
  have hlists := h.lists.assign_named manager hmounted
  refine ⟨permitted_of_lists hlists fun node hnode => hmounted node ((h.same node).mpr hnode),
    fun hfault => ?_, fun _ => trivial⟩
  exact Removing.narrowed ⟨h.unique, h.same, h.placed, hlists, h.kept, h.todo, h.nodup,
    h.unmounted⟩ fun _ => hfault

/-- What is tracked the policy names. -/
theorem Adding.isNamed (h : r.Adding rest s) :
    ∀ node ∈ s.mounted, node ∈ r.named ∪ r.widened rest := by
  intro node hnode
  obtain ⟨hdesired, hrest, hmounted | hbinds⟩ := (h.tracked node).mp hnode
  · exact .inl (r.subset node hmounted)
  · by_cases hmounted : node ∈ r.mounted
    · exact .inl (r.subset node hmounted)
    · refine .inr ⟨hdesired, hmounted, hrest, fun hbefore => ?_⟩
      rw [Failures.binds, hbefore] at hbinds
      cases hbinds

theorem Adding.permitted (h : r.Adding rest s) : Permitted s :=
  permitted_of_lists h.lists fun node hnode => h.isNamed node ((h.same node).mpr hnode)

/-- With a node tried, there is one more or there is not. -/
theorem widened_cons (hdesired : node ∈ r.desired) (hmounted : node ∉ r.mounted)
    (hrest : node ∉ rest) :
    r.widened rest = r.widened (node :: rest) ∪
      {other | other = node ∧ r.failures.widen node ≠ .before} := by
  ext other
  constructor
  · rintro ⟨hother, hnew, hout, hwiden⟩
    by_cases heq : other = node
    · exact .inr ⟨heq, heq ▸ hwiden⟩
    · exact .inl ⟨hother, hnew, fun hmem =>
        (List.mem_cons.mp hmem).elim heq hout, hwiden⟩
  · rintro (⟨hother, hnew, hout, hwiden⟩ | ⟨rfl, hwiden⟩)
    · exact ⟨hother, hnew, fun hmem => hout (List.mem_cons_of_mem _ hmem), hwiden⟩
    · exact ⟨hdesired, hmounted, hrest, hwiden⟩

theorem widened_mono : r.widened (node :: rest) ⊆ r.widened rest :=
  fun _ h => ⟨h.1, h.2.1, fun hmem => h.2.2.1 (List.mem_cons_of_mem _ hmem), h.2.2.2⟩

theorem Trying.isNamed (h : r.Trying node rest s) :
    ∀ other ∈ s.mounted, other ∈ r.named ∪ r.widened rest := by
  obtain ⟨policy, hadding⟩ := h.adding
  exact fun other hother => (hadding.isNamed other hother).imp_right fun hw => widened_mono hw

theorem Trying.permitted (h : r.Trying node rest s) : Permitted s := by
  obtain ⟨policy, hadding⟩ := h.adding
  exact permitted_of_lists h.lists fun other hother =>
    h.isNamed other ((hadding.same other).mpr hother)

theorem propose_meets (manager : Manager) : Meets Permitted (r.Adding (node :: rest))
    (setDevicePolicy manager r.level (r.failures.widen node) fun s => node :: s.mounted)
    (fun _ s => r.Trying node rest s ∧ r.failures.widen node = .none)
    (fun _ s => r.Trying node rest s ∧ r.failures.binds node = false) := by
  refine Meets.performAs (fun s s' h heffect hfault => ?_) fun s h hfault => ?_
  · cases heffect
    obtain ⟨hdesired, hmounted⟩ := h.todo node List.mem_cons_self
    have hrest : node ∉ rest := (List.nodup_cons.mp h.nodup).1
    have hassign := h.lists.assign manager (node :: s.mounted)
    have hunion : r.named ∪ r.widened (node :: rest) ∪ {other | other ∈ node :: s.mounted}
        = r.named ∪ r.widened rest := by
      rw [widened_cons hdesired hmounted hrest]
      ext other
      constructor
      · rintro ((hnamed | hwidened) | hmem)
        · exact .inl hnamed
        · exact .inr (.inl hwidened)
        · rcases List.mem_cons.mp hmem with rfl | hmem
          · exact .inr (.inr ⟨rfl, hfault⟩)
          · exact (h.isNamed other hmem).imp_right .inl
      · rintro (hnamed | hwidened | ⟨rfl, -⟩)
        · exact .inl (.inl hnamed)
        · exact .inl (.inr hwidened)
        · exact .inr List.mem_cons_self
    rw [hunion] at hassign
    have htrying : r.Trying node rest
        { s with policy := s.policy.assign manager (devicePolicy r.level (node :: s.mounted)) } :=
      ⟨⟨s.policy, h⟩, hassign⟩
    refine ⟨htrying.permitted, fun hnone => ⟨htrying, hnone⟩, fun hafter => ⟨htrying, ?_⟩⟩
    rw [Failures.binds, hafter]
    rfl
  · have hbefore : r.failures.widen node = .before := by
      by_contra hne
      cases hfault hne
    obtain ⟨hdesired, hmounted⟩ := h.todo node List.mem_cons_self
    have hnothing : r.widened rest = r.widened (node :: rest) := by
      rw [widened_cons hdesired hmounted (List.nodup_cons.mp h.nodup).1, Set.union_eq_left]
      exact fun other hother => absurd hbefore hother.2
    refine ⟨⟨⟨s.policy, h⟩, hnothing ▸ h.lists⟩, ?_⟩
    rw [Failures.binds, hbefore]
    rfl

theorem Adding.placed_cons (h : r.Adding (node :: rest) s) : Placed (node :: s.bound) := by
  obtain ⟨hdesired, hmounted⟩ := h.todo node List.mem_cons_self
  have hbound : ∀ other ∈ s.bound, other ∈ r.desired := fun other hother =>
    ((h.tracked other).mp ((h.same other).mpr hother)).1
  have hall : ∀ other ∈ node :: s.bound, other ∈ r.desired :=
    List.forall_mem_cons.mpr ⟨hdesired, hbound⟩
  have hunbound : node ∉ s.bound := fun hmem =>
    ((h.tracked node).mp ((h.same node).mpr hmem)).2.1 List.mem_cons_self
  refine ⟨?_, fun a ha b hb => r.placed.flat a (hall a ha) b (hall b hb)⟩
  exact MountTable.nodup_mount h.placed.nodup hunbound fun other hother heq =>
    r.placed.inj (hbound other hother) hdesired heq

theorem bind_meets : Meets Permitted
    (fun s => r.Trying node rest s ∧ r.failures.widen node = .none)
    (bindInMachine r.failures node)
    (fun _ => r.Bound node rest)
    (fun _ s => r.Trying node rest s ∧ r.failures.binds node = false) := by
  refine Meets.performAs (fun s s' h heffect hfault => ?_) fun s h hfault => ?_
  · obtain ⟨htrying, hwiden⟩ := h
    cases heffect
    obtain ⟨policy, hadding⟩ := htrying.adding
    have hbinds : r.failures.binds node = true := by
      rw [Failures.binds, hwiden]
      cases hfails : r.failures.bindFails node with
      | false => rfl
      | true => exact absurd (if_pos hfails) hfault
    have hnode : node ∈ r.named ∪ r.widened rest := by
      obtain ⟨hdesired, hmounted⟩ := hadding.todo node List.mem_cons_self
      refine .inr ⟨hdesired, hmounted, (List.nodup_cons.mp hadding.nodup).1, ?_⟩
      rw [hwiden]
      decide
    have hbound : r.Bound node rest { s with bound := node :: s.bound } :=
      ⟨⟨s.bound, htrying, rfl⟩, hadding.placed_cons, hbinds⟩
    refine ⟨permitted_of_lists htrying.lists fun other hother => ?_, fun _ => hbound,
      fun hafter => ?_⟩
    · rcases List.mem_cons.mp hother with rfl | hother
      · exact hnode
      · exact htrying.isNamed other ((hadding.same other).mpr hother)
    · split at hafter <;> cases hafter
  · refine ⟨h.1, ?_⟩
    rw [Failures.binds, h.2]
    cases hfails : r.failures.bindFails node with
    | true => rfl
    | false =>
        rw [if_neg (by rw [hfails]; exact Bool.false_ne_true)] at hfault
        cases hfault (by decide)

/-- A node that was tried is no longer to come. -/
theorem Adding.tried (h : r.Adding (node :: rest) s) (hbinds : r.failures.binds node = false)
    {other : DeviceNode} :
    other ∈ s.mounted ↔ other ∈ r.desired ∧ other ∉ rest ∧
      (other ∈ r.mounted ∨ r.failures.binds other = true) := by
  rw [h.tracked]
  refine and_congr_right fun _ => ⟨?_, ?_⟩
  · rintro ⟨hout, hheld⟩
    exact ⟨fun hmem => hout (List.mem_cons_of_mem _ hmem), hheld⟩
  · rintro ⟨hout, hheld⟩
    refine ⟨fun hmem => (List.mem_cons.mp hmem).elim (fun heq => ?_) hout, hheld⟩
    subst heq
    rcases hheld with hmounted | hbound
    · exact (h.todo other List.mem_cons_self).2 hmounted
    · rw [hbinds] at hbound
      cases hbound

/-- The policy goes back to what is remembered. -/
theorem restore_meets (manager : Manager) : Meets Permitted
    (fun s => r.Trying node rest s ∧ r.failures.binds node = false)
    (setDevicePolicy manager r.level (r.failures.restore node) DeviceState.mounted)
    (fun _ => r.Adding rest) (fun _ _ => True) := by
  refine Meets.performAs (fun s s' h heffect _ => ?_) fun _ _ _ => trivial
  obtain ⟨htrying, hbinds⟩ := h
  cases heffect
  obtain ⟨policy, hadding⟩ := htrying.adding
  have hlists := htrying.lists.assign_named manager htrying.isNamed
  refine ⟨permitted_of_lists hlists fun other hother =>
    htrying.isNamed other ((hadding.same other).mpr hother), fun hrestore => ?_, fun _ => trivial⟩
  exact
    { unique := hadding.unique
      same := hadding.same
      placed := hadding.placed
      lists := hlists
      tracked := fun other => hadding.tried hbinds
      todo := fun other hother => hadding.todo other (List.mem_cons_of_mem _ hother)
      nodup := (List.nodup_cons.mp hadding.nodup).2
      restored := fun other hother hnew hout hfails => by
        by_cases heq : other = node
        · exact heq ▸ hrestore
        · exact hadding.restored other hother hnew
            (fun hmem => (List.mem_cons.mp hmem).elim heq hout) hfails
      unmounted := hadding.unmounted
      narrow := hadding.narrow }

theorem Bound.track (h : r.Bound node rest s) : r.Adding rest (s.track node) := by
  obtain ⟨⟨bound, htrying, hbound⟩, hplaced, hbinds⟩ := h
  obtain ⟨policy, hadding⟩ := htrying.adding
  obtain ⟨hnode, hnodup⟩ := List.nodup_cons.mp hadding.nodup
  have hunmounted : node ∉ s.mounted := fun hmem =>
    ((hadding.tracked node).mp hmem).2.1 List.mem_cons_self
  exact
    { unique := List.nodup_cons.mpr ⟨hunmounted, hadding.unique⟩
      same := fun other => by
        show other ∈ node :: s.mounted ↔ other ∈ s.bound
        rw [hbound, List.mem_cons, List.mem_cons]
        exact or_congr_right (hadding.same other)
      placed := hplaced
      lists := htrying.lists
      tracked := fun other => by
        show other ∈ node :: s.mounted ↔ _
        rw [List.mem_cons]
        constructor
        · rintro (rfl | hmem)
          · exact ⟨(hadding.todo other List.mem_cons_self).1, hnode, .inr hbinds⟩
          · obtain ⟨hdesired, hout, hheld⟩ := (hadding.tracked other).mp hmem
            exact ⟨hdesired, fun hrest => hout (List.mem_cons_of_mem _ hrest), hheld⟩
        · rintro ⟨hdesired, hout, hheld⟩
          by_cases heq : other = node
          · exact .inl heq
          · exact .inr ((hadding.tracked other).mpr
              ⟨hdesired, fun hmem => (List.mem_cons.mp hmem).elim heq hout, hheld⟩)
      todo := fun other hother => hadding.todo other (List.mem_cons_of_mem _ hother)
      nodup := hnodup
      restored := fun other hother hnew hout hfails => by
        by_cases heq : other = node
        · rw [heq, hbinds] at hfails
          cases hfails
        · exact hadding.restored other hother hnew
            (fun hmem => (List.mem_cons.mp hmem).elim heq hout) hfails
      unmounted := hadding.unmounted
      narrow := hadding.narrow }

theorem addNode_meets (manager : Manager) : Meets Permitted (r.Adding (node :: rest))
    (addNode manager r.level r.failures node) (fun _ => r.Adding rest) (fun _ _ => True) := by
  have htry : Meets Permitted (r.Adding (node :: rest))
      (tryCatch (do
          setDevicePolicy manager r.level (r.failures.widen node) fun s => node :: s.mounted
          bindInMachine r.failures node
          pure true)
        fun _ => do
          setDevicePolicy manager r.level (r.failures.restore node) DeviceState.mounted
          pure false)
      (fun added s => if added then r.Bound node rest s else r.Adding rest s)
      (fun _ _ => True) := by
    refine Meets.tryCatch (Meets.bind (propose_meets manager) fun _ =>
      Meets.bind bind_meets fun _ => Meets.pure fun s h => h) fun _ => ?_
    exact Meets.bind (restore_meets manager) fun _ => Meets.pure fun s h => h
  refine Meets.bind htry fun added => ?_
  cases added with
  | false => exact Meets.pure fun s h => h
  | true =>
      refine Meets.update fun s h => ⟨?_, Bound.track h⟩
      exact (Bound.track h).permitted

/-! ## The two loops -/

theorem mem_removals {desired : List DeviceNode} :
    node ∈ removals s desired ↔ node ∈ s.mounted ∧ node ∉ desired := by
  rw [removals, (List.mergeSort_perm _ _).mem_iff]
  simp

theorem mem_additions {desired : List DeviceNode} :
    node ∈ additions s desired ↔ node ∈ desired ∧ node ∉ s.mounted := by
  rw [additions, mem_sortedNodes]
  simp

/-- Where a waking begins. -/
structure Begun (r : Round) (s : DeviceState) : Prop where
  unique : s.mounted.Nodup
  same : ∀ node, node ∈ s.mounted ↔ node ∈ s.bound
  placed : Placed s.bound
  lists : Lists r.level r.listed r.named s.policy
  mounted : s.mounted = r.mounted

theorem Begun.removing (h : r.Begun s) : r.Removing (removals s r.desired) s where
  unique := h.unique
  same := h.same
  placed := h.placed
  lists := h.lists
  kept node := by
    rw [mem_removals, h.mounted]
    by_cases hdesired : node ∈ r.desired <;> simp [hdesired]
  todo node hnode := by
    rw [mem_removals, h.mounted] at hnode
    exact hnode
  nodup := (List.mergeSort_perm _ _).nodup_iff.mpr (h.unique.filter _)
  unmounted node hnode hgone hout := by
    rw [mem_removals, h.mounted] at hout
    exact absurd ⟨hnode, hgone⟩ hout

theorem unbindRemovals_meets (manager : Manager) : Meets Permitted r.Begun
    (unbindRemovals manager r.level r.failures r.desired) (fun _ => r.Narrowed)
    (fun _ _ => True) := by
  have hlook : Meets Permitted r.Begun (look : DeviceRoutine _)
      (fun s s' => r.Begun s' ∧ s' = s) (fun _ _ => True) := Meets.look fun s h => ⟨h, rfl⟩
  refine Meets.bind hlook fun s => ?_
  have hloop : Meets Permitted (fun s' => r.Begun s' ∧ s' = s)
      (forEach (removeNode r.failures) (removals s r.desired))
      (fun _ s' => r.Removing [] s') (fun _ _ => True) := by
    refine (Meets.forEach fun _ _ => removeNode_meets).weaken ?_ (fun _ _ h => h) fun _ _ h => h
    rintro s' ⟨hbegun, rfl⟩
    exact hbegun.removing
  by_cases hnone : removals s r.desired = []
  · rw [hnone, if_neg (not_not.mpr rfl)]
    have hnothing : Meets Permitted (fun s' => r.Begun s' ∧ s' = s)
        (forEach (removeNode r.failures) [])
        (fun _ s' => r.Begun s' ∧ s' = s) (fun _ _ => True) := Meets.pure fun _ h => h
    refine Meets.bind hnothing fun _ => Meets.pure fun s' h => ?_
    obtain ⟨hbegun, rfl⟩ := h
    refine Removing.narrowed (hnone ▸ hbegun.removing) fun ⟨node, hnode, hgone⟩ => ?_
    rw [← hbegun.mounted] at hnode
    exact absurd (hnone ▸ mem_removals.mpr ⟨hnode, hgone⟩) List.not_mem_nil
  · rw [if_pos hnone]
    exact Meets.bind hloop fun _ => narrow_meets manager

theorem Narrowed.adding (h : r.Narrowed s) : r.Adding (additions s r.desired) s where
  unique := h.unique
  same := h.same
  placed := h.placed
  lists := by
    have hnone : r.widened (additions s r.desired) ⊆ r.named := by
      rintro node ⟨hdesired, hnew, hout, -⟩
      refine absurd (mem_additions.mpr ⟨hdesired, fun hmem => ?_⟩) hout
      exact hnew ((h.kept node).mp hmem).1
    rw [Set.union_eq_left.mpr hnone]
    exact h.lists
  tracked node := by
    rw [mem_additions, h.kept]
    constructor
    · rintro ⟨hmounted, hdesired⟩
      exact ⟨hdesired, fun hnew => hnew.2 ⟨hmounted, hdesired⟩, .inl hmounted⟩
    · rintro ⟨hdesired, hout, -⟩
      by_contra hnot
      exact hout ⟨hdesired, hnot⟩
  todo node hnode := by
    obtain ⟨hdesired, hnew⟩ := mem_additions.mp hnode
    exact ⟨hdesired, fun hmounted => hnew ((h.kept node).mpr ⟨hmounted, hdesired⟩)⟩
  nodup := (List.mergeSort_perm _ _).nodup_iff.mpr (r.placed.nodup.of_map.filter _)
  restored node hdesired hnew hout := by
    refine absurd (mem_additions.mpr ⟨hdesired, fun hmem => ?_⟩) hout
    exact hnew ((h.kept node).mp hmem).1
  unmounted := h.unmounted
  narrow := h.narrow

theorem bindAdditions_meets (manager : Manager) : Meets Permitted r.Narrowed
    (bindAdditions manager r.level r.failures r.desired) (fun _ => r.Adding [])
    (fun _ _ => True) := by
  have hlook : Meets Permitted r.Narrowed (look : DeviceRoutine _)
      (fun s s' => r.Narrowed s' ∧ s' = s) (fun _ _ => True) := Meets.look fun s h => ⟨h, rfl⟩
  refine Meets.bind hlook fun s => ?_
  refine (Meets.forEach fun _ _ => addNode_meets manager).weaken ?_ (fun _ _ h => h)
    fun _ _ h => h
  rintro s' ⟨hnarrowed, rfl⟩
  exact hnarrowed.adding

end Round

/-! ## What a waking comes to -/

/-- Between two wakings: the views agree, and the policy names what is tracked. -/
structure Steady (level : DeviceLevel) (listed : List (String × String))
    (named : Set DeviceNode) (s : DeviceState) : Prop where
  unique : s.mounted.Nodup
  same : ∀ node, node ∈ s.mounted ↔ node ∈ s.bound
  placed : Placed s.bound
  lists : Lists level listed named s.policy
  subset : ∀ node ∈ s.mounted, node ∈ named

theorem Steady.permitted (h : Steady level listed named s) : Permitted s :=
  fun node hnode => h.lists.permits (h.subset node ((h.same node).mpr hnode))

def Steady.round (h : Steady level listed named s) (failures : Failures) (d : Discovery) :
    Round where
  level := level
  listed := listed
  failures := failures
  named := named
  mounted := s.mounted
  desired := d.discover
  subset := h.subset
  placed := d.placed

theorem Steady.reconcile (h : Steady level listed named s) (manager : Manager)
    (failures : Failures) (d : Discovery) :
    Meets Permitted (· = s) (reconcile manager level failures (some d))
      (fun _ => (h.round failures d).Adding []) (fun _ _ => True) := by
  have hsteady : (h.round failures d).Begun s :=
    ⟨h.unique, h.same, h.placed, h.lists, rfl⟩
  refine Meets.bind ((Round.unbindRemovals_meets (r := h.round failures d) manager).weaken ?_
    (fun _ _ h => h) fun _ _ h => h) fun _ => Round.bindAdditions_meets manager
  rintro s' rfl
  exact hsteady

theorem Round.Adding.steady {r : Round} (h : r.Adding [] s) :
    Steady r.level r.listed (r.named ∪ r.widened []) s :=
  ⟨h.unique, h.same, h.placed, h.lists, h.isNamed⟩

theorem Round.Adding.pass {r : Round} (h : r.Adding [] s) :
    r.failures.Pass r.mounted r.desired :=
  ⟨h.unmounted, h.narrow, fun node hnode hnew =>
    h.restored node hnode hnew List.not_mem_nil⟩

/-- A node that goes, or one for which the policy is widened in vain. -/
def Failures.Leaves (failures : Failures) (mounted desired : List DeviceNode)
    (node : DeviceNode) : Prop :=
  (node ∈ mounted ∧ node ∉ desired) ∨
    (node ∈ desired ∧ node ∉ mounted ∧ failures.widen node ≠ .before ∧
      failures.binds node = false)

/-- A node that stays, or one that gets bound. -/
def Failures.Stays (failures : Failures) (mounted desired : List DeviceNode)
    (node : DeviceNode) : Prop :=
  node ∈ desired ∧ (node ∈ mounted ∨ failures.binds node = true)

/-- Below the full level, what leaves has the number of something that stays. -/
def Failures.Tidies (failures : Failures) (level : DeviceLevel)
    (mounted desired : List DeviceNode) : Prop :=
  level ≠ .full → ∀ node, failures.Leaves mounted desired node →
    ∃ other, failures.Stays mounted desired other ∧ other.allowSpec = node.allowSpec

theorem Round.Adding.stays {r : Round} (h : r.Adding [] s) :
    node ∈ s.mounted ↔ r.failures.Stays r.mounted r.desired node := by
  rw [h.tracked, Failures.Stays]
  exact and_congr_right fun _ => and_iff_right List.not_mem_nil

/-- A waking that returns keeps the policy exact exactly if it is tidy. -/
theorem Round.Adding.exact_iff {r : Round} (h : r.Adding [] s) {start : DeviceState}
    (hstart : Lists r.level r.listed r.named start.policy) (hmounted : start.mounted = r.mounted)
    (hexact : Exact r.level start) :
    Exact r.level s ↔ r.failures.Tidies r.level r.mounted r.desired := by
  by_cases hlevel : r.level = .full
  · exact ⟨fun _ hne => absurd hlevel hne, fun _ => h.lists.exact_full hlevel⟩
  · have hsubset : ∀ node ∈ start.mounted, node ∈ r.named := by
      rw [hmounted]
      exact r.subset
    obtain ⟨hstands, hclear⟩ := (hstart.exact_iff hlevel hsubset).mp hexact
    rw [hmounted] at hstands
    have hclear' : Clear r.listed (r.named ∪ r.widened []) := by
      intro entry hentry
      obtain ⟨other, hother, heq⟩ := hclear entry hentry
      exact ⟨other, (entries_union _ _).mpr (.inl hother), heq⟩
    rw [h.lists.exact_iff hlevel h.isNamed, and_iff_left hclear']
    constructor
    · intro hnow _ node hleaves
      have hnamed : node ∈ r.named ∪ r.widened [] := by
        rcases hleaves with ⟨hold, -⟩ | ⟨hdesired, hnew, hwiden, -⟩
        · exact .inl (r.subset node hold)
        · exact .inr ⟨hdesired, hnew, List.not_mem_nil, hwiden⟩
      obtain ⟨other, hother, heq⟩ := hnow node hnamed
      exact ⟨other, h.stays.mp hother, heq⟩
    · intro htidies node hnode
      have hleaves : ∀ node, r.failures.Leaves r.mounted r.desired node →
          Stands s.mounted node := by
        intro node hleaves
        obtain ⟨other, hstays, heq⟩ := htidies hlevel node hleaves
        exact ⟨other, h.stays.mpr hstays, heq⟩
      rcases hnode with hnamed | ⟨hdesired, hnew, -, hwiden⟩
      · obtain ⟨other, hother, heq⟩ := hstands node hnamed
        by_cases hdesired : other ∈ r.desired
        · exact ⟨other, h.stays.mpr ⟨hdesired, .inl hother⟩, heq⟩
        · obtain ⟨stays, hstays, hsame⟩ := hleaves other (.inl ⟨hother, hdesired⟩)
          exact ⟨stays, hstays, hsame.trans heq⟩
      · cases hbinds : r.failures.binds node with
        | true => exact ⟨node, h.stays.mpr ⟨hdesired, .inr hbinds⟩, rfl⟩
        | false => exact hleaves node (.inr ⟨hdesired, hnew, hwiden, hbinds⟩)

/-! ## Whole runs -/

/-- A worker that has not ended is between two wakings, and one that has ended took
the space with it. -/
structure Waiting (level : DeviceLevel) (listed : List (String × String)) (w : DeviceWorker) :
    Prop where
  steady : w.ended = false → ∃ named, Steady level listed named w.state
  signalled : w.ended = true → w.signalled = true ∨ w.exited = true

theorem steady_launch (manager : Manager) (level : DeviceLevel)
    (listed : List (String × String)) (found : Discovery) :
    Steady level listed {node | node ∈ found.discover}
      (DeviceWorker.launch manager level listed found).state where
  unique := found.placed.nodup.of_map
  same _ := Iff.rfl
  placed := found.placed
  lists := .launch manager level "auto" listed found.discover
  subset _ hnode := hnode

/-- The states that a waking passes. -/
def DeviceWorker.points (manager : Manager) (level : DeviceLevel) (w : DeviceWorker)
    (found : Option Discovery) (failures : Failures) : List DeviceState :=
  if w.ended then []
  else w.state :: (reconcile manager level failures found { state := w.state }).2.passed

/-- What is tracked was found, and is what is bound. -/
structure Reconciled (d : Discovery) (s : DeviceState) : Prop where
  found : s.mounted ⊆ d.discover
  unique : s.mounted.Nodup
  same : ∀ node, node ∈ s.mounted ↔ node ∈ s.bound
  placed : Placed s.bound

/-- What the next waking does, whatever it finds and whatever fails. -/
structure InStep (manager : Manager) (level : DeviceLevel) (w : DeviceWorker)
    (found : Option Discovery) (failures : Failures) : Prop where
  /-- At every point each bound node is permitted. -/
  permitted : ∀ s ∈ w.points manager level found failures, Permitted s
  /-- When nothing is raised, what is tracked is what is bound, and was found. -/
  returns : w.ended = false → (w.handle manager level (.wakes found failures)).ended = false →
    ∃ d, found = some d ∧ Reconciled d (w.handle manager level (.wakes found failures)).state ∧
      failures.Pass w.state.mounted d.discover ∧ (Exact level w.state →
        (Exact level (w.handle manager level (.wakes found failures)).state ↔
          failures.Tidies level w.state.mounted d.discover))
  /-- Otherwise the space is told to end. -/
  raises : (w.handle manager level (.wakes found failures)).ended = true →
    (w.handle manager level (.wakes found failures)).signalled = true ∨
      (w.handle manager level (.wakes found failures)).exited = true

/-- A waking that raises is the last one, and the space is told. -/
theorem Waiting.of_raised {w : DeviceWorker} {manager : Manager} {found : Option Discovery}
    {failures : Failures} {s : DeviceState}
    (hpoints : ∀ s ∈ w.points manager level found failures, Permitted s)
    (hhandle : w.handle manager level (.wakes found failures) =
      { w with state := s, ended := true, signalled := !w.exited }) :
    InStep manager level w found failures ∧
      Waiting level listed (w.handle manager level (.wakes found failures)) := by
  have hsignal : (!w.exited) = true ∨ w.exited = true := by cases w.exited <;> simp
  refine ⟨⟨hpoints, fun _ hnot => ?_, fun _ => ?_⟩, ?_⟩
  · rw [hhandle] at hnot
    cases hnot
  · rw [hhandle]
    exact hsignal
  · rw [hhandle]
    exact ⟨nofun, fun _ => hsignal⟩

theorem Waiting.wakes {w : DeviceWorker} (h : Waiting level listed w) (manager : Manager)
    (found : Option Discovery) (failures : Failures) :
    InStep manager level w found failures ∧
      Waiting level listed (w.handle manager level (.wakes found failures)) := by
  cases hended : w.ended with
  | true =>
      have hsame : w.handle manager level (.wakes found failures) = w := by
        rw [DeviceWorker.handle, if_pos hended]
      rw [hsame]
      refine ⟨⟨?_, fun hnot => ?_, ?_⟩, h⟩
      · rw [DeviceWorker.points, if_pos hended]
        exact List.forall_mem_nil _
      · rw [hended] at hnot
        cases hnot
      · rw [hsame]
        exact h.signalled
  | false =>
      obtain ⟨named, hsteady⟩ := h.steady hended
      have hnotEnded : ¬ w.ended = true := by rw [hended]; exact Bool.false_ne_true
      cases found with
      | none =>
          have hhandle : w.handle manager level (.wakes none failures) =
              { w with ended := true, signalled := !w.exited } := by
            rw [DeviceWorker.handle, if_neg hnotEnded]
            rfl
          refine Waiting.of_raised ?_ hhandle
          rw [DeviceWorker.points, if_neg hnotEnded]
          exact List.forall_mem_singleton.mpr hsteady.permitted
      | some d =>
          have hrun := hsteady.reconcile manager failures d { state := w.state }
            (List.forall_mem_nil _) rfl
          have hpoints : ∀ s ∈ w.points manager level (some d) failures, Permitted s := by
            rw [DeviceWorker.points, if_neg hnotEnded]
            exact List.forall_mem_cons.mpr ⟨hsteady.permitted, hrun.points⟩
          cases hresult : reconcile manager level failures (some d) { state := w.state } with
          | mk outcome t =>
              rw [hresult] at hrun
              cases outcome with
              | error =>
                  have hhandle : w.handle manager level (.wakes (some d) failures) =
                      { w with state := t.state, ended := true, signalled := !w.exited } := by
                    rw [DeviceWorker.handle, if_neg hnotEnded, hresult]
                  exact Waiting.of_raised hpoints hhandle
              | ok =>
                  have hadding := hrun.2
                  have hhandle : w.handle manager level (.wakes (some d) failures) =
                      { w with state := t.state } := by
                    rw [DeviceWorker.handle, if_neg hnotEnded, hresult]
                  have hreconciled : Reconciled d t.state :=
                    ⟨fun node hnode => (hadding.stays.mp hnode).1, hadding.unique, hadding.same,
                      hadding.placed⟩
                  rw [hhandle]
                  refine ⟨⟨hpoints, fun _ _ => ?_, fun hyes => ?_⟩, fun _ =>
                    ⟨_, hadding.steady⟩, fun hyes => ?_⟩
                  · rw [hhandle]
                    exact ⟨d, rfl, hreconciled, hadding.pass, fun hexact =>
                      hadding.exact_iff hsteady.lists rfl hexact⟩
                  · rw [hhandle] at hyes
                    exact absurd hyes hnotEnded
                  · exact absurd hyes hnotEnded

/-- The condition on a step: a waking that comes to its end leaves no number that nothing
bound has. -/
def Tidy (level : DeviceLevel) (w : DeviceWorker) : DeviceEvent → Prop
  | .exits | .wakes none _ => True
  | .wakes (some d) failures => w.ended = false →
      failures.Pass w.state.mounted d.discover →
        failures.Tidies level w.state.mounted d.discover

/-- What the run keeps. -/
structure Kept (level : DeviceLevel) (listed : List (String × String)) (w : DeviceWorker) :
    Prop where
  waiting : Waiting level listed w
  exact : w.ended = false → Exact level w.state

theorem Waiting.handle {w : DeviceWorker} (h : Waiting level listed w) (manager : Manager)
    (event : DeviceEvent) : Waiting level listed (w.handle manager level event) := by
  cases event with
  | exits => exact ⟨h.steady, fun _ => .inr rfl⟩
  | wakes found failures => exact (h.wakes manager found failures).2

theorem Kept.handle {w : DeviceWorker} (h : Kept level listed w) (manager : Manager)
    {event : DeviceEvent} (hok : Tidy level w event) :
    Kept level listed (w.handle manager level event) := by
  refine ⟨h.waiting.handle manager event, fun hended => ?_⟩
  cases event with
  | exits => exact h.exact hended
  | wakes found failures =>
      cases hbefore : w.ended with
      | true =>
          rw [DeviceWorker.handle, if_pos hbefore, hbefore] at hended
          cases hended
      | false =>
          obtain ⟨d, rfl, -, hpass, hexact⟩ :=
            (h.waiting.wakes manager found failures).1.returns hbefore hended
          exact (hexact (h.exact hbefore)).mpr (hok hbefore hpass)

/-- When the space is started, the unit lists nothing of other paths. -/
def Starts (level : DeviceLevel) (listed : List (String × String)) (found : Discovery) : Prop :=
  level ≠ .full → ∀ entry ∈ listed, ∃ other ∈ (devicePolicy level found.discover).allow,
    other.1 = entry.1

theorem exact_launch (manager : Manager) (level : DeviceLevel)
    (listed : List (String × String)) (found : Discovery) :
    Exact level (DeviceWorker.launch manager level listed found).state ↔
      Starts level listed found := by
  have hsteady := steady_launch manager level listed found
  by_cases hlevel : level = .full
  · exact ⟨fun _ hne => absurd hlevel hne, fun _ => hsteady.lists.exact_full hlevel⟩
  · have hstands : ∀ node ∈ {node | node ∈ found.discover},
        Stands (DeviceWorker.launch manager level listed found).state.mounted node :=
      fun node hnode => ⟨node, hnode, rfl⟩
    rw [hsteady.lists.exact_iff hlevel hsteady.subset, and_iff_right hstands]
    constructor
    · intro hclear _ entry hentry
      obtain ⟨other, hother, heq⟩ := hclear entry hentry
      exact ⟨other, (mem_devicePolicy hlevel).mpr hother, heq⟩
    · intro hstarts entry hentry
      obtain ⟨other, hother, heq⟩ := hstarts hlevel entry hentry
      exact ⟨other, (mem_devicePolicy hlevel).mp hother, heq⟩

/-- In every run from the launch on, each waking keeps binds, permission and memory in step,
and one that returns leaves the policy exact exactly if it was tidy, when it was exact
before. In a run whose steps are all tidy, and that starts with nothing else listed, it is
exact after each waking that returns. -/
theorem devices_inStep (manager : Manager) (level : DeviceLevel)
    (listed : List (String × String)) (initial : Discovery) (events : List DeviceEvent) :
    let start := DeviceWorker.launch manager level listed initial
    let w := events.foldl (DeviceWorker.handle manager level) start
    (∀ found failures, InStep manager level w found failures) ∧
      (Exact level start.state ↔ Starts level listed initial) ∧
      (Starts level listed initial →
        Allowed (DeviceWorker.handle manager level) (Tidy level) start events →
          w.ended = false → Exact level w.state) := by
  intro start w
  have hstart : Waiting level listed start :=
    ⟨fun _ => ⟨_, steady_launch manager level listed initial⟩, nofun⟩
  have hrun : Reachable (DeviceWorker.handle manager level) start w := Guarded.run _ _
  have hwaiting := hrun.invariant hstart fun _ event h _ => h.handle manager event
  refine ⟨fun found failures => (hwaiting.wakes manager found failures).1,
    exact_launch manager level listed initial, fun hstarts hallowed => ?_⟩
  have hkept : Kept level listed start :=
    ⟨hstart, fun _ => (exact_launch manager level listed initial).mpr hstarts⟩
  exact ((Guarded.start.foldl hallowed).invariant hkept
    fun _ _ h hok => h.handle manager hok).exact

/-! ## A device that comes, and one that goes -/

/-- What systemd does: the entries are set one by one, and an empty list clears. -/
def systemd : Manager where
  assign listed entries :=
    if entries = [] then []
    else entries ++ listed.filter fun entry => entries.all fun other => other.1 != entry.1
  reset _ := if_pos rfl
  mem_assign {listed entries} hne _ {entry} := by
    rw [if_neg hne, List.mem_append, List.mem_filter]
    simp

/-- A host with one device, or with none. -/
def hosts (classified : Option Classified) : Discovery where
  walk := ⟨[["hidraw0"]], by decide, by decide⟩
  classify _ := classified

def hidraw : Classified := ⟨["dev", "hidraw0"], .char, 240, 0⟩

theorem starts_base (found : Discovery) : Starts .admin baseDeviceAllow found :=
  fun hlevel entry hentry => ⟨entry, (mem_devicePolicy hlevel).mpr (.inl hentry), rfl⟩

/-- The policy cannot be widened for a new device at first, and then it is bound. -/
def plugged : List DeviceEvent :=
  [.wakes (some (hosts (some hidraw))) { widen := fun _ => .before },
    .wakes (some (hosts (some hidraw))) {}]

theorem devices_inStep_plugged :
    let start := DeviceWorker.launch systemd .admin baseDeviceAllow (hosts none)
    let w := plugged.foldl (DeviceWorker.handle systemd .admin) start
    w.state.mounted.map DeviceNode.allowSpec = ["/dev/char/240:0"] ∧ Exact .admin w.state := by
  intro start w
  have htidy : Allowed (DeviceWorker.handle systemd .admin) (Tidy .admin) start plugged := by
    refine ⟨?_, ?_, trivial⟩
    · rintro - - - node (⟨hmem, -⟩ | ⟨-, -, hwiden, -⟩)
      · have hnone : start.state.mounted = [] := by decide +kernel
        rw [hnone] at hmem
        cases hmem
      · exact absurd rfl hwiden
    · rintro - - - node (⟨hmem, -⟩ | ⟨-, -, -, hbinds⟩)
      · have hnone : (start.handle systemd .admin (.wakes (some (hosts (some hidraw)))
            { widen := fun _ => .before })).state.mounted = [] := by decide +kernel
        rw [hnone] at hmem
        cases hmem
      · cases hbinds
  refine ⟨by decide +kernel, ?_⟩
  exact (devices_inStep systemd .admin baseDeviceAllow (hosts none) plugged).2.2
    (starts_base _) htidy (by decide +kernel)

/-- A device is taken away and nothing fails. What was allowed for it stays allowed. -/
theorem unplugged_allowed :
    let start := DeviceWorker.launch systemd .admin baseDeviceAllow (hosts (some hidraw))
    let w := start.handle systemd .admin (.wakes (some (hosts none)) {})
    Exact .admin start.state ∧ w.ended = false ∧ w.state.mounted = [] ∧
      ("/dev/char/240:0", "rw") ∈ w.state.policy.allow ∧ ¬Exact .admin w.state := by
  intro start w
  have hw : w.ended = false ∧ w.state.mounted = [] ∧
      ("/dev/char/240:0", "rw") ∈ w.state.policy.allow := by
    decide +kernel
  refine ⟨(exact_launch systemd .admin baseDeviceAllow _).mpr (starts_base _), hw.1, hw.2.1,
    hw.2.2, fun hexact => ?_⟩
  have hlisted := (hexact.allow _).mp hw.2.2
  rw [hw.2.1] at hlisted
  revert hlisted
  decide +kernel

end Spaces.Workers
