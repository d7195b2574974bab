import Spaces.Secrets.Activation

/-!
# Whose providers an activation goes by

`activate_provider` refuses an owner of the storage name when there is no
marker. With the marker there it takes whoever owns the name for its own
provider, and the owner of `org.kde.kwalletd6` it takes without asking. The
marker outlives the provider, so what it says is true only as long as the rest
of the session cooperates: `Undisturbed` is what it must do, and then nothing
that an activation does to others comes of a process it did not start.

The argument is that a name the activation has looked at stays in good hands
while it has still to be looked at again (`Steady.kept`); every step then adds
to the owners it goes by only processes that an activation started.
-/

namespace Spaces.Secrets

open Spaces.Library

/-- A process that no activation started owns the name. -/
def State.ForeignOwned (s : State) (name : Name) : Prop :=
  ∃ process ∈ s.owner name, process.Other

instance (s : State) (name : Name) : Decidable (s.ForeignOwned name) :=
  inferInstanceAs (Decidable (∃ process ∈ s.owner name, process.Other))

/-- An activation does nothing because of a process that no activation started,
other than to fail. -/
def Harmless (deeds : List Deed) : Prop :=
  ∀ deed ∈ deeds, (∃ process ∈ deed.because, process.Other) → deed.Refuses

/-! ## What the rest of the session must keep to -/

/-- The name whose owner the next step depends on. -/
def Activation.reads (a : Activation) : Option Name :=
  match a.phase with
  | .start | .awaitStorage => some .secrets
  | .proxy | .awaitProxy => some .kwalletd6
  | .ask => some a.walletName
  | .kill ((name, _) :: _) _ => some name
  | .final => some a.activationName
  | _ => none

/-- The names an activation may look at in the end. -/
def Activation.names (a : Activation) : List Name :=
  [.secrets, .kwalletd6, a.walletName, a.activationName]

/-- The names whose owners this step and the later ones may depend on. -/
def Activation.ahead (a : Activation) : List Name :=
  match a.phase with
  | .final => [a.activationName]
  | .mark => [.secrets, a.activationName]
  | .kill targets .fail | .kill targets .unlink => targets.map Prod.fst
  | .kill targets .backUp => targets.map Prod.fst ++ a.names
  | _ => a.names

/-- The activation goes no further: there is no program, or it refuses an
unmanaged provider. -/
def State.Declines (s : State) (a : Activation) (answer : Answer) : Prop :=
  a.phase = .start ∧
    (answer.works = false ∨ answer.reached = true ∧ s.marker = false)

instance (s : State) (a : Activation) (answer : Answer) : Decidable (s.Declines a answer) :=
  inferInstanceAs (Decidable (_ ∧ _))

/-- When the activation first looks at a name, no other process owns it, unless
the activation then declines; and no other process gains a name while an
activation that has looked at it may do so again. -/
def Undisturbed (s : State) : Event → Prop
  | .helper answer => ∀ a ∈ s.helper, ∀ name ∈ a.reads, name ∉ a.seen →
      s.ForeignOwned name → s.Declines a answer
  | .gains process name => process.Other → ∀ a ∈ s.helper, name ∈ a.seen → name ∉ a.ahead
  | _ => True

instance (s : State) : DecidablePred (Undisturbed s)
  | .helper answer => inferInstanceAs (Decidable (∀ a ∈ s.helper, ∀ name ∈ a.reads,
      name ∉ a.seen → s.ForeignOwned name → s.Declines a answer))
  | .gains process name => inferInstanceAs (Decidable
      (process.Other → ∀ a ∈ s.helper, name ∈ a.seen → name ∉ a.ahead))
  | .begins _ _ | .aborts | .releases _ | .exits _ => inferInstanceAs (Decidable True)

theorem Activation.reads_ahead {a : Activation} {name : Name} (h : name ∈ a.reads) :
    name ∈ a.ahead := by
  unfold Activation.reads at h
  unfold Activation.ahead
  cases hphase : a.phase with
  | kill targets after =>
      rw [hphase] at h
      cases targets with
      | nil => cases h
      | cons target targets =>
          cases h
          cases after <;> exact List.mem_cons_self
  | _ =>
      rw [hphase] at h
      cases h <;> simp [Activation.names]

/-- Until the wallet has answered, an activation may look at every name. -/
def Activation.Early (a : Activation) : Prop :=
  a.ahead = a.names

/-! ## The running activation -/

/-- What an activation goes by are processes that activations started, and so
are the owners of the names it has looked at and may look at again. -/
structure Steady (owner : Name → Option Process) (a : Activation) : Prop where
  relied : ∀ process ∈ a.reliedOn, ¬ process.Other
  kept : ∀ name ∈ a.seen, name ∈ a.ahead → ∀ process ∈ owner name, ¬ process.Other

namespace Steady

variable {owner : Name → Option Process} {a a' : Activation}

/-- Nothing new is looked at or gone by. -/
theorem goes (h : Steady owner a) (hseen : a'.seen = a.seen)
    (hrelied : ∀ process ∈ a'.reliedOn, process ∈ a.reliedOn)
    (hahead : ∀ name ∈ a'.ahead, name ∈ a.ahead) : Steady owner a' where
  relied process hprocess := h.relied process (hrelied process hprocess)
  kept name hname hnext := h.kept name (hseen ▸ hname) (hahead name hnext)

/-- On to a part from which every name may be looked at. -/
theorem early (h : Steady owner a) (ha : a.Early) {phase : Phase}
    (hphase : Activation.Early { a with phase }) : Steady owner { a with phase } :=
  h.goes rfl (fun _ hprocess => hprocess) fun name hname => by
    rw [ha]
    rw [hphase] at hname
    exact hname

/-- On to killing owners of names that may be looked at. -/
theorem kills (h : Steady owner a) {targets : List (Name × Option Nat)} {after : After}
    (htargets : ∀ name ∈ targets.map Prod.fst, name ∈ a.ahead)
    (hafter : after = .backUp → a.Early) {proxyChild child : Option Nat} :
    Steady owner { a with proxyChild, child, phase := .kill targets after } := by
  refine h.goes rfl (fun _ hprocess => hprocess) ?_
  intro name hname
  cases after with
  | fail => exact htargets name hname
  | unlink => exact htargets name hname
  | backUp =>
      rcases List.mem_append.mp hname with htarget | hname
      · exact htargets name htarget
      · rw [hafter rfl]
        exact hname

/-- A look at a name in good hands, whether or not the bus answers. -/
theorem sees (h : Steady owner a) {name : Name} {found : Option Process}
    (hown : ∀ process ∈ owner name, ¬ process.Other)
    (hfound : ∀ process ∈ found, process ∈ owner name) :
    Steady owner (a.sees name found) where
  relied process hprocess := by
    rcases List.mem_append.mp hprocess with hnew | hold
    · exact hown process (hfound process (Option.mem_toList.mp hnew))
    · exact h.relied process hold
  kept other hother hnext := by
    rcases List.mem_cons.mp hother with heq | hold
    · exact heq ▸ hown
    · exact h.kept other hold hnext

end Steady

/-- The invariant of the helper. -/
structure Clean (s : State) : Prop where
  deeds : Harmless s.deeds
  running : ∀ a ∈ s.helper, Steady s.owner a

namespace Harmless

variable {deeds : List Deed}

theorem cons (h : Harmless deeds) {deed : Deed}
    (hdeed : (∃ process ∈ deed.because, process.Other) → deed.Refuses) :
    Harmless (deed :: deeds) := by
  intro other hother
  rcases List.mem_cons.mp hother with heq | hold
  · exact heq ▸ hdeed
  · exact h other hold

/-- A deed that comes of started processes only. -/
theorem cons_own (h : Harmless deeds) {deed : Deed}
    (hdeed : ∀ process ∈ deed.because, ¬ process.Other) : Harmless (deed :: deeds) := by
  refine h.cons ?_
  rintro ⟨process, hprocess, hother⟩
  exact absurd hother (hdeed process hprocess)

/-- Killing started processes, having gone by started ones. -/
theorem killed (h : Harmless deeds) {reliedOn : List Process}
    (hrelied : ∀ process ∈ reliedOn, ¬ process.Other) {victims : List Process}
    (hvictims : ∀ process ∈ victims, ¬ process.Other) :
    Harmless (victims.map (Deed.killed · reliedOn) ++ deeds) := by
  induction victims with
  | nil => exact h
  | cons victim victims ih =>
      refine cons_own (ih fun process hprocess =>
        hvictims process (List.mem_cons_of_mem _ hprocess)) ?_
      intro process hprocess
      rcases List.mem_cons.mp hprocess with heq | hold
      · exact heq ▸ hvictims victim List.mem_cons_self
      · exact hrelied process hold

end Harmless

namespace State

variable {s : State} {a : Activation} {answer : Answer}

/-- With no activation running, the deeds are all there is. -/
theorem clean_of_idle (hdeeds : Harmless s.deeds) (hidle : s.helper = none) : Clean s where
  deeds := hdeeds
  running a ha := by
    rw [hidle] at ha
    cases ha

theorem clean_fails (h : Harmless s.deeds) : Clean (s.fails a) :=
  clean_of_idle (h.cons fun _ => trivial) rfl

theorem clean_proceeds {phase : Phase} (h : Harmless s.deeds)
    (ha : Steady s.owner { a with phase }) : Clean (s.proceeds a phase) where
  deeds := h
  running := by
    rintro b ⟨⟩
    exact ha

theorem mem_finds {name : Name} {process : Process} (h : process ∈ s.finds answer name) :
    process ∈ s.owner name := by
  unfold finds at h
  split at h
  · exact h
  · cases h

/-- Past the first look, the name read next is in good hands. -/
theorem own_of_reads (ha : a ∈ s.helper) (h : Steady s.owner a)
    (hok : Undisturbed s (.helper answer)) {name : Name} (hreads : name ∈ a.reads)
    (hgoes : ¬ s.Declines a answer) : ∀ process ∈ s.owner name, ¬ process.Other := by
  by_cases hseen : name ∈ a.seen
  · exact h.kept name hseen (Activation.reads_ahead hreads)
  · intro process hprocess hother
    exact hgoes (hok a ha name hreads hseen ⟨process, hprocess, hother⟩)

/-! ## One step of the helper -/

theorem ensuresProxy_clean (hd : Harmless s.deeds) (hs : Steady s.owner a) (ha : a.Early) :
    Clean (s.ensuresProxy a) := by
  unfold ensuresProxy
  split
  · exact clean_proceeds hd (hs.early ha rfl)
  · exact clean_proceeds hd (hs.early ha rfl)

theorem start_clean (hd : Harmless s.deeds) (hs : Steady s.owner a) (hphase : a.phase = .start)
    (hown : ¬ s.Declines a answer → ∀ process ∈ s.owner .secrets, ¬ process.Other) :
    Clean (s.start a answer) := by
  have ha : a.Early := by simp [Activation.Early, Activation.ahead, hphase]
  unfold start
  dsimp only
  split
  · exact clean_fails hd
  rename_i hworks
  split
  · exact clean_fails hd
  rename_i hmarker
  by_cases hgoes : s.Declines a answer
  · -- an owner would be refused, so there is none
    obtain ⟨-, hnot | ⟨hreached, habsent⟩⟩ := hgoes
    · simp [hnot] at hworks
    have hfound : s.finds answer .secrets = none := by simpa [habsent] using hmarker
    have howner : s.owner .secrets = none := by simpa [finds, hreached] using hfound
    have hsees : Steady s.owner (a.sees .secrets (s.finds answer .secrets)) :=
      hs.sees (by simp [howner]) fun _ => mem_finds
    rw [if_neg (by simp [hfound])]
    exact clean_proceeds hd (hsees.early ha rfl)
  · have hsees : Steady s.owner (a.sees .secrets (s.finds answer .secrets)) :=
      hs.sees (hown hgoes) fun _ => mem_finds
    split
    · exact ensuresProxy_clean hd hsees ha
    · exact clean_proceeds hd (hsees.early ha rfl)

theorem secret_clean (hd : Harmless s.deeds) (hs : Steady s.owner a)
    (hphase : a.phase = .secret) : Clean (s.secret a answer) := by
  have ha : a.Early := by simp [Activation.Early, Activation.ahead, hphase]
  unfold secret
  split
  · have hkeyed : Steady s.owner { a with keyed := true } :=
      hs.goes rfl (fun _ h => h) fun _ h => h
    exact clean_proceeds hd (hkeyed.early ha rfl)
  · exact clean_fails hd

theorem spawn_clean (hd : Harmless s.deeds) (hs : Steady s.owner a)
    (hphase : a.phase = .spawn) : Clean (s.spawn a answer) := by
  have ha : a.Early := by simp [Activation.Early, Activation.ahead, hphase]
  unfold spawn
  split
  · have hfresh : Steady s.owner { a with child := some s.spawned, reliedOn := [] } :=
      hs.goes rfl nofun fun _ h => h
    exact clean_proceeds hd (hfresh.early ha rfl)
  split
  · refine clean_fails (hd.cons_own ?_)
    intro process hprocess
    rcases List.mem_cons.mp hprocess with rfl | hold
    · exact id
    · exact hs.relied process hold
  · exact clean_fails hd

theorem awaitStorage_clean (hd : Harmless s.deeds) (hs : Steady s.owner a)
    (hphase : a.phase = .awaitStorage)
    (hown : ∀ process ∈ s.owner .secrets, ¬ process.Other) :
    Clean (s.awaitStorage a answer) := by
  have ha : a.Early := by simp [Activation.Early, Activation.ahead, hphase]
  have hsees : Steady s.owner (a.sees .secrets (s.finds answer .secrets)) :=
    hs.sees hown fun _ => mem_finds
  unfold awaitStorage
  dsimp only
  split
  · exact ensuresProxy_clean hd hsees ha
  split
  · exact clean_proceeds hd (hs.early ha rfl)
  · refine clean_proceeds hd (hs.kills ?_ (by nofun))
    rw [ha]
    simp [Activation.names]

theorem lacksProxy_clean (hd : Harmless s.deeds) (hs : Steady s.owner a) (ha : a.Early) :
    Clean (s.lacksProxy a) := by
  unfold lacksProxy
  split
  · exact clean_fails hd
  · refine clean_proceeds hd (hs.kills ?_ (by nofun))
    rw [ha]
    simp [Activation.names]

theorem proxy_clean (hd : Harmless s.deeds) (hs : Steady s.owner a) (hphase : a.phase = .proxy)
    (hown : ∀ process ∈ s.owner .kwalletd6, ¬ process.Other) :
    Clean (s.proxy a answer) := by
  have ha : a.Early := by simp [Activation.Early, Activation.ahead, hphase]
  have hsees : Steady s.owner (a.sees .kwalletd6 (s.finds answer .kwalletd6)) :=
    hs.sees hown fun _ => mem_finds
  unfold proxy
  dsimp only
  split
  · have hfree : Steady s.owner
        { a.sees .kwalletd6 (s.finds answer .kwalletd6) with proxyChild := none } :=
      hsees.goes rfl (fun _ h => h) fun _ h => h
    exact clean_proceeds hd (hfree.early ha rfl)
  split
  · have hchild : Steady s.owner
        { a.sees .kwalletd6 (s.finds answer .kwalletd6) with proxyChild := some s.spawned } :=
      hsees.goes rfl (fun _ h => h) fun _ h => h
    exact clean_proceeds hd (hchild.early ha rfl)
  · exact lacksProxy_clean hd hsees ha

theorem awaitProxy_clean (hd : Harmless s.deeds) (hs : Steady s.owner a)
    (hphase : a.phase = .awaitProxy)
    (hown : ∀ process ∈ s.owner .kwalletd6, ¬ process.Other) :
    Clean (s.awaitProxy a answer) := by
  have ha : a.Early := by simp [Activation.Early, Activation.ahead, hphase]
  have hsees : Steady s.owner (a.sees .kwalletd6 (s.finds answer .kwalletd6)) :=
    hs.sees hown fun _ => mem_finds
  unfold awaitProxy
  dsimp only
  split
  · exact clean_proceeds hd (hsees.early ha rfl)
  split
  · exact clean_proceeds hd (hs.early ha rfl)
  · have hfree : Steady s.owner { a with proxyChild := none } :=
      hs.goes rfl (fun _ h => h) fun _ h => h
    refine lacksProxy_clean ?_ hfree ha
    cases a.proxyChild with
    | none => exact hd
    | some child =>
        have hstarted : ∀ process ∈ [Process.started child], ¬ process.Other := by
          simp [Process.Other]
        exact hd.killed hs.relied hstarted

theorem proxyTarget_names {name : Name} (h : name ∈ (proxyTarget a).map Prod.fst) :
    name ∈ a.names := by
  unfold proxyTarget at h
  split at h
  · cases List.mem_singleton.mp h
    simp [Activation.names]
  · cases h

theorem ask_clean (hd : Harmless s.deeds) (hs : Steady s.owner a) (hphase : a.phase = .ask)
    (hown : ∀ process ∈ s.owner a.walletName, ¬ process.Other) :
    Clean (s.ask a answer) := by
  have ha : a.Early := by simp [Activation.Early, Activation.ahead, hphase]
  have hsees : Steady s.owner (a.sees a.walletName (s.owner a.walletName)) :=
    hs.sees hown fun _ h => h
  have hb : Activation.Early (a.sees a.walletName (s.owner a.walletName)) := ha
  unfold ask
  generalize a.sees a.walletName (s.owner a.walletName) = b at hsees hb
  -- whatever is killed next is the owner of one of the activation's names
  have hproxy : ∀ name ∈ (proxyTarget b).map Prod.fst, name ∈ b.ahead := by
    intro name hname
    rw [hb]
    exact proxyTarget_names hname
  have hboth : ∀ name ∈ (proxyTarget b ++ [(Name.secrets, b.child)]).map Prod.fst,
      name ∈ b.ahead := by
    intro name hname
    rw [List.map_append] at hname
    rcases List.mem_append.mp hname with hname | hname
    · exact hproxy name hname
    · cases List.mem_singleton.mp hname
      rw [hb]
      exact List.mem_cons_self
  have hlater : ∀ name ∈ [Name.secrets, b.activationName], name ∈ b.ahead := by
    intro name hname
    rw [hb]
    rcases List.mem_cons.mp hname with rfl | hname
    · exact List.mem_cons_self
    · simp [Activation.names, List.mem_singleton.mp hname]
  dsimp only
  split
  · exact clean_proceeds hd (hsees.goes rfl (fun _ h => h) fun name hname =>
      hlater name (List.mem_cons_of_mem _ hname))
  · exact clean_proceeds hd (hsees.kills hboth fun _ => hb)
  · exact clean_proceeds hd (hsees.kills hproxy fun _ => hb)
  · exact clean_proceeds hd (hsees.kills hboth fun _ => hb)
  · exact clean_proceeds hd (hsees.goes rfl (fun _ h => h) hlater)
  · exact clean_proceeds hd (hsees.kills hboth fun _ => hb)
  · exact clean_proceeds hd (hsees.kills hboth fun _ => hb)

theorem mem_victims {name : Name} {child : Option Nat} {process : Process}
    (h : process ∈ s.victims answer name child) :
    process ∈ s.owner name ∨ ¬ process.Other := by
  unfold victims at h
  rcases List.mem_append.mp h with howner | hchild
  · exact .inl (mem_finds (Option.mem_toList.mp howner))
  · right
    split at hchild
    · cases child with
      | none => cases hchild
      | some number =>
          cases (Option.mem_filter_iff.mp (Option.mem_toList.mp hchild)).1
          exact id
    · cases hchild

theorem kill_clean (hd : Harmless s.deeds) (hs : Steady s.owner a)
    {targets : List (Name × Option Nat)} {after : After} (hphase : a.phase = .kill targets after)
    (hown : ∀ name ∈ a.reads, ∀ process ∈ s.owner name, ¬ process.Other) :
    Clean (s.kill a answer targets after) := by
  cases targets with
  | cons target targets =>
      have hfirst : ∀ process ∈ s.owner target.1, ¬ process.Other :=
        hown target.1 (by simp [Activation.reads, hphase])
      refine clean_proceeds (hd.killed hs.relied ?_) (hs.goes rfl (fun _ h => h) ?_)
      · intro process hprocess
        rcases mem_victims hprocess with howner | hstarted
        · exact hfirst process howner
        · exact hstarted
      · intro name hname
        rw [Activation.ahead, hphase]
        cases after <;> exact List.mem_cons_of_mem _ hname
  | nil =>
      cases after with
      | fail => exact clean_fails hd
      | unlink => exact clean_fails hd
      | backUp =>
          refine clean_proceeds hd (hs.goes rfl (fun _ h => h) ?_)
          intro name hname
          rw [Activation.ahead, hphase]
          exact hname

theorem backUp_clean (hd : Harmless s.deeds) (hs : Steady s.owner a)
    (hphase : a.phase = .backUp) : Clean (s.backUp a answer) := by
  have ha : a.Early := by simp [Activation.Early, Activation.ahead, hphase]
  have hbacked : Steady s.owner { a with walletBackedUp := true } :=
    hs.goes rfl (fun _ h => h) fun _ h => h
  unfold backUp
  split
  · refine clean_proceeds (hd.cons_own hs.relied) ?_
    split
    · exact hbacked.early ha rfl
    · exact hbacked.early ha rfl
  · exact clean_fails hd

theorem mark_clean (hd : Harmless s.deeds) (hs : Steady s.owner a)
    (hphase : a.phase = .mark) : Clean (s.mark a answer) := by
  have hahead : a.ahead = [.secrets, a.activationName] := by simp [Activation.ahead, hphase]
  unfold mark
  split
  · refine clean_proceeds hd (hs.goes rfl (fun _ h => h) fun name hname => ?_)
    rw [hahead]
    exact List.mem_cons_of_mem _ hname
  · refine clean_proceeds hd (hs.kills ?_ (by nofun))
    rw [hahead]
    simp

theorem final_clean (hd : Harmless s.deeds) (hs : Steady s.owner a)
    (hown : ∀ process ∈ s.owner a.activationName, ¬ process.Other) :
    Clean (s.final a answer) := by
  have hsees : Steady s.owner
      (a.sees a.activationName (s.finds answer a.activationName)) :=
    hs.sees hown fun _ => mem_finds
  unfold final
  dsimp only
  split
  · exact clean_of_idle (hd.cons_own hsees.relied) rfl
  · exact clean_fails hd

theorem helps_clean (h : Clean s) (ha : a ∈ s.helper) (hok : Undisturbed s (.helper answer)) :
    Clean (s.helps a answer) := by
  have hs : Steady s.owner a := h.running a ha
  have hown {name : Name} (hreads : name ∈ a.reads) (hphase : a.phase ≠ .start) :
      ∀ process ∈ s.owner name, ¬ process.Other :=
    own_of_reads ha hs hok hreads fun hgoes => hphase hgoes.1
  unfold helps
  split
  all_goals rename_i hphase
  · exact start_clean h.deeds hs hphase
      (own_of_reads ha hs hok (by simp [Activation.reads, hphase]))
  · exact secret_clean h.deeds hs hphase
  · exact spawn_clean h.deeds hs hphase
  · exact awaitStorage_clean h.deeds hs hphase
      (hown (by simp [Activation.reads, hphase]) (by simp [hphase]))
  · exact proxy_clean h.deeds hs hphase
      (hown (by simp [Activation.reads, hphase]) (by simp [hphase]))
  · exact awaitProxy_clean h.deeds hs hphase
      (hown (by simp [Activation.reads, hphase]) (by simp [hphase]))
  · exact ask_clean h.deeds hs hphase
      (hown (by simp [Activation.reads, hphase]) (by simp [hphase]))
  · exact kill_clean h.deeds hs hphase fun name hreads => hown hreads (by simp [hphase])
  · exact backUp_clean h.deeds hs hphase
  · exact mark_clean h.deeds hs hphase
  · exact final_clean h.deeds hs
      (hown (by simp [Activation.reads, hphase]) (by simp [hphase]))

/-! ## Any history -/

theorem begins_clean (h : Clean s) (activationName : Name) (kf6 : Bool) :
    Clean (s.begins activationName kf6) where
  deeds := h.deeds
  running := by
    rintro b ⟨⟩
    exact ⟨nofun, nofun⟩

/-- Names change hands so that the activation can go on. -/
theorem clean_owner (h : Clean s) {owner : Name → Option Process}
    (howner : ∀ a ∈ s.helper, ∀ name ∈ a.seen, name ∈ a.ahead → ∀ process ∈ owner name,
      process.Other → process ∈ s.owner name) :
    Clean { s with owner } where
  deeds := h.deeds
  running a ha :=
    { relied := (h.running a ha).relied
      kept := by
        intro name hseen hahead process hprocess hother
        have hheld := howner a ha name hseen hahead process hprocess hother
        exact (h.running a ha).kept name hseen hahead process hheld hother }

theorem step_clean (h : Clean s) {event : Event} (hok : Undisturbed s event) :
    Clean (s.step event) := by
  cases event with
  | begins activationName kf6 =>
      dsimp only [step]
      split
      · exact begins_clean h activationName kf6
      · exact h
  | helper answer =>
      cases ha : s.helper with
      | none => simpa [step, ha] using h
      | some a => simpa [step, ha] using helps_clean h ha hok
  | aborts => exact clean_of_idle h.deeds rfl
  | gains process name =>
      refine clean_owner h ?_
      intro a ha other hseen hahead holder hholder hother
      by_cases heq : other = name
      · subst heq
        rw [Function.update_self] at hholder
        cases hholder
        exact absurd hahead (hok hother a ha hseen)
      · rwa [Function.update_of_ne heq] at hholder
  | releases name =>
      refine clean_owner h ?_
      intro a ha other hseen hahead holder hholder hother
      by_cases heq : other = name
      · subst heq
        rw [Function.update_self] at hholder
        cases hholder
      · rwa [Function.update_of_ne heq] at hholder
  | exits process =>
      refine clean_owner h ?_
      intro a ha name hseen hahead holder hholder hother
      exact (Option.mem_filter_iff.mp hholder).1

theorem initial_clean : Clean .initial :=
  clean_of_idle (List.forall_mem_nil _) rfl

end State

/-- In every history that leaves the activations undisturbed, none succeeds,
kills or backs up the wallet because of a process that no activation started. -/
theorem adoption_harmless (events : List Event)
    (h : Allowed State.step Undisturbed .initial events) :
    Harmless (events.foldl State.step .initial).deeds := by
  have hrun : Guarded State.step Undisturbed .initial (events.foldl State.step .initial) :=
    Guarded.start.foldl h
  exact (hrun.invariant State.initial_clean fun _ _ => fun hs hok => State.step_clean hs hok).deeds

/-- An activation that finds nobody, starts a storage provider and a proxy and
succeeds. The children are the next two to be started. -/
def freshActivation (next : Nat) : List Event :=
  [.begins .secrets true, .helper {}, .helper {}, .helper {}, .gains (.started next) .secrets,
    .helper {}, .helper {}, .gains (.started (next + 1)) .kwalletd6, .helper {}, .helper {},
    .helper {}, .helper {}]

/-- Another provider is refused; when it is gone one is started, which the next
activation adopts. -/
def refusedHistory : List Event :=
  [.gains (.other 0) .secrets, .begins .secrets true, .helper {}, .releases .secrets]
    ++ freshActivation 0
    ++ [.begins .kwalletd6 true, .helper {}, .helper {}, .helper {}, .helper {}]

theorem refusedHistory_harmless :
    Harmless (refusedHistory.foldl State.step .initial).deeds :=
  adoption_harmless refusedHistory (by decide)

/-- The provider ends and the marker stays: the next owner of the name is
adopted, and its wallet is found closed. -/
def staleHistory : List Event :=
  freshActivation 0
    ++ [.exits (.started 0), .exits (.started 1), .gains (.other 0) .secrets,
      .begins .secrets true, .helper {}, .helper {}, .gains (.started 2) .kwalletd6,
      .helper {}, .helper { wallet := .closed }, .helper {}, .helper {}, .helper {}, .helper {}]

/-- The owner is killed and the wallet backed up because of it. -/
theorem staleHistory_harms : ¬ Harmless (staleHistory.foldl State.step .initial).deeds := by
  intro h
  exact h (.backedUp [.started 2, .started 2, .other 0]) List.mem_cons_self
    ⟨.other 0, by simp [Deed.because], trivial⟩

end Spaces.Secrets
