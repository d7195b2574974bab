import Spaces.Computer.Registering
import Spaces.Mcp.Discipline

/-!
# What a cancellation does

The cancellations of all clients are kept in one table, and each names a request by
the serial of its client and the text of its id. Whether a request is executed is
decided once, in `tick`, by a flag that the table, the lines of its client and the
end of its connection have set.

As long as the table has room and no connection uses an id twice, the decision is the
client's own: a request is executed exactly if its client has neither cancelled it
nor gone by then. What the other clients send, and what any client has cancelled too
late, makes no difference.

The invariant follows a cancellation from its line on. Its entry is in the table until
the request is over or the connection is closed, and nothing else takes it out.
-/

namespace Spaces.Computer

open Spaces.Library Json Spaces.Mcp

/-! ## Requests by their names -/

/-- What an id is written as. Integers are written by value. -/
inductive IdText where
  | text (text : String)
  | number (z : Int)
  deriving DecidableEq

def idText : Json → Option IdText
  | .str text => some (.text text)
  | .uint n => some (.number n)
  | .sint z => some (.number z)
  | .null | .bool _ | .real _ | .arr _ | .obj _ => none

/-- A request: the serial of its client and the text of its id. -/
abbrev RequestKey := Nat × IdText

def request? (client : Nat) (document : Option Json) : Option RequestKey :=
  ((document.bind (·.get "id")).bind idText).map (client, ·)

def Event.request? : Event → Option RequestKey
  | .received client document => Computer.request? client document
  | _ => none

def HostEvent.request? : HostEvent → Option RequestKey
  | .call client document => Computer.request? client document
  | _ => none

theorem idText_isSome {id : Json} (h : isRequestId id = true) : ∃ text, idText id = some text := by
  cases id with
  | str | uint | sint => exact ⟨_, rfl⟩
  | null | bool | real | arr | obj => cases h

theorem isRequestId_of_idText {id : Json} {text : IdText} (h : idText id = some text) :
    isRequestId id = true := by
  cases id with
  | str | uint | sint => rfl
  | null | bool | real | arr | obj => cases h

/-- The text of an id is what `request_id_key` compares. -/
theorem sameText_iff {id requestId : Json} (hid : isRequestId id = true) :
    id.sameText requestId = true ↔ idText id = idText requestId := by
  cases id with
  | str text => cases requestId <;> simp [sameText, idText]
  | uint n => cases requestId <;> simp [sameText, idText]
  | sint z => cases requestId <;> simp [sameText, idText]
  | null | bool | real | arr | obj => cases hid

theorem sameText_iff_right {id requestId : Json} (hid : isRequestId id = true) :
    requestId.sameText id = true ↔ idText requestId = idText id := by
  cases id with
  | str text => cases requestId <;> simp [sameText, idText]
  | uint n => cases requestId <;> simp [sameText, idText]
  | sint z => cases requestId <;> simp [sameText, idText]
  | null | bool | real | arr | obj => cases hid

/-- A call has the id of its document. -/
theorem id_of_calling {s session : Session} {request : Json} {call : Call}
    (h : handleRequest false s request = (session, .calling call)) :
    request.get "id" = some call.id ∧ isRequestId call.id = true := by
  have hhandles := handleRequest_handles false s request
  rw [h] at hhandles
  cases hhandles with
  | request hvalid hid hmethod hanswers =>
      cases hanswers with
      | called hcall hsession hready =>
          rw [hcall]
          exact ⟨hid, requestId_of_valid hvalid hid⟩

/-! ## What is decided -/

/-- The client has cancelled the request, or is gone. -/
def Withdrawn (earlier : List Event) (client : Nat) (id : Json) : Prop :=
  (∃ requestId, .cancelled client requestId ∈ earlier ∧ idText requestId = idText id) ∨
    .closed client ∈ earlier

def Decided (earlier : List Event) : Event → Prop
  | .executed _ client id => ¬ Withdrawn earlier client id
  | .suppressed client id => Withdrawn earlier client id
  | _ => True

/-- An event that says nothing about which requests there are. -/
def Event.Silent : Event → Prop
  | .received _ _ | .cancelled _ _ | .closed _ => False
  | _ => True

theorem Withdrawn.cons {earlier : List Event} {client : Nat} {id : Json}
    (h : Withdrawn earlier client id) (event : Event) : Withdrawn (event :: earlier) client id := by
  rcases h with ⟨requestId, hmem, htext⟩ | hclosed
  · exact .inl ⟨requestId, List.mem_cons_of_mem _ hmem, htext⟩
  · exact .inr (List.mem_cons_of_mem _ hclosed)

theorem withdrawn_silent {earlier : List Event} {event : Event} (h : event.Silent) {client : Nat}
    {id : Json} : Withdrawn (event :: earlier) client id ↔ Withdrawn earlier client id := by
  constructor
  · rintro (⟨requestId, hmem, htext⟩ | hclosed)
    · rcases List.mem_cons.mp hmem with rfl | hmem
      · exact h.elim
      · exact .inl ⟨requestId, hmem, htext⟩
    · rcases List.mem_cons.mp hclosed with rfl | hclosed
      · exact h.elim
      · exact .inr hclosed
  · exact fun hearlier => hearlier.cons event

namespace Host

variable {s s' : Host}

/-! ## The invariant -/

/-- The requests that were queued, those that are queued, and the one in work. -/
def received (s : Host) : List RequestKey := s.trace.filterMap Event.request?

def waiting (s : Host) : List RequestKey := s.events.filterMap HostEvent.request?

def working (s : Host) : List RequestKey :=
  (s.running.bind fun running => (idText running.call.id).map (running.client, ·)).toList

def unfinished (s : Host) : List RequestKey := s.working ++ s.waiting

/-- The clients with whether they are gone. -/
def lives (s : Host) : List (Nat × Bool) := s.clients.map fun c => (c.serial, c.closed)

/-- What became of a cancellation. -/
inductive Traced (s : Host) (client : Nat) (text : IdText) : Prop
  | gone : .closed client ∈ s.trace → Traced s client text
  | listed (requestId : Json) : (client, requestId) ∈ s.cancelledIds →
      idText requestId = some text → Traced s client text
  | answered : (client, text) ∈ s.received → (client, text) ∉ s.unfinished → Traced s client text

structure Noted (s : Host) : Prop where
  distinct : s.unfinished.Nodup
  heard : ∀ key ∈ s.unfinished, key ∈ s.received
  valid : ∀ running, s.running = some running → isRequestId running.call.id = true
  listed : ∀ key ∈ s.cancelledIds, .cancelled key.1 key.2 ∈ s.trace
  traced : ∀ client requestId text, .cancelled client requestId ∈ s.trace →
    idText requestId = some text → Traced s client text
  flag : ∀ running, s.running = some running →
    (s.cancelled = true ↔ Withdrawn s.trace running.client running.call.id)
  bound : ∀ life ∈ s.lives, life.1 ≤ s.serial
  closed : ∀ serial, .closed serial ∈ s.trace → serial ≤ s.serial ∧ (serial, false) ∉ s.lives
  decided : Always Decided s.trace

theorem noted_initial (testPath : Bool) : Noted (initial testPath) := by
  cases testPath
  · constructor <;> simp [initial, unfinished, working, waiting, lives, Always.nil]
  · constructor <;> simp [initial, unfinished, working, waiting, lives, Always.nil]

theorem working_eq {running : Running} (hrunning : s.running = some running)
    {text : IdText} (htext : idText running.call.id = some text) :
    s.working = [(running.client, text)] := by
  simp [working, hrunning, htext]

/-! ## Steps that decide nothing -/

/-- What only takes requests away, and keeps the table and the trace. -/
theorem Noted.of_less (h : Noted s) (hunfinished : s'.unfinished.Sublist s.unfinished)
    (hrunning : ∀ running, s'.running = some running → ∃ before, s.running = some before ∧
      before.client = running.client ∧ before.call = running.call)
    (hcancelled : s'.cancelled = s.cancelled ∨ s'.running = none)
    (hids : s'.cancelledIds = s.cancelledIds) (htrace : s'.trace = s.trace)
    (hlives : ∀ life ∈ s'.lives, life ∈ s.lives) (hserial : s.serial = s'.serial) :
    Noted s' := by
  have hreceived : s'.received = s.received := by rw [received, htrace, received]
  refine ⟨h.distinct.sublist hunfinished, ?_, ?_, ?_, ?_, ?_, ?_, ?_, htrace ▸ h.decided⟩
  · intro key hkey
    rw [hreceived]
    exact h.heard key (hunfinished.subset hkey)
  · intro running hsome
    obtain ⟨before, hbefore, -, hcall⟩ := hrunning running hsome
    exact hcall ▸ h.valid before hbefore
  · rw [hids, htrace]
    exact h.listed
  · intro client requestId text hmem htext
    rw [htrace] at hmem
    cases h.traced client requestId text hmem htext with
    | gone hgone => exact .gone (htrace ▸ hgone)
    | listed other hlisted hother => exact .listed other (hids ▸ hlisted) hother
    | answered hheard hover =>
        exact .answered (hreceived ▸ hheard) fun hopen => hover (hunfinished.subset hopen)
  · intro running hsome
    obtain ⟨before, hbefore, hclient, hcall⟩ := hrunning running hsome
    rcases hcancelled with hsame | hnone
    · rw [hsame, htrace, ← hclient, ← hcall]
      exact h.flag before hbefore
    · rw [hnone] at hsome
      cases hsome
  · intro life hlife
    exact hserial ▸ h.bound life (hlives life hlife)
  · intro serial hclosed
    rw [htrace] at hclosed
    obtain ⟨hle, hnot⟩ := h.closed serial hclosed
    exact ⟨hserial ▸ hle, fun hmem => hnot (hlives _ hmem)⟩

/-- What leaves all of it alone. -/
theorem Noted.of_same (h : Noted s) (hevents : s'.events = s.events)
    (hrunning : s'.running = s.running) (hcancelled : s'.cancelled = s.cancelled)
    (hids : s'.cancelledIds = s.cancelledIds) (htrace : s'.trace = s.trace)
    (hlives : s'.lives = s.lives) (hserial : s.serial = s'.serial) : Noted s' := by
  have hunfinished : s'.unfinished = s.unfinished := by
    rw [unfinished, working, waiting, hrunning, hevents]
    rfl
  refine h.of_less (hunfinished ▸ List.Sublist.refl _) ?_ (.inl hcancelled) hids htrace ?_ hserial
  · intro running hsome
    exact ⟨running, hrunning ▸ hsome, rfl, rfl⟩
  · intro life hlife
    exact hlives ▸ hlife

theorem received_log (event : Event) :
    (s.log event).received = event.request?.toList ++ s.received := by
  rw [received, log, List.filterMap_cons]
  split
  next hnone => simp [hnone, received]
  next hsome => simp [hsome, received]

theorem Noted.log (h : Noted s) (event : Event) (hsilent : event.Silent)
    (hdecided : Decided s.trace event) : Noted (s.log event) := by
  have hreceived : (s.log event).received = s.received := by
    cases event with
    | received | cancelled | closed => cases hsilent
    | _ => rfl
  have hearlier : ∀ {other : Event}, ¬ other.Silent → other ∈ (s.log event).trace →
      other ∈ s.trace := by
    intro other hother hmem
    rcases List.mem_cons.mp hmem with rfl | hmem
    · exact (hother hsilent).elim
    · exact hmem
  refine ⟨h.distinct, ?_, h.valid, ?_, ?_, ?_, h.bound, ?_, h.decided.cons hdecided⟩
  · intro key hkey
    rw [hreceived]
    exact h.heard key hkey
  · intro key hkey
    exact List.mem_cons_of_mem _ (h.listed key hkey)
  · intro client requestId text hmem htext
    cases h.traced client requestId text (hearlier (fun h => h) hmem) htext with
    | gone hgone => exact .gone (List.mem_cons_of_mem _ hgone)
    | listed other hlisted hother => exact .listed other hlisted hother
    | answered hheard hover => exact .answered (hreceived ▸ hheard) hover
  · intro running hrunning
    exact (h.flag running hrunning).trans (withdrawn_silent hsilent).symm
  · intro serial hclosed
    exact h.closed serial (hearlier (fun h => h) hclosed)

theorem lives_setClient {serial : Nat} {f : HostClient → HostClient}
    (h : ∀ c, ((f c).serial, (f c).closed) = (c.serial, c.closed)) :
    (s.setClient serial f).lives = s.lives := by
  simp only [lives, setClient, List.map_map]
  refine List.map_congr_left fun c _ => ?_
  show ((if c.serial = serial then f c else c).serial,
    (if c.serial = serial then f c else c).closed) = (c.serial, c.closed)
  split
  · exact h c
  · rfl

theorem Noted.pending (h : Noted s) (serial : Nat) (p : HostClient → Nat) :
    Noted (s.setClient serial fun c => { c with pending := p c }) :=
  h.of_same rfl rfl rfl rfl rfl (lives_setClient fun _ => rfl) rfl

theorem Noted.setLease (h : Noted s) (id : Nat) (f : HostLease → HostLease) :
    Noted (s.setLease id f) :=
  h.of_same rfl rfl rfl rfl rfl rfl rfl

theorem waiting_queue (event : HostEvent) :
    (s.queue event).waiting = s.waiting ++ event.request?.toList := by
  cases event with
  | call client document =>
      simp [Host.queue, Host.setClient, waiting, List.filterMap_append, List.filterMap_cons]
      cases HostEvent.request? (.call client document) <;> rfl
  | register | revoke => simp [Host.queue, waiting, HostEvent.request?]

/-- An event about a lease is no request. -/
theorem Noted.queue (h : Noted s) {event : HostEvent}
    (hlease : ∀ client document, event ≠ .call client document) : Noted (s.queue event) := by
  cases event with
  | call client document => exact (hlease client document rfl).elim
  | register lease =>
      have hunfinished : (s.queue (.register lease)).unfinished = s.unfinished := by
        simp [Host.queue, unfinished, waiting, working, HostEvent.request?]
      exact h.of_less (hunfinished ▸ List.Sublist.refl _) (fun running hsome =>
        ⟨running, hsome, rfl, rfl⟩) (.inl rfl) rfl rfl (fun _ h => h) rfl
  | revoke lease =>
      have hunfinished : (s.queue (.revoke lease)).unfinished = s.unfinished := by
        simp [Host.queue, unfinished, waiting, working, HostEvent.request?]
      exact h.of_less (hunfinished ▸ List.Sublist.refl _) (fun running hsome =>
        ⟨running, hsome, rfl, rfl⟩) (.inl rfl) rfl rfl (fun _ h => h) rfl

/-! ## The end of a connection -/

theorem Noted.clientClose (h : Noted s) (serial : Nat) : Noted (s.clientClose serial) := by
  unfold Host.clientClose
  split
  · exact h
  next client hclient =>
    split
    · exact h
    · dsimp only
      have hlives : ∀ life ∈ Host.lives (s.setClient serial fun c => { c with closed := true }),
          ∃ life₀ ∈ s.lives, life.1 = life₀.1 ∧
            (life.2 = false → life = life₀ ∧ life.1 ≠ serial) := by
        intro life hlife
        obtain ⟨c, hc, rfl⟩ := List.mem_map.mp hlife
        obtain ⟨c₀, hc₀, rfl⟩ := mem_setClient hc
        refine ⟨_, List.mem_map_of_mem hc₀, ?_⟩
        split
        · exact ⟨rfl, nofun⟩
        next hne => exact ⟨rfl, fun _ => ⟨rfl, hne⟩⟩
      obtain ⟨hmem, hserial⟩ := mem_of_client? hclient
      refine ⟨h.distinct, h.heard, h.valid, ?_, ?_, ?_, ?_, ?_, h.decided.cons trivial⟩
      · intro key hkey
        exact List.mem_cons_of_mem _ (h.listed key (List.mem_filter.mp hkey).1)
      · intro other requestId text hmem htext
        have hearlier : .cancelled other requestId ∈ s.trace := by
          simpa [Host.setClient] using hmem
        cases h.traced other requestId text hearlier htext with
        | gone hgone => exact .gone (List.mem_cons_of_mem _ hgone)
        | listed listed hlisted hother =>
            -- the entries of this client are gone, but so is the client
            by_cases heq : other = serial
            · subst heq
              exact .gone (List.mem_cons_self ..)
            · exact .listed listed (List.mem_filter.mpr ⟨hlisted, by simpa using heq⟩) hother
        | answered hheard hover => exact .answered hheard hover
      · intro running hrunning
        have hrunning : s.running = some running := hrunning
        show (s.cancelled || s.running.any (·.client == serial)) = true ↔ _
        rw [Bool.or_eq_true, h.flag running hrunning, hrunning]
        simp only [Withdrawn, List.mem_cons, Option.any_some, beq_iff_eq]
        constructor
        · rintro ((⟨requestId, hmem, htext⟩ | hgone) | rfl)
          · exact .inl ⟨requestId, .inr hmem, htext⟩
          · exact .inr (.inr hgone)
          · exact .inr (.inl rfl)
        · rintro (⟨requestId, hmem | hmem, htext⟩ | heq | hgone)
          · cases hmem
          · exact .inl (.inl ⟨requestId, hmem, htext⟩)
          · exact .inr (Event.closed.inj heq)
          · exact .inl (.inr hgone)
      · intro life hlife
        obtain ⟨life₀, hlife₀, hsame, -⟩ := hlives life hlife
        rw [hsame]
        exact h.bound life₀ hlife₀
      · intro other hgone
        rcases List.mem_cons.mp hgone with heq | hgone
        · obtain rfl := Event.closed.inj heq
          refine ⟨hserial ▸ h.bound _ (List.mem_map_of_mem hmem), fun hlife => ?_⟩
          obtain ⟨life₀, hlife₀, -, hopen⟩ := hlives _ hlife
          exact (hopen rfl).2 rfl
        · obtain ⟨hle, hnot⟩ := h.closed other hgone
          refine ⟨hle, fun hlife => ?_⟩
          obtain ⟨life₀, hlife₀, -, hopen⟩ := hlives _ hlife
          exact hnot ((hopen rfl).1 ▸ hlife₀)

theorem Noted.revoke (h : Noted s) (lease : Nat) : Noted (s.revoke lease) := by
  rw [Host.revoke]
  split
  · exact h
  · split
    · exact h
    · refine Noted.queue ?_ fun _ _ heq => by cases heq
      exact List.foldlRecOn (motive := Noted) _ _ (h.setLease lease _)
        fun t ht client _ => ht.clientClose client.serial

/-! ## The lines of a client -/

/-- A cancellation that the table has room for. -/
theorem Noted.cancel (h : Noted s) (hroom : s.cancelledIds.length < maxCancelled) (serial : Nat)
    (id : Json) : Noted (s.cancel (serial, id)) := by
  have hids : ∀ key, key ∈ (s.cancel (serial, id)).cancelledIds →
      key = (serial, id) ∨ key ∈ s.cancelledIds := by
    intro key hkey
    rw [Host.cancel] at hkey
    dsimp only at hkey
    split at hkey
    · exact List.mem_cons.mp hkey
    · exact .inr hkey
  have hkept : ∀ key ∈ s.cancelledIds, key ∈ (s.cancel (serial, id)).cancelledIds := by
    intro key hkey
    rw [Host.cancel]
    dsimp only
    split
    · exact List.mem_cons_of_mem _ hkey
    · exact hkey
  have hlisted : ∀ text, idText id = some text → ∃ requestId,
      (serial, requestId) ∈ (s.cancel (serial, id)).cancelledIds ∧
        idText requestId = some text := by
    intro text htext
    rw [Host.cancel]
    dsimp only
    split
    · exact ⟨id, List.mem_cons_self .., htext⟩
    next hnot =>
      -- there is room, so the key is in the table already
      have hany : s.cancelledIds.any (sameKey (serial, id)) = true := by simpa [hroom] using hnot
      obtain ⟨⟨client, requestId⟩, hmem, hsame⟩ := List.any_eq_true.mp hany
      simp only [sameKey, Bool.and_eq_true, beq_iff_eq] at hsame
      obtain ⟨rfl, hsame⟩ := hsame
      rw [sameText_iff (isRequestId_of_idText htext), htext] at hsame
      exact ⟨requestId, hmem, hsame.symm⟩
  refine ⟨h.distinct, h.heard, h.valid, ?_, ?_, ?_, h.bound, ?_, h.decided.cons trivial⟩
  · intro key hkey
    rcases hids key hkey with rfl | hkey
    · exact List.mem_cons_self ..
    · exact List.mem_cons_of_mem _ (h.listed key hkey)
  · intro client requestId text hmem htext
    rcases List.mem_cons.mp hmem with heq | hmem
    · obtain ⟨rfl, rfl⟩ := Event.cancelled.inj heq
      obtain ⟨other, hother, hsame⟩ := hlisted text htext
      exact .listed other hother hsame
    · cases h.traced client requestId text hmem htext with
      | gone hgone => exact .gone (List.mem_cons_of_mem _ hgone)
      | listed other hlisted hother => exact .listed other (hkept _ hlisted) hother
      | answered hheard hover => exact .answered hheard hover
  · intro running hrunning
    have hrunning : s.running = some running := hrunning
    show (s.cancelled || s.running.any fun running => sameKey (serial, id) running.key) = true ↔ _
    rw [Bool.or_eq_true, h.flag running hrunning, hrunning]
    simp only [Withdrawn, Option.any_some, sameKey, Running.key, Bool.and_eq_true, beq_iff_eq,
      sameText_iff_right (h.valid running hrunning)]
    constructor
    · rintro ((⟨requestId, hmem, htext⟩ | hgone) | ⟨rfl, hsame⟩)
      · exact .inl ⟨requestId, List.mem_cons_of_mem _ hmem, htext⟩
      · exact .inr (List.mem_cons_of_mem _ hgone)
      · exact .inl ⟨id, List.mem_cons_self .., hsame⟩
    · rintro (⟨requestId, hmem, htext⟩ | hgone)
      · rcases List.mem_cons.mp hmem with heq | hmem
        · obtain ⟨rfl, rfl⟩ := Event.cancelled.inj heq
          exact .inr ⟨rfl, htext⟩
        · exact .inl (.inl ⟨requestId, hmem, htext⟩)
      · exact .inl (.inr ((List.mem_cons.mp hgone).resolve_left fun heq => by cases heq))
  · intro other hgone
    exact h.closed other ((List.mem_cons.mp hgone).resolve_left fun heq => by cases heq)

/-- A request whose id its connection has not used. -/
theorem Noted.receive (h : Noted s) (serial : Nat) (document : Option Json)
    (hfresh : ∀ key ∈ Computer.request? serial document, key ∉ s.received) :
    Noted ((s.queue (.call serial document)).log (.received serial document)) := by
  have hunfinished : Host.unfinished
      ((s.queue (.call serial document)).log (.received serial document)) =
        s.unfinished ++ (Computer.request? serial document).toList := by
    show s.working ++ (s.queue (.call serial document)).waiting = _
    rw [waiting_queue, unfinished, List.append_assoc]
    rfl
  have hreceived : ∀ key, key ∈ Host.received
      ((s.queue (.call serial document)).log (.received serial document)) ↔
        key ∈ Computer.request? serial document ∨ key ∈ s.received := by
    intro key
    rw [received_log, List.mem_append, Option.mem_toList]
    rfl
  have hnotHeard : ∀ key ∈ (Computer.request? serial document).toList, key ∉ s.unfinished := by
    intro key hkey hopen
    exact hfresh key (Option.mem_toList.mp hkey) (h.heard key hopen)
  have hlives : Host.lives ((s.queue (.call serial document)).log (.received serial document)) =
      s.lives := lives_setClient (s := s) fun _ => rfl
  refine ⟨?_, ?_, h.valid, ?_, ?_, ?_, ?_, ?_, h.decided.cons trivial⟩
  · rw [hunfinished, List.nodup_append]
    refine ⟨h.distinct, ?_, ?_⟩
    · cases Computer.request? serial document with
      | none => exact List.nodup_nil
      | some key => exact List.nodup_singleton key
    · rintro key hopen _ hkey rfl
      exact hnotHeard key hkey hopen
  · intro key hkey
    rw [hunfinished, List.mem_append, Option.mem_toList] at hkey
    rw [hreceived]
    exact hkey.symm.imp_right (h.heard key)
  · intro key hkey
    exact List.mem_cons_of_mem _ (h.listed key hkey)
  · intro client requestId text hmem htext
    have hmem : .cancelled client requestId ∈ s.trace :=
      (List.mem_cons.mp hmem).resolve_left fun heq => by cases heq
    cases h.traced client requestId text hmem htext with
    | gone hgone => exact .gone (List.mem_cons_of_mem _ hgone)
    | listed other hlisted hother => exact .listed other hlisted hother
    | answered hheard hover =>
        refine .answered ((hreceived _).mpr (.inr hheard)) fun hopen => ?_
        rw [hunfinished, List.mem_append, Option.mem_toList] at hopen
        rcases hopen with hopen | hkey
        · exact hover hopen
        · exact hfresh _ hkey hheard
  · intro running hrunning
    refine (h.flag running hrunning).trans ⟨fun hearlier => hearlier.cons _, ?_⟩
    rintro (⟨requestId, hmem, htext⟩ | hgone)
    · exact .inl ⟨requestId, (List.mem_cons.mp hmem).resolve_left (fun heq => by cases heq), htext⟩
    · exact .inr ((List.mem_cons.mp hgone).resolve_left fun heq => by cases heq)
  · rw [hlives]
    exact h.bound
  · intro other hgone
    rw [hlives]
    exact h.closed other ((List.mem_cons.mp hgone).resolve_left fun heq => by cases heq)

theorem Noted.line (h : Noted s) (serial : Nat) (document : Option Json)
    (hroom : Frontend.isCancellation document = true → s.cancelledIds.length < maxCancelled)
    (hfresh : Frontend.isCancellation document = false →
      ∀ key ∈ Computer.request? serial document, key ∉ s.received) :
    Noted (s.line serial document) := by
  rw [Host.line]
  split
  · exact h
  · split
    · exact h
    · split
      next hcancellation => exact h.cancel (hroom hcancellation) serial _
      next hline =>
        split
        · exact h.receive serial document (hfresh (by simpa using hline))
        · exact h.clientClose serial

theorem Noted.accept (h : Noted s) (lease : Nat) (trusted : Bool) :
    Noted (s.accept lease trusted) := by
  rw [Host.accept]
  split
  · exact h
  · split
    · exact h
    · have hlogged := (h.setLease lease fun l => { l with used := true }).log
        (.accepted lease (s.serial + 1)) trivial trivial
      refine ⟨hlogged.distinct, hlogged.heard, hlogged.valid, hlogged.listed, ?_, hlogged.flag, ?_,
        ?_, hlogged.decided⟩
      · intro client requestId text hmem htext
        cases hlogged.traced client requestId text hmem htext with
        | gone hgone => exact .gone hgone
        | listed other hlisted hother => exact .listed other hlisted hother
        | answered hheard hover => exact .answered hheard hover
      · intro life hlife
        rcases List.mem_cons.mp hlife with rfl | hlife
        · exact Nat.le_refl _
        · exact Nat.le_succ_of_le (h.bound life hlife)
      · intro other hgone
        obtain ⟨hle, hnot⟩ := hlogged.closed other hgone
        refine ⟨Nat.le_succ_of_le hle, fun hlife => ?_⟩
        rcases List.mem_cons.mp hlife with heq | hlife
        · -- the new client's serial is above every other
          have hserial : other = s.serial + 1 := (Prod.mk.inj heq).1
          have hle : other ≤ s.serial := hle
          omega
        · exact hnot hlife

theorem Noted.controlRead (h : Noted s) (lease : Nat) (control : Control) :
    Noted (s.controlRead lease control) := by
  rw [Host.controlRead.eq_def]
  split
  · exact h
  · split
    · exact h
    · split
      · exact h.revoke lease
      · split
        · exact h
        · exact (h.setLease lease _).queue fun _ _ heq => by cases heq
        · exact h.revoke lease
        · exact h.revoke lease

/-! ## The turns of the loop -/

theorem Noted.replies (h : Noted s) (client : Nat) (replies : List Json) :
    Noted { s with trace := replies.map (.replied client) ++ s.trace } := by
  induction replies with
  | nil => exact h
  | cons reply replies ih => exact ih.log (.replied client reply) trivial trivial

/-- A request that nothing in the queue stands for any more takes its entry along. -/
theorem Noted.retire (h : Noted s) {running : Running}
    (hover : ∀ text, idText running.call.id = some text →
      (running.client, text) ∈ s.received ∧ (running.client, text) ∉ s.waiting)
    (hvalid : isRequestId running.call.id = true) :
    Noted { s with
      running := none
      cancelledIds := s.cancelledIds.filter (!sameKey running.key ·) } := by
  have hidle : Noted { s with running := none } :=
    h.of_less (List.sublist_append_right _ _) nofun (.inr rfl) rfl rfl (fun _ h => h) rfl
  refine ⟨hidle.distinct, hidle.heard, hidle.valid, ?_, ?_, hidle.flag, hidle.bound, hidle.closed,
    hidle.decided⟩
  · intro key hkey
    exact h.listed key (List.mem_filter.mp hkey).1
  · intro client requestId text hmem htext
    cases hidle.traced client requestId text hmem htext with
    | gone hgone => exact .gone hgone
    | answered hheard hover => exact .answered hheard hover
    | listed other hlisted hother =>
        by_cases hkey : sameKey running.key (client, other) = true
        · simp only [sameKey, Running.key, Bool.and_eq_true, beq_iff_eq] at hkey
          obtain ⟨rfl, hsame⟩ := hkey
          rw [sameText_iff hvalid, hother] at hsame
          exact .answered (hover text hsame).1 (hover text hsame).2
        · exact .listed other (List.mem_filter.mpr ⟨hlisted, by simpa using hkey⟩) hother

theorem Noted.finishCall (h : Noted s) {running : Running}
    (hover : ∀ text, idText running.call.id = some text →
      (running.client, text) ∈ s.received ∧ (running.client, text) ∉ s.waiting)
    (hvalid : isRequestId running.call.id = true) (outcome : Outcome) :
    Noted (s.finishCall running outcome) := by
  have hretire : ∀ t : Host, Noted t → t.events = s.events → t.received = s.received →
      Noted { t.setClient running.client fun c => { c with pending := c.pending - 1 } with
        running := none
        cancelledIds := t.cancelledIds.filter (!sameKey running.key ·) } := by
    intro t ht hevents hreceived
    refine (ht.pending running.client (fun c => c.pending - 1)).retire ?_ hvalid
    intro text htext
    have hkey := hover text htext
    rw [← hreceived, waiting, ← hevents] at hkey
    exact hkey
  rw [Host.finishCall]
  split
  · exact hretire s h rfl rfl
  · split
    · split
      · exact hretire s h rfl rfl
      · exact hretire _ (h.log (.replied running.client _) trivial trivial) rfl rfl
    · exact hretire s h rfl rfl

theorem unfinished_first (hidle : s.running = none) {serial : Nat} {document : Option Json}
    {events : List HostEvent} (hevents : s.events = .call serial document :: events)
    {key : RequestKey} (hrequest : Computer.request? serial document = some key) :
    s.unfinished = key :: events.filterMap HostEvent.request? := by
  simp [unfinished, working, waiting, hidle, hevents, HostEvent.request?, hrequest]

/-- A call that is taken from the queue. The table has an entry for it exactly if its
client has cancelled it: the client is there, and the request is not over. -/
theorem Noted.begin (h : Noted s) (hidle : s.running = none) {client : HostClient}
    (hclient : client ∈ s.clients) (hopen : client.closed = false) {document : Option Json}
    {events : List HostEvent} (hevents : s.events = .call client.serial document :: events)
    {call : Call} {text : IdText} (htext : idText call.id = some text)
    (hrequest : Computer.request? client.serial document = some (client.serial, text)) :
    Noted { s with
      events
      cancelled := s.cancelledIds.any (sameKey (client.serial, call.id))
      running := some { client := client.serial, call } } := by
  have hvalid := isRequestId_of_idText htext
  have hfirst := unfinished_first hidle hevents hrequest
  have hunfinished : Host.unfinished { s with
      events
      cancelled := s.cancelledIds.any (sameKey (client.serial, call.id))
      running := some { client := client.serial, call } } = s.unfinished := by
    rw [hfirst, unfinished, working_eq rfl htext]
    rfl
  have halive : .closed client.serial ∉ s.trace := by
    intro hgone
    refine (h.closed client.serial hgone).2 ?_
    rw [← hopen]
    exact List.mem_map_of_mem hclient
  refine ⟨hunfinished ▸ h.distinct, ?_, ?_, h.listed, ?_, ?_, h.bound, h.closed, h.decided⟩
  · intro key hkey
    rw [hunfinished] at hkey
    exact h.heard key hkey
  · intro running hsome
    obtain rfl := Option.some.inj hsome
    exact hvalid
  · intro other requestId text' hmem htext'
    cases h.traced other requestId text' hmem htext' with
    | gone hgone => exact .gone hgone
    | listed listed hlisted hother => exact .listed listed hlisted hother
    | answered hheard hover => exact .answered hheard (hunfinished ▸ hover)
  · intro running hsome
    obtain rfl := Option.some.inj hsome
    show s.cancelledIds.any (sameKey (client.serial, call.id)) = true ↔
      Withdrawn s.trace client.serial call.id
    rw [List.any_eq_true]
    constructor
    · rintro ⟨⟨other, requestId⟩, hmem, hsame⟩
      simp only [sameKey, Bool.and_eq_true, beq_iff_eq, sameText_iff hvalid] at hsame
      obtain ⟨rfl, hsame⟩ := hsame
      exact .inl ⟨requestId, h.listed _ hmem, hsame.symm⟩
    · rintro (⟨requestId, hmem, hsame⟩ | hgone)
      · cases h.traced client.serial requestId text hmem (hsame.trans htext) with
        | gone hgone => exact (halive hgone).elim
        | listed other hlisted hother =>
            refine ⟨_, hlisted, ?_⟩
            simp [sameKey, sameText_iff hvalid, htext, hother]
        | answered hheard hover => exact (hover (hfirst ▸ List.mem_cons_self ..)).elim
      · exact (halive hgone).elim

/-- Whatever was first in the queue is taken away. -/
theorem Noted.pop (h : Noted s) {event : HostEvent} (events : List HostEvent)
    (hevents : s.events = event :: events) : Noted { s with events } := by
  refine h.of_less ?_ (fun running hsome => ⟨running, hsome, rfl, rfl⟩) (.inl rfl) rfl rfl
    (fun _ h => h) rfl
  refine (List.Sublist.refl s.working).append ?_
  show List.Sublist (events.filterMap HostEvent.request?) (s.events.filterMap HostEvent.request?)
  rw [hevents]
  exact (List.sublist_cons_self event events).filterMap _

theorem Noted.call (h : Noted s) (hidle : s.running = none) {client : HostClient}
    (hclient : client ∈ s.clients) {document : Option Json} {events : List HostEvent}
    (hevents : s.events = .call client.serial document :: events) :
    Noted (Host.call { s with events } client document) := by
  have hstarted : Noted (s.log (.started client.lease client.serial document)) :=
    h.log _ trivial trivial
  have hpopped := hstarted.pop events hevents
  rw [Host.call]
  dsimp only
  split
  · exact (h.pop events hevents).pending client.serial _
  next hopen =>
    split
    · exact (hpopped.log (.replied client.serial _) trivial trivial).pending client.serial _
    next document =>
      split
      next session replies hhandled =>
        refine Noted.pending ?_ client.serial _
        exact (hpopped.replies client.serial replies).of_same rfl rfl rfl rfl rfl rfl rfl
      next session call hhandled =>
        obtain ⟨hid, hvalid⟩ := id_of_calling hhandled
        obtain ⟨text, htext⟩ := idText_isSome hvalid
        have hrequest : Computer.request? client.serial (some document) =
            some (client.serial, text) := by simp [Computer.request?, hid, htext]
        have hbegun : Noted { s with
            events
            session
            cancelled := s.cancelledIds.any (sameKey (client.serial, call.id))
            running := some { client := client.serial, call }
            trace := .started client.lease client.serial (some document) :: s.trace } :=
          (hstarted.begin hidle hclient (Bool.eq_false_iff.mpr hopen) hevents htext
            hrequest).of_same rfl rfl rfl rfl rfl rfl rfl
        split
        · exact hbegun
        · -- it is over at once
          refine Noted.finishCall ?_ ?_ hvalid _
          · exact hpopped.of_less (List.Sublist.refl _)
              (fun running hsome => ⟨running, hsome, rfl, rfl⟩) (.inr hidle) rfl rfl
              (fun _ h => h) rfl
          · intro text' htext'
            obtain rfl := Option.some.inj (htext.symm.trans htext')
            have hdistinct := hstarted.distinct
            have hfirst := unfinished_first hidle hevents hrequest
            refine ⟨hstarted.heard _ (hfirst ▸ List.mem_cons_self ..), ?_⟩
            rw [show (s.log (.started client.lease client.serial (some document))).unfinished =
              s.unfinished from rfl, hfirst] at hdistinct
            exact (List.nodup_cons.mp hdistinct).1

theorem Noted.turn (h : Noted s) (bound told : Bool) : Noted (s.turn bound told) := by
  rw [Host.turn.eq_def]
  split
  · exact h
  · exact h
  next serial document events hidle hevents =>
    dsimp only
    split
    · exact h.pop events hevents
    next client hclient =>
      obtain ⟨hmem, rfl⟩ := mem_of_client? hclient
      exact h.call hidle hmem hevents
  next lease events hidle hevents =>
    dsimp only
    split
    · exact h.pop events hevents
    · split
      · exact h.pop events hevents
      · have hreset : Noted { s with events, cancelled := false } :=
          (h.pop events hevents).of_less (List.Sublist.refl _)
            (fun running hsome => ⟨running, hsome, rfl, rfl⟩) (.inr hidle) rfl rfl
            (fun _ h => h) rfl
        split
        · exact hreset.setLease lease _
        · exact hreset.revoke lease
  next lease events hidle hevents =>
    dsimp only
    split
    · exact h.pop events hevents
    · refine Noted.setLease ?_ lease _
      split
      · exact (h.pop events hevents).log (.released lease) trivial trivial
      · exact h.pop events hevents

/-- The key of the call in work is heard, and not queued again. -/
theorem Noted.current (h : Noted s) {running : Running} (hrunning : s.running = some running)
    {text : IdText} (htext : idText running.call.id = some text) :
    (running.client, text) ∈ s.received ∧ (running.client, text) ∉ s.waiting := by
  have hdistinct := h.distinct
  have hheard := h.heard (running.client, text)
  rw [unfinished, working_eq hrunning htext] at hdistinct hheard
  exact ⟨hheard (List.mem_cons_self ..), (List.nodup_cons.mp hdistinct).1⟩

/-- The decision: the flag says whether the client has withdrawn the request. -/
theorem Noted.tick (h : Noted s) (failure : Option Failure) : Noted (s.tick failure) := by
  rw [Host.tick]
  split
  · exact h
  next running hrunning =>
    have hflag := h.flag running hrunning
    have hcurrent : ∀ text, idText running.call.id = some text →
        (running.client, text) ∈ s.received ∧ (running.client, text) ∉ s.waiting :=
      fun _ htext => h.current hrunning htext
    split
    · exact h
    · split
      next hcancelled =>
        have hdecided : Decided s.trace (.suppressed running.client running.call.id) :=
          hflag.mp hcancelled
        exact (h.log (.suppressed running.client running.call.id) trivial
          hdecided).finishCall hcurrent (h.valid running hrunning) _
      next hnot =>
        split
        · exact h.finishCall hcurrent (h.valid running hrunning) _
        · split
          · exact h
          next client hclient =>
            have hdecided : Decided s.trace
                (.executed client.lease running.client running.call.id) :=
              fun hwithdrawn => hnot (hflag.mpr hwithdrawn)
            refine (h.log (.executed client.lease running.client running.call.id) trivial
              hdecided).of_less ?_ ?_ (.inl rfl) rfl rfl (fun _ h => h) rfl
            · rw [unfinished, unfinished, working, working]
              show List.Sublist _ ((s.running.bind _).toList ++ _)
              rw [hrunning]
              exact List.Sublist.refl _
            · intro executing hsome
              obtain rfl := Option.some.inj hsome
              exact ⟨running, hrunning, rfl, rfl⟩

theorem Noted.finish (h : Noted s) (outcome : Outcome) : Noted (s.finish outcome) := by
  rw [Host.finish]
  split
  · exact h
  next running hrunning =>
    split
    · exact h.finishCall (fun text htext => h.current hrunning htext) (h.valid running hrunning) _
    · exact h

theorem Noted.idle (h : Noted s) (lease : Nat) : Noted (s.idle lease) := by
  rw [Host.idle]
  split
  · split
    · exact h.revoke lease
    · exact h
  · exact h

theorem Noted.collect (h : Noted s) : Noted s.collect := by
  rw [Host.collect]
  split
  · exact h
  · refine h.of_less (List.Sublist.refl _) (fun running hsome => ⟨running, hsome, rfl, rfl⟩)
      (.inl rfl) rfl rfl ?_ rfl
    intro life hlife
    obtain ⟨c, hc, rfl⟩ := List.mem_map.mp hlife
    exact List.mem_map_of_mem (List.mem_filter.mp hc).1

theorem Noted.controlAccept (h : Noted s) : Noted s.controlAccept := by
  rw [Host.controlAccept]
  split
  · exact h.of_same rfl rfl rfl rfl rfl rfl rfl
  · exact h

end Host

namespace Serving

open Host (Noted)

variable {s : Serving}

/-! ## Every run -/

/-- The table has room for each cancellation, and no connection uses an id twice. -/
def Orderly (s : Serving) : Input → Prop
  | .host (.line client document) =>
      (Frontend.isCancellation document = true →
        s.host.cancelledIds.length < Host.maxCancelled) ∧
      (Frontend.isCancellation document = false →
        ∀ key ∈ (request? client document).toList, key ∉ s.host.received)
  | _ => True

instance orderlyDecidable : (s : Serving) → (input : Input) → Decidable (Orderly s input)
  | s, .host (.line client document) =>
      inferInstanceAs (Decidable ((Frontend.isCancellation document = true →
        s.host.cancelledIds.length < Host.maxCancelled) ∧
          (Frontend.isCancellation document = false →
            ∀ key ∈ (request? client document).toList, key ∉ s.host.received)))
  | _, .host .controlAccept | _, .host (.controlRead _ _) | _, .host (.accept _ _)
  | _, .host (.hangup _) | _, .host (.turn _ _) | _, .host (.tick _) | _, .host (.finish _)
  | _, .host (.idle _) | _, .host .collect | _, .bound _ _ => inferInstanceAs (Decidable True)

theorem noted_step (h : Noted s.host) {input : Input} (horderly : Orderly s input) :
    Noted (s.step input).host := by
  cases input with
  | bound bound told =>
      show Noted (s.bound bound told).host
      unfold Serving.bound
      split
      · exact h
      next lease hlease =>
        dsimp only
        obtain ⟨host, hhost, hnoted⟩ : ∃ host : Host,
            (if (bound && told) = true then s.host else s.host.revoke lease) = host ∧
              Noted host := by
          split
          · exact ⟨_, rfl, h⟩
          · exact ⟨_, rfl, h.revoke lease⟩
        rw [hhost]
        split
        · split
          · exact hnoted
          · exact hnoted.setLease lease _
        · exact hnoted
  | host input =>
      unfold Serving.step
      dsimp only
      split
      · cases input with
        | controlAccept => exact h.controlAccept
        | controlRead lease control => exact h.controlRead lease control
        | accept lease trusted => exact h.accept lease trusted
        | line client document =>
            obtain ⟨hroom, hfresh⟩ := horderly
            exact h.line client document hroom fun hrequest key hkey =>
              hfresh hrequest key (Option.mem_toList.mpr hkey)
        | hangup client => exact h.clientClose client
        | turn bound told =>
            show Noted (s.turn bound told).host
            unfold Serving.turn
            split
            next lease events hnext =>
              obtain ⟨hidle, hevents, -⟩ := registration?_eq_some hnext
              exact (h.pop events hevents).of_less (List.Sublist.refl _)
                (fun running hsome => ⟨running, hsome, rfl, rfl⟩) (.inr hidle) rfl rfl
                (fun _ h => h) rfl
            · exact h.turn bound told
        | tick failure => exact h.tick failure
        | finish outcome => exact h.finish outcome
        | idle lease => exact h.idle lease
        | collect => exact h.collect
      · exact h

/-- In every run whose connections use no id twice and whose cancellations the table has
room for, a request is executed only if its client has not withdrawn it before, and
suppressed only if its client has. -/
theorem cancellation_decided (testPath : Bool) (inputs : List Input)
    (horderly : Allowed step Orderly (initial testPath) inputs) :
    Always Decided (inputs.foldl step (initial testPath)).host.trace := by
  have hrun := Guarded.start.foldl horderly
  generalize inputs.foldl step (initial testPath) = t at hrun ⊢
  have hnoted : Noted t.host :=
    hrun.invariant (Host.noted_initial testPath) fun _ _ h hok => noted_step h hok
  exact hnoted.decided

/-- Two clients use the same id. The second one cancels its own and not the first one's. -/
theorem cancellation_decided_two :
    let request (id : Nat) : Option Json := some (message [("id", .uint id),
      ("method", .str "tools/call"), ("params", .obj [("name", .str "status")])])
    let cancellation (id : Nat) : Option Json := some (message [
      ("method", .str "notifications/cancelled"), ("params", .obj [("requestId", .uint id)])])
    let inputs : List Input := [.host (.accept 0 true), .host (.accept 0 true),
      .host (.line 1 (request 1)), .host (.line 2 (request 1)), .host (.line 2 (cancellation 1)),
      .host (.turn true true), .host (.tick none), .host (.finish (.ok [])),
      .host (.turn true true), .host (.tick none)]
    let trace := (inputs.foldl step (initial true)).host.trace
    Always Decided trace ∧
      (trace.map fun | .executed _ client _ => some (client, true)
                     | .suppressed client _ => some (client, false)
                     | _ => none).reduceOption = [(2, false), (1, true)] :=
  ⟨cancellation_decided true _ (by decide +kernel), by decide +kernel⟩

end Serving

end Spaces.Computer
