import Mathlib.Data.List.TakeWhile
import Spaces.Authentication.Relay
import Spaces.Library.Runs

/-!
# What the relay keeps to

A reader of a channel that has met no fault has read what was sent, in order. So
the guest's conversation has seen the first messages that the worker relayed, the
worker's next answer is the guest's next answer, and a result is the last that the
module reads.

The one thing that does not arrive is an empty answer: its frame has no payload,
and the stack is given `NULL`.
-/

namespace Spaces.Authentication

open Spaces.Library

/-! ## What a packet means -/

def FaultToGuest (packet : Packet) : Prop := packet.expectedByGuest = false

def FaultToWorker (packet : Packet) : Prop := packet.expectedByWorker = false

/-- What the guest's conversation is shown for a packet. -/
def shows : Packet → Option (Int32 × Bytes)
  | .frame type payload =>
      if type = pamMessage then some (readStyle payload.val, readText payload.val) else none
  | _ => none

def PamMessage.seen (message : PamMessage) : Int32 × Bytes := (message.style, message.text.bytes)

/-- What `resp` points to for an answer. -/
def pointer (answer : CString) : Option Bytes :=
  if answer.bytes = [] then none else some answer.bytes

theorem shows_message {message : PamMessage} {payload : Payload}
    (h : message.payload? = some payload) :
    shows (.frame pamMessage payload) = some (PamMessage.seen message) := by
  unfold PamMessage.payload? at h
  split at h
  · obtain rfl := Option.some.inj h
    have hstyle : readStyle (htonl message.style.toUInt32 ++ message.text.bytes) =
        message.style := by
      have hword : ntohl (htonl message.style.toUInt32 ++ message.text.bytes) =
          ntohl (htonl message.style.toUInt32) := rfl
      rw [readStyle, hword, ntohl_htonl]
      rfl
    have htext : readText (htonl message.style.toUInt32 ++ message.text.bytes) =
        message.text.bytes := by
      rw [readText, List.drop_left' (htonl_length _), List.takeWhile_eq_self_iff]
      intro byte hbyte
      have hne : byte ≠ 0 := fun hzero => message.text.nulFree (hzero ▸ hbyte)
      simpa using hne
    simp only [shows, if_true, hstyle, htext, PamMessage.seen]
  · cases h

theorem received_pointer (answer : CString) (h : answer.bytes.length ≤ maxPayload) :
    (Packet.frame pamResponse ⟨answer.bytes, h⟩).received =
      some ⟨pamResponse, pointer answer, UInt32.ofNat answer.bytes.length⟩ := rfl

namespace Exchange

/-! ## The invariant -/

/-- A result is the last that is sent, and is that of the stack. -/
def Final (s : Exchange) (payload : Payload) : Prop :=
  ∃ value : Int32, payload.val = htonl value.toUInt32 ∧
    (value = pamSuccess → s.authenticated = some 0 ∧ s.accounted = some 0)

/-- What is known of the answers so far of a call of the worker's conversation. -/
structure Call (asked : List PamMessage) (answered : List CString) (c : Conversation)
    (count : Nat) : Prop where
  le : count ≤ c.messages.length
  messages : ∀ i message, i < count → c.messages[i]? = some message →
    asked[c.first + i]? = some message
  values : ∀ (i : Nat) (value : Option Bytes), c.values[i]? = some value →
    ∃ answer, answered[c.first + i]? = some answer ∧ value = pointer answer

/-- What is known of the worker from where it is. -/
structure AtWork (s : Exchange) : Prop where
  idle : s.worker = .waiting → s.asked = [] ∧ s.toWorker.taken = 0
  stack : ∀ phase, s.worker = .stack phase → s.guestAlive = true →
    s.toWorker.taken = s.asked.length
  waiting : ∀ phase c, s.worker = .conversing phase c →
    s.toWorker.taken + 1 = s.asked.length ∧ c.first + c.values.length = s.toWorker.taken ∧
      Call s.asked s.answered c (c.values.length + 1)
  phase : ∀ c, (s.worker = .stack .acctMgmt ∨ s.worker = .conversing .acctMgmt c) →
    s.authenticated = some 0

def Running (s : Exchange) : Prop := ∀ value, s.module ≠ .returned value

structure Inv (s : Exchange) : Prop where
  toGuest : s.toGuest.Faithful FaultToGuest
  toWorker : s.toWorker.Faithful FaultToWorker
  closed : s.toGuest.closed = s.toWorker.closed
  relayed : s.toGuest.sent.filterMap shows = s.asked.map PamMessage.seen
  results : ∀ (i : Nat) (payload : Payload), s.toGuest.sent[i]? = some (.frame result payload) →
    i + 1 = s.toGuest.sent.length ∧ s.worker = .exited ∧ s.Final payload
  answers : ∀ (i : Nat) (packet : Packet), s.toWorker.sent[i]? = some packet →
    ¬ FaultToWorker packet → ∃ (answer : CString) (h : answer.bytes.length ≤ maxPayload),
      s.answered[i]? = some answer ∧ packet = .frame pamResponse ⟨answer.bytes, h⟩
  shown : s.shown <+: s.asked.map PamMessage.seen
  reading : s.Running → s.shown = (s.toGuest.sent.take s.toGuest.taken).filterMap shows ∧
    s.answered.length + (if s.module = .conversing then 1 else 0) = s.shown.length ∧
    s.toWorker.sent.length = s.answered.length ∧ s.cancelled = false
  answered : s.answered.length ≤ s.shown.length
  work : s.AtWork
  calls : ∀ c ∈ s.results,
    c.values.length = c.messages.length ∧ Call s.asked s.answered c c.messages.length
  success : s.module = .returned pamSuccess → s.authenticated = some 0 ∧
    s.accounted = some 0 ∧ s.cancelled = false ∧ s.worker = .exited ∧
    s.toGuest.taken = s.toGuest.sent.length ∧ s.shown = s.asked.map PamMessage.seen ∧
    s.answered.length = s.asked.length

theorem inv_initial : Inv {} where
  toGuest := Channel.faithful_empty
  toWorker := Channel.faithful_empty
  closed := rfl
  relayed := rfl
  results i payload h := by simp at h
  answers i packet h := by simp at h
  shown := List.prefix_rfl
  reading _ := ⟨rfl, rfl, rfl, rfl⟩
  answered := Nat.le_refl _
  work := ⟨fun _ => ⟨rfl, rfl⟩, nofun, nofun, by rintro c (h | h) <;> cases h⟩
  calls c h := by cases h
  success h := by cases h

section

variable {s : Exchange}

theorem guestAlive_iff : s.guestAlive = true ↔ s.toGuest.closed = false ∧ s.Running := by
  rw [guestAlive, Running]
  cases s.toGuest.closed <;> cases s.module <;> simp [Module.hasReturned]

theorem Call.mono {asked asked' : List PamMessage} {answered answered' : List CString}
    {c : Conversation} {count : Nat} (h : Call asked answered c count)
    (hasked : asked <+: asked') (hanswered : answered <+: answered') :
    Call asked' answered' c count where
  le := h.le
  messages i message hi hmessage := by
    obtain ⟨more, hmore⟩ := hasked
    have hold := h.messages i message hi hmessage
    rw [← hmore, List.getElem?_append_left (List.getElem?_eq_some_iff.mp hold).1]
    exact hold
  values i value hvalue := by
    obtain ⟨more, hmore⟩ := hanswered
    obtain ⟨answer, hold, heq⟩ := h.values i value hvalue
    refine ⟨answer, ?_, heq⟩
    rw [← hmore, List.getElem?_append_left (List.getElem?_eq_some_iff.mp hold).1]
    exact hold

theorem AtWork.mono {s' : Exchange} (h : s.AtWork) (hworker : s'.worker = s.worker)
    (hasked : s'.asked = s.asked) (hanswered : s.answered <+: s'.answered)
    (htaken : s'.toWorker.taken = s.toWorker.taken)
    (halive : s'.guestAlive = true → s.guestAlive = true)
    (hauthenticated : s'.authenticated = s.authenticated) : s'.AtWork where
  idle hidle := by
    rw [hasked, htaken]
    exact h.idle (hworker ▸ hidle)
  stack phase hphase hguest := by
    rw [hasked, htaken]
    exact h.stack phase (hworker ▸ hphase) (halive hguest)
  waiting phase c hc := by
    obtain ⟨hlength, hcount, hcall⟩ := h.waiting phase c (hworker ▸ hc)
    rw [hasked, htaken]
    exact ⟨hlength, hcount, hcall.mono List.prefix_rfl hanswered⟩
  phase c hc := by
    rw [hauthenticated]
    exact h.phase c (hworker ▸ hc)

/-- Until the worker has ended, no result was sent. -/
theorem Inv.no_result (h : Inv s) (hexit : s.worker ≠ .exited) (i : Nat) (payload : Payload) :
    s.toGuest.sent[i]? ≠ some (.frame result payload) :=
  fun hi => hexit (h.results i payload hi).2.1

theorem Inv.not_success (h : Inv s) (hexit : s.worker ≠ .exited) :
    s.module ≠ .returned pamSuccess :=
  fun hmodule => hexit (h.success hmodule).2.2.2.1

/-! ## Steps of the worker -/

theorem Inv.rework (h : Inv s) (hexit : s.worker ≠ .exited) {worker : Worker}
    {authenticated accounted : Option Int32}
    (hwork : AtWork { s with worker, authenticated, accounted }) :
    Inv { s with worker, authenticated, accounted } :=
  { h with
    results := fun i payload hi => absurd hi (h.no_result hexit i payload)
    work := hwork
    success := fun hmodule => absurd hmodule (h.not_success hexit) }

theorem Inv.send (h : Inv s) (halive : s.guestAlive = true) (hexit : s.worker ≠ .exited)
    (packet : Packet) (extra : List PamMessage) (worker : Worker)
    (hshows : (shows packet).toList = extra.map PamMessage.seen)
    (hresult : ∀ payload, packet = .frame result payload → worker = .exited ∧ s.Final payload)
    (hwork : AtWork
      { s with toGuest := s.toGuest.send packet, worker, asked := s.asked ++ extra }) :
    Inv { s with toGuest := s.toGuest.send packet, worker, asked := s.asked ++ extra } := by
  obtain ⟨hopen, hrunning⟩ := guestAlive_iff.mp halive
  have hwhole := h.toGuest.whole hopen
  exact { h with
    toGuest := h.toGuest.send hopen packet
    relayed := by
      rw [Channel.send, List.filterMap_append, h.relayed, List.map_append, ← hshows]
      cases hpacket : shows packet <;> simp [hpacket]
    results := by
      intro i payload hi
      simp only [Channel.send] at hi ⊢
      rcases Nat.lt_trichotomy i s.toGuest.sent.length with hlt | heq | hgt
      · rw [List.getElem?_append_left hlt] at hi
        exact absurd hi (h.no_result hexit i payload)
      · rw [heq, List.getElem?_concat_length] at hi
        obtain ⟨hworker, hfinal⟩ := hresult payload (Option.some.inj hi)
        exact ⟨by simp [heq], hworker, hfinal⟩
      · rw [List.getElem?_eq_none (by simp; omega)] at hi
        cases hi
    shown := by
      rw [List.map_append]
      exact h.shown.trans (List.prefix_append _ _)
    reading := by
      intro hrun
      obtain ⟨hshown, hrest⟩ := h.reading hrunning
      refine ⟨?_, hrest⟩
      simp only [Channel.send]
      rw [List.take_append_of_le_length (by omega)]
      exact hshown
    work := hwork
    calls := fun c hc =>
      ⟨(h.calls c hc).1, (h.calls c hc).2.mono (List.prefix_append _ _) List.prefix_rfl⟩
    success := fun hmodule => absurd hmodule (hrunning pamSuccess) }

theorem Inv.finish (h : Inv s) (hexit : s.worker ≠ .exited) {value : Int32}
    (hvalue : value = pamSuccess → s.authenticated = some 0 ∧ s.accounted = some 0) :
    Inv (s.finish value) := by
  rw [Exchange.finish, sendToGuest]
  have hwork : ∀ s' : Exchange, s'.worker = .exited → AtWork s' := by
    intro s' hs'
    constructor <;> simp [hs']
  split
  · next halive =>
      have hsent := h.send halive hexit
        (.frame result ⟨htonl value.toUInt32, htonl_le _⟩) [] .exited rfl
        (fun payload hpayload => ⟨rfl, value, ?_, hvalue⟩) (hwork _ rfl)
      · rw [List.append_nil] at hsent
        exact hsent
      · injection hpayload with _ hpayload
        rw [← hpayload]
  · exact h.rework hexit (hwork _ rfl)

theorem Inv.ask (h : Inv s) {phase : Phase} (hworker : s.worker = .stack phase)
    {c : Conversation} (hcount : c.first + c.values.length = s.asked.length)
    (hcall : Call s.asked s.answered c c.values.length) : Inv (s.ask phase c) := by
  have hexit : s.worker ≠ .exited := by rw [hworker]; nofun
  have hsame : { s with worker := .stack phase } = s := by rw [← hworker]
  rw [Exchange.ask]
  split
  · next hend =>
      have hlength : c.values.length = c.messages.length :=
        Nat.le_antisymm hcall.le (List.getElem?_eq_none_iff.mp hend)
      rw [hlength] at hcall
      rw [← hworker]
      exact { h with
        work := { h.work with }
        calls := by
          intro call hmem
          rcases List.mem_cons.mp hmem with rfl | hmem
          · exact ⟨hlength, hcall⟩
          · exact h.calls call hmem }
  · next message hmessage =>
      split
      · rw [hsame]
        exact h
      · next payload hpayload =>
          split
          · next halive =>
              refine h.send halive hexit _ [message] _ ?_ ?_ ?_
              · rw [shows_message hpayload]
                rfl
              · intro payload' hresult
                injection hresult with htype
                cases htype
              · constructor
                · nofun
                · nofun
                · rintro phase' c' ⟨rfl, rfl⟩
                  have htaken := h.work.stack phase hworker halive
                  refine ⟨by simp [htaken], by simp only; omega, ?_, ?_, ?_⟩
                  · exact (List.getElem?_eq_some_iff.mp hmessage).1
                  · intro i other hi hother
                    rcases Nat.lt_or_ge i c.values.length with hlt | hge
                    · exact (hcall.mono (List.prefix_append s.asked [message])
                        List.prefix_rfl).messages i other hlt hother
                    · obtain rfl : i = c.values.length := by omega
                      rw [hmessage] at hother
                      simp only [hcount, List.getElem?_concat_length, hother]
                  · exact hcall.values
                · intro c' hc
                  refine h.work.phase c' ?_
                  rcases hc with hc | hc
                  · cases hc
                  · injection hc with hc
                    exact .inl (hc ▸ hworker)
          · rw [hsame]
            exact h

theorem Inv.converse (h : Inv s) (messages : List PamMessage) : Inv (s.converse messages) := by
  rw [Exchange.converse]
  split
  · next phase hworker =>
      split
      · exact h
      · refine h.ask hworker rfl ⟨Nat.zero_le _, ?_, ?_⟩
        · intro i message hi
          cases hi
        · intro i value hi
          simp at hi
  · exact h

/-- The worker gives up a call, having read a packet or the end of the stream. -/
theorem Inv.abandon (h : Inv s) {phase : Phase} {c : Conversation}
    (hworker : s.worker = .conversing phase c) {toWorker : Channel Packet}
    (hfaithful : toWorker.Faithful FaultToWorker) (hsent : toWorker.sent = s.toWorker.sent)
    (hclosed : toWorker.closed = s.toWorker.closed)
    (htaken : s.guestAlive = true → toWorker.taken = s.asked.length) :
    Inv { s with toWorker, worker := .stack phase } := by
  have hexit : s.worker ≠ .exited := by rw [hworker]; nofun
  exact { h with
    toWorker := hfaithful
    closed := h.closed.trans hclosed.symm
    results := fun i payload hi => absurd hi (h.no_result hexit i payload)
    answers := by
      intro i packet hi
      rw [hsent] at hi
      exact h.answers i packet hi
    reading := by
      intro hrun
      obtain ⟨hshown, hlength, hreplied, hcancelled⟩ := h.reading hrun
      exact ⟨hshown, hlength, by rw [hsent, hreplied], hcancelled⟩
    work := {
      idle := nofun
      stack := fun _ _ halive => htaken halive
      waiting := nofun
      phase := by
        intro c' hc
        refine h.work.phase c ?_
        rcases hc with hc | hc
        · injection hc with hc
          exact .inr (hc ▸ hworker)
        · cases hc }
    success := fun hmodule => absurd hmodule (h.not_success hexit) }

theorem Inv.workerReceive (h : Inv s) : Inv s.workerReceive := by
  rw [Exchange.workerReceive.eq_def]
  split
  · next phase c hworker =>
      obtain ⟨htaken, hcount, hcall⟩ := h.work.waiting phase c hworker
      split
      · split
        · next hflight hend =>
            refine h.abandon hworker h.toWorker rfl rfl fun halive => ?_
            obtain ⟨hopen, hrun⟩ := guestAlive_iff.mp halive
            rw [h.closed] at hopen
            rw [hopen] at hend
            cases hmodule : s.module with
            | returned value => exact absurd hmodule (hrun value)
            | receiving => simp [hmodule, Module.hasReturned] at hend
            | conversing => simp [hmodule, Module.hasReturned] at hend
        · exact h
      · next packet rest hflight =>
          have hread := h.toWorker.read (by rw [hflight]; nofun)
          have hstack : Inv { s with toWorker := s.toWorker.read, worker := .stack phase } :=
            h.abandon hworker hread rfl rfl fun _ => htaken
          dsimp only
          split
          · exact hstack
          · next frame hreceived =>
              split
              · exact hstack
              · next htype =>
                  have hgood : ¬ FaultToWorker packet := by
                    cases packet with
                    | frame type payload =>
                        obtain rfl := Option.some.inj hreceived
                        simpa [FaultToWorker, Packet.expectedByWorker,
                          SpacesFrame.ofContent] using htype
                    | malformed header => cases hreceived
                    | truncated stump => cases hreceived
                  obtain ⟨answer, hlength, hanswer, rfl⟩ :=
                    h.answers _ packet (h.toWorker.head hflight hgood) hgood
                  rw [received_pointer] at hreceived
                  obtain rfl := Option.some.inj hreceived
                  refine hstack.ask rfl (c := { c with values := c.values ++ [pointer answer] })
                    ?_ ⟨?_, ?_, ?_⟩
                  · simp only [List.length_append, List.length_singleton]
                    omega
                  · simpa using hcall.le
                  · intro i message hi
                    exact hcall.messages i message (by simpa using hi)
                  · intro i value hi
                    simp only at hi
                    rcases Nat.lt_trichotomy i c.values.length with hlt | heq | hgt
                    · rw [List.getElem?_append_left hlt] at hi
                      exact hcall.values i value hi
                    · rw [heq, List.getElem?_concat_length] at hi
                      refine ⟨answer, ?_, (Option.some.inj hi).symm⟩
                      rw [heq]
                      simp only [hcount]
                      exact hanswer
                    · rw [List.getElem?_eq_none (by simp; omega)] at hi
                      cases hi
  · exact h

/-- The first frame to the guest, or none when the guest is gone. -/
theorem Inv.opening (h : Inv s) (hexit : s.worker ≠ .exited) {type : UInt8} {payload : Payload}
    {worker : Worker} (hmessage : type ≠ pamMessage) (hresult : type ≠ result)
    (hwork : ∀ toGuest : Channel Packet, toGuest.closed = s.toGuest.closed →
      AtWork { s with toGuest, worker }) :
    Inv { s.sendToGuest type payload with worker } := by
  rw [sendToGuest]
  split
  · next halive =>
      have hsent := h.send halive hexit (.frame type payload) [] worker
        (by simp [shows, hmessage])
        (fun payload' hpayload => absurd (by injection hpayload) hresult)
        (by rw [List.append_nil]; exact hwork _ rfl)
      rw [List.append_nil] at hsent
      exact hsent
  · exact h.rework hexit (hwork _ rfl)

theorem Inv.start (h : Inv s) (value : Int32) : Inv (s.start value) := by
  rw [Exchange.start]
  split
  · next hworker =>
      have hexit : s.worker ≠ .exited := by rw [hworker]; nofun
      obtain ⟨hasked, htaken⟩ := h.work.idle hworker
      split
      · refine h.opening hexit (by decide) (by decide) fun toGuest hclosed => ?_
        constructor
        · nofun
        · intro phase hphase halive
          simp only [hasked, htaken, List.length_nil]
        · nofun
        · rintro c (hc | hc) <;> cases hc
      · next hvalue => exact h.finish hexit fun hzero => absurd hzero hvalue
  · exact h

theorem Inv.reject (h : Inv s) : Inv s.reject := by
  rw [Exchange.reject]
  split
  · next hworker =>
      refine h.opening (by rw [hworker]; nofun) (by decide) (by decide) fun toGuest hclosed => ?_
      constructor
      · nofun
      · nofun
      · nofun
      · rintro c (hc | hc) <;> cases hc
  · exact h

theorem Inv.stackReturns (h : Inv s) (value : Int32) : Inv (s.stackReturns value) := by
  rw [Exchange.stackReturns.eq_def]
  split
  · next hworker =>
      have hexit : s.worker ≠ .exited := by rw [hworker]; nofun
      have hjudged : Inv { s with authenticated := some value } := by
        refine h.rework hexit ⟨h.work.idle, h.work.stack, h.work.waiting, fun c hc => ?_⟩
        rw [hworker] at hc
        rcases hc with hc | hc <;> cases hc
      dsimp only
      split
      · next hvalue =>
          refine hjudged.rework hexit ⟨nofun, fun phase _ halive => ?_, nofun, fun c _ => ?_⟩
          · exact h.work.stack _ hworker halive
          · simp only [hvalue]
            rfl
      · next hvalue => exact hjudged.finish hexit fun hzero => absurd hzero hvalue
  · next hworker =>
      have hexit : s.worker ≠ .exited := by rw [hworker]; nofun
      have hphase := h.work.phase ⟨0, [], []⟩ (.inl hworker)
      have hjudged : Inv { s with accounted := some value } :=
        h.rework hexit { h.work with }
      exact hjudged.finish hexit fun hzero => ⟨hphase, by rw [hzero]; rfl⟩
  · exact h

/-! ## Steps of the module -/

/-- The module returns, but not with success. -/
theorem Inv.returned (h : Inv s) {toGuest toWorker : Channel Packet}
    {value : Int32} {cancelled : Bool} (hvalue : value ≠ pamSuccess)
    (hguest : toGuest.Faithful FaultToGuest) (hsent : toGuest.sent = s.toGuest.sent)
    (hworker : toWorker.Faithful FaultToWorker) (hclosed : toGuest.closed = toWorker.closed)
    (htaken : toWorker.taken = s.toWorker.taken)
    (hanswers : ∀ (i : Nat) (packet : Packet), toWorker.sent[i]? = some packet →
      ¬ FaultToWorker packet → s.toWorker.sent[i]? = some packet) :
    Inv { s with toGuest, toWorker, module := .returned value, cancelled } :=
  { h with
    toGuest := hguest
    toWorker := hworker
    closed := hclosed
    relayed := by
      simp only [hsent]
      exact h.relayed
    results := by
      intro i payload hi
      simp only [hsent] at hi ⊢
      exact h.results i payload hi
    answers := fun i packet hi hgood => h.answers i packet (hanswers i packet hi hgood) hgood
    reading := fun hrun' => absurd rfl (hrun' value)
    work := h.work.mono rfl rfl List.prefix_rfl htaken
      (fun halive => absurd rfl ((guestAlive_iff.mp halive).2 value)) rfl
    success := by
      intro hmodule
      injection hmodule with hmodule
      exact absurd hmodule hvalue }

theorem Inv.giveUp (h : Inv s) {toGuest : Channel Packet} {value : Int32}
    (hguest : toGuest.Faithful FaultToGuest) (hsent : toGuest.sent = s.toGuest.sent)
    (hclosed : toGuest.closed = s.toGuest.closed) (hvalue : value ≠ pamSuccess) :
    Inv ({ s with toGuest }.giveUp value) := by
  have hclosed' := hclosed.trans h.closed
  rw [Exchange.giveUp]
  split
  · next halive =>
      have hopen : s.toWorker.closed = false := by
        rw [workerAlive] at halive
        simp_all
      refine h.returned hvalue hguest hsent (h.toWorker.send hopen _) hclosed' rfl ?_
      intro i packet hi hgood
      simp only [Channel.send] at hi
      rcases Nat.lt_trichotomy i s.toWorker.sent.length with hlt | heq | hgt
      · rwa [List.getElem?_append_left hlt] at hi
      · rw [heq, List.getElem?_concat_length] at hi
        obtain rfl := Option.some.inj hi
        exact absurd rfl hgood
      · rw [List.getElem?_eq_none (by simp; omega)] at hi
        cases hi
  · exact h.returned hvalue hguest hsent h.toWorker hclosed' rfl fun i packet hi _ => hi

/-- The module reads a frame that was sent. -/
theorem Inv.take (h : Inv s) {packet : Packet} {rest : List Packet}
    (hflight : s.toGuest.flight = packet :: rest) (hgood : ¬ FaultToGuest packet) :
    s.toGuest.sent[s.toGuest.taken]? = some packet ∧
      (s.toGuest.sent.take (s.toGuest.taken + 1)).filterMap shows =
        (s.toGuest.sent.take s.toGuest.taken).filterMap shows ++ (shows packet).toList := by
  have hhead := h.toGuest.head hflight hgood
  refine ⟨hhead, ?_⟩
  rw [List.take_add_one, hhead, List.filterMap_append]
  cases hshows : shows packet <;> simp [hshows]

theorem content_payload (type : UInt8) (payload : Bytes) :
    (SpacesFrame.ofContent (type, payload)).payload.getD [] = payload := by
  rw [SpacesFrame.ofContent]
  split
  · next hnil => exact hnil.symm
  · rfl

theorem content_size (type : UInt8) (payload : Payload) :
    (SpacesFrame.ofContent (type, payload.val)).size.toNat = payload.val.length := by
  have hmax := payload.property
  have : maxPayload < 2 ^ 32 := by decide
  simp only [SpacesFrame.ofContent, UInt32.toNat_ofNat']
  omega

theorem Inv.moduleFrame (h : Inv s) (hmodule : s.module = .receiving) {type : UInt8}
    {payload : Payload} {rest : List Packet}
    (hflight : s.toGuest.flight = .frame type payload :: rest) :
    Inv ({ s with toGuest := s.toGuest.read }.moduleFrame
      (.ofContent (type, payload.val))) := by
  have hrun : s.Running := by
    intro value
    rw [hmodule]
    nofun
  have hread := h.toGuest.read (by rw [hflight]; nofun)
  have hfails : ∀ {value : Int32}, value ≠ pamSuccess → Inv
      { s with toGuest := s.toGuest.read, module := .returned value } := fun hvalue =>
    h.returned hvalue hread rfl h.toWorker h.closed rfl fun i packet hi _ => hi
  have hsize := content_size type payload
  obtain ⟨hshown, hlength, hreplied, hcancelled⟩ := h.reading hrun
  rw [hmodule, if_neg nofun, Nat.add_zero] at hlength
  -- A frame that is read as a part of the exchange was sent as one.
  have htake : Packet.expectedByGuest (.frame type payload) = true → _ := fun hexpected =>
    h.take hflight (by rw [FaultToGuest, hexpected]; nofun)
  have htype : (SpacesFrame.ofContent (type, payload.val)).type = type := rfl
  rw [Exchange.moduleFrame]
  simp only [content_payload, htype]
  have hmono : ∀ {module : Module} {shown : List (Int32 × Bytes)}, AtWork
      { s with toGuest := s.toGuest.read, module, shown } := fun {module shown} =>
    h.work.mono rfl rfl List.prefix_rfl rfl
      (fun halive => guestAlive_iff.mpr ⟨(guestAlive_iff.mp halive).1, hrun⟩) rfl
  split
  · next hready =>
      subst hready
      obtain ⟨-, hnext⟩ := htake rfl
      have hsame : (s.toGuest.sent.take (s.toGuest.taken + 1)).filterMap shows = s.shown := by
        rw [hnext, ← hshown]
        exact List.append_nil _
      exact { h with
        toGuest := hread
        reading := fun _ => ⟨hsame.symm, by simp [hmodule, hlength], hreplied, hcancelled⟩
        work := hmono
        success := fun hreturned => absurd hreturned (hrun pamSuccess) }
  · split
    · next hmessage =>
        subst hmessage
        split
        · exact h.giveUp hread rfl rfl (by decide)
        · next hlong =>
            have hexpected : Packet.expectedByGuest (.frame pamMessage payload) = true := by
              rw [UInt32.lt_iff_toNat_lt, hsize] at hlong
              have : 4 ≤ payload.val.length := by simpa using hlong
              simp [Packet.expectedByGuest, this]
            obtain ⟨-, hnext⟩ := htake hexpected
            have hnext' : s.shown ++ [(readStyle payload.val, readText payload.val)] =
                (s.toGuest.sent.take (s.toGuest.taken + 1)).filterMap shows := by
              rw [hnext, ← hshown]
              rfl
            exact { h with
              toGuest := hread
              shown := by
                simp only
                rw [hnext', ← h.relayed]
                exact (List.take_prefix _ _).filterMap _
              reading := fun _ => ⟨hnext', by simp [hlength], hreplied, hcancelled⟩
              answered := by
                simp only [List.length_append, List.length_singleton]
                omega
              work := hmono
              success := nofun }
    · split
      · next hresult =>
          obtain ⟨rfl, hfour⟩ := hresult
          have hexpected : Packet.expectedByGuest (.frame result payload) = true := by
            rw [← UInt32.toNat_inj, hsize] at hfour
            have : payload.val.length = 4 := hfour
            simp [Packet.expectedByGuest, this]
          obtain ⟨hsent, hnext⟩ := htake hexpected
          obtain ⟨hlast, hexited, value, hvalue, hsuccess⟩ := h.results _ payload hsent
          have hall : s.shown = s.asked.map PamMessage.seen := by
            rw [hlast, List.take_length, h.relayed, ← hshown] at hnext
            exact ((List.append_nil _).symm.trans hnext.symm)
          have hword : (ntohl payload.val).toInt32 = value := by
            rw [hvalue, ntohl_htonl]
            rfl
          rw [hword]
          exact { h with
            toGuest := hread
            reading := fun hrun' => absurd rfl (hrun' value)
            work := hmono
            success := by
              intro hreturned
              injection hreturned with hzero
              obtain ⟨hauthenticated, haccounted⟩ := hsuccess hzero
              refine ⟨hauthenticated, haccounted, hcancelled, hexited, hlast, hall, ?_⟩
              simp only [hlength, hall, List.length_map] }
      · refine hfails ?_
        split <;> decide

theorem Inv.moduleReceive (h : Inv s) : Inv s.moduleReceive := by
  rw [Exchange.moduleReceive.eq_def]
  split
  · next hmodule =>
      split
      · split
        · exact h.returned (by decide) h.toGuest rfl h.toWorker h.closed rfl
            fun i packet hi _ => hi
        · exact h
      · next packet rest hflight =>
          have hread := h.toGuest.read (by rw [hflight]; nofun)
          dsimp only
          split
          · exact h.returned (by decide) hread rfl h.toWorker h.closed rfl
              fun i packet hi _ => hi
          · next frame hreceived =>
              cases packet with
              | malformed header => cases hreceived
              | truncated stump => cases hreceived
              | frame type payload =>
                  obtain rfl := Option.some.inj hreceived
                  exact h.moduleFrame hmodule hflight
  · exact h

theorem Inv.guest (h : Inv s) (conversation : Guest) : Inv (s.guest conversation) := by
  have hgiveUp : ∀ {value : Int32}, value ≠ pamSuccess → Inv (s.giveUp value) := fun hvalue =>
    h.giveUp h.toGuest rfl rfl hvalue
  rw [Exchange.guest.eq_def]
  split
  · next hmodule =>
      have hrun : s.Running := by
        intro value
        rw [hmodule]
        nofun
      split
      · exact hgiveUp (by decide)
      · next value response =>
          split
          · next hvalue => exact hgiveUp hvalue
          · dsimp only
            split
            · next hlength =>
                split
                · next halive =>
                    have hopen : s.toWorker.closed = false := by
                      rw [workerAlive] at halive
                      simp_all
                    obtain ⟨hshown, hcount, hreplied, hcancelled⟩ := h.reading hrun
                    rw [hmodule, if_pos rfl] at hcount
                    exact { h with
                      toWorker := h.toWorker.send hopen _
                      closed := h.closed
                      answers := by
                        intro i packet hi hgood
                        simp only [Channel.send] at hi
                        rcases Nat.lt_trichotomy i s.toWorker.sent.length with hlt | heq | hgt
                        · rw [List.getElem?_append_left hlt] at hi
                          obtain ⟨answer, hmax, hanswer, hpacket⟩ := h.answers i packet hi hgood
                          refine ⟨answer, hmax, ?_, hpacket⟩
                          rw [List.getElem?_append_left (by omega)]
                          exact hanswer
                        · rw [heq, List.getElem?_concat_length] at hi
                          refine ⟨_, hlength, ?_, (Option.some.inj hi).symm⟩
                          rw [heq, hreplied, List.getElem?_concat_length]
                        · rw [List.getElem?_eq_none (by simp; omega)] at hi
                          cases hi
                      reading := fun _ => ⟨hshown, by simp [hcount],
                        by simp [Channel.send, hreplied], hcancelled⟩
                      answered := by
                        simp only [List.length_append, List.length_singleton]
                        omega
                      work := h.work.mono rfl rfl (List.prefix_append _ _) rfl
                        (fun hguest => guestAlive_iff.mpr ⟨(guestAlive_iff.mp hguest).1, hrun⟩)
                        rfl
                      calls := fun c hc => ⟨(h.calls c hc).1,
                        (h.calls c hc).2.mono List.prefix_rfl (List.prefix_append _ _)⟩
                      success := nofun }
                · exact hgiveUp (by decide)
            · exact hgiveUp (by decide)
  · exact h

/-! ## Faults -/

theorem Inv.disconnect (h : Inv s) (keepGuest keepWorker : Nat) (stump : Stump) :
    Inv (s.next (.disconnect keepGuest keepWorker stump)) :=
  { h with
    toGuest := h.toGuest.cut keepGuest rfl
    toWorker := h.toWorker.cut keepWorker rfl
    closed := rfl
    work := h.work.mono rfl rfl List.prefix_rfl rfl
      (fun halive => by cases (guestAlive_iff.mp halive).1) rfl }

theorem Inv.alterToGuest (h : Inv s) (index : Nat) (packet : Packet) :
    Inv (s.next (.alterToGuest index packet)) := by
  rw [next]
  split
  · exact h
  · next hexpected =>
      exact { h with
        toGuest := h.toGuest.alter index (by simpa [FaultToGuest] using hexpected)
        work := h.work.mono rfl rfl List.prefix_rfl rfl (fun halive => halive) rfl }

theorem Inv.alterToWorker (h : Inv s) (index : Nat) (packet : Packet) :
    Inv (s.next (.alterToWorker index packet)) := by
  rw [next]
  split
  · exact h
  · next hexpected =>
      exact { h with
        toWorker := h.toWorker.alter index (by simpa [FaultToWorker] using hexpected)
        work := h.work.mono rfl rfl List.prefix_rfl rfl (fun halive => halive) rfl }

theorem Inv.next (h : Inv s) (input : Input) : Inv (s.next input) := by
  cases input with
  | start value => exact h.start value
  | reject => exact h.reject
  | converse messages => exact h.converse messages
  | workerReceive => exact h.workerReceive
  | stackReturns value => exact h.stackReturns value
  | moduleReceive => exact h.moduleReceive
  | guest conversation => exact h.guest conversation
  | disconnect keepGuest keepWorker stump => exact h.disconnect keepGuest keepWorker stump
  | alterToGuest index packet => exact h.alterToGuest index packet
  | alterToWorker index packet => exact h.alterToWorker index packet

/-! ## Answers that are not empty -/

/-- The guest's conversation does not answer with the empty string. Without a
response, the answer is empty. -/
def NonEmpty (s : Exchange) : Input → Prop
  | .guest (some (value, response)) => s.module = .conversing → value = pamSuccess →
      (response.getD emptyString).bytes ≠ []
  | _ => True

@[simp] theorem sendToGuest_answered (type : UInt8) (payload : Payload) :
    (s.sendToGuest type payload).answered = s.answered := by
  rw [sendToGuest]
  split <;> rfl

@[simp] theorem finish_answered (value : Int32) : (s.finish value).answered = s.answered :=
  sendToGuest_answered _ _

@[simp] theorem ask_answered (phase : Phase) (c : Conversation) :
    (s.ask phase c).answered = s.answered := by
  rw [ask]
  split
  · rfl
  · split
    · rfl
    · split <;> rfl

@[simp] theorem moduleFrame_answered (frame : SpacesFrame) :
    (s.moduleFrame frame).answered = s.answered := by
  simp only [moduleFrame, giveUp]
  split
  · rfl
  · split
    · split <;> rfl
    · split <;> rfl

theorem next_answered {input : Input} (hok : s.NonEmpty input) :
    ∀ answer ∈ (s.next input).answered, answer ∈ s.answered ∨ answer.bytes ≠ [] := by
  intro answer hanswer
  cases input with
  | guest conversation =>
      rw [next, Exchange.guest.eq_def] at hanswer
      split at hanswer
      · next hmodule =>
          split at hanswer
          · exact .inl hanswer
          · next value response =>
              split at hanswer
              · exact .inl hanswer
              · next hvalue =>
                  have hne := hok hmodule (by simpa using hvalue)
                  dsimp only at hanswer
                  split at hanswer
                  · split at hanswer
                    · rcases List.mem_append.mp hanswer with hold | hnew
                      · exact .inl hold
                      · rw [List.mem_singleton.mp hnew]
                        exact .inr hne
                    · exact .inl hanswer
                  · exact .inl hanswer
      · exact .inl hanswer
  | start value =>
      simp only [next, Exchange.start] at hanswer
      split at hanswer
      · split at hanswer <;> exact .inl (by simpa using hanswer)
      · exact .inl hanswer
  | reject =>
      simp only [next, Exchange.reject] at hanswer
      split at hanswer <;> exact .inl (by simpa using hanswer)
  | converse messages =>
      simp only [next, Exchange.converse] at hanswer
      split at hanswer
      · split at hanswer <;> exact .inl (by simpa using hanswer)
      · exact .inl hanswer
  | workerReceive =>
      simp only [next, Exchange.workerReceive] at hanswer
      split at hanswer
      · split at hanswer
        · split at hanswer <;> exact .inl hanswer
        · split at hanswer
          · exact .inl hanswer
          · split at hanswer <;> exact .inl (by simpa using hanswer)
      · exact .inl hanswer
  | stackReturns value =>
      simp only [next, Exchange.stackReturns] at hanswer
      split at hanswer
      · split at hanswer <;> exact .inl (by simpa using hanswer)
      · exact .inl (by simpa using hanswer)
      · exact .inl hanswer
  | moduleReceive =>
      simp only [next, Exchange.moduleReceive] at hanswer
      split at hanswer
      · split at hanswer
        · split at hanswer <;> exact .inl hanswer
        · split at hanswer <;> exact .inl (by simpa using hanswer)
      · exact .inl hanswer
  | disconnect keepGuest keepWorker stump => exact .inl hanswer
  | alterToGuest index packet =>
      simp only [next] at hanswer
      split at hanswer <;> exact .inl hanswer
  | alterToWorker index packet =>
      simp only [next] at hanswer
      split at hanswer <;> exact .inl hanswer

end

/-! ## The exchange as a whole -/

/-- Messages are counted as they are relayed; one that is too long for a frame
fails its call on the host and is not. -/
structure Relayed (s : Exchange) : Prop where
  /-- A call of the host's conversation that succeeds has for each of its messages
  the guest's answer to that message, as a string. -/
  answers : ∀ c ∈ s.results, c.values.length = c.messages.length ∧
    ∀ (i : Nat) (message : PamMessage) (value : Option Bytes),
      c.messages[i]? = some message → c.values[i]? = some value → ∃ answer : CString,
        s.asked[c.first + i]? = some message ∧
        s.shown[c.first + i]? = some message.seen ∧
        s.answered[c.first + i]? = some answer ∧ value = some answer.bytes
  /-- The guest's conversation sees the messages as they are, in order. -/
  seen : s.shown <+: s.asked.map PamMessage.seen
  verdict : s.module = .returned pamSuccess →
    s.authenticated = some pamSuccess ∧ s.accounted = some pamSuccess
  /-- Success means that the worker ended, and that nothing it sent was lost,
  altered or cancelled. -/
  uncut : s.module = .returned pamSuccess → s.cancelled = false ∧ s.worker = .exited ∧
    s.toGuest.taken = s.toGuest.sent.length ∧ s.shown = s.asked.map PamMessage.seen ∧
    s.answered.length = s.asked.length

theorem Inv.relayedWhole {s : Exchange} (h : Inv s)
    (hnonempty : ∀ answer ∈ s.answered, answer.bytes ≠ []) : Relayed s where
  answers c hc := by
    obtain ⟨hlength, hcall⟩ := h.calls c hc
    refine ⟨hlength, fun i message value hmessage hvalue => ?_⟩
    obtain ⟨answer, hanswer, rfl⟩ := hcall.values i value hvalue
    have hasked := hcall.messages i message
      (List.getElem?_eq_some_iff.mp hmessage).1 hmessage
    have hlt : c.first + i < s.answered.length := (List.getElem?_eq_some_iff.mp hanswer).1
    have hanswered := h.answered
    obtain ⟨more, hmore⟩ := h.shown
    refine ⟨answer, hasked, ?_, hanswer, ?_⟩
    · rw [← @List.getElem?_append_left _ _ more _ (by omega), hmore, List.getElem?_map, hasked]
      rfl
    · rw [pointer, if_neg (hnonempty answer (List.mem_of_getElem? hanswer))]
  seen := h.shown
  verdict hmodule := ⟨(h.success hmodule).1, (h.success hmodule).2.1⟩
  uncut hmodule := (h.success hmodule).2.2

theorem relayed_of_nonEmpty {s : Exchange} (h : Guarded next NonEmpty {} s) : Relayed s := by
  have hall : Inv s ∧ ∀ answer ∈ s.answered, answer.bytes ≠ [] := by
    refine @Guarded.invariant _ _ _ _ _ _
      (fun s => Inv s ∧ ∀ answer ∈ s.answered, answer.bytes ≠ []) h ?_ fun t input ht hok => ?_
    · exact ⟨inv_initial, fun answer hmem => by cases hmem⟩
    refine ⟨ht.1.next input, fun answer hmem => ?_⟩
    exact (next_answered hok answer hmem).elim (ht.2 answer) id
  exact hall.1.relayedWhole hall.2

/-! ## A run -/

def samplePrompt : PamMessage := ⟨1, ⟨[0x50, 0x3a], by decide⟩⟩

/-- The stack asks one message, and the guest is about to answer. -/
def sampleStart : List Input :=
  [.start 0, .converse [samplePrompt], .moduleReceive, .moduleReceive]

def samplePrompted : Exchange := sampleStart.foldl next {}

def samplePassword : CString := ⟨[0x78], by decide⟩

/-- The answer arrives, the stack accepts it, and the module returns. -/
def sampleEnd : List Input :=
  [.guest (some (0, some samplePassword)), .workerReceive, .stackReturns 0, .stackReturns 0,
    .moduleReceive]

theorem relayed_sample : Relayed (sampleEnd.foldl next samplePrompted) := by
  have hprompted : Guarded next NonEmpty {} (sampleStart.foldl next {}) :=
    Guarded.start.foldl ⟨trivial, trivial, trivial, trivial, trivial⟩
  refine relayed_of_nonEmpty (hprompted.foldl ⟨?_, trivial, trivial, trivial, trivial, trivial⟩)
  exact fun _ _ => by decide

example : (sampleEnd.foldl next samplePrompted).module = .returned pamSuccess := by decide

/-- The guest answers with the empty string, and the stack is given `NULL`. -/
theorem empty_answer_lost : ¬ ∀ s, Reachable next {} s → Relayed s := by
  intro h
  have hrelayed := h _ (Guarded.run
    (sampleStart ++ [.guest (some (0, some emptyString)), .workerReceive]) ({} : Exchange))
  obtain ⟨-, hanswers⟩ := hrelayed.answers ⟨0, [samplePrompt], [none]⟩ (by decide)
  obtain ⟨answer, -, -, -, hvalue⟩ := hanswers 0 samplePrompt none rfl rfl
  cases hvalue

end Exchange

end Spaces.Authentication
