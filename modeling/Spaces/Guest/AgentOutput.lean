import Spaces.Library.Joined
import Spaces.Library.Occurrence
import Spaces.Library.Transfer

/-!
# Relaying what the polkit agent prints

The supervisor reads the agent's output until it ends and looks for the message by
which the agent says that it is registered. Once it has come, one byte is written to
the ready descriptor, which is closed then and not at the end.

The system calls are recorded in their order. `relayLoop_calls` is the whole story:
what is read is read in any case, and the notice stands right behind the read that
completed the message.
-/

namespace Spaces.Guest

open Spaces.Library (append_cons_of_kind)
open Spaces.Library.Occurrence
open Spaces.Library.Transfer (Sink Intact)

abbrev Byte := UInt8

/-- `ready_message`, without the zero that ends it. -/
def readyMessage : List Byte :=
  "Authentication agent result: true".toList.map fun c => UInt8.ofNat c.toNat

/-- The array of the message. -/
def readyArray : List Byte := readyMessage ++ [0]

/-- What `read` gets at once, which is not more than the buffer holds. -/
structure Chunk where
  bytes : List Byte
  nonempty : bytes ≠ []
  fits : bytes.length ≤ 4096

inductive Read where
  | moved (chunk : Chunk)
  | interrupted
  | failed

inductive Descriptor where
  | output
  | ready
  deriving DecidableEq

/-- A call that has returned. A read of no bytes is the end of the output. -/
inductive Call where
  | read (bytes : List Byte)
  | interrupted
  | failed
  | notified (written : Bool)
  | close (descriptor : Descriptor)
  deriving DecidableEq

structure State where
  matched : Nat := 0
  reported : Bool := false
  readyOpen : Bool := true
  sink : Sink Byte
  calls : List Call := []

namespace State

def call (s : State) (call : Call) : State := { s with calls := s.calls ++ [call] }

end State

/-- `write_ready_notification`: whether the byte was written. -/
def writeReadyNotification (sink : Sink Byte) : Bool × Sink Byte :=
  match _h : sink.write [1] with
  | (.moved part, sink') => (part.length = 1, sink')
  | (.interrupted, sink') => writeReadyNotification sink'
  | (.failed, sink') => (false, sink')
termination_by sink.shares.length
decreasing_by
  obtain ⟨shares, hshares, rfl⟩ := Sink.write_interrupted _h
  rw [hshares]
  exact Nat.lt_succ_self _

/-- What is done when the last byte of the message has been seen. -/
def State.report (s : State) (matched : Nat) : State :=
  let (written, sink) := writeReadyNotification s.sink
  { matched, reported := true, readyOpen := false, sink,
    calls := s.calls ++ [.notified written, .close .ready] }

/-- The loop over the buffer. It says `none` where the message is read behind its end. -/
def scan (s : State) : List Byte → Option State
  | [] => some s
  | byte :: rest =>
      if s.reported then some s
      else do
        let expected ← readyArray[s.matched]?
        if byte = expected then
          let next ← readyArray[s.matched + 1]?
          if next = 0 then scan (s.report (s.matched + 1)) rest
          else scan { s with matched := s.matched + 1 } rest
        else
          let first ← readyArray[0]?
          scan { s with matched := if byte = first then 1 else 0 } rest

def relayLoop (s : State) : List Read → Option State
  | [] => some (s.call (.read []))
  | .moved chunk :: reads => do
      let s ← scan (s.call (.read chunk.bytes)) chunk.bytes
      relayLoop s reads
  | .interrupted :: reads => relayLoop (s.call .interrupted) reads
  | .failed :: _ => some (s.call .failed)

/-- `relay_agent_output`, for what the calls of `read` and `write` will do. -/
def relayAgentOutput (sink : Sink Byte) (reads : List Read) : Option State := do
  let s ← relayLoop { sink } reads
  let s := s.call (.close .output)
  return if s.readyOpen then { s.call (.close .ready) with readyOpen := false } else s

/-! ## The message -/

theorem readyMessage_headed : Headed readyMessage := by
  unfold Headed readyMessage
  simp only [String.reduceToList]
  decide

theorem zero_not_mem_readyMessage : (0 : Byte) ∉ readyMessage := by
  unfold readyMessage
  simp only [String.reduceToList]
  decide

theorem one_lt_readyMessage_length : 1 < readyMessage.length := by
  unfold readyMessage
  simp only [List.length_map, String.reduceToList]
  decide

theorem readyMessage_pos : 0 < readyMessage.length :=
  Nat.lt_trans Nat.zero_lt_one one_lt_readyMessage_length

/-- Up to its end the array is the message. -/
theorem readyArray_lt {k : Nat} (h : k < readyMessage.length) :
    readyArray[k]? = some readyMessage[k] := by
  rw [readyArray, List.getElem?_append_left h, List.getElem?_eq_getElem h]

/-- Only the end of it is zero. -/
theorem readyArray_eq_zero_iff {k : Nat} (h : k ≤ readyMessage.length) :
    ∃ next, readyArray[k]? = some next ∧ (next = 0 ↔ k = readyMessage.length) := by
  rcases Nat.lt_or_eq_of_le h with hlt | rfl
  · refine ⟨readyMessage[k], readyArray_lt hlt, fun hzero => ?_, fun heq => absurd heq hlt.ne⟩
    exact absurd (hzero ▸ List.getElem_mem hlt) zero_not_mem_readyMessage
  · exact ⟨0, by simp [readyArray], by simp⟩

/-! ## Scanning a chunk -/

/-- What has been seen so far does not have the message, and the counter says how
much of it has just been seen. -/
structure Looking (seen : List Byte) (s : State) : Prop where
  reported : s.reported = false
  lt : s.matched < readyMessage.length
  tracks : Tracks readyMessage seen s.matched
  absent : ¬ readyMessage <:+: seen

theorem scan_reported {s : State} (h : s.reported = true) (bytes : List Byte) :
    scan s bytes = some s := by
  cases bytes with
  | nil => rfl
  | cons byte rest => rw [scan, if_pos h]

/-- One byte: it completes the message, or the search goes on. -/
theorem scan_cons {s : State} {seen : List Byte} (h : Looking seen s) (byte : Byte)
    (rest : List Byte) :
    (readyMessage <:+: seen ++ [byte]
      ∧ scan s (byte :: rest) = some (s.report readyMessage.length)) ∨
    ∃ matched, Looking (seen ++ [byte]) { s with matched }
      ∧ scan s (byte :: rest) = scan { s with matched } rest := by
  obtain ⟨next, hnext, hzero⟩ := readyArray_eq_zero_iff h.lt
  have habsent : ∀ matched, Tracks readyMessage (seen ++ [byte]) matched →
      matched < readyMessage.length → ¬ readyMessage <:+: seen ++ [byte] := by
    intro matched htracks hlt hfound
    rcases infix_concat_iff.mp hfound with hold | hsuffix
    · exact h.absent hold
    · exact hlt.ne ((htracks.suffix_iff readyMessage_pos).mp hsuffix)
  rw [scan, if_neg (by simp [h.reported]), readyArray_lt h.lt]
  simp only [Option.bind_eq_bind, Option.bind_some]
  have hmatched := h.lt
  by_cases hbyte : byte = readyMessage[s.matched]
  · have htracks := h.tracks.next readyMessage_headed h.lt hbyte.symm
    rw [if_pos hbyte, hnext, Option.bind_some]
    by_cases hend : next = 0
    · rw [if_pos hend, show s.matched + 1 = readyMessage.length from hzero.mp hend]
      refine .inl ⟨?_, scan_reported rfl rest⟩
      have hsuffix := (htracks.suffix_iff readyMessage_pos).mpr (hzero.mp hend)
      exact infix_concat_iff.mpr (.inr hsuffix)
    · have hlt := Nat.lt_of_le_of_ne h.lt (mt hzero.mpr hend)
      rw [if_neg hend]
      exact .inr ⟨s.matched + 1, ⟨h.reported, hlt, htracks, habsent _ htracks hlt⟩, rfl⟩
  · have htracks := h.tracks.restart h.lt (Ne.symm hbyte)
    have hlt : (if byte = readyMessage.get ⟨0, readyMessage_pos⟩ then 1 else 0)
        < readyMessage.length := by
      split
      · exact one_lt_readyMessage_length
      · exact readyMessage_pos
    rw [if_neg hbyte, readyArray_lt readyMessage_pos, Option.bind_some]
    refine .inr ⟨if byte = readyMessage.get ⟨0, readyMessage_pos⟩ then 1 else 0, ?_, rfl⟩
    exact ⟨h.reported, hlt, htracks, habsent _ htracks hlt⟩

/-- A chunk, to its end. -/
theorem scan_chunk {s : State} {seen : List Byte} (h : Looking seen s) (bytes : List Byte) :
    (readyMessage <:+: seen ++ bytes ∧ scan s bytes = some (s.report readyMessage.length)) ∨
      ∃ matched, Looking (seen ++ bytes) { s with matched }
        ∧ scan s bytes = some { s with matched } := by
  induction bytes generalizing s seen with
  | nil => exact .inr ⟨s.matched, by rwa [List.append_nil], rfl⟩
  | cons byte rest ih =>
      rw [List.append_cons]
      rcases scan_cons h byte rest with ⟨hfound, hscan⟩ | ⟨matched, hlooking, hscan⟩
      · exact .inl ⟨hfound.trans (List.prefix_append _ rest).isInfix, hscan⟩
      · rw [hscan]
        rcases ih hlooking with ⟨hfound, hrest⟩ | ⟨later, hlater, hrest⟩
        · exact .inl ⟨hfound, hrest⟩
        · exact .inr ⟨later, hlater, hrest⟩

/-! ## The whole output -/

/-- The reads as they are made: up to the end of the output, or to one that fails. -/
def readCalls : List Read → List Call
  | [] => [.read []]
  | .moved chunk :: reads => .read chunk.bytes :: readCalls reads
  | .interrupted :: reads => .interrupted :: readCalls reads
  | .failed :: _ => [.failed]

def Call.taken : Call → List Byte
  | .read bytes => bytes
  | _ => []

/-- All that was read. -/
def taken (calls : List Call) : List Byte := calls.flatMap Call.taken

/-- The output of the agent, as far as it can be read. -/
def output : List Read → List Byte
  | [] => []
  | .moved chunk :: reads => chunk.bytes ++ output reads
  | .interrupted :: reads => output reads
  | .failed :: _ => []

def Read.bytes : Read → List Byte
  | .moved chunk => chunk.bytes
  | _ => []

/-- If no read fails, it is all that the agent has written. -/
theorem readCalls_complete {reads : List Read} (h : ∀ read ∈ reads, read ≠ .failed) :
    output reads = reads.flatMap Read.bytes ∧ (readCalls reads).getLast? = some (.read []) := by
  induction reads with
  | nil => exact ⟨rfl, rfl⟩
  | cons read reads ih =>
      obtain ⟨houtput, hlast⟩ := ih fun read hmem => h read (List.mem_cons_of_mem _ hmem)
      cases read with
      | moved chunk =>
          rw [output, readCalls, houtput, List.getLast?_cons, hlast]
          exact ⟨rfl, rfl⟩
      | interrupted =>
          rw [output, readCalls, houtput, List.getLast?_cons, hlast]
          exact ⟨rfl, rfl⟩
      | failed => exact absurd rfl (h .failed List.mem_cons_self)

theorem taken_readCalls (reads : List Read) : taken (readCalls reads) = output reads := by
  induction reads with
  | nil => rfl
  | cons read reads ih =>
      cases read with
      | moved chunk =>
          rw [readCalls, output, ← ih]
          rfl
      | interrupted =>
          rw [readCalls, output, ← ih]
          rfl
      | failed => rfl

theorem relayLoop_reported {s : State} (h : s.reported = true) (reads : List Read) :
    relayLoop s reads = some { s with calls := s.calls ++ readCalls reads } := by
  induction reads generalizing s with
  | nil => rfl
  | cons read reads ih =>
      cases read with
      | moved chunk =>
          have hscan := scan_reported (s := s.call (.read chunk.bytes)) h chunk.bytes
          rw [relayLoop, hscan, Option.bind_eq_bind, Option.bind_some,
            ih (s := s.call (.read chunk.bytes)) h]
          simp [State.call, readCalls]
      | interrupted =>
          rw [relayLoop, ih (s := s.call .interrupted) h]
          simp [State.call, readCalls]
      | failed => rfl

/-- What comes of reading the calls when `seen` was seen before them. Where they complete
the message, the notice stands between them. -/
def Relayed (seen : List Byte) (s : State) (calls : List Call) (result : Option State) : Prop :=
  (¬ readyMessage <:+: seen ++ taken calls ∧
    ∃ matched, result = some { s with matched, calls := s.calls ++ calls }) ∨
  ∃ before bytes after, calls = before ++ .read bytes :: after
    ∧ ¬ readyMessage <:+: seen ++ taken before
    ∧ readyMessage <:+: seen ++ taken before ++ bytes
    ∧ result = some
      { s.report readyMessage.length with
        calls := s.calls ++ before ++ .read bytes
          :: .notified (writeReadyNotification s.sink).1 :: .close .ready :: after }

/-- A call that ends the loop. -/
theorem Relayed.stop {seen : List Byte} {s : State} {call : Call} (h : Looking seen s)
    (hcall : call.taken = []) : Relayed seen s [call] (some (s.call call)) := by
  refine .inl ⟨?_, s.matched, rfl⟩
  simpa [taken, hcall] using h.absent

/-- A call after which the search goes on. -/
theorem Relayed.cons {seen : List Byte} {s : State} (matched : Nat) {call : Call}
    {calls : List Call} {result : Option State}
    (h : Relayed (seen ++ call.taken) (State.call { s with matched } call) calls result) :
    Relayed seen s (call :: calls) result := by
  have htaken : ∀ calls, taken (call :: calls) = call.taken ++ taken calls := fun _ => rfl
  rcases h with ⟨habsent, later, hresult⟩ |
    ⟨before, bytes, after, hcalls, habsent, hfound, hresult⟩
  · refine .inl ⟨?_, later, ?_⟩
    · rwa [htaken, ← List.append_assoc]
    · rw [hresult]
      simp [State.call]
  · refine .inr ⟨call :: before, bytes, after, ?_, ?_, ?_, ?_⟩
    · rw [hcalls, List.cons_append]
    · rwa [htaken, ← List.append_assoc]
    · rwa [htaken, ← List.append_assoc]
    · rw [hresult]
      simp [State.report, State.call]

theorem relayLoop_relayed {s : State} {seen : List Byte} (h : Looking seen s)
    (reads : List Read) : Relayed seen s (readCalls reads) (relayLoop s reads) := by
  induction reads generalizing s seen with
  | nil => exact .stop h rfl
  | cons read reads ih =>
      cases read with
      | moved chunk =>
          have hcalled : Looking seen (s.call (.read chunk.bytes)) := ⟨h.1, h.2, h.3, h.4⟩
          rw [relayLoop, readCalls]
          rcases scan_chunk hcalled chunk.bytes with ⟨hfound, hscan⟩ | ⟨matched, hnext, hscan⟩
          · refine .inr ⟨[], chunk.bytes, readCalls reads, rfl, ?_, ?_, ?_⟩
            · simpa [taken] using h.absent
            · simpa [taken] using hfound
            · rw [hscan, Option.bind_eq_bind, Option.bind_some, relayLoop_reported rfl]
              simp [State.report, State.call]
          · rw [hscan, Option.bind_eq_bind, Option.bind_some]
            exact .cons matched (ih hnext)
      | interrupted =>
          have hcalled : Looking seen (s.call .interrupted) := ⟨h.1, h.2, h.3, h.4⟩
          rw [relayLoop, readCalls]
          refine .cons s.matched ?_
          rw [show Call.interrupted.taken = [] from rfl, List.append_nil]
          exact ih hcalled
      | failed => exact .stop h rfl

/-! ## What is reported -/

def Call.isRead : Call → Bool
  | .read _ | .interrupted | .failed => true
  | _ => false

def Call.isNotice : Call → Bool
  | .notified _ => true
  | _ => false

theorem isRead_of_mem_readCalls {reads : List Read} {call : Call} (h : call ∈ readCalls reads) :
    call.isRead = true := by
  induction reads with
  | nil => exact List.mem_singleton.mp h ▸ rfl
  | cons read reads ih =>
      cases read with
      | moved chunk =>
          rcases List.mem_cons.mp h with rfl | hmem
          · rfl
          · exact ih hmem
      | interrupted =>
          rcases List.mem_cons.mp h with rfl | hmem
          · rfl
          · exact ih hmem
      | failed => exact List.mem_singleton.mp h ▸ rfl

/-- The byte is written unless a call fails. -/
theorem writeReadyNotification_sent (sink : Sink Byte) :
    (writeReadyNotification sink).2.sent
        = sink.sent ++ (if (writeReadyNotification sink).1 then [1] else []) ∧
      (Intact sink.shares → (writeReadyNotification sink).1 = true) := by
  fun_induction writeReadyNotification sink with
  | case1 sink part sink' h =>
      obtain ⟨hsent, hpart, -, -, hempty⟩ := Sink.write_moved h
      have hwhole : part = [1] := by
        rcases part with _ | ⟨first, rest⟩
        · cases hempty rfl
        · obtain ⟨rfl, hrest⟩ := List.cons_prefix_cons.mp hpart
          rw [List.prefix_nil.mp hrest]
      subst hwhole
      exact ⟨by simpa using hsent, fun _ => rfl⟩
  | case2 sink sink' h ih =>
      obtain ⟨shares, hshares, rfl⟩ := Sink.write_interrupted h
      exact ⟨ih.1, fun hintact => ih.2 (hshares ▸ hintact).tail⟩
  | case3 sink sink' h =>
      rw [if_neg Bool.false_ne_true, List.append_nil]
      exact ⟨Sink.write_failed_sent h, fun hintact => absurd (Sink.write_failed h) hintact⟩

/-- Among reads there is nothing else. -/
theorem filter_isRead {calls : List Call} (h : ∀ call ∈ calls, call.isRead = true) :
    calls.filter Call.isRead = calls ∧ calls.countP Call.isNotice = 0 ∧
      ∀ descriptor, calls.count (.close descriptor) = 0 := by
  refine ⟨List.filter_eq_self.mpr h, List.countP_eq_zero.mpr ?_, fun descriptor =>
    List.count_eq_zero.mpr fun hmem => ?_⟩
  · intro call hmem hnotice
    have hread := h call hmem
    cases call <;> simp_all [Call.isRead, Call.isNotice]
  · exact Bool.false_ne_true (h _ hmem)

theorem taken_append (calls calls' : List Call) :
    taken (calls ++ calls') = taken calls ++ taken calls' := List.flatMap_append

/-- All calls in their order. -/
theorem relayAgentOutput_cases (sink : Sink Byte) (reads : List Read) :
    ∃ s, relayAgentOutput sink reads = some s ∧ s.readyOpen = false ∧
      ((¬ readyMessage <:+: output reads ∧ s.sink = sink
          ∧ s.calls = readCalls reads ++ [.close .output, .close .ready]) ∨
        ∃ before bytes after, readCalls reads = before ++ .read bytes :: after
          ∧ ¬ readyMessage <:+: taken before ∧ readyMessage <:+: taken before ++ bytes
          ∧ s.sink = (writeReadyNotification sink).2
          ∧ s.calls = (before ++ [.read bytes]) ++ .notified (writeReadyNotification sink).1
              :: (.close .ready :: after ++ [.close .output])) := by
  have hlooking : Looking [] { sink } := ⟨rfl, readyMessage_pos, tracks_nil _, fun hfound =>
    absurd (List.infix_nil.mp hfound) (List.ne_nil_of_length_pos readyMessage_pos)⟩
  rw [← taken_readCalls]
  rcases relayLoop_relayed hlooking reads with ⟨habsent, matched, hloop⟩ |
    ⟨before, bytes, after, hcalls, habsent, hfound, hloop⟩
  · refine ⟨_, by rw [relayAgentOutput, hloop]; rfl, rfl, .inl ⟨habsent, rfl, ?_⟩⟩
    simp [State.call]
  · refine ⟨_, by rw [relayAgentOutput, hloop]; rfl, rfl, .inr ⟨before, bytes, after, hcalls,
      habsent, hfound, rfl, ?_⟩⟩
    simp [State.call, State.report]

/-- What the supervisor does, for every output, every way to read it and every way to
write the notice. -/
theorem relayAgentOutput_calls (sink : Sink Byte) (reads : List Read) :
    ∃ s, relayAgentOutput sink reads = some s
      ∧ s.calls.filter Call.isRead = readCalls reads
      ∧ taken s.calls = output reads
      ∧ ((∀ read ∈ reads, read ≠ .failed) → output reads = reads.flatMap Read.bytes
          ∧ (readCalls reads).getLast? = some (.read []))
      ∧ s.calls.countP Call.isNotice = (if readyMessage <:+: output reads then 1 else 0)
      ∧ (∀ earlier written later, s.calls = earlier ++ .notified written :: later →
          ∃ before bytes, earlier = before ++ [.read bytes]
            ∧ ¬ readyMessage <:+: taken before ∧ readyMessage <:+: taken before ++ bytes)
      ∧ s.calls.count (.close .ready) = 1 ∧ s.calls.count (.close .output) = 1
      ∧ s.readyOpen = false
      ∧ (Intact sink.shares →
          s.sink.sent = sink.sent ++ (if readyMessage <:+: output reads then [1] else [])) := by
  have hread := fun call (hmem : call ∈ readCalls reads) => isRead_of_mem_readCalls hmem
  obtain ⟨s, hs, hopen, hcases⟩ := relayAgentOutput_cases sink reads
  have hcomplete := @readCalls_complete reads
  refine ⟨s, hs, ?_⟩
  rw [← taken_readCalls] at hcases hcomplete ⊢
  rcases hcases with ⟨habsent, hsink, hcalls⟩ |
    ⟨before, bytes, after, hreads, habsent, hfound, hsink, hcalls⟩
  · obtain ⟨hfilter, hnotice, hclose⟩ := filter_isRead hread
    rw [hcalls]
    refine ⟨?_, ?_, hcomplete, ?_, ?_, ?_, ?_, hopen, ?_⟩
    · simp [List.filter_append, hfilter, Call.isRead]
    · simp [taken, Call.taken]
    · simp [List.countP_append, hnotice, Call.isNotice, habsent]
    · intro earlier written later heq
      have hmem : Call.notified written ∈ readCalls reads ++ [.close .output, .close .ready] :=
        heq ▸ List.mem_append_right _ List.mem_cons_self
      rcases List.mem_append.mp hmem with hmem | hmem
      · exact absurd (hread _ hmem) Bool.false_ne_true
      · simp at hmem
    · simp [List.count_append, hclose]
    · simp [List.count_append, hclose]
    · intro _
      simp [habsent, hsink]
  · rw [hreads] at hread hcomplete ⊢
    have hoccurs : readyMessage <:+: taken (before ++ .read bytes :: after) := by
      rw [List.append_cons, taken_append, taken_append]
      have hend : taken [.read bytes] = bytes := List.append_nil bytes
      rw [hend]
      exact hfound.trans (List.prefix_append _ _).isInfix
    have hreadBefore : ∀ call ∈ before ++ [.read bytes], call.isRead = true := by
      intro call hmem
      refine hread call ?_
      rw [List.append_cons]
      exact List.mem_append_left _ hmem
    have hreadAfter : ∀ call ∈ after, call.isRead = true := fun call hmem =>
      hread call (List.mem_append_right _ (List.mem_cons_of_mem _ hmem))
    obtain ⟨hbefore, hnoticeBefore, hcloseBefore⟩ := filter_isRead hreadBefore
    obtain ⟨hafter, hnoticeAfter, hcloseAfter⟩ := filter_isRead hreadAfter
    have hlast : (Call.close .ready :: after ++ [Call.close .output]).countP Call.isNotice = 0 := by
      simp [List.countP_append, hnoticeAfter, Call.isNotice]
    obtain ⟨hsent, hwritten⟩ := writeReadyNotification_sent sink
    rw [hcalls]
    refine ⟨?_, ?_, hcomplete, ?_, ?_, ?_, ?_, hopen, ?_⟩
    · rw [List.filter_append, hbefore]
      simp [hafter, Call.isRead]
    · simp [taken, Call.taken]
    · rw [List.countP_append, hnoticeBefore, List.countP_cons, hlast]
      simp [Call.isNotice, hoccurs]
    · intro earlier written later heq
      obtain ⟨hearlier, -, -⟩ := append_cons_of_kind (List.countP_eq_zero.mp hnoticeBefore)
        (List.countP_eq_zero.mp hlast) rfl heq
      exact ⟨before, bytes, hearlier.symm, habsent, hfound⟩
    · rw [List.count_append, hcloseBefore]
      simp [hcloseAfter]
    · rw [List.count_append, hcloseBefore]
      simp [hcloseAfter]
    · intro hintact
      rw [hsink, hsent, hwritten hintact]
      simp [hoccurs]

end Spaces.Guest
