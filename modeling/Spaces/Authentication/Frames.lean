import Mathlib.Algebra.Group.Nat.Defs
import Mathlib.Data.List.Basic
import Spaces.Library.Transfer

/-!
# Frames of the authentication protocol

A frame is a header of ten bytes and a payload of at most 16 KiB. The PAM module
and the PAM worker speak the protocol in C, the launcher's service speaks it in
Python, and each side has its own encoder and decoder. A C payload is a pointer
that is `NULL` for an empty payload; Python's is a `bytes` object.

A `uint32_t` in network order is kept as the four bytes it has in memory, so that
the byte order of the machine plays no part. Memory is taken to suffice.
-/

namespace Spaces.Authentication

open Spaces.Library.Transfer

abbrev Bytes := List UInt8

/-! ## The C side -/

def spacesMagic : UInt32 := 0x53504155
def spacesVersion : UInt8 := 2
def spacesMaxPayload : UInt32 := 16 * 1024

/-- `htonl`, as the bytes it leaves in memory. -/
def htonl (n : UInt32) : Bytes :=
  [UInt8.ofNat (n.toNat / 2 ^ 24), UInt8.ofNat (n.toNat / 2 ^ 16),
    UInt8.ofNat (n.toNat / 2 ^ 8), UInt8.ofNat n.toNat]

/-- `ntohl` of the four bytes at the front. -/
def ntohl : Bytes → UInt32
  | a :: b :: c :: d :: _ =>
      UInt32.ofNat (a.toNat * 2 ^ 24 + b.toNat * 2 ^ 16 + c.toNat * 2 ^ 8 + d.toNat)
  | _ => 0

/-- `struct spaces_header`, as it lies in memory. -/
structure SpacesHeader where
  magic : Bytes
  version : UInt8
  type : UInt8
  size : Bytes

def SpacesHeader.memory (header : SpacesHeader) : Bytes :=
  header.magic ++ header.version :: header.type :: header.size

/-- `sizeof(struct spaces_header)`. -/
def headerSize : Nat := 10

def SpacesHeader.ofMemory (memory : Bytes) : SpacesHeader :=
  { magic := memory.take 4
    version := memory.getD 4 0
    type := memory.getD 5 0
    size := memory.drop 6 }

def spacesWriteAll (fd : Sink UInt8) (cursor : Bytes) : Bool × Sink UInt8 :=
  if cursor = [] then (true, fd)
  else
    match _h : fd.write cursor with
    | (.interrupted, fd) => spacesWriteAll fd cursor
    | (.failed, fd) => (false, fd)
    | (.moved part, fd) => spacesWriteAll fd (cursor.drop part.length)
termination_by cursor.length + fd.shares.length
decreasing_by
  · obtain ⟨shares, hshares, rfl⟩ := Sink.write_interrupted _h
    simp [hshares]
  · obtain ⟨-, -, hle, -, hempty⟩ := Sink.write_moved _h
    have hpart : 0 < part.length := List.length_pos_iff.mpr fun hnil => by simp_all
    have hcursor : 0 < cursor.length := List.length_pos_iff.mpr ‹_›
    simp only [List.length_drop]
    omega

def spacesReadAll (fd : Source UInt8) (buffer : Bytes) (size : Nat) :
    Option Bytes × Source UInt8 :=
  if size = 0 then (some buffer, fd)
  else
    match _h : fd.read size with
    | (.interrupted, fd) => spacesReadAll fd buffer size
    | (.failed, fd) => (none, fd)
    | (.moved [], fd) => (none, fd)
    | (.moved (first :: part), fd) =>
        spacesReadAll fd (buffer ++ first :: part) (size - (first :: part).length)
termination_by size + fd.shares.length
decreasing_by
  · obtain ⟨shares, hshares, rfl⟩ := Source.read_interrupted _h
    simp [hshares]
  · obtain ⟨-, -, hle, -⟩ := Source.read_moved _h
    simp only [List.length_cons]
    omega

/-- `size` is the number of bytes at `payload` to send. -/
def spacesSendFrame (fd : Sink UInt8) (type : UInt8) (payload : Bytes) (size : UInt32) :
    Bool × Sink UInt8 :=
  if spacesMaxPayload < size then (false, fd)
  else
    let header : SpacesHeader :=
      { magic := htonl spacesMagic, version := spacesVersion, type, size := htonl size }
    match spacesWriteAll fd header.memory with
    | (false, fd) => (false, fd)
    | (true, fd) =>
        if 0 < size then spacesWriteAll fd (payload.take size.toNat) else (true, fd)

/-- What `spaces_recv_frame` hands out. A payload is followed by a NUL byte. -/
structure SpacesFrame where
  type : UInt8
  payload : Option Bytes
  size : UInt32
  deriving DecidableEq

def spacesRecvFrame (fd : Source UInt8) : Option SpacesFrame × Source UInt8 :=
  match spacesReadAll fd [] headerSize with
  | (none, fd) => (none, fd)
  | (some memory, fd) =>
      let header := SpacesHeader.ofMemory memory
      let decodedSize := ntohl header.size
      if ntohl header.magic ≠ spacesMagic ∨ header.version ≠ spacesVersion ∨
          spacesMaxPayload < decodedSize then (none, fd)
      else if 0 < decodedSize then
        match spacesReadAll fd [] decodedSize.toNat with
        | (none, fd) => (none, fd)
        | (some value, fd) => (some ⟨header.type, some value, decodedSize⟩, fd)
      else (some ⟨header.type, none, decodedSize⟩, fd)

/-! ## The Python side -/

inductive Exception where
  | eofError
  | osError
  | valueError
  deriving DecidableEq

def protocolMagic : Bytes := [0x53, 0x50, 0x41, 0x55]
def protocolVersion : UInt8 := 2
def maxPayload : Nat := 16 * 1024

/-- `socket.recv`, which the interpreter calls again when it was interrupted. -/
def recv (connection : Source UInt8) (size : Nat) : Except Exception Bytes × Source UInt8 :=
  match _h : connection.read size with
  | (.interrupted, connection) => recv connection size
  | (.failed, connection) => (.error .osError, connection)
  | (.moved part, connection) => (.ok part, connection)
termination_by connection.shares.length
decreasing_by
  obtain ⟨shares, hshares, rfl⟩ := Source.read_interrupted _h
  simp [hshares]

/-- `_recv_exact`, from the chunks it has already. -/
def recvExact (connection : Source UInt8) (chunks : List Bytes) (remaining : Nat) :
    Except Exception Bytes × Source UInt8 :=
  if remaining = 0 then (.ok chunks.flatten, connection)
  else
    match recv connection remaining with
    | (.error error, connection) => (.error error, connection)
    | (.ok [], connection) => (.error .eofError, connection)
    | (.ok (first :: chunk), connection) =>
        recvExact connection (chunks ++ [first :: chunk])
          (remaining - (first :: chunk).length)
termination_by remaining
decreasing_by
  simp only [List.length_cons]
  omega

/-- `FRAME_HEADER.pack`, for a size of less than 2^32. -/
def packHeader (magic : Bytes) (version messageType : UInt8) (size : Nat) : Bytes :=
  magic ++ version :: messageType :: htonl (UInt32.ofNat size)

/-- `FRAME_HEADER.unpack`. -/
def unpackHeader (header : Bytes) : Bytes × UInt8 × UInt8 × Nat :=
  (header.take 4, header.getD 4 0, header.getD 5 0, (ntohl (header.drop 6)).toNat)

def recvFrame (connection : Source UInt8) :
    Except Exception (UInt8 × Bytes) × Source UInt8 :=
  match recvExact connection [] headerSize with
  | (.error error, connection) => (.error error, connection)
  | (.ok header, connection) =>
      let (magic, version, messageType, size) := unpackHeader header
      if magic ≠ protocolMagic ∨ version ≠ protocolVersion ∨ maxPayload < size then
        (.error .valueError, connection)
      else
        match recvExact connection [] size with
        | (.error error, connection) => (.error error, connection)
        | (.ok payload, connection) => (.ok (messageType, payload), connection)

/-- `socket.sendall`: the loop of `spaces_write_all`, in the interpreter. -/
def sendall (connection : Sink UInt8) (data : Bytes) : Except Exception Unit × Sink UInt8 :=
  match spacesWriteAll connection data with
  | (true, connection) => (.ok (), connection)
  | (false, connection) => (.error .osError, connection)

def sendFrame (connection : Sink UInt8) (messageType : UInt8) (payload : Bytes) :
    Except Exception Unit × Sink UInt8 :=
  if maxPayload < payload.length then (.error .valueError, connection)
  else
    sendall connection
      (packHeader protocolMagic protocolVersion messageType payload.length ++ payload)

/-! ## Words in network order -/

@[simp] theorem htonl_length (n : UInt32) : (htonl n).length = 4 := rfl

theorem ntohl_htonl (n : UInt32) : ntohl (htonl n) = n := by
  have hn := n.toNat_lt
  apply UInt32.toNat_inj.mp
  simp only [htonl, ntohl, UInt8.toNat_ofNat', UInt32.toNat_ofNat']
  omega

/-- Comparing the magic as a number or as bytes is the same. -/
theorem ntohl_eq_spacesMagic {word : Bytes} (h : word.length = 4) :
    ntohl word = spacesMagic ↔ word = protocolMagic := by
  match word, h with
  | [a, b, c, d], _ =>
      have ha := a.toNat_lt
      have hb := b.toNat_lt
      have hc := c.toNat_lt
      have hd := d.toNat_lt
      constructor
      · intro heq
        have hnat := congrArg UInt32.toNat heq
        simp only [ntohl, spacesMagic, UInt32.toNat_ofNat', UInt32.reduceToNat] at hnat
        simp only [protocolMagic, List.cons.injEq, ← UInt8.toNat_inj, UInt8.reduceToNat,
          and_true]
        omega
      · intro heq
        rw [heq]
        rfl

/-! ## The encoders -/

/-- The bytes of a frame. -/
def encoded (type : UInt8) (payload : Bytes) : Bytes :=
  packHeader protocolMagic protocolVersion type payload.length ++ payload

theorem spacesWriteAll_intact (fd : Sink UInt8) (cursor : Bytes) (hintact : Intact fd.shares) :
    ∃ shares, Intact shares ∧
      spacesWriteAll fd cursor = (true, ⟨fd.sent ++ cursor, shares⟩) := by
  induction fd, cursor using spacesWriteAll.induct with
  | case1 fd =>
      refine ⟨fd.shares, hintact, ?_⟩
      rw [spacesWriteAll, if_pos rfl, List.append_nil]
  | case2 fd cursor hcursor fd' hwrite ih =>
      obtain ⟨shares, hshares, rfl⟩ := Sink.write_interrupted hwrite
      rw [hshares] at hintact
      obtain ⟨shares', hintact', heq⟩ := ih hintact.tail
      refine ⟨shares', hintact', ?_⟩
      rw [spacesWriteAll, if_neg hcursor, hwrite]
      exact heq
  | case3 fd cursor hcursor fd' hwrite =>
      exact absurd (Sink.write_failed hwrite) hintact
  | case4 fd cursor hcursor fd' part hwrite ih =>
      obtain ⟨hsent, ⟨rest, hrest⟩, -, hkeep, -⟩ := Sink.write_moved hwrite
      obtain ⟨shares', hintact', heq⟩ := ih (hkeep hintact)
      refine ⟨shares', hintact', ?_⟩
      rw [spacesWriteAll, if_neg hcursor, hwrite]
      simp only
      rw [heq, hsent, ← hrest]
      simp

theorem le_maxPayload {size : UInt32} {payload : Bytes} (hsize : size.toNat = payload.length) :
    spacesMaxPayload < size ↔ maxPayload < payload.length := by
  rw [UInt32.lt_iff_toNat_lt, hsize]
  rfl

theorem spacesSendFrame_intact {fd : Sink UInt8} (type : UInt8) {payload : Bytes} {size : UInt32}
    (hsize : size.toNat = payload.length) (hmax : payload.length ≤ maxPayload)
    (hintact : Intact fd.shares) :
    ∃ shares, Intact shares ∧
      spacesSendFrame fd type payload size = (true, ⟨fd.sent ++ encoded type payload, shares⟩) := by
  have hheader : SpacesHeader.memory ⟨htonl spacesMagic, spacesVersion, type, htonl size⟩ =
      packHeader protocolMagic protocolVersion type payload.length := by
    rw [← hsize, packHeader, UInt32.ofNat_toNat]
    rfl
  obtain ⟨shares, hshares, hwrite⟩ := spacesWriteAll_intact fd
    (packHeader protocolMagic protocolVersion type payload.length) hintact
  have hlong : ¬ spacesMaxPayload < size := by
    rw [le_maxPayload hsize]
    omega
  rw [spacesSendFrame, if_neg hlong]
  simp only [hheader, hwrite]
  split
  · obtain ⟨shares', hshares', hwrite'⟩ := spacesWriteAll_intact
      ⟨fd.sent ++ packHeader protocolMagic protocolVersion type payload.length, shares⟩
      payload hshares
    refine ⟨shares', hshares', ?_⟩
    rw [hsize, List.take_length, hwrite', encoded, List.append_assoc]
  · next hzero =>
      have hempty : payload = [] := by
        rw [UInt32.lt_iff_toNat_lt, hsize] at hzero
        exact List.length_eq_zero_iff.mp (by simpa using hzero)
      exact ⟨shares, hshares, by simp [encoded, hempty]⟩

theorem sendFrame_intact {connection : Sink UInt8} (type : UInt8) {payload : Bytes}
    (hmax : payload.length ≤ maxPayload) (hintact : Intact connection.shares) :
    ∃ shares, Intact shares ∧ sendFrame connection type payload =
      (.ok (), ⟨connection.sent ++ encoded type payload, shares⟩) := by
  obtain ⟨shares, hshares, hwrite⟩ :=
    spacesWriteAll_intact connection (encoded type payload) hintact
  refine ⟨shares, hshares, ?_⟩
  rw [sendFrame, if_neg (by omega), sendall]
  simp only [← encoded.eq_def, hwrite]

/-! ## The decoders

On a stream that does not fail, both decoders are `decode`, however the stream is
split. On any stream, failing or not, they see the same. -/

/-- What the bytes that arrive before the end of a stream begin with, and what is
left unread. -/
def decode (stream : Bytes) : Option (UInt8 × Bytes) × Bytes :=
  let header := stream.take headerSize
  let rest := stream.drop headerSize
  let size := (ntohl (header.drop 6)).toNat
  if stream.length < headerSize ∨ header.take 4 ≠ protocolMagic ∨
      header.getD 4 0 ≠ protocolVersion ∨ maxPayload < size then (none, rest)
  else
    (if size ≤ rest.length then some (header.getD 5 0, rest.take size) else none,
      rest.drop size)

theorem spacesReadAll_intact (fd : Source UInt8) (buffer : Bytes) (size : Nat)
    (hintact : Intact fd.shares) :
    ∃ shares, Intact shares ∧ spacesReadAll fd buffer size =
      (if size ≤ fd.rest.length then some (buffer ++ fd.rest.take size) else none,
        ⟨fd.rest.drop size, shares⟩) := by
  induction fd, buffer, size using spacesReadAll.induct with
  | case1 fd buffer => exact ⟨fd.shares, hintact, by simp [spacesReadAll]⟩
  | case2 fd buffer size hsize fd' hread ih =>
      obtain ⟨shares, hshares, rfl⟩ := Source.read_interrupted hread
      rw [hshares] at hintact
      obtain ⟨shares', hintact', heq⟩ := ih hintact.tail
      refine ⟨shares', hintact', ?_⟩
      rw [spacesReadAll, if_neg hsize, hread]
      exact heq
  | case3 fd buffer size hsize fd' hread =>
      obtain ⟨shares, hshares, -⟩ := Source.read_failed hread
      rw [hshares] at hintact
      exact absurd List.mem_cons_self hintact
  | case4 fd buffer size hsize fd' hread =>
      obtain ⟨hrest, -, -, hkeep, hend⟩ := Source.read_moved hread
      have hnil := hend rfl (by omega)
      refine ⟨fd'.shares, hkeep hintact, ?_⟩
      have hfd' : fd'.rest = [] := by simpa [hnil] using hrest.symm
      have heq : fd' = ⟨[], fd'.shares⟩ := by rw [← hfd']
      rw [spacesReadAll, if_neg hsize, hread, hnil, if_neg (by simp; omega), List.drop_nil]
      exact congrArg _ heq
  | case5 fd buffer size hsize first part fd' hread ih =>
      obtain ⟨hrest, hle, -, hkeep, -⟩ := Source.read_moved hread
      obtain ⟨shares', hintact', heq⟩ := ih (hkeep hintact)
      refine ⟨shares', hintact', ?_⟩
      have htake : fd.rest.take size =
          (first :: part) ++ fd'.rest.take (size - (first :: part).length) := by
        rw [hrest, List.take_append, List.take_of_length_le hle]
      have hdrop : fd.rest.drop size = fd'.rest.drop (size - (first :: part).length) := by
        rw [hrest, List.drop_append, List.drop_eq_nil_of_le hle, List.nil_append]
      have hlength : size ≤ fd.rest.length ↔
          size - (first :: part).length ≤ fd'.rest.length := by
        rw [hrest, List.length_append]
        omega
      rw [spacesReadAll, if_neg hsize, hread]
      simp only [htake, hdrop, hlength, heq, List.append_assoc]

theorem spacesReadAll_length (fd : Source UInt8) (buffer : Bytes) (size : Nat) {bytes : Bytes}
    (h : (spacesReadAll fd buffer size).1 = some bytes) :
    bytes.length = buffer.length + size := by
  induction fd, buffer, size using spacesReadAll.induct with
  | case1 fd buffer =>
      rw [spacesReadAll, if_pos rfl] at h
      simp_all
  | case2 fd buffer size hsize fd' hread ih =>
      rw [spacesReadAll, if_neg hsize, hread] at h
      exact ih h
  | case3 fd buffer size hsize fd' hread =>
      rw [spacesReadAll, if_neg hsize, hread] at h
      cases h
  | case4 fd buffer size hsize fd' hread =>
      rw [spacesReadAll, if_neg hsize, hread] at h
      cases h
  | case5 fd buffer size hsize first part fd' hread ih =>
      obtain ⟨-, hle, -⟩ := Source.read_moved hread
      rw [spacesReadAll, if_neg hsize, hread] at h
      rw [ih h, List.length_append]
      omega

theorem recvExact_interrupted {connection : Source UInt8} {shares : List Share}
    (h : connection.shares = .interrupted :: shares) (chunks : List Bytes) {remaining : Nat}
    (hremaining : remaining ≠ 0) :
    recvExact connection chunks remaining =
      recvExact { connection with shares } chunks remaining := by
  have hrecv : recv connection remaining = recv { connection with shares } remaining := by
    rw [recv, Source.read_of_interrupted h]
  conv_lhs => rw [recvExact, if_neg hremaining, hrecv]
  conv_rhs => rw [recvExact, if_neg hremaining]

/-- The two loops, over the chunks read so far and over the buffer filled with
them. -/
theorem recvExact_eq (fd : Source UInt8) (buffer : Bytes) (size : Nat) {chunks : List Bytes}
    (hbuffer : chunks.flatten = buffer) :
    (recvExact fd chunks size).1.toOption = (spacesReadAll fd buffer size).1 ∧
      (recvExact fd chunks size).2 = (spacesReadAll fd buffer size).2 := by
  induction fd, buffer, size using spacesReadAll.induct generalizing chunks with
  | case1 fd buffer =>
      rw [recvExact, spacesReadAll, if_pos rfl, if_pos rfl, hbuffer]
      exact ⟨rfl, rfl⟩
  | case2 fd buffer size hsize fd' hread ih =>
      obtain ⟨shares, hshares, rfl⟩ := Source.read_interrupted hread
      rw [recvExact_interrupted hshares chunks hsize, spacesReadAll, if_neg hsize, hread]
      exact ih hbuffer
  | case3 fd buffer size hsize fd' hread =>
      rw [recvExact, spacesReadAll, if_neg hsize, if_neg hsize, recv, hread]
      exact ⟨rfl, rfl⟩
  | case4 fd buffer size hsize fd' hread =>
      rw [recvExact, spacesReadAll, if_neg hsize, if_neg hsize, recv, hread]
      exact ⟨rfl, rfl⟩
  | case5 fd buffer size hsize first part fd' hread ih =>
      rw [recvExact, spacesReadAll, if_neg hsize, if_neg hsize, recv, hread]
      exact ih (by rw [List.flatten_concat, hbuffer])

/-- A frame as `spaces_recv_frame` hands it out. -/
def SpacesFrame.ofContent (content : UInt8 × Bytes) : SpacesFrame :=
  { type := content.1
    payload := if content.2 = [] then none else some content.2
    size := UInt32.ofNat content.2.length }

/-- The two tests of a header. -/
theorem refused_iff {header : Bytes} (h : header.length = headerSize) :
    (ntohl (header.take 4) ≠ spacesMagic ∨ header.getD 4 0 ≠ spacesVersion ∨
        spacesMaxPayload < ntohl (header.drop 6)) ↔
      (header.take 4 ≠ protocolMagic ∨ header.getD 4 0 ≠ protocolVersion ∨
        maxPayload < (ntohl (header.drop 6)).toNat) := by
  have hword : (header.take 4).length = 4 := by
    rw [List.length_take, h]
    rfl
  have hmagic := ntohl_eq_spacesMagic hword
  rw [Ne, Ne, hmagic, UInt32.lt_iff_toNat_lt]
  rfl

theorem spacesReadAll_eq (fd : Source UInt8) (size : Nat) : spacesReadAll fd [] size =
    ((recvExact fd [] size).1.toOption, (recvExact fd [] size).2) := by
  obtain ⟨hread, hrest⟩ := recvExact_eq fd [] size List.flatten_nil
  exact Prod.ext hread.symm hrest.symm

theorem recvExact_length {fd fd' : Source UInt8} {size : Nat} {bytes : Bytes}
    (h : recvExact fd [] size = (.ok bytes, fd')) : bytes.length = size := by
  have hlength : bytes.length = [].length + size :=
    spacesReadAll_length fd [] size (by rw [spacesReadAll_eq, h]; rfl)
  simpa using hlength

/-- The second halves of the decoders, once a header is accepted. -/
theorem payload_eq (fd : Source UInt8) (type : UInt8) (size : UInt32) :
    (if 0 < size then
        match spacesReadAll fd [] size.toNat with
        | (none, fd) => (none, fd)
        | (some value, fd) => (some (SpacesFrame.mk type (some value) size), fd)
      else (some ⟨type, none, size⟩, fd)) =
      match recvExact fd [] size.toNat with
      | (.error _, connection) => (none, connection)
      | (.ok payload, connection) =>
          (some (SpacesFrame.ofContent (type, payload)), connection) := by
  split
  · next hpos =>
      rw [spacesReadAll_eq]
      cases hread : recvExact fd [] size.toNat with
      | mk received connection =>
        cases received with
        | error error => rfl
        | ok payload =>
            have hsize := recvExact_length hread
            have hne : payload ≠ [] := by
              rw [UInt32.lt_iff_toNat_lt] at hpos
              intro hnil
              simp_all
            simp [Except.toOption, SpacesFrame.ofContent, hne, hsize]
  · next hzero =>
      have hsize : size = 0 := by
        rw [UInt32.lt_iff_toNat_lt] at hzero
        exact UInt32.toNat_inj.mp (by simpa using hzero)
      subst hsize
      rw [recvExact]
      rfl

theorem recvFrame_header {connection rest : Source UInt8} {header : Bytes}
    (h : recvExact connection [] headerSize = (.ok header, rest)) :
    recvFrame connection =
      if header.take 4 ≠ protocolMagic ∨ header.getD 4 0 ≠ protocolVersion ∨
          maxPayload < (ntohl (header.drop 6)).toNat then (.error .valueError, rest)
      else
        match recvExact rest [] (ntohl (header.drop 6)).toNat with
        | (.error error, connection) => (.error error, connection)
        | (.ok payload, connection) => (.ok (header.getD 5 0, payload), connection) := by
  rw [recvFrame.eq_def, h]
  rfl

/-- What the two decoders make of a stream, call by call. -/
theorem spacesRecvFrame_eq (fd : Source UInt8) :
    spacesRecvFrame fd =
      ((recvFrame fd).1.toOption.map SpacesFrame.ofContent, (recvFrame fd).2) := by
  rw [spacesRecvFrame.eq_def, spacesReadAll_eq]
  cases hread : recvExact fd [] headerSize with
  | mk received connection =>
    cases received with
    | error error =>
        rw [recvFrame.eq_def, hread]
        rfl
    | ok header =>
        rw [recvFrame_header hread]
        simp only [Except.toOption, SpacesHeader.ofMemory, refused_iff (recvExact_length hread)]
        split
        · rfl
        · refine (payload_eq connection _ _).trans ?_
          cases recvExact connection [] (ntohl (header.drop 6)).toNat with
          | mk received connection =>
            cases received <;> rfl

theorem recvExact_intact (connection : Source UInt8) (size : Nat)
    (hintact : Intact connection.shares) :
    ∃ shares, Intact shares ∧ (recvExact connection [] size).1.toOption =
        (if size ≤ connection.rest.length then some (connection.rest.take size) else none) ∧
      (recvExact connection [] size).2 = ⟨connection.rest.drop size, shares⟩ := by
  obtain ⟨shares, hshares, heq⟩ := spacesReadAll_intact connection [] size hintact
  rw [spacesReadAll_eq] at heq
  exact ⟨shares, hshares, congrArg Prod.fst heq, congrArg Prod.snd heq⟩

/-- Without faults the result depends on the bytes alone. -/
theorem recvFrame_decode (connection : Source UInt8) (hintact : Intact connection.shares) :
    ∃ shares, Intact shares ∧ (recvFrame connection).1.toOption = (decode connection.rest).1 ∧
      (recvFrame connection).2 = ⟨(decode connection.rest).2, shares⟩ := by
  obtain ⟨shares, hshares, hread, hrest⟩ := recvExact_intact connection headerSize hintact
  rw [decode]
  cases hheader : recvExact connection [] headerSize with
  | mk received connection' =>
    rw [hheader] at hread hrest
    simp only at hread hrest
    subst hrest
    cases received with
    | error error =>
        have hshort : connection.rest.length < headerSize := by
          by_contra hlong
          rw [if_pos (by omega)] at hread
          cases hread
        rw [recvFrame.eq_def, hheader, if_pos (.inl hshort)]
        exact ⟨shares, hshares, rfl, rfl⟩
    | ok header =>
        have hlong : ¬ connection.rest.length < headerSize := by
          intro hshort
          rw [if_neg (by omega)] at hread
          cases hread
        rw [if_pos (by omega)] at hread
        obtain rfl := Option.some.inj hread
        rw [recvFrame_header hheader]
        simp only [hlong, false_or]
        split
        · exact ⟨shares, hshares, rfl, rfl⟩
        · obtain ⟨shares', hshares', hread', hrest'⟩ := recvExact_intact
            ⟨connection.rest.drop headerSize, shares⟩
            (ntohl ((connection.rest.take headerSize).drop 6)).toNat hshares
          cases hpayload : recvExact ⟨connection.rest.drop headerSize, shares⟩ []
              (ntohl ((connection.rest.take headerSize).drop 6)).toNat with
          | mk received connection' =>
            rw [hpayload] at hread' hrest'
            simp only at hread' hrest'
            subst hrest'
            refine ⟨shares', hshares', ?_, by cases received <;> rfl⟩
            cases received with
            | error error =>
                split at hread'
                · cases hread'
                · rw [if_neg ‹_›]
                  rfl
            | ok payload =>
                split at hread'
                · obtain rfl := Option.some.inj hread'
                  rw [if_pos ‹_›]
                  rfl
                · cases hread'

theorem decode_encoded (type : UInt8) {payload : Bytes} (hmax : payload.length ≤ maxPayload)
    (tail : Bytes) : decode (encoded type payload ++ tail) = (some (type, payload), tail) := by
  have hsize : (ntohl (htonl (UInt32.ofNat payload.length))).toNat = payload.length := by
    have : maxPayload < 2 ^ 32 := by decide
    rw [ntohl_htonl, UInt32.toNat_ofNat']
    omega
  have hheader : (packHeader protocolMagic protocolVersion type payload.length).length =
      headerSize := rfl
  have hlength : ¬ (encoded type payload ++ tail).length < headerSize := by
    rw [encoded, List.length_append, List.length_append, hheader]
    omega
  rw [encoded, List.append_assoc] at hlength ⊢
  rw [decode, List.take_left' hheader, List.drop_left' hheader]
  have hmagic : (packHeader protocolMagic protocolVersion type payload.length).take 4 =
      protocolMagic := rfl
  have hversion : (packHeader protocolMagic protocolVersion type payload.length).getD 4 0 =
      protocolVersion := rfl
  have hword : (packHeader protocolMagic protocolVersion type payload.length).drop 6 =
      htonl (UInt32.ofNat payload.length) := rfl
  simp only [hmagic, hversion, hword, hsize, hlength, ne_eq, not_true_eq_false, false_or]
  rw [if_neg (by omega), if_pos (by simp), List.take_left, List.drop_left]
  rfl

/-! ## Sequences of frames -/

/-- A decoder that is called again until it fails, at most `count` times. -/
def receiveMany {φ : Type} (receive : Source UInt8 → Option φ × Source UInt8) :
    Nat → Source UInt8 → List φ × Source UInt8
  | 0, stream => ([], stream)
  | count + 1, stream =>
      match receive stream with
      | (none, stream) => ([], stream)
      | (some frame, stream) =>
          let (frames, stream) := receiveMany receive count stream
          (frame :: frames, stream)

/-- `recv_frame`, without the reason when it raises. -/
def recvFrame? (connection : Source UInt8) : Option (UInt8 × Bytes) × Source UInt8 :=
  ((recvFrame connection).1.toOption, (recvFrame connection).2)

theorem receiveMany_eq (count : Nat) : ∀ stream : Source UInt8,
    receiveMany spacesRecvFrame count stream =
      ((receiveMany recvFrame? count stream).1.map SpacesFrame.ofContent,
        (receiveMany recvFrame? count stream).2) := by
  induction count with
  | zero => exact fun stream => rfl
  | succ count ih =>
      intro stream
      rw [receiveMany, receiveMany, spacesRecvFrame_eq, recvFrame?]
      cases hreceived : (recvFrame stream).1.toOption with
      | none => rfl
      | some content =>
          simp only [Option.map_some]
          rw [ih (recvFrame stream).2]
          rfl

theorem receiveMany_encoded (frames : List (UInt8 × Bytes)) (tail : Bytes) :
    ∀ {shares : List Share}, (∀ frame ∈ frames, frame.2.length ≤ maxPayload) → Intact shares →
      ∃ shares', Intact shares' ∧ receiveMany recvFrame? frames.length
          ⟨(frames.flatMap fun frame => encoded frame.1 frame.2) ++ tail, shares⟩ =
        (frames, ⟨tail, shares'⟩) := by
  induction frames with
  | nil => exact fun _ hintact => ⟨_, hintact, rfl⟩
  | cons frame frames ih =>
      intro shares hmax hintact
      have hfirst : frame.2.length ≤ maxPayload := hmax frame List.mem_cons_self
      obtain ⟨shares', hintact', hread, hrest⟩ := recvFrame_decode
        ⟨encoded frame.1 frame.2 ++
          ((frames.flatMap fun frame => encoded frame.1 frame.2) ++ tail), shares⟩ hintact
      rw [decode_encoded frame.1 hfirst] at hread hrest
      obtain ⟨shares'', hintact'', heq⟩ :=
        ih (fun frame hframe => hmax frame (List.mem_cons_of_mem _ hframe)) hintact'
      refine ⟨shares'', hintact'', ?_⟩
      rw [List.flatMap_cons, List.append_assoc, List.length_cons, receiveMany, recvFrame?,
        hread, hrest]
      simp only [heq]

/-! ## The codec as a whole -/

/-- What the two implementations keep to. Where a clause has two lists of shares,
the transfer is cut in one way on one side and in another way on the other. -/
structure SameCodec : Prop where
  encoders : ∀ (type : UInt8) (payload : Bytes) (size : UInt32) (fd connection : Sink UInt8),
    size.toNat = payload.length → payload.length ≤ maxPayload →
    Intact fd.shares → Intact connection.shares →
      (spacesSendFrame fd type payload size).1 = true ∧
      (sendFrame connection type payload).1 = .ok () ∧
      (spacesSendFrame fd type payload size).2.sent = fd.sent ++ encoded type payload ∧
      (sendFrame connection type payload).2.sent = connection.sent ++ encoded type payload
  /-- A longer payload is refused before anything is written. -/
  refused : ∀ (type : UInt8) (payload : Bytes) (size : UInt32) (fd connection : Sink UInt8),
    size.toNat = payload.length → maxPayload < payload.length →
      spacesSendFrame fd type payload size = (false, fd) ∧
      sendFrame connection type payload = (.error .valueError, connection)
  decoded : ∀ (type : UInt8) (payload tail : Bytes) (shares : List Share),
    payload.length ≤ maxPayload → Intact shares →
      let stream : Source UInt8 := ⟨encoded type payload ++ tail, shares⟩
      (recvFrame stream).1 = .ok (type, payload) ∧ (recvFrame stream).2.rest = tail ∧
      (spacesRecvFrame stream).1 = some (.ofContent (type, payload)) ∧
      (spacesRecvFrame stream).2.rest = tail
  /-- Any stream, with any faults on it. -/
  agree : ∀ stream : Source UInt8, spacesRecvFrame stream =
    ((recvFrame stream).1.toOption.map SpacesFrame.ofContent, (recvFrame stream).2)
  splits : ∀ (stream : Bytes) (shares shares' : List Share), Intact shares → Intact shares' →
    (spacesRecvFrame ⟨stream, shares⟩).1 =
      (recvFrame ⟨stream, shares'⟩).1.toOption.map SpacesFrame.ofContent ∧
    (spacesRecvFrame ⟨stream, shares⟩).2.rest = (recvFrame ⟨stream, shares'⟩).2.rest
  sequences : ∀ (count : Nat) (stream : Source UInt8),
    receiveMany spacesRecvFrame count stream =
      ((receiveMany recvFrame? count stream).1.map SpacesFrame.ofContent,
        (receiveMany recvFrame? count stream).2)
  sequence : ∀ (frames : List (UInt8 × Bytes)) (tail : Bytes) (shares : List Share),
    (∀ frame ∈ frames, frame.2.length ≤ maxPayload) → Intact shares →
      let stream : Source UInt8 :=
        ⟨(frames.flatMap fun frame => encoded frame.1 frame.2) ++ tail, shares⟩
      (receiveMany recvFrame? frames.length stream).1 = frames ∧
      (receiveMany recvFrame? frames.length stream).2.rest = tail

theorem toOption_eq_some {ε α : Type} {result : Except ε α} {a : α}
    (h : result.toOption = some a) : result = .ok a := by
  cases result with
  | error error => cases h
  | ok value => rw [Option.some.inj h]

theorem same_codec : SameCodec where
  encoders type payload size fd connection hsize hmax hfd hconnection := by
    obtain ⟨shares, -, heq⟩ := spacesSendFrame_intact type hsize hmax hfd
    obtain ⟨shares', -, heq'⟩ := sendFrame_intact type hmax hconnection
    rw [heq, heq']
    exact ⟨rfl, rfl, rfl, rfl⟩
  refused type payload size fd connection hsize hmax := by
    rw [spacesSendFrame, if_pos ((le_maxPayload hsize).mpr hmax), sendFrame, if_pos hmax]
    exact ⟨rfl, rfl⟩
  decoded type payload tail shares hmax hintact := by
    obtain ⟨shares', -, hread, hrest⟩ :=
      recvFrame_decode ⟨encoded type payload ++ tail, shares⟩ hintact
    rw [decode_encoded type hmax] at hread hrest
    refine ⟨toOption_eq_some hread, ?_, ?_, ?_⟩
    · rw [hrest]
    · rw [spacesRecvFrame_eq, hread]
      rfl
    · rw [spacesRecvFrame_eq, hrest]
  agree := spacesRecvFrame_eq
  splits stream shares shares' hintact hintact' := by
    obtain ⟨_, -, hread, hrest⟩ := recvFrame_decode ⟨stream, shares⟩ hintact
    obtain ⟨_, -, hread', hrest'⟩ := recvFrame_decode ⟨stream, shares'⟩ hintact'
    rw [spacesRecvFrame_eq, hread, hread', hrest, hrest']
    exact ⟨rfl, rfl⟩
  sequences := receiveMany_eq
  sequence frames tail shares hmax hintact := by
    obtain ⟨_, -, heq⟩ := receiveMany_encoded frames tail hmax hintact
    exact ⟨congrArg Prod.fst heq, congrArg (·.2.rest) heq⟩

end Spaces.Authentication
