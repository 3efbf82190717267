import Enarx.Bytes
import Enarx.Control

/-!
# A TLS connection over a socket

What the runtime has below its TLS streams: a socket that delivers the peer's
bytes in pieces of any size, and a connection as `rustls` documents it. The
connection collects the bytes of a record until it is complete, opens it with
the keys, and keeps the application data until they are read and its own output
until it is written.
-/
namespace Enarx.Wasmtime

inductive IoErrorKind where
  | wouldBlock
  | invalidInput
  | invalidData
  | unsupported
  | unexpectedEof
  | other
  deriving DecidableEq, Repr

structure Socket where
  /-- What the reads return one after the other; at the end of the list the peer has closed. -/
  reads : List (Except IoErrorKind (List Byte))
  /-- How many bytes beyond the first the writes accept, one after the other; at the end of the list
  everything is accepted. -/
  writes : List (Except IoErrorKind Nat)

namespace Socket

def read (socket : Socket) : Except IoErrorKind (List Byte) × Socket :=
  match socket.reads with
  | [] => (.ok [], socket)
  | result :: rest => (result, { socket with reads := rest })

def write (socket : Socket) (len : Nat) : Except IoErrorKind Nat × Socket :=
  match socket.writes with
  | [] => (.ok len, socket)
  | .ok more :: rest => (.ok (min (more + 1) len), { socket with writes := rest })
  | .error kind :: rest => (.error kind, { socket with writes := rest })

structure Blocking (socket : Socket) : Prop where
  reads : .error .wouldBlock ∉ socket.reads
  writes : .error .wouldBlock ∉ socket.writes

end Socket

def drains : List (Except IoErrorKind Nat) → Nat → Bool
  | _, 0 => true
  | [], _ => true
  | .ok more :: rest, len + 1 => drains rest (len - more)
  | .error _ :: _, _ + 1 => false

@[simp] theorem drains_zero (writes : List (Except IoErrorKind Nat)) : drains writes 0 = true := by
  cases writes <;> rfl

@[simp] theorem drains_nil (len : Nat) : drains [] len = true := by
  cases len <;> rfl

theorem Socket.write_cases {socket : Socket} {len : Nat} (hlen : 0 < len)
    (hblocking : .error .wouldBlock ∉ socket.writes) :
    (∃ n rest, socket.write len = (.ok n, { socket with writes := rest }) ∧ 0 < n ∧ n ≤ len ∧
      .error .wouldBlock ∉ rest ∧ drains socket.writes len = drains rest (len - n)) ∨
    (∃ kind rest, socket.write len = (.error kind, { socket with writes := rest }) ∧
      kind ≠ .wouldBlock ∧ drains socket.writes len = false) := by
  obtain ⟨reads, writes⟩ := socket
  cases writes with
  | nil => exact .inl ⟨len, [], rfl, hlen, le_rfl, hblocking, by simp⟩
  | cons result rest =>
    simp only [List.mem_cons, not_or] at hblocking
    obtain ⟨len, rfl⟩ := Nat.exists_eq_succ_of_ne_zero hlen.ne'
    cases result with
    | error kind =>
      refine .inr ⟨kind, rest, rfl, ?_, rfl⟩
      rintro rfl
      exact hblocking.1 rfl
    | ok more =>
      refine .inl ⟨min (more + 1) (len + 1), rest, rfl, by omega, by omega, hblocking.2, ?_⟩
      rw [drains, show len + 1 - min (more + 1) (len + 1) = len - more by omega]

inductive Content where
  | applicationData (data : List Byte)
  /-- A message of the handshake or after it, such as a session ticket, with the answer to it. -/
  | handshake (answer : List Byte) (finishes : Bool)
  | closeNotify
  deriving DecidableEq, Repr

abbrev Keys := Nat → List Byte → Option Content

/-- The first record of the buffer and the rest, if the record is complete: type, version and
length of the payload, then the payload. -/
def takeRecord (buffer : List Byte) : Option (List Byte × List Byte) :=
  match buffer with
  | _ :: _ :: _ :: high :: low :: payload =>
    let len := 256 * high.toNat + low.toNat
    if len ≤ payload.length then some (buffer.splitAt (5 + len)) else none
  | _ => none

def contents (keys : Keys) : Nat → Nat → List Byte → List (Option Content)
  | 0, _, _ => []
  | fuel + 1, records, buffer =>
    match takeRecord buffer with
    | none => []
    | some (record, rest) => keys records record :: contents keys fuel (records + 1) rest

/-- A content after which a read has something to report: data, the end, or an error. -/
def Tells : Option Content → Prop
  | none => True
  | some (.applicationData data) => data ≠ []
  | some (.handshake _ _) => False
  | some .closeNotify => True

structure Connection where
  handshaking : Bool
  sendableTls : List Byte
  /-- The bytes of a record that is not complete yet. -/
  deframer : List Byte
  /-- The records opened so far. -/
  records : Nat
  receivedPlaintext : List Byte
  hasReceivedCloseNotify : Bool
  hasSeenEof : Bool
  failed : Bool
  /-- The application data of all records opened so far. -/
  payload : List Byte
  delivered : List Byte
  inOrder : delivered ++ receivedPlaintext = payload
  deriving DecidableEq

namespace Connection

variable (conn : Connection)

def wantsWrite : Bool := !conn.sendableTls.isEmpty

def wantsRead : Bool :=
  conn.receivedPlaintext.isEmpty && !conn.hasReceivedCloseNotify &&
    (!conn.handshaking || conn.sendableTls.isEmpty)

def receive (bytes : List Byte) : Connection :=
  { conn with deframer := conn.deframer ++ bytes, hasSeenEof := conn.hasSeenEof || bytes.isEmpty }

def accept : Content → Connection
  | .applicationData data =>
    { conn with
      receivedPlaintext := conn.receivedPlaintext ++ data
      payload := conn.payload ++ data
      inOrder := by rw [← List.append_assoc, conn.inOrder] }
  | .handshake answer finishes =>
    { conn with
      sendableTls := conn.sendableTls ++ answer
      handshaking := conn.handshaking && !finishes }
  | .closeNotify => { conn with hasReceivedCloseNotify := true }

/-- `process_new_packets`, for at most `fuel` records; whether there was no error. -/
def processPackets (keys : Keys) : Nat → Connection → Bool × Connection
  | 0, conn => (!conn.failed, conn)
  | fuel + 1, conn =>
    if conn.failed then (false, conn)
    else if conn.hasReceivedCloseNotify then (true, conn)
    else
      match takeRecord conn.deframer with
      | none => (true, conn)
      | some (record, rest) =>
        let opened := { conn with deframer := rest, records := conn.records + 1 }
        match keys conn.records record with
        | none => (false, { opened with failed := true })
        | some content => processPackets keys fuel (opened.accept content)

def processNewPackets (keys : Keys) : Bool × Connection :=
  processPackets keys conn.deframer.length conn

/-- `Reader::read` into a buffer of `len` bytes. -/
def read (len : Nat) : Except IoErrorKind (List Byte) × Connection :=
  let bytes := conn.receivedPlaintext.take len
  if bytes.isEmpty && len ≠ 0 then
    if conn.hasReceivedCloseNotify then (.ok [], conn)
    else if conn.hasSeenEof then (.error .unexpectedEof, conn)
    else (.error .wouldBlock, conn)
  else
    (.ok bytes,
      { conn with
        receivedPlaintext := conn.receivedPlaintext.drop len
        delivered := conn.delivered ++ bytes
        inOrder := by rw [List.append_assoc, List.take_append_drop, conn.inOrder] })

def Ready : Prop :=
  conn.receivedPlaintext ≠ [] ∨ conn.hasReceivedCloseNotify = true ∨ conn.hasSeenEof = true

variable {conn} {keys : Keys}

theorem wantsRead_eq (hconn : conn.handshaking = false) :
    conn.wantsRead = true ↔ conn.receivedPlaintext = [] ∧ conn.hasReceivedCloseNotify = false := by
  simp [wantsRead, hconn]

theorem ready_accept {content : Content} :
    (conn.accept content).Ready ↔ conn.Ready ∨ Tells (some content) := by
  cases content with
  | applicationData data => simp [accept, Ready, Tells]; tauto
  | handshake answer finishes => simp [accept, Ready, Tells]
  | closeNotify => simp [accept, Ready, Tells]

theorem processPackets_ready (fuel : Nat) (hfailed : conn.failed = false) :
    ((processPackets keys fuel conn).1 = true → (processPackets keys fuel conn).2.Ready) ↔
      conn.Ready ∨ ∃ content ∈ contents keys fuel conn.records conn.deframer, Tells content := by
  induction fuel generalizing conn with
  | zero => simp [processPackets, contents, hfailed]
  | succ fuel ih =>
    rw [processPackets, contents, if_neg (by simp [hfailed])]
    by_cases hclosed : conn.hasReceivedCloseNotify = true
    · rw [if_pos hclosed]
      exact ⟨fun h => .inl (h rfl), fun _ _ => .inr (.inl hclosed)⟩
    rw [if_neg hclosed]
    rcases takeRecord conn.deframer with _ | ⟨record, rest⟩
    · simp
    dsimp only
    rcases keys conn.records record with _ | content
    · simp [Tells]
    dsimp only
    rw [ih (by cases content <;> exact hfailed), ready_accept]
    cases content <;> simp [accept, Tells, Ready, or_assoc]

theorem processPackets_delivered (fuel : Nat) :
    (processPackets keys fuel conn).2.delivered = conn.delivered := by
  induction fuel generalizing conn with
  | zero => rfl
  | succ fuel ih =>
    rw [processPackets]
    split_ifs
    · rfl
    · rfl
    · rcases takeRecord conn.deframer with _ | ⟨record, rest⟩
      · rfl
      dsimp only
      rcases keys conn.records record with _ | content
      · rfl
      · dsimp only
        rw [ih]
        cases content <;> rfl

/-- What the connection has received so far is more than pieces and messages without data. -/
def Told (keys : Keys) (conn : Connection) : Prop :=
  conn.failed = true ∨ conn.Ready ∨
    ∃ content ∈ contents keys conn.deframer.length conn.records conn.deframer, Tells content

theorem processNewPackets_ready :
    ((conn.processNewPackets keys).1 = true → (conn.processNewPackets keys).2.Ready) ↔ conn.Told keys := by
  unfold Told processNewPackets
  by_cases hfailed : conn.failed = true
  · have hfalse : (processPackets keys conn.deframer.length conn).1 = false := by
      cases conn.deframer.length <;> simp [processPackets, hfailed]
    simp [hfailed, hfalse]
  · rw [processPackets_ready _ (Bool.eq_false_iff.mpr hfailed)]
    simp [hfailed]

theorem read_cases {len : Nat} (hlen : len ≠ 0) :
    (conn.Ready ∧ ∃ bytes after, conn.read len = (.ok bytes, after) ∧
      after.delivered = conn.delivered ++ bytes ∧
      (bytes ≠ [] ∨ after.hasReceivedCloseNotify = true)) ∨
    (conn.Ready ∧ conn.read len = (.error .unexpectedEof, conn)) ∨
    (¬conn.Ready ∧ conn.read len = (.error .wouldBlock, conn)) := by
  unfold read Ready
  by_cases hplain : conn.receivedPlaintext = []
  · rw [if_pos (by simp [hplain, hlen])]
    by_cases hclosed : conn.hasReceivedCloseNotify = true
    · exact .inl ⟨.inr (.inl hclosed), [], conn, if_pos hclosed, by simp, .inr hclosed⟩
    · rw [if_neg hclosed]
      by_cases heof : conn.hasSeenEof = true
      · exact .inr (.inl ⟨.inr (.inr heof), if_pos heof⟩)
      · exact .inr (.inr ⟨by simp [hplain, hclosed, heof], if_neg heof⟩)
  · have htake : conn.receivedPlaintext.take len ≠ [] := by simp [hplain, hlen]
    rw [if_neg (by simp [htake])]
    exact .inl ⟨.inl hplain, _, _, rfl, rfl, .inl htake⟩

end Connection

end Enarx.Wasmtime
