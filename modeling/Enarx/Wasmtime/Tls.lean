import Enarx.Wasmtime.Connection

/-!
# TLS streams of the runtime

`complete_io_async` and `read_vectored` of a stream.
-/
namespace Enarx.Wasmtime

inductive ErrorKind where
  | wouldBlk
  | inval
  | notsup
  | io
  deriving DecidableEq, Repr

def errmap : IoErrorKind → ErrorKind
  | .wouldBlock => .wouldBlk
  | .invalidInput => .inval
  | .unsupported => .notsup
  | .invalidData => .inval
  | .unexpectedEof | .other => .io

inductive Stop (ε : Type) where
  | err (error : ε)
  | fuel
  deriving DecidableEq, Repr

structure Stream where
  tcp : Socket
  tls : Connection

abbrev Tls (ε α : Type) := Exec (Stop ε) Stream α

def writeTls : Tls ε (Except IoErrorKind Nat) := fun stream =>
  match stream.tcp.write stream.tls.sendableTls.length with
  | (.ok n, tcp) =>
    (.ok (.ok n), ⟨tcp, { stream.tls with sendableTls := stream.tls.sendableTls.drop n }⟩)
  | (.error kind, tcp) => (.ok (.error kind), { stream with tcp })

variable {stream : Stream} {tcp : Socket} {kind : IoErrorKind} {bytes : List Byte} {bufs : List Nat}

theorem writeTls_ok {n : Nat} (h : stream.tcp.write stream.tls.sendableTls.length = (.ok n, tcp)) :
    (writeTls : Tls ε _) stream = (.ok (.ok n),
      ⟨tcp, { stream.tls with sendableTls := stream.tls.sendableTls.drop n }⟩) := by
  rw [writeTls, h]

theorem writeTls_error (h : stream.tcp.write stream.tls.sendableTls.length = (.error kind, tcp)) :
    (writeTls : Tls ε _) stream = (.ok (.error kind), { stream with tcp }) := by
  rw [writeTls, h]

def readTls : Tls ε (Except IoErrorKind Nat) := fun stream =>
  match stream.tcp.read with
  | (.ok bytes, tcp) => (.ok (.ok bytes.length), ⟨tcp, stream.tls.receive bytes⟩)
  | (.error kind, tcp) => (.ok (.error kind), { stream with tcp })

theorem readTls_ok (h : stream.tcp.read = (.ok bytes, tcp)) :
    (readTls : Tls ε _) stream = (.ok (.ok bytes.length), ⟨tcp, stream.tls.receive bytes⟩) := by
  rw [readTls, h]

theorem readTls_error (h : stream.tcp.read = (.error kind, tcp)) :
    (readTls : Tls ε _) stream = (.ok (.error kind), { stream with tcp }) := by
  rw [readTls, h]

theorem writeTls_any {next : Except IoErrorKind Nat → Tls ε α}
    {Q : α → Stream → Prop} {E : Stop ε → Stream → Prop}
    (h : ∀ result after, (next result).Yields after Q E) : (writeTls >>= next).Yields stream Q E := by
  rcases hwrite : stream.tcp.write stream.tls.sendableTls.length with ⟨_ | n, tcp⟩
  · exact .bind_of_ok (writeTls_error hwrite) (h _ _)
  · exact .bind_of_ok (writeTls_ok hwrite) (h _ _)

def processNewPackets (keys : Keys) : Tls ε Bool := fun stream =>
  let (fine, tls) := stream.tls.processNewPackets keys
  (.ok fine, { stream with tls })

def writeAll : Nat → Nat → Tls IoErrorKind Nat
  | 0, wrlen => pure wrlen
  | fuel + 1, wrlen => do
    if !(← get).tls.wantsWrite then
      return wrlen
    match ← writeTls with
    | .error .wouldBlock => return wrlen
    | .error kind => throw (.err kind)
    | .ok n => writeAll fuel (wrlen + n)

/-- `process_new_packets`; after an error an alert is written, whatever comes of it. -/
def processOrFail (keys : Keys) : Tls IoErrorKind Unit := do
  if ← processNewPackets keys then
    return
  else
    let _ ← writeTls
    throw (.err .invalidData)

/-- The end of a round of `complete_io_async`, with the rounds after it. -/
def finishRound (keys : Keys) (untilHandshaked eof : Bool) (lens : Nat × Nat)
    (again : Tls IoErrorKind (Nat × Nat)) : Tls IoErrorKind (Nat × Nat) := do
  processOrFail keys
  match eof, untilHandshaked, (← get).tls.handshaking with
  | _, true, false => return lens
  | _, false, _ => return lens
  | true, true, true => throw (.err .unexpectedEof)
  | false, true, true => again

def completeLoop (keys : Keys) (untilHandshaked : Bool) :
    Nat → (eof : Bool) → (rdlen wrlen : Nat) → Tls IoErrorKind (Nat × Nat)
  | 0, _, _, _ => throw .fuel
  | fuel + 1, eof, rdlen, wrlen => do
    -- every write takes at least one byte from the queue
    let wrlen ← writeAll (← get).tls.sendableTls.length wrlen
    if !untilHandshaked && 0 < wrlen then
      return (rdlen, wrlen)
    let finish (eof : Bool) (rdlen : Nat) : Tls IoErrorKind (Nat × Nat) :=
      finishRound keys untilHandshaked eof (rdlen, wrlen)
        (completeLoop keys untilHandshaked fuel eof rdlen wrlen)
    if !eof && (← get).tls.wantsRead then
      match ← readTls with
      | .ok 0 => finish true rdlen
      | .ok n => finish eof (rdlen + n)
      | .error .wouldBlock => return (rdlen, wrlen)
      | .error kind => throw (.err kind)
    else
      finish eof rdlen

def completeIoAsync (keys : Keys) (fuel : Nat) : Tls IoErrorKind (Nat × Nat) := do
  let untilHandshaked := (← get).tls.handshaking
  completeLoop keys untilHandshaked fuel false 0 0

def mapErr (run : Tls IoErrorKind α) : Tls ErrorKind α := fun stream =>
  match run stream with
  | (.ok value, stream) => (.ok value, stream)
  | (.error (.err kind), stream) => (.error (.err (errmap kind)), stream)
  | (.error .fuel, stream) => (.error .fuel, stream)

/-- `Reader::read_vectored`: into the first buffer that is not empty. -/
def readerReadVectored (bufs : List Nat) : Tls IoErrorKind (List Byte) := fun stream =>
  match stream.tls.read ((bufs.find? (· ≠ 0)).getD 0) with
  | (.ok bytes, tls) => (.ok bytes, { stream with tls })
  | (.error kind, tls) => (.error (.err kind), { stream with tls })

theorem readerReadVectored_ok {len : Nat} {tls : Connection} (hfind : bufs.find? (· ≠ 0) = some len)
    (h : stream.tls.read len = (.ok bytes, tls)) :
    readerReadVectored bufs stream = (.ok bytes, { stream with tls }) := by
  rw [readerReadVectored, hfind, Option.getD_some, h]

theorem readerReadVectored_error {len : Nat} {tls : Connection} (hfind : bufs.find? (· ≠ 0) = some len)
    (h : stream.tls.read len = (.error kind, tls)) :
    readerReadVectored bufs stream = (.error (.err kind), { stream with tls }) := by
  rw [readerReadVectored, hfind, Option.getD_some, h]

def readVectored (keys : Keys) (fuel : Nat) (bufs : List Nat) : Tls ErrorKind (List Byte) := do
  let _ ← mapErr (completeIoAsync keys fuel)
  mapErr (readerReadVectored bufs)

def Stream.Flushed (before after : Stream) : Prop :=
  after.tls = { before.tls with sendableTls := [] } ∧ after.tcp.reads = before.tcp.reads

theorem Stream.flushed_self (h : stream.tls.sendableTls = []) : stream.Flushed stream := by
  refine ⟨?_, rfl⟩
  rw [← h]

theorem writeAll_yields (fuel wrlen : Nat) (hblocking : .error .wouldBlock ∉ stream.tcp.writes)
    (hfuel : stream.tls.sendableTls.length ≤ fuel) : (writeAll fuel wrlen).Yields stream
      (fun n after => drains stream.tcp.writes stream.tls.sendableTls.length = true ∧
        stream.Flushed after ∧ wrlen ≤ n ∧ (n = wrlen ↔ stream.tls.sendableTls = []))
      (fun stop _ => drains stream.tcp.writes stream.tls.sendableTls.length = false ∧
        ∃ kind, stop = .err kind ∧ kind ≠ .wouldBlock) := by
  induction fuel generalizing wrlen stream with
  | zero =>
    have hempty := List.length_eq_zero_iff.mp (Nat.le_zero.mp hfuel)
    apply Exec.Yields.pure
    simp [hempty, Stream.flushed_self]
  | succ fuel ih =>
    apply Exec.Yields.get_bind
    by_cases hempty : stream.tls.sendableTls = []
    · rw [if_pos (by simp [Connection.wantsWrite, hempty])]
      apply Exec.Yields.pure
      simp [hempty, Stream.flushed_self]
    rw [if_neg (by simp [Connection.wantsWrite, hempty])]
    have hlen := List.length_pos_of_ne_nil hempty
    rcases Socket.write_cases hlen hblocking with
      ⟨n, rest, hwrite, hn, hle, hrest, hdrains⟩ | ⟨kind, rest, hwrite, hkind, hdrains⟩
    · have hlength : (stream.tls.sendableTls.drop n).length = stream.tls.sendableTls.length - n :=
        List.length_drop
      apply Exec.Yields.bind_of_ok (writeTls_ok hwrite)
      apply (ih (wrlen + n) hrest (by dsimp only; omega)).imp
      · rintro total after ⟨hall, hafter, hge, -⟩
        dsimp only at hall hge
        refine ⟨by rwa [hdrains, ← hlength], hafter, by omega, ?_⟩
        simp only [hempty, iff_false]
        omega
      · rintro stop after ⟨hfail, hkind⟩
        exact ⟨by rwa [hdrains, ← hlength], hkind⟩
    · apply Exec.Yields.bind_of_ok (writeTls_error hwrite)
      cases kind with
      | wouldBlock => exact absurd rfl hkind
      | _ => exact .throw ⟨hdrains, _, rfl, hkind⟩

/-- The next read of the socket ends, fails, or brings more than pieces of a record and messages
without data. -/
def Stream.NextTells (keys : Keys) (stream : Stream) : Prop :=
  match stream.tcp.reads with
  | [] => True
  | .error _ :: _ => True
  | .ok bytes :: _ => (stream.tls.receive bytes).Told keys

/-- The stream has something to report already, or no output is queued and the next read of the
socket brings it, or the output cannot be written. -/
def Stream.Serviceable (keys : Keys) (stream : Stream) : Prop :=
  stream.tls.Ready ∨
    if stream.tls.sendableTls = [] then stream.NextTells keys
    else drains stream.tcp.writes stream.tls.sendableTls.length = false

theorem Connection.ready_receive {conn : Connection} :
    (conn.receive bytes).Ready ↔ conn.Ready ∨ bytes = [] := by
  simp [Connection.receive, Connection.Ready, or_assoc]

theorem processOrFail_yields (keys : Keys) (stream : Stream) : (processOrFail keys).Yields stream
      (fun _ after => after.tls.delivered = stream.tls.delivered ∧
        (after.tls.Ready ↔ stream.tls.Told keys))
      (fun stop _ => stream.tls.Told keys ∧ ∃ kind, stop = .err kind ∧ kind ≠ .wouldBlock) := by
  have hready : _ ↔ stream.tls.Told keys := Connection.processNewPackets_ready
  have hdelivered : (stream.tls.processNewPackets keys).2.delivered = stream.tls.delivered :=
    Connection.processPackets_delivered _
  rcases hrun : stream.tls.processNewPackets keys with ⟨fine, tls⟩
  rw [hrun] at hready hdelivered
  have hprocess : (processNewPackets keys : Tls IoErrorKind Bool) stream = (.ok fine, ⟨stream.tcp, tls⟩) := by
    rw [processNewPackets, hrun]
  apply Exec.Yields.bind_of_ok hprocess
  cases fine with
  | true =>
    rw [if_pos rfl]
    exact .pure ⟨hdelivered, by simpa using hready⟩
  | false =>
    rw [if_neg Bool.false_ne_true]
    apply writeTls_any
    intro _ _
    exact .throw ⟨by simpa using hready, _, rfl, by decide⟩

theorem finishRound_yields (keys : Keys) (eof : Bool) (lens : Nat × Nat)
    (again : Tls IoErrorKind (Nat × Nat)) (stream : Stream) :
    (finishRound keys false eof lens again).Yields stream
      (fun _ after => after.tls.delivered = stream.tls.delivered ∧
        (after.tls.Ready ↔ stream.tls.Told keys))
      (fun stop _ => stream.tls.Told keys ∧ ∃ kind, stop = .err kind ∧ kind ≠ .wouldBlock) := by
  apply (processOrFail_yields keys stream).bind
  intro _ middle hmiddle
  apply Exec.Yields.get_bind
  cases eof <;> exact .pure hmiddle

theorem completeLoop_yields (keys : Keys) (fuel : Nat)
    (hblocking : stream.tcp.Blocking) (hconn : stream.tls.handshaking = false) :
    (completeLoop keys false (fuel + 1) false 0 0).Yields stream
      (fun _ after => after.tls.delivered = stream.tls.delivered ∧
        (after.tls.Ready ↔ stream.Serviceable keys))
      (fun stop _ => stream.Serviceable keys ∧ ∃ kind, stop = .err kind ∧ kind ≠ .wouldBlock) := by
  rw [completeLoop]
  apply Exec.Yields.get_bind
  refine Exec.Yields.bind ((writeAll_yields _ 0 hblocking.writes le_rfl).imp (fun _ _ h => h) ?_) ?_
  · rintro stop after ⟨hfail, hkind⟩
    refine ⟨.inr ?_, hkind⟩
    rw [if_neg]
    · exact hfail
    · intro hempty
      simp [hempty] at hfail
  rintro wrlen middle ⟨hdrains, ⟨htls, hreads⟩, -, hwrlen⟩
  dsimp only
  by_cases hempty : stream.tls.sendableTls = []
  · have hsame : middle.tls = stream.tls := by rw [htls, ← hempty]
    have hserviceable : stream.Serviceable keys ↔ stream.tls.Ready ∨ stream.NextTells keys := by
      simp [Stream.Serviceable, hempty]
    have hfinish : ∀ after eof lens again, after.tls.delivered = stream.tls.delivered →
        (after.tls.Told keys ↔ stream.Serviceable keys) →
        (finishRound keys false eof lens again).Yields after
          (fun _ final => final.tls.delivered = stream.tls.delivered ∧
            (final.tls.Ready ↔ stream.Serviceable keys))
          (fun stop _ => stream.Serviceable keys ∧ ∃ kind, stop = .err kind ∧ kind ≠ .wouldBlock) := by
      intro after eof lens again hdelivered htold
      simpa only [hdelivered, htold] using finishRound_yields keys eof lens again after
    rw [if_neg (by simp [hwrlen.mpr hempty])]
    apply Exec.Yields.get_bind
    by_cases hwants : stream.tls.wantsRead = true
    · rw [if_pos (by simpa [hsame] using hwants)]
      cases hnext : stream.tcp.reads with
      | nil =>
        have hread : middle.tcp.read = (.ok [], middle.tcp) := by rw [Socket.read, hreads, hnext]
        apply Exec.Yields.bind_of_ok (readTls_ok hread)
        apply hfinish
        · rw [← hsame]
          rfl
        · simp [hserviceable, Stream.NextTells, hnext, Connection.Told, Connection.ready_receive]
      | cons result rest =>
        cases result with
        | error kind =>
          have hread : middle.tcp.read = (.error kind, { middle.tcp with reads := rest }) := by
            rw [Socket.read, hreads, hnext]
          apply Exec.Yields.bind_of_ok (readTls_error hread)
          have hkind : kind ≠ .wouldBlock := by
            rintro rfl
            exact hblocking.reads (by simp [hnext])
          have hserves : stream.Serviceable keys := by simp [hserviceable, Stream.NextTells, hnext]
          cases kind with
          | wouldBlock => exact absurd rfl hkind
          | _ => exact .throw ⟨hserves, _, rfl, hkind⟩
        | ok bytes =>
          have hread : middle.tcp.read = (.ok bytes, { middle.tcp with reads := rest }) := by
            rw [Socket.read, hreads, hnext]
          have htold : (middle.tls.receive bytes).Told keys ↔ stream.Serviceable keys := by
            rw [hserviceable, Stream.NextTells, hnext, hsame]
            refine ⟨.inr, Or.rec (fun hready => ?_) id⟩
            exact .inr (.inl (Connection.ready_receive.mpr (.inl hready)))
          have hdelivered : (middle.tls.receive bytes).delivered = stream.tls.delivered := by
            rw [← hsame]
            rfl
          apply Exec.Yields.bind_of_ok (readTls_ok hread)
          cases bytes with
          | nil => exact hfinish _ _ _ _ hdelivered htold
          | cons byte bytes => exact hfinish _ _ _ _ hdelivered htold
    · rw [if_neg (by simpa [hsame] using hwants)]
      have hready : stream.tls.Ready := by
        rw [Connection.wantsRead_eq hconn, not_and, Bool.not_eq_false] at hwants
        by_cases hplain : stream.tls.receivedPlaintext = []
        · exact .inr (.inl (hwants hplain))
        · exact .inl hplain
      apply hfinish
      · rw [hsame]
      · simp [hserviceable, Connection.Told, hsame, hready]
  · have hpos : 0 < wrlen := by
      have := mt hwrlen.mp hempty
      omega
    rw [if_pos (by simp [hpos])]
    apply Exec.Yields.pure
    rw [htls]
    refine ⟨rfl, ?_⟩
    simp [Stream.Serviceable, hempty, hdrains, Connection.Ready]

/-- A read returns bytes of the peer in their order, or the end of the stream, or an error other
than that it would block. -/
def Serves (before : Stream) : Except (Stop ErrorKind) (List Byte) × Stream → Prop
  | (.ok bytes, after) => after.tls.delivered = before.tls.delivered ++ bytes ∧
      (bytes ≠ [] ∨ after.tls.hasReceivedCloseNotify = true)
  | (.error (.err kind), _) => kind ≠ .wouldBlk
  | (.error .fuel, _) => False

theorem errmap_ne : errmap kind ≠ .wouldBlk ↔ kind ≠ .wouldBlock := by
  cases kind <;> decide

theorem mapErr_ok {run : Tls IoErrorKind α} {after : Stream} {value : α}
    (h : run stream = (.ok value, after)) : mapErr run stream = (.ok value, after) := by
  rw [mapErr, h]

theorem mapErr_err {run : Tls IoErrorKind α} {after : Stream} (h : run stream = (.error (.err kind), after)) :
    mapErr run stream = (.error (.err (errmap kind)), after) := by
  rw [mapErr, h]

theorem reader_serves_iff (hbufs : ∃ len ∈ bufs, len ≠ 0) {before : Stream}
    (hdelivered : stream.tls.delivered = before.tls.delivered) :
    Serves before (mapErr (readerReadVectored bufs) stream) ↔ stream.tls.Ready := by
  obtain ⟨len, hfind⟩ : ∃ len, bufs.find? (· ≠ 0) = some len :=
    Option.isSome_iff_exists.mp (by simpa using hbufs)
  have hlen : len ≠ 0 := by simpa using List.find?_some hfind
  rcases Connection.read_cases hlen with
    ⟨hready, bytes, after, hread, hafter, hbytes⟩ | ⟨hready, hread⟩ | ⟨hready, hread⟩
  · rw [mapErr_ok (readerReadVectored_ok hfind hread)]
    exact iff_of_true ⟨by rw [hafter, hdelivered], hbytes⟩ hready
  · rw [mapErr_err (readerReadVectored_error hfind hread)]
    exact iff_of_true (errmap_ne.mpr (by decide)) hready
  · rw [mapErr_err (readerReadVectored_error hfind hread)]
    exact iff_of_false (fun h => h rfl) hready

/-- Reading from an established stream on a blocking socket. -/
theorem readVectored_serves_iff (keys : Keys) (fuel : Nat) {bufs : List Nat} {stream : Stream}
    (hblocking : stream.tcp.Blocking) (hconn : stream.tls.handshaking = false)
    (hbufs : ∃ len ∈ bufs, len ≠ 0) :
    Serves stream (readVectored keys (fuel + 1) bufs stream) ↔ stream.Serviceable keys := by
  have hyields := completeLoop_yields keys fuel hblocking hconn
  have hcomplete : completeIoAsync keys (fuel + 1) stream =
      completeLoop keys false (fuel + 1) false 0 0 stream := by
    have hget : (get : Tls IoErrorKind Stream) stream = (.ok stream, stream) := rfl
    rw [completeIoAsync, Exec.bind_of_ok hget, hconn]
  rcases hrun : completeLoop keys false (fuel + 1) false 0 0 stream with ⟨stop | lens, middle⟩
  · obtain ⟨hserviceable, kind, rfl, hkind⟩ := hyields.error hrun
    rw [readVectored, Exec.bind_apply, mapErr_err (hcomplete.trans hrun)]
    exact iff_of_true (errmap_ne.mpr hkind) hserviceable
  · obtain ⟨hdelivered, hready⟩ := hyields.ok hrun
    rw [readVectored, Exec.bind_of_ok (mapErr_ok (hcomplete.trans hrun)), ← hready]
    exact reader_serves_iff hbufs hdelivered

def established (sendableTls : List Byte) : Connection where
  handshaking := false
  sendableTls
  deframer := []
  records := 0
  receivedPlaintext := []
  hasReceivedCloseNotify := false
  hasSeenEof := false
  failed := false
  payload := []
  delivered := []
  inOrder := rfl

def plainKeys : Keys := fun _ record =>
  if record.head? = some 23 then some (.applicationData (record.drop 5))
  else some (.handshake [] false)

def dataRecord : List Byte := [23, 3, 3, 0, 1, 65]

theorem readVectored_serves_data : Serves ⟨⟨[.ok dataRecord], []⟩, established []⟩
      (readVectored plainKeys 1 [0, 16] ⟨⟨[.ok dataRecord], []⟩, established []⟩) ↔
    Stream.Serviceable plainKeys ⟨⟨[.ok dataRecord], []⟩, established []⟩ :=
  readVectored_serves_iff plainKeys 0 ⟨by decide, by decide⟩ rfl ⟨16, by decide, by decide⟩

/-- A record in two segments, a session ticket in front of the data, and queued output: each time
the data are on their way, and the read reports that it would block. -/
theorem blocking_read_would_block :
    ([⟨⟨[.ok (dataRecord.take 3), .ok (dataRecord.drop 3)], []⟩, established []⟩,
        ⟨⟨[.ok [22, 3, 3, 0, 1, 4], .ok dataRecord], []⟩, established []⟩,
        ⟨⟨[.ok dataRecord], []⟩, established [22, 3, 3, 0, 1, 4]⟩] : List Stream).Forall fun stream =>
      stream.tcp.Blocking ∧ stream.tls.handshaking = false ∧
        (readVectored plainKeys 1 [16] stream).1 = .error (.err .wouldBlk) := by
  simp only [List.forall_iff_forall_mem, List.mem_cons, List.not_mem_nil, or_false]
  rintro stream (rfl | rfl | rfl)
  all_goals exact ⟨⟨by decide, by decide⟩, rfl, rfl⟩

end Enarx.Wasmtime
