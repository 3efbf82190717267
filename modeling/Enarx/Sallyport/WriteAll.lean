import Enarx.Sallyport.Overflow
import Enarx.Sallyport.Results

/-!
# `shim_write_all`

The KVM shim writes its own messages through the block, with as many `write` calls
as the host and the size of the block make necessary. What the calls send is
read off the blocks with the parser of the host, what the host answers is read
off its replies.
-/
namespace Enarx.Sallyport

open Libc

variable {σ : Type} (env : Env σ) (fd : CInt) (bytes : Slice .u8)

def writeCall (buf : Slice .u8) : Call := .alloc (.syscall (.write ⟨fd, buf⟩))

def unwrapOrAttacked : Option (Except Errno α) → HandlerM σ α
  | some (.ok value) => pure value
  | some (.error errno) => throw (.err errno)
  | none => attacked env

def write (buf : Slice .u8) : HandlerM σ Nat := do
  let collected : Option (Except Errno Nat) ← execute env (writeCall fd buf)
  unwrapOrAttacked env collected

def EIO : Errno := 5

def checkedSub (errno : Errno) (left right : Nat) : HandlerM σ Nat :=
  if right ≤ left then pure (left - right) else throw (.err errno)

def sliceFrom (next : Nat) : HandlerM σ (Slice .u8) :=
  if next ≤ bytes.len then pure ⟨bytes.addr + next, bytes.len - next⟩ else throw .panic

def writeRest (toWrite : Nat) : HandlerM σ Nat := do
  let next ← checkedSub EFAULT bytes.len toWrite
  let rest ← sliceFrom bytes next
  let written ← write env fd rest
  checkedSub EIO toWrite written

/-- The bytes that the host is asked to write and its answer: the error of `sally`, or the return
word of the item. -/
structure Exchange where
  sent : List Byte
  reply : Except Errno Word

def Item.written (item : Item) : List Byte :=
  (item.data.drop (item.payload.argv.getD 1 0).toNat).take (item.payload.argv.getD 2 0).toNat

def Env.answer (block : Mem) (handed : List Mem) (item : Item) : Except Errno Word :=
  match env.sally (block :: handed) with
  | (.error errno, _) => .error errno
  | (.ok _, reply) =>
    .ok (wordOfBytes (reply.read (env.buf.base + 8 * (item.pos + 1 + item.kind.argc)) 8))

def exchange (call : Call) (guest : Guest σ) : Option Exchange :=
  match call.sallied env.buf guest.mem guest.block with
  | .ok (some block) =>
    match Block.items (block.words env.buf.base env.buf.count) with
    | .ok [item] => some ⟨item.written, env.answer block guest.handed item⟩
    | _ => none
  | _ => none

/-- What the host says it has written; an error and a count above what it was sent are not
accepted. -/
def Exchange.acknowledged (exchange : Exchange) : Option (List Byte) :=
  match exchange.reply with
  | .ok word =>
    if ERRNO_START ≤ word.toNat ∨ exchange.sent.length < word.toNat then none
    else some (exchange.sent.take word.toNat)
  | .error _ => none

/-- `shim_write_all` between two passes of its loop, with the exchanges so far. -/
structure WriteLoop (σ : Type) where
  guest : Guest σ
  toWrite : Nat
  result : Option (Except Stop Unit)
  exchanges : List Exchange

namespace WriteLoop

variable (loop : WriteLoop σ)

def rest : Slice .u8 := ⟨bytes.addr + (bytes.len - loop.toWrite), loop.toWrite⟩

def acknowledged : List (List Byte) := loop.exchanges.filterMap Exchange.acknowledged

def upcoming : Option Exchange := exchange env (writeCall fd (loop.rest bytes)) loop.guest

def turn : WriteLoop σ :=
  match loop.result with
  | some _ => loop
  | none =>
    let exchanges := loop.exchanges ++ (loop.upcoming env fd bytes).toList
    match writeRest env fd bytes loop.toWrite loop.guest with
    | (.ok toWrite, guest) =>
      ⟨guest, toWrite, if toWrite = 0 then some (.ok ()) else none, exchanges⟩
    | (.error stop, guest) => ⟨guest, loop.toWrite, some (.error stop), exchanges⟩

end WriteLoop

/-- `shim_write_all` after a number of passes; `block` says that there is a block for the call. -/
def shimWriteAll (block : Bool) (guest : Guest σ) (turns : Nat) : WriteLoop σ :=
  (WriteLoop.turn env fd bytes)^[turns]
    ⟨guest, bytes.len, if block then none else some (.error (.err EAGAIN)), []⟩

structure WriteLoop.Delivers (data : List Byte) (loop : WriteLoop σ) : Prop where
  ordered : loop.acknowledged.flatten <+: data
  ok_iff : loop.result = some (.ok ()) ↔ loop.acknowledged ≠ [] ∧ loop.acknowledged.flatten = data
  inside : loop.result ≠ some (.error .panic)
  overstated : ∀ exchange word, loop.upcoming env fd bytes = some exchange →
    exchange.reply = .ok word → exchange.sent.length < word.toNat →
    (loop.turn env fd bytes).toWrite = loop.toWrite ∧
      (loop.turn env fd bytes).acknowledged = loop.acknowledged

def acceptedCount (count : Nat) (reply : Except Errno Word) : Except Stop Nat :=
  match reply with
  | .error errno => .error (.err errno)
  | .ok word =>
    match checkedCount count (decodeSize word) with
    | some (.ok written) => .ok written
    | some (.error errno) => .error (.err errno)
    | none => .error .attacked

section

variable {env fd bytes} {guest : Guest σ} {buf : Slice .u8}

theorem sallied_of_request {call : Call} {request : Request call}
    (hrequest : call.request env.buf guest.mem = .ok request) (hsome : call.allocated guest.mem ≠ []) :
    call.sallied env.buf guest.mem guest.block = .ok (some (request.block guest.mem guest.block)) := by
  rw [Call.sallied, hrequest, Except.ok_bind, if_pos ((Request.len_pos hrequest).mpr hsome)]
  rfl

variable {base : Nat} {staged : StagedCall (.syscall (.write ⟨fd, buf⟩))} {item : Item} {input : Input .u8} {after : Guest σ} {stop : Stop} {sent : List Byte} {reply : Except Errno Word}

theorem Leaf.Encodes.written {mem : Mem}
   
    (hinput : staged.staged.staged = input)
    (h : Leaf.Encodes mem base ⟨.syscall (.write ⟨fd, buf⟩), staged⟩ item)
    (hsmall : item.data.length < 2 ^ 63) :
    item.written = mem.read buf.addr input.val.len ∧ input.val.len ≤ buf.len := by
  have hsegs : Leaf.segs ⟨.syscall (.write ⟨fd, buf⟩), staged⟩ = [input.seg] := congrArg ([Input.seg ·]) hinput
  have hcarries := h.carries
  have hargv := h.argv_eq
  rw [hsegs] at hcarries hargv
  obtain ⟨hseg, -⟩ := List.forall₂_cons.mp hcarries
  obtain ⟨count, hholds, hcount, -⟩ := hseg.holds
  have hlen : input.val.len = count := congrArg Seg.len hholds
  have hsize : input.seg.size = input.val.len := Nat.one_mul _
  have hinside := hseg.inside
  have hbytes := hseg.input nofun
  rw [hsize] at hinside hbytes
  have hoffset : (usize input.seg.offset).toNat = input.seg.offset := toNat_usize (by omega)
  have hcountWord : (usize input.val.len).toNat = input.val.len := toNat_usize (by omega)
  refine ⟨?_, hlen ▸ hcount⟩
  rw [Item.written, hargv]
  change (item.data.drop (usize input.seg.offset).toNat).take (usize input.val.len).toNat = _
  rw [hoffset, hcountWord, hbytes]
  change mem.read buf.addr (1 * input.val.len) ++ [] = _
  rw [List.append_nil, Nat.one_mul]

theorem StagedCall.collect_write (hinput : staged.staged.staged = input) (mem reply : Mem) :
    (staged.commit.result mem).collect.result reply = checkedCount input.val.len
      (decodeSize (Leaf.retWord ⟨.syscall (.write ⟨fd, buf⟩), staged⟩ reply)) ∧
    ((staged.commit.result mem).collect.log reply).filterMap Access.put? = [] := by
  constructor
  · have hcommitted : (staged.commit.result mem).committed =
        ((AllocCall.syscall (.write ⟨fd, buf⟩)).commit staged.staged.staged).result mem := rfl
    have hcheck (committed : Nat) (word : Word) :
        ((AllocCall.syscall (.write ⟨fd, buf⟩)).collect committed word).result reply =
          checkedCount committed (decodeSize word) := checkCount_result committed (decodeSize word) reply
    rw [CommittedAlloc.result_collect, hcommitted, hinput]
    exact hcheck input.val.len _
  · have hcheck (committed : (AllocCall.syscall (.write ⟨fd, buf⟩)).Committed) (word : Word) :
        ((AllocCall.syscall (.write ⟨fd, buf⟩)).collect committed word).log reply = [] :=
      checkCount_log (show Nat from committed) (decodeSize word) reply
    rw [CommittedAlloc.collect, Trace.log_bind, hcheck]
    rfl

theorem write_of_execute {collected : Option (Except Errno Nat)}
    (h : execute env (writeCall fd buf) guest = (.ok collected, after)) :
    write env fd buf guest = unwrapOrAttacked env collected after :=
  Exec.bind_of_ok h

theorem write_of_stop (h : execute env (writeCall fd buf) guest = (.error stop, after)) :
    write env fd buf guest = (.error stop, after) :=
  Exec.bind_of_error h

theorem Leaf.At.retWord_read {leaf : Leaf} (h : leaf.At base item)
    (hkind : item.kind = leaf.call.kind) (hrets : 0 < leaf.call.kind.rets) (reply : Mem) :
    leaf.retWord reply = wordOfBytes (reply.read (base + 8 * (item.pos + 1 + item.kind.argc)) 8) := by
  obtain ⟨pos, hpos, hlaid⟩ := h
  have hptr : leaf.staged.staged.retRef.ptr = base + 8 * (item.pos + 1 + item.kind.argc) := by
    rw [hlaid.ret_ptr, hpos, hkind]
    omega
  rw [Leaf.retWord, hptr, Mem.take_read reply _ (by omega)]

theorem execute_write {request : Request (writeCall fd buf)} {reply : Mem}
    (hrequest : (writeCall fd buf).request env.buf guest.mem = .ok request)
    (hinput : request.staged.staged.staged = input)
    (hsally : env.sally (request.block guest.mem guest.block :: guest.handed) = (.ok (), reply)) :
    execute env (writeCall fd buf) guest = (.ok (checkedCount input.val.len
        (decodeSize (Leaf.retWord ⟨.syscall (.write ⟨fd, buf⟩), request.staged⟩ reply))), { guest with
        block := reply, handed := request.block guest.mem guest.block :: guest.handed }) := by
  have hlen : 0 < request.len := (Request.len_pos hrequest).mpr (List.cons_ne_nil _ _)
  obtain ⟨hresult, hlog⟩ := StagedCall.collect_write hinput guest.mem reply
  simp only [execute, hrequest, if_pos hlen, hsally, Request.sally_ok hrequest]
  refine Prod.ext (congrArg Except.ok hresult) ?_
  exact congrArg (fun puts => { guest with
    mem := guest.mem.putAll puts, block := reply,
    handed := request.block guest.mem guest.block :: guest.handed }) hlog

theorem write_cases (env : Env σ) (fd : CInt) (buf : Slice .u8) (guest : Guest σ) :
    (exchange env (writeCall fd buf) guest = none ∧
      ∃ errno, (write env fd buf guest).1 = .error (.err errno)) ∨
    ∃ count reply, count ≤ buf.len ∧
      exchange env (writeCall fd buf) guest = some ⟨guest.mem.read buf.addr count, reply⟩ ∧
      (write env fd buf guest).1 = acceptedCount count reply ∧
      ∀ written, (write env fd buf guest).1 = .ok written → (write env fd buf guest).2.mem = guest.mem := by
  rcases hrequest : (writeCall fd buf).request env.buf guest.mem with (errno | _) | request
  · refine .inl ⟨?_, errno, ?_⟩
    · simp only [exchange, Call.sallied, hrequest]
      rfl
    · rw [write_of_stop (show execute env (writeCall fd buf) guest = (.error (.err errno), guest) by
        simp only [execute, hrequest, Abort.stop])]
  · exact ((Call.request_panics_iff env.buf guest.mem _).mp hrequest).2.elim
  · have hsome : (writeCall fd buf).allocated guest.mem ≠ [] := List.cons_ne_nil _ _
    have hlen : 0 < request.len := (Request.len_pos hrequest).mpr hsome
    obtain ⟨item, hitems, hencodes, hsmall, hat⟩ := Request.exists_item hrequest
      ⟨.syscall (.write ⟨fd, buf⟩), request.staged⟩ rfl guest.block
    obtain ⟨hwritten, hle⟩ := hencodes.written rfl hsmall
    have hexchange : exchange env (writeCall fd buf) guest = some
        ⟨item.written, env.answer (request.block guest.mem guest.block) guest.handed item⟩ := by
      simp only [exchange, sallied_of_request hrequest hsome, hitems]
    rw [hwritten] at hexchange
    refine .inr ⟨_, _, hle, hexchange, ?_⟩
    rcases hsally : env.sally (request.block guest.mem guest.block :: guest.handed) with
      ⟨errno | ⟨⟩, reply⟩
    · have hexecute : execute env (writeCall fd buf) guest = (.error (.err errno), { guest with
          block := reply, handed := request.block guest.mem guest.block :: guest.handed }) := by
        simp only [execute, hrequest, if_pos hlen, hsally]
      rw [write_of_stop hexecute, Env.answer, hsally]
      exact ⟨rfl, nofun⟩
    · have hanswer : env.answer (request.block guest.mem guest.block) guest.handed item =
          .ok (Leaf.retWord ⟨.syscall (.write ⟨fd, buf⟩), request.staged⟩ reply) := by
        rw [Env.answer, hsally, hat.retWord_read hencodes.kind_eq Nat.two_pos]
      rw [hanswer, acceptedCount, write_of_execute (execute_write hrequest rfl hsally)]
      rcases checkedCount _ _ with _ | errno | written
      · exact ⟨rfl, nofun⟩
      · exact ⟨rfl, nofun⟩
      · exact ⟨rfl, fun _ _ => rfl⟩

theorem acknowledged_of_ok {written : Nat} (h : acceptedCount sent.length reply = .ok written) :
    written ≤ sent.length ∧ Exchange.acknowledged ⟨sent, reply⟩ = some (sent.take written) := by
  unfold acceptedCount at h
  unfold Exchange.acknowledged
  cases reply with
  | error errno => cases h
  | ok word =>
    simp only [decodeSize] at h
    split at h
    · next hchecked =>
      cases h
      split at hchecked
      · cases hchecked
      · next herrno =>
        simp only [checkedCount] at hchecked
        split at hchecked
        · cases hchecked
        · next hle =>
          cases hchecked
          exact ⟨Nat.not_lt.mp hle, if_neg (not_or.mpr ⟨herrno, hle⟩)⟩
    · cases h
    · cases h

theorem acknowledged_of_stop (h : acceptedCount sent.length reply = .error stop) :
    stop ≠ .panic ∧ Exchange.acknowledged ⟨sent, reply⟩ = none := by
  unfold acceptedCount at h
  unfold Exchange.acknowledged
  cases reply with
  | error errno =>
    cases h
    exact ⟨(by intro h; cases h), rfl⟩
  | ok word =>
    simp only [decodeSize] at h
    split at h
    · cases h
    · next hchecked =>
      cases h
      refine ⟨(by intro h; cases h), if_pos ?_⟩
      split at hchecked
      · next herrno => exact .inl herrno
      · simp only [checkedCount] at hchecked
        split at hchecked <;> cases hchecked
    · next hchecked =>
      cases h
      refine ⟨(by intro h; cases h), if_pos ?_⟩
      split at hchecked
      · cases hchecked
      · simp only [checkedCount] at hchecked
        split at hchecked
        · next hlarge => exact .inr hlarge
        · cases hchecked

end

namespace WriteLoop

variable {env fd bytes} {loop : WriteLoop σ}

theorem writeRest_eq (hle : loop.toWrite ≤ bytes.len) : writeRest env fd bytes loop.toWrite =
      (write env fd (loop.rest bytes) >>= checkedSub EIO loop.toWrite) := by
  have hrest : bytes.len - (bytes.len - loop.toWrite) = loop.toWrite := by omega
  unfold writeRest checkedSub sliceFrom
  rw [if_pos hle, pure_bind, if_pos (Nat.sub_le _ _), pure_bind, hrest]
  rfl

/-- A pass that ends the loop with an error, or acknowledges some of the remaining bytes. -/
inductive Passes (bytes : Slice .u8) (loop next : WriteLoop σ) : Prop where
  | stopped (stop : Stop) (hstop : stop ≠ .panic) (hresult : next.result = some (.error stop))
      (htoWrite : next.toWrite = loop.toWrite) (hsame : next.acknowledged = loop.acknowledged)
  | wrote (written : Nat) (hle : written ≤ loop.toWrite)
      (hresult : next.result = if next.toWrite = 0 then some (.ok ()) else none)
      (hguest : next.guest.mem = loop.guest.mem)
      (htoWrite : next.toWrite = loop.toWrite - written)
      (hmore : next.acknowledged =
        loop.acknowledged ++ [loop.guest.mem.read (loop.rest bytes).addr written])

variable {after : Guest σ} {mem : Mem}

theorem turn_of_stop {stop : Stop} (hresult : loop.result = none)
    (h : writeRest env fd bytes loop.toWrite loop.guest = (.error stop, after)) :
    loop.turn env fd bytes = ⟨after, loop.toWrite, some (.error stop),
      loop.exchanges ++ (loop.upcoming env fd bytes).toList⟩ := by
  simp only [turn, hresult, h]

theorem turn_of_ok {toWrite : Nat} (hresult : loop.result = none)
    (h : writeRest env fd bytes loop.toWrite loop.guest = (.ok toWrite, after)) :
    loop.turn env fd bytes = ⟨after, toWrite, if toWrite = 0 then some (.ok ()) else none,
      loop.exchanges ++ (loop.upcoming env fd bytes).toList⟩ := by
  simp only [turn, hresult, h]

theorem turn_exchanges (hresult : loop.result = none) : (loop.turn env fd bytes).exchanges =
      loop.exchanges ++ (loop.upcoming env fd bytes).toList := by
  rcases hrun : writeRest env fd bytes loop.toWrite loop.guest with ⟨stop | toWrite, after⟩
  · rw [turn_of_stop hresult hrun]
  · rw [turn_of_ok hresult hrun]

theorem turn_passes (hresult : loop.result = none) (hle : loop.toWrite ≤ bytes.len) :
    Passes bytes loop (loop.turn env fd bytes) := by
  have hwrite := write_cases env fd (loop.rest bytes) loop.guest
  rcases hrun : write env fd (loop.rest bytes) loop.guest with ⟨stop | written, after⟩
  · have hstop : writeRest env fd bytes loop.toWrite loop.guest = (.error stop, after) := by
      rw [writeRest_eq hle]
      exact Exec.bind_of_error hrun
    rw [hrun] at hwrite
    rw [turn_of_stop hresult hstop]
    rcases hwrite with ⟨hnone, errno, herrno⟩ | ⟨count, reply, -, hexchange, haccepted, -⟩
    · cases herrno
      refine .stopped (.err errno) nofun rfl rfl ?_
      simp [acknowledged, upcoming, hnone]
    · have hlength : (loop.guest.mem.read (loop.rest bytes).addr count).length = count :=
        Mem.length_read ..
      rw [← hlength] at haccepted
      obtain ⟨hne, hack⟩ := acknowledged_of_stop haccepted.symm
      refine .stopped stop hne rfl rfl ?_
      simp [acknowledged, upcoming, hexchange, hack]
  · rw [hrun] at hwrite
    rcases hwrite with ⟨-, errno, herrno⟩ | ⟨count, reply, hcount, hexchange, haccepted, hmem⟩
    · cases herrno
    · have hlength : (loop.guest.mem.read (loop.rest bytes).addr count).length = count :=
        Mem.length_read ..
      rw [← hlength] at haccepted
      obtain ⟨hwritten, hack⟩ := acknowledged_of_ok haccepted.symm
      rw [hlength] at hwritten
      rw [Mem.take_read _ _ hwritten] at hack
      have hsub : written ≤ loop.toWrite := hwritten.trans hcount
      have hok : writeRest env fd bytes loop.toWrite loop.guest = (.ok (loop.toWrite - written), after) := by
        rw [writeRest_eq hle, Exec.bind_of_ok hrun, checkedSub, if_pos hsub]
        rfl
      rw [turn_of_ok hresult hok]
      refine .wrote written hsub rfl (hmem written rfl) rfl ?_
      simp [acknowledged, upcoming, hexchange, hack]

structure Kept (mem : Mem) (bytes : Slice .u8) (loop : WriteLoop σ) : Prop where
  le : loop.toWrite ≤ bytes.len
  mem_eq : loop.result = none → loop.guest.mem = mem
  flatten : loop.acknowledged.flatten = mem.read bytes.addr (bytes.len - loop.toWrite)
  ok_iff : loop.result = some (.ok ()) ↔ loop.acknowledged ≠ [] ∧ loop.toWrite = 0
  inside : loop.result ≠ some (.error .panic)

theorem Kept.turn (h : Kept mem bytes loop) : Kept mem bytes (loop.turn env fd bytes) := by
  rcases hresult : loop.result with _ | result
  · have hmem := h.mem_eq hresult
    have hle := h.le
    rcases (turn_passes hresult h.le : Passes bytes loop (loop.turn env fd bytes)) with
      ⟨stop, hstop, hended, htoWrite, hsame⟩ | ⟨written, hwritten, hended, hguest, htoWrite, hmore⟩
    · refine ⟨htoWrite ▸ h.le, ?_, ?_, ?_, ?_⟩
      · rw [hended]
        exact nofun
      · rw [hsame, htoWrite, h.flatten]
      · rw [hended, hsame, htoWrite, ← h.ok_iff, hresult]
        simp
      · rw [hended]
        simpa using hstop
    · refine ⟨by omega, fun _ => hguest.trans hmem, ?_, ?_, ?_⟩
      · have hsplit : bytes.len - (loop.turn env fd bytes).toWrite =
            (bytes.len - loop.toWrite) + written := by omega
        rw [hmore, List.flatten_append, h.flatten, hsplit, Mem.read_add, hmem]
        simp [rest]
      · rw [hended, hmore]
        split <;> simp_all
      · rw [hended]
        split <;> simp
  · have hsame : loop.turn env fd bytes = loop := by simp only [WriteLoop.turn, hresult]
    rw [hsame]
    exact h

theorem Kept.turns (h : Kept mem bytes loop) (turns : Nat) :
    Kept mem bytes ((WriteLoop.turn env fd bytes)^[turns] loop) := by
  induction turns with
  | zero => exact h
  | succ turns ih =>
    rw [Function.iterate_succ_apply']
    exact ih.turn

end WriteLoop

theorem shimWriteAll_kept (block : Bool) (guest : Guest σ) (turns : Nat) :
    (shimWriteAll env fd bytes block guest turns).Kept guest.mem bytes := by
  apply WriteLoop.Kept.turns
  refine ⟨Nat.le_refl _, fun _ => rfl, ?_, ?_, ?_⟩
  · simp [WriteLoop.acknowledged]
  · cases block <;> simp [WriteLoop.acknowledged]
  · cases block <;> simp

theorem WriteLoop.Kept.overstated {mem : Mem} {loop : WriteLoop σ} (h : loop.Kept mem bytes)
    {exchange : Exchange} {word : Word} (hupcoming : loop.upcoming env fd bytes = some exchange)
    (hreply : exchange.reply = .ok word) (hlarge : exchange.sent.length < word.toNat) :
    (loop.turn env fd bytes).toWrite = loop.toWrite ∧
      (loop.turn env fd bytes).acknowledged = loop.acknowledged := by
  rcases hresult : loop.result with _ | result
  · have hrefused : exchange.acknowledged = none := by
      rw [Exchange.acknowledged, hreply]
      exact if_pos (.inr hlarge)
    have hsame : (loop.turn env fd bytes).acknowledged = loop.acknowledged := by
      rw [WriteLoop.acknowledged, WriteLoop.turn_exchanges hresult, hupcoming]
      simp [WriteLoop.acknowledged, hrefused]
    refine ⟨?_, hsame⟩
    rcases (WriteLoop.turn_passes hresult h.le :
        WriteLoop.Passes bytes loop (loop.turn env fd bytes)) with
      ⟨stop, _, _, htoWrite, _⟩ | ⟨written, _, _, _, _, hmore⟩
    · exact htoWrite
    · rw [hsame] at hmore
      simp at hmore
  · have hended : loop.turn env fd bytes = loop := by simp only [WriteLoop.turn, hresult]
    rw [hended]
    exact ⟨rfl, rfl⟩

/-- Whatever the host answers, after any number of passes the accepted replies acknowledge a prefix
of the bytes, and the call has succeeded exactly if there is one and they acknowledge all. -/
theorem shim_write_all_delivers (block : Bool) (guest : Guest σ) (turns : Nat) :
    (shimWriteAll env fd bytes block guest turns).Delivers env fd bytes
      (guest.mem.read bytes.addr bytes.len) := by
  have hkept := shimWriteAll_kept env fd bytes block guest turns
  generalize shimWriteAll env fd bytes block guest turns = loop at hkept
  have hle := hkept.le
  have htake : loop.acknowledged.flatten =
      (guest.mem.read bytes.addr bytes.len).take (bytes.len - loop.toWrite) := by
    rw [hkept.flatten, Mem.take_read _ _ (Nat.sub_le _ _)]
  refine ⟨htake ▸ List.take_prefix _ _, ?_, hkept.inside, fun _ _ => hkept.overstated env fd bytes⟩
  have hall : loop.acknowledged.flatten = guest.mem.read bytes.addr bytes.len ↔
      loop.toWrite = 0 := by
    constructor
    · intro hflatten
      have hlength := congrArg List.length (htake.symm.trans hflatten)
      rw [List.length_take, Mem.length_read] at hlength
      omega
    · intro hdone
      rw [hkept.flatten, hdone, Nat.sub_zero]
  rw [hkept.ok_iff, hall]

/-- A host that fails the only write of an empty string with `EBADF`. -/
theorem shim_write_all_empty_fails :
    (shimWriteAll (returning (BitVec.ofInt 64 (-9))) 2 ⟨4096, 0⟩ true idleGuest 1).result =
        some (.error (.err 9)) ∧
      (shimWriteAll (returning (BitVec.ofInt 64 (-9))) 2 ⟨4096, 0⟩ true idleGuest 1).acknowledged.flatten =
        idleGuest.mem.read 4096 0 := by
  decide +kernel

end Enarx.Sallyport
