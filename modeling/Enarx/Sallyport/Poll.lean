import Enarx.Sallyport.Failure
import Enarx.Sallyport.WriteAll

/-!
# `poll`

The kernel returns how many entries of the array are ready, wherever they are.
What the guest copies back is that many entries from the front of the array.
-/
namespace Enarx.Sallyport

open Libc

structure Pollfd where
  fd : BitVec 32
  events : BitVec 16
  revents : BitVec 16
  deriving DecidableEq, Repr

namespace Pollfd

def bytes (entry : Pollfd) : List Byte :=
  leBytes 4 entry.fd.toNat ++ leBytes 2 entry.events.toNat ++ leBytes 2 entry.revents.toNat

def ofBytes (bytes : List Byte) : Pollfd where
  fd := BitVec.ofNat 32 (leNat (bytes.take 4))
  events := BitVec.ofNat 16 (leNat ((bytes.drop 4).take 2))
  revents := BitVec.ofNat 16 (leNat (bytes.drop 6))

@[simp] theorem length_bytes (entry : Pollfd) : entry.bytes.length = 8 := by
  simp [bytes]

@[simp] theorem ofBytes_bytes (entry : Pollfd) : ofBytes entry.bytes = entry := by
  obtain ⟨fd, events, revents⟩ := entry
  have hlast : (bytes ⟨fd, events, revents⟩).drop 6 = leBytes 2 revents.toNat :=
    List.drop_left' (by simp)
  have hmod (width : Nat) (x : BitVec width) : BitVec.ofNat width (x.toNat % 2 ^ width) = x := by
    rw [Nat.mod_eq_of_lt x.isLt, BitVec.ofNat_toNat, BitVec.setWidth_eq]
  rw [ofBytes, hlast]
  simp only [bytes, List.append_assoc, List.take_left' (length_leBytes ..),
    List.drop_left' (length_leBytes ..), leNat_leBytes]
  congr 1
  · exact hmod 32 fd
  · exact hmod 16 events
  · exact hmod 16 revents

end Pollfd

def pollfdsAt (mem : Mem) (addr len : Nat) : List Pollfd :=
  (List.range len).map fun index => .ofBytes (mem.read (addr + 8 * index) 8)

@[simp] theorem length_pollfdsAt (mem : Mem) (addr len : Nat) : (pollfdsAt mem addr len).length = len := by
  simp [pollfdsAt]

theorem pollfdsAt_add (mem : Mem) (addr m n : Nat) :
    pollfdsAt mem addr (m + n) = pollfdsAt mem addr m ++ pollfdsAt mem (addr + 8 * m) n := by
  simp only [pollfdsAt, List.range_add, List.map_append, List.map_map]
  congr 1
  apply List.map_congr_left
  intro index _
  simp only [Function.comp, Nat.mul_add, Nat.add_assoc]

variable {left right : Mem} {addr len ptr : Nat} {entries : List Pollfd}

theorem pollfdsAt_congr (h : ∀ x, addr ≤ x → x < addr + 8 * len → left x = right x) :
    pollfdsAt left addr len = pollfdsAt right addr len := by
  apply List.map_congr_left
  intro index hindex
  rw [List.mem_range] at hindex
  rw [Mem.read_congr fun x hx hx' => h x (by omega) (by omega)]

@[simp] theorem length_flatMap_bytes (entries : List Pollfd) :
    (entries.flatMap Pollfd.bytes).length = 8 * entries.length := by
  induction entries with
  | nil => rfl
  | cons entry rest ih =>
    rw [List.flatMap_cons, List.length_append, Pollfd.length_bytes, ih, List.length_cons]
    omega

theorem pollfdsAt_eq_of_read {mem : Mem}
    (h : mem.read addr (8 * entries.length) = entries.flatMap Pollfd.bytes) :
    pollfdsAt mem addr entries.length = entries := by
  induction entries generalizing addr with
  | nil => rfl
  | cons entry rest ih =>
    rw [List.length_cons, Nat.mul_add, Nat.mul_one, Nat.add_comm, Mem.read_add,
      List.flatMap_cons] at h
    obtain ⟨hhead, htail⟩ := List.append_inj h (by simp)
    rw [List.length_cons, Nat.add_comm, pollfdsAt_add, ih htail]
    simp [pollfdsAt, hhead]

theorem pollfdsAt_eq_of_reads (h : left.read addr (8 * len) = right.read ptr (8 * len)) :
    pollfdsAt left addr len = pollfdsAt right ptr len := by
  apply List.map_congr_left
  intro index hindex
  rw [List.mem_range] at hindex
  rw [← Mem.take_drop_read left (show 8 * index + 8 ≤ 8 * len by omega), h,
    Mem.take_drop_read right (by omega)]

theorem pollfdsAt_copy (mem block : Mem) {count : Nat} (h : count ≤ len) :
    pollfdsAt (mem.write addr (block.read ptr (8 * count))) addr len =
      (pollfdsAt block ptr len).take count ++ (pollfdsAt mem addr len).drop count := by
  obtain ⟨rest, rfl⟩ := Nat.exists_eq_add_of_le h
  simp only [pollfdsAt_add, List.take_left' (length_pollfdsAt ..),
    List.drop_left' (length_pollfdsAt ..)]
  congr 1
  · apply pollfdsAt_eq_of_reads
    simpa using mem.read_write addr (block.read ptr (8 * count))
  · apply pollfdsAt_congr
    intro x hx _
    exact Mem.write_outside mem (by simp; omega)

/-- The kernel fills in `revents` and leaves the rest of an entry. -/
def fillRevents (entries : List Pollfd) (revents : List (BitVec 16)) : List Pollfd :=
  entries.zipWith (fun entry revents => { entry with revents }) revents

def readyCount (revents : List (BitVec 16)) : Nat := revents.countP (· ≠ 0)

/-- The block after an honest host has executed the item of a `poll` in it. -/
def answerPoll (buf : BlockBuf) (revents : List (BitVec 16)) (block : Mem) : Mem :=
  match Block.items (block.words buf.base buf.count) with
  | .ok [item] =>
    match Host.execute buf.base item with
    | .ok (some (.syscall ⟨.poll, [.ptr fds, _, _]⟩)) =>
      let entries := fillRevents (pollfdsAt block fds.addr fds.len) revents
      (block.write fds.addr (entries.flatMap Pollfd.bytes)).write
        (buf.base + 8 * (item.pos + 1 + item.kind.argc)) (wordBytes (usize (readyCount revents)))
    | _ => block
  | _ => block

@[simp] theorem length_fillRevents (entries : List Pollfd) (revents : List (BitVec 16)) :
    (fillRevents entries revents).length = min entries.length revents.length := by
  simp [fillRevents]

theorem drop_fillRevents (entries : List Pollfd) (revents : List (BitVec 16)) (count : Nat) :
    (fillRevents entries revents).drop count = fillRevents (entries.drop count) (revents.drop count) := by
  simp [fillRevents, List.drop_zipWith]

theorem fillRevents_eq_self_iff {revents : List (BitVec 16)} (h : revents.length = entries.length) :
    fillRevents entries revents = entries ↔ revents = entries.map Pollfd.revents := by
  induction entries generalizing revents with
  | nil => simpa [fillRevents] using h
  | cons entry rest ih =>
    obtain ⟨first, more, rfl⟩ := List.exists_cons_of_length_eq_add_one h
    have hmore : more.length = rest.length := by simpa using h
    rw [fillRevents, List.zipWith_cons_cons, List.cons.injEq, List.map_cons, List.cons.injEq]
    exact and_congr ⟨fun heq => congrArg Pollfd.revents heq, fun heq => by rw [heq]⟩ (ih hmore)

theorem readyCount_le (revents : List (BitVec 16)) : readyCount revents ≤ revents.length :=
  List.countP_le_length

section

variable {σ : Type} (env : Env σ) (fds : Slice pollfd) (timeout : CInt)

def pollCall : Call := .alloc (.syscall (.poll ⟨fds, timeout⟩))

def poll : HandlerM σ CInt := do
  let collected : Option (Except Errno CInt) ← execute env (pollCall fds timeout)
  unwrapOrAttacked env collected

variable {env fds timeout} {guest : Guest σ}

def collectPoll (inout : InOut pollfd) (word : Word) : CollectM (Option (Except Errno CInt)) :=
  Poll.collect ⟨inout.val, inout.dataRef⟩ (decodeInt word)

variable {inout : InOut pollfd} {word : Word} {reply : Mem}
  {request : Request (pollCall fds timeout)} {revents : List (BitVec 16)}

theorem StagedCall.collect_poll {staged : StagedCall (.syscall (.poll ⟨fds, timeout⟩))}
    (hinout : staged.staged.staged = inout)
    (hword : Leaf.retWord ⟨.syscall (.poll ⟨fds, timeout⟩), staged⟩ reply = word) (mem : Mem) :
    (staged.commit.result mem).collect.result reply = (collectPoll inout word).result reply ∧
    collectInto mem ((staged.commit.result mem).collect.log reply) =
      collectInto mem ((collectPoll inout word).log reply) := by
  have hcommitted : (staged.commit.result mem).committed =
      ((AllocCall.syscall (.poll ⟨fds, timeout⟩)).commit staged.staged.staged).result mem := rfl
  have hcollect (ret : Word) :
      (AllocCall.syscall (.poll ⟨fds, timeout⟩)).collect
        (((AllocCall.syscall (.poll ⟨fds, timeout⟩)).commit inout).result mem) ret =
      collectPoll inout ret := rfl
  constructor
  · rw [CommittedAlloc.result_collect, hcommitted, hinout, hcollect]
    exact congrArg (fun word => (collectPoll inout word).result reply) hword
  · rw [CommittedAlloc.collectInto_collect, hcommitted, hinout, hcollect]
    exact congrArg (fun word => collectInto mem ((collectPoll inout word).log reply)) hword

theorem execute_poll
   
    (hrequest : (pollCall fds timeout).request env.buf guest.mem = .ok request)
    (hinout : request.staged.staged.staged = inout)
    (hword : Leaf.retWord ⟨.syscall (.poll ⟨fds, timeout⟩), request.staged⟩ reply = word)
    (hsally : env.sally (request.block guest.mem guest.block :: guest.handed) = (.ok (), reply)) :
    execute env (pollCall fds timeout) guest = (.ok ((collectPoll inout word).result reply),
      { guest with
        mem := collectInto guest.mem ((collectPoll inout word).log reply), block := reply
        handed := request.block guest.mem guest.block :: guest.handed }) := by
  have hlen : 0 < request.len := (Request.len_pos hrequest).mpr (List.cons_ne_nil _ _)
  obtain ⟨hresult, hmem⟩ := StagedCall.collect_poll hinout hword guest.mem
  simp only [execute, hrequest, if_pos hlen, hsally, Request.sally_ok hrequest]
  refine Prod.ext (congrArg Except.ok hresult) ?_
  exact congrArg (fun mem => { guest with
    mem, block := reply, handed := request.block guest.mem guest.block :: guest.handed }) hmem

theorem pollfdsAt_request (hrequest : (pollCall fds timeout).request env.buf guest.mem = .ok request)
    (hinout : request.staged.staged.staged = inout) : inout.val = fds ∧
      pollfdsAt (request.block guest.mem guest.block) inout.dataRef.ptr fds.len =
        pollfdsAt guest.mem fds.addr fds.len := by
  have hsegs : Leaf.segs ⟨.syscall (.poll ⟨fds, timeout⟩), request.staged⟩ = [inout.seg] :=
    congrArg ([InOut.seg ·]) hinout
  have hholds := Call.request_holds hrequest (List.mem_singleton_self _)
  rw [hsegs] at hholds
  have hval : inout.val = fds := (List.forall₂_cons.mp hholds).1.val_eq nofun rfl rfl
  have hstored := Leaf.stored_seg (Request.stored_leaf hrequest (List.mem_singleton_self _)
    guest.block) (hsegs ▸ List.mem_singleton_self _)
  have hread : (request.block guest.mem guest.block).read inout.dataRef.ptr
      (8 * inout.val.len) = guest.mem.read inout.val.addr (8 * inout.val.len) := by
    have hsize : pollfd.size = 8 := by decide
    simpa [InOut.seg, Slice.span, Mem.gather, hsize] using hstored.read_scatter
  generalize inout.dataRef.ptr = ptr at hread ⊢
  rw [hval] at hread
  exact ⟨hval, pollfdsAt_eq_of_reads hread⟩

theorem answerPoll_request
   
    (hrequest : (pollCall fds timeout).request env.buf guest.mem = .ok request)
    (hinout : request.staged.staged.staged = inout) (hlen : revents.length = fds.len)
    (hreply : reply = answerPoll env.buf revents (request.block guest.mem guest.block)) :
    fds.len < 2 ^ 63 ∧
    Leaf.retWord ⟨.syscall (.poll ⟨fds, timeout⟩), request.staged⟩ reply =
        usize (readyCount revents) ∧
    pollfdsAt reply inout.dataRef.ptr fds.len =
      fillRevents (pollfdsAt guest.mem fds.addr fds.len) revents := by
  obtain ⟨item, hitems, hencodes, hsmall, hat⟩ := Request.exists_item hrequest
    ⟨.syscall (.poll ⟨fds, timeout⟩), request.staged⟩ rfl guest.block
  obtain ⟨hval, harray⟩ := pollfdsAt_request hrequest hinout
  have hsegs : Leaf.segs ⟨.syscall (.poll ⟨fds, timeout⟩), request.staged⟩ = [inout.seg] :=
    congrArg ([InOut.seg ·]) hinout
  have husable := hencodes.usable env.buf.aligned env.buf.aligned
  have hexecute := AllocCall.host_execute _ hencodes.kind_eq hencodes.num_eq hencodes.argv_eq
    husable hsmall trivial
  have hptr : inout.dataRef.ptr = (inout.seg.hostPtr (Host.itemData env.buf.base item).base).addr :=
    hencodes.ptr_eq inout.seg (hsegs ▸ List.mem_singleton_self _)
  rw [hsegs] at hexecute
  have hfds : inout.seg.len = fds.len := congrArg Slice.len hval
  have hbounded : fds.len < 2 ^ 63 := by
    rw [hsegs] at husable
    have hinside := (List.forall₂_cons.mp husable).1.carries.inside
    have hsize : inout.seg.size = 8 * inout.seg.len := rfl
    simp only [Host.itemData] at hinside
    omega
  generalize hkernel : fillRevents (pollfdsAt guest.mem fds.addr fds.len) revents = kernel
  have hlength : kernel.length = fds.len := by simp [← hkernel, hlen]
  have hwritten : reply = ((request.block guest.mem guest.block).write inout.dataRef.ptr
      (kernel.flatMap Pollfd.bytes)).write
        (env.buf.base + 8 * (item.pos + 1 + item.kind.argc))
        (wordBytes (usize (readyCount revents))) := by
    rw [hreply, ← hkernel, ← harray, hptr, ← hfds]
    simp only [answerPoll, hitems, hexecute]
    rfl
  -- the return words lie before the data
  have hbefore : env.buf.base + 8 * (item.pos + 1 + item.kind.argc) + 8 ≤ inout.dataRef.ptr := by
    have hkind : item.kind = .syscall := hencodes.kind_eq
    rw [hptr, hkind]
    simp only [Seg.hostPtr, Host.itemData, hkind, ItemKind.usizeCount, ItemKind.argc,
      ItemKind.rets]
    omega
  refine ⟨hbounded, ?_, ?_⟩
  · have hread := Mem.read_write ((request.block guest.mem guest.block).write inout.dataRef.ptr
      (kernel.flatMap Pollfd.bytes)) (env.buf.base + 8 * (item.pos + 1 + item.kind.argc))
      (wordBytes (usize (readyCount revents)))
    rw [length_wordBytes, ← hwritten] at hread
    rw [hat.retWord_read hencodes.kind_eq Nat.two_pos, hread, wordOfBytes_wordBytes]
  · rw [← hlength]
    apply pollfdsAt_eq_of_read
    rw [hwritten, Mem.read_write_frame _ (.inr (by simpa using hbefore)),
      ← length_flatMap_bytes, Mem.read_write]

theorem decodeInt_large (h : Linux.INT_MAX < word.toNat) : ∃ errno, decodeInt word = .error errno := by
  unfold decodeInt
  unfold Linux.INT_MAX at h
  split
  · exact ⟨_, rfl⟩
  · rw [if_neg (Nat.not_le.mpr h)]
    exact ⟨_, rfl⟩

theorem collectPoll_eq (hsmall : word.toNat ≤ Linux.INT_MAX) (hcount : word.toNat ≤ inout.val.len) :
    collectPoll inout word = (do
      copyToIter inout.dataRef.ptr [⟨inout.val.addr, 8 * word.toNat⟩]
      return some (.ok (usizeAsInt word))) := by
  have hret : Count.count (usizeAsInt word) = word.toNat :=
    congrArg BitVec.toNat (Linux.intAsUsize_usizeAsInt hsmall)
  rw [collectPoll, Linux.decodeInt_small hsmall, Poll.collect, collectCount,
    dif_neg (by rw [hret]; exact Nat.not_lt.mpr hcount), Output.collectRange, hret]
  rfl

theorem collectPoll_ok {ret : CInt} {guest after : Guest σ}
    (h : unwrapOrAttacked env ((collectPoll inout word).result reply) guest = (.ok ret, after))
    (hcount : word.toNat ≤ inout.val.len) (mem : Mem) :
    (intAsUsize ret).toNat = word.toNat ∧ after = guest ∧
      collectInto mem ((collectPoll inout word).log reply) =
        mem.write inout.val.addr (reply.read inout.dataRef.ptr (8 * word.toNat)) := by
  rcases Nat.lt_or_ge Linux.INT_MAX word.toNat with hlarge | hsmall
  · obtain ⟨errno, hdecode⟩ := decodeInt_large hlarge
    have herror : (collectPoll inout word).result reply = some (.error errno) := by
      rw [collectPoll, hdecode]
      rfl
    rw [herror] at h
    cases h
  · rw [collectPoll_eq hsmall hcount] at h ⊢
    cases h
    exact ⟨congrArg BitVec.toNat (Linux.intAsUsize_usizeAsInt hsmall), rfl, rfl⟩

theorem exists_poll (hrequest : (pollCall fds timeout).request env.buf guest.mem = .ok request)
    (hlen : revents.length = fds.len) (hsally : ∀ block, env.sally (block :: guest.handed) =
      (.ok (), answerPoll env.buf revents block)) (hready : readyCount revents ≤ Linux.INT_MAX) :
    ∃ after, poll env fds timeout guest = (.ok (usizeAsInt (usize (readyCount revents))), after) := by
  obtain ⟨inout, hinout⟩ : ∃ inout : InOut pollfd, request.staged.staged.staged = inout :=
    ⟨_, rfl⟩
  obtain ⟨hval, -⟩ := pollfdsAt_request hrequest hinout
  obtain ⟨-, hword, -⟩ := answerPoll_request hrequest hinout hlen rfl
  have hexecute := execute_poll hrequest hinout hword (hsally _)
  have htoNat : (usize (readyCount revents)).toNat = readyCount revents :=
    toNat_usize (hready.trans_lt (by decide))
  have hle : readyCount revents ≤ inout.val.len := by
    rw [hval, ← hlen]
    exact readyCount_le revents
  rw [collectPoll_eq (by rwa [htoNat]) (by rwa [htoNat])] at hexecute
  exact ⟨_, Exec.bind_of_ok hexecute⟩

theorem pollfdsAt_poll {ret : CInt} {after : Guest σ} (hlen : revents.length = fds.len)
    (hsally : ∀ block, env.sally (block :: guest.handed) = (.ok (), answerPoll env.buf revents block))
    (hpoll : poll env fds timeout guest = (.ok ret, after)) :
    (intAsUsize ret).toNat = readyCount revents ∧ pollfdsAt after.mem fds.addr fds.len =
        (fillRevents (pollfdsAt guest.mem fds.addr fds.len) revents).take (readyCount revents) ++
          (pollfdsAt guest.mem fds.addr fds.len).drop (readyCount revents) := by
  rcases hrequest : (pollCall fds timeout).request env.buf guest.mem with abort | request
  · have hstop : execute env (pollCall fds timeout) guest = (.error abort.stop, guest) := by
      simp only [execute, hrequest]
    cases (Exec.bind_of_error hstop).symm.trans hpoll
  obtain ⟨inout, hinout⟩ : ∃ inout : InOut pollfd, request.staged.staged.staged = inout :=
    ⟨_, rfl⟩
  obtain ⟨hval, -⟩ := pollfdsAt_request hrequest hinout
  obtain ⟨hbounded, hword, harray⟩ := answerPoll_request hrequest hinout hlen rfl
  have hexecute := execute_poll hrequest hinout hword (hsally _)
  have hrun := (Exec.bind_of_ok hexecute).symm.trans hpoll
  have hready : readyCount revents ≤ fds.len := hlen ▸ readyCount_le revents
  have htoNat : (usize (readyCount revents)).toNat = readyCount revents :=
    toNat_usize (by omega)
  obtain ⟨hret, rfl, hmem⟩ := collectPoll_ok hrun (by rw [htoNat, hval]; exact hready) guest.mem
  rw [htoNat] at hret hmem
  refine ⟨hret, ?_⟩
  rw [hmem, congrArg Slice.addr hval, pollfdsAt_copy _ _ hready, harray]

end

/-- The caller's array is the kernel's exactly if the kernel changed nothing behind the first
entries, as many as are ready. -/
theorem poll_reports_iff {σ : Type} (env : Env σ) (guest after : Guest σ) (fds : Slice pollfd)
    (timeout ret : CInt) (revents : List (BitVec 16)) (hlen : revents.length = fds.len)
    (hsally : ∀ block, env.sally (block :: guest.handed) = (.ok (), answerPoll env.buf revents block))
    (hpoll : poll env fds timeout guest = (.ok ret, after)) :
    (intAsUsize ret).toNat = readyCount revents ∧
    (pollfdsAt after.mem fds.addr fds.len = fillRevents (pollfdsAt guest.mem fds.addr fds.len) revents ↔
      ∀ index, readyCount revents ≤ index →
        revents[index]? = ((pollfdsAt guest.mem fds.addr fds.len)[index]?).map Pollfd.revents) := by
  obtain ⟨hret, harray⟩ := pollfdsAt_poll hlen hsally hpoll
  refine ⟨hret, ?_⟩
  generalize hentries : pollfdsAt guest.mem fds.addr fds.len = entries at harray ⊢
  have hlength : entries.length = fds.len := by rw [← hentries, length_pollfdsAt]
  generalize readyCount revents = count at harray ⊢
  calc pollfdsAt after.mem fds.addr fds.len = fillRevents entries revents
    _ ↔ (fillRevents entries revents).take count ++ entries.drop count =
        (fillRevents entries revents).take count ++ (fillRevents entries revents).drop count := by
      rw [harray, List.take_append_drop]
    _ ↔ fillRevents (entries.drop count) (revents.drop count) = entries.drop count := by
      rw [List.append_cancel_left_eq, drop_fillRevents, eq_comm]
    _ ↔ revents.drop count = (entries.drop count).map Pollfd.revents :=
      fillRevents_eq_self_iff (by simp [hlen, hlength])
    _ ↔ ∀ index, count ≤ index → revents[index]? = (entries[index]?).map Pollfd.revents := by
      rw [List.ext_getElem?_iff]
      simp only [List.getElem?_drop, List.getElem?_map]
      constructor
      · intro h index hindex
        obtain ⟨more, rfl⟩ := Nat.exists_eq_add_of_le hindex
        exact h more
      · intro h more
        exact h _ (Nat.le_add_right _ _)

def polling (revents : List (BitVec 16)) : Env Unit :=
  { returning 0 with
    sally := fun handed =>
      (.ok (), answerPoll (returning 0).buf revents (handed.headD fun _ => 0)) }

def twoPolled : Guest Unit :=
  { idleGuest with mem := fun addr => ([(512, 3), (516, 1), (520, 4), (524, 1)].lookup addr).getD 0 }

theorem exists_poll_polling (revents : List (BitVec 16)) (h : revents.length = 2) :
    ∃ after, poll (polling revents) ⟨512, 2⟩ 0 twoPolled =
      (.ok (usizeAsInt (usize (readyCount revents))), after) := by
  have hok : ((pollCall ⟨512, 2⟩ 0).request (returning 0).buf twoPolled.mem).isOk = true := by
    decide +kernel
  obtain ⟨request, hrequest⟩ := Except.exists_of_isOk hok
  have hready := readyCount_le revents
  have hmax : readyCount revents ≤ Linux.INT_MAX := by
    unfold Linux.INT_MAX
    omega
  exact exists_poll (show (pollCall _ _).request (polling revents).buf _ = _ from hrequest) h (fun _ => rfl) hmax

/-- Of two descriptors the second one is ready. The caller is told that there is one, and finds
`revents` of both as they were. -/
theorem poll_second_not_reported : ∃ after, poll (polling [0, 1]) ⟨512, 2⟩ 0 twoPolled = (.ok 1, after) ∧
      fillRevents (pollfdsAt twoPolled.mem 512 2) [0, 1] = [⟨3, 1, 0⟩, ⟨4, 1, 1⟩] ∧
      pollfdsAt after.mem 512 2 = [⟨3, 1, 0⟩, ⟨4, 1, 0⟩] := by
  obtain ⟨after, hpoll⟩ := exists_poll_polling [0, 1] rfl
  refine ⟨after, hpoll, by decide, ?_⟩
  rw [(pollfdsAt_poll (by rfl) (fun _ => rfl) hpoll).2]
  decide

theorem poll_reports_iff_first : ∃ after, poll (polling [1, 0]) ⟨512, 2⟩ 0 twoPolled = (.ok 1, after) ∧
      pollfdsAt after.mem 512 2 = fillRevents (pollfdsAt twoPolled.mem 512 2) [1, 0] := by
  obtain ⟨after, hpoll⟩ := exists_poll_polling [1, 0] rfl
  refine ⟨after, hpoll, ((poll_reports_iff (polling [1, 0]) twoPolled after ⟨512, 2⟩ 0 _ [1, 0] rfl
    (fun _ => rfl) hpoll).2).mpr ?_⟩
  intro index hindex
  have hready : readyCount [1, 0] = 1 := by decide
  rw [hready] at hindex
  match index, hindex with
  | 1, _ => decide
  | _ + 2, _ => rfl

end Enarx.Sallyport
