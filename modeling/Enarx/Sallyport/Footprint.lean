import Enarx.Sallyport.Encoding
import Enarx.Sallyport.Linux

/-!
# The workload memory that a request touches

The bytes a request copies into the block and the bytes it overwrites when it
collects, call by call.
-/
namespace Enarx.Sallyport

open Libc

def bytesOf (spans : List Span) : Set Nat := {x | ∃ span ∈ spans, span.Contains x}

@[simp] theorem bytesOf_nil : bytesOf [] = ∅ := by
  ext x
  simp [bytesOf]

variable {spans : List Span} {x count : Nat} {slice : Slice T} {output : Output T} {ret : Except Errno ρ} {toWord : ρ → Word} {staged : StagedReadv} {segs : List Seg} {buffers : List Buffer}

@[simp] theorem mem_bytesOf_cons {span : Span} : x ∈ bytesOf (span :: spans) ↔
      span.addr ≤ x ∧ x < span.addr + span.len ∨ x ∈ bytesOf spans := by
  simp [bytesOf, Span.Contains]

def overwritten (log : List Access) : Set Nat :=
  {x | ∃ put, .store put ∈ log ∧ put.span.Contains x}

@[simp] theorem overwritten_nil : overwritten [] = ∅ := by
  ext x
  simp [overwritten]

@[simp] theorem overwritten_append (left right : List Access) :
    overwritten (left ++ right) = overwritten left ∪ overwritten right := by
  ext x
  simp only [overwritten, List.mem_append, Set.mem_ofPred_eq, Set.mem_union]
  constructor
  · rintro ⟨put, hput | hput, hx⟩
    · exact .inl ⟨put, hput, hx⟩
    · exact .inr ⟨put, hput, hx⟩
  · rintro (⟨put, hput, hx⟩ | ⟨put, hput, hx⟩)
    · exact ⟨put, .inl hput, hx⟩
    · exact ⟨put, .inr hput, hx⟩

@[simp] theorem overwritten_fetch (ptr len : Nat) (block : Mem) :
    overwritten ((fetch ptr len).log block) = ∅ := by
  ext x
  simp [overwritten, fetch]

@[simp] theorem overwritten_storeTo (addr : Nat) (bytes : List Byte) (block : Mem) :
    overwritten ((storeTo addr bytes).log block) = bytesOf [⟨addr, bytes.length⟩] := by
  ext x
  simp [overwritten, storeTo, Put.span, Span.Contains]

@[simp] theorem overwritten_copyTo (ptr : Nat) (dst : Span) (block : Mem) :
    overwritten ((copyTo ptr dst).log block) = bytesOf [dst] := by
  have hlog : (copyTo ptr dst).log block =
      (fetch ptr dst.len).log block ++ (storeTo dst.addr (block.read ptr dst.len)).log block := rfl
  simp [hlog]

@[simp] theorem overwritten_copyToIter (ptr : Nat) (spans : List Span) (block : Mem) :
    overwritten ((copyToIter ptr spans).log block) = bytesOf spans := by
  induction spans generalizing ptr with
  | nil => simp [copyToIter]
  | cons span rest ih =>
    ext x
    simp [copyToIter, ih]

@[simp] theorem Output.overwritten_collect (output : Output T) (block : Mem) :
    overwritten (output.collect.log block) = bytesOf [output.val.span] :=
  overwritten_copyTo _ _ block

@[simp] theorem Output.overwritten_collectRange (output : Output T)
    (h : count ≤ output.val.len) (block : Mem) : overwritten ((output.collectRange count h).log block) =
      bytesOf [⟨output.val.addr, T.size * count⟩] :=
  overwritten_copyToIter _ _ block

/-- What an address output overwrites when the kernel reports a length. -/
def SockaddrOutput.overwrites (output : SockaddrOutput) (result : Linux.Result) : Set Nat :=
  bytesOf [output.addrlen.slice.span, ⟨output.addr.addr, min output.addr.len result.addrlen⟩]

def overwritesOption (area : α → Set Nat) : Option α → Set Nat
  | none => ∅
  | some value => area value

def Syscall.overwrites (result : Linux.Result) : Syscall → Set Nat
  | .accept call => overwritesOption (·.overwrites result) call.addr
  | .accept4 call => overwritesOption (·.overwrites result) call.addr
  | .clockGetres call => overwritesOption (fun res => bytesOf [res.slice.span]) call.res
  | .clockGettime call => bytesOf [call.tp.slice.span]
  | .epollPwait call => bytesOf [⟨call.events.addr, epollEvent.size * result.ret.toNat⟩]
  | .epollWait call => bytesOf [⟨call.events.addr, epollEvent.size * result.ret.toNat⟩]
  | .getsockname call => call.addr.overwrites result
  | .allocIoctl call => overwritesOption (fun argp => bytesOf [argp.span]) call.ioctl.argp
  | .poll call => bytesOf [⟨call.fds.addr, pollfd.size * result.ret.toNat⟩]
  | .read call => bytesOf [⟨call.buf.addr, result.ret.toNat⟩]
  | .readv call => bytesOf (takeSpans result.ret.toNat call.iovs)
  | .recv call => bytesOf [⟨call.buf.addr, result.ret.toNat⟩]
  | .recvfrom call => bytesOf [⟨call.buf.addr, result.ret.toNat⟩] ∪ call.srcAddr.overwrites result
  | _ => ∅

variable {seg : Seg} {block : Mem} {word : Word} {buffer : Buffer}

theorem Seg.Holds.val_eq {val : Slice T} {dir : Dir}
    (h : seg.Holds (slice.buffer dir)) (hdir : dir ≠ .input) (hlen : seg.len = val.len)
    (hdst : seg.dst = [val.span]) : val = slice := by
  obtain ⟨count, hseg, _, hcount⟩ := h
  have hsize : val.len = slice.len := by
    rw [← hlen, hseg]
    exact hcount rfl
  have hspan : seg.dst = [(⟨slice.addr, T.size * count⟩ : Span)] := by
    rw [hseg]
    exact if_neg hdir
  have haddr : val.addr = slice.addr :=
    congrArg Span.addr (List.head_eq_of_cons_eq (hdst.symm.trans hspan))
  have heta : (⟨val.addr, val.len⟩ : Slice T) = ⟨slice.addr, slice.len⟩ := by rw [haddr, hsize]
  exact heta

theorem Output.addr_of_holds
    (h : output.seg.Holds (slice.bufferMax .output)) : output.val.addr = slice.addr := by
  obtain ⟨count, hseg, _, _⟩ := h
  have hdst : [output.val.span] = [(⟨slice.addr, T.size * count⟩ : Span)] := congrArg Seg.dst hseg
  exact congrArg Span.addr (List.head_eq_of_cons_eq hdst)

theorem Output.overwritten_of_holds (h : output.seg.Holds (slice.buffer .output)) (block : Mem) :
    overwritten (output.collect.log block) = bytesOf [slice.span] := by
  have hval : output.val = slice := h.val_eq nofun rfl rfl
  rw [Output.overwritten_collect, hval]

theorem InOut.overwritten_of_holds {inout : InOut T}
    (h : inout.seg.Holds (slice.buffer .inout)) (mem block : Mem) :
    overwritten ((inout.commit.result mem).collect.log block) = bytesOf [slice.span] := by
  have hval : inout.val = slice := h.val_eq nofun rfl rfl
  rw [Output.overwritten_collect]
  exact congrArg (fun slice : Slice T => bytesOf [slice.span]) hval

theorem overwritten_collectCount [Count ρ] {buf : Output T}
   
    (h : Reply.ofOption toWord ((collectCount buf ret).result block) = .word word)
    (hcount : ∀ value, ret = .ok value → (toWord value).toNat = Count.count value) :
    overwritten ((collectCount buf ret).log block) =
      bytesOf [⟨buf.val.addr, T.size * word.toNat⟩] := by
  cases ret with
  | error errno => cases h
  | ok value =>
    by_cases hlt : buf.val.len < Count.count value
    · rw [collectCount_large hlt] at h
      cases h
    · rw [collectCount_ok hlt] at h ⊢
      cases h
      rw [hcount value rfl]
      simp

theorem count_le_of_collectCount [Count ρ] {buf : Output T}
   
    (h : Reply.ofOption toWord ((collectCount buf ret).result block) = .word word)
    (hcount : ∀ value, ret = .ok value → (toWord value).toNat = Count.count value) :
    word.toNat ≤ buf.val.len := by
  cases ret with
  | error errno => cases h
  | ok value =>
    by_cases hlt : buf.val.len < Count.count value
    · rw [collectCount_large hlt] at h
      cases h
    · rw [collectCount_ok hlt] at h
      cases h
      rw [hcount value rfl]
      exact Nat.not_lt.mp hlt

theorem overwritten_checkCount [Count ρ] (len : Nat) (ret : Except Errno ρ) (block : Mem) :
    overwritten ((checkCount len ret).log block) = ∅ := by
  cases ret <;> exact overwritten_nil

theorem toNat_usize_of_decodeSize {ret : Word} {value : Nat} (h : decodeSize ret = .ok value) :
    (usize value).toNat = value := by
  unfold decodeSize at h
  split at h
  · cases h
  · cases h
    exact toNat_usize ret.isLt

theorem StagedSockaddrOutput.overwritten_collect {staged : StagedSockaddrOutput}
    {output : SockaddrOutput} (hholds : List.Forall₂ Seg.Holds staged.segs output.buffers)
    {mem reply : Mem} {result : Linux.Result} (hreports : ∀ seg ∈ staged.segs, seg.elem = socklen →
      leNat (reply.read seg.ptr 4) = result.addrlen) :
    overwritten ((staged.commit.result mem).collect.log reply) = output.overwrites result := by
  have haddrlen : leNat (reply.read staged.addrlen.dataRef.ptr 4) = result.addrlen :=
    hreports staged.addrlen.seg (by simp [segs]) rfl
  obtain ⟨haddr, htail⟩ := List.forall₂_cons.mp hholds
  obtain ⟨hlen, _⟩ := List.forall₂_cons.mp htail
  have haddrVal : staged.addr.val = output.addr := haddr.val_eq nofun rfl rfl
  have hlenVal : staged.addrlen.val = output.addrlen.slice := hlen.val_eq nofun rfl rfl
  have hlenBytes : overwritten
      ((Output.collect ⟨staged.addrlen.val, staged.addrlen.dataRef⟩).log reply) =
        bytesOf [output.addrlen.slice.span] := InOut.overwritten_of_holds hlen mem reply
  have hsize : staged.addrlen.val.span.len = 4 := by
    rw [hlenVal]
    rfl
  change overwritten
    ((Output.collect ⟨staged.addrlen.val, staged.addrlen.dataRef⟩).log reply ++
      (staged.addr.collectRange (min staged.addr.val.len
        (leNat (reply.read staged.addrlen.dataRef.ptr staged.addrlen.val.span.len)))
        (Nat.min_le_left _ _)).log reply) = _
  rw [overwritten_append, hlenBytes, Output.overwritten_collectRange, hsize, haddrlen, haddrVal]
  ext x
  simp [SockaddrOutput.overwrites, sockaddrBytes]

theorem overwritten_collectOption {collect : β → CollectM γ} {commit : α → CommitM β}
    {segs : α → List Seg} {buffers : ι → List Buffer} {area : ι → Set Nat} {mem reply : Mem}
    {staged : Option α} {value : Option ι}
    (hholds : List.Forall₂ Seg.Holds (segsOption segs staged) (buffersOption buffers value))
    (hsegs : ∀ staged, segs staged ≠ []) (hbuffers : ∀ value, buffers value ≠ [])
    (h : ∀ staged' value', staged = some staged' → value = some value' →
      List.Forall₂ Seg.Holds (segs staged') (buffers value') →
      overwritten ((collect ((commit staged').result mem)).log reply) = area value') :
    overwritten ((collectOption collect ((commitOption commit staged).result mem)).log reply) =
      overwritesOption area value := by
  cases staged with
  | none =>
    cases value with
    | none => exact overwritten_nil
    | some value => exact absurd (List.forall₂_nil_left_iff.mp hholds) (hbuffers value)
  | some staged =>
    cases value with
    | none => exact absurd (List.forall₂_nil_right_iff.mp hholds) (hsegs staged)
    | some value =>
      have hlog : (collectOption collect ((commitOption commit (some staged)).result mem)).log reply =
          (collect ((commit staged).result mem)).log reply ++ [] := rfl
      rw [hlog, List.append_nil]
      exact h staged value rfl rfl hholds

theorem StagedReadv.takeSpans_of_holds {call : Readv}
    (h : List.Forall₂ Seg.Holds (Syscall.segs (.readv call) staged) (Syscall.buffers (.readv call)))
    (hcount : count ≤ staged.buf.1) : takeSpans count staged.iovs = takeSpans count call.iovs := by
  obtain ⟨len, hseg, _, _⟩ := (List.forall₂_cons.mp h).1
  have hlen : staged.buf.1 = len := congrArg Seg.len hseg
  have hdst : takeSpans staged.buf.1 staged.iovs = takeSpans (1 * len) call.iovs :=
    congrArg Seg.dst hseg
  rw [← takeSpans_takeSpans hcount staged.iovs, hdst, Nat.one_mul, ← hlen,
    takeSpans_takeSpans hcount]

theorem Readv.overwritten_collect {ret : Except Errno Nat}
   
    (h : Reply.ofOption usize ((Readv.collect staged ret).result block) = .word word)
    (hsize : ∀ count, ret = .ok count → (usize count).toNat = count) :
    word.toNat ≤ staged.buf.1 ∧
      overwritten ((Readv.collect staged ret).log block) =
        bytesOf (takeSpans word.toNat staged.iovs) := by
  cases ret with
  | error errno => cases h
  | ok count =>
    unfold Readv.collect at h ⊢
    dsimp only at h ⊢
    split at h
    · cases h
    · next hcount =>
      have hword : usize count = word := Reply.word.inj h
      rw [if_neg hcount, ← hword, hsize count rfl]
      exact ⟨Nat.not_lt.mp hcount, by simp⟩

theorem Recvfrom.overwritten_collect {committed : CommittedRecvfrom} {ret : Except Errno Nat}
   
    (h : Reply.ofOption usize ((Recvfrom.collect committed ret).result block) = .word word)
    (hsize : ∀ count, ret = .ok count → (usize count).toNat = count) :
    overwritten ((Recvfrom.collect committed ret).log block) =
      bytesOf [⟨committed.buf.val.addr, word.toNat⟩] ∪
        overwritten (committed.srcAddr.collect.log block) := by
  cases ret with
  | error errno => cases h
  | ok count =>
    unfold Recvfrom.collect at h ⊢
    dsimp only at h ⊢
    split at h
    · cases h
    · next hcount =>
      have hword : usize count = word := Reply.word.inj h
      have hbytes : Layout.u8.size * count = count := Nat.one_mul count
      rw [dif_neg hcount, ← hword, hsize count rfl]
      simp [hbytes]

theorem Nanosleep.result_collect (rem : Option (Output timespec)) (ret : Except Errno Unit)
    (block : Mem) : (Nanosleep.collect rem ret).result block = ret := by
  unfold Nanosleep.collect
  cases ret with
  | ok value => rfl
  | error errno =>
    dsimp only
    split <;> rfl

theorem overwritten_collect_pure (run : CollectM α) (f : α → β) (block : Mem) :
    overwritten ((run >>= fun value => pure (f value)).log block) = overwritten (run.log block) := by
  simp

theorem Syscall.overwritten_collect {call : Syscall} {staged : call.Staged}
    (hholds : List.Forall₂ Seg.Holds (call.segs staged) call.buffers) {mem reply : Mem}
    {ret : Word} {result : Linux.Result} (hret : call.reply ((call.collected staged mem ret).result reply) =
      .word result.ret) (haddrlen : ∀ seg ∈ call.segs staged, seg.elem = socklen →
      leNat (reply.read seg.ptr 4) = result.addrlen) :
    overwritten ((call.collected staged mem ret).log reply) = call.overwrites result := by
  cases call with
  | accept call | accept4 call =>
    refine (overwritten_collect_pure _ _ reply).trans
      (overwritten_collectOption hholds nofun nofun fun some output hsome _ hsegs => ?_)
    cases hsome
    exact StagedSockaddrOutput.overwritten_collect hsegs haddrlen
  | clockGetres call =>
    change Reply.ofUnit ((ClockGetres.collect _ (decodeUnit ret)).result reply) = _ at hret
    change overwritten ((ClockGetres.collect _ (decodeUnit ret)).log reply) = _
    cases hdecode : decodeUnit ret with
    | error errno =>
      rw [hdecode] at hret
      cases hret
    | ok value =>
      refine (overwritten_collect_pure _ _ reply).trans
        (overwritten_collectOption hholds nofun nofun fun res slice _ _ hsegs => ?_)
      exact Output.overwritten_of_holds (List.forall₂_cons.mp hsegs).1 reply
  | clockGettime call =>
    change Reply.ofUnit ((ClockGettime.collect _ (decodeUnit ret)).result reply) = _ at hret
    change overwritten ((ClockGettime.collect _ (decodeUnit ret)).log reply) = _
    cases hdecode : decodeUnit ret with
    | error errno =>
      rw [hdecode] at hret
      cases hret
    | ok value =>
      exact (overwritten_collect_pure _ _ reply).trans
        (Output.overwritten_of_holds (List.forall₂_cons.mp hholds).1 reply)
  | epollPwait call =>
    have haddr := (List.forall₂_cons.mp hholds).1.val_eq nofun rfl rfl
    rw [Syscall.overwrites, ← haddr]
    exact overwritten_collectCount hret fun _ _ => rfl
  | epollWait call =>
    have haddr := (List.forall₂_cons.mp hholds).1.val_eq nofun rfl rfl
    rw [Syscall.overwrites, ← haddr]
    exact overwritten_collectCount hret fun _ _ => rfl
  | getsockname call =>
    exact (overwritten_collect_pure _ _ reply).trans
      (StagedSockaddrOutput.overwritten_collect hholds haddrlen)
  | allocIoctl call =>
    refine (overwritten_collect_pure _ _ reply).trans
      (overwritten_collectOption hholds nofun nofun fun argp slice _ _ hsegs => ?_)
    exact InOut.overwritten_of_holds (List.forall₂_cons.mp hsegs).1 mem reply
  | nanosleep call =>
    change Reply.ofUnit ((Nanosleep.collect _ (decodeUnit ret)).result reply) = _ at hret
    change overwritten ((Nanosleep.collect _ (decodeUnit ret)).log reply) = ∅
    cases hdecode : decodeUnit ret with
    | error errno =>
      rw [hdecode] at hret
      cases (congrArg Reply.ofUnit (Nanosleep.result_collect _ _ reply)).symm.trans hret
    | ok value => exact overwritten_nil
  | poll call =>
    have haddr := (List.forall₂_cons.mp hholds).1.val_eq nofun rfl rfl
    rw [Syscall.overwrites, ← haddr]
    exact overwritten_collectCount hret fun _ _ => rfl
  | read call | recv call =>
    have haddr := Output.addr_of_holds (List.forall₂_cons.mp hholds).1
    rw [Syscall.overwrites, ← haddr, ← Nat.one_mul result.ret.toNat]
    exact overwritten_collectCount hret fun _ => toNat_usize_of_decodeSize
  | readv call =>
    obtain ⟨hcount, hlog⟩ :=
      Readv.overwritten_collect hret fun _ => toNat_usize_of_decodeSize
    exact hlog.trans (congrArg bytesOf (StagedReadv.takeSpans_of_holds hholds hcount))
  | recvfrom call =>
    -- the address is staged before the buffer
    have hsrc : List.Forall₂ Seg.Holds staged.srcAddr.segs call.srcAddr.buffers :=
      List.forall₂_take_append _ _ _ hholds
    have hbuf : List.Forall₂ Seg.Holds [staged.buf.seg] [call.buf.bufferMax .output] :=
      List.forall₂_drop_append _ _ _ hholds
    have haddr : overwritten ((staged.srcAddr.commit.result mem).collect.log reply) =
        call.srcAddr.overwrites result :=
      StagedSockaddrOutput.overwritten_collect hsrc fun seg hseg =>
        haddrlen seg (List.mem_append_left _ hseg)
    rw [Syscall.overwrites, ← Output.addr_of_holds (List.forall₂_cons.mp hbuf).1, ← haddr]
    exact Recvfrom.overwritten_collect hret fun _ => toNat_usize_of_decodeSize
  | send call => exact overwritten_checkCount _ _ _
  | write call => exact overwritten_checkCount _ _ _
  | writev call => exact overwritten_checkCount _ _ _
  | sendto call => exact overwritten_checkCount _ _ _
  | _ => exact overwritten_nil

def Buffer.bytes (buffer : Buffer) : Set Nat := bytesOf (buffer.spans buffer.len)

theorem bytesOf_takeSpans_subset (capacity : Nat) (spans : List Span) :
    bytesOf (takeSpans capacity spans) ⊆ bytesOf spans := by
  induction spans generalizing capacity with
  | nil => exact subset_rfl
  | cons span rest ih =>
    intro x hx
    rw [takeSpans] at hx
    split at hx
    · simp at hx
    · split at hx
      · rcases mem_bytesOf_cons.mp hx with hhead | htail
        · exact mem_bytesOf_cons.mpr (.inl hhead)
        · exact mem_bytesOf_cons.mpr (.inr (ih _ htail))
      · apply mem_bytesOf_cons.mpr
        simp only [mem_bytesOf_cons, bytesOf_nil, Set.mem_empty_iff_false, or_false] at hx
        exact .inl ⟨hx.1, by omega⟩

theorem Place.bytesOf_spans_subset (place : Place) {size size' : Nat} (h : size ≤ size') :
    bytesOf (place.spans size) ⊆ bytesOf (place.spans size') := by
  cases place with
  | slice addr =>
    intro x hx
    simp only [Place.spans, mem_bytesOf_cons, bytesOf_nil, Set.mem_empty_iff_false, or_false]
      at hx ⊢
    exact ⟨hx.1, by omega⟩
  | iovs spans =>
    rw [Place.spans, ← takeSpans_takeSpans h spans]
    exact bytesOf_takeSpans_subset size _

theorem Seg.Holds.src_subset (h : seg.Holds buffer) :
    bytesOf seg.src ⊆ {x | buffer.dir ≠ .output ∧ x ∈ buffer.bytes} := by
  obtain ⟨count, hseg, hcount, _⟩ := h
  intro x hx
  rw [hseg] at hx
  simp only [Buffer.seg] at hx
  split at hx
  · simp at hx
  · next hdir =>
    exact ⟨hdir, buffer.place.bytesOf_spans_subset (Nat.mul_le_mul_left _ hcount) hx⟩

theorem Seg.Holds.bytes_subset (h : seg.Holds buffer)
    (hdir : buffer.dir ≠ .output) (hmax : buffer.max = false) : buffer.bytes ⊆ bytesOf seg.src := by
  obtain ⟨count, hseg, _, hcount⟩ := h
  rw [hseg, hcount hmax]
  simp only [Buffer.seg, if_neg hdir]
  exact subset_rfl

def Request.copied {call : Call} (request : Request call) (mem : Mem) : Set Nat :=
  {x | ∃ store ∈ request.stores mem, ∃ src, store.src = some src ∧ src.Contains x}

theorem exists_scatter {mem : Mem} {ptr : Nat} :
    (∃ store ∈ scatter mem ptr spans, ∃ src, store.src = some src ∧ src.Contains x) ↔ x ∈ bytesOf spans := by
  induction spans generalizing ptr with
  | nil => simp [scatter]
  | cons span rest ih =>
    simp only [Span.Contains] at ih
    simp [scatter, ih, Span.Contains]

theorem Request.mem_copied {call : Call} {request : Request call} {mem : Mem} : x ∈ request.copied mem ↔
      ∃ leaf ∈ call.leaves request.staged, ∃ seg ∈ leaf.segs, x ∈ bytesOf seg.src := by
  constructor
  · rintro ⟨store, hstore, src, hsrc, hx⟩
    rw [Request.stores, call.log_commit, List.mem_append] at hstore
    rcases hstore with hstore | hstore
    · obtain ⟨leaf, hleaf, hstore⟩ := List.mem_flatMap.mp hstore
      rcases List.mem_append.mp hstore with hstore | hstore
      · -- header, number, arguments and return words are computed
        simp only [List.mem_cons, List.not_mem_nil, or_false] at hstore
        rcases hstore with rfl | rfl | rfl | rfl <;> cases hsrc
      · obtain ⟨seg, hseg, hstore⟩ := List.mem_flatMap.mp hstore
        exact ⟨leaf, hleaf, seg, hseg, exists_scatter.mp ⟨store, hstore, src, hsrc, hx⟩⟩
    · split at hstore
      · rw [List.mem_singleton.mp hstore] at hsrc
        cases hsrc
      · cases hstore
  · rintro ⟨leaf, hleaf, seg, hseg, hx⟩
    obtain ⟨store, hstore, hsrc⟩ := exists_scatter.mpr hx
    refine ⟨store, ?_, hsrc⟩
    rw [Request.stores, call.log_commit]
    apply List.mem_append_left
    apply List.mem_flatMap.mpr
    exact ⟨leaf, hleaf, List.mem_append_right _ (List.mem_flatMap.mpr ⟨seg, hseg, hstore⟩)⟩

def Call.answer : (call : Call) → call.Collected → Option Reply
  | .alloc (.syscall call), collected => some (call.reply collected)
  | .maybeAlloc _, collected => some (Reply.ofExcept intAsUsize collected)
  | .stub call, collected => some (call.reply collected)
  | .alloc (.gdbcall _), _ | .alloc (.enarxcall _), _ | .pair .., _ => none

section

variable {call : Call} (request : Request call) (rng : Rdrand) (mem reply : Mem)

def Request.collect : CollectM call.Collected :=
  call.collect rng mem ((call.commit request.staged).result mem)

def Request.overwritten : Set Nat := Sallyport.overwritten ((request.collect rng mem).log reply)

/-- The host reports success: the workload receives `ret`, and an address has `addrlen` bytes. -/
structure Request.Reports (result : Linux.Result) : Prop where
  ret : call.answer ((request.collect rng mem).result reply) = some (.word result.ret)
  addrlen : ∀ leaf ∈ call.leaves request.staged, ∀ seg ∈ leaf.segs, seg.elem = socklen →
    leNat (reply.read seg.ptr 4) = result.addrlen

end

section

variable {buf : BlockBuf} {mem : Mem}

theorem Call.request_holds {call : Call} {request : Request call}
    (h : call.request buf mem = .ok request) {leaf : Leaf} (hleaf : leaf ∈ call.leaves request.staged) :
    List.Forall₂ Seg.Holds leaf.segs leaf.call.spec.buffers := by
  obtain ⟨_, hlaidOut, _⟩ := Call.request_ok h
  obtain ⟨pos, hlaid, _⟩ := hlaidOut.mem_laid hleaf
  exact hlaid.holds

theorem Request.copied_subset {call : Call} {request : Request call}
    (h : call.request buf mem = .ok request) {area : Set Nat}
    (harea : ∀ leaf ∈ call.leaves request.staged, ∀ buffer ∈ leaf.call.spec.buffers,
      buffer.dir ≠ .output → buffer.bytes ⊆ area) : request.copied mem ⊆ area := by
  intro x hx
  obtain ⟨leaf, hleaf, seg, hseg, hx⟩ := Request.mem_copied.mp hx
  have hholds := Call.request_holds h hleaf
  obtain ⟨buffer, hbuffer, hseg⟩ := exists_of_mem_left hholds hseg
  obtain ⟨hdir, hx⟩ := hseg.src_subset hx
  exact harea leaf hleaf buffer hbuffer hdir hx

theorem Request.subset_copied {call : Call} {request : Request call}
    (h : call.request buf mem = .ok request) {leaf : Leaf}
    (hleaf : leaf ∈ call.leaves request.staged) {buffer : Buffer}
    (hbuffer : buffer ∈ leaf.call.spec.buffers) (hdir : buffer.dir ≠ .output)
    (hmax : buffer.max = false) : buffer.bytes ⊆ request.copied mem := by
  intro x hx
  have hholds := Call.request_holds h hleaf
  obtain ⟨seg, hseg, hseg'⟩ := exists_of_mem_right hholds hbuffer
  exact Request.mem_copied.mpr ⟨leaf, hleaf, seg, hseg, hseg'.bytes_subset hdir hmax hx⟩

theorem CommittedAlloc.result_collect {call : AllocCall} (self : CommittedAlloc call) (block : Mem) :
    self.collect.result block = (call.collect self.committed
        (wordOfBytes ((block.read self.retRef.ptr (8 * call.kind.rets)).take 8))).result block :=
  rfl

theorem CommittedAlloc.overwritten_collect {call : AllocCall} (self : CommittedAlloc call) (block : Mem) :
    overwritten (self.collect.log block) = overwritten ((call.collect self.committed
        (wordOfBytes ((block.read self.retRef.ptr (8 * call.kind.rets)).take 8))).log block) := by
  rw [CommittedAlloc.collect, Trace.log_bind, overwritten_append, overwritten_fetch,
    Set.empty_union]
  rfl

theorem StagedCall.exists_result {call : Syscall} (staged : StagedCall (.syscall call)) (mem block : Mem) :
    ∃ ret, (staged.commit.result mem).collect.result block =
      (call.collected staged.staged.staged mem ret).result block := by
  have hcommitted : (staged.commit.result mem).committed =
      (call.commit staged.staged.staged).result mem := rfl
  rw [CommittedAlloc.result_collect, hcommitted]
  exact ⟨_, rfl⟩

variable {result : Linux.Result}

theorem StagedCall.overwritten_collect {call : Syscall} {staged : StagedCall (.syscall call)}
    (hholds : List.Forall₂ Seg.Holds (call.segs staged.staged.staged) call.buffers) {reply : Mem}
   
    (hret : call.reply ((staged.commit.result mem).collect.result reply) = .word result.ret)
    (haddrlen : ∀ seg ∈ call.segs staged.staged.staged, seg.elem = socklen →
      leNat (reply.read seg.ptr 4) = result.addrlen) :
    overwritten ((staged.commit.result mem).collect.log reply) = call.overwrites result := by
  have hcommitted : (staged.commit.result mem).committed =
      (call.commit staged.staged.staged).result mem := rfl
  rw [CommittedAlloc.result_collect, hcommitted] at hret
  rw [CommittedAlloc.overwritten_collect, hcommitted]
  exact Syscall.overwritten_collect hholds hret haddrlen

theorem Request.Reports.reply {call : Syscall} {request : Request (.alloc (.syscall call))}
    {rng : Rdrand} {reply : Mem} (h : request.Reports rng mem reply result) :
    ∃ ret, call.reply ((call.collected request.staged.staged.staged mem ret).result reply) = .word result.ret := by
  obtain ⟨ret, hresult⟩ := StagedCall.exists_result request.staged mem reply
  exact ⟨ret, (congrArg call.reply hresult).symm.trans (Option.some.inj h.ret)⟩

theorem Request.overwritten_syscall {call : Syscall} {request : Request (.alloc (.syscall call))}
    (h : (Call.alloc (.syscall call)).request buf mem = .ok request) {rng : Rdrand} {reply : Mem}
    (hreports : request.Reports rng mem reply result) :
    request.overwritten rng mem reply = call.overwrites result := by
  have hleaf : (⟨.syscall call, request.staged⟩ : Leaf) ∈
      (Call.alloc (.syscall call)).leaves request.staged := List.mem_singleton_self _
  have hret := Option.some.inj hreports.ret
  exact StagedCall.overwritten_collect (Call.request_holds h hleaf) hret (hreports.addrlen _ hleaf)

theorem MaybeAlloc.reply_collected (call : MaybeAlloc) (collected : call.toAlloc.Collected) :
    call.toAlloc.reply collected = Reply.ofExcept intAsUsize (call.collected collected) := by
  cases call <;> rfl

theorem Request.overwritten_maybeAlloc {call : MaybeAlloc} {request : Request (.maybeAlloc call)}
    (h : (Call.maybeAlloc call).request buf mem = .ok request)
    {staged : StagedCall (.syscall call.toAlloc)} (hstaged : request.staged = .inl staged)
    {rng : Rdrand} {reply : Mem} (hreports : request.Reports rng mem reply result) :
    request.overwritten rng mem reply = call.toAlloc.overwrites result := by
  obtain ⟨_, len, endRef, alloc⟩ := request
  cases hstaged
  have hleaf : (⟨.syscall call.toAlloc, staged⟩ : Leaf) ∈
      (Call.maybeAlloc call).leaves (.inl staged) := List.mem_singleton_self _
  have hret := Option.some.inj hreports.ret
  have hstores := StagedCall.overwritten_collect (Call.request_holds h hleaf)
    ((call.reply_collected _).trans hret) (hreports.addrlen _ hleaf)
  exact (overwritten_collect_pure _ _ reply).trans hstores

theorem Request.overwritten_unallocated {call : MaybeAlloc} {request : Request (.maybeAlloc call)}
    {val : Except Errno CInt} (hstaged : request.staged = .inr val) (rng : Rdrand) (mem reply : Mem) :
    request.overwritten rng mem reply = ∅ := by
  obtain ⟨_, len, endRef, alloc⟩ := request
  cases hstaged
  exact overwritten_nil

end

end Enarx.Sallyport
