import Enarx.Sallyport.Footprint
import Enarx.Sallyport.Validation

/-!
# The footprint of the kernel

Arm by arm of the dispatcher: a request copies and overwrites memory that the
kernel reads and writes for the same registers, or it does not.
-/
namespace Enarx.Sallyport

open Libc Platform

section

variable (rng : Rdrand) (buf : Slice .u8) (flags : BitVec 32) (block : Mem)

/-- From chunk `i` on with `chunks` left, `getrandom` returned `count`. -/
structure Getrandom.Filled (chunks i count : Nat) (log : List Access) : Prop where
  le_count : min buf.len (8 * i) ≤ count
  count_le : 8 * (i + chunks) ≤ buf.len + 7 → count ≤ buf.len
  subset : overwritten log ⊆ {x | buf.addr ≤ x ∧ x < buf.addr + count}

theorem Getrandom.Filled.cons {chunks i count : Nat} {bytes : List Byte} {log : List Access}
    (h : Getrandom.Filled buf chunks (i + 1) count log)
    (hbytes : bytes.length = min (buf.len - 8 * i) 8) :
    Getrandom.Filled buf (chunks + 1) i count
      ((storeTo (buf.addr + 8 * i) bytes).log block ++ log) where
  le_count := by
    have := h.le_count
    omega
  count_le hchunks := h.count_le (by omega)
  subset := by
    have hle := h.le_count
    rw [overwritten_append, overwritten_storeTo]
    refine Set.union_subset (fun x hx => ?_) h.subset
    simp only [mem_bytesOf_cons, bytesOf_nil, Set.mem_empty_iff_false, or_false] at hx
    exact ⟨by omega, by omega⟩

theorem Getrandom.loop_filled {chunks i attempt count : Nat}
    (h : (Getrandom.loop rng buf flags chunks i attempt).result block = .ok count) :
    Getrandom.Filled buf chunks i count ((Getrandom.loop rng buf flags chunks i attempt).log block) := by
  induction chunks generalizing i attempt with
  | zero =>
    cases h
    exact ⟨Nat.min_le_left _ _, fun _ => Nat.le_refl _, by simp [Getrandom.loop]⟩
  | succ chunks ih =>
    have hlength : ∀ attempt', ((wordBytes (rng.value attempt')).take (buf.len - 8 * i)).length =
        min (buf.len - 8 * i) 8 := by
      intro attempt'
      rw [List.length_take, length_wordBytes]
    rw [Getrandom.loop] at h ⊢
    split at h
    · next hvalue =>
      rw [if_pos hvalue, Trace.log_bind]
      exact (ih h).cons buf block (hlength _)
    · next hvalue =>
      rw [if_neg hvalue]
      split at h
      · cases h
      · next hblock =>
        rw [if_neg hblock]
        split at h
        · next hrandom =>
          cases h
          rw [if_pos hrandom]
          exact ⟨Nat.min_le_right _ _, fun _ => by omega, by simp⟩
        · next hrandom =>
          rw [if_neg hrandom, Trace.log_bind]
          exact (ih h).cons buf block (hlength _)

theorem Getrandom.collect_subset {count : Nat}
    (h : (Getrandom.collect rng buf flags).result block = .ok count) :
    count ≤ buf.len ∧
      overwritten ((Getrandom.collect rng buf flags).log block) ⊆
        {x | buf.addr ≤ x ∧ x < buf.addr + count} := by
  unfold Getrandom.collect at h ⊢
  split at h
  · cases h
  · next hflags =>
    rw [if_neg hflags]
    have hfilled := Getrandom.loop_filled rng buf flags block h
    exact ⟨hfilled.count_le (by omega), hfilled.subset⟩

theorem Fstat.overwritten_subset (fd : CInt) (statbuf : Ref Libc.stat) :
    overwritten ((Fstat.collect fd statbuf).log block) ⊆
      {x | statbuf.addr ≤ x ∧ x < statbuf.addr + Linux.sizeofStat} := by
  have hlength : (Fstat.stat fd).length = Linux.sizeofStat := by
    unfold Fstat.stat
    simp only [List.length_append, length_leBytes]
    rfl
  unfold Fstat.collect
  split
  · intro x hx
    simp only [Trace.log_bind, Trace.log_pure, List.append_nil, overwritten_storeTo, hlength,
      mem_bytesOf_cons, bytesOf_nil, Set.mem_empty_iff_false, or_false] at hx
    exact hx
  · simp

theorem Uname.overwritten_subset (ref : Ref utsname) :
    overwritten ((Uname.collect ref).log block) ⊆
      {x | ref.addr ≤ x ∧ x < ref.addr + Linux.sizeofUtsname} := by
  have hfill : ∀ addr text, overwritten ((Uname.fill addr text).log block) =
      bytesOf [⟨addr, 65⟩] := by
    intro addr text
    have hlength : ((ascii text ++ List.replicate 65 0).take 65).length = 65 := by
      rw [List.length_take, List.length_append, List.length_replicate]
      omega
    rw [Uname.fill, overwritten_storeTo, hlength]
  intro x hx
  simp only [Uname.collect, Trace.log_bind, Trace.log_pure, List.append_nil, overwritten_append,
    hfill, Set.mem_union, mem_bytesOf_cons, bytesOf_nil, Set.mem_empty_iff_false, or_false] at hx
  simp only [Set.mem_ofPred_eq, Linux.sizeofUtsname]
  omega

theorem Readlink.overwritten_subset {mem : Mem} {pathname : Slice .u8} {count : Nat}
    (h : (Readlink.collect mem pathname buf).result block = some (.ok count)) :
    count = 6 ∧
      overwritten ((Readlink.collect mem pathname buf).log block) ⊆
        {x | buf.addr ≤ x ∧ x < buf.addr + count} := by
  unfold Readlink.collect at h ⊢
  split at h
  · next hpath =>
    rw [if_pos hpath]
    dsimp only at h ⊢
    split at h
    · cases h
    · next hroom =>
      cases h
      rw [if_neg hroom]
      refine ⟨rfl, fun x hx => ?_⟩
      simp only [Trace.log_bind, Trace.log_pure, List.append_nil, overwritten_storeTo,
        mem_bytesOf_cons, bytesOf_nil, Set.mem_empty_iff_false, or_false] at hx
      exact hx
  · cases h

end

/-- The request copies only what the kernel reads, and a successful one overwrites only
what the kernel writes. -/
structure Request.KeepsFootprint {call : Call} (request : Request call) (mem : Mem)
    (argv : Argv) (sysno : Sysno) : Prop where
  copied : request.copied mem ⊆ Linux.reads mem argv sysno
  overwritten : ∀ rng reply result, request.Reports rng mem reply result →
    request.overwritten rng mem reply ⊆ Linux.writes mem argv result sysno

/-- The registers for which the structures of the crate and those of the kernel do not
make a difference. -/
def FootprintFits (argv : Argv) : Sysno → Prop
  | .bind | .connect => argv.c.toNat < 2 ^ 32
  -- 16 bytes for an event where the kernel has 12
  | .epollCtl => False
  | .epollPwait => argv.c = 0 ∧ argv.e = 0
  | .epollWait => argv.c = 0
  -- the argument is copied both ways
  | .ioctl => argv.c = 0 ∨ isStdio (usizeAsInt argv.a)
  | .nanosleep => argv.b = 0 ∨ argv.b = argv.a
  | .poll => argv.b = 0
  -- beyond 32 bits the kernel takes a shorter address; the rest may still be part of the buffer
  | .sendto => argv.e = 0 ∨ argv.f.toNat < 2 ^ 32 ∨
      argv.b.toNat ≤ argv.e.toNat + Linux.len32 argv.f ∧
        argv.e.toNat + argv.f.toNat ≤ argv.b.toNat + argv.c.toNat
  | .setsockopt => argv.d = 0 ∨ argv.e.toNat < 2 ^ 32
  | _ => True

section

variable {buf : BlockBuf} {mem : Mem} {argv : Argv} {sysno : Sysno}

/-- Every accepted request of a method keeps to the footprint exactly if `fits`. -/
def Invocation.Footprint (buf : BlockBuf) (mem : Mem) (argv : Argv) (sysno : Sysno) (fits : Prop)
    (invocation : Invocation) : Prop :=
  ∀ call, invocation.call = some call → ∀ request, call.request buf mem = .ok request →
    (request.KeepsFootprint mem argv sysno ↔ fits)

structure Syscall.InFootprint (mem : Mem) (argv : Argv) (sysno : Sysno) (call : Syscall) :
    Prop where
  inputs : ∀ buffer ∈ call.buffers, buffer.dir ≠ .output →
    buffer.bytes ⊆ Linux.reads mem argv sysno
  outputs : ∀ result, call.overwrites result ⊆ Linux.writes mem argv result sysno

variable {call : Syscall} {fits : Prop}

theorem Syscall.InFootprint.keeps (h : call.InFootprint mem argv sysno)
    {request : Request (.alloc (.syscall call))}
    (hrequest : (Call.alloc (.syscall call)).request buf mem = .ok request) :
    request.KeepsFootprint mem argv sysno where
  copied := by
    apply Request.copied_subset hrequest
    intro leaf hleaf buffer hbuffer hdir
    rw [List.mem_singleton.mp hleaf] at hbuffer
    exact h.inputs buffer hbuffer hdir
  overwritten rng reply result hreports := by
    rw [Request.overwritten_syscall hrequest hreports]
    exact h.outputs result

theorem Invocation.footprint_syscall (h : call.InFootprint mem argv sysno) (hfits : fits) :
    (Invocation.syscall call).Footprint buf mem argv sysno fits := by
  intro _ hcall request hrequest
  cases hcall
  exact iff_of_true (h.keeps hrequest) hfits

theorem Invocation.footprint_syscall_copied {buffer : Buffer}
    (hbuffer : buffer ∈ call.buffers) (hdir : buffer.dir ≠ .output) (hmax : buffer.max = false)
    (hsubset : buffer.bytes ⊆ Linux.reads mem argv sysno → fits)
    (h : fits → call.InFootprint mem argv sysno) :
    (Invocation.syscall call).Footprint buf mem argv sysno fits := by
  intro _ hcall request hrequest
  cases hcall
  refine ⟨fun hkeeps => hsubset ?_, fun hfits => (h hfits).keeps hrequest⟩
  have hcopied := Request.subset_copied hrequest (List.mem_singleton_self _) hbuffer hdir hmax
  exact hcopied.trans hkeeps.copied

def replyWith (ptr : Nat) (ret : Word) : Mem := Mem.write (fun _ => 0) ptr (wordBytes ret)

theorem wordOfBytes_replyWith (ptr : Nat) (ret : Word) :
    wordOfBytes (((replyWith ptr ret).read ptr 16).take 8) = ret := by
  have hread : (replyWith ptr ret).read ptr 8 = wordBytes ret := by
    have := Mem.read_write (fun _ => 0) ptr (wordBytes ret)
    rwa [length_wordBytes] at this
  rw [show (16 : Nat) = 8 + 8 from rfl, Mem.read_add, hread, List.take_left' (length_wordBytes ret),
    wordOfBytes_wordBytes]

theorem StagedCall.result_replyWith (staged : StagedCall (.syscall call)) (mem : Mem) (ret : Word) :
    (staged.commit.result mem).collect.result (replyWith staged.staged.retRef.ptr ret) =
      (call.collected staged.staged.staged mem ret).result (replyWith staged.staged.retRef.ptr ret) := by
  have hcommitted : (staged.commit.result mem).committed =
      (call.commit staged.staged.staged).result mem := rfl
  have hptr : (staged.commit.result mem).retRef.ptr = staged.staged.retRef.ptr := rfl
  have hrets : 8 * (AllocCall.syscall call).kind.rets = 16 := rfl
  rw [CommittedAlloc.result_collect, hcommitted, hptr, hrets, wordOfBytes_replyWith]
  rfl

theorem Request.reports_replyWith {request : Request (.alloc (.syscall call))}
    {rng : Rdrand} {ret : Word} {result : Linux.Result}
    (hret : call.reply ((call.collected request.staged.staged.staged mem ret).result (replyWith request.staged.staged.retRef.ptr ret)) = .word result.ret)
    (haddr : ∀ seg ∈ call.segs request.staged.staged.staged, seg.elem ≠ socklen) :
    request.Reports rng mem (replyWith request.staged.staged.retRef.ptr ret) result where
  ret := by
    have hresult := StagedCall.result_replyWith request.staged mem ret
    exact congrArg some ((congrArg call.reply hresult).trans hret)
  addrlen := by
    intro leaf hleaf seg hseg helem
    rw [List.mem_singleton.mp hleaf] at hseg
    exact absurd helem (haddr seg hseg)

theorem Request.keeps_maybeAlloc {call : MaybeAlloc}
    (h : call.unstaged mem = .ok .alloc → call.toAlloc.InFootprint mem argv sysno)
    {request : Request (.maybeAlloc call)} (hrequest : (Call.maybeAlloc call).request buf mem = .ok request) :
    request.KeepsFootprint mem argv sysno := by
  obtain ⟨hcalls, _⟩ := Call.request_ok hrequest
  have hinside : ∀ leaf ∈ (Call.maybeAlloc call).leaves request.staged,
      leaf.call = .syscall call.toAlloc ∧ call.toAlloc.InFootprint mem argv sysno := by
    intro leaf hleaf
    have hcall : leaf.call ∈ (Call.maybeAlloc call).allocated mem := by
      rw [← hcalls]
      exact List.mem_map_of_mem hleaf
    have hunstaged := MaybeAlloc.unstaged_of_allocated (List.ne_nil_of_mem hcall)
    rw [Call.allocated, hunstaged] at hcall
    exact ⟨List.mem_singleton.mp hcall, h hunstaged⟩
  constructor
  · apply Request.copied_subset hrequest
    intro leaf hleaf buffer hbuffer hdir
    obtain ⟨hcall, hfootprint⟩ := hinside leaf hleaf
    rw [hcall] at hbuffer
    exact hfootprint.inputs buffer hbuffer hdir
  · intro rng reply result hreports
    rcases hstaged : request.staged with staged | val
    · rw [Request.overwritten_maybeAlloc hrequest hstaged hreports]
      rw [hstaged] at hinside
      exact (hinside _ (List.mem_singleton_self _)).2.outputs result
    · rw [Request.overwritten_unallocated hstaged]
      exact Set.empty_subset _

theorem Invocation.footprint_maybeAlloc {call : MaybeAlloc}
    (h : call.unstaged mem = .ok .alloc → call.toAlloc.InFootprint mem argv sysno)
    (hfits : fits) : (Invocation.maybeAlloc call).Footprint buf mem argv sysno fits := by
  intro _ hcall request hrequest
  cases hcall
  exact iff_of_true (Request.keeps_maybeAlloc h hrequest) hfits

theorem Invocation.footprint_stub {call : Stub} (h : ∀ rng reply result,
      call.reply ((call.collect rng mem).result reply) = .word result.ret →
        overwritten ((call.collect rng mem).log reply) ⊆ Linux.writes mem argv result sysno)
    (hfits : fits) : (Invocation.stub call).Footprint buf mem argv sysno fits := by
  intro _ hcall request hrequest
  cases hcall
  refine iff_of_true ⟨?_, ?_⟩ hfits
  · apply Request.copied_subset hrequest
    intro leaf hleaf
    cases hleaf
  · intro rng reply result hreports
    exact h rng reply result (Option.some.inj hreports.ret)

theorem Invocation.footprint_none {invocation : Invocation}
    (h : invocation.call = none) : invocation.Footprint buf mem argv sysno fits := by
  intro call hcall
  rw [h] at hcall
  cases hcall

end

@[simp] theorem Linux.mem_area {addr : Word} {len x : Nat} :
    x ∈ Linux.area addr len ↔ addr.toNat ≤ x ∧ x < addr.toNat + len := Iff.rfl

@[simp] theorem Linux.mem_optional {ptr : Word} {area : Set Nat} {x : Nat} :
    x ∈ Linux.optional ptr area ↔ ptr ≠ 0 ∧ x ∈ area := Iff.rfl

theorem mem_bytesOf_singleton {span : Span} {x : Nat} :
    x ∈ bytesOf [span] ↔ span.addr ≤ x ∧ x < span.addr + span.len := by
  simp

@[simp] theorem Linux.bytesOf_area (addr : Word) (len : Nat) :
    bytesOf [⟨addr.toNat, len⟩] = Linux.area addr len := by
  ext x
  simp

@[simp] theorem Slice.bytes_buffer (slice : Slice T) (dir : Dir) :
    (slice.buffer dir).bytes = bytesOf [slice.span] := rfl

theorem bytes_iovsBuffer_subset (iovs : List Span) (dir : Dir) :
    (iovsBuffer iovs dir).bytes ⊆ bytesOf iovs := bytesOf_takeSpans_subset _ _

theorem Linux.mem_addresses {spans : List Span} {x : Nat} :
    x ∈ Linux.addresses spans ↔ x ∈ bytesOf spans := by
  simp [Linux.addresses, bytesOf, Span.Contains, List.mem_range'_1]

theorem Linux.take_addresses (count : Nat) (spans : List Span) :
    (Linux.addresses spans).take count = Linux.addresses (takeSpans count spans) := by
  induction spans generalizing count with
  | nil => simp [Linux.addresses, takeSpans]
  | cons span rest ih =>
    have hcons : Linux.addresses (span :: rest) =
        List.range' span.addr span.len ++ Linux.addresses rest := rfl
    rw [hcons, List.take_append, List.length_range', ih]
    rcases Nat.eq_zero_or_pos count with rfl | hpos
    · simp [takeSpans_zero, Linux.addresses]
    rcases Nat.lt_or_ge count span.len with hlt | hle
    · have hrest : count - span.len = 0 := by omega
      rw [takeSpans_part hpos hlt, hrest, takeSpans_zero]
      simp [Linux.addresses, List.take_range'_of_length_ge (Nat.le_of_lt hlt)]
    · rw [takeSpans_whole hpos hle, List.take_of_length_le (by simpa using hle)]
      rfl

theorem SockaddrOutput.overwrites_eq (mem : Mem) (addr addrlen : Word) (result : Linux.Result) :
    SockaddrOutput.overwrites ⟨⟨addr.toNat, Linux.socklenAt mem addrlen⟩, ⟨addrlen.toNat⟩⟩ result =
      Linux.sockaddr mem addr addrlen result := by
  ext x
  simp [SockaddrOutput.overwrites, Linux.sockaddr, Slice.span, Ref.slice, socklen, Layout.u32]

theorem SockaddrOutput.inputs_subset {output : SockaddrOutput} {addrlen : Word}
    (haddrlen : output.addrlen = ⟨addrlen.toNat⟩) {buffer : Buffer}
    (hbuffer : buffer ∈ output.buffers) (hdir : buffer.dir ≠ .output) :
    buffer.bytes ⊆ Linux.area addrlen 4 := by
  simp only [SockaddrOutput.buffers, List.mem_cons, List.not_mem_nil, or_false] at hbuffer
  rcases hbuffer with rfl | rfl
  · exact absurd rfl hdir
  · rw [haddrlen]
    exact (Linux.bytesOf_area addrlen 4).subset

section

variable (platform : Platform) (buf : BlockBuf) (mem : Mem) (argv : Argv)

def ArmFits (sysno : Sysno) : Prop :=
  Except.Ensures (Invocation.Footprint buf mem argv sysno (FootprintFits argv sysno))
    (dispatch platform mem sysno argv)

variable {platform buf mem argv}

theorem accepting_fits {sysno : Sysno} {call : Option SockaddrOutput → Syscall}
    (hdispatch : dispatch platform mem sysno argv = (do
      let addr ← orNone argv.b (platform.validateSockaddrOutput mem argv.b argv.c)
      return .syscall (call addr)))
    (hbuffers : ∀ addr, (call addr).buffers = buffersOption SockaddrOutput.buffers addr)
    (hoverwrites : ∀ addr result,
      (call addr).overwrites result = overwritesOption (SockaddrOutput.overwrites · result) addr)
    (hreads : Linux.reads mem argv sysno = Linux.optional argv.b (Linux.area argv.c 4))
    (hwrites : ∀ result, Linux.writes mem argv result sysno =
      Linux.optional argv.b (Linux.sockaddr mem argv.b argv.c result))
    (hfits : FootprintFits argv sysno) : ArmFits platform buf mem argv sysno := by
  rw [ArmFits, hdispatch]
  refine .bind (orNone_ensures (validateSockaddrOutput_ensures platform mem argv.b argv.c) argv.b)
    fun addr haddr => .ok (Invocation.footprint_syscall ⟨?_, ?_⟩ hfits)
  · intro buffer hbuffer hdir x hx
    rw [hbuffers] at hbuffer
    rcases haddr with ⟨-, rfl⟩ | ⟨hptr, output, rfl, rfl⟩
    · cases hbuffer
    · rw [hreads]
      exact ⟨hptr, SockaddrOutput.inputs_subset rfl hbuffer hdir hx⟩
  · intro result x hx
    rw [hoverwrites] at hx
    rcases haddr with ⟨-, rfl⟩ | ⟨hptr, output, rfl, rfl⟩
    · cases hx
    · rw [overwritesOption, SockaddrOutput.overwrites_eq] at hx
      rw [hwrites]
      exact ⟨hptr, hx⟩

theorem accept_fits : ArmFits platform buf mem argv .accept :=
  accepting_fits rfl (fun _ => rfl) (fun _ _ => rfl) rfl (fun _ => rfl) trivial

theorem accept4_fits : ArmFits platform buf mem argv .accept4 :=
  accepting_fits rfl (fun _ => rfl) (fun _ _ => rfl) rfl (fun _ => rfl) trivial

theorem getsockname_fits : ArmFits platform buf mem argv .getsockname := by
  refine .bind (validateSockaddrOutput_ensures platform mem argv.b argv.c) fun output houtput =>
    .ok (Invocation.footprint_syscall ⟨?_, ?_⟩ trivial)
  · intro buffer hbuffer hdir
    apply SockaddrOutput.inputs_subset _ hbuffer hdir
    rw [houtput]
  · intro result
    rw [houtput]
    exact (SockaddrOutput.overwrites_eq mem argv.b argv.c result).subset

theorem area_subset_len32 {addr len : Word} :
    Linux.area addr len.toNat ⊆ Linux.area addr (Linux.len32 len) ↔ len.toNat < 2 ^ 32 := by
  have hmod : Linux.len32 len = len.toNat % 2 ^ 32 := BitVec.toNat_setWidth 32 len
  constructor
  · intro h
    by_contra hlt
    have hlast := h (show addr.toNat + (len.toNat - 1) ∈ Linux.area addr len.toNat by
      rw [Linux.mem_area]
      omega)
    rw [Linux.mem_area] at hlast
    omega
  · intro hlt x hx
    rw [Linux.mem_area] at hx ⊢
    omega

theorem addressing_fits {sysno : Sysno} {call : SockaddrInput → Syscall}
    (hdispatch : dispatch platform mem sysno argv = (do
      let addr ← platform.validateSockaddrInput argv.b argv.c
      return .syscall (call addr)))
    (hbuffers : ∀ addr, (call addr).buffers = [Slice.buffer addr .input])
    (hoverwrites : ∀ addr result, (call addr).overwrites result = ∅)
    (hreads : Linux.reads mem argv sysno = Linux.area argv.b (Linux.len32 argv.c))
    (hfits : FootprintFits argv sysno ↔ argv.c.toNat < 2 ^ 32) : ArmFits platform buf mem argv sysno := by
  rw [ArmFits, hdispatch]
  refine .bind (validateSockaddrInput_ensures platform argv.b argv.c) fun addr haddr => .ok ?_
  have hbytes : (addr.buffer .input).bytes = Linux.area argv.b argv.c.toNat := by
    rw [haddr, Slice.bytes_buffer]
    simp [Slice.span, sockaddrBytes]
  have hmem : addr.buffer .input ∈ (call addr).buffers := by
    rw [hbuffers]
    exact List.mem_singleton_self _
  rw [hfits]
  apply Invocation.footprint_syscall_copied hmem (by intro h; cases h) rfl
  · intro hsubset
    rw [hbytes, hreads] at hsubset
    exact area_subset_len32.mp hsubset
  · intro hfits
    constructor
    · intro buffer hbuffer _
      rw [hbuffers, List.mem_singleton] at hbuffer
      rw [hbuffer, hbytes, hreads]
      exact area_subset_len32.mpr hfits
    · simp [hoverwrites]

theorem bind_fits : ArmFits platform buf mem argv .bind :=
  addressing_fits rfl (fun _ => rfl) (fun _ _ => rfl) rfl Iff.rfl

theorem connect_fits : ArmFits platform buf mem argv .connect :=
  addressing_fits rfl (fun _ => rfl) (fun _ _ => rfl) rfl Iff.rfl

theorem clockGetres_fits : ArmFits platform buf mem argv .clockGetres := by
  refine .bind (orNone_ensures (validateMut_ensures platform timespec argv.b) argv.b)
    fun res hres => .ok (Invocation.footprint_syscall ?_ trivial)
  rcases hres with ⟨_, rfl⟩ | ⟨hptr, ref, rfl, rfl⟩
  · constructor <;> simp [Syscall.buffers, Syscall.overwrites, buffersOption, overwritesOption]
  · constructor
    · simp [Syscall.buffers, buffersOption, Ref.buffer, Slice.buffer]
    · intro result x hx
      exact ⟨hptr, (Linux.bytesOf_area argv.b Linux.sizeofTimespec).subset hx⟩

theorem clockGettime_fits : ArmFits platform buf mem argv .clockGettime := by
  refine .bind (validateMut_ensures platform timespec argv.b) fun tp htp =>
    .ok (Invocation.footprint_syscall ?_ trivial)
  subst htp
  constructor
  · simp [Syscall.buffers, Ref.buffer, Slice.buffer]
  · intro result
    exact (Linux.bytesOf_area argv.b Linux.sizeofTimespec).subset

theorem read_fits : ArmFits platform buf mem argv .read := by
  refine .bind (validateSliceMut_ensures platform .u8 argv.b argv.c) fun slice hslice =>
    .ok (Invocation.footprint_syscall ?_ trivial)
  subst hslice
  constructor
  · simp [Syscall.buffers, Slice.bufferMax]
  · intro result
    exact (Linux.bytesOf_area argv.b result.ret.toNat).subset

theorem readv_fits : ArmFits platform buf mem argv .readv := by
  refine .bind (validateIovecSliceMut_ensures platform mem argv.b argv.c) fun iovs hiovs =>
    .ok (Invocation.footprint_syscall ?_ trivial)
  subst hiovs
  constructor
  · simp [Syscall.buffers, iovsBuffer]
  · intro result x hx
    change x ∈ (Linux.addresses _).take _
    rw [Linux.take_addresses, Linux.mem_addresses]
    exact hx

theorem bytes_u8 (addr len : Word) (dir : Dir) :
    (Slice.bufferMax (⟨addr.toNat, len.toNat⟩ : Slice .u8) dir).bytes = Linux.area addr len.toNat := by
  change bytesOf [⟨addr.toNat, 1 * len.toNat⟩] = _
  rw [Nat.one_mul, Linux.bytesOf_area]

theorem write_fits : ArmFits platform buf mem argv .write := by
  refine .bind (validateSlice_ensures platform .u8 argv.b argv.c) fun slice hslice =>
    .ok (Invocation.footprint_syscall ?_ trivial)
  subst hslice
  constructor
  · intro buffer hbuffer _
    rw [List.mem_singleton.mp hbuffer, bytes_u8]
    exact subset_rfl
  · simp [Syscall.overwrites]

theorem writev_fits : ArmFits platform buf mem argv .writev := by
  refine .bind (validateIovecSlice_ensures platform mem argv.b argv.c) fun iovs hiovs =>
    .ok (Invocation.footprint_syscall ?_ trivial)
  subst hiovs
  constructor
  · intro buffer hbuffer _ x hx
    rw [List.mem_singleton.mp hbuffer] at hx
    exact .inr (Linux.mem_addresses.mpr (bytes_iovsBuffer_subset _ _ hx))
  · simp [Syscall.overwrites]

theorem recvfrom_fits : ArmFits platform buf mem argv .recvfrom := by
  refine .bind (validateSliceMut_ensures platform .u8 argv.b argv.c) fun slice hslice =>
    .ite (fun _ => .ok (Invocation.footprint_syscall ?_ trivial)) fun hptr =>
      .bind (validateSockaddrOutput_ensures platform mem argv.e argv.f) fun output houtput =>
        .ok (Invocation.footprint_syscall ?_ trivial)
  · subst hslice
    constructor
    · simp [Syscall.buffers, Slice.bufferMax]
    · intro result x hx
      exact .inl ((Linux.bytesOf_area argv.b result.ret.toNat).subset hx)
  · subst hslice
    constructor
    · intro buffer hbuffer hdir x hx
      rcases List.mem_append.mp hbuffer with hbuffer | hbuffer
      · exact ⟨hptr, SockaddrOutput.inputs_subset (by rw [houtput]) hbuffer hdir hx⟩
      · rw [List.mem_singleton.mp hbuffer] at hdir
        exact absurd rfl hdir
    · intro result x hx
      rcases hx with hx | hx
      · exact .inl ((Linux.bytesOf_area argv.b result.ret.toNat).subset hx)
      · rw [houtput, SockaddrOutput.overwrites_eq] at hx
        exact .inr ⟨hptr, hx⟩

theorem reply_collectCount_one {buf : Output T} (h : 0 < buf.val.len) (block : Mem) :
    Reply.ofOption intAsUsize ((collectCount buf (decodeInt 1)).result block) = .word 1 := by
  have hdecode : decodeInt 1 = .ok 1 := by decide
  have hcount : ¬buf.val.len < Count.count (1 : CInt) := by
    have hone : Count.count (1 : CInt) = 1 := by decide
    omega
  rw [hdecode, collectCount_ok hcount]
  have hword : intAsUsize 1 = 1 := by decide
  exact congrArg Reply.word hword

theorem ne_socklen {T : Layout} (h : T.size ≠ 4) : T ≠ socklen := by
  intro heq
  rw [heq] at h
  exact h rfl

/-- The host reports how many elements it has filled in, and the crate copies them all back; a kernel that
writes less for one of them is followed only if there is none. -/
theorem Invocation.footprint_counted {call : Syscall} {sysno : Sysno} {fits : Prop} (addr : Word) {len : Word}
    (out : call.Staged → Output T)
    (hcollect : ∀ staged ret reply, call.reply ((call.collected staged mem ret).result reply) =
      Reply.ofOption intAsUsize ((collectCount (out staged) (decodeInt ret)).result reply))
    (hlen : ∀ {request : Request (.alloc (.syscall call))}, (Call.alloc (.syscall call)).request buf mem = .ok request →
      (out request.staged.staged.staged).val.len = len.toNat)
    (helem : ∀ staged, ∀ seg ∈ call.segs staged, seg.elem ≠ socklen)
    (hoverwrites : ∀ result, call.overwrites result = Linux.area addr (T.size * result.ret.toNat))
    (hmore : ¬Linux.area addr (T.size * 1) ⊆ Linux.writes mem argv ⟨1, 0⟩ sysno)
    (hinputs : len = 0 → ∀ buffer ∈ call.buffers, buffer.dir ≠ .output → buffer.bytes ⊆ Linux.reads mem argv sysno)
    (hfits : fits ↔ len = 0) : (Invocation.syscall call).Footprint buf mem argv sysno fits := by
  intro _ hcall request hrequest
  cases hcall
  rw [hfits]
  constructor
  · intro hkeeps
    by_contra hne
    have hpos : 0 < (out request.staged.staged.staged).val.len := by
      rw [hlen hrequest]
      exact Nat.pos_of_ne_zero (BitVec.toNat_ne.mp hne)
    have hreports : request.Reports default mem (replyWith request.staged.staged.retRef.ptr 1) ⟨1, 0⟩ :=
      Request.reports_replyWith ((hcollect _ _ _).trans (reply_collectCount_one hpos _)) (helem _)
    have hsubset := hkeeps.overwritten _ _ _ hreports
    rw [Request.overwritten_syscall hrequest hreports, hoverwrites] at hsubset
    exact hmore hsubset
  · intro hzero
    constructor
    · apply Request.copied_subset hrequest
      intro leaf hleaf buffer hbuffer hdir
      rw [List.mem_singleton.mp hleaf] at hbuffer
      exact hinputs hzero buffer hbuffer hdir
    · intro rng reply result hreports
      obtain ⟨ret, hret⟩ := hreports.reply
      have hle := count_le_of_collectCount ((hcollect _ _ _).symm.trans hret) fun _ _ => rfl
      rw [hlen hrequest, hzero] at hle
      rw [Request.overwritten_syscall hrequest hreports, hoverwrites, Nat.le_zero.mp hle]
      intro x hx
      rw [Linux.mem_area] at hx
      omega

theorem Invocation.footprint_epollWait {call : EpollWait} {sysno : Sysno} {fits : Prop}
    (hevents : call.events = ⟨argv.b.toNat, argv.c.toNat⟩)
    (hwrites : ∀ result, Linux.writes mem argv result sysno =
      Linux.area argv.b (Linux.sizeofEpollEvent * result.ret.toNat)) (hfits : fits ↔ argv.c = 0) :
    (Invocation.syscall (.epollWait call)).Footprint buf mem argv sysno fits := by
  refine Invocation.footprint_counted argv.b (fun staged : Syscall.Staged (.epollWait call) => staged)
    (fun _ _ _ => rfl) ?_ ?_ ?_ ?_ ?_ hfits
  · intro request hrequest
    have hholds := Call.request_holds hrequest (List.mem_singleton_self _)
    have hval : Output.val request.staged.staged.staged = call.events :=
      (List.forall₂_cons.mp hholds).1.val_eq nofun rfl rfl
    rw [hval, hevents]
  · intro staged seg hseg
    rw [List.mem_singleton.mp hseg]
    exact ne_socklen (T := epollEvent) (by decide)
  · intro result
    rw [Syscall.overwrites, hevents, Linux.bytesOf_area]
  · intro hsubset
    rw [hwrites] at hsubset
    have hlast := hsubset (show argv.b.toNat + 12 ∈ Linux.area argv.b (16 * 1) by simp)
    simp [Linux.sizeofEpollEvent] at hlast
  · intro _ buffer hbuffer hdir
    rw [List.mem_singleton.mp hbuffer] at hdir
    exact absurd rfl hdir

theorem epollWait_fits : ArmFits platform buf mem argv .epollWait :=
  .bind (validateSliceMut_ensures platform epollEvent argv.b argv.c) fun _ hevents =>
    .ok (Invocation.footprint_epollWait hevents (fun _ => rfl) Iff.rfl)

theorem epollPwait_fits : ArmFits platform buf mem argv .epollPwait := by
  refine .bind (validateSliceMut_ensures platform epollEvent argv.b argv.c) fun events hevents =>
    .ite (fun hnull => .ok ?_) fun hptr =>
      .bind (validate_ensures platform sigset argv.e) fun sigmask hsigmask => .ok ?_
  · apply Invocation.footprint_epollWait hevents (fun _ => rfl)
    exact ⟨fun hfits => hfits.1, fun hc => ⟨hc, hnull⟩⟩
  · -- 128 bytes for a signal set where the kernel has 8
    apply Invocation.footprint_syscall_copied (List.mem_cons_of_mem _ (List.mem_singleton_self _))
      (by nofun) rfl
    · intro hsubset
      rw [hsigmask] at hsubset
      have hlast := hsubset (show argv.e.toNat + 8 ∈ bytesOf [⟨argv.e.toNat, 128 * 1⟩] by simp)
      simp [Linux.reads, Linux.sizeofSigset] at hlast
    · intro hfits
      exact absurd hfits.2 hptr

theorem epollCtl_fits : ArmFits platform buf mem argv .epollCtl := by
  refine .bind (validate_ensures platform epollEvent argv.d) fun event hevent => .ok ?_
  apply Invocation.footprint_syscall_copied (List.mem_singleton_self _) (by nofun) rfl
  · intro hsubset
    rw [hevent] at hsubset
    have hlast := hsubset (show argv.d.toNat + 12 ∈ bytesOf [⟨argv.d.toNat, 16 * 1⟩] by simp)
    simp [Linux.reads, Linux.sizeofEpollEvent] at hlast
  · exact False.elim

theorem poll_fits : ArmFits platform buf mem argv .poll := by
  refine .bind (validateSliceMut_ensures platform pollfd argv.a argv.b) fun fds hfds => .ok ?_
  refine Invocation.footprint_counted argv.a
    (fun staged : Syscall.Staged (.poll ⟨fds, usizeAsInt argv.c⟩) => (InOut.commit staged).result mem)
    (fun _ _ _ => rfl) ?_ ?_ ?_ ?_ ?_ Iff.rfl
  · intro request hrequest
    have hholds := Call.request_holds hrequest (List.mem_singleton_self _)
    have hval : InOut.val request.staged.staged.staged = fds :=
      (List.forall₂_cons.mp hholds).1.val_eq nofun rfl rfl
    change (InOut.val request.staged.staged.staged).len = _
    rw [hval, hfds]
  · intro staged seg hseg
    rw [List.mem_singleton.mp hseg]
    exact ne_socklen (T := pollfd) (by decide)
  · intro result
    rw [Syscall.overwrites, hfds, Linux.bytesOf_area]
  · intro hsubset
    obtain ⟨i, _, _, hrevents⟩ := hsubset (show argv.a.toNat ∈ Linux.area argv.a (8 * 1) by simp)
    omega
  · intro hzero buffer hbuffer _
    rw [List.mem_singleton.mp hbuffer, hfds, hzero]
    intro x hx
    simp [Slice.span] at hx
    omega

theorem nanosleep_fits : ArmFits platform buf mem argv .nanosleep := by
  refine .bind (validate_ensures platform timespec argv.a) fun req hreq =>
    .bind (orNone_ensures (validateMut_ensures platform timespec argv.b) argv.b) fun rem hrem =>
      .ok ?_
  have hbytes : (Ref.buffer req .input).bytes = Linux.area argv.a Linux.sizeofTimespec := by
    rw [hreq]
    exact Linux.bytesOf_area argv.a Linux.sizeofTimespec
  rcases hrem with ⟨hnull, rfl⟩ | ⟨hptr, ref, rfl, rfl⟩
  · refine Invocation.footprint_syscall ⟨?_, by simp [Syscall.overwrites]⟩ (.inl hnull)
    intro buffer hbuffer _
    rw [List.mem_singleton.mp hbuffer, hbytes]
    exact subset_rfl
  · have hrem : (Ref.buffer (⟨argv.b.toNat⟩ : Ref timespec) .inout).bytes =
        Linux.area argv.b Linux.sizeofTimespec :=
      Linux.bytesOf_area argv.b Linux.sizeofTimespec
    apply Invocation.footprint_syscall_copied (List.mem_cons_of_mem _ (List.mem_singleton_self _))
      (by intro h; cases h) rfl
    · intro hsubset
      right
      rw [hrem] at hsubset
      have hfirst := hsubset (show argv.b.toNat ∈ Linux.area argv.b Linux.sizeofTimespec by
        simp [Linux.sizeofTimespec])
      have hlast := hsubset (show argv.b.toNat + 15 ∈ Linux.area argv.b Linux.sizeofTimespec by
        simp [Linux.sizeofTimespec])
      simp only [Linux.reads, Linux.sizeofTimespec, Linux.mem_area] at hfirst hlast
      apply BitVec.eq_of_toNat_eq
      omega
    · intro hfits
      have heq : argv.b = argv.a := hfits.resolve_left hptr
      refine ⟨?_, by simp [Syscall.overwrites]⟩
      intro buffer hbuffer _
      rcases List.mem_cons.mp hbuffer with rfl | hbuffer
      · rw [hbytes]
        exact subset_rfl
      · rw [List.mem_singleton.mp hbuffer, hrem, heq]
        exact subset_rfl

theorem setsockopt_fits : ArmFits platform buf mem argv .setsockopt := by
  refine .bind (orNone_ensures (validateSockoptInput_ensures platform argv.d argv.e) argv.d)
    fun optval hoptval => .ok ?_
  rcases hoptval with ⟨hnull, rfl⟩ | ⟨hptr, slice, hslice, rfl⟩
  · apply Invocation.footprint_syscall _ (.inl hnull)
    constructor <;> simp [Syscall.buffers, Syscall.overwrites, buffersOption]
  · have hbytes : (slice.buffer .input).bytes = Linux.area argv.d argv.e.toNat := by
      rw [hslice]
      simp [Slice.span, sockoptBytes]
    apply Invocation.footprint_syscall_copied (List.mem_singleton_self _) (by intro h; cases h) rfl
    · intro hsubset
      rw [hbytes] at hsubset
      exact .inr (area_subset_len32.mp hsubset)
    · intro hfits
      refine ⟨?_, by simp [Syscall.overwrites]⟩
      intro buffer hbuffer _
      rw [List.mem_singleton.mp hbuffer, hbytes]
      exact area_subset_len32.mpr (hfits.resolve_left hptr)

theorem sendto_fits : ArmFits platform buf mem argv .sendto := by
  refine .bind (validateSlice_ensures platform .u8 argv.b argv.c) fun slice hslice =>
    .ite (fun hnull => .ok (Invocation.footprint_syscall ?_ (.inl hnull))) fun hptr =>
      .bind (validateSockaddrInput_ensures platform argv.e argv.f) fun dest hdest => .ok ?_
  · refine ⟨?_, by simp [Syscall.overwrites]⟩
    intro buffer hbuffer _ x hx
    rw [List.mem_singleton.mp hbuffer, hslice, bytes_u8] at hx
    exact .inl hx
  · have hbytes : (dest.buffer .input).bytes = Linux.area argv.e argv.f.toNat := by
      rw [hdest]
      simp [Slice.span, sockaddrBytes]
    have hmod : Linux.len32 argv.f = argv.f.toNat % 2 ^ 32 := BitVec.toNat_setWidth 32 argv.f
    apply Invocation.footprint_syscall_copied List.mem_cons_self (by intro h; cases h) rfl
    · intro hsubset
      rw [hbytes] at hsubset
      right
      by_contra hfits
      -- the first and the last byte of the address that the kernel does not take
      have hfirst := hsubset (show argv.e.toNat + Linux.len32 argv.f ∈
        Linux.area argv.e argv.f.toNat by rw [Linux.mem_area]; omega)
      have hlast := hsubset (show argv.e.toNat + (argv.f.toNat - 1) ∈
        Linux.area argv.e argv.f.toNat by rw [Linux.mem_area]; omega)
      simp only [Linux.reads, Set.mem_union, Linux.mem_optional, Linux.mem_area] at hfirst hlast
      omega
    · intro hfits
      refine ⟨?_, by simp [Syscall.overwrites]⟩
      intro buffer hbuffer _ x hx
      rcases List.mem_cons.mp hbuffer with rfl | hbuffer
      · have hcover := hfits.resolve_left hptr
        rw [hbytes, Linux.mem_area] at hx
        simp only [Linux.reads, Set.mem_union, Linux.mem_optional, Linux.mem_area]
        by_cases hx' : x < argv.e.toNat + Linux.len32 argv.f
        · exact .inr ⟨hptr, hx.1, hx'⟩
        · left
          omega
      · rw [List.mem_singleton.mp hbuffer, hslice, bytes_u8] at hx
        exact .inl hx

theorem fcntl_fits : ArmFits platform buf mem argv .fcntl := by
  refine .ok (Invocation.footprint_maybeAlloc (fun _ => ?_) trivial)
  constructor <;> simp [MaybeAlloc.toAlloc, Syscall.buffers, Syscall.overwrites]

theorem open_fits : ArmFits platform buf mem argv .open_ := by
  refine .bind (validateStr_ensures platform mem argv.a) fun pathname hpathname =>
    .ok (Invocation.footprint_maybeAlloc (fun _ => ?_) trivial)
  refine ⟨?_, by simp [MaybeAlloc.toAlloc, Syscall.overwrites]⟩
  intro buffer hbuffer _ x hx
  rw [List.mem_singleton.mp hbuffer, Slice.bytes_buffer, Slice.span, hpathname.1,
    Linux.bytesOf_area, Linux.mem_area] at hx
  exact hpathname.2 x hx.1 (by simpa [Layout.u8] using hx.2)

theorem Request.exists_staged {call : MaybeAlloc} {request : Request (.maybeAlloc call)}
    (hrequest : (Call.maybeAlloc call).request buf mem = .ok request)
    (hunstaged : call.unstaged mem = .ok .alloc) : ∃ staged, request.staged = .inl staged := by
  obtain ⟨hcalls, _⟩ := Call.request_ok hrequest
  rw [Call.allocated, hunstaged] at hcalls
  rcases hstaged : request.staged with staged | val
  · exact ⟨staged, rfl⟩
  · rw [hstaged] at hcalls
    cases hcalls

theorem Request.reports_maybeAlloc {call : MaybeAlloc} {request : Request (.maybeAlloc call)}
    {staged : StagedCall (.syscall call.toAlloc)} (hstaged : request.staged = .inl staged)
    {rng : Rdrand} {ret : Word} {result : Linux.Result} (hret : call.toAlloc.reply ((call.toAlloc.collect
      ((call.toAlloc.commit staged.staged.staged).result mem) ret).result
        (replyWith staged.staged.retRef.ptr ret)) = .word result.ret)
    (haddr : ∀ seg ∈ call.toAlloc.segs staged.staged.staged, seg.elem ≠ socklen) :
    request.Reports rng mem (replyWith staged.staged.retRef.ptr ret) result := by
  obtain ⟨_, len, endRef, alloc⟩ := request
  cases hstaged
  constructor
  · have hresult := StagedCall.result_replyWith staged mem ret
    have hreply := (congrArg call.toAlloc.reply hresult).trans hret
    exact congrArg some ((call.reply_collected _).symm.trans hreply)
  · intro leaf hleaf seg hseg helem
    rw [List.mem_singleton.mp hleaf] at hseg
    exact absurd helem (haddr seg hseg)

theorem InOut.elem_of_option {staged : Option (InOut T)} {seg : Seg}
    (h : seg ∈ segsOption (fun inout => [InOut.seg inout]) staged) : seg.elem = T := by
  cases staged with
  | none => cases h
  | some inout =>
    rw [List.mem_singleton.mp h]
    rfl

theorem Request.not_keeps_ioctl {call : Ioctl} {request : Request (.maybeAlloc (.ioctl call))}
    (hrequest : (Call.maybeAlloc (.ioctl call)).request buf mem = .ok request)
    (hfd : isStdio call.fd = false) (hreq : call.request = FIONBIO ∨ call.request = FIONREAD)
    (hargp : call.argp = some ⟨argv.c.toNat, 4⟩) (hargv : usizeAsInt argv.b = call.request) :
    ¬request.KeepsFootprint mem argv .ioctl := by
  have hunstaged : (MaybeAlloc.ioctl call).unstaged mem = .ok .alloc := by
    simp [MaybeAlloc.unstaged, hfd, hreq]
  obtain ⟨staged, hstaged⟩ := Request.exists_staged hrequest hunstaged
  have hfirst : argv.c.toNat ∈ bytesOf [(⟨argv.c.toNat, 4⟩ : Slice .u8).span] := by
    simp [Slice.span, Layout.u8]
  intro hkeeps
  rcases hreq with hreq | hreq
  · have hreply : Reply.ofExcept intAsUsize (decodeInt 0) = .word 0 := by decide
    have helem : ∀ seg ∈ (MaybeAlloc.ioctl call).toAlloc.segs staged.staged.staged,
        seg.elem ≠ socklen := by
      intro seg hseg
      rw [InOut.elem_of_option hseg]
      exact ne_socklen (by decide)
    have hreports : request.Reports default mem (replyWith staged.staged.retRef.ptr 0) ⟨0, 0⟩ :=
      Request.reports_maybeAlloc hstaged hreply helem
    have hsubset := hkeeps.overwritten _ _ _ hreports
    rw [Request.overwritten_maybeAlloc hrequest hstaged hreports] at hsubset
    have hoverwrites : argv.c.toNat ∈ Syscall.overwrites ⟨0, 0⟩ (.allocIoctl ⟨call⟩) := by
      rw [Syscall.overwrites, hargp]
      exact hfirst
    obtain ⟨hread, _⟩ := hsubset hoverwrites
    rw [hargv, hreq] at hread
    exact absurd hread (by decide)
  · have hleaf : (⟨.syscall (.allocIoctl ⟨call⟩), staged⟩ : Leaf) ∈
        (Call.maybeAlloc (.ioctl call)).leaves request.staged := by
      rw [hstaged]
      exact List.mem_singleton_self _
    have hbuffer : Slice.buffer (⟨argv.c.toNat, 4⟩ : Slice .u8) .inout ∈
        (AllocCall.syscall (.allocIoctl ⟨call⟩)).spec.buffers := by
      change _ ∈ buffersOption _ call.argp
      rw [hargp]
      exact List.mem_singleton_self _
    have hcopied := Request.subset_copied hrequest hleaf hbuffer (by intro h; cases h) rfl hfirst
    obtain ⟨hnbio, _⟩ := hkeeps.copied hcopied
    rw [hargv, hreq] at hnbio
    exact absurd hnbio (by decide)

theorem ioctl_fits : ArmFits platform buf mem argv .ioctl := by
  refine .bind (validateArgp_ensures platform (usizeAsInt argv.b) argv.c) fun argp hargp => .ok ?_
  rcases hargp with ⟨hnull, rfl⟩ | ⟨hptr, hreq, rfl⟩
  · apply Invocation.footprint_maybeAlloc _ (.inl hnull)
    intro _
    constructor <;> simp [MaybeAlloc.toAlloc, Syscall.buffers, Syscall.overwrites, buffersOption,
      overwritesOption]
  · cases hfd : isStdio (usizeAsInt argv.a) with
    | true =>
      apply Invocation.footprint_maybeAlloc _ (.inr hfd)
      intro hunstaged
      simp only [MaybeAlloc.unstaged, hfd, true_and, if_true] at hunstaged
      split at hunstaged <;> cases hunstaged
    | false =>
      intro _ hcall request hrequest
      cases hcall
      refine iff_of_false (Request.not_keeps_ioctl hrequest hfd hreq rfl rfl) ?_
      rintro (hnull | hstdio)
      · exact hptr hnull
      · rw [hfd] at hstdio
        cases hstdio

theorem fstat_fits : ArmFits platform buf mem argv .fstat := by
  refine .bind (validateMut_ensures platform stat argv.b) fun statbuf hstatbuf =>
    .ok (Invocation.footprint_stub (fun rng reply result _ => ?_) trivial)
  subst hstatbuf
  exact Fstat.overwritten_subset reply _ _

theorem uname_fits : ArmFits platform buf mem argv .uname := by
  refine .bind (validateMut_ensures platform utsname argv.a) fun ref href =>
    .ok (Invocation.footprint_stub (fun rng reply result _ => ?_) trivial)
  subst href
  exact Uname.overwritten_subset reply _

theorem getrandom_fits : ArmFits platform buf mem argv .getrandom := by
  refine .bind (validateSliceMut_ensures platform .u8 argv.a argv.b) fun slice hslice =>
    .ok (Invocation.footprint_stub (fun rng reply result hret => ?_) trivial)
  subst hslice
  change Reply.ofExcept usize ((Getrandom.collect rng _ _).result reply) = _ at hret
  cases hresult : (Getrandom.collect rng ⟨argv.a.toNat, argv.b.toNat⟩
      (usizeAsInt argv.c)).result reply with
  | error errno =>
    rw [hresult] at hret
    cases hret
  | ok count =>
    rw [hresult] at hret
    obtain ⟨hle, hsubset⟩ := Getrandom.collect_subset rng _ _ reply hresult
    have hword : result.ret.toNat = count := by
      rw [← Reply.word.inj hret]
      exact toNat_usize (Nat.lt_of_le_of_lt hle argv.b.isLt)
    rw [← hword] at hsubset
    exact hsubset

theorem readlink_fits : ArmFits platform buf mem argv .readlink := by
  refine .bind (.any _) fun pathname _ =>
    .bind (validateSliceMut_ensures platform .u8 argv.b argv.c) fun slice hslice =>
      .ok (Invocation.footprint_stub (fun rng reply result hret => ?_) trivial)
  subst hslice
  change Reply.ofOption usize ((Readlink.collect mem pathname _).result reply) = _ at hret
  rcases hresult : (Readlink.collect mem pathname ⟨argv.b.toNat, argv.c.toNat⟩).result reply
    with _ | (errno | count)
  · rw [hresult] at hret
    cases hret
  · rw [hresult] at hret
    cases hret
  · rw [hresult] at hret
    obtain ⟨hcount, hsubset⟩ := Readlink.overwritten_subset _ reply hresult
    have hword : result.ret.toNat = count := by
      rw [← Reply.word.inj hret, hcount]
      rfl
    rw [← hword] at hsubset
    exact hsubset

theorem Invocation.footprint_constant {call : Stub} {sysno : Sysno}
    (h : ∀ rng reply, (call.collect rng mem).log reply = []) (hfits : FootprintFits argv sysno) :
    (Invocation.stub call).Footprint buf mem argv sysno (FootprintFits argv sysno) := by
  refine Invocation.footprint_stub (fun rng reply result _ => ?_) hfits
  rw [h rng reply, overwritten_nil]
  exact Set.empty_subset _

theorem passthrough_fits {call : Passthrough} {sysno : Sysno} (hfits : FootprintFits argv sysno) :
    Except.Ensures (Invocation.Footprint buf mem argv sysno (FootprintFits argv sysno))
      (passthrough call) := by
  refine .ok (Invocation.footprint_syscall ?_ hfits)
  constructor <;> simp [Syscall.buffers, Syscall.overwrites]

theorem dispatch_fits (sysno : Sysno) : ArmFits platform buf mem argv sysno := by
  cases sysno with
  | accept => exact accept_fits
  | accept4 => exact accept4_fits
  | bind => exact bind_fits
  | clockGetres => exact clockGetres_fits
  | clockGettime => exact clockGettime_fits
  | connect => exact connect_fits
  | epollCtl => exact epollCtl_fits
  | epollPwait => exact epollPwait_fits
  | epollWait => exact epollWait_fits
  | fcntl => exact fcntl_fits
  | fstat => exact fstat_fits
  | getrandom => exact getrandom_fits
  | getsockname => exact getsockname_fits
  | ioctl => exact ioctl_fits
  | nanosleep => exact nanosleep_fits
  | open_ => exact open_fits
  | poll => exact poll_fits
  | read => exact read_fits
  | readlink => exact readlink_fits
  | readv => exact readv_fits
  | recvfrom => exact recvfrom_fits
  | sendto => exact sendto_fits
  | setsockopt => exact setsockopt_fits
  | uname => exact uname_fits
  | write => exact write_fits
  | writev => exact writev_fits
  | close | dup | dup2 | dup3 | epollCreate1 | eventfd2 | exit | exitGroup | listen | socket
  | sync => exact passthrough_fits trivial
  | getegid | geteuid | getgid | getpid | getuid =>
    exact .ok (Invocation.footprint_constant (fun _ _ => rfl) trivial)
  | setTidAddress =>
    exact .bind (.any _) fun _ _ => .ok (Invocation.footprint_constant (fun _ _ => rfl) trivial)
  | rtSigprocmask | sigaltstack =>
    exact .bind (.any _) fun _ _ => .bind (.any _) fun _ _ =>
      .ok (Invocation.footprint_constant (fun _ _ => rfl) trivial)
  | archPrctl | brk | mmap => exact .ok (Invocation.footprint_none rfl)
  | madvise | mprotect | munmap =>
    exact .bind (.any _) fun _ _ => .ok (Invocation.footprint_none rfl)
  | mremap | rtSigaction =>
    exact .bind (.any _) fun _ _ => .bind (.any _) fun _ _ => .ok (Invocation.footprint_none rfl)

end

/-- A request of `Handler::syscall` keeps to the footprint of the kernel exactly for
registers that fit. -/
theorem footprint_kept_iff {platform : Platform} {mem : Mem} {registers : Registers}
    {sysno : Sysno} (hsysno : Sysno.ofWord registers.num = some sysno) {invocation : Invocation}
    (hdecode : decode platform mem registers = .ok invocation) {call : Call}
    (hcall : invocation.call = some call) {buf : BlockBuf} {request : Request call}
    (hrequest : call.request buf mem = .ok request) :
    request.KeepsFootprint mem registers.argv sysno ↔ FootprintFits registers.argv sysno := by
  rw [decode, hsysno] at hdecode
  exact dispatch_fits sysno invocation hdecode call hcall request hrequest

def oneEvent : Registers := ⟨Sysno.epollWait.toWord, ⟨3, 4096, 1, 0, 0, 0⟩⟩

theorem epoll_wait_overwrites_more :
    ∃ request : Request (.alloc (.syscall (.epollWait ⟨3, ⟨4096, 1⟩, 0⟩))),
      decode userMemScope (fun _ => 0) oneEvent = .ok (.syscall (.epollWait ⟨3, ⟨4096, 1⟩, 0⟩)) ∧
      Call.request ⟨8192, 64, by decide, by decide⟩ (fun _ => 0) _ = .ok request ∧
      ¬request.KeepsFootprint (fun _ => 0) oneEvent.argv .epollWait := by
  have hok : (Call.request ⟨8192, 64, by decide, by decide⟩ (fun _ => 0)
      (.alloc (.syscall (.epollWait ⟨3, ⟨4096, 1⟩, 0⟩)))).isOk = true := by decide +kernel
  obtain ⟨request, hrequest⟩ := Except.exists_of_isOk hok
  refine ⟨request, rfl, hrequest, ?_⟩
  rw [Invocation.footprint_epollWait rfl (fun _ => rfl) Iff.rfl _ rfl request hrequest]
  decide

def noEvent : Registers := ⟨Sysno.epollWait.toWord, ⟨3, 4096, 0, 0, 0, 0⟩⟩

theorem footprint_kept_no_event :
    ∃ request : Request (.alloc (.syscall (.epollWait ⟨3, ⟨4096, 0⟩, 0⟩))),
      Call.request ⟨8192, 64, by decide, by decide⟩ (fun _ => 0) _ = .ok request ∧
      request.KeepsFootprint (fun _ => 0) noEvent.argv .epollWait := by
  have hok : (Call.request ⟨8192, 64, by decide, by decide⟩ (fun _ => 0)
      (.alloc (.syscall (.epollWait ⟨3, ⟨4096, 0⟩, 0⟩)))).isOk = true := by decide +kernel
  have hdecode : decode userMemScope (fun _ => 0) noEvent =
      .ok (.syscall (.epollWait ⟨3, ⟨4096, 0⟩, 0⟩)) := rfl
  obtain ⟨request, hrequest⟩ := Except.exists_of_isOk hok
  exact ⟨request, hrequest, (footprint_kept_iff rfl hdecode rfl hrequest).mpr rfl⟩

end Enarx.Sallyport
