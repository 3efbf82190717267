import Enarx.Sallyport.Arguments
import Enarx.Sallyport.Collection
import Enarx.Sallyport.KernelFootprint

/-!
# Results of the kernel

The result of a forwarded call on its way back: the kernel leaves it in `rax`, the
host in the first return word of the item, the guest decodes it as the type that
the call declares, and the dispatcher makes the return words of the workload.
-/
namespace Enarx.Sallyport

open Libc

theorem usize_toNat (word : Word) : usize word.toNat = word := by
  rw [usize, BitVec.ofNat_toNat, BitVec.setWidth_eq]

def Host.KernelCall.arg (call : Host.KernelCall) (index : Nat) : Word :=
  (call.argv[index]?.map Host.Value.toWord).getD 0

namespace Linux

def MSG_TRUNC : Word := 0x20

def INT_MAX : Nat := 2 ^ 31 - 1

/-- The largest result that is not an error, for the calls that return. -/
def maxResult (call : Host.KernelCall) : Option Nat :=
  match call.num with
  | .exit | .exitGroup => none
  | .accept | .accept4 | .dup | .dup2 | .dup3 | .epollCreate1 | .eventfd2 | .fcntl | .ioctl
  | .open_ | .setsockopt | .socket => some INT_MAX
  | .read | .write | .sendto => some (call.arg 2).toNat
  -- with `MSG_TRUNC` it is the length of the packet, however long the buffer is
  | .recvfrom => some (if call.arg 3 &&& MSG_TRUNC = 0 then (call.arg 2).toNat else INT_MAX)
  | .poll => some (min INT_MAX (call.arg 1).toNat)
  | .epollWait | .epollPwait => some (min INT_MAX (call.arg 2).toNat)
  | _ => some 0

def IsErrno (ret : Word) : Prop := -4095 ≤ ret.toInt ∧ ret.toInt ≤ -1

instance (ret : Word) : Decidable (IsErrno ret) := inferInstanceAs (Decidable (_ ∧ _))

def Returns (call : Host.KernelCall) (ret : Word) : Prop :=
  ∃ max, maxResult call = some max ∧ (IsErrno ret ∨ ret.toNat ≤ max)

/-- What the workload is to receive for a result: the error, or `ret` in `rax`. -/
def outcome (ret : Word) : Except Stop (Word × Word) :=
  if IsErrno ret then .error (.err (BitVec.ofInt 32 (-ret.toInt))) else .ok (ret, 0)

def ResultFits (call : Host.KernelCall) (ret : Word) : Prop :=
  match call.num with
  -- the descriptor is dropped
  | .dup | .dup2 | .dup3 => IsErrno ret ∨ ret = 0
  -- a longer packet is taken for an attack
  | .recvfrom => IsErrno ret ∨ ret.toNat ≤ (call.arg 2).toNat
  | _ => True

theorem isErrno_iff {ret : Word} : IsErrno ret ↔ 2 ^ 64 - 4095 ≤ ret.toNat := by
  have hlt := ret.isLt
  rw [IsErrno, BitVec.toInt_eq_toNat_cond]
  split <;> omega

def reply (ret : Word) : Reply := if IsErrno ret then .err (errnoOf ret) else .word ret

theorem reply_of_errno {ret : Word} (h : IsErrno ret) : reply ret = .err (errnoOf ret) := if_pos h

theorem reply_of_small {ret : Word} (h : ret.toNat < 2 ^ 63) : reply ret = .word ret := by
  apply if_neg
  rw [isErrno_iff]
  omega

theorem errnoOf_eq (ret : Word) : errnoOf ret = BitVec.ofInt 32 (-ret.toInt) := by
  rw [errnoOf, usizeAsInt, BitVec.ofInt_neg,
    ← BitVec.signExtend_eq_setWidth_of_le ret (show 32 ≤ 64 by decide)]
  rfl

section

variable {ret : Word}

theorem decodeUnit_errno (h : IsErrno ret) : decodeUnit ret = .error (errnoOf ret) := by
  rw [isErrno_iff] at h
  exact if_pos (by unfold ERRNO_START; omega)

theorem decodeInt_errno (h : IsErrno ret) : decodeInt ret = .error (errnoOf ret) := by
  rw [isErrno_iff] at h
  exact if_pos (by unfold ERRNO_START; omega)

theorem decodeSize_errno (h : IsErrno ret) : decodeSize ret = .error (errnoOf ret) := by
  rw [isErrno_iff] at h
  exact if_pos (by unfold ERRNO_START; omega)

theorem decodeUnit_small (h : ret.toNat < 2 ^ 63) : decodeUnit ret = .ok () :=
  if_neg (by unfold ERRNO_START; omega)

theorem decodeInt_small (h : ret.toNat ≤ INT_MAX) : decodeInt ret = .ok (usizeAsInt ret) := by
  unfold INT_MAX at h
  rw [decodeInt, if_neg (by unfold ERRNO_START; omega), if_pos h]

theorem decodeSize_small (h : ret.toNat < 2 ^ 63) : decodeSize ret = .ok ret.toNat :=
  if_neg (by unfold ERRNO_START; omega)

theorem intAsUsize_usizeAsInt (h : ret.toNat ≤ INT_MAX) : intAsUsize (usizeAsInt ret) = ret := by
  unfold INT_MAX at h
  apply BitVec.eq_of_toNat_eq
  unfold intAsUsize usizeAsInt
  rw [BitVec.signExtend_eq_setWidth_of_msb_false]
  · simp only [BitVec.toNat_setWidth]
    omega
  · rw [BitVec.msb_eq_decide, decide_eq_false_iff_not, BitVec.toNat_setWidth]
    omega

theorem reply_int (h : IsErrno ret ∨ ret.toNat ≤ INT_MAX) :
    Reply.ofExcept intAsUsize (decodeInt ret) = reply ret := by
  rcases h with h | h
  · rw [decodeInt_errno h, reply_of_errno h]
    rfl
  · rw [decodeInt_small h, reply_of_small (by unfold INT_MAX at h; omega), Reply.ofExcept,
      intAsUsize_usizeAsInt h]

theorem reply_unit_iff (h : IsErrno ret ∨ ret.toNat ≤ INT_MAX) :
    Reply.ofUnit (decodeUnit ret) = reply ret ↔ IsErrno ret ∨ ret = 0 := by
  rcases h with h | h
  · rw [decodeUnit_errno h, reply_of_errno h]
    exact iff_of_true rfl (.inl h)
  · have hsmall : ret.toNat < 2 ^ 63 := by unfold INT_MAX at h; omega
    have herrno : ¬IsErrno ret := by rw [isErrno_iff]; omega
    rw [decodeUnit_small hsmall, reply_of_small hsmall]
    constructor
    · intro hreply
      exact .inr (Reply.word.inj hreply).symm
    · rintro (hret | rfl)
      · exact absurd hret herrno
      · rfl

theorem reply_unit (h : IsErrno ret ∨ ret.toNat ≤ 0) : Reply.ofUnit (decodeUnit ret) = reply ret := by
  have hzero : IsErrno ret ∨ ret = 0 :=
    h.imp_right fun h => BitVec.eq_of_toNat_eq (Nat.le_zero.mp h)
  exact (reply_unit_iff (h.imp_right fun h => h.trans (Nat.zero_le _))).mpr hzero

theorem reply_count_iff {count : Except Errno Nat} (len : Nat)
    (herrno : IsErrno ret → count = .error (errnoOf ret))
    (hsmall : ¬IsErrno ret → ret.toNat < 2 ^ 63 ∧ count = .ok ret.toNat) :
    Reply.ofOption usize (checkedCount len count) = reply ret ↔ IsErrno ret ∨ ret.toNat ≤ len := by
  by_cases h : IsErrno ret
  · rw [herrno h, reply_of_errno h]
    exact iff_of_true rfl (.inl h)
  · obtain ⟨hlt, hcount⟩ := hsmall h
    rw [hcount, reply_of_small hlt, checkedCount]
    split
    · next hlarge =>
      refine iff_of_false (by intro h; cases h) ?_
      rintro (hret | hret)
      · exact h hret
      · omega
    · next hlen =>
      refine iff_of_true ?_ (.inr (Nat.not_lt.mp hlen))
      rw [Reply.ofOption, Reply.ofExcept, usize_toNat]

end

end Linux

namespace Syscall

def kernelCall (call : Syscall) (segs : List Seg) (base : Nat) : Host.KernelCall :=
  ⟨call.num, call.kernelArgs.map (Passed.value segs base)⟩

theorem reply_counted {call : Syscall} {index : Nat} (h : call.counted = some index)
    (collected : call.Collected) : call.reply collected = Reply.ofOption usize (call.outcome collected) := by
  cases call with
  | epollPwait call | epollWait call | poll call =>
    rcases collected with _ | _ | ret
    · rfl
    · rfl
    · exact congrArg Reply.word (usize_toNat (intAsUsize ret)).symm
  | read call | readv call | recv call | recvfrom call | send call | sendto call | write call
  | writev call => rfl
  | _ => cases h

theorem hostCount_errno (call : Syscall) {ret : Word} (h : Linux.IsErrno ret) :
    call.hostCount ret = .error (errnoOf ret) := by
  cases call with
  | epollPwait call | epollWait call | poll call =>
    rw [hostCount, Linux.decodeInt_errno h]
    rfl
  | _ => exact Linux.decodeSize_errno h

theorem map_count_decodeInt {ret : Word} (h : ret.toNat ≤ Linux.INT_MAX) :
    (decodeInt ret).map Count.count = .ok ret.toNat := by
  rw [Linux.decodeInt_small h]
  exact congrArg Except.ok (congrArg BitVec.toNat (Linux.intAsUsize_usizeAsInt h))

section

variable {call : Syscall} {staged : call.Staged} {mem block : Mem} {ret : Word} {index : Nat}
  {seg : Seg}

theorem reply_counted_iff (hcounted : call.counted = some index)
    (hseg : (call.segs staged)[index]? = some seg)
    (hcount : ¬Linux.IsErrno ret → ret.toNat < 2 ^ 63 ∧ call.hostCount ret = .ok ret.toNat) :
    call.reply ((call.collected staged mem ret).result block) =
        Linux.reply ret ↔ Linux.IsErrno ret ∨ ret.toNat ≤ seg.len := by
  obtain ⟨found, hfound, houtcome⟩ := call.collect_outcome staged mem block ret hcounted
  cases hseg.symm.trans hfound
  rw [reply_counted hcounted, houtcome]
  exact Linux.reply_count_iff seg.len (hostCount_errno call) hcount

theorem reply_size_iff (hcounted : call.counted = some index)
    (hseg : (call.segs staged)[index]? = some seg) (hhost : call.hostCount ret = decodeSize ret)
    (hret : Linux.IsErrno ret ∨ ret.toNat < 2 ^ 63) :
    call.reply ((call.collected staged mem ret).result block) =
        Linux.reply ret ↔ Linux.IsErrno ret ∨ ret.toNat ≤ seg.len := by
  apply reply_counted_iff hcounted hseg
  intro h
  have hsmall := hret.resolve_left h
  exact ⟨hsmall, hhost.trans (Linux.decodeSize_small hsmall)⟩

theorem reply_events (hcounted : call.counted = some index) (hseg : (call.segs staged)[index]? = some seg)
    (hhost : call.hostCount ret = (decodeInt ret).map Count.count)
    (hret : Linux.IsErrno ret ∨ ret.toNat ≤ min Linux.INT_MAX (usize seg.len).toNat) :
    call.reply ((call.collected staged mem ret).result block) = Linux.reply ret := by
  have hmod : (usize seg.len).toNat ≤ seg.len := by
    rw [usize, BitVec.toNat_ofNat]
    exact Nat.mod_le _ _
  refine (reply_counted_iff hcounted hseg fun h => ?_).mpr (hret.imp_right fun h => by omega)
  have hsmall := hret.resolve_left h
  have hint : ret.toNat ≤ Linux.INT_MAX := by omega
  refine ⟨?_, hhost.trans (map_count_decodeInt hint)⟩
  unfold Linux.INT_MAX at hint
  omega

theorem reply_transfer (hcounted : call.counted = some index)
    (hseg : (call.segs staged)[index]? = some seg) (hhost : call.hostCount ret = decodeSize ret)
    (hlen : seg.len < 2 ^ 63) (hret : Linux.IsErrno ret ∨ ret.toNat ≤ (usize seg.len).toNat) :
    call.reply ((call.collected staged mem ret).result block) = Linux.reply ret := by
  rw [toNat_usize (hlen.trans (by decide))] at hret
  exact (reply_size_iff hcounted hseg hhost (hret.imp_right fun h => by omega)).mpr hret

theorem reply_packet_iff (hcounted : call.counted = some index)
    (hseg : (call.segs staged)[index]? = some seg) (hhost : call.hostCount ret = decodeSize ret)
    (hlen : seg.len < 2 ^ 63) {whole : Prop} [Decidable whole] (hret : Linux.IsErrno ret ∨
      ret.toNat ≤ if whole then (usize seg.len).toNat else Linux.INT_MAX) :
    call.reply ((call.collected staged mem ret).result block) =
        Linux.reply ret ↔ Linux.IsErrno ret ∨ ret.toNat ≤ (usize seg.len).toNat := by
  rw [toNat_usize (hlen.trans (by decide))] at hret ⊢
  apply reply_size_iff hcounted hseg hhost
  refine hret.imp_right fun h => ?_
  unfold Linux.INT_MAX at h
  split at h <;> omega

theorem reply_iff {base : Nat} (hlen : ∀ seg ∈ call.segs staged, seg.len < 2 ^ 63)
    (hreturns : Linux.Returns (call.kernelCall (call.segs staged) base) ret) :
    call.reply ((call.collected staged mem ret).result block) = Linux.reply ret ↔
      Linux.ResultFits (call.kernelCall (call.segs staged) base) ret := by
  obtain ⟨max, hmax, hret⟩ := hreturns
  cases call with
  | accept call | accept4 call | allocIoctl call | allocOpen call | setsockopt call =>
    cases hmax
    exact iff_of_true (Linux.reply_int hret) trivial
  | bind call | connect call | epollCtl call | getsockname call =>
    cases hmax
    exact iff_of_true (Linux.reply_unit hret) trivial
  | clockGetres call =>
    cases hmax
    refine iff_of_true (Eq.trans ?_ (Linux.reply_unit hret)) trivial
    change Reply.ofUnit ((ClockGetres.collect _ (decodeUnit ret)).result block) = _
    cases decodeUnit ret <;> rfl
  | clockGettime call =>
    cases hmax
    refine iff_of_true (Eq.trans ?_ (Linux.reply_unit hret)) trivial
    change Reply.ofUnit ((ClockGettime.collect _ (decodeUnit ret)).result block) = _
    cases decodeUnit ret <;> rfl
  | nanosleep call =>
    cases hmax
    exact iff_of_true ((congrArg Reply.ofUnit (Nanosleep.result_collect _ _ block)).trans
      (Linux.reply_unit hret)) trivial
  | epollPwait call | epollWait call | poll call =>
    cases hmax
    exact iff_of_true (reply_events rfl rfl rfl hret) trivial
  | read call | readv call | send call | write call | writev call =>
    cases hmax
    exact iff_of_true (reply_transfer rfl rfl rfl (hlen _ List.mem_cons_self) hret) trivial
  | sendto call =>
    cases hmax
    exact iff_of_true (reply_transfer rfl rfl rfl (hlen _ (.tail _ List.mem_cons_self)) hret) trivial
  | recv call =>
    cases hmax
    exact reply_packet_iff rfl rfl rfl (hlen _ List.mem_cons_self) hret
  | recvfrom call =>
    cases hmax
    exact reply_packet_iff rfl rfl rfl (hlen _ (.tail _ (.tail _ List.mem_cons_self))) hret
  | passthrough call =>
    cases call with
    | dup oldfd | dup2 oldfd newfd | dup3 oldfd newfd flags =>
      cases hmax
      exact Linux.reply_unit_iff hret
    | close fd | listen sockfd backlog | sync =>
      cases hmax
      exact iff_of_true (Linux.reply_unit hret) trivial
    | epollCreate1 flags | eventfd2 initval flags | allocFcntl call | socket domain typ protocol =>
      cases hmax
      exact iff_of_true (Linux.reply_int hret) trivial
    -- they do not return
    | exit status | exitGroup status => cases hmax

end

end Syscall

/-- The host finds one item in the block, issues `call` for it and stores the result in its
first return word. What else the reply holds is up to the kernel. -/
def Host.Serves (base : Nat) (buf : BlockBuf) (block reply : Mem) (call : Host.KernelCall)
    (ret : Word) : Prop :=
  ∃ item, Block.items (block.words buf.base buf.count) = .ok [item] ∧
    Host.execute base item = .ok (some (.syscall call)) ∧
    (reply.words buf.base buf.count)[item.pos + 1 + item.kind.argc]? = some ret

theorem Mem.wordOfBytes_read {mem : Mem} {addr count index : Nat} {word : Word}
    (h : (mem.words addr count)[index]? = some word) :
    wordOfBytes (mem.read (addr + 8 * index) 8) = word := by
  have hlt : index < count := by
    have := (List.getElem?_eq_some_iff.mp h).1
    rwa [Mem.length_words] at this
  rw [Mem.getElem?_words mem addr hlt] at h
  exact Option.some.inj h

variable {base : Nat} {reply : Mem}

theorem Leaf.At.retWord_eq {leaf : Leaf} {item : Item} (h : leaf.At base item)
    (hkind : item.kind = leaf.call.kind) (hrets : 0 < leaf.call.kind.rets) {count : Nat} {ret : Word}
    (hret : (reply.words base count)[item.pos + 1 + item.kind.argc]? = some ret) :
    leaf.retWord reply = ret := by
  obtain ⟨pos, hpos, hlaid⟩ := h
  have hptr : leaf.staged.staged.retRef.ptr = base + 8 * (item.pos + 1 + item.kind.argc) := by
    rw [hlaid.ret_ptr, hpos, hkind]
    omega
  rw [Leaf.retWord, hptr, Mem.take_read reply _ (by omega)]
  exact Mem.wordOfBytes_read hret

theorem Syscall.size_pos (call : Syscall) :
    call.buffers.all (fun buffer => Nat.ble 1 buffer.elem.size) = true := by
  cases call with
  | accept call | accept4 call | clockGetres call | nanosleep call =>
    obtain ⟨_, _ | _⟩ := call <;> rfl
  | setsockopt call => obtain ⟨_, _, _, _ | _⟩ := call <;> rfl
  | allocIoctl call => obtain ⟨_, _, _ | _⟩ := call <;> rfl
  | _ => rfl

theorem StagedCall.reply_iff {call : Syscall} {staged : StagedCall (.syscall call)} {mem : Mem}
    {buf : BlockBuf} {item : Item} (hencodes : Leaf.Encodes mem buf.base ⟨.syscall call, staged⟩ item)
    (hat : Leaf.At buf.base ⟨.syscall call, staged⟩ item) (hsmall : item.data.length < 2 ^ 63)
    (hannounced : call.Announced mem) (hbase : 8 ∣ base) {kernelCall : Host.KernelCall}
    (hexecute : Host.execute base item = .ok (some (.syscall kernelCall))) {ret : Word}
    (hret : (reply.words buf.base buf.count)[item.pos + 1 + item.kind.argc]? = some ret)
    (hreturns : Linux.Returns kernelCall ret) :
    call.reply ((staged.commit.result mem).collect.result reply) = Linux.reply ret ↔
      Linux.ResultFits kernelCall ret := by
  have husable := hencodes.usable buf.aligned hbase
  have hissued := AllocCall.host_execute (.syscall call) hencodes.kind_eq hencodes.num_eq
    hencodes.argv_eq husable hsmall hannounced
  cases hexecute.symm.trans hissued
  have hword : Leaf.retWord ⟨.syscall call, staged⟩ reply = ret :=
    hat.retWord_eq hencodes.kind_eq Nat.two_pos hret
  have hcommitted : (staged.commit.result mem).committed =
      (call.commit staged.staged.staged).result mem := rfl
  have hresult : (staged.commit.result mem).collect.result reply =
      (call.collect ((call.commit staged.staged.staged).result mem)
        (Leaf.retWord ⟨.syscall call, staged⟩ reply)).result reply := by
    rw [CommittedAlloc.result_collect, hcommitted]
    rfl
  rw [hresult, hword]
  refine Syscall.reply_iff (fun seg hseg => ?_) hreturns
  obtain ⟨buffer, hbuffer, hcarries⟩ := exists_of_mem_left hencodes.carries hseg
  have hpos := Nat.le_of_ble_eq_true (List.all_eq_true.mp call.size_pos buffer hbuffer)
  have hinside := hcarries.inside
  have hsize : seg.len ≤ seg.size := by
    rw [Seg.size, hcarries.holds.elem_eq]
    exact Nat.le_mul_of_pos_left _ hpos
  omega

def Reply.outcome : Reply → Except Stop (Word × Word)
  | .word ret => .ok (ret, 0)
  | .err errno => .error (.err errno)
  | .attacked => .error .attacked

theorem Reply.outcome_inj {left right : Reply} : left.outcome = right.outcome ↔ left = right := by
  cases left <;> cases right <;> simp [Reply.outcome]

theorem Linux.outcome_eq (ret : Word) : Linux.outcome ret = (Linux.reply ret).outcome := by
  rw [Linux.outcome, Linux.reply, errnoOf_eq]
  split <;> rfl

section

variable {env : Env σ} {guest : Guest σ}

theorem finish_fst (reply : Reply) : (finish env reply guest).1 = reply.outcome := by
  cases reply <;> rfl

theorem execute_of_sally {call : Call} {request : Request call}
    (hrequest : call.request env.buf guest.mem = .ok request)
    (hsome : call.allocated guest.mem ≠ []) {reply : Mem}
    (hsally : env.sally (request.block guest.mem guest.block :: guest.handed) = (.ok (), reply)) :
    ∃ after, execute env call guest = (.ok ((request.collect env.rng guest.mem).result reply), after) := by
  have hlen : 0 < request.len := (Request.len_pos hrequest).mpr hsome
  unfold execute
  rw [hrequest]
  simp only [if_pos hlen, hsally, Request.sally_ok hrequest]
  exact ⟨_, rfl⟩

theorem invoke_fst {invocation : Invocation} {call : Call} (hcall : invocation.call = some call)
    {collected : call.Collected} {after : Guest σ}
    (hexecute : execute env call guest = (.ok collected, after)) {reply : Reply}
    (hanswer : call.answer collected = some reply) : (invoke env invocation guest).1 = reply.outcome := by
  cases invocation with
  | syscall syscall | maybeAlloc maybe | stub stub =>
    cases hcall
    cases hanswer
    rw [invoke, Exec.bind_apply, hexecute]
    exact finish_fst _
  | memory | archPrctl | rtSigaction => cases hcall

theorem Invocation.answer_iff (invocation : Invocation) {call : Call}
    (hcall : invocation.call = some call) {mem : Mem}
    (hannounced : ∀ syscall : Syscall, .syscall syscall ∈ call.allocated mem → syscall.Announced mem)
    {buf : BlockBuf} {request : Request call} (hrequest : call.request buf mem = .ok request)
    (hsome : call.allocated mem ≠ []) {prior reply : Mem} {base : Nat} (hbase : 8 ∣ base)
    {kernelCall : Host.KernelCall} {ret : Word}
    (hhost : Host.Serves base buf (request.block mem prior) reply kernelCall ret)
    (hreturns : Linux.Returns kernelCall ret) (rng : Rdrand) :
    call.answer ((request.collect rng mem).result reply) = some (Linux.reply ret) ↔
      Linux.ResultFits kernelCall ret := by
  obtain ⟨item, hitems, hissued, hret⟩ := hhost
  cases invocation with
  | syscall syscall =>
    cases hcall
    obtain ⟨found, hfound, hencodes, hsmall, hat⟩ := Request.exists_item hrequest
      ⟨.syscall syscall, request.staged⟩ rfl prior
    cases hitems.symm.trans hfound
    exact (Option.some_inj).trans (StagedCall.reply_iff hencodes hat hsmall
      (hannounced syscall List.mem_cons_self) hbase hissued hret hreturns)
  | maybeAlloc maybe =>
    cases hcall
    obtain ⟨staged | val, len, endRef, alloc⟩ := request
    · have hunstaged := MaybeAlloc.unstaged_of_allocated hsome
      have hallocated : (Call.maybeAlloc maybe).allocated mem = [.syscall maybe.toAlloc] := by
        rw [Call.allocated, hunstaged]
      obtain ⟨found, hfound, hencodes, hsmall, hat⟩ := Request.exists_item hrequest
        ⟨.syscall maybe.toAlloc, staged⟩ rfl prior
      cases hitems.symm.trans hfound
      have hannounced' := hannounced maybe.toAlloc (by rw [hallocated]; exact List.mem_cons_self)
      have hreply := maybe.reply_collected ((staged.commit.result mem).collect.result reply)
      refine (Option.some_inj).trans ?_
      refine Iff.trans ?_ (StagedCall.reply_iff hencodes hat hsmall hannounced' hbase hissued hret
        hreturns)
      rw [hreply]
      rfl
    · -- nothing was staged
      exact absurd (Call.request_ok hrequest).1.symm hsome
  | stub stub =>
    cases hcall
    exact absurd rfl hsome
  | memory | archPrctl | rtSigaction => cases hcall

end

theorem syscall_fst {env : Env σ} {guest : Guest σ} {registers : Registers} {invocation : Invocation}
    (hdecode : decode env.platform guest.mem registers = .ok invocation) {call : Call}
    (hcall : invocation.call = some call) {request : Request call}
    (hrequest : call.request env.buf guest.mem = .ok request) (hforwarded : call.allocated guest.mem ≠ [])
    (hsally : env.sally (request.block guest.mem guest.block :: guest.handed) = (.ok (), reply))
    (ret : Word) : (syscall env registers guest).1 = Linux.outcome ret ↔
      call.answer ((request.collect env.rng guest.mem).result reply) = some (Linux.reply ret) := by
  obtain ⟨after, hexecute⟩ := execute_of_sally hrequest hforwarded hsally
  obtain ⟨answer, hanswer⟩ : ∃ answer,
      call.answer ((request.collect env.rng guest.mem).result reply) = some answer := by
    cases invocation with
    | syscall | maybeAlloc | stub =>
      cases hcall
      exact ⟨_, rfl⟩
    | memory | archPrctl | rtSigaction => cases hcall
  rw [syscall_eq hdecode, invoke_fst hcall hexecute hanswer, Linux.outcome_eq,
    Reply.outcome_inj, hanswer, Option.some_inj]

/-- The workload receives the result of the kernel, exactly if it fits. -/
theorem return_value_iff {env : Env σ} {guest : Guest σ} {registers : Registers} {invocation : Invocation}
    (hdecode : decode env.platform guest.mem registers = .ok invocation) {call : Call}
    (hcall : invocation.call = some call) {request : Request call}
    (hrequest : call.request env.buf guest.mem = .ok request)
    (hforwarded : call.allocated guest.mem ≠ []) {reply : Mem}
    (hsally : env.sally (request.block guest.mem guest.block :: guest.handed) = (.ok (), reply))
    {base : Nat} (hbase : 8 ∣ base) {kernelCall : Host.KernelCall} {ret : Word}
    (hhost : Host.Serves base env.buf (request.block guest.mem guest.block) reply kernelCall ret)
    (hreturns : Linux.Returns kernelCall ret) :
    (syscall env registers guest).1 = Linux.outcome ret ↔ Linux.ResultFits kernelCall ret := by
  have hannounced : ∀ syscall : Syscall, .syscall syscall ∈ call.allocated guest.mem →
      syscall.Announced guest.mem := by
    intro syscall hsyscall
    rw [decode] at hdecode
    split at hdecode
    · next sysno _ =>
      obtain ⟨found, hfound, hdetermines, _⟩ :=
        (dispatch_determines sysno invocation hdecode).of_allocated hcall hsyscall
      cases hfound
      exact hdetermines.announced
    · cases hdecode
  rw [syscall_fst hdecode hcall hrequest hforwarded hsally]
  exact Invocation.answer_iff _ hcall hannounced hrequest hforwarded hbase hhost hreturns env.rng

theorem Request.serves {call : Syscall} {request : Request (.alloc (.syscall call))}
    {buf : BlockBuf} {mem : Mem} (hrequest : (Call.alloc (.syscall call)).request buf mem = .ok request)
    (hannounced : call.Announced mem) (prior : Mem) (hbase : 8 ∣ base) (ret : Word) :
    ∃ dataBase, Host.Serves base buf (request.block mem prior) (replyWith (buf.base + 72) ret)
      (call.kernelCall (call.segs request.staged.staged.staged) dataBase) ret := by
  obtain ⟨item, hitems, hencodes, hsmall, pos, hpos, hlaid⟩ := Request.exists_item hrequest
    ⟨.syscall call, request.staged⟩ rfl prior
  have hissued := AllocCall.host_execute (.syscall call) hencodes.kind_eq hencodes.num_eq
    hencodes.argv_eq (hencodes.usable buf.aligned hbase) hsmall hannounced
  obtain ⟨_, hlaidOut, _, hroom⟩ := Call.request_ok hrequest
  -- the header of the item is the first thing in the block
  rcases hlaidOut with _ | ⟨hfront, hrest⟩
  have hstart : pos = 0 := by
    have := hlaid.header_ptr.symm.trans hfront.header_ptr
    omega
  have hindex : item.pos + 1 + item.kind.argc = 9 := by
    rw [hpos, hstart, hencodes.kind_eq]
    rfl
  have hcount : 9 < buf.count := by
    have hle : buf.base + 16 + request.staged.size ≤ request.endRef.ptr := hrest.le
    have hsize : request.staged.size = 8 * 9 + padded _ := hfront.size_eq
    omega
  refine ⟨_, item, hitems, hissued, ?_⟩
  rw [hindex, Mem.getElem?_words _ _ hcount]
  have hread : (replyWith (buf.base + 72) ret).read (buf.base + 72) 8 = wordBytes ret := by
    have := Mem.read_write (fun _ => 0) (buf.base + 72) (wordBytes ret)
    rwa [length_wordBytes] at this
  exact congrArg some ((congrArg wordOfBytes hread).trans (wordOfBytes_wordBytes ret))

def returning (ret : Word) : Env Unit where
  buf := .small
  platform := userMemScope
  tee := .kvm
  rng := default
  sally _ := (.ok (), replyWith (4096 + 72) ret)
  memory _ := throw (.err ENOSYS)
  attempts := 0

def idleGuest : Guest Unit := ⟨fun _ => 0, fun _ => 0, fun _ => none, 0, 0, (), []⟩

def dupSeven : Registers := ⟨Sysno.dup.toWord, ⟨7, 0, 0, 0, 0, 0⟩⟩

/-- The kernel returns descriptor 8, the workload does not receive it. -/
theorem dup_descriptor_dropped : ∃ request : Request (.alloc (.syscall (.passthrough (.dup 7)))),
      decode (returning 8).platform idleGuest.mem dupSeven =
          .ok (.syscall (.passthrough (.dup 7))) ∧
        Call.request (returning 8).buf idleGuest.mem _ = .ok request ∧
        Host.Serves 0 (returning 8).buf (request.block idleGuest.mem idleGuest.block)
          (replyWith (4096 + 72) 8) ⟨.dup, [.word 7]⟩ 8 ∧
        Linux.Returns ⟨.dup, [.word 7]⟩ 8 ∧
        (syscall (returning 8) dupSeven idleGuest).1 ≠ .ok (8, 0) := by
  have hok : (Call.request (returning 8).buf idleGuest.mem
      (.alloc (.syscall (.passthrough (.dup 7))))).isOk = true := by decide +kernel
  have hdecode : decode (returning 8).platform idleGuest.mem dupSeven =
      .ok (.syscall (.passthrough (.dup 7))) := rfl
  have hreturns : Linux.Returns ⟨.dup, [.word 7]⟩ 8 := ⟨_, rfl, .inr (by decide)⟩
  obtain ⟨request, hrequest⟩ := Except.exists_of_isOk hok
  obtain ⟨_, hserves⟩ := Request.serves hrequest trivial idleGuest.block (Nat.dvd_zero 8) 8
  refine ⟨request, hdecode, hrequest, hserves, hreturns, ?_⟩
  have hiff := Invocation.answer_iff (.syscall (.passthrough (.dup 7))) rfl
    (fun syscall hsyscall => by cases List.mem_singleton.mp hsyscall; trivial) hrequest nofun
    (Nat.dvd_zero 8) hserves hreturns (returning 8).rng
  intro hreceived
  have houtcome : (syscall (returning 8) dupSeven idleGuest).1 = Linux.outcome 8 := by
    rw [hreceived]
    rfl
  have hfits : Linux.IsErrno 8 ∨ (8 : Word) = 0 :=
    hiff.mp ((syscall_fst hdecode rfl hrequest nofun rfl 8).mp houtcome)
  exact absurd hfits (by decide)

def newSocket : Registers := ⟨Sysno.socket.toWord, ⟨2, 1, 0, 0, 0, 0⟩⟩

theorem return_value_socket : ∃ request : Request (.alloc (.syscall (.passthrough (.socket 2 1 0)))),
      Call.request (returning 8).buf idleGuest.mem _ = .ok request ∧
        Linux.Returns ⟨.socket, [.word 2, .word 1, .word 0]⟩ 8 ∧
        (syscall (returning 8) newSocket idleGuest).1 = .ok (8, 0) := by
  have hok : (Call.request (returning 8).buf idleGuest.mem
      (.alloc (.syscall (.passthrough (.socket 2 1 0))))).isOk = true := by decide +kernel
  have hdecode : decode (returning 8).platform idleGuest.mem newSocket =
      .ok (.syscall (.passthrough (.socket 2 1 0))) := rfl
  have hreturns : Linux.Returns ⟨.socket, [.word 2, .word 1, .word 0]⟩ 8 :=
    ⟨_, rfl, .inr (by decide)⟩
  obtain ⟨request, hrequest⟩ := Except.exists_of_isOk hok
  obtain ⟨_, hserves⟩ := Request.serves hrequest trivial idleGuest.block (Nat.dvd_zero 8) 8
  exact ⟨request, hrequest, hreturns, (return_value_iff hdecode rfl hrequest nofun rfl
    (Nat.dvd_zero 8) hserves hreturns).mpr trivial⟩

end Enarx.Sallyport
