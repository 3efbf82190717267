import Enarx.Sallyport.Encoding
import Enarx.Sallyport.Host

/-!
# Offsets of the guest are pointers of the host

For every system call that can be staged, what the kernel is to be handed for
each argument, and the proof that the host hands it exactly that: all checks of
offsets succeed, and a pointer is the segment that the guest allocated.
-/
namespace Enarx.Sallyport

open Libc

/-- An argument of the kernel: a scalar, a staged buffer, its length, or null. -/
inductive Passed where
  | word (value : Word)
  | ptr (index : Nat)
  | len (index : Nat)
  | null
  deriving DecidableEq, Repr

def Seg.hostPtr (base : Nat) (seg : Seg) : Host.Ptr := ⟨base + seg.offset, seg.len, seg.size⟩

namespace Passed

def value (segs : List Seg) (base : Nat) : Passed → Host.Value
  | .word value => .word value
  | .ptr index => (segs[index]?.map fun seg => .ptr (seg.hostPtr base)).getD .null
  | .len index => .word ((segs[index]?.map fun seg => usize seg.len).getD 0)
  | .null => .null

def int (value : CInt) : Passed := .word (intAsUsize value)

def orNull (buffer : Option α) (index : Nat) : Passed :=
  if buffer.isSome then .ptr index else .null

end Passed

def Syscall.kernelArgs : Syscall → List Passed
  | .accept call => [.int call.sockfd, .orNull call.addr 0, .orNull call.addr 1]
  | .accept4 call =>
    [.int call.sockfd, .orNull call.addr 0, .orNull call.addr 1, .int call.flags]
  | .bind call => [.int call.sockfd, .ptr 0, .len 0]
  | .clockGetres call => [.int call.clockid, .orNull call.res 0]
  | .clockGettime call => [.int call.clockid, .ptr 0]
  | .connect call => [.int call.sockfd, .ptr 0, .len 0]
  | .epollCtl call => [.int call.epfd, .int call.op, .int call.fd, .ptr 0]
  | .epollPwait call => [.int call.epfd, .ptr 0, .len 0, .int call.timeout, .ptr 1]
  | .epollWait call => [.int call.epfd, .ptr 0, .len 0, .int call.timeout]
  | .getsockname call => [.int call.sockfd, .ptr 0, .ptr 1]
  | .allocIoctl call => [.int call.ioctl.fd, .int call.ioctl.request, .orNull call.ioctl.argp 0]
  | .nanosleep call => [.ptr 0, .orNull call.rem 1]
  | .allocOpen call =>
    [.ptr 0, .int call.open.flags, .word (uintAsUsize (call.open.mode.getD 0))]
  | .poll call => [.ptr 0, .len 0, .int call.timeout]
  | .read call => [.int call.fd, .ptr 0, .len 0]
  | .readv call => [.int call.fd, .ptr 0, .len 0]
  | .recv call => [.int call.sockfd, .ptr 0, .len 0, .int call.flags, .null, .null]
  | .recvfrom call => [.int call.sockfd, .ptr 2, .len 2, .int call.flags, .ptr 0, .ptr 1]
  | .send call => [.int call.sockfd, .ptr 0, .len 0, .int call.flags, .null, .word NULL]
  | .sendto call => [.int call.sockfd, .ptr 1, .len 1, .int call.flags, .ptr 0, .len 0]
  | .setsockopt call =>
    [.int call.sockfd, .int call.level, .int call.optname, .orNull call.optval 0,
      if call.optval.isSome then .len 0 else .word 0]
  | .write call => [.int call.fd, .ptr 0, .len 0]
  | .writev call => [.int call.fd, .ptr 0, .len 0]
  | .passthrough call => call.stage.map .word

/-- The socket address has the length that is announced in `*addrlen`. -/
def SockaddrOutput.Announced (mem : Mem) (self : SockaddrOutput) : Prop :=
  leNat (mem.read self.addrlen.addr socklen.size) = self.addr.len

def Syscall.Announced (mem : Mem) : Syscall → Prop
  | .accept call => ∀ addr ∈ call.addr, addr.Announced mem
  | .accept4 call => ∀ addr ∈ call.addr, addr.Announced mem
  | .getsockname call => call.addr.Announced mem
  | .recvfrom call => call.srcAddr.Announced mem
  | _ => True

theorem Seg.Holds.elem_eq {seg : Seg} {buffer : Buffer} (h : seg.Holds buffer) : seg.elem = buffer.elem := by
  obtain ⟨count, hseg, _, _⟩ := h
  rw [hseg]
  rfl

theorem Seg.Holds.len_eq {seg : Seg} {buffer : Buffer} (h : seg.Holds buffer)
    (hmax : buffer.max = false) : seg.len = buffer.len := by
  obtain ⟨count, hseg, _, hcount⟩ := h
  rw [hseg]
  exact hcount hmax

/-- A segment of the data section that the host can use. -/
structure Seg.Usable (mem : Mem) (data : Host.Data) (seg : Seg) (buffer : Buffer) : Prop where
  carries : seg.Carries mem data.bytes buffer
  aligned : seg.elem.align ∣ data.base + seg.offset

namespace Seg.Usable

variable {mem : Mem} {data : Host.Data} {seg : Seg} {buffer : Buffer}

theorem deref (h : seg.Usable mem data buffer) (hsmall : data.bytes.length < 2 ^ 63) (T : Layout)
    (hT : T.size = buffer.elem.size) (hpos : 0 < T.size) {len : Word} (hlen : len = usize seg.len) :
    Host.deref T data (usize seg.offset) len = .ok (seg.hostPtr data.base) := by
  have hinside := h.carries.inside
  have helem := h.carries.holds.elem_eq
  have hsize : seg.size = seg.len * T.size := by
    rw [Seg.size, helem, hT, Nat.mul_comm]
  have hle : seg.len ≤ seg.len * T.size := Nat.le_mul_of_pos_right _ hpos
  subst hlen
  unfold Host.deref
  rw [toNat_usize (by omega), toNat_usize (by omega), if_neg (by omega), if_neg (by omega),
    Seg.hostPtr, hsize]

theorem checkAligned (h : seg.Usable mem data buffer) {align : Nat} (halign : align ∣ seg.elem.align) :
    Host.checkAligned align (seg.hostPtr data.base) = .ok (seg.hostPtr data.base) := by
  have hdvd : align ∣ (seg.hostPtr data.base).addr := Nat.dvd_trans halign h.aligned
  unfold Host.checkAligned
  rw [alignOffset_eq_zero_of_dvd hdvd]
  rfl

theorem derefAligned (h : seg.Usable mem data buffer) (hsmall : data.bytes.length < 2 ^ 63)
    (T : Layout) (hT : T = buffer.elem) (hpos : 0 < T.size) {len : Word} (hlen : len = usize seg.len) :
    Host.derefAligned T data (usize seg.offset) len = .ok (seg.hostPtr data.base) := by
  unfold Host.derefAligned
  rw [h.deref hsmall T (by rw [hT]) hpos hlen, Except.ok_bind]
  apply h.checkAligned
  rw [h.carries.holds.elem_eq, hT]

theorem derefRef {T : Layout} {ref : Ref T} {dir : Dir} (h : seg.Usable mem data (ref.buffer dir))
    (hsmall : data.bytes.length < 2 ^ 63) (hpos : 0 < T.size) :
    Host.derefAligned T data (usize seg.offset) 1 = .ok (seg.hostPtr data.base) := by
  apply h.derefAligned hsmall T rfl hpos
  rw [h.carries.holds.len_eq rfl]
  rfl

theorem offset_ne_NULL (h : seg.Usable mem data buffer) (hsmall : data.bytes.length < 2 ^ 63) :
    usize seg.offset ≠ NULL := by
  have hinside := h.carries.inside
  exact usize_ne_NULL (by omega)

theorem derefSockaddrInput {addr : SockaddrInput} {dir : Dir}
    (h : seg.Usable mem data (addr.buffer dir)) (hsmall : data.bytes.length < 2 ^ 63) :
    Host.derefSockaddrInput data (usize seg.offset) (usize seg.len) = .ok (seg.hostPtr data.base) := by
  unfold Host.derefSockaddrInput
  rw [h.deref hsmall .u8 rfl (by decide) rfl, Except.ok_bind]
  apply h.checkAligned
  rw [h.carries.holds.elem_eq]
  exact Nat.dvd_refl _

theorem socklen {ref : Ref socklen} (h : seg.Usable mem data (ref.buffer .inout)) {len : Nat}
    (hsmall : data.bytes.length < 2 ^ 63) (hlen : leNat (mem.read ref.addr Libc.socklen.size) = len) :
    data.socklen (usize seg.offset) = usize len := by
  have hinside := h.carries.inside
  have hsize : seg.size = Libc.socklen.size := by
    rw [Seg.size, h.carries.holds.elem_eq, h.carries.holds.len_eq rfl]
    rfl
  have hinput := h.carries.input (by intro hdir; cases hdir)
  rw [h.carries.holds.len_eq rfl, hsize] at hinput
  unfold Host.Data.socklen
  rw [toNat_usize (by omega), hinput, ← hlen]
  exact congrArg (fun bytes => usize (leNat bytes)) (List.append_nil _)

end Seg.Usable

section Host

variable {mem : Mem} {data : Host.Data}

theorem derefSockaddrOutput_usable (hsmall : data.bytes.length < 2 ^ 63) {self : SockaddrOutput}
    {addr addrlen : Seg} (haddr : addr.Usable mem data (self.addr.buffer .output))
    (haddrlen : addrlen.Usable mem data (self.addrlen.buffer .inout)) (h : self.Announced mem) :
    Host.derefSockaddrOutput data (usize addr.offset) (usize addrlen.offset) =
      .ok (addr.hostPtr data.base, addrlen.hostPtr data.base) := by
  have hlen : data.socklen (usize addrlen.offset) = usize addr.len := by
    rw [haddrlen.socklen hsmall h, haddr.carries.holds.len_eq rfl]
    rfl
  have halign : sockaddrStorage.align ∣ addr.elem.align := by
    rw [haddr.carries.holds.elem_eq]
    exact Nat.dvd_refl _
  unfold Host.derefSockaddrOutput
  rw [haddrlen.derefRef hsmall (by decide), Except.ok_bind, hlen,
    haddr.deref hsmall .u8 rfl (by decide) rfl, Except.ok_bind, haddr.checkAligned halign]
  rfl

theorem sockaddrOrNull_usable (hsmall : data.bytes.length < 2 ^ 63) {self : SockaddrOutput}
    {addr addrlen : Seg} (haddr : addr.Usable mem data (self.addr.buffer .output))
    (haddrlen : addrlen.Usable mem data (self.addrlen.buffer .inout)) (h : self.Announced mem) :
    Host.sockaddrOrNull data (usize addr.offset) (usize addrlen.offset) =
      .ok (.ptr (addr.hostPtr data.base), .ptr (addrlen.hostPtr data.base)) := by
  unfold Host.sockaddrOrNull
  rw [if_neg (haddr.offset_ne_NULL hsmall), derefSockaddrOutput_usable hsmall haddr haddrlen h]
  rfl

theorem orNull_usable (hsmall : data.bytes.length < 2 ^ 63) {seg : Seg} {buffer : Buffer}
    (h : seg.Usable mem data buffer) {deref : Except Errno Host.Ptr}
    (hderef : deref = .ok (seg.hostPtr data.base)) :
    Host.orNull (usize seg.offset) deref = .ok (.ptr (seg.hostPtr data.base)) := by
  unfold Host.orNull
  rw [if_neg (h.offset_ne_NULL hsmall), hderef]
  rfl

theorem sockaddrOrNull_null (addrlenOffset : Word) :
    Host.sockaddrOrNull data NULL addrlenOffset = .ok (.null, .null) := if_pos rfl

theorem orNull_null (deref : Except Errno Host.Ptr) : Host.orNull NULL deref = .ok .null :=
  if_pos rfl

theorem Syscall.host_syscall (call : Syscall) {segs : List Seg}
    (husable : List.Forall₂ (Seg.Usable mem data) segs call.buffers)
    (hsmall : data.bytes.length < 2 ^ 63) (hannounced : call.Announced mem) :
    Host.syscall call.num.toWord (argvInto 6 (call.args.map (Arg.encode segs))) data =
      .ok (some ⟨call.num, call.kernelArgs.map (Passed.value segs data.base)⟩) := by
  unfold Host.syscall
  rw [Sysno.ofWord_toWord]
  -- in each case the segments are those of the call's buffers, in their order
  cases call with
  | accept call =>
    obtain ⟨sockfd, _ | addr⟩ := call
    · rcases husable with _ | _
      exact Except.bind_of_ok (sockaddrOrNull_null NULL) rfl
    · rcases husable with _ | ⟨haddr, _ | ⟨haddrlen, _ | _⟩⟩
      exact Except.bind_of_ok (sockaddrOrNull_usable hsmall haddr haddrlen (hannounced _ rfl)) rfl
  | accept4 call =>
    obtain ⟨sockfd, _ | addr, flags⟩ := call
    · rcases husable with _ | _
      exact Except.bind_of_ok (sockaddrOrNull_null NULL) rfl
    · rcases husable with _ | ⟨haddr, _ | ⟨haddrlen, _ | _⟩⟩
      exact Except.bind_of_ok (sockaddrOrNull_usable hsmall haddr haddrlen (hannounced _ rfl)) rfl
  | bind call | connect call =>
    rcases husable with _ | ⟨haddr, _ | _⟩
    exact Except.bind_of_ok (haddr.derefSockaddrInput hsmall) rfl
  | clockGetres call =>
    obtain ⟨clockid, _ | res⟩ := call
    · rcases husable with _ | _
      exact Except.bind_of_ok (orNull_null _) rfl
    · rcases husable with _ | ⟨hres, _ | _⟩
      exact Except.bind_of_ok (orNull_usable hsmall hres (hres.derefRef hsmall (by decide))) rfl
  | clockGettime call =>
    rcases husable with _ | ⟨htp, _ | _⟩
    exact Except.bind_of_ok (htp.derefRef hsmall (by decide)) rfl
  | epollCtl call =>
    rcases husable with _ | ⟨hevent, _ | _⟩
    exact Except.bind_of_ok (hevent.derefRef hsmall (by decide)) rfl
  | epollPwait call =>
    rcases husable with _ | ⟨hevents, _ | ⟨hsigmask, _ | _⟩⟩
    exact Except.bind_of_ok (hevents.derefAligned hsmall epollEvent rfl (by decide) rfl)
      (Except.bind_of_ok (hsigmask.derefRef hsmall (by decide)) rfl)
  | epollWait call =>
    rcases husable with _ | ⟨hevents, _ | _⟩
    exact Except.bind_of_ok (hevents.derefAligned hsmall epollEvent rfl (by decide) rfl) rfl
  | getsockname call =>
    rcases husable with _ | ⟨haddr, _ | ⟨haddrlen, _ | _⟩⟩
    exact Except.bind_of_ok (derefSockaddrOutput_usable hsmall haddr haddrlen hannounced) rfl
  | allocIoctl call =>
    obtain ⟨fd, request, _ | argp⟩ := call
    · rcases husable with _ | _
      exact Except.bind_of_ok (orNull_null _) rfl
    · rcases husable with _ | ⟨hargp, _ | _⟩
      exact Except.bind_of_ok
        (orNull_usable hsmall hargp (hargp.deref hsmall .u8 rfl (by decide) rfl)) rfl
  | nanosleep call =>
    obtain ⟨req, _ | rem⟩ := call
    · rcases husable with _ | ⟨hreq, _ | _⟩
      exact Except.bind_of_ok (hreq.derefRef hsmall (by decide))
        (Except.bind_of_ok (orNull_null _) rfl)
    · rcases husable with _ | ⟨hreq, _ | ⟨hrem, _ | _⟩⟩
      exact Except.bind_of_ok (hreq.derefRef hsmall (by decide))
        (Except.bind_of_ok (orNull_usable hsmall hrem (hrem.derefRef hsmall (by decide))) rfl)
  | allocOpen call | read call | readv call | write call | writev call =>
    rcases husable with _ | ⟨hbuf, _ | _⟩
    exact Except.bind_of_ok (hbuf.deref hsmall .u8 rfl (by decide) rfl) rfl
  | poll call =>
    rcases husable with _ | ⟨hfds, _ | _⟩
    exact Except.bind_of_ok (hfds.derefAligned hsmall pollfd rfl (by decide) rfl) rfl
  | recv call =>
    rcases husable with _ | ⟨hbuf, _ | _⟩
    exact Except.bind_of_ok (hbuf.deref hsmall .u8 rfl (by decide) rfl)
      (Except.bind_of_ok (sockaddrOrNull_null NULL) rfl)
  | recvfrom call =>
    rcases husable with _ | ⟨haddr, _ | ⟨haddrlen, _ | ⟨hbuf, _ | _⟩⟩⟩
    exact Except.bind_of_ok (hbuf.deref hsmall .u8 rfl (by decide) rfl)
      (Except.bind_of_ok (sockaddrOrNull_usable hsmall haddr haddrlen hannounced) rfl)
  | send call =>
    rcases husable with _ | ⟨hbuf, _ | _⟩
    exact Except.bind_of_ok (hbuf.deref hsmall .u8 rfl (by decide) rfl)
      (Except.bind_of_ok (orNull_null _) rfl)
  | sendto call =>
    rcases husable with _ | ⟨haddr, _ | ⟨hbuf, _ | _⟩⟩
    exact Except.bind_of_ok (hbuf.deref hsmall .u8 rfl (by decide) rfl)
      (Except.bind_of_ok (orNull_usable hsmall haddr (haddr.derefSockaddrInput hsmall)) rfl)
  | setsockopt call =>
    obtain ⟨sockfd, level, optname, _ | optval⟩ := call
    · rcases husable with _ | _
      exact Except.bind_of_ok (orNull_null _) rfl
    · rcases husable with _ | ⟨hoptval, _ | _⟩
      next seg =>
      have hcheck := hoptval.checkAligned
        (show usizeLayout.align ∣ seg.elem.align by
          rw [hoptval.carries.holds.elem_eq]
          exact Nat.dvd_refl _)
      refine Except.bind_of_ok (orNull_usable hsmall hoptval (Except.bind_of_ok
        (hoptval.deref hsmall .u8 rfl (by decide) rfl) hcheck)) ?_
      change Except.ok (some (Host.KernelCall.mk _ [_, _, _, _,
        .word (if usize seg.offset = NULL then 0 else usize seg.len)])) = _
      rw [if_neg (hoptval.offset_ne_NULL hsmall)]
      rfl
  | passthrough call =>
    rcases husable with _ | _
    cases call <;> rfl

theorem Syscall.kernelArgs_perm (call : Syscall) {segs : List Seg} (base : Nat)
    {R : Seg → Buffer → Prop} (h : List.Forall₂ R segs call.buffers) :
    ((call.kernelArgs.map (Passed.value segs base)).filterMap Host.Value.ptr?).Perm
      (segs.map (Seg.hostPtr base)) := by
  cases call with
  | accept call =>
    obtain ⟨sockfd, _ | addr⟩ := call
    · rcases h with _ | _
      exact .refl _
    · rcases h with _ | ⟨_, _ | ⟨_, _ | _⟩⟩
      exact .refl _
  | accept4 call =>
    obtain ⟨sockfd, _ | addr, flags⟩ := call
    · rcases h with _ | _
      exact .refl _
    · rcases h with _ | ⟨_, _ | ⟨_, _ | _⟩⟩
      exact .refl _
  | clockGetres call =>
    obtain ⟨clockid, _ | res⟩ := call
    · rcases h with _ | _
      exact .refl _
    · rcases h with _ | ⟨_, _ | _⟩
      exact .refl _
  | allocIoctl call =>
    obtain ⟨fd, request, _ | argp⟩ := call
    · rcases h with _ | _
      exact .refl _
    · rcases h with _ | ⟨_, _ | _⟩
      exact .refl _
  | nanosleep call =>
    obtain ⟨req, _ | rem⟩ := call
    · rcases h with _ | ⟨_, _ | _⟩
      exact .refl _
    · rcases h with _ | ⟨_, _ | ⟨_, _ | _⟩⟩
      exact .refl _
  | setsockopt call =>
    obtain ⟨sockfd, level, optname, _ | optval⟩ := call
    · rcases h with _ | _
      exact .refl _
    · rcases h with _ | ⟨_, _ | _⟩
      exact .refl _
  | epollPwait call | getsockname call =>
    rcases h with _ | ⟨_, _ | ⟨_, _ | _⟩⟩
    exact .refl _
  | recvfrom call =>
    rcases h with _ | ⟨_, _ | ⟨_, _ | ⟨_, _ | _⟩⟩⟩
    exact @List.perm_append_comm _ [_] [_, _]
  | sendto call =>
    rcases h with _ | ⟨_, _ | ⟨_, _ | _⟩⟩
    exact .swap _ _ _
  | passthrough call =>
    rcases h with _ | _
    cases call <;> exact .refl _
  | _ =>
    rcases h with _ | ⟨_, _ | _⟩
    exact .refl _

end Host

def AllocCall.Announced (mem : Mem) : AllocCall → Prop
  | .syscall call => call.Announced mem
  | _ => True

/-- The calls that `host::execute` acts on. -/
def AllocCall.Supported : AllocCall → Prop
  | .syscall _ => True
  | .enarxcall (.cpuid ..) => True
  | _ => False

def AllocCall.action (segs : List Seg) (base : Nat) : AllocCall → Option Host.Action
  | .syscall call => some (.syscall ⟨call.num, call.kernelArgs.map (Passed.value segs base)⟩)
  | .enarxcall (.cpuid leaf subLeaf _) =>
    segs.head?.map fun seg => .cpuid ⟨leaf, subLeaf, seg.hostPtr base⟩
  | _ => none

theorem AllocCall.align_le (call : AllocCall) :
    call.spec.buffers.all (fun buffer => Nat.ble buffer.elem.align 8) = true := by
  rcases call with call | call | call
  · cases call with
    | accept call => obtain ⟨_, _ | _⟩ := call <;> rfl
    | accept4 call => obtain ⟨_, _ | _, _⟩ := call <;> rfl
    | clockGetres call => obtain ⟨_, _ | _⟩ := call <;> rfl
    | allocIoctl call => obtain ⟨_, _, _ | _⟩ := call <;> rfl
    | nanosleep call => obtain ⟨_, _ | _⟩ := call <;> rfl
    | setsockopt call => obtain ⟨_, _, _, _ | _⟩ := call <;> rfl
    | _ => rfl
  · cases call <;> rfl
  · cases call <;> rfl

variable {segs : List Seg} {item : Item} {base : Nat}

theorem AllocCall.host_execute {mem : Mem} (call : AllocCall)
    (hkind : item.kind = call.kind) (hnum : item.payload.num = call.num)
    (hargv : item.payload.argv = argvInto call.kind.argc (call.spec.args.map (Arg.encode segs)))
    (husable : List.Forall₂ (Seg.Usable mem (Host.itemData base item)) segs call.spec.buffers)
    (hsmall : item.data.length < 2 ^ 63) (hannounced : call.Announced mem) :
    Host.execute base item = .ok (call.action segs (Host.itemData base item).base) := by
  rcases call with call | call | call
  · have hsyscall := call.host_syscall husable hsmall hannounced
    unfold Host.execute
    rw [hkind, hnum, hargv]
    simp only [AllocCall.kind]
    exact (congrArg (Option.map Host.Action.syscall <$> ·) hsyscall)
  · unfold Host.execute
    rw [hkind]
    rfl
  · unfold Host.execute
    rw [hkind, hnum, hargv]
    cases call with
    | cpuid leaf subLeaf result =>
      rcases husable with _ | ⟨hresult, _ | _⟩
      next seg =>
      have hcpuid : Host.enarxcall Host.numberCpuid
          [uintAsUsize leaf, uintAsUsize subLeaf, usize seg.offset, NULL]
          (Host.itemData base item) =
          .ok (some ⟨leaf, subLeaf, seg.hostPtr (Host.itemData base item).base⟩) := by
        refine Except.bind_of_ok (hresult.derefRef hsmall (by decide)) ?_
        rw [show (uintAsUsize leaf).setWidth 32 = leaf from usizeAsInt_uintAsUsize leaf,
          show (uintAsUsize subLeaf).setWidth 32 = subLeaf from usizeAsInt_uintAsUsize subLeaf]
        rfl
      exact congrArg (Option.map Host.Action.cpuid <$> ·) hcpuid
    | _ => rfl

theorem AllocCall.exists_action {call : AllocCall} (hsupported : call.Supported)
    {R : Seg → Buffer → Prop} (h : List.Forall₂ R segs call.spec.buffers)
    (base : Nat) : ∃ action, call.action segs base = some action := by
  rcases call with call | call | call
  · exact ⟨_, rfl⟩
  · cases hsupported
  · cases call with
    | cpuid leaf subLeaf result =>
      rcases h with _ | ⟨_, _ | _⟩
      exact ⟨_, rfl⟩
    | _ => cases hsupported

/-- The pointers that the host uses are the segments the guest allocated. -/
structure Faithful (data : Host.Data) (segs : List Seg) (ptrs : List Host.Ptr) : Prop where
  perm : ptrs.Perm (segs.map (Seg.hostPtr data.base))
  inside : ∀ ptr ∈ ptrs,
    data.base ≤ ptr.addr ∧ ptr.addr + ptr.size ≤ data.base + data.bytes.length
  aligned : ∀ seg ∈ segs, seg.elem.align ∣ (seg.hostPtr data.base).addr
  disjoint : ptrs.Pairwise fun left right => left.span.Disjoint right.span

theorem AllocCall.action_faithful {mem : Mem} {data : Host.Data} (call : AllocCall)
    (husable : List.Forall₂ (Seg.Usable mem data) segs call.spec.buffers)
    (hapart : segs.Pairwise fun left right => left.offset + left.size ≤ right.offset)
    {action : Host.Action} (haction : call.action segs data.base = some action) :
    Faithful data segs action.ptrs := by
  have hperm : action.ptrs.Perm (segs.map (Seg.hostPtr data.base)) := by
    rcases call with call | call | call
    · cases haction
      exact call.kernelArgs_perm data.base husable
    · cases haction
    · cases call with
      | cpuid leaf subLeaf result =>
        rcases husable with _ | ⟨_, _ | _⟩
        cases haction
        exact .refl _
      | _ => cases haction
  have hseg : ∀ seg ∈ segs, ∃ buffer, seg.Usable mem data buffer := by
    intro seg hseg
    obtain ⟨i, hi, rfl⟩ := List.getElem_of_mem hseg
    exact ⟨_, husable.get hi (husable.length_eq ▸ hi)⟩
  refine ⟨hperm, ?_, ?_, ?_⟩
  · intro ptr hptr
    obtain ⟨seg, hmem, rfl⟩ := List.mem_map.mp (hperm.mem_iff.mp hptr)
    obtain ⟨buffer, husable⟩ := hseg seg hmem
    have := husable.carries.inside
    simp only [Seg.hostPtr]
    omega
  · intro seg hmem
    exact (hseg seg hmem).choose_spec.aligned
  · rw [hperm.pairwise_iff Span.Disjoint.symm, List.pairwise_map]
    refine hapart.imp fun {left right} hle => Span.disjoint_of_le _ _ ?_
    simp only [Host.Ptr.span, Seg.hostPtr]
    omega

theorem Leaf.Encodes.usable {mem : Mem} {guestBase : Nat} {leaf : Leaf}
    (h : leaf.Encodes mem guestBase item) (hguest : 8 ∣ guestBase) (hbase : 8 ∣ base) :
    List.Forall₂ (Seg.Usable mem (Host.itemData base item)) leaf.segs leaf.call.spec.buffers := by
  rw [List.forall₂_iff_zip]
  refine ⟨h.carries.length_eq, fun {seg buffer} hzip => ?_⟩
  obtain ⟨hseg, hbuffer⟩ := List.of_mem_zip hzip
  have hcarries := (List.forall₂_iff_zip.mp h.carries).2 hzip
  refine ⟨hcarries, ?_⟩
  have hle := List.all_eq_true.mp leaf.call.align_le buffer hbuffer
  have hdvd : seg.elem.align ∣ 8 := by
    rw [hcarries.holds.elem_eq]
    exact buffer.elem.align_dvd_two_pow (n := 3) (Nat.le_of_ble_eq_true hle)
  have haligned := h.aligned seg hseg
  rw [h.ptr_eq seg hseg] at haligned
  have hoffset : seg.elem.align ∣ seg.offset :=
    (Nat.dvd_add_right (Nat.dvd_trans hdvd (by omega))).mp haligned
  exact Nat.dvd_add (Nat.dvd_trans hdvd (by simp only [Host.itemData]; omega)) hoffset

def ExecutesFaithfully (base : Nat) (leaf : Leaf) (item : Item) : Prop :=
  leaf.call.Supported →
    ∃ action, leaf.call.action leaf.segs (Host.itemData base item).base = some action ∧
      Host.execute base item = .ok (some action) ∧
      Faithful (Host.itemData base item) leaf.segs action.ptrs

theorem Leaf.Encodes.executes {mem : Mem} {guestBase : Nat} {leaf : Leaf}
    (h : leaf.Encodes mem guestBase item) (hguest : 8 ∣ guestBase) (hbase : 8 ∣ base)
    (hsmall : item.data.length < 2 ^ 63) (hannounced : leaf.call.Announced mem) :
    ExecutesFaithfully base leaf item := by
  intro hsupported
  have husable := h.usable hguest hbase
  have hexecute := leaf.call.host_execute h.kind_eq h.num_eq h.argv_eq husable hsmall hannounced
  obtain ⟨action, haction⟩ :=
    AllocCall.exists_action hsupported husable (Host.itemData base item).base
  refine ⟨action, haction, ?_, leaf.call.action_faithful husable h.apart haction⟩
  rw [hexecute, haction]

/-- Offsets mean the same to the host, for every call that it can be asked to execute. -/
theorem host_executes_request {buf : BlockBuf} {mem : Mem} {call : Call} {request : Request call}
    (h : call.request buf mem = .ok request) (hsome : call.allocated mem ≠ [])
    (hannounced : ∀ alloc ∈ call.allocated mem, alloc.Announced mem) (prior : Mem) {base : Nat}
    (hbase : 8 ∣ base) :
    ∃ items, Block.items ((request.block mem prior).words buf.base buf.count) = .ok items ∧
      List.Forall₂ (ExecutesFaithfully base) (call.leaves request.staged) items := by
  apply Request.forall_items h hsome prior
  intro leaf item hleaf hencodes hsmall
  exact hencodes.executes buf.aligned hbase hsmall (hannounced leaf.call hleaf)

theorem host_executes_request_accept :
    ∃ request items, Call.request ⟨4096, 64, by decide, by decide⟩
        (fun addr => if addr = 200 then 16 else 0)
        (.alloc (.syscall (.accept ⟨3, some ⟨⟨100, 16⟩, ⟨200⟩⟩⟩))) = .ok request ∧
      Block.items ((request.block (fun addr => if addr = 200 then 16 else 0)
        (fun _ => 255)).words 4096 64) = .ok items ∧
      List.Forall₂ (ExecutesFaithfully 8192) (Call.leaves _ request.staged) items := by
  have hok : (Call.request ⟨4096, 64, by decide, by decide⟩
      (fun addr => if addr = 200 then 16 else 0)
      (.alloc (.syscall (.accept ⟨3, some ⟨⟨100, 16⟩, ⟨200⟩⟩⟩)))).isOk = true := by decide +kernel
  obtain ⟨request, hrequest⟩ := Except.exists_of_isOk hok
  have hannounced : SockaddrOutput.Announced (fun addr => if addr = 200 then 16 else 0)
      ⟨⟨100, 16⟩, ⟨200⟩⟩ := by
    unfold SockaddrOutput.Announced
    decide
  obtain ⟨items, hitems, hall⟩ := host_executes_request hrequest (by simp [Call.allocated])
    (by simpa [Call.allocated, AllocCall.Announced, Syscall.Announced] using hannounced)
    (fun _ => 255) (show 8 ∣ 8192 by decide)
  exact ⟨request, items, hrequest, hitems, hall⟩

end Enarx.Sallyport
