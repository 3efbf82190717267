import Mathlib.Data.List.Forall2
import Enarx.Sallyport.Leaf

/-!
# What the block reveals

Two executions of a call whose scalars, buffer lengths and inputs agree stage and
commit the same bytes, wherever their buffers are and whatever the memory of the
output buffers holds. The argument is a relation between two runs: buffers that
are alike give segments that are alike, and those give the same stores.
-/
namespace Enarx.Sallyport

open Libc

section

variable (mem mem' : Mem)

def SameSpan (span span' : Span) : Prop :=
  span.len = span'.len ∧ mem.read span.addr span.len = mem'.read span'.addr span'.len

def SameBytes (slice slice' : Slice T) : Prop :=
  slice.len = slice'.len ∧
    mem.read slice.addr (T.size * slice.len) = mem'.read slice'.addr (T.size * slice'.len)

def SameLen (slice slice' : Slice T) : Prop := slice.len = slice'.len

structure Buffer.Alike (buffer buffer' : Buffer) : Prop where
  elem_eq : buffer.elem = buffer'.elem
  len_eq : buffer.len = buffer'.len
  dir_eq : buffer.dir = buffer'.dir
  max_eq : buffer.max = buffer'.max
  measure_eq : buffer.place.measure = buffer'.place.measure
  input : buffer.dir ≠ .output → ∀ count ≤ buffer.len,
    List.Forall₂ (SameSpan mem mem') (buffer.spans count) (buffer'.spans count)

structure Seg.Alike (seg seg' : Seg) : Prop where
  ptr_eq : seg.ptr = seg'.ptr
  offset_eq : seg.offset = seg'.offset
  elem_eq : seg.elem = seg'.elem
  len_eq : seg.len = seg'.len
  src : List.Forall₂ (SameSpan mem mem') seg.src seg'.src

structure CallSpec.Alike (spec spec' : CallSpec) : Prop where
  num_eq : spec.num = spec'.num
  args_eq : spec.args = spec'.args
  buffers : List.Forall₂ (Buffer.Alike mem mem') spec.buffers spec'.buffers

end

variable {mem mem' : Mem} {iovs iovs' : List Span} {T T' : Layout} {segs segs' : List Seg}
  {R : α → β → Prop} {f : StageM α} {g : StageM β} {slice slice' : Slice T}

theorem SameBytes.span (h : SameBytes mem mem' slice slice') {count : Nat} (hcount : count ≤ slice.len) :
    SameSpan mem mem' ⟨slice.addr, T.size * count⟩ ⟨slice'.addr, T.size * count⟩ := by
  obtain ⟨hlen, hread⟩ := h
  refine ⟨rfl, ?_⟩
  obtain ⟨rest, hrest⟩ := Nat.exists_eq_add_of_le hcount
  rw [← hlen, hrest, Nat.mul_add, Mem.read_add, Mem.read_add] at hread
  exact (List.append_inj hread (by simp)).1

theorem SameBytes.buffer (h : SameBytes mem mem' slice slice') (dir : Dir) :
    Buffer.Alike mem mem' (slice.buffer dir) (slice'.buffer dir) :=
  ⟨rfl, h.1, rfl, rfl, rfl, fun _ _ hcount => .cons (h.span hcount) .nil⟩

theorem SameBytes.bufferMax (h : SameBytes mem mem' slice slice')
    (dir : Dir) : Buffer.Alike mem mem' (slice.bufferMax dir) (slice'.bufferMax dir) :=
  ⟨rfl, h.1, rfl, rfl, rfl, fun _ _ hcount => .cons (h.span hcount) .nil⟩

theorem SameLen.buffer (h : SameLen slice slice') :
    Buffer.Alike mem mem' (slice.buffer .output) (slice'.buffer .output) :=
  ⟨rfl, h, rfl, rfl, rfl, fun hdir => absurd rfl hdir⟩

theorem SameLen.bufferMax (h : SameLen slice slice') :
    Buffer.Alike mem mem' (slice.bufferMax .output) (slice'.bufferMax .output) :=
  ⟨rfl, h, rfl, rfl, rfl, fun hdir => absurd rfl hdir⟩

theorem takeSpans_alike {spans spans' : List Span}
    (h : List.Forall₂ (SameSpan mem mem') spans spans') (capacity : Nat) :
    List.Forall₂ (SameSpan mem mem') (takeSpans capacity spans) (takeSpans capacity spans') := by
  induction h generalizing capacity with
  | nil => exact .nil
  | @cons span span' rest rest' head _ ih =>
    rw [takeSpans, takeSpans, ← head.1]
    split
    · exact .nil
    · split
      · exact .cons head (ih _)
      · next hlonger =>
        refine .cons ⟨rfl, ?_⟩ .nil
        obtain ⟨more, hmore⟩ := Nat.exists_eq_add_of_le (Nat.le_of_not_le hlonger)
        have hread := head.2
        rw [← head.1, hmore, Mem.read_add, Mem.read_add] at hread
        exact (List.append_inj hread (by simp)).1

theorem iovs_alike (h : List.Forall₂ (SameSpan mem mem') iovs iovs')
    (dir : Dir) : Buffer.Alike mem mem' (iovsBuffer iovs dir) (iovsBuffer iovs' dir) := by
  have hlens : iovs.map Span.len = iovs'.map Span.len := by
    induction h with
    | nil => rfl
    | cons head _ ih => rw [List.map_cons, List.map_cons, head.1, ih]
  refine ⟨rfl, ?_, rfl, rfl, ?_, fun _ count _ => takeSpans_alike h _⟩
  · simp only [iovsBuffer, hlens]
  · simp only [iovsBuffer, Place.measure, iovLen, hlens]

theorem allocateSlice_related {len len' : Nat} (hT : T = T') (hlen : len = len') :
    Exec.Related (fun left right => left.ptr = right.ptr ∧ left.offset = right.offset)
      (allocateSlice T len) (allocateSlice T' len') := by
  subst hT hlen
  exact .refl (fun _ => ⟨rfl, rfl⟩) _

theorem stageBuffer_related {buffer buffer' : Buffer} (h : Buffer.Alike mem mem' buffer buffer') :
    Exec.Related (Seg.Alike mem mem') (stageBuffer buffer) (stageBuffer buffer') := by
  have hmeasure : Exec.Related Eq (liftM buffer.place.measure : StageM Unit) (liftM buffer'.place.measure) := by
    rw [h.measure_eq]
    exact .refl (fun _ => rfl) _
  refine hmeasure.bind fun _ _ _ => ?_
  have hget : Exec.Related (ε := Abort) Eq (get : StageM Alloc) get := .refl (fun _ => rfl) _
  refine hget.bind fun alloc _ halloc => ?_
  subst halloc
  have hcount : (if buffer.max then min buffer.len (alloc.free buffer.elem) else buffer.len) =
      if buffer'.max then min buffer'.len (alloc.free buffer'.elem) else buffer'.len := by
    rw [h.max_eq, h.len_eq, h.elem_eq]
  have hle : (if buffer.max then min buffer.len (alloc.free buffer.elem) else buffer.len) ≤
      buffer.len := by
    split
    · exact Nat.min_le_left _ _
    · exact Nat.le_refl _
  refine (allocateSlice_related h.elem_eq hcount).bind fun left right href => .pure ?_
  refine ⟨href.1, href.2, h.elem_eq, hcount, ?_⟩
  simp only [Buffer.seg, ← h.dir_eq, ← hcount]
  split
  · exact .nil
  · next hdir => exact h.input hdir _ hle

theorem stageBuffers_related {buffers buffers' : List Buffer}
    (h : List.Forall₂ (Buffer.Alike mem mem') buffers buffers') :
    Exec.Related (List.Forall₂ (Seg.Alike mem mem')) (stageBuffers buffers) (stageBuffers buffers') := by
  induction h with
  | nil => exact .pure .nil
  | cons head _ ih =>
    refine (stageBuffer_related head).bind fun seg seg' hseg => ?_
    exact ih.bind fun segs segs' hsegs => .pure (.cons hseg hsegs)

theorem Seg.encode_alike (h : List.Forall₂ (Seg.Alike mem mem') segs segs') :
    Arg.encode segs = Arg.encode segs' := by
  have hview : segs.map (fun seg => (seg.offset, seg.len)) =
      segs'.map fun seg => (seg.offset, seg.len) := by
    induction h with
    | nil => rfl
    | cons head _ ih => rw [List.map_cons, List.map_cons, head.offset_eq, head.len_eq, ih]
  have hoffset : ∀ index : Nat, segs[index]?.map (fun seg => (seg.offset, seg.len)) =
      segs'[index]?.map fun seg => (seg.offset, seg.len) := by
    intro index
    rw [← List.getElem?_map, hview, List.getElem?_map]
  funext arg
  cases arg with
  | word value => rfl
  | offset index =>
    have := congrArg (Option.map fun view => usize view.1) (hoffset index)
    simp only [Option.map_map, Function.comp_def] at this
    simp only [Arg.encode, this]
  | len index =>
    have := congrArg (Option.map fun view => usize view.2) (hoffset index)
    simp only [Option.map_map, Function.comp_def] at this
    simp only [Arg.encode, this]

theorem CallSpec.stage_related {spec spec' : CallSpec} (h : CallSpec.Alike mem mem' spec spec') :
    Exec.Related (fun left right => left.1 = right.1 ∧
      List.Forall₂ (Seg.Alike mem mem') left.2 right.2) spec.stage spec'.stage := by
  refine (stageBuffers_related h.buffers).bind fun segs segs' hsegs => .pure ⟨?_, hsegs⟩
  simp only [h.args_eq, Seg.encode_alike hsegs]

section

variable (mem mem' : Mem)

def SameValue (ref ref' : Ref T) : Prop := SameBytes mem mem' ref.slice ref'.slice

structure SockaddrOutput.Alike (output output' : SockaddrOutput) : Prop where
  addr : SameLen output.addr output'.addr
  addrlen : SameValue mem mem' output.addrlen output'.addrlen

inductive Syscall.Alike : Syscall → Syscall → Prop where
  | accept {sockfd : CInt} {addr addr' : Option SockaddrOutput}
      (haddr : Option.Rel (SockaddrOutput.Alike mem mem') addr addr') :
      Alike (.accept ⟨sockfd, addr⟩) (.accept ⟨sockfd, addr'⟩)
  | accept4 {sockfd flags : CInt} {addr addr' : Option SockaddrOutput}
      (haddr : Option.Rel (SockaddrOutput.Alike mem mem') addr addr') :
      Alike (.accept4 ⟨sockfd, addr, flags⟩) (.accept4 ⟨sockfd, addr', flags⟩)
  | bind {sockfd : CInt} {addr addr' : SockaddrInput} (haddr : SameBytes mem mem' addr addr') :
      Alike (.bind ⟨sockfd, addr⟩) (.bind ⟨sockfd, addr'⟩)
  | clockGetres {clockid : CInt} {res res' : Option (Ref timespec)}
      (hres : res.isSome = res'.isSome) :
      Alike (.clockGetres ⟨clockid, res⟩) (.clockGetres ⟨clockid, res'⟩)
  | clockGettime {clockid : CInt} {tp tp' : Ref timespec} :
      Alike (.clockGettime ⟨clockid, tp⟩) (.clockGettime ⟨clockid, tp'⟩)
  | connect {sockfd : CInt} {addr addr' : SockaddrInput} (haddr : SameBytes mem mem' addr addr') :
      Alike (.connect ⟨sockfd, addr⟩) (.connect ⟨sockfd, addr'⟩)
  | epollCtl {epfd op fd : CInt} {event event' : Ref epollEvent}
      (hevent : SameValue mem mem' event event') :
      Alike (.epollCtl ⟨epfd, op, fd, event⟩) (.epollCtl ⟨epfd, op, fd, event'⟩)
  | epollPwait {epfd timeout : CInt} {events events' : Slice epollEvent} {sigmask sigmask' : Ref sigset}
      (hevents : SameLen events events') (hsigmask : SameValue mem mem' sigmask sigmask') :
      Alike (.epollPwait ⟨epfd, events, timeout, sigmask⟩)
        (.epollPwait ⟨epfd, events', timeout, sigmask'⟩)
  | epollWait {epfd timeout : CInt} {events events' : Slice epollEvent}
      (hevents : SameLen events events') :
      Alike (.epollWait ⟨epfd, events, timeout⟩) (.epollWait ⟨epfd, events', timeout⟩)
  | getsockname {sockfd : CInt} {addr addr' : SockaddrOutput}
      (haddr : SockaddrOutput.Alike mem mem' addr addr') :
      Alike (.getsockname ⟨sockfd, addr⟩) (.getsockname ⟨sockfd, addr'⟩)
  | allocIoctl {fd request : CInt} {argp argp' : Option (Slice .u8)}
      (hargp : Option.Rel (SameBytes mem mem') argp argp') :
      Alike (.allocIoctl ⟨⟨fd, request, argp⟩⟩) (.allocIoctl ⟨⟨fd, request, argp'⟩⟩)
  | nanosleep {req req' : Ref timespec} {rem rem' : Option (Ref timespec)}
      (hreq : SameValue mem mem' req req') (hrem : Option.Rel (SameValue mem mem') rem rem') :
      Alike (.nanosleep ⟨req, rem⟩) (.nanosleep ⟨req', rem'⟩)
  | allocOpen {pathname pathname' : Slice .u8} {flags : CInt} {mode : Option (BitVec 32)}
      (hpathname : SameBytes mem mem' pathname pathname') :
      Alike (.allocOpen ⟨⟨pathname, flags, mode⟩⟩) (.allocOpen ⟨⟨pathname', flags, mode⟩⟩)
  | poll {fds fds' : Slice pollfd} {timeout : CInt} (hfds : SameBytes mem mem' fds fds') :
      Alike (.poll ⟨fds, timeout⟩) (.poll ⟨fds', timeout⟩)
  | read {fd : CInt} {buf buf' : Slice .u8} (hbuf : SameLen buf buf') :
      Alike (.read ⟨fd, buf⟩) (.read ⟨fd, buf'⟩)
  | readv {fd : CInt} {iovs iovs' : List Span} (hiovs : iovs.map Span.len = iovs'.map Span.len) :
      Alike (.readv ⟨fd, iovs⟩) (.readv ⟨fd, iovs'⟩)
  | recv {sockfd flags : CInt} {buf buf' : Slice .u8} (hbuf : SameLen buf buf') :
      Alike (.recv ⟨sockfd, buf, flags⟩) (.recv ⟨sockfd, buf', flags⟩)
  | recvfrom {sockfd flags : CInt} {buf buf' : Slice .u8} {srcAddr srcAddr' : SockaddrOutput}
      (hbuf : SameLen buf buf') (hsrc : SockaddrOutput.Alike mem mem' srcAddr srcAddr') :
      Alike (.recvfrom ⟨sockfd, buf, flags, srcAddr⟩) (.recvfrom ⟨sockfd, buf', flags, srcAddr'⟩)
  | send {sockfd flags : CInt} {buf buf' : Slice .u8} (hbuf : SameBytes mem mem' buf buf') :
      Alike (.send ⟨sockfd, buf, flags⟩) (.send ⟨sockfd, buf', flags⟩)
  | sendto {sockfd flags : CInt} {buf buf' : Slice .u8} {destAddr destAddr' : SockaddrInput}
      (hbuf : SameBytes mem mem' buf buf') (hdest : SameBytes mem mem' destAddr destAddr') :
      Alike (.sendto ⟨sockfd, buf, flags, destAddr⟩) (.sendto ⟨sockfd, buf', flags, destAddr'⟩)
  | setsockopt {sockfd level optname : CInt} {optval optval' : Option SockoptInput}
      (hoptval : Option.Rel (SameBytes mem mem') optval optval') :
      Alike (.setsockopt ⟨sockfd, level, optname, optval⟩)
        (.setsockopt ⟨sockfd, level, optname, optval'⟩)
  | write {fd : CInt} {buf buf' : Slice .u8} (hbuf : SameBytes mem mem' buf buf') :
      Alike (.write ⟨fd, buf⟩) (.write ⟨fd, buf'⟩)
  | writev {fd : CInt} {iovs iovs' : List Span}
      (hiovs : List.Forall₂ (SameSpan mem mem') iovs iovs') :
      Alike (.writev ⟨fd, iovs⟩) (.writev ⟨fd, iovs'⟩)
  | passthrough (call : Passthrough) : Alike (.passthrough call) (.passthrough call)

inductive Gdbcall.Alike : Gdbcall → Gdbcall → Prop where
  | flush : Alike .flush .flush
  | onSessionStart : Alike .onSessionStart .onSessionStart
  | peek : Alike .peek .peek
  | read : Alike .read .read
  | write (byte : Byte) : Alike (.write byte) (.write byte)
  | writeAll {buf buf' : Slice .u8} (hbuf : SameBytes mem mem' buf buf') :
      Alike (.writeAll buf) (.writeAll buf')

/-- Calls whose purpose is to pass an address are left out. -/
inductive Enarxcall.Alike : Enarxcall → Enarxcall → Prop where
  | cpuid {leaf subLeaf : BitVec 32} {result result' : Ref cpuidResult} :
      Alike (.cpuid leaf subLeaf result) (.cpuid leaf subLeaf result')
  | getSgxQuote {report report' : Ref bytes512} {quote quote' : Slice .u8}
      (hreport : SameValue mem mem' report report') (hquote : SameLen quote quote') :
      Alike (.getSgxQuote report quote) (.getSgxQuote report' quote')
  | getSgxQuoteSize : Alike .getSgxQuoteSize .getSgxQuoteSize
  | getSgxTargetInfo {info info' : Ref bytes512} :
      Alike (.getSgxTargetInfo info) (.getSgxTargetInfo info')
  | getSnpVcek {vcek vcek' : Slice .u8} (hvcek : SameLen vcek vcek') :
      Alike (.getSnpVcek vcek) (.getSnpVcek vcek')
  | memInfo : Alike .memInfo .memInfo

inductive AllocCall.Alike : AllocCall → AllocCall → Prop where
  | syscall {call call' : Syscall} (h : Syscall.Alike mem mem' call call') :
      Alike (.syscall call) (.syscall call')
  | gdbcall {call call' : Gdbcall} (h : Gdbcall.Alike mem mem' call call') :
      Alike (.gdbcall call) (.gdbcall call')
  | enarxcall {call call' : Enarxcall} (h : Enarxcall.Alike mem mem' call call') :
      Alike (.enarxcall call) (.enarxcall call')

inductive MaybeAlloc.Alike : MaybeAlloc → MaybeAlloc → Prop where
  | fcntl (call : Fcntl) : Alike (.fcntl call) (.fcntl call)
  | ioctl {fd request : CInt} {argp argp' : Option (Slice .u8)}
      (hargp : Option.Rel (SameBytes mem mem') argp argp') :
      Alike (.ioctl ⟨fd, request, argp⟩) (.ioctl ⟨fd, request, argp'⟩)
  | open_ {pathname pathname' : Slice .u8} {flags : CInt} {mode : Option (BitVec 32)}
      (hpathname : SameBytes mem mem' pathname pathname') :
      Alike (.open_ ⟨pathname, flags, mode⟩) (.open_ ⟨pathname', flags, mode⟩)

inductive Call.Alike : Call → Call → Prop where
  | alloc {call call' : AllocCall} (h : AllocCall.Alike mem mem' call call') :
      Alike (.alloc call) (.alloc call')
  | maybeAlloc {call call' : MaybeAlloc} (h : MaybeAlloc.Alike mem mem' call call') :
      Alike (.maybeAlloc call) (.maybeAlloc call')
  | stub (call call' : Stub) : Alike (.stub call) (.stub call')
  | pair {a a' b b' : Call} (ha : Alike a a') (hb : Alike b b') : Alike (.pair a b) (.pair a' b')

end

theorem SameValue.buffer {ref ref' : Ref T} (h : SameValue mem mem' ref ref') (dir : Dir) :
    Buffer.Alike mem mem' (ref.buffer dir) (ref'.buffer dir) := SameBytes.buffer h dir

theorem output_alike (ref ref' : Ref T) : Buffer.Alike mem mem' (ref.buffer .output) (ref'.buffer .output) :=
  SameLen.buffer (show SameLen ref.slice ref'.slice from rfl)

theorem SockaddrOutput.Alike.buffers {addr addr' : SockaddrOutput}
    (h : SockaddrOutput.Alike mem mem' addr addr') :
    List.Forall₂ (Buffer.Alike mem mem') addr.buffers addr'.buffers :=
  .cons h.addr.buffer (.cons (h.addrlen.buffer .inout) .nil)

theorem readv_alike (h : iovs.map Span.len = iovs'.map Span.len) :
    Buffer.Alike mem mem' (iovsBuffer iovs .output) (iovsBuffer iovs' .output) := by
  refine ⟨rfl, ?_, rfl, rfl, ?_, fun hdir => absurd rfl hdir⟩
  · simp only [iovsBuffer, h]
  · simp only [iovsBuffer, Place.measure, iovLen, h]

theorem Syscall.Alike.spec {call call' : Syscall} (h : Syscall.Alike mem mem' call call') :
    CallSpec.Alike mem mem' call.spec call'.spec := by
  cases h with
  | accept haddr | accept4 haddr =>
    cases haddr with
    | none => exact ⟨rfl, rfl, .nil⟩
    | some haddr => exact ⟨rfl, rfl, haddr.buffers⟩
  | bind haddr | connect haddr => exact ⟨rfl, rfl, .cons (haddr.buffer .input) .nil⟩
  | @clockGetres clockid res res' hres =>
    cases res with
    | none =>
      cases res' with
      | none => exact ⟨rfl, rfl, .nil⟩
      | some res' => cases hres
    | some res =>
      cases res' with
      | none => cases hres
      | some res' => exact ⟨rfl, rfl, .cons (output_alike res res') .nil⟩
  | clockGettime => exact ⟨rfl, rfl, .cons (output_alike _ _) .nil⟩
  | epollCtl hevent => exact ⟨rfl, rfl, .cons (hevent.buffer .input) .nil⟩
  | epollPwait hevents hsigmask =>
    exact ⟨rfl, rfl, .cons hevents.buffer (.cons (hsigmask.buffer .input) .nil)⟩
  | epollWait hevents => exact ⟨rfl, rfl, .cons hevents.buffer .nil⟩
  | getsockname haddr => exact ⟨rfl, rfl, haddr.buffers⟩
  | allocIoctl hargp =>
    cases hargp with
    | none => exact ⟨rfl, rfl, .nil⟩
    | some hargp => exact ⟨rfl, rfl, .cons (hargp.buffer .inout) .nil⟩
  | nanosleep hreq hrem =>
    cases hrem with
    | none => exact ⟨rfl, rfl, .cons (hreq.buffer .input) .nil⟩
    | some hrem => exact ⟨rfl, rfl, .cons (hreq.buffer .input) (.cons (hrem.buffer .inout) .nil)⟩
  | allocOpen hpathname => exact ⟨rfl, rfl, .cons (hpathname.buffer .input) .nil⟩
  | poll hfds => exact ⟨rfl, rfl, .cons (hfds.buffer .inout) .nil⟩
  | read hbuf | recv hbuf => exact ⟨rfl, rfl, .cons hbuf.bufferMax .nil⟩
  | readv hiovs => exact ⟨rfl, rfl, .cons (readv_alike hiovs) .nil⟩
  | recvfrom hbuf hsrc =>
    exact ⟨rfl, rfl, List.rel_append hsrc.buffers (.cons hbuf.bufferMax .nil)⟩
  | send hbuf | write hbuf => exact ⟨rfl, rfl, .cons (hbuf.bufferMax .input) .nil⟩
  | sendto hbuf hdest =>
    exact ⟨rfl, rfl, .cons (hdest.buffer .input) (.cons (hbuf.bufferMax .input) .nil)⟩
  | setsockopt hoptval =>
    cases hoptval with
    | none => exact ⟨rfl, rfl, .nil⟩
    | some hoptval => exact ⟨rfl, rfl, .cons (hoptval.buffer .input) .nil⟩
  | writev hiovs => exact ⟨rfl, rfl, .cons (iovs_alike hiovs .input) .nil⟩
  | passthrough call => exact ⟨rfl, rfl, .nil⟩

theorem Gdbcall.Alike.spec {call call' : Gdbcall} (h : Gdbcall.Alike mem mem' call call') :
    CallSpec.Alike mem mem' call.spec call'.spec := by
  cases h with
  | flush | onSessionStart | peek | read | write => exact ⟨rfl, rfl, .nil⟩
  | writeAll hbuf => exact ⟨rfl, rfl, .cons (hbuf.bufferMax .input) .nil⟩

theorem Enarxcall.Alike.spec {call call' : Enarxcall} (h : Enarxcall.Alike mem mem' call call') :
    CallSpec.Alike mem mem' call.spec call'.spec := by
  cases h with
  | cpuid | getSgxTargetInfo => exact ⟨rfl, rfl, .cons (output_alike _ _) .nil⟩
  | getSgxQuote hreport hquote =>
    exact ⟨rfl, rfl, .cons (hreport.buffer .input) (.cons hquote.buffer .nil)⟩
  | getSgxQuoteSize | memInfo => exact ⟨rfl, rfl, .nil⟩
  | getSnpVcek hvcek => exact ⟨rfl, rfl, .cons hvcek.buffer .nil⟩

namespace AllocCall.Alike

variable {call call' : AllocCall}

theorem kind_eq (h : AllocCall.Alike mem mem' call call') : call.kind = call'.kind := by
  cases h <;> rfl

theorem spec (h : AllocCall.Alike mem mem' call call') : CallSpec.Alike mem mem' call.spec call'.spec := by
  cases h with
  | syscall h => exact h.spec
  | gdbcall h => exact h.spec
  | enarxcall h => exact h.spec

theorem num_eq (h : AllocCall.Alike mem mem' call call') : call.num = call'.num := by
  cases h with
  | syscall h => exact h.spec.num_eq
  | gdbcall h => exact h.spec.num_eq
  | enarxcall h => exact h.spec.num_eq

theorem stage_related (h : AllocCall.Alike mem mem' call call') :
    Exec.Related (fun left right => left.1 = right.1 ∧
      List.Forall₂ (Seg.Alike mem mem') (call.segs left.2) (call'.segs right.2)) call.stage call'.stage := by
  have hspec := CallSpec.stage_related h.spec
  rw [← call.stage_spec, ← call'.stage_spec] at hspec
  exact hspec.of_map

end AllocCall.Alike

theorem scatter_alike {src src' : List Span} (h : List.Forall₂ (SameSpan mem mem') src src')
    (ptr : Nat) : (scatter mem ptr src).map Store.put = (scatter mem' ptr src').map Store.put := by
  induction h generalizing ptr with
  | nil => rfl
  | cons head _ ih =>
    simp only [scatter, List.map_cons, head.2]
    rw [head.1, ih]

theorem Seg.stores_alike (h : List.Forall₂ (Seg.Alike mem mem') segs segs') :
    (segs.flatMap (Seg.stores mem)).map Store.put = (segs'.flatMap (Seg.stores mem')).map Store.put := by
  induction h with
  | nil => rfl
  | cons head _ ih =>
    rw [List.flatMap_cons, List.flatMap_cons, List.map_append, List.map_append, ih, Seg.stores,
      Seg.stores, scatter_alike head.src, head.ptr_eq]

theorem allocate_related (h : T = T') :
    Exec.Related (fun left right => left.ptr = right.ptr) (allocate T) (allocate T') := by
  subst h
  apply Exec.Related.refl
  intro _
  rfl

theorem section_related (h : Exec.Related R f g) :
    Exec.Related (fun left right => R left.1 right.1 ∧ left.2 = right.2) («section» f) («section» g) := by
  intro alloc
  have hrun := h { alloc with offset := 0 }
  unfold «section»
  rcases hf : f { alloc with offset := 0 } with ⟨_ | a, after⟩ <;>
    rcases hg : g { alloc with offset := 0 } with ⟨_ | b, after'⟩ <;> rw [hf, hg] at hrun
  · exact ⟨rfl, hrun.2⟩
  · exact hrun.elim
  · exact hrun.elim
  · obtain ⟨rfl, hrelated⟩ := hrun
    exact ⟨rfl, hrelated, rfl⟩

theorem reserveLayout_related (h : Exec.Related R f g) (layout : Layout) :
    Exec.Related (fun left right => R left.1 right.1 ∧ left.2 = right.2) (reserveLayout layout f)
      (reserveLayout layout g) := by
  intro alloc
  by_cases hroom : alloc.len < layout.size
  · simp [reserveLayout, if_pos hroom]
  · simp only [reserveLayout, if_neg hroom]
    generalize alignOffset _ _ % _ = padSize
    by_cases hpad : alloc.len - layout.size < padSize
    · simp [if_pos hpad]
    · simp only [if_neg hpad]
      generalize { alloc with len := alloc.len - layout.size - padSize } = inner
      have hrun := h inner
      rcases hf : f inner with ⟨_ | a, after⟩ <;> rcases hg : g inner with ⟨_ | b, after'⟩ <;>
        rw [hf, hg] at hrun
      · exact ⟨rfl, hrun.2⟩
      · exact hrun.elim
      · exact hrun.elim
      · obtain ⟨rfl, hrelated⟩ := hrun
        simp only
        generalize allocateLayout layout _ = last
        rcases last with ⟨_ | region, final⟩
        · exact ⟨rfl, rfl⟩
        · exact ⟨rfl, hrelated, rfl⟩

structure StagedAlloc.Alike (mem mem' : Mem) {call call' : AllocCall} (left : StagedAlloc call)
    (right : StagedAlloc call') : Prop where
  num_ptr : left.numRef.ptr = right.numRef.ptr
  argv_ptr : left.argvRef.ptr = right.argvRef.ptr
  ret_ptr : left.retRef.ptr = right.retRef.ptr
  argv_eq : left.argv = right.argv
  segs : List.Forall₂ (Seg.Alike mem mem') (call.segs left.staged) (call'.segs right.staged)

theorem AllocCall.Alike.stagedAlloc {call call' : AllocCall} (h : AllocCall.Alike mem mem' call call') :
    Exec.Related (StagedAlloc.Alike mem mem') (StagedAlloc.stage call) (StagedAlloc.stage call') := by
  have hargc := congrArg (fun kind => usizeLayout.array (ItemKind.argc kind)) h.kind_eq
  have hrets := congrArg (fun kind => usizeLayout.array (ItemKind.rets kind)) h.kind_eq
  refine (allocate_related rfl).bind fun numRef numRef' hnum => ?_
  refine (allocate_related hargc).bind fun argvRef argvRef' hargv => ?_
  refine (allocate_related hrets).bind fun retRef retRef' hret => ?_
  refine (section_related h.stage_related).bind fun staged staged' hstaged => .pure ?_
  refine ⟨hnum, hargv, hret, ?_, hstaged.1.2⟩
  simp only [hstaged.1.1, h.kind_eq]

def SameStores (mem mem' : Mem) (leaves leaves' : List Leaf) : Prop :=
  (leaves.flatMap (Leaf.stores mem)).map Store.put =
    (leaves'.flatMap (Leaf.stores mem')).map Store.put

theorem SameStores.append {left left' right right' : List Leaf}
    (h : SameStores mem mem' left left') (h' : SameStores mem mem' right right') :
    SameStores mem mem' (left ++ right) (left' ++ right') := by
  unfold SameStores at *
  rw [List.flatMap_append, List.flatMap_append, List.map_append, List.map_append, h, h']

theorem AllocCall.Alike.sameStores {call call' : AllocCall}
    (h : AllocCall.Alike mem mem' call call') {staged : StagedCall call}
    {staged' : StagedCall call'} (hheader : staged.headerRef.ptr = staged'.headerRef.ptr)
    (hsize : staged.size = staged'.size) (hinner : StagedAlloc.Alike mem mem' staged.staged staged'.staged) :
    SameStores mem mem' [⟨call, staged⟩] [⟨call', staged'⟩] := by
  simp only [SameStores, List.flatMap_cons, List.flatMap_nil, List.append_nil, Leaf.stores,
    List.map_append, List.map_cons, List.map_nil, Leaf.segs, Seg.stores_alike hinner.segs,
    hheader, hsize, hinner.num_ptr, hinner.argv_ptr, hinner.ret_ptr, hinner.argv_eq, h.num_eq,
    h.kind_eq]

theorem AllocCall.Alike.stagedCall {call call' : AllocCall} (h : AllocCall.Alike mem mem' call call') :
    Exec.Related (fun left right => SameStores mem mem' [⟨call, left⟩] [⟨call', right⟩])
      (StagedCall.stage call) (StagedCall.stage call') := by
  refine (allocate_related rfl).bind fun headerRef headerRef' hheader => ?_
  refine (section_related h.stagedAlloc).bind fun inner inner' hinner => ?_
  obtain ⟨staged, size⟩ := inner
  obtain ⟨staged', size'⟩ := inner'
  obtain ⟨hstaged, hsize⟩ := hinner
  change size = size' at hsize
  subst hsize
  simp only
  split
  · refine Exec.Related.bind (.refl (R := Eq) (fun _ => rfl) _) fun _ _ _ => .pure ?_
    exact h.sameStores hheader rfl hstaged
  · exact .pure (h.sameStores hheader rfl hstaged)

namespace MaybeAlloc.Alike

theorem toAlloc {call call' : MaybeAlloc} (h : MaybeAlloc.Alike mem mem' call call') :
    AllocCall.Alike mem mem' (.syscall call.toAlloc) (.syscall call'.toAlloc) := by
  cases h with
  | fcntl call => exact .syscall (.passthrough _)
  | ioctl hargp => exact .syscall (.allocIoctl hargp)
  | open_ hpathname => exact .syscall (.allocOpen hpathname)

theorem unstaged_eq {call call' : MaybeAlloc} (h : MaybeAlloc.Alike mem mem' call call') :
    call.unstaged mem = call'.unstaged mem' := by
  cases h with
  | fcntl call => rfl
  | ioctl hargp => rfl
  | open_ hpathname =>
    have hread := hpathname.2
    simp only [show Layout.u8.size = 1 from rfl, Nat.one_mul] at hread
    simp only [MaybeAlloc.unstaged, hread]

end MaybeAlloc.Alike

theorem Call.stage_related {call call' : Call} (h : Call.Alike mem mem' call call') :
    Exec.Related (fun left right => SameStores mem mem' (call.leaves left) (call'.leaves right))
      (call.stage mem) (call'.stage mem') := by
  induction h with
  | alloc h => exact h.stagedCall
  | @maybeAlloc call call' h =>
    simp only [Call.stage, ← h.unstaged_eq]
    refine Exec.Related.bind (.refl (R := Eq) (fun _ => rfl) _) fun unstaged _ heq => ?_
    subst heq
    cases unstaged with
    | alloc => exact h.toAlloc.stagedCall.bind fun _ _ hsame => .pure hsame
    | stub val => exact .pure rfl
  | stub call call' => exact .pure rfl
  | pair _ _ iha ihb =>
    refine iha.bind fun stagedA stagedA' hA => ?_
    exact ihb.bind fun stagedB stagedB' hB => .pure (hA.append hB)

/-- Two executions that agree on the scalars, on the buffers that are present, on
their lengths and on what is read hand the same block to the host, or none. -/
theorem sallied_eq_of_alike (buf : BlockBuf) (prior : Mem) {call call' : Call}
    (h : Call.Alike mem mem' call call') : call.sallied buf mem prior = call'.sallied buf mem' prior := by
  have hrun := reserveLayout_related (section_related (Call.stage_related h)) headerLayout
    ⟨buf.base, 8 * buf.count, 0⟩
  unfold Call.sallied Call.request
  rcases hleft : reserveLayout headerLayout («section» (call.stage mem))
      ⟨buf.base, 8 * buf.count, 0⟩ with ⟨_ | ⟨⟨staged, len⟩, endRef⟩, final⟩ <;>
    rcases hright : reserveLayout headerLayout («section» (call'.stage mem'))
      ⟨buf.base, 8 * buf.count, 0⟩ with ⟨_ | ⟨⟨staged', len'⟩, endRef'⟩, final'⟩ <;>
    rw [hleft, hright] at hrun
  · rw [hrun.2]
    rfl
  · exact hrun.elim
  · exact hrun.elim
  · obtain ⟨_, ⟨hstores, hlen⟩, hend⟩ := hrun
    simp only at hstores hlen hend
    subst hlen hend
    simp only [Except.ok_bind, Request.block, Request.stores, Call.log_commit, List.map_append]
    rw [hstores]

theorem sallied_eq_of_alike_recvfrom :
    ∃ block, Call.sallied ⟨4096, 40, by decide, by decide⟩ (fun addr => if addr = 400 then 16 else 0)
        (fun _ => 0) (.alloc (.syscall (.recvfrom ⟨3, ⟨100, 5⟩, 0, ⟨⟨300, 16⟩, ⟨400⟩⟩⟩))) =
          .ok (some block) ∧
      Call.sallied ⟨4096, 40, by decide, by decide⟩
        (fun addr => if addr = 800 then 16 else if addr < 800 then 255 else 0) (fun _ => 0)
        (.alloc (.syscall (.recvfrom ⟨3, ⟨200, 5⟩, 0, ⟨⟨600, 16⟩, ⟨800⟩⟩⟩))) =
          .ok (some block) := by
  have hok : ((Call.sallied ⟨4096, 40, by decide, by decide⟩
      (fun addr => if addr = 400 then 16 else 0) (fun _ => 0)
      (.alloc (.syscall (.recvfrom ⟨3, ⟨100, 5⟩, 0, ⟨⟨300, 16⟩, ⟨400⟩⟩⟩)))).toOption.bind
        id).isSome = true := by
    decide +kernel
  rcases hblock : Call.sallied _ _ _ _ with errno | _ | block
  · rw [hblock] at hok
    cases hok
  · rw [hblock] at hok
    cases hok
  · refine ⟨block, rfl, Eq.trans ?_ hblock⟩
    symm
    apply sallied_eq_of_alike
    exact .alloc (.syscall (.recvfrom rfl ⟨rfl, rfl, by decide⟩))

end Enarx.Sallyport
