import Enarx.Sallyport.Agreement
import Enarx.Sallyport.Validation

/-!
# Arguments of the kernel

Whether every argument register that the kernel uses for a forwarded call is
loaded with what the workload passed: a scalar of the workload, the length of
what was staged, or a pointer to it.
-/
namespace Enarx.Sallyport

open Libc Platform

def Seg.Stages (place : Place) (seg : Seg) : Prop :=
  seg.src = place.spans seg.size ∨ seg.dst = place.spans seg.size

theorem Seg.Holds.stages {seg : Seg} {buffer : Buffer} (h : seg.Holds buffer) : seg.Stages buffer.place := by
  obtain ⟨count, hseg, _, _⟩ := h
  rw [hseg]
  by_cases hdir : buffer.dir = .output
  · right
    simp [Buffer.seg, hdir, Buffer.spans, Seg.size]
  · left
    simp [Buffer.seg, hdir, Buffer.spans, Seg.size]

namespace Linux

section

variable (mem : Mem) (argv : Argv) (sysno : Sysno) (segs : List Seg) (base : Nat)
  (values : List Host.Value)

def place (word : Word) : Place :=
  match sysno with
  | .readv | .writev => .iovs (iovecs mem word argv.c.toNat)
  | _ => .slice word.toNat

/-- The register for a parameter is loaded with what the workload has in it: the same
value of the C type, a pointer to what was staged for it, or the length of that. -/
def Param.Loaded (value : Host.Value) (word : Word) : Param → Prop
  | .int => ∃ loaded, value = .word loaded ∧ usizeAsInt loaded = usizeAsInt word
  | .size => value = .word word
  | .ptr owner => value = .null ∧ argv.toList[owner]? = some 0 ∨
      ∃ seg ∈ segs, value = .ptr (seg.hostPtr base) ∧ seg.Stages (place mem argv sysno word)
  | .len owner => ∃ loaded, value = .word loaded ∧
      match values[owner]? with
      | some (.ptr target) => loaded = usize target.len
      | _ => loaded = 0 ∨ usizeAsInt loaded = usizeAsInt word

/-- Register by register; one that is not loaded holds whatever the host had in it. -/
def LoadsAll : List Param → List Host.Value → List Word → Prop
  | [], _, _ => True
  | param :: params, value :: values', word :: words =>
    param.Loaded mem argv sysno segs base values value word ∧ LoadsAll params values' words
  | _ :: _, _, _ => False

end

def Determined (mem : Mem) (argv : Argv) (sysno : Sysno) (segs : List Seg) (base : Nat)
    (call : Host.KernelCall) : Prop :=
  LoadsAll mem argv sysno segs base call.argv (params call.num) call.argv argv.toList

end Linux

section

variable {mem : Mem} {argv : Argv} {sysno : Sysno} {segs : List Seg} {base : Nat}
  {values : List Host.Value}

theorem loaded_int (word : Word) :
    Linux.Param.Loaded mem argv sysno segs base values (.word (intAsUsize (usizeAsInt word))) word .int :=
  ⟨_, rfl, usizeAsInt_intAsUsize _⟩

theorem loaded_ptr {seg : Seg} {buffer : Buffer} {word : Word} {owner : Nat} (hseg : seg ∈ segs)
    (hholds : seg.Holds buffer) (hplace : buffer.place = Linux.place mem argv sysno word) :
    Linux.Param.Loaded mem argv sysno segs base values (.ptr (seg.hostPtr base)) word (.ptr owner) := by
  refine .inr ⟨seg, hseg, rfl, ?_⟩
  rw [← hplace]
  exact hholds.stages

theorem loaded_null {word : Word} {owner : Nat} (h : argv.toList[owner]? = some 0) :
    Linux.Param.Loaded mem argv sysno segs base values .null word (.ptr owner) :=
  .inl ⟨rfl, h⟩

theorem loaded_len {seg : Seg} {word : Word} {owner : Nat}
    (h : values[owner]? = some (.ptr (seg.hostPtr base))) :
    Linux.Param.Loaded mem argv sysno segs base values (.word (usize seg.len)) word (.len owner) := by
  refine ⟨_, rfl, ?_⟩
  rw [h]
  rfl

end

/-- With any segments for its buffers, the call has its arguments determined exactly if `fits`. -/
structure Syscall.Determines (mem : Mem) (argv : Argv) (sysno : Sysno) (fits : Prop)
    (call : Syscall) : Prop where
  announced : call.Announced mem
  iff : ∀ segs base, List.Forall₂ Seg.Holds segs call.buffers →
    (Linux.Determined mem argv sysno segs base
      ⟨call.num, call.kernelArgs.map (Passed.value segs base)⟩ ↔ fits)

def Invocation.Determines (mem : Mem) (argv : Argv) (sysno : Sysno) (fits : Prop) :
    Invocation → Prop
  | .syscall call => call.Determines mem argv sysno fits
  | .maybeAlloc call => call.toAlloc.Determines mem argv sysno fits
  | _ => True

def ArgumentsFit (argv : Argv) : Sysno → Prop
  -- the size of the signal set has no argument word
  | .epollPwait => argv.e = 0
  -- without an address its length is `NULL`, which is -1
  | .sendto => argv.e ≠ 0 ∨ usizeAsInt argv.f = usizeAsInt NULL
  | _ => True

section

variable (platform : Platform) (mem : Mem) (argv : Argv)

def ArmDetermines (sysno : Sysno) : Prop :=
  Except.Ensures (Invocation.Determines mem argv sysno (ArgumentsFit argv sysno))
    (dispatch platform mem sysno argv)

variable {platform mem argv}

theorem SockaddrOutput.announced_of_eq {output : SockaddrOutput} {addr addrlen : Word}
    (h : output = ⟨⟨addr.toNat, Linux.socklenAt mem addrlen⟩, ⟨addrlen.toNat⟩⟩) : output.Announced mem := by
  rw [h]
  rfl

section

variable {addr : Option SockaddrOutput}
  (haddr : OrNone argv.b (· = ⟨⟨argv.b.toNat, Linux.socklenAt mem argv.c⟩, ⟨argv.c.toNat⟩⟩) addr)

include haddr

/-- Both pointers are null, or both point to what was staged for the address. -/
theorem loaded_sockaddr {sysno : Sysno} (hplace : ∀ word, Linux.place mem argv sysno word = .slice word.toNat)
    {segs : List Seg} (hsegs : List.Forall₂ Seg.Holds segs (buffersOption SockaddrOutput.buffers addr))
    (base : Nat) (values : List Host.Value) :
    Linux.Param.Loaded mem argv sysno segs base values ((Passed.orNull addr 0).value segs base) argv.b (.ptr 1) ∧
      Linux.Param.Loaded mem argv sysno segs base values ((Passed.orNull addr 1).value segs base) argv.c
        (.ptr 1) := by
  rcases haddr with ⟨hnull, rfl⟩ | ⟨hptr, output, rfl, rfl⟩
  · have hnone : argv.toList[1]? = some 0 := congrArg some hnull
    exact ⟨loaded_null hnone, loaded_null hnone⟩
  · rcases hsegs with _ | ⟨haddr, _ | ⟨haddrlen, _ | _⟩⟩
    exact ⟨loaded_ptr List.mem_cons_self haddr (hplace _).symm,
      loaded_ptr (List.mem_cons_of_mem _ List.mem_cons_self) haddrlen (hplace _).symm⟩

theorem OrNone.announced : ∀ output ∈ addr, output.Announced mem := by
  rcases haddr with ⟨-, rfl⟩ | ⟨-, output, houtput, rfl⟩
  · nofun
  · exact fun _ h => Option.some.inj h ▸ SockaddrOutput.announced_of_eq houtput

end

theorem accept_determines : ArmDetermines platform mem argv .accept := by
  refine .bind (orNone_ensures (validateSockaddrOutput_ensures platform mem argv.b argv.c) argv.b)
    fun addr haddr => .ok ⟨haddr.announced, fun segs base hsegs => iff_of_true ?_ trivial⟩
  have hloaded := @loaded_sockaddr _ _ _ haddr .accept (fun _ => rfl) _ hsegs base
  exact ⟨loaded_int _, (hloaded _).1, (hloaded _).2, trivial⟩

theorem accept4_determines : ArmDetermines platform mem argv .accept4 := by
  refine .bind (orNone_ensures (validateSockaddrOutput_ensures platform mem argv.b argv.c) argv.b)
    fun addr haddr => .ok ⟨haddr.announced, fun segs base hsegs => iff_of_true ?_ trivial⟩
  have hloaded := @loaded_sockaddr _ _ _ haddr .accept4 (fun _ => rfl) _ hsegs base
  exact ⟨loaded_int _, (hloaded _).1, (hloaded _).2, loaded_int _, trivial⟩

/-- A descriptor, a buffer and its length. -/
theorem Syscall.determines_buffer {call : Syscall} {sysno : Sysno} {buffer : Buffer}
    (hannounced : call.Announced mem) (hbuffers : call.buffers = [buffer])
    (hargs : call.kernelArgs = [.int (usizeAsInt argv.a), .ptr 0, .len 0])
    (hparams : Linux.params call.num = [.int, .ptr 1, .len 1])
    (hplace : buffer.place = Linux.place mem argv sysno argv.b) : call.Determines mem argv sysno True := by
  refine ⟨hannounced, fun segs base hsegs => iff_of_true ?_ trivial⟩
  rw [hbuffers] at hsegs
  rw [Linux.Determined, hargs, hparams]
  rcases hsegs with _ | ⟨hbuffer, _ | _⟩
  exact ⟨loaded_int _, loaded_ptr List.mem_cons_self hbuffer hplace, loaded_len rfl, trivial⟩

theorem bind_determines : ArmDetermines platform mem argv .bind :=
  .bind (validateSockaddrInput_ensures platform argv.b argv.c) fun _ haddr =>
    .ok (Syscall.determines_buffer trivial rfl rfl rfl (congrArg Place.slice (congrArg Slice.addr haddr)))

theorem connect_determines : ArmDetermines platform mem argv .connect :=
  .bind (validateSockaddrInput_ensures platform argv.b argv.c) fun _ haddr =>
    .ok (Syscall.determines_buffer trivial rfl rfl rfl (congrArg Place.slice (congrArg Slice.addr haddr)))

theorem read_determines : ArmDetermines platform mem argv .read :=
  .bind (validateSliceMut_ensures platform .u8 argv.b argv.c) fun _ hslice =>
    .ok (Syscall.determines_buffer trivial rfl rfl rfl (congrArg Place.slice (congrArg Slice.addr hslice)))

theorem write_determines : ArmDetermines platform mem argv .write :=
  .bind (validateSlice_ensures platform .u8 argv.b argv.c) fun _ hslice =>
    .ok (Syscall.determines_buffer trivial rfl rfl rfl (congrArg Place.slice (congrArg Slice.addr hslice)))

theorem readv_determines : ArmDetermines platform mem argv .readv :=
  .bind (validateIovecSliceMut_ensures platform mem argv.b argv.c) fun _ hiovs =>
    .ok (Syscall.determines_buffer trivial rfl rfl rfl (congrArg Place.iovs hiovs))

theorem writev_determines : ArmDetermines platform mem argv .writev :=
  .bind (validateIovecSlice_ensures platform mem argv.b argv.c) fun _ hiovs =>
    .ok (Syscall.determines_buffer trivial rfl rfl rfl (congrArg Place.iovs hiovs))

theorem clockGetres_determines : ArmDetermines platform mem argv .clockGetres := by
  refine .bind (orNone_ensures (validateMut_ensures platform timespec argv.b) argv.b)
    fun res hres => .ok ⟨trivial, fun segs base hsegs => iff_of_true ?_ trivial⟩
  rcases hres with ⟨hnull, rfl⟩ | ⟨hptr, ref, rfl, rfl⟩
  · rcases hsegs with _ | _
    exact ⟨loaded_int _, loaded_null (congrArg some hnull), trivial⟩
  · rcases hsegs with _ | ⟨hres, _ | _⟩
    exact ⟨loaded_int _, loaded_ptr List.mem_cons_self hres rfl, trivial⟩

theorem clockGettime_determines : ArmDetermines platform mem argv .clockGettime := by
  refine .bind (validateMut_ensures platform timespec argv.b) fun tp htp =>
    .ok ⟨trivial, fun segs base hsegs => iff_of_true ?_ trivial⟩
  subst htp
  rcases hsegs with _ | ⟨htp, _ | _⟩
  exact ⟨loaded_int _, loaded_ptr List.mem_cons_self htp rfl, trivial⟩

theorem epollCtl_determines : ArmDetermines platform mem argv .epollCtl := by
  refine .bind (validate_ensures platform epollEvent argv.d) fun event hevent =>
    .ok ⟨trivial, fun segs base hsegs => iff_of_true ?_ trivial⟩
  subst hevent
  rcases hsegs with _ | ⟨hevent, _ | _⟩
  exact ⟨loaded_int _, loaded_int _, loaded_int _, loaded_ptr List.mem_cons_self hevent rfl,
    trivial⟩

theorem epollWait_determines : ArmDetermines platform mem argv .epollWait := by
  refine .bind (validateSliceMut_ensures platform epollEvent argv.b argv.c) fun events hevents =>
    .ok ⟨trivial, fun segs base hsegs => iff_of_true ?_ trivial⟩
  subst hevents
  rcases hsegs with _ | ⟨hevents, _ | _⟩
  exact ⟨loaded_int _, loaded_ptr List.mem_cons_self hevents rfl, loaded_len rfl, loaded_int _,
    trivial⟩

theorem epollPwait_determines : ArmDetermines platform mem argv .epollPwait := by
  refine .bind (validateSliceMut_ensures platform epollEvent argv.b argv.c) fun events hevents =>
    .ite (fun hnull => .ok ⟨trivial, fun segs base hsegs => iff_of_true ?_ hnull⟩) fun hptr =>
      .bind (.any _) fun sigmask _ =>
        .ok ⟨trivial, fun segs base hsegs => iff_of_false ?_ hptr⟩
  · subst hevents
    rcases hsegs with _ | ⟨hevents, _ | _⟩
    exact ⟨loaded_int _, loaded_ptr List.mem_cons_self hevents rfl, loaded_len rfl, loaded_int _,
      trivial⟩
  · rintro ⟨_, _, _, _, _, hsize⟩
    exact hsize

theorem getsockname_determines : ArmDetermines platform mem argv .getsockname := by
  refine .bind (validateSockaddrOutput_ensures platform mem argv.b argv.c) fun output houtput =>
    .ok ⟨SockaddrOutput.announced_of_eq houtput, fun segs base hsegs => iff_of_true ?_ trivial⟩
  subst houtput
  rcases hsegs with _ | ⟨haddr, _ | ⟨haddrlen, _ | _⟩⟩
  exact ⟨loaded_int _, loaded_ptr List.mem_cons_self haddr rfl,
    loaded_ptr (List.mem_cons_of_mem _ List.mem_cons_self) haddrlen rfl, trivial⟩

theorem nanosleep_determines : ArmDetermines platform mem argv .nanosleep := by
  refine .bind (validate_ensures platform timespec argv.a) fun req hreq =>
    .bind (orNone_ensures (validateMut_ensures platform timespec argv.b) argv.b) fun rem hrem =>
      .ok ⟨trivial, fun segs base hsegs => iff_of_true ?_ trivial⟩
  subst hreq
  rcases hrem with ⟨hnull, rfl⟩ | ⟨hptr, ref, rfl, rfl⟩
  · rcases hsegs with _ | ⟨hreq, _ | _⟩
    exact ⟨loaded_ptr List.mem_cons_self hreq rfl, loaded_null (congrArg some hnull), trivial⟩
  · rcases hsegs with _ | ⟨hreq, _ | ⟨hrem, _ | _⟩⟩
    exact ⟨loaded_ptr List.mem_cons_self hreq rfl,
      loaded_ptr (List.mem_cons_of_mem _ List.mem_cons_self) hrem rfl, trivial⟩

theorem poll_determines : ArmDetermines platform mem argv .poll := by
  refine .bind (validateSliceMut_ensures platform pollfd argv.a argv.b) fun fds hfds =>
    .ok ⟨trivial, fun segs base hsegs => iff_of_true ?_ trivial⟩
  subst hfds
  rcases hsegs with _ | ⟨hfds, _ | _⟩
  exact ⟨loaded_ptr List.mem_cons_self hfds rfl, loaded_len rfl, loaded_int _, trivial⟩

theorem recvfrom_determines : ArmDetermines platform mem argv .recvfrom := by
  refine .bind (validateSliceMut_ensures platform .u8 argv.b argv.c) fun slice hslice =>
    .ite (fun hnull => .ok ⟨trivial, fun segs base hsegs => iff_of_true ?_ trivial⟩) fun hptr =>
      .bind (validateSockaddrOutput_ensures platform mem argv.e argv.f) fun output houtput =>
        .ok ⟨SockaddrOutput.announced_of_eq houtput, fun segs base hsegs =>
          iff_of_true ?_ trivial⟩
  · subst hslice
    have hnone : argv.toList[4]? = some 0 := congrArg some hnull
    rcases hsegs with _ | ⟨hbuf, _ | _⟩
    exact ⟨loaded_int _, loaded_ptr List.mem_cons_self hbuf rfl, loaded_len rfl, loaded_int _,
      loaded_null hnone, loaded_null hnone, trivial⟩
  · subst hslice houtput
    rcases hsegs with _ | ⟨haddr, _ | ⟨haddrlen, _ | ⟨hbuf, _ | _⟩⟩⟩
    exact ⟨loaded_int _,
      loaded_ptr (List.mem_cons_of_mem _ (List.mem_cons_of_mem _ List.mem_cons_self)) hbuf rfl,
      loaded_len rfl, loaded_int _, loaded_ptr List.mem_cons_self haddr rfl,
      loaded_ptr (List.mem_cons_of_mem _ List.mem_cons_self) haddrlen rfl, trivial⟩

theorem sendto_determines : ArmDetermines platform mem argv .sendto := by
  refine .bind (validateSlice_ensures platform .u8 argv.b argv.c) fun slice hslice =>
    .ite (fun hnull => .ok ⟨trivial, fun segs base hsegs => ?_⟩) fun hptr =>
      .bind (validateSockaddrInput_ensures platform argv.e argv.f) fun dest hdest =>
        .ok ⟨trivial, fun segs base hsegs => iff_of_true ?_ (.inl hptr)⟩
  · subst hslice
    rcases hsegs with _ | ⟨hbuf, _ | _⟩
    constructor
    · rintro ⟨_, _, _, _, _, ⟨loaded, hloaded, hlen⟩, _⟩
      cases hloaded
      rcases hlen with hzero | hlen
      · exact absurd hzero (by decide)
      · exact .inr hlen.symm
    · intro hfits
      exact ⟨loaded_int _, loaded_ptr List.mem_cons_self hbuf rfl, loaded_len rfl, loaded_int _,
        loaded_null (congrArg some hnull),
        ⟨NULL, rfl, .inr (hfits.resolve_left (absurd hnull)).symm⟩, trivial⟩
  · subst hslice hdest
    rcases hsegs with _ | ⟨hdest, _ | ⟨hbuf, _ | _⟩⟩
    exact ⟨loaded_int _, loaded_ptr (List.mem_cons_of_mem _ List.mem_cons_self) hbuf rfl,
      loaded_len rfl, loaded_int _, loaded_ptr List.mem_cons_self hdest rfl, loaded_len rfl,
      trivial⟩

theorem setsockopt_determines : ArmDetermines platform mem argv .setsockopt := by
  refine .bind (orNone_ensures (validateSockoptInput_ensures platform argv.d argv.e) argv.d)
    fun optval hoptval => .ok ⟨trivial, fun segs base hsegs => iff_of_true ?_ trivial⟩
  rcases hoptval with ⟨hnull, rfl⟩ | ⟨hptr, slice, rfl, rfl⟩
  · rcases hsegs with _ | _
    exact ⟨loaded_int _, loaded_int _, loaded_int _, loaded_null (congrArg some hnull),
      ⟨0, rfl, .inl rfl⟩, trivial⟩
  · rcases hsegs with _ | ⟨hoptval, _ | _⟩
    exact ⟨loaded_int _, loaded_int _, loaded_int _, loaded_ptr List.mem_cons_self hoptval rfl,
      loaded_len rfl, trivial⟩

theorem ioctl_determines : ArmDetermines platform mem argv .ioctl := by
  refine .bind (validateArgp_ensures platform (usizeAsInt argv.b) argv.c) fun argp hargp =>
    .ok ⟨trivial, fun segs base hsegs => iff_of_true ?_ trivial⟩
  rcases hargp with ⟨hnull, rfl⟩ | ⟨hptr, _, rfl⟩
  · rcases hsegs with _ | _
    exact ⟨loaded_int _, loaded_int _, loaded_null (congrArg some hnull), trivial⟩
  · rcases hsegs with _ | ⟨hargp, _ | _⟩
    exact ⟨loaded_int _, loaded_int _, loaded_ptr List.mem_cons_self hargp rfl, trivial⟩

theorem usizeAsInt_mode (mode : Word) :
    usizeAsInt (uintAsUsize ((if mode = 0 then none else some (usizeAsInt mode)).getD 0)) =
      usizeAsInt mode := by
  by_cases hmode : mode = 0
  · rw [if_pos hmode, hmode]
    decide
  · rw [if_neg hmode, Option.getD_some, usizeAsInt_uintAsUsize]

theorem open_determines : ArmDetermines platform mem argv .open_ := by
  refine .bind (validateStr_ensures platform mem argv.a) fun pathname hpathname =>
    .ok ⟨trivial, fun segs base hsegs => iff_of_true ?_ trivial⟩
  rcases hsegs with _ | ⟨hpath, _ | _⟩
  have hplace : (pathname.buffer .input).place = .slice argv.a.toNat :=
    congrArg Place.slice hpathname.1
  exact ⟨loaded_ptr List.mem_cons_self hpath hplace, loaded_int _,
    ⟨_, rfl, usizeAsInt_mode argv.c⟩, trivial⟩

theorem dispatch_determines (sysno : Sysno) : ArmDetermines platform mem argv sysno := by
  cases sysno with
  | accept => exact accept_determines
  | accept4 => exact accept4_determines
  | bind => exact bind_determines
  | clockGetres => exact clockGetres_determines
  | clockGettime => exact clockGettime_determines
  | connect => exact connect_determines
  | epollCtl => exact epollCtl_determines
  | epollPwait => exact epollPwait_determines
  | epollWait => exact epollWait_determines
  | getsockname => exact getsockname_determines
  | ioctl => exact ioctl_determines
  | nanosleep => exact nanosleep_determines
  | open_ => exact open_determines
  | poll => exact poll_determines
  | read => exact read_determines
  | readv => exact readv_determines
  | recvfrom => exact recvfrom_determines
  | sendto => exact sendto_determines
  | setsockopt => exact setsockopt_determines
  | write => exact write_determines
  | writev => exact writev_determines
  | close | dup | epollCreate1 | exit | exitGroup =>
    exact .ok ⟨trivial, fun _ _ _ => iff_of_true ⟨loaded_int _, trivial⟩ trivial⟩
  | dup2 | eventfd2 | listen =>
    exact .ok ⟨trivial, fun _ _ _ => iff_of_true ⟨loaded_int _, loaded_int _, trivial⟩ trivial⟩
  | dup3 | fcntl | socket =>
    exact .ok ⟨trivial, fun _ _ _ =>
      iff_of_true ⟨loaded_int _, loaded_int _, loaded_int _, trivial⟩ trivial⟩
  | sync => exact .ok ⟨trivial, fun _ _ _ => iff_of_true trivial trivial⟩
  | getegid | geteuid | getgid | getpid | getuid | archPrctl | brk | mmap => exact .ok trivial
  | fstat | setTidAddress | uname | getrandom | madvise | mprotect | munmap =>
    exact .bind (.any _) fun _ _ => .ok trivial
  | readlink | rtSigprocmask | sigaltstack | mremap | rtSigaction =>
    exact .bind (.any _) fun _ _ => .bind (.any _) fun _ _ => .ok trivial

end

/-- The host issues a call for the item, and its arguments are those of the workload. -/
def ItemDetermined (mem : Mem) (argv : Argv) (sysno : Sysno) (base : Nat) (leaf : Leaf)
    (item : Item) : Prop :=
  ∃ kernelCall, Host.execute base item = .ok (some (.syscall kernelCall)) ∧
    Linux.Determined mem argv sysno leaf.segs (Host.itemData base item).base kernelCall

theorem Leaf.Encodes.determined_iff {mem : Mem} {guestBase base : Nat} {leaf : Leaf} {item : Item}
    (h : leaf.Encodes mem guestBase item) (hguest : 8 ∣ guestBase) (hbase : 8 ∣ base)
    (hsmall : item.data.length < 2 ^ 63) {call : Syscall} (hcall : leaf.call = .syscall call)
    {argv : Argv} {sysno : Sysno} {fits : Prop} (hdetermines : call.Determines mem argv sysno fits) :
    ItemDetermined mem argv sysno base leaf item ↔ fits := by
  obtain ⟨leafCall, staged⟩ := leaf
  cases hcall
  have hexecute := AllocCall.host_execute (.syscall call) h.kind_eq h.num_eq h.argv_eq
    (h.usable hguest hbase) hsmall hdetermines.announced
  have hholds : List.Forall₂ Seg.Holds (Leaf.segs ⟨.syscall call, staged⟩) call.buffers :=
    h.carries.imp fun _ _ hcarries => hcarries.holds
  rw [← hdetermines.iff _ (Host.itemData base item).base hholds]
  constructor
  · rintro ⟨kernelCall, hkernel, hdetermined⟩
    rw [hexecute] at hkernel
    cases hkernel
    exact hdetermined
  · intro hdetermined
    exact ⟨_, hexecute, hdetermined⟩

theorem Invocation.Determines.of_allocated {mem : Mem} {argv : Argv} {sysno : Sysno} {fits : Prop}
    {invocation : Invocation} (h : invocation.Determines mem argv sysno fits) {call : Call}
    (hcall : invocation.call = some call) {alloc : AllocCall} (halloc : alloc ∈ call.allocated mem) :
    ∃ syscall : Syscall, alloc = .syscall syscall ∧ syscall.Determines mem argv sysno fits ∧
      call.allocated mem = [.syscall syscall] := by
  cases invocation with
  | syscall syscall =>
    cases hcall
    exact ⟨syscall, List.mem_singleton.mp halloc, h, rfl⟩
  | maybeAlloc maybe =>
    cases hcall
    have hunstaged := MaybeAlloc.unstaged_of_allocated (List.ne_nil_of_mem halloc)
    have hallocated : (Call.maybeAlloc maybe).allocated mem = [.syscall maybe.toAlloc] := by
      rw [Call.allocated, hunstaged]
    rw [hallocated] at halloc
    exact ⟨maybe.toAlloc, List.mem_singleton.mp halloc, h, hallocated⟩
  | stub stub =>
    cases hcall
    cases halloc
  | memory | archPrctl | rtSigaction => cases hcall

/-- The host loads every argument register from the item, with the value of the workload,
exactly for registers that fit. -/
theorem arguments_determined_iff {platform : Platform} {mem : Mem} {registers : Registers}
    {sysno : Sysno} (hsysno : Sysno.ofWord registers.num = some sysno) {invocation : Invocation}
    (hdecode : decode platform mem registers = .ok invocation) {call : Call}
    (hcall : invocation.call = some call) {buf : BlockBuf} {request : Request call}
    (hrequest : call.request buf mem = .ok request) (hsome : call.allocated mem ≠ [])
    (prior : Mem) {base : Nat} (hbase : 8 ∣ base) :
    ∃ items, Block.items ((request.block mem prior).words buf.base buf.count) = .ok items ∧
      (List.Forall₂ (ItemDetermined mem registers.argv sysno base) (call.leaves request.staged) items ↔
        ArgumentsFit registers.argv sysno) := by
  rw [decode, hsysno] at hdecode
  have hdetermines := dispatch_determines sysno invocation hdecode
  obtain ⟨items, hitems, hall⟩ := Request.forall_items hrequest hsome prior
    (R := fun leaf item => ItemDetermined mem registers.argv sysno base leaf item ↔
      ArgumentsFit registers.argv sysno) (by
    intro leaf item hleaf hencodes hsmall
    obtain ⟨syscall, hsyscall, hfits, _⟩ := hdetermines.of_allocated hcall hleaf
    exact hencodes.determined_iff buf.aligned hbase hsmall hsyscall hfits)
  refine ⟨items, hitems, ?_⟩
  -- there is one item
  obtain ⟨hcalls, _⟩ := Call.request_ok hrequest
  obtain ⟨alloc, halloc⟩ := List.exists_mem_of_ne_nil _ hsome
  obtain ⟨_, _, _, hallocated⟩ := hdetermines.of_allocated hcall halloc
  rw [hallocated] at hcalls
  have hlength := congrArg List.length hcalls
  rw [List.length_map] at hlength
  obtain ⟨leaf, hleaves⟩ := List.length_eq_one_iff.mp hlength
  rw [hleaves] at hall ⊢
  rcases hall with _ | ⟨hiff, _ | _⟩
  rw [List.forall₂_cons, hiff]
  simp

def maskedWait : Registers := ⟨Sysno.epollPwait.toWord, ⟨3, 4096, 1, 0, 8192, 8⟩⟩

theorem epoll_pwait_sigsetsize_not_loaded :
    ∃ (request : Request (.alloc (.syscall (.epollPwait ⟨3, ⟨4096, 1⟩, 0, ⟨8192⟩⟩)))) (items : _),
      decode userMemScope (fun _ => 0) maskedWait =
          .ok (.syscall (.epollPwait ⟨3, ⟨4096, 1⟩, 0, ⟨8192⟩⟩)) ∧
        Call.request ⟨16384, 64, by decide, by decide⟩ (fun _ => 0) _ = .ok request ∧
        Block.items ((request.block (fun _ => 0) (fun _ => 0)).words 16384 64) = .ok items ∧
        ¬List.Forall₂ (ItemDetermined (fun _ => 0) maskedWait.argv .epollPwait 0)
          (Call.leaves _ request.staged) items := by
  have hok : (Call.request ⟨16384, 64, by decide, by decide⟩ (fun _ => 0)
      (.alloc (.syscall (.epollPwait ⟨3, ⟨4096, 1⟩, 0, ⟨8192⟩⟩)))).isOk = true := by
    decide +kernel
  have hdecode : decode userMemScope (fun _ => 0) maskedWait =
      .ok (.syscall (.epollPwait ⟨3, ⟨4096, 1⟩, 0, ⟨8192⟩⟩)) := rfl
  have hdetermines : Syscall.Determines (fun _ => 0) maskedWait.argv .epollPwait (8192 = (0 : Word))
      (.epollPwait ⟨3, ⟨4096, 1⟩, 0, ⟨8192⟩⟩) := epollPwait_determines _ hdecode
  obtain ⟨request, hrequest⟩ := Except.exists_of_isOk hok
  obtain ⟨items, hitems, hall⟩ := Request.forall_items hrequest nofun (fun _ => 0)
    (R := fun leaf item =>
      ¬ItemDetermined (fun _ => 0) maskedWait.argv .epollPwait 0 leaf item) (by
    intro leaf item hleaf hencodes hsmall
    rw [hencodes.determined_iff (by decide) (by decide) hsmall (List.mem_singleton.mp hleaf)
      hdetermines]
    decide)
  refine ⟨request, items, rfl, hrequest, hitems, ?_⟩
  intro hdetermined
  rcases hall with _ | ⟨hnot, _ | _⟩
  exact hnot (List.forall₂_cons.mp hdetermined).1

theorem arguments_determined_write :
    ∃ (request : Request (.alloc (.syscall (.write ⟨1, ⟨4096, 5⟩⟩)))) (items : _),
      Call.request ⟨16384, 64, by decide, by decide⟩ (fun _ => 7) _ = .ok request ∧
        Block.items ((request.block (fun _ => 7) (fun _ => 0)).words 16384 64) = .ok items ∧
        List.Forall₂ (ItemDetermined (fun _ => 7) ⟨1, 4096, 5, 0, 0, 0⟩ .write 0)
          (Call.leaves _ request.staged) items := by
  have hok : (Call.request ⟨16384, 64, by decide, by decide⟩ (fun _ => 7)
      (.alloc (.syscall (.write ⟨1, ⟨4096, 5⟩⟩)))).isOk = true := by decide +kernel
  have hdecode : decode userMemScope (fun _ => 7) ⟨Sysno.write.toWord, ⟨1, 4096, 5, 0, 0, 0⟩⟩ =
      .ok (.syscall (.write ⟨1, ⟨4096, 5⟩⟩)) := rfl
  obtain ⟨request, hrequest⟩ := Except.exists_of_isOk hok
  obtain ⟨items, hitems, hiff⟩ := arguments_determined_iff rfl hdecode rfl hrequest nofun
    (fun _ => 0) (show 8 ∣ 0 by decide)
  exact ⟨request, items, hrequest, hitems, hiff.mpr trivial⟩

end Enarx.Sallyport
