import Enarx.Sallyport.Sandbox

/-!
# Requests of the workload under the policy

During one request `Handler::syscall` hands over blocks with permitted items, and
none at all when the request is not forwardable. A request that hands over nothing
is answered, unless it makes the handler panic; the theorem says exactly when.
-/
namespace Enarx.Sallyport

open Libc Platform

/-- The requests that the policy lets out, by number and arguments. -/
@[simp] def Sysno.Forwardable (mem : Mem) (argv : Argv) : Sysno → Prop
  | .open_ => OpenAllowed (mem.read argv.a.toNat resolvConf.length) (usizeAsInt argv.b)
  | .ioctl => IoctlAllowed (usizeAsInt argv.a) (usizeAsInt argv.b)
  | .fcntl => FcntlAllowed (usizeAsInt argv.a) (usizeAsInt argv.b)
  -- these become `read` and `write` items
  | .readv | .writev => True
  | sysno => sysno ∈ forwarded

@[simp] def memoryManagement : List Sysno := [.brk, .madvise, .mmap, .mprotect, .mremap, .munmap]

def ActionAccepted (platform : Platform) (writable : Bool) (ptr : Word) : Prop :=
  ptr = 0 ∨ platform.check sigaction writable ptr = .ok ()

/-- The platform lets the slices of a vector be read or written, and they are longer than any address. -/
structure OverlongVector (platform : Platform) (mem : Mem) (argv : Argv) (writable : Bool) : Prop where
  vector : platform.checkSlice iovec false argv.b argv.c = .ok ()
  slices : ∀ i < argv.c.toNat, platform.checkSlice .u8 writable (iovecAt mem (argv.b.toNat + 16 * i)).1
    (iovecAt mem (argv.b.toNat + 16 * i)).2 = .ok ()
  overlong : 2 ^ 64 ≤ ((Linux.iovecs mem argv.b argv.c.toNat).map Span.len).sum

@[simp] def Yields (platform : Platform) (mem : Mem) (argv : Argv) (sysno : Sysno) : Invocation → Prop
  | .syscall call => sysno.Forwardable mem argv ∧ call.Permitted mem ∧ (call.Overflows →
    sysno = .readv ∧ OverlongVector platform mem argv true ∨ sysno = .writev ∧ OverlongVector platform mem argv false)
  | .maybeAlloc call => call.toAlloc.Permitted mem → sysno.Forwardable mem argv
  | .stub _ => True
  | .memory _ => sysno ∈ memoryManagement
  | .archPrctl code addr => sysno = .archPrctl ∧ code = usizeAsInt argv.a ∧ addr = argv.b
  | .rtSigaction signum act oldact sigsetsize =>
    sysno = .rtSigaction ∧ signum = usizeAsInt argv.a ∧ sigsetsize = argv.d ∧
      (act.isSome ∨ oldact.isSome → argv.b ≠ 0 ∨ argv.c ≠ 0) ∧
      ActionAccepted platform false argv.b ∧ ActionAccepted platform true argv.c

variable {platform : Platform} {writable : Bool} {mem : Mem} {before : List Mem} {ptr : Word}
  {call : MaybeAlloc}

theorem Platform.orNone_accepted {T : Layout} :
    Except.Ensures (fun value => (value.isSome → ptr ≠ 0) ∧
        (ptr = 0 ∨ platform.check T writable ptr = .ok ()))
      (orNone ptr (do orAbort (platform.check T writable ptr); return (⟨ptr.toNat⟩ : Ref T))) := by
  apply Except.Ensures.ite
  · intro hnull
    exact .ok ⟨by simp, .inl hnull⟩
  · intro hptr value h
    cases hcheck : platform.check T writable ptr with
    | error errno =>
      rw [hcheck] at h
      cases h
    | ok _ => exact ⟨fun _ => hptr, .inr rfl⟩

theorem Platform.validateStr_addr :
    Except.Ensures (fun str => str.addr = ptr.toNat) (platform.validateStr mem ptr) :=
  .bind (.any _) fun _ _ => .ok rfl

theorem Platform.orAbort_ensures (check : Except Errno Unit) :
    Except.Ensures (fun _ => check = .ok ()) (orAbort check) :=
  fun _ h => orAbort_eq_ok.mp h

theorem Platform.validateIovecs_accepted (count addr : Nat) :
    Except.Ensures (fun _ => ∀ i < count, platform.checkSlice .u8 writable (iovecAt mem (addr + 16 * i)).1
      (iovecAt mem (addr + 16 * i)).2 = .ok ()) (platform.validateIovecs mem writable count addr) := by
  induction count generalizing addr with
  | zero => exact .ok fun i hi => absurd hi (Nat.not_lt_zero i)
  | succ count ih =>
    refine .bind (orAbort_ensures _) fun _ hcheck => .bind (ih (addr + 16)) fun _ hrest => .ok fun i hi => ?_
    rcases i with _ | i
    · exact hcheck
    · have hi := hrest i (Nat.lt_of_succ_lt_succ hi)
      rwa [Nat.add_assoc, Nat.add_comm 16, ← Nat.mul_succ] at hi

theorem Platform.validateIovecs_of_accepted {count addr : Nat}
    (h : ∀ i < count, platform.checkSlice .u8 writable (iovecAt mem (addr + 16 * i)).1
      (iovecAt mem (addr + 16 * i)).2 = .ok ()) : ∃ iovs, platform.validateIovecs mem writable count addr = .ok iovs := by
  induction count generalizing addr with
  | zero => exact ⟨[], rfl⟩
  | succ count ih =>
    obtain ⟨rest, hrest⟩ := ih fun i hi => by
      have hi := h (i + 1) (Nat.succ_lt_succ hi)
      rwa [Nat.mul_succ, Nat.add_comm (16 * i), ← Nat.add_assoc] at hi
    exact ⟨_, Except.bind_of_ok (orAbort_eq_ok.mpr (h 0 (Nat.zero_lt_succ _))) (Except.bind_of_ok hrest rfl)⟩

theorem dispatch_yields (platform : Platform) (mem : Mem) (argv : Argv) (sysno : Sysno) :
    Except.Ensures (Yields platform mem argv sysno) (dispatch platform mem sysno argv) := by
  obtain ⟨a, b, c, d, e, f⟩ := argv
  cases sysno
  case rtSigaction =>
    refine .bind Platform.orNone_accepted fun act hact => ?_
    refine .bind Platform.orNone_accepted fun oldact holdact => ?_
    exact .ok ⟨rfl, rfl, rfl, fun h => h.imp hact.1 holdact.1, hact.2, holdact.2⟩
  case open_ =>
    refine .bind Platform.validateStr_addr fun pathname haddr => .ok ?_
    rintro ⟨hpath, hflags⟩
    refine ⟨?_, hflags⟩
    have hlen : pathname.len = resolvConf.length := by
      rw [← hpath, Mem.length_read]
    change mem.read a.toNat resolvConf.length = resolvConf
    rw [← haddr, ← hlen]
    exact hpath
  case ioctl => exact .bind (.any _) fun _ _ => .ok id
  case fcntl => exact .ok id
  case readv =>
    intro _ hinvocation
    obtain ⟨iovs, hiovs, hcall⟩ := Except.bind_eq_ok.mp hinvocation
    cases hcall
    have hlens := validateIovecSliceMut_ensures platform mem b c iovs hiovs
    obtain ⟨_, hvector, hslices⟩ := Except.bind_eq_ok.mp hiovs
    refine ⟨trivial, trivial, fun hover => .inl ⟨rfl, orAbort_eq_ok.mp hvector, ?_, hlens ▸ hover⟩⟩
    exact Platform.validateIovecs_accepted _ _ _ hslices
  case writev =>
    intro _ hinvocation
    obtain ⟨iovs, hiovs, hcall⟩ := Except.bind_eq_ok.mp hinvocation
    cases hcall
    have hlens := validateIovecSlice_ensures platform mem b c iovs hiovs
    obtain ⟨_, hvector, hslices⟩ := Except.bind_eq_ok.mp hiovs
    refine ⟨trivial, trivial, fun hover => .inr ⟨rfl, orAbort_eq_ok.mp hvector, ?_, hlens ▸ hover⟩⟩
    exact Platform.validateIovecs_accepted _ _ _ hslices
  -- the other arms check at most two pointers, the second one maybe only if it is not null
  all_goals first
    | exact .ok (by simp [Syscall.Overflows])
    | exact .bind (.any _) fun _ _ => .ok (by simp [Syscall.Overflows])
    | exact .bind (.any _) fun _ _ => .bind (.any _) fun _ _ => .ok (by simp [Syscall.Overflows])
    | exact .bind (.any _) fun _ _ => .ite (fun _ => .ok (by simp [Syscall.Overflows]))
        fun _ => .bind (.any _) fun _ _ => .ok (by simp [Syscall.Overflows])

variable {env : Env σ}

theorem invoke_syscall {call : Syscall}
    (hcall : call.Permitted mem) (hplain : ¬(13 ≤ env.buf.count ∧ call.Overflows)) :
    Exec.Triple (fun guest => guest.mem = mem ∧ guest.handed = before)
      (invoke env (.syscall call)) (fun _ => Extends env before) (Stopped env before) := by
  apply (execute_sent (Call.permitted_syscall hcall) (List.cons_ne_nil _ _)
    (mt (Call.request_panics_iff env.buf mem call).mp hplain)).bind
  intro ret
  exact finish_sent _

theorem invoke_maybeAlloc_sent (hsome : (Call.maybeAlloc call).allocated mem ≠ []) :
    Exec.Triple (fun guest => guest.mem = mem ∧ guest.handed = before)
      (invoke env (.maybeAlloc call)) (fun _ => Extends env before) (Stopped env before) := by
  apply (execute_sent (Call.permitted_maybeAlloc mem call) hsome (call.request_ne_panic _ _)).bind
  intro ret
  exact finish_sent _

theorem invoke_maybeAlloc_inside (hnone : (Call.maybeAlloc call).allocated mem = []) :
    Exec.Triple (fun guest => guest.mem = mem ∧ guest.handed = before)
      (invoke env (.maybeAlloc call)) (fun _ guest => guest.handed = before) (Refused before) := by
  apply (execute_inside hnone (call.request_ne_panic _ _)).bind
  intro ret
  apply (inside_finish (Reply.ofExcept_ne_attacked intAsUsize ret) before).imp
  · exact fun _ hguest => hguest.1
  · exact fun _ _ hguest => hguest

theorem invoke_stub (stub : Stub) : Exec.Triple (fun guest => guest.mem = mem ∧ guest.handed = before)
      (invoke env (.stub stub)) (fun _ guest => guest.handed = before) (Refused before) := by
  have hnone : (Call.stub stub).allocated mem = [] := rfl
  apply (execute_inside hnone (stub.request_ne_panic _ _)).bind
  rintro ret guest ⟨hguest, committed, block, rfl⟩
  exact inside_finish (stub.reply_ne_attacked env.rng mem block) before guest hguest

theorem inside_invoke_archPrctl {code : CInt} {addr : Word}
    (h : ¬(env.tee = .kvm ∧ (code = ARCH_SET_FS ∨ code = ARCH_SET_GS) ∧ Noncanonical addr)) :
    Inside (invoke env (.archPrctl code addr)) :=
  (inside_archPrctl h).bind fun _ => .pure (0, 0)

theorem inside_invoke_rtSigaction {signum : CInt} {act oldact : Option (Ref sigaction)} {sigsetsize : Word}
    (h : ¬(signum.toInt < 0 ∧ sigsetsize = 8 ∧ (act.isSome ∨ oldact.isSome))) :
    Inside (invoke env (.rtSigaction signum act oldact sigsetsize)) := by
  apply (inside_rtSigaction h).bind
  intro old
  cases oldact with
  | none => exact .pure (0, 0)
  | some sysOldact =>
    cases old with
    | none => exact .pure (0, 0)
    | some old => exact (inside_storeWorkload _ _).bind fun _ => .pure (0, 0)

namespace Registers

def Forwardable (mem : Mem) (registers : Registers) : Prop :=
  ∃ sysno : Sysno, registers.num = sysno.toWord ∧ sysno.Forwardable mem registers.argv

def ManagesMemory (registers : Registers) : Prop :=
  ∃ sysno ∈ memoryManagement, registers.num = sysno.toWord

/-- An action for a negative signal number, a segment base that is not an address, a path that goes on to the
end of the address space, or slices that together are longer than it. -/
def Panics (env : Env σ) (mem : Mem) (registers : Registers) : Prop :=
  (registers.num = Sysno.rtSigaction.toWord ∧ (usizeAsInt registers.argv.a).toInt < 0 ∧
    registers.argv.d = 8 ∧ (registers.argv.b ≠ 0 ∨ registers.argv.c ≠ 0) ∧
    ActionAccepted env.platform false registers.argv.b ∧
    ActionAccepted env.platform true registers.argv.c) ∨
  (registers.num = Sysno.archPrctl.toWord ∧ env.tee = .kvm ∧
    (usizeAsInt registers.argv.a = ARCH_SET_FS ∨ usizeAsInt registers.argv.a = ARCH_SET_GS) ∧
    Noncanonical registers.argv.b) ∨
  ((registers.num = Sysno.open_.toWord ∨ registers.num = Sysno.readlink.toWord) ∧
    Unterminated env.platform mem registers.argv.a) ∨
  -- the block has room for what is staged before the slices are summed up
  (13 ≤ env.buf.count ∧
    (registers.num = Sysno.readv.toWord ∧ OverlongVector env.platform mem registers.argv true ∨
      registers.num = Sysno.writev.toWord ∧ OverlongVector env.platform mem registers.argv false))

end Registers

def Answered (result : Except Stop α) : Prop :=
  ∀ stop, result = .error stop → ∃ errno, stop = .err errno

/-- The policy of one request, whatever the host does during it. -/
structure Sandboxed (env : Env σ) (registers : Registers) (guest : Guest σ) : Prop where
  permitted : Extends env guest.handed (syscall env registers guest).2
  inside : ¬registers.Forwardable guest.mem →
    (syscall env registers guest).2.handed = guest.handed
  answered : (syscall env registers guest).2.handed = guest.handed →
    Answered (syscall env registers guest).1

variable {registers : Registers} {platform : Platform} {mem : Mem} {guest : Guest σ}
  {run : HandlerM σ (Word × Word)}

theorem Sandboxed.of_inside (hrun : syscall env registers guest = run guest)
    (h : Exec.Triple (fun other => other.mem = guest.mem ∧ other.handed = guest.handed) run
      (fun _ other => other.handed = guest.handed) (Refused guest.handed)) :
    Sandboxed env registers guest := by
  have hfinal : (syscall env registers guest).2.handed = guest.handed := by
    rw [hrun]
    exact h.final ⟨rfl, rfl⟩ (fun _ _ hfinal => hfinal) fun _ _ hfinal => hfinal.1
  refine ⟨.of_eq hfinal, fun _ => hfinal, fun _ stop hstop => ?_⟩
  rw [hrun] at hstop
  exact (h.stop ⟨rfl, rfl⟩ hstop).2

theorem Sandboxed.of_forwardable (hrun : syscall env registers guest = run guest)
    (hforward : registers.Forwardable guest.mem)
    (h : Exec.Triple (fun other => other.mem = guest.mem ∧ other.handed = guest.handed) run
      (fun _ => Extends env guest.handed) (Stopped env guest.handed)) : Sandboxed env registers guest := by
  refine ⟨?_, fun hnot => absurd hforward hnot, fun hsame stop hstop => ?_⟩
  · rw [hrun]
    exact h.final ⟨rfl, rfl⟩ (fun _ _ hfinal => hfinal) fun _ _ hfinal => hfinal.1
  · rw [hrun] at hsame hstop
    exact (h.stop ⟨rfl, rfl⟩ hstop).2 hsame

theorem decode_yields {invocation : Invocation} (h : decode platform mem registers = .ok invocation) :
    ∃ sysno : Sysno, registers.num = sysno.toWord ∧
      Yields platform mem registers.argv sysno invocation := by
  unfold decode at h
  split at h
  · next sysno hsysno =>
    exact ⟨sysno, (Sysno.toWord_of_ofWord hsysno).symm,
      dispatch_yields platform mem registers.argv sysno invocation h⟩
  · cases h

theorem Inside.triple {run : HandlerM σ α} (h : Inside run) (mem : Mem) (before : List Mem) :
    Exec.Triple (fun guest => guest.mem = mem ∧ guest.handed = before) run
      (fun _ guest => guest.handed = before) (Refused before) :=
  (h before).imp (fun _ hguest => hguest.2) fun _ _ hguest => hguest

theorem decode_eq {sysno : Sysno} (h : registers.num = sysno.toWord) :
    decode platform mem registers = dispatch platform mem sysno registers.argv := by
  unfold decode
  rw [h, Sysno.ofWord_toWord]

theorem decode_eq_panic : decode platform mem registers = .error .panic ↔
      (registers.num = Sysno.open_.toWord ∨ registers.num = Sysno.readlink.toWord) ∧
        Unterminated platform mem registers.argv.a := by
  constructor
  · intro h
    unfold decode at h
    split at h
    · next sysno hsysno =>
      rw [← Sysno.toWord_of_ofWord hsysno]
      obtain ⟨hsysno, hstr⟩ := (dispatch_eq_panic platform mem).mp h
      exact ⟨hsysno.imp (congrArg _) (congrArg _), hstr⟩
    · cases h
  · rintro ⟨hnum | hnum, hstr⟩
    · exact (decode_eq hnum).trans ((dispatch_eq_panic platform mem).mpr ⟨.inl rfl, hstr⟩)
    · exact (decode_eq hnum).trans ((dispatch_eq_panic platform mem).mpr ⟨.inr rfl, hstr⟩)

theorem sandboxed_of_not_panics (hmemory : ¬registers.ManagesMemory) (h : ¬registers.Panics env guest.mem) :
    Sandboxed env registers guest := by
  rcases hdecode : decode env.platform guest.mem registers with (errno | _) | invocation
  · have hrun : syscall env registers guest =
        (throw (.err errno) : HandlerM σ (Word × Word)) guest := syscall_aborted hdecode
    exact .of_inside hrun ((Inside.refuse errno).triple _ _)
  · exact absurd (.inr (.inr (.inl (decode_eq_panic.mp hdecode)))) h
  · have hrun := syscall_eq hdecode
    obtain ⟨sysno, hnum, hyields⟩ := decode_yields hdecode
    cases invocation with
    | syscall call =>
      obtain ⟨hforward, hpermitted, hover⟩ := hyields
      refine .of_forwardable hrun ⟨sysno, hnum, hforward⟩ (invoke_syscall hpermitted fun ⟨hroom, hoverflows⟩ => ?_)
      refine h (.inr (.inr (.inr ⟨hroom, (hover hoverflows).imp ?_ ?_⟩)))
      · exact fun hread => ⟨hnum.trans (congrArg _ hread.1), hread.2⟩
      · exact fun hwrite => ⟨hnum.trans (congrArg _ hwrite.1), hwrite.2⟩
    | maybeAlloc call =>
      by_cases hallocated : (Call.maybeAlloc call).allocated guest.mem = []
      · exact .of_inside hrun (invoke_maybeAlloc_inside hallocated)
      · have hpermitted := call.permitted (MaybeAlloc.unstaged_of_allocated hallocated)
        exact .of_forwardable hrun ⟨sysno, hnum, hyields hpermitted⟩
          (invoke_maybeAlloc_sent hallocated)
    | stub stub => exact .of_inside hrun (invoke_stub stub)
    | memory call => exact absurd ⟨sysno, hyields, hnum⟩ hmemory
    | archPrctl code addr =>
      obtain ⟨rfl, rfl, rfl⟩ := hyields
      have hinside : Inside (invoke env (.archPrctl (usizeAsInt registers.argv.a) _)) :=
        inside_invoke_archPrctl fun hpanic => h (.inr (.inl ⟨hnum, hpanic⟩))
      exact .of_inside hrun (hinside.triple _ _)
    | rtSigaction signum act oldact sigsetsize =>
      obtain ⟨rfl, rfl, rfl, hsome, hact, holdact⟩ := hyields
      have hinside : Inside (invoke env (.rtSigaction (usizeAsInt registers.argv.a) act oldact _)) :=
        inside_invoke_rtSigaction fun ⟨hneg, hsize, hptr⟩ =>
          h (.inl ⟨hnum, hneg, hsize, hsome hptr, hact, holdact⟩)
      exact .of_inside hrun (hinside.triple _ _)

theorem rtSigaction_panics {signum : CInt} {act : Option (Ref sigaction)} {oldact : Bool}
    (hneg : signum.toInt < 0) (hsome : act.isSome ∨ oldact) (guest : Guest σ) :
    rtSigaction signum act oldact 8 guest = (.error .panic, guest) := by
  have hvalid : ¬(BitVec.sle SIGRTMAX signum ∨ (8 : Word) ≠ 8) := by
    rw [BitVec.sle_iff_toInt_le]
    have hmax : SIGRTMAX.toInt = 64 := by decide
    simp only [ne_eq, not_true_eq_false, or_false]
    omega
  have hindex : (actionIndex signum : HandlerM σ (Fin 64)) = throw .panic := by
    unfold actionIndex
    rw [dif_neg (actionIndex_ge hneg)]
  unfold rtSigaction
  rw [if_neg hvalid]
  cases oldact with
  | true =>
    simp only [readAction, if_true, hindex]
    rfl
  | false =>
    obtain ⟨act, rfl⟩ := Option.isSome_iff_exists.mp (hsome.resolve_right Bool.false_ne_true)
    simp only [writeAction, hindex]
    rfl

theorem archPrctl_panics {code : CInt} {addr : Word} (htee : env.tee = .kvm)
    (hcode : code = ARCH_SET_FS ∨ code = ARCH_SET_GS) (haddr : Noncanonical addr)
    (guest : Guest σ) : archPrctl env code addr guest = (.error .panic, guest) := by
  have hvirt : (virtAddr addr : HandlerM σ Word) = throw .panic := by
    unfold Noncanonical at haddr
    unfold virtAddr
    rw [if_neg (by omega), if_neg (by omega)]
  unfold archPrctl
  rw [htee]
  rcases hcode with rfl | rfl
  · simp only [if_true, hvirt]
    rfl
  · simp only [show ARCH_SET_GS ≠ ARCH_SET_FS by decide, show ARCH_SET_GS ≠ ARCH_GET_FS by decide,
      if_true, if_false, hvirt]
    rfl

theorem invoke_panics {call : Syscall} (h : 13 ≤ env.buf.count ∧ call.Overflows) (guest : Guest σ) :
    invoke env (.syscall call) guest = (.error .panic, guest) := by
  have hexecute : execute env (.alloc (.syscall call)) guest = (.error .panic, guest) := by
    unfold execute
    rw [(Call.request_panics_iff env.buf guest.mem call).mpr h]
    rfl
  rw [invoke, Exec.bind_apply, hexecute]

theorem orNone_of_accepted {writable : Bool} {ptr : Word}
    (h : ActionAccepted platform writable ptr) :
    orNone ptr (do orAbort (platform.check sigaction writable ptr); return (⟨ptr.toNat⟩ : Ref sigaction)) =
      .ok (if ptr = 0 then none else some ⟨ptr.toNat⟩) := by
  unfold orNone
  rcases h with hnull | hcheck
  · rw [if_pos hnull, if_pos hnull]
  · rw [hcheck]
    split <;> rfl

theorem readv_panics (hroom : 13 ≤ env.buf.count)
    (hnum : registers.num = Sysno.readv.toWord) (h : OverlongVector env.platform guest.mem registers.argv true) :
    syscall env registers guest = (.error .panic, guest) := by
  obtain ⟨iovs, hiovs⟩ := Platform.validateIovecs_of_accepted h.slices
  have hvector : env.platform.validateIovecSliceMut guest.mem registers.argv.b registers.argv.c = .ok iovs :=
    Except.bind_of_ok (orAbort_eq_ok.mpr h.vector) hiovs
  have hdecode : decode env.platform guest.mem registers = .ok (.syscall (.readv _)) :=
    (decode_eq hnum).trans (Except.bind_of_ok hvector rfl)
  have hover : (Syscall.readv ⟨usizeAsInt registers.argv.a, iovs⟩).Overflows :=
    validateIovecSliceMut_ensures env.platform guest.mem _ _ iovs hvector ▸ h.overlong
  rw [syscall_eq hdecode]
  exact invoke_panics ⟨hroom, hover⟩ guest

theorem writev_panics (hroom : 13 ≤ env.buf.count)
    (hnum : registers.num = Sysno.writev.toWord) (h : OverlongVector env.platform guest.mem registers.argv false) :
    syscall env registers guest = (.error .panic, guest) := by
  obtain ⟨iovs, hiovs⟩ := Platform.validateIovecs_of_accepted h.slices
  have hvector : env.platform.validateIovecSlice guest.mem registers.argv.b registers.argv.c = .ok iovs :=
    Except.bind_of_ok (orAbort_eq_ok.mpr h.vector) hiovs
  have hdecode : decode env.platform guest.mem registers = .ok (.syscall (.writev _)) :=
    (decode_eq hnum).trans (Except.bind_of_ok hvector rfl)
  have hover : (Syscall.writev ⟨usizeAsInt registers.argv.a, iovs⟩).Overflows :=
    validateIovecSlice_ensures env.platform guest.mem _ _ iovs hvector ▸ h.overlong
  rw [syscall_eq hdecode]
  exact invoke_panics ⟨hroom, hover⟩ guest

theorem syscall_panics (h : registers.Panics env guest.mem) :
    syscall env registers guest = (.error .panic, guest) := by
  rcases h with ⟨hnum, hneg, hsize, hsome, hact, holdact⟩ | ⟨hnum, htee, hcode, haddr⟩ | hstr |
    ⟨hroom, ⟨hnum, hvector⟩ | ⟨hnum, hvector⟩⟩
  · have hdecode : decode env.platform guest.mem registers = .ok (.rtSigaction _ _ _ _) :=
      (decode_eq hnum).trans (Except.bind_of_ok (orNone_of_accepted hact)
        (Except.bind_of_ok (orNone_of_accepted holdact) rfl))
    have hptr : (if registers.argv.b = 0 then none
          else some (⟨registers.argv.b.toNat⟩ : Ref sigaction)).isSome ∨
        (if registers.argv.c = 0 then none
          else some (⟨registers.argv.c.toNat⟩ : Ref sigaction)).isSome := by
      rcases hsome with hb | hc
      · exact .inl (by rw [if_neg hb, Option.isSome_some])
      · exact .inr (by rw [if_neg hc, Option.isSome_some])
    rw [syscall_eq hdecode, hsize, invoke, Exec.bind_apply, rtSigaction_panics hneg hptr]
  · have hdecode : decode env.platform guest.mem registers = .ok (.archPrctl _ _) := decode_eq hnum
    rw [syscall_eq hdecode, invoke, Exec.bind_apply, archPrctl_panics htee hcode haddr]
  · exact syscall_aborted (decode_eq_panic.mpr hstr)
  · exact readv_panics hroom hnum hvector
  · exact writev_panics hroom hnum hvector

theorem not_sandboxed_of_panics (h : registers.Panics env guest.mem) : ¬Sandboxed env registers guest := by
  intro hsandboxed
  have hanswered := hsandboxed.answered (by rw [syscall_panics h])
  rw [syscall_panics h] at hanswered
  obtain ⟨errno, herrno⟩ := hanswered .panic rfl
  cases herrno

/-- The policy holds for a request exactly when it does not make the handler panic. -/
theorem sandboxed_iff (env : Env σ) (registers : Registers) (guest : Guest σ)
    (hmemory : ¬registers.ManagesMemory) :
    Sandboxed env registers guest ↔ ¬registers.Panics env guest.mem := by
  constructor
  · exact fun h hpanics => not_sandboxed_of_panics hpanics h
  · exact sandboxed_of_not_panics hmemory

def sampleGuest : Guest Unit where
  mem _ := 0
  block _ := 0
  actions _ := none
  fsBase := 0
  gsBase := 0
  shim := ()
  handed := []

def sampleEnv : Env Unit where
  buf := .small
  platform := userMemScope
  tee := .kvm
  rng := default
  sally _ := (.ok (), fun _ => 0)
  memory _ := throw (.err ENOMEM)
  attempts := 0

def negativeSignal : Registers := ⟨Sysno.rtSigaction.toWord, ⟨0xffffffff, 4096, 0, 8, 0, 0⟩⟩

theorem negativeSignal_panics : negativeSignal.Panics sampleEnv sampleGuest.mem := by
  refine .inl ⟨rfl, by decide, rfl, .inl (by decide), .inr (by decide), .inl rfl⟩

def lastPath : Registers := ⟨Sysno.open_.toWord, ⟨0xffffffffffffffff, 0, 0, 0, 0, 0⟩⟩

theorem lastPath_panics : lastPath.Panics sampleEnv sampleGuest.mem := by
  refine .inr (.inr (.inl ⟨.inl rfl, fun addr hle hlt => ?_, fun addr hle hlt => ?_⟩))
  · have haddr : 0xffffffffffffffff ≤ addr := hle
    obtain rfl : addr = 0xffffffffffffffff := by omega
    decide
  · have haddr : 0xffffffffffffffff ≤ addr := hle
    omega

def fullGuest : Guest Unit := { sampleGuest with mem _ := 0xff }

def overlongRead : Registers := ⟨Sysno.readv.toWord, ⟨0, 4096, 2, 0, 0, 0⟩⟩

theorem overlongRead_panics : overlongRead.Panics sampleEnv fullGuest.mem := by
  refine .inr (.inr (.inr ⟨by decide, .inl ⟨rfl, by decide, ?_, by decide +kernel⟩⟩))
  decide +kernel

theorem requests_not_answered : ¬Sandboxed sampleEnv negativeSignal sampleGuest ∧
    ¬Sandboxed sampleEnv lastPath sampleGuest ∧ ¬Sandboxed sampleEnv overlongRead fullGuest :=
  ⟨not_sandboxed_of_panics negativeSignal_panics, not_sandboxed_of_panics lastPath_panics,
    not_sandboxed_of_panics overlongRead_panics⟩

def smallWrite : Registers := ⟨Sysno.write.toWord, ⟨1, 4096, 5, 0, 0, 0⟩⟩

theorem sandboxed_iff_write : Sandboxed sampleEnv smallWrite sampleGuest ∧
      (syscall sampleEnv smallWrite sampleGuest).2.handed.length = 1 := by
  refine ⟨(sandboxed_iff sampleEnv smallWrite sampleGuest ?_).mpr ?_, by decide +kernel⟩
  · unfold Registers.ManagesMemory
    decide
  · rintro (⟨hnum, -⟩ | ⟨hnum, -⟩ | ⟨hnum | hnum, -⟩ | ⟨-, ⟨hnum, -⟩ | ⟨hnum, -⟩⟩) <;> exact absurd hnum (by decide)

end Enarx.Sallyport
