import Enarx.Sallyport.KernelFootprint

/-!
# Calls that fail

Whether the memory of the caller is what it was when a call reports an error, for
any reply of the host. Some calls copy from the block before they look at the
result.
-/
namespace Enarx.Sallyport

open Libc

def errorOf : Except Errno α → Option Errno
  | .ok _ => none
  | .error errno => some errno

def Reply.error? : Reply → Option Errno
  | .err errno => some errno
  | .word _ | .attacked => none

def Gdbcall.error? : (call : Gdbcall) → call.Collected → Option Errno
  | .flush, ret | .onSessionStart, ret | .write _, ret | .peek, ret | .read, ret => errorOf ret
  | .writeAll _, ret => Option.bind ret (errorOf (α := Nat))

def Enarxcall.error? : (call : Enarxcall) → call.Collected → Option Errno
  | .cpuid .., ret | .getSgxTargetInfo _, ret | .mmapHost .., ret | .mprotectHost .., ret
  | .munmapHost .., ret | .trimSgxPages .., ret | .balloonMemory .., ret | .getSgxQuoteSize, ret
  | .memInfo, ret => errorOf ret
  | .getSgxQuote .., ret | .getSnpVcek _, ret => Option.bind ret (errorOf (α := Nat))

def AllocCall.error? : (call : AllocCall) → call.Collected → Option Errno
  | .syscall call, ret => (call.reply ret).error?
  | .gdbcall call, ret => call.error? ret
  | .enarxcall call, ret => call.error? ret

def AllocCall.exempt (errno : Errno) : AllocCall → Set Nat
  | .syscall (.nanosleep call) =>
    if errno = EINTR then overwritesOption (fun rem => bytesOf [rem.slice.span]) call.rem else ∅
  | _ => ∅

def collectInto (mem : Mem) (log : List Access) : Mem := mem.putAll (log.filterMap Access.put?)

variable {log : List Access} {x : Nat} {call : AllocCall}

theorem mem_filterMap_put {put : Put} : put ∈ log.filterMap Access.put? ↔ .store put ∈ log := by
  rw [List.mem_filterMap]
  constructor
  · rintro ⟨access, haccess, hput⟩
    cases access with
    | fetch span => cases hput
    | store found =>
      cases hput
      exact haccess
  · intro hput
    exact ⟨_, hput, rfl⟩

theorem collectInto_outside {mem : Mem} (h : x ∉ overwritten log) : collectInto mem log x = mem x := by
  apply Mem.putAll_outside
  intro put hput
  by_contra hinside
  apply h
  refine ⟨put, mem_filterMap_put.mp hput, ?_⟩
  unfold Put.finish at hinside
  exact ⟨by simp only [Put.span]; omega, by simp only [Put.span]; omega⟩

def Fills (byte : Byte) (log : List Access) : Prop :=
  ∀ put, .store put ∈ log → ∀ stored ∈ put.bytes, stored = byte

theorem Fills.append {byte : Byte} {left right : List Access} (hleft : Fills byte left)
    (hright : Fills byte right) : Fills byte (left ++ right) := by
  intro put hput
  rcases List.mem_append.mp hput with hput | hput
  · exact hleft put hput
  · exact hright put hput

theorem Mem.write_filled {mem : Mem} {addr : Nat} {bytes : List Byte} {byte : Byte}
    (hbytes : ∀ stored ∈ bytes, stored = byte) (hx : addr ≤ x) (hx' : x < addr + bytes.length) :
    mem.write addr bytes x = byte := by
  obtain ⟨i, rfl⟩ := Nat.exists_eq_add_of_le hx
  rw [Mem.write_inside mem (by omega)]
  exact hbytes _ (List.getElem_mem _)

theorem putAll_filled {puts : List Put} {byte : Byte}
    (hfills : ∀ put ∈ puts, ∀ stored ∈ put.bytes, stored = byte) (mem : Mem)
    (hx : mem x = byte ∨ ∃ put ∈ puts, put.span.Contains x) : mem.putAll puts x = byte := by
  induction puts generalizing mem with
  | nil =>
    rcases hx with hx | ⟨put, hput, _⟩
    · exact hx
    · cases hput
  | cons put puts ih =>
    rw [Mem.putAll_cons]
    apply ih (fun put hput => hfills put (List.mem_cons_of_mem _ hput))
    by_cases hinside : put.ptr ≤ x ∧ x < put.ptr + put.bytes.length
    · exact .inl (Mem.write_filled (hfills put List.mem_cons_self) hinside.1 hinside.2)
    · rw [Mem.write_outside mem (by omega)]
      refine hx.imp_right ?_
      rintro ⟨found, hfound, hcontains⟩
      rcases List.mem_cons.mp hfound with rfl | hfound
      · exact absurd hcontains hinside
      · exact ⟨found, hfound, hcontains⟩

theorem collectInto_filled {mem : Mem} {byte : Byte} (hfills : Fills byte log)
    (hx : x ∈ overwritten log) : collectInto mem log x = byte := by
  obtain ⟨put, hput, hcontains⟩ := hx
  apply putAll_filled (fun put hput => hfills put (mem_filterMap_put.mp hput))
  exact .inr ⟨put, mem_filterMap_put.mpr hput, hcontains⟩

def Syscall.CleanOnError : Syscall → Prop
  -- the address is copied whatever the result
  | .accept call => call.addr = none
  | .accept4 call => call.addr = none
  | .getsockname _ => False
  -- and so is the argument
  | .allocIoctl call => ∀ argp ∈ call.ioctl.argp, argp.len = 0
  | _ => True

def AllocCall.CleanOnError : AllocCall → Prop
  | .syscall call => call.CleanOnError
  | .gdbcall _ | .enarxcall _ => True

theorem Reply.error?_ofOption (toWord : α → Word) (ret : Option (Except Errno α)) :
    (Reply.ofOption toWord ret).error? = ret.bind errorOf := by
  rcases ret with _ | _ | _ <;> rfl

theorem Reply.error?_ofUnit (ret : Except Errno Unit) : (Reply.ofUnit ret).error? = errorOf ret := by
  cases ret <;> rfl

section

variable {T : Layout} {block : Mem} {errno : Errno}

theorem overwritten_collectCount_error [Count ρ] {buf : Output T} {ret : Except Errno ρ}
    (h : ((collectCount buf ret).result block).bind errorOf = some errno) :
    overwritten ((collectCount buf ret).log block) = ∅ := by
  cases ret with
  | error errno => exact overwritten_nil
  | ok value =>
    by_cases hlt : buf.val.len < Count.count value
    · rw [collectCount_large hlt]
      exact overwritten_nil
    · rw [collectCount_ok hlt] at h
      cases h

theorem overwritten_collectOk_error {res : Output T} {ret : Except Errno ρ}
    (h : errorOf ((collectOk res ret).result block) = some errno) :
    overwritten ((collectOk res ret).log block) = ∅ := by
  cases ret with
  | error errno => exact overwritten_nil
  | ok value => cases h

theorem ClockGetres.overwritten_error {res : Option (Output timespec)} {ret : Except Errno Unit}
    (h : (Reply.ofUnit ((ClockGetres.collect res ret).result block)).error? = some errno) :
    overwritten ((ClockGetres.collect res ret).log block) = ∅ := by
  cases ret with
  | error errno => exact overwritten_nil
  | ok value => cases h

theorem Readv.overwritten_error {staged : StagedReadv} {ret : Except Errno Nat}
    (h : (Reply.ofOption usize ((Readv.collect staged ret).result block)).error? = some errno) :
    overwritten ((Readv.collect staged ret).log block) = ∅ := by
  cases ret with
  | error errno => exact overwritten_nil
  | ok count =>
    unfold Readv.collect at h ⊢
    dsimp only at h ⊢
    split at h
    · next hcount =>
      rw [if_pos hcount]
      exact overwritten_nil
    · cases h

theorem Recvfrom.overwritten_error {committed : CommittedRecvfrom} {ret : Except Errno Nat}
    (h : (Reply.ofOption usize ((Recvfrom.collect committed ret).result block)).error? = some errno) :
    overwritten ((Recvfrom.collect committed ret).log block) = ∅ := by
  cases ret with
  | error errno => exact overwritten_nil
  | ok count =>
    unfold Recvfrom.collect at h ⊢
    dsimp only at h ⊢
    split at h
    · next hcount =>
      rw [dif_pos hcount]
      exact overwritten_nil
    · cases h

theorem Nanosleep.overwritten_error {rem : Option (Output timespec)} {ret : Except Errno Unit}
    (h : (Reply.ofUnit ((Nanosleep.collect rem ret).result block)).error? = some errno) :
    overwritten ((Nanosleep.collect rem ret).log block) =
      if errno = EINTR then overwritten ((collectOption Output.collect rem).log block) else ∅ := by
  rw [Nanosleep.result_collect] at h
  cases ret with
  | ok value => cases h
  | error found =>
    cases h
    unfold Nanosleep.collect
    dsimp only
    split
    · exact overwritten_collect_pure _ _ block
    · exact overwritten_nil

end

section

variable {mem reply : Mem} {ret : Word} {errno : Errno}

theorem Syscall.overwritten_of_error {call : Syscall} {staged : call.Staged}
    (hholds : List.Forall₂ Seg.Holds (call.segs staged) call.buffers)
    (herror : (call.reply ((call.collected staged mem ret).result
      reply)).error? = some errno) (hclean : call.CleanOnError) :
    overwritten ((call.collected staged mem ret).log reply) = AllocCall.exempt errno (.syscall call) := by
  cases call with
  | accept call | accept4 call =>
    rw [buffers, hclean] at hholds
    have hnone : staged = none := by
      rcases staged with _ | staged
      · rfl
      · cases hholds
    rw [hnone]
    exact overwritten_nil
  | getsockname call => exact hclean.elim
  | allocIoctl call =>
    refine (overwritten_collect_pure _ _ reply).trans
      ((overwritten_collectOption hholds (fun _ => List.cons_ne_nil _ _)
        (fun _ => List.cons_ne_nil _ _) fun argp slice _ _ hsegs =>
        InOut.overwritten_of_holds (List.forall₂_cons.mp hsegs).1 mem reply).trans ?_)
    rcases hargp : call.ioctl.argp with _ | argp
    · rfl
    · ext x
      have hempty := hclean argp hargp
      simp only [overwritesOption, mem_bytesOf_singleton, Slice.span, hempty, Nat.mul_zero]
      exact iff_of_false (by omega) (Set.notMem_empty x)
  | nanosleep call =>
    refine (Nanosleep.overwritten_error herror).trans ?_
    unfold AllocCall.exempt
    split
    · exact overwritten_collectOption (List.forall₂_cons.mp hholds).2 (fun _ => List.cons_ne_nil _ _)
        (fun _ => List.cons_ne_nil _ _)
        fun rem slice _ _ hsegs => InOut.overwritten_of_holds (List.forall₂_cons.mp hsegs).1 mem reply
    · rfl
  | clockGetres call => exact ClockGetres.overwritten_error herror
  | clockGettime call =>
    exact overwritten_collectOk_error ((Reply.error?_ofUnit _).symm.trans herror)
  | epollPwait call | epollWait call | poll call =>
    exact overwritten_collectCount_error ((Reply.error?_ofOption intAsUsize _).symm.trans herror)
  | read call | recv call =>
    exact overwritten_collectCount_error ((Reply.error?_ofOption usize _).symm.trans herror)
  | readv call => exact Readv.overwritten_error herror
  | recvfrom call => exact Recvfrom.overwritten_error herror
  | send call => exact overwritten_checkCount _ _ _
  | write call => exact overwritten_checkCount _ _ _
  | writev call => exact overwritten_checkCount _ _ _
  | sendto call => exact overwritten_checkCount _ _ _
  | _ => exact overwritten_nil

theorem AllocCall.overwritten_of_error {call : AllocCall} {staged : call.Staged}
    (hholds : List.Forall₂ Seg.Holds (call.segs staged) call.spec.buffers)
    (herror : call.error? ((call.collect ((call.commit staged).result mem) ret).result reply) =
      some errno) (hclean : call.CleanOnError) :
    overwritten ((call.collect ((call.commit staged).result mem) ret).log reply) = call.exempt errno := by
  rcases call with call | call | call
  · exact Syscall.overwritten_of_error hholds herror hclean
  · cases call with
    | writeAll buf => exact overwritten_checkCount _ _ _
    | _ => exact overwritten_nil
  · cases call with
    | cpuid | getSgxTargetInfo => exact overwritten_collectOk_error herror
    | getSgxQuote | getSnpVcek => exact overwritten_collectCount_error herror
    | _ => exact overwritten_nil

end

/-- A reply with an error in the return word at `ptr` and the same byte everywhere else. -/
def errorReply (ptr : Nat) (byte : Byte) : Mem := fun x =>
  if ptr ≤ x ∧ x < ptr + 8 then 0xff else byte

section

variable {ptr : Nat} {byte : Byte} {len addr : Nat} {output : Output T}

theorem wordOfBytes_errorReply (hlen : 8 ≤ len) :
    wordOfBytes (((errorReply ptr byte).read ptr len).take 8) = BitVec.allOnes 64 := by
  have hread : (errorReply ptr byte).read ptr 8 = List.replicate 8 0xff := by
    apply List.ext_getElem (by simp)
    intro i hi _
    rw [Mem.length_read] at hi
    rw [Mem.getElem_read, List.getElem_replicate]
    exact if_pos (by omega)
  rw [Mem.take_read _ _ hlen, hread]
  decide

theorem fills_read (h : ptr + 8 ≤ addr) : ∀ stored ∈ (errorReply ptr byte).read addr len, stored = byte := by
  intro stored hstored
  obtain ⟨i, hi, rfl⟩ := List.mem_iff_getElem.mp hstored
  rw [Mem.getElem_read]
  exact if_neg (by omega)

theorem fills_copyTo (h : ptr + 8 ≤ addr) (dst : Span) :
    Fills byte ((copyTo addr dst).log (errorReply ptr byte)) := by
  have hlog : (copyTo addr dst).log (errorReply ptr byte) =
      [.fetch ⟨addr, dst.len⟩, .store ⟨dst.addr, (errorReply ptr byte).read addr dst.len⟩] := rfl
  intro put hput
  rw [hlog] at hput
  rcases List.mem_cons.mp hput with hput | hput
  · cases hput
  · cases List.mem_singleton.mp hput
    exact fills_read h

theorem Output.fills_collect (h : ptr + 8 ≤ output.dataRef.ptr) :
    Fills byte (output.collect.log (errorReply ptr byte)) := fills_copyTo h _

theorem Output.fills_collectRange (h : ptr + 8 ≤ output.dataRef.ptr)
    {count : Nat} (hcount : count ≤ output.val.len) :
    Fills byte ((output.collectRange count hcount).log (errorReply ptr byte)) := by
  have hnil : Fills byte [] := by
    intro put hput
    cases hput
  exact (fills_copyTo h _).append hnil

theorem StagedSockaddrOutput.collects_first (byte : Byte) {staged : StagedSockaddrOutput}
    {output : SockaddrOutput} (hholds : List.Forall₂ Seg.Holds staged.segs output.buffers)
    (hptr : ∀ seg ∈ staged.segs, ptr + 8 ≤ seg.ptr) (mem : Mem) :
    Fills byte ((staged.commit.result mem).collect.log (errorReply ptr byte)) ∧
      output.addrlen.addr ∈ overwritten ((staged.commit.result mem).collect.log (errorReply ptr byte)) := by
  have haddr : ptr + 8 ≤ staged.addr.dataRef.ptr := hptr staged.addr.seg (by simp [segs])
  have haddrlen : ptr + 8 ≤ staged.addrlen.dataRef.ptr := hptr staged.addrlen.seg (by simp [segs])
  have hlen := (List.forall₂_cons.mp (List.forall₂_cons.mp hholds).2).1
  have hlog : (staged.commit.result mem).collect.log (errorReply ptr byte) =
      (Output.collect ⟨staged.addrlen.val, staged.addrlen.dataRef⟩).log (errorReply ptr byte) ++
        (staged.addr.collectRange (min staged.addr.val.len
          (leNat ((errorReply ptr byte).read staged.addrlen.dataRef.ptr
            staged.addrlen.val.span.len))) (Nat.min_le_left _ _)).log (errorReply ptr byte) := rfl
  have hwritten : overwritten
      ((Output.collect ⟨staged.addrlen.val, staged.addrlen.dataRef⟩).log (errorReply ptr byte)) =
        bytesOf [output.addrlen.slice.span] := InOut.overwritten_of_holds hlen mem _
  rw [hlog, overwritten_append, hwritten]
  refine ⟨(Output.fills_collect haddrlen).append (Output.fills_collectRange haddr _), .inl ?_⟩
  rw [mem_bytesOf_singleton]
  exact ⟨le_rfl, Nat.lt_add_of_pos_right (show 0 < 4 by decide)⟩

theorem Fills.log_pure_bind {run : CollectM α} {f : α → β} {block : Mem}
    (h : Fills byte (run.log block)) : Fills byte ((run >>= fun value => pure (f value)).log block) := by
  rw [Trace.log_bind, Trace.log_pure, List.append_nil]
  exact h

theorem Syscall.collects_first {call : Syscall} {staged : call.Staged}
    (hholds : List.Forall₂ Seg.Holds (call.segs staged) call.buffers)
    (hptr : ∀ seg ∈ call.segs staged, ptr + 8 ≤ seg.ptr) (h : ¬call.CleanOnError) (mem : Mem) : ∃ x, ∀ byte,
      Fills byte ((call.collected staged mem (BitVec.allOnes 64)).log
        (errorReply ptr byte)) ∧
      x ∈ overwritten ((call.collected staged mem (BitVec.allOnes 64)).log
        (errorReply ptr byte)) ∧
      (call.reply ((call.collected staged mem (BitVec.allOnes 64)).result
        (errorReply ptr byte))).error? = some 1 := by
  cases call with
  | accept call | accept4 call =>
    rcases hcall : call.addr with _ | output
    · exact absurd hcall h
    · rcases staged with _ | staged
      · rw [buffers, hcall] at hholds
        cases hholds
      · refine ⟨output.addrlen.addr, fun byte => ?_⟩
        rw [buffers, hcall] at hholds
        obtain ⟨hfills, hx⟩ := StagedSockaddrOutput.collects_first byte hholds hptr mem
        refine ⟨Fills.log_pure_bind (Fills.log_pure_bind hfills), ?_, rfl⟩
        exact ((overwritten_collect_pure _ _ _).trans (overwritten_collect_pure _ _ _)).symm ▸ hx
  | getsockname call =>
    refine ⟨call.addr.addrlen.addr, fun byte => ?_⟩
    obtain ⟨hfills, hx⟩ := StagedSockaddrOutput.collects_first byte hholds hptr mem
    exact ⟨Fills.log_pure_bind hfills, (overwritten_collect_pure _ _ _).symm ▸ hx, rfl⟩
  | allocIoctl call =>
    rcases hcall : call.ioctl.argp with _ | argp
    · exact absurd (fun argp hargp => by rw [hcall] at hargp; cases hargp) h
    · rcases staged with _ | staged
      · rw [buffers, hcall] at hholds
        cases hholds
      · have hlen : argp.len ≠ 0 := by
          intro hlen
          apply h
          intro found hfound
          rw [hcall] at hfound
          cases hfound
          exact hlen
        rw [buffers, hcall] at hholds
        refine ⟨argp.addr, fun byte => ?_⟩
        have hfills : Fills byte ((staged.commit.result mem).collect.log (errorReply ptr byte)) :=
          Output.fills_collect (hptr _ List.mem_cons_self)
        have hx : argp.addr ∈
            overwritten ((staged.commit.result mem).collect.log (errorReply ptr byte)) := by
          rw [InOut.overwritten_of_holds (List.forall₂_cons.mp hholds).1, mem_bytesOf_singleton]
          have hsize : argp.span.len = 1 * argp.len := rfl
          exact ⟨le_rfl, Nat.lt_add_of_pos_right (by omega)⟩
        refine ⟨Fills.log_pure_bind (Fills.log_pure_bind hfills), ?_, rfl⟩
        exact ((overwritten_collect_pure _ _ _).trans (overwritten_collect_pure _ _ _)).symm ▸ hx
  | _ => exact absurd trivial h

end

/-- An error of the host that the caller is told leaves its memory alone. -/
def StagedCall.Spares {call : AllocCall} (staged : StagedCall call) (mem : Mem) : Prop :=
  ∀ reply errno, call.error? ((staged.commit.result mem).collect.result reply) = some errno →
    ∀ x ∉ call.exempt errno, collectInto mem ((staged.commit.result mem).collect.log reply) x = mem x

theorem CommittedAlloc.collectInto_collect (self : CommittedAlloc call) (mem block : Mem) :
    collectInto mem (self.collect.log block) = collectInto mem ((call.collect self.committed
        (wordOfBytes ((block.read self.retRef.ptr (8 * call.kind.rets)).take 8))).log block) :=
  rfl

theorem Syscall.exempt_of_dirty {call : Syscall} (h : ¬call.CleanOnError) (errno : Errno) :
    AllocCall.exempt errno (.syscall call) = ∅ := by
  cases call with
  | nanosleep call => exact absurd trivial h
  | _ => rfl

theorem StagedCall.spares_iff {staged : StagedCall call} {start : Nat}
    (hlaid : Leaf.Laid ⟨call, staged⟩ start) (mem : Mem) : staged.Spares mem ↔ call.CleanOnError := by
  have hcommitted : (staged.commit.result mem).committed =
      (call.commit staged.staged.staged).result mem := rfl
  have hretRef : (staged.commit.result mem).retRef = staged.staged.retRef := rfl
  constructor
  · intro hspares
    by_contra hdirty
    rcases call with call | call | call
    · have hptr : ∀ seg ∈ call.segs staged.staged.staged, staged.staged.retRef.ptr + 8 ≤ seg.ptr := by
        intro seg hseg
        have hseg' := (hlaid.mem_bounds hseg).1
        have hret := hlaid.ret_ptr
        simp only [Leaf.dataStart, ItemKind.usizeCount] at hseg' hret
        have hrets : (AllocCall.syscall call).kind.rets = 2 := rfl
        omega
      obtain ⟨x, hx⟩ := Syscall.collects_first hlaid.holds hptr hdirty mem
      -- the byte is not the one in memory
      obtain ⟨byte, hbyte⟩ : ∃ byte : Byte, byte ≠ mem x := by
        by_cases hzero : mem x = 0
        · exact ⟨1, by rw [hzero]; decide⟩
        · exact ⟨0, fun h => hzero h.symm⟩
      obtain ⟨hfills, hwritten, herror⟩ := hx byte
      have hrets : 8 * (AllocCall.syscall call).kind.rets = 16 := rfl
      have hkeeps := hspares (errorReply staged.staged.retRef.ptr byte) 1
      rw [CommittedAlloc.result_collect, CommittedAlloc.collectInto_collect, hcommitted, hretRef,
        hrets, wordOfBytes_errorReply (by decide), Syscall.exempt_of_dirty hdirty] at hkeeps
      have hkeep := hkeeps herror x (Set.notMem_empty x)
      exact hbyte ((collectInto_filled hfills hwritten).symm.trans hkeep)
    · exact hdirty trivial
    · exact hdirty trivial
  · intro hclean reply errno herror x hx
    apply collectInto_outside
    rw [CommittedAlloc.result_collect, hcommitted] at herror
    rw [CommittedAlloc.overwritten_collect, hcommitted,
      AllocCall.overwritten_of_error hlaid.holds herror hclean]
    exact hx

def Stub.CleanOnError : Stub → Prop
  -- what was filled before the random number generator ran dry stays
  | .getrandom buf flags =>
    flags &&& ~~~(GRND_NONBLOCK ||| GRND_RANDOM) ≠ 0 ∨ flags &&& GRND_NONBLOCK = 0 ∨ buf.len ≤ 8
  | _ => True

def Stub.Spares (call : Stub) (mem : Mem) : Prop :=
  ∀ rng reply errno, (call.reply ((call.collect rng mem).result reply)).error? = some errno →
    ∀ x, collectInto mem ((call.collect rng mem).log reply) x = mem x

section

variable {rng : Rdrand} {buf : Slice .u8} {flags : BitVec 32} {block : Mem}

theorem Getrandom.loop_blocks (h : flags &&& GRND_NONBLOCK = 0) (chunks i attempt : Nat) :
    ∃ count, (Getrandom.loop rng buf flags chunks i attempt).result block = .ok count := by
  induction chunks generalizing i attempt with
  | zero => exact ⟨_, rfl⟩
  | succ chunks ih =>
    rw [Getrandom.loop]
    split
    · exact ih _ _
    · split
      · next hflags => exact absurd h hflags
      · split
        · exact ⟨_, rfl⟩
        · exact ih _ _

theorem Getrandom.loop_one {errno : Errno} {chunks : Nat} (hchunks : chunks ≤ 1)
    (h : (Getrandom.loop rng buf flags chunks 0 0).result block = .error errno) :
    (Getrandom.loop rng buf flags chunks 0 0).log block = [] := by
  rcases chunks with _ | _ | chunks
  · rfl
  · rw [Getrandom.loop] at h ⊢
    split at h
    · cases h
    · next hstep =>
      rw [if_neg hstep]
      split at h
      · next hflags => rw [if_pos hflags]; rfl
      · split at h <;> cases h
  · omega

theorem Getrandom.log_of_error {errno : Errno} (hclean : (Stub.getrandom buf flags).CleanOnError)
    (h : (Getrandom.collect rng buf flags).result block = .error errno) :
    (Getrandom.collect rng buf flags).log block = [] := by
  unfold Getrandom.collect at h ⊢
  split at h
  · next hinvalid =>
    rw [if_pos hinvalid]
    rfl
  · next hvalid =>
    rw [if_neg hvalid]
    rcases hclean with hinvalid | hblocks | hlen
    · exact absurd hinvalid hvalid
    · obtain ⟨count, hcount⟩ :=
        Getrandom.loop_blocks hblocks ((buf.len + 7) / 8) 0 0
      rw [hcount] at h
      cases h
    · exact Getrandom.loop_one (by omega) h

end

def Rdrand.once (word : Word) : Rdrand where
  step attempt := if attempt = 1 then none else some word
  live attempt := ⟨attempt + 2, by omega, by rw [if_neg (by omega)]; rfl⟩

theorem Getrandom.loop_once (word : Word) (buf : Slice .u8) {flags : BitVec 32}
    (hflags : flags &&& GRND_NONBLOCK ≠ 0) (chunks : Nat) :
    Getrandom.loop (.once word) buf flags (chunks + 2) 0 0 = (do
      storeTo buf.addr ((wordBytes word).take buf.len)
      pure (.error EAGAIN)) := by
  have hfirst : ((Rdrand.once word).step 0).isSome = true := rfl
  have hsecond : ¬((Rdrand.once word).step 1).isSome = true := by
    rw [show (Rdrand.once word).step 1 = none from rfl]
    decide
  have hrest : Getrandom.loop (.once word) buf flags (chunks + 1) 1 1 = pure (.error EAGAIN) := by
    rw [Getrandom.loop, if_neg hsecond, if_pos hflags]
  rw [Getrandom.loop, if_pos hfirst]
  change (do
    storeTo buf.addr ((wordBytes ((Rdrand.once word).value 0)).take buf.len)
    Getrandom.loop (.once word) buf flags (chunks + 1) 1 1) = _
  rw [hrest]
  rfl

theorem exists_wordBytes_ne (stored : Byte) :
    ∃ (word : Word) (byte : Byte), (∀ b ∈ wordBytes word, b = byte) ∧ byte ≠ stored := by
  by_cases hzero : stored = 0
  · exact ⟨BitVec.allOnes 64, 0xff, by decide, by rw [hzero]; decide⟩
  · exact ⟨0, 0, by decide, fun h => hzero h.symm⟩

theorem Getrandom.not_spares {buf : Slice .u8} {flags : BitVec 32}
    (h : ¬(Stub.getrandom buf flags).CleanOnError) (mem : Mem) : ¬(Stub.getrandom buf flags).Spares mem := by
  intro hspares
  obtain ⟨hvalid, hrest⟩ := not_or.mp h
  obtain ⟨hflags, hlen⟩ := not_or.mp hrest
  obtain ⟨word, byte, hword, hbyte⟩ := exists_wordBytes_ne (mem buf.addr)
  obtain ⟨chunks, hchunks⟩ : ∃ chunks, (buf.len + 7) / 8 = chunks + 2 :=
    ⟨(buf.len + 7) / 8 - 2, by omega⟩
  have hcollect : Getrandom.collect (.once word) buf flags = (do
      storeTo buf.addr ((wordBytes word).take buf.len)
      pure (.error EAGAIN)) := by
    rw [Getrandom.collect, if_neg hvalid, hchunks, Getrandom.loop_once word buf hflags]
  have hkeep := hspares (.once word) (fun _ => 0) EAGAIN
  change (Reply.ofExcept usize ((Getrandom.collect (.once word) buf flags).result _)).error? = _ →
    ∀ x, collectInto mem ((Getrandom.collect (.once word) buf flags).log _) x = mem x at hkeep
  rw [hcollect] at hkeep
  have hfilled : mem.write buf.addr ((wordBytes word).take buf.len) buf.addr = byte := by
    apply Mem.write_filled (fun b hb => hword b (List.mem_of_mem_take hb)) le_rfl
    rw [List.length_take, length_wordBytes]
    omega
  exact hbyte (hfilled.symm.trans (hkeep rfl buf.addr))

theorem Stub.spares_iff (call : Stub) (mem : Mem) : call.Spares mem ↔ call.CleanOnError := by
  cases call with
  | getrandom buf flags =>
    refine ⟨fun h => not_not.mp fun hdirty => Getrandom.not_spares hdirty mem h, ?_⟩
    intro hclean rng reply errno herror x
    change (Reply.ofExcept usize ((Getrandom.collect rng buf flags).result reply)).error? = _ at herror
    change collectInto mem ((Getrandom.collect rng buf flags).log reply) x = mem x
    rcases hresult : (Getrandom.collect rng buf flags).result reply with found | count
    · rw [Getrandom.log_of_error hclean hresult]
      rfl
    · rw [hresult] at herror
      cases herror
  | fstat fd statbuf =>
    refine iff_of_true (fun rng reply errno herror x => ?_) trivial
    change (Reply.ofUnit ((Fstat.collect fd statbuf).result reply)).error? = _ at herror
    change collectInto mem ((Fstat.collect fd statbuf).log reply) x = mem x
    unfold Fstat.collect at herror ⊢
    split at herror
    · cases herror
    · next hfd =>
      rw [if_neg hfd]
      rfl
  | readlink pathname buf =>
    refine iff_of_true (fun rng reply errno herror x => ?_) trivial
    change (Reply.ofOption usize ((Readlink.collect mem pathname buf).result reply)).error? = _
      at herror
    change collectInto mem ((Readlink.collect mem pathname buf).log reply) x = mem x
    unfold Readlink.collect at herror ⊢
    split at herror
    · next hpath =>
      rw [if_pos hpath]
      dsimp only at herror ⊢
      split at herror
      · next hlen =>
        rw [if_pos hlen]
        rfl
      · cases herror
    · next hpath =>
      rw [if_neg hpath]
      rfl
  | _ => exact iff_of_true nofun trivial

namespace Call

def error? : (call : Call) → call.Collected → Option Errno
  | .alloc call, ret => call.error? ret
  | .maybeAlloc _, ret => errorOf ret
  | .stub call, ret => (call.reply ret).error?
  | .pair .., _ => none

def exempt (errno : Errno) : Call → Set Nat
  | .alloc call => call.exempt errno
  | _ => ∅

/-- Whatever the host replies, the memory of the caller is as before when the call fails. Of
a tuple each call is collected on its own. -/
def Spares (mem : Mem) : (call : Call) → call.Staged → Prop
  | .pair a b, (stagedA, stagedB) => a.Spares mem stagedA ∧ b.Spares mem stagedB
  | call, staged => ∀ rng reply errno,
    call.error? ((call.collect rng mem ((call.commit staged).result mem)).result reply) =
        some errno →
      ∀ x ∉ call.exempt errno,
        collectInto mem ((call.collect rng mem ((call.commit staged).result mem)).log reply) x = mem x

def stubs : Call → List Stub
  | .alloc _ | .maybeAlloc _ => []
  | .stub call => [call]
  | .pair a b => a.stubs ++ b.stubs

theorem spares_alloc {call : AllocCall} (staged : StagedCall call) (mem : Mem) :
    (Call.alloc call).Spares mem staged ↔ staged.Spares mem :=
  ⟨fun h => h default, fun h _ => h⟩

theorem spares_maybeAlloc {call : MaybeAlloc} (staged : StagedCall (.syscall call.toAlloc))
    (mem : Mem) : (Call.maybeAlloc call).Spares mem (.inl staged) ↔ staged.Spares mem := by
  have hexempt : ∀ errno, AllocCall.exempt errno (.syscall call.toAlloc) = ∅ := by
    intro errno
    cases call <;> rfl
  have herror : ∀ reply,
      AllocCall.error? (.syscall call.toAlloc) ((staged.commit.result mem).collect.result reply) =
        errorOf (call.collected ((staged.commit.result mem).collect.result reply)) := by
    intro reply
    have hreply := call.reply_collected ((staged.commit.result mem).collect.result reply)
    rw [AllocCall.error?, hreply]
    cases call.collected ((staged.commit.result mem).collect.result reply) <;> rfl
  have hlog : ∀ rng reply, ((Call.maybeAlloc call).collect rng mem
      (((Call.maybeAlloc call).commit (.inl staged)).result mem)).log reply =
        (staged.commit.result mem).collect.log reply :=
    fun _ _ => List.append_nil _
  unfold StagedCall.Spares
  simp only [hexempt, herror]
  constructor
  · intro h reply errno hreply x hx
    rw [← hlog default reply]
    exact h default reply errno hreply x hx
  · intro h rng reply errno hreply x hx
    rw [hlog rng reply]
    exact h reply errno hreply x hx

theorem spares_stub (call : Stub) (mem : Mem) (staged : (Call.stub call).Staged) :
    (Call.stub call).Spares mem staged ↔ call.Spares mem :=
  ⟨fun h rng reply errno herror x => h rng reply errno herror x (Set.notMem_empty x),
    fun h rng reply errno herror x _ => h rng reply errno herror x⟩

theorem spares_iff {call : Call} {staged : call.Staged} (mem : Mem)
    (hlaid : ∀ leaf ∈ call.leaves staged, ∃ start, leaf.Laid start) : call.Spares mem staged ↔
      (∀ leaf ∈ call.leaves staged, leaf.call.CleanOnError) ∧
        ∀ stub ∈ call.stubs, stub.CleanOnError := by
  induction call with
  | alloc call =>
    obtain ⟨start, hstart⟩ := hlaid ⟨call, staged⟩ List.mem_cons_self
    apply ((spares_alloc staged mem).trans (StagedCall.spares_iff hstart mem)).trans
    simp [leaves, stubs]
  | maybeAlloc call =>
    cases staged with
    | inl staged =>
      obtain ⟨start, hstart⟩ := hlaid ⟨.syscall call.toAlloc, staged⟩ List.mem_cons_self
      apply ((spares_maybeAlloc staged mem).trans (StagedCall.spares_iff hstart mem)).trans
      simp [leaves, stubs]
    | inr val =>
      refine iff_of_true (fun rng reply errno herror x hx => rfl) ?_
      simp [leaves, stubs]
  | stub call =>
    apply ((spares_stub call mem staged).trans (Stub.spares_iff call mem)).trans
    simp [leaves, stubs]
  | pair a b iha ihb =>
    obtain ⟨stagedA, stagedB⟩ := staged
    have ha := iha fun leaf hleaf => hlaid leaf (List.mem_append_left _ hleaf)
    have hb := ihb fun leaf hleaf => hlaid leaf (List.mem_append_right _ hleaf)
    change a.Spares mem stagedA ∧ b.Spares mem stagedB ↔
      (∀ leaf ∈ a.leaves stagedA ++ b.leaves stagedB, _) ∧ ∀ stub ∈ a.stubs ++ b.stubs, _
    simp only [ha, hb, List.mem_append, or_imp, forall_and]
    exact and_and_and_comm

end Call

/-- A failed call leaves the memory of the caller alone exactly when none of its calls copies
out of the block before it looks at the result. -/
theorem failed_call_spares_iff {buf : BlockBuf} {mem : Mem} {call : Call} {request : Request call}
    (hrequest : call.request buf mem = .ok request) : call.Spares mem request.staged ↔
      (∀ alloc ∈ call.allocated mem, alloc.CleanOnError) ∧
        ∀ stub ∈ call.stubs, stub.CleanOnError := by
  obtain ⟨hcalls, hlaidOut, -, -⟩ := Call.request_ok hrequest
  rw [Call.spares_iff mem fun leaf hleaf => ?_, ← hcalls, List.forall_mem_map]
  obtain ⟨start, hstart, -, -⟩ := hlaidOut.mem_laid hleaf
  exact ⟨start, hstart⟩

def acceptCall : Call := .alloc (.syscall (.accept4 ⟨3, some ⟨⟨512, 16⟩, ⟨600⟩⟩, 0⟩))

def acceptMem : Mem := Mem.write (fun _ => 0) 600 [16, 0, 0, 0]

def staleReply : Mem := Mem.write (fun _ => 0xaa) (4096 + 72) (wordBytes (BitVec.ofInt 64 (-11)))

/-- What an earlier call left in the block ends up in the address buffer. -/
theorem failed_accept_overwrites :
    ∃ request, Call.request ⟨4096, 64, by decide, by decide⟩ acceptMem acceptCall = .ok request ∧
      acceptCall.error? ((acceptCall.collect default acceptMem
        ((acceptCall.commit request.staged).result acceptMem)).result staleReply) = some EAGAIN ∧
      collectInto acceptMem ((acceptCall.collect default acceptMem
        ((acceptCall.commit request.staged).result acceptMem)).log staleReply) 512 = 0xaa ∧
      acceptMem 512 = 0 := by
  have hrun : ((Call.request ⟨4096, 64, by decide, by decide⟩ acceptMem acceptCall).map fun request =>
      let collected := acceptCall.collect default acceptMem
        ((acceptCall.commit request.staged).result acceptMem)
      (acceptCall.error? (collected.result staleReply),
        collectInto acceptMem (collected.log staleReply) 512)).toOption =
          some (some EAGAIN, 0xaa) := by decide +kernel
  rcases hrequest : Call.request _ _ _ with errno | request
  · rw [hrequest] at hrun
    cases hrun
  · rw [hrequest] at hrun
    obtain ⟨herror, hbyte⟩ := Prod.mk.inj (Option.some.inj hrun)
    exact ⟨request, rfl, herror, hbyte, by decide⟩

def readCall : Call := .alloc (.syscall (.read ⟨0, ⟨512, 16⟩⟩))

theorem failed_read_spares :
    ∃ request, Call.request ⟨4096, 64, by decide, by decide⟩ acceptMem readCall = .ok request ∧
      readCall.Spares acceptMem request.staged := by
  have hok : (Call.request ⟨4096, 64, by decide, by decide⟩ acceptMem readCall).isOk = true := by
    decide +kernel
  obtain ⟨request, hrequest⟩ := Except.exists_of_isOk hok
  refine ⟨request, hrequest, (failed_call_spares_iff hrequest).mpr ⟨fun alloc halloc => ?_, nofun⟩⟩
  cases List.mem_singleton.mp halloc
  trivial

end Enarx.Sallyport
