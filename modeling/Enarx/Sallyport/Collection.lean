import Enarx.Sallyport.Encoding

/-!
# Collecting from a block the host controls

Whatever the host leaves in the block, collecting a call reads the return words
and segments that the guest allocated for it and writes the caller's buffers of
that call. A count that the host returns is checked against what was staged
before anything is copied.
-/
namespace Enarx.Sallyport

open Libc

def Access.Allowed (reads writes : List Span) : Access → Prop
  | .fetch span => span.Covered reads
  | .store put => put.span.Covered writes

def Confined (reads writes : List Span) (log : List Access) : Prop :=
  ∀ access ∈ log, access.Allowed reads writes

namespace Confined

variable {reads writes reads' writes' : List Span} {log log' : List Access}

theorem nil : Confined reads writes [] := by simp [Confined]

theorem of_nil (h : log = []) : Confined reads writes log := h ▸ nil

theorem append (h : Confined reads writes log) (h' : Confined reads writes log') :
    Confined reads writes (log ++ log') := by
  intro access haccess
  rcases List.mem_append.mp haccess with haccess | haccess
  · exact h access haccess
  · exact h' access haccess

theorem widen (h : Confined reads writes log) (hreads : ∀ span ∈ reads, span.Covered reads')
    (hwrites : ∀ span ∈ writes, span.Covered writes') : Confined reads' writes' log := by
  intro access haccess
  have hallowed := h access haccess
  cases access with
  | fetch span => exact Span.Covered.trans hallowed hreads
  | store put => exact Span.Covered.trans hallowed hwrites

theorem mono (h : Confined reads writes log) (hreads : reads ⊆ reads')
    (hwrites : writes ⊆ writes') : Confined reads' writes' log :=
  h.widen (fun _ hspan => Span.covered_of_mem (hreads hspan))
    (fun _ hspan => Span.covered_of_mem (hwrites hspan))

theorem copyTo {ptr : Nat} {dst : Span} (hread : Span.Covered ⟨ptr, dst.len⟩ reads)
    (hwrite : dst.Covered writes) (block : Mem) : Confined reads writes ((copyTo ptr dst).log block) := by
  intro access haccess
  have hlog : (Sallyport.copyTo ptr dst).log block =
      [.fetch ⟨ptr, dst.len⟩, .store ⟨dst.addr, block.read ptr dst.len⟩] := rfl
  rw [hlog, List.mem_pair] at haccess
  rcases haccess with rfl | rfl
  · exact hread
  · have hspan : Put.span ⟨dst.addr, block.read ptr dst.len⟩ = dst := by
      rw [Put.span, Mem.length_read]
    simp only [Access.Allowed, hspan]
    exact hwrite

theorem copyToIter {ptr : Nat} {spans : List Span}
    (hread : Span.Covered ⟨ptr, (spans.map Span.len).sum⟩ reads)
    (hwrite : ∀ span ∈ spans, span.Covered writes) (block : Mem) :
    Confined reads writes ((copyToIter ptr spans).log block) := by
  induction spans generalizing ptr with
  | nil => exact nil
  | cons span rest ih =>
    rw [List.map_cons, List.sum_cons] at hread
    have hfirst : Span.Covered ⟨ptr, span.len⟩ reads := by
      intro addr haddr
      exact hread addr ⟨haddr.1, by have := haddr.2; simp only at this ⊢; omega⟩
    have hlater : Span.Covered ⟨ptr + span.len, (rest.map Span.len).sum⟩ reads := by
      rintro addr ⟨hlow, hhigh⟩
      exact hread addr ⟨by simp only at hlow ⊢; omega, by simp only at hhigh ⊢; omega⟩
    refine append (copyTo hfirst (hwrite span List.mem_cons_self) block) ?_
    exact ih hlater fun later hlater => hwrite later (List.mem_cons_of_mem _ hlater)

end Confined

def Seg.span (seg : Seg) : Span := ⟨seg.ptr, seg.size⟩

theorem Output.collect_confined (output : Output T) (block : Mem) :
    Confined ([output.seg].map Seg.span) ([output.seg].flatMap Seg.dst) (output.collect.log block) := by
  apply Confined.copyTo
  · exact Span.covered_of_mem List.mem_cons_self
  · exact Span.covered_of_mem List.mem_cons_self

theorem InOut.collect_confined (inout : InOut T) (mem block : Mem) :
    Confined ([inout.seg].map Seg.span) ([inout.seg].flatMap Seg.dst)
      ((inout.commit.result mem).collect.log block) :=
  Output.collect_confined (⟨inout.val, inout.dataRef⟩ : Output T) block

def Seg.firstDst (seg : Seg) (count : Nat) : List Span := takeSpans (seg.elem.size * count) seg.dst

variable {addr count index : Nat} {segs : List Seg} {call : AllocCall}

theorem covered_takeSpans {len capacity : Nat} (h : capacity ≤ len) :
    Span.Covered ⟨addr, capacity⟩ (takeSpans capacity [⟨addr, len⟩]) := by
  rintro x ⟨hlow, hhigh⟩
  simp only at hlow hhigh
  rw [takeSpans, if_neg (by omega)]
  split
  · exact ⟨_, List.mem_cons_self, hlow, by simp only; omega⟩
  · exact ⟨_, List.mem_cons_self, hlow, hhigh⟩

theorem Output.collectRange_confined (output : Output T) (h : count ≤ output.val.len)
    (block : Mem) : Confined [output.seg.span] (output.seg.firstDst count)
      ((output.collectRange count h).log block) := by
  have hle : T.size * count ≤ T.size * output.val.len := Nat.mul_le_mul_left _ h
  apply Confined.copyToIter
  · have hwithin : Span.Within ⟨output.dataRef.ptr, T.size * count + 0⟩ output.seg.span :=
      Span.within_of_le (Nat.le_refl _) (Nat.add_le_add_left hle _)
    exact hwithin.covered List.mem_cons_self
  · intro span hspan
    cases List.mem_singleton.mp hspan
    exact covered_takeSpans hle

theorem takeSpans_covered (capacity : Nat) (spans : List Span) :
    ∀ span ∈ takeSpans capacity spans, span.Covered spans := by
  induction spans generalizing capacity with
  | nil => simp [takeSpans]
  | cons first rest ih =>
    intro span hspan
    rw [takeSpans] at hspan
    split at hspan
    · cases hspan
    · split at hspan
      · rcases List.mem_cons.mp hspan with rfl | hspan
        · exact Span.covered_of_mem List.mem_cons_self
        · exact (ih _ span hspan).trans fun other hother =>
            Span.covered_of_mem (List.mem_cons_of_mem _ hother)
      · next hlonger =>
        cases List.mem_singleton.mp hspan
        have hwithin : Span.Within ⟨first.addr, capacity⟩ first :=
          Span.within_of_le (Nat.le_refl _) (by simp only; omega)
        exact hwithin.covered List.mem_cons_self

theorem StagedSockaddrOutput.collect_confined (staged : StagedSockaddrOutput) (mem block : Mem) :
    Confined (staged.segs.map Seg.span) (staged.segs.flatMap Seg.dst)
      ((staged.commit.result mem).collect.log block) := by
  obtain ⟨addr, addrlen⟩ := staged
  have hlen := Output.collect_confined (⟨addrlen.val, addrlen.dataRef⟩ : Output socklen) block
  have haddr := addr.collectRange_confined
    (Nat.min_le_left addr.val.len (leNat (block.read addrlen.dataRef.ptr addrlen.val.span.len)))
    block
  have hlen' := hlen.mono
    (List.subset_cons_self addr.seg.span _) (List.subset_cons_self addr.val.span _)
  refine hlen'.append (haddr.widen ?_ ?_)
  · intro span hspan
    cases List.mem_singleton.mp hspan
    exact Span.covered_of_mem List.mem_cons_self
  · intro span hspan
    exact (takeSpans_covered _ _ span hspan).trans fun other hother =>
      Span.covered_of_mem (List.mem_append_left _ hother)

/-- What the caller is told, from the result of the host: `none` is an attack. -/
def checkedCount (len : Nat) : Except Errno Nat → Option (Except Errno Nat)
  | .ok count => if len < count then none else some (.ok count)
  | .error errno => some (.error errno)

def reported : Option (Except Errno Nat) → Nat
  | some (.ok count) => count
  | _ => 0

def outcomeOf [Count ρ] (collected : Option (Except Errno ρ)) : Option (Except Errno Nat) :=
  collected.map (Except.map Count.count)

theorem collectCount_outcome [Count ρ] (buf : Output T) (ret : Except Errno ρ) (block : Mem) :
    outcomeOf ((collectCount buf ret).result block) = checkedCount buf.val.len (ret.map Count.count) := by
  cases ret with
  | error errno => rfl
  | ok ret =>
    simp only [collectCount, Except.map, checkedCount]
    split <;> rfl

theorem collectCount_confined [Count ρ] (buf : Output T) (ret : Except Errno ρ) (block : Mem) :
    Confined [buf.seg.span] (buf.seg.firstDst (reported (outcomeOf ((collectCount buf ret).result block))))
      ((collectCount buf ret).log block) := by
  cases ret with
  | error errno => exact .nil
  | ok ret =>
    by_cases h : buf.val.len < Count.count ret
    · rw [collectCount_large h]
      exact .nil
    · rw [collectCount_ok h]
      exact (buf.collectRange_confined (Nat.not_lt.mp h) block).append .nil

theorem checkCount_outcome [Count ρ] (len : Nat) (ret : Except Errno ρ) (block : Mem) :
    outcomeOf ((checkCount len ret).result block) = checkedCount len (ret.map Count.count) := by
  cases ret with
  | error errno => rfl
  | ok ret =>
    simp only [checkCount, Except.map, checkedCount, Trace.result_pure]
    split <;> rfl

theorem checkCount_log [Count ρ] (len : Nat) (ret : Except Errno ρ) (block : Mem) :
    (checkCount len ret).log block = [] := by
  cases ret <;> rfl

theorem outcomeOf_nat (collected : Option (Except Errno Nat)) : outcomeOf collected = collected := by
  rcases collected with _ | _ | _ <;> rfl

theorem map_count_nat (ret : Except Errno Nat) : ret.map Count.count = ret := by
  cases ret <;> rfl

theorem collectCount_result (buf : Output T) (ret : Except Errno Nat) (block : Mem) :
    (collectCount buf ret).result block = checkedCount buf.val.len ret := by
  have h := collectCount_outcome buf ret block
  rwa [outcomeOf_nat, map_count_nat] at h

theorem checkCount_result (len : Nat) (ret : Except Errno Nat) (block : Mem) :
    (checkCount len ret).result block = checkedCount len ret := by
  have h := checkCount_outcome len ret block
  rwa [outcomeOf_nat, map_count_nat] at h

/-- What may be written: the first `count` elements of the counted segment, and the
other buffers that are copied back. -/
def writable (counted : Option Nat) (count : Nat) (segs : List Seg) : List Span :=
  segs.zipIdx.flatMap fun entry =>
    if counted = some entry.2 then entry.1.firstDst count else entry.1.dst

theorem firstDst_subset_writable {seg : Seg}
    (h : segs[index]? = some seg) : seg.firstDst count ⊆ writable (some index) count segs := by
  intro span hspan
  refine List.mem_flatMap.mpr ⟨(seg, index), List.mk_mem_zipIdx_iff_getElem?.mpr h, ?_⟩
  rw [if_pos rfl]
  exact hspan

theorem dst_subset_writable {counted : Option Nat} {seg : Seg}
    (h : segs[index]? = some seg) (hne : counted ≠ some index) : seg.dst ⊆ writable counted count segs := by
  intro span hspan
  refine List.mem_flatMap.mpr ⟨(seg, index), List.mk_mem_zipIdx_iff_getElem?.mpr h, ?_⟩
  rw [if_neg hne]
  exact hspan

theorem flatMap_dst_subset_writable (count : Nat) (segs : List Seg) :
    segs.flatMap Seg.dst ⊆ writable none count segs := by
  intro span hspan
  obtain ⟨seg, hseg, hspan⟩ := List.mem_flatMap.mp hspan
  obtain ⟨index, hindex⟩ := List.getElem?_of_mem hseg
  exact dst_subset_writable hindex (by simp) hspan

theorem Confined.uncounted {log : List Access} (h : Confined (segs.map Seg.span) (segs.flatMap Seg.dst) log) :
    Confined (segs.map Seg.span) (writable none count segs) log :=
  h.mono (List.Subset.refl _) (flatMap_dst_subset_writable count segs)

theorem collectOk_confined (res : Output T) (ret : Except Errno ρ) (block : Mem) :
    Confined ([res.seg].map Seg.span) ([res.seg].flatMap Seg.dst) ((collectOk res ret).log block) := by
  cases ret with
  | error errno => exact .nil
  | ok value => exact (Output.collect_confined res block).append .nil

theorem collectOption_confined {collect : β → CollectM γ} {commit : α → CommitM β}
    {segs : α → List Seg} {mem block : Mem}
    (h : ∀ staged, Confined ((segs staged).map Seg.span) ((segs staged).flatMap Seg.dst)
      ((collect ((commit staged).result mem)).log block)) (staged : Option α) :
    Confined ((segsOption segs staged).map Seg.span) ((segsOption segs staged).flatMap Seg.dst)
      ((collectOption collect ((commitOption commit staged).result mem)).log block) := by
  cases staged with
  | none => exact .nil
  | some staged => exact (h staged).append .nil

theorem Readv.collect_result (staged : StagedReadv) (ret : Except Errno Nat) (block : Mem) :
    (Readv.collect staged ret).result block = checkedCount staged.buf.1 ret := by
  cases ret with
  | error errno => rfl
  | ok count =>
    simp only [Readv.collect, checkedCount]
    split <;> rfl

def StagedReadv.seg (staged : StagedReadv) : Seg :=
  ⟨staged.buf.2.ptr, staged.buf.2.offset, .u8, staged.buf.1, [],
    takeSpans staged.buf.1 staged.iovs⟩

theorem Readv.collect_confined (staged : StagedReadv) (ret : Except Errno Nat) (block : Mem) :
    Confined [staged.seg.span] (staged.seg.firstDst (reported ((Readv.collect staged ret).result block)))
      ((Readv.collect staged ret).log block) := by
  cases ret with
  | error errno => exact .nil
  | ok count =>
    by_cases h : staged.buf.1 < count
    · rw [show Readv.collect staged (.ok count) = pure none from if_pos h]
      exact .nil
    · rw [show Readv.collect staged (.ok count) = (do
        copyToIter staged.buf.2.ptr (takeSpans count staged.iovs)
        return some (.ok count)) from if_neg h]
      have hfirst : staged.seg.firstDst count = takeSpans count staged.iovs := by
        simp only [Seg.firstDst, StagedReadv.seg, Layout.u8, Nat.one_mul]
        exact takeSpans_takeSpans (Nat.not_lt.mp h) _
      refine (Confined.copyToIter ?_ ?_ block).append .nil
      · have hsum := sum_takeSpans_le count staged.iovs
        have hwithin : Span.Within
            ⟨staged.buf.2.ptr, ((takeSpans count staged.iovs).map Span.len).sum⟩
            staged.seg.span := by
          refine Span.within_of_le (Nat.le_refl _) ?_
          simp only [Seg.span, Seg.size, StagedReadv.seg, Layout.u8, Nat.one_mul]
          omega
        exact hwithin.covered List.mem_cons_self
      · intro span hspan
        apply Span.covered_of_mem
        simp only [Trace.result_bind, Trace.result_pure, reported, hfirst]
        exact hspan

theorem Recvfrom.collect_result (committed : CommittedRecvfrom) (ret : Except Errno Nat) (block : Mem) :
    (Recvfrom.collect committed ret).result block = checkedCount committed.buf.val.len ret := by
  cases ret with
  | error errno => rfl
  | ok count =>
    simp only [Recvfrom.collect, checkedCount]
    split <;> rfl

theorem Recvfrom.collect_confined (staged : StagedRecvfrom) (ret : Except Errno Nat) (mem block : Mem) :
    Confined ((staged.srcAddr.segs ++ [staged.buf.seg]).map Seg.span) (writable (some 2)
        (reported ((Recvfrom.collect (staged.commit.result mem) ret).result block))
        (staged.srcAddr.segs ++ [staged.buf.seg]))
      ((Recvfrom.collect (staged.commit.result mem) ret).log block) := by
  cases ret with
  | error errno => exact .nil
  | ok count =>
    by_cases h : staged.buf.val.len < count
    · rw [show Recvfrom.collect (staged.commit.result mem) (.ok count) = pure none from dif_pos h]
      exact .nil
    · rw [show Recvfrom.collect (staged.commit.result mem) (.ok count) = (do
        staged.buf.collectRange count (Nat.not_lt.mp h)
        (staged.srcAddr.commit.result mem).collect
        return some (.ok count)) from dif_neg h]
      have hbuf := staged.buf.collectRange_confined (Nat.not_lt.mp h) block
      have haddr := staged.srcAddr.collect_confined mem block
      refine (hbuf.mono ?_ ?_).append ((haddr.mono ?_ ?_).append .nil)
      · simp
      · exact firstDst_subset_writable rfl
      · simp
      · intro span hspan
        obtain ⟨seg, hseg, hspan⟩ := List.mem_flatMap.mp hspan
        rcases List.mem_pair.mp hseg with rfl | rfl
        · exact dst_subset_writable (show _ = _ from rfl) (show some 2 ≠ some 0 by decide) hspan
        · exact dst_subset_writable (show _ = _ from rfl) (show some 2 ≠ some 1 by decide) hspan

namespace Syscall

def counted : Syscall → Option Nat
  | .epollPwait _ | .epollWait _ | .poll _ | .read _ | .readv _ | .recv _ | .send _ | .write _
  | .writev _ => some 0
  | .sendto _ => some 1
  | .recvfrom _ => some 2
  | _ => none

def hostCount : Syscall → Word → Except Errno Nat
  | .epollPwait _, ret | .epollWait _, ret | .poll _, ret => (decodeInt ret).map Count.count
  | _, ret => decodeSize ret

def outcome : (call : Syscall) → call.Collected → Option (Except Errno Nat)
  | .epollPwait _, collected | .epollWait _, collected | .poll _, collected =>
    outcomeOf (ρ := CInt) collected
  | .read _, collected | .readv _, collected | .recv _, collected | .recvfrom _, collected
  | .send _, collected | .sendto _, collected | .write _, collected | .writev _, collected =>
    collected
  | _, _ => some (.ok 0)

theorem collect_confined (call : Syscall) (staged : call.Staged) (mem block : Mem) (ret : Word) :
    Confined ((call.segs staged).map Seg.span) (writable call.counted
        (reported (call.outcome ((call.collected staged mem ret).result block))) (call.segs staged))
      ((call.collected staged mem ret).log block) := by
  cases call with
  | accept call | accept4 call =>
    exact ((collectOption_confined (fun staged =>
      StagedSockaddrOutput.collect_confined staged mem block) staged).append .nil).uncounted
  | clockGetres call =>
    rcases hret : decodeUnit ret with errno | _
    · simp only [collect, ClockGetres.collect, hret]
      exact .nil
    · simp only [collect, ClockGetres.collect, hret]
      exact ((collectOption_confined (fun res => Output.collect_confined res block) staged).append
        .nil).uncounted
  | clockGettime call =>
    exact (collectOk_confined staged (decodeUnit ret) block).uncounted
  | epollPwait call =>
    exact (collectCount_confined (ρ := CInt) staged.events (decodeInt ret) block).mono
      (List.cons_subset_cons _ (List.nil_subset _)) (firstDst_subset_writable rfl)
  | epollWait call =>
    exact (collectCount_confined (ρ := CInt) staged (decodeInt ret) block).mono
      (List.Subset.refl _) (firstDst_subset_writable rfl)
  | getsockname call =>
    exact ((StagedSockaddrOutput.collect_confined staged mem block).append .nil).uncounted
  | allocIoctl call =>
    exact ((collectOption_confined (fun argp => InOut.collect_confined argp mem block)
      staged).append .nil).uncounted
  | nanosleep call =>
    have hrem := collectOption_confined (fun rem => InOut.collect_confined rem mem block)
      (StagedNanosleep.rem staged)
    rcases hret : decodeUnit ret with errno | _
    · simp only [collect, Nanosleep.collect, hret]
      by_cases heintr : errno = EINTR
      · simp only [heintr, if_true]
        refine Confined.uncounted ((hrem.append .nil).mono ?_ ?_)
        · exact List.subset_cons_self _ _
        · exact List.Subset.refl _
      · simp only [heintr, if_false]
        exact .nil
    · simp only [collect, Nanosleep.collect, hret]
      exact .nil
  | poll call =>
    refine (collectCount_confined (ρ := CInt) (⟨staged.val, staged.dataRef⟩ : Output pollfd)
      (decodeInt ret) block).mono (List.Subset.refl _) ?_
    exact (firstDst_subset_writable rfl :
      (InOut.seg staged).firstDst _ ⊆ writable (some 0) _ [InOut.seg staged])
  | read call | recv call =>
    have h := collectCount_confined (ρ := Nat) staged (decodeSize ret) block
    rw [outcomeOf_nat] at h
    exact h.mono (List.Subset.refl _) (firstDst_subset_writable rfl)
  | readv call =>
    exact (Readv.collect_confined staged (decodeSize ret) block).mono
      (List.Subset.refl _) (firstDst_subset_writable rfl)
  | recvfrom call =>
    exact Recvfrom.collect_confined staged (decodeSize ret) mem block
  | send call | write call | writev call | sendto call =>
    exact .of_nil (checkCount_log (ρ := Nat) _ _ block)
  | bind call | connect call | epollCtl call | allocOpen call | setsockopt call
  | passthrough call => exact .nil

theorem collect_outcome (call : Syscall) (staged : call.Staged) (mem block : Mem) (ret : Word)
    {index : Nat} (h : call.counted = some index) :
    ∃ seg, (call.segs staged)[index]? = some seg ∧
      call.outcome ((call.collected staged mem ret).result block) =
        checkedCount seg.len (call.hostCount ret) := by
  cases call with
  | epollPwait call | epollWait call | poll call =>
    cases h
    exact ⟨_, rfl, collectCount_outcome (ρ := CInt) _ _ block⟩
  | read call | recv call =>
    cases h
    exact ⟨_, rfl, collectCount_result _ (decodeSize ret) block⟩
  | readv call =>
    cases h
    exact ⟨_, rfl, Readv.collect_result staged (decodeSize ret) block⟩
  | recvfrom call =>
    cases h
    exact ⟨_, rfl, Recvfrom.collect_result _ (decodeSize ret) block⟩
  | send call | write call | writev call | sendto call =>
    cases h
    exact ⟨_, rfl, checkCount_result _ (decodeSize ret) block⟩
  | _ => cases h

end Syscall

namespace AllocCall

def counted : AllocCall → Option Nat
  | .syscall call => call.counted
  | .gdbcall (.writeAll _) => some 0
  | .enarxcall (.getSgxQuote ..) => some 1
  | .enarxcall (.getSnpVcek _) => some 0
  | _ => none

def hostCount : AllocCall → Word → Except Errno Nat
  | .syscall call, ret => call.hostCount ret
  | _, ret => decodeSize ret

def outcome : (call : AllocCall) → call.Collected → Option (Except Errno Nat)
  | .syscall call, collected => call.outcome collected
  | .gdbcall (.writeAll _), collected => collected
  | .enarxcall (.getSgxQuote ..), collected | .enarxcall (.getSnpVcek _), collected => collected
  | _, _ => some (.ok 0)

theorem collect_confined (call : AllocCall) (staged : call.Staged) (mem block : Mem) (ret : Word) :
    Confined ((call.segs staged).map Seg.span) (writable call.counted
        (reported (call.outcome ((call.collect ((call.commit staged).result mem) ret).result block)))
        (call.segs staged)) ((call.collect ((call.commit staged).result mem) ret).log block) := by
  rcases call with call | call | call
  · exact call.collect_confined staged mem block ret
  · cases call with
    | writeAll buf => exact .of_nil (checkCount_log (ρ := Nat) _ _ block)
    | _ => exact .nil
  · cases call with
    | cpuid leaf subLeaf result => exact (collectOk_confined staged (decodeUnit ret) block).uncounted
    | getSgxTargetInfo info => exact (collectOk_confined staged (decodeUnit ret) block).uncounted
    | getSgxQuote report quote =>
      have h := collectCount_confined (ρ := Nat) (StagedGetSgxQuote.quote staged) (decodeSize ret)
        block
      rw [outcomeOf_nat] at h
      exact h.mono (List.subset_cons_self _ _) (firstDst_subset_writable rfl)
    | getSnpVcek vcek =>
      have h := collectCount_confined (ρ := Nat) staged (decodeSize ret) block
      rw [outcomeOf_nat] at h
      exact h.mono (List.Subset.refl _) (firstDst_subset_writable rfl)
    | _ => exact .nil

theorem collect_outcome (call : AllocCall) (staged : call.Staged) (mem block : Mem) (ret : Word)
    {index : Nat} (h : call.counted = some index) :
    ∃ seg, (call.segs staged)[index]? = some seg ∧
      call.outcome ((call.collect ((call.commit staged).result mem) ret).result block) =
        checkedCount seg.len (call.hostCount ret) := by
  rcases call with call | call | call
  · exact call.collect_outcome staged mem block ret h
  · cases call with
    | writeAll buf =>
      cases h
      exact ⟨_, rfl, checkCount_result _ (decodeSize ret) block⟩
    | _ => cases h
  · cases call with
    | getSgxQuote report quote =>
      cases h
      exact ⟨_, rfl, collectCount_result _ (decodeSize ret) block⟩
    | getSnpVcek vcek =>
      cases h
      exact ⟨_, rfl, collectCount_result _ (decodeSize ret) block⟩
    | _ => cases h

end AllocCall

def Stub.outputs : Stub → List Span
  | .fstat _ statbuf => [statbuf.slice.span]
  | .getrandom buf _ => [buf.span]
  | .readlink _ buf => [buf.span]
  | .uname buf => [buf.slice.span]
  | _ => []

theorem storeTo_confined {reads writes : List Span} {bytes : List Byte}
    (h : Span.Covered ⟨addr, bytes.length⟩ writes) (block : Mem) :
    Confined reads writes ((storeTo addr bytes).log block) := by
  intro access haccess
  cases List.mem_singleton.mp haccess
  exact h

theorem Getrandom.loop_confined (rng : Rdrand) (buf : Slice .u8) (flags : BitVec 32)
    (chunks i attempt : Nat) (block : Mem) :
    Confined [] [buf.span] ((Getrandom.loop rng buf flags chunks i attempt).log block) := by
  induction chunks generalizing i attempt with
  | zero => exact .nil
  | succ chunks ih =>
    have hchunk : ∀ attempt, Confined [] [buf.span]
        ((storeTo (buf.addr + 8 * i)
          ((wordBytes (rng.value attempt)).take (buf.len - 8 * i))).log block) := by
      intro attempt
      apply storeTo_confined
      rintro addr ⟨hlow, hhigh⟩
      simp only [List.length_take] at hlow hhigh
      have hsize : Layout.u8.size * buf.len = buf.len := Nat.one_mul _
      refine ⟨buf.span, List.mem_cons_self, ?_, ?_⟩
      · simp only [Slice.span]
        omega
      · simp only [Slice.span]
        omega
    simp only [Getrandom.loop]
    split
    · exact (hchunk attempt).append (ih _ _)
    · split
      · exact .nil
      · split
        · exact .nil
        · exact (hchunk (rng.retry attempt)).append (ih _ _)

theorem Uname.fill_confined {buf : Ref utsname} {field : Nat} (h : field + 65 ≤ utsname.size)
    (text : String) (block : Mem) :
    Confined [] [buf.slice.span] ((Uname.fill (buf.addr + field) text).log block) := by
  apply storeTo_confined
  have hwithin : Span.Within ⟨buf.addr + field,
      ((ascii text ++ List.replicate 65 0).take 65).length⟩ buf.slice.span := by
    refine Span.within_of_le (Nat.le_add_right _ _) ?_
    simp only [List.length_take, Ref.slice, Slice.span]
    omega
  exact hwithin.covered List.mem_cons_self

theorem Stub.collect_confined (rng : Rdrand) (mem block : Mem) (stub : Stub) :
    Confined [] stub.outputs ((stub.collect rng mem).log block) := by
  cases stub with
  | fstat fd statbuf =>
    simp only [collect, Fstat.collect]
    split
    · refine (storeTo_confined ?_ block).append .nil
      have hlen : (Fstat.stat fd).length = stat.size := by
        simp [Fstat.stat]
        rfl
      exact Span.covered_of_mem (by simp [outputs, hlen, Ref.slice, Slice.span])
    · exact .nil
  | getrandom buf flags =>
    simp only [collect, Getrandom.collect]
    split
    · exact .nil
    · exact Getrandom.loop_confined rng buf flags _ 0 0 block
  | readlink pathname buf =>
    simp only [collect, Readlink.collect]
    split
    · split
      · exact .nil
      · next hroom =>
        refine (storeTo_confined ?_ block).append .nil
        have hwithin : Span.Within ⟨buf.addr, (ascii "/init" ++ [0]).length⟩ buf.span := by
          refine Span.within_of_le (Nat.le_refl _) ?_
          simp only [Slice.span, Layout.u8, Nat.one_mul]
          omega
        exact hwithin.covered List.mem_cons_self
    · exact .nil
  | uname buf =>
    have hfill : ∀ field, field + 65 ≤ utsname.size → ∀ text,
        Confined [] [buf.slice.span] ((Uname.fill (buf.addr + field) text).log block) :=
      fun field hfield text => Uname.fill_confined hfield text block
    exact (hfill 0 (by decide) _).append ((hfill 65 (by decide) _).append
      ((hfill 130 (by decide) _).append ((hfill 195 (by decide) _).append
        ((hfill 260 (by decide) _).append .nil))))
  | _ => exact .nil

namespace Leaf

/-- The memory of the block that was allocated for the reply and the data. -/
def reads (leaf : Leaf) : List Span :=
  ⟨leaf.staged.staged.retRef.ptr, 8 * leaf.call.kind.rets⟩ :: leaf.segs.map Seg.span

def retWord (leaf : Leaf) (block : Mem) : Word :=
  wordOfBytes ((block.read leaf.staged.staged.retRef.ptr (8 * leaf.call.kind.rets)).take 8)

def CountChecked (leaf : Leaf) (block : Mem) (outcome : Option (Except Errno Nat)) : Prop :=
  ∀ index ∈ leaf.call.counted, ∃ seg, leaf.segs[index]? = some seg ∧
    (∀ count, outcome = some (.ok count) →
      count ≤ seg.len ∧ leaf.call.hostCount (leaf.retWord block) = .ok count) ∧
    (∀ count, leaf.call.hostCount (leaf.retWord block) = .ok count → seg.len < count →
      outcome = none)

end Leaf

namespace Call

/-- An access that collecting a call may make, given what the caller is told. -/
def Permits : (call : Call) → call.Staged → call.Collected → Access → Prop
  | .alloc call, staged, collected, access =>
    access.Allowed (Leaf.reads ⟨call, staged⟩)
      (writable call.counted (reported (call.outcome collected)) (Leaf.segs ⟨call, staged⟩))
  | .maybeAlloc call, .inl staged, _, access =>
    access.Allowed (Leaf.reads ⟨.syscall call.toAlloc, staged⟩)
      (writable none 0 (Leaf.segs ⟨.syscall call.toAlloc, staged⟩))
  | .maybeAlloc _, .inr _, _, _ => False
  | .stub call, _, _, access => access.Allowed [] call.outputs
  | .pair a b, (stagedA, stagedB), (collectedA, collectedB), access =>
    a.Permits stagedA collectedA access ∨ b.Permits stagedB collectedB access

def CountsChecked (block : Mem) : (call : Call) → call.Staged → call.Collected → Prop
  | .alloc call, staged, collected =>
    Leaf.CountChecked ⟨call, staged⟩ block (call.outcome collected)
  | .maybeAlloc _, _, _ | .stub _, _, _ => True
  | .pair a b, (stagedA, stagedB), (collectedA, collectedB) =>
    a.CountsChecked block stagedA collectedA ∧ b.CountsChecked block stagedB collectedB

end Call

theorem StagedCall.collect_confined (staged : StagedCall call) (mem block : Mem) :
    Confined (Leaf.reads ⟨call, staged⟩) (writable call.counted
        (reported (call.outcome ((staged.commit.result mem).collect.result block)))
        (Leaf.segs ⟨call, staged⟩)) ((staged.commit.result mem).collect.log block) := by
  have hret : Confined (Leaf.reads ⟨call, staged⟩)
      (writable call.counted
        (reported (call.outcome ((staged.commit.result mem).collect.result block)))
        (Leaf.segs ⟨call, staged⟩))
      ((fetch staged.staged.retRef.ptr (8 * call.kind.rets)).log block) := by
    intro access haccess
    cases List.mem_singleton.mp haccess
    exact Span.covered_of_mem List.mem_cons_self
  have hdata := call.collect_confined staged.staged.staged mem block
    (Leaf.retWord ⟨call, staged⟩ block)
  exact hret.append (hdata.mono (List.subset_cons_self _ _) (List.Subset.refl _))

theorem StagedCall.count_checked (staged : StagedCall call) (mem block : Mem) :
    Leaf.CountChecked ⟨call, staged⟩ block
      (call.outcome ((staged.commit.result mem).collect.result block)) := by
  intro index hindex
  obtain ⟨seg, hseg, houtcome⟩ := call.collect_outcome staged.staged.staged mem block
    (Leaf.retWord ⟨call, staged⟩ block) hindex
  refine ⟨seg, hseg, fun count hcount => ?_, fun count hhost hlarge => ?_⟩
  · have hchecked := houtcome.symm.trans hcount
    rcases hhost : call.hostCount (Leaf.retWord ⟨call, staged⟩ block) with errno | found
    · rw [hhost] at hchecked
      cases hchecked
    · rw [hhost, checkedCount] at hchecked
      split at hchecked
      · cases hchecked
      · next hle =>
        cases hchecked
        exact ⟨Nat.not_lt.mp hle, rfl⟩
  · refine houtcome.trans ?_
    rw [hhost, checkedCount, if_pos hlarge]

theorem writable_none (count count' : Nat) (segs : List Seg) :
    writable none count segs = writable none count' segs := by
  simp [writable]

theorem Call.collect_permits (rng : Rdrand) (mem workload block : Mem) (call : Call) (staged : call.Staged) :
    ∀ access ∈ (call.collect rng workload ((call.commit staged).result mem)).log block, call.Permits staged
        ((call.collect rng workload ((call.commit staged).result mem)).result block) access := by
  induction call with
  | alloc call => exact StagedCall.collect_confined staged mem block
  | maybeAlloc call =>
    cases staged with
    | inl staged =>
      have h := (StagedCall.collect_confined staged mem block).append .nil
      have hcounted : (AllocCall.syscall call.toAlloc).counted = none := by cases call <;> rfl
      rw [hcounted, writable_none _ 0] at h
      exact h
    | inr val =>
      intro access haccess
      cases haccess
  | stub call => exact call.collect_confined rng workload block
  | pair a b iha ihb =>
    intro access haccess
    rcases List.mem_append.mp haccess with haccess | haccess
    · exact Or.inl (iha staged.1 access haccess)
    · rcases List.mem_append.mp haccess with haccess | haccess
      · exact Or.inr (ihb staged.2 access haccess)
      · cases haccess

theorem Call.collect_counts (rng : Rdrand) (mem workload block : Mem) (call : Call) (staged : call.Staged) :
    call.CountsChecked block staged
      ((call.collect rng workload ((call.commit staged).result mem)).result block) := by
  induction call with
  | alloc call => exact StagedCall.count_checked staged mem block
  | maybeAlloc call => trivial
  | stub call => trivial
  | pair a b iha ihb => exact ⟨iha staged.1, ihb staged.2⟩

/-- Whatever the host leaves in the block. -/
theorem collect_safe {buf : BlockBuf} {mem : Mem} {call : Call} {request : Request call}
    (h : call.request buf mem = .ok request) (rng : Rdrand) (workload block : Mem) :
    (∀ access ∈ (call.collect rng workload ((call.commit request.staged).result mem)).log block,
      call.Permits request.staged
        ((call.collect rng workload ((call.commit request.staged).result mem)).result block)
        access) ∧
    call.CountsChecked block request.staged
      ((call.collect rng workload ((call.commit request.staged).result mem)).result block) ∧
    ∀ leaf ∈ call.leaves request.staged,
      (∀ span ∈ leaf.reads, span.Within ⟨buf.base, 8 * buf.count⟩) ∧
      List.Forall₂ Seg.Holds leaf.segs leaf.call.spec.buffers := by
  refine ⟨call.collect_permits rng mem workload block request.staged,
    call.collect_counts rng mem workload block request.staged, fun leaf hleaf => ?_⟩
  obtain ⟨_, hlaidOut, _, hroom⟩ := Call.request_ok h
  obtain ⟨pos, hlaid, hpos, hfinish⟩ := hlaidOut.mem_laid hleaf
  refine ⟨fun span hspan => ?_, hlaid.holds⟩
  have hend := hlaid.finish_eq
  have hdata : leaf.dataStart pos = pos + 24 + 8 * leaf.call.kind.argc +
      8 * leaf.call.kind.rets := by
    unfold Leaf.dataStart ItemKind.usizeCount
    omega
  rcases List.mem_cons.mp hspan with rfl | hspan
  · have hret := hlaid.ret_ptr
    exact Span.within_of_le (by simp only; omega) (by simp only; omega)
  · obtain ⟨seg, hseg, rfl⟩ := List.mem_map.mp hspan
    have hbounds := hlaid.mem_bounds hseg
    have hpadded := le_padded (sectionSize leaf.segs)
    exact Span.within_of_le (by simp only [Seg.span]; omega) (by simp only [Seg.span]; omega)

theorem collect_safe_read :
    ∃ request : Request (.alloc (.syscall (.read ⟨0, ⟨100, 5⟩⟩))),
      Call.request ⟨4096, 64, by decide, by decide⟩ (fun _ => 0) _ = .ok request ∧
      ∀ access ∈ (Call.collect ⟨fun _ => some 0, fun attempt => ⟨attempt, Nat.le_refl _, rfl⟩⟩
          (fun _ => 0) _ ((Call.commit _ request.staged).result fun _ => 0)).log fun _ => 1,
        Call.Permits _ request.staged ((Call.collect
          ⟨fun _ => some 0, fun attempt => ⟨attempt, Nat.le_refl _, rfl⟩⟩ (fun _ => 0) _
          ((Call.commit _ request.staged).result fun _ => 0)).result fun _ => 1) access := by
  have hok : (Call.request ⟨4096, 64, by decide, by decide⟩ (fun _ => 0)
      (.alloc (.syscall (.read ⟨0, ⟨100, 5⟩⟩)))).isOk = true := by decide +kernel
  obtain ⟨request, hrequest⟩ := Except.exists_of_isOk hok
  exact ⟨request, hrequest, (collect_safe hrequest
    ⟨fun _ => some 0, fun attempt => ⟨attempt, Nat.le_refl _, rfl⟩⟩ (fun _ => 0)
    (fun _ => 1)).1⟩

end Enarx.Sallyport
