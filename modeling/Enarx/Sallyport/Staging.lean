import Enarx.Sallyport.Segment
import Enarx.Sallyport.Syscall.Types

/-!
# Staging and committing by description

Segments of the staged values, buffers of the caller's values, and the rules by
which a call is shown to follow its description: one rule for each primitive of
staging and one for each way the calls combine them.
-/
namespace Enarx.Sallyport

open Libc

def Input.seg (input : Input T) : Seg :=
  ⟨input.dataRef.ptr, input.dataRef.offset, T, input.val.len, [input.val.span], []⟩

def Output.seg (output : Output T) : Seg :=
  ⟨output.dataRef.ptr, output.dataRef.offset, T, output.val.len, [], [output.val.span]⟩

def InOut.seg (inout : InOut T) : Seg :=
  ⟨inout.dataRef.ptr, inout.dataRef.offset, T, inout.val.len, [inout.val.span], [inout.val.span]⟩

def StagedSockaddrOutput.segs (staged : StagedSockaddrOutput) : List Seg :=
  [staged.addr.seg, staged.addrlen.seg]

def segsOption (segs : α → List Seg) : Option α → List Seg
  | none => []
  | some staged => segs staged

def Slice.buffer (slice : Slice T) (dir : Dir) : Buffer :=
  ⟨T, slice.len, .slice slice.addr, dir, false, trivial⟩

def Slice.bufferMax (slice : Slice T) (dir : Dir) : Buffer :=
  ⟨T, slice.len, .slice slice.addr, dir, true, trivial⟩

def Ref.buffer (ref : Ref T) (dir : Dir) : Buffer := ref.slice.buffer dir

def iovsBuffer (iovs : List Span) (dir : Dir) : Buffer :=
  ⟨.u8, (iovs.map Span.len).sum, .iovs iovs, dir, true, (Nat.one_mul _).le⟩

def buffersOption (buffers : α → List Buffer) : Option α → List Buffer
  | none => []
  | some value => buffers value

def SockaddrOutput.buffers (self : SockaddrOutput) : List Buffer :=
  [self.addr.buffer .output, self.addrlen.buffer .inout]

def Arg.orElse (buffer : Option α) (arg : Arg) (missing : Word) : Arg :=
  if buffer.isSome then arg else .word missing

def Arg.int (value : CInt) : Arg := .word (intAsUsize value)

def Stages (run : StageM α) (segs : α → List Seg) (buffers : List Buffer) : Prop :=
  segs <$> run = stageBuffers buffers

def Describes (spec : CallSpec) (segs : α → List Seg) (stage : StageM (List Word × α)) : Prop :=
  (fun staged => (staged.1, segs staged.2)) <$> stage = spec.stage

theorem stageBuffers_append (left right : List Buffer) :
    stageBuffers (left ++ right) = do
      let first ← stageBuffers left
      let second ← stageBuffers right
      return first ++ second := by
  induction left with
  | nil => simp [stageBuffers]
  | cons buffer left ih => simp [stageBuffers, ih]

namespace Stages

variable {run : StageM α} {segs : α → List Seg} {buffers buffers' : List Buffer} {num : Word} {args : List Arg} {next : StageM β} {segs' : β → List Seg} {build : α → β → γ} {segsOf : γ → List Seg}

theorem describes (h : Stages run segs buffers) {argv : α → List Word} {build : α → β} {segsOf : β → List Seg}
    (hargv : ∀ staged, argv staged = args.map (Arg.encode (segs staged)))
    (hsegs : ∀ staged, segsOf (build staged) = segs staged) :
    Describes ⟨num, buffers, args⟩ segsOf (run >>= fun staged => pure (argv staged, build staged)) := by
  unfold Describes CallSpec.stage
  rw [← h]
  simp [hargv, hsegs]

theorem append (h : Stages run segs buffers) (h' : Stages next segs' buffers')
    (hsegs : ∀ first second, segsOf (build first second) = segs first ++ segs' second) :
    Stages (run >>= fun first => next >>= fun second => pure (build first second)) segsOf
      (buffers ++ buffers') := by
  unfold Stages
  rw [stageBuffers_append, ← h, ← h']
  simp [hsegs]

theorem describes_append (h : Stages run segs buffers) (h' : Stages next segs' buffers')
    {argv : α → β → List Word} (hargv : ∀ first second,
      argv first second = args.map (Arg.encode (segs first ++ segs' second)))
    (hsegs : ∀ first second, segsOf (build first second) = segs first ++ segs' second) :
    Describes ⟨num, buffers ++ buffers', args⟩ segsOf (run >>= fun first => next >>= fun second =>
        pure (argv first second, build first second)) := by
  unfold Describes CallSpec.stage
  rw [stageBuffers_append, ← h, ← h']
  simp [hargv, hsegs]

theorem describes_option {stage : α → StageM β} {segs : β → List Seg}
    {buffers : α → List Buffer} (h : ∀ value, Stages (stage value) segs (buffers value))
    (value : Option α) (args : Option α → List Arg) {argv : Option β → List Word}
    {build : Option β → γ} (hnone : argv none = (args none).map (Arg.encode []))
    (hsome : ∀ value staged, argv (some staged) = (args (some value)).map (Arg.encode (segs staged)))
    (hsegs : ∀ staged, segsOf (build staged) = segsOption segs staged) :
    Describes ⟨num, buffersOption buffers value, args value⟩ segsOf
      (stageOption stage value >>= fun staged => pure (argv staged, build staged)) := by
  cases value with
  | none =>
    simp [Describes, CallSpec.stage, stageOption, buffersOption, stageBuffers, hnone, hsegs,
      segsOption]
  | some value =>
    unfold Describes CallSpec.stage
    rw [buffersOption, ← h value]
    simp [stageOption, hsome value, hsegs, segsOption]

end Stages

def Small (T : Layout) : Prop := T.size ≤ 2 ^ 63 - 1 - (T.align - 1)

theorem small_timespec : Small timespec := by unfold Small; decide
theorem small_epollEvent : Small epollEvent := by unfold Small; decide
theorem small_sigset : Small sigset := by unfold Small; decide
theorem small_socklen : Small socklen := by unfold Small; decide

theorem allocate_eq_slice {T : Layout} (h : Small T) : allocate T = allocateSlice T 1 := by
  have harray : arrayLayout T 1 = .ok T := by
    unfold arrayLayout
    rw [Layout.array_one, Nat.mul_one, if_neg (Nat.not_lt.mpr h)]
  unfold allocateSlice
  rw [harray]
  rfl

theorem stageBuffers_singleton (buffer : Buffer) :
    stageBuffers [buffer] = do return [← stageBuffer buffer] := by
  simp [stageBuffers]

theorem Input.stageSlice_stages (val : Slice T) :
    Stages (Input.stageSlice val) (fun input => [input.seg]) [val.buffer .input] := by
  simp only [Stages, Input.stageSlice, stageBuffers_singleton, stageBuffer, map_bind, bind_assoc,
    pure_bind, map_pure]
  rfl

theorem Output.stageSlice_stages (val : Slice T) :
    Stages (Output.stageSlice val) (fun output => [output.seg]) [val.buffer .output] := by
  simp only [Stages, Output.stageSlice, stageBuffers_singleton, stageBuffer, map_bind, bind_assoc,
    pure_bind, map_pure]
  rfl

theorem InOut.stageSlice_stages (val : Slice T) :
    Stages (InOut.stageSlice val) (fun inout => [inout.seg]) [val.buffer .inout] := by
  simp only [Stages, InOut.stageSlice, stageBuffers_singleton, stageBuffer, map_bind, bind_assoc,
    pure_bind, map_pure]
  rfl

theorem Input.stage_stages (hT : Small T) (val : Ref T) :
    Stages (Input.stage val) (fun input => [input.seg]) [val.buffer .input] := by
  have hslice : Input.stage val = Input.stageSlice val.slice := by
    unfold Input.stage Input.stageSlice
    rw [allocate_eq_slice hT]
    rfl
  rw [hslice]
  exact Input.stageSlice_stages val.slice

theorem Output.stage_stages (hT : Small T) (val : Ref T) :
    Stages (Output.stage val) (fun output => [output.seg]) [val.buffer .output] := by
  have hslice : Output.stage val = Output.stageSlice val.slice := by
    unfold Output.stage Output.stageSlice
    rw [allocate_eq_slice hT]
    rfl
  rw [hslice]
  exact Output.stageSlice_stages val.slice

theorem InOut.stage_stages (hT : Small T) (val : Ref T) :
    Stages (InOut.stage val) (fun inout => [inout.seg]) [val.buffer .inout] := by
  have hslice : InOut.stage val = InOut.stageSlice val.slice := by
    unfold InOut.stage InOut.stageSlice
    rw [allocate_eq_slice hT]
    rfl
  rw [hslice]
  exact InOut.stageSlice_stages val.slice

theorem Input.stageSliceMax_stages (val : Slice T) :
    Stages (Input.stageSliceMax val) (fun input => [input.1.seg]) [val.bufferMax .input] := by
  simp only [Stages, Input.stageSliceMax, Input.stageSlice, stageBuffers_singleton, stageBuffer,
    map_bind, bind_assoc, pure_bind, map_pure]
  rfl

theorem Output.stageSliceMax_stages (val : Slice T) :
    Stages (Output.stageSliceMax val) (fun output => [output.1.seg]) [val.bufferMax .output] := by
  simp only [Stages, Output.stageSliceMax, Output.stageSlice, stageBuffers_singleton, stageBuffer,
    map_bind, bind_assoc, pure_bind, map_pure]
  rfl

theorem stage_iovs (iovs : List Span) (dir : Dir) :
    Stages (do allocateSliceMax .u8 (← iovLen iovs))
      (fun staged => [(iovsBuffer iovs dir).seg staged.1 staged.2.ptr staged.2.offset])
      [iovsBuffer iovs dir] := by
  have hmeasure : (iovsBuffer iovs dir).place.measure = (do let _ ← iovLen iovs) := rfl
  simp only [Stages, allocateSliceMax, stageBuffers_singleton, stageBuffer, hmeasure, map_bind, bind_assoc,
    pure_bind, map_pure]
  unfold iovLen
  split <;> rfl

theorem SockaddrOutput.stage_stages (self : SockaddrOutput) :
    Stages self.stage StagedSockaddrOutput.segs self.buffers :=
  (Output.stageSlice_stages self.addr).append (InOut.stage_stages small_socklen self.addrlen)
    (fun _ _ => rfl)

def Commits (run : CommitM α) (segs : List Seg) : Prop :=
  ∀ mem, run.log mem = segs.flatMap (Seg.stores mem)

theorem Input.commit_commits (input : Input T) : Commits input.commit [input.seg] := by
  intro mem
  rw [Input.commit, log_copyFromIter]
  simp [Seg.stores, Input.seg]

theorem Output.commit_commits (output : Output T) : Commits output.commit [output.seg] := by
  intro mem
  rfl

theorem InOut.commit_commits (inout : InOut T) : Commits inout.commit [inout.seg] := by
  intro mem
  rw [InOut.commit, Trace.log_bind, log_copyFromIter]
  simp [Seg.stores, InOut.seg]

namespace Commits

theorem pure (value : α) : Commits (Pure.pure value) [] := fun _ => rfl

theorem bind {run : CommitM α} {next : α → CommitM β} {segs segs' : List Seg}
    (h : Commits run segs) (h' : ∀ value, Commits (next value) segs') :
    Commits (run >>= next) (segs ++ segs') := by
  intro mem
  rw [Trace.log_bind, h, h', List.flatMap_append]

theorem map {run : CommitM α} {segs : List Seg} (h : Commits run segs) (f : α → β) :
    Commits (run >>= fun value => Pure.pure (f value)) segs := by
  have := h.bind (fun value => Commits.pure (f value))
  rwa [List.append_nil] at this

theorem option {commit : α → CommitM β} {segs : α → List Seg}
    (h : ∀ value, Commits (commit value) (segs value)) (value : Option α) :
    Commits (commitOption commit value) (segsOption segs value) := by
  cases value with
  | none => exact Commits.pure none
  | some value => exact (h value).map some

end Commits

theorem StagedSockaddrOutput.commit_commits (self : StagedSockaddrOutput) : Commits self.commit self.segs :=
  (Output.commit_commits self.addr).bind fun _ => (self.addrlen.commit_commits).map _

end Enarx.Sallyport
