import Enarx.Sallyport.Staging
import Enarx.Sallyport.Syscall.Basic

/-!
# Abstract description of the system calls

For every call its buffers in allocation order and its argument words, and the
proof that staging and committing the call is staging and committing these.
-/
namespace Enarx.Sallyport

namespace Syscall

def segs : (call : Syscall) → call.Staged → List Seg
  | .accept _, staged => segsOption StagedSockaddrOutput.segs staged
  | .accept4 _, staged => segsOption StagedSockaddrOutput.segs staged
  | .bind _, staged => [Input.seg staged]
  | .clockGetres _, staged => segsOption (fun res => [Output.seg res]) staged
  | .clockGettime _, staged => [Output.seg staged]
  | .connect _, staged => [Input.seg staged]
  | .epollCtl _, staged => [Input.seg staged]
  | .epollPwait _, staged => [Output.seg staged.events, Input.seg staged.sigmask]
  | .epollWait _, staged => [Output.seg staged]
  | .getsockname _, staged => StagedSockaddrOutput.segs staged
  | .allocIoctl _, staged => segsOption (fun argp => [InOut.seg argp]) staged
  | .nanosleep _, staged =>
    Input.seg staged.req :: segsOption (fun rem => [InOut.seg rem]) staged.rem
  | .allocOpen _, staged => [Input.seg staged]
  | .poll _, staged => [InOut.seg staged]
  | .read _, staged => [Output.seg staged]
  | .readv _, staged =>
    [⟨staged.buf.2.ptr, staged.buf.2.offset, .u8, staged.buf.1, [],
      takeSpans staged.buf.1 staged.iovs⟩]
  | .recv _, staged => [Output.seg staged]
  | .recvfrom _, staged => staged.srcAddr.segs ++ [Output.seg staged.buf]
  | .send _, staged => [Input.seg staged]
  | .sendto _, staged => [Input.seg staged.destAddr, Input.seg staged.buf]
  | .setsockopt _, staged => segsOption (fun optval => [Input.seg optval]) staged
  | .write _, staged => [Input.seg staged]
  | .writev _, staged =>
    [⟨staged.buf.2.ptr, staged.buf.2.offset, .u8, staged.buf.1,
      takeSpans staged.buf.1 staged.iovs, []⟩]
  | .passthrough _, _ => []

def buffers : Syscall → List Buffer
  | .accept call => buffersOption SockaddrOutput.buffers call.addr
  | .accept4 call => buffersOption SockaddrOutput.buffers call.addr
  | .bind call => [call.addr.buffer .input]
  | .clockGetres call => buffersOption (fun res => [res.buffer .output]) call.res
  | .clockGettime call => [call.tp.buffer .output]
  | .connect call => [call.addr.buffer .input]
  | .epollCtl call => [call.event.buffer .input]
  | .epollPwait call => [call.events.buffer .output, call.sigmask.buffer .input]
  | .epollWait call => [call.events.buffer .output]
  | .getsockname call => call.addr.buffers
  | .allocIoctl call => buffersOption (fun argp => [argp.buffer .inout]) call.ioctl.argp
  | .nanosleep call => 
    call.req.buffer .input :: buffersOption (fun rem => [rem.buffer .inout]) call.rem
  | .allocOpen call => [call.open.pathname.buffer .input]
  | .poll call => [call.fds.buffer .inout]
  | .read call => [call.buf.bufferMax .output]
  | .readv call => [iovsBuffer call.iovs .output]
  | .recv call => [call.buf.bufferMax .output]
  | .recvfrom call => call.srcAddr.buffers ++ [call.buf.bufferMax .output]
  | .send call => [call.buf.bufferMax .input]
  | .sendto call => [call.destAddr.buffer .input, call.buf.bufferMax .input]
  | .setsockopt call => buffersOption (fun optval => [optval.buffer .input]) call.optval
  | .write call => [call.buf.bufferMax .input]
  | .writev call => [iovsBuffer call.iovs .input]
  | .passthrough _ => []

def args : Syscall → List Arg
  | .accept call =>
    [.int call.sockfd, .orElse call.addr (.offset 0) NULL, .orElse call.addr (.offset 1) NULL]
  | .accept4 call =>
    [.int call.sockfd, .orElse call.addr (.offset 0) NULL, .orElse call.addr (.offset 1) NULL,
      .int call.flags]
  | .bind call => [.int call.sockfd, .offset 0, .len 0]
  | .clockGetres call => [.int call.clockid, .orElse call.res (.offset 0) NULL]
  | .clockGettime call => [.int call.clockid, .offset 0]
  | .connect call => [.int call.sockfd, .offset 0, .len 0]
  | .epollCtl call => [.int call.epfd, .int call.op, .int call.fd, .offset 0]
  | .epollPwait call => [.int call.epfd, .offset 0, .len 0, .int call.timeout, .offset 1]
  | .epollWait call => [.int call.epfd, .offset 0, .len 0, .int call.timeout]
  | .getsockname call => [.int call.sockfd, .offset 0, .offset 1]
  | .allocIoctl call =>
    [.int call.ioctl.fd, .int call.ioctl.request, .orElse call.ioctl.argp (.offset 0) NULL,
      .orElse call.ioctl.argp (.len 0) 0]
  | .nanosleep call => [.offset 0, .orElse call.rem (.offset 1) NULL]
  | .allocOpen call =>
    [.offset 0, .len 0, .int call.open.flags, .word (uintAsUsize (call.open.mode.getD 0))]
  | .poll call => [.offset 0, .len 0, .int call.timeout]
  | .read call => [.int call.fd, .offset 0, .len 0]
  | .readv call => [.int call.fd, .offset 0, .len 0]
  | .recv call => [.int call.sockfd, .offset 0, .len 0, .int call.flags]
  | .recvfrom call =>
    [.int call.sockfd, .offset 2, .len 2, .int call.flags, .offset 0, .offset 1]
  | .send call => [.int call.sockfd, .offset 0, .len 0, .int call.flags]
  | .sendto call => [.int call.sockfd, .offset 1, .len 1, .int call.flags, .offset 0, .len 0]
  | .setsockopt call =>
    [.int call.sockfd, .int call.level, .int call.optname, .orElse call.optval (.offset 0) NULL,
      .orElse call.optval (.len 0) 0]
  | .write call => [.int call.fd, .offset 0, .len 0]
  | .writev call => [.int call.fd, .offset 0, .len 0]
  | .passthrough call => call.stage.map .word

def spec (call : Syscall) : CallSpec := ⟨call.num.toWord, call.buffers, call.args⟩

theorem stage_spec (call : Syscall) : Describes call.spec call.segs call.stage := by
  cases call with
  | accept call =>
    obtain ⟨sockfd, addr⟩ := call
    refine Stages.describes_option SockaddrOutput.stage_stages addr
      (fun addr => args (.accept ⟨sockfd, addr⟩)) ?_ ?_ ?_
    · rfl
    · exact fun _ _ => rfl
    · exact fun _ => rfl
  | accept4 call =>
    obtain ⟨sockfd, addr, flags⟩ := call
    refine Stages.describes_option SockaddrOutput.stage_stages addr
      (fun addr => args (.accept4 ⟨sockfd, addr, flags⟩)) ?_ ?_ ?_
    · rfl
    · exact fun _ _ => rfl
    · exact fun _ => rfl
  | bind call =>
    exact (Input.stageSlice_stages call.addr).describes (fun _ => rfl) (fun _ => rfl)
  | clockGetres call =>
    obtain ⟨clockid, _ | res⟩ := call
    · rfl
    · exact (Output.stage_stages small_timespec res).describes (fun _ => rfl) (fun _ => rfl)
  | clockGettime call =>
    exact (Output.stage_stages small_timespec call.tp).describes (fun _ => rfl) (fun _ => rfl)
  | connect call =>
    exact (Input.stageSlice_stages call.addr).describes (fun _ => rfl) (fun _ => rfl)
  | epollCtl call =>
    exact (Input.stage_stages small_epollEvent call.event).describes (fun _ => rfl) (fun _ => rfl)
  | epollPwait call =>
    exact (Output.stageSlice_stages call.events).describes_append
      (Input.stage_stages small_sigset call.sigmask) (fun _ _ => rfl) (fun _ _ => rfl)
  | epollWait call =>
    exact (Output.stageSlice_stages call.events).describes (fun _ => rfl) (fun _ => rfl)
  | getsockname call =>
    exact (SockaddrOutput.stage_stages call.addr).describes (fun _ => rfl) (fun _ => rfl)
  | allocIoctl call =>
    obtain ⟨fd, request, argp⟩ := call
    refine Stages.describes_option InOut.stageSlice_stages argp
      (fun argp => args (.allocIoctl ⟨⟨fd, request, argp⟩⟩)) ?_ ?_ ?_
    · rfl
    · exact fun _ _ => rfl
    · exact fun _ => rfl
  | nanosleep call =>
    obtain ⟨req, _ | rem⟩ := call
    · exact (Input.stage_stages small_timespec req).describes (fun _ => rfl) (fun _ => rfl)
    · exact (Input.stage_stages small_timespec req).describes_append
        (InOut.stage_stages small_timespec rem) (fun _ _ => rfl) (fun _ _ => rfl)
  | allocOpen call =>
    exact (Input.stageSlice_stages call.open.pathname).describes (fun _ => rfl) (fun _ => rfl)
  | poll call =>
    exact (InOut.stageSlice_stages call.fds).describes (fun _ => rfl) (fun _ => rfl)
  | read call =>
    exact (Output.stageSliceMax_stages call.buf).describes (fun _ => rfl) (fun _ => rfl)
  | readv call =>
    rw [Syscall.stage, Readv.stage, ← bind_assoc]
    refine (stage_iovs call.iovs .output).describes (fun _ => rfl) (fun staged => ?_)
    simp [segs, Buffer.seg, iovsBuffer, Buffer.spans, Place.spans, Layout.u8]
  | recv call =>
    exact (Output.stageSliceMax_stages call.buf).describes (fun _ => rfl) (fun _ => rfl)
  | recvfrom call =>
    exact (SockaddrOutput.stage_stages call.srcAddr).describes_append
      (Output.stageSliceMax_stages call.buf) (fun _ _ => rfl) (fun _ _ => rfl)
  | send call =>
    exact (Input.stageSliceMax_stages call.buf).describes (fun _ => rfl) (fun _ => rfl)
  | sendto call =>
    exact (Input.stageSlice_stages call.destAddr).describes_append
      (Input.stageSliceMax_stages call.buf) (fun _ _ => rfl) (fun _ _ => rfl)
  | setsockopt call =>
    obtain ⟨sockfd, level, optname, optval⟩ := call
    refine Stages.describes_option Input.stageSlice_stages optval
      (fun optval => args (.setsockopt ⟨sockfd, level, optname, optval⟩)) ?_ ?_ ?_
    · rfl
    · exact fun _ _ => rfl
    · exact fun _ => rfl
  | write call =>
    exact (Input.stageSliceMax_stages call.buf).describes (fun _ => rfl) (fun _ => rfl)
  | writev call =>
    rw [Syscall.stage, Writev.stage, ← bind_assoc]
    refine (stage_iovs call.iovs .input).describes (fun _ => rfl) (fun staged => ?_)
    simp [segs, Buffer.seg, iovsBuffer, Buffer.spans, Place.spans, Layout.u8]
  | passthrough call =>
    have hargv : call.stage = (call.stage.map Arg.word).map (Arg.encode []) := by
      simp [Function.comp_def, Arg.encode]
    change (pure (call.stage, []) : StageM _) = pure ((call.stage.map Arg.word).map (Arg.encode []), [])
    rw [← hargv]

theorem commit_spec (call : Syscall) (staged : call.Staged) :
    Commits (call.commit staged) (call.segs staged) := by
  cases call with
  | accept | accept4 => exact Commits.option StagedSockaddrOutput.commit_commits staged
  | bind | connect | epollCtl | allocOpen => exact Input.commit_commits staged
  | clockGetres => exact Commits.option Output.commit_commits staged
  | clockGettime | epollWait | read | recv => exact Output.commit_commits staged
  | epollPwait =>
    exact (Output.commit_commits staged.events).bind fun _ => (staged.sigmask.commit_commits).map _
  | getsockname => exact StagedSockaddrOutput.commit_commits staged
  | allocIoctl => exact Commits.option InOut.commit_commits staged
  | nanosleep =>
    exact (Input.commit_commits staged.req).bind fun _ =>
      Commits.option InOut.commit_commits staged.rem
  | poll => exact InOut.commit_commits staged
  | readv => exact Commits.pure staged
  | recvfrom =>
    -- the buffer is committed first and allocated last, but it stores nothing
    intro mem
    refine ((Output.commit_commits staged.buf).bind fun _ =>
      (staged.srcAddr.commit_commits).map _) mem |>.trans ?_
    simp [segs, Output.seg, Seg.stores, scatter]
  | send | write => exact (Input.commit_commits staged).map _
  | sendto =>
    exact (Input.commit_commits staged.destAddr).bind fun _ => (staged.buf.commit_commits).map _
  | setsockopt => exact (Commits.option Input.commit_commits staged).map _
  | writev =>
    intro mem
    refine (Trace.log_bind (copyFromIter staged.buf.2.ptr _) _ mem).trans ?_
    rw [log_copyFromIter]
    simp only [segs, Seg.stores, List.flatMap_cons, List.flatMap_nil]
    rfl
  | passthrough => exact Commits.pure ()

end Syscall

end Enarx.Sallyport
