import Enarx.Sallyport.Syscall.Calls
import Enarx.Sallyport.Block
import Enarx.Sallyport.Segment

/-!
# The system calls as one type

`Syscall` collects the calls that stage an item, with their staged, committed
and collected values as families over it. `Syscall.spec` describes each call by
its buffers and argument words; `Syscall.stage_spec` says that staging the call
is staging that description.
-/
namespace Enarx.Sallyport

open Libc

inductive Passthrough where
  | close (fd : CInt)
  | dup (oldfd : CInt)
  | dup2 (oldfd newfd : CInt)
  | dup3 (oldfd newfd flags : CInt)
  | epollCreate1 (flags : CInt)
  | eventfd2 (initval flags : CInt)
  | exit (status : CInt)
  | exitGroup (status : CInt)
  | allocFcntl (fcntl : Fcntl)
  | listen (sockfd backlog : CInt)
  | socket (domain typ protocol : CInt)
  | sync

namespace Passthrough

def num : Passthrough → Sysno
  | .close .. => .close
  | .dup .. => .dup
  | .dup2 .. => .dup2
  | .dup3 .. => .dup3
  | .epollCreate1 .. => .epollCreate1
  | .eventfd2 .. => .eventfd2
  | .exit .. => .exit
  | .exitGroup .. => .exitGroup
  | .allocFcntl .. => .fcntl
  | .listen .. => .listen
  | .socket .. => .socket
  | .sync => .sync

def Ret : Passthrough → Type
  | .epollCreate1 .. | .eventfd2 .. | .allocFcntl .. | .socket .. => CInt
  | _ => Unit

def stage : Passthrough → List Word
  | .close fd => [intAsUsize fd]
  | .dup oldfd => [intAsUsize oldfd]
  | .dup2 oldfd newfd => [intAsUsize oldfd, intAsUsize newfd]
  | .dup3 oldfd newfd flags => [intAsUsize oldfd, intAsUsize newfd, intAsUsize flags]
  | .epollCreate1 flags => [intAsUsize flags]
  | .eventfd2 initval flags => [intAsUsize initval, intAsUsize flags]
  | .exit status => [intAsUsize status]
  | .exitGroup status => [intAsUsize status]
  | .allocFcntl ⟨fd, cmd, arg⟩ => [intAsUsize fd, intAsUsize cmd, intAsUsize arg]
  | .listen sockfd backlog => [intAsUsize sockfd, intAsUsize backlog]
  | .socket domain typ protocol => [intAsUsize domain, intAsUsize typ, intAsUsize protocol]
  | .sync => []

def decode : (call : Passthrough) → Word → Except Errno call.Ret
  | .epollCreate1 .., ret | .eventfd2 .., ret | .allocFcntl .., ret | .socket .., ret =>
    decodeInt ret
  | .close .., ret | .dup .., ret | .dup2 .., ret | .dup3 .., ret | .exit .., ret
  | .exitGroup .., ret | .listen .., ret | .sync, ret => decodeUnit ret

end Passthrough

inductive Syscall where
  | accept (call : Accept)
  | accept4 (call : Accept4)
  | bind (call : Bind)
  | clockGetres (call : ClockGetres)
  | clockGettime (call : ClockGettime)
  | connect (call : Connect)
  | epollCtl (call : EpollCtl)
  | epollPwait (call : EpollPwait)
  | epollWait (call : EpollWait)
  | getsockname (call : Getsockname)
  | allocIoctl (call : AllocIoctl)
  | nanosleep (call : Nanosleep)
  | allocOpen (call : AllocOpen)
  | poll (call : Poll)
  | read (call : Read)
  | readv (call : Readv)
  | recv (call : Recv)
  | recvfrom (call : Recvfrom)
  | send (call : Send)
  | sendto (call : Sendto)
  | setsockopt (call : Setsockopt)
  | write (call : Write)
  | writev (call : Writev)
  | passthrough (call : Passthrough)

namespace Syscall

def num : Syscall → Sysno
  | .accept _ => .accept
  | .accept4 _ => .accept4
  | .bind _ => .bind
  | .clockGetres _ => .clockGetres
  | .clockGettime _ => .clockGettime
  | .connect _ => .connect
  | .epollCtl _ => .epollCtl
  | .epollPwait _ => .epollPwait
  | .epollWait _ => .epollWait
  | .getsockname _ => .getsockname
  | .allocIoctl _ => .ioctl
  | .nanosleep _ => .nanosleep
  | .allocOpen _ => .open_
  | .poll _ => .poll
  | .read _ => .read
  | .readv _ => .read
  | .recv _ => .recvfrom
  | .recvfrom _ => .recvfrom
  | .send _ => .sendto
  | .sendto _ => .sendto
  | .setsockopt _ => .setsockopt
  | .write _ => .write
  | .writev _ => .write
  | .passthrough call => call.num

def Staged : Syscall → Type
  | .accept _ | .accept4 _ => Option StagedSockaddrOutput
  | .bind _ | .connect _ => Input sockaddrBytes
  | .clockGetres _ => Option (Output timespec)
  | .clockGettime _ => Output timespec
  | .epollCtl _ => Input epollEvent
  | .epollPwait _ => StagedEpollPwait
  | .epollWait _ => Output epollEvent
  | .getsockname _ => StagedSockaddrOutput
  | .allocIoctl _ => Option (InOut .u8)
  | .nanosleep _ => StagedNanosleep
  | .allocOpen _ | .send _ | .write _ => Input .u8
  | .poll _ => InOut pollfd
  | .read _ | .recv _ => Output .u8
  | .readv _ => StagedReadv
  | .recvfrom _ => StagedRecvfrom
  | .sendto _ => StagedSendto
  | .setsockopt _ => Option (Input sockoptBytes)
  | .writev _ => StagedWritev
  | .passthrough _ => Unit

def Committed : Syscall → Type
  | .accept _ | .accept4 _ => Option CommittedSockaddrOutput
  | .bind _ | .connect _ | .epollCtl _ | .allocOpen _ | .setsockopt _ | .passthrough _ => Unit
  | .clockGetres _ | .nanosleep _ => Option (Output timespec)
  | .clockGettime _ => Output timespec
  | .epollPwait _ | .epollWait _ => Output epollEvent
  | .getsockname _ => CommittedSockaddrOutput
  | .allocIoctl _ => Option (Output .u8)
  | .poll _ => Output pollfd
  | .read _ | .recv _ => Output .u8
  | .readv _ => StagedReadv
  | .recvfrom _ => CommittedRecvfrom
  | .send _ | .sendto _ | .write _ | .writev _ => Nat

def Collected : Syscall → Type
  | .accept _ | .accept4 _ | .allocIoctl _ | .allocOpen _ | .setsockopt _ => Except Errno CInt
  | .bind _ | .clockGetres _ | .clockGettime _ | .connect _ | .epollCtl _ | .getsockname _
  | .nanosleep _ => Except Errno Unit
  | .epollPwait _ | .epollWait _ | .poll _ => Option (Except Errno CInt)
  | .read _ | .readv _ | .recv _ | .recvfrom _ | .send _ | .sendto _ | .write _ | .writev _ =>
    Option (Except Errno Nat)
  | .passthrough call => Except Errno call.Ret

def stage : (call : Syscall) → StageM (List Word × call.Staged)
  | .accept call => call.stage
  | .accept4 call => call.stage
  | .bind call => call.stage
  | .clockGetres call => call.stage
  | .clockGettime call => call.stage
  | .connect call => call.stage
  | .epollCtl call => call.stage
  | .epollPwait call => call.stage
  | .epollWait call => call.stage
  | .getsockname call => call.stage
  | .allocIoctl call => call.stage
  | .nanosleep call => call.stage
  | .allocOpen call => call.stage
  | .poll call => call.stage
  | .read call => call.stage
  | .readv call => call.stage
  | .recv call => call.stage
  | .recvfrom call => call.stage
  | .send call => call.stage
  | .sendto call => call.stage
  | .setsockopt call => call.stage
  | .write call => call.stage
  | .writev call => call.stage
  | .passthrough call => pure (call.stage, ())

def commit : (call : Syscall) → call.Staged → CommitM call.Committed
  | .accept _, staged => commitOption StagedSockaddrOutput.commit staged
  | .accept4 _, staged => commitOption StagedSockaddrOutput.commit staged
  | .bind _, staged => Input.commit staged
  | .clockGetres _, staged => commitOption Output.commit staged
  | .clockGettime _, staged => Output.commit staged
  | .connect _, staged => Input.commit staged
  | .epollCtl _, staged => Input.commit staged
  | .epollPwait _, staged => StagedEpollPwait.commit staged
  | .epollWait _, staged => Output.commit staged
  | .getsockname _, staged => StagedSockaddrOutput.commit staged
  | .allocIoctl _, staged => commitOption InOut.commit staged
  | .nanosleep _, staged => StagedNanosleep.commit staged
  | .allocOpen _, staged => Input.commit staged
  | .poll _, staged => InOut.commit staged
  | .read _, staged => Output.commit staged
  | .readv _, staged => pure staged
  | .recv _, staged => Output.commit staged
  | .recvfrom _, staged => StagedRecvfrom.commit staged
  | .send _, staged => commitBytes staged
  | .sendto _, staged => StagedSendto.commit staged
  | .setsockopt _, staged => do
    let _ ← commitOption Input.commit staged
  | .write _, staged => commitBytes staged
  | .writev _, staged => StagedWritev.commit staged
  | .passthrough _, _ => pure ()

/-- `collect`, from the first return word; the second one is ignored. -/
def collect : (call : Syscall) → call.Committed → Word → CollectM call.Collected
  | .accept _, committed, ret => Accept.collect committed (decodeInt ret)
  | .accept4 _, committed, ret => Accept4.collect committed (decodeInt ret)
  | .bind _, _, ret => pure (decodeUnit ret)
  | .clockGetres _, committed, ret => ClockGetres.collect committed (decodeUnit ret)
  | .clockGettime _, committed, ret => ClockGettime.collect committed (decodeUnit ret)
  | .connect _, _, ret => pure (decodeUnit ret)
  | .epollCtl _, _, ret => pure (decodeUnit ret)
  | .epollPwait _, committed, ret => EpollPwait.collect committed (decodeInt ret)
  | .epollWait _, committed, ret => EpollWait.collect committed (decodeInt ret)
  | .getsockname _, committed, ret => Getsockname.collect committed (decodeUnit ret)
  | .allocIoctl _, committed, ret => AllocIoctl.collect committed (decodeInt ret)
  | .nanosleep _, committed, ret => Nanosleep.collect committed (decodeUnit ret)
  | .allocOpen _, _, ret => pure (decodeInt ret)
  | .poll _, committed, ret => Poll.collect committed (decodeInt ret)
  | .read _, committed, ret => Read.collect committed (decodeSize ret)
  | .readv _, committed, ret => Readv.collect committed (decodeSize ret)
  | .recv _, committed, ret => Recv.collect committed (decodeSize ret)
  | .recvfrom _, committed, ret => Recvfrom.collect committed (decodeSize ret)
  | .send _, committed, ret => Send.collect committed (decodeSize ret)
  | .sendto _, committed, ret => Sendto.collect committed (decodeSize ret)
  | .setsockopt _, _, ret => pure (decodeInt ret)
  | .write _, committed, ret => Write.collect committed (decodeSize ret)
  | .writev _, committed, ret => Writev.collect committed (decodeSize ret)
  | .passthrough call, _, ret => pure (call.decode ret)

abbrev collected (call : Syscall) (staged : call.Staged) (mem : Mem) (ret : Word) : CollectM call.Collected :=
  call.collect ((call.commit staged).result mem) ret

end Syscall

end Enarx.Sallyport
