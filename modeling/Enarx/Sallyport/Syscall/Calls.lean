import Enarx.Sallyport.Syscall.Types

/-!
# The system calls that are forwarded to the host

One structure a call, in alphabetical order, with its `stage`, `commit` and
`collect`. `stage` returns the argument words and what was staged.
-/
namespace Enarx.Sallyport

open Libc

def sockaddrOffsets : Option StagedSockaddrOutput → Word × Word
  | none => (NULL, NULL)
  | some staged => (staged.addr.offset, staged.addrlen.offset)

structure Accept where
  sockfd : CInt
  addr : Option SockaddrOutput

def Accept.stage (self : Accept) : StageM (List Word × Option StagedSockaddrOutput) := do
  let addr ← stageOption SockaddrOutput.stage self.addr
  let (addrOffset, addrlenOffset) := sockaddrOffsets addr
  return ([intAsUsize self.sockfd, addrOffset, addrlenOffset], addr)

-- the address is collected whatever the result
def Accept.collect (addr : Option CommittedSockaddrOutput) (ret : Except Errno CInt) :
    CollectM (Except Errno CInt) := do
  collectOption CommittedSockaddrOutput.collect addr
  return ret

structure Accept4 where
  sockfd : CInt
  addr : Option SockaddrOutput
  flags : CInt

def Accept4.stage (self : Accept4) : StageM (List Word × Option StagedSockaddrOutput) := do
  let addr ← stageOption SockaddrOutput.stage self.addr
  let (addrOffset, addrlenOffset) := sockaddrOffsets addr
  return ([intAsUsize self.sockfd, addrOffset, addrlenOffset, intAsUsize self.flags], addr)

def Accept4.collect (addr : Option CommittedSockaddrOutput) (ret : Except Errno CInt) :
    CollectM (Except Errno CInt) := do
  collectOption CommittedSockaddrOutput.collect addr
  return ret

structure Bind where
  sockfd : CInt
  addr : SockaddrInput

def Bind.stage (self : Bind) : StageM (List Word × Input sockaddrBytes) := do
  let addr ← SockaddrInput.stage self.addr
  return ([intAsUsize self.sockfd, addr.offset, addr.len], addr)

structure ClockGetres where
  clockid : CInt
  res : Option (Ref timespec)

def ClockGetres.stage (self : ClockGetres) : StageM (List Word × Option (Output timespec)) := do
  match self.res with
  | some res => do
    let res ← Output.stage res
    return ([intAsUsize self.clockid, res.offset], some res)
  | none => return ([intAsUsize self.clockid, NULL], none)

def ClockGetres.collect (res : Option (Output timespec)) (ret : Except Errno Unit) :
    CollectM (Except Errno Unit) := do
  if ret.isOk then
    collectOption Output.collect res
  return ret

structure ClockGettime where
  clockid : CInt
  tp : Ref timespec

def ClockGettime.stage (self : ClockGettime) : StageM (List Word × Output timespec) := do
  let tp ← Output.stage self.tp
  return ([intAsUsize self.clockid, tp.offset], tp)

def ClockGettime.collect (tp : Output timespec) (ret : Except Errno Unit) :
    CollectM (Except Errno Unit) :=
  collectOk tp ret

structure Connect where
  sockfd : CInt
  addr : SockaddrInput

def Connect.stage (self : Connect) : StageM (List Word × Input sockaddrBytes) := do
  let addr ← SockaddrInput.stage self.addr
  return ([intAsUsize self.sockfd, addr.offset, addr.len], addr)

structure EpollCtl where
  epfd : CInt
  op : CInt
  fd : CInt
  event : Ref epollEvent

def EpollCtl.stage (self : EpollCtl) : StageM (List Word × Input epollEvent) := do
  let event ← Input.stage self.event
  return ([intAsUsize self.epfd, intAsUsize self.op, intAsUsize self.fd, event.offset], event)

structure EpollPwait where
  epfd : CInt
  events : Slice epollEvent
  timeout : CInt
  sigmask : Ref sigset

structure StagedEpollPwait where
  events : Output epollEvent
  sigmask : Input sigset

-- `Argv<5>`: the size of the signal set has no argument word
def EpollPwait.stage (self : EpollPwait) : StageM (List Word × StagedEpollPwait) := do
  let events ← Output.stageSlice self.events
  let sigmask ← Input.stage self.sigmask
  return ([intAsUsize self.epfd, events.offset, events.len, intAsUsize self.timeout,
    sigmask.offset], { events, sigmask })

def StagedEpollPwait.commit (self : StagedEpollPwait) : CommitM (Output epollEvent) := do
  let events ← self.events.commit
  self.sigmask.commit
  return events

def EpollPwait.collect (events : Output epollEvent) (ret : Except Errno CInt) :
    CollectM (Option (Except Errno CInt)) :=
  collectCount events ret

structure EpollWait where
  epfd : CInt
  events : Slice epollEvent
  timeout : CInt

def EpollWait.stage (self : EpollWait) : StageM (List Word × Output epollEvent) := do
  let events ← Output.stageSlice self.events
  return ([intAsUsize self.epfd, events.offset, events.len, intAsUsize self.timeout], events)

def EpollWait.collect (events : Output epollEvent) (ret : Except Errno CInt) :
    CollectM (Option (Except Errno CInt)) :=
  collectCount events ret

structure Fcntl where
  fd : CInt
  cmd : CInt
  arg : CInt

structure Getsockname where
  sockfd : CInt
  addr : SockaddrOutput

def Getsockname.stage (self : Getsockname) : StageM (List Word × StagedSockaddrOutput) := do
  let addr ← self.addr.stage
  return ([intAsUsize self.sockfd, addr.addr.offset, addr.addrlen.offset], addr)

def Getsockname.collect (addr : CommittedSockaddrOutput) (ret : Except Errno Unit) :
    CollectM (Except Errno Unit) := do
  addr.collect
  return ret

structure Ioctl where
  fd : CInt
  request : CInt
  argp : Option (Slice .u8)

structure AllocIoctl where
  ioctl : Ioctl

def AllocIoctl.stage (self : AllocIoctl) : StageM (List Word × Option (InOut .u8)) := do
  let argp ← stageOption InOut.stageSlice self.ioctl.argp
  let (argpOffset, argpLen) :=
    match argp with
    | none => (NULL, usize 0)
    | some argp => (argp.offset, argp.len)
  return ([intAsUsize self.ioctl.fd, intAsUsize self.ioctl.request, argpOffset, argpLen], argp)

def AllocIoctl.collect (argp : Option (Output .u8)) (ret : Except Errno CInt) :
    CollectM (Except Errno CInt) := do
  collectOption Output.collect argp
  return ret

structure Nanosleep where
  req : Ref timespec
  rem : Option (Ref timespec)

structure StagedNanosleep where
  req : Input timespec
  rem : Option (InOut timespec)

def Nanosleep.stage (self : Nanosleep) : StageM (List Word × StagedNanosleep) := do
  let req ← Input.stage self.req
  match self.rem with
  | some rem => do
    let rem ← InOut.stage rem
    return ([req.offset, rem.offset], { req, rem := some rem })
  | none => return ([req.offset, NULL], { req, rem := none })

def StagedNanosleep.commit (self : StagedNanosleep) : CommitM (Option (Output timespec)) := do
  self.req.commit
  commitOption InOut.commit self.rem

def Nanosleep.collect (rem : Option (Output timespec)) (ret : Except Errno Unit) :
    CollectM (Except Errno Unit) := do
  match ret with
  | .error errno =>
    if errno = EINTR then
      collectOption Output.collect rem
  | .ok _ => pure ()
  return ret

structure Open where
  pathname : Slice .u8
  flags : CInt
  mode : Option (BitVec 32)

structure AllocOpen where
  «open» : Open

def AllocOpen.stage (self : AllocOpen) : StageM (List Word × Input .u8) := do
  let pathname ← Input.stageSlice self.open.pathname
  return ([pathname.offset, pathname.len, intAsUsize self.open.flags,
    uintAsUsize (self.open.mode.getD 0)], pathname)

structure Poll where
  fds : Slice pollfd
  timeout : CInt

def Poll.stage (self : Poll) : StageM (List Word × InOut pollfd) := do
  let fds ← InOut.stageSlice self.fds
  return ([fds.offset, fds.len, intAsUsize self.timeout], fds)

def Poll.collect (fds : Output pollfd) (ret : Except Errno CInt) :
    CollectM (Option (Except Errno CInt)) :=
  collectCount fds ret

structure Read where
  fd : CInt
  buf : Slice .u8

def Read.stage (self : Read) : StageM (List Word × Output .u8) := do
  let (buf, _) ← Output.stageSliceMax self.buf
  return ([intAsUsize self.fd, buf.offset, buf.len], buf)

def Read.collect (buf : Output .u8) (ret : Except Errno Nat) :
    CollectM (Option (Except Errno Nat)) :=
  collectCount buf ret

structure Readv where
  fd : CInt
  iovs : List Span

structure StagedReadv where
  buf : (len : Nat) × BlockRef .u8 len
  iovs : List Span

def Readv.stage (self : Readv) : StageM (List Word × StagedReadv) := do
  let buf ← allocateSliceMax .u8 (← iovLen self.iovs)
  return ([intAsUsize self.fd, usize buf.2.offset, usize buf.1], { buf, iovs := self.iovs })

def Readv.collect (committed : StagedReadv) (ret : Except Errno Nat) :
    CollectM (Option (Except Errno Nat)) :=
  match ret with
  | .ok ret =>
    if committed.buf.1 < ret then
      pure none
    else do
      copyToIter committed.buf.2.ptr (takeSpans ret committed.iovs)
      return some (.ok ret)
  | .error errno => pure (some (.error errno))

structure Recv where
  sockfd : CInt
  buf : Slice .u8
  flags : CInt

def Recv.stage (self : Recv) : StageM (List Word × Output .u8) := do
  let (buf, _) ← Output.stageSliceMax self.buf
  return ([intAsUsize self.sockfd, buf.offset, buf.len, intAsUsize self.flags], buf)

def Recv.collect (buf : Output .u8) (ret : Except Errno Nat) :
    CollectM (Option (Except Errno Nat)) :=
  collectCount buf ret

structure Recvfrom where
  sockfd : CInt
  buf : Slice .u8
  flags : CInt
  srcAddr : SockaddrOutput

structure StagedRecvfrom where
  buf : Output .u8
  srcAddr : StagedSockaddrOutput

structure CommittedRecvfrom where
  buf : Output .u8
  srcAddr : CommittedSockaddrOutput

def Recvfrom.stage (self : Recvfrom) : StageM (List Word × StagedRecvfrom) := do
  let srcAddr ← self.srcAddr.stage
  let (buf, _) ← Output.stageSliceMax self.buf
  return ([intAsUsize self.sockfd, buf.offset, buf.len, intAsUsize self.flags,
    srcAddr.addr.offset, srcAddr.addrlen.offset], { buf, srcAddr })

def StagedRecvfrom.commit (self : StagedRecvfrom) : CommitM CommittedRecvfrom := do
  let buf ← self.buf.commit
  let srcAddr ← self.srcAddr.commit
  return { buf, srcAddr }

def Recvfrom.collect (committed : CommittedRecvfrom) (ret : Except Errno Nat) :
    CollectM (Option (Except Errno Nat)) :=
  match ret with
  | .ok ret =>
    if h : committed.buf.val.len < ret then
      pure none
    else do
      committed.buf.collectRange ret (Nat.not_lt.mp h)
      committed.srcAddr.collect
      return some (.ok ret)
  | .error errno => pure (some (.error errno))

def commitBytes (input : Input .u8) : CommitM Nat := do
  input.commit
  return input.val.len

structure Send where
  sockfd : CInt
  buf : Slice .u8
  flags : CInt

def Send.stage (self : Send) : StageM (List Word × Input .u8) := do
  let (buf, _) ← Input.stageSliceMax self.buf
  return ([intAsUsize self.sockfd, buf.offset, buf.len, intAsUsize self.flags], buf)

def Send.collect (len : Nat) (ret : Except Errno Nat) : CollectM (Option (Except Errno Nat)) :=
  checkCount len ret

structure Sendto where
  sockfd : CInt
  buf : Slice .u8
  flags : CInt
  destAddr : SockaddrInput

structure StagedSendto where
  destAddr : Input sockaddrBytes
  buf : Input .u8

def Sendto.stage (self : Sendto) : StageM (List Word × StagedSendto) := do
  let destAddr ← SockaddrInput.stage self.destAddr
  let (buf, _) ← Input.stageSliceMax self.buf
  return ([intAsUsize self.sockfd, buf.offset, buf.len, intAsUsize self.flags,
    destAddr.offset, destAddr.len], { destAddr, buf })

def StagedSendto.commit (self : StagedSendto) : CommitM Nat := do
  self.destAddr.commit
  commitBytes self.buf

def Sendto.collect (len : Nat) (ret : Except Errno Nat) : CollectM (Option (Except Errno Nat)) :=
  checkCount len ret

structure Setsockopt where
  sockfd : CInt
  level : CInt
  optname : CInt
  optval : Option SockoptInput

def Setsockopt.stage (self : Setsockopt) : StageM (List Word × Option (Input sockoptBytes)) := do
  let optval ← stageOption SockoptInput.stage self.optval
  let (optvalOffset, optlen) :=
    match optval with
    | none => (NULL, usize 0)
    | some optval => (optval.offset, optval.len)
  return ([intAsUsize self.sockfd, intAsUsize self.level, intAsUsize self.optname,
    optvalOffset, optlen], optval)

structure Write where
  fd : CInt
  buf : Slice .u8

def Write.stage (self : Write) : StageM (List Word × Input .u8) := do
  let (buf, _) ← Input.stageSliceMax self.buf
  return ([intAsUsize self.fd, buf.offset, buf.len], buf)

def Write.collect (count : Nat) (ret : Except Errno Nat) : CollectM (Option (Except Errno Nat)) :=
  checkCount count ret

structure Writev where
  fd : CInt
  iovs : List Span

structure StagedWritev where
  buf : (len : Nat) × BlockRef .u8 len
  iovs : List Span

def Writev.stage (self : Writev) : StageM (List Word × StagedWritev) := do
  let buf ← allocateSliceMax .u8 (← iovLen self.iovs)
  return ([intAsUsize self.fd, usize buf.2.offset, usize buf.1], { buf, iovs := self.iovs })

def StagedWritev.commit (self : StagedWritev) : CommitM Nat := do
  copyFromIter self.buf.2.ptr (takeSpans self.buf.1 self.iovs)
  return self.buf.1

def Writev.collect (count : Nat) (ret : Except Errno Nat) :
    CollectM (Option (Except Errno Nat)) :=
  checkCount count ret

end Enarx.Sallyport
