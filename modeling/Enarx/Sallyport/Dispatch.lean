import Enarx.Sallyport.Handler

/-!
# The system call dispatcher

`Handler::syscall` in two halves: `dispatch` validates the argument registers
and casts them to the types of the handler method, one arm a system call, and
`invoke` runs the method and makes the return words.
-/
namespace Enarx.Sallyport

open Libc Platform

structure Argv where
  a : Word
  b : Word
  c : Word
  d : Word
  e : Word
  f : Word
  deriving DecidableEq, Repr

def Argv.toList (argv : Argv) : List Word := [argv.a, argv.b, argv.c, argv.d, argv.e, argv.f]

structure Registers where
  num : Word
  argv : Argv
  deriving DecidableEq, Repr

inductive Invocation where
  | syscall (call : Syscall)
  | maybeAlloc (call : MaybeAlloc)
  | stub (call : Stub)
  | memory (call : MemoryCall)
  | archPrctl (code : CInt) (addr : Word)
  | rtSigaction (signum : CInt) (act oldact : Option (Ref sigaction)) (sigsetsize : Word)

/-- The call behind a handler method; memory management, `arch_prctl` and
`rt_sigaction` do not go through `execute`. -/
def Invocation.call : Invocation → Option Call
  | .syscall call => some (.alloc (.syscall call))
  | .maybeAlloc call => some (.maybeAlloc call)
  | .stub call => some (.stub call)
  | .memory _ | .archPrctl .. | .rtSigaction .. => none

def nonNull (addr : Word) : Option Word := if addr = 0 then none else some addr

def nonNullOr (addr : Word) : Except Abort Word := if addr = 0 then .error (.err EFAULT) else .ok addr

def mremapFlags (flags : CInt) (newAddress : Word) : Except Abort (Option MremapFlags) :=
  if flags = 0 ∧ newAddress = 0 then .ok none
  else if flags = MREMAP_MAYMOVE ∧ newAddress = 0 then .ok (some ⟨none, false⟩)
  else if flags = MREMAP_MAYMOVE ||| MREMAP_DONTUNMAP ∧ newAddress = 0 then
    .ok (some ⟨none, true⟩)
  else if flags &&& MREMAP_FIXED ≠ 0 ∧ newAddress = 0 then .error (.err EINVAL)
  else if flags = MREMAP_MAYMOVE ||| MREMAP_FIXED then .ok (some ⟨some newAddress, false⟩)
  else if flags = MREMAP_MAYMOVE ||| MREMAP_FIXED ||| MREMAP_DONTUNMAP then
    .ok (some ⟨some newAddress, true⟩)
  else .error (.err EINVAL)

/-- The `argp` of `ioctl`: the four bytes of a `c_int`, for the two requests that have one. -/
def validateArgp (platform : Platform) (request : CInt) (argp : Word) :
    Except Abort (Option (Slice .u8)) :=
  if argp = 0 then .ok none
  else if request = FIONBIO ∨ request = FIONREAD then do
    let argp ← platform.validateMut int argp
    return some ⟨argp.addr, 4⟩
  else .error (.err ENOTSUP)

def passthrough (call : Passthrough) : Except Abort Invocation := .ok (.syscall (.passthrough call))

def dispatch (platform : Platform) (mem : Mem) : Sysno → Argv → Except Abort Invocation
  | .accept, ⟨sockfd, addr, addrlen, _, _, _⟩ => do
    let addr ← orNone addr (platform.validateSockaddrOutput mem addr addrlen)
    return .syscall (.accept { sockfd := usizeAsInt sockfd, addr })
  | .accept4, ⟨sockfd, addr, addrlen, flags, _, _⟩ => do
    let addr ← orNone addr (platform.validateSockaddrOutput mem addr addrlen)
    return .syscall
      (.accept4 { sockfd := usizeAsInt sockfd, addr, flags := usizeAsInt flags })
  | .archPrctl, ⟨code, addr, _, _, _, _⟩ => return .archPrctl (usizeAsInt code) addr
  | .bind, ⟨sockfd, addr, addrlen, _, _, _⟩ => do
    let addr ← platform.validateSockaddrInput addr addrlen
    return .syscall (.bind { sockfd := usizeAsInt sockfd, addr })
  | .brk, ⟨addr, _, _, _, _, _⟩ => return .memory (.brk (nonNull addr))
  | .clockGetres, ⟨clockid, res, _, _, _, _⟩ => do
    let res ← orNone res (platform.validateMut timespec res)
    return .syscall (.clockGetres { clockid := usizeAsInt clockid, res })
  | .clockGettime, ⟨clockid, tp, _, _, _, _⟩ => do
    let tp ← platform.validateMut timespec tp
    return .syscall (.clockGettime { clockid := usizeAsInt clockid, tp })
  | .close, ⟨fd, _, _, _, _, _⟩ => passthrough (.close (usizeAsInt fd))
  | .connect, ⟨sockfd, addr, addrlen, _, _, _⟩ => do
    let addr ← platform.validateSockaddrInput addr addrlen
    return .syscall (.connect { sockfd := usizeAsInt sockfd, addr })
  | .dup, ⟨oldfd, _, _, _, _, _⟩ => passthrough (.dup (usizeAsInt oldfd))
  | .dup2, ⟨oldfd, newfd, _, _, _, _⟩ => passthrough (.dup2 (usizeAsInt oldfd) (usizeAsInt newfd))
  | .dup3, ⟨oldfd, newfd, flags, _, _, _⟩ =>
    passthrough (.dup3 (usizeAsInt oldfd) (usizeAsInt newfd) (usizeAsInt flags))
  | .epollCreate1, ⟨flags, _, _, _, _, _⟩ => passthrough (.epollCreate1 (usizeAsInt flags))
  | .epollCtl, ⟨epfd, op, fd, event, _, _⟩ => do
    let event ← platform.validate epollEvent event
    return .syscall (.epollCtl
      { epfd := usizeAsInt epfd, op := usizeAsInt op, fd := usizeAsInt fd, event })
  -- without a signal mask it is `epoll_wait`
  | .epollPwait, ⟨epfd, events, maxevents, timeout, sigmask, _⟩ => do
    let events ← platform.validateSliceMut epollEvent events maxevents
    if sigmask = 0 then
      return .syscall (.epollWait
        { epfd := usizeAsInt epfd, events, timeout := usizeAsInt timeout })
    let sigmask ← platform.validate sigset sigmask
    return .syscall (.epollPwait
      { epfd := usizeAsInt epfd, events, timeout := usizeAsInt timeout, sigmask })
  | .epollWait, ⟨epfd, events, maxevents, timeout, _, _⟩ => do
    let events ← platform.validateSliceMut epollEvent events maxevents
    return .syscall (.epollWait
      { epfd := usizeAsInt epfd, events, timeout := usizeAsInt timeout })
  | .eventfd2, ⟨initval, flags, _, _, _, _⟩ =>
    passthrough (.eventfd2 (usizeAsInt initval) (usizeAsInt flags))
  | .exit, ⟨status, _, _, _, _, _⟩ => passthrough (.exit (usizeAsInt status))
  | .exitGroup, ⟨status, _, _, _, _, _⟩ => passthrough (.exitGroup (usizeAsInt status))
  | .fcntl, ⟨fd, cmd, arg, _, _, _⟩ =>
    return .maybeAlloc (.fcntl
      { fd := usizeAsInt fd, cmd := usizeAsInt cmd, arg := usizeAsInt arg })
  | .fstat, ⟨fd, statbuf, _, _, _, _⟩ => do
    let statbuf ← platform.validateMut stat statbuf
    return .stub (.fstat (usizeAsInt fd) statbuf)
  | .getegid, _ => return .stub .getegid
  | .geteuid, _ => return .stub .geteuid
  | .getgid, _ => return .stub .getgid
  | .getpid, _ => return .stub .getpid
  | .getrandom, ⟨buf, buflen, flags, _, _, _⟩ => do
    let buf ← platform.validateSliceMut .u8 buf buflen
    return .stub (.getrandom buf (usizeAsInt flags))
  | .getsockname, ⟨sockfd, addr, addrlen, _, _, _⟩ => do
    let addr ← platform.validateSockaddrOutput mem addr addrlen
    return .syscall (.getsockname { sockfd := usizeAsInt sockfd, addr })
  | .getuid, _ => return .stub .getuid
  | .ioctl, ⟨fd, request, argp, _, _, _⟩ => do
    let argp ← validateArgp platform (usizeAsInt request) argp
    return .maybeAlloc (.ioctl { fd := usizeAsInt fd, request := usizeAsInt request, argp })
  | .listen, ⟨sockfd, backlog, _, _, _, _⟩ =>
    passthrough (.listen (usizeAsInt sockfd) (usizeAsInt backlog))
  | .madvise, ⟨addr, length, advice, _, _, _⟩ => do
    let addr ← nonNullOr addr
    return .memory (.madvise addr length (usizeAsInt advice))
  | .mmap, ⟨addr, length, prot, flags, fd, offset⟩ =>
    return .memory (.mmap (nonNull addr) length (usizeAsInt prot) (usizeAsInt flags)
      (usizeAsInt fd) offset)
  | .mprotect, ⟨addr, len, prot, _, _, _⟩ => do
    let addr ← nonNullOr addr
    return .memory (.mprotect addr len (usizeAsInt prot))
  | .mremap, ⟨oldAddress, oldSize, newSize, flags, newAddress, _⟩ => do
    let oldAddress ← nonNullOr oldAddress
    let flags ← mremapFlags (usizeAsInt flags) newAddress
    return .memory (.mremap oldAddress oldSize newSize flags)
  | .munmap, ⟨addr, length, _, _, _, _⟩ => do
    let addr ← nonNullOr addr
    return .memory (.munmap addr length)
  | .nanosleep, ⟨req, rem, _, _, _, _⟩ => do
    let req ← platform.validate timespec req
    let rem ← orNone rem (platform.validateMut timespec rem)
    return .syscall (.nanosleep { req, rem })
  | .open_, ⟨pathname, flags, mode, _, _, _⟩ => do
    let pathname ← platform.validateStr mem pathname
    let mode := if mode = 0 then none else some (usizeAsInt mode)
    return .maybeAlloc (.open_ { pathname, flags := usizeAsInt flags, mode })
  | .poll, ⟨fds, nfds, timeout, _, _, _⟩ => do
    let fds ← platform.validateSliceMut pollfd fds nfds
    return .syscall (.poll { fds, timeout := usizeAsInt timeout })
  | .read, ⟨fd, buf, count, _, _, _⟩ => do
    let buf ← platform.validateSliceMut .u8 buf count
    return .syscall (.read { fd := usizeAsInt fd, buf })
  | .readlink, ⟨pathname, buf, bufsiz, _, _, _⟩ => do
    let pathname ← platform.validateStr mem pathname
    let buf ← platform.validateSliceMut .u8 buf bufsiz
    return .stub (.readlink pathname buf)
  | .readv, ⟨fd, iov, iovcnt, _, _, _⟩ => do
    let iovs ← platform.validateIovecSliceMut mem iov iovcnt
    return .syscall (.readv { fd := usizeAsInt fd, iovs })
  | .recvfrom, ⟨sockfd, buf, len, flags, srcAddr, addrlen⟩ => do
    let buf ← platform.validateSliceMut .u8 buf len
    if srcAddr = 0 then
      return .syscall (.recv { sockfd := usizeAsInt sockfd, buf, flags := usizeAsInt flags })
    let srcAddr ← platform.validateSockaddrOutput mem srcAddr addrlen
    return .syscall (.recvfrom
      { sockfd := usizeAsInt sockfd, buf, flags := usizeAsInt flags, srcAddr })
  | .rtSigaction, ⟨signum, act, oldact, sigsetsize, _, _⟩ => do
    let act ← orNone act (platform.validate sigaction act)
    let oldact ← orNone oldact (platform.validateMut sigaction oldact)
    return .rtSigaction (usizeAsInt signum) act oldact sigsetsize
  | .rtSigprocmask, ⟨_, set, oldset, _, _, _⟩ => do
    let _ ← orNone set (platform.validate sigset set)
    let _ ← orNone oldset (platform.validateMut sigset oldset)
    return .stub .rtSigprocmask
  | .sendto, ⟨sockfd, buf, len, flags, destAddr, addrlen⟩ => do
    let buf ← platform.validateSlice .u8 buf len
    if destAddr = 0 then
      return .syscall (.send { sockfd := usizeAsInt sockfd, buf, flags := usizeAsInt flags })
    let destAddr ← platform.validateSockaddrInput destAddr addrlen
    return .syscall (.sendto
      { sockfd := usizeAsInt sockfd, buf, flags := usizeAsInt flags, destAddr })
  | .setsockopt, ⟨sockfd, level, optname, optval, optlen, _⟩ => do
    let optval ← orNone optval (platform.validateSockoptInput optval optlen)
    return .syscall (.setsockopt { sockfd := usizeAsInt sockfd, level := usizeAsInt level,
                                   optname := usizeAsInt optname, optval })
  | .setTidAddress, ⟨tidptr, _, _, _, _, _⟩ => do
    let _ ← platform.validateMut int tidptr
    return .stub .setTidAddress
  | .sigaltstack, ⟨ss, oldSs, _, _, _, _⟩ => do
    let _ ← orNone ss (platform.validate stack ss)
    let _ ← orNone oldSs (platform.validateMut stack oldSs)
    return .stub .sigaltstack
  | .socket, ⟨domain, typ, protocol, _, _, _⟩ =>
    passthrough (.socket (usizeAsInt domain) (usizeAsInt typ) (usizeAsInt protocol))
  | .sync, _ => passthrough .sync
  | .uname, ⟨buf, _, _, _, _, _⟩ => do
    let buf ← platform.validateMut utsname buf
    return .stub (.uname buf)
  | .write, ⟨fd, buf, count, _, _, _⟩ => do
    let buf ← platform.validateSlice .u8 buf count
    return .syscall (.write { fd := usizeAsInt fd, buf })
  | .writev, ⟨fd, iov, iovcnt, _, _, _⟩ => do
    let iovs ← platform.validateIovecSlice mem iov iovcnt
    return .syscall (.writev { fd := usizeAsInt fd, iovs })

def decode (platform : Platform) (mem : Mem) (registers : Registers) : Except Abort Invocation :=
  match Sysno.ofWord registers.num with
  | some sysno => dispatch platform mem sysno registers.argv
  | none => .error (.err ENOSYS)

variable (env : Env σ)

def invoke : Invocation → HandlerM σ (Word × Word)
  | .syscall call => do finish env (call.reply (← execute env (.alloc (.syscall call))))
  | .maybeAlloc call => do
    finish env (Reply.ofExcept intAsUsize (← execute env (.maybeAlloc call)))
  | .stub call => do finish env (call.reply (← execute env (.stub call)))
  | .memory call => do return (← env.memory call, 0)
  | .archPrctl code addr => do
    archPrctl env code addr
    return (0, 0)
  | .rtSigaction signum act oldact sigsetsize => do
    let old ← rtSigaction signum act oldact.isSome sigsetsize
    match oldact, old with
    | some sysOldact, some old => storeWorkload sysOldact.addr old
    | _, _ => pure ()
    return (0, 0)

def syscall (registers : Registers) : HandlerM σ (Word × Word) := do
  let invocation ← validated (decode env.platform (← get).mem registers)
  invoke env invocation

variable {env}

theorem syscall_eq {registers : Registers} {guest : Guest σ} {invocation : Invocation}
    (h : decode env.platform guest.mem registers = .ok invocation) :
    syscall env registers guest = invoke env invocation guest := by
  unfold syscall
  rw [Exec.bind_apply]
  change (validated (decode env.platform guest.mem registers) >>= invoke env) guest = _
  rw [h]
  rfl

theorem syscall_aborted {registers : Registers} {guest : Guest σ} {abort : Abort}
    (h : decode env.platform guest.mem registers = .error abort) :
    syscall env registers guest = (.error abort.stop, guest) := by
  unfold syscall
  rw [Exec.bind_apply]
  change (validated (decode env.platform guest.mem registers) >>= invoke env) guest = _
  rw [h]
  rfl

end Enarx.Sallyport
