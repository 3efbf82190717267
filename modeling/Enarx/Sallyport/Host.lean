import Enarx.Sallyport.Block
import Enarx.Sallyport.Syscall.Types

/-!
# Execution on the host

`host::execute` translates the offsets of an item to pointers into its data and
issues the system call. The kernel itself is not modelled: executing an item
gives the call that is issued, with the arguments that are loaded, or the error
that keeps it from being issued. Items that are not supported are skipped.
-/
namespace Enarx.Sallyport.Host

open Libc

/-- The `data` slice of an item, in the address space of the host. -/
structure Data where
  base : Nat
  bytes : List Byte
  deriving DecidableEq, Repr

structure Ptr where
  addr : Nat
  len : Nat
  size : Nat
  deriving DecidableEq, Repr

def Ptr.span (ptr : Ptr) : Span := ⟨ptr.addr, ptr.size⟩

inductive Value where
  | word (value : Word)
  | ptr (target : Ptr)
  | null
  deriving DecidableEq, Repr

def Value.toWord : Value → Word
  | .word value => value
  | .ptr target => usize target.addr
  | .null => 0

def Value.ptr? : Value → Option Ptr
  | .ptr target => some target
  | _ => none

def deref (T : Layout) (data : Data) (offset len : Word) : Except Errno Ptr :=
  if 2 ^ 64 ≤ len.toNat * T.size then
    .error EOVERFLOW
  else if data.bytes.length < len.toNat * T.size ∨
      data.bytes.length - len.toNat * T.size < offset.toNat then
    .error EFAULT
  else
    .ok ⟨data.base + offset.toNat, len.toNat, len.toNat * T.size⟩

def checkAligned (align : Nat) (ptr : Ptr) : Except Errno Ptr :=
  if alignOffset ptr.addr align ≠ 0 then .error EFAULT else .ok ptr

def derefAligned (T : Layout) (data : Data) (offset len : Word) : Except Errno Ptr := do
  checkAligned T.align (← deref T data offset len)

def derefSockaddrInput (data : Data) (addrOffset addrlen : Word) : Except Errno Ptr := do
  checkAligned sockaddrStorage.align (← deref .u8 data addrOffset addrlen)

def Data.socklen (data : Data) (offset : Word) : Word :=
  usize (leNat ((data.bytes.drop offset.toNat).take Libc.socklen.size))

def derefSockaddrOutput (data : Data) (addrOffset addrlenOffset : Word) :
    Except Errno (Ptr × Ptr) := do
  let addrlen ← derefAligned Libc.socklen data addrlenOffset 1
  let addr ← deref .u8 data addrOffset (data.socklen addrlenOffset)
  let addr ← checkAligned sockaddrStorage.align addr
  return (addr, addrlen)

def orNull (offset : Word) (deref : Except Errno Ptr) : Except Errno Value :=
  if offset = NULL then .ok .null else .ptr <$> deref

def sockaddrOrNull (data : Data) (addrOffset addrlenOffset : Word) :
    Except Errno (Value × Value) :=
  if addrOffset = NULL then
    .ok (.null, .null)
  else do
    let (addr, addrlen) ← derefSockaddrOutput data addrOffset addrlenOffset
    return (.ptr addr, .ptr addrlen)

/-- `Syscall<N, 1>`: the number and the arguments, `N` of them. -/
structure KernelCall where
  num : Sysno
  argv : List Value
  deriving DecidableEq, Repr

/-- `syscall::execute` up to the `syscall` instruction. -/
def syscall (num : Word) (argv : List Word) (data : Data) : Except Errno (Option KernelCall) :=
  match Sysno.ofWord num, argv with
  | some .accept, [sockfd, addrOffset, addrlenOffset, _, _, _] => do
    let (addr, addrlen) ← sockaddrOrNull data addrOffset addrlenOffset
    return some ⟨.accept, [.word sockfd, addr, addrlen]⟩
  | some .accept4, [sockfd, addrOffset, addrlenOffset, flags, _, _] => do
    let (addr, addrlen) ← sockaddrOrNull data addrOffset addrlenOffset
    return some ⟨.accept4, [.word sockfd, addr, addrlen, .word flags]⟩
  | some .bind, [sockfd, addrOffset, addrlen, _, _, _] => do
    let addr ← derefSockaddrInput data addrOffset addrlen
    return some ⟨.bind, [.word sockfd, .ptr addr, .word addrlen]⟩
  | some .clockGetres, [clockid, resOffset, _, _, _, _] => do
    let res ← orNull resOffset (derefAligned timespec data resOffset 1)
    return some ⟨.clockGetres, [.word clockid, res]⟩
  | some .clockGettime, [clockid, tpOffset, _, _, _, _] => do
    let tp ← derefAligned timespec data tpOffset 1
    return some ⟨.clockGettime, [.word clockid, .ptr tp]⟩
  | some .close, [fd, _, _, _, _, _] => return some ⟨.close, [.word fd]⟩
  | some .connect, [sockfd, addrOffset, addrlen, _, _, _] => do
    let addr ← derefSockaddrInput data addrOffset addrlen
    return some ⟨.connect, [.word sockfd, .ptr addr, .word addrlen]⟩
  | some .dup, [oldfd, _, _, _, _, _] => return some ⟨.dup, [.word oldfd]⟩
  | some .dup2, [oldfd, newfd, _, _, _, _] => return some ⟨.dup2, [.word oldfd, .word newfd]⟩
  | some .dup3, [oldfd, newfd, flags, _, _, _] =>
    return some ⟨.dup3, [.word oldfd, .word newfd, .word flags]⟩
  | some .epollCreate1, [flags, _, _, _, _, _] => return some ⟨.epollCreate1, [.word flags]⟩
  | some .epollCtl, [epfd, op, fd, eventOffset, _, _] => do
    let event ← derefAligned epollEvent data eventOffset 1
    return some ⟨.epollCtl, [.word epfd, .word op, .word fd, .ptr event]⟩
  | some .epollPwait, [epfd, eventsOffset, maxevents, timeout, sigmaskOffset, _] => do
    let events ← derefAligned epollEvent data eventsOffset maxevents
    let sigmask ← derefAligned sigset data sigmaskOffset 1
    return some ⟨.epollPwait,
      [.word epfd, .ptr events, .word maxevents, .word timeout, .ptr sigmask]⟩
  | some .epollWait, [epfd, eventsOffset, maxevents, timeout, _, _] => do
    let events ← derefAligned epollEvent data eventsOffset maxevents
    return some ⟨.epollWait, [.word epfd, .ptr events, .word maxevents, .word timeout]⟩
  | some .eventfd2, [initval, flags, _, _, _, _] =>
    return some ⟨.eventfd2, [.word initval, .word flags]⟩
  | some .exit, [status, _, _, _, _, _] => return some ⟨.exit, [.word status]⟩
  | some .exitGroup, [status, _, _, _, _, _] => return some ⟨.exitGroup, [.word status]⟩
  | some .fcntl, [fd, cmd, arg, _, _, _] =>
    return some ⟨.fcntl, [.word fd, .word cmd, .word arg]⟩
  | some .getsockname, [sockfd, addrOffset, addrlenOffset, _, _, _] => do
    let (addr, addrlen) ← derefSockaddrOutput data addrOffset addrlenOffset
    return some ⟨.getsockname, [.word sockfd, .ptr addr, .ptr addrlen]⟩
  | some .ioctl, [fd, request, argpOffset, argpLen, _, _] => do
    let argp ← orNull argpOffset (deref .u8 data argpOffset argpLen)
    return some ⟨.ioctl, [.word fd, .word request, argp]⟩
  | some .listen, [sockfd, backlog, _, _, _, _] =>
    return some ⟨.listen, [.word sockfd, .word backlog]⟩
  | some .nanosleep, [reqOffset, remOffset, _, _, _, _] => do
    let req ← derefAligned timespec data reqOffset 1
    let rem ← orNull remOffset (derefAligned timespec data remOffset 1)
    return some ⟨.nanosleep, [.ptr req, rem]⟩
  | some .open_, [pathnameOffset, pathnameLen, flags, mode, _, _] => do
    let pathname ← deref .u8 data pathnameOffset pathnameLen
    return some ⟨.open_, [.ptr pathname, .word flags, .word mode]⟩
  | some .poll, [fdsOffset, nfds, timeout, _, _, _] => do
    let fds ← derefAligned pollfd data fdsOffset nfds
    return some ⟨.poll, [.ptr fds, .word nfds, .word timeout]⟩
  | some .read, [fd, bufOffset, count, _, _, _] => do
    let buf ← deref .u8 data bufOffset count
    return some ⟨.read, [.word fd, .ptr buf, .word count]⟩
  | some .recvfrom, [sockfd, bufOffset, len, flags, srcAddrOffset, addrlenOffset] => do
    let buf ← deref .u8 data bufOffset len
    let (srcAddr, addrlen) ← sockaddrOrNull data srcAddrOffset addrlenOffset
    return some ⟨.recvfrom, [.word sockfd, .ptr buf, .word len, .word flags, srcAddr, addrlen]⟩
  | some .sendto, [sockfd, bufOffset, len, flags, destAddrOffset, addrlen] => do
    let buf ← deref .u8 data bufOffset len
    let destAddr ← orNull destAddrOffset (derefSockaddrInput data destAddrOffset addrlen)
    -- the length is passed on even without an address
    return some ⟨.sendto,
      [.word sockfd, .ptr buf, .word len, .word flags, destAddr, .word addrlen]⟩
  | some .setsockopt, [sockfd, level, optname, optvalOffset, optlen, _] => do
    let optval ← orNull optvalOffset do
      checkAligned usizeLayout.align (← deref .u8 data optvalOffset optlen)
    let optlen := if optvalOffset = NULL then 0 else optlen
    return some ⟨.setsockopt, [.word sockfd, .word level, .word optname, optval, .word optlen]⟩
  | some .socket, [domain, typ, protocol, _, _, _] =>
    return some ⟨.socket, [.word domain, .word typ, .word protocol]⟩
  | some .sync, _ => return some ⟨.sync, []⟩
  | some .write, [fd, bufOffset, count, _, _, _] => do
    let buf ← deref .u8 data bufOffset count
    return some ⟨.write, [.word fd, .ptr buf, .word count]⟩
  | _, _ => return none

structure CpuidCall where
  leaf : BitVec 32
  subLeaf : BitVec 32
  result : Ptr
  deriving DecidableEq, Repr

def numberCpuid : Word := 2

def enarxcall (num : Word) (argv : List Word) (data : Data) : Except Errno (Option CpuidCall) :=
  match argv with
  | [leaf, subLeaf, resultOffset, _] =>
    if num = numberCpuid then do
      let result ← derefAligned cpuidResult data resultOffset 1
      return some ⟨leaf.setWidth 32, subLeaf.setWidth 32, result⟩
    else
      return none
  | _ => return none

inductive Action where
  | syscall (call : KernelCall)
  | cpuid (call : CpuidCall)
  deriving DecidableEq, Repr

def Action.ptrs : Action → List Ptr
  | .syscall call => call.argv.filterMap Value.ptr?
  | .cpuid call => [call.result]

def itemData (base : Nat) (item : Item) : Data :=
  ⟨base + 8 * (item.pos + item.kind.usizeCount), item.data⟩

def execute (base : Nat) (item : Item) : Except Errno (Option Action) :=
  let data := itemData base item
  match item.kind with
  | .syscall => Option.map .syscall <$> syscall item.payload.num item.payload.argv data
  | .gdbcall => .ok none
  | .enarxcall => Option.map .cpuid <$> enarxcall item.payload.num item.payload.argv data

end Enarx.Sallyport.Host
