import Enarx.Sallyport.Dispatch
import Mathlib.Data.Set.Basic

/-!
# The system call interface of Linux on x86-64

What the kernel reads and writes in the memory of the calling process, and the
argument registers it uses, for the system calls that `execute` serves. This is
stated from the side of the kernel: its structure layouts and argument types, not
the ones of the sallyport.
-/
namespace Enarx.Sallyport

namespace Linux

open Libc

def sizeofEpollEvent : Nat := 12

def sizeofSigset : Nat := 8

def sizeofPollfd : Nat := 8

def sizeofTimespec : Nat := 16

def sizeofStat : Nat := 144

def sizeofUtsname : Nat := 390

def sizeofStack : Nat := 24

def EPOLL_CTL_DEL : CInt := 2

def area (addr : Word) (len : Nat) : Set Nat := {x | addr.toNat ≤ x ∧ x < addr.toNat + len}

def optional (ptr : Word) (area : Set Nat) : Set Nat := {x | ptr ≠ 0 ∧ x ∈ area}

def cstring (mem : Mem) (addr : Word) : Set Nat :=
  {x | addr.toNat ≤ x ∧ ∀ y, addr.toNat ≤ y → y < x → mem y ≠ 0}

def len32 (word : Word) : Nat := (usizeAsInt word).toNat

def socklenAt (mem : Mem) (addr : Word) : Nat := leNat (mem.read addr.toNat 4)

def iovecs (mem : Mem) (iov : Word) (count : Nat) : List Span :=
  (List.range count).map fun i =>
    ⟨(wordOfBytes (mem.read (iov.toNat + 16 * i) 8)).toNat,
      (wordOfBytes (mem.read (iov.toNat + 16 * i + 8) 8)).toNat⟩

def addresses (spans : List Span) : List Nat :=
  spans.flatMap fun span => List.range' span.addr span.len

/-- What the kernel reports when a call succeeds: the return value and, for a call with an
address output, the length of the address. -/
structure Result where
  ret : Word
  addrlen : Nat

def reads (mem : Mem) (argv : Argv) : Sysno → Set Nat
  | .accept | .accept4 => optional argv.b (area argv.c 4)
  | .bind | .connect => area argv.b (len32 argv.c)
  | .epollCtl =>
    {x | usizeAsInt argv.b ≠ EPOLL_CTL_DEL ∧ x ∈ area argv.d sizeofEpollEvent}
  | .epollPwait => optional argv.e (area argv.e sizeofSigset)
  | .getsockname => area argv.c 4
  | .ioctl => {x | usizeAsInt argv.b = FIONBIO ∧ x ∈ area argv.c 4}
  | .nanosleep => area argv.a sizeofTimespec
  | .open_ | .readlink => cstring mem argv.a
  | .poll => area argv.a (sizeofPollfd * len32 argv.b)
  | .readv => area argv.b (16 * argv.c.toNat)
  | .recvfrom => optional argv.e (area argv.f 4)
  | .rtSigprocmask => optional argv.b (area argv.b sizeofSigset)
  | .sendto => area argv.b argv.c.toNat ∪ optional argv.e (area argv.e (len32 argv.f))
  | .setsockopt => area argv.d (len32 argv.e)
  | .sigaltstack => optional argv.a (area argv.a sizeofStack)
  | .write => area argv.b argv.c.toNat
  | .writev =>
    area argv.b (16 * argv.c.toNat) ∪ {x | x ∈ addresses (iovecs mem argv.b argv.c.toNat)}
  | _ => ∅

/-- An address output: not more than the caller has room for, and its length. -/
def sockaddr (mem : Mem) (addr addrlen : Word) (result : Result) : Set Nat :=
  area addrlen 4 ∪ area addr (min (socklenAt mem addrlen) result.addrlen)

/-- The bytes the kernel writes when a call succeeds with a result. -/
def writes (mem : Mem) (argv : Argv) (result : Result) : Sysno → Set Nat
  | .accept | .accept4 => optional argv.b (sockaddr mem argv.b argv.c result)
  | .clockGetres => optional argv.b (area argv.b sizeofTimespec)
  | .clockGettime => area argv.b sizeofTimespec
  | .epollPwait | .epollWait => area argv.b (sizeofEpollEvent * result.ret.toNat)
  | .fstat => area argv.b sizeofStat
  | .getrandom => area argv.a result.ret.toNat
  | .getsockname => sockaddr mem argv.b argv.c result
  | .ioctl => {x | usizeAsInt argv.b = FIONREAD ∧ x ∈ area argv.c 4}
  -- the two bytes of `revents`, in every entry
  | .poll => {x | ∃ i < len32 argv.b, x ∈ area argv.a (sizeofPollfd * (i + 1)) ∧
      argv.a.toNat + sizeofPollfd * i + 6 ≤ x}
  | .read | .readlink => area argv.b result.ret.toNat
  | .readv => {x | x ∈ (addresses (iovecs mem argv.b argv.c.toNat)).take result.ret.toNat}
  | .recvfrom =>
    area argv.b result.ret.toNat ∪ optional argv.e (sockaddr mem argv.e argv.f result)
  | .rtSigprocmask => optional argv.c (area argv.c sizeofSigset)
  | .sigaltstack => optional argv.b (area argv.b sizeofStack)
  | .uname => area argv.a sizeofUtsname
  | _ => ∅

inductive Param where
  | int
  /-- A `size_t` that is not the length of a buffer. -/
  | size
  /-- A pointer; without an argument at `owner` it is not used. -/
  | ptr (owner : Nat)
  | len (owner : Nat)
  deriving DecidableEq, Repr

/-- The parameters of the calls that are forwarded, in the order of their registers. -/
def params : Sysno → List Param
  | .accept => [.int, .ptr 1, .ptr 1]
  | .accept4 => [.int, .ptr 1, .ptr 1, .int]
  | .bind | .connect => [.int, .ptr 1, .len 1]
  | .clockGetres | .clockGettime => [.int, .ptr 1]
  | .close | .dup | .epollCreate1 | .exit | .exitGroup => [.int]
  | .dup2 | .eventfd2 | .listen => [.int, .int]
  | .dup3 | .fcntl | .socket => [.int, .int, .int]
  | .epollCtl => [.int, .int, .int, .ptr 3]
  | .epollPwait => [.int, .ptr 1, .len 1, .int, .ptr 4, .size]
  | .epollWait => [.int, .ptr 1, .len 1, .int]
  | .getsockname => [.int, .ptr 1, .ptr 2]
  | .ioctl => [.int, .int, .ptr 2]
  | .nanosleep => [.ptr 0, .ptr 1]
  | .open_ => [.ptr 0, .int, .int]
  | .poll => [.ptr 0, .len 0, .int]
  | .read | .write => [.int, .ptr 1, .len 1]
  | .recvfrom => [.int, .ptr 1, .len 1, .int, .ptr 4, .ptr 4]
  | .sendto => [.int, .ptr 1, .len 1, .int, .ptr 4, .len 4]
  | .setsockopt => [.int, .int, .int, .ptr 3, .len 3]
  | _ => []

end Linux

end Enarx.Sallyport
