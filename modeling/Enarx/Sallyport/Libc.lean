import Enarx.Bytes
import Enarx.CLayout

/-!
# The `libc` items of the sallyport

C integer types with their casts, error numbers, flags, system call numbers and
the layouts of the redeclared C structures.
-/
namespace Enarx.Sallyport

/-- `c_int`, and every other 32-bit C integer; the cast says how it is read. -/
abbrev CInt := BitVec 32

def usizeAsInt (word : Word) : CInt := word.setWidth 32

def intAsUsize (value : CInt) : Word := value.signExtend 64

def uintAsUsize (value : BitVec 32) : Word := value.setWidth 64

@[simp] theorem usizeAsInt_intAsUsize (value : CInt) : usizeAsInt (intAsUsize value) = value := by
  unfold usizeAsInt intAsUsize
  apply BitVec.eq_of_getLsbD_eq
  intro i hi
  rw [BitVec.getLsbD_setWidth, BitVec.getLsbD_signExtend]
  simp [hi, show i < 64 by omega]

@[simp] theorem usizeAsInt_uintAsUsize (value : BitVec 32) : usizeAsInt (uintAsUsize value) = value := by
  unfold usizeAsInt uintAsUsize
  apply BitVec.eq_of_getLsbD_eq
  intro i hi
  simp [hi]

def usize (value : Nat) : Word := BitVec.ofNat 64 value

theorem toNat_usize {value : Nat} (h : value < 2 ^ 64) : (usize value).toNat = value := by
  rw [usize, BitVec.toNat_ofNat, Nat.mod_eq_of_lt h]

/-- Representation of a null pointer or `None` in the block: `usize::MAX`. -/
def NULL : Word := BitVec.allOnes 64

theorem usize_ne_NULL {value : Nat} (h : value < 2 ^ 64 - 1) : usize value ≠ NULL := by
  intro heq
  have := congrArg BitVec.toNat heq
  rw [toNat_usize (by omega), NULL, BitVec.toNat_allOnes] at this
  omega

abbrev Errno := CInt

namespace Libc

def ARCH_GET_FS : CInt := 0x1003
def ARCH_GET_GS : CInt := 0x1004
def ARCH_SET_FS : CInt := 0x1002
def ARCH_SET_GS : CInt := 0x1001

def EACCES : Errno := 13
def EAGAIN : Errno := 11
def EBADFD : Errno := 77
def EFAULT : Errno := 14
def EINTR : Errno := 4
def EINVAL : Errno := 22
def ENOENT : Errno := 2
def ENOMEM : Errno := 12
def ENOSYS : Errno := 38
def ENOTSUP : Errno := 95
def ENOTTY : Errno := 25
def EOVERFLOW : Errno := 75

def F_GETFD : CInt := 1
def F_GETFL : CInt := 3
def F_SETFD : CInt := 2
def F_SETFL : CInt := 4
def FIONBIO : CInt := 0x5421
def FIONREAD : CInt := 0x541B
def GRND_NONBLOCK : CInt := 1
def GRND_RANDOM : CInt := 2
def MREMAP_DONTUNMAP : CInt := 4
def MREMAP_FIXED : CInt := 2
def MREMAP_MAYMOVE : CInt := 1
def O_APPEND : CInt := 1024
def O_CLOEXEC : CInt := 0x80000
def O_RDONLY : CInt := 0
def O_RDWR : CInt := 2
def O_WRONLY : CInt := 1
def S_IFIFO : CInt := 4096
def SIGRTMAX : CInt := 64
def STDERR_FILENO : CInt := 2
def STDIN_FILENO : CInt := 0
def STDOUT_FILENO : CInt := 1
def TIOCGWINSZ : CInt := 0x5413

def int : Layout := .u32
def socklen : Layout := .u32
def usizeLayout : Layout := .u64

def epollEvent : Layout := .reprC [.u32, .u64]
def iovec : Layout := .reprC [.u64, .u64]
def pollfd : Layout := .reprC [.u32, .u16, .u16]
def sigset : Layout := .reprC [Layout.array .u64 16]
def sockaddrStorage : Layout := .reprC [.u16, .u64, Layout.array .u8 (128 - 2 * 8)]
def stack : Layout := .reprC [.u64, .u32, .u64]
def timespec : Layout := .reprC [.u64, .u64]

def stat : Layout :=
  .reprC [.u64, .u64, .u64, .u32, .u32, .u32, .u32, .u64, .u64, .u64, .u64,
    .u64, .u64, .u64, .u64, .u64, .u64, Layout.array .u64 3]

def utsname : Layout := .reprC (List.replicate 6 (Layout.array .u8 65))

def sigaction : Layout := Layout.array .u64 4

def cpuidResult : Layout := .reprC [.u32, .u32, .u32, .u32]

/-- The structures as this crate declares them, not as the kernel lays them out. -/
example :
    epollEvent.size = 16 ∧ iovec.size = 16 ∧ pollfd.size = 8 ∧ sigset.size = 128 ∧
      timespec.size = 16 ∧ stat.size = 144 ∧ utsname.size = 390 ∧ cpuidResult.size = 16 := by
  decide

end Libc

inductive Sysno where
  | accept | accept4 | archPrctl | bind | brk | clockGetres | clockGettime | close | connect
  | dup | dup2 | dup3 | epollCreate1 | epollCtl | epollPwait | epollWait | eventfd2 | exit
  | exitGroup | fcntl | fstat | getegid | geteuid | getgid | getpid | getuid | getrandom
  | getsockname | ioctl | listen | madvise | mmap | mprotect | mremap | munmap | nanosleep
  | open_ | poll | read | readlink | readv | recvfrom | rtSigaction | rtSigprocmask
  | setTidAddress | sendto | setsockopt | sigaltstack | socket | sync | uname | write | writev
  deriving DecidableEq, Repr

namespace Sysno

def num : Sysno → Nat
  | .accept => 43
  | .accept4 => 288
  | .archPrctl => 158
  | .bind => 49
  | .brk => 12
  | .clockGetres => 229
  | .clockGettime => 228
  | .close => 3
  | .connect => 42
  | .dup => 32
  | .dup2 => 33
  | .dup3 => 292
  | .epollCreate1 => 291
  | .epollCtl => 233
  | .epollPwait => 281
  | .epollWait => 232
  | .eventfd2 => 290
  | .exit => 60
  | .exitGroup => 231
  | .fcntl => 72
  | .fstat => 5
  | .getegid => 108
  | .geteuid => 107
  | .getgid => 104
  | .getpid => 39
  | .getuid => 102
  | .getrandom => 318
  | .getsockname => 51
  | .ioctl => 16
  | .listen => 50
  | .madvise => 28
  | .mmap => 9
  | .mprotect => 10
  | .mremap => 25
  | .munmap => 11
  | .nanosleep => 35
  | .open_ => 2
  | .poll => 7
  | .read => 0
  | .readlink => 89
  | .readv => 19
  | .recvfrom => 45
  | .rtSigaction => 13
  | .rtSigprocmask => 14
  | .setTidAddress => 218
  | .sendto => 44
  | .setsockopt => 54
  | .sigaltstack => 131
  | .socket => 41
  | .sync => 162
  | .uname => 63
  | .write => 1
  | .writev => 20

def all : List Sysno :=
  [.accept, .accept4, .archPrctl, .bind, .brk, .clockGetres, .clockGettime, .close, .connect,
    .dup, .dup2, .dup3, .epollCreate1, .epollCtl, .epollPwait, .epollWait, .eventfd2, .exit,
    .exitGroup, .fcntl, .fstat, .getegid, .geteuid, .getgid, .getpid, .getuid, .getrandom,
    .getsockname, .ioctl, .listen, .madvise, .mmap, .mprotect, .mremap, .munmap, .nanosleep,
    .open_, .poll, .read, .readlink, .readv, .recvfrom, .rtSigaction, .rtSigprocmask,
    .setTidAddress, .sendto, .setsockopt, .sigaltstack, .socket, .sync, .uname, .write, .writev]

def toWord (call : Sysno) : Word := BitVec.ofNat 64 call.num

def ofWord (word : Word) : Option Sysno := all.find? fun call => call.toWord == word

theorem ofWord_toWord (call : Sysno) : ofWord call.toWord = some call := by
  cases call <;> decide

theorem toWord_of_ofWord {word : Word} {call : Sysno} (h : ofWord word = some call) : call.toWord = word := by
  have := List.find?_some h
  simpa using this

end Sysno

end Enarx.Sallyport
