import Enarx.Sallyport.Syscall.Types

/-!
# Calls answered in the guest

A stub stages nothing and never reaches the host; its `collect` may write the
caller's buffers.
-/
namespace Enarx.Sallyport

open Libc

/-- The `RDRAND` instruction: attempt by attempt a value or an underflow. It does
not fail for ever. -/
structure Rdrand where
  step : Nat → Option Word
  live : ∀ attempt, ∃ later, attempt ≤ later ∧ (step later).isSome

instance : Inhabited Rdrand := ⟨fun _ => some 0, fun attempt => ⟨attempt, Nat.le_refl _, rfl⟩⟩

namespace Rdrand

def retry (rng : Rdrand) (attempt : Nat) : Nat := Nat.find (rng.live attempt)

def value (rng : Rdrand) (attempt : Nat) : Word := (rng.step attempt).getD 0

end Rdrand

inductive Stub where
  | fstat (fd : CInt) (statbuf : Ref stat)
  | getegid
  | geteuid
  | getgid
  | getpid
  | getrandom (buf : Slice .u8) (flags : BitVec 32)
  | getuid
  | readlink (pathname buf : Slice .u8)
  | rtSigprocmask
  | sigaltstack
  | setTidAddress
  | uname (buf : Ref utsname)

def FAKE_GID : BitVec 32 := 1000
def FAKE_PID : CInt := 1000
def FAKE_TID : CInt := 1
def FAKE_UID : BitVec 32 := 1000

def storeTo (addr : Nat) (bytes : List Byte) : CollectM Unit :=
  .tell [.store ⟨addr, bytes⟩]

def ascii (text : String) : List Byte := text.toList.map fun c => BitVec.ofNat 8 c.toNat

def makedev (x y : Nat) : Nat :=
  (x &&& 0xfffff000) <<< 32 ||| (x &&& 0x00000fff) <<< 8 ||| (y &&& 0xffffff00) <<< 12 |||
    (y &&& 0x000000ff)

def Fstat.stat (fd : CInt) : List Byte :=
  let dev := makedev 0 (if fd = STDIN_FILENO then 0x19 else 0xc)
  let time := 1579507218
  leBytes 8 dev ++ leBytes 8 3 ++ leBytes 8 1 ++ leBytes 4 (S_IFIFO ||| 0o600).toNat ++
    leBytes 4 1000 ++ leBytes 4 5 ++ leBytes 4 0 ++ leBytes 8 (makedev 0x88 0) ++ leBytes 8 0 ++
    leBytes 8 4096 ++ leBytes 8 0 ++ leBytes 8 time ++ leBytes 8 0 ++ leBytes 8 time ++
    leBytes 8 0 ++ leBytes 8 time ++ leBytes 8 0 ++ leBytes 24 0

def isStdio (fd : CInt) : Bool := fd = STDIN_FILENO || fd = STDOUT_FILENO || fd = STDERR_FILENO

def Fstat.collect (fd : CInt) (statbuf : Ref Libc.stat) : CollectM (Except Errno Unit) :=
  if isStdio fd then do
    storeTo statbuf.addr (Fstat.stat fd)
    return .ok ()
  else pure (.error EBADFD)

-- chunk `i` of the buffer with `chunks` left, from attempt `attempt` on
def Getrandom.loop (rng : Rdrand) (buf : Slice .u8) (flags : BitVec 32) :
    (chunks i attempt : Nat) → CollectM (Except Errno Nat)
  | 0, _, _ => pure (.ok buf.len)
  | chunks + 1, i, attempt =>
    let copyChunk (attempt : Nat) : CollectM (Except Errno Nat) := do
      storeTo (buf.addr + 8 * i) ((wordBytes (rng.value attempt)).take (buf.len - 8 * i))
      Getrandom.loop rng buf flags chunks (i + 1) (attempt + 1)
    if (rng.step attempt).isSome then copyChunk attempt
    else if flags &&& GRND_NONBLOCK ≠ 0 then pure (.error EAGAIN)
    else if flags &&& GRND_RANDOM ≠ 0 then pure (.ok (8 * i))
    else copyChunk (rng.retry attempt)

def Getrandom.collect (rng : Rdrand) (buf : Slice .u8) (flags : BitVec 32) :
    CollectM (Except Errno Nat) :=
  if flags &&& ~~~(GRND_NONBLOCK ||| GRND_RANDOM) ≠ 0 then pure (.error EINVAL)
  else Getrandom.loop rng buf flags ((buf.len + 7) / 8) 0 0

def Readlink.collect (mem : Mem) (pathname buf : Slice .u8) :
    CollectM (Option (Except Errno Nat)) :=
  if mem.read pathname.addr pathname.len = ascii "/proc/self/exe" ++ [0] then
    let dest := ascii "/init" ++ [0]
    if buf.len < dest.length then pure (some (.error EINVAL))
    else do
      storeTo buf.addr dest
      return some (.ok dest.length)
  else pure (some (.error ENOENT))

-- the text, then zeros up to the 65 bytes of the field
def Uname.fill (addr : Nat) (text : String) : CollectM Unit :=
  storeTo addr ((ascii text ++ List.replicate 65 0).take 65)

def Uname.collect (buf : Ref utsname) : CollectM (Except Errno Unit) := do
  Uname.fill buf.addr "Linux"
  Uname.fill (buf.addr + 65) "localhost.localdomain"
  Uname.fill (buf.addr + 130) "5.6.0"
  Uname.fill (buf.addr + 195) "#1"
  Uname.fill (buf.addr + 260) "x86_64"
  return .ok ()

namespace Stub

def Collected : Stub → Type
  | .fstat .. | .rtSigprocmask | .sigaltstack | .uname _ => Except Errno Unit
  | .getegid | .geteuid | .getgid | .getuid => BitVec 32
  | .getpid | .setTidAddress => CInt
  | .getrandom .. => Except Errno Nat
  | .readlink .. => Option (Except Errno Nat)

def collect (rng : Rdrand) (mem : Mem) : (stub : Stub) → CollectM stub.Collected
  | .fstat fd statbuf => Fstat.collect fd statbuf
  | .getegid => pure FAKE_GID
  | .geteuid => pure FAKE_UID
  | .getgid => pure FAKE_GID
  | .getpid => pure FAKE_PID
  | .getrandom buf flags => Getrandom.collect rng buf flags
  | .getuid => pure FAKE_UID
  | .readlink pathname buf => Readlink.collect mem pathname buf
  | .rtSigprocmask | .sigaltstack => pure (Except.ok () : Except Errno Unit)
  | .setTidAddress => pure FAKE_TID
  | .uname buf => Uname.collect buf

end Stub

end Enarx.Sallyport
