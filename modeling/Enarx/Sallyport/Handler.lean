import Enarx.Interference
import Enarx.Sallyport.Call
import Enarx.Sallyport.Platform

/-!
# The request handler of the guest

`execute` stages and commits a call, hands the block to the host and collects.
`syscall` takes the registers of the workload: `decode` validates and converts
them as the arm for the system call does, `invoke` calls the handler method and
makes the return words. Every block that is handed to the host is recorded.
-/
namespace Enarx.Sallyport

open Libc

inductive Stop where
  | err (errno : Errno)
  | panic
  /-- The handler keeps trying to exit, see `attacked`. -/
  | attacked
  deriving DecidableEq, Repr

/-- The guest as its handler sees it, with the state `σ` of the shim's memory management. -/
structure Guest (σ : Type) where
  mem : Mem
  block : Mem
  actions : Fin 64 → Option (List Byte)
  fsBase : Word
  gsBase : Word
  shim : σ
  /-- The blocks handed to the host, the newest first. -/
  handed : List Mem

abbrev HandlerM (σ : Type) := Exec Stop (Guest σ)

structure MremapFlags where
  fixed : Option Word
  dontunmap : Bool
  deriving DecidableEq, Repr

/-- The memory management calls, which the shims implement. -/
inductive MemoryCall where
  | brk (addr : Option Word)
  | madvise (addr length : Word) (advice : CInt)
  | mmap (addr : Option Word) (length : Word) (prot flags fd : CInt) (offset : Word)
  | mprotect (addr len : Word) (prot : CInt)
  | mremap (oldAddress oldSize newSize : Word) (flags : Option MremapFlags)
  | munmap (addr length : Word)
  deriving DecidableEq, Repr

inductive Tee where
  | kvm | sgx
  deriving DecidableEq, Repr

structure Env (σ : Type) where
  buf : BlockBuf
  platform : Platform
  tee : Tee
  rng : Rdrand
  /-- What `sally` returns and what the block holds then; it may depend on all blocks
  the host has seen. -/
  sally : List Mem → Except Errno Unit × Mem
  memory : MemoryCall → HandlerM σ Word
  /-- How often `attacked` has tried to exit when the guest is observed. -/
  attempts : Nat

section

variable (env : Env σ)

def Abort.stop : Abort → Stop
  | .err errno => .err errno
  | .panic => .panic

def validated (check : Except Abort α) : HandlerM σ α :=
  match check with
  | .ok value => pure value
  | .error abort => throw abort.stop

def Access.put? : Access → Option Put
  | .fetch _ => none
  | .store put => some put

def collectCall (call : Call) (committed : call.Committed) (block : Mem) (handed : List Mem)
    (guest : Guest σ) : Except Stop call.Collected × Guest σ :=
  let collect := call.collect env.rng guest.mem committed
  (.ok (collect.result block),
    { guest with
      mem := guest.mem.putAll ((collect.log block).filterMap Access.put?), block, handed })

def execute (call : Call) : HandlerM σ call.Collected := fun guest =>
  match call.request env.buf guest.mem with
  | .error abort => (.error abort.stop, guest)
  | .ok request =>
    let block := request.block guest.mem guest.block
    let committed := (call.commit request.staged).result guest.mem
    if 0 < request.len then
      match env.sally (block :: guest.handed) with
      | (.error errno, reply) =>
        (.error (.err errno), { guest with block := reply, handed := block :: guest.handed })
      | (.ok _, reply) =>
        match request.alloc.sally env.buf with
        | .error errno =>
          (.error (.err errno), { guest with block := reply, handed := block :: guest.handed })
        | .ok _ => collectCall env call committed reply (block :: guest.handed) guest
    else
      collectCall env call committed block guest.handed guest

def exitCall (status : CInt) : Call := .alloc (.syscall (.passthrough (.exit status)))

/-- `loop { let _ = self.exit(1) }`, and `exit` itself comes back here when the host lets
it return. Whatever the host answers, the next thing is another attempt. -/
def attacked : HandlerM σ α := fun guest =>
  (.error .attacked, (fun guest => (execute env (exitCall 1) guest).2)^[env.attempts] guest)

inductive Reply where
  | word (ret : Word)
  | err (errno : Errno)
  | attacked
  deriving DecidableEq, Repr

namespace Reply

def ofExcept (toWord : α → Word) : Except Errno α → Reply
  | .ok ret => .word (toWord ret)
  | .error errno => .err errno

def ofOption (toWord : α → Word) : Option (Except Errno α) → Reply
  | some ret => ofExcept toWord ret
  | none => .attacked

def ofUnit : Except Errno Unit → Reply := ofExcept fun _ => 0

end Reply

namespace Passthrough

def reply : (call : Passthrough) → Except Errno call.Ret → Reply
  | .epollCreate1 .., ret | .eventfd2 .., ret | .allocFcntl .., ret | .socket .., ret =>
    Reply.ofExcept intAsUsize ret
  | .close .., ret | .dup .., ret | .dup2 .., ret | .dup3 .., ret | .listen .., ret | .sync, ret =>
    Reply.ofUnit ret
  -- a host that lets `exit` return is an attack
  | .exit .., ret | .exitGroup .., ret =>
    match (ret : Except Errno Unit) with
    | .ok _ => .attacked
    | .error errno => .err errno

end Passthrough

def Syscall.reply : (call : Syscall) → call.Collected → Reply
  | .accept _, ret | .accept4 _, ret | .allocIoctl _, ret | .allocOpen _, ret
  | .setsockopt _, ret => Reply.ofExcept intAsUsize ret
  | .bind _, ret | .clockGetres _, ret | .clockGettime _, ret | .connect _, ret
  | .epollCtl _, ret | .getsockname _, ret | .nanosleep _, ret => Reply.ofUnit ret
  | .epollPwait _, ret | .epollWait _, ret | .poll _, ret => Reply.ofOption intAsUsize ret
  | .read _, ret | .readv _, ret | .recv _, ret | .recvfrom _, ret | .send _, ret
  | .sendto _, ret | .write _, ret | .writev _, ret => Reply.ofOption usize ret
  | .passthrough call, ret => call.reply ret

def Stub.reply : (call : Stub) → call.Collected → Reply
  | .fstat .., ret | .rtSigprocmask, ret | .sigaltstack, ret | .uname _, ret => Reply.ofUnit ret
  | .getegid, ret | .geteuid, ret | .getgid, ret | .getuid, ret => .word (uintAsUsize ret)
  | .getpid, ret | .setTidAddress, ret => .word (intAsUsize ret)
  | .getrandom .., ret => Reply.ofExcept usize ret
  | .readlink .., ret => Reply.ofOption usize ret

def finish : Reply → HandlerM σ (Word × Word)
  | .word ret => return (ret, 0)
  | .err errno => throw (.err errno)
  | .attacked => attacked env

def actionIndex (signum : CInt) : HandlerM σ (Fin 64) :=
  if h : (intAsUsize signum).toNat < 64 then pure ⟨_, h⟩ else throw .panic

def readAction (signum : CInt) (wanted : Bool) : HandlerM σ (Option (List Byte)) :=
  if wanted then do
    let index ← actionIndex signum
    return (← get).actions index
  else pure none

def writeAction (signum : CInt) : Option (Ref sigaction) → HandlerM σ Unit
  | some act => do
    let index ← actionIndex signum
    modify fun guest => { guest with
      actions := Function.update guest.actions index (some (guest.mem.read act.addr 32)) }
  | none => pure ()

def rtSigaction (signum : CInt) (act : Option (Ref sigaction)) (oldact : Bool)
    (sigsetsize : Word) : HandlerM σ (Option (List Byte)) := do
  if BitVec.sle SIGRTMAX signum ∨ sigsetsize ≠ 8 then
    throw (.err EINVAL)
  let old ← readAction signum oldact
  writeAction signum act
  return old

/-- `VirtAddr::new` of the `x86_64` crate. Bit 47 may be extended; an address that is not
canonical makes it panic. -/
def virtAddr (addr : Word) : HandlerM σ Word :=
  if addr.toNat < 2 ^ 47 ∨ 2 ^ 64 - 2 ^ 47 ≤ addr.toNat then pure addr
  else if addr.toNat < 2 ^ 48 then pure (addr ||| 0xffff000000000000)
  else throw .panic

def storeWorkload (addr : Nat) (bytes : List Byte) : HandlerM σ Unit :=
  modify fun guest => { guest with mem := guest.mem.write addr bytes }

def archPrctl (code : CInt) (addr : Word) : HandlerM σ Unit := do
  match env.tee with
  | .sgx => throw (.err ENOSYS)
  | .kvm =>
    if code = ARCH_SET_FS then
      let base ← virtAddr addr
      modify fun guest => { guest with fsBase := base }
    else if code = ARCH_GET_FS then
      let addr ← validated (env.platform.validateMut .u64 addr)
      storeWorkload addr.addr (wordBytes (← get).fsBase)
    else if code = ARCH_SET_GS then
      let base ← virtAddr addr
      modify fun guest => { guest with gsBase := base }
    else if code = ARCH_GET_GS then
      let addr ← validated (env.platform.validateMut .u64 addr)
      storeWorkload addr.addr (wordBytes (← get).gsBase)
    else throw (.err EINVAL)

end

end Enarx.Sallyport
