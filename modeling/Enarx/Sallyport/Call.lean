import Enarx.Sallyport.Enarxcall
import Enarx.Sallyport.Gdbcall
import Enarx.Sallyport.Stub
import Enarx.Sallyport.Syscall.Spec

/-!
# Calls

A call that allocates stages one item: a header, the payload and its data
section. Calls that may allocate, stubs and tuples of calls are built on it, and
`Request` is the part of `Handler::execute` before control goes to the host.
-/
namespace Enarx.Sallyport

open Libc

inductive AllocCall where
  | syscall (call : Syscall)
  | gdbcall (call : Gdbcall)
  | enarxcall (call : Enarxcall)

namespace AllocCall

def kind : AllocCall → ItemKind
  | .syscall _ => .syscall
  | .gdbcall _ => .gdbcall
  | .enarxcall _ => .enarxcall

def num : AllocCall → Word
  | .syscall call => call.num.toWord
  | .gdbcall call => call.num
  | .enarxcall call => call.num

def Staged : AllocCall → Type
  | .syscall call => call.Staged
  | .gdbcall call => call.Staged
  | .enarxcall call => call.Staged

def Committed : AllocCall → Type
  | .syscall call => call.Committed
  | .gdbcall call => call.Committed
  | .enarxcall call => call.Committed

def Collected : AllocCall → Type
  | .syscall call => call.Collected
  | .gdbcall call => call.Collected
  | .enarxcall call => call.Collected

def stage : (call : AllocCall) → StageM (List Word × call.Staged)
  | .syscall call => call.stage
  | .gdbcall call => call.stage
  | .enarxcall call => call.stage

def commit : (call : AllocCall) → call.Staged → CommitM call.Committed
  | .syscall call => call.commit
  | .gdbcall call => call.commit
  | .enarxcall call => call.commit

def collect : (call : AllocCall) → call.Committed → Word → CollectM call.Collected
  | .syscall call => call.collect
  | .gdbcall call => call.collect
  | .enarxcall call => call.collect

def segs : (call : AllocCall) → call.Staged → List Seg
  | .syscall call => call.segs
  | .gdbcall call => call.segs
  | .enarxcall call => call.segs

def spec : AllocCall → CallSpec
  | .syscall call => call.spec
  | .gdbcall call => call.spec
  | .enarxcall call => call.spec

theorem stage_spec (call : AllocCall) : Describes call.spec call.segs call.stage := by
  cases call with
  | syscall call => exact call.stage_spec
  | gdbcall call => exact call.stage_spec
  | enarxcall call => exact call.stage_spec

theorem length_args_le (call : AllocCall) : call.spec.args.length ≤ call.kind.argc := by
  rcases call with call | call | call
  · cases call with
    | passthrough call => cases call <;> exact Nat.le_of_ble_eq_true rfl
    | _ => exact Nat.le_of_ble_eq_true rfl
  · cases call <;> exact Nat.le_of_ble_eq_true rfl
  · cases call <;> exact Nat.le_of_ble_eq_true rfl

theorem commit_spec (call : AllocCall) (staged : call.Staged) :
    Commits (call.commit staged) (call.segs staged) := by
  cases call with
  | syscall call => exact call.commit_spec staged
  | gdbcall call => exact call.commit_spec staged
  | enarxcall call => exact call.commit_spec staged

end AllocCall

/-- The return words before the host answers: `-ENOSYS`, and 0 for a system call. -/
def ItemKind.initialRet : ItemKind → List Word
  | .syscall => [intAsUsize (-ENOSYS), 0]
  | .gdbcall | .enarxcall => [intAsUsize (-ENOSYS)]

structure StagedAlloc (call : AllocCall) where
  numRef : BlockRef usizeLayout 1
  argvRef : BlockRef (usizeLayout.array call.kind.argc) 1
  argv : List Word
  retRef : BlockRef (usizeLayout.array call.kind.rets) 1
  staged : call.Staged

structure CommittedAlloc (call : AllocCall) where
  retRef : BlockRef (usizeLayout.array call.kind.rets) 1
  committed : call.Committed

def StagedAlloc.stage (call : AllocCall) : StageM (StagedAlloc call) := do
  let numRef ← allocate usizeLayout
  let argvRef ← allocate (usizeLayout.array call.kind.argc)
  let retRef ← allocate (usizeLayout.array call.kind.rets)
  let staged ← «section» call.stage
  return { numRef, argvRef, argv := argvInto call.kind.argc staged.1.1, retRef,
           staged := staged.1.2 }

def StagedAlloc.commit {call : AllocCall} (self : StagedAlloc call) :
    CommitM (CommittedAlloc call) := do
  copyFrom self.numRef.ptr (wordBytes call.num)
  copyFrom self.argvRef.ptr (wordsBytes self.argv)
  copyFrom self.retRef.ptr (wordsBytes call.kind.initialRet)
  return { retRef := self.retRef, committed := ← call.commit self.staged }

def CommittedAlloc.collect {call : AllocCall} (self : CommittedAlloc call) :
    CollectM call.Collected := do
  let ret ← fetch self.retRef.ptr (8 * call.kind.rets)
  call.collect self.committed (wordOfBytes (ret.take 8))

def headerLayout : Layout := .reprC [.u64, .u64]

def headerBytes (size : Nat) (kind : Kind) : List Byte := wordsBytes [usize size, kind.toWord]

structure StagedCall (call : AllocCall) where
  headerRef : BlockRef headerLayout 1
  staged : StagedAlloc call
  size : Nat

-- the data is padded so that the next header is aligned
def StagedCall.stage (call : AllocCall) : StageM (StagedCall call) := do
  let headerRef ← allocate headerLayout
  let (staged, size) ← «section» (StagedAlloc.stage call)
  if 0 < size ∧ 0 < size % 8 then
    let padSize := 8 - size % 8
    let _ ← allocateLayout ⟨padSize, 1, Layout.empty.align_pow⟩
    return { headerRef, staged, size := size + padSize }
  else
    return { headerRef, staged, size }

def StagedCall.commit {call : AllocCall} (self : StagedCall call) :
    CommitM (CommittedAlloc call) := do
  copyFrom self.headerRef.ptr (headerBytes self.size (.item call.kind))
  self.staged.commit

inductive MaybeAlloc where
  | fcntl (call : Fcntl)
  | ioctl (call : Ioctl)
  | open_ (call : Open)

inductive UnstagedMaybeAlloc where
  | alloc
  | stub (val : Except Errno CInt)

def resolvConf : List Byte := ascii "/etc/resolv.conf" ++ [0]

namespace MaybeAlloc

def toAlloc : MaybeAlloc → Syscall
  | .fcntl call => .passthrough (.allocFcntl call)
  | .ioctl call => .allocIoctl ⟨call⟩
  | .open_ call => .allocOpen ⟨call⟩

def unstaged (mem : Mem) : MaybeAlloc → Except Errno UnstagedMaybeAlloc
  | .fcntl call =>
    if call.fd = STDIN_FILENO ∧ call.cmd = F_GETFL then .ok (.stub (.ok (O_RDWR ||| O_APPEND)))
    else if (call.fd = STDOUT_FILENO ∨ call.fd = STDERR_FILENO) ∧ call.cmd = F_GETFL then
      .ok (.stub (.ok O_WRONLY))
    else if isStdio call.fd then .error EINVAL
    else if call.cmd = F_GETFD ∨ call.cmd = F_SETFD ∨ call.cmd = F_GETFL ∨ call.cmd = F_SETFL then
      .ok .alloc
    else .error EBADFD
  | .ioctl call =>
    if isStdio call.fd ∧ call.request = TIOCGWINSZ then .ok (.stub (.error ENOTTY))
    else if isStdio call.fd then .ok (.stub (.error EINVAL))
    else if call.request = FIONBIO ∨ call.request = FIONREAD then .ok .alloc
    else .ok (.stub (.error EBADFD))
  | .open_ call =>
    if mem.read call.pathname.addr call.pathname.len = resolvConf ∧
        call.flags &&& ~~~(O_RDONLY ||| O_CLOEXEC) = 0 then
      .ok .alloc
    else .ok (.stub (.error EACCES))

def collected : (call : MaybeAlloc) → call.toAlloc.Collected → Except Errno CInt
  | .fcntl _, val => val
  | .ioctl _, val => val
  | .open_ _, val => val

end MaybeAlloc

/-- Anything `execute` takes. A tuple of three or four calls goes through pairs. -/
inductive Call where
  | alloc (call : AllocCall)
  | maybeAlloc (call : MaybeAlloc)
  | stub (call : Stub)
  | pair (a b : Call)

namespace Call

def Staged : Call → Type
  | .alloc call => StagedCall call
  | .maybeAlloc call => StagedCall (.syscall call.toAlloc) ⊕ Except Errno CInt
  | .stub _ => Unit
  | .pair a b => a.Staged × b.Staged

def Committed : Call → Type
  | .alloc call => CommittedAlloc call
  | .maybeAlloc call => CommittedAlloc (.syscall call.toAlloc) ⊕ Except Errno CInt
  | .stub _ => Unit
  | .pair a b => a.Committed × b.Committed

def Collected : Call → Type
  | .alloc call => call.Collected
  | .maybeAlloc _ => Except Errno CInt
  | .stub call => call.Collected
  | .pair a b => a.Collected × b.Collected

def stage (mem : Mem) : (call : Call) → StageM call.Staged
  | .alloc call => StagedCall.stage call
  | .maybeAlloc call => do
    match ← orAbort (call.unstaged mem) with
    | .alloc => return .inl (← StagedCall.stage (.syscall call.toAlloc))
    | .stub val => return .inr val
  | .stub _ => pure ()
  | .pair a b => do return (← a.stage mem, ← b.stage mem)

def commit : (call : Call) → call.Staged → CommitM call.Committed
  | .alloc _, staged => StagedCall.commit staged
  | .maybeAlloc _, .inl staged => do return .inl (← StagedCall.commit staged)
  | .maybeAlloc _, .inr val => pure (.inr val)
  | .stub _, _ => pure ()
  | .pair a b, (stagedA, stagedB) => do return (← a.commit stagedA, ← b.commit stagedB)

def collect (rng : Rdrand) (mem : Mem) : (call : Call) → call.Committed → CollectM call.Collected
  | .alloc _, committed => CommittedAlloc.collect committed
  | .maybeAlloc call, .inl committed => do return call.collected (← committed.collect)
  | .maybeAlloc _, .inr val => pure val
  | .stub call, _ => call.collect rng mem
  | .pair a b, (committedA, committedB) => do
    return (← a.collect rng mem committedA, ← b.collect rng mem committedB)

end Call

structure BlockBuf where
  base : Nat
  count : Nat
  aligned : 8 ∣ base
  bounded : 8 * count < 2 ^ 63

def BlockBuf.small : BlockBuf := ⟨4096, 64, by decide, by decide⟩

/-- The check after `Alloc<Commit>::sally`: `block` is the one that was allocated from. -/
def Alloc.sally (alloc : Alloc) (block : BlockBuf) : Except Errno Alloc :=
  if block.base + alloc.offset ≠ alloc.ptr ∨ 8 * block.count < alloc.offset then .error EFAULT
  else .ok alloc

structure Request (call : Call) where
  staged : call.Staged
  len : Nat
  endRef : Region
  alloc : Alloc

def Call.request (buf : BlockBuf) (mem : Mem) (call : Call) : Except Abort (Request call) :=
  match reserveLayout headerLayout («section» (call.stage mem)) ⟨buf.base, 8 * buf.count, 0⟩ with
  | (.error abort, _) => .error abort
  | (.ok ((staged, len), endRef), final) => .ok { staged, len, endRef, alloc := final }

/-- The stores of the commit phase; the end marker is written when something was staged. -/
def Request.stores {call : Call} (request : Request call) (mem : Mem) : List Store :=
  (call.commit request.staged).log mem ++
    if 0 < request.len then [⟨⟨request.endRef.ptr, headerBytes 0 .done⟩, none⟩] else []

def Request.block {call : Call} (request : Request call) (mem prior : Mem) : Mem :=
  prior.putAll ((request.stores mem).map Store.put)

/-- The block that `execute` hands over at `sally`; nothing is handed over when
nothing was staged. -/
def Call.sallied (buf : BlockBuf) (mem prior : Mem) (call : Call) : Except Abort (Option Mem) := do
  let request ← call.request buf mem
  return if 0 < request.len then some (request.block mem prior) else none

end Enarx.Sallyport
