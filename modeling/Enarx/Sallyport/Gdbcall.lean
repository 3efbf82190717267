import Enarx.Sallyport.Staging
import Enarx.Sallyport.Syscall.Calls

/-!
# GDB calls
-/
namespace Enarx.Sallyport

inductive Gdbcall where
  | flush
  | onSessionStart
  | peek
  | read
  | write (byte : Byte)
  | writeAll (buf : Slice .u8)

namespace Gdbcall

def num : Gdbcall → Word
  | .write _ => 0
  | .writeAll _ => 1
  | .flush => 2
  | .onSessionStart => 3
  | .read => 4
  | .peek => 5

def Staged : Gdbcall → Type
  | .writeAll _ => Input .u8
  | _ => Unit

def Committed : Gdbcall → Type
  | .writeAll _ => Nat
  | _ => Unit

def Collected : Gdbcall → Type
  | .flush | .onSessionStart | .write _ => Except Errno Unit
  | .peek => Except Errno (Option Byte)
  | .read => Except Errno Byte
  | .writeAll _ => Option (Except Errno Nat)

def stage : (call : Gdbcall) → StageM (List Word × call.Staged)
  | .flush | .onSessionStart | .peek | .read => pure ([], ())
  | .write byte => pure ([byte.setWidth 64], ())
  | .writeAll buf => do
    let (buf, _) ← Input.stageSliceMax buf
    return ([buf.offset, buf.len], buf)

def commit : (call : Gdbcall) → call.Staged → CommitM call.Committed
  | .writeAll _, staged => commitBytes staged
  | .flush, _ | .onSessionStart, _ | .peek, _ | .read, _ | .write _, _ => pure ()

def collect : (call : Gdbcall) → call.Committed → Word → CollectM call.Collected
  | .flush, _, ret | .onSessionStart, _, ret | .write _, _, ret => pure (decodeUnit ret)
  | .peek, _, ret => pure (decodeOptionByte ret)
  | .read, _, ret => pure (decodeByte ret)
  | .writeAll _, committed, ret => checkCount (ρ := Nat) committed (decodeSize ret)

def segs : (call : Gdbcall) → call.Staged → List Seg
  | .writeAll _, staged => [Input.seg staged]
  | .flush, _ | .onSessionStart, _ | .peek, _ | .read, _ | .write _, _ => []

def buffers : Gdbcall → List Buffer
  | .writeAll buf => [buf.bufferMax .input]
  | _ => []

def args : Gdbcall → List Arg
  | .write byte => [.word (byte.setWidth 64)]
  | .writeAll _ => [.offset 0, .len 0]
  | _ => []

def spec (call : Gdbcall) : CallSpec := ⟨call.num, call.buffers, call.args⟩

theorem stage_spec (call : Gdbcall) : Describes call.spec call.segs call.stage := by
  cases call with
  | flush | onSessionStart | peek | read | write => rfl
  | writeAll buf =>
    exact (Input.stageSliceMax_stages buf).describes (fun _ => rfl) (fun _ => rfl)

theorem commit_spec (call : Gdbcall) (staged : call.Staged) :
    Commits (call.commit staged) (call.segs staged) := by
  cases call with
  | flush | onSessionStart | peek | read | write => exact Commits.pure ()
  | writeAll => exact (Input.commit_commits staged).map _

end Gdbcall

end Enarx.Sallyport
