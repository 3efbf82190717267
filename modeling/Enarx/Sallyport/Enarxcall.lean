import Enarx.Sallyport.Staging

/-!
# Enarx calls
-/
namespace Enarx.Sallyport

open Libc

/-- `[u8; 512]`: a target info, and as many bytes as a report is copied as. -/
def bytes512 : Layout := Layout.array .u8 512

inductive Enarxcall where
  | balloonMemory (sizeExponent pages addr : Word)
  | cpuid (leaf subLeaf : BitVec 32) (result : Ref cpuidResult)
  | getSgxQuote (report : Ref bytes512) (quote : Slice .u8)
  | getSgxQuoteSize
  | getSgxTargetInfo (info : Ref bytes512)
  | getSnpVcek (vcek : Slice .u8)
  | memInfo
  | mmapHost (addr length : Word) (prot : CInt)
  | mprotectHost (addr length : Word) (prot : CInt)
  | munmapHost (addr length : Word)
  | trimSgxPages (addr length : Word)

structure StagedGetSgxQuote where
  report : Input bytes512
  quote : Output .u8

namespace Enarxcall

def num : Enarxcall → Word
  | .memInfo => 0
  | .balloonMemory .. => 1
  | .cpuid .. => 2
  | .getSgxQuote .. => 3
  | .getSgxTargetInfo _ => 4
  | .getSgxQuoteSize => 5
  | .getSnpVcek _ => 6
  | .mmapHost .. => 7
  | .mprotectHost .. => 8
  | .munmapHost .. => 9
  | .trimSgxPages .. => 0x10

def Staged : Enarxcall → Type
  | .cpuid .. => Output cpuidResult
  | .getSgxQuote .. => StagedGetSgxQuote
  | .getSgxTargetInfo _ => Output bytes512
  | .getSnpVcek _ => Output .u8
  | _ => Unit

def Committed : Enarxcall → Type
  | .cpuid .. => Output cpuidResult
  | .getSgxQuote .. => Output .u8
  | .getSgxTargetInfo _ => Output bytes512
  | .getSnpVcek _ => Output .u8
  | _ => Unit

def Collected : Enarxcall → Type
  | .cpuid .. | .getSgxTargetInfo _ | .mmapHost .. | .mprotectHost .. | .munmapHost ..
  | .trimSgxPages .. => Except Errno Unit
  | .balloonMemory .. | .getSgxQuoteSize | .memInfo => Except Errno Nat
  | .getSgxQuote .. | .getSnpVcek _ => Option (Except Errno Nat)

def stage : (call : Enarxcall) → StageM (List Word × call.Staged)
  | .balloonMemory sizeExponent pages addr => pure ([sizeExponent, pages, addr], ())
  | .cpuid leaf subLeaf result => do
    let result ← Output.stage result
    return ([uintAsUsize leaf, uintAsUsize subLeaf, result.offset], result)
  | .getSgxQuote report quote => do
    let report ← Input.stage report
    let quote ← Output.stageSlice quote
    return ([report.offset, quote.offset, quote.len], (⟨report, quote⟩ : StagedGetSgxQuote))
  | .getSgxQuoteSize => pure ([], ())
  | .getSgxTargetInfo info => do
    let info ← Output.stage info
    return ([info.offset], info)
  | .getSnpVcek vcek => do
    let vcek ← Output.stageSlice vcek
    return ([vcek.offset, vcek.len], vcek)
  | .memInfo => pure ([], ())
  | .mmapHost addr length prot => pure ([addr, length, intAsUsize prot], ())
  | .mprotectHost addr length prot => pure ([addr, length, intAsUsize prot], ())
  | .munmapHost addr length => pure ([addr, length], ())
  | .trimSgxPages addr length => pure ([addr, length], ())

def commit : (call : Enarxcall) → call.Staged → CommitM call.Committed
  | .cpuid .., staged => Output.commit staged
  | .getSgxQuote .., staged => do
    StagedGetSgxQuote.report staged |>.commit
    StagedGetSgxQuote.quote staged |>.commit
  | .getSgxTargetInfo _, staged => Output.commit staged
  | .getSnpVcek _, staged => Output.commit staged
  | .balloonMemory .., _ | .getSgxQuoteSize, _ | .memInfo, _ | .mmapHost .., _
  | .mprotectHost .., _ | .munmapHost .., _ | .trimSgxPages .., _ => pure ()

def collect : (call : Enarxcall) → call.Committed → Word → CollectM call.Collected
  | .cpuid .., committed, ret => collectOk committed (decodeUnit ret)
  | .getSgxQuote .., committed, ret => collectCount (ρ := Nat) committed (decodeSize ret)
  | .getSgxTargetInfo _, committed, ret => collectOk committed (decodeUnit ret)
  | .getSnpVcek _, committed, ret => collectCount (ρ := Nat) committed (decodeSize ret)
  | .balloonMemory .., _, ret | .getSgxQuoteSize, _, ret | .memInfo, _, ret =>
    pure (decodeSize ret)
  | .mmapHost .., _, ret | .mprotectHost .., _, ret | .munmapHost .., _, ret
  | .trimSgxPages .., _, ret => pure (decodeUnit ret)

def segs : (call : Enarxcall) → call.Staged → List Seg
  | .cpuid .., staged => [Output.seg staged]
  | .getSgxQuote .., staged =>
    [(StagedGetSgxQuote.report staged).seg, (StagedGetSgxQuote.quote staged).seg]
  | .getSgxTargetInfo _, staged => [Output.seg staged]
  | .getSnpVcek _, staged => [Output.seg staged]
  | .balloonMemory .., _ | .getSgxQuoteSize, _ | .memInfo, _ | .mmapHost .., _
  | .mprotectHost .., _ | .munmapHost .., _ | .trimSgxPages .., _ => []

def buffers : Enarxcall → List Buffer
  | .cpuid _ _ result => [result.buffer .output]
  | .getSgxQuote report quote => [report.buffer .input, quote.buffer .output]
  | .getSgxTargetInfo info => [info.buffer .output]
  | .getSnpVcek vcek => [vcek.buffer .output]
  | _ => []

def args : Enarxcall → List Arg
  | .balloonMemory sizeExponent pages addr => [.word sizeExponent, .word pages, .word addr]
  | .cpuid leaf subLeaf _ => [.word (uintAsUsize leaf), .word (uintAsUsize subLeaf), .offset 0]
  | .getSgxQuote .. => [.offset 0, .offset 1, .len 1]
  | .getSgxTargetInfo _ => [.offset 0]
  | .getSnpVcek _ => [.offset 0, .len 0]
  | .mmapHost addr length prot => [.word addr, .word length, .int prot]
  | .mprotectHost addr length prot => [.word addr, .word length, .int prot]
  | .munmapHost addr length => [.word addr, .word length]
  | .trimSgxPages addr length => [.word addr, .word length]
  | .getSgxQuoteSize | .memInfo => []

def spec (call : Enarxcall) : CallSpec := ⟨call.num, call.buffers, call.args⟩

theorem small_cpuidResult : Small cpuidResult := by unfold Small; decide
theorem small_bytes512 : Small bytes512 := by unfold Small; decide

theorem stage_spec (call : Enarxcall) : Describes call.spec call.segs call.stage := by
  cases call with
  | cpuid leaf subLeaf result =>
    exact (Output.stage_stages small_cpuidResult result).describes (fun _ => rfl) (fun _ => rfl)
  | getSgxQuote report quote =>
    exact (Input.stage_stages small_bytes512 report).describes_append
      (Output.stageSlice_stages quote) (fun _ _ => rfl) (fun _ _ => rfl)
  | getSgxTargetInfo info =>
    exact (Output.stage_stages small_bytes512 info).describes (fun _ => rfl) (fun _ => rfl)
  | getSnpVcek vcek =>
    exact (Output.stageSlice_stages vcek).describes (fun _ => rfl) (fun _ => rfl)
  | _ => rfl

theorem commit_spec (call : Enarxcall) (staged : call.Staged) :
    Commits (call.commit staged) (call.segs staged) := by
  cases call with
  | cpuid | getSgxTargetInfo | getSnpVcek => exact Output.commit_commits staged
  | getSgxQuote =>
    exact (Input.commit_commits (StagedGetSgxQuote.report staged)).bind fun _ =>
      Output.commit_commits (StagedGetSgxQuote.quote staged)
  | _ => exact Commits.pure ()

end Enarxcall

end Enarx.Sallyport
