import Enarx.Bytes
import Enarx.Sgx.Heap

/-!
# Enclave pages

The EPCM entry of every page and the instructions that change it, as in the
manual: `EAUG`, `EMODPR`, `EMODT` and `EREMOVE` by the host, `EACCEPT`,
`EACCEPTCOPY` and `EMODPE` by the enclave.
-/
namespace Enarx.Sgx

open Sallyport (CInt)

structure Flags where
  read : Bool := false
  write : Bool := false
  execute : Bool := false
  deriving DecidableEq, Repr

namespace Flags

def ofProt (prot : CInt) : Flags where
  read := prot.getLsbD 0
  write := prot.getLsbD 1
  execute := prot.getLsbD 2

def union (flags other : Flags) : Flags where
  read := flags.read || other.read
  write := flags.write || other.write
  execute := flags.execute || other.execute

def inter (flags other : Flags) : Flags where
  read := flags.read && other.read
  write := flags.write && other.write
  execute := flags.execute && other.execute

def readWrite : Flags := { read := true, write := true }

end Flags

inductive PageType where
  | regular
  | trimmed
  deriving DecidableEq, Repr

structure SecInfo where
  access : Flags
  pageType : PageType
  pending : Bool := false
  modified : Bool := false
  restricted : Bool := false
  deriving DecidableEq, Repr

structure EpcPage where
  info : SecInfo
  contents : Nat → Byte

abbrev Epcm := Nat → Option EpcPage

def SecInfo.Settled (info : SecInfo) : Prop :=
  info.pageType = .regular ∧ info.pending = false ∧ info.modified = false

instance (info : SecInfo) : Decidable info.Settled := inferInstanceAs (Decidable (_ ∧ _ ∧ _))

namespace Epcm

variable (epcm : Epcm)

def modify (page : Nat) (f : EpcPage → EpcPage) : Epcm :=
  Function.update epcm page ((epcm page).map f)

end Epcm

inductive HostOp where
  | eaug (page : Nat)
  | emodpr (page : Nat) (access : Flags)
  | emodt (page : Nat)
  | eremove (page : Nat)
  deriving DecidableEq, Repr

def HostOp.page : HostOp → Nat
  | .eaug page | .emodpr page _ | .emodt page | .eremove page => page

/-- The entry of the page after an instruction, which has no effect if it is not allowed. -/
def HostOp.entry : HostOp → Option EpcPage → Option EpcPage
  | .eaug _, none => some ⟨{ access := .readWrite, pageType := .regular, pending := true }, fun _ => 0⟩
  | .eaug _, some entry => some entry
  | .emodpr _ access, some entry =>
    if entry.info.Settled then
      some { entry with
        info := { entry.info with access := entry.info.access.inter access, restricted := true } }
    else some entry
  | .emodt _, some entry =>
    if entry.info.Settled then
      some { entry with info := { access := {}, pageType := .trimmed, modified := true } }
    else some entry
  | .eremove _, _ => none
  | _, none => none

def HostOp.apply (op : HostOp) (epcm : Epcm) : Epcm :=
  Function.update epcm op.page (op.entry (epcm op.page))

def accept (page : Nat) (info : SecInfo) (epcm : Epcm) : Option Epcm :=
  match epcm page with
  | none => none
  | some entry =>
    if entry.info = info then
      some (epcm.modify page fun entry =>
        { entry with
          info := { entry.info with pending := false, modified := false, restricted := false } })
    else none

/-- `EACCEPTCOPY` of a page of the enclave; `none` is an error code. -/
def acceptCopy (page : Nat) (access : Flags) (source : Nat → Byte) (epcm : Epcm) : Option Epcm :=
  match epcm page with
  | none => none
  | some entry =>
    if entry.info = { access := .readWrite, pageType := .regular, pending := true } then
      some (epcm.modify page fun _ => ⟨{ access, pageType := .regular }, source⟩)
    else none

def extend (page : Nat) (access : Flags) (epcm : Epcm) : Option Epcm :=
  match epcm page with
  | none => none
  | some entry =>
    if entry.info.Settled then
      some (epcm.modify page fun entry =>
        { entry with info := { entry.info with access := entry.info.access.union access } })
    else none

end Enarx.Sgx
