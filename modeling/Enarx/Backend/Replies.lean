import Enarx.Sallyport.Enarxcall
import Enarx.Sallyport.Gdbcall
import Enarx.Sallyport.Host

/-!
# Replies to GDB calls and Enarx calls

The threads of the host serve these calls themselves and store a word in `ret`,
which the guest decodes. What the host runs on (the connection to the debugger,
the kernel, the attestation service) answers with anything.
-/
namespace Enarx.Backend

open Sallyport Sallyport.Libc Sallyport.Host

inductive Success where
  | unit
  | size (value : Word)
  | byte (value : Byte)
  /-- `None` for a byte. -/
  | absent
  deriving DecidableEq, Repr

abbrev Outcome := Except Errno Success

inductive RetType where
  | unit | size | byte | optionByte
  deriving DecidableEq, Repr

def RetType.decode : RetType → Word → Outcome
  | .unit, ret => (decodeUnit ret).map fun _ => .unit
  | .size, ret => (decodeSize ret).map fun size => .size (usize size)
  | .byte, ret => (decodeByte ret).map .byte
  | .optionByte, ret => (decodeOptionByte ret).map fun byte => byte.elim .absent .byte

/-- What happened on the host, and the word that is stored in `ret`. -/
structure Reply where
  outcome : Outcome
  ret : Word

def negErrno (errno : Errno) : Word := intAsUsize (-errno)

def retOf : Except Errno Word → Word
  | .ok value => value
  | .error errno => negErrno errno

structure IoError where
  rawOsError : Option Errno
  deriving DecidableEq, Repr

def osErrorOr (errno : Errno) (res : Except IoError α) : Except Errno α :=
  res.mapError fun error => error.rawOsError.getD errno

/-- `item::gdbcall::Number`. -/
inductive GdbNumber where
  | write | writeAll | flush | onSessionStart | read | peek
  deriving DecidableEq, Repr

structure GdbStream where
  onSessionStart : Except IoError Unit
  flush : Except IoError Unit
  peek : Except IoError (Option Byte)
  read : Except IoError Byte
  write : Byte → Except IoError Unit
  writeAll : List Byte → Except IoError Unit

def unitReply (res : Except Errno Unit) : Reply := ⟨res.map fun _ => .unit, retOf (res.map fun _ => 0)⟩

/-- `Connection::peek`: 256 stands for a byte that is absent. -/
def peekReply (res : Except Errno (Option Byte)) : Reply where
  outcome := res.map fun byte => byte.elim .absent .byte
  ret := retOf (res.map fun byte => byte.elim 256 (·.setWidth 64))

def readReply (res : Except Errno Byte) : Reply :=
  ⟨res.map .byte, retOf (res.map (·.setWidth 64))⟩

/-- `execute_gdb`, with the connection in `gdbFd` afterwards; `listen` is the one that a debugger
opens. `none` is a panic. -/
def executeGdb (listen gdbFd : Option GdbStream) (num : GdbNumber) (argv : List Word) (data : Data) :
    Option (Reply × Option GdbStream) :=
  match num, argv with
  | .onSessionStart, _ =>
    match gdbFd with
    | some stream => some (⟨.ok .unit, 0⟩, some stream)
    | none => do
      let stream ← listen
      let res := osErrorOr EINVAL stream.onSessionStart
      return (unitReply res, if res.isOk then some stream else none)
  | .flush, _ => do
    let stream ← gdbFd
    return (unitReply (osErrorOr EINVAL stream.flush), gdbFd)
  | .peek, _ => do
    let stream ← gdbFd
    return (peekReply (osErrorOr EINVAL stream.peek), gdbFd)
  | .read, _ => do
    let stream ← gdbFd
    return (readReply (osErrorOr EINVAL stream.read), gdbFd)
  | .write, byte :: _ => do
    let stream ← gdbFd
    return (unitReply (osErrorOr EINVAL (stream.write (byte.setWidth 8))), gdbFd)
  | .writeAll, bufOffset :: count :: _ => do
    let stream ← gdbFd
    let buf ← (deref .u8 data bufOffset count).toOption
    let res := osErrorOr EINVAL (stream.writeAll ((data.bytes.drop bufOffset.toNat).take buf.len))
    return (⟨res.map fun _ => .size count, retOf (res.map fun _ => count)⟩, gdbFd)
  | _, _ => none

def GdbNumber.ret : GdbNumber → RetType
  | .flush | .onSessionStart | .write => .unit
  | .peek => .optionByte
  | .read => .byte
  | .writeAll => .size

/-- `item::enarxcall::Number`. -/
inductive EnarxNumber where
  | memInfo | balloonMemory | cpuid | getSgxQuote | getSgxTargetInfo | getSgxQuoteSize | getSnpVcek
  | mmapHost | mprotectHost | munmapHost | trimSgxPages
  deriving DecidableEq, Repr

inductive Served where
  | replied (reply : Reply)
  /-- The thread ends, with an error or by a panic. -/
  | ended
  /-- The call is left to the next one who may serve it. -/
  | passed

def Served.require (value : Option α) (next : α → Served) : Served :=
  match value with
  | some value => next value
  | none => .ended

def Served.orElse : Served → Served → Served
  | .passed, next => next
  | served, _ => served

def unitServed (res : Except Errno Unit) : Served := .replied (unitReply res)

def sizeServed (res : Except Errno Word) : Served := .replied ⟨res.map .size, retOf res⟩

/-- `host::execute`, which skips what it does not know. -/
def hostExecute (num : EnarxNumber) (argv : List Word) (data : Data) : Served :=
  match num, argv with
  | .cpuid, [_, _, resultOffset, _] =>
    .require (derefAligned cpuidResult data resultOffset 1).toOption fun _ => unitServed (.ok ())
  | _, _ => .passed

/-- The enclave, and the answers of the kernel and of the attestation service. -/
structure SgxHost where
  memAddr : Word
  memSize : Word
  targetInfo : Bool
  quote : Bool
  quoteSize : Option (BitVec 32)
  mmap : Except IoError Unit
  mprotect : Except Errno Unit
  restrictPermissions : Bool
  removePages : Bool
  modifyTypes : Bool

/-- The span is not in the enclave; the sums wrap in a release build. -/
def SgxHost.outOfRange (host : SgxHost) (addr len : Word) : Bool :=
  addr < host.memAddr ∨ host.memAddr + host.memSize < addr + len

def SGX_TI_SIZE : Word := 512

def reportSize : Word := 512

def sgxEnarxcall (host : SgxHost) (num : EnarxNumber) (argv : List Word) (data : Data) : Served :=
  match num, argv with
  | .cpuid, [_, _, cpuidOffset, _] =>
    .require (derefAligned cpuidResult data cpuidOffset 1).toOption fun _ => unitServed (.ok ())
  | .getSgxTargetInfo, [targetInfoOffset, _, _, _] =>
    .require (deref .u8 data targetInfoOffset SGX_TI_SIZE).toOption fun _ =>
      if host.targetInfo then .replied ⟨.ok .unit, SGX_TI_SIZE⟩ else .ended
  | .getSgxQuote, [reportOffset, quoteOffset, quoteLen, _] =>
    .require (deref .u8 data reportOffset reportSize).toOption fun _ =>
      .require (deref .u8 data quoteOffset quoteLen).toOption fun _ =>
        if host.quote then sizeServed (.ok quoteLen) else .ended
  | .getSgxQuoteSize, _ => .require host.quoteSize fun size => sizeServed (.ok (uintAsUsize size))
  | .mmapHost, _ =>
    match host.mmap with
    | .ok () => unitServed (.ok ())
    | .error error => .require error.rawOsError fun errno => unitServed (.error errno)
  | .mprotectHost, [addr, len, _, _] =>
    -- the sign is missing
    if host.outOfRange addr len then .replied ⟨.error EINVAL, intAsUsize EINVAL⟩
    else
      match host.mprotect with
      | .error errno => unitServed (.error errno)
      | .ok () => if host.restrictPermissions then unitServed (.ok ()) else .ended
  | .munmapHost, [addr, len, _, _] =>
    if host.outOfRange addr len then .ended
    else if host.removePages then unitServed (.ok ()) else .ended
  | .trimSgxPages, _ => if host.modifyTypes then unitServed (.ok ()) else .ended
  | _, _ => .passed

/-- The virtual machine, and the answers of the kernel. -/
structure KvmHost where
  nrMemslots : Word
  regions : Word
  pgsz : Word
  bytes : Except IoError Unit
  /-- `Keep::map`, with the address of the memory on the host. -/
  map : Except IoError Word
  /-- `get_vcek_reader` and the copy of the certificate, at most as long as the buffer. -/
  vcek : Option Word

def KvmHost.meminfo (host : KvmHost) : Except Errno Word := .ok (host.nrMemslots - host.regions)

def KvmHost.balloon (host : KvmHost) (log2 addr : Word) : Except Errno Word :=
  let size : Word := 1 <<< (log2.toNat % 64)
  if size ≠ host.pgsz ∨ addr % size ≠ 0 then .error EINVAL
  else do
    osErrorOr ENOTSUP host.bytes
    osErrorOr ENOTSUP host.map

def kvmEnarxcall (host : KvmHost) (num : EnarxNumber) (argv : List Word) : Served :=
  match num, argv with
  | .memInfo, _ => sizeServed host.meminfo
  | .balloonMemory, [log2, _, addr, _] => sizeServed (host.balloon log2 addr)
  | _, _ => .passed

def snpEnarxcall (host : KvmHost) (num : EnarxNumber) (argv : List Word) (data : Data) : Served :=
  match num, argv with
  | .getSnpVcek, [vcekOffset, vcekLen, _, _] =>
    .require (deref .u8 data vcekOffset vcekLen).toOption fun _ =>
      .require host.vcek fun copied => if copied = 0 then .ended else sizeServed (.ok copied)
  | _, _ => .passed

def EnarxNumber.ret : EnarxNumber → RetType
  | .cpuid | .getSgxTargetInfo | .mmapHost | .mprotectHost | .munmapHost | .trimSgxPages => .unit
  | .memInfo | .balloonMemory | .getSgxQuote | .getSgxQuoteSize | .getSnpVcek => .size

inductive Request where
  | gdb (listen gdbFd : Option GdbStream) (num : GdbNumber) (argv : List Word) (data : Data)
  | sgx (host : SgxHost) (num : EnarxNumber) (argv : List Word) (data : Data)
  /-- On SEV-SNP if `snp`. -/
  | kvm (snp : Bool) (host : KvmHost) (num : EnarxNumber) (argv : List Word) (data : Data)

namespace Request

def serve : Request → Served
  | .gdb listen gdbFd num argv data =>
    .require (executeGdb listen gdbFd num argv data) fun served => .replied served.1
  | .sgx host num argv data => (sgxEnarxcall host num argv data).orElse (hostExecute num argv data)
  | .kvm snp host num argv data =>
    (kvmEnarxcall host num argv).orElse
      ((if snp then snpEnarxcall host num argv data else .passed).orElse (hostExecute num argv data))

def ret : Request → RetType
  | .gdb _ _ num _ _ => num.ret
  | .sgx _ num _ _ | .kvm _ _ num _ _ => num.ret

/-- A request for protections that is rejected without asking the kernel. -/
def isRejected : Request → Bool
  | .sgx host .mprotectHost [addr, len, _, _] _ => host.outOfRange addr len
  | _ => false

end Request

def IsErrno (errno : Errno) : Prop := 1 ≤ errno.toNat ∧ errno.toNat ≤ 4095

def Valid (res : Except Errno α) : Prop := ∀ errno, res = .error errno → IsErrno errno

theorem toNat_negErrno {errno : Errno} (h : IsErrno errno) :
    (negErrno errno).toNat = 2 ^ 64 - errno.toNat := by
  obtain ⟨hlo, hhi⟩ := h
  have hneg : (-errno).toNat = 2 ^ 32 - errno.toNat := by
    rw [BitVec.toNat_neg]
    omega
  have hmsb : (-errno).msb = true := by
    rw [BitVec.msb_eq_decide, decide_eq_true_eq, hneg]
    omega
  rw [negErrno, intAsUsize, BitVec.toNat_signExtend, hmsb, BitVec.toNat_setWidth, hneg]
  simp only [if_true]
  omega

theorem errnoOf_negErrno (errno : Errno) : errnoOf (negErrno errno) = errno := by
  rw [errnoOf, negErrno, usizeAsInt_intAsUsize, BitVec.neg_neg]

theorem errnoStart_le_negErrno {errno : Errno} (h : IsErrno errno) :
    ERRNO_START ≤ (negErrno errno).toNat := by
  rw [toNat_negErrno h, ERRNO_START]
  have := h.2
  omega

theorem decode_negErrno_iff {errno : Errno} (h : IsErrno errno) (ret : RetType) :
    ret.decode (negErrno errno) = .error errno ↔ ¬(ret = .optionByte ∧ errno = 1) := by
  have hstart := errnoStart_le_negErrno h
  cases ret with
  | unit | size | byte =>
    simp [RetType.decode, decodeUnit, decodeSize, decodeByte, if_pos hstart, errnoOf_negErrno, Except.map]
  | optionByte =>
    have hnull : negErrno errno = NULL ↔ errno = 1 := by
      rw [← BitVec.toNat_inj, ← BitVec.toNat_inj, toNat_negErrno h, NULL, BitVec.toNat_allOnes]
      obtain ⟨hlo, hhi⟩ := h
      simp
      omega
    rw [RetType.decode, decodeOptionByte, if_pos hstart, errnoOf_negErrno]
    by_cases hone : errno = 1
    · rw [if_pos (hnull.mpr hone)]
      simp [hone, Except.map]
    · rw [if_neg (mt hnull.mp hone)]
      exact ⟨fun _ hnot => hone hnot.2, fun _ => rfl⟩

theorem decode_unit {word : Word} (h : word.toNat < ERRNO_START) : RetType.unit.decode word = .ok .unit := by
  rw [RetType.decode, decodeUnit, if_neg (Nat.not_le.mpr h)]
  rfl

theorem decode_size_iff (value : Word) :
    RetType.size.decode value = .ok (.size value) ↔ value.toNat < ERRNO_START := by
  rw [RetType.decode, decodeSize, ← Nat.not_le]
  split
  · next h => simp [h, Except.map]
  · next h => simp [h, Except.map, usize]

theorem toNat_byteAsUsize (byte : Byte) : (byte.setWidth 64).toNat = byte.toNat := by
  have hlt := byte.isLt
  rw [BitVec.toNat_setWidth, Nat.mod_eq_of_lt (by omega)]

theorem decode_byte (byte : Byte) : RetType.byte.decode (byte.setWidth 64) = .ok (.byte byte) := by
  have hlt := byte.isLt
  have hret := toNat_byteAsUsize byte
  rw [RetType.decode, decodeByte, hret, if_neg (by unfold ERRNO_START; omega), if_pos (by omega)]
  simp [Except.map]

theorem decode_optionByte (byte : Byte) :
    RetType.optionByte.decode (byte.setWidth 64) = .ok (.byte byte) := by
  have hlt := byte.isLt
  have hret := toNat_byteAsUsize byte
  have hnull : byte.setWidth 64 ≠ NULL := by
    intro heq
    have htoNat := congrArg BitVec.toNat heq
    rw [hret, NULL, BitVec.toNat_allOnes] at htoNat
    omega
  rw [RetType.decode, decodeOptionByte, if_neg hnull, hret, if_neg (by unfold ERRNO_START; omega),
    if_pos (by omega)]
  simp [Except.map]

theorem decode_absent : RetType.optionByte.decode 256#64 = .error EOVERFLOW := by decide

inductive Form (request : Request) : Reply → Prop
  | unit (res : Except Errno Unit) (word : Word) (hret : request.ret = .unit)
      (hword : word.toNat < ERRNO_START) (hrange : request.isRejected = false) :
      Form request ⟨res.map fun _ => .unit, retOf (res.map fun _ => word)⟩
  | size (res : Except Errno Word) (hret : request.ret = .size) (hrange : request.isRejected = false) :
      Form request ⟨res.map .size, retOf res⟩
  | peek (res : Except Errno (Option Byte)) (hret : request.ret = .optionByte)
      (hrange : request.isRejected = false) : Form request (peekReply res)
  | read (res : Except Errno Byte) (hret : request.ret = .byte) (hrange : request.isRejected = false) :
      Form request (readReply res)
  | rejected (hret : request.ret = .unit) (hrange : request.isRejected = true) :
      Form request ⟨.error EINVAL, intAsUsize EINVAL⟩

namespace Served

variable {reply : Reply}

theorem require_replied {value : Option α} {next : α → Served}
    (h : require value next = .replied reply) : ∃ result, value = some result ∧ next result = .replied reply := by
  cases value with
  | none => cases h
  | some result => exact ⟨result, rfl, h⟩

theorem orElse_replied {served next : Served} (h : served.orElse next = .replied reply) :
    served = .replied reply ∨ next = .replied reply := by
  cases served with
  | passed => exact .inr h
  | replied | ended => exact .inl h

end Served

section

variable {num : EnarxNumber} {argv : List Word} {data : Data} {reply : Reply}

theorem hostExecute_replied (h : hostExecute num argv data = .replied reply) :
    num = .cpuid ∧ reply = unitReply (.ok ()) := by
  unfold hostExecute at h
  split at h
  · obtain ⟨_, -, h⟩ := Served.require_replied h
    cases h
    exact ⟨rfl, rfl⟩
  · cases h

theorem snpEnarxcall_replied {host : KvmHost} (h : snpEnarxcall host num argv data = .replied reply) :
    num = .getSnpVcek ∧ ∃ copied, reply = ⟨.ok (.size copied), copied⟩ := by
  unfold snpEnarxcall at h
  split at h
  · obtain ⟨_, -, h⟩ := Served.require_replied h
    obtain ⟨copied, -, h⟩ := Served.require_replied h
    split at h
    · cases h
    · cases h
      exact ⟨rfl, copied, rfl⟩
  · cases h

theorem kvmEnarxcall_replied {host : KvmHost} (h : kvmEnarxcall host num argv = .replied reply) :
    (num = .memInfo ∨ num = .balloonMemory) ∧ ∃ res, reply = ⟨res.map .size, retOf res⟩ := by
  unfold kvmEnarxcall at h
  split at h
  · cases h
    exact ⟨.inl rfl, _, rfl⟩
  · cases h
    exact ⟨.inr rfl, _, rfl⟩
  · cases h

theorem sgxEnarxcall_form {host : SgxHost} (h : sgxEnarxcall host num argv data = .replied reply) :
    Form (.sgx host num argv data) reply := by
  unfold sgxEnarxcall at h
  split at h
  case h_1 =>
    obtain ⟨_, -, h⟩ := Served.require_replied h
    cases h
    exact .unit (.ok ()) 0 rfl (by decide) rfl
  case h_2 =>
    obtain ⟨_, -, h⟩ := Served.require_replied h
    split at h
    · cases h
      exact .unit (.ok ()) SGX_TI_SIZE rfl (by decide) rfl
    · cases h
  case h_3 quoteLen _ =>
    obtain ⟨_, -, h⟩ := Served.require_replied h
    obtain ⟨_, -, h⟩ := Served.require_replied h
    split at h
    · cases h
      exact .size (.ok quoteLen) rfl rfl
    · cases h
  case h_4 =>
    obtain ⟨size, -, h⟩ := Served.require_replied h
    cases h
    exact .size (.ok (uintAsUsize size)) rfl rfl
  case h_5 =>
    split at h
    · cases h
      exact .unit (.ok ()) 0 rfl (by decide) rfl
    · obtain ⟨errno, -, h⟩ := Served.require_replied h
      cases h
      exact .unit (.error errno) 0 rfl (by decide) rfl
  case h_6 =>
    split at h
    · next hrange =>
      cases h
      exact .rejected rfl hrange
    · next hrange =>
      have hrange := Bool.eq_false_iff.mpr hrange
      split at h
      · next errno _ =>
        cases h
        exact .unit (.error errno) 0 rfl (by decide) hrange
      · split at h
        · cases h
          exact .unit (.ok ()) 0 rfl (by decide) hrange
        · cases h
  case h_7 =>
    split at h
    · cases h
    · split at h
      · cases h
        exact .unit (.ok ()) 0 rfl (by decide) rfl
      · cases h
  case h_8 =>
    split at h
    · cases h
      exact .unit (.ok ()) 0 rfl (by decide) rfl
    · cases h
  case h_9 => cases h

end

theorem executeGdb_form {listen gdbFd after : Option GdbStream} {num : GdbNumber} {argv : List Word}
    {data : Data} {reply : Reply} (h : executeGdb listen gdbFd num argv data = some (reply, after)) :
    Form (.gdb listen gdbFd num argv data) reply := by
  unfold executeGdb at h
  split at h
  case h_1 =>
    split at h
    · cases h
      exact .unit (.ok ()) 0 rfl (by decide) rfl
    · obtain ⟨stream, -, h⟩ := Option.bind_eq_some_iff.mp h
      cases h
      exact .unit _ 0 rfl (by decide) rfl
  case h_2 =>
    obtain ⟨stream, -, h⟩ := Option.bind_eq_some_iff.mp h
    cases h
    exact .unit _ 0 rfl (by decide) rfl
  case h_3 =>
    obtain ⟨stream, -, h⟩ := Option.bind_eq_some_iff.mp h
    cases h
    exact .peek _ rfl rfl
  case h_4 =>
    obtain ⟨stream, -, h⟩ := Option.bind_eq_some_iff.mp h
    cases h
    exact .read _ rfl rfl
  case h_5 =>
    obtain ⟨stream, -, h⟩ := Option.bind_eq_some_iff.mp h
    cases h
    exact .unit _ 0 rfl (by decide) rfl
  case h_6 count _ =>
    obtain ⟨stream, -, h⟩ := Option.bind_eq_some_iff.mp h
    obtain ⟨buf, -, h⟩ := Option.bind_eq_some_iff.mp h
    cases h
    cases osErrorOr EINVAL (stream.writeAll _) with
    | ok => exact .size (.ok count) rfl rfl
    | error errno => exact .size (.error errno) rfl rfl
  case h_7 => cases h

theorem Request.serve_form {request : Request} {reply : Reply} (h : request.serve = .replied reply) :
    Form request reply := by
  cases request with
  | gdb =>
    obtain ⟨⟨_, after⟩, hserved, h⟩ := Served.require_replied h
    cases h
    exact executeGdb_form hserved
  | sgx host num argv data =>
    rcases Served.orElse_replied h with h | h
    · exact sgxEnarxcall_form h
    · obtain ⟨rfl, rfl⟩ := hostExecute_replied h
      exact .unit (.ok ()) 0 rfl (by decide) rfl
  | kvm snp host num argv data =>
    rcases Served.orElse_replied h with h | h
    · obtain ⟨rfl | rfl, res, rfl⟩ := kvmEnarxcall_replied h
      · exact .size res rfl rfl
      · exact .size res rfl rfl
    · rcases Served.orElse_replied h with h | h
      · split at h
        · obtain ⟨rfl, copied, rfl⟩ := snpEnarxcall_replied h
          exact .size (.ok copied) rfl rfl
        · cases h
      · obtain ⟨rfl, rfl⟩ := hostExecute_replied h
        exact .unit (.ok ()) 0 rfl (by decide) rfl

/-- The guest reads another outcome if the byte is absent, if peeking fails with error number 1, if
a span is rejected, or if a size looks like an error. -/
theorem decode_ret_iff {request : Request} {reply : Reply} (hserve : request.serve = .replied reply)
    (hvalid : Valid reply.outcome) : request.ret.decode reply.ret = reply.outcome ↔
      request.isRejected = false ∧
      ¬(request.ret = .optionByte ∧ (reply.outcome = .ok .absent ∨ reply.outcome = .error 1)) ∧
      ∀ value, reply.outcome = .ok (.size value) → value.toNat < ERRNO_START := by
  cases request.serve_form hserve with
  | unit res word hret hword hrange =>
    cases res with
    | ok => simp [hret, hrange, Except.map, retOf, decode_unit hword]
    | error errno => simp [hret, hrange, Except.map, retOf, decode_negErrno_iff (hvalid errno rfl)]
  | size res hret hrange =>
    cases res with
    | ok value => simp [hret, hrange, Except.map, retOf, decode_size_iff]
    | error errno => simp [hret, hrange, Except.map, retOf, decode_negErrno_iff (hvalid errno rfl)]
  | peek res hret hrange =>
    match res with
    | .ok (some byte) => simp [hret, hrange, peekReply, Except.map, retOf, decode_optionByte]
    | .ok none => simp [hret, hrange, peekReply, Except.map, retOf, decode_absent]
    | .error errno =>
      simp [hret, hrange, peekReply, Except.map, retOf, decode_negErrno_iff (hvalid errno rfl)]
  | read res hret hrange =>
    cases res with
    | ok byte => simp [hret, hrange, readReply, Except.map, retOf, decode_byte]
    | error errno =>
      simp [hret, hrange, readReply, Except.map, retOf, decode_negErrno_iff (hvalid errno rfl)]
  | rejected hret hrange =>
    have hdecode : RetType.unit.decode (intAsUsize EINVAL) = .ok .unit := by decide
    simp [hret, hrange, hdecode]

def memInfoRequest : Request :=
  .kvm false ⟨509, 3, 4096, .ok (), .ok 0x7F0000000000, none⟩ .memInfo [] ⟨0, []⟩

theorem decode_ret_memInfo : ∃ reply, memInfoRequest.serve = .replied reply ∧
    (memInfoRequest.ret.decode reply.ret = reply.outcome ↔
      memInfoRequest.isRejected = false ∧
      ¬(memInfoRequest.ret = .optionByte ∧
        (reply.outcome = .ok .absent ∨ reply.outcome = .error 1)) ∧
      ∀ value, reply.outcome = .ok (.size value) → value.toNat < ERRNO_START) :=
  ⟨⟨.ok (.size 506), 506⟩, rfl, decode_ret_iff (show memInfoRequest.serve = .replied ⟨.ok (.size 506), 506⟩ from rfl) (by
    intro errno h
    cases h)⟩

def peekRequest : Request :=
  .gdb none (some ⟨.ok (), .ok (), .ok none, .ok 0, fun _ => .ok (), fun _ => .ok ()⟩) .peek [] ⟨0, []⟩

def protectRequest : Request :=
  .sgx ⟨0x10000, 0x10000, true, true, some 0, .ok (), .ok (), true, true, true⟩ .mprotectHost
    [0, 4096, 1, 0] ⟨0, []⟩

/-- The peek fails, and the rejected span is reported as protected. -/
theorem outcome_misread :
    (∃ reply, peekRequest.serve = .replied reply ∧ Valid reply.outcome ∧ reply.outcome = .ok .absent ∧
      peekRequest.ret.decode reply.ret = .error EOVERFLOW) ∧
    ∃ reply, protectRequest.serve = .replied reply ∧ Valid reply.outcome ∧
      reply.outcome = .error EINVAL ∧ protectRequest.ret.decode reply.ret = .ok .unit := by
  refine ⟨⟨⟨.ok .absent, 256⟩, rfl, ?_, rfl, by decide⟩, ⟨⟨.error EINVAL, 22⟩, rfl, ?_, rfl, by decide⟩⟩
  · intro errno h
    cases h
  · intro errno h
    cases h
    exact ⟨by decide, by decide⟩

end Enarx.Backend
