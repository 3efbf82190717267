import Enarx.Sallyport.Libc
import Enarx.Snp.World

/-!
# Guest requests to the SNP firmware

`enc_payload`, `guest_req`, `dec_payload`, and the two requests `get_key` and
`get_report` built from them. Every access to the request or the response goes
through `load` or `store`, before which the host may act.
-/
namespace Enarx.Snp

open Sallyport (CInt)
open Sallyport.Libc (EINVAL)
open Interference (load store)

def EIO : CInt := 5

inductive Panic where
  | unwrap
  | expect (msg : String)
  | slice
  | status (msg : String) (value : Nat)
  deriving DecidableEq, Repr

inductive Stop (ε : Type) where
  | err (error : ε)
  | panic (reason : Panic)
  deriving DecidableEq, Repr

abbrev Guest (ε α : Type) := Exec (Stop ε) World α

namespace Guest

def unwrap (value : Option α) : Guest ε α :=
  match value with
  | some value => pure value
  | none => throw (.panic .unwrap)

def expect (msg : String) (run : Guest δ α) : Guest ε α := fun world =>
  match run world with
  | (.ok value, world) => (.ok value, world)
  | (.error (.err _), world) => (.error (.panic (.expect msg)), world)
  | (.error (.panic reason), world) => (.error (.panic reason), world)

def ensure (cond : Prop) [Decidable cond] (error : ε) : Guest ε Unit :=
  if cond then pure () else throw (.err error)

/-- Slicing out of bounds, or copying between slices of different lengths, panics. -/
def slice (cond : Prop) [Decidable cond] : Guest ε Unit :=
  if cond then pure () else throw (.panic .slice)

def record (event : Event) : Guest ε Unit :=
  modify fun world => { world with history := event :: world.history }

end Guest

open Guest

def checkedAdd (value : BitVec n) (addend : Nat) : Option (BitVec n) :=
  if value.toNat + addend < 2 ^ n then some (value + BitVec.ofNat n addend) else none

def getMsgSeqno0 : Guest ε (BitVec 32) := do
  unwrap (checkedAdd (← get).msgSeqno0 1)

def incMsgSeqno0 : Guest ε Unit := do
  let msgSeqno0 ← unwrap (checkedAdd (← get).msgSeqno0 2)
  modify fun world => { world with msgSeqno0 }

def setRequest (update : SnpGuestMsgHdr → SnpGuestMsgHdr) (world : World) : World :=
  { world with request := { world.request with hdr := update world.request.hdr } }

def copyInto (dst src : List Byte) : List Byte := src ++ dst.drop src.length

section

variable (cipher : Cipher) (firmware : Firmware) (host : Host)

abbrev env : Point → World → World := World.interfere cipher firmware host

def encPayload (version : Byte) (msgType : SnpMsgType) (plaintext : List Byte) :
    Guest Unit Unit := do
  let env := env cipher firmware host
  store env .storeAlgo (setRequest fun hdr => { hdr with algo := snpAeadAes256Gcm })
  store env .storeHdrVersion (setRequest fun hdr => { hdr with hdrVersion := MSG_HDR_VER })
  store env .storeHdrSz (setRequest fun hdr => { hdr with hdrSz := SnpGuestMsgHdr.size })
  store env .storeMsgType (setRequest fun hdr => { hdr with msgType := msgType.toByte })
  store env .storeMsgVersion (setRequest fun hdr => { hdr with msgVersion := version })
  let seqno ← getMsgSeqno0
  store env .storeMsgSeqno (setRequest fun hdr => { hdr with msgSeqno := seqno.setWidth 64 })
  store env .storeMsgVmpck (setRequest fun hdr => { hdr with msgVmpck := 0 })
  store env .storeMsgSz
    (setRequest fun hdr => { hdr with msgSz := BitVec.ofNat 16 plaintext.length })
  -- the nonce is read back from the shared page
  let nonce ← load env .loadNonce fun world => seqnoNonce world.request.hdr.msgSeqno
  let asssocData ← load env .loadAsssocData fun world => world.request.hdr.asssocData
  match cipher.encrypt nonce asssocData plaintext with
  | none => throw (.err ())
  | some (ciphertext, tag) => do
    record (.encrypted seqno ⟨nonce, asssocData, plaintext, ciphertext, tag⟩)
    store env .storePayload fun world =>
      { world with
        request := { world.request with payload := copyInto world.request.payload ciphertext } }
    store env .storeAuthtag
      (setRequest fun hdr => { hdr with authtag := copyInto hdr.authtag (tag.take 16) })

def guestReq : Guest Word Unit := do
  let env := env cipher firmware host
  store env .resetResponse fun world => { world with response := .default }
  let ret ← load env .vmgexit host.exit
  match ret with
  | .ok _ => incMsgSeqno0
  | .error code => do
    record (.failed code)
    throw (.err code)

/-- The comparisons of `dec_payload`, for a buffer of `payloadSize` bytes. -/
def checkResponse (payloadSize : Nat) (expectedMsgType : SnpMsgType) : Guest Unit Unit := do
  let env := env cipher firmware host
  let seqno ← load env .loadRequestSeqno fun world => world.request.hdr.msgSeqno
  let nextSeqno ← (match checkedAdd seqno 1 with
    | some nextSeqno => pure nextSeqno
    | none => throw (.err ()) : Guest Unit (BitVec 64))
  let seqno ← load env .checkSeqno fun world => world.response.hdr.msgSeqno
  ensure (nextSeqno = seqno) ()
  let msgType ← load env .checkMsgType fun world => world.response.hdr.msgType
  ensure (expectedMsgType.toByte = msgType) ()
  let version ← load env .loadRequestVersion fun world => world.request.hdr.msgVersion
  let msgVersion ← load env .checkMsgVersion fun world => world.response.hdr.msgVersion
  ensure (version = msgVersion) ()
  let algo ← load env .checkAlgo fun world => world.response.hdr.algo
  ensure (algo = snpAeadAes256Gcm) ()
  let hdrSz ← load env .checkHdrSz fun world => world.response.hdr.hdrSz
  ensure (hdrSz = SnpGuestMsgHdr.size) ()
  let msgVmpck ← load env .checkMsgVmpck fun world => world.response.hdr.msgVmpck
  ensure (msgVmpck = 0) ()
  let msgSz ← load env .checkMsgSz fun world => world.response.hdr.msgSz
  ensure (msgSz.toNat ≤ payloadSize) ()

/-- The decryption of `dec_payload`; returns the new contents of the buffer. -/
def openResponse (plaintext : List Byte) : Guest Unit (List Byte) := do
  let env := env cipher firmware host
  let nonce ← load env .openNonce fun world => seqnoNonce world.response.hdr.msgSeqno
  -- the size is read again for each slice
  let sizeTo ← load env .openSizeTo fun world => world.response.hdr.msgSz.toNat
  let sizeFrom ← load env .openSizeFrom fun world => world.response.hdr.msgSz.toNat
  let payload ← load env .openPayload fun world => world.response.payload
  slice (sizeTo ≤ plaintext.length ∧ sizeFrom ≤ payload.length ∧ sizeTo = sizeFrom)
  let plaintext := copyInto plaintext (payload.take sizeFrom)
  let size ← load env .openSize fun world => world.response.hdr.msgSz.toNat
  slice (size ≤ plaintext.length)
  let asssocData ← load env .openAsssocData fun world => world.response.hdr.asssocData
  let tag ← load env .openTag fun world => world.response.hdr.authtag.take 16
  match (← get).history.decrypt nonce asssocData (plaintext.take size) tag with
  | none => throw (.panic (.expect "decrypt failed!"))
  | some msg => do
    record (.decrypted msg)
    return copyInto plaintext msg.plaintext

def decPayload (plaintext : List Byte) (expectedMsgType : SnpMsgType) :
    Guest Unit (List Byte) := do
  checkResponse cipher firmware host plaintext.length expectedMsgType
  openResponse cipher firmware host plaintext

/-- `KeyReq`, with `GuestFieldSelect::GUEST_SVN | GuestFieldSelect::GUEST_POLICY`. -/
def keyReq (guestSvn : BitVec 32) : List Byte :=
  leBytes 4 0 ++ leBytes 4 0 ++ leBytes 8 17 ++ leBytes 4 0 ++ leBytes 4 guestSvn.toNat ++
    leBytes 8 0

def keyRspSize : Nat := 64

def getKey (version : Byte) (guestSvn : BitVec 32) : Guest CInt (List Byte) := do
  store (env cipher firmware host) .resetRequest fun world => { world with request := .default }
  expect "encryption failed" (encPayload cipher firmware host version .keyReq (keyReq guestSvn))
  expect "request failed" (guestReq cipher firmware host)
  let response ← expect "decryption failed"
    (decPayload cipher firmware host (List.replicate keyRspSize 0) .keyRsp)
  ensure (response.length = keyRspSize) EIO
  match leNat (response.take 4) with
  | 0 => return (response.drop 32).take 32
  | 0x16 => throw (.err EIO)
  | status => throw (.panic (.status "invalid MSG_KEY_RSP error value" status))

def SNP_ATTESTATION_LEN_MAX : Nat := SNP_GUEST_MSG_PAYLOAD_LEN

def reportHeaderSize : Nat := 32

/-- Returns the buffer, and where in it the report starts and how long it is. -/
def getReport (version : Byte) (nonce response : List Byte) :
    Guest CInt (List Byte × Nat × Nat) := do
  ensure (nonce.length = 64) EINVAL
  ensure (SNP_ATTESTATION_LEN_MAX ≤ response.length) EINVAL
  store (env cipher firmware host) .resetRequest fun world => { world with request := .default }
  expect "encryption failed" (encPayload cipher firmware host version .reportReq nonce)
  expect "request failed" (guestReq cipher firmware host)
  let response ← expect "decryption failed" (decPayload cipher firmware host response .reportRsp)
  let msgSz ← load (env cipher firmware host) .reportSize fun world => world.response.hdr.msgSz.toNat
  ensure (reportHeaderSize ≤ msgSz) EIO
  match leNat (response.take 4) with
  | 0 => return (response, reportHeaderSize, leNat ((response.drop 4).take 4))
  | 0x16 => throw (.err EIO)
  | status => throw (.panic (.status "invalid MSG_REPORT_RSP error value" status))

inductive Call where
  | getKey (version : Byte) (guestSvn : BitVec 32)
  | getReport (version : Byte) (nonce response : List Byte)

def Call.execute : Call → Guest CInt Unit
  | .getKey version guestSvn => do
    let _ ← Snp.getKey cipher firmware host version guestSvn
  | .getReport version nonce response => do
    let _ ← Snp.getReport cipher firmware host version nonce response

/-- The shim makes one call after the other; an `Err` does not stop it, a panic does. -/
def run : List Call → Exec Panic World Unit
  | [] => pure ()
  | call :: rest => fun world =>
    match call.execute cipher firmware host world with
    | (.error (.panic reason), world) => (.error reason, world)
    | (_, world) => run rest world

end

end Enarx.Snp
