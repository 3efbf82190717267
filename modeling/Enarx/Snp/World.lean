import Enarx.Bytes
import Enarx.Interference

/-!
# The parties of an SNP guest request

The shim keeps its sequence number in the private secrets page. The request and
the response are in pages that the host can write at any time. The firmware
answers requests that are authentic and carry the next sequence number. The
cipher is ideal: a message is authentic when it was encrypted under the key
before, so `history` records every encryption of either side.
-/
namespace Enarx.Snp

inductive SnpMsgType where
  | keyReq | keyRsp | reportReq | reportRsp
  deriving DecidableEq, Repr

def SnpMsgType.toByte : SnpMsgType → Byte
  | .keyReq => 3
  | .keyRsp => 4
  | .reportReq => 5
  | .reportRsp => 6

def snpAeadAes256Gcm : Byte := 1

def MSG_HDR_VER : Byte := 1

def SNP_GUEST_MSG_PAYLOAD_LEN : Nat := 4000

structure SnpGuestMsgHdr where
  authtag : List Byte
  msgSeqno : BitVec 64
  rsvd1 : List Byte
  algo : Byte
  hdrVersion : Byte
  hdrSz : BitVec 16
  msgType : Byte
  msgVersion : Byte
  msgSz : BitVec 16
  rsvd2 : BitVec 32
  msgVmpck : Byte
  rsvd3 : List Byte
  deriving DecidableEq, Repr

namespace SnpGuestMsgHdr

def size : BitVec 16 := 96

def default : SnpGuestMsgHdr :=
  ⟨List.replicate 32 0, 0, List.replicate 8 0, 0, 0, 0, 0, 0, 0, 0, 0, List.replicate 35 0⟩

/-- The 48 bytes from `algo` on; the sequence number is not among them. -/
def asssocData (hdr : SnpGuestMsgHdr) : List Byte :=
  [hdr.algo, hdr.hdrVersion] ++ leBytes 2 hdr.hdrSz.toNat ++ [hdr.msgType, hdr.msgVersion] ++
    leBytes 2 hdr.msgSz.toNat ++ leBytes 4 hdr.rsvd2.toNat ++ [hdr.msgVmpck] ++ hdr.rsvd3

end SnpGuestMsgHdr

structure SnpGuestMsg where
  hdr : SnpGuestMsgHdr
  payload : List Byte
  deriving DecidableEq, Repr

def SnpGuestMsg.default : SnpGuestMsg :=
  ⟨.default, List.replicate SNP_GUEST_MSG_PAYLOAD_LEN 0⟩

def seqnoNonce (seqno : BitVec 64) : List Byte := leBytes 8 seqno.toNat ++ List.replicate 4 0

theorem seqnoNonce_injective {left right : BitVec 64} (h : seqnoNonce left = seqnoNonce right) :
    left = right := by
  have hbytes := (List.append_inj h (by simp)).1
  have hnat := congrArg leNat hbytes
  rw [leNat_leBytes, leNat_leBytes, Nat.mod_eq_of_lt (by omega), Nat.mod_eq_of_lt (by omega)] at hnat
  exact BitVec.eq_of_toNat_eq hnat

/-- `Aes256Gcm` under `vmpck0`; encryption may refuse. -/
structure Cipher where
  encrypt : (nonce asssocData plaintext : List Byte) → Option (List Byte × List Byte)

structure Sealed where
  nonce : List Byte
  asssocData : List Byte
  plaintext : List Byte
  ciphertext : List Byte
  tag : List Byte
  deriving DecidableEq, Repr

inductive Event where
  /-- `enc_payload`, with the private sequence number of the request. -/
  | encrypted (seqno : BitVec 32) (msg : Sealed)
  /-- The firmware's answer to `request`. -/
  | replied (request msg : Sealed)
  /-- A guest request that the host reported as failed. -/
  | failed (code : Word)
  /-- `dec_payload` found `msg` authentic. -/
  | decrypted (msg : Sealed)
  deriving DecidableEq, Repr

def Event.message? : Event → Option Sealed
  | .encrypted _ msg => some msg
  | .replied _ msg => some msg
  | .failed _ | .decrypted _ => none

abbrev History := List Event

/-- Decryption: only what was encrypted under the key is authentic. -/
def History.decrypt (history : History) (nonce asssocData ciphertext tag : List Byte) :
    Option Sealed :=
  (history.filterMap Event.message?).find? fun msg =>
    msg.nonce = nonce ∧ msg.asssocData = asssocData ∧ msg.ciphertext = ciphertext ∧ msg.tag = tag

def History.request? (history : History) : Option (BitVec 32 × Sealed) :=
  history.findSome? fun
    | .encrypted seqno msg => some (seqno, msg)
    | _ => none

structure Firmware where
  /-- The answer to an authentic request, if it is served: header and plaintext. -/
  answer : SnpGuestMsgHdr → List Byte → Option (SnpGuestMsgHdr × List Byte)

/-- The private state of guest and firmware, the shared pages and what has happened. -/
structure World where
  msgSeqno0 : BitVec 32
  request : SnpGuestMsg
  response : SnpGuestMsg
  count : Nat
  history : History

section

variable (cipher : Cipher) (firmware : Firmware)

/-- The firmware is given a message. It must carry the next sequence number and be
authentic; the answer has the sequence number after it. -/
def World.serve (world : World) (msg : SnpGuestMsg) : World :=
  if msg.hdr.msgSeqno.toNat = world.count + 1 then
    match world.history.decrypt (seqnoNonce msg.hdr.msgSeqno) msg.hdr.asssocData
        (msg.payload.take msg.hdr.msgSz.toNat) (msg.hdr.authtag.take 16) with
    | none => world
    | some request =>
      match firmware.answer msg.hdr request.plaintext with
      | none => world
      | some (hdr, plaintext) =>
        let nonce := seqnoNonce (msg.hdr.msgSeqno + 1)
        match cipher.encrypt nonce hdr.asssocData plaintext with
        | none => world
        | some (ciphertext, tag) =>
          { world with
            count := world.count + 2
            history :=
              .replied request ⟨nonce, hdr.asssocData, plaintext, ciphertext, tag⟩ ::
                world.history }
  else world

/-- The accesses of the guest to shared memory, in program order. -/
inductive Point where
  | resetRequest | storeAlgo | storeHdrVersion | storeHdrSz | storeMsgType | storeMsgVersion
  | storeMsgSeqno | storeMsgVmpck | storeMsgSz | loadNonce | loadAsssocData | storePayload
  | storeAuthtag | resetResponse | vmgexit | loadRequestSeqno | checkSeqno | checkMsgType
  | loadRequestVersion | checkMsgVersion | checkAlgo | checkHdrSz | checkMsgVmpck | checkMsgSz
  | openNonce | openSizeTo | openSizeFrom | openPayload | openSize | openAsssocData | openTag
  | reportSize
  deriving DecidableEq, Repr

/-- What the host does between two accesses: it has the firmware serve any messages,
and leaves any contents in the shared pages. -/
structure Move where
  forwarded : List SnpGuestMsg
  request : SnpGuestMsg
  response : SnpGuestMsg

structure Host where
  move : Point → World → Move
  /-- The outcome of `GHCB.guest_req`, which is read from shared memory. -/
  exit : World → Except Word Unit

variable (host : Host)

def World.interfere (point : Point) (world : World) : World :=
  let move := host.move point world
  { move.forwarded.foldl (World.serve cipher firmware) world with
    request := move.request, response := move.response }

end

end Enarx.Snp
