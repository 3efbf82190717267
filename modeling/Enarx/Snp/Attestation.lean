import Enarx.Der
import Enarx.Snp.Replay

/-!
# Attestation

`get_attestation` asks the firmware for a report and writes it, behind the cached
certificate, into the buffer of the workload. Slices that are out of bounds panic.
-/
namespace Enarx.Snp

open Sallyport (CInt)
open Sallyport.Libc (EINVAL)

structure Encoded where
  ret : Option Nat
  chunks : List Byte
  deriving DecidableEq, Repr

abbrev Encode := Except Panic Encoded

def checkedAddUsize (a b : Nat) : Option Nat := if a + b < 2 ^ 64 then some (a + b) else none

def toBeBytes (len : Nat) : Byte × Byte × Byte × Byte :=
  (BitVec.ofNat 8 (len / 2 ^ 24), BitVec.ofNat 8 (len / 2 ^ 16), BitVec.ofNat 8 (len / 2 ^ 8),
    BitVec.ofNat 8 len)

def putHeader (header bytes : List Byte) : Encode :=
  if bytes.length ≤ header.length then
    .ok ⟨some bytes.length, bytes ++ header.drop bytes.length⟩
  else .error .slice

def writeAsnHeader (header : List Byte) (tag : Byte) (len : Nat) : Encode :=
  if len < 2 ^ 32 then
    match toBeBytes len with
    | (byte3, byte2, byte1, byte0) =>
      if byte3 = 0 ∧ byte2 = 0 ∧ byte1 = 0 ∧ byte0 < 0x80 then putHeader header [tag, byte0]
      else if byte3 = 0 ∧ byte2 = 0 ∧ byte1 = 0 then putHeader header [tag, 0x81, byte0]
      else if byte3 = 0 ∧ byte2 = 0 then putHeader header [tag, 0x82, byte1, byte0]
      else if byte3 = 0 then putHeader header [tag, 0x83, byte2, byte1, byte0]
      else putHeader header [tag, 0x84, byte3, byte2, byte1, byte0]
  else .ok ⟨none, header⟩

def calcAsnHeaderLen (len : Nat) : Option Nat :=
  if len < 2 ^ 32 then
    match toBeBytes len with
    | (byte3, byte2, byte1, byte0) =>
      if byte3 = 0 ∧ byte2 = 0 ∧ byte1 = 0 ∧ byte0 < 0x80 then some 2
      else if byte3 = 0 ∧ byte2 = 0 ∧ byte1 = 0 then some 3
      else if byte3 = 0 ∧ byte2 = 0 then some 4
      else if byte3 = 0 then some 5
      else some 6
  else none

def asnWrap (chunks : List Byte) (headerF : List Byte → Nat → Encode) (bodyF : List Byte → Encode)
    (bodyLenF : Option Nat) : Encode :=
  match bodyLenF with
  | none => .ok ⟨none, chunks⟩
  | some bodyLen =>
    match calcAsnHeaderLen bodyLen with
    | none => .ok ⟨none, chunks⟩
    | some headerLen =>
      if chunks.length < headerLen then .error .slice
      else do
        let body ← bodyF (chunks.drop headerLen)
        match body.ret with
        | none => return ⟨none, chunks.take headerLen ++ body.chunks⟩
        | some copiedBodyLen =>
          let head ← headerF (chunks.take headerLen) bodyLen
          match head.ret with
          | none => return ⟨none, head.chunks ++ body.chunks⟩
          | some copiedHeaderLen =>
            return ⟨checkedAddUsize copiedHeaderLen copiedBodyLen, head.chunks ++ body.chunks⟩

def ASN_SECTION_CONSTRUCTED : Byte := 0x30

def ASN_OCTET_STRING : Byte := 0x04

def reportChunk (report chunks : List Byte) : Encode :=
  if report.length ≤ chunks.length then
    .ok ⟨some report.length, report ++ chunks.drop report.length⟩
  else .error .slice

def vcekReport (report vcek chunks : List Byte) : Encode :=
  if chunks.length < vcek.length then .error .slice
  else do
    let rest ← asnWrap (chunks.drop vcek.length)
      (fun header len => writeAsnHeader header ASN_OCTET_STRING len) (reportChunk report)
      (some report.length)
    match rest.ret with
    | none => return ⟨none, vcek ++ rest.chunks⟩
    | some reportChunkLen => return ⟨checkedAddUsize reportChunkLen vcek.length, vcek ++ rest.chunks⟩

def vcekReportLen (report vcek : List Byte) : Option Nat := do
  let headerLen ← calcAsnHeaderLen report.length
  let len ← checkedAddUsize report.length headerLen
  checkedAddUsize len vcek.length

def asn1EncodeReportVcek (chunks report vcek : List Byte) : Encode :=
  asnWrap chunks (fun header len => writeAsnHeader header ASN_SECTION_CONSTRUCTED len)
    (vcekReport report vcek) (vcekReportLen report vcek)

/-- The function writes the bytes to the start of its slice; it panics if they do not fit. -/
def Puts (f : List Byte → Encode) (bytes : List Byte) : Prop :=
  ∀ chunks, f chunks =
    if bytes.length ≤ chunks.length then
      .ok ⟨some bytes.length, bytes ++ chunks.drop bytes.length⟩
    else .error .slice

theorem puts_reportChunk (report : List Byte) : Puts (reportChunk report) report := fun _ => rfl

section Header

variable {len : Nat}

theorem toBeBytes_zero_iff (h : len < 2 ^ 32) : ((toBeBytes len).1 = 0 ↔ len < 2 ^ 24) ∧
      ((toBeBytes len).1 = 0 ∧ (toBeBytes len).2.1 = 0 ↔ len < 2 ^ 16) ∧
      ((toBeBytes len).1 = 0 ∧ (toBeBytes len).2.1 = 0 ∧ (toBeBytes len).2.2.1 = 0 ↔ len < 256) ∧
      ((toBeBytes len).1 = 0 ∧ (toBeBytes len).2.1 = 0 ∧ (toBeBytes len).2.2.1 = 0 ∧
        (toBeBytes len).2.2.2 < 0x80 ↔ len < 128) := by
  have hzero (n : Nat) : BitVec.ofNat 8 n = 0 ↔ n % 256 = 0 := by
    rw [← BitVec.toNat_inj, BitVec.toNat_ofNat]
    rfl
  have hshort (n : Nat) : BitVec.ofNat 8 n < 0x80 ↔ n % 256 < 128 := by
    rw [BitVec.lt_def, BitVec.toNat_ofNat]
    rfl
  simp only [toBeBytes, hzero, hshort]
  omega

theorem header_eq (tag : Byte) (h : len < 2 ^ 32) : Der.header tag len =
    match toBeBytes len with
    | (byte3, byte2, byte1, byte0) =>
      if len < 128 then [tag, byte0]
      else if len < 256 then [tag, 0x81, byte0]
      else if len < 2 ^ 16 then [tag, 0x82, byte1, byte0]
      else if len < 2 ^ 24 then [tag, 0x83, byte2, byte1, byte0]
      else [tag, 0x84, byte3, byte2, byte1, byte0] := by
  simp only [Der.header, Der.lengthOctets, toBeBytes]
  split
  · rfl
  · split
    · next hpos hlt =>
      rw [Der.minOctets_of_lt (by omega) hlt]
      rfl
    · split
      · rw [Der.minOctets_of_pos (by omega), Der.minOctets_of_lt (by omega) (by omega)]
        rfl
      · split
        · rw [Der.minOctets_of_pos (by omega), Der.minOctets_of_pos (by omega),
            Der.minOctets_of_lt (by omega) (by omega), Nat.div_div_eq_div_mul]
          rfl
        · rw [Der.minOctets_of_pos (by omega), Der.minOctets_of_pos (by omega),
            Der.minOctets_of_pos (by omega), Der.minOctets_of_lt (by omega) (by omega)]
          simp only [Nat.div_div_eq_div_mul]
          rfl

theorem writeAsnHeader_eq (header : List Byte) (tag : Byte) (h : len < 2 ^ 32) :
    writeAsnHeader header tag len = putHeader header (Der.header tag len) := by
  obtain ⟨h3, h2, h1, h0⟩ := toBeBytes_zero_iff h
  rw [writeAsnHeader, if_pos h, header_eq tag h]
  -- the longest patterns first, the others are parts of them
  simp only [h0]
  simp only [h1]
  simp only [h2]
  simp only [h3]
  split_ifs <;> rfl

theorem calcAsnHeaderLen_eq (tag : Byte) (h : len < 2 ^ 32) :
    calcAsnHeaderLen len = some (Der.header tag len).length := by
  obtain ⟨h3, h2, h1, h0⟩ := toBeBytes_zero_iff h
  rw [calcAsnHeaderLen, if_pos h, header_eq tag h]
  simp only [h0]
  simp only [h1]
  simp only [h2]
  simp only [h3]
  split_ifs <;> rfl

end Header

theorem puts_asnWrap {headerF : List Byte → Nat → Encode} {bodyF : List Byte → Encode} {tag : Byte}
    {body : List Byte} (hheader : ∀ header len, headerF header len = writeAsnHeader header tag len)
    (hbody : Puts bodyF body) (hlen : body.length < 2 ^ 32) :
    Puts (fun chunks => asnWrap chunks headerF bodyF (some body.length)) (Der.tlv tag body) := by
  intro chunks
  have hlength : (Der.tlv tag body).length = (Der.header tag body.length).length + body.length :=
    List.length_append
  have hshort : (Der.header tag body.length).length ≤ 6 := Der.length_header_le tag (k := 4) hlen
  generalize hhead : Der.header tag body.length = head at hlength hshort
  have hwrite : headerF (chunks.take head.length) body.length =
      putHeader (chunks.take head.length) head := by
    rw [hheader, writeAsnHeader_eq _ _ hlen, hhead]
  simp only [asnWrap, calcAsnHeaderLen_eq tag hlen, hhead, hbody (chunks.drop head.length),
    List.length_drop]
  by_cases hroom : head.length + body.length ≤ chunks.length
  · have hput : putHeader (chunks.take head.length) head = .ok ⟨some head.length, head⟩ := by
      have htake : (chunks.take head.length).length = head.length := by
        rw [List.length_take]
        omega
      rw [putHeader, if_pos (by omega), List.drop_eq_nil_of_le (by omega), List.append_nil]
    rw [if_neg (by omega), if_pos (by omega), if_pos (by omega)]
    simp only [Except.ok_bind, hwrite, hput, List.drop_drop]
    rw [checkedAddUsize, if_pos (by omega), ← hlength, Der.tlv, hhead, List.append_assoc]
    rfl
  · rw [if_neg (by omega : ¬ (Der.tlv tag body).length ≤ chunks.length)]
    split
    · rfl
    · rw [if_neg (by omega)]
      rfl

def body (report vcek : List Byte) : List Byte := vcek ++ Der.tlv ASN_OCTET_STRING report

def encoding (report vcek : List Byte) : List Byte :=
  Der.tlv ASN_SECTION_CONSTRUCTED (body report vcek)

section Body

variable {report vcek : List Byte}

theorem report_length_le : report.length ≤ (body report vcek).length := by
  rw [body, Der.tlv, List.length_append, List.length_append]
  omega

theorem puts_vcekReport (hlen : (body report vcek).length < 2 ^ 32) :
    Puts (vcekReport report vcek) (body report vcek) := by
  intro chunks
  have hreport : report.length < 2 ^ 32 := Nat.lt_of_le_of_lt report_length_le hlen
  have hwrap : asnWrap (chunks.drop vcek.length)
      (fun header len => writeAsnHeader header ASN_OCTET_STRING len) (reportChunk report)
      (some report.length) = _ :=
    puts_asnWrap (fun _ _ => rfl) (puts_reportChunk report) hreport (chunks.drop vcek.length)
  have hlength : (body report vcek).length =
      vcek.length + (Der.tlv ASN_OCTET_STRING report).length := List.length_append
  rw [vcekReport, hwrap, List.length_drop]
  by_cases hroom : (body report vcek).length ≤ chunks.length
  · rw [if_neg (by omega), if_pos (by omega), if_pos hroom]
    simp only [Except.ok_bind, List.drop_drop]
    rw [checkedAddUsize, if_pos (by omega), ← hlength, Nat.add_comm _ vcek.length, ← hlength, body,
      List.append_assoc]
    rfl
  · rw [if_neg hroom]
    split
    · rfl
    · rw [if_neg (by omega)]
      rfl

theorem vcekReportLen_eq (hlen : (body report vcek).length < 2 ^ 32) :
    vcekReportLen report vcek = some (body report vcek).length := by
  have hreport : report.length < 2 ^ 32 := Nat.lt_of_le_of_lt report_length_le hlen
  have hlength : (body report vcek).length =
      report.length + (Der.header ASN_OCTET_STRING report.length).length + vcek.length := by
    rw [body, Der.tlv, List.length_append, List.length_append]
    omega
  simp only [vcekReportLen, calcAsnHeaderLen_eq ASN_OCTET_STRING hreport, Option.bind_eq_bind,
    Option.bind_some]
  rw [checkedAddUsize, if_pos (by omega), Option.bind_some, checkedAddUsize, if_pos (by omega),
    hlength]

theorem puts_asn1EncodeReportVcek (hlen : (body report vcek).length < 2 ^ 32) :
    Puts (asn1EncodeReportVcek · report vcek) (encoding report vcek) := by
  intro chunks
  change asn1EncodeReportVcek chunks report vcek = _
  rw [asn1EncodeReportVcek, vcekReportLen_eq hlen]
  exact puts_asnWrap (fun _ _ => rfl) (puts_vcekReport hlen) hlen chunks

theorem length_encoding_le (hreport : report.length ≤ 3968) (hvcek : vcek.length ≤ 4096) :
    (encoding report vcek).length ≤ 3976 + vcek.length := by
  have hinner : (Der.header ASN_OCTET_STRING report.length).length ≤ 4 :=
    Der.length_header_le _ (k := 2) (by omega)
  have hbody : (body report vcek).length =
      vcek.length + ((Der.header ASN_OCTET_STRING report.length).length + report.length) := by
    rw [body, Der.tlv, List.length_append, List.length_append]
  have houter : (Der.header ASN_SECTION_CONSTRUCTED (body report vcek).length).length ≤ 4 :=
    Der.length_header_le _ (k := 2) (by omega)
  rw [encoding, Der.tlv, List.length_append]
  omega

end Body

def EMSGSIZE : CInt := 90

def TECH : Nat := 1

def isizeMax : Nat := 2 ^ 63 - 1

/-- What the call finds in the shim: the certificate in its cache and the memory of the workload. -/
structure Attester where
  snpActive : Bool
  vcek : Except CInt (List Byte)
  /-- The contents of a slice of the workload, if it may be accessed. -/
  validateSlice : Nat → Nat → Except CInt (List Byte)
  validateSliceMut : Nat → Nat → Except CInt (List Byte)
  length_validateSliceMut : ∀ addr len bytes,
    validateSliceMut addr len = .ok bytes → bytes.length = len

section

variable (cipher : Cipher) (firmware : Firmware) (host : Host) (attester : Attester)

def orErr (result : Except CInt α) : Guest CInt α :=
  match result with
  | .ok value => pure value
  | .error errno => throw (.err errno)

/-- The two return words, and the contents of the buffer afterwards. -/
def getAttestation (nonce nonceLen buf bufLen : Nat) : Guest CInt ((Nat × Nat) × List Byte) := do
  if !attester.snpActive then return ((0, 0), [])
  let vcek ← orErr attester.vcek
  if buf = 0 then
    let len ← Guest.unwrap (checkedAddUsize SNP_ATTESTATION_LEN_MAX vcek.length)
    return ((len, TECH), [])
  if bufLen > isizeMax then throw (.err EINVAL)
  if bufLen < SNP_ATTESTATION_LEN_MAX then throw (.err EMSGSIZE)
  if nonceLen ≠ 64 then throw (.err EINVAL)
  let nonce ← orErr (attester.validateSlice nonce nonceLen)
  let userBuf ← orErr (attester.validateSliceMut buf bufLen)
  let (reportBuf, skip, reportLen) ← getReport cipher firmware host 1 nonce
    (List.replicate SNP_ATTESTATION_LEN_MAX 0)
  Guest.slice (skip ≤ reportBuf.length ∧ reportLen ≤ reportBuf.length - skip)
  let report := (reportBuf.drop skip).take reportLen
  match asn1EncodeReportVcek userBuf report vcek with
  | .error reason => throw (.panic reason)
  | .ok encoded =>
    match encoded.ret with
    | none => throw (.err EIO)
    | some len => return ((len, TECH), encoded.chunks)

variable {cipher firmware host attester}

abbrev Guest.Returns (Q : α → Prop) (run : Guest ε α) : Prop :=
  Exec.Triple (fun _ => True) run (fun value _ => Q value) fun _ _ => True

theorem length_copyInto (dst src : List Byte) : dst.length ≤ (copyInto dst src).length := by
  rw [copyInto, List.length_append, List.length_drop]
  omega

theorem decPayload_returns (plaintext : List Byte) (msgType : SnpMsgType) :
    Guest.Returns (fun result => plaintext.length ≤ result.length)
      (decPayload cipher firmware host plaintext msgType) := by
  refine Exec.Triple.any.bind fun _ => ?_
  unfold openResponse
  iterate 10 refine Exec.Triple.any.bind fun _ => ?_
  split
  · exact .throw fun _ _ => trivial
  · refine Exec.Triple.any.bind fun _ => .pure fun _ _ => ?_
    exact (length_copyInto _ _).trans (length_copyInto _ _)

theorem getReport_returns (version : Byte) (nonce response : List Byte) :
    Guest.Returns (fun result => response.length ≤ result.1.length ∧ result.2.1 = reportHeaderSize)
      (getReport cipher firmware host version nonce response) := by
  unfold getReport
  iterate 5 refine Exec.Triple.any.bind fun _ => ?_
  have hdec : Guest.Returns (fun result => response.length ≤ result.length)
      (Guest.expect "decryption failed" (decPayload cipher firmware host response .reportRsp) :
        Guest CInt (List Byte)) :=
    expect_triple (decPayload_returns response .reportRsp) (fun _ _ _ => trivial) fun _ _ _ => trivial
  refine hdec.bind fun decrypted => ?_
  refine Exec.Triple.assume (fun _ hlength => hlength) fun hlength => ?_
  refine Exec.Triple.any.bind fun _ => ?_
  refine Exec.Triple.any.bind fun _ => ?_
  split
  · exact .pure fun _ _ => ⟨hlength, rfl⟩
  · exact .throw fun _ _ => trivial
  · exact .throw fun _ _ => trivial

theorem getAttestation_null {vcek : List Byte} (hactive : attester.snpActive = true)
    (hvcek : attester.vcek = .ok vcek) (hlen : vcek.length ≤ 4096) (nonce nonceLen bufLen : Nat)
    (world : World) : getAttestation cipher firmware host attester nonce nonceLen 0 bufLen world =
      (.ok ((SNP_ATTESTATION_LEN_MAX + vcek.length, TECH), []), world) := by
  have horErr : orErr attester.vcek world = (.ok vcek, world) := by
    rw [hvcek]
    rfl
  have hadd : checkedAddUsize SNP_ATTESTATION_LEN_MAX vcek.length =
      some (SNP_ATTESTATION_LEN_MAX + vcek.length) :=
    if_pos (by rw [SNP_ATTESTATION_LEN_MAX, SNP_GUEST_MSG_PAYLOAD_LEN]; omega)
  simp only [getAttestation, hactive, Bool.not_true, Bool.false_eq_true, if_false, if_true]
  rw [Exec.bind_of_ok horErr, hadd]
  rfl

end

/-- The encoder writes the certificate and the report in DER, and nothing behind it; the size that is
named for a null buffer is large enough for what the firmware and the cache can hold. -/
theorem attestation_is_der (report vcek : List Byte) : (∀ chunks, (body report vcek).length < 2 ^ 32 →
      (encoding report vcek).length ≤ chunks.length →
      ∃ n written octets, asn1EncodeReportVcek chunks report vcek = .ok ⟨some n, written⟩ ∧
        n = (encoding report vcek).length ∧ written.length = chunks.length ∧
        Der.decode (written.take n) = some (ASN_SECTION_CONSTRUCTED, vcek ++ octets, []) ∧
        Der.decode octets = some (ASN_OCTET_STRING, report, []) ∧
        written.drop n = chunks.drop n) ∧
    (report.length ≤ 3968 → vcek.length ≤ 4096 → ∀ cipher firmware host attester nonce nonceLen bufLen world,
        attester.snpActive = true → attester.vcek = .ok vcek →
        ∃ len, getAttestation cipher firmware host attester nonce nonceLen 0 bufLen world =
            (.ok ((len, TECH), []), world) ∧
          (encoding report vcek).length ≤ len) := by
  constructor
  · intro chunks hlen hroom
    have hreport : report.length < 2 ^ 32 := Nat.lt_of_le_of_lt report_length_le hlen
    have hencode : asn1EncodeReportVcek chunks report vcek =
        .ok ⟨some (encoding report vcek).length,
          encoding report vcek ++ chunks.drop (encoding report vcek).length⟩ :=
      (puts_asn1EncodeReportVcek hlen chunks).trans (if_pos hroom)
    refine ⟨_, _, Der.tlv ASN_OCTET_STRING report, hencode, rfl, ?_, ?_, ?_, ?_⟩
    · rw [List.length_append, List.length_drop]
      omega
    · rw [List.take_left, ← List.append_nil (encoding report vcek)]
      exact Der.decode_tlv _ (by omega) []
    · rw [← List.append_nil (Der.tlv ASN_OCTET_STRING report)]
      exact Der.decode_tlv _ (by omega) []
    · exact List.drop_left
  · intro hreport hvcek cipher firmware host attester nonce nonceLen bufLen world hactive hcached
    refine ⟨_, getAttestation_null hactive hcached hvcek nonce nonceLen bufLen world, ?_⟩
    exact (length_encoding_le hreport hvcek).trans (Nat.add_le_add_right (by decide) _)

theorem attestation_is_der_short : (encoding [1, 2] [3]).length ≤ (List.replicate 16 (0 : Byte)).length ∧
      ∃ n written octets,
        asn1EncodeReportVcek (List.replicate 16 0) [1, 2] [3] = .ok ⟨some n, written⟩ ∧
        n = (encoding [1, 2] [3]).length ∧ written.length = (List.replicate 16 (0 : Byte)).length ∧
        Der.decode (written.take n) = some (ASN_SECTION_CONSTRUCTED, [3] ++ octets, []) ∧
        Der.decode octets = some (ASN_OCTET_STRING, [1, 2], []) ∧
        written.drop n = (List.replicate 16 0).drop n :=
  ⟨by decide, (attestation_is_der [1, 2] [3]).1 (List.replicate 16 0) (by decide) (by decide)⟩

/-- Report and certificate have less than 4 GiB, but not with the header of the report. -/
theorem attestation_not_encoded :
    (List.replicate (2 ^ 32 - 1) (0 : Byte)).length + ([] : List Byte).length < 2 ^ 32 ∧
      ∀ chunks, asn1EncodeReportVcek chunks (List.replicate (2 ^ 32 - 1) 0) [] = .ok ⟨none, chunks⟩ := by
  have hlength : (List.replicate (2 ^ 32 - 1) (0 : Byte)).length = 2 ^ 32 - 1 :=
    List.length_replicate
  refine ⟨by rw [hlength]; decide, fun chunks => ?_⟩
  have hheader : calcAsnHeaderLen (2 ^ 32 - 1) = some 6 := by decide
  have hlen : vcekReportLen (List.replicate (2 ^ 32 - 1) 0) [] = some (2 ^ 32 + 5) := by
    rw [vcekReportLen, hlength, hheader]
    rfl
  rw [asn1EncodeReportVcek, hlen]
  rfl

/-- A buffer that is too short is an error, otherwise the length of the encoding is returned. -/
def AnswersLength (result : Except (Stop CInt) ((Nat × Nat) × List Byte)) (bufLen len : Nat) : Prop :=
  if bufLen < len then ∃ errno, result = .error (.err errno)
  else ∃ contents, result = .ok ((len, TECH), contents)

section Buffer

variable {cipher : Cipher} {firmware : Firmware} {host : Host} {attester : Attester}
  {nonce buf bufLen skip size : Nat} {vcek nonceBytes userBuf reportBuf : List Byte}
  {world final : World}

theorem orErr_of_ok {result : Except CInt α} {value : α} (h : result = .ok value) (world : World) :
    orErr result world = (.ok value, world) := by
  rw [h]
  rfl

theorem getAttestation_refused (hactive : attester.snpActive = true) (hvcek : attester.vcek = .ok vcek)
    (hbuf : buf ≠ 0) (h : ¬ (SNP_ATTESTATION_LEN_MAX ≤ bufLen ∧ bufLen ≤ isizeMax)) :
    ∃ errno, (getAttestation cipher firmware host attester nonce 64 buf bufLen world).1 =
      .error (.err errno) := by
  simp only [getAttestation, hactive, Bool.not_true, Bool.false_eq_true, if_false]
  rw [Exec.bind_of_ok (orErr_of_ok hvcek world)]
  simp only [hbuf, if_false]
  by_cases hlarge : bufLen > isizeMax
  · rw [if_pos hlarge]
    exact ⟨EINVAL, rfl⟩
  · rw [if_neg hlarge, if_pos (by omega)]
    exact ⟨EMSGSIZE, rfl⟩

theorem getAttestation_admitted (hactive : attester.snpActive = true) (hvcek : attester.vcek = .ok vcek)
    (hbuf : buf ≠ 0) (hnonce : attester.validateSlice nonce 64 = .ok nonceBytes)
    (huser : attester.validateSliceMut buf bufLen = .ok userBuf)
    (hreport : getReport cipher firmware host 1 nonceBytes
      (List.replicate SNP_ATTESTATION_LEN_MAX 0) world = (.ok (reportBuf, skip, size), final))
    (hsize : size ≤ 3968) (h : SNP_ATTESTATION_LEN_MAX ≤ bufLen ∧ bufLen ≤ isizeMax) :
    getAttestation cipher firmware host attester nonce 64 buf bufLen world =
      (match asn1EncodeReportVcek userBuf ((reportBuf.drop skip).take size) vcek with
      | .error reason => throw (.panic reason)
      | .ok encoded =>
        match encoded.ret with
        | none => throw (.err EIO)
        | some len => pure ((len, TECH), encoded.chunks) : Guest CInt ((Nat × Nat) × List Byte))
        final := by
  obtain ⟨hlength, hskip⟩ := (getReport_returns 1 nonceBytes _).ok trivial hreport
  have hinside : skip ≤ reportBuf.length ∧ size ≤ reportBuf.length - skip := by
    simp only [List.length_replicate, SNP_ATTESTATION_LEN_MAX, SNP_GUEST_MSG_PAYLOAD_LEN,
      reportHeaderSize] at hlength hskip
    omega
  have hslice : (Guest.slice (skip ≤ reportBuf.length ∧ size ≤ reportBuf.length - skip) :
      Guest CInt Unit) final = (.ok (), final) := by
    rw [Guest.slice, if_pos hinside]
    rfl
  simp only [getAttestation, hactive, Bool.not_true, Bool.false_eq_true, if_false]
  rw [Exec.bind_of_ok (orErr_of_ok hvcek world)]
  simp only [hbuf, if_false]
  rw [if_neg (by omega), if_neg (by omega), if_neg (by simp)]
  rw [Exec.bind_of_ok (orErr_of_ok hnonce world), Exec.bind_of_ok (orErr_of_ok huser world),
    Exec.bind_of_ok hreport]
  dsimp only
  rw [Exec.bind_of_ok hslice]

end Buffer

/-- The call answers rightly for a length exactly if the check at its entry lets the lengths through
that are large enough, and no others. -/
theorem attestation_buffer_iff {cipher : Cipher} {firmware : Firmware} {host : Host}
    {attester : Attester} {nonce buf bufLen skip size : Nat}
    {vcek nonceBytes userBuf reportBuf : List Byte} {world final : World}
    (hactive : attester.snpActive = true) (hvcek : attester.vcek = .ok vcek)
    (hlen : vcek.length ≤ 4096) (hbuf : buf ≠ 0) (hnonce : attester.validateSlice nonce 64 = .ok nonceBytes)
    (huser : attester.validateSliceMut buf bufLen = .ok userBuf)
    (hreport : getReport cipher firmware host 1 nonceBytes
      (List.replicate SNP_ATTESTATION_LEN_MAX 0) world = (.ok (reportBuf, skip, size), final))
    (hsize : size ≤ 3968) :
    AnswersLength (getAttestation cipher firmware host attester nonce 64 buf bufLen world).1 bufLen
        (encoding ((reportBuf.drop skip).take size) vcek).length ↔
      (SNP_ATTESTATION_LEN_MAX ≤ bufLen ∧ bufLen ≤ isizeMax ↔
        (encoding ((reportBuf.drop skip).take size) vcek).length ≤ bufLen) := by
  by_cases hadmitted : SNP_ATTESTATION_LEN_MAX ≤ bufLen ∧ bufLen ≤ isizeMax
  · rw [getAttestation_admitted hactive hvcek hbuf hnonce huser hreport hsize hadmitted]
    have hreportLen : ((reportBuf.drop skip).take size).length ≤ 3968 :=
      (List.length_take_le _ _).trans hsize
    generalize (reportBuf.drop skip).take size = report at hreportLen
    have hbody : (body report vcek).length < 2 ^ 32 := by
      have hencoding := length_encoding_le hreportLen hlen
      rw [encoding, Der.tlv, List.length_append] at hencoding
      omega
    have hencode := puts_asn1EncodeReportVcek hbody userBuf
    rw [attester.length_validateSliceMut _ _ _ huser] at hencode
    dsimp only at hencode
    rw [hencode]
    by_cases hroom : (encoding report vcek).length ≤ bufLen
    · rw [if_pos hroom, AnswersLength, if_neg (by omega)]
      exact iff_of_true ⟨_, rfl⟩ (iff_of_true hadmitted hroom)
    · rw [if_neg hroom, AnswersLength, if_pos (by omega)]
      refine iff_of_false ?_ fun h => hroom (h.mp hadmitted)
      rintro ⟨errno, h⟩
      cases h
  · obtain ⟨errno, hrefused⟩ : ∃ errno,
        (getAttestation cipher firmware host attester nonce 64 buf bufLen world).1 =
          .error (.err errno) := getAttestation_refused hactive hvcek hbuf hadmitted
    rw [hrefused, AnswersLength]
    by_cases hroom : bufLen < (encoding ((reportBuf.drop skip).take size) vcek).length
    · rw [if_pos hroom]
      exact iff_of_true ⟨errno, rfl⟩ (iff_of_false hadmitted (by omega))
    · rw [if_neg hroom]
      refine iff_of_false ?_ fun h => hadmitted (h.mpr (by omega))
      rintro ⟨contents, h⟩
      cases h

def sampleAttester (vcekLen : Nat) : Attester where
  snpActive := true
  vcek := .ok (List.replicate vcekLen 0)
  validateSlice _ len := .ok (List.replicate len 0)
  validateSliceMut _ len := .ok (List.replicate len 0)
  length_validateSliceMut _ _ _ h := by cases h; exact List.length_replicate

theorem getReport_sample : ∃ final, getReport plainCipher sampleFirmware forwardingHost 1
    (List.replicate 64 0) (List.replicate SNP_ATTESTATION_LEN_MAX 0) sampleWorld =
      (.ok (List.replicate SNP_ATTESTATION_LEN_MAX 0, reportHeaderSize, 0), final) := by
  have hok : (getReport plainCipher sampleFirmware forwardingHost 1 (List.replicate 64 0)
      (List.replicate SNP_ATTESTATION_LEN_MAX 0) sampleWorld).1 =
        .ok (List.replicate SNP_ATTESTATION_LEN_MAX 0, reportHeaderSize, 0) := by
    decide +kernel
  rw [← hok]
  exact ⟨_, Prod.mk.eta.symm⟩

theorem attestation_buffer_page :
    AnswersLength (getAttestation plainCipher sampleFirmware forwardingHost (sampleAttester 16) 4096 64
      8192 4096 sampleWorld).1 4096 (encoding [] (List.replicate 16 0)).length := by
  obtain ⟨final, hreport⟩ := getReport_sample
  have hbuffer : AnswersLength (getAttestation plainCipher sampleFirmware forwardingHost
      (sampleAttester 16) 4096 64 8192 4096 sampleWorld).1 4096 _ ↔ _ :=
    attestation_buffer_iff rfl rfl (by decide) (by decide) rfl rfl hreport (by decide)
  rw [List.take_zero] at hbuffer
  exact hbuffer.mpr (by decide)

/-- A buffer that the check lets through makes the encoder panic; one that is large enough is
refused. -/
theorem attestation_buffer_mishandled :
    (getAttestation plainCipher sampleFirmware forwardingHost (sampleAttester 4096) 4096 64 8192 4000
        sampleWorld).1 = .error (.panic .slice) ∧
      (encoding [] (List.replicate 16 0)).length ≤ 100 ∧
      (getAttestation plainCipher sampleFirmware forwardingHost (sampleAttester 16) 4096 64 8192 100
        sampleWorld).1 = .error (.err EMSGSIZE) := by
  decide +kernel

end Enarx.Snp
