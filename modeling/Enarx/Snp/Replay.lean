import Enarx.Snp.Exchange

/-!
# Nonces and replays

The invariant of an exchange carries over to runs of any length. It needs a host
that leaves sequence numbers in the shared headers alone while the shim relies on
them: a host that rewrites them makes the shim reuse a nonce, or accept an old
answer.
-/
namespace Enarx.Snp

open Interference (Keeps store load_bind store_bind)
open Sallyport (CInt)

section

variable {cipher : Cipher} {firmware : Firmware} {host : Host} {kept : Prop}

/-- The end of a request: an `Err` leaves the shim ready for the next one. -/
def Outcome (kept : Prop) : Stop ε → World → Prop
  | .err _, world => Idle kept world
  | .panic _, world => Safe kept world

theorem Idle.steady (kept : Prop) : Steady cipher firmware (Idle kept) where
  pages world request response := by
    rintro ⟨seqno, hworld⟩
    exact ⟨seqno, hworld.seqno_eq, hworld.ordered, hworld.fresh⟩
  serve world msg := by
    rintro ⟨seqno, hworld⟩
    exact ⟨seqno, (Inv.steady _ _ _).serve _ _ hworld⟩

theorem exchange_bind (hnonce : NonceKept cipher firmware host)
    (hkept : kept → SeqnoKept cipher firmware host) {version : Byte} {msgType rspType : SnpMsgType}
    {plaintext buffer : List Byte} {Q : α → World → Prop} {next : List Byte → Guest CInt α}
    (hnext : ∀ response, Exec.Triple (Idle kept) (next response) Q (Outcome kept)) :
    Exec.Triple (Idle kept)
      (do
        store (env cipher firmware host) .resetRequest fun world => { world with request := .default }
        Guest.expect "encryption failed"
          (encPayload cipher firmware host version msgType plaintext)
        Guest.expect "request failed" (guestReq cipher firmware host)
        let response ← Guest.expect "decryption failed"
          (decPayload cipher firmware host buffer rspType)
        next response)
      Q (Outcome kept) := by
  have hidle : Steady cipher firmware (Idle kept) := Idle.steady kept
  refine store_bind (hidle.interfere .resetRequest)
    (fun world hworld => hidle.pages world _ world.response hworld) ?_
  have hpanic : ∀ (reason : Panic) (world : World), Safe kept world →
      Outcome kept (.panic reason : Stop CInt) world := fun _ _ hsafe => hsafe
  refine (expect_triple (encPayload_triple hnonce hkept version msgType plaintext)
    (fun _ => hpanic _) hpanic).bind fun _ => ?_
  refine (expect_triple (guestReq_triple hkept) (fun _ => hpanic _) hpanic).bind fun _ => ?_
  have hdec : Exec.Triple (Pending kept) (decPayload cipher firmware host buffer rspType)
      (fun _ => Idle kept) (fun _ => Safe kept) :=
    (checkResponse_triple hkept buffer.length rspType).bind fun _ =>
      openResponse_triple hkept buffer
  exact (expect_triple hdec (fun _ => hpanic _) hpanic).bind hnext

theorem getKey_triple (hnonce : NonceKept cipher firmware host)
    (hkept : kept → SeqnoKept cipher firmware host) (version : Byte) (guestSvn : BitVec 32) :
    Exec.Triple (Idle kept) (getKey cipher firmware host version guestSvn) (fun _ => Idle kept)
      (Outcome kept) := by
  unfold getKey
  refine exchange_bind hnonce hkept fun response => ?_
  refine ensure_bind (fun _ hworld => hworld) fun _ => ?_
  split
  · exact .pure fun _ hworld => hworld
  · exact .throw fun _ hworld => hworld
  · exact .throw fun _ hworld => hworld.safe

theorem getReport_triple (hnonce : NonceKept cipher firmware host)
    (hkept : kept → SeqnoKept cipher firmware host) (version : Byte) (nonce response : List Byte) :
    Exec.Triple (Idle kept) (getReport cipher firmware host version nonce response)
      (fun _ => Idle kept) (Outcome kept) := by
  have hidle : Steady cipher firmware (Idle kept) := Idle.steady kept
  unfold getReport
  refine ensure_bind (fun _ hworld => hworld) fun _ => ?_
  refine ensure_bind (fun _ hworld => hworld) fun _ => ?_
  refine exchange_bind hnonce hkept fun response => ?_
  refine load_bind (hidle.interfere .reportSize) fun _ => ?_
  refine ensure_bind (fun _ hworld => hworld) fun _ => ?_
  split
  · exact .pure fun _ hworld => hworld
  · exact .throw fun _ hworld => hworld
  · exact .throw fun _ hworld => hworld.safe

theorem Call.execute_triple (hnonce : NonceKept cipher firmware host)
    (hkept : kept → SeqnoKept cipher firmware host) (call : Call) :
    Exec.Triple (Idle kept) (call.execute cipher firmware host) (fun _ => Idle kept) (Outcome kept) := by
  cases call with
  | getKey version guestSvn =>
    exact (getKey_triple hnonce hkept version guestSvn).bind fun _ => .pure fun _ hworld => hworld
  | getReport version nonce response =>
    exact (getReport_triple hnonce hkept version nonce response).bind fun _ =>
      .pure fun _ hworld => hworld

theorem run_safe (hnonce : NonceKept cipher firmware host)
    (hkept : kept → SeqnoKept cipher firmware host) (calls : List Call) (world : World)
    (hworld : Idle kept world) : Safe kept (run cipher firmware host calls world).2 := by
  induction calls generalizing world with
  | nil => exact hworld.safe
  | cons call rest ih =>
    have hcall := Call.execute_triple hnonce hkept call world hworld
    rcases hresult : call.execute cipher firmware host world with ⟨(error | reason) | value, final⟩ <;>
      rw [Exec.Yields, hresult] at hcall <;> simp only [run, hresult]
    · exact ih final hcall
    · exact hcall
    · exact ih final hcall

theorem Idle.of_history_nil {world : World} (h : world.history = []) : Idle kept world := by
  refine ⟨world.msgSeqno0, rfl, ?_, fun _ => ?_⟩
  · rw [h]
    exact .nil _ _
  · rw [h]
    intro msg older hsuffix
    cases List.suffix_nil.mp hsuffix

end

/-- Authenticity comes from the history, so the bytes may stay as they are. -/
def plainCipher : Cipher := ⟨fun _ _ plaintext => some (plaintext, List.replicate 16 0)⟩

def sampleFirmware : Firmware :=
  ⟨fun hdr _ => some ({ hdr with msgType := hdr.msgType + 1, msgSz := 64 }, List.replicate 64 0)⟩

def samplePage (request : SnpGuestMsg) : SnpGuestMsg :=
  ⟨{ request.hdr with
      authtag := List.replicate 32 0
      msgSeqno := request.hdr.msgSeqno + 1
      msgType := request.hdr.msgType + 1
      msgSz := 64 }, List.replicate SNP_GUEST_MSG_PAYLOAD_LEN 0⟩

def forwardingHost : Host where
  move point world :=
    if point = .vmgexit then ⟨[world.request], world.request, samplePage world.request⟩
    else ⟨[], world.request, world.response⟩
  exit _ := .ok ()

def sampleWorld : World := ⟨0, .default, .default, 0, []⟩

theorem forwardingHost_keeps (points : List Point) :
    Keeps (env plainCipher sampleFirmware forwardingHost) requestSeqno points := by
  intro point _ world
  by_cases hpoint : point = .vmgexit <;>
    simp [env, World.interfere, forwardingHost, requestSeqno, hpoint]

theorem forwardingHost_seqnoKept : SeqnoKept plainCipher sampleFirmware forwardingHost where
  request := forwardingHost_keeps _
  response := by
    intro point hpoint world
    have hne : point ≠ .vmgexit := by
      rintro rfl
      exact absurd hpoint (by decide)
    simp [env, World.interfere, forwardingHost, responseSeqno, hne]

/-- If the host leaves the sequence number in the request header alone between its
store and the read of the nonce, no run reuses a nonce. -/
theorem run_nonceSafe (cipher : Cipher) (firmware : Firmware) (host : Host)
    (hnonce : NonceKept cipher firmware host) (calls : List Call) (world : World)
    (hstart : world.history = []) : NonceSafe (run cipher firmware host calls world).2.history := by
  have hsafe : Safe False (run cipher firmware host calls world).2 :=
    run_safe hnonce False.elim calls world (.of_history_nil hstart)
  exact hsafe.nonces

theorem run_nonceSafe_forwarding : NonceKept plainCipher sampleFirmware forwardingHost ∧
      NonceSafe (run plainCipher sampleFirmware forwardingHost [.getKey 1 0, .getKey 1 0]
        sampleWorld).2.history :=
  ⟨forwardingHost_keeps _, run_nonceSafe _ _ _ (forwardingHost_keeps _) _ _ rfl⟩

/-- Puts the first number back into the request header before the nonce is read. -/
def renumberingHost : Host where
  move point world :=
    if point = .loadNonce then
      ⟨[], { world.request with hdr := { world.request.hdr with msgSeqno := 1 } }, world.response⟩
    else forwardingHost.move point world
  exit _ := .ok ()

def History.nonces (history : History) : List (List Byte) :=
  history.filterMap fun
    | .encrypted _ msg => some msg.nonce
    | _ => none

theorem NonceSafe.nodup_nonces {history : History} (h : NonceSafe history) : history.nonces.Nodup := by
  refine List.Pairwise.filterMap _ ?_ h.distinct
  intro newer older hdistinct nonce hnonce nonce' hnonce'
  cases newer with
  | encrypted seqno msg =>
    cases older with
    | encrypted seqno' msg' =>
      cases hnonce
      cases hnonce'
      exact hdistinct _ _ _ _ rfl rfl
    | _ => cases hnonce'
  | _ => cases hnonce

theorem nonce_reused : ¬ NonceSafe (run plainCipher sampleFirmware renumberingHost [.getKey 1 0, .getKey 1 0]
      sampleWorld).2.history := by
  intro h
  have hnodup := h.nodup_nonces
  have hdup : ¬ (History.nonces (run plainCipher sampleFirmware renumberingHost
      [.getKey 1 0, .getKey 1 0] sampleWorld).2.history).Nodup := by
    decide +kernel
  exact hdup hnodup

/-- If the host also leaves the number alone until `dec_payload` has compared it, and
that of the response until the nonce is read, every answer is to its own request. -/
theorem run_allFresh (cipher : Cipher) (firmware : Firmware) (host : Host)
    (hnonce : NonceKept cipher firmware host) (hkept : SeqnoKept cipher firmware host)
    (calls : List Call) (world : World) (hstart : world.history = []) :
    History.AllFresh (run cipher firmware host calls world).2.history :=
  (run_safe hnonce id calls world (.of_history_nil hstart)).fresh hkept

theorem run_allFresh_forwarding : (run plainCipher sampleFirmware forwardingHost [.getKey 1 0, .getKey 1 0]
        sampleWorld).1.isOk = true ∧
      History.AllFresh (run plainCipher sampleFirmware forwardingHost [.getKey 1 0, .getKey 1 0]
        sampleWorld).2.history := by
  refine ⟨by decide +kernel, ?_⟩
  exact run_allFresh _ _ _ (forwardingHost_keeps _) forwardingHost_seqnoKept _ _ rfl

def replayingHost : Host where
  move point world :=
    if point = .vmgexit ∧ world.request.hdr.msgSeqno ≠ 1 then
      let request := { world.request with hdr := { world.request.hdr with msgSeqno := 1 } }
      ⟨[], request, samplePage request⟩
    else forwardingHost.move point world
  exit _ := .ok ()

/-- The newest event is a decryption under another number than that of an answer to the
last request. -/
def History.stale : History → Bool
  | .decrypted msg :: older =>
    match History.request? older with
    | some (seqno, _) => msg.nonce ≠ seqnoNonce (seqno.setWidth 64 + 1)
    | none => true
  | _ => false

theorem History.AllFresh.not_stale {history : History} (h : history.AllFresh) : history.stale = false := by
  cases history with
  | nil => rfl
  | cons event older =>
    cases event with
    | decrypted msg =>
      obtain ⟨seqno, request, hrequest, _, hnonce⟩ := h msg older List.suffix_rfl
      simp [stale, hrequest, hnonce]
    | _ => rfl

theorem replayed_answer_accepted : (run plainCipher sampleFirmware replayingHost [.getKey 1 0, .getKey 1 0]
        sampleWorld).1.isOk = true ∧
      ¬ History.AllFresh (run plainCipher sampleFirmware replayingHost [.getKey 1 0, .getKey 1 0]
        sampleWorld).2.history := by
  refine ⟨by decide +kernel, fun h => ?_⟩
  have hstale : History.stale (run plainCipher sampleFirmware replayingHost
      [.getKey 1 0, .getKey 1 0] sampleWorld).2.history = true := by
    decide +kernel
  rw [h.not_stale] at hstale
  cases hstale

end Enarx.Snp
