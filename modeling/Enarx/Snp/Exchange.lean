import Mathlib.Data.List.Infix
import Enarx.Snp.Ghcb

/-!
# Exchanges with the firmware

One invariant carries a run of requests: the numbers that the guest has used are
below the next one and of its parity, and every answer of the firmware is to one
of these requests, with the number after it. The host cannot break it as long as
the number in the shared header is still the one stored when the nonce is read.
-/
namespace Enarx.Snp

open Interference (load store Keeps load_triple store_triple load_bind
  store_bind)

theorem History.decrypt_some {history : History} {nonce asssocData ciphertext tag : List Byte}
    {msg : Sealed} (h : history.decrypt nonce asssocData ciphertext tag = some msg) :
    msg.nonce = nonce ∧
      ((∃ seqno, .encrypted seqno msg ∈ history) ∨ ∃ request, .replied request msg ∈ history) := by
  have hfound := List.find?_some h
  have hmem := List.mem_of_find?_eq_some h
  obtain ⟨event, hevent, hmessage⟩ := List.mem_filterMap.mp hmem
  refine ⟨(of_decide_eq_true hfound).1, ?_⟩
  cases event with
  | encrypted seqno sent =>
    cases hmessage
    exact .inl ⟨seqno, hevent⟩
  | replied request reply =>
    cases hmessage
    exact .inr ⟨request, hevent⟩
  | failed code => cases hmessage
  | decrypted msg => cases hmessage

section

variable (cipher : Cipher) (firmware : Firmware)

theorem World.serve_cases (world : World) (msg : SnpGuestMsg) : world.serve cipher firmware msg = world ∨
      ∃ request reply : Sealed, request.nonce = seqnoNonce msg.hdr.msgSeqno ∧
        ((∃ seqno, .encrypted seqno request ∈ world.history) ∨
          ∃ earlier, .replied earlier request ∈ world.history) ∧
        msg.hdr.msgSeqno.toNat = world.count + 1 ∧
        reply.nonce = seqnoNonce (msg.hdr.msgSeqno + 1) ∧
        world.serve cipher firmware msg =
          { world with count := world.count + 2
                       history := .replied request reply :: world.history } := by
  unfold World.serve
  split
  · next hnext =>
    split
    · exact .inl rfl
    · next request hrequest =>
      obtain ⟨hnonce, horigin⟩ := History.decrypt_some hrequest
      split
      · exact .inl rfl
      · dsimp only
        split
        · exact .inl rfl
        · exact .inr ⟨request, _, hnonce, horigin, hnext, rfl, rfl⟩
  · exact .inl rfl

/-- A property of the world that neither the host nor the firmware can change. -/
structure Steady (P : World → Prop) : Prop where
  pages : ∀ world request response, P world → P { world with request, response }
  serve : ∀ world msg, P world → P (world.serve cipher firmware msg)

variable {cipher firmware} {host : Host} {P : World → Prop}

namespace Steady

theorem interfere (h : Steady cipher firmware P) (point : Point) (world : World)
    (hworld : P world) : P (env cipher firmware host point world) := by
  apply h.pages
  generalize (host.move point world).forwarded = forwarded
  induction forwarded generalizing world with
  | nil => exact hworld
  | cons msg rest ih => exact ih _ (h.serve world msg hworld)

end Steady

end

/-- The numbers of the requests are below `limit` and have its parity. -/
structure Ordered (limit : Nat) (count : Nat) (history : History) : Prop where
  numbered : ∀ seqno msg, .encrypted seqno msg ∈ history →
    msg.nonce = seqnoNonce (seqno.setWidth 64) ∧ seqno.toNat < limit ∧
      seqno.toNat % 2 = limit % 2
  rising : history.Pairwise fun newer older => ∀ seqno seqno' msg msg',
    newer = .encrypted seqno' msg' → older = .encrypted seqno msg → seqno.toNat < seqno'.toNat
  answered : ∀ request msg, .replied request msg ∈ history →
    ∃ seqno, .encrypted seqno request ∈ history ∧ msg.nonce = seqnoNonce (seqno.setWidth 64 + 1)
  counted : ∀ request msg, .replied request msg ∈ history →
    ∃ number : BitVec 64, msg.nonce = seqnoNonce number ∧ number.toNat ≤ count
  calm : ∀ code, .failed code ∉ history

namespace Ordered

theorem nil (limit count : Nat) : Ordered limit count [] := by
  constructor <;> simp

theorem cons {limit limit' count count' : Nat} {history : History} {event : Event}
    (h : Ordered limit count history) (hlimit : limit ≤ limit' ∧ limit % 2 = limit' % 2)
    (hcount : count ≤ count') (hsent : ∀ seqno msg, event = .encrypted seqno msg →
      msg.nonce = seqnoNonce (seqno.setWidth 64) ∧ seqno.toNat = limit ∧ limit < limit')
    (hreply : ∀ request msg, event = .replied request msg → ∃ seqno : BitVec 32,
      .encrypted seqno request ∈ history ∧ msg.nonce = seqnoNonce (seqno.setWidth 64 + 1) ∧
        (seqno.setWidth 64 + 1 : BitVec 64).toNat ≤ count')
    (hcalm : ∀ code, event ≠ .failed code) : Ordered limit' count' (event :: history) := by
  refine ⟨?_, ?_, ?_, ?_, ?_⟩
  · intro seqno msg hmem
    rcases List.mem_cons.mp hmem with heq | hmem
    · obtain ⟨hnonce, hseqno, hlt⟩ := hsent seqno msg heq.symm
      exact ⟨hnonce, by omega, by omega⟩
    · obtain ⟨hnonce, hlt, hparity⟩ := h.numbered seqno msg hmem
      exact ⟨hnonce, by omega, by omega⟩
  · refine List.Pairwise.cons ?_ h.rising
    intro older hmem seqno seqno' msg msg' hnewer holder
    rw [holder] at hmem
    have := (h.numbered seqno msg hmem).2.1
    have := (hsent seqno' msg' hnewer).2.1
    omega
  · intro request msg hmem
    rcases List.mem_cons.mp hmem with heq | hmem
    · obtain ⟨seqno, hrequest, hnonce, _⟩ := hreply request msg heq.symm
      exact ⟨seqno, List.mem_cons_of_mem _ hrequest, hnonce⟩
    · obtain ⟨seqno, hrequest, hnonce⟩ := h.answered request msg hmem
      exact ⟨seqno, List.mem_cons_of_mem _ hrequest, hnonce⟩
  · intro request msg hmem
    rcases List.mem_cons.mp hmem with heq | hmem
    · obtain ⟨seqno, _, hnonce, hle⟩ := hreply request msg heq.symm
      exact ⟨_, hnonce, hle⟩
    · obtain ⟨number, hnumber, hle⟩ := h.counted request msg hmem
      exact ⟨number, hnumber, Nat.le_trans hle hcount⟩
  · intro code hmem
    rcases List.mem_cons.mp hmem with heq | hmem
    · exact hcalm code heq.symm
    · exact h.calm code hmem

theorem serve {cipher : Cipher} {firmware : Firmware} {limit : Nat} {world : World}
    (h : Ordered limit world.count world.history) (msg : SnpGuestMsg) :
    Ordered limit (world.serve cipher firmware msg).count (world.serve cipher firmware msg).history := by
  rcases world.serve_cases cipher firmware msg with heq | ⟨request, reply, hnonce, horigin, hnext,
    hreply, heq⟩
  · rw [heq]
    exact h
  · -- the request has a number that no answer has had, so it is one of the guest
    have hsent : ∃ seqno : BitVec 32, .encrypted seqno request ∈ world.history ∧
        msg.hdr.msgSeqno = seqno.setWidth 64 := by
      rcases horigin with ⟨seqno, hmem⟩ | ⟨earlier, hmem⟩
      · refine ⟨seqno, hmem, seqnoNonce_injective ?_⟩
        rw [← hnonce, (h.numbered seqno request hmem).1]
      · obtain ⟨number, hnumber, hle⟩ := h.counted earlier request hmem
        have := seqnoNonce_injective (hnonce.symm.trans hnumber)
        rw [this] at hnext
        omega
    obtain ⟨seqno, hmem, hseqno⟩ := hsent
    rw [hseqno] at hreply hnext
    rw [heq]
    apply h.cons ⟨Nat.le_refl _, rfl⟩ (Nat.le_add_right _ 2)
    · intro _ _ heq
      cases heq
    · intro _ _ heq
      cases heq
      refine ⟨seqno, hmem, hreply, ?_⟩
      have hone : (1 : BitVec 64).toNat = 1 := rfl
      rw [BitVec.toNat_add, hone, hnext]
      exact Nat.mod_le _ _
    · intro _ heq
      cases heq

theorem encrypt {limit count : Nat} {history : History} (h : Ordered limit count history)
    {seqno : BitVec 32} (hseqno : seqno.toNat = limit) {msg : Sealed}
    (hnonce : msg.nonce = seqnoNonce (seqno.setWidth 64)) :
    Ordered (limit + 2) count (.encrypted seqno msg :: history) := by
  apply h.cons ⟨by omega, by omega⟩ (Nat.le_refl _)
  · intro _ _ heq
    cases heq
    exact ⟨hnonce, hseqno, by omega⟩
  · intro _ _ heq
    cases heq
  · intro _ heq
    cases heq

theorem decrypted {limit count : Nat} {history : History} (h : Ordered limit count history)
    (msg : Sealed) : Ordered limit count (.decrypted msg :: history) := by
  apply h.cons ⟨Nat.le_refl _, rfl⟩ (Nat.le_refl _)
  · intro _ _ heq
    cases heq
  · intro _ _ heq
    cases heq
  · intro _ heq
    cases heq

theorem unique {limit count : Nat} {history : History} (h : Ordered limit count history)
    {seqno : BitVec 32} {msg msg' : Sealed} (hmem : .encrypted seqno msg ∈ history)
    (hmem' : .encrypted seqno msg' ∈ history) : msg = msg' := by
  by_contra hne
  have hnot : (Event.encrypted seqno msg) ≠ .encrypted seqno msg' := by
    intro heq
    cases heq
    exact hne rfl
  have hrising := h.rising
  rw [List.pairwise_iff_getElem] at hrising
  obtain ⟨i, hi, hevent⟩ := List.getElem_of_mem hmem
  obtain ⟨j, hj, hevent'⟩ := List.getElem_of_mem hmem'
  rcases Nat.lt_trichotomy i j with hlt | heq | hlt
  · exact Nat.lt_irrefl _ (hrising i j hi hj hlt _ _ _ _ hevent hevent')
  · subst heq
    exact hnot (hevent.symm.trans hevent')
  · exact Nat.lt_irrefl _ (hrising j i hj hi hlt _ _ _ _ hevent' hevent)

end Ordered

/-- No nonce of `enc_payload` is used twice or is one of the firmware; the numbers of
the secrets page never wrap around, and nothing is encrypted after a failure. -/
structure NonceSafe (history : History) : Prop where
  distinct : history.Pairwise fun newer older => ∀ seqno seqno' msg msg',
    newer = .encrypted seqno' msg' → older = .encrypted seqno msg → msg'.nonce ≠ msg.nonce
  apart : ∀ seqno msg request reply, .encrypted seqno msg ∈ history →
    .replied request reply ∈ history → msg.nonce ≠ reply.nonce
  rising : history.Pairwise fun newer older => ∀ seqno seqno' msg msg',
    newer = .encrypted seqno' msg' → older = .encrypted seqno msg → seqno.toNat < seqno'.toNat
  stopped : history.Pairwise fun newer older => ∀ seqno msg code,
    older = .failed code → newer ≠ .encrypted seqno msg

/-- `msg` is the firmware's answer to the last request, with the number after it. -/
def History.Fresh (history : History) (msg : Sealed) : Prop :=
  ∃ seqno request, history.request? = some (seqno, request) ∧ .replied request msg ∈ history ∧
    msg.nonce = seqnoNonce (seqno.setWidth 64 + 1)

def History.AllFresh (history : History) : Prop :=
  ∀ msg older, .decrypted msg :: older <:+ history → History.Fresh older msg

theorem History.AllFresh.cons {history : History} (h : history.AllFresh) {event : Event}
    (hevent : ∀ msg, event = .decrypted msg → history.Fresh msg) : History.AllFresh (event :: history) := by
  intro msg older hsuffix
  rcases List.suffix_cons_iff.mp hsuffix with heq | hsuffix
  · obtain ⟨rfl, rfl⟩ := List.cons.inj heq
    exact hevent msg rfl
  · exact h msg older hsuffix

theorem History.request?_mem {history : History} {seqno : BitVec 32} {request : Sealed}
    (h : history.request? = some (seqno, request)) : .encrypted seqno request ∈ history := by
  obtain ⟨event, hmem, hevent⟩ := List.exists_of_findSome?_eq_some h
  cases event with
  | encrypted seqno' msg =>
    cases hevent
    exact hmem
  | replied request reply => cases hevent
  | failed code => cases hevent
  | decrypted msg => cases hevent

theorem toNat_setWidth_seqno (seqno : BitVec 32) : (seqno.setWidth 64).toNat = seqno.toNat := by
  rw [BitVec.toNat_setWidth, Nat.mod_eq_of_lt (by omega)]

theorem toNat_next_seqno (seqno : BitVec 32) :
    (seqno.setWidth 64 + 1 : BitVec 64).toNat = seqno.toNat + 1 := by
  have hone : (1 : BitVec 64).toNat = 1 := rfl
  rw [BitVec.toNat_add, toNat_setWidth_seqno, hone, Nat.mod_eq_of_lt (by omega)]

namespace Ordered

variable {limit count : Nat} {history : History}

theorem nonce_ne_next (h : Ordered limit count history) {seqno seqno' : BitVec 32}
    {msg msg' : Sealed} (hmem : .encrypted seqno msg ∈ history) (hmem' : .encrypted seqno' msg' ∈ history) :
    msg.nonce ≠ seqnoNonce (seqno'.setWidth 64 + 1) := by
  obtain ⟨hnonce, _, hparity⟩ := h.numbered seqno msg hmem
  obtain ⟨_, _, hparity'⟩ := h.numbered seqno' msg' hmem'
  intro heq
  have hnumber := congrArg BitVec.toNat (seqnoNonce_injective (hnonce.symm.trans heq))
  rw [toNat_setWidth_seqno, toNat_next_seqno] at hnumber
  omega

theorem nonceSafe (h : Ordered limit count history) : NonceSafe history where
  distinct := by
    refine h.rising.imp_of_mem ?_
    intro newer older hnewer holder hrising seqno seqno' msg msg' heq' heq hnonce
    subst heq heq'
    rw [(h.numbered _ _ hnewer).1, (h.numbered _ _ holder).1] at hnonce
    have hnumber := congrArg BitVec.toNat (seqnoNonce_injective hnonce)
    rw [toNat_setWidth_seqno, toNat_setWidth_seqno] at hnumber
    have := hrising _ _ _ _ rfl rfl
    omega
  apart := by
    intro seqno msg request reply hmem hreply
    obtain ⟨seqno', hrequest, hnonce⟩ := h.answered request reply hreply
    rw [hnonce]
    exact h.nonce_ne_next hmem hrequest
  rising := h.rising
  stopped := by
    refine List.Pairwise.imp_of_mem ?_ h.rising
    intro newer older _ holder _ seqno msg code heq
    subst heq
    exact absurd holder (h.calm code)

theorem fresh (h : Ordered limit count history) {seqno : BitVec 32} {request msg : Sealed}
    (hrequest : history.request? = some (seqno, request)) {asssocData ciphertext tag : List Byte}
    (hmsg : history.decrypt (seqnoNonce (seqno.setWidth 64 + 1)) asssocData ciphertext tag =
      some msg) : history.Fresh msg := by
  obtain ⟨hnonce, horigin⟩ := History.decrypt_some hmsg
  have hsent := History.request?_mem hrequest
  rcases horigin with ⟨seqno', hmem⟩ | ⟨request', hmem⟩
  · exact absurd hnonce (h.nonce_ne_next hmem hsent)
  · obtain ⟨seqno', hsent', hnonce'⟩ := h.answered request' msg hmem
    have hnumber := congrArg BitVec.toNat (seqnoNonce_injective (hnonce'.symm.trans hnonce))
    rw [toNat_next_seqno, toNat_next_seqno] at hnumber
    have hseqno : seqno' = seqno := BitVec.eq_of_toNat_eq (by omega)
    rw [hseqno] at hsent'
    rw [h.unique hsent' hsent] at hmem
    exact ⟨seqno, request, hrequest, hmem, hnonce⟩

end Ordered

/-- From the store of the sequence number to the read of the nonce. -/
def Point.sealing : List Point := [.storeMsgVmpck, .storeMsgSz, .loadNonce]

def Point.awaiting : List Point :=
  [.loadAsssocData, .storePayload, .storeAuthtag, .resetResponse, .vmgexit, .loadRequestSeqno]

def Point.opening : List Point :=
  [.checkMsgType, .loadRequestVersion, .checkMsgVersion, .checkAlgo, .checkHdrSz, .checkMsgVmpck,
    .checkMsgSz, .openNonce]

def requestSeqno (world : World) : BitVec 64 := world.request.hdr.msgSeqno

def responseSeqno (world : World) : BitVec 64 := world.response.hdr.msgSeqno

section

variable (cipher : Cipher) (firmware : Firmware) (host : Host)

def NonceKept : Prop := Keeps (env cipher firmware host) requestSeqno Point.sealing

/-- The sequence numbers that `dec_payload` relies on are left alone. -/
structure SeqnoKept : Prop where
  request : Keeps (env cipher firmware host) requestSeqno Point.awaiting
  response : Keeps (env cipher firmware host) responseSeqno Point.opening

end

structure Inv (kept : Prop) (seqno : BitVec 32) (limit : Nat) (world : World) : Prop where
  seqno_eq : world.msgSeqno0 = seqno
  ordered : Ordered limit world.count world.history
  fresh : kept → world.history.AllFresh

structure Safe (kept : Prop) (world : World) : Prop where
  nonces : NonceSafe world.history
  fresh : kept → world.history.AllFresh

def Idle (kept : Prop) (world : World) : Prop :=
  ∃ seqno : BitVec 32, Inv kept seqno (seqno.toNat + 1) world

theorem Inv.safe {kept : Prop} {seqno : BitVec 32} {limit : Nat} {world : World}
    (h : Inv kept seqno limit world) : Safe kept world := ⟨h.ordered.nonceSafe, h.fresh⟩

theorem Idle.safe {kept : Prop} {world : World} (h : Idle kept world) : Safe kept world := by
  obtain ⟨seqno, hinv⟩ := h
  exact hinv.safe

section

variable {cipher : Cipher} {firmware : Firmware} {host : Host}

theorem Inv.steady (kept : Prop) (seqno : BitVec 32) (limit : Nat) :
    Steady cipher firmware (Inv kept seqno limit) where
  pages _ _ _ h := ⟨h.seqno_eq, h.ordered, h.fresh⟩
  serve world msg h := by
    have hordered : Ordered limit (world.serve cipher firmware msg).count
        (world.serve cipher firmware msg).history := h.ordered.serve msg
    rcases world.serve_cases cipher firmware msg with heq | ⟨_, _, _, _, _, _, heq⟩
    · rw [heq]
      exact h
    · rw [heq] at hordered ⊢
      exact ⟨h.seqno_eq, hordered, fun hkept => (h.fresh hkept).cons nofun⟩

/-- The invariant while a request is out: its number and contents are known. -/
structure Asked (kept : Prop) (seqno : BitVec 32) (limit : Nat) (number : BitVec 32)
    (world : World) : Prop extends Inv kept seqno limit world where
  request : ∃ msg, world.history.request? = some (number, msg)

theorem Asked.steady (kept : Prop) (seqno : BitVec 32) (limit : Nat) (number : BitVec 32) :
    Steady cipher firmware (Asked kept seqno limit number) where
  pages _ _ _ h := ⟨⟨h.seqno_eq, h.ordered, h.fresh⟩, h.request⟩
  serve world msg h := by
    refine ⟨(Inv.steady kept seqno limit).serve world msg h.toInv, ?_⟩
    rcases world.serve_cases cipher firmware msg with heq | ⟨_, _, _, _, _, _, heq⟩
    · rw [heq]
      exact h.request
    · rw [heq]
      exact h.request

/-- A steady property together with a word of the shared pages. -/
structure Holding (P : World → Prop) (kept : Prop) (view : World → BitVec 64) (value : BitVec 64)
    (world : World) : Prop where
  base : P world
  held : kept → view world = value

variable {P : World → Prop} {kept : Prop} {view : World → BitVec 64} {value : BitVec 64}
  {E : Stop ε → World → Prop} {point : Point} {points : List Point} {Q : α → World → Prop}
  {cond : Prop} {error : ε}

theorem Steady.holding (h : Steady cipher firmware P) (point : Point)
    (hkept : kept → Keeps (env cipher firmware host) view points) (hpoint : point ∈ points)
    (world : World) (hworld : Holding P kept view value world) :
    Holding P kept view value (env cipher firmware host point world) where
  base := h.interfere point world hworld.base
  held hk := (hkept hk point hpoint world).trans (hworld.held hk)

theorem Steady.setRequest (h : Steady cipher firmware P) (update : SnpGuestMsgHdr → SnpGuestMsgHdr) :
    Exec.Triple P (store (env cipher firmware host) point (setRequest update)) (fun _ => P) E :=
  store_triple (h.interfere point) fun world hworld => h.pages world _ world.response hworld

theorem Steady.setRequest_holding (h : Steady cipher firmware P) (point : Point)
   
    (hkept : kept → Keeps (env cipher firmware host) requestSeqno points) (hpoint : point ∈ points)
    {update : SnpGuestMsgHdr → SnpGuestMsgHdr}
    (hupdate : ∀ hdr, (update hdr).msgSeqno = hdr.msgSeqno) :
    Exec.Triple (Holding P kept requestSeqno value)
      (store (env cipher firmware host) point (Snp.setRequest update))
      (fun _ => Holding P kept requestSeqno value) E := by
  apply store_triple (h.holding point hkept hpoint)
  intro world hworld
  refine ⟨h.pages world _ world.response hworld.base, fun hk => ?_⟩
  exact (hupdate _).trans (hworld.held hk)

theorem ensure_bind {next : Unit → Guest ε α} [Decidable cond] (hE : ∀ world, P world → E (.err error) world)
    (hnext : cond → Exec.Triple P (next ()) Q E) : Exec.Triple P (Guest.ensure cond error >>= next) Q E := by
  unfold Guest.ensure
  by_cases hcond : cond
  · rw [if_pos hcond]
    exact Exec.Triple.bind (.pure fun _ hworld => hworld) fun _ => hnext hcond
  · rw [if_neg hcond]
    exact Exec.Triple.bind (Q := fun _ _ => False) (.throw hE) fun _ _ hfalse => hfalse.elim

theorem ensure_triple [Decidable cond] (hE : ∀ world, P world → E (.err error) world) :
    Exec.Triple P (Guest.ensure cond error) (fun _ => P) E :=
  .ite (fun _ => .pure fun _ hworld => hworld) fun _ => .throw hE

theorem slice_triple [Decidable cond] (hE : ∀ world, P world → E (.panic .slice) world) :
    Exec.Triple P (Guest.slice cond) (fun _ => P) E :=
  .ite (fun _ => .pure fun _ hworld => hworld) fun _ => .throw hE

theorem record_triple {Q : World → Prop} {event : Event}
    (h : ∀ world, P world → Q { world with history := event :: world.history }) :
    Exec.Triple P (Guest.record event) (fun _ => Q) E := h

theorem expect_triple {run : Guest δ α} {msg : String} {F : Stop δ → World → Prop} (h : Exec.Triple P run Q F)
    (herr : ∀ error world, F (.err error) world → E (.panic (.expect msg)) world)
    (hpanic : ∀ reason world, F (.panic reason) world → E (.panic reason) world) :
    Exec.Triple P (Guest.expect msg run : Guest ε α) Q E := by
  intro world hworld
  have hrun := h world hworld
  unfold Exec.Yields at hrun ⊢
  unfold Guest.expect
  rcases hresult : run world with ⟨(error | reason) | value, final⟩ <;> rw [hresult] at hrun
  · exact herr error final hrun
  · exact hpanic reason final hrun
  · exact hrun

theorem checkedAdd_some {n addend : Nat} {value sum : BitVec n}
    (h : checkedAdd value addend = some sum) : sum.toNat = value.toNat + addend := by
  unfold checkedAdd at h
  split at h
  · next hlt =>
    cases h
    rw [BitVec.toNat_add, BitVec.toNat_ofNat, Nat.add_mod_mod, Nat.mod_eq_of_lt hlt]
  · cases h

theorem unwrap_triple {value : Option α} (hE : ∀ world, P world → E (.panic .unwrap) world) :
    Exec.Triple P (Guest.unwrap value) (fun result world => P world ∧ value = some result) E := by
  cases value with
  | none => exact .throw hE
  | some value => exact .pure fun _ hworld => ⟨hworld, rfl⟩

variable {seqno : BitVec 32} {limit : Nat}

theorem getMsgSeqno0_triple (hE : ∀ world, Inv kept seqno limit world → E (.panic .unwrap) world) :
    Exec.Triple (Inv kept seqno limit) getMsgSeqno0
      (fun number world => Inv kept seqno limit world ∧ number.toNat = seqno.toNat + 1) E := by
  intro world hworld
  refine (unwrap_triple hE).imp (fun _ h => h) ?_ world hworld
  intro number world' hpost
  refine ⟨hpost.1, ?_⟩
  rw [checkedAdd_some hpost.2, hworld.seqno_eq]

def Sent (kept : Prop) (world : World) : Prop :=
  ∃ seqno number : BitVec 32,
    Holding (Asked kept seqno (seqno.toNat + 3) number) kept requestSeqno (number.setWidth 64) world

theorem encPayload_triple (hnonce : NonceKept cipher firmware host)
    (hkept : kept → SeqnoKept cipher firmware host) (version : Byte) (msgType : SnpMsgType)
    (plaintext : List Byte) :
    Exec.Triple (Idle kept) (encPayload cipher firmware host version msgType plaintext)
      (fun _ => Sent kept) (fun _ => Safe kept) := by
  refine Exec.Triple.exists_pre fun seqno => ?_
  have hinv : Steady cipher firmware (Inv kept seqno (seqno.toNat + 1)) := Inv.steady _ _ _
  have hawait : kept → Keeps (env cipher firmware host) requestSeqno Point.awaiting :=
    fun hk => (hkept hk).request
  unfold encPayload
  refine (hinv.setRequest _).bind fun _ => ?_
  refine (hinv.setRequest _).bind fun _ => ?_
  refine (hinv.setRequest _).bind fun _ => ?_
  refine (hinv.setRequest _).bind fun _ => ?_
  refine (hinv.setRequest _).bind fun _ => ?_
  refine (getMsgSeqno0_triple fun _ hworld => hworld.safe).bind fun number => ?_
  refine Exec.Triple.assume (fun _ hworld => hworld.2) fun hnumber => ?_
  have hasked : Steady cipher firmware (Asked kept seqno (seqno.toNat + 3) number) :=
    Asked.steady _ _ _ _
  have hstore : Exec.Triple
      (fun world => Inv kept seqno (seqno.toNat + 1) world ∧ number.toNat = seqno.toNat + 1)
      (store (env cipher firmware host) .storeMsgSeqno
        (setRequest fun hdr => { hdr with msgSeqno := number.setWidth 64 }))
      (fun _ => Holding (Inv kept seqno (seqno.toNat + 1)) True requestSeqno (number.setWidth 64))
      (fun _ : Stop Unit => Safe kept) := by
    apply store_triple
    · exact fun world hworld => ⟨hinv.interfere _ world hworld.1, hworld.2⟩
    · exact fun world hworld => ⟨hinv.pages world _ world.response hworld.1, fun _ => rfl⟩
  refine hstore.bind fun _ => ?_
  refine Exec.Triple.bind
    (hinv.setRequest_holding .storeMsgVmpck (fun _ => hnonce) (by decide) ?_) fun _ => ?_
  · exact fun _ => rfl
  refine Exec.Triple.bind
    (hinv.setRequest_holding .storeMsgSz (fun _ => hnonce) (by decide) ?_) fun _ => ?_
  · exact fun _ => rfl
  refine (load_triple (hinv.holding .loadNonce (fun _ => hnonce) (by decide)) _).bind
    fun nonce => ?_
  refine Exec.Triple.assume
    (fun world hworld => hworld.2.symm.trans (congrArg seqnoNonce (hworld.1.held trivial)))
    fun hvalue => ?_
  refine Exec.Triple.imp
    (P := Holding (Inv kept seqno (seqno.toNat + 1)) kept requestSeqno (number.setWidth 64)) ?_
    (fun world hworld => ⟨hworld.1.base, fun _ => hworld.1.held trivial⟩) (fun _ _ hpost => hpost)
  refine load_bind (hinv.holding .loadAsssocData hawait (by decide)) fun asssocData => ?_
  cases cipher.encrypt nonce asssocData plaintext with
  | none => exact .throw fun _ hworld => hworld.base.safe
  | some result =>
    have hrecord : Exec.Triple
        (Holding (Inv kept seqno (seqno.toNat + 1)) kept requestSeqno (number.setWidth 64))
        (Guest.record (.encrypted number ⟨nonce, asssocData, plaintext, result.1, result.2⟩))
        (fun _ => Holding (Asked kept seqno (seqno.toNat + 3) number) kept requestSeqno
          (number.setWidth 64))
        (fun _ : Stop Unit => Safe kept) := by
      apply record_triple
      intro world hworld
      obtain ⟨⟨hseqno, hordered, hfresh⟩, hheld⟩ := hworld
      exact ⟨⟨⟨hseqno, hordered.encrypt hnumber hvalue, fun hk => (hfresh hk).cons nofun⟩, _, rfl⟩,
        hheld⟩
    refine hrecord.bind fun _ => ?_
    refine store_bind (hasked.holding .storePayload hawait (by decide)) ?_ ?_
    · exact fun world hworld => ⟨hasked.pages world _ world.response hworld.base, hworld.held⟩
    · refine Exec.Triple.imp (hasked.setRequest_holding .storeAuthtag hawait (by decide) ?_)
        (fun _ hpre => hpre) fun _ world hpost => ⟨seqno, number, hpost⟩
      exact fun _ => rfl

theorem NonceSafe.failed {count : Nat} {history : History} (h : Ordered limit count history)
    (code : Word) : NonceSafe (.failed code :: history) := by
  have hsafe := h.nonceSafe
  refine ⟨.cons nofun hsafe.distinct, ?_, .cons nofun hsafe.rising, .cons nofun hsafe.stopped⟩
  intro seqno msg request reply hmem hreply
  rcases List.mem_cons.mp hmem with heq | hmem
  · cases heq
  · rcases List.mem_cons.mp hreply with heq | hreply
    · cases heq
    · exact hsafe.apart seqno msg request reply hmem hreply

theorem incMsgSeqno0_apply (world : World) :
    (incMsgSeqno0 : Guest ε Unit) world =
      match checkedAdd world.msgSeqno0 2 with
      | some msgSeqno0 => (.ok (), { world with msgSeqno0 })
      | none => (.error (.panic .unwrap), world) := by
  have happly : (incMsgSeqno0 : Guest ε Unit) world =
      (Guest.unwrap (checkedAdd world.msgSeqno0 2) >>= fun msgSeqno0 =>
        modify fun world => { world with msgSeqno0 }) world := rfl
  rw [happly]
  cases checkedAdd world.msgSeqno0 2 with
  | none => rfl
  | some next => rfl

def Pending (kept : Prop) (world : World) : Prop :=
  ∃ seqno number : BitVec 32,
    Holding (Asked kept seqno (seqno.toNat + 1) number) kept requestSeqno (number.setWidth 64) world

theorem guestReq_triple (hkept : kept → SeqnoKept cipher firmware host) :
    Exec.Triple (Sent kept) (guestReq cipher firmware host) (fun _ => Pending kept) (fun _ => Safe kept) := by
  refine Exec.Triple.exists_pre fun seqno => Exec.Triple.exists_pre fun number => ?_
  have hasked : Steady cipher firmware (Asked kept seqno (seqno.toNat + 3) number) :=
    Asked.steady _ _ _ _
  have hawait : kept → Keeps (env cipher firmware host) requestSeqno Point.awaiting :=
    fun hk => (hkept hk).request
  unfold guestReq
  refine store_bind (hasked.holding .resetResponse hawait (by decide)) ?_ ?_
  · exact fun world hworld => ⟨hasked.pages world world.request _ hworld.base, hworld.held⟩
  refine load_bind (hasked.holding .vmgexit hawait (by decide)) fun ret => ?_
  cases ret with
  | ok _ =>
    intro world hworld
    obtain ⟨⟨⟨hseqno, hordered, hfresh⟩, hrequest⟩, hheld⟩ := hworld
    simp only [Exec.Yields, incMsgSeqno0_apply]
    cases hadd : checkedAdd world.msgSeqno0 2 with
    | none => exact ⟨hordered.nonceSafe, hfresh⟩
    | some next =>
      have hnext : seqno.toNat + 3 = next.toNat + 1 := by
        rw [checkedAdd_some hadd, hseqno]
      rw [hnext] at hordered
      exact ⟨next, number, ⟨⟨rfl, hordered, hfresh⟩, hrequest⟩, hheld⟩
  | error code =>
    refine Exec.Triple.bind (Q := fun _ => Safe kept) (record_triple ?_) fun _ => .throw ?_
    · intro world hworld
      obtain ⟨⟨⟨hseqno, hordered, hfresh⟩, hrequest⟩, hheld⟩ := hworld
      exact ⟨.failed hordered code, fun hk => (hfresh hk).cons (by rintro _ ⟨⟩)⟩
    · exact fun _ hworld => hworld

/-- The answer is about to be decrypted under the number after that of the request. -/
def Checked (kept : Prop) (world : World) : Prop :=
  ∃ seqno number : BitVec 32,
    Holding (Asked kept seqno (seqno.toNat + 1) number) kept responseSeqno
      (number.setWidth 64 + 1) world

theorem checkResponse_triple (hkept : kept → SeqnoKept cipher firmware host) (payloadSize : Nat)
    (expectedMsgType : SnpMsgType) :
    Exec.Triple (Pending kept) (checkResponse cipher firmware host payloadSize expectedMsgType)
      (fun _ => Checked kept) (fun _ => Safe kept) := by
  refine Exec.Triple.exists_pre fun seqno => Exec.Triple.exists_pre fun number => ?_
  have hasked : Steady cipher firmware (Asked kept seqno (seqno.toNat + 1) number) :=
    Asked.steady _ _ _ _
  have hawait : kept → Keeps (env cipher firmware host) requestSeqno Point.awaiting :=
    fun hk => (hkept hk).request
  have hopen : kept → Keeps (env cipher firmware host) responseSeqno Point.opening :=
    fun hk => (hkept hk).response
  unfold checkResponse
  refine (load_triple (hasked.holding .loadRequestSeqno hawait (by decide)) _).bind
    fun requested => ?_
  refine Exec.Triple.assume
    (fun world hworld (hk : kept) => hworld.2.symm.trans (hworld.1.held hk)) fun hrequested => ?_
  refine Exec.Triple.bind (Q := fun nextSeqno world => Asked kept seqno (seqno.toNat + 1) number world ∧
      nextSeqno.toNat = requested.toNat + 1) ?_ fun nextSeqno => ?_
  · cases hadd : checkedAdd requested 1 with
    | none => exact .throw fun _ hworld => hworld.1.base.safe
    | some nextSeqno => exact .pure fun _ hworld => ⟨hworld.1.base, checkedAdd_some hadd⟩
  refine Exec.Triple.assume (fun _ hworld => hworld.2) fun hnextSeqno => ?_
  have hload : Exec.Triple (fun world => Asked kept seqno (seqno.toNat + 1) number world ∧
        nextSeqno.toNat = requested.toNat + 1)
      (load (env cipher firmware host) .checkSeqno fun world => world.response.hdr.msgSeqno)
      (fun responded => Holding (Asked kept seqno (seqno.toNat + 1) number) kept responseSeqno
        responded)
      (fun _ : Stop Unit => Safe kept) :=
    fun world hworld => ⟨hasked.interfere _ world hworld.1, fun _ => rfl⟩
  refine hload.bind fun responded => ?_
  have hsafe : ∀ world, Holding (Asked kept seqno (seqno.toNat + 1) number) kept responseSeqno
      responded world → Safe kept world := fun _ hworld => hworld.base.safe
  refine ensure_bind hsafe fun hresponded => ?_
  refine load_bind (hasked.holding .checkMsgType hopen (by decide)) fun _ => ?_
  refine ensure_bind hsafe fun _ => ?_
  refine load_bind (hasked.holding .loadRequestVersion hopen (by decide)) fun _ => ?_
  refine load_bind (hasked.holding .checkMsgVersion hopen (by decide)) fun _ => ?_
  refine ensure_bind hsafe fun _ => ?_
  refine load_bind (hasked.holding .checkAlgo hopen (by decide)) fun _ => ?_
  refine ensure_bind hsafe fun _ => ?_
  refine load_bind (hasked.holding .checkHdrSz hopen (by decide)) fun _ => ?_
  refine ensure_bind hsafe fun _ => ?_
  refine load_bind (hasked.holding .checkMsgVmpck hopen (by decide)) fun _ => ?_
  refine ensure_bind hsafe fun _ => ?_
  refine load_bind (hasked.holding .checkMsgSz hopen (by decide)) fun _ => ?_
  refine (ensure_triple hsafe).imp (fun _ hpre => hpre) fun _ world hworld => ?_
  refine ⟨seqno, number, hworld.base, fun hk => ?_⟩
  rw [hworld.held hk, ← hresponded]
  apply BitVec.eq_of_toNat_eq
  rw [hnextSeqno, hrequested hk, toNat_setWidth_seqno, toNat_next_seqno]

theorem openResponse_triple (hkept : kept → SeqnoKept cipher firmware host) (plaintext : List Byte) :
    Exec.Triple (Checked kept) (openResponse cipher firmware host plaintext)
      (fun _ => Idle kept) (fun _ => Safe kept) := by
  refine Exec.Triple.exists_pre fun seqno => Exec.Triple.exists_pre fun number => ?_
  have hasked : Steady cipher firmware (Asked kept seqno (seqno.toNat + 1) number) :=
    Asked.steady _ _ _ _
  have hopen : kept → Keeps (env cipher firmware host) responseSeqno Point.opening :=
    fun hk => (hkept hk).response
  have hsafe : ∀ world, Asked kept seqno (seqno.toNat + 1) number world → Safe kept world :=
    fun _ hworld => hworld.safe
  unfold openResponse
  refine (load_triple (hasked.holding .openNonce hopen (by decide)) _).bind fun nonce => ?_
  refine Exec.Triple.assume
    (fun world hworld (hk : kept) =>
      hworld.2.symm.trans (congrArg seqnoNonce (hworld.1.held hk))) fun hnonce => ?_
  refine Exec.Triple.imp (P := Asked kept seqno (seqno.toNat + 1) number) ?_
    (fun _ hworld => hworld.1.base) fun _ _ hpost => hpost
  refine load_bind (hasked.interfere .openSizeTo) fun sizeTo => ?_
  refine load_bind (hasked.interfere .openSizeFrom) fun sizeFrom => ?_
  refine load_bind (hasked.interfere .openPayload) fun payload => ?_
  refine (slice_triple hsafe).bind fun _ => ?_
  refine load_bind (hasked.interfere .openSize) fun size => ?_
  refine (slice_triple hsafe).bind fun _ => ?_
  refine load_bind (hasked.interfere .openAsssocData) fun asssocData => ?_
  refine load_bind (hasked.interfere .openTag) fun tag => ?_
  refine Exec.Triple.get.bind fun current => ?_
  cases hmsg : current.history.decrypt nonce asssocData
      ((copyInto plaintext (payload.take sizeFrom)).take size) tag with
  | none => exact .throw fun _ hworld => hsafe _ hworld.2
  | some msg =>
    refine Exec.Triple.bind (record_triple ?_) fun _ => .pure fun _ hworld => hworld
    rintro world ⟨rfl, hworld⟩
    refine ⟨seqno, hworld.seqno_eq, hworld.ordered.decrypted msg, fun hk => ?_⟩
    apply (hworld.fresh hk).cons
    intro _ heq
    cases heq
    obtain ⟨request, hrequest⟩ := hworld.request
    rw [hnonce hk] at hmsg
    exact hworld.ordered.fresh hrequest hmsg

end

end Enarx.Snp
