import Enarx.Sallyport.Overflow
import Enarx.Sallyport.Policy
import Enarx.Sallyport.Validation

/-!
# Handler methods under the policy

What a method of the handler hands to the host, whatever the host answers: a
permitted call extends the history by blocks with permitted items, the other
methods hand over nothing.
-/
namespace Enarx.Sallyport

open Libc

variable (env : Env σ)

/-- The ways `execute` can go: it cannot stage the call, it has nothing to hand over, or it
hands over the committed block and then fails or collects from what the host left. -/
inductive Executed (call : Call) (guest : Guest σ) : Except Stop call.Collected × Guest σ → Prop
  | unstaged (abort : Abort) (hrequest : call.request env.buf guest.mem = .error abort) :
      Executed call guest (.error abort.stop, guest)
  | inside (request : Request call) (hrequest : call.request env.buf guest.mem = .ok request)
      (hlen : ¬0 < request.len) :
      Executed call guest
        (collectCall env call ((call.commit request.staged).result guest.mem)
          (request.block guest.mem guest.block) guest.handed guest)
  | failed (request : Request call) (hrequest : call.request env.buf guest.mem = .ok request)
      (hlen : 0 < request.len) (reply : Mem) (errno : Errno) :
      Executed call guest
        (.error (.err errno),
          { guest with
            block := reply, handed := request.block guest.mem guest.block :: guest.handed })
  | collected (request : Request call) (hrequest : call.request env.buf guest.mem = .ok request)
      (hlen : 0 < request.len) (reply : Mem) :
      Executed call guest
        (collectCall env call ((call.commit request.staged).result guest.mem) reply
          (request.block guest.mem guest.block :: guest.handed) guest)

theorem execute_executed (call : Call) (guest : Guest σ) :
    Executed env call guest (execute env call guest) := by
  unfold execute
  cases hrequest : call.request env.buf guest.mem with
  | error abort => exact .unstaged abort hrequest
  | ok request =>
    by_cases hlen : 0 < request.len
    · simp only [if_pos hlen]
      rcases env.sally (request.block guest.mem guest.block :: guest.handed) with
        ⟨errno | _, reply⟩
      · exact .failed request hrequest hlen reply errno
      · simp only
        split
        · next errno _ => exact .failed request hrequest hlen reply errno
        · exact .collected request hrequest hlen reply
    · simp only [if_neg hlen]
      exact .inside request hrequest hlen

/-- Since the history was `before`, only blocks with permitted items have been handed over. -/
def Extends (before : List Mem) (guest : Guest σ) : Prop :=
  ∃ blocks, guest.handed = blocks ++ before ∧ ∀ block ∈ blocks, Permits env.buf block

def Sent (before : List Mem) (guest : Guest σ) : Prop :=
  Extends env before guest ∧ before.length < guest.handed.length

variable {env} {before : List Mem} {call : Call} {signum : CInt} {guest : Guest σ} {mem : Mem}
  {act : Option (Ref sigaction)} {addr : Word}

theorem Extends.of_eq (h : guest.handed = before) : Extends env before guest := ⟨[], h, by simp⟩

theorem Extends.cons {guest' : Guest σ} {block : Mem}
    (h : Extends env before guest) (hblock : Permits env.buf block)
    (hhanded : guest'.handed = block :: guest.handed) : Extends env before guest' := by
  obtain ⟨blocks, hblocks, hpermits⟩ := h
  refine ⟨block :: blocks, by rw [hhanded, hblocks, List.cons_append], ?_⟩
  simpa [hblock] using hpermits

theorem execute_triple (call : Call) :
    Exec.Triple (fun guest => call.Permitted guest.mem ∧ Extends env before guest)
      (execute env call) (fun _ => Extends env before) (fun _ => Extends env before) := by
  intro guest ⟨hcall, hguest⟩
  have hexecuted := execute_executed env call guest
  unfold Exec.Yields
  generalize execute env call guest = result at hexecuted
  cases hexecuted with
  | unstaged abort hrequest => exact hguest
  | inside request hrequest hlen => exact hguest
  | failed request hrequest hlen reply errno =>
    have hsome := (Request.len_pos hrequest).mp hlen
    exact hguest.cons (Request.permits hrequest hsome hcall guest.block) rfl
  | collected request hrequest hlen reply =>
    have hsome := (Request.len_pos hrequest).mp hlen
    exact hguest.cons (Request.permits hrequest hsome hcall guest.block) rfl

def Refused (before : List Mem) (stop : Stop) (guest : Guest σ) : Prop :=
  guest.handed = before ∧ ∃ errno, stop = .err errno

theorem Abort.stop_of_ne_panic {abort : Abort} (h : abort ≠ .panic) : ∃ errno, abort.stop = .err errno := by
  cases abort with
  | err errno => exact ⟨errno, rfl⟩
  | panic => exact absurd rfl h

theorem execute_inside (hcall : call.allocated mem = []) (hplain : call.request env.buf mem ≠ .error .panic) :
    Exec.Triple (fun guest => guest.mem = mem ∧ guest.handed = before) (execute env call)
      (fun collected guest => guest.handed = before ∧
        ∃ committed block, collected = (call.collect env.rng mem committed).result block)
      (Refused before) := by
  rintro guest ⟨rfl, hguest⟩
  have hexecuted := execute_executed env call guest
  unfold Exec.Yields
  generalize execute env call guest = result at hexecuted
  cases hexecuted with
  | unstaged abort hrequest =>
    exact ⟨hguest, Abort.stop_of_ne_panic fun hpanic => hplain (hpanic ▸ hrequest)⟩
  | inside request hrequest hlen => exact ⟨hguest, _, _, rfl⟩
  | failed request hrequest hlen reply errno =>
    exact absurd hcall ((Request.len_pos hrequest).mp hlen)
  | collected request hrequest hlen reply =>
    exact absurd hcall ((Request.len_pos hrequest).mp hlen)

/-- A request that stops has been answered, or a block was handed over. -/
def Stopped (env : Env σ) (before : List Mem) (stop : Stop) (guest : Guest σ) : Prop :=
  Extends env before guest ∧ (guest.handed = before → ∃ errno, stop = .err errno)

theorem execute_sent (hcall : call.Permitted mem)
    (hsome : call.allocated mem ≠ []) (hplain : call.request env.buf mem ≠ .error .panic) :
    Exec.Triple (fun guest => guest.mem = mem ∧ guest.handed = before) (execute env call)
      (fun _ => Sent env before) (Stopped env before) := by
  rintro guest ⟨rfl, hguest⟩
  have hextends : Extends env before guest := .of_eq hguest
  have htriple := execute_triple call guest ⟨hcall, hextends⟩
  have hexecuted := execute_executed env call guest
  unfold Exec.Yields at htriple ⊢
  generalize execute env call guest = result at hexecuted htriple
  cases hexecuted with
  | unstaged abort hrequest =>
    exact ⟨htriple, fun _ => Abort.stop_of_ne_panic fun hpanic => hplain (hpanic ▸ hrequest)⟩
  | inside request hrequest hlen => exact absurd ((Request.len_pos hrequest).mpr hsome) hlen
  | failed request hrequest hlen reply errno => exact ⟨htriple, fun _ => ⟨errno, rfl⟩⟩
  | collected request hrequest hlen reply =>
    refine ⟨htriple, ?_⟩
    rw [← hguest]
    exact Nat.lt_succ_self _

theorem length_handed_execute (call : Call) (guest : Guest σ) :
    guest.handed.length ≤ (execute env call guest).2.handed.length := by
  have hexecuted := execute_executed env call guest
  generalize execute env call guest = result at hexecuted
  cases hexecuted with
  | unstaged abort hrequest => exact Nat.le_refl _
  | inside request hrequest hlen => exact Nat.le_refl _
  | failed request hrequest hlen reply errno => exact Nat.le_succ _
  | collected request hrequest hlen reply => exact Nat.le_succ _

theorem Sent.execute (h : Sent env before guest) (hcall : call.Permitted guest.mem) :
    Sent env before (execute env call guest).2 := by
  have hle : guest.handed.length ≤ (Sallyport.execute env call guest).2.handed.length :=
    length_handed_execute call guest
  refine ⟨?_, Nat.lt_of_lt_of_le h.2 hle⟩
  apply (execute_triple call).final ⟨hcall, h.1⟩
  · exact fun _ _ hfinal => hfinal
  · exact fun _ _ hfinal => hfinal

theorem Sent.attacked (h : Sent env before guest) :
    Sent env before ((Sallyport.attacked env : HandlerM σ α) guest).2 := by
  apply Function.Iterate.rec (Sent env before) h
  intro guest hguest
  exact hguest.execute (Call.permitted_syscall trivial)

theorem Sent.stopped (h : Sent env before guest) (stop : Stop) : Stopped env before stop guest := by
  refine ⟨h.1, fun hhanded => ?_⟩
  have hlt := h.2
  rw [hhanded] at hlt
  exact absurd hlt (Nat.lt_irrefl _)

theorem finish_sent (reply : Reply) :
    Exec.Triple (Sent env before) (finish env reply) (fun _ => Extends env before) (Stopped env before) := by
  cases reply with
  | word ret => exact Exec.Triple.pure fun _ hguest => hguest.1
  | err errno => exact Exec.Triple.throw fun _ hguest => hguest.stopped _
  | attacked =>
    intro guest hguest
    have hattacked : Sent env before ((attacked env : HandlerM σ (Word × Word)) guest).2 :=
      hguest.attacked
    exact hattacked.stopped _

/-- Nothing is handed to the host, and stopping is answering with an error. -/
def Inside (run : HandlerM σ α) : Prop :=
  ∀ before, Exec.Triple (fun guest => guest.handed = before) run
    (fun _ guest => guest.handed = before) (Refused before)

namespace Inside

theorem pure (value : α) : Inside (Pure.pure value : HandlerM σ α) :=
  fun _ => Exec.Triple.pure fun _ hguest => hguest

theorem refuse (errno : Errno) : Inside (throw (.err errno) : HandlerM σ α) :=
  fun _ => Exec.Triple.throw fun _ hguest => ⟨hguest, errno, rfl⟩

theorem get : Inside (MonadState.get : HandlerM σ (Guest σ)) :=
  fun _ => Exec.Triple.get.imp (fun _ hguest => hguest) fun _ _ hguest => hguest.2

theorem update {f : Guest σ → Guest σ} (h : ∀ guest, (f guest).handed = guest.handed) : Inside (modify f) :=
  fun _ => Exec.Triple.update fun guest hguest => (h guest).trans hguest

theorem bind {run : HandlerM σ α} {next : α → HandlerM σ β} (h : Inside run)
    (hnext : ∀ value, Inside (next value)) : Inside (run >>= next) :=
  fun before => (h before).bind fun value => hnext value before

theorem ite {c : Prop} [Decidable c] {run other : HandlerM σ α} (hpos : c → Inside run)
    (hneg : ¬c → Inside other) : Inside (if c then run else other) :=
  fun before => Exec.Triple.ite (fun h => hpos h before) fun h => hneg h before

end Inside

theorem inside_finish {reply : Reply} (h : reply ≠ .attacked) : Inside (finish env reply) := by
  cases reply with
  | word ret => exact .pure _
  | err errno => exact .refuse errno
  | attacked => exact absurd rfl h

theorem inside_validated {check : Except Abort α} (h : Steady check) :
    Inside (validated check : HandlerM σ α) := by
  rcases check with (errno | _) | value
  · exact .refuse errno
  · exact absurd rfl h
  · exact .pure value

theorem inside_storeWorkload (addr : Nat) (bytes : List Byte) :
    Inside (storeWorkload addr bytes : HandlerM σ Unit) := .update fun _ => rfl

theorem Reply.ofExcept_ne_attacked (toWord : α → Word) (ret : Except Errno α) :
    Reply.ofExcept toWord ret ≠ .attacked := by
  cases ret <;> simp [Reply.ofExcept]

theorem Readlink.collect_isSome (mem block : Mem) (pathname buf : Slice .u8) :
    ((Readlink.collect mem pathname buf).result block).isSome := by
  unfold Readlink.collect
  split
  · simp only
    split <;> rfl
  · rfl

theorem Stub.reply_ne_attacked (stub : Stub) (rng : Rdrand) (mem block : Mem) :
    stub.reply ((stub.collect rng mem).result block) ≠ .attacked := by
  cases stub with
  | readlink pathname buf =>
    obtain ⟨ret, hret⟩ := Option.isSome_iff_exists.mp
      (Readlink.collect_isSome mem block pathname buf)
    change Reply.ofOption usize ((Readlink.collect mem pathname buf).result block) ≠ _
    rw [hret]
    exact Reply.ofExcept_ne_attacked usize ret
  | getrandom buf flags => exact Reply.ofExcept_ne_attacked usize _
  | fstat fd statbuf => exact Reply.ofExcept_ne_attacked (α := Unit) (fun _ => 0) _
  | _ => exact nofun

theorem actionIndex_lt (hneg : ¬signum.toInt < 0)
    (hmax : ¬BitVec.sle SIGRTMAX signum) : (intAsUsize signum).toNat < 64 := by
  have hsign : (intAsUsize signum).toInt = signum.toInt :=
    BitVec.toInt_signExtend_of_le (by decide)
  have hlt : signum.toInt < 64 := by simpa [BitVec.sle_iff_toInt_le, SIGRTMAX] using hmax
  rw [BitVec.toInt_eq_toNat_cond] at hsign
  split at hsign <;> omega

theorem actionIndex_ge (hneg : signum.toInt < 0) : ¬(intAsUsize signum).toNat < 64 := by
  have hsign : (intAsUsize signum).toInt = signum.toInt :=
    BitVec.toInt_signExtend_of_le (by decide)
  rw [BitVec.toInt_eq_toNat_cond] at hsign
  split at hsign <;> omega

theorem inside_actionIndex (h : (intAsUsize signum).toNat < 64) :
    Inside (actionIndex signum : HandlerM σ (Fin 64)) := by
  unfold actionIndex
  rw [dif_pos h]
  exact .pure _

theorem inside_readAction {wanted : Bool} (h : wanted → (intAsUsize signum).toNat < 64) :
    Inside (readAction signum wanted : HandlerM σ _) := by
  unfold readAction
  apply Inside.ite
  · intro hwanted
    apply (inside_actionIndex (h hwanted)).bind
    intro index
    apply Inside.get.bind
    intro guest
    exact .pure _
  · intro _
    exact .pure none

theorem inside_writeAction (h : act.isSome → (intAsUsize signum).toNat < 64) :
    Inside (writeAction signum act : HandlerM σ Unit) := by
  cases act with
  | none => exact .pure ()
  | some act =>
    apply (inside_actionIndex (h rfl)).bind
    intro index
    exact .update fun _ => rfl

theorem inside_rtSigaction {oldact : Bool} {sigsetsize : Word}
    (h : ¬(signum.toInt < 0 ∧ sigsetsize = 8 ∧ (act.isSome ∨ oldact))) :
    Inside (rtSigaction signum act oldact sigsetsize : HandlerM σ _) := by
  unfold rtSigaction
  apply Inside.ite
  · intro _
    exact .refuse EINVAL
  · intro hvalid
    have hindex : act.isSome ∨ oldact → (intAsUsize signum).toNat < 64 := by
      intro hsome
      apply actionIndex_lt
      · intro hneg
        exact h ⟨hneg, by_contra fun hsize => hvalid (.inr hsize), hsome⟩
      · exact fun hmax => hvalid (.inl hmax)
    apply (inside_readAction fun hold => hindex (.inr hold)).bind
    intro old
    apply (inside_writeAction fun hact => hindex (.inl hact)).bind
    intro _
    exact .pure old

/-- The addresses for which `VirtAddr::new` panics. -/
def Noncanonical (addr : Word) : Prop := 2 ^ 48 ≤ addr.toNat ∧ addr.toNat < 2 ^ 64 - 2 ^ 47

theorem inside_virtAddr (h : ¬Noncanonical addr) : Inside (virtAddr addr : HandlerM σ Word) := by
  unfold virtAddr
  apply Inside.ite
  · intro _
    exact .pure addr
  · intro hhalf
    apply Inside.ite
    · intro _
      exact .pure _
    · intro hbit
      unfold Noncanonical at h
      omega

theorem inside_archPrctl {code : CInt}
    (h : ¬(env.tee = .kvm ∧ (code = ARCH_SET_FS ∨ code = ARCH_SET_GS) ∧ Noncanonical addr)) :
    Inside (archPrctl env code addr) := by
  unfold archPrctl
  cases htee : env.tee with
  | sgx => exact .refuse ENOSYS
  | kvm =>
    simp only
    apply Inside.ite
    · intro hcode
      apply (inside_virtAddr fun hnot => h ⟨htee, .inl hcode, hnot⟩).bind
      intro base
      exact .update fun _ => rfl
    intro _
    apply Inside.ite
    · intro hcode
      apply (inside_validated (.checked _ (.ok _))).bind
      intro addr
      apply Inside.get.bind
      intro guest
      exact inside_storeWorkload _ _
    intro _
    apply Inside.ite
    · intro hcode
      apply (inside_virtAddr fun hnot => h ⟨htee, .inr hcode, hnot⟩).bind
      intro base
      exact .update fun _ => rfl
    intro _
    apply Inside.ite
    · intro hcode
      apply (inside_validated (.checked _ (.ok _))).bind
      intro addr
      apply Inside.get.bind
      intro guest
      exact inside_storeWorkload _ _
    · intro _
      exact .refuse EINVAL

end Enarx.Sallyport
