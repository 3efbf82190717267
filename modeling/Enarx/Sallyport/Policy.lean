import Enarx.Sallyport.Dispatch
import Enarx.Sallyport.Encoding

/-!
# The sandbox policy

Which system call items the dispatcher lets reach the host, and which requests
it answers in the guest.
-/
namespace Enarx.Sallyport

open Libc

@[simp] def forwarded : List Sysno :=
  [.accept, .accept4, .bind, .clockGetres, .clockGettime, .close, .connect, .dup, .dup2, .dup3,
    .epollCreate1, .epollCtl, .epollPwait, .epollWait, .eventfd2, .exit, .exitGroup, .fcntl,
    .getsockname, .ioctl, .listen, .nanosleep, .open_, .poll, .read, .recvfrom, .sendto,
    .setsockopt, .socket, .sync, .write]

def OpenAllowed (path : List Byte) (flags : CInt) : Prop :=
  path = resolvConf ∧ flags &&& ~~~O_CLOEXEC = 0

def IoctlAllowed (fd request : CInt) : Prop :=
  isStdio fd = false ∧ (request = FIONBIO ∨ request = FIONREAD)

def FcntlAllowed (fd cmd : CInt) : Prop :=
  isStdio fd = false ∧ (cmd = F_GETFD ∨ cmd = F_SETFD ∨ cmd = F_GETFL ∨ cmd = F_SETFL)

namespace Item

def arg (item : Item) (index : Nat) : Word := item.payload.argv.getD index NULL

def path (item : Item) : List Byte :=
  (item.data.drop (item.arg 0).toNat).take (item.arg 1).toNat

/-- Descriptors, flags and requests are C integers: the kernel reads 32 bits of the words. -/
structure Permitted (item : Item) (sysno : Sysno) : Prop where
  kind_eq : item.kind = .syscall
  num_eq : item.payload.num = sysno.toWord
  mem_forwarded : sysno ∈ forwarded
  open_ : sysno = .open_ → OpenAllowed item.path (usizeAsInt (item.arg 2))
  ioctl : sysno = .ioctl → IoctlAllowed (usizeAsInt (item.arg 0)) (usizeAsInt (item.arg 1))
  fcntl : sysno = .fcntl → FcntlAllowed (usizeAsInt (item.arg 0)) (usizeAsInt (item.arg 1))

end Item

/-- The host can parse the block, and finds nothing but permitted items. -/
def Permits (buf : BlockBuf) (block : Mem) : Prop :=
  ∃ items, Block.items (block.words buf.base buf.count) = .ok items ∧
    ∀ item ∈ items, ∃ sysno, item.Permitted sysno

@[simp] def Syscall.Permitted (mem : Mem) : Syscall → Prop
  | .allocOpen ⟨call⟩ =>
    OpenAllowed (mem.read call.pathname.addr call.pathname.len) call.flags
  | .allocIoctl ⟨call⟩ => IoctlAllowed call.fd call.request
  | .passthrough (.allocFcntl call) => FcntlAllowed call.fd call.cmd
  | _ => True

theorem Syscall.num_mem_forwarded (call : Syscall) : call.num ∈ forwarded := by
  cases call with
  | passthrough call => cases call <;> simp [Syscall.num, Passthrough.num]
  | _ => simp [Syscall.num]

variable {mem : Mem} {base : Nat} {item : Item}

theorem MaybeAlloc.permitted {call : MaybeAlloc} (h : call.unstaged mem = .ok .alloc) :
    call.toAlloc.Permitted mem := by
  cases call with
  | fcntl call =>
    simp only [unstaged] at h
    split_ifs at h with _ _ hstdio hcmd
    · cases h
    · cases h
    · exact ⟨by simpa using hstdio, hcmd⟩
  | ioctl call =>
    simp only [unstaged] at h
    split_ifs at h with _ hstdio hrequest
    · cases h
    · cases h
    · exact ⟨by simpa using hstdio, hrequest⟩
    · cases h
  | open_ call =>
    simp only [unstaged] at h
    split_ifs at h with hopen
    · exact hopen
    · cases h

theorem Leaf.Encodes.arg_eq {leaf : Leaf} (h : leaf.Encodes mem base item) {i : Nat} {arg : Arg}
    (harg : leaf.call.spec.args[i]? = some arg) : item.arg i = arg.encode leaf.segs := by
  have hmap : (leaf.call.spec.args.map (Arg.encode leaf.segs))[i]? =
      some (arg.encode leaf.segs) := by
    rw [List.getElem?_map, harg]
    rfl
  obtain ⟨hlt, _⟩ := List.getElem?_eq_some_iff.mp hmap
  rw [Item.arg, h.argv_eq, argvInto, List.getD_eq_getElem?_getD, List.getElem?_append_left hlt,
    hmap]
  rfl

theorem Leaf.Encodes.arg_int {leaf : Leaf} (h : leaf.Encodes mem base item) {i : Nat} {value : CInt}
    (harg : leaf.call.spec.args[i]? = some (.int value)) : usizeAsInt (item.arg i) = value := by
  rw [h.arg_eq harg]
  exact usizeAsInt_intAsUsize value

theorem Leaf.Encodes.path_eq {call : AllocOpen} {staged : StagedCall (.syscall (.allocOpen call))}
    (h : Leaf.Encodes mem base ⟨.syscall (.allocOpen call), staged⟩ item)
    (hdata : item.data.length < 2 ^ 64) :
    item.path = mem.read call.open.pathname.addr call.open.pathname.len := by
  let seg := Input.seg staged.staged.staged
  have hcarries : seg.Carries mem item.data (call.open.pathname.buffer .input) :=
    (List.forall₂_cons.mp h.carries).1
  have hoffset : item.arg 0 = usize seg.offset := h.arg_eq (show _ = some (Arg.offset 0) from rfl)
  have hlen : item.arg 1 = usize seg.len := h.arg_eq (show _ = some (Arg.len 0) from rfl)
  obtain ⟨count, hseg, _, hcount⟩ := hcarries.holds
  have hcount : seg.len = call.open.pathname.len := by
    rw [hseg]
    exact hcount rfl
  have hsize : seg.size = seg.len := Nat.one_mul _
  have hinside := hcarries.inside
  have hinput := hcarries.input (by simp [Slice.buffer])
  rw [hsize, hcount] at hinput
  rw [Item.path, hoffset, hlen, toNat_usize (by omega), toNat_usize (by omega), hcount, hinput]
  simp [Mem.gather, Slice.buffer, Buffer.spans, Place.spans, Layout.u8]

theorem Leaf.Encodes.permitted {call : Syscall}
    {staged : StagedCall (.syscall call)}
    (h : Leaf.Encodes mem base ⟨.syscall call, staged⟩ item)
    (hdata : item.data.length < 2 ^ 64) (hcall : call.Permitted mem) :
    item.Permitted call.num where
  kind_eq := h.kind_eq
  num_eq := h.num_eq
  mem_forwarded := call.num_mem_forwarded
  open_ := by
    intro hnum
    cases call with
    | allocOpen call =>
      rw [h.path_eq hdata, h.arg_int (i := 2) rfl]
      exact hcall
    | passthrough call => cases call <;> cases hnum
    | _ => cases hnum
  ioctl := by
    intro hnum
    cases call with
    | allocIoctl call =>
      rw [h.arg_int (i := 0) rfl, h.arg_int (i := 1) rfl]
      exact hcall
    | passthrough call => cases call <;> cases hnum
    | _ => cases hnum
  fcntl := by
    intro hnum
    cases call with
    | passthrough call =>
      cases call with
      | allocFcntl call =>
        rw [h.arg_int (i := 0) rfl, h.arg_int (i := 1) rfl]
        exact hcall
      | _ => cases hnum
    | _ => cases hnum

def Call.Permitted (mem : Mem) (call : Call) : Prop :=
  ∀ alloc ∈ call.allocated mem, ∃ syscall : Syscall,
    alloc = .syscall syscall ∧ syscall.Permitted mem

theorem Request.permits {buf : BlockBuf} {call : Call} {request : Request call}
    (h : call.request buf mem = .ok request) (hsome : call.allocated mem ≠ [])
    (hcall : call.Permitted mem) (prior : Mem) : Permits buf (request.block mem prior) := by
  obtain ⟨items, hitems, hall⟩ := Request.forall_items h hsome prior
    (R := fun _ item => ∃ sysno, item.Permitted sysno) (by
      intro leaf item hleaf hencodes hsmall
      obtain ⟨alloc, staged⟩ := leaf
      obtain ⟨syscall, rfl, hsyscall⟩ := hcall alloc hleaf
      exact ⟨_, hencodes.permitted (by omega) hsyscall⟩)
  refine ⟨items, hitems, fun item hitem => ?_⟩
  have hflip := List.Forall₂.flip hall
  exact (List.forall₂_and_left _ _ |>.mp (hflip.imp fun _ _ h => ⟨h, trivial⟩)).1 item hitem

theorem Call.permitted_syscall {call : Syscall} (h : call.Permitted mem) :
    (Call.alloc (.syscall call)).Permitted mem := by
  intro alloc halloc
  exact ⟨call, List.mem_singleton.mp halloc, h⟩

theorem Call.permitted_maybeAlloc (mem : Mem) (call : MaybeAlloc) : (Call.maybeAlloc call).Permitted mem := by
  intro alloc halloc
  unfold Call.allocated at halloc
  split at halloc
  · next hunstaged => exact ⟨_, List.mem_singleton.mp halloc, call.permitted hunstaged⟩
  · cases halloc

end Enarx.Sallyport
