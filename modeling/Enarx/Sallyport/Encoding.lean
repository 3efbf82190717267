import Mathlib.Data.List.Forall2
import Enarx.Sallyport.BlockSafety
import Enarx.Sallyport.Leaf

/-!
# The block of a request, read by the host

The stores of a commit go up through the block without overlap, so every header,
payload and input segment is found where staging put it. The parser of the host
therefore comes from header to header to the end marker, and its items are the
items of the call.
-/
namespace Enarx.Sallyport

open Libc

theorem Seg.Holds.src_le {seg : Seg} {buffer : Buffer} (h : seg.Holds buffer) :
    (seg.src.map Span.len).sum ≤ seg.size := by
  obtain ⟨count, hseg, hcount, _⟩ := h
  rw [hseg]
  simp only [Buffer.seg, Seg.size]
  split
  · simp
  · exact Nat.le_of_eq (buffer.sum_spans hcount)

theorem Seg.holds_src_le {segs : List Seg} {buffers : List Buffer} (h : List.Forall₂ Seg.Holds segs buffers) :
    ∀ seg ∈ segs, (seg.src.map Span.len).sum ≤ seg.size := by
  induction h with
  | nil => simp
  | cons head _ ih => exact List.forall_mem_cons.mpr ⟨head.src_le, ih⟩

variable {finish count base pos : Nat} {leaves : List Leaf} {buf : BlockBuf} {call : Call} {request : Request call}

theorem scatter_chain (mem : Mem) {ptr : Nat} {spans : List Span}
    (h : ptr + (spans.map Span.len).sum ≤ finish) :
    Put.Chain ptr ((scatter mem ptr spans).map Store.put) finish := by
  induction spans generalizing ptr with
  | nil =>
    apply Put.Chain.nil
    simpa using h
  | cons span rest ih =>
    rw [List.map_cons, List.sum_cons] at h
    refine Put.Chain.cons (Nat.le_refl ptr) ?_
    simp only [Put.finish, Mem.length_read]
    exact ih (by omega)

theorem Allocs.chain (mem : Mem) {before after : Alloc} {segs : List Seg}
    (h : Allocs before segs after) (hsrc : ∀ seg ∈ segs, (seg.src.map Span.len).sum ≤ seg.size) :
    Put.Chain before.ptr ((segs.flatMap (Seg.stores mem)).map Store.put) after.ptr := by
  induction h with
  | nil => exact .nil (Nat.le_refl _)
  | @cons before middle after seg rest head _ ih =>
    have hseg := hsrc seg List.mem_cons_self
    rw [List.flatMap_cons, List.map_append]
    refine Put.Chain.append ?_ (ih fun later hlater => hsrc later (List.mem_cons_of_mem _ hlater))
    have hptr : before.ptr ≤ seg.ptr := by
      rw [head.ptr_eq]
      exact Nat.le_add_right _ _
    refine (scatter_chain mem ?_).widen hptr
    rw [head.after_ptr, Seg.finish]
    omega

theorem length_argvInto {argv : List Word} (h : argv.length ≤ count) :
    (argvInto count argv).length = count := by
  simp only [argvInto, List.length_append, List.length_replicate]
  omega

@[simp] theorem length_initialRet (kind : ItemKind) : kind.initialRet.length = kind.rets := by
  cases kind <;> rfl

namespace Leaf

theorem Laid.length_argv {leaf : Leaf} {start : Nat} (h : leaf.Laid start) :
    leaf.staged.staged.argv.length = leaf.call.kind.argc := by
  rw [h.argv_eq]
  apply length_argvInto
  rw [List.length_map]
  exact leaf.call.length_args_le

theorem Laid.allocs {leaf : Leaf} {start : Nat} (h : leaf.Laid start) :
    ∃ before after, Allocs before leaf.segs after ∧ before.ptr = leaf.dataStart start ∧
      before.offset = 0 ∧ after.ptr = leaf.dataStart start + sectionSize leaf.segs := by
  obtain ⟨before, after, hallocs, hptr, hoffset⟩ := h.section_allocs
  have hsize := hallocs.offset_eq
  have hbounds := hallocs.bounds
  rw [hoffset] at hsize
  change after.offset = sectionSize leaf.segs at hsize
  exact ⟨before, after, hallocs, hptr, hoffset, by omega⟩

theorem Laid.finish_eq {leaf : Leaf} {start : Nat} (h : leaf.Laid start) :
    leaf.finish start = leaf.dataStart start + padded (sectionSize leaf.segs) := by
  unfold Leaf.finish Leaf.dataStart
  rw [h.size_eq]
  omega

theorem Laid.mem_bounds {leaf : Leaf} {start : Nat} (h : leaf.Laid start) {seg : Seg}
    (hseg : seg ∈ leaf.segs) :
    seg.ptr = leaf.dataStart start + seg.offset ∧
      seg.offset + seg.size ≤ sectionSize leaf.segs ∧ seg.elem.align ∣ seg.ptr := by
  obtain ⟨before, after, hallocs, hptr, hoffset, hafter⟩ := h.allocs
  have hbounds := hallocs.mem_bounds hseg
  unfold Seg.finish at hbounds
  exact ⟨by omega, by omega, hbounds.2.2.2⟩

theorem Laid.apart {leaf : Leaf} {start : Nat} (h : leaf.Laid start) :
    leaf.segs.Pairwise fun left right => left.offset + left.size ≤ right.offset := by
  obtain ⟨before, after, hallocs, _, _, _⟩ := h.allocs
  refine hallocs.pairwise.imp_of_mem fun {left right} hleft hright hle => ?_
  have hleft := (h.mem_bounds hleft).1
  have hright := (h.mem_bounds hright).1
  unfold Seg.finish at hle
  omega

theorem Laid.chain (mem : Mem) {leaf : Leaf} {start : Nat} (h : leaf.Laid start) :
    Put.Chain start ((leaf.stores mem).map Store.put) (leaf.finish start) := by
  obtain ⟨before, after, hallocs, hptr, _, hafter⟩ := h.allocs
  have hdata := hallocs.chain mem (Seg.holds_src_le h.holds)
  have hpadded := le_padded (sectionSize leaf.segs)
  have hfinish := h.finish_eq
  have hcount : leaf.call.kind.usizeCount = 1 + leaf.call.kind.argc + leaf.call.kind.rets := rfl
  have hheader := h.header_ptr
  have hnum := h.num_ptr
  have hargv := h.argv_ptr
  have hret := h.ret_ptr
  have hlength := h.length_argv
  rw [hptr, hafter] at hdata
  unfold Leaf.dataStart at hdata hfinish
  have hrest := hdata.append (.nil (show _ ≤ leaf.finish start by omega))
  rw [List.append_nil] at hrest
  refine .cons ?_ (.cons ?_ (.cons ?_ (.cons ?_ (hrest.widen ?_)))) <;>
    simp only [Put.finish, headerBytes, length_wordsBytes, length_wordBytes, length_initialRet,
      List.length_cons, List.length_nil] <;>
    omega

end Leaf

theorem LaidOut.chain (mem : Mem) {start : Nat} (h : LaidOut start leaves finish) :
    Put.Chain start ((leaves.flatMap (Leaf.stores mem)).map Store.put) finish := by
  induction h with
  | nil => exact .nil (Nat.le_refl _)
  | cons head _ ih =>
    rw [List.flatMap_cons, List.map_append]
    exact (head.chain mem).append ih

theorem Call.request_stage {mem : Mem} (h : call.request buf mem = .ok request) :
    ∃ pad inner, call.stage mem ⟨buf.base, 8 * buf.count - 16 - pad, 0⟩ =
        (.ok request.staged, inner) ∧
      request.len = inner.offset ∧ pad ≤ 8 * buf.count - 16 ∧ 16 ≤ 8 * buf.count ∧
      allocateLayout headerLayout ⟨inner.ptr, inner.len + pad + 16, 0 + inner.offset⟩ =
        (.ok request.endRef, request.alloc) := by
  unfold Call.request at h
  split at h
  · cases h
  · next staged len endRef final hreserve =>
    cases h
    obtain ⟨pad, last, hsection, hpad, hroom, hend⟩ := reserveLayout_ok hreserve
    obtain ⟨inner, hstage, hlen, rfl⟩ := section_ok hsection
    exact ⟨pad, inner, hstage, hlen, hpad, hroom, hend⟩

theorem Call.request_ok {mem : Mem} (h : call.request buf mem = .ok request) :
    (call.leaves request.staged).map Leaf.call = call.allocated mem ∧
      LaidOut buf.base (call.leaves request.staged) request.endRef.ptr ∧
      request.len + buf.base = request.endRef.ptr ∧
      request.endRef.ptr + 16 ≤ buf.base + 8 * buf.count := by
  obtain ⟨pad, inner, hstage, hlen, hpad, hroom, hend⟩ := Call.request_stage h
  have hadvance := Call.stage_advance hstage buf.aligned
  have hlaidOut := hadvance.laidOut
  have hfinish := hadvance.finish_eq
  have hoffset := hadvance.offset_eq
  have haligned : 8 ∣ inner.ptr := hlaidOut.dvd_finish buf.aligned
  have hsize : headerLayout.size = 16 := rfl
  obtain ⟨hptr, _, hafter, _, hfinal⟩ := allocateLayout_ok hend
  simp only [alignOffset_eq_zero_of_dvd (show headerLayout.align ∣ inner.ptr from haligned)] at hptr
  simp only at hfinish hoffset hfinal
  refine ⟨Call.leaves_call hstage, ?_, by omega, by omega⟩
  rw [hptr]
  exact hlaidOut

theorem Request.sally_ok {mem : Mem}
    (h : call.request buf mem = .ok request) : request.alloc.sally buf = .ok request.alloc := by
  obtain ⟨pad, inner, hstage, _, hpad, hroom, hend⟩ := Call.request_stage h
  have hadvance := Call.stage_advance hstage buf.aligned
  have hfinish := hadvance.finish_eq
  have hoffset := hadvance.offset_eq
  obtain ⟨hptr, hregion, hafter, hafterOffset, hfinal⟩ := allocateLayout_ok hend
  simp only at hfinish hoffset hptr hregion hfinal
  apply if_neg
  omega

def Stored (mem : Mem) (stores : List Store) : Prop :=
  ∀ store ∈ stores, mem.read store.put.ptr store.put.bytes.length = store.put.bytes

theorem Request.stored {mem : Mem} (h : call.request buf mem = .ok request) (prior : Mem) :
    Stored (request.block mem prior) (request.stores mem) := by
  obtain ⟨_, hlaidOut, _, hroom⟩ := Call.request_ok h
  have hchain : Put.Chain buf.base ((request.stores mem).map Store.put)
      (buf.base + 8 * buf.count) := by
    rw [Request.stores, List.map_append, call.log_commit]
    refine (hlaidOut.chain mem).append ?_
    split
    · refine .cons (Nat.le_refl _) (.nil ?_)
      simp only [Put.finish, headerBytes, length_wordsBytes, List.length_cons, List.length_nil]
      omega
    · exact .nil (by omega)
  intro store hstore
  exact Mem.read_putAll prior hchain.ascending (List.mem_map_of_mem hstore)

theorem Stored.read_scatter {block mem : Mem} {ptr : Nat} {spans : List Span}
    (h : Stored block (scatter mem ptr spans)) :
    block.read ptr (spans.map Span.len).sum = mem.gather spans := by
  induction spans generalizing ptr with
  | nil => rfl
  | cons span rest ih =>
    obtain ⟨hhead, htail⟩ := List.forall_mem_cons.mp h
    simp only [Mem.length_read] at hhead
    rw [List.map_cons, List.sum_cons, Mem.read_add, hhead, ih htail]
    rfl

/-- A segment of the data section: where it lies and the input it carries. -/
structure Seg.Carries (mem : Mem) (data : List Byte) (seg : Seg) (buffer : Buffer) : Prop where
  holds : seg.Holds buffer
  inside : seg.offset + seg.size ≤ data.length
  input : buffer.dir ≠ .output →
    (data.drop seg.offset).take seg.size = mem.gather (buffer.spans seg.len)

/-- The item the host is given for a call, with the block of the guest at `base`. -/
structure Leaf.Encodes (mem : Mem) (base : Nat) (leaf : Leaf) (item : Item) : Prop where
  kind_eq : item.kind = leaf.call.kind
  num_eq : item.payload.num = leaf.call.num
  argv_eq : item.payload.argv =
    argvInto leaf.call.kind.argc (leaf.call.spec.args.map (Arg.encode leaf.segs))
  ret_eq : item.payload.ret = leaf.call.kind.initialRet
  length_data : item.data.length = padded (sectionSize leaf.segs)
  carries : List.Forall₂ (Seg.Carries mem item.data) leaf.segs leaf.call.spec.buffers
  ptr_eq : ∀ seg ∈ leaf.segs,
    seg.ptr = base + 8 * (item.pos + item.kind.usizeCount) + seg.offset
  aligned : ∀ seg ∈ leaf.segs, seg.elem.align ∣ seg.ptr
  apart : leaf.segs.Pairwise fun left right => left.offset + left.size ≤ right.offset

theorem headerAt_words {block : Mem} {size : Nat} {kind : ItemKind}
    (hwords : block.words (base + 8 * pos) 2 = [usize size, (Kind.item kind).toWord])
    (hpos : pos + 2 ≤ count) (hsmall : size < 2 ^ 64) (hsize : size % 8 = 0) :
    headerAt (block.words base count) pos = some ⟨size, some kind⟩ := by
  have hdrop : (block.words base count).drop pos =
      usize size :: (Kind.item kind).toWord ::
        block.words (base + 8 * pos + 8 * 2) (count - pos - 2) := by
    rw [Mem.drop_words, show count - pos = 2 + (count - pos - 2) by omega, Mem.words_add, hwords]
    simp
  unfold headerAt
  rw [hdrop]
  simp only [toNat_usize hsmall, hsize, Kind.tryFrom_toWord]
  rfl

theorem Payload.ofWords_append {kind : ItemKind} {num : Word} {argv ret : List Word}
    (hargv : argv.length = kind.argc) (hret : ret.length = kind.rets) :
    Payload.ofWords kind (num :: (argv ++ ret)) = ⟨num, argv, ret⟩ := by
  simp only [Payload.ofWords, List.headD_cons, List.drop_succ_cons, List.drop_zero]
  rw [Nat.add_comm 1, List.drop_succ_cons, List.take_left' hargv, List.drop_left' hargv,
    List.take_of_length_le (Nat.le_of_eq hret)]

namespace Leaf

variable {mem block : Mem} {leaf : Leaf} {start : Nat}

theorem Laid.header_words (h : leaf.Laid start) (hstored : Stored block (leaf.stores mem)) :
    block.words start 2 = [usize leaf.staged.size, (Kind.item leaf.call.kind).toWord] := by
  have hheader := hstored ⟨⟨leaf.staged.headerRef.ptr,
    headerBytes leaf.staged.size (.item leaf.call.kind)⟩, none⟩ (by simp [Leaf.stores])
  rw [h.header_ptr, headerBytes, length_wordsBytes] at hheader
  exact Mem.words_eq_of_read block hheader

theorem Laid.payload_words (h : leaf.Laid start) (hstored : Stored block (leaf.stores mem)) :
    block.words (start + 16) leaf.call.kind.usizeCount =
      leaf.call.num :: (leaf.staged.staged.argv ++ leaf.call.kind.initialRet) := by
  have hnum := hstored ⟨⟨leaf.staged.staged.numRef.ptr, wordBytes leaf.call.num⟩, none⟩
    (by simp [Leaf.stores])
  have hargv := hstored ⟨⟨leaf.staged.staged.argvRef.ptr, wordsBytes leaf.staged.staged.argv⟩, none⟩
    (by simp [Leaf.stores])
  have hret := hstored ⟨⟨leaf.staged.staged.retRef.ptr, wordsBytes leaf.call.kind.initialRet⟩, none⟩
    (by simp [Leaf.stores])
  rw [h.num_ptr, length_wordBytes] at hnum
  rw [h.argv_ptr, length_wordsBytes] at hargv
  rw [h.ret_ptr, length_wordsBytes] at hret
  have hargvWords := Mem.words_eq_of_read block hargv
  have hretWords := Mem.words_eq_of_read block hret
  rw [h.length_argv] at hargvWords
  rw [length_initialRet] at hretWords
  rw [ItemKind.usizeCount, Nat.add_assoc, Nat.add_comm 1, Mem.words_succ, hnum,
    wordOfBytes_wordBytes, Mem.words_add, hargvWords, hretWords]

theorem stored_seg (hstored : Stored block (leaf.stores mem)) {seg : Seg}
    (hseg : seg ∈ leaf.segs) : Stored block (seg.stores mem) := by
  intro store hstore
  apply hstored
  apply List.mem_append_right
  exact List.mem_flatMap.mpr ⟨seg, hseg, hstore⟩

theorem Laid.carries (h : leaf.Laid start) (hstored : Stored block (leaf.stores mem)) : List.Forall₂
      (Seg.Carries mem (block.read (leaf.dataStart start) (padded (sectionSize leaf.segs))))
      leaf.segs leaf.call.spec.buffers := by
  rw [List.forall₂_iff_zip]
  refine ⟨h.holds.length_eq, fun {seg buffer} hzip => ?_⟩
  obtain ⟨count, hseg, hcount, hmax⟩ := (List.forall₂_iff_zip.mp h.holds).2 hzip
  have hmem : seg ∈ leaf.segs := (List.of_mem_zip hzip).1
  obtain ⟨hptr, hinside, _⟩ := h.mem_bounds hmem
  have hpadded := le_padded (sectionSize leaf.segs)
  refine ⟨⟨count, hseg, hcount, hmax⟩, by rw [Mem.length_read]; omega, fun hdir => ?_⟩
  have hlen : seg.len = count := congrArg Seg.len hseg
  have helem : seg.elem = buffer.elem := congrArg Seg.elem hseg
  have hsrc : seg.src = buffer.spans count := by
    rw [hseg]
    exact if_neg hdir
  have hread := (stored_seg hstored hmem).read_scatter
  rw [hsrc, buffer.sum_spans hcount] at hread
  rw [Mem.take_drop_read _ (by omega), ← hptr, hlen, Seg.size, helem, hlen]
  exact hread

theorem Laid.parsed {base count pos : Nat} (h : leaf.Laid (base + 8 * pos))
    (hstored : Stored block (leaf.stores mem))
    (hfits : leaf.finish (base + 8 * pos) ≤ base + 8 * count) (hcount : 8 * count < 2 ^ 63) :
    ∃ header item, headerAt (block.words base count) pos = some header ∧
      header.finish pos ≤ count ∧ header.Covers ∧
      header.itemAt (block.words base count) pos = some item ∧
      base + 8 * header.finish pos = leaf.finish (base + 8 * pos) ∧ leaf.Encodes mem base item := by
  have hsize := h.size_eq
  have hmod := padded_mod (sectionSize leaf.segs)
  have hfinish : leaf.finish (base + 8 * pos) = base + 8 * pos + 16 + leaf.staged.size := rfl
  have hheader : headerAt (block.words base count) pos =
      some ⟨leaf.staged.size, some leaf.call.kind⟩ :=
    headerAt_words (h.header_words hstored) (by omega) (by omega) (by omega)
  have hpayload : ((block.words base count).drop (pos + 2)).take leaf.call.kind.usizeCount =
      leaf.call.num :: (leaf.staged.staged.argv ++ leaf.call.kind.initialRet) := by
    rw [Mem.drop_words, Mem.take_words _ (by omega), ← h.payload_words hstored]
    congr 1
  have hdata : wordsBytes (((block.words base count).drop (pos + 2)).take (leaf.staged.size / 8)
      |>.drop leaf.call.kind.usizeCount) =
      block.read (leaf.dataStart (base + 8 * pos)) (padded (sectionSize leaf.segs)) := by
    rw [Mem.drop_words, Mem.take_words _ (by omega), Mem.drop_words, Mem.wordsBytes_words]
    congr 1
    omega
  refine ⟨_, _, hheader, ?_, ?_, rfl, ?_, ?_⟩
  · simp only [Header.finish]
    omega
  · intro kind hkind
    cases hkind
    simp only
    omega
  · simp only [Header.finish]
    omega
  · have hwords : Payload.ofWords leaf.call.kind
        (((block.words base count).drop (pos + 2)).take leaf.call.kind.usizeCount) =
        ⟨leaf.call.num, leaf.staged.staged.argv, leaf.call.kind.initialRet⟩ := by
      rw [hpayload]
      exact Payload.ofWords_append h.length_argv (length_initialRet _)
    refine ⟨rfl, ?_, ?_, ?_, ?_, ?_, ?_, fun seg hseg => (h.mem_bounds hseg).2.2, h.apart⟩
    · simp only [hwords]
    · simp only [hwords]
      exact h.argv_eq
    · simp only [hwords]
    · simp only [hdata, Mem.length_read]
    · simp only [hdata]
      exact h.carries hstored
    · intro seg hseg
      rw [(h.mem_bounds hseg).1, dataStart]
      simp only
      omega

end Leaf

def Leaf.At (base : Nat) (leaf : Leaf) (item : Item) : Prop :=
  ∃ pos, item.pos = pos + 2 ∧ leaf.Laid (base + 8 * pos)

theorem LaidOut.parsed {mem block : Mem} (h : LaidOut (base + 8 * pos) leaves finish)
    (hstored : ∀ leaf ∈ leaves, Stored block (leaf.stores mem))
    (hfits : finish ≤ base + 8 * count) (hcount : 8 * count < 2 ^ 63) :
    ∃ items last, base + 8 * last = finish ∧ Reaches (block.words base count) pos last ∧
      List.Forall₂ (Leaf.Encodes mem base) leaves items ∧
      (items ≠ [] → items.getLast?.map Item.finish = some last) ∧
      (headerAt (block.words base count) last = none → Walk (block.words base count) pos items) ∧
      List.Forall₂ (Leaf.At base) leaves items := by
  generalize hstart : base + 8 * pos = start at h
  induction h generalizing pos with
  | nil =>
    exact ⟨[], pos, hstart, .refl pos, .nil, by simp, fun hnone => .stop hnone, .nil⟩
  | @cons start finish leaf leaves head tail ih =>
    subst hstart
    have hle := tail.le
    obtain ⟨header, item, hheader, hhere, hcovers, hitem, hnext, hencodes⟩ :=
      head.parsed (hstored leaf List.mem_cons_self) (by omega) hcount
    have hlen : header.finish pos ≤ (block.words base count).length := by
      rw [Mem.length_words]
      exact hhere
    obtain ⟨items, last, hlast, hreach, hall, hfinish, hwalk, hplaces⟩ :=
      ih (fun leaf hleaf => hstored leaf (List.mem_cons_of_mem _ hleaf)) hfits hnext
    have hitemPos := (itemAt_inside hitem hlen hcovers).1
    refine ⟨item :: items, last, hlast, .step hheader hlen hcovers hreach, .cons hencodes hall,
      ?_, fun hnone => ?_, .cons ⟨pos, hitemPos, head⟩ hplaces⟩
    · intro _
      cases items with
      | nil =>
        cases hall
        cases tail
        rw [List.getLast?_singleton, Option.map_some, (itemAt_inside hitem hlen hcovers).2.1]
        congr 1
        omega
      | cons next items =>
        rw [List.getLast?_cons_cons]
        exact hfinish (List.cons_ne_nil _ _)
    · have hstep := Walk.step hheader hlen hcovers (hwalk hnone)
      rw [hitem] at hstep
      exact hstep

theorem headerAt_done {block : Mem} (hwords : block.words (base + 8 * pos) 2 = [0, Kind.done.toWord]) :
    headerAt (block.words base count) pos = none := by
  unfold headerAt
  rw [Mem.drop_words]
  rcases hleft : count - pos with _ | _ | left
  · rfl
  · rfl
  · rw [Nat.add_assoc, Nat.add_comm left, Mem.words_add, hwords]
    rfl

theorem LaidOut.lt_iff {start : Nat} (h : LaidOut start leaves finish) : start < finish ↔ leaves ≠ [] := by
  cases h with
  | nil => simp
  | cons head tail =>
    have hle := tail.le
    unfold Leaf.finish at hle
    simp only [ne_eq, reduceCtorEq, not_false_eq_true, iff_true]
    omega

theorem Request.len_pos {mem : Mem}
    (h : call.request buf mem = .ok request) : 0 < request.len ↔ call.allocated mem ≠ [] := by
  obtain ⟨hcalls, hlaidOut, hlen, _⟩ := Call.request_ok h
  rw [← hcalls, ne_eq, List.map_eq_nil_iff, ← ne_eq, ← hlaidOut.lt_iff]
  omega

theorem Request.end_words {mem : Mem}
    (h : call.request buf mem = .ok request) (hsome : call.allocated mem ≠ []) (prior : Mem) :
    (request.block mem prior).words request.endRef.ptr 2 = [0, Kind.done.toWord] := by
  have hpos : 0 < request.len := (Request.len_pos h).mpr hsome
  have hstored := Request.stored h prior ⟨⟨request.endRef.ptr, headerBytes 0 .done⟩, none⟩
    (by simp [Request.stores, hpos])
  rw [headerBytes, length_wordsBytes] at hstored
  exact Mem.words_eq_of_read _ hstored

theorem Request.stored_leaf {mem : Mem} (h : call.request buf mem = .ok request) {leaf : Leaf}
    (hleaf : leaf ∈ call.leaves request.staged) (prior : Mem) :
    Stored (request.block mem prior) (leaf.stores mem) := by
  intro store hstore
  apply Request.stored h prior
  rw [Request.stores, call.log_commit]
  exact List.mem_append_left _ (List.mem_flatMap.mpr ⟨leaf, hleaf, hstore⟩)

theorem Request.walk {mem : Mem}
    (h : call.request buf mem = .ok request) (hsome : call.allocated mem ≠ []) (prior : Mem) :
    ∃ items last, buf.base + 8 * last = request.endRef.ptr ∧
      Walk ((request.block mem prior).words buf.base buf.count) 0 items ∧
      Reaches ((request.block mem prior).words buf.base buf.count) 0 last ∧
      List.Forall₂ (Leaf.Encodes mem buf.base) (call.leaves request.staged) items ∧
      (items ≠ [] → items.getLast?.map Item.finish = some last) ∧
      List.Forall₂ (Leaf.At buf.base) (call.leaves request.staged) items := by
  obtain ⟨_, hlaidOut, _, hroom⟩ := Call.request_ok h
  have hfront : LaidOut (buf.base + 8 * 0) (call.leaves request.staged) request.endRef.ptr :=
    hlaidOut
  obtain ⟨items, last, hlast, hreach, hall, hfinish, hwalk, hplaces⟩ :=
    hfront.parsed (fun leaf hleaf => Request.stored_leaf h hleaf prior) (by omega) buf.bounded
  have hend := Request.end_words h hsome prior
  rw [← hlast] at hend
  exact ⟨items, last, hlast, hwalk (headerAt_done hend), hreach, hall, hfinish, hplaces⟩

theorem Request.forall_items {mem : Mem}
    (h : call.request buf mem = .ok request) (hsome : call.allocated mem ≠ []) (prior : Mem)
    {R : Leaf → Item → Prop}
    (hR : ∀ leaf item, leaf.call ∈ call.allocated mem → leaf.Encodes mem buf.base item →
      item.data.length < 2 ^ 63 → R leaf item) :
    ∃ items, Block.items ((request.block mem prior).words buf.base buf.count) = .ok items ∧
      List.Forall₂ R (call.leaves request.staged) items := by
  obtain ⟨hcalls, _, _, _⟩ := Call.request_ok h
  obtain ⟨items, last, _, hwalk, _, hall, _⟩ := Request.walk h hsome prior
  refine ⟨items, items_eq_ok_iff.mpr hwalk, ?_⟩
  rw [List.forall₂_iff_zip]
  refine ⟨hall.length_eq, fun {leaf item} hzip => ?_⟩
  obtain ⟨hleaf, hitem⟩ := List.of_mem_zip hzip
  have hencodes := (List.forall₂_iff_zip.mp hall).2 hzip
  apply hR leaf item _ hencodes
  · have hfinish := (hwalk.inside item hitem).2.finish_le
    have hlength := hencodes.length_data
    have hmod := padded_mod (sectionSize leaf.segs)
    have hbounded := buf.bounded
    rw [Mem.length_words] at hfinish
    unfold Item.finish at hfinish
    omega
  · rw [← hcalls]
    exact List.mem_map_of_mem hleaf

theorem Request.exists_item {mem : Mem} (h : call.request buf mem = .ok request) (leaf : Leaf)
    (hleaves : call.leaves request.staged = [leaf]) (prior : Mem) :
    ∃ item, Block.items ((request.block mem prior).words buf.base buf.count) = .ok [item] ∧
      leaf.Encodes mem buf.base item ∧ item.data.length < 2 ^ 63 ∧ leaf.At buf.base item := by
  have hsome : call.allocated mem ≠ [] := by
    rw [← (Call.request_ok h).1, hleaves]
    exact List.cons_ne_nil _ _
  obtain ⟨items, hitems, hall⟩ := Request.forall_items h hsome prior
    (R := fun leaf item => leaf.Encodes mem buf.base item ∧ item.data.length < 2 ^ 63)
    fun _ _ _ hencodes hsmall => ⟨hencodes, hsmall⟩
  obtain ⟨items', _, _, hwalk, _, _, _, hplaces⟩ := Request.walk h hsome prior
  cases hitems.symm.trans (items_eq_ok_iff.mpr hwalk)
  rw [hleaves] at hall hplaces
  rcases hall with _ | ⟨⟨hencodes, hsmall⟩, _ | _⟩
  exact ⟨_, hitems, hencodes, hsmall, (List.forall₂_cons.mp hplaces).1⟩

/-- The host reads back exactly what the guest staged and committed. -/
theorem items_of_request {buf : BlockBuf} {mem : Mem} {call : Call} {request : Request call}
    (h : call.request buf mem = .ok request) (hsome : call.allocated mem ≠ []) (prior : Mem) :
    (call.leaves request.staged).map Leaf.call = call.allocated mem ∧
    ∃ items last,
      Block.items ((request.block mem prior).words buf.base buf.count) = .ok items ∧
      List.Forall₂ (Leaf.Encodes mem buf.base) (call.leaves request.staged) items ∧
      Reaches ((request.block mem prior).words buf.base buf.count) 0 last ∧
      items.getLast?.map Item.finish = some last ∧
      (((request.block mem prior).words buf.base buf.count).drop last).take 2 = [0, Kind.done.toWord] := by
  obtain ⟨hcalls, _, _, hroom⟩ := Call.request_ok h
  obtain ⟨items, last, hlast, hwalk, hreach, hall, hfinish, _⟩ := Request.walk h hsome prior
  have hitems : items ≠ [] := by
    rintro rfl
    rw [List.forall₂_nil_right_iff.mp hall] at hcalls
    exact hsome hcalls.symm
  refine ⟨hcalls, items, last, items_eq_ok_iff.mpr hwalk, hall, hreach, hfinish hitems, ?_⟩
  rw [Mem.drop_words, Mem.take_words _ (by omega), hlast, Request.end_words h hsome prior]

theorem items_of_request_write_cpuid :
    ∃ request items, Call.request ⟨4096, 200, by decide, by decide⟩ (fun _ => 7)
        (.pair (.alloc (.syscall (.write ⟨1, ⟨100, 5⟩⟩)))
          (.alloc (.enarxcall (.cpuid 1 0 ⟨200⟩)))) = .ok request ∧
      Block.items ((request.block (fun _ => 7) (fun _ => 255)).words 4096 200) = .ok items ∧
      items.length = 2 := by
  have hok : (Call.request ⟨4096, 200, by decide, by decide⟩ (fun _ => 7)
      (.pair (.alloc (.syscall (.write ⟨1, ⟨100, 5⟩⟩)))
        (.alloc (.enarxcall (.cpuid 1 0 ⟨200⟩))))).isOk = true := by decide +kernel
  obtain ⟨request, hrequest⟩ := Except.exists_of_isOk hok
  obtain ⟨hcalls, items, _, hitems, hall, _⟩ :=
    items_of_request hrequest (by simp [Call.allocated]) (fun _ => 255)
  refine ⟨request, items, hrequest, hitems, ?_⟩
  rw [← hall.length_eq, ← List.length_map, hcalls]
  rfl

end Enarx.Sallyport
