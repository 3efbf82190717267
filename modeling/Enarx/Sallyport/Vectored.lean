import Enarx.Sallyport.Handler
import Enarx.Sallyport.Syscall.Basic

/-!
# Vectored reads and writes

`readv` and `writev` are `read` and `write` on the concatenation of the slices:
the host sees one buffer, and it does not matter where the slices are cut.
-/
namespace Enarx.Sallyport

theorem gather_takeSpans (mem : Mem) (count : Nat) (spans : List Span) :
    mem.gather (takeSpans count spans) = (mem.gather spans).take count := by
  induction spans generalizing count with
  | nil => simp [takeSpans, Mem.gather]
  | cons span rest ih =>
    rcases Nat.eq_zero_or_pos count with rfl | hpos
    · rw [takeSpans_zero, List.take_zero]
      rfl
    rcases Nat.lt_or_ge count span.len with hlt | hle
    · rw [takeSpans_part hpos hlt, Mem.gather_cons, Mem.gather_cons,
        List.take_append_of_le_length (by simp; omega), Mem.take_read _ _ (by omega)]
      exact List.append_nil _
    · rw [takeSpans_whole hpos hle, Mem.gather_cons, Mem.gather_cons, ih, List.take_append]
      simp [List.take_of_length_le, hle]

theorem putAll_scatter (block mem : Mem) (ptr : Nat) (spans : List Span) :
    block.putAll ((scatter mem ptr spans).map Store.put) = block.write ptr (mem.gather spans) := by
  induction spans generalizing block ptr with
  | nil =>
    funext x
    simp [scatter, Mem.gather, Mem.write]
  | cons span rest ih =>
    have hlength : (mem.read span.addr span.len).length = span.len := Mem.length_read ..
    rw [scatter, List.map_cons, Mem.putAll_cons, ih, Mem.gather_cons, ← Mem.write_append, hlength]

/-- `&mut` slices are exclusive: no two of them share an address. -/
structure MutSlices where
  spans : List Span
  disjoint : spans.Pairwise Span.Disjoint

def filled (block : Mem) (ptr : Nat) : List Span → List Put
  | [] => []
  | dst :: rest => ⟨dst.addr, block.read ptr dst.len⟩ :: filled block (ptr + dst.len) rest

theorem puts_copyToIter (block : Mem) (ptr : Nat) (spans : List Span) :
    ((copyToIter ptr spans).log block).filterMap Access.put? = filled block ptr spans := by
  induction spans generalizing ptr with
  | nil => rfl
  | cons span rest ih =>
    rw [copyToIter, Trace.log_bind, List.filterMap_append, ih]
    rfl

variable {spans iovs : List Span} {len : Nat} {before after : Alloc}

theorem putAll_filled_outside (mem block : Mem) (ptr count : Nat) {x : Nat}
    (h : ∀ span ∈ spans, ¬ span.Contains x) :
    mem.putAll (filled block ptr (takeSpans count spans)) x = mem x := by
  induction spans generalizing mem ptr count with
  | nil => rfl
  | cons span rest ih =>
    rw [List.forall_mem_cons] at h
    have hspan : x < span.addr ∨ span.addr + span.len ≤ x := by
      have := h.1
      unfold Span.Contains at this
      omega
    rcases Nat.eq_zero_or_pos count with rfl | hpos
    · rw [takeSpans_zero]
      rfl
    rcases Nat.lt_or_ge count span.len with hlt | hle
    · rw [takeSpans_part hpos hlt]
      exact Mem.write_outside mem (by simp; omega)
    · rw [takeSpans_whole hpos hle, filled, Mem.putAll_cons, ih _ _ _ h.2]
      exact Mem.write_outside mem (by simp; omega)

theorem gather_congr {left right : Mem} (h : ∀ span ∈ spans, ∀ x, span.Contains x → left x = right x) :
    left.gather spans = right.gather spans := by
  apply List.flatMap_congr
  intro span hspan
  exact Mem.read_congr fun x hlow hhigh => h span hspan x ⟨hlow, hhigh⟩

theorem gather_write_disjoint (mem : Mem) {span : Span} {rest : List Span} {bytes : List Byte}
    (hspan : ∀ other ∈ rest, span.Disjoint other) (hlen : bytes.length ≤ span.len) :
    (mem.write span.addr bytes).gather rest = mem.gather rest := by
  apply gather_congr
  intro other hother x hx
  have hout : ¬ span.Contains x := fun hin => hspan other hother x hin hx
  apply Mem.write_outside
  unfold Span.Contains at hout
  omega

theorem gather_putAll_filled (mem block : Mem) (ptr count : Nat)
    (hdisjoint : spans.Pairwise Span.Disjoint) (hcount : count ≤ (spans.map Span.len).sum) :
    (mem.putAll (filled block ptr (takeSpans count spans))).gather spans =
      block.read ptr count ++ (mem.gather spans).drop count := by
  induction spans generalizing mem ptr count with
  | nil =>
    have hzero : count = 0 := by simpa using hcount
    rw [hzero]
    rfl
  | cons span rest ih =>
    obtain ⟨hspan, hrest⟩ := List.pairwise_cons.mp hdisjoint
    rw [List.map_cons, List.sum_cons] at hcount
    rcases Nat.eq_zero_or_pos count with rfl | hpos
    · rw [takeSpans_zero]
      rfl
    rcases Nat.lt_or_ge count span.len with hlt | hle
    · -- the slice that is split: the last one stored to
      rw [takeSpans_part hpos hlt, filled, filled, Mem.putAll_cons, Mem.putAll_nil,
        Mem.gather_cons, Mem.gather_cons, gather_write_disjoint mem hspan (by simp; omega),
        Mem.read_write_front _ (by simp; omega), Mem.length_read,
        List.drop_append_of_le_length (by simp; omega), List.append_assoc]
    · obtain ⟨more, rfl⟩ := Nat.exists_eq_add_of_le hle
      have hfront : ∀ x, span.Contains x → ∀ other ∈ rest, ¬ other.Contains x :=
        fun x hx other hother => hspan other hother x hx
      have hhead : ((mem.write span.addr (block.read ptr span.len)).putAll
          (filled block (ptr + span.len) (takeSpans more rest))).read span.addr span.len =
            block.read ptr span.len := by
        rw [Mem.read_congr fun x hlow hhigh =>
          putAll_filled_outside _ block _ _ (hfront x ⟨hlow, hhigh⟩),
          Mem.read_write_front _ (by simp)]
        simp
      have hdrop : (mem.gather (span :: rest)).drop (span.len + more) =
          (mem.gather rest).drop more := by
        rw [Mem.gather_cons, List.drop_append, List.drop_of_length_le (by simp),
          Mem.length_read, Nat.add_sub_cancel_left, List.nil_append]
      rw [takeSpans_whole hpos hle, Nat.add_sub_cancel_left, filled, Mem.putAll_cons,
        Mem.gather_cons, hhead, ih _ _ _ hrest (by omega),
        gather_write_disjoint mem hspan (by simp), hdrop, Mem.read_add, List.append_assoc]

theorem allocateSliceMax_ok {T : Layout} {buf : (len : Nat) × BlockRef T len}
    (h : allocateSliceMax T len before = (.ok buf, after)) : buf.1 = min len (before.free T) := by
  obtain ⟨alloc, middle, hget, h⟩ := Exec.bind_ok h
  cases hget
  obtain ⟨dataRef, last, -, h⟩ := Exec.bind_ok h
  cases h
  rfl

theorem iovLen_ok (h : iovLen iovs = .ok len) : len = (iovs.map Span.len).sum := by
  unfold iovLen at h
  split at h
  · exact (Except.ok.inj h).symm
  · cases h

theorem stageVector_ok {result : α}
    {finish : (len : Nat) × BlockRef .u8 len → α}
    (h : (do let buf ← allocateSliceMax .u8 (← iovLen iovs); return finish buf : StageM α) before =
      (.ok result, after)) :
    ∃ buf, buf.1 = min (iovs.map Span.len).sum (before.free .u8) ∧ result = finish buf := by
  obtain ⟨len, middle, hlen, h⟩ := Exec.bind_ok h
  rw [Exec.lift_apply, Prod.mk.injEq] at hlen
  obtain ⟨hlen, rfl⟩ := hlen
  obtain ⟨buf, last, hbuf, h⟩ := Exec.bind_ok h
  cases h
  exact ⟨buf, iovLen_ok hlen ▸ allocateSliceMax_ok hbuf, rfl⟩

theorem StagedWritev.putAll_commit (staged : StagedWritev) (mem block : Mem) :
    block.putAll ((staged.commit.log mem).map Store.put) =
      block.write staged.buf.2.ptr ((mem.gather staged.iovs).take staged.buf.1) := by
  rw [StagedWritev.commit, Trace.log_bind, Trace.log_pure, List.append_nil, log_copyFromIter,
    putAll_scatter, gather_takeSpans]

theorem Readv.gather_collect (staged : StagedReadv) (mem block : Mem) (ret : Nat)
    (hdisjoint : staged.iovs.Pairwise Span.Disjoint)
    (hiovs : ret ≤ (staged.iovs.map Span.len).sum) (hret : ret ≤ staged.buf.1) :
    (mem.putAll (((Readv.collect staged (.ok ret)).log block).filterMap Access.put?)).gather staged.iovs =
      block.read staged.buf.2.ptr ret ++ (mem.gather staged.iovs).drop ret := by
  have hcollect : Readv.collect staged (.ok ret) = (do
      copyToIter staged.buf.2.ptr (takeSpans ret staged.iovs)
      return some (.ok ret)) := if_neg (by omega)
  rw [hcollect, Trace.log_bind, Trace.log_pure, List.append_nil, puts_copyToIter,
    gather_putAll_filled _ _ _ _ hdisjoint hiovs]

/-- `writev` hands the host the first bytes of the concatenated slices, `readv`
gets the host's bytes at the front of them. -/
theorem vectored_concat (fd : CInt) (outgoing : List Span) (incoming : MutSlices)
    (mem block : Mem) (before after : Alloc) (argv : List Word) : (∀ staged : StagedWritev,
      Writev.stage ⟨fd, outgoing⟩ before = (.ok (argv, staged), after) →
      ∃ n, n = min (outgoing.map Span.len).sum (before.free .u8) ∧
        argv = [intAsUsize fd, usize staged.buf.2.offset, usize n] ∧
        staged.commit.result mem = n ∧
        block.putAll ((staged.commit.log mem).map Store.put) =
          block.write staged.buf.2.ptr ((mem.gather outgoing).take n)) ∧
    ∀ staged : StagedReadv, Readv.stage ⟨fd, incoming.spans⟩ before = (.ok (argv, staged), after) →
      ∃ n, n = min (incoming.spans.map Span.len).sum (before.free .u8) ∧
        argv = [intAsUsize fd, usize staged.buf.2.offset, usize n] ∧
        ∀ ret ≤ n,
          (Readv.collect staged (.ok ret)).result block = some (.ok ret) ∧
          (mem.putAll (((Readv.collect staged (.ok ret)).log block).filterMap
              Access.put?)).gather incoming.spans =
            block.read staged.buf.2.ptr ret ++ (mem.gather incoming.spans).drop ret := by
  constructor
  · intro staged hstage
    obtain ⟨buf, hlen, hresult⟩ := stageVector_ok hstage
    cases hresult
    exact ⟨buf.1, hlen, rfl, rfl, StagedWritev.putAll_commit ⟨buf, outgoing⟩ mem block⟩
  · intro staged hstage
    obtain ⟨buf, hlen, hresult⟩ := stageVector_ok hstage
    cases hresult
    have hmin : buf.1 ≤ (incoming.spans.map Span.len).sum := hlen.trans_le (Nat.min_le_left _ _)
    refine ⟨buf.1, hlen, rfl, fun ret hret => ⟨?_, ?_⟩⟩
    · have hcollect : Readv.collect ⟨buf, incoming.spans⟩ (.ok ret) = (do
          copyToIter buf.2.ptr (takeSpans ret incoming.spans)
          return some (.ok ret)) := if_neg (by dsimp only; omega)
      rw [hcollect]
      rfl
    · exact Readv.gather_collect ⟨buf, incoming.spans⟩ mem block ret incoming.disjoint
        (hret.trans hmin) hret

def sampleSlices : MutSlices where
  spans := [⟨0, 2⟩, ⟨5, 0⟩, ⟨8, 2⟩]
  disjoint := by
    have hascending : ([⟨0, 2⟩, ⟨5, 0⟩, ⟨8, 2⟩] : List Span).Pairwise fun left right =>
        left.addr + left.len ≤ right.addr := by decide
    exact hascending.imp (Span.disjoint_of_le _ _)

theorem vectored_concat_split : (∃ staged after, Readv.stage ⟨3, sampleSlices.spans⟩ ⟨0, 3, 0⟩ =
      (.ok ([3, 0, 3], staged), after)) ∧
    (Mem.putAll (fun _ => 1) (((Readv.collect ⟨⟨3, ⟨0, 0⟩⟩, sampleSlices.spans⟩ (.ok 3)).log
        fun _ => 7).filterMap Access.put?)).gather sampleSlices.spans = [7, 7, 7, 1] := by
  have hstage : Readv.stage ⟨3, sampleSlices.spans⟩ ⟨0, 3, 0⟩ =
      (.ok ([3, 0, 3], ⟨⟨3, ⟨0, 0⟩⟩, sampleSlices.spans⟩), ⟨3, 0, 3⟩) := rfl
  refine ⟨⟨_, _, hstage⟩, ?_⟩
  obtain ⟨n, hn, -, hcollect⟩ :=
    (vectored_concat 3 [] sampleSlices (fun _ => 1) (fun _ => 7) ⟨0, 3, 0⟩ ⟨3, 0, 3⟩ [3, 0, 3]).2 _ hstage
  rw [(hcollect 3 (by rw [hn]; decide)).2]
  decide

end Enarx.Sallyport
