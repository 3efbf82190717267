import Enarx.Sallyport.Block

/-!
# Safety of the block parser

The parser walks a chain of headers. When every header of the chain fits in the
words that remain, the iteration ends and its items are disjoint windows of the
block. A header that does not fit is a panic of `split_at_mut`.
-/
namespace Enarx.Sallyport

theorem split_shorter {block tail : Block} {item : Option Item}
    (h : block.split = .ok (some (item, tail))) : tail.words.length < block.words.length := by
  have hfrom : Block.from (List.replicate block.pos 0 ++ block.words) block.pos = block := by
    simp [Block.from]
  rw [← hfrom, split_from] at h
  split at h
  · cases h
  · next header _ =>
    split at h
    · cases h
    · next hfits =>
      split at h
      · simp only [Except.ok.injEq, Option.some.injEq, Prod.mk.injEq] at h
        rw [← h.2]
        simp only [Block.from, List.length_drop, List.length_append, List.length_replicate,
          Header.finish] at hfits ⊢
        omega
      · cases h

def Block.scan (block : Block) : Except Fault (List Item) :=
  match _h : block.split with
  | .error fault => .error fault
  | .ok none => .ok []
  | .ok (some (none, tail)) => tail.scan
  | .ok (some (some item, tail)) => tail.scan.map (item :: ·)
termination_by block.words.length
decreasing_by all_goals exact split_shorter _h

namespace BlockIterator

theorem nextLoop_shorter {fuel : Nat} {block tail : Block} {item : Item}
    (h : nextLoop fuel block = .ok (some (item, tail))) : tail.words.length < block.words.length := by
  induction fuel generalizing block with
  | zero => cases h
  | succ fuel ih =>
    rw [nextLoop] at h
    obtain ⟨split, hsplit, h⟩ := Except.bind_eq_ok.mp h
    rcases split with _ | ⟨_ | found, rest⟩
    · cases h
    · exact Nat.lt_trans (ih h) (split_shorter hsplit)
    · cases h
      exact split_shorter hsplit

theorem nextLoop_scan {fuel : Nat} {block : Block} (hfuel : block.words.length < fuel) :
    block.scan = nextLoop fuel block >>= fun
      | none => .ok []
      | some (item, tail) => tail.scan.map (item :: ·) := by
  induction fuel generalizing block with
  | zero => omega
  | succ fuel ih =>
    rw [Block.scan, nextLoop]
    split <;> rename_i hsplit <;> rw [hsplit]
    · rfl
    · rfl
    · have := split_shorter hsplit
      exact ih (by omega)
    · rfl

theorem drain_scan {fuel : Nat} {block : Block} (hfuel : block.words.length < fuel) :
    drain fuel (some block) = block.scan := by
  induction fuel generalizing block with
  | zero => omega
  | succ fuel ih =>
    rw [nextLoop_scan hfuel, drain, next]
    rcases hnext : nextLoop (fuel + 1) block with fault | _ | ⟨item, tail⟩
    · rfl
    · rfl
    · have := nextLoop_shorter hnext
      have hrest : drain fuel (some tail) = tail.scan := ih (by omega)
      simp only [Except.ok_bind, pure, Except.pure, hrest]
      cases tail.scan <;> rfl

end BlockIterator

theorem items_eq_scan (words : List Word) : Block.items words = (Block.from words 0).scan := by
  have hdrain : BlockIterator.drain (words.length + 1) (some ⟨0, words⟩) = Block.scan ⟨0, words⟩ :=
    BlockIterator.drain_scan (Nat.lt_succ_self _)
  exact hdrain

theorem scan_eq (block : Block) :
    block.scan = block.split >>= fun
      | none => .ok []
      | some (item, tail) => tail.scan.map (item.toList ++ ·) := by
  rw [Block.scan]
  split <;> rename_i hsplit <;> rw [hsplit]
  · rfl
  · rfl
  · next tail =>
    simp only [Except.ok_bind]
    cases tail.scan <;> rfl
  · rfl

theorem scan_from (words : List Word) (pos : Nat) :
    (Block.from words pos).scan =
      match headerAt words pos with
      | none => .ok []
      | some header =>
        if words.length < header.finish pos then .error .splitAt
        else if header.Covers then
          (Block.from words (header.finish pos)).scan.map
            ((header.itemAt words pos).toList ++ ·)
        else .ok [] := by
  rw [scan_eq, split_from]
  rcases headerAt words pos with _ | header
  · rfl
  · by_cases hover : words.length < header.finish pos
    · simp only [hover, if_true, Except.error_bind]
    · by_cases hcovers : header.Covers
      · simp only [hover, if_false, hcovers, if_true, Except.ok_bind]
      · simp only [hover, if_false, hcovers, Except.ok_bind]

variable {words : List Word} {pos : Nat} {header : Header} {items : List Item}

theorem headerAt_le (h : headerAt words pos = some header) : pos + 2 ≤ words.length := by
  unfold headerAt at h
  split at h
  · next hdrop =>
    have := congrArg List.length hdrop
    simp only [List.length_drop, List.length_cons] at this
    omega
  · cases h

/-- A walk along the chain that ends without a panic, with the items on the way. -/
inductive Walk (words : List Word) : Nat → List Item → Prop where
  | stop {pos : Nat} (found : headerAt words pos = none) : Walk words pos []
  | short {pos : Nat} {header : Header} (found : headerAt words pos = some header)
      (fits : header.finish pos ≤ words.length) (covers : ¬ header.Covers) : Walk words pos []
  | step {pos : Nat} {header : Header} {items : List Item}
      (found : headerAt words pos = some header) (fits : header.finish pos ≤ words.length)
      (covers : header.Covers) (rest : Walk words (header.finish pos) items) :
      Walk words pos ((header.itemAt words pos).toList ++ items)

theorem scan_of_walk (h : Walk words pos items) : (Block.from words pos).scan = .ok items := by
  induction h with
  | stop found => rw [scan_from, found]
  | short found fits covers =>
    rw [scan_from, found]
    simp only [Nat.not_lt.mpr fits, if_false, covers]
  | step found fits covers _ ih =>
    rw [scan_from, found]
    simp only [Nat.not_lt.mpr fits, if_false, covers, if_true, ih, Except.map]

theorem scan_overrun {last : Nat}
    (hreach : Reaches words pos last) (hheader : headerAt words last = some header)
    (hover : words.length < header.finish last) : (Block.from words pos).scan = .error .splitAt := by
  induction hreach with
  | refl pos =>
    rw [scan_from, hheader]
    exact if_pos hover
  | step found fits covers _ ih =>
    rw [scan_from, found]
    simp only [Nat.not_lt.mpr fits, if_false, covers, if_true, ih hheader hover, Except.map]

theorem walk_or_overrun (words : List Word) (pos : Nat) : (∃ items, Walk words pos items) ∨
      ∃ last header, Reaches words pos last ∧ headerAt words last = some header ∧
        words.length < header.finish last := by
  induction hrest : words.length - pos using Nat.strong_induction_on generalizing pos with
  | h rest ih =>
    rcases hheader : headerAt words pos with _ | header
    · exact Or.inl ⟨[], .stop hheader⟩
    rcases Nat.lt_or_ge words.length (header.finish pos) with hover | hfits
    · exact Or.inr ⟨pos, header, .refl pos, hheader, hover⟩
    by_cases hcovers : header.Covers
    · have hless : words.length - header.finish pos < rest := by
        have := headerAt_le hheader
        unfold Header.finish
        omega
      rcases ih _ hless _ rfl with ⟨items, hwalk⟩ | ⟨last, next, hreach, hover⟩
      · exact Or.inl ⟨_, .step hheader hfits hcovers hwalk⟩
      · exact Or.inr ⟨last, next, .step hheader hfits hcovers hreach, hover⟩
    · exact Or.inl ⟨[], .short hheader hfits hcovers⟩

theorem items_eq_ok_iff : Block.items words = .ok items ↔ Walk words 0 items := by
  rw [items_eq_scan]
  constructor
  · intro h
    rcases walk_or_overrun words 0 with ⟨found, hwalk⟩ | ⟨last, header, hreach, hheader, hover⟩
    · rw [scan_of_walk hwalk] at h
      cases h
      exact hwalk
    · rw [scan_overrun hreach hheader hover] at h
      cases h
  · exact scan_of_walk

/-- Payload and data of an item are the block's words at its place. -/
structure Item.Inside (item : Item) (words : List Word) : Prop where
  finish_le : item.finish ≤ words.length
  payload_eq : item.payload =
    .ofWords item.kind ((words.drop item.pos).take item.kind.usizeCount)
  data_eq : item.data = wordsBytes
    ((words.drop (item.pos + item.kind.usizeCount)).take (item.data.length / 8))

theorem itemAt_inside {item : Item}
    (hitem : header.itemAt words pos = some item) (hfits : header.finish pos ≤ words.length)
    (hcovers : header.Covers) :
    item.pos = pos + 2 ∧ item.finish = header.finish pos ∧ item.Inside words := by
  unfold Header.itemAt at hitem
  rcases hkind : header.kind with _ | kind
  · rw [hkind] at hitem
    cases hitem
  rw [hkind] at hitem
  cases hitem
  have hcover := hcovers kind hkind
  unfold Header.finish at hfits
  have hlen : ((words.drop (pos + 2)).take (header.size / 8)).length = header.size / 8 := by
    rw [List.length_take, List.length_drop]; omega
  have hfinish : pos + 2 + kind.usizeCount + (8 * (header.size / 8 - kind.usizeCount)) / 8 =
      pos + 2 + header.size / 8 := by omega
  have hdata : (wordsBytes (((words.drop (pos + 2)).take (header.size / 8)).drop
      kind.usizeCount)).length = 8 * (header.size / 8 - kind.usizeCount) := by
    rw [length_wordsBytes, List.length_drop, hlen]
  refine ⟨rfl, ?_, ?_, rfl, ?_⟩
  · simp only [Item.finish, Header.finish, hdata, hfinish]
  · simp only [Item.finish, hdata, hfinish]
    exact hfits
  · simp only [hdata]
    rw [Nat.mul_div_cancel_left _ (by omega), List.drop_take, List.drop_drop]

/-- The words a consumer may change are those of the items it was given. -/
def Edits (items : List Item) (writes : List (Nat × Word)) : Prop :=
  ∀ write ∈ writes, ∃ item ∈ items, item.pos ≤ write.1 ∧ write.1 < item.finish

def applyEdits (words : List Word) (writes : List (Nat × Word)) : List Word :=
  writes.foldl (fun words write => words.set write.1 write.2) words

theorem applyEdits_outside {writes : List (Nat × Word)} {i : Nat}
    (h : ∀ write ∈ writes, write.1 ≠ i) : (applyEdits words writes)[i]? = words[i]? := by
  induction writes generalizing words with
  | nil => rfl
  | cons write writes ih =>
    change (applyEdits (words.set write.1 write.2) writes)[i]? = _
    rw [ih fun later hlater => h later (List.mem_cons_of_mem _ hlater),
      List.getElem?_set_ne (h write List.mem_cons_self)]

theorem Reaches.le {last : Nat} (h : Reaches words pos last) : pos ≤ last := by
  induction h with
  | refl => exact Nat.le_refl _
  | step _ _ _ _ ih =>
    unfold Header.finish at ih
    omega

structure SafeItems (words : List Word) (items : List Item) : Prop where
  inside : ∀ item ∈ items, item.Inside words
  increasing : items.Pairwise fun left right => left.finish ≤ right.pos
  skipped : ∀ pos header, Reaches words 0 pos → headerAt words pos = some header →
    header.kind = none → header.finish pos ≤ words.length →
      ∀ writes, Edits items writes → ∀ i, pos ≤ i → i < header.finish pos →
        (applyEdits words writes)[i]? = words[i]?
  overrun : ∀ pos header, Reaches words 0 pos → headerAt words pos = some header →
    words.length < header.finish pos → ∀ item ∈ items, item.finish ≤ pos

namespace Walk

variable {words : List Word} {pos : Nat} {items : List Item}

theorem inside (h : Walk words pos items) : ∀ item ∈ items, pos ≤ item.pos ∧ item.Inside words := by
  induction h with
  | stop | short => simp
  | @step pos header items found fits covers _ ih =>
    intro item hitem
    rcases List.mem_append.mp hitem with hitem | hitem
    · obtain ⟨hpos, _, hinside⟩ := itemAt_inside (Option.mem_toList.mp hitem) fits covers
      exact ⟨by omega, hinside⟩
    · obtain ⟨hpos, hinside⟩ := ih item hitem
      exact ⟨by unfold Header.finish at hpos; omega, hinside⟩

theorem increasing (h : Walk words pos items) : items.Pairwise fun left right => left.finish ≤ right.pos := by
  induction h with
  | stop | short => exact .nil
  | @step pos header items found fits covers rest ih =>
    rcases hitem : header.itemAt words pos with _ | item
    · exact ih
    · refine List.Pairwise.cons (fun later hlater => ?_) ih
      rw [(itemAt_inside hitem fits covers).2.1]
      exact (rest.inside later hlater).1

theorem apart {last : Nat} {header : Header} (h : Walk words pos items) (hreach : Reaches words pos last)
    (hheader : headerAt words last = some header) (hkind : header.kind = none) :
    ∀ item ∈ items, item.finish ≤ last ∨ header.finish last ≤ item.pos := by
  induction hreach generalizing items with
  | refl pos =>
    cases h with
    | stop | short => simp
    | step found fits covers rest =>
      cases found.symm.trans hheader
      intro item hitem
      simp only [Header.itemAt, hkind, Option.map_none, Option.toList_none, List.nil_append] at hitem
      exact Or.inr (rest.inside item hitem).1
  | @step pos last next found fits covers rest ih =>
    cases h with
    | stop hnone => cases found.symm.trans hnone
    | short hnext _ hcovers =>
      cases found.symm.trans hnext
      exact absurd covers hcovers
    | step hnext _ _ hwalk =>
      cases found.symm.trans hnext
      intro item hitem
      rcases List.mem_append.mp hitem with hitem | hitem
      · rw [(itemAt_inside (Option.mem_toList.mp hitem) fits covers).2.1]
        exact Or.inl rest.le
      · exact ih hwalk hheader item hitem

end Walk

def ParserSafe (words : List Word) : Prop :=
  ∃ items, Block.items words = .ok items ∧ SafeItems words items

def HeadersFit (words : List Word) : Prop :=
  ∀ pos header, Reaches words 0 pos → headerAt words pos = some header →
    header.finish pos ≤ words.length

theorem safeItems_of_walk (h : Walk words 0 items) :
    SafeItems words items where
  inside item hitem := (h.inside item hitem).2
  increasing := h.increasing
  skipped pos header hreach hheader hkind _ writes hwrites i hpos hi := by
    apply applyEdits_outside
    rintro write hwrite rfl
    obtain ⟨item, hitem, hle, hlt⟩ := hwrites write hwrite
    have := h.apart hreach hheader hkind item hitem
    omega
  overrun pos header hreach hheader hover := by
    have hscan := scan_of_walk h
    rw [scan_overrun hreach hheader hover] at hscan
    cases hscan

theorem parserSafe_iff (words : List Word) : ParserSafe words ↔ HeadersFit words := by
  constructor
  · rintro ⟨items, hitems, _⟩ pos header hreach hheader
    by_contra hover
    rw [items_eq_scan, scan_overrun hreach hheader (Nat.not_le.mp hover)] at hitems
    cases hitems
  · intro hfit
    rcases walk_or_overrun words 0 with ⟨items, hwalk⟩ | ⟨last, header, hreach, hheader, hover⟩
    · exact ⟨items, items_eq_ok_iff.mpr hwalk, safeItems_of_walk hwalk⟩
    · exact absurd (hfit last header hreach hheader) (Nat.not_le.mpr hover)

/-- A header whose size overruns the block stops the host with a panic. -/
theorem parser_panics_on_oversized_header :
    Block.items [64, Kind.toWord (.item .syscall), 0] = .error .splitAt ∧
      ¬ ParserSafe [64, Kind.toWord (.item .syscall), 0] := by
  have hpanic : Block.items [64, Kind.toWord (.item .syscall), 0] = .error .splitAt := by decide
  refine ⟨hpanic, ?_⟩
  rintro ⟨items, hitems, _⟩
  rw [hpanic] at hitems
  cases hitems

end Enarx.Sallyport
