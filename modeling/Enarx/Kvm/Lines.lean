import Enarx.Kvm.Ownership

/-!
# The lines of the address space

`BRK_LINE` and `NEXT_MMAP_RWLOCK` change in `brk` and in `mmap` alone: the allocator
does not touch them.
-/
namespace Enarx.Kvm

open Alloc

def Memory.lines (memory : Memory) : VirtAddr × VirtAddr × VirtAddr :=
  (memory.brkStart, memory.brkEnd, memory.nextMmap)

abbrev KeepsLines (run : Alloc ε α) : Prop := Exec.Keeps Memory.lines run

namespace KeepsLines

open Exec.Keeps (get)

theorem unwrap (value : Option α) : KeepsLines (Alloc.unwrap value : Alloc ε α) := by
  cases value with
  | none => exact .throw _
  | some value => exact .pure value

theorem modifyMem (f : (VirtAddr → PageTable) → VirtAddr → PageTable) :
    KeepsLines (Alloc.modifyMem f : Alloc ε Unit) := .update fun _ => rfl

theorem modifyAllocator (f : EnarxAllocator → EnarxAllocator) :
    KeepsLines (Alloc.modifyAllocator f : Alloc ε Unit) := .update fun _ => rfl

theorem attempt {run : Alloc δ α} (h : KeepsLines run) :
    KeepsLines (Alloc.attempt run : Alloc ε (Except δ α)) := by
  intro memory
  have hkeep := h memory
  unfold Alloc.attempt
  rcases hrun : run memory with ⟨(_ | _ | _) | _, after⟩ <;> rw [hrun] at hkeep <;> exact hkeep

theorem mapErr {f : δ → ε} {run : Alloc δ α} (h : KeepsLines run) : KeepsLines (Alloc.mapErr f run) := by
  refine (attempt h).bind ?_
  rintro (error | value)
  · exact .throw _
  · exact .pure _

section

variable (host : Host)

theorem balloon : KeepsLines (Kvm.balloon host : Alloc ε Bool) := by
  intro memory
  have hget : (MonadState.get : Alloc ε Memory) memory = (.ok memory, memory) := rfl
  rw [Kvm.balloon, Exec.bind_of_ok hget]
  rcases memory.ledger.balloon host with _ | ⟨granted, ledger⟩
  · rfl
  · rfl

theorem balloonUntil (npages fuel : Nat) : KeepsLines (Kvm.balloonUntil host npages fuel : Alloc ε Unit) := by
  induction fuel with
  | zero => exact .throw _
  | succ fuel ih => exact .bind get fun _ => .ite ((balloon host).bind fun _ => ih) (.pure _)

theorem allocPages (npages : Nat) : KeepsLines (Kvm.allocPages host npages : Alloc ε (Option Nat)) := by
  refine .bind get fun memory => ?_
  cases host.heap.find memory.allocator.free npages with
  | none => exact .pure _
  | some start => exact (modifyAllocator _).bind fun _ => .pure _

theorem deallocPages (start npages : Nat) : KeepsLines (Kvm.deallocPages start npages : Alloc ε Unit) :=
  .update fun _ => rfl

theorem clearPages (start npages : Nat) : KeepsLines (Kvm.clearPages start npages : Alloc ε Unit) :=
  (unwrap _).bind fun _ => modifyMem _

theorem tryAllocHalf (size : Nat) :
    KeepsLines (Kvm.tryAllocHalf host size : Alloc ε (Option (Nat × Nat))) := by
  induction size with
  | zero =>
    refine (allocPages host 1).bind ?_
    rintro (_ | page)
    · exact .pure _
    · exact (clearPages page 1).bind fun _ => .pure _
  | succ size ih =>
    refine (allocPages host _).bind ?_
    rintro (_ | page)
    · exact ih
    · exact (clearPages page _).bind fun _ => .pure _

theorem tryAlloc : KeepsLines (Kvm.tryAlloc host : Alloc ε (Option Nat)) := by
  refine (allocPages host 1).bind ?_
  rintro (_ | page)
  · exact (balloon host).bind fun _ => .ite (allocPages host 1) (.pure _)
  · exact .pure _

theorem storeEntry (table : VirtAddr) (index : Fin 512) (entry : PageTableEntry) :
    KeepsLines (Kvm.storeEntry table index entry : Alloc ε Unit) := modifyMem _

theorem insertTable (table : VirtAddr) (index : Fin 512) (flags : PageTableFlags) :
    KeepsLines (Kvm.insertTable host table index flags) := by
  refine .bind get fun memory => .ite ?_ (.ite ((storeEntry _ _ _).bind fun _ => .pure _) (.pure _))
  refine ((tryAlloc host).bind ?_).bind ?_
  · rintro (_ | page)
    · exact .pure _
    · exact (unwrap _).bind fun _ => .pure _
  · rintro (_ | frame)
    · exact .throw _
    · exact (unwrap _).bind fun _ => (storeEntry _ _ _).bind fun _ => .pure _

theorem createNextTable (table : VirtAddr) (index : Fin 512) (flags : PageTableFlags) :
    KeepsLines (Kvm.createNextTable host table index flags) := by
  refine (insertTable host table index flags).bind fun created => .bind get fun _ => (unwrap _).bind ?_
  intro next
  cases next with
  | table below => exact (modifyMem _).bind fun _ => .pure _
  | _ => exact .throw _

theorem mapToWithTableFlags (page : VirtAddr) (frame : PhysAddr) (flags parentFlags : PageTableFlags) :
    KeepsLines (Kvm.mapToWithTableFlags host page frame flags parentFlags) := by
  refine .bind get fun _ => (createNextTable host _ _ _).bind fun p3 => ?_
  refine (createNextTable host _ _ _).bind fun p2 => (createNextTable host _ _ _).bind fun p1 => ?_
  exact .bind get fun _ => .ite ((unwrap _).bind fun _ => storeEntry _ _ _) (.throw _)

theorem nextTableMut (c : CBit) (table : VirtAddr) (index : Fin 512) :
    KeepsLines (Kvm.nextTableMut c table index) := by
  refine .bind get fun _ => (unwrap _).bind ?_
  intro next
  cases next with
  | table below => exact .pure _
  | _ => exact .throw _

theorem unmap (c : CBit) (page : VirtAddr) : KeepsLines (Kvm.unmap c page) := by
  refine .bind get fun _ => (nextTableMut c _ _).bind fun p3 => ?_
  refine (nextTableMut c _ _).bind fun p2 => (nextTableMut c _ _).bind fun p1 => .bind get fun memory => ?_
  rcases (memory.tables.entry p1 page.p1Index).frame with (_ | _) | frame
  · exact .throw _
  · exact .throw _
  · exact (storeEntry _ _ _).bind fun _ => .pure _

theorem mapPage (page : VirtAddr) (frame : PhysAddr) (flags parentFlags : PageTableFlags) :
    KeepsLines (Kvm.mapPage host page frame flags parentFlags) := by
  refine (attempt (mapToWithTableFlags host page frame flags parentFlags)).bind ?_
  rintro (error | _)
  · exact Exec.Keeps.bind (.update fun _ => rfl) fun _ => .throw _
  · exact .pure _

theorem mapPages (flags parentFlags : PageTableFlags) (last : VirtAddr) (nframes : Nat)
    (frame : PhysAddr) (page : VirtAddr) :
    KeepsLines (Kvm.mapPages host flags parentFlags last nframes frame page) := by
  induction nframes generalizing frame page with
  | zero => exact .pure _
  | succ nframes ih =>
    refine (unwrap _).bind fun nextFrame => .ite ?_ (.pure _)
    exact (unwrap _).bind fun nextPage => (mapPage host _ _ _ _).bind fun _ => ih nextFrame nextPage

theorem mapMemory (mapFrom : PhysAddr) (mapTo : VirtAddr) (size : Nat) (flags parentFlags : PageTableFlags) :
    KeepsLines (Kvm.mapMemory host mapFrom mapTo size flags parentFlags) :=
  .ite (.throw _) ((unwrap _).bind fun _ => (unwrap _).bind fun _ => mapPages host _ _ _ _ _ _)

theorem unmapPages (c : CBit) (last : VirtAddr) (npages : Nat) (page : VirtAddr) :
    KeepsLines (Kvm.unmapPages c last npages page) := by
  induction npages generalizing page with
  | zero =>
    rw [Kvm.unmapPages]
    exact .ite (.throw _) (.pure _)
  | succ npages ih =>
    rw [Kvm.unmapPages]
    refine .ite ?_ (.pure _)
    refine (unwrap _).bind fun nextPage => (unmap c page).bind fun frame => ?_
    exact (unwrap _).bind fun shimPage => (deallocPages _ _).bind fun _ => ih nextPage

theorem unmapMemory (c : CBit) (virtAddr : VirtAddr) (size : Nat) :
    KeepsLines (Kvm.unmapMemory c virtAddr size) :=
  .ite (.pure _) ((unwrap _).bind fun _ => unmapPages c _ _ _)

theorem allocFirstHalf (currSize : Nat) :
    KeepsLines (Kvm.allocFirstHalf host currSize : Alloc ε (Option (Nat × Nat))) := by
  refine (tryAllocHalf host currSize).bind ?_
  rintro (_ | chunk)
  · exact (balloon host).bind fun _ => tryAllocHalf host currSize
  · exact .pure _

theorem mapSecondHalf {next : VirtAddr → Nat → Alloc AllocateError Unit}
    (hnext : ∀ addr size, KeepsLines (next addr size)) (mapTo : VirtAddr) (page exp secondHalfSize : Nat) :
    KeepsLines (Kvm.mapSecondHalf next mapTo page exp secondHalfSize) := by
  refine .ite ((unwrap _).bind fun second => (attempt (hnext second secondHalfSize)).bind ?_) (.pure _)
  rintro (error | _)
  · exact (deallocPages _ _).bind fun _ => .throw _
  · exact .pure _

theorem mapFirstHalf (flags parentFlags : PageTableFlags) (mapTo : VirtAddr) (page exp secondHalfSize : Nat) :
    KeepsLines (Kvm.mapFirstHalf host flags parentFlags mapTo page exp secondHalfSize) := by
  refine (unwrap _).bind fun phys => (attempt (mapMemory host _ _ _ _ _)).bind ?_
  rintro (error | _)
  · refine (deallocPages _ _).bind fun _ => (unwrap _).bind fun second => ?_
    exact (attempt (unmapMemory _ _ _)).bind fun _ => .throw _
  · exact .pure _

theorem allocateAndMapMemory (flags parentFlags : PageTableFlags) (fuel : Nat) (mapTo : VirtAddr)
    (size : Nat) : KeepsLines (Kvm.allocateAndMapMemory host flags parentFlags fuel mapTo size) := by
  induction fuel generalizing mapTo size with
  | zero => exact .throw _
  | succ fuel ih =>
    refine .ite (.throw _) (.ite (.throw _) ?_)
    refine (balloonUntil host _ _).bind fun _ => (allocFirstHalf host _).bind ?_
    rintro (_ | ⟨page, exp⟩)
    · exact .throw _
    · exact (unwrap _).bind fun _ => (mapSecondHalf ih _ _ _ _).bind fun _ =>
        mapFirstHalf host _ _ _ _ _ _

end

end KeepsLines

theorem KeepsLines.yields {run : Alloc ε α} (h : KeepsLines run) (memory : Memory) :
    run.Yields memory (fun _ after => after.lines = memory.lines)
      (Stop.Allows fun _ after => after.lines = memory.lines) := by
  have hkeep := h memory
  unfold Exec.Yields
  rcases hrun : run memory with ⟨(_ | _ | _) | _, after⟩ <;> rw [hrun] at hkeep
  · exact hkeep
  · exact trivial
  · exact trivial
  · exact hkeep

theorem munmap_keepsLines (host : Host) (addr length : Nat) : KeepsLines (munmap host addr length) :=
  (KeepsLines.unwrap _).bind fun _ =>
    (KeepsLines.attempt (.unmapMemory host.cBit _ _)).bind fun _ => .pure _

theorem mmap_keeps_brkLine (host : Host) (fuel : Nat) (addr : Option Nat) (length : Nat)
    (prot flags fd : Sallyport.CInt) (offset : BitVec 64) :
    Exec.Keeps (fun memory => (memory.brkStart, memory.brkEnd))
      (mmap host fuel addr length prot flags fd offset) := by
  have hview : ∀ {α ε : Type} {run : Alloc ε α}, KeepsLines run →
      Exec.Keeps (fun memory => (memory.brkStart, memory.brkEnd)) run :=
    fun h memory => congrArg (fun lines => (lines.1, lines.2.1)) (h memory)
  refine .ite ?_ (.throw _)
  refine Exec.Keeps.get.bind fun memory => (hview (.unwrap _)).bind fun lenAligned => ?_
  refine (hview (.mapErr (.allocateAndMapMemory host _ _ _ _ _))).bind fun _ => ?_
  refine (hview (.unwrap _)).bind fun next => ?_
  exact Exec.Keeps.bind (.update fun _ => rfl) fun _ => .pure _

theorem alignUp_spec {addr aligned : Nat} (h : alignUp addr = some aligned) :
    addr ≤ aligned ∧ SIZE_4_KIB ∣ aligned := by
  unfold alignUp at h
  split at h
  · next hmod =>
    cases h
    exact ⟨le_rfl, Nat.dvd_of_mod_eq_zero hmod⟩
  · dsimp only at h
    split at h
    · cases h
      refine ⟨?_, Nat.dvd_mul_left _ _⟩
      unfold SIZE_4_KIB
      omega
    · cases h

theorem alignUp_lt {addr aligned : Nat} (h : alignUp addr = some aligned) : aligned < addr + SIZE_4_KIB := by
  unfold alignUp at h
  split at h
  · cases h
    exact Nat.lt_add_of_pos_right (by decide)
  · dsimp only at h
    split at h
    · cases h
      unfold SIZE_4_KIB at *
      omega
    · cases h

theorem exists_alignUp {addr : Nat} (h : addr + SIZE_4_KIB ≤ 2 ^ 64) : ∃ aligned, alignUp addr = some aligned := by
  unfold alignUp
  split
  · exact ⟨addr, rfl⟩
  · have hlt : (addr / SIZE_4_KIB + 1) * SIZE_4_KIB < 2 ^ 64 := by
      unfold SIZE_4_KIB at *
      omega
    exact ⟨_, if_pos hlt⟩

theorem brkEnd_sub {brkEnd len start : VirtAddr} {aligned : Nat} (hlt : aligned < brkEnd.raw)
    (hlen : brkEnd.sub aligned = some len) (hstart : VirtAddr.new aligned = some start) :
    start.raw = aligned ∧ start.raw + len.raw = brkEnd.raw ∧ 0 < len.raw := by
  have hcanonical := brkEnd.canonical
  have hstartCanonical := start.canonical
  have hlenCanonical := len.canonical
  have hraw := VirtAddr.raw_of_new hstart
  rw [VirtAddr.sub, if_pos hlt.le] at hlen
  have hlenRaw := VirtAddr.raw_of_new hlen
  omega

/-- What `brk` has done: `U` is what is known when pages have been unmapped, `G` when pages have been mapped. -/
inductive BrkDone (U : VirtAddr → Nat → Memory → Prop) (G : Nat → Memory → Prop) (before : Memory) (addr : Nat) :
    Memory → Prop where
  | inside (hend : addr < before.brkEnd.raw) (hlast : before.brkEnd.raw ≤ addr + SIZE_4_KIB) :
      BrkDone U G before addr before
  | shrunk {start : VirtAddr} {len : Nat} {middle : Memory} (hbelow : addr + SIZE_4_KIB < before.brkEnd.raw)
      (hdvd : SIZE_4_KIB ∣ start.raw) (hle : addr ≤ start.raw) (hlt : start.raw < addr + SIZE_4_KIB)
      (hlen : start.raw + len = before.brkEnd.raw) (hpos : 0 < len) (hunmapped : U start len middle) :
      BrkDone U G before addr { middle with brkEnd := start }
  | grown {aligned : Nat} {newEnd : VirtAddr} {middle : Memory} (hend : before.brkEnd.raw ≤ addr)
      (hdvd : SIZE_4_KIB ∣ aligned) (hle : addr ≤ aligned) (hlt : aligned < addr + SIZE_4_KIB)
      (hnew : VirtAddr.new aligned = some newEnd) (hgranted : G (aligned - before.brkEnd.raw) middle) :
      BrkDone U G before addr { middle with brkEnd := newEnd }

theorem brk_done {host : Host} {fuel addr : Nat} {memory : Memory} {U : VirtAddr → Nat → Memory → Prop}
    {G : Nat → Memory → Prop} {E : Memory → Prop} {E' : VirtAddr → Nat → UnmapError → Memory → Prop}
    (hlow : addr < memory.brkStart.raw → E memory) (hunmap : ∀ start len, len ≠ 0 →
      Exec.Yields (unmapMemory host.cBit start len) memory (fun _ => U start len) (Stop.Allows (E' start len)))
    (hrequest : memory.brkEnd.raw ≤ addr → ∀ size, Exec.Yields (mapErr (fun _ => Sallyport.Libc.ENOMEM)
      (allocateAndMapMemory host USER_TABLE_FLAGS USER_TABLE_FLAGS fuel memory.brkEnd size)) memory
        (fun _ => G size) (Stop.Allows fun _ => E)) : Exec.Yields (brk host fuel (some addr)) memory
      (fun result after => result = addr ∧ memory.brkStart.raw ≤ addr ∧ BrkDone U G memory addr after)
      (Stop.Allows fun _ => E) := by
  apply Exec.Yields.get_bind
  dsimp only
  by_cases hbelow : addr < memory.brkStart.raw
  · rw [if_pos hbelow]
    exact hlow hbelow
  rw [if_neg hbelow]
  have hstart := Nat.le_of_not_lt hbelow
  refine (unwrap_yields _ _).bind ?_
  rintro limit _ ⟨hlimit, rfl⟩
  have hlimit : limit + SIZE_4_KIB = memory.brkEnd.raw := by
    split at hlimit
    · next hpage =>
      rw [← Option.some.inj hlimit]
      exact Nat.sub_add_cancel hpage
    · cases hlimit
  by_cases hshrinks : addr < limit
  · rw [if_pos hshrinks]
    refine (unwrap_yields _ _).bind ?_
    rintro aligned _ ⟨haligned, rfl⟩
    refine (unwrap_yields _ _).bind ?_
    rintro len _ ⟨hlen, rfl⟩
    refine (unwrap_yields _ _).bind ?_
    rintro start _ ⟨hnew, rfl⟩
    obtain ⟨hle, hdvd⟩ := alignUp_spec haligned
    have hlt := alignUp_lt haligned
    obtain ⟨hraw, hsum, hpos⟩ := brkEnd_sub (by omega) hlen hnew
    refine (attempted_yields (hunmap start len.raw (Nat.pos_iff_ne_zero.mp hpos))).bind ?_
    rintro (error | _) middle hmiddle
    · exact trivial
    · exact ⟨rfl, hstart, .shrunk (by omega) (hraw ▸ hdvd) (hraw ▸ hle) (hraw ▸ hlt) hsum hpos hmiddle⟩
  rw [if_neg hshrinks]
  by_cases hinside : addr < memory.brkEnd.raw
  · rw [if_pos hinside]
    exact ⟨rfl, hstart, .inside hinside (by omega)⟩
  rw [if_neg hinside]
  have hend := Nat.le_of_not_lt hinside
  refine (unwrap_yields _ _).bind ?_
  rintro aligned _ ⟨haligned, rfl⟩
  obtain ⟨hle, hdvd⟩ := alignUp_spec haligned
  refine (hrequest hend _).bind ?_
  intro _ middle hgranted
  refine (unwrap_yields _ _).bind ?_
  rintro newEnd _ ⟨hnew, rfl⟩
  exact ⟨rfl, hstart, .grown hend hdvd hle (alignUp_lt haligned) hnew hgranted⟩

theorem brk_yields (host : Host) (fuel addr : Nat) (memory : Memory) :
    Exec.Yields (brk host fuel (some addr)) memory
      (fun result after => result = addr ∧ memory.brkStart.raw ≤ addr ∧
        BrkDone (fun _ _ after => after.lines = memory.lines) (fun _ after => after.lines = memory.lines)
          memory addr after)
      (Stop.Allows fun _ after => after.lines = memory.lines ∧
        (addr < memory.brkStart.raw ∨ memory.brkEnd.raw ≤ addr)) := by
  apply brk_done
  · exact fun hlow => ⟨rfl, .inl hlow⟩
  · exact fun start len _ => (KeepsLines.unmapMemory host.cBit start len).yields memory
  · intro hend size
    refine ((KeepsLines.mapErr (.allocateAndMapMemory host _ _ _ _ _)).yields memory).imp (fun _ _ => id) ?_
    exact fun _ _ hstop => hstop.imp fun _ hlines => ⟨hlines, .inr hend⟩

theorem brk_brkEnd (host : Host) (fuel : Nat) {memory : Memory}
    (hstart : memory.brkStart.raw ≤ memory.brkEnd.raw) (hpage : SIZE_4_KIB ≤ memory.brkEnd.raw)
    (haligned : SIZE_4_KIB ∣ memory.brkEnd.raw) : brk host (fuel + 1) (some memory.brkEnd.raw) memory =
      (.error (.err Sallyport.Libc.ENOMEM), memory) := by
  have hget : (get : Alloc Sallyport.Errno Memory) memory = (.ok memory, memory) := rfl
  have hunwrap : ∀ value : Nat, (unwrap (some value) : Alloc Sallyport.Errno Nat) memory =
      (.ok value, memory) := fun _ => rfl
  have halign : alignUp memory.brkEnd.raw = some memory.brkEnd.raw :=
    if_pos (Nat.mod_eq_zero_of_dvd haligned)
  rw [brk, Exec.bind_of_ok hget]
  dsimp only
  rw [if_neg (Nat.not_lt.mpr hstart), if_pos hpage, Exec.bind_of_ok (hunwrap _),
    if_neg (Nat.not_lt.mpr (Nat.sub_le _ _)), if_neg (Nat.lt_irrefl _), halign,
    Exec.bind_of_ok (hunwrap _), Nat.sub_self]
  rfl

end Enarx.Kvm
