import Enarx.Bytes
import Enarx.Runs

/-!
# The VCEK cache

Any number of `write` and `read` calls for one name, step by step. A file is
known by its number: a handle follows the file, the path follows the directory.
The lock file only exists or not.
-/
namespace Enarx.Backend.Vcek

/-- The directory with the two paths, and the contents of all files that were ever created. -/
structure Cache where
  path : Option Nat
  locked : Bool
  contents : Nat → List Byte
  nextFile : Nat

def Cache.empty : Cache := ⟨none, false, fun _ => [], 0⟩

inductive Writer where
  | checkExists
  | createLock
  | createFile
  /-- Calls `contents`. -/
  | fetch (file : Nat)
  /-- `io::copy`: what the source has delivered, and what of it is not yet written. -/
  | copy (file : Nat) (delivered pending : List Byte)
  /-- Removes the file after an error. -/
  | discardFile
  /-- Removes the lock after an error. -/
  | discardLock
  | unlock (file : Nat) (delivered : List Byte)
  | failed
  /-- Returned `Ok` without writing. -/
  | cached
  /-- Returned `Ok` after writing. -/
  | written (file : Nat) (delivered : List Byte)
  deriving DecidableEq, Repr

inductive WriterEvent where
  | proceed
  | fail
  | deliver (chunk : List Byte)
  | put (count : Nat)
  /-- The source is at its end. -/
  | finish
  deriving DecidableEq, Repr

def Writer.step (cache : Cache) : Writer → WriterEvent → Option (Cache × Writer)
  | .checkExists, .proceed => some (cache, if cache.path.isSome then .cached else .createLock)
  | .createLock, .proceed =>
    if cache.locked then some (cache, .failed) else some ({ cache with locked := true }, .createFile)
  | .createLock, .fail => some (cache, .failed)
  | .createFile, .proceed =>
    match cache.path with
    | some _ => some (cache, .discardLock)
    | none =>
      some ({ cache with
        path := some cache.nextFile
        contents := Function.update cache.contents cache.nextFile []
        nextFile := cache.nextFile + 1 }, .fetch cache.nextFile)
  | .createFile, .fail => some (cache, .discardLock)
  | .fetch file, .proceed => some (cache, .copy file [] [])
  | .fetch _, .fail => some (cache, .discardFile)
  | .copy file delivered pending, .deliver chunk =>
    some (cache, .copy file (delivered ++ chunk) (pending ++ chunk))
  | .copy file delivered pending, .put count =>
    some ({ cache with
      contents := Function.update cache.contents file (cache.contents file ++ pending.take count) },
      .copy file delivered (pending.drop count))
  | .copy file delivered [], .finish => some (cache, .unlock file delivered)
  | .copy _ _ _, .fail => some (cache, .discardFile)
  | .discardFile, .proceed => some ({ cache with path := none }, .discardLock)
  | .discardLock, .proceed => some ({ cache with locked := false }, .failed)
  | .unlock file delivered, .proceed => some ({ cache with locked := false }, .written file delivered)
  | _, _ => none

inductive Reader where
  | openFile (retries : Nat)
  | checkLock (retries file : Nat)
  | failed
  | opened (file : Nat)
  deriving DecidableEq, Repr

def Reader.start : Reader := .openFile 100

inductive ReaderEvent where
  | proceed
  | fail
  deriving DecidableEq, Repr

def Reader.step (cache : Cache) : Reader → ReaderEvent → Option Reader
  -- a potential stale lock
  | .openFile 0, .proceed => some .failed
  | .openFile (retries + 1), .proceed =>
    match cache.path with
    | none => some .failed
    | some file => some (.checkLock retries file)
  | .openFile _, .fail => some .failed
  | .checkLock retries file, .proceed =>
    -- sleeps, as a write may be in progress
    if cache.locked then some (.openFile retries) else some (.opened file)
  | _, _ => none

structure System where
  cache : Cache
  writers : Nat → Writer
  readers : Nat → Reader

def System.init : System := ⟨.empty, fun _ => .checkExists, fun _ => .start⟩

inductive Event where
  | writer (i : Nat) (event : WriterEvent)
  | reader (i : Nat) (event : ReaderEvent)
  deriving DecidableEq, Repr

def System.step (system : System) : Event → Option System
  | .writer i event => do
    let (cache, writer) ← (system.writers i).step system.cache event
    return { system with cache, writers := Function.update system.writers i writer }
  | .reader i event => do
    let reader ← (system.readers i).step system.cache event
    return { system with readers := Function.update system.readers i reader }

def Writer.HoldsLock : Writer → Prop
  | .createFile | .fetch _ | .copy .. | .discardFile | .discardLock | .unlock .. => True
  | _ => False

def Writer.HoldsFile : Writer → Prop
  | .fetch _ | .copy .. | .discardFile | .unlock .. | .written .. => True
  | _ => False

def Writer.Knows (cache : Cache) : Writer → Prop
  | .fetch file => cache.path = some file ∧ cache.contents file = []
  | .copy file delivered pending => cache.path = some file ∧ cache.contents file ++ pending = delivered
  | .unlock file delivered | .written file delivered =>
    cache.path = some file ∧ cache.contents file = delivered
  | _ => True

structure Inv (system : System) : Prop where
  lock : Token (fun i => (system.writers i).HoldsLock) (system.cache.locked = true)
  file : Token (fun i => (system.writers i).HoldsFile) (system.cache.path.isSome = true)
  knows : ∀ i, (system.writers i).Knows system.cache

theorem Inv.init : Inv .init where
  lock := ⟨⟨fun h => absurd h Bool.false_ne_true, fun ⟨_, h⟩ => h.elim⟩, fun h => h.elim⟩
  file := ⟨⟨fun h => absurd h Bool.false_ne_true, fun ⟨_, h⟩ => h.elim⟩, fun h => h.elim⟩
  knows _ := trivial

inductive Writer.Effect (cache : Cache) (writer : Writer) : Cache → Writer → Prop
  | stay {after : Writer} (hlock : after.HoldsLock ↔ writer.HoldsLock)
      (hfile : after.HoldsFile ↔ writer.HoldsFile) (hknows : writer.Knows cache → after.Knows cache) :
      Effect cache writer cache after
  | acquire (hfree : ¬cache.locked = true) (hfile : ¬writer.HoldsFile) :
      Effect cache writer { cache with locked := true } .createFile
  | create (hfree : ¬cache.path.isSome = true) (hlock : writer.HoldsLock) :
      Effect cache writer
        { cache with
          path := some cache.nextFile
          contents := Function.update cache.contents cache.nextFile []
          nextFile := cache.nextFile + 1 } (.fetch cache.nextFile)
  | put {file : Nat} {delivered pending : List Byte} (count : Nat)
      (hwriter : writer = .copy file delivered pending) :
      Effect cache writer
        { cache with
          contents := Function.update cache.contents file (cache.contents file ++ pending.take count) }
        (.copy file delivered (pending.drop count))
  | discard (hwriter : writer = .discardFile) :
      Effect cache writer { cache with path := none } .discardLock
  | release {after : Writer} (hlock : writer.HoldsLock) (hafter : ¬after.HoldsLock)
      (hfile : after.HoldsFile ↔ writer.HoldsFile) (hknows : writer.Knows cache → after.Knows cache) :
      Effect cache writer { cache with locked := false } after

theorem Writer.step_effect {cache after : Cache} {writer next : Writer} {event : WriterEvent}
    (h : writer.step cache event = some (after, next)) : writer.Effect cache after next := by
  unfold Writer.step at h
  split at h
  case h_1 =>
    cases h
    split
    · exact .stay (by simp [HoldsLock]) (by simp [HoldsFile]) id
    · exact .stay (by simp [HoldsLock]) (by simp [HoldsFile]) id
  case h_2 =>
    split at h
    · cases h
      exact .stay (by simp [HoldsLock]) (by simp [HoldsFile]) id
    · next hfree =>
      cases h
      exact .acquire hfree id
  case h_3 =>
    cases h
    exact .stay (by simp [HoldsLock]) (by simp [HoldsFile]) id
  case h_4 =>
    split at h
    · cases h
      exact .stay (by simp [HoldsLock]) (by simp [HoldsFile]) id
    · next hpath =>
      cases h
      exact .create (by simp [hpath]) trivial
  case h_5 =>
    cases h
    exact .stay (by simp [HoldsLock]) (by simp [HoldsFile]) id
  case h_6 =>
    cases h
    exact .stay (by simp [HoldsLock]) (by simp [HoldsFile]) fun hknows => by simpa [Knows] using hknows
  case h_7 =>
    cases h
    exact .stay (by simp [HoldsLock]) (by simp [HoldsFile]) fun _ => trivial
  case h_8 =>
    cases h
    refine .stay (by simp [HoldsLock]) (by simp [HoldsFile]) fun hknows => ⟨hknows.1, ?_⟩
    rw [← List.append_assoc, hknows.2]
  case h_9 =>
    cases h
    exact .put _ rfl
  case h_10 =>
    cases h
    exact .stay (by simp [HoldsLock]) (by simp [HoldsFile]) fun hknows => by simpa [Knows] using hknows
  case h_11 =>
    cases h
    exact .stay (by simp [HoldsLock]) (by simp [HoldsFile]) fun _ => trivial
  case h_12 =>
    cases h
    exact .discard rfl
  case h_13 =>
    cases h
    exact .release trivial id (by simp [HoldsFile]) fun _ => trivial
  case h_14 =>
    cases h
    exact .release trivial id (by simp [HoldsFile]) fun hknows => hknows
  case h_15 => cases h

theorem Writer.Knows.of_not_holdsFile {writer : Writer} (h : ¬writer.HoldsFile) (cache : Cache) :
    writer.Knows cache := by
  cases writer with
  | fetch | copy | discardFile | unlock | written => exact absurd trivial h
  | checkExists | createLock | createFile | discardLock | failed | cached => trivial

theorem Writer.Knows.locked {writer : Writer} {cache : Cache} (locked : Bool) (h : writer.Knows cache) :
    writer.Knows { cache with locked } := by
  cases writer with
  | fetch | copy | unlock | written => exact h
  | discardFile | checkExists | createLock | createFile | discardLock | failed | cached => trivial

namespace Inv

variable {system : System} {i : Nat} {cache : Cache} {writer : Writer}

theorem knows_update (hown : writer.Knows cache) (hother : ∀ j, j ≠ i → (system.writers j).Knows cache) :
    ∀ j, (Function.update system.writers i writer j).Knows cache := by
  rw [Function.forall_update_iff system.writers fun _ writer => writer.Knows cache]
  exact ⟨hown, hother⟩

theorem knows_other (h : Inv system) (hfile : (system.writers i).HoldsFile) (j : Nat) (hj : j ≠ i) :
    (system.writers j).Knows cache :=
  Writer.Knows.of_not_holdsFile (fun hj' => hj (h.file.unique hj' hfile)) cache

theorem writer_step (h : Inv system) (heffect : (system.writers i).Effect system.cache cache writer) :
    Inv { system with cache, writers := Function.update system.writers i writer } := by
  cases heffect with
  | stay hlock hfile hknows =>
    exact ⟨h.lock.keep hlock .rfl, h.file.keep hfile .rfl, knows_update (hknows (h.knows i)) fun j _ => h.knows j⟩
  | acquire hfree hfile =>
    refine ⟨?_, h.file.keep ⟨False.elim, hfile⟩ .rfl, knows_update trivial fun j _ => (h.knows j).locked _⟩
    exact h.lock.acquire hfree trivial rfl
  | create hfree hlock =>
    have hnone : ∀ j, ¬(system.writers j).HoldsFile := fun j hj => hfree (h.file.taken_iff.mpr ⟨j, hj⟩)
    refine ⟨h.lock.keep ⟨fun _ => hlock, fun _ => trivial⟩ .rfl, ?_, ?_⟩
    · exact h.file.acquire hfree trivial rfl
    · exact knows_update ⟨rfl, Function.update_self ..⟩ fun j _ => .of_not_holdsFile (hnone j) _
  | @put file delivered pending count hwriter =>
    have hfile : (system.writers i).HoldsFile := by
      rw [hwriter]
      trivial
    have hknows := h.knows i
    rw [hwriter] at hknows
    refine ⟨h.lock.keep ?_ .rfl, h.file.keep ?_ .rfl, knows_update ⟨hknows.1, ?_⟩ (h.knows_other hfile)⟩
    · rw [hwriter]
      exact Iff.rfl
    · rw [hwriter]
      exact Iff.rfl
    · change Function.update system.cache.contents file _ file ++ _ = _
      rw [Function.update_self, List.append_assoc, List.take_append_drop, hknows.2]
  | discard hwriter =>
    have hfile : (system.writers i).HoldsFile := by
      rw [hwriter]
      trivial
    refine ⟨h.lock.keep ?_ .rfl, ?_, knows_update trivial (h.knows_other hfile)⟩
    · rw [hwriter]
      exact Iff.rfl
    · exact h.file.release hfile id Bool.false_ne_true
  | release hlock hafter hfile hknows =>
    refine ⟨?_, h.file.keep hfile .rfl, ?_⟩
    · exact h.lock.release hlock hafter Bool.false_ne_true
    · exact knows_update ((hknows (h.knows i)).locked _) fun j _ => (h.knows j).locked _

theorem step (h : Inv system) {event : Event} {next : System} (hnext : system.step event = some next) :
    Inv next := by
  cases event with
  | writer i event =>
    obtain ⟨⟨cache, writer⟩, hstep, hnext⟩ := Option.bind_eq_some_iff.mp hnext
    cases hnext
    exact h.writer_step (Writer.step_effect hstep)
  | reader i event =>
    obtain ⟨reader, -, hnext⟩ := Option.bind_eq_some_iff.mp hnext
    cases hnext
    exact ⟨h.lock, h.file, h.knows⟩

end Inv

namespace System

/-- The file holds all that was delivered to a `write` that succeeded. -/
def Complete (system : System) (file : Nat) : Prop :=
  ∃ i delivered, system.writers i = .written file delivered ∧ system.cache.contents file = delivered

def ReadsComplete (system : System) : Prop :=
  ∀ j file, system.readers j = .opened file → system.Complete file

/-- Every `write` that returned `Ok` after writing has left a complete file at the path. -/
def WritesComplete (system : System) : Prop :=
  ∀ i file delivered, system.writers i = .written file delivered →
    system.cache.path = some file ∧ system.cache.contents file = delivered

/-- A `read` that finds no lock has opened the file that is still at the path. -/
def FindsSameFile (system : System) (event : Event) : Prop :=
  ∀ j retries file, event = .reader j .proceed → system.readers j = .checkLock retries file →
    system.cache.locked = false → system.cache.path = some file

end System

theorem Inv.writesComplete {system : System} (h : Inv system) : system.WritesComplete := by
  intro i file delivered hwriter
  have hknows := h.knows i
  rw [hwriter] at hknows
  exact hknows

theorem Inv.complete_iff {system : System} (h : Inv system) (hlock : system.cache.locked = false)
    (file : Nat) : system.Complete file ↔ system.cache.path = some file := by
  constructor
  · rintro ⟨i, delivered, hwriter, -⟩
    exact (h.writesComplete i file delivered hwriter).1
  · intro hpath
    obtain ⟨i, hi⟩ := h.file.taken_iff.mp (by rw [hpath]; rfl)
    have hunlocked : ¬(system.writers i).HoldsLock := fun hholds =>
      Bool.false_ne_true (hlock.symm.trans (h.lock.taken_iff.mpr ⟨i, hholds⟩))
    cases hwriter : system.writers i with
    | written other delivered =>
      obtain ⟨hother, hcontents⟩ := h.writesComplete i other delivered hwriter
      cases hpath.symm.trans hother
      exact ⟨i, delivered, hwriter, hcontents⟩
    | fetch | copy | discardFile | unlock =>
      rw [hwriter] at hunlocked
      exact absurd trivial hunlocked
    | checkExists | createLock | createFile | discardLock | failed | cached =>
      rw [hwriter] at hi
      exact hi.elim

theorem Writer.step_written {cache : Cache} {file : Nat} {delivered : List Byte} (event : WriterEvent) :
    (Writer.written file delivered).step cache event = none := by
  cases event <;> rfl

namespace System

variable {system next : System} {event : Event}

theorem Complete.step {file : Nat} (h : system.Complete file) (hinv : Inv next)
    (hnext : system.step event = some next) : next.Complete file := by
  obtain ⟨i, delivered, hwriter, -⟩ := h
  have hkept : next.writers i = .written file delivered := by
    cases event with
    | writer k event =>
      obtain ⟨⟨cache, writer⟩, hstep, hnext⟩ := Option.bind_eq_some_iff.mp hnext
      cases hnext
      by_cases hki : i = k
      · subst hki
        rw [hwriter, Writer.step_written] at hstep
        cases hstep
      · exact (Function.update_of_ne hki _ _).trans hwriter
    | reader k event =>
      obtain ⟨reader, -, hnext⟩ := Option.bind_eq_some_iff.mp hnext
      cases hnext
      exact hwriter
  exact ⟨i, delivered, hkept, (hinv.writesComplete i file delivered hkept).2⟩

theorem opened_cases (hnext : system.step event = some next) {j file : Nat}
    (hopened : next.readers j = .opened file) : system.readers j = .opened file ∨
      ∃ retries, event = .reader j .proceed ∧ system.readers j = .checkLock retries file ∧
        system.cache.locked = false := by
  cases event with
  | writer k event =>
    obtain ⟨⟨cache, writer⟩, -, hnext⟩ := Option.bind_eq_some_iff.mp hnext
    cases hnext
    exact .inl hopened
  | reader k event =>
    obtain ⟨reader, hstep, hnext⟩ := Option.bind_eq_some_iff.mp hnext
    cases hnext
    by_cases hjk : j = k
    · subst hjk
      cases (Function.update_self j reader system.readers).symm.trans hopened
      unfold Reader.step at hstep
      split at hstep
      case h_4 hreader =>
        split at hstep
        · cases hstep
        · next hlock =>
          cases hstep
          exact .inr ⟨_, rfl, hreader, Bool.eq_false_iff.mpr hlock⟩
      case h_2 =>
        split at hstep <;> cases hstep
      all_goals cases hstep
    · exact .inl ((Function.update_of_ne hjk reader system.readers).symm.trans hopened)

theorem step_checkLock {j retries file : Nat} (hreader : system.readers j = .checkLock retries file)
    (hlock : system.cache.locked = false) (hnext : system.step (.reader j .proceed) = some next) :
    next.readers j = .opened file ∧ next.cache = system.cache ∧ next.writers = system.writers := by
  obtain ⟨reader, hstep, hnext⟩ := Option.bind_eq_some_iff.mp hnext
  cases hnext
  rw [hreader, Reader.step, if_neg (Bool.eq_false_iff.mp hlock)] at hstep
  cases hstep
  exact ⟨Function.update_self .., rfl, rfl⟩

theorem readsComplete_step (hinv : Inv system) (h : system.ReadsComplete)
    (hnext : system.step event = some next) : next.ReadsComplete ↔ system.FindsSameFile event := by
  constructor
  · rintro hreads j retries file rfl hreader hlock
    obtain ⟨hopened, hcache, hwriters⟩ := step_checkLock hreader hlock hnext
    obtain ⟨i, delivered, hwriter, -⟩ := hreads j file hopened
    rw [hwriters] at hwriter
    exact (hinv.writesComplete i file delivered hwriter).1
  · intro hsame j file hopened
    rcases opened_cases hnext hopened with hbefore | ⟨retries, rfl, hreader, hlock⟩
    · exact (h j file hbefore).step (hinv.step hnext) hnext
    · have hpath := hsame j retries file rfl hreader hlock
      exact ((hinv.complete_iff hlock file).mpr hpath).step (hinv.step hnext) hnext

end System

/-- In every interleaving a `write` that succeeds leaves a complete file. All files that `read`
returns are complete if and only if none was removed between being opened and the look at the lock. -/
theorem readsComplete_iff (events : List Event) : Runs.Always System.step System.WritesComplete .init events ∧
    (Runs.Always System.step System.ReadsComplete .init events ↔
      Runs.Each System.step System.FindsSameFile .init events) := by
  constructor
  · have hinv : Runs.Always System.step Inv .init events :=
      Runs.always_of_invariant (fun _ _ _ h hnext => h.step hnext) Inv.init events
    exact hinv.imp fun _ h => h.writesComplete
  · apply Runs.always_iff_each (fun _ _ _ (h : Inv _) hnext => h.step hnext)
    · intro system event next hinv hreads hnext
      exact System.readsComplete_step hinv hreads hnext
    · exact Inv.init
    · intro j file hopened
      cases hopened

def failingWrite : List Event :=
  [.writer 0 .proceed, .writer 0 .proceed, .writer 0 .proceed, .writer 0 .proceed,
    .writer 0 (.deliver [0x30]), .writer 0 (.put 1), .reader 0 .proceed,
    .writer 0 .fail, .writer 0 .proceed, .writer 0 .proceed, .reader 0 .proceed]

/-- The reader gets the first byte of a certificate that no `write` has completed. -/
theorem partial_certificate_served : ∃ system, Runs.exec System.step .init failingWrite = some system ∧
    system.readers 0 = .opened 0 ∧ system.cache.contents 0 = [0x30] ∧ ¬system.ReadsComplete := by
  refine ⟨_, rfl, rfl, rfl, ?_⟩
  intro hreads
  obtain ⟨i, delivered, hwriter, -⟩ := hreads 0 0 rfl
  by_cases hi : i = 0
  · subst hi
    cases hwriter
  · simp [Function.update_of_ne hi, System.init] at hwriter

end Enarx.Backend.Vcek
