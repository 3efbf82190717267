import Enarx.Sallyport.Linux

/-!
# What validation returns

The memory that a validated pointer stands for, in terms of the registers and of
the memory of the workload.
-/
namespace Enarx.Sallyport

open Libc Platform

variable (platform : Platform) (mem : Mem)

theorem validateMut_ensures (T : Layout) (ptr : Word) :
    Except.Ensures (· = ⟨ptr.toNat⟩) (platform.validateMut T ptr) :=
  .bind (.any _) fun _ _ => .ok rfl

theorem validate_ensures (T : Layout) (ptr : Word) :
    Except.Ensures (· = ⟨ptr.toNat⟩) (platform.validate T ptr) :=
  .bind (.any _) fun _ _ => .ok rfl

theorem validateSliceMut_ensures (T : Layout) (ptr count : Word) :
    Except.Ensures (· = ⟨ptr.toNat, count.toNat⟩) (platform.validateSliceMut T ptr count) :=
  .bind (.any _) fun _ _ => .ok rfl

theorem validateSlice_ensures (T : Layout) (ptr count : Word) :
    Except.Ensures (· = ⟨ptr.toNat, count.toNat⟩) (platform.validateSlice T ptr count) :=
  .bind (.any _) fun _ _ => .ok rfl

theorem validateSockaddrInput_ensures (addr addrlen : Word) :
    Except.Ensures (· = ⟨addr.toNat, addrlen.toNat⟩) (platform.validateSockaddrInput addr addrlen) :=
  .bind (.any _) fun _ _ => .ok rfl

theorem validateSockoptInput_ensures (optval optlen : Word) :
    Except.Ensures (· = ⟨optval.toNat, optlen.toNat⟩) (platform.validateSockoptInput optval optlen) :=
  .bind (.any _) fun _ _ => .ok rfl

theorem validateSockaddrOutput_ensures (addr addrlen : Word) :
    Except.Ensures (· = ⟨⟨addr.toNat, Linux.socklenAt mem addrlen⟩, ⟨addrlen.toNat⟩⟩)
      (platform.validateSockaddrOutput mem addr addrlen) := by
  refine .bind (validateMut_ensures platform socklen addrlen) fun ref href => ?_
  subst href
  refine .bind (.any _) fun _ _ => .ok ?_
  have hlt := leNat_lt (mem.read addrlen.toNat 4)
  rw [Mem.length_read] at hlt
  have hlen : (usize (leNat (mem.read addrlen.toNat 4))).toNat = Linux.socklenAt mem addrlen :=
    toNat_usize (by omega)
  simp only [hlen]

/-- A null pointer is nothing, another one something with the property. -/
def OrNone (ptr : Word) (P : α → Prop) (option : Option α) : Prop :=
  ptr = 0 ∧ option = none ∨ ptr ≠ 0 ∧ ∃ value, P value ∧ option = some value

theorem orNone_ensures {P : α → Prop} {validated : Except Abort α}
    (h : Except.Ensures P validated) (ptr : Word) : Except.Ensures (OrNone ptr P) (orNone ptr validated) := by
  refine .ite (fun hnull => .ok (.inl ⟨hnull, rfl⟩)) fun hptr option hoption => ?_
  cases validated with
  | error errno => cases hoption
  | ok value =>
    cases hoption
    exact .inr ⟨hptr, value, h value rfl, rfl⟩

theorem validateIovecs_ensures (writable : Bool) (count addr : Nat) :
    Except.Ensures (· = (List.range count).map fun i =>
        (⟨(iovecAt mem (addr + 16 * i)).1.toNat, (iovecAt mem (addr + 16 * i)).2.toNat⟩ : Span))
      (platform.validateIovecs mem writable count addr) := by
  induction count generalizing addr with
  | zero => exact .ok rfl
  | succ count ih =>
    refine .bind (.any _) fun _ _ => .bind (ih (addr + 16)) fun rest hrest => .ok ?_
    have hshift : ∀ i, addr + 16 + 16 * i = addr + 16 * (i + 1) := by omega
    rw [hrest, List.range_succ_eq_map, List.map_cons, List.map_map]
    simp only [hshift, Nat.mul_zero, Nat.add_zero, Function.comp_def, Nat.succ_eq_add_one, iovecAt]

theorem validateIovecSlice_ensures (iov iovcnt : Word) :
    Except.Ensures (· = Linux.iovecs mem iov iovcnt.toNat) (platform.validateIovecSlice mem iov iovcnt) :=
  .bind (.any _) fun _ _ => validateIovecs_ensures platform mem false iovcnt.toNat iov.toNat

theorem validateIovecSliceMut_ensures (iov iovcnt : Word) :
    Except.Ensures (· = Linux.iovecs mem iov iovcnt.toNat) (platform.validateIovecSliceMut mem iov iovcnt) :=
  .bind (.any _) fun _ _ => validateIovecs_ensures platform mem true iovcnt.toNat iov.toNat

theorem scanStr_ensures (left ptr : Nat) :
    Except.Ensures (fun finish => ∀ x, ptr ≤ x → x + 1 < finish → mem x ≠ 0)
      (platform.scanStr mem left ptr) := by
  induction left generalizing ptr with
  | zero => exact .bind (.any _) fun _ _ => .error _
  | succ left ih =>
    refine .bind (.any _) fun _ _ => .ite (fun _ => .ok ?_) fun hbyte finish hfinish => ?_
    · intro x hle hlt
      omega
    · intro x hle hlt
      rcases Nat.eq_or_lt_of_le hle with rfl | hlt'
      · exact hbyte
      · exact ih (ptr + 1) finish hfinish x hlt' hlt

theorem validateStr_ensures (ptr : Word) : Except.Ensures (fun slice => slice.addr = ptr.toNat ∧
        ∀ x, ptr.toNat ≤ x → x < ptr.toNat + slice.len → x ∈ Linux.cstring mem ptr)
      (platform.validateStr mem ptr) := by
  refine .bind (scanStr_ensures platform mem _ _) fun finish hfinish => .ok ⟨rfl, fun x hle hlt =>
    ⟨hle, fun y hle' hlt' => ?_⟩⟩
  apply hfinish y hle'
  simp only at hlt
  omega

theorem validateArgp_ensures (request : CInt) (argp : Word) :
    Except.Ensures (fun option => argp = 0 ∧ option = none ∨
      argp ≠ 0 ∧ (request = FIONBIO ∨ request = FIONREAD) ∧ option = some ⟨argp.toNat, 4⟩)
      (validateArgp platform request argp) := by
  refine .ite (fun hnull => .ok (.inl ⟨hnull, rfl⟩)) fun hptr => .ite (fun hrequest => ?_)
    fun _ => .error _
  refine .bind (validateMut_ensures platform int argp) fun ref href => .ok ?_
  rw [href]
  exact .inr ⟨hptr, hrequest, rfl⟩

/-- The bytes up to the end of the address space can be read, and none but the last may be zero. -/
structure Unterminated (ptr : Word) : Prop where
  readable : ∀ addr, ptr.toNat ≤ addr → addr < 2 ^ 64 → platform.check .u8 false (usize addr) = .ok ()
  nonzero : ∀ addr, ptr.toNat ≤ addr → addr + 1 < 2 ^ 64 → mem addr ≠ 0

theorem orAbort_bind_eq_panic {check : Except Errno Unit} {next : Except Abort α} :
    (do orAbort check; next) = .error .panic ↔ check = .ok () ∧ next = .error .panic := by
  rcases check with errno | _
  · simp [orAbort, Except.mapError]
  · simp [orAbort, Except.mapError]

theorem scanStr_eq_panic (left ptr : Nat) : platform.scanStr mem left ptr = .error .panic ↔
      (∀ addr, ptr ≤ addr → addr ≤ ptr + left → platform.check .u8 false (usize addr) = .ok ()) ∧
        ∀ addr, ptr ≤ addr → addr < ptr + left → mem addr ≠ 0 := by
  induction left generalizing ptr with
  | zero =>
    rw [scanStr, orAbort_bind_eq_panic]
    constructor
    · rintro ⟨hcheck, -⟩
      exact ⟨fun addr hle hge => Nat.le_antisymm hle hge ▸ hcheck, fun addr hle hlt => by omega⟩
    · exact fun h => ⟨h.1 ptr le_rfl le_rfl, rfl⟩
  | succ left ih =>
    rw [scanStr, orAbort_bind_eq_panic]
    constructor
    · rintro ⟨hcheck, hrest⟩
      split at hrest
      · cases hrest
      · next hbyte =>
        obtain ⟨hchecks, hbytes⟩ := (ih (ptr + 1)).mp hrest
        refine ⟨fun addr hle hge => ?_, fun addr hle hlt => ?_⟩
        · rcases Nat.eq_or_lt_of_le hle with rfl | hlt
          · exact hcheck
          · exact hchecks addr hlt (by omega)
        · rcases Nat.eq_or_lt_of_le hle with rfl | hlt'
          · exact hbyte
          · exact hbytes addr hlt' (by omega)
    · rintro ⟨hchecks, hbytes⟩
      refine ⟨hchecks ptr le_rfl (by omega), ?_⟩
      rw [if_neg (hbytes ptr le_rfl (by omega)), ih]
      exact ⟨fun addr hle hge => hchecks addr (by omega) (by omega),
        fun addr hle hlt => hbytes addr (by omega) (by omega)⟩

theorem validateStr_eq_panic (ptr : Word) :
    platform.validateStr mem ptr = .error .panic ↔ Unterminated platform mem ptr := by
  have hscan : platform.validateStr mem ptr = .error .panic ↔
      platform.scanStr mem (2 ^ 64 - 1 - ptr.toNat) ptr.toNat = .error .panic := by
    unfold validateStr
    rcases platform.scanStr mem (2 ^ 64 - 1 - ptr.toNat) ptr.toNat with abort | finish
    · simp
    · simp [pure, Except.pure]
  have hlt := ptr.isLt
  rw [hscan, scanStr_eq_panic]
  constructor
  · rintro ⟨hreadable, hnonzero⟩
    exact ⟨fun addr hle hlt => hreadable addr hle (by omega), fun addr hle hlt => hnonzero addr hle (by omega)⟩
  · rintro ⟨hreadable, hnonzero⟩
    exact ⟨fun addr hle hge => hreadable addr hle (by omega), fun addr hle hlt => hnonzero addr hle (by omega)⟩

def Steady (run : Except Abort α) : Prop := run ≠ .error .panic

namespace Steady

variable {platform mem}

theorem ok (value : α) : Steady (.ok value) := by
  intro h
  cases h

theorem err (errno : Errno) : Steady (.error (.err errno) : Except Abort α) := by
  intro h
  cases h

theorem bind {run : Except Abort α} {next : α → Except Abort β} (h : Steady run)
    (hnext : ∀ value, Steady (next value)) : Steady (run >>= next) := by
  rcases run with (errno | _) | value
  · exact err errno
  · exact absurd rfl h
  · exact hnext value

theorem ite {p : Prop} [Decidable p] {left right : Except Abort α} (hleft : Steady left) (hright : Steady right) :
    Steady (if p then left else right) := by
  split
  · exact hleft
  · exact hright

theorem checked (check : Except Errno Unit) {next : Except Abort α} (h : Steady next) :
    Steady (do orAbort check; next) := by
  rcases check with errno | _
  · exact err errno
  · exact h

theorem orNone {ptr : Word} {run : Except Abort α} (h : Steady run) : Steady (Platform.orNone ptr run) := by
  apply ite (ok none)
  rcases run with (errno | _) | value
  · exact err errno
  · exact absurd rfl h
  · exact ok (some value)

theorem validateIovecs (writable : Bool) (count addr : Nat) :
    Steady (platform.validateIovecs mem writable count addr) := by
  induction count generalizing addr with
  | zero => exact ok []
  | succ count ih => exact checked _ ((ih (addr + 16)).bind fun _ => ok _)

theorem validateSockaddrOutput (addr addrlen : Word) :
    Steady (platform.validateSockaddrOutput mem addr addrlen) :=
  bind (checked _ (ok _)) fun _ => checked _ (ok _)

theorem validateArgp (request : CInt) (argp : Word) : Steady (Sallyport.validateArgp platform request argp) :=
  ite (ok none) (ite (bind (checked _ (ok _)) fun _ => ok _) (err ENOTSUP))

theorem nonNullOr (addr : Word) : Steady (Sallyport.nonNullOr addr) := ite (err EFAULT) (ok addr)

theorem mremapFlags (flags : CInt) (newAddress : Word) : Steady (Sallyport.mremapFlags flags newAddress) :=
  ite (ok _) (ite (ok _) (ite (ok _) (ite (err EINVAL) (ite (ok _) (ite (ok _) (err EINVAL))))))

end Steady

theorem dispatch_steady {sysno : Sysno} (hopen : sysno ≠ .open_) (hreadlink : sysno ≠ .readlink) (argv : Argv) :
    Steady (dispatch platform mem sysno argv) := by
  obtain ⟨a, b, c, d, e, f⟩ := argv
  cases sysno
  case open_ => exact absurd rfl hopen
  case readlink => exact absurd rfl hreadlink
  case readv | writev => exact .bind (.checked _ (.validateIovecs _ _ _)) fun _ => .ok _
  case ioctl => exact .bind (.validateArgp _ _) fun _ => .ok _
  case mremap => exact .bind (.nonNullOr _) fun _ => .bind (.mremapFlags _ _) fun _ => .ok _
  case madvise | mprotect | munmap => exact .bind (.nonNullOr _) fun _ => .ok _
  case accept | accept4 => exact .bind (.orNone (.validateSockaddrOutput _ _)) fun _ => .ok _
  case getsockname => exact .bind (.validateSockaddrOutput _ _) fun _ => .ok _
  case recvfrom =>
    exact .bind (.checked _ (.ok _)) fun _ => .ite (.ok _) (.bind (.validateSockaddrOutput _ _) fun _ => .ok _)
  -- the other arms check pointers one by one
  all_goals first
    | exact .ok _
    | exact .bind (.checked _ (.ok _)) fun _ => .ok _
    | exact .bind (.orNone (.checked _ (.ok _))) fun _ => .ok _
    | exact .bind (.checked _ (.ok _)) fun _ => .bind (.orNone (.checked _ (.ok _))) fun _ => .ok _
    | exact .bind (.orNone (.checked _ (.ok _))) fun _ => .bind (.orNone (.checked _ (.ok _))) fun _ => .ok _
    | exact .bind (.checked _ (.ok _)) fun _ => .ite (.ok _) (.bind (.checked _ (.ok _)) fun _ => .ok _)

/-- Only the arms that take a string can panic. -/
theorem dispatch_eq_panic {sysno : Sysno} {argv : Argv} : dispatch platform mem sysno argv = .error .panic ↔
      (sysno = .open_ ∨ sysno = .readlink) ∧ Unterminated platform mem argv.a := by
  obtain ⟨a, b, c, d, e, f⟩ := argv
  rw [← validateStr_eq_panic]
  constructor
  · intro h
    by_cases hopen : sysno = .open_
    · subst hopen
      refine ⟨.inl rfl, by_contra fun hstr => ?_⟩
      exact Steady.bind hstr (fun _ => .ok _) h
    · by_cases hreadlink : sysno = .readlink
      · subst hreadlink
        refine ⟨.inr rfl, by_contra fun hstr => ?_⟩
        exact Steady.bind hstr (fun _ => .bind (.checked _ (.ok _)) fun _ => .ok _) h
      · exact absurd h (dispatch_steady platform mem hopen hreadlink _)
  · rintro ⟨rfl | rfl, hstr⟩
    · change (platform.validateStr mem a >>= _) = _
      rw [hstr]
      rfl
    · change (platform.validateStr mem a >>= _) = _
      rw [hstr]
      rfl

end Enarx.Sallyport
