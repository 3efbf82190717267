import Mathlib.Data.List.Basic
import Mathlib.Logic.Function.Basic
import Mathlib.Order.Nat

/-!
# Radix trees of tables in memory

A table is an array of entries at an address. An entry points to another table
or it is a leaf, and a path of indices is followed from the root until a leaf is
met or the path ends: the last index always selects a leaf. The entries, the
addresses and what a lookup computes are arbitrary.
-/
namespace Enarx.Radix

variable {α ι ε β : Type*}

def tableAt (follow : ε → Option α) (mem : α → ι → ε) : α → List ι → Option α
  | table, [] => some table
  | table, i :: path => (follow (mem table i)).bind fun below => tableAt follow mem below path

/-- Looks for the leaf of a path and combines it with the pointers that led to it. -/
def lookup [Inhabited β] (follow : ε → Option α) (mem : α → ι → ε) (node : ε → β → β)
    (leaf : ε → List ι → β) : α → List ι → β
  | _, [] => default
  | table, [i] => leaf (mem table i) []
  | table, i :: j :: rest =>
    match follow (mem table i) with
    | some below => node (mem table i) (lookup follow mem node leaf below (j :: rest))
    | none => leaf (mem table i) (j :: rest)

def along (follow : ε → Option α) (mem : α → ι → ε) (node : ε → β → β) : α → List ι → β → β
  | _, [], value => value
  | table, i :: path, value =>
    match follow (mem table i) with
    | some below => node (mem table i) (along follow mem node below path value)
    | none => value

/-- No table is reached in two ways by paths of at most `depth` pointers. -/
def Tree (follow : ε → Option α) (mem : α → ι → ε) (depth : Nat) (root : α) : Prop :=
  ∀ p q table, p.length ≤ depth → q.length ≤ depth → tableAt follow mem root p = some table →
    tableAt follow mem root q = some table → p = q

section

variable {follow : ε → Option α} {mem mem' : α → ι → ε} {node : ε → β → β} {leaf : ε → List ι → β}
  {root table : α} {path rest : List ι} {i : ι}

@[simp] theorem tableAt_nil : tableAt follow mem root [] = some root := rfl

theorem tableAt_append (p q : List ι) : tableAt follow mem root (p ++ q) =
      (tableAt follow mem root p).bind fun table => tableAt follow mem table q := by
  induction p generalizing root with
  | nil => rfl
  | cons i p ih =>
    rw [List.cons_append, tableAt, tableAt, Option.bind_assoc]
    congr 1
    funext below
    exact ih

theorem tableAt_snoc (h : tableAt follow mem root path = some table) (i : ι) :
    tableAt follow mem root (path ++ [i]) = follow (mem table i) := by
  rw [tableAt_append, h, Option.bind_some, tableAt]
  cases follow (mem table i) <;> rfl

theorem tableAt_congr_follow (h : ∀ p i q, path = p ++ i :: q → ∀ table,
      tableAt follow mem root p = some table → follow (mem' table i) = follow (mem table i)) :
    tableAt follow mem' root path = tableAt follow mem root path := by
  induction path generalizing root with
  | nil => rfl
  | cons i path ih =>
    rw [tableAt, tableAt, h [] i path rfl root rfl]
    cases hbelow : follow (mem root i) with
    | none => rfl
    | some below =>
      apply ih
      intro p j q hpath table htable
      apply h (i :: p) j q (by rw [hpath, List.cons_append])
      rw [tableAt, hbelow]
      exact htable

theorem tableAt_congr (h : ∀ p i q, path = p ++ i :: q → ∀ table,
      tableAt follow mem root p = some table → mem' table i = mem table i) :
    tableAt follow mem' root path = tableAt follow mem root path :=
  tableAt_congr_follow fun p i q hpath table htable => by rw [h p i q hpath table htable]

variable [Inhabited β]

theorem lookup_singleton : lookup follow mem node leaf table [i] = leaf (mem table i) [] := rfl

theorem lookup_leaf (h : follow (mem table i) = none) :
    lookup follow mem node leaf table (i :: rest) = leaf (mem table i) rest := by
  cases rest with
  | nil => rfl
  | cons j rest => rw [lookup, h]

theorem lookup_pointer {below : α} (h : follow (mem table i) = some below) (hrest : rest ≠ []) :
    lookup follow mem node leaf table (i :: rest) =
      node (mem table i) (lookup follow mem node leaf below rest) := by
  cases rest with
  | nil => exact absurd rfl hrest
  | cons j rest => rw [lookup, h]

theorem lookup_append (h : tableAt follow mem root path = some table) (hrest : rest ≠ []) :
    lookup follow mem node leaf root (path ++ rest) =
      along follow mem node root path (lookup follow mem node leaf table rest) := by
  induction path generalizing root with
  | nil =>
    cases h
    rfl
  | cons i path ih =>
    rw [tableAt] at h
    obtain ⟨below, hbelow, h⟩ := Option.bind_eq_some_iff.mp h
    rw [List.cons_append, lookup_pointer hbelow (by simp [hrest]), along, hbelow, ih h]

theorem lookup_congr_follow (h : ∀ p i q, path = p ++ i :: q → ∀ table,
      tableAt follow mem root p = some table → follow (mem' table i) = follow (mem table i) ∧
        node (mem' table i) = node (mem table i) ∧
        (q = [] ∨ follow (mem table i) = none → leaf (mem' table i) q = leaf (mem table i) q)) :
    lookup follow mem' node leaf root path = lookup follow mem node leaf root path := by
  induction path generalizing root with
  | nil => rfl
  | cons i path ih =>
    obtain ⟨hfollow, hnode, hleaf⟩ := h [] i path rfl root rfl
    cases hbelow : follow (mem root i) with
    | none => rw [lookup_leaf hbelow, lookup_leaf (hfollow.trans hbelow), hleaf (.inr hbelow)]
    | some below =>
      rcases path with _ | ⟨j, path⟩
      · rw [lookup_singleton, lookup_singleton, hleaf (.inl rfl)]
      · rw [lookup_pointer hbelow (List.cons_ne_nil j path),
          lookup_pointer (hfollow.trans hbelow) (List.cons_ne_nil j path), hnode]
        congr 1
        apply ih
        intro p k q hpath table htable
        apply h (i :: p) k q (by rw [hpath, List.cons_append])
        rw [tableAt, hbelow]
        exact htable

theorem lookup_congr (h : ∀ p i q, path = p ++ i :: q → ∀ table,
      tableAt follow mem root p = some table → mem' table i = mem table i) :
    lookup follow mem' node leaf root path = lookup follow mem node leaf root path :=
  lookup_congr_follow fun p i q hpath table htable => by
    rw [h p i q hpath table htable]
    exact ⟨rfl, rfl, fun _ => rfl⟩

theorem lookup_map {γ : Type*} [Inhabited γ] {node' : ε → γ → γ} {leaf' : ε → List ι → γ} {g : β → γ}
    (hdefault : g default = default) (hnode : ∀ entry value, g (node entry value) = node' entry (g value))
    (hleaf : ∀ entry rest, g (leaf entry rest) = leaf' entry rest) :
    g (lookup follow mem node leaf root path) = lookup follow mem node' leaf' root path := by
  induction path generalizing root with
  | nil => exact hdefault
  | cons i path ih =>
    cases hbelow : follow (mem root i) with
    | none => rw [lookup_leaf hbelow, lookup_leaf hbelow, hleaf]
    | some below =>
      rcases path with _ | ⟨j, path⟩
      · rw [lookup_singleton, lookup_singleton, hleaf]
      · rw [lookup_pointer hbelow (List.cons_ne_nil j path),
          lookup_pointer hbelow (List.cons_ne_nil j path), hnode, ih]

omit [Inhabited β] in
theorem along_congr (h : ∀ p i q, path = p ++ i :: q → ∀ table,
      tableAt follow mem root p = some table → mem' table i = mem table i) (value : β) :
    along follow mem' node root path value = along follow mem node root path value := by
  induction path generalizing root with
  | nil => rfl
  | cons i path ih =>
    rw [along, along, h [] i path rfl root rfl]
    cases hbelow : follow (mem root i) with
    | none => rfl
    | some below =>
      dsimp only
      congr 1
      apply ih
      intro p k q hpath table htable
      apply h (i :: p) k q (by rw [hpath, List.cons_append])
      rw [tableAt, hbelow]
      exact htable

omit [Inhabited β] in
theorem along_comm {g : β → β} (h : ∀ entry value, node entry (g value) = g (node entry value)) (value : β) :
    along follow mem node root path (g value) = g (along follow mem node root path value) := by
  induction path generalizing root with
  | nil => rfl
  | cons i path ih =>
    rw [along, along]
    cases follow (mem root i) with
    | none => rfl
    | some below =>
      dsimp only
      rw [ih, h]

omit [Inhabited β] in
theorem along_id (value : β) : along follow mem (fun _ value => value) root path value = value := by
  induction path generalizing root with
  | nil => rfl
  | cons i path ih =>
    rw [along]
    cases follow (mem root i) with
    | none => rfl
    | some below => exact ih

theorem exists_leaf (follow : ε → Option α) (mem : α → ι → ε) (root : α) {path : List ι} (hpath : path ≠ []) :
    ∃ p i q table, path = p ++ i :: q ∧ tableAt follow mem root p = some table ∧
      (q ≠ [] → follow (mem table i) = none) := by
  induction path generalizing root with
  | nil => exact absurd rfl hpath
  | cons i path ih =>
    rcases path with _ | ⟨j, path⟩
    · exact ⟨[], i, [], root, rfl, rfl, fun h => absurd rfl h⟩
    · cases hbelow : follow (mem root i) with
      | none => exact ⟨[], i, j :: path, root, rfl, rfl, fun _ => hbelow⟩
      | some below =>
        obtain ⟨p, k, q, table, hsplit, htable, hleaf⟩ := ih below (List.cons_ne_nil j path)
        refine ⟨i :: p, k, q, table, by rw [hsplit, List.cons_append], ?_, hleaf⟩
        rw [tableAt, hbelow]
        exact htable

end

section

variable [DecidableEq α] [DecidableEq ι]

def set (mem : α → ι → ε) (table : α) (i : ι) (entry : ε) : α → ι → ε :=
  Function.update mem table (Function.update (mem table) i entry)

@[simp] theorem set_same (mem : α → ι → ε) (table : α) (i : ι) (entry : ε) :
    set mem table i entry table i = entry := by
  simp [set]

theorem set_index_ne (mem : α → ι → ε) (table : α) {i j : ι} (entry : ε) (h : j ≠ i) :
    set mem table i entry table j = mem table j := by
  simp [set, h]

theorem set_table_ne (mem : α → ι → ε) {table other : α} (i : ι) (entry : ε) (h : other ≠ table) :
    set mem table i entry other = mem other := by
  simp [set, h]

variable {follow : ε → Option α} {mem : α → ι → ε} {node : ε → β → β} {leaf : ε → List ι → β}
  {root table : α} {depth : Nat} {path : List ι} {i : ι} {entry : ε}

theorem Tree.set_ne (htree : Tree follow mem depth root)
    (htable : tableAt follow mem root path = some table) (hpath : path.length ≤ depth)
    {p : List ι} {j : ι} {other : α} (hp : p.length ≤ depth)
    (hother : tableAt follow mem root p = some other) (hne : ¬(p = path ∧ j = i)) :
    set mem table i entry other j = mem other j := by
  by_cases hsame : other = table
  · rw [hsame] at hother ⊢
    exact set_index_ne mem table entry fun hj =>
      hne ⟨htree p path table hp hpath hother htable, hj⟩
  · rw [set_table_ne mem i entry hsame]

section

variable (htree : Tree follow mem depth root) (htable : tableAt follow mem root path = some table)
  (hpath : path.length = depth)
include htree htable hpath

theorem Tree.tableAt_set {p : List ι} (hp : p.length ≤ depth) :
    tableAt follow (set mem table i entry) root p = tableAt follow mem root p := by
  apply tableAt_congr
  rintro p' j q rfl other hother
  rw [List.length_append, List.length_cons] at hp
  apply htree.set_ne htable (Nat.le_of_eq hpath) (by omega) hother
  rintro ⟨rfl, -⟩
  omega

theorem Tree.set : Tree follow (set mem table i entry) depth root := by
  intro p q other hp hq hpother hqother
  rw [htree.tableAt_set htable hpath hp] at hpother
  rw [htree.tableAt_set htable hpath hq] at hqother
  exact htree p q other hp hq hpother hqother

variable [Inhabited β]

theorem Tree.lookup_set_ne {p : List ι} (hp : p.length = depth + 1) (hne : p ≠ path ++ [i]) :
    lookup follow (Radix.set mem table i entry) node leaf root p = lookup follow mem node leaf root p := by
  apply lookup_congr
  rintro p' j q rfl other hother
  rw [List.length_append, List.length_cons] at hp
  apply htree.set_ne htable (Nat.le_of_eq hpath) (by omega) hother
  rintro ⟨rfl, rfl⟩
  have hq : q = [] := List.eq_nil_of_length_eq_zero (by omega)
  exact hne (by rw [hq])

theorem Tree.lookup_set_same : lookup follow (Radix.set mem table i entry) node leaf root (path ++ [i]) =
      along follow mem node root path (leaf entry []) := by
  rw [lookup_append ((htree.tableAt_set htable hpath (Nat.le_of_eq hpath)).trans htable)
    (List.cons_ne_nil i []), lookup_singleton, set_same]
  apply along_congr
  rintro p j q rfl other hother
  rw [List.length_append, List.length_cons] at hpath
  apply htree.set_ne htable (by simp; omega) (by omega) hother
  rintro ⟨hp, -⟩
  have := congrArg List.length hp
  simp at this

end

def graft (mem : α → ι → ε) (table : α) (i : ι) (entry : ε) (new : α) (entries : ι → ε) :
    α → ι → ε :=
  set (Function.update mem new entries) table i entry

theorem graft_same (mem : α → ι → ε) (table : α) (i : ι) (entry : ε) (new : α) (entries : ι → ε) :
    graft mem table i entry new entries table i = entry :=
  set_same _ table i entry

theorem graft_new (mem : α → ι → ε) {table new : α} (i : ι) (entry : ε) (entries : ι → ε)
    (h : new ≠ table) : graft mem table i entry new entries new = entries := by
  rw [graft, set_table_ne _ i entry h, Function.update_self]

section

variable {new : α} {entries : ι → ε} (htree : Tree follow mem depth root)
  (htable : tableAt follow mem root path = some table) (hpath : path.length < depth)
  (hfresh : ∀ p, p.length ≤ depth → tableAt follow mem root p ≠ some new)
include htree htable hpath hfresh

theorem Tree.graft_ne {p : List ι} {j : ι} {other : α} (hp : p.length ≤ depth)
    (hother : tableAt follow mem root p = some other) (hne : ¬(p = path ∧ j = i)) :
    graft mem table i entry new entries other j = mem other j := by
  have hnew : other ≠ new := fun h => hfresh p hp (h ▸ hother)
  have htableNew : table ≠ new := fun h => hfresh path hpath.le (h ▸ htable)
  by_cases hsame : other = table
  · rw [graft, hsame, set_index_ne, Function.update_of_ne htableNew]
    rintro rfl
    exact hne ⟨htree p path table hp hpath.le (hsame ▸ hother) htable, rfl⟩
  · rw [graft, set_table_ne _ i entry hsame, Function.update_of_ne hnew]

theorem Tree.tableAt_graft_ne {p : List ι} (hp : p.length ≤ depth) (hne : ¬path ++ [i] <+: p) :
    tableAt follow (graft mem table i entry new entries) root p = tableAt follow mem root p := by
  apply tableAt_congr
  rintro p' j q rfl other hother
  rw [List.length_append, List.length_cons] at hp
  apply htree.graft_ne htable hpath hfresh (by omega) hother
  rintro ⟨rfl, rfl⟩
  exact hne ⟨q, by simp⟩

theorem Tree.tableAt_graft_path :
    tableAt follow (graft mem table i entry new entries) root path = some table := by
  rw [htree.tableAt_graft_ne htable hpath hfresh hpath.le, htable]
  intro h
  have hlength := h.length_le
  rw [List.length_append, List.length_singleton] at hlength
  omega

theorem Tree.tableAt_graft_below (hentry : follow entry = some new) (p : List ι) :
    tableAt follow (graft mem table i entry new entries) root (path ++ i :: p) =
      tableAt follow (graft mem table i entry new entries) new p := by
  rw [tableAt_append, htree.tableAt_graft_path htable hpath hfresh, Option.bind_some, tableAt,
    graft_same, hentry, Option.bind_some]

theorem Tree.tableAt_graft (hleaf : follow (mem table i) = none) (hentry : follow entry = some new)
    (hentries : path.length + 2 ≤ depth → ∀ j, follow (entries j) = none) {p : List ι}
    (hp : p.length ≤ depth) {other : α} :
    tableAt follow (graft mem table i entry new entries) root p = some other ↔
      tableAt follow mem root p = some other ∨ p = path ++ [i] ∧ other = new := by
  have hnew : new ≠ table := fun h => hfresh path hpath.le (h ▸ htable)
  by_cases hstem : path ++ [i] <+: p
  · obtain ⟨q, rfl⟩ := hstem
    have hnone : tableAt follow mem root (path ++ i :: q) = none := by
      rw [tableAt_append, htable, Option.bind_some, tableAt, hleaf, Option.bind_none]
    rw [List.append_assoc, List.singleton_append, hnone,
      htree.tableAt_graft_below htable hpath hfresh hentry]
    rcases q with _ | ⟨j, q⟩
    · simp [eq_comm]
    · have hdepth : path.length + 2 ≤ depth := by
        simp only [List.length_append, List.length_cons] at hp
        omega
      rw [tableAt, graft_new mem i entry entries hnew, hentries hdepth j]
      simp
  · rw [htree.tableAt_graft_ne htable hpath hfresh hp hstem]
    constructor
    · exact .inl
    · rintro (h | ⟨rfl, -⟩)
      · exact h
      · exact absurd (List.prefix_refl _) hstem

theorem Tree.graft (hleaf : follow (mem table i) = none) (hentry : follow entry = some new)
    (hentries : path.length + 2 ≤ depth → ∀ j, follow (entries j) = none) :
    Tree follow (graft mem table i entry new entries) depth root := by
  intro p q other hp hq hpother hqother
  rw [htree.tableAt_graft htable hpath hfresh hleaf hentry hentries hp] at hpother
  rw [htree.tableAt_graft htable hpath hfresh hleaf hentry hentries hq] at hqother
  rcases hpother with hpother | ⟨rfl, rfl⟩ <;> rcases hqother with hqother | ⟨rfl, hother⟩
  · exact htree p q other hp hq hpother hqother
  · exact absurd (hother ▸ hpother) (hfresh p hp)
  · exact absurd hqother (hfresh q hq)
  · rfl

variable [Inhabited β]

theorem Tree.lookup_graft_ne {p : List ι} (hp : p.length = depth + 1) (hne : ¬path ++ [i] <+: p) :
    lookup follow (Radix.graft mem table i entry new entries) node leaf root p =
      lookup follow mem node leaf root p := by
  apply lookup_congr
  rintro p' j q rfl other hother
  rw [List.length_append, List.length_cons] at hp
  apply htree.graft_ne htable hpath hfresh (by omega) hother
  rintro ⟨rfl, rfl⟩
  exact hne ⟨q, by simp⟩

theorem Tree.lookup_graft_below (hentry : follow entry = some new)
    (hentries : path.length + 2 ≤ depth → ∀ j, follow (entries j) = none) (j : ι) {q : List ι}
    (hq : path.length + q.length + 1 = depth) :
    lookup follow (Radix.graft mem table i entry new entries) node leaf root (path ++ i :: j :: q) =
      along follow mem node root path (node entry (leaf (entries j) q)) := by
  have hnew : new ≠ table := fun h => hfresh path hpath.le (h ▸ htable)
  have hbelow : lookup follow (Radix.graft mem table i entry new entries) node leaf new (j :: q) =
      leaf (entries j) q := by
    rcases q with _ | ⟨k, q⟩
    · rw [lookup_singleton, graft_new mem i entry entries hnew]
    · rw [lookup_leaf, graft_new mem i entry entries hnew]
      rw [graft_new mem i entry entries hnew]
      rw [List.length_cons] at hq
      exact hentries (by omega) j
  rw [lookup_append (htree.tableAt_graft_path htable hpath hfresh) (List.cons_ne_nil i (j :: q)),
    lookup_pointer ((congrArg follow (graft_same mem table i entry new entries)).trans hentry)
      (List.cons_ne_nil j q), graft_same, hbelow]
  apply along_congr
  rintro p k r rfl other hother
  rw [List.length_append, List.length_cons] at hpath
  apply htree.graft_ne htable (by simp; omega) hfresh (by omega) hother
  rintro ⟨hp, -⟩
  have := congrArg List.length hp
  simp at this

end

end

end Enarx.Radix
