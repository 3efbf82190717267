import Enarx.Kvm.Boot
import Enarx.Kvm.Ownership

/-!
# The memory when the workload starts

The boot tables map the window and nothing else, so that every page of the memory has
one owner from the start on.
-/
namespace Enarx.Kvm

open PageTables

namespace BootTables

variable (c : CBit) (boot : BootTables) (rest : VirtAddr → PageTable)

def owner (free : Finset Nat) (n : Nat) : Owner :=
  if n ∈ boot.list.map VirtAddr.memPage then .table
  else if n ∈ free then .free
  else .outside

theorem owns {memory : Memory} (htables : memory.tables = boot.tables c rest) {bottom : Nat}
    (hfree : memory.allocator.free = Finset.Ico bottom memory.allocator.endOfMem)
    (hbottom : bottom ≤ memory.allocator.endOfMem) (hboot : ∀ table ∈ boot.list, table.memPage < bottom) :
    memory.Owns c bottom ∅ (boot.owner memory.allocator.free) := by
  have hbelow : ∀ n ∈ boot.list.map VirtAddr.memPage, n < bottom := by
    intro n hn
    obtain ⟨table, htable, rfl⟩ := List.mem_map.mp hn
    exact hboot table htable
  have habove : ∀ n, bottom ≤ n → boot.owner memory.allocator.free n =
      if n < memory.allocator.endOfMem then .free else .outside := by
    intro n hn
    have hnot : n ∉ boot.list.map VirtAddr.memPage := fun hmem => absurd (hbelow n hmem) (Nat.not_lt.mpr hn)
    rw [owner, if_neg hnot, hfree]
    simp [hn]
  exact {
    tidy := htables ▸ boot.tidy c rest
    window := by
      intro addr haddr
      rw [← Option.ne_none_iff_isSome]
      intro hnone
      have hframe := frame?_of_none hnone
      rw [htables, frame?, access_eq, if_pos (VirtAddr.inWindow_iff.mp haddr)] at hframe
      cases hframe
    table := by
      intro path table hpath htable
      rw [htables] at htable
      have hmem : table ∈ boot.list := by
        rcases boot.tableAt_cases c rest hpath htable with ⟨-, rfl⟩ | ⟨-, rfl⟩ | ⟨-, rfl⟩ | ⟨-, rfl⟩ <;> simp [list]
      exact if_pos (List.mem_map_of_mem hmem)
    user := by
      intro addr n haddr _ hframe
      rw [htables, frame?, Option.map_eq_some_iff] at hframe
      obtain ⟨mapping, hmapping, -⟩ := hframe
      exact absurd (boot.inWindow_of_mapped c rest (Option.isSome_of_eq_some hmapping)) haddr
    stale := fun _ haddr => haddr.elim
    free_iff := by
      intro n
      by_cases hn : bottom ≤ n
      · rw [habove n hn, hfree]
        simp [hn]
      · rw [owner, hfree]
        split
        · simp [hn]
        · simp [hn]
    unborn := by
      intro n hn
      rw [habove n (hbottom.trans hn), if_neg (Nat.not_lt.mpr hn)]
    born := by
      intro n hlo hhi
      rw [habove n hlo, if_pos hhi]
      simp
    bottom_le := by
      intro n
      by_cases hn : bottom ≤ n
      · exact .inl hn
      · rw [owner, hfree]
        split
        · exact .inr (.inr rfl)
        · simp [hn]
    bottom_le_end := hbottom }

end BootTables

end Enarx.Kvm
