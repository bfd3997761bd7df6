import Mathlib.Data.List.Chain

/-!
# Tilings

Consecutive blocks, given by their ends, that cover the numbers from 1 on.
-/

namespace Scryd.Foundation

/-- The blocks follow each other from 1 up to a number, and none is larger than `size`. -/
structure Tiles (size : Nat) (blocks : List (Nat × Nat)) (upto : Nat) : Prop where
  consecutive : blocks.IsChain fun earlier later => later.1 = earlier.2 + 1
  last : ∀ block ∈ blocks.getLast?, block.2 = upto
  sized : ∀ block ∈ blocks, block.1 ≤ block.2 ∧ block.2 + 1 - block.1 ≤ size
  disjoint : blocks.Pairwise fun earlier later => earlier.2 < later.1
  covers : ∀ number, (∃ block ∈ blocks, block.1 ≤ number ∧ number ≤ block.2) ↔
    1 ≤ number ∧ number ≤ upto

variable {size upto : Nat} {blocks : List (Nat × Nat)}

theorem tiles_nil (size : Nat) : Tiles size [] 0 where
  consecutive := .nil
  last := nofun
  sized := nofun
  disjoint := .nil
  covers number := by
    simp only [List.not_mem_nil, false_and, exists_false, false_iff]
    omega

theorem Tiles.upto_le (tiles : Tiles size blocks upto) {block : Nat × Nat}
    (member : block ∈ blocks) : block.2 ≤ upto :=
  ((tiles.covers block.2).mp ⟨block, member, (tiles.sized block member).1, Nat.le_refl _⟩).2

theorem Tiles.eq_nil (tiles : Tiles size blocks 0) : blocks = [] := by
  rw [List.eq_nil_iff_forall_not_mem]
  intro block member
  have empty := (tiles.covers block.2).mp
    ⟨block, member, (tiles.sized block member).1, Nat.le_refl _⟩
  omega

/-- The next block extends a tiling. -/
theorem Tiles.append (tiles : Tiles size blocks upto) {hi : Nat} (nonempty : upto < hi)
    (fits : hi ≤ upto + size) : Tiles size (blocks ++ [(upto + 1, hi)]) hi where
  consecutive := by
    apply List.IsChain.append tiles.consecutive (List.isChain_singleton _)
    intro earlier isLast later isNext
    cases isNext
    rw [tiles.last earlier isLast]
  last := by
    intro block isLast
    rw [List.getLast?_concat] at isLast
    cases isLast
    rfl
  sized := by
    intro block member
    rcases List.mem_append.mp member with old | new
    · exact tiles.sized block old
    · rw [List.mem_singleton.mp new]
      exact ⟨nonempty, by omega⟩
  disjoint := by
    rw [List.pairwise_append]
    refine ⟨tiles.disjoint, List.pairwise_singleton _ _, fun earlier old later new => ?_⟩
    rw [List.mem_singleton.mp new]
    exact Nat.lt_succ_of_le (tiles.upto_le old)
  covers := by
    intro number
    simp only [List.mem_append, List.mem_singleton, or_and_right, exists_or, tiles.covers,
      exists_eq_left]
    omega

end Scryd.Foundation
