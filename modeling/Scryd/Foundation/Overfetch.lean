import Scryd.Foundation.Ranking
import Mathlib.Data.List.Dedup

/-!
# Fetching more than is wanted

A service hands over its best entries; the caller collapses them to one entry
for each key.  If no key has more than `bound` entries, asking for `bound` times
the wanted number of keys is enough.
-/

namespace Scryd.Foundation

universe u v w

variable {Entry : Type u} {Key : Type v} {Score : Type w} [LinearOrder Score]
  {score : Entry → Score} {count : Nat} {pool taken : List Entry}

/-- The best `count` entries of a pool in any order, or all of them if there are fewer: nothing
that is left behind has a higher score. -/
structure BestOf (score : Entry → Score) (count : Nat) (pool taken : List Entry) : Prop where
  parts : ∃ left, (taken ++ left).Perm pool ∧
    ∀ kept ∈ taken, ∀ other ∈ left, score other ≤ score kept
  length : taken.length = min count pool.length

theorem BestOf.subset (best : BestOf score count pool taken) {entry : Entry}
    (isTaken : entry ∈ taken) : entry ∈ pool := by
  obtain ⟨left, whole, _⟩ := best.parts
  exact whole.mem_iff.mp (List.mem_append_left _ isTaken)

theorem BestOf.taken_or_below (best : BestOf score count pool taken) {entry : Entry}
    (inPool : entry ∈ pool) : entry ∈ taken ∨ ∀ kept ∈ taken, score entry ≤ score kept := by
  obtain ⟨left, whole, below⟩ := best.parts
  rcases List.mem_append.mp (whole.mem_iff.mpr inPool) with isTaken | isLeft
  · exact .inl isTaken
  · exact .inr fun kept keptTaken => below kept keptTaken entry isLeft

/-- The best entries of a key that was handed over are among what was handed over. -/
theorem BestOf.dominated (best : BestOf score count pool taken) (key : Entry → Key)
    {entry : Entry} (inPool : entry ∈ pool) (keyTaken : key entry ∈ taken.map key) :
    ∃ kept ∈ taken, key kept = key entry ∧ score entry ≤ score kept := by
  rcases best.taken_or_below inPool with isTaken | below
  · exact ⟨entry, isTaken, rfl, le_refl _⟩
  · obtain ⟨kept, keptTaken, same⟩ := List.mem_map.mp keyTaken
    exact ⟨kept, keptTaken, same, below kept keptTaken⟩

/-- The first entries of a ranking are the best ones. -/
theorem bestOf_take_sortBy {Rank : Type w} [LinearOrder Rank] (rank : Entry → Rank)
    (refines : ∀ first second, rank first ≤ rank second → score second ≤ score first)
    (count : Nat) (pool : List Entry) :
    BestOf score count pool ((sortBy rank pool).take count) where
  parts := by
    refine ⟨(sortBy rank pool).drop count, ?_, ?_⟩
    · rw [List.take_append_drop]
      exact sortBy_perm rank pool
    · intro kept keptTaken other isLeft
      have sorted := sortBy_sorted rank pool
      rw [← List.take_append_drop count (sortBy rank pool), List.pairwise_append] at sorted
      exact refines kept other (sorted.2.2 kept keptTaken other isLeft)
  length := by rw [List.length_take, (sortBy_perm rank pool).length_eq]

section Filter

variable {fetched wanted : Nat} {ranked : List Entry} (keep : Entry → Bool)

/-- What passes a filter is still the best of what can pass, if the entries that cannot pass are
too few to crowd out the wanted number. -/
theorem BestOf.filter (best : BestOf score fetched pool ranked)
    (sorted : ranked.Pairwise fun earlier later => score later ≤ score earlier)
    (few : (pool.filter fun entry => !keep entry).length + wanted ≤ fetched) :
    BestOf score wanted (pool.filter keep) ((ranked.filter keep).take wanted) where
  parts := by
    obtain ⟨left, whole, below⟩ := best.parts
    refine ⟨(ranked.filter keep).drop wanted ++ left.filter keep, ?_, ?_⟩
    · rw [← List.append_assoc, List.take_append_drop, ← List.filter_append]
      exact whole.filter keep
    · intro kept keptTaken other isLeft
      have keptRanked := List.mem_of_mem_take keptTaken
      rcases List.mem_append.mp isLeft with behind | notRanked
      · have order := sorted.sublist (List.filter_sublist (p := keep))
        rw [← List.take_append_drop wanted (ranked.filter keep), List.pairwise_append] at order
        exact order.2.2 kept keptTaken other behind
      · exact below kept (List.mem_of_mem_filter keptRanked) other
          (List.mem_of_mem_filter notRanked)
  length := by
    obtain ⟨left, whole, _⟩ := best.parts
    have all := best.length
    have passing := (whole.filter keep).length_eq
    have others := (whole.filter fun entry => !keep entry).length_eq
    have together := whole.length_eq
    have rankedSplit := List.length_eq_length_filter_add (l := ranked) keep
    have leftSplit := List.length_eq_length_filter_add (l := left) keep
    rw [List.filter_append, List.length_append] at passing others
    rw [List.length_append] at together
    rw [List.length_take]
    omega

end Filter

section Keys

variable [DecidableEq Key]

theorem length_keepFirst (key : Entry → Key) (entries : List Entry) :
    (keepFirst key entries).length = (entries.map key).dedup.length := by
  rw [← List.length_map (f := key)]
  apply List.Perm.length_eq
  apply (List.perm_ext_iff_of_nodup (keepFirst_nodup key entries) (List.nodup_dedup _)).mpr
  intro value
  rw [mem_keys_keepFirst, List.mem_dedup]

/-- As many keys were handed over as are wanted, or as there are. -/
theorem BestOf.length_keys {bound wanted : Nat}
    (best : BestOf score (wanted * bound) pool taken) (key : Entry → Key)
    (bounded : ∀ value,
      (pool.filter fun entry => decide (key entry = value)).length ≤ bound) :
    min wanted (taken.map key).dedup.length = min wanted (pool.map key).dedup.length := by
  have fewer : (taken.map key).dedup.length ≤ (pool.map key).dedup.length := by
    apply (List.subperm_of_subset (List.nodup_dedup _) _).length_le
    intro value member
    rw [List.mem_dedup] at member ⊢
    obtain ⟨entry, isTaken, rfl⟩ := List.mem_map.mp member
    exact List.mem_map_of_mem (best.subset isTaken)
  obtain ⟨left, whole, _⟩ := best.parts
  by_cases everything : pool.length ≤ wanted * bound
  · have nothingLeft : left = [] := by
      have lengths := whole.length_eq
      have all := best.length
      rw [List.length_append] at lengths
      apply List.eq_nil_of_length_eq_zero
      omega
    rw [nothingLeft, List.append_nil] at whole
    rw [((whole.map key).dedup).length_eq]
  · have takenBounded : ∀ value,
        (taken.filter fun entry => decide (key entry = value)).length ≤ bound := by
      intro value
      refine ((List.sublist_append_left taken left).filter _).length_le.trans ?_
      rw [(whole.filter _).length_eq]
      exact bounded value
    have room := length_le_mul_keepFirst key bound _ taken (Nat.le_refl _) takenBounded
    rw [length_keepFirst, best.length, Nat.min_eq_left (by omega), Nat.mul_comm wanted] at room
    have positive : 0 < bound := by
      cases pool with
      | nil => simp at everything
      | cons entry rest =>
          have some_entry := bounded (key entry)
          simp only [List.filter_cons, decide_true, if_true, List.length_cons] at some_entry
          omega
    have enough := Nat.le_of_mul_le_mul_left room positive
    omega

end Keys

end Scryd.Foundation
