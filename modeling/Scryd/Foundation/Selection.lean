import Scryd.Foundation.Ranking

/-!
# Bounded selections from a ranking

A pool of entries is ranked by score, best first, with ties in an order that
nothing determines.  The best `bound` entries are kept, the visible ones among
them selected, and the first `limit` of these are the answer.  How many entries
outscore an entry decides whether the answer can show it, and how many score at
least as much whether it always does.
-/

namespace Scryd.Foundation

universe u v

variable {Entry : Type u} {Score : Type v} [LinearOrder Score]

/-- A ranking of a pool: best scores first. -/
structure Ranks (score : Entry → Score) (pool ranked : List Entry) : Prop where
  perm : ranked.Perm pool
  sorted : ranked.Pairwise fun earlier later => score later ≤ score earlier

def selectBest (bound limit : Nat) (visible : Entry → Bool) (ranked : List Entry) : List Entry :=
  ((ranked.take bound).filter visible).take limit

/-- How many entries of a pool outscore an entry. -/
def above (score : Entry → Score) (pool : List Entry) (entry : Entry) : Nat :=
  pool.countP fun other => decide (score entry < score other)

/-- How many entries of a pool score at least as much. -/
def atLeast (score : Entry → Score) (pool : List Entry) (entry : Entry) : Nat :=
  pool.countP fun other => decide (score entry ≤ score other)

/-- Some ranking of the pool shows the entry. -/
structure CanShow (score : Entry → Score) (bound limit : Nat) (visible : Entry → Bool)
    (pool : List Entry) (entry : Entry) : Prop where
  member : entry ∈ pool
  kept : above score pool entry < bound
  shown : above score (pool.filter visible) entry < limit

/-- The ties around the entry make no difference: all of them are kept, and none is visible. -/
structure TieFree (score : Entry → Score) (bound : Nat) (visible : Entry → Bool)
    (pool : List Entry) (entry : Entry) : Prop where
  kept : atLeast score pool entry ≤ bound
  alone : ∀ other ∈ pool, visible other = true → score other = score entry → other = entry

variable {score : Entry → Score} {bound limit : Nat} {visible : Entry → Bool}

theorem above_perm {left right : List Entry} (same : left.Perm right) (entry : Entry) :
    above score left entry = above score right entry := same.countP_eq _

/-- No entry outscores itself. -/
theorem above_cons_self (pool : List Entry) (entry : Entry) :
    above score (entry :: pool) entry = above score pool entry := by
  simp [above]

theorem above_eq_length {pool : List Entry} {entry : Entry}
    (outscored : ∀ other ∈ pool, score entry < score other) :
    above score pool entry = pool.length := by
  apply List.countP_eq_length.mpr
  intro other member
  exact decide_eq_true (outscored other member)

theorem exists_ranks (score : Entry → Score) (pool : List Entry) :
    ∃ ranked, Ranks score pool ranked := by
  refine ⟨sortBy (fun entry => OrderDual.toDual (score entry)) pool, sortBy_perm _ _, ?_⟩
  exact (sortBy_sorted (fun entry => OrderDual.toDual (score entry)) pool).imp
    fun {first second} ordered => ordered

section Split

/-- In a ranking, an entry comes after all that outscore it and before the lower ones. -/
theorem above_le_and_lt_atLeast {before after : List Entry} {entry : Entry}
    (sorted : (before ++ entry :: after).Pairwise fun earlier later =>
      score later ≤ score earlier) :
    above score (before ++ entry :: after) entry ≤ before.length ∧
      before.length < atLeast score (before ++ entry :: after) entry := by
  obtain ⟨_, lower, higher⟩ := List.pairwise_append.mp sorted
  have noneAfter : after.countP (fun other => decide (score entry < score other)) = 0 := by
    rw [List.countP_eq_zero]
    intro other member
    simpa using (List.pairwise_cons.mp lower).1 other member
  have allBefore : before.countP (fun other => decide (score entry ≤ score other)) =
      before.length := by
    rw [List.countP_eq_length]
    intro other member
    simpa using higher other member entry List.mem_cons_self
  constructor
  · simp only [above, List.countP_append, List.countP_cons, noneAfter]
    simpa using List.countP_le_length
  · simp only [atLeast, List.countP_append, List.countP_cons, allBefore]
    simp

theorem mem_take_split_iff {before after : List Entry} {entry : Entry} (fresh : entry ∉ before)
    (count : Nat) : entry ∈ (before ++ entry :: after).take count ↔ before.length < count := by
  rw [List.take_append, List.mem_append]
  constructor
  · rintro (early | late)
    · exact absurd (List.mem_of_mem_take early) fresh
    · by_contra short
      rw [Nat.sub_eq_zero_of_le (by omega)] at late
      cases late
  · intro room
    right
    obtain ⟨extra, isExtra⟩ : ∃ extra, count - before.length = extra + 1 :=
      ⟨count - before.length - 1, by omega⟩
    rw [isExtra]
    exact List.mem_cons_self

/-- When a selection shows a visible entry, and at which place. -/
theorem mem_selectBest_split_iff {before after : List Entry} {entry : Entry}
    (fresh : entry ∉ before) (isVisible : visible entry = true) :
    (entry ∈ selectBest bound limit visible (before ++ entry :: after) ↔
      before.length < bound ∧ (before.filter visible).length < limit) ∧
    (before.length < bound → (before.filter visible).length < limit →
      (selectBest bound limit visible (before ++ entry :: after))[
        (before.filter visible).length]? = some entry) := by
  have shape : before.length < bound →
      ((before ++ entry :: after).take bound).filter visible = before.filter visible ++
        entry :: (after.take (bound - before.length - 1)).filter visible := by
    intro room
    obtain ⟨extra, isExtra⟩ : ∃ extra, bound - before.length = extra + 1 :=
      ⟨bound - before.length - 1, by omega⟩
    rw [List.take_append, List.take_of_length_le (by omega), isExtra]
    simp [isVisible]
  have freshVisible : entry ∉ before.filter visible := fun member =>
    fresh (List.mem_of_mem_filter member)
  constructor
  · constructor
    · intro selected
      have kept := List.mem_of_mem_filter (List.mem_of_mem_take selected)
      have room := (mem_take_split_iff fresh bound).mp kept
      rw [selectBest, shape room] at selected
      exact ⟨room, (mem_take_split_iff freshVisible limit).mp selected⟩
    · rintro ⟨room, place⟩
      rw [selectBest, shape room]
      exact (mem_take_split_iff freshVisible limit).mpr place
  · intro room place
    rw [selectBest, shape room, List.getElem?_take_of_lt place]
    simp

end Split

section Selected

variable {pool ranked : List Entry} {entry : Entry}

/-- A ranking split at an entry of the pool. -/
theorem Ranks.split (ranks : Ranks score pool ranked) (nodup : pool.Nodup)
    (member : entry ∈ pool) :
    ∃ before after, ranked = before ++ entry :: after ∧ entry ∉ before ∧
      above score pool entry ≤ before.length ∧ before.length < atLeast score pool entry ∧
      (visible entry = true →
        above score (pool.filter visible) entry ≤ (before.filter visible).length) ∧
      ∀ other ∈ before, score entry ≤ score other := by
  obtain ⟨before, after, rfl⟩ := List.append_of_mem (ranks.perm.mem_iff.mpr member)
  have counts := above_le_and_lt_atLeast ranks.sorted
  have fresh : entry ∉ before := by
    have distinct := ranks.perm.nodup_iff.mpr nodup
    rw [List.nodup_append] at distinct
    exact fun early => distinct.2.2 entry early entry List.mem_cons_self rfl
  refine ⟨before, after, rfl, fresh, ?_, ?_, ?_, ?_⟩
  · rw [← above_perm ranks.perm]
    exact counts.1
  · rw [atLeast, ← ranks.perm.countP_eq]
    exact counts.2
  · intro isVisible
    have filtered := ranks.sorted.filter visible
    rw [List.filter_append, List.filter_cons_of_pos isVisible] at filtered
    have visibleCount := (above_le_and_lt_atLeast filtered).1
    rw [← above_perm (ranks.perm.filter visible), List.filter_append,
      List.filter_cons_of_pos isVisible]
    exact visibleCount
  · intro other early
    exact (List.pairwise_append.mp ranks.sorted).2.2 other early entry List.mem_cons_self

/-- What a selection shows, it can show. -/
theorem Ranks.canShow (ranks : Ranks score pool ranked) (nodup : pool.Nodup)
    (selected : entry ∈ selectBest bound limit visible ranked) :
    visible entry = true ∧ CanShow score bound limit visible pool entry := by
  have kept := List.mem_of_mem_take selected
  have isVisible := List.of_mem_filter kept
  have member := ranks.perm.mem_iff.mp (List.mem_of_mem_take (List.mem_of_mem_filter kept))
  obtain ⟨before, after, rfl, fresh, aboveAll, _, aboveVisible, _⟩ :=
    @Ranks.split _ _ _ score visible pool ranked entry ranks nodup member
  obtain ⟨room, place⟩ := (mem_selectBest_split_iff fresh isVisible).1.mp selected
  exact ⟨isVisible, member, aboveAll.trans_lt room, (aboveVisible isVisible).trans_lt place⟩

/-- Without ties that matter, what can be shown is shown. -/
theorem CanShow.selected (can : CanShow score bound limit visible pool entry)
    (tieFree : TieFree score bound visible pool entry) (isVisible : visible entry = true)
    (ranks : Ranks score pool ranked) (nodup : pool.Nodup) :
    entry ∈ selectBest bound limit visible ranked := by
  obtain ⟨before, after, rfl, fresh, _, belowAtLeast, _, higher⟩ :=
    @Ranks.split _ _ _ score visible pool ranked entry ranks nodup can.member
  refine (mem_selectBest_split_iff fresh isVisible).1.mpr ⟨?_, ?_⟩
  · exact belowAtLeast.trans_le tieFree.kept
  · have strict : (before.filter visible).countP
        (fun other => decide (score entry < score other)) = (before.filter visible).length := by
      rw [List.countP_eq_length]
      intro other member
      obtain ⟨early, otherVisible⟩ := List.mem_filter.mp member
      have stored := ranks.perm.mem_iff.mp (List.mem_append_left _ early)
      have different : score other ≠ score entry := by
        intro tie
        rw [tieFree.alone other stored otherVisible tie] at early
        exact fresh early
      simpa using lt_of_le_of_ne (higher other early) different.symm
    have counted : (before.filter visible).length ≤ above score (pool.filter visible) entry := by
      rw [above, ← (ranks.perm.filter visible).countP_eq, List.filter_append,
        List.countP_append, strict]
      exact Nat.le_add_right _ _
    exact counted.trans_lt can.shown

/-- Ties may fall on either side of an entry: any part of the pool that lies above it,
with as many of the ties as wanted, can come first. -/
theorem exists_ranks_split {front back : List Entry} (first : Entry → Bool)
    (higher : ∀ other ∈ front ++ back, first other = true → score entry ≤ score other)
    (lower : ∀ other ∈ front ++ back, first other = false → score other ≤ score entry) :
    ∃ before after, Ranks score (front ++ entry :: back) (before ++ entry :: after) ∧
      before.Perm ((front ++ back).filter first) := by
  obtain ⟨before, beforeRanks⟩ := exists_ranks score ((front ++ back).filter first)
  obtain ⟨after, afterRanks⟩ :=
    exists_ranks score ((front ++ back).filter fun other => !first other)
  have beforeHigher : ∀ other ∈ before, score entry ≤ score other := by
    intro other member
    obtain ⟨stored, isFirst⟩ := List.mem_filter.mp (beforeRanks.perm.mem_iff.mp member)
    exact higher other stored isFirst
  have afterLower : ∀ other ∈ after, score other ≤ score entry := by
    intro other member
    obtain ⟨stored, isLast⟩ := List.mem_filter.mp (afterRanks.perm.mem_iff.mp member)
    exact lower other stored (by simpa using isLast)
  refine ⟨before, after, ⟨?_, ?_⟩, beforeRanks.perm⟩
  · have parts : (before ++ after).Perm (front ++ back) :=
      (beforeRanks.perm.append afterRanks.perm).trans (List.filter_append_perm first _)
    exact List.perm_middle.trans ((parts.cons entry).trans List.perm_middle.symm)
  · rw [List.pairwise_append, List.pairwise_cons]
    refine ⟨beforeRanks.sorted, ⟨afterLower, afterRanks.sorted⟩, ?_⟩
    intro earlier early later late
    rcases List.mem_cons.mp late with rfl | after
    · exact beforeHigher earlier early
    · exact (afterLower later after).trans (beforeHigher earlier early)

/-- What can be shown is shown by a ranking that puts the entry before its ties, right after
the visible entries that outscore it. -/
theorem CanShow.exists_selected (can : CanShow score bound limit visible pool entry)
    (nodup : pool.Nodup) (isVisible : visible entry = true) :
    ∃ ranked, Ranks score pool ranked ∧ entry ∈ selectBest bound limit visible ranked ∧
      (selectBest bound limit visible ranked)[above score (pool.filter visible) entry]? =
        some entry := by
  obtain ⟨front, back, rfl⟩ := List.append_of_mem can.member
  have others : above score (front ++ entry :: back) entry =
      ((front ++ back).filter fun other => decide (score entry < score other)).length := by
    simp [above, List.countP_eq_length_filter]
  have visibleOthers : above score ((front ++ entry :: back).filter visible) entry =
      (((front ++ back).filter fun other => decide (score entry < score other)).filter
        visible).length := by
    rw [List.filter_filter, List.filter_append, above, List.countP_append]
    simp [isVisible, List.countP_eq_length_filter, List.filter_filter, Bool.and_comm]
  obtain ⟨before, after, ranks, isFront⟩ := @exists_ranks_split _ _ _ score entry front back
    (fun other => decide (score entry < score other))
    (fun other _ outscores => (of_decide_eq_true outscores).le)
    (fun other _ not => not_lt.mp (of_decide_eq_false not))
  have fresh : entry ∉ before := by
    intro early
    have outscores := List.of_mem_filter (isFront.mem_iff.mp early)
    simp at outscores
  have room : before.length < bound := by
    rw [isFront.length_eq, ← others]
    exact can.kept
  have place : (before.filter visible).length = above score
      ((front ++ entry :: back).filter visible) entry := by
    rw [(isFront.filter visible).length_eq, visibleOthers]
  have shown : (before.filter visible).length < limit := by
    rw [place]
    exact can.shown
  obtain ⟨selected, found⟩ := @mem_selectBest_split_iff _ bound limit visible before after entry
    fresh isVisible
  refine ⟨before ++ entry :: after, ranks, selected.mpr ⟨room, shown⟩, ?_⟩
  rw [← place]
  exact found room shown

/-- If every ranking shows the same, ties around what is shown make no difference. -/
theorem CanShow.tieFree (can : CanShow score bound limit visible pool entry)
    (nodup : pool.Nodup) (isVisible : visible entry = true) {answer : List Entry}
    (always : ∀ ranked, Ranks score pool ranked →
      selectBest bound limit visible ranked = answer) :
    TieFree score bound visible pool entry := by
  obtain ⟨firstRanked, firstRanks, selected, place⟩ := can.exists_selected nodup isVisible
  rw [always firstRanked firstRanks] at selected place
  constructor
  · obtain ⟨front, back, rfl⟩ := List.append_of_mem can.member
    obtain ⟨before, after, ranks, isFront⟩ := @exists_ranks_split _ _ _ score entry front back
      (fun other => decide (score entry ≤ score other))
      (fun other _ least => of_decide_eq_true least)
      (fun other _ not => (not_le.mp (of_decide_eq_false not)).le)
    have notAmong : entry ∉ front ++ back := by
      have moved : (entry :: (front ++ back)).Nodup :=
        (List.perm_middle.nodup_iff).mp nodup
      exact (List.nodup_cons.mp moved).1
    have fresh : entry ∉ before := fun early =>
      notAmong (List.mem_of_mem_filter (isFront.mem_iff.mp early))
    rw [← always _ ranks] at selected
    have room := ((mem_selectBest_split_iff fresh isVisible).1.mp selected).1
    have counted : atLeast score (front ++ entry :: back) entry = before.length + 1 := by
      rw [isFront.length_eq]
      simp [atLeast, List.countP_eq_length_filter]
      omega
    omega
  · intro other stored otherVisible tie
    have otherCan : CanShow score bound limit visible pool other := by
      refine ⟨stored, ?_, ?_⟩
      · simpa only [above, tie] using can.kept
      · simpa only [above, tie] using can.shown
    obtain ⟨otherRanked, otherRanks, _, otherPlace⟩ :=
      otherCan.exists_selected nodup otherVisible
    rw [always otherRanked otherRanks] at otherPlace
    have samePlace : above score (pool.filter visible) other =
        above score (pool.filter visible) entry := by
      simp only [above, tie]
    rw [samePlace, place] at otherPlace
    exact (Option.some.inj otherPlace).symm

end Selected

/-- Two pools give the same answer for every order of the ties exactly when whatever one of
them can show, both show whatever the ties. -/
theorem selectBest_eq_iff {left right : List Entry} (leftNodup : left.Nodup)
    (rightNodup : right.Nodup) :
    (∀ leftRanked rightRanked, Ranks score left leftRanked → Ranks score right rightRanked →
      selectBest bound limit visible leftRanked = selectBest bound limit visible rightRanked) ↔
    ∀ entry, visible entry = true →
      (CanShow score bound limit visible left entry ∨
        CanShow score bound limit visible right entry) →
      (CanShow score bound limit visible left entry ∧
        TieFree score bound visible left entry) ∧
      (CanShow score bound limit visible right entry ∧
        TieFree score bound visible right entry) := by
  constructor
  · intro same entry isVisible canShow
    obtain ⟨leftRanked, leftRanks⟩ := exists_ranks score left
    obtain ⟨rightRanked, rightRanks⟩ := exists_ranks score right
    have leftAlways := fun ranked (ranks : Ranks score left ranked) =>
      same ranked rightRanked ranks rightRanks
    have rightAlways := fun ranked (ranks : Ranks score right ranked) =>
      (same leftRanked ranked leftRanks ranks).symm
    have leftCan : CanShow score bound limit visible left entry := by
      rcases canShow with can | can
      · exact can
      · obtain ⟨ranked, ranks, selected, _⟩ := can.exists_selected rightNodup isVisible
        rw [rightAlways ranked ranks] at selected
        exact (leftRanks.canShow leftNodup selected).2
    have rightCan : CanShow score bound limit visible right entry := by
      obtain ⟨ranked, ranks, selected, _⟩ := leftCan.exists_selected leftNodup isVisible
      rw [leftAlways ranked ranks] at selected
      exact (rightRanks.canShow rightNodup selected).2
    exact ⟨⟨leftCan, leftCan.tieFree leftNodup isVisible leftAlways⟩,
      rightCan, rightCan.tieFree rightNodup isVisible rightAlways⟩
  · intro decided leftRanked rightRanked leftRanks rightRanks
    have sameMembers : ∀ entry, entry ∈ selectBest bound limit visible leftRanked ↔
        entry ∈ selectBest bound limit visible rightRanked := by
      intro entry
      constructor
      · intro selected
        obtain ⟨isVisible, can⟩ := leftRanks.canShow leftNodup selected
        have right := (decided entry isVisible (.inl can)).2
        exact right.1.selected right.2 isVisible rightRanks rightNodup
      · intro selected
        obtain ⟨isVisible, can⟩ := rightRanks.canShow rightNodup selected
        have left := (decided entry isVisible (.inr can)).1
        exact left.1.selected left.2 isVisible leftRanks leftNodup
    have sublist : ∀ ranked, (selectBest bound limit visible ranked).Sublist ranked := fun ranked =>
      (List.take_sublist _ _).trans (List.filter_sublist.trans (List.take_sublist _ _))
    apply eq_of_perm_of_sorted (fun entry => OrderDual.toDual (score entry))
    · apply (List.perm_ext_iff_of_nodup _ _).mpr sameMembers
      · exact (leftRanks.perm.nodup_iff.mpr leftNodup).sublist (sublist leftRanked)
      · exact (rightRanks.perm.nodup_iff.mpr rightNodup).sublist (sublist rightRanked)
    · intro first firstIn second secondIn tie
      obtain ⟨firstVisible, firstCan⟩ := leftRanks.canShow leftNodup firstIn
      obtain ⟨secondVisible, secondCan⟩ := leftRanks.canShow leftNodup secondIn
      exact (decided second secondVisible (.inl secondCan)).1.2.alone first firstCan.member
        firstVisible tie
    · exact leftRanks.sorted.sublist (sublist leftRanked)
    · exact rightRanks.sorted.sublist (sublist rightRanked)

end Scryd.Foundation
