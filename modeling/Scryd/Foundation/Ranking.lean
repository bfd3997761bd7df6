import Mathlib.Data.List.Pairwise
import Mathlib.Data.List.Nodup
import Mathlib.Data.List.Perm.Basic
import Mathlib.Data.List.Sort
import Mathlib.Data.Prod.Lex
import Mathlib.Order.Lattice

/-!
# Rankings and the first entry of each key

`keepFirst` collapses a list to the first entry of every key.  Applied to a
ranking it keeps the best entry of every key, and cutting the ranking before
collapsing it loses nothing as long as the cut leaves room for every
occurrence of the keys that are kept.
-/

namespace Scryd.Foundation

universe u v

variable {Entry : Type u} {Key : Type v}

/-- Lists that name the same keys are the same where the key tells their members apart. -/
theorem eq_of_map_eq {left right : List Entry} {key : Entry → Key}
    (sameKeys : left.map key = right.map key)
    (apart : ∀ first ∈ left, ∀ second ∈ right, key first = key second → first = second) :
    left = right := by
  induction left generalizing right with
  | nil =>
      cases right with
      | nil => rfl
      | cons other tail => cases sameKeys
  | cons entry rest inductionHypothesis =>
      cases right with
      | nil => cases sameKeys
      | cons other tail =>
          obtain ⟨sameKey, sameRest⟩ := List.cons.inj sameKeys
          rw [apart entry List.mem_cons_self other List.mem_cons_self sameKey,
            inductionHypothesis sameRest fun first firstIn second secondIn =>
              apart first (List.mem_cons_of_mem entry firstIn)
                second (List.mem_cons_of_mem other secondIn)]

section KeepFirst

variable [DecidableEq Key]

/-- Keep the first entry of each key, in the order of the list. -/
def keepFirst (key : Entry → Key) : List Entry → List Entry
  | [] => []
  | entry :: rest =>
      entry :: (keepFirst key rest).filter fun later => decide (key later ≠ key entry)

@[simp] theorem keepFirst_nil (key : Entry → Key) : keepFirst key [] = [] := rfl

theorem keepFirst_sublist (key : Entry → Key) (entries : List Entry) :
    (keepFirst key entries).Sublist entries := by
  induction entries with
  | nil => exact List.Sublist.refl _
  | cons entry rest inductionHypothesis =>
      exact (List.filter_sublist.trans inductionHypothesis).cons_cons entry

theorem keepFirst_nodup (key : Entry → Key) (entries : List Entry) :
    ((keepFirst key entries).map key).Nodup := by
  induction entries with
  | nil => exact List.nodup_nil
  | cons entry rest inductionHypothesis =>
      simp only [keepFirst, List.map_cons, List.nodup_cons, List.mem_map, List.mem_filter,
        decide_eq_true_eq]
      refine ⟨?_, inductionHypothesis.sublist (List.filter_sublist.map key)⟩
      rintro ⟨later, ⟨_, different⟩, same⟩
      exact different same

@[simp] theorem mem_keys_keepFirst (key : Entry → Key) (entries : List Entry) (value : Key) :
    value ∈ (keepFirst key entries).map key ↔ value ∈ entries.map key := by
  induction entries with
  | nil => rfl
  | cons entry rest inductionHypothesis =>
      simp only [keepFirst, List.map_cons, List.mem_cons, List.mem_map, List.mem_filter,
        decide_eq_true_eq] at inductionHypothesis ⊢
      by_cases head : value = key entry
      · simp [head]
      · simp only [head, false_or, ← inductionHypothesis]
        constructor
        · rintro ⟨later, ⟨kept, _⟩, same⟩
          exact ⟨later, kept, same⟩
        · rintro ⟨later, kept, same⟩
          exact ⟨later, ⟨kept, by rw [same]; exact head⟩, same⟩

/-- Nothing is dropped from a list in which no key repeats. -/
theorem keepFirst_eq_self {key : Entry → Key} {entries : List Entry}
    (distinct : (entries.map key).Nodup) : keepFirst key entries = entries := by
  induction entries with
  | nil => rfl
  | cons entry rest inductionHypothesis =>
      obtain ⟨fresh, restDistinct⟩ := List.nodup_cons.mp distinct
      rw [keepFirst, inductionHypothesis restDistinct, List.filter_eq_self.mpr]
      intro later member
      apply decide_eq_true
      intro same
      apply fresh
      rw [← same]
      exact List.mem_map_of_mem member

/-- What is kept is the first entry of its key. -/
theorem find?_of_mem_keepFirst {key : Entry → Key} {entries : List Entry} {entry : Entry}
    (kept : entry ∈ keepFirst key entries) :
    entries.find? (fun other => decide (key other = key entry)) = some entry := by
  induction entries with
  | nil => cases kept
  | cons first rest inductionHypothesis =>
      rcases List.mem_cons.mp kept with rfl | later
      · simp
      · obtain ⟨inRest, different⟩ := List.mem_filter.mp later
        rw [List.find?_cons_of_neg, inductionHypothesis inRest]
        simpa using fun same => of_decide_eq_true different same.symm

/-- Collapsing commutes with a selection that only looks at the key. -/
theorem filter_keepFirst (key : Entry → Key) (select : Key → Bool) (entries : List Entry) :
    (keepFirst key entries).filter (fun entry => select (key entry)) =
      keepFirst key (entries.filter fun entry => select (key entry)) := by
  induction entries with
  | nil => rfl
  | cons entry rest inductionHypothesis =>
      by_cases selected : select (key entry) = true
      · simp only [keepFirst, List.filter_cons, selected, if_true, ← inductionHypothesis,
          List.filter_filter, Bool.and_comm]
      · simp only [keepFirst, List.filter_cons, if_neg selected, ← inductionHypothesis,
          List.filter_filter]
        apply List.filter_congr
        intro later _
        by_cases same : key later = key entry
        · simp [same, selected]
        · simp [same]

theorem keepFirst_append (key : Entry → Key) (first second : List Entry) :
    keepFirst key (first ++ second) =
      keepFirst key first ++
        (keepFirst key second).filter fun entry => decide (key entry ∉ first.map key) := by
  induction first with
  | nil => simp
  | cons entry rest inductionHypothesis =>
      simp only [List.cons_append, keepFirst, inductionHypothesis, List.filter_append,
        List.filter_filter, List.map_cons, List.mem_cons, not_or, Bool.decide_and]

theorem keepFirst_append_singleton (key : Entry → Key) (entries : List Entry) (last : Entry) :
    keepFirst key (entries ++ [last]) =
      if key last ∈ entries.map key then keepFirst key entries
      else keepFirst key entries ++ [last] := by
  rw [keepFirst_append]
  split
  next seen => simpa [keepFirst] using seen
  next fresh => simpa [keepFirst] using fresh

/-- A list in which no key occurs more than `bound` times holds enough keys. -/
theorem length_le_mul_keepFirst (key : Entry → Key) (bound : Nat) :
    ∀ (size : Nat) (entries : List Entry), entries.length ≤ size →
      (∀ value, (entries.filter fun entry => decide (key entry = value)).length ≤ bound) →
      entries.length ≤ bound * (keepFirst key entries).length
  | _, [], _, _ => by simp
  | 0, _ :: _, fits, _ => by simp at fits
  | size + 1, entry :: rest, fits, limited => by
      let others := rest.filter fun later => decide (key later ≠ key entry)
      have othersFit : others.length ≤ size :=
        (List.length_filter_le _ _).trans (by simpa using fits)
      have othersLimited : ∀ value,
          (others.filter fun later => decide (key later = value)).length ≤ bound := by
        intro value
        refine ((List.filter_sublist.filter _).length_le.trans ?_).trans (limited value)
        exact ((List.sublist_cons_self entry rest).filter _).length_le
      have induction := length_le_mul_keepFirst key bound size others othersFit othersLimited
      have collapsed : keepFirst key (entry :: rest) = entry :: keepFirst key others := by
        simp only [keepFirst]
        rw [filter_keepFirst key (fun value => decide (value ≠ key entry))]
      have split : (entry :: rest).length =
          ((entry :: rest).filter fun later => decide (key later = key entry)).length +
            others.length := by
        rw [List.length_eq_length_filter_add (fun later => decide (key later = key entry))]
        congr 1
        simp [others]
      rw [collapsed, split, List.length_cons, Nat.mul_add, Nat.mul_one, Nat.add_comm]
      exact Nat.add_le_add induction (limited (key entry))

/-- The best `count` keys of a ranking are decided by its first `bound * count` entries. -/
theorem take_keepFirst_take (key : Entry → Key) (bound count : Nat) (entries : List Entry)
    (limited : ∀ value,
      (entries.filter fun entry => decide (key entry = value)).length ≤ bound) :
    (keepFirst key (entries.take (bound * count))).take count =
      (keepFirst key entries).take count := by
  have whole : keepFirst key entries = keepFirst key (entries.take (bound * count)) ++
      (keepFirst key (entries.drop (bound * count))).filter
        fun entry => decide (key entry ∉ (entries.take (bound * count)).map key) := by
    rw [← keepFirst_append, List.take_append_drop]
  by_cases short : entries.length ≤ bound * count
  · rw [List.take_of_length_le short]
  · have cutLimited : ∀ value, ((entries.take (bound * count)).filter
        fun entry => decide (key entry = value)).length ≤ bound := fun value =>
      (((List.take_sublist _ _).filter _).length_le).trans (limited value)
    have room := length_le_mul_keepFirst key bound _ _ le_rfl cutLimited
    rw [List.length_take_of_le (by omega)] at room
    have enough : count ≤ (keepFirst key (entries.take (bound * count))).length := by
      rcases Nat.eq_zero_or_pos bound with zero | positive
      · exfalso
        subst zero
        cases entries with
        | nil => simp at short
        | cons entry rest =>
            have := limited (key entry)
            simp at this
      · exact Nat.le_of_mul_le_mul_left room positive
    rw [whole, List.take_append_of_le_length enough]

end KeepFirst

section SortBy

variable {Rank : Type v} [LinearOrder Rank]

/-- Sort by a rank, smallest first. -/
def sortBy (rank : Entry → Rank) (entries : List Entry) : List Entry :=
  entries.insertionSort fun left right => rank left ≤ rank right

theorem sortBy_perm (rank : Entry → Rank) (entries : List Entry) :
    (sortBy rank entries).Perm entries := List.perm_insertionSort _ _

@[simp] theorem mem_sortBy (rank : Entry → Rank) (entries : List Entry) (entry : Entry) :
    entry ∈ sortBy rank entries ↔ entry ∈ entries := (sortBy_perm rank entries).mem_iff

theorem sortBy_sorted (rank : Entry → Rank) (entries : List Entry) :
    (sortBy rank entries).Pairwise fun left right => rank left ≤ rank right := by
  have total : Std.Total fun left right : Entry => rank left ≤ rank right :=
    ⟨fun left right => le_total (rank left) (rank right)⟩
  have transitive : IsTrans Entry fun left right => rank left ≤ rank right :=
    ⟨fun _ _ _ first second => le_trans first second⟩
  exact List.pairwise_insertionSort _ entries

/-- A rank that tells the entries apart leaves one sorted arrangement. -/
theorem eq_of_perm_of_sorted (rank : Entry → Rank) {left right : List Entry}
    (same : left.Perm right)
    (apart : ∀ first ∈ left, ∀ second ∈ left, rank first = rank second → first = second)
    (leftSorted : left.Pairwise fun first second => rank first ≤ rank second)
    (rightSorted : right.Pairwise fun first second => rank first ≤ rank second) :
    left = right := by
  apply List.Perm.eq_of_pairwise _ leftSorted rightSorted same
  intro first second firstIn secondIn one two
  exact apart first firstIn second (same.mem_iff.mpr secondIn) (le_antisymm one two)

theorem sortBy_eq_of_perm (rank : Entry → Rank) {left right : List Entry}
    (same : left.Perm right)
    (apart : ∀ first ∈ left, ∀ second ∈ left, rank first = rank second → first = second) :
    sortBy rank left = sortBy rank right := by
  apply eq_of_perm_of_sorted rank
    (((sortBy_perm rank left).trans same).trans (sortBy_perm rank right).symm)
    (by simpa using apart) (sortBy_sorted rank left) (sortBy_sorted rank right)

/-- Selecting from a ranking is ranking the selection. -/
theorem filter_sortBy (rank : Entry → Rank) (select : Entry → Bool) (entries : List Entry)
    (apart : ∀ first ∈ entries, ∀ second ∈ entries, rank first = rank second → first = second) :
    (sortBy rank entries).filter select = sortBy rank (entries.filter select) := by
  apply eq_of_perm_of_sorted rank
    (((sortBy_perm rank entries).filter select).trans (sortBy_perm rank _).symm)
  · intro first firstIn second secondIn
    exact apart first (by simpa using List.mem_of_mem_filter firstIn)
      second (by simpa using List.mem_of_mem_filter secondIn)
  · exact (sortBy_sorted rank entries).filter _
  · exact sortBy_sorted rank _

/-- Two duplicate-free lists with the same selected members rank them the same. -/
theorem sortBy_filter_congr (rank : Entry → Rank) {left right : List Entry}
    {select : Entry → Bool}
    (leftNodup : left.Nodup) (rightNodup : right.Nodup)
    (agree : ∀ entry, select entry = true → (entry ∈ left ↔ entry ∈ right))
    (apart : ∀ first ∈ left, ∀ second ∈ left, rank first = rank second → first = second) :
    sortBy rank (left.filter select) = sortBy rank (right.filter select) := by
  apply sortBy_eq_of_perm
  · apply (List.perm_ext_iff_of_nodup (leftNodup.filter _) (rightNodup.filter _)).mpr
    intro entry
    simp only [List.mem_filter]
    constructor
    · rintro ⟨member, selected⟩
      exact ⟨(agree entry selected).mp member, selected⟩
    · rintro ⟨member, selected⟩
      exact ⟨(agree entry selected).mpr member, selected⟩
  · intro first firstIn second secondIn
    exact apart first (List.mem_of_mem_filter firstIn) second (List.mem_of_mem_filter secondIn)

/-- An entry of the highest rank, if there is an entry. -/
def best (rank : Entry → Rank) (entries : List Entry) : Option Entry :=
  (sortBy (fun entry => OrderDual.toDual (rank entry)) entries).head?

variable {rank : Entry → Rank} {entries : List Entry}

theorem best_eq_none_iff : best rank entries = none ↔ entries = [] := by
  rw [best, List.head?_eq_none_iff]
  constructor
  · intro nothing
    have same := sortBy_perm (fun entry => OrderDual.toDual (rank entry)) entries
    rw [nothing] at same
    exact same.nil_eq.symm
  · intro nothing
    rw [nothing]
    rfl

theorem exists_best {entry : Entry} (member : entry ∈ entries) :
    ∃ top, best rank entries = some top := by
  rw [← Option.isSome_iff_exists, Option.isSome_iff_ne_none]
  intro nothing
  rw [best_eq_none_iff.mp nothing] at member
  cases member

theorem best_spec {top : Entry} (isBest : best rank entries = some top) :
    top ∈ entries ∧ ∀ other ∈ entries, rank other ≤ rank top := by
  obtain ⟨rest, ranked⟩ := List.head?_eq_some_iff.mp isBest
  have sorted := sortBy_sorted (fun entry => OrderDual.toDual (rank entry)) entries
  rw [ranked] at sorted
  have member : ∀ other, other ∈ entries ↔ other ∈ top :: rest := by
    intro other
    rw [← ranked, mem_sortBy]
  refine ⟨(member top).mpr List.mem_cons_self, fun other stored => ?_⟩
  rcases List.mem_cons.mp ((member other).mp stored) with rfl | later
  · exact le_refl _
  · exact (List.pairwise_cons.mp sorted).1 other later

theorem best_eq_some_iff
    (apart : ∀ first ∈ entries, ∀ second ∈ entries, rank first = rank second → first = second)
    (top : Entry) :
    best rank entries = some top ↔ top ∈ entries ∧ ∀ other ∈ entries, rank other ≤ rank top := by
  constructor
  · exact best_spec
  · rintro ⟨member, highest⟩
    obtain ⟨other, isBest⟩ := @exists_best _ _ _ rank entries top member
    obtain ⟨otherMember, otherHighest⟩ := best_spec isBest
    rw [isBest, apart other otherMember top member
      (le_antisymm (highest other otherMember) (otherHighest top member))]

/-- The best of one half is the best of all, if the best of the other half is no better. -/
theorem best_eq_best_filter
    (apart : ∀ first ∈ entries, ∀ second ∈ entries, rank first = rank second → first = second)
    (half : Entry → Bool)
    (bounded : ∀ other, best rank (entries.filter fun entry => !half entry) = some other →
      ∃ top, best rank (entries.filter half) = some top ∧ rank other ≤ rank top) :
    best rank entries = best rank (entries.filter half) := by
  have below : ∀ other ∈ entries, half other = false →
      ∃ top, best rank (entries.filter half) = some top ∧ rank other ≤ rank top := by
    intro other member side
    have inRest : other ∈ entries.filter fun entry => !half entry :=
      List.mem_filter.mpr ⟨member, by simp [side]⟩
    obtain ⟨challenger, isBest⟩ := @exists_best _ _ _ rank _ other inRest
    obtain ⟨top, isTop, higher⟩ := bounded challenger isBest
    exact ⟨top, isTop, ((best_spec isBest).2 other inRest).trans higher⟩
  cases champion : best rank (entries.filter half) with
  | none =>
      rw [best_eq_none_iff, List.eq_nil_iff_forall_not_mem]
      intro other member
      cases side : half other with
      | false =>
          obtain ⟨top, isTop, _⟩ := below other member side
          rw [champion] at isTop
          cases isTop
      | true =>
          have inHalf := List.mem_filter.mpr ⟨member, side⟩
          rw [best_eq_none_iff.mp champion] at inHalf
          cases inHalf
  | some top =>
      obtain ⟨topMember, highest⟩ := best_spec champion
      rw [best_eq_some_iff apart]
      refine ⟨List.mem_of_mem_filter topMember, fun other member => ?_⟩
      cases side : half other with
      | false =>
          obtain ⟨champ, isChamp, higher⟩ := below other member side
          rw [champion] at isChamp
          cases isChamp
          exact higher
      | true => exact highest other (List.mem_filter.mpr ⟨member, side⟩)

end SortBy

end Scryd.Foundation
