import Scryd.Foundation.Overfetch
import Scryd.Search.Dedup

/-!
# The best hits that pass a filter

The caller of `WitchcraftIndexer::search` asks for more hits than it wants and
drops some of them.  What is left are the best of the hits it can use, as long
as the others are too few to crowd them out.
-/

namespace Scryd.Search

open Scryd.Foundation

universe u

variable {Score : Type u} [LinearOrder Score] {engine : Engine Score} {query : SearchQuery}
  {docs : List IndexDoc}

/-- Each message of an index with its best document, the best message first. -/
def messageHits (engine : Engine Score) (query : SearchQuery) (docs : List IndexDoc) :
    List (Hit Score) :=
  (keepFirst IndexDoc.messageId (sortBy (engine.rank query) docs)).map (engine.hit query)

section MessageHits

theorem messageHits_ids : (messageHits engine query docs).map (·.messageId) =
    (keepFirst IndexDoc.messageId (sortBy (engine.rank query) docs)).map IndexDoc.messageId := by
  rw [messageHits, List.map_map]
  rfl

theorem messageHits_nodup : ((messageHits engine query docs).map (·.messageId)).Nodup := by
  rw [messageHits_ids]
  exact keepFirst_nodup _ _

theorem mem_messageHits_ids (id : String) :
    id ∈ (messageHits engine query docs).map (·.messageId) ↔ id ∈ docs.map IndexDoc.messageId := by
  rw [messageHits_ids, mem_keys_keepFirst]
  exact ((sortBy_perm (engine.rank query) docs).map IndexDoc.messageId).mem_iff

theorem ranking_sorted : (sortBy (engine.rank query) docs).Pairwise fun earlier later =>
    engine.docScore query later ≤ engine.docScore query earlier := by
  refine (sortBy_sorted (engine.rank query) docs).imp ?_
  intro earlier later ordered
  rcases Prod.Lex.le_iff.mp ordered with better | tie
  · exact le_of_lt better
  · exact le_of_eq tie.1.symm

/-- The hit of a message is the one of its best document. -/
theorem messageHits_best {hit : Hit Score} (member : hit ∈ messageHits engine query docs) :
    (∃ doc ∈ docs, hit = engine.hit query doc) ∧
      ∀ doc ∈ docs, doc.messageId = hit.messageId → engine.docScore query doc ≤ hit.score := by
  obtain ⟨best, kept, rfl⟩ := List.mem_map.mp member
  have first := find?_of_mem_keepFirst kept
  obtain ⟨_, before, after, split, others⟩ := List.find?_eq_some_iff_append.mp first
  have inDocs : ∀ doc, doc ∈ sortBy (engine.rank query) docs ↔ doc ∈ docs := fun doc =>
    mem_sortBy _ _ _
  refine ⟨⟨best, (inDocs best).mp ((keepFirst_sublist _ _).subset kept), rfl⟩, ?_⟩
  intro doc isDoc sameId
  rw [← inDocs, split] at isDoc
  have sorted := @ranking_sorted _ _ engine query docs
  rw [split, List.pairwise_append, List.pairwise_cons] at sorted
  rcases List.mem_append.mp isDoc with early | late
  · have different := others doc early
    simp only [Bool.not_eq_true', decide_eq_false_iff_not] at different
    exact absurd sameId different
  · rcases List.mem_cons.mp late with rfl | behind
    · exact le_refl _
    · exact sorted.2.1.1 doc behind

end MessageHits

/-- A search returns the best messages of the index. -/
theorem bestOf_search (hash : HashOrder Score) {state : State} (segmented : Segmented state)
    (fits : query.k * maxSegmentsPerMessage ≤ usizeMax) :
    BestOf Hit.score query.k (messageHits engine query state.documents.rows)
        (search engine hash query state) ∧
      (search engine hash query state).Pairwise fun earlier later =>
        later.score ≤ earlier.score := by
  obtain ⟨ranked, ranks, found⟩ := @search_ranked _ _ engine query hash state
  have complete := @candidates_complete _ _ engine query state segmented fits
  have candidatesEq := @candidates_eq _ _ engine query state
  let ranking := sortBy (engine.rank query) state.documents.rows
  let taken := ranking.take (rawK query.k)
  let later := (keepFirst IndexDoc.messageId (ranking.drop (rawK query.k))).filter
    fun doc => decide (doc.messageId ∉ taken.map IndexDoc.messageId)
  have whole : messageHits engine query state.documents.rows =
      candidates engine query state ++ later.map (engine.hit query) := by
    rw [candidatesEq, messageHits, ← List.map_append]
    congr 1
    change keepFirst IndexDoc.messageId ranking = keepFirst IndexDoc.messageId taken ++ later
    rw [← keepFirst_append, List.take_append_drop]
  rw [found]
  refine ⟨⟨⟨ranked.drop query.k ++ later.map (engine.hit query), ?_, ?_⟩, ?_⟩,
    ranks.sorted.sublist (List.take_sublist _ _)⟩
  · rw [← List.append_assoc, List.take_append_drop, whole]
    exact ranks.perm.append_right _
  · intro kept keptTaken other isLeft
    rcases List.mem_append.mp isLeft with behind | isLater
    · have sorted := ranks.sorted
      rw [← List.take_append_drop query.k ranked, List.pairwise_append] at sorted
      exact sorted.2.2 kept keptTaken other behind
    · -- The document comes behind all those the engine was asked for.
      have isCandidate := ranks.perm.mem_iff.mp (List.mem_of_mem_take keptTaken)
      rw [candidatesEq] at isCandidate
      obtain ⟨keptDoc, keptFirst, rfl⟩ := List.mem_map.mp isCandidate
      obtain ⟨otherDoc, otherLater, rfl⟩ := List.mem_map.mp isLater
      have sorted := @ranking_sorted _ _ engine query state.documents.rows
      change ranking.Pairwise _ at sorted
      rw [← List.take_append_drop (rawK query.k) ranking, List.pairwise_append] at sorted
      exact sorted.2.2 keptDoc ((keepFirst_sublist _ _).subset keptFirst) otherDoc
        ((keepFirst_sublist _ _).subset (List.mem_of_mem_filter otherLater))
  · have lengths := congrArg List.length complete
    rw [List.length_map, List.length_take, List.length_take] at lengths
    rw [List.length_take, ranks.perm.length_eq, lengths, messageHits, List.length_map]

/-- The best of the usable hits are the best usable messages of the index. -/
theorem topMessages_of_bestOf {keep : String → Bool} {wanted : Nat} {hits : List (Hit Score)}
    (sorted : hits.Pairwise fun earlier later => later.score ≤ earlier.score)
    (best : BestOf Hit.score wanted
      ((messageHits engine query docs).filter fun hit => keep hit.messageId) hits) :
    TopMessages engine { query with k := wanted }
      (docs.filter fun doc => keep doc.messageId) hits := by
  have nodup : (((messageHits engine query docs).filter fun hit =>
      keep hit.messageId).map (·.messageId)).Nodup :=
    messageHits_nodup.sublist (List.filter_sublist.map _)
  have isHit : ∀ hit ∈ hits, hit ∈ messageHits engine query docs ∧ keep hit.messageId = true :=
    fun hit member => List.mem_filter.mp (best.subset member)
  constructor
  · obtain ⟨left, whole, _⟩ := best.parts
    have all := ((whole.map (·.messageId)).nodup_iff).mpr nodup
    rw [List.map_append] at all
    exact (List.nodup_append.mp all).1
  · exact sorted
  · intro hit member
    obtain ⟨inHits, kept⟩ := isHit hit member
    obtain ⟨⟨doc, isDoc, rfl⟩, _⟩ := messageHits_best inHits
    exact ⟨doc, List.mem_filter.mpr ⟨isDoc, kept⟩, rfl, rfl⟩
  · intro hit member doc isDoc sameId
    exact (messageHits_best (isHit hit member).1).2 doc (List.mem_of_mem_filter isDoc) sameId
  · have ids : (((messageHits engine query docs).filter fun hit =>
        keep hit.messageId).map (·.messageId)).Perm
          ((docs.filter fun doc => keep doc.messageId).map IndexDoc.messageId).dedup := by
      refine (List.perm_ext_iff_of_nodup nodup (List.nodup_dedup _)).mpr ?_
      intro id
      have known := @mem_messageHits_ids _ _ engine query docs id
      simp only [List.mem_map, List.mem_dedup, List.mem_filter] at known ⊢
      constructor
      · rintro ⟨hit, ⟨inHits, kept⟩, rfl⟩
        obtain ⟨doc, isDoc, sameId⟩ := known.mp ⟨hit, inHits, rfl⟩
        exact ⟨doc, ⟨isDoc, by rwa [sameId]⟩, sameId⟩
      · rintro ⟨doc, ⟨isDoc, kept⟩, rfl⟩
        obtain ⟨hit, inHits, sameId⟩ := known.mpr ⟨doc, isDoc, rfl⟩
        exact ⟨hit, ⟨inHits, by rwa [sameId]⟩, sameId⟩
    have lengths := ids.length_eq
    rw [List.length_map] at lengths
    rw [best.length, lengths]
  · intro doc isDoc omitted last isLast
    obtain ⟨inDocs, kept⟩ := List.mem_filter.mp isDoc
    have known := (@mem_messageHits_ids _ _ engine query docs doc.messageId).mpr
      (List.mem_map_of_mem inDocs)
    obtain ⟨hit, inHits, sameId⟩ := List.mem_map.mp known
    have usable : hit ∈ (messageHits engine query docs).filter fun hit => keep hit.messageId :=
      List.mem_filter.mpr ⟨inHits, by rwa [sameId]⟩
    have docBelow := (messageHits_best inHits).2 doc inDocs sameId.symm
    rcases best.taken_or_below usable with isTaken | below
    · rw [← sameId] at omitted
      exact absurd (List.mem_map_of_mem isTaken) omitted
    · exact docBelow.trans (below last (List.mem_of_getLast? isLast))

/-- Dropping hits leaves the best of the usable messages, if `others` names the rest and there are
few of them. -/
theorem filtered_topMessages (hash : HashOrder Score) {state : State}
    (segmented : Segmented state) (fits : query.k * maxSegmentsPerMessage ≤ usizeMax)
    (keep : String → Bool) {wanted : Nat} (others : List String)
    (crowd : ∀ doc ∈ state.documents.rows, keep doc.messageId = false → doc.messageId ∈ others)
    (few : others.length + wanted ≤ query.k) :
    TopMessages engine { query with k := wanted }
      (state.documents.rows.filter fun doc => keep doc.messageId)
      (((search engine hash query state).filter fun hit => keep hit.messageId).take wanted) := by
  obtain ⟨best, sorted⟩ := @bestOf_search _ _ engine query hash state segmented fits
  have unusable : ((messageHits engine query state.documents.rows).filter fun hit =>
      !keep hit.messageId).length ≤ others.length := by
    rw [← List.length_map (f := Hit.messageId)]
    refine (List.subperm_of_subset ?_ ?_).length_le
    · exact messageHits_nodup.sublist (List.filter_sublist.map _)
    intro id member
    obtain ⟨hit, dropped, rfl⟩ := List.mem_map.mp member
    obtain ⟨inHits, notKept⟩ := List.mem_filter.mp dropped
    obtain ⟨⟨doc, isDoc, rfl⟩, _⟩ := messageHits_best inHits
    rw [Bool.not_eq_true'] at notKept
    exact crowd doc isDoc notKept
  apply topMessages_of_bestOf
  · exact (sorted.sublist List.filter_sublist).sublist (List.take_sublist _ _)
  · apply best.filter (fun hit => keep hit.messageId) sorted
    exact (Nat.add_le_add_right unusable wanted).trans few

end Scryd.Search
