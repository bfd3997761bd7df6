import Scryd.Foundation.Overfetch
import Scryd.Search.Query

/-!
# From the best documents to the best messages

What `WitchcraftIndexer::search` makes of any answer of the engine, whatever
the order of the answer and of the hash map.
-/

namespace Scryd.Search

open Scryd.Foundation

universe u

variable {Score : Type u} [LinearOrder Score]

/-- `WitchcraftIndexer::search` behind the engine's answer. -/
def searchRaw (engine : Engine Score) (hash : HashOrder Score) (query : SearchQuery)
    (raw : List IndexDoc) : List (Hit Score) :=
  (sortBy (fun hit => OrderDual.toDual hit.score)
    (hash.arrange (collapse engine query raw))).take query.k

theorem search_eq_searchRaw (engine : Engine Score) (hash : HashOrder Score)
    (query : SearchQuery) (state : State) :
    search engine hash query state = searchRaw engine hash query
      (engine.search query (rawK query.k) state.documents.rows) := rfl

/-- The score of a document for a query. -/
def Engine.docScore (engine : Engine Score) (query : SearchQuery) (doc : IndexDoc) : Score :=
  engine.score query.q query.useFulltext doc

variable {engine : Engine Score} {query : SearchQuery}

section Collapse

/-- Each message that has a document has one entry, which is that of a best document. -/
structure Collapsed (engine : Engine Score) (query : SearchQuery) (raw : List IndexDoc)
    (entries : List (Hit Score)) : Prop where
  nodup : (entries.map (·.messageId)).Nodup
  ids : ∀ id, id ∈ entries.map (·.messageId) ↔ id ∈ raw.map (·.messageId)
  attained : ∀ entry ∈ entries, ∃ doc ∈ raw, entry = engine.hit query doc
  highest : ∀ entry ∈ entries, ∀ doc ∈ raw, doc.messageId = entry.messageId →
    engine.docScore query doc ≤ entry.score

/-- The entry of a message once another document of it was seen. -/
def improve (found cur : Hit Score) : Hit Score :=
  if cur.messageId = found.messageId ∧ cur.score < found.score then found else cur

theorem improve_messageId (found cur : Hit Score) :
    (improve found cur).messageId = cur.messageId := by
  unfold improve
  split
  next better => exact better.1.symm
  next => rfl

theorem improve_score (found cur : Hit Score) :
    cur.score ≤ (improve found cur).score ∧
      (found.messageId = cur.messageId → found.score ≤ (improve found cur).score) := by
  unfold improve
  split
  next better => exact ⟨better.2.le, fun _ => le_refl _⟩
  next worse =>
    refine ⟨le_refl _, fun same => ?_⟩
    rw [← not_lt]
    exact fun outscores => worse ⟨same.symm, outscores⟩

/-- A document of a message that has an entry. -/
theorem Collapsed.improve {raw : List IndexDoc} {entries : List (Hit Score)}
    (collapsed : Collapsed engine query raw entries) {doc : IndexDoc}
    (seen : doc.messageId ∈ entries.map (·.messageId)) :
    Collapsed engine query (raw ++ [doc])
      (entries.map (Search.improve (engine.hit query doc))) := by
  have same : (entries.map (Search.improve (engine.hit query doc))).map (·.messageId) =
      entries.map (·.messageId) := by
    simp only [List.map_map, Function.comp_def, improve_messageId]
  constructor
  · rw [same]
    exact collapsed.nodup
  · intro id
    rw [same, List.map_append, List.mem_append, List.map_singleton, List.mem_singleton,
      collapsed.ids]
    constructor
    · exact .inl
    · rintro (before | rfl)
      · exact before
      · rwa [collapsed.ids] at seen
  · intro entry member
    obtain ⟨cur, stored, rfl⟩ := List.mem_map.mp member
    unfold Search.improve
    split
    · exact ⟨doc, by simp, rfl⟩
    · obtain ⟨old, inRaw, isOld⟩ := collapsed.attained cur stored
      exact ⟨old, List.mem_append_left _ inRaw, isOld⟩
  · intro entry member other inRaw sameId
    obtain ⟨cur, stored, rfl⟩ := List.mem_map.mp member
    rw [improve_messageId] at sameId
    rcases List.mem_append.mp inRaw with before | isLast
    · exact (collapsed.highest cur stored other before sameId).trans (improve_score _ _).1
    · rw [List.mem_singleton.mp isLast] at sameId ⊢
      exact (improve_score (engine.hit query doc) cur).2 sameId

/-- The first document of a message. -/
theorem Collapsed.append {raw : List IndexDoc} {entries : List (Hit Score)}
    (collapsed : Collapsed engine query raw entries) {doc : IndexDoc}
    (fresh : doc.messageId ∉ entries.map (·.messageId)) :
    Collapsed engine query (raw ++ [doc]) (entries ++ [engine.hit query doc]) := by
  have notYet : ∀ entry ∈ entries, entry.messageId ≠ doc.messageId := by
    intro entry stored same
    apply fresh
    rw [← same]
    exact List.mem_map_of_mem stored
  have notBefore : ∀ other ∈ raw, other.messageId ≠ doc.messageId := by
    intro other before same
    rw [collapsed.ids, ← same] at fresh
    exact fresh (List.mem_map_of_mem before)
  constructor
  · rw [List.map_append, List.nodup_append]
    refine ⟨collapsed.nodup, List.nodup_singleton _, ?_⟩
    rintro id before _ isLast rfl
    rw [List.map_singleton, List.mem_singleton] at isLast
    subst isLast
    exact fresh before
  · intro id
    simp only [List.map_append, List.mem_append, collapsed.ids, List.map_singleton]
    exact Iff.rfl
  · intro entry member
    rcases List.mem_append.mp member with stored | isLast
    · obtain ⟨old, inRaw, isOld⟩ := collapsed.attained entry stored
      exact ⟨old, List.mem_append_left _ inRaw, isOld⟩
    · exact ⟨doc, by simp, List.mem_singleton.mp isLast⟩
  · intro entry member other inRaw sameId
    rcases List.mem_append.mp member with stored | isLast
    · rcases List.mem_append.mp inRaw with before | isDoc
      · exact collapsed.highest entry stored other before sameId
      · rw [List.mem_singleton.mp isDoc] at sameId
        exact absurd sameId.symm (notYet entry stored)
    · rw [List.mem_singleton.mp isLast] at sameId ⊢
      rcases List.mem_append.mp inRaw with before | isDoc
      · exact absurd sameId (notBefore other before)
      · rw [List.mem_singleton.mp isDoc]
        exact le_refl _

theorem Collapsed.recordBest {raw : List IndexDoc} {entries : List (Hit Score)}
    (collapsed : Collapsed engine query raw entries) (doc : IndexDoc) :
    Collapsed engine query (raw ++ [doc]) (Search.recordBest entries (engine.hit query doc)) := by
  unfold Search.recordBest
  split
  next seen => exact collapsed.improve seen
  next fresh => exact collapsed.append fresh

theorem collapsed_collapse (engine : Engine Score) (query : SearchQuery) (raw : List IndexDoc) :
    Collapsed engine query raw (collapse engine query raw) := by
  induction raw using List.reverseRecOn with
  | nil => exact ⟨List.nodup_nil, fun _ => Iff.rfl, nofun, nofun⟩
  | append_singleton earlier last inductionHypothesis =>
      unfold collapse at inductionHypothesis ⊢
      rw [List.foldl_append]
      exact inductionHypothesis.recordBest last

theorem Collapsed.perm {raw : List IndexDoc} {entries others : List (Hit Score)}
    (collapsed : Collapsed engine query raw entries) (same : others.Perm entries) :
    Collapsed engine query raw others where
  nodup := ((same.map _).nodup_iff).mpr collapsed.nodup
  ids id := by rw [(same.map _).mem_iff, collapsed.ids]
  attained entry member := collapsed.attained entry (same.mem_iff.mp member)
  highest entry member := collapsed.highest entry (same.mem_iff.mp member)

theorem Collapsed.length_eq {raw : List IndexDoc} {entries : List (Hit Score)}
    (collapsed : Collapsed engine query raw entries) :
    entries.length = (raw.map IndexDoc.messageId).dedup.length := by
  rw [← List.length_map (f := Hit.messageId)]
  apply List.Perm.length_eq
  apply (List.perm_ext_iff_of_nodup collapsed.nodup (List.nodup_dedup _)).mpr
  intro id
  rw [collapsed.ids, List.mem_dedup]

end Collapse

section TopMessages

/-- Hits that are the best messages of an index: one hit for each of them, in the order of the
scores, scored by the message's best document, and nothing better is left out. -/
structure TopMessages (engine : Engine Score) (query : SearchQuery) (docs : List IndexDoc)
    (hits : List (Hit Score)) : Prop where
  distinct : (hits.map (·.messageId)).Nodup
  sorted : hits.Pairwise fun earlier later => later.score ≤ earlier.score
  attained : ∀ hit ∈ hits, ∃ doc ∈ docs, doc.messageId = hit.messageId ∧
    engine.docScore query doc = hit.score
  highest : ∀ hit ∈ hits, ∀ doc ∈ docs, doc.messageId = hit.messageId →
    engine.docScore query doc ≤ hit.score
  count : hits.length = min query.k (docs.map IndexDoc.messageId).dedup.length
  complete : ∀ doc ∈ docs, doc.messageId ∉ hits.map (·.messageId) →
    ∀ last, hits.getLast? = some last → engine.docScore query doc ≤ last.score

/-- When no message has more documents than it can have segments, the best documents decide
the best messages, however the engine orders its answer and the hash map its entries. -/
theorem searchRaw_topMessages (hash : HashOrder Score) {docs raw : List IndexDoc}
    (bounded : ∀ id, (docs.filter fun doc => decide (doc.messageId = id)).length ≤
      maxSegmentsPerMessage)
    (best : BestOf (engine.docScore query) (query.k * maxSegmentsPerMessage) docs raw) :
    TopMessages engine query docs (searchRaw engine hash query raw) := by
  have ranking := sortBy_perm (fun hit : Hit Score => OrderDual.toDual hit.score)
    (hash.arrange (collapse engine query raw))
  have collapsed := (collapsed_collapse engine query raw).perm (ranking.trans (hash.perm _))
  have sorted := sortBy_sorted (fun hit : Hit Score => OrderDual.toDual hit.score)
    (hash.arrange (collapse engine query raw))
  unfold searchRaw
  generalize sortBy (fun hit : Hit Score => OrderDual.toDual hit.score)
    (hash.arrange (collapse engine query raw)) = ranked at collapsed sorted
  have highest : ∀ hit ∈ ranked, ∀ doc ∈ docs, doc.messageId = hit.messageId →
      engine.docScore query doc ≤ hit.score := by
    intro hit isRanked doc inDocs sameId
    have idTaken : doc.messageId ∈ raw.map IndexDoc.messageId := by
      rw [sameId, ← collapsed.ids]
      exact List.mem_map_of_mem isRanked
    obtain ⟨kept, keptTaken, keptId, dominates⟩ :=
      best.dominated IndexDoc.messageId inDocs idTaken
    exact dominates.trans (collapsed.highest hit isRanked kept keptTaken (keptId.trans sameId))
  constructor
  · exact collapsed.nodup.sublist ((List.take_sublist _ _).map _)
  · exact (sorted.sublist (List.take_sublist _ _)).imp fun {first second} ordered => ordered
  · intro hit member
    obtain ⟨doc, inRaw, rfl⟩ := collapsed.attained hit (List.mem_of_mem_take member)
    exact ⟨doc, best.subset inRaw, rfl, rfl⟩
  · exact fun hit member => highest hit (List.mem_of_mem_take member)
  · rw [List.length_take, collapsed.length_eq, best.length_keys IndexDoc.messageId bounded]
  · intro doc inDocs omitted last isLast
    have lastTaken := List.mem_of_getLast? isLast
    obtain ⟨lastDoc, lastInRaw, isLastDoc⟩ :=
      collapsed.attained last (List.mem_of_mem_take lastTaken)
    by_cases idRanked : doc.messageId ∈ ranked.map (·.messageId)
    · -- The message was ranked, but behind the last hit.
      obtain ⟨hit, isRanked, sameId⟩ := List.mem_map.mp idRanked
      have behind : hit ∈ ranked.drop query.k := by
        rw [← List.take_append_drop query.k ranked, List.mem_append] at isRanked
        rcases isRanked with early | late
        · exact absurd (sameId ▸ List.mem_map_of_mem early) omitted
        · exact late
      rw [← List.take_append_drop query.k ranked, List.pairwise_append] at sorted
      have ordered : hit.score ≤ last.score := sorted.2.2 last lastTaken hit behind
      exact (highest hit (List.mem_of_mem_drop behind) doc inDocs sameId.symm).trans ordered
    · -- None of its documents was handed over.
      rcases best.taken_or_below inDocs with isTaken | below
      · rw [collapsed.ids] at idRanked
        exact absurd (List.mem_map_of_mem isTaken) idRanked
      · rw [isLastDoc]
        exact below lastDoc lastInRaw

/-- The engine's answer is such a one. -/
theorem bestOf_engine_search (fits : query.k * maxSegmentsPerMessage ≤ usizeMax)
    (docs : List IndexDoc) :
    BestOf (engine.docScore query) (query.k * maxSegmentsPerMessage) docs
      (engine.search query (rawK query.k) docs) := by
  rw [rawK_eq fits]
  apply bestOf_take_sortBy (engine.rank query)
  intro first second ordered
  rcases Prod.Lex.le_iff.mp ordered with better | tie
  · exact le_of_lt better
  · exact le_of_eq tie.1.symm

end TopMessages

section Sample

/-- An engine that likes later segments better. -/
def laterFirst : Engine Nat where
  score _ _ doc := doc.seg
  region _ _ doc := some doc.body
  tieRank text := textRank text.toList
  tieRank_injective := textRank_toList_injective

theorem yieldInOrder_perm (entries : List (Hit Nat)) : (id entries).Perm entries :=
  List.Perm.refl entries

def yieldInOrder : HashOrder Nat := ⟨id, yieldInOrder_perm⟩

/-- One message in two segments and one in a single segment. -/
def threeDocs : List IndexDoc := [⟨"a", 0, 2, "x"⟩, ⟨"b", 0, 1, "y"⟩, ⟨"a", 1, 2, "z"⟩]

def oneWanted : SearchQuery := ⟨"q", .hybrid, 1, []⟩

theorem searchRaw_topMessages_threeDocs :
    TopMessages laterFirst oneWanted threeDocs
      (searchRaw laterFirst yieldInOrder oneWanted
        (laterFirst.search oneWanted (rawK oneWanted.k) threeDocs)) := by
  apply searchRaw_topMessages yieldInOrder
  · intro id
    exact (List.length_filter_le _ _).trans (by decide)
  · exact bestOf_engine_search (by decide) threeDocs

end Sample

end Scryd.Search
