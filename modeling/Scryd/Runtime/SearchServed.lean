import Scryd.Mcp.SearchBest
import Scryd.Runtime.Indexed

/-!
# Searching what was ingested

When the submits and the drainer have come to rest, a search ranks all the mail
in the store that it is for, by the segments of the current content.
-/

namespace Scryd.Runtime

open Scryd.Foundation Scryd.Storage Scryd.Mime Scryd.Imap Scryd.Mcp
open Scryd.Search (Mode Hit Engine HashOrder IndexDoc IndexSubmit EmbedChunks WitchcraftDb
  TopMessages documentOf)

universe u

/-- The store and the index, as a tool call sees them. -/
def Indexing.backend {embedder : EmbedChunks} (state : Indexing (.tables embedder)) :
    SearchBackend where
  store := state.delivery.store
  index := ⟨state.indexer.content.1, state.indexer.content.2, state.indexer.dirty⟩

theorem tables_keepsDocuments (embedder : EmbedChunks) :
    KeepsDocuments (.tables embedder) :=
  ⟨fun _ _ => rfl, fun _ => rfl, fun _ => rfl⟩

section Documents

variable {embedder : EmbedChunks}

theorem stored_tables_iff (content : (WitchcraftDb.tables embedder).Content) (doc : IndexDoc) :
    (WitchcraftDb.tables embedder).stored content doc.uuid = some doc ↔ doc ∈ content.1.rows := by
  constructor
  · exact List.mem_of_find?_eq_some
  · intro stored
    exact content.1.find?_eq_some Search.SameUuid.symmetric
      (fun other => decide (other.uuid = doc.uuid)) stored (decide_eq_true rfl)
      fun other same => of_decide_eq_true same

theorem Accounted.segmented {state : Indexing (.tables embedder)} (accounted : Accounted state) :
    Search.Segmented state.backend.index := by
  intro doc stored
  exact (accounted.stored doc.uuid doc ((stored_tables_iff _ doc).mpr stored)).2.1

theorem docs_ne_nil (submission : IndexSubmit) : submission.docs ≠ [] := by
  apply List.ne_nil_of_length_pos
  rw [submission.docs_length]
  exact Search.splitForIndex_length_pos submission.document

end Documents

/-- The segments of a row's current content. -/
def segmentsOf (row : MessageRow) : List IndexDoc :=
  (IndexSubmit.mk row.messageId (documentOf row)).docs

section Answer

variable {Score : Type u} [LinearOrder Score]

/-- The results of a search over the whole store: one for each of the best messages that the search
is for, in the order of their scores. -/
structure RanksMailbox (engine : Engine Score) (chrono : Chrono)
    (toLowercase : String → String) (scope : AccountScope) (store : Store) (args : SearchArgs)
    (mode : Mode) (results : List (SearchHitDto Score)) : Prop where
  distinct : (results.map (·.messageId)).Nodup
  sorted : results.Pairwise fun earlier later => later.score ≤ earlier.score
  /-- Each result shows a message the search is for, scored at least as its best segment. -/
  eligible : ∀ result ∈ results, ∃ row ∈ store.messages.rows,
    Eligible chrono toLowercase scope store args row ∧
    (∃ hit, hit.messageId = row.messageId ∧ result = searchHit chrono row hit args.q mode) ∧
    ∀ doc ∈ segmentsOf row, engine.score args.q (mode != .semantic) doc ≤ result.score
  count : ∀ wanted : List MessageRow, wanted.Nodup →
    (∀ row, row ∈ wanted ↔
      row ∈ store.messages.rows ∧ Eligible chrono toLowercase scope store args row) →
    results.length = min (wantedHits args) wanted.length
  /-- No segment of a message that is left out scores more than the last result. -/
  complete : ∀ row ∈ store.messages.rows, Eligible chrono toLowercase scope store args row →
    row.messageId ∉ results.map (·.messageId) → ∀ last, results.getLast? = some last →
      ∀ doc ∈ segmentsOf row, engine.score args.q (mode != .semantic) doc ≤ last.score

variable {chrono : Chrono} {toLowercase : String → String} {scope : AccountScope} {store : Store}
  {args : SearchArgs} {mode : Mode}

omit [LinearOrder Score] in
theorem map_messageId_of_answers {hits : List (Hit Score)} {results : List (SearchHitDto Score)}
    (answers : List.Forall₂ (Answers chrono toLowercase scope store args mode) hits results) :
    results.map (·.messageId) = hits.map (·.messageId) ∧
      results.map (·.score) = hits.map (·.score) := by
  induction answers with
  | nil => exact ⟨rfl, rfl⟩
  | cons first _ inductionHypothesis =>
      obtain ⟨ids, scores⟩ := inductionHypothesis
      exact ⟨by rw [List.map_cons, List.map_cons, first.messageId, ids],
        by rw [List.map_cons, List.map_cons, first.score, scores]⟩

/-- The best hits of an index that holds the segments of every message the search is for. -/
theorem ranksMailbox_of_topMessages {engine : Engine Score} {docs : List IndexDoc}
    {keep : String → Bool}
    (kept : ∀ id, keep id = true ↔ Wanted chrono toLowercase scope store args id)
    (indexed : ∀ row ∈ store.messages.rows,
      Eligible chrono toLowercase scope store args row → segmentsOf row ⊆ docs)
    {accountIds : List String} {hits : List (Hit Score)} {results : List (SearchHitDto Score)}
    (top : TopMessages engine ⟨args.q, mode, wantedHits args, accountIds⟩
      (docs.filter fun doc => keep doc.messageId) hits)
    (answers : List.Forall₂ (Answers chrono toLowercase scope store args mode) hits results) :
    RanksMailbox engine chrono toLowercase scope store args mode results := by
  obtain ⟨ids, scores⟩ := map_messageId_of_answers answers
  have segments : ∀ row ∈ store.messages.rows,
      Eligible chrono toLowercase scope store args row → ∀ doc ∈ segmentsOf row,
        doc ∈ (docs.filter fun doc => keep doc.messageId) ∧ doc.messageId = row.messageId := by
    intro row stored eligible doc member
    have sameId : doc.messageId = row.messageId := (mem_docs member).1
    refine ⟨List.mem_filter.mpr ⟨indexed row stored eligible member, ?_⟩, sameId⟩
    rw [sameId, kept]
    exact ⟨row, stored, rfl, eligible⟩
  constructor
  · rw [ids]
    exact top.distinct
  · have sorted : (hits.map (·.score)).Pairwise fun earlier later => later ≤ earlier :=
      List.pairwise_map.mpr top.sorted
    rw [← scores] at sorted
    exact List.pairwise_map.mp sorted
  · intro result member
    obtain ⟨position, inside, rfl⟩ := List.mem_iff_getElem.mp member
    have hitInside : position < hits.length := by rwa [answers.length_eq]
    obtain ⟨row, stored, sameId, eligible, shown⟩ := answers.get hitInside inside
    refine ⟨row, stored, eligible, ⟨_, sameId.symm, shown⟩, ?_⟩
    intro doc isSegment
    obtain ⟨inDocs, docId⟩ := segments row stored eligible doc isSegment
    rw [show results[position].score = (hits.get ⟨position, hitInside⟩).score from
      Answers.score ⟨row, stored, sameId, eligible, shown⟩]
    exact top.highest _ (List.get_mem hits _) doc inDocs (docId.trans sameId)
  · intro wanted nodup isWanted
    have sameIds : ((docs.filter fun doc => keep doc.messageId).map
        IndexDoc.messageId).dedup.Perm (wanted.map (·.messageId)) := by
      refine (List.perm_ext_iff_of_nodup (List.nodup_dedup _) ?_).mpr ?_
      · refine nodup.map_on ?_
        intro first firstWanted second secondWanted sameId
        exact store.messages.eq_of_conflict SameMessage.symmetric
          ((isWanted first).mp firstWanted).1 ((isWanted second).mp secondWanted).1 (.inl sameId)
      · intro id
        simp only [List.mem_dedup, List.mem_map, List.mem_filter]
        constructor
        · rintro ⟨doc, ⟨_, isKept⟩, rfl⟩
          obtain ⟨row, stored, sameId, eligible⟩ := (kept _).mp isKept
          exact ⟨row, (isWanted row).mpr ⟨stored, eligible⟩, sameId⟩
        · rintro ⟨row, member, rfl⟩
          obtain ⟨stored, eligible⟩ := (isWanted row).mp member
          obtain ⟨doc, isSegment⟩ := List.exists_mem_of_ne_nil _
            (docs_ne_nil ⟨row.messageId, documentOf row⟩)
          obtain ⟨inDocs, docId⟩ := segments row stored eligible doc isSegment
          exact ⟨doc, List.mem_filter.mp inDocs, docId⟩
    have count := top.count
    rw [sameIds.length_eq, List.length_map] at count
    rw [← answers.length_eq, count]
  · intro row stored eligible omitted last isLast doc isSegment
    obtain ⟨inDocs, docId⟩ := segments row stored eligible doc isSegment
    rw [ids, ← docId] at omitted
    have lastScore := congrArg List.getLast? scores
    rw [List.getLast?_map, List.getLast?_map, isLast, Option.map_some] at lastScore
    obtain ⟨lastHit, isLastHit, sameScore⟩ := Option.map_eq_some_iff.mp lastScore.symm
    have below := top.complete doc inDocs omitted lastHit isLastHit
    rwa [sameScore] at below

end Answer

section Sample

def thirdAttempted : Indexing Search.sampleDb :=
  run (indexing samplePlatform .byText) (.fresh _ workAccounts) thirdAttempt

theorem thirdAttempted_eligible : ∀ row ∈ thirdAttempted.delivery.store.messages.rows,
    Eligible sampleChrono sampleLowercase sampleScope thirdAttempted.delivery.store oneResult
      row := by
  intro row stored
  refine ⟨?_, ?_, .inl rfl, ?_, ?_, ?_, ?_⟩
  · revert row
    decide
  · revert row
    decide
  · intro sender impossible
    cases impossible
  · intro folder impossible
    cases impossible
  · intro date midnight impossible
    cases impossible
  · intro date midnight impossible
    cases impossible

end Sample

end Scryd.Runtime
