import Scryd.Mcp.SearchResult
import Scryd.Search.BestHits

/-!
# The best messages a search can show

The `search` tool asks for five times the hits it returns, at least for 200, and
drops those the caller may not see or did not ask for.  The over-fetch makes its
answer exact as long as few enough messages of the index are dropped.
-/

namespace Scryd.Mcp

open Scryd.Foundation Scryd.Storage
open Scryd.Search (Mode SearchQuery Hit Engine HashOrder IndexDoc TopMessages Segmented
  maxSegmentsPerMessage usizeMax)

universe u

variable {Score : Type u} {chrono : Chrono} {toLowercase : String → String}
  {scope : AccountScope} {store : Store} {args : SearchArgs}

/-- The number of hits a search is for. -/
def wantedHits (args : SearchArgs) : Nat := min (max (args.limit.getD 20) 1) 200

/-- A message of the index that is stored and that the search is for. -/
def Wanted (chrono : Chrono) (toLowercase : String → String) (scope : AccountScope)
    (store : Store) (args : SearchArgs) (id : String) : Prop :=
  ∃ row ∈ store.messages.rows, row.messageId = id ∧
    Eligible chrono toLowercase scope store args row

/-- What the caller gets for a hit. -/
def Answers (chrono : Chrono) (toLowercase : String → String) (scope : AccountScope)
    (store : Store) (args : SearchArgs) (mode : Mode) (hit : Hit Score)
    (result : SearchHitDto Score) : Prop :=
  ∃ row ∈ store.messages.rows, row.messageId = hit.messageId ∧
    Eligible chrono toLowercase scope store args row ∧
      result = searchHit chrono row hit args.q mode

theorem Answers.messageId {mode : Mode} {hit : Hit Score} {result : SearchHitDto Score}
    (answers : Answers chrono toLowercase scope store args mode hit result) :
    result.messageId = hit.messageId := by
  obtain ⟨row, _, sameId, _, rfl⟩ := answers
  exact sameId

theorem Answers.score {mode : Mode} {hit : Hit Score} {result : SearchHitDto Score}
    (answers : Answers chrono toLowercase scope store args mode hit result) :
    result.score = hit.score := by
  obtain ⟨row, _, _, _, rfl⟩ := answers
  rfl

theorem not_wanted_of_isEmpty (nobody : (scopedIds scope store args).isEmpty = true)
    (id : String) : ¬ Wanted chrono toLowercase scope store args id := by
  rintro ⟨row, _, _, eligible⟩
  have member := (mem_scopedIds_iff row.accountId).mpr ⟨eligible.owned, eligible.listed⟩
  rw [List.isEmpty_iff.mp nobody] at member
  cases member

variable [LinearOrder Score]

/-- The query of a search for well-formed arguments. -/
def bestQuery (scope : AccountScope) (store : Store) (args : SearchArgs) (mode : Mode) :
    SearchQuery :=
  ⟨args.q, mode, max (5 * wantedHits args) 200, (scopedIds scope store args).map (·.text)⟩

omit [LinearOrder Score] in
theorem answers_filterMap {toResult : Hit Score → Option (SearchHitDto Score)} {mode : Mode}
    (isResult : ∀ hit result, toResult hit = some result ↔
      Answers chrono toLowercase scope store args mode hit result)
    {hits : List (Hit Score)} (shown : ∀ hit ∈ hits, (toResult hit).isSome = true) :
    List.Forall₂ (Answers chrono toLowercase scope store args mode) hits
      (hits.filterMap toResult) :=
  (forall₂_filterMap_of_isSome toResult hits shown).imp fun hit result some_result =>
    (isResult hit result).mp some_result

/-- A search answers the first wanted hits that it is for. -/
theorem search_answers (engine : Engine Score) (hash : HashOrder Score) (chrono : Chrono)
    (toLowercase : String → String) (scope : AccountScope) (backend : SearchBackend)
    {args : SearchArgs} {mode : Mode}
    (validMode : Mode.fromStr (args.mode.getD "fulltext") = some mode)
    (validSince : ValidDate chrono args.since) (validUntil : ValidDate chrono args.untilDate) :
    ∃ (keep : String → Bool) (results : List (SearchHitDto Score)),
      (∀ id, keep id = true ↔ Wanted chrono toLowercase scope backend.store args id) ∧
      search engine hash chrono toLowercase scope backend args = .ok ⟨results, mode.asStr⟩ ∧
      List.Forall₂ (Answers chrono toLowercase scope backend.store args mode)
        (((Search.search engine hash (bestQuery scope backend.store args mode)
          backend.index).filter fun hit => keep hit.messageId).take (wantedHits args)) results := by
  have parsed := searchParams_ok validMode validSince validUntil
  cases nobody : (scopedIds scope backend.store args).isEmpty with
  | true =>
      refine ⟨fun _ => false, [], ?_, ?_, ?_⟩
      · exact fun id => iff_of_false (by simp) (not_wanted_of_isEmpty nobody id)
      · simp only [search, parsed, nobody, if_true, parsedParams]
      · rw [List.filter_false, List.take_nil]
        exact .nil
  | false =>
      let params := parsedParams chrono args mode
      let narrowed := scopedIds scope backend.store args
      let toResult : Hit Score → Option (SearchHitDto Score) :=
        searchResult chrono toLowercase backend.store args params narrowed
      let keep : String → Bool := fun id =>
        (matchingRow toLowercase backend.store args params narrowed id).isSome
      have keepHit : ∀ hit : Hit Score, (toResult hit).isSome = keep hit.messageId :=
        fun hit => Option.isSome_map
      have asked : searchQuery args params narrowed = bestQuery scope backend.store args mode := by
        rw [searchQuery, parsedParams_k]
        rfl
      refine ⟨keep, _, ?_, search_ok parsed nobody hash, ?_⟩
      · intro id
        rw [Option.isSome_iff_exists]
        refine exists_congr fun row => ?_
        rw [matchingRow_eq_some_iff, passes_iff_eligible nobody]
      · rw [collectHits_eq, asked]
        simp only [← keepHit]
        apply answers_filterMap (searchResult_eq_some_iff nobody mode)
        intro hit member
        exact (List.mem_filter.mp (List.mem_of_mem_take member)).2

/-- The over-fetch makes these hits the best ones, if `others` names the messages of the index that
the search is not for and there are few of them. -/
theorem bestQuery_topMessages (engine : Engine Score) (hash : HashOrder Score)
    {backend : SearchBackend} (segmented : Segmented backend.index) {args : SearchArgs}
    (mode : Mode) {keep : String → Bool}
    (kept : ∀ id, keep id = true ↔ Wanted chrono toLowercase scope backend.store args id)
    {others : List String}
    (crowd : ∀ doc ∈ backend.index.documents.rows,
      ¬ Wanted chrono toLowercase scope backend.store args doc.messageId → doc.messageId ∈ others)
    (few : others.length + wantedHits args ≤ max (5 * wantedHits args) 200) :
    TopMessages engine { bestQuery scope backend.store args mode with k := wantedHits args }
      (backend.index.documents.rows.filter fun doc => keep doc.messageId)
      (((Search.search engine hash (bestQuery scope backend.store args mode)
        backend.index).filter fun hit => keep hit.messageId).take (wantedHits args)) := by
  have small : wantedHits args ≤ 200 := Nat.min_le_right _ _
  have fits : max (5 * wantedHits args) 200 * maxSegmentsPerMessage ≤ usizeMax := by
    have segments : maxSegmentsPerMessage = 8 := rfl
    rw [segments, usizeMax]
    omega
  refine @Search.filtered_topMessages _ _ engine (bestQuery scope backend.store args mode) hash
    backend.index segmented fits keep (wantedHits args) others ?_ few
  intro doc isDoc notKept
  refine crowd doc isDoc fun isWanted => ?_
  rw [← kept, notKept] at isWanted
  cases isWanted

/-- A search answers with the best messages that it is for, if the others in the index are at
most the over-fetch: 180 of them for a page of 20 hits. -/
theorem search_answers_best (engine : Engine Score) (hash : HashOrder Score) (chrono : Chrono)
    (toLowercase : String → String) (scope : AccountScope) (backend : SearchBackend)
    (segmented : Segmented backend.index) (args : SearchArgs) (mode : Mode)
    (validMode : Mode.fromStr (args.mode.getD "fulltext") = some mode)
    (validSince : ValidDate chrono args.since) (validUntil : ValidDate chrono args.untilDate)
    (others : List String)
    (crowd : ∀ doc ∈ backend.index.documents.rows,
      ¬ Wanted chrono toLowercase scope backend.store args doc.messageId → doc.messageId ∈ others)
    (few : others.length + wantedHits args ≤ max (5 * wantedHits args) 200) :
    ∃ (hits : List (Hit Score)) (results : List (SearchHitDto Score)) (keep : String → Bool),
      search engine hash chrono toLowercase scope backend args = .ok ⟨results, mode.asStr⟩ ∧
      List.Forall₂ (Answers chrono toLowercase scope backend.store args mode) hits results ∧
      (∀ id, keep id = true ↔ Wanted chrono toLowercase scope backend.store args id) ∧
      TopMessages engine { bestQuery scope backend.store args mode with k := wantedHits args }
        (backend.index.documents.rows.filter fun doc => keep doc.messageId) hits := by
  obtain ⟨keep, results, kept, answered, answers⟩ := search_answers engine hash chrono toLowercase
    scope backend validMode validSince validUntil
  exact ⟨_, results, keep, answered, answers, kept,
    bestQuery_topMessages engine hash segmented mode kept crowd few⟩

section Sample

theorem wanted_own : Wanted epochChrono sampleLowercase sampleScope sharedSearch.store datedArgs
    "work:1" :=
  ⟨sampleRow ownId 1, by decide, by decide, eligible_ownRow⟩

theorem foreign_not_wanted : ¬ Wanted epochChrono sampleLowercase sampleScope sharedSearch.store
    datedArgs "home:1" := by
  rintro ⟨row, stored, isId, eligible⟩
  have owned := (mem_allowedAccountIds_iff sharedSearch.store _).mpr eligible.owned
  rcases List.mem_pair.mp stored with rfl | rfl
  · revert owned
    decide
  · revert isId
    decide

/-- The foreign mail scores more, and the own one is found. -/
theorem search_answers_best_shared :
    ∃ result, search sampleEngine insertionOrder epochChrono sampleLowercase sampleScope
        sharedSearch datedArgs = .ok ⟨[result], "fulltext"⟩ ∧ result.messageId = "work:1" := by
  obtain ⟨hits, results, keep, answered, shown, kept, top⟩ := search_answers_best sampleEngine
    insertionOrder epochChrono sampleLowercase sampleScope sharedSearch
    (by intro doc member; revert doc; decide) datedArgs .fullText rfl validDate_datedArgs nofun
    ["home:1"] (by
      intro doc member unwanted
      rcases List.mem_pair.mp member with rfl | rfl
      · exact List.mem_singleton.mpr rfl
      · exact absurd wanted_own unwanted) (by decide)
  have ownKept : keep "work:1" = true := (kept "work:1").mpr wanted_own
  have foreignDropped : keep "home:1" = false := by
    rw [Bool.eq_false_iff, Ne, kept]
    exact foreign_not_wanted
  have docs : (sharedSearch.index.documents.rows.filter fun doc => keep doc.messageId) =
      [ownDoc] := by
    simp [sharedSearch, ownDoc, ownKept, foreignDropped]
  rw [docs] at top
  obtain ⟨hit, rfl⟩ := List.length_eq_one_iff.mp (top.count.trans (by decide))
  rcases shown with _ | ⟨answers, rest⟩
  cases rest
  obtain ⟨doc, isDoc, sameId, _⟩ := top.attained hit (List.mem_singleton.mpr rfl)
  refine ⟨_, answered, ?_⟩
  rw [answers.messageId, ← sameId, List.mem_singleton.mp isDoc]
  rfl

end Sample

end Scryd.Mcp
