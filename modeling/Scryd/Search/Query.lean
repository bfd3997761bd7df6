import Scryd.Foundation.Selection
import Scryd.Search.Witchcraft
import Mathlib.Data.List.Induction

/-!
# `WitchcraftIndexer::search`

The engine returns the best documents of the whole index.  The handle keeps the
best document of each message in a hash map, sorts what the map yields by score
and truncates.
-/

namespace Scryd.Search

open Scryd.Foundation

universe u

inductive Mode where
  | fullText
  | semantic
  | hybrid
  deriving DecidableEq

def Mode.asStr : Mode → String
  | .fullText => "fulltext"
  | .semantic => "semantic"
  | .hybrid => "hybrid"

def Mode.fromStr (text : String) : Option Mode :=
  if text = "fulltext" then some .fullText
  else if text = "semantic" then some .semantic
  else if text = "hybrid" then some .hybrid
  else none

theorem Mode.fromStr_asStr (mode : Mode) : Mode.fromStr mode.asStr = some mode := by
  cases mode <;> decide

/-- `K_MIN` and `K_MULTIPLIER` of the searcher. -/
def kMin : Nat := 200

def kMultiplier : Nat := 5

/-- The indexer does not read `account_ids`. -/
structure SearchQuery where
  q : String
  mode : Mode
  k : Nat
  accountIds : List String

structure Hit (Score : Type u) where
  messageId : String
  score : Score
  semanticSnippet : Option String

/-- `witchcraft::search`: a score of each document for a query, with or without full text, the
matching region of the document, and a fixed order of the documents for ties. -/
structure Engine (Score : Type u) where
  score : String → Bool → IndexDoc → Score
  region : String → Bool → IndexDoc → Option String
  tieRank : String → Nat
  tieRank_injective : Function.Injective tieRank

/-- The order in which a hash map yields its entries. -/
structure HashOrder (Score : Type u) where
  arrange : List (Hit Score) → List (Hit Score)
  perm : ∀ entries, (arrange entries).Perm entries

variable {Score : Type u} [LinearOrder Score]

def SearchQuery.useFulltext (query : SearchQuery) : Bool := query.mode != .semantic

def Engine.rank (engine : Engine Score) (query : SearchQuery) (doc : IndexDoc) :
    Lex (OrderDual Score × Nat) :=
  toLex (OrderDual.toDual (engine.score query.q query.useFulltext doc), engine.tieRank doc.uuid)

def Engine.search (engine : Engine Score) (query : SearchQuery) (rawK : Nat)
    (documents : List IndexDoc) : List IndexDoc :=
  (sortBy (engine.rank query) documents).take rawK

/-- The entry a document gives its message. -/
def Engine.hit (engine : Engine Score) (query : SearchQuery) (doc : IndexDoc) : Hit Score where
  messageId := doc.messageId
  score := engine.score query.q query.useFulltext doc
  semanticSnippet :=
    if query.mode = .fullText then none else engine.region query.q query.useFulltext doc

/-- `best.entry(id).and_modify(..).or_insert(..)`, with the entries in insertion order. -/
def recordBest (best : List (Hit Score)) (found : Hit Score) : List (Hit Score) :=
  if found.messageId ∈ best.map (·.messageId) then
    best.map fun cur =>
      if cur.messageId = found.messageId ∧ cur.score < found.score then found else cur
  else
    best ++ [found]

def collapse (engine : Engine Score) (query : SearchQuery) (raw : List IndexDoc) :
    List (Hit Score) :=
  raw.foldl (fun best doc => recordBest best (engine.hit query doc)) []

def rawK (k : Nat) : Nat := max (min (k * maxSegmentsPerMessage) usizeMax) k

/-- The messages that have a document among the best ones, each with its best document. -/
def candidates (engine : Engine Score) (query : SearchQuery) (state : State) :
    List (Hit Score) :=
  collapse engine query (engine.search query (rawK query.k) state.documents.rows)

def search (engine : Engine Score) (hash : HashOrder Score) (query : SearchQuery)
    (state : State) : List (Hit Score) :=
  (sortBy (fun hit => OrderDual.toDual hit.score)
    (hash.arrange (candidates engine query state))).take query.k

section Collapse

variable {engine : Engine Score} {query : SearchQuery}

/-- On a ranking, no later document improves on the first one of its message. -/
theorem collapse_eq {raw : List IndexDoc}
    (sorted : raw.Pairwise fun earlier later =>
      (engine.hit query later).score ≤ (engine.hit query earlier).score) :
    collapse engine query raw = (keepFirst IndexDoc.messageId raw).map (engine.hit query) := by
  induction raw using List.reverseRecOn with
  | nil => rfl
  | append_singleton earlier last inductionHypothesis =>
      obtain ⟨earlierSorted, _, best⟩ := List.pairwise_append.mp sorted
      have before := inductionHypothesis earlierSorted
      unfold collapse at before ⊢
      rw [List.foldl_append, before, List.foldl_cons, List.foldl_nil,
        keepFirst_append_singleton]
      have sameIds : (((keepFirst IndexDoc.messageId earlier).map (engine.hit query)).map
          (·.messageId)) = (keepFirst IndexDoc.messageId earlier).map IndexDoc.messageId := by
        simp [Engine.hit]
      have idOf : (engine.hit query last).messageId = last.messageId := rfl
      simp only [recordBest, sameIds, idOf, mem_keys_keepFirst]
      split
      next seen =>
        rw [List.map_map]
        apply List.map_congr_left
        intro doc kept
        have inRaw := (keepFirst_sublist IndexDoc.messageId earlier).subset kept
        have worse := best doc inRaw last (List.mem_singleton.mpr rfl)
        rw [Function.comp_apply, if_neg]
        exact fun improves => absurd improves.2 (not_lt.mpr worse)
      next fresh => simp

theorem engine_search_sorted (rawK : Nat) (documents : List IndexDoc) :
    (engine.search query rawK documents).Pairwise fun earlier later =>
      (engine.hit query later).score ≤ (engine.hit query earlier).score := by
  apply ((sortBy_sorted (engine.rank query) documents).sublist (List.take_sublist _ _)).imp
  intro earlier later ordered
  rcases (Prod.Lex.le_iff.mp ordered) with better | tie
  · exact le_of_lt better
  · exact le_of_eq tie.1.symm

theorem candidates_eq (state : State) : candidates engine query state =
    (keepFirst IndexDoc.messageId
      (engine.search query (rawK query.k) state.documents.rows)).map (engine.hit query) :=
  collapse_eq (engine_search_sorted _ _)

theorem candidates_nodup (state : State) : (candidates engine query state).Nodup := by
  rw [candidates_eq]
  apply List.Nodup.of_map Hit.messageId
  rw [List.map_map]
  exact keepFirst_nodup IndexDoc.messageId _

/-- In a small index with one document for each message, every document is a candidate. -/
theorem candidates_perm {state : State}
    (small : state.documents.rows.length ≤ rawK query.k)
    (single : (state.documents.rows.map IndexDoc.messageId).Nodup) :
    (candidates engine query state).Perm (state.documents.rows.map (engine.hit query)) := by
  have ranking := sortBy_perm (engine.rank query) state.documents.rows
  have whole : engine.search query (rawK query.k) state.documents.rows =
      sortBy (engine.rank query) state.documents.rows := by
    apply List.take_of_length_le
    rw [ranking.length_eq]
    exact small
  rw [candidates_eq, whole,
    keepFirst_eq_self (((ranking.map IndexDoc.messageId).nodup_iff).mpr single)]
  exact ranking.map _

omit [LinearOrder Score] in
/-- Documents with the same rank for a query are the same document. -/
theorem rank_apart (state : State) {first second : IndexDoc}
    (firstStored : first ∈ state.documents.rows) (secondStored : second ∈ state.documents.rows)
    (same : engine.rank query first = engine.rank query second) : first = second := by
  have sameUuid : first.uuid = second.uuid :=
    engine.tieRank_injective (congrArg (fun rank => (ofLex rank).2) same)
  exact state.documents.eq_of_conflict SameUuid.symmetric firstStored secondStored sameUuid

/-- A candidate is the best document of its message in the whole index. -/
theorem candidate_best {state : State} {hit : Hit Score}
    (isCandidate : hit ∈ candidates engine query state) :
    ∃ doc, hit = engine.hit query doc ∧
      (sortBy (engine.rank query) (state.documents.rows.filter fun other =>
        decide (other.messageId = hit.messageId))).head? = some doc := by
  rw [candidates_eq] at isCandidate
  obtain ⟨doc, kept, rfl⟩ := List.mem_map.mp isCandidate
  refine ⟨doc, rfl, ?_⟩
  rw [← filter_sortBy _ _ _ fun first firstIn second secondIn =>
    rank_apart state firstIn secondIn, List.head?_filter]
  have inRaw := find?_of_mem_keepFirst kept
  exact ((List.take_prefix _ _).find?_eq_some inRaw)

/-- Two indexes with the same documents of a message give it the same entry. -/
theorem candidate_congr {left right : State} {leftHit rightHit : Hit Score}
    (leftIn : leftHit ∈ candidates engine query left)
    (rightIn : rightHit ∈ candidates engine query right)
    (sameId : leftHit.messageId = rightHit.messageId)
    (sameDocs : ∀ doc : IndexDoc, doc.messageId = leftHit.messageId →
      (doc ∈ left.documents.rows ↔ doc ∈ right.documents.rows)) : leftHit = rightHit := by
  obtain ⟨leftDoc, rfl, leftBest⟩ := candidate_best leftIn
  obtain ⟨rightDoc, rfl, rightBest⟩ := candidate_best rightIn
  have sameRanking := @sortBy_filter_congr _ _ _ (engine.rank query) _ _
    (fun other => decide (other.messageId = (engine.hit query leftDoc).messageId))
    (left.documents.nodup SameUuid.reflexive) (right.documents.nodup SameUuid.reflexive)
    (fun doc isId => sameDocs doc (of_decide_eq_true isId))
    (fun first firstIn second secondIn => rank_apart left firstIn secondIn)
  rw [sameRanking, sameId, rightBest] at leftBest
  rw [Option.some.inj leftBest]

end Collapse

section Overfetch

/-- Every document is one of the segments its message can have. -/
def Segmented (state : State) : Prop :=
  ∀ doc ∈ state.documents.rows, doc.seg < maxSegmentsPerMessage

theorem Segmented.addDoc {state : State} (segmented : Segmented state) {doc : IndexDoc}
    (inRange : doc.seg < maxSegmentsPerMessage) : Segmented (state.addDoc doc) := by
  intro other member
  rcases List.mem_append.mp member with kept | added
  · exact segmented other (List.mem_of_mem_filter kept)
  · rw [List.mem_singleton.mp added]
    exact inRange

theorem Segmented.submit {state : State} (segmented : Segmented state)
    (submission : IndexSubmit) : Segmented (Search.submit state submission) := by
  have inRange : ∀ doc ∈ submission.docs, doc.seg < maxSegmentsPerMessage := by
    intro doc member
    obtain ⟨idx, inside, rfl⟩ := List.mem_mapIdx.mp member
    exact inside.trans_le (splitForIndex_length_le submission.document)
  suffices general : ∀ (docs : List IndexDoc) (state : State),
      (∀ doc ∈ docs, doc.seg < maxSegmentsPerMessage) → Segmented state →
      Segmented (docs.foldl State.addDoc state) from
    general submission.docs state inRange segmented
  intro docs
  induction docs with
  | nil => exact fun _ _ holds => holds
  | cons doc rest inductionHypothesis =>
      intro state allInRange holds
      apply inductionHypothesis
      · exact fun other member => allInRange other (List.mem_cons_of_mem doc member)
      · exact holds.addDoc (allInRange doc List.mem_cons_self)

/-- The documents of a message are as few as its segments. -/
theorem Segmented.length_filter_le {state : State} (segmented : Segmented state) (id : String) :
    (state.documents.rows.filter fun doc => decide (doc.messageId = id)).length ≤
      maxSegmentsPerMessage := by
  let segs := (state.documents.rows.filter fun doc => decide (doc.messageId = id)).map
    IndexDoc.seg
  have distinct : segs.Nodup := by
    apply List.Nodup.map_on _ ((state.documents.nodup SameUuid.reflexive).filter _)
    intro first firstIn second secondIn sameSeg
    obtain ⟨firstStored, firstId⟩ := List.mem_filter.mp firstIn
    obtain ⟨secondStored, secondId⟩ := List.mem_filter.mp secondIn
    apply state.documents.eq_of_conflict SameUuid.symmetric firstStored secondStored
    simp only [SameUuid, IndexDoc.uuid, of_decide_eq_true firstId, of_decide_eq_true secondId,
      sameSeg]
  have inRange : segs ⊆ List.range maxSegmentsPerMessage := by
    intro seg member
    obtain ⟨doc, kept, rfl⟩ := List.mem_map.mp member
    exact List.mem_range.mpr (segmented doc (List.mem_of_mem_filter kept))
  have bounded := (List.subperm_of_subset distinct inRange).length_le
  simpa [segs] using bounded

variable {engine : Engine Score} {query : SearchQuery}

/-- Unless the multiplication saturates, the engine is asked for `k` times the segment bound. -/
theorem rawK_eq {k : Nat} (fits : k * maxSegmentsPerMessage ≤ usizeMax) :
    rawK k = k * maxSegmentsPerMessage := by
  have positive : 0 < maxSegmentsPerMessage := by decide
  rw [rawK, Nat.min_eq_left fits]
  exact Nat.max_eq_left (Nat.le_mul_of_pos_right _ positive)

/-- Asking for `k` times the segment bound is enough: the first `k` candidates are the best
`k` messages of the whole index. -/
theorem candidates_complete {state : State} (segmented : Segmented state)
    (fits : query.k * maxSegmentsPerMessage ≤ usizeMax) :
    (candidates engine query state).take query.k =
      ((keepFirst IndexDoc.messageId
        (sortBy (engine.rank query) state.documents.rows)).take query.k).map
          (engine.hit query) := by
  rw [candidates_eq, Engine.search, rawK_eq fits, Nat.mul_comm, ← List.map_take,
    take_keepFirst_take]
  intro id
  rw [((sortBy_perm (engine.rank query) state.documents.rows).filter _).length_eq]
  exact segmented.length_filter_le id

end Overfetch

section Ranked

variable {engine : Engine Score} {query : SearchQuery}

/-- A search truncates some ranking of the candidates. -/
theorem search_ranked (hash : HashOrder Score) (state : State) :
    ∃ ranked, Ranks Hit.score (candidates engine query state) ranked ∧
      search engine hash query state = ranked.take query.k := by
  refine ⟨_, ⟨(sortBy_perm _ _).trans (hash.perm _), ?_⟩, rfl⟩
  exact (sortBy_sorted (fun hit : Hit Score => OrderDual.toDual hit.score) _).imp
    fun {first second} ordered => ordered

/-- The hash map can make it any of them. -/
theorem ranked_search {state : State} {ranked : List (Hit Score)}
    (ranks : Ranks Hit.score (candidates engine query state) ranked) :
    ∃ hash, search engine hash query state = ranked.take query.k := by
  classical
  refine ⟨⟨fun entries => if entries = candidates engine query state then ranked else entries,
    ?_⟩, ?_⟩
  · intro entries
    split
    next same =>
      rw [same]
      exact ranks.perm
    next => exact List.Perm.refl entries
  · simp only [search, if_true]
    congr 1
    exact List.Pairwise.insertionSort_eq ranks.sorted

/-- What holds of a search for every order of the hash map holds of every truncated ranking. -/
theorem forall_search_iff (state : State) (property : List (Hit Score) → Prop) :
    (∀ hash, property (search engine hash query state)) ↔
      ∀ ranked, Ranks Hit.score (candidates engine query state) ranked →
        property (ranked.take query.k) := by
  constructor
  · intro holds ranked ranks
    obtain ⟨hash, same⟩ := ranked_search ranks
    rw [← same]
    exact holds hash
  · intro holds hash
    obtain ⟨ranked, ranks, same⟩ := search_ranked hash state
    rw [same]
    exact holds ranked ranks

end Ranked

end Scryd.Search
