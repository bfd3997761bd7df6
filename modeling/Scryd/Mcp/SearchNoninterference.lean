import Scryd.Mcp.Noninterference
import Scryd.Mcp.Search

/-!
# What a search may depend on

The filters let only the scope's own live messages through, but they are applied
to the `k` best messages of the whole index.  A search is a function of what its
scope may see exactly when no competitor it may not see changes which of its
hits are among these, and no tie is left to the hash map.
-/

namespace Scryd.Mcp

open Scryd.Foundation Scryd.Storage
open Scryd.Search (Hit Engine HashOrder IndexDoc candidates candidate_congr candidates_nodup
  candidates_perm forall_search_iff search_ranked)

universe u

variable {scope : AccountScope} {toLowercase : String → String} {chrono : Chrono}

/-- Two states in which the scope owns the same accounts, the same live messages and the same
index documents of these. -/
structure SameSearchView (scope : AccountScope) (left right : SearchBackend) : Prop where
  accounts : SameOwned scope left.store right.store
  messages : ∀ row : MessageRow, row.accountId ∈ scope.allowedAccountIds left.store →
    row.tombstonedAt = none →
    (row ∈ left.store.messages.rows ↔ row ∈ right.store.messages.rows)
  documents : ∀ row ∈ left.store.messages.rows,
    row.accountId ∈ scope.allowedAccountIds left.store → row.tombstonedAt = none →
    ∀ doc : IndexDoc, doc.messageId = row.messageId →
      (doc ∈ left.index.documents.rows ↔ doc ∈ right.index.documents.rows)

theorem matchingRow_eq_some_iff (store : Store) (args : SearchArgs) (params : SearchParams)
    (narrowed : List AccountId) (id : String) (row : MessageRow) :
    matchingRow toLowercase store args params narrowed id = some row ↔
      row ∈ store.messages.rows ∧ row.messageId = id ∧ row.tombstonedAt = none ∧
        filterMatch toLowercase row args narrowed params.sinceTs params.untilTs = true := by
  rw [← and_assoc, ← getMessage_eq_some_iff]
  unfold matchingRow
  cases Storage.getMessage store id with
  | none => simp
  | some other =>
      simp only
      split
      next passes =>
        rw [Bool.and_eq_true, Option.isNone_iff_eq_none] at passes
        constructor
        · intro same
          cases same
          exact ⟨rfl, passes⟩
        · exact fun found => found.1
      next fails =>
        rw [Bool.and_eq_true, Option.isNone_iff_eq_none] at fails
        constructor
        · exact nofun
        · rintro ⟨same, passes⟩
          cases same
          exact absurd passes fails

theorem mem_of_filterMatch {row : MessageRow} {args : SearchArgs} {narrowed : List AccountId}
    {sinceTs untilTs : Option Int} (nonempty : narrowed.isEmpty = false)
    (passes : filterMatch toLowercase row args narrowed sinceTs untilTs = true) :
    row.accountId ∈ narrowed := by
  simp only [filterMatch, Bool.and_eq_true, nonempty, Bool.false_or, isAllowed_iff] at passes
  exact passes.1.1.2

theorem mem_of_mem_narrow {allowed : List AccountId} {caller : List String} {id : AccountId}
    (member : id ∈ narrow allowed caller) : id ∈ allowed := by
  unfold narrow at member
  split at member
  · exact member
  · exact List.mem_of_mem_filter member

/-- A message that passes the filters is one of the scope's own live messages. -/
theorem matchingRow_own {store : Store} {args : SearchArgs} {params : SearchParams}
    {id : String} {row : MessageRow} (nonempty : (scopedIds scope store args).isEmpty = false)
    (found : matchingRow toLowercase store args params (scopedIds scope store args) id =
      some row) :
    row ∈ store.messages.rows ∧ row.messageId = id ∧ row.tombstonedAt = none ∧
      row.accountId ∈ scope.allowedAccountIds store := by
  obtain ⟨stored, isId, live, passes⟩ := (matchingRow_eq_some_iff _ _ _ _ _ _).mp found
  exact ⟨stored, isId, live, mem_of_mem_narrow (mem_of_filterMatch nonempty passes)⟩

variable {left right : SearchBackend} {args : SearchArgs} {params : SearchParams}

theorem SameSearchView.scopedIds_eq (same : SameSearchView scope left right)
    (args : SearchArgs) : scopedIds scope left.store args = scopedIds scope right.store args := by
  rw [scopedIds, scopedIds, same.accounts.allowedAccountIds_eq]

/-- The filters see the same rows in both states. -/
theorem SameSearchView.matchingRow_eq (same : SameSearchView scope left right)
    (nonempty : (scopedIds scope left.store args).isEmpty = false) (id : String) :
    matchingRow toLowercase left.store args params (scopedIds scope left.store args) id =
      matchingRow toLowercase right.store args params (scopedIds scope left.store args) id := by
  apply Option.ext
  intro row
  simp only [matchingRow_eq_some_iff]
  constructor
  · rintro ⟨stored, isId, live, passes⟩
    have allowed := mem_of_mem_narrow (mem_of_filterMatch nonempty passes)
    exact ⟨(same.messages row allowed live).mp stored, isId, live, passes⟩
  · rintro ⟨stored, isId, live, passes⟩
    have allowed := mem_of_mem_narrow (mem_of_filterMatch nonempty passes)
    exact ⟨(same.messages row allowed live).mpr stored, isId, live, passes⟩

variable {Score : Type u}

/-- Whether a hit gives a result.  Without an account to search nothing does. -/
def shows (toLowercase : String → String) (scope : AccountScope) (store : Store)
    (args : SearchArgs) (params : SearchParams) (hit : Hit Score) : Bool :=
  !(scopedIds scope store args).isEmpty &&
    (matchingRow toLowercase store args params (scopedIds scope store args)
      hit.messageId).isSome

/-- The results of the loop over a list of hits that all give one. -/
def results (chrono : Chrono) (toLowercase : String → String) (scope : AccountScope)
    (store : Store) (args : SearchArgs) (params : SearchParams) (hits : List (Hit Score)) :
    List (SearchHitDto Score) :=
  hits.filterMap
    (searchResult chrono toLowercase store args params (scopedIds scope store args))

/-- What the loop collects from a truncated ranking. -/
theorem collectHits_take {store : Store} (nonempty : (scopedIds scope store args).isEmpty = false)
    (ranked : List (Hit Score)) :
    collectHits (searchResult chrono toLowercase store args params (scopedIds scope store args))
        params.limit (ranked.take params.k) =
      results chrono toLowercase scope store args params
        (selectBest params.k params.limit (shows toLowercase scope store args params) ranked) := by
  rw [collectHits_eq, selectBest, results]
  congr 2
  apply List.filter_congr
  intro hit _
  simp [shows, searchResult, nonempty]

/-- The results name the messages they are for. -/
theorem messageIds_results {store : Store} {hits : List (Hit Score)}
    (shown : ∀ hit ∈ hits, shows toLowercase scope store args params hit = true) :
    (results chrono toLowercase scope store args params hits).map (·.messageId) =
      hits.map (·.messageId) := by
  induction hits with
  | nil => rfl
  | cons hit rest inductionHypothesis =>
      have first := shown hit List.mem_cons_self
      rw [shows, Bool.and_eq_true] at first
      obtain ⟨row, found⟩ := Option.isSome_iff_exists.mp first.2
      have isId := ((matchingRow_eq_some_iff _ _ _ _ _ _).mp found).2.1
      have later := inductionHypothesis fun other member =>
        shown other (List.mem_cons_of_mem hit member)
      simp only [results, searchResult, List.filterMap_cons, found, Option.map_some,
        List.map_cons, searchHit, isId] at later ⊢
      rw [later]

theorem SameSearchView.searchResult_eq (same : SameSearchView scope left right)
    (nonempty : (scopedIds scope left.store args).isEmpty = false) :
    (searchResult chrono toLowercase right.store args params
      (scopedIds scope left.store args) : Hit Score → Option (SearchHitDto Score)) =
        searchResult chrono toLowercase left.store args params
          (scopedIds scope left.store args) := by
  funext hit
  rw [searchResult, searchResult, same.matchingRow_eq nonempty hit.messageId]

variable [LinearOrder Score] {engine : Engine Score}

/-- What the tool answers, for one order of the hash map. -/
theorem search_ok {backend : SearchBackend} (parsed : searchParams chrono args = .ok params)
    (nonempty : (scopedIds scope backend.store args).isEmpty = false) (hash : HashOrder Score) :
    search engine hash chrono toLowercase scope backend args =
      .ok ⟨collectHits (searchResult chrono toLowercase backend.store args params
          (scopedIds scope backend.store args)) params.limit
        (Search.search engine hash (searchQuery args params
          (scopedIds scope backend.store args)) backend.index), params.mode.asStr⟩ := by
  simp only [search, parsed, nonempty, Bool.false_eq_true, if_false]

/-- The answer is what the selection from some ranking of the candidates shows. -/
theorem search_selected {backend : SearchBackend}
    (parsed : searchParams chrono args = .ok params)
    (nonempty : (scopedIds scope backend.store args).isEmpty = false) (hash : HashOrder Score) :
    ∃ ranked, Ranks Hit.score (candidates engine (searchQuery args params
        (scopedIds scope backend.store args)) backend.index) ranked ∧
      search engine hash chrono toLowercase scope backend args =
        .ok ⟨results chrono toLowercase scope backend.store args params
          (selectBest params.k params.limit (shows toLowercase scope backend.store args params)
            ranked), params.mode.asStr⟩ := by
  obtain ⟨ranked, ranks, truncated⟩ := search_ranked hash backend.index
  refine ⟨ranked, ranks, ?_⟩
  rw [search_ok parsed nonempty, truncated, ← collectHits_take nonempty]
  rfl

/-- Own hits with the same results are the same hits: the id decides the entry. -/
theorem results_eq_iff (same : SameSearchView scope left right)
    (nonempty : (scopedIds scope left.store args).isEmpty = false) {query : Search.SearchQuery}
    {leftHits rightHits : List (Hit Score)}
    (leftShown : ∀ hit ∈ leftHits, shows toLowercase scope left.store args params hit = true ∧
      hit ∈ candidates engine query left.index)
    (rightShown : ∀ hit ∈ rightHits, shows toLowercase scope left.store args params hit = true ∧
      hit ∈ candidates engine query right.index) :
    results chrono toLowercase scope left.store args params leftHits =
      results chrono toLowercase scope left.store args params rightHits ↔
    leftHits = rightHits := by
  constructor
  · intro sameResults
    have sameIds := congrArg (List.map (·.messageId)) sameResults
    rw [messageIds_results fun hit member => (leftShown hit member).1,
      messageIds_results fun hit member => (rightShown hit member).1] at sameIds
    apply eq_of_map_eq sameIds
    intro first firstIn second secondIn sameId
    obtain ⟨isShown, isCandidate⟩ := leftShown first firstIn
    apply candidate_congr isCandidate (rightShown second secondIn).2 sameId
    rw [shows, Bool.and_eq_true] at isShown
    obtain ⟨row, found⟩ := Option.isSome_iff_exists.mp isShown.2
    obtain ⟨stored, isId, live, allowed⟩ := matchingRow_own nonempty found
    intro doc ofMessage
    exact same.documents row stored allowed live doc (ofMessage.trans isId.symm)
  · intro sameHits
    rw [sameHits]

/-- Whatever own hit one of the states can show is a candidate in both, with fewer than `k`
candidates and fewer than `limit` own ones above it; and in both at most `k` candidates score
at least as much, and no other own one the same. -/
def UndisturbedFor (params : SearchParams) (visible : Hit Score → Bool)
    (left right : List (Hit Score)) : Prop :=
  ∀ hit, visible hit = true →
    (CanShow Hit.score params.k params.limit visible left hit ∨
      CanShow Hit.score params.k params.limit visible right hit) →
    (CanShow Hit.score params.k params.limit visible left hit ∧
      TieFree Hit.score params.k visible left hit) ∧
    (CanShow Hit.score params.k params.limit visible right hit ∧
      TieFree Hit.score params.k visible right hit)

/-- A search with these arguments, if they are well formed, is undisturbed. -/
def Undisturbed (engine : Engine Score) (chrono : Chrono) (toLowercase : String → String)
    (scope : AccountScope) (left right : SearchBackend) (args : SearchArgs) : Prop :=
  ∀ params, searchParams chrono args = .ok params →
    UndisturbedFor params (shows toLowercase scope left.store args params)
      (candidates engine (searchQuery args params (scopedIds scope left.store args)) left.index)
      (candidates engine (searchQuery args params (scopedIds scope left.store args)) right.index)

/-- What is selected from a ranking of the candidates are own candidates. -/
theorem own_of_selected {query : Search.SearchQuery} {state : Search.State}
    {visible : Hit Score → Bool} {ranked : List (Hit Score)}
    (ranks : Ranks Hit.score (candidates engine query state) ranked) :
    ∀ hit ∈ selectBest params.k params.limit visible ranked,
      visible hit = true ∧ hit ∈ candidates engine query state := by
  intro hit selected
  obtain ⟨isShown, can⟩ := ranks.canShow (candidates_nodup state) selected
  exact ⟨isShown, can.member⟩

/-- The search of well-formed arguments for some account. -/
theorem search_eq_iff_undisturbedFor (same : SameSearchView scope left right)
    (parsed : searchParams chrono args = .ok params)
    (nonempty : (scopedIds scope left.store args).isEmpty = false) :
    (∀ leftHash rightHash, search engine leftHash chrono toLowercase scope left args =
        search engine rightHash chrono toLowercase scope right args) ↔
      UndisturbedFor params (shows toLowercase scope left.store args params)
        (candidates engine (searchQuery args params (scopedIds scope left.store args)) left.index)
        (candidates engine (searchQuery args params (scopedIds scope left.store args))
          right.index) := by
  let query := searchQuery args params (scopedIds scope left.store args)
  let collected : List (Hit Score) → List (SearchHitDto Score) :=
    collectHits (searchResult chrono toLowercase left.store args params
      (scopedIds scope left.store args)) params.limit
  have sameIds := same.scopedIds_eq args
  have rightNonempty : (scopedIds scope right.store args).isEmpty = false := by
    rw [← sameIds]
    exact nonempty
  calc (∀ leftHash rightHash, search engine leftHash chrono toLowercase scope left args =
        search engine rightHash chrono toLowercase scope right args)
    _ ↔ ∀ leftHash rightHash, collected (Search.search engine leftHash query left.index) =
          collected (Search.search engine rightHash query right.index) := by
        apply forall_congr'
        intro leftHash
        apply forall_congr'
        intro rightHash
        rw [search_ok parsed nonempty, search_ok parsed rightNonempty, ← sameIds,
          same.searchResult_eq nonempty]
        simp [collected, query]
    _ ↔ ∀ leftRanked, Ranks Hit.score (candidates engine query left.index) leftRanked →
        ∀ rightRanked, Ranks Hit.score (candidates engine query right.index) rightRanked →
          collected (leftRanked.take params.k) = collected (rightRanked.take params.k) := by
        rw [forall_search_iff left.index fun hits => ∀ rightHash, collected hits =
          collected (Search.search engine rightHash query right.index)]
        apply forall_congr'
        intro leftRanked
        apply imp_congr_right
        intro _
        exact forall_search_iff right.index fun hits =>
          collected (leftRanked.take params.k) = collected hits
    _ ↔ ∀ leftRanked rightRanked,
        Ranks Hit.score (candidates engine query left.index) leftRanked →
        Ranks Hit.score (candidates engine query right.index) rightRanked →
        selectBest params.k params.limit (shows toLowercase scope left.store args params)
            leftRanked =
          selectBest params.k params.limit (shows toLowercase scope left.store args params)
            rightRanked := by
        simp only [collected, collectHits_take nonempty]
        constructor
        · intro sameResults leftRanked rightRanked leftRanks rightRanks
          exact (results_eq_iff same nonempty (own_of_selected leftRanks)
            (own_of_selected rightRanks)).mp
              (sameResults leftRanked leftRanks rightRanked rightRanks)
        · intro sameHits leftRanked leftRanks rightRanked rightRanks
          rw [sameHits leftRanked rightRanked leftRanks rightRanks]
    _ ↔ _ := selectBest_eq_iff (candidates_nodup left.index) (candidates_nodup right.index)

/-- The answer of the search tool is a function of what its scope may see, whatever order its
hash maps have, exactly when the search is undisturbed. -/
theorem search_eq_iff_undisturbed (engine : Engine Score) (chrono : Chrono)
    (toLowercase : String → String) (scope : AccountScope) (left right : SearchBackend)
    (same : SameSearchView scope left right) (args : SearchArgs) :
    (∀ leftHash rightHash, search engine leftHash chrono toLowercase scope left args =
        search engine rightHash chrono toLowercase scope right args) ↔
      Undisturbed engine chrono toLowercase scope left right args := by
  unfold Undisturbed
  cases parsed : searchParams chrono args with
  | error err =>
      constructor
      · intro _ params impossible
        cases impossible
      · intro _ leftHash rightHash
        simp only [search, parsed]
  | ok params =>
      cases noAccount : (scopedIds scope left.store args).isEmpty with
      | true =>
          constructor
          · intro _ otherParams isParams hit visible
            cases isParams
            rw [shows, noAccount] at visible
            cases visible
          · intro _ leftHash rightHash
            simp only [search, parsed, ← same.scopedIds_eq args, noAccount, if_true]
      | false =>
          rw [search_eq_iff_undisturbedFor same parsed noAccount]
          constructor
          · intro undisturbed otherParams isParams
            cases isParams
            exact undisturbed
          · exact fun undisturbed => undisturbed params rfl

section Sample

/-- Longer documents score more, and the engine returns them whole. -/
def sampleEngine : Engine Nat where
  score _ _ doc := doc.body.length
  region _ _ doc := some doc.body
  tieRank text := textRank text.toList
  tieRank_injective := textRank_toList_injective

def sampleLowercase (text : String) : String := String.ofList (text.toList.map asciiLower)

def oneResult : SearchArgs := { q := "hello", limit := some 1 }

def ownDoc : IndexDoc := ⟨"work:1", 0, 1, "hello"⟩

/-- One own mail, indexed as one document. -/
def quietSearch : SearchBackend where
  store := aloneBackend.store
  index := ⟨⟨[ownDoc], by decide⟩, [], false⟩

/-- Another account's mail beside it, indexed as a document that scores more. -/
def sharedSearch : SearchBackend where
  store := sharedBackend.store
  index := ⟨⟨[⟨"home:1", 0, 1, "hello hello"⟩, ownDoc], by decide⟩, [], false⟩

theorem sameSearchView_shared : SameSearchView sampleScope quietSearch sharedSearch where
  accounts := sameView_sample.accounts
  messages row allowed _ := sameView_sample.messages row allowed
  documents := by
    intro row stored _ _ doc ofRow
    simp only [quietSearch, aloneBackend, List.mem_singleton] at stored
    rw [stored] at ofRow
    simp only [quietSearch, sharedSearch, List.mem_cons, List.not_mem_nil, or_false]
    constructor
    · exact .inr
    · rintro (rfl | own)
      · exact absurd ofRow (by decide)
      · exact own

def crowdRow (n : Nat) : MessageRow :=
  { sampleRow foreignId (n + 1) with messageId := "home:" ++ String.ofList (List.replicate n 'a') }

def crowdDoc (n : Nat) : IndexDoc := ⟨(crowdRow n).messageId, 0, 1, "hello hello"⟩

theorem crowdRow_messageId_inj {first second : Nat}
    (same : (crowdRow first).messageId = (crowdRow second).messageId) : first = second := by
  have sameLength := congrArg (fun text : String => text.toList.length) same
  simpa [crowdRow] using sameLength

theorem ownDoc_ne_crowd (n : Nat) : (crowdRow n).messageId ≠ "work:1" := by
  intro same
  have sameText := congrArg String.toList same
  simp [crowdRow] at sameText

/-- The same, with two hundred mails of another account that score more. -/
def crowdedSearch : SearchBackend where
  store := ⟨sharedBackend.store.accounts, .empty,
    ⟨sampleRow ownId 1 :: (List.range 200).map crowdRow, by
      rw [List.pairwise_cons, List.pairwise_map]
      constructor
      · intro row member
        obtain ⟨n, _, rfl⟩ := List.mem_map.mp member
        rintro (sameId | sameKey)
        · exact ownDoc_ne_crowd n sameId.symm
        · have sameAccount : ownId = foreignId := congrArg MessageKey.accountId sameKey
          exact absurd sameAccount (by decide)
      · apply List.nodup_range.imp
        rintro first second different (sameId | sameKey)
        · exact different (crowdRow_messageId_inj sameId)
        · exact different (Nat.succ.inj (congrArg MessageKey.serverUid sameKey))⟩, .empty⟩
  index := ⟨⟨ownDoc :: (List.range 200).map crowdDoc, by
    rw [List.pairwise_cons, List.pairwise_map]
    constructor
    · intro doc member
      obtain ⟨n, _, rfl⟩ := List.mem_map.mp member
      exact fun same => ownDoc_ne_crowd n same.symm
    · apply List.nodup_range.imp
      exact fun different same => different (crowdRow_messageId_inj same)⟩, [], false⟩

theorem sameSearchView_crowded : SameSearchView sampleScope quietSearch crowdedSearch where
  accounts := sameView_sample.accounts
  messages := by
    intro row allowed _
    rw [quietSearch, allowedAccountIds_alone, List.mem_singleton] at allowed
    simp only [quietSearch, aloneBackend, crowdedSearch, List.mem_cons, List.not_mem_nil,
      or_false]
    constructor
    · exact .inl
    · rintro (own | crowd)
      · exact own
      · obtain ⟨n, _, rfl⟩ := List.mem_map.mp crowd
        have sameAccount : foreignId = ownId := allowed
        exact absurd sameAccount (by decide)
  documents := by
    intro row stored _ _ doc ofRow
    simp only [quietSearch, aloneBackend, List.mem_singleton] at stored
    rw [stored] at ofRow
    simp only [quietSearch, crowdedSearch, List.mem_cons, List.not_mem_nil, or_false]
    constructor
    · exact .inl
    · rintro (own | crowd)
      · exact own
      · obtain ⟨n, _, rfl⟩ := List.mem_map.mp crowd
        exact absurd ofRow (ownDoc_ne_crowd n)

def oneResultParams : SearchParams := ⟨.fullText, none, none, 1⟩

theorem oneResult_parsed : searchParams sampleChrono oneResult = .ok oneResultParams := by rfl

theorem scopedIds_crowded : scopedIds sampleScope crowdedSearch.store oneResult = [ownId] := by
  decide

theorem scopedIds_quiet : scopedIds sampleScope quietSearch.store oneResult = [ownId] := by
  decide

def sampleQuery : Search.SearchQuery := searchQuery oneResult oneResultParams [ownId]

theorem crowded_perm : (candidates sampleEngine sampleQuery crowdedSearch.index).Perm
    (crowdedSearch.index.documents.rows.map (sampleEngine.hit sampleQuery)) := by
  apply candidates_perm
  · simp only [crowdedSearch, List.length_cons, List.length_map, List.length_range]
    decide
  · simp only [crowdedSearch, List.map_cons, List.map_map, List.nodup_cons, List.mem_map,
      List.mem_range, Function.comp_apply]
    constructor
    · rintro ⟨n, _, same⟩
      exact ownDoc_ne_crowd n same
    · apply List.nodup_range.map
      exact fun first second same => crowdRow_messageId_inj same

/-- Every crowding document outscores the own one. -/
theorem crowdDoc_outscores (n : Nat) : (sampleEngine.hit sampleQuery ownDoc).score <
    (sampleEngine.hit sampleQuery (crowdDoc n)).score := by
  have body : (crowdDoc n).body = "hello hello" := rfl
  have longer : ownDoc.body.length < (crowdDoc n).body.length := by
    rw [body]
    decide
  exact longer

theorem above_crowded : above Hit.score (candidates sampleEngine sampleQuery crowdedSearch.index)
    (sampleEngine.hit sampleQuery ownDoc) = 200 := by
  rw [above_perm crowded_perm]
  simp only [crowdedSearch, List.map_cons]
  rw [above_cons_self, above_eq_length]
  · simp
  · intro hit member
    simp only [List.map_map, List.mem_map] at member
    obtain ⟨n, _, rfl⟩ := member
    exact crowdDoc_outscores n

/-- The own mail is no longer among the hits. -/
theorem crowded_selects_nothing {ranked : List (Hit Nat)}
    (ranks : Ranks Hit.score (candidates sampleEngine sampleQuery crowdedSearch.index) ranked) :
    selectBest oneResultParams.k oneResultParams.limit
      (shows sampleLowercase sampleScope crowdedSearch.store oneResult oneResultParams) ranked =
        [] := by
  rw [List.eq_nil_iff_forall_not_mem]
  intro hit selected
  obtain ⟨isShown, can⟩ := ranks.canShow (candidates_nodup crowdedSearch.index) selected
  rw [shows, Bool.and_eq_true] at isShown
  obtain ⟨row, found⟩ := Option.isSome_iff_exists.mp isShown.2
  obtain ⟨stored, isId, _, allowed⟩ := matchingRow_own (by rw [scopedIds_crowded]; rfl) found
  have sameAllowed : sampleScope.allowedAccountIds crowdedSearch.store = [ownId] := by decide
  rw [sameAllowed, List.mem_singleton] at allowed
  have own : hit.messageId = "work:1" := by
    rcases List.mem_cons.mp stored with rfl | crowd
    · exact isId.symm
    · obtain ⟨n, _, rfl⟩ := List.mem_map.mp crowd
      exact absurd (show foreignId = ownId from allowed) (by decide)
  obtain ⟨doc, indexed, rfl⟩ := List.mem_map.mp (crowded_perm.mem_iff.mp can.member)
  rcases List.mem_cons.mp indexed with rfl | crowd
  · have kept := can.kept
    rw [above_crowded] at kept
    exact absurd kept (by decide)
  · obtain ⟨n, _, rfl⟩ := List.mem_map.mp crowd
    exact ownDoc_ne_crowd n own

/-- Hash maps that yield their entries as they were inserted, and the other way round. -/
def insertionOrder : HashOrder Nat := ⟨id, fun entries => List.Perm.refl entries⟩

def reverseOrder : HashOrder Nat := ⟨List.reverse, List.reverse_perm⟩

/-- One foreign mail takes no place away from the own one. -/
theorem search_shared_eq :
    search sampleEngine insertionOrder sampleChrono sampleLowercase sampleScope quietSearch
        oneResult =
      search sampleEngine reverseOrder sampleChrono sampleLowercase sampleScope sharedSearch
        oneResult := by
  refine (search_eq_iff_undisturbed sampleEngine sampleChrono sampleLowercase sampleScope
    quietSearch sharedSearch sameSearchView_shared oneResult).mpr ?_ insertionOrder reverseOrder
  intro params parsed hit visible canShow
  rw [oneResult_parsed] at parsed
  cases parsed
  rw [scopedIds_quiet] at canShow ⊢
  have leftCandidates : candidates sampleEngine sampleQuery quietSearch.index =
      [sampleEngine.hit sampleQuery ownDoc] := rfl
  have rightCandidates : candidates sampleEngine sampleQuery sharedSearch.index =
      [sampleEngine.hit sampleQuery ⟨"home:1", 0, 1, "hello hello"⟩,
        sampleEngine.hit sampleQuery ownDoc] := rfl
  have foldQuery : searchQuery oneResult oneResultParams [ownId] = sampleQuery := rfl
  rw [foldQuery, leftCandidates, rightCandidates] at canShow ⊢
  have own : hit = sampleEngine.hit sampleQuery ownDoc := by
    rcases canShow with can | can
    · exact List.mem_singleton.mp can.member
    · rcases List.mem_cons.mp can.member with rfl | later
      · exact absurd visible (by decide)
      · exact List.mem_singleton.mp later
  subst own
  refine ⟨⟨⟨List.mem_singleton.mpr rfl, by decide, by decide⟩, by decide, ?_⟩,
    ⟨List.mem_cons_of_mem _ (List.mem_singleton.mpr rfl), by decide, by decide⟩, by decide, ?_⟩
  · intro other member _ _
    exact List.mem_singleton.mp member
  · intro other member otherVisible _
    rcases List.mem_cons.mp member with rfl | later
    · exact absurd otherVisible (by decide)
    · exact List.mem_singleton.mp later

/-- With the foreign mails in the index the search finds nothing, without them it finds the
own mail. -/
theorem search_crowded_out :
    SameSearchView sampleScope quietSearch crowdedSearch ∧
      ∀ leftHash rightHash,
        search sampleEngine leftHash sampleChrono sampleLowercase sampleScope quietSearch
            oneResult ≠
          search sampleEngine rightHash sampleChrono sampleLowercase sampleScope crowdedSearch
            oneResult := by
  refine ⟨sameSearchView_crowded, fun leftHash rightHash same => ?_⟩
  obtain ⟨leftRanked, leftRanks, leftAnswer⟩ := @search_selected sampleScope sampleLowercase
    sampleChrono oneResult oneResultParams Nat _ sampleEngine quietSearch oneResult_parsed
    (by rw [scopedIds_quiet]; rfl) leftHash
  obtain ⟨rightRanked, rightRanks, rightAnswer⟩ := @search_selected sampleScope sampleLowercase
    sampleChrono oneResult oneResultParams Nat _ sampleEngine crowdedSearch oneResult_parsed
    (by rw [scopedIds_crowded]; rfl) rightHash
  rw [scopedIds_crowded] at rightRanks
  rw [crowded_selects_nothing rightRanks] at rightAnswer
  have alone : candidates sampleEngine (searchQuery oneResult oneResultParams
      (scopedIds sampleScope quietSearch.store oneResult)) quietSearch.index =
        [sampleEngine.hit sampleQuery ownDoc] := by
    rfl
  have only : leftRanked = [sampleEngine.hit sampleQuery ownDoc] := by
    apply List.perm_singleton.mp
    rw [← alone]
    exact leftRanks.perm
  rw [leftAnswer, rightAnswer, only] at same
  cases same

end Sample

end Scryd.Mcp
