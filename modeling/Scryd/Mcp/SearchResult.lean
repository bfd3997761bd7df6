import Scryd.Mcp.SearchNoninterference

/-!
# What a search returns

The answer of the `search` tool for any list of hits the searcher returns.
-/

namespace Scryd.Mcp

open Scryd.Foundation Scryd.Storage
open Scryd.Search (Mode SearchQuery Hit Engine HashOrder kMin kMultiplier usizeMax)

universe u

variable {Score : Type u}

/-- `read::search`, whatever the searcher. -/
def searchOver (searcher : SearchQuery → List (Hit Score)) (chrono : Chrono)
    (toLowercase : String → String) (scope : AccountScope) (store : Store) (args : SearchArgs) :
    Except McpError (SearchResponseDto Score) :=
  match searchParams chrono args with
  | .error err => .error err
  | .ok params =>
      let narrowed := scopedIds scope store args
      if narrowed.isEmpty then .ok ⟨[], params.mode.asStr⟩
      else
        let found := searcher (searchQuery args params narrowed)
        .ok ⟨collectHits (searchResult chrono toLowercase store args params narrowed)
          params.limit found, params.mode.asStr⟩

theorem search_eq_searchOver [LinearOrder Score] (engine : Engine Score)
    (hash : HashOrder Score) (chrono : Chrono) (toLowercase : String → String)
    (scope : AccountScope) (backend : SearchBackend) (args : SearchArgs) :
    search engine hash chrono toLowercase scope backend args =
      searchOver (fun query => Search.search engine hash query backend.index) chrono toLowercase
        scope backend.store args := rfl

/-- The messages a search is for. -/
structure Eligible (chrono : Chrono) (toLowercase : String → String) (scope : AccountScope)
    (store : Store) (args : SearchArgs) (row : MessageRow) : Prop where
  live : row.tombstonedAt = none
  owned : ∃ account ∈ store.accounts.rows,
    scope.owns account = true ∧ account.accountId = row.accountId
  listed : args.accountIds = [] ∨ row.accountId.text ∈ args.accountIds
  sender : ∀ sender, args.sender = some sender →
    (toLowercase sender).toList <:+: (toLowercase row.senderAddr).toList
  folder : ∀ folder, args.folder = some folder → row.folder = folder
  since : ∀ date midnight, args.since = some date → chrono.parseDate date = some midnight →
    midnight ≤ row.dateUnix
  /-- 23:59:59 of the day is included. -/
  untilDay : ∀ date midnight, args.untilDate = some date →
    chrono.parseDate date = some midnight → row.dateUnix ≤ midnight + 86399

variable {chrono : Chrono} {toLowercase : String → String} {scope : AccountScope}
  {store : Store} {args : SearchArgs} {params : SearchParams}

theorem mem_narrow_iff (allowed : List AccountId) (caller : List String) (id : AccountId) :
    id ∈ narrow allowed caller ↔ id ∈ allowed ∧ (caller = [] ∨ id.text ∈ caller) := by
  unfold narrow
  split
  next empty => simp [List.isEmpty_iff.mp empty]
  next nonempty =>
    have someCaller : caller ≠ [] := fun empty => nonempty (List.isEmpty_iff.mpr empty)
    simp [someCaller]

theorem mem_scopedIds_iff (id : AccountId) : id ∈ scopedIds scope store args ↔
    (∃ account ∈ store.accounts.rows, scope.owns account = true ∧ account.accountId = id) ∧
      (args.accountIds = [] ∨ id.text ∈ args.accountIds) := by
  rw [scopedIds, mem_narrow_iff, mem_allowedAccountIds_iff]

section Params

/-- An optional date that is well formed. -/
def ValidDate (chrono : Chrono) (date : Option String) : Prop :=
  ∀ text, date = some text → (chrono.parseDate text).isSome = true

/-- The midnight an optional date stands for. -/
def midnightOf (chrono : Chrono) (date : Option String) : Option Int :=
  date.bind chrono.parseDate

theorem parseDateArg_ok {date : Option String} (valid : ValidDate chrono date)
    (message : String) : parseDateArg chrono message date = .ok (midnightOf chrono date) := by
  cases date with
  | none => rfl
  | some text =>
      obtain ⟨midnight, parsed⟩ := Option.isSome_iff_exists.mp (valid text rfl)
      simp [parseDateArg, midnightOf, parsed]

/-- The parameters of well-formed arguments. -/
def parsedParams (chrono : Chrono) (args : SearchArgs) (mode : Mode) : SearchParams where
  mode := mode
  sinceTs := midnightOf chrono args.since
  untilTs := (midnightOf chrono args.untilDate).map (· + 86400 - 1)
  limit := min (max (args.limit.getD limitDefault) 1) limitMax

theorem searchParams_ok {mode : Mode} (validMode : Mode.fromStr (args.mode.getD "fulltext") =
      some mode) (validSince : ValidDate chrono args.since)
    (validUntil : ValidDate chrono args.untilDate) :
    searchParams chrono args = .ok (parsedParams chrono args mode) := by
  simp only [searchParams, validMode, parseDateArg_ok validSince, parseDateArg_ok validUntil,
    parsedParams]

theorem parsedParams_k (chrono : Chrono) (args : SearchArgs) (mode : Mode) :
    (parsedParams chrono args mode).k = max (5 * min (max (args.limit.getD 20) 1) 200) 200 := by
  simp only [SearchParams.k, parsedParams, kMultiplier, kMin, limitDefault, limitMax,
    Nat.mul_comm]

/-- A bound by an optional date. -/
theorem midnightOf_all_iff (date : Option String) (holds : Int → Bool) :
    (midnightOf chrono date).all holds = true ↔
      ∀ text midnight, date = some text → chrono.parseDate text = some midnight →
        holds midnight = true := by
  cases date with
  | none => simp [midnightOf]
  | some text =>
      rw [midnightOf, Option.bind_some, Option.all_eq_true]
      constructor
      · intro bounded other midnight same parsed
        cases same
        exact bounded midnight parsed
      · exact fun bounded midnight parsed => bounded text midnight rfl parsed

end Params

/-- The checks of the loop, as the caller sees them. -/
theorem passes_iff_eligible (nonempty : (scopedIds scope store args).isEmpty = false)
    (mode : Mode) (row : MessageRow) :
    row.tombstonedAt = none ∧ filterMatch toLowercase row args (scopedIds scope store args)
        (parsedParams chrono args mode).sinceTs (parsedParams chrono args mode).untilTs = true ↔
      Eligible chrono toLowercase scope store args row := by
  have day : ∀ midnight : Int, midnight + 86400 - 1 = midnight + 86399 := fun _ => by omega
  simp only [parsedParams, filterMatch, nonempty, Bool.false_or, Bool.and_eq_true,
    isAllowed_iff, mem_scopedIds_iff, Option.all_map, day, midnightOf_all_iff]
  simp only [Option.all_eq_true, decide_eq_true_eq, contains_iff_infix]
  constructor
  · rintro ⟨live, ⟨⟨⟨sender, folder⟩, owned, listed⟩, since⟩, untilDay⟩
    exact ⟨live, owned, listed, sender, folder, since, untilDay⟩
  · rintro ⟨live, owned, listed, sender, folder, since, untilDay⟩
    exact ⟨live, ⟨⟨⟨sender, folder⟩, owned, listed⟩, since⟩, untilDay⟩

/-- A hit gives a result exactly if its message is stored and eligible. -/
theorem searchResult_eq_some_iff (nonempty : (scopedIds scope store args).isEmpty = false)
    (mode : Mode) (hit : Hit Score) (result : SearchHitDto Score) :
    searchResult chrono toLowercase store args (parsedParams chrono args mode)
        (scopedIds scope store args) hit = some result ↔
      ∃ row ∈ store.messages.rows, row.messageId = hit.messageId ∧
        Eligible chrono toLowercase scope store args row ∧
          result = searchHit chrono row hit args.q mode := by
  rw [searchResult, Option.map_eq_some_iff]
  apply exists_congr
  intro row
  rw [matchingRow_eq_some_iff, passes_iff_eligible nonempty, and_assoc, and_assoc,
    eq_comm (b := result)]
  rfl

theorem searchOver_ok (searcher : SearchQuery → List (Hit Score))
    (parsed : searchParams chrono args = .ok params)
    (nonempty : (scopedIds scope store args).isEmpty = false) :
    searchOver searcher chrono toLowercase scope store args =
      .ok ⟨collectHits (searchResult chrono toLowercase store args params
          (scopedIds scope store args)) params.limit
        (searcher (searchQuery args params (scopedIds scope store args))), params.mode.asStr⟩ := by
  simp only [searchOver, parsed, nonempty, Bool.false_eq_true, if_false]

/-- Each hit the loop keeps gives one result, in order. -/
theorem forall₂_filterMap_of_isSome {Result : Type u} (toResult : Hit Score → Option Result)
    (hits : List (Hit Score)) (results : ∀ hit ∈ hits, (toResult hit).isSome = true) :
    List.Forall₂ (fun hit result => toResult hit = some result) hits
      (hits.filterMap toResult) := by
  induction hits with
  | nil => exact .nil
  | cons hit rest inductionHypothesis =>
      obtain ⟨result, found⟩ := Option.isSome_iff_exists.mp (results hit List.mem_cons_self)
      rw [List.filterMap_cons_some found]
      exact .cons found
        (inductionHypothesis fun other member => results other (List.mem_cons_of_mem hit member))

/-- For well-formed arguments and whatever hits the searcher returns, the answer is the first
`limit` of the hits whose message is stored and eligible, in the searcher's order. -/
theorem searchOver_filtered (searcher : SearchQuery → List (Hit Score)) (chrono : Chrono)
    (toLowercase : String → String) (scope : AccountScope) (store : Store) (args : SearchArgs)
    (mode : Mode) (validMode : Mode.fromStr (args.mode.getD "fulltext") = some mode)
    (validSince : ValidDate chrono args.since) (validUntil : ValidDate chrono args.untilDate) :
    let limit := min (max (args.limit.getD 20) 1) 200
    let narrowed := scopedIds scope store args
    let found := searcher ⟨args.q, mode, max (5 * limit) 200, narrowed.map (·.text)⟩
    5 * limit ≤ usizeMax ∧
    ∃ hits, searchOver searcher chrono toLowercase scope store args = .ok ⟨hits, mode.asStr⟩ ∧
      (narrowed = [] → hits = []) ∧
      ∃ keep : Hit Score → Bool,
        (∀ hit, keep hit = true ↔ ∃ row ∈ store.messages.rows, row.messageId = hit.messageId ∧
          Eligible chrono toLowercase scope store args row) ∧
        List.Forall₂ (fun hit result => ∃ row ∈ store.messages.rows,
            row.messageId = hit.messageId ∧ result = searchHit chrono row hit args.q mode)
          ((found.filter keep).take limit) hits := by
  intro limit narrowed found
  have small : 5 * limit ≤ usizeMax := by
    simp only [limit, usizeMax]
    omega
  refine ⟨small, ?_⟩
  have parsed := searchParams_ok validMode validSince validUntil
  cases noAccount : (scopedIds scope store args).isEmpty with
  | true =>
      refine ⟨[], ?_, fun _ => rfl, fun _ => false, ?_, by simp⟩
      · simp only [searchOver, parsed, noAccount, if_true, parsedParams]
      · intro hit
        refine ⟨nofun, ?_⟩
        rintro ⟨row, _, _, eligible⟩
        have member := (mem_scopedIds_iff row.accountId).mpr ⟨eligible.owned, eligible.listed⟩
        rw [List.isEmpty_iff.mp noAccount] at member
        cases member
  | false =>
      let toResult : Hit Score → Option (SearchHitDto Score) :=
        searchResult chrono toLowercase store args (parsedParams chrono args mode) narrowed
      have isResult : ∀ hit result, toResult hit = some result ↔ _ :=
        searchResult_eq_some_iff noAccount mode
      refine ⟨collectHits toResult limit found, ?_, ?_, fun hit => (toResult hit).isSome, ?_, ?_⟩
      · rw [searchOver_ok searcher parsed noAccount, searchQuery, parsedParams_k]
        rfl
      · intro empty
        rw [List.isEmpty_iff.mpr empty] at noAccount
        cases noAccount
      · intro hit
        rw [Option.isSome_iff_exists]
        constructor
        · rintro ⟨result, shown⟩
          obtain ⟨row, stored, isId, eligible, _⟩ := (isResult hit result).mp shown
          exact ⟨row, stored, isId, eligible⟩
        · rintro ⟨row, stored, isId, eligible⟩
          exact ⟨_, (isResult hit _).mpr ⟨row, stored, isId, eligible, rfl⟩⟩
      · rw [collectHits_eq]
        refine (forall₂_filterMap_of_isSome toResult _ ?_).imp ?_
        · intro hit member
          exact (List.mem_filter.mp (List.mem_of_mem_take member)).2
        · intro hit result shown
          obtain ⟨row, stored, isId, _, same⟩ := (isResult hit result).mp shown
          exact ⟨row, stored, isId, same⟩

section Sample

def foreignHit : Hit Nat := ⟨"home:1", 3, none⟩

def ownHit : Hit Nat := ⟨"work:1", 1, none⟩

def datedArgs : SearchArgs where
  q := "hello"
  sender := some "YOU@"
  since := some "1970-01-01"
  folder := some "INBOX"

def epochChrono : Chrono :=
  { sampleChrono with parseDate := fun text => if text = "1970-01-01" then some 0 else none }

theorem validDate_datedArgs : ValidDate epochChrono datedArgs.since := by
  intro text same
  cases same
  decide

theorem eligible_ownRow : Eligible epochChrono sampleLowercase sampleScope sharedBackend.store
    datedArgs (sampleRow ownId 1) where
  live := rfl
  owned := ⟨sampleAccount ownId "Me@Example.org", by decide, by decide, rfl⟩
  listed := .inl rfl
  sender := by
    intro sender same
    cases same
    rw [← contains_iff_infix]
    decide
  folder := by
    intro folder same
    cases same
    rfl
  since := by
    intro date midnight same parsed
    cases same
    cases parsed
    decide
  untilDay := nofun

/-- A foreign mail is left out, though its sender, folder and date pass. -/
theorem searchOver_filtered_foreignHit :
    ∃ result, searchOver (fun _ => [foreignHit, ownHit]) epochChrono sampleLowercase sampleScope
        sharedBackend.store datedArgs = .ok ⟨[result], "fulltext"⟩ ∧
      result.messageId = "work:1" := by
  obtain ⟨_, hits, answered, _, keep, kept, shown⟩ := searchOver_filtered
    (fun _ => [foreignHit, ownHit]) epochChrono sampleLowercase sampleScope sharedBackend.store
    datedArgs .fullText rfl validDate_datedArgs nofun
  have ownKept : keep ownHit = true :=
    (kept ownHit).mpr ⟨sampleRow ownId 1, by decide, by decide, eligible_ownRow⟩
  have foreignDropped : keep foreignHit = false := by
    rw [Bool.eq_false_iff, Ne, kept]
    rintro ⟨row, stored, isId, eligible⟩
    rcases List.mem_pair.mp stored with rfl | rfl
    · have owned := (mem_allowedAccountIds_iff sharedBackend.store _).mpr eligible.owned
      revert owned
      decide
    · exact absurd isId (by decide)
  rw [List.filter_cons, foreignDropped, List.filter_cons, ownKept] at shown
  rcases shown with _ | ⟨⟨row, _, isId, same⟩, rest⟩
  cases rest
  exact ⟨_, answered, by rw [same]; exact isId⟩

end Sample

end Scryd.Mcp
