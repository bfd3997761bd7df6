import Scryd.Mcp.Read
import Scryd.Search.Query
import Scryd.Search.Snippet

/-!
# The `search` tool

The scope is resolved and narrowed first, but the indexer ranks the documents of
every account: scope, tombstones and the caller's filters are applied to the
`k` messages it returns.
-/

namespace Scryd.Mcp

open Scryd.Foundation Scryd.Storage
open Scryd.Search (Mode SearchQuery Hit Engine HashOrder IndexDoc renderSnippet candidates
  kMin kMultiplier)

universe u

def limitDefault : Nat := 20

def limitMax : Nat := 200

def snippetChars : Nat := 240

/-- `from` is called `sender` here. -/
structure SearchArgs where
  q : String := ""
  sender : Option String := none
  since : Option String := none
  untilDate : Option String := none
  folder : Option String := none
  accountIds : List String := []
  limit : Option Nat := none
  mode : Option String := none

structure SearchHitDto (Score : Type u) where
  messageId : String
  accountId : AccountId
  folder : String
  senderAddr : String
  senderName : Option String
  subject : Option String
  date : String
  score : Score
  snippet : Option String
  threadId : String

structure SearchResponseDto (Score : Type u) where
  hits : List (SearchHitDto Score)
  mode : String

/-- What a tool call sees: the store and the index. -/
structure SearchBackend where
  store : Store
  index : Search.State

/-- The arguments once parsed. -/
structure SearchParams where
  mode : Mode
  sinceTs : Option Int
  untilTs : Option Int
  limit : Nat

def SearchParams.k (params : SearchParams) : Nat := max (params.limit * kMultiplier) kMin

variable {Score : Type u} [LinearOrder Score]

/-- An optional date argument. -/
def parseDateArg (chrono : Chrono) (message : String) : Option String →
    Except McpError (Option Int)
  | none => .ok none
  | some text =>
      match chrono.parseDate text with
      | some ts => .ok (some ts)
      | none => .error (.invalidParams message)

def searchParams (chrono : Chrono) (args : SearchArgs) : Except McpError SearchParams :=
  match Mode.fromStr (args.mode.getD "fulltext") with
  | none => .error (.invalidParams "mode must be one of fulltext|semantic|hybrid")
  | some mode =>
      match parseDateArg chrono "since must be YYYY-MM-DD" args.since with
      | .error err => .error err
      | .ok sinceTs =>
          match parseDateArg chrono "until must be YYYY-MM-DD" args.untilDate with
          | .error err => .error err
          | .ok untilTs =>
              .ok {
                mode := mode
                sinceTs := sinceTs
                -- The end of the day, inclusively.
                untilTs := untilTs.map (· + 86400 - 1)
                limit := min (max (args.limit.getD limitDefault) 1) limitMax }

/-- `filter_match`. -/
def filterMatch (toLowercase : String → String) (row : MessageRow) (args : SearchArgs)
    (accountIds : List AccountId) (sinceTs untilTs : Option Int) : Bool :=
  (args.sender.all fun sender =>
    contains (toLowercase sender).toList (toLowercase row.senderAddr).toList) &&
  (args.folder.all fun folder => decide (row.folder = folder)) &&
  (accountIds.isEmpty || isAllowed accountIds row.accountId) &&
  (sinceTs.all fun since => decide (since ≤ row.dateUnix)) &&
  (untilTs.all fun limit => decide (row.dateUnix ≤ limit))

/-- `derive_snippet`. -/
def deriveSnippet (bodyMd : String) (semanticSnippet : Option String) (q : String)
    (mode : Mode) : String :=
  match mode with
  | .semantic => semanticSnippet.getD (renderSnippet bodyMd q snippetChars)
  | .fullText | .hybrid => renderSnippet bodyMd q snippetChars

def searchHit (chrono : Chrono) (row : MessageRow) (hit : Hit Score) (q : String)
    (mode : Mode) : SearchHitDto Score where
  messageId := row.messageId
  accountId := row.accountId
  folder := row.folder
  senderAddr := row.senderAddr
  senderName := row.senderName
  subject := row.subject
  date := iso8601FromUnix chrono row.dateUnix
  score := hit.score
  snippet := some (deriveSnippet row.bodyMd hit.semanticSnippet q mode)
  threadId := row.threadId

/-- The row of a hit, if it is live and passes the filters. -/
def matchingRow (toLowercase : String → String) (store : Store) (args : SearchArgs)
    (params : SearchParams) (narrowed : List AccountId) (id : String) : Option MessageRow :=
  match Storage.getMessage store id with
  | some row =>
      if row.tombstonedAt.isNone &&
          filterMatch toLowercase row args narrowed params.sinceTs params.untilTs then
        some row
      else
        none
  | none => none

/-- The loop over the hits, with the number of results still wanted. -/
def collectHits {Result : Type u} (toResult : Hit Score → Option Result) :
    Nat → List (Hit Score) → List Result
  | _, [] => []
  | 0, _ => []
  | wanted + 1, hit :: rest =>
      match toResult hit with
      | none => collectHits toResult (wanted + 1) rest
      | some result => result :: collectHits toResult wanted rest

/-- The query handed to the indexer. -/
def searchQuery (args : SearchArgs) (params : SearchParams) (narrowed : List AccountId) :
    SearchQuery :=
  ⟨args.q, params.mode, params.k, narrowed.map (·.text)⟩

/-- The accounts a search is for. -/
def scopedIds (scope : AccountScope) (store : Store) (args : SearchArgs) : List AccountId :=
  narrow (scope.allowedAccountIds store) args.accountIds

/-- What the tool returns for a hit. -/
def searchResult (chrono : Chrono) (toLowercase : String → String) (store : Store)
    (args : SearchArgs) (params : SearchParams) (narrowed : List AccountId) (hit : Hit Score) :
    Option (SearchHitDto Score) :=
  (matchingRow toLowercase store args params narrowed hit.messageId).map fun row =>
    searchHit chrono row hit args.q params.mode

def search (engine : Engine Score) (hash : HashOrder Score) (chrono : Chrono)
    (toLowercase : String → String) (scope : AccountScope) (backend : SearchBackend)
    (args : SearchArgs) : Except McpError (SearchResponseDto Score) :=
  match searchParams chrono args with
  | .error err => .error err
  | .ok params =>
      let narrowed := scopedIds scope backend.store args
      if narrowed.isEmpty then .ok ⟨[], params.mode.asStr⟩
      else
        let found := Search.search engine hash (searchQuery args params narrowed) backend.index
        .ok ⟨collectHits (searchResult chrono toLowercase backend.store args params narrowed)
          params.limit found, params.mode.asStr⟩

omit [LinearOrder Score] in
/-- The loop stops after the wanted number of hits that give a result. -/
theorem collectHits_eq {Result : Type u} (toResult : Hit Score → Option Result) (wanted : Nat)
    (hits : List (Hit Score)) :
    collectHits toResult wanted hits =
      ((hits.filter fun hit => (toResult hit).isSome).take wanted).filterMap toResult := by
  induction hits generalizing wanted with
  | nil => cases wanted <;> rfl
  | cons hit rest inductionHypothesis =>
      cases wanted with
      | zero => simp [collectHits]
      | succ wanted =>
          cases result : toResult hit with
          | none => simp [collectHits, result, inductionHypothesis]
          | some value => simp [collectHits, result, inductionHypothesis]

end Scryd.Mcp
