import Mathlib.Data.List.Basic

/-!
# Patterns

Sequences of character classes, repeated greedily or lazily, and of word
boundaries.  A pattern matches as a backtracking matcher does: the first way in
the order of its preferences wins.  Removing the matches of a pattern from a text
works from the left, on characters or on anything that carries one.
-/

namespace Scryd.Foundation

universe u v

inductive Item where
  | one (test : Char → Bool)
  /-- `test?` -/
  | opt (test : Char → Bool)
  /-- `test*` -/
  | greedy (test : Char → Bool)
  /-- `test*?` -/
  | lazy (test : Char → Bool)
  /-- `\b` -/
  | boundary

/-- The character before a position, after a text. -/
def lastOr (prev : Option Char) (text : List Char) : Option Char := text.getLast?.or prev

@[simp] theorem lastOr_nil (prev : Option Char) : lastOr prev [] = prev := rfl

@[simp] theorem lastOr_cons (prev : Option Char) (c : Char) (text : List Char) :
    lastOr prev (c :: text) = lastOr (some c) text := by
  cases text with
  | nil => rfl
  | cons d rest => simp [lastOr, List.getLast?_cons]

@[simp] theorem lastOr_append (prev : Option Char) (front back : List Char) :
    lastOr prev (front ++ back) = lastOr (lastOr prev front) back := by
  induction front generalizing prev with
  | nil => rfl
  | cons c front inductionHypothesis =>
      rw [List.cons_append, lastOr_cons, lastOr_cons, inductionHypothesis]

section Matching

variable (isWord : Char → Bool)

/-- Whether a word begins or ends between two positions. -/
def wordEdge (prev : Option Char) (rest : List Char) : Bool :=
  prev.any isWord != rest.head?.any isWord

/-- A greedy repetition before whatever follows it. -/
def matchGreedy (test : Char → Bool) (next : Option Char → List Char → Option Nat) :
    Option Char → List Char → Option Nat
  | prev, [] => next prev []
  | prev, c :: rest =>
      if test c then
        ((matchGreedy test next (some c) rest).map (· + 1)).or (next prev (c :: rest))
      else
        next prev (c :: rest)

/-- A lazy repetition before whatever follows it. -/
def matchLazy (test : Char → Bool) (next : Option Char → List Char → Option Nat) :
    Option Char → List Char → Option Nat
  | prev, [] => next prev []
  | prev, c :: rest =>
      (next prev (c :: rest)).or
        (if test c then (matchLazy test next (some c) rest).map (· + 1) else none)

/-- One character before whatever follows it. -/
def matchOne (test : Char → Bool) (next : Option Char → List Char → Option Nat) :
    List Char → Option Nat
  | [] => none
  | c :: rest => if test c then (next (some c) rest).map (· + 1) else none

/-- How many characters the preferred match of a sequence takes. -/
def matchItems : List Item → Option Char → List Char → Option Nat
  | [], _, _ => some 0
  | .one test :: items, _, text => matchOne test (matchItems items) text
  | .opt test :: items, prev, text =>
      (matchOne test (matchItems items) text).or (matchItems items prev text)
  | .greedy test :: items, prev, text => matchGreedy test (matchItems items) prev text
  | .lazy test :: items, prev, text => matchLazy test (matchItems items) prev text
  | .boundary :: items, prev, text =>
      if wordEdge isWord prev text then matchItems items prev text else none

/-- A run of passing characters before whatever follows it. -/
def Repeated (test : Char → Bool) (Follows : Option Char → List Char → List Char → Prop)
    (prev : Option Char) (piece after : List Char) : Prop :=
  ∃ run tail, piece = run ++ tail ∧ (∀ c ∈ run, test c = true) ∧
    Follows (lastOr prev run) tail after

/-- One passing character before whatever follows it. -/
def Single (test : Char → Bool) (Follows : Option Char → List Char → List Char → Prop)
    (piece after : List Char) : Prop :=
  ∃ c tail, piece = c :: tail ∧ test c = true ∧ Follows (some c) tail after

/-- The ways to match a sequence, whatever is preferred: what it takes, and what comes after. -/
def Matches : List Item → Option Char → List Char → List Char → Prop
  | [], _, piece, _ => piece = []
  | .one test :: items, _, piece, after => Single test (Matches items) piece after
  | .opt test :: items, prev, piece, after =>
      Single test (Matches items) piece after ∨ Matches items prev piece after
  | .greedy test :: items, prev, piece, after => Repeated test (Matches items) prev piece after
  | .lazy test :: items, prev, piece, after => Repeated test (Matches items) prev piece after
  | .boundary :: items, prev, piece, after =>
      wordEdge isWord prev (piece ++ after) = true ∧ Matches items prev piece after

variable {test : Char → Bool} {next : Option Char → List Char → Option Nat}
  {Follows : Option Char → List Char → List Char → Prop} {prev : Option Char}
  {piece after text : List Char} {n : Nat}

theorem Repeated.stop (follows : Follows prev piece after) :
    Repeated test Follows prev piece after := ⟨[], piece, rfl, nofun, follows⟩

theorem Repeated.cons {c : Char} (passes : test c = true)
    (repeated : Repeated test Follows (some c) piece after) :
    Repeated test Follows prev (c :: piece) after := by
  obtain ⟨run, tail, rfl, passing, follows⟩ := repeated
  exact ⟨c :: run, tail, rfl, List.forall_mem_cons.mpr ⟨passes, passing⟩, by rwa [lastOr_cons]⟩

/-- Either nothing is repeated, or one character more. -/
theorem repeated_iff :
    Repeated test Follows prev piece after ↔ Follows prev piece after ∨
      ∃ c tail, piece = c :: tail ∧ test c = true ∧
        Repeated test Follows (some c) tail after := by
  constructor
  · rintro ⟨run, tail, rfl, passing, follows⟩
    cases run with
    | nil => exact .inl follows
    | cons c run =>
        rw [List.forall_mem_cons] at passing
        rw [lastOr_cons] at follows
        exact .inr ⟨c, run ++ tail, rfl, passing.1, run, tail, rfl, passing.2, follows⟩
  · rintro (follows | ⟨c, tail, rfl, passes, repeated⟩)
    · exact .stop follows
    · exact repeated.cons passes

/-- What a matcher finds is a match of its length. -/
def Found (Follows : Option Char → List Char → List Char → Prop) (prev : Option Char)
    (text : List Char) (n : Nat) : Prop :=
  ∃ piece after, text = piece ++ after ∧ piece.length = n ∧ Follows prev piece after

/-- A matcher finds only matches, and finds one where there is one. -/
structure Decides (next : Option Char → List Char → Option Nat)
    (Follows : Option Char → List Char → List Char → Prop) : Prop where
  sound : ∀ {prev text n}, next prev text = some n → Found Follows prev text n
  complete : ∀ {prev piece after}, Follows prev piece after → next prev (piece ++ after) ≠ none

theorem matchOne_sound (decides : Decides next Follows) (found : matchOne test next text = some n) :
    Found (fun _ => Single test Follows) prev text n := by
  cases text with
  | nil => cases found
  | cons c rest =>
      rw [matchOne] at found
      split at found
      next passes =>
        obtain ⟨m, later, rfl⟩ := Option.map_eq_some_iff.mp found
        obtain ⟨tail, after, rfl, rfl, follows⟩ := decides.sound later
        exact ⟨c :: tail, after, rfl, rfl, c, tail, rfl, passes, follows⟩
      next => cases found

theorem matchOne_complete (decides : Decides next Follows)
    (single : Single test Follows piece after) :
    matchOne test next (piece ++ after) ≠ none := by
  obtain ⟨c, tail, rfl, passes, follows⟩ := single
  rw [List.cons_append, matchOne, if_pos passes, ne_eq, Option.map_eq_none_iff]
  exact decides.complete follows

theorem Found.stop (found : Found Follows prev text n) :
    Found (Repeated test Follows) prev text n := by
  obtain ⟨piece, after, split, length, follows⟩ := found
  exact ⟨piece, after, split, length, .stop follows⟩

theorem Found.cons {c : Char} (passes : test c = true)
    (found : Found (Repeated test Follows) (some c) text n) :
    Found (Repeated test Follows) prev (c :: text) (n + 1) := by
  obtain ⟨piece, after, rfl, rfl, repeated⟩ := found
  exact ⟨c :: piece, after, rfl, rfl, repeated.cons passes⟩

/-- At the end of the text nothing can be repeated, and what follows has to match there. -/
theorem Decides.complete_nil (decides : Decides next Follows) {prev : Option Char}
    {piece after : List Char} (repeated : Repeated test Follows prev piece after)
    (split : piece ++ after = []) : next prev [] ≠ none := by
  obtain ⟨rfl, rfl⟩ := List.append_eq_nil_iff.mp split
  rcases repeated_iff.mp repeated with follows | ⟨_, _, impossible, _⟩
  · exact decides.complete follows
  · cases impossible

theorem decides_greedy (decides : Decides next Follows) :
    Decides (matchGreedy test next) (Repeated test Follows) where
  sound := by
    intro prev text n found
    induction text generalizing prev n with
    | nil => exact (decides.sound found).stop
    | cons c rest inductionHypothesis =>
        rw [matchGreedy] at found
        split at found
        next passes =>
          rcases Option.or_eq_some_iff.mp found with longer | ⟨_, stopped⟩
          · obtain ⟨m, later, rfl⟩ := Option.map_eq_some_iff.mp longer
            exact (inductionHypothesis later).cons passes
          · exact (decides.sound stopped).stop
        next => exact (decides.sound found).stop
  complete := by
    intro prev piece after repeated
    generalize split : piece ++ after = text
    induction text generalizing prev piece with
    | nil => exact decides.complete_nil repeated split
    | cons c rest inductionHypothesis =>
        rw [matchGreedy]
        rcases repeated_iff.mp repeated with follows | ⟨d, tail, rfl, passes, later⟩
        · have here := decides.complete follows
          rw [split] at here
          cases stopped : next prev (c :: rest) with
          | none => exact absurd stopped here
          | some m => split <;> simp
        · obtain ⟨rfl, others⟩ := List.cons.inj split
          rw [if_pos passes, ne_eq, Option.or_eq_none_iff, Option.map_eq_none_iff]
          exact fun none_found => inductionHypothesis later others none_found.1

theorem decides_lazy (decides : Decides next Follows) :
    Decides (matchLazy test next) (Repeated test Follows) where
  sound := by
    intro prev text n found
    induction text generalizing prev n with
    | nil => exact (decides.sound found).stop
    | cons c rest inductionHypothesis =>
        rw [matchLazy] at found
        rcases Option.or_eq_some_iff.mp found with stopped | ⟨_, longer⟩
        · exact (decides.sound stopped).stop
        · split at longer
          next passes =>
            obtain ⟨m, later, rfl⟩ := Option.map_eq_some_iff.mp longer
            exact (inductionHypothesis later).cons passes
          next => cases longer
  complete := by
    intro prev piece after repeated
    generalize split : piece ++ after = text
    induction text generalizing prev piece with
    | nil => exact decides.complete_nil repeated split
    | cons c rest inductionHypothesis =>
        rw [matchLazy, ne_eq, Option.or_eq_none_iff]
        rcases repeated_iff.mp repeated with follows | ⟨d, tail, rfl, passes, later⟩
        · have here := decides.complete follows
          rw [split] at here
          exact fun none_found => here none_found.1
        · obtain ⟨rfl, others⟩ := List.cons.inj split
          rw [if_pos passes, Option.map_eq_none_iff]
          exact fun none_found => inductionHypothesis later others none_found.2

/-- The matcher of a sequence decides whether it matches at a position. -/
theorem decides_matchItems (items : List Item) :
    Decides (matchItems isWord items) (Matches isWord items) := by
  induction items with
  | nil =>
      refine ⟨fun found => ?_, nofun⟩
      cases found
      exact ⟨[], _, rfl, rfl, rfl⟩
  | cons item items inductionHypothesis =>
      cases item with
      | one test =>
          exact ⟨matchOne_sound inductionHypothesis, matchOne_complete inductionHypothesis⟩
      | opt test =>
          refine ⟨fun {prev text n} found => ?_, fun {prev piece after} matches_ => ?_⟩
          · rcases Option.or_eq_some_iff.mp found with taken | ⟨_, skipped⟩
            · have single : Found (fun _ => Single test (Matches isWord items)) prev text n :=
                matchOne_sound inductionHypothesis taken
              obtain ⟨piece, after, split, length, single⟩ := single
              exact ⟨piece, after, split, length, .inl single⟩
            · obtain ⟨piece, after, split, length, follows⟩ := inductionHypothesis.sound skipped
              exact ⟨piece, after, split, length, .inr follows⟩
          · rw [matchItems, ne_eq, Option.or_eq_none_iff]
            rcases matches_ with single | follows
            · exact fun none_found => matchOne_complete inductionHypothesis single none_found.1
            · exact fun none_found => inductionHypothesis.complete follows none_found.2
      | greedy test => exact decides_greedy inductionHypothesis
      | lazy test => exact decides_lazy inductionHypothesis
      | boundary =>
          refine ⟨fun {prev text n} found => ?_, fun {prev piece after} matches_ => ?_⟩
          · rw [matchItems] at found
            split at found
            next edge =>
              obtain ⟨piece, after, rfl, length, follows⟩ := inductionHypothesis.sound found
              exact ⟨piece, after, rfl, length, edge, follows⟩
            next => cases found
          · rw [matchItems, if_pos matches_.1]
            exact inductionHypothesis.complete matches_.2

/-- A sequence matches where its parts match one after the other. -/
theorem matches_append (first second : List Item) :
    Matches isWord (first ++ second) prev piece after ↔
      ∃ front back, piece = front ++ back ∧ Matches isWord first prev front (back ++ after) ∧
        Matches isWord second (lastOr prev front) back after := by
  induction first generalizing prev piece with
  | nil =>
      constructor
      · intro matches_
        exact ⟨[], piece, rfl, rfl, matches_⟩
      · rintro ⟨_, back, rfl, rfl, matches_⟩
        exact matches_
  | cons item first inductionHypothesis =>
      have single : ∀ {test : Char → Bool} {piece : List Char},
          Single test (Matches isWord (first ++ second)) piece after ↔
            ∃ front back, piece = front ++ back ∧
              Single test (Matches isWord first) front (back ++ after) ∧
              Matches isWord second (lastOr prev front) back after := by
        intro test piece
        constructor
        · rintro ⟨c, tail, rfl, passes, later⟩
          obtain ⟨front, back, rfl, isFirst, isSecond⟩ := inductionHypothesis.mp later
          exact ⟨c :: front, back, rfl, ⟨c, front, rfl, passes, isFirst⟩, by rwa [lastOr_cons]⟩
        · rintro ⟨_, back, rfl, ⟨c, front, rfl, passes, isFirst⟩, isSecond⟩
          rw [lastOr_cons] at isSecond
          exact ⟨c, front ++ back, rfl, passes,
            inductionHypothesis.mpr ⟨front, back, rfl, isFirst, isSecond⟩⟩
      have repeated : ∀ {test : Char → Bool} {piece : List Char},
          Repeated test (Matches isWord (first ++ second)) prev piece after ↔
            ∃ front back, piece = front ++ back ∧
              Repeated test (Matches isWord first) prev front (back ++ after) ∧
              Matches isWord second (lastOr prev front) back after := by
        intro test piece
        constructor
        · rintro ⟨run, tail, rfl, passing, later⟩
          obtain ⟨front, back, rfl, isFirst, isSecond⟩ := inductionHypothesis.mp later
          exact ⟨run ++ front, back, (List.append_assoc _ _ _).symm,
            ⟨run, front, rfl, passing, isFirst⟩, by rwa [lastOr_append]⟩
        · rintro ⟨_, back, rfl, ⟨run, front, rfl, passing, isFirst⟩, isSecond⟩
          rw [lastOr_append] at isSecond
          exact ⟨run, front ++ back, List.append_assoc _ _ _, passing,
            inductionHypothesis.mpr ⟨front, back, rfl, isFirst, isSecond⟩⟩
      cases item with
      | one test => exact single
      | opt test =>
          rw [List.cons_append, Matches, single, inductionHypothesis]
          simp only [Matches, or_and_right, and_or_left, exists_or]
      | greedy test => exact repeated
      | lazy test => exact repeated
      | boundary =>
          rw [List.cons_append, Matches, inductionHypothesis]
          constructor
          · rintro ⟨edge, front, back, rfl, isFirst, isSecond⟩
            rw [List.append_assoc] at edge
            exact ⟨front, back, rfl, ⟨edge, isFirst⟩, isSecond⟩
          · rintro ⟨front, back, rfl, ⟨edge, isFirst⟩, isSecond⟩
            rw [← List.append_assoc] at edge
            exact ⟨edge, front, back, rfl, isFirst, isSecond⟩

theorem matches_cons (item : Item) (items : List Item) :
    Matches isWord (item :: items) prev piece after ↔
      ∃ front back, piece = front ++ back ∧ Matches isWord [item] prev front (back ++ after) ∧
        Matches isWord items (lastOr prev front) back after := matches_append isWord [item] items

@[simp] theorem matches_nil : Matches isWord [] prev piece after ↔ piece = [] := Iff.rfl

@[simp] theorem matches_one :
    Matches isWord [.one test] prev piece after ↔ ∃ c, piece = [c] ∧ test c = true := by
  constructor
  · rintro ⟨c, _, rfl, passes, rfl⟩
    exact ⟨c, rfl, passes⟩
  · rintro ⟨c, rfl, passes⟩
    exact ⟨c, [], rfl, passes, rfl⟩

@[simp] theorem matches_opt :
    Matches isWord [.opt test] prev piece after ↔
      piece = [] ∨ ∃ c, piece = [c] ∧ test c = true := by
  have single : Matches isWord [.one test] prev piece after ↔ ∃ c, piece = [c] ∧ test c = true :=
    matches_one isWord
  exact or_comm.trans (or_congr Iff.rfl single)

@[simp] theorem matches_greedy :
    Matches isWord [.greedy test] prev piece after ↔ ∀ c ∈ piece, test c = true := by
  constructor
  · rintro ⟨run, _, rfl, passing, rfl⟩
    rwa [List.append_nil]
  · intro passing
    exact ⟨piece, [], (List.append_nil piece).symm, passing, rfl⟩

@[simp] theorem matches_boundary :
    Matches isWord [.boundary] prev piece after ↔
      piece = [] ∧ wordEdge isWord prev after = true := by
  constructor
  · rintro ⟨edge, rfl⟩
    exact ⟨rfl, edge⟩
  · rintro ⟨rfl, edge⟩
    exact ⟨edge, rfl⟩

/-- Whether an item never takes a character. -/
def Item.rejects (c : Char) : Item → Bool
  | .one test => !test c
  | .opt test => !test c
  | .greedy test => !test c
  | .lazy test => !test c
  | .boundary => true

theorem notMem_of_rejects {items : List Item} {c : Char}
    (rejects : ∀ item ∈ items, item.rejects c = true)
    (matches_ : Matches isWord items prev piece after) : c ∉ piece := by
  have ne_of_passes : ∀ {test : Char → Bool} {d : Char}, (!test c) = true → test d = true →
      c ≠ d := by
    rintro test _ rejected passes rfl
    rw [passes] at rejected
    cases rejected
  induction items generalizing prev piece with
  | nil =>
      obtain rfl : piece = [] := matches_
      exact List.not_mem_nil
  | cons item items inductionHypothesis =>
      rw [List.forall_mem_cons] at rejects
      have single : ∀ {test : Char → Bool}, (!test c) = true →
          Single test (Matches isWord items) piece after → c ∉ piece := by
        rintro test rejected ⟨d, tail, rfl, passes, later⟩
        rw [List.mem_cons, not_or]
        exact ⟨ne_of_passes rejected passes, inductionHypothesis rejects.2 later⟩
      have repeated : ∀ {test : Char → Bool}, (!test c) = true →
          Repeated test (Matches isWord items) prev piece after → c ∉ piece := by
        rintro test rejected ⟨run, tail, rfl, passing, later⟩
        rw [List.mem_append, not_or]
        refine ⟨fun member => ?_, inductionHypothesis rejects.2 later⟩
        exact ne_of_passes rejected (passing c member) rfl
      cases item with
      | one test => exact single rejects.1 matches_
      | opt test =>
          rcases matches_ with taken | skipped
          · exact single rejects.1 taken
          · exact inductionHypothesis rejects.2 skipped
      | greedy test => exact repeated rejects.1 matches_
      | lazy test => exact repeated rejects.1 matches_
      | boundary => exact inductionHypothesis rejects.2 matches_.2

end Matching

section Removing

/-- A pattern takes at least one character. -/
structure Pattern where
  first : Char → Bool
  rest : List Item

def Pattern.items (pattern : Pattern) : List Item := .one pattern.first :: pattern.rest

variable {α : Type u} (read : α → Char) (isWord : Char → Bool) (pattern : Pattern)

/-- `Regex::replace_all` with an empty replacement, with the number of characters left of a match
and the character before. -/
def removeFrom : Nat → Option Char → List α → List α
  | _, _, [] => []
  | skip + 1, _, a :: rest => removeFrom skip (some (read a)) rest
  | 0, prev, a :: rest =>
      match matchItems isWord pattern.items prev ((a :: rest).map read) with
      | some (n + 1) => removeFrom n (some (read a)) rest
      | _ => a :: removeFrom 0 (some (read a)) rest

def removeAll (text : List α) : List α := removeFrom read isWord pattern 0 none text

/-- A match somewhere in a text. -/
def MatchIn (prev : Option Char) (text : List Char) : Prop :=
  ∃ front piece after, text = front ++ (piece ++ after) ∧
    Matches isWord pattern.items (lastOr prev front) piece after

variable {read isWord pattern} {prev : Option Char}

theorem removeFrom_sublist (skip : Nat) (prev : Option Char) (text : List α) :
    (removeFrom read isWord pattern skip prev text).Sublist text := by
  induction text generalizing skip prev with
  | nil => cases skip <;> exact List.Sublist.refl []
  | cons a rest inductionHypothesis =>
      cases skip with
      | succ skip => exact (inductionHypothesis skip _).cons a
      | zero =>
          rw [removeFrom]
          split
          next n _ => exact (inductionHypothesis n _).cons a
          next => exact (inductionHypothesis 0 _).cons_cons a

/-- A match does not depend on the character before it. -/
theorem removeFrom_prev (skip : Nat) (prev : Option Char) (text : List α) :
    removeFrom read isWord pattern skip prev text =
      removeFrom read isWord pattern skip none text := by
  cases text with
  | nil => cases skip <;> rfl
  | cons a rest => cases skip <;> rfl

/-- What is removed depends on the characters only. -/
theorem removeAll_map {β : Type v} (f : β → α) (text : List β) :
    removeAll read isWord pattern (text.map f) =
      (removeAll (read ∘ f) isWord pattern text).map f := by
  have natural : ∀ skip prev, removeFrom read isWord pattern skip prev (text.map f) =
      (removeFrom (read ∘ f) isWord pattern skip prev text).map f := by
    induction text with
    | nil =>
        intro skip prev
        cases skip <;> rfl
    | cons a rest inductionHypothesis =>
        intro skip prev
        cases skip with
        | succ skip => exact inductionHypothesis skip _
        | zero =>
            rw [List.map_cons, removeFrom, removeFrom, ← List.map_cons, List.map_map]
            split
            next n _ => exact inductionHypothesis n _
            next => rw [List.map_cons, inductionHypothesis, Function.comp_apply]
  exact natural 0 none

/-- Where none begins a character stays. -/
theorem removeAll_keep {a : α} {text : List α}
    (none_found : matchItems isWord pattern.items none ((a :: text).map read) = none) :
    removeAll read isWord pattern (a :: text) = a :: removeAll read isWord pattern text := by
  rw [removeAll, removeFrom, none_found, removeFrom_prev]
  rfl

theorem matchItems_pos {text : List Char} {n : Nat}
    (found : matchItems isWord pattern.items prev text = some n) : 0 < n := by
  obtain ⟨piece, _, _, rfl, c, tail, rfl, _⟩ :=
    (decides_matchItems isWord pattern.items).sound found
  exact Nat.succ_pos _

/-- Where a match begins it is left out. -/
theorem removeAll_match {piece text : List α}
    (found : matchItems isWord pattern.items none ((piece ++ text).map read) =
      some piece.length) :
    removeAll read isWord pattern (piece ++ text) = removeAll read isWord pattern text := by
  have skipped : ∀ (piece : List α) prev,
      removeFrom read isWord pattern piece.length prev (piece ++ text) =
        removeAll read isWord pattern text := by
    intro piece
    induction piece with
    | nil => exact fun prev => removeFrom_prev 0 prev text
    | cons a piece inductionHypothesis => exact fun _ => inductionHypothesis _
  cases piece with
  | nil => rfl
  | cons a piece =>
      rw [List.cons_append, List.length_cons] at found
      rw [List.cons_append, removeAll, removeFrom, found]
      exact skipped piece _

/-- Two texts are cleaned one by one if no match in the first one depends on the second one. -/
theorem removeAll_append {front rest : List α}
    (apart : ∀ before here, front = before ++ here → here ≠ [] →
      matchItems isWord pattern.items none ((here ++ rest).map read) =
        matchItems isWord pattern.items none (here.map read)) :
    removeAll read isWord pattern (front ++ rest) =
      removeAll read isWord pattern front ++ removeAll read isWord pattern rest := by
  induction length : front.length using Nat.strongRecOn generalizing front with
  | ind n inductionHypothesis =>
      subst length
      cases front with
      | nil => rfl
      | cons a front =>
          have same := apart [] (a :: front) rfl (List.cons_ne_nil a front)
          cases found : matchItems isWord pattern.items none ((a :: front).map read) with
          | none =>
              rw [found, List.cons_append] at same
              have later := inductionHypothesis front.length (Nat.lt_succ_self _)
                (fun before here split => apart (a :: before) here (congrArg (a :: ·) split)) rfl
              rw [List.cons_append, removeAll_keep same, removeAll_keep found, later,
                List.cons_append]
          | some n =>
              obtain ⟨piece, after, split, rfl, _⟩ :=
                (decides_matchItems isWord pattern.items).sound found
              obtain ⟨taken, left, parts, rfl, rfl⟩ := List.map_eq_append_iff.mp split
              rw [parts, List.length_map] at found
              rw [parts, found, List.append_assoc] at same
              have positive := matchItems_pos found
              have shorter : left.length < (a :: front).length := by
                rw [parts, List.length_append]
                omega
              have later := inductionHypothesis left.length shorter
                (fun before here tail => apart (taken ++ before) here
                  (by rw [parts, tail, List.append_assoc])) rfl
              rw [parts, List.append_assoc, removeAll_match same, removeAll_match found, later]

/-- The text stays as it is where nothing matches, and gets shorter where something does. -/
theorem removeFrom_eq_or_lt (prev : Option Char) (text : List α) :
    (¬ MatchIn isWord pattern prev (text.map read) ∧
      removeFrom read isWord pattern 0 prev text = text) ∨
    (MatchIn isWord pattern prev (text.map read) ∧
      (removeFrom read isWord pattern 0 prev text).length < text.length) := by
  induction text generalizing prev with
  | nil =>
      refine .inl ⟨?_, rfl⟩
      rintro ⟨front, piece, after, split, c, tail, rfl, _⟩
      simp at split
  | cons a rest inductionHypothesis =>
      rw [removeFrom]
      split
      next n found =>
        obtain ⟨piece, after, split, _, isMatch⟩ :=
          (decides_matchItems isWord pattern.items).sound found
        refine .inr ⟨⟨[], piece, after, split, isMatch⟩, ?_⟩
        exact Nat.lt_succ_of_le (removeFrom_sublist n _ rest).length_le
      next none_found =>
        have none_here : matchItems isWord pattern.items prev ((a :: rest).map read) = none := by
          cases found : matchItems isWord pattern.items prev ((a :: rest).map read) with
          | none => rfl
          | some n =>
              cases n with
              | zero => exact absurd (matchItems_pos found) (Nat.lt_irrefl 0)
              | succ m => exact absurd found (none_found m)
        have later : MatchIn isWord pattern prev ((a :: rest).map read) ↔
            MatchIn isWord pattern (some (read a)) (rest.map read) := by
          constructor
          · rintro ⟨front, piece, after, split, isMatch⟩
            cases front with
            | nil =>
                rw [List.nil_append] at split
                have found := (decides_matchItems isWord pattern.items).complete isMatch
                rw [lastOr_nil, ← split] at found
                exact absurd none_here found
            | cons c front =>
                rw [List.map_cons, List.cons_append, List.cons.injEq] at split
                obtain ⟨rfl, split⟩ := split
                rw [lastOr_cons] at isMatch
                exact ⟨front, piece, after, split, isMatch⟩
          · rintro ⟨front, piece, after, split, isMatch⟩
            refine ⟨read a :: front, piece, after, ?_, ?_⟩
            · rw [List.map_cons, split, List.cons_append]
            · rwa [lastOr_cons]
        rw [later, List.cons.injEq, List.length_cons, List.length_cons, Nat.succ_lt_succ_iff]
        rcases inductionHypothesis (some (read a)) with ⟨none_later, same⟩ | ⟨some_later, shorter⟩
        · exact .inl ⟨none_later, rfl, same⟩
        · exact .inr ⟨some_later, shorter⟩

/-- A text is its own remainder exactly when nothing in it matches. -/
theorem removeAll_eq_iff (text : List α) :
    removeAll read isWord pattern text = text ↔ ¬ MatchIn isWord pattern none (text.map read) := by
  rcases @removeFrom_eq_or_lt _ read isWord pattern none text with
    ⟨none_in, same⟩ | ⟨some_in, shorter⟩
  · exact iff_of_true same none_in
  · refine iff_of_false (fun same => ?_) (not_not.mpr some_in)
    have lengths := congrArg List.length same
    rw [removeAll] at lengths
    omega

theorem removeAll_sublist (text : List α) :
    (removeAll read isWord pattern text).Sublist text := removeFrom_sublist 0 none text

end Removing

end Scryd.Foundation
