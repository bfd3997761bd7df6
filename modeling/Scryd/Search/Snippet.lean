import Scryd.Foundation.Utf8

/-!
# Snippets

The excerpt of a body around the first query term.  The source slices by byte
offsets and moves them to character boundaries; here a cut is the number of
characters before it, and only the window's width is measured in bytes.
-/

namespace Scryd.Search

open Scryd.Foundation

/-- The last cut at or before a byte offset. -/
def cutDown : Nat → List Char → Nat
  | _, [] => 0
  | bytes, c :: rest => if c.utf8Size ≤ bytes then cutDown (bytes - c.utf8Size) rest + 1 else 0

/-- The first cut at or after a byte offset. -/
def cutUp : Nat → List Char → Nat
  | _, [] => 0
  | bytes, c :: rest => if bytes = 0 then 0 else cutUp (bytes - c.utf8Size) rest + 1

/-- Whether a text begins with a term, up to ASCII case.  Terms that match have the same
bytes up to case, so the slice ends on a character boundary. -/
def startsWithTerm (term chars : List Char) : Bool :=
  !term.isEmpty && (chars.take term.length).map asciiLower == term.map asciiLower

/-- The number of characters before the first occurrence of a term. -/
def findTerm (term : List Char) : List Char → Option Nat
  | [] => none
  | c :: rest =>
      if startsWithTerm term (c :: rest) then some 0 else (findTerm term rest).map (· + 1)

/-- `find_first_match`. -/
def findFirstMatch (body : List Char) (terms : List (List Char)) : Option Nat :=
  (terms.filterMap fun term => findTerm term body).min?

/-- `window_around`: half the width on either side of a match, widened to whole characters. -/
def windowAround (body : List Char) (position maxChars : Nat) : Nat × Nat :=
  let offset := byteLength (body.take position)
  let half := maxChars / 2
  (cutDown (offset - half) body, cutUp (min (offset + half) (byteLength body)) body)

/-- `leading_window`. -/
def leadingWindow (body : List Char) (maxChars : Nat) : Nat × Nat :=
  (0, cutUp (min maxChars (byteLength body)) body)

/-- `push_highlighted`.  A matched term leaves `pending` characters to copy before the
closing mark. -/
def highlighted (terms : List (List Char)) : Nat → List Char → List Char
  | _, [] => []
  | pending + 1, c :: rest =>
      c :: ((if pending = 0 then ['*', '*'] else []) ++ highlighted terms pending rest)
  | 0, c :: rest =>
      match terms.find? fun term => startsWithTerm term (c :: rest) with
      | some term =>
          '*' :: '*' :: c :: ((if term.length = 1 then ['*', '*'] else []) ++
            highlighted terms (term.length - 1) rest)
      | none => c :: highlighted terms 0 rest

def ellipsis : Char := Char.ofNat 0x2026

/-- `snippet::render`. -/
def renderSnippet (bodyMd q : String) (maxChars : Nat) : String :=
  let body := bodyMd.toList
  let terms := splitWhitespace q.toList
  let (first, last) :=
    match findFirstMatch body terms with
    | some position => windowAround body position maxChars
    | none => leadingWindow body maxChars
  let raw := (body.take last).drop first
  String.ofList ((if 0 < first then [ellipsis] else []) ++ highlighted terms 0 raw ++
    (if last < body.length then [ellipsis] else []))

example : renderSnippet "say Hello, hello" "hello" 10 = "say **Hello**…" := by decide
-- The left edge falls into the `ß` and moves before it.
example : renderSnippet "grüße an alle" "an" 6 = "…ße **an** …" := by decide

end Scryd.Search
