import Scryd.Mime.InlineImages

/-!
# The body

Selection of the part that becomes the body, and the cap on what is kept of it.
-/

namespace Scryd.Mime

open Scryd.Foundation

section Selection

def minPlainBytes : Nat := 100

/-- `content_type_subtype_matches` -/
def contentTypeSubtypeMatches (part : Part) (expected : String) : Bool :=
  match part.contentType with
  | none => expected == "plain"
  | some ct =>
      match ct.subtype with
      | none => expected == "plain"
      | some sub => eqIgnoreAsciiCase sub expected

/-- `is_text_part_with_subtype` -/
def isTextPartWithSubtype (part : Part) (subtype : String) : Bool :=
  match part.body with
  | .text _ => subtype == "plain" && contentTypeSubtypeMatches part "plain"
  | .html _ => subtype == "html" && contentTypeSubtypeMatches part "html"
  | _ => false

def PartBody.text? : PartBody → Option String
  | .text content => some content
  | .html content => some content
  | _ => none

/-- `first_text_part` -/
def firstTextPart (parts : List Part) (subtype : String) : Option String :=
  parts.findSome? fun part =>
    if isTextPartWithSubtype part subtype then part.body.text? else none

end Selection

section Cap

def bodyMaxBytes : Nat := 1048576

def truncationSentinel : List Char := "\n\n_[truncated by scryd at 1MB]_".toList

/-- `utf8_safe_truncate` -/
def utf8SafeTruncate (s : List Char) (maxBytes : Nat) : Nat :=
  if byteLength s ≤ maxBytes then byteLength s else boundaryDown s maxBytes

/-- `enforce_size_cap`.  `&body[..cut]` would panic off a character boundary. -/
def enforceSizeCap (body : String) (faults : List ParseFault) : String × List ParseFault :=
  if byteLength body.toList ≤ bodyMaxBytes then (body, faults)
  else
    let original := byteLength body.toList
    let headBudget := bodyMaxBytes - byteLength truncationSentinel
    let cut := utf8SafeTruncate body.toList headBudget
    (String.ofList ((slice? body.toList 0 cut).getD [] ++ truncationSentinel),
      faults ++ [.bodyTruncated original])

/-- What is kept of a body: all of it, or the longest start that leaves room for the sentinel. -/
inductive Capped (body : List Char) : List Char → List ParseFault → Prop where
  | whole (fits : byteLength body ≤ bodyMaxBytes) : Capped body body []
  | cut {kept rest : List Char} (exceeds : bodyMaxBytes < byteLength body)
      (split : body = kept ++ rest)
      (room : byteLength (kept ++ truncationSentinel) ≤ bodyMaxBytes)
      (longest : ∀ c ∈ rest.head?,
        bodyMaxBytes < byteLength (kept ++ c :: truncationSentinel)) :
      Capped body (kept ++ truncationSentinel) [.bodyTruncated (byteLength body)]

theorem byteLength_truncationSentinel : byteLength truncationSentinel = 31 := by
  decide

/-- The cut is at the last boundary that leaves room for the sentinel. -/
theorem capped_enforceSizeCap (body : String) :
    Capped body.toList (enforceSizeCap body []).1.toList (enforceSizeCap body []).2 := by
  rw [enforceSizeCap]
  split
  next fits => exact .whole fits
  next exceeds =>
    have tooLong : ¬ byteLength body.toList ≤ bodyMaxBytes - byteLength truncationSentinel := by
      omega
    obtain ⟨isBoundary, below, greatest⟩ :=
      boundaryDown_spec body.toList (bodyMaxBytes - byteLength truncationSentinel)
    obtain ⟨kept, rest, split, length⟩ := (isCharBoundary_iff _ _).mp isBoundary
    have sliced : slice? body.toList 0 (byteLength kept) = some kept := by
      have slice := slice?_append [] kept rest
      simpa [← split] using slice
    have sentinelFits : byteLength truncationSentinel ≤ bodyMaxBytes := by
      rw [byteLength_truncationSentinel]
      decide
    have cutAt : utf8SafeTruncate body.toList (bodyMaxBytes - byteLength truncationSentinel) =
        byteLength kept := by
      rw [utf8SafeTruncate, if_neg tooLong, length]
    simp only [cutAt, sliced, Option.getD_some, String.toList_ofList, List.nil_append]
    refine .cut (Nat.lt_of_not_le exceeds) split ?_ ?_
    · rw [byteLength_append]
      omega
    · intro c isNext
      obtain ⟨later, rfl⟩ := List.head?_eq_some_iff.mp isNext
      have next : isCharBoundary body.toList (byteLength (kept ++ [c])) = true := by
        rw [split, ← List.singleton_append, ← List.append_assoc]
        exact isCharBoundary_byteLength (kept ++ [c]) later
      by_contra fits
      rw [byteLength_append, byteLength] at fits
      have atMost := greatest _ next (by
        rw [byteLength_append, byteLength, byteLength_nil]
        omega)
      rw [byteLength_append, byteLength, byteLength_nil, ← length] at atMost
      have positive := c.utf8Size_pos
      omega

theorem Capped.le {body kept : List Char} {faults : List ParseFault}
    (capped : Capped body kept faults) : byteLength kept ≤ bodyMaxBytes := by
  cases capped with
  | whole fits => exact fits
  | cut _ _ room => exact room

theorem encryptedPlaceholder_short :
    byteLength encryptedPlaceholder.toList ≤ bodyMaxBytes := by
  decide

end Cap

section Body

variable (tools : MailTools)

/-- What `select_body` selects, before the cap. -/
def selectedBody (parts : List Part) : String :=
  let plain := (firstTextPart parts "plain").getD ""
  let plainTrimmedLen := byteLength (trim plain.toList)
  if minPlainBytes ≤ plainTrimmedLen then plain
  else
    match firstTextPart parts "html" with
    | some html =>
        let cleaned := preClean tools.words html
        let md := (tools.convert cleaned).getD cleaned
        substituteInlineImagePlaceholders md parts
    | none => if !plain.isEmpty then plain else ""

/-- `select_body` -/
def selectBody (parts : List Part) : String × List ParseFault :=
  enforceSizeCap (selectedBody tools parts) []

theorem capped_selectBody (parts : List Part) :
    Capped (selectedBody tools parts).toList (selectBody tools parts).1.toList
      (selectBody tools parts).2 := by
  rw [selectBody]
  exact capped_enforceSizeCap (selectedBody tools parts)

end Body

end Scryd.Mime
