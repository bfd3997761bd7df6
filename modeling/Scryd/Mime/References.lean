import Scryd.Foundation.Text

/-!
# Message-IDs

The normal form of a Message-ID header.  Lowercasing is Unicode's and a
parameter here.
-/

namespace Scryd.Mime

open Scryd.Foundation

/-- `str::trim_start_matches` of a character. -/
def trimStartMatches (mark : Char) (chars : List Char) : List Char :=
  chars.dropWhile fun c => c == mark

/-- `str::trim_end_matches` of a character. -/
def trimEndMatches (mark : Char) (chars : List Char) : List Char :=
  (trimStartMatches mark chars.reverse).reverse

/-- `normalize_message_id`. -/
def normalizeMessageId (toLowercase : String → String) (raw : String) : Option String :=
  let trimmed := trim (trimEndMatches '>' (trimStartMatches '<' (trim raw.toList)))
  if trimmed.isEmpty || !trimmed.contains '@' then none
  else some (toLowercase (String.ofList trimmed))

/-- Lowercasing leaves the separator alone, so a normalized id still has it. -/
theorem at_mem_of_normalizeMessageId {toLowercase : String → String}
    (keepsAt : ∀ text : String, '@' ∈ text.toList → '@' ∈ (toLowercase text).toList)
    {raw id : String} (normalized : normalizeMessageId toLowercase raw = some id) :
    '@' ∈ id.toList := by
  simp only [normalizeMessageId] at normalized
  split at normalized
  next => cases normalized
  next shaped =>
    cases normalized
    apply keepsAt
    rw [String.toList_ofList]
    simp only [Bool.or_eq_true, Bool.not_eq_true', not_or, Bool.not_eq_false] at shaped
    simpa using shaped.2

/-- `normalize_references`. -/
def normalizeReferences (toLowercase : String → String) (raw : String) : List String :=
  (splitWhitespace raw.toList).filterMap fun token =>
    normalizeMessageId toLowercase (String.ofList token)

end Scryd.Mime
