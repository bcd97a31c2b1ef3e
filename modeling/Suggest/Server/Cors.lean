/-
# Cross-origin requests

Which origins may use the answers is one setting: a list of origins with commas between them. Entries that could not be
the value of a header are dropped. Without a setting, or if no entry is left, every origin may, and otherwise only those
on the list. A wildcard is no origin, so a list with one has no meaning.
-/

import Suggest.Text.Parts
import Suggest.Text.Utf8

namespace Suggest
namespace Server

/-- The origins that may use the answers. -/
inductive Cors where
  | anyone
  | listed (origins : List String)
  deriving DecidableEq, Repr

namespace Cors

/-- Whether the text could be the value of a header. -/
def isHeaderValue (text : String) : Bool :=
  (Text.bytes text).all fun b => b = 9 || (32 ≤ b.toNat && b ≠ 127)

/-- The origins on a list. -/
def origins (setting : String) : List String := (Text.items setting).filter isHeaderValue

/-- What a setting means, unless it lists a wildcard. -/
def ofSetting? : Option String → Option Cors
  | none => some .anyone
  | some setting =>
    if (origins setting).isEmpty then some .anyone
    else if (origins setting).contains "*" then none
    else some (.listed (origins setting))

/-- The origin that an answer names. -/
def allowed (c : Cors) (origin : Option String) : Option String :=
  match c with
  | .anyone => some "*"
  | .listed origins => origin.filter fun o => origins.contains o

theorem allowed_listed_eq_some_iff {origins : List String} {origin : Option String} {o : String} :
    (listed origins).allowed origin = some o ↔ origin = some o ∧ o ∈ origins := by
  cases origin <;> simp [allowed, Option.filter_eq_some_iff]

end Cors

end Server
end Suggest
