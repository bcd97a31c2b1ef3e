/-
# Parts of texts

A text is split at every separator: there is one part more than there are separators, and a part may be empty. The items of a
list with commas are its parts without the white space around them.
-/

import Suggest.Text.Blank

namespace Suggest
namespace Text

/-- The parts of a text between the separators. -/
def split (separator : Char) (text : String) : List String := (text.toList.splitOn separator).map String.ofList

/-- The items of a list with commas between them. -/
def items (list : String) : List String := (split ',' list).map trim

end Text
end Suggest
