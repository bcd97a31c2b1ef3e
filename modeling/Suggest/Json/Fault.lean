/-
# What is wrong with a document

| fault | meaning |
| --- | --- |
| `ended` | the text ends inside a value |
| `malformed` | the text is not JSON, nests too deep, or has a number out of range |
| `mismatched` | the text is JSON, but not of the kind that is read |

`Document` readers report the first fault in the order of the text.
-/

namespace Suggest
namespace Json

/-- Why a document is refused. -/
inductive Fault where
  | ended
  | malformed
  | mismatched
  deriving DecidableEq, Repr

/-- The category of a fault. -/
def Fault.message : Fault → String
  | .ended => "<eof>"
  | .malformed => "<syntax>"
  | .mismatched => "<data>"

end Json
end Suggest
