/-
# Media types

A media type is a type, a slash, a subtype and parameters, without regard to the case of its letters. The subtype may have
a suffix behind its last plus sign, which is not counted if nothing stands before it. The text of a document is JSON if
the type is `application` and the subtype or its suffix is `json`.

A parameter is a name, an equals sign and a value, which is a token or quoted. Semicolons stand before each parameter, and
spaces may follow them.
-/

namespace Suggest
namespace Server
namespace MediaType

/-- Whether the character may stand in a token. -/
def isTokenChar (c : Char) : Bool := c.isAlphanum || "!#$%&'*+-.^_`|~".toList.contains c

/-- Whether the character may stand in a quoted value. -/
def isQuotedChar (c : Char) : Bool := c.toNat > 31 && c.toNat ≠ 127

/-- Where a reader of parameters is. -/
inductive Place where
  /-- Before a name. -/
  | before
  /-- In a name. -/
  | name
  /-- At the start of a value. -/
  | value
  /-- In a value that is a token. -/
  | token
  /-- At the start of a quoted value. -/
  | quote
  /-- In a quoted value. -/
  | quoted
  /-- Behind a quoted value. -/
  | behind
  deriving DecidableEq, Repr

/-- The place behind one more character. -/
def Place.next? (p : Place) (c : Char) : Option Place :=
  match p with
  | .before => if c = ' ' then some .before else if isTokenChar c then some .name else none
  | .name => if c = '=' then some .value else if isTokenChar c then some .name else none
  | .value => if c = '"' then some .quote else if isTokenChar c then some .token else none
  | .token => if c = ';' then some .before else if isTokenChar c then some .token else none
  | .quote => if isQuotedChar c then some .quoted else none
  | .quoted => if c = '"' then some .behind else if isQuotedChar c then some .quoted else none
  | .behind => if c = ';' then some .before else if c = ' ' then some .behind else none

/-- Whether the parameters may end at the place. -/
def Place.isEnd : Place → Bool
  | .before | .value | .token | .behind => true
  | .name | .quote | .quoted => false

/-- Whether the characters behind the first semicolon are parameters. -/
def areParameters (cs : List Char) : Bool :=
  match cs.foldlM Place.next? Place.before with
  | some place => place.isEnd
  | none => false

/-- What stands before the last plus sign of a subtype, and behind it, if it has one that is not its first character. -/
def suffixed (subtype : List Char) : List Char × Option (List Char) :=
  let behind := (subtype.reverse.takeWhile (· ≠ '+')).reverse
  if behind.length + 1 < subtype.length then (subtype.take (subtype.length - behind.length - 1), some behind)
  else (subtype, none)

/-- Whether the media type is one of JSON. -/
def isJson (text : String) : Bool :=
  let cs := text.toLower.toList
  let type := cs.takeWhile isTokenChar
  match cs.drop type.length with
  | '/' :: rest =>
    let subtype := rest.takeWhile isTokenChar
    let (base, suffix) := suffixed subtype
    let wellFormed := !subtype.isEmpty && match rest.drop subtype.length with
      | [] => true
      | ';' :: parameters => areParameters parameters
      | _ => false
    type = "application".toList && wellFormed && (base = "json".toList || suffix = some "json".toList)
  | _ => false

end MediaType
end Server
end Suggest
