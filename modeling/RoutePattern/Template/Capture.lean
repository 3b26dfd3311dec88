/-
From a path to its values.

An input is read into tokens like a pattern, and never refused for its form. Its
slashes count only in front; after that, parts and tokens are walked side by
side. A glob takes as many segments as there are, and nothing is ever tried
again. What is left at the end may be one query, whose entries join the
captures; anything else is no match.
-/
import RoutePattern.Query
import RoutePattern.Template.Basic
import RoutePattern.Uri

set_option autoImplicit false

namespace RoutePattern

/-- The literals in front of a list of tokens, and what follows them. -/
def Token.literalRun : List Token → List String × List Token
  | .literal text :: rest =>
    let run := literalRun rest
    (text :: run.1, run.2)
  | rest => ([], rest)

namespace Part

/-- What parts capture from tokens without slashes, in order (the walk of `match_input`). -/
def bindings : List Part → List Token → Option (List Entry)
  | [], [] => some []
  | [], [.query text] => some (Query.read text).entries
  | literal expected :: ps, .literal text :: ts =>
    if expected = text then bindings ps ts else none
  | var name :: ps, .literal text :: ts =>
    (bindings ps ts).map ((.name name, .single text) :: ·)
  | glob name :: ps, ts =>
    let run := Token.literalRun ts
    (bindings ps run.2).map ((.name name, .list run.1) :: ·)
  | format name :: ps, .format text :: ts =>
    (bindings ps ts).map ((.name name, .single text) :: ·)
  | _, _ => none

end Part

namespace Template

/-- The captures of an input, if the template matches it (`recognize`). -/
def capture? (t : Template) (input : String) : Option Captures :=
  let tokens := Token.scan input
  if Token.rooted tokens = t.rooted then
    (Part.bindings t.parts (tokens.filter (· ≠ .slash))).map Captures.ofList
  else none

/-- The captures of the target of a URI (`recognize_uri`). -/
def captureUri? (t : Template) (uri : Uri) : Option Captures := t.capture? uri.target

/-- Whether the template matches an input (`is_match`). -/
def accepts (t : Template) (input : String) : Bool := (t.capture? input).isSome

end Template

end RoutePattern
