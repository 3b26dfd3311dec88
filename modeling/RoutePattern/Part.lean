/-
Parts: the units of a compiled template.

A part is read from one token. Slashes give no part, because parts are
separated by them anyway; that a pattern starts with one is kept by the
template. Reading can go wrong for its tokens alone (`ofTokens`) and for the
order in which parts stand (`misplaced?`). The two are kept apart because
joining two patterns repeats the second check and not the first.
-/
import RoutePattern.Fault
import RoutePattern.Token

set_option autoImplicit false

namespace RoutePattern

/-- The unit of a template (`Part`, without its `LeadingJoiner`). -/
inductive Part where
  /-- A segment with this text. -/
  | literal (text : String)
  /-- A variable, `:name`: exactly one segment. -/
  | var (name : String)
  /-- A glob, `*name`: any number of segments. -/
  | glob (name : String)
  /-- A format, `.name`: a dotted suffix. -/
  | format (name : String)
  deriving DecidableEq, Repr

namespace Part

/-- The name that a part captures under (`Part::name`). -/
def name? : Part → Option String
  | literal _ => none
  | var name => some name
  | glob name => some name
  | format name => some name

/-- The name of a variable. -/
def varName? : Part → Option String
  | var name => some name
  | _ => none

/-- The name of a glob. -/
def globName? : Part → Option String
  | glob name => some name
  | _ => none

/-- The name of a format. -/
def formatName? : Part → Option String
  | format name => some name
  | _ => none

/-- Whether a part is attached to the one before it. -/
def isFormat (p : Part) : Bool := p.formatName?.isSome

/-- The text of a part in a pattern. -/
def spell : Part → String
  | literal text => text
  | var name => ":" ++ name
  | glob name => "*" ++ name
  | format name => "." ++ name

/-! ## From tokens -/

/-- Puts a part with a name in front, if there is a name (`checked_name`). -/
def consNamed (part : String → Part) (name : String) (rest : Except Fault (List Part)) :
    Except Fault (List Part) :=
  if name = "" then .error .emptyName else rest.map (part name :: ·)

/-- Reads parts from tokens (`lex_parts`), or gives the leftmost fault. Not even a slash may follow
a format. -/
def ofTokens : List Token → Except Fault (List Part)
  | [] => .ok []
  | .slash :: rest => ofTokens rest
  | .literal text :: rest => (ofTokens rest).map (literal text :: ·)
  | .var name :: rest => consNamed var name (ofTokens rest)
  | .glob name :: rest => consNamed glob name (ofTokens rest)
  | .format name :: rest =>
    consNamed format name (if rest = [] then .ok [] else .error .formatNotLast)
  | .query _ :: _ => .error .queryString

/-! ## Arrangement -/

/-- The leftmost fault in the order of parts (`validate`), where `afterGlob` says whether a glob
stands to the left. A literal may follow a glob. -/
def misplaced? (afterGlob : Bool) : List Part → Option Fault
  | [] => none
  | literal _ :: rest => misplaced? afterGlob rest
  | var _ :: rest => if afterGlob then some .variableAfterGlob else misplaced? false rest
  | glob _ :: rest => if afterGlob then some .multipleGlobs else misplaced? true rest
  | format _ :: rest => if rest = [] then none else some .formatNotLast

end Part

end RoutePattern
