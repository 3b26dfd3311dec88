/-
From values to a path.

Values come as captures, and as positional arguments for the parts that the
captures leave open. `fill` hands out the arguments: a format takes the last
one, variables take theirs from the front, and a glob takes what remains, even
if that is nothing. `write` then walks the parts. Each value is used up by the
first part that asks for it; a part that finds none leaves its segment out; and
what no part has used is written as a query.
-/
import RoutePattern.Query
import RoutePattern.Template.Basic

set_option autoImplicit false

namespace RoutePattern

/-! ## One part -/

namespace Part

/-- The value that a part finds. -/
def value? (p : Part) (c : Captures) : Option Value := p.name?.bind c.name?

/-- The captures without the value that a part finds. -/
def takeFrom (p : Part) (c : Captures) : Captures :=
  match p.name? with
  | none => c
  | some name => c.erase (.name name)

/-- The segment that a part gives with the value it finds. A glob without texts gives none. -/
def segment? : Part → Option Value → Option String
  | literal text, _ => some text
  | var _, v => v.map Value.joined
  | glob _, some (.list []) => none
  | glob _, v => v.map Value.joined
  | format _, _ => none

/-- What a part adds behind the last segment. -/
def suffix : Part → Option Value → String
  | format _, some v => "." ++ v.joined
  | _, _ => ""

/-- Each part with the value that is left for it. -/
def assign : List Part → Captures → List (Part × Option Value)
  | [], _ => []
  | p :: ps, c => (p, p.value? c) :: assign ps (p.takeFrom c)

end Part

namespace Template

/-! ## Handing out arguments -/

/-- The names of the variables in order. -/
def varNames (t : Template) : List String := t.parts.filterMap Part.varName?

/-- Binds a name unless it is bound. -/
def bindIfFree (c : Captures) (name : String) (v : Value) : Captures :=
  if c.contains (.name name) then c else c.insert (.name name) v

/-- The format takes the last argument. -/
def fillFormat (t : Template) (args : List String) (c : Captures) : List String × Captures :=
  match t.parts.findSome? Part.formatName?, args.getLast? with
  | some name, some last =>
    if c.contains (.name name) then (args, c)
    else (args.dropLast, c.insert (.name name) (.single last))
  | _, _ => (args, c)

/-- Names that are not bound take arguments from the front, as long as there are any. -/
def fillVars : List String → List String → Captures → List String × Captures
  | name :: names, arg :: args, c =>
    if c.contains (.name name) then fillVars names (arg :: args) c
    else fillVars names args (c.insert (.name name) (.single arg))
  | _, args, c => (args, c)

/-- The glob takes all arguments that remain. -/
def fillGlob (t : Template) (args : List String) (c : Captures) : Captures :=
  match t.parts.findSome? Part.globName? with
  | some name => bindIfFree c name (.list args)
  | none => c

/-- The captures with the arguments handed out (`resolve`). What is bound already stays. -/
def fill (t : Template) (args : List String) (c : Captures) : Captures :=
  let afterFormat := t.fillFormat args c
  let afterVars := fillVars t.varNames afterFormat.1 afterFormat.2
  t.fillGlob afterVars.1 afterVars.2

/-! ## Writing -/

/-- The captures that no part uses. -/
def leftover (t : Template) (c : Captures) : Captures :=
  t.parts.foldl (fun c p => p.takeFrom c) c

/-- The segments that the parts give. -/
def segments (t : Template) (c : Captures) : List String :=
  (Part.assign t.parts c).filterMap fun a => a.1.segment? a.2

/-- What stands behind the last segment. -/
def suffix (t : Template) (c : Captures) : String :=
  String.join ((Part.assign t.parts c).map fun a => a.1.suffix a.2)

/-- The captures as a query, with its `?` if there are any. -/
def queryTail (c : Captures) : String :=
  if c.entries = [] then "" else "?" ++ Query.write c

/-- The path for these captures, when no part is left open (`generate`, behind `resolve`). -/
def write (t : Template) (c : Captures) : String :=
  t.root ++ "/".intercalate (t.segments c) ++ t.suffix c ++ queryTail (t.leftover c)

/-- The path for these arguments and captures (`apply`). Where both could serve, the captures do. -/
def renderWith (t : Template) (args : List String) (c : Captures) : String :=
  t.write (t.fill args c)

/-- The path for these captures (`render`). -/
def render (t : Template) (c : Captures) : String := t.renderWith [] c

/-- Compiles a pattern and applies it (`expand`). -/
def renderPattern (pattern : String) (args : List String) (c : Captures) : Except Fault String :=
  (ofPattern pattern).map fun t => t.renderWith args c

end Template

end RoutePattern
