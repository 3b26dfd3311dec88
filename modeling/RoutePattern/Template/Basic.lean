/-
Templates: compiled patterns.

A template says whether it starts with a slash and which parts it has. Compiling
reads the parts (`read`) and then checks their order (`checked`). `pattern`
writes a template in the form that compiles back to it: parts separated by one
slash each, a format attached to what stands before it, and no slash at the end.
-/
import RoutePattern.Part

set_option autoImplicit false

namespace RoutePattern

/-- A compiled pattern (`Template`, with the part `LeadingJoiner` kept as `rooted`). -/
structure Template where
  /-- Whether there is a slash in front. -/
  rooted : Bool := false
  parts : List Part := []
  deriving DecidableEq, Repr

namespace Template

/-- Reads a pattern without looking at the order of its parts (`lex_parts`). -/
def read (pattern : String) : Except Fault Template :=
  let tokens := Token.scan pattern
  (Part.ofTokens tokens).map fun parts => { rooted := Token.rooted tokens, parts := parts }

/-- Passes a template on if the order of its parts is allowed (`validate`). -/
def checked (t : Template) : Except Fault Template :=
  match Part.misplaced? false t.parts with
  | none => .ok t
  | some fault => .error fault

/-- The template of a pattern, or why there is none (`compile`, `try_new`). -/
def ofPattern (pattern : String) : Except Fault Template :=
  (read pattern).bind checked

/-- The template of one variable (`Template::variable`). -/
def ofName (name : String) : Except Fault Template :=
  ofPattern (":" ++ name)

/-- The names that a template captures under, in order. -/
def names (t : Template) : List String := t.parts.filterMap Part.name?

/-! ## The pattern of a template -/

/-- What a template starts with: a slash or nothing. -/
def root (t : Template) : String := if t.rooted then "/" else ""

/-- The parts that are separated by slashes. -/
def separated (t : Template) : List Part := t.parts.filter fun p => !p.isFormat

/-- The parts that are attached. -/
def attached (t : Template) : List Part := t.parts.filter Part.isFormat

/-- The canonical pattern of a template, which is how it is displayed (`to_string`). -/
def pattern (t : Template) : String :=
  t.root ++ "/".intercalate (t.separated.map Part.spell) ++ String.join (t.attached.map Part.spell)

instance : ToString Template := ⟨pattern⟩

example : (ofPattern "/users//:id/*rest.format").toOption.map pattern =
    some "/users/:id/*rest.format" := by
  decide +kernel

end Template

end RoutePattern
