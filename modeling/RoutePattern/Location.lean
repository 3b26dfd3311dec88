/-
Locations: a template together with values for it.

A location has a text, which is its template rendered with its captures. The
entries that the template declares go into the path, all others into the query,
path keys of undeclared names among them. `readBack` says what matching makes of
that text without rendering it, and an input agrees with the location when it
gives the same.
-/
import RoutePattern.Template.Algebra
import RoutePattern.Template.Capture
import RoutePattern.Template.Render

set_option autoImplicit false

namespace RoutePattern

/-- A template and the values that fill it (`Location`). -/
structure Location where
  template : Template
  captures : Captures
  deriving DecidableEq, Repr

namespace Location

/-- The location of an input that a template matches (`recognize`). -/
def ofInput? (t : Template) (input : String) : Option Location :=
  (t.capture? input).map fun c => ⟨t, c⟩

/-- The location of a URI whose target a template matches (`from_uri`). -/
def ofUri? (t : Template) (uri : Uri) : Option Location :=
  (t.captureUri? uri).map fun c => ⟨t, c⟩

/-! ## The text and its two halves -/

/-- The text of a location, which is how it is displayed (`to_string`). -/
def text (l : Location) : String := l.template.render l.captures

instance : ToString Location := ⟨text⟩

/-- Whether an entry goes into the path (`fills_path`): its key is a name that the template declares
(`declares`). -/
def declares (l : Location) : Key → Bool
  | .name name => l.template.names.contains name
  | .query _ => false

/-- The captures that go into the path. -/
def declared (l : Location) : Captures := l.captures.filterKeys l.declares

/-- The captures that go into the query. -/
def undeclared (l : Location) : Captures := l.captures.filterKeys fun k => !l.declares k

/-- The text without a query (`path_only`). -/
def path (l : Location) : String := l.template.render l.declared

/-- What stands behind the `?` (`query_string`). -/
def query (l : Location) : String := Query.write l.undeclared

/-! ## Comparing with an input -/

/-- One entry as it comes back from the text: a value of the path as it is, any other one text
after the other under a query key. -/
def readBackEntry (l : Location) (c : Captures) (e : Entry) : Captures :=
  if l.declares e.1 then c.insert e.1 e.2
  else e.2.texts.foldl (fun c text => c.push (.query e.1.text) text) c

/-- The captures as they come back from the text (`rendered_captures`). -/
def readBack (l : Location) : Captures :=
  l.captures.entries.foldl l.readBackEntry Captures.empty

/-- Whether an input has the captures that come back from the text (`is_match`). -/
def agrees (l : Location) (input : String) : Bool :=
  match l.template.capture? input with
  | some c => decide (c ≈ l.readBack)
  | none => false

/-- Two locations have one template and the same captures (`==`). -/
def Same (l m : Location) : Prop := l.template = m.template ∧ l.captures ≈ m.captures

instance : HasEquiv Location := ⟨Same⟩

instance (l m : Location) : Decidable (l ≈ m) :=
  inferInstanceAs (Decidable (l.template = m.template ∧ l.captures ≈ m.captures))

/-! ## Locations made from locations -/

/-- The captures without the value of a part, unless the template `t` has that part. -/
def dropValue (t : Template) (c : Captures) (p : Part) : Captures :=
  if p ∈ t.parts then c else p.takeFrom c

/-- Removes a part from the template (`try_without`), with the values of all parts that are then
missing. -/
def remove (l : Location) (pattern : String) : Except Fault Location :=
  (l.template.remove pattern).map fun t =>
    ⟨t, l.template.parts.foldl (dropValue t) l.captures⟩

/-- Appends a pattern to the template (`try_concat`). -/
def append (l : Location) (pattern : String) : Except Fault Location :=
  (l.template.append pattern).map fun t => ⟨t, l.captures⟩

/-- Sets captures (`merge`). -/
def set (l : Location) (c : Captures) : Location := ⟨l.template, l.captures.union c⟩

end Location

end RoutePattern
