/-
Routers: tables of templates, each with a datum.

An input goes to the first route, in the order of insertion, whose template
matches it. The shape of a template is what is left when the names of its
captures are forgotten; templates of one shape match the same inputs, so a table
holds no shape twice.
-/
import RoutePattern.Template.Capture

set_option autoImplicit false

namespace RoutePattern

/-! ## Shapes -/

/-- What a part matches, whatever it is called. -/
inductive Part.Shape where
  | literal (text : String)
  | var
  | glob
  | format
  deriving DecidableEq, Repr

/-- Forgets the name of a part. -/
def Part.shape : Part → Part.Shape
  | literal text => .literal text
  | var _ => .var
  | glob _ => .glob
  | format _ => .format

/-- What a template matches, whatever its captures are called. -/
structure Template.Shape where
  rooted : Bool
  parts : List Part.Shape
  deriving DecidableEq, Repr

/-- Forgets the names of a template. Two templates of one shape are what `same_shape` takes for the
same. -/
def Template.shape (t : Template) : Template.Shape := ⟨t.rooted, t.parts.map Part.shape⟩

/-! ## Tables -/

/-- A table of routes in the order of insertion (`Router`, whose routes `iter` gives). -/
structure Router (α : Type) where
  routes : List (Template × α) := []
  deriving DecidableEq, Repr

/-- Why a route is refused (`RouterError`). -/
inductive InsertFault where
  /-- Its pattern is wrong. -/
  | pattern (fault : Fault)
  /-- The table has its shape. -/
  | collision
  deriving DecidableEq, Repr

/-- The wording of a fault. -/
def InsertFault.message : InsertFault → String
  | pattern fault => fault.message
  | collision => "pattern collision occurred"

namespace Router

variable {α : Type}

/-- The table without routes (`new`). -/
def empty : Router α := {}

/-- Removes all routes (`clear`). -/
def clear (_ : Router α) : Router α := empty

/-- How many routes there are (`len`). -/
def size (r : Router α) : Nat := r.routes.length

/-- The templates in order. -/
def templates (r : Router α) : List Template := r.routes.map Prod.fst

/-- The shapes in order. -/
def shapes (r : Router α) : List Template.Shape := r.templates.map Template.shape

/-- Adds a route at the end, unless there is one of its shape (`try_insert_template`). -/
def insertTemplate (r : Router α) (t : Template) (datum : α) : Except InsertFault (Router α) :=
  if t.shape ∈ r.shapes then .error .collision
  else .ok ⟨r.routes ++ [(t, datum)]⟩

/-- Adds the route of a pattern (`try_insert`). -/
def insert (r : Router α) (pattern : String) (datum : α) : Except InsertFault (Router α) :=
  ((Template.ofPattern pattern).mapError InsertFault.pattern).bind fun t =>
    r.insertTemplate t datum

/-- The datum of the first route that matches an input, and what its template captures (`find`). -/
def find? (r : Router α) (input : String) : Option (α × Captures) :=
  r.routes.findSome? fun route => (route.1.capture? input).map fun c => (route.2, c)

/-- The datum and captures for the target of a URI (`find_uri`). -/
def findUri? (r : Router α) (uri : Uri) : Option (α × Captures) := r.find? uri.target

/-- Changes the datum of the first route that matches an input. -/
def modifyFirst (f : α → α) (input : String) : List (Template × α) → List (Template × α)
  | [] => []
  | (t, a) :: rest =>
    if t.accepts input then (t, f a) :: rest else (t, a) :: modifyFirst f input rest

/-- Changes the datum that `find?` gives: the table that `find_mut` leaves behind. -/
def modify (r : Router α) (f : α → α) (input : String) : Router α :=
  ⟨modifyFirst f input r.routes⟩

/-- One pass over routes: the datum and captures of the first that matches an input, and the routes
with this datum changed. -/
def findModifyFirst? (f : α → α) (input : String) :
    List (Template × α) → Option ((α × Captures) × List (Template × α))
  | [] => none
  | (t, a) :: rest =>
    match t.capture? input with
    | some c => some ((a, c), (t, f a) :: rest)
    | none => (findModifyFirst? f input rest).map (Prod.map id ((t, a) :: ·))

/-- The datum that is found, as it was, with the captures, and the table in which it is changed
(`find_mut`, where the change is made to the datum that it hands out). -/
def findModify? (r : Router α) (f : α → α) (input : String) :
    Option ((α × Captures) × Router α) :=
  (findModifyFirst? f input r.routes).map (Prod.map id Router.mk)

end Router

end RoutePattern
