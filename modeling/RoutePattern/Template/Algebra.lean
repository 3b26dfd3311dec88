/-
Templates made from templates.

A pattern can be appended, and a part can be removed. Appending reads the
pattern on its own, drops its leading slash, and checks the order of all parts
together, so that nothing is appended that could not have been written in one
pattern. Removing needs no check: what is left stands in the same order.
-/
import RoutePattern.Template.Basic

set_option autoImplicit false

namespace RoutePattern.Template

/-- Appends a pattern (`try_concat`). -/
def append (t : Template) (pattern : String) : Except Fault Template :=
  (read pattern).bind fun u => checked { t with parts := t.parts ++ u.parts }

/-- Removes the first part that is this one (`without_part`). -/
def erase (t : Template) (part : Part) : Template :=
  { t with parts := t.parts.erase part }

/-- Removes the slash in front (`without_part` of `LeadingJoiner`). -/
def unroot (t : Template) : Template := { t with rooted := false }

/-- Removes the first part that is the first one of a pattern (`try_without`). -/
def remove (t : Template) (pattern : String) : Except Fault Template :=
  (read pattern).map fun u =>
    match u.parts with
    | [] => t
    | part :: _ => t.erase part

/-- The templates that can be built at all. -/
inductive Reachable : Template → Prop where
  | empty : Reachable {}
  | ofPattern {p : String} {t : Template} : ofPattern p = .ok t → Reachable t
  | append {p : String} {t u : Template} : Reachable t → t.append p = .ok u → Reachable u
  | remove {p : String} {t u : Template} : Reachable t → t.remove p = .ok u → Reachable u
  | erase {t : Template} (part : Part) : Reachable t → Reachable (t.erase part)
  | unroot {t : Template} : Reachable t → Reachable t.unroot

/-! ## What stays -/

@[simp] theorem rooted_erase (t : Template) (part : Part) : (t.erase part).rooted = t.rooted := rfl

@[simp] theorem parts_erase (t : Template) (part : Part) :
    (t.erase part).parts = t.parts.erase part := rfl

@[simp] theorem parts_unroot (t : Template) : t.unroot.parts = t.parts := rfl

end RoutePattern.Template
