/-
Why a pattern is rejected.

The first three faults are about how parts are arranged, the last two about the
tokens they are read from. A `Rejection` adds the pattern that was rejected; it
is what an operation reports that promises a result and cannot give one.
-/
import RoutePattern.Text.Quoted

set_option autoImplicit false

namespace RoutePattern

/-- The ways in which a pattern can be wrong (`Reason`). -/
inductive Fault where
  /-- Something follows a format. -/
  | formatNotLast
  /-- A variable follows a glob. -/
  | variableAfterGlob
  /-- There is a second glob. -/
  | multipleGlobs
  /-- A `:`, `*` or `.` has no name behind it. -/
  | emptyName
  /-- There is a `?`. -/
  | queryString
  deriving DecidableEq, Repr

/-- The wording of a fault. -/
def Fault.message : Fault → String
  | formatNotLast => ".format must be last"
  | variableAfterGlob => ":variable cannot follow *glob"
  | multipleGlobs => "multiple *glob not allowed"
  | emptyName => "capture name can not be empty"
  | queryString => "query string can not appear in a template"

/-- A cause together with the pattern that it is about. -/
structure Rejection (Cause : Type) where
  cause : Cause
  pattern : String
  deriving DecidableEq, Repr

/-- The wording of a rejection, given that of its cause. -/
def Rejection.message {Cause : Type} (wording : Cause → String) (r : Rejection Cause) : String :=
  wording r.cause ++ ": pattern = " ++ Text.quoted r.pattern

/-- Names the pattern in whatever is wrong with it, as the forms do that promise a result (`new`,
`concat`, `without`, `insert`). -/
def insisting {Cause α : Type} (pattern : String) (result : Except Cause α) :
    Except (Rejection Cause) α :=
  result.mapError fun cause => ⟨cause, pattern⟩

end RoutePattern
