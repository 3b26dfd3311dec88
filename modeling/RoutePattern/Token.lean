/-
Tokens: what a pattern, or the path of an input, is made of.

Five characters are delimiters. A slash stands alone, and `:`, `*` and `.` each
open a name that runs up to the next delimiter; the name may be empty, because
refusing empty names is a rule about patterns and inputs go through the same
reading. The first `?` ends the path, and all that follows it is one query
token, delimiters included. What stands between delimiters without a mark in
front of it is a literal.

Reading is total: every text is a list of tokens. `spell` writes a list of
tokens back, and `Canonical` says which lists reading can give.
-/
import RoutePattern.Text.Cut

set_option autoImplicit false

namespace RoutePattern

/-- A delimiter that may occur more than once, so every delimiter but `?`. -/
inductive Mark where
  | slash
  | colon
  | star
  | dot
  deriving DecidableEq, Repr

namespace Mark

/-- The mark that a character is, if it is one. -/
def ofChar? : Char → Option Mark
  | '/' => some .slash
  | ':' => some .colon
  | '*' => some .star
  | '.' => some .dot
  | _ => none

/-- The character that a mark is written with. -/
def char : Mark → Char
  | slash => '/'
  | colon => ':'
  | star => '*'
  | dot => '.'

@[simp] theorem ofChar?_char (m : Mark) : ofChar? m.char = some m := by
  cases m <;> rfl

theorem char_of_ofChar? {c : Char} {m : Mark} (h : ofChar? c = some m) : m.char = c := by
  unfold ofChar? at h
  split at h <;> simp_all <;> subst h <;> rfl

end Mark

/-- The unit that a pattern or a path is read into (`Token`). -/
inductive Token where
  | slash
  | literal (text : String)
  | var (name : String)
  | glob (name : String)
  | format (name : String)
  /-- All that follows the first `?`, undecoded. -/
  | query (text : String)
  deriving DecidableEq, Repr

/-! ## Runs between marks

`splitMarks` is one pass from the right: each mark takes the run that has been
gathered behind it, and what is gathered at the left end stands before the
first mark. -/

/-- The run before the first mark, then each mark with the run behind it. -/
def splitMarks : List Char → List Char × List (Mark × List Char)
  | [] => ([], [])
  | c :: cs =>
    let runs := splitMarks cs
    match Mark.ofChar? c with
    | none => (c :: runs.1, runs.2)
    | some m => ([], (m, runs.1) :: runs.2)

@[simp] theorem splitMarks_nil : splitMarks [] = ([], []) := rfl

theorem splitMarks_cons_of_none {c : Char} (h : Mark.ofChar? c = none) (cs : List Char) :
    splitMarks (c :: cs) = (c :: (splitMarks cs).1, (splitMarks cs).2) := by
  simp [splitMarks, h]

@[simp] theorem splitMarks_cons_char (m : Mark) (cs : List Char) :
    splitMarks (m.char :: cs) = ([], (m, (splitMarks cs).1) :: (splitMarks cs).2) := by
  simp [splitMarks]

/-- Splitting **loses nothing**: the runs and their marks, in order, are the text. -/
theorem flatten_splitMarks (s : List Char) :
    (splitMarks s).1 ++ (splitMarks s).2.flatMap (fun p => p.1.char :: p.2) = s := by
  induction s with
  | nil => rfl
  | cons c cs ih =>
    cases h : Mark.ofChar? c with
    | none => simpa [splitMarks_cons_of_none h] using ih
    | some m =>
      obtain rfl := Mark.char_of_ofChar? h
      simpa using ih

/-! ## Reading -/

namespace Token

/-- A run without a mark in front of it is a literal, unless there is nothing. -/
def ofRun : List Char → List Token
  | [] => []
  | run => [literal (String.ofList run)]

/-- A slash stands for itself and leaves its run a literal; any other mark takes the run as name. -/
def ofMarked : Mark × List Char → List Token
  | (.slash, run) => slash :: ofRun run
  | (.colon, run) => [var (String.ofList run)]
  | (.star, run) => [glob (String.ofList run)]
  | (.dot, run) => [format (String.ofList run)]

/-- The tokens of a path, which holds no `?`. -/
def ofPath (path : List Char) : List Token :=
  let runs := splitMarks path
  ofRun runs.1 ++ runs.2.flatMap ofMarked

/-- The token of the text after the first `?`, if there is one. -/
def ofQuery (query : Option (List Char)) : List Token :=
  query.toList.map fun q => Token.query (String.ofList q)

/-- Reads a text into its tokens (`tokenize`). -/
def scan (s : String) : List Token :=
  let halves := Text.cut '?' s.toList
  ofPath halves.1 ++ ofQuery halves.2

/-- Whether a list of tokens starts with a slash. -/
def rooted (tokens : List Token) : Bool := tokens.head? = some slash

/-! ## Writing -/

/-- The text of one token. -/
def spell : Token → String
  | slash => "/"
  | literal text => text
  | var name => ":" ++ name
  | glob name => "*" ++ name
  | format name => "." ++ name
  | query text => "?" ++ text

/-- The text of a list of tokens, written without gaps. -/
def spellAll (tokens : List Token) : String :=
  String.join (tokens.map spell)

/-! ## Which lists reading can give -/

/-- The characters that end a run. -/
def isDelimiter (c : Char) : Bool :=
  c = '?' || (Mark.ofChar? c).isSome

/-- A text without delimiters. -/
def Plain (s : String) : Prop := ∀ c ∈ s.toList, isDelimiter c = false

instance (s : String) : Decidable (Plain s) :=
  List.decidableBAll (fun c => isDelimiter c = false) s.toList

/-- Literals and names are plain, a literal is not empty and stands where a run may start (`isOpen`
says whether that is here), and a query stands last. -/
def CanonicalFrom : Bool → List Token → Prop
  | _, [] => True
  | _, slash :: rest => CanonicalFrom true rest
  | isOpen, literal text :: rest =>
    isOpen = true ∧ text ≠ "" ∧ Plain text ∧ CanonicalFrom false rest
  | _, var name :: rest => Plain name ∧ CanonicalFrom false rest
  | _, glob name :: rest => Plain name ∧ CanonicalFrom false rest
  | _, format name :: rest => Plain name ∧ CanonicalFrom false rest
  | _, query _ :: rest => rest = []

/-- The lists that are the reading of some text. A run may start at the left end. -/
def Canonical (tokens : List Token) : Prop := CanonicalFrom true tokens

end Token

end RoutePattern
