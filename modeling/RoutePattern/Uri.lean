/-
Absolute and relative URIs, as far as a route has to know them.

A URI that starts with a slash is a path and query. Any other may start with a
scheme and `://`; then comes the authority, up to the first `/`, `?` or `#`, and
with a scheme a path and query may follow. A fragment is cut off and never
looked at. Characters are checked and nothing is decoded.

`target` is the text that templates are matched against.
-/
import RoutePattern.Text.Cut

set_option autoImplicit false

namespace RoutePattern

/-- A URI in one of its three forms (`http::Uri`). -/
inductive Uri where
  /-- A path and query. -/
  | origin (pathQuery : String)
  /-- An authority alone. -/
  | authority (text : String)
  /-- A scheme, an authority, and the path and query that may follow. -/
  | absolute (scheme authority pathQuery : String)
  deriving DecidableEq, Repr

/-- Why a text is no URI. -/
inductive UriFault where
  | tooLong
  | empty
  | schemeTooLong
  | invalidAuthority
  | invalidFormat
  | invalidChar
  deriving DecidableEq, Repr

/-- The wording of a fault. -/
def UriFault.message : UriFault → String
  | tooLong => "uri too long"
  | empty => "empty string"
  | schemeTooLong => "scheme too long"
  | invalidAuthority => "invalid authority"
  | invalidFormat => "invalid format"
  | invalidChar => "invalid uri character"

namespace Uri

/-! ## Characters -/

/-- A character of a scheme. -/
def isSchemeChar (c : Char) : Bool :=
  c.isAlphanum || "+-.~".toList.contains c

/-- A character at which an authority ends. -/
def endsAuthority (c : Char) : Bool := "/?#".toList.contains c

/-- A character that may stand in an authority without a meaning of its own. -/
def isAuthorityChar (c : Char) : Bool :=
  c.isAlphanum || "!$&'()*+,-.;=_~".toList.contains c

/-- A visible ASCII character other than those of a list. -/
def visibleBut (excluded : List Char) (c : Char) : Bool :=
  decide (0x21 ≤ c.toNat) && decide (c.toNat ≤ 0x7E) && !excluded.contains c

/-- A character of a path. -/
def isPathChar (c : Char) : Bool := visibleBut ['#', '<', '>', '?', '\x60'] c

/-- A character of a query. -/
def isQueryChar (c : Char) : Bool := visibleBut ['"', '#', '<', '>'] c

/-! ## Authority

The parts of an authority are not told apart further than needed to see that it
makes sense: at most one colon in front of the port, brackets only in pairs
around an address, and a percent sign only in the user information. What stands
before an `@` or inside brackets does not count for the part behind it, but even
there a ninth colon is refused as soon as it is seen, whatever may follow. -/

/-- What has been seen of an authority. -/
structure AuthorityScan where
  colons : Nat := 0
  opened : Bool := false
  closed : Bool := false
  percent : Bool := false
  atEnd : Bool := false
  deriving DecidableEq, Repr

namespace AuthorityScan

/-- The most colons between two resets: seven in an address of eight groups, and one more. -/
def maxColons : Nat := 8

/-- Sees one more character. -/
def step (a : AuthorityScan) (c : Char) : Except UriFault AuthorityScan :=
  if c = ':' then
    if a.colons < maxColons then .ok { a with colons := a.colons + 1, atEnd := false }
    else .error .invalidAuthority
  else if c = '[' then
    if a.percent || a.opened then .error .invalidAuthority
    else .ok { a with opened := true, atEnd := false }
  else if c = ']' then
    if !a.opened || a.closed then .error .invalidAuthority
    else .ok { a with closed := true, colons := 0, percent := false, atEnd := false }
  else if c = '@' then .ok { a with colons := 0, percent := false, atEnd := true }
  else if c = '%' then .ok { a with percent := true, atEnd := false }
  else if isAuthorityChar c then .ok { a with atEnd := false }
  else .error .invalidChar

/-- Whether what has been seen is an authority. -/
def sound (a : AuthorityScan) : Bool :=
  a.opened = a.closed && decide (a.colons ≤ 1) && !a.atEnd && !a.percent

end AuthorityScan

/-- Passes an authority on if it is one. -/
def checkAuthority (text : List Char) : Except UriFault (List Char) :=
  (text.foldlM AuthorityScan.step {}).bind fun a =>
    if a.sound then .ok text else .error .invalidAuthority

/-! ## The other components -/

/-- The scheme in front of `://` and what follows that, if there is one. -/
def splitScheme? (s : List Char) : Option (List Char × List Char) :=
  match s.dropWhile isSchemeChar with
  | ':' :: '/' :: '/' :: rest => some (s.takeWhile isSchemeChar, rest)
  | _ => none

/-- A path and query without its fragment. -/
def readPathQuery (s : List Char) : Except UriFault String :=
  let kept := (Text.cut '#' s).1
  let halves := Text.cut '?' kept
  if halves.1.all isPathChar && (halves.2.getD []).all isQueryChar then .ok (String.ofList kept)
  else .error .invalidChar

/-- The longest URI in bytes. -/
def maxBytes : Nat := 65534

/-- The longest scheme. -/
def maxScheme : Nat := 64

/-- Reads an authority that nothing may follow. -/
def readAuthority (s : List Char) (ifFollowed : UriFault) : Except UriFault Uri :=
  (checkAuthority (s.takeWhile fun c => !endsAuthority c)).bind fun text =>
    if text = s then .ok (.authority (String.ofList text)) else .error ifFollowed

/-- Reads what follows `://`. -/
def readAbsolute (scheme s : List Char) : Except UriFault Uri :=
  if maxScheme < scheme.length then .error .schemeTooLong
  else
    (checkAuthority (s.takeWhile fun c => !endsAuthority c)).bind fun text =>
      if text = [] then .error .invalidFormat
      else
        (readPathQuery (s.dropWhile fun c => !endsAuthority c)).map fun pathQuery =>
          .absolute (String.ofList scheme) (String.ofList text) pathQuery

/-- Reads a URI that does not start with a slash. -/
def readForm (s : List Char) : Except UriFault Uri :=
  match splitScheme? s with
  | none => readAuthority s .invalidFormat
  | some (scheme, rest) => readAbsolute scheme rest

/-- Reads a URI (`parse`). -/
def parse (s : String) : Except UriFault Uri :=
  if maxBytes < s.utf8ByteSize then .error .tooLong
  else
    match s.toList with
    | [] => .error .empty
    | ['*'] => .ok (.origin "*")
    | '/' :: rest => (readPathQuery ('/' :: rest)).map .origin
    | [c] => readAuthority [c] .invalidChar
    | chars => readForm chars

/-! ## What is matched -/

/-- The path and query that a URI names (`target`). An absolute URI without any names the root. -/
def target : Uri → String
  | origin pathQuery => pathQuery
  | authority _ => ""
  | absolute _ _ pathQuery => if pathQuery = "" then "/" else pathQuery

end Uri

end RoutePattern
