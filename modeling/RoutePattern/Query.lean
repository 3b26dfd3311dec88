/-
The query string, read and written.

Reading: entries are separated by `&` and empty ones are skipped; the first `=`
of an entry ends its key, and an entry without one has the empty value. Keys and
values are decoded: `+` is a space, `%` with two hexadecimal digits is a byte,
and the bytes are then read as text. A `+` that comes out of an escape stays
one, and so does an escape that comes out of an escape. A key that occurs again
collects its values.

Writing is plain: one `key=value` for each text, joined by `&`, and nothing is
escaped, so writing undoes reading only for texts without the special
characters.
-/
import RoutePattern.Captures.Basic
import RoutePattern.Text.Cut
import RoutePattern.Text.Utf8

set_option autoImplicit false

namespace RoutePattern.Query

/-! ## Escapes -/

/-- The value of a hexadecimal digit in either case. -/
def hexValue? (b : UInt8) : Option UInt8 :=
  if 0x30 ≤ b ∧ b ≤ 0x39 then some (b - 0x30)
  else if 0x41 ≤ b ∧ b ≤ 0x46 then some (b - 0x37)
  else if 0x61 ≤ b ∧ b ≤ 0x66 then some (b - 0x57)
  else none

/-- The byte that two hexadecimal digits write. -/
def hexByte? (high low : UInt8) : Option UInt8 :=
  match hexValue? high, hexValue? low with
  | some h, some l => some (16 * h + l)
  | _, _ => none

/-- The byte of `%`. -/
def percent : UInt8 := 0x25

/-- Replaces each escape by its byte, and goes on behind it (`urlencoding::decode_binary`). A `%`
without two digits behind it stays. -/
def unescape : List UInt8 → List UInt8
  | b :: high :: low :: rest =>
    if b = percent then
      match hexByte? high low with
      | some byte => byte :: unescape rest
      | none => b :: unescape (high :: low :: rest)
    else b :: unescape (high :: low :: rest)
  | bytes => bytes

/-- A plus sign stands for a space. -/
def plusToSpace (c : Char) : Char := if c = '+' then ' ' else c

/-- Decodes a key or a value (`query::decode`). -/
def decode (s : String) : String :=
  String.ofList (Text.Utf8.decode (unescape (Text.Utf8.encode (s.toList.map plusToSpace))))

/-! ## Reading -/

/-- The decoded key and value of one entry. -/
def entry (text : List Char) : String × String :=
  let halves := Text.cut '=' text
  (decode (String.ofList halves.1), decode (String.ofList (halves.2.getD [])))

/-- The decoded entries of a query, in order and with repetitions. -/
def entries (s : String) : List (String × String) :=
  ((s.toList.splitOn '&').filter (· ≠ [])).map entry

/-- The entries of a query, collected under their keys (`query::parse`). -/
def read (s : String) : Captures :=
  (entries s).foldl (fun c e => c.push (.query e.1) e.2) Captures.empty

/-! ## Writing -/

/-- One `key=value` for each text of a value. -/
def writeEntry (e : Entry) : List String :=
  e.2.texts.map fun text => e.1.text ++ "=" ++ text

/-- Writes captures of either kind as a query (`query::serialize`). -/
def write (c : Captures) : String :=
  "&".intercalate (c.entries.flatMap writeEntry)

example : decode "a+b%2B1%zz%4" = "a b+1%zz%4" := by decide +kernel

example : (read "flag&&eq=a=b&flag=2").entries =
    [(.query "flag", .list ["", "2"]), (.query "eq", .single "a=b")] := by decide +kernel

end RoutePattern.Query
