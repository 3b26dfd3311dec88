/-
Captures: the values found in a path and its query, or to be written into one.

A capture has a key. What the path itself gives is keyed by the name in the
pattern, what the query gives by the text in the query, and the two kinds never
meet even if their texts agree. A value is a single text, or a list of texts for
a glob and for a query key that occurs again.

Captures are a mapping that remembers the order in which its keys first came
in, because that is the order in which they are written out. A key that is set
again keeps its place. `upsert` is the one recursion behind `insert` and
`push`; `get?` is the view in which their effect is stated.
-/
set_option autoImplicit false

namespace RoutePattern

/-- What a value is filed under (`Key`). -/
inductive Key where
  /-- A name in a pattern. -/
  | name (text : String)
  /-- A key in a query. -/
  | query (text : String)
  deriving DecidableEq, Repr

/-- The text of a key of either kind (`as_str`). -/
def Key.text : Key → String
  | name text => text
  | query text => text

/-- What is captured under a key (`Value`): one text (`One`), or a list of them (`Many`). -/
inductive Value where
  | single (text : String)
  | list (texts : List String)
  deriving DecidableEq, Repr

namespace Value

/-- All texts of a value (`as_slice`). -/
def texts : Value → List String
  | single text => [text]
  | list texts => texts

/-- The text of a value that is a single one (`as_str`). -/
def text? : Value → Option String
  | single text => some text
  | list _ => none

/-- The value as it stands in a path, which is how it is displayed (`to_string`): several texts are
several segments. -/
def joined (v : Value) : String := "/".intercalate v.texts

/-- Adds a text (`Value::push`). A single one becomes the first of a list. -/
def push : Value → String → Value
  | single first, text => list [first, text]
  | list texts, text => list (texts ++ [text])

/-- An integer is captured as its decimal text (`Value::from`). -/
def ofInt (n : Int) : Value := single (toString n)

@[simp] theorem texts_push (v : Value) (text : String) :
    (v.push text).texts = v.texts ++ [text] := by
  cases v <;> rfl

end Value

/-- An entry of a mapping from keys to values. -/
abbrev Entry := Key × Value

/-- A mapping from keys to values that keeps the order in which keys came in (`Captures`). -/
structure Captures where
  entries : List Entry := []
  deriving DecidableEq, Repr

namespace Captures

/-! ## Looking up -/

/-- No captures at all (`new`). -/
def empty : Captures := ⟨[]⟩

instance : EmptyCollection Captures := ⟨empty⟩

instance : Inhabited Captures := ⟨empty⟩

/-- The keys in order. -/
def keys (c : Captures) : List Key := c.entries.map Prod.fst

/-- How many keys there are (`len`). -/
def size (c : Captures) : Nat := c.entries.length

/-- The value under a key (`get`). -/
def get? (c : Captures) (k : Key) : Option Value := c.entries.lookup k

/-- The value that the path gave to a name (`name`). -/
def name? (c : Captures) (name : String) : Option Value := c.get? (.name name)

/-- The value that the query gave to a key (`query`). -/
def query? (c : Captures) (key : String) : Option Value := c.get? (.query key)

/-- Whether there is a value under a key (`contains_key`, and `contains_name` for a name). -/
def contains (c : Captures) (k : Key) : Bool := (c.get? k).isSome

/-! ## Changing -/

/-- Gives a key the value that `f` makes of its old one: in place if the key is there, else as a
new last entry. -/
def upsert (k : Key) (f : Option Value → Value) : List Entry → List Entry
  | [] => [(k, f none)]
  | (k', v) :: rest =>
    if k' = k then (k, f (some v)) :: rest else (k', v) :: upsert k f rest

/-- Sets the value under a key (`insert`). What it replaces is what `get?` gives. -/
def insert (c : Captures) (k : Key) (v : Value) : Captures :=
  ⟨upsert k (fun _ => v) c.entries⟩

/-- Adds a text to what is under a key (`push`). -/
def push (c : Captures) (k : Key) (text : String) : Captures :=
  ⟨upsert k (fun old => old.elim (.single text) (·.push text)) c.entries⟩

/-- Removes a key (`remove`, and `remove_name` for a name). The others keep their order. -/
def erase (c : Captures) (k : Key) : Captures := ⟨c.entries.eraseP (·.1 = k)⟩

/-- Sets one entry after the other (`extend`). -/
def insertAll (c : Captures) (entries : List Entry) : Captures :=
  entries.foldl (fun c e => c.insert e.1 e.2) c

/-- The mapping with these entries (`from_iter`); of two with one key the later value stays. -/
def ofList (entries : List Entry) : Captures := empty.insertAll entries

/-- Sets every entry of `d` in `c` (`merge`), so that `d` wins where both have a key. -/
def union (c d : Captures) : Captures := c.insertAll d.entries

/-- The entries whose key is wanted (`retain`). -/
def filterKeys (c : Captures) (want : Key → Bool) : Captures :=
  ⟨c.entries.filter fun e => want e.1⟩

/-! ## Sameness

Order does not count when two mappings are compared: they are as large as each
other, and all that the left one holds the right one gives back. -/

/-- Two mappings hold the same values under the same keys (`==`). -/
def Same (c d : Captures) : Prop :=
  c.size = d.size ∧ ∀ e ∈ c.entries, d.get? e.1 = some e.2

instance : HasEquiv Captures := ⟨Same⟩

instance (c d : Captures) : Decidable (c ≈ d) :=
  inferInstanceAs (Decidable (c.size = d.size ∧ ∀ e ∈ c.entries, d.get? e.1 = some e.2))

end Captures

end RoutePattern
