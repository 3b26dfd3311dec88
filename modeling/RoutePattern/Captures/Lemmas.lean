/-
What the operations on captures do to the view `get?`.

One lemma about `upsert` carries the two ways of adding, and one per remaining
operation follows. After this file nobody unfolds an operation to look a key
up.
-/
import RoutePattern.Captures.Basic

set_option autoImplicit false

namespace RoutePattern.Captures

/-! ## One entry changed -/

/-- The first entry decides, or the rest does. -/
theorem lookup_entry_cons (k l : Key) (v : Value) (es : List Entry) :
    ((l, v) :: es).lookup k = if k = l then some v else es.lookup k := by
  by_cases h : k = l
  · subst h; simp
  · have hb : (k == l) = false := by simpa using h
    simp [List.lookup_cons, hb, h]

/-- The key that is written gets the new value, every other key keeps its own. -/
theorem lookup_upsert (k k' : Key) (f : Option Value → Value) (es : List Entry) :
    (upsert k f es).lookup k' = if k' = k then some (f (es.lookup k)) else es.lookup k' := by
  induction es with
  | nil => simp [upsert, lookup_entry_cons]
  | cons e es ih =>
    obtain ⟨l, v⟩ := e
    by_cases hl : l = k
    · subst hl
      by_cases h : k' = l <;> simp [upsert, lookup_entry_cons, h]
    · have hk : k ≠ l := fun e => hl e.symm
      by_cases h : k' = k
      · subst h
        simp [upsert, hl, lookup_entry_cons, hk, ih]
      · simp [upsert, hl, lookup_entry_cons, h, ih]

@[simp] theorem get?_empty (k : Key) : empty.get? k = none := rfl

theorem get?_insert (c : Captures) (k k' : Key) (v : Value) :
    (c.insert k v).get? k' = if k' = k then some v else c.get? k' :=
  lookup_upsert k k' (fun _ => v) c.entries

@[simp] theorem get?_insert_self (c : Captures) (k : Key) (v : Value) :
    (c.insert k v).get? k = some v := by
  simp [get?_insert]

theorem get?_insert_of_ne (c : Captures) {k k' : Key} (h : k' ≠ k) (v : Value) :
    (c.insert k v).get? k' = c.get? k' := by
  simp [get?_insert, h]

theorem get?_push (c : Captures) (k k' : Key) (text : String) :
    (c.push k text).get? k' =
      if k' = k then some ((c.get? k).elim (.single text) (·.push text)) else c.get? k' :=
  lookup_upsert k k' _ c.entries

/-- Removing a key leaves what is under the others. -/
theorem get?_erase_of_ne (c : Captures) {k k' : Key} (h : k' ≠ k) :
    (c.erase k).get? k' = c.get? k' := by
  obtain ⟨es⟩ := c
  simp only [erase, get?]
  induction es with
  | nil => rfl
  | cons e es ih =>
    obtain ⟨l, v⟩ := e
    by_cases hl : l = k
    · subst hl
      simp [lookup_entry_cons, h]
    · simp [hl, lookup_entry_cons, ih]

/-! ## Many entries -/

@[simp] theorem insertAll_nil (c : Captures) : c.insertAll [] = c := rfl

@[simp] theorem insertAll_cons (c : Captures) (e : Entry) (es : List Entry) :
    c.insertAll (e :: es) = (c.insert e.1 e.2).insertAll es := rfl

theorem insertAll_append (c : Captures) (es fs : List Entry) :
    c.insertAll (es ++ fs) = (c.insertAll es).insertAll fs := by
  simp [insertAll]

end RoutePattern.Captures
