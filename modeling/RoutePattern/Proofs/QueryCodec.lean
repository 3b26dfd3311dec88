/-
What a written query is read back as.

Writing escapes nothing, so it is undone by reading exactly as far as the texts
do without the characters that reading takes apart: `&` between entries, the
first `=` of an entry, `+` and `%` inside one. For such texts each `key=value`
that is written is one entry again, and reading pushes the entries one by one.
The kind of a key is lost on the way: all come back as keys of the query.
-/
import RoutePattern.Proofs.Distinct
import RoutePattern.Proofs.Escapes

set_option autoImplicit false

namespace RoutePattern

/-! ## Texts that reading leaves alone -/

namespace Query

/-- A text that can stand in a written query: it has no `&`, no `+` and no `%`. -/
def Verbatim (s : String) : Prop := ∀ c ∈ s.toList, c ≠ '&' ∧ c ≠ '+' ∧ c ≠ '%'

instance (s : String) : Decidable (Verbatim s) :=
  List.decidableBAll (fun c => c ≠ '&' ∧ c ≠ '+' ∧ c ≠ '%') s.toList

theorem decode_of_verbatim {s : String} (h : Verbatim s) : decode s = s := by
  refine decode_eq_self (fun hplus => (h '+' hplus).2.1 rfl) ?_
  intro high _ low _ hin
  have hpercent : '%' ∈ s.toList := hin.subset List.mem_cons_self
  exact (h '%' hpercent).2.2 rfl

/-! ## Entries read back -/

/-- An entry whose key and texts can stand in a written query; the key has no `=` either. -/
structure Writable (e : Entry) : Prop where
  key : Verbatim e.1.text
  no_equals : '=' ∉ e.1.text.toList
  texts : ∀ text ∈ e.2.texts, Verbatim text

instance (e : Entry) : Decidable (Writable e) :=
  decidable_of_iff (Verbatim e.1.text ∧ '=' ∉ e.1.text.toList ∧ ∀ text ∈ e.2.texts, Verbatim text)
    ⟨fun ⟨hkey, hequals, htexts⟩ => ⟨hkey, hequals, htexts⟩,
      fun h => ⟨h.key, h.no_equals, h.texts⟩⟩

theorem entry_of_verbatim {key text : String} (hk : Verbatim key) (heq : '=' ∉ key.toList)
    (ht : Verbatim text) : entry (key ++ "=" ++ text).toList = (key, text) := by
  have hlist : (key ++ "=" ++ text).toList = key.toList ++ '=' :: text.toList := by simp
  rw [entry, hlist, Text.cut_append heq]
  simp [decode_of_verbatim hk, decode_of_verbatim ht]

/-- The keys and texts of an entry, one pair for each text. -/
def pairs (e : Entry) : List (String × String) := e.2.texts.map fun text => (e.1.text, text)

theorem writeEntry_eq (e : Entry) :
    writeEntry e = (pairs e).map fun p => p.1 ++ "=" ++ p.2 := by
  rw [pairs, List.map_map]
  rfl

theorem Writable.of_mem_pairs {e : Entry} (he : Writable e) {p : String × String}
    (hp : p ∈ pairs e) : Verbatim p.1 ∧ '=' ∉ p.1.toList ∧ Verbatim p.2 := by
  obtain ⟨text, ht, rfl⟩ := List.mem_map.1 hp
  exact ⟨he.key, he.no_equals, he.texts text ht⟩

/-- The entries of a written query are the pairs that were written. -/
theorem entries_write {c : Captures} (h : ∀ e ∈ c.entries, Writable e) :
    entries (write c) = c.entries.flatMap pairs := by
  have hpairs : ∀ p ∈ c.entries.flatMap pairs,
      Verbatim p.1 ∧ '=' ∉ p.1.toList ∧ Verbatim p.2 := by
    intro p hp
    obtain ⟨e, he, hpe⟩ := List.mem_flatMap.1 hp
    exact (h e he).of_mem_pairs hpe
  have hwrite : write c =
      "&".intercalate ((c.entries.flatMap pairs).map fun p => p.1 ++ "=" ++ p.2) := by
    rw [write, List.map_flatMap, funext writeEntry_eq]
  rw [entries, hwrite]
  generalize c.entries.flatMap pairs = ps at hpairs
  rw [String.toList_intercalate, List.map_map]
  cases ps with
  | nil => rfl
  | cons p ps =>
      have hamp : ∀ l ∈ (p :: ps).map (String.toList ∘ fun q => q.1 ++ "=" ++ q.2), '&' ∉ l := by
        intro l hl hm
        obtain ⟨q, hq, rfl⟩ := List.mem_map.1 hl
        obtain ⟨hk, -, ht⟩ := hpairs q hq
        have hchar : '&' ∈ q.1.toList ∨ '&' ∈ q.2.toList := by simpa using hm
        rcases hchar with hc | hc
        · exact (hk _ hc).1 rfl
        · exact (ht _ hc).1 rfl
      -- no pair is empty and none holds an `&`, so splitting undoes joining
      have hsplit := List.splitOn_intercalate '&' hamp (by simp)
      have hne : ∀ l ∈ (p :: ps).map (String.toList ∘ fun q => q.1 ++ "=" ++ q.2), l ≠ [] := by
        intro l hl
        obtain ⟨q, -, rfl⟩ := List.mem_map.1 hl
        simp
      rw [show "&".toList = ['&'] from rfl, hsplit,
        List.filter_eq_self.2 fun l hl => by simpa using hne l hl, List.map_map]
      calc List.map (entry ∘ (String.toList ∘ fun q => q.1 ++ "=" ++ q.2)) (p :: ps)
          = List.map id (p :: ps) := by
            refine List.map_congr_left fun q hq => ?_
            obtain ⟨hk, heq, ht⟩ := hpairs q hq
            exact entry_of_verbatim hk heq ht
        _ = p :: ps := List.map_id _

/-- Each text of an entry is pushed under the text of its key. -/
def pushTexts (c : Captures) (e : Entry) : Captures :=
  e.2.texts.foldl (fun c text => c.push (.query e.1.text) text) c

/-- What is written is **read back text by text**, under keys of the query. -/
theorem read_write {c : Captures} (h : ∀ e ∈ c.entries, Writable e) :
    read (write c) = c.entries.foldl pushTexts Captures.empty := by
  rw [read, entries_write h, List.foldl_flatMap]
  congr 1
  funext d e
  rw [pairs, List.foldl_map]
  rfl

/-- Entries in front that do not come from a query are passed over. -/
theorem entries_pushTexts {es : List Entry} (h : ∀ text, Key.query text ∉ es.map Prod.fst)
    (c : Captures) (e : Entry) :
    (pushTexts ⟨es ++ c.entries⟩ e).entries = es ++ (pushTexts c e).entries := by
  rw [pushTexts, pushTexts]
  induction e.2.texts generalizing c with
  | nil => rfl
  | cons text texts ih =>
      -- the entries in front have no key of a query
      have hpush : (⟨es ++ c.entries⟩ : Captures).push (.query e.1.text) text =
          ⟨es ++ (c.push (.query e.1.text) text).entries⟩ :=
        congrArg Captures.mk (Captures.upsert_append (h e.1.text) _ c.entries)
      rw [List.foldl_cons, hpush, ih]
      rfl

theorem entries_foldl_pushTexts {c : Captures} (h : ∀ text, Key.query text ∉ c.keys)
    (fs : List Entry) :
    (fs.foldl pushTexts c).entries =
      c.entries ++ (fs.foldl pushTexts Captures.empty).entries := by
  have hall : ∀ d : Captures, (fs.foldl pushTexts ⟨c.entries ++ d.entries⟩).entries =
      c.entries ++ (fs.foldl pushTexts d).entries := by
    induction fs with
    | nil => exact fun d => rfl
    | cons f fs ih =>
        intro d
        have hstep : pushTexts ⟨c.entries ++ d.entries⟩ f =
            ⟨c.entries ++ (pushTexts d f).entries⟩ :=
          congrArg Captures.mk (entries_pushTexts h d f)
        rw [List.foldl_cons, hstep, ih]
        rfl
  have hempty := hall Captures.empty
  rwa [show c.entries ++ Captures.empty.entries = c.entries from List.append_nil _] at hempty

/-- Only a query without entries is read as nothing. -/
theorem entries_read_eq_nil_iff {s : String} : (read s).entries = [] ↔ entries s = [] := by
  have hne : ∀ (es : List (String × String)) (c : Captures), c.entries ≠ [] →
      (es.foldl (fun c e => c.push (.query e.1) e.2) c).entries ≠ [] := by
    intro es
    induction es with
    | nil => exact fun c hc => hc
    | cons e es ih =>
        intro c hc
        -- a push leaves no mapping empty
        refine ih _ fun hnil => ?_
        have hkeys := Captures.keys_push c (.query e.1) e.2
        rw [Captures.keys, hnil] at hkeys
        split at hkeys
        · exact hc (List.map_eq_nil_iff.1 hkeys.symm)
        · exact absurd hkeys (by simp)
  rw [read]
  cases entries s with
  | nil => exact ⟨fun _ => rfl, fun _ => rfl⟩
  | cons e es =>
      constructor
      · intro h
        exact absurd h (hne es _ (by simp [Captures.push, Captures.empty, Captures.upsert]))
      · intro h
        exact absurd h (by simp)

/-! ## Keys of a query -/

/-- Pushing under keys of the query brings no other keys in. -/
theorem keys_foldl_push (es : List (String × String)) (c : Captures) :
    ∀ k ∈ (es.foldl (fun c e => c.push (.query e.1) e.2) c).keys,
      k ∈ c.keys ∨ ∃ text, k = .query text := by
  induction es generalizing c with
  | nil => exact fun k hk => .inl hk
  | cons e es ih =>
      intro k hk
      rcases ih _ k hk with hk | hk
      · have hpush : k ∈ (c.push (.query e.1) e.2).keys := hk
        rw [Captures.keys_push] at hpush
        split at hpush
        · exact .inl hpush
        · rcases List.mem_append.1 hpush with hold | hnew
          · exact .inl hold
          · exact .inr ⟨e.1, List.mem_singleton.1 hnew⟩
      · exact .inr hk

/-- A query that is read has keys of the query only. -/
theorem keys_read {s : String} {k : Key} (h : k ∈ (read s).keys) : ∃ text, k = .query text := by
  rcases keys_foldl_push (entries s) Captures.empty k h with hk | hk
  · exact absurd hk List.not_mem_nil
  · exact hk

theorem nodup_keys_read (s : String) : (read s).keys.Nodup := by
  have h : ∀ (es : List (String × String)) (c : Captures), c.keys.Nodup →
      (es.foldl (fun c e => c.push (.query e.1) e.2) c).keys.Nodup := by
    intro es
    induction es with
    | nil => exact fun c hc => hc
    | cons e es ih => exact fun c hc => ih _ (Captures.nodup_push hc _ _)
  exact h _ _ Captures.nodup_keys_empty

end Query

end RoutePattern
