/-
Captures have distinct keys.

A mapping is a list of entries here, and `get?` finds the first entry of a key.
Every operation keeps the keys distinct, so in a mapping that can be built no
entry hides another: to be an entry and to be found are the same, an erased key
is gone, and entries with new keys come to stand at the end as they are.
-/
import RoutePattern.Captures.Lemmas

set_option autoImplicit false

namespace RoutePattern.Captures

/-! ## One entry changed -/

/-- The keys stay, and a new one comes last. -/
theorem keys_upsert (k : Key) (f : Option Value → Value) (es : List Entry) :
    (upsert k f es).map Prod.fst =
      if k ∈ es.map Prod.fst then es.map Prod.fst else es.map Prod.fst ++ [k] := by
  induction es with
  | nil => rfl
  | cons e es ih =>
      obtain ⟨l, v⟩ := e
      by_cases hl : l = k
      · simp [upsert, hl]
      · have hk : k ≠ l := fun h => hl h.symm
        rw [upsert, if_neg hl, List.map_cons, ih]
        by_cases hmem : k ∈ es.map Prod.fst
        · rw [if_pos hmem, if_pos (by simpa using .inr (by simpa using hmem))]
          rfl
        · rw [if_neg hmem, if_neg (by simpa [hk] using hmem)]
          rfl

theorem keys_push (c : Captures) (k : Key) (text : String) :
    (c.push k text).keys = if k ∈ c.keys then c.keys else c.keys ++ [k] :=
  keys_upsert k _ c.entries

theorem nodup_upsert {k : Key} {f : Option Value → Value} {es : List Entry}
    (h : (es.map Prod.fst).Nodup) : ((upsert k f es).map Prod.fst).Nodup := by
  rw [keys_upsert]
  split
  · exact h
  · next hk =>
    rw [List.nodup_append]
    refine ⟨h, by simp, ?_⟩
    intro a ha b hb e
    rw [List.mem_singleton.1 hb] at e
    exact hk (e ▸ ha)

/-- Entries in front that do not have the key are passed over. -/
theorem upsert_append {k : Key} {es : List Entry} (h : k ∉ es.map Prod.fst)
    (f : Option Value → Value) (fs : List Entry) :
    upsert k f (es ++ fs) = es ++ upsert k f fs := by
  induction es with
  | nil => rfl
  | cons e es ih =>
      obtain ⟨l, v⟩ := e
      have hl : l ≠ k := fun e => h (by simp [e])
      have hes : k ∉ es.map Prod.fst := fun m => h (List.mem_cons_of_mem _ m)
      rw [List.cons_append, upsert, if_neg hl, ih hes]
      rfl

/-! ## Every operation keeps keys distinct -/

/-- The mappings that can be built. Setting many entries is how mappings are joined and how they
are made of a list. -/
inductive Reachable : Captures → Prop where
  | empty : Reachable empty
  | insert {c : Captures} (k : Key) (v : Value) : Reachable c → Reachable (c.insert k v)
  | push {c : Captures} (k : Key) (text : String) : Reachable c → Reachable (c.push k text)
  | erase {c : Captures} (k : Key) : Reachable c → Reachable (c.erase k)
  | insertAll {c : Captures} (es : List Entry) : Reachable c → Reachable (c.insertAll es)

theorem nodup_insert {c : Captures} (h : c.keys.Nodup) (k : Key) (v : Value) :
    (c.insert k v).keys.Nodup :=
  nodup_upsert h

theorem nodup_push {c : Captures} (h : c.keys.Nodup) (k : Key) (text : String) :
    (c.push k text).keys.Nodup :=
  nodup_upsert h

theorem nodup_erase {c : Captures} (h : c.keys.Nodup) (k : Key) : (c.erase k).keys.Nodup :=
  h.sublist (List.eraseP_sublist.map Prod.fst)

theorem nodup_filterKeys {c : Captures} (h : c.keys.Nodup) (want : Key → Bool) :
    (c.filterKeys want).keys.Nodup :=
  h.sublist (List.filter_sublist.map Prod.fst)

theorem nodup_insertAll {c : Captures} (h : c.keys.Nodup) (es : List Entry) :
    (c.insertAll es).keys.Nodup := by
  induction es generalizing c with
  | nil => exact h
  | cons e es ih => exact ih (nodup_insert h e.1 e.2)

theorem nodup_keys_empty : empty.keys.Nodup := List.nodup_nil

theorem nodup_ofList (es : List Entry) : (ofList es).keys.Nodup :=
  nodup_insertAll nodup_keys_empty es

/-- In a mapping that can be built **no key stands twice**. -/
theorem Reachable.nodup {c : Captures} (h : c.Reachable) : c.keys.Nodup := by
  induction h with
  | empty => exact nodup_keys_empty
  | insert k v _ ih => exact nodup_insert ih k v
  | push k text _ ih => exact nodup_push ih k text
  | erase k _ ih => exact nodup_erase ih k
  | insertAll es _ ih => exact nodup_insertAll ih es

/-! ## Entries with distinct keys -/

theorem nodup_of_keys {es : List Entry} (h : (es.map Prod.fst).Nodup) : es.Nodup :=
  List.Pairwise.of_map Prod.fst (fun _ _ hne e => hne (congrArg Prod.fst e)) h

/-- A new key comes last. -/
theorem entries_insert_of_not_mem {c : Captures} {k : Key} (h : k ∉ c.keys) (v : Value) :
    (c.insert k v).entries = c.entries ++ [(k, v)] := by
  have hupsert := upsert_append h (fun _ => v) []
  rwa [List.append_nil] at hupsert

/-- Entries with new keys are appended as they are. -/
theorem entries_insertAll {c : Captures} {es : List Entry} (h : (es.map Prod.fst).Nodup)
    (hnew : ∀ k ∈ es.map Prod.fst, k ∉ c.keys) : (c.insertAll es).entries = c.entries ++ es := by
  induction es generalizing c with
  | nil => simp
  | cons e es ih =>
      obtain ⟨he, hes⟩ := List.nodup_cons.1 h
      -- the first entry goes to the end, where the other keys are still new
      have hins : (c.insert e.1 e.2).entries = c.entries ++ [e] :=
        entries_insert_of_not_mem (hnew _ List.mem_cons_self) e.2
      rw [insertAll_cons, ih hes ?_, hins, List.append_assoc]
      · rfl
      · intro k hk hm
        rw [keys, hins, List.map_append] at hm
        rcases List.mem_append.1 hm with hm | hm
        · exact hnew k (List.mem_cons_of_mem _ hk) hm
        · exact he (List.mem_singleton.1 hm ▸ hk)

theorem entries_ofList {es : List Entry} (h : (es.map Prod.fst).Nodup) :
    (ofList es).entries = es :=
  entries_insertAll h fun _ _ => List.not_mem_nil

/-- The mappings that can be built are **those without a repeated key**. -/
theorem reachable_iff {c : Captures} : c.Reachable ↔ c.keys.Nodup := by
  constructor
  · exact Reachable.nodup
  · intro h
    have hc : ofList c.entries = c := congrArg Captures.mk (entries_ofList h)
    rw [← hc]
    exact .insertAll _ .empty

/-- To be an entry and to be found under its key are the same. -/
theorem mem_entries_iff {c : Captures} (h : c.keys.Nodup) {k : Key} {v : Value} :
    (k, v) ∈ c.entries ↔ c.get? k = some v := by
  obtain ⟨es⟩ := c
  simp only [keys, get?] at h ⊢
  induction es with
  | nil => simp
  | cons e es ih =>
      obtain ⟨l, w⟩ := e
      rw [List.map_cons, List.nodup_cons] at h
      rw [lookup_entry_cons, List.mem_cons, ih h.2]
      by_cases hk : k = l
      · subst hk
        -- the first entry is the only one with its key
        have hnone : es.lookup k ≠ some v := fun hs =>
          h.1 (List.mem_map.2 ⟨(k, v), (ih h.2).2 hs, rfl⟩)
        simp [hnone, eq_comm]
      · simp [hk]

theorem mem_keys_iff {c : Captures} {k : Key} : k ∈ c.keys ↔ ∃ v, c.get? k = some v := by
  obtain ⟨es⟩ := c
  simp only [keys, get?]
  induction es with
  | nil => simp
  | cons e es ih =>
      obtain ⟨l, w⟩ := e
      rw [List.map_cons, List.mem_cons, ih, lookup_entry_cons]
      by_cases hk : k = l <;> simp [hk]

theorem get?_eq_none {c : Captures} {k : Key} (h : k ∉ c.keys) : c.get? k = none :=
  Option.eq_none_iff_forall_ne_some.2 fun v hv => h (mem_keys_iff.2 ⟨v, hv⟩)

/-- Erasing takes the entry of the key and no other. -/
theorem entries_erase {c : Captures} (h : c.keys.Nodup) (k : Key) :
    (c.erase k).entries = c.entries.filter fun e => e.1 ≠ k := by
  obtain ⟨es⟩ := c
  simp only [keys, erase] at h ⊢
  induction es with
  | nil => rfl
  | cons e es ih =>
      rw [List.map_cons, List.nodup_cons] at h
      by_cases hk : e.1 = k
      -- the entry goes, and no other one has its key
      · have hrest : es.filter (fun e => e.1 ≠ k) = es := by
          refine List.filter_eq_self.2 fun f hf => ?_
          have : f.1 ≠ k := fun e' => h.1 (List.mem_map.2 ⟨f, hf, e'.trans hk.symm⟩)
          simpa using this
        rw [List.eraseP_cons_of_pos (by simpa using hk), List.filter_cons_of_neg (by simpa using hk),
          hrest]
      · rw [List.eraseP_cons_of_neg (by simpa using hk), List.filter_cons_of_pos (by simpa using hk),
          ih h.2]

theorem get?_filterKeys (c : Captures) (want : Key → Bool) (k : Key) :
    (c.filterKeys want).get? k = if want k then c.get? k else none := by
  obtain ⟨es⟩ := c
  simp only [filterKeys, get?]
  induction es with
  | nil => simp
  | cons e es ih =>
      obtain ⟨l, w⟩ := e
      by_cases hk : k = l
      · subst hk
        cases hw : want k with
        | true => simp [hw]
        | false => simpa [hw] using ih
      · cases hw : want l with
        | true => simpa [hw, lookup_entry_cons, hk] using ih
        | false => simpa [hw, lookup_entry_cons, hk] using ih

/-- Writing under a key that is not wanted changes no entry that is. -/
theorem filter_upsert (want : Key → Bool) {k : Key} (h : want k = false)
    (f : Option Value → Value) (es : List Entry) :
    (upsert k f es).filter (fun e => want e.1) = es.filter fun e => want e.1 := by
  induction es with
  | nil => simp [upsert, h]
  | cons e es ih =>
      by_cases he : e.1 = k
      · rw [upsert, if_pos he, List.filter_cons_of_neg (by simp [h]),
          List.filter_cons_of_neg (by simp [he, h])]
      · rw [upsert, if_neg he, List.filter_cons, List.filter_cons, ih]

theorem same_refl {c : Captures} (h : c.keys.Nodup) : c ≈ c :=
  ⟨rfl, fun _ he => (mem_entries_iff h).1 he⟩

/-- Two same mappings with their keys in one order are one mapping. -/
theorem eq_of_same {c d : Captures} (h : c.keys.Nodup) (hkeys : c.keys = d.keys) (hs : c ≈ d) :
    c = d := by
  have hget := hs.2
  obtain ⟨es⟩ := c
  obtain ⟨fs⟩ := d
  clear hs
  simp only [keys, get?] at h hkeys hget
  congr 1
  induction es generalizing fs with
  | nil => exact (List.map_eq_nil_iff.1 hkeys.symm).symm
  | cons e es ih =>
      cases fs with
      | nil => exact absurd hkeys (by simp)
      | cons f fs =>
          obtain ⟨k, v⟩ := e
          obtain ⟨l, w⟩ := f
          obtain ⟨rfl, hrest⟩ : k = l ∧ es.map Prod.fst = fs.map Prod.fst := by
            simpa using hkeys
          rw [List.map_cons, List.nodup_cons] at h
          -- the first entries share their key, and no later entry has it
          have hv := hget _ List.mem_cons_self
          rw [lookup_entry_cons, if_pos rfl] at hv
          have htail : ∀ e ∈ es, fs.lookup e.1 = some e.2 := by
            intro e he
            have hne : e.1 ≠ k := fun e' => h.1 (List.mem_map.2 ⟨e, he, e'⟩)
            have := hget e (List.mem_cons_of_mem _ he)
            rwa [lookup_entry_cons, if_neg hne] at this
          rw [Option.some.inj hv, ih h.2 fs hrest htail]

end RoutePattern.Captures
