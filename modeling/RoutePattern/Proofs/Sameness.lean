/-
Sameness of mappings.

Two mappings are compared from one side only: they are of one size, and what the
left one holds the right one gives back. Why that is the same from the other side
is a matter of counting. With distinct keys the entries on the left are as many
different entries on the right, and since the right one has no more of them, they
are all (`perm_of_same`). So it comes to the same whether two mappings are
compared this way, by what they give for every key, or by their entries in any
order. Nothing of this holds of lists in which a key stands twice, so the second
half of this file goes through all the places where mappings come from
(`Arises`).
-/
import Mathlib.Data.List.Perm.Subperm
import RoutePattern.Location
import RoutePattern.Proofs.QueryCodec
import RoutePattern.Proofs.WellFormed

set_option autoImplicit false

namespace RoutePattern

namespace Captures

/-! ## Sameness told in three ways -/

section Same

variable {c d : Captures}

/-- What the left mapping holds is all that the right one holds. -/
theorem perm_of_same (hc : c.keys.Nodup) (hd : d.keys.Nodup) (h : c ≈ d) :
    d.entries.Perm c.entries := by
  obtain ⟨hsize, hget⟩ := h
  have hsubset : c.entries ⊆ d.entries := fun e he => (mem_entries_iff hd).2 (hget e he)
  have hsubperm : c.entries.Subperm d.entries :=
    List.subperm_of_subset (nodup_of_keys hc) hsubset
  -- the right mapping has no room for an entry of its own
  have hlength : d.entries.length ≤ c.entries.length := Nat.le_of_eq hsize.symm
  exact (hsubperm.perm_of_length_le hlength).symm

/-- Entries in another order give the same under every key. -/
theorem get?_eq_of_perm (hd : d.keys.Nodup) (h : d.entries.Perm c.entries) (k : Key) :
    c.get? k = d.get? k := by
  have hc : c.keys.Nodup := (h.map Prod.fst).nodup_iff.1 hd
  apply Option.ext
  intro v
  rw [← mem_entries_iff hc, ← mem_entries_iff hd]
  exact h.mem_iff.symm

/-- Mappings that give the same under every key have the same entries. -/
theorem perm_of_get?_eq (hc : c.keys.Nodup) (hd : d.keys.Nodup)
    (h : ∀ k, c.get? k = d.get? k) : d.entries.Perm c.entries := by
  apply (List.perm_ext_iff_of_nodup (nodup_of_keys hd) (nodup_of_keys hc)).2
  rintro ⟨k, v⟩
  rw [mem_entries_iff hd, mem_entries_iff hc, h]

theorem same_of_perm (hd : d.keys.Nodup) (h : d.entries.Perm c.entries) : c ≈ d := by
  refine ⟨h.length_eq.symm, fun e he => ?_⟩
  exact (mem_entries_iff hd).1 (h.mem_iff.2 he)

/-- Sameness can be told from the other side. -/
theorem same_symm (hc : c.keys.Nodup) (hd : d.keys.Nodup) (h : c ≈ d) : d ≈ c :=
  same_of_perm hc (perm_of_same hc hd h).symm

theorem same_trans {e : Captures} (hc : c.keys.Nodup) (hd : d.keys.Nodup) (he : e.keys.Nodup)
    (hcd : c ≈ d) (hde : d ≈ e) : c ≈ e :=
  same_of_perm he ((perm_of_same hd he hde).trans (perm_of_same hc hd hcd))

theorem same_iff_perm (hc : c.keys.Nodup) (hd : d.keys.Nodup) :
    c ≈ d ↔ d.entries.Perm c.entries :=
  ⟨perm_of_same hc hd, same_of_perm hd⟩

/-- To be the same is **to give the same under every key**. -/
theorem same_iff_get?_eq (hc : c.keys.Nodup) (hd : d.keys.Nodup) :
    c ≈ d ↔ ∀ k, c.get? k = d.get? k := by
  rw [same_iff_perm hc hd]
  exact ⟨get?_eq_of_perm hd, perm_of_get?_eq hc hd⟩

end Same

/-! ## The order of insertion -/

/-- Where entries for different keys were set, they are found, and else what was there before. -/
theorem get?_insertAll {es : List Entry} (h : (es.map Prod.fst).Nodup) (c : Captures) (k : Key) :
    (c.insertAll es).get? k = (es.lookup k).or (c.get? k) := by
  induction es generalizing c with
  | nil => rfl
  | cons e es ih =>
      obtain ⟨l, v⟩ := e
      rw [List.map_cons, List.nodup_cons] at h
      rw [insertAll_cons, ih h.2, get?_insert, lookup_entry_cons]
      by_cases hk : k = l
      · -- no later entry has the key
        have hnone : es.lookup k = none := by
          cases hl : es.lookup k with
          | none => rfl
          | some w =>
              have hmem : k ∈ (⟨es⟩ : Captures).keys := mem_keys_iff.2 ⟨w, hl⟩
              exact absurd (hk ▸ hmem) h.1
        rw [if_pos hk, if_pos hk, hnone]
        rfl
      · rw [if_neg hk, if_neg hk]

/-- Entries for different keys can be set in any order. -/
theorem insertAll_same_of_perm {c : Captures} (hc : c.keys.Nodup) {es fs : List Entry}
    (hes : (es.map Prod.fst).Nodup) (h : es.Perm fs) : c.insertAll es ≈ c.insertAll fs := by
  have hfs : (fs.map Prod.fst).Nodup := (h.map Prod.fst).nodup_iff.1 hes
  apply (same_iff_get?_eq (nodup_insertAll hc es) (nodup_insertAll hc fs)).2
  intro k
  have hlookup : fs.lookup k = es.lookup k := get?_eq_of_perm (c := ⟨fs⟩) (d := ⟨es⟩) hes h k
  rw [get?_insertAll hes, get?_insertAll hfs, hlookup]

end Captures

/-! ## Where mappings come from

Whatever makes a mapping of other mappings sets, pushes or erases one key after the other, so a step
that keeps keys distinct is all that each of the folds needs. -/

/-- What a template captures has distinct keys, whichever names it captures under. -/
theorem Template.nodup_of_capture? {t : Template} {s : String} {c : Captures}
    (h : t.capture? s = some c) : c.keys.Nodup := by
  simp only [capture?] at h
  split at h
  · obtain ⟨es, -, rfl⟩ := Option.map_eq_some_iff.1 h
    exact Captures.nodup_ofList es
  · exact absurd h (by simp)

theorem Part.nodup_takeFrom (p : Part) {c : Captures} (h : c.keys.Nodup) :
    (p.takeFrom c).keys.Nodup := by
  unfold takeFrom
  split
  · exact h
  · exact Captures.nodup_erase h _

theorem Query.nodup_pushTexts {c : Captures} (h : c.keys.Nodup) (e : Entry) :
    (pushTexts c e).keys.Nodup := by
  unfold pushTexts
  apply List.foldlRecOn (motive := fun d : Captures => d.keys.Nodup)
  · exact h
  · exact fun d hd text _ => Captures.nodup_push hd _ text

namespace Location

theorem nodup_dropValue (t : Template) {c : Captures} (h : c.keys.Nodup) (p : Part) :
    (dropValue t c p).keys.Nodup := by
  unfold dropValue
  split
  · exact h
  · exact p.nodup_takeFrom h

theorem nodup_remove {l m : Location} {p : String} (h : l.captures.keys.Nodup)
    (hm : l.remove p = .ok m) : m.captures.keys.Nodup := by
  obtain ⟨t, -, rfl⟩ := exists_of_map_eq_ok hm
  apply List.foldlRecOn (motive := fun d : Captures => d.keys.Nodup)
  · exact h
  · exact fun d hd q _ => nodup_dropValue t hd q

theorem nodup_readBackEntry (l : Location) {c : Captures} (h : c.keys.Nodup) (e : Entry) :
    (l.readBackEntry c e).keys.Nodup := by
  unfold readBackEntry
  split
  · exact Captures.nodup_insert h _ _
  · exact Query.nodup_pushTexts h e

/-- What comes back from a text has distinct keys, whatever the location holds. -/
theorem nodup_readBack (l : Location) : l.readBack.keys.Nodup := by
  unfold readBack
  apply List.foldlRecOn (motive := fun d : Captures => d.keys.Nodup)
  · exact Captures.nodup_keys_empty
  · exact fun d hd e _ => l.nodup_readBackEntry hd e

end Location

namespace Captures

/-- The mappings that arise anywhere: changed step by step, read from an input or a query, or made
by a location that holds one. -/
inductive Arises : Captures → Prop where
  | empty : Arises empty
  | insert {c : Captures} (k : Key) (v : Value) : Arises c → Arises (c.insert k v)
  | push {c : Captures} (k : Key) (text : String) : Arises c → Arises (c.push k text)
  | erase {c : Captures} (k : Key) : Arises c → Arises (c.erase k)
  | union {c d : Captures} : Arises c → Arises d → Arises (c.union d)
  | insertAll {c : Captures} (es : List Entry) : Arises c → Arises (c.insertAll es)
  | ofList (es : List Entry) : Arises (ofList es)
  | captured {t : Template} {s : String} {c : Captures} : t.capture? s = some c → Arises c
  | read (q : String) : Arises (Query.read q)
  | set {l : Location} {c : Captures} : Arises l.captures → Arises c → Arises (l.set c).captures
  | removed {l m : Location} {p : String} : Arises l.captures → l.remove p = .ok m →
      Arises m.captures
  | readBack (l : Location) : Arises l.readBack

/-- In a mapping that arises anywhere **no key stands twice**. -/
theorem Arises.nodup {c : Captures} (h : Arises c) : c.keys.Nodup := by
  induction h with
  | empty => exact nodup_keys_empty
  | insert k v _ ih => exact nodup_insert ih k v
  | push k text _ ih => exact nodup_push ih k text
  | erase k _ ih => exact nodup_erase ih k
  | union _ _ ih _ => exact nodup_insertAll ih _
  | insertAll es _ ih => exact nodup_insertAll ih es
  | ofList es => exact nodup_ofList es
  | captured h => exact Template.nodup_of_capture? h
  | read q => exact Query.nodup_keys_read q
  | set _ _ ih _ => exact nodup_insertAll ih _
  | removed _ hm ih => exact Location.nodup_remove ih hm
  | readBack l => exact l.nodup_readBack

/-- In mappings that arise anywhere no key stands twice, and so they are the same **exactly if they
give the same under every key**, and exactly if they have the same entries in some order. The order
in which keys came in does not count, and sameness can be turned around and chained. -/
theorem nodup_keys_and_same_iff :
    (∀ x y : String, Key.name x ≠ Key.query y) ∧
    (∀ c : Captures, Arises c → c.keys.Nodup) ∧
    (∀ a b : Captures, Arises a → Arises b →
      (a ≈ b ↔ ∀ k, a.get? k = b.get? k) ∧
        ((∀ k, a.get? k = b.get? k) ↔ b.entries.Perm a.entries)) ∧
    (∀ a b : Captures, Arises a → Arises b → a ≈ b → b ≈ a) ∧
    (∀ a b c : Captures, Arises a → Arises b → Arises c → a ≈ b → b ≈ c → a ≈ c) ∧
    ∀ (a : Captures) (es fs : List Entry), Arises a → (es.map Prod.fst).Nodup → es.Perm fs →
      a.insertAll es ≈ a.insertAll fs := by
  refine ⟨fun x y => by simp, fun c hc => hc.nodup, ?_, ?_, ?_, ?_⟩
  · intro a b ha hb
    exact ⟨same_iff_get?_eq ha.nodup hb.nodup, perm_of_get?_eq ha.nodup hb.nodup,
      get?_eq_of_perm hb.nodup⟩
  · intro a b ha hb h
    exact same_symm ha.nodup hb.nodup h
  · intro a b c ha hb hc hab hbc
    exact same_trans ha.nodup hb.nodup hc.nodup hab hbc
  · intro a es fs ha hes h
    exact insertAll_same_of_perm ha.nodup hes h

/-- One mapping is read from an input, the other one is built in another order, with a key erased on
the way; a name and a key of the query share their text. -/
theorem nodup_keys_and_same_iff_of_orders :
    ∃ (t : Template) (a b : Captures), Template.ofPattern "/:id" = .ok t ∧
      t.capture? "/7?id=1&y=2&id=3" = some a ∧
      b = (((((empty.push (.query "y") "2").push (.query "z") "0").push (.query "id") "1").insert
        (.name "id") (.single "7")).push (.query "id") "3").erase (.query "z") ∧
      a.entries ≠ b.entries ∧ a.keys.Nodup ∧ a ≈ b ∧ b ≈ a ∧ b.entries.Perm a.entries := by
  let t : Template := ⟨true, [.var "id"]⟩
  let a : Captures := ⟨[(.name "id", .single "7"), (.query "id", .list ["1", "3"]),
    (.query "y", .single "2")]⟩
  let b := (((((empty.push (.query "y") "2").push (.query "z") "0").push (.query "id") "1").insert
    (.name "id") (.single "7")).push (.query "id") "3").erase (.query "z")
  have hcapture : t.capture? "/7?id=1&y=2&id=3" = some a := by decide +kernel
  have ha : Arises a := .captured hcapture
  have hb : Arises b := .erase _ (.push _ _ (.insert _ _ (.push _ _ (.push _ _ (.push _ _ .empty)))))
  obtain ⟨-, hnodup, hiff, hsymm, -, -⟩ := nodup_keys_and_same_iff
  have hsame : a ≈ b := by decide +kernel
  obtain ⟨hget, hperm⟩ := hiff a b ha hb
  exact ⟨t, a, b, rfl, hcapture, rfl, by decide, hnodup a ha, hsame, hsymm a b ha hb hsame,
    hperm.1 (hget.1 hsame)⟩

end Captures

end RoutePattern
