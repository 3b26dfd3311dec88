/-
Locations that come from an input.

What is read back from the text of a location is in general not what it holds:
undeclared names change their kind, keys with one text are merged, and lists of
one text or none do not come back as they are. None of this can be found in
captures that a template has taken from an input. There every name is declared,
and every value of the query has been collected text by text, so it is a single
text or a list of two at least (`Value.Collected`). Such entries are `Settled`:
read back one after the other they come to stand as they were, in their order.
So a location that comes from an input agrees with the inputs that are captured
like it, whatever the texts of its query are. They are not written on the way.
-/
import RoutePattern.Proofs.ReadBack

set_option autoImplicit false

namespace RoutePattern

namespace Value

/-! ## Values collected text by text -/

/-- A value as texts make it that come one after the other. -/
def Collected : Value → Prop
  | single _ => True
  | list texts => 2 ≤ texts.length

theorem collected_push {v : Value} (h : v.Collected) (text : String) :
    (v.push text).Collected := by
  cases v with
  | single first => exact Nat.le_refl 2
  | list texts =>
      have hlength : 2 ≤ texts.length := h
      change 2 ≤ (texts ++ [text]).length
      rw [List.length_append]
      omega

theorem foldl_push_list (texts more : List String) :
    more.foldl push (list texts) = list (texts ++ more) := by
  induction more generalizing texts with
  | nil => rw [List.append_nil]; rfl
  | cons text more ih => rw [List.foldl_cons, push, ih, List.append_assoc]; rfl

/-- A collected value is made again by its texts: the first one alone, and the others pushed. -/
theorem exists_texts_eq_of_collected {v : Value} (h : v.Collected) :
    ∃ first rest, v.texts = first :: rest ∧ rest.foldl push (single first) = v := by
  cases v with
  | single text => exact ⟨text, [], rfl, rfl⟩
  | list texts =>
      match texts, h with
      | first :: second :: rest, _ =>
        exact ⟨first, second :: rest, rfl, foldl_push_list [first, second] rest⟩

end Value

namespace Captures

/-! ## Where entries come from -/

/-- An entry is an old one, or it is the one that was written. -/
theorem mem_upsert {k : Key} {f : Option Value → Value} {es : List Entry} {e : Entry}
    (h : e ∈ upsert k f es) : e ∈ es ∨ e = (k, f none) ∨ ∃ v, (k, v) ∈ es ∧ e = (k, f (some v)) := by
  induction es with
  | nil => exact .inr (.inl (List.mem_singleton.1 h))
  | cons e' es ih =>
      obtain ⟨l, w⟩ := e'
      rw [upsert] at h
      split at h
      · next hl =>
        subst hl
        rcases List.mem_cons.1 h with rfl | hm
        · exact .inr (.inr ⟨w, List.mem_cons_self, rfl⟩)
        · exact .inl (List.mem_cons_of_mem _ hm)
      · rcases List.mem_cons.1 h with rfl | hm
        · exact .inl List.mem_cons_self
        · rcases ih hm with hold | hnew | ⟨v, hv, rfl⟩
          · exact .inl (List.mem_cons_of_mem _ hold)
          · exact .inr (.inl hnew)
          · exact .inr (.inr ⟨v, List.mem_cons_of_mem _ hv, rfl⟩)

theorem mem_insertAll {c : Captures} {es : List Entry} {e : Entry}
    (h : e ∈ (c.insertAll es).entries) : e ∈ c.entries ∨ e ∈ es := by
  induction es generalizing c with
  | nil => exact .inl h
  | cons e' es ih =>
      rcases ih h with hc | hes
      · rcases mem_upsert hc with hold | hnew | ⟨v, -, hnew⟩
        · exact .inl hold
        · exact .inr (hnew ▸ List.mem_cons_self)
        · exact .inr (hnew ▸ List.mem_cons_self)
      · exact .inr (List.mem_cons_of_mem _ hes)

/-- Collected values stay collected under a push. -/
theorem collected_of_mem_push {c : Captures} (h : ∀ e ∈ c.entries, e.2.Collected) (k : Key)
    (text : String) : ∀ e ∈ (c.push k text).entries, e.2.Collected := by
  intro e he
  rcases mem_upsert he with hold | rfl | ⟨v, hv, rfl⟩
  · exact h e hold
  · exact trivial
  · exact Value.collected_push (h _ hv) text

theorem collected_of_mem_pushAll {c : Captures} (h : ∀ e ∈ c.entries, e.2.Collected)
    (bs : List (String × String)) :
    ∀ e ∈ (bs.foldl (fun c b => c.push (.query b.1) b.2) c).entries, e.2.Collected := by
  induction bs generalizing c with
  | nil => exact h
  | cons b bs ih => exact ih (collected_of_mem_push h (.query b.1) b.2)

end Captures

namespace Query

/-- What a query is read as has been collected. -/
theorem collected_of_mem_read {s : String} {e : Entry} (h : e ∈ (read s).entries) :
    e.2.Collected :=
  Captures.collected_of_mem_pushAll (fun _ hempty => absurd hempty List.not_mem_nil) (entries s) e h

end Query

namespace Template

/-! ## Settled entries -/

/-- An entry that comes back as it is: it is declared, or it is one of a query and collected. -/
def Settled (t : Template) (e : Entry) : Prop :=
  t.declares e.1 = true ∨ (∃ key, e.1 = .query key) ∧ e.2.Collected

/-- What a template captures is settled, also where names repeat. -/
theorem Regular.settled_of_capture? {t : Template} (ht : t.Regular) {s : String} {c : Captures}
    (h : t.capture? s = some c) : ∀ e ∈ c.entries, t.Settled e := by
  obtain ⟨-, -, es, hfits, rfl⟩ := ht.capture?_eq_some_iff.1 h
  intro e he
  rcases Captures.mem_insertAll he with hnone | hmem
  · exact absurd hnone List.not_mem_nil
  · rcases List.mem_append.1 hmem with hpath | hquery
    · left
      rw [declares_iff, names, ← hfits.keys_eq]
      exact List.mem_map_of_mem hpath
    · right
      cases hq : Input.query? s with
      | none =>
          rw [hq] at hquery
          exact absurd hquery List.not_mem_nil
      | some q =>
          rw [hq] at hquery
          exact ⟨Query.keys_read (List.mem_map_of_mem hquery), Query.collected_of_mem_read hquery⟩

end Template

namespace Captures

/-- A text pushed under the last key, which stands nowhere else. -/
theorem push_last {es : List Entry} {k : Key} (h : k ∉ es.map Prod.fst) (v : Value)
    (text : String) : (Captures.mk (es ++ [(k, v)])).push k text = ⟨es ++ [(k, v.push text)]⟩ := by
  rw [push, upsert_append h, upsert, if_pos rfl]
  rfl

theorem foldl_push_last {es : List Entry} {k : Key} (h : k ∉ es.map Prod.fst)
    (texts : List String) (v : Value) :
    texts.foldl (fun c text => c.push k text) (Captures.mk (es ++ [(k, v)])) =
      ⟨es ++ [(k, texts.foldl Value.push v)]⟩ := by
  induction texts generalizing v with
  | nil => rfl
  | cons text texts ih => rw [List.foldl_cons, push_last h, ih]; rfl

end Captures

namespace Location

variable {l : Location}

/-- A settled entry with a new key comes to stand behind the others. -/
theorem readBackEntry_of_settled {e : Entry} (h : l.template.Settled e) {c : Captures}
    (hnew : e.1 ∉ c.keys) : l.readBackEntry c e = ⟨c.entries ++ [e]⟩ := by
  rcases h with hdeclared | ⟨⟨key, hkey⟩, hcollected⟩
  · rw [l.readBackEntry_of_declares (by rwa [declares_eq])]
    exact congrArg Captures.mk (Captures.entries_insert_of_not_mem hnew e.2)
  · obtain ⟨k, v⟩ := e
    obtain rfl : k = .query key := hkey
    obtain ⟨first, rest, htexts, hv⟩ := Value.exists_texts_eq_of_collected hcollected
    -- the first text makes the entry, and the others are pushed under the key that is now the last
    have hfirst : c.push (.query key) first = ⟨c.entries ++ [(.query key, .single first)]⟩ := by
      have hupsert := Captures.upsert_append hnew
        (fun old => old.elim (.single first) (·.push first)) []
      rw [List.append_nil] at hupsert
      exact congrArg Captures.mk hupsert
    have hundeclared : ¬ l.declares (.query key) = true := by simp [declares]
    rw [l.readBackEntry_of_not_declares hundeclared, Query.pushTexts]
    change v.texts.foldl (fun c text => c.push (.query key) text) c = _
    rw [htexts, List.foldl_cons, hfirst, Captures.foldl_push_last hnew, hv]

/-- Settled entries come back **as they are**. -/
theorem foldl_readBackEntry_of_settled {es : List Entry} (h : ∀ e ∈ es, l.template.Settled e)
    {c : Captures} (hnodup : (es.map Prod.fst).Nodup) (hnew : ∀ k ∈ es.map Prod.fst, k ∉ c.keys) :
    es.foldl l.readBackEntry c = ⟨c.entries ++ es⟩ := by
  induction es generalizing c with
  | nil => rw [List.append_nil]; rfl
  | cons e es ih =>
      obtain ⟨he, hes⟩ := List.nodup_cons.1 hnodup
      have hstep := readBackEntry_of_settled (h e List.mem_cons_self) (hnew _ List.mem_cons_self)
      rw [List.foldl_cons, hstep, ih (fun e' he' => h e' (List.mem_cons_of_mem _ he')) hes ?_,
        List.append_assoc]
      · rfl
      · intro k hk hm
        rw [Captures.keys, List.map_append] at hm
        rcases List.mem_append.1 hm with hm | hm
        · exact hnew k (List.mem_cons_of_mem _ hk) hm
        · exact he (List.mem_singleton.1 hm ▸ hk)

theorem readBack_of_settled (hnodup : l.captures.keys.Nodup)
    (h : ∀ e ∈ l.captures.entries, l.template.Settled e) : l.readBack = l.captures :=
  foldl_readBackEntry_of_settled h hnodup fun _ _ => List.not_mem_nil

/-- A location that comes from an input holds what is read back from it, and so it agrees with that
input and **with all that are captured like it**, and with no other. -/
theorem agrees_iff_captured_same {t : Template} (ht : t.Reachable) {s : String} {l : Location}
    (hl : ofInput? t s = some l) :
    l.readBack = l.captures ∧ l.agrees s = true ∧
      ∀ s', l.agrees s' = true ↔ ∃ c, t.capture? s' = some c ∧ c ≈ l.captures := by
  obtain ⟨c, hc, rfl⟩ := Option.map_eq_some_iff.1 hl
  have hnodup := Template.nodup_of_capture? hc
  have hback : (Location.mk t c).readBack = c :=
    readBack_of_settled hnodup (ht.regular.settled_of_capture? hc)
  have hagrees : ∀ s', (Location.mk t c).agrees s' = true ↔
      ∃ d, t.capture? s' = some d ∧ d ≈ c := by
    intro s'
    rw [agrees_iff, hback]
  exact ⟨hback, (hagrees s).2 ⟨c, hc, Captures.same_refl hnodup⟩, hagrees⟩

/-- A variable and a glob share a name, so that the variable does not count, and two keys of the query
are one after decoding. -/
theorem agrees_iff_captured_same_decoded :
    ∃ (t : Template) (l : Location), Template.ofPattern "/:a/*a" = .ok t ∧
      ofInput? t "/1/2/3?k=%26&%6B=+&b=" = some l ∧
      l.captures.entries = [(.name "a", .list ["2", "3"]), (.query "k", .list ["&", " "]),
        (.query "b", .single "")] ∧
      l.agrees "/1/2/3?k=%26&%6B=+&b=" = true ∧ l.agrees "//9/2//3/?b&%6b=%26&k=%20" = true ∧
      l.agrees "/1/2/3?k=%26&b=" = false := by
  let t : Template := ⟨true, [.var "a", .glob "a"]⟩
  let l : Location := ⟨t, ⟨[(.name "a", .list ["2", "3"]), (.query "k", .list ["&", " "]),
    (.query "b", .single "")]⟩⟩
  have h : Template.ofPattern "/:a/*a" = .ok t := rfl
  have hl : ofInput? t "/1/2/3?k=%26&%6B=+&b=" = some l := by decide +kernel
  obtain ⟨-, hself, hall⟩ := agrees_iff_captured_same (.ofPattern h) hl
  have hother : t.capture? "//9/2//3/?b&%6b=%26&k=%20" = some ⟨[(.name "a", .list ["2", "3"]),
    (.query "b", .single ""), (.query "k", .list ["&", " "])]⟩ := by decide +kernel
  have hless : t.capture? "/1/2/3?k=%26&b=" = some ⟨[(.name "a", .list ["2", "3"]),
    (.query "k", .single "&"), (.query "b", .single "")]⟩ := by decide +kernel
  refine ⟨t, l, h, hl, rfl, hself, (hall _).2 ⟨_, hother, by decide⟩, ?_⟩
  rw [← Bool.not_eq_true, hall]
  rintro ⟨c, hc, hsame⟩
  obtain rfl := Option.some.inj (hless.symm.trans hc)
  exact absurd hsame (by decide)

end Location

end RoutePattern
