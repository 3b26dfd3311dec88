/-
What a location says that is read back from its text.

`Location.readBack` never renders anything. It walks the captures once and
foretells what matching will make of them: a declared entry comes back as it is,
and the texts of any other entry come back under a key of the query. Looked at
key by key the two kinds of entry do not meet, so a walk over all entries gives
for a declared key what setting the entries one by one gives, and for any other
key what pushing the undeclared ones gives (`get?_readBack`). That is what the
text gives as well (`get?_returned`), except under one key. A glob that is left
open is written as no segment at all and comes back as an empty list, and
nothing in the captures foretells it. So a location without an open glob agrees
with its own text, and one with an open glob agrees with no input.
-/
import RoutePattern.Proofs.Halves
import RoutePattern.Proofs.Sameness
import RoutePattern.Proofs.Shape

set_option autoImplicit false

namespace RoutePattern

namespace Query

/-! ## Texts pushed under keys of the query -/

/-- What a key finds after a push depends on what it found before, and on nothing else. -/
theorem get?_pushTexts_congr {c d : Captures} {k : Key} (h : c.get? k = d.get? k) (e : Entry) :
    (pushTexts c e).get? k = (pushTexts d e).get? k := by
  unfold pushTexts
  induction e.2.texts generalizing c d with
  | nil => exact h
  | cons text texts ih =>
      apply ih
      rw [Captures.get?_push, Captures.get?_push]
      by_cases hk : k = .query e.1.text
      · rw [if_pos hk, if_pos hk, ← hk, h]
      · rw [if_neg hk, if_neg hk, h]

theorem get?_foldl_pushTexts_congr {c d : Captures} {k : Key} (h : c.get? k = d.get? k)
    (es : List Entry) : (es.foldl pushTexts c).get? k = (es.foldl pushTexts d).get? k := by
  induction es generalizing c d with
  | nil => exact h
  | cons e es ih => exact ih (get?_pushTexts_congr h e)

/-- A name is not touched. -/
theorem get?_pushTexts_name (c : Captures) (e : Entry) (name : String) :
    (pushTexts c e).get? (.name name) = c.get? (.name name) := by
  unfold pushTexts
  induction e.2.texts generalizing c with
  | nil => rfl
  | cons text texts ih =>
      rw [List.foldl_cons, ih, Captures.get?_push]
      exact if_neg (by simp)

theorem get?_foldl_pushTexts_name (es : List Entry) (c : Captures) (name : String) :
    (es.foldl pushTexts c).get? (.name name) = c.get? (.name name) := by
  induction es generalizing c with
  | nil => rfl
  | cons e es ih => rw [List.foldl_cons, ih, get?_pushTexts_name]

end Query

namespace Template

/-- A declared key is a name. -/
theorem exists_name_of_declares {t : Template} {k : Key} (h : t.declares k = true) :
    ∃ name, k = .name name := by
  obtain ⟨name, -, hk⟩ := List.mem_map.1 (declares_iff.1 h)
  exact ⟨name, hk.symm⟩

/-- Under a declared key comes back what the filled captures have there, under any other key what
the undeclared entries push. -/
theorem get?_returned (t : Template) (c : Captures) (k : Key) :
    (t.returned c).get? k = if t.declares k then (t.fillGlob [] c).get? k
      else ((c.filterKeys fun k => !t.declares k).entries.foldl Query.pushTexts
        Captures.empty).get? k := by
  have hdeclared := get?_fillGlob_filterKeys t [] c k
  unfold returned
  by_cases hk : t.declares k = true
  · rw [if_pos hk] at hdeclared ⊢
    obtain ⟨name, rfl⟩ := exists_name_of_declares hk
    rw [Query.get?_foldl_pushTexts_name, hdeclared]
  · rw [if_neg hk] at hdeclared ⊢
    exact Query.get?_foldl_pushTexts_congr hdeclared _

/-- A declared name comes back with the value that it had. -/
theorem name?_returned_of_some {t : Template} {c : Captures} {name : String} {v : Value}
    (hname : name ∈ t.names) (h : c.name? name = some v) : (t.returned c).name? name = some v := by
  have hdeclares : t.declares (.name name) = true := declares_iff.2 (List.mem_map_of_mem hname)
  rw [Captures.name?, get?_returned, if_pos hdeclares]
  exact get?_fillGlob_of_some h []

/-- What is written is matched, and gives under every key what comes back. -/
theorem Regular.exists_capture?_render {t : Template} (ht : t.Regular) (hnames : t.names.Nodup)
    (hlive : t.Live) {c : Captures} (hc : c.keys.Nodup) (hfill : t.Fillable c) :
    ∃ d, t.capture? (t.render c) = some d ∧ ∀ k, d.get? k = (t.returned c).get? k := by
  obtain ⟨es, hdeclared, hd⟩ := ht.capture?_render hnames hlive hc hfill
  have hperm := hdeclared.append_right
    ((c.filterKeys fun k => !t.declares k).entries.foldl Query.pushTexts Captures.empty).entries
  rw [← entries_returned] at hperm
  exact ⟨_, hd, fun k => (Captures.get?_eq_of_perm (nodup_of_capture? hd) hperm k).symm⟩

end Template

namespace Location

/-! ## Reading back key by key -/

variable (l : Location)

theorem readBackEntry_of_declares {e : Entry} (h : l.declares e.1 = true) (c : Captures) :
    l.readBackEntry c e = c.insert e.1 e.2 :=
  if_pos h

theorem readBackEntry_of_not_declares {e : Entry} (h : ¬ l.declares e.1 = true) (c : Captures) :
    l.readBackEntry c e = Query.pushTexts c e :=
  if_neg h

/-- For a declared key the walk does what setting the entries one by one does. -/
theorem get?_foldl_readBackEntry_of_declares {k : Key} (hk : l.declares k = true)
    (es : List Entry) {c d : Captures} (h : c.get? k = d.get? k) :
    (es.foldl l.readBackEntry c).get? k = (d.insertAll es).get? k := by
  induction es generalizing c d with
  | nil => exact h
  | cons e es ih =>
      apply ih
      rw [Captures.get?_insert]
      by_cases he : l.declares e.1 = true
      · rw [l.readBackEntry_of_declares he, Captures.get?_insert, h]
      · -- the key of an undeclared entry is another one, and its texts do not go under a name
        have hne : k ≠ e.1 := fun hke => he (hke ▸ hk)
        rw [declares_eq] at hk
        obtain ⟨name, rfl⟩ := Template.exists_name_of_declares hk
        rw [l.readBackEntry_of_not_declares he, Query.get?_pushTexts_name, if_neg hne, h]

/-- For any other key the walk does what pushing the undeclared entries does. -/
theorem get?_foldl_readBackEntry_of_not_declares {k : Key} (hk : ¬ l.declares k = true)
    (es : List Entry) {c d : Captures} (h : c.get? k = d.get? k) :
    (es.foldl l.readBackEntry c).get? k =
      ((es.filter fun e => !l.declares e.1).foldl Query.pushTexts d).get? k := by
  induction es generalizing c d with
  | nil => exact h
  | cons e es ih =>
      rw [List.foldl_cons]
      by_cases he : l.declares e.1 = true
      · have hne : k ≠ e.1 := fun hke => hk (hke ▸ he)
        rw [List.filter_cons_of_neg (by simp [he]), l.readBackEntry_of_declares he]
        apply ih
        rw [Captures.get?_insert_of_ne c hne, h]
      · rw [List.filter_cons_of_pos (by simp [he]), List.foldl_cons,
          l.readBackEntry_of_not_declares he]
        exact ih (Query.get?_pushTexts_congr h e)

/-- What is read back: declared entries as they are, and the texts of all others pushed. -/
theorem get?_readBack (h : l.captures.keys.Nodup) (k : Key) :
    l.readBack.get? k = if l.declares k then l.captures.get? k
      else (l.undeclared.entries.foldl Query.pushTexts Captures.empty).get? k := by
  unfold readBack
  by_cases hk : l.declares k = true
  · have hset : Captures.empty.insertAll l.captures.entries = l.captures :=
      congrArg Captures.mk (Captures.entries_ofList h)
    rw [if_pos hk, l.get?_foldl_readBackEntry_of_declares hk _ rfl, hset]
  · rw [if_neg hk]
    exact l.get?_foldl_readBackEntry_of_not_declares hk _ rfl

/-- With a bound glob, what is read back is what comes back from the text. -/
theorem get?_readBack_eq_returned (h : l.captures.keys.Nodup)
    (hbound : l.template.GlobBound l.captures) (k : Key) :
    l.readBack.get? k = (l.template.returned l.captures).get? k := by
  rw [l.get?_readBack h, Template.get?_returned, hbound.fillGlob_eq, undeclared, declares_eq]

/-! ## Agreeing with an input -/

theorem agrees_iff {s : String} :
    l.agrees s = true ↔ ∃ c, l.template.capture? s = some c ∧ c ≈ l.readBack := by
  unfold agrees
  cases l.template.capture? s with
  | none => simp
  | some c => simp

/-- With an open glob no input agrees: every match binds the glob, and nothing is read back for
it. -/
theorem globBound_of_agrees (ht : l.template.Regular) (hnames : l.template.names.Nodup)
    (h : l.captures.keys.Nodup) {s : String} (hs : l.agrees s = true) :
    l.template.GlobBound l.captures := by
  obtain ⟨c, hc, hsame⟩ := l.agrees_iff.1 hs
  intro name hglob
  have hname : name ∈ l.template.names := List.mem_filterMap.2 ⟨_, hglob, rfl⟩
  have hdeclares : l.declares (.name name) = true := by
    rw [declares_eq]
    exact Template.declares_iff.2 (List.mem_map_of_mem hname)
  obtain ⟨es, hfits, -, hfound, -, -⟩ := ht.match_of_capture? hnames hc
  have hcontains := Template.contains_of_fits hfits hfound hname
  have hget := (Captures.same_iff_get?_eq (Template.nodup_of_capture? hc) l.nodup_readBack).1 hsame
  unfold Captures.contains at hcontains ⊢
  rwa [hget, l.get?_readBack h, if_pos hdeclares] at hcontains

/-- With a bound glob, what is captured from the text is the same as what is read back. -/
theorem exists_capture?_text (ht : l.template.Regular) (hnames : l.template.names.Nodup)
    (hlive : l.template.Live) (h : l.captures.keys.Nodup)
    (hfill : l.template.Fillable l.captures) (hbound : l.template.GlobBound l.captures) :
    ∃ d, l.template.capture? l.text = some d ∧ d ≈ l.readBack := by
  obtain ⟨d, hd, hget⟩ := ht.exists_capture?_render hnames hlive h hfill
  refine ⟨d, hd, (Captures.same_iff_get?_eq (Template.nodup_of_capture? hd) l.nodup_readBack).2 ?_⟩
  intro k
  rw [hget, l.get?_readBack_eq_returned h hbound]

/-- A location agrees with its own text, and with the inputs that are captured like it, **exactly if
its glob is bound**. With an open glob it agrees with nothing. -/
theorem agrees_iff_globBound_and_same {l : Location} (ht : l.template.Reachable)
    (hnames : l.template.names.Nodup) (hlive : l.template.Live) (hreach : l.captures.Reachable)
    (hfill : l.template.Fillable l.captures) :
    (l.agrees l.text = true ↔ l.template.GlobBound l.captures) ∧
    ∀ s, l.agrees s = true ↔ l.template.GlobBound l.captures ∧
      ∃ c d, l.template.capture? s = some c ∧ l.template.capture? l.text = some d ∧ c ≈ d := by
  have h := hreach.nodup
  have hback : ∀ {s : String}, l.agrees s = true → l.template.GlobBound l.captures :=
    l.globBound_of_agrees ht.regular hnames h
  have htext := l.exists_capture?_text ht.regular hnames hlive h hfill
  have hnodup : ∀ {s : String} {c : Captures}, l.template.capture? s = some c → c.keys.Nodup :=
    Template.nodup_of_capture?
  refine ⟨⟨hback, fun hbound => l.agrees_iff.2 (htext hbound)⟩, fun s => ?_⟩
  constructor
  · intro hs
    obtain ⟨c, hc, hcr⟩ := l.agrees_iff.1 hs
    obtain ⟨d, hd, hdr⟩ := htext (hback hs)
    have hrd := Captures.same_symm (hnodup hd) l.nodup_readBack hdr
    exact ⟨hback hs, c, d, hc, hd,
      Captures.same_trans (hnodup hc) l.nodup_readBack (hnodup hd) hcr hrd⟩
  · rintro ⟨hbound, c, d, hc, hd, hcd⟩
    obtain ⟨d', hd', hdr⟩ := htext hbound
    obtain rfl : d = d' := Option.some.inj (hd.symm.trans hd')
    exact l.agrees_iff.2 ⟨c, hc,
      Captures.same_trans (hnodup hc) (hnodup hd) l.nodup_readBack hcd hdr⟩

/-- Two undeclared entries share the text of their keys and are merged, an empty list vanishes, and
another layout of the slashes agrees as well. -/
theorem agrees_iff_globBound_and_same_merged :
    ∃ l : Location,
      l.template = ⟨true, [.literal "u", .var "id", .glob "rest", .format "fmt"]⟩ ∧
      l.captures = ⟨[(.query "v", .list ["1", "2"]), (.name "id", .single "7"),
        (.name "v", .single "3"), (.query "none", .list []), (.name "rest", .list ["a", "b"]),
        (.name "fmt", .single "")]⟩ ∧
      Template.ofPattern "/u/:id/*rest.fmt" = .ok l.template ∧
      l.template.Fillable l.captures ∧ l.text = "/u/7/a/b.?v=1&v=2&v=3" ∧
      l.agrees l.text = true ∧ l.agrees "//u/7//a/b.?v=1&v=2&&v=3" = true := by
  let t : Template := ⟨true, [.literal "u", .var "id", .glob "rest", .format "fmt"]⟩
  let params : Captures := ⟨[(.query "v", .list ["1", "2"]), (.name "id", .single "7"),
    (.name "v", .single "3"), (.query "none", .list []), (.name "rest", .list ["a", "b"]),
    (.name "fmt", .single "")]⟩
  have h : Template.ofPattern "/u/:id/*rest.fmt" = .ok t := rfl
  have hfill : t.Fillable params := by
    refine ⟨fun name hn => ?_, fun name hn => ?_, fun name hn => ?_, ?_⟩
    · obtain rfl : name = "id" := by simpa [t] using hn
      exact ⟨"7", by decide, by decide⟩
    · obtain rfl : name = "rest" := by simpa [t] using hn
      exact .inr ⟨["a", "b"], by decide, by decide⟩
    · obtain rfl : name = "fmt" := by simpa [t] using hn
      exact ⟨"", by decide, by decide⟩
    · exact (by decide : ∀ e ∈ params.entries,
        t.declares e.1 = false → Query.Writable e)
  have hbound : t.GlobBound params := by
    intro name hn
    obtain rfl : name = "rest" := by simpa [t] using hn
    decide
  obtain ⟨hself, hall⟩ := agrees_iff_globBound_and_same (l := ⟨t, params⟩) (.ofPattern h)
    (by decide) (by decide) (Captures.reachable_iff.2 (by decide)) hfill
  obtain ⟨c, hc⟩ := Option.isSome_iff_exists.1 (by decide +kernel :
    (t.capture? "//u/7//a/b.?v=1&v=2&&v=3").isSome = true)
  have htext : t.render params = "/u/7/a/b.?v=1&v=2&v=3" := by decide +kernel
  refine ⟨⟨t, params⟩, rfl, rfl, h, hfill, htext, hself.2 hbound, (hall _).2 ⟨hbound, ?_⟩⟩
  have hsame : t.capture? "//u/7//a/b.?v=1&v=2&&v=3" = t.capture? (t.render params) := by
    decide +kernel
  exact ⟨c, c, hc, hsame ▸ hc, Captures.same_refl (Template.nodup_of_capture? hc)⟩

/-- The glob of a location may be left open, and then the location **does not agree with its own
text**, though its template matches it. -/
theorem not_agrees_text_of_open_glob :
    ∃ l : Location, Template.ofPattern "/files/*path" = .ok l.template ∧
      l.template.names.Nodup ∧ l.template.Live ∧ l.captures.Reachable ∧
      l.template.Fillable l.captures ∧ l.text = "/files" ∧
      l.template.capture? l.text = some ⟨[(.name "path", .list [])]⟩ ∧
      l.agrees l.text = false := by
  let t : Template := ⟨true, [.literal "files", .glob "path"]⟩
  have hfill : t.Fillable Captures.empty := by
    refine ⟨fun name hn => ?_, fun name _ => .inl rfl, fun name hn => ?_, ?_⟩
    · exact absurd hn (by simp [t])
    · exact absurd hn (by simp [t])
    · exact fun e he => absurd he List.not_mem_nil
  exact ⟨⟨t, Captures.empty⟩, rfl, by decide, by decide, .empty, hfill, by decide +kernel,
    by decide +kernel, by decide +kernel⟩

end Location

end RoutePattern
