/-
Removing a part and leaving its value out.

There are two ways to be rid of a variable, a glob or a format in a text: the
part can be removed from the template, or its value can be left out of the
captures. The two are written apart. Removing never looks at a value, and
writing a template whose part finds no value has a rule for each kind: a
variable leaves its segment out, a format its dot, and a glob is given an empty
list first, of which nothing is written.

That both come to the same text, wherever the part stands and whatever the
other parts find, is shown part by part. The part that is removed writes
nothing without its value. Every other part has another name, so it finds what
it found before; for this the empty list of a glob must not be found by anybody
else. And what is left for the query does not change either, because no entry
has the name that is not declared any longer.
-/
import Mathlib.Data.List.Basic
import RoutePattern.Proofs.Removal

set_option autoImplicit false

namespace RoutePattern

namespace Part

/-! ## A part without its value -/

/-- A capture without a value gives no segment. -/
theorem segment?_none {p : Part} {name : String} (h : p.name? = some name) :
    p.segment? none = none := by
  cases p with
  | literal text => exact absurd h (by simp [name?])
  | _ => rfl

/-- Without a value nothing is added behind the last segment. -/
theorem suffix_none (p : Part) : p.suffix none = "" := by
  cases p <;> rfl

/-- A part that is written with its sigil alone is read as itself. -/
theorem read_spell {p : Part} (h : p.Named) : Template.read p.spell = .ok ⟨false, [p]⟩ := by
  have hregular : (Template.mk false [p]).Regular :=
    ⟨by simpa using h, List.pairwise_singleton _ _⟩
  have hpattern : (Template.mk false [p]).pattern = p.spell := by
    cases p with
    | format name => exact String.empty_append
    | _ => simp [Template.pattern, Template.root, Template.separated, Template.attached]
  have hcompiled := hregular.ofPattern_pattern
  rw [hpattern] at hcompiled
  obtain ⟨u, hread, hcheck⟩ := exists_of_bind_eq_ok hcompiled
  obtain ⟨rfl, -⟩ := Template.checked_eq_ok_iff.1 hcheck
  exact hread

end Part

namespace Template

/-! ## The other parts -/

section Erase

variable {t : Template} {part : Part} {name : String}
  (hnames : t.names.Nodup) (hmem : part ∈ t.parts) (hname : part.name? = some name)

include hnames hmem hname

/-- Around the part stand the other ones, and they have other names. -/
theorem exists_parts_erase : ∃ front behind, t.parts = front ++ part :: behind ∧
    (t.erase part).parts = front ++ behind ∧ ∀ p ∈ front ++ behind, p.name? ≠ some name := by
  obtain ⟨front, behind, -, ht, hu⟩ := List.exists_erase_eq hmem
  refine ⟨front, behind, ht, hu, fun p hp heq => ?_⟩
  rw [names, ht, List.filterMap_append, List.filterMap_cons_some hname,
    List.perm_middle.nodup_iff, ← List.filterMap_append] at hnames
  exact (List.nodup_cons.1 hnames).1 (List.mem_filterMap.2 ⟨p, hp, heq⟩)

/-- What the other parts are found under is declared as before. -/
theorem declares_erase {k : Key} (hk : k ≠ .name name) :
    (t.erase part).declares k = t.declares k := by
  obtain ⟨front, behind, ht, hu, -⟩ := exists_parts_erase hnames hmem hname
  have hpart : decide (part.name?.map Key.name = some k) = false := by
    rw [hname]
    exact decide_eq_false fun e => hk (Option.some.inj e).symm
  rw [declares, declares, ht, hu, List.any_append, List.any_append, List.any_cons, hpart,
    Bool.false_or]

omit hnames in
/-- Filling gives the other names the same values. -/
theorem Regular.get?_fillGlob_erase (ht : t.Regular) {k : Key} (hk : k ≠ .name name)
    (c : Captures) : ((t.erase part).fillGlob [] c).get? k = (t.fillGlob [] c).get? k := by
  -- a glob under another name is another part, so it is there before and after
  have hglob : (((t.erase part).parts.findSome? Part.globName?).map Key.name = some k) ↔
      ((t.parts.findSome? Part.globName?).map Key.name = some k) := by
    simp only [Option.map_eq_some_iff]
    refine exists_congr fun other => and_congr_left fun heq => ?_
    rw [ht.findSome?_globName?_iff, (ht.erase part).findSome?_globName?_iff]
    refine List.mem_erase_of_ne ?_
    rintro rfl
    exact hk (heq.symm.trans (congrArg Key.name (Option.some.inj hname)))
  rw [get?_fillGlob, get?_fillGlob]
  simp only [hglob]

omit hnames in
/-- So a part with another name finds what it found before. -/
theorem Regular.value?_fillGlob_erase (ht : t.Regular) {p : Part} (hp : p.name? ≠ some name)
    (c : Captures) : p.value? ((t.erase part).fillGlob [] c) = p.value? (t.fillGlob [] c) := by
  rw [Part.value?, Part.value?]
  cases hp' : p.name? with
  | none => rfl
  | some other =>
      have hne : Key.name other ≠ .name name := fun e =>
        hp (hp'.trans (congrArg some (Key.name.inj e)))
      exact ht.get?_fillGlob_erase hmem hname hne c

/-- Without its value the part finds nothing, or it is a glob and finds an empty list. Neither is
written. -/
theorem Regular.written_nothing (ht : t.Regular) {c : Captures} (hmissing : .name name ∉ c.keys) :
    part.segmentIn? (t.fillGlob [] c) = none ∧ part.suffixIn (t.fillGlob [] c) = "" := by
  have hvalue : part.value? (t.fillGlob [] c) =
      if (t.parts.findSome? Part.globName?).map Key.name = some (.name name) then
        some (.list []) else none := by
    rw [Part.value?, hname]
    exact (get?_fillGlob t [] c (.name name)).trans (by rw [Captures.get?_eq_none hmissing]; rfl)
  rw [Part.segmentIn?, Part.suffixIn, hvalue]
  split
  · next hglob =>
    obtain ⟨other, ho, heq⟩ := Option.map_eq_some_iff.1 hglob
    obtain rfl := Key.name.inj heq
    -- the glob has the name of the part, so it is the part
    obtain ⟨front, behind, hparts, -, hother⟩ := exists_parts_erase hnames hmem hname
    have hin := ht.findSome?_globName?_iff.1 ho
    rw [hparts] at hin
    rcases List.mem_append.1 hin with hfront | hrest
    · exact absurd rfl (hother _ (List.mem_append_left _ hfront))
    · rcases List.mem_cons.1 hrest with rfl | hbehind
      · exact ⟨rfl, rfl⟩
      · exact absurd rfl (hother _ (List.mem_append_right _ hbehind))
  · exact ⟨Part.segment?_none hname, part.suffix_none⟩

/-- What is left for the query does not have the name of the part. -/
theorem leftover_fillGlob_erase {c : Captures} (hc : c.keys.Nodup)
    (hmissing : .name name ∉ c.keys) :
    (t.erase part).leftover ((t.erase part).fillGlob [] c) = t.leftover (t.fillGlob [] c) := by
  have hentries : ((t.erase part).leftover ((t.erase part).fillGlob [] c)).entries =
      (t.leftover (t.fillGlob [] c)).entries := by
    rw [entries_leftover_fillGlob _ [] hc, entries_leftover_fillGlob t [] hc]
    refine List.filter_congr fun e he => ?_
    have hne : e.1 ≠ .name name := fun e' => hmissing (e' ▸ List.mem_map_of_mem he)
    rw [declares_erase hnames hmem hname hne]
  exact congrArg Captures.mk hentries

/-- A template without the part **is written as the template is without the value**. -/
theorem Regular.render_erase (ht : t.Regular) {c : Captures} (hc : c.keys.Nodup)
    (hmissing : .name name ∉ c.keys) : (t.erase part).render c = t.render c := by
  obtain ⟨front, behind, hparts, herased, hother⟩ := exists_parts_erase hnames hmem hname
  obtain ⟨hsegment, hsuffix⟩ := ht.written_nothing hnames hmem hname hmissing
  have hnames' : (t.erase part).names.Nodup :=
    hnames.sublist (List.erase_sublist.filterMap Part.name?)
  have hvalue : ∀ p ∈ front ++ behind,
      p.value? ((t.erase part).fillGlob [] c) = p.value? (t.fillGlob [] c) := fun p hp =>
    ht.value?_fillGlob_erase hmem hname (hother p hp) c
  have hsegments : (t.erase part).segments ((t.erase part).fillGlob [] c) =
      t.segments (t.fillGlob [] c) := by
    have hmap : (front ++ behind).filterMap (Part.segmentIn? ((t.erase part).fillGlob [] c)) =
        (front ++ behind).filterMap (Part.segmentIn? (t.fillGlob [] c)) :=
      List.filterMap_congr fun p hp => by rw [Part.segmentIn?, Part.segmentIn?, hvalue p hp]
    rw [segments_eq hnames', segments_eq hnames, hparts, herased, hmap, List.filterMap_append,
      List.filterMap_append, List.filterMap_cons_none hsegment]
  have hsuffixes : (t.erase part).suffix ((t.erase part).fillGlob [] c) =
      t.suffix (t.fillGlob [] c) := by
    have hmap : (front ++ behind).map (Part.suffixIn ((t.erase part).fillGlob [] c)) =
        (front ++ behind).map (Part.suffixIn (t.fillGlob [] c)) :=
      List.map_congr_left fun p hp => by rw [Part.suffixIn, Part.suffixIn, hvalue p hp]
    rw [suffix_eq hnames', suffix_eq hnames, hparts, herased, hmap, List.map_append,
      List.map_append, List.map_cons, hsuffix]
    simp
  rw [render_eq, render_eq, write, write, hsegments, hsuffixes,
    leftover_fillGlob_erase hnames hmem hname hc hmissing]
  rfl

end Erase

end Template

namespace Location

/-! ## A location without a part -/

section Remove

variable {l : Location} {part : Part} {name : String}
  (ht : l.template.Regular) (hnames : l.template.names.Nodup) (hc : l.captures.keys.Nodup)
  (hmem : part ∈ l.template.parts) (hname : part.name? = some name)

include hnames hc hmem hname

/-- Only the part itself is missing, so only its value goes. -/
theorem foldl_dropValue_erase :
    l.template.parts.foldl (dropValue (l.template.erase part)) l.captures =
      l.captures.erase (.name name) := by
  have hdeclares : ∀ k, (Template.mk false
      (l.template.parts.filter fun p => p ∉ (l.template.erase part).parts)).declares k = true ↔
        k = .name name := by
    intro k
    rw [Template.declares, List.any_eq_true]
    constructor
    · rintro ⟨p, hp, hk⟩
      obtain ⟨hin, hnot⟩ := List.mem_filter.1 hp
      obtain rfl : p = part := Decidable.byContradiction fun hne =>
        of_decide_eq_true hnot ((List.mem_erase_of_ne hne).2 hin)
      rw [hname] at hk
      exact (Option.some.inj (of_decide_eq_true hk)).symm
    · rintro rfl
      have hnot : part ∉ (l.template.erase part).parts := by
        obtain ⟨front, behind, -, herased, hother⟩ :=
          Template.exists_parts_erase hnames hmem hname
        rw [herased]
        exact fun hin => hother part hin hname
      exact ⟨part, List.mem_filter.2 ⟨hmem, decide_eq_true hnot⟩, by rw [hname]; simp⟩
  have hentries : (l.template.parts.foldl (dropValue (l.template.erase part)) l.captures).entries =
      (l.captures.erase (.name name)).entries := by
    rw [foldl_dropValue_eq, Template.entries_leftover _ hc, Captures.entries_erase hc]
    refine List.filter_congr fun e _ => ?_
    rw [Bool.eq_iff_iff, Bool.not_eq_true', ← Bool.not_eq_true, hdeclares, decide_eq_true_iff]
  exact congrArg Captures.mk hentries

include ht

/-- A part that is written in a pattern is removed, with its value. -/
theorem remove_spell :
    l.remove part.spell = .ok ⟨l.template.erase part, l.captures.erase (.name name)⟩ := by
  have hread : l.template.remove part.spell = .ok (l.template.erase part) := by
    rw [Template.remove, Part.read_spell (ht.named part hmem)]
    rfl
  rw [remove, hread, ← foldl_dropValue_erase hnames hc hmem hname]
  rfl

omit ht in
/-- What is not declared is the same as before: without the value of the part, nothing has become
undeclared. -/
theorem undeclared_erase :
    undeclared ⟨l.template.erase part, l.captures.erase (.name name)⟩ = l.undeclared := by
  have hentries : (undeclared ⟨l.template.erase part, l.captures.erase (.name name)⟩).entries =
      l.undeclared.entries := by
    simp only [undeclared, Captures.filterKeys, declares_eq]
    rw [Captures.entries_erase hc, List.filter_filter]
    refine List.filter_congr fun e _ => ?_
    by_cases hk : e.1 = .name name
    · have hdeclared : l.template.declares (.name name) = true :=
        Template.declares_of_mem hmem (by rw [hname]; rfl)
      simp [hk, hdeclared]
    · rw [Template.declares_erase hnames hmem hname hk]
      simp [hk]
  exact congrArg Captures.mk hentries

end Remove

/-- Removing a part that captures is **the same as leaving its value out**: without the value, the
template with the part and the one without it are written alike. So a location from which the part is
removed has the text of the old template without the value, and its query is the one it had. -/
theorem render_erase_and_text_remove {t : Template} (h : t.Reachable) (hnames : t.names.Nodup)
    {part : Part} (hmem : part ∈ t.parts) {name : String} (hname : part.name? = some name) :
    (∀ c : Captures, c.Reachable →
      (t.erase part).render (c.erase (.name name)) = t.render (c.erase (.name name))) ∧
    ∀ l : Location, l.template = t → l.captures.Reachable →
      ∃ m : Location, insisting part.spell (l.remove part.spell) = .ok m ∧
        m.template = t.erase part ∧
        m.text = l.template.render (l.captures.erase (.name name)) ∧ m.query = l.query := by
  have ht := h.regular
  have hrender : ∀ c : Captures, c.Reachable →
      (t.erase part).render (c.erase (.name name)) = t.render (c.erase (.name name)) := by
    intro c hc
    refine ht.render_erase hnames hmem hname (Captures.nodup_erase hc.nodup _) fun hin => ?_
    obtain ⟨v, hv⟩ := Captures.mem_keys_iff.1 hin
    rw [Captures.get?_erase hc.nodup, if_pos rfl] at hv
    exact absurd hv (by simp)
  refine ⟨hrender, ?_⟩
  rintro l rfl hc
  refine ⟨⟨l.template.erase part, l.captures.erase (.name name)⟩, ?_, rfl, hrender _ hc, ?_⟩
  · rw [remove_spell ht hnames hc.nodup hmem hname]
    rfl
  · exact congrArg Query.write (undeclared_erase hnames hc.nodup hmem hname)

/-- A glob with a literal behind it goes, while a variable and the format have no value either; then
the format goes, which has none. The query keeps a key that has the name of the glob. -/
theorem render_erase_and_text_remove_files :
    ∃ (t : Template) (l m n : Location), Template.ofPattern "/:a/*rest/x.fmt" = .ok t ∧
      l.template = t ∧ l.captures.entries = [(.name "rest", .list ["b", "c"]),
        (.query "rest", .single "1"), (.name "more", .single "2")] ∧
      l.text = "/b/c/x?rest=1&more=2" ∧
      insisting "*rest" (l.remove "*rest") = .ok m ∧ m.template.pattern = "/:a/x.fmt" ∧
      m.text = t.render (l.captures.erase (.name "rest")) ∧ m.text = "/x?rest=1&more=2" ∧
      m.query = l.query ∧ insisting ".fmt" (l.remove ".fmt") = .ok n ∧ n.text = l.text ∧
      n.query = l.query := by
  let t : Template := ⟨true, [.var "a", .glob "rest", .literal "x", .format "fmt"]⟩
  let l : Location := ⟨t, ⟨[(.name "rest", .list ["b", "c"]), (.query "rest", .single "1"),
    (.name "more", .single "2")]⟩⟩
  have h : Template.ofPattern "/:a/*rest/x.fmt" = .ok t := rfl
  have hnames : t.names.Nodup := by decide
  have hc : l.captures.Reachable := Captures.reachable_iff.2 (by decide)
  have hglob : Part.glob "rest" ∈ t.parts := by decide
  have hformat : Part.format "fmt" ∈ t.parts := by decide
  obtain ⟨m, hm, hmt, hmtext, hmquery⟩ :=
    (render_erase_and_text_remove (.ofPattern h) hnames hglob rfl).2 l rfl hc
  obtain ⟨n, hn, -, hntext, hnquery⟩ :=
    (render_erase_and_text_remove (.ofPattern h) hnames hformat rfl).2 l rfl hc
  have hpattern : (t.erase (.glob "rest")).pattern = "/:a/x.fmt" := by decide +kernel
  have hwithout : t.render (l.captures.erase (.name "rest")) = "/x?rest=1&more=2" := by
    decide +kernel
  exact ⟨t, l, m, n, h, rfl, rfl, by decide +kernel, hm, hmt ▸ hpattern, hmtext,
    hmtext.trans hwithout, hmquery, hn, hntext, hnquery⟩

end Location

end RoutePattern
