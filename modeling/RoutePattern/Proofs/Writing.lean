/-
What a template writes, and how it is read.

Two sides meet in a list of pieces and an extension. Reading side: `Input.text`
is the one spelling of pieces and extension without a slash too many, and all of
them are told back from it. Writing side: if parts fit pieces and an extension,
and each value that they would capture is there, then these pieces are what is
written, whatever else there is.

The values are handed from part to part, and each part takes its own away. That
the first part with a name takes the value from a second one is of no concern
where names are distinct: `Part.assign_eq` says that every part then finds what
was there in the first place, and nothing after it mentions the order again.
-/
import RoutePattern.Proofs.Distinct
import RoutePattern.Proofs.Matching
import RoutePattern.Template.Render

set_option autoImplicit false

namespace RoutePattern

/-! ## The text of pieces -/

namespace Input

/-- Pieces with one slash between each two, and an extension attached to the last one. -/
def text (isRooted : Bool) (pieces : List String) (dotted? : Option String) : String :=
  (if isRooted then "/" else "") ++ "/".intercalate pieces ++ (dotted?.map ("." ++ ·)).getD ""

/-- A piece as it stands between two slashes. -/
def Solid (piece : String) : Prop := piece ≠ "" ∧ Token.Plain piece

instance (piece : String) : Decidable (Solid piece) :=
  inferInstanceAs (Decidable (piece ≠ "" ∧ Token.Plain piece))

section Text

variable {pieces : List String} {dotted? : Option String}
  (hpieces : ∀ piece ∈ pieces, Solid piece) (hdotted : ∀ e ∈ dotted?, Token.Plain e)

include hpieces hdotted

theorem scan_text (isRooted : Bool) (query? : Option String) :
    Token.scan (text isRooted pieces dotted? ++ (query?.map ("?" ++ ·)).getD "") =
      Token.layout isRooted (pieces.map .literal)
        (dotted?.toList.map .format ++ query?.toList.map .query) := by
  have hspell : Token.spellAll (Token.layout isRooted (pieces.map .literal)
      (dotted?.toList.map .format ++ query?.toList.map .query)) =
        text isRooted pieces dotted? ++ (query?.map ("?" ++ ·)).getD "" := by
    have hlit : (pieces.map Token.literal).map Token.spell = pieces := by
      rw [List.map_map]
      exact List.map_id pieces
    rw [Token.spellAll_layout, hlit, Token.spellAll_append, text, ← String.append_assoc]
    cases dotted? <;> cases query? <;> simp [Token.spellAll, Token.spell]
  rw [← hspell]
  refine Token.scan_spellAll (Token.canonical_layout isRooted ?_ ?_)
  · intro t ht
    obtain ⟨piece, hp, rfl⟩ := List.mem_map.1 ht
    exact hpieces piece hp
  · have hquery : Token.CanonicalFrom false (query?.toList.map .query) := by
      cases query? with
      | none => trivial
      | some q => exact rfl
    cases dotted? with
    | none => exact hquery
    | some e => exact ⟨hdotted e rfl, hquery⟩

/-- The pieces, the extension and the query are **told back from the text**. -/
theorem text_spec (isRooted : Bool) (query? : Option String) {s : String}
    (hs : s = text isRooted pieces dotted? ++ (query?.map ("?" ++ ·)).getD "") :
    ((path s).head? = some '/' ↔ isRooted = true) ∧ Readable s ∧ Input.pieces s = pieces ∧
      extension? s = dotted? ∧ Input.query? s = query? := by
  have hplaces : ∀ t ∈ pieces.map Token.literal, t.Place := by
    intro t ht
    obtain ⟨piece, hp, rfl⟩ := List.mem_map.1 ht
    exact hpieces piece hp
  have hslash : Token.slash ∉ dotted?.toList.map Token.format ++ query?.toList.map Token.query := by
    simp
  have hscan := scan_text hpieces hdotted isRooted query?
  have hflat := Token.filter_layout isRooted hplaces hslash
  have hroot := Token.rooted_layout isRooted hplaces hslash
  rw [← hscan, ← hs] at hflat hroot
  rw [Token.rooted_scan] at hroot
  obtain ⟨hread, hp, he, hq⟩ := Token.filter_scan_eq_flat_iff.1 hflat
  exact ⟨by rw [← hroot, decide_eq_true_iff], hread, hp.symm, he.symm, hq.symm⟩

end Text

/-- What can be read of an input can be written again. -/
theorem Readable.solid {s : String} (h : Readable s) :
    (∀ piece ∈ pieces s, Solid piece) ∧ ∀ e ∈ extension? s, Token.Plain e := by
  have hsound : ∀ t ∈ Token.flat (pieces s) (extension? s) (query? s), t.Sound := by
    intro t ht
    rw [← Token.filter_scan h] at ht
    exact Token.sound_of_mem_scan (List.mem_filter.1 ht).1
  constructor
  · intro piece hp
    exact hsound (.literal piece) (List.mem_append_left _ (List.mem_map_of_mem hp))
  · intro e he
    refine hsound (.format e) (List.mem_append_right _ (List.mem_append_left _ ?_))
    rw [he]
    exact List.mem_singleton_self _

end Input

namespace Part

/-! ## What parts find -/

theorem value?_takeFrom {p q : Part} {c : Captures} (h : ∀ name ∈ p.name?, name ∉ q.name?) :
    q.value? (p.takeFrom c) = q.value? c := by
  rw [value?, value?, takeFrom]
  cases hp : p.name? with
  | none => rfl
  | some name =>
      cases hq : q.name? with
      | none => rfl
      | some other =>
          have hne : Key.name other ≠ Key.name name := by
            intro e
            exact h name hp (hq.trans (congrArg some (Key.name.inj e)))
          exact Captures.get?_erase_of_ne c hne

/-- Where names are distinct, every part **finds the value that was there at the start**. -/
theorem assign_eq {ps : List Part} (h : (ps.filterMap name?).Nodup) (c : Captures) :
    assign ps c = ps.map fun p => (p, p.value? c) := by
  induction ps generalizing c with
  | nil => rfl
  | cons p ps ih =>
      have hrest : (ps.filterMap name?).Nodup :=
        h.sublist ((List.sublist_cons_self p ps).filterMap name?)
      rw [assign, ih hrest, List.map_cons]
      congr 1
      refine List.map_congr_left fun q hq => ?_
      rw [value?_takeFrom]
      intro name hp hname
      -- a part with this name further on would be the second one
      rw [List.filterMap_cons_some hp, List.nodup_cons] at h
      exact h.1 (List.mem_filterMap.2 ⟨q, hq, hname⟩)

/-- The parts capture under their names, in order. -/
theorem Fits.keys_eq {ps : List Part} {pieces : List String} {dotted? : Option String}
    {es : List Entry} (h : Fits ps pieces dotted? es) :
    es.map Prod.fst = (ps.filterMap name?).map Key.name := by
  induction h with
  | nil => rfl
  | literal text _ ih => exact ih
  | var name piece _ ih => exact congrArg (Key.name name :: ·) ih
  | glob name pieces _ ih => exact congrArg (Key.name name :: ·) ih
  | format name text => rfl

/-! ## What parts write -/

/-- The segment that a part gives with the value it finds. -/
def segmentIn? (c : Captures) (p : Part) : Option String := p.segment? (p.value? c)

/-- The suffix that a part gives with the value it finds. -/
def suffixIn (c : Captures) (p : Part) : String := p.suffix (p.value? c)

/-- The segments that the parts write are the pieces that they fit. A glob writes its pieces as one
segment, so only the joined texts agree; and it writes no segment at all for no piece. -/
theorem Fits.segments {ps : List Part} {pieces : List String} {dotted? : Option String}
    {es : List Entry} {c : Captures} (h : Fits ps pieces dotted? es)
    (hc : ∀ e ∈ es, c.get? e.1 = some e.2) :
    ((ps.filterMap (segmentIn? c)) = [] ↔ pieces = []) ∧
      "/".intercalate (ps.filterMap (segmentIn? c)) =
        "/".intercalate pieces := by
  have hcons : ∀ (segment : String) {segments pieces : List String},
      (segments = [] ↔ pieces = []) → "/".intercalate segments = "/".intercalate pieces →
        "/".intercalate (segment :: segments) = "/".intercalate (segment :: pieces) := by
    intro segment segments pieces hnil heq
    by_cases hs : segments = []
    · rw [hs, hnil.1 hs]
    · rw [String.intercalate_cons_of_ne_nil hs, heq,
        String.intercalate_cons_of_ne_nil fun hp => hs (hnil.2 hp)]
  induction h with
  | nil => exact ⟨Iff.rfl, rfl⟩
  | literal text _ ih =>
      obtain ⟨hnil, heq⟩ := ih hc
      have hsegment : segmentIn? c (Part.literal text) = some text := rfl
      rw [List.filterMap_cons_some hsegment]
      exact ⟨by simp, hcons text hnil heq⟩
  | var name piece _ ih =>
      obtain ⟨hnil, heq⟩ := ih fun e he => hc e (List.mem_cons_of_mem _ he)
      have hvalue : (Part.var name).value? c = some (.single piece) := hc _ List.mem_cons_self
      have hsegment : segmentIn? c (Part.var name) = some piece := by
        rw [segmentIn?, hvalue]
        exact congrArg some String.intercalate_singleton
      rw [List.filterMap_cons_some hsegment]
      exact ⟨by simp, hcons piece hnil heq⟩
  | glob name pieces _ ih =>
      -- the rest of the parts fits no piece, so it writes no segment
      have hrest := (ih fun e he => hc e (List.mem_cons_of_mem _ he)).1.2 rfl
      have hvalue : (Part.glob name).value? c = some (.list pieces) := hc _ List.mem_cons_self
      cases pieces with
      | nil =>
          have hsegment : segmentIn? c (Part.glob name) = none := by rw [segmentIn?, hvalue]; rfl
          rw [List.filterMap_cons_none hsegment, hrest]
          exact ⟨Iff.rfl, rfl⟩
      | cons piece pieces =>
          have hsegment : segmentIn? c (Part.glob name) =
              some ("/".intercalate (piece :: pieces)) := by rw [segmentIn?, hvalue]; rfl
          rw [List.filterMap_cons_some hsegment, hrest, String.intercalate_singleton]
          exact ⟨by simp, rfl⟩
  | format name text => exact ⟨Iff.rfl, rfl⟩

/-- The suffix that the parts write is the extension that they fit. -/
theorem Fits.suffix {ps : List Part} {pieces : List String} {dotted? : Option String}
    {es : List Entry} {c : Captures} (h : Fits ps pieces dotted? es)
    (hc : ∀ e ∈ es, c.get? e.1 = some e.2) :
    String.join (ps.map (suffixIn c)) = (dotted?.map ("." ++ ·)).getD "" := by
  induction h with
  | nil => rfl
  | literal text _ ih => rw [List.map_cons, String.join_cons, ih hc]; exact String.empty_append
  | var name piece _ ih =>
      rw [List.map_cons, String.join_cons, ih fun e he => hc e (List.mem_cons_of_mem _ he)]
      exact String.empty_append
  | glob name pieces _ ih =>
      rw [List.map_cons, String.join_cons, ih fun e he => hc e (List.mem_cons_of_mem _ he)]
      exact String.empty_append
  | format name text =>
      have hvalue : (Part.format name).value? c = some (.single text) := hc _ List.mem_cons_self
      rw [List.map_cons, suffixIn, hvalue]
      simp [Part.suffix, Value.joined, Value.texts]

end Part

namespace Template

/-! ## What is left for the query -/

/-- Whether a part of the template captures under a key. -/
def declares (t : Template) (k : Key) : Bool :=
  t.parts.any fun p => decide (p.name?.map Key.name = some k)

theorem declares_iff {t : Template} {k : Key} :
    t.declares k = true ↔ k ∈ t.names.map Key.name := by
  rw [declares, names, List.map_filterMap, List.mem_filterMap, List.any_eq_true]
  simp only [decide_eq_true_iff]

theorem nodup_keys_names {t : Template} (h : t.names.Nodup) :
    (t.names.map Key.name).Nodup :=
  List.Pairwise.map Key.name (fun _ _ hne e => hne (Key.name.inj e)) h

theorem declares_query (t : Template) (text : String) : t.declares (.query text) = false := by
  rw [← Bool.not_eq_true, declares_iff]
  simp

/-- The parts take away the entries that they declare, and leave all others in their order. -/
theorem entries_leftover (t : Template) {c : Captures} (h : c.keys.Nodup) :
    (t.leftover c).entries = c.entries.filter fun e => !t.declares e.1 := by
  obtain ⟨isRooted, ps⟩ := t
  simp only [leftover, declares]
  induction ps generalizing c with
  | nil => exact (List.filter_eq_self.2 fun _ _ => rfl).symm
  | cons p ps ih =>
      rw [List.foldl_cons]
      cases hp : p.name? with
      | none =>
          have hsame : p.takeFrom c = c := by rw [Part.takeFrom, hp]
          rw [hsame, ih h]
          simp [hp]
      | some name =>
          have herase : p.takeFrom c = c.erase (.name name) := by rw [Part.takeFrom, hp]
          -- the first part takes its entry, the rest takes from what is left
          rw [herase, ih (Captures.nodup_erase h _), Captures.entries_erase h, List.filter_filter]
          refine List.filter_congr fun e _ => ?_
          by_cases he : e.1 = .name name
          · simp [he, hp]
          · have hname : Key.name name ≠ e.1 := fun e' => he e'.symm
            simp [he, hp, hname]

/-- Where names are distinct, each part writes what it finds in the captures as they are. -/
theorem segments_eq {t : Template} (hnames : t.names.Nodup) (c : Captures) :
    t.segments c = t.parts.filterMap (Part.segmentIn? c) := by
  rw [segments, Part.assign_eq hnames, List.filterMap_map]
  rfl

theorem suffix_eq {t : Template} (hnames : t.names.Nodup) (c : Captures) :
    t.suffix c = String.join (t.parts.map (Part.suffixIn c)) := by
  rw [suffix, Part.assign_eq hnames, List.map_map]
  rfl

/-- What is written is the text of the pieces that the parts fit, and then the rest as a query. -/
theorem write_eq {t : Template} (hnames : t.names.Nodup) {c : Captures} {pieces : List String}
    {dotted? : Option String} {es : List Entry} (h : Part.Fits t.parts pieces dotted? es)
    (hc : ∀ e ∈ es, c.get? e.1 = some e.2) :
    t.write c = Input.text t.rooted pieces dotted? ++ queryTail (t.leftover c) := by
  rw [write, segments_eq hnames, suffix_eq hnames, (h.segments hc).2, h.suffix hc]
  rfl

/-! ## Handing out nothing

Without arguments only a glob can be given a value, the empty one. -/

theorem render_eq (t : Template) (c : Captures) : t.render c = t.write (t.fillGlob [] c) := by
  have hformat : t.fillFormat [] c = ([], c) := by
    rw [fillFormat]
    cases t.parts.findSome? Part.formatName? <;> rfl
  have hvars : ∀ names, fillVars names [] c = ([], c) := by
    intro names
    cases names <;> rfl
  rw [render, renderWith, fill, hformat, hvars]

/-- What is bound stays, and the glob is bound if it was not. -/
theorem get?_fillGlob (t : Template) (args : List String) (c : Captures) (k : Key) :
    (t.fillGlob args c).get? k = (c.get? k).or
      (if (t.parts.findSome? Part.globName?).map Key.name = some k then some (.list args)
        else none) := by
  rw [fillGlob]
  cases t.parts.findSome? Part.globName? with
  | none => simp
  | some name =>
      change (bindIfFree c name (.list args)).get? k = _
      rw [bindIfFree]
      by_cases hk : Key.name name = k
      · subst hk
        cases hc : c.get? (.name name) <;> simp [Captures.contains, hc]
      · have hne : k ≠ Key.name name := fun e => hk e.symm
        by_cases hc : c.contains (.name name) = true
        · simp [hc, hk]
        · simp [hc, hk, Captures.get?_insert_of_ne c hne]

theorem get?_fillGlob_of_some {t : Template} {c : Captures} {k : Key} {v : Value}
    (h : c.get? k = some v) (args : List String) : (t.fillGlob args c).get? k = some v := by
  rw [get?_fillGlob, h]
  rfl

/-- What is found when a glob is looked for is one of the parts. -/
theorem glob_mem_of_findSome? {t : Template} {name : String}
    (h : t.parts.findSome? Part.globName? = some name) : Part.glob name ∈ t.parts := by
  obtain ⟨p, hp, hname⟩ := List.exists_of_findSome?_eq_some h
  cases p with
  | glob other => exact Option.some.inj hname ▸ hp
  | _ => exact absurd hname (by simp [Part.globName?])

/-- The glob is a declared name. -/
theorem declares_of_findSome? {t : Template} {name : String}
    (h : t.parts.findSome? Part.globName? = some name) : t.declares (.name name) = true :=
  declares_iff.2 (List.mem_map_of_mem (List.mem_filterMap.2 ⟨_, glob_mem_of_findSome? h, rfl⟩))

/-- No glob is left without a value. -/
def GlobBound (t : Template) (c : Captures) : Prop :=
  ∀ name, Part.glob name ∈ t.parts → c.contains (.name name) = true

/-- Where the glob is bound there is nothing to be filled. -/
theorem GlobBound.fillGlob_eq {t : Template} {c : Captures} (h : t.GlobBound c)
    (args : List String) : t.fillGlob args c = c := by
  unfold fillGlob
  split
  · next name hname =>
    exact if_pos (h name (glob_mem_of_findSome? hname))
  · rfl

theorem nodup_fillGlob (t : Template) (args : List String) {c : Captures} (h : c.keys.Nodup) :
    (t.fillGlob args c).keys.Nodup := by
  rw [fillGlob]
  split
  · rw [bindIfFree]
    split
    · exact h
    · exact Captures.nodup_insert h _ _
  · exact h

/-- The value for the glob is not one that is left over. -/
theorem entries_leftover_fillGlob (t : Template) (args : List String) {c : Captures}
    (h : c.keys.Nodup) :
    (t.leftover (t.fillGlob args c)).entries = c.entries.filter fun e => !t.declares e.1 := by
  rw [entries_leftover t (nodup_fillGlob t args h), fillGlob]
  split
  · next name hname =>
    rw [bindIfFree]
    split
    · rfl
    · refine Captures.filter_upsert (fun k => !t.declares k) ?_ _ c.entries
      rw [declares_of_findSome? hname]
      rfl
  · rfl

theorem Regular.glob_unique {t : Template} (ht : t.Regular) {name other : String}
    (h : Part.glob name ∈ t.parts) (h' : Part.glob other ∈ t.parts) : name = other := by
  have honce := ht.glob_once
  have hm : Part.glob name ∈ t.parts.filter Part.isGlob := List.mem_filter.2 ⟨h, rfl⟩
  have hm' : Part.glob other ∈ t.parts.filter Part.isGlob := List.mem_filter.2 ⟨h', rfl⟩
  cases hl : t.parts.filter Part.isGlob with
  | nil =>
      rw [hl] at hm
      exact absurd hm List.not_mem_nil
  | cons q qs =>
      rw [hl, List.length_cons] at honce
      obtain rfl : qs = [] := List.eq_nil_of_length_eq_zero (by omega)
      rw [hl] at hm hm'
      exact Part.glob.inj ((List.mem_singleton.1 hm).trans (List.mem_singleton.1 hm').symm)

/-- There is one glob at most, so a glob is the one that is looked for. -/
theorem Regular.findSome?_globName? {t : Template} (ht : t.Regular) {name : String}
    (h : Part.glob name ∈ t.parts) : t.parts.findSome? Part.globName? = some name := by
  cases hfind : t.parts.findSome? Part.globName? with
  | none => exact absurd (List.findSome?_eq_none_iff.1 hfind _ h) (by simp [Part.globName?])
  | some other => rw [ht.glob_unique h (glob_mem_of_findSome? hfind)]

theorem Regular.findSome?_globName?_iff {t : Template} (ht : t.Regular) {name : String} :
    t.parts.findSome? Part.globName? = some name ↔ Part.glob name ∈ t.parts :=
  ⟨glob_mem_of_findSome?, ht.findSome?_globName?⟩

/-- The declared entries, the glob filled, are those that the filled captures find. -/
theorem get?_fillGlob_filterKeys (t : Template) (args : List String) (c : Captures) (k : Key) :
    (t.fillGlob args (c.filterKeys t.declares)).get? k =
      if t.declares k then (t.fillGlob args c).get? k else none := by
  rw [get?_fillGlob, get?_fillGlob, Captures.get?_filterKeys]
  cases hk : t.declares k with
  | true => rfl
  | false =>
      -- the key of the glob is a declared one
      have hne : (t.parts.findSome? Part.globName?).map Key.name ≠ some k := by
        intro e
        obtain ⟨name, hname, rfl⟩ := Option.map_eq_some_iff.1 e
        rw [declares_of_findSome? hname] at hk
        exact absurd hk (by decide)
      rw [if_neg hne]
      rfl

end Template

end RoutePattern
