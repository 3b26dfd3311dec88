/-
Reading and writing undo each other.

Both directions go through a match as `Part.Fits` states it. What is read gives
one, and so does what is ready to be written; a match is written as the text of
its pieces, and that text gives the same match again.

From captures to text and back, nothing is lost but what a query cannot keep:
values that no part takes come back under keys of the query, text by text. From
text to captures and back, nothing is lost but the layout of the slashes and the
spelling of the query, so that the text that comes out is canonical.
-/
import RoutePattern.Proofs.QueryCodec
import RoutePattern.Proofs.Writing

set_option autoImplicit false

namespace RoutePattern

/-! ## The canonical text of an input -/

namespace Input

/-- The path without a slash too many. -/
def canonPath (s : String) : String :=
  text (decide (s.toList.head? = some '/')) (pieces s) (extension? s)

/-- A query as it is written after it was read; without entries there is none. -/
def canonQuery (q : String) : String :=
  if Query.entries q = [] then "" else "?" ++ Query.write (Query.read q)

/-- The canonical text of an input. -/
def canon (s : String) : String := canonPath s ++ ((query? s).map canonQuery).getD ""

theorem canon_of_query?_eq_none {s : String} (h : query? s = none) : canon s = canonPath s := by
  rw [canon, h]
  exact String.append_empty

example : canon "//files/a//.gz/?a=1&&b=2&a=3" = "/files/a.gz?a=1&a=3&b=2" := by decide +kernel

end Input

namespace Template

/-! ## A match and its text -/

/-- The entries of a match and of a query have distinct keys. -/
theorem nodup_match {t : Template} (hnames : t.names.Nodup) {pieces : List String}
    {dotted? query? : Option String} {es : List Entry} (h : Part.Fits t.parts pieces dotted? es) :
    ((es ++ Part.queryEntries query?).map Prod.fst).Nodup := by
  have hquery : ((Part.queryEntries query?).map Prod.fst).Nodup ∧
      ∀ k ∈ (Part.queryEntries query?).map Prod.fst, ∃ text, k = .query text := by
    cases query? with
    | none => exact ⟨List.nodup_nil, fun k hk => absurd hk List.not_mem_nil⟩
    | some text => exact ⟨Query.nodup_keys_read text, fun k hk => Query.keys_read hk⟩
  rw [List.map_append, h.keys_eq, List.nodup_append]
  refine ⟨nodup_keys_names hnames, hquery.1, ?_⟩
  -- names and keys of a query never meet
  rintro k hname l hl rfl
  obtain ⟨text, rfl⟩ := hquery.2 k hl
  exact absurd hname (by simp)

/-- What is captured are the entries of the match, and then those of the query. -/
theorem entries_match {t : Template} (hnames : t.names.Nodup) {pieces : List String}
    {dotted? query? : Option String} {es : List Entry} (h : Part.Fits t.parts pieces dotted? es) :
    (Captures.ofList (es ++ Part.queryEntries query?)).entries =
      es ++ Part.queryEntries query? :=
  Captures.entries_ofList (nodup_match hnames h)

/-- What is read of an input is a match, and every value of the match is found. -/
theorem Regular.match_of_capture? {t : Template} (ht : t.Regular) (hnames : t.names.Nodup)
    {s : String} {c : Captures} (h : t.capture? s = some c) :
    ∃ es, Part.Fits t.parts (Input.pieces s) (Input.extension? s) es ∧
      c = Captures.ofList (es ++ Part.queryEntries (Input.query? s)) ∧
        (∀ e ∈ es, c.get? e.1 = some e.2) ∧ Input.Readable s ∧
          t.rooted = decide (s.toList.head? = some '/') := by
  obtain ⟨hroot, hread, es, hfits, rfl⟩ := ht.capture?_eq_some_iff.1 h
  refine ⟨es, hfits, rfl, fun e he => ?_, hread, ?_⟩
  · refine (Captures.mem_entries_iff (Captures.nodup_ofList _)).1 ?_
    rw [entries_match hnames hfits]
    exact List.mem_append_left _ he
  · rw [Input.head?_path] at hroot
    cases hr : t.rooted <;> simp_all

/-- The text of a match is matched the same way. -/
theorem Regular.capture?_text {t : Template} (ht : t.Regular) {pieces : List String}
    {dotted? : Option String} {es : List Entry} (h : Part.Fits t.parts pieces dotted? es)
    (hpieces : ∀ piece ∈ pieces, Input.Solid piece) (hdotted : ∀ e ∈ dotted?, Token.Plain e)
    (query? : Option String) :
    t.capture? (Input.text t.rooted pieces dotted? ++ (query?.map ("?" ++ ·)).getD "") =
      some (Captures.ofList (es ++ Part.queryEntries query?)) := by
  obtain ⟨hroot, hread, hp, he, hq⟩ := Input.text_spec hpieces hdotted t.rooted query? rfl
  refine ht.capture?_eq_some_iff.2 ⟨hroot, hread, es, ?_, ?_⟩
  · rw [hp, he]
    exact h
  · rw [hq]

/-! ## From text to captures and back -/

/-- Under each of its names a match has captured something. -/
theorem contains_of_fits {t : Template} {pieces : List String} {dotted? : Option String}
    {es : List Entry} (h : Part.Fits t.parts pieces dotted? es) {c : Captures}
    (hc : ∀ e ∈ es, c.get? e.1 = some e.2) {name : String} (hname : name ∈ t.names) :
    c.contains (.name name) = true := by
  have hkey : Key.name name ∈ es.map Prod.fst := by
    rw [h.keys_eq]
    exact List.mem_map_of_mem hname
  obtain ⟨e, he, hk⟩ := List.mem_map.1 hkey
  unfold Captures.contains
  rw [← hk, hc e he]
  rfl

/-- The glob among them. -/
theorem globBound_of_fits {t : Template} {pieces : List String} {dotted? : Option String}
    {es : List Entry} (h : Part.Fits t.parts pieces dotted? es) {c : Captures}
    (hc : ∀ e ∈ es, c.get? e.1 = some e.2) : t.GlobBound c :=
  fun _ hglob => contains_of_fits h hc (List.mem_filterMap.2 ⟨_, hglob, rfl⟩)

/-- Of what was read, the query is left for the query. -/
theorem entries_leftover_match {t : Template} (hnames : t.names.Nodup) {pieces : List String}
    {dotted? : Option String} {es : List Entry} (h : Part.Fits t.parts pieces dotted? es)
    (query? : Option String) :
    (t.leftover (Captures.ofList (es ++ Part.queryEntries query?))).entries =
      Part.queryEntries query? := by
  have hes : es.filter (fun e => !t.declares e.1) = [] := by
    refine List.filter_eq_nil_iff.2 fun e he => ?_
    have hk : t.declares e.1 = true := by
      rw [declares_iff, names, ← h.keys_eq]
      exact List.mem_map_of_mem he
    simp [hk]
  have hquery : (Part.queryEntries query?).filter (fun e => !t.declares e.1) =
      Part.queryEntries query? := by
    refine List.filter_eq_self.2 fun e he => ?_
    cases query? with
    | none => exact absurd he List.not_mem_nil
    | some q =>
        obtain ⟨text, hk⟩ := Query.keys_read (List.mem_map_of_mem he)
        rw [hk, declares_query]
        rfl
  rw [entries_leftover t (Captures.nodup_ofList _), entries_match hnames h, List.filter_append,
    hes, hquery, List.nil_append]

theorem queryTail_of_entries (query? : Option String) {c : Captures}
    (hc : c.entries = Part.queryEntries query?) :
    queryTail c = (query?.map Input.canonQuery).getD "" := by
  obtain ⟨es⟩ := c
  obtain rfl : es = _ := hc
  cases query? with
  | none => rfl
  | some q =>
      change (if (Query.read q).entries = [] then "" else "?" ++ Query.write (Query.read q)) = _
      simp only [Query.entries_read_eq_nil_iff]
      rfl

/-- What is read and written comes out canonical. -/
theorem Regular.render_of_capture? {t : Template} (ht : t.Regular) (hnames : t.names.Nodup)
    {s : String} {c : Captures} (h : t.capture? s = some c) : t.render c = Input.canon s := by
  obtain ⟨es, hfits, rfl, hget, -, hrooted⟩ := ht.match_of_capture? hnames h
  have hleft := entries_leftover_match hnames hfits (Input.query? s)
  rw [render_eq, (globBound_of_fits hfits hget).fillGlob_eq, write_eq hnames hfits hget,
    queryTail_of_entries _ hleft, hrooted]
  rfl

/-- Without a query, the canonical text of what was read is read the same way. -/
theorem Regular.capture?_canonPath {t : Template} (ht : t.Regular) (hnames : t.names.Nodup)
    {s : String} {c : Captures} (h : t.capture? s = some c) (hquery : Input.query? s = none) :
    t.capture? (Input.canonPath s) = some c := by
  obtain ⟨es, hfits, rfl, -, hread, hrooted⟩ := ht.match_of_capture? hnames h
  obtain ⟨hpieces, hdotted⟩ := hread.solid
  have htext := ht.capture?_text hfits hpieces hdotted none
  rw [hrooted] at htext
  rw [hquery]
  exact (congrArg t.capture? String.append_empty.symm).trans htext

/-- Captures of one template from inputs without queries have their keys in one order. -/
theorem Regular.keys_of_capture? {t : Template} (ht : t.Regular) (hnames : t.names.Nodup)
    {s : String} {c : Captures} (h : t.capture? s = some c) (hquery : Input.query? s = none) :
    c.keys = t.names.map Key.name := by
  obtain ⟨es, hfits, rfl, -, -, -⟩ := ht.match_of_capture? hnames h
  rw [Captures.keys, entries_match hnames hfits, hquery, names, ← hfits.keys_eq]
  exact congrArg (List.map Prod.fst) (List.append_nil es)

/-- What is read and written again **comes out canonical**. Without a query that is read the same
way, so inputs without queries are captured alike exactly when their canonical paths agree. -/
theorem render_of_capture?_eq_canon {t : Template} (h : t.Reachable) (hnames : t.names.Nodup) :
    (∀ (s : String) (c : Captures), t.capture? s = some c →
      t.render c = Input.canon s ∧
        (Input.query? s = none →
          t.capture? (t.render c) = some c ∧
            (t.capture? (t.render c)).map t.render = some (t.render c))) ∧
      ∀ (s s' : String) (c c' : Captures), t.capture? s = some c → t.capture? s' = some c' →
        Input.query? s = none → Input.query? s' = none →
          (c ≈ c' ↔ Input.canonPath s = Input.canonPath s') := by
  have ht := h.regular
  have hback : ∀ (s : String) (c : Captures), t.capture? s = some c → Input.query? s = none →
      t.render c = Input.canonPath s := by
    intro s c hc hs
    rw [ht.render_of_capture? hnames hc, Input.canon_of_query?_eq_none hs]
  constructor
  · intro s c hc
    refine ⟨ht.render_of_capture? hnames hc, fun hs => ?_⟩
    have hagain : t.capture? (t.render c) = some c := by
      rw [hback s c hc hs]
      exact ht.capture?_canonPath hnames hc hs
    exact ⟨hagain, by rw [hagain]; rfl⟩
  · intro s s' c c' hc hc' hs hs'
    have hkeys := ht.keys_of_capture? hnames hc hs
    have hkeys' := ht.keys_of_capture? hnames hc' hs'
    have hnodup : c.keys.Nodup := by
      rw [hkeys]
      exact nodup_keys_names hnames
    constructor
    · intro hsame
      -- the keys are the names in their order, so same captures are equal
      obtain rfl := Captures.eq_of_same hnodup (hkeys.trans hkeys'.symm) hsame
      rw [← hback s c hc hs, hback s' c hc' hs']
    · intro hcanon
      have hagain := ht.capture?_canonPath hnames hc hs
      rw [hcanon, ht.capture?_canonPath hnames hc' hs'] at hagain
      obtain rfl := Option.some.inj hagain
      exact Captures.same_refl hnodup

/-- Slashes are doubled, one stands at the end, and a dot with nothing behind it is an extension. An
input with another canonical path is captured differently. -/
theorem render_of_capture?_eq_canon_files :
    ∃ t c d, t = ⟨true, [.literal "files", .glob "path", .format "fmt"]⟩ ∧
      c = ⟨[(.name "path", .list ["a", "b"]), (.name "fmt", .single "")]⟩ ∧
      d = ⟨[(.name "path", .list ["ab"]), (.name "fmt", .single "")]⟩ ∧
      ofPattern "/files/*path.fmt" = .ok t ∧ t.capture? "//files/a//b./" = some c ∧
      t.render c = "/files/a/b." ∧ t.capture? (t.render c) = some c ∧
      t.capture? "/files/ab." = some d ∧ ¬ c ≈ d := by
  let t : Template := ⟨true, [.literal "files", .glob "path", .format "fmt"]⟩
  let c : Captures := ⟨[(.name "path", .list ["a", "b"]), (.name "fmt", .single "")]⟩
  let d : Captures := ⟨[(.name "path", .list ["ab"]), (.name "fmt", .single "")]⟩
  have h : ofPattern "/files/*path.fmt" = .ok t := rfl
  have hc : t.capture? "//files/a//b./" = some c := by decide +kernel
  have hd : t.capture? "/files/ab." = some d := by decide +kernel
  obtain ⟨hback, hsame⟩ := render_of_capture?_eq_canon (.ofPattern h) (by decide)
  have hcanon : Input.canon "//files/a//b./" = "/files/a/b." := by decide +kernel
  have hother : Input.canonPath "//files/a//b./" ≠ Input.canonPath "/files/ab." := by
    decide +kernel
  have hquery : Input.query? "//files/a//b./" = none := by decide +kernel
  obtain ⟨hrender, hagain⟩ := hback _ _ hc
  refine ⟨t, c, d, rfl, rfl, rfl, h, hc, hrender.trans hcanon, (hagain hquery).1, hd, fun hcd => ?_⟩
  exact hother ((hsame _ _ _ _ hc hd hquery (by decide +kernel)).1 hcd)

/-! ## From captures to text and back -/

/-- The values that a template needs to be written so that it can be read again. -/
structure Fillable (t : Template) (c : Captures) : Prop where
  vars : ∀ name, Part.var name ∈ t.parts →
    ∃ text, c.name? name = some (.single text) ∧ Input.Solid text
  /-- A glob may be open. -/
  globs : ∀ name, Part.glob name ∈ t.parts → c.name? name = none ∨
    ∃ texts, c.name? name = some (.list texts) ∧ ∀ text ∈ texts, Input.Solid text
  /-- An extension may be empty. -/
  formats : ∀ name, Part.format name ∈ t.parts →
    ∃ text, c.name? name = some (.single text) ∧ Token.Plain text
  /-- Whatever else there is can stand in a query. -/
  others : ∀ e ∈ c.entries, t.declares e.1 = false → Query.Writable e

/-- What comes back: the declared entries and an empty list for an open glob, and the texts of all
other entries under keys of the query. -/
def returned (t : Template) (c : Captures) : Captures :=
  (c.filterKeys fun k => !t.declares k).entries.foldl Query.pushTexts
    (t.fillGlob [] (c.filterKeys t.declares))

end Template

namespace Part

/-- A part that finds a value it can be written with. -/
def Ready (c : Captures) : Part → Prop
  | literal text => Input.Solid text
  | var name => ∃ text, c.name? name = some (.single text) ∧ Input.Solid text
  | glob name => ∃ texts, c.name? name = some (.list texts) ∧ ∀ text ∈ texts, Input.Solid text
  | format name => ∃ text, c.name? name = some (.single text) ∧ Token.Plain text

/-- Behind a glob no piece is taken, if no literal stands there. -/
theorem Fits.eq_nil_of_glob {name : String} {ps : List Part} {pieces : List String}
    {dotted? : Option String} {es : List Entry} (h : Fits ps pieces dotted? es)
    (hp : ∀ q ∈ ps, (Part.glob name).MayPrecede q) (hliteral : ∀ q ∈ ps, q.isLiteral = false) :
    pieces = [] := by
  cases h with
  | nil => rfl
  | literal text _ => exact absurd (hliteral _ List.mem_cons_self) (by simp)
  | var _ _ _ => exact absurd ((hp _ List.mem_cons_self).2 rfl).1 (by simp)
  | glob _ _ _ => exact absurd ((hp _ List.mem_cons_self).2 rfl).2 (by simp)
  | format _ _ => rfl

/-- Ready parts fit some pieces and some extension, and would capture what they find. -/
theorem exists_fits {c : Captures} {ps : List Part} (hordered : ps.Pairwise MayPrecede)
    (hlast : ps.Pairwise fun p q => p.isGlob = true → q.isLiteral = false)
    (hready : ∀ p ∈ ps, p.Ready c) :
    ∃ pieces dotted? es, Fits ps pieces dotted? es ∧ (∀ piece ∈ pieces, Input.Solid piece) ∧
      (∀ e ∈ dotted?, Token.Plain e) ∧ ∀ e ∈ es, c.get? e.1 = some e.2 := by
  induction ps with
  | nil => exact ⟨[], none, [], .nil, by simp, by simp, by simp⟩
  | cons p ps ih =>
      obtain ⟨hp, hps⟩ := List.pairwise_cons.1 hordered
      obtain ⟨hpl, hpsl⟩ := List.pairwise_cons.1 hlast
      have hpr := hready p List.mem_cons_self
      obtain ⟨pieces, dotted?, es, hfits, hpieces, hdotted, hes⟩ :=
        ih hps hpsl fun q hq => hready q (List.mem_cons_of_mem _ hq)
      cases p with
      | literal text =>
          exact ⟨text :: pieces, dotted?, es, hfits.literal text,
            List.forall_mem_cons.2 ⟨hpr, hpieces⟩, hdotted, hes⟩
      | var name =>
          obtain ⟨text, hvalue, hsolid⟩ := hpr
          exact ⟨text :: pieces, dotted?, _, hfits.var name text,
            List.forall_mem_cons.2 ⟨hsolid, hpieces⟩, hdotted, List.forall_mem_cons.2 ⟨hvalue, hes⟩⟩
      | glob name =>
          obtain ⟨texts, hvalue, hsolid⟩ := hpr
          -- the rest asks for no piece, so the glob may take all of its texts
          obtain rfl := hfits.eq_nil_of_glob hp fun q hq => hpl q hq rfl
          exact ⟨texts, dotted?, _, hfits.glob name texts, hsolid, hdotted,
            List.forall_mem_cons.2 ⟨hvalue, hes⟩⟩
      | format name =>
          obtain ⟨text, hvalue, hplain⟩ := hpr
          obtain rfl := eq_nil_of_format_mayPrecede hp
          exact ⟨[], some text, _, .format name text, by simp, by simpa using hplain,
            List.forall_mem_cons.2 ⟨hvalue, by simp⟩⟩

end Part

namespace Template

/-- After the glob is filled, every part is ready. -/
theorem Regular.ready {t : Template} (ht : t.Regular) {c : Captures} (h : t.Fillable c) :
    ∀ p ∈ t.parts, p.Ready (t.fillGlob [] c) := by
  intro p hp
  cases p with
  | literal text => exact ht.named _ hp
  | var name =>
      obtain ⟨text, hvalue, hsolid⟩ := h.vars name hp
      exact ⟨text, get?_fillGlob_of_some hvalue [], hsolid⟩
  | glob name =>
      rcases h.globs name hp with hopen | ⟨texts, hvalue, hsolid⟩
      · refine ⟨[], ?_, by simp⟩
        have hnone : c.get? (.name name) = none := hopen
        rw [Captures.name?, get?_fillGlob, hnone, ht.findSome?_globName? hp]
        exact if_pos rfl
      · exact ⟨texts, get?_fillGlob_of_some hvalue [], hsolid⟩
  | format name =>
      obtain ⟨text, hvalue, hplain⟩ := h.formats name hp
      exact ⟨text, get?_fillGlob_of_some hvalue [], hplain⟩

/-- The keys of the declared entries are names. -/
theorem query_not_mem_keys_declared (t : Template) (args : List String) (c : Captures)
    (text : String) : Key.query text ∉ (t.fillGlob args (c.filterKeys t.declares)).keys := by
  rw [Captures.mem_keys_iff]
  rintro ⟨v, hv⟩
  rw [get?_fillGlob_filterKeys, declares_query] at hv
  exact absurd hv (by simp)

/-- The entries of the match are the declared entries, in the order of the parts. -/
theorem perm_declared {t : Template} (hnames : t.names.Nodup) {c : Captures} (hc : c.keys.Nodup)
    {pieces : List String} {dotted? : Option String} {es : List Entry}
    (h : Part.Fits t.parts pieces dotted? es)
    (hes : ∀ e ∈ es, (t.fillGlob [] c).get? e.1 = some e.2) :
    es.Perm (t.fillGlob [] (c.filterKeys t.declares)).entries := by
  have hkeys : (es.map Prod.fst).Nodup := by
    rw [h.keys_eq]
    exact nodup_keys_names hnames
  have hdeclared := nodup_fillGlob t [] (Captures.nodup_filterKeys hc t.declares)
  -- keys are distinct on both sides, so it is enough to hold the same entries
  refine (List.perm_ext_iff_of_nodup (Captures.nodup_of_keys hkeys)
    (Captures.nodup_of_keys hdeclared)).2 ?_
  rintro ⟨k, v⟩
  rw [Captures.mem_entries_iff hdeclared, get?_fillGlob_filterKeys]
  have hmem : t.declares k = true ↔ k ∈ es.map Prod.fst := by
    rw [declares_iff, names, ← h.keys_eq]
  constructor
  · intro he
    rw [if_pos (hmem.2 (List.mem_map_of_mem he))]
    exact hes _ he
  · intro hv
    by_cases hk : t.declares k = true
    · rw [if_pos hk] at hv
      obtain ⟨⟨l, w⟩, he, rfl⟩ := List.mem_map.1 (hmem.1 hk)
      have hw := hes _ he
      rw [hv] at hw
      rwa [Option.some.inj hw]
    · rw [if_neg hk] at hv
      exact absurd hv (by simp)

/-- The query that is written behind the path, and what it is read as. -/
theorem queryTail_eq {c : Captures} (h : ∀ e ∈ c.entries, Query.Writable e) :
    ∃ query? : Option String, queryTail c = (query?.map ("?" ++ ·)).getD "" ∧
      Part.queryEntries query? = (c.entries.foldl Query.pushTexts Captures.empty).entries := by
  by_cases hc : c.entries = []
  · refine ⟨none, if_pos hc, ?_⟩
    rw [hc]
    rfl
  · refine ⟨some (Query.write c), if_neg hc, ?_⟩
    rw [← Query.read_write h]
    rfl

/-- What comes back are the declared entries, and behind them what the query gives. -/
theorem entries_returned (t : Template) (c : Captures) :
    (t.returned c).entries = (t.fillGlob [] (c.filterKeys t.declares)).entries ++
      ((c.filterKeys fun k => !t.declares k).entries.foldl Query.pushTexts
        Captures.empty).entries :=
  Query.entries_foldl_pushTexts (query_not_mem_keys_declared t [] c) _

/-- What is written is read again as a match that holds the declared entries, with a query that
holds all others. -/
theorem Regular.capture?_render {t : Template} (ht : t.Regular) (hnames : t.names.Nodup)
    (hlast : t.parts.Pairwise fun p q => p.isGlob = true → q.isLiteral = false)
    {c : Captures} (hc : c.keys.Nodup) (hfill : t.Fillable c) :
    ∃ es : List Entry, es.Perm (t.fillGlob [] (c.filterKeys t.declares)).entries ∧
      t.capture? (t.render c) = some ⟨es ++
        ((c.filterKeys fun k => !t.declares k).entries.foldl Query.pushTexts
          Captures.empty).entries⟩ := by
  -- with the glob filled the captures are a match
  obtain ⟨pieces, dotted?, es, hfits, hpieces, hdotted, hes⟩ :=
    Part.exists_fits ht.ordered hlast (ht.ready hfill)
  have hothers : (t.leftover (t.fillGlob [] c)).entries =
      (c.filterKeys fun k => !t.declares k).entries :=
    entries_leftover_fillGlob t [] hc
  -- and what is left can stand in a query
  have hwritable : ∀ e ∈ (t.leftover (t.fillGlob [] c)).entries, Query.Writable e := by
    intro e he
    rw [hothers] at he
    obtain ⟨hmem, hk⟩ := List.mem_filter.1 he
    exact hfill.others e hmem (by simpa using hk)
  obtain ⟨query?, htail, hquery⟩ := queryTail_eq hwritable
  refine ⟨es, perm_declared hnames hc hfits hes, ?_⟩
  rw [render_eq, write_eq hnames hfits hes, htail,
    ht.capture?_text hfits hpieces hdotted query?, ← hothers, ← hquery]
  exact congrArg (fun entries => some (Captures.mk entries)) (entries_match hnames hfits)

/-- What is written and read again **comes back**: the declared entries as they were, an open glob
as an empty list, and all else under keys of the query. -/
theorem capture?_render_perm_returned {t : Template} (h : t.Reachable) (hnames : t.names.Nodup)
    (hlast : t.parts.Pairwise fun p q => p.isGlob = true → q.isLiteral = false)
    {params : Captures} (hparams : params.Reachable) (hfill : t.Fillable params) :
    ∃ c, t.capture? (t.render params) = some c ∧
      c.entries.Perm (t.returned params).entries := by
  obtain ⟨es, hdeclared, hcapture⟩ :=
    h.regular.capture?_render hnames hlast hparams.nodup hfill
  refine ⟨_, hcapture, ?_⟩
  rw [entries_returned]
  exact hdeclared.append_right _

/-- The glob is open, the extension is empty, and two keys of different kinds share a text. -/
theorem capture?_render_perm_returned_users :
    ∃ (t : Template) (params c : Captures), ofPattern "/users/:id/*rest.fmt" = .ok t ∧
      t.Fillable params ∧ t.render params = "/users/7.?v=1&v=2&v=3" ∧
        t.capture? (t.render params) = some c ∧
          c.entries.Perm [(.name "id", .single "7"), (.name "fmt", .single ""),
            (.name "rest", .list []), (.query "v", .list ["1", "2", "3"])] := by
  let t : Template := ⟨true, [.literal "users", .var "id", .glob "rest", .format "fmt"]⟩
  let params : Captures := ⟨[(.query "v", .list ["1", "2"]), (.name "id", .single "7"),
    (.name "v", .single "3"), (.name "fmt", .single "")]⟩
  have h : ofPattern "/users/:id/*rest.fmt" = .ok t := rfl
  have hfill : t.Fillable params := by
    refine ⟨fun name hn => ?_, fun name hn => ?_, fun name hn => ?_, ?_⟩
    · obtain rfl : name = "id" := by simpa [t] using hn
      exact ⟨"7", by decide, by decide⟩
    · obtain rfl : name = "rest" := by simpa [t] using hn
      exact .inl (by decide)
    · obtain rfl : name = "fmt" := by simpa [t] using hn
      exact ⟨"", by decide, by decide⟩
    · exact (by decide : ∀ e ∈ params.entries,
        t.declares e.1 = false → Query.Writable e)
  obtain ⟨c, hc, hperm⟩ := capture?_render_perm_returned (.ofPattern h) (by decide) (by decide)
    (Captures.reachable_iff.2 (by decide)) hfill
  have hreturned : (t.returned params).entries = [(.name "id", .single "7"),
      (.name "fmt", .single ""), (.name "rest", .list []),
      (.query "v", .list ["1", "2", "3"])] := by decide
  exact ⟨t, params, c, h, hfill, by decide +kernel, hc, hreturned ▸ hperm⟩

end Template

end RoutePattern
