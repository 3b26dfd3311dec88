/-
The shape of a template and the inputs that it matches.

Two templates of one shape walk an input in the same way, and their captures
differ in names only (`Part.Fits.of_shape`). The other way round, the inputs tell
the shape, unless a literal stands behind a glob and there are no inputs at all.
It is enough to look at pieces and extensions, and the first parts of two
templates are told apart by few of them: by none at all if one part takes exactly
one piece and the other does not, by a single piece if one is a glob and the other
a format, and by a piece that is not its text if one is a literal. Since what the
rest of the parts takes is known to be something (`Matchable.counts_sample`),
nothing hides behind the first part, and the induction goes on with the rest
(`shape_eq_of_alike`).

So a router that refuses a template for its shape refuses it exactly because it
has its inputs already.
-/
import RoutePattern.Proofs.RoundTrip
import RoutePattern.Router

set_option autoImplicit false

namespace RoutePattern

namespace Part

/-! ## From shapes to matches -/

/-- Parts of one shape fit the same pieces, and they capture the same values. -/
theorem Fits.of_shape {ps qs : List Part} {pieces : List String} {dotted? : Option String}
    {es : List Entry} (h : Fits ps pieces dotted? es) (hshape : ps.map shape = qs.map shape) :
    ∃ fs, Fits qs pieces dotted? fs ∧ fs.map Prod.snd = es.map Prod.snd := by
  have hcons : ∀ {s : Shape} {ss : List Shape} {qs : List Part}, s :: ss = qs.map shape →
      ∃ q rest, qs = q :: rest ∧ q.shape = s ∧ ss = rest.map shape := by
    intro s ss qs hqs
    cases qs with
    | nil => exact absurd hqs (by simp)
    | cons q rest =>
        obtain ⟨hs, hss⟩ := List.cons.inj hqs
        exact ⟨q, rest, rfl, hs.symm, hss⟩
  induction h generalizing qs with
  | nil =>
      obtain rfl : qs = [] := List.map_eq_nil_iff.1 hshape.symm
      exact ⟨[], .nil, rfl⟩
  | literal text _ ih =>
      obtain ⟨q, rest, rfl, hq, hrest⟩ := hcons hshape
      obtain ⟨fs, hfits, hvalues⟩ := ih hrest
      cases q with
      | literal text' =>
          obtain rfl : text' = text := Shape.literal.inj hq
          exact ⟨fs, hfits.literal text', hvalues⟩
      | _ => exact absurd hq (by simp [shape])
  | var name piece _ ih =>
      obtain ⟨q, rest, rfl, hq, hrest⟩ := hcons hshape
      obtain ⟨fs, hfits, hvalues⟩ := ih hrest
      cases q with
      | var name' => exact ⟨_, hfits.var name' piece, congrArg (Value.single piece :: ·) hvalues⟩
      | _ => exact absurd hq (by simp [shape])
  | glob name pieces _ ih =>
      obtain ⟨q, rest, rfl, hq, hrest⟩ := hcons hshape
      obtain ⟨fs, hfits, hvalues⟩ := ih hrest
      cases q with
      | glob name' => exact ⟨_, hfits.glob name' pieces, congrArg (Value.list pieces :: ·) hvalues⟩
      | _ => exact absurd hq (by simp [shape])
  | format name text =>
      obtain ⟨q, rest, rfl, hq, hrest⟩ := hcons hshape
      obtain rfl : rest = [] := List.map_eq_nil_iff.1 hrest.symm
      cases q with
      | format name' => exact ⟨_, .format name' text, rfl⟩
      | _ => exact absurd hq (by simp [shape])

/-! ## Parts that fit something -/

/-- Parts as a template has them that matches an input at all. -/
structure Matchable (ps : List Part) : Prop where
  named : ∀ p ∈ ps, p.Named
  ordered : ps.Pairwise MayPrecede
  glob_last : ps.Pairwise fun p q => p.isGlob = true → q.isLiteral = false

theorem Matchable.tail {p : Part} {ps : List Part} (h : Matchable (p :: ps)) : Matchable ps :=
  ⟨fun q hq => h.named q (List.mem_cons_of_mem _ hq), (List.pairwise_cons.1 h.ordered).2,
    (List.pairwise_cons.1 h.glob_last).2⟩

/-- A piece for each part that takes exactly one: the text of a literal, and the name of a variable
as its own value. -/
def samplePieces (ps : List Part) : List String := (ps.filter isSolid).map text

/-- An extension if there has to be one. -/
def sampleExtension? (ps : List Part) : Option String :=
  if ps.any isFormat then some "" else none

theorem Matchable.counts_sample {ps : List Part} (h : Matchable ps) :
    Counts ps (samplePieces ps) (sampleExtension? ps) where
  glob_last := h.glob_last
  dotted_iff := by
    rw [sampleExtension?]
    cases ps.any isFormat <;> rfl
  enough := Nat.le_of_eq (List.length_map _).symm
  no_more := fun _ => List.length_map _
  takes := by
    intro a ha
    rw [samplePieces, ← List.map_prod_left_eq_zip] at ha
    obtain ⟨p, -, rfl⟩ := List.mem_map.1 ha
    cases p <;> simp [text]

theorem Matchable.solid_sample {ps : List Part} (h : Matchable ps) :
    ∀ piece ∈ samplePieces ps, Input.Solid piece := by
  intro piece hpiece
  obtain ⟨p, hp, rfl⟩ := List.mem_map.1 hpiece
  exact h.named p (List.mem_filter.1 hp).1

theorem plain_sample (ps : List Part) : ∀ e ∈ sampleExtension? ps, Token.Plain e := by
  intro e he
  rw [sampleExtension?] at he
  split at he
  · obtain rfl : "" = e := Option.some.inj he
    decide
  · exact absurd he (by simp)

/-- From a glob or a format on, no part takes exactly one piece. -/
theorem Matchable.samplePieces_eq_nil {p : Part} {ps : List Part} (h : Matchable (p :: ps))
    (hp : p.isSolid = false) : samplePieces (p :: ps) = [] := by
  obtain ⟨horder, -⟩ := List.pairwise_cons.1 h.ordered
  obtain ⟨hlast, -⟩ := List.pairwise_cons.1 h.glob_last
  have hsolid : ∀ q ∈ p :: ps, ¬ q.isSolid = true := by
    rintro q hq hs
    rcases List.mem_cons.1 hq with rfl | hmem
    · rw [hp] at hs
      exact absurd hs (by decide)
    · cases p with
      | literal text => exact absurd hp (by simp)
      | var name => exact absurd hp (by simp)
      | glob name =>
          have hvar := ((horder q hmem).2 rfl).1
          have hliteral := hlast q hmem rfl
          cases q <;> simp_all
      | format name => exact absurd (horder q hmem).1 (by simp)
  rw [samplePieces, List.filter_eq_nil_iff.2 hsolid]
  rfl

/-! ## From matches to shapes -/

/-- Two lists of parts that the same pieces and extensions fit. -/
def Alike (ps qs : List Part) : Prop :=
  ∀ (pieces : List String) (dotted? : Option String), (∀ piece ∈ pieces, Input.Solid piece) →
    (∀ e ∈ dotted?, Token.Plain e) → (Counts ps pieces dotted? ↔ Counts qs pieces dotted?)

theorem Alike.symm {ps qs : List Part} (h : Alike ps qs) : Alike qs ps :=
  fun pieces dotted? hpieces hdotted => (h pieces dotted? hpieces hdotted).symm

section Alike

variable {p q : Part} {ps qs : List Part}

/-- What fits the one list when each part takes what it is called fits the other list too. -/
theorem Alike.counts_sample (h : Alike ps qs) (hps : Matchable ps) :
    Counts qs (samplePieces ps) (sampleExtension? ps) :=
  (h _ _ hps.solid_sample (plain_sample ps)).1 hps.counts_sample

/-- A glob takes one piece more, or any number. -/
theorem counts_glob_more {name : String} (h : Matchable (glob name :: ps))
    {pieces pieces' : List String} {dotted? : Option String}
    (hcounts : Counts (glob name :: ps) pieces dotted?) :
    Counts (glob name :: ps) pieces' dotted? := by
  have horder := (List.pairwise_cons.1 h.ordered).1
  exact (counts_glob_iff horder).2 ((counts_glob_iff horder).1 hcounts)

theorem solid_x : ∀ piece ∈ ["x"], Input.Solid piece := by decide

theorem Alike.nil_eq (hqs : Matchable qs) (h : Alike [] qs) : qs = [] := by
  have hnil : Counts qs [] none := (h [] none (by simp) (by simp)).1 (counts_nil_iff.2 ⟨rfl, rfl⟩)
  cases qs with
  | nil => rfl
  | cons q qs =>
      exfalso
      cases q with
      | literal text =>
          obtain ⟨_, _, hpieces, -, -⟩ := (counts_solid_iff rfl).1 hnil
          exact absurd hpieces (by simp)
      | var name =>
          obtain ⟨_, _, hpieces, -, -⟩ := (counts_solid_iff rfl).1 hnil
          exact absurd hpieces (by simp)
      | glob name =>
          have hmore := (h ["x"] none solid_x (by simp)).2 (counts_glob_more hqs hnil)
          exact absurd (counts_nil_iff.1 hmore).1 (by simp)
      | format name =>
          obtain rfl := eq_nil_of_format_mayPrecede (List.pairwise_cons.1 hqs.ordered).1
          obtain ⟨text, htext⟩ := (counts_format_iff.1 hnil).2
          exact absurd htext (by simp)

/-- No piece at all is for parts of which the first one takes not exactly one. -/
theorem Alike.isSolid_eq_false (h : Alike (p :: ps) (q :: qs)) (hps : Matchable (p :: ps))
    (hp : p.isSolid = false) : q.isSolid = false := by
  have hcounts := h.counts_sample hps
  rw [hps.samplePieces_eq_nil hp] at hcounts
  cases hq : q.isSolid with
  | false => rfl
  | true =>
      obtain ⟨_, _, hpieces, -, -⟩ := (counts_solid_iff hq).1 hcounts
      exact absurd hpieces (by simp)

/-- One piece is for a glob and not for a format. -/
theorem Alike.not_format_of_glob {name other : String}
    (h : Alike (glob name :: ps) (format other :: qs)) (hps : Matchable (glob name :: ps))
    (hqs : Matchable (format other :: qs)) : False := by
  have hmore : Counts (glob name :: ps) ["x"] (sampleExtension? (glob name :: ps)) :=
    counts_glob_more hps hps.counts_sample
  have hcounts := (h _ _ solid_x (plain_sample _)).1 hmore
  obtain rfl := eq_nil_of_format_mayPrecede (List.pairwise_cons.1 hqs.ordered).1
  exact absurd (counts_format_iff.1 hcounts).1 (by simp)

/-- What the rests take does not hang on the first piece. -/
theorem Alike.takes (h : Alike (p :: ps) (q :: qs)) (hps : Matchable (p :: ps))
    (hp : p.isSolid = true) (hq : q.isSolid = true) {piece : String} (hpiece : Input.Solid piece)
    (htakes : p.Takes piece) : q.Takes piece := by
  have hcounts : Counts (p :: ps) (piece :: samplePieces ps) (sampleExtension? ps) :=
    (counts_solid_iff hp).2 ⟨piece, _, rfl, htakes, hps.tail.counts_sample⟩
  have hpieces := List.forall_mem_cons.2 ⟨hpiece, hps.tail.solid_sample⟩
  obtain ⟨_, _, heq, hq, -⟩ :=
    (counts_solid_iff hq).1 ((h _ _ hpieces (plain_sample ps)).1 hcounts)
  obtain ⟨rfl, -⟩ := List.cons.inj heq
  exact hq

/-- A text that is a literal, with more behind it. -/
theorem solid_append_x {text : String} (h : Input.Solid text) : Input.Solid (text ++ "x") := by
  refine ⟨by simp, fun c hc => ?_⟩
  rw [String.toList_append] at hc
  rcases List.mem_append.1 hc with hc | hc
  · exact h.2 c hc
  · obtain rfl : c = 'x' := by simpa using hc
    decide

theorem not_takes_append_x (text : String) : ¬ (literal text).Takes (text ++ "x") := by
  intro h
  have hlength := congrArg String.length h
  rw [String.length_append] at hlength
  exact absurd hlength (by simp)

/-- Parts that take the same pieces have one shape: only a literal refuses any. -/
theorem shape_eq_of_takes (hp : p.Named) (hq : q.Named) (hpsolid : p.isSolid = true)
    (hqsolid : q.isSolid = true)
    (h : ∀ piece, Input.Solid piece → (p.Takes piece ↔ q.Takes piece)) : p.shape = q.shape := by
  cases p with
  | literal text =>
      cases q with
      | literal other =>
          obtain rfl : other = text := (h text hp).1 rfl
          rfl
      | var name =>
          exact absurd ((h _ (solid_append_x hp)).2 trivial) (not_takes_append_x text)
      | _ => exact absurd hqsolid (by simp)
  | var name =>
      cases q with
      | literal other =>
          exact absurd ((h _ (solid_append_x hq)).1 trivial) (not_takes_append_x other)
      | var other => rfl
      | _ => exact absurd hqsolid (by simp)
  | _ => exact absurd hpsolid (by simp)

/-- Where the first parts take the same pieces, the rests are alike. -/
theorem Alike.tail_of_solid (h : Alike (p :: ps) (q :: qs)) (hp : p.isSolid = true)
    (hq : q.isSolid = true) {piece : String} (hpiece : Input.Solid piece) (hpt : p.Takes piece)
    (hqt : q.Takes piece) : Alike ps qs := by
  intro pieces dotted? hpieces hdotted
  have hall := h (piece :: pieces) dotted? (List.forall_mem_cons.2 ⟨hpiece, hpieces⟩) hdotted
  have hone : ∀ {r : Part} {rs : List Part}, r.isSolid = true → r.Takes piece →
      (Counts (r :: rs) (piece :: pieces) dotted? ↔ Counts rs pieces dotted?) := by
    intro r rs hr hrt
    rw [counts_solid_iff hr]
    constructor
    · rintro ⟨_, _, heq, -, hcounts⟩
      obtain ⟨-, rfl⟩ := List.cons.inj heq
      exact hcounts
    · intro hcounts
      exact ⟨piece, pieces, rfl, hrt, hcounts⟩
  rw [hone hp hpt, hone hq hqt] at hall
  exact hall

/-- Behind a glob no piece is left, so the rests are alike. -/
theorem Alike.tail_of_glob {name other : String} (h : Alike (glob name :: ps) (glob other :: qs))
    (hps : Matchable (glob name :: ps)) (hqs : Matchable (glob other :: qs)) : Alike ps qs := by
  have hnone : ∀ {n : String} {rs : List Part}, Matchable (glob n :: rs) →
      ∀ {pieces : List String} {dotted? : Option String}, Counts rs pieces dotted? →
        pieces = [] := by
    intro n rs hrs pieces dotted? hcounts
    have horder := (List.pairwise_cons.1 hrs.ordered).1
    have hsolid := hrs.samplePieces_eq_nil rfl
    have hglob : rs.any isGlob = false := by
      rw [List.any_eq_false]
      intro r hr hg
      rw [((horder r hr).2 rfl).2] at hg
      exact absurd hg (by decide)
    have hlength := hcounts.no_more hglob
    have hzero : (rs.filter isSolid).length = 0 := by
      have := congrArg List.length hsolid
      rwa [samplePieces, List.length_map] at this
    rw [hzero] at hlength
    exact List.eq_nil_of_length_eq_zero hlength
  intro pieces dotted? hpieces hdotted
  have hall := h [] dotted? (by simp) hdotted
  rw [counts_glob_iff (List.pairwise_cons.1 hps.ordered).1,
    counts_glob_iff (List.pairwise_cons.1 hqs.ordered).1] at hall
  constructor
  · intro hcounts
    obtain rfl := hnone hps hcounts
    exact hall.1 hcounts
  · intro hcounts
    obtain rfl := hnone hqs hcounts
    exact hall.2 hcounts

end Alike

/-- What the parts fit **tells their shape**. -/
theorem shape_eq_of_alike {ps qs : List Part} (hps : Matchable ps) (hqs : Matchable qs)
    (h : Alike ps qs) : ps.map shape = qs.map shape := by
  induction ps generalizing qs with
  | nil => rw [h.nil_eq hqs]
  | cons p ps ih =>
      cases qs with
      | nil => rw [h.symm.nil_eq hps]
      | cons q qs =>
          rw [List.map_cons, List.map_cons]
          cases hp : p.isSolid with
          | true =>
              have hq : q.isSolid = true := by
                cases hq : q.isSolid with
                | true => rfl
                | false =>
                    rw [h.symm.isSolid_eq_false hqs hq] at hp
                    exact absurd hp (by decide)
              have hpn := hps.named p List.mem_cons_self
              have hpt : p.Takes p.text := by cases p <;> simp [text]
              have hqt := h.takes hps hp hq hpn hpt
              have hshape : p.shape = q.shape :=
                shape_eq_of_takes hpn (hqs.named q List.mem_cons_self) hp hq fun _ hpiece =>
                  ⟨h.takes hps hp hq hpiece, h.symm.takes hqs hq hp hpiece⟩
              rw [hshape, ih hps.tail hqs.tail (h.tail_of_solid hp hq hpn hpt hqt)]
          | false =>
              have hq := h.isSolid_eq_false hps hp
              cases p with
              | literal text => exact absurd hp (by simp)
              | var name => exact absurd hp (by simp)
              | glob name =>
                  cases q with
                  | literal text => exact absurd hq (by simp)
                  | var other => exact absurd hq (by simp)
                  | glob other => rw [ih hps.tail hqs.tail (h.tail_of_glob hps hqs)]; rfl
                  | format other => exact absurd (h.not_format_of_glob hps hqs) id
              | format name =>
                  cases q with
                  | literal text => exact absurd hq (by simp)
                  | var other => exact absurd hq (by simp)
                  | glob other => exact absurd (h.symm.not_format_of_glob hqs hps) id
                  | format other =>
                      obtain rfl :=
                        eq_nil_of_format_mayPrecede (List.pairwise_cons.1 hps.ordered).1
                      obtain rfl :=
                        eq_nil_of_format_mayPrecede (List.pairwise_cons.1 hqs.ordered).1
                      rfl

end Part

/-- Whether a key is one of a query. -/
def Key.isQuery : Key → Bool
  | .name _ => false
  | .query _ => true

namespace Template

/-! ## Inputs of templates -/

/-- No literal stands behind a glob, where it would never be met. -/
def Live (t : Template) : Prop :=
  t.parts.Pairwise fun p q => p.isGlob = true → q.isLiteral = false

instance (t : Template) : Decidable t.Live :=
  inferInstanceAs (Decidable (t.parts.Pairwise fun p q => p.isGlob = true → q.isLiteral = false))

theorem Regular.matchable {t : Template} (ht : t.Regular) (hlive : t.Live) :
    Part.Matchable t.parts :=
  ⟨ht.named, ht.ordered, hlive⟩

theorem Regular.accepts_iff {t : Template} (ht : t.Regular) {s : String} :
    t.accepts s = true ↔ ((Input.path s).head? = some '/' ↔ t.rooted = true) ∧
      Input.Readable s ∧ ∃ es, Part.Fits t.parts (Input.pieces s) (Input.extension? s) es := by
  rw [accepts, Option.isSome_iff_exists]
  constructor
  · rintro ⟨c, hc⟩
    obtain ⟨hroot, hread, es, hfits, -⟩ := ht.capture?_eq_some_iff.1 hc
    exact ⟨hroot, hread, es, hfits⟩
  · rintro ⟨hroot, hread, es, hfits⟩
    exact ⟨_, ht.capture?_eq_some_iff.2 ⟨hroot, hread, es, hfits, rfl⟩⟩

/-- The text of pieces and an extension is matched where these count out. -/
theorem Regular.accepts_text_iff {t : Template} (ht : t.Regular) (isRooted : Bool)
    {pieces : List String} {dotted? : Option String}
    (hpieces : ∀ piece ∈ pieces, Input.Solid piece) (hdotted : ∀ e ∈ dotted?, Token.Plain e) :
    t.accepts (Input.text isRooted pieces dotted?) = true ↔
      isRooted = t.rooted ∧ Part.Counts t.parts pieces dotted? := by
  obtain ⟨hroot, hread, hp, he, -⟩ :=
    Input.text_spec hpieces hdotted isRooted none String.append_empty.symm
  rw [ht.accepts_iff, hp, he, hroot]
  constructor
  · rintro ⟨hrooted, -, es, hfits⟩
    refine ⟨?_, ((Part.fits_iff ht.ordered _ _ _).1 hfits).1⟩
    cases hr : t.rooted <;> simp_all
  · rintro ⟨rfl, hcounts⟩
    exact ⟨Iff.rfl, hread, _, (Part.fits_iff ht.ordered _ _ _).2 ⟨hcounts, rfl⟩⟩

/-- Templates of one shape match the same inputs. -/
theorem Regular.accepts_of_shape {t u : Template} (ht : t.Regular) (hu : u.Regular)
    (h : t.shape = u.shape) {s : String} (hs : t.accepts s = true) : u.accepts s = true := by
  obtain ⟨hrooted, hparts⟩ := Shape.mk.inj h
  obtain ⟨hroot, hread, es, hfits⟩ := ht.accepts_iff.1 hs
  obtain ⟨fs, hfits', -⟩ := hfits.of_shape hparts
  rw [hrooted] at hroot
  exact hu.accepts_iff.2 ⟨hroot, hread, fs, hfits'⟩

/-- Templates that match the same inputs, and some, have one shape. -/
theorem Regular.shape_eq_of_accepts {t u : Template} (ht : t.Regular) (hu : u.Regular)
    (hlive : t.Live) (h : ∀ s, u.accepts s = t.accepts s) : u.shape = t.shape := by
  have hmatchable := ht.matchable hlive
  have htext : ∀ {pieces : List String} {dotted? : Option String},
      (∀ piece ∈ pieces, Input.Solid piece) → (∀ e ∈ dotted?, Token.Plain e) →
        (Part.Counts t.parts pieces dotted? ↔
          t.rooted = u.rooted ∧ Part.Counts u.parts pieces dotted?) := by
    intro pieces dotted? hpieces hdotted
    rw [← hu.accepts_text_iff t.rooted hpieces hdotted, h,
      ht.accepts_text_iff t.rooted hpieces hdotted]
    exact ⟨fun hcounts => ⟨rfl, hcounts⟩, fun hcounts => hcounts.2⟩
  -- that some input is matched tells the slash in front, and that the other template is live too
  obtain ⟨hrooted, hsample⟩ :=
    (htext hmatchable.solid_sample (Part.plain_sample _)).1 hmatchable.counts_sample
  have halike : Part.Alike u.parts t.parts := by
    intro pieces dotted? hpieces hdotted
    rw [htext hpieces hdotted]
    exact ⟨fun hcounts => ⟨hrooted, hcounts⟩, fun hcounts => hcounts.2⟩
  have hparts := Part.shape_eq_of_alike (hu.matchable hsample.glob_last) hmatchable halike
  rw [shape, shape, hrooted, hparts]

/-! ## Captures of templates of one shape -/

/-- The entry of a name stands where the name does. -/
theorem getElem?_of_names {names : List String} {es : List Entry}
    (hkeys : es.map Prod.fst = names.map Key.name) {i : Nat} {name : String}
    (h : names[i]? = some name) : ∃ v, es[i]? = some (.name name, v) := by
  have hkey : (es.map Prod.fst)[i]? = some (Key.name name) := by
    rw [hkeys, List.getElem?_map, h]
    rfl
  rw [List.getElem?_map] at hkey
  obtain ⟨⟨k, v⟩, he, rfl⟩ := Option.map_eq_some_iff.1 hkey
  exact ⟨v, he⟩

/-- Of what was read, the keys of the query have the entries of the query. -/
theorem filterKeys_isQuery_match {t : Template} (hnames : t.names.Nodup) {pieces : List String}
    {dotted? : Option String} {es : List Entry} (h : Part.Fits t.parts pieces dotted? es)
    (query? : Option String) :
    (Captures.ofList (es ++ Part.queryEntries query?)).filterKeys Key.isQuery =
      ⟨Part.queryEntries query?⟩ := by
  have hes : es.filter (fun e => e.1.isQuery) = [] := by
    refine List.filter_eq_nil_iff.2 fun e he => ?_
    have hk : e.1 ∈ es.map Prod.fst := List.mem_map_of_mem he
    rw [h.keys_eq] at hk
    obtain ⟨name, -, hname⟩ := List.mem_map.1 hk
    rw [← hname]
    exact Bool.false_ne_true
  have hquery : (Part.queryEntries query?).filter (fun e => e.1.isQuery) =
      Part.queryEntries query? := by
    refine List.filter_eq_self.2 fun e he => ?_
    cases query? with
    | none => exact absurd he List.not_mem_nil
    | some q =>
        obtain ⟨text, hk⟩ := Query.keys_read (List.mem_map_of_mem he)
        rw [hk]
        rfl
  rw [Captures.filterKeys, entries_match hnames h, List.filter_append, hes, hquery,
    List.nil_append]

/-- Templates of one shape capture the same values, each under its own names. -/
theorem Regular.captures_of_shape {t u : Template} (ht : t.Regular) (hu : u.Regular)
    (htn : t.names.Nodup) (hun : u.names.Nodup) (h : t.shape = u.shape) {s : String}
    {c d : Captures} (hc : t.capture? s = some c) (hd : u.capture? s = some d) :
    (∀ (i : Nat) (name other : String), t.names[i]? = some name → u.names[i]? = some other →
      ∃ v, c.name? name = some v ∧ d.name? other = some v) ∧
        c.filterKeys Key.isQuery = d.filterKeys Key.isQuery := by
  obtain ⟨es, hfits, rfl, hget, hread, hrooted⟩ := ht.match_of_capture? htn hc
  obtain ⟨fs, hfits', rfl, hget', -, -⟩ := hu.match_of_capture? hun hd
  -- the match of the one is a match of the other, and a match is told by its parts and pieces
  have hvalues : fs.map Prod.snd = es.map Prod.snd := by
    obtain ⟨gs, hfits'', hvalues⟩ := hfits.of_shape (Shape.mk.inj h).2
    rw [((Part.fits_iff hu.ordered _ _ _).1 hfits').2,
      ← ((Part.fits_iff hu.ordered _ _ _).1 hfits'').2]
    exact hvalues
  constructor
  · intro i name other hname hother
    obtain ⟨v, hv⟩ := getElem?_of_names hfits.keys_eq hname
    obtain ⟨w, hw⟩ := getElem?_of_names hfits'.keys_eq hother
    have hvw : w = v := by
      have hi := congrArg (·[i]?) hvalues
      simpa [List.getElem?_map, hv, hw] using hi
    rw [hvw] at hw
    exact ⟨v, hget _ (List.mem_of_getElem? hv), hget' _ (List.mem_of_getElem? hw)⟩
  · rw [filterKeys_isQuery_match htn hfits, filterKeys_isQuery_match hun hfits']

end Template

namespace Router

variable {α : Type}

/-! ## Routers -/

/-- The routers that can be built. -/
inductive Reachable : Router α → Prop where
  | empty : Reachable empty
  | insertTemplate {r r' : Router α} {t : Template} {a : α} : Reachable r → t.Reachable →
      r.insertTemplate t a = .ok r' → Reachable r'
  | insert {r r' : Router α} {p : String} {a : α} : Reachable r → r.insert p a = .ok r' →
      Reachable r'
  | modify {r : Router α} (f : α → α) (input : String) : Reachable r →
      Reachable (r.modify f input)
  | clear {r : Router α} : Reachable r → Reachable r.clear

/-- A template that is refused has a shape that is there; any other comes last. -/
theorem insertTemplate_eq_ok_iff {r r' : Router α} {t : Template} {a : α} :
    r.insertTemplate t a = .ok r' ↔ t.shape ∉ r.shapes ∧ r' = ⟨r.routes ++ [(t, a)]⟩ := by
  rw [insertTemplate]
  by_cases h : t.shape ∈ r.shapes
  · simp [h]
  · simp [h, eq_comm]

theorem insertTemplate_eq_collision_iff {r : Router α} {t : Template} {a : α} :
    r.insertTemplate t a = .error .collision ↔ ∃ u ∈ r.templates, u.shape = t.shape := by
  rw [insertTemplate, shapes]
  by_cases h : t.shape ∈ r.templates.map Template.shape
  · simpa [h] using List.mem_map.1 h
  · simpa [h] using fun u hu hshape => h (List.mem_map.2 ⟨u, hu, hshape⟩)

/-- Inserting a pattern is inserting the template that it compiles to. -/
theorem exists_of_insert_eq_ok {r r' : Router α} {p : String} {a : α}
    (h : r.insert p a = .ok r') :
    ∃ t, Template.ofPattern p = .ok t ∧ r.insertTemplate t a = .ok r' := by
  rw [insert] at h
  obtain ⟨t, ht, hinsert⟩ := exists_of_bind_eq_ok h
  cases hp : Template.ofPattern p with
  | error fault =>
      rw [hp] at ht
      have herror : Except.error (InsertFault.pattern fault) = Except.ok t := ht
      exact absurd herror (by simp)
  | ok u =>
      rw [hp] at ht
      obtain rfl : u = t := Except.ok.inj ht
      exact ⟨u, rfl, hinsert⟩

/-- A datum that changes leaves the templates as they are. -/
theorem templates_modify (r : Router α) (f : α → α) (input : String) :
    (r.modify f input).templates = r.templates := by
  obtain ⟨routes⟩ := r
  rw [templates, templates, modify]
  induction routes with
  | nil => rfl
  | cons route routes ih =>
      obtain ⟨t, a⟩ := route
      rw [modifyFirst]
      by_cases h : t.accepts input = true
      · rw [if_pos h]
        rfl
      · rw [if_neg h, List.map_cons, ih]
        rfl

/-- In a router that can be built all templates can be built. -/
theorem Reachable.reachable_of_mem {r : Router α} (h : r.Reachable) :
    ∀ t ∈ r.templates, t.Reachable := by
  have hinserted : ∀ {r r' : Router α} {t : Template} {a : α},
      (∀ u ∈ r.templates, u.Reachable) → t.Reachable → r.insertTemplate t a = .ok r' →
        ∀ u ∈ r'.templates, u.Reachable := by
    intro r r' t a hr ht hinsert u hu
    obtain ⟨-, rfl⟩ := insertTemplate_eq_ok_iff.1 hinsert
    rw [templates, List.map_append] at hu
    rcases List.mem_append.1 hu with hu | hu
    · exact hr u hu
    · obtain rfl : u = t := by simpa using hu
      exact ht
  induction h with
  | empty => exact fun t ht => absurd ht List.not_mem_nil
  | insertTemplate _ ht hinsert ih => exact hinserted ih ht hinsert
  | insert _ hinsert ih =>
      obtain ⟨t, hp, hinsert⟩ := exists_of_insert_eq_ok hinsert
      exact hinserted ih (.ofPattern hp) hinsert
  | modify f input _ ih =>
      intro t ht
      rw [templates_modify] at ht
      exact ih t ht
  | clear _ _ => exact fun t ht => absurd ht List.not_mem_nil

/-- A template is refused **exactly if the inputs that it matches are those of a template that is
there**. Whether templates match anything or not, those of one shape match the same inputs, and what
they capture differs in names only. -/
theorem collision_iff_same_inputs :
    (∀ (r : Router α) (t : Template) (a : α), r.Reachable → t.Reachable → t.Live →
      (r.insertTemplate t a = .error .collision ↔
        ∃ u ∈ r.templates, ∀ s, u.accepts s = t.accepts s)) ∧
    ∀ t u : Template, t.Reachable → u.Reachable → t.shape = u.shape →
      (∀ s, t.accepts s = u.accepts s) ∧
      (t.names.Nodup → u.names.Nodup → ∀ (s : String) (c d : Captures),
        t.capture? s = some c → u.capture? s = some d →
          (∀ (i : Nat) (name other : String), t.names[i]? = some name →
            u.names[i]? = some other → ∃ v, c.name? name = some v ∧ d.name? other = some v) ∧
          c.filterKeys Key.isQuery = d.filterKeys Key.isQuery) := by
  have hsame : ∀ t u : Template, t.Reachable → u.Reachable → t.shape = u.shape →
      ∀ s, t.accepts s = u.accepts s := by
    intro t u ht hu h s
    apply Bool.eq_iff_iff.2
    exact ⟨ht.regular.accepts_of_shape hu.regular h, hu.regular.accepts_of_shape ht.regular h.symm⟩
  constructor
  · intro r t a hr ht hlive
    rw [insertTemplate_eq_collision_iff]
    constructor
    · rintro ⟨u, hu, hshape⟩
      exact ⟨u, hu, hsame u t (hr.reachable_of_mem u hu) ht hshape⟩
    · rintro ⟨u, hu, haccepts⟩
      exact ⟨u, hu,
        ht.regular.shape_eq_of_accepts (hr.reachable_of_mem u hu).regular hlive haccepts⟩
  · intro t u ht hu hshape
    refine ⟨hsame t u ht hu hshape, fun htn hun s c d hc hd => ?_⟩
    exact ht.regular.captures_of_shape hu.regular htn hun hshape hc hd

/-- Two patterns that name their parts differently: the second is refused, and on an input that both
match their parts hold the same. -/
theorem collision_iff_same_inputs_users :
    ∃ (t u : Template) (r : Router Nat) (c d : Captures),
      t = ⟨true, [.literal "users", .var "name", .glob "path"]⟩ ∧
      u = ⟨true, [.literal "users", .var "id", .glob "rest"]⟩ ∧ r = ⟨[(t, 1)]⟩ ∧
      Template.ofPattern "/users/:name/*path" = .ok t ∧
      Template.ofPattern "/users/:id/*rest" = .ok u ∧ empty.insertTemplate t 1 = .ok r ∧
      r.insertTemplate u 2 = .error .collision ∧
      c = ⟨[(.name "name", .single "ann"), (.name "path", .list ["a", "b"]),
        (.query "q", .single "")]⟩ ∧
      t.capture? "/users//ann/a/b?q" = some c ∧ u.capture? "/users//ann/a/b?q" = some d ∧
      d.name? "id" = some (.single "ann") ∧ d.name? "rest" = some (.list ["a", "b"]) ∧
      d.filterKeys Key.isQuery = ⟨[(.query "q", .single "")]⟩ := by
  let t : Template := ⟨true, [.literal "users", .var "name", .glob "path"]⟩
  let u : Template := ⟨true, [.literal "users", .var "id", .glob "rest"]⟩
  let r : Router Nat := ⟨[(t, 1)]⟩
  let c : Captures := ⟨[(.name "name", .single "ann"), (.name "path", .list ["a", "b"]),
    (.query "q", .single "")]⟩
  have ht : Template.ofPattern "/users/:name/*path" = .ok t := rfl
  have hu : Template.ofPattern "/users/:id/*rest" = .ok u := rfl
  have hr : empty.insertTemplate t 1 = .ok r := rfl
  have hc : t.capture? "/users//ann/a/b?q" = some c := by decide +kernel
  obtain ⟨hcollision, hshape⟩ := @collision_iff_same_inputs Nat
  obtain ⟨haccepts, hcaptures⟩ := hshape t u (.ofPattern ht) (.ofPattern hu) rfl
  have hrefused := (hcollision r u 2 (.insertTemplate .empty (.ofPattern ht) hr) (.ofPattern hu)
    (by decide)).2 ⟨t, List.mem_cons_self, haccepts⟩
  -- what the second one captures follows from what the first one does
  have haccepted : u.accepts "/users//ann/a/b?q" = true := by
    rw [← haccepts, Template.accepts, hc]
    rfl
  obtain ⟨d, hd⟩ := Option.isSome_iff_exists.1 haccepted
  obtain ⟨hvalues, hqueries⟩ := hcaptures (by decide) (by decide) _ c d hc hd
  obtain ⟨v, hv, hid⟩ := hvalues 0 "name" "id" rfl rfl
  obtain ⟨w, hw, hrest⟩ := hvalues 1 "path" "rest" rfl rfl
  refine ⟨t, u, r, c, d, rfl, rfl, rfl, ht, hu, hr, hrefused, rfl, hc, hd, ?_, ?_, hqueries.symm⟩
  · rw [hid, ← hv]
    rfl
  · rw [hrest, ← hw]
    rfl

end Router

end RoutePattern
