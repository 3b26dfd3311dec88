/-
Which inputs a template matches, and with what captures.

Matching walks parts and tokens once and never goes back. It is right all the
same, because the order of parts leaves nothing to choose: what stands behind a
glob is at most a format, or else a literal that can never be met, since the glob
has taken every segment there is.

`Part.Fits` states a match without tokens and without a walk, on the pieces and
the extension of an input. `Part.bindings_eq_some_iff` is the walk, in both
directions; `Part.fits_iff` counts the pieces out. Together with what
`Proofs/Input` says about the text they give the language of a template.
-/
import RoutePattern.Captures.Lemmas
import RoutePattern.Proofs.Input
import RoutePattern.Proofs.WellFormed
import RoutePattern.Template.Capture

set_option autoImplicit false

namespace RoutePattern

/-! ## The segments in front of a glob's rest -/

namespace Token

theorem literalRun_flat (pieces : List String) (dotted? query? : Option String) :
    literalRun (flat pieces dotted? query?) = (pieces, flat [] dotted? query?) := by
  induction pieces with
  | nil => cases dotted? <;> cases query? <;> rfl
  | cons p ps ih =>
      have hcons : flat (p :: ps) dotted? query? = literal p :: flat ps dotted? query? := rfl
      rw [hcons, literalRun, ih]

/-- The run and the rest are all tokens, and no literal starts the rest. -/
theorem literalRun_spec (ts : List Token) :
    ts = (literalRun ts).1.map literal ++ (literalRun ts).2 ∧
      ∀ text, (literalRun ts).2.head? ≠ some (literal text) := by
  induction ts with
  | nil => exact ⟨rfl, by simp [literalRun]⟩
  | cons t ts ih =>
      cases t with
      | literal text => exact ⟨congrArg (literal text :: ·) ih.1, ih.2⟩
      | _ => exact ⟨rfl, by simp [literalRun]⟩

end Token

namespace Part

/-! ## A match without tokens -/

/-- How parts use up the pieces and the extension of an input, with what they capture. -/
inductive Fits : List Part → List String → Option String → List Entry → Prop where
  | nil : Fits [] [] none []
  | literal {ps : List Part} {pieces : List String} {dotted? : Option String} {es : List Entry}
      (text : String) : Fits ps pieces dotted? es →
        Fits (literal text :: ps) (text :: pieces) dotted? es
  | var {ps : List Part} {pieces : List String} {dotted? : Option String} {es : List Entry}
      (name piece : String) : Fits ps pieces dotted? es →
        Fits (var name :: ps) (piece :: pieces) dotted? ((.name name, .single piece) :: es)
  | glob {ps : List Part} {dotted? : Option String} {es : List Entry} (name : String)
      (pieces : List String) : Fits ps [] dotted? es →
        Fits (glob name :: ps) pieces dotted? ((.name name, .list pieces) :: es)
  | format (name text : String) :
      Fits [format name] [] (some text) [(.name name, .single text)]

/-- What a query adds to the captures. -/
def queryEntries (query? : Option String) : List Entry :=
  (query?.map fun text => (Query.read text).entries).getD []

theorem bindings_nil_iff {ts : List Token} {es : List Entry} :
    bindings [] ts = some es ↔
      ∃ query?, ts = Token.flat [] none query? ∧ es = queryEntries query? := by
  constructor
  · intro h
    unfold bindings at h
    split at h
    · exact ⟨none, rfl, (Option.some.inj h).symm⟩
    · next text _ => exact ⟨some text, rfl, (Option.some.inj h).symm⟩
    all_goals simp_all
  · rintro ⟨query?, rfl, rfl⟩
    cases query? <;> rfl

/-- What it means that a walk over `ps` succeeds. -/
def Walks (ps : List Part) (ts : List Token) (es : List Entry) : Prop :=
  ∃ pieces dotted? query? fs, ts = Token.flat pieces dotted? query? ∧ Fits ps pieces dotted? fs ∧
    es = fs ++ queryEntries query?

/-! One equation for each kind of part. The rest of the parts has the walk for its matches, and so
have the parts with this one in front. -/

section Steps

variable {ps : List Part}
  (ih : ∀ (ts : List Token) (es : List Entry), bindings ps ts = some es ↔ Walks ps ts es)

include ih

theorem walks_literal_iff (expected : String) (ts : List Token) (es : List Entry) :
    bindings (literal expected :: ps) ts = some es ↔ Walks (literal expected :: ps) ts es := by
  constructor
  · intro hb
    cases ts with
    | nil => exact absurd hb (by simp [bindings])
    | cons t ts =>
        cases t with
        | literal text =>
            rw [bindings] at hb
            split at hb
            · next heq =>
              obtain ⟨pieces, dotted?, query?, fs, rfl, hfits, rfl⟩ := (ih _ _).1 hb
              exact ⟨text :: pieces, dotted?, query?, fs, rfl, heq ▸ hfits.literal expected, rfl⟩
            · exact absurd hb (by simp)
        | _ => exact absurd hb (by simp [bindings])
  · rintro ⟨pieces, dotted?, query?, fs, rfl, hfits, rfl⟩
    cases hfits with
    | literal _ hrest =>
        exact (if_pos rfl).trans ((ih _ _).2 ⟨_, dotted?, query?, fs, rfl, hrest, rfl⟩)

theorem walks_var_iff (name : String) (ts : List Token) (es : List Entry) :
    bindings (var name :: ps) ts = some es ↔ Walks (var name :: ps) ts es := by
  constructor
  · intro hb
    cases ts with
    | nil => exact absurd hb (by simp [bindings])
    | cons t ts =>
        cases t with
        | literal text =>
            rw [bindings, Option.map_eq_some_iff] at hb
            obtain ⟨es', hrest, rfl⟩ := hb
            obtain ⟨pieces, dotted?, query?, fs, rfl, hfits, rfl⟩ := (ih _ _).1 hrest
            exact ⟨text :: pieces, dotted?, query?, _, rfl, hfits.var name text, rfl⟩
        | _ => exact absurd hb (by simp [bindings])
  · rintro ⟨pieces, dotted?, query?, fs, rfl, hfits, rfl⟩
    cases hfits with
    | var _ piece hrest =>
        have hb := (ih _ _).2 ⟨_, dotted?, query?, _, rfl, hrest, rfl⟩
        exact Option.map_eq_some_iff.2 ⟨_, hb, rfl⟩

theorem walks_glob_iff (name : String) (ts : List Token) (es : List Entry) :
    bindings (glob name :: ps) ts = some es ↔ Walks (glob name :: ps) ts es := by
  have hstep : bindings (glob name :: ps) ts =
      (bindings ps (Token.literalRun ts).2).map
        ((.name name, .list (Token.literalRun ts).1) :: ·) := by
    cases ts <;> simp [bindings]
  rw [hstep, Option.map_eq_some_iff]
  constructor
  · rintro ⟨es', hrest, rfl⟩
    obtain ⟨hts, hhead⟩ := Token.literalRun_spec ts
    obtain ⟨pieces, dotted?, query?, fs, hflat, hfits, rfl⟩ := (ih _ _).1 hrest
    -- the run has taken all literals, so no piece is left for the rest of the parts
    have hnil : pieces = [] := by
      cases pieces with
      | nil => rfl
      | cons p ps => exact absurd (congrArg List.head? hflat) (hhead p)
    subst hnil
    rw [hflat] at hts
    exact ⟨(Token.literalRun ts).1, dotted?, query?, _, hts, .glob name _ hfits, rfl⟩
  · rintro ⟨pieces, dotted?, query?, fs, rfl, hfits, rfl⟩
    cases hfits with
    | glob _ _ hrest =>
        rw [Token.literalRun_flat]
        exact ⟨_, (ih _ _).2 ⟨[], dotted?, query?, _, rfl, hrest, rfl⟩, rfl⟩

end Steps

theorem walks_format_iff (name : String) (ts : List Token) (es : List Entry) :
    bindings [format name] ts = some es ↔ Walks [format name] ts es := by
  constructor
  · intro hb
    cases ts with
    | nil => exact absurd hb (by simp [bindings])
    | cons t ts =>
        cases t with
        | format text =>
            rw [bindings, Option.map_eq_some_iff] at hb
            obtain ⟨es', hrest, rfl⟩ := hb
            obtain ⟨query?, rfl, rfl⟩ := bindings_nil_iff.1 hrest
            exact ⟨[], some text, query?, _, rfl, .format name text, rfl⟩
        | _ => exact absurd hb (by simp [bindings])
  · rintro ⟨pieces, dotted?, query?, fs, rfl, hfits, rfl⟩
    cases hfits with
    | format _ text =>
        have hb := bindings_nil_iff.2 ⟨query?, rfl, rfl⟩
        exact Option.map_eq_some_iff.2 ⟨_, hb, rfl⟩

theorem eq_nil_of_format_mayPrecede {name : String} {ps : List Part}
    (h : ∀ q ∈ ps, (format name).MayPrecede q) : ps = [] := by
  refine List.eq_nil_iff_forall_not_mem.2 fun q hq => ?_
  exact absurd (h q hq).1 (by simp)

/-- **The walk finds a match exactly when the parts fit**, for parts in an allowed order. -/
theorem bindings_eq_some_iff {ps : List Part} (h : ps.Pairwise MayPrecede) :
    ∀ (ts : List Token) (es : List Entry), bindings ps ts = some es ↔ Walks ps ts es := by
  induction ps with
  | nil =>
      intro ts es
      rw [bindings_nil_iff]
      constructor
      · rintro ⟨query?, rfl, rfl⟩
        exact ⟨[], none, query?, [], rfl, .nil, rfl⟩
      · rintro ⟨pieces, dotted?, query?, fs, rfl, hfits, rfl⟩
        cases hfits
        exact ⟨query?, rfl, rfl⟩
  | cons p ps ih =>
      obtain ⟨hp, hps⟩ := List.pairwise_cons.1 h
      cases p with
      | literal expected => exact walks_literal_iff (ih hps) expected
      | var name => exact walks_var_iff (ih hps) name
      | glob name => exact walks_glob_iff (ih hps) name
      | format name =>
          obtain rfl := eq_nil_of_format_mayPrecede hp
          exact walks_format_iff name

/-! ## The pieces counted out -/

/-- Whether a part is a literal. -/
@[simp] def isLiteral : Part → Bool
  | literal _ => true
  | _ => false

/-- Whether a part takes exactly one piece. -/
@[simp] def isSolid : Part → Bool
  | literal _ => true
  | var _ => true
  | _ => false

/-- Whether a part that takes one piece takes this one. -/
@[simp] def Takes : Part → String → Prop
  | literal text, piece => text = piece
  | _, _ => True

/-- The conditions on pieces and extension, part kind by part kind. -/
structure Counts (ps : List Part) (pieces : List String) (dotted? : Option String) : Prop where
  /-- No literal stands behind a glob. -/
  glob_last : ps.Pairwise fun p q => p.isGlob = true → q.isLiteral = false
  dotted_iff : dotted?.isSome = ps.any isFormat
  /-- There is a piece for each literal and each variable. -/
  enough : (ps.filter isSolid).length ≤ pieces.length
  /-- More pieces than that are for a glob only. -/
  no_more : ps.any isGlob = false → pieces.length = (ps.filter isSolid).length
  takes : ∀ a ∈ (ps.filter isSolid).zip pieces, a.1.Takes a.2

/-- What is captured: each variable its piece, the glob the pieces that remain, the format the
extension. -/
def captured (ps : List Part) (pieces : List String) (dotted? : Option String) : List Entry :=
  (((ps.filter isSolid).zip pieces).filterMap fun a =>
      a.1.varName?.map fun name => (.name name, .single a.2)) ++
    ((ps.filterMap globName?).map fun name =>
      (.name name, .list (pieces.drop (ps.filter isSolid).length))) ++
    ((ps.filterMap formatName?).flatMap fun name =>
      dotted?.toList.map fun text => (.name name, .single text))

theorem counts_nil_iff {pieces : List String} {dotted? : Option String} :
    Counts [] pieces dotted? ↔ pieces = [] ∧ dotted? = none := by
  constructor
  · intro h
    refine ⟨List.eq_nil_of_length_eq_zero (h.no_more rfl), ?_⟩
    exact Option.isSome_eq_false_iff.1 h.dotted_iff |> Option.isNone_iff_eq_none.1
  · rintro ⟨rfl, rfl⟩
    exact ⟨List.Pairwise.nil, rfl, Nat.le_refl 0, fun _ => rfl, fun a ha => absurd ha (by simp)⟩

/-- A part that takes one piece takes the first, and the rest of the parts takes the rest. -/
theorem counts_solid_iff {p : Part} (hp : p.isSolid = true) {ps : List Part}
    {pieces : List String} {dotted? : Option String} :
    Counts (p :: ps) pieces dotted? ↔
      ∃ piece rest, pieces = piece :: rest ∧ p.Takes piece ∧ Counts ps rest dotted? := by
  have hglob : p.isGlob = false := by cases p <;> simp_all
  have hformat : p.isFormat = false := by cases p <;> simp_all
  have hfilter : (p :: ps).filter isSolid = p :: ps.filter isSolid := List.filter_cons_of_pos hp
  constructor
  · rintro ⟨hlast, hdotted, henough, hmore, htakes⟩
    rw [hfilter, List.length_cons] at henough
    cases pieces with
    | nil => exact absurd henough (Nat.not_succ_le_zero _)
    | cons piece rest =>
        rw [hfilter, List.zip_cons_cons] at htakes
        refine ⟨piece, rest, rfl, htakes _ List.mem_cons_self, (List.pairwise_cons.1 hlast).2, ?_,
          Nat.le_of_succ_le_succ henough, ?_, fun a ha => htakes a (List.mem_cons_of_mem _ ha)⟩
        · rwa [List.any_cons, hformat, Bool.false_or] at hdotted
        · intro hany
          have := hmore (by rw [List.any_cons, hglob, hany]; rfl)
          rw [hfilter] at this
          exact Nat.succ.inj this
  · rintro ⟨piece, rest, rfl, hpiece, hlast, hdotted, henough, hmore, htakes⟩
    refine ⟨List.pairwise_cons.2 ⟨fun q _ h => ?_, hlast⟩, ?_, ?_, ?_, ?_⟩
    · rw [hglob] at h
      exact absurd h (by decide)
    · rwa [List.any_cons, hformat, Bool.false_or]
    · rw [hfilter]
      exact Nat.succ_le_succ henough
    · intro hany
      rw [List.any_cons, hglob, Bool.false_or] at hany
      rw [hfilter, List.length_cons, List.length_cons, hmore hany]
    · rw [hfilter, List.zip_cons_cons]
      intro a ha
      rcases List.mem_cons.1 ha with rfl | ha
      · exact hpiece
      · exact htakes a ha

/-- A glob takes all pieces, so the rest of the parts must count on none. -/
theorem counts_glob_iff {name : String} {ps : List Part} (h : ∀ q ∈ ps, (glob name).MayPrecede q)
    {pieces : List String} {dotted? : Option String} :
    Counts (glob name :: ps) pieces dotted? ↔ Counts ps [] dotted? := by
  have hfilter : (glob name :: ps).filter isSolid = ps.filter isSolid := rfl
  constructor
  · rintro ⟨hlast, hdotted, -, -, -⟩
    obtain ⟨hliteral, hrest⟩ := List.pairwise_cons.1 hlast
    -- behind the glob stands neither a literal nor a variable
    have hsolid : ps.filter isSolid = [] := by
      refine List.filter_eq_nil_iff.2 fun q hq hs => ?_
      have hl := hliteral q hq rfl
      have hv := ((h q hq).2 rfl).1
      cases q <;> simp_all
    refine ⟨hrest, hdotted, ?_, fun _ => ?_, fun a ha => ?_⟩
    · rw [hsolid]
      exact Nat.le_refl 0
    · rw [hsolid]
      rfl
    · rw [hsolid] at ha
      exact absurd ha List.not_mem_nil
  · rintro ⟨hlast, hdotted, henough, -, -⟩
    -- without pieces no part can take one, a literal least of all
    have hsolid : ps.filter isSolid = [] := List.eq_nil_of_length_eq_zero (Nat.le_zero.1 henough)
    refine ⟨List.pairwise_cons.2 ⟨fun q hq _ => ?_, hlast⟩, hdotted, ?_, fun hany => ?_,
      fun a ha => ?_⟩
    · have hq := List.filter_eq_nil_iff.1 hsolid q hq
      cases q <;> simp_all
    · rw [hfilter, hsolid]
      exact Nat.zero_le _
    · rw [List.any_cons] at hany
      exact absurd hany (by simp)
    · rw [hfilter, hsolid] at ha
      exact absurd ha List.not_mem_nil

theorem counts_format_iff {name : String} {pieces : List String} {dotted? : Option String} :
    Counts [format name] pieces dotted? ↔ pieces = [] ∧ ∃ text, dotted? = some text := by
  constructor
  · intro h
    exact ⟨List.eq_nil_of_length_eq_zero (h.no_more rfl), Option.isSome_iff_exists.1 h.dotted_iff⟩
  · rintro ⟨rfl, text, rfl⟩
    exact ⟨List.pairwise_singleton _ _, rfl, Nat.le_refl 0, fun _ => rfl,
      fun a ha => absurd ha (by simp)⟩

theorem captured_literal (text piece : String) (ps : List Part) (rest : List String)
    (dotted? : Option String) :
    captured (literal text :: ps) (piece :: rest) dotted? = captured ps rest dotted? := rfl

theorem captured_var (name piece : String) (ps : List Part) (rest : List String)
    (dotted? : Option String) :
    captured (var name :: ps) (piece :: rest) dotted? =
      (.name name, .single piece) :: captured ps rest dotted? := rfl

/-- Behind a glob there is nothing but a format, so the glob is captured first and takes all. -/
theorem captured_glob {name : String} {ps : List Part} (h : ∀ q ∈ ps, (glob name).MayPrecede q)
    {dotted? : Option String} (hcounts : Counts ps [] dotted?) (pieces : List String) :
    captured (glob name :: ps) pieces dotted? =
      (.name name, .list pieces) :: captured ps [] dotted? := by
  have hsolid : ps.filter isSolid = [] :=
    List.eq_nil_of_length_eq_zero (Nat.le_zero.1 hcounts.enough)
  have hfilter : (glob name :: ps).filter isSolid = [] := hsolid
  have hglobs : ps.filterMap globName? = [] := by
    refine List.filterMap_eq_nil_iff.2 fun q hq => ?_
    have := ((h q hq).2 rfl).2
    cases q <;> simp_all [globName?]
  have hname : (glob name :: ps).filterMap globName? = name :: ps.filterMap globName? := rfl
  rw [captured, captured, hfilter, hsolid, hname, hglobs]
  rfl

/-- A match **is a matter of counting**: whether parts fit is told by the number of pieces and the
literals among them, and what they capture is told part kind by part kind. -/
theorem fits_iff {ps : List Part} (h : ps.Pairwise MayPrecede) :
    ∀ (pieces : List String) (dotted? : Option String) (es : List Entry),
      Fits ps pieces dotted? es ↔ Counts ps pieces dotted? ∧ es = captured ps pieces dotted? := by
  induction ps with
  | nil =>
      intro pieces dotted? es
      rw [counts_nil_iff]
      constructor
      · intro hfits
        cases hfits
        exact ⟨⟨rfl, rfl⟩, rfl⟩
      · rintro ⟨⟨rfl, rfl⟩, rfl⟩
        exact .nil
  | cons p ps ih =>
      intro pieces dotted? es
      obtain ⟨hp, hps⟩ := List.pairwise_cons.1 h
      cases p with
      | literal text =>
          rw [counts_solid_iff rfl]
          constructor
          · intro hfits
            cases hfits with
            | literal _ hrest =>
                obtain ⟨hcounts, rfl⟩ := (ih hps _ _ _).1 hrest
                exact ⟨⟨text, _, rfl, rfl, hcounts⟩, rfl⟩
          · rintro ⟨⟨piece, rest, rfl, rfl, hcounts⟩, rfl⟩
            rw [captured_literal]
            exact .literal _ ((ih hps _ _ _).2 ⟨hcounts, rfl⟩)
      | var name =>
          rw [counts_solid_iff rfl]
          constructor
          · intro hfits
            cases hfits with
            | var _ piece hrest =>
                obtain ⟨hcounts, rfl⟩ := (ih hps _ _ _).1 hrest
                exact ⟨⟨piece, _, rfl, trivial, hcounts⟩, rfl⟩
          · rintro ⟨⟨piece, rest, rfl, -, hcounts⟩, rfl⟩
            rw [captured_var]
            exact .var name piece ((ih hps _ _ _).2 ⟨hcounts, rfl⟩)
      | glob name =>
          -- the glob has all pieces, so the rest is counted against none
          rw [counts_glob_iff hp]
          constructor
          · intro hfits
            cases hfits with
            | glob _ _ hrest =>
                obtain ⟨hcounts, rfl⟩ := (ih hps _ _ _).1 hrest
                exact ⟨hcounts, (captured_glob hp hcounts pieces).symm⟩
          · rintro ⟨hcounts, rfl⟩
            rw [captured_glob hp hcounts]
            exact .glob name pieces ((ih hps _ _ _).2 ⟨hcounts, rfl⟩)
      | format name =>
          -- nothing stands behind a format
          obtain rfl := eq_nil_of_format_mayPrecede hp
          rw [counts_format_iff]
          constructor
          · intro hfits
            cases hfits with
            | format _ text => exact ⟨⟨rfl, text, rfl⟩, rfl⟩
          · rintro ⟨⟨rfl, text, rfl⟩, rfl⟩
            exact .format name text

end Part

/-! ## The language of a template -/

namespace Input

theorem isSome_extension? (s : String) : (extension? s).isSome = decide ('.' ∈ path s) := by
  rw [extension?, Option.isSome_map]
  cases h : tail? s with
  | none =>
      rw [path_of_tail?_eq_none h]
      simpa using dot_not_mem_stem s
  | some tail =>
      rw [path_of_tail?_eq_some h]
      simp

/-- The number of dots tells whether there is an extension. -/
theorem Readable.count_dot {s : String} (h : Readable s) :
    (path s).count '.' = if (extension? s).isSome then 1 else 0 := by
  have hone := h.one_dot
  rw [isSome_extension?]
  by_cases hm : '.' ∈ path s
  · have := List.count_pos_iff.2 hm
    simp only [hm, decide_true, if_true]
    omega
  · simpa [hm] using List.count_eq_zero.2 hm

end Input

namespace Template

/-- Which inputs a template matches, told by the text of the input. -/
structure Describes (t : Template) (s : String) : Prop where
  /-- A literal behind the glob would never be met. -/
  glob_last : t.parts.Pairwise fun p q => p.isGlob = true → q.isLiteral = false
  root : (Input.path s).head? = some '/' ↔ t.rooted = true
  no_colon : ':' ∉ Input.path s
  no_star : '*' ∉ Input.path s
  dots : (Input.path s).count '.' = if t.parts.any Part.isFormat then 1 else 0
  slashes : ∀ tail, Input.tail? s = some tail → ∀ c ∈ tail.dropWhile (· ≠ '/'), c = '/'
  enough : (t.parts.filter Part.isSolid).length ≤ (Input.pieces s).length
  no_more : t.parts.any Part.isGlob = false →
    (Input.pieces s).length = (t.parts.filter Part.isSolid).length
  takes : ∀ a ∈ (t.parts.filter Part.isSolid).zip (Input.pieces s), a.1.Takes a.2

/-- What a template captures from such an input, told by its text: the path first, and then the
query, as it is read on its own. -/
def captured (t : Template) (s : String) : Captures :=
  let c := Captures.ofList (Part.captured t.parts (Input.pieces s) (Input.extension? s))
  (Input.query? s).elim c fun text => c.union (Query.read text)

theorem captured_eq (t : Template) (s : String) :
    t.captured s = Captures.ofList
      (Part.captured t.parts (Input.pieces s) (Input.extension? s) ++
        Part.queryEntries (Input.query? s)) := by
  rw [captured, Captures.ofList, Captures.ofList, Captures.insertAll_append]
  cases Input.query? s <;> rfl

theorem describes_iff {t : Template} {s : String} :
    t.Describes s ↔ ((Input.path s).head? = some '/' ↔ t.rooted = true) ∧ Input.Readable s ∧
      Part.Counts t.parts (Input.pieces s) (Input.extension? s) := by
  constructor
  · intro h
    have hone : (Input.path s).count '.' ≤ 1 := by
      rw [h.dots]
      split <;> decide
    have hs : Input.Readable s := ⟨h.no_colon, h.no_star, hone, h.slashes⟩
    refine ⟨h.root, hs, h.glob_last, ?_, h.enough, h.no_more, h.takes⟩
    -- both sides are told by the number of dots
    have hdots := hs.count_dot
    rw [h.dots] at hdots
    cases hdotted : (Input.extension? s).isSome <;> cases hany : t.parts.any Part.isFormat <;>
      simp_all
  · rintro ⟨hroot, hs, hcounts⟩
    refine ⟨hcounts.glob_last, hroot, hs.no_colon, hs.no_star, ?_, hs.slashes, hcounts.enough,
      hcounts.no_more, hcounts.takes⟩
    rw [hs.count_dot, hcounts.dotted_iff]

/-- The walk over the tokens of an input, told by its text. -/
theorem Regular.capture?_eq_some_iff {t : Template} (ht : t.Regular) {s : String} {c : Captures} :
    t.capture? s = some c ↔ ((Input.path s).head? = some '/' ↔ t.rooted = true) ∧
      Input.Readable s ∧ ∃ es, Part.Fits t.parts (Input.pieces s) (Input.extension? s) es ∧
        c = Captures.ofList (es ++ Part.queryEntries (Input.query? s)) := by
  have hroot : Token.rooted (Token.scan s) = t.rooted ↔
      ((Input.path s).head? = some '/' ↔ t.rooted = true) := by
    rw [Token.rooted_scan]
    cases t.rooted <;> simp
  rw [← hroot, capture?]
  constructor
  · intro h
    split at h
    · next hr =>
      obtain ⟨es, hb, rfl⟩ := Option.map_eq_some_iff.1 h
      obtain ⟨pieces, dotted?, query?, fs, hflat, hfits, rfl⟩ :=
        (Part.bindings_eq_some_iff ht.ordered _ _).1 hb
      -- that the walk ends is what makes the input readable
      obtain ⟨hs, rfl, rfl, rfl⟩ := Token.filter_scan_eq_flat_iff.1 hflat
      exact ⟨hr, hs, fs, hfits, rfl⟩
    · exact absurd h (by simp)
  · rintro ⟨hr, hs, es, hfits, rfl⟩
    rw [if_pos hr, Token.filter_scan hs]
    refine Option.map_eq_some_iff.2 ⟨_, ?_, rfl⟩
    exact (Part.bindings_eq_some_iff ht.ordered _ _).2 ⟨_, _, _, es, rfl, hfits, rfl⟩

/-- A template with a literal behind its glob matches nothing. -/
theorem capture?_eq_none_of_literal_behind_glob {t : Template} (h : t.Reachable)
    (hbehind : ¬ t.parts.Pairwise fun p q => p.isGlob = true → q.isLiteral = false)
    (s : String) : t.capture? s = none := by
  refine Option.eq_none_iff_forall_ne_some.2 fun c hc => ?_
  obtain ⟨-, -, es, hfits, -⟩ := h.regular.capture?_eq_some_iff.1 hc
  exact hbehind ((Part.fits_iff h.regular.ordered _ _ _).1 hfits).1.glob_last

/-- A template **matches the inputs that it describes and no others**, and captures from them what
their text says. The walk goes through an input once; nothing is lost by that. -/
theorem capture?_eq_some_iff_describes {t : Template} (h : t.Reachable) (s : String)
    (c : Captures) : t.capture? s = some c ↔ t.Describes s ∧ c = t.captured s := by
  have ht := h.regular
  rw [ht.capture?_eq_some_iff, describes_iff, captured_eq]
  constructor
  · rintro ⟨hroot, hs, es, hfits, rfl⟩
    obtain ⟨hcounts, rfl⟩ := (Part.fits_iff ht.ordered _ _ _).1 hfits
    exact ⟨⟨hroot, hs, hcounts⟩, rfl⟩
  · rintro ⟨⟨hroot, hs, hcounts⟩, rfl⟩
    exact ⟨hroot, hs, _, (Part.fits_iff ht.ordered _ _ _).2 ⟨hcounts, rfl⟩, rfl⟩

/-- Slashes may stand doubled, and behind the extension. Without an extension there is no match. -/
theorem capture?_eq_some_iff_describes_files :
    ∃ t c, t = ⟨true, [.literal "files", .glob "path", .format "fmt"]⟩ ∧
      c = ⟨[(.name "path", .list ["a", "b"]), (.name "fmt", .single "gz"),
        (.query "v", .single "1")]⟩ ∧
      ofPattern "/files/*path.fmt" = .ok t ∧
      t.capture? "//files/a//b.gz/?v=1" = some c ∧
        t.Describes "//files/a//b.gz/?v=1" ∧ c = t.captured "//files/a//b.gz/?v=1" ∧
      t.capture? "/files/a/b" = none ∧ ¬ t.Describes "/files/a/b" := by
  let t : Template := ⟨true, [.literal "files", .glob "path", .format "fmt"]⟩
  let c : Captures := ⟨[(.name "path", .list ["a", "b"]), (.name "fmt", .single "gz"),
    (.query "v", .single "1")]⟩
  have h : ofPattern "/files/*path.fmt" = .ok t := rfl
  have hc : t.capture? "//files/a//b.gz/?v=1" = some c := by decide +kernel
  have hnone : t.capture? "/files/a/b" = none := by decide +kernel
  obtain ⟨hdescribes, hcaptured⟩ := (capture?_eq_some_iff_describes (.ofPattern h) _ _).1 hc
  refine ⟨t, c, rfl, rfl, h, hc, hdescribes, hcaptured, hnone, fun hd => ?_⟩
  rw [(capture?_eq_some_iff_describes (.ofPattern h) _ _).2 ⟨hd, rfl⟩] at hnone
  exact absurd hnone (by simp)

end Template

end RoutePattern
