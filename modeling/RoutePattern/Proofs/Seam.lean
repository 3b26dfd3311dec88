/-
Matching across the place where a pattern was appended.

Appending puts the parts of a pattern behind those of a template. So an input in
two halves, a slash between them, is matched by the whole if the halves are
matched by the two: the slash at the seam vanishes like any other, and only the
second half may have a query.

Two things could go wrong at the seam, and the order of the parts excludes both.
A glob in front takes every piece there is, also those of the second half; but
then nothing behind it takes a piece (`Fits.append`). And an extension in front
would end the input; but behind a format there are no parts at all.

For the way back the pieces are dealt out to the parts in front and the parts
behind (`Fits.split`), and each half is written from its share. A glob in front
is left out there, since nothing tells it how many of the pieces are its own.
-/
import RoutePattern.Proofs.Append
import RoutePattern.Proofs.Shape
import RoutePattern.Proofs.Union

set_option autoImplicit false

namespace RoutePattern

/-! ## Parts on both sides -/

namespace Part

/-- What fits on either side **fits together**, if no part is behind an extension and no piece
behind a glob. -/
theorem Fits.append {ps qs : List Part} {pieces others : List String} {e f : Option String}
    {es fs : List Entry} (h : Fits ps pieces e es) (h' : Fits qs others f fs)
    (hformat : e.isSome = true → qs = []) (hglob : ps.any isGlob = true → others = []) :
    Fits (ps ++ qs) (pieces ++ others) (e.or f) (es ++ fs) := by
  induction h with
  | nil => exact h'
  | literal text _ ih => exact (ih hformat hglob).literal text
  | var name piece _ ih => exact (ih hformat hglob).var name piece
  | glob name pieces _ ih =>
      obtain rfl := hglob rfl
      rw [List.append_nil]
      exact (ih hformat fun _ => rfl).glob name pieces
  | format name text =>
      obtain rfl := hformat rfl
      cases h'
      exact .format name text

/-- Without a glob in front, what fits together is **dealt out to both sides**. -/
theorem Fits.split {ps qs : List Part} (hordered : (ps ++ qs).Pairwise MayPrecede)
    (hglob : ps.any isGlob = false) {pieces : List String} {e : Option String} {es : List Entry}
    (h : Fits (ps ++ qs) pieces e es) :
    ∃ pieces₁ pieces₂ e₁ e₂ es₁ es₂, Fits ps pieces₁ e₁ es₁ ∧ Fits qs pieces₂ e₂ es₂ ∧
      pieces = pieces₁ ++ pieces₂ ∧ e = e₁.or e₂ ∧ es = es₁ ++ es₂ := by
  induction ps generalizing pieces es with
  | nil => exact ⟨[], pieces, none, e, [], es, .nil, h, rfl, rfl, rfl⟩
  | cons p ps ih =>
      obtain ⟨hp, hrest⟩ := List.pairwise_cons.1 hordered
      cases p with
      | literal text =>
          cases h with
          | literal _ h =>
              obtain ⟨xs, ys, e₁, e₂, es₁, es₂, h₁, h₂, rfl, rfl, rfl⟩ := ih hrest hglob h
              exact ⟨_, ys, e₁, e₂, _, es₂, h₁.literal text, h₂, rfl, rfl, rfl⟩
      | var name =>
          cases h with
          | var _ piece h =>
              obtain ⟨xs, ys, e₁, e₂, es₁, es₂, h₁, h₂, rfl, rfl, rfl⟩ := ih hrest hglob h
              exact ⟨_, ys, e₁, e₂, _, es₂, h₁.var name piece, h₂, rfl, rfl, rfl⟩
      | glob name => exact absurd hglob (by simp)
      | format name =>
          -- a format in front is the last part of all
          obtain ⟨rfl, rfl⟩ := List.append_eq_nil_iff.1 (eq_nil_of_format_mayPrecede hp)
          exact ⟨pieces, [], e, none, es, [], h, .nil, by simp, by simp, by simp⟩

/-- Where an extension is taken, there is a format. -/
theorem Fits.any_isFormat {ps : List Part} {pieces : List String} {e : Option String}
    {es : List Entry} (h : Fits ps pieces e es) (he : e.isSome = true) :
    ps.any isFormat = true := by
  induction h with
  | nil => exact absurd he (by decide)
  | format name text => rfl
  | literal _ _ ih => exact ih he
  | var _ _ _ ih => exact ih he
  | glob _ _ _ ih => exact ih he

/-- Behind an extension there are no parts, and so nothing of the input either. -/
theorem Fits.nothing_behind {ps qs : List Part} {pieces others : List String}
    {e f : Option String} {es fs : List Entry} (hordered : (ps ++ qs).Pairwise MayPrecede)
    (h : Fits ps pieces e es) (h' : Fits qs others f fs) (he : e.isSome = true) :
    qs = [] ∧ others = [] ∧ f = none := by
  obtain rfl := eq_nil_of_any_format hordered (h.any_isFormat he)
  cases h'
  exact ⟨rfl, rfl, rfl⟩

/-- Without a glob, nothing fits nothing. -/
theorem Fits.eq_nil_of_nothing {ps : List Part} {es : List Entry} (h : Fits ps [] none es)
    (hglob : ps.any isGlob = false) : ps = [] := by
  cases h with
  | nil => rfl
  | glob name _ _ => exact absurd hglob (by simp)

end Part

/-! ## Texts on both sides -/

theorem Token.flat_append {pieces others : List String} {e f query? : Option String}
    (h : e.isSome = true → others = [] ∧ f = none) :
    flat pieces e none ++ flat others f query? = flat (pieces ++ others) (e.or f) query? := by
  cases e with
  | none => simp [flat]
  | some text =>
      obtain ⟨rfl, rfl⟩ := h rfl
      simp [flat]

namespace Input

/-- Two texts that can be the halves of an input. -/
structure Seam (front behind : String) : Prop where
  front_ne : front ≠ ""
  /-- A query in front would not end at the seam. -/
  front_no_query : '?' ∉ front.toList
  behind_open : behind.toList.head? ≠ some '/'

/-- The halves are read **one behind the other**. -/
theorem seam_spec {front behind : String} (hquery : '?' ∉ front.toList) (h₁ : Readable front)
    (h₂ : Readable behind)
    (hseam : (extension? front).isSome = true → pieces behind = [] ∧ extension? behind = none) :
    Readable (front ++ "/" ++ behind) ∧
      pieces (front ++ "/" ++ behind) = pieces front ++ pieces behind ∧
      extension? (front ++ "/" ++ behind) = (extension? front).or (extension? behind) ∧
      query? (front ++ "/" ++ behind) = query? behind := by
  have hflat : (Token.scan (front ++ "/" ++ behind)).filter (· ≠ .slash) =
      Token.flat (pieces front ++ pieces behind) ((extension? front).or (extension? behind))
        (query? behind) := by
    rw [Token.scan_append_slash hquery, List.filter_append, List.filter_cons_of_neg (by simp),
      Token.filter_scan h₁, Token.filter_scan h₂, query?_eq_none_iff.2 hquery,
      Token.flat_append hseam]
  obtain ⟨hread, hpieces, hextension, hq⟩ := Token.filter_scan_eq_flat_iff.1 hflat
  exact ⟨hread, hpieces.symm, hextension.symm, hq.symm⟩

/-- The first half tells whether there is a slash in front. -/
theorem head?_seam {front : String} (h : front ≠ "") (behind : String) :
    (front ++ "/" ++ behind).toList.head? = front.toList.head? := by
  obtain ⟨c, cs, hcs⟩ := List.exists_cons_of_ne_nil fun e => h (String.toList_eq_nil_iff.1 e)
  rw [String.toList_append, String.toList_append, hcs]
  rfl

end Input

namespace Template

/-! ## Texts of matches -/

section Texts

variable {t : Template} (ht : t.Regular)

include ht

/-- A match of pieces that can be written has a text. -/
theorem Regular.exists_text {pieces : List String} {dotted? : Option String} {es : List Entry}
    (h : Part.Fits t.parts pieces dotted? es) (hpieces : ∀ piece ∈ pieces, Input.Solid piece)
    (hdotted : ∀ e ∈ dotted?, Token.Plain e) (query? : Option String) :
    ∃ s, t.capture? s = some (Captures.ofList (es ++ Part.queryEntries query?)) ∧
      (s.toList.head? = some '/' ↔ t.rooted = true) ∧ Input.Readable s ∧
      Input.pieces s = pieces ∧ Input.extension? s = dotted? ∧ Input.query? s = query? := by
  obtain ⟨hroot, hspec⟩ := Input.text_spec hpieces hdotted t.rooted query? rfl
  rw [Input.head?_path] at hroot
  exact ⟨_, ht.capture?_text h hpieces hdotted query?, hroot, hspec⟩

/-- Only a glob matches the empty text, and the empty template. -/
theorem Regular.capture?_empty (hitems : t.items ≠ []) (hglob : t.parts.any Part.isGlob = false) :
    t.capture? "" = none := by
  refine Option.eq_none_iff_forall_ne_some.2 fun c hc => ?_
  obtain ⟨hroot, -, es, hfits, -⟩ := ht.capture?_eq_some_iff.1 hc
  have hnil : t.parts = [] := hfits.eq_nil_of_nothing hglob
  have hopen : t.rooted = false := by
    rw [← Bool.not_eq_true, ← hroot]
    decide
  apply hitems
  rw [items, hnil, hopen]
  rfl

end Texts

/-! ## The whole and its halves -/

section Halves

variable {t v u : Template} (ht : t.Regular) (hv : v.Regular) (hu : u.Regular)
  (hrooted : u.rooted = t.rooted) (hparts : u.parts = t.parts ++ v.parts)

include ht hv hu hrooted hparts

/-- Both halves have their match, so the whole has both matches in a row. -/
theorem Regular.capture?_joined (hlive : u.Live) {front behind : String}
    (hseam : Input.Seam front behind) {c d : Captures} (hc : t.capture? front = some c)
    (hd : v.capture? behind = some d) : u.capture? (front ++ "/" ++ behind) = some (c.union d) := by
  obtain ⟨hroot, hread₁, es₁, hfits₁, rfl⟩ := ht.capture?_eq_some_iff.1 hc
  obtain ⟨-, hread₂, es₂, hfits₂, rfl⟩ := hv.capture?_eq_some_iff.1 hd
  have hordered : (t.parts ++ v.parts).Pairwise Part.MayPrecede := hparts ▸ hu.ordered
  have hend := hfits₁.nothing_behind hordered hfits₂
  -- behind a glob there is neither a variable nor a literal, and so no piece
  have hglob : t.parts.any Part.isGlob = true → Input.pieces behind = [] := by
    intro hany
    obtain ⟨p, hp, hpglob⟩ := List.any_eq_true.1 hany
    rw [Live, hparts] at hlive
    have hmay := (List.pairwise_append.1 hordered).2.2 p hp
    have hliteral := (List.pairwise_append.1 hlive).2.2 p hp
    cases p with
    | glob name => exact hfits₂.eq_nil_of_glob hmay fun q hq => hliteral q hq rfl
    | _ => exact absurd hpglob (by simp)
  obtain ⟨hread, hpieces, hextension, hquery⟩ :=
    Input.seam_spec hseam.front_no_query hread₁ hread₂ fun he => (hend he).2
  refine hu.capture?_eq_some_iff.2 ⟨?_, hread, es₁ ++ es₂, ?_, ?_⟩
  · rw [Input.head?_path, Input.head?_seam hseam.front_ne, ← Input.head?_path, hrooted]
    exact hroot
  · rw [hparts, hpieces, hextension]
    exact hfits₁.append hfits₂ (fun he => (hend he).1) hglob
  · rw [hquery, Input.query?_eq_none_iff.2 hseam.front_no_query, ← Captures.ofList_append]
    simp [Part.queryEntries]

/-- What the whole matches can be written in halves that the two match, up to the slashes. -/
theorem Regular.exists_halves (hopen : v.rooted = false) (hitems : t.items ≠ [])
    (hglob : t.parts.any Part.isGlob = false) {s : String} {c : Captures}
    (h : u.capture? s = some c) :
    ∃ front behind d e, Input.Seam front behind ∧ t.capture? front = some d ∧
      v.capture? behind = some e ∧ c = d.union e ∧
      Input.canonPath (front ++ "/" ++ behind) = Input.canonPath s ∧
      Input.query? (front ++ "/" ++ behind) = Input.query? s := by
  obtain ⟨hroot, hread, es, hfits, rfl⟩ := hu.capture?_eq_some_iff.1 h
  have hordered : (t.parts ++ v.parts).Pairwise Part.MayPrecede := hparts ▸ hu.ordered
  rw [hparts] at hfits
  obtain ⟨pieces₁, pieces₂, e₁, e₂, es₁, es₂, hfits₁, hfits₂, hpieces, hextension, rfl⟩ :=
    hfits.split hordered hglob
  have hend : e₁.isSome = true → pieces₂ = [] ∧ e₂ = none := fun he =>
    (hfits₁.nothing_behind hordered hfits₂ he).2
  -- both shares can be written, since the input can be read
  obtain ⟨hsolid, hplain⟩ := hread.solid
  rw [hpieces, List.forall_mem_append] at hsolid
  have hplain₁ : ∀ x ∈ e₁, Token.Plain x := by
    rintro x rfl
    exact hplain x hextension
  have hplain₂ : ∀ x ∈ e₂, Token.Plain x := by
    rintro x rfl
    apply hplain x
    cases e₁ with
    | none => exact hextension
    | some y => exact absurd (hend rfl).2 (by simp)
  obtain ⟨front, hfront, hroot₁, hread₁, hp₁, hx₁, hq₁⟩ :=
    ht.exists_text hfits₁ hsolid.1 hplain₁ none
  obtain ⟨behind, hbehind, hroot₂, hread₂, hp₂, hx₂, hq₂⟩ :=
    hv.exists_text hfits₂ hsolid.2 hplain₂ (Input.query? s)
  have hseam : Input.Seam front behind := by
    refine ⟨?_, Input.query?_eq_none_iff.1 hq₁, ?_⟩
    · rintro rfl
      rw [ht.capture?_empty hitems hglob] at hfront
      exact absurd hfront (by simp)
    · rw [Ne, hroot₂, hopen]
      decide
  obtain ⟨-, hpieces', hextension', hquery'⟩ :=
    Input.seam_spec hseam.front_no_query hread₁ hread₂ (by rwa [hx₁, hp₂, hx₂])
  refine ⟨front, behind, _, _, hseam, hfront, hbehind, ?_, ?_, ?_⟩
  · rw [← Captures.ofList_append]
    simp [Part.queryEntries]
  · have hhead : front.toList.head? = some '/' ↔ s.toList.head? = some '/' := by
      rw [hroot₁, ← hrooted, ← hroot, Input.head?_path]
    rw [Input.canonPath, Input.canonPath, Input.head?_seam hseam.front_ne, decide_eq_decide.2 hhead,
      hpieces', hextension', hp₁, hp₂, hx₁, hx₂, ← hpieces, ← hextension]
  · rw [hquery', hq₂]

end Halves

/-- Where a pattern can be appended, **the whole matches in halves**: two matches with a slash
between their texts are a match of the whole, and what is captured is captured in turn, the pattern
having the last word on a name that both have. If there is no glob in front, there are no other
matches, up to the slashes. No input can be asked to be its halves exactly: with `.fmt` behind `/a`
the whole matches `/a.html`, where no slash stands between the halves `/a` and `.html`. -/
theorem capture?_append {t u : Template} {p : String} (h : t.Reachable) (hu : t.append p = .ok u)
    (hlive : u.Live) :
    ∃ v, ofPattern p = .ok v ∧
      (∀ (front behind : String) (c d : Captures), Input.Seam front behind →
        t.capture? front = some c → v.unroot.capture? behind = some d →
          u.capture? (front ++ "/" ++ behind) = some (c.union d)) ∧
      (t.items ≠ [] → t.parts.any Part.isGlob = false →
        ∀ (s : String) (c : Captures), u.capture? s = some c →
          ∃ front behind d e, Input.Seam front behind ∧ t.capture? front = some d ∧
            v.unroot.capture? behind = some e ∧ c = d.union e ∧
            Input.canonPath (front ++ "/" ++ behind) = Input.canonPath s ∧
            Input.query? (front ++ "/" ++ behind) = Input.query? s) := by
  have hureg := h.regular.append hu
  obtain ⟨v, hv, rfl, -⟩ := exists_of_append_eq_ok hu
  have hvreg := (regular_of_ofPattern hv).unroot
  refine ⟨v, hv, fun front behind c d hseam hc hd => ?_, fun hitems hglob s c hc => ?_⟩
  · exact h.regular.capture?_joined hvreg hureg rfl rfl hlive hseam hc hd
  · exact h.regular.exists_halves hvreg hureg rfl rfl rfl hitems hglob hc

example :
    (⟨true, [.literal "a", .format "fmt"]⟩ : Template).capture? "/a.html" =
        some ⟨[(.name "fmt", .single "html")]⟩ ∧
      (⟨true, [.literal "a"]⟩ : Template).capture? "/a" = some ⟨[]⟩ ∧
      (⟨false, [.format "fmt"]⟩ : Template).capture? ".html" =
        some ⟨[(.name "fmt", .single "html")]⟩ ∧
      Input.canonPath ("/a" ++ "/" ++ ".html") = Input.canonPath "/a.html" := by
  decide +kernel

/-- Both halves capture under one name, and the second one is kept. An input with slashes to spare
has halves too, though it is not these two with a slash between. -/
theorem capture?_append_ids :
    ∃ t u v c d, t = ⟨true, [.var "id"]⟩ ∧
      u = ⟨true, [.var "id", .var "id", .format "fmt"]⟩ ∧
      v = ⟨true, [.var "id", .format "fmt"]⟩ ∧ c = ⟨[(.name "id", .single "x")]⟩ ∧
      d = ⟨[(.name "id", .single "y"), (.name "fmt", .single "gz"),
        (.query "q", .single "1")]⟩ ∧
      ofPattern "/:id" = .ok t ∧ t.append "/:id.fmt" = .ok u ∧
      ofPattern "/:id.fmt" = .ok v ∧ t.capture? "/x" = some c ∧
      v.unroot.capture? "y.gz?q=1" = some d ∧ c.union d = d ∧
      u.capture? "/x/y.gz?q=1" = some d ∧
      ∃ front behind c' d', Input.Seam front behind ∧ t.capture? front = some c' ∧
        v.unroot.capture? behind = some d' ∧
        c'.union d' = ⟨[(.name "id", .single "y"), (.name "fmt", .single "gz")]⟩ ∧
        Input.canonPath (front ++ "/" ++ behind) = "/x/y.gz" ∧
        Input.query? (front ++ "/" ++ behind) = none := by
  let t : Template := ⟨true, [.var "id"]⟩
  let u : Template := ⟨true, [.var "id", .var "id", .format "fmt"]⟩
  let v : Template := ⟨true, [.var "id", .format "fmt"]⟩
  let c : Captures := ⟨[(.name "id", .single "x")]⟩
  let d : Captures := ⟨[(.name "id", .single "y"), (.name "fmt", .single "gz"),
    (.query "q", .single "1")]⟩
  have ht : ofPattern "/:id" = .ok t := rfl
  have hu : t.append "/:id.fmt" = .ok u := rfl
  have hv : ofPattern "/:id.fmt" = .ok v := rfl
  obtain ⟨v', hv', hjoin, hsplit⟩ := capture?_append (.ofPattern ht) hu (by decide)
  obtain rfl : v = v' := Except.ok.inj (hv.symm.trans hv')
  have hc : t.capture? "/x" = some c := by decide +kernel
  have hd : v.unroot.capture? "y.gz?q=1" = some d := by decide +kernel
  have hunion : c.union d = d := by decide +kernel
  have hinput : "/x" ++ "/" ++ "y.gz?q=1" = "/x/y.gz?q=1" := by decide +kernel
  have hwhole := hjoin _ _ _ _ ⟨by decide, by decide, by decide⟩ hc hd
  rw [hunion, hinput] at hwhole
  have hs : u.capture? "//x//y.gz/" =
      some ⟨[(.name "id", .single "y"), (.name "fmt", .single "gz")]⟩ := by decide +kernel
  obtain ⟨front, behind, c', d', hseam, hfront, hbehind, hunion', hcanon, hquery⟩ :=
    hsplit (by decide) (by decide) _ _ hs
  exact ⟨t, u, v, c, d, rfl, rfl, rfl, rfl, rfl, ht, hu, hv, hc, hd, hunion, hwhole,
    front, behind, c', d', hseam, hfront, hbehind, hunion'.symm,
    hcanon.trans (by decide +kernel), hquery.trans (by decide +kernel)⟩

end Template

end RoutePattern
