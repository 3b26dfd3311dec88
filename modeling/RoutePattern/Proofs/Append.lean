/-
Appending a pattern is writing it behind a slash.

The one way reads the pattern alone and puts its parts behind those of the
template; the other writes the template, a slash and the pattern, and reads all
of it again. A slash ends whatever stands before it, so the tokens of the joined
text are those of the template, the slash, and those of the pattern
(`Regular.scan_joined`), and what is read from them is read from the pattern
alone, behind the parts that are there (`ofTokens_joined`).

Two cases are apart. Behind a format nothing may stand, so there both ways fail
as soon as the pattern has a part, and may disagree about why. And slashes alone
add nothing, not even behind a format, where the joined text would be refused.
-/
import RoutePattern.Proofs.Input
import RoutePattern.Proofs.WellFormed

set_option autoImplicit false

namespace RoutePattern

/-! ## Slashes alone -/

/-- A text has no other tokens than slashes exactly if it has no other characters. -/
theorem Token.scan_slashes_iff (p : String) :
    (∀ t ∈ scan p, t = slash) ↔ ∀ c ∈ p.toList, c = '/' := by
  have hspell := congrArg String.toList (spellAll_scan p)
  rw [toList_spellAll] at hspell
  constructor
  · intro h c hc
    rw [← hspell] at hc
    obtain ⟨t, ht, hc⟩ := List.mem_flatMap.1 hc
    rw [h t ht] at hc
    exact List.mem_singleton.1 hc
  · intro h t ht
    have hchars : ∀ c ∈ t.spell.toList, c = '/' := by
      intro c hc
      apply h
      rw [← hspell]
      exact List.mem_flatMap.2 ⟨t, ht, hc⟩
    cases t with
    | slash => rfl
    | literal text =>
        -- a literal has a first character, and that is no slash
        obtain ⟨hne, hplain⟩ := sound_of_mem_scan ht
        obtain ⟨c, cs, hcs⟩ :=
          List.exists_cons_of_ne_nil fun e => hne (String.toList_eq_nil_iff.1 e)
        have hmem : c ∈ text.toList := by
          rw [hcs]
          exact List.mem_cons_self
        have hc := hplain c hmem
        rw [hchars c hmem] at hc
        exact absurd hc (by decide)
    | var name => exact absurd (hchars ':' (by simp)) (by decide)
    | glob name => exact absurd (hchars '*' (by simp)) (by decide)
    | format name => exact absurd (hchars '.' (by simp)) (by decide)
    | query text => exact absurd (hchars '?' (by simp)) (by decide)

namespace Part

/-- Slashes give no part, and whatever else can be read gives one. -/
theorem ofTokens_eq_nil_iff {ts : List Token} :
    ofTokens ts = .ok [] ↔ ∀ t ∈ ts, t = .slash := by
  have hnamed : ∀ {part : String → Part} {name : String} {rest : Except Fault (List Part)},
      consNamed part name rest ≠ .ok [] := by
    intro part name rest h
    obtain ⟨-, qs, -, hqs⟩ := exists_of_consNamed_eq_ok h
    exact absurd hqs (by simp)
  induction ts with
  | nil => exact ⟨fun _ _ ht => absurd ht List.not_mem_nil, fun _ => rfl⟩
  | cons t ts ih =>
      rw [List.forall_mem_cons]
      cases t with
      | slash => exact ih.trans ⟨fun h => ⟨rfl, h⟩, fun h => h.2⟩
      | literal text =>
          constructor
          · intro h
            obtain ⟨qs, -, hqs⟩ := exists_of_map_eq_ok h
            exact absurd hqs (by simp)
          · intro h
            exact absurd h.1 (by simp)
      | query text => exact ⟨fun h => absurd h (by simp [ofTokens]), fun h => absurd h.1 (by simp)⟩
      | _ => exact ⟨fun h => absurd h hnamed, fun h => absurd h.1 (by simp)⟩

/-- Nothing stands behind parts with a format. -/
theorem eq_nil_of_any_format {ps qs : List Part} (h : (ps ++ qs).Pairwise MayPrecede)
    (hformat : ps.any isFormat = true) : qs = [] := by
  obtain ⟨p, hp, hpformat⟩ := List.any_eq_true.1 hformat
  refine List.eq_nil_iff_forall_not_mem.2 fun q hq => ?_
  have hmay := (List.pairwise_append.1 h).2.2 p hp q hq
  rw [hmay.1] at hpformat
  exact absurd hpformat (by decide)

/-- Slashes in front are read over. -/
theorem ofTokens_dropWhile (s : List Char) :
    ofTokens (Token.scanChars (s.dropWhile (· = '/'))) = ofTokens (Token.scanChars s) := by
  induction s with
  | nil => rfl
  | cons c cs ih =>
      by_cases hc : c = '/'
      · subst hc
        rw [List.dropWhile_cons_of_pos (by simp), ih, Token.scanChars_slash]
        rfl
      · rw [List.dropWhile_cons_of_neg (by simpa using hc)]

end Part

namespace Template

/-! ## The tokens of the joined text -/

theorem Regular.filter_tokens {t : Template} (ht : t.Regular) :
    t.tokens.filter (· ≠ .slash) = t.parts.map Part.token := by
  have hattached : Token.slash ∉ t.attached.map Part.token := by
    rcases ht.attached_eq with h | ⟨name, h, -⟩ <;> simp [h, Part.token]
  rw [tokens, Token.filter_layout t.rooted ht.place_of_mem hattached, ← List.map_append,
    ht.separated_append_attached]

/-- A pattern that is written has no query. -/
theorem Regular.question_not_mem_pattern {t : Template} (ht : t.Regular) :
    '?' ∉ t.pattern.toList := by
  rw [← Input.query?_eq_none_iff]
  cases hq : Input.query? t.pattern with
  | none => rfl
  | some q =>
      have hmem : Token.query q ∈ t.tokens := by
        rw [← ht.scan_pattern, Token.scan_eq_append, hq]
        simp
      have hparts : Token.query q ∈ t.parts.map Part.token := by
        rw [← ht.filter_tokens]
        exact List.mem_filter.2 ⟨hmem, by simp⟩
      obtain ⟨p, -, hp⟩ := List.mem_map.1 hparts
      cases p <;> exact absurd hp (by simp [Part.token])

/-- The joined text is **read half by half**. -/
theorem Regular.scan_joined {t : Template} (ht : t.Regular) (p : String) :
    Token.scan (t.pattern ++ "/" ++ p) = t.tokens ++ .slash :: Token.scan p := by
  rw [Token.scan_append_slash ht.question_not_mem_pattern, ht.scan_pattern]

/-- A template with a part or a slash in front is written with some text. -/
theorem Regular.tokens_ne_nil {t : Template} (ht : t.Regular) (h : t.items ≠ []) :
    t.tokens ≠ [] := by
  intro hnil
  have hfilter := ht.filter_tokens
  have hrooted := ht.rooted_tokens
  rw [hnil] at hfilter hrooted
  have hparts : t.parts = [] := List.map_eq_nil_iff.1 hfilter.symm
  apply h
  rw [items, hparts, ← hrooted]
  rfl

theorem Regular.rooted_joined {t : Template} (ht : t.Regular) (h : t.items ≠ [])
    (ts : List Token) : Token.rooted (t.tokens ++ ts) = t.rooted := by
  obtain ⟨t₀, ts₀, htokens⟩ := List.exists_cons_of_ne_nil (ht.tokens_ne_nil h)
  rw [← ht.rooted_tokens, htokens]
  rfl

/-- What follows the tokens of a template is read behind its parts, and behind a format it may be
nothing. -/
theorem Regular.ofTokens_joined {t : Template} (ht : t.Regular) (ts : List Token) :
    Part.ofTokens (t.tokens ++ .slash :: ts) =
      if t.parts.any Part.isFormat then .error .formatNotLast
      else (Part.ofTokens ts).map (t.parts ++ ·) := by
  have hsep : ∀ p ∈ t.separated, p.Named ∧ p.isFormat = false := fun p hp =>
    ⟨ht.named p (mem_separated hp).1, (mem_separated hp).2⟩
  have hroot : Part.ofTokens (t.tokens ++ .slash :: ts) =
      Part.ofTokens ((t.separated.map Part.token).intersperse .slash ++
        (t.attached.map Part.token ++ .slash :: ts)) := by
    rw [tokens, Token.layout]
    cases t.rooted <;> simp [Part.ofTokens]
  rw [hroot, Part.ofTokens_intersperse hsep]
  rcases ht.attached_eq with h | ⟨name, h, hname⟩
  · have hany : t.parts.any Part.isFormat = false := by
      rw [List.any_eq_false]
      exact fun p hp => List.filter_eq_nil_iff.1 h p hp
    have hparts : t.separated = t.parts := by
      rw [← ht.separated_append_attached, h, List.append_nil]
    rw [h, hany, hparts]
    rfl
  · have hany : t.parts.any Part.isFormat = true := by
      rw [List.any_eq_true]
      have hmem : Part.format name ∈ t.attached := by
        rw [h]
        exact List.mem_singleton_self _
      exact ⟨_, List.mem_filter.1 hmem⟩
    have hread : Part.ofTokens (.format name :: .slash :: ts) = .error .formatNotLast :=
      if_neg hname.1
    rw [h, hany]
    change (Part.ofTokens (.format name :: .slash :: ts)).map _ = _
    rw [hread]
    rfl

/-! ## The two ways -/

/-- The parts of the pattern are checked behind those of the template. -/
theorem append_eq_bind (t : Template) (p : String) :
    t.append p = (Part.ofTokens (Token.scan p)).bind fun ps =>
      checked { t with parts := t.parts ++ ps } := by
  change ((Part.ofTokens (Token.scan p)).map _).bind _ = _
  cases Part.ofTokens (Token.scan p) <;> rfl

/-- What can be appended compiles on its own, and its parts are added. -/
theorem exists_of_append_eq_ok {t u : Template} {p : String} (h : t.append p = .ok u) :
    ∃ v, ofPattern p = .ok v ∧ u = { t with parts := t.parts ++ v.parts } ∧
      (t.parts ++ v.parts).Pairwise Part.MayPrecede := by
  obtain ⟨v, hread, hcheck⟩ := exists_of_bind_eq_ok h
  obtain ⟨hu, hordered⟩ := checked_eq_ok_iff.1 hcheck
  refine ⟨v, ?_, hu.symm, hordered⟩
  rw [ofPattern, hread]
  exact checked_eq_ok_iff.2 ⟨rfl, (List.pairwise_append.1 hordered).2.1⟩

/-- The joined text is **refused behind a format**, and compiles as appending does otherwise. -/
theorem Regular.ofPattern_joined {t : Template} (ht : t.Regular) (h : t.items ≠ []) (p : String) :
    ofPattern (t.pattern ++ "/" ++ p) =
      if t.parts.any Part.isFormat then .error .formatNotLast else t.append p := by
  rw [ofPattern, read, ht.scan_joined, ht.ofTokens_joined, ht.rooted_joined h, append_eq_bind]
  cases t.parts.any Part.isFormat with
  | true => rfl
  | false => cases Part.ofTokens (Token.scan p) <;> rfl

/-- Nothing but slashes can be appended behind a format. -/
theorem append_ne_ok_of_format {t : Template} (hformat : t.parts.any Part.isFormat = true)
    {p : String} (hp : ∃ c ∈ p.toList, c ≠ '/') (u : Template) : t.append p ≠ .ok u := by
  intro happ
  rw [append_eq_bind] at happ
  obtain ⟨ps, hps, hcheck⟩ := exists_of_bind_eq_ok happ
  obtain rfl := Part.eq_nil_of_any_format (checked_eq_ok_iff.1 hcheck).2 hformat
  obtain ⟨c, hc, hslash⟩ := hp
  exact hslash ((Token.scan_slashes_iff p).1 (Part.ofTokens_eq_nil_iff.1 hps) c hc)

theorem Regular.append_slashes {t : Template} (ht : t.Regular) {p : String}
    (hp : ∀ c ∈ p.toList, c = '/') : t.append p = .ok t := by
  rw [append_eq_bind, Part.ofTokens_eq_nil_iff.2 ((Token.scan_slashes_iff p).2 hp)]
  refine checked_eq_ok_iff.2 ?_
  rw [List.append_nil]
  exact ⟨rfl, ht.ordered⟩

/-- The empty template takes a pattern over, without the slashes in front. -/
theorem append_empty (p : String) :
    append {} p = ofPattern (String.ofList (p.toList.dropWhile (· = '/'))) := by
  have hrooted : Token.rooted (Token.scanChars (p.toList.dropWhile (· = '/'))) = false := by
    rw [← String.toList_ofList (l := p.toList.dropWhile (· = '/')), ← Token.scan_eq,
      Token.rooted_scan, decide_eq_false_iff_not, Input.head?_path, String.toList_ofList]
    intro hhead
    have hnot := List.head?_dropWhile_not (fun c => decide (c = '/')) p.toList
    rw [hhead] at hnot
    exact absurd hnot (by decide)
  rw [append_eq_bind, ofPattern, read, Token.scan_eq, Token.scan_eq, String.toList_ofList,
    Part.ofTokens_dropWhile, hrooted]
  cases Part.ofTokens (Token.scanChars p.toList) <;> rfl

/-- Appending a pattern **is compiling the text with a slash between**, as far as there is a part
in front and a part to append. Behind a format both are refused, for reasons of their own. Slashes
alone change nothing, and with nothing in front the slashes of the pattern are dropped. -/
theorem append_iff_ofPattern_joined {t : Template} (h : t.Reachable) (p : String) :
    (t.items ≠ [] → (∃ c ∈ p.toList, c ≠ '/') →
      (∀ u, t.append p = .ok u ↔ ofPattern (t.pattern ++ "/" ++ p) = .ok u) ∧
        (t.parts.any Part.isFormat = false →
          t.append p = ofPattern (t.pattern ++ "/" ++ p))) ∧
      ((∀ c ∈ p.toList, c = '/') → t.append p = .ok t) ∧
      (t.items = [] →
        t.append p = ofPattern (String.ofList (p.toList.dropWhile (· = '/')))) := by
  have ht := h.regular
  refine ⟨fun hitems hp => ?_, ht.append_slashes, fun hitems => ?_⟩
  · have hjoined := ht.ofPattern_joined hitems p
    refine ⟨fun u => ?_, fun hformat => ?_⟩
    · rw [hjoined]
      cases hformat : t.parts.any Part.isFormat with
      | false => exact Iff.rfl
      | true =>
          constructor
          · intro happ
            exact absurd happ (append_ne_ok_of_format hformat hp u)
          · intro herror
            exact absurd herror (by simp)
    · rw [hjoined, hformat]
      rfl
  · -- no item is left only by the empty template
    obtain ⟨isRooted, ps⟩ := t
    cases isRooted with
    | true => exact absurd hitems (by simp [items])
    | false =>
        obtain rfl : ps = [] := by simpa [items] using hitems
        exact append_empty p

/-- A format is appended without a slash of its own, and a name too many is refused either way. What
is appended behind the format is refused for its empty name, and the joined text for the slash. -/
theorem append_iff_ofPattern_joined_files :
    ∃ t u : Template, t = ⟨true, [.literal "files", .glob "path"]⟩ ∧
      u = ⟨true, [.literal "files", .glob "path", .literal "raw", .format "fmt"]⟩ ∧
      ofPattern "/files/*path" = .ok t ∧
      t.append "//raw.fmt" = .ok u ∧ ofPattern "/files/*path///raw.fmt" = .ok u ∧
      t.append ":id" = .error .variableAfterGlob ∧
      ofPattern "/files/*path/:id" = .error .variableAfterGlob ∧
      t.append "//" = .ok t ∧
      u.append ":" = .error .emptyName ∧
      ofPattern "/files/*path/raw.fmt/:" = .error .formatNotLast ∧
      append {} "//raw.fmt" = .ok ⟨false, [.literal "raw", .format "fmt"]⟩ := by
  let t : Template := ⟨true, [.literal "files", .glob "path"]⟩
  let u : Template := ⟨true, [.literal "files", .glob "path", .literal "raw", .format "fmt"]⟩
  have h : ofPattern "/files/*path" = .ok t := rfl
  have hraw : t.append "//raw.fmt" = .ok u := by decide +kernel
  have hid : t.append ":id" = .error .variableAfterGlob := by decide +kernel
  have hjoined := append_iff_ofPattern_joined (.ofPattern h)
  have hraw' : ofPattern "/files/*path///raw.fmt" = .ok u :=
    (((hjoined "//raw.fmt").1 (by decide) ⟨'r', by decide, by decide⟩).1 u).1 hraw
  have hid' : ofPattern "/files/*path/:id" = .error .variableAfterGlob :=
    (((hjoined ":id").1 (by decide) ⟨':', by decide, by decide⟩).2 rfl).symm.trans hid
  have hempty : append {} "//raw.fmt" = .ok ⟨false, [.literal "raw", .format "fmt"]⟩ :=
    ((append_iff_ofPattern_joined .empty "//raw.fmt").2.2 rfl).trans (by decide +kernel)
  exact ⟨t, u, rfl, rfl, h, hraw, hraw', hid, hid', (hjoined "//").2.1 (by simp),
    by decide +kernel, by decide +kernel, hempty⟩

end Template

end RoutePattern
