/-
Tokens read back from their spelling.

`Token.scan` looks at delimiters only: it cuts at the first `?` and then at every
mark. So a run of plain characters is passed over as it is, and a token ends
where the next delimiter stands. A canonical list is one whose spelling puts a
delimiter behind every name and every literal, and that is the whole argument:
the induction below keeps "what is still to be spelled starts with a delimiter"
and peels one token at a time.

The second half spells lists of tokens that are separated by slashes, the form
that both patterns and paths are written in.
-/
import Mathlib.Data.List.Chain
import RoutePattern.Token

set_option autoImplicit false

namespace RoutePattern

/-! ## Cutting behind a run -/

/-- What is free of the separator stays in the first half. -/
theorem Text.cut_append_of_not_mem {d : Char} {s : List Char} (h : d ∉ s) (r : List Char) :
    cut d (s ++ r) = (s ++ (cut d r).1, (cut d r).2) := by
  induction s with
  | nil => rfl
  | cons c cs ih =>
      have hc : c ≠ d := fun e => h (by simp [e])
      have hcs : d ∉ cs := fun m => h (by simp [m])
      rw [List.cons_append, cut_cons_of_ne hc, ih hcs, List.cons_append]

/-- A run ends in front of the first thing that does not belong to it. -/
theorem Text.takeWhile_run {α : Type} {p : α → Bool} {run rest : List α}
    (h : ∀ x ∈ run, p x = true) (hrest : ∀ x ∈ rest.head?, p x = false) :
    (run ++ rest).takeWhile p = run ∧ (run ++ rest).dropWhile p = rest := by
  rw [List.takeWhile_append_of_pos h, List.dropWhile_append_of_pos h]
  cases rest with
  | nil => exact ⟨List.append_nil run, rfl⟩
  | cons x xs =>
      have hx : p x = false := hrest x rfl
      rw [List.takeWhile_cons_of_neg (by simp [hx]), List.dropWhile_cons_of_neg (by simp [hx]),
        List.append_nil]
      exact ⟨rfl, rfl⟩

/-- A run without marks is gathered in front of what follows it. -/
theorem splitMarks_append {run : List Char} (h : ∀ c ∈ run, Mark.ofChar? c = none)
    (rest : List Char) :
    splitMarks (run ++ rest) = (run ++ (splitMarks rest).1, (splitMarks rest).2) := by
  induction run with
  | nil => rfl
  | cons c cs ih =>
      have hcs : ∀ x ∈ cs, Mark.ofChar? x = none := fun x hx => h x (List.mem_cons_of_mem _ hx)
      rw [List.cons_append, splitMarks_cons_of_none (h c List.mem_cons_self), ih hcs,
        List.cons_append]

namespace Token

/-! ## Plain runs and where they end -/

theorem isDelimiter_eq_false_iff {c : Char} :
    isDelimiter c = false ↔ c ≠ '?' ∧ Mark.ofChar? c = none := by
  simp [isDelimiter]

/-- A run of plain characters has no mark. -/
theorem ofChar?_of_plain {run : List Char} (h : ∀ c ∈ run, isDelimiter c = false) :
    ∀ c ∈ run, Mark.ofChar? c = none :=
  fun c hc => (isDelimiter_eq_false_iff.1 (h c hc)).2

/-- A run of plain characters has no `?`. -/
theorem question_not_mem_of_plain {run : List Char} (h : ∀ c ∈ run, isDelimiter c = false) :
    '?' ∉ run :=
  fun hc => (isDelimiter_eq_false_iff.1 (h _ hc)).1 rfl

/-- A text in front of which a run ends: it is empty or starts with a delimiter. -/
def Closed (s : List Char) : Prop := ∀ c ∈ s.head?, isDelimiter c = true

theorem closed_nil : Closed [] := by
  intro c hc
  simp at hc

theorem closed_cons {c : Char} (h : isDelimiter c = true) (s : List Char) : Closed (c :: s) := by
  intro x hx
  obtain rfl : c = x := by simpa using hx
  exact h

/-- A closed text has nothing in front of its first mark. -/
theorem fst_splitMarks_of_closed {s : List Char} (h : Closed s) :
    (splitMarks (Text.cut '?' s).1).1 = [] := by
  cases s with
  | nil => rfl
  | cons c cs =>
      -- the delimiter that comes first is either the `?`, which is cut off, or a mark
      by_cases hq : c = '?'
      · rw [hq, Text.cut_cons_self]
        rfl
      · rw [Text.cut_cons_of_ne hq]
        cases hm : Mark.ofChar? c with
        | none =>
            have hc : isDelimiter c = false := isDelimiter_eq_false_iff.2 ⟨hq, hm⟩
            rw [h c (by simp)] at hc
            exact absurd hc (by decide)
        | some m =>
            obtain rfl := Mark.char_of_ofChar? hm
            rw [splitMarks_cons_char]

/-! ## One token read -/

/-- The tokens of a list of characters. -/
def scanChars (s : List Char) : List Token :=
  ofPath (Text.cut '?' s).1 ++ ofQuery (Text.cut '?' s).2

theorem scan_eq (s : String) : scan s = scanChars s.toList := rfl

theorem scanChars_question (s : List Char) :
    scanChars ('?' :: s) = [query (String.ofList s)] := by
  rw [scanChars, Text.cut_cons_self]
  rfl

theorem ofPath_eq_append (s : List Char) :
    ofPath s = ofRun (splitMarks s).1 ++ (splitMarks s).2.flatMap ofMarked := rfl

/-- A plain run in front of a closed text is read on its own. -/
theorem scanChars_run {run s : List Char} (h : ∀ c ∈ run, isDelimiter c = false)
    (hs : Closed s) : scanChars (run ++ s) = ofRun run ++ scanChars s := by
  -- neither the cut nor the marks see the run, and behind it no other run is open
  rw [scanChars, Text.cut_append_of_not_mem (question_not_mem_of_plain h), ofPath_eq_append,
    splitMarks_append (ofChar?_of_plain h), fst_splitMarks_of_closed hs, scanChars,
    ofPath_eq_append, fst_splitMarks_of_closed hs]
  simp [ofRun]

theorem scanChars_slash (s : List Char) : scanChars ('/' :: s) = slash :: scanChars s := by
  have h : splitMarks ('/' :: (Text.cut '?' s).1) =
      ([], (.slash, (splitMarks (Text.cut '?' s).1).1) :: (splitMarks (Text.cut '?' s).1).2) :=
    splitMarks_cons_char .slash _
  rw [scanChars, Text.cut_cons_of_ne (by decide), ofPath_eq_append, h, scanChars,
    ofPath_eq_append]
  simp [ofRun, ofMarked]

/-- A mark with a plain run behind it is read on its own in front of a closed text. -/
theorem scanChars_mark (m : Mark) {run s : List Char} (h : ∀ c ∈ run, isDelimiter c = false)
    (hs : Closed s) : scanChars (m.char :: (run ++ s)) = ofMarked (m, run) ++ scanChars s := by
  have hm : m.char ≠ '?' := by cases m <;> decide
  rw [scanChars, Text.cut_cons_of_ne hm, Text.cut_append_of_not_mem (question_not_mem_of_plain h),
    ofPath_eq_append, splitMarks_cons_char, splitMarks_append (ofChar?_of_plain h),
    fst_splitMarks_of_closed hs, scanChars, ofPath_eq_append, fst_splitMarks_of_closed hs]
  simp [ofRun]

/-! ## All tokens read -/

@[simp] theorem toList_spell_slash : slash.spell.toList = ['/'] := rfl

@[simp] theorem toList_spell_var (name : String) :
    (var name).spell.toList = ':' :: name.toList := by simp [spell]

@[simp] theorem toList_spell_glob (name : String) :
    (glob name).spell.toList = '*' :: name.toList := by simp [spell]

@[simp] theorem toList_spell_format (name : String) :
    (format name).spell.toList = '.' :: name.toList := by simp [spell]

@[simp] theorem toList_spell_query (text : String) :
    (query text).spell.toList = '?' :: text.toList := by simp [spell]

theorem toList_spellAll (tokens : List Token) :
    (spellAll tokens).toList = tokens.flatMap fun t => t.spell.toList := by
  rw [spellAll, String.toList_join, List.flatMap_map]

theorem toList_spellAll_cons (t : Token) (ts : List Token) :
    (spellAll (t :: ts)).toList = t.spell.toList ++ (spellAll ts).toList := by
  rw [toList_spellAll, List.flatMap_cons, toList_spellAll]

theorem spellAll_append (as bs : List Token) : spellAll (as ++ bs) = spellAll as ++ spellAll bs := by
  rw [spellAll, List.map_append, String.join_append]
  rfl

/-- Where no run may start, the spelling starts with a delimiter. -/
theorem closed_of_canonicalFrom {tokens : List Token} (h : CanonicalFrom false tokens) :
    Closed (spellAll tokens).toList := by
  rw [toList_spellAll]
  cases tokens with
  | nil => exact closed_nil
  | cons t ts =>
      cases t with
      | slash => exact closed_cons (by decide) _
      | literal text => exact absurd h.1 (by decide)
      | _ =>
          -- all others are written with their delimiter first
          rw [List.flatMap_cons, spell, String.toList_append]
          exact closed_cons (by decide) _

theorem ofRun_toList {text : String} (h : text ≠ "") : ofRun text.toList = [literal text] := by
  cases hl : text.toList with
  | nil => exact absurd (String.toList_eq_nil_iff.1 hl) h
  | cons c cs => rw [ofRun, ← hl, String.ofList_toList]; simp

/-- A token that is a mark with a plain name is read on its own in front of a closed text. -/
theorem scanChars_spell {t : Token} {m : Mark} {name : String} {s : List Char}
    (hspell : t.spell.toList = m.char :: name.toList) (hread : ofMarked (m, name.toList) = [t])
    (hplain : Plain name) (hs : Closed s) :
    scanChars (t.spell.toList ++ s) = t :: scanChars s := by
  have hmark := scanChars_mark m hplain hs
  rw [hread] at hmark
  rw [hspell]
  exact hmark

/-- The induction behind `scan_spellAll`: whether a run may start here does not matter, since a
literal is only there if it may. -/
theorem scanChars_spellAll {tokens : List Token} :
    ∀ {isOpen : Bool}, CanonicalFrom isOpen tokens →
      scanChars (spellAll tokens).toList = tokens := by
  induction tokens with
  | nil => intro _ _; rfl
  | cons t ts ih =>
      intro isOpen h
      rw [toList_spellAll_cons]
      -- a slash needs nothing of what follows; every other token ends because a delimiter follows
      cases t with
      | slash =>
          have h' : CanonicalFrom true ts := h
          exact (scanChars_slash _).trans (congrArg (slash :: ·) (ih h'))
      | literal text =>
          obtain ⟨-, hne, hplain, hrest⟩ := h
          rw [spell, scanChars_run hplain (closed_of_canonicalFrom hrest), ofRun_toList hne,
            ih hrest]
          rfl
      | var name =>
          obtain ⟨hplain, hrest⟩ := h
          rw [scanChars_spell (m := .colon) (by simp [spell, Mark.char]) (by simp [ofMarked]) hplain
            (closed_of_canonicalFrom hrest), ih hrest]
      | glob name =>
          obtain ⟨hplain, hrest⟩ := h
          rw [scanChars_spell (m := .star) (by simp [spell, Mark.char]) (by simp [ofMarked]) hplain
            (closed_of_canonicalFrom hrest), ih hrest]
      | format name =>
          obtain ⟨hplain, hrest⟩ := h
          rw [scanChars_spell (m := .dot) (by simp [spell, Mark.char]) (by simp [ofMarked]) hplain
            (closed_of_canonicalFrom hrest), ih hrest]
      | query text =>
          obtain rfl : ts = [] := h
          rw [spell, String.toList_append]
          exact (scanChars_question _).trans (by simp [spellAll])

/-- A canonical list of tokens is **read back from its spelling**. -/
theorem scan_spellAll {tokens : List Token} (h : Canonical tokens) :
    scan (spellAll tokens) = tokens := by
  rw [scan_eq]
  exact scanChars_spellAll h

/-! ## What reading gives is canonical -/

/-- A list that may follow a token may stand anywhere. -/
theorem CanonicalFrom.mono {tokens : List Token} (h : CanonicalFrom false tokens)
    (isOpen : Bool) : CanonicalFrom isOpen tokens := by
  cases tokens with
  | nil => trivial
  | cons t ts =>
      cases t with
      | literal text => exact absurd h.1 (by decide)
      | _ => exact h

theorem canonicalFrom_ofRun {run : List Char} (h : ∀ c ∈ run, isDelimiter c = false)
    {rest : List Token} (hrest : CanonicalFrom false rest) :
    CanonicalFrom true (ofRun run ++ rest) := by
  cases run with
  | nil => exact hrest.mono true
  | cons c cs => exact ⟨rfl, by simp, by simpa [Plain] using h, hrest⟩

theorem canonicalFrom_ofMarked (m : Mark) {run : List Char}
    (h : ∀ c ∈ run, isDelimiter c = false) {rest : List Token}
    (hrest : CanonicalFrom false rest) : CanonicalFrom false (ofMarked (m, run) ++ rest) := by
  have hplain : Plain (String.ofList run) := by simpa [Plain] using h
  cases m with
  | slash => exact canonicalFrom_ofRun h hrest
  | _ => exact ⟨hplain, hrest⟩

/-- Every run that splitting gives is free of marks, and made of characters of the text. -/
theorem mem_splitMarks (s : List Char) :
    (∀ c ∈ (splitMarks s).1, c ∈ s ∧ Mark.ofChar? c = none) ∧
      ∀ p ∈ (splitMarks s).2, ∀ c ∈ p.2, c ∈ s ∧ Mark.ofChar? c = none := by
  induction s with
  | nil => simp
  | cons x xs ih =>
      -- a mark starts a new run, and any other character joins the first one
      cases hx : Mark.ofChar? x with
      | none =>
          rw [splitMarks_cons_of_none hx]
          refine ⟨fun c hc => ?_, fun p hp c hc => ?_⟩
          · rcases List.mem_cons.1 hc with rfl | hc
            · exact ⟨List.mem_cons_self, hx⟩
            · exact ⟨List.mem_cons_of_mem _ (ih.1 c hc).1, (ih.1 c hc).2⟩
          · exact ⟨List.mem_cons_of_mem _ (ih.2 p hp c hc).1, (ih.2 p hp c hc).2⟩
      | some m =>
          obtain rfl := Mark.char_of_ofChar? hx
          rw [splitMarks_cons_char]
          refine ⟨fun c hc => absurd hc List.not_mem_nil, fun p hp c hc => ?_⟩
          rcases List.mem_cons.1 hp with rfl | hp
          · exact ⟨List.mem_cons_of_mem _ (ih.1 c hc).1, (ih.1 c hc).2⟩
          · exact ⟨List.mem_cons_of_mem _ (ih.2 p hp c hc).1, (ih.2 p hp c hc).2⟩

theorem canonicalFrom_flatMap_ofMarked {marked : List (Mark × List Char)}
    (h : ∀ p ∈ marked, ∀ c ∈ p.2, isDelimiter c = false) {rest : List Token}
    (hrest : CanonicalFrom false rest) :
    CanonicalFrom false (marked.flatMap ofMarked ++ rest) := by
  induction marked with
  | nil => exact hrest
  | cons p ps ih =>
      rw [List.flatMap_cons, List.append_assoc]
      exact canonicalFrom_ofMarked p.1 (h p List.mem_cons_self)
        (ih fun q hq => h q (List.mem_cons_of_mem _ hq))

/-- Reading gives **canonical lists only**. -/
theorem canonical_scan (s : String) : Canonical (scan s) := by
  have hplain : ∀ c, c ∈ (Text.cut '?' s.toList).1 ∧ Mark.ofChar? c = none →
      isDelimiter c = false := by
    rintro c ⟨hc, hm⟩
    refine isDelimiter_eq_false_iff.2 ⟨?_, hm⟩
    rintro rfl
    exact Text.not_mem_cut_fst _ _ hc
  -- runs are free of marks, and in front of the cut there is no `?` either
  have hruns := mem_splitMarks (Text.cut '?' s.toList).1
  have hquery : CanonicalFrom false (ofQuery (Text.cut '?' s.toList).2) := by
    cases (Text.cut '?' s.toList).2 with
    | none => trivial
    | some q => exact rfl
  rw [scan_eq, scanChars, ofPath_eq_append, List.append_assoc]
  exact canonicalFrom_ofRun (fun c hc => hplain c (hruns.1 c hc))
    (canonicalFrom_flatMap_ofMarked (fun p hp c hc => hplain c (hruns.2 p hp c hc)) hquery)

/-- What holds of each token by itself: names and literals are plain, and no literal is empty. -/
def Sound : Token → Prop
  | slash => True
  | literal text => text ≠ "" ∧ Plain text
  | var name => Plain name
  | glob name => Plain name
  | format name => Plain name
  | query _ => True

/-- Which tokens may stand one behind the other: nothing stands behind a query, and a literal only
behind a slash. -/
def MayPrecede (t u : Token) : Prop :=
  (∀ text, t ≠ query text) ∧ ∀ text, u = literal text → t = slash

/-- Nothing stands behind a query. -/
theorem isChain_query_iff {text : String} {tokens : List Token} :
    (query text :: tokens).IsChain MayPrecede ↔ tokens = [] := by
  cases tokens with
  | nil => simp
  | cons t ts =>
      rw [List.isChain_cons_cons]
      exact iff_of_false (fun h => h.1.1 text rfl) (List.cons_ne_nil t ts)

/-- What may follow a token, told by each token and by its neighbours. -/
theorem canonicalFrom_iff {tokens : List Token} {p : Token} (hp : ∀ text, p ≠ query text)
    {isOpen : Bool} (hopen : isOpen = true ↔ p = slash) :
    CanonicalFrom isOpen tokens ↔
      (∀ t ∈ tokens, t.Sound) ∧ (p :: tokens).IsChain MayPrecede := by
  induction tokens generalizing p isOpen with
  | nil => simp [CanonicalFrom]
  | cons t ts ih =>
      have hmay : p.MayPrecede t ↔ ∀ text, t = literal text → p = slash := and_iff_right hp
      rw [List.forall_mem_cons, List.isChain_cons_cons, hmay]
      cases t with
      | slash =>
          rw [CanonicalFrom, ih (p := slash) (by simp) (by simp)]
          simp [Sound]
      | literal text =>
          rw [CanonicalFrom, ih (p := literal text) (by simp) (by simp), hopen]
          simp only [Sound, literal.injEq, forall_eq']
          tauto
      | var name =>
          rw [CanonicalFrom, ih (p := var name) (by simp) (by simp)]
          simp [Sound, and_assoc]
      | glob name =>
          rw [CanonicalFrom, ih (p := glob name) (by simp) (by simp)]
          simp [Sound, and_assoc]
      | format name =>
          rw [CanonicalFrom, ih (p := format name) (by simp) (by simp)]
          simp [Sound, and_assoc]
      | query text =>
          rw [CanonicalFrom, isChain_query_iff]
          simp +contextual [Sound]

/-- Canonical lists told by places: every token is sound, a literal stands first or right behind a
slash, and a query stands last. -/
theorem canonical_iff {tokens : List Token} :
    Canonical tokens ↔ (∀ t ∈ tokens, t.Sound) ∧ tokens.IsChain MayPrecede := by
  have hfrom : CanonicalFrom true tokens ↔ _ := canonicalFrom_iff (p := slash) (by simp) (by simp)
  have hfirst : (slash :: tokens).IsChain MayPrecede ↔ tokens.IsChain MayPrecede := by
    cases tokens with
    | nil => simp
    | cons t ts =>
        rw [List.isChain_cons_cons]
        exact and_iff_right ⟨by simp, fun _ _ => rfl⟩
  rwa [hfirst] at hfrom

theorem sound_of_mem_scan {s : String} {t : Token} (h : t ∈ scan s) : t.Sound :=
  (canonical_iff.1 (canonical_scan s)).1 t h

/-! ## Nothing is lost -/

theorem flatMap_spell_ofRun (run : List Char) :
    (ofRun run).flatMap (fun t => t.spell.toList) = run := by
  cases run with
  | nil => rfl
  | cons c cs => simp [ofRun, spell]

theorem flatMap_spell_ofMarked (p : Mark × List Char) :
    (ofMarked p).flatMap (fun t => t.spell.toList) = p.1.char :: p.2 := by
  obtain ⟨m, run⟩ := p
  cases m with
  | slash =>
      rw [ofMarked, List.flatMap_cons, flatMap_spell_ofRun]
      rfl
  | _ => simp [ofMarked, spell, Mark.char]

/-- Reading **loses nothing**: the tokens of a text spell it. -/
theorem spellAll_scan (s : String) : spellAll (scan s) = s := by
  have hpath : ∀ path : List Char, (ofPath path).flatMap (fun t => t.spell.toList) = path := by
    intro path
    rw [ofPath_eq_append, List.flatMap_append, flatMap_spell_ofRun, List.flatMap_assoc]
    simp only [flatMap_spell_ofMarked]
    exact flatten_splitMarks path
  apply String.toList_injective
  rw [toList_spellAll, scan_eq, scanChars, List.flatMap_append, hpath]
  -- the query token holds all that follows the cut
  cases h : (Text.cut '?' s.toList).2 with
  | none => simpa [ofQuery] using Text.eq_of_cut_none h
  | some q => simpa [ofQuery, spell] using (Text.eq_of_cut_some h).symm

/-! ## Tokens with slashes between them

Patterns and paths are both laid out as an optional slash in front, places with
one slash between each two, and an attachment behind the last place. -/

/-- A token that may stand between two slashes. -/
def Place : Token → Prop
  | literal text => text ≠ "" ∧ Plain text
  | var name => Plain name
  | glob name => Plain name
  | _ => False

/-- A slash in front if there shall be one, the places, and what is attached. -/
def layout (isRooted : Bool) (places attached : List Token) : List Token :=
  (if isRooted then [slash] else []) ++ (places.intersperse slash ++ attached)

theorem spellAll_intersperse (places : List Token) :
    spellAll (places.intersperse slash) = "/".intercalate (places.map spell) := by
  induction places with
  | nil => rfl
  | cons t ts ih =>
      cases ts with
      | nil => simp [spellAll]
      | cons u us =>
          have hspell : spellAll ((t :: u :: us).intersperse slash) =
              t.spell ++ ("/" ++ spellAll ((u :: us).intersperse slash)) := by
            rw [List.intersperse_cons_cons, spellAll, List.map_cons, List.map_cons,
              String.join_cons, String.join_cons]
            rfl
          simp only [hspell, ih, List.map_cons, String.intercalate_cons_cons,
            String.append_assoc]

theorem spellAll_layout (isRooted : Bool) (places attached : List Token) :
    spellAll (layout isRooted places attached) =
      (if isRooted then "/" else "") ++ "/".intercalate (places.map spell) ++
        spellAll attached := by
  rw [layout, spellAll_append, spellAll_append, spellAll_intersperse, String.append_assoc]
  cases isRooted <;> rfl

theorem canonicalFrom_intersperse {places attached : List Token} (h : ∀ t ∈ places, t.Place)
    (ha : CanonicalFrom false attached) :
    CanonicalFrom true (places.intersperse slash ++ attached) := by
  have hplace : ∀ {t : Token} {rest : List Token}, t.Place → CanonicalFrom false rest →
      CanonicalFrom true (t :: rest) := by
    intro t rest ht hrest
    cases t with
    | literal text => exact ⟨rfl, ht.1, ht.2, hrest⟩
    | var name => exact ⟨ht, hrest⟩
    | glob name => exact ⟨ht, hrest⟩
    | _ => exact absurd ht id
  induction places with
  | nil => exact ha.mono true
  | cons t ts ih =>
      have hts := ih fun u hu => h u (List.mem_cons_of_mem _ hu)
      cases ts with
      | nil => exact hplace (h t List.mem_cons_self) ha
      | cons u us => exact hplace (h t List.mem_cons_self) hts

theorem canonical_layout (isRooted : Bool) {places attached : List Token}
    (h : ∀ t ∈ places, t.Place) (ha : CanonicalFrom false attached) :
    Canonical (layout isRooted places attached) := by
  have := canonicalFrom_intersperse h ha
  cases isRooted with
  | false => exact this
  | true => exact this

/-- Dropping the slashes of a layout leaves the places and what is attached. -/
theorem filter_layout (isRooted : Bool) {places attached : List Token}
    (h : ∀ t ∈ places, t.Place) (ha : slash ∉ attached) :
    (layout isRooted places attached).filter (· ≠ slash) = places ++ attached := by
  have hne : ∀ t ∈ places, t ≠ slash := by
    rintro t ht rfl
    exact h _ ht
  have hattached : attached.filter (· ≠ slash) = attached := by
    refine List.filter_eq_self.2 fun t ht => ?_
    have : t ≠ slash := fun e => ha (e ▸ ht)
    simpa using this
  have hplaces : (places.intersperse slash).filter (· ≠ slash) = places := by
    clear h
    induction places with
    | nil => rfl
    | cons t ts ih =>
        -- of the first two tokens the slash goes and the place stays
        have ht : t ≠ slash := hne t List.mem_cons_self
        have hts := ih fun u hu => hne u (List.mem_cons_of_mem _ hu)
        cases ts with
        | nil => simp [ht]
        | cons u us => rw [List.intersperse_cons_cons]; simpa [ht] using hts
  rw [layout, List.filter_append, List.filter_append, hattached, hplaces]
  cases isRooted <;> rfl

/-- A layout starts with a slash exactly when it shall. -/
theorem rooted_layout (isRooted : Bool) {places attached : List Token}
    (h : ∀ t ∈ places, t.Place) (ha : slash ∉ attached) :
    rooted (layout isRooted places attached) = isRooted := by
  cases isRooted with
  | true => rfl
  | false =>
      -- without a slash in front the first place comes first, or what is attached
      cases places with
      | nil =>
          cases attached with
          | nil => rfl
          | cons a as =>
              have : a ≠ slash := fun e => ha (e ▸ List.mem_cons_self)
              simpa [rooted, layout] using this
      | cons t ts =>
          have ht : t ≠ slash := by
            rintro rfl
            exact h _ List.mem_cons_self
          cases ts <;> simpa [rooted, layout] using ht

end Token

end RoutePattern
