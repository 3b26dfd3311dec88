/-
An input as text.

The language of a template is about the text of an input: its query starts behind
the first `?`, its path is made of pieces between slashes, and one `.` may start
an extension, behind which only slashes can stand. This file says so without
tokens (`path`, `pieces`, `extension?`, `query?`, `Readable`) and then shows that
it is the same as what reading leaves of the input when its slashes are dropped:
literals, then at most one format, then at most one query.

`Token.flat` is that list. Only inputs that are readable have it, which is
`Token.filter_scan_eq_flat_iff`; the direction from tokens to text rests on
`mem_splitMarks_snd`, since a mark anywhere in the path leaves a token behind.
-/
import RoutePattern.Proofs.Spelling

set_option autoImplicit false

namespace RoutePattern

/-! ## The text of an input -/

namespace Input

/-- What stands before the first `?`. -/
def path (s : String) : List Char := (Text.cut '?' s.toList).1

/-- What stands behind the first `?`, if there is one. -/
def query? (s : String) : Option String := (Text.cut '?' s.toList).2.map String.ofList

/-- The path before its first `.`. -/
def stem (s : String) : List Char := (Text.cut '.' (path s)).1

/-- The path behind its first `.`, if there is one. -/
def tail? (s : String) : Option (List Char) := (Text.cut '.' (path s)).2

/-- The pieces between slashes before the first `.`, empty ones left out. -/
def pieces (s : String) : List String :=
  (((stem s).splitOn '/').filter (· ≠ [])).map String.ofList

/-- What stands behind the first `.` up to a slash. -/
def extension? (s : String) : Option String :=
  (tail? s).map fun tail => String.ofList (tail.takeWhile (· ≠ '/'))

/-- A path that some template can match. -/
structure Readable (s : String) : Prop where
  no_colon : ':' ∉ path s
  no_star : '*' ∉ path s
  one_dot : (path s).count '.' ≤ 1
  /-- Behind the extension there is nothing but slashes. -/
  slashes : ∀ tail, tail? s = some tail → ∀ c ∈ tail.dropWhile (· ≠ '/'), c = '/'

theorem dot_not_mem_stem (s : String) : '.' ∉ stem s := Text.not_mem_cut_fst _ _

theorem query?_eq_none_iff {s : String} : query? s = none ↔ '?' ∉ s.toList := by
  rw [query?, Option.map_eq_none_iff]
  constructor
  · intro h
    exact (Text.cut_eq_none_iff.1 (Prod.ext rfl h)).2
  · intro h
    rw [Text.cut_of_not_mem h]

theorem path_of_tail?_eq_none {s : String} (h : tail? s = none) : path s = stem s :=
  (Text.eq_of_cut_none h).symm

theorem path_of_tail?_eq_some {s : String} {tail : List Char} (h : tail? s = some tail) :
    path s = stem s ++ '.' :: tail :=
  Text.eq_of_cut_some h

theorem head?_path (s : String) : (path s).head? = some '/' ↔ s.toList.head? = some '/' := by
  rw [path]
  cases s.toList with
  | nil => rfl
  | cons c cs =>
      by_cases hc : c = '?'
      · subst hc
        simp
      · rw [Text.cut_cons_of_ne hc]
        rfl

end Input

/-! ## Marks in a text -/

/-- Splitting goes on behind a mark as at the start. -/
theorem splitMarks_append_char (a : List Char) (m : Mark) (b : List Char) :
    splitMarks (a ++ m.char :: b) =
      ((splitMarks a).1, (splitMarks a).2 ++ (m, (splitMarks b).1) :: (splitMarks b).2) := by
  induction a with
  | nil => simp
  | cons c cs ih =>
      rw [List.cons_append]
      cases hc : Mark.ofChar? c with
      | none => rw [splitMarks_cons_of_none hc, splitMarks_cons_of_none hc, ih]
      | some n =>
          obtain rfl := Mark.char_of_ofChar? hc
          rw [splitMarks_cons_char, splitMarks_cons_char, ih]
          rfl

/-- The marks that splitting gives are those of the text. -/
theorem mem_splitMarks_snd (s : List Char) (m : Mark) :
    m ∈ (splitMarks s).2.map Prod.fst ↔ m.char ∈ s := by
  induction s with
  | nil => simp
  | cons c cs ih =>
      cases hc : Mark.ofChar? c with
      | none =>
          have hne : m.char ≠ c := by
            rintro rfl
            rw [Mark.ofChar?_char] at hc
            exact absurd hc (by simp)
          rw [splitMarks_cons_of_none hc, ih, List.mem_cons]
          exact (or_iff_right hne).symm
      | some n =>
          obtain rfl := Mark.char_of_ofChar? hc
          have hchar : m.char = n.char ↔ m = n := by
            constructor
            · intro h
              have := congrArg Mark.ofChar? h
              simpa using this
            · rintro rfl
              rfl
          rw [splitMarks_cons_char, List.map_cons, List.mem_cons, List.mem_cons, ih, hchar]

/-- Where slashes are the only marks, splitting at marks is splitting at slashes. -/
theorem splitOn_slash {s : List Char} (h : ∀ m ∈ (splitMarks s).2.map Prod.fst, m = .slash) :
    s.splitOn '/' = (splitMarks s).1 :: (splitMarks s).2.map Prod.snd := by
  induction s with
  | nil => rfl
  | cons c cs ih =>
      cases hc : Mark.ofChar? c with
      | none =>
          rw [splitMarks_cons_of_none hc] at h ⊢
          -- a character that is no mark is no slash
          have hne : (c == '/') = false := by
            refine beq_eq_false_iff_ne.2 ?_
            rintro rfl
            exact absurd hc (by decide)
          rw [List.splitOn_cons_eq_if_modifyHead, hne, ih h]
          rfl
      | some n =>
          obtain rfl := Mark.char_of_ofChar? hc
          rw [splitMarks_cons_char] at h ⊢
          have hn : n = .slash := h n (by simp)
          have hrest := ih fun m hm => h m (List.mem_cons_of_mem _ hm)
          rw [hn, List.splitOn_cons_eq_if_modifyHead, if_pos (by decide), hrest]
          rfl

namespace Token

/-! ## Tokens without slashes -/

/-- Literals, then a format if there shall be one, then a query if there shall be one. -/
def flat (pieces : List String) (dotted? query? : Option String) : List Token :=
  pieces.map literal ++ (dotted?.toList.map format ++ query?.toList.map query)

theorem filter_ofRun (run : List Char) : (ofRun run).filter (· ≠ slash) = ofRun run := by
  cases run <;> simp [ofRun]

theorem ofRun_flatMap (runs : List (List Char)) :
    runs.flatMap ofRun = ((runs.filter (· ≠ [])).map String.ofList).map literal := by
  induction runs with
  | nil => rfl
  | cons run runs ih =>
      rw [List.flatMap_cons, ih]
      cases run <;> simp [ofRun]

/-- A part of the path in which slashes are the only marks is read as its pieces. -/
theorem filter_ofPath {s : List Char} (h : ∀ m ∈ (splitMarks s).2.map Prod.fst, m = .slash) :
    (ofPath s).filter (· ≠ slash) =
      (((s.splitOn '/').filter (· ≠ [])).map String.ofList).map literal := by
  have hmarked : ∀ l : List (Mark × List Char), (∀ m ∈ l.map Prod.fst, m = .slash) →
      (l.flatMap ofMarked).filter (· ≠ slash) = (l.map Prod.snd).flatMap ofRun := by
    intro l hl
    induction l with
    | nil => rfl
    | cons p ps ih =>
        obtain ⟨m, run⟩ := p
        obtain rfl : m = .slash := hl m (by simp)
        rw [List.flatMap_cons, List.filter_append, ih fun m hm => hl m (List.mem_cons_of_mem _ hm)]
        simpa [ofMarked] using filter_ofRun run
  rw [splitOn_slash h, ← ofRun_flatMap, List.flatMap_cons, ofPath_eq_append, List.filter_append,
    filter_ofRun, hmarked _ h]

/-- The first `.` starts a format, and its name runs up to the next mark. -/
theorem ofPath_append_dot (a b : List Char) :
    ofPath (a ++ '.' :: b) =
      ofPath a ++ format (String.ofList (splitMarks b).1) ::
        (splitMarks b).2.flatMap ofMarked := by
  have hsplit := splitMarks_append_char a .dot b
  have hdot : a ++ Mark.dot.char :: b = a ++ '.' :: b := rfl
  rw [hdot] at hsplit
  rw [ofPath_eq_append, hsplit, ofPath_eq_append, List.flatMap_append, List.flatMap_cons,
    List.append_assoc]
  rfl

/-- A slash goes on as at the start. -/
theorem ofPath_append_slash (a b : List Char) :
    ofPath (a ++ '/' :: b) = ofPath a ++ slash :: ofPath b := by
  have hsplit := splitMarks_append_char a .slash b
  have hslash : a ++ Mark.slash.char :: b = a ++ '/' :: b := rfl
  rw [hslash] at hsplit
  rw [ofPath_eq_append, hsplit, ofPath_eq_append, ofPath_eq_append, List.flatMap_append,
    List.flatMap_cons, List.append_assoc]
  rfl

/-- A text with a slash behind it is **read on its own**, if its query does not go on. -/
theorem scan_append_slash {s : String} (h : '?' ∉ s.toList) (r : String) :
    scan (s ++ "/" ++ r) = scan s ++ slash :: scan r := by
  have hlist : (s ++ "/" ++ r).toList = s.toList ++ '/' :: r.toList := by simp
  rw [scan_eq, hlist, scanChars, Text.cut_append_of_not_mem h, Text.cut_cons_of_ne (by decide),
    ofPath_append_slash, scan_eq, scanChars, Text.cut_of_not_mem h, scan_eq, scanChars]
  simp [ofQuery]

/-! ## From text to tokens -/

theorem marks_eq_slash {s : List Char} (hcolon : ':' ∉ s) (hstar : '*' ∉ s) (hdot : '.' ∉ s) :
    ∀ m ∈ (splitMarks s).2.map Prod.fst, m = .slash := by
  intro m hm
  have hchar := (mem_splitMarks_snd s m).1 hm
  cases m with
  | slash => rfl
  | colon => exact absurd hchar hcolon
  | star => exact absurd hchar hstar
  | dot => exact absurd hchar hdot

theorem splitMarks_of_slashes {s : List Char} (h : ∀ c ∈ s, c = '/') :
    splitMarks s = ([], s.map fun _ => (.slash, [])) := by
  induction s with
  | nil => rfl
  | cons c cs ih =>
      have hc : c = Mark.slash.char := h c List.mem_cons_self
      rw [hc, splitMarks_cons_char, ih fun x hx => h x (List.mem_cons_of_mem _ hx)]
      rfl

/-- The part of a readable path behind its `.` is a plain extension and slashes. -/
theorem splitMarks_tail {tail : List Char} (hcolon : ':' ∉ tail) (hstar : '*' ∉ tail)
    (hdot : '.' ∉ tail) (h : ∀ c ∈ tail.dropWhile (· ≠ '/'), c = '/') :
    splitMarks tail = (tail.takeWhile (· ≠ '/'),
      (tail.dropWhile (· ≠ '/')).map fun _ => (.slash, [])) := by
  have hrun : ∀ c ∈ tail.takeWhile (· ≠ '/'), Mark.ofChar? c = none := by
    intro c hc
    have hmem : c ∈ tail := List.takeWhile_subset _ hc
    have hslash : c ≠ '/' := by simpa using List.all_eq_true.1 List.all_takeWhile c hc
    cases hm : Mark.ofChar? c with
    | none => rfl
    | some m =>
        obtain rfl := Mark.char_of_ofChar? hm
        cases m with
        | slash => exact absurd rfl hslash
        | colon => exact absurd hmem hcolon
        | star => exact absurd hmem hstar
        | dot => exact absurd hmem hdot
  have happend := splitMarks_append hrun (tail.dropWhile (· ≠ '/'))
  rw [List.takeWhile_append_dropWhile, splitMarks_of_slashes h, List.append_nil] at happend
  exact happend

theorem scan_eq_append (s : String) :
    scan s = ofPath (Input.path s) ++ (Input.query? s).toList.map query := by
  rw [scan_eq, scanChars, Input.query?, ofQuery]
  cases (Text.cut '?' s.toList).2 <;> rfl

theorem filter_scan_eq (s : String) :
    (scan s).filter (· ≠ slash) =
      (ofPath (Input.path s)).filter (· ≠ slash) ++ (Input.query? s).toList.map query := by
  rw [scan_eq_append, List.filter_append]
  cases Input.query? s <;> simp

/-- A readable input is read as its pieces, its extension and its query. -/
theorem filter_scan {s : String} (h : Input.Readable s) :
    (scan s).filter (· ≠ slash) =
      flat (Input.pieces s) (Input.extension? s) (Input.query? s) := by
  have hsub : ∀ c ∈ Input.stem s, c ∈ Input.path s := by
    intro c hc
    cases ht : Input.tail? s with
    | none => rwa [Input.path_of_tail?_eq_none ht]
    | some tail =>
        rw [Input.path_of_tail?_eq_some ht]
        exact List.mem_append_left _ hc
  -- in the stem slashes are the only marks
  have hstem := filter_ofPath (marks_eq_slash (fun hm => h.no_colon (hsub _ hm))
    (fun hm => h.no_star (hsub _ hm)) (Input.dot_not_mem_stem s))
  rw [filter_scan_eq, flat, ← List.append_assoc]
  congr 1
  cases ht : Input.tail? s with
  | none =>
      rw [Input.path_of_tail?_eq_none ht, hstem, Input.extension?, ht]
      simp [Input.pieces]
  | some tail =>
      have hpath := Input.path_of_tail?_eq_some ht
      have hmem : ∀ c ∈ tail, c ∈ Input.path s := by
        intro c hc
        rw [hpath]
        exact List.mem_append_right _ (List.mem_cons_of_mem _ hc)
      -- the one dot is in front of the tail
      have hdot : '.' ∉ tail := by
        intro hm
        have hcount := h.one_dot
        rw [hpath, List.count_append, List.count_cons_self] at hcount
        have := List.count_pos_iff.2 hm
        omega
      have hsplit := splitMarks_tail (fun hm => h.no_colon (hmem _ hm))
        (fun hm => h.no_star (hmem _ hm)) hdot (h.slashes tail ht)
      rw [hpath, ofPath_append_dot, hsplit, List.filter_append, hstem, Input.extension?, ht]
      simp [Input.pieces, ofMarked, ofRun]

/-! ## From tokens to text -/

theorem mem_flat {pieces : List String} {dotted? query? : Option String} {t : Token}
    (h : t ∈ flat pieces dotted? query?) :
    (∃ text, t = literal text) ∨ (∃ name, t = format name) ∨ ∃ text, t = query text := by
  rcases List.mem_append.1 h with h | h
  · obtain ⟨text, -, rfl⟩ := List.mem_map.1 h
    exact .inl ⟨text, rfl⟩
  · rcases List.mem_append.1 h with h | h
    · obtain ⟨name, -, rfl⟩ := List.mem_map.1 h
      exact .inr (.inl ⟨name, rfl⟩)
    · obtain ⟨text, -, rfl⟩ := List.mem_map.1 h
      exact .inr (.inr ⟨text, rfl⟩)

/-- Behind a format there are only queries. -/
theorem eq_query_of_flat {pieces : List String} {dotted? query? : Option String} {name : String}
    {as bs : List Token} (h : flat pieces dotted? query? = as ++ format name :: bs) :
    ∀ t ∈ bs, ∃ text, t = query text := by
  have hquery : ∀ {ts us : List Token}, query?.toList.map query ≠ ts ++ format name :: us := by
    intro ts us heq
    have hmem : format name ∈ query?.toList.map query := by
      rw [heq]
      simp
    simp at hmem
  -- on the pieces, all of which stand in front of the format
  induction pieces generalizing as with
  | nil =>
      cases dotted? with
      | none => exact absurd h hquery
      | some e =>
          cases as with
          | nil =>
              have hbs : query?.toList.map query = bs := (List.cons.inj h).2
              intro t ht
              rw [← hbs] at ht
              obtain ⟨text, -, rfl⟩ := List.mem_map.1 ht
              exact ⟨text, rfl⟩
          | cons a as => exact absurd (List.cons.inj h).2 hquery
  | cons p ps ih =>
      cases as with
      | nil => exact absurd (List.cons.inj h).1 (by simp)
      | cons a as => exact ih (List.cons.inj h).2

theorem query_not_mem_ofMarked (p : Mark × List Char) (text : String) :
    query text ∉ ofMarked p := by
  obtain ⟨m, run⟩ := p
  cases m with
  | slash => cases run <;> simp [ofMarked, ofRun]
  | _ => simp [ofMarked]

/-- A mark that leaves nothing but slashes is one, and nothing stands behind it. -/
theorem eq_of_ofMarked_eq_slash {p : Mark × List Char} (h : ∀ t ∈ ofMarked p, t = slash) :
    p = (.slash, []) := by
  obtain ⟨m, run⟩ := p
  cases m with
  | slash =>
      cases run with
      | nil => rfl
      | cons c cs =>
          have hlit := h (literal (String.ofList (c :: cs))) (by simp [ofMarked, ofRun])
          exact absurd hlit (by simp)
  | _ => exact absurd (h _ List.mem_cons_self) (by simp)

/-- A text whose marks are slashes with nothing behind them is a run and then slashes. -/
theorem slashes_of_splitMarks {s : List Char} (h : ∀ p ∈ (splitMarks s).2, p = (.slash, [])) :
    '.' ∉ s ∧ ∀ c ∈ s.dropWhile (· ≠ '/'), c = '/' := by
  have hslashes : ∀ c ∈ (splitMarks s).2.flatMap (fun p => p.1.char :: p.2), c = '/' := by
    intro c hc
    obtain ⟨p, hp, hcp⟩ := List.mem_flatMap.1 hc
    rw [h p hp] at hcp
    exact List.mem_singleton.1 hcp
  -- in front of the first mark there is neither a dot nor a slash
  have hne : ∀ c ∈ (splitMarks s).1, c ≠ '.' ∧ c ≠ '/' := by
    intro c hc
    have hnone := ((mem_splitMarks s).1 c hc).2
    constructor <;> rintro rfl <;> exact absurd hnone (by decide)
  have hs := flatten_splitMarks s
  constructor
  · intro hm
    rw [← hs] at hm
    rcases List.mem_append.1 hm with hm | hm
    · exact (hne _ hm).1 rfl
    · exact absurd (hslashes _ hm) (by decide)
  · intro c hc
    rw [← hs, List.dropWhile_append_of_pos (fun a ha => by simpa using (hne a ha).2)] at hc
    exact hslashes c (List.dropWhile_subset _ hc)

/-- A mark in the path leaves the token that it opens. -/
theorem mem_flat_of_mark {s : String} {pieces : List String} {dotted? query? : Option String}
    (h : (scan s).filter (· ≠ slash) = flat pieces dotted? query?) {m : Mark}
    (hm : m.char ∈ Input.path s) :
    ∃ run, ∀ t ∈ ofMarked (m, run), t ≠ slash → t ∈ flat pieces dotted? query? := by
  obtain ⟨⟨n, run⟩, hmem, rfl⟩ := List.mem_map.1 ((mem_splitMarks_snd _ m).2 hm)
  refine ⟨run, fun t ht hne => ?_⟩
  rw [← h, filter_scan_eq, ofPath_eq_append]
  refine List.mem_append_left _ (List.mem_filter.2 ⟨List.mem_append_right _ ?_, by simpa using hne⟩)
  exact List.mem_flatMap.2 ⟨_, hmem, ht⟩

/-- An input that leaves a flat list is readable. -/
theorem readable_of_filter_scan {s : String} {pieces : List String} {dotted? query? : Option String}
    (h : (scan s).filter (· ≠ slash) = flat pieces dotted? query?) : Input.Readable s := by
  have hcolon : ':' ∉ Input.path s := by
    intro hm
    obtain ⟨run, hrun⟩ := mem_flat_of_mark (m := .colon) h hm
    rcases mem_flat (hrun _ List.mem_cons_self (by simp)) with ⟨_, ht⟩ | ⟨_, ht⟩ | ⟨_, ht⟩ <;>
      exact absurd ht (by simp)
  have hstar : '*' ∉ Input.path s := by
    intro hm
    obtain ⟨run, hrun⟩ := mem_flat_of_mark (m := .star) h hm
    rcases mem_flat (hrun _ List.mem_cons_self (by simp)) with ⟨_, ht⟩ | ⟨_, ht⟩ | ⟨_, ht⟩ <;>
      exact absurd ht (by simp)
  have hstem : (Input.stem s).count '.' = 0 := List.count_eq_zero.2 (Input.dot_not_mem_stem s)
  cases ht : Input.tail? s with
  | none =>
      refine ⟨hcolon, hstar, ?_, fun tail htail => absurd (ht.symm.trans htail) (by simp)⟩
      rw [Input.path_of_tail?_eq_none ht, hstem]
      exact Nat.zero_le 1
  | some tail =>
      have hpath := Input.path_of_tail?_eq_some ht
      -- behind the format only queries may be left, and a path has none
      have hbehind : ((splitMarks tail).2.flatMap ofMarked).filter (· ≠ slash) = [] := by
        have hflat := h
        rw [filter_scan_eq, hpath, ofPath_append_dot, List.filter_append, List.append_assoc,
          List.filter_cons_of_pos (by simp), List.cons_append] at hflat
        refine List.eq_nil_iff_forall_not_mem.2 fun t hmem => ?_
        obtain ⟨text, rfl⟩ := eq_query_of_flat hflat.symm t (List.mem_append_left _ hmem)
        obtain ⟨p, -, hp⟩ := List.mem_flatMap.1 (List.mem_filter.1 hmem).1
        exact query_not_mem_ofMarked p text hp
      have hmarks : ∀ p ∈ (splitMarks tail).2, p = (.slash, []) := by
        intro p hp
        refine eq_of_ofMarked_eq_slash fun t htok => ?_
        have := List.filter_eq_nil_iff.1 hbehind t (List.mem_flatMap.2 ⟨_, hp, htok⟩)
        simpa using this
      obtain ⟨hdot, hslashes⟩ := slashes_of_splitMarks hmarks
      have hone : (Input.path s).count '.' = 1 := by
        rw [hpath, List.count_append, List.count_cons_self, hstem, List.count_eq_zero.2 hdot]
      refine ⟨hcolon, hstar, Nat.le_of_eq hone, fun tail' htail => ?_⟩
      obtain rfl : tail = tail' := Option.some.inj (ht.symm.trans htail)
      exact hslashes

theorem flat_inj {ps qs : List String} {e f q r : Option String}
    (h : flat ps e q = flat qs f r) : ps = qs ∧ e = f ∧ q = r := by
  induction ps generalizing qs with
  | nil =>
      cases qs with
      | nil =>
          cases e <;> cases f <;> cases q <;> cases r <;> simp_all [flat]
      | cons x xs =>
          cases e <;> cases q <;> simp_all [flat]
  | cons p ps ih =>
      cases qs with
      | nil => cases f <;> cases r <;> simp_all [flat]
      | cons x xs =>
          obtain ⟨hhead, hrest⟩ := List.cons.inj h
          obtain ⟨rfl, he, hq⟩ := ih hrest
          exact ⟨by rw [literal.inj hhead], he, hq⟩

/-- What is left of an input without its slashes **is flat exactly when the input is readable**, and
then it is the pieces, the extension and the query of the text. -/
theorem filter_scan_eq_flat_iff {s : String} {pieces : List String}
    {dotted? query? : Option String} :
    (scan s).filter (· ≠ slash) = flat pieces dotted? query? ↔
      Input.Readable s ∧ pieces = Input.pieces s ∧ dotted? = Input.extension? s ∧
        query? = Input.query? s := by
  constructor
  · intro h
    have hs := readable_of_filter_scan h
    rw [filter_scan hs] at h
    obtain ⟨hp, he, hq⟩ := flat_inj h
    exact ⟨hs, hp.symm, he.symm, hq.symm⟩
  · rintro ⟨hs, rfl, rfl, rfl⟩
    exact filter_scan hs

/-- The reading of an input starts with a slash exactly when its path does. -/
theorem rooted_scan (s : String) : rooted (scan s) = decide ((Input.path s).head? = some '/') := by
  rw [scan_eq, scanChars, rooted, ofPath_eq_append]
  change decide _ = decide ((Text.cut '?' s.toList).1.head? = some '/')
  -- an empty path leaves at most the query; otherwise the first character tells
  cases hp : (Text.cut '?' s.toList).1 with
  | nil => cases (Text.cut '?' s.toList).2 <;> rfl
  | cons c cs =>
      cases hc : Mark.ofChar? c with
      | none =>
          have hne : c ≠ '/' := by
            rintro rfl
            exact absurd hc (by decide)
          rw [splitMarks_cons_of_none hc]
          simp [ofRun, hne]
      | some m =>
          obtain rfl := Mark.char_of_ofChar? hc
          rw [splitMarks_cons_char]
          cases m <;> rfl

end Token

end RoutePattern
