/-
Tokens found in the bytes of a text.

A text is kept as bytes, and its tokens are found there in one walk that decodes
nothing. The walk stands on a byte. A slash is a token, a question mark takes all
that follows, and any other token goes up to the next delimiter, wherever that
is. What a token holds is not copied but told by where it starts and stops.

Delimiters are ASCII, and no byte of any other character is. So the walk stops
where a character starts, and the bytes behind it are those of whole characters.
That is the invariant. One turn passes over some more characters and finds the
token that reading them gives (`exists_turn`), and so the whole walk finds what
`Token.scan` reads.
-/
import Mathlib.Data.String.Basic
import RoutePattern.Proofs.Escapes
import RoutePattern.Proofs.Spelling

set_option autoImplicit false

namespace RoutePattern

open Text.Utf8

namespace ByteScan

/-! ## The walk -/

/-- Where a slice of a text starts and stops, in bytes. -/
structure Span where
  start : Nat
  stop : Nat
  deriving DecidableEq, Repr

/-- The text between the two ends. -/
def Span.text (s : String) (span : Span) : String :=
  String.Pos.Raw.extract s ⟨span.start⟩ ⟨span.stop⟩

/-- The slice lies inside of the text, and no character is cut apart at its ends. -/
structure Span.Inside (s : String) (span : Span) : Prop where
  start_le_stop : span.start ≤ span.stop
  stop_le_size : span.stop ≤ s.utf8ByteSize
  isValid_start : String.Pos.Raw.IsValid s ⟨span.start⟩
  isValid_stop : String.Pos.Raw.IsValid s ⟨span.stop⟩

/-- A token whose text is a slice of the text that it is found in. -/
inductive Lexeme where
  | slash
  | literal (text : Span)
  | var (name : Span)
  | glob (name : Span)
  | format (name : Span)
  | query (text : Span)
  deriving DecidableEq, Repr

namespace Lexeme

/-- The slice that is taken. -/
def span? : Lexeme → Option Span
  | slash => none
  | literal text => some text
  | var name => some name
  | glob name => some name
  | format name => some name
  | query text => some text

/-- The token itself. -/
def token (s : String) : Lexeme → Token
  | slash => .slash
  | literal text => .literal (text.text s)
  | var name => .var (name.text s)
  | glob name => .glob (name.text s)
  | format name => .format (name.text s)
  | query text => .query (text.text s)

end Lexeme

-- the delimiters as bytes

def slash : UInt8 := 0x2F

def colon : UInt8 := 0x3A

def star : UInt8 := 0x2A

def dot : UInt8 := 0x2E

def question : UInt8 := 0x3F

/-- The bytes that end a run (`is_delimiter`). -/
def isDelimiter (b : UInt8) : Bool :=
  b = slash || b = colon || b = star || b = dot || b = question

/-- The first delimiter from a position on, or the end (`run_end`). -/
def runEnd (bytes : List UInt8) (pos : Nat) : Nat :=
  match (bytes.drop pos).findIdx? isDelimiter with
  | some i => pos + i
  | none => bytes.length

/-- The token that a mark opens. -/
def named (mark : UInt8) (name : Span) : Lexeme :=
  if mark = colon then .var name
  else if mark = star then .glob name
  else .format name

/-- What is found at a position, where this byte stands, and where the walk goes on: one turn of the
loop of `tokenize`. -/
def turn (bytes : List UInt8) (pos : Nat) (b : UInt8) : Lexeme × Nat :=
  if b = slash then (.slash, pos + 1)
  else if b = question then (.query ⟨pos + 1, bytes.length⟩, bytes.length)
  else if isDelimiter b then
    (named b ⟨pos + 1, runEnd bytes (pos + 1)⟩, runEnd bytes (pos + 1))
  else (.literal ⟨pos, runEnd bytes pos⟩, runEnd bytes pos)

theorem span?_named (mark : UInt8) (name : Span) : (named mark name).span? = some name := by
  unfold named
  split_ifs <;> rfl

/-- Where no delimiter stands, a literal starts. -/
theorem turn_of_not_delimiter {b : UInt8} (h : isDelimiter b = false) (bytes : List UInt8)
    (pos : Nat) :
    turn bytes pos b = (.literal ⟨pos, runEnd bytes pos⟩, runEnd bytes pos) := by
  have hslash : b ≠ slash := by rintro rfl; exact absurd h (by decide)
  have hquestion : b ≠ question := by rintro rfl; exact absurd h (by decide)
  rw [turn, if_neg hslash, if_neg hquestion, if_neg (by simp [h])]

theorem le_runEnd {bytes : List UInt8} {pos : Nat} (h : pos ≤ bytes.length) :
    pos ≤ runEnd bytes pos := by
  unfold runEnd
  split
  · exact Nat.le_add_right _ _
  · exact h

/-- A byte that is no delimiter belongs to the run. -/
theorem runEnd_succ {bytes : List UInt8} {pos : Nat} (h : pos < bytes.length)
    (hb : isDelimiter bytes[pos] = false) : runEnd bytes pos = runEnd bytes (pos + 1) := by
  unfold runEnd
  rw [List.drop_eq_getElem_cons h, List.findIdx?_cons, hb]
  cases (bytes.drop (pos + 1)).findIdx? isDelimiter with
  | none => rfl
  | some i => simp; omega

/-- Every turn moves on. -/
theorem lt_turn {bytes : List UInt8} {pos : Nat} (h : pos < bytes.length) :
    pos < (turn bytes pos bytes[pos]).2 := by
  have hrun : pos < runEnd bytes (pos + 1) := le_runEnd h
  unfold turn
  split_ifs with hslash hquestion hdelimiter
  · exact Nat.lt_succ_self pos
  · exact h
  · exact hrun
  · rw [runEnd_succ h (by simpa using hdelimiter)]
    exact hrun

/-- What is found from a position on. -/
def lexemesFrom (bytes : List UInt8) (pos : Nat) : List Lexeme :=
  if h : pos < bytes.length then
    (turn bytes pos bytes[pos]).1 :: lexemesFrom bytes (turn bytes pos bytes[pos]).2
  else []
termination_by bytes.length - pos
decreasing_by
  have := lt_turn h
  omega

/-- What is found in a text (`tokenize`). -/
def lexemes (s : String) : List Lexeme := lexemesFrom (encode s.toList) 0

/-- There are no more turns than bytes. -/
theorem length_lexemesFrom_le (bytes : List UInt8) (pos : Nat) :
    (lexemesFrom bytes pos).length ≤ bytes.length - pos := by
  fun_induction lexemesFrom bytes pos with
  | case1 pos h ih =>
      have hmoves := lt_turn h
      rw [List.length_cons]
      omega
  | case2 pos h => exact Nat.zero_le _

/-! ## Positions between characters -/

theorem length_encode (x : List Char) : (encode x).length = String.utf8Len x := by
  induction x with
  | nil => rfl
  | cons c cs ih =>
      rw [encode_cons, List.length_append, String.length_utf8EncodeChar, ih, String.utf8Len_cons,
        Nat.add_comm]

/-- Behind whole characters there is a place between characters. -/
theorem isValid_length_encode {s : String} {pre rest : List Char} (h : s.toList = pre ++ rest) :
    String.Pos.Raw.IsValid s ⟨(encode pre).length⟩ := by
  refine String.Pos.Raw.isValid_iff_exists_append.2
    ⟨String.ofList pre, String.ofList rest, ?_, ?_⟩
  · rw [← String.ofList_append, ← h, String.ofList_toList]
  · rw [length_encode, String.rawEndPos_ofList]

/-- Characters that stand in a text are a slice of it. -/
theorem slice_encode {s : String} {pre run rest : List Char}
    (h : s.toList = pre ++ (run ++ rest)) :
    Span.Inside s ⟨(encode pre).length, (encode (pre ++ run)).length⟩ ∧
      Span.text s ⟨(encode pre).length, (encode (pre ++ run)).length⟩ = String.ofList run := by
  have h' : s.toList = (pre ++ run) ++ rest := by rw [h, List.append_assoc]
  have hstop := isValid_length_encode h'
  refine ⟨⟨?_, hstop.le_utf8ByteSize, isValid_length_encode h, hstop⟩, ?_⟩
  · simp only [encode_append, List.length_append]
    exact Nat.le_add_right _ _
  · have hs : s = String.ofList (pre ++ run ++ rest) := by rw [← h', String.ofList_toList]
    have hextract := String.extract_of_valid pre run rest
    rw [← String.utf8Len_append, ← hs, ← length_encode, ← length_encode] at hextract
    exact hextract

/-! ## Delimiters -/

/-- The only byte of a mark. -/
theorem encodeChar_mark (m : Mark) : String.utf8EncodeChar m.char = [m.char.toUInt8] := by
  cases m <;> decide

/-- Delimiters are ASCII. -/
theorem toNat_lt_of_isDelimiter {b : UInt8} (h : isDelimiter b = true) : b.toNat < 0x80 := by
  simp only [isDelimiter, Bool.or_eq_true, decide_eq_true_eq, or_assoc] at h
  rcases h with rfl | rfl | rfl | rfl | rfl <;> decide

/-- A byte of a character is a delimiter exactly if the character is one. -/
theorem isDelimiter_of_mem {c : Char} {b : UInt8} (h : b ∈ String.utf8EncodeChar c) :
    isDelimiter b = Token.isDelimiter c := by
  have hascii : ∀ n < 0x80, isDelimiter (UInt8.ofNat n) =
      Token.isDelimiter (charOf (UInt8.ofNat n)) := by decide
  by_cases hb : b.toNat < 0x80
  · rw [eq_charOf_of_mem_encodeChar h hb]
    simpa using hascii b.toNat hb
  · -- the character is not ASCII, since it would be written with one byte that is
    have hdelimiter : isDelimiter b = false :=
      Bool.eq_false_iff.2 fun hd => hb (toNat_lt_of_isDelimiter hd)
    rw [hdelimiter, eq_comm, Token.isDelimiter_eq_false_iff]
    refine ⟨?_, ?_⟩
    · rintro rfl
      obtain rfl : b = question := List.mem_singleton.1 h
      exact hb (by decide)
    · cases hm : Mark.ofChar? c with
      | none => rfl
      | some m =>
          obtain rfl := Mark.char_of_ofChar? hm
          rw [encodeChar_mark] at h
          obtain rfl := List.mem_singleton.1 h
          exact absurd (by cases m <;> decide) hb

/-- A run of plain characters is a run of bytes. -/
theorem runEnd_encode (pre : List Char) {run rest : List Char}
    (hrun : ∀ c ∈ run, Token.isDelimiter c = false) (hrest : Token.Closed rest) :
    runEnd (encode (pre ++ (run ++ rest))) (encode pre).length =
      (encode (pre ++ run)).length := by
  have hbytes : (encode run).findIdx? isDelimiter = none := by
    refine List.findIdx?_eq_none_iff.2 fun b hb => ?_
    obtain ⟨c, hc, hbc⟩ := List.mem_flatMap.1 hb
    rw [isDelimiter_of_mem hbc, hrun c hc]
  unfold runEnd
  rw [encode_append, List.drop_left, encode_append run rest, List.findIdx?_append, hbytes]
  cases rest with
  | nil =>
      have hnil : encode [] = [] := rfl
      simp [hnil, encode_append]
  | cons c cs =>
      -- the run ends at the first byte of the delimiter
      obtain ⟨b, bs, hb⟩ := List.exists_cons_of_ne_nil (String.utf8EncodeChar_ne_nil (c := c))
      have hdelimiter : isDelimiter b = true := by
        rw [isDelimiter_of_mem (c := c) (by simp [hb]), hrest c rfl]
      simp [encode_cons, hb, List.findIdx?_cons, hdelimiter, encode_append]

/-- Every text starts with a plain run that ends where it has to. -/
theorem exists_run (s : List Char) : ∃ run rest, s = run ++ rest ∧
    (∀ c ∈ run, Token.isDelimiter c = false) ∧ Token.Closed rest := by
  induction s with
  | nil => exact ⟨[], [], rfl, by simp, Token.closed_nil⟩
  | cons c cs ih =>
      cases hc : Token.isDelimiter c with
      | true => exact ⟨[], c :: cs, rfl, by simp, Token.closed_cons hc cs⟩
      | false =>
          obtain ⟨run, rest, rfl, hrun, hrest⟩ := ih
          exact ⟨c :: run, rest, rfl, List.forall_mem_cons.2 ⟨hc, hrun⟩, hrest⟩

/-! ## One turn -/

/-- What a turn finds behind the characters `pre`, with `todo` still to be read: it passes over
some more characters, and finds the token that reading gives for them. -/
def Finds (s : String) (pre todo : List Char) (found : Lexeme × Nat) : Prop :=
  ∃ read rest, read ≠ [] ∧ todo = read ++ rest ∧ found.2 = (encode (pre ++ read)).length ∧
    (∀ span ∈ found.1.span?, span.Inside s) ∧
    Token.scanChars todo = found.1.token s :: Token.scanChars rest

section Turn

variable {s : String} {pre cs : List Char}

theorem length_encode_mark (m : Mark) :
    (encode (pre ++ [m.char])).length = (encode pre).length + 1 := by
  rw [encode_append, List.length_append, encode_cons, encodeChar_mark]
  rfl

theorem finds_slash :
    Finds s pre ('/' :: cs) (turn (encode s.toList) (encode pre).length slash) := by
  refine ⟨['/'], cs, by simp, rfl, (length_encode_mark .slash).symm, ?_, Token.scanChars_slash cs⟩
  intro span hspan
  exact absurd hspan (by simp [turn, Lexeme.span?])

/-- A question mark takes all that follows. -/
theorem finds_question (h : s.toList = pre ++ '?' :: cs) :
    Finds s pre ('?' :: cs) (turn (encode s.toList) (encode pre).length question) := by
  have hpos : (encode (pre ++ ['?'])).length = (encode pre).length + 1 := by
    rw [encode_append, List.length_append]
    rfl
  have hall : pre ++ ['?'] ++ cs = s.toList := by simp [h]
  have h' : s.toList = (pre ++ ['?']) ++ (cs ++ []) := by simp [h]
  obtain ⟨hinside, htext⟩ := slice_encode h'
  rw [hpos, hall] at hinside htext
  refine ⟨'?' :: cs, [], by simp, by simp, by rw [← h]; rfl, ?_, ?_⟩
  · intro span hspan
    obtain rfl := Option.some.inj hspan
    exact hinside
  · rw [Token.scanChars_question, ← htext]
    rfl

theorem turn_mark {m : Mark} (hm : m ≠ .slash) (bytes : List UInt8) (pos : Nat) :
    turn bytes pos m.char.toUInt8 =
      (named m.char.toUInt8 ⟨pos + 1, runEnd bytes (pos + 1)⟩, runEnd bytes (pos + 1)) := by
  cases m with
  | slash => exact absurd rfl hm
  | _ => rfl

/-- The token of a mark, with a slice that is its name. -/
theorem ofMarked_eq_named {m : Mark} (hm : m ≠ .slash) {run : List Char} {name : Span}
    (hname : name.text s = String.ofList run) :
    Token.ofMarked (m, run) = [(named m.char.toUInt8 name).token s] := by
  cases m with
  | slash => exact absurd rfl hm
  | _ =>
      rw [Token.ofMarked, ← hname]
      rfl

/-- Any other mark takes a run as its name. -/
theorem finds_mark {m : Mark} (hm : m ≠ .slash) (h : s.toList = pre ++ m.char :: cs) :
    Finds s pre (m.char :: cs) (turn (encode s.toList) (encode pre).length m.char.toUInt8) := by
  obtain ⟨run, rest, rfl, hrun, hrest⟩ := exists_run cs
  have h' : s.toList = (pre ++ [m.char]) ++ (run ++ rest) := by simp [h]
  obtain ⟨hinside, htext⟩ := slice_encode h'
  have hend := runEnd_encode (pre ++ [m.char]) hrun hrest
  rw [← h', length_encode_mark] at hend
  rw [length_encode_mark, ← hend] at hinside htext
  rw [turn_mark hm]
  refine ⟨m.char :: run, rest, by simp, rfl, by simp [hend], ?_, ?_⟩
  · intro span hspan
    obtain rfl := Option.some.inj ((span?_named _ _).symm.trans hspan)
    exact hinside
  · rw [Token.scanChars_mark m hrun hrest, ofMarked_eq_named hm htext]
    rfl

/-- A plain character starts a literal. -/
theorem finds_literal {c : Char} {b : UInt8} (hb : b ∈ String.utf8EncodeChar c)
    (hc : Token.isDelimiter c = false) (h : s.toList = pre ++ c :: cs) :
    Finds s pre (c :: cs) (turn (encode s.toList) (encode pre).length b) := by
  obtain ⟨run, rest, rfl, hrun, hrest⟩ := exists_run cs
  have hplain : ∀ x ∈ c :: run, Token.isDelimiter x = false := List.forall_mem_cons.2 ⟨hc, hrun⟩
  have h' : s.toList = pre ++ ((c :: run) ++ rest) := h
  obtain ⟨hinside, htext⟩ := slice_encode h'
  have hend := runEnd_encode pre hplain hrest
  rw [← h'] at hend
  rw [← hend] at hinside htext
  rw [turn_of_not_delimiter (by rw [isDelimiter_of_mem hb, hc])]
  refine ⟨c :: run, rest, by simp, rfl, hend, ?_, ?_⟩
  · intro span hspan
    obtain rfl := Option.some.inj hspan
    exact hinside
  · have hread := Token.scanChars_run hplain hrest
    rw [Lexeme.token, htext]
    exact hread

end Turn

/-- Wherever whole characters lie behind, a turn finds the next token. -/
theorem exists_turn {s : String} {pre cs : List Char} {c : Char} (h : s.toList = pre ++ c :: cs) :
    ∃ hpos : (encode pre).length < (encode s.toList).length,
      Finds s pre (c :: cs)
        (turn (encode s.toList) (encode pre).length (encode s.toList)[(encode pre).length]) := by
  obtain ⟨b, bs, hb⟩ := List.exists_cons_of_ne_nil (String.utf8EncodeChar_ne_nil (c := c))
  have hbytes : encode s.toList = encode pre ++ b :: (bs ++ encode cs) := by
    rw [h, encode_append, encode_cons, hb]
    rfl
  refine ⟨by rw [hbytes]; simp, ?_⟩
  rw [List.getElem_of_append hbytes rfl]
  by_cases hq : c = '?'
  · subst hq
    obtain rfl : question = b := (List.cons.inj hb).1
    exact finds_question h
  · cases hm : Mark.ofChar? c with
    | none =>
        have hplain : Token.isDelimiter c = false := Token.isDelimiter_eq_false_iff.2 ⟨hq, hm⟩
        exact finds_literal (hb ▸ List.mem_cons_self) hplain h
    | some m =>
        obtain rfl := Mark.char_of_ofChar? hm
        obtain rfl : m.char.toUInt8 = b := (List.cons.inj ((encodeChar_mark m).symm.trans hb)).1
        by_cases hslash : m = .slash
        · subst hslash
          exact finds_slash
        · exact finds_mark hslash h

/-! ## The walk finds what reading gives -/

/-- Wherever whole characters lie behind, the walk finds the tokens of all that follow. -/
theorem lexemesFrom_encode {s : String} {pre todo : List Char} (h : s.toList = pre ++ todo) :
    (∀ l ∈ lexemesFrom (encode s.toList) (encode pre).length, ∀ span ∈ l.span?, span.Inside s) ∧
      (lexemesFrom (encode s.toList) (encode pre).length).map (Lexeme.token s) =
        Token.scanChars todo := by
  induction hn : todo.length using Nat.strongRecOn generalizing pre todo with
  | ind n ih =>
      cases todo with
      | nil =>
          have hend : ¬ (encode pre).length < (encode s.toList).length := by simp [h]
          rw [lexemesFrom, dif_neg hend]
          exact ⟨fun l hl => absurd hl List.not_mem_nil, rfl⟩
      | cons c cs =>
          obtain ⟨hpos, read, rest, hread, htodo, hnext, hinside, htoken⟩ := exists_turn h
          have hshorter : rest.length < n := by
            have := List.length_pos_of_ne_nil hread
            rw [← hn, htodo, List.length_append]
            omega
          have h' : s.toList = (pre ++ read) ++ rest := by rw [h, htodo, List.append_assoc]
          obtain ⟨hrestInside, hrestTokens⟩ := ih rest.length hshorter h' rfl
          rw [lexemesFrom, dif_pos hpos, hnext, List.map_cons, hrestTokens, htoken]
          exact ⟨List.forall_mem_cons.2 ⟨hinside, hrestInside⟩, rfl⟩

/-- Tokens are found in the bytes of a text, each slice cut **inside of the text and between
characters**, and with no more turns than there are bytes. They are the tokens that reading gives,
and reading is a **bijection** with the lists of sound tokens where a literal stands first or right
behind a slash and a query last: they spell the text, and each such list is read back from its
spelling. -/
theorem lexemes_bijective (s : String) :
    (lexemes s).length ≤ s.utf8ByteSize ∧
    (∀ l ∈ lexemes s, ∀ span ∈ l.span?, span.Inside s) ∧
    (lexemes s).map (Lexeme.token s) = Token.scan s ∧
    Token.spellAll (Token.scan s) = s ∧
    (∀ t ∈ Token.scan s, t.Sound) ∧ (Token.scan s).IsChain Token.MayPrecede ∧
    ∀ ts : List Token, (∀ t ∈ ts, t.Sound) → ts.IsChain Token.MayPrecede →
      Token.scan (Token.spellAll ts) = ts := by
  have hstart : s.toList = [] ++ s.toList := rfl
  obtain ⟨hinside, htokens⟩ := lexemesFrom_encode hstart
  obtain ⟨hsound, hchain⟩ := Token.canonical_iff.1 (Token.canonical_scan s)
  have hturns := length_lexemesFrom_le (encode s.toList) 0
  rw [length_encode, String.utf8Len_toList] at hturns
  exact ⟨hturns, hinside, htokens, Token.spellAll_scan s, hsound, hchain,
    fun ts hts hplaces => Token.scan_spellAll (Token.canonical_iff.2 ⟨hts, hplaces⟩)⟩

/-- Characters of two bytes stand next to delimiters, and a name is empty. -/
theorem lexemes_bijective_accents :
    let s := "/café//:é*.ü?a/é"
    let ts : List Token := [.slash, .literal "café", .slash, .slash, .var "é", .glob "",
      .format "ü", .query "a/é"]
    (lexemes s).map (Lexeme.token s) = ts ∧ (∀ l ∈ lexemes s, ∀ span ∈ l.span?, span.Inside s) ∧
      Token.spellAll ts = s ∧ (∀ t ∈ ts, t.Sound) ∧ ts.IsChain Token.MayPrecede ∧
      Token.scan (Token.spellAll ts) = ts := by
  intro s ts
  have hscan : Token.scan s = ts := by decide +kernel
  obtain ⟨-, hinside, htokens, hspell, hsound, hchain, hback⟩ := lexemes_bijective s
  rw [hscan] at htokens hspell hsound hchain
  exact ⟨htokens, hinside, hspell, hsound, hchain, hback ts hsound hchain⟩

end ByteScan

end RoutePattern
