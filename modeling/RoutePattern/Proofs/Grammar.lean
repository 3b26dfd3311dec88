/-
Which patterns compile, to what, and what is wrong with the others.

The grammar of patterns is about characters and where they stand, so here a
pattern is looked at place by place: at each place some text has gone by and some
is to come, and these two alone say whether a fault is found there and whether a
part starts there. `lexicalFaults`, `arrangementFaults` and `parts` collect that
from left to right, and `Grammatical` says which patterns have no fault.

Compiling works on tokens instead, and in two passes. The two views are brought
together by one induction over the tokens of a pattern (`ofTokens_eq_outcome`):
it keeps "no `.` has gone by", since behind a format the next token is a fault
already, and within a run of plain characters nothing is found at all
(`collectFrom_run`).
-/
import RoutePattern.Proofs.Input
import RoutePattern.Proofs.WellFormed

set_option autoImplicit false

namespace RoutePattern

namespace Grammar

/-! ## Places in a text -/

/-- The places of a text from left to right, each with the text before it and the text from it on;
`before` has gone by already. -/
def placesFrom (before : List Char) : List Char → List (List Char × List Char)
  | [] => []
  | c :: cs => (before, c :: cs) :: placesFrom (before ++ [c]) cs

/-- A place is where the text is cut in two. -/
theorem mem_placesFrom {before s a b : List Char} :
    (a, b) ∈ placesFrom before s ↔ ∃ x, a = before ++ x ∧ s = x ++ b ∧ b ≠ [] := by
  induction s generalizing before with
  | nil =>
      constructor
      · intro h
        exact absurd h List.not_mem_nil
      · rintro ⟨x, -, hs, hb⟩
        exact absurd (List.append_eq_nil_iff.1 hs.symm).2 hb
  | cons c cs ih =>
      rw [placesFrom, List.mem_cons, ih]
      constructor
      · rintro (h | ⟨x, rfl, rfl, hb⟩)
        · obtain ⟨rfl, rfl⟩ := Prod.mk.inj h
          exact ⟨[], by simp, rfl, by simp⟩
        · exact ⟨c :: x, by simp, rfl, hb⟩
      · rintro ⟨x, rfl, hs, hb⟩
        cases x with
        | nil => exact .inl (by simp [hs])
        | cons d y =>
            obtain ⟨rfl, rfl⟩ := List.cons.inj hs
            exact .inr ⟨y, by simp, rfl, hb⟩

section Collect

variable {α : Type} (f : List Char → List Char → Option α)

/-- What is found at the places of a text. -/
def collectFrom (before s : List Char) : List α :=
  (placesFrom before s).filterMap fun a => f a.1 a.2

/-- What is found in a pattern, from left to right. -/
def collect (p : String) : List α := collectFrom f [] p.toList

theorem collectFrom_cons (before : List Char) (c : Char) (cs : List Char) :
    collectFrom f before (c :: cs) =
      (f before (c :: cs)).toList ++ collectFrom f (before ++ [c]) cs := by
  rw [collectFrom, placesFrom, List.filterMap_cons]
  cases f before (c :: cs) <;> rfl

theorem collect_eq_nil_iff (p : String) :
    collect f p = [] ↔ ∀ a c b, p.toList = a ++ c :: b → f a (c :: b) = none := by
  rw [collect, collectFrom, List.filterMap_eq_nil_iff]
  constructor
  · intro h a c b hp
    exact h (a, c :: b) (mem_placesFrom.2 ⟨a, rfl, hp, by simp⟩)
  · rintro h ⟨a, b⟩ hmem
    obtain ⟨x, ha, hp, hb⟩ := mem_placesFrom.1 hmem
    obtain rfl : a = x := ha
    obtain ⟨c, cs, rfl⟩ := List.exists_cons_of_ne_nil hb
    exact h a c cs hp

end Collect

/-! ## The grammar -/

/-- The characters that no text and no name has. -/
def delimiters : List Char := ['/', ':', '*', '.', '?']

/-- The delimiters that want a name behind them. -/
def sigils : List Char := [':', '*', '.']

/-- Whether there is a character, and no delimiter. -/
def InRun (c? : Option Char) : Prop := ∃ c ∈ c?, c ∉ delimiters

/-- Whether a name starts here. -/
def startsName (rest : List Char) : Prop := InRun rest.head?

/-- The patterns that compile. -/
structure Grammatical (p : String) : Prop where
  no_query : '?' ∉ p.toList
  /-- Behind each sigil there is a name. -/
  named : ∀ a m b, p.toList = a ++ m :: b → m ∈ sigils → startsName b
  dot_once : p.toList.count '.' ≤ 1
  /-- Not even a slash may follow a format. -/
  dot_last : ∀ a b, p.toList = a ++ '.' :: b → ∀ c ∈ b, c ∉ delimiters
  star_once : p.toList.count '*' ≤ 1
  no_colon_behind : ∀ a b, p.toList = a ++ '*' :: b → ':' ∉ b

/-! ## Faults and parts, place by place -/

/-- Whether a token starts with this character: every delimiter is one, and a literal stands at the
start or behind a slash. -/
def startsToken (before : List Char) (c : Char) : Prop :=
  c ∈ delimiters ∨ before = [] ∨ before.getLast? = some '/'

-- a search through all characters decides this as well, so the one character is named
instance : (c? : Option Char) → Decidable (InRun c?)
  | none => .isFalse (by simp [InRun])
  | some c => decidable_of_iff (c ∉ delimiters) (by simp [InRun])

instance (rest : List Char) : Decidable (startsName rest) :=
  inferInstanceAs (Decidable (InRun rest.head?))

instance (before : List Char) (c : Char) : Decidable (startsToken before c) :=
  inferInstanceAs (Decidable (_ ∨ _ ∨ _))

/-- The fault of the token that starts here, if it has one by itself. That a format has gone by is
what counts first. -/
def lexicalAt? (before : List Char) : List Char → Option Fault
  | [] => none
  | c :: rest =>
    if '.' ∈ before ∧ startsToken before c then some .formatNotLast
    else if c = '?' then some .queryString
    else if c ∈ sigils ∧ ¬ startsName rest then some .emptyName
    else none

/-- The fault of the part that starts here, for where it stands. -/
def misplacedAt? (before : List Char) : List Char → Option Fault
  | [] => none
  | c :: _ =>
    if c = ':' ∧ '*' ∈ before then some .variableAfterGlob
    else if c = '*' ∧ '*' ∈ before then some .multipleGlobs
    else none

/-- What a run is a part of, told by the character in front of it. -/
def partOf (front? : Option Char) (run : List Char) : Part :=
  if front? = some ':' then .var (String.ofList run)
  else if front? = some '*' then .glob (String.ofList run)
  else if front? = some '.' then .format (String.ofList run)
  else .literal (String.ofList run)

/-- The part whose text starts here: a run of characters between delimiters, as long as it can
be. -/
def partAt? (before : List Char) : List Char → Option Part
  | [] => none
  | c :: rest =>
    if c ∈ delimiters ∨ InRun before.getLast? then none
    else some (partOf before.getLast? (c :: rest.takeWhile (· ∉ delimiters)))

/-- What is wrong with the tokens of a pattern, from left to right. -/
def lexicalFaults : String → List Fault := collect lexicalAt?

/-- What is wrong with the order of the parts, from left to right. -/
def arrangementFaults : String → List Fault := collect misplacedAt?

/-- The runs of a pattern as parts, from left to right. -/
def parts : String → List Part := collect partAt?

/-! ## Nothing happens within a run -/

theorem not_mem_delimiters_iff {c : Char} : c ∉ delimiters ↔ Token.isDelimiter c = false := by
  unfold Token.isDelimiter Mark.ofChar? delimiters
  split <;> simp_all

/-- A closed text starts with a delimiter, if with anything. -/
theorem mem_delimiters_of_closed {c : Char} {cs : List Char} (h : Token.Closed (c :: cs)) :
    c ∈ delimiters := by
  by_cases hc : c ∈ delimiters
  · exact hc
  · have hdelim := h c rfl
    rw [not_mem_delimiters_iff.1 hc] at hdelim
    exact absurd hdelim (by decide)

theorem mem_delimiters_of_sigils {c : Char} (h : c ∈ sigils) : c ∈ delimiters ∧ c ≠ '/' := by
  simp only [sigils, List.mem_cons, List.not_mem_nil, or_false] at h
  rcases h with rfl | rfl | rfl <;> decide

/-- What is asked at each place is answered by nothing between two characters of one run. -/
def QuietInRuns {α : Type} (f : List Char → List Char → Option α) : Prop :=
  ∀ before c d rest, c ∉ delimiters → d ∉ delimiters → f (before ++ [c]) (d :: rest) = none

theorem quiet_lexicalAt? : QuietInRuns lexicalAt? := by
  intro before c d rest hc hd
  have hstart : ¬ startsToken (before ++ [c]) d := by
    rintro (h | h | h)
    · exact hd h
    · exact absurd h (by simp)
    · obtain rfl : c = '/' := by simpa using h
      exact hc (by decide)
  have hquery : d ≠ '?' := by
    rintro rfl
    exact hd (by decide)
  have hsigil : d ∉ sigils := fun h => hd (mem_delimiters_of_sigils h).1
  simp [lexicalAt?, hstart, hquery, hsigil]

theorem misplacedAt?_of_not_mem {before rest : List Char} {c : Char} (h : c ∉ delimiters) :
    misplacedAt? before (c :: rest) = none := by
  have hcolon : c ≠ ':' := by
    rintro rfl
    exact h (by decide)
  have hstar : c ≠ '*' := by
    rintro rfl
    exact h (by decide)
  simp [misplacedAt?, hcolon, hstar]

theorem quiet_misplacedAt? : QuietInRuns misplacedAt? :=
  fun _ _ _ _ _ hd => misplacedAt?_of_not_mem hd

theorem partAt?_of_mem {before rest : List Char} {c : Char} (h : c ∈ delimiters) :
    partAt? before (c :: rest) = none :=
  if_pos (.inl h)

theorem quiet_partAt? : QuietInRuns partAt? := by
  intro before c d rest hc _
  have hlast : InRun (before ++ [c]).getLast? := ⟨c, by simp, hc⟩
  exact if_pos (.inr hlast)

section Runs

variable {α : Type} {f : List Char → List Char → Option α} (hf : QuietInRuns f)

include hf

/-- Of a run only its start counts. -/
theorem collectFrom_run {c : Char} {run : List Char} (h : ∀ x ∈ c :: run, x ∉ delimiters)
    (before rest : List Char) :
    collectFrom f before (c :: run ++ rest) =
      (f before (c :: run ++ rest)).toList ++ collectFrom f (before ++ c :: run) rest := by
  rw [List.cons_append, collectFrom_cons]
  congr 1
  induction run generalizing before c with
  | nil => rfl
  | cons d ds ih =>
      obtain ⟨hc, hds⟩ := List.forall_mem_cons.1 h
      rw [List.cons_append, collectFrom_cons, hf before c d _ hc (hds d List.mem_cons_self),
        ih hds]
      simp

/-- Of a delimiter with a run behind it, only its own place and the start of the run count. -/
theorem collectFrom_named {run : List Char} (h : ∀ x ∈ run, x ∉ delimiters) (m : Char)
    (before rest : List Char) :
    collectFrom f before (m :: (run ++ rest)) =
      (f before (m :: (run ++ rest))).toList ++
        ((if run = [] then none else f (before ++ [m]) (run ++ rest)).toList ++
          collectFrom f (before ++ m :: run) rest) := by
  rw [collectFrom_cons]
  cases run with
  | nil => rfl
  | cons c cs =>
      rw [collectFrom_run hf h, if_neg (by simp)]
      simp

end Runs

/-! ## What one token adds -/

/-- A name starts where a run is, since what follows a run is closed. -/
theorem startsName_append {name rest : List Char} (h : ∀ x ∈ name, x ∉ delimiters)
    (hrest : Token.Closed rest) : startsName (name ++ rest) ↔ name ≠ [] := by
  cases name with
  | nil =>
      constructor
      · rintro ⟨c, hc, hplain⟩
        cases rest with
        | nil => exact absurd hc (by simp)
        | cons d ds =>
            obtain rfl : d = c := by simpa using hc
            exact absurd (mem_delimiters_of_closed hrest) hplain
      · intro hne
        exact absurd rfl hne
  | cons c cs =>
      constructor
      · intro _
        simp
      · intro _
        exact ⟨c, rfl, h c List.mem_cons_self⟩

theorem takeWhile_append_of_closed {run rest : List Char} (h : ∀ x ∈ run, x ∉ delimiters)
    (hrest : Token.Closed rest) : (run ++ rest).takeWhile (· ∉ delimiters) = run := by
  refine (Text.takeWhile_run (by simpa using h) fun c hc => ?_).1
  obtain ⟨cs, rfl⟩ := List.head?_eq_some_iff.1 hc
  simpa using mem_delimiters_of_closed hrest

section Tokens

variable {before name rest : List Char} (hname : ∀ x ∈ name, x ∉ delimiters)

include hname

theorem lexical_named {m : Char} (hm : m ∈ sigils) (hdot : '.' ∉ before)
    (hrest : Token.Closed rest) :
    collectFrom lexicalAt? before (m :: (name ++ rest)) =
      (if name = [] then [.emptyName] else []) ++
        collectFrom lexicalAt? (before ++ m :: name) rest := by
  have hquery : m ≠ '?' := by
    rintro rfl
    exact absurd hm (by decide)
  have hmark : lexicalAt? before (m :: (name ++ rest)) =
      if name = [] then some .emptyName else none := by
    simp [lexicalAt?, hdot, hquery, hm, startsName_append hname hrest]
  -- behind the sigil no token starts, so it does not matter whether the sigil is a `.`
  have hrun : (if name = [] then none else lexicalAt? (before ++ [m]) (name ++ rest)) = none := by
    cases name with
    | nil => rfl
    | cons c cs =>
        have hc := hname c List.mem_cons_self
        have hstart : ¬ startsToken (before ++ [m]) c := by
          rintro (h | h | h)
          · exact hc h
          · exact absurd h (by simp)
          · exact (mem_delimiters_of_sigils hm).2 (by simpa using h)
        have hc' : c ≠ '?' := by
          rintro rfl
          exact hc (by decide)
        have hsigil : c ∉ sigils := fun h => hc (mem_delimiters_of_sigils h).1
        simp [lexicalAt?, hstart, hc', hsigil]
  rw [collectFrom_named quiet_lexicalAt? hname, hmark, hrun]
  by_cases h : name = [] <;> simp [h]

theorem parts_named {m : Char} (hm : m ∈ sigils) (hrest : Token.Closed rest) :
    collectFrom partAt? before (m :: (name ++ rest)) =
      (if name = [] then [] else [partOf (some m) name]) ++
        collectFrom partAt? (before ++ m :: name) rest := by
  have hmark : partAt? before (m :: (name ++ rest)) = none :=
    partAt?_of_mem (mem_delimiters_of_sigils hm).1
  rw [collectFrom_named quiet_partAt? hname, hmark]
  cases name with
  | nil => rfl
  | cons c cs =>
      have hlast : ¬ InRun (before ++ [m]).getLast? := by
        rintro ⟨d, hd, hn⟩
        obtain rfl : m = d := by simpa using hd
        exact hn (mem_delimiters_of_sigils hm).1
      have hcs : ∀ x ∈ cs, x ∉ delimiters := fun x hx => hname x (List.mem_cons_of_mem _ hx)
      have hpart : partAt? (before ++ [m]) (c :: cs ++ rest) =
          some (partOf (some m) (c :: cs)) := by
        rw [List.cons_append, partAt?, if_neg, takeWhile_append_of_closed hcs hrest]
        · simp
        · rintro (h | h)
          · exact hname c List.mem_cons_self h
          · exact hlast h
      rw [if_neg (by simp), if_neg (by simp), hpart]
      rfl

theorem lexical_literal (hdot : '.' ∉ before) :
    collectFrom lexicalAt? before (name ++ rest) =
      collectFrom lexicalAt? (before ++ name) rest := by
  cases name with
  | nil => rw [List.append_nil, List.nil_append]
  | cons c cs =>
      have hc := hname c List.mem_cons_self
      have hquery : c ≠ '?' := by
        rintro rfl
        exact hc (by decide)
      have hsigil : c ∉ sigils := fun h => hc (mem_delimiters_of_sigils h).1
      have hnone : lexicalAt? before (c :: cs ++ rest) = none := by
        simp [lexicalAt?, hdot, hquery, hsigil]
      rw [collectFrom_run quiet_lexicalAt? hname, hnone]
      rfl

theorem parts_literal (hne : name ≠ []) (hopen : before = [] ∨ before.getLast? = some '/')
    (hrest : Token.Closed rest) :
    collectFrom partAt? before (name ++ rest) =
      .literal (String.ofList name) :: collectFrom partAt? (before ++ name) rest := by
  obtain ⟨c, cs, rfl⟩ := List.exists_cons_of_ne_nil hne
  have hfront : ¬ InRun before.getLast? := by
    rintro ⟨d, hd, hn⟩
    rcases hopen with rfl | hslash
    · exact absurd hd (by simp)
    · obtain rfl : '/' = d := Option.some.inj (hslash.symm.trans hd)
      exact hn (by decide)
  have hkind : partOf before.getLast? (c :: cs) = .literal (String.ofList (c :: cs)) := by
    rcases hopen with rfl | hslash
    · rfl
    · rw [hslash]
      rfl
  have hcs : ∀ x ∈ cs, x ∉ delimiters := fun x hx => hname x (List.mem_cons_of_mem _ hx)
  have hpart : partAt? before (c :: cs ++ rest) = some (.literal (String.ofList (c :: cs))) := by
    rw [List.cons_append, partAt?, if_neg (not_or.2 ⟨hname c List.mem_cons_self, hfront⟩),
      takeWhile_append_of_closed hcs hrest, hkind]
  rw [collectFrom_run quiet_partAt? hname, hpart]
  rfl

theorem misplaced_literal :
    collectFrom misplacedAt? before (name ++ rest) =
      collectFrom misplacedAt? (before ++ name) rest := by
  cases name with
  | nil => rw [List.append_nil, List.nil_append]
  | cons c cs =>
      have hnone : misplacedAt? before (c :: cs ++ rest) = none :=
        misplacedAt?_of_not_mem (hname c List.mem_cons_self)
      rw [collectFrom_run quiet_misplacedAt? hname, hnone]
      rfl

theorem misplaced_named (m : Char) :
    collectFrom misplacedAt? before (m :: (name ++ rest)) =
      (misplacedAt? before (m :: (name ++ rest))).toList ++
        collectFrom misplacedAt? (before ++ m :: name) rest := by
  rw [collectFrom_named quiet_misplacedAt? hname]
  cases name with
  | nil => rfl
  | cons c cs =>
      have hnone : misplacedAt? (before ++ [m]) (c :: cs ++ rest) = none :=
        misplacedAt?_of_not_mem (hname c List.mem_cons_self)
      rw [if_neg (by simp), hnone]
      rfl

end Tokens

/-! ## All tokens together -/

/-- The first of the faults, or else the value. -/
def outcome {α : Type} (faults : List Fault) (a : α) : Except Fault α :=
  match faults with
  | [] => .ok a
  | fault :: _ => .error fault

theorem map_outcome {α β : Type} (g : α → β) (faults : List Fault) (a : α) :
    (outcome faults a).map g = outcome faults (g a) := by
  cases faults <;> rfl

/-- Where something follows that is no literal, it is written with a delimiter in front. -/
theorem exists_delimiter_of_canonicalFrom {ts : List Token} (h : Token.CanonicalFrom false ts)
    (hne : ts ≠ []) : ∃ d cs, (Token.spellAll ts).toList = d :: cs ∧ d ∈ delimiters := by
  have hclosed := Token.closed_of_canonicalFrom h
  cases hs : (Token.spellAll ts).toList with
  | nil =>
      -- nothing is read from nothing
      have hback := Token.scan_spellAll (h.mono true)
      rw [String.toList_eq_nil_iff.1 hs] at hback
      exact absurd hback.symm hne
  | cons d cs =>
      rw [hs] at hclosed
      exact ⟨d, cs, rfl, mem_delimiters_of_closed hclosed⟩

/-- What reading makes of a sigil and its name, in front of what it makes of the rest. -/
theorem outcome_named (part : String → Part) {name : String} {m : Char} {before rest : List Char}
    (hm : m ∈ sigils) (hkind : partOf (some m) name.toList = part name)
    (hplain : Token.Plain name) (hdot : '.' ∉ before) (hrest : Token.Closed rest) :
    outcome (collectFrom lexicalAt? before (m :: (name.toList ++ rest)))
        (collectFrom partAt? before (m :: (name.toList ++ rest))) =
      Part.consNamed part name
        (outcome (collectFrom lexicalAt? (before ++ m :: name.toList) rest)
          (collectFrom partAt? (before ++ m :: name.toList) rest)) := by
  have hname := Template.not_mem_delimiters_of_plain hplain
  rw [lexical_named hname hm hdot hrest, parts_named hname hm hrest, Part.consNamed]
  by_cases hempty : name = ""
  · have hnil : name.toList = [] := String.toList_eq_nil_iff.2 hempty
    rw [if_pos hempty, if_pos hnil]
    rfl
  · have hne : name.toList ≠ [] := fun h => hempty (String.toList_eq_nil_iff.1 h)
    rw [if_neg hempty, if_neg hne, if_neg hne, map_outcome, hkind]
    rfl

/-- Behind a format there must be nothing. -/
theorem outcome_behind_format {before : List Char} (hdot : '.' ∈ before) {ts : List Token}
    (h : Token.CanonicalFrom false ts) :
    outcome (collectFrom lexicalAt? before (Token.spellAll ts).toList)
        (collectFrom partAt? before (Token.spellAll ts).toList) =
      if ts = [] then .ok [] else .error .formatNotLast := by
  by_cases hnil : ts = []
  · subst hnil
    rfl
  · obtain ⟨d, cs, hs, hd⟩ := exists_delimiter_of_canonicalFrom h hnil
    have hfault : lexicalAt? before (d :: cs) = some .formatNotLast := if_pos ⟨hdot, .inl hd⟩
    rw [if_neg hnil, hs, collectFrom_cons, hfault]
    rfl

/-- Reading the tokens of a text gives **the leftmost lexical fault, or else the runs as parts**. On
the way no `.` has gone by, and a literal stands at the start or behind a slash. -/
theorem ofTokens_eq_outcome {ts : List Token} : ∀ {isOpen : Bool} (before : List Char),
    Token.CanonicalFrom isOpen ts → '.' ∉ before →
      (isOpen = true → before = [] ∨ before.getLast? = some '/') →
        Part.ofTokens ts = outcome (collectFrom lexicalAt? before (Token.spellAll ts).toList)
          (collectFrom partAt? before (Token.spellAll ts).toList) := by
  induction ts with
  | nil => intro _ _ _ _ _; rfl
  | cons t ts ih =>
      intro isOpen before h hdot hopen
      have hbehind : ∀ {run : List Char}, '.' ∉ run → '.' ∉ before ++ run := fun hrun hmem =>
        (List.mem_append.1 hmem).elim hdot hrun
      have hplain : ∀ {name : String}, Token.Plain name → '.' ∉ name.toList := fun h hmem =>
        Template.not_mem_delimiters_of_plain h _ hmem (by decide)
      rw [Token.toList_spellAll_cons]
      cases t with
      | slash =>
          have hrest : Token.CanonicalFrom true ts := h
          have hlexical : lexicalAt? before ('/' :: (Token.spellAll ts).toList) = none := by
            simp [lexicalAt?, hdot, sigils]
          have hpart : partAt? before ('/' :: (Token.spellAll ts).toList) = none :=
            partAt?_of_mem (by decide)
          rw [Token.toList_spell_slash, List.singleton_append, collectFrom_cons, collectFrom_cons,
            hlexical, hpart]
          exact ih _ hrest (hbehind (by decide)) fun _ => .inr (by simp)
      | literal text =>
          obtain ⟨hopen', hne, htext, hrest⟩ := h
          have hchars := Template.not_mem_delimiters_of_plain htext
          have hnil : text.toList ≠ [] := fun e => hne (String.toList_eq_nil_iff.1 e)
          rw [Token.spell, lexical_literal hchars hdot,
            parts_literal hchars hnil (hopen hopen') (Token.closed_of_canonicalFrom hrest),
            Part.ofTokens, ih _ hrest (hbehind (hplain htext)) (by simp), map_outcome,
            String.ofList_toList]
      | var name =>
          obtain ⟨hname, hrest⟩ := h
          rw [Token.toList_spell_var, List.cons_append,
            outcome_named .var (by decide) (by simp [partOf]) hname hdot
              (Token.closed_of_canonicalFrom hrest),
            Part.ofTokens, ih (before ++ ':' :: name.toList) hrest
              (hbehind (by simpa using hplain hname)) (by simp)]
      | glob name =>
          obtain ⟨hname, hrest⟩ := h
          rw [Token.toList_spell_glob, List.cons_append,
            outcome_named .glob (by decide) (by simp [partOf]) hname hdot
              (Token.closed_of_canonicalFrom hrest),
            Part.ofTokens, ih (before ++ '*' :: name.toList) hrest
              (hbehind (by simpa using hplain hname)) (by simp)]
      | format name =>
          obtain ⟨hname, hrest⟩ := h
          rw [Token.toList_spell_format, List.cons_append,
            outcome_named .format (by decide) (by simp [partOf]) hname hdot
              (Token.closed_of_canonicalFrom hrest),
            Part.ofTokens, outcome_behind_format (by simp) hrest]
      | query text =>
          have hfault : lexicalAt? before ('?' :: (text.toList ++ (Token.spellAll ts).toList)) =
              some .queryString := by
            simp [lexicalAt?, hdot]
          rw [Token.toList_spell_query, List.cons_append, collectFrom_cons, hfault]
          rfl

/-- The check of the order finds **the leftmost arrangement fault**, where a glob has gone by
exactly if a star has. -/
theorem misplaced?_eq_head? {ts : List Token} : ∀ {isOpen : Bool} (before : List Char)
    {ps : List Part}, Token.CanonicalFrom isOpen ts → Part.ofTokens ts = .ok ps →
      Part.misplaced? (decide ('*' ∈ before)) ps =
        (collectFrom misplacedAt? before (Token.spellAll ts).toList).head? := by
  induction ts with
  | nil =>
      intro _ before ps _ hps
      obtain rfl : [] = ps := by simpa [Part.ofTokens] using hps
      rfl
  | cons t ts ih =>
      intro isOpen before ps h hps
      have hstar : ∀ {run : List Char}, '*' ∉ run →
          decide ('*' ∈ before ++ run) = decide ('*' ∈ before) := by
        intro run hrun
        simp [hrun]
      have hplain : ∀ {name : String}, Token.Plain name → '*' ∉ name.toList := fun h hmem =>
        Template.not_mem_delimiters_of_plain h _ hmem (by decide)
      rw [Token.toList_spellAll_cons]
      cases t with
      | slash =>
          have hrest : Token.CanonicalFrom true ts := h
          have hnone : misplacedAt? before ('/' :: (Token.spellAll ts).toList) = none := by
            simp [misplacedAt?]
          rw [Token.toList_spell_slash, List.singleton_append, collectFrom_cons, hnone]
          have hread := ih (before ++ ['/']) hrest hps
          rwa [hstar (by decide)] at hread
      | literal text =>
          obtain ⟨-, -, htext, hrest⟩ := h
          obtain ⟨qs, hqs, rfl⟩ := exists_of_map_eq_ok hps
          have hread := ih (before ++ text.toList) hrest hqs
          rw [hstar (hplain htext)] at hread
          rw [Token.spell, misplaced_literal (Template.not_mem_delimiters_of_plain htext),
            Part.misplaced?, hread]
      | var name =>
          obtain ⟨hname, hrest⟩ := h
          obtain ⟨-, qs, hqs, rfl⟩ := Part.exists_of_consNamed_eq_ok hps
          have hread := ih (before ++ ':' :: name.toList) hrest hqs
          rw [hstar (by simpa using hplain hname)] at hread
          rw [Token.toList_spell_var, List.cons_append,
            misplaced_named (Template.not_mem_delimiters_of_plain hname), Part.misplaced?]
          by_cases hbefore : '*' ∈ before
          · simp [misplacedAt?, hbefore]
          · simpa [misplacedAt?, hbefore] using hread
      | glob name =>
          obtain ⟨hname, hrest⟩ := h
          obtain ⟨-, qs, hqs, rfl⟩ := Part.exists_of_consNamed_eq_ok hps
          have hread := ih (before ++ '*' :: name.toList) hrest hqs
          rw [Token.toList_spell_glob, List.cons_append,
            misplaced_named (Template.not_mem_delimiters_of_plain hname), Part.misplaced?]
          by_cases hbefore : '*' ∈ before
          · simp [misplacedAt?, hbefore]
          · simpa [misplacedAt?, hbefore] using hread
      | format name =>
          obtain ⟨hname, hrest⟩ := h
          obtain ⟨-, qs, hqs, rfl⟩ := Part.exists_of_consNamed_eq_ok hps
          -- what could be read has nothing behind the format
          split at hqs
          · next hnil =>
            obtain rfl : [] = qs := by simpa using hqs
            subst hnil
            rw [Token.toList_spell_format, List.cons_append,
              misplaced_named (Template.not_mem_delimiters_of_plain hname)]
            rfl
          · exact absurd hqs (by simp)
      | query text => exact absurd hps (by simp [Part.ofTokens])

/-! ## Patterns without a fault -/

/-- A character that does not come again occurs once. -/
theorem count_le_one_of_unique {c : Char} {s : List Char}
    (h : ∀ a b, s = a ++ c :: b → c ∉ b) : s.count c ≤ 1 := by
  induction s with
  | nil => exact Nat.zero_le 1
  | cons d ds ih =>
      have hds : ds.count c ≤ 1 := by
        apply ih
        intro a b hab
        exact h (d :: a) b (by rw [hab]; rfl)
      by_cases hd : d = c
      · -- the first character is the one, so the rest has none
        subst hd
        exact Nat.le_of_eq (by rw [List.count_cons_self, List.count_eq_zero.2 (h [] ds rfl)])
      · rw [List.count_cons_of_ne hd]
        exact hds

theorem not_mem_of_count_le_one {c : Char} {s a b : List Char} (h : s.count c ≤ 1)
    (hs : s = a ++ c :: b) : c ∉ a ∧ c ∉ b := by
  rw [hs, List.count_append, List.count_cons_self] at h
  constructor <;> intro hmem <;> have := List.count_pos_iff.2 hmem <;> omega

theorem lexicalAt?_eq_none_iff {before rest : List Char} {c : Char} :
    lexicalAt? before (c :: rest) = none ↔
      ('.' ∈ before → ¬ startsToken before c) ∧ c ≠ '?' ∧ (c ∈ sigils → startsName rest) := by
  rw [lexicalAt?]
  by_cases hformat : '.' ∈ before ∧ startsToken before c
  · simp [hformat]
  rw [if_neg hformat]
  by_cases hquery : c = '?'
  · simp [hquery]
  rw [if_neg hquery]
  by_cases hname : c ∈ sigils ∧ ¬ startsName rest
  · simp [hname]
  rw [if_neg hname]
  simp only [true_iff]
  exact ⟨fun hdot hstart => hformat ⟨hdot, hstart⟩, hquery,
    fun hc => Decidable.byContradiction fun hn => hname ⟨hc, hn⟩⟩

theorem misplacedAt?_eq_none_iff {before rest : List Char} {c : Char} :
    misplacedAt? before (c :: rest) = none ↔ '*' ∈ before → c ≠ ':' ∧ c ≠ '*' := by
  rw [misplacedAt?]
  by_cases hcolon : c = ':' ∧ '*' ∈ before
  · simp [hcolon]
  rw [if_neg hcolon]
  by_cases hstar : c = '*' ∧ '*' ∈ before
  · simp [hstar]
  rw [if_neg hstar]
  simp only [true_iff]
  exact fun hbefore => ⟨fun hc => hcolon ⟨hc, hbefore⟩, fun hc => hstar ⟨hc, hbefore⟩⟩

/-- The patterns of the grammar are **those in which no fault is found**. -/
theorem grammatical_iff (p : String) :
    Grammatical p ↔ lexicalFaults p ++ arrangementFaults p = [] := by
  rw [List.append_eq_nil_iff, lexicalFaults, arrangementFaults, collect_eq_nil_iff,
    collect_eq_nil_iff]
  simp only [lexicalAt?_eq_none_iff, misplacedAt?_eq_none_iff]
  constructor
  · intro h
    refine ⟨fun a c b hp => ⟨?_, ?_, h.named a c b hp⟩, fun a c b hp hstar => ⟨?_, ?_⟩⟩
    · -- behind a `.` nothing is a delimiter, so no token starts there
      intro hdot hstart
      obtain ⟨x, y, rfl⟩ := List.append_of_mem hdot
      have hplain := h.dot_last x (y ++ c :: b) (by rw [hp]; simp)
      rcases hstart with hc | hnil | hslash
      · exact hplain c (by simp) hc
      · exact absurd hnil (by simp)
      · rw [List.getLast?_append, List.getLast?_cons] at hslash
        cases hy : y.getLast? with
        | none => simp [hy] at hslash
        | some d =>
            obtain rfl : d = '/' := by simpa [hy] using hslash
            exact hplain '/' (List.mem_append_left _ (List.mem_of_getLast? hy)) (by decide)
    · rintro rfl
      exact h.no_query (by rw [hp]; simp)
    · rintro rfl
      obtain ⟨x, y, rfl⟩ := List.append_of_mem hstar
      exact h.no_colon_behind x (y ++ ':' :: b) (by rw [hp]; simp) (by simp)
    · rintro rfl
      exact (not_mem_of_count_le_one h.star_once hp).1 hstar
  · rintro ⟨hlexical, harranged⟩
    have hdot : ∀ a b, p.toList = a ++ '.' :: b → ∀ c ∈ b, c ∉ delimiters := by
      intro a b hp c hc hdelim
      obtain ⟨x, y, rfl⟩ := List.append_of_mem hc
      exact (hlexical (a ++ '.' :: x) c y (by rw [hp]; simp)).1 (by simp) (.inl hdelim)
    have hstar : ∀ a b, p.toList = a ++ '*' :: b → ':' ∉ b ∧ '*' ∉ b := by
      intro a b hp
      constructor
      · intro hmem
        obtain ⟨x, y, rfl⟩ := List.append_of_mem hmem
        exact (harranged (a ++ '*' :: x) ':' y (by rw [hp]; simp) (by simp)).1 rfl
      · intro hmem
        obtain ⟨x, y, rfl⟩ := List.append_of_mem hmem
        exact (harranged (a ++ '*' :: x) '*' y (by rw [hp]; simp) (by simp)).2 rfl
    refine ⟨fun hmem => ?_, fun a m b hp => (hlexical a m b hp).2.2, ?_, hdot, ?_, ?_⟩
    · obtain ⟨a, b, hp⟩ := List.append_of_mem hmem
      exact (hlexical a '?' b hp).2.1 rfl
    · apply count_le_one_of_unique
      intro a b hp hmem
      exact hdot a b hp '.' hmem (by decide)
    · apply count_le_one_of_unique
      intro a b hp
      exact (hstar a b hp).2
    · intro a b hp
      exact (hstar a b hp).1

end Grammar

namespace Template

/-! ## Compiling -/

/-- Compiling gives **the leftmost lexical fault, or else the leftmost arrangement fault, or else
the runs of the pattern as parts**. -/
theorem ofPattern_eq_outcome (p : String) :
    ofPattern p = Grammar.outcome (Grammar.lexicalFaults p ++ Grammar.arrangementFaults p)
      ⟨decide (p.toList.head? = some '/'), Grammar.parts p⟩ := by
  have hcanonical := Token.canonical_scan p
  have htokens := Grammar.ofTokens_eq_outcome [] hcanonical (by simp) fun _ => .inl rfl
  rw [Token.spellAll_scan] at htokens
  have hrooted : Token.rooted (Token.scan p) = decide (p.toList.head? = some '/') := by
    rw [Token.rooted_scan]
    exact decide_eq_decide.2 (Input.head?_path p)
  have hread : read p = Grammar.outcome (Grammar.lexicalFaults p)
      ⟨decide (p.toList.head? = some '/'), Grammar.parts p⟩ := by
    rw [read, htokens, Grammar.map_outcome, hrooted]
    rfl
  rw [ofPattern, hread]
  -- where a token is faulty, the order is never looked at
  cases hl : Grammar.lexicalFaults p with
  | cons fault faults => rfl
  | nil =>
      have hparts : Part.ofTokens (Token.scan p) = .ok (Grammar.parts p) := by
        rw [htokens]
        exact congrArg (Grammar.outcome · _) hl
      have hchecked := Grammar.misplaced?_eq_head? [] hcanonical hparts
      rw [Token.spellAll_scan] at hchecked
      change (checked _ : Except Fault Template) = Grammar.outcome (Grammar.arrangementFaults p) _
      unfold checked
      change Part.misplaced? false (Grammar.parts p) = (Grammar.arrangementFaults p).head?
        at hchecked
      simp only [hchecked]
      cases Grammar.arrangementFaults p <;> rfl

-- the fault of the order stands further left, and is not the one that is reported
example : Grammar.lexicalFaults "/*a/:b.c/" = [.formatNotLast] ∧
    Grammar.arrangementFaults "/*a/:b.c/" = [.variableAfterGlob] := by decide +kernel

/-- A pattern **compiles exactly if it is of the grammar**, to its runs as parts; and if not, what
is reported is the leftmost fault of a token, and a fault of the order only where no token has
one. -/
theorem ofPattern_iff_grammatical (p : String) :
    ((∃ t, ofPattern p = .ok t) ↔ Grammar.Grammatical p) ∧
      (∀ t, ofPattern p = .ok t →
        t.rooted = decide (p.toList.head? = some '/') ∧ t.parts = Grammar.parts p) ∧
      ∀ fault, ofPattern p = .error fault ↔
        (Grammar.lexicalFaults p ++ Grammar.arrangementFaults p).head? = some fault := by
  rw [Grammar.grammatical_iff, ofPattern_eq_outcome]
  cases Grammar.lexicalFaults p ++ Grammar.arrangementFaults p with
  | nil =>
      refine ⟨⟨fun _ => rfl, fun _ => ⟨_, rfl⟩⟩, ?_, fun fault => ?_⟩
      · rintro t ht
        obtain rfl := Except.ok.inj ht
        exact ⟨rfl, rfl⟩
      · simp [Grammar.outcome]
  | cons f fs =>
      refine ⟨⟨?_, fun h => absurd h (by simp)⟩, ?_, fun fault => ?_⟩
      · rintro ⟨t, ht⟩
        exact absurd ht (by simp [Grammar.outcome])
      · intro t ht
        exact absurd ht (by simp [Grammar.outcome])
      · simp [Grammar.outcome]

end Template

end RoutePattern
