/-
Templates that can be built are well formed, and each is compiled back from its
own pattern.

Only compiling and appending check anything. Removing a part never does, and it
need not: `Part.MayPrecede` says which part may stand to the left of which, the
check of the order is the same as this relation holding between any two parts,
and a relation between any two survives when one of them goes. So the invariant
`Regular` needs nothing but the two facts "every text is plain and not empty"
and "every part may precede what follows it".

For the way back, the pattern of a regular template is the spelling of a
canonical layout, which `Proofs/Spelling` reads back token by token.

The slash in front is looked at as a unit in the list of all units. What reading,
removing and appending do to that list keeps it in front (`JoinerFirst`).
-/
import Mathlib.Data.List.Basic
import RoutePattern.Proofs.Spelling
import RoutePattern.Template.Algebra

set_option autoImplicit false

namespace RoutePattern

/-! ## Steps that succeed -/

section Steps

variable {ε α β : Type}

/-- A mapped step succeeds with the image of what the step gave. -/
theorem exists_of_map_eq_ok {f : α → β} {e : Except ε α} {b : β} (h : e.map f = .ok b) :
    ∃ a, e = .ok a ∧ f a = b := by
  cases e with
  | error fault => exact absurd h (by simp [Except.map])
  | ok a => exact ⟨a, rfl, by simpa [Except.map] using h⟩

/-- Two steps in a row succeed when the second succeeds with what the first gave. -/
theorem exists_of_bind_eq_ok {f : α → Except ε β} {e : Except ε α} {b : β}
    (h : e.bind f = .ok b) : ∃ a, e = .ok a ∧ f a = .ok b := by
  cases e with
  | error fault => exact absurd h (by simp [Except.bind])
  | ok a => exact ⟨a, rfl, h⟩

end Steps

namespace Part

/-! ## The order of parts -/

/-- The text of a literal, or the name of a capture. -/
def text : Part → String
  | literal text => text
  | var name => name
  | glob name => name
  | format name => name

/-- Whether a part takes any number of segments. -/
@[simp] def isGlob : Part → Bool
  | glob _ => true
  | _ => false

/-- Whether a part takes one segment and captures it. -/
@[simp] def isVar : Part → Bool
  | var _ => true
  | _ => false

@[simp] theorem isFormat_literal (text : String) : (literal text).isFormat = false := rfl

@[simp] theorem isFormat_var (name : String) : (var name).isFormat = false := rfl

@[simp] theorem isFormat_glob (name : String) : (glob name).isFormat = false := rfl

@[simp] theorem isFormat_format (name : String) : (format name).isFormat = true := rfl

/-- Nothing stands behind a format, and neither a variable nor a second glob behind a glob. -/
def MayPrecede (p q : Part) : Prop :=
  p.isFormat = false ∧ (p.isGlob = true → q.isVar = false ∧ q.isGlob = false)

/-- The check of the order finds no fault exactly when every part **may precede all that follow
it**. To the right of a glob, the rest must hold no variable and no glob either. -/
theorem misplaced?_eq_none_iff (ps : List Part) : ∀ afterGlob : Bool,
    misplaced? afterGlob ps = none ↔
      (afterGlob = true → ∀ p ∈ ps, p.isVar = false ∧ p.isGlob = false) ∧
        ps.Pairwise MayPrecede := by
  -- both states of the flag at once, since a glob changes it for the rest
  induction ps with
  | nil => intro b; simp [misplaced?]
  | cons p ps ih =>
      intro b
      cases p with
      | literal text =>
          rw [misplaced?, ih b, List.pairwise_cons]
          simp [MayPrecede]
      | var name =>
          rw [misplaced?, List.pairwise_cons]
          cases b <;> simp [ih, MayPrecede]
      | glob name =>
          rw [misplaced?, List.pairwise_cons]
          cases b <;> simp [ih, MayPrecede]
      | format name =>
          rw [misplaced?, List.pairwise_cons]
          cases ps with
          | nil => simp
          | cons q qs =>
              have hq : ¬ MayPrecede (format name) q := fun h => absurd h.1 (by simp)
              simp [hq]

/-- Since nothing stands behind a format, the formats are at the end, and at most one. -/
theorem filter_append_filter_of_pairwise {ps : List Part} (h : ps.Pairwise MayPrecede) :
    ps.filter (fun p => !p.isFormat) ++ ps.filter isFormat = ps ∧
      (ps.filter isFormat).length ≤ 1 := by
  induction ps with
  | nil => simp
  | cons p ps ih =>
      obtain ⟨hp, hps⟩ := List.pairwise_cons.1 h
      obtain ⟨heq, hlen⟩ := ih hps
      cases hf : p.isFormat with
      | false => simpa [hf] using ⟨heq, hlen⟩
      | true =>
          -- nothing may stand behind a format
          have hnil : ps = [] := by
            refine List.eq_nil_iff_forall_not_mem.2 fun q hq => ?_
            have := (hp q hq).1
            rw [hf] at this
            exact absurd this (by decide)
          subst hnil
          simp [hf]

/-! ## Parts and tokens -/

/-- The token that a part is read from. -/
def token : Part → Token
  | literal text => .literal text
  | var name => .var name
  | glob name => .glob name
  | format name => .format name

theorem spell_token (p : Part) : p.token.spell = p.spell := by
  cases p <;> rfl

/-- A part whose text is plain and not empty. -/
def Named (p : Part) : Prop := p.text ≠ "" ∧ Token.Plain p.text

theorem place_token {p : Part} (h : p.Named) (hf : p.isFormat = false) : p.token.Place := by
  cases p with
  | literal text => exact h
  | var name => exact h.2
  | glob name => exact h.2
  | format name => exact absurd hf (by simp)

/-- A capture could be read that has a name, in front of parts that could be read. -/
theorem exists_of_consNamed_eq_ok {part : String → Part} {name : String}
    {rest : Except Fault (List Part)} {ps : List Part} (h : consNamed part name rest = .ok ps) :
    name ≠ "" ∧ ∃ qs, rest = .ok qs ∧ part name :: qs = ps := by
  unfold consNamed at h
  split at h
  · exact absurd h (by simp)
  · next hne => exact ⟨hne, exists_of_map_eq_ok h⟩

/-- A capture that was read has passed the check of its name. -/
theorem named_of_consNamed {part : String → Part} {name : String}
    {rest : Except Fault (List Part)} {ps : List Part} (h : consNamed part name rest = .ok ps)
    (htext : (part name).text = name) (hplain : Token.Plain name)
    (hrest : ∀ qs, rest = .ok qs → ∀ q ∈ qs, q.Named) : ∀ p ∈ ps, p.Named := by
  obtain ⟨hne, qs, hqs, rfl⟩ := exists_of_consNamed_eq_ok h
  intro p hp
  rcases List.mem_cons.1 hp with rfl | hq
  · rw [Named, htext]
    exact ⟨hne, hplain⟩
  · exact hrest qs hqs p hq

/-- What is read from the tokens of a text is named: a literal because no token of a text is an
empty one, a capture because its name is checked. -/
theorem named_of_ofTokens {tokens : List Token} : ∀ {ps : List Part},
    ofTokens tokens = .ok ps → (∀ t ∈ tokens, t.Sound) → ∀ p ∈ ps, p.Named := by
  induction tokens with
  | nil =>
      intro ps h _ p hp
      obtain rfl : [] = ps := by simpa [ofTokens] using h
      exact absurd hp List.not_mem_nil
  | cons t ts ih =>
      intro ps h hs
      have ht : t.Sound := hs t List.mem_cons_self
      have hts : ∀ u ∈ ts, u.Sound := fun u hu => hs u (List.mem_cons_of_mem _ hu)
      cases t with
      | slash => exact ih h hts
      | literal text =>
          obtain ⟨qs, hqs, rfl⟩ := exists_of_map_eq_ok h
          intro p hp
          rcases List.mem_cons.1 hp with rfl | hq
          · exact ht
          · exact ih hqs hts p hq
      | var name => exact named_of_consNamed h rfl ht fun qs hqs => ih hqs hts
      | glob name => exact named_of_consNamed h rfl ht fun qs hqs => ih hqs hts
      | format name =>
          -- a format is read only where no token follows it
          refine named_of_consNamed h rfl ht fun qs hqs q hq => ?_
          split at hqs
          · obtain rfl : [] = qs := by simpa using hqs
            exact absurd hq List.not_mem_nil
          · exact absurd hqs (by simp)
      | query text => exact absurd h (by simp [ofTokens])

/-- Parts with slashes between them are read back, in front of what is read from the rest. -/
theorem ofTokens_intersperse {ps : List Part} (h : ∀ p ∈ ps, p.Named ∧ p.isFormat = false)
    (attached : List Token) :
    ofTokens ((ps.map token).intersperse .slash ++ attached) =
      (ofTokens attached).map (ps ++ ·) := by
  have hcons : ∀ {p : Part} (_ : p.Named ∧ p.isFormat = false) (ts : List Token),
      ofTokens (p.token :: ts) = (ofTokens ts).map (p :: ·) := by
    intro p hp ts
    cases p with
    | literal text => rfl
    | format name => exact absurd hp.2 (by simp)
    | _ => exact if_neg hp.1.1
  -- the slash in front of the next place is skipped, so a step is one part
  induction ps with
  | nil =>
      rw [List.map_nil, List.intersperse_nil, List.nil_append]
      cases ofTokens attached <;> rfl
  | cons p ps ih =>
      have hp := h p List.mem_cons_self
      have hps := ih fun q hq => h q (List.mem_cons_of_mem _ hq)
      have hmap : (ofTokens attached).map ((p :: ps) ++ ·) =
          ((ofTokens attached).map (ps ++ ·)).map (p :: ·) := by
        cases ofTokens attached <;> rfl
      rw [hmap, ← hps]
      cases ps with
      | nil => exact hcons hp attached
      | cons q qs => exact hcons hp _

end Part

namespace Template

/-! ## The invariant -/

/-- What every template that can be built satisfies. -/
structure Regular (t : Template) : Prop where
  named : ∀ p ∈ t.parts, p.Named
  ordered : t.parts.Pairwise Part.MayPrecede

theorem regular_empty : Regular {} :=
  ⟨fun _ hp => absurd hp List.not_mem_nil, List.Pairwise.nil⟩

/-- Reading a pattern gives named parts, in whatever order. -/
theorem named_of_read {p : String} {t : Template} (h : read p = .ok t) :
    ∀ q ∈ t.parts, q.Named := by
  obtain ⟨ps, hps, rfl⟩ := exists_of_map_eq_ok h
  exact Part.named_of_ofTokens hps fun u hu => Token.sound_of_mem_scan hu

/-- What passes the check is unchanged and ordered. -/
theorem checked_eq_ok_iff {t u : Template} :
    checked t = .ok u ↔ t = u ∧ t.parts.Pairwise Part.MayPrecede := by
  have hiff := Part.misplaced?_eq_none_iff t.parts false
  unfold checked
  split
  · next hnone =>
    have hordered := (hiff.1 hnone).2
    constructor
    · intro h
      exact ⟨by simpa using h, hordered⟩
    · rintro ⟨rfl, -⟩
      rfl
  · next fault hsome =>
    constructor
    · intro h
      exact absurd h (by simp)
    · rintro ⟨-, hordered⟩
      have := hiff.2 ⟨fun hb => absurd hb (by decide), hordered⟩
      rw [hsome] at this
      exact absurd this (by simp)

theorem regular_of_ofPattern {p : String} {t : Template} (h : ofPattern p = .ok t) :
    t.Regular := by
  obtain ⟨u, hread, hcheck⟩ := exists_of_bind_eq_ok h
  obtain ⟨rfl, hordered⟩ := checked_eq_ok_iff.1 hcheck
  exact ⟨named_of_read hread, hordered⟩

theorem Regular.append {t u : Template} {p : String} (ht : t.Regular) (h : t.append p = .ok u) :
    u.Regular := by
  obtain ⟨v, hread, hcheck⟩ := exists_of_bind_eq_ok h
  obtain ⟨rfl, hordered⟩ := checked_eq_ok_iff.1 hcheck
  refine ⟨fun q hq => ?_, hordered⟩
  rcases List.mem_append.1 hq with hq | hq
  · exact ht.named q hq
  · exact named_of_read hread q hq

theorem Regular.erase {t : Template} (ht : t.Regular) (part : Part) : (t.erase part).Regular :=
  ⟨fun q hq => ht.named q (List.mem_of_mem_erase hq),
    ht.ordered.sublist List.erase_sublist⟩

theorem Regular.unroot {t : Template} (ht : t.Regular) : t.unroot.Regular :=
  ⟨ht.named, ht.ordered⟩

/-- Removing erases one part or changes nothing. -/
theorem eq_or_exists_erase_of_remove {t u : Template} {p : String} (h : t.remove p = .ok u) :
    u = t ∨ ∃ part, u = t.erase part := by
  obtain ⟨v, -, rfl⟩ := exists_of_map_eq_ok h
  split
  · exact .inl rfl
  · next part _ _ => exact .inr ⟨part, rfl⟩

theorem Regular.remove {t u : Template} {p : String} (ht : t.Regular) (h : t.remove p = .ok u) :
    u.Regular := by
  rcases eq_or_exists_erase_of_remove h with rfl | ⟨part, rfl⟩
  · exact ht
  · exact ht.erase part

/-- Every template that can be built is **regular**. -/
theorem Reachable.regular {t : Template} (h : t.Reachable) : t.Regular := by
  induction h with
  | empty => exact regular_empty
  | ofPattern h => exact regular_of_ofPattern h
  | append _ h ih => exact ih.append h
  | remove _ h ih => exact ih.remove h
  | erase part _ ih => exact ih.erase part
  | unroot _ ih => exact ih.unroot

/-! ## The way back from the pattern -/

/-- The separated parts and the attached ones, in this order, are all parts. -/
theorem Regular.separated_append_attached {t : Template} (ht : t.Regular) :
    t.separated ++ t.attached = t.parts :=
  (Part.filter_append_filter_of_pairwise ht.ordered).1

theorem mem_separated {t : Template} {p : Part} (h : p ∈ t.separated) :
    p ∈ t.parts ∧ p.isFormat = false := by
  simpa [separated] using h

/-- At most one part is attached, a format. -/
theorem Regular.attached_eq {t : Template} (ht : t.Regular) :
    t.attached = [] ∨ ∃ name, t.attached = [.format name] ∧ (Part.format name).Named := by
  have hlen : t.attached.length ≤ 1 := (Part.filter_append_filter_of_pairwise ht.ordered).2
  cases h : t.attached with
  | nil => exact .inl rfl
  | cons p ps =>
      rw [h, List.length_cons] at hlen
      obtain rfl : ps = [] := List.eq_nil_of_length_eq_zero (by omega)
      have hmem : p ∈ t.parts ∧ p.isFormat = true := by
        simpa [attached] using (h ▸ List.mem_singleton_self p : p ∈ t.attached)
      cases p with
      | format name => exact .inr ⟨name, rfl, ht.named _ hmem.1⟩
      | _ => exact absurd hmem.2 (by simp)

/-- The tokens that the pattern of a template spells. -/
def tokens (t : Template) : List Token :=
  Token.layout t.rooted (t.separated.map Part.token) (t.attached.map Part.token)

theorem spellAll_tokens (t : Template) : Token.spellAll t.tokens = t.pattern := by
  have hspell : ∀ ps : List Part, (ps.map Part.token).map Token.spell = ps.map Part.spell := by
    intro ps
    rw [List.map_map]
    exact List.map_congr_left fun p _ => Part.spell_token p
  rw [tokens, Token.spellAll_layout, hspell, Token.spellAll, hspell]
  rfl

theorem Regular.place_of_mem {t : Template} (ht : t.Regular) :
    ∀ u ∈ t.separated.map Part.token, u.Place := by
  intro u hu
  obtain ⟨p, hp, rfl⟩ := List.mem_map.1 hu
  obtain ⟨hmem, hformat⟩ := mem_separated hp
  exact Part.place_token (ht.named p hmem) hformat

theorem Regular.scan_pattern {t : Template} (ht : t.Regular) : Token.scan t.pattern = t.tokens := by
  -- the pattern spells places, and at most one attached format
  rw [← spellAll_tokens]
  refine Token.scan_spellAll (Token.canonical_layout t.rooted ht.place_of_mem ?_)
  rcases ht.attached_eq with h | ⟨name, h, hname⟩
  · rw [h]; trivial
  · rw [h]; exact ⟨hname.2, trivial⟩

/-- The parts of a template are read back from its tokens. -/
theorem Regular.ofTokens_tokens {t : Template} (ht : t.Regular) :
    Part.ofTokens t.tokens = .ok t.parts := by
  have hsep : ∀ p ∈ t.separated, p.Named ∧ p.isFormat = false := fun p hp =>
    ⟨ht.named p (mem_separated hp).1, (mem_separated hp).2⟩
  have hattached : Part.ofTokens (t.attached.map Part.token) = .ok t.attached := by
    rcases ht.attached_eq with h | ⟨name, h, hname⟩
    · rw [h]; rfl
    · rw [h]; exact if_neg hname.1
  have hplaces := Part.ofTokens_intersperse hsep (t.attached.map Part.token)
  rw [hattached] at hplaces
  have hall : Part.ofTokens t.tokens =
      Part.ofTokens ((t.separated.map Part.token).intersperse .slash ++
        t.attached.map Part.token) := by
    rw [tokens, Token.layout]
    cases t.rooted <;> rfl
  rw [hall, hplaces, ← ht.separated_append_attached]
  rfl

theorem Regular.rooted_tokens {t : Template} (ht : t.Regular) :
    Token.rooted t.tokens = t.rooted := by
  refine Token.rooted_layout t.rooted ht.place_of_mem ?_
  rcases ht.attached_eq with h | ⟨name, h, -⟩ <;> simp [h, Part.token]

/-- A regular template is **compiled back from its pattern**. -/
theorem Regular.ofPattern_pattern {t : Template} (ht : t.Regular) :
    Template.ofPattern t.pattern = .ok t := by
  have hread : read t.pattern = .ok t := by
    rw [read, ht.scan_pattern, ht.ofTokens_tokens, ht.rooted_tokens]
    rfl
  rw [Template.ofPattern, hread]
  exact checked_eq_ok_iff.2 ⟨rfl, ht.ordered⟩

/-! ## The slash in front as a unit of its own

Whether a template is rooted is kept beside its parts. In the list of all units
the slash in front is one of them, and reading, removing and appending work on
that list as they do on any other (`items_of_read`, `items_erase`,
`items_unroot`, `items_append`). That it stands in front only is therefore an
invariant of these operations and follows from the four lemmas. -/

/-- A unit of a template: the slash in front, or a part. -/
inductive Item where
  | joiner
  | part (p : Part)
  deriving DecidableEq, Repr

/-- All units of a template in order. -/
def items (t : Template) : List Item :=
  (if t.rooted then [.joiner] else []) ++ t.parts.map .part

theorem joiner_not_mem_parts (ps : List Part) : Item.joiner ∉ ps.map Item.part := by
  simp

/-- The units that are read from a pattern: the slash that it starts with, and one part for each
token that is no slash. -/
theorem items_of_read {p : String} {t : Template} (h : read p = .ok t) :
    ∃ ps, Part.ofTokens (Token.scan p) = .ok ps ∧
      t.items = (if (Token.scan p).head? = some .slash then [.joiner] else []) ++
        ps.map .part := by
  obtain ⟨ps, hps, rfl⟩ := exists_of_map_eq_ok h
  exact ⟨ps, hps, by simp [items, Token.rooted]⟩

theorem items_erase (t : Template) (p : Part) : (t.erase p).items = t.items.erase (.part p) := by
  rw [items, items, rooted_erase, parts_erase, List.map_erase fun _ _ => Item.part.inj]
  cases t.rooted with
  | false => rfl
  | true => exact (List.erase_cons_tail (by simp)).symm

theorem items_unroot (t : Template) : t.unroot.items = t.items.erase .joiner := by
  have hparts : (t.parts.map Item.part).erase .joiner = t.parts.map Item.part :=
    List.erase_of_not_mem (joiner_not_mem_parts t.parts)
  rw [items, items]
  cases t.rooted with
  | false => exact hparts.symm
  | true => rfl

/-- Appending adds the units of the pattern, its slash in front left out. -/
theorem items_append {t u v : Template} {p : String} (hv : read p = .ok v)
    (h : t.append p = .ok u) : u.items = t.items ++ v.items.erase .joiner := by
  rw [Template.append, hv] at h
  obtain ⟨rfl, -⟩ := checked_eq_ok_iff.1 h
  rw [← items_unroot]
  simp [items, unroot]

/-- Units with no slash behind the first of them. -/
def JoinerFirst (items : List Item) : Prop := Item.joiner ∉ items.tail

theorem JoinerFirst.eq_zero {items : List Item} (h : JoinerFirst items) {i : Nat}
    (hi : items[i]? = some .joiner) : i = 0 := by
  cases i with
  | zero => rfl
  | succ i =>
      rw [← List.getElem?_tail] at hi
      exact absurd (List.mem_of_getElem? hi) h

theorem JoinerFirst.erase {items : List Item} (h : JoinerFirst items) (item : Item) :
    JoinerFirst (items.erase item) := fun hmem =>
  h (List.erase_sublist.tail.subset hmem)

/-- Where a slash can stand in front only, removing one leaves none. -/
theorem JoinerFirst.not_mem_erase {items : List Item} (h : JoinerFirst items) :
    Item.joiner ∉ items.erase .joiner := by
  cases items with
  | nil => exact List.not_mem_nil
  | cons item rest =>
      by_cases hitem : item = .joiner
      · rw [hitem, List.erase_cons_head]
        exact h
      · rw [List.erase_cons_tail (by simpa using hitem)]
        intro hmem
        rcases List.mem_cons.1 hmem with rfl | hmem
        · exact hitem rfl
        · exact h (List.mem_of_mem_erase hmem)

theorem JoinerFirst.append {items more : List Item} (h : JoinerFirst items)
    (hmore : Item.joiner ∉ more) : JoinerFirst (items ++ more) := by
  cases items with
  | nil => exact fun hmem => hmore (List.mem_of_mem_tail hmem)
  | cons item rest =>
      intro hmem
      rcases List.mem_append.1 hmem with hmem | hmem
      · exact h hmem
      · exact hmore hmem

/-- A pattern gives a slash for its first token only. -/
theorem joinerFirst_of_read {p : String} {t : Template} (h : read p = .ok t) :
    JoinerFirst t.items := by
  obtain ⟨ps, -, hitems⟩ := items_of_read h
  have hparts := joiner_not_mem_parts ps
  rw [hitems]
  split
  · exact hparts
  · exact fun hmem => hparts (List.mem_of_mem_tail hmem)

/-- Every way to build a template leaves a slash **in front only**. -/
theorem Reachable.joinerFirst {t : Template} (h : t.Reachable) : JoinerFirst t.items := by
  induction h with
  | empty => exact List.not_mem_nil
  | ofPattern h =>
      obtain ⟨u, hread, hcheck⟩ := exists_of_bind_eq_ok h
      obtain ⟨rfl, -⟩ := checked_eq_ok_iff.1 hcheck
      exact joinerFirst_of_read hread
  | append _ h ih =>
      obtain ⟨v, hread, -⟩ := exists_of_bind_eq_ok h
      rw [items_append hread h]
      exact ih.append (joinerFirst_of_read hread).not_mem_erase
  | remove _ h ih =>
      rcases eq_or_exists_erase_of_remove h with rfl | ⟨part, rfl⟩
      · exact ih
      · rw [items_erase]
        exact ih.erase _
  | erase part _ ih =>
      rw [items_erase]
      exact ih.erase _
  | unroot _ ih =>
      rw [items_unroot]
      exact ih.erase _

/-! ## Well-formedness in full -/

/-- A template as a pattern can write it. -/
structure WellFormed (t : Template) : Prop where
  /-- A slash in front stands in front only. -/
  joiner_first : ∀ i, t.items[i]? = some .joiner → i = 0
  /-- No literal and no name is empty. -/
  text_ne : ∀ p ∈ t.parts, p.text ≠ ""
  /-- No literal and no name has a delimiter. -/
  text_plain : ∀ p ∈ t.parts, ∀ c ∈ p.text.toList, c ∉ ['/', ':', '*', '.', '?']
  glob_once : (t.parts.filter Part.isGlob).length ≤ 1
  vars_before_glob : t.parts.Pairwise fun p q => p.isGlob = true → q.isVar = false
  format_last : ∀ p ∈ t.parts.dropLast, p.isFormat = false

theorem not_mem_delimiters_of_plain {text : String} (h : Token.Plain text) :
    ∀ c ∈ text.toList, c ∉ ['/', ':', '*', '.', '?'] := by
  intro c hc hmem
  have hd : Token.isDelimiter c = false := h c hc
  simp only [List.mem_cons, List.not_mem_nil, or_false] at hmem
  rcases hmem with rfl | rfl | rfl | rfl | rfl <;> exact absurd hd (by decide)

/-- Of two globs the left one may not precede the right one. -/
theorem Regular.glob_once {t : Template} (ht : t.Regular) :
    (t.parts.filter Part.isGlob).length ≤ 1 := by
  have hglob : ∀ p ∈ t.parts.filter Part.isGlob, p.isGlob = true := fun p hp =>
    (List.mem_filter.1 hp).2
  cases hl : t.parts.filter Part.isGlob with
  | nil => exact Nat.zero_le 1
  | cons p ps =>
      cases ps with
      | nil => exact Nat.le_refl 1
      | cons q qs =>
          have hsub : (p :: q :: qs).Pairwise Part.MayPrecede :=
            hl ▸ ht.ordered.filter Part.isGlob
          have hpq := (List.pairwise_cons.1 hsub).1 q List.mem_cons_self
          have hp := hglob p (hl ▸ List.mem_cons_self)
          have hq := hglob q (hl ▸ List.mem_cons_of_mem _ List.mem_cons_self)
          rw [(hpq.2 hp).2] at hq
          exact absurd hq (by decide)

/-- The last part stands behind all others, so none of these is a format. -/
theorem Regular.format_last {t : Template} (ht : t.Regular) :
    ∀ p ∈ t.parts.dropLast, p.isFormat = false := by
  intro p hp
  have hne : t.parts ≠ [] := by
    intro hnil
    rw [hnil] at hp
    exact absurd hp List.not_mem_nil
  have hsplit := List.dropLast_concat_getLast hne
  have hordered := ht.ordered
  rw [← hsplit, List.pairwise_append] at hordered
  exact (hordered.2.2 p hp _ List.mem_cons_self).1

theorem Reachable.wellFormed {t : Template} (h : t.Reachable) : t.WellFormed where
  joiner_first := fun _ hi => h.joinerFirst.eq_zero hi
  text_ne := fun p hp => (h.regular.named p hp).1
  text_plain := fun p hp => not_mem_delimiters_of_plain (h.regular.named p hp).2
  glob_once := h.regular.glob_once
  vars_before_glob := h.regular.ordered.imp fun hpq hg => (hpq.2 hg).1
  format_last := h.regular.format_last

/-- Every template that can be built is **well formed and compiled back from its pattern**. So
templates are told apart by their patterns, and so are the texts that compile. -/
theorem wellFormed_and_ofPattern_pattern :
    (∀ t : Template, t.Reachable → t.WellFormed ∧ Template.ofPattern t.pattern = .ok t) ∧
      (∀ t u : Template, t.Reachable → u.Reachable → t.pattern = u.pattern → t = u) ∧
      ∀ (p q : String) (t u : Template), Template.ofPattern p = .ok t →
        Template.ofPattern q = .ok u →
          (Template.ofPattern p = Template.ofPattern q ↔ t.pattern = u.pattern) := by
  have hinj : ∀ t u : Template, t.Reachable → u.Reachable → t.pattern = u.pattern → t = u := by
    intro t u ht hu h
    have hback := ht.regular.ofPattern_pattern
    rw [h, hu.regular.ofPattern_pattern] at hback
    exact (Except.ok.inj hback).symm
  refine ⟨fun t ht => ⟨ht.wellFormed, ht.regular.ofPattern_pattern⟩, hinj, ?_⟩
  intro p q t u hp hq
  rw [hp, hq]
  constructor
  · intro h
    rw [Except.ok.inj h]
  · intro h
    rw [hinj t u (.ofPattern hp) (.ofPattern hq) h]

/-- Nothing is checked when parts go, so what is left of this pattern has been neither written nor
compiled by anyone: its slash in front and its variable are gone, and its format has moved up. -/
theorem wellFormed_and_ofPattern_pattern_of_removed :
    ∃ t u : Template, t = ⟨true, [.literal "users", .var "id", .format "fmt"]⟩ ∧
      ofPattern "/users:id.fmt" = .ok t ∧ (t.erase (.var "id")).unroot = u ∧
      u = ⟨false, [.literal "users", .format "fmt"]⟩ ∧ u.pattern = "users.fmt" ∧
      u.WellFormed ∧ ofPattern "users.fmt" = .ok u := by
  let t : Template := ⟨true, [.literal "users", .var "id", .format "fmt"]⟩
  have ht : ofPattern "/users:id.fmt" = .ok t := rfl
  have hu : ((t.erase (.var "id")).unroot).Reachable := .unroot (.erase _ (.ofPattern ht))
  obtain ⟨hwell, hback⟩ := wellFormed_and_ofPattern_pattern.1 _ hu
  exact ⟨t, _, rfl, ht, rfl, rfl, rfl, hwell, hback⟩

end Template

end RoutePattern
