/-
Integers read back from their decimal text.

An integer is captured as its decimal text, and that text is plain, since it is
made of digits and perhaps a minus sign. So it comes back from a path as it was.
What is read of it then depends on the range that is asked for.

Digits are read from the left, and what has been read so far is a number of its
own (`withSign`). It moves away from zero with each digit, and zero is in every
range. So as soon as it leaves the range it is out for good, on the side of the
sign, and if it never leaves the range then the integer is in it: whether reading
succeeds is told by the integer alone (`readDigits_eq`).
-/
import RoutePattern.Numeral
import RoutePattern.Proofs.ReadBack

set_option autoImplicit false

namespace RoutePattern

/-! ## Ranges -/

namespace IntRange

theorem count_pos (bits : Nat) : 0 < count bits := Int.pow_pos (by decide)

/-- Zero is in every range. -/
theorem zero_mem (r : IntRange) : r.least ≤ 0 ∧ 0 ≤ r.greatest := by
  have hfew := count_pos (r.bits - 1)
  have hmany := count_pos r.bits
  unfold least greatest
  split <;> omega

theorem least_of_unsigned {r : IntRange} (h : r.signed = false) : r.least = 0 := by
  simp [least, h]

end IntRange

namespace Numeral

/-! ## Digits -/

/-- A number with a sign in front. -/
def withSign (negative : Bool) (a : Nat) : Int := if negative then -a else a

theorem digitValue?_of_isDigit {c : Char} (h : c.isDigit = true) :
    digitValue? c = some (c.toNat - '0'.toNat) := if_pos h

theorem extend_withSign (negative : Bool) (a d : Nat) :
    extend negative (withSign negative a) d = withSign negative (10 * a + d) := by
  cases negative with
  | false => simp [extend, withSign]; omega
  | true => simp [extend, withSign]; omega

/-- Digits never make a number smaller. -/
theorem le_ofDigitChars (ds : List Char) (a : Nat) : a ≤ Nat.ofDigitChars 10 ds a := by
  induction ds generalizing a with
  | nil => simp
  | cons c ds ih =>
      rw [Nat.ofDigitChars_cons]
      exact Nat.le_trans (by omega) (ih _)

/-- Behind a number in the range, digits are read to the end **exactly if the number that they end
with is in the range**. Otherwise the fault is on the side of the sign. -/
theorem readDigits_eq (r : IntRange) (negative : Bool) {ds : List Char}
    (hds : ∀ c ∈ ds, c.isDigit = true) {a : Nat} (hleast : r.least ≤ withSign negative a)
    (hgreatest : withSign negative a ≤ r.greatest) :
    readDigits r negative (withSign negative a) ds =
      if r.least ≤ withSign negative (Nat.ofDigitChars 10 ds a) ∧
          withSign negative (Nat.ofDigitChars 10 ds a) ≤ r.greatest then
        .ok (withSign negative (Nat.ofDigitChars 10 ds a))
      else .error (if negative then .tooSmall else .tooLarge) := by
  induction ds generalizing a with
  | nil =>
      rw [Nat.ofDigitChars_nil, if_pos ⟨hleast, hgreatest⟩]
      rfl
  | cons c ds ih =>
      obtain ⟨hc, hrest⟩ := List.forall_mem_cons.1 hds
      have hzero := r.zero_mem
      have hgrows := le_ofDigitChars ds (10 * a + (c.toNat - '0'.toNat))
      have hstep := ih hrest (a := 10 * a + (c.toNat - '0'.toNat))
      rw [readDigits, digitValue?_of_isDigit hc]
      simp only [extend_withSign]
      rw [Nat.ofDigitChars_cons]
      generalize 10 * a + (c.toNat - '0'.toNat) = b at *
      generalize Nat.ofDigitChars 10 ds b = e at *
      -- if the number leaves the range here, the one in the end is still further away from zero
      cases negative with
      | false =>
          simp only [withSign, Bool.false_eq_true, if_false] at *
          by_cases hlarge : r.greatest < (b : Int)
          · rw [if_pos hlarge, if_neg (by omega)]
          · rw [if_neg hlarge, if_neg (by omega)]
            exact hstep (by omega) (by omega)
      | true =>
          simp only [withSign, if_true] at *
          by_cases hsmall : -(b : Int) < r.least
          · rw [if_neg (by omega), if_pos hsmall, if_neg (by omega)]
          · rw [if_neg (by omega), if_neg hsmall]
            exact hstep (by omega) (by omega)

/-! ## Decimal texts -/

theorem isDigit_of_mem {c : Char} {a : Nat} (h : c ∈ Nat.toDigits 10 a) : c.isDigit = true :=
  Nat.isDigit_of_mem_toDigits (by decide) (by decide) h

/-- The decimal digits of a number, read from the left. -/
theorem readDigits_toDigits (r : IntRange) (negative : Bool) (a : Nat) :
    readDigits r negative 0 (Nat.toDigits 10 a) =
      if r.least ≤ withSign negative a ∧ withSign negative a ≤ r.greatest then
        .ok (withSign negative a)
      else .error (if negative then .tooSmall else .tooLarge) := by
  have hzero : withSign negative 0 = 0 := by cases negative <;> rfl
  have hdigits : ∀ c ∈ Nat.toDigits 10 a, c.isDigit = true := fun c hc => isDigit_of_mem hc
  have hread := readDigits_eq r negative hdigits (a := 0) (hzero ▸ r.zero_mem.1)
    (hzero ▸ r.zero_mem.2)
  rwa [hzero, Nat.ofDigitChars_ten_toDigits] at hread

/-- The text of an integer: a minus sign if it is negative, and the digits of its size. -/
theorem toList_toString (n : Int) :
    (toString n).toList =
      if 0 ≤ n then Nat.toDigits 10 n.toNat else '-' :: Nat.toDigits 10 (-n).toNat := by
  rw [Int.toString_eq_repr, Int.repr_eq_if]
  split <;> simp

/-- Digits without a sign in front are read as they are. -/
theorem readInt_of_digits {s : String} {a : Nat} (h : s.toList = Nat.toDigits 10 a)
    (r : IntRange) : readInt r s = readDigits r false 0 (Nat.toDigits 10 a) := by
  obtain ⟨d, ds, hds⟩ := List.exists_cons_of_ne_nil (Nat.toDigits_ne_nil (n := a) (b := 10))
  -- no digit is a sign
  have hd : d.isDigit = true := isDigit_of_mem (hds ▸ List.mem_cons_self)
  have hplus : d ≠ '+' := by rintro rfl; exact absurd hd (by decide)
  have hminus : d ≠ '-' := by rintro rfl; exact absurd hd (by decide)
  rw [readInt, h, hds]
  split
  · next heq => exact absurd heq (by simp)
  · next heq => exact absurd (List.cons.inj heq).1 hplus
  · next heq => exact absurd (List.cons.inj heq).1 hminus
  · rfl

/-- A minus sign in front of digits is for ranges with negative numbers. -/
theorem readInt_of_minus {s : String} {a : Nat} (h : s.toList = '-' :: Nat.toDigits 10 a)
    (r : IntRange) :
    readInt r s = if r.signed then readDigits r true 0 (Nat.toDigits 10 a)
      else .error .invalidDigit := by
  obtain ⟨d, ds, hds⟩ := List.exists_cons_of_ne_nil (Nat.toDigits_ne_nil (n := a) (b := 10))
  rw [readInt, h, hds]
  rfl

/-- What is read of the decimal text of an integer: the integer if it is in the range, and else on
which side it is out. -/
def reading (r : IntRange) (n : Int) : Except NumeralFault Int :=
  if r.least ≤ n ∧ n ≤ r.greatest then .ok n
  else if r.greatest < n then .error .tooLarge
  else if r.signed then .error .tooSmall
  else .error .invalidDigit

/-- An integer is read from its decimal text **exactly by the ranges that have it**. -/
theorem readInt_toString (r : IntRange) (n : Int) : readInt r (toString n) = reading r n := by
  have hzero := r.zero_mem
  have htext := toList_toString n
  by_cases hn : 0 ≤ n
  · have habs : withSign false n.toNat = n := Int.toNat_of_nonneg hn
    rw [if_pos hn] at htext
    rw [readInt_of_digits htext, readDigits_toDigits, habs, reading]
    split
    · rfl
    · have hout : r.greatest < n := by omega
      rw [if_pos hout]
      rfl
  · have habs : withSign true (-n).toNat = n := by
      have hneg : ((-n).toNat : Int) = -n := Int.toNat_of_nonneg (by omega)
      rw [withSign, if_pos rfl, hneg, Int.neg_neg]
    rw [if_neg hn] at htext
    rw [readInt_of_minus htext, readDigits_toDigits, habs, reading]
    cases hs : r.signed with
    | true =>
        rw [if_pos rfl]
        split
        · rfl
        · have hin : ¬ r.greatest < n := by omega
          rw [if_neg hin]
          rfl
    | false =>
        -- zero is the least one, so the integer is out as well
        have hleast := IntRange.least_of_unsigned hs
        rw [if_neg Bool.false_ne_true, if_neg (by omega), if_neg (by omega),
          if_neg Bool.false_ne_true]

end Numeral

/-! ## In a path -/

/-- A digit is no delimiter. -/
theorem Token.isDelimiter_of_isDigit {c : Char} (h : c.isDigit = true) : isDelimiter c = false := by
  refine isDelimiter_eq_false_iff.2 ⟨?_, ?_⟩
  · rintro rfl
    exact absurd h (by decide)
  · cases hm : Mark.ofChar? c with
    | none => rfl
    | some m =>
        obtain rfl := Mark.char_of_ofChar? hm
        cases m <;> exact absurd h (by decide)

/-- The decimal text of an integer can stand between two slashes. -/
theorem Input.solid_toString (n : Int) : Solid (toString n) := by
  have hdigits : ∀ a : Nat, ∀ c ∈ Nat.toDigits 10 a, Token.isDelimiter c = false :=
    fun a c hc => Token.isDelimiter_of_isDigit (Numeral.isDigit_of_mem hc)
  refine ⟨fun hempty => ?_, fun c hc => ?_⟩
  · have hnil : (toString n).toList = [] := by rw [hempty]; rfl
    rw [Numeral.toList_toString] at hnil
    split at hnil
    · exact Nat.toDigits_ne_nil hnil
    · exact absurd hnil (List.cons_ne_nil _ _)
  · rw [Numeral.toList_toString] at hc
    split at hc
    · exact hdigits _ c hc
    · rcases List.mem_cons.1 hc with rfl | hc
      · decide
      · exact hdigits _ c hc

namespace Template

/-- The values that a template needs beside that of one of its variables. -/
structure FillableBeside (t : Template) (v : String) (c : Captures) : Prop where
  vars : ∀ name, name ≠ v → Part.var name ∈ t.parts →
    ∃ text, c.name? name = some (.single text) ∧ Input.Solid text
  /-- A glob may be open. -/
  globs : ∀ name, Part.glob name ∈ t.parts → c.name? name = none ∨
    ∃ texts, c.name? name = some (.list texts) ∧ ∀ text ∈ texts, Input.Solid text
  /-- An extension may be empty. -/
  formats : ∀ name, Part.format name ∈ t.parts →
    ∃ text, c.name? name = some (.single text) ∧ Token.Plain text
  /-- Whatever else there is can stand in a query. -/
  others : ∀ e ∈ c.entries, t.declares e.1 = false → Query.Writable e

/-- A solid text under the variable is all that is missing. -/
theorem FillableBeside.fillable {t : Template} {v : String} {c : Captures}
    (h : t.FillableBeside v c) {text : String} (hvalue : c.name? v = some (.single text))
    (hsolid : Input.Solid text) : t.Fillable c where
  vars name hname := by
    by_cases hv : name = v
    · exact ⟨text, hv ▸ hvalue, hsolid⟩
    · exact h.vars name hv hname
  globs := h.globs
  formats := h.formats
  others := h.others

/-- An integer that is written for a variable is **read back from the path exactly by the ranges
that have it**. Any other range reports the side on which the integer is out, and one without
negative numbers trips over the minus sign. -/
theorem int?_capture?_render {t : Template} (h : t.Reachable) (hnames : t.names.Nodup)
    (hlive : t.Live) {v : String} (hv : Part.var v ∈ t.parts) {n : Int} {params : Captures}
    (hparams : params.Reachable) (hvalue : params.name? v = some (.ofInt n))
    (hfill : t.FillableBeside v params) :
    ∃ c, t.capture? (t.render params) = some c ∧ ∀ r : IntRange,
      (c.int? r v).map (Except.mapError NumeralFault.message) = some
        (if r.least ≤ n ∧ n ≤ r.greatest then .ok n
        else if r.greatest < n then .error "number too large to fit in target type"
        else if r.signed then .error "number too small to fit in target type"
        else .error "invalid digit found in string") := by
  have hsolid := Input.solid_toString n
  obtain ⟨c, hc, hget⟩ := h.regular.exists_capture?_render hnames hlive hparams.nodup
    (hfill.fillable hvalue hsolid)
  -- the captured text is the one that was written, whatever else the template captures
  have hname : v ∈ t.names := List.mem_filterMap.2 ⟨_, hv, rfl⟩
  have htext : c.text? v = some (toString n) := by
    rw [Captures.text?, Captures.name?, hget, ← Captures.name?,
      name?_returned_of_some hname hvalue]
    rfl
  refine ⟨c, hc, fun r => ?_⟩
  rw [Captures.int?, htext, Option.map_some, Option.map_some, Numeral.readInt_toString,
    Numeral.reading]
  refine congrArg some ?_
  split_ifs <;> rfl

/-- The least integer and the greatest one of 64 bits, each read by ranges on both sides of it. -/
theorem int?_capture?_render_limits :
    ∃ (t : Template) (low high : Captures), ofPattern "/u/:id/*rest.fmt" = .ok t ∧
      t.capture? "/u/-9223372036854775808/a/b." = some low ∧
      t.capture? "/u/18446744073709551615/a/b." = some high ∧
      (low.int? ⟨true, 64⟩ "id").map (Except.mapError NumeralFault.message) =
        some (.ok (-9223372036854775808)) ∧
      (low.int? ⟨true, 32⟩ "id").map (Except.mapError NumeralFault.message) =
        some (.error "number too small to fit in target type") ∧
      (low.int? ⟨false, 64⟩ "id").map (Except.mapError NumeralFault.message) =
        some (.error "invalid digit found in string") ∧
      (high.int? ⟨false, 64⟩ "id").map (Except.mapError NumeralFault.message) =
        some (.ok 18446744073709551615) ∧
      (high.int? ⟨true, 64⟩ "id").map (Except.mapError NumeralFault.message) =
        some (.error "number too large to fit in target type") := by
  let t : Template := ⟨true, [.literal "u", .var "id", .glob "rest", .format "fmt"]⟩
  let params (n : Int) : Captures := ⟨[(.name "rest", .list ["a", "b"]), (.name "id", .ofInt n),
    (.name "fmt", .single "")]⟩
  have h : ofPattern "/u/:id/*rest.fmt" = .ok t := rfl
  have hfill : ∀ n, t.FillableBeside "id" (params n) := by
    intro n
    refine ⟨fun name hne hn => ?_, fun name hn => ?_, fun name hn => ?_, fun e he hk => ?_⟩
    · exact absurd (by simpa [t] using hn) hne
    · obtain rfl : name = "rest" := by simpa [t] using hn
      exact .inr ⟨["a", "b"], rfl, by decide⟩
    · obtain rfl : name = "fmt" := by simpa [t] using hn
      exact ⟨"", rfl, by decide⟩
    · have hdeclared : ∀ k ∈ [Key.name "rest", .name "id", .name "fmt"],
          t.declares k = true := by decide
      exact absurd ((hdeclared e.1 (List.mem_map_of_mem he)).symm.trans hk) (by decide)
  obtain ⟨low, hlow, hlows⟩ := int?_capture?_render (n := -9223372036854775808) (.ofPattern h)
    (by decide) (by decide) (v := "id") (by decide) (Captures.reachable_iff.2 (by decide)) rfl
    (hfill _)
  obtain ⟨high, hhigh, hhighs⟩ := int?_capture?_render (n := 18446744073709551615) (.ofPattern h)
    (by decide) (by decide) (v := "id") (by decide) (Captures.reachable_iff.2 (by decide)) rfl
    (hfill _)
  have hlowText : t.render (params (-9223372036854775808)) = "/u/-9223372036854775808/a/b." := by
    decide +kernel
  have hhighText : t.render (params 18446744073709551615) = "/u/18446744073709551615/a/b." := by
    decide +kernel
  exact ⟨t, low, high, h, hlowText ▸ hlow, hhighText ▸ hhigh, hlows _, hlows _, hlows _, hhighs _,
    hhighs _⟩

end Template

end RoutePattern
