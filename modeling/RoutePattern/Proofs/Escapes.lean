/-
What decoding takes out of a text, and what it leaves.

The scan goes over the bytes of a text from the left. It gives one byte for an
escape and goes on behind it, and where a percent sign starts none it goes on at
the next byte, or at the one after that: in both cases nothing is lost, since no
hexadecimal digit is a percent sign. For the same reason two escapes have no
byte in common, so what the scan gives can be told place by place, whatever way
it went (`replaced`). A plus sign is no part of an escape, so it may be made a
space beforehand; one that an escape gives stays.

An escape is written with the two digits of its byte, in either case, and a
character with the escapes of all its bytes, as itself or, if it is a space, as a
plus sign. Whatever is chosen for each character of a text, decoding gives that
text (`unescape_of_encodes`). And a text without escapes and plus signs is left
alone. Such a text is looked at by characters and not by bytes, which comes to
the same, since ASCII bytes are written for ASCII characters only.
-/
import Mathlib.Data.List.Infix
import RoutePattern.Query

set_option autoImplicit false

namespace RoutePattern

/-! ## ASCII in the bytes of a text -/

namespace Text.Utf8

/-- Outside of ASCII no byte of a character is one of ASCII. -/
theorem toNat_le_of_mem_encodeChar {c : Char} {b : UInt8}
    (h : b ∈ String.utf8EncodeChar c) : b.toNat = c.toNat ∨ 0x80 ≤ b.toNat := by
  have hval : c.val.toNat = c.toNat := rfl
  rw [String.utf8EncodeChar] at h
  simp only [hval] at h
  generalize c.toNat = v at *
  split at h
  · next h1 =>
    left
    rw [List.mem_singleton.1 h, UInt8.toNat_ofNat']
    omega
  · right
    split at h
    · simp only [List.mem_cons, List.not_mem_nil, or_false] at h
      rcases h with rfl | rfl <;> rw [UInt8.toNat_ofNat'] <;> omega
    · split at h
      · simp only [List.mem_cons, List.not_mem_nil, or_false] at h
        rcases h with rfl | rfl | rfl <;> rw [UInt8.toNat_ofNat'] <;> omega
      · simp only [List.mem_cons, List.not_mem_nil, or_false] at h
        rcases h with rfl | rfl | rfl | rfl <;> rw [UInt8.toNat_ofNat'] <;> omega

/-- The character of an ASCII byte. -/
def charOf (b : UInt8) : Char := Char.ofNat b.toNat

/-- An ASCII byte is written for its own character only. -/
theorem eq_charOf_of_mem_encodeChar {c : Char} {b : UInt8} (h : b ∈ String.utf8EncodeChar c)
    (hb : b.toNat < 0x80) : c = charOf b := by
  rcases toNat_le_of_mem_encodeChar h with he | hle
  · rw [charOf, he, Char.ofNat_toNat]
  · omega

/-- The character of an ASCII byte is written as that byte alone. -/
theorem encodeChar_charOf {b : UInt8} (h : b.toNat < 0x80) :
    String.utf8EncodeChar (charOf b) = [b] := by
  have hall : ∀ n < 0x80, String.utf8EncodeChar (charOf (UInt8.ofNat n)) = [UInt8.ofNat n] := by
    decide
  simpa using hall b.toNat h

theorem encode_cons (c : Char) (s : List Char) :
    encode (c :: s) = String.utf8EncodeChar c ++ encode s := rfl

theorem encode_append (s t : List Char) : encode (s ++ t) = encode s ++ encode t :=
  List.flatMap_append

/-- ASCII bytes in front come from the characters in front. -/
theorem map_charOf_isPrefix {bytes : List UInt8} (hascii : ∀ b ∈ bytes, b.toNat < 0x80)
    {s : List Char} (h : bytes <+: encode s) : bytes.map charOf <+: s := by
  induction bytes generalizing s with
  | nil => exact List.nil_prefix
  | cons b bytes ih =>
      obtain ⟨hb, hrest⟩ := List.forall_mem_cons.1 hascii
      cases s with
      | nil => exact absurd (List.prefix_nil.1 h) (List.cons_ne_nil b bytes)
      | cons c s =>
          rw [encode_cons] at h
          have hmem : b ∈ String.utf8EncodeChar c := by
            cases hc : String.utf8EncodeChar c with
            | nil => exact absurd hc (by simp)
            | cons first others =>
                rw [hc, List.cons_append, List.cons_prefix_cons] at h
                exact h.1 ▸ List.mem_cons_self
          obtain rfl := eq_charOf_of_mem_encodeChar hmem hb
          rw [encodeChar_charOf hb, List.singleton_append, List.cons_prefix_cons] at h
          exact List.cons_prefix_cons.2 ⟨rfl, ih hrest h.2⟩

end Text.Utf8

namespace Query

open Text.Utf8 (charOf)

/-! ## Digits -/

/-- A hexadecimal digit in either case. -/
def hexDigits (n : Nat) : List Char := [n.digitChar, n.digitChar.toUpper]

/-- The digits as bytes. -/
def hexBytes (n : Nat) : List UInt8 := (hexDigits n).map Char.toUInt8

theorem hexValue?_of_mem {n : Nat} (hn : n < 16) {b : UInt8} (h : b ∈ hexBytes n) :
    hexValue? b = some (UInt8.ofNat n) := by
  have hall : ∀ n < 16, (hexBytes n).map hexValue? =
      (hexBytes n).map fun _ => some (UInt8.ofNat n) := by
    decide
  exact List.map_inj_left.1 (hall n hn) b h

theorem mem_hexBytes_of_hexValue? {b v : UInt8} (h : hexValue? b = some v) :
    v.toNat < 16 ∧ b ∈ hexBytes v.toNat := by
  have hall : ∀ n < 256, ∀ v ∈ hexValue? (UInt8.ofNat n),
      v.toNat < 16 ∧ UInt8.ofNat n ∈ hexBytes v.toNat := by
    decide +kernel
  have hb := hall b.toNat b.toNat_lt
  rw [UInt8.ofNat_toNat] at hb
  exact hb v h

/-- A byte is written by two digits only. -/
theorem exists_of_hexByte?_eq_some {high low byte : UInt8} (h : hexByte? high low = some byte) :
    ∃ m n, hexValue? high = some m ∧ hexValue? low = some n ∧ 16 * m + n = byte := by
  rw [hexByte?] at h
  split at h
  · next m n hm hn => exact ⟨m, n, hm, hn, Option.some.inj h⟩
  · exact absurd h (by simp)

/-- The values of two digits do not leave a byte. -/
theorem toNat_of_digits {m n : UInt8} (hm : m.toNat < 16) (hn : n.toNat < 16) :
    (16 * m + n).toNat = 16 * m.toNat + n.toNat := by
  rw [UInt8.toNat_add, UInt8.toNat_mul]
  change (16 * m.toNat % 256 + n.toNat) % 256 = _
  omega

/-- Two digits write the byte that has **one for its upper and one for its lower half**. -/
theorem hexByte?_eq_some_iff {high low byte : UInt8} : hexByte? high low = some byte ↔
    high ∈ hexBytes (byte.toNat / 16) ∧ low ∈ hexBytes (byte.toNat % 16) := by
  constructor
  · intro h
    obtain ⟨m, n, hm, hn, rfl⟩ := exists_of_hexByte?_eq_some h
    obtain ⟨hm16, hhigh⟩ := mem_hexBytes_of_hexValue? hm
    obtain ⟨hn16, hlow⟩ := mem_hexBytes_of_hexValue? hn
    have hval := toNat_of_digits hm16 hn16
    rw [show (16 * m + n).toNat / 16 = m.toNat by omega,
      show (16 * m + n).toNat % 16 = n.toNat by omega]
    exact ⟨hhigh, hlow⟩
  · rintro ⟨hhigh, hlow⟩
    have hm : byte.toNat / 16 < 16 := Nat.div_lt_of_lt_mul byte.toNat_lt
    have hn : byte.toNat % 16 < 16 := Nat.mod_lt _ (by decide)
    rw [hexByte?, hexValue?_of_mem hm hhigh, hexValue?_of_mem hn hlow]
    have hm' : (UInt8.ofNat (byte.toNat / 16)).toNat = byte.toNat / 16 :=
      UInt8.toNat_ofNat_of_lt' (Nat.lt_trans hm (by decide))
    have hn' : (UInt8.ofNat (byte.toNat % 16)).toNat = byte.toNat % 16 :=
      UInt8.toNat_ofNat_of_lt' (Nat.lt_trans hn (by decide))
    have hval := toNat_of_digits (hm' ▸ hm) (hn' ▸ hn)
    rw [hm', hn', Nat.div_add_mod] at hval
    exact congrArg some (UInt8.toNat_inj.1 hval)

/-! ## Steps of the scan -/

/-- A byte that is no percent sign is copied. -/
theorem unescape_cons_of_ne {b : UInt8} (h : b ≠ percent) (rest : List UInt8) :
    unescape (b :: rest) = b :: unescape rest := by
  match rest with
  | [] => rfl
  | [_] => rfl
  | _ :: _ :: _ => rw [unescape, if_neg h]

theorem unescape_append {bytes : List UInt8} (h : percent ∉ bytes) (rest : List UInt8) :
    unescape (bytes ++ rest) = bytes ++ unescape rest := by
  induction bytes with
  | nil => rfl
  | cons b bytes ih =>
      obtain ⟨hb, hbytes⟩ := not_or.1 (mt List.mem_cons.2 h)
      rw [List.cons_append, unescape_cons_of_ne (Ne.symm hb), ih hbytes]
      rfl

/-- An escape gives its byte. -/
theorem unescape_escape {high low byte : UInt8} (h : hexByte? high low = some byte)
    (rest : List UInt8) : unescape (percent :: high :: low :: rest) = byte :: unescape rest := by
  rw [unescape, if_pos rfl, h]

/-- A percent sign that starts no escape is copied. -/
theorem unescape_percent {bytes : List UInt8}
    (h : ∀ high low, [high, low] <+: bytes → hexByte? high low = none) :
    unescape (percent :: bytes) = percent :: unescape bytes := by
  match bytes with
  | [] => rfl
  | [_] => rfl
  | high :: low :: rest => rw [unescape, if_pos rfl, h high low ⟨rest, rfl⟩]

/-- What a scan for escapes does at each place. At a percent sign with too little behind it, the rest
is copied. If the first of the two bytes behind it is no digit, the scan goes on at that byte, and if
the second is none, it goes on at the second. -/
structure ReadsEscapes (f : List UInt8 → List UInt8) : Prop where
  nil : f [] = []
  other : ∀ {b}, b ≠ percent → ∀ rest, f (b :: rest) = b :: f rest
  short : ∀ {rest}, rest.length < 2 → f (percent :: rest) = percent :: rest
  escape : ∀ {high low h l}, hexValue? high = some h → hexValue? low = some l →
    ∀ rest, f (percent :: high :: low :: rest) = (16 * h + l) :: f rest
  first_only : ∀ {high low}, hexValue? high ≠ none → hexValue? low = none →
    ∀ rest, f (percent :: high :: low :: rest) = percent :: high :: f (low :: rest)
  neither : ∀ {high low}, hexValue? high = none →
    ∀ rest, f (percent :: high :: low :: rest) = percent :: f (high :: low :: rest)

/-- No digit is a percent sign. -/
theorem ne_percent_of_hexValue? {b : UInt8} (h : hexValue? b ≠ none) : b ≠ percent := by
  rintro rfl
  exact h rfl

theorem ne_percent_of_hexByte? {high low byte : UInt8} (h : hexByte? high low = some byte) :
    high ≠ percent ∧ low ≠ percent := by
  obtain ⟨m, n, hm, hn, -⟩ := exists_of_hexByte?_eq_some h
  exact ⟨ne_percent_of_hexValue? (by simp [hm]), ne_percent_of_hexValue? (by simp [hn])⟩

theorem hexByte?_eq_none {high low : UInt8} (h : hexValue? high = none ∨ hexValue? low = none) :
    hexByte? high low = none := by
  rcases h with h | h <;> simp [hexByte?, h]

theorem readsEscapes_unescape : ReadsEscapes unescape where
  nil := rfl
  other := unescape_cons_of_ne
  short := by
    intro rest hlen
    match rest, hlen with
    | [], _ => rfl
    | [_], _ => rfl
  escape := by
    intro high low h l hhigh hlow rest
    exact unescape_escape (by rw [hexByte?, hhigh, hlow]) rest
  first_only := by
    intro high low hhigh hlow rest
    rw [unescape, if_pos rfl, hexByte?_eq_none (.inr hlow),
      unescape_cons_of_ne (ne_percent_of_hexValue? hhigh)]
  neither := by
    intro high low hhigh rest
    rw [unescape, if_pos rfl, hexByte?_eq_none (.inl hhigh)]

/-- Bytes that are not cut into a first three and others are fewer than three. -/
theorem length_lt_of_short {bytes : List UInt8}
    (h : ∀ b high low rest, bytes = b :: high :: low :: rest → False) : bytes.length < 3 := by
  match bytes, h with
  | [], _ | [_], _ | [_, _], _ => simp
  | b :: high :: low :: rest, h => exact (h b high low rest rfl).elim

namespace ReadsEscapes

variable {f : List UInt8 → List UInt8} (hf : ReadsEscapes f)

include hf

/-- Wherever it goes on, the scan copies a percent sign that starts no escape. -/
theorem kept {high low : UInt8} (h : hexByte? high low = none) (rest : List UInt8) :
    f (percent :: high :: low :: rest) = percent :: f (high :: low :: rest) := by
  cases hhigh : hexValue? high with
  | none => exact hf.neither hhigh rest
  | some m =>
      have hdigit : hexValue? high ≠ none := by simp [hhigh]
      cases hlow : hexValue? low with
      | none =>
          rw [hf.first_only hdigit hlow, hf.other (ne_percent_of_hexValue? hdigit)]
      | some n => simp [hexByte?, hhigh, hlow] at h

/-- Where no escape has room, all is copied. -/
theorem of_length_lt {bytes : List UInt8} (h : bytes.length < 3) : f bytes = bytes := by
  induction bytes with
  | nil => exact hf.nil
  | cons b rest ih =>
      have hrest : rest.length < 2 := Nat.lt_of_succ_lt_succ h
      by_cases hb : b = percent
      · rw [hb, hf.short hrest]
      · rw [hf.other hb, ih (by omega)]

/-- There is **one scan only**. -/
theorem eq_unescape (bytes : List UInt8) : f bytes = unescape bytes := by
  fun_induction unescape bytes with
  | case1 high low rest byte hbyte ih =>
      obtain ⟨m, n, hm, hn, rfl⟩ := exists_of_hexByte?_eq_some hbyte
      rw [hf.escape hm hn, ih]
  | case2 high low rest hbyte ih => rw [hf.kept hbyte, ih]
  | case3 b high low rest hb ih => rw [hf.other hb, ih]
  | case4 bytes hshort => exact hf.of_length_lt (length_lt_of_short hshort)

end ReadsEscapes

/-! ## Place by place -/

/-- A byte outside of escapes: a plus sign is a space. -/
def plain (b : UInt8) : UInt8 := if b = 0x2B then 0x20 else b

/-- The byte of the escape that starts at a place. -/
def escapeAt? (bytes : List UInt8) (i : Nat) : Option UInt8 :=
  match bytes.drop i with
  | b :: high :: low :: _ => if b = percent then hexByte? high low else none
  | _ => none

/-- A place inside an escape, behind its percent sign. -/
def Covered (bytes : List UInt8) (i : Nat) : Prop :=
  ∃ j < i, i ≤ j + 2 ∧ (escapeAt? bytes j).isSome

instance (bytes : List UInt8) (i : Nat) : Decidable (Covered bytes i) :=
  inferInstanceAs (Decidable (∃ j < i, i ≤ j + 2 ∧ (escapeAt? bytes j).isSome))

/-- What is given for a place: the byte of the escape that starts there, nothing inside of one, and
else the byte that stands there. -/
def givenAt (bytes : List UInt8) (i : Nat) : List UInt8 :=
  match escapeAt? bytes i with
  | some byte => [byte]
  | none => if Covered bytes i then [] else (bytes[i]?.map plain).toList

/-- What is given for all places. -/
def replaced (bytes : List UInt8) : List UInt8 := (List.range bytes.length).flatMap (givenAt bytes)

theorem escapeAt?_cons_succ (b : UInt8) (bytes : List UInt8) (i : Nat) :
    escapeAt? (b :: bytes) (i + 1) = escapeAt? bytes i := rfl

/-- Only a percent sign starts an escape, and so none starts inside of another. -/
theorem escapeAt?_eq_none_of_ne {b : UInt8} (h : b ≠ percent) (bytes : List UInt8) :
    escapeAt? (b :: bytes) 0 = none := by
  rw [escapeAt?, List.drop_zero]
  split
  · next heq => rw [if_neg ((List.cons.inj heq).1 ▸ h)]
  · rfl

theorem escapeAt?_eq_none_of_length {bytes : List UInt8} (h : bytes.length < 3) :
    escapeAt? bytes 0 = none := by
  match bytes with
  | [] | [_] | [_, _] => rfl

/-- A byte in front covers no more than two places. -/
theorem covered_cons_succ {b : UInt8} {bytes : List UInt8} {i : Nat}
    (h : i < 2 → escapeAt? (b :: bytes) 0 = none) :
    Covered (b :: bytes) (i + 1) ↔ Covered bytes i := by
  constructor
  · rintro ⟨j, hj, hij, hsome⟩
    cases j with
    | zero => simp [h (by omega)] at hsome
    | succ j => exact ⟨j, by omega, by omega, hsome⟩
  · rintro ⟨j, hj, hij, hsome⟩
    exact ⟨j + 1, by omega, by omega, hsome⟩

theorem givenAt_cons_succ {b : UInt8} {bytes : List UInt8} {i : Nat}
    (h : i < 2 → escapeAt? (b :: bytes) 0 = none) :
    givenAt (b :: bytes) (i + 1) = givenAt bytes i := by
  simp only [givenAt, escapeAt?_cons_succ, covered_cons_succ h, List.getElem?_cons_succ]

/-- Where no escape starts, the byte is given. -/
theorem replaced_cons {b : UInt8} {bytes : List UInt8} (h : escapeAt? (b :: bytes) 0 = none) :
    replaced (b :: bytes) = plain b :: replaced bytes := by
  have hfirst : givenAt (b :: bytes) 0 = [plain b] := by
    have hnot : ¬ Covered (b :: bytes) 0 := fun ⟨j, hj, _⟩ => by omega
    rw [givenAt, h]
    exact if_neg hnot
  rw [replaced, List.length_cons, List.range_succ_eq_map, List.flatMap_cons, List.flatMap_map, hfirst]
  exact congrArg _ (List.flatMap_congr fun i _ => givenAt_cons_succ fun _ => h)

theorem replaced_of_length_lt {bytes : List UInt8} (h : bytes.length < 3) :
    replaced bytes = bytes.map plain := by
  induction bytes with
  | nil => rfl
  | cons b bytes ih =>
      rw [replaced_cons (escapeAt?_eq_none_of_length h), ih (Nat.lt_of_succ_lt h), List.map_cons]

/-- Where an escape starts, its byte is given **and nothing else up to its end**. -/
theorem replaced_escape {high low byte : UInt8} (h : hexByte? high low = some byte)
    (rest : List UInt8) : replaced (percent :: high :: low :: rest) = byte :: replaced rest := by
  have hescape : escapeAt? (percent :: high :: low :: rest) 0 = some byte := by
    rw [escapeAt?, List.drop_zero]
    exact (if_pos rfl).trans h
  obtain ⟨hne_high, hne_low⟩ := ne_percent_of_hexByte? h
  have hhigh : escapeAt? (high :: low :: rest) 0 = none := escapeAt?_eq_none_of_ne hne_high _
  have hlow : escapeAt? (low :: rest) 0 = none := escapeAt?_eq_none_of_ne hne_low _
  have hsome : (escapeAt? (percent :: high :: low :: rest) 0).isSome := by rw [hescape]; rfl
  have h0 : givenAt (percent :: high :: low :: rest) 0 = [byte] := by rw [givenAt, hescape]
  have h1 : givenAt (percent :: high :: low :: rest) 1 = [] := by
    rw [givenAt, escapeAt?_cons_succ, hhigh]
    exact if_pos ⟨0, by decide, by decide, hsome⟩
  have h2 : givenAt (percent :: high :: low :: rest) 2 = [] := by
    rw [givenAt, escapeAt?_cons_succ, escapeAt?_cons_succ, hlow]
    exact if_pos ⟨0, by decide, by decide, hsome⟩
  have hrest : ∀ i, givenAt (percent :: high :: low :: rest) (i + 3) = givenAt rest i := fun i =>
    calc givenAt (percent :: high :: low :: rest) (i + 3)
        = givenAt (high :: low :: rest) (i + 2) := givenAt_cons_succ fun hi => by omega
      _ = givenAt (low :: rest) (i + 1) := givenAt_cons_succ fun _ => hhigh
      _ = givenAt rest i := givenAt_cons_succ fun _ => hlow
  rw [replaced]
  simp only [List.length_cons, List.range_succ_eq_map, List.map_cons, List.map_map,
    List.flatMap_cons, List.flatMap_map]
  rw [h0, h1, h2]
  exact congrArg _ (List.flatMap_congr fun i _ => hrest i)

theorem hexValue?_plain (b : UInt8) : hexValue? (plain b) = hexValue? b := by
  rw [plain]
  split
  · next h => rw [h]; decide
  · rfl

/-- A plus sign is no digit, and neither is a space. -/
theorem hexByte?_plain (high low : UInt8) :
    hexByte? (plain high) (plain low) = hexByte? high low := by
  rw [hexByte?, hexByte?, hexValue?_plain, hexValue?_plain]

theorem plain_eq_percent_iff {b : UInt8} : plain b = percent ↔ b = percent := by
  rw [plain]
  split
  · next h => rw [h]; decide
  · exact Iff.rfl

/-- With plus signs made spaces, the scan gives **for each place what belongs to it**. -/
theorem unescape_map_plain (bytes : List UInt8) : unescape (bytes.map plain) = replaced bytes := by
  have hpercent : plain percent = percent := plain_eq_percent_iff.2 rfl
  induction bytes using unescape.induct with
  | case1 high low rest byte hbyte ih =>
      rw [List.map_cons, List.map_cons, List.map_cons, hpercent,
        unescape_escape ((hexByte?_plain high low).trans hbyte), ih, replaced_escape hbyte]
  | case2 high low rest hbyte ih =>
      have hnone : escapeAt? (percent :: high :: low :: rest) 0 = none := by
        rw [escapeAt?, List.drop_zero]
        exact (if_pos rfl).trans hbyte
      rw [replaced_cons hnone, ← ih, List.map_cons, List.map_cons, List.map_cons, hpercent, unescape,
        if_pos rfl, hexByte?_plain, hbyte]
  | case3 b high low rest hb ih =>
      rw [replaced_cons (escapeAt?_eq_none_of_ne hb _), ← ih, List.map_cons,
        unescape_cons_of_ne (mt plain_eq_percent_iff.1 hb)]
  | case4 bytes hshort =>
      have hlen := length_lt_of_short hshort
      rw [replaced_of_length_lt hlen, readsEscapes_unescape.of_length_lt (by simpa using hlen)]

/-- To make plus signs spaces is the same for characters and for bytes. -/
theorem encode_map_plusToSpace (s : List Char) :
    Text.Utf8.encode (s.map plusToSpace) = (Text.Utf8.encode s).map plain := by
  have hchar : ∀ c, String.utf8EncodeChar (plusToSpace c) = (String.utf8EncodeChar c).map plain := by
    intro c
    by_cases hc : c = '+'
    · subst hc
      decide
    · have hplain : ∀ b ∈ String.utf8EncodeChar c, plain b = b := by
        rintro b hb
        refine if_neg ?_
        rintro rfl
        exact hc (Text.Utf8.eq_charOf_of_mem_encodeChar hb (by decide))
      rw [plusToSpace, if_neg hc, List.map_congr_left (g := id) hplain, List.map_id]
  rw [Text.Utf8.encode, Text.Utf8.encode, List.flatMap_map, List.map_flatMap]
  exact List.flatMap_congr fun c _ => hchar c

theorem decode_eq_replaced (s : String) :
    decode s = String.ofList (Text.Utf8.decode (replaced (Text.Utf8.encode s.toList))) := by
  rw [decode, encode_map_plusToSpace, unescape_map_plain]

/-! ## Encodings are undone -/

/-- Bytes written as escapes, one for each, with digits in any case. -/
inductive Escaped : List UInt8 → List Char → Prop
  | nil : Escaped [] []
  | cons {b : UInt8} {bytes : List UInt8} {high low : Char} {w : List Char}
      (upper : high ∈ hexDigits (b.toNat / 16)) (lower : low ∈ hexDigits (b.toNat % 16))
      (rest : Escaped bytes w) : Escaped (b :: bytes) ('%' :: high :: low :: w)

/-- A text written character by character: as it is, if it is no `%` and no `+`, as a `+` if it is a
space, or as the escapes of all its bytes. -/
inductive Encodes : List Char → List Char → Prop
  | nil : Encodes [] []
  | self {c : Char} {x w : List Char} (percent : c ≠ '%') (plus : c ≠ '+') (rest : Encodes x w) :
      Encodes (c :: x) (c :: w)
  | space {x w : List Char} (rest : Encodes x w) : Encodes (' ' :: x) ('+' :: w)
  | escaped {c : Char} {x v w : List Char} (escapes : Escaped (String.utf8EncodeChar c) v)
      (rest : Encodes x w) : Encodes (c :: x) (v ++ w)

/-- A digit is one byte, and no plus sign. -/
theorem encode_hexDigit {n : Nat} (hn : n < 16) {c : Char} (h : c ∈ hexDigits n) :
    String.utf8EncodeChar (plusToSpace c) = [c.toUInt8] ∧ c.toUInt8 ∈ hexBytes n := by
  have hall : ∀ n < 16, (hexDigits n).map (fun c => String.utf8EncodeChar (plusToSpace c)) =
      (hexDigits n).map fun c => [c.toUInt8] := by
    decide
  exact ⟨List.map_inj_left.1 (hall n hn) c h, List.mem_map_of_mem h⟩

/-- Escapes give their bytes, **whatever follows**. -/
theorem unescape_of_escaped {bytes : List UInt8} {w : List Char} (h : Escaped bytes w)
    (rest : List UInt8) :
    unescape (Text.Utf8.encode (w.map plusToSpace) ++ rest) = bytes ++ unescape rest := by
  induction h with
  | nil => rfl
  | @cons b bytes high low w upper lower _ ih =>
      obtain ⟨hhigh, hhighmem⟩ := encode_hexDigit (Nat.div_lt_of_lt_mul b.toNat_lt) upper
      obtain ⟨hlow, hlowmem⟩ := encode_hexDigit (Nat.mod_lt _ (by decide)) lower
      have hcons : Text.Utf8.encode (('%' :: high :: low :: w).map plusToSpace) =
          percent :: high.toUInt8 :: low.toUInt8 :: Text.Utf8.encode (w.map plusToSpace) := by
        simp only [List.map_cons, Text.Utf8.encode_cons, hhigh, hlow]
        rfl
      rw [hcons, List.cons_append, List.cons_append, List.cons_append,
        unescape_escape (hexByte?_eq_some_iff.2 ⟨hhighmem, hlowmem⟩), ih]
      rfl

/-- The bytes of a character that is no percent sign are copied. -/
theorem unescape_encodeChar {c : Char} (h : c ≠ '%') (rest : List UInt8) :
    unescape (String.utf8EncodeChar c ++ rest) = String.utf8EncodeChar c ++ unescape rest :=
  unescape_append
    (fun hm => h (Text.Utf8.eq_charOf_of_mem_encodeChar hm (by decide))) rest

/-- Whatever was chosen for each character, **the scan gives the bytes of the text**. -/
theorem unescape_of_encodes {x w : List Char} (h : Encodes x w) :
    unescape (Text.Utf8.encode (w.map plusToSpace)) = Text.Utf8.encode x := by
  induction h with
  | nil => rfl
  | @self c x w percent plus _ ih =>
      rw [List.map_cons, plusToSpace, if_neg plus, Text.Utf8.encode_cons, unescape_encodeChar percent,
        ih, Text.Utf8.encode_cons]
  | @space x w _ ih =>
      rw [List.map_cons, plusToSpace, if_pos rfl, Text.Utf8.encode_cons,
        unescape_encodeChar (by decide), ih, Text.Utf8.encode_cons]
  | @escaped c x v w escapes _ ih =>
      rw [List.map_append, Text.Utf8.encode_append, unescape_of_escaped escapes, ih,
        Text.Utf8.encode_cons]

theorem decode_of_encodes {x s : String} (h : Encodes x.toList s.toList) : decode s = x := by
  rw [decode, unescape_of_encodes h, Text.Utf8.decode_encode, String.ofList_toList]

/-! ## Texts that are left alone -/

/-- All hexadecimal digits in either case. -/
def digits : List Char := (List.range 16).flatMap hexDigits

/-- Nothing in a text is an escape. -/
def NoEscape (s : List Char) : Prop :=
  ∀ high ∈ digits, ∀ low ∈ digits, ¬ ['%', high, low] <:+: s

/-- A second digit is tried only where the first is found. -/
instance (s : List Char) : Decidable (NoEscape s) :=
  decidable_of_iff (digits.all fun high => ['%', high] <:+: s →
      digits.all fun low => ¬ ['%', high, low] <:+: s) <| by
    simp only [List.all_eq_true, decide_eq_true_eq]
    exact ⟨fun h high hhigh low hlow hin =>
      have hfirst : ['%', high] <:+: s :=
        List.IsInfix.trans (List.prefix_append ['%', high] [low]).isInfix hin
      h high hhigh hfirst low hlow hin,
    fun h high hhigh _ low hlow => h high hhigh low hlow⟩

/-- The byte of a digit is an ASCII one, and its character the digit. -/
theorem charOf_of_mem_hexBytes {n : Nat} (hn : n < 16) {b : UInt8} (h : b ∈ hexBytes n) :
    b.toNat < 0x80 ∧ charOf b ∈ digits := by
  have hascii : ∀ n < 16, (hexBytes n).all (·.toNat < 0x80) := by decide
  have hchars : ∀ n < 16, (hexBytes n).map charOf = hexDigits n := by decide
  refine ⟨of_decide_eq_true (List.all_eq_true.1 (hascii n hn) b h), ?_⟩
  refine List.mem_flatMap.2 ⟨n, List.mem_range.2 hn, ?_⟩
  rw [← hchars n hn]
  exact List.mem_map_of_mem h

theorem unescape_encode_of_noEscape {s : List Char} (h : NoEscape s) :
    unescape (Text.Utf8.encode s) = Text.Utf8.encode s := by
  induction s with
  | nil => rfl
  | cons c s ih =>
      have hs : NoEscape s := fun high hhigh low hlow hin =>
        h high hhigh low hlow (hin.trans (List.suffix_cons c s).isInfix)
      by_cases hc : c = '%'
      · subst hc
        have hnone : ∀ high low, [high, low] <+: Text.Utf8.encode s → hexByte? high low = none := by
          intro high low hprefix
          refine Option.eq_none_iff_forall_not_mem.2 fun byte hbyte => ?_
          obtain ⟨hhigh, hlow⟩ := hexByte?_eq_some_iff.1 hbyte
          have hm : byte.toNat / 16 < 16 := Nat.div_lt_of_lt_mul byte.toNat_lt
          have hn : byte.toNat % 16 < 16 := Nat.mod_lt _ (by decide)
          obtain ⟨hhighlt, hhighdigit⟩ := charOf_of_mem_hexBytes hm hhigh
          obtain ⟨hlowlt, hlowdigit⟩ := charOf_of_mem_hexBytes hn hlow
          -- two bytes that are digits are two characters
          have hchars := Text.Utf8.map_charOf_isPrefix (by simp [hhighlt, hlowlt]) hprefix
          exact h _ hhighdigit _ hlowdigit (List.cons_prefix_cons.2 ⟨rfl, hchars⟩).isInfix
        rw [show Text.Utf8.encode ('%' :: s) = percent :: Text.Utf8.encode s from rfl,
          unescape_percent hnone, ih hs]
      · rw [Text.Utf8.encode_cons, unescape_encodeChar hc, ih hs]

/-- A text with nothing to decode **stays as it is**. -/
theorem decode_eq_self {s : String} (hplus : '+' ∉ s.toList) (hescape : NoEscape s.toList) :
    decode s = s := by
  have hmap : s.toList.map plusToSpace = s.toList := by
    rw [List.map_congr_left (g := id), List.map_id]
    rintro c hc
    exact if_neg fun e : c = '+' => hplus (e ▸ hc)
  rw [decode, hmap, unescape_encode_of_noEscape hescape, Text.Utf8.decode_encode,
    String.ofList_toList]

/-! ## Decoding -/

/-- Decoding gives, for any scan that goes on as described, what belongs to each place of the text: the
byte of an escape, once and for the whole of it, a space for a plus sign, and every other byte as it
is, so that an escape which is not complete stays. The bytes are then read as text. So it undoes all
the ways in which a text can be written with escapes, and leaves a text alone that has no escape and
no plus sign. -/
theorem decode_replaces_escapes {f : List UInt8 → List UInt8} (hf : ReadsEscapes f) (s : String) :
    decode s = String.ofList
      (Text.Utf8.decode (f (Text.Utf8.encode (s.toList.map plusToSpace)))) ∧
    decode s = String.ofList (Text.Utf8.decode (replaced (Text.Utf8.encode s.toList))) ∧
    (∀ high low byte, hexByte? high low = some byte ↔
      high ∈ hexBytes (byte.toNat / 16) ∧ low ∈ hexBytes (byte.toNat % 16)) ∧
    (∀ x : String, Encodes x.toList s.toList → decode s = x) ∧
    ('+' ∉ s.toList → NoEscape s.toList → decode s = s) := by
  refine ⟨?_, decode_eq_replaced s, fun _ _ _ => hexByte?_eq_some_iff, fun _ => decode_of_encodes,
    decode_eq_self⟩
  rw [hf.eq_unescape, decode]

/-- Escapes beside others that are none, an escaped percent sign in front of two digits, a character
with its bytes escaped and one with a byte cut off; a text in which each character is written another
way; and one with percent signs only. -/
theorem decode_replaces_escapes_mixed :
    ReadsEscapes unescape ∧
    decode "a+%2B%%41%4g%e4%BD%a0é%C3%zz%2541%4" = "a +%A%4g你é\ufffd%zz%41%4" ∧
    Encodes "0% +é!".toList "%30%25+%2b%c3%A9!".toList ∧
    decode "%30%25+%2b%c3%A9!" = "0% +é!" ∧
    decode "100% %4 %g1%" = "100% %4 %g1%" := by
  have hencodes : Encodes "0% +é!".toList "%30%25+%2b%c3%A9!".toList :=
    .escaped (v := "%30".toList) (.cons (by decide) (by decide) .nil) <|
    .escaped (v := "%25".toList) (.cons (by decide) (by decide) .nil) <|
    .space <|
    .escaped (v := "%2b".toList) (.cons (by decide) (by decide) .nil) <|
    .escaped (v := "%c3%A9".toList)
      (.cons (by decide) (by decide) <| .cons (by decide) (by decide) .nil) <|
    .self (by decide) (by decide) .nil
  refine ⟨readsEscapes_unescape, ?_, hencodes, ?_, ?_⟩
  · obtain ⟨-, hreplaced, -⟩ := decode_replaces_escapes readsEscapes_unescape
      "a+%2B%%41%4g%e4%BD%a0é%C3%zz%2541%4"
    rw [hreplaced]
    decide +kernel
  · obtain ⟨-, -, -, hback, -⟩ := decode_replaces_escapes readsEscapes_unescape "%30%25+%2b%c3%A9!"
    exact hback "0% +é!" hencodes
  · obtain ⟨-, -, -, -, hself⟩ := decode_replaces_escapes readsEscapes_unescape "100% %4 %g1%"
    exact hself (by decide) (by decide +kernel)

end Query

end RoutePattern
