/-
Bytes as text, with a stand-in for what is not text.

UTF-8 writes a character as one to four bytes. The first byte tells how many
follow and narrows what the second may be, which is what keeps out overlong
forms, surrogates and code points past the last one; every further byte lies in
`0x80`–`0xBF`. `decode` reads bytes one at a time. A byte that cannot go on with
the open sequence closes it, and the closed part, being as long as it could be,
gives one U+FFFD; the byte itself is then read afresh.
-/
set_option autoImplicit false

namespace RoutePattern.Text.Utf8

/-- The bytes of a text (`as_bytes`). -/
def encode (s : List Char) : List UInt8 := s.flatMap String.utf8EncodeChar

/-- A sequence whose next byte has to lie between `low` and `high`; `further` bytes follow that
one, and `bits` is the code point as far as it is known. -/
structure Pending where
  further : Nat
  bits : Nat
  low : Nat := 0x80
  high : Nat := 0xBF
  deriving DecidableEq, Repr

/-- The sequence that a byte opens, if it may open one. -/
def Pending.ofLead? (b : Nat) : Option Pending :=
  if b < 0xC2 then none
  else if b ≤ 0xDF then some { further := 0, bits := b - 0xC0 }
  else if b = 0xE0 then some { further := 1, bits := 0, low := 0xA0 }
  else if b = 0xED then some { further := 1, bits := 0xD, high := 0x9F }
  else if b ≤ 0xEF then some { further := 1, bits := b - 0xE0 }
  else if b = 0xF0 then some { further := 2, bits := 0, low := 0x90 }
  else if b ≤ 0xF3 then some { further := 2, bits := b - 0xF0 }
  else if b = 0xF4 then some { further := 2, bits := 4, high := 0x8F }
  else none

/-- What stands for bytes that are no character. -/
def replacement : Char := '\ufffd'

/-- A byte outside of any sequence: the characters it gives and the sequence it opens. -/
def start (b : UInt8) : List Char × Option Pending :=
  if b.toNat < 0x80 then ([Char.ofNat b.toNat], none)
  else
    match Pending.ofLead? b.toNat with
    | some p => ([], some p)
    | none => ([replacement], none)

/-- A byte after an open sequence, or after none. -/
def step : Option Pending → UInt8 → List Char × Option Pending
  | none, b => start b
  | some p, b =>
    if p.low ≤ b.toNat ∧ b.toNat ≤ p.high then
      let bits := p.bits * 64 + (b.toNat - 0x80)
      match p.further with
      | 0 => ([Char.ofNat bits], none)
      | n + 1 => ([], some { further := n, bits := bits })
    else (replacement :: (start b).1, (start b).2)

/-- Reads bytes from a state. A sequence that is still open at the end was cut short. -/
def decodeFrom : Option Pending → List UInt8 → List Char
  | none, [] => []
  | some _, [] => [replacement]
  | state, b :: bs =>
    let next := step state b
    next.1 ++ decodeFrom next.2 bs

/-- The text that bytes stand for, with one U+FFFD for each stretch that is none
(`from_utf8_lossy`). -/
def decode (bytes : List UInt8) : List Char := decodeFrom none bytes

/-! ## What the reader does at its edges -/

@[simp] theorem decode_nil : decode [] = [] := rfl

example : decode [0xE4, 0xBD] = [replacement] := by decide

example : decode [0xED, 0xA0, 0x80] = [replacement, replacement, replacement] := by decide

example : decode [0xF4, 0x90, 0x80, 0x80] =
    [replacement, replacement, replacement, replacement] := by decide

example : decode [0xF0, 0x9F, 0x98, 0x41] = [replacement, 'A'] := by decide

/-! ## Reading undoes writing

`String.utf8EncodeChar` writes the first byte as a base plus the highest bits and
every further byte as `0x80` plus six bits. The lemmas below follow the reader
through one such sequence: what the first byte opens, and what each further byte
does to the open sequence. -/

/-- A code point is below the surrogates or above them. -/
theorem toNat_valid (c : Char) : c.toNat < 0xD800 ∨ 0xDFFF < c.toNat ∧ c.toNat < 0x110000 := c.valid

/-- A byte that opens a sequence gives no character yet. -/
theorem decodeFrom_lead {n : Nat} (h : n < 256) (hn : 0x80 ≤ n) {p : Pending}
    (hp : Pending.ofLead? n = some p) (bs : List UInt8) :
    decodeFrom none (UInt8.ofNat n :: bs) = decodeFrom (some p) bs := by
  have h' : ¬ n < 0x80 := by omega
  simp [decodeFrom, step, start, UInt8.toNat_ofNat_of_lt' h, h', hp]

/-- The last byte of a sequence completes the character. -/
theorem decodeFrom_last {n : Nat} (h : n < 256) {p : Pending} (h0 : p.further = 0) (hl : p.low ≤ n)
    (hh : n ≤ p.high) (bs : List UInt8) :
    decodeFrom (some p) (UInt8.ofNat n :: bs) =
      Char.ofNat (p.bits * 64 + (n - 0x80)) :: decodeFrom none bs := by
  simp [decodeFrom, step, UInt8.toNat_ofNat_of_lt' h, hl, hh, h0]

/-- A byte inside a sequence adds six bits. -/
theorem decodeFrom_next {n k : Nat} (h : n < 256) {p : Pending} (h0 : p.further = k + 1)
    (hl : p.low ≤ n) (hh : n ≤ p.high) (bs : List UInt8) :
    decodeFrom (some p) (UInt8.ofNat n :: bs) =
      decodeFrom (some { further := k, bits := p.bits * 64 + (n - 0x80) }) bs := by
  simp [decodeFrom, step, UInt8.toNat_ofNat_of_lt' h, hl, hh, h0]

theorem ofLead?_two {n : Nat} (hl : 0xC2 ≤ n) (hh : n ≤ 0xDF) :
    Pending.ofLead? n = some { further := 0, bits := n - 0xC0 } := by
  have h1 : ¬ n < 0xC2 := by omega
  simp [Pending.ofLead?, h1, hh]

theorem ofLead?_three {n : Nat} (hl : 0xE0 ≤ n) (hh : n ≤ 0xEF) :
    Pending.ofLead? n = some
      { further := 1
        bits := n - 0xE0
        low := if n = 0xE0 then 0xA0 else 0x80
        high := if n = 0xED then 0x9F else 0xBF } := by
  have h1 : ¬ n < 0xC2 := by omega
  have h2 : ¬ n ≤ 0xDF := by omega
  by_cases h3 : n = 0xE0
  · subst h3; rfl
  · by_cases h4 : n = 0xED
    · subst h4; rfl
    · simp [Pending.ofLead?, h1, h2, h3, h4, hh]

theorem ofLead?_four {n : Nat} (hl : 0xF0 ≤ n) (hh : n ≤ 0xF4) :
    Pending.ofLead? n = some
      { further := 2
        bits := n - 0xF0
        low := if n = 0xF0 then 0x90 else 0x80
        high := if n = 0xF4 then 0x8F else 0xBF } := by
  obtain rfl | rfl | rfl | rfl | rfl : n = 0xF0 ∨ n = 0xF1 ∨ n = 0xF2 ∨ n = 0xF3 ∨ n = 0xF4 := by omega
  all_goals rfl

/-- The bytes of a character are read as that character, whatever follows. -/
theorem decode_utf8EncodeChar_append (c : Char) (bs : List UInt8) :
    decode (String.utf8EncodeChar c ++ bs) = c :: decode bs := by
  have hv := toNat_valid c
  have hc : Char.ofNat c.toNat = c := Char.ofNat_toNat c
  have hval : c.val.toNat = c.toNat := rfl
  unfold decode
  rw [String.utf8EncodeChar]
  simp only [hval]
  generalize c.toNat = v at *
  split
  · next h1 =>
    have h128 : v < 0x80 := by omega
    have h256 : v < 256 := by omega
    simp [decodeFrom, step, start, h128, Nat.mod_eq_of_lt h256, hc]
  · split
    · next h1 h2 =>
      simp only [List.cons_append, List.nil_append]
      rw [decodeFrom_lead (by omega) (by omega) (ofLead?_two (by omega) (by omega)),
        decodeFrom_last (by omega) rfl (by simp) (by simp; omega)]
      rw [show (v / 64 % 32 + 192 - 192) * 64 + (v % 64 + 128 - 128) = v by omega, hc]
    · split
      · next h1 h2 h3 =>
        simp only [List.cons_append, List.nil_append]
        rw [decodeFrom_lead (by omega) (by omega) (ofLead?_three (by omega) (by omega)),
          decodeFrom_next (by omega) rfl (by simp only; split <;> omega)
            (by simp only; split <;> omega),
          decodeFrom_last (by omega) rfl (by simp) (by simp; omega)]
        simp only
        rw [show ((v / 4096 % 16 + 224 - 224) * 64 + (v / 64 % 64 + 128 - 128)) * 64 +
            (v % 64 + 128 - 128) = v by omega, hc]
      · next h1 h2 h3 =>
        simp only [List.cons_append, List.nil_append]
        rw [decodeFrom_lead (by omega) (by omega) (ofLead?_four (by omega) (by omega)),
          decodeFrom_next (by omega) rfl (by simp only; split <;> omega)
            (by simp only; split <;> omega),
          decodeFrom_next (by omega) rfl (by simp) (by simp; omega),
          decodeFrom_last (by omega) rfl (by simp) (by simp; omega)]
        simp only
        rw [show (((v / 262144 % 8 + 240 - 240) * 64 + (v / 4096 % 64 + 128 - 128)) * 64 +
            (v / 64 % 64 + 128 - 128)) * 64 + (v % 64 + 128 - 128) = v by omega, hc]

/-- Every text is **read back from its bytes**. -/
theorem decode_encode (s : List Char) : decode (encode s) = s := by
  induction s with
  | nil => rfl
  | cons c cs ih =>
    rw [encode, List.flatMap_cons, decode_utf8EncodeChar_append]
    exact congrArg (c :: ·) ih

end RoutePattern.Text.Utf8
