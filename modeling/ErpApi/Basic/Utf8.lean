import Mathlib.Data.List.Basic

set_option autoImplicit false

/-! # Decoding UTF-8

`buffer.toString('utf-8')` decodes every byte sequence: where the bytes are not UTF-8 it puts
the replacement character U+FFFD, one for each longest beginning of a character that is cut
short, and goes on with the byte that cut it short. Different byte sequences can therefore have
one text. On the encoding of a text it returns the text (`decode_encode`).
-/

namespace ErpApi.Utf8

/-- A character of which some bytes are read: its code point so far, how many bytes are missing
and the range of the next one. -/
structure Pending where
  codePoint : Nat
  missing : Nat
  lower : Nat := 0x80
  upper : Nat := 0xBF
  deriving DecidableEq

def replacement : Char := Char.ofNat 0xFFFD

/-- A byte between two characters. -/
def first (b : Nat) : Option Pending × List Char :=
  if b ≤ 0x7F then (none, [Char.ofNat b])
  else if 0xC2 ≤ b ∧ b ≤ 0xDF then (some { codePoint := b % 0x20, missing := 1 }, [])
  else if 0xE0 ≤ b ∧ b ≤ 0xEF then
    (some
      { codePoint := b % 0x10
        missing := 2
        lower := if b = 0xE0 then 0xA0 else 0x80
        upper := if b = 0xED then 0x9F else 0xBF }, [])
  else if 0xF0 ≤ b ∧ b ≤ 0xF4 then
    (some
      { codePoint := b % 0x08
        missing := 3
        lower := if b = 0xF0 then 0x90 else 0x80
        upper := if b = 0xF4 then 0x8F else 0xBF }, [])
  else (none, [replacement])

/-- One byte: what is pending after it and the characters it completes. A byte outside the range
ends the pending character and is read again between two characters. -/
def step (pending : Option Pending) (b : Nat) : Option Pending × List Char :=
  match pending with
  | none => first b
  | some p =>
      if p.lower ≤ b ∧ b ≤ p.upper then
        let codePoint := p.codePoint * 0x40 + b % 0x40
        if p.missing = 1 then (none, [Char.ofNat codePoint])
        else (some { codePoint := codePoint, missing := p.missing - 1 }, [])
      else ((first b).1, replacement :: (first b).2)

def decodeFrom (pending : Option Pending) : List UInt8 → List Char
  | [] => if pending.isSome then [replacement] else []
  | b :: bytes => (step pending b.toNat).2 ++ decodeFrom (step pending b.toNat).1 bytes

/-- The call `buffer.toString('utf-8')`. -/
def decode (bytes : List UInt8) : String := String.ofList (decodeFrom none bytes)

/-- The UTF-8 bytes of a text. -/
def encode (text : String) : List UInt8 := text.toList.flatMap String.utf8EncodeChar

/-- A byte in the range of the pending character that is not the last one. -/
theorem step_continue {p : Pending} {b : Nat} (hl : p.lower ≤ b) (hu : b ≤ p.upper)
    (hm : p.missing ≠ 1) :
    step (some p) b =
      (some { codePoint := p.codePoint * 0x40 + b % 0x40, missing := p.missing - 1 }, []) := by
  simp [step, hl, hu, hm]

theorem step_last {p : Pending} {b : Nat} (hl : p.lower ≤ b) (hu : b ≤ p.upper)
    (hm : p.missing = 1) :
    step (some p) b = (none, [Char.ofNat (p.codePoint * 0x40 + b % 0x40)]) := by
  simp [step, hl, hu, hm]

theorem decodeFrom_ofNat {pending : Option Pending} {n : Nat} (h : n < 256)
    (bytes : List UInt8) :
    decodeFrom pending (UInt8.ofNat n :: bytes) =
      (step pending n).2 ++ decodeFrom (step pending n).1 bytes := by
  have hn : (UInt8.ofNat n).toNat = n := by
    rw [UInt8.toNat_ofNat']
    omega
  rw [decodeFrom, hn]

/-- The last byte of a character. -/
theorem decodeFrom_last {p : Pending} {v : Nat} (hm : p.missing = 1) (hl : p.lower ≤ 0x80)
    (hu : p.upper = 0xBF) (hcode : p.codePoint = v / 0x40) (bytes : List UInt8) :
    decodeFrom (some p) (UInt8.ofNat (v % 0x40 + 0x80) :: bytes) =
      Char.ofNat v :: decodeFrom none bytes := by
  have hv : v / 0x40 * 0x40 + (v % 0x40 + 0x80) % 0x40 = v := by omega
  rw [decodeFrom_ofNat (by omega), step_last (by omega) (by omega) hm, hcode, hv]
  rfl

/-- A byte of a character with more to come: the code point gains six bits. -/
theorem decodeFrom_continue {p : Pending} {v : Nat} (hm : p.missing ≠ 1)
    (hl : p.lower ≤ v % 0x40 + 0x80) (hu : v % 0x40 + 0x80 ≤ p.upper)
    (hcode : p.codePoint = v / 0x40) (bytes : List UInt8) :
    decodeFrom (some p) (UInt8.ofNat (v % 0x40 + 0x80) :: bytes) =
      decodeFrom (some { codePoint := v, missing := p.missing - 1 }) bytes := by
  have hv : v / 0x40 * 0x40 + (v % 0x40 + 0x80) % 0x40 = v := by omega
  rw [decodeFrom_ofNat (by omega), step_continue hl hu hm, hcode, hv]
  rfl

theorem decodeFrom_first {n : Nat} {p : Pending} (h : n < 256) (hstep : first n = (some p, []))
    (bytes : List UInt8) :
    decodeFrom none (UInt8.ofNat n :: bytes) = decodeFrom (some p) bytes := by
  rw [decodeFrom_ofNat h, step, hstep]
  rfl

/-- The bytes of one character. -/
theorem decodeFrom_encodeChar (c : Char) (bytes : List UInt8) :
    decodeFrom none (String.utf8EncodeChar c ++ bytes) = c :: decodeFrom none bytes := by
  -- The surrogates are no characters, so the narrower range after `0xED` excludes nothing.
  have hvalid : c.toNat < 0xD800 ∨ 0xDFFF < c.toNat ∧ c.toNat < 0x110000 := c.valid
  have hc : Char.ofNat c.toNat = c := Char.ofNat_toNat c
  unfold String.utf8EncodeChar
  rw [show c.val.toNat = c.toNat from rfl]
  by_cases h1 : c.toNat ≤ 0x7F
  · rw [if_pos h1, List.cons_append, decodeFrom_ofNat (by omega)]
    simp [step, first, h1]
  rw [if_neg h1]
  by_cases h2 : c.toNat ≤ 0x7FF
  · have hfirst : first (c.toNat / 64 % 0x20 + 0xC0) =
        (some { codePoint := c.toNat / 64, missing := 1 }, []) := by
      have hmod : (c.toNat / 64 % 0x20 + 0xC0) % 0x20 = c.toNat / 64 := by omega
      unfold first
      rw [if_neg (by omega), if_pos (by omega), hmod]
    rw [if_pos h2]
    simp only [List.cons_append, List.nil_append]
    rw [decodeFrom_first (by omega) hfirst, decodeFrom_last rfl (Nat.le_refl _) rfl rfl, hc]
  rw [if_neg h2]
  by_cases h3 : c.toNat ≤ 0xFFFF
  · have hfirst : first (c.toNat / 4096 % 0x10 + 0xE0) =
        (some
          { codePoint := c.toNat / 64 / 64
            missing := 2
            lower := if c.toNat / 4096 % 0x10 + 0xE0 = 0xE0 then 0xA0 else 0x80
            upper := if c.toNat / 4096 % 0x10 + 0xE0 = 0xED then 0x9F else 0xBF }, []) := by
      have hmod : (c.toNat / 4096 % 0x10 + 0xE0) % 0x10 = c.toNat / 64 / 64 := by omega
      unfold first
      rw [if_neg (by omega), if_neg (by omega), if_pos (by omega), hmod]
    rw [if_pos h3]
    simp only [List.cons_append, List.nil_append]
    rw [decodeFrom_first (by omega) hfirst,
      decodeFrom_continue (show 2 ≠ 1 by decide) (by dsimp only; split <;> omega)
        (by dsimp only; split <;> omega) rfl,
      decodeFrom_last rfl (Nat.le_refl _) rfl rfl, hc]
  · have hfirst : first (c.toNat / 262144 % 0x08 + 0xF0) =
        (some
          { codePoint := c.toNat / 64 / 64 / 64
            missing := 3
            lower := if c.toNat / 262144 % 0x08 + 0xF0 = 0xF0 then 0x90 else 0x80
            upper := if c.toNat / 262144 % 0x08 + 0xF0 = 0xF4 then 0x8F else 0xBF }, []) := by
      have hmod : (c.toNat / 262144 % 0x08 + 0xF0) % 0x08 = c.toNat / 64 / 64 / 64 := by omega
      unfold first
      rw [if_neg (by omega), if_neg (by omega), if_neg (by omega), if_pos (by omega), hmod]
    rw [if_neg h3]
    simp only [List.cons_append, List.nil_append]
    rw [show c.toNat / 4096 = c.toNat / 64 / 64 by omega,
      decodeFrom_first (by omega) hfirst,
      decodeFrom_continue (show 3 ≠ 1 by decide) (by dsimp only; split <;> omega)
        (by dsimp only; split <;> omega) rfl,
      decodeFrom_continue (show 2 ≠ 1 by decide) (by dsimp only; omega) (by dsimp only; omega) rfl,
      decodeFrom_last rfl (Nat.le_refl _) rfl rfl, hc]

/-- **Decoding undoes encoding.** -/
theorem decode_encode (text : String) : decode (encode text) = text := by
  have h : ∀ l : List Char, decodeFrom none (l.flatMap String.utf8EncodeChar) = l := by
    intro l
    induction l with
    | nil => rfl
    | cons c l ih => rw [List.flatMap_cons, decodeFrom_encodeChar, ih]
  rw [decode, encode, h, String.ofList_toList]

/-- Bytes that are the encoding of a text are determined by what they decode to. -/
theorem encode_eq_of_decode_eq {a b : String} (h : decode (encode a) = decode (encode b)) :
    encode a = encode b := by
  rw [decode_encode, decode_encode] at h
  rw [h]

end ErpApi.Utf8
