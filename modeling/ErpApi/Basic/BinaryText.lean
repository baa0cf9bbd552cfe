import Mathlib.Data.List.Basic

set_option autoImplicit false

/-! # Bytes as text

In base64 three bytes are written as four characters of six bits each; one or two bytes at the end
leave a character over, and the sign `=` fills the group up. The decoder is lenient: it stops at
the first `=`, passes over what is no character of the alphabet and reads the URL-safe alphabet as
well. On the encoding of some bytes it returns the bytes (`decode_encode`).

In hexadecimal a byte is two digits. The decoder stops in front of the first pair that is not two
digits, so a text can stand for fewer bytes than its length says (`length_decodeList_iff`).
-/

namespace ErpApi.Base64

/-- The character of six bits. -/
def digit (v : Nat) : Char :=
  if v < 26 then Char.ofNat (v + 65)
  else if v < 52 then Char.ofNat (v + 71)
  else if v < 62 then Char.ofNat (v - 4)
  else if v = 62 then '+'
  else '/'

def value? (c : Char) : Option Nat :=
  if 'A' ≤ c ∧ c ≤ 'Z' then some (c.toNat - 65)
  else if 'a' ≤ c ∧ c ≤ 'z' then some (c.toNat - 71)
  else if '0' ≤ c ∧ c ≤ '9' then some (c.toNat + 4)
  else if c = '+' ∨ c = '-' then some 62
  else if c = '/' ∨ c = '_' then some 63
  else none

/-- The bits of some bytes in sixes; zeros fill up the last six. -/
def sextets : List UInt8 → List Nat
  | a :: b :: c :: bytes =>
      a.toNat / 4 :: (a.toNat % 4 * 16 + b.toNat / 16) :: (b.toNat % 16 * 4 + c.toNat / 64) ::
        c.toNat % 64 :: sextets bytes
  | [a, b] => [a.toNat / 4, a.toNat % 4 * 16 + b.toNat / 16, b.toNat % 16 * 4]
  | [a] => [a.toNat / 4, a.toNat % 4 * 16]
  | [] => []

/-- The whole bytes that the sixes hold. -/
def bytesOf : List Nat → List UInt8
  | p :: q :: r :: s :: rest =>
      UInt8.ofNat (p * 4 + q / 16) :: UInt8.ofNat (q % 16 * 16 + r / 4) ::
        UInt8.ofNat (r % 4 * 64 + s) :: bytesOf rest
  | [p, q, r] => [UInt8.ofNat (p * 4 + q / 16), UInt8.ofNat (q % 16 * 16 + r / 4)]
  | [p, q] => [UInt8.ofNat (p * 4 + q / 16)]
  | _ => []

def padding (n : Nat) : List Char := List.replicate ((3 - n % 3) % 3) '='

/-- The call `buffer.toString('base64')`. -/
def encode (bytes : List UInt8) : String :=
  String.ofList ((sextets bytes).map digit ++ padding bytes.length)

/-- The call `Buffer.from(text, 'base64')`. -/
def decode (text : String) : List UInt8 :=
  bytesOf ((text.toList.takeWhile (· ≠ '=')).filterMap value?)

/-! ## The alphabet -/

theorem digit_spec : ∀ v < 64, value? (digit v) = some v ∧ digit v ≠ '=' ∧ digit v ≠ ':' := by
  decide

theorem sextets_lt (bytes : List UInt8) : ∀ v ∈ sextets bytes, v < 64 := by
  induction bytes using sextets.induct with
  | case1 a b c bytes ih =>
      have ha := a.toNat_lt
      have hb := b.toNat_lt
      have hc := c.toNat_lt
      intro v hv
      simp only [sextets, List.mem_cons] at hv
      rcases hv with rfl | rfl | rfl | rfl | hv
      · omega
      · omega
      · omega
      · omega
      · exact ih v hv
  | case2 a b =>
      have ha := a.toNat_lt
      have hb := b.toNat_lt
      intro v hv
      simp only [sextets, List.mem_cons, List.not_mem_nil, or_false] at hv
      omega
  | case3 a =>
      have ha := a.toNat_lt
      intro v hv
      simp only [sextets, List.mem_cons, List.not_mem_nil, or_false] at hv
      omega
  | case4 => simp [sextets]

/-! ## The round trip -/

theorem ofNat_of_eq {a : UInt8} {n : Nat} (h : n = a.toNat) : UInt8.ofNat n = a := by
  rw [h, UInt8.ofNat_toNat]

theorem bytesOf_sextets (bytes : List UInt8) : bytesOf (sextets bytes) = bytes := by
  induction bytes using sextets.induct with
  | case1 a b c bytes ih =>
      have ha := a.toNat_lt
      have hb := b.toNat_lt
      have hc := c.toNat_lt
      rw [sextets, bytesOf, ih, ofNat_of_eq (a := a) (by omega), ofNat_of_eq (a := b) (by omega),
        ofNat_of_eq (a := c) (by omega)]
  | case2 a b =>
      have ha := a.toNat_lt
      have hb := b.toNat_lt
      rw [sextets, bytesOf, ofNat_of_eq (a := a) (by omega), ofNat_of_eq (a := b) (by omega)]
  | case3 a =>
      have ha := a.toNat_lt
      rw [sextets, bytesOf, ofNat_of_eq (a := a) (by omega)]
  | case4 => rfl

/-- The reader stops where the padding starts. -/
theorem takeWhile_encode (bytes : List UInt8) :
    (encode bytes).toList.takeWhile (· ≠ '=') = (sextets bytes).map digit := by
  have hdigits : ∀ c ∈ (sextets bytes).map digit, decide (c ≠ '=') = true := by
    intro c hc
    obtain ⟨v, hv, rfl⟩ := List.mem_map.mp hc
    exact decide_eq_true (digit_spec v (sextets_lt bytes v hv)).2.1
  have hpadding : (padding bytes.length).takeWhile (fun c => decide (c ≠ '=')) = [] := by
    unfold padding
    cases (3 - bytes.length % 3) % 3 with
    | zero => rfl
    | succ n => rfl
  rw [encode, String.toList_ofList, List.takeWhile_append_of_pos hdigits, hpadding,
    List.append_nil]

theorem filterMap_value (values : List Nat) (h : ∀ v ∈ values, v < 64) :
    (values.map digit).filterMap value? = values := by
  rw [List.filterMap_map]
  calc values.filterMap (value? ∘ digit) = values.filterMap some :=
        List.filterMap_congr fun v hv => (digit_spec v (h v hv)).1
    _ = values := List.filterMap_some

/-- **Decoding undoes encoding.** -/
theorem decode_encode (bytes : List UInt8) : decode (encode bytes) = bytes := by
  rw [decode, takeWhile_encode, filterMap_value _ (sextets_lt bytes), bytesOf_sextets]

theorem encode_injective : Function.Injective encode := by
  intro bytes bytes' h
  rw [← decode_encode bytes, h, decode_encode]

/-- No encoding holds a colon. -/
theorem colon_not_mem_encode (bytes : List UInt8) : ':' ∉ (encode bytes).toList := by
  rw [encode, String.toList_ofList]
  intro h
  rcases List.mem_append.mp h with hdigit | hpad
  · obtain ⟨v, hv, heq⟩ := List.mem_map.mp hdigit
    exact (digit_spec v (sextets_lt bytes v hv)).2.2 heq
  · exact absurd (List.eq_of_mem_replicate hpad) (by decide)

end ErpApi.Base64

namespace ErpApi.Hex

def value? (c : Char) : Option Nat :=
  if '0' ≤ c ∧ c ≤ '9' then some (c.toNat - 48)
  else if 'a' ≤ c ∧ c ≤ 'f' then some (c.toNat - 87)
  else if 'A' ≤ c ∧ c ≤ 'F' then some (c.toNat - 55)
  else none

def IsDigit (c : Char) : Prop := (value? c).isSome = true

instance (c : Char) : Decidable (IsDigit c) := inferInstanceAs (Decidable (_ = true))

theorem IsDigit.toNat_lt {c : Char} (h : IsDigit c) : c.toNat < 0x10000 := by
  have hval : ∀ d : Char, c ≤ d → d.toNat < 0x80 → c.toNat < 0x80 := by
    intro d hle hd
    exact Nat.lt_of_le_of_lt (Char.le_def.mp hle) hd
  have hlow : c.toNat < 0x80 := by
    unfold IsDigit value? at h
    split at h
    · rename_i hrange
      exact hval '9' hrange.2 (by decide)
    · split at h
      · rename_i hrange
        exact hval 'f' hrange.2 (by decide)
      · split at h
        · rename_i hrange
          exact hval 'F' hrange.2 (by decide)
        · cases h
  omega

def decodeList : List Char → List UInt8
  | p :: q :: rest =>
      match value? p, value? q with
      | some x, some y => UInt8.ofNat (16 * x + y) :: decodeList rest
      | _, _ => []
  | _ => []

/-- The call `Buffer.from(text, 'hex')`. -/
def decode (text : String) : List UInt8 := decodeList text.toList

theorem length_decodeList_le (chars : List Char) :
    2 * (decodeList chars).length ≤ chars.length := by
  induction chars using decodeList.induct with
  | case1 p q rest x y hp hq ih =>
      simp only [decodeList, hp, hq, List.length_cons]
      omega
  | case2 p q rest hpair =>
      have hnil : decodeList (p :: q :: rest) = [] := by
        rw [decodeList]
        split
        · rename_i x y hp hq
          exact absurd hq (hpair x y hp)
        · rfl
      rw [hnil]
      exact Nat.zero_le _
  | case3 chars hshort =>
      have hnil : decodeList chars = [] := by
        rw [decodeList]
        exact hshort
      rw [hnil]
      exact Nat.zero_le _

/-- The text stands for as many bytes as it has pairs exactly if it is made of digits. -/
theorem length_decodeList_iff : ∀ (n : Nat) (chars : List Char), chars.length = 2 * n →
    ((decodeList chars).length = n ↔ ∀ c ∈ chars, IsDigit c)
  | 0, chars, hlength => by
      obtain rfl := List.length_eq_zero_iff.mp hlength
      simp [decodeList]
  | n + 1, p :: q :: rest, hlength => by
      have hrest : rest.length = 2 * n := by
        simp only [List.length_cons] at hlength
        omega
      have ih := length_decodeList_iff n rest hrest
      cases hp : value? p with
      | none => simp [decodeList, hp, IsDigit]
      | some x =>
          cases hq : value? q with
          | none => simp [decodeList, hp, hq, IsDigit]
          | some y =>
              simp only [decodeList, hp, hq, List.length_cons, Nat.add_right_cancel_iff, ih]
              simp [IsDigit, hp, hq]
  | n + 1, [c], hlength => by
      simp only [List.length_singleton] at hlength
      omega
  | n + 1, [], hlength => by
      simp only [List.length_nil] at hlength
      omega

end ErpApi.Hex
