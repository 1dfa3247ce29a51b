/-
# Integers and strings of HPACK

`EncodeInteger`, `DecodeInteger`, `EncodeString` and `DecodeString` in `brpc/details/hpack.cpp`:
`huffman_codec_exact`.
-/

import Brpc.Hpack.HuffmanCorrect

namespace Brpc.Hpack

open List

/-- The bytes left of an `IOBufBytesIterator`. -/
abbrev Bytes := List UInt8

/-- What a decoder returns, what it has stored, and the bytes left. -/
structure Read (α : Type) where
  ret : ℤ
  value : α
  rest : Bytes

def maxHpackInteger : ℕ := 10485760

/-! ### Integers -/

/-- The loop of `EncodeInteger` over groups of seven bits; 32 bits have at most five. -/
def encodeGroups : ℕ → ℕ → Bytes
  | 0, value => [UInt8.ofNat value]
  | n + 1, value =>
    if 128 ≤ value then UInt8.ofNat (value % 128 + 128) :: encodeGroups n (value / 128)
    else [UInt8.ofNat value]

/-- `EncodeInteger`, of a 32-bit value. -/
def encodeInteger (msb prefixSize value : ℕ) : Bytes :=
  let value := value % 4294967296
  let maxPrefixValue := 2 ^ prefixSize - 1
  if value < maxPrefixValue then [UInt8.ofNat (msb ||| value)]
  else UInt8.ofNat (msb ||| maxPrefixValue) :: encodeGroups 4 (value - maxPrefixValue)

/-- The loop of `DecodeInteger`: `m` bits were read behind the prefix, in `inBytes` bytes.  A shift by 64 or
more is taken modulo 64. -/
def decodeGroups : Bytes → ℕ → ℕ → ℕ → Read ℕ
  | [], _, _, _ => { ret := 0, value := 0, rest := [] }
  | curByte :: rest, tmp, m, inBytes =>
    let tmp := (tmp + curByte.toNat % 128 * 2 ^ (m % 64)) % 18446744073709551616
    if 128 ≤ curByte.toNat ∧ tmp < maxHpackInteger then decodeGroups rest tmp (m + 7) (inBytes + 1)
    else if maxHpackInteger ≤ tmp then { ret := -1, value := 0, rest := rest }
    else { ret := inBytes + 1, value := tmp, rest := rest }

def decodeInteger (prefixSize : ℕ) : Bytes → Read ℕ
  | [] => { ret := 0, value := 0, rest := [] }
  | firstByte :: rest =>
    let tmp := firstByte.toNat % 2 ^ prefixSize
    if tmp < 2 ^ prefixSize - 1 then { ret := 1, value := tmp, rest := rest }
    else decodeGroups rest tmp 0 1

theorem decodeGroups_last {v tmp m : ℕ} (inBytes : ℕ) (rest : Bytes) (hm : m < 64) (hv : v < 128)
    (hmax : tmp + v * 2 ^ m < maxHpackInteger) : decodeGroups (UInt8.ofNat v :: rest) tmp m inBytes =
      { ret := inBytes + 1, value := tmp + v * 2 ^ m, rest := rest } := by
  have hto : (UInt8.ofNat v).toNat = v := UInt8.toNat_ofNat_of_lt' (by show v < 256; omega)
  unfold maxHpackInteger at hmax
  rw [decodeGroups, hto, Nat.mod_eq_of_lt hv, Nat.mod_eq_of_lt hm, Nat.mod_eq_of_lt (by omega),
    if_neg (by omega), if_neg (by unfold maxHpackInteger; omega)]

theorem decodeGroups_encode (n v tmp m inBytes : ℕ) (rest : Bytes) (hm : m + 7 * n < 64)
    (hv : v < 128 ^ (n + 1)) (hmax : tmp + v * 2 ^ m < maxHpackInteger) :
    decodeGroups (encodeGroups n v ++ rest) tmp m inBytes =
      { ret := inBytes + (encodeGroups n v).length, value := tmp + v * 2 ^ m, rest := rest } := by
  induction n generalizing v tmp m inBytes with
  | zero => exact decodeGroups_last inBytes rest (by omega) (by simpa using hv) hmax
  | succ n ih =>
    rw [encodeGroups]
    split_ifs with hbig
    · have hto : (UInt8.ofNat (v % 128 + 128)).toNat = v % 128 + 128 :=
        UInt8.toNat_ofNat_of_lt' (by show _ < 256; omega)
      have hsplit : tmp + v % 128 * 2 ^ m + v / 128 * 2 ^ (m + 7) = tmp + v * 2 ^ m := by
        have : v * 2 ^ m = (128 * (v / 128) + v % 128) * 2 ^ m := by rw [Nat.div_add_mod]
        rw [this, pow_add]
        ring
      have hlt : tmp + v % 128 * 2 ^ m < maxHpackInteger := by omega
      have hm64 : m % 64 = m := Nat.mod_eq_of_lt (by omega)
      have htmp : (tmp + v % 128 * 2 ^ m) % 18446744073709551616 = tmp + v % 128 * 2 ^ m :=
        Nat.mod_eq_of_lt (by unfold maxHpackInteger at hlt; omega)
      have hdiv : v / 128 < 128 ^ (n + 1) := Nat.div_lt_of_lt_mul (by rwa [← pow_succ'])
      rw [cons_append, decodeGroups, hto, Nat.add_mod_right, Nat.mod_mod, hm64, htmp,
        if_pos ⟨by omega, hlt⟩, ih (v / 128) _ (m + 7) _ (by omega) hdiv (by omega), hsplit]
      simp only [length_cons, Nat.cast_add, Nat.cast_one, Read.mk.injEq, and_true]
      omega
    · exact decodeGroups_last inBytes rest (by omega) (by omega) hmax

/-- **Decoding gives the integer encoded.** -/
theorem decodeInteger_encode {msb p v : ℕ} (hp : p ≤ 8) (hmsb : msb % 2 ^ p = 0) (hmsb' : msb < 256)
    (hv : v < maxHpackInteger) (rest : Bytes) : decodeInteger p (encodeInteger msb p v ++ rest) =
      { ret := (encodeInteger msb p v).length, value := v, rest := rest } := by
  have hpow : 2 ^ p ≤ 2 ^ 8 := Nat.pow_le_pow_right (by omega) hp
  -- the prefix of the first byte
  have hfirst : ∀ {x : ℕ}, x < 2 ^ p → (UInt8.ofNat (msb ||| x)).toNat % 2 ^ p = x := by
    intro x hx
    have hlt : msb ||| x < 2 ^ 8 := Nat.or_lt_two_pow hmsb' (by omega)
    rw [UInt8.toNat_ofNat_of_lt' hlt, Nat.or_mod_two_pow, hmsb, Nat.zero_or, Nat.mod_eq_of_lt hx]
  have hv32 : v % 4294967296 = v := Nat.mod_eq_of_lt (by unfold maxHpackInteger at hv; omega)
  unfold encodeInteger
  simp only [hv32]
  split_ifs with hsmall
  · rw [singleton_append, decodeInteger, hfirst (by omega), if_pos hsmall]
    rfl
  · rw [cons_append, decodeInteger, hfirst (by omega), if_neg (by omega),
      decodeGroups_encode 4 _ _ 0 1 rest (by omega) (by unfold maxHpackInteger at hv; omega) (by omega)]
    simp only [length_cons, Nat.cast_add, Nat.cast_one, Read.mk.injEq, and_true]
    omega

theorem encodeInteger_ne_nil (msb p v : ℕ) : encodeInteger msb p v ≠ [] := by
  unfold encodeInteger
  simp only
  split_ifs <;> simp

theorem firstByte_encodeInteger {msb p : ℕ} (hp : p ≤ 8) (hmsb : msb < 256) (v : ℕ) :
    ∃ b bs, encodeInteger msb p v = b :: bs ∧ b.toNat / 2 ^ p = msb / 2 ^ p := by
  have hpow : 2 ^ p ≤ 2 ^ 8 := Nat.pow_le_pow_right (by omega) hp
  have hpos : 0 < 2 ^ p := Nat.two_pow_pos p
  have hbyte : ∀ {x : ℕ}, x < 2 ^ p → (UInt8.ofNat (msb ||| x)).toNat / 2 ^ p = msb / 2 ^ p := by
    intro x hx
    have hlt : msb ||| x < 2 ^ 8 := Nat.or_lt_two_pow hmsb (by omega)
    rw [UInt8.toNat_ofNat_of_lt' hlt, Nat.or_div_two_pow, Nat.div_eq_of_lt hx, Nat.or_zero]
  unfold encodeInteger
  simp only
  split_ifs with h
  all_goals exact ⟨_, _, rfl, hbyte (by omega)⟩

/-! ### Strings -/

/-- `EncodeString<LOWERCASE>` -/
def encodeString (lowercase : Bool) (s : Str) (huffmanEncoding : Bool) : Bytes :=
  let s := if lowercase then tolower s else s
  if huffmanEncoding = false then encodeInteger 0x00 7 s.length ++ s
  else
    let bitLen := huffmanBitLen s % 4294967296
    encodeInteger 0x80 7 (bitLen / 8 + if bitLen % 8 ≠ 0 then 1 else 0) ++ huffmanEncode s

/-- The number of bytes that `EncodeString` announces; the number of bits is a `uint32_t`. -/
def announcedLength (s : Str) : ℕ :=
  let bitLen := huffmanBitLen s % 4294967296
  bitLen / 8 + if bitLen % 8 ≠ 0 then 1 else 0

/-- The bytes are the codes of the characters of `s` and at most seven ones. -/
def IsCoded (bs : Bytes) (s : Str) : Prop :=
  ∃ pad ≤ 7, Lib.byteBits bs = (s.flatMap fun c => (codeOf c).bits) ++ replicate pad true

/-- **The Huffman codec is exact**: the length announced is right if and only if the length in bits is less than
2^32, what was encoded is decoded, and the decoder accepts nothing but codes of one string, which it returns. -/
theorem huffman_codec_exact (s : Str) (bs : Bytes) :
    encodeString false s true = encodeInteger 0x80 7 (announcedLength s) ++ huffmanEncode s ∧
    ((huffmanEncode s).length = announcedLength s ↔ huffmanBitLen s < 4294967296) ∧
    huffmanDecode (huffmanEncode s) = some s ∧ (huffmanDecode bs = some s ↔ IsCoded bs s) ∧
    ((huffmanDecode bs).isSome ↔ ∃! s, IsCoded bs s) := by
  refine ⟨rfl, ?_, huffmanDecode_encode s, huffmanDecode_iff, ?_⟩
  · rw [length_huffmanEncode]
    simp only [announcedLength]
    split_ifs <;> omega
  · rw [Option.isSome_iff_exists]
    constructor
    · rintro ⟨s, hs⟩
      refine ⟨s, huffmanDecode_iff.1 hs, fun s' hs' => ?_⟩
      exact Option.some.inj ((huffmanDecode_iff.2 hs').symm.trans hs)
    · rintro ⟨s, hs, -⟩
      exact ⟨s, huffmanDecode_iff.2 hs⟩

/-- **The length wraps**: for 2^29 characters with codes of 8 bits nothing is announced. -/
theorem long_string_announced : announcedLength (replicate 536870912 38) = 0 ∧
    (huffmanEncode (replicate 536870912 38)).length = 536870912 := by
  have hbits : huffmanBitLen (replicate 536870912 38) = 4294967296 := by
    rw [huffmanBitLen_eq, length_flatMap, map_replicate, sum_replicate_nat]
    rfl
  rw [length_huffmanEncode, announcedLength, hbits]
  exact ⟨rfl, rfl⟩

/-- `DecodeString`; where the iterator stands after -1 is not looked at. -/
def decodeString (bs : Bytes) : Read Str :=
  match bs with
  | [] => { ret := 0, value := [], rest := [] }
  | firstByte :: _ =>
    let huffman := decide (128 ≤ firstByte.toNat)
    let length := decodeInteger 7 bs
    if length.ret ≤ 0 then { ret := -1, value := [], rest := length.rest }
    else if length.rest.length < length.value then { ret := 0, value := [], rest := length.rest }
    else
      let body := length.rest.take length.value
      let rest := length.rest.drop length.value
      if huffman = false then { ret := length.ret + length.value, value := body, rest := rest }
      else
        match huffmanDecode body with
        | none => { ret := -1, value := [], rest := rest }
        | some s => { ret := length.ret + length.value, value := s, rest := rest }

/-- The bytes of a string as they are sent. -/
def wireString (s : Str) (huffmanEncoding : Bool) : Bytes :=
  if huffmanEncoding then huffmanEncode s else s

theorem decodeString_wire {s : Str} {huffman : Bool} (hlen : (wireString s huffman).length < maxHpackInteger)
    (rest : Bytes) : decodeString (encodeInteger (if huffman then 128 else 0) 7 (wireString s huffman).length ++
        wireString s huffman ++ rest) =
      { ret := (encodeInteger (if huffman then 128 else 0) 7 (wireString s huffman).length ++
          wireString s huffman).length
        value := s
        rest := rest } := by
  obtain ⟨msb, hmsb⟩ : ∃ msb, msb = if huffman then 128 else 0 := ⟨_, rfl⟩
  have hmsb' : msb = 0 ∨ msb = 128 := by cases huffman <;> simp [hmsb]
  rw [← hmsb]
  obtain ⟨b, bs, hb, hhigh⟩ := firstByte_encodeInteger (show 7 ≤ 8 by omega) (show msb < 256 by omega)
    (wireString s huffman).length
  have hmod : msb % 2 ^ 7 = 0 := by rcases hmsb' with rfl | rfl <;> rfl
  have hint := decodeInteger_encode (show 7 ≤ 8 by omega) hmod (by omega) hlen (wireString s huffman ++ rest)
  have hpos : 0 < (encodeInteger msb 7 (wireString s huffman).length).length :=
    length_pos_iff.2 (encodeInteger_ne_nil _ _ _)
  rw [append_assoc, hb, cons_append, decodeString, ← cons_append, ← hb, hint]
  simp only
  rw [if_neg (by omega), if_neg (by simp), take_left, drop_left]
  cases huffman with
  | false =>
    have hlow : ¬ 128 ≤ b.toNat := by
      simp only [Bool.false_eq_true, if_false] at hmsb
      omega
    simp [wireString, hlow]
  | true =>
    have hup : 128 ≤ b.toNat := by
      simp only [if_true] at hmsb
      omega
    simp [wireString, hup, huffmanDecode_encode]

theorem encodeString_eq {lowercase huffman : Bool} {s : Str}
    (hlen : (wireString (if lowercase then tolower s else s) huffman).length < maxHpackInteger) :
    encodeString lowercase s huffman = encodeInteger (if huffman then 128 else 0) 7
        (wireString (if lowercase then tolower s else s) huffman).length ++
        wireString (if lowercase then tolower s else s) huffman := by
  unfold encodeString
  cases huffman with
  | false => simp [wireString]
  | true =>
    have hbits := length_huffmanEncode (if lowercase then tolower s else s)
    simp only [wireString, if_true] at hlen ⊢
    unfold maxHpackInteger at hlen
    have hsmall : huffmanBitLen (if lowercase then tolower s else s) < 4294967296 := by omega
    simp only [Nat.mod_eq_of_lt hsmall, Bool.true_eq_false, if_false]
    rw [← hbits]

/-- **Decoding gives the string encoded.** -/
theorem decodeString_encode {lowercase huffman : Bool} {s : Str}
    (hlen : (wireString (if lowercase then tolower s else s) huffman).length < maxHpackInteger)
    (rest : Bytes) : decodeString (encodeString lowercase s huffman ++ rest) =
      { ret := (encodeString lowercase s huffman).length
        value := if lowercase then tolower s else s
        rest := rest } := by
  rw [encodeString_eq hlen, decodeString_wire hlen]

theorem encodeString_ne_nil (lowercase huffman : Bool) (s : Str) : encodeString lowercase s huffman ≠ [] := by
  unfold encodeString
  split_ifs <;> simp [encodeInteger_ne_nil]

end Brpc.Hpack
