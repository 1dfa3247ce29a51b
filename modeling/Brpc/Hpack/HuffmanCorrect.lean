/-
# Decoding what was Huffman-encoded

The encoder denotes the bits it has written (`HuffmanEncoder.bits`); a string becomes the codes
of its characters and fewer than eight ones (`huffmanEncode_bits`).  The decoder stands behind
characters put out and bits on the way to the next code (`HuffmanDecoder.behind`), and accepts
nothing else (`huffmanDecode_iff`).
-/

import Brpc.Hpack.Huffman
import Mathlib.Tactic.Ring

namespace Brpc.Hpack

open List Option HuffmanEncoder
open Lib (bitsOf byteBits)

variable {e : HuffmanEncoder} {s : Str}

/-! ### The encoder -/

/-- The byte at hand has its bits at the top, and takes at least one more. -/
structure HuffmanEncoder.Wf (e : HuffmanEncoder) : Prop where
  pos : 0 < e.remainBit
  le : e.remainBit ≤ 8
  top : ∃ v < 2 ^ (8 - e.remainBit), e.partialByte = v * 2 ^ e.remainBit

/-- The bits written so far. -/
def HuffmanEncoder.bits (e : HuffmanEncoder) : List Bool :=
  byteBits e.out ++ bitsOf (8 - e.remainBit) (e.partialByte / 2 ^ e.remainBit)

theorem wf_fresh (out : List UInt8) : HuffmanEncoder.Wf { out := out } := ⟨Nat.succ_pos 7, le_rfl, 0, Nat.one_pos, rfl⟩

theorem byteBits_push {out : List UInt8} {b : ℕ} (hb : b < 256) :
    byteBits (out ++ [UInt8.ofNat b]) = byteBits out ++ bitsOf 8 b := by
  have hto : (UInt8.ofNat b).toNat = b := UInt8.toNat_ofNat_of_lt' hb
  simp [byteBits, hto]

theorem or_eq_add {v c r k : ℕ} (hk : k ≤ r) (hc : c < 2 ^ k) :
    v * 2 ^ r ||| c * 2 ^ (r - k) = (v * 2 ^ k + c) * 2 ^ (r - k) := by
  have hsplit : 2 ^ r = 2 ^ k * 2 ^ (r - k) := by rw [← pow_add]; congr 1; omega
  have hlt : c * 2 ^ (r - k) < 2 ^ r := by
    rw [hsplit]
    exact Nat.mul_lt_mul_of_pos_right hc (Nat.two_pow_pos _)
  rw [Nat.mul_comm v, ← Nat.two_pow_add_eq_or_of_lt hlt, hsplit]
  ring

theorem adding_eq {code left k : ℕ} (hk : k ≤ left) (hk8 : k ≤ 8) :
    code % 2 ^ left / 2 ^ (left - k) % 256 = code / 2 ^ (left - k) % 2 ^ k := by
  have hsplit : 2 ^ left = 2 ^ (left - k) * 2 ^ k := by rw [← pow_add]; congr 1; omega
  rw [hsplit, Nat.mod_mul_right_div_self]
  have hle : 2 ^ k ≤ 2 ^ 8 := Nat.pow_le_pow_right (by omega) hk8
  exact Nat.mod_eq_of_lt (by omega)

/-- **The loop of `Encode`** appends the bits of the code. -/
theorem addBits_spec (code n : ℕ) (he : e.Wf) {left : ℕ} (hn : left ≤ n) :
    (e.addBits code n left).Wf ∧ (e.addBits code n left).bits = e.bits ++ bitsOf left code := by
  induction n generalizing e left with
  | zero =>
    obtain rfl : left = 0 := by omega
    exact ⟨he, by simp [addBits, bitsOf]⟩
  | succ n ih =>
    rw [addBits]
    split_ifs with hleft
    · rw [hleft]
      exact ⟨he, by simp [bitsOf]⟩
    obtain ⟨hpos, hle, v, hv, hheld⟩ := he
    obtain ⟨r, hr⟩ : ∃ r, r = e.remainBit := ⟨_, rfl⟩
    obtain ⟨k, hk⟩ : ∃ k, k = min r left := ⟨_, rfl⟩
    rw [← hr] at hpos hle hv hheld
    -- the next `k` bits of the code
    obtain ⟨c, hc⟩ : ∃ c, c = code / 2 ^ (left - k) % 2 ^ k := ⟨_, rfl⟩
    have hck : c < 2 ^ k := hc ▸ Nat.mod_lt _ (Nat.two_pow_pos k)
    have hcode : bitsOf left code = bitsOf k c ++ bitsOf (left - k) code := by
      rw [hc, Lib.bitsOf_mod, ← Lib.bitsOf_add]
      congr 1
      omega
    have hbits : e.bits = byteBits e.out ++ bitsOf (8 - r) v := by
      rw [bits, ← hr, hheld, Nat.mul_div_cancel _ (Nat.two_pow_pos r)]
    have hjoin : bitsOf (8 - r + k) (v * 2 ^ k + c) = bitsOf (8 - r) v ++ bitsOf k c := Lib.bitsOf_append hck
    have hsum : v * 2 ^ k + c < 2 ^ (8 - r + k) := by
      have h₁ : (v + 1) * 2 ^ k ≤ 2 ^ (8 - r) * 2 ^ k := Nat.mul_le_mul_right _ hv
      rw [← pow_add, Nat.add_mul, Nat.one_mul] at h₁
      omega
    have hbyte : (e.partialByte ||| c * 2 ^ (r - k)) % 256 = (v * 2 ^ k + c) * 2 ^ (r - k) := by
      rw [hheld, or_eq_add (by omega) hck]
      apply Nat.mod_eq_of_lt
      have h₁ := Nat.mul_lt_mul_of_pos_right hsum (Nat.two_pow_pos (r - k))
      rwa [← pow_add, show 8 - r + k + (r - k) = 8 by omega] at h₁
    simp only [← hr, ← hk, adding_eq (show k ≤ left by omega) (show k ≤ 8 by omega), ← hc, hbyte]
    by_cases hflush : r - k = 0
    · -- the byte is full
      rw [if_pos hflush, hflush, pow_zero, Nat.mul_one]
      have hfull : 8 - r + k = 8 := by omega
      rw [hfull] at hsum hjoin
      obtain ⟨hwf, hb⟩ := @ih _ (wf_fresh (e.out ++ [UInt8.ofNat (v * 2 ^ k + c)])) (left - k) (by omega)
      refine ⟨hwf, hb.trans ?_⟩
      rw [hbits, hcode, bits, byteBits_push hsum, hjoin]
      simp [bitsOf]
    · rw [if_neg hflush]
      obtain ⟨hwf, hb⟩ := @ih { e with partialByte := (v * 2 ^ k + c) * 2 ^ (r - k), remainBit := r - k }
        ⟨by simp only; omega, by simp only; omega, v * 2 ^ k + c,
          by rwa [show 8 - (r - k) = 8 - r + k by omega], rfl⟩ (left - k) (by omega)
      refine ⟨hwf, hb.trans ?_⟩
      rw [hbits, hcode, bits]
      rw [Nat.mul_div_cancel _ (Nat.two_pow_pos _), show 8 - (r - k) = 8 - r + k by omega, hjoin]
      simp

/-- **`Encode` appends the code of the character.** -/
theorem encode_bits (he : e.Wf) (c : UInt8) : (e.encode c).Wf ∧ (e.encode c).bits = e.bits ++ (codeOf c).bits :=
  addBits_spec _ _ he le_rfl

theorem foldl_encode_bits (he : e.Wf) (s : Str) : (s.foldl encode e).Wf ∧
    (s.foldl encode e).bits = e.bits ++ s.flatMap fun c => (codeOf c).bits := by
  induction s generalizing e with
  | nil => exact ⟨he, by simp⟩
  | cons c s ih =>
    obtain ⟨hwf, hbits⟩ := encode_bits he c
    obtain ⟨hwf', hbits'⟩ := ih hwf
    refine ⟨hwf', ?_⟩
    rw [foldl_cons, hbits', hbits, flatMap_cons, append_assoc]

/-- **`EndStream` fills the byte at hand with ones.** -/
theorem endStream_bits (he : e.Wf) : ∃ pad < 8, byteBits e.endStream = e.bits ++ replicate pad true := by
  obtain ⟨hpos, hle, v, hv, hheld⟩ := he
  unfold endStream
  split_ifs with h8
  · refine ⟨0, by decide, ?_⟩
    rw [bits, h8]
    simp [bitsOf]
  · have hones : 2 ^ e.remainBit - 1 < 2 ^ e.remainBit := Nat.sub_one_lt (Nat.two_pow_pos _).ne'
    have hbyte : e.partialByte ||| (2 ^ e.remainBit - 1) = v * 2 ^ e.remainBit + (2 ^ e.remainBit - 1) := by
      rw [hheld, Nat.mul_comm, ← Nat.two_pow_add_eq_or_of_lt hones]
    have hlt : v * 2 ^ e.remainBit + (2 ^ e.remainBit - 1) < 256 := by
      have h₁ : (v + 1) * 2 ^ e.remainBit ≤ 2 ^ (8 - e.remainBit) * 2 ^ e.remainBit := Nat.mul_le_mul_right _ hv
      rw [← pow_add, Nat.add_mul, Nat.one_mul, show 8 - e.remainBit + e.remainBit = 8 by omega] at h₁
      omega
    refine ⟨e.remainBit, by omega, ?_⟩
    have hjoin := Lib.bitsOf_append (a := 8 - e.remainBit) (v := v) hones
    rw [show 8 - e.remainBit + e.remainBit = 8 by omega, Lib.bitsOf_ones] at hjoin
    rw [hbyte, byteBits_push hlt, bits, hheld, Nat.mul_div_cancel _ (Nat.two_pow_pos _), hjoin, append_assoc]

/-- **The bits of an encoded string**: the codes of its characters, and ones up to the next byte. -/
theorem huffmanEncode_bits (s : Str) : ∃ pad < 8, byteBits (huffmanEncode s) =
    (s.flatMap fun c => (codeOf c).bits) ++ replicate pad true := by
  obtain ⟨hwf, hbits⟩ := foldl_encode_bits (wf_fresh []) s
  obtain ⟨pad, hpad, hend⟩ := endStream_bits hwf
  refine ⟨pad, hpad, ?_⟩
  rw [huffmanEncode, hend, hbits]
  rfl

theorem huffmanBitLen_eq (s : Str) : huffmanBitLen s = (s.flatMap fun c => (codeOf c).bits).length := by
  have h : ∀ n, s.foldl (fun n c => n + (codeOf c).bitLen) n = n + (s.flatMap fun c => (codeOf c).bits).length := by
    induction s with
    | nil => exact fun n => rfl
    | cons c s ih =>
      intro n
      rw [foldl_cons, ih, flatMap_cons, length_append, HuffmanCode.bits, Lib.length_bitsOf, Nat.add_assoc]
  rw [huffmanBitLen, h, Nat.zero_add]

/-- **The length that `EncodeString` puts in front** is that of the encoded string. -/
theorem length_huffmanEncode (s : Str) : (huffmanEncode s).length =
    huffmanBitLen s / 8 + if huffmanBitLen s % 8 ≠ 0 then 1 else 0 := by
  obtain ⟨pad, hpad, hbits⟩ := huffmanEncode_bits s
  have hlen := congrArg length hbits
  rw [Lib.length_byteBits, length_append, length_replicate, ← huffmanBitLen_eq] at hlen
  split_ifs <;> omega

/-! ### The tree -/

/-- The node that the bits lead to, through nodes that are no leaves. -/
def HuffmanTree.sub : HuffmanTree → List Bool → HuffmanTree
  | t, [] => t
  | .node none l r, b :: bs => (if b then r else l).sub bs
  | _, _ => .null

/-- The leaves, with the bits that lead to them from `path` on. -/
def HuffmanTree.leaves : HuffmanTree → List Bool → List (List Bool × ℕ)
  | .null, _ => []
  | .node (some v) _ _, path => [(path, v)]
  | .node none l r, path => l.leaves (path ++ [false]) ++ r.leaves (path ++ [true])

theorem leaves_codes : (huffmanTree.leaves []).all (fun x => x.2 == huffmanEos ||
    decide (x.2 < 256) && (huffmanTable.getD x.2 ⟨0, 0⟩).bits == x.1) = true := by
  decide +kernel

namespace HuffmanTree

variable {t : HuffmanTree} {p : List Bool}

theorem sub_append (q : List Bool) : t.sub (p ++ q) = (t.sub p).sub q := by
  induction p generalizing t with
  | nil => rfl
  | cons b p ih =>
    rcases t with _ | ⟨_ | w, l, r⟩
    · cases q <;> rfl
    · exact ih
    · cases q <;> rfl

theorem leaf_eq : t.leaf p = (t.sub p).leaf [] := by
  induction p generalizing t with
  | nil => rfl
  | cons b p ih =>
    rcases t with _ | ⟨_ | w, l, r⟩
    · rfl
    · exact ih
    · rfl

theorem inner_eq : t.inner p = (t.sub p).inner [] := by
  induction p generalizing t with
  | nil => rfl
  | cons b p ih =>
    rcases t with _ | ⟨_ | w, l, r⟩
    · rfl
    · exact ih
    · rfl

theorem sub_of_inner (h : t.inner p = true) : ∃ l r, t.sub p = .node none l r := by
  rw [inner_eq] at h
  rcases hs : t.sub p with _ | ⟨_ | w, l, r⟩ <;> rw [hs] at h <;> cases h
  exact ⟨l, r, rfl⟩

variable {q : List Bool}

theorem inner_of_sub {b : Bool} (h : t.sub (p ++ b :: q) ≠ .null) : t.inner p = true := by
  rw [sub_append] at h
  rw [inner_eq]
  rcases hs : t.sub p with _ | ⟨_ | w, l, r⟩
  · exact absurd (by rw [hs]; rfl) h
  · rfl
  · exact absurd (by rw [hs]; rfl) h

theorem inner_of_append (h : t.inner (p ++ q) = true) : t.inner p = true := by
  cases q with
  | nil => rwa [append_nil] at h
  | cons =>
    obtain ⟨l, r, hsub⟩ := sub_of_inner h
    exact inner_of_sub (by rw [hsub]; rintro ⟨⟩)

theorem mem_leaves {v : ℕ} (h : t.leaf p = some v) : (q ++ p, v) ∈ t.leaves q := by
  induction p generalizing t q with
  | nil =>
    rcases t with _ | ⟨_ | w, l, r⟩ <;> cases h
    simp [leaves]
  | cons b p ih =>
    rcases t with _ | ⟨_ | w, l, r⟩
    · cases h
    · rw [append_cons]
      cases b with
      | false => exact mem_append_left _ (ih h)
      | true => exact mem_append_right _ (ih h)
    · cases h

end HuffmanTree

theorem leaf_bits (c : UInt8) : huffmanTree.leaf (codeOf c).bits = some c.toNat := by
  have hall := all_eq_true.1 leaf_codeOf c.toNat (mem_range.2 (UInt8.toNat_lt c))
  exact beq_iff_eq.1 hall

/-- **The leaves are the codes** of the characters, apart from EOS. -/
theorem bits_of_leaf {p : List Bool} {v : ℕ} (hv : v ≠ huffmanEos) (h : huffmanTree.leaf p = some v) :
    (codeOf (UInt8.ofNat v)).bits = p := by
  have hall := all_eq_true.1 leaves_codes _ (HuffmanTree.mem_leaves (q := []) h)
  simp only [nil_append, hv, beq_iff_eq, Bool.or_eq_true, Bool.and_eq_true, decide_eq_true_iff, false_or] at hall
  rw [codeOf, UInt8.toNat_ofNat_of_lt' hall.1, hall.2]

/-! ### The decoder -/

/-- The decoder after the characters `out` and the bits `path`. -/
def HuffmanDecoder.behind (out : Str) (path : List Bool) : HuffmanDecoder :=
  { out := out, curNode := huffmanTree.sub path, curDepth := path.length, padding := path.all id }

open HuffmanDecoder (behind)

variable {out : Str} {p bits : List Bool} {b : Bool} {d : HuffmanDecoder}

/-- **One bit**: one on the way, or the last of a code. -/
theorem decodeBit_behind (h : huffmanTree.inner p = true) : (behind out p).decodeBit b =
    if huffmanTree.inner (p ++ [b]) then some (behind out (p ++ [b]))
    else (huffmanTree.leaf (p ++ [b])).bind fun v =>
      if v = huffmanEos then none else some (behind (out ++ [UInt8.ofNat v]) []) := by
  obtain ⟨l, r, hsub⟩ := HuffmanTree.sub_of_inner h
  have hnext : huffmanTree.sub (p ++ [b]) = if b then r else l := by
    rw [HuffmanTree.sub_append, hsub]
    rfl
  rw [HuffmanTree.leaf_eq, HuffmanTree.inner_eq]
  simp only [hnext, HuffmanDecoder.decodeBit, behind, hsub]
  rcases (if b then r else l) with _ | ⟨_ | v, l', r'⟩ <;>
    simp [HuffmanTree.leaf, HuffmanTree.inner, HuffmanTree.sub]

theorem decodeBits_inner (h : huffmanTree.inner (p ++ bits) = true) :
    bits.foldlM HuffmanDecoder.decodeBit (behind out p) = some (behind out (p ++ bits)) := by
  induction bits generalizing p with
  | nil => rw [append_nil]; rfl
  | cons b bits ih =>
    have hp := HuffmanTree.inner_of_append h
    rw [append_cons] at h ⊢
    rw [foldlM_cons, decodeBit_behind hp, if_pos (HuffmanTree.inner_of_append h)]
    exact ih h

theorem inner_ones_le {k : ℕ} (hk : k ≤ 7) : huffmanTree.inner (replicate k true) = true := by
  have hall := inner_ones
  rw [show 7 = k + (7 - k) by omega, replicate_add] at hall
  exact HuffmanTree.inner_of_append hall

/-- **A code** puts its character out. -/
theorem decodeBits_code (c : UInt8) (out : Str) :
    (codeOf c).bits.foldlM HuffmanDecoder.decodeBit (behind out []) = some (behind (out ++ [c]) []) := by
  have hleaf := leaf_bits c
  have heos : c.toNat ≠ huffmanEos := by
    have := UInt8.toNat_lt c
    unfold huffmanEos
    omega
  rcases eq_nil_or_concat' (codeOf c).bits with hnil | ⟨init, b, hcode⟩
  · rw [hnil, leaf_root] at hleaf
    cases hleaf
  · rw [hcode] at hleaf ⊢
    rcases hsub : huffmanTree.sub (init ++ [b]) with _ | ⟨_ | v, l, r⟩ <;>
      rw [HuffmanTree.leaf_eq, hsub] at hleaf <;> cases hleaf
    have hinit := HuffmanTree.inner_of_sub (t := huffmanTree) (p := init) (by rw [hsub]; rintro ⟨⟩)
    rw [foldlM_append, decodeBits_inner (p := []) hinit, bind_eq_bind, bind_some, foldlM_cons, nil_append,
      decodeBit_behind hinit, HuffmanTree.inner_eq, HuffmanTree.leaf_eq, hsub]
    simp [HuffmanTree.leaf, HuffmanTree.inner, heos]

theorem decodeBits_codes (s out : Str) :
    (s.flatMap fun c => (codeOf c).bits).foldlM HuffmanDecoder.decodeBit (behind out []) =
      some (behind (out ++ s) []) := by
  induction s generalizing out with
  | nil => rw [append_nil]; rfl
  | cons c s ih =>
    rw [flatMap_cons, foldlM_append, decodeBits_code, bind_eq_bind, bind_some, ih, append_assoc, singleton_append]

/-- **What was decoded** are codes, and bits on the way to another one. -/
theorem decodeBits_sound (h : huffmanTree.inner p = true)
    (hd : bits.foldlM HuffmanDecoder.decodeBit (behind out p) = some d) :
    ∃ s p', p ++ bits = (s.flatMap fun c => (codeOf c).bits) ++ p' ∧ d = behind (out ++ s) p' := by
  induction bits generalizing out p with
  | nil =>
    cases hd
    exact ⟨[], p, by simp, by rw [append_nil]⟩
  | cons b bits ih =>
    rw [foldlM_cons, decodeBit_behind h] at hd
    obtain ⟨d₁, hd₁, hd⟩ := bind_eq_some_iff.1 hd
    rw [append_cons]
    split_ifs at hd₁ with hinner
    · cases hd₁
      exact ih hinner hd
    · obtain ⟨v, hv, hd₁⟩ := bind_eq_some_iff.1 hd₁
      split_ifs at hd₁ with heos
      cases hd₁
      obtain ⟨s, p', hbits, rfl⟩ := ih (p := []) (inner_ones_le (Nat.zero_le 7)) hd
      refine ⟨UInt8.ofNat v :: s, p', ?_, by rw [append_assoc, singleton_append]⟩
      rw [flatMap_cons, bits_of_leaf heos hv, append_assoc _ _ p', ← hbits, nil_append]

theorem endStream_behind : (behind out p).endStream = true ↔ ∃ pad ≤ 7, p = replicate pad true := by
  have hend : (behind out p).endStream = true ↔ p.length = 0 ∨ p.length ≤ 7 ∧ ∀ b ∈ p, b = true := by
    rw [HuffmanDecoder.endStream, Bool.or_eq_true, Bool.and_eq_true, beq_iff_eq, decide_eq_true_iff]
    simp [behind]
  rw [hend]
  constructor
  · rintro (hnil | ⟨hlen, hones⟩)
    · exact ⟨0, Nat.zero_le 7, length_eq_zero_iff.1 hnil⟩
    · exact ⟨p.length, hlen, eq_replicate_of_mem hones⟩
  · rintro ⟨pad, hpad, rfl⟩
    exact .inr ⟨by rwa [length_replicate], fun b hb => eq_of_mem_replicate hb⟩

/-- **What the decoder accepts**: codes of characters, and at most seven ones. -/
theorem huffmanDecode_iff {bs : List UInt8} {s : Str} : huffmanDecode bs = some s ↔
    ∃ pad ≤ 7, byteBits bs = (s.flatMap fun c => (codeOf c).bits) ++ replicate pad true := by
  rw [huffmanDecode, HuffmanDecoder.decode, show ({} : HuffmanDecoder) = behind [] [] from rfl]
  constructor
  · intro h
    obtain ⟨d, hd, h⟩ := bind_eq_some_iff.1 h
    obtain ⟨s', p, hbits, rfl⟩ := decodeBits_sound (inner_ones_le (Nat.zero_le 7)) hd
    split_ifs at h with hend
    cases h
    obtain ⟨pad, hpad, rfl⟩ := endStream_behind.1 hend
    exact ⟨pad, hpad, hbits⟩
  · rintro ⟨pad, hpad, hbits⟩
    rw [hbits, foldlM_append, decodeBits_codes, bind_eq_bind, bind_some,
      decodeBits_inner (p := []) (inner_ones_le hpad), bind_some]
    exact if_pos (endStream_behind.2 ⟨pad, hpad, rfl⟩)

/-- **Decoding gives the string encoded.** -/
theorem huffmanDecode_encode (s : Str) : huffmanDecode (huffmanEncode s) = some s := by
  obtain ⟨pad, hpad, hbits⟩ := huffmanEncode_bits s
  exact huffmanDecode_iff.2 ⟨pad, Nat.lt_succ_iff.1 hpad, hbits⟩

end Brpc.Hpack
