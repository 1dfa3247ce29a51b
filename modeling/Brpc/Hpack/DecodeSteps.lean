/-
# `Decode`, one representation at a time

`Decode` goes through size updates up to a header (`decode_sizeUpdate`).  More bytes behind a
complete header change nothing (`decode_append`); cut short, an index gives 0, but a literal
header gives -1 (`decode_cut`).
-/

import Brpc.Hpack.Packer
import Brpc.Lib.Loop

namespace Brpc.Hpack

open List HPacker
open HPacker (decodeWithin)

/-- The first representation is a size update. -/
def IsSizeUpdate : Bytes → Prop
  | [] => False
  | firstByte :: _ => 2 ≤ firstByte.toNat / 16 ∧ firstByte.toNat / 16 < 4

instance (bs : Bytes) : Decidable (IsSizeUpdate bs) :=
  match bs with
  | [] => inferInstanceAs (Decidable False)
  | _ :: _ => inferInstanceAs (Decidable (_ ∧ _))

/-- The first representation is an index. -/
def IsIndexed : Bytes → Prop
  | [] => False
  | firstByte :: _ => 8 ≤ firstByte.toNat / 16

instance (bs : Bytes) : Decidable (IsIndexed bs) :=
  match bs with
  | [] => inferInstanceAs (Decidable False)
  | _ :: _ => inferInstanceAs (Decidable (_ ≤ _))

variable {p : HPacker} {a a' : Bytes}

/-! ### Headers -/

theorem decode_cases (p : HPacker) {a : Bytes} (ha : a ≠ []) (hsize : ¬ IsSizeUpdate a) :
    IsIndexed a ∧ skipRepresentation a = skipInteger 7 a ∧
        (∀ b, p.decode (a ++ b) = some (p, p.decodeIndexed (a ++ b))) ∨
      ¬ IsIndexed a ∧ skipRepresentation a = skipLiteral 6 a ∧
        (∀ b, p.decode (a ++ b) = p.decodeIncremental (a ++ b)) ∨
      ¬ IsIndexed a ∧ skipRepresentation a = skipLiteral 4 a ∧
        (∀ b, p.decode (a ++ b) = some (p, p.decodeWithKnownPrefix 4 (a ++ b))) := by
  cases a with
  | nil => exact absurd rfl ha
  | cons x =>
    have hno : ¬ (2 ≤ x.toNat / 16 ∧ x.toNat / 16 < 4) := hsize
    simp only [IsIndexed, cons_append, decode, decodeWithin, skipRepresentation]
    by_cases h8 : 8 ≤ x.toNat / 16
    · exact .inl ⟨h8, if_pos h8, fun b => if_pos h8⟩
    · by_cases h4 : 4 ≤ x.toNat / 16
      · simp only [if_neg h8, if_pos h4]
        exact .inr (.inl ⟨h8, trivial, fun _ => trivial⟩)
      · have h2 : ¬ 2 ≤ x.toNat / 16 := by omega
        simp only [if_neg h8, if_neg h4, if_neg h2]
        exact .inr (.inr ⟨h8, trivial, fun _ => trivial⟩)

theorem skipRepresentation_ne_nil (h : skipRepresentation a = some a') : a ≠ [] := by
  rintro rfl
  cases h

/-- **One header**: `Decode` reads it whatever is behind.  If it is not complete the tables stay as they are: a
part of an index gives 0, a part of a literal header -1. -/
theorem decode_header (p : HPacker) (ha : a ≠ []) (hsize : ¬ IsSizeUpdate a) :
    (∃ r, p.decode a = some (p, r) ∧ ¬ 0 < r.ret ∧ skipRepresentation a = none ∧
        ((r.ret = if IsIndexed a then 0 else -1) ∨ ∀ b, ∀ x ∈ p.decode (a ++ b), ¬ 0 < x.2.ret)) ∨
      ∃ a' o r, skipRepresentation a = some a' ∧ ReadTo r a' ∧ (0 < r.ret → r.From a) ∧
        ∀ b, p.decode (a ++ b) = Option.map (fun q => (q, r.behind b)) o := by
  rcases decode_cases p ha hsize with ⟨hi, hs, hd⟩ | ⟨hi, hs, hd⟩ | ⟨hi, hs, hd⟩ <;> rw [hs] <;>
    have hda := hd [] <;> rw [append_nil] at hda
  · by_cases hint : (decodeInteger 7 a).ret ≤ 0
    · have hfail : p.decodeIndexed a = failed (decodeInteger 7 a).ret (decodeInteger 7 a).rest := if_pos hint
      refine .inl ⟨_, hda, by rw [hfail]; exact not_lt.2 hint, if_neg (not_lt.2 hint), ?_⟩
      rw [hfail, if_pos hi]
      refine or_iff_not_imp_left.2 fun hzero b x hx => ?_
      -- what makes no sense does not with more bytes either
      rw [hd, decodeIndexed, decodeInteger_append hzero] at hx
      cases hx
      rw [if_pos (show ((decodeInteger 7 a).behind b).ret ≤ 0 from hint)]
      exact not_lt.2 hint
    · have hskip := skipInteger_eq_some.2 ⟨not_le.1 hint, rfl⟩
      obtain ⟨r, hto, hfrom, hr⟩ := decodeIndexed_reads (p := p) hskip
      exact .inr ⟨_, some p, r, hskip, hto, hfrom, fun b => (hd b).trans (congrArg (fun r => some (p, r)) (hr b))⟩
  · rcases decodeWithKnownPrefix_skips p 6 a with ⟨hskip, hret⟩ | ⟨a', hskip, r, hto, hfrom, hr⟩
    · simp only [append_nil] at hret
      refine .inl ⟨failed (-1) (p.decodeWithKnownPrefix 6 a).rest, ?_, not_pos_neg_one, hskip, .inl (if_neg hi).symm⟩
      rw [hda]
      exact if_pos (by rw [hret]; decide)
    · by_cases hret : r.ret ≤ 0
      · refine .inr ⟨a', some p, failed (-1) r.rest, hskip, .inr rfl, fun h => absurd h not_pos_neg_one, fun b => ?_⟩
        simp only [hd, decodeIncremental, hr, Read.behind_ret, if_pos hret]
        rfl
      · refine .inr ⟨a', (p.decodeTable.addHeader r.value).map fun t => { p with decodeTable := t }, r, hskip,
          hto, hfrom, fun b => ?_⟩
        simp only [hd, decodeIncremental, hr, Read.behind_ret, if_neg hret, Option.map_map]
        rfl
  · rcases decodeWithKnownPrefix_skips p 4 a with ⟨hskip, hret⟩ | ⟨a', hskip, r, hto, hfrom, hr⟩
    · simp only [append_nil] at hret
      exact .inl ⟨_, hda, by rw [hret]; decide, hskip, .inl (by rw [hret, if_neg hi])⟩
    · exact .inr ⟨a', some p, r, hskip, hto, hfrom, fun b => (hd b).trans (congrArg (fun r => some (p, r)) (hr b))⟩

/-- **With more bytes behind a complete header** `Decode` returns the same and leaves them. -/
theorem decode_append (h : skipRepresentation a = some a') (hsize : ¬ IsSizeUpdate a) (b : Bytes) :
    p.decode (a ++ b) = (p.decode a).map (fun x => (x.1, x.2.behind b)) ∧ ∀ x ∈ p.decode a, ReadTo x.2 a' := by
  rcases decode_header p (skipRepresentation_ne_nil h) hsize with ⟨-, -, -, hno, -⟩ | ⟨c, o, r, hc, hto, -, hd⟩
  · rw [h] at hno
    cases hno
  · obtain rfl := Option.some.inj (h.symm.trans hc)
    have ha := hd []
    simp only [append_nil, Read.behind_nil] at ha
    rw [hd, ha, Option.map_map]
    refine ⟨rfl, fun x hx => ?_⟩
    obtain ⟨q, -, rfl⟩ := Option.map_eq_some_iff.1 hx
    exact hto

/-- **A header that was read** from its bytes. -/
theorem decode_from (hsize : ¬ IsSizeUpdate a) {x : HPacker × Read Header}
    (hx : p.decode a = some x) (hret : 0 < x.2.ret) : x.2.From a := by
  have ha : a ≠ [] := by
    rintro rfl
    cases hx
    exact absurd hret (lt_irrefl 0)
  rcases decode_header p ha hsize with ⟨r, hr, hneg, -⟩ | ⟨c, o, r, -, -, hfrom, hd⟩
  · cases hr.symm.trans hx
    exact absurd hret hneg
  · have hda := hd []
    simp only [append_nil, Read.behind_nil, hx] at hda
    obtain ⟨q, -, rfl⟩ := Option.map_eq_some_iff.1 hda.symm
    exact hfrom hret

/-! ### Size updates -/

theorem decodeWithin_eq {n : ℕ} (hn : a.length ≤ n) : decodeWithin n p a = p.decode a := by
  refine Lib.turns_eq (fun n m p => ?_) (fun n m p x a ih => ?_) hn le_rfl
  · rw [decodeWithin, decodeWithin]
  · rw [decodeWithin, decodeWithin]
    by_cases hret : (decodeInteger 5 (x :: a)).ret ≤ 0
    · simp only [if_pos hret]
    · have hlt := (decodeInteger_from (not_le.1 hret)).length_lt (not_le.1 hret)
      simp only [ih _ (decodeInteger 5 (x :: a)).rest (Nat.lt_succ_iff.1 hlt)]

theorem cons_of_sizeUpdate (hsize : IsSizeUpdate a) : ∃ x b, a = x :: b ∧ 2 ≤ x.toNat / 16 ∧ x.toNat / 16 < 4 := by
  cases a with
  | nil => exact hsize.elim
  | cons x b => exact ⟨x, b, rfl, hsize⟩

/-- **A size update.** -/
theorem decode_sizeUpdate (hsize : IsSizeUpdate a) (hret : 0 < (decodeInteger 5 a).ret) :
    p.decode a = if defaultHeaderTableSize < (decodeInteger 5 a).value then
        some (p, failed (-1) (decodeInteger 5 a).rest)
      else (p.decodeTable.resetMaxSize (decodeInteger 5 a).value).bind fun t =>
        decode { p with decodeTable := t } (decodeInteger 5 a).rest := by
  obtain ⟨x, a, rfl, h2, h4⟩ := cons_of_sizeUpdate hsize
  have hlt := (decodeInteger_from hret).length_lt hret
  rw [decode, length_cons, decodeWithin]
  rw [if_neg (by omega), if_neg (by omega), if_pos h2, if_neg (by omega)]
  simp only [decodeWithin_eq (Nat.lt_succ_iff.1 hlt)]

theorem skipRepresentation_sizeUpdate (hsize : IsSizeUpdate a) : skipRepresentation a = skipInteger 5 a := by
  obtain ⟨x, a, rfl, h2, h4⟩ := cons_of_sizeUpdate hsize
  rw [skipRepresentation, if_neg (by omega), if_neg (by omega), if_pos h2]

theorem isSizeUpdate_append (ha : a ≠ []) (b : Bytes) : IsSizeUpdate (a ++ b) ↔ IsSizeUpdate a := by
  cases a with
  | nil => exact absurd rfl ha
  | cons => exact Iff.rfl

theorem decode_sizeUpdate_fail (hsize : IsSizeUpdate a) (hret : ¬ 0 < (decodeInteger 5 a).ret) :
    p.decode a = some (p, failed (decodeInteger 5 a).ret (decodeInteger 5 a).rest) := by
  obtain ⟨x, a, rfl, h2, h4⟩ := cons_of_sizeUpdate hsize
  rw [decode, decodeWithin]
  rw [if_neg (by omega), if_neg (by omega), if_pos h2, if_pos (not_lt.1 hret)]

section

variable {x : HPacker × Read Header} (hx : p.decode a = some x) (hret : 0 < x.2.ret)
include hx hret

/-- **A header behind a size update** is read from what is left. -/
theorem decode_behind_update (hsize : IsSizeUpdate a) :
    (decodeInteger 5 a).rest.length < a.length ∧ ∃ q, HPacker.decode q (decodeInteger 5 a).rest = some x := by
  by_cases hint : 0 < (decodeInteger 5 a).ret
  · refine ⟨(decodeInteger_from hint).length_lt hint, ?_⟩
    rw [decode_sizeUpdate hsize hint] at hx
    split_ifs at hx
    · cases hx
      exact absurd hret not_pos_neg_one
    · obtain ⟨t, -, hx⟩ := Option.bind_eq_some_iff.1 hx
      exact ⟨_, hx⟩
  · rw [decode_sizeUpdate_fail hsize hint] at hx
    cases hx
    exact absurd hret hint

theorem decode_le : (x.2.rest.length : ℤ) + x.2.ret ≤ a.length := by
  induction hn : a.length using Nat.strong_induction_on generalizing p a with
  | _ n ih =>
    subst hn
    by_cases hsize : IsSizeUpdate a
    · obtain ⟨hlt, q, hq⟩ := decode_behind_update hx hret hsize
      have := ih _ hlt hq rfl
      omega
    · exact (decode_from hsize hx hret).length.le

theorem decode_rest : x.2.rest.length < a.length := by
  have := decode_le hx hret
  omega

end

/-- **A header cut short**: a part of an index gives 0, a part of a literal header -1; the tables
stay as they are. -/
theorem decode_cut {b : Bytes} (hsize : ¬ IsSizeUpdate (a ++ b)) {x : HPacker × Read Header}
    (hx : p.decode (a ++ b) = some x) (hret : 0 < x.2.ret) (hall : x.2.rest = []) (ha : a ≠ []) (hb : b ≠ []) :
    ∃ r, p.decode a = some (p, r) ∧ r.ret = if IsIndexed a then 0 else -1 := by
  have hsize' : ¬ IsSizeUpdate a := fun h => hsize ((isSizeUpdate_append ha b).2 h)
  rcases decode_header p ha hsize' with ⟨r, hr, -, -, hif⟩ | ⟨a', o, r, -, -, -, hd⟩
  · exact ⟨r, hr, hif.resolve_right fun hc => hc b x hx hret⟩
  · -- there is no complete header in the first part
    rw [hd] at hx
    obtain ⟨y, -, rfl⟩ := Option.map_eq_some_iff.1 hx
    rw [Read.behind_rest, append_eq_nil_iff] at hall
    exact absurd hall.2 hb

/-! ## Header by header from an `IOBuf`

`HPacker::Decode(IOBuf*)` in `brpc/details/hpack.h` pops as many bytes as `Decode` returned.  A size
update in front of a header is read but not counted, so that too few are popped.
-/

/-- `Decode(IOBuf*)`; what is left is the buffer. -/
def HPacker.decodeBuf (p : HPacker) (source : Bytes) : Option (HPacker × Read Header) :=
  (p.decode source).map fun x =>
    (x.1, { x.2 with rest := if 0 < x.2.ret then source.drop x.2.ret.toNat else source })

/-- At most `n` headers, decoded one after the other up to the first that cannot be read. -/
def headersBy (dec : HPacker → Bytes → Option (HPacker × Read Header)) :
    ℕ → HPacker → Bytes → Option (HPacker × List Header)
  | 0, p, _ => some (p, [])
  | n + 1, p, a => (dec p a).bind fun x =>
      if 0 < x.2.ret then (headersBy dec n x.1 x.2.rest).map fun r => (r.1, x.2.value :: r.2) else some (x.1, [])

/-- None of the first `n` headers has a size update in front of it. -/
def HeadersOnly : ℕ → HPacker → Bytes → Prop
  | 0, _, _ => True
  | n + 1, p, a => ¬ IsSizeUpdate a ∧ ∀ x ∈ p.decode a, 0 < x.2.ret → HeadersOnly n x.1 x.2.rest

variable {p : HPacker} {a : Bytes} {x : HPacker × Read Header}

theorem Read.From.drop {r : Read Header} (h : r.From a) : a.drop r.ret.toNat = r.rest := by
  obtain ⟨used, rfl, hlen⟩ := h
  rw [← hlen, Int.toNat_natCast, drop_left]

theorem decode_from_iff (hx : p.decode a = some x) (hret : 0 < x.2.ret) : x.2.From a ↔ ¬ IsSizeUpdate a := by
  refine ⟨fun hfrom hsize => ?_, fun hsize => decode_from hsize hx hret⟩
  -- the bytes of the size update were read too
  obtain ⟨hlt, q, hq⟩ := decode_behind_update hx hret hsize
  have hle := decode_le hq hret
  have hall := hfrom.length
  omega

theorem decodeBuf_iff (hx : p.decode a = some x) (hret : 0 < x.2.ret) : p.decodeBuf a = some x ↔ ¬ IsSizeUpdate a := by
  rw [← decode_from_iff hx hret, decodeBuf, hx, Option.map_some, if_pos hret]
  constructor
  · intro h
    have hrest : a.drop x.2.ret.toNat = x.2.rest := congrArg (fun y => y.2.rest) (Option.some.inj h)
    have hle := decode_le hx hret
    refine ⟨a.take x.2.ret.toNat, by rw [← hrest, take_append_drop], ?_⟩
    rw [length_take, Nat.min_eq_left (by omega), Int.toNat_of_nonneg hret.le]
  · intro h
    rw [h.drop]

theorem headersBy_decodeBuf (n : ℕ) (h : HeadersOnly n p a) :
    headersBy decodeBuf n p a = headersBy decode n p a := by
  induction n generalizing p a with
  | zero => rfl
  | succ n ih =>
    obtain ⟨hsize, hnext⟩ := h
    rw [headersBy, headersBy, decodeBuf]
    cases hx : p.decode a with
    | none => rfl
    | some x =>
      rw [Option.map_some, Option.bind_some, Option.bind_some]
      by_cases hret : 0 < x.2.ret
      · simp only [if_pos hret, (decode_from hsize hx hret).drop, ih (hnext x hx hret)]
      · simp only [if_neg hret]

/-- **What `Decode` reports** are the bytes it has read, if and only if there is no size update in front of the
header; the same bytes are then popped from the buffer. -/
theorem decode_reports_consumed (p : HPacker) (a : Bytes) : (∀ x, p.decode a = some x → 0 < x.2.ret →
      (x.2.From a ↔ ¬ IsSizeUpdate a) ∧ (p.decodeBuf a = some x ↔ ¬ IsSizeUpdate a)) ∧
    ∀ n, HeadersOnly n p a → headersBy decodeBuf n p a = headersBy decode n p a :=
  ⟨fun _ hx hret => ⟨decode_from_iff hx hret, decodeBuf_iff hx hret⟩, headersBy_decodeBuf⟩

/-- The index of a header of the static table. -/
theorem index_consumed : ∃ p x, init 4096 = some p ∧ p.decode [0x82] = some x ∧ x.2.From [0x82] ∧
    p.decodeBuf [0x82] = some x ∧ headersBy decodeBuf 1 p [0x82] = headersBy decode 1 p [0x82] := by
  have hone : ((init 4096).bind fun p => p.decode [0x82]).map (fun x => x.2.ret) = some 1 := by
    decide +kernel
  obtain ⟨x, hx, hret⟩ := Option.map_eq_some_iff.1 hone
  obtain ⟨p, hp, hx⟩ := Option.bind_eq_some_iff.1 hx
  have hsize : ¬ IsSizeUpdate [0x82] := by decide
  obtain ⟨hread, hall⟩ := decode_reports_consumed p [0x82]
  obtain ⟨hfrom, hbuf⟩ := hread x hx (by omega)
  exact ⟨p, x, hp, hx, hfrom.2 hsize, hbuf.2 hsize, hall 1 ⟨hsize, fun _ _ _ => trivial⟩⟩

/-- **A size update is not counted**: two bytes are read, a size update and an index, but 1 is returned, and the
second byte stays in the buffer, to be decoded again. -/
theorem size_update_not_counted :
    ((init 4096).bind fun p => (p.decode [0x20, 0x82]).map fun x => (x.2.ret, x.2.rest)) = some (1, []) ∧
    ((init 4096).bind fun p => (p.decodeBuf [0x20, 0x82]).map fun x => (x.2.ret, x.2.rest)) = some (1, [0x82]) ∧
    ((init 4096).bind fun p => (headersBy decode 2 p [0x20, 0x82]).map fun r => r.2.length) = some 1 ∧
    ((init 4096).bind fun p => (headersBy decodeBuf 2 p [0x20, 0x82]).map fun r => r.2.length) = some 2 := by
  decide +kernel

end Brpc.Hpack
