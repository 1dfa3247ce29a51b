/-
# Numbers in a growing buffer

More data behind the CRLF of a header changes neither the value of its number nor that it is
refused (`readNumber_append`), except that `strtoll` skips the CRLF behind a header without a
number as white space.
-/

import Brpc.Redis.Reply
import Mathlib.Data.List.TakeWhile

namespace Brpc.Redis

open List Option
open Messenger (Bytes)

/-! ## CRLF -/

variable {p : Bytes} {pos : ℕ}

/-- A CRLF is found in the front part exactly if it is found in the whole and stands there. -/
theorem findCrlf_eq_some_iff (q : Bytes) :
    findCrlf p = some pos ↔ findCrlf (p ++ q) = some pos ∧ pos + 2 ≤ p.length := by
  induction p generalizing pos with
  | nil => simp [findCrlf]
  | cons b bs ih =>
    cases bs with
    | nil => simp [findCrlf]
    | cons c =>
      have hfind : ∀ l, findCrlf (b :: c :: l) =
          if b = 13 ∧ some c = some 10 then some 0 else (findCrlf (c :: l)).map (· + 1) := fun _ => rfl
      rw [cons_append, cons_append, hfind, hfind, ← cons_append]
      split_ifs with hcrlf
      · simp only [length_cons, Option.some.injEq]
        omega
      · rw [map_eq_some_iff, map_eq_some_iff, length_cons]
        constructor
        · rintro ⟨pos', hpos', rfl⟩
          obtain ⟨hall, hlen⟩ := ih.1 hpos'
          exact ⟨⟨pos', hall, rfl⟩, by omega⟩
        · rintro ⟨⟨pos', hpos', rfl⟩, hlen⟩
          exact ⟨pos', ih.2 ⟨hpos', by omega⟩, rfl⟩

theorem findCrlf_append (h : findCrlf p = some pos) (q : Bytes) : findCrlf (p ++ q) = some pos :=
  ((findCrlf_eq_some_iff q).1 h).1

theorem findCrlf_lt (h : findCrlf p = some pos) : pos + 2 ≤ p.length := ((findCrlf_eq_some_iff []).1 h).2

variable {q : Bytes}

theorem findCrlf_pos {fc : UInt8} (hfc : fc ≠ 13) (h : findCrlf (fc :: p) = some pos) : 0 < pos := by
  simp only [findCrlf] at h
  rw [if_neg (fun hcrlf => hfc hcrlf.1), map_eq_some_iff] at h
  obtain ⟨pos', -, rfl⟩ := h
  exact Nat.succ_pos _

/-! ## Digits, signs and white space -/

theorem takeWhile_append_of_lt {f : UInt8 → Bool}
    (h : (p.takeWhile f).length < p.length) (q : Bytes) : (p ++ q).takeWhile f = p.takeWhile f := by
  rw [takeWhile_append, if_neg (by omega)]

theorem takeWhile_of_append_lt {f : UInt8 → Bool} (h : ((p ++ q).takeWhile f).length < p.length) :
    (p ++ q).takeWhile f = p.takeWhile f := by
  rw [takeWhile_append] at h ⊢
  by_cases hall : (p.takeWhile f).length = p.length
  · rw [if_pos hall, length_append] at h
    omega
  · rw [if_neg hall]

/-- A scanner that stops before the end of its input has not looked at what follows: `k`
characters have been scanned before. -/
structure Local (k : ℕ) (g : Bytes → ℤ × ℕ) : Prop where
  of_append : ∀ p q, (g (p ++ q)).2 < k + p.length → g (p ++ q) = g p
  append : ∀ p q, 0 < (g p).2 → (g p).2 < k + p.length → g (p ++ q) = g p

theorem signedDigits_congr {neg : Bool} {k : ℕ} (h : p.takeWhile isDigit = q.takeWhile isDigit) :
    signedDigits neg k p = signedDigits neg k q := by
  unfold signedDigits
  rw [h]

theorem signedDigits_snd (neg : Bool) (k : ℕ) (p : Bytes) : (signedDigits neg k p).2
      = if p.takeWhile isDigit = [] then 0 else k + (p.takeWhile isDigit).length := by
  unfold signedDigits
  cases p.takeWhile isDigit with
  | nil | cons => rfl

theorem signedDigits_local (neg : Bool) (k : ℕ) : Local k (signedDigits neg k) where
  of_append p q h := by
    apply signedDigits_congr
    rw [signedDigits_snd] at h
    split_ifs at h with hnil
    · rw [takeWhile_append] at hnil ⊢
      by_cases hall : (p.takeWhile isDigit).length = p.length
      · rw [if_pos hall] at hnil
        rw [if_pos hall, hnil, (append_eq_nil_iff.1 hnil).1, takeWhile_nil]
      · rw [if_neg hall]
    · exact takeWhile_of_append_lt (by omega)
  append p q hpos h := by
    apply signedDigits_congr
    rw [signedDigits_snd] at hpos h
    split_ifs at h hpos with hnil
    · exact absurd hpos (Nat.lt_irrefl 0)
    · exact takeWhile_append_of_lt (by omega) q

theorem signed_of_ne {b : UInt8} (hminus : b ≠ 45) (hplus : b ≠ 43) (bs : Bytes) :
    signed (b :: bs) = signedDigits false 0 (b :: bs) := by
  unfold signed
  split
  next heq =>
    exact absurd (List.cons.inj heq).1 hminus
  next heq =>
    exact absurd (List.cons.inj heq).1 hplus
  · rfl

theorem signed_cons (b : UInt8) : (∃ neg, ∀ bs, signed (b :: bs) = signedDigits neg 1 bs)
      ∨ ∀ bs, signed (b :: bs) = signedDigits false 0 (b :: bs) := by
  by_cases hminus : b = 45
  · exact .inl ⟨true, fun bs => by rw [hminus, signed]⟩
  · by_cases hplus : b = 43
    · exact .inl ⟨false, fun bs => by rw [hplus, signed]⟩
    · exact .inr (signed_of_ne hminus hplus)

theorem signed_local : Local 0 signed where
  of_append p q h := by
    cases p with
    | nil => exact absurd h (Nat.not_lt_zero _)
    | cons b bs =>
      rw [length_cons] at h
      rcases signed_cons b with ⟨neg, hb⟩ | hb
      · rw [cons_append, hb] at h
        rw [cons_append, hb, hb]
        exact (signedDigits_local neg 1).of_append bs q (by omega)
      · rw [cons_append, hb] at h
        rw [cons_append, hb, hb]
        exact (signedDigits_local false 0).of_append (b :: bs) q h
  append p q hpos h := by
    cases p with
    | nil => exact absurd h (Nat.not_lt_zero _)
    | cons b bs =>
      rw [length_cons] at h
      rcases signed_cons b with ⟨neg, hb⟩ | hb
      · rw [hb] at hpos h
        rw [cons_append, hb, hb]
        exact (signedDigits_local neg 1).append bs q hpos (by omega)
      · rw [hb] at hpos h
        rw [cons_append, hb, hb]
        exact (signedDigits_local false 0).append (b :: bs) q hpos h

theorem length_space (p : Bytes) : (p.takeWhile isSpace).length + (p.dropWhile isSpace).length = p.length := by
  rw [← length_append, takeWhile_append_dropWhile]

theorem dropWhile_append_of_ne (hne : p.dropWhile isSpace ≠ []) (q : Bytes) :
    (p ++ q).dropWhile isSpace = p.dropWhile isSpace ++ q := by
  rw [dropWhile_append, if_neg (by rwa [List.isEmpty_iff])]

theorem strtoll_append_of_ne (hne : p.dropWhile isSpace ≠ []) (q : Bytes)
    (h : signed (p.dropWhile isSpace ++ q) = signed (p.dropWhile isSpace)) : strtoll (p ++ q) = strtoll p := by
  have hlen := length_space p
  have hpos := length_pos_of_ne_nil hne
  unfold strtoll
  rw [dropWhile_append_of_ne hne, h, takeWhile_append_of_lt (by omega) q]

theorem strtoll_local : Local 0 strtoll where
  of_append p q h := by
    have hlen := length_space p
    by_cases hne : p.dropWhile isSpace = []
    · -- A number behind the white space would end behind `p`.
      have htake : (p.takeWhile isSpace).length = p.length := by
        rw [hne, length_nil] at hlen
        exact hlen
      have hp : strtoll p = (0, 0) := by
        unfold strtoll
        rw [hne]
        rfl
      rw [hp]
      unfold strtoll at h ⊢
      rw [takeWhile_append, if_pos htake, length_append] at h
      by_cases hzero : (signed ((p ++ q).dropWhile isSpace)).2 = 0
      · rw [if_pos hzero]
      · rw [if_neg hzero] at h
        omega
    · have hpos := length_pos_of_ne_nil hne
      refine strtoll_append_of_ne hne q (signed_local.of_append _ q ?_)
      unfold strtoll at h
      rw [dropWhile_append_of_ne hne, takeWhile_append_of_lt (by omega) q] at h
      split_ifs at h with hzero
      · omega
      · omega
  append p q hpos h := by
    have hlen := length_space p
    unfold strtoll at hpos h
    split_ifs at h hpos with hzero
    · exact absurd hpos (Nat.lt_irrefl 0)
    · have hne : p.dropWhile isSpace ≠ [] := fun hnil => hzero (by rw [hnil]; rfl)
      exact strtoll_append_of_ne hne q (signed_local.append _ q (by omega) (by omega))

/-! ## Headers -/

theorem take_append_eq (p q : Bytes) : (p ++ q).take 31 = p.take 31 ++ q.take (31 - p.length) := take_append

variable {buf : Bytes}

theorem readNumber_eq (h : findCrlf (buf.take 31) = some pos) : readNumber buf
      = if 1 + (strtoll ((buf.take 31).drop 1)).2 = pos then
          .value (strtoll ((buf.take 31).drop 1)).1 pos else .invalid := by
  unfold readNumber
  rw [h]

/-- **A number once read stays as it is, whatever follows the CRLF, except for a header
with no number in it.** -/
theorem readNumber_append {fc : UInt8} (hfc : p.head? = some fc) (hcr : fc ≠ 13) (q : Bytes) :
    (∀ v pos, readNumber p = .value v pos → readNumber (p ++ q) = .value v pos
        ∨ findCrlf ((p ++ q).take 31) = some 1 ∧ readNumber (p ++ q) = .invalid)
    ∧ (readNumber p = .invalid → readNumber (p ++ q) = .invalid) := by
  cases hfind : findCrlf (p.take 31) with
  | none =>
    have hp : readNumber p = .notEnoughData := by
      unfold readNumber
      rw [hfind]
    rw [hp]
    exact ⟨fun v pos h => (nomatch h), fun h => (nomatch h)⟩
  | some pos =>
    have hlt := findCrlf_lt hfind
    have hpos : 0 < pos := by
      cases p with
      | nil => cases hfc
      | cons =>
        cases hfc
        exact findCrlf_pos hcr hfind
    have hfind' : findCrlf ((p ++ q).take 31) = some pos := by
      rw [take_append_eq]
      exact findCrlf_append hfind _
    have hlen : ((p.take 31).drop 1).length = (p.take 31).length - 1 := length_drop
    rw [readNumber_eq hfind, readNumber_eq hfind', take_append_eq, drop_append_of_le_length (by omega)]
    rw [take_append_eq] at hfind'
    generalize (p.take 31).drop 1 = x at *
    generalize q.take (31 - p.length) = e at *
    constructor
    · intro v pos' hval
      by_cases hend : 1 + (strtoll x).2 = pos
      · rw [if_pos hend] at hval
        injection hval with hv hpos'
        by_cases hone : pos = 1
        · -- The scan found no digit.  It finds none in the longer text, or too late.
          by_cases hzero : (strtoll (x ++ e)).2 = 0
          · rw [strtoll_local.of_append x e (by omega), if_pos hend, hv, hpos']
            exact .inl rfl
          · rw [if_neg (by omega), ← hone]
            exact .inr ⟨hfind', rfl⟩
        · rw [strtoll_local.append x e (by omega) (by omega), if_pos hend, hv, hpos']
          exact .inl rfl
      · rw [if_neg hend] at hval
        cases hval
    · intro hval
      by_cases hend : 1 + (strtoll (x ++ e)).2 = pos
      · rw [strtoll_local.of_append x e (by omega)] at hend
        rw [if_pos hend] at hval
        cases hval
      · rw [if_neg hend]

variable {v : ℤ}

theorem readNumber_value (h : readNumber buf = .value v pos) :
    findCrlf (buf.take 31) = some pos ∧ 1 + (strtoll ((buf.take 31).drop 1)).2 = pos
      ∧ v = (strtoll ((buf.take 31).drop 1)).1 := by
  unfold readNumber at h
  cases hfind : findCrlf (buf.take 31) with
  | none =>
    rw [hfind] at h
    cases h
  | some pos' =>
    rw [hfind] at h
    dsimp only at h
    by_cases hend : 1 + (strtoll ((buf.take 31).drop 1)).2 = pos'
    · rw [if_pos hend] at h
      injection h with hv hpos
      exact ⟨congrArg some hpos, hend.trans hpos, hv.symm⟩
    · rw [if_neg hend] at h
      cases h

theorem readNumber_le (h : readNumber buf = .value v pos) : pos + 2 ≤ buf.length := by
  have := findCrlf_lt (readNumber_value h).1
  rw [length_take] at this
  omega

theorem readNumber_zero (h : readNumber buf = .value v 1) : v = 0 := by
  obtain ⟨-, hend, rfl⟩ := readNumber_value h
  unfold strtoll at hend ⊢
  by_cases hzero : (signed (((buf.take 31).drop 1).dropWhile isSpace)).2 = 0
  · rw [if_pos hzero]
  · rw [if_neg hzero] at hend
    omega

theorem readNumber_of_append (h : readNumber (p ++ q) = .value v pos) (hlen : pos + 2 ≤ p.length) :
    readNumber p = .value v pos := by
  obtain ⟨hfind, hend, rfl⟩ := readNumber_value h
  have hlt := findCrlf_lt hfind
  rw [length_take, length_append] at hlt
  rw [take_append_eq] at hfind hend
  have hfind' : findCrlf (p.take 31) = some pos := (findCrlf_eq_some_iff _).2 ⟨hfind, by rw [length_take]; omega⟩
  have hlen' : (p.take 31).length = min 31 p.length := length_take
  rw [drop_append_of_le_length (by omega)] at hend
  have hloc := strtoll_local.of_append ((p.take 31).drop 1) (q.take (31 - p.length)) (by rw [length_drop]; omega)
  rw [hloc] at hend
  rw [readNumber_eq hfind', if_pos hend, take_append_eq, drop_append_of_le_length (by omega), hloc]

end Brpc.Redis
