/-
# What is written is parsed back

`ConsumePartialIOBuf` on what `SerializeTo` has written for one call of a SetXXX function: nothing
is written, or it is refused, or parsed as the right reply exactly if the call fits (`Outcome`).  A
tree of SetXXX calls is parsed back, and copied, exactly if no integer of it is the smallest
`int64_t`, no text has 2^31 bytes or more and there is memory (`Tree.roundTrips_iff`).
-/

import Brpc.Redis.Write

namespace Brpc.Redis

open List
open Messenger (Bytes)

variable {alloc : ℕ → Bool} {f : Reply → Bytes → Result} {r : Reply}

/-! ## Parsing what is written for one reply -/

theorem drop_header (fc : UInt8) (p rest : Bytes) : (fc :: p ++ 13 :: 10 :: rest).drop (1 + p.length + 2) = rest := by
  rw [drop_append, drop_eq_nil_of_le (by rw [length_cons]; omega), nil_append,
    length_cons, show 1 + p.length + 2 - (p.length + 1) = 2 by omega]
  rfl

theorem consumeNew_cons (fc : UInt8) (p : Bytes) : consumeNew alloc f r (fc :: p)
      = if fc = 45 ∨ fc = 43 then consumeSimple alloc (fc == 45) r (fc :: p)
        else if fc = 36 ∨ fc = 42 ∨ fc = 58 then consumeNumber alloc f fc r (fc :: p)
        else ⟨.absolutelyWrong .invalidFirstCharacter, r, fc :: p⟩ := rfl

variable {v : ℤ}

theorem consumeNew_number {fc : UInt8} (hfc : fc = 36 ∨ fc = 42 ∨ fc = 58)
    (h₀ : -2 ^ 63 < v) (h₁ : v < 2 ^ 63) (rest : Bytes) :
    consumeNew alloc f r (fc :: appendDecimal v ++ 13 :: 10 :: rest) = if fc = 58 then ⟨.ok, .integer v, rest⟩
        else if fc = 36 then consumeBulk alloc v (1 + (appendDecimal v).length) r
          (fc :: appendDecimal v ++ 13 :: 10 :: rest)
        else consumeArray alloc f v (1 + (appendDecimal v).length) r (fc :: appendDecimal v ++ 13 :: 10 :: rest) := by
  have hcr : fc ≠ 13 := by
    rintro rfl
    revert hfc
    decide
  have hsimple : ¬ (fc = 45 ∨ fc = 43) := by
    rintro (rfl | rfl) <;> revert hfc <;> decide
  rw [cons_append, consumeNew_cons, if_neg hsimple, if_pos hfc, ← cons_append,
    consumeNumber, readNumber_appendDecimal h₀ h₁ hcr]
  dsimp only
  rw [drop_header]

theorem consumeNew_min (rest : Bytes) :
    (consumeNew alloc f r (58 :: appendDecimal (-2 ^ 63) ++ 13 :: 10 :: rest)).err ≠ .ok := by
  have hnum := @readNumber_min 58 (by decide) rest
  rintro ⟨⟩

theorem consumeNew_null {fc : UInt8} (hfc : fc = 36 ∨ fc = 42) (rest : Bytes) :
    consumeNew alloc f r (fc :: appendDecimal (-1) ++ 13 :: 10 :: rest) = ⟨.ok, .nil, rest⟩ := by
  have hdrop := drop_header fc (appendDecimal (-1)) rest
  rcases hfc with rfl | rfl
  · rw [consumeNew_number (by decide) (by decide) (by decide), if_neg (by decide), if_pos rfl,
      consumeBulk, if_pos (by decide), hdrop]
  · rw [consumeNew_number (by decide) (by decide) (by decide), if_neg (by decide),
      if_neg (by decide), consumeArray, if_pos (by decide), hdrop]

theorem consumeNew_string {b : Bytes} (hlen : b.length < 2 ^ 31) (rest : Bytes) :
    consumeNew alloc f r (36 :: appendDecimal b.length ++ 13 :: 10 :: (b ++ 13 :: 10 :: rest))
      = if hasRoom alloc b.length then ⟨.ok, .string b, rest⟩ else ⟨.absolutelyWrong .failToAllocate, r,
          36 :: appendDecimal b.length ++ 13 :: 10 :: (b ++ 13 :: 10 :: rest)⟩ := by
  rw [consumeNew_number (by decide) (by omega) (by omega), if_neg (by decide), if_pos rfl, consumeBulk,
    if_neg (by omega), if_neg (by omega), if_neg, Int.toNat_natCast]
  · rw [drop_header]
    dsimp only
    rw [drop_left, take_left]
    rfl
  · rw [length_append, length_cons, length_cons, length_cons, length_append, length_cons, length_cons]
    omega

variable {kind : TextKind}

theorem consumeNew_simple {b : Bytes} (hkind : kind ≠ .string)
    (hcrlf : findCrlf b = none) (rest : Bytes) : consumeNew alloc f r (kind.firstChar :: b ++ 13 :: 10 :: rest)
      = if hasRoom alloc b.length then ⟨.ok, Tree.reply (.text kind b), rest⟩
        else ⟨.absolutelyWrong .failToAllocate, r, rest⟩ := by
  have hfind : findCrlf (kind.firstChar :: b ++ 13 :: 10 :: rest) = some (1 + b.length) := by
    rw [Nat.add_comm]
    refine findCrlf_append_crlf ?_ rest
    simp only [findCrlf]
    rw [if_neg fun h => absurd h.1 (by cases kind <;> decide), hcrlf]
    rfl
  have htext : ((kind.firstChar :: b ++ 13 :: 10 :: rest).take (1 + b.length)).drop 1 = b := by
    rw [take_append_of_le_length (by rw [length_cons]; omega), take_of_length_le (by rw [length_cons]; omega)]
    rfl
  have hsimple : ∀ isError, consumeSimple alloc isError r (kind.firstChar :: b ++ 13 :: 10 :: rest)
      = if hasRoom alloc b.length then ⟨.ok, if isError then .error b else .status b, rest⟩
        else ⟨.absolutelyWrong .failToAllocate, r, rest⟩ := by
    intro isError
    rw [consumeSimple, hfind]
    dsimp only
    rw [htext, drop_header]
  rw [cons_append, consumeNew_cons, ← cons_append, hsimple]
  cases kind with
  | string => exact absurd rfl hkind
  | status | error => rfl

theorem consumeNew_array {n : ℕ} (hn : n < 2 ^ 31) (rest : Bytes) :
    consumeNew alloc f r (42 :: appendDecimal n ++ 13 :: 10 :: rest) = if n = 0 then ⟨.ok, .array (-1) [], rest⟩
        else if alloc (32 * n) then consumeSubs f [] (replicate n .nil) rest
        else ⟨.absolutelyWrong .failToAllocate, r, 42 :: appendDecimal n ++ 13 :: 10 :: rest⟩ := by
  rw [consumeNew_number (by decide) (by omega) (by omega), if_neg (by decide), if_neg (by decide),
    consumeArray, if_neg (by omega), drop_header, Int.toNat_natCast]
  by_cases hzero : n = 0
  · rw [if_pos hzero, if_pos (by omega)]
  · rw [if_neg hzero, if_neg (by omega), if_neg (by omega)]

/-! ## What becomes of a tree -/

/-- Nothing is written for the tree, or what is written is refused, or it is parsed as a
reply, which is that of the tree exactly if it fits. -/
def Outcome (alloc : ℕ → Bool) (t : Tree) : Prop :=
  (serialize (build alloc t) = none ∧ ¬ t.All (Tree.Fits alloc)) ∨
    ∃ b, serialize (build alloc t) = some b ∧
      ((¬ t.All (Tree.Fits alloc) ∧ ∀ depth rest, t.depth < depth → (consume alloc depth .nil (b ++ rest)).err ≠ .ok) ∨
        ∃ r, (r = t.reply ↔ t.All (Tree.Fits alloc)) ∧ ∀ depth rest, t.depth < depth →
          consume alloc depth .nil (b ++ rest) = ⟨.ok, r, rest⟩)

/-- What becomes of the trees of a list, as the sub replies of an array. -/
def Outcomes (alloc : ℕ → Bool) (ts : List Tree) : Prop :=
  (serialize.go ts.length (build.go alloc ts) = none ∧ ¬ Tree.All.go (Tree.Fits alloc) ts) ∨
    ∃ b, serialize.go ts.length (build.go alloc ts) = some b ∧
      ((¬ Tree.All.go (Tree.Fits alloc) ts ∧ ∀ depth rest done, Tree.depth.go ts < depth →
          (consumeSubs (consume alloc depth) done (replicate ts.length .nil) (b ++ rest)).err ≠ .ok) ∨
        ∃ rs, (rs = Tree.reply.go ts ↔ Tree.All.go (Tree.Fits alloc) ts) ∧
          ∀ depth rest done, Tree.depth.go ts < depth →
            consumeSubs (consume alloc depth) done (replicate ts.length .nil) (b ++ rest)
              = ⟨.ok, .array (-1) (done ++ rs), rest⟩)

variable {t : Tree} {ts : List Tree} {b : Bytes}

theorem Outcome.parsed (hser : serialize (build alloc t) = some b) (hiff : r = t.reply ↔ t.All (Tree.Fits alloc))
    (h : ∀ f rest, consumeNew alloc f .nil (b ++ rest) = ⟨.ok, r, rest⟩) : Outcome alloc t := by
  refine .inr ⟨b, hser, .inr ⟨r, hiff, fun depth rest hdepth => ?_⟩⟩
  obtain ⟨d, rfl⟩ := Nat.exists_eq_succ_of_ne_zero (Nat.ne_zero_of_lt hdepth)
  exact h (consume alloc d) rest

theorem Outcome.refused (hser : serialize (build alloc t) = some b) (hfits : ¬ t.All (Tree.Fits alloc))
    (h : ∀ f rest, (consumeNew alloc f .nil (b ++ rest)).err ≠ .ok) : Outcome alloc t := by
  refine .inr ⟨b, hser, .inl ⟨hfits, fun depth rest hdepth => ?_⟩⟩
  obtain ⟨d, rfl⟩ := Nat.exists_eq_succ_of_ne_zero (Nat.ne_zero_of_lt hdepth)
  exact h (consume alloc d) rest

theorem outcome_integer (h : (Tree.integer v).InRange) : Outcome alloc (.integer v) := by
  have happ : ∀ rest, 58 :: appendDecimal v ++ [13, 10] ++ rest
      = 58 :: appendDecimal v ++ 13 :: 10 :: rest := fun rest => append_assoc ..
  by_cases hmin : v = -2 ^ 63
  · subst hmin
    refine .refused rfl (fun hfits => hfits rfl) fun f rest => ?_
    exact consumeNew_min rest
  · refine .parsed rfl (iff_of_true rfl hmin) fun f rest => ?_
    rw [happ, consumeNew_number (by decide) (lt_of_le_of_ne h.1 (Ne.symm hmin)) h.2, if_pos rfl]
    rfl

theorem outcome_nullString : Outcome alloc .nullString := by
  refine .parsed (r := .nil) rfl (iff_of_true rfl trivial) fun f rest => ?_
  exact consumeNew_null (.inl rfl) rest

theorem outcome_nullArray : Outcome alloc .nullArray := by
  refine .parsed (r := .nil) rfl (iff_of_true rfl trivial) fun f rest => ?_
  exact consumeNew_null (.inr rfl) rest

/-! ## Texts -/

def written : TextKind → Bytes → Bytes
  | .string, b => 36 :: appendDecimal b.length ++ 13 :: 10 :: (b ++ [13, 10])
  | kind, b => kind.firstChar :: b ++ [13, 10]

theorem serialize_text {data : Str} (hread : data.read b.length = some b) :
    serialize (.text kind b.length data) = some (written kind b) := by
  cases kind with
  | string =>
    rw [serialize, if_neg (by omega), hread]
    rfl
  | status | error =>
    rw [serialize, hread]
    · rfl
    · rintro ⟨⟩

theorem consumeNew_written (hlen : b.length < 2 ^ 31)
    (hcrlf : kind ≠ .string → findCrlf b = none) (rest : Bytes) : (hasRoom alloc b.length = true →
      consumeNew alloc f r (written kind b ++ rest) = ⟨.ok, Tree.reply (.text kind b), rest⟩) ∧
    (hasRoom alloc b.length = false → (consumeNew alloc f r (written kind b ++ rest)).err ≠ .ok) := by
  have happ : ∀ p, p ++ [13, 10] ++ rest = p ++ 13 :: 10 :: rest := fun p => append_assoc ..
  by_cases hkind : kind = .string
  · subst hkind
    have hnew := @consumeNew_string alloc f r b hlen rest
    have heq : written .string b ++ rest = 36 :: appendDecimal b.length ++ 13 :: 10 :: (b ++ 13 :: 10 :: rest) := by
      simp [written]
    rw [heq, hnew]
    refine ⟨fun hroom => if_pos hroom, fun hroom => ?_⟩
    rw [if_neg (by rw [hroom]; decide)]
    rintro ⟨⟩
  · have hnew := @consumeNew_simple alloc f r kind b hkind (hcrlf hkind) rest
    have heq : written kind b ++ rest = kind.firstChar :: b ++ 13 :: 10 :: rest := by
      cases kind with
      | string => exact absurd rfl hkind
      | status | error => exact happ _
    rw [heq, hnew]
    refine ⟨fun hroom => if_pos hroom, fun hroom => ?_⟩
    rw [if_neg (by rw [hroom]; decide)]
    rintro ⟨⟩

theorem intOfSize_of_lt {n : ℕ} (h : n < 2 ^ 31) : intOfSize n = n := by
  rw [intOfSize]
  omega

theorem findCrlf_take {p : Bytes} (h : findCrlf p = none) (n : ℕ) : findCrlf (p.take n) = none := by
  cases hfind : findCrlf (p.take n) with
  | none => rfl
  | some =>
    have happ := findCrlf_append hfind (p.drop n)
    rw [take_append_drop, h] at happ
    cases happ

variable {str : Bytes}

theorem reply_text_inj (h : Tree.reply (.text kind b) = Tree.reply (.text kind str)) : b = str := by
  cases kind <;> exact (by injection h)

/-- A text whose length is no `int` is written in a shortened form, as null or not at all. -/
theorem outcome_long (h : (Tree.text kind str).InRange) (hlen : 2 ^ 31 ≤ str.length)
    (hset : build alloc (.text kind str) = .text kind (intOfSize str.length) (.long str)) :
    Outcome alloc (.text kind str) := by
  have hfits : ¬ (Tree.text kind str).All (Tree.Fits alloc) := fun hfits =>
    absurd hfits.1 (not_lt.2 hlen)
  have hbound : intOfSize str.length < 2 ^ 31 := by
    rw [intOfSize]
    omega
  by_cases hnull : kind = .string ∧ intOfSize str.length = -1
  · obtain ⟨rfl, hnull⟩ := hnull
    refine .parsed (r := .nil) (by rw [hset, hnull]; rfl) (iff_of_false (by rintro ⟨⟩) hfits) fun f rest => ?_
    exact consumeNew_null (.inl rfl) rest
  · by_cases hread : 16 ≤ intOfSize str.length
    · -- The length is taken modulo 2^32: a front part is written.
      obtain ⟨n, hn⟩ := Int.eq_ofNat_of_zero_le (a := intOfSize str.length) (by omega)
      rw [hn] at hset hread hbound
      have htake : (str.take n).length = n := by
        rw [length_take]
        omega
      have hser : serialize (build alloc (.text kind str)) = some (written kind (str.take n)) := by
        have hser := @serialize_text kind (str.take n) (.long str) (by
          rw [htake, Str.read, if_pos hread]
          rfl)
        rw [htake] at hser
        rw [hset, hser]
      have hcrlf : kind ≠ .string → findCrlf (str.take n) = none := by
        intro hkind
        cases kind with
        | string => exact absurd rfl hkind
        | status | error => exact findCrlf_take h n
      have hparse := fun f rest => @consumeNew_written alloc f .nil kind (str.take n) (by rw [htake]; omega) hcrlf rest
      cases hroom : hasRoom alloc (str.take n).length with
      | true =>
        refine .parsed hser (iff_of_false (fun heq => ?_) hfits) fun f rest => (hparse f rest).1 hroom
        have hsame := congrArg length (reply_text_inj heq)
        omega
      | false => exact .refused hser hfits fun f rest => (hparse f rest).2 hroom
    · refine .inl ⟨?_, hfits⟩
      have hnone : (Str.long str).read (intOfSize str.length) = none := by
        rw [Str.read, if_neg hread]
      rw [hset]
      cases kind with
      | string =>
        rw [serialize, if_neg fun heq => hnull ⟨rfl, heq⟩, hnone]
        rfl
      | status | error =>
        rw [serialize, hnone]
        · rfl
        · rintro ⟨⟩

theorem outcome_text (h : (Tree.text kind str).InRange) :
    Outcome alloc (.text kind str) := by
  have hcrlf : kind ≠ .string → findCrlf str = none := by
    intro hkind
    cases kind with
    | string => exact absurd rfl hkind
    | status | error => exact h
  have hwritten : ∀ data : Str, build alloc (.text kind str) = .text kind (intOfSize str.length) data →
      data.read str.length = some str → str.length < 2 ^ 31 → hasRoom alloc str.length = true →
      Outcome alloc (.text kind str) := by
    intro data hset hread hlen hroom
    rw [intOfSize_of_lt hlen] at hset
    refine .parsed (by rw [hset]; exact serialize_text hread) (iff_of_true rfl ⟨hlen, hroom⟩)
      fun f rest => (consumeNew_written hlen hcrlf rest).1 hroom
  by_cases hshort : str.length < 16
  · refine hwritten (.short str) (if_pos hshort) ?_ (by omega) ?_
    · rw [Str.read, if_pos ⟨by omega, by omega⟩, Int.toNat_natCast, take_length]
    · rw [hasRoom, decide_eq_true hshort, Bool.true_or]
  · cases halloc : alloc ((str.length / 8 + 1) * 8) with
    | false =>
      refine .inl ⟨?_, fun hfits => ?_⟩
      · show serialize (setStringImpl alloc kind str) = none
        rw [setStringImpl, if_neg hshort, if_neg (by rw [halloc]; decide)]
        rfl
      · have hroom := hfits.2
        rw [hasRoom, decide_eq_false hshort, halloc] at hroom
        cases hroom
    | true =>
      have hset : build alloc (.text kind str) = .text kind (intOfSize str.length) (.long str) := by
        show setStringImpl alloc kind str = _
        rw [setStringImpl, if_neg hshort, if_pos halloc]
      by_cases hlen : str.length < 2 ^ 31
      · refine hwritten (.long str) hset ?_ hlen ?_
        · rw [Str.read, if_pos (by omega), Int.toNat_natCast, take_length]
        · rw [hasRoom, halloc, Bool.or_true]
      · exact outcome_long h (not_lt.1 hlen) hset

/-! ## Trees -/

variable {alloc : ℕ → Bool} {t : Tree} {ts : List Tree}

/-! ## Arrays -/

theorem length_build_go (ts : List Tree) : (build.go alloc ts).length = ts.length := by
  induction ts with
  | nil => rfl
  | cons t ts ih => rw [build.go, length_cons, length_cons, ih]

theorem length_reply_go (ts : List Tree) : (Tree.reply.go ts).length = ts.length := by
  induction ts with
  | nil => rfl
  | cons t ts ih => rw [Tree.reply.go, length_cons, length_cons, ih]

theorem outcome_empty (hset : build alloc (.array ts) = .array 0 [])
    (hiff : ts = [] ↔ (Tree.array ts).All (Tree.Fits alloc)) : Outcome alloc (.array ts) := by
  refine .parsed (r := .array (-1) []) (b := 42 :: appendDecimal 0 ++ [13, 10]) (by rw [hset]; rfl) ?_ fun f rest => ?_
  · rw [← hiff]
    cases ts with
    | nil => exact iff_of_true rfl rfl
    | cons => exact iff_of_false (by rintro ⟨⟩) (by rintro ⟨⟩)
  · exact (consumeNew_array (by decide) rest).trans (if_pos rfl)

theorem outcome_array (h : (Tree.array ts).InRange) (hsubs : Outcomes alloc ts) : Outcome alloc (.array ts) := by
  by_cases hnil : ts = []
  · subst hnil
    exact outcome_empty rfl (iff_of_true rfl ⟨.inl rfl, trivial⟩)
  have hpos := length_pos_of_ne_nil hnil
  cases halloc : alloc (32 * ts.length) with
  | false =>
    have hfits : ¬ (Tree.array ts).All (Tree.Fits alloc) := by
      rintro ⟨hroom | hroom, -⟩
      · exact hnil hroom
      · rw [halloc] at hroom
        cases hroom
    refine outcome_empty ?_ (iff_of_false hnil hfits)
    rw [build, setArray, if_neg (by omega), Int.toNat_natCast, if_neg (by rw [halloc]; decide), Image.setSubs]
    rfl
  | true =>
    have hset : build alloc (.array ts) = .array ts.length (build.go alloc ts) := by
      rw [build, setArray, if_neg (by omega), Int.toNat_natCast, if_pos halloc, Image.setSubs,
        length_replicate, take_of_length_le (length_build_go ts).le]
    have hser : serialize (build alloc (.array ts)) = (serialize.go ts.length
        (build.go alloc ts)).map fun b => 42 :: appendDecimal ts.length ++ 13 :: 10 :: b := by
      rw [hset, serialize, if_neg (by omega), Int.toNat_natCast]
    have hfits : (Tree.array ts).All (Tree.Fits alloc) ↔ Tree.All.go (Tree.Fits alloc) ts :=
      ⟨And.right, fun hall => ⟨.inr halloc, hall⟩⟩
    have hparse : ∀ depth b rest, consume alloc (depth + 1) .nil
        (42 :: appendDecimal ts.length ++ 13 :: 10 :: b ++ rest)
          = consumeSubs (consume alloc depth) [] (replicate ts.length .nil) (b ++ rest) := by
      intro depth b rest
      rw [append_assoc]
      refine (consumeNew_array h (b ++ rest)).trans ?_
      rw [if_neg hpos.ne', if_pos halloc]
    rw [Outcome, hser, hfits]
    rcases hsubs with ⟨hnone, hnot⟩ | ⟨b, hb, hsubs⟩
    · exact .inl ⟨by rw [hnone]; rfl, hnot⟩
    · refine .inr ⟨_, by rw [hb]; rfl, ?_⟩
      have hdepth : ∀ depth, (Tree.array ts).depth < depth → ∃ d, depth = d + 1 ∧ Tree.depth.go ts < d := by
        intro depth hlt
        rw [Tree.depth] at hlt
        exact ⟨depth - 1, by omega, by omega⟩
      rcases hsubs with ⟨hnot, hrefused⟩ | ⟨rs, hiff, hok⟩
      · refine .inl ⟨hnot, fun depth rest hlt => ?_⟩
        obtain ⟨d, rfl, hd⟩ := hdepth depth hlt
        rw [hparse]
        exact hrefused d rest [] hd
      · refine .inr ⟨.array (-1) rs, ?_, fun depth rest hlt => ?_⟩
        · rw [← hiff, Tree.reply]
          exact ⟨fun heq => by injection heq, congrArg _⟩
        · obtain ⟨d, rfl, hd⟩ := hdepth depth hlt
          rw [hparse]
          exact hok d rest [] hd

theorem outcomes_nil : Outcomes alloc [] := by
  refine .inr ⟨[], rfl, .inr ⟨[], iff_of_true rfl trivial, fun depth rest done _ => ?_⟩⟩
  rw [append_nil]
  rfl

theorem outcomes_cons (ht : Outcome alloc t) (hts : Outcomes alloc ts) : Outcomes alloc (t :: ts) := by
  have hser : serialize.go (t :: ts).length (build.go alloc (t :: ts))
      = (serialize (build alloc t)).bind fun b =>
        (serialize.go ts.length (build.go alloc ts)).bind fun bs => some (b ++ bs) := by
    rfl
  rw [Outcomes, hser]
  rcases ht with ⟨hnone, hnot⟩ | ⟨b, hb, ht⟩
  · exact .inl ⟨by rw [hnone]; rfl, fun hall => hnot hall.1⟩
  rcases hts with ⟨hnone, hnot⟩ | ⟨bs, hbs, hts⟩
  · exact .inl ⟨by rw [hb, hnone]; rfl, fun hall => hnot hall.2⟩
  refine .inr ⟨b ++ bs, by rw [hb, hbs]; rfl, ?_⟩
  -- The first sub reply is parsed first, then the others behind it.
  rcases ht with ⟨hnot, hrefused⟩ | ⟨r, hr, hok⟩
  · refine .inl ⟨fun hall => hnot hall.1, fun depth rest done hlt => ?_⟩
    have herr := hrefused depth (bs ++ rest) (lt_of_le_of_lt (le_max_left _ _) hlt)
    rw [append_assoc, length_cons, replicate_succ, consumeSubs]
    rcases hres : consume alloc depth .nil (b ++ (bs ++ rest)) with ⟨err, r, left⟩
    rw [hres] at herr
    cases err with
    | ok => exact absurd rfl herr
    | notEnoughData | absolutelyWrong => exact herr
  · have hfirst : ∀ depth rest done, Tree.depth.go (t :: ts) < depth →
        consumeSubs (consume alloc depth) done (replicate (t :: ts).length .nil)
          (b ++ bs ++ rest)
          = consumeSubs (consume alloc depth) (done ++ [r]) (replicate ts.length .nil) (bs ++ rest) := by
      intro depth rest done hlt
      rw [append_assoc, length_cons, replicate_succ, consumeSubs, hok depth _ (lt_of_le_of_lt (le_max_left _ _) hlt)]
    rcases hts with ⟨hnot, hrefused⟩ | ⟨rs, hrs, hoks⟩
    · refine .inl ⟨fun hall => hnot hall.2, fun depth rest done hlt => ?_⟩
      rw [hfirst depth rest done hlt]
      exact hrefused depth rest _ (lt_of_le_of_lt (le_max_right _ _) hlt)
    · refine .inr ⟨r :: rs, ?_, fun depth rest done hlt => ?_⟩
      · rw [Tree.reply.go, cons.injEq, hr, hrs]
        rfl
      · rw [hfirst depth rest done hlt, hoks depth rest _ (lt_of_le_of_lt (le_max_right _ _) hlt), append_assoc]
        rfl

mutual

theorem outcome : ∀ t : Tree, t.All Tree.InRange → Outcome alloc t
  | .integer _, h => outcome_integer h
  | .text _ _, h => outcome_text h
  | .nullString, _ => outcome_nullString
  | .nullArray, _ => outcome_nullArray
  | .array ts, h => outcome_array h.1 (outcomes ts h.2)

theorem outcomes : ∀ ts : List Tree, Tree.All.go Tree.InRange ts → Outcomes alloc ts
  | [], _ => outcomes_nil
  | t :: ts, h => outcomes_cons (outcome t h.1) (outcomes ts h.2)

end

/-! ## Copies -/

mutual

theorem copy_reply : ∀ t : Tree, t.All (Tree.Fits alloc) → copyFromDifferentArena alloc t.reply = some t.reply
  | .integer _, _ => rfl
  | .text .string _, h => if_pos h.2
  | .text .status _, h => if_pos h.2
  | .text .error _, h => if_pos h.2
  | .nullString, _ => rfl
  | .nullArray, _ => rfl
  | .array ts, h => by
    have hall : (if (0 : ℤ) < -1 then (-1 : ℤ).toNat else ts.length) = ts.length := if_neg (by decide)
    rw [Tree.reply, copyFromDifferentArena, length_reply_go, hall, copy_replies ts h.2]
    rcases h.1 with hnil | hroom
    · subst hnil
      split <;> rfl
    · exact if_pos hroom

theorem copy_replies : ∀ ts : List Tree, Tree.All.go (Tree.Fits alloc) ts →
    copyFromDifferentArena.go alloc ts.length (Tree.reply.go ts) = some (Tree.reply.go ts)
  | [], _ => rfl
  | t :: ts, h => by
    rw [Tree.reply.go, length_cons, copyFromDifferentArena.go, copy_reply t h.1, copy_replies ts h.2]
    rfl

end

/-! ## The round trip -/

theorem consumePartial_eq (t : Tree) (buf : Bytes) :
    consumePartial alloc .nil buf = consume alloc (t.depth + buf.length + 1) .nil buf :=
  (consume_eq_consumePartial alloc (by rw [depth_nil]; omega)).symm

/-- **A reply is written and parsed back, and copied, exactly if it fits.** -/
theorem Tree.roundTrips_iff (alloc : ℕ → Bool) (t : Tree) (h : t.All InRange) :
    t.RoundTrips alloc ↔ t.All (Tree.Fits alloc) := by
  have hout : Outcome alloc t := outcome t h
  constructor
  · rintro ⟨b, hb, hparse, -⟩
    have hok := hparse []
    rw [consumePartial_eq t] at hok
    rcases hout with ⟨hnone, -⟩ | ⟨b', hb', ⟨-, hrefused⟩ | ⟨r, hr, hparsed⟩⟩
    · rw [hnone] at hb
      cases hb
    · rw [hb] at hb'
      cases hb'
      exact absurd (congrArg Result.err hok) (hrefused _ [] (by omega))
    · rw [hb] at hb'
      cases hb'
      rw [hparsed _ [] (by omega)] at hok
      exact hr.1 (congrArg Result.reply hok)
  · intro hfits
    rcases hout with ⟨-, hnot⟩ | ⟨b, hb, ⟨hnot, -⟩ | ⟨r, hr, hparsed⟩⟩
    · exact absurd hfits hnot
    · exact absurd hfits hnot
    · refine ⟨b, hb, fun rest => ?_, copy_reply t hfits⟩
      rw [consumePartial_eq t, hparsed _ rest (by omega), hr.2 hfits]

/-- A tree with a negative integer, a text of two bytes and of sixteen, null and nested
arrays makes the round trip. -/
theorem nested_roundTrips : (Tree.array [.integer (-7), .text .string [13, 10], .text .status (replicate 16 65),
      .nullString, .array [.nullArray, .array []]]).RoundTrips fun _ => true := by
  have hrange : ∀ n : ℕ, n ≤ 5 → n < 2 ^ 31 := fun n hn => by omega
  refine (Tree.roundTrips_iff _ _ ?_).2 ?_
  · exact ⟨hrange 5 (by decide), ⟨by decide, by decide⟩, trivial, rfl, trivial,
      ⟨hrange 2 (by decide), trivial, ⟨hrange 0 (by decide), trivial⟩, trivial⟩, trivial⟩
  · exact ⟨.inr rfl, (by decide : (-7 : ℤ) ≠ -2 ^ 63), ⟨hrange 2 (by decide), rfl⟩,
      ⟨(by decide : 16 < 2 ^ 31), rfl⟩, trivial,
      ⟨.inr rfl, trivial, ⟨.inl rfl, trivial⟩, trivial⟩, trivial⟩

/-- **The smallest integer is written as something that is no number.** -/
theorem min_refused :
    let text := [58, 45, 39, 46, 46, 45, 45, 41, 46, 48, 45, 42, 40, 43, 44, 41, 41, 43, 40, 48, 40, 13, 10]
    serialize (build (fun _ => true) (.integer (-2 ^ 63))) = some text ∧
      (consumePartial (fun _ => true) .nil text).err = .absolutelyWrong .notDecimal :=
  ⟨by decide, by decide⟩

end Brpc.Redis
