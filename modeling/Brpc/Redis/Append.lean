/-
# Calls on a part of the buffer

A call of the reply parser on a buffer `p ++ q` is one on `p` that goes on with the rest
(`consumePartial_append`).
-/

import Brpc.Redis.Number

namespace Brpc.Redis

open List
open Messenger (Bytes)

variable {alloc : ℕ → Bool}

/-- No array of the reply has 2^31 replies or more. -/
def Reply.Small : Reply → Prop
  | .array _ subs => subs.length < 2 ^ 31 ∧ go subs
  | _ => True
where
  /-- All replies of a list are small. -/
  go : List Reply → Prop
  | [] => True
  | r :: rs => r.Small ∧ go rs

/-- The least length of a reply whose header has no number: CRLF ends a bulk string. -/
def shortest (buf : Bytes) : ℕ := if buf.head? = some 36 then 5 else 3

/-- The shortest reply at the front of the buffer has no number and is accepted. -/
def AcceptedShort (buf : Bytes) : Prop := readNumber (buf.take (shortest buf)) = .value 0 1

instance (buf : Bytes) : Decidable (AcceptedShort buf) :=
  inferInstanceAs (Decidable (_ = _))

/-- The outcome of a call on all data that calls on parts of it arrive at, too. -/
structure Good (res : Result) : Prop where
  notLate : res.err = .absolutelyWrong .notDecimal → ¬AcceptedShort res.left
  small : res.reply.Small

/-- What becomes of a result when `q` arrives and `again` is called if it lacks data. -/
def Result.goOn (again : Reply → Bytes → Result) (res : Result) (q : Bytes) : Result :=
  match res.err with
  | .notEnoughData => again res.reply (res.left ++ q)
  | err => ⟨err, res.reply, res.left ++ q⟩

/-- The law for calls that go no deeper than `depth`. -/
def Appends (alloc : ℕ → Bool) (depth : ℕ) : Prop :=
  ∀ r p q, (p ++ q).length < 2 ^ 32 → Good (consume alloc depth r (p ++ q)) →
    consume alloc depth r (p ++ q) = (consume alloc depth r p).goOn (consume alloc depth) q

/-! ## Sub replies -/

theorem small_go_iff {subs : List Reply} : Reply.Small.go subs ↔ ∀ r ∈ subs, r.Small := by
  induction subs with
  | nil => simp [Reply.Small.go]
  | cons r subs ih => rw [Reply.Small.go, ih, forall_mem_cons]

theorem small_array_iff {i : ℤ} {subs : List Reply} :
    (Reply.array i subs).Small ↔ subs.length < 2 ^ 31 ∧ ∀ r ∈ subs, r.Small := by
  rw [Reply.Small, small_go_iff]

theorem consumeSubs_reply (f : Reply → Bytes → Result) (done todo : List Reply) (buf : Bytes) :
    ∃ i subs, (consumeSubs f done todo buf).reply = .array i (done ++ subs) ∧ subs.length = todo.length := by
  induction todo generalizing done buf with
  | nil => exact ⟨-1, [], by rw [consumeSubs, append_nil], rfl⟩
  | cons r todo ih =>
    rw [consumeSubs]
    rcases f r buf with ⟨err, r', left⟩
    cases err with
    | ok =>
      obtain ⟨i, subs, hreply, hlen⟩ := ih (done ++ [r']) left
      refine ⟨i, r' :: subs, ?_, by rw [length_cons, length_cons, hlen]⟩
      rw [hreply, append_assoc]
      rfl
    | notEnoughData | absolutelyWrong => exact ⟨_, r' :: todo, rfl, rfl⟩

variable {buf : Bytes} {done todo : List Reply} {f : Reply → Bytes → Result} {r : Reply}

theorem small_sub (h : (consumeSubs f done (r :: todo) buf).reply.Small) : (f r buf).reply.Small := by
  rw [consumeSubs] at h
  rcases hres : f r buf with ⟨err, r', left⟩
  rw [hres] at h
  cases err with
  | ok =>
    obtain ⟨i, subs, hreply, -⟩ := consumeSubs_reply f (done ++ [r']) todo left
    rw [hreply, small_array_iff] at h
    exact h.2 r' (by simp)
  | notEnoughData | absolutelyWrong => exact (small_array_iff.1 h).2 r' (by simp)

theorem Good.sub (h : Good (consumeSubs f done (r :: todo) buf)) : Good (f r buf) := by
  refine ⟨?_, small_sub h.small⟩
  have hlate := h.notLate
  rw [consumeSubs] at hlate
  rcases hres : f r buf with ⟨err, r', left⟩
  rw [hres] at hlate
  cases err with
  | ok | notEnoughData => rintro ⟨⟩
  | absolutelyWrong => exact hlate

theorem Good.length (h : Good (consumeSubs f done todo buf)) : done.length + todo.length < 2 ^ 31 := by
  obtain ⟨i, subs, hreply, hlen⟩ := consumeSubs_reply f done todo buf
  have hsmall := h.small
  rw [hreply, small_array_iff, length_append, hlen] at hsmall
  exact hsmall.1

theorem toInt32_of_lt {n : ℕ} (h : n < 2 ^ 31) : toInt32 n = n := if_pos h

variable {depth : ℕ}

theorem consume_resume (h : (done ++ r :: todo).length < 2 ^ 31) :
    consume alloc (depth + 1) (.array (toInt32 done.length) (done ++ r :: todo)) buf
      = consumeSubs (consume alloc depth) done (r :: todo) buf := by
  have hlt : done.length < (done ++ r :: todo).length := by
    rw [length_append, length_cons]
    omega
  rw [toInt32_of_lt (Nat.lt_trans hlt h), consume, if_pos (Int.natCast_nonneg _),
    toInt32_of_lt h, if_pos (Int.ofNat_lt.2 hlt), Int.toNat_natCast, take_left',
    drop_left']
  · rfl
  · rfl

variable {p q : Bytes}

theorem consumeSubs_append (ih : Appends alloc depth) (hlen : (p ++ q).length < 2 ^ 32)
    (hgood : Good (consumeSubs (consume alloc depth) done todo (p ++ q))) :
    consumeSubs (consume alloc depth) done todo (p ++ q)
      = (consumeSubs (consume alloc depth) done todo p).goOn (consume alloc (depth + 1)) q := by
  induction todo generalizing done p with
  | nil => rfl
  | cons r todo ihtodo =>
    have hcount := hgood.length
    have hr := ih r p q hlen hgood.sub
    have hleft := (consume_bounded alloc depth r p).1.length_le
    rw [consumeSubs] at hgood ⊢
    conv_rhs => rw [consumeSubs]
    rcases hres : consume alloc depth r p with ⟨err, r', left⟩
    rw [hres] at hr hleft
    cases err with
    | ok =>
      rw [hr] at hgood ⊢
      refine ihtodo ?_ hgood
      rw [length_append] at hlen ⊢
      exact Nat.lt_of_le_of_lt (Nat.add_le_add_right hleft _) hlen
    | notEnoughData =>
      -- The suspended array goes on with the sub reply that lacks data.
      change consume alloc depth r (p ++ q) = consume alloc depth r' (left ++ q) at hr
      rw [hr]
      show _ = consume alloc (depth + 1) (.array (toInt32 done.length) (done ++ r' :: todo)) (left ++ q)
      rw [consume_resume (by rw [length_append, length_cons] at *; omega), consumeSubs]
    | absolutelyWrong =>
      rw [hr]
      rfl

/-! ## New replies -/

theorem drop_append_le {n : ℕ} (h : n ≤ p.length) (q : Bytes) :
    (p ++ q).drop n = p.drop n ++ q := drop_append_of_le_length h

theorem consumeSimple_append {again : Reply → Bytes → Result} {isError : Bool}
    (hlen : p.length < 2 ^ 32) (h : again r (p ++ q) = consumeSimple alloc isError r (p ++ q)) :
    consumeSimple alloc isError r (p ++ q) = (consumeSimple alloc isError r p).goOn again q := by
  cases hfind : findCrlf p with
  | none =>
    have hp : consumeSimple alloc isError r p = ⟨.notEnoughData, r, p⟩ := by
      unfold consumeSimple
      rw [hfind]
      exact if_neg (by omega)
    rw [hp, ← h]
    rfl
  | some =>
    have hpos := findCrlf_lt hfind
    unfold consumeSimple
    rw [hfind, findCrlf_append hfind q]
    dsimp only
    rw [take_append_of_le_length (by omega), drop_append_le hpos]
    split
    · rfl
    · rfl

variable {pos : ℕ}

theorem consumeBulk_append {again : Reply → Bytes → Result} {len : ℤ} (hpos : pos + 2 ≤ p.length)
    (h : again r (p ++ q) = consumeBulk alloc len pos r (p ++ q)) :
    consumeBulk alloc len pos r (p ++ q) = (consumeBulk alloc len pos r p).goOn again q := by
  by_cases hshort : 0 ≤ len ∧ len ≤ 2 ^ 32 - 1 ∧ p.length < pos + 2 + len.toNat + 2
  · have hp : consumeBulk alloc len pos r p = ⟨.notEnoughData, r, p⟩ := by
      rw [consumeBulk, if_neg (by omega), if_neg (by omega), if_pos hshort.2.2]
    rw [hp, ← h]
    rfl
  · unfold consumeBulk
    by_cases hnil : len < 0
    · rw [if_pos hnil, if_pos hnil, drop_append_le hpos]
      rfl
    · by_cases hlong : 2 ^ 32 - 1 < len
      · rw [if_neg hnil, if_neg hnil, if_pos hlong, if_pos hlong]
        rfl
      · have hp : ¬p.length < pos + 2 + len.toNat + 2 := by omega
        have hpq : ¬(p ++ q).length < pos + 2 + len.toNat + 2 := by
          rw [length_append]
          omega
        rw [if_neg hnil, if_neg hnil, if_neg hlong, if_neg hlong, if_neg hp, if_neg hpq]
        have hbody : len.toNat + 2 ≤ (p.drop (pos + 2)).length := by
          rw [length_drop]
          omega
        have hrest : 2 ≤ ((p.drop (pos + 2)).drop len.toNat).length := by
          rw [length_drop]
          omega
        dsimp only
        rw [drop_append_le hpos, take_append_of_le_length (by omega),
          drop_append_le (by omega), take_append_of_le_length hrest, drop_append_le hrest]
        split
        · split <;> rfl
        · rfl

theorem consumeArray_append (ih : Appends alloc depth) {count : ℤ} (hlen : (p ++ q).length < 2 ^ 32)
    (hpos : pos + 2 ≤ p.length) (hgood : Good (consumeArray alloc (consume alloc depth) count pos r (p ++ q))) :
    consumeArray alloc (consume alloc depth) count pos r (p ++ q)
      = (consumeArray alloc (consume alloc depth) count pos r p).goOn (consume alloc (depth + 1)) q := by
  rcases consumeArray_cases alloc count pos r with ⟨r', -, h⟩ | ⟨e, -, h⟩ | h
  · rw [h, h, drop_append_le hpos]
    rfl
  · rw [h, h]
    rfl
  · rw [h, drop_append_le hpos] at hgood ⊢
    rw [h]
    refine consumeSubs_append ih ?_ hgood
    rw [length_append, length_drop] at *
    omega

/-- A number read from `p` and refused in `p ++ q`, where the outcome is good: the header is that
of a bulk string, whose end is not in `p`. -/
theorem Good.bulk_short {fc : UInt8}
    {v : ℤ} (hfc : p.head? = some fc) (hgood : Good (consumeNumber alloc f fc r (p ++ q)))
    (hp : readNumber p = .value v 1) (hpq : readNumber (p ++ q) = .invalid) : fc = 36 ∧ p.length < 5 := by
  have hlate : ¬AcceptedShort (p ++ q) := by
    have := hgood.notLate
    unfold consumeNumber at this
    rw [hpq] at this
    exact this rfl
  have hlen := readNumber_le hp
  have hhead : (p ++ q).head? = some fc := by rw [head?_append, hfc]; rfl
  unfold AcceptedShort at hlate
  by_cases hshort : shortest (p ++ q) ≤ p.length
  · refine absurd ?_ hlate
    rw [take_append_of_le_length hshort]
    have hthree : 3 ≤ shortest (p ++ q) := by
      unfold shortest
      split <;> omega
    rw [← readNumber_zero hp]
    refine readNumber_of_append (q := p.drop (shortest (p ++ q))) ?_ ?_
    · rw [take_append_drop]
      exact hp
    · rw [length_take]
      omega
  · unfold shortest at hshort
    rw [hhead] at hshort
    by_cases h36 : fc = 36
    · rw [h36, if_pos rfl] at hshort
      exact ⟨h36, by omega⟩
    · rw [if_neg (fun h => h36 (Option.some.inj h))] at hshort
      omega

theorem consumeNumber_append (ih : Appends alloc depth)
    {fc : UInt8} (hlen : (p ++ q).length < 2 ^ 32) (hfc : p.head? = some fc) (hcr : fc ≠ 13)
    (hagain : consume alloc (depth + 1) r (p ++ q) = consumeNumber alloc (consume alloc depth) fc r (p ++ q))
    (hgood : Good (consumeNumber alloc (consume alloc depth) fc r (p ++ q))) :
    consumeNumber alloc (consume alloc depth) fc r (p ++ q)
      = (consumeNumber alloc (consume alloc depth) fc r p).goOn (consume alloc (depth + 1)) q := by
  obtain ⟨hval, hinvalid⟩ := readNumber_append hfc hcr q
  -- A call that lacks data leaves everything as it is.
  have hsame : consumeNumber alloc (consume alloc depth) fc r p = ⟨.notEnoughData, r, p⟩ →
      consumeNumber alloc (consume alloc depth) fc r (p ++ q)
        = (consumeNumber alloc (consume alloc depth) fc r p).goOn (consume alloc (depth + 1)) q := by
    intro hp
    rw [hp, ← hagain]
    rfl
  cases hp : readNumber p with
  | notEnoughData => exact hsame (by rw [consumeNumber, hp])
  | invalid =>
    rw [consumeNumber, hinvalid hp, consumeNumber, hp]
    rfl
  | value v pos =>
    have hpos := readNumber_le hp
    rcases hval v pos hp with hpq | ⟨hone, hpq⟩
    · rcases consumeNumber_cases alloc fc with ⟨-, h⟩ | ⟨-, h⟩ | ⟨-, h⟩
      · rw [h hp, h hpq, drop_append_le hpos]
        rfl
      · rw [h hpq] at hagain ⊢
        rw [h hp]
        exact consumeBulk_append hpos hagain
      · rw [h hpq] at hgood ⊢
        rw [h hp]
        exact consumeArray_append ih hlen hpos hgood
    · -- The number missing in the header is refused only now.
      have hpos1 : pos = 1 := by
        have := findCrlf_append (readNumber_value hp).1 (q.take (31 - p.length))
        rw [← take_append_eq, hone] at this
        exact (Option.some.inj this).symm
      rw [hpos1] at hp
      obtain ⟨rfl, hshort⟩ := hgood.bulk_short hfc hp hpq
      apply hsame
      rw [consumeNumber, hp, readNumber_zero hp]
      have hlack : p.length < 1 + 2 + 0 + 2 := by omega
      exact if_pos hlack

theorem consumeNew_append (ih : Appends alloc depth) (hlen : (p ++ q).length < 2 ^ 32)
    (hagain : ∀ buf, consume alloc (depth + 1) r buf = consumeNew alloc (consume alloc depth) r buf)
    (hgood : Good (consumeNew alloc (consume alloc depth) r (p ++ q))) :
    consumeNew alloc (consume alloc depth) r (p ++ q)
      = (consumeNew alloc (consume alloc depth) r p).goOn (consume alloc (depth + 1)) q := by
  cases hfc : p.head? with
  | none =>
    have hp : consumeNew alloc (consume alloc depth) r p = ⟨.notEnoughData, r, p⟩ := by
      rw [consumeNew, hfc]
    rw [hp, ← hagain]
    rfl
  | some fc =>
    have hfc' : (p ++ q).head? = some fc := by rw [head?_append, hfc]; rfl
    have hagain := hagain (p ++ q)
    rcases consumeNew_cases alloc fc with ⟨isError, h⟩ | ⟨hcr, h⟩ | h
    · rw [h hfc'] at hagain ⊢
      rw [h hfc]
      refine consumeSimple_append ?_ hagain
      rw [length_append] at hlen
      omega
    · rw [h hfc'] at hagain hgood ⊢
      rw [h hfc]
      exact consumeNumber_append ih hlen hfc hcr hagain hgood
    · rw [h hfc', h hfc]
      rfl

theorem consume_append (alloc : ℕ → Bool) (depth : ℕ) : Appends alloc depth := by
  induction depth with
  | zero => exact fun r p q _ _ => rfl
  | succ depth ih =>
    intro r p q hlen hgood
    rcases consume_succ alloc r with ⟨i, subs, -, -, -, h⟩ | ⟨i, subs, -, -, h⟩ | h
    · rw [h] at hgood
      rw [h, h]
      exact consumeSubs_append ih hlen hgood
    · rw [h, h]
      rfl
    · rw [h] at hgood
      rw [h, h]
      exact consumeNew_append ih hlen (h depth) hgood

/-- **A call on all data is a call on the first part that goes on with the rest.** -/
theorem consumePartial_append (hlen : (p ++ q).length < 2 ^ 32)
    (hgood : Good (consumePartial alloc r (p ++ q))) : consumePartial alloc r (p ++ q)
      = (consumePartial alloc r p).goOn (consumePartial alloc) q := by
  have hpq : (p ++ q).length = p.length + q.length := length_append
  have hdeep : r.depth + p.length < r.depth + (p ++ q).length + 1 := by omega
  obtain ⟨-, hbound⟩ := consume_bounded alloc (r.depth + (p ++ q).length + 1) r p
  have happ := consume_append alloc _ r p q hlen hgood
  rw [consume_eq_consumePartial alloc hdeep] at hbound happ
  refine happ.trans ?_
  rcases hres : consumePartial alloc r p with ⟨err, r', left⟩
  rw [hres] at hbound
  cases err with
  | ok | absolutelyWrong => rfl
  | notEnoughData =>
    refine consume_eq_consumePartial alloc ?_
    change r'.depth + left.length ≤ r.depth + p.length at hbound
    show r'.depth + (left ++ q).length < _
    rw [length_append]
    omega

end Brpc.Redis
