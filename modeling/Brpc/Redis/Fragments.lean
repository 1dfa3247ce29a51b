/-
# Replies that arrive in pieces

A stream fed to `ConsumePartialIOBuf` piece by piece has the outcome of one call
(`parsed_by_pieces_iff`), unless that call refuses it at a header without a number: cut behind
that header, it is accepted (`consumePartial_cut`).
-/

import Brpc.Redis.Append

namespace Brpc.Redis

open List
open Messenger (Bytes)

variable {alloc : ℕ → Bool} {depth : ℕ} {r r' : Reply} {p q x : Bytes} {pos : ℕ}

/-- What lies behind the bytes taken is not looked at. -/
def Keeps (alloc : ℕ → Bool) (depth : ℕ) : Prop :=
  ∀ {r p q r' x}, consume alloc depth r (p ++ q) = ⟨.ok, r', x ++ q⟩ → consume alloc depth r p = ⟨.ok, r', x⟩

theorem consumeSubs_left_suffix (alloc : ℕ → Bool) (depth : ℕ) (done todo : List Reply)
    (buf : Bytes) : (consumeSubs (consume alloc depth) done todo buf).left <:+ buf :=
  (consumeSubs_bounded (consume_bounded alloc depth)
    (b := Reply.depth.go done + Reply.depth.go todo + buf.length) (Nat.le_add_left _ _)
    (fun r hr => by have := depth_go_le.1 (Nat.le_refl _) r hr; omega)
    (fun r hr => by have := depth_go_le.1 (Nat.le_refl _) r hr; omega)).1

theorem drop_of_append {n : ℕ} (h : (p ++ q).drop n = x ++ q) (hn : n ≤ (p ++ q).length) :
    n ≤ p.length ∧ p.drop n = x := by
  have hlen := congrArg length h
  rw [length_drop, length_append, length_append] at hlen
  rw [length_append] at hn
  have hle : n ≤ p.length := by omega
  rw [drop_append_le hle] at h
  exact ⟨hle, append_cancel_right h⟩

theorem consumeSubs_of_append (ih : Keeps alloc depth) {done todo : List Reply}
    (h : consumeSubs (consume alloc depth) done todo (p ++ q) = ⟨.ok, r', x ++ q⟩) :
    consumeSubs (consume alloc depth) done todo p = ⟨.ok, r', x⟩ := by
  induction todo generalizing done p with
  | nil =>
    injection h with _ hr hleft
    rw [← hr, ← append_cancel_right hleft]
    rfl
  | cons r todo ihtodo =>
    have hsuffix := (consume_bounded alloc depth r (p ++ q)).1
    rw [consumeSubs] at h ⊢
    rcases hres : consume alloc depth r (p ++ q) with ⟨err, r₁, left⟩
    rw [hres] at h hsuffix
    cases err with
    | ok =>
      obtain ⟨y, rfl⟩ : ∃ y, y ++ q = left := by
        obtain ⟨z, hz⟩ := consumeSubs_left_suffix alloc depth (done ++ [r₁]) todo left
        rw [show (consumeSubs _ _ _ _).left = x ++ q from congrArg Result.left h, ← append_assoc] at hz
        exact ⟨z ++ x, hz⟩
      rw [ih hres]
      exact ihtodo h
    | notEnoughData | absolutelyWrong => cases h

theorem consumeSimple_of_append {isError : Bool} (h : consumeSimple alloc isError r (p ++ q) = ⟨.ok, r', x ++ q⟩) :
    consumeSimple alloc isError r p = ⟨.ok, r', x⟩ := by
  unfold consumeSimple at h ⊢
  cases hfind : findCrlf (p ++ q) with
  | none =>
    rw [hfind] at h
    dsimp only at h
    split at h
    · cases h
    · cases h
  | some pos =>
    rw [hfind] at h
    dsimp only at h
    by_cases hroom : hasRoom alloc (((p ++ q).take pos).drop 1).length = true
    · rw [if_pos hroom] at h
      injection h with _ hr hleft
      obtain ⟨hle, rfl⟩ := drop_of_append hleft (findCrlf_lt hfind)
      rw [take_append_of_le_length (by omega)] at hroom hr
      rw [(findCrlf_eq_some_iff q).2 ⟨hfind, hle⟩, ← hr]
      exact if_pos hroom
    · rw [if_neg hroom] at h
      cases h

theorem consumeBulk_of_append {len : ℤ} (hpos : pos + 2 ≤ (p ++ q).length)
    (h : consumeBulk alloc len pos r (p ++ q) = ⟨.ok, r', x ++ q⟩) :
    pos + 2 ≤ p.length ∧ consumeBulk alloc len pos r p = ⟨.ok, r', x⟩ := by
  unfold consumeBulk at h ⊢
  by_cases hnil : len < 0
  · rw [if_pos hnil] at h ⊢
    injection h with _ hr hleft
    obtain ⟨hle, rfl⟩ := drop_of_append hleft hpos
    exact ⟨hle, by rw [hr]⟩
  rw [if_neg hnil] at h ⊢
  by_cases hlong : 2 ^ 32 - 1 < len
  · rw [if_pos hlong] at h
    cases h
  by_cases hshort : (p ++ q).length < pos + 2 + len.toNat + 2
  · rw [if_neg hlong, if_pos hshort] at h
    cases h
  by_cases hroom : hasRoom alloc len.toNat = true
  swap
  · rw [if_neg hlong, if_neg hshort, if_neg hroom] at h
    cases h
  rw [if_neg hlong, if_neg hshort, if_pos hroom] at h
  injection h with herr hr hleft
  rw [drop_drop, drop_drop] at hleft
  obtain ⟨hle, rfl⟩ := drop_of_append hleft (by omega)
  refine ⟨by omega, ?_⟩
  have hbody : len.toNat + 2 ≤ (p.drop (pos + 2)).length := by
    rw [length_drop]
    omega
  have hrest : 2 ≤ ((p.drop (pos + 2)).drop len.toNat).length := by
    rw [length_drop]
    omega
  rw [drop_append_le (by omega)] at herr hr
  rw [drop_append_le (by omega), take_append_of_le_length hrest] at herr
  rw [take_append_of_le_length (by omega)] at hr
  rw [if_neg hlong, if_neg (by omega), if_pos hroom]
  dsimp only
  rw [herr, hr, drop_drop, drop_drop]

theorem consumeArray_of_append (ih : Keeps alloc depth) {count : ℤ} (hpos : pos + 2 ≤ (p ++ q).length)
    (h : consumeArray alloc (consume alloc depth) count pos r (p ++ q) = ⟨.ok, r', x ++ q⟩) :
    pos + 2 ≤ p.length ∧ consumeArray alloc (consume alloc depth) count pos r p = ⟨.ok, r', x⟩ := by
  rcases consumeArray_cases alloc count pos r with ⟨r₁, -, heq⟩ | ⟨e, -, heq⟩ | heq
  · rw [heq] at h ⊢
    injection h with _ hr hleft
    obtain ⟨hle, rfl⟩ := drop_of_append hleft hpos
    exact ⟨hle, by rw [hr]⟩
  · rw [heq] at h
    cases h
  · rw [heq] at h ⊢
    have hlen := (consumeSubs_left_suffix alloc depth [] (List.replicate count.toNat .nil)
      ((p ++ q).drop (pos + 2))).length_le
    rw [h, length_drop, length_append, length_append] at hlen
    rw [length_append] at hpos
    have hle : pos + 2 ≤ p.length := by omega
    rw [drop_append_le hle] at h
    exact ⟨hle, consumeSubs_of_append ih h⟩

variable {fc : UInt8}

theorem consumeNumber_of_append (ih : Keeps alloc depth)
    (h : consumeNumber alloc (consume alloc depth) fc r (p ++ q) = ⟨.ok, r', x ++ q⟩) :
    consumeNumber alloc (consume alloc depth) fc r p = ⟨.ok, r', x⟩ := by
  cases hread : readNumber (p ++ q) with
  | notEnoughData | invalid =>
    rw [consumeNumber, hread] at h
    cases h
  | value =>
    have hpos := readNumber_le hread
    rcases consumeNumber_cases alloc fc with ⟨-, heq⟩ | ⟨-, heq⟩ | ⟨-, heq⟩
    · rw [heq hread] at h
      injection h with _ hr hleft
      obtain ⟨hle, rfl⟩ := drop_of_append hleft hpos
      rw [heq (readNumber_of_append hread hle), hr]
    · rw [heq hread] at h
      obtain ⟨hle, hp⟩ := consumeBulk_of_append hpos h
      rw [heq (readNumber_of_append hread hle), hp]
    · rw [heq hread] at h
      obtain ⟨hle, hp⟩ := consumeArray_of_append ih hpos h
      rw [heq (readNumber_of_append hread hle), hp]

theorem consumeNew_of_append (ih : Keeps alloc depth)
    (h : consumeNew alloc (consume alloc depth) r (p ++ q) = ⟨.ok, r', x ++ q⟩) :
    consumeNew alloc (consume alloc depth) r p = ⟨.ok, r', x⟩ := by
  cases hfc : (p ++ q).head? with
  | none =>
    rw [consumeNew, hfc] at h
    cases h
  | some fc =>
    -- Nothing is parsed from an empty part.
    have hhead : p = [] ∨ p.head? = some fc := by
      cases p with
      | nil => exact .inl rfl
      | cons => exact .inr hfc
    rcases consumeNew_cases alloc fc with ⟨isError, heq⟩ | ⟨-, heq⟩ | heq
    · rw [heq hfc] at h
      have hp := consumeSimple_of_append h
      rcases hhead with rfl | hhead
      · cases congrArg Result.err hp
      · rw [heq hhead, hp]
    · rw [heq hfc] at h
      have hp := consumeNumber_of_append ih h
      rcases hhead with rfl | hhead
      · cases congrArg Result.err hp
      · rw [heq hhead, hp]
    · rw [heq hfc] at h
      cases h

/-- A call that has an outcome on a buffer has it on any part that holds all it takes. -/
theorem consume_ok_of_append (alloc : ℕ → Bool) (depth : ℕ) : Keeps alloc depth := by
  induction depth with
  | zero => exact fun h => nomatch h
  | succ depth ih =>
    intro r p q r' x h
    rcases consume_succ alloc r with ⟨i, subs, -, -, -, heq⟩ | ⟨i, subs, -, -, heq⟩ | heq
    · rw [heq] at h ⊢
      exact consumeSubs_of_append ih h
    · rw [heq] at h ⊢
      injection h with _ hr hleft
      rw [hr, append_cancel_right hleft]
    · rw [heq] at h ⊢
      exact consumeNew_of_append ih h

/-! ## Headers without a number -/

/-- The whole call refuses the reply at a header without a number, the shortest reply with
which is accepted. -/
def RefusedLate (res : Result) : Prop :=
  res.err = .absolutelyWrong .notDecimal ∧ AcceptedShort res.left

/-- A reply refused late is not refused if the buffer is cut behind the header: nothing of
the buffer is left then. -/
def Cuts (alloc : ℕ → Bool) (depth : ℕ) : Prop :=
  ∀ r buf l, (consume alloc depth r buf).left = l → RefusedLate (consume alloc depth r buf) →
    ∃ pre, buf = pre ++ l ∧ (consume alloc depth r (pre ++ l.take (shortest l))).left = []

variable {buf : Bytes}

theorem consumeSubs_cuts {depth : ℕ} (ih : Cuts alloc depth) {done todo : List Reply}
    {l : Bytes} (hl : (consumeSubs (consume alloc depth) done todo buf).left = l)
    (hlate : RefusedLate (consumeSubs (consume alloc depth) done todo buf)) : ∃ pre, buf = pre ++ l
      ∧ (consumeSubs (consume alloc depth) done todo (pre ++ l.take (shortest l))).left = [] := by
  induction todo generalizing done buf with
  | nil => cases hlate.1
  | cons r todo ihtodo =>
    have hsuffix := (consume_bounded alloc depth r buf).1
    have hsubcut := ih r buf l
    rw [consumeSubs] at hl hlate
    rcases hres : consume alloc depth r buf with ⟨err, r', left⟩
    rw [hres] at hl hlate hsuffix hsubcut
    cases err with
    | ok =>
      -- The sub replies before the header are parsed in front of the cut, too.
      obtain ⟨pre₂, rfl, hcut⟩ := ihtodo hl hlate
      obtain ⟨pre₁, rfl⟩ := hsuffix
      refine ⟨pre₁ ++ pre₂, by rw [append_assoc], ?_⟩
      have hbuf : pre₁ ++ (pre₂ ++ l) = (pre₁ ++ pre₂ ++ l.take (shortest l)) ++ l.drop (shortest l) := by
        rw [append_assoc (pre₁ ++ pre₂), take_append_drop, append_assoc]
      have hleft : pre₂ ++ l = (pre₂ ++ l.take (shortest l)) ++ l.drop (shortest l) := by
        rw [append_assoc, take_append_drop]
      rw [hbuf, hleft] at hres
      rw [consumeSubs, consume_ok_of_append alloc depth hres]
      exact hcut
    | notEnoughData => cases hlate.1
    | absolutelyWrong e =>
      obtain ⟨pre, rfl, hcut⟩ := hsubcut hl hlate
      refine ⟨pre, rfl, ?_⟩
      rw [consumeSubs]
      rcases hresp : consume alloc depth r (pre ++ l.take (shortest l)) with ⟨err, rp, leftp⟩
      rw [hresp] at hcut
      cases hcut
      cases err with
      | ok => exact suffix_nil.1 (consumeSubs_left_suffix alloc depth _ _ [])
      | notEnoughData | absolutelyWrong => rfl

theorem consumeSimple_ne_notDecimal (isError : Bool) (r : Reply) (buf : Bytes) :
    (consumeSimple alloc isError r buf).err ≠ .absolutelyWrong .notDecimal := by
  unfold consumeSimple
  split
  · split <;> simp
  · dsimp only
    split <;> simp

theorem consumeBulk_ne_notDecimal (len : ℤ) (pos : ℕ) (r : Reply) (buf : Bytes) :
    (consumeBulk alloc len pos r buf).err ≠ .absolutelyWrong .notDecimal := by
  unfold consumeBulk
  dsimp only
  split_ifs <;> simp

theorem consumeNumber_short {f : Reply → Bytes → Result} {r : Reply}
    (hfc : buf.head? = some fc) (hread : readNumber buf = .invalid) (hshort : AcceptedShort buf) :
    (consumeNumber alloc f fc r (buf.take (shortest buf))).left = [] := by
  -- The number that makes the whole call refuse it stands behind the cut.
  have hlen : shortest buf < buf.length := by
    by_contra hle
    unfold AcceptedShort at hshort
    rw [take_of_length_le (Nat.not_lt.1 hle), hread] at hshort
    cases hshort
  have hthree : fc ≠ 36 → (buf.take (shortest buf)).drop (1 + 2) = [] := by
    intro hbulk
    have : shortest buf = 3 := if_neg (by rw [hfc]; exact fun h => hbulk (Option.some.inj h))
    rw [this]
    exact drop_of_length_le (length_take_le 3 buf)
  rcases consumeNumber_cases alloc fc with ⟨hbulk, h⟩ | ⟨rfl, h⟩ | ⟨hbulk, h⟩
  · rw [h hshort]
    exact hthree hbulk
  · have hfive : shortest buf = 5 := if_pos hfc
    have hlen' : (buf.take 5).length = 5 := by
      rw [length_take]
      omega
    have hroom : hasRoom alloc (Int.toNat 0) = true := rfl
    rw [h hshort, hfive, consumeBulk, if_neg (by decide), if_neg (by decide),
      if_neg (by rw [hlen']; decide), if_pos hroom]
    dsimp only
    rw [drop_drop, drop_drop]
    exact drop_of_length_le (by rw [hlen']; decide)
  · rw [h hshort, consumeArray, if_neg (by decide), if_pos rfl]
    exact hthree hbulk

theorem header_cut {pre l : Bytes} {v : ℤ} {pos : ℕ} (hfc : buf.head? = some fc)
    (hread : readNumber buf = .value v pos) (hbuf : buf.drop (pos + 2) = pre ++ l) (k : ℕ) :
    readNumber (buf.take (pos + 2) ++ pre ++ l.take k) = .value v pos
      ∧ (buf.take (pos + 2) ++ pre ++ l.take k).head? = some fc := by
  have hpos := readNumber_le hread
  have hlen : (buf.take (pos + 2)).length = pos + 2 := by
    rw [length_take]
    omega
  constructor
  · refine readNumber_of_append (q := l.drop k) ?_ ?_
    · rw [append_assoc, take_append_drop, append_assoc, ← hbuf, take_append_drop]
      exact hread
    · rw [append_assoc, length_append, hlen]
      omega
  · rw [append_assoc, head?_append, head?_take, if_neg (by omega), hfc]
    rfl

theorem consumeNew_cuts {depth : ℕ} (ih : Cuts alloc depth) {r : Reply} {l : Bytes}
    (hl : (consumeNew alloc (consume alloc depth) r buf).left = l)
    (hlate : RefusedLate (consumeNew alloc (consume alloc depth) r buf)) : ∃ pre, buf = pre ++ l
      ∧ (consumeNew alloc (consume alloc depth) r (pre ++ l.take (shortest l))).left = [] := by
  cases hfc : buf.head? with
  | none =>
    rw [consumeNew, hfc] at hlate
    cases hlate.1
  | some fc =>
    rcases consumeNew_cases alloc fc with ⟨isError, h⟩ | ⟨-, h⟩ | h
    · rw [h hfc] at hlate
      exact absurd hlate.1 (consumeSimple_ne_notDecimal _ r buf)
    · rw [h hfc] at hl hlate
      cases hread : readNumber buf with
      | notEnoughData =>
        rw [consumeNumber, hread] at hlate
        cases hlate.1
      | invalid =>
        rw [consumeNumber, hread] at hl hlate
        obtain rfl : buf = l := hl
        refine ⟨[], rfl, ?_⟩
        rw [nil_append, h]
        · exact consumeNumber_short hfc hread hlate.2
        · rw [head?_take, if_neg, hfc]
          unfold shortest
          split <;> simp
      | value v pos =>
        rcases consumeNumber_cases alloc fc with ⟨-, hnum⟩ | ⟨-, hnum⟩ | ⟨-, hnum⟩
        · rw [hnum hread] at hlate
          cases hlate.1
        · rw [hnum hread] at hlate
          exact absurd hlate.1 (consumeBulk_ne_notDecimal v pos r buf)
        · rw [hnum hread] at hl hlate
          rcases consumeArray_cases alloc v pos r with ⟨r', -, harr⟩ | ⟨e, he, harr⟩ | harr
          · rw [harr] at hlate
            cases hlate.1
          · rw [harr] at hlate
            exact absurd (ParseError.absolutelyWrong.inj hlate.1) he
          · rw [harr] at hl hlate
            have hpos := readNumber_le hread
            obtain ⟨pre, hbuf, hcut⟩ := consumeSubs_cuts ih hl hlate
            -- The cut buffer starts with the same header.
            obtain ⟨hread', hhead⟩ := header_cut hfc hread hbuf (shortest l)
            refine ⟨buf.take (pos + 2) ++ pre, ?_, ?_⟩
            · rw [append_assoc, ← hbuf, take_append_drop]
            · rw [h hhead, hnum hread', harr, append_assoc, drop_left' (by rw [length_take]; omega)]
              exact hcut
    · rw [h hfc] at hlate
      cases hlate.1

theorem consume_cuts (alloc : ℕ → Bool) (depth : ℕ) : Cuts alloc depth := by
  induction depth with
  | zero => exact fun r buf l _ hlate => nomatch hlate.1
  | succ depth ih =>
    intro r buf l hl hlate
    rcases consume_succ alloc r with ⟨i, subs, -, -, -, h⟩ | ⟨i, subs, -, -, h⟩ | h
    · rw [h] at hl hlate
      simp only [h]
      exact consumeSubs_cuts ih hl hlate
    · rw [h] at hlate
      cases hlate.1
    · rw [h] at hl hlate
      simp only [h]
      exact consumeNew_cuts ih hl hlate

/-- **A reply refused late is taken off if the buffer ends behind the header.** -/
theorem consumePartial_cut {r : Reply} (hlate : RefusedLate (consumePartial alloc r buf)) :
    ∃ p q, buf = p ++ q ∧ (consumePartial alloc r p).left = []
      ∧ q.length < (consumePartial alloc r buf).left.length := by
  obtain ⟨pre, hbuf, hcut⟩ := consume_cuts alloc _ r buf _ rfl hlate
  change buf = pre ++ (consumePartial alloc r buf).left at hbuf
  change (consume alloc (r.depth + buf.length + 1) r
    (pre ++ (consumePartial alloc r buf).left.take (shortest (consumePartial alloc r buf).left))).left = [] at hcut
  have hshort := readNumber_le hlate.2
  generalize (consumePartial alloc r buf).left = l at *
  refine ⟨pre ++ l.take (shortest l), l.drop (shortest l), ?_, ?_, ?_⟩
  · rw [append_assoc, take_append_drop]
    exact hbuf
  · rw [consume_eq_consumePartial] at hcut
    · exact hcut
    · rw [hbuf, length_append, length_append, length_take]
      omega
  · rw [length_take] at hshort
    rw [length_drop]
    omega

/-! ## Feeding -/

/-- **Fed piece by piece, a stream is parsed as in one call.** -/
theorem feed_eq {r : Reply} {piece : Bytes} {pieces : List Bytes}
    (hlen : (buf ++ (piece :: pieces).flatten).length < 2 ^ 32)
    (hgood : Good (consumePartial alloc r (buf ++ (piece :: pieces).flatten))) :
    feed alloc r buf (piece :: pieces) = consumePartial alloc r (buf ++ (piece :: pieces).flatten) := by
  induction pieces generalizing r buf piece with
  | nil =>
    rw [flatten_cons, flatten_nil, append_nil, feed]
    rcases consumePartial alloc r (buf ++ piece) with ⟨err, r', left⟩
    cases err with
    | ok => exact congrArg (Result.mk .ok r') (append_nil left)
    | notEnoughData => rfl
    | absolutelyWrong e => exact congrArg (Result.mk (.absolutelyWrong e) r') (append_nil left)
  | cons piece' pieces ih =>
    rw [flatten_cons, ← append_assoc] at hlen hgood ⊢
    have happ := consumePartial_append hlen hgood
    have hleft := (consume_bounded alloc (r.depth + (buf ++ piece).length + 1) r (buf ++ piece)).1
    change (consumePartial alloc r (buf ++ piece)).left <:+ _ at hleft
    rw [feed]
    rw [happ] at hgood ⊢
    rcases hres : consumePartial alloc r (buf ++ piece) with ⟨err, r', left⟩
    rw [hres] at hgood hleft
    cases err with
    | ok | absolutelyWrong => rfl
    | notEnoughData =>
      refine ih ?_ hgood
      have := hleft.length_le
      rw [length_append] at hlen ⊢
      exact Nat.lt_of_le_of_lt (Nat.add_le_add_right this _) hlen

theorem feed_two_left (r : Reply) (p q : Bytes) (h : (consumePartial alloc r p).left = []) :
    (feed alloc r [] [p, q]).left.length ≤ q.length := by
  rw [feed, nil_append]
  rcases hres : consumePartial alloc r p with ⟨err, r', left⟩
  rw [hres] at h
  cases h
  cases err with
  | ok | absolutelyWrong => simp
  | notEnoughData =>
    dsimp only
    rw [feed, nil_append]
    have hleft := (consume_bounded alloc (r'.depth + q.length + 1) r' q).1.length_le
    change (consumePartial alloc r' q).left.length ≤ q.length at hleft
    rcases hres' : consumePartial alloc r' q with ⟨err', r'', left'⟩
    rw [hres'] at hleft
    cases err' with
    | ok | absolutelyWrong => simpa using hleft
    | notEnoughData => exact hleft

/-- **Every way of feeding a stream in pieces gives the outcome, the reply and the bytes left of
one call, exactly when that call does not refuse the stream at a header without a number that it
accepts before the number behind it arrives.** -/
theorem parsed_by_pieces_iff (alloc : ℕ → Bool) (stream : Bytes) (hlen : stream.length < 2 ^ 32)
    (hsmall : (consumePartial alloc .nil stream).reply.Small) :
    (∀ pieces, pieces ≠ [] → pieces.flatten = stream → feed alloc .nil [] pieces = consumePartial alloc .nil stream)
      ↔ ¬RefusedLate (consumePartial alloc .nil stream) := by
  constructor
  · intro h hlate
    obtain ⟨p, q, hstream, hleft, hlt⟩ := consumePartial_cut hlate
    have heq := h [p, q] (cons_ne_nil _ _) (by simp [hstream])
    have hle := feed_two_left .nil p q hleft
    rw [heq] at hle
    omega
  · intro hlate pieces hne hpieces
    obtain ⟨piece, pieces, rfl⟩ := exists_cons_of_ne_nil hne
    have hgood : Good (consumePartial alloc .nil stream) := ⟨fun herr hshort => hlate ⟨herr, hshort⟩, hsmall⟩
    rw [← hpieces] at hlen hgood ⊢
    exact feed_eq hlen hgood

/-- The array of the integer 1 and nil, `*2 :1 $-1`, that arrives in three pieces. -/
theorem array_in_three_pieces : feed (fun _ => true) .nil [] [[42, 50, 13], [10, 58, 49], [13, 10, 36, 45, 49, 13, 10]]
      = ⟨.ok, .array (-1) [.integer 1, .nil], []⟩ :=
  (parsed_by_pieces_iff (fun _ => true)
    [42, 50, 13, 10, 58, 49, 13, 10, 36, 45, 49, 13, 10] (by decide)
    (show (Reply.array (-1) [.integer 1, .nil]).Small from
      small_array_iff.2 ⟨by decide, by simp [Reply.Small]⟩)).2
    (fun h => nomatch h.1) _ (cons_ne_nil _ _) rfl

/-- The header `:` without a number is refused if the 5 behind its CRLF is there, and is the
integer 0 if the 5 arrives later. -/
theorem empty_number_accepted_early : consumePartial (fun _ => true) .nil [58, 13, 10, 53, 13, 10]
        = ⟨.absolutelyWrong .notDecimal, .nil, [58, 13, 10, 53, 13, 10]⟩
      ∧ feed (fun _ => true) .nil [] [[58, 13, 10], [53, 13, 10]] = ⟨.ok, .integer 0, [53, 13, 10]⟩ :=
  ⟨rfl, rfl⟩

end Brpc.Redis
