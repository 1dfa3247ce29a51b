/-
# Building, writing and copying replies

`SetInteger`, `SetStringImpl`, `SetNullString`, `SetNullArray`, `SetArray`, `SerializeTo` and
`CopyFromDifferentArena` of `brpc/redis_reply.cpp` and `redis_reply.h`.  `_length` is an `int`, and
its value decides between `short_str` and `long_str`.  A `Tree` is what the functions are called
with.  `append_decimal` prints a number that `strtoll` reads back (`readNumber_appendDecimal`),
except the smallest `int64_t`, whose negation is itself (`readNumber_min`).
-/

import Brpc.Redis.Number

namespace Brpc.Redis

open List
open Messenger (Bytes)

/-- A number stored into a `char`. -/
def toChar (v : ℤ) : UInt8 := UInt8.ofNat (v % 256).toNat

/-- The loop that fills the buffer from its end, with `n` places left. -/
def decimalLoop : ℕ → ℤ → Bytes → Bytes
  | 0, _, buf => buf
  | n + 1, d, buf =>
    let q := d.tdiv 10
    let buf := toChar (d - q * 10 + 48) :: buf
    if q = 0 then buf else decimalLoop n q buf

/-- The `int64_t` congruent to a number. -/
def wrap64 (v : ℤ) : ℤ := (v + 2 ^ 63) % 2 ^ 64 - 2 ^ 63

def appendDecimal (d : ℤ) : Bytes :=
  if d < 0 then 45 :: decimalLoop 23 (wrap64 (-d)) [] else decimalLoop 24 d []

/-! ## The digits printed -/

theorem decimal_concat (ds : Bytes) (d : UInt8) : decimal (ds ++ [d]) = 10 * decimal ds + (d.toNat - 48) := by
  rw [decimal, foldl_concat, ← decimal]

theorem toNat_toChar {v : ℤ} (h₀ : 0 ≤ v) (h₁ : v < 256) : ((toChar v).toNat : ℤ) = v := by
  rw [toChar, Int.emod_eq_of_lt h₀ h₁, UInt8.toNat_ofNat']
  omega

theorem lastDigit (n : ℕ) : isDigit (toChar ((n : ℤ) - ((n / 10 : ℕ) : ℤ) * 10 + 48)) = true ∧
      (toChar ((n : ℤ) - ((n / 10 : ℕ) : ℤ) * 10 + 48)).toNat - 48 = n % 10 := by
  have hval := @toNat_toChar ((n : ℤ) - ((n / 10 : ℕ) : ℤ) * 10 + 48) (by omega) (by omega)
  have hnat : (toChar ((n : ℤ) - ((n / 10 : ℕ) : ℤ) * 10 + 48)).toNat = n % 10 + 48 := by omega
  refine ⟨?_, by omega⟩
  rw [isDigit, Bool.and_eq_true, decide_eq_true_iff, decide_eq_true_iff, UInt8.le_iff_toNat_le,
    UInt8.le_iff_toNat_le, hnat]
  show 48 ≤ n % 10 + 48 ∧ n % 10 + 48 ≤ 57
  omega

theorem decimalLoop_succ (k n : ℕ) (buf : Bytes) : decimalLoop (k + 1) n buf
      = if n / 10 = 0 then toChar ((n : ℤ) - ((n / 10 : ℕ) : ℤ) * 10 + 48) :: buf
        else decimalLoop k (n / 10 : ℕ) (toChar ((n : ℤ) - ((n / 10 : ℕ) : ℤ) * 10 + 48) :: buf) := by
  have hdiv : (n : ℤ).tdiv 10 = (n / 10 : ℕ) := rfl
  exact if_congr Int.natCast_eq_zero rfl rfl

/-- **The loop prints the digits of a number** of at most `m` digits, where there is room
for them. -/
theorem decimalLoop_eq {m k : ℕ} {n : ℕ} (hm : 0 < m) (hk : m ≤ k) (hn : n < 10 ^ m) (buf : Bytes) :
    ∃ ds, decimalLoop k n buf = ds ++ buf ∧ ds ≠ [] ∧ ds.length ≤ m ∧
      (∀ d ∈ ds, isDigit d = true) ∧ decimal ds = n := by
  induction m generalizing k n buf with
  | zero => exact absurd hm (Nat.lt_irrefl 0)
  | succ m ih =>
    obtain ⟨k, rfl⟩ : ∃ k', k = k' + 1 := Nat.exists_eq_succ_of_ne_zero (by omega)
    obtain ⟨hdigit, hval⟩ := lastDigit n
    rw [decimalLoop_succ]
    generalize toChar ((n : ℤ) - ((n / 10 : ℕ) : ℤ) * 10 + 48) = c at *
    by_cases hzero : n / 10 = 0
    · refine ⟨[c], by rw [if_pos hzero]; rfl, cons_ne_nil _ _, by simp, by simpa using hdigit, ?_⟩
      show 10 * 0 + (c.toNat - 48) = n
      omega
    · have hlt : n / 10 < 10 ^ m := by
        omega
      have hpos : 0 < m := by
        rcases Nat.eq_zero_or_pos m with rfl | hpos
        · omega
        · exact hpos
      obtain ⟨ds, hds, hne, hlen, hall, hdec⟩ := ih hpos (Nat.le_of_succ_le_succ hk) hlt (c :: buf)
      refine ⟨ds ++ [c], ?_, by simp, by simpa using hlen, ?_, ?_⟩
      · rw [if_neg hzero, hds, append_assoc]
        rfl
      · exact forall_mem_append.2 ⟨hall, forall_mem_singleton.2 hdigit⟩
      · rw [decimal_concat, hdec, hval]
        omega

/-! ## Reading them back -/

theorem signedDigits_append {ds : Bytes} (hne : ds ≠ []) (hall : ∀ d ∈ ds, isDigit d = true)
    (neg : Bool) (k : ℕ) (rest : Bytes) : signedDigits neg k (ds ++ 13 :: rest)
      = (clamp (if neg then -decimal ds else decimal ds), k + ds.length) := by
  have htake : (ds ++ 13 :: rest).takeWhile isDigit = ds := by
    rw [takeWhile_append, takeWhile_eq_self_iff.2 hall, if_pos rfl, takeWhile_cons_of_neg (by decide), append_nil]
  unfold signedDigits
  rw [htake]
  cases ds with
  | nil => exact absurd rfl hne
  | cons => rfl

theorem clamp_eq {v : ℤ} (h₀ : -2 ^ 63 ≤ v) (h₁ : v < 2 ^ 63) : clamp v = v := by
  rw [clamp, min_eq_left (by omega), max_eq_right h₀]

theorem strtoll_cons {b : UInt8} {bs : Bytes} (hb : isSpace b = false) :
    strtoll (b :: bs) = if (signed (b :: bs)).2 = 0 then (0, 0) else signed (b :: bs) := by
  rw [strtoll, dropWhile_cons_of_neg (by rw [hb]; decide),
    takeWhile_cons_of_neg (by rw [hb]; decide), length_nil, Nat.zero_add]

theorem not_space_of_digit {d : UInt8} (h : isDigit d = true) : isSpace d = false ∧ d ≠ 45 ∧ d ≠ 43 ∧ d ≠ 13 := by
  rw [isDigit, Bool.and_eq_true, decide_eq_true_iff, decide_eq_true_iff, UInt8.le_iff_toNat_le,
    UInt8.le_iff_toNat_le] at h
  have h₄ : 48 ≤ d.toNat := h.1
  have hne : ∀ c : UInt8, c.toNat < 48 → d ≠ c := by
    rintro c hc rfl
    omega
  refine ⟨?_, hne 45 (by decide), hne 43 (by decide), hne 13 (by decide)⟩
  have hle : ¬ d ≤ 13 := by
    show ¬ d.toNat ≤ 13
    omega
  rw [isSpace, decide_eq_false (hne 32 (by decide)), decide_eq_false hle, Bool.and_false]
  rfl

theorem strtoll_digits {ds : Bytes} (hne : ds ≠ []) (hall : ∀ d ∈ ds, isDigit d = true)
    (rest : Bytes) : strtoll (ds ++ 13 :: rest) = (clamp (decimal ds), ds.length) := by
  obtain ⟨d, ds', rfl⟩ := exists_cons_of_ne_nil hne
  obtain ⟨hspace, hminus, hplus, -⟩ := not_space_of_digit (hall d mem_cons_self)
  have hsigned : signed (d :: (ds' ++ 13 :: rest)) = (clamp (decimal (d :: ds')), (d :: ds').length) := by
    rw [signed_of_ne hminus hplus, ← cons_append, signedDigits_append hne hall, if_neg (by decide), Nat.zero_add]
  rw [cons_append, strtoll_cons hspace, hsigned, if_neg (by simp)]

theorem strtoll_appendDecimal {v : ℤ} (h₀ : -2 ^ 63 < v) (h₁ : v < 2 ^ 63) (rest : Bytes) :
    strtoll (appendDecimal v ++ 13 :: rest) = (v, (appendDecimal v).length) ∧
      (appendDecimal v).length ≤ 20 ∧ ∀ b ∈ appendDecimal v, b ≠ 13 := by
  by_cases hneg : v < 0
  · have hwrap : wrap64 (-v) = (v.natAbs : ℤ) := by
      rw [wrap64]
      omega
    obtain ⟨ds, hds, hne, hlen, hall, hdec⟩ := @decimalLoop_eq 19 23 v.natAbs (by decide) (by decide) (by omega) []
    rw [append_nil] at hds
    rw [appendDecimal, if_pos hneg, hwrap, hds]
    have hval : clamp (-(decimal ds : ℤ)) = v := by
      rw [clamp_eq (by omega) (by omega), hdec]
      omega
    refine ⟨?_, by rw [length_cons]; omega,
      forall_mem_cons.2 ⟨by decide, fun b hb => (not_space_of_digit (hall b hb)).2.2.2⟩⟩
    · have hsigned : signed (45 :: (ds ++ 13 :: rest)) = (v, 1 + ds.length) := by
        rw [signed, signedDigits_append hne hall, if_pos rfl, hval]
      rw [cons_append, strtoll_cons (by decide), hsigned, if_neg (by omega), length_cons, Nat.add_comm]
  · obtain ⟨n, rfl⟩ := Int.eq_ofNat_of_zero_le (not_lt.1 hneg)
    obtain ⟨ds, hds, hne, hlen, hall, hdec⟩ := @decimalLoop_eq 19 24 n (by decide) (by decide) (by omega) []
    rw [append_nil] at hds
    rw [appendDecimal, if_neg hneg, hds]
    refine ⟨?_, by omega, fun b hb => (not_space_of_digit (hall b hb)).2.2.2⟩
    rw [strtoll_digits hne hall, clamp_eq (by omega) (by omega), hdec]

theorem findCrlf_append_crlf {p : Bytes} (h : findCrlf p = none) (q : Bytes) :
    findCrlf (p ++ 13 :: 10 :: q) = some p.length := by
  induction p with
  | nil => rfl
  | cons b bs ih =>
    simp only [findCrlf] at h
    by_cases hcrlf : b = 13 ∧ bs.head? = some 10
    · rw [if_pos hcrlf] at h
      cases h
    · rw [if_neg hcrlf, Option.map_eq_none_iff] at h
      have hnot : ¬ (b = 13 ∧ (bs ++ 13 :: 10 :: q).head? = some 10) := by
        rintro ⟨hb, hhead⟩
        cases bs with
        | nil => cases hhead
        | cons => exact hcrlf ⟨hb, hhead⟩
      simp only [findCrlf, cons_append]
      rw [if_neg hnot, ih h]
      rfl

theorem findCrlf_eq_none {p : Bytes} (h : ∀ b ∈ p, b ≠ 13) : findCrlf p = none := by
  induction p with
  | nil => rfl
  | cons b bs ih =>
    simp only [findCrlf]
    rw [if_neg fun hcrlf => h b mem_cons_self hcrlf.1, ih fun c hc => h c (mem_cons_of_mem b hc)]
    rfl

theorem take_header {h : Bytes} (hlen : h.length ≤ 29) (rest : Bytes) :
    ∃ rest', (h ++ 13 :: 10 :: rest).take 31 = h ++ 13 :: 10 :: rest' := by
  refine ⟨rest.take (29 - h.length), ?_⟩
  rw [take_append, take_of_length_le (by omega)]
  congr 1
  rw [show 31 - h.length = 29 - h.length + 1 + 1 by omega]
  rfl

theorem readNumber_header {p : Bytes} {fc : UInt8} (hlen : p.length ≤ 28) (hcr : ∀ b ∈ p, b ≠ 13)
    (hfc : fc ≠ 13) (rest : Bytes) : ∃ rest', readNumber (fc :: p ++ 13 :: 10 :: rest)
      = if (strtoll (p ++ 13 :: rest')).2 = p.length then
          .value (strtoll (p ++ 13 :: rest')).1 (1 + p.length) else .invalid := by
  obtain ⟨rest', htake⟩ := @take_header (fc :: p) (by rw [length_cons]; omega) rest
  have hfind := findCrlf_append_crlf (findCrlf_eq_none (forall_mem_cons.2 ⟨hfc, hcr⟩)) rest'
  rw [← htake, length_cons, Nat.add_comm] at hfind
  refine ⟨10 :: rest', ?_⟩
  rw [readNumber_eq hfind, htake, cons_append, drop_one, tail_cons]
  exact if_congr Nat.add_left_cancel_iff rfl rfl

/-- **A printed number is read back,** whatever follows its CRLF. -/
theorem readNumber_appendDecimal {v : ℤ} {fc : UInt8} (h₀ : -2 ^ 63 < v) (h₁ : v < 2 ^ 63)
    (hfc : fc ≠ 13) (rest : Bytes) : readNumber (fc :: appendDecimal v ++ 13 :: 10 :: rest)
      = .value v (1 + (appendDecimal v).length) := by
  obtain ⟨-, hlen, hcr⟩ := strtoll_appendDecimal h₀ h₁ []
  obtain ⟨rest', hread⟩ := readNumber_header (Nat.le_trans hlen (by decide)) hcr hfc rest
  rw [hread, (strtoll_appendDecimal h₀ h₁ rest').1, if_pos rfl]

theorem readNumber_min {fc : UInt8} (hfc : fc ≠ 13) (rest : Bytes) :
    readNumber (fc :: appendDecimal (-2 ^ 63) ++ 13 :: 10 :: rest) = .invalid := by
  obtain ⟨rest', hread⟩ := @readNumber_header (appendDecimal (-2 ^ 63)) fc (by decide +kernel)
    (by decide +kernel) hfc rest
  have hprint : appendDecimal (-2 ^ 63) = 45 :: 39 :: (appendDecimal (-2 ^ 63)).drop 2 := by
    decide +kernel
  have hnone : (strtoll (appendDecimal (-2 ^ 63) ++ 13 :: rest')).2 = 0 := by
    rfl
  rw [hread, hnone, if_neg (by decide)]

/-! ## Replies -/

/-- The types of reply with a text. -/
inductive TextKind
  | string
  | status
  | error
  deriving DecidableEq

/-- `_data.short_str` or `_data.long_str` -/
inductive Str
  | short (b : Bytes)
  | long (b : Bytes)

/-- A `RedisReply` that is being built. -/
inductive Image
  | nil
  | integer (value : ℤ)
  | text (kind : TextKind) (length : ℤ) (data : Str)
  | array (length : ℤ) (subs : List Image)

/-- The `int` a `size_t` is stored into. -/
def intOfSize (n : ℕ) : ℤ := ((n : ℤ) + 2 ^ 31) % 2 ^ 32 - 2 ^ 31

variable (alloc : ℕ → Bool)

/-- `SetStringImpl`; without memory the reply stays as `Reset` has left it. -/
def setStringImpl (kind : TextKind) (str : Bytes) : Image :=
  if str.length < 16 then .text kind (intOfSize str.length) (.short str)
  else if alloc ((str.length / 8 + 1) * 8) then .text kind (intOfSize str.length) (.long str)
  else .nil

def setNullString : Image := .text .string (-1) (.short [])

def setNullArray : Image := .array (-1) []

def setArray (size : ℤ) : Image :=
  if size ≤ 0 then .array 0 []
  else if alloc (32 * size.toNat) then .array size (List.replicate size.toNat .nil)
  else .array 0 []

/-- The sub replies of an array are set through `operator[]`, as far as there are any. -/
def Image.setSubs : Image → List Image → Image
  | .array length subs, rs => .array length (rs.take subs.length)
  | r, _ => r

/-- What the SetXXX functions are called with. -/
inductive Tree
  | integer (value : ℤ)
  | text (kind : TextKind) (str : Bytes)
  | nullString
  | nullArray
  | array (subs : List Tree)

/-- The reply built from a tree. -/
def build : Tree → Image
  | .integer v => .integer v
  | .text kind str => setStringImpl alloc kind str
  | .nullString => setNullString
  | .nullArray => setNullArray
  | .array ts => (setArray alloc ts.length).setSubs (go ts)
where
  /-- The sub replies. -/
  go : List Tree → List Image
  | [] => []
  | t :: ts => build t :: go ts

/-- The first `length` bytes of a text.  A length that does not go with the data, or is negative,
reads out of bounds. -/
def Str.read (length : ℤ) : Str → Option Bytes
  | .short b => if 0 ≤ length ∧ length < 16 then some (b.take length.toNat) else none
  | .long b => if 16 ≤ length then some (b.take length.toNat) else none

def TextKind.firstChar : TextKind → UInt8
  | .string => 36
  | .status => 43
  | .error => 45

/-- `SerializeTo` -/
def serialize : Image → Option Bytes
  | .nil => none
  | .integer v => some (58 :: appendDecimal v ++ [13, 10])
  | .text .string length data =>
    if length = -1 then some (36 :: appendDecimal length ++ [13, 10])
    else (data.read length).map fun b => 36 :: appendDecimal length ++ 13 :: 10 :: (b ++ [13, 10])
  | .text kind length data => (data.read length).map fun b => kind.firstChar :: b ++ [13, 10]
  | .array length subs =>
    if length = -1 then some (42 :: appendDecimal length ++ [13, 10])
    else (go length.toNat subs).map fun b => 42 :: appendDecimal length ++ 13 :: 10 :: b
where
  /-- The first `n` sub replies. -/
  go : ℕ → List Image → Option Bytes
  | 0, _ => some []
  | _ + 1, [] => none
  | n + 1, r :: rs => do
    let b ← serialize r
    let bs ← go n rs
    return b ++ bs

/-- `CopyFromDifferentArena` into a new reply: of a suspended array only the sub replies parsed so
far.  Without memory the copy is left without its data. -/
def copyFromDifferentArena : Reply → Option Reply
  | .nil => some .nil
  | .integer v => some (.integer v)
  | .string text => if hasRoom alloc text.length then some (.string text) else none
  | .status text => if hasRoom alloc text.length then some (.status text) else none
  | .error text => if hasRoom alloc text.length then some (.error text) else none
  | .array lastIndex subs =>
    if alloc (32 * subs.length) then
      (go (if 0 < lastIndex then lastIndex.toNat else subs.length) subs).map (.array lastIndex)
    else if subs.length = 0 then some (.array (-1) [])
    else none
where
  /-- The first `n` of the sub replies are copied. -/
  go : ℕ → List Reply → Option (List Reply)
  | _, [] => some []
  | 0, _ :: rs => (go 0 rs).map (.nil :: ·)
  | n + 1, r :: rs => do
    let r' ← copyFromDifferentArena r
    let rs' ← go n rs
    return r' :: rs'

/-! ## Trees -/

namespace Tree

/-- The reply a tree is parsed back as. -/
def reply : Tree → Reply
  | .integer v => .integer v
  | .text .string str => .string str
  | .text .status str => .status str
  | .text .error str => .error str
  | .nullString => .nil
  | .nullArray => .nil
  | .array ts => .array (-1) (go ts)
where
  /-- The sub replies. -/
  go : List Tree → List Reply
  | [] => []
  | t :: ts => t.reply :: go ts

/-- How deep the arrays of a tree are nested. -/
def depth : Tree → ℕ
  | .array ts => go ts + 1
  | _ => 0
where
  /-- The depth of the deepest tree of a list. -/
  go : List Tree → ℕ
  | [] => 0
  | t :: ts => max t.depth (go ts)

/-- `p` holds of all trees within a tree. -/
def All (p : Tree → Prop) : Tree → Prop
  | .array ts => p (.array ts) ∧ go ts
  | t => p t
where
  /-- `p` holds of all trees within the trees of a list. -/
  go : List Tree → Prop
  | [] => True
  | t :: ts => t.All p ∧ go ts

/-- What the functions may be called with: an `int64_t`, a status or an error without CR
LF, an `int` number of sub replies. -/
def InRange : Tree → Prop
  | .integer v => -2 ^ 63 ≤ v ∧ v < 2 ^ 63
  | .text .string _ => True
  | .text _ str => findCrlf str = none
  | .array ts => ts.length < 2 ^ 31
  | _ => True

/-- The value is not the smallest integer, the length is an `int` and there is memory. -/
def Fits (alloc : ℕ → Bool) : Tree → Prop
  | .integer v => v ≠ -2 ^ 63
  | .text _ str => str.length < 2 ^ 31 ∧ hasRoom alloc str.length = true
  | .array ts => ts = [] ∨ alloc (32 * ts.length) = true
  | _ => True

/-- **The round trip of a tree:** the bytes written for it are parsed as its reply and cut off
exactly, and the reply is copied. -/
def RoundTrips (alloc : ℕ → Bool) (t : Tree) : Prop :=
  ∃ b, serialize (build alloc t) = some b ∧
    (∀ rest, consumePartial alloc .nil (b ++ rest) = ⟨.ok, t.reply, rest⟩) ∧
    copyFromDifferentArena alloc t.reply = some t.reply

end Tree
end Brpc.Redis
