/-
# `HPacker`

The coder of one connection, `brpc/details/hpack.cpp`: a table for what it sends, one for what it
receives, and the static table.  `Encode` looks up the name before it adds the header.  `Decode`
returns the number of bytes read, 0 if there are not enough and -1 if they make no sense.  A header
block is made of indexes, literal headers and size updates; where one ends can be told from its
bytes (`skipRepresentation`), and `Decode` does not look behind it (`Read.behind`).
-/

import Brpc.Hpack.Indexes
import Brpc.Hpack.Integer

namespace Brpc.Hpack

inductive HeaderIndexPolicy where
  | indexHeader
  | notIndexHeader
  | neverIndexHeader
deriving DecidableEq

structure HPackOptions where
  indexPolicy : HeaderIndexPolicy := .indexHeader
  encodeName : Bool := false
  encodeValue : Bool := false

/-- A coder; `staticTable` is `s_static_table`. -/
structure HPacker where
  staticTable : IndexTable
  encodeTable : IndexTable
  decodeTable : IndexTable

namespace HPacker

def init (maxTableSize : ℕ) : Option HPacker :=
  (IndexTable.initStatic staticHeaders).bind fun staticTable =>
  (IndexTable.initDynamic staticTable.endIndex true maxTableSize).bind fun encodeTable =>
  (IndexTable.initDynamic staticTable.endIndex false maxTableSize).map fun decodeTable =>
    { staticTable := staticTable, encodeTable := encodeTable, decodeTable := decodeTable }

/-! ### Encoding -/

variable (p : HPacker) (bs : Bytes)

def findHeaderFromIndexTable (h : Header) : ℤ :=
  let index := p.staticTable.getIndexOfHeader h
  if 0 < index then index else p.encodeTable.getIndexOfHeader h

def findNameFromIndexTable (name : Str) : ℤ :=
  let index := p.staticTable.getIndexOfName name
  if 0 < index then index else p.encodeTable.getIndexOfName name

/-- `EncodeInteger` of an `int`, which is converted to `uint32_t`. -/
def encodeIndex (msb prefixSize : ℕ) (index : ℤ) : Bytes :=
  encodeInteger msb prefixSize (index % 4294967296).toNat

/-- The first bits of a literal header. -/
def literalMsb : HeaderIndexPolicy → ℕ
  | .indexHeader => 0x40
  | .notIndexHeader => 0x00
  | .neverIndexHeader => 0x10

/-- How many bits of its first byte are left for the index of its name. -/
def literalPrefix : HeaderIndexPolicy → ℕ
  | .indexHeader => 6
  | .notIndexHeader => 4
  | .neverIndexHeader => 4

/-- A literal header with the index found for its name. -/
def encodeLiteral (nameIndex : ℤ) (header : Header) (options : HPackOptions) : Bytes :=
  encodeIndex (literalMsb options.indexPolicy) (literalPrefix options.indexPolicy) nameIndex ++
    (if nameIndex = 0 then encodeString true header.name options.encodeName else []) ++
    encodeString false header.value options.encodeValue

def encode (header : Header) (options : HPackOptions) : Option (HPacker × Bytes) :=
  let index := if options.indexPolicy ≠ .neverIndexHeader then p.findHeaderFromIndexTable header else 0
  if 0 < index then some (p, encodeIndex 0x80 7 index)
  else
    let nameIndex := p.findNameFromIndexTable header.name
    let out := encodeLiteral nameIndex header options
    if options.indexPolicy = .indexHeader then
      (p.encodeTable.addHeader header).map fun t => ({ p with encodeTable := t }, out)
    else some (p, out)

/-! ### Decoding -/

def headerAt (p : HPacker) (index : ℕ) : Option Header :=
  if p.decodeTable.startIndex ≤ index then p.decodeTable.headerAt index else p.staticTable.headerAt index

/-- A header that could not be read. -/
def failed (ret : ℤ) (rest : Bytes) : Read Header := { ret := ret, value := ⟨[], []⟩, rest := rest }

/-- The end of `DecodeWithKnownPrefix`: the value behind a name of which `inBytes` bytes were read. -/
def decodeValue (name : Str) (inBytes : ℤ) (bs : Bytes) : Read Header :=
  let value := decodeString bs
  if value.ret ≤ 0 then failed (-1) value.rest
  else { ret := inBytes + value.ret, value := ⟨name, value.value⟩, rest := value.rest }

def decodeWithKnownPrefix (prefixSize : ℕ) (bs : Bytes) : Read Header :=
  let index := decodeInteger prefixSize bs
  if index.ret ≤ 0 then failed (-1) index.rest
  else if index.value ≠ 0 then
    match p.headerAt index.value with
    | none => failed (-1) index.rest
    | some indexedHeader => decodeValue indexedHeader.name index.ret index.rest
  else
    let name := decodeString index.rest
    if name.ret ≤ 0 then failed (-1) name.rest
    else decodeValue (tolower name.value) (index.ret + name.ret) name.rest

/-- The case of an indexed header in `Decode`. -/
def decodeIndexed : Read Header :=
  let index := decodeInteger 7 bs
  if index.ret ≤ 0 then failed index.ret index.rest
  else
    match p.headerAt index.value with
    | none => failed (-1) index.rest
    | some indexedHeader => { ret := index.ret, value := indexedHeader, rest := index.rest }

/-- The case of a literal header that is added to the table. -/
def decodeIncremental : Option (HPacker × Read Header) :=
  let r := p.decodeWithKnownPrefix 6 bs
  if r.ret ≤ 0 then some (p, failed (-1) r.rest)
  else (p.decodeTable.addHeader r.value).map fun t => ({ p with decodeTable := t }, r)

def defaultHeaderTableSize : ℕ := 4096

/-- `Decode`, with at most `n` size updates; there are at most as many as bytes. -/
def decodeWithin : ℕ → HPacker → Bytes → Option (HPacker × Read Header)
  | _, p, [] => some (p, failed 0 [])
  | n, p, firstByte :: bs =>
    let kind := firstByte.toNat / 16
    if 8 ≤ kind then some (p, p.decodeIndexed (firstByte :: bs))
    else if 4 ≤ kind then p.decodeIncremental (firstByte :: bs)
    else if 2 ≤ kind then
      let maxSize := decodeInteger 5 (firstByte :: bs)
      if maxSize.ret ≤ 0 then some (p, failed maxSize.ret maxSize.rest)
      else if defaultHeaderTableSize < maxSize.value then some (p, failed (-1) maxSize.rest)
      else
        match n with
        | 0 => none
        | n + 1 => (p.decodeTable.resetMaxSize maxSize.value).bind fun t =>
            decodeWithin n { p with decodeTable := t } maxSize.rest
    else some (p, p.decodeWithKnownPrefix 4 (firstByte :: bs))

def decode : Option (HPacker × Read Header) := decodeWithin bs.length p bs

end HPacker

/-! ## Complete representations -/

open List Option HPacker

/-- The same with more bytes left. -/
def Read.behind {α : Type} (r : Read α) (bs : Bytes) : Read α := { r with rest := r.rest ++ bs }

@[simp] theorem Read.behind_ret {α : Type} (r : Read α) (bs : Bytes) : (r.behind bs).ret = r.ret := rfl

@[simp] theorem Read.behind_value {α : Type} (r : Read α) (bs : Bytes) : (r.behind bs).value = r.value := rfl

@[simp] theorem Read.behind_rest {α : Type} (r : Read α) (bs : Bytes) : (r.behind bs).rest = r.rest ++ bs := rfl

@[simp] theorem Read.behind_nil {α : Type} (r : Read α) : r.behind [] = r := by
  rw [Read.behind, append_nil]

/-! ### Integers and strings -/

variable {a : Bytes}

theorem decodeGroups_append {tmp m inBytes : ℕ} (h : (decodeGroups a tmp m inBytes).ret ≠ 0)
    (b : Bytes) : decodeGroups (a ++ b) tmp m inBytes = (decodeGroups a tmp m inBytes).behind b := by
  induction a generalizing tmp m inBytes with
  | nil => exact absurd rfl h
  | cons x a ih =>
    rw [cons_append, decodeGroups, decodeGroups]
    rw [decodeGroups] at h
    by_cases hmore : 128 ≤ x.toNat ∧ (tmp + x.toNat % 128 * 2 ^ (m % 64)) % 18446744073709551616 < maxHpackInteger
    · rw [if_pos hmore] at h
      rw [if_pos hmore, if_pos hmore]
      exact ih h
    · split_ifs <;> rfl

variable {k : ℕ}

/-- **An integer that is complete or malformed** is read alike with more bytes behind it. -/
theorem decodeInteger_append (h : (decodeInteger k a).ret ≠ 0) (b : Bytes) :
    decodeInteger k (a ++ b) = (decodeInteger k a).behind b := by
  cases a with
  | nil => exact absurd rfl h
  | cons =>
    rw [cons_append, decodeInteger, decodeInteger]
    rw [decodeInteger] at h
    split_ifs at h ⊢ with hsmall
    · rfl
    · exact decodeGroups_append h b

theorem not_pos_neg_one : ¬ (0 : ℤ) < -1 := by decide

/-- The value was read from the first `ret` bytes. -/
def Read.From {α : Type} (r : Read α) (bs : Bytes) : Prop :=
  ∃ used, bs = used ++ r.rest ∧ (used.length : ℤ) = r.ret

theorem decodeGroups_from {tmp m inBytes : ℕ} (h : 0 < (decodeGroups a tmp m inBytes).ret) :
    ∃ used, a = used ++ (decodeGroups a tmp m inBytes).rest ∧
      (inBytes + used.length : ℤ) = (decodeGroups a tmp m inBytes).ret := by
  induction a generalizing tmp m inBytes with
  | nil => exact absurd h (lt_irrefl 0)
  | cons x a ih =>
    simp only [decodeGroups] at h ⊢
    split_ifs at h ⊢
    · obtain ⟨used, hused, hlen⟩ := ih h
      exact ⟨x :: used, by rw [cons_append, ← hused], by push_cast [length_cons] at hlen ⊢; omega⟩
    · exact absurd h not_pos_neg_one
    · exact ⟨[x], rfl, rfl⟩

theorem decodeInteger_from (h : 0 < (decodeInteger k a).ret) : (decodeInteger k a).From a := by
  cases a with
  | nil => exact absurd h (lt_irrefl 0)
  | cons x =>
    simp only [decodeInteger] at h ⊢
    split_ifs at h ⊢
    · exact ⟨[x], rfl, rfl⟩
    · obtain ⟨used, hused, hlen⟩ := decodeGroups_from h
      exact ⟨x :: used, by rw [cons_append, ← hused], by push_cast [length_cons] at hlen ⊢; omega⟩

theorem Read.From.length {α : Type} {r : Read α} (h : r.From a) : (r.rest.length : ℤ) + r.ret = a.length := by
  obtain ⟨used, rfl, hlen⟩ := h
  rw [length_append, Nat.cast_add, hlen, add_comm]

theorem Read.From.length_lt {α : Type} {r : Read α} (h : r.From a) (hret : 0 < r.ret) : r.rest.length < a.length := by
  have := h.length
  omega

/-- **A string that is complete**: its length and so many bytes, whatever is behind. -/
theorem decodeString_of_ret (h : 0 < (decodeString a).ret) :
    (decodeString a).From a ∧ ∀ b, decodeString (a ++ b) = (decodeString a).behind b := by
  cases a with
  | nil => exact absurd h (lt_irrefl 0)
  | cons x a =>
    have happ := @decodeInteger_append (x :: a) 7
    have hfrom := @decodeInteger_from (x :: a) 7
    simp only [cons_append, decodeString] at happ h ⊢
    obtain ⟨r, hr⟩ : ∃ r, r = decodeInteger 7 (x :: a) := ⟨_, rfl⟩
    rw [← hr] at h happ hfrom ⊢
    by_cases hint : r.ret ≤ 0
    · rw [if_pos hint] at h
      exact absurd h not_pos_neg_one
    by_cases hlen : r.rest.length < r.value
    · rw [if_neg hint, if_pos hlen] at h
      exact absurd h (lt_irrefl 0)
    obtain ⟨used, hused, hret⟩ := hfrom (not_le.1 hint)
    have hbody : ∀ s : Str, Read.From ⟨r.ret + r.value, s, r.rest.drop r.value⟩ (x :: a) := by
      intro s
      refine ⟨used ++ r.rest.take r.value, by rw [append_assoc, take_append_drop, hused], ?_⟩
      rw [length_append, length_take, Nat.min_eq_left (not_lt.1 hlen), Nat.cast_add, hret]
    have hlen' : ∀ b : Bytes, ¬ (r.rest ++ b).length < r.value := by
      intro b
      rw [length_append]
      omega
    simp only [happ (by omega), Read.behind, if_neg hint, if_neg hlen, hlen', if_false,
      take_append_of_le_length (not_lt.1 hlen), drop_append_of_le_length (not_lt.1 hlen)] at h ⊢
    split_ifs at h ⊢
    · exact ⟨hbody _, fun b => rfl⟩
    · cases hs : huffmanDecode (r.rest.take r.value) with
      | none =>
        rw [hs] at h
        exact absurd h not_pos_neg_one
      | some s => exact ⟨hbody s, fun b => rfl⟩

/-! ### Representations -/

/-- The bytes behind an integer that is complete. -/
def skipInteger (prefixSize : ℕ) (bs : Bytes) : Option Bytes :=
  let r := decodeInteger prefixSize bs
  if 0 < r.ret then some r.rest else none

/-- The bytes behind a string that is complete. -/
def skipString (bs : Bytes) : Option Bytes :=
  let r := decodeString bs
  if 0 < r.ret then some r.rest else none

/-- The bytes behind a literal header: the index of its name, the name if that is 0, and the value. -/
def skipLiteral (prefixSize : ℕ) (bs : Bytes) : Option Bytes :=
  let index := decodeInteger prefixSize bs
  if index.ret ≤ 0 then none
  else (if index.value ≠ 0 then some index.rest else skipString index.rest).bind skipString

/-- The bytes behind the first representation. -/
def skipRepresentation : Bytes → Option Bytes
  | [] => none
  | firstByte :: bs =>
    let kind := firstByte.toNat / 16
    if 8 ≤ kind then skipInteger 7 (firstByte :: bs)
    else if 4 ≤ kind then skipLiteral 6 (firstByte :: bs)
    else if 2 ≤ kind then skipInteger 5 (firstByte :: bs)
    else skipLiteral 4 (firstByte :: bs)

/-- The bytes are complete representations. -/
inductive Complete : Bytes → Prop where
  | nil : Complete []
  | cons {bs rest : Bytes} (hskip : skipRepresentation bs = some rest) (hrest : Complete rest) : Complete bs

variable {a' : Bytes}

theorem skipInteger_eq_some :
    skipInteger k a = some a' ↔ 0 < (decodeInteger k a).ret ∧ (decodeInteger k a).rest = a' := by
  simp [skipInteger]

theorem skipString_eq_some : skipString a = some a' ↔ 0 < (decodeString a).ret ∧ (decodeString a).rest = a' := by
  simp [skipString]

/-- A header that was read from bytes with `a'` behind it, or not at all. -/
def ReadTo (r : Read Header) (a' : Bytes) : Prop := 0 < r.ret ∧ r.rest = a' ∨ r.ret = -1

variable {p : HPacker}

/-- Whatever is behind it, the decoder reads the header up to `a'`, or fails. -/
def Reads (dec : Bytes → Read Header) (a a' : Bytes) : Prop :=
  ∃ r, ReadTo r a' ∧ (0 < r.ret → r.From a) ∧ ∀ b, dec b = r.behind b

/-- The decoder reads what is complete, and fails else. -/
def Skips (skip : Option Bytes) (dec : Bytes → Read Header) (a : Bytes) : Prop :=
  skip = none ∧ (dec []).ret = -1 ∨ ∃ a', skip = some a' ∧ Reads dec a a'

theorem decodeValue_skips {name : Str} {n : ℤ} (hn : 0 < n) {used mid : Bytes} (ha : a = used ++ mid)
    (hused : (used.length : ℤ) = n) : Skips (skipString mid) (fun b => decodeValue name n (mid ++ b)) a := by
  unfold Skips Reads skipString decodeValue
  simp only [append_nil]
  by_cases hret : 0 < (decodeString mid).ret
  · obtain ⟨⟨body, hbody, hlen⟩, happ⟩ := decodeString_of_ret hret
    simp only [happ, Read.behind_ret, if_neg (not_le.2 hret)]
    refine .inr ⟨_, if_pos hret, ⟨_, ⟨name, _⟩, _⟩, .inl ⟨add_pos hn hret, rfl⟩,
      fun _ => ⟨used ++ body, ?_, ?_⟩, fun b => rfl⟩
    · rw [append_assoc, ← hbody, ha]
    · rw [length_append, Nat.cast_add, hlen, hused]
  · rw [if_neg hret, if_pos (not_lt.1 hret)]
    exact .inl ⟨rfl, rfl⟩

/-- **A literal header.** -/
theorem decodeWithKnownPrefix_skips (p : HPacker) (k : ℕ) (a : Bytes) :
    Skips (skipLiteral k a) (fun b => p.decodeWithKnownPrefix k (a ++ b)) a := by
  unfold skipLiteral decodeWithKnownPrefix
  by_cases hint : (decodeInteger k a).ret ≤ 0
  · refine .inl ⟨if_pos hint, ?_⟩
    simp only [append_nil, if_pos hint]
    rfl
  obtain ⟨used, hused, hlen⟩ := decodeInteger_from (not_le.1 hint)
  simp only [decodeInteger_append (show (decodeInteger k a).ret ≠ 0 by omega), Read.behind, if_neg hint]
  by_cases hidx : (decodeInteger k a).value ≠ 0
  · simp only [if_pos hidx, bind_some]
    cases p.headerAt (decodeInteger k a).value with
    | none =>
      cases hs : skipString (decodeInteger k a).rest with
      | none => exact .inl ⟨rfl, rfl⟩
      | some a' =>
        exact .inr ⟨a', rfl, failed (-1) (decodeInteger k a).rest, .inr rfl,
          fun h => absurd h not_pos_neg_one, fun b => rfl⟩
    | some => exact decodeValue_skips (not_le.1 hint) hused hlen
  · simp only [if_neg hidx]
    by_cases hname : 0 < (decodeString (decodeInteger k a).rest).ret
    · obtain ⟨⟨body, hbody, hlen'⟩, happ⟩ := decodeString_of_ret hname
      simp only [happ, Read.behind, if_neg (not_le.2 hname), skipString_eq_some.2 ⟨hname, rfl⟩, bind_some]
      have ha : a = used ++ body ++ (decodeString (decodeInteger k a).rest).rest := by
        rw [append_assoc, ← hbody, ← hused]
      exact decodeValue_skips (by omega) ha (by rw [length_append, Nat.cast_add, hlen, hlen'])
    · refine .inl ⟨by rw [skipString, if_neg hname]; rfl, ?_⟩
      simp only [append_nil, if_pos (not_lt.1 hname)]
      rfl

/-- **An index.** -/
theorem decodeIndexed_reads (h : skipInteger 7 a = some a') : Reads (fun b => p.decodeIndexed (a ++ b)) a a' := by
  obtain ⟨hret, hrest⟩ := skipInteger_eq_some.1 h
  unfold Reads decodeIndexed
  simp only [decodeInteger_append hret.ne', Read.behind, if_neg (not_le.2 hret)]
  cases p.headerAt (decodeInteger 7 a).value with
  | none =>
    exact ⟨failed (-1) (decodeInteger 7 a).rest, .inr rfl, fun h => absurd h not_pos_neg_one, fun b => rfl⟩
  | some x => exact ⟨⟨_, x, _⟩, .inl ⟨hret, hrest⟩, fun _ => decodeInteger_from hret, fun b => rfl⟩

end Brpc.Hpack
