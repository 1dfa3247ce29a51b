/-
# Headers and `IndexTable`

`HPacker::Header` in `brpc/details/hpack.h` and the functors of `_header_index` and `_name_index`.
`strcasecmp` stops at the first zero byte, `CaseIgnoredHasher` does not: on names without a zero
byte the two go together (`headerTraits_lawful`, `nameTraits_lawful`).

The table of headers of an HPACK coder, `brpc/details/hpack.cpp`: a queue of headers with a bound on
their total size, and for the encoder two maps from a header and a name to the time it was added
last, which passes through an `int`.  `CHECK` only logs; reading through a null pointer is `none`.
`Holds q l`: the queue (`butil/containers/bounded_queue.h`) has the items `l`, the oldest first.
-/

import Brpc.FlatMap.Inv
import Mathlib.Data.List.TakeWhile

namespace Brpc.Hpack

open List

/-- `std::string` -/
abbrev Str := List UInt8

def asciiTolower (c : UInt8) : UInt8 := if 65 ≤ c ∧ c ≤ 90 then c + 32 else c

def tolower (s : Str) : Str := s.map asciiTolower

/-- A `char` converted to `size_t`. -/
def signExtend (c : UInt8) : ℕ :=
  if c.toNat < 128 then c.toNat else c.toNat + 18446744073709551360

/-- `DefaultHasher<std::string>` -/
def defaultHasher (s : Str) : ℕ :=
  s.foldl (fun result c => (result * 101 + signExtend c) % 18446744073709551616) 0

def caseIgnoredHasher (s : Str) : ℕ :=
  s.foldl (fun result c => (result * 101 + signExtend (asciiTolower c)) % 18446744073709551616) 0

/-- What a function for C strings sees of `c_str()`. -/
def cStr (s : Str) : Str := s.takeWhile (· != 0)

/-- `strcasecmp(..) == 0` -/
def strcasecmpEq (s1 s2 : Str) : Bool := tolower (cStr s1) == tolower (cStr s2)

def caseIgnoredEqual (s1 s2 : Str) : Bool := s1.length == s2.length && strcasecmpEq s1 s2

structure Header where
  name : Str
  value : Str
deriving DecidableEq

def headerHasher (h : Header) : ℕ :=
  (caseIgnoredHasher h.name * 101 + defaultHasher h.value) % 18446744073709551616

def headerEqualTo (h1 h2 : Header) : Bool := caseIgnoredEqual h1.name h2.name && h1.value == h2.value

/-- The template arguments of `_header_index`. -/
def headerTraits : FlatMap.Traits Header ℕ :=
  { hash := headerHasher, eql := headerEqualTo, sparse := false, zero := 0 }

/-- The template arguments of `_name_index`. -/
def nameTraits : FlatMap.Traits Str ℕ :=
  { hash := caseIgnoredHasher, eql := caseIgnoredEqual, sparse := false, zero := 0 }

/-- No byte of the string is zero. -/
def NoNul (s : Str) : Prop := (0 : UInt8) ∉ s

instance (s : Str) : Decidable (NoNul s) := inferInstanceAs (Decidable (_ ∉ _))

/-! ### Names without a zero byte -/

theorem asciiTolower_eq_zero {c : UInt8} : asciiTolower c = 0 ↔ c = 0 := by
  unfold asciiTolower
  split_ifs with h
  · have hne : c ≠ 0 := by
      rintro rfl
      exact absurd h.1 (by decide)
    have hle : c.toNat ≤ 90 := h.2
    refine ⟨fun hc => ?_, fun hc => absurd hc hne⟩
    have := congrArg UInt8.toNat hc
    rw [UInt8.toNat_add] at this
    have h32 : (32 : UInt8).toNat = 32 := rfl
    have h0 : (0 : UInt8).toNat = 0 := rfl
    omega
  · rfl

variable {s : Str}

theorem noNul_tolower : NoNul (tolower s) ↔ NoNul s := by
  unfold NoNul tolower
  simp only [mem_map, asciiTolower_eq_zero, exists_eq_right]

theorem length_tolower (s : Str) : (tolower s).length = s.length := length_map _

theorem cStr_of_noNul (h : NoNul s) : cStr s = s := by
  unfold cStr
  rw [takeWhile_eq_self_iff]
  intro c hc
  simp only [bne_iff_ne, ne_eq]
  rintro rfl
  exact h hc

theorem noNul_of_length_cStr (h : (cStr s).length = s.length) : NoNul s := by
  have hself : cStr s = s := (List.takeWhile_prefix _).eq_of_length h
  intro hmem
  have := takeWhile_eq_self_iff.1 hself 0 hmem
  simp at this

/-- **Equality of names**: with no zero byte in the stored name, it is equality but for the case. -/
theorem caseIgnoredEqual_iff {a b : Str} (ha : NoNul a) : caseIgnoredEqual a b = true ↔ tolower a = tolower b := by
  unfold caseIgnoredEqual strcasecmpEq
  rw [Bool.and_eq_true, beq_iff_eq, beq_iff_eq, cStr_of_noNul ha]
  constructor
  · rintro ⟨hlen, heq⟩
    have hb : NoNul b := by
      apply noNul_of_length_cStr
      rw [← hlen, ← length_tolower a, heq, length_tolower]
    rwa [cStr_of_noNul hb] at heq
  · intro heq
    have hb : NoNul b := by
      rwa [← noNul_tolower, ← heq, noNul_tolower]
    refine ⟨?_, by rwa [cStr_of_noNul hb]⟩
    rw [← length_tolower a, heq, length_tolower]

theorem headerEqualTo_iff {a b : Header} (ha : NoNul a.name) :
    headerEqualTo a b = true ↔ tolower a.name = tolower b.name ∧ a.value = b.value := by
  rw [headerEqualTo, Bool.and_eq_true, caseIgnoredEqual_iff ha, beq_iff_eq]

theorem caseIgnoredHasher_eq (s : Str) : caseIgnoredHasher s = defaultHasher (tolower s) := by
  unfold caseIgnoredHasher defaultHasher tolower
  rw [foldl_map]

/-- An equality that compares `f`, which the hasher is a function of. -/
theorem lawful_of_iff {K V α : Type*} {T : FlatMap.Traits K V} {P : K → Prop} (f : K → α)
    (heq : ∀ {a b}, P a → (T.eql a b = true ↔ f a = f b)) (hhash : ∀ {a b}, f a = f b → T.hash a = T.hash b) :
    T.Lawful P := by
  refine ⟨fun k hk => (heq hk).2 rfl, fun a b ha hb h => (heq hb).2 ((heq ha).1 h).symm, ?_, ?_⟩
  · exact fun a b c ha hb _ h h' => (heq ha).2 (((heq ha).1 h).trans ((heq hb).1 h'))
  · exact fun a b ha _ h => hhash ((heq ha).1 h)

/-- **On names without a zero byte the hasher and the equality go together.** -/
theorem nameTraits_lawful : nameTraits.Lawful NoNul := by
  refine lawful_of_iff tolower caseIgnoredEqual_iff fun {a b} h => ?_
  show caseIgnoredHasher a = caseIgnoredHasher b
  rw [caseIgnoredHasher_eq, caseIgnoredHasher_eq, h]

theorem headerTraits_lawful : headerTraits.Lawful fun h => NoNul h.name := by
  refine lawful_of_iff (fun h => (tolower h.name, h.value)) (fun ha => ?_) fun {a b} h => ?_
  · exact (headerEqualTo_iff ha).trans (by rw [Prod.mk.injEq])
  · obtain ⟨hn, hv⟩ := Prod.mk.inj h
    show headerHasher a = headerHasher b
    rw [headerHasher, headerHasher, caseIgnoredHasher_eq, caseIgnoredHasher_eq, hn, hv]

/-! ## The table -/

open Function

/-- The fields of a `BoundedQueue`; a place that was never written holds `none`. -/
structure BoundedQueue (α : Type*) where
  count : ℕ
  cap : ℕ
  start : ℕ
  items : ℕ → Option α

namespace BoundedQueue

variable {α : Type*} {q : BoundedQueue α} {l : List α}

/-- A queue in memory for `n` items. -/
def ofMemory (n : ℕ) : BoundedQueue α :=
  { count := 0, cap := n % 4294967296, start := 0, items := fun _ => none }

/-- `_mod`, of a 32-bit offset: subtraction while it is too large. -/
def mod (off cap : ℕ) : ℕ := off % 4294967296 % cap

/-- `push`, and whether there was a place. -/
def push (q : BoundedQueue α) (item : α) : BoundedQueue α × Bool :=
  if q.count < q.cap then
    ({ q with
       items := Function.update q.items (mod (q.start + q.count) q.cap) (some item)
       count := q.count + 1 }, true)
  else (q, false)

def pop (q : BoundedQueue α) : BoundedQueue α :=
  if q.count ≠ 0 then { q with count := q.count - 1, start := mod (q.start + 1) q.cap } else q

def top (q : BoundedQueue α) : Option α := if q.count ≠ 0 then q.items q.start else none

def bottom (q : BoundedQueue α) (index : ℕ) : Option α :=
  if index < q.count then q.items (mod (q.start + q.count - index - 1) q.cap) else none

def full (q : BoundedQueue α) : Bool := q.cap == q.count

/-- The queue has the items `l`, the oldest first. -/
structure Holds (q : BoundedQueue α) (l : List α) : Prop where
  count : q.count = l.length
  cap : q.count ≤ q.cap
  start : q.start = 0 ∨ q.start < q.cap
  items : ∀ i < l.length, q.items ((q.start + i) % q.cap) = l[i]?

theorem holds_ofMemory (n : ℕ) : (ofMemory n : BoundedQueue α).Holds [] :=
  ⟨rfl, Nat.zero_le _, .inl rfl, fun i hi => absurd hi (Nat.not_lt_zero i)⟩

theorem mod_eq {off cap : ℕ} (h : off < 4294967296) : mod off cap = off % cap := by
  rw [mod, Nat.mod_eq_of_lt h]

theorem place_ne {s i j cap : ℕ} (hij : i < j) (hj : j < i + cap) : (s + i) % cap ≠ (s + j) % cap := by
  intro h
  have hmod : (s + j - (s + i)) % cap = 0 := Nat.sub_mod_eq_zero_of_mod_eq h.symm
  rw [show s + j - (s + i) = j - i by omega, Nat.mod_eq_of_lt (by omega)] at hmod
  omega

/-- **`push` appends**, when there is a place. -/
theorem Holds.push (h : q.Holds l) (hfull : q.full = false) (hwrap : q.start + q.count < 4294967296)
    (item : α) : (q.push item).1.Holds (l ++ [item]) ∧ (q.push item).1.start = q.start ∧
      (q.push item).1.cap = q.cap := by
  have hlt : q.count < q.cap := by
    have := h.cap
    simp only [full, beq_eq_false_iff_ne, ne_eq] at hfull
    omega
  have hcount := h.count
  unfold BoundedQueue.push
  rw [if_pos hlt]
  refine ⟨⟨by simp [hcount], by simp only; omega, h.start, fun i hi => ?_⟩, rfl, rfl⟩
  simp only [mod_eq hwrap]
  rw [List.length_append, List.length_singleton] at hi
  rcases Nat.lt_or_ge i l.length with hil | hil
  · rw [update_of_ne (place_ne (by omega) (by omega)), h.items i hil, List.getElem?_append_left hil]
  · obtain rfl : i = l.length := by omega
    rw [hcount, update_self, List.getElem?_append_right (Nat.le_refl _), Nat.sub_self]
    rfl

/-- **`pop` takes the oldest item.** -/
theorem Holds.pop {x : α} (h : q.Holds (x :: l)) (hwrap : q.start + 1 < 4294967296) :
    q.pop.Holds l ∧ q.pop.start ≤ q.start + 1 ∧ q.pop.cap = q.cap ∧ q.pop.count = l.length := by
  have hcount := h.count
  have hcap := h.cap
  rw [List.length_cons] at hcount
  unfold BoundedQueue.pop
  rw [if_pos (by omega)]
  simp only [mod_eq hwrap]
  refine ⟨⟨by simp only; omega, by simp only; omega, .inr (Nat.mod_lt _ (by omega)), fun i hi => ?_⟩,
    Nat.mod_le _ _, trivial, by omega⟩
  have := h.items (i + 1) (by simpa using hi)
  rw [List.getElem?_cons_succ] at this
  rw [← this, Nat.mod_add_mod, show q.start + 1 + i = q.start + (i + 1) by omega]

theorem Holds.top {x : α} (h : q.Holds (x :: l)) : q.top = some x := by
  have hcount := h.count
  have hcap := h.cap
  rw [List.length_cons] at hcount
  have hstart : q.start < q.cap := by
    rcases h.start with hs | hs <;> omega
  have := h.items 0 (by simp)
  rw [Nat.add_zero, Nat.mod_eq_of_lt hstart] at this
  rw [BoundedQueue.top, if_pos (by omega), this]
  rfl

/-- **`bottom` counts from the newest item.** -/
theorem Holds.bottom (h : q.Holds l) (hwrap : q.start + q.count < 4294967296) (i : ℕ) :
    q.bottom i = if i < l.length then l[l.length - 1 - i]? else none := by
  have hcount := h.count
  unfold BoundedQueue.bottom
  rw [hcount]
  split_ifs with hi
  · rw [mod_eq (by omega), show q.start + l.length - i - 1 = q.start + (l.length - 1 - i) by omega]
    exact h.items _ (by omega)
  · rfl

end BoundedQueue

/-! ## The table -/

open FlatMap (Map Alloc)

/-- Memory for the maps is there. -/
def memory : Alloc := { room := fun _ => true, fresh := fun _ _ => 0#64 }

/-- The fields of an `IndexTable`. -/
structure IndexTable where
  startIndex : ℕ
  needIndexes : Bool
  addTimes : ℕ
  maxSize : ℕ
  size : ℕ
  queue : BoundedQueue Header
  headerIndex : Map Header ℕ
  nameIndex : Map Str ℕ

namespace IndexTable

variable (t : IndexTable) (h : Header)

def headerSize : ℕ := h.name.length + h.value.length + 32

def headerAt (index : ℤ) : Option Header :=
  if index < t.startIndex then none else t.queue.bottom (index - t.startIndex).toNat

/-- The index of an entry added at time `v`, narrowed to `int`. -/
def indexOf (v : ℕ) : ℤ :=
  Int.bmod ((t.startIndex : ℤ) + (t.addTimes - v) - 1) 4294967296

def getIndexOfHeader : ℤ :=
  match t.headerIndex.seek headerTraits h with
  | none => 0
  | some v => t.indexOf v

def getIndexOfName (name : Str) : ℤ :=
  match t.nameIndex.seek nameTraits name with
  | none => 0
  | some v => t.indexOf v

def endIndex : ℕ := t.startIndex + t.queue.count

/-- One map in `RemoveHeaderFromIndexes`: the key is erased if it was last added at the time of
the entry evicted. -/
def removeIfLatest {K : Type*} (T : FlatMap.Traits K ℕ) (m : Map K ℕ) (key : K) (expectedId : ℕ) :
    Option (Map K ℕ) :=
  (m.seek T key).map fun v => if v = expectedId then (m.erase T key).1 else m

def removeHeaderFromIndexes (expectedId : ℕ) : Option IndexTable :=
  (if h.value ≠ [] then removeIfLatest headerTraits t.headerIndex h expectedId
    else some t.headerIndex).bind fun headerIndex =>
  (removeIfLatest nameTraits t.nameIndex h.name expectedId).map fun nameIndex =>
    { t with headerIndex := headerIndex, nameIndex := nameIndex }

def popHeader : Option IndexTable :=
  t.queue.top.bind fun h =>
    (if t.needIndexes then
        t.removeHeaderFromIndexes h ((t.addTimes + 18446744073709551616 - t.queue.count) % 18446744073709551616)
      else some t).map fun t =>
        { t with size := t.size - headerSize h, queue := t.queue.pop }

/-- The loop `while (!empty() && (_size + entry_size) > max)`, at most `n` rounds. -/
def evict : ℕ → IndexTable → ℕ → Option IndexTable
  | n, t, entrySize =>
    if t.size ≠ 0 ∧ t.maxSize < t.size + entrySize then
      match n with
      | 0 => none
      | n + 1 => t.popHeader.bind fun t => evict n t entrySize
    else some t

/-- `const int id = _add_times++`, stored as `uint64_t`. -/
def narrow (addTimes : ℕ) : ℕ :=
  let x := addTimes % 4294967296
  if x < 2147483648 then x else x + 18446744069414584320

/-- `map[key] = id`; a dense map always returns. -/
def latestAt {K : Type*} (T : FlatMap.Traits K ℕ) (m : Map K ℕ) (key : K) (id : ℕ) : Map K ℕ :=
  (m.insert T memory key id).getD m

/-- The end of `AddHeader`: the header is pushed and its time noted. -/
def append : IndexTable :=
  let id := narrow t.addTimes
  { t with
    size := t.size + headerSize h
    queue := (t.queue.push h).1
    addTimes := (t.addTimes + 1) % 18446744073709551616
    headerIndex :=
      if t.needIndexes && h.value ≠ [] then latestAt headerTraits t.headerIndex h id else t.headerIndex
    nameIndex :=
      if t.needIndexes then latestAt nameTraits t.nameIndex h.name id else t.nameIndex }

def addHeader : Option IndexTable :=
  (evict t.queue.count t (headerSize h)).map fun t =>
    if t.maxSize < headerSize h then t else t.append h

def resetMaxSize (newMaxSize : ℕ) : Option IndexTable :=
  if t.maxSize < newMaxSize then some { t with maxSize := newMaxSize }
  else if newMaxSize < t.maxSize then
    -- the loop `while (_size > _max_size)` is the one of `AddHeader` for a header of no size
    evict t.queue.count { t with maxSize := newMaxSize } 0
  else some t

/-- `Init` for `numHeaders` headers, without the static ones. -/
def create (startIndex : ℕ) (needIndexes : Bool) (maxSize numHeaders : ℕ) : Option IndexTable :=
  let name := Map.init nameTraits memory {} (numHeaders * 2) 80
  let header := Map.init headerTraits memory {} (numHeaders * 2) 80
  if needIndexes ∧ (name.2 ≠ 0 ∨ header.2 ≠ 0) then none
  else some
    { startIndex := startIndex, needIndexes := needIndexes, addTimes := 0, maxSize := maxSize, size := 0
      queue := .ofMemory numHeaders
      headerIndex := if needIndexes then header.1 else {}
      nameIndex := if needIndexes then name.1 else {} }

/-- `Init` of a dynamic table: a name and a value have at least one byte each. -/
def initDynamic (startIndex : ℕ) (needIndexes : Bool) (maxSize : ℕ) : Option IndexTable :=
  create startIndex needIndexes maxSize (maxSize / 34)

/-- `Init` with a static table: the headers are added in reverse order. -/
def initStatic (headers : List Header) : Option IndexTable :=
  (create 1 true 4294967295 headers.length).bind fun t =>
    headers.reverse.foldlM addHeader t

end IndexTable
end Brpc.Hpack
