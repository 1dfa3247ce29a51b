/-
# The table as a list of headers

A table is a list of headers, the oldest first; adding one drops headers from the front until
there is place (`add`).  `Base t q`: the table `t` has the headers `q`.  `Indexed t q`: its maps
give the time the latest entry was added.
-/

import Brpc.Hpack.IndexTable
import Brpc.FlatMap.Grow

namespace Brpc.Hpack

open List Option IndexTable FlatMap

/-! ### Lists of headers -/

/-- The total size of the headers. -/
def sizes : List Header → ℕ
  | [] => 0
  | h :: q => headerSize h + sizes q

theorem sizes_append (q q' : List Header) : sizes (q ++ q') = sizes q + sizes q' := by
  induction q with
  | nil => simp [sizes]
  | cons h q ih => rw [cons_append, sizes, sizes, ih, Nat.add_assoc]

/-- The headers left when there has to be place for `entrySize` more bytes. -/
def dropOld (maxSize entrySize : ℕ) : List Header → List Header
  | [] => []
  | h :: q => if maxSize < sizes (h :: q) + entrySize then dropOld maxSize entrySize q else h :: q

/-- The table after a header was added. -/
def add (maxSize : ℕ) (q : List Header) (h : Header) : List Header :=
  if maxSize < headerSize h then dropOld maxSize (headerSize h) q
  else dropOld maxSize (headerSize h) q ++ [h]

theorem dropOld_suffix (maxSize entrySize : ℕ) (q : List Header) : dropOld maxSize entrySize q <:+ q := by
  induction q with
  | nil => exact suffix_rfl
  | cons h q ih =>
    rw [dropOld]
    split_ifs
    · exact ih.trans (suffix_cons h q)
    · exact suffix_rfl

variable {q : List Header} {x : Header}

theorem length_le_sizes (h : ∀ x ∈ q, 34 ≤ headerSize x) : 34 * q.length ≤ sizes q := by
  induction q with
  | nil => exact Nat.zero_le _
  | cons x q ih =>
    obtain ⟨hx, hq⟩ := forall_mem_cons.1 h
    have := ih hq
    rw [length_cons, sizes]
    omega

theorem mem_add {maxSize : ℕ} {h h' : Header} (hmem : h' ∈ add maxSize q h) : h' ∈ q ∨ h' = h := by
  unfold add at hmem
  split_ifs at hmem
  · exact .inl ((dropOld_suffix ..).subset hmem)
  · rcases mem_append.1 hmem with hmem | hmem
    · exact .inl ((dropOld_suffix ..).subset hmem)
    · exact .inr (mem_singleton.1 hmem)

/-- The time the last header with `p` was added, if the oldest one was added at `base`. -/
def latest (p : Header → Bool) : List Header → ℕ → Option ℕ
  | [], _ => none
  | h :: q, base => (latest p q (base + 1)).or (if p h then some base else none)

theorem latest_append (p : Header → Bool) (q : List Header) (h : Header) (base : ℕ) :
    latest p (q ++ [h]) base = if p h then some (base + q.length) else latest p q base := by
  induction q generalizing base with
  | nil => simp [latest]
  | cons h' q ih =>
    rw [cons_append, latest, ih, latest, length_cons]
    by_cases hp : p h = true
    · rw [if_pos hp, if_pos hp, some_or, show base + 1 + q.length = base + (q.length + 1) by omega]
    · rw [if_neg hp, if_neg hp]

theorem latest_eq_some {p : Header → Bool} {base v : ℕ} (h : latest p q base = some v) :
    base ≤ v ∧ v < base + q.length ∧ ∃ x, q[v - base]? = some x ∧ p x = true := by
  induction q generalizing base with
  | nil => cases h
  | cons x q ih =>
    rw [latest] at h
    rw [length_cons]
    cases hq : latest p q (base + 1) with
    | some w =>
      rw [hq, some_or] at h
      obtain rfl := some.inj h
      obtain ⟨hle, hlt, y, hy, hp⟩ := ih hq
      refine ⟨by omega, by omega, y, ?_, hp⟩
      rw [show w - base = (w - (base + 1)) + 1 by omega, getElem?_cons_succ, hy]
    | none =>
      rw [hq, none_or] at h
      split_ifs at h with hp
      cases h
      exact ⟨le_rfl, by omega, x, by simp, hp⟩

theorem latest_ne_none {p : Header → Bool} (base : ℕ) (hx : x ∈ q) (hp : p x = true) : latest p q base ≠ none := by
  induction q generalizing base with
  | nil => exact absurd hx not_mem_nil
  | cons y q ih =>
    rw [latest, Ne, or_eq_none_iff]
    rintro ⟨hnone, hy⟩
    rcases mem_cons.1 hx with rfl | hx
    · rw [if_pos hp] at hy
      cases hy
    · exact ih _ hx hnone

/-- The oldest header is evicted from the map exactly when it is the latest one: that leaves the
latest one of the rest. -/
theorem latest_tail (p : Header → Bool) (x : Header) (q : List Header) (base : ℕ) : latest p q (base + 1) =
      if p x = true ∧ latest p (x :: q) base = some base then none else latest p (x :: q) base := by
  rw [latest]
  cases hq : latest p q (base + 1) with
  | some =>
    have := (latest_eq_some hq).1
    rw [some_or, if_neg]
    rintro ⟨-, hw⟩
    have := some.inj hw
    omega
  | none =>
    by_cases hp : p x = true
    · simp [hp]
    · simp [hp]

/-! ### What a table keeps -/

open FlatMap (Map)

structure Base (t : IndexTable) (q : List Header) : Prop where
  holds : t.queue.Holds q
  size : t.size = sizes q
  times : t.queue.start + t.queue.count ≤ t.addTimes
  few : t.addTimes ≤ 2147483648
  indexes : t.startIndex + q.length ≤ 2147483648

/-- The time the oldest header was added. -/
def IndexTable.base (t : IndexTable) : ℕ := t.addTimes - t.queue.count

/-- Whether `_header_index` is to find the entry `x` for the header `k`. -/
def sameHeader (k x : Header) : Bool := x.value ≠ [] && headerEqualTo x k

/-- Whether `_name_index` is to find the entry `x` for the name `n`. -/
def sameName (n : Str) (x : Header) : Bool := caseIgnoredEqual x.name n

/-- The maps give the time of the latest entry. -/
structure Indexed (t : IndexTable) (q : List Header) : Prop where
  names : ∀ x ∈ q, NoNul x.name
  header : t.headerIndex.Repr headerTraits (fun h => NoNul h.name) fun k =>
    latest (sameHeader k) q t.base
  name : t.nameIndex.Repr nameTraits NoNul fun n => latest (sameName n) q t.base

variable {t : IndexTable} {q : List Header} {h : Header}

theorem header_roomy (m : Map Header ℕ) : m.Roomy headerTraits := fun hs => by cases hs

theorem name_roomy (m : Map Str ℕ) : m.Roomy nameTraits := fun hs => by cases hs

theorem Base.base_eq (hb : Base t q) : t.base + q.length = t.addTimes := by
  have := hb.times
  have := hb.holds.count
  unfold base
  omega

/-! ### Evicting -/

/-- **One map of `RemoveHeaderFromIndexes`.**  The key of the oldest entry is erased if its time is that
of the oldest entry. -/
theorem removeIfLatest_spec {K : Type*} {T : Traits K ℕ} {P : K → Prop} (hT : T.Lawful P)
    {m : Map K ℕ} {same : K → Header → Bool} {key : K} {base : ℕ}
    (hm : m.Repr T P fun k => latest (same k) (x :: q) base) (hkey : P key)
    (hsame : ∀ k, P k → same k x = T.eql key k) (hself : same key x = true) :
    ∃ m', removeIfLatest T m key base = some m' ∧ m'.Repr T P fun k => latest (same k) q (base + 1) := by
  obtain ⟨v, hv⟩ := ne_none_iff_exists'.1 (latest_ne_none base (mem_cons_self (l := q)) hself)
  unfold removeIfLatest
  rw [hm.seek key hkey, hv, map_some]
  refine ⟨_, rfl, ?_⟩
  split_ifs with hbase
  · refine ((hm.erase hT hkey).1).of_eq fun k hk => ?_
    rw [del, latest_tail (same k) x q base, hsame k hk]
    by_cases heq : T.eql key k = true
    · have hlk : latest (same k) (x :: q) base = some base := by
        rw [← hm.congr hT hkey hk heq, hv, hbase]
      rw [if_pos heq, if_pos ⟨heq, hlk⟩]
    · rw [if_neg heq, if_neg fun hc => heq hc.1]
  · refine hm.of_eq fun k hk => ?_
    rw [latest_tail (same k) x q base, if_neg]
    rintro ⟨hsk, hlk⟩
    rw [hsame k hk] at hsk
    rw [← hm.congr hT hkey hk hsk, hv] at hlk
    exact hbase (some.inj hlk)

/-- The table has the headers `q`, and with the maps if it is to have them. -/
structure Inv (t : IndexTable) (q : List Header) : Prop where
  base : Base t q
  indexed : t.needIndexes = true → Indexed t q

/-- What no operation on the headers changes. -/
structure Same (t t' : IndexTable) : Prop where
  startIndex : t'.startIndex = t.startIndex
  needIndexes : t'.needIndexes = t.needIndexes
  maxSize : t'.maxSize = t.maxSize
  cap : t'.queue.cap = t.queue.cap

theorem Same.refl (t : IndexTable) : Same t t := ⟨rfl, rfl, rfl, rfl⟩

theorem Same.trans {t t' t'' : IndexTable} (h : Same t t') (h' : Same t' t'') : Same t t'' :=
  ⟨h'.startIndex.trans h.startIndex, h'.needIndexes.trans h.needIndexes, h'.maxSize.trans h.maxSize,
    h'.cap.trans h.cap⟩

/-- **`RemoveHeaderFromIndexes` of the oldest header** leaves the maps for the rest. -/
theorem removeHeaderFromIndexes_spec (hi : Indexed t (x :: q)) :
    ∃ headerIndex nameIndex, t.removeHeaderFromIndexes x t.base =
        some { t with headerIndex := headerIndex, nameIndex := nameIndex } ∧
      headerIndex.Repr headerTraits (fun h => NoNul h.name) (fun k => latest (sameHeader k) q (t.base + 1)) ∧
      nameIndex.Repr nameTraits NoNul fun n => latest (sameName n) q (t.base + 1) := by
  have hx : NoNul x.name := hi.names x mem_cons_self
  obtain ⟨nameIndex, hname, hnrepr⟩ := removeIfLatest_spec nameTraits_lawful hi.name hx
    (fun _ _ => rfl) ((caseIgnoredEqual_iff hx).2 rfl)
  unfold removeHeaderFromIndexes
  by_cases hv : x.value = []
  · rw [if_neg (by simpa using hv), bind_some, hname]
    refine ⟨_, _, rfl, hi.header.of_eq fun k _ => ?_, hnrepr⟩
    rw [latest, sameHeader, hv]
    simp
  · obtain ⟨_, hheader, hhrepr⟩ := removeIfLatest_spec headerTraits_lawful hi.header hx
      (fun k _ => by simp [sameHeader, hv, headerTraits])
      (by simp [sameHeader, hv, (headerEqualTo_iff hx).2])
    rw [if_pos hv, hheader, bind_some, hname]
    exact ⟨_, _, rfl, hhrepr, hnrepr⟩

/-- **`PopHeader`.** -/
theorem popHeader_spec (hinv : Inv t (x :: q)) :
    ∃ t', t.popHeader = some t' ∧ Inv t' q ∧ Same t t' ∧ t'.addTimes = t.addTimes := by
  have hb := hinv.base
  have hcount := hb.holds.count
  have htimes := hb.times
  have hfew := hb.few
  have hindexes := hb.indexes
  rw [length_cons] at hcount hindexes
  obtain ⟨hpop, hstart, hcap, hcount'⟩ := hb.holds.pop (by omega)
  have hbase : (t.addTimes + 18446744073709551616 - t.queue.count) % 18446744073709551616 = t.base := by
    unfold base
    omega
  have hsize := hb.size
  rw [sizes] at hsize
  unfold popHeader
  rw [hb.holds.top, bind_some, hbase]
  cases hneed : t.needIndexes with
  | false =>
    refine ⟨_, rfl, ⟨⟨hpop, by simp only; omega, by simp only; omega, hfew, by simp only; omega⟩, fun hc => ?_⟩,
      ⟨rfl, rfl, rfl, hcap⟩, rfl⟩
    simp only [hneed] at hc
    cases hc
  | true =>
    have hi := hinv.indexed hneed
    obtain ⟨headerIndex, nameIndex, hrem, hh, hn⟩ := removeHeaderFromIndexes_spec hi
    simp only [if_true, hrem, map_some]
    have hbase' : t.addTimes - t.queue.pop.count = t.base + 1 := by
      omega
    refine ⟨_, rfl, ⟨⟨hpop, by simp only; omega, by simp only; omega, hfew, by simp only; omega⟩, fun _ => ?_⟩,
      ⟨rfl, rfl, rfl, hcap⟩, rfl⟩
    refine ⟨fun y hy => hi.names y (mem_cons_of_mem _ hy), ?_, ?_⟩
    · simp only [base, hbase']
      exact hh
    · simp only [base, hbase']
      exact hn

/-- **The eviction loop**: the oldest headers are dropped until there is place. -/
theorem evict_spec (hinv : Inv t q) (entrySize : ℕ) : ∃ t', evict q.length t entrySize = some t' ∧
      Inv t' (dropOld t.maxSize entrySize q) ∧ Same t t' ∧ t'.addTimes = t.addTimes := by
  induction q generalizing t with
  | nil =>
    have hsize : t.size = 0 := hinv.base.size
    unfold evict
    rw [if_neg (by simp [hsize])]
    exact ⟨t, rfl, hinv, .refl t, rfl⟩
  | cons x q ih =>
    have hsize := hinv.base.size
    have hpos : 0 < sizes (x :: q) := by
      rw [sizes, headerSize]
      omega
    unfold evict
    rw [dropOld, ← hsize, length_cons]
    by_cases hfull : t.maxSize < t.size + entrySize
    · rw [if_pos ⟨by omega, hfull⟩, if_pos hfull]
      obtain ⟨t₁, h₁, hinv₁, hsame₁, htimes₁⟩ := popHeader_spec hinv
      obtain ⟨t₂, h₂, hinv₂, hsame₂, htimes₂⟩ := ih hinv₁
      rw [hsame₁.maxSize] at hinv₂
      exact ⟨t₂, by simp only [h₁, bind_some, h₂], hinv₂, hsame₁.trans hsame₂, htimes₂.trans htimes₁⟩
    · rw [if_neg fun hc => hfull hc.2, if_neg hfull]
      exact ⟨t, rfl, hinv, .refl t, rfl⟩

/-! ### Adding -/

theorem narrow_of_lt {x : ℕ} (h : x < 2147483648) : narrow x = x := by
  unfold narrow
  rw [Nat.mod_eq_of_lt (by omega)]
  exact if_pos h

theorem latestAt_spec {K : Type*} {T : Traits K ℕ} {P : K → Prop} (hT : T.Lawful P)
    {m : Map K ℕ} {f : K → Option ℕ} (hm : m.Repr T P f) (hr : m.Roomy T) {key : K} (hkey : P key)
    (id : ℕ) : (latestAt T m key id).Repr T P (put T f key id) := by
  obtain ⟨m', hm', hrepr, -⟩ := hm.insert hT memory hr hkey id
  rw [latestAt, hm', getD_some]
  exact hrepr

/-- **A header pushed and noted in the maps.** -/
theorem append_spec (hinv : Inv t q) (hplace : q.length < t.queue.cap)
    (hname : t.needIndexes = true → NoNul h.name) (hfew : t.addTimes < 2147483648)
    (hindex : t.startIndex + q.length < 2147483648) :
    Inv (t.append h) (q ++ [h]) ∧ Same t (t.append h) ∧ (t.append h).addTimes = t.addTimes + 1 := by
  have hb := hinv.base
  have hcount := hb.holds.count
  have htimes := hb.times
  have hfull : t.queue.full = false := by
    rw [BoundedQueue.full, beq_eq_false_iff_ne]
    omega
  obtain ⟨hpush, hstart, hcap⟩ := hb.holds.push hfull (by omega) h
  have hcount' : (t.queue.push h).1.count = t.queue.count + 1 := by
    rw [hpush.count, length_append, length_singleton, hcount]
  have hadd : (t.addTimes + 1) % 18446744073709551616 = t.addTimes + 1 := Nat.mod_eq_of_lt (by omega)
  refine ⟨⟨⟨hpush, ?_, ?_, ?_, ?_⟩, fun hneed => ?_⟩, ⟨rfl, rfl, rfl, hcap⟩, hadd⟩
  · rw [sizes_append, sizes, sizes, ← hb.size]
    rfl
  · simp only [append, hadd, hstart, hcount']
    omega
  · simp only [append, hadd]
    omega
  · rw [length_append, length_singleton]
    exact hindex
  · replace hneed : t.needIndexes = true := hneed
    have hi := hinv.indexed hneed
    have hbase : (t.append h).base = t.base := by
      simp only [base, append, hadd, hcount']
      omega
    have hlast : t.base + q.length = t.addTimes := hb.base_eq
    refine ⟨fun x hx => ?_, ?_, ?_⟩
    · exact forall_mem_append.2 ⟨hi.names, forall_mem_singleton.2 (hname hneed)⟩ x hx
    · rw [hbase]
      simp only [append, hneed, Bool.true_and, narrow_of_lt (show t.addTimes < _ by omega)]
      by_cases hv : h.value = []
      · rw [if_neg (by simp [hv])]
        refine hi.header.of_eq fun k _ => ?_
        rw [latest_append, if_neg (by simp [sameHeader, hv])]
      · rw [if_pos (by simpa using hv)]
        refine (latestAt_spec headerTraits_lawful hi.header (header_roomy _) (hname hneed) _).of_eq fun k _ => ?_
        have hsame : sameHeader k h = headerTraits.eql h k := by simp [sameHeader, hv, headerTraits]
        rw [latest_append, hlast, put, hsame]
    · rw [hbase]
      simp only [append, hneed, if_true, narrow_of_lt (show t.addTimes < _ by omega)]
      refine (latestAt_spec nameTraits_lawful hi.name (name_roomy _) (hname hneed) _).of_eq fun k _ => ?_
      rw [latest_append, hlast, put]
      rfl

end Brpc.Hpack
