/-
# The indexes the encoder finds

`GetIndexOfHeader` and `GetIndexOfName` turn the time an entry was added into its index
(`index_table_sound`), and the sizes are accounted for (`table_accounting`).
-/

import Brpc.Hpack.IndexTableInv
import Brpc.Lib.Run

namespace Brpc.Hpack

open List IndexTable FlatMap

variable {t : IndexTable} {q : List Header} {h : Header}

/-! ### `AddHeader` and `ResetMaxSize` -/

/-- **`AddHeader`.** -/
theorem addHeader_spec (hinv : Inv t q) (hname : t.needIndexes = true → NoNul h.name)
    (hfew : t.addTimes < 2147483648) (hplace : headerSize h ≤ t.maxSize →
      (dropOld t.maxSize (headerSize h) q).length < t.queue.cap ∧
      t.startIndex + (dropOld t.maxSize (headerSize h) q).length < 2147483648) :
    ∃ t', t.addHeader h = some t' ∧ Inv t' (add t.maxSize q h) ∧ Same t t' ∧
      t'.addTimes = t.addTimes + if t.maxSize < headerSize h then 0 else 1 := by
  obtain ⟨t₁, h₁, hinv₁, hsame, htimes⟩ := evict_spec hinv (headerSize h)
  unfold addHeader add
  rw [hinv.base.holds.count, h₁, Option.map_some, hsame.maxSize]
  split_ifs with hbig
  · exact ⟨t₁, rfl, hinv₁, hsame, htimes⟩
  · obtain ⟨hcap, hindex⟩ := hplace (by omega)
    obtain ⟨hinv₂, hsame₂, htimes₂⟩ := append_spec hinv₁ (by rwa [hsame.cap])
      (fun hn => hname (hsame.needIndexes ▸ hn)) (by rwa [htimes]) (by rwa [hsame.startIndex])
    exact ⟨_, rfl, hinv₂, hsame.trans hsame₂, by omega⟩

theorem Inv.withMaxSize (hinv : Inv t q) (n : ℕ) : Inv { t with maxSize := n } q :=
  ⟨⟨hinv.base.holds, hinv.base.size, hinv.base.times, hinv.base.few, hinv.base.indexes⟩,
    fun hneed => ⟨(hinv.indexed hneed).names, (hinv.indexed hneed).header, (hinv.indexed hneed).name⟩⟩

/-- **`ResetMaxSize`.** -/
theorem resetMaxSize_spec (hinv : Inv t q) (n : ℕ) :
    ∃ t' q', t.resetMaxSize n = some t' ∧ Inv t' q' ∧ q' <:+ q ∧ t'.startIndex = t.startIndex ∧
      t'.needIndexes = t.needIndexes ∧ t'.addTimes = t.addTimes ∧ t'.maxSize = n := by
  unfold resetMaxSize
  split_ifs with hgrow hshrink
  · exact ⟨_, q, rfl, hinv.withMaxSize n, suffix_rfl, rfl, rfl, rfl, rfl⟩
  · obtain ⟨t', h', hinv', hsame, htimes⟩ := evict_spec (hinv.withMaxSize n) 0
    rw [hinv.base.holds.count, h']
    exact ⟨t', _, rfl, hinv', dropOld_suffix .., hsame.startIndex, hsame.needIndexes, htimes, hsame.maxSize⟩
  · exact ⟨t, q, rfl, hinv, suffix_rfl, rfl, rfl, rfl, by omega⟩

/-- **`Init`** gives an empty table. -/
theorem create_inv {startIndex maxSize numHeaders : ℕ} {needIndexes : Bool}
    (hstart : startIndex ≤ 2147483648) (hnum : numHeaders ≤ 2 ^ 62)
    (ht : create startIndex needIndexes maxSize numHeaders = some t) :
    Inv t [] ∧ t.startIndex = startIndex ∧ t.needIndexes = needIndexes ∧ t.addTimes = 0 ∧
      t.maxSize = maxSize ∧ t.queue.cap = numHeaders % 4294967296 := by
  unfold create at ht
  have hfail : ¬ (needIndexes = true ∧
      ((Map.init nameTraits memory {} (numHeaders * 2) 80).2 ≠ 0 ∨
        (Map.init headerTraits memory {} (numHeaders * 2) 80).2 ≠ 0)) := by
    intro hc
    rw [if_pos hc] at ht
    cases ht
  rw [if_neg hfail] at ht
  cases ht
  refine ⟨⟨⟨BoundedQueue.holds_ofMemory _, rfl, le_rfl, by simp, hstart⟩, fun hneed => ?_⟩, rfl, rfl, rfl, rfl, rfl⟩
  subst hneed
  have hok : ¬ ((Map.init nameTraits memory {} (numHeaders * 2) 80).2 ≠ 0 ∨
      (Map.init headerTraits memory {} (numHeaders * 2) 80).2 ≠ 0) :=
    fun hc => hfail ⟨rfl, hc⟩
  rw [not_or, not_not, not_not] at hok
  refine ⟨fun x hx => absurd hx not_mem_nil, ?_, ?_⟩
  · rcases init_spec (T := headerTraits) (P := fun h => NoNul h.name) (m := {}) memory 80
      (show numHeaders * 2 ≤ 2 ^ 63 by omega) with ⟨hc, -⟩ | ⟨-, -, hrepr, -⟩
    · exact absurd hok.2 hc
    · exact hrepr
  · rcases init_spec (T := nameTraits) (P := NoNul) (m := {}) memory 80
      (show numHeaders * 2 ≤ 2 ^ 63 by omega) with ⟨hc, -⟩ | ⟨-, -, hrepr, -⟩
    · exact absurd hok.1 hc
    · exact hrepr

/-! ### Indexes -/

variable {v : ℕ}

theorem indexOf_eq (hb : Base t q) (hle : t.base ≤ v) (hlt : v < t.base + q.length) :
    t.indexOf v = t.startIndex + (t.addTimes - v - 1 : ℕ) := by
  have := hb.indexes
  have := hb.base_eq
  unfold indexOf
  rw [Int.bmod_eq_of_le (by omega) (by omega)]
  omega

/-- **The entry at an index**: the newest one has the smallest. -/
theorem headerAt_eq (hb : Base t q) (i : ℕ) :
    t.headerAt (t.startIndex + i) = if i < q.length then q[q.length - 1 - i]? else none := by
  have := hb.times
  have := hb.few
  unfold headerAt
  rw [if_neg (by omega), show ((t.startIndex : ℤ) + i - t.startIndex).toNat = i by omega, hb.holds.bottom (by omega)]

theorem headerAt_indexOf (hb : Base t q) (hle : t.base ≤ v) (hlt : v < t.base + q.length) :
    t.headerAt (t.indexOf v) = q[v - t.base]? := by
  have := hb.base_eq
  rw [indexOf_eq hb hle hlt, headerAt_eq hb, if_pos (by omega)]
  congr 1
  omega

theorem index_of_headerAt (hb : Base t q) {i : ℤ} {x : Header} (hx : t.headerAt i = some x) :
    ((t.startIndex : ℤ) ≤ i ∧ i < t.startIndex + q.length) ∧ x ∈ q := by
  have hle : (t.startIndex : ℤ) ≤ i := by
    by_contra hc
    rw [headerAt, if_pos (by omega)] at hx
    cases hx
  rw [show i = t.startIndex + ((i - t.startIndex).toNat : ℤ) by omega, headerAt_eq hb] at hx
  split_ifs at hx
  exact ⟨⟨hle, by omega⟩, mem_of_getElem? hx⟩

/-! ### Queries with any name -/

theorem exists_eql_of_seek {K V : Type*} {T : Traits K V} {P : K → Prop} {m : Map K V}
    (hm : m.Wf T P) {k : K} {v : V} (hv : m.seek T k = some v) : ∃ k', P k' ∧ T.eql k' k = true := by
  rw [hm.seek_eq] at hv
  have hne : chainSeek T.eql k (m.buckets (m.slot T k)).elems ≠ none := by simp [hv]
  rw [Ne, chainSeek_eq_none] at hne
  simp only [not_forall, Bool.not_eq_false] at hne
  obtain ⟨e, he, heq⟩ := hne
  exact ⟨e.1, (hm.chain _ (hm.slot_lt k)).keys e he, heq⟩

theorem noNul_of_equal {a b : Str} (ha : NoNul a) (h : caseIgnoredEqual a b = true) : NoNul b := by
  rw [← noNul_tolower, ← (caseIgnoredEqual_iff ha).1 h, noNul_tolower]
  exact ha

theorem seek_header (hi : Indexed t q) {k : Header}
    (hv : t.headerIndex.seek headerTraits k = some v) : latest (sameHeader k) q t.base = some v := by
  obtain ⟨k', hk', heq⟩ := exists_eql_of_seek hi.header.wf hv
  have hk : NoNul k.name := noNul_of_equal hk' ((caseIgnoredEqual_iff hk').2 ((headerEqualTo_iff hk').1 heq).1)
  rwa [hi.header.seek k hk] at hv

theorem seek_name (hi : Indexed t q) {n : Str}
    (hv : t.nameIndex.seek nameTraits n = some v) : latest (sameName n) q t.base = some v := by
  obtain ⟨n', hn', heq⟩ := exists_eql_of_seek hi.name.wf hv
  rwa [hi.name.seek n (noNul_of_equal hn' heq)] at hv

/-! ### Soundness -/

/-- The indexes found are those of equal entries, and every entry is found. -/
structure IndexesSound (t : IndexTable) : Prop where
  header : ∀ h, 0 < t.getIndexOfHeader h → ∃ x, t.headerAt (t.getIndexOfHeader h) = some x ∧
    tolower x.name = tolower h.name ∧ x.value = h.value
  name : ∀ n, 0 < t.getIndexOfName n → ∃ x, t.headerAt (t.getIndexOfName n) = some x ∧ tolower x.name = tolower n
  found : ∀ i x, t.headerAt i = some x → (x.value ≠ [] → 0 < t.getIndexOfHeader x) ∧ 0 < t.getIndexOfName x.name

theorem getIndexOfHeader_spec (hb : Base t q) (hi : Indexed t q) (hstart : 1 ≤ t.startIndex)
    (k : Header) : t.getIndexOfHeader k = 0 ∧ t.headerIndex.seek headerTraits k = none ∨
    ∃ x, 0 < t.getIndexOfHeader k ∧ t.headerAt (t.getIndexOfHeader k) = some x ∧ x ∈ q ∧
      tolower x.name = tolower k.name ∧ x.value = k.value := by
  unfold getIndexOfHeader
  cases hv : t.headerIndex.seek headerTraits k with
  | none => exact .inl ⟨rfl, rfl⟩
  | some =>
    obtain ⟨hle, hlt, x, hx, hp⟩ := latest_eq_some (seek_header hi hv)
    have hmem := mem_of_getElem? hx
    rw [sameHeader, Bool.and_eq_true, headerEqualTo_iff (hi.names x hmem)] at hp
    refine .inr ⟨x, ?_, ?_, hmem, hp.2⟩
    · simp only [indexOf_eq hb hle hlt]
      omega
    · simp only [headerAt_indexOf hb hle hlt]
      exact hx

theorem getIndexOfName_spec (hb : Base t q) (hi : Indexed t q) (hstart : 1 ≤ t.startIndex)
    (n : Str) : t.getIndexOfName n = 0 ∧ t.nameIndex.seek nameTraits n = none ∨
    ∃ x, 0 < t.getIndexOfName n ∧ t.headerAt (t.getIndexOfName n) = some x ∧ x ∈ q ∧ tolower x.name = tolower n := by
  unfold getIndexOfName
  cases hv : t.nameIndex.seek nameTraits n with
  | none => exact .inl ⟨rfl, rfl⟩
  | some =>
    obtain ⟨hle, hlt, x, hx, hp⟩ := latest_eq_some (seek_name hi hv)
    have hmem := mem_of_getElem? hx
    rw [sameName, caseIgnoredEqual_iff (hi.names x hmem)] at hp
    refine .inr ⟨x, ?_, ?_, hmem, hp⟩
    · simp only [indexOf_eq hb hle hlt]
      omega
    · simp only [headerAt_indexOf hb hle hlt]
      exact hx

/-- **A table that keeps its invariant has sound indexes.** -/
theorem Inv.indexesSound (hinv : Inv t q) (hneed : t.needIndexes = true) (hstart : 1 ≤ t.startIndex) :
    IndexesSound t := by
  have hb := hinv.base
  have hi := hinv.indexed hneed
  refine ⟨fun k hk => ?_, fun n hn => ?_, fun i x hx => ⟨fun hv => ?_, ?_⟩⟩
  · rcases getIndexOfHeader_spec hb hi hstart k with ⟨h0, -⟩ | ⟨x, -, hx, -, heq⟩
    · omega
    · exact ⟨x, hx, heq⟩
  · rcases getIndexOfName_spec hb hi hstart n with ⟨h0, -⟩ | ⟨x, -, hx, -, heq⟩
    · omega
    · exact ⟨x, hx, heq⟩
  · have hmem := (index_of_headerAt hb hx).2
    rcases getIndexOfHeader_spec hb hi hstart x with ⟨-, hnone⟩ | ⟨-, hpos, -⟩
    · rw [hi.header.seek x (hi.names x hmem)] at hnone
      refine absurd hnone (latest_ne_none _ hmem ?_)
      simp [sameHeader, hv, (headerEqualTo_iff (hi.names x hmem)).2]
    · exact hpos
  · have hmem := (index_of_headerAt hb hx).2
    rcases getIndexOfName_spec hb hi hstart x.name with ⟨-, hnone⟩ | ⟨-, hpos, -⟩
    · rw [hi.name.seek x.name (hi.names x hmem)] at hnone
      exact absurd hnone (latest_ne_none _ hmem ((caseIgnoredEqual_iff (hi.names x hmem)).2 rfl))
    · exact hpos

/-! ### Runs -/

/-- What happens to a table. -/
inductive TableOp where
  | add (h : Header)
  | resetMaxSize (n : ℕ)

/-- A step of a run; after a null pointer was read nothing happens any more. -/
def tableStep (t : Option IndexTable) : TableOp → Option IndexTable
  | .add h => t.bind fun t => t.addHeader h
  | .resetMaxSize n => t.bind fun t => t.resetMaxSize n

/-- The insertion fits: no zero byte in the name, an index that fits an `int`, and a place in the
queue after the evictions. -/
def Fits (t : IndexTable) (h : Header) : Prop :=
  NoNul h.name ∧ t.startIndex + t.addTimes < 2147483648 ∧
    ∀ t' ∈ evict t.queue.count t (headerSize h),
      headerSize h ≤ t'.maxSize → t'.queue.full = false

instance (t : IndexTable) (h : Header) : Decidable (Fits t h) :=
  inferInstanceAs (Decidable (_ ∧ _ ∧ _))

/-- The condition on a step of a run. -/
def OpFits (t : Option IndexTable) : TableOp → Prop
  | .add h => ∀ t' ∈ t, Fits t' h
  | .resetMaxSize _ => True

/-- What holds in every state of a run. -/
def Runs (startIndex : ℕ) (t : Option IndexTable) : Prop :=
  ∃ t' q, t = some t' ∧ Inv t' q ∧ t'.needIndexes = true ∧ t'.startIndex = startIndex

theorem runs_step {startIndex : ℕ} (t : Option IndexTable) (op : TableOp) (h : Runs startIndex t)
    (hop : OpFits t op) : Runs startIndex (tableStep t op) := by
  obtain ⟨t, q, rfl, hinv, hneed, hstart⟩ := h
  cases op with
  | add h =>
    obtain ⟨hname, hfew, hplace⟩ := hop t rfl
    obtain ⟨t₁, h₁, hinv₁, hsame₁, -⟩ := evict_spec hinv (headerSize h)
    have hlen := (dropOld_suffix t.maxSize (headerSize h) q).length_le
    have hbase := hinv.base.base_eq
    obtain ⟨t', h', hinv', hsame, -⟩ := addHeader_spec hinv (fun _ => hname) (by omega) fun hle => by
      have hfull := hplace t₁ (by rw [hinv.base.holds.count]; exact h₁) (by rwa [hsame₁.maxSize])
      have hcount := hinv₁.base.holds.count
      have hcap := hinv₁.base.holds.cap
      rw [BoundedQueue.full, beq_eq_false_iff_ne] at hfull
      rw [← hsame₁.cap]
      exact ⟨by omega, by omega⟩
    exact ⟨t', _, h', hinv', hsame.needIndexes.trans hneed, hsame.startIndex.trans hstart⟩
  | resetMaxSize n =>
    obtain ⟨t', q', h', hinv', -, hs, hn, -⟩ := resetMaxSize_spec hinv n
    exact ⟨t', q', h', hinv', hn.trans hneed, hs.trans hstart⟩

/-- **The encoder's indexes are sound**, in every run whose insertions fit: what is found is at
that index, and every entry is found. -/
theorem index_table_sound {startIndex maxSize numHeaders : ℕ} (hstart : 1 ≤ startIndex)
    (hint : startIndex < 2147483648) (hnum : numHeaders ≤ 2 ^ 62)
    (ht : create startIndex true maxSize numHeaders = some t) (ops : List TableOp)
    (hfits : Lib.Along tableStep OpFits (some t) ops) :
    ∃ t', Lib.run tableStep (some t) ops = some t' ∧ IndexesSound t' := by
  obtain ⟨hinv, hs, hneed, -⟩ := create_inv hint.le hnum ht
  obtain ⟨t', q, h', hinv', hneed', hs'⟩ := Lib.run_invariant (I := Runs startIndex) runs_step ops (some t)
    ⟨t, [], rfl, hinv, hneed, hs⟩ hfits
  exact ⟨t', h', hinv'.indexesSound hneed' (by omega)⟩

def threeHeaders : List TableOp := [.add ⟨[97], [98]⟩, .add ⟨[97], [99]⟩, .add ⟨[98], [99]⟩]

/-- A table for two headers drops the first of the three. -/
theorem threeHeaders_sound : ∃ t t', create 62 true 68 2 = some t ∧
    Lib.run tableStep (some t) threeHeaders = some t' ∧ t'.getIndexOfHeader ⟨[97], [98]⟩ = 0 ∧ IndexesSound t' := by
  have hfits : Lib.Along tableStep OpFits (create 62 true 68 2) threeHeaders := by
    refine ⟨fun t' ht' => ?_, fun t' ht' => ?_, fun t' ht' => ?_, trivial⟩ <;>
      obtain rfl := Option.some.inj (show some _ = some t' from ht') <;> decide
  obtain ⟨_, ⟨⟩, hsound⟩ :=
    index_table_sound (show 1 ≤ 62 by decide) (by decide) (show 2 ≤ 2 ^ 62 by decide) rfl _ hfits
  exact ⟨_, _, rfl, rfl, by decide +kernel, hsound⟩

/-- **A header without a place**: of the headers `a` and `b` of 33 bytes in a table of 66 the
second one is not stored, and its name is found at the index of the first one. -/
theorem name_of_lost_header_found : ∃ t t', initDynamic 62 true 66 = some t ∧
    Lib.run tableStep (some t) [.add ⟨[97], []⟩, .add ⟨[98], []⟩] = some t' ∧
    t'.getIndexOfName [98] = 62 ∧ t'.headerAt 62 = some ⟨[97], []⟩ :=
  ⟨_, _, rfl, rfl, by decide, by decide⟩

/-! ## The size of a table -/

open Option (bind_eq_some_iff map_eq_some_iff)

variable {M : ℕ} {t t' : IndexTable} {q : List Header} {x h : Header}

/-- The table, made for `M` bytes, has the headers `q`, of at least 34 bytes each, and their size. -/
structure Accounts (M : ℕ) (t : IndexTable) (q : List Header) : Prop where
  holds : t.queue.Holds q
  size : t.size = sizes q
  large : ∀ x ∈ q, 34 ≤ headerSize x
  limit : t.maxSize ≤ M
  cap : t.queue.cap = M / 34
  few : M / 34 ≤ 2147483648

theorem popHeader_accounts (ha : Accounts M t (x :: q)) (h : t.popHeader = some t') : Accounts M t' q := by
  have hstart := ha.holds.start
  obtain ⟨hpop, -, hcap, -⟩ := ha.holds.pop (by have := ha.cap; have := ha.few; omega)
  have hsize : t.size - headerSize x = sizes q := by rw [ha.size, sizes, Nat.add_sub_cancel_left]
  have hlarge := (forall_mem_cons.1 ha.large).2
  unfold popHeader at h
  rw [ha.holds.top, Option.bind_some] at h
  obtain ⟨t₁, h₁, rfl⟩ := map_eq_some_iff.1 h
  split_ifs at h₁
  · obtain ⟨a, -, h₁⟩ := bind_eq_some_iff.1 h₁
    obtain ⟨b, -, rfl⟩ := map_eq_some_iff.1 h₁
    exact ⟨hpop, hsize, hlarge, ha.limit, hcap.trans ha.cap, ha.few⟩
  · cases h₁
    exact ⟨hpop, hsize, hlarge, ha.limit, hcap.trans ha.cap, ha.few⟩

/-- **The eviction loop** ends with place for the header, or with an empty table. -/
theorem evict_accounts {n entrySize : ℕ} (ha : Accounts M t q) (h : evict n t entrySize = some t') :
    (t'.size = 0 ∨ t'.size + entrySize ≤ t'.maxSize) ∧ ∃ q', Accounts M t' q' := by
  induction n generalizing t q with
  | zero =>
    unfold evict at h
    split_ifs at h
    cases h
    exact ⟨by omega, q, ha⟩
  | succ n ih =>
    unfold evict at h
    split_ifs at h with hc
    · obtain ⟨t₁, h₁, h⟩ := bind_eq_some_iff.1 h
      cases q with
      | nil => exact absurd ha.size hc.1
      | cons => exact ih (popHeader_accounts ha h₁) h
    · cases h
      exact ⟨by omega, q, ha⟩

/-- **A header of at least 34 bytes has a place** when there is room for its bytes. -/
theorem append_accounts (ha : Accounts M t q) (hh : 34 ≤ headerSize h) (hle : t.size + headerSize h ≤ t.maxSize) :
    t.queue.full = false ∧ Accounts M (t.append h) (q ++ [h]) := by
  have hfull : t.queue.full = false := by
    have hlen := length_le_sizes ha.large
    have hlimit := ha.limit
    rw [ha.size] at hle
    rw [BoundedQueue.full, beq_eq_false_iff_ne, ha.cap, ha.holds.count]
    omega
  have hstart := ha.holds.start
  have hcount := ha.holds.cap
  obtain ⟨hpush, -, hcap⟩ := ha.holds.push hfull (by have := ha.cap; have := ha.few; omega) h
  refine ⟨hfull, hpush, ?_, fun y hy => ?_, ha.limit, hcap.trans ha.cap, ha.few⟩
  · rw [sizes_append, sizes, sizes, ← ha.size]
    rfl
  · exact forall_mem_append.2 ⟨ha.large, forall_mem_singleton.2 (‹_›)⟩ y hy

/-! ### Runs -/

/-- A header has at least 34 bytes, and the limit is not raised above `M`. -/
def InBounds (M : ℕ) : TableOp → Prop
  | .add h => 34 ≤ headerSize h
  | .resetMaxSize n => n ≤ M

/-- The `CHECK` of `AddHeader`: the queue that the header is pushed to is not full. -/
def CheckHolds (t : IndexTable) (h : Header) : Prop :=
  ∀ t' ∈ evict t.queue.count t (headerSize h), headerSize h ≤ t'.maxSize → t'.queue.full = false

/-- `_size` is the size of the headers in the queue, and within the limit. -/
def Accounted (t : IndexTable) : Prop := t.size ≤ t.maxSize ∧ ∃ q, t.queue.Holds q ∧ t.size = sizes q

/-- What holds in every state of a run. -/
def Sized (M : ℕ) (o : Option IndexTable) : Prop := ∀ t ∈ o, t.size ≤ t.maxSize ∧ ∃ q, Accounts M t q

theorem Sized.step (o : Option IndexTable) (op : TableOp) (hs : Sized M o) (hop : InBounds M op) :
    Sized M (tableStep o op) := by
  intro t' ht'
  cases op with
  | add h =>
    obtain ⟨t, rfl, ht'⟩ := bind_eq_some_iff.1 ht'
    obtain ⟨-, q, ha⟩ := hs t rfl
    obtain ⟨t₁, h₁, rfl⟩ := map_eq_some_iff.1 ht'
    obtain ⟨hroom, q₁, ha₁⟩ := evict_accounts ha h₁
    split_ifs with hbig
    · exact ⟨by omega, q₁, ha₁⟩
    · have hle : t₁.size + headerSize h ≤ t₁.maxSize := by omega
      exact ⟨hle, _, (append_accounts ha₁ hop hle).2⟩
  | resetMaxSize n =>
    obtain ⟨t, rfl, hreset⟩ := bind_eq_some_iff.1 ht'
    obtain ⟨hle, q, ha⟩ := hs t rfl
    have ha' : Accounts M { t with maxSize := n } q := { ha with limit := hop }
    simp only [resetMaxSize] at hreset
    split_ifs at hreset with hgrow hshrink
    · cases hreset
      exact ⟨hle.trans hgrow.le, q, ha'⟩
    · obtain ⟨hroom, hq⟩ := evict_accounts ha' hreset
      exact ⟨by omega, hq⟩
    · cases hreset
      exact ⟨hle, q, ha⟩

/-- **The size is the size of the headers**, and the `CHECK` does not fire for the next one, after every run with
headers of at least 34 bytes in which the limit is not raised above that of `Init`. -/
theorem table_accounting {startIndex : ℕ} {need : Bool} (ht : initDynamic startIndex need M = some t)
    (hM : M / 34 ≤ 2147483648) (ops : List TableOp) (hops : ∀ op ∈ ops, InBounds M op) :
    ∀ t' ∈ Lib.run tableStep (some t) ops, Accounted t' ∧ ∀ h, 34 ≤ headerSize h → CheckHolds t' h := by
  have hinit : Sized M (some t) := by
    intro t' ht'
    cases ht'
    obtain ⟨-, ht⟩ := Option.ite_none_left_eq_some.1 ht
    cases ht
    exact ⟨Nat.zero_le _, [], BoundedQueue.holds_ofMemory _, rfl, forall_mem_nil _, le_rfl,
      Nat.mod_eq_of_lt (by omega), hM⟩
  have hrun : Sized M (Lib.run tableStep (some t) ops) :=
    Lib.run_invariant Sized.step ops _ hinit (by simpa using Lib.along_and_mem (Lib.along_true tableStep ops _) hops)
  intro t' ht'
  obtain ⟨hle, q, ha⟩ := hrun t' ht'
  refine ⟨⟨hle, q, ha.holds, ha.size⟩, fun h hh t₁ h₁ hbig => ?_⟩
  obtain ⟨hroom, q₁, ha₁⟩ := evict_accounts ha h₁
  exact (append_accounts ha₁ hh (by omega)).1

/-- Two headers of 34 bytes in a table with place for them, and a lower limit. -/
theorem two_headers_accounted : ∃ t t', initDynamic 62 false 68 = some t ∧
    Lib.run tableStep (some t) [.add ⟨[97], [98]⟩, .add ⟨[98], [99]⟩, .resetMaxSize 40] = some t' ∧
    Accounted t' ∧ CheckHolds t' ⟨[97], [98]⟩ := by
  have hall := fun t ht => table_accounting (t := t) (show initDynamic 62 false 68 = some t from ht) (by decide)
    [.add ⟨[97], [98]⟩, .add ⟨[98], [99]⟩, .resetMaxSize 40] (by simp [InBounds, headerSize])
  obtain ⟨haccounted, hcheck⟩ := hall _ rfl _ rfl
  exact ⟨_, _, rfl, rfl, haccounted, hcheck _ (by decide)⟩

/-- **A header without a place**: the second of two headers of 33 bytes in a table of 66 is not stored, but its size
is added. -/
theorem lost_header_accounted : ∃ t t', initDynamic 62 false 66 = some t ∧
    Lib.run tableStep (some t) [.add ⟨[97], []⟩] = some t' ∧ ¬ CheckHolds t' ⟨[98], []⟩ ∧
    (t'.addHeader ⟨[98], []⟩).map (fun t => (t.size, t.queue.count)) = some (66, 1) := by
  refine ⟨_, _, rfl, rfl, fun h => ?_, rfl⟩
  exact absurd (h _ rfl (by decide)) (by decide)

end Brpc.Hpack
