/-
# Chains of a bucket, and what a `FlatMap` keeps

A bucket whose keys are pairwise different is an association list: what a lookup finds after a
write or an erase is `find` with that one key changed.
-/

import Brpc.FlatMap.Table
import Mathlib.Data.Nat.Bitwise

namespace Brpc.FlatMap

open List

variable {K V : Type*}

/-- On the keys of `P` the equality is one and equal keys have the same hash code. -/
structure Traits.Lawful (T : Traits K V) (P : K → Prop) : Prop where
  refl : ∀ k, P k → T.eql k k = true
  symm : ∀ a b, P a → P b → T.eql a b = true → T.eql b a = true
  trans : ∀ a b c, P a → P b → P c → T.eql a b = true → T.eql b c = true → T.eql a c = true
  hash : ∀ a b, P a → P b → T.eql a b = true → T.hash a = T.hash b

/-- The keys of a chain are keys of `P`, and no two are equal. -/
structure Chain (T : Traits K V) (P : K → Prop) (es : List (K × V)) : Prop where
  keys : ∀ e ∈ es, P e.1
  distinct : es.Pairwise fun e e' => T.eql e.1 e'.1 = false

section
variable {T : Traits K V} {P : K → Prop} {es : List (K × V)} {key : K}

theorem Chain.tail {e : K × V} (h : Chain T P (e :: es)) : Chain T P es :=
  ⟨fun e' he' => h.keys e' (mem_cons_of_mem _ he'), (pairwise_cons.1 h.distinct).2⟩

theorem Bucket.seek_eq (b : Bucket K V) : b.seek T.eql key = chainSeek T.eql key b.elems := by
  cases b <;> rfl

theorem Bucket.isValid_eq (b : Bucket K V) : b.isValid = !b.elems.isEmpty := by
  cases b <;> rfl

theorem chainSeek_append (es es' : List (K × V)) :
    chainSeek T.eql key (es ++ es') = (chainSeek T.eql key es).or (chainSeek T.eql key es') := by
  induction es with
  | nil => rfl
  | cons e es ih =>
    simp only [cons_append, chainSeek]
    split_ifs
    · rfl
    · exact ih

theorem chainSeek_eq_none : chainSeek T.eql key es = none ↔ ∀ e ∈ es, T.eql e.1 key = false := by
  induction es with
  | nil => simp [chainSeek]
  | cons e es ih =>
    rw [chainSeek]
    by_cases h : T.eql e.1 key <;> simp [h, ih]

/-- What is found is an element with an equal key, and with pairwise different keys there
is only one. -/
theorem chainSeek_eq_some (hT : T.Lawful P) (h : Chain T P es) (hkey : P key) {v : V} :
    chainSeek T.eql key es = some v ↔ ∃ k, (k, v) ∈ es ∧ T.eql k key = true := by
  induction es with
  | nil => simp [chainSeek]
  | cons e es ih =>
    rw [chainSeek]
    by_cases he : T.eql e.1 key
    · have honly : ∀ k, (k, v) ∈ es → T.eql k key = false := by
        intro k hk
        by_contra hc
        have hc : T.eql k key = true := by simpa using hc
        have hPk := h.tail.keys _ hk
        have hPe := h.keys e mem_cons_self
        have := (pairwise_cons.1 h.distinct).1 _ hk
        rw [hT.trans _ key _ hPe hkey hPk he (hT.symm _ _ hPk hkey hc)] at this
        cases this
      rw [if_pos he, Option.some.injEq]
      constructor
      · rintro rfl
        exact ⟨e.1, mem_cons_self, he⟩
      · rintro ⟨k, hk, hkk⟩
        rcases mem_cons.1 hk with h' | h'
        · rw [← h']
        · rw [honly k h'] at hkk
          cases hkk
    · rw [if_neg he, ih h.tail]
      constructor
      · rintro ⟨k, hk, hkk⟩
        exact ⟨k, mem_cons_of_mem _ hk, hkk⟩
      · rintro ⟨k, hk, hkk⟩
        rcases mem_cons.1 hk with h' | h'
        · rw [← h'] at he
          exact absurd hkk he
        · exact ⟨k, h', hkk⟩

theorem chainSeek_congr (hT : T.Lawful P) (h : ∀ e ∈ es, P e.1) {key' : K} (hkey : P key)
    (hkey' : P key') (heq : T.eql key key' = true) : chainSeek T.eql key es = chainSeek T.eql key' es := by
  induction es with
  | nil => rfl
  | cons e es ih =>
    have hPe := h e mem_cons_self
    have hiff : T.eql e.1 key = T.eql e.1 key' := by
      rw [Bool.eq_iff_iff]
      exact ⟨fun he => hT.trans _ _ _ hPe hkey hkey' he heq,
        fun he => hT.trans _ _ _ hPe hkey' hkey he (hT.symm _ _ hkey hkey' heq)⟩
    rw [chainSeek, chainSeek, hiff, ih fun e' he' => h e' (mem_cons_of_mem _ he')]

/-! ### Erasing from a chain -/

theorem Bucket.erase_elems (b : Bucket K V) :
    (b.erase T.eql key).map (fun r => (r.1, r.2.elems)) = chainErase T.eql key b.elems := by
  cases b with
  | invalid => rfl
  | node first next =>
    simp only [Bucket.erase, Bucket.elems, chainErase]
    split_ifs
    · cases next <;> rfl
    · rw [Option.map_map]
      rfl

theorem chainErase_eq_none : chainErase T.eql key es = none ↔ chainSeek T.eql key es = none := by
  induction es with
  | nil => simp [chainErase, chainSeek]
  | cons e es ih =>
    rw [chainErase, chainSeek]
    split_ifs <;> simp [ih]

/-- **Erasing from a chain**: the value found is taken out, the key has none any more, and
the others keep theirs. -/
theorem chainErase_spec (hT : T.Lawful P) (h : Chain T P es) (hkey : P key) {v : V}
    {es' : List (K × V)} (he : chainErase T.eql key es = some (v, es')) :
    chainSeek T.eql key es = some v ∧ Chain T P es' ∧ es'.length + 1 = es.length ∧ es' ⊆ es ∧
      ∀ k, P k → chainSeek T.eql k es' = if T.eql key k then none else chainSeek T.eql k es := by
  induction es generalizing es' with
  | nil => simp [chainErase] at he
  | cons e es ih =>
    have hPe := h.keys e mem_cons_self
    rw [chainErase] at he
    rw [chainSeek]
    split_ifs at he ⊢ with hek
    · obtain ⟨rfl, rfl⟩ : e.2 = v ∧ es = es' := by simpa using he
      refine ⟨rfl, h.tail, rfl, subset_cons_self _ _, fun k hk => ?_⟩
      rw [chainSeek]
      split_ifs with hk' hk''
      · rw [chainSeek_eq_none]
        intro e' he'
        by_contra hc
        have hc : T.eql e'.1 k = true := by simpa using hc
        have hPe' := h.tail.keys _ he'
        have := (pairwise_cons.1 h.distinct).1 _ he'
        rw [hT.trans _ k _ hPe hk hPe' (hT.trans _ key _ hPe hkey hk hek hk') (hT.symm _ _ hPe' hk hc)] at this
        cases this
      · exact absurd (hT.trans _ _ _ hkey hPe hk (hT.symm _ _ hPe hkey hek) hk'') hk'
      · rfl
    · obtain ⟨⟨v', rest⟩, hrest, hr⟩ := Option.map_eq_some_iff.1 he
      obtain ⟨rfl, rfl⟩ : v' = v ∧ e :: rest = es' := by simpa using hr
      obtain ⟨hseek, hchain, hlen, hsub, hother⟩ := ih h.tail hrest
      refine ⟨hseek, ⟨?_, ?_⟩, by simpa using hlen, cons_subset_cons _ hsub, fun k hk => ?_⟩
      · exact forall_mem_cons.2 ⟨hPe, hchain.keys⟩
      · exact pairwise_cons.2 ⟨fun e' he' => (pairwise_cons.1 h.distinct).1 _ (hsub he'), hchain.distinct⟩
      · rw [chainSeek, chainSeek, hother k hk]
        split_ifs with h₁ h₂
        · exact absurd (hT.trans _ k _ hPe hk hkey h₁ (hT.symm _ _ hkey hk h₂)) hek
        · rfl
        · rfl
        · rfl

/-! ### Writing to a chain -/

theorem Bucket.set_elems (b : Bucket K V) (value : V) :
    (b.set T.eql key value).elems = chainSet T.eql key value b.elems := by
  cases b with
  | invalid => rfl
  | node =>
    simp only [Bucket.set, Bucket.elems, chainSet]
    split_ifs <;> rfl

theorem Bucket.isValid_set (b : Bucket K V) (value : V) : (b.set T.eql key value).isValid = b.isValid := by
  cases b with
  | invalid => rfl
  | node =>
    simp only [Bucket.set]
    split_ifs <;> rfl

theorem chainSet_keys (es : List (K × V)) (value : V) :
    (chainSet T.eql key value es).map Prod.fst = es.map Prod.fst := by
  induction es with
  | nil => rfl
  | cons e es ih =>
    rw [chainSet]
    split_ifs <;> simp [ih]

theorem Chain.of_keys_eq {es' : List (K × V)} (h : Chain T P es)
    (hk : es'.map Prod.fst = es.map Prod.fst) : Chain T P es' := by
  have hkeys : ∀ k ∈ es.map Prod.fst, P k := by
    rintro _ hmem
    obtain ⟨e, he, rfl⟩ := mem_map.1 hmem
    exact h.keys e he
  have hdist : (es.map Prod.fst).Pairwise fun k k' => T.eql k k' = false := pairwise_map.2 h.distinct
  rw [← hk] at hkeys hdist
  exact ⟨fun e he => hkeys _ (mem_map.2 ⟨e, he, rfl⟩), pairwise_map.1 hdist⟩

/-- **Writing to a chain that has the key.** -/
theorem chainSet_seek (hT : T.Lawful P) (h : Chain T P es) (hkey : P key) (value : V)
    (hin : chainSeek T.eql key es ≠ none) (k : K) (hk : P k) :
    chainSeek T.eql k (chainSet T.eql key value es) = if T.eql key k then some value else chainSeek T.eql k es := by
  induction es with
  | nil => exact absurd rfl hin
  | cons e es ih =>
    have hPe := h.keys e mem_cons_self
    rw [chainSet]
    split_ifs with hek hkk hkk
    · rw [chainSeek, if_pos (hT.trans _ _ _ hPe hkey hk hek hkk)]
    · have hne : ¬ T.eql e.1 k = true := fun hc =>
        hkk (hT.trans _ _ _ hkey hPe hk (hT.symm _ _ hPe hkey hek) hc)
      rw [chainSeek, chainSeek, if_neg hne, if_neg hne]
    · have hne : ¬ T.eql e.1 k = true := fun hc =>
        hek (hT.trans _ _ _ hPe hk hkey hc (hT.symm _ _ hkey hk hkk))
      rw [chainSeek, if_neg hne]
      rw [chainSeek, if_neg hek] at hin
      rw [ih h.tail hin, if_pos hkk]
    · rw [chainSeek, if_neg hek] at hin
      rw [chainSeek, chainSeek, ih h.tail hin, if_neg hkk]

theorem Chain.append (h : Chain T P es) (hkey : P key) (hnew : ∀ e ∈ es, T.eql e.1 key = false)
    (v : V) : Chain T P (es ++ [(key, v)]) := by
  refine ⟨forall_mem_append.2 ⟨h.keys, forall_mem_singleton.2 hkey⟩,
    pairwise_append.2 ⟨h.distinct, pairwise_singleton _ _, fun e he => ?_⟩⟩
  exact forall_mem_singleton.2 (hnew e he)

end

/-! ## What a `FlatMap` keeps -/

open Function

variable {T : Traits K V} {P : K → Prop} {m : Map K V}

/-! ### Bucket counts -/

variable {n : ℕ}

theorem flatmapMod_lt (hn : 0 < n) (h : ℕ) : flatmapMod h n < n := by
  have : h &&& (n - 1) ≤ n - 1 := Nat.and_le_right
  unfold flatmapMod
  omega

/-- `y` has the bits of `x` spread over the `w` places below each. -/
def Spread (x y w : ℕ) : Prop := ∀ i, y.testBit i = true ↔ ∃ d < w, x.testBit (i + d) = true

theorem Spread.double {x y w : ℕ} (h : Spread x y w) : Spread x (y ||| (y >>> w)) (w + w) := by
  intro i
  rw [Nat.testBit_or, Nat.testBit_shiftRight, Bool.or_eq_true, h, h]
  constructor
  · rintro (⟨d, hd, hx⟩ | ⟨d, hd, hx⟩)
    · exact ⟨d, by omega, hx⟩
    · exact ⟨w + d, by omega, by rwa [show i + (w + d) = w + i + d by omega]⟩
  · rintro ⟨d, hd, hx⟩
    rcases Nat.lt_or_ge d w with hdw | hdw
    · exact .inl ⟨d, hdw, hx⟩
    · exact .inr ⟨d - w, by omega, by rwa [show w + i + (d - w) = i + d by omega]⟩

/-- A number below `2 ^ 64` spread over 64 places fills all the places below its highest bit. -/
theorem Spread.eq_two_pow {x y : ℕ} (h : Spread x y 64) (hx : x < 2 ^ 63) (hpos : 0 < x) :
    y = 2 ^ (x.log2 + 1) - 1 := by
  have htop : x.testBit x.log2 = true := Nat.testBit_log2 hpos.ne'
  have hlog : x.log2 < 63 := (Nat.log2_lt hpos.ne').2 hx
  refine Nat.eq_of_testBit_eq fun i => ?_
  rw [Nat.testBit_two_pow_sub_one, Bool.eq_iff_iff, h i, decide_eq_true_iff]
  constructor
  · rintro ⟨d, -, hd⟩
    by_contra hc
    have hlt : x < 2 ^ (i + d) := (Nat.lt_log2_self).trans_le (Nat.pow_le_pow_right (by omega) (by omega))
    rw [Nat.testBit_lt_two_pow hlt] at hd
    cases hd
  · intro hi
    exact ⟨x.log2 - i, by omega, by rwa [show i + (x.log2 - i) = x.log2 by omega]⟩

theorem findPower2_spec {b : ℕ} (hb : 2 ≤ b) (hb' : b ≤ 2 ^ 63) : ∃ e ≤ 63, findPower2 b = 2 ^ e ∧ b ≤ 2 ^ e := by
  have h₁ : Spread (b - 1) (b - 1) 1 := fun i =>
    ⟨fun hx => ⟨0, by omega, hx⟩, fun ⟨d, hd, hx⟩ => by rwa [show i + d = i by omega] at hx⟩
  have h₆₄ := h₁.double.double.double.double.double.double.eq_two_pow (by omega) (by omega)
  have hlog : (b - 1).log2 < 63 := (Nat.log2_lt (by omega)).2 (by omega)
  have hlt : b - 1 < 2 ^ ((b - 1).log2 + 1) := Nat.lt_log2_self
  have hpow : 2 ^ ((b - 1).log2 + 1) < 2 ^ 64 := Nat.pow_lt_pow_right (by omega) (by omega)
  refine ⟨(b - 1).log2 + 1, by omega, ?_, by omega⟩
  dsimp only [findPower2]
  rw [h₆₄, Nat.sub_add_cancel (Nat.two_pow_pos _)]
  exact Nat.mod_eq_of_lt hpow

/-- A bucket count: a power of two from eight on that 64 bits can hold. -/
def IsCount (n : ℕ) : Prop := ∃ e, 3 ≤ e ∧ e ≤ 63 ∧ n = 2 ^ e

theorem IsCount.pos (h : IsCount n) : 0 < n := by
  obtain ⟨e, -, -, rfl⟩ := h
  exact Nat.two_pow_pos e

theorem IsCount.le (h : IsCount n) : n ≤ 2 ^ 63 := by
  obtain ⟨e, -, he, rfl⟩ := h
  exact Nat.pow_le_pow_right (by omega) he

/-- **Rounding up gives a power of two** from eight on, not below what is asked for. -/
theorem flatmapRound_spec (hn : n ≤ 2 ^ 63) : IsCount (flatmapRound n) ∧ n ≤ flatmapRound n := by
  unfold flatmapRound
  split_ifs with h
  · exact ⟨⟨3, by omega, by omega, rfl⟩, h⟩
  · obtain ⟨e, he', he, hle⟩ := findPower2_spec (by omega) hn
    refine ⟨⟨e, ?_, he', he⟩, he ▸ hle⟩
    by_contra hc
    have : 2 ^ e ≤ 2 ^ 2 := Nat.pow_le_pow_right (by omega) (by omega)
    omega

theorem IsCount.mod_64 (hn : IsCount n) (h : 64 ≤ n) : n % 64 = 0 := by
  obtain ⟨e, -, -, rfl⟩ := hn
  have he : 6 ≤ e := by
    by_contra hc
    have : 2 ^ e ≤ 2 ^ 5 := Nat.pow_le_pow_right (by omega) (by omega)
    omega
  rw [show e = 6 + (e - 6) by omega, pow_add]
  exact Nat.mul_mod_right 64 _

/-! ### The elements of a map -/

/-- The elements of the `n` buckets from bucket `pos` on, in the order of the buckets. -/
def gather (b : ℕ → Bucket K V) : ℕ → ℕ → List (K × V)
  | 0, _ => []
  | n + 1, pos => (b pos).elems ++ gather b n (pos + 1)

variable {b : ℕ → Bucket K V} {pos : ℕ}

theorem mem_gather {e : K × V} : e ∈ gather b n pos ↔ ∃ i, pos ≤ i ∧ i < pos + n ∧ e ∈ (b i).elems := by
  induction n generalizing pos with
  | zero =>
    simp only [gather, not_mem_nil, false_iff, not_exists, not_and]
    omega
  | succ n ih =>
    rw [gather, mem_append, ih]
    constructor
    · rintro (he | ⟨i, hi, hi', he⟩)
      · exact ⟨pos, le_rfl, by omega, he⟩
      · exact ⟨i, by omega, by omega, he⟩
    · rintro ⟨i, hi, hi', he⟩
      rcases Nat.eq_or_lt_of_le hi with rfl | h
      · exact .inl he
      · exact .inr ⟨i, h, by omega, he⟩

theorem gather_congr {b' : ℕ → Bucket K V}
    (h : ∀ i, pos ≤ i → i < pos + n → b i = b' i) : gather b n pos = gather b' n pos := by
  induction n generalizing pos with
  | zero => rfl
  | succ n ih =>
    rw [gather, gather, h pos le_rfl (by omega), ih fun i hi hi' => h i (by omega) (by omega)]

variable {i : ℕ}

/-- **One bucket changed**: the number of elements changes by as much. -/
theorem gather_update_length {c : Bucket K V} (hi : pos ≤ i)
    (hi' : i < pos + n) : (gather (update b i c) n pos).length + (b i).elems.length =
      (gather b n pos).length + c.elems.length := by
  induction n generalizing pos with
  | zero => omega
  | succ n ih =>
    rw [gather, gather, length_append, length_append]
    rcases Nat.eq_or_lt_of_le hi with rfl | h
    · have hrest : gather (update b pos c) n (pos + 1) = gather b n (pos + 1) :=
        gather_congr fun j hj _ => update_of_ne (by omega) _ _
      rw [update_self, hrest]
      omega
    · have := @ih (pos + 1) h (by omega)
      rw [update_of_ne (by omega)]
      omega

theorem gather_length_zero (h : (gather b n pos).length = 0)
    (hi : pos ≤ i) (hi' : i < pos + n) : (b i).elems = [] := by
  rw [eq_nil_iff_forall_not_mem]
  intro e he
  have hmem : e ∈ gather b n pos := mem_gather.2 ⟨i, hi, hi', he⟩
  rw [length_eq_zero_iff.1 h] at hmem
  exact not_mem_nil hmem

/-! ### The invariant -/

/-- What every operation keeps. -/
structure Map.Wf (T : Traits K V) (P : K → Prop) (m : Map K V) : Prop where
  initialized : m.initialized = true
  count : IsCount m.nbucket
  load : 10 ≤ m.loadFactor ∧ m.loadFactor ≤ 100
  chain : ∀ i < m.nbucket, Chain T P (m.buckets i).elems
  slot : ∀ i < m.nbucket, ∀ e ∈ (m.buckets i).elems, m.slot T e.1 = i
  size : m.size = (gather m.buckets m.nbucket 0).length
  bits : T.sparse = true → ∀ i < m.nbucket, bit m.thumbnail i = (m.buckets i).isValid

theorem Map.Wf.slot_lt (h : m.Wf T P) (k : K) : m.slot T k < m.nbucket := flatmapMod_lt h.count.pos _

theorem Map.Wf.seek_eq (h : m.Wf T P) (k : K) : m.seek T k = chainSeek T.eql k (m.buckets (m.slot T k)).elems := by
  unfold Map.seek
  rw [if_neg (by simp [h.initialized]), Bucket.seek_eq]

theorem slot_congr (hT : T.Lawful P) {a b : K} (ha : P a) (hb : P b) (h : T.eql a b = true) :
    m.slot T a = m.slot T b := by
  unfold Map.slot
  rw [hT.hash a b ha hb h]

/-- **One bucket changed**: what has to be seen to for the invariant to stay. -/
theorem Map.Wf.update (h : m.Wf T P) {size : ℕ} {b : Bucket K V} {t : BitArray}
    (hi : i < m.nbucket) (hchain : Chain T P b.elems) (hslot : ∀ e ∈ b.elems, m.slot T e.1 = i)
    (hsize : size + (m.buckets i).elems.length = m.size + b.elems.length)
    (hbits : T.sparse = true → ∀ j < m.nbucket, bit t j = if j = i then b.isValid else bit m.thumbnail j) :
    Map.Wf T P { m with size := size, buckets := update m.buckets i b, thumbnail := t } where
  initialized := h.initialized
  count := h.count
  load := h.load
  chain := by
    intro j hj
    simp only [update_apply]
    split_ifs
    · exact hchain
    · exact h.chain j hj
  slot := by
    intro j hj
    simp only [update_apply]
    split_ifs with hji
    · exact hji ▸ hslot
    · exact h.slot j hj
  size := by
    have := gather_update_length (b := m.buckets) (c := b) (Nat.zero_le i) (by omega : i < 0 + m.nbucket)
    have := h.size
    simp only
    omega
  bits := by
    intro hs j hj
    simp only [update_apply, hbits hs j hj]
    split_ifs
    · rfl
    · exact h.bits hs j hj

/-- **One bucket changed**: what is found. -/
theorem Map.Wf.seek_update (h : m.Wf T P) {size : ℕ} {b : Bucket K V} {t : BitArray} (k : K) :
    Map.seek T { m with size := size, buckets := Function.update m.buckets i b, thumbnail := t } k =
      if m.slot T k = i then chainSeek T.eql k b.elems else m.seek T k := by
  rw [h.seek_eq]
  unfold Map.seek
  rw [if_neg (by simp [h.initialized]), Bucket.seek_eq]
  show chainSeek T.eql k (Function.update m.buckets i b (m.slot T k)).elems = _
  split_ifs with hk
  · rw [hk, update_self]
  · rw [update_of_ne hk]

end Brpc.FlatMap
