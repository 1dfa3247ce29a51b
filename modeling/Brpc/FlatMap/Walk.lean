/-
# `FlatMap` operations as operations on a finite map

`Repr m f`: the map keeps its invariant and `seek` answers as `f` does.  A key gets a value
(`put`), loses it (`del`), or gets the default value if it had none (`touch`).
-/

import Brpc.FlatMap.Inv

namespace Brpc.FlatMap

open List Bucket

variable {K V : Type*} {T : Traits K V} {P : K → Prop} {m : Map K V} {f : K → Option V} {key : K}

/-- `key` gets the value `v`. -/
def put (T : Traits K V) (f : K → Option V) (key : K) (v : V) : K → Option V :=
  fun k => if T.eql key k then some v else f k

/-- `key` has no value any more. -/
def del (T : Traits K V) (f : K → Option V) (key : K) : K → Option V :=
  fun k => if T.eql key k then none else f k

/-- `key` has a value, the default one if it had none. -/
def touch (T : Traits K V) (f : K → Option V) (key : K) : K → Option V :=
  put T f key ((f key).getD T.zero)

/-- The map keeps its invariant and answers as `f`. -/
structure Map.Repr (T : Traits K V) (P : K → Prop) (m : Map K V) (f : K → Option V) : Prop where
  wf : m.Wf T P
  seek : ∀ k, P k → m.seek T k = f k

theorem Map.Repr.seek_eq (h : m.Repr T P f) {k : K} (hk : P k) :
    f k = chainSeek T.eql k (m.buckets (m.slot T k)).elems := by
  rw [← h.seek k hk, h.wf.seek_eq]

theorem Map.Repr.congr (hT : T.Lawful P) (h : m.Repr T P f) {a b : K} (ha : P a) (hb : P b)
    (heq : T.eql a b = true) : f a = f b := by
  rw [h.seek_eq ha, h.seek_eq hb, slot_congr hT ha hb heq]
  exact chainSeek_congr hT (h.wf.chain _ (h.wf.slot_lt b)).keys ha hb heq

theorem Map.Repr.of_eq {g : K → Option V} (h : m.Repr T P f) (hg : ∀ k, P k → f k = g k) : m.Repr T P g :=
  ⟨h.wf, fun k hk => (h.seek k hk).trans (hg k hk)⟩

theorem Map.Repr.touch_of_some (hT : T.Lawful P) (h : m.Repr T P f) (hkey : P key) {v : V}
    (hv : f key = some v) : ∀ k, P k → touch T f key k = f k := by
  intro k hk
  unfold touch put
  split_ifs with heq
  · rw [← h.congr hT hkey hk heq, hv]
    rfl
  · rfl

theorem put_touch (f : K → Option V) (key : K) (v : V) : put T (touch T f key) key v = put T f key v := by
  funext k
  unfold touch put
  split_ifs <;> rfl

/-- **One bucket changed**, as a change of the finite map. -/
theorem Map.Repr.update (hT : T.Lawful P) (h : m.Repr T P f) (hkey : P key) {size : ℕ}
    {b : Bucket K V} {t : BitArray} {g : K → Option V} (hchain : Chain T P b.elems)
    (hslot : ∀ e ∈ b.elems, m.slot T e.1 = m.slot T key)
    (hsize : size + (m.buckets (m.slot T key)).elems.length = m.size + b.elems.length)
    (hbits : T.sparse = true → ∀ j < m.nbucket, bit t j = if j = m.slot T key then b.isValid else bit m.thumbnail j)
    (hin : ∀ k, P k → m.slot T k = m.slot T key → chainSeek T.eql k b.elems = g k)
    (hout : ∀ k, P k → T.eql key k = false → m.slot T k ≠ m.slot T key → g k = f k) : Map.Repr T P
      { m with size := size, buckets := Function.update m.buckets (m.slot T key) b, thumbnail := t }
      g where
  wf := h.wf.update (h.wf.slot_lt key) hchain hslot hsize hbits
  seek := by
    intro k hk
    rw [h.wf.seek_update]
    split_ifs with hs
    · exact hin k hk hs
    · rw [h.seek k hk, hout k hk ?_ hs]
      cases he : T.eql key k with
      | false => rfl
      | true => exact absurd (slot_congr hT hkey hk he).symm hs

/-- **`erase` takes the key out**, reports 1 exactly when it was there and hands out its value. -/
theorem Map.Repr.erase (hT : T.Lawful P) (h : m.Repr T P f) (hkey : P key) :
    (m.erase T key).1.Repr T P (del T f key) ∧ (m.erase T key).1.nbucket = m.nbucket ∧
      (m.erase T key).2 = (if (f key).isSome then 1 else 0, f key) := by
  have hchain := h.wf.chain _ (h.wf.slot_lt key)
  have helems : ((m.buckets (m.slot T key)).erase T.eql key).map (fun r => (r.1, r.2.elems)) =
      chainErase T.eql key (m.buckets (m.slot T key)).elems := erase_elems _
  have hf := h.seek_eq hkey
  unfold Map.erase
  rw [if_neg (by simp [h.wf.initialized])]
  simp only
  cases he : (m.buckets (m.slot T key)).erase T.eql key with
  | none =>
    rw [he] at helems
    have hnone := chainErase_eq_none.1 helems.symm
    rw [← hf] at hnone
    refine ⟨h.of_eq fun k hk => ?_, rfl, by simp [hnone]⟩
    unfold del
    split_ifs with heq
    · rw [← h.congr hT hkey hk heq, hnone]
    · rfl
  | some r =>
    obtain ⟨v, b⟩ := r
    rw [he] at helems
    obtain ⟨hseek, hb, hlen, hsub, hother⟩ := chainErase_spec hT hchain hkey helems.symm
    replace hlen : b.elems.length + 1 = (m.buckets (m.slot T key)).elems.length := hlen
    rw [← hf] at hseek
    refine ⟨h.update hT hkey hb ?_ ?_ ?_ ?_ ?_, rfl, by simp [hseek]⟩
    · exact fun e he' => h.wf.slot _ (h.wf.slot_lt key) e (hsub he')
    · have hpos : 0 < m.size := by
        rw [h.wf.size]
        refine Nat.pos_of_ne_zero fun hc => ?_
        have := gather_length_zero hc (Nat.zero_le _) (by simpa using h.wf.slot_lt key)
        rw [this] at hlen
        simp at hlen
      omega
    · intro hs j hj
      by_cases hv : b.isValid
      · simp only [hs, hv, Bool.not_true, Bool.and_false, Bool.false_eq_true, if_false]
        split_ifs with hji
        · rw [hji, h.wf.bits hs _ (h.wf.slot_lt key), isValid_eq]
          cases hc : (m.buckets (m.slot T key)).elems with
          | nil => rw [hc] at hlen; simp at hlen
          | cons => rfl
        · rfl
      · simp only [hs, hv, Bool.not_false, Bool.and_true, if_true, bit_unset]
        split_ifs with hji <;> simp [hji]
    · intro k hk hs
      rw [hother k hk, ← hs, ← h.seek_eq hk]
      rfl
    · intro k _ hne _
      rw [del, if_neg (by simp [hne])]

/-! ### `operator[]` without a resize -/

theorem Map.Repr.place (hT : T.Lawful P) (h : m.Repr T P f) (hkey : P key)
    (hb : m.buckets (m.slot T key) = .invalid) : (m.place T key).Repr T P (touch T f key) := by
  have hnone : ∀ k, P k → m.slot T k = m.slot T key → f k = none := by
    intro k hk hs
    rw [h.seek_eq hk, hs, hb]
    rfl
  refine h.update hT hkey ?_ ?_ ?_ ?_ ?_ ?_
  · exact ⟨by simpa [elems] using hkey, pairwise_singleton _ _⟩
  · simp [elems]
  · simp [hb, elems]
  · intro hs j _
    simp only [hs, if_true, bit_set]
    split_ifs with hji <;> simp [hji, isValid]
  · intro k hk hs
    unfold touch put
    simp only [elems, chainSeek, hnone k hk hs, hnone key hkey rfl, Option.getD_none]
  · intro k _ hne _
    rw [touch, put, if_neg (by simp [hne])]

theorem Map.Repr.found (hT : T.Lawful P) (h : m.Repr T P f) (hkey : P key) {first : K × V}
    {next : List (K × V)} (hb : m.buckets (m.slot T key) = .node first next)
    (hany : (first :: next).any (T.eql ·.1 key) = true) : m.Repr T P (touch T f key) := by
  have hsome : f key ≠ none := by
    rw [h.seek_eq hkey, hb, Ne, elems, chainSeek_eq_none]
    intro hnone
    obtain ⟨e, he, heq⟩ := any_eq_true.1 hany
    rw [hnone e he] at heq
    cases heq
  obtain ⟨v, hv⟩ := Option.ne_none_iff_exists'.1 hsome
  exact h.of_eq fun k hk => (h.touch_of_some hT hkey hv k hk).symm

theorem Map.Repr.push (hT : T.Lawful P) (h : m.Repr T P f) (hkey : P key) {first : K × V}
    {next : List (K × V)} (hb : m.buckets (m.slot T key) = .node first next)
    (hnew : ∀ e ∈ first :: next, T.eql e.1 key = false) :
    (m.push T key first next).Repr T P (touch T f key) := by
  have hchain := h.wf.chain _ (h.wf.slot_lt key)
  have hslot := h.wf.slot _ (h.wf.slot_lt key)
  rw [hb] at hchain hslot
  have hnone : f key = none := by
    rw [h.seek_eq hkey, hb]
    exact chainSeek_eq_none.2 hnew
  refine h.update hT hkey (hchain.append hkey hnew _) ?_ ?_ ?_ ?_ ?_
  · exact forall_mem_append.2 ⟨hslot, forall_mem_singleton.2 rfl⟩
  · rw [hb]
    simp only [elems, length_cons, length_append, length_nil]
    omega
  · intro hs j hj
    split_ifs with hji
    · rw [hji, h.wf.bits hs _ (h.wf.slot_lt key), hb]
      rfl
    · rfl
  · intro k hk hs
    have hfk := h.seek_eq hk
    rw [hs, hb] at hfk
    show chainSeek T.eql k ((first :: next) ++ [(key, T.zero)]) = _
    rw [chainSeek_append, touch, put, hnone]
    rw [show chainSeek T.eql k (first :: next) = f k from hfk.symm]
    split_ifs with heq
    · rw [← h.congr hT hkey hk heq, hnone]
      simp [chainSeek, heq]
    · simp [chainSeek, heq]
  · intro k _ hne _
    rw [touch, put, if_neg (by simp [hne])]

/-- **A write through the reference of `operator[]`.** -/
theorem Map.Repr.set (hT : T.Lawful P) (h : m.Repr T P f) (hkey : P key) (hin : f key ≠ none)
    (v : V) : (m.set T key v).Repr T P (put T f key v) := by
  have hchain := h.wf.chain _ (h.wf.slot_lt key)
  have hslot := h.wf.slot _ (h.wf.slot_lt key)
  have hkeys : (chainSet T.eql key v (m.buckets (m.slot T key)).elems).map Prod.fst =
      (m.buckets (m.slot T key)).elems.map Prod.fst := chainSet_keys _ v
  have hin' := hin
  rw [h.seek_eq hkey] at hin'
  have hlen : (chainSet T.eql key v (m.buckets (m.slot T key)).elems).length =
      (m.buckets (m.slot T key)).elems.length := by
    simpa using congrArg List.length hkeys
  refine h.update hT hkey ?_ ?_ ?_ ?_ ?_ ?_
  · rw [set_elems]
    exact hchain.of_keys_eq hkeys
  · intro e he
    rw [set_elems] at he
    have hmem : e.1 ∈ (m.buckets (m.slot T key)).elems.map Prod.fst := by
      rw [← hkeys]
      exact mem_map.2 ⟨e, he, rfl⟩
    obtain ⟨e', he', hee⟩ := mem_map.1 hmem
    rw [← hee]
    exact hslot e' he'
  · rw [set_elems, hlen]
  · intro hs j hj
    split_ifs with hji
    · rw [hji, h.wf.bits hs _ (h.wf.slot_lt key), isValid_set]
    · rfl
  · intro k hk hs
    rw [set_elems, chainSet_seek hT hchain hkey v hin' k hk, put, ← hs, ← h.seek_eq hk]
  · intro k _ hne _
    rw [put, if_neg (by simp [hne])]

/-! ## Walking over a `FlatMap` -/

open Map

/-- A sparse map has at least 64 buckets. -/
def Map.Roomy (T : Traits K V) (m : Map K V) : Prop := T.sparse = true → 64 ≤ m.nbucket

/-- `q` is the first bucket in use from `pos` on, or the end. -/
structure IsNext (m : Map K V) (pos q : ℕ) : Prop where
  le : pos ≤ q
  le_count : q ≤ m.nbucket
  valid : q < m.nbucket → (m.buckets q).isValid = true
  skipped : ∀ i, pos ≤ i → i < q → (m.buckets i).elems = []

theorem validAt_count (m : Map K V) : m.validAt m.nbucket = true := by simp [validAt]

variable {pos q : ℕ}

theorem validAt_of_lt (h : pos < m.nbucket) : m.validAt pos = (m.buckets pos).isValid := by
  have : (pos == m.nbucket) = false := by simp; omega
  rw [validAt, this, Bool.false_or]

theorem elems_of_not_valid {b : Bucket K V} (h : b.isValid = false) : b.elems = [] := by
  cases b with
  | invalid => rfl
  | node => cases h

theorem skipInvalid_isNext (n pos : ℕ) (h : pos + n = m.nbucket) : IsNext m pos (m.skipInvalid n pos) := by
  induction n generalizing pos with
  | zero => exact ⟨Nat.le_refl _, by simp [skipInvalid]; omega,
      fun hlt => by simp [skipInvalid] at hlt; omega,
      fun i hi hi' => by simp [skipInvalid] at hi'; omega⟩
  | succ n ih =>
    rw [skipInvalid]
    split_ifs with hv
    · rw [validAt_of_lt (by omega)] at hv
      exact ⟨Nat.le_refl _, by omega, fun _ => hv, fun i hi hi' => by omega⟩
    · rw [validAt_of_lt (by omega)] at hv
      have hrest := ih (pos + 1) (by omega)
      refine ⟨by have := hrest.le; omega, hrest.le_count, hrest.valid, fun i hi hi' => ?_⟩
      rcases Nat.eq_or_lt_of_le hi with rfl | hlt
      · exact elems_of_not_valid (by simpa using hv)
      · exact hrest.skipped i hlt hi'

theorem first1_isNext (h : m.Wf T P) (hs : T.sparse = true) (hbig : 64 ≤ m.nbucket)
    (hpos : pos < m.nbucket) (hv : (m.buckets pos).isValid = false) :
    IsNext m pos (bitArrayFirst1 m.thumbnail (pos + 1) m.nbucket) := by
  obtain ⟨hle, hle', hbit, hbelow⟩ :=
    bitArrayFirst1_spec m.thumbnail (show pos + 1 ≤ m.nbucket by omega) (h.count.mod_64 hbig)
  refine ⟨by omega, hle', fun hlt => ?_, fun i hi hi' => ?_⟩
  · rw [← h.bits hs _ hlt]
    exact hbit hlt
  · rcases Nat.eq_or_lt_of_le hi with rfl | hlt
    · exact elems_of_not_valid hv
    · apply elems_of_not_valid
      rw [← h.bits hs i (by omega)]
      exact hbelow i hlt hi'

/-- **The next bucket in use**, in both variants. -/
theorem findValidNode_isNext (h : m.Wf T P) (hr : m.Roomy T) (hpos : pos ≤ m.nbucket) :
    IsNext m pos (m.findValidNode T pos) := by
  unfold findValidNode
  split_ifs with hs hv
  · refine ⟨Nat.le_refl _, hpos, fun hlt => ?_, fun i hi hi' => by omega⟩
    rwa [validAt_of_lt hlt] at hv
  · have hlt : pos < m.nbucket := by
      refine Nat.lt_of_le_of_ne hpos fun hc => ?_
      rw [hc] at hv
      exact hv (validAt_count m)
    rw [validAt_of_lt hlt] at hv
    exact first1_isNext h hs (hr hs) hlt (by simpa using hv)
  · exact skipInvalid_isNext _ _ (by omega)

/-- The elements from bucket `pos` on. -/
def Map.rest (m : Map K V) (pos : ℕ) : List (K × V) := gather m.buckets (m.nbucket - pos) pos

theorem rest_of_lt (h : pos < m.nbucket) : m.rest pos = (m.buckets pos).elems ++ m.rest (pos + 1) := by
  unfold rest
  rw [show m.nbucket - pos = (m.nbucket - (pos + 1)) + 1 by omega]
  rfl

theorem rest_count (m : Map K V) : m.rest m.nbucket = [] := by
  unfold rest
  rw [Nat.sub_self]
  rfl

theorem IsNext.elems_pos (h : IsNext m pos q) (hq : q < m.nbucket) : 0 < (m.buckets q).elems.length := by
  have := h.valid hq
  rw [Bucket.isValid_eq] at this
  exact length_pos_iff.2 (by simpa using this)

theorem IsNext.rest_eq (h : IsNext m pos q) : m.rest pos = m.rest q := by
  obtain ⟨d, rfl⟩ := Nat.exists_eq_add_of_le h.le
  induction d generalizing pos with
  | zero => rfl
  | succ d ih =>
    have hlt : pos < m.nbucket := by have := h.le_count; omega
    rw [rest_of_lt hlt, h.skipped pos le_rfl (by omega), nil_append]
    rw [show pos + (d + 1) = pos + 1 + d by omega] at h ⊢
    exact ih ⟨by omega, h.le_count, h.valid, fun i hi hi' => h.skipped i (by omega) hi'⟩

section

variable (h : m.Wf T P)
include h

section

variable (hr : m.Roomy T)
include hr

theorem iter_end : m.iter T m.nbucket = ⟨m.nbucket, 0⟩ := by
  have hnext := findValidNode_isNext h hr (le_refl m.nbucket)
  rw [Map.iter, if_pos h.initialized, Nat.le_antisymm hnext.le_count hnext.le]

theorem walkFrom_end (fuel : ℕ) : m.walkFrom T fuel ⟨m.nbucket, 0⟩ = some [] := by
  cases fuel <;> rw [walkFrom, if_pos (iter_end h hr).symm]

theorem walkFrom_succ (fuel : ℕ) {j : ℕ} (hq : q < m.nbucket)
    (hj : j < (m.buckets q).elems.length) : m.walkFrom T (fuel + 1) ⟨q, j⟩ =
      (m.walkFrom T fuel (if j + 1 < (m.buckets q).elems.length then ⟨q, j + 1⟩
        else ⟨m.findValidNode T (q + 1), 0⟩)).map ((m.buckets q).elems[j] :: ·) := by
  have hne : (⟨q, j⟩ : Iter) ≠ m.iter T m.nbucket := by
    rw [iter_end h hr]
    intro hc
    injection hc with hc
    omega
  have hderef : m.deref ⟨q, j⟩ = some (m.buckets q).elems[j] := getElem?_eq_getElem hj
  rw [walkFrom, if_neg hne, hderef]
  rfl

/-- **A walk from the `j`-th element of bucket `q` on** visits the rest of its chain and the buckets
behind it. -/
theorem walkFrom_eq (fuel : ℕ) {j : ℕ} (hq : q < m.nbucket) (hj : j < (m.buckets q).elems.length)
    (hfuel : ((m.buckets q).elems.drop j ++ m.rest (q + 1)).length ≤ fuel) :
    m.walkFrom T fuel ⟨q, j⟩ = some ((m.buckets q).elems.drop j ++ m.rest (q + 1)) := by
  induction fuel generalizing q j with
  | zero =>
    rw [length_append, length_drop] at hfuel
    omega
  | succ fuel ih =>
    rw [walkFrom_succ h hr fuel hq hj]
    rw [drop_eq_getElem_cons hj] at hfuel ⊢
    rw [cons_append, length_cons] at hfuel
    split_ifs with hlast
    · rw [ih hq hlast (by omega)]
      rfl
    · -- the chain ends here: on to the next bucket in use
      obtain ⟨p, hp⟩ : ∃ p, p = m.findValidNode T (q + 1) := ⟨_, rfl⟩
      have hnext := findValidNode_isNext h hr (show q + 1 ≤ m.nbucket by omega)
      rw [← hp] at hnext ⊢
      rw [drop_of_length_le (by omega), nil_append, hnext.rest_eq] at hfuel
      rw [drop_of_length_le (by omega), hnext.rest_eq]
      rcases Nat.eq_or_lt_of_le hnext.le_count with rfl | hlt
      · rw [walkFrom_end h hr, rest_count]
        rfl
      · have hpos : 0 < (m.buckets p).elems.length := hnext.elems_pos hlt
        rw [rest_of_lt hlt] at hfuel ⊢
        rw [ih hlt hpos (by simpa using hfuel)]
        rfl

/-- **A walk visits the elements bucket by bucket, and ends.** -/
theorem walk_eq : m.walk T = some (gather m.buckets m.nbucket 0) := by
  have hnext := findValidNode_isNext h hr (Nat.zero_le m.nbucket)
  have hsize : m.size = (m.rest 0).length := h.size
  unfold Map.walk Map.iter
  rw [if_pos h.initialized, hsize]
  show _ = some (m.rest 0)
  obtain ⟨p, hp⟩ : ∃ p, p = m.findValidNode T 0 := ⟨_, rfl⟩
  rw [← hp] at hnext ⊢
  rw [hnext.rest_eq]
  rcases Nat.eq_or_lt_of_le hnext.le_count with rfl | hlt
  · rw [walkFrom_end h hr, rest_count]
  · have hpos : 0 < (m.buckets p).elems.length := hnext.elems_pos hlt
    rw [rest_of_lt hlt, walkFrom_eq h hr _ hlt hpos (by simp)]
    simp

end

end

/-! ### The elements visited -/

/-- **No two elements of a map have equal keys.** -/
theorem Map.Wf.chain_gather (hT : T.Lawful P) (h : m.Wf T P) : Chain T P (gather m.buckets m.nbucket 0) := by
  refine ⟨fun e he => ?_, ?_⟩
  · obtain ⟨i, -, hi, he⟩ := mem_gather.1 he
    exact (h.chain i (by omega)).keys e he
  · have key : ∀ n pos, pos + n ≤ m.nbucket →
        (gather m.buckets n pos).Pairwise fun e e' => T.eql e.1 e'.1 = false := by
      intro n
      induction n with
      | zero => exact fun _ _ => List.Pairwise.nil
      | succ n ih =>
        intro pos hle
        refine pairwise_append.2 ⟨(h.chain pos (by omega)).distinct, ih (pos + 1) (by omega), ?_⟩
        intro e he e' he'
        obtain ⟨i, hi, hi', he'⟩ := mem_gather.1 he'
        -- equal keys would stand in the same bucket
        by_contra hc
        have heq := slot_congr (m := m) hT ((h.chain pos (by omega)).keys e he)
          ((h.chain i (by omega)).keys e' he') (by simpa using hc)
        rw [h.slot pos (by omega) e he, h.slot i (by omega) e' he'] at heq
        omega
    exact key m.nbucket 0 (by omega)

/-- **The elements of a map are what `seek` finds.** -/
theorem Map.Repr.seek_gather (hT : T.Lawful P) (h : m.Repr T P f) {k : K} (hk : P k) :
    chainSeek T.eql k (gather m.buckets m.nbucket 0) = f k := by
  refine Option.ext fun v => ?_
  rw [h.seek_eq hk, chainSeek_eq_some hT (h.wf.chain_gather hT) hk,
    chainSeek_eq_some hT (h.wf.chain _ (h.wf.slot_lt k)) hk]
  constructor
  · rintro ⟨k', hmem, heq⟩
    obtain ⟨i, -, hi, he⟩ := mem_gather.1 hmem
    have hslot := slot_congr (m := m) hT ((h.wf.chain i (by omega)).keys _ he) hk heq
    rw [h.wf.slot i (by omega) _ he] at hslot
    exact ⟨k', hslot ▸ he, heq⟩
  · rintro ⟨k', hmem, heq⟩
    exact ⟨k', mem_gather.2 ⟨_, Nat.zero_le _, by simpa using h.wf.slot_lt k, hmem⟩, heq⟩

end Brpc.FlatMap
