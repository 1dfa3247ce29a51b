/-
# `operator[]` and `resize`

`operator[]` grows a crowded map in the middle of an insertion, by moving the elements with
`operator[]` of a map with twice the buckets, which may grow again.  That stops (`indexF_spec`)
and leaves the finite map as it was (`resizeWith_spec`).
-/

import Brpc.FlatMap.Walk
import Mathlib.Tactic.Ring

namespace Brpc.FlatMap

open List Option Map

variable {K V : Type*} {T : Traits K V} {P : K → Prop} {m : Map K V} {f : K → Option V} {key : K}

/-! ### Empty maps -/

theorem Map.Repr.of_empty (hinit : m.initialized = true) (hcount : IsCount m.nbucket)
    (hload : 10 ≤ m.loadFactor ∧ m.loadFactor ≤ 100)
    (hb : ∀ i < m.nbucket, (m.buckets i).elems = []) (hsize : m.size = 0)
    (hbits : T.sparse = true → ∀ i < m.nbucket, bit m.thumbnail i = false) : m.Repr T P fun _ => none := by
  have hwf : m.Wf T P := by
    refine ⟨hinit, hcount, hload, fun i hi => ?_, fun i hi => ?_, ?_, fun hs i hi => ?_⟩
    · rw [hb i hi]
      exact ⟨by simp, List.Pairwise.nil⟩
    · rw [hb i hi]
      simp
    · have hnil : gather m.buckets m.nbucket 0 = [] := by
        rw [eq_nil_iff_forall_not_mem]
        intro e he
        obtain ⟨i, -, hi, he⟩ := mem_gather.1 he
        rw [hb i (by omega)] at he
        exact not_mem_nil he
      rw [hsize, hnil]
      rfl
    · rw [hbits hs i hi, Bucket.isValid_eq, hb i hi]
      rfl
  refine ⟨hwf, fun k _ => ?_⟩
  rw [hwf.seek_eq, hb _ (hwf.slot_lt k)]
  rfl

/-- **`init` either fails or gives an empty map** with at least the buckets asked for. -/
theorem init_spec (a : Alloc) {nbucket : ℕ} (loadFactor : ℕ) (hn : nbucket ≤ 2 ^ 63) :
    ((m.init T a nbucket loadFactor).2 ≠ 0 ∧ (m.init T a nbucket loadFactor).1.initialized = m.initialized ∧
      (m.initialized = true → (m.init T a nbucket loadFactor).1 = m)) ∨
    ((m.init T a nbucket loadFactor).2 = 0 ∧ m.initialized = false ∧
      (m.init T a nbucket loadFactor).1.Repr T P (fun _ => none) ∧ (m.init T a nbucket loadFactor).1.size = 0 ∧
      nbucket ≤ (m.init T a nbucket loadFactor).1.nbucket ∧
      (m.init T a nbucket loadFactor).1.loadFactor = loadFactor) := by
  unfold init
  by_cases hinit : m.initialized = true
  · rw [if_pos hinit]
    exact .inl ⟨by simp, rfl, fun _ => rfl⟩
  rw [if_neg hinit]
  by_cases hzero : nbucket = 0
  · rw [if_pos hzero]
    exact .inl ⟨by simp, rfl, fun _ => rfl⟩
  rw [if_neg hzero]
  by_cases hload : loadFactor < 10 ∨ 100 < loadFactor
  · rw [if_pos hload]
    exact .inl ⟨by simp, rfl, fun _ => rfl⟩
  rw [if_neg hload]
  by_cases hroom : a.room (flatmapRound nbucket) = false
  · simp only [hroom, if_true]
    exact .inl ⟨by simp, trivial, fun h => absurd h hinit⟩
  · obtain ⟨hcount, hle⟩ := flatmapRound_spec hn
    simp only [hroom, Bool.true_eq_false, if_false]
    have hload' : 10 ≤ loadFactor ∧ loadFactor ≤ 100 := by omega
    refine .inr ⟨trivial, by simpa using hinit, ?_, trivial, hle, trivial⟩
    refine Repr.of_empty rfl hcount hload' (fun i _ => rfl) rfl fun hs i hi => ?_
    simp only [hs, if_true]
    exact bit_clear _ hi

/-- **`clear` empties the map.** -/
theorem Map.Repr.clear (h : m.Repr T P f) : (m.clear T).Repr T P (fun _ => none) ∧
    (m.clear T).size = 0 ∧ (m.clear T).nbucket = m.nbucket := by
  unfold Map.clear
  by_cases hsize : m.size = 0
  · rw [if_pos hsize]
    have hb : ∀ i < m.nbucket, (m.buckets i).elems = [] := fun i hi =>
      gather_length_zero (h.wf.size ▸ hsize) (Nat.zero_le i) (by omega)
    refine ⟨.of_empty h.wf.initialized h.wf.count h.wf.load hb hsize fun hs i hi => ?_, hsize, rfl⟩
    rw [h.wf.bits hs i hi, Bucket.isValid_eq, hb i hi]
    rfl
  · rw [if_neg hsize]
    refine ⟨.of_empty h.wf.initialized h.wf.count h.wf.load (fun _ _ => rfl) rfl fun hs i hi => ?_, rfl, rfl⟩
    simp only [hs, if_true]
    exact bit_clear _ hi

/-! ### Moving the elements of a list into a map -/

/-- The finite map with the elements of a list put into it. -/
def putAll (T : Traits K V) (f : K → Option V) (es : List (K × V)) : K → Option V :=
  es.foldl (fun g e => put T g e.1 e.2) f

theorem putAll_eq (hT : T.Lawful P) {es : List (K × V)} (h : Chain T P es) {k : K} (hk : P k) :
    putAll T f es k = (chainSeek T.eql k es).or (f k) := by
  induction es generalizing f with
  | nil => rfl
  | cons e es ih =>
    have hPe := h.keys e mem_cons_self
    show putAll T (put T f e.1 e.2) es k = _
    rw [ih h.tail, chainSeek, put]
    split_ifs with heq
    · -- no later element has an equal key
      have hnone : chainSeek T.eql k es = none := by
        rw [chainSeek_eq_none]
        intro e' he'
        by_contra hc
        have hPe' := h.tail.keys e' he'
        have := (pairwise_cons.1 h.distinct).1 e' he'
        rw [hT.trans _ k _ hPe hk hPe' heq (hT.symm _ _ hPe' hk (by simpa using hc))] at this
        cases this
      rw [hnone]
      rfl
    · rfl

/-- What `operator[]` is to do on maps with at least `n` buckets and fewer than `s` elements. -/
def IndexOk (T : Traits K V) (P : K → Prop) (index : Map K V → K → Option (Map K V)) (n s load : ℕ) : Prop :=
  ∀ (m : Map K V) (f : K → Option V) (key : K), m.Repr T P f → P key → n ≤ m.nbucket → m.size < s →
    m.loadFactor = load → ∃ m', index m key = some m' ∧ m'.Repr T P (touch T f key) ∧
      n ≤ m'.nbucket ∧ m'.size ≤ m.size + 1 ∧ m'.loadFactor = load

theorem touch_ne_none (hT : T.Lawful P) (hkey : P key) : touch T f key key ≠ none := by
  unfold touch put
  rw [if_pos (hT.refl key hkey)]
  exact some_ne_none _

/-- **Elements moved one by one.** -/
theorem moveAll_spec (hT : T.Lawful P) {index : Map K V → K → Option (Map K V)} {n s load : ℕ}
    (hindex : IndexOk T P index n s load) {es : List (K × V)} (hes : ∀ e ∈ es, P e.1)
    (h : m.Repr T P f) (hn : n ≤ m.nbucket) (hs : m.size + es.length ≤ s) (hload : m.loadFactor = load) :
    ∃ m', es.foldlM (fun nm e => (index nm e.1).map (set T · e.1 e.2)) m = some m' ∧
      m'.Repr T P (putAll T f es) ∧ n ≤ m'.nbucket ∧ m'.size ≤ m.size + es.length ∧ m'.loadFactor = load := by
  induction es generalizing m f with
  | nil => exact ⟨m, rfl, h, hn, le_rfl, hload⟩
  | cons e es ih =>
    rw [length_cons] at hs
    have hPe := hes e mem_cons_self
    obtain ⟨m₁, h₁, hrepr, hn₁, hs₁, hload₁⟩ := hindex m f e.1 h hPe hn (by omega) hload
    have hset := hrepr.set hT hPe (touch_ne_none hT hPe) e.2
    rw [put_touch] at hset
    obtain ⟨m₂, h₂, hrepr₂, hn₂, hs₂, hload₂⟩ := ih (fun e' he' => hes e' (mem_cons_of_mem _ he'))
      hset hn₁ (by simp only [Map.set]; omega) hload₁
    refine ⟨m₂, ?_, hrepr₂, hn₂, ?_, hload₂⟩
    · rw [foldlM_cons, h₁]
      exact h₂
    · simp only [Map.set, length_cons] at hs₂ ⊢
      omega

/-- **`resize` leaves the finite map as it was.**  It is refused, or the map has at least the buckets
asked for. -/
theorem resizeWith_spec (hT : T.Lawful P) (a : Alloc) (h : m.Repr T P f) (hr : m.Roomy T)
    {index : Map K V → K → Option (Map K V)} {nbucket2 : ℕ} (hround : flatmapRound nbucket2 ≤ 2 ^ 63)
    (hindex : IndexOk T P index (flatmapRound nbucket2) m.size m.loadFactor) :
    m.resizeWith T a index nbucket2 = some (m, false) ∨
    ∃ m', m.resizeWith T a index nbucket2 = some (m', true) ∧ m'.Repr T P f ∧
      flatmapRound nbucket2 ≤ m'.nbucket ∧ m'.size ≤ m.size ∧ m'.loadFactor = m.loadFactor := by
  unfold resizeWith
  simp only
  split_ifs with hsame hrc
  · exact .inl rfl
  · exact .inl rfl
  · rcases init_spec (T := T) (P := P) (m := {}) a m.loadFactor hround with
      ⟨hc, -⟩ | ⟨-, -, hrepr, hsize, hle, hload⟩
    · exact absurd hc hrc
    · have hchain := h.wf.chain_gather hT
      have hlen := h.wf.size
      obtain ⟨m', hm', hrepr', hn', hs', hload'⟩ := moveAll_spec hT hindex hchain.keys hrepr hle
        (by rw [hsize]; omega) hload
      refine .inr ⟨m', ?_, hrepr'.of_eq fun k hk => ?_, hn', by omega, hload'⟩
      · rw [walk_eq h.wf hr, bind_some, hm']
        rfl
      · rw [putAll_eq hT hchain hk, h.seek_gather hT hk]
        exact or_none

/-! ### `operator[]` -/

/-- The bucket count that `operator[]` asks for: more than there are, or zero where 64 bits do not
hold it. -/
theorem flatmapRound_succ {n : ℕ} (hn : IsCount n) :
    flatmapRound (n + 1) = 0 ∨ n + n ≤ flatmapRound (n + 1) ∧ flatmapRound (n + 1) ≤ 2 ^ 63 := by
  rcases Nat.eq_or_lt_of_le hn.le with rfl | hlt
  · exact .inl (by decide)
  · obtain ⟨hcount, hle⟩ := flatmapRound_spec (show n + 1 ≤ 2 ^ 63 by omega)
    refine .inr ⟨?_, hcount.le⟩
    obtain ⟨e, -, -, rfl⟩ := hn
    obtain ⟨e', -, -, he'⟩ := hcount
    have : e < e' := (Nat.pow_lt_pow_iff_right (by omega)).1 (show 2 ^ e < 2 ^ e' by omega)
    have : 2 ^ (e + 1) ≤ 2 ^ e' := Nat.pow_le_pow_right (by omega) this
    omega

theorem resizeWith_zero (a : Alloc) (h : m.Wf T P) {index : Map K V → K → Option (Map K V)} {n : ℕ}
    (hn : flatmapRound n = 0) : m.resizeWith T a index n = some (m, false) := by
  have := h.count.pos
  unfold resizeWith
  simp only [hn]
  unfold init
  simp

/-- **`operator[]` gives the key a value and comes to its end**, as deep as the buckets have to be
doubled until the map is not crowded. -/
theorem indexF_spec (hT : T.Lawful P) (a : Alloc) (fuel : ℕ) (h : m.Repr T P f) (hr : m.Roomy T)
    (hkey : P key) (hfuel : m.size * 100 < m.nbucket * m.loadFactor * 2 ^ fuel) :
    ∃ m', m.indexF T a (fuel + 1) key = some m' ∧ m'.Repr T P (touch T f key) ∧
      m.nbucket ≤ m'.nbucket ∧ m'.size ≤ m.size + 1 ∧ m'.loadFactor = m.loadFactor := by
  induction fuel generalizing m f key with
  | zero =>
    rw [indexF]
    have hcrowd : m.isTooCrowded m.size = false := by
      simp only [isTooCrowded, decide_eq_false_iff_not]
      omega
    cases hb : m.buckets (m.slot T key) with
    | invalid => exact ⟨_, rfl, h.place hT hkey hb, le_rfl, le_rfl, rfl⟩
    | node =>
      simp only [hcrowd, Bool.false_eq_true, if_false]
      split_ifs with hany
      · exact ⟨m, rfl, h.found hT hkey hb hany, le_rfl, by omega, rfl⟩
      · exact ⟨_, rfl, h.push hT hkey hb (by simpa using hany), le_rfl, le_rfl, rfl⟩
  | succ fuel ih =>
    rw [indexF]
    cases hb : m.buckets (m.slot T key) with
    | invalid => exact ⟨_, rfl, h.place hT hkey hb, le_rfl, le_rfl, rfl⟩
    | node first next =>
      simp only
      split_ifs with hany hcrowd
      · exact ⟨m, rfl, h.found hT hkey hb hany, le_rfl, by omega, rfl⟩
      · have hpush : ∃ m', some (m.push T key first next) = some m' ∧ m'.Repr T P (touch T f key) ∧
            m.nbucket ≤ m'.nbucket ∧ m'.size ≤ m.size + 1 ∧ m'.loadFactor = m.loadFactor :=
          ⟨_, rfl, h.push hT hkey hb (by simpa using hany), le_rfl, le_rfl, rfl⟩
        rcases flatmapRound_succ h.wf.count with hzero | ⟨hdouble, hround⟩
        · rw [resizeWith_zero a h.wf hzero]
          exact hpush
        · -- a map with twice the buckets has one doubling less to go
          have hgo : ∀ {m' : Map K V}, flatmapRound (m.nbucket + 1) ≤ m'.nbucket → m'.size ≤ m.size →
              m'.loadFactor = m.loadFactor →
              m'.Roomy T ∧ m'.size * 100 < m'.nbucket * m'.loadFactor * 2 ^ fuel := by
            intro m' hn hs hl
            refine ⟨fun hsp => by have := hr hsp; omega, ?_⟩
            have h₁ : (m.nbucket + m.nbucket) * m.loadFactor * 2 ^ fuel ≤ m'.nbucket * m'.loadFactor * 2 ^ fuel := by
              rw [hl]
              exact Nat.mul_le_mul_right _ (Nat.mul_le_mul_right _ (by omega))
            have h₂ : m.nbucket * m.loadFactor * 2 ^ (fuel + 1) =
                (m.nbucket + m.nbucket) * m.loadFactor * 2 ^ fuel := by ring
            omega
          have hindex : IndexOk T P (indexF T a (fuel + 1)) (flatmapRound (m.nbucket + 1)) m.size
              m.loadFactor := by
            intro m' f' key' h' hkey' hn hs hl
            obtain ⟨hr', hlt⟩ := hgo hn hs.le hl
            obtain ⟨m'', hm'', hrepr, hn', hs', hl'⟩ := ih h' hr' hkey' hlt
            exact ⟨m'', hm'', hrepr, by omega, hs', hl'.trans hl⟩
          rcases resizeWith_spec hT a h hr hround hindex with hno | ⟨m', hm', hrepr, hn, hs, hl⟩
          · rw [hno]
            exact hpush
          · rw [hm']
            obtain ⟨hr', hlt⟩ := hgo hn hs hl
            obtain ⟨m'', hm'', hrepr', hn', hs', hl'⟩ := ih hrepr hr' hkey hlt
            exact ⟨m'', hm'', hrepr', by omega, by omega, hl'.trans hl⟩
      · exact ⟨_, rfl, h.push hT hkey hb (by simpa using hany), le_rfl, le_rfl, rfl⟩

theorem depth_enough {s n load : ℕ} (hs : s ≤ m.size) (hn : 0 < n) (hl : 0 < load) :
    s * 100 < n * load * 2 ^ (m.size * 100 + 1) := by
  have hpow : m.size * 100 + 1 < 2 ^ (m.size * 100 + 1) := Nat.lt_two_pow_self
  have hone : 1 * 2 ^ (m.size * 100 + 1) ≤ n * load * 2 ^ (m.size * 100 + 1) :=
    Nat.mul_le_mul_right _ (Nat.mul_pos hn hl)
  omega

/-- **`operator[]`.** -/
theorem Map.Repr.index (hT : T.Lawful P) (a : Alloc) (h : m.Repr T P f) (hr : m.Roomy T)
    (hkey : P key) : ∃ m', m.index T a key = some m' ∧ m'.Repr T P (touch T f key) ∧ m'.Roomy T := by
  obtain ⟨m', hm', hrepr, hn, -, -⟩ := indexF_spec hT a (m.size * 100 + 1) h hr hkey
    (depth_enough le_rfl h.wf.count.pos (by have := h.wf.load; omega))
  exact ⟨m', hm', hrepr, fun hs => by have := hr hs; omega⟩

/-- **`insert`.** -/
theorem Map.Repr.insert (hT : T.Lawful P) (a : Alloc) (h : m.Repr T P f) (hr : m.Roomy T) (hkey : P key) (v : V) :
    ∃ m', m.insert T a key v = some m' ∧ m'.Repr T P (put T f key v) ∧ m'.Roomy T := by
  obtain ⟨m', hm', hrepr, hr'⟩ := h.index hT a hr hkey
  have hset := hrepr.set hT hkey (touch_ne_none hT hkey) v
  rw [put_touch] at hset
  exact ⟨m'.set T key v, by rw [Map.insert, hm', map_some], hset, hr'⟩

/-- **`resize`.** -/
theorem Map.Repr.resize (hT : T.Lawful P) (a : Alloc) (h : m.Repr T P f) (hr : m.Roomy T) {n : ℕ}
    (hn : n ≤ 2 ^ 63) (hbig : T.sparse = true → 64 ≤ flatmapRound n) :
    ∃ r, m.resize T a n = some r ∧ r.1.Repr T P f ∧ r.1.Roomy T := by
  obtain ⟨hcount, -⟩ := flatmapRound_spec hn
  have hload := h.wf.load
  have hindex : IndexOk T P (indexF T a m.depth) (flatmapRound n) m.size m.loadFactor := by
    intro m' f' key' h' hkey' hn' hs hl
    obtain ⟨m'', hm'', hrepr, hn'', hs', hl'⟩ := indexF_spec hT a (m.size * 100 + 1) h'
      (fun hsp => (hbig hsp).trans hn') hkey'
      (depth_enough hs.le h'.wf.count.pos (by omega))
    exact ⟨m'', hm'', hrepr, by omega, hs', hl'.trans hl⟩
  rcases resizeWith_spec hT a h hr hcount.le hindex with hno | ⟨m', hm', hrepr, hn', -, -⟩
  · exact ⟨(m, false), hno, h, hr⟩
  · exact ⟨(m', true), hm', hrepr, fun hsp => (hbig hsp).trans hn'⟩

end Brpc.FlatMap
