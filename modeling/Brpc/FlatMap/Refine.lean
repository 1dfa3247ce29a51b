/-
# `FlatMap` refines a finite map

Any number of maps, and any sequence of `init`, `operator[]`, `insert`, `erase`, `clear`, `resize`,
`swap` and `operator=` on them, beside the finite maps that the same operations give (`absStep`):
`flatMap_refines`.
-/

import Brpc.FlatMap.Grow
import Brpc.Lib.Run

namespace Brpc.FlatMap

open Function Option

variable {K V : Type*} {T : Traits K V} {P : K → Prop} {m : Map K V} {f : K → Option V}

/-! ### Copying -/

theorem bit_copyThumbnail (t : BitArray) (rhs : Map K V) (n j : ℕ) :
    bit (copyThumbnail t rhs n) j = (decide (j < n) && (rhs.buckets j).isValid || bit t j) := by
  induction n with
  | zero => simp [copyThumbnail]
  | succ n ih =>
    have hsplit : decide (j < n + 1) = (decide (j = n) || decide (j < n)) := by
      rw [Bool.eq_iff_iff]
      simp
      omega
    rw [copyThumbnail, hsplit]
    split_ifs with hv
    · rw [bit_set, ih]
      by_cases hj : j = n
      · subst hj
        simp [hv]
      · simp [hj]
    · rw [ih]
      by_cases hj : j = n
      · subst hj
        simp [hv]
      · simp [hj]

theorem Map.Repr.copy {rhs : Map K V} (h : rhs.Repr T P f) (hinit : m.initialized = true)
    (hload : 10 ≤ m.loadFactor ∧ m.loadFactor ≤ 100) (hn : m.nbucket = rhs.nbucket)
    (hsize : m.size = rhs.size) (hb : m.buckets = rhs.buckets)
    (hbits : T.sparse = true → ∀ j < rhs.nbucket, bit m.thumbnail j = (rhs.buckets j).isValid) :
    m.Repr T P f := by
  have hslot : ∀ k, m.slot T k = rhs.slot T k := fun k => by simp only [Map.slot, hn]
  have hwf : m.Wf T P := by
    refine ⟨hinit, hn ▸ h.wf.count, hload, ?_, fun i hi e he => ?_, ?_, ?_⟩
    · rw [hn, hb]
      exact h.wf.chain
    · rw [hslot]
      exact h.wf.slot i (hn ▸ hi) e (hb ▸ he)
    · rw [hsize, hn, hb]
      exact h.wf.size
    · rw [hn, hb]
      exact hbits
  refine ⟨hwf, fun k hk => ?_⟩
  rw [hwf.seek_eq, hslot, hb, h.seek_eq hk]

theorem insertAll_spec (hT : T.Lawful P) (a : Alloc) {es : List (K × V)} (hes : ∀ e ∈ es, P e.1)
    (h : m.Repr T P f) (hr : m.Roomy T) :
    ∃ m', es.foldlM (fun m e => m.insert T a e.1 e.2) m = some m' ∧ m'.Repr T P (putAll T f es) ∧ m'.Roomy T := by
  induction es generalizing m f with
  | nil => exact ⟨m, rfl, h, hr⟩
  | cons e es ih =>
    obtain ⟨m₁, h₁, hrepr, hr₁⟩ := h.insert hT a hr (hes e List.mem_cons_self) e.2
    obtain ⟨m₂, h₂, hrepr₂, hr₂⟩ := ih (fun e' he' => hes e' (List.mem_cons_of_mem _ he')) hrepr hr₁
    exact ⟨m₂, by rw [List.foldlM_cons, h₁]; exact h₂, hrepr₂, hr₂⟩

/-- **`operator=` between initialised maps.** -/
theorem Map.Repr.assign (hT : T.Lawful P) (a : Alloc) {rhs : Map K V} {g : K → Option V}
    (h : m.Repr T P f) (hr : m.Roomy T) (hrhs : rhs.Repr T P g) (hr' : rhs.Roomy T)
    (hroom : a.room rhs.nbucket = true) : ∃ m', m.assign T a rhs = some m' ∧ m'.Repr T P g ∧ m'.Roomy T := by
  obtain ⟨hclear, hsize, hn⟩ := h.clear
  have hrc : (m.clear T).Roomy T := fun hs => by rw [hn]; exact hr hs
  unfold Map.assign
  obtain ⟨c, hc⟩ : ∃ c, c = m.clear T := ⟨_, rfl⟩
  rw [← hc] at hclear hsize hn hrc
  simp only [← hc, hclear.wf.initialized, if_true, Bool.not_true, Bool.false_or, hroom, Bool.and_false,
    Bool.false_eq_true, if_false]
  by_cases hempty : rhs.size = 0
  · rw [if_pos hempty]
    refine ⟨c, rfl, hclear.of_eq fun k hk => ?_, hrc⟩
    rw [hrhs.seek_eq hk, gather_length_zero (hrhs.wf.size ▸ hempty) (Nat.zero_le _) (by simpa using hrhs.wf.slot_lt k)]
    rfl
  rw [if_neg hempty]
  by_cases hcrowd : c.isTooCrowded rhs.size = true
  · simp only [hcrowd, if_true]
    refine ⟨_, rfl, hrhs.copy rfl hclear.wf.load rfl rfl rfl fun hs j hj => ?_, hr'⟩
    simp only [hs, if_true]
    rw [bit_copyThumbnail, bit_clear _ hj]
    simp [hj]
  · simp only [hcrowd, if_false, Bool.false_eq_true]
    by_cases hsame : c.nbucket = rhs.nbucket
    · rw [if_pos hsame]
      refine ⟨_, rfl, hrhs.copy hclear.wf.initialized hclear.wf.load hsame rfl rfl fun hs j hj => ?_, hrc⟩
      have hzero : bit c.thumbnail j = false := by
        rw [hclear.wf.bits hs j (hsame ▸ hj), Bucket.isValid_eq,
          gather_length_zero (hclear.wf.size ▸ hsize) (Nat.zero_le j) (by omega)]
        rfl
      simp only [hs, if_true]
      rw [bit_copyThumbnail, hzero]
      simp [hj]
    · rw [if_neg hsame, walk_eq hrhs.wf hr', bind_some]
      have hchain := hrhs.wf.chain_gather hT
      obtain ⟨m', hm', hrepr, hroomy⟩ := insertAll_spec hT a hchain.keys hclear hrc
      refine ⟨m', hm', hrepr.of_eq fun k hk => ?_, hroomy⟩
      rw [putAll_eq hT hchain hk, hrhs.seek_gather hT hk]
      exact or_none

/-! ### Runs -/

variable {ι : Type*} [DecidableEq ι]

/-- An operation on the maps named by `ι`. -/
inductive Op (ι K V : Type*) where
  | init (i : ι) (nbucket loadFactor : ℕ)
  | index (i : ι) (key : K)
  | insert (i : ι) (key : K) (value : V)
  | erase (i : ι) (key : K)
  | clear (i : ι)
  | resize (i : ι) (nbucket : ℕ)
  | swap (i j : ι)
  | assign (i j : ι)

/-- The map `i` replaced by what an operation on it gives. -/
def replace (s : ι → Map K V) (i : ι) (m : Option (Map K V)) : Option (ι → Map K V) :=
  m.map (update s i)

/-- The maps after an operation, with what the allocator answers in it; `none` when the call does not
return. -/
def applyOp (T : Traits K V) (s : ι → Map K V) (a : Alloc) : Op ι K V → Option (ι → Map K V)
  | .init i nbucket loadFactor => replace s i (some ((s i).init T a nbucket loadFactor).1)
  | .index i key => replace s i ((s i).index T a key)
  | .insert i key value => replace s i ((s i).insert T a key value)
  | .erase i key => replace s i (some ((s i).erase T key).1)
  | .clear i => replace s i (some ((s i).clear T))
  | .resize i nbucket => replace s i (((s i).resize T a nbucket).map Prod.fst)
  | .swap i j => some (update (update s i (s j)) j (s i))
  | .assign i j => if i = j then some s else replace s i ((s i).assign T a (s j))

/-- A step of a run; after a call that does not return nothing happens any more. -/
def step (T : Traits K V) (s : Option (ι → Map K V)) (e : Alloc × Op ι K V) : Option (ι → Map K V) :=
  s.bind fun s => applyOp T s e.1 e.2

/-- The same operation on finite maps. -/
def absStep (T : Traits K V) (f : ι → K → Option V) (e : Alloc × Op ι K V) : ι → K → Option V :=
  match e.2 with
  | .init .. | .resize .. => f
  | .index i key => update f i (touch T (f i) key)
  | .insert i key value => update f i (put T (f i) key value)
  | .erase i key => update f i (del T (f i) key)
  | .clear i => update f i fun _ => none
  | .swap i j => update (update f i (f j)) j (f i)
  | .assign i j => update f i (f j)

/-- What a caller has to see to: elements go into initialised maps, copies are between initialised
maps with memory for them, and 64 bits hold the bucket counts. -/
def Legal (s : ι → Map K V) (a : Alloc) : Op ι K V → Prop
  | .init _ nbucket _ | .resize _ nbucket => nbucket ≤ 2 ^ 63
  | .index i _ | .insert i .. => (s i).initialized = true
  | .erase .. | .clear _ | .swap .. => True
  | .assign i j =>
    (s i).initialized = true ∧ (s j).initialized = true ∧ a.room (s j).nbucket = true

/-- A sparse map is never asked to have 32 buckets or fewer. -/
def Op.AsksRoom (T : Traits K V) : Op ι K V → Prop
  | .init _ nbucket _ | .resize _ nbucket => T.sparse = true → 32 < nbucket
  | _ => True

/-- The map answers as `f`, reports what it erases, counts its keys and keeps none twice, and a walk
over it visits each of them once. -/
structure Agrees (T : Traits K V) (m : Map K V) (f : K → Option V) : Prop where
  seek : ∀ k, m.seek T k = f k
  erase : ∀ k, (m.erase T k).2 = (if (f k).isSome then 1 else 0, f k)
  size : m.size = (gather m.buckets m.nbucket 0).length
  once : (gather m.buckets m.nbucket 0).Pairwise fun e e' => T.eql e.1 e'.1 = false
  walk : m.walk T = some (gather m.buckets m.nbucket 0)
  keys : ∀ k v, f k = some v ↔ ∃ k', (k', v) ∈ gather m.buckets m.nbucket 0 ∧ T.eql k' k = true

/-- What holds of each map of a run: it is not initialised and empty, or it represents its finite
map. -/
def Map.Ok (T : Traits K V) (m : Map K V) (f : K → Option V) : Prop :=
  m.initialized = false ∧ m.size = 0 ∧ (∀ k, f k = none) ∨ m.Repr T (fun _ => True) f ∧ m.Roomy T

theorem Map.Ok.repr (h : m.Ok T f) (hinit : m.initialized = true) : m.Repr T (fun _ => True) f ∧ m.Roomy T := by
  rcases h with ⟨hno, -⟩ | h
  · rw [hno] at hinit
    cases hinit
  · exact h

theorem Map.Ok.agrees (hT : T.Lawful fun _ => True) (h : m.Ok T f) (hinit : m.initialized = true) : Agrees T m f := by
  obtain ⟨hrepr, hr⟩ := h.repr hinit
  have hchain := hrepr.wf.chain_gather hT
  refine ⟨fun k => hrepr.seek k trivial, fun k => (hrepr.erase hT trivial).2.2, hrepr.wf.size,
    hchain.distinct, walk_eq hrepr.wf hr, fun k v => ?_⟩
  rw [← hrepr.seek_gather hT trivial, chainSeek_eq_some hT hchain trivial]

theorem roomy_of_lt {n k : ℕ} (hn : IsCount n) (hk : 32 < k) (h : k ≤ n) : 64 ≤ n := by
  obtain ⟨e, -, -, rfl⟩ := hn
  have : 5 < e := (Nat.pow_lt_pow_iff_right (by omega)).1 (show 2 ^ 5 < 2 ^ e by omega)
  exact Nat.pow_le_pow_right (n := 2) (i := 6) (by omega) this

/-! #### One step -/

theorem Map.Ok.init (h : m.Ok T f) (a : Alloc) {n load : ℕ} (hn : n ≤ 2 ^ 63)
    (hroom : T.sparse = true → 32 < n) : (m.init T a n load).1.Ok T f := by
  rcases init_spec (T := T) (P := fun _ => True) (m := m) a load hn with
    ⟨-, hinit, hsame⟩ | ⟨-, hinit, hrepr, -, hle, -⟩
  · rcases h with ⟨hno, hsize, hf⟩ | h
    · refine .inl ⟨hinit.trans hno, ?_, hf⟩
      unfold Map.init
      simp only
      split_ifs <;> first | exact hsize | rfl
    · rw [hsame h.1.wf.initialized]
      exact .inr h
  · rcases h with ⟨-, -, hf⟩ | h
    · exact .inr ⟨hrepr.of_eq fun k _ => (hf k).symm, fun hs => roomy_of_lt hrepr.wf.count (hroom hs) hle⟩
    · rw [h.1.wf.initialized] at hinit
      cases hinit

theorem Map.Ok.erase (hT : T.Lawful fun _ => True) (h : m.Ok T f) (key : K) :
    (m.erase T key).1.Ok T (del T f key) := by
  rcases h with ⟨hno, hsize, hf⟩ | ⟨hrepr, hr⟩
  · refine .inl ?_
    rw [Map.erase, if_pos hno]
    refine ⟨hno, hsize, fun k => ?_⟩
    rw [del, hf]
    split_ifs <;> rfl
  · obtain ⟨hrepr', hn, -⟩ := hrepr.erase hT (trivial : (fun _ : K => True) key)
    exact .inr ⟨hrepr', fun hs => by rw [hn]; exact hr hs⟩

theorem Map.Ok.clear (h : m.Ok T f) : (m.clear T).Ok T fun _ => none := by
  rcases h with ⟨hno, hsize, -⟩ | ⟨hrepr, hr⟩
  · rw [Map.clear, if_pos hsize]
    exact .inl ⟨hno, hsize, fun _ => rfl⟩
  · obtain ⟨hrepr', -, hn⟩ := hrepr.clear
    exact .inr ⟨hrepr', fun hs => by rw [hn]; exact hr hs⟩

theorem Map.Ok.resize (hT : T.Lawful fun _ => True) (h : m.Ok T f) (a : Alloc) {n : ℕ}
    (hn : n ≤ 2 ^ 63) (hroom : T.sparse = true → 32 < n) : ∃ r, m.resize T a n = some r ∧ r.1.Ok T f := by
  obtain ⟨hcount, hle⟩ := flatmapRound_spec hn
  rcases h with ⟨hno, hsize, hf⟩ | ⟨hrepr, hr⟩
  · have hwalk : m.walk T = some [] := by
      simp [Map.walk, hsize, Map.walkFrom, Map.iter, hno]
    unfold Map.resize Map.resizeWith
    simp only [hwalk, bind_some]
    split_ifs with hsame hrc
    · exact ⟨_, rfl, .inl ⟨hno, hsize, hf⟩⟩
    · exact ⟨_, rfl, .inl ⟨hno, hsize, hf⟩⟩
    · rcases init_spec (T := T) (P := fun _ => True) (m := {}) a m.loadFactor
        hcount.le with ⟨hc, -⟩ | ⟨-, -, hrepr, -, hle', -⟩
      · exact absurd hc hrc
      · exact ⟨_, rfl, .inr ⟨hrepr.of_eq fun k _ => (hf k).symm,
          fun hs => roomy_of_lt hrepr.wf.count (hroom hs) (hle.trans hle')⟩⟩
  · obtain ⟨r, hr', hrepr', hroomy⟩ := hrepr.resize hT a hr hn fun hs => roomy_of_lt hcount (hroom hs) hle
    exact ⟨r, hr', .inr ⟨hrepr', hroomy⟩⟩

/-- The maps of a run and their finite maps. -/
def AllOk (T : Traits K V) (s : ι → Map K V) (f : ι → K → Option V) : Prop := ∀ i, (s i).Ok T (f i)

variable {f : ι → K → Option V} {s : ι → Map K V}

theorem AllOk.replace (h : AllOk T s f) {i : ι} {m : Map K V} {g : K → Option V} (hm : m.Ok T g) :
    AllOk T (update s i m) (update f i g) := by
  intro j
  by_cases hj : j = i
  · subst hj
    rwa [update_self, update_self]
  · rw [update_of_ne hj, update_of_ne hj]
    exact h j

theorem AllOk.replace_same (h : AllOk T s f) {i : ι} {m : Map K V} (hm : m.Ok T (f i)) : AllOk T (update s i m) f := by
  have := h.replace (i := i) hm
  rwa [update_eq_self] at this

/-- **One step**: a legal call on such maps returns, and leaves such maps. -/
theorem AllOk.step (hT : T.Lawful fun _ => True)
    (h : AllOk T s f) {a : Alloc} {op : Op ι K V} (hlegal : Legal s a op) (hroom : op.AsksRoom T) :
    ∃ s', applyOp T s a op = some s' ∧ AllOk T s' (absStep T f (a, op)) := by
  cases op with
  | init i =>
    exact ⟨_, rfl, h.replace_same ((h i).init a hlegal hroom)⟩
  | index i key =>
    obtain ⟨hrepr, hr⟩ := (h i).repr hlegal
    obtain ⟨m', hm', hrepr', hr'⟩ := hrepr.index hT a hr (trivial : (fun _ : K => True) key)
    exact ⟨_, by rw [applyOp, hm']; rfl, h.replace (.inr ⟨hrepr', hr'⟩)⟩
  | insert i key value =>
    obtain ⟨hrepr, hr⟩ := (h i).repr hlegal
    obtain ⟨m', hm', hrepr', hr'⟩ := hrepr.insert hT a hr (trivial : (fun _ : K => True) key) value
    exact ⟨_, by rw [applyOp, hm']; rfl, h.replace (.inr ⟨hrepr', hr'⟩)⟩
  | erase i key => exact ⟨_, rfl, h.replace ((h i).erase hT key)⟩
  | clear i => exact ⟨_, rfl, h.replace (h i).clear⟩
  | resize i =>
    obtain ⟨r, hr, hok⟩ := (h i).resize hT a hlegal hroom
    exact ⟨_, by rw [applyOp, hr]; rfl, h.replace_same hok⟩
  | swap i j => exact ⟨_, rfl, (h.replace (h j)).replace (h i)⟩
  | assign i j =>
    obtain ⟨hi, hj, hmem⟩ := hlegal
    obtain ⟨hrepr, hr⟩ := (h i).repr hi
    obtain ⟨hrepr', hr'⟩ := (h j).repr hj
    rw [applyOp]
    split_ifs with hij
    · subst hij
      exact ⟨s, rfl, by simpa [absStep] using h⟩
    · obtain ⟨m', hm', hcopy, hroomy⟩ := hrepr.assign hT a hr hrepr' hr' hmem
      exact ⟨_, by rw [hm']; rfl, h.replace (.inr ⟨hcopy, hroomy⟩)⟩

/-! #### Whole runs -/

/-- Every call is one the caller may make, and no sparse map is asked to have 32 buckets or fewer. -/
def Fair (T : Traits K V) (s : Option (ι → Map K V)) (e : Alloc × Op ι K V) : Prop :=
  (∀ s', s = some s' → Legal s' e.1 e.2) ∧ e.2.AsksRoom T

theorem run_allOk (hT : T.Lawful fun _ => True) (es : List (Alloc × Op ι K V)) (h : AllOk T s f)
    (hfair : Lib.Along (step T) (Fair T) (some s) es) :
    ∃ s', Lib.run (step T) (some s) es = some s' ∧ AllOk T s' (Lib.run (absStep T) f es) := by
  induction es generalizing s f with
  | nil => exact ⟨s, rfl, h⟩
  | cons e es ih =>
    obtain ⟨⟨hlegal, hroom⟩, hrest⟩ := hfair
    obtain ⟨s', hs', h'⟩ := h.step hT (hlegal s rfl) hroom
    have hstep : step T (some s) e = some s' := hs'
    rw [hstep] at hrest
    rw [Lib.run_cons, Lib.run_cons, hstep]
    exact ih h' hrest

/-- **`FlatMap` refines a finite map**: in a run of legal calls in which no sparse map is asked to
have 32 buckets or fewer, every call returns, and every initialised map agrees with its finite
map. -/
theorem flatMap_refines (hT : T.Lawful fun _ => True) (es : List (Alloc × Op ι K V))
    (hfair : Lib.Along (step T) (Fair T) (some fun _ => {}) es) :
    ∃ s, Lib.run (step T) (some fun _ => {}) es = some s ∧ ∀ i, (s i).initialized = true →
        Agrees T (s i) (Lib.run (absStep T) (fun _ _ => none) es i) := by
  have hempty : AllOk T (fun _ : ι => ({} : Map K V)) fun _ _ => none := fun _ => .inl ⟨rfl, rfl, fun _ => rfl⟩
  obtain ⟨s, hs, hok⟩ := run_allOk hT es hempty hfair
  exact ⟨s, hs, fun i hi => (hok i).agrees hT hi⟩

/-! ### Maps of numbers -/

/-- A map from numbers to numbers with the identity for its hash. -/
def natTraits (sparse : Bool) : Traits ℕ ℕ := { hash := id, eql := (· == ·), sparse := sparse, zero := 0 }

theorem natTraits_lawful (sparse : Bool) : (natTraits sparse).Lawful fun _ => True := by
  refine ⟨fun k _ => ?_, fun a b _ _ h => ?_, fun a b c _ _ _ h h' => ?_, fun a b _ _ h => ?_⟩
  · exact beq_self_eq_true k
  · exact beq_iff_eq.2 (beq_iff_eq.1 h).symm
  · exact beq_iff_eq.2 ((beq_iff_eq.1 h).trans (beq_iff_eq.1 h'))
  · exact congrArg id (beq_iff_eq.1 h)

/-- An allocator that always has memory, cleared. -/
def clearedAlloc : Alloc := { room := fun _ => true, fresh := fun _ _ => 0#64 }

/-- One sparse map with so many buckets, and the key 3 put into it. -/
def oneKey (nbucket : ℕ) : List (Alloc × Op Unit ℕ ℕ) :=
  [(clearedAlloc, .init () nbucket 80), (clearedAlloc, .insert () 3 7)]

/-- A second key of the same bucket, and the first erased. -/
def twoKeys : List (Alloc × Op Unit ℕ ℕ) :=
  oneKey 64 ++ [(clearedAlloc, .insert () 67 8), (clearedAlloc, .erase () 3)]

theorem twoKeys_agrees : ∃ s, Lib.run (step (natTraits true)) (some fun _ => {}) twoKeys = some s ∧
    ∀ i, (s i).initialized = true → Agrees (natTraits true) (s i)
      (Lib.run (absStep (natTraits true)) (fun _ _ => none) twoKeys i) := by
  refine flatMap_refines (natTraits_lawful true) twoKeys ⟨⟨fun s hs => by simp [Legal], by simp [Op.AsksRoom]⟩,
    ⟨fun s hs => ?_, trivial⟩, ⟨fun s hs => ?_, trivial⟩, ⟨fun _ _ => trivial, trivial⟩, trivial⟩ <;> cases hs <;> rfl

theorem walkFrom_stuck {it : Iter} (hnext : m.next T it = it) (hne : it ≠ m.iter T m.nbucket)
    (fuel : ℕ) : m.walkFrom T fuel it = none := by
  induction fuel with
  | zero => rw [Map.walkFrom, if_neg hne]
  | succ fuel ih => rw [Map.walkFrom, if_neg hne, hnext, ih, map_none]

/-- **A sparse map of eight buckets with one element**: the element is found, and a walk from `begin()`
never reaches `end()`. -/
theorem sparse_walk_never_ends : ∃ s, Lib.run (step (natTraits true)) (some fun _ => {}) (oneKey 8) = some s ∧
      (s ()).seek (natTraits true) 3 = some 7 ∧ (s ()).size = 1 ∧
      ∀ fuel, (s ()).walkFrom (natTraits true) fuel ((s ()).iter (natTraits true) 0) = none :=
  ⟨_, rfl, by decide, by decide, walkFrom_stuck (by decide) (by decide)⟩

end Brpc.FlatMap
