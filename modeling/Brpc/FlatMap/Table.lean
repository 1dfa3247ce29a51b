/-
# `FlatMap`

`butil/containers/flat_map.h` and `flat_map_inl.h`: a hash map whose buckets hold their first
element in place and the others in a chain.  The iterator of the dense variant looks at every
bucket, that of the sparse one searches the bit array `_thumbnail` (`butil/bit_array.h`).
`bitArrayFirst1_spec`: the first bit at or behind `begin` is found when `end` falls on a word
boundary.

An operation gives `none` when it walks over the map and the walk does not end.  A bucket not in use
has the `next` pointer -1; the extra bucket behind the last one counts as used.  An allocation may
fail, and fresh memory holds anything (`Alloc`).
-/

import Mathlib.Data.List.Basic

namespace Brpc.FlatMap

open Function

/-- The words of a bit array. -/
abbrev BitArray := ℕ → BitVec 64

variable (a : BitArray) (i : ℕ)

/-- The word with bit `i` set: `((uint64_t)1) << i`. -/
def bitMask : BitVec 64 := 1#64 <<< i

/-- `__builtin_ctzl`, of a word that is not zero. -/
def ctz (v : BitVec 64) : ℕ := ((List.range 64).find? v.getLsbD).getD 64

/-- `bit_array_clear`: bits `0` to `nbit - 1` become zero. -/
def bitArrayClear (nbit : ℕ) : BitArray := fun w =>
  if w < nbit / 64 then 0#64
  else if w = nbit / 64 ∧ nbit / 64 * 64 ≠ nbit then
    a w &&& ~~~(bitMask (nbit - nbit / 64 * 64) - 1#64)
  else a w

def bitArraySet : BitArray :=
  update a (i / 64) (a (i / 64) ||| bitMask (i - i / 64 * 64))

def bitArrayUnset : BitArray :=
  update a (i / 64) (a (i / 64) &&& ~~~(bitMask (i - i / 64 * 64)))

/-- The loop of `bit_array_first1` over whole words, `n` of them from word `i` on: the
position of the first bit found. -/
def firstWord (a : BitArray) : ℕ → ℕ → Option ℕ
  | 0, _ => none
  | n + 1, i => if a i ≠ 0#64 then some (i * 64 + ctz (a i)) else firstWord a n (i + 1)

/-- The end of `bit_array_first1`: the words from `off1` on. -/
def first1From (off1 stop : ℕ) : ℕ :=
  match firstWord a (stop / 64 - off1) off1 with
  | some i => i
  | none =>
    if stop / 64 * 64 ≠ stop ∧ a (stop / 64) ≠ 0#64 then
      min (stop / 64 * 64 + ctz (a (stop / 64))) stop
    else stop

/-- `bit_array_first1`: the first bit from `begin` to `end`, here `stop`. -/
def bitArrayFirst1 (start stop : ℕ) : ℕ :=
  let off1 := start / 64
  if off1 * 64 ≠ start then
    let v := a off1 &&& ~~~(bitMask (start - off1 * 64) - 1#64)
    if v ≠ 0#64 then min (off1 * 64 + ctz v) stop
    else first1From a (off1 + 1) stop
  else first1From a off1 stop

/-- Bit `i` is set. -/
def bit : Bool := (a (i / 64)).getLsbD (i % 64)

theorem getLsbD_bitMask (i j : ℕ) (hj : j < 64) : (bitMask i).getLsbD j = decide (j = i) := by
  simp only [bitMask, BitVec.getLsbD_shiftLeft, BitVec.getLsbD_one]
  by_cases h : j < i
  · simp [h, Nat.ne_of_lt h]
  · simp [hj, h]
    omega

theorem getLsbD_bitMask_sub_one (n j : ℕ) (hn : n < 64) (hj : j < 64) :
    (bitMask n - 1#64).getLsbD j = decide (j < n) := by
  have htwo : bitMask n - 1#64 = BitVec.ofNat 64 (2 ^ n - 1) := by
    apply BitVec.eq_of_toNat_eq
    have hpow : 2 ^ n < 2 ^ 64 := Nat.pow_lt_pow_right (by omega) hn
    have hpos : 0 < 2 ^ n := Nat.two_pow_pos n
    simp only [bitMask, BitVec.toNat_sub, BitVec.toNat_shiftLeft, BitVec.toNat_ofNat, Nat.shiftLeft_eq]
    omega
  rw [htwo, BitVec.getLsbD_ofNat, Nat.testBit_two_pow_sub_one]
  simp [hj]

theorem bit_set (i j : ℕ) : bit (bitArraySet a i) j = (decide (j = i) || bit a j) := by
  unfold bit bitArraySet
  by_cases hw : j / 64 = i / 64
  · rw [hw, update_self, BitVec.getLsbD_or, getLsbD_bitMask _ _ (Nat.mod_lt _ (by omega)), Bool.or_comm]
    congr 2
    simp only [eq_iff_iff]
    omega
  · rw [update_of_ne hw]
    have : j ≠ i := fun h => hw (h ▸ rfl)
    simp [this]

theorem bit_unset (i j : ℕ) : bit (bitArrayUnset a i) j = (!decide (j = i) && bit a j) := by
  unfold bit bitArrayUnset
  have hj : j % 64 < 64 := Nat.mod_lt _ (by omega)
  by_cases hw : j / 64 = i / 64
  · rw [hw, update_self, BitVec.getLsbD_and, BitVec.getLsbD_not, getLsbD_bitMask _ _ hj, Bool.and_comm]
    simp only [hj, decide_true, Bool.true_and]
    congr 3
    simp only [eq_iff_iff]
    omega
  · rw [update_of_ne hw]
    have : j ≠ i := fun h => hw (h ▸ rfl)
    simp [this]

theorem bit_clear {nbit j : ℕ} (hj : j < nbit) : bit (bitArrayClear a nbit) j = false := by
  unfold bit bitArrayClear
  have hj' : j % 64 < 64 := Nat.mod_lt _ (by omega)
  split_ifs with hw hlast
  · simp
  · rw [BitVec.getLsbD_and, BitVec.getLsbD_not, getLsbD_bitMask_sub_one _ _ (by omega) hj']
    have hbit : j % 64 < nbit - nbit / 64 * 64 := by omega
    simp [hbit]
  · omega

/-! ### The first bit -/

theorem ctz_spec {v : BitVec 64} (hv : v ≠ 0#64) :
    ctz v < 64 ∧ v.getLsbD (ctz v) = true ∧ ∀ j < ctz v, v.getLsbD j = false := by
  unfold ctz
  cases hf : (List.range 64).find? v.getLsbD with
  | none =>
    refine absurd (BitVec.eq_of_getLsbD_eq fun i hi => ?_) hv
    have := List.find?_eq_none.1 hf i (List.mem_range.2 hi)
    simpa using this
  | some =>
    rw [List.find?_range_eq_some] at hf
    obtain ⟨hbit, hmem, hbelow⟩ := hf
    refine ⟨List.mem_range.1 hmem, hbit, fun j hj => ?_⟩
    simpa using hbelow j hj

/-- `i` is the first bit of `a` from `start` on, or is `stop` when there is none before it. -/
def IsFirst (start stop i : ℕ) : Prop :=
  start ≤ i ∧ i ≤ stop ∧ (i < stop → bit a i = true) ∧ ∀ j, start ≤ j → j < i → bit a j = false

theorem bit_word {a : BitArray} {w j : ℕ} (h : j / 64 = w) : bit a j = (a w).getLsbD (j - w * 64) := by
  unfold bit
  rw [h, show j % 64 = j - w * 64 by omega]

theorem bit_of_word_eq_zero {a : BitArray} {w j : ℕ} (hw : a w = 0#64) (h : j / 64 = w) : bit a j = false := by
  rw [bit_word h, hw]
  simp

theorem firstWord_spec (n i : ℕ) : match firstWord a n i with
    | some p => i * 64 ≤ p ∧ p < (i + n) * 64 ∧ bit a p = true ∧ ∀ j, i * 64 ≤ j → j < p → bit a j = false
    | none => ∀ j, i * 64 ≤ j → j < (i + n) * 64 → bit a j = false := by
  induction n generalizing i with
  | zero =>
    intro j hij hj
    omega
  | succ n ih =>
    rw [firstWord]
    split_ifs with hw
    · obtain ⟨hlt, hbit, hbelow⟩ := ctz_spec hw
      refine ⟨by omega, by omega, ?_, fun j hij hj => ?_⟩
      · rw [bit_word (w := i) (by omega), show i * 64 + ctz (a i) - i * 64 = ctz (a i) by omega]
        exact hbit
      · rw [bit_word (w := i) (by omega)]
        exact hbelow _ (by omega)
    · have hzero : a i = 0#64 := not_not.1 hw
      have hskip : ∀ j, i * 64 ≤ j → j < (i + 1) * 64 → bit a j = false := fun j hij hj =>
        bit_of_word_eq_zero hzero (by omega)
      have hrest := ih (i + 1)
      cases hf : firstWord a n (i + 1) with
      | some =>
        rw [hf] at hrest
        obtain ⟨hle, hlt, hbit, hbelow⟩ := hrest
        refine ⟨by omega, by omega, hbit, fun j hij hj => ?_⟩
        rcases Nat.lt_or_ge j ((i + 1) * 64) with h | h
        · exact hskip j hij h
        · exact hbelow j h hj
      | none =>
        rw [hf] at hrest
        intro j hij hj
        rcases Nat.lt_or_ge j ((i + 1) * 64) with h | h
        · exact hskip j hij h
        · exact hrest j h (by omega)

theorem first1From_spec {w stop : ℕ} (hw : w * 64 ≤ stop) (hstop : stop % 64 = 0) :
    IsFirst a (w * 64) stop (first1From a w stop) := by
  unfold first1From
  have hwords := firstWord_spec a (stop / 64 - w) w
  have hend : (w + (stop / 64 - w)) * 64 = stop := by omega
  cases hf : firstWord a (stop / 64 - w) w with
  | some =>
    rw [hf, hend] at hwords
    obtain ⟨hle, hlt, hbit, hbelow⟩ := hwords
    exact ⟨hle, Nat.le_of_lt hlt, fun _ => hbit, hbelow⟩
  | none =>
    rw [hf, hend] at hwords
    have hboundary : stop / 64 * 64 = stop := by omega
    simp only [hboundary, ne_eq, not_true_eq_false, false_and, if_false]
    exact ⟨hw, Nat.le_refl _, fun h => absurd h (Nat.lt_irrefl _), hwords⟩

theorem getLsbD_from_start {start j : ℕ} (hj : j < 64) :
    (a (start / 64) &&& ~~~(bitMask (start - start / 64 * 64) - 1#64)).getLsbD j =
      ((a (start / 64)).getLsbD j && !decide (j < start - start / 64 * 64)) := by
  rw [BitVec.getLsbD_and, BitVec.getLsbD_not, getLsbD_bitMask_sub_one _ _ (by omega) hj]
  simp [hj]

/-- **The search finds the first bit**, when the end falls on a word boundary. -/
theorem bitArrayFirst1_spec {start stop : ℕ} (h : start ≤ stop)
    (hstop : stop % 64 = 0) : IsFirst a start stop (bitArrayFirst1 a start stop) := by
  unfold bitArrayFirst1
  simp only
  split_ifs with hstart hv
  · obtain ⟨hlt, hbit, hbelow⟩ := ctz_spec hv
    rw [getLsbD_from_start a hlt, Bool.and_eq_true, Bool.not_eq_true', decide_eq_false_iff_not] at hbit
    obtain ⟨hset, hfrom⟩ := hbit
    -- the word ends at or before `stop`, so the minimum is the bit itself
    rw [Nat.min_eq_left (by omega)]
    refine ⟨by omega, by omega, fun _ => ?_, fun j hj hlt' => ?_⟩
    · rw [bit_word (w := start / 64) (by omega), Nat.add_sub_cancel_left]
      exact hset
    · rw [bit_word (w := start / 64) (by omega)]
      have hj' := hbelow (j - start / 64 * 64) (by omega)
      rw [getLsbD_from_start a (by omega), Bool.and_eq_false_iff] at hj'
      refine hj'.resolve_right ?_
      simp
      omega
  · have hzero := not_not.1 hv
    obtain ⟨hle, hle', hbit, hbelow⟩ := first1From_spec a (w := start / 64 + 1) (by omega) hstop
    refine ⟨by omega, hle', hbit, fun j hj hlt => ?_⟩
    rcases Nat.lt_or_ge j ((start / 64 + 1) * 64) with h' | h'
    · rw [bit_word (w := start / 64) (by omega)]
      have hj' : (0#64).getLsbD (j - start / 64 * 64) = false := by simp
      rw [← hzero, getLsbD_from_start a (by omega), Bool.and_eq_false_iff] at hj'
      refine hj'.resolve_right ?_
      simp
      omega
    · exact hbelow j h' hlt
  · have hstart' : start / 64 * 64 = start := not_not.1 hstart
    have := first1From_spec a (w := start / 64) (by omega) hstop
    rwa [hstart'] at this

/-! ## The map -/

/-- The template arguments of a map: `_Hash`, `_Equal` (the stored key stands on the
left), `_Sparse`, and the value `_T()`. -/
structure Traits (K V : Type*) where
  hash : K → ℕ
  eql : K → K → Bool
  sparse : Bool
  zero : V

/-- The allocator's answers: the memory for so many buckets, and what stands in fresh memory for
so many bits. -/
structure Alloc where
  room : ℕ → Bool
  fresh : ℕ → BitArray

/-- `find_power2`, in 64-bit arithmetic. -/
def findPower2 (b : ℕ) : ℕ :=
  let b := b - 1
  let b := b ||| (b >>> 1)
  let b := b ||| (b >>> 2)
  let b := b ||| (b >>> 4)
  let b := b ||| (b >>> 8)
  let b := b ||| (b >>> 16)
  let b := b ||| (b >>> 32)
  (b + 1) % 18446744073709551616

def flatmapRound (nbucket : ℕ) : ℕ := if nbucket ≤ 8 then 8 else findPower2 nbucket

def flatmapMod (hashCode nbucket : ℕ) : ℕ := hashCode &&& (nbucket - 1)

variable {K V : Type*}

/-- A bucket: not in use, or its first element and the chain behind it. -/
inductive Bucket (K V : Type*) where
  | invalid
  | node (first : K × V) (next : List (K × V))

/-- The elements of a bucket, in the order they are looked at. -/
def Bucket.elems : Bucket K V → List (K × V)
  | .invalid => []
  | .node first next => first :: next

def Bucket.isValid : Bucket K V → Bool
  | .invalid => false
  | .node .. => true

/-- The fields of a `FlatMap`; `initialized` is `_buckets != NULL`. -/
structure Map (K V : Type*) where
  size : ℕ := 0
  nbucket : ℕ := 0
  initialized : Bool := false
  buckets : ℕ → Bucket K V := fun _ => .invalid
  thumbnail : BitArray := fun _ => 0#64
  loadFactor : ℕ := 0

/-- The bucket a key belongs to. -/
def Map.slot (T : Traits K V) (m : Map K V) (key : K) : ℕ := flatmapMod (T.hash key) m.nbucket

def Map.isTooCrowded (m : Map K V) (size : ℕ) : Bool := decide (m.nbucket * m.loadFactor ≤ size * 100)

/-- `init`, with what it returns. -/
def Map.init (T : Traits K V) (a : Alloc) (m : Map K V) (nbucket loadFactor : ℕ) : Map K V × Int :=
  if m.initialized then (m, -1)
  else if nbucket = 0 then (m, -1)
  else if loadFactor < 10 ∨ 100 < loadFactor then (m, -1)
  else
    let n := flatmapRound nbucket
    if a.room n = false then ({ m with size := 0, nbucket := n, loadFactor := loadFactor }, -1)
    else
      ({ size := 0, nbucket := n, loadFactor := loadFactor, initialized := true
         buckets := fun _ => .invalid
         thumbnail := if T.sparse then bitArrayClear (a.fresh n) n else m.thumbnail }, 0)

/-! ### Looking up and erasing -/

/-- The loop over a chain in `seek`. -/
def chainSeek (eql : K → K → Bool) (key : K) : List (K × V) → Option V
  | [] => none
  | p :: ps => if eql p.1 key then some p.2 else chainSeek eql key ps

/-- The bucket part of `seek`. -/
def Bucket.seek (eql : K → K → Bool) (key : K) : Bucket K V → Option V
  | .invalid => none
  | .node first next => if eql first.1 key then some first.2 else chainSeek eql key next

def Map.seek (T : Traits K V) (m : Map K V) (key : K) : Option V :=
  if m.initialized = false then none
  else (m.buckets (m.slot T key)).seek T.eql key

/-- The loop over a chain in `erase`: the value taken out and the chain left. -/
def chainErase (eql : K → K → Bool) (key : K) : List (K × V) → Option (V × List (K × V))
  | [] => none
  | p :: ps =>
    if eql p.1 key then some (p.2, ps)
    else (chainErase eql key ps).map fun r => (r.1, p :: r.2)

/-- The bucket part of `erase`.  When the first element goes, the second one is moved
into its place. -/
def Bucket.erase (eql : K → K → Bool) (key : K) : Bucket K V → Option (V × Bucket K V)
  | .invalid => none
  | .node first next =>
    if eql first.1 key then
      match next with
      | [] => some (first.2, .invalid)
      | p :: ps => some (first.2, .node p ps)
    else (chainErase eql key next).map fun r => (r.1, .node first r.2)

/-- `erase`: how many elements were erased, and the `old_value` handed out. -/
def Map.erase (T : Traits K V) (m : Map K V) (key : K) : Map K V × ℕ × Option V :=
  if m.initialized = false then (m, 0, none)
  else
    let index := m.slot T key
    match (m.buckets index).erase T.eql key with
    | none => (m, 0, none)
    | some (v, b) =>
      ({ m with
         size := m.size - 1
         buckets := update m.buckets index b
         thumbnail :=
           if T.sparse && !b.isValid then bitArrayUnset m.thumbnail index else m.thumbnail }, 1, some v)

def Map.clear (T : Traits K V) (m : Map K V) : Map K V :=
  if m.size = 0 then m
  else
    { m with
      size := 0
      buckets := fun _ => .invalid
      thumbnail := if T.sparse then bitArrayClear m.thumbnail m.nbucket else m.thumbnail }

/-! ### Walking over a map -/

/-- A `FlatMapIterator`: the bucket `_entry` points at, and how far down its chain
`_node` is. -/
structure Iter where
  entry : ℕ
  node : ℕ
deriving DecidableEq

/-- `is_valid()` of the bucket at `pos`, the extra one included. -/
def Map.validAt (m : Map K V) (pos : ℕ) : Bool := pos == m.nbucket || (m.buckets pos).isValid

/-- The loop of the dense iterator, over at most `n` buckets. -/
def Map.skipInvalid (m : Map K V) : ℕ → ℕ → ℕ
  | 0, pos => pos
  | n + 1, pos => if m.validAt pos then pos else m.skipInvalid n (pos + 1)

/-- `find_and_set_valid_node` from bucket `pos` on. -/
def Map.findValidNode (T : Traits K V) (m : Map K V) (pos : ℕ) : ℕ :=
  if T.sparse then
    if m.validAt pos then pos else bitArrayFirst1 m.thumbnail (pos + 1) m.nbucket
  else m.skipInvalid (m.nbucket - pos) pos

/-- `begin()`, or with `pos` the bucket count `end()`: an iterator made at bucket `pos`. -/
def Map.iter (T : Traits K V) (m : Map K V) (pos : ℕ) : Iter :=
  if m.initialized then ⟨m.findValidNode T pos, 0⟩ else ⟨0, 0⟩

/-- `operator++` -/
def Map.next (T : Traits K V) (m : Map K V) (it : Iter) : Iter :=
  if it.node + 1 < (m.buckets it.entry).elems.length then ⟨it.entry, it.node + 1⟩
  else ⟨m.findValidNode T (it.entry + 1), 0⟩

/-- The element an iterator stands at. -/
def Map.deref (m : Map K V) (it : Iter) : Option (K × V) := (m.buckets it.entry).elems[it.node]?

/-- `for (; it != end(); ++it)`, at most `fuel` rounds: the elements visited, or `none` when
the loop has not ended by then. -/
def Map.walkFrom (T : Traits K V) (m : Map K V) : ℕ → Iter → Option (List (K × V))
  | 0, it => if it = m.iter T m.nbucket then some [] else none
  | fuel + 1, it =>
    if it = m.iter T m.nbucket then some []
    else (m.walkFrom T fuel (m.next T it)).map ((m.deref it).toList ++ ·)

/-- The elements visited from `begin()` to `end()`; a walk with more rounds than there are
elements does not end any more. -/
def Map.walk (T : Traits K V) (m : Map K V) : Option (List (K × V)) :=
  m.walkFrom T m.size (m.iter T 0)

/-! ### Adding, growing, copying -/

/-- A write through the reference `operator[]` gave for `key`. -/
def chainSet (eql : K → K → Bool) (key : K) (value : V) : List (K × V) → List (K × V)
  | [] => []
  | p :: ps => if eql p.1 key then (p.1, value) :: ps else p :: chainSet eql key value ps

@[inherit_doc chainSet]
def Bucket.set (eql : K → K → Bool) (key : K) (value : V) : Bucket K V → Bucket K V
  | .invalid => .invalid
  | .node first next =>
    if eql first.1 key then .node (first.1, value) next
    else .node first (chainSet eql key value next)

@[inherit_doc chainSet]
def Map.set (T : Traits K V) (m : Map K V) (key : K) (value : V) : Map K V :=
  { m with
    buckets := update m.buckets (m.slot T key) ((m.buckets (m.slot T key)).set T.eql key value) }

/-- `resize`, with `index` for `operator[]` of the new map: the map after it and whether it was
resized. -/
def Map.resizeWith (T : Traits K V) (a : Alloc) (index : Map K V → K → Option (Map K V))
    (m : Map K V) (nbucket2 : ℕ) : Option (Map K V × Bool) :=
  let nbucket2 := flatmapRound nbucket2
  if m.nbucket = nbucket2 then some (m, false)
  else
    let (newMap, rc) := Map.init T a {} nbucket2 m.loadFactor
    if rc ≠ 0 then some (m, false)
    else
      (m.walk T).bind fun es =>
        (es.foldlM (fun nm e => (index nm e.1).map (Map.set T · e.1 e.2)) newMap).map (·, true)

/-- The end of a chain without `key`: it is appended. -/
def Map.push (T : Traits K V) (m : Map K V) (key : K) (first : K × V) (next : List (K × V)) : Map K V :=
  { m with
    size := m.size + 1
    buckets := update m.buckets (m.slot T key) (.node first (next ++ [(key, T.zero)])) }

/-- `operator[]` for a bucket not in use. -/
def Map.place (T : Traits K V) (m : Map K V) (key : K) : Map K V :=
  { m with
    size := m.size + 1
    buckets := update m.buckets (m.slot T key) (.node (key, T.zero) [])
    thumbnail :=
      if T.sparse then bitArraySet m.thumbnail (m.slot T key) else m.thumbnail }

/-- `operator[]`: the map in which `key` has a value.  A resize in it may resize again;
`fuel` bounds how deep. -/
def Map.indexF (T : Traits K V) (a : Alloc) : ℕ → Map K V → K → Option (Map K V)
  | 0, _, _ => none
  | fuel + 1, m, key =>
    match m.buckets (m.slot T key) with
    | .invalid => some (m.place T key)
    | .node first next =>
      if (first :: next).any (T.eql ·.1 key) then some m
      else if m.isTooCrowded m.size then
        (m.resizeWith T a (Map.indexF T a fuel) (m.nbucket + 1)).bind fun r =>
          if r.2 then Map.indexF T a fuel r.1 key
          -- fail to resize is OK
          else some (m.push T key first next)
      else some (m.push T key first next)

/-- Buckets at least double with every resize inside a resize, so this is deep enough. -/
def Map.depth (m : Map K V) : ℕ := m.size * 100 + 2

/-- `operator[]` -/
def Map.index (T : Traits K V) (a : Alloc) (m : Map K V) (key : K) : Option (Map K V) :=
  m.indexF T a m.depth key

def Map.insert (T : Traits K V) (a : Alloc) (m : Map K V) (key : K) (value : V) : Option (Map K V) :=
  (m.index T a key).map (Map.set T · key value)

def Map.resize (T : Traits K V) (a : Alloc) (m : Map K V) (nbucket : ℕ) : Option (Map K V × Bool) :=
  m.resizeWith T a (Map.indexF T a m.depth) nbucket

/-- The thumbnail after the buckets of `rhs` below `n` were copied. -/
def copyThumbnail (t : BitArray) (rhs : Map K V) : ℕ → BitArray
  | 0 => t
  | n + 1 =>
    if (rhs.buckets n).isValid then bitArraySet (copyThumbnail t rhs n) n
    else copyThumbnail t rhs n

/-- `operator=`: between different maps.  Without memory for the buckets the map is left
uninitialised. -/
def Map.assign (T : Traits K V) (a : Alloc) (m rhs : Map K V) : Option (Map K V) :=
  let m := m.clear T
  if rhs.size = 0 then some m
  else
    let m := if m.initialized then m else { m with loadFactor := rhs.loadFactor }
    let crowded := !m.initialized || m.isTooCrowded rhs.size
    if crowded && !a.room rhs.nbucket then
      some { m with initialized := false, nbucket := rhs.nbucket }
    else
      let m :=
        if crowded then
          { m with
            initialized := true
            nbucket := rhs.nbucket
            thumbnail :=
              if T.sparse then bitArrayClear (a.fresh rhs.nbucket) rhs.nbucket else m.thumbnail }
        else m
      if m.nbucket = rhs.nbucket then
        -- bucket by bucket
        some { m with
          size := rhs.size
          buckets := rhs.buckets
          thumbnail := if T.sparse then copyThumbnail m.thumbnail rhs rhs.nbucket else m.thumbnail }
      else
        -- element by element
        (rhs.walk T).bind fun es => es.foldlM (fun m e => m.insert T a e.1 e.2) m

end Brpc.FlatMap
