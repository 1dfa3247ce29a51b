/-
# Cutting bytes off a buffer that grows

`IOBufCutter` of `butil/iobuf.cpp` and `butil/iobuf_inl.h` over an `IOPortal`, a queue of references
to parts of blocks.  The cutter keeps `_data` and `_data_end` of the front one; bytes appended
behind it in its own block make that longer, and the cutter drops them with the reference.  As long
as that does not happen (`Fresh`), every function does to the bytes there are (`content`) what its
name says.
-/

import Brpc.Messenger.Frame

namespace Brpc.Recordio

open Messenger (Bytes)

/-- `IOBuf::BlockRef` with the bytes it stands for. -/
structure Ref where
  block : ℕ
  offset : ℕ
  bytes : Bytes

structure Block where
  id : ℕ
  size : ℕ
  cap : ℕ

/-- An `IOPortal` (`refs`, and the blocks from `_block` on) and the `IOBufCutter` on it: `_data`
and `_data_end` as positions, none if `_block` is NULL. -/
structure Cutter where
  refs : List Ref
  blocks : List Block
  cache : Option (ℕ × ℕ)

namespace Cutter

def init : Cutter := ⟨[], [], none⟩

/-! ## `IOPortal::append_from_reader` -/

def pushBackRef (refs : List Ref) (r : Ref) : List Ref :=
  match refs.getLast? with
  | none => [r]
  | some back =>
    if back.block = r.block ∧ back.offset + back.bytes.length = r.offset then
      refs.dropLast ++ [{ back with bytes := back.bytes ++ r.bytes }]
    else refs ++ [r]

/-- The loop over the blocks that have been read into. -/
def fill : List Block → List Ref → Bytes → List Block × List Ref
  | [], refs, _ => ([], refs)
  | b :: bs, refs, data =>
    let len := min data.length (b.cap - b.size)
    let refs := pushBackRef refs ⟨b.id, b.size, data.take len⟩
    if b.size + len < b.cap then ({ b with size := b.size + len } :: bs, refs)
    else if data.length = len then (bs, refs)
    else fill bs refs (data.drop len)

variable (c : Cutter) (n : ℕ)

/-- `append_from_reader` when the reader has read `data`, with the blocks acquired for
it. -/
def appendFromReader (acquired : List Block) (data : Bytes) : Cutter :=
  let out := fill (c.blocks ++ acquired) c.refs data
  { c with blocks := out.1, refs := out.2 }

/-! ## `IOBufCutter` -/

/-- The bytes from `_data` to `_data_end`. -/
def view : Bytes :=
  match c.cache, c.refs with
  | some (d, e), r :: _ => (r.bytes.take e).drop d
  | _, _ => []

/-- The references the cutter has not loaded. -/
def rest : List Ref := if c.cache.isSome then c.refs.tail else c.refs

/-- `_data += n` -/
def advance : Cutter :=
  { c with cache := c.cache.map fun x => (x.1 + n, x.2) }

def loadNextRef : Bool × Cutter :=
  match c.rest with
  | [] => (false, { c with refs := [], cache := none })
  | r :: rs => (true, { c with refs := r :: rs, cache := some (0, r.bytes.length) })

def remainingBytes : ℕ := c.view.length + (c.rest.flatMap Ref.bytes).length

/-- The bytes of the references behind the front one, at most `n`. -/
def copyRefs : ℕ → List Ref → Bytes
  | _, [] => []
  | n, r :: rs =>
    if n ≤ r.bytes.length then r.bytes.take n else r.bytes ++ copyRefs (n - r.bytes.length) rs

def slowerCopyTo : Bytes × Cutter :=
  if c.view = [] then
    match c.loadNextRef with
    | (false, c') => ([], c')
    | (true, c') =>
      if n ≤ c'.view.length then (c'.view.take n, c')
      else (c'.view ++ copyRefs (n - c'.view.length) c'.refs.tail, c')
  else (c.view ++ copyRefs (n - c.view.length) c.refs.tail, c)

def copyTo : Bytes × Cutter :=
  if n ≤ c.view.length then (c.view.take n, c) else c.slowerCopyTo n

/-- The loop of `pop_front`, with a number of turns. -/
def popFrontLoop : ℕ → ℕ → Cutter → Cutter
  | 0, _, c => c
  | k + 1, n, c =>
    if n ≤ c.view.length then c.advance n
    else
      match c.loadNextRef with
      | (false, c') => c'
      | (true, c') => popFrontLoop k (n - c.view.length) c'

def popFront : Cutter := popFrontLoop (c.refs.length + 1) n c

/-- What `IOBuf::cutn` leaves. -/
def dropRefs : ℕ → List Ref → List Ref
  | _, [] => []
  | n, r :: rs =>
    if n < r.bytes.length then { r with offset := r.offset + n, bytes := r.bytes.drop n } :: rs
    else dropRefs (n - r.bytes.length) rs

/-- `cutn` into an IOBuf or into memory: beyond the front reference, `IOBuf::cutn` goes on
without it. -/
def cutn : Bytes × Cutter :=
  if n = 0 then ([], c)
  else if n ≤ c.view.length then (c.view.take n, c.advance n)
  else
    (c.view ++ (c.rest.flatMap Ref.bytes).take (n - c.view.length),
      { c with refs := dropRefs (n - c.view.length) c.rest, cache := none })

/-- `cutn` into a string. -/
def cutnString : Bytes × Cutter := c.cutn (min n c.remainingBytes)

def cut1 : Option UInt8 × Cutter :=
  if c.view = [] then
    match c.loadNextRef with
    | (false, c') => (none, c')
    | (true, c') => (c'.view.head?, c'.advance 1)
  else (c.view.head?, c.advance 1)

/-! ## The bytes there are -/

/-- The bytes the cutter will cut. -/
def content : Bytes := c.view ++ c.rest.flatMap Ref.bytes

/-- `_data_end` is the end of the front reference, and no reference is empty. -/
structure Fresh (c : Cutter) : Prop where
  nonempty : ∀ r ∈ c.refs, r.bytes ≠ []
  cached : ∀ x ∈ c.cache, ∃ r rs, c.refs = r :: rs ∧ x.2 = r.bytes.length ∧ x.1 ≤ x.2

/-- The read goes on in the block of the front reference, and the cutter has loaded it. -/
def ExtendsFront (acquired : List Block) : Prop :=
  c.cache.isSome = true ∧ ∃ r b bs, c.refs = [r] ∧ c.blocks ++ acquired = b :: bs ∧
    r.block = b.id ∧ r.offset + r.bytes.length = b.size

/-- What a reader can read into the blocks: something, and not more than they have space
for. -/
structure Readable (blocks : List Block) (data : Bytes) : Prop where
  nonempty : data ≠ []
  notFull : ∀ b ∈ blocks, b.size < b.cap
  space : data.length ≤ (blocks.map fun b => b.cap - b.size).sum

end Cutter

/-! ## The cutter on the bytes that are there -/

open List Ref

namespace Cutter

variable {c : Cutter}

theorem fresh_init : init.Fresh := ⟨forall_mem_nil _, by rintro x ⟨⟩⟩

theorem remainingBytes_eq (c : Cutter) : c.remainingBytes = c.content.length := by
  rw [remainingBytes, content, length_append]

section

variable (h : c.Fresh)
include h

theorem Fresh.cases : (∃ r rs d, c = ⟨r :: rs, c.blocks, some (d, r.bytes.length)⟩ ∧ d ≤ r.bytes.length) ∨
      c = ⟨c.refs, c.blocks, none⟩ := by
  obtain ⟨refs, blocks, cache⟩ := c
  cases cache with
  | none => exact .inr rfl
  | some x =>
    obtain ⟨r, rs, hrefs, hend, hle⟩ := h.cached x rfl
    refine .inl ⟨r, rs, x.1, ?_, by omega⟩
    rw [← hend]
    exact congrArg (fun refs => (⟨refs, blocks, some x⟩ : Cutter)) hrefs

theorem Fresh.rest_nonempty : ∀ r ∈ c.rest, r.bytes ≠ [] := by
  intro r hr
  rw [rest] at hr
  split_ifs at hr
  · exact h.nonempty r (mem_of_mem_tail hr)
  · exact h.nonempty r hr

theorem view_advance (n : ℕ) : (c.advance n).view = c.view.drop n := by
  rcases h.cases with ⟨r, rs, d, hc, -⟩ | hc
  · rw [hc]
    show (r.bytes.take _).drop (d + n) = ((r.bytes.take _).drop d).drop n
    rw [drop_drop]
  · rw [hc]
    exact (drop_nil).symm

theorem Fresh.advance {n : ℕ} (hn : n ≤ c.view.length) : (c.advance n).Fresh := by
  rcases h.cases with ⟨r, rs, d, hc, hd⟩ | hc
  · rw [hc] at hn h ⊢
    change n ≤ ((r.bytes.take r.bytes.length).drop d).length at hn
    rw [take_length, length_drop] at hn
    refine ⟨h.nonempty, ?_⟩
    rintro x ⟨⟩
    exact ⟨r, rs, rfl, rfl, by change d + n ≤ r.bytes.length; omega⟩
  · rw [hc] at h ⊢
    exact ⟨h.nonempty, by rintro x ⟨⟩⟩

theorem content_advance {n : ℕ} (hn : n ≤ c.view.length) : (c.advance n).content = c.content.drop n := by
  have hrest : (c.advance n).rest = c.rest := by
    rw [rest, rest, Cutter.advance, Option.isSome_map]
  rw [content, content, view_advance h, hrest, drop_append_of_le_length hn]

theorem loadNextRef_spec : (∃ c', c.loadNextRef = (false, c') ∧ c'.Fresh ∧ c.rest = [] ∧ c'.content = []) ∨
      ∃ c' r, c.loadNextRef = (true, c') ∧ c'.Fresh ∧ c.rest = r :: c'.rest ∧ c'.view = r.bytes := by
  have hne := h.rest_nonempty
  rw [loadNextRef]
  cases hrest : c.rest with
  | nil => exact .inl ⟨_, rfl, ⟨forall_mem_nil _, by rintro x ⟨⟩⟩, rfl, rfl⟩
  | cons r rs =>
    rw [hrest] at hne
    refine .inr ⟨_, r, rfl, ⟨hne, ?_⟩, rfl, ?_⟩
    · rintro x ⟨⟩
      exact ⟨r, rs, rfl, rfl, Nat.zero_le _⟩
    · show (r.bytes.take r.bytes.length).drop 0 = r.bytes
      rw [take_length, drop_zero]

/-- With nothing left of the front reference, the same bytes are there, and some of them are in
view if there are any. -/
theorem loadNextRef_of_empty (hempty : c.view = []) :
    (∃ c', c.loadNextRef = (false, c') ∧ c'.Fresh ∧ c'.content = c.content ∧ c.content = []) ∨
      ∃ c', c.loadNextRef = (true, c') ∧ c'.Fresh ∧ c'.content = c.content ∧ c'.view ≠ [] := by
  have hcontent : c.content = c.rest.flatMap bytes := by rw [content, hempty, nil_append]
  rw [hcontent]
  rcases loadNextRef_spec h with ⟨c', hload, hfresh, hrest, hnil⟩ | ⟨c', r, hload, hfresh, hrest, hview⟩
  · rw [hrest]
    exact .inl ⟨c', hload, hfresh, hnil, rfl⟩
  · refine .inr ⟨c', hload, hfresh, ?_, ?_⟩
    · rw [hrest, content, hview, flatMap_cons]
    · rw [hview]
      exact h.rest_nonempty r (by rw [hrest]; exact mem_cons_self)

end

/-! ## What the functions do to them -/

theorem copyRefs_eq (n : ℕ) (rs : List Ref) : copyRefs n rs = (rs.flatMap bytes).take n := by
  induction rs generalizing n with
  | nil => rw [flatMap_nil, take_nil, copyRefs]
  | cons r rs ih =>
    rw [copyRefs, flatMap_cons, take_append, ih]
    split_ifs with hle
    · rw [Nat.sub_eq_zero_of_le hle, take_zero, append_nil]
    · have htake : r.bytes.take n = r.bytes := take_of_length_le (by omega)
      rw [htake]

section

variable (h : c.Fresh)
include h

theorem tail_eq_rest (hview : c.view ≠ []) : c.refs.tail = c.rest := by
  rcases h.cases with ⟨r, rs, d, hc, -⟩ | hc
  · rw [hc]
    rfl
  · rw [hc] at hview
    exact absurd rfl hview

theorem copy_view {n : ℕ} (hn : c.view.length < n) (hview : c.view ≠ []) :
    c.view ++ copyRefs (n - c.view.length) c.refs.tail = c.content.take n := by
  rw [copyRefs_eq, tail_eq_rest h hview, content, take_append, take_of_length_le (Nat.le_of_lt hn)]

theorem copyTo_spec (n : ℕ) : (c.copyTo n).1 = c.content.take n ∧ (c.copyTo n).2.content = c.content ∧
      (c.copyTo n).2.Fresh := by
  have hview (c : Cutter) (hle : n ≤ c.view.length) : c.view.take n = c.content.take n := by
    rw [content, take_append_of_le_length hle]
  rw [copyTo]
  split_ifs with hle
  · exact ⟨hview c hle, rfl, h⟩
  rw [slowerCopyTo]
  split_ifs with hempty
  · rcases loadNextRef_of_empty h hempty with
      ⟨c', hload, hfresh, hsame, hnil⟩ | ⟨c', hload, hfresh, hsame, hne⟩
    · rw [hload, hnil, take_nil]
      exact ⟨rfl, hsame.trans hnil, hfresh⟩
    · rw [hload, ← hsame]
      dsimp only
      split_ifs with hle'
      · exact ⟨hview c' hle', rfl, hfresh⟩
      · exact ⟨copy_view hfresh (not_le.1 hle') hne, rfl, hfresh⟩
  · exact ⟨copy_view h (not_le.1 hle) hempty, rfl, h⟩

theorem popFrontLoop_spec {k : ℕ} (hk : c.rest.length < k) (n : ℕ) :
    (popFrontLoop k n c).content = c.content.drop n ∧ (popFrontLoop k n c).Fresh := by
  induction k generalizing c n with
  | zero => exact absurd hk (Nat.not_lt_zero _)
  | succ k ih =>
    rw [popFrontLoop]
    split_ifs with hle
    · exact ⟨content_advance h hle, h.advance hle⟩
    have hdrop : c.content.drop n = (c.rest.flatMap bytes).drop (n - c.view.length) := by
      rw [content, drop_append, drop_eq_nil_of_le (by omega), nil_append]
    rcases loadNextRef_spec h with ⟨c', hload, hfresh, hrest, hnil⟩ | ⟨c', r, hload, hfresh, hrest, hview⟩
    · rw [hload, hdrop, hrest, flatMap_nil, drop_nil]
      exact ⟨hnil, hfresh⟩
    · have hsame : c.rest.flatMap bytes = c'.content := by
        rw [content, hrest, hview, flatMap_cons]
      rw [hload, hdrop, hsame]
      exact ih hfresh (by rw [hrest, length_cons] at hk; omega) _

theorem popFront_spec (n : ℕ) : (c.popFront n).content = c.content.drop n ∧ (c.popFront n).Fresh := by
  refine popFrontLoop_spec h ?_ n
  rw [rest]
  split_ifs
  · rw [length_tail]
    omega
  · omega

omit h in
theorem dropRefs_spec {rs : List Ref} (h : ∀ r ∈ rs, r.bytes ≠ []) (n : ℕ) :
    (dropRefs n rs).flatMap bytes = (rs.flatMap bytes).drop n ∧ ∀ r ∈ dropRefs n rs, r.bytes ≠ [] := by
  induction rs generalizing n with
  | nil => exact ⟨by rw [dropRefs, flatMap_nil, drop_nil], forall_mem_nil _⟩
  | cons r rs ih =>
    have hrs : ∀ r' ∈ rs, r'.bytes ≠ [] := fun r' hr' => h r' (mem_cons_of_mem r hr')
    rw [dropRefs, flatMap_cons, drop_append]
    split_ifs with hlt
    · refine ⟨?_, ?_⟩
      · rw [flatMap_cons, Nat.sub_eq_zero_of_le (Nat.le_of_lt hlt), drop_zero]
      · exact forall_mem_cons.2 ⟨ne_nil_of_length_pos (by rw [length_drop]; omega), hrs⟩
    · rw [drop_eq_nil_of_le (by omega), nil_append]
      exact ih hrs _

theorem cutn_spec (n : ℕ) : (c.cutn n).1 = c.content.take n ∧ (c.cutn n).2.content = c.content.drop n ∧
      (c.cutn n).2.Fresh := by
  rw [cutn]
  split_ifs with hzero hle
  · rw [hzero]
    exact ⟨rfl, rfl, h⟩
  · refine ⟨?_, content_advance h hle, h.advance hle⟩
    rw [content, take_append_of_le_length hle]
  · obtain ⟨hbytes, hne⟩ := dropRefs_spec h.rest_nonempty (n - c.view.length)
    have htake : c.view.take n = c.view := take_of_length_le (by omega)
    refine ⟨?_, ?_, hne, by rintro x ⟨⟩⟩
    · rw [content, take_append, htake]
    · rw [content, content, drop_append, drop_eq_nil_of_le (by omega)]
      exact hbytes

theorem cutnString_spec (n : ℕ) :
    (c.cutnString n).1 = c.content.take n ∧ (c.cutnString n).2.content = c.content.drop n ∧
      (c.cutnString n).2.Fresh := by
  have hcut := cutn_spec h (min n c.remainingBytes)
  rwa [remainingBytes_eq, ← take_eq_take_min, ← drop_eq_drop_min, ← remainingBytes_eq] at hcut

theorem cut1_spec : c.cut1.1 = c.content.head? ∧ c.cut1.2.content = c.content.drop 1 ∧ c.cut1.2.Fresh := by
  have hhead : ∀ {c : Cutter}, c.Fresh → c.view ≠ [] →
      c.view.head? = c.content.head? ∧ (c.advance 1).content = c.content.drop 1 ∧ (c.advance 1).Fresh := by
    intro c h hne
    have hpos := length_pos_of_ne_nil hne
    exact ⟨by rw [content, head?_append_of_ne_nil _ hne], content_advance h hpos, h.advance hpos⟩
  rw [cut1]
  split_ifs with hempty
  · rcases loadNextRef_of_empty h hempty with
      ⟨c', hload, hfresh, hsame, hnil⟩ | ⟨c', hload, hfresh, hsame, hne⟩
    · rw [hload, hnil]
      exact ⟨rfl, hsame.trans hnil, hfresh⟩
    · rw [hload, ← hsame]
      exact hhead hfresh hne
  · exact hhead h hempty

end

/-! ## Reading more -/

theorem pushBackRef_spec {refs : List Ref} {x : Ref} (h : ∀ r ∈ refs, r.bytes ≠ []) (hx : x.bytes ≠ []) :
    (pushBackRef refs x).flatMap bytes = refs.flatMap bytes ++ x.bytes ∧
      ∀ r ∈ pushBackRef refs x, r.bytes ≠ [] := by
  rcases eq_nil_or_concat' refs with rfl | ⟨front, back, rfl⟩
  · exact ⟨append_nil _, by simpa [pushBackRef] using hx⟩
  · have hfront : ∀ r ∈ front, r.bytes ≠ [] := fun r hr => h r (mem_append_left _ hr)
    rw [pushBackRef, getLast?_concat]
    dsimp only
    split_ifs
    · rw [dropLast_concat, flatMap_append, flatMap_append, append_assoc]
      refine ⟨by simp, fun r hr => ?_⟩
      exact forall_mem_append.2 ⟨hfront, forall_mem_singleton.2 (fun hnil => hx (append_eq_nil_iff.1 hnil).2)⟩ r hr
    · refine ⟨by simp, fun r hr => ?_⟩
      exact forall_mem_append.2 ⟨h, forall_mem_singleton.2 hx⟩ r hr

theorem fill_spec {blocks : List Block} {refs : List Ref} {data : Bytes}
    (hread : Readable blocks data) (h : ∀ r ∈ refs, r.bytes ≠ []) :
    (fill blocks refs data).2.flatMap bytes = refs.flatMap bytes ++ data ∧
      ∀ r ∈ (fill blocks refs data).2, r.bytes ≠ [] := by
  induction blocks generalizing refs data with
  | nil => exact absurd (eq_nil_of_length_eq_zero (Nat.le_zero.1 hread.space)) hread.nonempty
  | cons b bs ih =>
    have hlen := length_pos_of_ne_nil hread.nonempty
    have hroom := hread.notFull b mem_cons_self
    have hspace := hread.space
    rw [map_cons, sum_cons] at hspace
    have htaken : data.take (min data.length (b.cap - b.size)) ≠ [] :=
      ne_nil_of_length_pos (by rw [length_take]; omega)
    have hpush := @pushBackRef_spec refs ⟨b.id, b.size, data.take (min data.length (b.cap - b.size))⟩ h htaken
    have hall : min data.length (b.cap - b.size) = data.length → data.take (min data.length (b.cap - b.size)) = data :=
      fun heq => take_of_length_le (Nat.le_of_eq heq.symm)
    rw [fill]
    split_ifs with hspare hdone
    · rw [hall (by omega)] at hpush
      rw [hall (by omega)]
      exact hpush
    · rw [hall hdone.symm] at hpush
      rw [hall hdone.symm]
      exact hpush
    · obtain ⟨hrest, hne⟩ := @ih (pushBackRef refs _)
        (data.drop (min data.length (b.cap - b.size)))
        ⟨ne_nil_of_length_pos (by rw [length_drop]; omega),
          fun b' hb' => hread.notFull b' (mem_cons_of_mem b hb'),
          by rw [length_drop]; omega⟩ hpush.2
      refine ⟨?_, hne⟩
      rw [hrest, hpush.1, append_assoc, take_append_drop]

theorem fill_cons {blocks : List Block} {r : Ref} {rs : List Ref} {data : Bytes}
    (h : rs ≠ [] ∨ ∀ b ∈ blocks.head?, ¬ (r.block = b.id ∧ r.offset + r.bytes.length = b.size)) :
    (fill blocks (r :: rs) data).2 = r :: (fill blocks rs data).2 := by
  induction blocks generalizing rs data with
  | nil => rfl
  | cons b bs ih =>
    have hpush : ∀ x : Ref, x.block = b.id → x.offset = b.size →
        pushBackRef (r :: rs) x = r :: pushBackRef rs x ∧ pushBackRef rs x ≠ [] := by
      intro x hid hoff
      rcases eq_nil_or_concat' rs with rfl | ⟨front, back, rfl⟩
      · rcases h with h | h
        · exact absurd rfl h
        · have hno := h b rfl
          rw [← hid, ← hoff] at hno
          exact ⟨if_neg hno, cons_ne_nil _ _⟩
      · rw [← cons_append, pushBackRef, pushBackRef, getLast?_concat, getLast?_concat]
        dsimp only
        split_ifs
        · rw [dropLast_concat, dropLast_concat]
          exact ⟨rfl, by simp⟩
        · exact ⟨rfl, by simp⟩
    rw [fill, fill]
    obtain ⟨heq, hne⟩ := hpush ⟨b.id, b.size, data.take (min data.length (b.cap - b.size))⟩ rfl rfl
    rw [heq]
    split_ifs
    · rfl
    · rfl
    · exact ih (.inl hne)

/-- **A read appends its bytes** unless it extends the reference the cutter has loaded. -/
theorem appendFromReader_spec {acquired : List Block} {data : Bytes} (h : c.Fresh)
    (hread : Readable (c.blocks ++ acquired) data) (hno : ¬ c.ExtendsFront acquired) :
    (c.appendFromReader acquired data).content = c.content ++ data ∧ (c.appendFromReader acquired data).Fresh := by
  obtain ⟨hbytes, hne⟩ := fill_spec hread h.rest_nonempty
  rcases h.cases with ⟨r, rs, d, hc, hd⟩ | hc
  · rw [hc] at hbytes hne hno ⊢
    have hcons := @fill_cons (c.blocks ++ acquired) r rs data (by
      rcases eq_or_ne rs [] with rfl | hrs
      · refine .inr fun b hb hmerge => hno ⟨rfl, r, b, (c.blocks ++ acquired).tail, rfl, ?_, hmerge⟩
        exact (cons_head?_tail hb).symm
      · exact .inl hrs)
    rw [appendFromReader]
    rw [hcons]
    refine ⟨?_, ?_, ?_⟩
    · show (r.bytes.take _).drop d ++ _ = (r.bytes.take _).drop d ++ _ ++ data
      rw [append_assoc]
      exact congrArg _ hbytes
    · intro r' hr'
      rcases mem_cons.1 hr' with rfl | hr'
      · rw [hc] at h
        exact h.nonempty _ mem_cons_self
      · exact hne r' hr'
    · rintro x ⟨⟩
      exact ⟨r, _, rfl, rfl, hd⟩
  · rw [hc] at hbytes hne ⊢
    exact ⟨hbytes, hne, by rintro x ⟨⟩⟩

end Cutter
end Brpc.Recordio
