/-
# The round trip through `Encode` and `Decode`

The decoder has the headers of the encoder with names in lower case (`lowered`), and evicts the same
ones (`add_lowered`).  `Mirrors e d q`: both have the headers `q`.  What `Encode` of one coder
writes, call by call, `Decode` of the other reads from the concatenated output (`hpack_round_trip`).
-/

import Brpc.Hpack.Packer

namespace Brpc.Hpack

open List Option IndexTable

/-! ### Headers in lower case -/

/-- A header as the decoder has it. -/
def lowered (h : Header) : Header := ⟨tolower h.name, h.value⟩

theorem headerSize_lowered (h : Header) : headerSize (lowered h) = headerSize h := by
  rw [headerSize, headerSize, lowered, length_tolower]

theorem sizes_lowered (q : List Header) : sizes (q.map lowered) = sizes q := by
  induction q with
  | nil => rfl
  | cons h q ih => rw [map_cons, sizes, sizes, headerSize_lowered, ih]

theorem dropOld_lowered (maxSize entrySize : ℕ) (q : List Header) :
    dropOld maxSize entrySize (q.map lowered) = (dropOld maxSize entrySize q).map lowered := by
  induction q with
  | nil => rfl
  | cons h q ih =>
    have hsize := sizes_lowered (h :: q)
    rw [map_cons] at hsize ⊢
    rw [dropOld, dropOld, hsize, ih]
    split_ifs <;> rfl

/-- **The same headers are evicted.** -/
theorem add_lowered (maxSize : ℕ) (q : List Header) (h : Header) :
    add maxSize (q.map lowered) (lowered h) = (add maxSize q h).map lowered := by
  unfold add
  rw [headerSize_lowered, dropOld_lowered]
  split_ifs
  · rfl
  · rw [map_append]
    rfl

/-! ### Room in the queue -/

variable {maxSize : ℕ}

theorem sizes_dropOld {entrySize : ℕ} (h : entrySize ≤ maxSize) (q : List Header) :
    sizes (dropOld maxSize entrySize q) + entrySize ≤ maxSize := by
  induction q with
  | nil =>
    rw [dropOld, sizes]
    omega
  | cons x q ih =>
    rw [dropOld]
    split_ifs with hc
    · exact ih
    · omega

theorem dropOld_of_fits {entrySize : ℕ} (h : sizes q + entrySize ≤ maxSize) : dropOld maxSize entrySize q = q := by
  cases q with
  | nil => rfl
  | cons => rw [dropOld, if_neg (by omega)]

/-- The name and the value are not empty. -/
def Header.Full (h : Header) : Prop := h.name ≠ [] ∧ h.value ≠ []

variable {h : Header}

theorem Header.Full.size (hf : h.Full) : 34 ≤ headerSize h := by
  have hn := length_pos_iff.2 hf.1
  have hv := length_pos_iff.2 hf.2
  unfold headerSize
  omega

theorem length_dropOld_lt (hq : ∀ x ∈ q, x.Full) (hh : h.Full) (hle : headerSize h ≤ maxSize) :
    (dropOld maxSize (headerSize h) q).length < maxSize / 34 := by
  have hfits := sizes_dropOld hle q
  have hlen := length_le_sizes fun x hx =>
    (hq x ((dropOld_suffix maxSize (headerSize h) q).subset hx)).size
  have hsize := hh.size
  omega

/-! ### The static table -/

variable {t : IndexTable}

theorem foldlM_addHeader (l : List Header) (hinv : Inv t q)
    (hnames : ∀ h ∈ l, NoNul h.name) (hsize : sizes q + sizes l ≤ t.maxSize)
    (hplace : q.length + l.length ≤ t.queue.cap) (hfew : t.addTimes + l.length ≤ 2147483648)
    (hindexes : t.startIndex + q.length + l.length ≤ 2147483648) :
    ∃ t', l.foldlM addHeader t = some t' ∧ Inv t' (q ++ l) ∧ Same t t' := by
  induction l generalizing t q with
  | nil => exact ⟨t, rfl, by rwa [append_nil], .refl t⟩
  | cons h l ih =>
    rw [sizes, length_cons] at *
    have hdrop : dropOld t.maxSize (headerSize h) q = q := dropOld_of_fits (by omega)
    obtain ⟨t₁, h₁, hinv₁, hsame₁, htimes₁⟩ := addHeader_spec hinv
      (fun _ => hnames h mem_cons_self) (by omega) (fun _ => by rw [hdrop]; omega)
    have hroom : ¬ t.maxSize < headerSize h := by omega
    rw [add, if_neg hroom, hdrop] at hinv₁
    rw [if_neg hroom] at htimes₁
    obtain ⟨t', h', hinv', hsame'⟩ := ih hinv₁ (fun x hx => hnames x (mem_cons_of_mem _ hx))
      (by rw [sizes_append, hsame₁.maxSize, sizes, sizes]; omega)
      (by rw [length_append, length_singleton, hsame₁.cap]; omega) (by omega)
      (by rw [length_append, length_singleton, hsame₁.startIndex]; omega)
    refine ⟨t', ?_, by rwa [append_assoc] at hinv', hsame₁.trans hsame'⟩
    rw [foldlM_cons, h₁]
    exact h'

/-- **The static table.** -/
theorem initStatic_spec (ht : initStatic staticHeaders = some t) :
    Inv t staticHeaders.reverse ∧ t.startIndex = 1 ∧ t.needIndexes = true := by
  obtain ⟨t₀, h₀, ht⟩ := bind_eq_some_iff.1 ht
  obtain ⟨hinv, hstart, hneed, htimes, hmax, hcap⟩ := create_inv (by decide) (by decide) h₀
  obtain ⟨t', h', hinv', hsame⟩ := foldlM_addHeader staticHeaders.reverse hinv
    (fun h hh => (staticHeaders_names h (mem_reverse.1 hh)).2)
    (by rw [hmax]; decide) (by rw [hcap]; decide) (by rw [htimes]; decide) (by rw [hstart]; decide)
  obtain rfl := Option.some.inj (ht.symm.trans h')
  exact ⟨hinv', hsame.startIndex.trans hstart, hsame.needIndexes.trans hneed⟩

/-! ### Encoder and decoder -/

/-- The decoder `d` has what the encoder `e` has. -/
structure Mirrors (e d : HPacker) (q : List Header) : Prop where
  static : Inv e.staticTable staticHeaders.reverse
  staticStart : e.staticTable.startIndex = 1
  staticNeed : e.staticTable.needIndexes = true
  sameStatic : d.staticTable = e.staticTable
  encoder : Inv e.encodeTable q
  encoderNeed : e.encodeTable.needIndexes = true
  encoderStart : e.encodeTable.startIndex = 62
  encoderCap : e.encodeTable.queue.cap = e.encodeTable.maxSize / 34
  decoder : Inv d.decodeTable (q.map lowered)
  decoderNeed : d.decodeTable.needIndexes = false
  decoderStart : d.decodeTable.startIndex = 62
  decoderCap : d.decodeTable.queue.cap = d.decodeTable.maxSize / 34
  sameMax : d.decodeTable.maxSize = e.encodeTable.maxSize
  sameTimes : d.decodeTable.addTimes = e.encodeTable.addTimes
  full : ∀ x ∈ q, x.Full

variable {e d : HPacker} {q : List Header}

/-- **`Init`** of both sides with one size. -/
theorem init_mirrors {maxTableSize : ℕ} (hmax : maxTableSize / 34 < 4294967296)
    (hp : HPacker.init maxTableSize = some e) : Mirrors e e [] := by
  obtain ⟨st, hst, hp⟩ := bind_eq_some_iff.1 hp
  obtain ⟨et, het, hp⟩ := bind_eq_some_iff.1 hp
  obtain ⟨dt, hdt, rfl⟩ := map_eq_some_iff.1 hp
  obtain ⟨hinv, hstart, hneed⟩ := initStatic_spec hst
  have hcount : st.queue.count = 61 := hinv.base.holds.count
  have hend : st.endIndex = 62 := by rw [endIndex, hstart, hcount]
  rw [hend] at het hdt
  obtain ⟨heinv, hes, hen, het0, hem, hec⟩ := create_inv (by decide) (by omega) het
  obtain ⟨hdinv, hds, hdn, hdt0, hdm, hdc⟩ := create_inv (by decide) (by omega) hdt
  rw [Nat.mod_eq_of_lt hmax] at hec hdc
  exact
    { static := hinv, staticStart := hstart, staticNeed := hneed, sameStatic := rfl
      encoder := heinv, encoderNeed := hen, encoderStart := hes, encoderCap := by rw [hec, hem]
      decoder := hdinv, decoderNeed := hdn, decoderStart := hds, decoderCap := by rw [hdc, hdm]
      sameMax := hdm.trans hem.symm, sameTimes := hdt0.trans het0.symm
      full := fun x hx => absurd hx not_mem_nil }

variable {i : ℤ} {x : Header}

section

variable (hm : Mirrors e d q)
include hm

/-- **The decoder's entries are the encoder's.** -/
theorem Mirrors.headerAt_eq (i : ℤ) : d.decodeTable.headerAt i = (e.encodeTable.headerAt i).map lowered := by
  by_cases hlt : i < ((62 : ℕ) : ℤ)
  · rw [headerAt, headerAt, hm.encoderStart, hm.decoderStart, if_pos hlt, if_pos hlt]
    rfl
  · obtain ⟨k, rfl⟩ : ∃ k : ℕ, i = ((62 : ℕ) : ℤ) + k := ⟨(i - 62).toNat, by omega⟩
    have he := Hpack.headerAt_eq hm.encoder.base k
    have hd := Hpack.headerAt_eq hm.decoder.base k
    rw [hm.encoderStart] at he
    rw [hm.decoderStart] at hd
    rw [he, hd, length_map]
    split_ifs
    · rw [getElem?_map]
    · rfl

theorem Mirrors.static_headerAt (hx : e.staticTable.headerAt i = some x) :
    0 < i ∧ i < 62 ∧ d.headerAt i.toNat = some x ∧ tolower x.name = x.name := by
  obtain ⟨hi, hmem⟩ := index_of_headerAt hm.static.base hx
  rw [hm.staticStart, show staticHeaders.reverse.length = 61 from rfl] at hi
  refine ⟨by omega, by omega, ?_, (staticHeaders_names x (mem_reverse.1 hmem)).1⟩
  rw [HPacker.headerAt, if_neg (by rw [hm.decoderStart]; omega), hm.sameStatic,
    show ((i.toNat : ℕ) : ℤ) = i by omega, hx]

theorem Mirrors.dynamic_headerAt (hx : e.encodeTable.headerAt i = some x) :
    0 < i ∧ i < e.encodeTable.endIndex ∧ d.headerAt i.toNat = some (lowered x) := by
  have hi := (index_of_headerAt hm.encoder.base hx).1
  rw [hm.encoderStart] at hi
  refine ⟨by omega, ?_, ?_⟩
  · rw [endIndex, hm.encoderStart, hm.encoder.base.holds.count]
    omega
  · rw [HPacker.headerAt, if_pos (by rw [hm.decoderStart]; omega),
      show ((i.toNat : ℕ) : ℤ) = i by omega, hm.headerAt_eq, hx, map_some]

/-- **The index of a header** is one at which the decoder has it. -/
theorem Mirrors.findHeader (hpos : 0 < e.findHeaderFromIndexTable h) :
    e.findHeaderFromIndexTable h < e.encodeTable.endIndex ∧
      d.headerAt (e.findHeaderFromIndexTable h).toNat = some (lowered h) := by
  have hend : 62 ≤ e.encodeTable.endIndex := by
    rw [endIndex, hm.encoderStart]
    omega
  unfold HPacker.findHeaderFromIndexTable at hpos ⊢
  simp only at hpos ⊢
  split_ifs at hpos ⊢ with hs
  · rcases getIndexOfHeader_spec hm.static.base (hm.static.indexed hm.staticNeed) hm.staticStart.ge h with
      ⟨hc, -⟩ | ⟨x, -, hx, -, hname, hvalue⟩
    · omega
    · obtain ⟨-, hlt, hd, hlow⟩ := hm.static_headerAt hx
      refine ⟨by omega, ?_⟩
      rw [hd, lowered, ← hname, hlow, ← hvalue]
  · rcases getIndexOfHeader_spec hm.encoder.base (hm.encoder.indexed hm.encoderNeed)
      (by rw [hm.encoderStart]; omega) h with ⟨hc, -⟩ | ⟨x, -, hx, -, hname, hvalue⟩
    · omega
    · obtain ⟨-, hlt, hd⟩ := hm.dynamic_headerAt hx
      refine ⟨hlt, ?_⟩
      rw [hd, lowered, lowered, hname, hvalue]

/-- **The index of a name** is one at which the decoder has it. -/
theorem Mirrors.findName (n : Str) : e.findNameFromIndexTable n = 0 ∨
      0 < e.findNameFromIndexTable n ∧ e.findNameFromIndexTable n < e.encodeTable.endIndex ∧
      ∃ x, d.headerAt (e.findNameFromIndexTable n).toNat = some x ∧ x.name = tolower n := by
  have hend : 62 ≤ e.encodeTable.endIndex := by
    rw [endIndex, hm.encoderStart]
    omega
  unfold HPacker.findNameFromIndexTable
  simp only
  split_ifs with hs
  · rcases getIndexOfName_spec hm.static.base (hm.static.indexed hm.staticNeed) hm.staticStart.ge n with
      ⟨hc, -⟩ | ⟨x, -, hx, -, hname⟩
    · omega
    · obtain ⟨-, hlt, hd, hlow⟩ := hm.static_headerAt hx
      exact .inr ⟨hs, by omega, x, hd, hlow.symm.trans hname⟩
  · rcases getIndexOfName_spec hm.encoder.base (hm.encoder.indexed hm.encoderNeed)
      (by rw [hm.encoderStart]; omega) n with ⟨h0, -⟩ | ⟨x, hpos, hx, -, hname⟩
    · exact .inl h0
    · obtain ⟨-, hlt, hd⟩ := hm.dynamic_headerAt hx
      exact .inr ⟨hpos, hlt, _, hd, hname⟩

end

/-! ## The round trip -/

open HPacker

/-! ### What is decoded -/

/-- A call of `Decode` matches one of `Encode`: it takes its bytes, gives its header in lower
case, and leaves the encoder's entries. -/
structure Matching (h : Header) (sent : HPacker × Bytes) (received : HPacker × Read Header) : Prop where
  ret : received.2.ret = sent.2.length
  header : received.2.value = lowered h
  size : received.1.decodeTable.size = sent.1.encodeTable.size
  entries : ∀ i, received.1.decodeTable.headerAt i = (sent.1.encodeTable.headerAt i).map lowered

theorem tolower_tolower (s : Str) : tolower (tolower s) = tolower s := by
  have hc : ∀ c, asciiTolower (asciiTolower c) = asciiTolower c := by
    intro c
    unfold asciiTolower
    split_ifs <;> grind
  unfold tolower
  rw [List.map_map]
  exact map_congr_left fun c _ => hc c

theorem decode_indexed {d : HPacker} {index : ℤ} {x : Header} (hpos : 0 < index)
    (hmax : index < maxHpackInteger) (hx : d.headerAt index.toNat = some x) (rest : Bytes) :
    d.decode (encodeIndex 0x80 7 index ++ rest) =
      some (d, { ret := (encodeIndex 0x80 7 index).length, value := x, rest := rest }) := by
  have hsmall : index.toNat < maxHpackInteger := by omega
  have hnat : (index % 4294967296).toNat = index.toNat := by
    unfold maxHpackInteger at hmax
    omega
  unfold encodeIndex
  rw [hnat]
  obtain ⟨b, bs, hb, hhigh⟩ := firstByte_encodeInteger (show 7 ≤ 8 by omega) (show 0x80 < 256 by omega) index.toNat
  have hint := decodeInteger_encode (show 7 ≤ 8 by omega) (show 0x80 % 2 ^ 7 = 0 by rfl) (by omega) hsmall rest
  have hlen : 0 < (encodeInteger 0x80 7 index.toNat).length := length_pos_iff.2 (encodeInteger_ne_nil _ _ _)
  rw [hb, cons_append, decode, decodeWithin, if_pos (by omega), ← cons_append, ← hb, decodeIndexed, hint]
  simp only
  rw [if_neg (by omega), hx]

theorem decodeValue_encode {name value : Str} {huffman : Bool} (inBytes : ℤ)
    (hlen : (wireString value huffman).length < maxHpackInteger) (rest : Bytes) :
    decodeValue name inBytes (encodeString false value huffman ++ rest) =
      { ret := inBytes + (encodeString false value huffman).length, value := ⟨name, value⟩, rest := rest } := by
  have hpos := length_pos_iff.2 (encodeString_ne_nil false huffman value)
  have hdec := @decodeString_encode false huffman value hlen rest
  unfold decodeValue
  rw [hdec]
  simp only [Bool.false_eq_true, if_false]
  rw [if_neg (by omega)]

/-- The index of a name that the decoder has at that index, or 0. -/
def NameAt (d : HPacker) (nameIndex : ℤ) (name : Str) : Prop :=
  nameIndex = 0 ∨ 0 < nameIndex ∧ nameIndex < maxHpackInteger ∧
    ∃ x, d.headerAt nameIndex.toNat = some x ∧ x.name = tolower name

/-- The strings of a header are short enough to be read again. -/
def Encodable (h : Header) (o : HPackOptions) : Prop :=
  (wireString (tolower h.name) o.encodeName).length < maxHpackInteger ∧
    (wireString h.value o.encodeValue).length < maxHpackInteger

/-- **A literal header.** -/
theorem decodeWithKnownPrefix_encode {d : HPacker} {nameIndex : ℤ} {h : Header} {o : HPackOptions}
    (hname : NameAt d nameIndex h.name) (hlen : Encodable h o) (rest : Bytes) :
    d.decodeWithKnownPrefix (literalPrefix o.indexPolicy) (encodeLiteral nameIndex h o ++ rest) =
      { ret := (encodeLiteral nameIndex h o).length, value := lowered h, rest := rest } := by
  obtain ⟨p, hp⟩ : ∃ p, p = literalPrefix o.indexPolicy := ⟨_, rfl⟩
  obtain ⟨msb, hmsb⟩ : ∃ msb, msb = literalMsb o.indexPolicy := ⟨_, rfl⟩
  have hp8 : p ≤ 8 := by cases ho : o.indexPolicy <;> simp [hp, ho, literalPrefix]
  have hmsb8 : msb < 256 := by cases ho : o.indexPolicy <;> simp [hmsb, ho, literalMsb]
  have hmod : msb % 2 ^ p = 0 := by
    cases ho : o.indexPolicy <;> simp [hp, hmsb, ho, literalPrefix, literalMsb]
  have hsmall : nameIndex.toNat < maxHpackInteger := by
    unfold maxHpackInteger
    rcases hname with h0 | ⟨-, hlt, -⟩
    · omega
    · unfold maxHpackInteger at hlt
      omega
  have hnat : (nameIndex % 4294967296).toNat = nameIndex.toNat := by
    rcases hname with h0 | ⟨hpos, hlt, -⟩
    · omega
    · unfold maxHpackInteger at hlt
      omega
  have hpos := length_pos_iff.2 (encodeInteger_ne_nil msb p nameIndex.toNat)
  unfold encodeLiteral encodeIndex decodeWithKnownPrefix
  rw [← hp, ← hmsb, hnat, append_assoc, append_assoc, decodeInteger_encode hp8 hmod hmsb8 hsmall]
  simp only
  rw [if_neg (by omega)]
  rcases hname with h0 | ⟨hpos', -, x, hx, hxn⟩
  · have hnpos := length_pos_iff.2 (encodeString_ne_nil true o.encodeName h.name)
    rw [if_neg (by simp [h0]), if_pos h0, @decodeString_encode true o.encodeName h.name hlen.1]
    simp only
    rw [if_neg (by omega), decodeValue_encode _ hlen.2, if_pos trivial, tolower_tolower]
    simp only [lowered, length_append, Nat.cast_add]
  · rw [if_pos (by omega), hx, if_neg (by omega), nil_append]
    simp only
    rw [decodeValue_encode _ hlen.2, hxn]
    simp only [lowered, length_append, length_nil, Nat.cast_add, Nat.add_zero]

/-- `Decode` of a literal header: with `HPACK_INDEX_HEADER` it is added to the table. -/
theorem decode_literal {d : HPacker} {nameIndex : ℤ} {h : Header} {o : HPackOptions}
    (hname : NameAt d nameIndex h.name) (hlen : Encodable h o) (rest : Bytes) :
    d.decode (encodeLiteral nameIndex h o ++ rest) = (if o.indexPolicy = .indexHeader then
          (d.decodeTable.addHeader (lowered h)).map fun t => { d with decodeTable := t }
        else some d).map fun d' =>
        (d', { ret := (encodeLiteral nameIndex h o).length, value := lowered h, rest := rest }) := by
  obtain ⟨b, bs, hb, hhigh⟩ : ∃ b bs, encodeLiteral nameIndex h o = b :: bs ∧
      b.toNat / 2 ^ literalPrefix o.indexPolicy = literalMsb o.indexPolicy / 2 ^ literalPrefix o.indexPolicy := by
    obtain ⟨b, bs, hb, hhigh⟩ := @firstByte_encodeInteger (literalMsb o.indexPolicy)
      (literalPrefix o.indexPolicy) (by cases o.indexPolicy <;> decide)
      (by cases o.indexPolicy <;> decide) (nameIndex % 4294967296).toNat
    exact ⟨b, _, by rw [encodeLiteral, encodeIndex, hb, append_assoc, cons_append], hhigh⟩
  have hdec := decodeWithKnownPrefix_encode hname hlen rest
  have hpos : 0 < (encodeLiteral nameIndex h o).length := by
    rw [hb]
    exact Nat.succ_pos _
  obtain ⟨n, hn⟩ : ∃ n : ℕ, n = (encodeLiteral nameIndex h o).length := ⟨_, rfl⟩
  rw [← hn] at hdec hpos ⊢
  rw [hb, cons_append] at hdec ⊢
  rw [decode, decodeWithin]
  simp only
  cases ho : o.indexPolicy <;> rw [ho] at hdec hhigh <;>
    simp only [literalPrefix, literalMsb] at hdec hhigh
  case indexHeader =>
    rw [if_neg (by omega), if_pos (by omega), decodeIncremental, hdec]
    simp only
    rw [if_neg (by omega), if_pos trivial, Option.map_map]
    rfl
  case notIndexHeader =>
    rw [if_neg (by omega), if_neg (by omega), if_neg (by omega), hdec, if_neg (by decide)]
    rfl
  case neverIndexHeader =>
    rw [if_neg (by omega), if_neg (by omega), if_neg (by omega), hdec, if_neg (by decide)]
    rfl

/-! ### One header -/

/-- What may be encoded: a name and a value, short enough, and no more than `2 ^ 31` insertions. -/
def Codable (p : HPacker) (h : Header) (o : HPackOptions) : Prop :=
  h.Full ∧ Encodable h o ∧ p.encodeTable.addTimes < 2147483648

/-- The names can be told apart and the indexes can be read. -/
def Indexable (p : HPacker) (h : Header) : Prop :=
  NoNul h.name ∧ p.encodeTable.endIndex ≤ maxHpackInteger

instance (p : HPacker) (h : Header) (o : HPackOptions) : Decidable (Codable p h o) :=
  inferInstanceAs (Decidable ((_ ∧ _) ∧ (_ ∧ _) ∧ _))

instance (p : HPacker) (h : Header) : Decidable (Indexable p h) :=
  inferInstanceAs (Decidable (_ ∧ _))

variable {e d : HPacker} {q : List Header} {h : Header} {o : HPackOptions}

/-- **`AddHeader` on both sides.** -/
theorem Mirrors.add (hm : Mirrors e d q) (hfull : h.Full) (htimes : e.encodeTable.addTimes < 2147483648)
    (hi : Indexable e h) :
    ∃ et dt, e.encodeTable.addHeader h = some et ∧ d.decodeTable.addHeader (lowered h) = some dt ∧
      Mirrors { e with encodeTable := et } { d with decodeTable := dt } (add e.encodeTable.maxSize q h) := by
  have hlen : 62 + q.length ≤ maxHpackInteger := by
    have := hi.2
    rwa [IndexTable.endIndex, hm.encoderStart, hm.encoder.base.holds.count] at this
  unfold maxHpackInteger at hlen
  have hdrop := (dropOld_suffix e.encodeTable.maxSize (IndexTable.headerSize h) q).length_le
  obtain ⟨et, het, heinv, hesame, hetimes⟩ := addHeader_spec hm.encoder (fun _ => hi.1) htimes fun hle => by
    rw [hm.encoderCap, hm.encoderStart]
    exact ⟨length_dropOld_lt hm.full hfull hle, by omega⟩
  have hdneed : d.decodeTable.needIndexes = true → NoNul (lowered h).name := by simp [hm.decoderNeed]
  obtain ⟨dt, hdt, hdinv, hdsame, hdtimes⟩ := addHeader_spec hm.decoder hdneed
    (by rw [hm.sameTimes]; exact htimes) fun hle => by
      rw [hm.sameMax, headerSize_lowered] at hle
      rw [hm.decoderCap, hm.decoderStart, hm.sameMax, headerSize_lowered, dropOld_lowered, length_map]
      exact ⟨length_dropOld_lt hm.full hfull hle, by omega⟩
  rw [hm.sameMax, add_lowered] at hdinv
  refine ⟨et, dt, het, hdt, ?_⟩
  exact
    { static := hm.static, staticStart := hm.staticStart, staticNeed := hm.staticNeed
      sameStatic := hm.sameStatic
      encoder := heinv
      encoderNeed := hesame.needIndexes.trans hm.encoderNeed
      encoderStart := hesame.startIndex.trans hm.encoderStart
      encoderCap := by
        rw [hesame.cap, hesame.maxSize]
        exact hm.encoderCap
      decoder := hdinv
      decoderNeed := hdsame.needIndexes.trans hm.decoderNeed
      decoderStart := hdsame.startIndex.trans hm.decoderStart
      decoderCap := by
        rw [hdsame.cap, hdsame.maxSize]
        exact hm.decoderCap
      sameMax := by rw [hdsame.maxSize, hesame.maxSize, hm.sameMax]
      sameTimes := by rw [hdtimes, hetimes, hm.sameTimes, hm.sameMax, headerSize_lowered]
      full := fun x hx => (mem_add hx).elim (hm.full x) fun hxh => hxh ▸ hfull }

/-- **One header, encoded and decoded.** -/
theorem Mirrors.encode_decode (hm : Mirrors e d q) (hc : Codable e h o) (hi : Indexable e h) :
    ∃ e' d' out q', e.encode h o = some (e', out) ∧ (∀ rest, d.decode (out ++ rest) =
        some (d', { ret := out.length, value := lowered h, rest := rest })) ∧ Mirrors e' d' q' := by
  obtain ⟨hfull, hlen, htimes⟩ := hc
  have hend := hi.2
  unfold encode
  by_cases hfound : 0 < if o.indexPolicy ≠ .neverIndexHeader then e.findHeaderFromIndexTable h else 0
  · have hnever : o.indexPolicy ≠ .neverIndexHeader := by
      intro hc
      rw [if_neg (not_not.2 hc)] at hfound
      omega
    rw [if_pos hfound]
    rw [if_pos hnever] at hfound ⊢
    obtain ⟨hlt, hat⟩ := hm.findHeader hfound
    exact ⟨e, d, _, q, rfl, decode_indexed hfound (by omega) hat, hm⟩
  · rw [if_neg hfound]
    have hname : NameAt d (e.findNameFromIndexTable h.name) h.name := by
      rcases hm.findName h.name with h0 | ⟨hpos, hlt, hx⟩
      · exact .inl h0
      · exact .inr ⟨hpos, by omega, hx⟩
    by_cases hindex : o.indexPolicy = .indexHeader
    · obtain ⟨et, dt, het, hdt, hm'⟩ := hm.add hfull htimes hi
      rw [if_pos hindex, het]
      refine ⟨_, _, _, _, rfl, fun rest => ?_, hm'⟩
      rw [decode_literal hname hlen, if_pos hindex, hdt]
      rfl
    · rw [if_neg hindex]
      refine ⟨e, d, _, q, rfl, fun rest => ?_, hm⟩
      rw [decode_literal hname hlen, if_neg hindex]
      rfl

/-! ### Whole connections -/

/-- Calls of `Encode`, one for each header: the coder after each, and what it has written. -/
def HPacker.encodeAll (p : HPacker) : List (Header × HPackOptions) → Option (List (HPacker × Bytes))
  | [] => some []
  | (h, o) :: hs => (p.encode h o).bind fun r => (r.1.encodeAll hs).map (r :: ·)

/-- `n` calls of `Decode`: the coder after each, and what it has returned. -/
def HPacker.decodeAll : ℕ → HPacker → Bytes → Option (List (HPacker × Read Header))
  | 0, _, _ => some []
  | n + 1, p, bs => (p.decode bs).bind fun r => (decodeAll n r.1 r.2.rest).map (r :: ·)

/-- The encoder's table after a call. -/
def encodeStep (p : Option HPacker) (i : Header × HPackOptions) : Option HPacker :=
  p.bind fun p => (p.encode i.1 i.2).map (·.1)

/-- The condition on a call of `Encode`. -/
def StepFits (p : Option HPacker) (i : Header × HPackOptions) : Prop :=
  ∀ p' ∈ p, Codable p' i.1 i.2 ∧ Indexable p' i.1

theorem Mirrors.all (hm : Mirrors e d q) (hs : List (Header × HPackOptions))
    (hfits : Lib.Along encodeStep StepFits (some e) hs) (rest : Bytes) :
    ∃ sent received, e.encodeAll hs = some sent ∧
      decodeAll hs.length d ((sent.map (·.2)).flatten ++ rest) = some received ∧ sent.length = hs.length ∧
      List.Forall₂ (fun i r => Matching i.1.1 i.2 r) (hs.zip sent) received := by
  induction hs generalizing e d q with
  | nil => exact ⟨[], [], rfl, rfl, rfl, .nil⟩
  | cons i hs ih =>
    obtain ⟨h, o⟩ := i
    obtain ⟨hfit, hfits⟩ := hfits
    obtain ⟨e', d', out, q', henc, hdec, hm'⟩ := hm.encode_decode (hfit e rfl).1 (hfit e rfl).2
    rw [show encodeStep (some e) (h, o) = some e' by simp [encodeStep, henc]] at hfits
    obtain ⟨sent, received, hsent, hrec, hlen, hall⟩ := ih hm' hfits
    refine ⟨(e', out) :: sent,
      (d', { ret := out.length, value := lowered h, rest := (sent.map (·.2)).flatten ++ rest }) :: received,
      ?_, ?_, by rw [length_cons, length_cons, hlen], .cons ⟨rfl, rfl, ?_, hm'.headerAt_eq⟩ hall⟩
    · rw [encodeAll, henc, Option.bind_some, hsent]
      rfl
    · rw [length_cons, decodeAll, map_cons, flatten_cons, append_assoc, hdec, Option.bind_some, hrec]
      rfl
    · rw [hm'.decoder.base.size, hm'.encoder.base.size, sizes_lowered]

/-- `A: b`, and `a: b`, which is then in the table. -/
def sameTwice : List (Header × HPackOptions) := [(⟨[65], [98]⟩, {}), (⟨[97], [98]⟩, {})]

theorem sameTwice_fits : ∃ p, init 70 = some p ∧ Lib.Along encodeStep StepFits (some p) sameTwice := by
  obtain ⟨p, hp, hok, p', hp', hok'⟩ : ∃ p ∈ init 70, (Codable p ⟨[65], [98]⟩ {} ∧ Indexable p ⟨[65], [98]⟩) ∧
      ∃ p' ∈ encodeStep p (⟨[65], [98]⟩, {}), Codable p' ⟨[97], [98]⟩ {} ∧ Indexable p' ⟨[97], [98]⟩ := by
    decide +kernel
  exact ⟨p, hp, fun _ h => Option.some.inj h ▸ hok, fun _ h => Option.some.inj (hp'.symm.trans h) ▸ hok', trivial⟩

end Brpc.Hpack
