/-
# What the writer writes

`RecordWriter::WriteWithoutFlush` of `butil/recordio.cc` appends a record (`encode`) to its
buffer or leaves the buffer as it was.  `CutRecord` reads it back (`parse_encode`), if its names
have at most 255 bytes: the size of a name is written into one byte.
-/

import Brpc.Recordio.Content

namespace Brpc.Recordio

open List Record
open Messenger (Bytes pack32 unpack32 unpack32_pack32 length_pack32)

/-- The number of bytes behind the head. -/
def metasSize (metas : List NamedMeta) : ℕ :=
  (metas.map fun m => 5 + m.name.length + m.data.length).sum

def Record.dataSize (record : Record) : ℕ := metasSize record.metas + record.payload.length

def encodeMetas : List NamedMeta → Bytes
  | [] => []
  | m :: ms =>
    (UInt8.ofNat m.name.length :: m.name ++ pack32 (m.data.length + if ms = [] then 0 else 2 ^ 31))
      ++ m.data ++ encodeMetas ms

/-- The first word of the head: the size, and whether there are metas. -/
def headWord (record : Record) : ℕ :=
  record.dataSize + if record.metas = [] then 0 else 2 ^ 31

def head (record : Record) : Bytes :=
  magic ++ pack32 (headWord record) ++ [sizeChecksum (headWord record)]

def encode (record : Record) : Bytes := head record ++ (encodeMetas record.metas ++ record.payload)

variable {record : Record} {buf rest : Bytes} {maxSize : ℕ}

theorem length_encodeMetas (ms : List NamedMeta) : (encodeMetas ms).length = metasSize ms := by
  induction ms with
  | nil => rfl
  | cons m ms ih =>
    rw [encodeMetas, length_append, length_append, length_append, length_cons,
      length_pack32, ih, metasSize, metasSize, map_cons, sum_cons]
    omega

theorem data_le_metasSize {ms : List NamedMeta} {m : NamedMeta} (h : m ∈ ms) : m.data.length ≤ metasSize ms := by
  induction ms with
  | nil => cases h
  | cons m' ms ih =>
    rw [metasSize, map_cons, sum_cons, ← metasSize]
    rcases mem_cons.1 h with rfl | h
    · omega
    · have := ih h
      omega

theorem length_le_metasSize (ms : List NamedMeta) : ms.length ≤ metasSize ms := by
  induction ms with
  | nil => exact Nat.le_refl _
  | cons =>
    rw [metasSize, map_cons, sum_cons, ← metasSize, length_cons]
    omega

theorem length_head (record : Record) : (head record).length = 9 := rfl

theorem length_encode (record : Record) : (encode record).length = 9 + record.dataSize := by
  rw [encode, length_append, length_append, length_encodeMetas, length_head, dataSize]

/-! ## The writer -/

theorem writeMetas_spec (ms : List NamedMeta) (buf : Bytes) : (∃ part, (writeMetas ms buf).2 = buf ++ part) ∧
      ((writeMetas ms buf).1 = true → (writeMetas ms buf).2 = buf ++ encodeMetas ms) ∧
      ((∀ m ∈ ms, m.name.length ≤ maxNameSize ∧ m.data.length ≤ 0x7FFFFFFF) → (writeMetas ms buf).1 = true) := by
  induction ms generalizing buf with
  | nil => exact ⟨⟨[], (append_nil _).symm⟩, fun _ => (append_nil _).symm, fun _ => rfl⟩
  | cons m ms ih =>
    rw [writeMetas]
    by_cases hname : maxNameSize < m.name.length
    · rw [if_pos hname]
      refine ⟨⟨[], (append_nil _).symm⟩, by rintro ⟨⟩, fun hall => ?_⟩
      exact absurd (hall m mem_cons_self).1 (not_le.2 hname)
    by_cases hdata : 0x7FFFFFFF < m.data.length
    · rw [if_neg hname, if_pos hdata]
      refine ⟨⟨[], (append_nil _).symm⟩, by rintro ⟨⟩, fun hall => ?_⟩
      exact absurd (hall m mem_cons_self).2 (not_le.2 hdata)
    rw [if_neg hname, if_neg hdata]
    obtain ⟨⟨part, hpart⟩, hok, hall⟩ := ih (buf ++ (UInt8.ofNat m.name.length :: m.name ++
      pack32 (m.data.length + if ms = [] then 0 else 2 ^ 31)) ++ m.data)
    refine ⟨⟨_, hpart.trans (by rw [append_assoc, append_assoc])⟩, fun h => ?_, fun h => ?_⟩
    · rw [hok h, encodeMetas]
      simp only [append_assoc]
    · exact hall fun m' hm' => h m' (mem_cons_of_mem m hm')

theorem popBack_append (buf part : Bytes) : popBack (buf ++ part) ((buf ++ part).length - buf.length) = buf := by
  rw [popBack, length_append, show buf.length + part.length - (buf.length + part.length - buf.length)
    = buf.length by omega, take_left]

/-- **The writer appends the record, or refuses it and leaves its buffer as it was.** -/
theorem writeWithoutFlush_spec (buf : Bytes) (record : Record) :
    ((writeWithoutFlush buf record).1 = -1 ∧ (writeWithoutFlush buf record).2 = buf ∨
      (writeWithoutFlush buf record).1 = 0 ∧ record.dataSize ≤ 0x7FFFFFFF ∧
        (writeWithoutFlush buf record).2 = buf ++ encode record) ∧
    ((∀ m ∈ record.metas, m.name.length ≤ maxNameSize) → record.dataSize ≤ 0x7FFFFFFF →
      (writeWithoutFlush buf record).1 = 0) := by
  obtain ⟨⟨part, hpart⟩, hok, hall⟩ := writeMetas_spec record.metas (buf ++ replicate 9 0)
  rw [writeWithoutFlush]
  dsimp only
  by_cases hmetas : (writeMetas record.metas (buf ++ replicate 9 0)).1 = false
  · rw [if_pos hmetas, hpart, append_assoc, popBack_append]
    refine ⟨.inl ⟨rfl, rfl⟩, fun hnames hsize => ?_⟩
    rw [hall fun m hm => ⟨hnames m hm, ?_⟩] at hmetas
    · cases hmetas
    · have hle := data_le_metasSize hm
      rw [dataSize] at hsize
      omega
  rw [if_neg hmetas, hok (Bool.eq_true_of_not_eq_false hmetas)]
  have hbody : buf ++ replicate 9 0 ++ encodeMetas record.metas ++ record.payload
      = buf ++ (replicate 9 0 ++ (encodeMetas record.metas ++ record.payload)) := by
    rw [append_assoc, append_assoc]
  have hsize : (buf ++ replicate 9 0 ++ encodeMetas record.metas ++ record.payload).length
      - buf.length - 9 = record.dataSize := by
    rw [hbody, length_append, length_append, length_replicate, length_append, length_encodeMetas, dataSize]
    omega
  rw [hsize]
  by_cases hlong : 0x7FFFFFFF < record.dataSize
  · rw [if_pos hlong, hbody, popBack_append]
    exact ⟨.inl ⟨rfl, rfl⟩, fun _ hle => absurd hle (not_le.2 hlong)⟩
  · rw [if_neg hlong]
    refine ⟨.inr ⟨rfl, not_lt.1 hlong, ?_⟩, fun _ _ => rfl⟩
    rw [hbody, take_left, ← drop_drop, drop_left, drop_left' (length_replicate), encode, head, headWord, append_assoc]

theorem writeWithoutFlush_eq (buf : Bytes) (hnames : ∀ m ∈ record.metas, m.name.length ≤ maxNameSize)
    (hsize : record.dataSize ≤ 0x7FFFFFFF) : (writeWithoutFlush buf record).2 = buf ++ encode record := by
  obtain ⟨hout, hok⟩ := writeWithoutFlush_spec buf record
  rcases hout with ⟨hrefused, -⟩ | ⟨-, -, hwritten⟩
  · rw [hok hnames hsize] at hrefused
    cases hrefused
  · exact hwritten

/-! ## Reading it back -/

/-- A size with a bit for what follows. -/
theorem flagged {α : Type*} {size : ℕ} {l : List α} [Decidable (l = [])] (h : size ≤ 0x7FFFFFFF) :
    let word := size + if l = [] then 0 else 2 ^ 31
    word < 2 ^ 32 ∧ word % 2 ^ 31 = size ∧ (word < 2 ^ 31 ↔ l = []) := by
  intro word
  simp only [word]
  split_ifs with hnil
  · exact ⟨by omega, by omega, iff_of_true (by omega) hnil⟩
  · exact ⟨by omega, by omega, iff_of_false (by omega) hnil⟩

/-- The records that can be read back: names of 1 to 255 bytes, each once, and a size of 31
bits. -/
structure Record.Readable (record : Record) : Prop where
  names : ∀ m ∈ record.metas, m.name ≠ [] ∧ m.name.length ≤ 255
  distinct : (record.metas.map NamedMeta.name).Nodup
  size : record.dataSize ≤ 0x7FFFFFFF

theorem mutableMeta_new {done ms : List NamedMeta} {m : NamedMeta} (hne : m.name ≠ []) (hlen : m.name.length ≤ 255)
    (hdistinct : ((done ++ m :: ms).map NamedMeta.name).Nodup) :
    mutableMeta ⟨done, []⟩ m.name m.data = some ⟨done ++ [m], []⟩ := by
  have hnew : ¬ (done.any fun m' => m'.name = m.name) = true := by
    rw [any_eq_true]
    rintro ⟨m', hm', heq⟩
    rw [map_append, nodup_append] at hdistinct
    exact hdistinct.2.2 _ (mem_map_of_mem hm') _ (mem_map_of_mem mem_cons_self) (of_decide_eq_true heq)
  rw [mutableMeta, if_neg hnew, if_neg (by rw [maxNameSize]; omega), if_neg hne]

theorem parseMetas_encodeMetas {dataSize : ℕ} {content payload : Bytes} {n consumed tmp : ℕ} {done ms : List NamedMeta}
    (hcontent : content.drop (9 + consumed) = encodeMetas ms ++ (payload ++ rest))
    (hsize : dataSize = consumed + metasSize ms + payload.length) (hbound : dataSize ≤ 0x7FFFFFFF)
    (hn : ms.length < n) (htmp : tmp < 2 ^ 31 ↔ ms = []) (hnames : ∀ m ∈ ms, m.name ≠ [] ∧ m.name.length ≤ 255)
    (hdistinct : ((done ++ ms).map NamedMeta.name).Nodup) :
    parseMetas dataSize content n ⟨done, []⟩ consumed tmp = .ok ⟨done ++ ms, payload⟩ (9 + dataSize) := by
  obtain ⟨n, rfl⟩ : ∃ n', n = n' + 1 := Nat.exists_eq_succ_of_ne_zero (by omega)
  induction ms generalizing n consumed tmp done with
  | nil =>
    have hpayload : dataSize - consumed = payload.length := by
      rw [hsize]
      show consumed + 0 + payload.length - consumed = _
      omega
    rw [parseMetas, if_pos (htmp.2 rfl), hcontent, append_nil, hpayload]
    show Parsed.ok ⟨done, (payload ++ rest).take payload.length⟩ _ = _
    rw [take_left]
  | cons m ms ih =>
    obtain ⟨hne, hlen⟩ := hnames m mem_cons_self
    have hmetas : metasSize (m :: ms) = 5 + m.name.length + m.data.length + metasSize ms := rfl
    obtain ⟨hword, hmod, hmore⟩ := @flagged _ m.data.length ms _ (by omega)
    rw [encodeMetas] at hcontent
    generalize (m.data.length + if ms = [] then 0 else 2 ^ 31) = word at *
    generalize htail : m.data ++ (encodeMetas ms ++ (payload ++ rest)) = tail
    -- the bytes from here on: size of the name, name, word, data
    have hbytes : content.drop (9 + consumed) = UInt8.ofNat m.name.length :: (m.name ++ (pack32 word ++ tail)) := by
      rw [hcontent, ← htail]
      simp only [append_assoc, cons_append]
    have hhead : ((content.drop (9 + consumed)).head?.getD 0).toNat = m.name.length := by
      rw [hbytes]
      show m.name.length % 256 = _
      omega
    have hlength : ¬ (content.drop (9 + consumed)).length < 5 + m.name.length := by
      rw [hbytes, length_cons, length_append, length_append, length_pack32]
      omega
    have hdrop₁ : (content.drop (9 + consumed)).drop (1 + m.name.length) = pack32 word ++ tail := by
      rw [hbytes, Nat.add_comm, drop_succ_cons, drop_left]
    have hdrop₅ : (content.drop (9 + consumed)).drop (5 + m.name.length) = tail := by
      rw [show 5 + m.name.length = 1 + m.name.length + 4 by omega, ← drop_drop, hdrop₁]
      rfl
    have hname : ((content.drop (9 + consumed)).drop 1).take m.name.length = m.name := by
      rw [hbytes, drop_succ_cons, drop_zero, take_left]
    have hdata : tail.take m.data.length = m.data := by rw [← htail, take_left]
    rw [length_cons] at hn
    obtain ⟨n, rfl⟩ : ∃ n', n = n' + 1 := Nat.exists_eq_succ_of_ne_zero (by omega)
    rw [parseMetas]
    dsimp only
    rw [if_neg (by rw [htmp]; exact cons_ne_nil _ _), hhead, if_neg hlength, hname, hdrop₁,
      hdrop₅, unpack32_pack32 hword, hmod, if_neg (by omega), hdata, mutableMeta_new hne hlen hdistinct]
    have hnext := @ih (consumed + 5 + m.name.length + m.data.length) word (done ++ [m]) ?_ (by omega)
      hmore (fun m' hm' => hnames m' (mem_cons_of_mem m hm')) (by rwa [append_assoc]) n (by omega)
    · rw [append_assoc] at hnext
      exact hnext
    · rw [show 9 + (consumed + 5 + m.name.length + m.data.length)
        = 9 + consumed + (5 + m.name.length + m.data.length) by omega, ← drop_drop,
        ← drop_drop, hdrop₅, ← htail, drop_left]

section

variable {content more : Bytes} (hsize : record.dataSize ≤ 0x7FFFFFFF)
  (hsplit : content ++ more = encode record ++ rest) (hnine : ¬ content.length < 9)
include hsize hsplit hnine

theorem head_facts : content.take 4 = magic ∧ unpack32 (content.drop 4) = headWord record ∧
      content[8]? = some (sizeChecksum (headWord record)) := by
  have hhead : content.take 9 = head record := by
    have htake := congrArg (take 9) hsplit
    rw [take_append_of_le_length (not_lt.1 hnine), encode, append_assoc] at htake
    rw [htake]
    exact take_left' (length_head record)
  refine ⟨?_, ?_, ?_⟩
  · rw [show content.take 4 = (content.take 9).take 4 by rw [take_take]; rfl, hhead]
    rfl
  · have hfive : (content.drop 4).take 5 = (head record).drop 4 := by rw [← hhead, drop_take]
    rw [← unpack32_take (by decide : 4 ≤ 5) (by rw [length_drop]; omega), hfive, head, append_assoc]
    exact unpack32_pack32 (flagged hsize).1 _
  · rw [← getElem?_take_of_lt (by decide : 8 < 9), hhead]
    rfl

theorem parse_head (hmax : record.dataSize ≤ maxSize) : parse maxSize content =
    if content.length < record.dataSize + 9 then .wait
    else parseMetas record.dataSize content (record.dataSize + 1) ⟨[], []⟩ 0 (headWord record) := by
  obtain ⟨hmagic, hword, hsum⟩ := head_facts hsize hsplit hnine
  rw [parse, if_neg hnine, if_neg (not_not.2 hmagic), hword, hsum]
  rw [if_neg (not_not.2 rfl), headWord, (flagged hsize).2.1, if_neg (not_lt.2 hmax)]

end

/-- **A record that has been written is read back,** whatever follows it. -/
theorem parse_encode (h : record.Readable) (hmax : record.dataSize ≤ maxSize) (rest : Bytes) :
    parse maxSize (encode record ++ rest) = .ok record (encode record).length := by
  have hlen : (encode record ++ rest).length = 9 + record.dataSize + rest.length := by
    rw [length_append, length_encode]
  rw [parse_head h.size (append_nil _) (by omega) hmax, if_neg (by omega), length_encode]
  have hdrop : (encode record ++ rest).drop (9 + 0) = encodeMetas record.metas ++ (record.payload ++ rest) := by
    rw [encode, append_assoc, append_assoc]
    exact drop_left' (length_head record)
  have hmetas : record.metas.length < record.dataSize + 1 := by
    have hle := length_le_metasSize record.metas
    rw [dataSize]
    omega
  exact parseMetas_encodeMetas hdrop (by rw [dataSize, Nat.zero_add]) h.size hmetas
    (flagged h.size).2.2 h.names h.distinct

/-- **A record that has not arrived whole is waited for.** -/
theorem parse_encode_short {content more : Bytes} (h : record.Readable)
    (hmax : record.dataSize ≤ maxSize) (hsplit : content ++ more = encode record ++ rest)
    (hshort : content.length < (encode record).length) : parse maxSize content = .wait := by
  rw [length_encode] at hshort
  by_cases hnine : content.length < 9
  · rw [parse, if_pos hnine]
  · rw [parse_head h.size hsplit hnine hmax, if_pos (by omega)]

end Brpc.Recordio
