/-
# RecordIO on the bytes that have arrived

`CutRecord` and `CutUntilNextRecordCandidate` of `butil/recordio.cc` as functions of the bytes
there are: `parse` and `findMagic`.  A record that can be told from them is the same when more
has arrived (`parse_append`), unless a meta header runs over its end (`Parsed.short`).
-/

import Brpc.Recordio.Record

namespace Brpc.Recordio

open List
open Messenger (Bytes pack32 unpack32 unpack32_append)

/-- What stands at the head of some bytes: a record, or bytes to be skipped, with their
number. -/
inductive Parsed
  | wait
  | short
  | bad (n : ℕ)
  | ok (record : Record) (n : ℕ)
  deriving DecidableEq

/-- The metas of a record from the one at `consumed` on, and the payload. -/
def parseMetas (dataSize : ℕ) (content : Bytes) : ℕ → Record → ℕ → ℕ → Parsed
  | 0, _, _, _ => .short
  | n + 1, record, consumed, tmp =>
    let bs := content.drop (9 + consumed)
    if tmp < 2 ^ 31 then .ok { record with payload := bs.take (dataSize - consumed) } (9 + dataSize)
    else
      let nameSize := (bs.head?.getD 0).toNat
      if bs.length < 5 + nameSize then .short
      else
        let tmp := unpack32 (bs.drop (1 + nameSize))
        let metaSize := tmp % 2 ^ 31
        let consumed' := consumed + 5 + nameSize + metaSize
        if dataSize < consumed' then .bad (9 + consumed + 5 + nameSize)
        else
          match record.mutableMeta ((bs.drop 1).take nameSize) ((bs.drop (5 + nameSize)).take metaSize) with
          | none => .bad (9 + consumed + 5 + nameSize)
          | some record => parseMetas dataSize content n record consumed' tmp

/-- `CutRecord` on bytes. -/
def parse (maxSize : ℕ) (content : Bytes) : Parsed :=
  if content.length < 9 then .wait
  else if content.take 4 ≠ magic then .bad 0
  else
    let tmp := unpack32 (content.drop 4)
    let dataSize := tmp % 2 ^ 31
    if some (sizeChecksum tmp) ≠ content[8]? then .bad 0
    else if maxSize < dataSize then .bad 0
    else if content.length < dataSize + 9 then .wait
    else parseMetas dataSize content (dataSize + 1) ⟨[], []⟩ 0 tmp

variable {dataSize maxSize : ℕ} {content more : Bytes}

/-! ## More bytes -/

variable {n : ℕ}

theorem unpack32_take {bs : Bytes} (h : 4 ≤ n) (hlen : 4 ≤ bs.length) :
    unpack32 (bs.take n) = unpack32 bs := by
  have htake : 4 ≤ (bs.take n).length := by
    rw [length_take]
    omega
  rw [← unpack32_append htake (bs.drop n), take_append_drop]

theorem parseMetas_append (hlen : dataSize + 9 ≤ content.length) {record : Record}
    {consumed tmp : ℕ} (hconsumed : consumed ≤ dataSize)
    (h : parseMetas dataSize content n record consumed tmp ≠ .short) (more : Bytes) :
    parseMetas dataSize (content ++ more) n record consumed tmp
      = parseMetas dataSize content n record consumed tmp := by
  induction n generalizing record consumed tmp with
  | zero => exact absurd rfl h
  | succ n ih =>
    have hdrop : (content ++ more).drop (9 + consumed) = content.drop (9 + consumed) ++ more :=
      drop_append_of_le_length (by omega)
    have hrest : dataSize - consumed ≤ (content.drop (9 + consumed)).length := by
      rw [length_drop]
      omega
    rw [parseMetas] at h
    rw [parseMetas, parseMetas, hdrop]
    generalize content.drop (9 + consumed) = bs at *
    by_cases hlast : tmp < 2 ^ 31
    · rw [if_pos hlast, if_pos hlast, take_append_of_le_length hrest]
    rw [if_neg hlast] at h
    rw [if_neg hlast, if_neg hlast]
    by_cases hshort : bs.length < 5 + (bs.head?.getD 0).toNat
    · rw [if_pos hshort] at h
      exact absurd rfl h
    have hne : bs ≠ [] := by
      rintro rfl
      exact hshort (Nat.succ_pos _)
    have hhead : (bs ++ more).head? = bs.head? := head?_append_of_ne_nil bs hne
    have hlong : ¬ (bs ++ more).length < 5 + (bs.head?.getD 0).toNat := by
      rw [length_append]
      omega
    rw [if_neg hshort] at h
    rw [hhead, if_neg hshort, if_neg hlong]
    generalize (bs.head?.getD 0).toNat = nameSize at *
    have hsize : unpack32 ((bs ++ more).drop (1 + nameSize)) = unpack32 (bs.drop (1 + nameSize)) := by
      rw [drop_append_of_le_length (by omega), unpack32_append (by rw [length_drop]; omega)]
    rw [hsize]
    generalize unpack32 (bs.drop (1 + nameSize)) = tmp' at *
    by_cases hover : dataSize < consumed + 5 + nameSize + tmp' % 2 ^ 31
    · rw [if_pos hover, if_pos hover]
    have hname : ((bs ++ more).drop 1).take nameSize = (bs.drop 1).take nameSize := by
      rw [drop_append_of_le_length (by omega), take_append_of_le_length (by rw [length_drop]; omega)]
    have hdata : ((bs ++ more).drop (5 + nameSize)).take (tmp' % 2 ^ 31)
        = (bs.drop (5 + nameSize)).take (tmp' % 2 ^ 31) := by
      rw [drop_append_of_le_length (by omega), take_append_of_le_length (by rw [length_drop]; omega)]
    rw [if_neg hover] at h
    rw [if_neg hover, if_neg hover, hname, hdata]
    cases hmeta : record.mutableMeta ((bs.drop 1).take nameSize) ((bs.drop (5 + nameSize)).take (tmp' % 2 ^ 31)) with
    | none => rfl
    | some =>
      rw [hmeta] at h
      exact ih (not_lt.1 hover) h

/-- **What can be told about a record stays as it is.** -/
theorem parse_append {p : Parsed} (h : parse maxSize content = p) (hwait : p ≠ .wait) (hshort : p ≠ .short)
    (more : Bytes) : parse maxSize (content ++ more) = p := by
  subst h
  rw [parse] at hwait hshort
  by_cases hnine : content.length < 9
  · rw [if_pos hnine] at hwait
    exact absurd rfl hwait
  have hmore : content.length ≤ (content ++ more).length := by simp
  have hfour : (content ++ more).take 4 = content.take 4 := take_append_of_le_length (by omega)
  have htmp : unpack32 ((content ++ more).drop 4) = unpack32 (content.drop 4) := by
    rw [drop_append_of_le_length (by omega), unpack32_append (by rw [length_drop]; omega)]
  have hsum : (content ++ more)[8]? = content[8]? := getElem?_append_left (by omega)
  rw [parse, parse, if_neg hnine, if_neg (by omega), hfour, htmp, hsum]
  dsimp only at hwait hshort ⊢
  split_ifs at hwait hshort ⊢ with hmagic hcrc hmax hdata' hdata hdata
  · rfl
  · rfl
  · rfl
  · exact absurd rfl hwait
  · omega
  · exact absurd rfl hwait
  · exact parseMetas_append (not_lt.1 hdata) (Nat.zero_le _) hshort more

/-! ## From the cutter to the bytes -/

/-- A call of `CutRecord` does to the bytes there are what `parse` says. -/
def CutRecord.Agrees (out : CutRecord) (ncut : ℕ) (content : Bytes) : Parsed → Prop
  | .short => out.short = true
  | .wait => out.short = false ∧ out.rc = .notEnoughData ∧ out.cutter.Fresh ∧
      out.cutter.content = content ∧ out.ncut = ncut
  | .bad n => out.short = false ∧ out.rc = .bad ∧ out.cutter.Fresh ∧
      out.cutter.content = content.drop n ∧ out.ncut = ncut + n ∧ n ≤ content.length
  | .ok record n => out.short = false ∧ out.rc = .ok record ∧ out.cutter.Fresh ∧
      out.cutter.content = content.drop n ∧ out.ncut = ncut + n ∧ n ≤ content.length ∧ 9 ≤ n

variable {l : MetaLoop}

theorem cutHeader_spec (h : l.cutter.Fresh) (nameSize : ℕ) : let one := l.cutter.cut1
    let name := one.2.cutnString nameSize
    let four := name.2.cutn 4
    one.1 = l.cutter.content.head? ∧ name.1 = (l.cutter.content.drop 1).take nameSize ∧
      four.1 = (l.cutter.content.drop (1 + nameSize)).take 4 ∧ four.2.Fresh ∧
      four.2.content = l.cutter.content.drop (5 + nameSize) := by
  obtain ⟨hone, hcontent₁, hfresh₁⟩ := Cutter.cut1_spec h
  obtain ⟨hname, hcontent₂, hfresh₂⟩ := Cutter.cutnString_spec hfresh₁ nameSize
  obtain ⟨hfour, hcontent₃, hfresh₃⟩ := Cutter.cutn_spec hfresh₂ 4
  rw [hcontent₁] at hname hcontent₂
  rw [hcontent₂, drop_drop] at hfour hcontent₃
  refine ⟨hone, hname, hfour, hfresh₃, ?_⟩
  rw [hcontent₃, drop_drop, show 1 + (nameSize + 4) = 5 + nameSize by omega]

/-- The variables of the loop after a turn, or where the record was bad. -/
def left : Except MetaLoop MetaLoop → MetaLoop
  | .error l => l
  | .ok l => l

theorem cutMeta_short (h : l.short = true ∨ l.cutter.cut1.1 = none ∨
      l.cutter.Fresh ∧ l.cutter.content.length < 5 + (l.cutter.content.head?.getD 0).toNat) :
    (left (cutMeta dataSize l)).short = true := by
  have hshort : (l.short || decide (l.cutter.cut1.1 = none) ||
      decide ((l.cutter.cut1.2.cutnString (l.cutter.cut1.1.getD 0).toNat).1.length < (l.cutter.cut1.1.getD 0).toNat) ||
      decide (((l.cutter.cut1.2.cutnString (l.cutter.cut1.1.getD 0).toNat).2.cutn 4).1.length < 4)) = true := by
    rcases h with h | h | ⟨h, hlen⟩
    · simp [h]
    · simp [h]
    · obtain ⟨hone, -, hfour, -, -⟩ := cutHeader_spec h (l.cutter.cut1.1.getD 0).toNat
      rw [← hone] at hlen
      rw [hfour, length_take, length_drop, Bool.or_eq_true, decide_eq_true_iff]
      omega
  rw [cutMeta]
  dsimp only
  split_ifs
  · exact hshort
  · split <;> exact hshort

theorem cutMetas_next (ih : ∀ {l}, l.short = true → (cutPayload dataSize (cutMetas dataSize n l)).short = true)
    (hmore : l.hasMeta = true) (h : (left (cutMeta dataSize l)).short = true) :
    (cutPayload dataSize (cutMetas dataSize (n + 1) l)).short = true := by
  rw [cutMetas]
  cases heq : cutMeta dataSize l with
  | error =>
    rw [heq] at h
    rw [Lib.whileLoop_error hmore heq]
    exact h
  | ok =>
    rw [heq] at h
    rw [Lib.whileLoop_ok hmore heq]
    exact ih h

theorem cutMetas_short (n : ℕ) (h : l.short = true) : (cutPayload dataSize (cutMetas dataSize n l)).short = true := by
  induction n generalizing l with
  | zero => exact h
  | succ n ih =>
    cases hmore : l.hasMeta with
    | false =>
      rw [cutMetas, Lib.whileLoop_done hmore]
      exact h
    | true => exact cutMetas_next ih hmore (cutMeta_short (.inl h))

/-- A meta whose header has arrived: it runs over the record, its name is refused, or the
loop goes on behind it. -/
theorem cutMeta_spec (h : l.cutter.Fresh) {nameSize tmp : ℕ} (hsize : (l.cutter.content.head?.getD 0).toNat = nameSize)
    (htmp : unpack32 (l.cutter.content.drop (1 + nameSize)) = tmp)
    (hlen : ¬ l.cutter.content.length < 5 + nameSize) : ∃ read data : Cutter,
      (read.Fresh ∧ read.content = l.cutter.content.drop (5 + nameSize)) ∧
      (data.Fresh ∧ data.content = l.cutter.content.drop (5 + nameSize + tmp % 2 ^ 31)) ∧
      cutMeta dataSize l = let bad := .error { l with cutter := read, ncut := l.ncut + 5 + nameSize, tmp := tmp }
        if dataSize < l.consumed + 5 + nameSize + tmp % 2 ^ 31 then bad
        else
          (l.record.mutableMeta ((l.cutter.content.drop 1).take nameSize)
            ((l.cutter.content.drop (5 + nameSize)).take (tmp % 2 ^ 31))).elim bad fun record =>
            .ok { l with cutter := data, ncut := l.ncut + 5 + nameSize + tmp % 2 ^ 31, tmp := tmp,
                         record := record, consumed := l.consumed + 5 + nameSize + tmp % 2 ^ 31 } := by
  obtain ⟨hone, hname, hfour, hfresh, hcontent⟩ := cutHeader_spec h nameSize
  obtain ⟨hdata, hcontent', hfresh'⟩ := Cutter.cutn_spec hfresh (tmp % 2 ^ 31)
  rw [hcontent] at hdata
  rw [hcontent, drop_drop] at hcontent'
  refine ⟨_, _, ⟨hfresh, hcontent⟩, ⟨hfresh', hcontent'⟩, ?_⟩
  have hnameSize : (l.cutter.cut1.1.getD 0).toNat = nameSize := by rw [hone, hsize]
  have hnamelen : ((l.cutter.content.drop 1).take nameSize).length = nameSize := by
    rw [length_take, length_drop]
    omega
  have hfourlen : ((l.cutter.content.drop (1 + nameSize)).take 4).length = 4 := by
    rw [length_take, length_drop]
    omega
  have hunpack : unpack32 ((l.cutter.content.drop (1 + nameSize)).take 4 ++ (pack32 l.tmp).reverse.drop 4) = tmp := by
    rw [unpack32_append (Nat.le_of_eq hfourlen.symm), unpack32_take (Nat.le_refl 4) (by rw [length_drop]; omega), htmp]
  have hsome : l.cutter.cut1.1 ≠ none := by
    rw [hone]
    intro hnil
    rw [head?_eq_none_iff.1 hnil, length_nil] at hlen
    omega
  rw [cutMeta]
  dsimp only
  rw [hnameSize, hname, hfour, hfourlen, hnamelen, hunpack, hdata]
  simp only [hsome, lt_irrefl, decide_false, Bool.or_false]
  split_ifs
  · rfl
  · split <;> rename_i hmeta <;> rw [hmeta] <;> rfl

end Brpc.Recordio
