/-
# From the cutter to the bytes

On the bytes there are, `CutRecord` of `butil/recordio.cc` does what `parse` says
(`cutRecord_agrees`), and `CutUntilNextRecordCandidate` goes to the first magic or keeps the last
three bytes.
-/

import Brpc.Recordio.Content

namespace Brpc.Recordio

open List Option Cutter
open Messenger (Bytes pack32 unpack32 unpack32_append)

variable {dataSize maxSize ncut : ℕ} {content more : Bytes} {l : MetaLoop} {cutter : Cutter}

/-! ## `CutRecord` -/

section

variable (h : l.cutter.Fresh) (hshort : l.short = false)
    (hcontent : l.cutter.content = content.drop (9 + l.consumed))
    (hncut : l.ncut = ncut + 9 + l.consumed) (hlen : dataSize + 9 ≤ content.length)
    (hconsumed : l.consumed ≤ dataSize)
include h hshort hcontent hncut hlen hconsumed

theorem cutPayload_agrees : (cutPayload dataSize (.ok l)).Agrees ncut content (.ok { l.record with
        payload := (content.drop (9 + l.consumed)).take (dataSize - l.consumed) } (9 + dataSize)) := by
  obtain ⟨htake, hdrop, hfresh⟩ := cutn_spec h (dataSize - l.consumed)
  rw [hcontent] at htake hdrop
  rw [drop_drop] at hdrop
  refine ⟨hshort, ?_, hfresh, ?_, ?_, by omega, by omega⟩
  · rw [cutPayload, htake]
  · exact hdrop.trans (congrArg content.drop (by omega))
  · show l.ncut + (l.cutter.cutn (dataSize - l.consumed)).1.length = _
    rw [htake, length_take, length_drop, hncut]
    omega

theorem cutMetas_agrees {n : ℕ} (hn : dataSize < l.consumed + n) :
    (cutPayload dataSize (cutMetas dataSize n l)).Agrees ncut content
      (parseMetas dataSize content n l.record l.consumed l.tmp) := by
  induction n generalizing l with
  | zero => omega
  | succ n ih =>
    rw [cutMetas, parseMetas, ← hcontent]
    dsimp only
    by_cases hlast : l.tmp < 2 ^ 31
    · have hdone : l.hasMeta = false := decide_eq_false (not_le.2 hlast)
      rw [Lib.whileLoop_done hdone, if_pos hlast, hcontent]
      exact cutPayload_agrees h hshort hcontent hncut hlen hconsumed
    have hmore : l.hasMeta = true := decide_eq_true (not_lt.1 hlast)
    rw [if_neg hlast]
    by_cases hmiss : l.cutter.content.length < 5 + (l.cutter.content.head?.getD 0).toNat
    · rw [if_pos hmiss]
      exact cutMetas_next (cutMetas_short n) hmore (cutMeta_short (.inr (.inr ⟨h, hmiss⟩)))
    rw [if_neg hmiss]
    obtain ⟨read, data, ⟨hread, hreadc⟩, ⟨hdata, hdatac⟩, heq⟩ := @cutMeta_spec dataSize l h _ _ rfl rfl hmiss
    generalize (l.cutter.content.head?.getD 0).toNat = nameSize at *
    generalize unpack32 (l.cutter.content.drop (1 + nameSize)) = tmp at *
    rw [hcontent, length_drop] at hmiss
    rw [hcontent, drop_drop] at hreadc hdatac
    have hbad : (cutPayload dataSize
        (.error { l with cutter := read, ncut := l.ncut + 5 + nameSize, tmp := tmp })).Agrees ncut
          content (.bad (9 + l.consumed + 5 + nameSize)) := by
      refine ⟨hshort, rfl, hread, ?_, ?_, by omega⟩
      · exact hreadc.trans (congrArg content.drop (by omega))
      · show l.ncut + 5 + nameSize = _
        omega
    split_ifs at heq ⊢ with hrun
    · rw [Lib.whileLoop_error hmore heq]
      exact hbad
    cases hmeta : l.record.mutableMeta ((l.cutter.content.drop 1).take nameSize)
        ((l.cutter.content.drop (5 + nameSize)).take (tmp % 2 ^ 31)) with
    | none =>
      rw [hmeta] at heq
      rw [Lib.whileLoop_error hmore heq]
      exact hbad
    | some record =>
      rw [hmeta] at heq
      rw [Lib.whileLoop_ok hmore heq]
      refine @ih { l with
        cutter := data, ncut := l.ncut + 5 + nameSize + tmp % 2 ^ 31, tmp := tmp, record := record,
        consumed := l.consumed + 5 + nameSize + tmp % 2 ^ 31 } hdata hshort ?_ ?_ (not_lt.1 hrun) ?_
      · refine hdatac.trans (congrArg (content.drop) ?_)
        show _ = 9 + (l.consumed + 5 + nameSize + tmp % 2 ^ 31)
        omega
      · show l.ncut + 5 + nameSize + tmp % 2 ^ 31 = ncut + 9 + (l.consumed + 5 + nameSize + tmp % 2 ^ 31)
        omega
      · show dataSize < l.consumed + 5 + nameSize + tmp % 2 ^ 31 + n
        omega

end

/-- **`CutRecord` does what `parse` says** of the bytes there are. -/
theorem cutRecord_agrees (h : cutter.Fresh) (ncut : ℕ) :
    (cutRecord maxSize cutter ncut).Agrees ncut cutter.content (parse maxSize cutter.content) := by
  obtain ⟨hcopy, hcontent, hfresh⟩ := copyTo_spec h 9
  obtain ⟨hpop, hpopped⟩ := popFront_spec hfresh 9
  rw [cutRecord, parse, hcopy, remainingBytes_eq, hcontent]
  rw [hcontent] at hpop
  have hwait : CutRecord.Agrees ⟨.notEnoughData, (cutter.copyTo 9).2, ncut, false⟩ ncut
      cutter.content .wait := ⟨rfl, rfl, hfresh, hcontent, rfl⟩
  have hbad : CutRecord.Agrees ⟨.bad, (cutter.copyTo 9).2, ncut, false⟩ ncut
      cutter.content (.bad 0) := ⟨rfl, rfl, hfresh, hcontent, rfl, Nat.zero_le _⟩
  by_cases hnine : cutter.content.length < 9
  · rw [if_pos hnine, if_pos (by rw [length_take]; omega)]
    exact hwait
  rw [if_neg hnine, if_neg (by rw [length_take]; omega)]
  have hfour : (cutter.content.take 9).take 4 = cutter.content.take 4 := by
    rw [take_take]
    rfl
  have htmp : unpack32 ((cutter.content.take 9).drop 4) = unpack32 (cutter.content.drop 4) := by
    rw [drop_take, unpack32_take (by decide) (by rw [length_drop]; omega)]
  have hsum : (cutter.content.take 9)[8]? = cutter.content[8]? := getElem?_take_of_lt (by decide)
  rw [hfour, htmp, hsum]
  dsimp only
  generalize unpack32 (cutter.content.drop 4) = tmp
  split_ifs with hmagic hcrc hmax hdata
  · exact hbad
  · exact hbad
  · exact hbad
  · exact hwait
  exact cutMetas_agrees (l := ⟨(cutter.copyTo 9).2.popFront 9, ncut + 9, ⟨[], []⟩, 0, tmp, false⟩) hpopped rfl hpop rfl
    (not_lt.1 hdata) (Nat.zero_le _) (by change _ < 0 + _; omega)

theorem CutRecord.Agrees.offset {out : CutRecord} {p : Parsed} (h : out.Agrees ncut content p)
    (hshort : out.short = false) :
    out.cutter.Fresh ∧ out.ncut + out.cutter.content.length = ncut + content.length := by
  cases p with
  | short => cases hshort.symm.trans h
  | wait =>
    obtain ⟨-, -, hfresh, hcontent, hncut⟩ := h
    exact ⟨hfresh, by rw [hcontent, hncut]⟩
  | bad =>
    obtain ⟨-, -, hfresh, hcontent, hncut, hle⟩ := h
    exact ⟨hfresh, by rw [hcontent, hncut, length_drop]; omega⟩
  | ok =>
    obtain ⟨-, -, hfresh, hcontent, hncut, hle, -⟩ := h
    exact ⟨hfresh, by rw [hcontent, hncut, length_drop]; omega⟩

/-! ## `CutUntilNextRecordCandidate` -/

variable {bs : Bytes}

theorem length_of_take_eq_magic (h : bs.take 4 = magic) : 4 ≤ bs.length := by
  have hlen := congrArg List.length h
  rw [length_take] at hlen
  change min 4 bs.length = 4 at hlen
  omega

theorem findMagic_le {i : ℕ} (h : findMagic bs = some i) : i + 4 ≤ bs.length := by
  induction bs generalizing i with
  | nil => cases h
  | cons b bs ih =>
    rw [findMagic] at h
    split_ifs at h with hhere
    · cases h
      exact length_of_take_eq_magic hhere
    · rw [map_eq_some_iff] at h
      obtain ⟨j, hj, rfl⟩ := h
      have := ih hj
      rw [length_cons]
      omega

theorem findMagic_append {i : ℕ} (h : findMagic bs = some i) (more : Bytes) :
    findMagic (bs ++ more) = some i := by
  induction bs generalizing i with
  | nil => cases h
  | cons b bs ih =>
    have hle := findMagic_le h
    have htake : (b :: (bs ++ more)).take 4 = (b :: bs).take 4 := by
      rw [← cons_append, take_append_of_le_length (by omega)]
    rw [findMagic] at h
    rw [cons_append, findMagic, htake]
    by_cases hhere : (b :: bs).take 4 = magic
    · rw [if_pos hhere] at h ⊢
      exact h
    · rw [if_neg hhere, map_eq_some_iff] at h
      obtain ⟨j, hj, rfl⟩ := h
      rw [if_neg hhere, ih hj]
      rfl

theorem findMagic_drop {k : ℕ} (h : findMagic (bs.take (k + 3)) = none) :
    findMagic bs = (findMagic (bs.drop k)).map (· + k) := by
  induction k generalizing bs with
  | zero =>
    rw [drop_zero]
    cases findMagic bs <;> rfl
  | succ k ih =>
    cases bs with
    | nil => rfl
    | cons b bs =>
      rw [show k + 1 + 3 = k + 3 + 1 by omega, take_succ_cons, findMagic] at h
      have htake : (b :: bs.take (k + 3)).take 4 = (b :: bs).take 4 := by
        rw [← take_succ_cons, take_take, Nat.min_eq_left (by omega)]
      rw [htake] at h
      by_cases hhere : (b :: bs).take 4 = magic
      · rw [if_pos hhere] at h
        cases h
      · rw [if_neg hhere, map_eq_none_iff] at h
        rw [findMagic, if_neg hhere, ih h, drop_succ_cons, Option.map_map]
        rfl

theorem findMagic_eq_none (h : bs.length < 4) : findMagic bs = none := by
  rw [eq_none_iff_forall_ne_some]
  intro i hi
  have := findMagic_le hi
  omega

/-- The bytes that are cut off while the magic is looked for: all before it, or all but
the last three. -/
def scanned (bs : Bytes) : ℕ := (findMagic bs).getD (bs.length - 3)

theorem scanned_le (bs : Bytes) : scanned bs ≤ bs.length := by
  rw [scanned]
  cases h : findMagic bs with
  | none => exact Nat.sub_le _ _
  | some i =>
    have := findMagic_le h
    show i ≤ bs.length
    omega

theorem scanned_drop {k : ℕ} (h : findMagic (bs.take (k + 3)) = none)
    (hk : k + 3 ≤ bs.length) : scanned bs = k + scanned (bs.drop k) := by
  rw [scanned, scanned, findMagic_drop h]
  cases findMagic (bs.drop k) with
  | none =>
    show bs.length - 3 = k + ((bs.drop k).length - 3)
    rw [length_drop]
    omega
  | some i => exact Nat.add_comm i k

theorem scanWindows_spec {n : ℕ} (h : cutter.Fresh) (hn : cutter.content.length < n) (ncut : ℕ) :
    let out := scanWindows n cutter ncut
    out.1 = (findMagic cutter.content).isSome ∧ out.2.1.Fresh ∧
      out.2.1.content = cutter.content.drop (scanned cutter.content) ∧
      out.2.2 = ncut + scanned cutter.content := by
  induction n generalizing cutter ncut with
  | zero => exact absurd hn (Nat.not_lt_zero _)
  | succ n ih =>
    obtain ⟨hcopy, hcontent, hfresh⟩ := copyTo_spec h 512
    rw [scanWindows, hcopy]
    dsimp only
    rw [length_take]
    by_cases hfour : min 512 cutter.content.length < 4
    · have hnone := @findMagic_eq_none cutter.content (by omega)
      have hzero : scanned cutter.content = 0 := by
        rw [scanned, hnone]
        show cutter.content.length - 3 = 0
        omega
      rw [if_pos hfour, hnone, hzero]
      exact ⟨rfl, hfresh, hcontent, rfl⟩
    rw [if_neg hfour]
    cases hfind : findMagic (cutter.content.take 512) with
    | some i =>
      have hall := findMagic_append hfind (cutter.content.drop 512)
      rw [take_append_drop] at hall
      have hi : scanned cutter.content = i := by rw [scanned, hall]; rfl
      obtain ⟨hpop, hpopped⟩ := popFront_spec hfresh i
      rw [hall, hi]
      exact ⟨rfl, hpopped, by rw [← hcontent]; exact hpop, rfl⟩
    | none =>
      dsimp only
      split_ifs with hlast
      · obtain ⟨hpop, hpopped⟩ := popFront_spec hfresh (cutter.content.length + 1 - 4)
        rw [take_of_length_le (by omega)] at hfind
        have hsc : scanned cutter.content = cutter.content.length + 1 - 4 := by rw [scanned, hfind]; rfl
        rw [hcontent] at hpop
        rw [Nat.min_eq_right (by omega), hfind, hsc]
        exact ⟨rfl, hpopped, hpop, rfl⟩
      · obtain ⟨hpop, hpopped⟩ := popFront_spec hfresh 509
        have hdrop := @findMagic_drop cutter.content 509 hfind
        have hsc := @scanned_drop cutter.content 509 hfind (by omega)
        rw [hcontent] at hpop
        rw [Nat.min_eq_left (by omega)]
        obtain ⟨hfound, hfresh', hcontent', hncut⟩ := @ih ((cutter.copyTo 512).2.popFront 509) hpopped
          (by rw [hpop, length_drop]; omega) (ncut + 509)
        rw [hpop] at hfound hcontent' hncut
        refine ⟨?_, hfresh', ?_, ?_⟩
        · rw [hdrop, isSome_map]
          exact hfound
        · rw [hsc, ← drop_drop]
          exact hcontent'
        · rw [hsc, ← Nat.add_assoc]
          exact hncut

/-- What is scanned: a magic at the head is skipped. -/
def skipMagic (bs : Bytes) : Bytes := if bs.take 4 = magic then bs.drop 4 else bs

/-- **`CutUntilNextRecordCandidate` goes to the first magic** behind one at the head, or
keeps three bytes. -/
theorem cutUntilNextRecordCandidate_spec (h : cutter.Fresh) (ncut : ℕ) :
    let out := cutUntilNextRecordCandidate cutter ncut
    let bs := skipMagic cutter.content
    out.2.1.Fresh ∧
      (cutter.content.length < 4 ∧ out.1 = .tooShort ∧ out.2.1.content = cutter.content ∧ out.2.2 = ncut ∨
        4 ≤ cutter.content.length ∧
          out.1 = (if (findMagic bs).isSome then Scan.found else .notFound) ∧
          out.2.1.content = bs.drop (scanned bs) ∧
          out.2.2 + (bs.length - scanned bs) = ncut + cutter.content.length) := by
  obtain ⟨hcopy, hcontent, hfresh⟩ := copyTo_spec h 4
  rw [cutUntilNextRecordCandidate, hcopy]
  dsimp only
  by_cases hfour : cutter.content.length < 4
  · rw [if_pos (by rw [length_take]; omega)]
    exact ⟨hfresh, Or.inl ⟨hfour, rfl, hcontent, rfl⟩⟩
  rw [if_neg (by rw [length_take]; omega)]
  generalize hskip : (if cutter.content.take 4 = magic then 4 else 0) = skip
  have hbs : cutter.content.drop skip = skipMagic cutter.content := by
    rw [skipMagic, ← hskip]
    split_ifs <;> rfl
  have hle : skip ≤ cutter.content.length := by
    rw [← hskip]
    split_ifs <;> omega
  obtain ⟨hpop, hpopped⟩ := popFront_spec hfresh skip
  rw [hcontent, hbs] at hpop
  have hlen : (skipMagic cutter.content).length = cutter.content.length - skip := by
    rw [← hbs, length_drop]
  obtain ⟨hfound, hfresh', hcontent', hncut⟩ := @scanWindows_spec ((cutter.copyTo 4).2.popFront skip)
    ((cutter.copyTo 4).2.remainingBytes + 1) hpopped
    (by rw [hpop, remainingBytes_eq, hcontent]; omega) (ncut + skip)
  rw [hpop] at hfound hcontent' hncut
  have hscan := scanned_le (skipMagic cutter.content)
  refine ⟨hfresh', Or.inr ⟨not_lt.1 hfour, by rw [hfound], hcontent', ?_⟩⟩
  rw [hncut]
  omega

end Brpc.Recordio
