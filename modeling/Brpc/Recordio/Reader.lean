/-
# The reader on the bytes that have arrived

`ReadNext` of `butil/recordio.cc` as a machine on bytes.  As long as no read extends the
reference that the cutter has loaded, `offset()` is the number of bytes cut off (`Ok`), and each
step is a `RecordMove`, a `ScanMove` or a read.
-/

import Brpc.Recordio.Agree

namespace Brpc.Recordio

open List
open Messenger (Bytes unpack32)

namespace Reader

/-- The bytes that have arrived and not been cut off. -/
def content (s : Reader) : Bytes := s.cutter.content

/-- The cutter sees all that has arrived, and `offset()` is the number of bytes cut off. -/
structure Ok (s : Reader) : Prop where
  fresh : s.cutter.Fresh
  offset : s.ncut + s.content.length = s.received.length

variable {s : Reader} {maxSize : ℕ}

theorem ok_init : init.Ok := ⟨Cutter.fresh_init, rfl⟩

theorem received_call (s : Reader) (maxSize : ℕ) : (s.step maxSize .call).received = s.received := by
  rw [step]
  split_ifs
  · rfl
  · rw [callRecord]
    cases (cutRecord maxSize s.cutter s.ncut).rc <;> rfl
  · rw [callScan]
    cases (cutUntilNextRecordCandidate s.cutter s.ncut).1 <;> rfl

theorem run_calls_of_waiting (h : s.waiting = true) (n : ℕ) :
    Lib.run (step maxSize) s (List.replicate n .call) = s := by
  induction n with
  | zero => rfl
  | succ n ih =>
    have hone : s.step maxSize .call = s := by rw [step, if_pos h]
    rw [replicate_succ, Lib.run_cons, hone]
    exact ih

/-- The changes a call of `CutRecord` can make, with the bytes of meta headers there. -/
inductive RecordMove (maxSize : ℕ) (s s' : Reader) : Prop
  | wait (parsed : parse maxSize s.content = .wait) (waiting : s'.waiting = true)
      (phase : s'.phase = s.phase) (content : s'.content = s.content) (records : s'.records = s.records)
  | bad (n : ℕ) (parsed : parse maxSize s.content = .bad n) (bound : n ≤ s.content.length)
      (waiting : s'.waiting = s.waiting) (phase : s'.phase = .candidate)
      (content : s'.content = s.content.drop n) (records : s'.records = s.records)
  | ok (record : Record) (n : ℕ) (parsed : parse maxSize s.content = .ok record n) (size : 9 ≤ n)
      (bound : n ≤ s.content.length) (waiting : s'.waiting = s.waiting) (phase : s'.phase = s.phase)
      (content : s'.content = s.content.drop n) (records : s'.records = s.records ++ [record])

theorem callRecord_move (h : s.Ok) (hshort : (cutRecord maxSize s.cutter s.ncut).short = false) :
    (s.callRecord maxSize).Ok ∧ (s.callRecord maxSize).received = s.received ∧
      RecordMove maxSize s (s.callRecord maxSize) := by
  have hagrees := @cutRecord_agrees maxSize s.cutter h.fresh s.ncut
  obtain ⟨hfresh, hncut⟩ := hagrees.offset hshort
  have hok := hncut.trans h.offset
  rw [callRecord]
  cases hparse : parse maxSize s.cutter.content with
  | short =>
    rw [hparse] at hagrees
    cases hshort.symm.trans hagrees
  | wait =>
    rw [hparse] at hagrees
    obtain ⟨-, hrc, -, hcontent, -⟩ := hagrees
    rw [hrc]
    exact ⟨⟨hfresh, hok⟩, rfl, .wait hparse rfl rfl hcontent rfl⟩
  | bad n =>
    rw [hparse] at hagrees
    obtain ⟨-, hrc, -, hcontent, -, hle⟩ := hagrees
    rw [hrc]
    exact ⟨⟨hfresh, hok⟩, rfl, .bad n hparse hle rfl rfl hcontent rfl⟩
  | ok record n =>
    rw [hparse] at hagrees
    obtain ⟨-, hrc, -, hcontent, -, hle, hnine⟩ := hagrees
    rw [hrc]
    exact ⟨⟨hfresh, hok⟩, rfl, .ok record n hparse hnine hle rfl rfl hcontent rfl⟩

/-- The changes a call of `CutUntilNextRecordCandidate` can make. -/
inductive ScanMove (s s' : Reader) : Prop
  | tooShort (short : s.content.length < 4) (waiting : s'.waiting = true)
      (phase : s'.phase = s.phase) (content : s'.content = s.content)
  | found (i : ℕ) (long : 4 ≤ s.content.length) (here : findMagic (skipMagic s.content) = some i)
      (waiting : s'.waiting = s.waiting) (phase : s'.phase = .record)
      (content : s'.content = (skipMagic s.content).drop i)
  | notFound (long : 4 ≤ s.content.length) (nowhere : findMagic (skipMagic s.content) = none)
      (waiting : s'.waiting = true) (phase : s'.phase = .rescan)
      (content : s'.content = (skipMagic s.content).drop ((skipMagic s.content).length - 3))

theorem callScan_move (h : s.Ok) :
    s.callScan.Ok ∧ s.callScan.received = s.received ∧ s.callScan.records = s.records ∧ ScanMove s s.callScan := by
  obtain ⟨hfresh, hout⟩ := cutUntilNextRecordCandidate_spec h.fresh s.ncut
  have hoffset := h.offset
  rw [content] at hoffset
  rw [callScan]
  generalize cutUntilNextRecordCandidate s.cutter s.ncut = out at *
  rcases hout with ⟨hfour, hscanned, hcontent, hncut⟩ | ⟨hfour, hscanned, hcontent, hncut⟩
  · rw [hscanned]
    refine ⟨⟨hfresh, ?_⟩, rfl, rfl, .tooShort hfour rfl rfl hcontent⟩
    show out.2.2 + out.2.1.content.length = _
    rw [hcontent, hncut, hoffset]
  · have hoff : out.2.2 + out.2.1.content.length = s.received.length := by
      rw [hcontent, length_drop, hncut, hoffset]
    cases hfind : findMagic (skipMagic s.cutter.content) with
    | none =>
      rw [scanned, hfind] at hcontent
      rw [hscanned, hfind]
      exact ⟨⟨hfresh, hoff⟩, rfl, rfl, .notFound hfour hfind rfl rfl hcontent⟩
    | some i =>
      rw [scanned, hfind] at hcontent
      rw [hscanned, hfind]
      exact ⟨⟨hfresh, hoff⟩, rfl, rfl, .found i hfour hfind rfl rfl hcontent⟩

theorem read_move (h : s.Ok) {acquired : List Block} {data : Bytes} (hwaiting : s.waiting = true)
    (hpossible : s.Possible (.read acquired data)) (hfits : s.ReadFits (.read acquired data)) :
    (s.step maxSize (.read acquired data)).Ok ∧ (s.step maxSize (.read acquired data)).content = s.content ++ data ∧
      (s.step maxSize (.read acquired data)).received = s.received ++ data := by
  obtain ⟨hcontent, hfresh⟩ := Cutter.appendFromReader_spec h.fresh hpossible hfits
  have hoffset := h.offset
  rw [content] at hoffset
  rw [step, if_pos hwaiting]
  refine ⟨⟨hfresh, ?_⟩, hcontent, rfl⟩
  show s.ncut + (s.cutter.appendFromReader acquired data).content.length = _
  rw [hcontent, length_append, length_append]
  omega

/-! ### The offset -/

/-- The turns of the loop over the metas; each has a `CHECK` that there is a byte. -/
def turns (dataSize : ℕ) : ℕ → MetaLoop → List MetaLoop
  | 0, _ => []
  | n + 1, l =>
    if l.hasMeta then l :: ((cutMeta dataSize l).toOption.map (turns dataSize n)).getD [] else []

theorem turns_checked {dataSize n : ℕ} {l : MetaLoop}
    (h : (cutPayload dataSize (cutMetas dataSize n l)).short = false) :
    ∀ l' ∈ turns dataSize n l, l'.cutter.cut1.1 ≠ none := by
  induction n generalizing l with
  | zero => exact forall_mem_nil _
  | succ n ih =>
    rw [turns]
    split_ifs with hmore
    · refine forall_mem_cons.2 ⟨fun hnone => ?_, ?_⟩
      · cases h.symm.trans (cutMetas_next (cutMetas_short n) hmore (cutMeta_short (.inr (.inl hnone))))
      · cases heq : cutMeta dataSize l with
        | error l' => exact forall_mem_nil _
        | ok l' =>
          rw [cutMetas, Lib.whileLoop_ok hmore heq] at h
          exact ih h
    · exact forall_mem_nil _

/-- No `CHECK` of a call of `CutRecord` fails; its tests of the head are those before the loop. -/
def Checked (maxSize : ℕ) (s : Reader) : Prop :=
  let head := s.cutter.copyTo 9
  let tmp := unpack32 (head.1.drop 4)
  head.1.length = 9 → head.1.take 4 = magic → some (sizeChecksum tmp) = head.1[8]? → tmp % 2 ^ 31 ≤ maxSize →
    tmp % 2 ^ 31 + 9 ≤ head.2.remainingBytes →
    ∀ l ∈ turns (tmp % 2 ^ 31) (tmp % 2 ^ 31 + 1) ⟨head.2.popFront 9, s.ncut + 9, ⟨[], []⟩, 0, tmp, false⟩,
      l.cutter.cut1.1 ≠ none

theorem checked_of_short (h : (cutRecord maxSize s.cutter s.ncut).short = false) : s.Checked maxSize := by
  intro hnine hmagic hcrc hmax hdata
  rw [cutRecord, if_neg (not_not.2 hnine), if_neg (not_not.2 hmagic)] at h
  rw [if_neg (not_not.2 hcrc), if_neg (not_lt.2 hmax), if_neg (not_lt.2 hdata)] at h
  exact turns_checked h

/-- A step in which no header of a meta runs over what has arrived, and no read extends the reference that the cutter
has loaded. -/
def Whole (maxSize : ℕ) (s : Reader) : Input → Prop
  | .call => s.waiting = false → s.phase = .record → parse maxSize s.content ≠ .short
  | .read acquired data => s.Possible (.read acquired data) ∧ s.ReadFits (.read acquired data)

theorem Ok.short (h : s.Ok) (hparse : parse maxSize s.content ≠ .short) :
    (cutRecord maxSize s.cutter s.ncut).short = false := by
  have hagrees := @cutRecord_agrees maxSize s.cutter h.fresh s.ncut
  cases hp : parse maxSize s.cutter.content with
  | short => exact absurd hp hparse
  | wait | bad | ok =>
    rw [hp] at hagrees
    exact hagrees.1

theorem Ok.step (h : s.Ok) {i : Input} (hi : s.Whole maxSize i) : (s.step maxSize i).Ok := by
  cases i with
  | call =>
    rw [Reader.step]
    split_ifs with hwaiting hphase
    · exact h
    · exact (callRecord_move h (h.short (hi (Bool.eq_false_iff.2 hwaiting) hphase))).1
    · exact (callScan_move h).1
  | read =>
    by_cases hwaiting : s.waiting = true
    · exact (read_move h hwaiting hi.1 hi.2).1
    · rw [Reader.step, if_neg hwaiting]
      exact h

/-- **The reader knows its offset**, and no `CHECK` of the call that follows fails, after every run whose steps meet
the condition. -/
theorem offset_known (is : List Input) (h : Lib.Along (step maxSize) (Whole maxSize) init is) :
    let s := Lib.run (step maxSize) init is
    s.ncut + s.content.length = s.received.length ∧
      (s.Whole maxSize .call → s.waiting = false → s.phase = .record → s.Checked maxSize) := by
  have hok := Lib.run_invariant (I := Ok) (fun _ _ hs hi => hs.step hi) is init ok_init h
  exact ⟨hok.offset, fun hcall hwaiting hphase => checked_of_short (hok.short (hcall hwaiting hphase))⟩

/-- A record with a meta of one byte, read at once. -/
def oneMeta : List Input :=
  [.call, .read [⟨0, 0, 8160⟩] (writeWithoutFlush [] ⟨[⟨[1], [2]⟩], [3]⟩).2, .call]

theorem oneMeta_offset :
    let s := Lib.run (step 100) init oneMeta
    s.ncut + s.content.length = s.received.length := by
  refine (offset_known oneMeta ⟨fun _ _ => by decide, ⟨⟨by decide, by decide, by decide⟩, ?_⟩,
    fun _ _ => by decide, trivial⟩).1
  rintro ⟨hcached, -⟩
  cases hcached

/-- **A `CHECK` fails and the offset is wrong**: the head says that there is a meta, and that nothing follows. -/
theorem header_missing :
    let s := Lib.run (step 100) init
      [.call, .read [⟨0, 0, 8160⟩] (magic ++ [128, 0, 0, 0] ++ [sizeChecksum (2 ^ 31)])]
    ¬ s.Checked 100 ∧ (s.step 100 .call).ncut = 14 ∧ (s.step 100 .call).content = [] ∧
      (s.step 100 .call).received.length = 9 := by
  refine ⟨fun h => ?_, by decide, by decide, by decide⟩
  have hturns := h (by decide) (by decide) (by decide) (by decide) (by decide)
  rw [turns, if_pos (by decide)] at hturns
  exact hturns _ mem_cons_self (by decide)

end Reader
end Brpc.Recordio
