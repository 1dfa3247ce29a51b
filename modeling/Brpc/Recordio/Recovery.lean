/-
# What the reader returns

What `ReadNext` of `butil/recordio.cc` returns is a function of the bytes delivered, however they
are cut into reads (`run_yields`, `recovery`), as long as each step meets `Fits`.
-/

import Brpc.Recordio.Reader
import Brpc.Recordio.Encode

namespace Brpc.Recordio

open List
open Messenger (Bytes)

/-! ## What the bytes yield -/

/-- The records that `ReadNext` finds in the bytes from a phase on, all being there. -/
inductive Yields (maxSize : ℕ) : Phase → Bytes → List Record → Prop
  | wait {bs} : parse maxSize bs = .wait → Yields maxSize .record bs []
  | ok {bs record n rs} : parse maxSize bs = .ok record n →
      Yields maxSize .record (bs.drop n) rs → Yields maxSize .record bs (record :: rs)
  | bad {bs n rs} : parse maxSize bs = .bad n → Yields maxSize .candidate (bs.drop n) rs → Yields maxSize .record bs rs
  | tooShort {bs} : bs.length < 4 → Yields maxSize .candidate bs []
  | skip {bs rs} : 4 ≤ bs.length → Yields maxSize .rescan (skipMagic bs) rs → Yields maxSize .candidate bs rs
  | notFound {bs} : findMagic bs = none → Yields maxSize .rescan bs []
  | found {bs i rs} : findMagic bs = some i → Yields maxSize .record (bs.drop i) rs → Yields maxSize .rescan bs rs

variable {maxSize : ℕ} {bs : Bytes} {rs : List Record}

/-- **The bytes determine the records.** -/
theorem Yields.unique {phase : Phase} {rs' : List Record} (h : Yields maxSize phase bs rs)
    (h' : Yields maxSize phase bs rs') : rs = rs' := by
  induction h generalizing rs' with
  | wait hparse =>
    cases h' with
    | wait => rfl
    | ok hparse' | bad hparse' => cases hparse.symm.trans hparse'
  | ok hparse _ ih =>
    cases h' with
    | wait hparse' | bad hparse' => cases hparse.symm.trans hparse'
    | ok hparse' hrest =>
      cases hparse.symm.trans hparse'
      rw [ih hrest]
  | bad hparse _ ih =>
    cases h' with
    | wait hparse' | ok hparse' => cases hparse.symm.trans hparse'
    | bad hparse' hrest =>
      cases hparse.symm.trans hparse'
      exact ih hrest
  | tooShort =>
    cases h' with
    | tooShort => rfl
    | skip => omega
  | skip hlen _ ih =>
    cases h' with
    | tooShort => omega
    | skip _ hrest => exact ih hrest
  | notFound hnone =>
    cases h' with
    | notFound => rfl
    | found hsome => cases hnone.symm.trans hsome
  | found hsome _ ih =>
    cases h' with
    | notFound hnone => cases hsome.symm.trans hnone
    | found hsome' hrest =>
      cases hsome.symm.trans hsome'
      exact ih hrest

theorem skipMagic_append (h : 4 ≤ bs.length) (more : Bytes) : skipMagic (bs ++ more) = skipMagic bs ++ more := by
  rw [skipMagic, skipMagic, take_append_of_le_length h]
  split_ifs
  · rw [drop_append_of_le_length h]
  · rfl

theorem Yields.scanned {k : ℕ} (h : Yields maxSize .rescan (bs.drop k) rs)
    (hnone : findMagic (bs.take (k + 3)) = none) : Yields maxSize .rescan bs rs := by
  have hfind := findMagic_drop hnone
  cases h with
  | notFound hrest =>
    rw [hrest] at hfind
    exact .notFound hfind
  | found hrest hnext =>
    rw [hrest] at hfind
    refine .found hfind ?_
    rw [drop_drop, Nat.add_comm k] at hnext
    exact hnext

theorem Yields.rescan_of_notFound {more : Bytes} (hnone : findMagic bs = none)
    (h : Yields maxSize .rescan (bs.drop (bs.length - 3) ++ more) rs) :
    Yields maxSize .rescan (bs ++ more) rs := by
  rcases Nat.lt_or_ge bs.length 3 with hlt | hge
  · rw [Nat.sub_eq_zero_of_le (by omega)] at h
    exact h
  · rw [← drop_append_of_le_length (Nat.sub_le _ _)] at h
    refine h.scanned ?_
    rw [Nat.sub_add_cancel hge, take_left]
    exact hnone

theorem take_of_findMagic_zero (h : findMagic bs = some 0) : bs.take 4 = magic := by
  cases bs with
  | nil => cases h
  | cons =>
    rw [findMagic] at h
    split_ifs at h with hhere
    · exact hhere
    · rw [Option.map_eq_some_iff] at h
      obtain ⟨i, -, hi⟩ := h
      exact absurd hi (Nat.succ_ne_zero i)

/-! ## What the reader returns -/

namespace Reader

variable {s : Reader}

/-- The steps that do not depend on where a read ends. -/
def Fits (maxSize : ℕ) (s : Reader) : Input → Prop
  | .call => s.waiting = false →
      (s.phase = .record → parse maxSize s.content ≠ .short) ∧
      (s.phase = .rescan → s.content.take 4 ≠ magic)
  | .read acquired data => s.Possible (.read acquired data) ∧ s.ReadFits (.read acquired data)

/-- What has been returned and what the bytes in the buffer will yield is what all bytes
yield. -/
structure Follows (maxSize : ℕ) (s : Reader) : Prop where
  ok : s.Ok
  yields : ∀ more rs, Yields maxSize s.phase (s.content ++ more) rs →
    Yields maxSize .record (s.received ++ more) (s.records ++ rs)
  waits : s.waiting = true → Yields maxSize s.phase s.content []

theorem follows_init : Follows maxSize init := ⟨ok_init, fun _ _ h => h, by rintro ⟨⟩⟩

theorem Follows.callRecord (h : Follows maxSize s) (hphase : s.phase = .record)
    (hwaiting : s.waiting = false) (hparse : parse maxSize s.content ≠ .short) :
    Follows maxSize (s.callRecord maxSize) := by
  obtain ⟨hok, hreceived, hmove⟩ := callRecord_move h.ok (h.ok.short hparse)
  have hyields := h.yields
  rw [hphase] at hyields
  cases hmove with
  | wait hparse _ hphase' hcontent hrecords =>
    refine ⟨hok, fun more rs hrs => ?_, fun _ => ?_⟩
    · rw [hphase', hphase, hcontent] at hrs
      rw [hreceived, hrecords]
      exact hyields more rs hrs
    · rw [hphase', hphase, hcontent]
      exact .wait hparse
  | bad n hparse hbound hwaiting' hphase' hcontent hrecords =>
    refine ⟨hok, fun more rs hrs => ?_, fun hw => ?_⟩
    · rw [hphase', hcontent, ← drop_append_of_le_length hbound] at hrs
      rw [hreceived, hrecords]
      exact hyields more rs (.bad (parse_append hparse (by rintro ⟨⟩) (by rintro ⟨⟩) more) hrs)
    · rw [hwaiting', hwaiting] at hw
      cases hw
  | ok record n hparse _ hbound hwaiting' hphase' hcontent hrecords =>
    refine ⟨hok, fun more rs hrs => ?_, fun hw => ?_⟩
    · rw [hphase', hphase, hcontent, ← drop_append_of_le_length hbound] at hrs
      rw [hreceived, hrecords, append_assoc]
      exact hyields more (record :: rs) (.ok (parse_append hparse (by rintro ⟨⟩) (by rintro ⟨⟩) more) hrs)
    · rw [hwaiting', hwaiting] at hw
      cases hw

theorem Follows.callScan (h : Follows maxSize s) (hphase : s.phase ≠ .record)
    (hwaiting : s.waiting = false) (hmagic : s.phase = .rescan → s.content.take 4 ≠ magic) :
    Follows maxSize s.callScan := by
  obtain ⟨hok, hreceived, hrecords, hmove⟩ := callScan_move h.ok
  -- what is scanned from here on is what the bytes yield in the phase there is
  have hskip : 4 ≤ s.content.length → ∀ more rs, Yields maxSize .rescan (skipMagic s.content ++ more) rs →
      Yields maxSize s.phase (s.content ++ more) rs := by
    intro hlong more rs hrs
    cases hp : s.phase with
    | record => exact absurd hp hphase
    | candidate =>
      refine .skip (by rw [length_append]; omega) ?_
      rw [skipMagic_append hlong]
      exact hrs
    | rescan =>
      rw [skipMagic, if_neg (hmagic hp)] at hrs
      exact hrs
  cases hmove with
  | tooShort hlen _ hphase' hcontent =>
    refine ⟨hok, fun more rs hrs => ?_, fun _ => ?_⟩
    · rw [hphase', hcontent] at hrs
      rw [hreceived, hrecords]
      exact h.yields more rs hrs
    · rw [hphase', hcontent]
      cases hp : s.phase with
      | record => exact absurd hp hphase
      | candidate => exact .tooShort hlen
      | rescan => exact .notFound (findMagic_eq_none hlen)
  | found i hlong hfind hwaiting' hphase' hcontent =>
    have hle := findMagic_le hfind
    refine ⟨hok, fun more rs hrs => ?_, fun hw => ?_⟩
    · rw [hphase', hcontent, ← drop_append_of_le_length (by omega)] at hrs
      rw [hreceived, hrecords]
      exact h.yields more rs (hskip hlong more rs (.found (findMagic_append hfind more) hrs))
    · rw [hwaiting', hwaiting] at hw
      cases hw
  | notFound hlong hnone _ hphase' hcontent =>
    refine ⟨hok, fun more rs hrs => ?_, fun _ => ?_⟩
    · rw [hphase', hcontent] at hrs
      rw [hreceived, hrecords]
      exact h.yields more rs (hskip hlong more rs (.rescan_of_notFound hnone hrs))
    · rw [hphase', hcontent]
      exact .notFound (findMagic_eq_none (by rw [length_drop]; omega))

theorem Follows.step (h : Follows maxSize s) {i : Input} (hfits : s.Fits maxSize i) :
    Follows maxSize (s.step maxSize i) := by
  cases hwaiting : s.waiting with
  | true =>
    cases i with
    | call =>
      rw [Reader.step, if_pos hwaiting]
      exact h
    | read acquired data =>
      obtain ⟨hok, hcontent, hreceived⟩ := @read_move s maxSize h.ok acquired data hwaiting hfits.1 hfits.2
      rw [Reader.step, if_pos hwaiting] at *
      refine ⟨hok, fun more rs hrs => ?_, fun hw => ?_⟩
      · rw [hcontent, append_assoc] at hrs
        rw [hreceived, append_assoc]
        exact h.yields _ rs hrs
      · cases hw
  | false =>
    have hnot : ¬ s.waiting = true := by rw [hwaiting]; decide
    cases i with
    | read =>
      rw [Reader.step, if_neg hnot]
      exact h
    | call =>
      obtain ⟨hshort, hmagic⟩ := hfits hwaiting
      rw [Reader.step, if_neg hnot]
      split_ifs with hphase
      · exact h.callRecord hphase hwaiting (hshort hphase)
      · exact h.callScan hphase hwaiting hmagic

theorem run_follows (is : List Input) (h : Lib.Along (step maxSize) (Fits maxSize) init is) :
    Follows maxSize (Lib.run (step maxSize) init is) :=
  Lib.run_invariant (I := Follows maxSize) (fun _ _ hs hfits => hs.step hfits) is init follows_init h

/-- **What a reader that waits has returned is what the bytes delivered yield.** -/
theorem run_yields (is : List Input) (h : Lib.Along (step maxSize) (Fits maxSize) init is)
    (hwaiting : (Lib.run (step maxSize) init is).waiting = true) :
    Yields maxSize .record (Lib.run (step maxSize) init is).received (Lib.run (step maxSize) init is).records := by
  have hfollows := run_follows is h
  have hall := hfollows.yields [] [] (by rw [append_nil]; exact hfollows.waits hwaiting)
  rw [append_nil, append_nil] at hall
  exact hall

end Reader

open Reader

variable {maxSize : ℕ} {rs : List Record}

namespace Reader

variable {s : Reader}

/-! ## The reader gets to wait -/

/-- What is left to do before the next read. -/
def toDo (s : Reader) : ℕ := 2 * s.content.length + if s.phase = .record then 1 else 0

theorem call_progress (h : s.Ok) (hwaiting : s.waiting = false) (hfits : s.Fits maxSize .call) :
    (s.step maxSize .call).Ok ∧ ((s.step maxSize .call).waiting = true ∨ (s.step maxSize .call).toDo < s.toDo) := by
  have hnot : ¬ s.waiting = true := by rw [hwaiting]; decide
  rw [step, if_neg hnot]
  split_ifs with hphase
  · obtain ⟨hok, -, hmove⟩ := callRecord_move h (h.short ((hfits hwaiting).1 hphase))
    refine ⟨hok, ?_⟩
    cases hmove with
    | wait _ hwaits => exact .inl hwaits
    | bad n _ _ _ hphase' hcontent =>
      refine .inr ?_
      rw [toDo, toDo, hphase', if_neg (by decide), hphase, if_pos rfl, hcontent, length_drop]
      omega
    | ok record n _ hnine hbound _ hphase' hcontent =>
      refine .inr ?_
      rw [toDo, toDo, hphase', hcontent, length_drop]
      omega
  · obtain ⟨hok, -, -, hmove⟩ := callScan_move h
    refine ⟨hok, ?_⟩
    cases hmove with
    | tooShort _ hwaits | notFound _ _ hwaits => exact .inl hwaits
    | found i hlong hfind _ hphase' hcontent =>
      have hshrinks : ((skipMagic s.content).drop i).length < s.content.length := by
        rw [length_drop]
        by_cases hmagic : s.content.take 4 = magic
        · rw [skipMagic, if_pos hmagic, length_drop]
          omega
        · rw [skipMagic, if_neg hmagic] at hfind ⊢
          have hpos : i ≠ 0 := by
            rintro rfl
            exact hmagic (take_of_findMagic_zero hfind)
          omega
      refine .inr ?_
      rw [toDo, toDo, hphase', if_pos rfl, if_neg hphase, hcontent]
      omega

theorem calls_wait (n : ℕ) (h : s.Ok)
    (hfits : Lib.Along (step maxSize) (Fits maxSize) s (replicate n .call)) (hn : s.toDo < n) :
    (Lib.run (step maxSize) s (replicate n .call)).waiting = true := by
  induction n generalizing s with
  | zero => exact absurd hn (Nat.not_lt_zero _)
  | succ n ih =>
    cases hwaiting : s.waiting with
    | true =>
      rw [run_calls_of_waiting hwaiting]
      exact hwaiting
    | false =>
      rw [replicate_succ] at hfits ⊢
      obtain ⟨hok, hprogress⟩ := call_progress h hwaiting hfits.1
      rw [Lib.run_cons]
      rcases hprogress with hwaits | hless
      · rw [run_calls_of_waiting hwaits]
        exact hwaits
      · exact ih hok hfits.2 (by omega)

end Reader

/-! ## Records between garbage -/

/-- Bytes none of which is one of the magic. -/
def Garbage (g : Bytes) : Prop := ∀ b ∈ g, b ∉ magic

variable {g : Bytes}

theorem Garbage.tail {b : UInt8} (h : Garbage (b :: g)) : Garbage g := fun b' hb' => h b' (mem_cons_of_mem b hb')

theorem Garbage.take_ne {b : UInt8} (h : Garbage (b :: g)) (rest : Bytes) : (b :: g ++ rest).take 4 ≠ magic := by
  intro heq
  refine h b mem_cons_self ?_
  rw [← heq]
  exact mem_cons_self

theorem Garbage.findMagic (h : Garbage g) (rest : Bytes) :
    findMagic (g ++ rest) = (findMagic rest).map (· + g.length) := by
  induction g with
  | nil => cases hr : Recordio.findMagic rest <;> rw [nil_append, hr] <;> rfl
  | cons b g ih =>
    have hne := h.take_ne rest
    rw [cons_append] at hne
    rw [cons_append, Recordio.findMagic, if_neg hne, ih h.tail, Option.map_map]
    rfl

theorem Yields.record_behind {rest : Bytes} {record : Record} (hg : Garbage g)
    (hread : record.Readable) (hmax : record.dataSize ≤ maxSize) (h : Yields maxSize .record rest rs) :
    Yields maxSize .record (g ++ (encode record ++ rest)) (record :: rs) := by
  have hhere : Yields maxSize .record (encode record ++ rest) (record :: rs) := by
    refine .ok (parse_encode hread hmax rest) ?_
    rw [drop_left]
    exact h
  cases g with
  | nil => exact hhere
  | cons b g =>
    have hne := hg.take_ne (encode record ++ rest)
    have hlen : 9 ≤ (b :: g ++ (encode record ++ rest)).length := by
      rw [length_append, length_append, length_encode]
      omega
    have hmagic : findMagic (encode record ++ rest) = some 0 := if_pos rfl
    refine .bad (n := 0) ?_ (.skip (by rw [drop_zero]; omega) ?_)
    · rw [parse, if_neg (not_lt.2 hlen), if_pos hne]
    · rw [drop_zero, skipMagic, if_neg hne]
      refine .found (i := (b :: g).length) ?_ ?_
      · rw [hg.findMagic, hmagic, Option.map_some, Nat.zero_add]
      · rw [drop_left]
        exact hhere

theorem Yields.garbage (hg : Garbage g) : Yields maxSize .record g [] := by
  by_cases hnine : g.length < 9
  · exact .wait (if_pos hnine)
  · obtain ⟨b, g, rfl⟩ := exists_cons_of_length_pos (l := g) (by omega)
    have hne := hg.take_ne []
    rw [append_nil] at hne
    refine .bad (n := 0) ?_ (.skip (by rw [drop_zero]; omega) ?_)
    · rw [parse, if_neg hnine, if_pos hne]
    · rw [drop_zero, skipMagic, if_neg hne]
      refine .notFound ?_
      have hnone := hg.findMagic []
      rw [append_nil] at hnone
      exact hnone

/-- A stream of records, each behind some garbage. -/
def stream (parts : List (Bytes × Record)) (garbage : Bytes) : Bytes :=
  (parts.flatMap fun p => p.1 ++ (writeWithoutFlush [] p.2).2) ++ garbage

theorem Yields.stream {parts : List (Bytes × Record)} {garbage : Bytes}
    (h : ∀ p ∈ parts, Garbage p.1 ∧ p.2.Readable ∧ p.2.dataSize ≤ maxSize) (hg : Garbage garbage) :
    Yields maxSize .record (stream parts garbage) (parts.map Prod.snd) := by
  induction parts with
  | nil => exact .garbage hg
  | cons p parts ih =>
    obtain ⟨hp, hread, hmax⟩ := h p mem_cons_self
    have hrest := ih fun p' hp' => h p' (mem_cons_of_mem p hp')
    rw [Recordio.stream, flatMap_cons,
      writeWithoutFlush_eq [] (fun m hm => Nat.le_succ_of_le (hread.names m hm).2) hread.size, nil_append,
      append_assoc, append_assoc]
    exact .record_behind hp hread hmax hrest

/-- **What is returned does not depend on how the bytes are read,** as long as each step fits: two
readers that were delivered the same bytes and wait have returned the same records, all between
garbage without bytes of the magic among them; and a reader gets to wait. -/
theorem recovery (maxSize : ℕ) : (∀ is js, Lib.Along (step maxSize) (Fits maxSize) .init is →
      Lib.Along (step maxSize) (Fits maxSize) .init js → (Lib.run (step maxSize) .init is).waiting = true →
      (Lib.run (step maxSize) .init js).waiting = true →
      (Lib.run (step maxSize) .init is).received = (Lib.run (step maxSize) .init js).received →
      (Lib.run (step maxSize) .init is).records = (Lib.run (step maxSize) .init js).records) ∧
    (∀ parts garbage, (∀ p ∈ parts, Garbage p.1 ∧ p.2.Readable ∧ p.2.dataSize ≤ maxSize) →
      Garbage garbage → ∀ is, Lib.Along (step maxSize) (Fits maxSize) .init is →
      (Lib.run (step maxSize) .init is).waiting = true →
      (Lib.run (step maxSize) .init is).received = stream parts garbage →
      (Lib.run (step maxSize) .init is).records = parts.map Prod.snd) ∧
    ∀ is n, Lib.Along (step maxSize) (Fits maxSize) .init (is ++ replicate n .call) →
      2 * (Lib.run (step maxSize) .init is).received.length + 1 < n →
      (Lib.run (step maxSize) .init (is ++ replicate n .call)).waiting = true := by
  refine ⟨fun is js his hjs hiw hjw hsame => ?_, fun parts garbage hparts hg is his hw hreceived => ?_,
    fun is n hall hn => ?_⟩
  · have hyields := run_yields is his hiw
    rw [hsame] at hyields
    exact hyields.unique (run_yields js hjs hjw)
  · have hyields := run_yields is his hw
    rw [hreceived] at hyields
    exact hyields.unique (.stream hparts hg)
  · obtain ⟨his, hcalls⟩ := Lib.along_append.1 hall
    have hfollows := run_follows is his
    have hoffset := hfollows.ok.offset
    rw [Lib.run_append]
    refine calls_wait n hfollows.ok hcalls ?_
    rw [toDo]
    split_ifs <;> omega

/-- Two records behind garbage. -/
def garbled : List (Bytes × Record) := [([1], ⟨[], []⟩), ([2, 3], ⟨[], [7]⟩)]

/-- They are read at once. -/
def behindGarbage : List Input :=
  .call :: .read [⟨0, 0, 8160⟩] (stream garbled []) :: replicate 7 .call

theorem behindGarbage_returned : (Lib.run (step 100) .init behindGarbage).records = [⟨[], []⟩, ⟨[], [7]⟩] := by
  refine (recovery 100).2.1 garbled [] ?_ (forall_mem_nil _) behindGarbage ?_ (by decide) (by decide)
  · simp only [garbled, forall_mem_cons, Garbage]
    exact ⟨⟨⟨by decide, forall_mem_nil _⟩, ⟨forall_mem_nil _, nodup_nil, by decide⟩, by decide⟩,
      ⟨⟨by decide, by decide, forall_mem_nil _⟩, ⟨forall_mem_nil _, nodup_nil, by decide⟩, by decide⟩, forall_mem_nil _⟩
  · refine ⟨fun _ => ⟨by decide, by decide⟩, ⟨⟨by decide, by decide, by decide⟩, ?_⟩,
      fun _ => ⟨by decide, by decide⟩, fun _ => ⟨by decide, by decide⟩,
      fun _ => ⟨by decide, by decide⟩, fun _ => ⟨by decide, by decide⟩, fun _ => ⟨by decide, by decide⟩,
      fun _ => ⟨by decide, by decide⟩, fun _ => ⟨by decide, by decide⟩, trivial⟩
    rintro ⟨hcached, -⟩
    cases hcached

/-- The same record in one read and in two reads into one block: the second reader does not
see what it has read last. -/
theorem read_boundary_matters : let bytes := (writeWithoutFlush [] ⟨[], []⟩).2
    let whole := Lib.run (step 100) .init [.call, .read [⟨0, 0, 8160⟩] bytes, .call, .call]
    let pieces := Lib.run (step 100) .init
      [.call, .read [⟨0, 0, 8160⟩] (bytes.take 5), .call, .read [] (bytes.drop 5), .call]
    whole.received = pieces.received ∧ whole.waiting = true ∧ pieces.waiting = true ∧
      whole.records = [⟨[], []⟩] ∧ pieces.records = [] := by
  decide

end Brpc.Recordio
