/-
# Adaptive stream buffers

The streams of one host socket with `socket_max_streams_unconsumed_bytes` set, one call after the
other.  The buffers and `_total_streams_unconsumed_size` are right (`Host.Exact`) exactly if no
buffer of one byte is halved and no stream is closed with bytes under way
(`accounting_exact_iff`).
-/

import Brpc.Stream.FlowControl

namespace Brpc.Stream

open Lib List Buffer

/-- A host socket and its live streams. -/
structure Host where
  total : ℤ
  streams : List Buffer

def Host.init : Host := ⟨0, []⟩

inductive Call
  /-- A stream is created with `max_buf_size = max + 1`. -/
  | create (min : ℤ) (max : ℕ)
  /-- `AppendIfNotFull` on the stream `k`; `ok` says how the write ends. -/
  | append (k len : ℕ) (ok : Bool)
  /-- A feedback frame for the stream `k` reports `n` more bytes, as far as there are. -/
  | feedback (k n : ℕ)
  | close (k : ℕ)

namespace Buffer

/-- A whole call of `AppendIfNotFull`, and the bytes it adds to
`_total_streams_unconsumed_size`. -/
def appendIfNotFull (b : Buffer) (len : ℕ) (ok : Bool) : Buffer × ℕ :=
  if 0 < b.curBufSize ∧ b.Full then (b, 0)
  else
    let b' := if 0 < b.curBufSize then b.accept len else b
    if ok then (b', len) else (b'.rollback len, 0)

/-- The consumed size the peer reports when it has consumed `n` more bytes. -/
def reported (b : Buffer) (n : ℕ) : ℕ := min (b.remoteConsumed + n) b.produced

/-- What a stream has under way. -/
def outstanding (b : Buffer) : ℤ := b.produced - b.remoteConsumed

/-- Flow control is on and the buffer within its limit. -/
def InRange (b : Buffer) : Prop := 0 < b.curBufSize ∧ (b.curBufSize : ℤ) ≤ b.limits.max

instance (b : Buffer) : Decidable b.InRange := inferInstanceAs (Decidable (_ ∧ _))

end Buffer

namespace Host

variable (flag : ℤ)

def step (h : Host) : Call → Host
  | .create min max => { h with streams := h.streams ++ [.create flag ⟨min, max + 1⟩] }
  | .append k len ok =>
    match h.streams[k]? with
    | some b =>
      { total := h.total + (b.appendIfNotFull len ok).2
        streams := replaceAt h.streams k [(b.appendIfNotFull len ok).1] }
    | none => h
  | .feedback k n =>
    match h.streams[k]? with
    | some b =>
      { total := b.totalAfter flag h.total (b.reported n)
        streams := replaceAt h.streams k [b.setRemoteConsumed flag h.total (b.reported n)] }
    | none => h
  | .close k => { h with streams := replaceAt h.streams k [] }

/-- **Flow control is on and the accounting exact.** -/
def Exact (h : Host) : Prop :=
  (∀ b ∈ h.streams, b.InRange) ∧ h.total = (h.streams.map outstanding).sum

instance (h : Host) : Decidable h.Exact := inferInstanceAs (Decidable (_ ∧ _))

/-- **The calls that fit.**  Feedback on a crowded socket does not halve a buffer of one
byte, and a stream is closed with nothing under way. -/
def Fits (h : Host) : Call → Prop
  | .feedback k n => ∀ b ∈ h.streams[k]?.toList, b.remoteConsumed < b.reported n →
      flag < b.totalAfter flag h.total (b.reported n) → 0 < b.limits.min ∨ 2 ≤ b.curBufSize
  | .close k => ∀ b ∈ h.streams[k]?.toList, b.produced = b.remoteConsumed
  | _ => True

instance (h : Host) : (c : Call) → Decidable (h.Fits flag c)
  | .feedback k n => inferInstanceAs (Decidable (∀ b ∈ h.streams[k]?.toList,
      b.remoteConsumed < b.reported n → flag < b.totalAfter flag h.total (b.reported n) →
        0 < b.limits.min ∨ 2 ≤ b.curBufSize))
  | .close k =>
    inferInstanceAs (Decidable (∀ b ∈ h.streams[k]?.toList, b.produced = b.remoteConsumed))
  | .create .. | .append .. => isTrue trivial

end Host

variable {flag : ℤ} {h : Host} {b : Buffer} {k : ℕ}

theorem inRange_create (hflag : 0 < flag) (min : ℤ) (max : ℕ) : (create flag ⟨min, max + 1⟩).InRange := by
  have hmax : (0 : ℤ) < max + 1 := by omega
  have hlimit : (Options.limits ⟨min, max + 1⟩).max = max + 1 := by
    rw [Options.limits]
    split <;> rfl
  have hvalid := (Options.limits ⟨min, max + 1⟩).valid
  rw [hlimit] at hvalid
  rw [InRange, create]
  simp only [hlimit, hflag, true_and, hmax, if_true]
  split <;> omega

theorem appendIfNotFull_exact (hb : b.InRange) (len : ℕ) (ok : Bool) :
    (b.appendIfNotFull len ok).1.InRange ∧ (b.appendIfNotFull len ok).1.outstanding =
      b.outstanding + (b.appendIfNotFull len ok).2 := by
  rw [appendIfNotFull]
  split
  · exact ⟨hb, (Int.add_zero _).symm⟩
  · rw [if_pos hb.1]
    cases ok with
    | true =>
      refine ⟨hb, ?_⟩
      simp only [if_true, outstanding, accept]
      omega
    | false =>
      have hproduced : ((b.accept len).rollback len).produced = b.produced :=
        (if_pos (Nat.le_add_left len b.produced)).trans (Nat.add_sub_cancel ..)
      refine ⟨hb, ?_⟩
      simp only [Bool.false_eq_true, if_false, outstanding, hproduced]
      exact (Int.add_zero _).symm

theorem resized_inRange_iff (hb : b.InRange) (total : ℤ) (new : ℕ) :
    0 < b.resized flag total new ∧ (b.resized flag total new : ℤ) ≤ b.limits.max ↔
      (flag < total → 0 < b.limits.min ∨ 2 ≤ b.curBufSize) := by
  obtain ⟨hpos, hmax⟩ := hb
  have hvalid := b.limits.valid
  rw [resized]
  by_cases hcrowded : flag < total
  · rw [if_pos hcrowded]
    split <;> omega
  · rw [if_neg hcrowded]
    split
    · split <;> omega
    · omega

/-- Feedback settles what it reports, and keeps the buffer in range exactly if it fits. -/
theorem setRemoteConsumed_exact (hflag : 0 < flag) (hb : b.InRange) (total : ℤ) (new : ℕ) :
    ((b.setRemoteConsumed flag total new).InRange ↔ (b.remoteConsumed < new →
        flag < b.totalAfter flag total new → 0 < b.limits.min ∨ 2 ≤ b.curBufSize)) ∧
      b.totalAfter flag total new - (b.setRemoteConsumed flag total new).outstanding = total - b.outstanding := by
  rw [setRemoteConsumed]
  by_cases hold : new ≤ b.remoteConsumed
  · have htotal : b.totalAfter flag total new = total := if_neg fun hno => absurd hno.1 (by omega)
    rw [if_pos hold, htotal]
    exact ⟨⟨fun _ hlt => absurd hlt (by omega), fun _ => hb⟩, rfl⟩
  · have hnew : b.remoteConsumed < new := by omega
    have htotal : b.totalAfter flag total new = total - (new - b.remoteConsumed : ℕ) := if_pos ⟨hnew, hflag⟩
    have hsize : (b.consumed flag total new).curBufSize =
        b.resized flag (b.totalAfter flag total new) new := if_pos hflag
    rw [if_neg hold]
    -- Waking the waiters touches neither the sizes nor the limits.
    have hwake : ∀ b' : Buffer, b'.limits = b.limits → b'.produced = b.produced →
        b'.remoteConsumed = new → b'.curBufSize = b.resized flag (b.totalAfter flag total new) new →
        (b'.InRange ↔ (b.remoteConsumed < new → flag < b.totalAfter flag total new →
          0 < b.limits.min ∨ 2 ≤ b.curBufSize)) ∧
        b.totalAfter flag total new - b'.outstanding = total - b.outstanding := by
      intro b' hlimits hproduced hconsumed hcur
      constructor
      · rw [InRange, hcur, hlimits, resized_inRange_iff hb]
        exact ⟨fun himp _ => himp, fun himp => himp hnew⟩
      · rw [outstanding, outstanding, hproduced, hconsumed, htotal]
        omega
    dsimp only
    split
    all_goals exact hwake _ rfl rfl rfl hsize

theorem Host.Exact.replace (hex : h.Exact) (hk : h.streams[k]? = some b) (new : List Buffer)
    (total : ℤ) : Host.Exact { total := total, streams := replaceAt h.streams k new } ↔
      (∀ b' ∈ new, b'.InRange) ∧ total + b.outstanding = h.total + (new.map outstanding).sum := by
  have hsum := @sum_replaceAt _ _ _ h.streams new k b hk outstanding
  rw [Host.Exact, hex.2]
  refine and_congr ⟨fun hall b' hb' => hall b' (mem_replaceAt.2 (.inr hb')),
    forall_mem_replaceAt hex.1⟩ ⟨fun heq => ?_, fun heq => ?_⟩
  · change total = ((replaceAt h.streams k new).map outstanding).sum at heq
    omega
  · show total = ((replaceAt h.streams k new).map outstanding).sum
    omega

/-- **A call keeps the accounting exact exactly if it fits.** -/
theorem Host.Exact.step (hflag : 0 < flag) (hex : h.Exact) (c : Call) : (h.step flag c).Exact ↔ h.Fits flag c := by
  cases c with
  | create min max =>
    refine iff_of_true ⟨fun b hb => ?_, ?_⟩ trivial
    · exact forall_mem_append.2 ⟨hex.1, forall_mem_singleton.2 (inRange_create hflag min max)⟩ b hb
    · show h.total = ((h.streams ++ [_]).map outstanding).sum
      rw [hex.2, map_append, sum_append]
      exact (Int.add_zero _).symm
  | append k len ok =>
    refine iff_of_true ?_ trivial
    rw [Host.step]
    cases hk : h.streams[k]? with
    | none => exact hex
    | some b =>
      obtain ⟨hrange, hout⟩ := appendIfNotFull_exact (hex.1 b (mem_of_getElem? hk)) len ok
      refine (hex.replace hk _ _).2 ⟨forall_mem_singleton.2 hrange, ?_⟩
      rw [map_singleton, sum_singleton, hout]
      omega
  | feedback k n =>
    rw [Host.step, Host.Fits]
    cases hk : h.streams[k]? with
    | none => exact iff_of_true hex (forall_mem_nil _)
    | some b =>
      obtain ⟨hrange, hout⟩ := setRemoteConsumed_exact hflag (hex.1 b (mem_of_getElem? hk)) h.total (b.reported n)
      refine (hex.replace hk _ _).trans ?_
      rw [map_singleton, sum_singleton]
      constructor
      · rintro ⟨hall, -⟩
        exact forall_mem_singleton.2 (hrange.1 (forall_mem_singleton.1 hall))
      · intro hfits
        exact ⟨forall_mem_singleton.2 (hrange.2 (forall_mem_singleton.1 hfits)), by omega⟩
  | close k =>
    rw [Host.step, Host.Fits]
    cases hk : h.streams[k]? with
    | none =>
      have hlen : h.streams.length ≤ k := List.getElem?_eq_none_iff.1 hk
      have hsame : replaceAt h.streams k [] = h.streams := by
        rw [replaceAt, take_of_length_le hlen, drop_eq_nil_of_le (by omega)]
        simp
      rw [hsame]
      exact iff_of_true hex (forall_mem_nil _)
    | some =>
      refine (hex.replace hk _ _).trans ?_
      rw [map_nil, sum_nil, outstanding]
      constructor
      · rintro ⟨-, heq⟩
        exact forall_mem_singleton.2 (by omega)
      · intro hfits
        have := forall_mem_singleton.1 hfits
        exact ⟨forall_mem_nil _, by omega⟩

namespace Host

/-- **Adaptive buffers keep flow control on and their accounting exact** in all states of
a run, exactly if all its calls fit. -/
theorem accounting_exact_iff (flag : ℤ) (hflag : 0 < flag) (cs : List Call) :
    (∀ js, js <+: cs → (Lib.run (step flag) init js).Exact) ↔ Along (step flag) (Fits flag) init cs :=
  along_iff_prefixes (fun _ c hex => hex.step hflag c) cs init ⟨nofun, rfl⟩

/-- Two streams share a socket, one of them is consumed and closed. -/
def consumedAndClosed : List Call :=
  [.create 0 7, .create 2 3, .append 0 8 true, .append 1 5 true, .append 1 1 false,
    .feedback 0 4, .feedback 0 4, .close 0]

theorem consumed_and_closed : (Lib.run (step 3) init consumedAndClosed).Exact :=
  (accounting_exact_iff 3 (by decide) consumedAndClosed).2 (by decide) _ prefix_rfl

/-- A stream is closed with five bytes under way. -/
def closedEarly : List Call := [.create 0 7, .append 0 5 true, .close 0]

/-- A stream with a buffer of two bytes gets feedback on a crowded socket, twice. -/
def halvedTwice : List Call := [.create 0 1, .append 0 9 true, .feedback 0 1, .feedback 0 1]

/-- **The accounting is off after an early close, and a buffer can be halved away**, which
switches flow control off. -/
theorem settled_neither :
    let h := Lib.run (step 3) init closedEarly
    let h' := Lib.run (step 3) init halvedTwice
    ¬ h.Exact ∧ h.total = 5 ∧ h.streams = [] ∧ ¬ h'.Exact ∧ h'.streams.map curBufSize = [0] :=
  ⟨by decide, by decide, rfl, by decide, by decide⟩

end Host
end Brpc.Stream
