/-
# The send buffer of a stream

`Stream::Create`, `AppendIfNotFull`, `SetRemoteConsumed` and `Wait` of `brpc/stream.cpp`, section by
section of `_congestion_control_mutex`; with `socket_max_streams_unconsumed_bytes` set, a feedback
frame also resizes the buffer.  A writer reads `_cur_buf_size`, has its message accepted under the
mutex, writes it, and takes it back under the mutex if that failed; each is a step (`State.step`),
between feedback frames and other streams that change `_total_streams_unconsumed_size`.
`flow_controlled`: steps that fit are safe and forget no waiter.
-/

import Brpc.Lib.Ops
import Brpc.Lib.Run

namespace Brpc.Stream

/-- `StreamOptions` -/
structure Options where
  minBufSize : ℤ
  maxBufSize : ℤ

/-- The options of a stream as `Create` stores them. -/
structure Limits where
  min : ℤ
  max : ℤ
  valid : 0 < max → min ≤ max

def Options.limits (o : Options) : Limits :=
  if h : 0 < o.maxBufSize ∧ o.maxBufSize < o.minBufSize then
    { min := 0, max := o.maxBufSize, valid := Int.le_of_lt }
  else
    { min := o.minBufSize, max := o.maxBufSize, valid := fun hmax => Int.not_lt.1 fun hlt => h ⟨hmax, hlt⟩ }

/-- What of a stream has to do with flow control.  `waitList` are the waiters in
`_writable_wait_list`. -/
structure Buffer where
  limits : Limits
  produced : ℕ
  remoteConsumed : ℕ
  curBufSize : ℕ
  waitList : List ℕ

/-- `Create`, with the flag `socket_max_streams_unconsumed_bytes`. -/
def Buffer.create (flag : ℤ) (o : Options) : Buffer where
  limits := o.limits
  produced := 0
  remoteConsumed := 0
  curBufSize :=
    if 0 < flag ∧ 0 < o.limits.min then o.limits.min.toNat
    else if 0 < o.maxBufSize then o.maxBufSize.toNat else 0
  waitList := []

namespace Buffer

variable (b : Buffer)

/-- The test for a full stream. -/
def Full : Prop := b.remoteConsumed + b.curBufSize ≤ b.produced

instance : Decidable b.Full := inferInstanceAs (Decidable (_ ≤ _))

/-- A message is accepted. -/
def accept (len : ℕ) : Buffer := { b with produced := b.produced + len }

/-- `_produced -= data_length`, after the write has failed. -/
def rollback (len : ℕ) : Buffer :=
  { b with produced := if len ≤ b.produced then b.produced - len else b.produced + 2 ^ 64 - len }

/-- The buffer size after a feedback frame, with `total` bytes of all streams under way. -/
def resized (flag total : ℤ) (newRemoteConsumed : ℕ) : ℕ :=
  if flag < total then
    if 0 < b.limits.min then b.limits.min.toNat else b.curBufSize / 2
  else if newRemoteConsumed + b.curBufSize ≤ b.produced ∧ (b.limits.max ≤ 0 ∨ b.curBufSize < b.limits.max.toNat) then
    if 0 < b.limits.max ∧ b.limits.max.toNat < b.curBufSize * 2 then b.limits.max.toNat
    else b.curBufSize * 2
  else b.curBufSize

/-- What `SetRemoteConsumed` leaves of `_total_streams_unconsumed_size`. -/
def totalAfter (flag total : ℤ) (newRemoteConsumed : ℕ) : ℤ :=
  if b.remoteConsumed < newRemoteConsumed ∧ 0 < flag then
    total - (newRemoteConsumed - b.remoteConsumed : ℕ)
  else total

/-- The consumed size and the buffer size after `SetRemoteConsumed`. -/
def consumed (flag total : ℤ) (newRemoteConsumed : ℕ) : Buffer :=
  { b with
    curBufSize :=
      if 0 < flag then b.resized flag (b.totalAfter flag total newRemoteConsumed) newRemoteConsumed
      else b.curBufSize
    remoteConsumed := newRemoteConsumed }

/-- `SetRemoteConsumed`: the waiters are taken off the list when a full stream is not full
any more. -/
def setRemoteConsumed (flag total : ℤ) (newRemoteConsumed : ℕ) : Buffer :=
  if newRemoteConsumed ≤ b.remoteConsumed then b
  else
    let b' := b.consumed flag total newRemoteConsumed
    if b.Full ∧ ¬ b'.Full then { b' with waitList := [] } else b'

/-- `Wait`: the waiter is told at once or put on the list. -/
def wait (w : ℕ) : Buffer :=
  if b.curBufSize = 0 ∨ ¬ b.Full then b else { b with waitList := b.waitList ++ [w] }

end Buffer

/-! ## Writers and waiters -/

open Lib List

/-- An `AppendIfNotFull` in progress, with the length of its message. -/
inductive Writer
  /-- It is about to read `_cur_buf_size`. -/
  | check (len : ℕ)
  /-- It is about to enter the mutex. -/
  | enter (len : ℕ)
  /-- The write to the fake socket is next. -/
  | write (len : ℕ)
  /-- The write has failed, and the message will be taken back. -/
  | rollback (len : ℕ)
  /-- The bytes are to be added to `_total_streams_unconsumed_size`. -/
  | count (len : ℕ)

/-- A stream and its writers, with the bytes accepted and not taken back, and the buffer size and
message length at the last acceptance. -/
structure State where
  buffer : Buffer
  /-- `_total_streams_unconsumed_size` of the host socket. -/
  total : ℤ
  writers : List Writer
  accepted : ℕ
  lastBufSize : ℕ
  lastLength : ℕ

def State.init (flag : ℤ) (o : Options) : State where
  buffer := .create flag o
  total := 0
  writers := []
  accepted := 0
  lastBufSize := 0
  lastLength := 0

inductive Input
  /-- A thread calls `AppendIfNotFull` with a message of this length. -/
  | append (len : ℕ)
  /-- The next step of the writer `k`; `ok` says how its write ends. -/
  | run (k : ℕ) (ok : Bool)
  | wait (w : ℕ)
  /-- A feedback frame arrives. -/
  | feedback (consumed : ℕ)
  /-- Other streams of the host socket send or get feedback. -/
  | others (bytes : ℤ)

namespace State

variable (flag : ℤ)

/-- The writer `k` goes on with `new`, or returns if that is empty. -/
def goOn (s : State) (k : ℕ) (new : List Writer) : State :=
  { s with writers := replaceAt s.writers k new }

/-- A message is accepted, whether its bytes are counted or not. -/
def accept (s : State) (len : ℕ) : State :=
  { s with
    accepted := s.accepted + len
    lastBufSize := s.buffer.curBufSize
    lastLength := len }

def runWriter (s : State) (k : ℕ) (ok : Bool) : Writer → State
  | .check len =>
    if 0 < s.buffer.curBufSize then s.goOn k [.enter len]
    else (s.accept len).goOn k [.write len]
  | .enter len =>
    if s.buffer.Full then s.goOn k []
    else { (s.accept len).goOn k [.write len] with buffer := s.buffer.accept len }
  | .write len =>
    if ok then s.goOn k (if 0 < flag then [.count len] else []) else s.goOn k [.rollback len]
  | .rollback len =>
    { s.goOn k [] with buffer := s.buffer.rollback len, accepted := s.accepted - len }
  | .count len => { s.goOn k [] with total := s.total + len }

def step (s : State) : Input → State
  | .append len => { s with writers := s.writers ++ [.check len] }
  | .run k ok =>
    match s.writers[k]? with
    | some w => s.runWriter flag k ok w
    | none => s
  | .wait w => { s with buffer := s.buffer.wait w }
  | .feedback consumed =>
    { s with
      buffer := s.buffer.setRemoteConsumed flag s.total consumed
      total := s.buffer.totalAfter flag s.total consumed }
  | .others bytes => { s with total := s.total + bytes }

/-- A stream somebody waits for is full, and the bytes accepted and not reported as consumed are
within the buffer size and the message of the last acceptance. -/
def FlowControlled (s : State) : Prop :=
  (s.buffer.waitList ≠ [] → s.buffer.Full) ∧ s.accepted ≤ s.buffer.remoteConsumed + s.lastBufSize + s.lastLength

instance (s : State) : Decidable s.FlowControlled := inferInstanceAs (Decidable (_ ∧ _))

end State

/-- The step of a writer that does not go past flow control or a waiter. -/
def Writer.Fits (s : State) : Writer → Prop
  | .check _ => 0 < s.buffer.curBufSize
  | .rollback len => s.buffer.waitList = [] ∨
      s.buffer.remoteConsumed + s.buffer.curBufSize + len ≤ s.buffer.produced
  | _ => True

instance (s : State) : (w : Writer) → Decidable (w.Fits s)
  | .check _ => inferInstanceAs (Decidable (_ < _))
  | .rollback _ => inferInstanceAs (Decidable (_ ∨ _))
  | .enter _ | .write _ | .count _ => isTrue trivial

/-- **The steps that fit.**  `AppendIfNotFull` finds flow control on, and a message is taken back
only while nobody waits or the stream is full without it. -/
def State.Fits (s : State) : Input → Prop
  | .run k _ => ∀ w ∈ s.writers[k]?.toList, w.Fits s
  | _ => True

instance (s : State) : (i : Input) → Decidable (s.Fits i)
  | .run k _ => inferInstanceAs (Decidable (∀ w ∈ s.writers[k]?.toList, w.Fits s))
  | .append _ | .wait _ | .feedback _ | .others _ => isTrue trivial

/-- The bytes of a writer that can still be taken back. -/
def Writer.pending : Writer → ℕ
  | .write len | .rollback len => len
  | _ => 0

/-- **The invariant of a stream.** -/
structure Inv (s : State) : Prop where
  waiting : s.buffer.waitList ≠ [] → s.buffer.Full
  accepted : s.accepted = s.buffer.produced
  pending : (s.writers.map Writer.pending).sum ≤ s.buffer.produced
  bounded : s.buffer.produced ≤ s.buffer.remoteConsumed + s.lastBufSize + s.lastLength

theorem Inv.flowControlled {s : State} (h : Inv s) : s.FlowControlled := ⟨h.waiting, h.accepted ▸ h.bounded⟩

theorem inv_init (flag : ℤ) (o : Options) : Inv (State.init flag o) :=
  ⟨fun hne => absurd rfl hne, rfl, Nat.zero_le _, Nat.zero_le _⟩

variable {flag : ℤ} {s : State} {k : ℕ} {w : Writer}

section

variable (h : Inv s)
include h

theorem Inv.goOn {new : List Writer} (hk : s.writers[k]? = some w)
    (hnew : (new.map Writer.pending).sum ≤ w.pending) : Inv (s.goOn k new) := by
  refine { h with pending := ?_ }
  have hsum := @sum_replaceAt _ _ _ s.writers new k w hk Writer.pending
  have hpending := h.pending
  show ((replaceAt s.writers k new).map Writer.pending).sum ≤ s.buffer.produced
  omega

theorem Inv.enter {len : ℕ} (hk : s.writers[k]? = some (.enter len)) (hroom : ¬ s.buffer.Full) :
    Inv { (s.accept len).goOn k [.write len] with buffer := s.buffer.accept len } := by
  refine ⟨fun hne => absurd (h.waiting hne) hroom, ?_, ?_, ?_⟩
  · show s.accepted + len = s.buffer.produced + len
    rw [h.accepted]
  · have hsum := @sum_replaceAt _ _ _ s.writers [.write len] k _ hk Writer.pending
    have hpending := h.pending
    simp only [map_cons, map_nil, sum_cons, sum_nil, Writer.pending] at hsum
    show ((replaceAt s.writers k [.write len]).map Writer.pending).sum ≤ s.buffer.produced + len
    omega
  · rw [Buffer.Full, not_le] at hroom
    show s.buffer.produced + len ≤ s.buffer.remoteConsumed + s.buffer.curBufSize + len
    omega

theorem Inv.rollback {len : ℕ} (hk : s.writers[k]? = some (.rollback len))
    (hfits : s.buffer.waitList = [] ∨ s.buffer.remoteConsumed + s.buffer.curBufSize + len ≤ s.buffer.produced) :
    Inv { s.goOn k [] with buffer := s.buffer.rollback len, accepted := s.accepted - len } := by
  have hsum := @sum_replaceAt _ _ _ s.writers [] k _ hk Writer.pending
  have hpending := h.pending
  simp only [map_nil, sum_nil, Writer.pending] at hsum
  have hlen : len ≤ s.buffer.produced := by omega
  have hproduced : (s.buffer.rollback len).produced = s.buffer.produced - len := if_pos hlen
  refine ⟨fun hne => ?_, ?_, ?_, ?_⟩
  · rw [Buffer.Full, hproduced]
    rcases hfits with hnone | hfull
    · exact absurd hnone hne
    · exact Nat.le_sub_of_add_le hfull
  · rw [hproduced, h.accepted]
  · show ((replaceAt s.writers k []).map Writer.pending).sum ≤ (s.buffer.rollback len).produced
    omega
  · show (s.buffer.rollback len).produced ≤ s.buffer.remoteConsumed + s.lastBufSize + s.lastLength
    have := h.bounded
    omega

/-- **A feedback frame forgets no waiter.**  If the stream was full and is not full any
more, the list is emptied. -/
theorem Inv.feedback (consumed : ℕ) : Inv (s.step flag (.feedback consumed)) := by
  have hstep : ∀ b : Buffer, b.produced = s.buffer.produced →
      s.buffer.remoteConsumed ≤ b.remoteConsumed → (b.waitList ≠ [] → b.Full) →
      Inv { s with buffer := b, total := s.buffer.totalAfter flag s.total consumed } := by
    intro b hproduced hconsumed hwaiting
    refine ⟨hwaiting, ?_, ?_, ?_⟩
    · rw [h.accepted, ← hproduced]
    · exact hproduced ▸ h.pending
    · have hbounded := h.bounded
      show b.produced ≤ b.remoteConsumed + s.lastBufSize + s.lastLength
      omega
  refine hstep _ ?_ ?_ ?_ <;> rw [Buffer.setRemoteConsumed]
  · split
    · rfl
    · dsimp only
      split <;> rfl
  · split
    · exact Nat.le_refl _
    · dsimp only
      split <;> exact Nat.le_of_not_le ‹_›
  · split
    · exact h.waiting
    · dsimp only
      split
      · intro hne
        exact absurd rfl hne
      next hwake =>
        intro hne
        by_contra hfull
        exact hwake ⟨h.waiting hne, hfull⟩

theorem Inv.wait (w : ℕ) : Inv (s.step flag (.wait w)) := by
  rw [State.step, Buffer.wait]
  split
  · exact h
  next hfull =>
    exact { h with waiting := fun _ => not_not.1 (not_or.1 hfull).2 }

/-- **A step that fits keeps the invariant.** -/
theorem Inv.step (i : Input) (hfits : s.Fits i) : Inv (s.step flag i) := by
  cases i with
  | append len =>
    refine { h with pending := ?_ }
    show ((s.writers ++ [Writer.check len]).map Writer.pending).sum ≤ s.buffer.produced
    rw [map_append, sum_append]
    exact h.pending
  | wait w => exact h.wait w
  | feedback consumed => exact h.feedback consumed
  | others => exact { h with }
  | run k ok =>
    rw [State.step]
    cases hk : s.writers[k]? with
    | none => exact h
    | some w =>
      have hw : w.Fits s := hfits w (by rw [hk]; exact mem_singleton_self w)
      show Inv (s.runWriter flag k ok w)
      cases w with
      | check =>
        rw [Writer.Fits] at hw
        rw [State.runWriter, if_pos hw]
        exact h.goOn hk (Nat.le_refl 0)
      | enter =>
        rw [State.runWriter]
        split_ifs with hfull
        · exact h.goOn hk (Nat.zero_le _)
        · exact h.enter hk hfull
      | write len =>
        rw [State.runWriter]
        split
        · refine h.goOn hk ?_
          split <;> exact Nat.zero_le _
        · exact h.goOn hk (Nat.le_refl len)
      | rollback => exact h.rollback hk hw
      | count =>
        have hgo : Inv (s.goOn k []) := h.goOn hk (Nat.zero_le _)
        exact { hgo with }

end

namespace State

/-- **Flow control is safe and forgets no waiter** in every state reached by steps that
fit. -/
theorem flow_controlled (flag : ℤ) (o : Options) (is : List Input) (h : Along (step flag) Fits (init flag o) is) :
    (Lib.run (step flag) (init flag o) is).FlowControlled :=
  (run_invariant (fun _ i hs hfits => hs.step i hfits) is _ (inv_init flag o) h).flowControlled

/-- A writer fills the buffer, a waiter waits, the peer consumes, another write fails. -/
def writtenAndConsumed : List Input :=
  [.append 10, .run 0 true, .run 0 true, .wait 1, .run 0 true, .run 0 true, .feedback 4,
    .append 3, .run 0 true, .run 0 true, .run 0 false, .run 0 true]

theorem written_and_consumed : (Lib.run (step 1) (init 1 ⟨0, 8⟩) writtenAndConsumed).FlowControlled :=
  flow_controlled 1 ⟨0, 8⟩ writtenAndConsumed (by decide)

/-- A writer fills the buffer, a waiter waits, and the write fails. -/
def failedWrite : List Input :=
  [.append 10, .run 0 true, .run 0 true, .wait 1, .run 0 false, .run 0 false]

/-- **A waiter is forgotten when a write fails**: nothing is under way any more, and the
waiter is still on the list. -/
theorem waiter_forgotten :
    let s := Lib.run (step 0) (init 0 ⟨0, 8⟩) failedWrite
    s.buffer.waitList = [1] ∧ s.buffer.produced = 0 ∧ s.writers = [] ∧ ¬ s.FlowControlled := by
  decide

end State
end Brpc.Stream
