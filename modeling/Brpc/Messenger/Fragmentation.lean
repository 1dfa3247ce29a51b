/-
# Cutting on the server and how the bytes arrive

A handler that finds its own magic on a frame whose `meta_size` exceeds its `body_size` pops the
frame and answers `PARSE_ERROR_TRY_OTHERS`; what is left is offered to the other handler only, which
claims the socket if nothing is left.  So it matters where a read ends: what comes of a connection
of a server (`outcome`) is the same for all ways to split a stream into reads exactly when the
stream is `Steady` (`server_cuts_alike_iff`).
-/

import Brpc.Messenger.Serve

namespace Brpc.Messenger

open Scan

/-- The stream `s` is cut the same however it arrives, at a server that asks the handler of
`p` first. -/
inductive Steady (m : ℕ) : Kind → Bytes → Prop
  /-- It is a part of a frame. -/
  | more {p : Kind} {s : Bytes} {k : Option Kind} (h : scan m s = .more k) : Steady m p s
  /-- No handler takes what it starts with. -/
  | rejected {p : Kind} {s : Bytes} (h : (scan m s).Rejected) : Steady m p s
  | frame {p : Kind} {s r : Bytes} {f : Frame} (h : scan m s = .frame f r)
      (hr : Steady m f.kind r) : Steady m p s
  /-- A corrupted frame, and no handler takes what follows. -/
  | corruptedRejected {p k : Kind} {s r : Bytes} (h : scan m s = .corrupted k r)
      (hr : (scan m r).Rejected) : Steady m p s
  /-- A corrupted frame of the protocol asked first, and a part of a frame of the other. -/
  | corruptedMore {p : Kind} {s r : Bytes} (h : scan m s = .corrupted p r)
      (hr : scan m r = .more none ∨ scan m r = .more (some p.other)) : Steady m p s
  /-- A corrupted frame of the protocol asked first, and a frame of the other. -/
  | corruptedFrame {p : Kind} {s r r' : Bytes} {f : Frame} (h : scan m s = .corrupted p r)
      (hr : scan m r = .frame f r') (hf : f.kind = p.other) (hr' : Steady m p.other r') :
      Steady m p s
  /-- Corrupted frames of the protocol asked first and of the other, and no handler takes
  what follows. -/
  | corruptedTwice {p : Kind} {s r r' : Bytes} (h : scan m s = .corrupted p r)
      (hr : scan m r = .corrupted p.other r') (hr' : (scan m r').Rejected) : Steady m p s

variable {m : ℕ} {p k : Kind} {s r : Bytes}

/-! ### The cuts of a server -/

theorem next_server (p : Kind) : p.next false = some p.other := by
  cases p <;> rfl

theorem settle_of_rejected (h : (scan m s).Rejected) (k : Kind) : Cut.settle k (parseFrame k m s) = .fail s := by
  rw [parseFrame_eq_answer]
  cases hs : scan m s with
  | unknown => rfl
  | tooBig l => by_cases hl : l = k <;> simp [answer, hl, Cut.settle]
  | more | frame | corrupted => simp [hs, Scan.Rejected] at h

theorem settle_of_kind_ne {l : Kind} (h : (scan m s).kind = some l) (hl : l ≠ k) :
    Cut.settle k (parseFrame k m s) = .fail s := by
  rw [parseFrame_eq_answer, answer_of_kind_ne h hl]
  rfl

theorem settle_of_corrupted (h : scan m s = .corrupted k r) : Cut.settle k (parseFrame k m s) = .fail r := by
  rw [parseFrame_eq_answer, h, answer, if_pos rfl]
  rfl

/-- What stands at the head is neither popped by the handler asked first nor left by it. -/
theorem cutFrom_server_of_kind (h : (scan m s).kind = some k)
    (hne : (parseFrame k m s).1 ≠ .error .tryOthers ∨ k ≠ p) :
    cutFrom m false p s = .settle k (parseFrame k m s) := by
  by_cases hk : k = p
  · subst hk
    exact cutFrom_of_ne (hne.resolve_right fun h => h rfl)
  · exact cutFrom_of_next h hk (by rw [next_server, Kind.eq_other_of_ne hk])

theorem cutFrom_of_more_some (h : scan m s = .more (some k)) : cutFrom m false p s = .more k s := by
  have hparse : parseFrame k m s = (.error .notEnoughData, s) := by
    rw [parseFrame_eq_answer, h, answer, if_pos rfl]
  rw [cutFrom_server_of_kind (by rw [h, kind]) (.inl (by rw [hparse]; simp)), hparse, Cut.settle]

theorem cutFrom_of_frame {f : Frame} (h : scan m s = .frame f r) : cutFrom m false p s = .msg f f.kind r := by
  have hparse : parseFrame f.kind m s = (.ok f, r) := by
    rw [parseFrame_eq_answer, h, answer, if_pos rfl]
  rw [cutFrom_server_of_kind (by rw [h, kind]) (.inl (by rw [hparse]; simp)), hparse, Cut.settle]

theorem cutFrom_of_corrupted_eq (h : scan m s = .corrupted p r) :
    cutFrom m false p s = .settle p.other (parseFrame p.other m r) := by
  have hparse : parseFrame p m s = (.error .tryOthers, r) := by
    rw [parseFrame_eq_answer, h, answer, if_pos rfl]
  rw [cutFrom_of_eq hparse, next_server]

theorem cutFrom_of_corrupted_ne (h : scan m s = .corrupted k r) (hk : k ≠ p) : cutFrom m false p s = .fail r := by
  rw [cutFrom_server_of_kind (by rw [h, kind]) (.inr hk), settle_of_corrupted h]

theorem cutFrom_of_rejected (h : (scan m s).Rejected) : cutFrom m false p s = .fail s := by
  by_cases hne : (parseFrame p m s).1 = .error .tryOthers
  · have hsettle := settle_of_rejected h p
    have hr : parseFrame p m s = (.error .tryOthers, s) := by
      refine Prod.ext hne ?_
      rw [← buf_settle p, hsettle, Cut.buf]
    rw [cutFrom_of_eq hr, next_server]
    exact settle_of_rejected h _
  · rw [cutFrom_of_ne hne, settle_of_rejected h]

/-! ### Where a read ends -/

theorem Steady.part (h : Steady m p s) (hk : (scan m s).kind = some k ∨ scan m s = .unknown) :
    Steady m k s ∧ cutFrom m false p s = cutFrom m false k s := by
  by_cases hkp : k = p
  · subst hkp
    exact ⟨h, rfl⟩
  cases h with
  | @more _ _ l h =>
    obtain rfl : l = some k := by simpa [h, kind] using hk
    exact ⟨.more h, by rw [cutFrom_of_more_some h, cutFrom_of_more_some h]⟩
  | rejected h => exact ⟨.rejected h, by rw [cutFrom_of_rejected h, cutFrom_of_rejected h]⟩
  | frame h hr => exact ⟨.frame h hr, by rw [cutFrom_of_frame h, cutFrom_of_frame h]⟩
  | @corruptedRejected _ l _ r h hr =>
    obtain rfl : l = k := by simpa [h, kind] using hk
    refine ⟨.corruptedRejected h hr, ?_⟩
    rw [cutFrom_of_corrupted_ne h hkp, cutFrom_of_corrupted_eq h, settle_of_rejected hr]
  | corruptedMore h | corruptedFrame h | corruptedTwice h =>
    have hpk : p = k := by simpa [h, kind] using hk
    exact absurd hpk.symm hkp

/-- Behind a corrupted frame the other protocol is asked first, now or when more has
arrived. -/
theorem Steady.behind (h : Steady m p s) (hs : scan m s = .corrupted p r) :
    Steady m p.other r ∧ cutFrom m false p s = cutFrom m false p.other r := by
  rw [cutFrom_of_corrupted_eq hs]
  cases h with
  | more h | frame h => simp [hs] at h
  | rejected h => simp [hs, Scan.Rejected] at h
  | @corruptedRejected _ _ _ r' h hr =>
    obtain ⟨-, rfl⟩ := corrupted.inj (hs.symm.trans h)
    exact ⟨.rejected hr, by rw [cutFrom_of_rejected hr, settle_of_rejected hr]⟩
  | @corruptedMore _ _ r' h hr =>
    obtain ⟨-, rfl⟩ := corrupted.inj (hs.symm.trans h)
    have hparse : parseFrame p.other m r = (.error .notEnoughData, r) := by
      rw [parseFrame_eq_answer]
      rcases hr with hr | hr <;> simp [hr, answer]
    refine ⟨hr.elim .more .more, ?_⟩
    rw [cutFrom_of_notEnough hparse, hparse]
    rfl
  | @corruptedFrame _ _ r' r'' f h hr hf hr' =>
    obtain ⟨-, rfl⟩ := corrupted.inj (hs.symm.trans h)
    refine ⟨.frame hr (hf ▸ hr'), ?_⟩
    rw [cutFrom_of_ne (by rw [parseFrame_eq_answer, hr, answer, if_pos hf]; simp)]
  | @corruptedTwice _ _ r' r'' h hr hr' =>
    obtain ⟨-, rfl⟩ := corrupted.inj (hs.symm.trans h)
    refine ⟨.corruptedRejected hr hr', ?_⟩
    rw [cutFrom_of_corrupted_eq hr, settle_of_rejected hr', settle_of_corrupted hr]

/-- **Where the loop waits for more**, the rest is steady and is cut as it would have been
had it been there. -/
theorem Steady.wait {u v b : Bytes} (h : Steady m p (u ++ v)) (hcut : cutFrom m false p u = .more k b) :
    Steady m k (b ++ v) ∧ cutFrom m false p (u ++ v) = cutFrom m false k (b ++ v) := by
  cases hu : scan m u with
  | more l =>
    cases l with
    | none =>
      obtain rfl := scan_eq_more_none_iff.mp hu
      cases hcut
      exact ⟨h, rfl⟩
    | some =>
      rw [cutFrom_of_more_some hu] at hcut
      cases hcut
      exact h.part (scan_append_part hu v)
  | unknown | tooBig =>
    simp [cutFrom_of_rejected (show (scan m u).Rejected by simp [hu, Scan.Rejected])] at hcut
  | frame => simp [cutFrom_of_frame hu] at hcut
  | corrupted l =>
    by_cases hl : l = p
    · subst hl
      rw [cutFrom_of_corrupted_eq hu] at hcut
      obtain ⟨rfl, ha⟩ := settle_eq_more hcut
      obtain rfl := eq_of_parseFrame_notEnough ha
      have huv : scan m (u ++ v) = .corrupted l (b ++ v) := by
        rw [scan_append (by simp [hu]), hu, extend]
      exact h.behind huv
    · simp [cutFrom_of_corrupted_ne hu hl] at hcut

/-- **Where the loop cuts a message**, the rest is steady. -/
theorem Steady.msg {f : Frame} (h : Steady m p s) (hcut : cutFrom m false p s = .msg f k r) : Steady m k r := by
  cases h with
  | @more _ _ l h =>
    cases l with
    | none =>
      obtain rfl := scan_eq_more_none_iff.mp h
      simp [cutFrom_nil] at hcut
    | some => simp [cutFrom_of_more_some h] at hcut
  | rejected h => simp [cutFrom_of_rejected h] at hcut
  | frame h hr =>
    rw [cutFrom_of_frame h] at hcut
    cases hcut
    exact hr
  | @corruptedRejected _ l _ _ h hr =>
    by_cases hl : l = p
    · subst hl
      simp [cutFrom_of_corrupted_eq h, settle_of_rejected hr] at hcut
    · simp [cutFrom_of_corrupted_ne h hl] at hcut
  | corruptedMore h hr =>
    rw [cutFrom_of_corrupted_eq h, parseFrame_eq_answer] at hcut
    rcases hr with hr | hr <;> simp [hr, answer, Cut.settle] at hcut
  | corruptedFrame h hr hf hr' =>
    rw [cutFrom_of_corrupted_eq h, parseFrame_eq_answer, hr, answer, if_pos hf] at hcut
    cases hcut
    exact hr'
  | corruptedTwice h hr =>
    simp [cutFrom_of_corrupted_eq h, settle_of_corrupted hr] at hcut

/-! ## Whole connections -/

open List Conn

def Conn.server : Conn :=
  { socket := { createdByConnect := false, readBuf := [], preferredIndex := none }
    cut := []
    consumed := 0
    verdict := .more }

/-- What came of a connection: the messages, and the verdict with the number of bytes taken
when the socket failed. -/
def Conn.outcome (c : Conn) : List Frame × Verdict × Option ℕ :=
  (c.cut, c.verdict, if c.verdict = .failed then some c.consumed else none)

def twoHandlers (m : ℕ) : Handlers := { maxBodySize := m, others := [] }

/-- The connection after these reads. -/
def Conn.reads (m : ℕ) (c : Conn) (xs : List Bytes) : Conn := Lib.run (read (twoHandlers m)) c xs

/-- `xs` are the reads of the stream `s`. -/
def Splits (xs : List Bytes) (s : Bytes) : Prop := (∀ x ∈ xs, x ≠ []) ∧ xs.flatten = s

/-- However `s` arrives, the same comes of it. -/
def CutAlike (m : ℕ) (c : Conn) (s : Bytes) : Prop :=
  ∀ xs ys, Splits xs s → Splits ys s → (c.reads m xs).outcome = (c.reads m ys).outcome

variable {m : ℕ} {p k : Kind} {c c' : Conn} {s r : Bytes} {fs : List Frame} {e : End}

theorem Conn.reads_cons (c : Conn) (x : Bytes) (xs : List Bytes) :
    c.reads m (x :: xs) = (c.read (twoHandlers m) x).reads m xs := rfl

theorem Conn.reads_append (c : Conn) (xs ys : List Bytes) :
    c.reads m (xs ++ ys) = (c.reads m xs).reads m ys := Lib.run_append ..

theorem Conn.reads_of_failed (h : c.verdict = .failed) (xs : List Bytes) : c.reads m xs = c := by
  induction xs with
  | nil => rfl
  | cons x xs ih =>
    rw [reads_cons, read, if_neg (by simp [h])]
    exact ih

/-- A server connection that waits for more and asks the handler of `p` first. -/
structure Conn.Waits (c : Conn) (m : ℕ) (p : Kind) : Prop where
  verdict : c.verdict = .more
  server : c.socket.createdByConnect = false
  prefers : c.socket.Prefers p
  stable : cutFrom m false p c.socket.readBuf = .more p c.socket.readBuf

theorem Conn.Waits.read (h : c.Waits m p) {x : Bytes} (hserve : Serves m false p (c.socket.readBuf ++ x) fs e) :
    Becomes { c with socket := { c.socket with readBuf := c.socket.readBuf ++ x } } fs e
      (c.read (twoHandlers m) x) :=
  read_spec hserve h.verdict h.server (.inr rfl) h.prefers

theorem Serves.stable {b : Bytes} (h : Serves m false p s fs (.more k b)) : cutFrom m false k b = .more k b := by
  generalize he : End.more k b = e at h
  induction h with
  | more h =>
    cases he
    exact cutFrom_of_notEnough (cutFrom_eq_more h)
  | fail => cases he
  | msg _ _ ih => exact ih he

theorem Conn.Becomes.waits {b : Bytes} (h : c.Becomes fs (.more k b) c')
    (hc : c.socket.createdByConnect = false) (hb : cutFrom m false k b = .more k b) : c'.Waits m k :=
  ⟨h.ended.1, h.client.trans hc, .inl h.ended.2, by rw [h.readBuf]; exact hb⟩

/-- What came of a connection that had cut `cut` and was left so, `total` bytes in all having
been read. -/
def End.outcome (cut : List Frame) (total : ℕ) : End → List Frame × Verdict × Option ℕ
  | more _ _ => (cut, .more, none)
  | fail b => (cut, .failed, some (total - b.length))

theorem outcome_of_more (h : c.verdict = .more) : c.outcome = (c.cut, .more, none) := by
  rw [outcome, h, if_neg (by simp)]

theorem Conn.Becomes.outcome (h : c.Becomes fs e c') :
    c'.outcome = e.outcome (c.cut ++ fs) (c.consumed + c.socket.readBuf.length) := by
  cases e with
  | more => rw [outcome_of_more h.ended.1, h.cut, End.outcome]
  | fail =>
    rw [outcome, show c'.verdict = .failed from h.ended, if_pos rfl, h.cut, End.outcome,
      ← h.consumed, End.buf, Nat.add_sub_cancel]

/-! ### A steady stream -/

/-- The whole of `u` and `v` is served as `u`, of which `fs` is cut, and then the rest. -/
def End.Continues (m : ℕ) (p : Kind) (u v : Bytes) (fs : List Frame) : End → Prop
  | fail b => Serves m false p (u ++ v) fs (.fail (b ++ v))
  | more k b => Steady m k (b ++ v) ∧ ∀ gs e, Serves m false k (b ++ v) gs e →
      Serves m false p (u ++ v) (fs ++ gs) e

theorem Serves.continues {u v : Bytes} (h : Serves m false p u fs e)
    (hs : Steady m p (u ++ v)) : e.Continues m p u v fs := by
  induction h with
  | more h =>
    obtain ⟨hsteady, hcut⟩ := hs.wait h
    exact ⟨hsteady, fun gs e' hserve => hserve.congr hcut⟩
  | fail h =>
    refine .fail ?_
    rw [cutFrom_append (by simp [h]), h, Cut.extend]
  | @msg p k u r f fs e h _ ih =>
    have hcut : cutFrom m false p (u ++ v) = .msg f k (r ++ v) := by
      rw [cutFrom_append (by simp [h]), h, Cut.extend]
    have hrest := ih (hs.msg hcut)
    cases e with
    | fail => exact .msg hcut hrest
    | more => exact ⟨hrest.1, fun gs e' hserve => .msg hcut (hrest.2 gs e' hserve)⟩

/-- **On a steady stream the reads end as one read of all would**, from any moment on.  The
induction is on the reads. -/
theorem run_of_steady (xs : List Bytes) (hw : c.Waits m p) (hsteady : Steady m p (c.socket.readBuf ++ xs.flatten))
    (hserve : Serves m false p (c.socket.readBuf ++ xs.flatten) fs e) : (c.reads m xs).outcome =
      e.outcome (c.cut ++ fs) (c.consumed + (c.socket.readBuf ++ xs.flatten).length) := by
  induction xs generalizing c p fs e with
  | nil =>
    rw [flatten_nil, append_nil] at hserve
    obtain ⟨rfl, rfl⟩ := hserve.unique (.more hw.stable)
    rw [End.outcome, append_nil]
    exact outcome_of_more hw.verdict
  | cons x xs ih =>
    rw [flatten_cons, ← append_assoc] at hserve hsteady ⊢
    obtain ⟨gs, e₁, hread⟩ := @exists_serves m false p (c.socket.readBuf ++ x)
    have hb := hw.read hread
    have hsplit := hread.continues hsteady
    rw [reads_cons]
    cases e₁ with
    | fail b =>
      obtain ⟨rfl, rfl⟩ := hserve.unique hsplit
      have htotal : c.consumed + (c.socket.readBuf ++ x).length - b.length =
          c.consumed + (c.socket.readBuf ++ x ++ xs.flatten).length - (b ++ xs.flatten).length := by
        simp only [length_append]
        omega
      rw [reads_of_failed hb.ended, hb.outcome, End.outcome, End.outcome, htotal]
    | more k b =>
      obtain ⟨gs', e', hrest⟩ := @exists_serves m false k (b ++ xs.flatten)
      obtain ⟨rfl, rfl⟩ := hserve.unique (hsplit.2 gs' e' hrest)
      have hbuf : (c.read (twoHandlers m) x).socket.readBuf = b := hb.readBuf
      have hcut : (c.read (twoHandlers m) x).cut = c.cut ++ gs := hb.cut
      have htotal : (c.read (twoHandlers m) x).consumed + (b ++ xs.flatten).length =
          c.consumed + (c.socket.readBuf ++ x ++ xs.flatten).length := by
        have hcons : (c.read (twoHandlers m) x).consumed + b.length =
            c.consumed + (c.socket.readBuf ++ x).length := hb.consumed
        rw [length_append, length_append]
        omega
      rw [ih (hb.waits hw.server hread.stable) (hbuf ▸ hsplit.1) (hbuf ▸ hrest), hbuf, hcut, htotal, append_assoc]

/-! ### A stream that is cut alike -/

theorem Splits.append {xs ys : List Bytes} {u v : Bytes} (hx : Splits xs u) (hy : Splits ys v) :
    Splits (xs ++ ys) (u ++ v) :=
  ⟨fun x h => (mem_append.mp h).elim (hx.1 x) (hy.1 x), by
    rw [flatten_append, hx.2, hy.2]⟩

theorem splits_singleton {u : Bytes} (h : u ≠ []) : Splits [u] u := ⟨fun x hx => by rwa [mem_singleton.mp hx], by simp⟩

theorem CutAlike.after {ws : List Bytes} {w : Bytes} (h : CutAlike m c (w ++ r))
    (hws : Splits ws w) : CutAlike m (c.reads m ws) r := by
  intro xs ys hx hy
  rw [← reads_append, ← reads_append]
  exact h _ _ (hws.append hx) (hws.append hy)

/-- A connection with nothing in its buffer. -/
structure Conn.Fresh (c : Conn) (m : ℕ) (p : Kind) : Prop extends c.Waits m p where
  empty : c.socket.readBuf = []

theorem Conn.Fresh.outcome_read (h : c.Fresh m p) (hserve : Serves m false p s fs e) :
    (c.reads m [s]).outcome = e.outcome (c.cut ++ fs) (c.consumed + s.length) := by
  have hread := (h.read (x := s) (by rwa [h.empty, nil_append])).outcome
  simp only [h.empty, nil_append] at hread
  exact hread

theorem Conn.Waits.read_fresh {x : Bytes} (h : c.Waits m p)
    (hserve : Serves m false p (c.socket.readBuf ++ x) fs (.more k [])) :
    (c.read (twoHandlers m) x).Fresh m k ∧ (c.read (twoHandlers m) x).cut = c.cut ++ fs ∧
      (c.read (twoHandlers m) x).consumed = c.consumed + (c.socket.readBuf ++ x).length := by
  have hb := h.read hserve
  exact ⟨⟨hb.waits h.server hserve.stable, hb.readBuf⟩, hb.cut, hb.consumed⟩

theorem serves_corrupted {w : Bytes} (h : scan m w = .corrupted k []) : Serves m false k w [] (.more k.other []) := by
  refine .more ?_
  rw [cutFrom_of_corrupted_eq h, parseFrame_eq_answer, scan_nil]
  rfl

section

variable (h : c.Fresh m p)
include h

/-- **A corrupted frame can be read so that the other protocol is preferred behind it**: by
itself, or in two parts. -/
theorem Conn.Fresh.exists_pop {w : Bytes} (hw : scan m w = .corrupted k []) :
    ∃ ws, Splits ws w ∧ (c.reads m ws).Fresh m k.other ∧ (c.reads m ws).cut = c.cut ∧
      (c.reads m ws).consumed = c.consumed + w.length := by
  obtain ⟨w₀, hw₀, -, hlen⟩ := scan_consumed_corrupted hw
  rw [← append_nil w₀, ← hw₀] at hlen
  have hne : w ≠ [] := ne_nil_of_length_pos (Nat.lt_of_lt_of_le (by decide) hlen)
  by_cases hk : k = p
  · subst hk
    have hread := h.read_fresh (x := w) (by rw [h.empty]; exact serves_corrupted hw)
    rw [h.empty, append_nil, nil_append] at hread
    exact ⟨[w], splits_singleton hne, hread⟩
  · obtain ⟨a, w', rfl⟩ := exists_cons_of_ne_nil hne
    have hw' : w' ≠ [] := by
      rintro rfl
      exact absurd hlen (by simp [headerSize])
    -- the first byte makes the protocol of the frame the preferred one
    have ha : scan m [a] = .more (some k) := by
      have := scan_of_append_eq (m := m) (u := [a]) (v := w') (by simp) hw' (by
        rw [singleton_append, hw, Scan.rest])
      rwa [singleton_append, hw, Scan.kind] at this
    have hserve : Serves m false p (c.socket.readBuf ++ [a]) [] (.more k [a]) := by
      rw [h.empty, nil_append]
      exact .more (cutFrom_of_more_some ha)
    have hb := h.read hserve
    have hbuf : (c.read (twoHandlers m) [a]).socket.readBuf = [a] := hb.readBuf
    have hcons : (c.read (twoHandlers m) [a]).consumed + 1 = c.consumed + 1 := by
      have := hb.consumed
      rwa [h.empty] at this
    have hread := (hb.waits h.server hserve.stable).read_fresh (x := w') (by
      rw [hbuf]
      exact serves_corrupted hw)
    rw [hbuf, append_nil, Nat.succ.inj hcons, show _ = c.cut ++ [] from hb.cut, append_nil] at hread
    exact ⟨[[a], w'], (splits_singleton (by simp)).append (splits_singleton hw'), hread⟩

omit h in
theorem rejected_of_cutFrom {b : Bytes} (h : cutFrom m false p s = .fail b)
    (hlen : s.length ≤ b.length) : (scan m s).Rejected := by
  cases hs : scan m s with
  | unknown | tooBig => trivial
  | more l =>
    cases l with
    | none =>
      obtain rfl := scan_eq_more_none_iff.mp hs
      simp [cutFrom_nil] at h
    | some => simp [cutFrom_of_more_some hs] at h
  | frame => simp [cutFrom_of_frame hs] at h
  | corrupted l r =>
    obtain ⟨w, hw, -, -, hwlen⟩ := scan_consumed (m := m) (s := s) (r := r) (by rw [hs, Scan.rest])
    have hlt : r.length < s.length := by
      rw [hw, length_append]
      exact Nat.lt_add_of_pos_left (Nat.lt_of_lt_of_le (by decide) hwlen)
    have hle : b.length ≤ r.length := by
      by_cases hl : l = p
      · subst hl
        rw [cutFrom_of_corrupted_eq hs] at h
        have hb := buf_settle l.other (parseFrame l.other m r)
        rw [h, Cut.buf] at hb
        exact hb ▸ parseFrame_length_le _ _ _
      · rw [cutFrom_of_corrupted_ne hs hl] at h
        cases h
        exact Nat.le_refl _
    omega

theorem Conn.Fresh.rejected (hout : ∀ xs, Splits xs r → (c.reads m xs).outcome = (c.cut, .failed, some c.consumed)) :
    (scan m r).Rejected := by
  by_cases hr : r = []
  · have := hout [] ⟨by simp, hr.symm⟩
    rw [show c.reads m [] = c from rfl, outcome_of_more h.verdict] at this
    simp at this
  obtain ⟨fs, e, hserve⟩ := @exists_serves m false p r
  have hone := (h.outcome_read hserve).symm.trans (hout [r] (splits_singleton hr))
  cases e with
  | more => simp [End.outcome] at hone
  | fail =>
    simp only [End.outcome, Prod.mk.injEq, append_right_eq_self, Option.some.injEq, true_and] at hone
    obtain ⟨rfl, hlen⟩ := hone
    cases hserve with
    | fail hcut =>
      exact rejected_of_cutFrom hcut (by omega)

/-- If one read of all fails behind a corrupted frame, what follows must be rejected. -/
theorem Conn.Fresh.rejected_behind {xs : List Bytes} {u : Bytes}
    (halike : CutAlike m c s) (hcut : cutFrom m false p s = .fail r) (hs : s = u ++ r)
    (hxs : Splits xs u) (hx : (c.reads m xs).Fresh m k) (hx' : (c.reads m xs).cut = c.cut)
    (hx'' : (c.reads m xs).consumed = c.consumed + u.length) : (scan m r).Rejected := by
  refine hx.rejected fun ys hys => ?_
  have hne : s ≠ [] := by
    rintro rfl
    simp [cutFrom_nil] at hcut
  rw [← reads_append, halike _ [s] (hs ▸ hxs.append hys) (splits_singleton hne),
    h.outcome_read (.fail hcut), End.outcome, hx', hx'', append_nil, hs, length_append,
    ← Nat.add_assoc, Nat.add_sub_cancel]

theorem steady_of_corrupted (halike : CutAlike m c s) (hs : scan m s = .corrupted k r)
    (ih : ∀ c' : Conn, c'.Fresh m k.other → CutAlike m c' r → Steady m k.other r) : Steady m p s := by
  obtain ⟨w, hw, hscan, -⟩ := scan_consumed_corrupted hs
  obtain ⟨ws, hws, hfresh, hcut, hcons⟩ := h.exists_pop hscan
  have hbehind : cutFrom m false p s = .fail r → (scan m r).Rejected := fun hfail =>
    h.rejected_behind halike hfail hw hws hfresh hcut hcons
  by_cases hk : k = p
  · subst hk
    have hr := ih _ hfresh ((hw ▸ halike).after hws)
    have hsettle := cutFrom_of_corrupted_eq hs
    -- a frame of the same protocol fails the socket only if it is there already
    have hsame : (scan m r).kind = some k → (scan m r).Rejected := fun hkind =>
      hbehind (hsettle.trans (settle_of_kind_ne hkind k.other_ne.symm))
    cases hscan' : scan m r with
    | unknown | tooBig => exact .corruptedRejected hs (by rw [hscan']; trivial)
    | more l =>
      cases l with
      | none => exact .corruptedMore hs (.inl hscan')
      | some l =>
        by_cases hl : l = k
        · exact .corruptedRejected hs (hsame (by rw [hscan', Scan.kind, hl]))
        · exact .corruptedMore hs (.inr (by rw [hscan', Kind.eq_other_of_ne hl]))
    | frame f =>
      by_cases hl : f.kind = k
      · exact .corruptedRejected hs (hsame (by rw [hscan', Scan.kind, hl]))
      · have hf := Kind.eq_other_of_ne hl
        exact .corruptedFrame hs hscan' hf (hf ▸ hr.msg (cutFrom_of_frame hscan'))
    | corrupted l =>
      by_cases hl : l = k
      · exact .corruptedRejected hs (hsame (by rw [hscan', Scan.kind, hl]))
      · obtain rfl := Kind.eq_other_of_ne hl
        obtain ⟨w', hw', hscan'', -⟩ := scan_consumed_corrupted hscan'
        obtain ⟨ws', hws', hfresh', hcut', hcons'⟩ := hfresh.exists_pop hscan''
        rw [← reads_append] at hfresh' hcut' hcons'
        refine .corruptedTwice hs hscan' (h.rejected_behind halike
          (hsettle.trans (settle_of_corrupted hscan')) (u := w ++ w') ?_ (hws.append hws') hfresh'
          (hcut'.trans hcut) ?_)
        · rw [hw, hw', append_assoc]
        · rw [hcons', hcons, length_append, Nat.add_assoc]
  · exact .corruptedRejected hs (hbehind (cutFrom_of_corrupted_ne hs hk))

/-- **A stream that is cut alike is steady.**  The induction is on its length. -/
theorem steady_of_cutAlike (halike : CutAlike m c s) : Steady m p s := by
  induction hn : s.length using Nat.strong_induction_on generalizing c p s with
  | _ n ih =>
    have hlt : ∀ {w r : Bytes}, s = w ++ r → headerSize ≤ w.length → r.length < n := by
      intro w r hs hlen
      rw [← hn, hs, length_append]
      exact Nat.lt_add_of_pos_left (Nat.lt_of_lt_of_le (by decide) hlen)
    cases hs : scan m s with
    | more => exact .more hs
    | unknown | tooBig => exact .rejected (by rw [hs]; trivial)
    | frame f =>
      obtain ⟨w, hw, hscan, hlen⟩ := scan_consumed_frame hs
      have hne : w ≠ [] := ne_nil_of_length_pos (Nat.lt_of_lt_of_le (by decide) hlen)
      have hread := h.read_fresh (x := w) (by
        rw [h.empty]
        exact .msg (cutFrom_of_frame hscan) (.more (cutFrom_nil f.kind)))
      exact .frame hs (ih _ (hlt hw hlen) hread.1 ((hw ▸ halike).after (splits_singleton hne)) rfl)
    | corrupted =>
      obtain ⟨w, hw, -, hlen⟩ := scan_consumed_corrupted hs
      exact steady_of_corrupted h halike hs fun c' h' halike' => ih _ (hlt hw hlen) h' halike' rfl

end

theorem Conn.server_fresh : server.Fresh m .baiduStd := ⟨⟨rfl, rfl, .inr ⟨rfl, rfl, rfl⟩, cutFrom_nil _⟩, rfl⟩

/-- **Cutting on the server does not depend on fragmentation exactly on steady streams.** -/
theorem server_cuts_alike_iff (m : ℕ) (s : Bytes) : CutAlike m .server s ↔ Steady m .baiduStd s := by
  refine ⟨steady_of_cutAlike server_fresh, fun hs xs ys hx hy => ?_⟩
  obtain ⟨fs, e, hserve⟩ := @exists_serves m false .baiduStd s
  have hend : ∀ zs, Splits zs s → (server.reads m zs).outcome = e.outcome fs s.length := by
    intro zs hz
    have := run_of_steady (m := m) (c := .server) zs server_fresh.toWaits
      (by rw [hz.2]; exact hs) (by rw [hz.2]; exact hserve)
    rw [hz.2] at this
    simpa [server] using this
  rw [hend xs hx, hend ys hy]

/-- A frame of `body_size` 0 and `meta_size` 1, and a frame without a body behind it. -/
def corruptedThenFrame : Bytes :=
  Kind.baiduStd.magic ++ pack32 0 ++ pack32 1 ++ Kind.baiduStd.magic ++ pack32 0 ++ pack32 0

/-- Read at once the two fail the socket; read one by one the second is cut. -/
theorem corrupted_frame_not_cut_alike : let one := server.reads 64 [corruptedThenFrame]
    let two := server.reads 64 [corruptedThenFrame.take 12, corruptedThenFrame.drop 12]
    one.outcome = ([], .failed, some 12) ∧ two.outcome = ([⟨.baiduStd, [], []⟩], .more, none) := by
  decide

end Brpc.Messenger
