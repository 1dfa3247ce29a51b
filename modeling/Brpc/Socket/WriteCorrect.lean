/-
# The write queue of a socket is correct

`Correct` says what a user of `Socket::Write` relies on, and holds after every run whose steps
fit (`State.write_queue_correct`).  `StartWrite` does not test `Failed()` again after the
exchange, so a request may be written behind the gap that dropped ones leave
(`State.written_behind_gap`).
-/

import Brpc.Socket.WriteProgress

namespace Brpc.Socket

open Lib List Function State

variable {call : Id → Call} {s : State}

/-- What the callers of `Write` rely on. -/
structure Correct (call : Id → Call) (s : State) : Prop where
  /-- At most one thread owns the right to write. -/
  oneOwner : ∀ t u q q' f f', s.pc t = .own q f → s.pc u = .own q' f' → t = u
  /-- The bytes on the connection are those of the first requests, in the order of
  their exchanges, none of them after a shutdown. -/
  written : s.out <+: bytes call (upToShutdown call s.order)
  /-- A request that was successful is on the connection as a whole. -/
  successful : ∀ r, (r, true) ∈ s.finished → ∃ earlier later, s.order = earlier ++ r :: later ∧
    bytes call (earlier ++ [r]) <+: s.out
  /-- No byte is lost if all requests were successful. -/
  lossless : (∀ r ∈ s.order, (r, true) ∈ s.finished) → s.out = bytes call s.order
  /-- No request is returned twice. -/
  once : (s.finished.map Prod.fst).Nodup
  /-- `_write_head` is NULL once the last request is returned. -/
  headNull : (∀ r ∈ s.order, r ∈ s.finished.map Prod.fst) → s.head = none
  /-- When no call is under way, every request that passed the checks is returned. -/
  settled : Settled s → s.head = none ∧ ∀ r, s.pc r ≠ .idle → r ∈ s.finished.map Prod.fst
  /-- No thread follows NULL or UNCONNECTED. -/
  sound : ∀ t, s.pc t ≠ .broken

theorem Account.lossless (h : Account call s) (hall : ∀ r ∈ s.order, (r, true) ∈ s.finished) :
    s.out = bytes call s.order := by
  have hle : s.out <+: bytes call s.order := h.bound.trans (bytes_mono prefix_upToShutdown)
  rcases eq_nil_or_concat s.order with hnil | ⟨l, z, hl⟩
  · rw [hnil] at hle ⊢
    exact prefix_nil.1 hle
  · rw [concat_eq_append] at hl
    obtain ⟨earlier, later, hsplit, hz⟩ := h.successful z (.inl (hall z (by rw [hl]; simp)))
    -- The last request occurs once, so the requests before it are all the others.
    have hlater : later = [] := by
      have hnodup := h.nodup
      rw [hsplit] at hnodup
      rcases eq_nil_or_concat later with hnil | ⟨l', z', rfl⟩
      · exact hnil
      · rw [concat_eq_append] at hsplit hnodup
        rw [hl, ← cons_append, ← append_assoc] at hsplit
        obtain rfl : z = z' := (List.cons.inj (append_inj' hsplit rfl).2).1
        have := (nodup_cons.1 (nodup_append.1 hnodup).2.1).1
        exact absurd (mem_append_right _ (mem_singleton_self z)) this
    rw [hlater] at hsplit
    rw [← hsplit] at hz
    exact hle.eq_of_length (le_antisymm hle.length_le hz.length_le)

theorem Inv.head_eq_none (h : Inv call s) (hall : ∀ r ∈ s.order, r ∈ s.finished.map Prod.fst) : s.head = none := by
  obtain ⟨hacc, ⟨t, req, ph, v, h⟩ | h⟩ := h
  -- The last request of an owner's list is not returned yet.
  · have hmem : v.last ∈ v.rest := mem_append_right _ mem_cons_self
    have hlast : v.last ∉ v.past := by
      intro hpast
      have hnodup := hacc.nodup
      rw [h.order, View.all] at hnodup
      exact (nodup_append.1 hnodup).2.2 v.last hpast v.last hmem rfl
    exact absurd (hall v.last (h.toOwned.mem_order hmem)) (h.once.not_finished hlast)
  · exact h.head

theorem Inv.settled (h : Inv call s) (hs : Settled s) :
    s.head = none ∧ ∀ r, s.pc r ≠ .idle → r ∈ s.finished.map Prod.fst := by
  obtain ⟨hacc, ⟨t, req, ph, v, h⟩ | h⟩ := h
  · have hpc := h.owner
    rcases hs t with ht | ht <;> rw [ht] at hpc <;> cases hpc
  · refine ⟨h.head, fun r hr => ?_⟩
    have hdone := (hs r).resolve_left hr
    have hmem : r ∈ s.order := (hacc.exchanged r).2 ⟨hr, by rw [hdone]; nofun⟩
    obtain ⟨ok, hfin | ⟨t, ht⟩⟩ := (h.once.through r).1 hmem
    · exact mem_map.2 ⟨(r, ok), hfin, rfl⟩
    · rcases hs t with ht' | ht' <;> rw [ht'] at ht <;> cases ht

theorem Inv.correct (h : Inv call s) : Correct call s where
  oneOwner t u q q' f f' ht hu := by
    obtain ⟨-, ⟨w, req, ph, v, hheld⟩ | hrest⟩ := h
    · rw [hheld.alone t q f ht, hheld.alone u q' f' hu]
    · exact absurd ht (hrest.alone t q f)
  written := h.1.bound
  successful r hr := h.1.successful r (.inl hr)
  lossless := h.1.lossless
  once := by
    obtain ⟨-, ⟨t, req, ph, v, hheld⟩ | hrest⟩ := h
    · exact hheld.once.nodup
    · exact hrest.once.nodup
  headNull := h.head_eq_none
  settled := h.settled
  sound := h.1.sound

/-! ## Runs -/

theorem Outcome.pc_of_ne {s' : State} {t req : Id} {a : Answer} {v : View} {ph : Phase}
    (h : Outcome call s t req a v ph s') : ∀ u, u ≠ t → s'.pc u = s.pc u := by
  cases h with
  | spin => exact fun _ _ => rfl
  | quiet he | start _ _ he | put _ _ _ _ he | succeed _ _ he | drop _ he | clear _ he
  | merge _ he | complete _ _ _ he => exact he.pc

theorem Inv.thread_idle (h : Inv call s) (t : Id) (a : Answer) (r : Id)
    (hr : (s.thread call t a).pc r ≠ .idle) : s.pc r ≠ .idle := by
  by_cases hrt : r = t
  · subst hrt
    intro hidle
    rw [thread, hidle] at hr
    exact hr hidle
  · have hsame : (s.thread call t a).pc r = s.pc r := by
      rw [thread]
      cases hpc : s.pc t with
      | idle | done | broken => rfl
      | link | leave => exact update_of_ne hrt _ _
      | entered =>
        rw [State.exchange]
        cases s.head with
        | none | some => exact update_of_ne hrt _ _
      | own req ph =>
        obtain ⟨hacc, ⟨t', req', ph', v, hheld⟩ | hrest⟩ := h
        · obtain ⟨rfl, rfl, rfl⟩ := hheld.eq_of_own hpc
          exact (hheld.toOwned.outcome hacc.toOrderly a).pc_of_ne r hrt
        · exact absurd hpc (hrest.alone t req ph)
    rwa [hsame] at hr

/-- The calls under way and those that are through can be listed in every state reached. -/
theorem Inv.lists_step (h : Inv call s) (hl : ∃ live, Lists live s) (i : Input) :
    ∃ live, Lists live (s.step call i) := by
  obtain ⟨live, hl⟩ := hl
  cases i with
  | setFailed => exact ⟨live, hl.nodup, hl.covers⟩
  | run t a => exact ⟨live, hl.moved (h.thread_idle t a)⟩
  | write r =>
    rw [State.step, State.write]
    split
    · refine ⟨live.insert r, hl.nodup.insert, fun q hq => ?_⟩
      rw [mem_insert_iff]
      by_cases hqr : q = r
      · exact .inl hqr
      · change update s.pc r _ q ≠ _ at hq
        rw [update_of_ne hqr] at hq
        exact .inr (hl.covers q hq)
    · exact ⟨live, hl⟩

theorem inv_run {is : List Input} (h : Along (step call) (StepFits call) (init call) is) :
    Inv call (run (step call) (init call) is) ∧ ∃ live, Lists live (run (step call) (init call) is) := by
  refine run_invariant (I := fun s => Inv call s ∧ ∃ live, Lists live s)
    (fun s i hs hfit => ⟨hs.1.step i hfit, hs.1.lists_step hs.2 i⟩) is _ ⟨Inv.init call, ?_⟩ h
  exact ⟨[], nodup_nil, fun _ hr => absurd rfl hr⟩

theorem Inv.trace (h : Inv call s) {f : ℕ → Input}
    (hgoes : ∀ n, Goes call (trace (State.step call) s f n) (f n)) (n : ℕ) :
    Inv call (Lib.trace (State.step call) s f n) := by
  induction n with
  | zero => exact h
  | succ n ih => exact ih.step (f n) (hgoes n).1

namespace State

/-- **The write queue is correct in every run whose steps fit,** and all calls under way come to
their end, if each thread gets its turn again and again and no write stalls. -/
theorem write_queue_correct (call : Id → Call) (is : List Input)
    (h : Along (step call) (StepFits call) (init call) is) :
    Correct call (run (step call) (init call) is) ∧ ∀ f : ℕ → Input, Fair Input.thread f →
        (∀ n, Goes call (trace (step call) (run (step call) (init call) is) f n) (f n)) →
        ∃ n, Settled (trace (step call) (run (step call) (init call) is) f n) ∧
          Correct call (trace (step call) (run (step call) (init call) is) f n) := by
  obtain ⟨hinv, live, hl⟩ := inv_run h
  refine ⟨hinv.correct, fun f hfair hgoes => ?_⟩
  obtain ⟨n, hn⟩ := hinv.settles hl hfair hgoes
  exact ⟨n, hn, (hinv.trace hgoes n).correct⟩

/-! ## Two requests -/

/-- Two requests, of two bytes and of one. -/
def twoCalls (r : Id) : Call where
  data := if r = 0 then [1, 2] else [3]
  shutdownWrite := false
  isMessage := false

/-- A connected socket; the write takes `n` bytes. -/
def took (n : ℕ) : Answer := ⟨.connected, false, n, .ok, false⟩

/-- The second request comes in while the first is written, and is taken over. -/
def takenOver : List Input :=
  [.write 0, .write 1, .run 0 (took 0), .run 1 (took 0), .run 1 (took 0), .run 0 (took 0),
    .run 0 (took 0), .run 0 (took 2), .run 0 (took 0), .run 0 (took 0), .run 0 (took 0),
    .run 0 (took 0), .run 0 (took 1), .run 0 (took 0), .run 0 (took 0), .run 0 (took 0),
    .run 0 (took 0)]

/-- The first request is written by half and fails; the second, which passed the test of
`Failed()` before, gets the right to write after it. -/
def behindGap : List Input :=
  [.write 0, .write 1, .run 0 (took 0), .run 0 (took 0), .run 0 (took 0), .run 0 (took 1),
    .run 0 (took 0), .run 0 (took 0), .run 0 ⟨.connected, false, 0, .fatal, false⟩,
    .run 0 (took 0), .run 0 (took 0), .run 0 (took 0), .run 1 (took 0), .run 1 (took 0),
    .run 1 (took 0), .run 1 (took 1)]

/-- **A request is written behind a gap.**  Of `1 2` and `3` the bytes `1 3` are on the
connection. -/
theorem written_behind_gap : (run (step twoCalls) (init twoCalls) behindGap).out = [1, 3] ∧
      ¬Correct twoCalls (run (step twoCalls) (init twoCalls) behindGap) := by
  refine ⟨by decide, fun h => ?_⟩
  exact absurd h.written (by decide)

theorem takenOver_fits : Along (step twoCalls) (StepFits twoCalls) (init twoCalls) takenOver := by
  have hclean : ¬Dirty (run (step twoCalls) (init twoCalls) [.write 0, .write 1]) := by
    rintro ⟨r, h | ⟨t, h⟩⟩
    · cases h
    · change update (update (fun _ => Pc.idle) 0 .entered) 1 .entered t = _ at h
      by_cases h₁ : t = 1 <;> by_cases h₀ : t = 0 <;> simp [update, h₁, h₀] at h
  have hlater : ∀ {s : State} {t : Id} {a : Answer}, s.pc t ≠ .entered ∨ s.head ≠ none →
      StepFits twoCalls s (.run t a) := by
    rintro s t a (h | h)
    · exact fun hpc => absurd hpc h
    · exact fun _ hhead => absurd hhead h
  exact ⟨nofun, nofun, fun _ _ => .inl hclean, hlater (by decide), hlater (by decide),
    hlater (by decide), hlater (by decide), hlater (by decide), hlater (by decide),
    hlater (by decide), hlater (by decide), hlater (by decide), hlater (by decide),
    hlater (by decide), hlater (by decide), hlater (by decide), hlater (by decide), trivial⟩

/-- Both requests are written and returned. -/
theorem two_requests_written :
    let s := run (step twoCalls) (init twoCalls) takenOver
    s.out = [1, 2, 3] ∧ s.finished = [(0, true), (1, true)] ∧ Correct twoCalls s :=
  ⟨by decide, by decide, (write_queue_correct twoCalls takenOver takenOver_fits).1⟩

end State
end Brpc.Socket
