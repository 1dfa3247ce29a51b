/-
# The history of the attempts

`history es k` are the effects of attempt `k` among `es`; while the attempt is open it mirrors its
`Call` (`Open`), and `Call::OnComplete` settles it (`Open.settled`).  `Tracked`: the current and the
unfinished attempt are open, those after the current one have no history, and every other one is
settled.  Whoever is said to have been answered has been (`Answered`).
-/

import Brpc.Controller.ExactlyOnce

namespace Brpc.Controller

open List Effect Call

namespace Effect

/-- `Call::OnComplete` was entered. -/
def isComplete : Effect → Bool
  | .complete .. => true
  | _ => false

/-- `_lb->Feedback`. -/
def isFeedback : Effect → Bool
  | .feedback .. => true
  | _ => false

/-- A selection that asks for feedback. -/
def asksFeedback : Effect → Bool
  | .select _ _ needFeedback => needFeedback
  | _ => false

/-- What becomes of the sending socket. -/
def isRelease : Effect → Bool
  | .returnToPool .. | .onProgressiveReadCompleted .. | .setFailedSock .. => true
  | _ => false

/-- The effects that decide whether an attempt is settled. -/
def counts : Effect → Bool
  | .complete .. | .feedback .. | .returnToPool .. | .onProgressiveReadCompleted .. => true
  | .setFailedSock .. | .select .. => true
  | _ => false

variable {e : Effect}

theorem counts_of_isComplete (h : e.isComplete) : e.counts := by
  cases e <;> first | rfl | exact absurd h (by simp [isComplete])

theorem counts_of_isFeedback (h : e.isFeedback) : e.counts := by
  cases e <;> first | rfl | exact absurd h (by simp [isFeedback])

theorem counts_of_asksFeedback (h : e.asksFeedback) : e.counts := by
  cases e <;> first | rfl | exact absurd h (by simp [asksFeedback])

theorem counts_of_isRelease (h : e.isRelease) : e.counts := by
  cases e <;> first | rfl | exact absurd h (by simp [isRelease])

theorem attempt_of_counts (h : e.counts) : e.attempt ≠ none := by
  cases e <;> simp_all [attempt, counts]

end Effect

def history (es : List Effect) (k : ℕ) : List Effect := es.filter fun e => e.attempt = some k

@[simp] theorem history_append (es es' : List Effect) (k : ℕ) :
    history (es ++ es') k = history es k ++ history es' k := filter_append ..

theorem history_eq_nil {es : List Effect} {k : ℕ} (h : ∀ e ∈ es, e.attempt ≠ some k) : history es k = [] :=
  filter_eq_nil_iff.2 fun e he => by simpa using h e he

theorem history_of_attempt_none {es : List Effect} (h : ∀ e ∈ es, e.attempt = none) (k : ℕ) :
    history es k = [] := history_eq_nil fun e he => by simp [h e he]

/-- The history of an attempt that is not completed, mirrored by its call. -/
structure Open (c : Call) (h : List Effect) : Prop where
  complete : h.countP isComplete = 0
  feedback : h.countP isFeedback = 0
  release : h.countP isRelease = 0
  asks : h.countP asksFeedback = if c.needFeedback then 1 else 0
  connect : ∀ sock, .connect c.nretry sock ∈ h ↔ c.sendingSock = some sock

/-- The history of attempt `k` when it is settled. -/
structure SettledHistory (pooled : Bool) (k : ℕ) (h : List Effect) : Prop where
  complete : h.countP isComplete = 1
  feedback : h.countP isFeedback = h.countP asksFeedback
  release : pooled → ∀ sock, .connect k sock ∈ h → h.countP isRelease = 1 ∧
    (.returnToPool k sock ∈ h ∨ .setFailedSock k sock ∈ h ∨ .onProgressiveReadCompleted k sock ∈ h)

namespace Call

/-- A pooled connection that no stream creator manages. -/
def pooled (s : State) : Bool := s.connectionType = .pooled ∧ ¬s.streamCreator

section OnComplete

variable {s : State} {c : Call} {ct : ConnectionType} {sc : Bool} {ec : ErrorCode} {responded endOfRpc : Bool}

variable {e : Effect}

theorem mem_closeSock (h : e ∈ c.closeSock sc ec) : e = .setFailedPeer c.peerId ∨ ∃ sock, c.sendingSock = some sock ∧
      (e = .onProgressiveReadCompleted c.nretry sock ∧ sock.progressive ∨ e = .setFailedSock c.nretry sock) := by
  rcases mem_append.1 h with h | h
  · split at h
    next sock hs =>
      refine .inr ⟨sock, hs, ?_⟩
      split at h
      next hp =>
        exact .inl ⟨mem_singleton.1 h, hp⟩
      · split at h
        · exact absurd h not_mem_nil
        · exact .inr (mem_singleton.1 h)
    · exact absurd h not_mem_nil
  · split at h
    · exact .inl (mem_singleton.1 h)
    · exact absurd h not_mem_nil

theorem mem_settleSock (h : e ∈ c.settleSock ct sc ec responded) :
    e = .setFailedPeer c.peerId ∨ ∃ sock, c.sendingSock = some sock ∧
      (e = .onProgressiveReadCompleted c.nretry sock ∧ sock.progressive ∨ e = .setFailedSock c.nretry sock ∨
        e = .returnToPool c.nretry sock ∧ (ec = 0 ∨ responded)) := by
  have hclose : e ∈ c.closeSock sc ec → e = .setFailedPeer c.peerId ∨
      ∃ sock, c.sendingSock = some sock ∧
        (e = .onProgressiveReadCompleted c.nretry sock ∧ sock.progressive ∨
          e = .setFailedSock c.nretry sock ∨
          e = .returnToPool c.nretry sock ∧ (ec = 0 ∨ responded)) := fun h =>
    (mem_closeSock h).imp_right fun ⟨sock, hs, h⟩ => ⟨sock, hs, h.imp_right .inl⟩
  unfold settleSock at h
  split at h
  · exact absurd h not_mem_nil
  · split at h
    · exact .inl (mem_singleton.1 h)
    · exact absurd h not_mem_nil
  · split at h
    next sock hs =>
      split at h
      next hr =>
        split at h
        next hp =>
          exact .inr ⟨sock, hs, .inl ⟨mem_singleton.1 h, hp⟩⟩
        · exact .inr ⟨sock, hs, .inr (.inr ⟨mem_singleton.1 h, hr⟩)⟩
      · exact hclose h
    · exact hclose h
  · exact hclose h

theorem mem_onComplete (h : e ∈ c.onComplete s ec responded endOfRpc) :
    e = .complete c.nretry ec responded endOfRpc ∨ e = .destroyStreamUserData c.nretry ∨
      e = .addRecentError c.nretry ∨ e = .feedbackCircuitBreaker c.nretry ec ∨
      e ∈ c.settleSock s.connectionType s.streamCreator ec responded ∨ e = .setLogOff c.peerId ∨
      e = .feedback c.nretry c.peerId ec s.lb := by
  unfold onComplete at h
  simp only [mem_append, mem_singleton] at h
  rcases h with ((((h | h) | h) | h) | h) | h
  · exact .inl h
  · split at h <;> simp_all
  · split at h
    · rcases mem_append.1 h with h | h <;> split at h <;> simp_all
    · exact absurd h not_mem_nil
  · simp [h]
  all_goals split at h <;> simp_all

theorem attempt_of_mem_onComplete (h : e ∈ c.onComplete s ec responded endOfRpc) :
    e.attempt = none ∨ e.attempt = some c.nretry := by
  rcases mem_onComplete h with rfl | rfl | rfl | rfl | h | rfl | rfl
  · exact .inr rfl
  · exact .inr rfl
  · exact .inr rfl
  · exact .inr rfl
  · rcases mem_settleSock h with rfl | ⟨sock, -, ⟨rfl, -⟩ | rfl | ⟨rfl, -⟩⟩
    · exact .inl rfl
    all_goals exact .inr rfl
  · exact .inl rfl
  · exact .inr rfl

theorem history_onComplete_of_ne {k : ℕ} (h : k ≠ c.nretry) :
    history (c.onComplete s ec responded endOfRpc) k = [] := by
  refine history_eq_nil fun e he heq => ?_
  rcases attempt_of_mem_onComplete he with h' | h' <;> rw [heq] at h'
  · simp at h'
  · exact h (Option.some.inj h')

variable {p : Effect → Bool}

theorem countP_history {es : List Effect} {k : ℕ}
    (h : ∀ e ∈ es, p e → e.attempt = some k) : (history es k).countP p = es.countP p := by
  unfold history
  rw [countP_filter]
  refine countP_congr fun e he => ?_
  simp only [Bool.and_eq_true, decide_eq_true_eq, and_iff_left_iff_imp]
  exact h e he

theorem settleSock_countP (hp : ∀ e, p e → ¬e.isRelease)
    (hpeer : p (.setFailedPeer c.peerId) = false) : (c.settleSock ct sc ec responded).countP p = 0 := by
  refine countP_eq_zero.2 fun e he hpe => ?_
  rcases mem_settleSock he with rfl | ⟨sock, -, ⟨rfl, -⟩ | rfl | ⟨rfl, -⟩⟩
  · simp [hpeer] at hpe
  all_goals exact hp _ hpe rfl

theorem settleSock_pooled (ec : ErrorCode) (responded : Bool) {sock : SendingSock} (hs : c.sendingSock = some sock) :
    (c.settleSock .pooled false ec responded).countP isRelease = 1 ∧
      (.returnToPool c.nretry sock ∈ c.settleSock .pooled false ec responded ∨
        .setFailedSock c.nretry sock ∈ c.settleSock .pooled false ec responded ∨
        .onProgressiveReadCompleted c.nretry sock ∈ c.settleSock .pooled false ec responded) := by
  have hpeer : (if doesErrorAffectMainSocket ec then [.setFailedPeer c.peerId] else []).countP
      isRelease = 0 := by split <;> rfl
  simp only [settleSock, closeSock, hs]
  split
  · cases sock.progressive <;> simp [isRelease]
  · cases sock.progressive <;> simp [countP_cons, hpeer, isRelease]

/-- What `OnComplete` counts: besides the connection, the completion and the
feedback only. -/
theorem onComplete_countP (hp : ∀ {e}, p e → e.counts) :
    (history (c.onComplete s ec responded endOfRpc) c.nretry).countP p =
      (if p (.complete c.nretry ec responded endOfRpc) then 1 else 0) +
      (c.settleSock s.connectionType s.streamCreator ec responded).countP p +
      (if c.needFeedback ∧ p (.feedback c.nretry c.peerId ec s.lb) then 1 else 0) := by
  have hno : ∀ {e : Effect}, e.counts = false → p e = false := fun {e} he =>
    Bool.eq_false_iff.2 fun h => by simp [hp h] at he
  have hd : p (.destroyStreamUserData c.nretry) = false := hno rfl
  have ha : p (.addRecentError c.nretry) = false := hno rfl
  have hf : p (.feedbackCircuitBreaker c.nretry ec) = false := hno rfl
  have hl : p (.setLogOff c.peerId) = false := hno rfl
  rw [countP_history fun e he hpe =>
    (attempt_of_mem_onComplete he).resolve_left (attempt_of_counts (hp hpe))]
  unfold onComplete
  simp only [countP_append]
  repeat' split
  all_goals simp_all [countP_cons]

end OnComplete

theorem connect_not_mem_onComplete {s : State} {c : Call} {ec : ErrorCode} {r e : Bool} {k : ℕ}
    {sock : SendingSock} : .connect k sock ∉ c.onComplete s ec r e := by
  intro h
  rcases mem_onComplete h with h | h | h | h | h | h | h <;> try exact absurd h (by simp)
  rcases mem_settleSock h with h | ⟨_, -, ⟨h, -⟩ | h | ⟨h, -⟩⟩ <;> exact absurd h (by simp)

end Call

/-- **`OnComplete` settles an open attempt.** -/
theorem Open.settled {c : Call} {h : List Effect} (ho : Open c h) (s : State) (ec : ErrorCode)
    (r e : Bool) : SettledHistory (pooled s) c.nretry (h ++ history (c.onComplete s ec r e) c.nretry) := by
  refine ⟨?_, ?_, ?_⟩
  · rw [countP_append, ho.complete, onComplete_countP counts_of_isComplete,
      settleSock_countP (by rintro (_ | _) <;> simp [isComplete, isRelease]) rfl]
    simp [isComplete]
  · rw [countP_append, countP_append, ho.feedback, ho.asks,
      onComplete_countP counts_of_isFeedback,
      onComplete_countP counts_of_asksFeedback,
      settleSock_countP (by rintro (_ | _) <;> simp [isFeedback, isRelease]) rfl,
      settleSock_countP (by rintro (_ | _) <;> simp [asksFeedback, isRelease]) rfl]
    simp [isFeedback, asksFeedback]
  · intro hp sock hsock
    have hs : c.sendingSock = some sock := by
      rcases mem_append.1 hsock with hsock | hsock
      · exact (ho.connect sock).1 hsock
      · exact absurd (mem_of_mem_filter hsock) connect_not_mem_onComplete
    obtain ⟨hct, hsc⟩ : s.connectionType = .pooled ∧ s.streamCreator = false := by
      simpa [pooled] using hp
    obtain ⟨hcount, hmem⟩ := settleSock_pooled ec r hs
    have hsub : ∀ {eff : Effect}, eff.attempt = some c.nretry →
        eff ∈ c.settleSock .pooled false ec r →
        eff ∈ h ++ history (c.onComplete s ec r e) c.nretry := by
      intro eff hatt heff
      refine mem_append_right _ (mem_filter.2 ⟨?_, by simpa using hatt⟩)
      simp only [onComplete, hct, hsc, mem_append]
      exact .inl (.inl (.inr heff))
    refine ⟨?_, hmem.imp (hsub rfl) (Or.imp (hsub rfl) (hsub rfl))⟩
    rw [countP_append, ho.release, onComplete_countP counts_of_isRelease, hct, hsc, hcount]
    simp [isRelease]

/-! ## Every attempt is accounted for -/

/-- The attempt the effect takes for answered. -/
def Effect.answers (pooled : Bool) : Effect → Option ℕ
  | .complete k ec responded _ => if ec = 0 ∨ responded then some k else none
  | .returnToPool k _ => some k
  | .onProgressiveReadCompleted k _ => if pooled then some k else none
  | _ => none

/-- Whoever is taken for answered has been. -/
def Answered (correlationId : ℕ) (pooled : Bool) : List Effect → Prop :=
  Lib.Guarded fun e pre => ∀ k, e.answers pooled = some k → .response (correlationId + k + 1) ∈ pre

theorem Answered.append {c : ℕ} {pooled : Bool} {log es : List Effect} (h : Answered c pooled log)
    (hes : ∀ e ∈ es, ∀ k, e.answers pooled = some k → .response (c + k + 1) ∈ log) :
    Answered c pooled (log ++ es) :=
  Lib.Guarded.append h fun e he _ hpre k hk => hpre.subset (hes e he k hk)

theorem Effect.answers_of_attempt_none {e : Effect} (h : e.attempt = none) (pooled : Bool) :
    e.answers pooled = none := by
  cases e <;> first | rfl | exact absurd h (by simp [attempt])

/-- A pooled connection that is read progressively has been responded on. -/
def Call.Drained (s : State) (c : Call) (responded : Bool) : Prop :=
  pooled s → ∀ sock ∈ c.sendingSock, sock.progressive → responded

instance (s : State) (c : Call) (responded : Bool) : Decidable (c.Drained s responded) :=
  inferInstanceAs (Decidable (_ → _))

theorem Call.answers_of_mem_onComplete {s : State} {c : Call} {ec : ErrorCode} {r eor : Bool}
    {e : Effect} {k : ℕ} (h : e ∈ c.onComplete s ec r eor) (hd : c.Drained s r)
    (hk : e.answers (pooled s) = some k) : k = c.nretry ∧ (ec = 0 ∨ r) := by
  rcases mem_onComplete h with rfl | rfl | rfl | rfl | h | rfl | rfl
  · simp only [answers] at hk
    split at hk
    next hr =>
      exact ⟨(Option.some.inj hk).symm, hr⟩
    · exact absurd hk (by simp)
  · exact absurd hk (by simp [answers])
  · exact absurd hk (by simp [answers])
  · exact absurd hk (by simp [answers])
  · rcases mem_settleSock h with rfl | ⟨sock, hs, ⟨rfl, hp⟩ | rfl | ⟨rfl, hr⟩⟩
    · exact absurd hk (by simp [answers])
    · simp only [answers] at hk
      split at hk
      next hpool =>
        exact ⟨(Option.some.inj hk).symm, .inr (hd hpool sock hs hp)⟩
      · exact absurd hk (by simp)
    · exact absurd hk (by simp [answers])
    · exact ⟨(Option.some.inj hk).symm, hr⟩
  all_goals exact absurd hk (by simp [answers])

theorem Answered.onComplete {cid : ℕ} {log : List Effect} {s : State} {c : Call} {ec : ErrorCode}
    {r eor : Bool} (h : Answered cid (pooled s) log) (hd : c.Drained s r)
    (hr : ec = 0 ∨ r → .response (cid + c.nretry + 1) ∈ log) :
    Answered cid (pooled s) (log ++ c.onComplete s ec r eor) :=
  h.append fun _ he _ hk => by
    obtain ⟨rfl, hans⟩ := answers_of_mem_onComplete he hd hk
    exact hr hans

theorem Answered.aside {cid : ℕ} {pooled : Bool} {log es : List Effect} (h : Answered cid pooled log)
    (hes : ∀ e ∈ es, e.attempt = none) : Answered cid pooled (log ++ es) :=
  h.append fun e he k hk => by
    rw [answers_of_attempt_none (hes e he)] at hk
    exact absurd hk (by simp)

/-- The books of an RPC: of the attempts below `bound`, those in `calls` are open and all others
settled; the rest have no history. -/
structure Ledger (pooled : Bool) (cid : ℕ) (calls : List Call) (bound : ℕ) (log : List Effect) : Prop where
  opens : ∀ c ∈ calls, c.nretry < bound ∧ Open c (history log c.nretry)
  nodup : (calls.map nretry).Nodup
  future : ∀ k, bound ≤ k → history log k = []
  settled : ∀ k, k < bound → (∀ c ∈ calls, c.nretry ≠ k) → SettledHistory pooled k (history log k)
  answered : Answered cid pooled log

namespace Ledger

variable {pooled : Bool} {cid bound : ℕ} {calls : List Call} {c d : Call} {log es : List Effect}

theorem aside (h : Ledger pooled cid calls bound log) (hes : ∀ e ∈ es, e.attempt = none) :
    Ledger pooled cid calls bound (log ++ es) := by
  have hh : ∀ k, history (log ++ es) k = history log k := fun k => by
    rw [history_append, history_of_attempt_none hes, append_nil]
  refine ⟨fun c hc => ?_, h.nodup, fun k hk => ?_, fun k hk hk' => ?_, h.answered.aside hes⟩
  · rw [hh]
    exact h.opens c hc
  · rw [hh]
    exact h.future k hk
  · rw [hh]
    exact h.settled k hk hk'

theorem swap (h : Ledger pooled cid (c :: d :: calls) bound log) : Ledger pooled cid (d :: c :: calls) bound log := by
  have hmem : ∀ {x}, x ∈ d :: c :: calls ↔ x ∈ c :: d :: calls := (List.Perm.swap c d calls).mem_iff
  refine ⟨fun x hx => h.opens x (hmem.1 hx), ?_, h.future, ?_, h.answered⟩
  · exact ((List.Perm.swap c d calls).map nretry).nodup_iff.2 h.nodup
  · exact fun k hk hk' => h.settled k hk fun x hx => hk' x (hmem.2 hx)

/-- **Completing a call settles its attempt.** -/
theorem complete {s : State} (h : Ledger pooled cid (c :: calls) bound log)
    (hp : Call.pooled s = pooled) (ec : ErrorCode) {r : Bool} (eor : Bool) (hd : c.Drained s r)
    (hr : ec = 0 ∨ r → .response (cid + c.nretry + 1) ∈ log) :
    Ledger pooled cid calls bound (log ++ c.onComplete s ec r eor) := by
  obtain ⟨hlt, hopen⟩ := h.opens c mem_cons_self
  obtain ⟨hnew, hnodup⟩ := nodup_cons.1 h.nodup
  have hother : ∀ k, k ≠ c.nretry → history (log ++ c.onComplete s ec r eor) k = history log k := fun k hk => by
    rw [history_append, history_onComplete_of_ne hk, append_nil]
  refine ⟨fun d hd => ?_, hnodup, fun k hk => ?_, fun k hk hk' => ?_, ?_⟩
  · have hne : d.nretry ≠ c.nretry := fun h => hnew (h ▸ mem_map_of_mem hd)
    rw [hother _ hne]
    exact h.opens d (mem_cons_of_mem _ hd)
  · rw [hother k (by omega)]
    exact h.future k hk
  · by_cases hkc : k = c.nretry
    · subst hkc
      rw [history_append, ← hp]
      exact hopen.settled s ec r eor
    · rw [hother k hkc]
      refine h.settled k hk fun d hd => ?_
      exact forall_mem_cons.2 ⟨fun h => hkc h.symm, hk'⟩ d hd
  · subst hp
    exact h.answered.onComplete hd hr

/-- **A new attempt is open.** -/
theorem issue (h : Ledger pooled cid calls c.nretry log)
    (hes : ∀ e ∈ es, (e.attempt = none ∨ e.attempt = some c.nretry) ∧ e.answers pooled = none)
    (ho : Open c (history es c.nretry)) : Ledger pooled cid (c :: calls) (c.nretry + 1) (log ++ es) := by
  have hother : ∀ k, k ≠ c.nretry → history (log ++ es) k = history log k := fun k hk => by
    have hnil : history es k = [] := by
      refine history_eq_nil fun e he heq => ?_
      rcases (hes e he).1 with h | h <;> rw [heq] at h
      · simp at h
      · exact hk (Option.some.inj h)
    rw [history_append, hnil, append_nil]
  refine ⟨fun d hd => ?_, ?_, fun k hk => ?_, fun k hk hk' => ?_, ?_⟩
  · rcases mem_cons.1 hd with rfl | hd
    · rw [history_append, h.future _ (Nat.le_refl _), nil_append]
      exact ⟨Nat.lt_succ_self _, ho⟩
    · have := h.opens d hd
      rw [hother _ (Nat.ne_of_lt this.1)]
      exact ⟨Nat.lt_succ_of_lt this.1, this.2⟩
  · refine nodup_cons.2 ⟨fun hmem => ?_, h.nodup⟩
    obtain ⟨d, hd, heq⟩ := mem_map.1 hmem
    exact absurd (h.opens d hd).1 (by omega)
  · rw [hother k (by omega)]
    exact h.future k (by omega)
  · have hne : k ≠ c.nretry := fun h => hk' c mem_cons_self h.symm
    rw [hother k hne]
    exact h.settled k (by omega) fun d hd => hk' d (mem_cons_of_mem _ hd)
  · refine h.answered.append fun e he k hk => ?_
    rw [(hes e he).2] at hk
    exact absurd hk (by simp)

theorem cases (h : Ledger pooled cid calls bound log) (k : ℕ) :
    history log k = [] ∨ (∃ c ∈ calls, Open c (history log k)) ∨ SettledHistory pooled k (history log k) := by
  by_cases hk : k < bound
  · by_cases hc : ∃ c ∈ calls, c.nretry = k
    · obtain ⟨c, hc, rfl⟩ := hc
      exact .inr (.inl ⟨c, hc, (h.opens c hc).2⟩)
    · exact .inr (.inr (h.settled k hk fun c hmem heq => hc ⟨c, hmem, heq⟩))
  · exact .inl (h.future k (by omega))

end Ledger

namespace State

/-- What an event that is being handled knows: a response has come for the attempt
it names, and anything else is an error. -/
def Outcome (s : State) (info : CompletionInfo) : Prop :=
  (info.responded → .response info.id ∈ s.log ∧ info.id ≠ s.correlationId) ∧ (¬info.responded → s.errorCode ≠ 0)

/-- The current attempt is open. -/
structure Busy (pooled : Bool) (s : State) : Prop where
  ledger : Ledger pooled s.correlationId (s.currentCall :: s.unfinishedCall.toList) (s.currentCall.nretry + 1) s.log
  pooled_eq : Call.pooled s = pooled

/-- Every attempt is accounted for. -/
def Tracked (pooled : Bool) (s : State) : Prop :=
  match s.phase with
  | .unlocked => s.Busy pooled
  | .returned info _ _ => s.Busy pooled ∧ s.Outcome info
  | .ending info => s.Busy pooled ∧ s.Outcome info ∧ (s.ofPrevious info → info.responded)
  | .issuing => Ledger pooled s.correlationId s.unfinishedCall.toList s.currentCall.nretry s.log ∧
      Call.pooled s = pooled ∧ s.currentCall.sendingSock = none
  | .destroyed => Ledger pooled s.correlationId [] (s.currentCall.nretry + 1) s.log ∧
      ∃ pre post, s.log = pre ++ post ∧ .runDone ∉ pre ∧ ∀ e ∈ post, e.isComplete = false

/-! ### Which runs settle every attempt -/

/-- A response is the response of an attempt that has been issued. -/
def Genuine (s : State) : Input → Prop
  | .response id _ => ∃ p ∈ attempts s.log, p.2 = id
  | _ => True

/-- The event that is being handled. -/
def returnedInfo (s : State) : Option CompletionInfo :=
  match s.phase with
  | .returned info _ _ => some info
  | _ => none

/-- The event that ended the RPC. -/
def endingInfo (s : State) : Option CompletionInfo :=
  match s.phase with
  | .ending info => some info
  | _ => none

/-- The step drops no attempt, completes none because of another's success, and none read
progressively from the pool without a response. -/
def Settles (cfg : Config) (s : State) : Input → Prop
  | .onVersionedRPCReturned env => ∀ info ∈ s.returnedInfo, ¬s.SecondBackup cfg env info ∧
      (s.retriesCurrent cfg env info → ¬s.ofPrevious info ∧ s.currentCall.Drained s info.responded) ∧
      (s.ofPrevious info → s.errorCode ≠ 0 → ∀ u ∈ s.unfinishedCall,
        s.getId u.nretry = info.id → u.Drained s info.responded)
  | .endRPC _ => ∀ info ∈ s.endingInfo, if s.ofPrevious info then s.currentCall.Drained s false
      else s.currentCall.Drained s info.responded ∧ ∀ u ∈ s.unfinishedCall, u.Drained s false
  | _ => True

instance (s : State) : (i : Input) → Decidable (s.Genuine i)
  | .response id _ => inferInstanceAs (Decidable (∃ p ∈ attempts s.log, p.2 = id))
  | .error .. | .onVersionedRPCReturned _ | .issueRPC _ | .endRPC _ => .isTrue trivial

instance (cfg : Config) (s : State) : (i : Input) → Decidable (s.Settles cfg i)
  | .onVersionedRPCReturned _ => inferInstanceAs (Decidable (∀ info ∈ s.returnedInfo, _))
  | .endRPC _ => inferInstanceAs (Decidable (∀ info ∈ s.endingInfo, _))
  | .response .. | .error .. | .issueRPC _ => .isTrue trivial

section Steps

variable {cfg : Config} {pooled : Bool} {s s' : State} {info : CompletionInfo} {nb : Bool}
  {saved : ErrorCode} {es : List Effect}

theorem Busy.extend (h : s.Busy pooled) (hc : s'.correlationId = s.correlationId)
    (hcall : s'.currentCall = s.currentCall) (hu : s'.unfinishedCall = s.unfinishedCall)
    (hp : Call.pooled s' = Call.pooled s) (hlog : s'.log = s.log ++ es)
    (hes : ∀ e ∈ es, e.attempt = none) : s'.Busy pooled := by
  refine ⟨?_, hp.trans h.pooled_eq⟩
  rw [hc, hcall, hu, hlog]
  exact h.ledger.aside hes

theorem Busy.congr (h : s.Busy pooled) (hc : s'.correlationId = s.correlationId)
    (hcall : s'.currentCall = s.currentCall) (hu : s'.unfinishedCall = s.unfinishedCall)
    (hp : Call.pooled s' = Call.pooled s) (hlog : s'.log = s.log) : s'.Busy pooled := by
  have hlog' : s'.log = s.log ++ [] := by rw [hlog, append_nil]
  exact h.extend hc hcall hu hp hlog' (by simp)

theorem Busy.handleSocketFailed (h : s.Busy pooled) (id : ℕ) (ec : ErrorCode) :
    (s.handleSocketFailed id ec).Tracked pooled := by
  have hne := setFailed_errorCode_ne_zero s ec
  unfold State.handleSocketFailed
  rw [setFailed_eq] at hne ⊢
  refine ⟨h.extend rfl rfl rfl rfl rfl ?_, fun hr => absurd hr (by simp), fun _ => hne⟩
  split <;> simp [attempt]

theorem Busy.checkedUnlock {id : ℕ} (h : s.Busy pooled) (hid : s.hasVersion id) (hl : s.locked) :
    (s.checkedUnlock id).Tracked pooled := by
  rw [checkedUnlock_of_locked hid hl]
  unfold afterUnlock
  split
  · exact h.congr rfl rfl rfl rfl rfl
  · refine Busy.handleSocketFailed ?_ _ _
    exact h.congr rfl rfl rfl rfl rfl

theorem Outcome.response (h : s.Outcome info) {ec : ErrorCode} {n : ℕ}
    (hec : ec = 0 → s.errorCode = 0) (hid : info.id ≠ s.correlationId → info.id = s.getId n) :
    ec = 0 ∨ info.responded → .response (s.correlationId + n + 1) ∈ s.log := by
  intro hr
  have hresp : info.responded := by
    rcases hr with hr | hr
    · exact not_not.1 fun hn => h.2 hn (hec hr)
    · exact hr
  have := h.1 hresp
  rw [hid this.2] at this
  exact this.1

end Steps

end State
end Brpc.Controller
