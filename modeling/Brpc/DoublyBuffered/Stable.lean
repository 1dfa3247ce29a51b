/-
# The snapshots of DoublyBufferedData are stable

Every step of `Read` and every end of a `ScopedPtr` keeps the mutexes and counts of the wrappers
(`Counts`), and with them the invariant behind `snapshots_stable`.
-/

import Brpc.DoublyBuffered.Data

namespace Brpc.DoublyBuffered

open Lib List Function

variable {T : Type} {suspended : Bool}

/-! ## Mutexes and counts -/

theorem countP_inside {reads : List (ℕ × ReadPc)} {k w : ℕ} {pc : ReadPc}
    (hk : reads[k]? = some (w, pc)) (new : List (ℕ × ReadPc)) (v : ℕ) :
    (replaceAt reads k new).countP (inside v) + (if inside v (w, pc) then 1 else 0)
      = reads.countP (inside v) + new.countP (inside v) := countP_replaceAt hk _

section
variable {locked : ℕ → Bool} {ref : ℕ → Bool → ℕ} {reads : List (ℕ × ReadPc)} {ptrs : List (ℕ × Bool)}

variable {k w : ℕ}

theorem Counts.keep (h : Counts suspended locked ref reads ptrs) {pc pc' : ReadPc}
    (hk : reads[k]? = some (w, pc)) (hpc : ∀ v, inside v (w, pc') = inside v (w, pc)) :
    Counts suspended locked ref (replaceAt reads k [(w, pc')]) ptrs where
  locks := by
    intro v
    have hcount := countP_inside hk [(w, pc')] v
    rw [countP_singleton, hpc] at hcount
    rw [← h.locks v, Nat.add_right_cancel hcount]
  refs := h.refs

theorem Counts.enter (h : Counts suspended locked ref reads ptrs)
    (hk : reads[k]? = some (w, .beginRead)) (hfree : ¬ locked w = true) :
    Counts suspended (update locked w true) ref (replaceAt reads k [(w, .unsafeRead)]) ptrs where
  locks := by
    intro v
    have hcount := countP_inside hk [(w, .unsafeRead)] v
    have hv := h.locks v
    rw [if_neg (by rintro ⟨⟩), Nat.add_zero, countP_singleton] at hcount
    rw [hcount]
    rcases eq_or_ne v w with rfl | hne
    · have hin : inside v (v, .unsafeRead) = true := decide_eq_true rfl
      rw [if_neg hfree] at hv
      rw [update_self, if_pos rfl, if_pos hin]
      omega
    · rw [if_neg (fun he => hne (of_decide_eq_true he).symm), Nat.add_zero, update_of_ne hne, hv]
  refs := h.refs

variable {i : Bool}

theorem Counts.own (h : Counts suspended locked ref reads ptrs) (hk : reads[k]? = some (w, .addRef i)) :
    (replaceAt reads k []).countP (inside w) + (if suspended then 0 else ptrs.countP (·.1 = w)) = 0
      ∧ locked w = true := by
  have hcount := countP_inside hk [] w
  have hw := h.locks w
  have hin : inside w (w, .addRef i) = true := decide_eq_true rfl
  rw [if_pos hin, countP_nil] at hcount
  have hl : locked w = true := by
    by_contra hl
    rw [if_neg hl] at hw
    omega
  rw [if_pos hl] at hw
  exact ⟨by omega, hl⟩

theorem countP_inside_of_ne {v : ℕ} (hk : reads[k]? = some (w, .addRef i))
    (hne : v ≠ w) : (replaceAt reads k []).countP (inside v) = reads.countP (inside v) := by
  have hcount := countP_inside hk [] v
  rw [if_neg (fun he => hne (of_decide_eq_true he).symm)] at hcount
  exact hcount

theorem Counts.addRef (h : Counts true locked ref reads ptrs)
    (hk : reads[k]? = some (w, .addRef i)) : Counts true (update locked w false)
      (update ref w (update (ref w) i (ref w i + 1))) (replaceAt reads k []) (ptrs ++ [(w, i)]) where
  locks := by
    intro v
    have hv := h.locks v
    rw [if_pos rfl] at hv ⊢
    rcases eq_or_ne v w with rfl | hne
    · have hown := (h.own hk).1
      rw [if_pos rfl] at hown
      rw [update_self, hown]
      rfl
    · rw [update_of_ne hne, countP_inside_of_ne hk hne, hv]
  refs := by
    intro _ v j
    rw [countP_append, countP_singleton, ← h.refs rfl]
    rcases eq_or_ne v w with rfl | hne
    · rw [update_self]
      rcases eq_or_ne j i with rfl | hj
      · rw [update_self, if_pos (decide_eq_true rfl)]
      · rw [update_of_ne hj, if_neg (fun he => hj (by cases of_decide_eq_true he; rfl))]
        rfl
    · rw [update_of_ne hne, if_neg (fun he => hne (by cases of_decide_eq_true he; rfl))]
      rfl

theorem Counts.takeOver (h : Counts false locked ref reads ptrs) (hk : reads[k]? = some (w, .addRef i)) :
    Counts false locked ref (replaceAt reads k []) (ptrs ++ [(w, i)]) where
  locks := by
    intro v
    have hv := h.locks v
    rw [if_neg Bool.false_ne_true] at hv ⊢
    rw [countP_append, countP_singleton]
    rcases eq_or_ne v w with rfl | hne
    · obtain ⟨hown, hl⟩ := h.own hk
      rw [if_neg Bool.false_ne_true] at hown
      rw [if_pos hl, if_pos (decide_eq_true rfl)]
      omega
    · rw [if_neg (fun he => hne (of_decide_eq_true he).symm), countP_inside_of_ne hk hne, ← hv]
      rfl
  refs := by rintro ⟨⟩

theorem Counts.subRef (h : Counts true locked ref reads ptrs) (hk : ptrs[k]? = some (w, i)) :
    Counts true locked (update ref w (update (ref w) i (ref w i - 1))) reads (replaceAt ptrs k []) where
  locks := h.locks
  refs := by
    intro _ v j
    have hcount := @countP_replaceAt _ ptrs [] k (w, i) hk fun q => decide (q = (v, j))
    rw [countP_nil, Nat.add_zero, ← h.refs rfl] at hcount
    rcases eq_or_ne v w with rfl | hne
    · rw [update_self]
      rcases eq_or_ne j i with rfl | hj
      · rw [if_pos (decide_eq_true rfl)] at hcount
        rw [update_self, ← hcount, Nat.add_sub_cancel]
      · rw [if_neg (fun he => hj (by cases of_decide_eq_true he; rfl))] at hcount
        rw [update_of_ne hj, ← hcount, Nat.add_zero]
    · rw [if_neg (fun he => hne (by cases of_decide_eq_true he; rfl))] at hcount
      rw [update_of_ne hne, ← hcount, Nat.add_zero]

theorem Counts.release (h : Counts false locked ref reads ptrs) (hk : ptrs[k]? = some (w, i)) :
    Counts false (update locked w false) ref reads (replaceAt ptrs k []) where
  locks := by
    intro v
    have hcount := @countP_replaceAt _ ptrs [] k (w, i) hk fun q => decide (q.1 = v)
    have hv := h.locks v
    rw [countP_nil, Nat.add_zero] at hcount
    rw [if_neg Bool.false_ne_true] at hv ⊢
    rcases eq_or_ne v w with rfl | hne
    · rw [if_pos (decide_eq_true rfl)] at hcount
      rw [update_self, if_neg Bool.false_ne_true]
      split at hv <;> omega
    · rw [if_neg (fun he => hne (of_decide_eq_true he).symm), Nat.add_zero] at hcount
      rw [update_of_ne hne, hcount, hv]
  refs := by rintro ⟨⟩

end

/-! ## Steps -/

section
variable {s : State T}

variable {k w : ℕ} {pc : ReadPc} {ptrs : List (ℕ × Bool)} {reads : List (ℕ × ReadPc)}

theorem Holds.of_replaceAt {p : ℕ × Bool} (h : Holds ptrs (replaceAt reads k [(w, pc)]) p) :
    Holds ptrs reads p ∨ pc = .addRef p.2 := by
  rcases h with h | h
  · exact .inl (.inl h)
  · rcases mem_replaceAt.1 h with h | h
    · exact .inl (.inr (forall_mem_replaceAt (fun _ hx => hx) (forall_mem_nil _) _ h))
    · exact .inr (congrArg Prod.snd (mem_singleton.1 h)).symm

theorem Registered.setRead {ws exited : List ℕ} (h : Registered ws exited reads ptrs)
    (hk : reads[k]? = some (w, pc)) {ws' : List ℕ} (hws : ws ⊆ ws') (hw : w ∈ ws') (pc' : ReadPc) :
    Registered ws' exited (replaceAt reads k [(w, pc')]) ptrs where
  ptr := fun p hp => hws (h.ptr p hp)
  read := forall_mem_replaceAt (fun r hr hpc => hws (h.read r hr hpc)) (forall_mem_singleton.2 fun _ => hw)
  stays := forall_mem_replaceAt h.stays (forall_mem_singleton.2 (h.stays (w, pc) (mem_of_getElem? hk)))

/-- **A `Read` that waits for the mutex, or loads `_index`, keeps the invariant.** -/
theorem Inv.setRead (h : Inv suspended s) {pc' : ReadPc}
    (hk : s.reads[k]? = some (w, pc)) {ws' : List ℕ} (hws : s.wrappers ⊆ ws') (hw : w ∈ ws')
    (hwl : s.wrappersLocked = true → ws' = s.wrappers) {locked' : ℕ → Bool}
    (hc : Counts suspended locked' s.ref (replaceAt s.reads k [(w, pc')]) s.ptrs)
    (hpc : ∀ i, pc' = .addRef i → i = s.index) :
    Inv suspended { s.setRead k w pc' with wrappers := ws', locked := locked' } where
  counts := hc
  registered := h.registered.setRead hk hws hw pc'
  exits := h.exits
  phase := h.phase.mono (fun _ hp => hp.of_replaceAt.imp_right (hpc _)) hwl
  check := h.check

variable {i : Bool}

theorem Holds.of_returned (hk : reads[k]? = some (w, .addRef i)) {p : ℕ × Bool}
    (h : Holds (ptrs ++ [(w, i)]) (replaceAt reads k []) p) : Holds ptrs reads p := by
  rcases h with h | h
  · rcases mem_append.1 h with h | h
    · exact .inl h
    · cases mem_singleton.1 h
      exact .inr (mem_of_getElem? hk)
  · exact .inr (forall_mem_replaceAt (fun _ hx => hx) (forall_mem_nil _) _ h)

theorem Registered.returned {ws exited : List ℕ} (h : Registered ws exited reads ptrs)
    (hk : reads[k]? = some (w, .addRef i)) :
    Registered ws exited (replaceAt reads k []) (ptrs ++ [(w, i)]) where
  ptr := by
    exact forall_mem_append.2 ⟨h.ptr, forall_mem_singleton.2 (h.read _ (mem_of_getElem? hk) (by rintro ⟨⟩))⟩
  read := forall_mem_replaceAt h.read (forall_mem_nil _)
  stays := forall_mem_replaceAt h.stays (forall_mem_nil _)

/-- **Every step of `Read` keeps the invariant.** -/
theorem Inv.goRead (h : Inv suspended s)
    (hk : s.reads[k]? = some (w, pc)) : Inv suspended (s.stepRead suspended k w pc) := by
  have hmem := mem_of_getElem? hk
  cases pc with
  | addWrapper =>
    rw [State.stepRead]
    split
    · exact h
    next hwl =>
      exact h.setRead hk (subset_append_left _ _)
        (mem_append_right _ mem_cons_self) (fun hl => absurd hl hwl)
        (h.counts.keep hk fun _ => rfl) (by rintro _ ⟨⟩)
  | beginRead =>
    rw [State.stepRead]
    split
    · exact h
    next hfree =>
      exact h.setRead hk (List.Subset.refl _) (h.registered.read _ hmem (by rintro ⟨⟩))
        (fun _ => rfl) (h.counts.enter hk hfree) (by rintro _ ⟨⟩)
  | unsafeRead =>
    exact h.setRead hk (List.Subset.refl _) (h.registered.read _ hmem (by rintro ⟨⟩))
      (fun _ => rfl) (h.counts.keep hk fun _ => rfl) (by rintro i ⟨⟩; rfl)
  | addRef =>
    have hcounts := h.counts
    have hphase := h.phase.mono (fun _ hp => .inl (Holds.of_returned hk hp)) fun _ => rfl
    cases suspended with
    | false =>
      exact ⟨hcounts.takeOver hk, h.registered.returned hk, h.exits, hphase, h.check⟩
    | true => exact ⟨hcounts.addRef hk, h.registered.returned hk, h.exits, hphase, h.check⟩

/-- **The end of a `ScopedPtr` keeps the invariant.** -/
theorem Inv.destroy (h : Inv suspended s) (hk : s.ptrs[k]? = some (w, i)) :
    Inv suspended (s.stepDestroy suspended k w i) := by
  have hsub : ∀ p ∈ replaceAt s.ptrs k [], p ∈ s.ptrs := forall_mem_replaceAt (fun _ hp => hp) (forall_mem_nil _)
  have hreg : Registered s.wrappers s.exited s.reads (replaceAt s.ptrs k []) :=
    ⟨fun p hp => h.registered.ptr p (hsub p hp), h.registered.read, h.registered.stays⟩
  have hphase : Phase s.index s.data s.wrappers s.wrappersLocked (Holds (replaceAt s.ptrs k []) s.reads) s.modifying :=
    h.phase.mono (fun p hp => .inl (hp.imp_left (hsub p))) fun _ => rfl
  have hcounts := h.counts
  rw [State.stepDestroy]
  cases suspended with
  | false => exact ⟨hcounts.release hk, hreg, h.exits, hphase, h.check⟩
  | true =>
    rw [if_pos rfl]
    split
    · exact h
    · exact ⟨hcounts.subRef hk, hreg, h.exits, hphase, h.check⟩

end

open State

variable {T : Type} {suspended : Bool}

/-! ## Threads that exit -/

theorem mem_removeWrapper {w w' : ℕ} : ∀ {l : List ℕ}, w' ∈ l → w' ≠ w → w' ∈ removeWrapper w l := by
  intro l
  induction l with
  | nil => exact fun h _ => h
  | cons a l ih =>
    intro h hne
    rw [removeWrapper]
    split
    next ha =>
      rcases mem_cons.1 h with rfl | h
      · exact absurd ha hne
      · rcases eq_nil_or_concat' l with rfl | ⟨l, b, rfl⟩
        · exact absurd h not_mem_nil
        · rw [getLast?_concat, dropLast_concat, Option.toList_some, singleton_append, mem_cons]
          exact (mem_append.1 h).symm.imp_left mem_singleton.1
    · rcases mem_cons.1 h with rfl | h
      · exact mem_cons_self
      · exact mem_cons_of_mem _ (ih h hne)

theorem State.not_busy {s : State T} {w : ℕ} (h : ¬ s.busy w = true) : w ∉ s.exited ∧ ∀ r ∈ s.reads, r.1 ≠ w := by
  rw [busy, Bool.or_eq_true, not_or, decide_eq_true_iff, any_eq_true] at h
  exact ⟨h.1, fun r hr he => h.2 ⟨r, hr, decide_eq_true he⟩⟩

section
variable {s : State T}

/-- **Every step of `~Wrapper` keeps the invariant** if its thread has left no `ScopedPtr`. -/
theorem Inv.goExit (h : Inv suspended s) {k w : ℕ} {pc : ExitPc} (hk : s.exits[k]? = some (w, pc))
    (hfits : pc = .removeWrapper → ∀ p ∈ s.ptrs, p.1 ≠ w) : Inv suspended (s.stepExit suspended k w pc) := by
  have hw : w ∈ s.exited := h.exits _ (mem_of_getElem? hk)
  cases pc with
  | removeWrapper =>
    rw [stepExit]
    split
    · exact h
    next hwl =>
      have hptr := hfits rfl
      refine ⟨h.counts, ⟨?_, ?_, h.registered.stays⟩, forall_mem_replaceAt h.exits ?_,
        h.phase.mono (fun _ hp => .inl hp) (fun hl => absurd hl hwl), h.check⟩
      · intro p hp
        exact mem_removeWrapper (h.registered.ptr p hp) (hptr p hp)
      · intro r hr hpc
        refine mem_removeWrapper (h.registered.read r hr hpc) ?_
        rintro rfl
        exact h.registered.stays r hr hw
      · split
        · exact forall_mem_singleton.2 hw
        · exact forall_mem_nil _
  | waitReadDone =>
    rw [stepExit]
    split
    · exact h
    · refine { h with exits := forall_mem_replaceAt h.exits ?_ }
      split
      · exact forall_mem_nil _
      · exact forall_mem_singleton.2 hw

theorem Inv.read (h : Inv suspended s) {w : ℕ} (hb : ¬ s.busy w = true) : Inv suspended
      { s with reads := s.reads ++ [(w, if w ∈ s.wrappers then .beginRead else .addWrapper)] } := by
  obtain ⟨hex, -⟩ := not_busy hb
  refine ⟨⟨fun v => ?_, h.counts.refs⟩, ⟨h.registered.ptr, ?_, ?_⟩, h.exits, ?_, h.check⟩
  · rw [← h.counts.locks v, countP_append, countP_singleton, if_neg, Nat.add_zero]
    split <;> rintro ⟨⟩
  · intro r hr hpc
    rcases mem_append.1 hr with hr | hr
    · exact h.registered.read r hr hpc
    · rw [mem_singleton.1 hr] at hpc ⊢
      by_contra hw
      exact hpc (if_neg hw)
  · exact forall_mem_append.2 ⟨h.registered.stays, forall_mem_singleton.2 hex⟩
  · refine h.phase.mono (fun p hp => .inl (hp.imp_right fun hr => ?_)) fun _ => rfl
    rcases mem_append.1 hr with hr | hr
    · exact hr
    · have := congrArg Prod.snd (mem_singleton.1 hr)
      split at this <;> cases this

/-- **Every step keeps the invariant.** -/
theorem Inv.step (s : State T) (i : Input T) (h : Inv suspended s) (hfits : s.Fits i) :
    Inv suspended (s.step suspended i) := by
  cases i with
  | read =>
    rw [State.step]
    split
    · exact h
    next hb =>
      exact h.read hb
  | goRead =>
    rw [State.step]
    split
    · exact h
    next r hk =>
      exact h.goRead hk
  | destroy =>
    rw [State.step]
    split
    · exact h
    next p hk =>
      exact h.destroy hk
  | exit =>
    rw [State.step]
    split
    · exact h
    next hb =>
      obtain ⟨-, hreads⟩ := not_busy hb
      refine ⟨h.counts, ⟨h.registered.ptr, h.registered.read, ?_⟩, ?_, h.phase, h.check⟩
      · intro r hr hmem
        rcases mem_cons.1 hmem with he | hmem
        · exact hreads r hr he
        · exact h.registered.stays r hr hmem
      · exact forall_mem_append.2 ⟨fun e he => mem_cons_of_mem _ (h.exits e he), forall_mem_singleton.2 mem_cons_self⟩
  | goExit =>
    rw [State.step]
    split
    · exact h
    next e hk =>
      exact h.goExit hk fun hpc => hfits e.1 (by rw [hk, ← hpc])
  | modify =>
    rw [State.step]
    split
    · exact h
    next hm =>
      have hphase := h.phase
      rw [Option.not_isSome_iff_eq_none.1 hm] at hphase
      exact h.ofPhase rfl rfl rfl rfl rfl rfl rfl ⟨hfits, hphase⟩ h.check
  | goModify =>
    rw [State.step]
    split
    · exact h
    next m hm =>
      exact h.goModify hm

theorem Inv.init (x : T) : Inv suspended (init x) where
  counts := ⟨fun _ => by cases suspended <;> rfl, fun _ _ _ => rfl⟩
  registered := ⟨forall_mem_nil _, forall_mem_nil _, forall_mem_nil _⟩
  exits := forall_mem_nil _
  phase := ⟨rfl, rfl, fun _ hp => hp.elim (fun h => absurd h not_mem_nil) fun h => absurd h not_mem_nil⟩
  check := rfl

theorem Inv.toStable (h : Inv suspended s) : s.Stable := by
  have hphase := h.phase
  refine ⟨?_, ?_, h.check⟩
  · rintro bg ⟨⟨fn, pc⟩, hm, hpc⟩ p hp rfl
    rw [Option.mem_def.1 hm] at hphase
    rcases hpc with rfl | ⟨ret, rfl⟩
    all_goals
      obtain ⟨-, hbg, -, -, hheld⟩ := hphase
      exact absurd (hbg.symm.trans (hheld p (.inl hp))) (by cases s.index <;> decide)
  · intro hm
    rw [hm] at hphase
    exact hphase.2.1

end

/-- **Snapshots are stable**: if a thread whose wrapper is removed has left no `ScopedPtr` and
functions that return 0 change nothing, no function is about to be run on an instance that a
`ScopedPtr` points to, and both instances are equal whenever no `Modify` runs. -/
theorem snapshots_stable (suspended : Bool) (x : T) (is : List (Input T))
    (h : Along (step suspended) Fits (init x) is) : (run (step suspended) (init x) is).Stable :=
  (run_invariant Inv.step is _ (Inv.init x) h).toStable

/-- A function for the runs below: it adds one and reports a change. -/
def increment (x : ℕ) : ℕ × ℕ := (x + 1, 1)

/-- Thread 1 has read and keeps its `ScopedPtr`. -/
def readOnce : List (Input ℕ) := .read 1 :: replicate 4 (.goRead 0)

/-- A reader makes `Modify` wait, and exits when it has destroyed its `ScopedPtr`. -/
def modifyWaits : List (Input ℕ) :=
  readOnce ++ .modify increment :: replicate 5 .goModify
    ++ .destroy 0 :: replicate 3 .goModify ++ [.exit 1, .goExit 0]

theorem modifyWaits_stable : let s := run (step true) (init 0) modifyWaits
    s.Stable ∧ s.data false = 1 ∧ s.modifying = none ∧ s.wrappers = [] := by
  refine ⟨snapshots_stable true 0 modifyWaits ?_, rfl, rfl, rfl⟩
  refine ⟨trivial, trivial, trivial, trivial, trivial, fun _ h0 => absurd h0 Nat.one_ne_zero,
    trivial, trivial, trivial, trivial, trivial, trivial, trivial, trivial, trivial, trivial,
    ?_, trivial⟩
  exact fun _ _ => forall_mem_nil _

/-- **What breaks it.**  A thread exits with a `ScopedPtr` that another one will destroy: its
wrapper is gone when `Modify` looks for readers.  A function changes the instance and returns 0.
-/
theorem exit_or_zero_breaks : ¬ (run (step true) (init 0)
        (readOnce ++ [.exit 1, .goExit 0, .modify increment] ++ replicate 5 .goModify)).Stable
      ∧ ¬ (run (step true) (init 0) [.modify fun x => (x + 1, 0), .goModify, .goModify]).Stable := by
  constructor
  · intro h
    exact h.snapshots false ⟨⟨increment, .fnAgain false 1⟩, rfl, .inr ⟨1, rfl⟩⟩ (1, false) (by decide) rfl
  · intro h
    exact absurd (h.equal rfl) (by decide)

end Brpc.DoublyBuffered
