/-
# DoublyBufferedData

`butil/containers/doubly_buffered_data.h`: two instances of the data, of which `_index` says the one
that is read.  `Modify` runs its function on the other one, flips `_index`, waits until every
registered wrapper is done with the old foreground, and runs the function on that one too.  Sections
under a mutex, loads and stores of `_index` and calls of the function are steps.  `suspended` is
`AllowBthreadSuspended`.
-/

import Brpc.Lib.Ops
import Brpc.Lib.Run

namespace Brpc.DoublyBuffered

open Lib Function

/-- What a call of `Read` does next. -/
inductive ReadPc
  /-- The section of `AddWrapper`. -/
  | addWrapper
  | beginRead
  /-- `UnsafeRead`, under the mutex of the wrapper. -/
  | unsafeRead
  /-- `AddRef` and `BeginReadRelease`, or nothing more. -/
  | addRef (index : Bool)

/-- What `~Wrapper` does next when its thread exits. -/
inductive ExitPc
  | removeWrapper
  | waitReadDone (index : Bool)

/-- What the call of `Modify` that holds `_modify_mutex` does next; `ret` is what the
function has returned. -/
inductive ModifyPc
  | loadIndex
  | fn (bg : Bool)
  | publish (bg : Bool) (ret : ℕ)
  | lockWrappers (bg : Bool) (ret : ℕ)
  /-- `WaitReadDone` of `_wrappers[i]`. -/
  | wait (bg : Bool) (ret i : ℕ)
  | fnAgain (bg : Bool) (ret : ℕ)

/-- A call of `Modify`, with a function that gives the new instance and what it returns. -/
structure Modify (T : Type) where
  fn : T → T × ℕ
  pc : ModifyPc

structure State (T : Type) where
  index : Bool
  data : Bool → T
  wrappers : List ℕ
  /-- `_mutex` of a wrapper. -/
  locked : ℕ → Bool
  /-- `_ref` of a wrapper. -/
  ref : ℕ → Bool → ℕ
  /-- `_wrappers_mutex`, as far as it is held from step to step. -/
  wrappersLocked : Bool
  /-- The holder of `_modify_mutex`. -/
  modifying : Option (Modify T)
  reads : List (ℕ × ReadPc)
  /-- The `ScopedPtr`s that `Read` has returned: thread of the wrapper and instance. -/
  ptrs : List (ℕ × Bool)
  exits : List (ℕ × ExitPc)
  exited : List ℕ
  /-- CHECK_EQ(ret2, ret) has failed. -/
  checkFailed : Bool

inductive Input (T : Type)
  | read (w : ℕ)
  | goRead (k : ℕ)
  /-- `~ScopedPtr` -/
  | destroy (k : ℕ)
  | exit (w : ℕ)
  | goExit (k : ℕ)
  | modify (fn : T → T × ℕ)
  | goModify

namespace State

variable {T : Type}

/-- Both instances are `x`. -/
def init (x : T) : State T :=
  ⟨false, fun _ => x, [], fun _ => false, fun _ _ => 0, false, none, [], [], [], [], false⟩

/-- The loop of `RemoveWrapper`: the last wrapper takes the place of the one removed. -/
def removeWrapper (w : ℕ) : List ℕ → List ℕ
  | [] => []
  | w' :: ws => if w' = w then (ws.getLast?.toList ++ ws.dropLast) else w' :: removeWrapper w ws

variable (suspended : Bool) (s : State T)

/-- A thread does one thing at a time, and nothing once it exits. -/
def busy (w : ℕ) : Bool := w ∈ s.exited || s.reads.any fun r => r.1 = w

def setRead (k w : ℕ) (pc : ReadPc) : State T := { s with reads := replaceAt s.reads k [(w, pc)] }

def stepRead (k w : ℕ) : ReadPc → State T
  | .addWrapper =>
    if s.wrappersLocked then s else { s.setRead k w .beginRead with wrappers := s.wrappers ++ [w] }
  | .beginRead =>
    if s.locked w then s
    else { s.setRead k w .unsafeRead with locked := update s.locked w true }
  | .unsafeRead => s.setRead k w (.addRef s.index)
  | .addRef index =>
    let s' := { s with reads := replaceAt s.reads k [], ptrs := s.ptrs ++ [(w, index)] }
    if suspended then
      { s' with
        ref := update s.ref w (update (s.ref w) index (s.ref w index + 1))
        locked := update s.locked w false }
    else s'

/-- `EndRead`: under the mutex, or the release of it. -/
def stepDestroy (k w : ℕ) (index : Bool) : State T :=
  if suspended then
    if s.locked w then s
    else
      { s with
        ptrs := replaceAt s.ptrs k []
        ref := update s.ref w (update (s.ref w) index (s.ref w index - 1)) }
  else { s with ptrs := replaceAt s.ptrs k [], locked := update s.locked w false }

/-- One step of `~Wrapper` at `k`. -/
def stepExit (k w : ℕ) : ExitPc → State T
  | .removeWrapper =>
    if s.wrappersLocked then s
    else
      { s with
        wrappers := removeWrapper w s.wrappers
        exits := replaceAt s.exits k (if suspended then [(w, .waitReadDone false)] else []) }
  | .waitReadDone index =>
    if s.locked w ∨ s.ref w index ≠ 0 then s
    else
      { s with exits := replaceAt s.exits k (if index then [] else [(w, .waitReadDone true)]) }

def stepModify (fn : T → T × ℕ) : ModifyPc → State T
  | .loadIndex => { s with modifying := some ⟨fn, .fn (!s.index)⟩ }
  | .fn bg =>
    let out := fn (s.data bg)
    { s with
      data := update s.data bg out.1
      modifying := if out.2 = 0 then none else some ⟨fn, .publish bg out.2⟩ }
  | .publish bg ret => { s with index := bg, modifying := some ⟨fn, .lockWrappers (!bg) ret⟩ }
  | .lockWrappers bg ret => { s with wrappersLocked := true, modifying := some ⟨fn, .wait bg ret 0⟩ }
  | .wait bg ret i =>
    match s.wrappers[i]? with
    | none => { s with wrappersLocked := false, modifying := some ⟨fn, .fnAgain bg ret⟩ }
    | some w =>
      if s.locked w ∨ suspended = true ∧ s.ref w bg ≠ 0 then s
      else { s with modifying := some ⟨fn, .wait bg ret (i + 1)⟩ }
  | .fnAgain bg ret =>
    let out := fn (s.data bg)
    { s with
      data := update s.data bg out.1
      modifying := none
      checkFailed := s.checkFailed || decide (out.2 ≠ ret) }

def step (s : State T) : Input T → State T
  | .read w =>
    if s.busy w then s
    else { s with reads := s.reads ++ [(w, if w ∈ s.wrappers then .beginRead else .addWrapper)] }
  | .goRead k =>
    match s.reads[k]? with
    | none => s
    | some r => s.stepRead suspended k r.1 r.2
  | .destroy k =>
    match s.ptrs[k]? with
    | none => s
    | some p => s.stepDestroy suspended k p.1 p.2
  | .exit w =>
    if s.busy w then s
    else { s with exited := w :: s.exited, exits := s.exits ++ [(w, .removeWrapper)] }
  | .goExit k =>
    match s.exits[k]? with
    | none => s
    | some e => s.stepExit suspended k e.1 e.2
  | .modify fn => if s.modifying.isSome then s else { s with modifying := some ⟨fn, .loadIndex⟩ }
  | .goModify =>
    match s.modifying with
    | none => s
    | some m => s.stepModify suspended m.fn m.pc

/-- The function is about to be run on this instance. -/
def RunsOn (s : State T) (bg : Bool) : Prop :=
  ∃ m ∈ s.modifying, m.pc = .fn bg ∨ ∃ ret, m.pc = .fnAgain bg ret

/-- No function is about to be run on an instance that a `ScopedPtr` points to; without a
`Modify` both instances are equal. -/
structure Stable (s : State T) : Prop where
  snapshots : ∀ bg, s.RunsOn bg → ∀ p ∈ s.ptrs, p.2 ≠ bg
  equal : s.modifying = none → s.data false = s.data true
  check : s.checkFailed = false

/-- A thread whose wrapper is removed has left no `ScopedPtr`; a function that returns 0 has
changed nothing. -/
def Fits (s : State T) : Input T → Prop
  | .goExit k => ∀ w, s.exits[k]? = some (w, .removeWrapper) → ∀ p ∈ s.ptrs, p.1 ≠ w
  | .modify fn => ∀ x, (fn x).2 = 0 → (fn x).1 = x
  | _ => True

end State

/-! ## What keeps the snapshots of DoublyBufferedData -/

open List

variable {T : Type} {suspended : Bool}

/-- This instance is held through the wrapper of this thread. -/
def Holds (ptrs : List (ℕ × Bool)) (reads : List (ℕ × ReadPc)) (p : ℕ × Bool) : Prop :=
  p ∈ ptrs ∨ (p.1, .addRef p.2) ∈ reads

/-- The call is inside the mutex of the wrapper of `w`. -/
def inside (w : ℕ) (r : ℕ × ReadPc) : Bool :=
  match r.2 with
  | .unsafeRead | .addRef _ => r.1 = w
  | _ => false

/-- Who has a mutex locked, and what the counts count. -/
structure Counts (suspended : Bool) (locked : ℕ → Bool) (ref : ℕ → Bool → ℕ)
    (reads : List (ℕ × ReadPc)) (ptrs : List (ℕ × Bool)) : Prop where
  locks : ∀ w, reads.countP (inside w) + (if suspended then 0 else ptrs.countP (·.1 = w)) = if locked w then 1 else 0
  refs : suspended = true → ∀ w i, ref w i = ptrs.countP (· = (w, i))

/-- What is held is held through registered wrappers, and exiting threads do not read. -/
structure Registered (wrappers exited : List ℕ) (reads : List (ℕ × ReadPc)) (ptrs : List (ℕ × Bool)) : Prop where
  ptr : ∀ p ∈ ptrs, p.1 ∈ wrappers
  read : ∀ r ∈ reads, r.2 ≠ .addWrapper → r.1 ∈ wrappers
  stays : ∀ r ∈ reads, r.1 ∉ exited

/-- The part of `Phase` that depends on where the `Modify` is. -/
def PhaseAt (index : Bool) (data : Bool → T) (wrappers : List ℕ) (wrappersLocked : Bool)
    (holds : ℕ × Bool → Prop) (fn : T → T × ℕ) : ModifyPc → Prop
  | .loadIndex => wrappersLocked = false ∧ data false = data true ∧ ∀ p, holds p → p.2 = index
  | .fn bg =>
    bg = (!index) ∧ wrappersLocked = false ∧ data false = data true ∧ ∀ p, holds p → p.2 = index
  | .publish bg ret =>
    bg = (!index) ∧ wrappersLocked = false ∧ fn (data index) = (data bg, ret)
      ∧ ∀ p, holds p → p.2 = index
  | .lockWrappers bg ret =>
    bg = (!index) ∧ wrappersLocked = false ∧ fn (data bg) = (data index, ret)
  | .wait bg ret i =>
    bg = (!index) ∧ wrappersLocked = true ∧ fn (data bg) = (data index, ret)
      ∧ ∀ p, holds p → p.2 = bg → p.1 ∈ wrappers.drop i
  | .fnAgain bg ret =>
    bg = (!index) ∧ wrappersLocked = false ∧ fn (data bg) = (data index, ret)
      ∧ ∀ p, holds p → p.2 = index

/-- Which instances are held and how they differ, as the `Modify` goes on. -/
def Phase (index : Bool) (data : Bool → T) (wrappers : List ℕ) (wrappersLocked : Bool)
    (holds : ℕ × Bool → Prop) : Option (Modify T) → Prop
  | none => wrappersLocked = false ∧ data false = data true ∧ ∀ p, holds p → p.2 = index
  | some m =>
    (∀ x, (m.fn x).2 = 0 → (m.fn x).1 = x)
      ∧ PhaseAt index data wrappers wrappersLocked holds m.fn m.pc

structure Inv (suspended : Bool) (s : State T) : Prop where
  counts : Counts suspended s.locked s.ref s.reads s.ptrs
  registered : Registered s.wrappers s.exited s.reads s.ptrs
  exits : ∀ e ∈ s.exits, e.1 ∈ s.exited
  phase : Phase s.index s.data s.wrappers s.wrappersLocked (Holds s.ptrs s.reads) s.modifying
  check : s.checkFailed = false

/-! ## What holds as `Modify` waits -/

/-- **Reads may begin and end at any time.**  A new holder holds the foreground; wrappers come
and go only while the loop of `Modify` does not run. -/
theorem Phase.mono {index : Bool} {data : Bool → T} {ws ws' : List ℕ} {wl : Bool}
    {holds holds' : ℕ × Bool → Prop} {m : Option (Modify T)} (h : Phase index data ws wl holds m)
    (hh : ∀ p, holds' p → holds p ∨ p.2 = index) (hw : wl = true → ws' = ws) :
    Phase index data ws' wl holds' m := by
  have hfg (hall : ∀ p, holds p → p.2 = index) (p) (hp : holds' p) : p.2 = index := (hh p hp).elim (hall p) id
  rcases m with _ | ⟨fn, pc⟩
  · exact ⟨h.1, h.2.1, hfg h.2.2⟩
  · refine ⟨h.1, ?_⟩
    have hpc := h.2
    cases pc with
    | loadIndex => exact ⟨hpc.1, hpc.2.1, hfg hpc.2.2⟩
    | fn | publish | fnAgain => exact ⟨hpc.1, hpc.2.1, hpc.2.2.1, hfg hpc.2.2.2⟩
    | lockWrappers => exact hpc
    | wait =>
      obtain ⟨hbg, hwl, hdata, hwait⟩ := hpc
      refine ⟨hbg, hwl, hdata, fun p hp hpbg => ?_⟩
      rw [hw hwl]
      rcases hh p hp with hp | hp
      · exact hwait p hp hpbg
      · rw [hp] at hpbg
        exact absurd (hpbg.trans hbg) (by cases index <;> decide)

/-- **A wrapper that is neither locked nor counted holds nothing.** -/
theorem Counts.not_holds {locked : ℕ → Bool} {ref : ℕ → Bool → ℕ} {reads : List (ℕ × ReadPc)}
    {ptrs : List (ℕ × Bool)} (h : Counts suspended locked ref reads ptrs) {w : ℕ} {i : Bool}
    (hw : ¬ (locked w = true ∨ suspended = true ∧ ref w i ≠ 0)) : ¬ Holds ptrs reads (w, i) := by
  rw [not_or] at hw
  have hl := h.locks w
  rw [if_neg hw.1] at hl
  rintro (hp | hr)
  · rcases hs : suspended with _ | _
    · rw [hs, if_neg Bool.false_ne_true] at hl
      have : 0 < ptrs.countP (fun q => decide (q.1 = w)) := countP_pos_iff.2 ⟨_, hp, decide_eq_true rfl⟩
      omega
    · have : 0 < ptrs.countP (fun q => decide (q = (w, i))) := countP_pos_iff.2 ⟨_, hp, decide_eq_true rfl⟩
      rw [← h.refs hs] at this
      exact hw.2 ⟨hs, by omega⟩
  · have : 0 < reads.countP (inside w) := countP_pos_iff.2 ⟨_, hr, decide_eq_true rfl⟩
    omega

/-! ## Steps -/

section
variable {s : State T}

section

variable (h : Inv suspended s)
include h

theorem Inv.ofPhase {s' : State T} (hc : s'.locked = s.locked)
    (hr : s'.ref = s.ref) (hreads : s'.reads = s.reads) (hptrs : s'.ptrs = s.ptrs)
    (hw : s'.wrappers = s.wrappers) (hed : s'.exited = s.exited) (hes : s'.exits = s.exits)
    (hphase : Phase s'.index s'.data s.wrappers s'.wrappersLocked (Holds s.ptrs s.reads)
      s'.modifying) (hcheck : s'.checkFailed = false) : Inv suspended s' where
  counts := by
    rw [hc, hr, hreads, hptrs]
    exact h.counts
  registered := by
    rw [hw, hed, hreads, hptrs]
    exact h.registered
  exits := by
    rw [hes, hed]
    exact h.exits
  phase := by
    rw [hw, hptrs, hreads]
    exact hphase
  check := hcheck

omit h in
theorem data_eq {data : Bool → T} (h : data false = data true) (i j : Bool) : data i = data j := by
  cases i <;> cases j
  · rfl
  · exact h
  · exact h.symm
  · rfl

theorem Inv.fn {fn : T → T × ℕ} {bg : Bool}
    (hm : s.modifying = some ⟨fn, .fn bg⟩) : Inv suspended (s.stepModify suspended fn (.fn bg)) := by
  have hphase := h.phase
  rw [hm] at hphase
  obtain ⟨hzero, hbg, hwl, hdata, hheld⟩ := hphase
  have hne : s.index ≠ bg := by
    rw [hbg]
    cases s.index <;> decide
  refine h.ofPhase rfl rfl rfl rfl rfl rfl rfl ?_ h.check
  show Phase s.index (update s.data bg (fn (s.data bg)).1) s.wrappers s.wrappersLocked _
    (if (fn (s.data bg)).2 = 0 then none else some ⟨fn, .publish bg (fn (s.data bg)).2⟩)
  split_ifs with h0
  · rw [hzero _ h0, update_eq_self]
    exact ⟨hwl, hdata, hheld⟩
  · refine ⟨hzero, hbg, hwl, ?_, hheld⟩
    rw [update_of_ne hne, update_self, data_eq hdata s.index bg]

theorem Inv.fnAgain {fn : T → T × ℕ} {bg : Bool} {ret : ℕ} (hm : s.modifying = some ⟨fn, .fnAgain bg ret⟩) :
    Inv suspended (s.stepModify suspended fn (.fnAgain bg ret)) := by
  have hphase := h.phase
  rw [hm] at hphase
  obtain ⟨-, hbg, hwl, hdata, hheld⟩ := hphase
  change fn (s.data bg) = _ at hdata
  refine h.ofPhase rfl rfl rfl rfl rfl rfl rfl ?_ ?_
  · refine ⟨hwl, ?_, hheld⟩
    show update s.data bg (fn (s.data bg)).1 false = update s.data bg _ true
    rw [hdata]
    rcases hi : s.index with _ | _
    · rw [hi] at hbg
      rw [hbg, Bool.not_false, update_self, update_of_ne Bool.false_ne_true]
    · rw [hi] at hbg
      rw [hbg, Bool.not_true, update_self, update_of_ne Bool.false_ne_true.symm]
  · show (s.checkFailed || decide ((fn (s.data bg)).2 ≠ ret)) = false
    rw [h.check, hdata, Bool.false_or, decide_eq_false_iff_not, not_not]

theorem Inv.wait {fn : T → T × ℕ} {bg : Bool} {ret i : ℕ} (hm : s.modifying = some ⟨fn, .wait bg ret i⟩) :
    Inv suspended (s.stepModify suspended fn (.wait bg ret i)) := by
  have hphase := h.phase
  rw [hm] at hphase
  obtain ⟨hzero, hbg, hwl, hdata, hheld⟩ := hphase
  rw [State.stepModify]
  split
  next hnone =>
    refine h.ofPhase rfl rfl rfl rfl rfl rfl rfl ⟨hzero, hbg, rfl, hdata, fun p hp => ?_⟩ h.check
    by_contra hi
    have hmem := hheld p hp (by rw [hbg]; exact Bool.eq_not_of_ne hi)
    rw [drop_eq_nil_of_le (getElem?_eq_none_iff.1 hnone)] at hmem
    exact absurd hmem not_mem_nil
  next w hw =>
    split
    · exact h
    next hfree =>
      refine h.ofPhase rfl rfl rfl rfl rfl rfl rfl ⟨hzero, hbg, hwl, hdata, ?_⟩ h.check
      intro p hp hpbg
      have hmem := hheld p hp hpbg
      rw [drop_eq_getElem?_toList_append, hw, Option.toList_some, singleton_append, mem_cons] at hmem
      rcases hmem with hpw | hmem
      · refine absurd hp ?_
        rw [show p = (w, bg) from Prod.ext hpw hpbg]
        exact h.counts.not_holds hfree
      · exact hmem

/-- **Every step of `Modify` keeps the invariant.** -/
theorem Inv.goModify {fn : T → T × ℕ} {pc : ModifyPc}
    (hm : s.modifying = some ⟨fn, pc⟩) : Inv suspended (s.stepModify suspended fn pc) := by
  have hphase := h.phase
  rw [hm] at hphase
  obtain ⟨hzero, hpc⟩ := hphase
  cases pc with
  | loadIndex =>
    exact h.ofPhase rfl rfl rfl rfl rfl rfl rfl ⟨hzero, rfl, hpc⟩ h.check
  | fn => exact h.fn hm
  | publish bg =>
    obtain ⟨hbg, hwl, hdata, -⟩ := hpc
    have hi : s.index = !bg := by rw [hbg, Bool.not_not]
    rw [hi] at hdata
    exact h.ofPhase rfl rfl rfl rfl rfl rfl rfl ⟨hzero, rfl, hwl, hdata⟩ h.check
  | lockWrappers =>
    obtain ⟨hbg, -, hdata⟩ := hpc
    refine h.ofPhase rfl rfl rfl rfl rfl rfl rfl ⟨hzero, hbg, rfl, hdata, fun p hp _ => ?_⟩ h.check
    rcases hp with hp | hp
    · exact h.registered.ptr p hp
    · exact h.registered.read _ hp (by rintro ⟨⟩)
  | wait => exact h.wait hm
  | fnAgain => exact h.fnAgain hm

end

end

end Brpc.DoublyBuffered
