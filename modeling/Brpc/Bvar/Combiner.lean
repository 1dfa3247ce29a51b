/-
# `AgentCombiner`: one element per thread and a global result

`bvar/detail/combiner.h` with `operator<<` of `reducer.h` and `recorder.h`.  A thread adds to the
element of its own agent without a lock; `combine_agents` and `reset_all_agents` walk over the
agents under `_lock` meanwhile.  An element is committed to the global result when its thread exits
or it would overflow.  A step is one atomic operation or one lock section, and a walk is cut into
its atomic operations; `resets` and `samples` are history.
-/

import Brpc.Lib.Run
import Mathlib.Algebra.BigOperators.Group.Finset.Piecewise
import Mathlib.Data.Fintype.Basic
import Mathlib.Tactic.Abel

namespace Brpc.Bvar

open Function List

/-- What a combiner is instantiated with: results `α`, elements `ε` and samples `σ`. -/
structure Combiner (α ε σ : Type) where
  elementIdentity : ε
  resultIdentity : α
  /-- `_op` on a result and an element. -/
  op : α → ε → α
  /-- The element with one more sample; `none` when it has to be committed before. -/
  next : ε → σ → Option ε
  /-- The element of one sample, after a commit. -/
  first : σ → ε
  /-- The element is an atomic, else it has a lock. -/
  atomical : Bool

/-- Where a thread stands in `operator<<`. -/
inductive Pc (ε σ : Type)
  | idle
  /-- The agent is reset and not yet in `_agents`. -/
  | append (x : σ)
  /-- The load of the element is next, or `modify` under its lock. -/
  | load (x : σ)
  /-- `compare_exchange_weak(n, e)` is next. -/
  | compare (x : σ) (n e : ε)
  /-- `commit_and_clear` is next. -/
  | commit (x : σ)

/-- Who holds `_lock` across atomic operations, with the agents left and the result so far. -/
inductive Walk (α τ : Type)
  | none
  | combine (rest : List τ) (ret : α)
  | reset (rest : List τ) (tmp : α)

/-- `τ` are the threads.  The element of a thread without an agent is the identity. -/
structure State (α ε σ τ : Type) where
  walk : Walk α τ
  globalResult : α
  agents : List τ
  element : τ → ε
  pc : τ → Pc ε σ
  /-- The samples `operator<<` was called with. -/
  samples : List σ
  /-- The values returned by `reset_all_agents`. -/
  resets : List α

inductive Input (σ τ : Type)
  /-- A thread calls `operator<<`. -/
  | add (t : τ) (x : σ)
  /-- The next step of a thread; a weak compare-exchange may fail without a reason. -/
  | run (t : τ) (spurious : Bool)
  | exit (t : τ)
  | combineAgents
  | resetAllAgents
  /-- The next step of the walk over the agents. -/
  | walk

namespace State

variable {α ε σ τ : Type} [DecidableEq ε] [DecidableEq τ] (c : Combiner α ε σ)

def init : State α ε σ τ where
  walk := .none
  globalResult := c.resultIdentity
  agents := []
  element := fun _ => c.elementIdentity
  pc := fun _ => .idle
  samples := []
  resets := []

def goto (s : State α ε σ τ) (t : τ) (pc : Pc ε σ) : State α ε σ τ :=
  { s with pc := update s.pc t pc }

def store (s : State α ε σ τ) (t : τ) (e : ε) : State α ε σ τ :=
  { s with element := update s.element t e }

/-- `get_or_create_tls_agent` up to the lock. -/
def add (s : State α ε σ τ) (t : τ) (x : σ) : State α ε σ τ :=
  if t ∈ s.agents then { s.goto t (.load x) with samples := s.samples ++ [x] }
  else { (s.store t c.elementIdentity).goto t (.append x) with samples := s.samples ++ [x] }

/-- What `operator<<` does with the element `n` it has read. -/
def compute (n : ε) (x : σ) : Pc ε σ :=
  match c.next n x with
  | some e => .compare x n e
  | none => .commit x

/-- The element becomes `e` and `operator<<` returns. -/
def added (s : State α ε σ τ) (t : τ) (e : ε) : State α ε σ τ := (s.store t e).goto t .idle

/-- `load`, or `modify` of an element with a lock. -/
def load (s : State α ε σ τ) (t : τ) (x : σ) : State α ε σ τ :=
  if c.atomical then s.goto t (compute c (s.element t) x)
  else match c.next (s.element t) x with
    | some e => s.added t e
    | none => s

def compareExchangeWeak (s : State α ε σ τ) (t : τ) (x : σ) (n e : ε) (spurious : Bool) : State α ε σ τ :=
  if s.element t = n ∧ spurious = false then s.added t e
  else s.goto t (compute c (s.element t) x)

/-- The element goes to the global result. -/
def commit (s : State α ε σ τ) (t : τ) : State α ε σ τ :=
  { s.store t c.elementIdentity with globalResult := c.op s.globalResult (s.element t) }

/-- The next step of a thread.  Lock sections wait while a walk holds `_lock`. -/
def run (s : State α ε σ τ) (t : τ) (spurious : Bool) : State α ε σ τ :=
  match s.pc t, s.walk with
  | .load x, _ => s.load c t x
  | .compare x n e, _ => s.compareExchangeWeak c t x n e spurious
  | .append x, .none => { s with agents := s.agents ++ [t] }.goto t (.load x)
  | .commit x, .none => (s.commit c t).goto t (.compare x c.elementIdentity (c.first x))
  | _, _ => s

/-- `commit_and_erase`, after which the agent is deleted. -/
def commitAndErase (s : State α ε σ τ) (t : τ) : State α ε σ τ :=
  { s.commit c t with agents := s.agents.erase t }

/-- One step of a walk: the next agent, or the end, where a reset returns its result. -/
def walkOne (s : State α ε σ τ) : State α ε σ τ :=
  match s.walk with
  | .none => s
  | .combine [] _ => { s with walk := .none }
  | .combine (t :: rest) ret => { s with walk := .combine rest (c.op ret (s.element t)) }
  | .reset [] tmp => { s with walk := .none, resets := s.resets ++ [tmp] }
  | .reset (t :: rest) tmp =>
    { s.store t c.elementIdentity with walk := .reset rest (c.op tmp (s.element t)) }

def step (s : State α ε σ τ) : Input σ τ → State α ε σ τ
  | .add t x => match s.pc t with
    | .idle => s.add c t x
    | _ => s
  | .run t spurious => s.run c t spurious
  | .exit t => match s.pc t, s.walk with
    | .idle, .none => if t ∈ s.agents then s.commitAndErase c t else s
    | _, _ => s
  | .combineAgents => match s.walk with
    | .none => { s with walk := .combine s.agents s.globalResult }
    | _ => s
  | .resetAllAgents => match s.walk with
    | .none => { s with walk := .reset s.agents s.globalResult, globalResult := c.resultIdentity }
    | _ => s
  | .walk => s.walkOne c

/-- `combine_agents` as one step, which is what it is when nothing else runs. -/
def combineAgents (s : State α ε σ τ) : α :=
  s.agents.foldl (fun ret t => c.op ret (s.element t)) s.globalResult

/-- No thread is in `operator<<` and nobody holds `_lock`. -/
def Quiet (s : State α ε σ τ) : Prop := s.walk = .none ∧ ∀ t, s.pc t = .idle

end State

variable {α ε σ τ : Type} [AddCommMonoid α]

/-- An element stands for a result, its `weight`, and a sample adds its `value` to it. -/
structure Combiner.Lawful (c : Combiner α ε σ) (weight : ε → α) (value : σ → α) : Prop where
  resultIdentity : c.resultIdentity = 0
  elementIdentity : weight c.elementIdentity = 0
  op : ∀ r e, c.op r e = r + weight e
  next : ∀ {n x e}, c.next n x = some e → weight e = weight n + value x
  first : ∀ x, weight (c.first x) = value x

/-! ## The invariant -/

/-- The value of a sample on its way into an element. -/
def Pc.pending (value : σ → α) : Pc ε σ → α
  | .idle => 0
  | .append x | .load x | .commit x | .compare x _ _ => value x

/-- What a reset has collected and not yet returned. -/
def Walk.held : Walk α τ → α
  | .reset _ tmp => tmp
  | _ => 0

/-- What a thread relies on: only it puts its agent into the list and takes it out. -/
def Pc.Ok (weight : ε → α) (value : σ → α) (listed : Prop) : Pc ε σ → Prop
  | .idle => True
  | .append _ => ¬listed
  | .load _ | .commit _ => listed
  | .compare x n e => listed ∧ weight e = weight n + value x

namespace State

section

variable [Fintype τ] (weight : ε → α) (value : σ → α)

/-- What a thread holds: its element and the sample it adds. -/
def share (s : State α ε σ τ) (t : τ) : α := weight (s.element t) + (s.pc t).pending value

/-- All that was added and not given out by a reset. -/
def stock (s : State α ε σ τ) : α := s.walk.held + s.globalResult + ∑ t, s.share weight value t

structure Inv (s : State α ε σ τ) : Prop where
  nodup : s.agents.Nodup
  pc_ok : ∀ t, (s.pc t).Ok weight value (t ∈ s.agents)
  unlisted : ∀ t ∉ s.agents, weight (s.element t) = 0
  balance : s.resets.sum + s.stock weight value = (s.samples.map value).sum

end

variable [Fintype τ] {c : Combiner α ε σ} {weight : ε → α} {value : σ → α} {s s' : State α ε σ τ} {t : τ}

theorem Inv.init (hc : c.Lawful weight value) : (init c : State α ε σ τ).Inv weight value where
  nodup := nodup_nil
  pc_ok _ := trivial
  unlisted _ _ := hc.elementIdentity
  balance := by
    simp [State.init, stock, share, Walk.held, Pc.pending, hc.resultIdentity, hc.elementIdentity]

theorem Inv.transfer (h : s.Inv weight value) {walk : Walk α τ} {g : α} {resets : List α}
    (hsum : resets.sum + walk.held + g = s.resets.sum + s.walk.held + s.globalResult) :
    { s with walk := walk, globalResult := g, resets := resets }.Inv weight value where
  nodup := h.nodup
  pc_ok := h.pc_ok
  unlisted := h.unlisted
  balance := by
    rw [← h.balance, stock, stock, ← add_assoc, ← add_assoc, ← add_assoc, ← add_assoc, hsum]
    rfl

variable [DecidableEq τ]

theorem sum_share (h : ∀ i ≠ t, s'.share weight value i = s.share weight value i) {x y : α}
    (ht : x + s'.share weight value t = y + s.share weight value t) :
    x + ∑ i, s'.share weight value i = y + ∑ i, s.share weight value i := by
  have hrest : ∑ i ∈ Finset.univ.erase t, s'.share weight value i
      = ∑ i ∈ Finset.univ.erase t, s.share weight value i :=
    Finset.sum_congr rfl fun i hi => h i (Finset.ne_of_mem_erase hi)
  rw [← Finset.add_sum_erase _ _ (Finset.mem_univ t), ← Finset.add_sum_erase _ _ (Finset.mem_univ t),
    hrest, ← add_assoc, ← add_assoc, ht]

variable (h : s.Inv weight value)
include h

theorem Inv.of_step (hpc : ∀ i ≠ t, s'.pc i = s.pc i) (helement : ∀ i ≠ t, s'.element i = s.element i)
    (hagents : ∀ i ≠ t, i ∈ s'.agents ↔ i ∈ s.agents) (hnodup : s'.agents.Nodup)
    (hok : (s'.pc t).Ok weight value (t ∈ s'.agents))
    (hzero : t ∉ s'.agents → weight (s'.element t) = 0) {x : α}
    (hsamples : (s'.samples.map value).sum = x + (s.samples.map value).sum)
    (hshare : s'.resets.sum + s'.walk.held + s'.globalResult + s'.share weight value t
      = x + (s.resets.sum + s.walk.held + s.globalResult) + s.share weight value t) : s'.Inv weight value where
  nodup := hnodup
  pc_ok i := by
    rcases eq_or_ne i t with rfl | hi
    · exact hok
    · rw [hpc i hi, hagents i hi]
      exact h.pc_ok i
  unlisted i hi := by
    rcases eq_or_ne i t with rfl | hit
    · exact hzero hi
    · rw [helement i hit]
      exact h.unlisted i fun hmem => hi ((hagents i hit).2 hmem)
  balance := by
    have hsum := sum_share (fun i hi => by rw [share, share, hpc i hi, helement i hi]) hshare
    rw [hsamples, ← h.balance, stock, stock, ← add_assoc, ← add_assoc, hsum]
    abel

theorem Inv.goto {pc : Pc ε σ} (hok : pc.Ok weight value (t ∈ s.agents))
    (hpending : pc.pending value = (s.pc t).pending value) : (s.goto t pc).Inv weight value := by
  refine h.of_step (t := t) (x := 0) (fun i hi => update_of_ne hi ..) (fun _ _ => rfl)
    (fun _ _ => Iff.rfl) h.nodup ?_ (h.unlisted t) (by simp [State.goto]) ?_
  · simpa [State.goto] using hok
  · simp [share, State.goto, hpending]

theorem Inv.added (ht : t ∈ s.agents) {e : ε} (he : weight e = weight (s.element t) + (s.pc t).pending value) :
    (s.added t e).Inv weight value := by
  refine h.of_step (t := t) (x := 0) (fun i hi => update_of_ne hi ..)
    (fun i hi => update_of_ne hi ..) (fun _ _ => Iff.rfl) h.nodup ?_ (fun hn => absurd ht hn)
    (by simp [State.added, State.goto, store]) ?_
  · simp [State.added, State.goto, Pc.Ok]
  · simp [share, State.added, State.goto, store, Pc.pending, he]

theorem Inv.append {x : σ} (hpc : s.pc t = .append x) :
    ({ s with agents := s.agents ++ [t] }.goto t (.load x)).Inv weight value := by
  have ht : t ∉ s.agents := by simpa [hpc, Pc.Ok] using h.pc_ok t
  refine h.of_step (t := t) (x := 0) (fun i hi => update_of_ne hi ..) (fun _ _ => rfl)
    (fun i hi => by simp [State.goto, hi]) ?_ ?_ (fun _ => h.unlisted t ht)
    (by simp [State.goto]) ?_
  · exact nodup_append.2 ⟨h.nodup, by simp, by
      rintro a ha b hb rfl
      exact ht (mem_singleton.1 hb ▸ ha)⟩
  · simp [State.goto, Pc.Ok]
  · simp [share, State.goto, hpc, Pc.pending]

variable (hc : c.Lawful weight value)
include hc

theorem Inv.take (hpc : s'.pc = s.pc)
    (helement : s'.element = update s.element t c.elementIdentity) (hagents : s'.agents = s.agents)
    (hsamples : s'.samples = s.samples) (hsum : s'.resets.sum + s'.walk.held + s'.globalResult
      = s.resets.sum + s.walk.held + s.globalResult + weight (s.element t)) : s'.Inv weight value := by
  refine h.of_step (t := t) (x := 0) (fun i _ => by rw [hpc])
    (fun i hi => by rw [helement, update_of_ne hi]) (fun i _ => by rw [hagents])
    (hagents ▸ h.nodup) (by rw [hpc, hagents]; exact h.pc_ok t) (fun _ => ?_) (by simp [hsamples]) ?_
  · rw [helement, update_self, hc.elementIdentity]
  · rw [share, share, hsum, hpc, helement, update_self, hc.elementIdentity]
    abel

theorem Inv.commit : (s.commit c t).Inv weight value := by
  refine h.take hc (t := t) rfl rfl rfl rfl ?_
  show s.resets.sum + s.walk.held + c.op s.globalResult (s.element t) = _
  rw [hc.op, ← add_assoc]

theorem Inv.commitAndErase (hidle : s.pc t = .idle) : (s.commitAndErase c t).Inv weight value := by
  have hcommit := h.commit (t := t) hc
  refine hcommit.of_step (t := t) (x := 0) (fun _ _ => rfl) (fun _ _ => rfl)
    (fun i hi => mem_erase_of_ne hi) (h.nodup.erase t) ?_ (fun _ => ?_) (zero_add _).symm ?_
  · show ((s.pc t).Ok weight value _)
    rw [hidle]
    trivial
  · show weight (update s.element t c.elementIdentity t) = 0
    rw [update_self, hc.elementIdentity]
  · rw [zero_add]
    rfl

theorem Inv.add (hidle : s.pc t = .idle) (x : σ) : (s.add c t x).Inv weight value := by
  have hsum : ((s.samples ++ [x]).map value).sum = value x + (s.samples.map value).sum := by
    simp [add_comm]
  unfold State.add
  split
  next ht =>
    refine h.of_step (t := t) (fun i hi => update_of_ne hi ..) (fun _ _ => rfl)
      (fun _ _ => Iff.rfl) h.nodup ?_ (h.unlisted t) hsum ?_
    · simpa [State.goto, Pc.Ok] using ht
    · simp only [share, State.goto, update_self, hidle, Pc.pending]
      abel
  next ht =>
    refine h.of_step (t := t) (fun i hi => update_of_ne hi ..) (fun i hi => update_of_ne hi ..)
      (fun _ _ => Iff.rfl) h.nodup ?_ (fun _ => ?_) hsum ?_
    · simpa [State.goto, store, Pc.Ok] using ht
    · simp [State.goto, store, hc.elementIdentity]
    · simp only [share, State.goto, store, update_self, hidle, Pc.pending, hc.elementIdentity, h.unlisted t ht]
      abel

theorem Inv.walkOne : (s.walkOne c).Inv weight value := by
  unfold State.walkOne
  split
  next => exact h
  next ret hwalk => exact h.transfer (by simp [hwalk, Walk.held])
  next t rest ret hwalk => exact h.transfer (by simp [hwalk, Walk.held])
  next tmp hwalk => exact h.transfer (by simp [hwalk, Walk.held])
  next t rest tmp hwalk =>
    refine h.take hc (t := t) rfl rfl rfl rfl ?_
    simp only [store, hwalk, Walk.held, hc.op]
    abel

theorem Inv.compute (ht : t ∈ s.agents) {x : σ} (hx : (s.pc t).pending value = value x) (n : ε) :
    (s.goto t (State.compute c n x)).Inv weight value := by
  unfold State.compute
  split
  next e he => exact h.goto ⟨ht, hc.next he⟩ hx.symm
  next => exact h.goto ht hx.symm

theorem Inv.combineAgents (hq : s.Quiet) : s.combineAgents c = s.stock weight value := by
  have hfold : ∀ (l : List τ) (r : α), l.foldl (fun ret t => c.op ret (s.element t)) r
      = r + (l.map fun t => weight (s.element t)).sum := by
    intro l r
    induction l generalizing r with
    | nil => simp
    | cons t l ih => rw [foldl_cons, ih, hc.op, map_cons, sum_cons, add_assoc]
  have hsum : ∑ t, s.share weight value t = ∑ t ∈ s.agents.toFinset, weight (s.element t) := by
    refine (Finset.sum_subset_zero_on_sdiff (Finset.subset_univ _) (fun t ht => ?_) fun t _ => ?_).symm
    · have hnot : t ∉ s.agents := by simpa using ht
      rw [share, h.unlisted t hnot, hq.2 t, Pc.pending, add_zero]
    · rw [share, hq.2 t, Pc.pending, add_zero]
  have hheld : s.walk.held = 0 := by rw [hq.1]; rfl
  rw [State.combineAgents, hfold, stock, hsum, sum_toFinset _ h.nodup, hheld, zero_add]

variable [DecidableEq ε]

theorem Inv.run (spurious : Bool) : (s.run c t spurious).Inv weight value := by
  have hok := h.pc_ok t
  unfold State.run
  split
  next x hpc =>
    rw [hpc] at hok
    have hx : (s.pc t).pending value = value x := by rw [hpc]; rfl
    unfold State.load
    split
    next => exact h.compute hc hok hx _
    next =>
      split
      next e he => exact h.added hok (by rw [hx]; exact hc.next he)
      next => exact h
  next x n e hpc =>
    rw [hpc] at hok
    have hx : (s.pc t).pending value = value x := by rw [hpc]; rfl
    unfold State.compareExchangeWeak
    split
    next hn => exact h.added hok.1 (by rw [hx, hn.1]; exact hok.2)
    next => exact h.compute hc hok.1 hx _
  next x hpc _ => exact h.append hpc
  next x hpc _ =>
    rw [hpc] at hok
    refine (h.commit hc).goto ⟨hok, ?_⟩ ?_
    · rw [hc.elementIdentity, zero_add, hc.first]
    · show value x = (s.pc t).pending value
      rw [hpc]
      rfl
  next => exact h

theorem Inv.step (i : Input σ τ) : (s.step c i).Inv weight value := by
  unfold State.step
  split
  next t x =>
    split
    next hidle => exact h.add hc hidle x
    next => exact h
  next t spurious => exact h.run hc spurious
  next t =>
    split
    next hidle hwalk =>
      split
      next => exact h.commitAndErase hc hidle
      next => exact h
    next => exact h
  next =>
    split
    next hwalk => exact h.transfer (by simp [hwalk, Walk.held])
    next => exact h
  next =>
    split
    next hwalk => exact h.transfer (by simp [hwalk, Walk.held, hc.resultIdentity])
    next => exact h
  next => exact h.walkOne hc

omit h in
/-- **Nothing is lost and nothing counted twice**: when nothing runs, the resets returned
and `combine_agents` together are the samples. -/
theorem combined_eq_samples (is : List (Input σ τ)) (hq : (Lib.run (State.step c) (State.init c) is).Quiet) :
    (Lib.run (State.step c) (State.init c) is).resets.sum + (Lib.run (State.step c) (State.init c) is).combineAgents c
      = ((Lib.run (State.step c) (State.init c) is).samples.map value).sum := by
  have h := Lib.run_invariant' (I := fun s : State α ε σ τ => s.Inv weight value)
    (fun _ i h => h.step hc i) is (Inv.init hc)
  rw [h.combineAgents hc hq, h.balance]

end State

end Brpc.Bvar
