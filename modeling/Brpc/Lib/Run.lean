/-
# Runs of a step function

A system is a function `step : σ → ι → σ`; a run feeds it a list of inputs.  `Along P s is` says
that every step of the run from `s` meets `P`.  `run_invariant` is the induction of the safety
proofs, `run_lowers` that of calls that end.  A schedule is an infinite list of inputs, fair if
every thread gets its turn again and again: `fair_termination`.
-/

import Mathlib.Data.List.Basic
import Mathlib.Order.WellFounded

namespace Lib

open List

variable {σ ι : Type*}

/-- The state after the inputs `is`. -/
def run (step : σ → ι → σ) (s : σ) (is : List ι) : σ := is.foldl step s

section

variable (step : σ → ι → σ)

@[simp] theorem run_nil (s : σ) : run step s [] = s := rfl

@[simp] theorem run_cons (s : σ) (i : ι) (is : List ι) : run step s (i :: is) = run step (step s i) is := rfl

theorem run_append (s : σ) (is js : List ι) : run step s (is ++ js) = run step (run step s is) js := foldl_append

end

/-- Every step of the run meets `P` at the state it is taken in. -/
def Along (step : σ → ι → σ) (P : σ → ι → Prop) : σ → List ι → Prop
  | _, [] => True
  | s, i :: is => P s i ∧ Along step P (step s i) is

instance (step : σ → ι → σ) (P : σ → ι → Prop) [∀ s i, Decidable (P s i)] :
    (s : σ) → (is : List ι) → Decidable (Along step P s is)
  | _, [] => .isTrue trivial
  | s, i :: is =>
    have := instDecidableAlong step P (step s i) is
    inferInstanceAs (Decidable (_ ∧ _))

variable {P : σ → ι → Prop} {step : σ → ι → σ}

theorem along_append {s : σ} {is js : List ι} :
    Along step P s (is ++ js) ↔ Along step P s is ∧ Along step P (run step s is) js := by
  induction is generalizing s with
  | nil => exact ⟨fun h => ⟨trivial, h⟩, fun h => h.2⟩
  | cons i is ih =>
    rw [cons_append, Along, ih, Along, and_assoc]
    rfl

/-- A condition on the inputs alone holds along every run of such inputs. -/
theorem along_and_mem {Q : ι → Prop} {s : σ} {is : List ι} (h : Along step P s is)
    (hQ : ∀ i ∈ is, Q i) : Along step (fun s i => P s i ∧ Q i) s is := by
  induction is generalizing s with
  | nil => trivial
  | cons i is ih =>
    exact ⟨⟨h.1, hQ i mem_cons_self⟩, ih h.2 fun j hj => hQ j (mem_cons_of_mem _ hj)⟩

/-- The number of steps of the run that are taken where `p` holds. -/
def countAlong (step : σ → ι → σ) (p : σ → ι → Bool) : σ → List ι → ℕ
  | _, [] => 0
  | s, i :: is => (if p s i then 1 else 0) + countAlong step p (step s i) is

variable {I : σ → Prop}

/-- **Invariant rule.**  What a step meeting `P` preserves, a run whose steps
meet `P` preserves. -/
theorem run_invariant (hstep : ∀ s i, I s → P s i → I (step s i)) :
    ∀ (is : List ι) (s : σ), I s → Along step P s is → I (run step s is)
  | [], _, h, _ => h
  | i :: is, s, h, ha => run_invariant hstep is (step s i) (hstep s i h ha.1) ha.2

/-- The invariant rule when every step preserves the invariant. -/
theorem run_invariant' (hstep : ∀ s i, I s → I (step s i)) (is : List ι) {s : σ} (h : I s) : I (run step s is) := by
  induction is generalizing s with
  | nil => exact h
  | cons i is ih => exact ih (hstep s i h)

variable {Q : σ → Prop}

/-- **Exactness rule.**  If a step keeps `Q` exactly when it meets `P`, a run
keeps `Q` exactly when all its steps meet `P`. -/
theorem run_iff_along (hI : ∀ s i, I s → I (step s i)) (hQ : ∀ s i, I s → (Q (step s i) ↔ Q s ∧ P s i)) :
    ∀ (is : List ι) (s : σ), I s → (Q (run step s is) ↔ Q s ∧ Along step P s is)
  | [], _, _ => by simp [Along]
  | i :: is, s, h => by
      rw [run_cons, run_iff_along hI hQ is _ (hI s i h), hQ s i h, Along, and_assoc]

/-- **Exactness under an invariant.**  If steps that meet `P` keep an invariant that implies `Q`,
and only they lead to `Q` from it, all states have `Q` exactly when all steps meet `P`. -/
theorem along_iff_prefixes_of_invariant (hI : ∀ s, I s → Q s) (hstep : ∀ s i, I s → P s i → I (step s i))
    (hP : ∀ s i, I s → Q (step s i) → P s i) :
    ∀ (is : List ι) (s : σ), I s → ((∀ js, js <+: is → Q (run step s js)) ↔ Along step P s is)
  | [], s, h => by simp [Along, hI s h]
  | i :: is, s, h => by
      constructor
      · intro hall
        have hi : P s i := hP s i h (hall [i] ⟨is, rfl⟩)
        refine ⟨hi, (along_iff_prefixes_of_invariant hI hstep hP is _ (hstep s i h hi)).1 ?_⟩
        exact fun js hjs => hall (i :: js) (cons_prefix_cons.2 ⟨rfl, hjs⟩)
      · rintro ⟨hi, ha⟩ js hjs
        cases js with
        | nil => exact hI s h
        | cons j js =>
          obtain ⟨rfl, htail⟩ := cons_prefix_cons.1 hjs
          exact (along_iff_prefixes_of_invariant hI hstep hP is _ (hstep s j h hi)).2 ha js htail

/-- **Exactness at every state reached.**  If a step from a state with `Q` leads to one with `Q`
exactly when it meets `P`, all states have `Q` exactly when all steps meet `P`. -/
theorem along_iff_prefixes (hQ : ∀ s i, Q s → (Q (step s i) ↔ P s i)) (is : List ι) (s : σ)
    (h : Q s) : (∀ js, js <+: is → Q (run step s js)) ↔ Along step P s is :=
  along_iff_prefixes_of_invariant (fun _ h => h) (fun s i h => (hQ s i h).2) (fun s i h => (hQ s i h).1) is s h

/-- **Ranking rule.**  If `f` never decreases along a run and increases at the
steps where `p` holds, it has grown by at least their number. -/
theorem countAlong_le {p : σ → ι → Bool} {f : σ → ℕ} (hI : ∀ s i, I s → I (step s i))
    (hf : ∀ s i, I s → f s + (if p s i then 1 else 0) ≤ f (step s i)) :
    ∀ (is : List ι) (s : σ), I s → f s + countAlong step p s is ≤ f (run step s is)
  | [], _, _ => by simp [countAlong]
  | i :: is, s, h => by
      have h₁ := hf s i h
      have h₂ := countAlong_le hI hf is (step s i) (hI s i h)
      simp only [countAlong, run_cons]
      omega

theorem along_true (step : σ → ι → σ) : ∀ (is : List ι) (s : σ), Along step (fun _ _ => True) s is
  | [], _ => trivial
  | _ :: is, s => ⟨trivial, along_true step is (step s _)⟩

/-- **Termination rule.**  If `f` shrinks at the steps where `p` holds, and grows by at most `k`
at the inputs `q`, there are at most as many of the former as `f` had and was given. -/
theorem countAlong_add_le {step : σ → ι → σ} {P : σ → ι → Prop} {p : σ → ι → Bool} {I : σ → Prop}
    {f : σ → ℕ} {q : ι → Bool} {k : ℕ} (hI : ∀ s i, I s → P s i → I (step s i))
    (hf : ∀ s i, I s → P s i → f (step s i) + (if p s i then 1 else 0) ≤ f s + if q i then k else 0) :
    ∀ (is : List ι) (s : σ), I s → Along step P s is →
      f (run step s is) + countAlong step p s is ≤ f s + is.countP q * k
  | [], _, _, _ => by simp [countAlong]
  | i :: is, s, h, ha => by
      have h₁ := hf s i h ha.1
      have h₂ := countAlong_add_le hI hf is (step s i) (hI s i h ha.1) ha.2
      rw [countP_cons, Nat.add_mul]
      simp only [countAlong, run_cons]
      split at h₁ <;> split at h₁ <;> simp_all <;> omega

/-- **Ending rule.**  If the inputs `p` lower `f` until it is 0 and the others of a run do not raise
it, it ends that much lower. -/
theorem run_lowers {p : ι → Bool} {f : σ → ℕ} {Q : ι → Prop}
    (hf : ∀ s i, Q i → f (step s i) ≤ f s - if p i then 1 else 0) :
    ∀ (is : List ι) (s : σ), (∀ i ∈ is, Q i) → f (run step s is) ≤ f s - is.countP p
  | [], _, _ => by simp
  | i :: is, s, h => by
      have h₁ := hf s i (h i mem_cons_self)
      have h₂ := run_lowers hf is (step s i) fun j hj => h j (mem_cons_of_mem _ hj)
      rw [countP_cons, run_cons]
      omega

/-! ## What comes before what in a trace -/

variable {α : Type*} {G : α → List α → Prop}

/-- Every event meets `G` with the events before it, of which `pre` are given. -/
def GuardedFrom (G : α → List α → Prop) (pre : List α) : List α → Prop
  | [] => True
  | e :: es => G e pre ∧ GuardedFrom G (pre ++ [e]) es

/-- Every event meets `G` with the events before it. -/
def Guarded (G : α → List α → Prop) (log : List α) : Prop := GuardedFrom G [] log

theorem guardedFrom_append (pre es es' : List α) :
    GuardedFrom G pre (es ++ es') ↔ GuardedFrom G pre es ∧ GuardedFrom G (pre ++ es) es' := by
  induction es generalizing pre with
  | nil => simp [GuardedFrom]
  | cons e es ih => simp [GuardedFrom, ih, and_assoc]

/-- **Appending to a trace.** -/
theorem guarded_append (log es : List α) : Guarded G (log ++ es) ↔ Guarded G log ∧ GuardedFrom G log es := by
  rw [Guarded, guardedFrom_append, nil_append, Guarded]

/-- If the guards of the new events hold of any longer past, it is enough to check
them where the trace stood. -/
theorem Guarded.append {log es : List α} (h : Guarded G log)
    (hmono : ∀ e ∈ es, ∀ pre, log <+: pre → G e pre) : Guarded G (log ++ es) := by
  rw [guarded_append]
  refine ⟨h, ?_⟩
  have hfrom : ∀ (pre : List α), log <+: pre → GuardedFrom G pre es := by
    induction es with
    | nil => exact fun _ _ => trivial
    | cons e es ih =>
      intro pre hpre
      refine ⟨hmono e mem_cons_self pre hpre, ih (fun e' he' => hmono e' ?_) _ ?_⟩
      · exact mem_cons_of_mem _ he'
      · exact hpre.trans (prefix_append _ _)
  exact hfrom log prefix_rfl

/-! ## Fair schedules -/

variable {σ ι κ : Type*}

/-- The state after the first `n` inputs of the schedule `f`. -/
def trace (step : σ → ι → σ) (s : σ) (f : ℕ → ι) : ℕ → σ
  | 0 => s
  | n + 1 => step (trace step s f n) (f n)

/-- Every thread gets its turn again and again. -/
def Fair (thread : ι → Option κ) (f : ℕ → ι) : Prop := ∀ k n, ∃ m, n ≤ m ∧ thread (f m) = some k

/-- **Termination under a fair schedule.**  `I s m`: the state `s` has the rank `m`.  A step
leaves the state as it is or lowers the rank, and that of some thread lowers it. -/
theorem fair_termination {step : σ → ι → σ} {thread : ι → Option κ} {P : σ → ι → Prop}
    {μ : Type*} [LT μ] [WellFoundedLT μ] {I : σ → μ → Prop} {Done : σ → Prop}
    (hstep : ∀ s m i, I s m → P s i → step s i = s ∨ ∃ m' < m, I (step s i) m')
    (hlive : ∀ s m, I s m → ¬Done s → ∃ k, ∀ i, thread i = some k → P s i → ∃ m' < m, I (step s i) m')
    {s : σ} {f : ℕ → ι} (hfair : Fair thread f) (hP : ∀ n, P (trace step s f n) (f n)) :
    ∀ (m : μ) (n : ℕ), I (trace step s f n) m → ∃ n', Done (trace step s f n') := by
  intro m
  induction m using WellFoundedLT.induction with
  | ind m ih =>
    intro n hn
    by_cases hdone : Done (trace step s f n)
    · exact ⟨n, hdone⟩
    · obtain ⟨k, hk⟩ := hlive _ m hn hdone
      obtain ⟨j, hj, hthread⟩ := hfair k n
      -- Until the turn of `k` the state stays as it is, or the rank has gone down.
      have hwait : ∀ d, n + d ≤ j → trace step s f (n + d) = trace step s f n ∨ ∃ n', Done (trace step s f n') := by
        intro d hd
        induction d with
        | zero => exact .inl rfl
        | succ d ihd =>
          rcases ihd (by omega) with heq | hdone
          · rcases hstep _ m (f (n + d)) (heq ▸ hn) (hP (n + d)) with hsame | ⟨m', hm', hI⟩
            · exact .inl (hsame.trans heq)
            · exact .inr (ih m' hm' (n + d + 1) hI)
          · exact .inr hdone
      obtain ⟨d, rfl⟩ := Nat.exists_eq_add_of_le hj
      rcases hwait d (Nat.le_refl _) with heq | hdone
      · obtain ⟨m', hm', hI⟩ := hk (f (n + d)) hthread (heq ▸ hP (n + d))
        exact ih m' hm' (n + d + 1) (by rw [trace, heq]; exact hI)
      · exact hdone

end Lib
