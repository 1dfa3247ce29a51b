/-
# The pthread of an execution queue

One executor pthread at most, and none that waits when the stop task has been executed, as long
as no producer reads `_pthread_started` while another is about to set it: `one_pthread`.
-/

import Brpc.Bthread.PthreadMode

namespace Brpc.PthreadMode.State

open Lib List Phase

variable {s : State}

variable {ph : Phase}

theorem Inv.only (h : Inv s) {k : ℕ} (hk : s.pthreads[k]? = some ph) :
    s.pthreads = [ph] ∧ ∀ new, replaceAt s.pthreads k new = new := by
  obtain ⟨pre, post, hph, hnew⟩ := exists_replaceAt hk
  have hone := h.one
  rw [hph, length_append, length_cons] at hone
  obtain rfl : pre = [] := eq_nil_of_length_eq_zero (by omega)
  obtain rfl : post = [] := eq_nil_of_length_eq_zero (by omega)
  exact ⟨hph, fun new => by rw [hnew]; simp⟩

/-- The pthread steps from `ph` to `ph'`, while `head`, `currentHead` and the mutex change
with it and the tasks stay. -/
theorem Inv.move (h : Inv s) (hph : s.pthreads = [ph]) (ph' : Phase) (head currentHead mutex ended : Bool)
    (howners : s.producers.countP Producer.owns + ([ph'].countP owns
      + if currentHead && !ph'.busy then 1 else 0) = if head then 1 else 0)
    (hidle : head = false → s.pending = []) (hmutex : mutex = ph'.locks)
    (hends : s.stopDone = true → ph'.ends ended = true) : Inv { s with
      head := head, currentHead := currentHead, mutex := mutex, ended := ended
      pthreads := [ph'] } := by
  refine ⟨Nat.le_refl _, ?_, fun _ => h.created (by rw [hph]; simp), fun p hp hf => ?_, ?_, hidle,
    h.inPlace, h.stopped, fun hd => ⟨(h.ending hd).1, ?_⟩⟩
  · show _ + (_ + if currentHead && !([ph'].any busy) then 1 else 0) = _
    rw [any_cons, any_nil, Bool.or_false]
    exact howners
  · have := h.fresh p hp hf
    rw [hph] at this
    cases this
  · show mutex = [ph'].any locks
    rw [any_cons, any_nil, Bool.or_false]
    exact hmutex
  · exact forall_mem_singleton.2 (hends hd)

theorem Inv.pthread (h : Inv s) {k : ℕ} (hk : s.pthreads[k]? = some ph) :
    Inv { (s.next ph).1 with pthreads := replaceAt s.pthreads k [(s.next ph).2] } := by
  obtain ⟨hph, hreplace⟩ := h.only hk
  rw [hreplace]
  have hmutex := h.mutex
  have howners := h.owners
  have hends : s.stopDone = true → ph.ends s.ended = true := fun hd =>
    (h.ending hd).2 ph (by rw [hph]; exact mem_singleton_self _)
  rw [handed, hph] at howners
  rw [hph] at hmutex
  cases ph with
  | start =>
    refine h.move hph .lock s.head true s.mutex s.ended ?_ h.idle hmutex fun hd => absurd (hends hd) (by rintro ⟨⟩)
    revert howners
    cases s.head <;> cases s.currentHead <;> simp [owns, busy]
  | lock =>
    rw [next]
    cases hm : s.mutex with
    | true => rw [hm] at hmutex; cases hmutex
    | false =>
      exact h.move hph .check s.head s.currentHead true s.ended howners h.idle rfl
        fun hd => absurd (hends hd) (by rintro ⟨⟩)
  | check =>
    rw [next]
    split_ifs with hc
    · refine h.move hph (.run false) s.head s.currentHead s.mutex s.ended ?_ h.idle hmutex
        fun hd => absurd (hends hd) (by rintro ⟨⟩)
      revert howners
      cases s.head <;> simp [hc, owns, busy]
    · exact h.move hph .waiting s.head s.currentHead false s.ended howners h.idle rfl
        fun hd => absurd (hends hd) (by rintro ⟨⟩)
  | waiting =>
    exact h.move hph .lock s.head s.currentHead s.mutex s.ended howners h.idle hmutex
      fun hd => absurd (hends hd) (by rintro ⟨⟩)
  | run destroy =>
    have hnone : s.producers.countP Producer.owns = 0 ∧ s.head = true := by
      revert howners
      cases s.head <;> cases s.currentHead <;> simp [owns, busy]
    have hsole : ∀ p ∈ s.producers, ¬p.owns = true := countP_eq_zero.1 hnone.1
    rw [next]
    split
    next task ts hpending =>
      have hmove := h.move hph (.run (destroy || task = .stop)) s.head s.currentHead s.mutex s.ended
        howners h.idle hmutex fun hd => by
          have : destroy = true := hends hd
          simp [this, ends]
      refine hmove.execute hpending (fun hin => hsole _ hin rfl) fun heq => ⟨fun p hp ho =>
        absurd ho (hsole p hp), forall_mem_singleton.2 (by simp [heq, ends])⟩
    next hpending =>
      refine h.move hph (.finish destroy) false s.currentHead s.mutex s.ended ?_ (fun _ => hpending) hmutex hends
      rw [hnone.1]
      simp [owns, busy]
  | finish destroy =>
    refine h.move hph .clear s.head s.currentHead s.mutex (s.ended || destroy) howners h.idle hmutex fun hd => ?_
    have : destroy = true := hends hd
    simp [this, ends]
  | clear =>
    refine h.move hph .test s.head false s.mutex s.ended ?_ h.idle hmutex hends
    revert howners
    cases s.head <;> cases s.currentHead <;> simp [owns, busy]
  | test =>
    rw [next]
    split_ifs with he
    · exact h.move hph .exited s.head s.currentHead false s.ended howners h.idle rfl fun _ => rfl
    · exact h.move hph .lock s.head s.currentHead false s.ended howners h.idle rfl fun hd => absurd (hends hd) he
  | exited =>
    exact h.move hph .exited s.head s.currentHead s.mutex s.ended howners h.idle hmutex fun _ => rfl

/-- **Every step that meets the condition keeps the invariant.** -/
theorem Inv.step (h : Inv s) (i : Input) (hcareful : s.careful i = true) : Inv (s.step i) := by
  have hdone : s.stopped = false → s.stopDone = false := by
    intro hs
    rw [Bool.eq_false_iff]
    intro hd
    rw [h.stopped (.inl hd)] at hs
    cases hs
  have hpending : s.stopped = false → .stop ∉ s.pending := by
    intro hs hmem
    rw [h.stopped (.inr hmem)] at hs
    cases hs
  cases i with
  | push =>
    rw [State.step]
    cases hs : s.stopped with
    | true => exact h
    | false =>
      refine h.push (hdone hs) (fun _ => rfl) fun hmem => ?_
      rcases mem_append.1 hmem with hmem | hmem
      · exact absurd hmem (hpending hs)
      · simp at hmem
  | stop =>
    rw [State.step]
    split
    · exact h
    next hs =>
      have hs' : s.stopped = false := by
        rw [Bool.eq_false_iff]
        exact fun hs' => hs (.inl hs')
      -- The stop task is pushed to a queue that is stopped.
      have hstop : Inv { s with stopped := true } := { h with stopped := fun _ => rfl }
      exact hstop.push (hdone hs') (fun hf => nomatch hf) fun _ => rfl
  | producer k ok w =>
    rw [State.step]
    cases hk : s.producers[k]? with
    | none => exact h
    | some =>
      refine h.producer hk ok w fun hp hmem => ?_
      rw [careful, hk, hp] at hcareful
      simp [hmem] at hcareful
  | pthread k =>
    rw [State.step]
    cases hk : s.pthreads[k]? with
    | none => exact h
    | some => exact h.pthread hk

/-- **If no producer reads `_pthread_started` while another is about to set it, at most one
executor pthread is created, and none waits once the stop task has been executed.** -/
theorem one_pthread (is : List Input) (hcareful : Along step (fun s i => s.careful i = true) init is) :
    (run step init is).pthreads.length ≤ 1
      ∧ ((run step init is).stopDone = true → .waiting ∉ (run step init is).pthreads) := by
  have h := run_invariant (fun s i (hs : Inv s) hc => hs.step i hc) is init inv_init hcareful
  exact ⟨h.one, fun hd hmem => nomatch (h.ending hd).2 _ hmem⟩

/-- A task and the stop task, executed by the one pthread, which exits. -/
theorem pthread_exits :
    let s := run step init (.push false :: replicate 3 (.producer 0 true 0) ++ replicate 8 (.pthread 0) ++
      .stop :: replicate 2 (.producer 0 true 0) ++ replicate 7 (.pthread 0))
    s.pthreads = [.exited] ∧ s.pthreads.length ≤ 1 ∧ (s.stopDone = true → .waiting ∉ s.pthreads) :=
  ⟨by decide, one_pthread _ (by decide)⟩

/-- The pthread sets `_head` to NULL before its producer sets `_pthread_started`.  The next
producer creates a second pthread, and after the stop task one of the two waits for ever. -/
theorem second_pthread_left_waiting :
    let s := run step init ([.push false, .producer 0 true 0, .producer 0 true 0] ++ replicate 10 (.pthread 0) ++
      [.push false, .producer 0 true 0, .producer 0 true 0, .producer 1 true 0, .producer 0 true 0] ++
      replicate 10 (.pthread 0) ++ [.stop, .producer 0 true 0, .producer 0 true 0] ++ replicate 7 (.pthread 0))
    s.pthreads = [.exited, .waiting] ∧ s.stopDone = true ∧ s.producers = [] := by
  decide

end Brpc.PthreadMode.State
