/-
# The owner in `IsWriteComplete` and `ReleaseAllFailedWriteRequests`

The compare-exchange gives the right to write up, or finds newer requests, which are turned
around and linked behind the owner's list.  No step ends in `Pc.broken`: the owner never follows
NULL or UNCONNECTED, and the CHECKs of `IsWriteComplete` hold.
-/

import Brpc.Socket.WriteOutcome

namespace Brpc.Socket

open List Function

variable {call : Id → Call} {s : State} {t req : Id} {a : Answer} {ph : Phase} {v : View}

/-! ## `IsWriteComplete` -/

theorem Tied.next_last (h : Tied s.next s.pc v) : s.next v.last = .null :=
  h.mine.2 v.last (by rw [View.mine, getLast?_concat]; rfl)

variable {c : Caller}

theorem Owned.outcome_noMore (h : Owned s t req (.isComplete c v.last) v)
    (ho : Orderly call s) (hnewer : v.newer = []) : Outcome call s t req a v (.isComplete c v.last)
      (if s.data v.last = [] ∧ (c ≠ .keep ∨ req = v.last) then
        { s with head := none }.goto t (.leave req (c != Caller.fail))
      else s.goto t (.own req (State.resume v.last c))) := by
  obtain ⟨htied, -, hsingle⟩ := h.stands
  split
  · next hcomplete =>
    have hfront : v.front = [] := by
      rcases h.first_cases with ⟨hf, -⟩ | ⟨f, hf⟩
      · exact hf
      · rcases hcomplete.2 with hc | hreq
        · exact hsingle.resolve_left hc
        · have hnodup := h.nodup ho
          rw [hf, hreq, cons_append, nodup_cons] at hnodup
          exact absurd (mem_append_right _ mem_cons_self) hnodup.1
    have hreq := h.req_eq hfront
    refine .complete hfront hnewer hcomplete.1 (.goto rfl rfl rfl)
      ((update_self ..).trans (by rw [hreq])) ⟨fun u q f hu => ?_, rfl, fun u p hu => ?_⟩ <;>
      change update s.pc t _ u = _ at hu <;> by_cases hut : u = t
    · rw [hut, update_self] at hu
      cases hu
    · rw [update_of_ne hut] at hu
      exact hut (h.alone u q f hu)
    · rw [hut, update_self] at hu
      cases hu
    · rw [update_of_ne hut] at hu
      have hmem := (h.links u p hu).1
      rw [hnewer] at hmem
      cases hmem
  · next hmore =>
    cases c with
    | start => exact h.outcome_goto ⟨htied, nofun⟩ (.inl rfl) nofun nofun (Nat.lt_succ_self _)
    | keep =>
      exact h.outcome_goto ⟨htied, fun z hz => (Option.some.inj hz).symm⟩ (.inl rfl) nofun nofun (Nat.lt_succ_self _)
    | fail => exact absurd ⟨h.cleared v.last rfl, .inl nofun⟩ hmore

theorem Owned.outcome_isComplete {old : Id} (h : Owned s t req (.isComplete c old) v) (ho : Orderly call s) :
    Outcome call s t req a v (.isComplete c old) (s.isWriteComplete t req c old) := by
  obtain ⟨htied, rfl, -⟩ := h.stands
  have hnodup := h.nodup ho
  rw [State.isWriteComplete, if_neg (fun hne => hne htied.next_last)]
  rcases eq_nil_or_concat v.newer with hnewer | ⟨todo, newHead, hnewer⟩
  · have hhead : s.head = some v.last := by rw [h.head, hnewer, getLast?_singleton]
    rw [if_pos hhead]
    exact h.outcome_noMore ho hnewer
  · rw [concat_eq_append] at hnewer
    have hhead : s.head = some newHead := by
      rw [h.head, hnewer, ← cons_append, getLast?_concat]
    have hmem : newHead ∈ v.newer := by simp [hnewer]
    have hne : newHead ≠ v.last := ne_of_mem_of_not_mem hmem (nodup_cons.1 (nodup_append.1 hnodup).2.1).1
    rw [if_neg (by rw [hhead]; exact fun heq => hne (Option.some.inj heq)), hhead]
    have hturning : Turning s.next s.pc v newHead v.newer [] [] :=
      ⟨by simp, htied.mine, htied.newer, ⟨.nil, nofun⟩, isChain_singleton _,
        by rw [append_nil, hnewer, getLast?_concat]⟩
    refine h.outcome_goto ⟨rfl, v.newer, [], [], hturning, ?_, rfl⟩ (.inl rfl) nofun nofun ?_
    · rw [hnewer, getLast?_concat]
    · have := idxOf_lt_length_of_mem hmem
      cases c <;> simp only [Phase.rank] <;> omega

theorem Turning.turn {pc : Id → Pc} {next : Id → Next} {newHead p : Id}
    {todo turned later : List Id} (h : Turning next pc v newHead (todo ++ [p]) turned later)
    (hnodup : (v.front ++ v.last :: v.newer).Nodup) :
    Turning (update next p (.ofOption turned.head?)) pc v newHead todo (p :: turned) later := by
  have hnewer := h.newer
  rw [hnewer] at hnodup
  have hp : p ∉ v.front ∧ p ≠ v.last ∧ p ∉ todo ∧ p ∉ turned ∧ p ∉ later := by
    have := hnodup
    refine ⟨fun hf => ?_, ?_, fun hf => ?_, fun hf => ?_, fun hf => ?_⟩ <;> grind
  refine ⟨by rw [hnewer]; simp, h.mine.update ?_ _, ?_, h.linked.push hp.2.2.2.1, h.above.update
    hp.2.2.2.2 _, by rw [← h.newest]; simp⟩
  · rw [View.mine, mem_append, mem_singleton]
    exact fun hmem => hmem.elim hp.1 hp.2.1
  · obtain ⟨q, -, -, hrest⟩ := h.hung.last_hangs
    exact hrest.update hp.2.2.1 _

theorem Owned.outcome_reverse {old newHead p : Id} {rev : Option Id}
    (h : Owned s t req (.reverse c old newHead p rev) v) (ho : Orderly call s) :
    Outcome call s t req a v (.reverse c old newHead p rev) (s.reverseOne t req c old newHead p rev) := by
  obtain ⟨rfl, todo, turned, later, hturning, hp, rfl⟩ := h.stands
  have hnodup := h.nodup ho
  obtain ⟨todo, rfl⟩ : ∃ l, todo = l ++ [p] := getLast?_eq_some_iff.1 hp
  obtain ⟨q, hq, hangs, -⟩ := hturning.hung.last_hangs
  rw [State.reverseOne]
  rcases hangs with hnext | ⟨hnext, hlink⟩
  · have hpmem : p ∈ s.order := h.mem_order (by rw [hturning.newer]; simp)
    have hturned := hturning.turn hnodup
    have hlinks : ∀ u ∈ v.newer, s.next u = .unconnected → u ∈ v.newer ∧
        update s.next p (.ofOption turned.head?) u = .unconnected := by
      intro u hu hun
      refine ⟨hu, (update_of_ne ?_ _ _).trans hun⟩
      rintro rfl
      rw [hnext] at hun
      cases hun
    have hidx : v.newer.idxOf p = todo.length := by
      have hn := (nodup_cons.1 (nodup_append.1 hnodup).2.1).2
      have hsplit : v.newer = todo ++ p :: (turned ++ later) := by rw [hturning.newer]; simp
      rw [hsplit] at hn ⊢
      exact idxOf_middle hn
    have heffect : ∀ x, Effect s ((s.setNext p (.ofOption turned.head?)).goto t x) t s.data s.out
        s.finished s.isWriteShutdown := fun x =>
      ⟨fun _ hu => update_of_ne hu _ _, rfl,
        fun _ hr => update_of_ne (ne_of_mem_of_not_mem hpmem hr).symm _ _, rfl, rfl, rfl, rfl⟩
    simp only [hnext]
    rcases eq_nil_or_concat todo with rfl | ⟨l, q', rfl⟩
    -- Only `p` was left, so it hung under the owner's list.
    · obtain rfl : v.last = q := Option.some.inj hq
      rw [if_pos rfl]
      refine .quiet (heffect _) (h.turn rfl rfl rfl rfl rfl h.first
        ⟨rfl, p :: turned, later, hturned, rfl⟩ hlinks (by rintro _ ⟨⟩)) (.inl rfl) (by rintro ⟨⟩) ?_
      simp only [Phase.rank]
      omega
    · rw [concat_eq_append] at hq hidx hturned hturning
      rw [← cons_append, getLast?_concat] at hq
      obtain rfl : q' = q := Option.some.inj hq
      have hq' : q' ≠ v.last := by
        have hn := (nodup_cons.1 (nodup_append.1 hnodup).2.1).1
        refine ne_of_mem_of_not_mem ?_ hn
        rw [hturning.newer]
        simp
      have hidx' : v.newer.idxOf q' = l.length := by
        have hn := (nodup_cons.1 (nodup_append.1 hnodup).2.1).2
        have hsplit : v.newer = l ++ q' :: (p :: (turned ++ later)) := by
          rw [hturning.newer]
          simp
        rw [hsplit] at hn ⊢
        exact idxOf_middle hn
      rw [if_neg hq']
      refine .quiet (heffect _) (h.turn rfl rfl rfl rfl rfl h.first
        ⟨rfl, l ++ [q'], p :: turned, later, hturned, getLast?_concat, rfl⟩ hlinks (by rintro _ ⟨⟩))
        (.inl rfl) (by rintro ⟨⟩) ?_
      rw [length_append, length_singleton] at hidx
      simp only [Phase.rank]
      omega
  · simp only [hnext]
    exact .spin hlink

theorem Owned.outcome_linkOld {old newHead rev : Id}
    (h : Owned s t req (.linkOld c old newHead rev) v) (ho : Orderly call s) :
    Outcome call s t req a v (.linkOld c old newHead rev)
      ((s.setNext old (.ptr rev)).goto t (.own req (State.resume newHead c))) := by
  obtain ⟨rfl, turned, later, hturning, hrev⟩ := h.stands
  obtain ⟨batch, rfl⟩ : ∃ l, turned = l ++ [newHead] := getLast?_eq_some_iff.1 (by simpa using hturning.newest)
  have hnewer : v.newer = batch ++ newHead :: later := by rw [hturning.newer]; simp
  have hnodup := h.nodup ho
  have hlast : v.last ∉ v.newer := (nodup_cons.1 (nodup_append.1 hnodup).2.1).1
  have hmem : v.last ∈ s.order := h.mem_order (mem_append_right _ mem_cons_self)
  have htied : Tied (update s.next v.last (.ptr rev)) s.pc (v.merge batch later newHead) := by
    constructor
    · rw [View.mine, View.merge]
      simp only [append_assoc, cons_append]
      refine hturning.mine.join hturning.linked hrev ?_
      have hsplit : v.front ++ v.last :: v.newer = (v.front ++ v.last :: (batch ++ [newHead])) ++ later := by
        rw [hnewer]
        simp
      rw [hsplit] at hnodup
      exact (nodup_append.1 hnodup).1
    · exact hturning.above.update (fun hl => hlast (by rw [hnewer]; simp [hl])) _
  have hat : (State.resume newHead c).At (update s.next v.last (.ptr rev)) s.pc (v.merge batch later newHead) := by
    cases c with
    | start => exact ⟨htied, by rintro _ ⟨⟩⟩
    | keep => exact ⟨htied, fun z hz => (Option.some.inj hz).symm⟩
    | fail => exact htied
  refine .merge hnewer
    ⟨fun _ hu => update_of_ne hu _ _, rfl, fun _ hr => update_of_ne
      (ne_of_mem_of_not_mem hmem hr).symm _ _, rfl, rfl, rfl, rfl⟩
    (h.turn rfl rfl rfl ?_ ?_ ?_ hat (fun u hu hun => ⟨?_, ?_⟩) ?_) ?_ ?_
  · rw [View.all, View.all, View.merge, hnewer]
    simp
  · rw [View.merge, hnewer, ← cons_append, getLast?_append, Option.or_of_isSome]
    simp
  · have hfirst := h.first
    rw [View.mine, head?_append] at hfirst
    rw [View.mine, View.merge, head?_append, head?_append]
    cases hf : v.front.head? with
    | none | some => simpa [hf] using hfirst
  · rw [hnewer, append_cons, mem_append] at hu
    exact hu.resolve_left fun hin => hturning.linked.connected hin hun
  · exact (update_of_ne (ne_of_mem_of_not_mem hu hlast) _ _).trans hun
  · cases c <;> rintro _ ⟨⟩
  · cases c <;> rfl
  · cases c <;> rintro ⟨⟩

/-! ## `ReleaseAllFailedWriteRequests` -/

theorem Owned.outcome_fail (h : Owned s t req .fail v) : Outcome call s t req a v .fail (s.failOne t req) := by
  have htied : Tied s.next s.pc v := h.stands
  rw [State.failOne]
  cases hnext : s.next req with
  | unconnected => exact absurd hnext (htied.next_ne h)
  | null =>
    have hfront : v.front = [] := by
      rcases h.first_cases with ⟨hf, -⟩ | ⟨f, hf⟩
      · exact hf
      · have hmine := htied.mine
        obtain ⟨b, g, hg⟩ : ∃ b g, f ++ [v.last] = b :: g := exists_cons_of_ne_nil (by simp)
        rw [View.mine, hf, cons_append, hg, linked_cons_cons, hnext] at hmine
        cases hmine.1
    refine .clear hfront (.goto rfl rfl rfl)
      (h.move rfl rfl rfl rfl ⟨htied, h.req_eq hfront, .inr hfront⟩ fun z hz => ?_)
    cases hz
    exact update_self ..
  | ptr q =>
    obtain ⟨f, hf, ho⟩ : ∃ f, v.front = req :: f ∧
        Owned (((s.clear req).finish req false).goto t (.own q .fail)) t q .fail (v.advance req f) :=
      h.advance htied hnext rfl rfl rfl rfl (by rintro _ ⟨⟩) fun _ => id
    exact .drop hf (.goto rfl rfl rfl) ho

/-- **What a step of the owner does.** -/
theorem Owned.outcome (h : Owned s t req ph v) (ho : Orderly call s) (a : Answer) :
    Outcome call s t req a v ph (s.own call t req a ph) := by
  cases ph with
  | setNull => exact h.outcome_setNull ho
  | begin => exact h.outcome_begin
  | connecting => exact h.outcome_connecting
  | write => exact h.outcome_write
  | top => exact h.outcome_top
  | doWrite => exact h.outcome_doWrite
  | release => exact h.outcome_release
  | waitEpollOut => exact h.outcome_waitEpollOut
  | findTail => exact h.outcome_findTail ho
  | isComplete => exact h.outcome_isComplete ho
  | reverse => exact h.outcome_reverse ho
  | linkOld => exact h.outcome_linkOld ho
  | fail => exact h.outcome_fail

end Brpc.Socket
