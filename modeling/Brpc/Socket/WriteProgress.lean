/-
# The write queue comes to its end

The rank of a state counts the stores to come, the bytes to write and requests to return, the newer
requests, and the steps of the owner.  Every step lowers it, but for an owner that waits for a
request to be linked and a write that puts no byte on the connection (`Stalls`).
-/

import Mathlib.Algebra.Order.BigOperators.Group.List
import Mathlib.Data.Prod.Lex
import Brpc.Socket.WriteStep

namespace Brpc.Socket

open Lib List Function
open State (left cut)

variable {call : Id → Call} {s s' : State} {t u req r : Id} {a : Answer} {ph ph' : Phase} {v : View}
  {x : Pc} {live : List Id}

/-! ## The rank -/

/-- The stores to `_write_head` and `next` a call has still to make. -/
def Pc.weight : Pc → ℕ
  | .entered => 2
  | .link _ => 1
  | _ => 0

/-- The stores all calls `live` have still to make. -/
def unlinked (live : List Id) (s : State) : ℕ := (live.map fun r => (s.pc r).weight).sum

/-- The bytes to write and the requests to return. -/
def unwritten (live : List Id) (s : State) : ℕ :=
  (live.map fun r => (s.data r).length).sum + (live.length - s.finished.length)

/-- The rank of a state, given the number of newer requests and the rank of the phase. -/
def rank (live : List Id) (s : State) (newer n : ℕ) : ℕ ×ₗ ℕ ×ₗ ℕ ×ₗ ℕ :=
  toLex (unlinked live s, toLex (unwritten live s, toLex (newer, n)))

theorem rank_lt {k k' n n' : ℕ} (hu : unlinked live s' ≤ unlinked live s)
    (hw : unlinked live s' = unlinked live s → unwritten live s' ≤ unwritten live s ∧
      (unwritten live s' = unwritten live s → k' ≤ k ∧ (k' = k → n' < n))) :
    rank live s' k' n' < rank live s k n := by
  rw [rank, rank, Prod.Lex.toLex_lt_toLex']
  refine ⟨hu, fun heq => ?_⟩
  rw [Prod.Lex.toLex_lt_toLex', Prod.Lex.toLex_lt_toLex']
  exact hw heq

/-- `live` lists the calls of `Write` under way and those that are through. -/
structure Lists (live : List Id) (s : State) : Prop where
  nodup : live.Nodup
  covers : ∀ r, s.pc r ≠ .idle → r ∈ live

def Ranked (call : Id → Call) (live : List Id) (s : State) (m : ℕ ×ₗ ℕ ×ₗ ℕ ×ₗ ℕ) : Prop :=
  Account call s ∧ Lists live s ∧
    ((∃ t req ph v, Held call s t req ph v ∧ m = rank live s v.newer.length (ph.rank v)) ∨
      Rest call s ∧ m = rank live s 0 0)

/-- A write that puts no byte on the connection and does not fail. -/
def Stalls (call : Id → Call) (s : State) (t : Id) (a : Answer) : Prop :=
  (∃ req ph, s.pc t = .own req ph ∧ ph.Puts) ∧ (s.thread call t a).out = s.out ∧ a.result ≠ .fatal

/-- Every call is through. -/
def Settled (s : State) : Prop := ∀ t, s.pc t = .idle ∨ s.pc t = .done

/-! ## What lowers the rank -/

theorem Lists.moved (h : Lists live s) (hidle : ∀ r, s'.pc r ≠ .idle → s.pc r ≠ .idle) : Lists live s' :=
  ⟨h.nodup, fun r hr => h.covers r (hidle r hr)⟩

theorem unlinked_lt (h : Lists live s) (hpc : s'.pc = update s.pc u x)
    (hu : x.weight < (s.pc u).weight) : unlinked live s' < unlinked live s := by
  have hmem : u ∈ live := h.covers u fun hidle => by
    rw [hidle] at hu
    exact absurd hu (Nat.not_lt_zero _)
  refine sum_lt_sum _ _ (fun r _ => ?_) ⟨u, hmem, by rw [hpc, update_self]; exact hu⟩
  by_cases hr : r = u
  · rw [hr, hpc, update_self]
    exact hu.le
  · rw [hpc, update_of_ne hr]

theorem unlinked_eq (hpc : ∀ r, r ≠ t → s'.pc r = s.pc r) (ht : (s.pc t).weight = 0)
    (ht' : (s'.pc t).weight = 0) : unlinked live s' = unlinked live s := by
  refine congrArg List.sum (map_congr_left fun r _ => ?_)
  by_cases hr : r = t
  · rw [hr, ht, ht']
  · rw [hpc r hr]

section

variable (hdata : ∀ r, (s'.data r).length ≤ (s.data r).length)
include hdata

theorem sum_data_le : (live.map fun r => (s'.data r).length).sum ≤ (live.map fun r => (s.data r).length).sum :=
  sum_le_sum fun r _ => hdata r

theorem unwritten_le (hfin : s.finished.length ≤ s'.finished.length) : unwritten live s' ≤ unwritten live s := by
  have := @sum_data_le s s' live hdata
  rw [unwritten, unwritten]
  omega

omit hdata in
theorem Lists.length_finished (h : Lists live s) (hacc : Account call s) {past : List Id}
    (honce : Once s past) (hpast : ∀ r ∈ past, r ∈ s.order) : s.finished.length ≤ live.length := by
  have hsub : s.finished.map Prod.fst ⊆ live := by
    intro r hr
    obtain ⟨⟨q, ok⟩, hq, rfl⟩ := mem_map.1 hr
    have hmem := hpast q ((honce.through q).2 ⟨ok, .inl hq⟩)
    exact h.covers q ((hacc.exchanged q).1 hmem).1
  have := (subperm_of_subset honce.nodup hsub).length_le
  rwa [length_map] at this

theorem unwritten_lt_of_finished
    (hfin : s'.finished.length = s.finished.length + 1) (hlive : s'.finished.length ≤ live.length) :
    unwritten live s' < unwritten live s := by
  have := @sum_data_le s s' live hdata
  rw [unwritten, unwritten]
  omega

end

theorem unwritten_lt_of_put (h : Lists live s) {ids : List Id} {n : ℕ} (hids : ids.Nodup)
    (hmem : ∀ r ∈ ids, s.pc r ≠ .idle) (hdata : s'.data = cut s.data n ids)
    (hfin : s'.finished = s.finished) (hput : (left s.data ids).take n ≠ []) :
    unwritten live s' < unwritten live s := by
  have hle : ∀ r, (cut s.data n ids r).length ≤ (s.data r).length := fun r =>
    (cut_suffix hids r).length_le
  -- If no request had become shorter, no byte would have been cut off.
  have hlt : ∃ r ∈ live, (cut s.data n ids r).length < (s.data r).length := by
    by_contra hall
    refine hput (eq_nil_of_length_eq_zero ?_)
    have hsame : ∀ r ∈ ids, cut s.data n ids r = s.data r := fun r hr =>
      (cut_suffix hids r).eq_of_length_le (not_lt.1 fun hlt =>
        hall ⟨r, h.covers r (hmem r hr), hlt⟩)
    have hcut := congrArg List.length (@left_cut s.data ids n hids)
    rw [left_congr hsame, length_drop] at hcut
    rw [length_take]
    omega
  have := sum_lt_sum (fun r => (cut s.data n ids r).length) (fun r => (s.data r).length)
    (fun r (_ : r ∈ live) => hle r) hlt
  rw [unwritten, unwritten, hdata, hfin]
  omega

/-! ## The steps of the threads -/

section

variable {data : Id → Messenger.Bytes} {out : Messenger.Bytes} {finished : List (Id × Bool)}
  {flag : Bool} (he : Effect s s' t data out finished flag) (h : Owned s t req ph v)
include he h

theorem Effect.lists (hl : Lists live s) : Lists live s' := by
  refine hl.moved fun r hr => ?_
  by_cases hrt : r = t
  · rw [hrt, h.owner]
    nofun
  · rwa [he.pc r hrt] at hr

theorem Effect.unlinked_eq (ht' : (s'.pc t).weight = 0) : unlinked live s' = unlinked live s :=
  Socket.unlinked_eq he.pc (by rw [h.owner]; rfl) ht'

theorem Effect.ranked (hl : Lists live s) (hacc : Account call s') {req' : Id} {v' : View}
    (h' : Held call s' t req' ph' v') (hlow : unwritten live s' ≤ unwritten live s ∧
      (unwritten live s' = unwritten live s → v'.newer.length ≤ v.newer.length ∧
        (v'.newer.length = v.newer.length → ph'.rank v' < ph.rank v))) :
    ∃ m' < rank live s v.newer.length (ph.rank v), Ranked call live s' m' := by
  refine ⟨_, ?_, hacc, he.lists h hl, .inl ⟨t, req', ph', v', h', rfl⟩⟩
  exact rank_lt (he.unlinked_eq h (by rw [h'.toOwned.owner]; rfl)).le fun _ => hlow

end

theorem length_clear_le (s : State) (req r : Id) : (update s.data req [] r).length ≤ (s.data r).length := by
  by_cases hr : r = req
  · rw [hr, update_self]
    exact Nat.zero_le _
  · rw [update_of_ne hr]

/-- **A step of the owner lowers the rank,** unless it waits for another thread or the
write stalls. -/
theorem Held.ranked (h : Held call s t req ph v) (hacc : Account call s) (hl : Lists live s)
    (hout : Outcome call s t req a v ph s') (hstall : ph.Puts → s'.out = s.out → a.result = .fatal) :
    (s' = s ∧ ∃ p prev, s.pc p = .link prev) ∨
      ∃ m' < rank live s v.newer.length (ph.rank v), Ranked call live s' m' := by
  have hown := h.toOwned
  cases hout with
  | spin hp => exact .inl ⟨rfl, _, _, hp⟩
  | quiet he ho hkind hwrite hrank =>
    exact .inr (he.ranked hown hl (hacc.quiet hown he (fun _ _ => rfl) ho)
      (h.quiet he ho rfl rfl hkind hwrite)
      ⟨unwritten_le (by simp [he.data]) (by rw [he.finished]), fun _ => ⟨le_rfl, fun _ => hrank⟩⟩)
  | start hflag _ he ho hkind hrank =>
    exact .inr (he.ranked hown hl (hacc.quiet hown he (fun _ _ => rfl) ho)
      (h.start hflag he ho hkind)
      ⟨unwritten_le (by simp [he.data]) (by rw [he.finished]), fun _ => ⟨le_rfl, fun _ => hrank⟩⟩)
  | @put _ ph' _ ids _ hids hstop hshut hflag he ho hputs hkind' hwrite hfatal =>
    obtain ⟨hacc', h'⟩ := h.put hacc hids hstop hshut hflag he ho hputs.kind hkind' hwrite
    refine .inr (he.ranked hown hl hacc' h' ?_)
    have hnodup : ids.Nodup := by
      have hrest : v.rest.Nodup := hown.nodup hacc.toOrderly
      rw [View.rest_eq_mine] at hrest
      exact (nodup_append.1 hrest).1.sublist hids.sublist
    by_cases hput : (left s.data ids).take a.bytes = []
    · have hph : ph' = .fail := hfatal (hstall hputs (by rw [he.out, hput, append_nil]))
      refine ⟨unwritten_le (fun r => ?_) (by rw [he.finished]), fun _ => ⟨le_rfl, fun _ => ?_⟩⟩
      · rw [he.data]
        exact (cut_suffix hnodup r).length_le
      · rw [hph]
        exact hputs.rank v
    · have hlt := unwritten_lt_of_put hl hnodup (fun r hr =>
        ((hacc.exchanged r).1 (hown.mine_mem_order (hids.subset hr))).1) he.data he.finished hput
      exact ⟨hlt.le, fun heq => absurd heq hlt.ne⟩
  | @succeed _ _ _ q f hfront hdata he ho hkind hkind' hwrite =>
    obtain ⟨hacc', h'⟩ := h.succeed hacc hfront hdata he ho hkind hkind' hwrite
    have hlt : unwritten live s' < unwritten live s :=
      unwritten_lt_of_finished (by simp [he.data]) (by simp [he.finished])
        ((he.lists hown hl).length_finished hacc' h'.once h'.past_subset)
    exact .inr (he.ranked hown hl hacc' h' ⟨hlt.le, fun heq => absurd heq hlt.ne⟩)
  | drop hfront he ho =>
    obtain ⟨hacc', h'⟩ := h.drop hacc hfront he ho
    have hlt : unwritten live s' < unwritten live s :=
      unwritten_lt_of_finished (fun r => by rw [he.data]; exact length_clear_le s req r)
        (by simp [he.finished])
        ((he.lists hown hl).length_finished hacc' h'.once h'.past_subset)
    exact .inr (he.ranked hown hl hacc' h' ⟨hlt.le, fun heq => absurd heq hlt.ne⟩)
  | clear _ he ho =>
    obtain ⟨hacc', h'⟩ := h.clear hacc he ho
    exact .inr (he.ranked hown hl hacc' h'
      ⟨unwritten_le (fun r => by rw [he.data]; exact length_clear_le s req r) (by rw [he.finished]),
        fun _ => ⟨le_rfl, fun _ => Nat.lt_succ_self _⟩⟩)
  | merge hnewer he ho hkind hwrite =>
    refine .inr (he.ranked hown hl (hacc.quiet hown he (fun _ _ => rfl) ho)
      (h.quiet he ho rfl (View.rest_merge hnewer) (.inl hkind) hwrite)
      ⟨unwritten_le (by simp [he.data]) (by rw [he.finished]), fun _ => ?_⟩)
    have hlength := congrArg List.length hnewer
    rw [length_append, length_cons] at hlength
    dsimp only [View.merge]
    exact ⟨by omega, fun heq => by omega⟩
  | @complete c z _ hfront hnewer hdata he hpc ho =>
    obtain ⟨hacc', h'⟩ := h.complete hacc hfront hnewer hdata he hpc ho
    refine .inr ⟨_, ?_, hacc', he.lists hown hl, .inr ⟨h', rfl⟩⟩
    refine rank_lt (he.unlinked_eq hown (by rw [hpc]; rfl)).le fun _ =>
      ⟨unwritten_le (by simp [he.data]) (by rw [he.finished]), fun _ => ⟨Nat.zero_le _, fun _ => ?_⟩⟩
    cases c <;> exact Nat.succ_pos _

theorem Inv.ranked (h : Inv call s) (hl : Lists live s) : ∃ k n, Ranked call live s (rank live s k n) := by
  obtain ⟨hacc, ⟨t, req, ph, v, h⟩ | h⟩ := h
  · exact ⟨_, _, hacc, hl, .inl ⟨t, req, ph, v, h, rfl⟩⟩
  · exact ⟨0, 0, hacc, hl, .inr ⟨h, rfl⟩⟩

variable {m : ℕ ×ₗ ℕ ×ₗ ℕ ×ₗ ℕ}

section

variable (h : Ranked call live s m)
include h

theorem Ranked.inv : Inv call s := by
  obtain ⟨hacc, -, ⟨t, req, ph, v, h, -⟩ | ⟨h, -⟩⟩ := h
  · exact ⟨hacc, .inl ⟨t, req, ph, v, h⟩⟩
  · exact ⟨hacc, .inr h⟩

theorem Ranked.eq_rank : ∃ k n, m = rank live s k n := by
  obtain ⟨-, -, ⟨t, req, ph, v, -, hm⟩ | ⟨-, hm⟩⟩ := h
  · exact ⟨_, _, hm⟩
  · exact ⟨_, _, hm⟩

theorem Ranked.store (hinv : Inv call s') (hpc : s'.pc = update s.pc u x) (hu : x.weight < (s.pc u).weight) :
    ∃ m' < m, Ranked call live s' m' := by
  have hl : Lists live s' := by
    refine h.2.1.moved fun r hr hidle => ?_
    by_cases hru : r = u
    · rw [← hru, hidle] at hu
      exact absurd hu (Nat.not_lt_zero _)
    · rw [hpc, update_of_ne hru] at hr
      exact hr hidle
  obtain ⟨k, n, rfl⟩ := h.eq_rank
  obtain ⟨k', n', hranked⟩ := hinv.ranked hl
  have hlt := unlinked_lt h.2.1 hpc hu
  exact ⟨_, rank_lt hlt.le fun heq => absurd heq hlt.ne, hranked⟩

theorem Ranked.leave {ok : Bool}
    (hu : s.pc u = .leave r ok) : ∃ m' < m, Ranked call live ((s.finish r ok).goto u .done) m' := by
  have hinv := h.inv.leave hu
  have hpc : ∀ w, w ≠ u → ((s.finish r ok).goto u .done).pc w = s.pc w := fun w hw =>
    update_of_ne hw _ _
  have hdone : ((s.finish r ok).goto u .done).pc u = .done := update_self ..
  have hl : Lists live ((s.finish r ok).goto u .done) := by
    refine h.2.1.moved fun w hw => ?_
    by_cases hwu : w = u
    · rw [hwu, hu]
      nofun
    · rwa [hpc w hwu] at hw
  obtain ⟨k, n, rfl⟩ := h.eq_rank
  obtain ⟨k', n', hranked⟩ := hinv.ranked hl
  have hlength : ((s.finish r ok).goto u .done).finished.length ≤ live.length := by
    obtain ⟨hacc, ⟨t, req, ph, v, h'⟩ | h'⟩ := hinv
    · exact hl.length_finished hacc h'.once h'.past_subset
    · exact hl.length_finished hacc h'.once fun _ hr => hr
  have hlt : unwritten live ((s.finish r ok).goto u .done) < unwritten live s :=
    unwritten_lt_of_finished (fun _ => le_rfl) length_append hlength
  refine ⟨_, rank_lt (unlinked_eq hpc (by rw [hu]; rfl) (by rw [hdone]; rfl)).le fun _ => ?_, hranked⟩
  exact ⟨hlt.le, fun heq => absurd heq hlt.ne⟩

/-- **A step of a thread lowers the rank,** unless the thread is through, waits for
another one or its write stalls. -/
theorem Ranked.thread (hfit : StepFits call s (.run t a)) (hstall : ¬Stalls call s t a) :
    (s.thread call t a = s ∧ ((s.pc t = .idle ∨ s.pc t = .done) ∨ ∃ p prev, s.pc p = .link prev)) ∨
      ∃ m' < m, Ranked call live (s.thread call t a) m' := by
  have hinv := h.inv
  have hstall' : ∀ req ph, s.pc t = .own req ph → ph.Puts → (s.thread call t a).out = s.out → a.result = .fatal := by
    intro req ph hpc hputs hout
    by_contra hfatal
    exact hstall ⟨⟨req, ph, hpc, hputs⟩, hout, hfatal⟩
  rw [State.thread] at hstall' ⊢
  cases hpc : s.pc t with
  | idle => exact .inl ⟨rfl, .inl (.inl rfl)⟩
  | done => exact .inl ⟨rfl, .inl (.inr rfl)⟩
  | broken => exact absurd hpc (hinv.1.sound t)
  | entered =>
    have hswap := hinv.exchange hpc (hfit hpc)
    refine .inr ?_
    rw [State.exchange] at hswap ⊢
    cases hhead : s.head with
    | none =>
      rw [hhead] at hswap
      exact h.store hswap rfl (by rw [hpc]; exact Nat.succ_pos _)
    | some =>
      rw [hhead] at hswap
      exact h.store hswap rfl (by rw [hpc]; exact Nat.lt_succ_self _)
  | link => exact .inr (h.store (hinv.link hpc) rfl (by rw [hpc]; exact Nat.succ_pos _))
  | leave => exact .inr (h.leave hpc)
  | own req ph =>
    obtain ⟨hacc, hl, ⟨t', req', ph', v, hheld, rfl⟩ | ⟨hrest, -⟩⟩ := h
    · obtain ⟨rfl, rfl, rfl⟩ := hheld.eq_of_own hpc
      rw [hpc] at hstall'
      exact (hheld.ranked hacc hl (hheld.toOwned.outcome hacc.toOrderly a)
        (hstall' req ph rfl)).imp_left fun hspin => ⟨hspin.1, .inr hspin.2⟩
    · exact absurd hpc (hrest.alone t req ph)

end

/-! ## Fair schedules -/

/-- The thread an input belongs to. -/
def Input.thread : Input → Option Id
  | .run t _ => some t
  | _ => none

/-- The input is a step of a thread that fits and in which no write stalls. -/
def Goes (call : Id → Call) (s : State) (i : Input) : Prop :=
  StepFits call s i ∧ ∃ t a, i = .run t a ∧ ¬Stalls call s t a

/-- **The calls under way come to their end,** if each thread gets its turn again and
again and no write stalls. -/
theorem Inv.settles (h : Inv call s) (hl : Lists live s) {f : ℕ → Input}
    (hfair : Fair Input.thread f) (hgoes : ∀ n, Goes call (trace (State.step call) s f n) (f n)) :
    ∃ n, Settled (trace (State.step call) s f n) := by
  obtain ⟨k, n, hranked⟩ := h.ranked hl
  refine fair_termination (I := Ranked call live) (P := Goes call) ?_ ?_ hfair hgoes _ 0 hranked
  · rintro s m i hm ⟨hfit, t, a, rfl, hstall⟩
    exact (hm.thread hfit hstall).imp_left And.left
  · intro s m hm hsettled
    -- A thread that has a request to hang goes on, or else one that is not through.
    have hthread : ∀ t, (s.pc t ≠ .idle ∧ s.pc t ≠ .done) →
        ((∃ p prev, s.pc p = .link prev) → ∃ prev, s.pc t = .link prev) →
        ∃ k, ∀ i, Input.thread i = some k → Goes call s i → ∃ m' < m, Ranked call live (s.step call i) m' := by
      intro t ht hlink
      refine ⟨t, ?_⟩
      rintro i hi ⟨hfit, t', a, rfl, hstall⟩
      obtain rfl : t' = t := Option.some.inj hi
      rcases hm.thread hfit hstall with ⟨-, (hpc | hpc) | hp⟩ | hlower
      · exact absurd hpc ht.1
      · exact absurd hpc ht.2
      · obtain ⟨prev, hpc⟩ := hlink hp
        exact hm.store (hm.inv.step _ hfit) (by rw [State.step, State.thread, hpc]; rfl)
          (x := .done) (by rw [hpc]; exact Nat.succ_pos _)
      · exact hlower
    by_cases hlink : ∃ p prev, s.pc p = .link prev
    · obtain ⟨p, prev, hp⟩ := hlink
      exact hthread p (by rw [hp]; exact ⟨by rintro ⟨⟩, by rintro ⟨⟩⟩) fun _ => ⟨prev, hp⟩
    · obtain ⟨t, ht⟩ := not_forall.1 hsettled
      exact hthread t (not_or.1 ht) fun hp => absurd hp hlink

end Brpc.Socket
