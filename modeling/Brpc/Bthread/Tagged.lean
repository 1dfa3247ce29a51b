/-
# A bthread runs on workers of its tag

`Tagged` holds in every state of a run exactly when every step finds what `Fits` asks for
(`tagged_iff_fits`): a group of another tag can be the remembered `tls_task_group_nosignal`, or that
of the caller of `TaskGroup::interrupt`.  Behind it, waiters, sleepers and a thread in the middle of
a call know the tag of their bthread (`OpOk`).
-/

import Brpc.Bthread.TaskCalls

namespace Brpc.Tags

open Lib List Function Option

/-- A waiter has the tag its bthread was started with. -/
def Waiter.Ok (w : Waiter) : Prop := w.tag = w.bthread.tag

/-- The bthread was started with the tag of this worker. -/
def Local (tagOf : ℕ → ℕ) (t : Thread) (b : Bthread) : Prop := ∀ g, t.group = some g → b.tag = tagOf g

/-- What a thread in the middle of a call knows about the bthreads it handles. -/
def OpOk (tagOf : ℕ → ℕ) (t : Thread) : Op → Prop
  | .readyToRun b _ => Local tagOf t b
  | .waitForButex w _ => w.Ok ∧ Local tagOf t w.bthread
  | .addSleepEvent b => Local tagOf t b
  | .setCurrentSleep _ b => Local tagOf t b
  | .wake rest _ last _ => (∀ w ∈ rest, w.Ok) ∧ ∀ w ∈ last, w.Ok
  | .erased w => w.Ok
  | .timer b group => b.tag = tagOf group
  | .interrupted _ _ => True

structure Inv (tagOf : ℕ → ℕ) (s : State) : Prop where
  tagged : Tagged tagOf s
  table : ∀ tag, ∀ g ∈ s.taggedGroups tag, tagOf g = tag
  ops : ∀ t, ∀ op ∈ s.ops t, OpOk tagOf t op
  butexes : ∀ b, ∀ w ∈ s.butexes b, w.Ok
  sleepers : ∀ e ∈ s.sleepers, e.bthread.tag = tagOf e.group

variable {tagOf : ℕ → ℕ} {s : State}

theorem Inv.init : Inv tagOf State.init where
  tagged := fun _ => ⟨forall_mem_nil _, forall_mem_nil _, by rintro _ ⟨⟩⟩
  table := fun _ => forall_mem_nil _
  ops := by rintro _ _ ⟨⟩
  butexes := fun _ => forall_mem_nil _
  sleepers := forall_mem_nil _

/-! ## Primitives -/

variable {g : ℕ}

theorem Tagged.setGroup (h : Tagged tagOf s) {G : TaskGroup} (hG : GroupOk (tagOf g) G) :
    Tagged tagOf (s.setGroup g G) := by
  intro g'
  show GroupOk _ (update s.groups g G g')
  rcases eq_or_ne g' g with rfl | hne
  · rw [update_self]
    exact hG
  · rw [update_of_ne hne]
    exact h g'

variable {b : Bthread} {tag : ℕ}

theorem forall_mem_push {q : List Bthread} (h : ∀ c ∈ q, c.tag = tag)
    (hb : b.tag = tag) : ∀ c ∈ q ++ [b], c.tag = tag :=
  forall_mem_append.2 ⟨h, forall_mem_singleton.2 hb⟩

theorem tagged_readyToRun {how : Signal} : Tagged tagOf (s.readyToRun tagOf g b how) → b.tag = tagOf g := by
  intro h
  have hmem : b ∈ ((s.readyToRun tagOf g b how).groups g).rq := by
    cases how <;>
    · show b ∈ (update s.groups g _ g).rq
      rw [update_self]
      exact mem_append_right _ mem_cons_self
  exact (h g).rq b hmem

variable {nosignal : Bool}

theorem tagged_readyToRunRemote : Tagged tagOf (s.readyToRunRemote tagOf g b nosignal) → b.tag = tagOf g := by
  intro h
  have hmem : b ∈ ((s.readyToRunRemote tagOf g b nosignal).groups g).remoteRq := by
    cases nosignal <;>
    · show b ∈ (update s.groups g _ g).remoteRq
      rw [update_self]
      exact mem_append_right _ mem_cons_self
  exact (h g).remoteRq b hmem

variable {t : Thread}

theorem tagged_readyToRunGeneral (h : Tagged tagOf (s.readyToRunGeneral tagOf t g b nosignal)) : b.tag = tagOf g := by
  rw [State.readyToRunGeneral] at h
  split at h
  · exact tagged_readyToRun h
  · exact tagged_readyToRunRemote h

section

variable (h : Inv tagOf s)
include h

theorem Inv.of_tagged {s' : State} (ht : Tagged tagOf s')
    (htable : s'.taggedGroups = s.taggedGroups) (hops : s'.ops = s.ops)
    (hbutexes : s'.butexes = s.butexes) (hsleepers : s'.sleepers = s.sleepers) : Inv tagOf s' where
  tagged := ht
  table := by
    rw [htable]
    exact h.table
  ops := by
    rw [hops]
    exact h.ops
  butexes := by
    rw [hbutexes]
    exact h.butexes
  sleepers := by
    rw [hsleepers]
    exact h.sleepers

theorem Inv.setGroup {G : TaskGroup} (hG : GroupOk (tagOf g) G) :
    Inv tagOf (s.setGroup g G) := h.of_tagged (h.tagged.setGroup hG) rfl rfl rfl rfl

theorem Inv.signalTask (n tag : ℕ) : Inv tagOf (s.signalTask n tag) := h.of_tagged h.tagged rfl rfl rfl rfl

theorem Inv.fresh (n : ℕ) : Inv tagOf { s with fresh := n } := h.of_tagged h.tagged rfl rfl rfl rfl

theorem Inv.remember (t : Thread) (nosignal : Bool) (g : ℕ) : Inv tagOf (s.remember t nosignal g) := by
  cases nosignal
  · exact h
  · exact h.of_tagged h.tagged rfl rfl rfl rfl

theorem Inv.setOp {op : Option Op} (hop : ∀ o ∈ op, OpOk tagOf t o) : Inv tagOf (s.setOp t op) where
  tagged := h.tagged
  table := h.table
  ops := by
    intro t' o ho
    change o ∈ update s.ops t op t' at ho
    rcases eq_or_ne t' t with rfl | hne
    · rw [update_self] at ho
      exact hop o ho
    · rw [update_of_ne hne] at ho
      exact h.ops t' o ho
  butexes := h.butexes
  sleepers := h.sleepers

theorem Inv.endOp (t : Thread) : Inv tagOf (s.setOp t none) := h.setOp (by rintro _ ⟨⟩)

theorem Inv.setOp_some {op : Op} (hop : OpOk tagOf t op) :
    Inv tagOf (s.setOp t (some op)) := h.setOp (by rintro _ ⟨⟩; exact hop)

theorem Inv.setButex {butex : ℕ} {ws : List Waiter} (hws : ∀ w ∈ ws, w.Ok) :
    Inv tagOf { s with butexes := update s.butexes butex ws } where
  tagged := h.tagged
  table := h.table
  ops := h.ops
  butexes := by
    intro b
    show ∀ w ∈ update s.butexes butex ws b, w.Ok
    rcases eq_or_ne b butex with rfl | hne
    · rw [update_self]
      exact hws
    · rw [update_of_ne hne]
      exact h.butexes b
  sleepers := h.sleepers

theorem Inv.setSleepers {sleepers : List Sleeper} (hs : ∀ e ∈ sleepers, e.bthread.tag = tagOf e.group) :
    Inv tagOf { s with sleepers := sleepers } := { h with sleepers := hs }

/-- **A bthread put into a queue of its tag.** -/
theorem Inv.readyToRun (hb : b.tag = tagOf g) (how : Signal) : Inv tagOf (s.readyToRun tagOf g b how) := by
  obtain ⟨hrq, hremote, hcur⟩ := h.tagged g
  have hpush := forall_mem_push hrq hb
  cases how with
  | nosignal | ignore => exact h.setGroup ⟨hpush, hremote, hcur⟩
  | signal =>
    refine Inv.signalTask (h.setGroup ?_) _ _
    exact ⟨hpush, hremote, hcur⟩

theorem Inv.readyToRunRemote (hb : b.tag = tagOf g)
    (nosignal : Bool) : Inv tagOf (s.readyToRunRemote tagOf g b nosignal) := by
  obtain ⟨hrq, hremote, hcur⟩ := h.tagged g
  have hpush := forall_mem_push hremote hb
  cases nosignal with
  | false =>
    refine Inv.signalTask (h.setGroup ?_) _ _
    exact ⟨hrq, hpush, hcur⟩
  | true => exact h.setGroup ⟨hrq, hpush, hcur⟩

theorem Inv.readyToRunGeneral (hb : b.tag = tagOf g) (nosignal : Bool) :
    Inv tagOf (s.readyToRunGeneral tagOf t g b nosignal) := by
  rw [State.readyToRunGeneral]
  split
  · exact h.readyToRun hb _
  · exact h.readyToRunRemote hb _

theorem Inv.flush (g : ℕ) : Inv tagOf (s.flushNosignalTasks tagOf g) := by
  refine Inv.signalTask (h.setGroup ?_) _ _
  exact ⟨(h.tagged g).rq, (h.tagged g).remoteRq, (h.tagged g).cur⟩

theorem Inv.flushRemote (g : ℕ) : Inv tagOf (s.flushNosignalTasksRemote tagOf g) := by
  refine Inv.signalTask (h.setGroup ?_) _ _
  exact ⟨(h.tagged g).rq, (h.tagged g).remoteRq, (h.tagged g).cur⟩

theorem Inv.exchange (hb : b.tag = tagOf g) (pthreadTask : Bool) (back new : Signal) :
    Inv tagOf (s.exchange tagOf g b pthreadTask back new) := by
  obtain ⟨hrq, hremote, hcur⟩ := h.tagged g
  rw [State.exchange]
  split
  · exact h.readyToRun hb _
  next c hc =>
    split
    · exact h.readyToRun hb _
    · have hrun : GroupOk (tagOf g) { s.groups g with cur := some b } := ⟨hrq, hremote, by rintro _ ⟨⟩; exact hb⟩
      refine (h.setGroup hrun).setOp_some ?_
      rintro _ ⟨⟩
      exact hcur c hc

/-- **The worker takes the next bthread from a group of its tag.** -/
theorem Inv.switch (g : ℕ) (next : Next) : Inv tagOf (s.switch tagOf g next) := by
  obtain ⟨hrq, hremote, -⟩ := h.tagged g
  have hidle : Inv tagOf (s.setGroup g { s.groups g with cur := none }) := h.setGroup ⟨hrq, hremote, by rintro _ ⟨⟩⟩
  rw [State.switch.eq_def]
  split
  next b hb =>
    refine h.setGroup ⟨fun c hc => hrq c (dropLast_subset _ hc), hremote, ?_⟩
    rintro _ ⟨⟩
    exact hrq b (mem_of_getLast? hb)
  · split
    · exact hidle
    next g' remote =>
      split
      · exact hidle
      next htag =>
        rw [not_not] at htag
        obtain ⟨hrq', hremote', hcur'⟩ := h.tagged g'
        split
        · have hs' := h.setGroup (g := g') (G := { s.groups g' with
            remoteRq := (s.groups g').remoteRq.tail })
            ⟨hrq', fun c hc => hremote' c (mem_of_mem_tail hc), hcur'⟩
          obtain ⟨hrq₁, hremote₁, -⟩ := hs'.tagged g
          refine hs'.setGroup ⟨hrq₁, hremote₁, fun c hc => ?_⟩
          rw [← htag]
          exact hremote' c (mem_of_mem_head? hc)
        · have hs' := h.setGroup (g := g') (G := { s.groups g' with
            rq := (s.groups g').rq.tail })
            ⟨fun c hc => hrq' c (mem_of_mem_tail hc), hremote', hcur'⟩
          obtain ⟨hrq₁, hremote₁, -⟩ := hs'.tagged g
          refine hs'.setGroup ⟨hrq₁, hremote₁, fun c hc => ?_⟩
          rw [← htag]
          exact hrq' c (mem_of_mem_head? hc)

end

/-! ## Choosing a group -/

variable {random : ℕ}

theorem Inv.chooseOneGroup (h : Inv tagOf s) (hg : s.chooseOneGroup tag random = some g) : tagOf g = tag :=
  h.table tag g (mem_of_getElem? hg)

theorem remembered_or (hfits : nosignal = true → Remembered tagOf s t tag) {o : Option ℕ}
    (ho : ∀ g', o = some g' → tagOf g' = tag)
    (hg : (if nosignal then (s.nosignal t).or o else o) = some g) : tagOf g = tag := by
  cases nosignal with
  | false => exact ho g hg
  | true =>
    rcases or_eq_some_iff.1 hg with hg | ⟨-, hg⟩
    · exact hfits rfl g hg
    · exact ho g hg

/-- **`get_task_group` finds a group of the tag, unless it remembers another.** -/
theorem Inv.getTaskGroup (h : Inv tagOf s) (hfits : nosignal = true → Remembered tagOf s t tag)
    (hg : s.getTaskGroup tagOf t tag nosignal random = some g) : tagOf g = tag := by
  refine remembered_or hfits (fun g' hg' => ?_) hg
  rcases or_eq_some_iff.1 hg' with hg' | ⟨-, hg'⟩
  · exact of_decide_eq_true (filter_eq_some_iff.1 hg').2
  · exact h.chooseOneGroup hg'

theorem getTaskGroup_remembered (hg : s.nosignal t = some g) : s.getTaskGroup tagOf t tag true random = some g := by
  rw [State.getTaskGroup, hg]
  rfl

/-! ## Every step keeps to the tags -/

open State

variable {tagOf : ℕ → ℕ} {s : State}

/-! ## Starts -/

variable {attr : Attr} {random : ℕ} {t : Thread}

theorem Inv.startFromNonWorker (h : Inv tagOf s)
    (hfits : attr.nosignal = true → Remembered tagOf s t (attr.tag.getD tagDefault)) :
    Inv tagOf (s.startFromNonWorker tagOf t attr random) := by
  rw [State.startFromNonWorker]
  split
  · exact h
  next g hg =>
    have htag := remembered_or hfits (fun g' hg' => h.chooseOneGroup hg') hg
    exact ((h.remember t _ g).readyToRunRemote htag.symm _).fresh _

theorem remembered_of_startFromNonWorker
    (h : Tagged tagOf (s.startFromNonWorker tagOf t attr random)) (hn : attr.nosignal = true) :
    Remembered tagOf s t (attr.tag.getD tagDefault) := by
  intro g hg
  rw [startFromNonWorker, hn, hg, if_pos rfl, some_or] at h
  have hput : Tagged tagOf ((s.remember t true g).readyToRunRemote tagOf g
    ⟨s.fresh, attr.tag.getD tagDefault⟩ true) := h
  exact (tagged_readyToRunRemote hput).symm

theorem threadLocal_tag {g : ℕ} (h : threadLocal tagOf t attr = some g) : attr.tag.getD (tagOf g) = tagOf g := by
  rcases of_decide_eq_true (filter_eq_some_iff.1 h).2 with h | h <;> rw [h] <;> rfl

theorem Inv.startBackground (h : Inv tagOf s) (hfits : attr.nosignal = true → threadLocal tagOf t attr = none →
      Remembered tagOf s t (attr.tag.getD tagDefault)) : Inv tagOf (s.startBackground tagOf t attr random) := by
  rw [State.startBackground]
  split
  next g hg =>
    exact (h.readyToRun (threadLocal_tag hg) _).fresh _
  next hnone =>
    exact h.startFromNonWorker fun hn => hfits hn hnone

theorem Inv.startUrgent (h : Inv tagOf s) {p q : Bool}
    (hfits : attr.nosignal = true → threadLocal tagOf t attr = none →
      Remembered tagOf s t (attr.tag.getD tagDefault)) : Inv tagOf (s.startUrgent tagOf t attr p q random) := by
  rw [State.startUrgent]
  split
  next g hg =>
    exact (h.exchange (threadLocal_tag hg) _ _ _).fresh _
  next hnone =>
    exact h.startFromNonWorker fun hn => hfits hn hnone

/-! ## Calls -/

theorem Inv.bthreadFlush (h : Inv tagOf s) (t : Thread) : Inv tagOf (s.bthreadFlush tagOf t) := by
  rw [State.bthreadFlush]
  split
  · exact h.flush _
  · have hs' : Inv tagOf { s with nosignal := update s.nosignal t none } := h.of_tagged h.tagged rfl rfl rfl rfl
    exact hs'.flushRemote _
  · exact h

variable {last : Option Waiter} {nosignal : Bool} {rest : List Waiter}

theorem Inv.wakeOp (h : Inv tagOf s) {butex : ℕ} {left : List Waiter}
    (hleft : ∀ w ∈ left, w.Ok) (hrest : ∀ w ∈ rest, w.Ok)
    (hlast : ∀ w ∈ last, w.Ok) : Inv tagOf (s.wakeOp t butex left rest last nosignal) :=
  (h.setButex hleft).setOp_some ⟨hrest, hlast⟩

theorem Inv.block (h : Inv tagOf s) {next : Next} {op : ℕ → Bthread → Option Op}
    (hop : ∀ g b, t.group = some g → b.tag = tagOf g → ∀ o ∈ op g b, OpOk tagOf t o) :
    Inv tagOf (s.block tagOf t next op) := by
  rw [State.block]
  split
  · exact h
  next g hg =>
    split
    · exact h
    next b hb =>
      exact (h.switch g next).setOp (hop g b hg ((h.tagged g).cur b hb))

variable {b : Bthread}

theorem local_of_group {g : ℕ} (hg : t.group = some g) (hb : b.tag = tagOf g) : Local tagOf t b := by
  intro g' hg'
  rw [hg] at hg'
  cases hg'
  exact hb

/-- **The first step of a call keeps the invariant.** -/
theorem Inv.call (h : Inv tagOf s) (c : Call)
    (hfits : FitsCall tagOf s t c) : Inv tagOf (s.call tagOf t random c) := by
  cases c with
  | startUrgent => exact h.startUrgent hfits
  | startBackground => exact h.startBackground hfits
  | flush => exact h.bthreadFlush t
  | butexWake butex | butexWakeAll butex =>
    rw [State.call]
    split
    · exact h
    next w ws hws =>
      obtain ⟨hw, hrest⟩ := forall_mem_cons.1 (hws ▸ h.butexes butex)
      refine h.wakeOp ?_ ?_ (by rintro _ ⟨⟩; exact hw) <;> first | exact hrest | exact forall_mem_nil _
  | butexWakeExcept butex =>
    have hfilter (p : Waiter → Bool) : ∀ w ∈ (s.butexes butex).filter p, w.Ok :=
      fun w hw => h.butexes butex w (mem_of_mem_filter hw)
    exact h.wakeOp (hfilter _) (hfilter _) (by rintro _ ⟨⟩)
  | butexRequeue butex mutex =>
    rw [State.call]
    split
    · exact h
    next w ws hws =>
      obtain ⟨hw, hrest⟩ := forall_mem_cons.1 (hws ▸ h.butexes butex)
      have hs' : Inv tagOf (s.wakeOp t butex [] [] (some w) false) :=
        h.wakeOp (forall_mem_nil _) (forall_mem_nil _) (by rintro _ ⟨⟩; exact hw)
      exact hs'.setButex (forall_mem_append.2 ⟨hs'.butexes mutex, hrest⟩)
  | erase butex k =>
    rw [State.call]
    split
    · exact h
    next w hw =>
      have hleft := forall_mem_replaceAt (k := k) (h.butexes butex) (forall_mem_nil _)
      exact (h.setButex hleft).setOp_some (h.butexes butex w (mem_of_getElem? hw))
  | timer k =>
    rw [State.call]
    split
    · exact h
    next e he =>
      split
      · exact h
      · have hleft := forall_mem_replaceAt (k := k) h.sleepers (forall_mem_nil _)
        exact (h.setSleepers hleft).setOp_some (h.sleepers e (mem_of_getElem? he))
  | interrupt k =>
    rw [State.call]
    split
    · exact h
    · have hleft := forall_mem_replaceAt (k := k) h.sleepers (forall_mem_nil _)
      exact (h.setSleepers hleft).setOp_some trivial
  | butexWait =>
    refine h.block fun g b hg hb => ?_
    rintro _ ⟨⟩
    exact ⟨hb.symm, local_of_group hg hb⟩
  | usleep | yield =>
    refine h.block fun g b hg hb => ?_
    rintro _ ⟨⟩
    exact local_of_group hg hb
  | sched next =>
    rw [State.call]
    split
    · exact h
    · exact h.switch _ next

/-! ## Steps after the first -/

variable {a : Answer}

theorem Inv.goWake (h : Inv tagOf s) {groups : List ℕ} (hop : s.ops t = some (.wake rest groups last nosignal))
    (hfits : FitsOp tagOf s t a (.wake rest groups last nosignal)) :
    Inv tagOf (s.goWake tagOf t a rest groups last nosignal) := by
  obtain ⟨hrest, hlast⟩ := h.ops t _ hop
  rw [goWake.eq_def]
  split
  next w hw =>
    split
    · exact h
    next g hg =>
      have hok : w.Ok := hrest w (mem_of_getLast? hw)
      have htag : tagOf g = w.tag := by
        refine h.getTaskGroup (fun hn => hfits hn w ?_) hg
        rw [nextWaiter, hw]
        rfl
      refine Inv.setOp_some ((h.remember t _ g).readyToRunGeneral (hok.symm.trans htag.symm) _) ?_
      exact ⟨fun w hw => hrest w (dropLast_subset _ hw), hlast⟩
  next hnone =>
    split
    · refine Inv.setOp_some ?_ ⟨forall_mem_nil _, hlast⟩
      split
      · exact h
      · rw [flushNosignalTasksGeneral]
        split
        · exact h.flush _
        · exact h.flushRemote _
    · exact h.endOp t
    next w =>
      split
      · exact h
      next g hg =>
        have hok : w.Ok := hlast w rfl
        have htag : tagOf g = w.tag := by
          refine h.getTaskGroup (fun hn => hfits hn w ?_) hg
          rw [nextWaiter, hnone]
          rfl
        have hb : w.bthread.tag = tagOf g := hok.symm.trans htag.symm
        have hs' := (h.remember t nosignal g).endOp t
        split
        · split
          · exact hs'.readyToRun hb _
          · exact hs'.exchange hb _ _ _
        · exact hs'.readyToRunRemote hb _

theorem Inv.goInterrupted (h : Inv tagOf s) {tag : ℕ} (hfits : FitsOp tagOf s t a (.interrupted b tag)) :
    Inv tagOf (s.goInterrupted tagOf t a b tag) := by
  rw [State.goInterrupted]
  split
  next g hg =>
    exact (h.endOp t).readyToRun (hfits.1 g hg).symm _
  next hg =>
    split
    · exact h
    next g hchoose =>
      have htag : tag = b.tag := hfits.2 hg (by rw [hchoose]; rintro ⟨⟩)
      exact (h.endOp t).readyToRunRemote (htag.symm.trans (h.chooseOneGroup hchoose).symm) _

/-- **Every later step of a call keeps the invariant.** -/
theorem Inv.go (h : Inv tagOf s) {op : Op} (hop : s.ops t = some op)
    (hfits : FitsOp tagOf s t a op) : Inv tagOf (s.go tagOf t a op) := by
  have hok := h.ops t op hop
  cases op with
  | readyToRun b how =>
    rw [State.go]
    split
    · exact h
    next g hg =>
      exact (h.endOp t).readyToRun (hok g hg) how
  | waitForButex w butex =>
    rw [State.go]
    split
    · refine Inv.endOp (h.setButex ?_) t
      exact forall_mem_append.2 ⟨h.butexes butex, forall_mem_singleton.2 hok.1⟩
    · exact h.setOp_some hok.2
  | addSleepEvent b =>
    rw [State.go]
    split
    · exact h
    next g hg =>
      split
      · have hsleepers : ∀ e ∈ s.sleepers ++ [Sleeper.mk s.fresh b g], e.bthread.tag = tagOf e.group :=
          forall_mem_append.2 ⟨h.sleepers, forall_mem_singleton.2 (hok g hg)⟩
        exact ((h.setSleepers hsleepers).fresh _).setOp_some hok
      · exact h.setOp_some hok
  | setCurrentSleep =>
    rw [State.go]
    split
    · exact h.endOp t
    · split
      · exact (h.setSleepers fun e he => h.sleepers e (mem_of_mem_filter he)).setOp_some hok
      · exact h.endOp t
  | wake => exact h.goWake hop hfits
  | erased =>
    rw [State.go]
    split
    · exact h
    next g hg =>
      have htag := h.getTaskGroup (by rintro ⟨⟩) hg
      exact (h.endOp t).readyToRunGeneral (hok.symm.trans htag.symm) _
  | timer =>
    rw [State.go]
    split
    · exact h
    next g hg =>
      exact (h.endOp t).readyToRunRemote (hok.trans (h.chooseOneGroup hg).symm) _
  | interrupted => exact h.goInterrupted hfits

/-- **Every step that fits keeps the invariant.** -/
theorem Inv.step (s : State) (i : Input) (h : Inv tagOf s) (hfits : Fits tagOf s i) : Inv tagOf (s.step tagOf i) := by
  cases i with
  | addGroup g =>
    refine { h with table := fun tag => ?_ }
    show ∀ g' ∈ update s.taggedGroups (tagOf g) _ tag, tagOf g' = tag
    rcases eq_or_ne tag (tagOf g) with rfl | hne
    · rw [update_self]
      exact forall_mem_append.2 ⟨h.table _, forall_mem_singleton.2 rfl⟩
    · rw [update_of_ne hne]
      exact h.table tag
  | call t c =>
    rw [State.step]
    split
    · exact h
    next hop =>
      exact h.call c (hfits (not_isSome_iff_eq_none.1 hop))
  | go =>
    rw [State.step]
    split
    · exact h
    next op hop =>
      exact h.go hop (hfits op hop)

/-! ## What a step that keeps the tags has found -/

theorem fitsCall_of_tagged (c : Call) (ht : Tagged tagOf (s.call tagOf t random c)) : FitsCall tagOf s t c := by
  cases c with
  | startUrgent =>
    intro hn hnone
    rw [call, startUrgent, hnone] at ht
    exact remembered_of_startFromNonWorker ht hn
  | startBackground =>
    intro hn hnone
    rw [call, startBackground, hnone] at ht
    exact remembered_of_startFromNonWorker ht hn
  | _ => trivial

theorem Inv.fitsWake (h : Inv tagOf s) {groups : List ℕ} (hop : s.ops t = some (.wake rest groups last nosignal))
    (ht : Tagged tagOf (s.goWake tagOf t a rest groups last nosignal)) :
    FitsOp tagOf s t a (.wake rest groups last nosignal) := by
  obtain ⟨hrest, hlast⟩ := h.ops t _ hop
  rintro rfl w hw g hg
  rcases or_eq_some_iff.1 hw with hw | ⟨hnone, hw'⟩
  · rw [goWake.eq_def, hw] at ht
    dsimp only at ht
    rw [getTaskGroup_remembered hg] at ht
    have hput : Tagged tagOf ((s.remember t true g).readyToRunGeneral tagOf t g w.bthread true) := ht
    exact (tagged_readyToRunGeneral hput).symm.trans (hrest w (mem_of_getLast? hw)).symm
  · split at hw'
    next hgroups =>
      subst hgroups
      rw [goWake.eq_def, hnone, hw'] at ht
      dsimp only at ht
      rw [getTaskGroup_remembered hg] at ht
      have hok : w.Ok := hlast w hw'
      dsimp only at ht
      split at ht
      · rw [if_pos rfl] at ht
        exact (tagged_readyToRun ht).symm.trans hok.symm
      · exact (tagged_readyToRunRemote ht).symm.trans hok.symm
    · cases hw'

theorem Inv.fitsInterrupted (h : Inv tagOf s) {tag : ℕ} (ht : Tagged tagOf (s.goInterrupted tagOf t a b tag)) :
    FitsOp tagOf s t a (.interrupted b tag) := by
  constructor
  · intro g hg
    rw [State.goInterrupted, hg] at ht
    exact (tagged_readyToRun ht).symm
  · intro hg hchoose
    obtain ⟨g, hchoose⟩ := ne_none_iff_exists'.1 hchoose
    rw [State.goInterrupted, hg] at ht
    rw [hchoose] at ht
    exact (h.chooseOneGroup hchoose).symm.trans (tagged_readyToRunRemote ht).symm

/-- **A step that keeps to the tags has found what it needs.** -/
theorem Inv.fits (s : State) (i : Input) (h : Inv tagOf s) (ht : Tagged tagOf (s.step tagOf i)) : Fits tagOf s i := by
  cases i with
  | addGroup => trivial
  | call t c =>
    intro hop
    rw [State.step, hop] at ht
    exact fitsCall_of_tagged c ht
  | go =>
    intro op hop
    rw [State.step, mem_def.1 hop] at ht
    cases op with
    | wake => exact h.fitsWake hop ht
    | interrupted => exact h.fitsInterrupted ht
    | _ => trivial

/-- **A bthread is only put where its tag is, exactly when every step fits**: in every state
reached, run queues and workers hold bthreads of their tag only. -/
theorem tagged_iff_fits (tagOf : ℕ → ℕ) (is : List Input) :
    (∀ js, js <+: is → Tagged tagOf (run (step tagOf) init js)) ↔ Along (step tagOf) (Fits tagOf) init is :=
  along_iff_prefixes_of_invariant (fun _ h => h.tagged) Inv.step Inv.fits is _ Inv.init

/-- Two groups, of tags 0 and 1. -/
def twoTags : List Input := [.addGroup 0, .addGroup 1]

/-- An answer for the steps below. -/
def yes : Answer := ⟨0, true, false, false⟩

/-- The bthread of tag 1 runs and sleeps. -/
def asleep : List Input :=
  twoTags ++ [.call (.other 0) (.startBackground ⟨some 1, false⟩) 0,
    .call (.worker 1) (.sched (some (1, true))) 0, .call (.worker 1) (.usleep none) 0,
    .go (.worker 1) yes, .go (.worker 1) yes]

/-- **Groups of another tag.**  Of two NOSIGNAL starts with tags 0 and 1 the second goes into the
remembered group, of tag 0; a worker of tag 0 interrupts a sleeping bthread of tag 1 and gets it.
-/
theorem remembered_or_own_breaks :
    let start (tag : ℕ) : Input := .call (.other 0) (.startBackground ⟨some tag, true⟩) 0
    ¬ Tagged id (run (step id) init (twoTags ++ [start 0, start 1]))
      ∧ ¬ Tagged id (run (step id) init
        (asleep ++ [.call (.worker 0) (.interrupt 0 1) 0, .go (.worker 0) yes])) := by
  constructor
  · intro h
    exact absurd ((h 0).remoteRq ⟨1, 1⟩ (by decide)) (by decide)
  · intro h
    exact absurd ((h 0).rq ⟨0, 1⟩ (by decide)) (by decide)

end Brpc.Tags
