/-
# The owner's list and the stack of newer requests

The exchanges on `_write_head` so far split into the requests that are through, the owner's list,
linked from old to new (`Linked`), and the newer requests, which hang under each other from new
to old (`Stacked`).
-/

import Mathlib.Data.List.Chain
import Mathlib.Data.List.Nodup
import Brpc.Socket.WriteQueue

namespace Brpc.Socket

open List Function

variable {next next' : Id → Next} {pc pc' : Id → Pc}

/-! ## Lists linked by `next` -/

/-- `l` is linked from its first to its last request, whose `next` is NULL. -/
def Linked (next : Id → Next) (l : List Id) : Prop :=
  l.IsChain (fun a b => next a = .ptr b) ∧ ∀ z ∈ l.getLast?, next z = .null

variable {a : Id}

theorem linked_singleton : Linked next [a] ↔ next a = .null := by
  simp [Linked]

variable {l : List Id}

theorem linked_cons_cons {b : Id} : Linked next (a :: b :: l) ↔ next a = .ptr b ∧ Linked next (b :: l) := by
  rw [Linked, Linked, isChain_cons_cons, getLast?_cons_cons, and_assoc]

section

variable (h : Linked next l)
include h

theorem Linked.connected {r : Id} (hr : r ∈ l) : next r ≠ .unconnected := by
  induction l with
  | nil => cases hr
  | cons a l ih =>
    cases l with
    | nil =>
      rw [mem_singleton.1 hr, linked_singleton.1 h]
      nofun
    | cons =>
      obtain ⟨hab, hbl⟩ := linked_cons_cons.1 h
      rcases mem_cons.1 hr with rfl | hr
      · rw [hab]
        nofun
      · exact ih hbl hr

theorem Linked.mono (heq : ∀ a ∈ l, next a ≠ .unconnected → next' a = next a) : Linked next' l := by
  refine ⟨h.1.imp_of_mem_imp fun a b ha _ hab => ?_, fun z hz => ?_⟩
  · rw [heq a ha (by rw [hab]; nofun), hab]
  · have hmem := mem_of_getLast? hz
    rw [heq z hmem (h.connected hmem), h.2 z hz]

theorem Linked.update (ha : a ∉ l) (n : Next) : Linked (update next a n) l :=
  h.mono fun _ hb _ => update_of_ne (ne_of_mem_of_not_mem hb ha) _ _

theorem Linked.push (ha : a ∉ l) : Linked (Function.update next a (.ofOption l.head?)) (a :: l) := by
  cases l with
  | nil => rw [linked_singleton, update_self, head?_nil, Next.ofOption]
  | cons =>
    rw [linked_cons_cons, update_self]
    exact ⟨rfl, h.update ha _⟩

end

theorem Linked.join {f : List Id} {z b : Id} (hf : Linked next (f ++ [z])) (hl : Linked next l)
    (hb : l.head? = some b) (hnodup : (f ++ z :: l).Nodup) :
    Linked (Function.update next z (.ptr b)) (f ++ z :: l) := by
  have hz : z ∉ l := (nodup_cons.1 (nodup_append.1 hnodup).2.1).1
  induction f with
  | nil =>
    cases l with
    | nil => cases hb
    | cons =>
      cases hb
      exact linked_cons_cons.2 ⟨update_self .., hl.update hz _⟩
  | cons a f ih =>
    have hne : a ≠ z := by
      rintro rfl
      exact (nodup_cons.1 hnodup).1 (mem_append_right _ mem_cons_self)
    obtain ⟨c, g, hg⟩ : ∃ c g, f ++ z :: l = c :: g := exists_cons_of_ne_nil (by simp)
    obtain ⟨g', hg'⟩ : ∃ g', f ++ [z] = c :: g' := by
      cases f with
      | nil =>
        cases hg
        exact ⟨[], rfl⟩
      | cons d f =>
        cases hg
        exact ⟨f ++ [z], rfl⟩
    rw [cons_append, hg', linked_cons_cons, ← hg'] at hf
    have hrest := ih hf.2 (nodup_cons.1 hnodup).2
    rw [hg] at hrest
    rw [cons_append, hg, linked_cons_cons, update_of_ne hne]
    exact ⟨hf.1, hrest⟩

/-! ## The stack above a list -/

/-- `n` hangs under no one but `prev`: its `next` is `prev`, or its thread is about to
store that. -/
def Hangs (next : Id → Next) (pc : Id → Pc) (prev n : Id) : Prop :=
  next n = .ptr prev ∨ next n = .unconnected ∧ pc n = .link prev

/-- Each request of the list hangs under the one before it. -/
def Stacked (next : Id → Next) (pc : Id → Pc) (l : List Id) : Prop := l.IsChain (Hangs next pc)

theorem Stacked.update {z : Id} (h : Stacked next pc (z :: l)) (ha : a ∉ l)
    (n : Next) : Stacked (update next a n) pc (z :: l) := by
  refine List.IsChain.imp_of_mem_tail_imp (fun p q _ hq hpq => ?_) h
  have hne : q ≠ a := fun hqa => ha (hqa ▸ hq)
  rwa [Hangs, update_of_ne hne]

/-- What the steps of the other threads leave of the owner's links: a connected `next`
stays, and what hangs goes on hanging. -/
structure Keeps (next next' : Id → Next) (pc pc' : Id → Pc) : Prop where
  connected : ∀ a, next a ≠ .unconnected → next' a = next a
  hangs : ∀ p n, Hangs next pc p n → Hangs next' pc' p n

theorem Keeps.goto {t : Id} (ht : ∀ p, pc t ≠ .link p) (x : Pc) : Keeps next next pc (update pc t x) := by
  refine ⟨fun _ _ => rfl, fun p n h => ?_⟩
  rcases h with h | ⟨hn, hl⟩
  · exact .inl h
  · have hne : n ≠ t := fun hnt => ht p (hnt ▸ hl)
    exact .inr ⟨hn, by rw [update_of_ne hne, hl]⟩

theorem Keeps.link {u prev : Id} (hpc : pc u = .link prev) (hu : next u = .unconnected) (x : Pc) :
    Keeps next (update next u (.ptr prev)) pc (update pc u x) := by
  refine ⟨fun a ha => update_of_ne (fun h : a = u => ha (h ▸ hu)) _ _, fun p n h => ?_⟩
  by_cases hn : n = u
  · subst hn
    rcases h with h | ⟨-, h⟩
    · rw [hu] at h
      cases h
    · rw [hpc] at h
      cases h
      exact .inl (update_self ..)
  · rwa [Hangs, update_of_ne hn, update_of_ne hn]

theorem Linked.keeps (h : Linked next l) (hk : Keeps next next' pc pc') : Linked next' l :=
  h.mono fun a _ => hk.connected a

theorem Stacked.keeps (h : Stacked next pc l) (hk : Keeps next next' pc pc') : Stacked next' pc' l :=
  List.IsChain.imp (hk.hangs) h

theorem Stacked.concat (h : Stacked next pc l) {r prev : Id}
    (hprev : l.getLast? = some prev) (hr : Hangs next pc prev r) : Stacked next pc (l ++ [r]) := by
  refine List.IsChain.append h (isChain_singleton r) fun x hx y hy => ?_
  rw [hprev] at hx
  cases hx
  cases hy
  exact hr

/-! ## Where the owner of the right to write stands -/

/-- The exchanges so far, split. -/
structure View where
  /-- Requests that are returned, or will be by a thread that has given up the right. -/
  past : List Id
  front : List Id
  /-- The last request of the owner's list. -/
  last : Id
  newer : List Id

/-- The owner's list. -/
def View.mine (v : View) : List Id := v.front ++ [v.last]

/-- All exchanges. -/
def View.all (v : View) : List Id := v.past ++ (v.front ++ v.last :: v.newer)

variable {next next' : Id → Next} {pc pc' : Id → Pc} {v : View}

/-- The owner's list is linked, and the newer requests hang under its last one. -/
structure Tied (next : Id → Next) (pc : Id → Pc) (v : View) : Prop where
  mine : Linked next v.mine
  newer : Stacked next pc (v.last :: v.newer)

/-- The newer requests up to `newHead` are being turned around: `todo` still hangs
under the owner's list, `turned` is linked. -/
structure Turning (next : Id → Next) (pc : Id → Pc) (v : View) (newHead : Id)
    (todo turned later : List Id) : Prop where
  newer : v.newer = todo ++ (turned ++ later)
  mine : Linked next v.mine
  hung : Stacked next pc (v.last :: todo)
  linked : Linked next turned
  above : Stacked next pc (newHead :: later)
  newest : (todo ++ turned).getLast? = some newHead

/-- What the links look like in each phase of the owner. -/
def Phase.At (next : Id → Next) (pc : Id → Pc) (v : View) : Phase → Prop
  | .setNull => v.front = [] ∧ Stacked next pc (v.last :: v.newer)
  | .begin | .connecting | .write => v.front = [] ∧ Tied next pc v
  | .top tail | .doWrite tail | .release tail _ | .waitEpollOut tail =>
    Tied next pc v ∧ ∀ z ∈ tail, z = v.last
  | .findTail cur => Tied next pc v ∧ cur ∈ v.mine
  | .isComplete c old => Tied next pc v ∧ old = v.last ∧ (c = .keep ∨ v.front = [])
  | .reverse _ old newHead p rev => old = v.last ∧ ∃ todo turned later,
      Turning next pc v newHead todo turned later ∧ todo.getLast? = some p ∧ rev = turned.head?
  | .linkOld _ old newHead rev => old = v.last ∧ ∃ turned later,
      Turning next pc v newHead [] turned later ∧ turned.head? = some rev
  | .fail => Tied next pc v

theorem Tied.keeps (h : Tied next pc v) (hk : Keeps next next' pc pc') : Tied next' pc' v :=
  ⟨h.mine.keeps hk, h.newer.keeps hk⟩

theorem Turning.keeps {newHead : Id} {todo turned later : List Id}
    (h : Turning next pc v newHead todo turned later) (hk : Keeps next next' pc pc') :
    Turning next' pc' v newHead todo turned later :=
  ⟨h.newer, h.mine.keeps hk, h.hung.keeps hk, h.linked.keeps hk, h.above.keeps hk, h.newest⟩

theorem Phase.At.keeps {ph : Phase} (h : ph.At next pc v) (hk : Keeps next next' pc pc') : ph.At next' pc' v := by
  cases ph with
  | setNull | begin | connecting | write => exact ⟨h.1, h.2.keeps hk⟩
  | top | doWrite | release | waitEpollOut | findTail | isComplete => exact ⟨h.1.keeps hk, h.2⟩
  | reverse =>
    obtain ⟨hold, todo, turned, later, ht, hp⟩ := h
    exact ⟨hold, todo, turned, later, ht.keeps hk, hp⟩
  | linkOld =>
    obtain ⟨hold, turned, later, ht, hp⟩ := h
    exact ⟨hold, turned, later, ht.keeps hk, hp⟩
  | fail => exact Tied.keeps h hk

/-- One more newer request. -/
def View.push (v : View) (r : Id) : View := { v with newer := v.newer ++ [r] }

section

variable {r prev : Id} (hprev : (v.last :: v.newer).getLast? = some prev) (hr : Hangs next pc prev r)
include hprev hr

theorem Tied.push (h : Tied next pc v) : Tied next pc (v.push r) := ⟨h.mine, h.newer.concat hprev hr⟩

theorem Turning.push {newHead : Id} {todo turned later : List Id} (h : Turning next pc v newHead todo turned later) :
    Turning next pc (v.push r) newHead todo turned (later ++ [r]) := by
  refine { h with newer := ?_, above := h.above.concat ?_ hr }
  · rw [View.push, h.newer]
    simp
  -- The newest request of all is the newest of `later`, or `newHead` if there is none.
  · rw [h.newer, ← List.append_assoc, ← List.cons_append, List.getLast?_append] at hprev
    rw [← List.singleton_append, List.getLast?_append]
    rwa [List.getLast?_cons, h.newest] at hprev

theorem Phase.At.push {ph : Phase} (h : ph.At next pc v) : ph.At next pc (v.push r) := by
  cases ph with
  | setNull => exact ⟨h.1, h.2.concat hprev hr⟩
  | begin | connecting | write => exact ⟨h.1, h.2.push hprev hr⟩
  | top | doWrite | release | waitEpollOut | findTail | isComplete => exact ⟨h.1.push hprev hr, h.2⟩
  | reverse =>
    obtain ⟨hold, todo, turned, later, ht, hp⟩ := h
    exact ⟨hold, todo, turned, later ++ [r], ht.push hprev hr, hp⟩
  | linkOld =>
    obtain ⟨hold, turned, later, ht, hp⟩ := h
    exact ⟨hold, turned, later ++ [r], ht.push hprev hr, hp⟩
  | fail => exact Tied.push hprev hr h

end

/-- Thread `t` owns the right to write, stands at `ph` with `req` the first request of its list,
and the exchanges are split as `v` says. -/
structure Owned (s : State) (t req : Id) (ph : Phase) (v : View) : Prop where
  owner : s.pc t = .own req ph
  alone : ∀ u q f, s.pc u = .own q f → u = t
  order : s.order = v.all
  head : s.head = (v.last :: v.newer).getLast?
  first : v.mine.head? = some req
  stands : ph.At s.next s.pc v
  links : ∀ u prev, s.pc u = .link prev → u ∈ v.newer ∧ s.next u = .unconnected
  cleared : ∀ z, ph = .isComplete .fail z → s.data z = []

theorem Owned.eq_of_own (h : Owned s t req ph v) {u q : Id} {f : Phase} (hpc : s.pc u = .own q f) :
    u = t ∧ q = req ∧ f = ph := by
  obtain rfl := h.alone u q f hpc
  exact ⟨rfl, Pc.own.inj (hpc.symm.trans h.owner)⟩

/-- No thread owns the right to write. -/
structure Unowned (s : State) : Prop where
  alone : ∀ u q f, s.pc u ≠ .own q f
  head : s.head = none
  links : ∀ u prev, s.pc u ≠ .link prev

/-- What holds of the requests and threads, owner or not. -/
structure Orderly (call : Id → Call) (s : State) : Prop where
  nodup : s.order.Nodup
  exchanged : ∀ r, r ∈ s.order ↔ s.pc r ≠ .idle ∧ s.pc r ≠ .entered
  fresh : ∀ r, r ∉ s.order → s.next r = .unconnected ∧ s.data r = (call r).data
  sound : ∀ r, s.pc r ≠ .broken

variable {call : Id → Call} {s : State} {t u req : Id} {ph : Phase} {x : Pc}

/-- **Another thread moves on.**  What it does keeps the owner's links, so the view
stays. -/
theorem Owned.keeps (h : Owned s t req ph v) {s' : State} (hk : Keeps s.next s'.next s.pc s'.pc)
    (hpc : s'.pc = update s.pc u x) (hu : u ≠ t) (hown : ∀ q f, x ≠ .own q f)
    (hlink : ∀ p, x ≠ .link p) (horder : s'.order = s.order) (hhead : s'.head = s.head)
    (hdata : s'.data = s.data) (hnext : ∀ w, w ≠ u → s'.next w = s.next w) : Owned s' t req ph v where
  owner := by rw [hpc, update_of_ne hu.symm, h.owner]
  alone w q f hw := by
    rw [hpc] at hw
    by_cases hwu : w = u
    · rw [hwu, update_self] at hw
      exact absurd hw (hown q f)
    · rw [update_of_ne hwu] at hw
      exact h.alone w q f hw
  order := by rw [horder, h.order]
  head := by rw [hhead, h.head]
  first := h.first
  stands := h.stands.keeps hk
  links w prev hw := by
    rw [hpc] at hw
    by_cases hwu : w = u
    · rw [hwu, update_self] at hw
      exact absurd hw (hlink prev)
    · rw [update_of_ne hwu] at hw
      rw [hnext w hwu]
      exact h.links w prev hw
  cleared z hz := by rw [hdata, h.cleared z hz]

/-! ## The steps of the threads that do not own the right to write -/

variable {call : Id → Call} {s s' : State} {t u req r : Id} {ph : Phase} {v : View} {x : Pc}

/-! ## Orderly -/

section

variable (h : Orderly call s)
include h

theorem Orderly.moved (hu : u ∈ s.order) (hpc : s'.pc = update s.pc u x) (hidle : x ≠ .idle) (hentered : x ≠ .entered)
    (hbroken : x ≠ .broken) (horder : s'.order = s.order)
    (hfresh : ∀ w, w ∉ s.order → s'.next w = s.next w ∧ s'.data w = s.data w) : Orderly call s' where
  nodup := by rw [horder]; exact h.nodup
  exchanged w := by
    rw [horder, hpc]
    by_cases hw : w = u
    · rw [hw, update_self]
      exact ⟨fun _ => ⟨hidle, hentered⟩, fun _ => hu⟩
    · rw [update_of_ne hw]
      exact h.exchanged w
  fresh w hw := by
    rw [horder] at hw
    rw [(hfresh w hw).1, (hfresh w hw).2]
    exact h.fresh w hw
  sound w := by
    rw [hpc]
    by_cases hw : w = u
    · rw [hw, update_self]
      exact hbroken
    · rw [update_of_ne hw]
      exact h.sound w

theorem Orderly.mem_of_pc (hidle : s.pc r ≠ .idle) (hentered : s.pc r ≠ .entered) : r ∈ s.order :=
  (h.exchanged r).2 ⟨hidle, hentered⟩

theorem Orderly.not_mem_of_entered (hr : s.pc r = .entered) : r ∉ s.order := fun hmem => ((h.exchanged r).1 hmem).2 hr

theorem Orderly.write (hr : s.pc r = .idle) : Orderly call (s.goto r .entered) where
  nodup := h.nodup
  exchanged w := by
    show w ∈ s.order ↔ update s.pc r .entered w ≠ _ ∧ update s.pc r .entered w ≠ _
    by_cases hw : w = r
    · subst hw
      rw [update_self]
      exact ⟨fun hmem => absurd hr ((h.exchanged w).1 hmem).1, fun hne => absurd rfl hne.2⟩
    · rw [update_of_ne hw]
      exact h.exchanged w
  fresh := h.fresh
  sound w := by
    show update s.pc r .entered w ≠ _
    by_cases hw : w = r
    · rw [hw, update_self]
      nofun
    · rw [update_of_ne hw]
      exact h.sound w

theorem Orderly.exchange (hr : s.pc r = .entered) : Orderly call (s.exchange r) := by
  have hfresh := h.not_mem_of_entered hr
  obtain ⟨x, hx, hidle, hentered, hbroken⟩ : ∃ x, s.exchange r =
      { s with head := some r, order := s.order ++ [r] }.goto r x ∧ x ≠ .idle ∧ x ≠ .entered ∧ x ≠ .broken := by
    rw [State.exchange]
    cases s.head with
    | none | some => exact ⟨_, rfl, nofun, nofun, nofun⟩
  rw [hx]
  refine ⟨?_, fun w => ?_, fun w hw => ?_, fun w => ?_⟩
  · exact concat_eq_append ▸ Nodup.concat hfresh h.nodup
  · show w ∈ s.order ++ [r] ↔ update s.pc r x w ≠ _ ∧ update s.pc r x w ≠ _
    rw [mem_append, mem_singleton]
    by_cases hw : w = r
    · rw [hw, update_self]
      exact ⟨fun _ => ⟨hidle, hentered⟩, fun _ => .inr rfl⟩
    · rw [update_of_ne hw, ← h.exchanged w]
      exact ⟨fun hmem => hmem.resolve_right hw, .inl⟩
  · exact h.fresh w fun hmem => hw (mem_append_left _ hmem)
  · show update s.pc r x w ≠ _
    by_cases hw : w = r
    · rw [hw, update_self]
      exact hbroken
    · rw [update_of_ne hw]
      exact h.sound w

end

/-! ## With an owner -/

theorem Owned.goto_other (h : Owned s t req ph v) (hu : ∀ q f, s.pc u ≠ .own q f)
    (hul : ∀ p, s.pc u ≠ .link p) (hown : ∀ q f, x ≠ .own q f) (hlink : ∀ p, x ≠ .link p) :
    Owned (s.goto u x) t req ph v :=
  h.keeps (Keeps.goto hul x) rfl (fun hut => hu req ph (hut ▸ h.owner)) hown hlink rfl rfl rfl fun _ _ => rfl

/-- **A request is hung under the one its thread found.** -/
theorem Owned.link (h : Owned s t req ph v) {prev : Id} (hu : s.pc u = .link prev) :
    Owned ((s.setNext u (.ptr prev)).goto u .done) t req ph v := by
  have hne : u ≠ t := by
    rintro rfl
    rw [h.owner] at hu
    cases hu
  exact h.keeps (Keeps.link hu (h.links u prev hu).2 .done) rfl hne nofun nofun rfl rfl rfl
    fun w hw => update_of_ne hw _ _

/-- **A request is swapped in while there is an owner.** -/
theorem Owned.exchange (h : Owned s t req ph v) (ho : Orderly call s) (hr : s.pc r = .entered) :
    Owned (s.exchange r) t req ph (v.push r) := by
  have hnext := (ho.fresh r (ho.not_mem_of_entered hr)).1
  have hne : t ≠ r := by
    rintro rfl
    rw [h.owner] at hr
    cases hr
  obtain ⟨prev, hprev⟩ : ∃ prev, (v.last :: v.newer).getLast? = some prev := Option.isSome_iff_exists.1 (by simp)
  have hs : s.exchange r = { s with head := some r, order := s.order ++ [r] }.goto r (.link prev) := by
    rw [State.exchange, h.head, hprev]
  have hkeeps : Keeps s.next s.next s.pc (update s.pc r (.link prev)) := Keeps.goto (fun p => by rw [hr]; nofun) _
  have hhangs : Hangs s.next (update s.pc r (.link prev)) prev r := .inr ⟨hnext, update_self ..⟩
  rw [hs]
  refine ⟨?_, fun w q f hw => ?_, ?_, ?_, h.first, (h.stands.keeps hkeeps).push hprev hhangs,
    fun w p hw => ?_, h.cleared⟩
  · exact (update_of_ne hne _ _).trans h.owner
  · change update s.pc r _ w = _ at hw
    by_cases hwr : w = r
    · rw [hwr, update_self] at hw
      cases hw
    · rw [update_of_ne hwr] at hw
      exact h.alone w q f hw
  · show s.order ++ [r] = (v.push r).all
    rw [h.order]
    simp [View.all, View.push]
  · show some r = (v.last :: (v.newer ++ [r])).getLast?
    rw [← cons_append, getLast?_concat]
  · change update s.pc r _ w = _ at hw
    by_cases hwr : w = r
    · exact ⟨hwr ▸ mem_append_right _ (mem_singleton_self w), hwr ▸ hnext⟩
    · rw [update_of_ne hwr] at hw
      obtain ⟨hmem, hun⟩ := h.links w p hw
      exact ⟨mem_append_left _ hmem, hun⟩

/-! ## Without an owner -/

theorem Unowned.goto_other (h : Unowned s) (hown : ∀ q f, x ≠ .own q f)
    (hlink : ∀ p, x ≠ .link p) : Unowned (s.goto u x) := by
  refine ⟨fun w q f hw => ?_, h.head, fun w p hw => ?_⟩ <;>
    change update s.pc u x w = _ at hw <;> by_cases hwu : w = u
  · rw [hwu, update_self] at hw
    exact hown q f hw
  · rw [update_of_ne hwu] at hw
    exact h.alone w q f hw
  · rw [hwu, update_self] at hw
    exact hlink p hw
  · rw [update_of_ne hwu] at hw
    exact h.links w p hw

/-- **A request is swapped in and finds NULL:** its thread owns the right to write. -/
theorem Unowned.exchange (h : Unowned s) (r : Id) : Owned (s.exchange r) r r .setNull ⟨s.order, [], r, []⟩ := by
  have hs : s.exchange r = { s with head := some r, order := s.order ++ [r] }.goto r (.own r .setNull) := by
    rw [State.exchange, h.head]
  rw [hs]
  refine ⟨update_self .., fun w q f hw => ?_, rfl, rfl, rfl,
    ⟨rfl, isChain_singleton r⟩, fun w p hw => ?_, nofun⟩ <;>
    change update s.pc r _ w = _ at hw <;> by_cases hwr : w = r
  · exact hwr
  · rw [update_of_ne hwr] at hw
    exact absurd hw (h.alone w q f)
  · rw [hwr, update_self] at hw
    cases hw
  · rw [update_of_ne hwr] at hw
    exact absurd hw (h.links w p)

end Brpc.Socket
