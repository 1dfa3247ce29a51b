/-
# What a step of the owner can do

`Outcome` lists what a step of the owner does to the view, the data, the connection and the requests
returned; `Owned.outcome` says that every step does one of these, phase by phase.
-/

import Brpc.Socket.WriteView

namespace Brpc.Socket

open List Function
open Messenger (Bytes)

/-- What an owner is about: it has just got the right to write, it writes, or it
drops what there is. -/
inductive Kind
  | early
  | writing
  | failing

def Caller.kind : Caller → Kind
  | .fail => .failing
  | _ => .writing

def Phase.kind : Phase → Kind
  | .setNull | .begin => .early
  | .fail => .failing
  | .isComplete c _ | .reverse c .. | .linkOld c .. => c.kind
  | _ => .writing

/-- How many steps an owner can take at most before it puts bytes on the connection, returns a
request, takes newer ones over or gives up the right. -/
def Phase.rank (v : View) : Phase → ℕ
  | .linkOld .. => 1
  | .reverse _ _ _ p _ => v.newer.idxOf p + 2
  | .isComplete .fail _ => v.newer.length + 3
  | .fail => v.newer.length + 4
  | .doWrite _ | .write => v.newer.length + 5
  | .top _ => v.newer.length + 6
  | .isComplete _ _ | .connecting => v.newer.length + 7
  | .begin => v.newer.length + 8
  | .setNull => v.newer.length + 9
  | .findTail cur => v.newer.length + 8 + (v.mine.length - v.mine.idxOf cur)
  | .waitEpollOut _ => v.newer.length + 9 + v.mine.length
  | .release _ _ => v.newer.length + 10 + v.mine.length

/-- The owner is about to write to the connection. -/
def Phase.Puts (ph : Phase) : Prop := ph = .write ∨ ∃ tail, ph = .doWrite tail

theorem Phase.Puts.kind {ph : Phase} (h : ph.Puts) : ph.kind = .writing := by
  rcases h with rfl | ⟨tail, rfl⟩ <;> rfl

theorem Phase.Puts.rank {ph : Phase} (h : ph.Puts) (v : View) : Phase.fail.rank v < ph.rank v := by
  rcases h with rfl | ⟨tail, rfl⟩ <;> exact Nat.lt_succ_self _

/-- What a step of the owner `t` leaves: the data, the bytes put on the connection, the
requests returned and `_is_write_shutdown`. -/
structure Effect (s s' : State) (t : Id) (data : Id → Bytes) (out : Bytes)
    (finished : List (Id × Bool)) (flag : Bool) : Prop where
  pc : ∀ u, u ≠ t → s'.pc u = s.pc u
  order : s'.order = s.order
  next : ∀ r, r ∉ s.order → s'.next r = s.next r
  data : s'.data = data
  out : s'.out = out
  finished : s'.finished = finished
  flag : s'.isWriteShutdown = flag

theorem Effect.goto {s s₀ : State} {t : Id} {pc : Pc} (hpc : s₀.pc = s.pc)
    (horder : s₀.order = s.order) (hnext : s₀.next = s.next) :
    Effect s (s₀.goto t pc) t s₀.data s₀.out s₀.finished s₀.isWriteShutdown :=
  ⟨fun _ hu => (update_of_ne hu _ _).trans (congrFun hpc _), horder, fun _ _ => congrFun hnext _, rfl, rfl, rfl, rfl⟩

/-- The first request of the owner's list is through. -/
def View.advance (v : View) (req : Id) (f : List Id) : View :=
  { v with past := v.past ++ [req], front := f }

/-- The newer requests `batch`, up to `z`, are taken over. -/
def View.merge (v : View) (batch later : List Id) (z : Id) : View :=
  { v with front := v.front ++ v.last :: batch, last := z, newer := later }

/-- What a step of the owner at `ph` does. -/
inductive Outcome (call : Id → Call) (s : State) (t req : Id) (a : Answer) (v : View) :
    Phase → State → Prop
  /-- It spins until the thread of `p` has hung `p` under the request it found. -/
  | spin {ph : Phase} {p prev : Id} (hp : s.pc p = .link prev) : Outcome call s t req a v ph s
  /-- It moves on, or starts to fail. -/
  | quiet {ph ph' : Phase} {s' : State}
      (he : Effect s s' t s.data s.out s.finished s.isWriteShutdown) (ho : Owned s' t req ph' v)
      (hkind : ph'.kind = ph.kind ∨ ph'.kind = .failing) (hwrite : ph' ≠ .write)
      (hrank : ph'.rank v < ph.rank v) : Outcome call s t req a v ph s'
  /-- `StartWrite` goes on to write. -/
  | start {ph' : Phase} {s' : State} (hflag : s.isWriteShutdown = false) (hfront : v.front = [])
      (he : Effect s s' t s.data s.out s.finished (call req).shutdownWrite)
      (ho : Owned s' t req ph' v) (hkind : ph'.kind ≠ .early)
      (hrank : ph'.rank v < Phase.begin.rank v) : Outcome call s t req a v .begin s'
  /-- Bytes of the requests `ids` are put on the connection. -/
  | put {ph ph' : Phase} {s' : State} {ids : List Id} {flag : Bool} (hids : ids <+: v.mine)
      (hstop : ∀ pre r post, v.mine = pre ++ r :: post → (call r).shutdownWrite → ids <+: pre ++ [r])
      (hshut : ∀ r ∈ ids, (call r).shutdownWrite → flag = true ∨ ph = .write ∧ r = req)
      (hflag : s.isWriteShutdown = true → flag = true)
      (he : Effect s s' t (State.cut s.data a.bytes ids)
        (s.out ++ (State.left s.data ids).take a.bytes) s.finished flag)
      (ho : Owned s' t req ph' v) (hputs : ph.Puts) (hkind' : ph'.kind ≠ .early)
      (hwrite : ph' ≠ .write) (hfatal : a.result = .fatal → ph' = .fail) :
      Outcome call s t req a v ph s'
  /-- The first request is written and returned. -/
  | succeed {ph ph' : Phase} {s' : State} {q : Id} {f : List Id} (hfront : v.front = req :: f)
      (hdata : s.data req = [])
      (he : Effect s s' t s.data s.out (s.finished ++ [(req, true)]) s.isWriteShutdown)
      (ho : Owned s' t q ph' (v.advance req f)) (hkind : ph.kind = .writing)
      (hkind' : ph'.kind = if (call req).shutdownWrite then .failing else .writing)
      (hwrite : ph' ≠ .write) : Outcome call s t req a v ph s'
  /-- The first request is dropped. -/
  | drop {s' : State} {q : Id} {f : List Id} (hfront : v.front = req :: f)
      (he : Effect s s' t (update s.data req []) s.out (s.finished ++ [(req, false)]) s.isWriteShutdown)
      (ho : Owned s' t q .fail (v.advance req f)) : Outcome call s t req a v .fail s'
  /-- The last request of a list to drop is emptied. -/
  | clear {s' : State} (hfront : v.front = [])
      (he : Effect s s' t (update s.data req []) s.out s.finished s.isWriteShutdown)
      (ho : Owned s' t req (.isComplete .fail req) v) : Outcome call s t req a v .fail s'
  /-- Newer requests are taken over. -/
  | merge {ph ph' : Phase} {s' : State} {batch later : List Id} {z : Id}
      (hnewer : v.newer = batch ++ z :: later)
      (he : Effect s s' t s.data s.out s.finished s.isWriteShutdown)
      (ho : Owned s' t req ph' (v.merge batch later z)) (hkind : ph'.kind = ph.kind)
      (hwrite : ph' ≠ .write) : Outcome call s t req a v ph s'
  /-- The right to write is given up. -/
  | complete {c : Caller} {z : Id} {s' : State} (hfront : v.front = []) (hnewer : v.newer = [])
      (hdata : s.data v.last = []) (he : Effect s s' t s.data s.out s.finished s.isWriteShutdown)
      (hpc : s'.pc t = .leave v.last (c != .fail)) (ho : Unowned s') :
      Outcome call s t req a v (.isComplete c z) s'

variable {call : Id → Call} {s s' : State} {t req : Id} {a : Answer} {ph ph' : Phase} {v : View}

/-! ## The view after a step of the owner -/

section

variable (h : Owned s t req ph v)
include h

theorem Owned.first_cases : v.front = [] ∧ req = v.last ∨ ∃ f, v.front = req :: f := by
  have hfirst := h.first
  rw [View.mine] at hfirst
  cases hfront : v.front with
  | nil =>
    rw [hfront] at hfirst
    cases hfirst
    exact .inl ⟨rfl, rfl⟩
  | cons b f =>
    rw [hfront] at hfirst
    cases hfirst
    exact .inr ⟨f, rfl⟩

theorem Owned.req_eq (hfront : v.front = []) : req = v.last := by
  rcases h.first_cases with ⟨-, hreq⟩ | ⟨f, hf⟩
  · exact hreq
  · rw [hfront] at hf
    cases hf

theorem Owned.not_link (p : Id) : s.pc t ≠ .link p := by
  rw [h.owner]
  nofun

theorem Owned.nodup (ho : Orderly call s) : (v.front ++ v.last :: v.newer).Nodup := by
  have hnodup := ho.nodup
  rw [h.order, View.all] at hnodup
  exact (nodup_append.1 hnodup).2.1

theorem Owned.mem_order {r : Id} (hr : r ∈ v.front ++ v.last :: v.newer) : r ∈ s.order := by
  rw [h.order, View.all]
  exact mem_append_right _ hr

theorem Owned.mine_mem_order {r : Id} (hr : r ∈ v.mine) : r ∈ s.order := by
  refine h.mem_order ?_
  rw [View.mine, mem_append, mem_singleton] at hr
  rcases hr with hr | rfl
  · exact mem_append_left _ hr
  · exact mem_append_right _ mem_cons_self

theorem Owned.req_mem : req ∈ v.mine := mem_of_head? h.first

/-- **The owner moves on** to a view of the same exchanges. -/
theorem Owned.turn {req' : Id} {v' : View} (hpc : s'.pc = update s.pc t (.own req' ph')) (horder : s'.order = s.order)
    (hhead : s'.head = s.head) (hall : v'.all = v.all)
    (hnewest : (v'.last :: v'.newer).getLast? = (v.last :: v.newer).getLast?)
    (hfirst : v'.mine.head? = some req') (hat : ph'.At s'.next s.pc v')
    (hlinks : ∀ u ∈ v.newer, s.next u = .unconnected → u ∈ v'.newer ∧ s'.next u = .unconnected)
    (hcleared : ∀ z, ph' = .isComplete .fail z → s'.data z = []) : Owned s' t req' ph' v' where
  owner := by rw [hpc, update_self]
  alone u q f hu := by
    by_contra hne
    rw [hpc, update_of_ne hne] at hu
    exact hne (h.alone u q f hu)
  order := by rw [horder, h.order, hall]
  head := by rw [hhead, h.head, hnewest]
  first := hfirst
  stands := by
    rw [hpc]
    exact hat.keeps (Keeps.goto h.not_link _)
  links u prev hu := by
    by_cases hut : u = t
    · rw [hpc, hut, update_self] at hu
      cases hu
    · rw [hpc, update_of_ne hut] at hu
      obtain ⟨hmem, hun⟩ := h.links u prev hu
      exact hlinks u hmem hun
  cleared := hcleared

theorem Owned.move (hpc : s'.pc = update s.pc t (.own req ph'))
    (horder : s'.order = s.order) (hhead : s'.head = s.head) (hnext : s'.next = s.next)
    (hat : ph'.At s.next s.pc v) (hcleared : ∀ z, ph' = .isComplete .fail z → s'.data z = []) :
    Owned s' t req ph' v :=
  h.turn hpc horder hhead rfl rfl h.first (hnext ▸ hat) (fun _ hu hun => ⟨hu, hnext ▸ hun⟩) hcleared

theorem Owned.advance {q : Id} (htied : Tied s.next s.pc v)
    (hq : s.next req = .ptr q) (hpc : s'.pc = update s.pc t (.own q ph'))
    (horder : s'.order = s.order) (hhead : s'.head = s.head) (hnext : s'.next = s.next)
    (hcleared : ∀ z, ph' ≠ .isComplete .fail z)
    (hat : ∀ f, Tied s.next s.pc (v.advance req f) → ph'.At s.next s.pc (v.advance req f)) :
    ∃ f, v.front = req :: f ∧ Owned s' t q ph' (v.advance req f) := by
  have hmine := htied.mine
  rcases h.first_cases with ⟨hfront, hreq⟩ | ⟨f, hf⟩
  · rw [View.mine, hfront, nil_append, linked_singleton, ← hreq, hq] at hmine
    cases hmine
  · obtain ⟨b, g, hg⟩ : ∃ b g, f ++ [v.last] = b :: g := exists_cons_of_ne_nil (by simp)
    rw [View.mine, hf, cons_append, hg, linked_cons_cons, hq] at hmine
    obtain ⟨hqb, hrest⟩ := hmine
    cases hqb
    have htied' : Tied s.next s.pc (v.advance req f) := by
      refine ⟨?_, htied.newer⟩
      rw [View.mine, View.advance, hg]
      exact hrest
    refine ⟨f, hf, h.turn hpc horder hhead ?_ rfl ?_ (hnext ▸ hat f htied')
      (fun u hu hun => ⟨hu, hnext ▸ hun⟩) fun z hz => absurd hz (hcleared z)⟩
    · rw [View.all, View.all, View.advance, hf]
      simp
    · rw [View.mine, View.advance, hg, head?_cons]

end

/-! ## The owner in `StartWrite` and `KeepWrite` -/

open State

variable {call : Id → Call} {s : State} {t req : Id} {a : Answer} {ph ph' : Phase} {v : View} {next : Id → Next}

/-! ## The requests written together -/

theorem prefix_batch (n : ℕ) {r : Id} {l : List Id} (h : Linked next (r :: l)) : batch call next n r <+: r :: l := by
  induction n generalizing r l with
  | zero => exact nil_prefix
  | succ n ih =>
    rw [batch, cons_prefix_cons]
    refine ⟨rfl, ?_⟩
    split
    · exact nil_prefix
    · cases l with
      | nil => simp only [linked_singleton.1 h, prefix_rfl]
      | cons b l =>
        obtain ⟨hb, hl⟩ := linked_cons_cons.1 h
        simp only [hb]
        exact ih hl

theorem batch_stop (n : ℕ) {r x : Id} {l pre post : List Id} (h : Linked next (r :: l))
    (hsplit : r :: l = pre ++ x :: post) (hx : (call x).shutdownWrite) :
    batch call next n r <+: pre ++ [x] := by
  induction n generalizing r l pre with
  | zero => exact nil_prefix
  | succ n ih =>
    rw [batch]
    cases pre with
    | nil =>
      cases hsplit
      rw [if_pos hx]
      exact prefix_rfl
    | cons b pre =>
      rw [cons_append] at hsplit
      obtain ⟨rfl, rfl⟩ := cons.inj hsplit
      rw [cons_append, cons_prefix_cons]
      refine ⟨rfl, ?_⟩
      split
      · exact nil_prefix
      · obtain ⟨c, l, hl⟩ : ∃ c l, pre ++ x :: post = c :: l := exists_cons_of_ne_nil (by simp)
        rw [hl, linked_cons_cons] at h
        simp only [h.1]
        exact ih h.2 hl.symm

/-! ## Neighbours in the lists -/

theorem Linked.next_eq {l₁ l₂ : List Id} {cur : Id} (h : Linked next (l₁ ++ cur :: l₂)) :
    next cur = .ofOption l₂.head? := by
  induction l₁ with
  | nil =>
    cases l₂ with
    | nil => exact linked_singleton.1 h
    | cons => exact (linked_cons_cons.1 h).1
  | cons a l₁ ih =>
    obtain ⟨c, l, hl⟩ : ∃ c l, l₁ ++ cur :: l₂ = c :: l := exists_cons_of_ne_nil (by simp)
    rw [cons_append, hl, linked_cons_cons, ← hl] at h
    exact ih h.2

theorem idxOf_middle {l₁ l₂ : List Id} {x : Id} (h : (l₁ ++ x :: l₂).Nodup) : (l₁ ++ x :: l₂).idxOf x = l₁.length := by
  have hx : x ∉ l₁ := fun hmem =>
    (nodup_append.1 h).2.2 x hmem x mem_cons_self rfl
  rw [idxOf_append_of_notMem hx, idxOf_cons_self, Nat.add_zero]

theorem Stacked.last_hangs {pc : Id → Pc} {z p : Id} {l : List Id} (h : Stacked next pc (z :: (l ++ [p]))) :
    ∃ q, (z :: l).getLast? = some q ∧ Hangs next pc q p ∧ Stacked next pc (z :: l) := by
  rw [← cons_append] at h
  obtain ⟨hl, -, hlast⟩ := isChain_append.1 h
  obtain ⟨q, hq⟩ : ∃ q, (z :: l).getLast? = some q := Option.isSome_iff_exists.1 (by simp)
  exact ⟨q, hq, hlast q hq p rfl, hl⟩

/-! ## `StartWrite` -/

theorem Owned.outcome_setNull (h : Owned s t req .setNull v) (ho : Orderly call s) :
    Outcome call s t req a v .setNull ((s.setNext req .null).goto t (.own req .begin)) := by
  obtain ⟨hfront, hstacked⟩ := h.stands
  have hreq := h.req_eq hfront
  have hlast : v.last ∉ v.newer := (nodup_cons.1 (nodup_append.1 (h.nodup ho)).2.1).1
  have hmem : req ∈ s.order := h.mine_mem_order h.req_mem
  have hat : Phase.begin.At (update s.next req .null) s.pc v := by
    refine ⟨hfront, ?_, ?_⟩
    · rw [View.mine, hfront, nil_append, linked_singleton, hreq, update_self]
    · rw [hreq]
      exact hstacked.update hlast _
  refine .quiet ⟨fun _ hu => update_of_ne hu _ _, rfl, fun r hr => ?_, rfl, rfl, rfl, rfl⟩
    (h.turn rfl rfl rfl rfl rfl h.first hat (fun u hu hun => ⟨hu, ?_⟩) (by rintro _ ⟨⟩)) (.inl rfl) (by rintro ⟨⟩)
    (Nat.lt_succ_self _)
  · exact update_of_ne (ne_of_mem_of_not_mem hmem hr).symm _ _
  · exact (update_of_ne (hreq ▸ ne_of_mem_of_not_mem hu hlast) _ _).trans hun

theorem beginWrite_eq (hflag : s.isWriteShutdown = false) : ∃ ph' failed, s.beginWrite call t req a = { s with
      isWriteShutdown := (call req).shutdownWrite
      failed := failed }.goto t (.own req ph') ∧
    (ph' = .fail ∨ ph' = .connecting ∨ ph' = .top none ∨ ph' = .write) := by
  simp only [beginWrite, hflag]
  rcases a with ⟨connect, background, n, result, fails⟩
  cases connect with
  | failed => exact ⟨_, _, rfl, .inl rfl⟩
  | pending => exact ⟨_, _, rfl, .inr (.inl rfl)⟩
  | connected =>
    cases background with
    | true => exact ⟨_, _, rfl, .inr (.inr (.inl rfl))⟩
    | false => exact ⟨_, _, rfl, .inr (.inr (.inr rfl))⟩

theorem Owned.outcome_begin (h : Owned s t req .begin v) :
    Outcome call s t req a v .begin (s.beginWrite call t req a) := by
  obtain ⟨hfront, htied⟩ := h.stands
  by_cases hflag : s.isWriteShutdown = true
  · rw [beginWrite, if_pos hflag]
    refine .quiet (.goto rfl rfl rfl) (h.move rfl rfl rfl rfl htied nofun) (.inr rfl) nofun ?_
    simp only [Phase.rank]
    omega
  · have hflag' := Bool.eq_false_iff.2 hflag
    obtain ⟨ph', failed, hs, hph⟩ := @beginWrite_eq call s t req a hflag'
    have hat : ph'.At s.next s.pc v := by
      rcases hph with rfl | rfl | rfl | rfl
      · exact htied
      · exact ⟨hfront, htied⟩
      · exact ⟨htied, nofun⟩
      · exact ⟨hfront, htied⟩
    rw [hs]
    refine .start hflag' hfront (.goto rfl rfl rfl) (h.move rfl rfl rfl rfl hat ?_) ?_ ?_
    · rcases hph with rfl | rfl | rfl | rfl <;> nofun
    · rcases hph with rfl | rfl | rfl | rfl <;> nofun
    · rcases hph with rfl | rfl | rfl | rfl <;> simp only [Phase.rank] <;> omega

theorem Owned.outcome_connecting (h : Owned s t req .connecting v) :
    Outcome call s t req a v .connecting (s.afterConnect t req a) := by
  obtain ⟨-, htied⟩ := h.stands
  rw [afterConnect]
  split
  · refine .quiet (.goto rfl rfl rfl) (h.move rfl rfl rfl rfl htied nofun) (.inr rfl) nofun ?_
    simp only [Phase.rank]
    omega
  · refine .quiet (.goto rfl rfl rfl) (h.move rfl rfl rfl rfl ⟨htied, nofun⟩ nofun) (.inl rfl) nofun ?_
    simp only [Phase.rank]
    omega

theorem Owned.outcome_write (h : Owned s t req .write v) :
    Outcome call s t req a v .write (s.directWrite t req a) := by
  obtain ⟨hfront, htied⟩ := h.stands
  have hreq := h.req_eq hfront
  have hmine : v.mine = [req] := by rw [View.mine, hfront, hreq, nil_append]
  have hids : [req] <+: v.mine := by rw [hmine]
  have hstop : ∀ pre r post, v.mine = pre ++ r :: post → (call r).shutdownWrite → [req] <+: pre ++ [r] := by
    intro pre r post hsplit _
    rw [hmine] at hsplit
    cases pre with
    | nil =>
      obtain ⟨rfl, -⟩ := cons.inj hsplit
      exact prefix_rfl
    | cons =>
      have := (cons.inj hsplit).2
      simp at this
  have hshut : ∀ r ∈ [req], (call r).shutdownWrite →
      s.isWriteShutdown = true ∨ Phase.write = .write ∧ r = req := fun r hr _ =>
    .inr ⟨rfl, mem_singleton.1 hr⟩
  rw [directWrite]
  split
  · exact .put hids hstop hshut id (.goto rfl rfl rfl)
      (h.move rfl rfl rfl rfl htied (by rintro _ ⟨⟩)) (.inl rfl) (by rintro ⟨⟩) (by rintro ⟨⟩) (fun _ => rfl)
  · next hfatal =>
    exact .put hids hstop hshut id (.goto rfl rfl rfl)
      (h.move rfl rfl rfl rfl ⟨htied, hreq, .inr hfront⟩ (by rintro _ ⟨⟩)) (.inl rfl) (by rintro ⟨⟩) (by rintro ⟨⟩)
      (fun hf => absurd hf hfatal)

/-! ## `KeepWrite` -/

/-- A request of the owner's list that is written and not the last is returned, and shuts the
connection down for what comes after it. -/
theorem Owned.outcome_succeed (h : Owned s t req ph v) {q : Id} (htied : Tied s.next s.pc v)
    (hq : s.next req = .ptr q) (hdata : s.data req = []) (hkind : ph.kind = .writing)
    (hkind' : ph'.kind = .writing) (hwrite : ph' ≠ .write)
    (hat : ∀ f, Tied s.next s.pc (v.advance req f) → ph'.At s.next s.pc (v.advance req f)) :
    Outcome call s t req a v ph ((s.finish req true).goto t
      (.own q (if (call req).shutdownWrite then .fail else ph'))) := by
  cases hshut : (call req).shutdownWrite with
  | true =>
    obtain ⟨f, hf, ho⟩ : ∃ f, v.front = req :: f ∧
        Owned ((s.finish req true).goto t (.own q .fail)) t q .fail (v.advance req f) :=
      h.advance htied hq rfl rfl rfl rfl nofun fun _ => id
    refine .succeed hf hdata (.goto rfl rfl rfl) ho hkind ?_ nofun
    rw [hshut, if_pos rfl, Phase.kind]
  | false =>
    have hcleared : ∀ z, ph' ≠ .isComplete .fail z := by
      rintro z rfl
      cases hkind'
    obtain ⟨f, hf, ho⟩ : ∃ f, v.front = req :: f ∧
        Owned ((s.finish req true).goto t (.own q ph')) t q ph' (v.advance req f) :=
      h.advance htied hq rfl rfl rfl rfl hcleared hat
    refine .succeed hf hdata (.goto rfl rfl rfl) ho hkind ?_ hwrite
    rw [hshut, if_neg Bool.false_ne_true, hkind']

theorem Owned.outcome_goto (h : Owned s t req ph v) (hat : ph'.At s.next s.pc v)
    (hkind : ph'.kind = ph.kind ∨ ph'.kind = .failing) (hwrite : ph' ≠ .write)
    (hcleared : ∀ z, ph' ≠ .isComplete .fail z) (hrank : ph'.rank v < ph.rank v) :
    Outcome call s t req a v ph (s.goto t (.own req ph')) :=
  .quiet (.goto rfl rfl rfl) (h.move rfl rfl rfl rfl hat fun z hz => absurd hz (hcleared z)) hkind hwrite hrank

theorem Tied.next_ne (h : Tied s.next s.pc v) (ho : Owned s t req ph v) : s.next req ≠ .unconnected :=
  h.mine.connected ho.req_mem

variable {tail : Option Id}

theorem Owned.outcome_top (h : Owned s t req (.top tail) v) :
    Outcome call s t req a v (.top tail) (s.loopTop call t req tail) := by
  obtain ⟨htied, htail⟩ := h.stands
  have hgo : Outcome call s t req a v (.top tail) (s.goto t (.own req (.doWrite tail))) :=
    h.outcome_goto ⟨htied, htail⟩ (.inl rfl) nofun nofun (Nat.lt_succ_self _)
  rw [loopTop]
  cases hnext : s.next req with
  | unconnected => exact absurd hnext (htied.next_ne h)
  | null => exact hgo
  | ptr =>
    dsimp only
    split
    · next hdata =>
      exact h.outcome_succeed htied hnext hdata rfl rfl nofun fun f hf => ⟨hf, htail⟩
    · exact hgo

theorem Owned.outcome_doWrite (h : Owned s t req (.doWrite tail) v) :
    Outcome call s t req a v (.doWrite tail) (s.doWrite call t req tail a) := by
  obtain ⟨htied, htail⟩ := h.stands
  obtain ⟨l, hl⟩ : ∃ l, v.mine = req :: l := head?_eq_some_iff.1 h.first
  have hlinked := htied.mine
  rw [hl] at hlinked
  have hids : batch call s.next dataListMax req <+: v.mine := by
    rw [hl]
    exact prefix_batch _ hlinked
  have hstop : ∀ pre r post, v.mine = pre ++ r :: post → (call r).shutdownWrite →
      batch call s.next dataListMax req <+: pre ++ [r] := by
    intro pre r post hsplit hr
    exact batch_stop _ hlinked (hl.symm.trans hsplit) hr
  have hshut : ∀ r ∈ batch call s.next dataListMax req, (call r).shutdownWrite →
      (s.isWriteShutdown || (batch call s.next dataListMax req).any fun r =>
        (call r).shutdownWrite) = true ∨ Phase.doWrite tail = .write ∧ r = req := by
    intro r hr hs
    rw [Bool.or_eq_true, any_eq_true]
    exact .inl (.inr ⟨r, hr, hs⟩)
  have hflag : s.isWriteShutdown = true → (s.isWriteShutdown ||
      (batch call s.next dataListMax req).any fun r => (call r).shutdownWrite) = true :=
    fun hs => by rw [hs, Bool.true_or]
  rw [doWrite]
  split
  · exact .put hids hstop hshut hflag (.goto rfl rfl rfl)
      (h.move rfl rfl rfl rfl htied nofun) (.inr ⟨tail, rfl⟩) nofun nofun (fun _ => rfl)
  · next hfatal =>
    exact .put hids hstop hshut hflag (.goto rfl rfl rfl)
      (h.move rfl rfl rfl rfl ⟨htied, htail⟩ nofun) (.inr ⟨tail, rfl⟩) nofun nofun
      (fun hf => absurd hf hfatal)

theorem Tied.checkPhase_at (h : Tied s.next s.pc v) (hreq : req ∈ v.mine)
    (htail : ∀ z ∈ tail, z = v.last) : (checkPhase req tail).At s.next s.pc v := by
  cases tail with
  | none => exact ⟨h, hreq⟩
  | some z => exact ⟨h, htail z rfl, .inl rfl⟩

theorem rank_checkPhase (tail : Option Id) : (checkPhase req tail).rank v < v.newer.length + 9 + v.mine.length := by
  cases tail with
  | none | some =>
    simp only [checkPhase, Phase.rank]
    omega

theorem checkPhase_ne : (checkPhase req tail).kind = .writing ∧
    checkPhase req tail ≠ .write ∧ ∀ z, checkPhase req tail ≠ .isComplete .fail z := by
  cases tail with
  | none | some => exact ⟨rfl, nofun, nofun⟩

theorem Owned.outcome_release {waits : Bool} (h : Owned s t req (.release tail waits) v) :
    Outcome call s t req a v (.release tail waits) (s.releaseOne call t req tail waits) := by
  obtain ⟨htied, htail⟩ := h.stands
  have hgo : Outcome call s t req a v (.release tail waits) (s.goto t (.own req
      (if waits then .waitEpollOut tail else checkPhase req tail))) := by
    cases waits with
    | true =>
      refine h.outcome_goto ⟨htied, htail⟩ (.inl rfl) nofun nofun ?_
      simp only [Phase.rank, if_true]
      omega
    | false =>
      obtain ⟨hkind, hwrite, hcleared⟩ := @checkPhase_ne req tail
      refine h.outcome_goto (htied.checkPhase_at h.req_mem htail) (.inl hkind) hwrite hcleared ?_
      exact (rank_checkPhase tail).trans (by simp only [Phase.rank]; omega)
  rw [releaseOne]
  cases hnext : s.next req with
  | unconnected => exact absurd hnext (htied.next_ne h)
  | null => exact hgo
  | ptr =>
    dsimp only
    split
    · next hdata =>
      exact h.outcome_succeed htied hnext hdata rfl rfl nofun fun f hf => ⟨hf, htail⟩
    · exact hgo

theorem Owned.outcome_waitEpollOut (h : Owned s t req (.waitEpollOut tail) v) :
    Outcome call s t req a v (.waitEpollOut tail) (s.waitEpollOut t req tail a) := by
  obtain ⟨htied, htail⟩ := h.stands
  rw [waitEpollOut]
  split
  · refine .quiet (.goto rfl rfl rfl) (h.move rfl rfl rfl rfl htied nofun) (.inr rfl) nofun ?_
    simp only [Phase.rank]
    omega
  · obtain ⟨hkind, hwrite, hcleared⟩ := @checkPhase_ne req tail
    exact h.outcome_goto (htied.checkPhase_at h.req_mem htail) (.inl hkind) hwrite hcleared (rank_checkPhase tail)

theorem Owned.outcome_findTail {cur : Id} (h : Owned s t req (.findTail cur) v) (ho : Orderly call s) :
    Outcome call s t req a v (.findTail cur) (s.findTail t req cur) := by
  obtain ⟨htied, hcur⟩ := h.stands
  obtain ⟨l₁, l₂, hsplit⟩ := append_of_mem hcur
  have hlinked := htied.mine
  rw [hsplit] at hlinked
  have hnodup : v.mine.Nodup := by
    have hall := h.nodup ho
    rw [← singleton_append, ← append_assoc] at hall
    exact (nodup_append.1 hall).1
  rw [findTail, hlinked.next_eq]
  cases l₂ with
  | nil =>
    have hlast : cur = v.last := by
      have := congrArg getLast? hsplit
      rw [View.mine, getLast?_concat, getLast?_concat] at this
      exact (Option.some.inj this).symm
    refine h.outcome_goto ⟨htied, hlast, .inl rfl⟩ (.inl rfl) (by rintro ⟨⟩) (by rintro _ ⟨⟩) ?_
    simp only [Phase.rank]
    omega
  | cons q =>
    have hq : q ∈ v.mine := by simp [hsplit]
    refine h.outcome_goto ⟨htied, hq⟩ (.inl rfl) (by rintro ⟨⟩) (by rintro _ ⟨⟩) ?_
    have hidx : v.mine.idxOf cur = l₁.length := by
      rw [hsplit] at hnodup ⊢
      exact idxOf_middle hnodup
    have hidx' : v.mine.idxOf q = l₁.length + 1 := by
      rw [← singleton_append, ← append_assoc] at hsplit
      rw [hsplit] at hnodup ⊢
      rw [idxOf_middle hnodup, length_append, length_singleton]
    have hlength : l₁.length + 1 < v.mine.length := by
      rw [hsplit, length_append, length_cons, length_cons]
      omega
    simp only [Phase.rank]
    omega

end Brpc.Socket
