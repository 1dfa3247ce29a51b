/-
# Every step keeps the invariant of the write queue

The steps of the owner by its outcomes (`Held.inv`), those of the other threads by what they do, and
all steps (`Inv.step`) on one condition: a request that finds NULL in `_write_head` although one was
dropped before it must find `_is_write_shutdown` set (`StepFits`).
-/

import Brpc.Socket.WriteHeld

namespace Brpc.Socket

open List Function
open Messenger (Bytes)
open State (left cut)

variable {call : Id → Call} {s s' : State} {t u req r : Id} {a : Answer} {ph ph' : Phase} {v : View}
  {data : Id → Bytes} {out : Bytes} {finished : List (Id × Bool)} {flag : Bool} {x : Pc}

/-! ## Steps of the owner -/

theorem Owned.not_leave (h : Owned s t req ph v) (q : Id) (ok : Bool) : s.pc t ≠ .leave q ok := by
  rw [h.owner]
  nofun

section

variable (he : Effect s s' t data out finished flag)
include he

theorem Effect.pc_eq (hx : s'.pc t = x) : s'.pc = update s.pc t x := by
  funext u
  by_cases hu : u = t
  · rw [hu, hx, update_self]
  · rw [he.pc u hu, update_of_ne hu]

theorem Effect.orderly (h : Owned s t req ph v)
    (ho : Orderly call s) (hx : s'.pc t = x) (hidle : x ≠ .idle) (hentered : x ≠ .entered)
    (hbroken : x ≠ .broken) (hdata : ∀ r, r ∉ s.order → data r = s.data r) : Orderly call s' := by
  have ht : t ∈ s.order := ho.mem_of_pc (by rw [h.owner]; nofun) (by rw [h.owner]; nofun)
  refine ho.moved ht (he.pc_eq hx) hidle hentered hbroken he.order fun w hw => ⟨he.next w hw, ?_⟩
  rw [he.data, hdata w hw]

theorem Effect.leave_iff (h : Owned s t req ph v) (ht : ∀ q b, s'.pc t ≠ .leave q b) (u q : Id) (ok : Bool) :
    s'.pc u = .leave q ok ↔ s.pc u = .leave q ok :=
  Socket.leave_iff he.pc h.not_leave ht u q ok

end

theorem Account.turn (h : Account call s) (he : Effect s s' t data out finished flag)
    (ho : Owned s t req ph v) (horderly : Orderly call s') (hout : s.out <+: out)
    (hbound : out <+: bytes call (upToShutdown call s.order))
    (hret : ∀ r, Returns s' r true → Returns s r true ∨
      ∃ earlier later, s.order = earlier ++ r :: later ∧ bytes call (earlier ++ [r]) <+: out) :
    Account call s' where
  toOrderly := horderly
  accepted r hr := by
    refine h.accepted r ?_
    by_cases hrt : r = t
    · rw [hrt, ho.owner]
      nofun
    · rwa [he.pc r hrt] at hr
  bound := by rw [he.out, he.order]; exact hbound
  successful r hr := by
    rw [he.order, he.out]
    rcases hret r hr with hold | hnew
    · obtain ⟨earlier, later, hsplit, hwritten⟩ := h.successful r hold
      exact ⟨earlier, later, hsplit, hwritten.trans hout⟩
    · exact hnew

section

variable (h : Held call s t req ph v)
include h

theorem Held.not_mem_past (ho : Orderly call s) {l : List Id} (hrest : v.rest = req :: l) : req ∉ v.past := by
  intro hmem
  have hnodup := ho.nodup
  rw [h.order, View.all] at hnodup
  have hreq : req ∈ v.rest := by rw [hrest]; exact mem_cons_self
  exact (nodup_append.1 hnodup).2.2 req hmem req hreq rfl

theorem Held.past_subset (r : Id) (hr : r ∈ v.past) : r ∈ s.order := by
  rw [h.order, View.all]
  exact mem_append_left _ hr

omit h in
theorem Account.quiet (h : Account call s) (ho : Owned s t req ph v)
    (he : Effect s s' t data s.out s.finished flag) (hdata : ∀ r, r ∉ s.order → data r = s.data r)
    {req' : Id} {v' : View} (ho' : Owned s' t req' ph' v') : Account call s' :=
  h.turn he ho (he.orderly ho h.toOrderly ho'.owner nofun nofun nofun hdata) prefix_rfl h.bound
    fun _ hr => .inl ((returns_iff he.finished (he.leave_iff ho ho'.not_leave)).1 hr)

theorem Held.quiet {v' : View}
    (he : Effect s s' t s.data s.out s.finished s.isWriteShutdown) (ho : Owned s' t req ph' v')
    (hpast : v'.past = v.past) (hrest : v'.rest = v.rest)
    (hkind : ph'.kind = ph.kind ∨ ph'.kind = .failing) (hwrite : ph' ≠ .write) : Held call s' t req ph' v' := by
  have hsame : Writing call s v → Writing call s' v' := fun hw =>
    hw.same hpast hrest he.data he.out he.flag.trans
  refine ⟨ho, ?_, ?_, fun hw => ?_, fun hw => ?_, fun hw => absurd hw hwrite⟩
  · rw [hpast]
    exact h.once.same he.finished (he.leave_iff h.toOwned ho.not_leave)
  · rw [hrest, he.data]
    exact h.suffix
  · rcases hkind with hkind | hkind
    · exact hsame (h.writing (hkind ▸ hw))
    · rw [hkind] at hw
      cases hw
  · rcases hkind with hkind | hkind
    · exact (h.early (hkind ▸ hw)).imp (he.flag.trans) hsame
    · rw [hkind] at hw
      cases hw

omit h in
theorem Held.start (h : Held call s t req .begin v) (hflag : s.isWriteShutdown = false)
    (he : Effect s s' t s.data s.out s.finished (call req).shutdownWrite)
    (ho : Owned s' t req ph' v) (hkind : ph'.kind ≠ .early) : Held call s' t req ph' v := by
  have hwriting := (h.early rfl).resolve_left (by rw [hflag]; exact Bool.false_ne_true)
  refine ⟨ho, h.once.same he.finished (he.leave_iff h.toOwned ho.not_leave), ?_, fun _ => ?_,
    fun hw => absurd hw hkind, fun _ hshut => he.flag.trans hshut⟩
  · rw [he.data]
    exact h.suffix
  · exact hwriting.same rfl rfl he.data he.out fun hf => by
      rw [hflag] at hf
      cases hf

theorem Held.put (hacc : Account call s) {ids : List Id} (hids : ids <+: v.mine)
    (hstop : ∀ pre r post, v.mine = pre ++ r :: post → (call r).shutdownWrite → ids <+: pre ++ [r])
    (hshut : ∀ r ∈ ids, (call r).shutdownWrite → flag = true ∨ ph = .write ∧ r = req)
    (hflag : s.isWriteShutdown = true → flag = true)
    (he : Effect s s' t (cut s.data a.bytes ids) (s.out ++ (left s.data ids).take a.bytes) s.finished flag)
    (ho : Owned s' t req ph' v) (hkind : ph.kind = .writing) (hkind' : ph'.kind ≠ .early)
    (hwrite : ph' ≠ .write) : Account call s' ∧ Held call s' t req ph' v := by
  have hown := h.toOwned
  have hleave := he.leave_iff hown ho.not_leave
  have hnodup : v.rest.Nodup := hown.nodup hacc.toOrderly
  have hidsnd : ids.Nodup := by
    rw [View.rest_eq_mine] at hnodup
    exact (nodup_append.1 hnodup).1.sublist hids.sublist
  have hwriting : Writing call s' v := by
    refine (h.writing hkind).put hnodup hids hstop (fun r hr hr' => ?_)
      (fun hf => he.flag.trans (hflag hf)) he.data he.out
    rcases hshut r hr hr' with hf | ⟨hph, hreq⟩
    · exact he.flag.trans hf
    · subst hreq
      exact he.flag.trans (hflag (h.direct hph hr'))
  have hbound := hwriting.bound
  have horder : s.order = v.past ++ v.rest := h.order
  rw [he.out, ← horder] at hbound
  have horderly := he.orderly hown hacc.toOrderly ho.owner nofun nofun nofun fun r hr =>
    cut_of_not_mem fun hin => hr (hown.mine_mem_order (hids.subset hin))
  refine ⟨hacc.turn he hown horderly (prefix_append _ _) hbound
    fun r hr => .inl ((returns_iff he.finished hleave).1 hr), ho, h.once.same he.finished hleave,
    fun r hr => ?_, fun _ => hwriting, fun hw => absurd hw hkind', fun hw => absurd hw hwrite⟩
  rw [he.data]
  exact (cut_suffix hidsnd r).trans (h.suffix r hr)

theorem Held.succeed (hacc : Account call s) {q : Id} {f : List Id}
    (hfront : v.front = req :: f) (hdata : s.data req = [])
    (he : Effect s s' t s.data s.out (s.finished ++ [(req, true)]) s.isWriteShutdown)
    (ho : Owned s' t q ph' (v.advance req f)) (hkind : ph.kind = .writing)
    (hkind' : ph'.kind = if (call req).shutdownWrite then .failing else .writing)
    (hwrite : ph' ≠ .write) : Account call s' ∧ Held call s' t q ph' (v.advance req f) := by
  have hown := h.toOwned
  have hleave := he.leave_iff hown ho.not_leave
  have hrest := View.rest_advance hfront
  have hwritten := (h.writing hkind).returned hrest hdata h.suffix
  have horder : s.order = v.past ++ v.rest := h.order
  have horderly := he.orderly hown hacc.toOrderly ho.owner nofun nofun nofun fun _ _ => rfl
  refine ⟨hacc.turn he hown horderly prefix_rfl hacc.bound fun r hr => ?_, ho,
    h.once.returned (h.not_mem_past hacc.toOrderly hrest) he.finished hleave, fun r hr => ?_,
    fun hw => ?_, fun hw => ?_, fun hw => absurd hw hwrite⟩
  · rw [Returns, he.finished, mem_append, mem_singleton] at hr
    simp only [hleave] at hr
    rcases hr with (hr | hr) | hr
    · exact .inl (.inl hr)
    · cases hr
      exact .inr ⟨v.past, _, by rw [horder, hrest], hwritten⟩
    · exact .inl (.inr hr)
  · rw [he.data]
    exact h.suffix r (by rw [hrest]; exact mem_cons_of_mem _ hr)
  · cases hshut : (call req).shutdownWrite with
    | true =>
      rw [hkind', hshut, if_pos rfl] at hw
      cases hw
    | false => exact (h.writing hkind).advance hfront hdata hshut he.data he.out he.flag
  · rw [hkind'] at hw
    split at hw <;> cases hw

theorem Held.suffix_clear (hr : r ∈ v.rest) : update s.data req [] r <:+ (call r).data := by
  by_cases hrr : r = req
  · rw [hrr, update_self]
    exact nil_suffix
  · rw [update_of_ne hrr]
    exact h.suffix r hr

end

theorem Held.drop (h : Held call s t req .fail v) (hacc : Account call s) {q : Id} {f : List Id}
    (hfront : v.front = req :: f)
    (he : Effect s s' t (update s.data req []) s.out (s.finished ++ [(req, false)])
      s.isWriteShutdown) (ho : Owned s' t q .fail (v.advance req f)) :
    Account call s' ∧ Held call s' t q .fail (v.advance req f) := by
  have hown := h.toOwned
  have hleave := he.leave_iff hown ho.not_leave
  have hrest := View.rest_advance hfront
  have hreq : req ∈ s.order := hown.mine_mem_order hown.req_mem
  have horderly := he.orderly hown hacc.toOrderly ho.owner nofun nofun nofun fun r hr =>
    update_of_ne (ne_of_mem_of_not_mem hreq hr).symm _ _
  refine ⟨hacc.turn he hown horderly prefix_rfl hacc.bound fun r hr => .inl ?_, ho,
    h.once.returned (h.not_mem_past hacc.toOrderly hrest) he.finished hleave, fun r hr => ?_,
    nofun, nofun, nofun⟩
  · rw [Returns, he.finished, mem_append, mem_singleton] at hr
    simp only [hleave] at hr
    rcases hr with (hr | hr) | hr
    · exact .inl hr
    · cases hr
    · exact .inr hr
  · rw [he.data]
    exact h.suffix_clear (by rw [hrest]; exact mem_cons_of_mem _ hr)

theorem Held.clear (h : Held call s t req .fail v) (hacc : Account call s)
    (he : Effect s s' t (update s.data req []) s.out s.finished s.isWriteShutdown)
    (ho : Owned s' t req (.isComplete .fail req) v) :
    Account call s' ∧ Held call s' t req (.isComplete .fail req) v := by
  have hown := h.toOwned
  have hreq : req ∈ s.order := hown.mine_mem_order hown.req_mem
  refine ⟨hacc.quiet hown he (fun r hr =>
      update_of_ne (ne_of_mem_of_not_mem hreq hr).symm _ _) ho, ho,
    h.once.same he.finished (he.leave_iff hown ho.not_leave), fun r hr => ?_, nofun, nofun, nofun⟩
  rw [he.data]
  exact h.suffix_clear hr

/-- A list that is written leaves nothing to write, and `_is_write_shutdown` set if its
last request asked for it. -/
theorem Writing.complete (h : Writing call s v) (hacc : Account call s)
    (horder : s.order = v.past ++ [v.last]) (hrest : v.rest = [v.last])
    (hdata : s.data v.last = []) : s.out = bytes call s.order ∧
      (s.isWriteShutdown = true ∨ ∀ r ∈ s.order, (call r).shutdownWrite = false) := by
  have hwhole := h.whole
  rw [hrest, left_cons, hdata, left_nil, append_nil, append_nil, ← bytes_append] at hwhole
  refine ⟨by rw [horder, hwhole], ?_⟩
  cases hshut : (call v.last).shutdownWrite with
  | true =>
    have hne : s.data v.last ≠ (call v.last).data := by
      rw [hdata]
      refine (hacc.accepted v.last ?_ hshut).symm
      exact ((hacc.exchanged v.last).1 (by rw [horder]; simp)).1
    exact .inl (h.flagged v.last (by rw [hrest]; exact mem_singleton_self _) hshut hne)
  | false =>
    refine .inr fun r hr => ?_
    rw [horder, mem_append, mem_singleton] at hr
    rcases hr with hr | rfl
    · exact h.opened r hr
    · exact hshut

theorem Held.complete {c : Caller} {z : Id} (h : Held call s t req (.isComplete c z) v)
    (hacc : Account call s) (hfront : v.front = []) (hnewer : v.newer = [])
    (hdata : s.data v.last = []) (he : Effect s s' t s.data s.out s.finished s.isWriteShutdown)
    (hpc : s'.pc t = .leave v.last (c != .fail)) (ho : Unowned s') : Account call s' ∧ Rest call s' := by
  have hown := h.toOwned
  have hrest : v.rest = [v.last] := by rw [View.rest, hfront, hnewer, nil_append]
  have hreq := hown.req_eq hfront
  have hnot : v.last ∉ v.past := hreq ▸ h.not_mem_past hacc.toOrderly (hreq ▸ hrest)
  have horder : s.order = v.past ++ [v.last] := hrest ▸ h.order
  have honce := h.once.given_up hnot he.finished he.pc hown.not_leave hpc
  rw [← horder, ← he.order] at honce
  have hkind : (c != .fail) = true → (Phase.isComplete c z).kind = .writing := by
    intro hc
    cases c with
    | fail => cases hc
    | start | keep => rfl
  have horderly := he.orderly hown hacc.toOrderly hpc (by rintro ⟨⟩) (by rintro ⟨⟩) (by rintro ⟨⟩) fun _ _ => rfl
  refine ⟨hacc.turn he hown horderly prefix_rfl hacc.bound fun r hr => ?_, ho, honce, ?_⟩
  · rcases hr with hr | ⟨w, hw⟩
    · rw [he.finished] at hr
      exact .inl (.inl hr)
    · by_cases hwt : w = t
      · rw [hwt, hpc] at hw
        obtain ⟨rfl, hc⟩ := Pc.leave.inj hw
        exact .inr ⟨v.past, [], horder, (h.writing (hkind hc)).returned hrest hdata h.suffix⟩
      · rw [he.pc w hwt] at hw
        exact .inl (.inr ⟨w, hw⟩)
  · cases hc : (c != .fail) with
    | false => exact .inl ⟨v.last, .inr ⟨t, hc ▸ hpc⟩⟩
    | true =>
      rw [he.out, he.order, he.flag]
      exact .inr ((h.writing (hkind hc)).complete hacc horder hrest hdata)

/-- **The steps of the owner keep the invariant.** -/
theorem Held.inv (h : Held call s t req ph v) (hacc : Account call s)
    (hout : Outcome call s t req a v ph s') : Inv call s' := by
  have hown := h.toOwned
  cases hout with
  | spin => exact ⟨hacc, .inl ⟨t, req, ph, v, h⟩⟩
  | quiet he ho hkind hwrite =>
    exact ⟨hacc.quiet hown he (fun _ _ => rfl) ho, .inl ⟨t, req, _, v, h.quiet he ho rfl rfl hkind hwrite⟩⟩
  | start hflag _ he ho hkind =>
    exact ⟨hacc.quiet hown he (fun _ _ => rfl) ho, .inl ⟨t, req, _, v, h.start hflag he ho hkind⟩⟩
  | put hids hstop hshut hflag he ho hputs hkind' hwrite =>
    obtain ⟨hacc', h'⟩ := h.put hacc hids hstop hshut hflag he ho hputs.kind hkind' hwrite
    exact ⟨hacc', .inl ⟨t, req, _, v, h'⟩⟩
  | succeed hfront hdata he ho hkind hkind' hwrite =>
    obtain ⟨hacc', h'⟩ := h.succeed hacc hfront hdata he ho hkind hkind' hwrite
    exact ⟨hacc', .inl ⟨t, _, _, _, h'⟩⟩
  | drop hfront he ho =>
    obtain ⟨hacc', h'⟩ := h.drop hacc hfront he ho
    exact ⟨hacc', .inl ⟨t, _, _, _, h'⟩⟩
  | clear _ he ho =>
    obtain ⟨hacc', h'⟩ := h.clear hacc he ho
    exact ⟨hacc', .inl ⟨t, _, _, _, h'⟩⟩
  | merge hnewer he ho hkind hwrite =>
    exact ⟨hacc.quiet hown he (fun _ _ => rfl) ho,
      .inl ⟨t, req, _, _, h.quiet he ho rfl (View.rest_merge hnewer) (.inl hkind) hwrite⟩⟩
  | complete hfront hnewer hdata he hpc ho =>
    obtain ⟨hacc', h'⟩ := h.complete hacc hfront hnewer hdata he hpc ho
    exact ⟨hacc', .inr h'⟩

open State (left)

variable {call : Id → Call} {s s' : State} {t u req r : Id} {a : Answer} {ph : Phase} {v : View} {x : Pc}

/-- The condition on a step: a request that gets the right to write comes before any was dropped,
or finds the connection shut down for writing; and a message that shuts it down is not empty. -/
def StepFits (call : Id → Call) (s : State) : Input → Prop
  | .write r => (call r).shutdownWrite = true → (call r).data ≠ []
  | .run t _ => s.pc t = .entered → s.head = none → ¬Dirty s ∨ s.isWriteShutdown = true
  | .setFailed => True

/-! ## What another thread leaves as it is -/

/-- A step of a thread that is not the owner writes nothing. -/
structure Aside (s s' : State) : Prop where
  data : s'.data = s.data
  out : s'.out = s.out
  flag : s'.isWriteShutdown = s.isWriteShutdown

theorem Held.aside (h : Held call s t req ph v) (ho : Owned s' t req ph v) (hs : Aside s s')
    (honce : Once s' v.past) : Held call s' t req ph v where
  toOwned := ho
  once := honce
  suffix := by rw [hs.data]; exact h.suffix
  writing hw := (h.writing hw).same rfl rfl hs.data hs.out hs.flag.trans
  early hw := (h.early hw).imp (hs.flag.trans) fun hwriting =>
    hwriting.same rfl rfl hs.data hs.out hs.flag.trans
  direct hw hshut := hs.flag.trans (h.direct hw hshut)

theorem Rest.aside (h : Rest call s) (ho : Unowned s') (hs : Aside s s')
    (horder : s'.order = s.order) (honce : Once s' s'.order) (hret : ∀ r, Returns s r false →
      Returns s' r false) : Rest call s' where
  toUnowned := ho
  once := honce
  written := by
    rw [hs.out, hs.flag, horder]
    exact h.written.imp (fun ⟨r, hr⟩ => ⟨r, hret r hr⟩) id

theorem Account.aside (h : Account call s) (ho : Orderly call s') (hs : Aside s s')
    (hacc : ∀ r, s'.pc r ≠ .idle → (call r).shutdownWrite = true → (call r).data ≠ [])
    (horder : s.order <+: s'.order) (hret : ∀ r, Returns s' r true → Returns s r true) : Account call s' where
  toOrderly := ho
  accepted := hacc
  bound := by
    obtain ⟨more, hmore⟩ := horder
    rw [hs.out, ← hmore]
    exact h.bound.trans (bytes_mono (upToShutdown_mono more))
  successful r hr := by
    obtain ⟨earlier, later, hsplit, hwritten⟩ := h.successful r (hret r hr)
    obtain ⟨more, hmore⟩ := horder
    exact ⟨earlier, later ++ more, by rw [← hmore, hsplit]; simp, by rw [hs.out]; exact hwritten⟩

theorem Account.accepted_goto (h : Account call s) (hu : s.pc u ≠ .idle) (r : Id)
    (hr : update s.pc u x r ≠ .idle) (hshut : (call r).shutdownWrite = true) : (call r).data ≠ [] := by
  refine h.accepted r ?_ hshut
  by_cases hru : r = u
  · rw [hru]
    exact hu
  · rwa [update_of_ne hru] at hr

theorem goto_leave_iff (hu : ∀ q b, s.pc u ≠ .leave q b) (hx : ∀ q b, x ≠ .leave q b)
    (w q : Id) (ok : Bool) : update s.pc u x w = .leave q ok ↔ s.pc w = .leave q ok := by
  by_cases hw : w = u
  · rw [hw, update_self]
    exact iff_of_false (hx q ok) (hu q ok)
  · rw [update_of_ne hw]

/-! ## The steps -/

theorem Inv.write (h : Inv call s) (hfit : (call r).shutdownWrite = true → (call r).data ≠ []) :
    Inv call (s.write call r) := by
  rw [State.write]
  split
  · next hidle =>
    have hr := hidle.1
    have hs : Aside s (s.goto r .entered) := ⟨rfl, rfl, rfl⟩
    have hleave : ∀ w q ok, (s.goto r .entered).pc w = .leave q ok ↔ s.pc w = .leave q ok :=
      goto_leave_iff (fun q b => by rw [hr]; nofun) nofun
    have hret : ∀ q b, Returns (s.goto r .entered) q b ↔ Returns s q b := fun _ _ => returns_iff rfl hleave
    obtain ⟨hacc, hcases⟩ := h
    refine ⟨hacc.aside (hacc.toOrderly.write hr) hs (fun q hq hshut => ?_) prefix_rfl
      fun q hq => (hret q true).1 hq, ?_⟩
    · by_cases hqr : q = r
      · rw [hqr] at hshut ⊢
        exact hfit hshut
      · change update s.pc r _ q ≠ _ at hq
        rw [update_of_ne hqr] at hq
        exact hacc.accepted q hq hshut
    · rcases hcases with ⟨t, req, ph, v, hheld⟩ | hrest
      · exact .inl ⟨t, req, ph, v, hheld.aside
          (hheld.toOwned.goto_other (fun q f => by rw [hr]; nofun) (fun p => by rw [hr]; nofun) nofun
            nofun) hs (hheld.once.same rfl hleave)⟩
      · exact .inr (hrest.aside (hrest.toUnowned.goto_other nofun nofun) hs rfl
          (hrest.once.same rfl hleave) fun q hq => (hret q false).2 hq)
  · exact h

theorem Inv.setFailed (h : Inv call s) : Inv call { s with failed := true } := by
  obtain ⟨hacc, hcases⟩ := h
  refine ⟨⟨{ hacc with }, hacc.accepted, hacc.bound, hacc.successful⟩, ?_⟩
  rcases hcases with ⟨t, req, ph, v, h⟩ | h
  · exact .inl ⟨t, req, ph, v, h.aside { h with } ⟨rfl, rfl, rfl⟩ (h.once.same rfl fun _ _ _ => Iff.rfl)⟩
  · exact .inr (h.aside { h with } ⟨rfl, rfl, rfl⟩ rfl (h.once.same rfl fun _ _ _ => Iff.rfl) fun _ => id)

theorem Account.exchange (h : Account call s) (hr : s.pc r = .entered) :
    Account call (s.exchange r) ∧ Aside s (s.exchange r) ∧ (s.exchange r).finished = s.finished ∧
      ∀ w q ok, (s.exchange r).pc w = .leave q ok ↔ s.pc w = .leave q ok := by
  have hidle : s.pc r ≠ .idle := by rw [hr]; rintro ⟨⟩
  obtain ⟨x, hx, hleave⟩ : ∃ x, s.exchange r =
      { s with head := some r, order := s.order ++ [r] }.goto r x ∧ ∀ q b, x ≠ .leave q b := by
    rw [State.exchange]
    cases s.head with
    | none | some => exact ⟨_, rfl, by rintro _ _ ⟨⟩⟩
  have horderly := h.toOrderly.exchange hr
  rw [hx] at horderly ⊢
  have hiff : ∀ w q ok, update s.pc r x w = .leave q ok ↔ s.pc w = .leave q ok :=
    goto_leave_iff (fun q b => by rw [hr]; rintro ⟨⟩) hleave
  have hret : ∀ q, Returns ({ s with head := some r, order := s.order ++ [r] }.goto r x) q true ↔
      Returns s q true := fun q => returns_iff rfl hiff
  exact ⟨h.aside horderly ⟨rfl, rfl, rfl⟩ (h.accepted_goto hidle) (prefix_append _ _)
    fun q => (hret q).1, ⟨rfl, rfl, rfl⟩, rfl, hiff⟩

theorem Held.exchange (h : Held call s t req ph v) (hacc : Account call s) (hr : s.pc r = .entered) :
    Held call (s.exchange r) t req ph (v.push r) := by
  obtain ⟨-, hs, hfin, hleave⟩ := hacc.exchange hr
  have hfresh := (hacc.fresh r (hacc.not_mem_of_entered hr)).2
  refine ⟨h.toOwned.exchange hacc.toOrderly hr, h.once.same hfin hleave, fun q hq => ?_,
    fun hw => (h.writing hw).push hfresh hs.data hs.out hs.flag, fun hw => ?_,
    fun hw hshut => hs.flag.trans (h.direct hw hshut)⟩
  · rw [hs.data]
    rw [View.rest_push, mem_append, mem_singleton] at hq
    rcases hq with hq | rfl
    · exact h.suffix q hq
    · rw [hfresh]
  · exact (h.early hw).imp (hs.flag.trans) fun hwriting =>
      hwriting.push hfresh hs.data hs.out hs.flag

/-- **A request is swapped in and finds NULL.**  All other requests are written, or it
will be dropped. -/
theorem Rest.exchange (h : Rest call s) (hacc : Account call s) (hr : s.pc r = .entered)
    (hfit : ¬Dirty s ∨ s.isWriteShutdown = true) :
    Held call (s.exchange r) r r .setNull ⟨s.order, [], r, []⟩ := by
  obtain ⟨-, hs, hfin, hleave⟩ := hacc.exchange hr
  have hfresh := (hacc.fresh r (hacc.not_mem_of_entered hr)).2
  refine ⟨h.toUnowned.exchange r, h.once.same hfin hleave, fun q hq => ?_, nofun, fun _ => ?_, nofun⟩
  · obtain rfl : q = r := mem_singleton.1 hq
    rw [hs.data, hfresh]
  · rw [hs.flag]
    by_cases hflag : s.isWriteShutdown = true
    · exact .inl hflag
    · obtain ⟨hout, hopen⟩ := h.written.resolve_left (hfit.resolve_right hflag)
      refine .inr ⟨?_, ?_, fun q hq _ hne => ?_, hopen.resolve_left hflag⟩
      · show (s.exchange r).out ++ left (s.exchange r).data [r] = bytes call s.order ++ bytes call [r]
        rw [hs.out, hs.data, hout, left_cons, hfresh]
        rfl
      · intro pre q post hsplit _ w hw
        have hlength := congrArg List.length hsplit
        have hpos := length_pos_of_mem hw
        simp [View.rest] at hlength
        omega
      · obtain rfl : q = r := mem_singleton.1 hq
        rw [hs.data, hfresh] at hne
        exact absurd rfl hne

theorem Inv.exchange (h : Inv call s) (hr : s.pc r = .entered)
    (hfit : s.head = none → ¬Dirty s ∨ s.isWriteShutdown = true) : Inv call (s.exchange r) := by
  obtain ⟨hacc, ⟨t, req, ph, v, h⟩ | h⟩ := h
  · exact ⟨(hacc.exchange hr).1, .inl ⟨t, req, ph, _, h.exchange hacc hr⟩⟩
  · exact ⟨(hacc.exchange hr).1, .inl ⟨r, r, _, _, h.exchange hacc hr (hfit h.head)⟩⟩

theorem Inv.link (h : Inv call s) {prev : Id} (hu : s.pc u = .link prev) :
    Inv call ((s.setNext u (.ptr prev)).goto u .done) := by
  obtain ⟨hacc, hcases⟩ := h
  have hs : Aside s ((s.setNext u (.ptr prev)).goto u .done) := ⟨rfl, rfl, rfl⟩
  have hmem : u ∈ s.order := hacc.mem_of_pc (by rw [hu]; nofun) (by rw [hu]; nofun)
  have hleave : ∀ w q ok, ((s.setNext u (.ptr prev)).goto u .done).pc w = .leave q ok ↔ s.pc w = .leave q ok :=
    goto_leave_iff (fun q b (hq : s.pc u = _) => by rw [hu] at hq; cases hq) nofun
  have hret : ∀ q, Returns ((s.setNext u (.ptr prev)).goto u .done) q true ↔ Returns s q true :=
    fun q => returns_iff rfl hleave
  refine ⟨hacc.aside (hacc.toOrderly.moved hmem rfl nofun nofun nofun rfl fun w hw =>
    ⟨update_of_ne (ne_of_mem_of_not_mem hmem hw).symm _ _, rfl⟩) hs
    (hacc.accepted_goto (by rw [hu]; nofun)) prefix_rfl fun q => (hret q).1, ?_⟩
  rcases hcases with ⟨t, req, ph, v, h⟩ | h
  · exact .inl ⟨t, req, ph, v, h.aside (h.toOwned.link hu) hs (h.once.same rfl hleave)⟩
  · exact absurd hu (h.links u prev)

theorem Inv.leave (h : Inv call s) {ok : Bool} (hu : s.pc u = .leave r ok) :
    Inv call ((s.finish r ok).goto u .done) := by
  obtain ⟨hacc, hcases⟩ := h
  have hs : Aside s ((s.finish r ok).goto u .done) := ⟨rfl, rfl, rfl⟩
  have hmem : u ∈ s.order := hacc.mem_of_pc (by rw [hu]; nofun) (by rw [hu]; nofun)
  have hown : ∀ q f, s.pc u ≠ .own q f := fun q f => by rw [hu]; nofun
  have hlink : ∀ p, s.pc u ≠ .link p := fun p => by rw [hu]; nofun
  refine ⟨hacc.aside (hacc.toOrderly.moved hmem rfl nofun nofun nofun rfl fun w hw => ⟨rfl, rfl⟩) hs
    (hacc.accepted_goto (by rw [hu]; nofun)) prefix_rfl
    fun q hq => (returns_leave hu).1 hq, ?_⟩
  rcases hcases with ⟨t, req, ph, v, h⟩ | h
  · have ho : Owned (s.finish r ok) t req ph v := { h with }
    exact .inl ⟨t, req, ph, v, h.aside (ho.goto_other hown hlink nofun nofun) hs (h.once.leave hu)⟩
  · have ho : Unowned (s.finish r ok) := { h with }
    exact .inr (h.aside (ho.goto_other nofun nofun) hs rfl (h.once.leave hu) fun q hq => (returns_leave hu).2 hq)

/-- **Every step that fits keeps the invariant.** -/
theorem Inv.step (h : Inv call s) (i : Input) (hfit : StepFits call s i) : Inv call (s.step call i) := by
  cases i with
  | write => exact h.write hfit
  | setFailed => exact h.setFailed
  | run t a =>
    rw [State.step, State.thread]
    cases hpc : s.pc t with
    | idle | done | broken => exact h
    | entered => exact h.exchange hpc (hfit hpc)
    | link => exact h.link hpc
    | leave => exact h.leave hpc
    | own req ph =>
      obtain ⟨hacc, ⟨t', req', ph', v, hheld⟩ | hrest⟩ := h
      · obtain ⟨rfl, rfl, rfl⟩ := hheld.eq_of_own hpc
        exact hheld.inv hacc (hheld.toOwned.outcome hacc.toOrderly a)
      · exact absurd hpc (hrest.alone t req ph)

theorem not_returns_init (r : Id) (ok : Bool) : ¬Returns (State.init call) r ok := by
  rintro (h | ⟨t, h⟩)
  · cases h
  · cases h

theorem Inv.init (call : Id → Call) : Inv call (State.init call) := by
  have horderly : Orderly call (State.init call) :=
    ⟨nodup_nil, fun _ => iff_of_false not_mem_nil fun h => h.1 rfl, fun _ _ => ⟨rfl, rfl⟩, nofun⟩
  have honce : Once (State.init call) [] :=
    ⟨nodup_nil, fun r => iff_of_false not_mem_nil fun ⟨ok, h⟩ => not_returns_init r ok h, nofun, nofun⟩
  exact ⟨⟨horderly, fun _ h => absurd rfl h, nil_prefix,
    fun r h => absurd h (not_returns_init r true)⟩,
    .inr ⟨⟨nofun, rfl, nofun⟩, honce, .inr ⟨rfl, .inr nofun⟩⟩⟩

end Brpc.Socket
