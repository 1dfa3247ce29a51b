/-
# The bytes on the connection

The bytes put on the connection and what is left of the requests not yet through make up the data
of all requests in the order of their exchanges (`Writing.whole`).
-/

import Brpc.Socket.WriteSplice

namespace Brpc.Socket

open List Function
open Messenger (Bytes)
open State (left cut)

variable {call : Id → Call} {s : State} {req r : Id} {a : Answer} {ph' : Phase} {v : View}
  {data : Id → Bytes} {ids : List Id} {n : ℕ}

/-- The data the calls `ids` were made with, in their order. -/
def bytes (call : Id → Call) (ids : List Id) : Bytes := left (fun r => (call r).data) ids

/-- The requests up to the first one that shuts the connection down. -/
def upToShutdown (call : Id → Call) : List Id → List Id
  | [] => []
  | r :: ids => r :: if (call r).shutdownWrite then [] else upToShutdown call ids

/-! ## What is left of a list of requests -/

@[simp] theorem left_nil : left data [] = [] := rfl

@[simp] theorem left_cons : left data (r :: ids) = data r ++ left data ids := by
  rw [left, map_cons, flatten_cons, left]

@[simp] theorem left_append (ids' : List Id) : left data (ids ++ ids') = left data ids ++ left data ids' := by
  rw [left, map_append, flatten_append, left, left]

theorem left_congr {data' : Id → Bytes} (h : ∀ r ∈ ids, data' r = data r) : left data' ids = left data ids := by
  rw [left, left, map_congr_left h]

theorem length_left_le (h : ∀ r ∈ ids, data r <:+ (call r).data) :
    (left data ids).length ≤ (bytes call ids).length := by
  induction ids with
  | nil => exact Nat.le_refl _
  | cons r ids ih =>
    have hr := (h r mem_cons_self).length_le
    have hids := ih fun q hq => h q (mem_cons_of_mem _ hq)
    rw [bytes] at hids ⊢
    rw [left_cons, left_cons, length_append, length_append]
    omega

theorem cut_of_not_mem (hr : r ∉ ids) : cut data n ids r = data r := by
  induction ids generalizing data n with
  | nil => rfl
  | cons q ids ih =>
    rw [mem_cons, not_or] at hr
    rw [cut, ih hr.2, update_of_ne hr.1]

theorem left_cut (hnodup : ids.Nodup) : left (cut data n ids) ids = (left data ids).drop n := by
  induction ids generalizing data n with
  | nil => rw [left_nil, left_nil, drop_nil]
  | cons q ids ih =>
    obtain ⟨hq, hids⟩ := nodup_cons.1 hnodup
    have hrest : left (update data q ((data q).drop n)) ids = left data ids :=
      left_congr fun r hr => update_of_ne (ne_of_mem_of_not_mem hr hq) _ _
    rw [left_cons, left_cons, cut, cut_of_not_mem hq, update_self, ih hids, hrest, drop_append]

theorem cut_suffix (hnodup : ids.Nodup) (r : Id) : cut data n ids r <:+ data r := by
  induction ids generalizing data n with
  | nil => exact suffix_rfl
  | cons q ids ih =>
    obtain ⟨hq, hids⟩ := nodup_cons.1 hnodup
    rw [cut]
    by_cases hrq : r = q
    · subst hrq
      rw [cut_of_not_mem hq, update_self]
      exact drop_suffix _ _
    · have := @ih (update data q ((data q).drop n)) (n - (data q).length) hids
      rwa [update_of_ne hrq] at this

/-! ## Up to the first shutdown -/

theorem prefix_upToShutdown : upToShutdown call ids <+: ids := by
  induction ids with
  | nil => exact prefix_rfl
  | cons r ids ih =>
    rw [upToShutdown, cons_prefix_cons]
    refine ⟨rfl, ?_⟩
    split
    · exact nil_prefix
    · exact ih

theorem upToShutdown_mono (ids' : List Id) : upToShutdown call ids <+: upToShutdown call (ids ++ ids') := by
  induction ids with
  | nil => exact nil_prefix
  | cons r ids ih =>
    rw [cons_append, upToShutdown, upToShutdown, cons_prefix_cons]
    refine ⟨rfl, ?_⟩
    split
    · exact nil_prefix
    · exact ih

theorem upToShutdown_append_of_open {ids' : List Id} (h : ∀ r ∈ ids, (call r).shutdownWrite = false) :
    upToShutdown call (ids ++ ids') = ids ++ upToShutdown call ids' := by
  induction ids with
  | nil => rfl
  | cons r ids ih =>
    rw [cons_append, upToShutdown, h r mem_cons_self, if_neg Bool.false_ne_true,
      ih fun q hq => h q (mem_cons_of_mem _ hq), cons_append]

theorem bytes_append (ids ids' : List Id) :
    bytes call (ids ++ ids') = bytes call ids ++ bytes call ids' := left_append ids'

theorem bytes_mono {ids' : List Id} (h : ids <+: ids') : bytes call ids <+: bytes call ids' := by
  obtain ⟨rest, rfl⟩ := h
  rw [bytes_append]
  exact prefix_append _ _

/-! ## An owner that writes -/

/-- The requests that are not through, in the order of their exchanges. -/
def View.rest (v : View) : List Id := v.front ++ v.last :: v.newer

/-- What follows a request that shuts the connection down has all its data left. -/
def Untouched (call : Id → Call) (data : Id → Bytes) (ids : List Id) : Prop :=
  ∀ pre r post, ids = pre ++ r :: post → (call r).shutdownWrite = true → ∀ q ∈ post, data q = (call q).data

/-- What holds as long as the owner writes. -/
structure Writing (call : Id → Call) (s : State) (v : View) : Prop where
  whole : s.out ++ left s.data v.rest = bytes call v.past ++ bytes call v.rest
  untouched : Untouched call s.data v.rest
  flagged : ∀ r ∈ v.rest, (call r).shutdownWrite = true → s.data r ≠ (call r).data → s.isWriteShutdown = true
  opened : ∀ r ∈ v.past, (call r).shutdownWrite = false

theorem Untouched.tail (h : Untouched call data (r :: ids)) : Untouched call data ids :=
  fun pre q post hsplit => h (r :: pre) q post (by rw [hsplit, cons_append])

theorem Untouched.split (h : Untouched call data ids) :
    ∃ rest, ids = upToShutdown call ids ++ rest ∧ left data rest = bytes call rest := by
  induction ids with
  | nil => exact ⟨[], rfl, rfl⟩
  | cons r ids ih =>
    rw [upToShutdown]
    split
    · next hshut => exact ⟨ids, rfl, left_congr (h [] r ids rfl hshut)⟩
    · obtain ⟨rest, hids, hleft⟩ := ih h.tail
      exact ⟨rest, by rw [cons_append, ← hids], hleft⟩

/-- **The bytes on the connection are those of the first requests,** none of them after
the first request that shuts the connection down. -/
theorem Writing.bound (h : Writing call s v) : s.out <+: bytes call (upToShutdown call (v.past ++ v.rest)) := by
  obtain ⟨rest, hrest, hleft⟩ := h.untouched.split
  have hwhole := h.whole
  rw [hrest, left_append, hleft, bytes_append, ← append_assoc, ← append_assoc] at hwhole
  rw [upToShutdown_append_of_open h.opened, bytes_append, ← append_cancel_right hwhole]
  exact prefix_append _ _

/-- **A request returned as successful is on the connection as a whole.** -/
theorem Writing.returned (h : Writing call s v) {l : List Id} (hrest : v.rest = req :: l)
    (hdata : s.data req = []) (hsuffix : ∀ r ∈ v.rest, s.data r <:+ (call r).data) :
    bytes call (v.past ++ [req]) <+: s.out := by
  have hwhole := h.whole
  rw [hrest, left_cons, hdata, nil_append, ← singleton_append, bytes_append [req],
    ← append_assoc, ← bytes_append] at hwhole
  have hlength : (left s.data l).length ≤ (bytes call l).length :=
    length_left_le fun r hr => hsuffix r (by rw [hrest]; exact mem_cons_of_mem _ hr)
  have hall : bytes call (v.past ++ [req]) <+: s.out ++ left s.data l := by
    rw [hwhole]
    exact prefix_append _ _
  refine prefix_of_prefix_length_le hall (prefix_append _ _) ?_
  have := congrArg List.length hwhole
  rw [length_append, length_append] at this
  omega

/-! ## Every request is returned once

A request is through when it is returned, or about to be returned by the thread that gave up the
right to write with it (`Returns`); `Once` says that this is so for each request of `past` once.
-/

variable {call : Id → Call} {s s' : State} {t req r : Id} {past : List Id} {ok : Bool}

/-- `r` is returned with `ok`, or about to be by a thread that has nothing else to do. -/
def Returns (s : State) (r : Id) (ok : Bool) : Prop :=
  (r, ok) ∈ s.finished ∨ ∃ t, s.pc t = .leave r ok

/-- A request was dropped. -/
def Dirty (s : State) : Prop := ∃ r, Returns s r false

/-- The requests `past`, and no others, are through, each of them once. -/
structure Once (s : State) (past : List Id) : Prop where
  nodup : (s.finished.map Prod.fst).Nodup
  through : ∀ r, r ∈ past ↔ ∃ ok, Returns s r ok
  leaving : ∀ t r ok, s.pc t = .leave r ok → r ∉ s.finished.map Prod.fst
  unique : ∀ t u r ok ok', s.pc t = .leave r ok → s.pc u = .leave r ok' → t = u

theorem returns_iff (hfin : s'.finished = s.finished) (hpc : ∀ u r ok, s'.pc u = .leave r ok ↔ s.pc u = .leave r ok) :
    Returns s' r ok ↔ Returns s r ok := by
  rw [Returns, Returns, hfin]
  simp only [hpc]

section

variable (h : Once s past)
include h

theorem Once.same (hfin : s'.finished = s.finished)
    (hpc : ∀ u r ok, s'.pc u = .leave r ok ↔ s.pc u = .leave r ok) : Once s' past where
  nodup := by rw [hfin]; exact h.nodup
  through r := by
    simp only [returns_iff hfin hpc]
    exact h.through r
  leaving u r ok hu := by
    rw [hfin]
    exact h.leaving u r ok ((hpc u r ok).1 hu)
  unique u w r ok ok' hu hw := h.unique u w r ok ok' ((hpc u r ok).1 hu) ((hpc w r ok').1 hw)

omit h in
theorem leave_iff (hpc : ∀ u, u ≠ t → s'.pc u = s.pc u) (ht : ∀ r ok, s.pc t ≠ .leave r ok)
    (ht' : ∀ r ok, s'.pc t ≠ .leave r ok) (u r : Id) (ok : Bool) :
    s'.pc u = .leave r ok ↔ s.pc u = .leave r ok := by
  by_cases hu : u = t
  · rw [hu]
    exact iff_of_false (ht' r ok) (ht r ok)
  · rw [hpc u hu]

theorem Once.not_finished (hr : r ∉ past) : r ∉ s.finished.map Prod.fst := by
  intro hmem
  obtain ⟨⟨q, ok⟩, hq, rfl⟩ := mem_map.1 hmem
  exact hr ((h.through q).2 ⟨ok, .inl hq⟩)

theorem Once.returned (hr : r ∉ past) (hfin : s'.finished = s.finished ++ [(r, ok)])
    (hpc : ∀ u q b, s'.pc u = .leave q b ↔ s.pc u = .leave q b) : Once s' (past ++ [r]) where
  nodup := by
    rw [hfin, map_append]
    exact concat_eq_append ▸ Nodup.concat (h.not_finished hr) h.nodup
  through q := by
    simp only [Returns, hfin, hpc, mem_append, mem_singleton]
    rw [h.through q]
    constructor
    · rintro (⟨b, hb | hb⟩ | rfl)
      · exact ⟨b, .inl (.inl hb)⟩
      · exact ⟨b, .inr hb⟩
      · exact ⟨ok, .inl (.inr rfl)⟩
    · rintro ⟨b, (hb | hb) | hb⟩
      · exact .inl ⟨b, .inl hb⟩
      · exact .inr (Prod.mk.inj hb).1
      · exact .inl ⟨b, .inr hb⟩
  leaving u q b hu := by
    have hq := (hpc u q b).1 hu
    rw [hfin, map_append, mem_append, not_or]
    refine ⟨h.leaving u q b hq, fun hmem => hr ?_⟩
    obtain rfl : q = r := mem_singleton.1 hmem
    exact (h.through q).2 ⟨b, .inr ⟨u, hq⟩⟩
  unique u w q b b' hu hw := h.unique u w q b b' ((hpc u q b).1 hu) ((hpc w q b').1 hw)

theorem Once.given_up (hr : r ∉ past) (hfin : s'.finished = s.finished)
    (hpc : ∀ u, u ≠ t → s'.pc u = s.pc u) (ht : ∀ q b, s.pc t ≠ .leave q b)
    (ht' : s'.pc t = .leave r ok) : Once s' (past ++ [r]) where
  nodup := by rw [hfin]; exact h.nodup
  through q := by
    rw [mem_append, mem_singleton, h.through q]
    simp only [Returns, hfin]
    constructor
    · rintro (⟨b, hb | ⟨u, hu⟩⟩ | rfl)
      · exact ⟨b, .inl hb⟩
      · exact ⟨b, .inr ⟨u, by rw [hpc u fun hut => ht q b (hut ▸ hu), hu]⟩⟩
      · exact ⟨ok, .inr ⟨t, ht'⟩⟩
    · rintro ⟨b, hb | ⟨u, hu⟩⟩
      · exact .inl ⟨b, .inl hb⟩
      · by_cases hut : u = t
        · rw [hut, ht'] at hu
          cases hu
          exact .inr rfl
        · rw [hpc u hut] at hu
          exact .inl ⟨b, .inr ⟨u, hu⟩⟩
  leaving u q b hu := by
    rw [hfin]
    by_cases hut : u = t
    · rw [hut, ht'] at hu
      cases hu
      exact h.not_finished hr
    · rw [hpc u hut] at hu
      exact h.leaving u q b hu
  unique u w q b b' hu hw := by
    -- A thread other than `t` is about to return a request of `past`, which `r` is not.
    have hother : ∀ x c, x ≠ t → s'.pc x = .leave r c → False := by
      intro x c hx hc
      rw [hpc x hx] at hc
      exact hr ((h.through r).2 ⟨c, .inr ⟨x, hc⟩⟩)
    by_cases hut : u = t <;> by_cases hwt : w = t
    · rw [hut, hwt]
    · rw [hut, ht'] at hu
      cases hu
      exact (hother w b' hwt hw).elim
    · rw [hwt, ht'] at hw
      cases hw
      exact (hother u b hut hu).elim
    · rw [hpc u hut] at hu
      rw [hpc w hwt] at hw
      exact h.unique u w q b b' hu hw

theorem Once.leave (ht : s.pc t = .leave r ok) : Once ((s.finish r ok).goto t .done) past := by
  have hpc : ∀ u q b, ((s.finish r ok).goto t .done).pc u = .leave q b ↔ u ≠ t ∧ s.pc u = .leave q b := by
    intro u q b
    show update s.pc t .done u = _ ↔ _
    by_cases hut : u = t
    · rw [hut, update_self]
      exact iff_of_false nofun fun hne => hne.1 rfl
    · rw [update_of_ne hut]
      exact ⟨fun hu => ⟨hut, hu⟩, fun hu => hu.2⟩
  refine ⟨?_, fun q => ?_, fun u q b hu => ?_, fun u w q b b' hu hw => ?_⟩
  · show ((s.finished ++ [(r, ok)]).map Prod.fst).Nodup
    rw [map_append]
    exact concat_eq_append ▸ Nodup.concat (h.leaving t r ok ht) h.nodup
  · rw [h.through q]
    simp only [Returns, hpc]
    show _ ↔ ∃ b, (q, b) ∈ s.finished ++ [(r, ok)] ∨ _
    simp only [mem_append, mem_singleton]
    constructor
    · rintro ⟨b, hb | ⟨u, hu⟩⟩
      · exact ⟨b, .inl (.inl hb)⟩
      · by_cases hut : u = t
        · rw [hut, ht] at hu
          cases hu
          exact ⟨ok, .inl (.inr rfl)⟩
        · exact ⟨b, .inr ⟨u, hut, hu⟩⟩
    · rintro ⟨b, (hb | hb) | ⟨u, -, hu⟩⟩
      · exact ⟨b, .inl hb⟩
      · cases hb
        exact ⟨ok, .inr ⟨t, ht⟩⟩
      · exact ⟨b, .inr ⟨u, hu⟩⟩
  · obtain ⟨hut, hleave⟩ := (hpc u q b).1 hu
    show q ∉ (s.finished ++ [(r, ok)]).map Prod.fst
    rw [map_append, mem_append, not_or]
    refine ⟨h.leaving u q b hleave, fun hmem => hut ?_⟩
    obtain rfl : q = r := mem_singleton.1 hmem
    exact h.unique u t q b ok hleave ht
  · exact h.unique u w q b b' ((hpc u q b).1 hu).2 ((hpc w q b').1 hw).2

end

theorem returns_leave (ht : s.pc t = .leave req ok) {b : Bool} :
    Returns ((s.finish req ok).goto t .done) r b ↔ Returns s r b := by
  show (r, b) ∈ s.finished ++ [(req, ok)] ∨ (∃ u, update s.pc t .done u = .leave r b) ↔ _
  rw [Returns, mem_append, mem_singleton]
  constructor
  · rintro ((hb | hb) | ⟨u, hu⟩)
    · exact .inl hb
    · cases hb
      exact .inr ⟨t, ht⟩
    · by_cases hut : u = t
      · rw [hut, update_self] at hu
        cases hu
      · rw [update_of_ne hut] at hu
        exact .inr ⟨u, hu⟩
  · rintro (hb | ⟨u, hu⟩)
    · exact .inl (.inl hb)
    · by_cases hut : u = t
      · rw [hut, ht] at hu
        cases hu
        exact .inl (.inr rfl)
      · exact .inr ⟨u, by rw [update_of_ne hut, hu]⟩

/-! ## The invariant of the write queue -/

open View

variable {call : Id → Call} {s s' : State} {t req r : Id} {a : Answer} {ph : Phase} {v : View} {ids : List Id}

/-- An owner, with the requests and bytes as they have to be. -/
structure Held (call : Id → Call) (s : State) (t req : Id) (ph : Phase) (v : View) : Prop
    extends Owned s t req ph v where
  once : Once s v.past
  suffix : ∀ r ∈ v.rest, s.data r <:+ (call r).data
  writing : ph.kind = .writing → Writing call s v
  early : ph.kind = .early → s.isWriteShutdown = true ∨ Writing call s v
  direct : ph = .write → (call req).shutdownWrite = true → s.isWriteShutdown = true

/-- No owner.  Unless a request was dropped, all data is on the connection, and
`_is_write_shutdown` is set if a request asked for it. -/
structure Rest (call : Id → Call) (s : State) : Prop extends Unowned s where
  once : Once s s.order
  written : Dirty s ∨ s.out = bytes call s.order ∧
    (s.isWriteShutdown = true ∨ ∀ r ∈ s.order, (call r).shutdownWrite = false)

/-- What holds with and without an owner. -/
structure Account (call : Id → Call) (s : State) : Prop extends Orderly call s where
  accepted : ∀ r, s.pc r ≠ .idle → (call r).shutdownWrite = true → (call r).data ≠ []
  bound : s.out <+: bytes call (upToShutdown call s.order)
  successful : ∀ r, Returns s r true → ∃ earlier later, s.order = earlier ++ r :: later ∧
    bytes call (earlier ++ [r]) <+: s.out

/-- **The invariant of the write queue.** -/
def Inv (call : Id → Call) (s : State) : Prop :=
  Account call s ∧ ((∃ t req ph v, Held call s t req ph v) ∨ Rest call s)

/-! ## Views and what is left -/

theorem View.rest_advance {f : List Id} (hf : v.front = req :: f) : v.rest = req :: (v.advance req f).rest := by
  rw [rest, hf, cons_append, rest, advance]

theorem View.rest_merge {batch later : List Id} {z : Id} (h : v.newer = batch ++ z :: later) :
    (v.merge batch later z).rest = v.rest := by
  rw [rest, rest, merge, h]
  simp

theorem View.rest_push : (v.push r).rest = v.rest ++ [r] := by
  rw [rest, rest, push]
  simp

theorem View.rest_eq_mine : v.rest = v.mine ++ v.newer := by
  rw [rest, mine]
  simp

section

variable (h : Writing call s v)
include h

theorem Writing.same {v' : View} (hpast : v'.past = v.past)
    (hrest : v'.rest = v.rest) (hdata : s'.data = s.data) (hout : s'.out = s.out)
    (hflag : s.isWriteShutdown = true → s'.isWriteShutdown = true) : Writing call s' v' where
  whole := by rw [hpast, hrest, hdata, hout]; exact h.whole
  untouched := by rw [hrest, hdata]; exact h.untouched
  flagged := by
    rw [hrest, hdata]
    exact fun r hr hshut hne => hflag (h.flagged r hr hshut hne)
  opened := by rw [hpast]; exact h.opened

theorem Writing.put {n : ℕ} (hnodup : v.rest.Nodup) (hids : ids <+: v.mine)
    (hstop : ∀ pre r post, v.mine = pre ++ r :: post → (call r).shutdownWrite → ids <+: pre ++ [r])
    (hshut : ∀ r ∈ ids, (call r).shutdownWrite → s'.isWriteShutdown = true)
    (hflag : s.isWriteShutdown = true → s'.isWriteShutdown = true)
    (hdata : s'.data = cut s.data n ids) (hout : s'.out = s.out ++ (left s.data ids).take n) :
    Writing call s' v := by
  obtain ⟨more, hmore⟩ := hids
  have hrest : v.rest = ids ++ (more ++ v.newer) := by
    rw [rest_eq_mine, ← hmore, append_assoc]
  have hids : ids.Nodup := by
    rw [hrest] at hnodup
    exact (nodup_append.1 hnodup).1
  have hkept : ∀ r ∈ more ++ v.newer, r ∉ ids := by
    intro r hr hmem
    rw [hrest] at hnodup
    exact (nodup_append.1 hnodup).2.2 r hmem r hr rfl
  refine ⟨?_, fun pre r post hsplit hr q hq => ?_, fun r hr hr' hne => ?_, h.opened⟩
  · have hwhole := h.whole
    rw [hrest, left_append] at hwhole
    rw [hout, hdata, hrest, left_append, left_cut hids, append_assoc,
      ← append_assoc (List.take _ _), take_append_drop,
      left_congr fun r hr => cut_of_not_mem (hkept r hr)]
    exact hwhole
  -- A request after one that shuts the connection down is not among those written.
  · have hold := h.untouched pre r post hsplit hr q hq
    rw [hdata, cut_of_not_mem ?_, hold]
    intro hmem
    have hsplit' := hsplit
    rw [rest_eq_mine] at hsplit'
    have hnd : (pre ++ r :: post).Nodup := hsplit ▸ hnodup
    have hpost : q ∉ pre ++ [r] := by
      intro hin
      have := nodup_append.1 (by simpa using hnd : ((pre ++ [r]) ++ post).Nodup)
      exact this.2.2 q hin q hq rfl
    rcases append_eq_append_iff.1 hsplit' with ⟨l, hl, hnewer⟩ | ⟨l, hl, hpre⟩
    · refine hkept q (mem_append_right _ ?_) hmem
      rw [hnewer]
      exact mem_append_right _ (mem_cons_of_mem _ hq)
    · cases l with
      | nil =>
        rw [nil_append] at hpre
        refine hkept q (mem_append_right _ ?_) hmem
        rw [← hpre]
        exact mem_cons_of_mem _ hq
      | cons b l =>
        obtain ⟨rfl, -⟩ := List.cons.inj hpre
        exact hpost ((hstop pre r l hl hr).subset hmem)
  · by_cases hmem : r ∈ ids
    · exact hshut r hmem hr'
    · rw [hdata, cut_of_not_mem hmem] at hne
      exact hflag (h.flagged r hr hr' hne)

theorem Writing.advance {f : List Id} (hf : v.front = req :: f)
    (hdata : s.data req = []) (hopen : (call req).shutdownWrite = false) (hdata' : s'.data = s.data)
    (hout : s'.out = s.out) (hflag : s'.isWriteShutdown = s.isWriteShutdown) :
    Writing call s' (v.advance req f) := by
  have hrest := rest_advance hf
  refine ⟨?_, ?_, fun r hr hr' hne => ?_, fun r hr => ?_⟩
  · have hwhole := h.whole
    rw [hrest, left_cons, hdata, nil_append, ← singleton_append, bytes_append [req],
      ← append_assoc, ← bytes_append] at hwhole
    rw [hdata', hout, hwhole, View.advance]
  · have huntouched := h.untouched
    rw [hrest] at huntouched
    rw [hdata']
    exact huntouched.tail
  · rw [hdata'] at hne
    rw [hflag]
    exact h.flagged r (by rw [hrest]; exact mem_cons_of_mem _ hr) hr' hne
  · rcases mem_append.1 hr with hr | hr
    · exact h.opened r hr
    · rw [mem_singleton.1 hr, hopen]

theorem Writing.push (hfresh : s.data r = (call r).data) (hdata : s'.data = s.data) (hout : s'.out = s.out)
    (hflag : s'.isWriteShutdown = s.isWriteShutdown) : Writing call s' (v.push r) := by
  refine ⟨?_, fun pre q post hsplit hq x hx => ?_, fun q hq hq' hne => ?_, h.opened⟩
  · have hone : left s.data [r] = bytes call [r] := left_congr fun q hq => by
      rw [mem_singleton.1 hq, hfresh]
    rw [hdata, hout, rest_push, left_append, bytes_append, hone, ← append_assoc,
      ← append_assoc, h.whole, View.push]
  · rw [hdata]
    rw [rest_push] at hsplit
    rcases eq_nil_or_concat post with rfl | ⟨post', z, rfl⟩
    · cases hx
    · rw [concat_eq_append] at hsplit hx
      rw [← cons_append, ← append_assoc] at hsplit
      obtain ⟨hrest, hz⟩ := append_inj' hsplit rfl
      rcases mem_append.1 hx with hx | hx
      · exact h.untouched pre q post' hrest hq x hx
      · obtain rfl : r = z := (List.cons.inj hz).1
        rw [mem_singleton.1 hx, hfresh]
  · rw [hdata] at hne
    rw [hflag]
    rw [rest_push, mem_append] at hq
    rcases hq with hq | hq
    · exact h.flagged q hq hq' hne
    · rw [mem_singleton.1 hq, hfresh] at hne
      exact absurd rfl hne

end

end Brpc.Socket
