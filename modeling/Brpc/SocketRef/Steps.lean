/-
# What the reference count counts

The reference count is the number of references handed out, of those the operations in progress
stand for (`Op.units`), and of additional references, some of which are `leaked`.  `OpOk` says how
an operation in progress fits the slot.
-/

import Brpc.SocketRef.Slot
import Mathlib.Algebra.Order.BigOperators.Group.List
import Mathlib.Algebra.Order.Group.Nat

namespace Brpc.SocketRef

open Lib Op State

/-- A socket is there or being created. -/
def Phase.inUse : Phase → Bool
  | .creating | .live => true
  | .free | .recycling => false

/-- The references an operation stands for: its caller's, the one it is about to take back, an
additional one on its way. -/
def Op.units : Op → ℕ
  | .create | .unref .. | .reviveStore .. | .revive .. => 1
  | .addressCas _ => 0
  | .setFailed own .. | .release own | .derefCas own .. | .recycle own => own.toList.length
  | .derefExtra own => own.toList.length + 1
  | .reviveUsing _ => 2

/-- The reference the caller of an operation holds. -/
def Op.own : Op → Option ℕ
  | .setFailed own .. | .release own | .derefCas own .. | .recycle own | .derefExtra own => own
  | .reviveStore own .. | .revive own .. | .reviveUsing own => some own
  | .create | .unref .. | .addressCas _ => none

def Op.isCreate : Op → Bool
  | .create => true
  | _ => false

def Op.isRecycle : Op → Bool
  | .recycle _ => true
  | _ => false

/-- The creator of a socket fails it, and has not yet given the additional reference
back. -/
def Op.isCreator : Op → Bool
  | .setFailed none .. | .release none => true
  | _ => false

namespace State

/-- The versions in use so far are below this. -/
def limit (s : State) : ℕ := if s.phase.inUse then s.thisVer + 2 else s.vref.version

/-- The additional references no operation stands for. -/
def extra (s : State) (leaked : ℕ) : ℕ :=
  (if s.phase = .live ∧ s.status = .refUsing then 1 else 0) + leaked

/-- The version fits the phase. -/
def VersionOk (s : State) : Prop :=
  match s.phase with
  | .free => s.vref.version % 2 = 0
  | .creating => s.vref.version = s.thisVer ∧ s.thisVer % 2 = 0
  | .live => (s.vref.version = s.thisVer ∨ s.vref.version = s.thisVer + 1) ∧ s.thisVer % 2 = 0
  | .recycling => s.vref.version = s.thisVer + 2 ∧ s.thisVer % 2 = 0

/-- How an operation in progress fits the slot. -/
def OpOk (s : State) : Op → Prop
  | .create => s.phase = .creating
  | .unref ver1 _ =>
    if s.phase.inUse then ver1 = s.thisVer ∨ ver1 = s.thisVer + 1 else ver1 = s.vref.version
  | .addressCas ver2 => ver2 % 2 = 1 ∧ ver2 < s.limit
  | .setFailed _ idVer _ => s.phase = .live ∧ idVer = s.thisVer
  | .release _ | .derefExtra _ => s.phase = .live
  | .derefCas _ idVer ver => idVer % 2 = 0 ∧ (ver = idVer ∨ ver = idVer + 1) ∧ ver < s.limit
  | .reviveStore _ idVer _ | .revive _ idVer _ => idVer = s.thisVer
  | .reviveUsing _ => True
  | .recycle own => s.phase = .recycling ∧ own = none

/-- A reference is to the socket that is there, whose id is known. -/
def RefOk (s : State) (v : ℕ) : Prop := s.phase = .live ∧ v = s.thisVer ∧ s.thisVer ∈ s.ids

/-- The socket `c` is still referred to. -/
def Holds (s : State) (c : ℕ) : Prop := c ∈ s.refs ∨ ∃ op ∈ s.ops, op.own = some c

/-- The sockets recycled, one that is about to be included. -/
def recycles (s : State) : List ℕ :=
  s.recycled ++ if s.phase = .recycling then [s.thisVer] else []

end State

/-- **The invariant of a slot.** -/
structure Inv (s : State) (leaked : ℕ) : Prop where
  count : s.vref.nref = s.refs.length + (s.ops.map units).sum + s.extra leaked
  version : s.VersionOk
  ops : ∀ op ∈ s.ops, s.OpOk op
  refs : ∀ v ∈ s.refs, s.RefOk v
  owns : ∀ op ∈ s.ops, ∀ v ∈ op.own, s.RefOk v
  creating : s.ops.countP isCreate = if s.phase = .creating then 1 else 0
  recycling : s.ops.countP isRecycle = if s.phase = .recycling then 1 else 0
  creators : s.ops.countP isCreator ≤ 1
  creator : ∀ op ∈ s.ops, op.isCreator → s.thisVer ∉ s.ids ∧ (s.status = .refUsing ∨ 0 < leaked)
  ids : ∀ w ∈ s.ids, w % 2 = 0 ∧ w < s.limit
  newId : s.phase = .creating → s.thisVer ∉ s.ids
  recycles_lt : ∀ c ∈ s.recycles, c + (if s.phase.inUse then 1 else 2) ≤
    if s.phase.inUse then s.thisVer else s.vref.version
  nodup : s.recycles.Nodup
  handed : ∀ p ∈ s.handed, p.2 = p.1

variable {s s' : State} {leaked leaked' k : ℕ} {op : Op}

theorem units_of_own (op : Op) {v : ℕ} (h : op.own = some v) : 1 ≤ op.units := by
  cases op <;> simp_all [own, units]

/-- The version stays, or the socket that is there fails or is revived. -/
def SameVersion (s s' : State) : Prop :=
  s'.vref.version = s.vref.version ∨ s.phase = .live ∧ (s'.vref.version = s.thisVer ∨ s'.vref.version = s.thisVer + 1)

theorem SameVersion.versionOk (hver : SameVersion s s') (hphase : s'.phase = s.phase)
    (hthis : s'.thisVer = s.thisVer) (h : s.VersionOk) : s'.VersionOk := by
  rw [VersionOk] at h ⊢
  rw [hphase, hthis]
  rcases hver with hver | ⟨hlive, hver⟩
  · rw [hver]
    exact h
  · rw [hlive] at h ⊢
    exact ⟨hver, h.2⟩

theorem SameVersion.version_eq (hver : SameVersion s s') (hphase : s.phase.inUse = false) :
    s'.vref.version = s.vref.version := by
  rcases hver with hver | ⟨hlive, -⟩
  · exact hver
  · rw [hlive] at hphase
    cases hphase

theorem Inv.frame (h : Inv s leaked) (hphase : s'.phase = s.phase)
    (hver : SameVersion s s') (hthis : s'.thisVer = s.thisVer)
    (hids : s'.ids = s.ids) (hrec : s'.recycled = s.recycled)
    (hcount : s'.vref.nref = s'.refs.length + (s'.ops.map units).sum + s'.extra leaked')
    (hops : ∀ op ∈ s'.ops, op ∈ s.ops ∨ s.OpOk op ∧ ∀ v ∈ op.own, s.RefOk v) (hrefs : ∀ v ∈ s'.refs, s.RefOk v)
    (hcreate : s'.ops.countP isCreate = s.ops.countP isCreate)
    (hrecycle : s'.ops.countP isRecycle = s.ops.countP isRecycle)
    (hcreators : s'.ops.countP isCreator ≤ s.ops.countP isCreator)
    (hcreator : ∀ op ∈ s'.ops, op.isCreator → s.thisVer ∉ s.ids ∧ (s'.status = .refUsing ∨ 0 < leaked'))
    (hhanded : ∀ p ∈ s'.handed, p ∈ s.handed ∨ p.2 = p.1) : Inv s' leaked' := by
  have hif : ∀ {α : Type} (x : α) (f : ℕ → α), (if s.phase.inUse then x else f s'.vref.version) =
      if s.phase.inUse then x else f s.vref.version := by
    intro α x f
    cases hin : s.phase.inUse with
    | true => rfl
    | false => rw [hver.version_eq hin]
  have hlimit : s'.limit = s.limit := by
    rw [limit, limit, hphase, hthis]
    exact hif _ fun x => x
  have hopOk : ∀ op, s'.OpOk op ↔ s.OpOk op := by
    intro op
    cases op <;> simp only [OpOk, hphase, hthis, hlimit]
    exact iff_of_eq (hif _ fun x => _ = x)
  have hrefOk : ∀ v, s'.RefOk v ↔ s.RefOk v := by
    intro v
    rw [RefOk, RefOk, hphase, hthis, hids]
  have hrecycles : s'.recycles = s.recycles := by
    rw [recycles, recycles, hrec, hphase, hthis]
  refine ⟨hcount, ?_, fun op hop => ?_, fun v hv => ?_, fun op hop v hv => ?_, ?_, ?_, ?_,
    fun op hop hc => ?_, ?_, ?_, ?_, ?_, fun p hp => ?_⟩
  · exact hver.versionOk hphase hthis h.version
  · rw [hopOk]
    exact (hops op hop).elim (h.ops op) And.left
  · exact (hrefOk v).2 (hrefs v hv)
  · rw [hrefOk]
    exact (hops op hop).elim (fun hin => h.owns op hin v hv) fun hnew => hnew.2 v hv
  · rw [hcreate, hphase, h.creating]
  · rw [hrecycle, hphase, h.recycling]
  · exact Nat.le_trans hcreators h.creators
  · rw [hthis, hids]
    exact hcreator op hop hc
  · rw [hids, hlimit]
    exact h.ids
  · rw [hphase, hthis, hids]
    exact h.newId
  · rw [hrecycles, hphase, hthis, hif _ fun x => x]
    exact h.recycles_lt
  · rw [hrecycles]
    exact h.nodup
  · exact (hhanded p hp).elim (h.handed p) id

theorem countP_eq_zero {l : List Op} {p : Op → Bool} (h : ∀ op ∈ l, p op = false) : l.countP p = 0 :=
  List.countP_eq_zero.2 fun op hop => by rw [h op hop]; exact Bool.false_ne_true

/-- **An operation goes on** with `new`, and phase and ids stay; the count follows how the units
of the operation are passed on. -/
theorem Inv.goOn {new : List Op} (h : Inv s leaked) (hk : s.ops[k]? = some op)
    (hops : s'.ops = replaceAt s.ops k new) (hphase : s'.phase = s.phase)
    (hver : SameVersion s s') (hthis : s'.thisVer = s.thisVer)
    (hids : s'.ids = s.ids) (hrec : s'.recycled = s.recycled) (hhanded : s'.handed = s.handed)
    (hnum : s'.vref.nref + s.refs.length + op.units + s.extra leaked =
      s.vref.nref + s'.refs.length + (new.map units).sum + s'.extra leaked')
    (hnew : ∀ o ∈ new, s.OpOk o ∧ (∀ v ∈ o.own, s.RefOk v) ∧ o.isCreate = false ∧
      o.isRecycle = false) (hop : op.isCreate = false ∧ op.isRecycle = false) (hrefs : ∀ v ∈ s'.refs, s.RefOk v)
    (hcreators : new.countP isCreator ≤ if op.isCreator then 1 else 0)
    (hcreator : s'.status ≠ .refUsing → leaked' = 0 →
      s.status ≠ .refUsing ∧ leaked = 0 ∨ s'.ops.countP isCreator = 0) : Inv s' leaked' := by
  have hsum := @sum_replaceAt _ _ _ s.ops new k op hk units
  have hcount := h.count
  have hC := @countP_replaceAt _ s.ops new k op hk isCreate
  have hR := @countP_replaceAt _ s.ops new k op hk isRecycle
  have hT := @countP_replaceAt _ s.ops new k op hk isCreator
  rw [hop.1, countP_eq_zero fun o ho => (hnew o ho).2.2.1] at hC
  rw [hop.2, countP_eq_zero fun o ho => (hnew o ho).2.2.2] at hR
  have hmem : ∀ o ∈ s'.ops, o ∈ s.ops ∨ o ∈ new := by
    rw [hops]
    exact forall_mem_replaceAt (fun _ => .inl) fun _ => .inr
  refine h.frame hphase hver hthis hids hrec ?_ (fun o ho => ?_) hrefs ?_ ?_ ?_ (fun o ho hc => ?_)
    fun p hp => .inl (hhanded ▸ hp)
  · rw [hops]
    omega
  · exact (hmem o ho).imp_right fun hn => ⟨(hnew o hn).1, (hnew o hn).2.1⟩
  · rw [hops]
    simpa using hC
  · rw [hops]
    simpa using hR
  · rw [hops]
    omega
  -- A creator is the one there was before.
  · have hold : ∃ o ∈ s.ops, o.isCreator := by
      by_contra hnone
      have hzero : s.ops.countP isCreator = 0 := List.countP_eq_zero.2 fun o ho hc =>
        hnone ⟨o, ho, hc⟩
      have hpos : 0 < s'.ops.countP isCreator := List.countP_pos_iff.2 ⟨o, ho, hc⟩
      rw [hops] at hpos
      omega
    obtain ⟨o', ho', hc'⟩ := hold
    obtain ⟨hid, hpays⟩ := h.creator o' ho' hc'
    refine ⟨hid, ?_⟩
    by_contra hneither
    obtain ⟨hstatus, hleaked⟩ := not_or.1 hneither
    rcases hcreator hstatus (Nat.eq_zero_of_not_pos hleaked) with hbefore | hnone
    · exact hpays.elim hbefore.1 (by rw [hbefore.2]; exact Nat.lt_irrefl 0)
    · exact List.countP_eq_zero.1 hnone o ho hc

theorem inv_init : Inv init 0 := by
  refine ⟨rfl, rfl, nofun, nofun, nofun, rfl, rfl, Nat.zero_le _, nofun, nofun, nofun, ?_, ?_, nofun⟩
  · intro c hc
    cases hc
  · exact List.nodup_nil

/-! ## References taken and given back -/

open List Option

variable {s s' : State} {leaked k : ℕ} {op : Op}

section

variable (h : Inv s leaked)
include h

theorem Inv.refs_nil (hphase : s.phase ≠ .live) : s.refs = [] :=
  eq_nil_iff_forall_not_mem.2 fun v hv => hphase (h.refs v hv).1

theorem Inv.own_none (hphase : s.phase ≠ .live) (hop : op ∈ s.ops) : op.own = none :=
  eq_none_iff_forall_not_mem.2 fun v hv => hphase (h.owns op hop v hv).1

theorem Inv.no_creator (hid : s.thisVer ∈ s.ids) : s.ops.countP Op.isCreator = 0 :=
  List.countP_eq_zero.2 fun o ho hc => (h.creator o ho hc).1 hid

theorem Inv.not_creator (hphase : s.phase ≠ .live) (hop : op ∈ s.ops) : op.isCreator = false := by
  cases op with
  | setFailed => exact absurd (h.ops _ hop).1 hphase
  | release => exact absurd (h.ops _ hop) hphase
  | _ => rfl

theorem Inv.check (b : Bool) : Inv (s.check b) leaked := { h with }

theorem Inv.finish {own : Option ℕ} (hk : s.ops[k]? = some op)
    (hown : op.own = own) (hunits : op.units = own.toList.length)
    (hop : op.isCreate = false ∧ op.isRecycle = false) : Inv (s.finish k own) leaked := by
  have hmem := mem_of_getElem? hk
  refine h.goOn hk rfl rfl (.inl rfl) rfl rfl rfl rfl ?_ nofun
    hop (fun v hv => ?_) (Nat.zero_le _) fun hs hl => .inl ⟨hs, hl⟩
  · show s.vref.nref + s.refs.length + op.units + s.extra leaked =
      s.vref.nref + (own.toList ++ s.refs).length + 0 + s.extra leaked
    rw [hunits, length_append]
    omega
  · rcases mem_append.1 hv with hv | hv
    · exact h.owns op hmem v (hown.trans (mem_toList.1 hv))
    · exact h.refs v hv

theorem Inv.start {new : List Op} (hops : s'.ops = s.ops ++ new)
    (hphase : s'.phase = s.phase) (hver : s'.vref.version = s.vref.version)
    (hthis : s'.thisVer = s.thisVer) (hstatus : s'.status = s.status) (hids : s'.ids = s.ids)
    (hrec : s'.recycled = s.recycled) (hnum : s'.vref.nref + s.refs.length =
      s.vref.nref + s'.refs.length + (new.map Op.units).sum)
    (hnew : ∀ o ∈ new, s.OpOk o ∧ (∀ v ∈ o.own, s.RefOk v) ∧ o.isCreate = false ∧
      o.isRecycle = false ∧ o.isCreator = false)
    (hrefs : ∀ v ∈ s'.refs, s.RefOk v) (hhanded : ∀ p ∈ s'.handed, p ∈ s.handed ∨ p.2 = p.1) :
    Inv s' leaked := by
  have hcountP : ∀ p : Op → Bool, (∀ o ∈ new, p o = false) → s'.ops.countP p = s.ops.countP p := by
    intro p hp
    rw [hops, countP_append, countP_eq_zero hp, Nat.add_zero]
  have hC : s'.ops.countP Op.isCreator = s.ops.countP Op.isCreator := hcountP _ fun o ho => (hnew o ho).2.2.2.2
  refine h.frame hphase (.inl hver) hthis hids hrec ?_ (fun o ho => ?_) hrefs
    (hcountP _ fun o ho => (hnew o ho).2.2.1) (hcountP _ fun o ho => (hnew o ho).2.2.2.1)
    (Nat.le_of_eq hC) (fun o ho hc => ?_) hhanded
  · have hcount := h.count
    have hextra : s'.extra leaked = s.extra leaked := by
      rw [extra, extra, hphase, hstatus]
    rw [hops, map_append, sum_append]
    omega
  · rw [hops] at ho
    exact (mem_append.1 ho).imp_right fun hn => ⟨(hnew o hn).1, (hnew o hn).2.1⟩
  · rw [hops] at ho
    rw [hstatus]
    rcases mem_append.1 ho with ho | ho
    · exact h.creator o ho hc
    · rw [(hnew o ho).2.2.2.2] at hc
      cases hc

theorem Inv.refOk_of_version {id : ℕ} (hid : id ∈ s.ids)
    (hver : s.vref.version = id ∨ s.vref.version = id + 1) : s.thisVer = id ∧ s.RefOk s.thisVer := by
  obtain ⟨heven, hlt⟩ := h.ids id hid
  have hversion := h.version
  have hnew := h.newId
  rw [limit] at hlt
  rw [VersionOk] at hversion
  cases hphase : s.phase with
  | live =>
    rw [hphase] at hversion
    have heq : s.thisVer = id := by omega
    exact ⟨heq, hphase, rfl, heq ▸ hid⟩
  | creating =>
    rw [hphase] at hversion
    have heq : s.thisVer = id := by omega
    exact absurd (heq ▸ hid) (hnew hphase)
  | free | recycling =>
    rw [hphase] at hversion hlt
    simp only [Phase.inUse, Bool.false_eq_true, if_false] at hlt
    omega

theorem Inv.reference {handed : List (ℕ × ℕ)} (hok : s.RefOk s.thisVer)
    (hhanded : ∀ p ∈ handed, p ∈ s.handed ∨ p.2 = p.1) :
    Inv { s.fetchAdd with refs := s.thisVer :: s.refs, handed := handed } leaked := by
  refine h.start (append_nil _).symm rfl rfl rfl rfl rfl rfl ?_ nofun (fun v hv => ?_) hhanded
  · show s.vref.nref + 1 + s.refs.length = s.vref.nref + (s.refs.length + 1) + 0
    omega
  · exact forall_mem_cons.2 ⟨hok, h.refs⟩ v hv

theorem Inv.address (id : ℕ) (failedAsWell : Bool) : Inv (s.address id failedAsWell) leaked := by
  rw [State.address]
  by_cases hid : id ∈ s.ids
  · split_ifs with hver
    · obtain ⟨heq, hok⟩ := h.refOk_of_version hid (hver.imp_right And.right)
      exact h.reference hok (forall_mem_append.2 ⟨fun _ => .inl, forall_mem_singleton.2 (.inr heq)⟩)
    · refine h.start rfl rfl rfl rfl rfl rfl rfl ?_ (fun o ho => ?_) h.refs fun p hp => .inl hp
      · show s.vref.nref + 1 + s.refs.length = s.vref.nref + s.refs.length + (1 + 0)
        omega
      · cases mem_singleton.1 ho
        refine ⟨?_, nofun, rfl, rfl, rfl⟩
        have hversion := h.version
        rw [VersionOk] at hversion
        rw [OpOk]
        cases hphase : s.phase with
        | live =>
          rw [hphase] at hversion
          exact hversion.1
        | creating =>
          rw [hphase] at hversion
          exact .inl hversion.1
        | _ => rfl
  · rw [if_neg hid]
    exact h

variable {v : ℕ}

omit h in
theorem length_erase_add (hv : v ∈ s.refs) : (s.refs.erase v).length + 1 = s.refs.length := by
  have := length_pos_of_mem hv
  rw [length_erase_of_mem hv]
  omega

theorem Inv.nref_pos_of_ref (hv : v ∈ s.refs) : 1 ≤ s.vref.nref := by
  have := length_pos_of_mem hv
  have := h.count
  omega

theorem Inv.units_le (hop : op ∈ s.ops) : op.units ≤ s.vref.nref := by
  have : op.units ≤ (s.ops.map Op.units).sum := le_sum_of_mem (mem_map_of_mem hop)
  have := h.count
  omega

omit h in
theorem dereferenceOp_ok {own : Option ℕ} (hphase : s.phase = .live) (heven : s.thisVer % 2 = 0) :
    ∀ o ∈ s.dereferenceOp own, s.OpOk o ∧ o.own = own ∧ o.isCreate = false ∧
      o.isRecycle = false ∧ o.isCreator = false := by
  intro o ho
  rw [dereferenceOp] at ho
  split at ho
  next hlast =>
    cases mem_singleton.1 ho
    refine ⟨⟨heven, hlast.2, ?_⟩, rfl, rfl, rfl, rfl⟩
    rw [limit, hphase]
    simp only [Phase.inUse, if_true]
    omega
  · cases ho

omit h in
theorem dereferenceOp_units (own : Option ℕ) : ((s.dereferenceOp own).map Op.units).sum =
      if s.dereferenceOp own = [] then 0 else own.toList.length := by
  rw [dereferenceOp]
  split <;> rfl

theorem Inv.even (hphase : s.phase = .live) : s.thisVer % 2 = 0 := by
  have := h.version
  rw [VersionOk, hphase] at this
  exact this.2

theorem Inv.dereference (v : ℕ) : Inv (s.dereference v) leaked := by
  rw [State.dereference]
  split_ifs with hv
  · have hok := h.refs v hv
    have hnew := @dereferenceOp_ok s none hok.1 (h.even hok.1)
    refine h.start rfl rfl rfl rfl rfl rfl rfl ?_ (fun o ho => ?_)
      (fun w hw => h.refs w (mem_of_mem_erase hw)) fun p hp => .inl hp
    · have := length_erase_add hv
      have := h.nref_pos_of_ref hv
      have hunits := @dereferenceOp_units s none
      rw [toList_none, length_nil, ite_self] at hunits
      show s.vref.nref - 1 + s.refs.length = s.vref.nref + (s.refs.erase v).length + _
      omega
    · obtain ⟨hopOk, hown, hrest⟩ := hnew o ho
      refine ⟨hopOk, fun w hw => ?_, hrest⟩
      rw [hown] at hw
      cases hw
  · exact h

theorem Inv.startWith (hok : s.RefOk v → s.OpOk op) (hown : op.own = some v) (hunits : op.units = 1)
    (hop : op.isCreate = false ∧ op.isRecycle = false ∧ op.isCreator = false) : Inv (s.start v op) leaked := by
  rw [State.start]
  split_ifs with hv
  · refine h.start rfl rfl rfl rfl rfl rfl rfl ?_ (fun o ho => ?_)
      (fun w hw => h.refs w (mem_of_mem_erase hw)) fun p hp => .inl hp
    · have := length_erase_add hv
      show s.vref.nref + s.refs.length = s.vref.nref + (s.refs.erase v).length + (op.units + 0)
      omega
    · cases mem_singleton.1 ho
      refine ⟨hok (h.refs v hv), fun w hw => ?_, hop⟩
      rw [hown] at hw
      cases hw
      exact h.refs v hv
  · exact h

theorem Inv.unref {ver1 : ℕ} {failedAsWell : Bool} (hk : s.ops[k]? = some (.unref ver1 failedAsWell)) :
    Inv (s.unref k ver1 failedAsWell) leaked := by
  have hpos : 1 ≤ s.vref.nref := h.units_le (mem_of_getElem? hk)
  -- Whatever it goes on with stands for no reference.
  have hgo : ∀ new : List Op, (∀ o ∈ new, s.OpOk o ∧ (∀ v ∈ o.own, s.RefOk v) ∧
      o.isCreate = false ∧ o.isRecycle = false) → (new.map Op.units).sum = 0 →
      new.countP Op.isCreator = 0 → Inv (s.fetchSub.goOn k new) leaked := by
    intro new hnew hunits hcreators
    refine h.goOn hk rfl rfl (.inl rfl) rfl rfl rfl rfl ?_ hnew ⟨rfl, rfl⟩ h.refs
      (Nat.le_of_eq hcreators) fun hs hl => .inl ⟨hs, hl⟩
    show s.vref.nref - 1 + s.refs.length + 1 + s.extra leaked =
      s.vref.nref + s.refs.length + (new.map Op.units).sum + s.extra leaked
    omega
  have hnil := hgo [] nofun rfl rfl
  rw [State.unref]
  by_cases hmany : 1 < s.vref.nref
  · rw [if_pos hmany]
    exact hnil
  rw [if_neg hmany, if_pos (Nat.le_antisymm (Nat.le_of_not_lt hmany) hpos)]
  by_cases hodd : s.vref.version % 2 = 1
  · split_ifs with hfit
    · refine hgo _ (fun o ho => ?_) rfl rfl
      cases mem_singleton.1 ho
      refine ⟨⟨hodd, ?_⟩, nofun, rfl, rfl⟩
      have hversion := h.version
      rw [VersionOk] at hversion
      rw [limit]
      cases hphase : s.phase <;> rw [hphase] at hversion <;>
        simp only [Phase.inUse, if_true, Bool.false_eq_true, if_false] <;> omega
    · exact hnil.check _
  · rw [if_neg hodd]
    exact hnil.check _

end

end Brpc.SocketRef
