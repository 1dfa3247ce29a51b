/-
# Versioned references are safe

When the version moves on nobody holds a reference and no operation stands for one
(`Inv.recycling_step`), so every step keeps the invariant (`Inv.step`): `references_safe`.
-/

import Brpc.SocketRef.Failed

namespace Brpc.SocketRef

open Lib List Option Op

variable {s : State} {leaked k : ℕ} {op : Op}

section

variable (h : Inv s leaked)
include h

/-- **Nobody is left once the count is zero**: no reference, the additional one included, and what
is in progress is about to recycle the slot. -/
theorem Inv.nobody_left (hzero : s.vref.nref = 0) (hlive : s.phase = .live) :
    s.refs = [] ∧ leaked = 0 ∧ s.status ≠ .refUsing ∧ ∀ o ∈ s.ops,
      (∃ ver2, o = .addressCas ver2) ∨ ∃ idVer ver, o = .derefCas none idVer ver := by
  have hcount := h.count
  have hextra : s.extra leaked = 0 := by omega
  rw [State.extra] at hextra
  have hstatus : s.status ≠ .refUsing := fun hno => by rw [if_pos ⟨hlive, hno⟩] at hextra; omega
  refine ⟨length_eq_zero_iff.1 (by omega), by omega, hstatus, fun o ho => ?_⟩
  have hunits : o.units = 0 := Nat.eq_zero_of_le_zero (hzero ▸ h.units_le ho)
  have hown : o.own = none := eq_none_iff_forall_not_mem.2 fun v hv => by
    have := units_of_own o hv
    rw [hunits] at this
    cases this
  have hnone : o.isCreator = false := by
    by_contra hc
    rcases (h.creator o ho (eq_true_of_ne_false hc)).2 with husing | hleaked
    · exact hstatus husing
    · omega
  have hok := h.ops o ho
  cases o with
  | addressCas ver2 => exact .inl ⟨ver2, rfl⟩
  | derefCas own idVer ver =>
    cases hown
    exact .inr ⟨idVer, ver, rfl⟩
  | setFailed | release =>
    cases hown
    cases hnone
  | recycle =>
    rw [State.OpOk, hlive] at hok
    cases hok.1
  | create | unref | reviveStore | revive | reviveUsing | derefExtra => cases hunits

/-- **The version moves on**, and the socket is about to be recycled. -/
theorem Inv.recycling_step (hk : s.ops[k]? = some op) (hzero : s.vref.nref = 0)
    (hlive : s.phase = .live) : op.own = none ∧ Inv { s.goOn k [.recycle none] with
      vref := ⟨s.thisVer + 2, 0⟩, phase := .recycling } leaked := by
  obtain ⟨hrefs, hleaked, -, hleft⟩ := h.nobody_left hzero hlive
  -- What is left stands for nothing.
  have hlate : ∀ o ∈ s.ops, o.isLate = true ∧ o.isCreate = false ∧ o.isRecycle = false := by
    intro o ho
    rcases hleft o ho with ⟨ver2, rfl⟩ | ⟨idVer, ver, rfl⟩ <;> exact ⟨rfl, rfl, rfl⟩
  have hop := hlate op (mem_of_getElem? hk)
  have hunits := h.units_le (mem_of_getElem? hk)
  have hlimit : s.limit = s.thisVer + 2 := by rw [State.limit, hlive]; rfl
  have hlt := h.recycles_lt
  have hnodup := h.nodup
  simp only [State.recycles, hlive, Phase.inUse, reduceCtorEq, if_true, if_false, append_nil] at hlt hnodup
  refine ⟨(own_of_isLate hop.1).1, h.moveOn hrefs (fun o ho => (hlate o ho).1) (replaceAt_perm hk) rfl rfl ?_
    ⟨rfl, h.even hlive⟩ (Nat.le_of_eq hlimit) (fun ver1 b hin => ?_) (Nat.le_refl 1)
    (forall_mem_singleton.2 ⟨⟨rfl, rfl⟩, rfl, by rintro ⟨⟩⟩) ?_ ?_ (fun w => .inl) (by rintro ⟨⟩) (fun c hc => ?_) ?_⟩
  · have hcount := h.count
    show 0 + (op.units + 0) + s.extra leaked = s.vref.nref + 0 + (0 + leaked)
    omega
  · rcases hleft _ hin with ⟨_, hno⟩ | ⟨_, _, hno⟩ <;> cases hno
  · rw [countP_eq_zero fun o ho => (hlate o ho).2.1, countP_singleton, countP_singleton, hop.2.1]
    rfl
  · rw [countP_eq_zero fun o ho => (hlate o ho).2.2, countP_singleton, countP_singleton, hop.2.2]
    rfl
  · simp only [State.recycles, State.goOn, if_true] at hc
    show c + 2 ≤ s.thisVer + 2
    rcases mem_append.1 hc with hc | hc
    · have := hlt c hc
      omega
    · rw [mem_singleton.1 hc]
  · simp only [State.recycles, State.goOn, if_true]
    refine nodup_append.2 ⟨hnodup, pairwise_singleton _ _, fun c hc d hd => ?_⟩
    have := hlt c hc
    rw [mem_singleton.1 hd]
    omega

theorem Inv.nref_pos_of_creating (hphase : s.phase = .creating) : 1 ≤ s.vref.nref := by
  have hcount := h.creating
  rw [if_pos hphase] at hcount
  obtain ⟨o, ho, hc⟩ := countP_pos_iff.1 (Nat.lt_of_lt_of_eq Nat.one_pos hcount.symm)
  cases o with
  | create => exact h.units_le ho
  | _ => cases hc

/-- With the count at zero, a version some `compare_exchange` still expects is that of the
socket that is there. -/
theorem Inv.live_of_cas (hzero : s.vref.nref = 0) (hlt : s.vref.version < s.limit) : s.phase = .live := by
  rw [State.limit] at hlt
  cases hphase : s.phase with
  | live => rfl
  | creating =>
    have hpos := h.nref_pos_of_creating hphase
    rw [hzero] at hpos
    cases hpos
  | free | recycling =>
    rw [hphase] at hlt
    exact absurd hlt (Nat.lt_irrefl _)

theorem Inv.derefCas {own : Option ℕ} {idVer ver : ℕ}
    (hk : s.ops[k]? = some (.derefCas own idVer ver)) : Inv (s.derefCas k own idVer ver) leaked := by
  obtain ⟨heven, hver, hlt⟩ := h.ops _ (mem_of_getElem? hk)
  rw [State.derefCas]
  split_ifs with hcas
  · have hzero : s.vref.nref = 0 := by rw [hcas]
    have hversion : s.vref.version = ver := by rw [hcas]
    have hlive := h.live_of_cas hzero (hversion ▸ hlt)
    have hok := h.version
    rw [State.VersionOk, hlive] at hok
    have hid : idVer = s.thisVer := by omega
    obtain ⟨hown, hinv⟩ := h.recycling_step hk hzero hlive
    cases hown
    rw [hid]
    exact hinv
  · exact h.finish hk rfl rfl ⟨rfl, rfl⟩

theorem Inv.addressCas {ver2 : ℕ} (hk : s.ops[k]? = some (.addressCas ver2)) : Inv (s.addressCas k ver2) leaked := by
  obtain ⟨hodd, hlt⟩ := h.ops _ (mem_of_getElem? hk)
  rw [State.addressCas]
  split_ifs with hcas
  · have hzero : s.vref.nref = 0 := by rw [hcas]
    have hversion : s.vref.version = ver2 := by rw [hcas]
    have hlive := h.live_of_cas hzero (hversion ▸ hlt)
    have hok := h.version
    rw [State.VersionOk, hlive] at hok
    have hid : ver2 + 1 = s.thisVer + 2 := by omega
    rw [hid]
    exact (h.recycling_step hk hzero hlive).2
  · exact h.finish hk rfl rfl ⟨rfl, rfl⟩

theorem Inv.recycle {own : Option ℕ} (hk : s.ops[k]? = some (.recycle own)) : Inv (s.recycle k own) leaked := by
  obtain ⟨hphase, hown⟩ := h.ops _ (mem_of_getElem? hk)
  cases hown
  have hne : s.phase ≠ .live := by rw [hphase]; rintro ⟨⟩
  have hversion := h.version
  rw [State.VersionOk, hphase] at hversion
  have hlimit : s.limit = s.vref.version := by rw [State.limit, hphase]; rfl
  have hlt := h.recycles_lt
  have hnodup := h.nodup
  simp only [State.recycles, hphase, Phase.inUse, Bool.false_eq_true, if_true, if_false] at hlt hnodup
  have hrecycles : (s.recycle k none).recycles = s.recycled ++ [s.thisVer] := append_nil _
  refine h.moveOn (h.refs_nil hne) (h.late hne) (replaceAt_perm hk) rfl rfl ?_ ?_ (Nat.le_of_eq hlimit)
    (fun ver1 b hin => ?_) (Nat.zero_le 1) (forall_mem_nil _) ?_ ?_ (fun w => .inl) (by rintro ⟨⟩) (fun c hc => ?_) ?_
  · simp only [State.extra, hphase, State.recycle, State.finish, State.goOn, reduceCtorEq, false_and,
      if_false, map_cons, map_nil, sum_cons, sum_nil, units, toList_none, length_nil]
    omega
  · show s.vref.version % 2 = 0
    omega
  · have hok := h.ops _ hin
    rw [State.OpOk, hphase] at hok
    exact hok
  · rw [h.creating, hphase]
    rfl
  · rw [h.recycling, hphase]
    rfl
  · exact hlt c (hrecycles ▸ hc)
  · rw [hrecycles]
    exact hnodup

/-- **Every step of an operation keeps the invariant.** -/
theorem Inv.run (hk : s.ops[k]? = some op) (a : Answer) : Inv (s.run k a op) (leaked + lost s a op) := by
  cases op with
  | create =>
    cases a with
    | ok | spurious => exact h.publish hk (.inl ⟨rfl, rfl⟩) rfl
    | late => exact h.publish hk (.inr ⟨rfl, rfl⟩) rfl
    | early =>
      refine h.publish hk (.inr ⟨rfl, rfl⟩) ?_
      show (if s.status = .refUsing then 1 else 0) + (leaked + lost s .early .create) = 1 + leaked
      rw [lost]
      by_cases hstatus : s.status = .refUsing
      · rw [if_pos hstatus, if_neg fun hno => hno.2 hstatus]
        omega
      · rw [if_neg hstatus, if_pos ⟨rfl, hstatus⟩]
        omega
  | unref => exact h.unref hk
  | addressCas => exact h.addressCas hk
  | setFailed => exact h.setFailed hk
  | release => exact h.release hk
  | derefExtra => exact h.derefExtra hk
  | derefCas => exact h.derefCas hk
  | reviveStore => exact h.reviveStore hk a
  | revive => exact h.revive hk a
  | reviveUsing => exact h.reviveUsing hk a
  | recycle => exact h.recycle hk

/-- **Every step keeps the invariant**, with the additional references it leaves behind. -/
theorem Inv.step (i : Input) : Inv (s.step i) (leaked + s.lost i) := by
  cases i with
  | create => exact h.create
  | address id => exact h.address id false
  | addressFailedAsWell id => exact h.address id true
  | reAddress v =>
    rw [State.step]
    split_ifs with hv
    · obtain ⟨hlive, -, hid⟩ := h.refs v hv
      exact h.reference ⟨hlive, rfl, hid⟩ fun p hp => .inl hp
    · exact h
  | dereference v => exact h.dereference v
  | setFailed => exact h.startWith (fun hok => ⟨hok.1, rfl⟩) rfl rfl ⟨rfl, rfl, rfl⟩
  | releaseAdditionalReference => exact h.startWith And.left rfl rfl ⟨rfl, rfl, rfl⟩
  | revive => exact h.startWith (fun _ => rfl) rfl rfl ⟨rfl, rfl, rfl⟩
  | run k a =>
    rw [State.step, State.lost]
    cases hk : s.ops[k]? with
    | none => exact h
    | some => exact h.run hk a

end

theorem State.inv_run (ops : List Input) : ∃ leaked, Inv (Lib.run step init ops) leaked := by
  have hstep : ∀ (s : State) (i : Input), (∃ leaked, Inv s leaked) →
      ∃ leaked, Inv (s.step i) leaked := fun s i ⟨_, h⟩ => ⟨_, h.step i⟩
  exact Lib.run_invariant' hstep ops ⟨0, inv_init⟩

/-- **Versioned references are safe.**  Each socket is recycled once at most; one that has been or
is about to be recycled is not referred to; and the socket handed out for an id is the one the id
was returned for. -/
theorem State.references_safe (ops : List Input) : (Lib.run step init ops).recycles.Nodup ∧
      (∀ c ∈ (Lib.run step init ops).recycles, ¬ (Lib.run step init ops).Holds c) ∧
      ∀ p ∈ (Lib.run step init ops).handed, p.2 = p.1 := by
  obtain ⟨leaked, h⟩ := inv_run ops
  refine ⟨h.nodup, fun c hc hholds => ?_, h.handed⟩
  have hok : (Lib.run step init ops).RefOk c := by
    rcases hholds with hv | ⟨op, hop, hown⟩
    · exact h.refs c hv
    · exact h.owns op hop c hown
  have hlt := h.recycles_lt c hc
  rw [hok.1, hok.2.1] at hlt
  exact Nat.lt_irrefl _ hlt

/-! ## Somebody is about to recycle the slot -/

variable {s s' : State} {k : ℕ} {op : Op}

def Op.isRevive : Op → Bool
  | .reviveStore .. | .revive .. | .reviveUsing _ => true
  | _ => false

/-- The step of an operation that does not lose track of the additional reference or of
the last reference. -/
def Op.Fits (s : State) (a : Answer) : Op → Prop
  | .create => a = .early → s.status = .refUsing
  | .unref .. => ¬ (s.phase = .live ∧ s.vref.version = s.thisVer ∧ s.vref.nref = 1)
  | _ => True

instance (s : State) (a : Answer) : (op : Op) → Decidable (op.Fits s a)
  | .create => inferInstanceAs (Decidable (_ → _))
  | .unref .. => inferInstanceAs (Decidable (¬ _))
  | .addressCas _ | .setFailed .. | .release _ | .derefExtra _ | .derefCas .. | .reviveStore ..
  | .revive .. | .reviveUsing _ | .recycle _ => isTrue trivial

namespace State

/-- **The steps that do not lose a reference.** -/
def Fits (s : State) : Input → Prop
  | .revive v => v ∈ s.refs → s.vref.version = s.thisVer + 1 ∧ s.status = .refRecycled ∧
      s.ops.all fun op => !op.isRevive
  | .run k a => ∀ op ∈ s.ops[k]?.toList, op.Fits s a
  | _ => True

instance (s : State) : (i : Input) → Decidable (s.Fits i)
  | .revive _ => inferInstanceAs (Decidable (_ → _))
  | .run k a => inferInstanceAs (Decidable (∀ op ∈ s.ops[k]?.toList, op.Fits s a))
  | .create | .address _ | .addressFailedAsWell _ | .reAddress _ | .dereference _ | .setFailed _
  | .releaseAdditionalReference _ => isTrue trivial

/-- The `compare_exchange` of this operation expects the version there is. -/
def Expects (s : State) : Op → Prop
  | .addressCas ver2 => s.vref.version = ver2
  | .derefCas _ _ ver => s.vref.version = ver
  | _ => False

/-- How a `Revive` in progress fits the slot: the socket stays failed and the additional reference
given back until then. -/
def ReviveOk (s : State) : Op → Prop
  | .reviveStore _ _ vref => s.status = .refRecycled ∧ s.vref.version = s.thisVer + 1 ∧
      vref.version = s.thisVer + 1 ∧ 1 ≤ vref.nref
  | .revive _ _ vref => s.status = .refReviving ∧ s.vref.version = s.thisVer + 1 ∧
      vref.version = s.thisVer + 1 ∧ 1 ≤ vref.nref
  | .reviveUsing _ => s.status = .refReviving
  | _ => True

/-- Somebody is about to recycle a socket whose count is zero. -/
def Watched (s : State) : Prop :=
  s.phase = .live → s.vref.nref = 0 → ∃ op ∈ s.ops, s.Expects op

end State

/-- **The invariant of a slot that loses no reference.** -/
structure Sound (s : State) : Prop where
  inv : Inv s 0
  watched : s.Watched
  revives : s.ops.countP Op.isRevive ≤ 1
  reviving : ∀ op ∈ s.ops, s.ReviveOk op
  checks : s.checkFailed = false

theorem watched_of_pos (h : 1 ≤ s.vref.nref) : s.Watched := fun _ hzero => by
  rw [hzero] at h
  cases h

theorem reviveOk_of_not_revive (h : op.isRevive = false) : s.ReviveOk op := by
  cases op with
  | reviveStore | revive | reviveUsing => cases h
  | _ => trivial

/-- The steps that start or end no `Revive` and leave status and version as they are. -/
theorem Sound.frame (h : Sound s) (hinv : Inv s' 0) (hwatched : s'.Watched)
    (hstatus : s'.status = s.status) (hver : s'.vref.version = s.vref.version)
    (hthis : s'.thisVer = s.thisVer) (hops : ∀ o ∈ s'.ops, o ∈ s.ops ∨ o.isRevive = false)
    (hcount : s'.ops.countP Op.isRevive ≤ s.ops.countP Op.isRevive)
    (hchecks : s'.checkFailed = false) : Sound s' := by
  refine ⟨hinv, hwatched, hcount.trans h.revives, fun o ho => ?_, hchecks⟩
  rcases hops o ho with hold | hnot
  · have hok := h.reviving o hold
    cases o with
    | reviveStore | revive | reviveUsing =>
      rw [State.ReviveOk] at hok ⊢
      rw [hstatus, ← hthis, ← hver] at *
      exact hok
    | _ => trivial
  · exact reviveOk_of_not_revive hnot

theorem Sound.of_no_revive (hinv : Inv s 0) (hwatched : s.Watched)
    (hnone : ∀ o ∈ s.ops, o.isRevive = false) (hchecks : s.checkFailed = false) : Sound s :=
  ⟨hinv, hwatched, (Nat.le_of_eq (countP_eq_zero hnone)).trans (Nat.zero_le _),
    fun o ho => reviveOk_of_not_revive (hnone o ho), hchecks⟩

theorem Inv.no_revive (h : Inv s 0) (hphase : s.phase ≠ .live) (hop : op ∈ s.ops) : op.isRevive = false := by
  have hown := h.own_none hphase hop
  cases op with
  | reviveStore | revive | reviveUsing => cases hown
  | _ => rfl

theorem Inv.sound (h : Inv s 0) (hphase : s.phase ≠ .live) (hchecks : s.checkFailed = false) : Sound s :=
  .of_no_revive h (fun hlive => absurd hlive hphase) (fun _ ho => h.no_revive hphase ho) hchecks

section

variable (h : Sound s)
include h

theorem Sound.no_revive_of_using (hstatus : s.status = .refUsing) (hop : op ∈ s.ops) : op.isRevive = false := by
  have hok := h.reviving op hop
  cases op with
  | reviveStore | revive =>
    rw [State.ReviveOk, hstatus] at hok
    cases hok.1
  | reviveUsing =>
    rw [State.ReviveOk, hstatus] at hok
    cases hok
  | _ => rfl

theorem Sound.goOn {new : List Op} (hk : s.ops[k]? = some op)
    (hops : s'.ops = replaceAt s.ops k new) (hnew : ∀ o ∈ new, o.isRevive = false)
    (hinv : Inv s' 0) (hwatched : s'.Watched) (hstatus : s'.status = s.status)
    (hver : s'.vref.version = s.vref.version) (hthis : s'.thisVer = s.thisVer)
    (hchecks : s'.checkFailed = false) : Sound s' := by
  refine h.frame hinv hwatched hstatus hver hthis ?_ ?_ hchecks
  · rw [hops]
    exact forall_mem_replaceAt (fun _ => .inl) fun o ho => .inr (hnew o ho)
  · have hcount := @countP_replaceAt _ s.ops new k op hk Op.isRevive
    rw [countP_eq_zero hnew] at hcount
    rw [hops]
    omega

theorem Sound.add {new : List Op} (hops : s'.ops = s.ops ++ new) (hnew : ∀ o ∈ new, o.isRevive = false)
    (hinv : Inv s' 0) (hwatched : s'.Watched) (hstatus : s'.status = s.status)
    (hver : s'.vref.version = s.vref.version) (hthis : s'.thisVer = s.thisVer)
    (hchecks : s'.checkFailed = false) : Sound s' := by
  refine h.frame hinv hwatched hstatus hver hthis (fun o ho => ?_) ?_ hchecks
  · rw [hops] at ho
    exact (mem_append.1 ho).imp_right (hnew o)
  · rw [hops, countP_append, countP_eq_zero hnew, Nat.add_zero]

omit h in
theorem Inv.version_live {leaked : ℕ} (h : Inv s leaked) (hlive : s.phase = .live) :
    s.vref.version = s.thisVer ∨ s.vref.version = s.thisVer + 1 := by
  have := h.version
  rw [State.VersionOk, hlive] at this
  exact this.1

omit h in
/-- `Dereference` of a reference to the socket that is there reaches no LOG(FATAL), and recycles
the slot if it was the last. -/
theorem Inv.dereference_fits {leaked : ℕ} (h : Inv s leaked) (hlive : s.phase = .live)
    (hpos : 1 ≤ s.vref.nref) : s.dereferenceOk = true ∧ ∀ own, s.vref.nref = 1 →
      s.dereferenceOp own = [.derefCas own s.thisVer s.vref.version] := by
  have hver := h.version_live hlive
  constructor
  · rw [State.dereferenceOk, Bool.or_eq_true, decide_eq_true_iff, Bool.and_eq_true,
      decide_eq_true_iff, Bool.or_eq_true, decide_eq_true_iff, decide_eq_true_iff]
    rcases Nat.lt_or_eq_of_le hpos with hmany | hone
    · exact .inl hmany
    · exact .inr ⟨hone.symm, hver⟩
  · intro own hone
    rw [State.dereferenceOp, if_pos ⟨hone, hver⟩]

omit h in
theorem dereferenceOp_not_revive {own : Option ℕ} : ∀ o ∈ s.dereferenceOp own, o.isRevive = false := by
  rw [State.dereferenceOp]
  split
  · exact forall_mem_singleton.2 rfl
  · exact forall_mem_nil _

theorem Sound.create : Sound s.create := by
  have hinv := h.inv.create
  rw [State.create] at hinv ⊢
  split_ifs at hinv ⊢ with hfree
  · exact hinv.sound (by rintro ⟨⟩) h.checks
  · exact h

theorem Sound.address (id : ℕ) (failedAsWell : Bool) : Sound (s.address id failedAsWell) := by
  have hinv := h.inv.address id failedAsWell
  rw [State.address] at hinv ⊢
  split at hinv
  next hid =>
    rw [if_pos hid]
    split at hinv
    next hver =>
      rw [if_pos hver]
      exact h.add (append_nil _).symm (forall_mem_nil _) hinv (watched_of_pos (Nat.succ_pos _)) rfl rfl rfl h.checks
    next hver =>
      rw [if_neg hver]
      exact h.add rfl (forall_mem_singleton.2 rfl) hinv (watched_of_pos (Nat.succ_pos _)) rfl rfl rfl h.checks
  next hid =>
    rw [if_neg hid]
    exact h

theorem Sound.dereference (v : ℕ) : Sound (s.dereference v) := by
  have hinv := h.inv.dereference v
  rw [State.dereference] at hinv ⊢
  split_ifs at hinv ⊢ with hv
  · have hlive := (h.inv.refs v hv).1
    have hpos := h.inv.nref_pos_of_ref hv
    obtain ⟨hok, hlast⟩ := h.inv.dereference_fits hlive hpos
    refine h.add rfl dereferenceOp_not_revive hinv (fun _ hzero => ?_) rfl rfl rfl ?_
    -- The last reference: the operation added is the one that expects the version.
    · change s.vref.nref - 1 = 0 at hzero
      have hone : s.vref.nref = 1 := by omega
      exact ⟨.derefCas none s.thisVer s.vref.version,
        mem_append_right _ (by rw [hlast none hone]; exact mem_singleton_self _), rfl⟩
    · show (s.checkFailed || !s.dereferenceOk) = false
      rw [h.checks, hok]
      rfl
  · exact h

theorem Sound.start {v : ℕ} (hinv : Inv (s.start v op) 0) (hop : op.isRevive = false) : Sound (s.start v op) := by
  rw [State.start] at hinv ⊢
  split_ifs at hinv ⊢ with hv
  · have hpos := h.inv.nref_pos_of_ref hv
    exact h.add rfl (forall_mem_singleton.2 hop) hinv (watched_of_pos hpos) rfl rfl rfl h.checks
  · exact h

theorem Sound.startRevive {v : ℕ}
    (hinv : Inv (s.start v (.reviveStore v s.thisVer s.vref)) 0) (hfits : s.Fits (.revive v)) :
    Sound (s.start v (.reviveStore v s.thisVer s.vref)) := by
  rw [State.start] at hinv ⊢
  split_ifs at hinv ⊢ with hv
  · obtain ⟨hver, hstatus, hall⟩ := hfits hv
    have hnone : ∀ o ∈ s.ops, o.isRevive = false := fun o ho => by
      simpa using all_eq_true.1 hall o ho
    have hpos := h.inv.nref_pos_of_ref hv
    refine ⟨hinv, watched_of_pos hpos, ?_, forall_mem_append.2 ⟨fun o ho => ?_, ?_⟩, h.checks⟩
    · rw [countP_append, countP_eq_zero hnone]
      exact Nat.le_refl 1
    · exact reviveOk_of_not_revive (hnone o ho)
    · exact forall_mem_singleton.2 ⟨hstatus, hver, hver, hpos⟩
  · exact h

end

end Brpc.SocketRef
