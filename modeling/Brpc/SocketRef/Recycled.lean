/-
# No socket is leaked

Every step that fits keeps `Sound`, so no CHECK fails, and a socket without references on which
nothing is in progress has been recycled (`slot_recycled`).
-/

import Brpc.SocketRef.Safe

namespace Brpc.SocketRef

open Lib List

variable {s s' : State} {k : ℕ} {op : Op}

theorem Inv.nref_pos (h : Inv s 0) (hop : op ∈ s.ops) (hlive : s.phase = .live)
    (hstands : 1 ≤ op.units ∨ op.isCreator = true) : 1 ≤ s.vref.nref := by
  rcases hstands with hunits | hcreator
  · exact hunits.trans (h.units_le hop)
  · have hstatus : s.status = .refUsing := (h.creator op hop hcreator).2.resolve_right (Nat.lt_irrefl 0)
    have hcount := h.count
    rw [State.extra, if_pos ⟨hlive, hstatus⟩] at hcount
    omega

theorem stands_of_own (own : Option ℕ) (idVer : ℕ) (vref : VRef) :
    1 ≤ Op.units (.setFailed own idVer vref) ∨ Op.isCreator (.setFailed own idVer vref) = true := by
  cases own with
  | none => exact .inr rfl
  | some => exact .inl (Nat.le_refl 1)

section

variable (h : Sound s)
include h

theorem Sound.lost (hop : op ∈ s.ops) {a : Answer} (hfits : op.Fits s a) : Op.lost s a op = 0 := by
  have hok := h.reviving op hop
  cases op with
  | create => exact if_neg fun hno => hno.2 (hfits hno.1)
  | reviveStore | reviveUsing | revive =>
    rw [Op.lost, if_neg]
    rw [State.ReviveOk] at hok
    intro hno
    simp_all
  | _ => rfl

theorem Sound.created (hk : s.ops[k]? = some .create) (a : Answer)
    (hinv : Inv (s.created k a) 0) : Sound (s.created k a) := by
  have hmem := mem_of_getElem? hk
  have hcreating : s.phase = .creating := h.inv.ops _ hmem
  have hold : ∀ o ∈ s.ops, o.isRevive = false := fun o ho =>
    h.inv.no_revive (by rw [hcreating]; nofun) ho
  have hpos : 1 ≤ s.vref.nref := h.inv.nref_pos_of_creating hcreating
  cases a with
  | ok | spurious =>
    exact .of_no_revive hinv (watched_of_pos hpos) (forall_mem_replaceAt hold nofun) h.checks
  | early | late =>
    exact .of_no_revive hinv (watched_of_pos hpos) (forall_mem_replaceAt hold (forall_mem_singleton.2 rfl)) h.checks

theorem Sound.unref {ver1 : ℕ} {failedAsWell : Bool} (hk : s.ops[k]? = some (.unref ver1 failedAsWell))
    (hfits : ¬ (s.phase = .live ∧ s.vref.version = s.thisVer ∧ s.vref.nref = 1))
    (hinv : Inv (s.unref k ver1 failedAsWell) 0) : Sound (s.unref k ver1 failedAsWell) := by
  have hmem := mem_of_getElem? hk
  have hpos : 1 ≤ s.vref.nref := h.inv.units_le hmem
  have hok := h.inv.ops _ hmem
  have hversion := h.inv.version
  rw [State.unref] at hinv ⊢
  by_cases hmany : 1 < s.vref.nref
  · rw [if_pos hmany] at hinv ⊢
    exact h.goOn hk rfl (forall_mem_nil _) hinv (watched_of_pos (Nat.le_sub_one_of_lt hmany)) rfl rfl rfl h.checks
  have hone : s.vref.nref = 1 := by omega
  rw [if_neg hmany, if_pos hone] at hinv ⊢
  by_cases hodd : s.vref.version % 2 = 1
  · -- A failed socket: whoever saw its version, or the one before, recycles it.
    have hlive : s.phase = .live := by
      rw [State.VersionOk] at hversion
      cases hphase : s.phase <;> rw [hphase] at hversion <;> first | rfl | omega
    rw [State.VersionOk, hlive] at hversion
    rw [State.OpOk, hlive] at hok
    have hver : ver1 = s.vref.version ∨ ver1 + 1 = s.vref.version := by
      simp only [Phase.inUse, if_true] at hok
      omega
    rw [if_pos hodd, if_pos hver] at hinv ⊢
    refine h.goOn hk rfl (forall_mem_singleton.2 rfl) hinv (fun _ _ => ?_) rfl rfl rfl h.checks
    exact ⟨.addressCas s.vref.version, mem_replaceAt.2 (.inr (mem_singleton_self _)), rfl⟩
  · -- A free slot, as the stale lookup takes it to be.
    rw [if_neg hodd] at hinv ⊢
    have hne : s.phase ≠ .live := by
      intro hlive
      have := h.inv.version_live hlive
      have := h.inv.even hlive
      exact hfits ⟨hlive, by omega, hone⟩
    have hnot : s.phase ≠ .creating := by
      intro hphase
      have : 1 ≤ s.vref.nref - 1 := hinv.nref_pos_of_creating hphase
      omega
    refine h.goOn hk rfl (forall_mem_nil _) hinv (fun hlive _ => absurd hlive hne) rfl rfl rfl ?_
    have hver : ver1 = s.vref.version := by
      rw [State.OpOk, if_neg] at hok
      · exact hok
      · cases hphase : s.phase <;> simp_all [Phase.inUse]
    show (s.checkFailed || !(failedAsWell || decide (ver1 = s.vref.version))) = false
    rw [h.checks, decide_eq_true hver, Bool.or_true]
    rfl

variable {own : Option ℕ}

/-- An operation that does not recycle the slot after all: it is not the one the slot is
waiting for. -/
theorem Sound.giveUp (hk : s.ops[k]? = some op)
    (hinv : Inv (s.finish k own) 0) (hnot : s.phase = .live → s.vref.nref = 0 → ¬ s.Expects op) :
    Sound (s.finish k own) := by
  refine h.goOn hk rfl nofun hinv (fun hlive hzero => ?_) rfl rfl rfl h.checks
  obtain ⟨o, ho, hexpects⟩ := h.watched hlive hzero
  refine ⟨o, mem_replaceAt_of_ne hk ho fun heq => ?_, ?_⟩
  · rw [heq] at hexpects
    exact hnot hlive hzero hexpects
  · cases o with
    | addressCas | derefCas => exact hexpects
    | _ => exact hexpects.elim

theorem Sound.addressCas {ver2 : ℕ} (hk : s.ops[k]? = some (.addressCas ver2))
    (hinv : Inv (s.addressCas k ver2) 0) : Sound (s.addressCas k ver2) := by
  rw [State.addressCas] at hinv ⊢
  split_ifs at hinv ⊢ with hcas
  · exact hinv.sound (by rintro ⟨⟩) h.checks
  · exact h.giveUp hk hinv fun _ hzero hver => hcas (by rw [← hver, ← hzero])

theorem Sound.derefCas {idVer ver : ℕ}
    (hk : s.ops[k]? = some (.derefCas own idVer ver)) (hinv : Inv (s.derefCas k own idVer ver) 0) :
    Sound (s.derefCas k own idVer ver) := by
  rw [State.derefCas] at hinv ⊢
  split_ifs at hinv ⊢ with hcas
  · exact hinv.sound (by rintro ⟨⟩) h.checks
  · exact h.giveUp hk hinv fun _ hzero hver => hcas (by rw [← hver, ← hzero])

theorem Sound.setFailed {idVer : ℕ} {vref : VRef}
    (hk : s.ops[k]? = some (.setFailed own idVer vref)) (hinv : Inv (s.setFailed k own idVer vref) 0) :
    Sound (s.setFailed k own idVer vref) := by
  have hmem := mem_of_getElem? hk
  obtain ⟨hlive, hid⟩ := h.inv.ops _ hmem
  have hpos := h.inv.nref_pos hmem hlive (stands_of_own own idVer vref)
  rw [State.setFailed] at hinv ⊢
  by_cases hver : vref.version ≠ idVer
  · rw [if_pos hver] at hinv ⊢
    exact h.goOn hk rfl (forall_mem_nil _) hinv (watched_of_pos hpos) rfl rfl rfl h.checks
  split_ifs at hinv ⊢ with hcas
  · have hcount := @countP_replaceAt _ s.ops [.release own] k _ hk Op.isRevive
    refine ⟨hinv, watched_of_pos (hcas ▸ hpos), Nat.le_trans (Nat.le_of_eq hcount) h.revives,
      forall_mem_replaceAt (fun o ho => ?_) (forall_mem_singleton.2 trivial), h.checks⟩
    -- A `Revive` that still has to move the version back would have seen the socket failed.
    · have hok := h.reviving o ho
      have hnot : s.vref.version = s.thisVer := by rw [hcas, ← hid]; exact not_not.1 hver
      cases o with
      | reviveStore | revive =>
        have := hok.2.1
        omega
      | reviveUsing => exact hok
      | _ => trivial
  · exact h.goOn hk rfl (forall_mem_singleton.2 rfl) hinv (watched_of_pos hpos) rfl rfl rfl h.checks

theorem Sound.release (hk : s.ops[k]? = some (.release own))
    (hinv : Inv (s.release k own) 0) : Sound (s.release k own) := by
  have hmem := mem_of_getElem? hk
  have hlive : s.phase = .live := h.inv.ops _ hmem
  have hpos : 1 ≤ s.vref.nref := h.inv.nref_pos hmem hlive (by
    cases own with
    | none => exact .inr rfl
    | some => exact .inl (Nat.le_refl 1))
  rw [State.release] at hinv ⊢
  cases hstatus : s.status with
  | refReviving => exact h
  | refRecycled =>
    rw [hstatus] at hinv
    exact h.goOn hk rfl (forall_mem_nil _) hinv (watched_of_pos hpos) rfl rfl rfl h.checks
  | refUsing =>
    rw [hstatus] at hinv
    exact .of_no_revive hinv (watched_of_pos hpos) (forall_mem_replaceAt
      (fun o ho => h.no_revive_of_using hstatus ho) (forall_mem_singleton.2 rfl)) h.checks

theorem Sound.derefExtra (hk : s.ops[k]? = some (.derefExtra own))
    (hinv : Inv (s.derefExtra k own) 0) : Sound (s.derefExtra k own) := by
  have hmem := mem_of_getElem? hk
  have hlive : s.phase = .live := h.inv.ops _ hmem
  have hunits : own.toList.length + 1 ≤ s.vref.nref := h.inv.units_le hmem
  have hpos : 1 ≤ s.vref.nref := (Nat.le_add_left 1 _).trans hunits
  obtain ⟨hok, hlast⟩ := h.inv.dereference_fits hlive hpos
  rw [State.derefExtra] at hinv ⊢
  by_cases hone : s.vref.nref = 1
  · rw [if_neg (by rw [hlast own hone]; rintro ⟨⟩)] at hinv ⊢
    refine h.goOn hk rfl dereferenceOp_not_revive hinv (fun _ _ => ?_) rfl rfl rfl h.checks
    exact ⟨.derefCas own s.thisVer s.vref.version, mem_replaceAt.2 (.inr (by
      rw [hlast own hone]; exact mem_singleton_self _)), rfl⟩
  · have hnil : s.dereferenceOp own = [] := if_neg fun hno => hone hno.1
    rw [if_pos hnil] at hinv ⊢
    refine h.goOn hk rfl (forall_mem_nil _) hinv (watched_of_pos ?_) rfl rfl rfl ?_
    · show 1 ≤ s.vref.nref - 1
      omega
    · show (s.checkFailed || !s.dereferenceOk) = false
      rw [h.checks, hok]
      rfl

theorem Sound.others (hk : s.ops[k]? = some op) (hop : op.isRevive = true) :
    ∀ o ∈ replaceAt s.ops k [], o.isRevive = false := by
  have hcount := @countP_replaceAt _ s.ops [] k op hk Op.isRevive
  have hle := h.revives
  rw [if_pos hop, countP_nil] at hcount
  intro o ho
  exact eq_false_of_ne_true (List.countP_eq_zero.1 (Nat.le_antisymm (by omega) (Nat.zero_le _)) o ho)

theorem Sound.revived {new : Op} (hk : s.ops[k]? = some op) (hop : op.isRevive = true)
    (hops : s'.ops = replaceAt s.ops k [new]) (hinv : Inv s' 0) (hwatched : s'.Watched)
    (hnew : s'.ReviveOk new) (hchecks : s'.checkFailed = false) : Sound s' := by
  have hothers := h.others hk hop
  refine ⟨hinv, hwatched, ?_, ?_, hchecks⟩
  · have hcount := @countP_replaceAt _ s.ops [new] k op hk Op.isRevive
    have hle := h.revives
    have hone : [new].countP Op.isRevive ≤ 1 := countP_le_length
    rw [if_pos hop] at hcount
    rw [hops]
    omega
  · rw [hops]
    intro o ho
    rcases mem_replaceAt.1 ho with ho | ho
    · exact reviveOk_of_not_revive (hothers o ho)
    · rw [mem_singleton.1 ho]
      exact hnew

theorem Sound.revive {own idVer : ℕ} {vref : VRef} (a : Answer)
    (hk : s.ops[k]? = some (.revive own idVer vref)) (hinv : Inv (s.revive k own idVer vref a) 0) :
    Sound (s.revive k own idVer vref a) := by
  have hmem := mem_of_getElem? hk
  have hid : idVer = s.thisVer := h.inv.ops _ hmem
  have hunits : 1 ≤ s.vref.nref := h.inv.units_le hmem
  obtain ⟨hstatus, hversion, hver, hpos⟩ := h.reviving _ hmem
  have hcheck : s.check (vref.version = idVer + 1) = s := by
    have hchecks : (s.checkFailed || !decide (vref.version = idVer + 1)) = s.checkFailed := by
      rw [decide_eq_true (by rw [hver, hid])]
      exact Bool.or_false _
    rw [State.check, hchecks]
  rw [State.revive, hcheck] at hinv ⊢
  by_cases hfew : vref.nref ≤ 1
  · simp only [if_pos hfew] at hinv ⊢
    refine .of_no_revive hinv (watched_of_pos hunits) (h.others hk rfl) ?_
    show (s.checkFailed || !decide (vref.nref = 1)) = false
    rw [h.checks, decide_eq_true (Nat.le_antisymm hfew hpos)]
    rfl
  split_ifs at hinv ⊢ with hcas
  · exact h.revived hk rfl rfl hinv (watched_of_pos (Nat.succ_pos _)) hstatus h.checks
  · exact h.revived hk rfl rfl hinv (watched_of_pos hunits) ⟨hstatus, hversion, hversion, hunits⟩ h.checks

/-- **A step of an operation that fits keeps the slot sound.** -/
theorem Sound.run (hk : s.ops[k]? = some op) (a : Answer) (hfits : op.Fits s a) : Sound (s.run k a op) := by
  have hmem := mem_of_getElem? hk
  have hinv := h.inv.run hk a
  rw [h.lost hmem hfits] at hinv
  have hok := h.reviving op hmem
  cases op with
  | create => exact h.created hk a hinv
  | unref => exact h.unref hk hfits hinv
  | addressCas => exact h.addressCas hk hinv
  | setFailed => exact h.setFailed hk hinv
  | release => exact h.release hk hinv
  | derefExtra => exact h.derefExtra hk hinv
  | derefCas => exact h.derefCas hk hinv
  | reviveStore =>
    exact h.revived hk rfl rfl hinv (watched_of_pos (h.inv.units_le hmem)) ⟨rfl, hok.2⟩ h.checks
  | revive => exact h.revive a hk hinv
  | reviveUsing =>
    have hpos : 2 ≤ s.vref.nref := h.inv.units_le hmem
    exact .of_no_revive hinv (watched_of_pos (Nat.le_of_succ_le hpos)) (h.others hk rfl) h.checks
  | recycle => exact hinv.sound nofun h.checks

/-- **A step that fits keeps the slot sound.** -/
theorem Sound.step (i : Input) (hfits : s.Fits i) : Sound (s.step i) := by
  cases i with
  | create => exact h.create
  | address id => exact h.address id false
  | addressFailedAsWell id => exact h.address id true
  | reAddress v =>
    have hinv := h.inv.step (.reAddress v)
    rw [State.step] at hinv ⊢
    split_ifs at hinv ⊢ with hv
    · exact h.add (append_nil _).symm (forall_mem_nil _) hinv (watched_of_pos (Nat.succ_pos _)) rfl rfl rfl h.checks
    · exact h
  | dereference v => exact h.dereference v
  | setFailed v => exact h.start (h.inv.step (.setFailed v)) rfl
  | releaseAdditionalReference v => exact h.start (h.inv.step (.releaseAdditionalReference v)) rfl
  | revive v => exact h.startRevive (h.inv.step (.revive v)) hfits
  | run k a =>
    rw [State.step]
    cases hk : s.ops[k]? with
    | none => exact h
    | some op => exact h.run hk a (hfits op (by rw [hk]; exact mem_singleton_self op))

end

theorem sound_init : Sound State.init := .of_no_revive inv_init nofun nofun rfl

namespace State

/-- A socket that is released, not referred to and not being worked on has been recycled; and no
CHECK has failed. -/
def Recycled (s : State) : Prop :=
  (s.status = .refRecycled → s.refs = [] → s.ops = [] → s.phase = .free) ∧ s.checkFailed = false

instance (s : State) : Decidable s.Recycled := inferInstanceAs (Decidable (_ ∧ _))

end State

theorem Sound.recycled (h : Sound s) : s.Recycled := by
  refine ⟨fun hstatus hrefs hops => ?_, h.checks⟩
  have hcount := h.inv.count
  have hC := h.inv.creating
  have hR := h.inv.recycling
  rw [hops] at hC hR
  cases hphase : s.phase with
  | free => rfl
  | creating =>
    rw [hphase] at hC
    cases hC
  | recycling =>
    rw [hphase] at hR
    cases hR
  | live =>
    rw [hrefs, hops, State.extra, if_neg (fun hno => by rw [hstatus] at hno; cases hno.2)] at hcount
    obtain ⟨o, ho, -⟩ := h.watched hphase hcount
    rw [hops] at ho
    cases ho

namespace State

/-- **No socket is leaked in a run that loses no reference**, that is whose steps fit. -/
theorem slot_recycled (is : List Input) (h : Along step Fits init is) : (Lib.run step init is).Recycled :=
  (run_invariant (fun _ i hs hfits => hs.step i hfits) is init sound_init h).recycled

/-- A socket is created, fails and is revived, is released by its owner and recycled by a
reader. -/
def revivedAndReleased : List Input :=
  [.create, .run 0 .ok, .address 0, .address 0, .setFailed 0, .run 0 .ok, .run 0 .ok, .run 0 .ok,
    .revive 0, .run 0 .ok, .run 0 .spurious, .run 0 .ok, .run 0 .ok,
    .releaseAdditionalReference 0, .run 0 .ok, .run 0 .ok, .dereference 0, .dereference 0,
    .run 0 .ok, .run 0 .ok]

theorem revived_and_recycled : (Lib.run step init revivedAndReleased).recycled = [0] ∧
      (Lib.run step init revivedAndReleased).Recycled :=
  ⟨by decide, slot_recycled _ (by decide)⟩

/-- A lookup with the id of the first socket has taken its reference when the second one is
released without `SetFailed`, and gives it back last. -/
def staleLookup : List Input :=
  [.create, .run 0 .ok, .address 0, .setFailed 0, .run 0 .ok, .run 0 .ok, .run 0 .ok,
    .dereference 0, .run 0 .ok, .run 0 .ok,
    .create, .run 0 .ok, .address 0, .address 2, .releaseAdditionalReference 2,
    .run 1 .ok, .run 1 .ok, .dereference 2, .run 0 .ok]

/-- **A stale lookup leaks a socket**: nobody refers to the second socket any more, and it has not
been recycled. -/
theorem stale_lookup_leaks :
    (Lib.run step init staleLookup).recycled = [0] ∧ (Lib.run step init staleLookup).thisVer = 2 ∧
      (Lib.run step init staleLookup).phase = .live ∧ ¬ (Lib.run step init staleLookup).Recycled := by
  decide

end State
end Brpc.SocketRef
