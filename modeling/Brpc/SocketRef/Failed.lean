/-
# The additional reference

`SetFailed`, `ReleaseAdditionalReference` and `Revive` of `brpc/socket.cpp`.  `State.lost` counts
the additional references a step leaves behind that nobody will give back.
-/

import Brpc.SocketRef.Steps

namespace Brpc.SocketRef

open Lib List Option Op

variable {s : State} {leaked k : ℕ} {op : Op}

/-- The additional references an operation leaves behind: REF_USING is overwritten, or a
socket fails in `Create` before it is stored. -/
def Op.lost (s : State) (a : Answer) : Op → ℕ
  | .create => if a = .early ∧ s.status ≠ .refUsing then 1 else 0
  | .reviveStore .. | .reviveUsing _ => if s.status = .refUsing then 1 else 0
  | .revive _ _ vref => if vref.nref ≤ 1 ∧ s.status = .refUsing then 1 else 0
  | _ => 0

/-- The additional references a step leaves behind. -/
def State.lost (s : State) : Input → ℕ
  | .run k a => (s.ops[k]?.map (Op.lost s a)).getD 0
  | _ => 0

section

variable (h : Inv s leaked)
include h

variable {own : Option ℕ}

variable {vref : VRef}

theorem Inv.setFailed {idVer : ℕ} (hk : s.ops[k]? = some (.setFailed own idVer vref)) :
    Inv (s.setFailed k own idVer vref) leaked := by
  have hmem := mem_of_getElem? hk
  obtain ⟨hlive, hid⟩ := h.ops _ hmem
  have hown := h.owns _ hmem
  have hcreator : ∀ o : Op, o.isCreator = isCreator (.setFailed own idVer vref) →
      [o].countP isCreator ≤ if isCreator (.setFailed own idVer vref) then 1 else 0 := by
    intro o ho
    rw [countP_singleton, ho]
  have hsame : isCreator (.release own) = isCreator (.setFailed own idVer vref) := by
    cases own <;> rfl
  rw [State.setFailed]
  by_cases hver : vref.version ≠ idVer
  · rw [if_pos hver]
    exact h.finish hk rfl rfl ⟨rfl, rfl⟩
  split_ifs with hcas
  · refine h.goOn hk rfl rfl (.inr ⟨hlive, .inr (by rw [hid])⟩) rfl rfl rfl rfl ?_
      (forall_mem_singleton.2 ⟨hlive, hown, rfl, rfl⟩) ⟨rfl, rfl⟩ h.refs (hcreator _ hsame) fun hs hl => .inl ⟨hs, hl⟩
    show vref.nref + s.refs.length + own.toList.length + s.extra leaked =
      s.vref.nref + s.refs.length + (own.toList.length + 0) + s.extra leaked
    rw [hcas]
    omega
  · refine h.goOn hk rfl rfl (.inl rfl) rfl rfl rfl rfl ?_ (forall_mem_singleton.2 ⟨⟨hlive, hid⟩, hown, rfl, rfl⟩)
      ⟨rfl, rfl⟩ h.refs (hcreator _ (by cases own <;> rfl)) fun hs hl => .inl ⟨hs, hl⟩
    show s.vref.nref + s.refs.length + own.toList.length + s.extra leaked =
      s.vref.nref + s.refs.length + (own.toList.length + 0) + s.extra leaked
    omega

theorem Inv.release (hk : s.ops[k]? = some (.release own)) : Inv (s.release k own) leaked := by
  have hmem := mem_of_getElem? hk
  have hlive : s.phase = .live := h.ops _ hmem
  rw [State.release]
  cases hstatus : s.status with
  | refReviving => exact h
  | refRecycled => exact h.finish hk rfl rfl ⟨rfl, rfl⟩
  | refUsing =>
    have hown := h.owns _ hmem
    refine h.goOn hk rfl rfl (.inl rfl) rfl rfl rfl rfl ?_ (forall_mem_singleton.2 ⟨hlive, hown, rfl, rfl⟩)
      ⟨rfl, rfl⟩ h.refs (Nat.zero_le _) fun _ _ => .inr ?_
    · show s.vref.nref + s.refs.length + own.toList.length + s.extra leaked =
        s.vref.nref + s.refs.length + (own.toList.length + 1 + 0) +
          ((if s.phase = .live ∧ Status.refRecycled = .refUsing then 1 else 0) + leaked)
      rw [State.extra, if_pos ⟨hlive, hstatus⟩, if_neg (fun hno => absurd hno.2 (by rintro ⟨⟩))]
      omega
    -- The creator that releases its reference was the only one.
    · have hC := @countP_replaceAt _ s.ops [.derefExtra own] k _ hk isCreator
      have hle := h.creators
      show (replaceAt s.ops k [.derefExtra own]).countP isCreator = 0
      cases own with
      | none =>
        simp only [isCreator, if_true, countP_singleton, Bool.false_eq_true, if_false] at hC
        omega
      | some v =>
        have hzero := h.no_creator (h.owns _ hmem v rfl).2.2
        simp only [isCreator, countP_singleton, Bool.false_eq_true, if_false] at hC
        omega

theorem Inv.derefExtra (hk : s.ops[k]? = some (.derefExtra own)) : Inv (s.derefExtra k own) leaked := by
  have hmem := mem_of_getElem? hk
  have hlive : s.phase = .live := h.ops _ hmem
  have hnew := @dereferenceOp_ok s own hlive (h.even hlive)
  have hpos : own.toList.length + 1 ≤ s.vref.nref := h.units_le hmem
  have hunits := @dereferenceOp_units s own
  rw [State.derefExtra]
  split_ifs at hunits ⊢ with hnil
  · refine Inv.check ?_ _
    refine h.goOn hk rfl rfl (.inl rfl) rfl rfl rfl rfl ?_ nofun ⟨rfl, rfl⟩ (fun v hv => ?_)
      (Nat.zero_le _) fun hs hl => .inl ⟨hs, hl⟩
    · show s.vref.nref - 1 + s.refs.length + (own.toList.length + 1) + s.extra leaked =
        s.vref.nref + (own.toList ++ s.refs).length + 0 + s.extra leaked
      rw [length_append]
      omega
    · rcases mem_append.1 hv with hv | hv
      · exact h.owns _ hmem v (mem_toList.1 hv)
      · exact h.refs v hv
  · refine h.goOn hk rfl rfl (.inl rfl) rfl rfl rfl rfl ?_ (fun o ho => ?_) ⟨rfl, rfl⟩ h.refs
      ?_ fun hs hl => .inl ⟨hs, hl⟩
    · show s.vref.nref - 1 + s.refs.length + (own.toList.length + 1) + s.extra leaked =
        s.vref.nref + s.refs.length + ((s.dereferenceOp own).map units).sum + s.extra leaked
      omega
    · obtain ⟨hopOk, hown, hcreate, hrecycle, -⟩ := hnew o ho
      exact ⟨hopOk, hown ▸ h.owns _ hmem, hcreate, hrecycle⟩
    · rw [countP_eq_zero fun o ho => (hnew o ho).2.2.2.2]
      exact Nat.zero_le _

theorem Inv.no_creator_goOn {new : List Op} (hk : s.ops[k]? = some op)
    (hid : s.thisVer ∈ s.ids) (hnew : new.countP isCreator = 0) :
    (replaceAt s.ops k new).countP isCreator = 0 := by
  have hC := @countP_replaceAt _ s.ops new k _ hk isCreator
  have := h.no_creator hid
  omega

theorem Inv.reviveStore {own idVer : ℕ} (hk : s.ops[k]? = some (.reviveStore own idVer vref)) (a : Answer) :
    Inv { s.goOn k [.revive own idVer vref] with status := .refReviving }
      (leaked + lost s a (.reviveStore own idVer vref)) := by
  have hmem := mem_of_getElem? hk
  have hidVer : idVer = s.thisVer := h.ops _ hmem
  have hown := h.owns _ hmem
  obtain ⟨hlive, -, hid⟩ := hown own rfl
  refine h.goOn hk rfl rfl (.inl rfl) rfl rfl rfl rfl ?_ (forall_mem_singleton.2 ⟨hidVer, hown, rfl, rfl⟩)
    ⟨rfl, rfl⟩ h.refs (Nat.zero_le _) fun _ _ => .inr (h.no_creator_goOn hk hid rfl)
  simp only [State.extra, State.goOn, lost, units, hlive, map_cons, map_nil,
    sum_cons, sum_nil, true_and, reduceCtorEq, if_false]
  omega

theorem Inv.reviveUsing {own : ℕ} (hk : s.ops[k]? = some (.reviveUsing own))
    (a : Answer) : Inv { s.finish k (some own) with status := .refUsing }
      (leaked + lost s a (.reviveUsing own)) := by
  have hok := h.owns _ (mem_of_getElem? hk) own rfl
  refine h.goOn hk rfl rfl (.inl rfl) rfl rfl rfl rfl ?_ nofun ⟨rfl, rfl⟩
    (forall_mem_cons.2 ⟨hok, h.refs⟩) (Nat.zero_le _) fun _ _ => .inr (h.no_creator_goOn hk hok.2.2 rfl)
  simp only [State.extra, State.finish, State.goOn, lost, units, hok.1, map_nil,
    sum_nil, true_and, if_true, toList_some, length_append, length_singleton]
  omega

theorem Inv.revive {own idVer : ℕ} (hk : s.ops[k]? = some (.revive own idVer vref)) (a : Answer) :
    Inv (s.revive k own idVer vref a) (leaked + lost s a (.revive own idVer vref)) := by
  have hmem := mem_of_getElem? hk
  have hidVer : idVer = s.thisVer := h.ops _ hmem
  have hown := h.owns _ hmem
  have hok := hown own rfl
  rw [State.revive]
  -- The CHECK only sets `checkFailed`.
  by_cases hfew : vref.nref ≤ 1
  · simp only [if_pos hfew]
    refine h.goOn hk rfl rfl (.inl rfl) rfl rfl rfl rfl ?_ nofun ⟨rfl, rfl⟩
      (forall_mem_cons.2 ⟨hok, h.refs⟩) (Nat.zero_le _) fun _ _ => .inr (h.no_creator_goOn hk hok.2.2 rfl)
    simp only [State.extra, State.finish, State.goOn, State.check, lost, units, hok.1,
      map_nil, sum_nil, true_and, hfew, reduceCtorEq, if_false, toList_some, length_append, length_singleton]
    omega
  have hlost : lost s a (.revive own idVer vref) = 0 := if_neg fun hno => hfew hno.1
  simp only [if_neg hfew, hlost, Nat.add_zero]
  split_ifs with hcas
  · refine h.goOn hk rfl rfl (.inr ⟨hok.1, .inl hidVer⟩) rfl rfl rfl rfl ?_
      (forall_mem_singleton.2 ⟨trivial, hown, rfl, rfl⟩) ⟨rfl, rfl⟩ h.refs (Nat.zero_le _) fun hs hl => .inl ⟨hs, hl⟩
    show vref.nref + 1 + s.refs.length + 1 + s.extra leaked = s.vref.nref + s.refs.length + (2 + 0) + s.extra leaked
    rw [show s.vref = vref from hcas.1]
    omega
  · refine h.goOn hk rfl rfl (.inl rfl) rfl rfl rfl rfl ?_ (forall_mem_singleton.2 ⟨hidVer, hown, rfl, rfl⟩)
      ⟨rfl, rfl⟩ h.refs (Nat.zero_le _) fun hs hl => .inl ⟨hs, hl⟩
    show s.vref.nref + s.refs.length + 1 + s.extra leaked = s.vref.nref + s.refs.length + (1 + 0) + s.extra leaked
    omega

end

/-! ## The phase moves on

`Socket::Create` takes a slot from the pool and publishes the socket on it, or fails it itself.
What was in progress on the slot before comes too late (`Inv.late`), and the invariant passes to
the new phase (`Inv.moveOn`).
-/

open State

variable {s s' : State} {leaked leaked' k : ℕ} {op : Op}

/-- An operation without a reference of its caller, that moves the phase on or comes too late. -/
def Op.isLate : Op → Bool
  | .create | .unref .. | .addressCas _ | .derefCas none .. | .recycle none => true
  | _ => false

theorem Op.own_of_isLate (h : op.isLate = true) : op.own = none ∧ op.isCreator = false := by
  cases op with
  | create | unref | addressCas => exact ⟨rfl, rfl⟩
  | derefCas own | recycle own =>
    cases own with
    | none => exact ⟨rfl, rfl⟩
    | some => cases h
  | _ => cases h

theorem Inv.late (h : Inv s leaked) (hphase : s.phase ≠ .live) (op : Op) (hop : op ∈ s.ops) : op.isLate = true := by
  have hown := h.own_none hphase hop
  have hok := h.ops op hop
  cases op with
  | create | unref | addressCas => rfl
  | setFailed => exact absurd hok.1 hphase
  | release | derefExtra => exact absurd hok hphase
  | derefCas | recycle =>
    cases hown
    rfl
  | reviveStore | revive | reviveUsing => cases hown

/-- **The phase moves on** when nobody holds a reference: `old` is done, `new` is in progress
instead, and the others come too late. -/
theorem Inv.moveOn {old new : List Op} (h : Inv s leaked) (hnil : s.refs = [])
    (hlate : ∀ o ∈ s.ops, o.isLate = true) (hperm : (s'.ops ++ old).Perm (s.ops ++ new))
    (hrefs : s'.refs = s.refs) (hhanded : s'.handed = s.handed)
    (hnum : s'.vref.nref + (old.map units).sum + s.extra leaked =
      s.vref.nref + (new.map units).sum + s'.extra leaked')
    (hversion : s'.VersionOk) (hlimit : s.limit ≤ s'.limit)
    (hunref : ∀ ver1 b, .unref ver1 b ∈ s.ops → s'.OpOk (.unref ver1 b)) (hone : new.length ≤ 1)
    (hnew : ∀ o ∈ new, s'.OpOk o ∧ o.own = none ∧
      (o.isCreator = true → s'.thisVer ∉ s'.ids ∧ (s'.status = .refUsing ∨ 0 < leaked')))
    (hC : s.ops.countP isCreate + new.countP isCreate =
      (if s'.phase = .creating then 1 else 0) + old.countP isCreate)
    (hR : s.ops.countP isRecycle + new.countP isRecycle =
      (if s'.phase = .recycling then 1 else 0) + old.countP isRecycle)
    (hids : ∀ w ∈ s'.ids, w ∈ s.ids ∨ w % 2 = 0 ∧ w < s'.limit)
    (hnewId : s'.phase = .creating → s'.thisVer ∉ s'.ids)
    (hlt : ∀ c ∈ s'.recycles, c + (if s'.phase.inUse then 1 else 2) ≤
      if s'.phase.inUse then s'.thisVer else s'.vref.version)
    (hnodup : s'.recycles.Nodup) : Inv s' leaked' := by
  have hmem : ∀ o ∈ s'.ops, o ∈ s.ops ∨ o ∈ new := fun o ho =>
    mem_append.1 (hperm.mem_iff.1 (mem_append_left _ ho))
  have hcountP : ∀ p, s'.ops.countP p + old.countP p = s.ops.countP p + new.countP p := by
    intro p
    rw [← countP_append, hperm.countP_eq, countP_append]
  have hsum := (hperm.map units).sum_eq
  rw [map_append, sum_append, map_append, sum_append] at hsum
  have hcreating := Nat.add_right_cancel ((hcountP isCreate).trans hC)
  have hrecycling := Nat.add_right_cancel ((hcountP isRecycle).trans hR)
  refine ⟨?_, hversion, fun o ho => ?_, ?_, fun o ho v hv => ?_, hcreating, hrecycling, ?_,
    fun o ho hc => ?_, fun w hw => ?_, hnewId, hlt, hnodup, hhanded ▸ h.handed⟩
  · have hcount := h.count
    rw [hnil] at hcount
    rw [hrefs, hnil]
    omega
  -- What is still in progress has seen a version below the limit.
  · rcases hmem o ho with hold | hin
    · have hok := h.ops o hold
      have hlate := hlate o hold
      cases o with
      | create =>
        show s'.phase = .creating
        by_contra hno
        rw [if_neg hno] at hcreating
        exact List.countP_eq_zero.1 hcreating _ ho rfl
      | unref => exact hunref _ _ hold
      | addressCas => exact ⟨hok.1, hok.2.trans_le hlimit⟩
      | derefCas => exact ⟨hok.1, hok.2.1, hok.2.2.trans_le hlimit⟩
      | recycle =>
        refine ⟨?_, (own_of_isLate hlate).1⟩
        by_contra hno
        rw [if_neg hno] at hrecycling
        exact List.countP_eq_zero.1 hrecycling _ ho rfl
      | _ => cases hlate
    · exact (hnew o hin).1
  · rw [hrefs, hnil]
    exact forall_mem_nil _
  · have hnone : o.own = none :=
      (hmem o ho).elim (fun hold => (own_of_isLate (hlate o hold)).1) fun hin => (hnew o hin).2.1
    rw [hnone] at hv
    cases hv
  · have hT := hcountP isCreator
    rw [countP_eq_zero fun o ho => (own_of_isLate (hlate o ho)).2] at hT
    have := @countP_le_length _ isCreator new
    omega
  · rcases hmem o ho with hold | hin
    · rw [(own_of_isLate (hlate o hold)).2] at hc
      cases hc
    · exact (hnew o hin).2.2 hc
  · exact (hids w hw).elim (fun hold => (h.ids w hold).imp_right (·.trans_le hlimit)) id

theorem Inv.create (h : Inv s leaked) : Inv s.create leaked := by
  rw [State.create]
  by_cases hfree : s.phase = .free
  swap
  · rw [if_neg hfree]
    exact h
  rw [if_pos hfree]
  have hne : s.phase ≠ .live := by rw [hfree]; rintro ⟨⟩
  have hversion := h.version
  have hlimit : s.limit = s.vref.version := by rw [limit, hfree]; rfl
  rw [VersionOk, hfree] at hversion
  have hlt := h.recycles_lt
  have hnodup := h.nodup
  simp only [recycles, hfree, Phase.inUse, reduceCtorEq, Bool.false_eq_true, if_false, append_nil] at hlt hnodup
  have hperm : (s.ops ++ [Op.create] ++ []).Perm (s.ops ++ [Op.create]) := .of_eq (append_nil _)
  refine h.moveOn (h.refs_nil hne) (h.late hne) hperm rfl rfl ?_ ⟨rfl, hversion⟩
    (hlimit.trans_le (Nat.le_add_right _ 2)) (fun ver1 b hop => ?_) (Nat.le_refl 1)
    (forall_mem_singleton.2 ⟨rfl, rfl, by rintro ⟨⟩⟩) ?_ ?_ (fun w => .inl) (fun _ hid => ?_) (fun c hc => ?_) ?_
  · simp only [extra, hfree, fetchAdd, reduceCtorEq, false_and, if_false, map_cons, map_nil, sum_cons,
      sum_nil, units]
    omega
  -- What is still in progress saw the version that now is the one of the socket.
  · have hok := h.ops _ hop
    rw [OpOk, hfree] at hok
    exact .inl hok
  · rw [h.creating, hfree]
    rfl
  · rw [h.recycling, hfree]
    rfl
  · have := (h.ids _ hid).2
    rw [hlimit] at this
    exact Nat.lt_irrefl _ this
  · have hold : c ∈ s.recycled := by simpa [recycles, fetchAdd] using hc
    exact Nat.le_trans (Nat.le_succ _) (hlt c hold)
  · simpa [recycles, fetchAdd] using hnodup

theorem Inv.publish {new : List Op} {status : Status} {ids : List ℕ} (h : Inv s leaked)
    (hk : s.ops[k]? = some .create)
    (hnew : new = [] ∧ ids = s.ids ++ [s.thisVer] ∨ new = [.setFailed none s.thisVer s.vref] ∧ ids = s.ids)
    (hextra : (if status = .refUsing then 1 else 0) + leaked' = 1 + leaked) :
    Inv { s.goOn k new with phase := .live, status := status, ids := ids } leaked' := by
  have hcreating : s.phase = .creating := h.ops _ (mem_of_getElem? hk)
  have hne : s.phase ≠ .live := by rw [hcreating]; rintro ⟨⟩
  have hversion := h.version
  rw [VersionOk, hcreating] at hversion
  have hlimit : s.limit = s.thisVer + 2 := by rw [limit, hcreating]; rfl
  have hlt := h.recycles_lt
  have hnodup := h.nodup
  simp only [recycles, hcreating, Phase.inUse, reduceCtorEq, if_true, if_false, append_nil] at hlt hnodup
  obtain ⟨hunits, hone, hC, hR⟩ : (new.map units).sum = 0 ∧ new.length ≤ 1 ∧
      new.countP isCreate = 0 ∧ new.countP isRecycle = 0 := by
    rcases hnew with ⟨rfl, -⟩ | ⟨rfl, -⟩ <;> exact ⟨rfl, by simp, rfl, rfl⟩
  refine h.moveOn (h.refs_nil hne) (h.late hne) (replaceAt_perm hk) rfl rfl ?_ ⟨.inl hversion.1, hversion.2⟩
    (Nat.le_of_eq hlimit) (fun ver1 b hop => ?_) hone (fun o ho => ?_) ?_ ?_ (fun w hw => ?_) (by rintro ⟨⟩)
    (fun c hc => hlt c (by simpa [recycles, State.goOn] using hc)) (by simpa [recycles, State.goOn] using hnodup)
  · simp only [extra, hcreating, hunits, State.goOn, reduceCtorEq, true_and, false_and, if_false, map_cons,
      map_nil, sum_cons, sum_nil, units]
    omega
  · have hok := h.ops _ hop
    rw [OpOk, hcreating] at hok
    exact hok
  -- The creator that fails the socket will give back the additional reference.
  · rcases hnew with ⟨rfl, -⟩ | ⟨rfl, rfl⟩
    · cases ho
    · cases mem_singleton.1 ho
      refine ⟨⟨rfl, rfl⟩, rfl, fun _ => ⟨h.newId hcreating, ?_⟩⟩
      split_ifs at hextra with hstatus
      · exact .inl hstatus
      · exact .inr (by omega)
  · rw [h.creating, if_pos hcreating, hC]
    rfl
  · rw [h.recycling, hcreating, hR]
    rfl
  · rcases hnew with ⟨-, rfl⟩ | ⟨-, rfl⟩
    · refine (mem_append.1 hw).imp_right fun heq => ?_
      rw [mem_singleton.1 heq]
      exact ⟨hversion.2, Nat.lt_add_of_pos_right Nat.two_pos⟩
    · exact .inl hw

end Brpc.SocketRef
