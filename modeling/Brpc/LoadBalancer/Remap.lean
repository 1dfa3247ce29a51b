/-
# Consistent hashing moves few requests

The ring holds the nodes of the servers that are present, sorted, however they came there
(`ring_shape`, `batch_or_one_by_one`), each once unless a batch has a server twice
(`server_twice`).  The server of a request depends on the set of the nodes only: `remaps_minimally`,
`failover_as_removal`.
-/

import Brpc.LoadBalancer.ConsistentHashing
import Brpc.Lib.Run
import Mathlib.Data.Finset.Card

namespace Brpc.LoadBalancer.ConsistentHashing

open Lib List Call

variable {E : Type} [LinearOrder E]

/-! ## The servers that are present -/

/-- The servers whose nodes a call adds. -/
def Call.added : Call → List ServerId
  | .add server present => if present then [server] else []
  | .addBatch servers => (servers.filter (·.2)).map (·.1)
  | _ => []

/-- The servers whose nodes it removes. -/
def Call.removed : Call → List ServerId
  | .remove server => [server]
  | .removeBatch servers => servers
  | _ => []

/-- The servers after a call. -/
def presentStep (S : Finset ServerId) (call : Call) : Finset ServerId :=
  (S ∪ call.added.toFinset) \ call.removed.toFinset

/-- The servers that have been added and not been removed since. -/
def present (calls : List Call) : Finset ServerId := run presentStep ∅ calls

/-- No two of these servers have one address. -/
def Apart (c : Config E) (S : Finset ServerId) : Prop :=
  ∀ s ∈ S, ∀ t ∈ S, c.remoteSide s = c.remoteSide t → s = t

/-- Servers that are present together have different addresses. -/
def Distinct (c : Config E) (calls : List Call) : Prop :=
  Along presentStep (fun S call => Apart c (S ∪ call.added.toFinset)) ∅ calls

instance (c : Config E) (S : Finset ServerId) : Decidable (Apart c S) :=
  inferInstanceAs (Decidable (∀ s ∈ S, ∀ t ∈ S, c.remoteSide s = c.remoteSide t → s = t))

instance (c : Config E) (calls : List Call) : Decidable (Distinct c calls) :=
  inferInstanceAs (Decidable (Along _ _ _ _))

/-! ## The nodes of a server -/

omit [LinearOrder E] in
theorem mem_nodes {c : Config E} {s : ServerId} {node : Node E} (h : node ∈ c.nodes s) :
    node.serverSock = s ∧ node.serverAddr = c.remoteSide s := by
  rw [Config.nodes, ReplicaPolicy.build.eq_def] at h
  split at h
  · obtain ⟨i, -, rfl⟩ := mem_map.1 h
    exact ⟨rfl, rfl⟩
  · obtain ⟨i, -, h⟩ := mem_flatMap.1 h
    obtain ⟨j, -, rfl⟩ := mem_map.1 h
    exact ⟨rfl, rfl⟩

omit [LinearOrder E] in
theorem eq_of_key {c : Config E} {s t : ServerId} {a b : Node E}
    (hdist : c.remoteSide s = c.remoteSide t → s = t) (ha : a ∈ c.nodes s) (hb : b ∈ c.nodes t)
    (hkey : a.key = b.key) : a = b := by
  obtain ⟨hash, addr⟩ := Prod.mk.inj (toLex.injective hkey)
  obtain ⟨hsa, haa⟩ := mem_nodes ha
  obtain ⟨hsb, hab⟩ := mem_nodes hb
  have hst := hdist (haa.symm.trans (addr.trans hab))
  cases a
  cases b
  simp only [Node.mk.injEq]
  exact ⟨hash, hsa.trans (hst.trans hsb.symm), addr⟩

/-- There are replicas, and the `CHECK` of `KetamaReplicaPolicy::Build` holds; `SetParameters` takes any number. -/
def Config.Proper (c : Config E) : Prop :=
  c.replicas ≠ 0 ∧ ∀ hash, c.policy = .ketama hash → c.replicas % pointsPerHash = 0

omit [LinearOrder E] in
theorem Config.Proper.length_nodes {c : Config E} (hc : c.Proper) (s : ServerId) : (c.nodes s).length = c.replicas := by
  rw [Config.nodes, ReplicaPolicy.build.eq_def]
  cases hp : c.policy with
  | default => simp
  | ketama hash =>
    have hmod := hc.2 hash hp
    simp only [length_flatMap, length_map, length_range, map_const', sum_replicate_nat, pointsPerHash] at hmod ⊢
    omega

/-! ## The ring -/

/-- The ring is sorted and has the nodes of these servers. -/
structure Holds (c : Config E) (r : Ring E) (S : Finset ServerId) : Prop where
  sorted : SortedBy Node.key r.fg
  mem : ∀ node, node ∈ r.fg ↔ ∃ s ∈ S, node ∈ c.nodes s

omit [LinearOrder E] in
theorem Ring.modify_fg {r : Ring E} {f : List (Node E) → List (Node E)}
    (hf : r.fg.Sublist (f r.fg) ∨ (f r.fg).Sublist r.fg) : (r.modify f).fg = f r.fg := by
  rw [Ring.modify]
  split
  next hlen =>
    rcases hf with hf | hf
    · exact hf.eq_of_length hlen.symm
    · exact (hf.eq_of_length hlen).symm
  · rfl

theorem Ring.addNodes_fg (r : Ring E) (nodes : List (Node E)) : (r.addNodes nodes).fg =
    setUnion Node.key r.fg (nodes.insertionSort fun a b => a.key ≤ b.key) :=
  Ring.modify_fg (.inl (sublist_setUnion _ _))

variable {c : Config E} {r : Ring E} {S : Finset ServerId}

section

variable (h : Holds c r S)
include h

theorem Holds.count_addNodes {servers : List ServerId}
    (hdist : Apart c (S ∪ servers.toFinset)) (node : Node E) :
    (r.addNodes (servers.flatMap c.nodes)).fg.count node =
      max (r.fg.count node) ((servers.flatMap c.nodes).count node) := by
  rw [Ring.addNodes_fg, count_setUnion h.sorted (pairwise_insertionSort _ _), (perm_insertionSort _ _).count_eq]
  intro a ha b hb hkey
  obtain ⟨t, ht, ha⟩ := (h.mem a).1 ha
  obtain ⟨s, hs, hb⟩ := mem_flatMap.1 ((mem_insertionSort _).1 hb)
  exact eq_of_key (hdist t (Finset.mem_union_left _ ht) s (Finset.mem_union_right _ (mem_toFinset.2 hs))) ha hb hkey

/-- **Nodes are added.** -/
theorem Holds.addNodes {servers : List ServerId}
    (hdist : Apart c (S ∪ servers.toFinset)) :
    Holds c (r.addNodes (servers.flatMap c.nodes)) (S ∪ servers.toFinset) := by
  constructor
  · rw [Ring.addNodes_fg]
    exact sortedBy_setUnion h.sorted (pairwise_insertionSort _ _)
  · intro node
    rw [← count_pos_iff, h.count_addNodes hdist, lt_max_iff, count_pos_iff, count_pos_iff, h.mem, mem_flatMap]
    simp only [Finset.mem_union, mem_toFinset, or_and_right, exists_or]

/-- **Nodes are removed.** -/
theorem Holds.filter (servers : List ServerId) :
    Holds c (r.modify fun fg => fg.filter fun node => node.serverSock ∉ servers) (S \ servers.toFinset) := by
  have hfg : (r.modify fun fg => fg.filter fun node => node.serverSock ∉ servers).fg
      = r.fg.filter fun node => node.serverSock ∉ servers :=
    Ring.modify_fg (.inr filter_sublist)
  constructor
  · rw [hfg]
    exact h.sorted.filter _
  · intro node
    rw [hfg, mem_filter, decide_eq_true_iff, h.mem]
    constructor
    · rintro ⟨⟨s, hs, hnode⟩, hno⟩
      rw [(mem_nodes hnode).1] at hno
      exact ⟨s, Finset.mem_sdiff.2 ⟨hs, fun hmem => hno (mem_toFinset.1 hmem)⟩, hnode⟩
    · rintro ⟨s, hs, hnode⟩
      obtain ⟨hs, hno⟩ := Finset.mem_sdiff.1 hs
      refine ⟨⟨s, hs, hnode⟩, ?_⟩
      rw [(mem_nodes hnode).1]
      exact fun hmem => hno (mem_toFinset.2 hmem)

end

/-- What a call does: it adds nodes or removes some. -/
theorem step_rule {P : Ring E → Finset ServerId → Prop} (call : Call) (h : P r S)
    (hadd : P (r.addNodes (call.added.flatMap c.nodes)) (S ∪ call.added.toFinset))
    (hremove : P (r.modify fun fg => fg.filter fun node => node.serverSock ∉ call.removed)
      (S \ call.removed.toFinset)) : P (r.step c call) (presentStep S call) := by
  rw [presentStep]
  cases call with
  | add server present =>
    simp only [removed, toFinset_nil, Finset.sdiff_empty]
    cases present with
    | true =>
      simp only [added, if_true, flatMap_singleton] at hadd
      exact hadd
    | false => simpa [added, Ring.step, Ring.addServer] using h
  | addBatch =>
    simp only [added, flatMap_map] at hadd
    simp only [removed, toFinset_nil, Finset.sdiff_empty]
    exact hadd
  | remove | removeBatch =>
    simp only [removed, mem_singleton] at hremove
    simp only [added, toFinset_nil, Finset.union_empty]
    exact hremove

/-- **Every call keeps the ring to the servers that are present.** -/
theorem Holds.step (h : Holds c r S) {call : Call} (hdist : Apart c (S ∪ call.added.toFinset)) :
    Holds c (r.step c call) (presentStep S call) :=
  step_rule call h (h.addNodes hdist) (h.filter _)

variable {calls : List Call}

omit [LinearOrder E] in
theorem Distinct.mono {calls' : List Call} (h : Distinct c calls') (hpre : calls <+: calls') : Distinct c calls := by
  obtain ⟨rest, rfl⟩ := hpre
  exact (along_append.1 h).1

/-- What calls keep whose servers have the addresses of no others that are present. -/
theorem run_rule {P : Ring E → Finset ServerId → Prop} (hdist : Distinct c calls) (hempty : P Ring.empty ∅)
    (hstep : ∀ {r S call}, call ∈ calls → P r S → Apart c (S ∪ call.added.toFinset) →
      P (r.step c call) (presentStep S call)) :
    P (run (Ring.step c) Ring.empty calls) (present calls) := by
  induction calls using List.reverseRecOn with
  | nil => exact hempty
  | append_singleton calls call ih =>
    obtain ⟨hcalls, hcall, -⟩ := along_append.1 hdist
    have hprev := ih hcalls fun hmem => hstep (mem_append_left _ hmem)
    rw [present, run_append, run_append]
    exact hstep (mem_append_right _ mem_cons_self) hprev hcall

theorem Distinct.apart (h : Distinct c calls) : Apart c (present calls) :=
  run_rule (P := fun _ S => Apart c S) h (fun s hs => absurd hs (Finset.notMem_empty s))
    fun _ _ hcall s hs t ht => hcall s (Finset.sdiff_subset hs) t (Finset.sdiff_subset ht)

/-- **After every run the ring has the nodes of the servers that are present.** -/
theorem holds_run (hdist : Distinct c calls) :
    Holds c (run (Ring.step c) Ring.empty calls) (present calls) := by
  refine run_rule hdist ⟨List.Pairwise.nil, fun node => ⟨fun h => (not_mem_nil h).elim, ?_⟩⟩ ?_
  · rintro ⟨s, hs, -⟩
    exact absurd hs (Finset.notMem_empty s)
  · exact fun _ h => h.step

/-! ## The choice -/

/-- The choice when all servers are available and none is excluded. -/
def choice (r : Ring E) (code : ℕ) : Except Errno ServerId :=
  r.selectServer (fun _ => true) ⟨true, code, true, fun _ => false⟩

variable {code : ℕ}

omit [LinearOrder E] in
theorem choice_eq (hcode : code ≤ uintMax) {node : Node E}
    (h : (r.order code).head? = some node) : choice r code = .ok node.serverSock := by
  have hne : r.fg ≠ [] := by
    intro hnil
    rw [Ring.order, hnil] at h
    cases h
  rw [choice, Ring.selectServer, if_neg (by rintro ⟨⟩), if_neg (not_lt.2 hcode), if_neg (by rintro ⟨⟩), if_neg hne]
  dsimp only
  rw [pick_head (fun _ _ => rfl) (fun _ _ => rfl), h]

omit [LinearOrder E] in
theorem choice_nil (hcode : code ≤ uintMax) (h : r.fg = []) : choice r code = .error .noData := by
  rw [choice, Ring.selectServer, if_neg (by rintro ⟨⟩), if_neg (not_lt.2 hcode), if_neg (by rintro ⟨⟩), if_pos h]

omit [LinearOrder E] in
theorem choice_inval (hcode : uintMax < code) : choice r code = .error .inval := by
  rw [choice, Ring.selectServer, if_neg (by rintro ⟨⟩), if_pos hcode]

omit [LinearOrder E] in
theorem Ring.fg_eq_nil (h : (r.order code).head? = none) : r.fg = [] := by
  have hlen := length_around (fun node : Node E => decide (code ≤ node.hash)) r.fg
  rw [← Ring.order, head?_eq_none_iff.1 h] at hlen
  exact length_eq_zero_iff.1 hlen.symm

/-- **A server that is present is chosen.** -/
theorem Holds.choice_mem (h : Holds c r S) (hc : c.Proper) (hcode : code ≤ uintMax) (hne : S.Nonempty) :
    ∃ s ∈ S, choice r code = .ok s := by
  cases hhead : (r.order code).head? with
  | none =>
    obtain ⟨s, hs⟩ := hne
    have hpos : 0 < (c.nodes s).length := by rw [hc.length_nodes]; exact Nat.pos_of_ne_zero hc.1
    obtain ⟨node, hnode⟩ := exists_mem_of_length_pos hpos
    have hfg := (h.mem node).2 ⟨s, hs, hnode⟩
    rw [Ring.fg_eq_nil hhead] at hfg
    cases hfg
  | some node =>
    obtain ⟨s, hs, hmem⟩ := (h.mem node).1 (firstAround_head h.sorted hhead).mem
    exact ⟨s, hs, by rw [choice_eq hcode hhead, (mem_nodes hmem).1]⟩

/-- **More servers change the choice to one of them only.** -/
theorem Holds.choice_subset {r r' : Ring E} {S S' : Finset ServerId} (h : Holds c r S)
    (h' : Holds c r' S') (hsub : S ⊆ S')
    (hdist : Apart c S') (code : ℕ) : choice r' code = choice r code ∨ ∃ s ∈ S', s ∉ S ∧ choice r' code = .ok s := by
  rcases Nat.lt_or_ge uintMax code with hcode | hcode
  · exact .inl ((choice_inval hcode).trans (choice_inval hcode).symm)
  · cases hhead : (r'.order code).head? with
    | none =>
      -- no node at all, also before
      have hnil' := Ring.fg_eq_nil hhead
      have hnil : r.fg = [] := by
        rw [eq_nil_iff_forall_not_mem]
        intro node hnode
        obtain ⟨s, hs, hmem⟩ := (h.mem node).1 hnode
        have hnode' := (h'.mem node).2 ⟨s, hsub hs, hmem⟩
        rw [hnil'] at hnode'
        exact not_mem_nil hnode'
      exact .inl ((choice_nil hcode hnil').trans (choice_nil hcode hnil).symm)
    | some node' =>
      have hfirst' := firstAround_head h'.sorted hhead
      obtain ⟨s, hs, hmem⟩ := (h'.mem node').1 hfirst'.mem
      have hsock := (mem_nodes hmem).1
      rw [choice_eq hcode hhead, hsock]
      by_cases hold : s ∈ S
      · left
        have hnode : node' ∈ r.fg := (h.mem node').2 ⟨s, hold, hmem⟩
        have hfirst := hfirst'.mono (S := (· ∈ r.fg)) (fun b hb => by
          obtain ⟨t, ht, hb⟩ := (h.mem b).1 hb
          exact (h'.mem b).2 ⟨t, hsub ht, hb⟩) hnode
        cases hhead' : (r.order code).head? with
        | none =>
          rw [Ring.fg_eq_nil hhead'] at hnode
          cases hnode
        | some node =>
          have hfirst'' := firstAround_head h.sorted hhead'
          obtain ⟨t, ht, hmem'⟩ := (h.mem node).1 hfirst''.mem
          have heq : node' = node := hfirst.unique hfirst'' (eq_of_key (hdist s hs t (hsub ht)) hmem hmem')
          rw [choice_eq hcode hhead', ← heq, hsock]
      · exact .inr ⟨s, hs, hold, rfl⟩

/-- **Consistent hashing remaps minimally.**  The choice depends on the servers that are present
only, one server more changes it only to that server, one server less changes it only where it was
that server, and it is one of the servers that are present, if there are any. -/
theorem remaps_minimally (c : Config E) (calls calls' : List Call) (hdist : Distinct c calls)
    (hdist' : Distinct c calls') (code : ℕ) :
    let choice₁ := choice (run (Ring.step c) Ring.empty calls) code
    let choice₂ := choice (run (Ring.step c) Ring.empty calls') code
    (present calls' = present calls → choice₂ = choice₁)
      ∧ (∀ s, present calls' = insert s (present calls) → choice₂ = choice₁ ∨ choice₂ = .ok s)
      ∧ (∀ s, present calls' = (present calls).erase s → choice₂ = choice₁ ∨ choice₁ = .ok s)
      ∧ (c.Proper → code ≤ uintMax → (present calls).Nonempty → ∃ s ∈ present calls, choice₁ = .ok s) := by
  dsimp only
  have h := holds_run hdist
  have h' := holds_run hdist'
  have hmore (hsub : present calls ⊆ present calls') := h.choice_subset h' hsub hdist'.apart code
  refine ⟨fun heq => ?_, fun s heq => ?_, fun s heq => ?_, h.choice_mem⟩
  · rcases hmore heq.ge with hsame | ⟨s, hs, hno, -⟩
    · exact hsame
    · rw [heq] at hs
      exact absurd hs hno
  · rcases hmore (by rw [heq]; exact Finset.subset_insert _ _) with hsame | ⟨t, ht, hno, hok⟩
    · exact .inl hsame
    · rw [heq] at ht
      rw [(Finset.mem_insert.1 ht).resolve_right hno] at hok
      exact .inr hok
  · have hless := h'.choice_subset h (by rw [heq]; exact Finset.erase_subset _ _) hdist.apart code
    rcases hless with hsame | ⟨t, ht, hno, hok⟩
    · exact .inl hsame.symm
    · rw [heq] at hno
      have hts : t = s := by
        by_contra hne
        exact hno (Finset.mem_erase.2 ⟨hne, ht⟩)
      rw [hts] at hok
      exact .inr hok

/-- Two replicas of every server. -/
def twoReplicas : Config ℕ := ⟨.default fun addr i => (7 * addr + 13 * i) % 32, 2, (·.id)⟩

/-- A third server takes a request from the second. -/
theorem third_server_takes_request :
    let calls := [.addBatch [(⟨2, "b"⟩, true), (⟨1, "a"⟩, true)]]
    choice (run (Ring.step twoReplicas) Ring.empty calls) 21 = .ok ⟨2, "b"⟩ ∧
      choice (run (Ring.step twoReplicas) Ring.empty (calls ++ [.add ⟨3, "c"⟩ true])) 21 = .ok ⟨3, "c"⟩ := by
  intro calls
  have h := (remaps_minimally twoReplicas calls (calls ++ [.add ⟨3, "c"⟩ true]) (by decide) (by decide) 21).2.1 ⟨3, "c"⟩
  exact ⟨by decide, (h (by decide)).resolve_left (by decide)⟩

/-! ## The number of nodes -/

variable {l : List ServerId}

/-- The `CHECK`s on the number of changed nodes, and no division by zero. -/
def ChecksHold (c : Config E) (r : Ring E) (call : Call) : Prop :=
  let before := r.fg.length
  let after := (r.step c call).fg.length
  match call with
  | .add _ _ => after - before = 0 ∨ after - before = c.replicas
  | .addBatch _ => c.replicas ≠ 0 ∧ (after - before) % c.replicas = 0
  | .remove _ => before - after = 0 ∨ before - after = c.replicas
  | .removeBatch _ => c.replicas ≠ 0 ∧ (before - after) % c.replicas = 0

omit [LinearOrder E] in
/-- The nodes of a server among those of several. -/
theorem countP_flatMap_nodes {p : Node E → Bool} {s : ServerId} (hp : ∀ node, p node = true → node.serverSock = s)
    (hl : l.Nodup) : (l.flatMap c.nodes).countP p = if s ∈ l then (c.nodes s).countP p else 0 := by
  induction l with
  | nil => rfl
  | cons t l ih =>
    obtain ⟨ht, hl⟩ := nodup_cons.1 hl
    rw [flatMap_cons, countP_append, ih hl]
    by_cases hts : s = t
    · subst hts
      rw [if_neg ht, if_pos mem_cons_self, Nat.add_zero]
    · have hzero : (c.nodes t).countP p = 0 :=
        countP_eq_zero.2 fun node hnode h => hts ((hp node h).symm.trans (mem_nodes hnode).1)
      simp only [hzero, Nat.zero_add, mem_cons, hts, false_or]

omit [LinearOrder E] in
theorem count_flatMap_nodes [DecidableEq E] (hl : l.Nodup) (node : Node E) : (l.flatMap c.nodes).count node =
    if node.serverSock ∈ l then (c.nodes node.serverSock).count node else 0 :=
  countP_flatMap_nodes (fun _ h => by rw [beq_iff_eq.1 h]) hl

/-- The ring has the nodes of these servers, and each only once. -/
structure Full (c : Config E) (r : Ring E) (S : Finset ServerId) : Prop extends Holds c r S where
  perm : r.fg.Perm (S.toList.flatMap c.nodes)

section

variable (h : Full c r S)
include h

theorem Full.length_fg (hc : c.Proper) : r.fg.length = S.card * c.replicas := by
  rw [h.perm.length_eq, length_flatMap, map_congr_left fun s _ => hc.length_nodes s, map_const', sum_replicate_nat,
    Finset.length_toList]

theorem Full.addNodes (hl : l.Nodup) (hdist : Apart c (S ∪ l.toFinset)) :
    Full c (r.addNodes (l.flatMap c.nodes)) (S ∪ l.toFinset) := by
  refine ⟨h.toHolds.addNodes hdist, perm_iff_count.2 fun node => ?_⟩
  rw [h.toHolds.count_addNodes hdist, h.perm.count_eq, count_flatMap_nodes hl, count_flatMap_nodes S.nodup_toList,
    count_flatMap_nodes (Finset.nodup_toList _)]
  simp only [Finset.mem_toList, Finset.mem_union, mem_toFinset]
  split_ifs <;> simp_all

theorem Full.filter (servers : List ServerId) :
    Full c (r.modify fun fg => fg.filter fun node => node.serverSock ∉ servers) (S \ servers.toFinset) := by
  refine ⟨h.toHolds.filter servers, perm_iff_count.2 fun node => ?_⟩
  rw [Ring.modify_fg (.inr filter_sublist), count_flatMap_nodes (Finset.nodup_toList _)]
  simp only [Finset.mem_toList, Finset.mem_sdiff, mem_toFinset]
  by_cases hmem : node.serverSock ∈ servers
  · rw [if_neg fun h => h.2 hmem, count_eq_zero]
    simp [hmem]
  · rw [count_filter (by simpa using hmem), h.perm.count_eq, count_flatMap_nodes S.nodup_toList]
    simp [hmem]

/-- The servers a call adds have the addresses of no others, and it has none twice. -/
theorem Full.step {call : Call} (hadded : call.added.Nodup)
    (hdist : Apart c (S ∪ call.added.toFinset)) :
    Full c (r.step c call) (presentStep S call) :=
  step_rule call h (h.addNodes hadded hdist) (h.filter _)

/-- The number of nodes changes by that of the servers. -/
theorem Full.checksHold {call : Call} (h' : Full c (r.step c call) (presentStep S call))
    (hc : c.Proper) : ChecksHold c r call := by
  unfold ChecksHold
  simp only [h.length_fg hc, h'.length_fg hc, ← Nat.sub_mul]
  cases call with
  | add server present =>
    have hcard : (presentStep S (.add server present)).card ≤ S.card + 1 := by
      cases present <;> simp [presentStep, added, removed, Finset.card_insert_le]
    rcases Nat.le_one_iff_eq_zero_or_eq_one.1 (Nat.sub_le_iff_le_add'.2 hcard) with h | h
    all_goals simp [h]
  | remove server =>
    have hcard : S.card ≤ (presentStep S (.remove server)).card + 1 := by
      have := Finset.card_le_card_sdiff_add_card (s := S) (t := {server})
      simpa [presentStep, added, removed] using this
    rcases Nat.le_one_iff_eq_zero_or_eq_one.1 (Nat.sub_le_iff_le_add'.2 hcard) with h | h
    all_goals simp [h]
  | addBatch | removeBatch => exact ⟨hc.1, Nat.mul_mod_left _ _⟩

end

theorem full_run {calls : List Call} (hdist : Distinct c calls) (hbatch : ∀ call ∈ calls, call.added.Nodup) :
    Full c (run (Ring.step c) Ring.empty calls) (present calls) :=
  run_rule hdist ⟨@holds_run _ _ c [] trivial, by simp [Ring.empty]⟩ fun hcall h => h.step (hbatch _ hcall)

/-- **The ring has the replicas of the servers that are present**, and the `CHECK`s hold at every call, if the number
of replicas is proper, no two servers present together have one address and no batch has a server twice. -/
theorem ring_shape (hc : c.Proper) (calls : List Call) (hdist : Distinct c calls)
    (hbatch : ∀ call ∈ calls, call.added.Nodup) :
    (∀ pre call, pre ++ [call] <+: calls → ChecksHold c (run (Ring.step c) Ring.empty pre) call) ∧
      let r := run (Ring.step c) Ring.empty calls
      SortedBy Node.key r.fg ∧ ∀ s, r.fg.countP (·.serverSock = s) = if s ∈ present calls then c.replicas else 0 := by
  have hfull (pre : List Call) (hpre : pre <+: calls) : Full c (run (Ring.step c) Ring.empty pre) (present pre) :=
    full_run (hdist.mono hpre) fun a ha => hbatch a (hpre.subset ha)
  have hend := hfull calls (prefix_refl _)
  refine ⟨fun pre call hpre => ?_, hend.sorted, fun s => ?_⟩
  · have hnext := hfull _ hpre
    rw [present, run_append, run_append] at hnext
    exact (hfull pre ((prefix_append _ _).trans hpre)).checksHold hnext hc
  · rw [hend.perm.countP_eq, countP_flatMap_nodes (fun _ h => of_decide_eq_true h) (Finset.nodup_toList _)]
    simp only [Finset.mem_toList]
    split_ifs
    · rw [← hc.length_nodes s, countP_eq_length]
      exact fun node hnode => decide_eq_true (mem_nodes hnode).1
    · rfl

/-- Two servers in a batch, one of which is added again and removed. -/
theorem two_servers_shape :
    let calls := [.addBatch [(⟨1, ""⟩, true), (⟨2, ""⟩, true)], .add ⟨1, ""⟩ true, .remove ⟨1, ""⟩]
    (run (Ring.step twoReplicas) Ring.empty calls).fg.countP (·.serverSock = ⟨2, ""⟩) = 2 := by
  intro calls
  have h := (ring_shape (c := twoReplicas) ⟨by decide, by rintro _ ⟨⟩⟩ calls (by decide) (by decide)).2.2 ⟨2, ""⟩
  rw [h]
  decide

/-- **A server twice in a batch** has twice as many nodes. -/
theorem server_twice : (run (Ring.step twoReplicas) Ring.empty [.addBatch [(⟨1, ""⟩, true), (⟨1, ""⟩, true)]]).fg.countP
    (·.serverSock = ⟨1, ""⟩) = 4 := by
  decide

/-- **The ring is decided by the servers that are present**, in whatever order and batches they came and went: clients
that know the same servers select alike, whichever of them are available. -/
theorem ring_of_present {calls calls' : List Call} (hdist : Distinct c calls) (hdist' : Distinct c calls')
    (hbatch : ∀ call ∈ calls ++ calls', call.added.Nodup) (hpresent : present calls = present calls') :
    let r := run (Ring.step c) Ring.empty calls
    let r' := run (Ring.step c) Ring.empty calls'
    r.fg = r'.fg ∧ r.selectServer = r'.selectServer := by
  intro r r'
  have h : Full c r (present calls) := full_run hdist fun call hc => hbatch call (mem_append_left _ hc)
  have h' : Full c r' (present calls') := full_run hdist' fun call hc => hbatch call (mem_append_right _ hc)
  rw [← hpresent] at h'
  have hfg : r.fg = r'.fg := by
    refine (h.perm.trans h'.perm.symm).eq_of_pairwise (fun a b ha hb hab hba => ?_) h.sorted h'.sorted
    obtain ⟨s, hs, ha⟩ := (h.mem a).1 ha
    obtain ⟨t, ht, hb⟩ := (h'.mem b).1 hb
    exact eq_of_key (hdist.apart s hs t ht) ha hb (le_antisymm hab hba)
  refine ⟨hfg, funext fun available => funext fun i => ?_⟩
  rw [Ring.selectServer, Ring.selectServer, Ring.order, Ring.order, hfg]

/-- Two servers in a batch, or one by one with a third between them that goes again. -/
theorem batch_or_one_by_one :
    (run (Ring.step twoReplicas) Ring.empty [.addBatch [(⟨1, ""⟩, true), (⟨2, ""⟩, true)]]).selectServer =
      (run (Ring.step twoReplicas) Ring.empty
        [.add ⟨2, ""⟩ true, .add ⟨3, ""⟩ true, .add ⟨1, ""⟩ true, .remove ⟨3, ""⟩]).selectServer :=
  (ring_of_present (by decide) (by decide) (by decide) (by decide)).2

/-- **A server that is down is passed over as if it had been removed**: its requests go where they would go without it. -/
theorem failover_as_removal {calls : List Call} (hdist : Distinct c calls) {s : ServerId} {available : ℕ → Bool}
    (hdown : available s.id = false) {i : SelectIn} (hi : i.excluded = fun _ => false) (t : ServerId) :
    let r := run (Ring.step c) Ring.empty calls
    r.selectServer available i = .ok t ↔ (r.removeServer s).selectServer available i = .ok t := by
  intro r
  have hselect (r : Ring E) : r.selectServer available i = .ok t ↔
      (i.hasRequestCode = true ∧ i.requestCode ≤ uintMax ∧ i.read = true) ∧
        ((r.order i.requestCode).find? fun node => available node.serverSock.id).map (·.serverSock) = some t := by
    rw [Ring.selectServer, hi, pick_eq_find?]
    split_ifs with hcode hmax hread hnil
    · simp [hcode]
    · simp [hmax]
    · simp [hread]
    · simp [Ring.order, around, hnil]
    · rw [Bool.not_eq_false] at hcode hread
      cases (r.order i.requestCode).find? fun node => available node.serverSock.id <;>
        simp [hcode, hread, Nat.le_of_not_lt hmax]
  -- Hash codes grow along the ring, so what is removed from it is removed from the walk around it.
  have hup : r.fg.Pairwise fun a b => decide (i.requestCode ≤ a.hash) → decide (i.requestCode ≤ b.hash) := by
    refine (holds_run hdist).sorted.imp fun {a b} hab => ?_
    have hhash : a.hash ≤ b.hash := Prod.Lex.monotone_fst _ _ hab
    simpa using fun h => h.trans hhash
  have hfg : (r.removeServer s).fg = r.fg.filter (·.serverSock ≠ s) := Ring.modify_fg (.inr filter_sublist)
  have horder : (r.removeServer s).order i.requestCode = (r.order i.requestCode).filter (·.serverSock ≠ s) := by
    rw [Ring.order, Ring.order, hfg, around_filter hup]
  rw [hselect, hselect, horder, find?_filter]
  congr! 5 with node
  by_cases hnode : node.serverSock = s <;> simp [hnode, hdown]

/-- Of two servers the first is down. -/
theorem first_down : let r := run (Ring.step twoReplicas) Ring.empty [.addBatch [(⟨1, ""⟩, true), (⟨2, ""⟩, true)]]
    (r.removeServer ⟨1, ""⟩).selectServer (· ≠ 1) ⟨true, 7, true, fun _ => false⟩ = .ok ⟨2, ""⟩ :=
  (failover_as_removal (by decide) (by decide) rfl _).1 (by decide)

end Brpc.LoadBalancer.ConsistentHashing
