/-
# The watchers of a naming service

`NamingServiceThread` of `brpc/details/naming_service_thread.cpp`.  `ResetServers` inserts the added
servers into the `SocketMap` and looks the removed ones up; under `_mutex` it replaces the lists and
tells the watchers; then it gives up the references of the removed servers.  Each access to the
`SocketMap` and each section of `_mutex` is a step, and keeps `State.Inv`.

The watchers know the current servers exactly as long as none is registered again with ids of others
(`watchers_track_servers`): `AddWatcher` only adds ids (`stale_id_kept`).
-/

import Mathlib.Data.Prod.Lex
import Brpc.Lib.SortedKeys
import Brpc.NamingService.References

namespace Brpc.NamingService

open Function List
open SocketMap (find)
open Lib

variable {N T W : Type}

/-- `ServerNodeWithId`, compared by id and then by node. -/
@[ext] structure ServerNodeWithId (N : Type) where
  id : ℕ
  node : N

instance [LinearOrder N] : LinearOrder (ServerNodeWithId N) :=
  LinearOrder.lift' (fun p => toLex (p.id, p.node)) fun p q h => by
    obtain ⟨hid, hnode⟩ := Prod.mk.inj (toLex_inj.1 h)
    exact ServerNodeWithId.ext hid hnode

/-- Where `ResetServers` is, with its local lists. -/
inductive Call (N : Type) where
  | idle
  /-- `servers` are given, `toInsert` is left of `_added` and `toFind` of `_removed`. -/
  | resetting (servers toInsert toFind : List N) (added removed : List (ServerNodeWithId N))
  | releasing (toRelease : List N)

/-- The thread, its watchers with their filters, and what they were told.  `asked` is the list
`ResetServers` was last called with, `current` the one of the last `ResetServers` at `_mutex`. -/
structure State (N T W : Type) where
  shares : Shares N
  lastServers : List N
  lastSockets : List (ServerNodeWithId N)
  watchers : W → Option (N → Bool)
  view : W → List (ℕ × T)
  call : Call N
  checksPass : Bool
  asked : List N
  current : List N

inductive Step (N W : Type) where
  | resetServers (servers : List N)
  /-- The thread goes on; `defer` and `now` are for `SocketMapRemove`. -/
  | goOn (defer now : ℤ)
  | addWatcher (w : W) (filter : N → Bool)
  | removeWatcher (w : W)
  /-- `~NamingServiceThread`. -/
  | destroy
  | otherTake (n : N)
  | otherGive (n : N) (defer now : ℤ)
  | sweep (n : N) (now : ℤ)

variable (tag : N → T)

/-- `ServerNodeWithId2ServerId`. -/
def serverIds (filter : N → Bool) (sockets : List (ServerNodeWithId N)) : List (ℕ × T) :=
  (sockets.filter fun p => filter p.node).map fun p => (p.id, tag p.node)

variable {tag} in
theorem mem_serverIds {filter : N → Bool} {l : List (ServerNodeWithId N)} {x : ℕ × T} :
    x ∈ serverIds tag filter l ↔ ∃ p ∈ l, filter p.node = true ∧ (p.id, tag p.node) = x := by
  simp [serverIds, and_assoc]

variable [LinearOrder N]

/-- `OnRemovedServers` and `OnAddedServers`, for a registered watcher. -/
def State.tell [DecidableEq T] (s : State N T W) (removed added : List (ServerNodeWithId N)) (w : W) : List (ℕ × T) :=
  match s.watchers w with
  | none => s.view w
  | some filter => (s.view w).filter (· ∉ serverIds tag (fun _ => true) removed) ++ serverIds tag filter added

/-- The section of `_mutex` in `ResetServers`. -/
def State.publish [DecidableEq T] (s : State N T W) (servers : List N)
    (added removed : List (ServerNodeWithId N)) : State N T W :=
  { s with
    lastServers := unique (sort servers)
    lastSockets := inplaceMerge (setDifference s.lastSockets (sort removed)) (sort added)
    view := s.tell tag removed added
    call := .releasing (removed.map (·.node))
    current := servers }

/-- The next step of `ResetServers`. -/
def State.goOn [DecidableEq T] (s : State N T W) (defer now : ℤ) : State N T W :=
  match s.call with
  | .idle => s
  | .resetting servers (n :: toInsert) toFind added removed =>
    let id := (SocketMap.insert n (some true) s.shares.map).1.getD 0
    { s with
      shares := s.shares.take true n
      call := .resetting servers toInsert toFind (added ++ [⟨id, n⟩]) removed }
  | .resetting servers [] (n :: toFind) added removed =>
    { s with
      call := .resetting servers [] toFind added (removed ++ [⟨(find n s.shares.map).getD 0, n⟩])
      checksPass := s.checksPass && (find n s.shares.map).isSome }
  | .resetting servers [] [] added removed => s.publish tag servers added removed
  | .releasing (n :: rest) =>
    { s with shares := s.shares.give true n defer now, call := .releasing rest }
  | .releasing [] => { s with call := .idle }

def State.step [DecidableEq T] [DecidableEq W] (s : State N T W) : Step N W → State N T W
  | .resetServers servers =>
    match s.call with
    | .idle =>
      { s with
        asked := servers
        call := .resetting servers (setDifference (unique (sort servers)) s.lastServers)
          (setDifference s.lastServers (unique (sort servers))) [] [] }
    | _ => s
  | .goOn defer now => s.goOn tag defer now
  | .addWatcher w filter =>
    match s.watchers w with
    | none =>
      { s with
        watchers := update s.watchers w (some filter)
        view := update s.view w (s.view w ++ serverIds tag filter s.lastSockets) }
    | some _ => s
  | .removeWatcher w => { s with watchers := update s.watchers w none }
  | .destroy =>
    match s.call with
    | .idle =>
      { s with
        watchers := fun _ => none
        view := s.tell tag s.lastSockets []
        lastServers := []
        lastSockets := []
        call := .releasing s.lastServers
        asked := []
        current := [] }
    | _ => s
  | .otherTake n => { s with shares := s.shares.take false n }
  | .otherGive n defer now =>
    if 0 < s.shares.refs false n then { s with shares := s.shares.give false n defer now } else s
  | .sweep n now => { s with shares := s.shares.sweep n now }

/-- An empty map, and no servers. -/
def init : State N T W where
  shares := ⟨⟨fun _ => none, fun _ => ⟨true, false, true, 0, 0⟩, 0⟩, fun _ _ => 0⟩
  lastServers := []
  lastSockets := []
  watchers := fun _ => none
  view := fun _ => []
  call := .idle
  checksPass := true
  asked := []
  current := []

/-- The servers besides `_last_servers` that the thread has a reference to. -/
def Call.extra : Call N → List N
  | .idle => []
  | .resetting _ _ _ added _ => added.map (·.node)
  | .releasing rest => rest

/-- The list `ResetServers` is or was called with. -/
def Call.servers (current : List N) : Call N → List N
  | .resetting servers _ _ _ _ => servers
  | _ => current

/-- The lists of `ResetServers` are on the way to the two differences. -/
def State.CallOk (s : State N T W) : Prop :=
  match s.call with
  | .idle => True
  | .resetting servers toInsert toFind added removed =>
    (toInsert ++ added.map (·.node)).Nodup ∧ (toFind ++ removed.map (·.node)).Nodup ∧
    (∀ n, n ∈ toInsert ++ added.map (·.node) ↔ n ∈ servers ∧ n ∉ s.lastServers) ∧
    (∀ n, n ∈ toFind ++ removed.map (·.node) ↔ n ∈ s.lastServers ∧ n ∉ servers) ∧
    ∀ p ∈ added ++ removed, find p.node s.shares.map = some p.id
  | .releasing rest => rest.Nodup ∧ ∀ n ∈ rest, n ∉ s.lastServers

structure State.Inv (s : State N T W) : Prop where
  shares : s.shares.Inv
  last : s.lastServers = unique (sort s.current)
  refs : ∀ n, s.shares.refs true n = if n ∈ s.lastServers ++ s.call.extra then 1 else 0
  increasing : Increasing s.lastSockets
  sockets : ∀ p, p ∈ s.lastSockets ↔ p.node ∈ s.lastServers ∧ find p.node s.shares.map = some p.id
  checks : s.checksPass = true
  asked : s.asked = s.call.servers s.current
  call : s.CallOk

/-- The id and tag of a current server that the filter accepts. -/
def State.Accepted (s : State N T W) (filter : N → Bool) (x : ℕ × T) : Prop :=
  ∃ n ∈ s.current, filter n = true ∧ find n s.shares.map = some x.1 ∧ tag n = x.2

/-- A registered watcher was told, and not told to be removed, the ids of the current servers that
its filter accepts. -/
def State.Tracked (s : State N T W) : Prop :=
  ∀ w filter, s.watchers w = some filter → ∀ x, x ∈ s.view w ↔ s.Accepted tag filter x

/-- A watcher that is registered, and may have been before, has no other ids. -/
def State.Fits (s : State N T W) : Step N W → Prop
  | .addWatcher w filter => s.watchers w = none → ∀ x ∈ s.view w, s.Accepted tag filter x
  | _ => True

/-- The steps that are left of the call. -/
def Call.left : Call N → ℕ
  | .idle => 0
  | .resetting _ toInsert toFind _ removed => toInsert.length + 2 * toFind.length + removed.length + 2
  | .releasing rest => rest.length + 1

omit [LinearOrder N] in
theorem Call.eq_idle {c : Call N} (h : c.left = 0) : c = .idle := by
  cases c with
  | idle => rfl
  | _ => cases h

/-- The thread calls `ResetServers` or is destroyed. -/
def Step.isCall : Step N W → Bool
  | .resetServers _ | .destroy => true
  | _ => false

def Step.isGoOn : Step N W → Bool
  | .goOn _ _ => true
  | _ => false

section

variable {tag} {s : State N T W} (h : s.Inv) {n : N} {servers toInsert toFind : List N}
  {added removed : List (ServerNodeWithId N)}
include h

theorem State.Inv.refs_pos (hn : n ∈ s.lastServers ++ s.call.extra) : 0 < s.shares.refs true n := by
  rw [h.refs, if_pos hn]
  decide

theorem State.Inv.noted (hc : s.call = .resetting servers toInsert toFind added removed)
    {p : ServerNodeWithId N} (hp : p ∈ added ++ removed) :
    0 < s.shares.refs true p.node ∧ find p.node s.shares.map = some p.id := by
  have hcall := h.call
  simp only [CallOk, hc] at hcall
  obtain ⟨-, -, -, hremoved, hids⟩ := hcall
  refine ⟨h.refs_pos ?_, hids p hp⟩
  rcases mem_append.1 hp with hp | hp
  · simp only [hc, Call.extra]
    exact mem_append_right _ (mem_map_of_mem hp)
  · exact mem_append_left _ ((hremoved p.node).1 (mem_append_right _ (mem_map_of_mem hp))).1

theorem State.Inv.frame {shares : Shares N} {call : Call N} {asked : List N} (hs : shares.Inv)
    (hrefs : ∀ n, shares.refs true n = if n ∈ s.lastServers ++ call.extra then 1 else 0)
    (hfind : ∀ n ∈ s.lastServers, find n shares.map = find n s.shares.map)
    (hasked : asked = call.servers s.current) (hcall : CallOk { s with shares := shares, call := call }) :
    State.Inv { s with shares := shares, call := call, asked := asked } := by
  refine ⟨hs, h.last, hrefs, h.increasing, fun p => ?_, h.checks, hasked, hcall⟩
  rw [h.sockets]
  exact and_congr_right fun hp => by rw [hfind _ hp]

theorem State.Inv.others {shares : Shares N} (hs : shares.Inv) (hrefs : shares.refs true = s.shares.refs true)
    (hfind : ∀ n, 0 < s.shares.refs true n → find n shares.map = find n s.shares.map) :
    State.Inv { s with shares := shares } := by
  refine h.frame hs (fun n => by rw [hrefs, h.refs]) (fun n hn => hfind n (h.refs_pos (mem_append_left _ hn)))
    h.asked ?_
  have hcall := h.call
  cases hc : s.call with
  | idle => simp [CallOk]
  | resetting =>
    simp only [CallOk, hc] at hcall ⊢
    refine ⟨hcall.1, hcall.2.1, hcall.2.2.1, hcall.2.2.2.1, fun p hp => ?_⟩
    obtain ⟨hpos, hid⟩ := h.noted hc hp
    rw [hfind _ hpos, hid]
  | releasing => simpa only [CallOk, hc] using hcall

variable [DecidableEq T]

theorem State.Inv.insert (hc : s.call = .resetting servers (n :: toInsert) toFind added removed)
    (defer now : ℤ) : (s.goOn tag defer now).Inv := by
  have hcall := h.call
  simp only [CallOk, hc] at hcall
  obtain ⟨hnd, hnd', hadded, hremoved, hids⟩ := hcall
  have hnew : n ∉ s.lastServers ++ s.call.extra := by
    simp only [hc, Call.extra]
    grind
  have hs := h.shares.take true n
  have hasked := h.asked
  simp only [State.goOn, hc] at hasked ⊢
  refine h.frame hs (fun k => ?_) (fun k hk => find_take h.shares true n (h.refs_pos (by simp [hk]))) hasked ?_
  · have := h.refs k
    simp only [hc, Call.extra] at this hnew ⊢
    simp only [Shares.take, Shares.count]
    grind
  · obtain ⟨id, hid⟩ := hs.find_isSome (n := n) (by
      have := h.refs n
      rw [if_neg hnew] at this
      simp [Shares.take, Shares.count, this])
    refine ⟨?_, hnd', fun k => ?_, hremoved, fun p hp => ?_⟩
    · grind
    · grind
    · have hself := find_take_self h.shares true n
      by_cases hold : p ∈ added ++ removed
      · obtain ⟨hpos, hid⟩ := h.noted hc hold
        rw [find_take h.shares true n hpos, hid]
      · obtain rfl : p = ⟨(SocketMap.insert n (some true) s.shares.map).1.getD 0, n⟩ := by grind
        rw [hself] at hid
        simp [hself, hid]

theorem State.Inv.lookUp (hc : s.call = .resetting servers [] (n :: toFind) added removed)
    (defer now : ℤ) : (s.goOn tag defer now).Inv := by
  have hcall := h.call
  simp only [CallOk, hc] at hcall
  obtain ⟨hnd, hnd', hadded, hremoved, hids⟩ := hcall
  have hlast : n ∈ s.lastServers := ((hremoved n).1 (by simp)).1
  obtain ⟨id, hid⟩ := h.shares.find_isSome (h.refs_pos (mem_append_left _ hlast))
  have hrefs := h.refs
  have hasked := h.asked
  simp only [hc] at hrefs hasked
  simp only [State.goOn, hc, hid]
  refine { h with refs := hrefs, checks := by simp [h.checks], asked := hasked, call := ?_ }
  refine ⟨hnd, ?_, hadded, fun k => ?_, fun p hp => ?_⟩
  · grind
  · grind
  · grind

theorem State.Inv.release {rest : List N} (hc : s.call = .releasing (n :: rest)) (defer now : ℤ) :
    (s.goOn tag defer now).Inv := by
  have hcall := h.call
  simp only [CallOk, hc] at hcall
  obtain ⟨hnd, hlast⟩ := hcall
  have hs : (s.shares.give true n defer now).Inv := h.shares.give (h.refs_pos (by simp [hc, Call.extra]))
  have hrefs : ∀ k, (s.shares.give true n defer now).refs true k = if k ∈ s.lastServers ++ rest then 1 else 0 := by
    intro k
    have := h.refs k
    simp only [hc, Call.extra] at this
    simp only [Shares.give, Shares.count]
    grind
  have hasked := h.asked
  simp only [State.goOn, hc] at hasked ⊢
  refine h.frame hs hrefs (fun k hk => find_removal hs ?_) hasked ?_
  · have hone := (hrefs k).trans (if_pos (by simp [hk]))
    exact lt_of_lt_of_eq Int.one_pos hone.symm
  · exact ⟨hnd.of_cons, fun k hk => hlast k (mem_cons_of_mem _ hk)⟩

section

variable (hc : s.call = .resetting servers [] [] added removed)
include hc

theorem State.Inv.published : Increasing (s.publish tag servers added removed).lastSockets ∧
      ∀ p, p ∈ (s.publish tag servers added removed).lastSockets ↔ p ∈ s.lastSockets ∧ p ∉ removed ∨ p ∈ added := by
  have hcall := h.call
  simp only [CallOk, hc, nil_append] at hcall
  obtain ⟨hnd, hnd', hadded, -, -⟩ := hcall
  have hdiff := setDifference_eq_filter h.increasing (increasing_sort (hnd'.of_map _))
  simp only [State.publish, hdiff]
  refine ⟨increasing_inplaceMerge (Pairwise.filter _ h.increasing)
    (increasing_sort (hnd.of_map _)) fun p hold hnew => ?_, fun p => by simp⟩
  have hnode := (hadded p.node).1 (mem_map_of_mem (mem_sort.1 hnew))
  exact hnode.2 ((h.sockets p).1 (mem_filter.1 hold).1).1

theorem State.Inv.publish : (s.publish tag servers added removed).Inv := by
  obtain ⟨hinc, hmem⟩ := h.published hc
  have hcall := h.call
  simp only [CallOk, hc, nil_append] at hcall
  obtain ⟨-, hnd', hadded, hremoved, hids⟩ := hcall
  -- a noted server and its id determine each other
  have hid : ∀ {p l}, l ⊆ added ++ removed → find p.node s.shares.map = some p.id →
      p.node ∈ l.map (·.node) → p ∈ l := by
    intro p l hl hp hpl
    obtain ⟨q, hq, heq⟩ := mem_map.1 hpl
    have := hids q (hl hq)
    rw [heq, hp] at this
    rwa [ServerNodeWithId.ext (Option.some.inj this) heq.symm]
  have hasked := h.asked
  rw [hc] at hasked
  refine ⟨h.shares, rfl, fun n => ?_, hinc, fun p => ?_, h.checks, hasked, hnd', fun n hn => ?_⟩
  · have := h.refs n
    simp only [hc, Call.extra, mem_append, hadded] at this
    simp only [State.publish, Call.extra, mem_append, mem_unique, mem_sort, hremoved]
    grind
  · have hin : p ∈ added → p.node ∈ servers ∧ p.node ∉ s.lastServers := fun hp =>
      (hadded _).1 (mem_map_of_mem hp)
    have hout : p ∈ removed → p.node ∈ s.lastServers ∧ p.node ∉ servers := fun hp =>
      (hremoved _).1 (mem_map_of_mem hp)
    have hin' := @hid p added (by simp)
    have hout' := @hid p removed (by simp)
    have hp := hids p
    rw [hadded] at hin'
    rw [hremoved] at hout'
    rw [hmem, h.sockets]
    simp only [State.publish, mem_unique, mem_sort]
    grind
  · simp only [State.publish, mem_unique, mem_sort]
    exact ((hremoved n).1 hn).2

end

theorem State.Inv.goOn (defer now : ℤ) : (s.goOn tag defer now).Inv := by
  cases hc : s.call with
  | idle => simpa only [State.goOn, hc] using h
  | resetting servers toInsert toFind =>
    cases toInsert with
    | cons => exact h.insert hc defer now
    | nil =>
      cases toFind with
      | cons => exact h.lookUp hc defer now
      | nil => simpa only [State.goOn, hc] using h.publish hc
  | releasing rest =>
    cases rest with
    | cons => exact h.release hc defer now
    | nil =>
      have hrefs := h.refs
      have hasked := h.asked
      simp only [hc] at hrefs hasked
      simp only [State.goOn, hc]
      exact h.frame h.shares hrefs (fun _ _ => rfl) hasked trivial

variable [DecidableEq W]

theorem State.Inv.resetServers (servers : List N) : (s.step tag (.resetServers servers)).Inv := by
  rw [State.step]
  split
  next hc =>
    have hrefs := h.refs
    simp only [hc] at hrefs
    have hlast : Increasing s.lastServers := h.last ▸ increasing_unique_sort s.current
    have hnew := increasing_unique_sort servers
    refine h.frame h.shares hrefs (fun _ _ => rfl) rfl ?_
    simp only [CallOk, setDifference_eq_filter hnew hlast, setDifference_eq_filter hlast hnew]
    exact ⟨by simpa using hnew.nodup.filter _, by simpa using hlast.nodup.filter _,
      by simp, by simp, by simp⟩
  · exact h

theorem State.Inv.step (i : Step N W) : (s.step tag i).Inv := by
  cases i with
  | resetServers servers => exact h.resetServers servers
  | goOn defer now => exact h.goOn defer now
  | addWatcher =>
    rw [State.step]
    split
    · exact { h with }
    · exact h
  | removeWatcher => exact { h with }
  | destroy =>
    rw [State.step]
    split
    next hc =>
      have hrefs := h.refs
      simp only [hc, Call.extra, append_nil] at hrefs
      refine ⟨h.shares, by simp [unique, sort], hrefs, .nil, by simp, h.checks, rfl, ?_⟩
      have hlast : Increasing s.lastServers := h.last ▸ increasing_unique_sort s.current
      exact ⟨hlast.nodup, by simp⟩
    · exact h
  | otherTake n =>
    exact h.others (h.shares.take false n) rfl fun k hk => find_take h.shares false n hk
  | otherGive n defer now =>
    rw [State.step]
    split
    next hn =>
      have hs : (s.shares.give false n defer now).Inv := h.shares.give hn
      exact h.others hs (by funext k; simp [Shares.give, Shares.count]) fun k hk =>
        find_removal hs (by simpa [Shares.count] using hk)
    · exact h
  | sweep n now =>
    have hs : (s.shares.sweep n now).Inv := h.shares.sweep
    exact h.others hs rfl fun k hk => find_removal hs hk

end

/-! ## What the watchers know -/

section

variable {tag} {s : State N T W} (h : s.Inv)
include h

theorem State.Inv.accepted_iff {filter : N → Bool} {x : ℕ × T} :
    s.Accepted tag filter x ↔ x ∈ serverIds tag filter s.lastSockets := by
  have hmem : ∀ n, n ∈ s.lastServers ↔ n ∈ s.current := by simp [h.last]
  rw [mem_serverIds]
  simp only [h.sockets, hmem]
  constructor
  · rintro ⟨n, hn, hf, hid, ht⟩
    exact ⟨⟨x.1, n⟩, ⟨hn, hid⟩, hf, Prod.ext rfl ht⟩
  · rintro ⟨p, ⟨hn, hid⟩, hf, rfl⟩
    exact ⟨p.node, hn, hf, hid, rfl⟩

theorem State.Inv.tracked_iff : s.Tracked tag ↔ ∀ w filter, s.watchers w = some filter →
    ∀ x, x ∈ s.view w ↔ x ∈ serverIds tag filter s.lastSockets := by
  simp only [Tracked, h.accepted_iff]

variable (hview : s.Tracked tag) [DecidableEq T]
include hview

/-- **What the watchers are told under the lock is the change of the list.** -/
theorem State.Inv.tell {servers : List N} {added removed : List (ServerNodeWithId N)}
    (hc : s.call = .resetting servers [] [] added removed) : (s.publish tag servers added removed).Tracked tag := by
  have hmem : ∀ p, p ∈ (s.publish tag servers added removed).lastSockets ↔ _ := (h.published hc).2
  have hcall := h.call
  simp only [CallOk, hc, nil_append] at hcall
  obtain ⟨-, -, -, -, hids⟩ := hcall
  have hnode : ∀ {p q}, p ∈ s.lastSockets → q ∈ removed → p.id = q.id → p = q := by
    intro p q hp hq heq
    have hpid := ((h.sockets p).1 hp).2
    rw [heq] at hpid
    exact ServerNodeWithId.ext heq (h.shares.eq_of_find hpid (hids q (mem_append_right _ hq)))
  rw [h.tracked_iff] at hview
  rw [(h.publish hc).tracked_iff]
  intro w filter hw x
  have hview := hview w filter hw x
  have htell : (s.publish tag servers added removed).view w = s.tell tag removed added w := rfl
  have hw : s.watchers w = some filter := hw
  simp only [htell, State.tell, hw, mem_append, mem_filter, hview, mem_serverIds, hmem, decide_eq_true_eq]
  grind

theorem State.Inv.tracked_goOn (defer now : ℤ) : (s.goOn tag defer now).Tracked tag := by
  have hview' := h.tracked_iff.1 hview
  have hinv : (s.goOn tag defer now).Inv := h.goOn defer now
  rw [hinv.tracked_iff]
  cases hc : s.call with
  | idle => simpa only [State.goOn, hc] using hview'
  | resetting servers toInsert toFind =>
    rcases toInsert with _ | _
    · rcases toFind with _ | _
      · have htell := h.tell hview hc
        rw [(h.publish hc).tracked_iff] at htell
        simpa only [State.goOn, hc] using htell
      · simpa only [State.goOn, hc] using hview'
    · simpa only [State.goOn, hc] using hview'
  | releasing rest => rcases rest with _ | _ <;> simpa only [State.goOn, hc] using hview'

variable [DecidableEq W]

theorem State.Inv.tracked_step (i : Step N W) (hfits : s.Fits tag i) : (s.step tag i).Tracked tag := by
  have hview' := h.tracked_iff.1 hview
  rw [(h.step i).tracked_iff]
  cases i with
  | goOn defer now => exact (h.step (.goOn defer now)).tracked_iff.1 (h.tracked_goOn hview defer now)
  | addWatcher =>
    rw [State.step]
    simp only [Fits, h.accepted_iff] at hfits
    split
    · grind
    · exact hview'
  | removeWatcher =>
    intro k f hf x
    have := hview' k f
    simp only [State.step, update_apply] at hf
    grind [State.step]
  | destroy =>
    rw [State.step]
    split
    · exact fun w filter hw => nomatch hw
    · exact hview'
  | resetServers | otherGive =>
    rw [State.step]
    split <;> exact hview'
  | otherTake | sweep => exact hview'

omit h hview in
theorem State.fits_of_tracked {i : Step N W} (hview : (s.step tag i).Tracked tag) : s.Fits tag i := by
  cases i with
  | addWatcher w filter =>
    intro hw x hx
    have htracked := hview w filter
    simp only [State.step, hw, update_self] at htracked
    exact (htracked trivial x).1 (mem_append_left _ hx)
  | _ => trivial

end

theorem left_step [DecidableEq T] [DecidableEq W] (s : State N T W) (i : Step N W) (hi : i.isCall = false) :
    (s.step tag i).call.left ≤ s.call.left - if i.isGoOn then 1 else 0 := by
  cases i with
  | resetServers | destroy => cases hi
  | goOn =>
    rw [State.step, State.goOn]
    split <;> grind [Call.left, Step.isGoOn, State.publish]
  | _ => grind [State.step, Step.isGoOn]

/-- **Watchers track the servers.**  A registered watcher knows the ids of the current servers that
its filter accepts, and no others, at all times exactly if no watcher is registered with others;
each current server has one reference of the thread, and between the calls no other server has one;
the current servers are then those `ResetServers` was called with; no `CHECK` has failed; and a
call is over after the steps that are left of it, whatever happens in between. -/
theorem watchers_track_servers [DecidableEq T] [DecidableEq W] (tag : N → T)
    (steps : List (Step N W)) : let s : State N T W := Lib.run (State.step tag) init steps
    ((∀ pre, pre <+: steps → (Lib.run (State.step tag) (init : State N T W) pre).Tracked tag) ↔
      Along (State.step tag) (State.Fits tag) (init : State N T W) steps) ∧
    (∀ n ∈ s.current, s.shares.refs true n = 1 ∧ (find n s.shares.map).isSome) ∧
    (s.call = .idle → s.current = s.asked ∧ ∀ n ∉ s.current, s.shares.refs true n = 0) ∧
    s.checksPass = true ∧
    ∀ js : List (Step N W), (∀ i ∈ js, i.isCall = false) → s.call.left ≤ js.countP Step.isGoOn →
      (Lib.run (State.step tag) s js).call = .idle := by
  intro s
  have hinit : (init : State N T W).Inv := by
    refine ⟨⟨by constructor <;> simp [init], ?_, ?_, ?_⟩, ?_, ?_, .nil, ?_, rfl, rfl, trivial⟩ <;>
      simp [init, Call.extra, unique, sort]
  have h : s.Inv := Lib.run_invariant' (I := State.Inv) (fun s i h => h.step i) steps hinit
  have hmem : ∀ n, n ∈ s.lastServers ↔ n ∈ s.current := by simp [h.last]
  refine ⟨?_, fun n hn => ?_, fun hc => ⟨?_, fun n hn => ?_⟩, h.checks, fun js hjs hlen => ?_⟩
  · exact along_iff_prefixes_of_invariant (I := fun s : State N T W => s.Inv ∧ s.Tracked tag) (fun _ hs => hs.2)
      (fun s i hs hi => ⟨hs.1.step i, hs.1.tracked_step hs.2 i hi⟩) (fun s i _ => s.fits_of_tracked)
      steps init ⟨hinit, nofun⟩
  · have hpos := h.refs_pos (List.mem_append_left _ ((hmem n).2 hn))
    obtain ⟨id, hid⟩ := h.shares.find_isSome hpos
    rw [h.refs, if_pos (List.mem_append_left _ ((hmem n).2 hn)), hid]
    exact ⟨rfl, rfl⟩
  · rw [h.asked, hc]
    rfl
  · rw [h.refs, if_neg]
    simp [hc, Call.extra, hmem, hn]
  · have hle := Lib.run_lowers (p := Step.isGoOn) (f := fun s => s.call.left) (left_step tag) js s hjs
    exact Call.eq_idle (Nat.le_zero.1 (hle.trans (by omega)))

/-- A watcher that was removed when server 7 was there, and is registered again when it is gone,
still has its id. -/
theorem stale_id_kept :
    let s : State ℕ Unit Unit := Lib.run (State.step fun _ => ()) init [.addWatcher () fun _ => true,
      .resetServers [7], .goOn 0 0, .goOn 0 0, .goOn 0 0, .removeWatcher (),
      .resetServers [], .goOn 0 0, .goOn 0 0, .goOn 0 0, .goOn 0 0, .addWatcher () fun _ => true]
    s.current = [] ∧ (s.watchers ()).isSome ∧ s.view () = [(0, ())] := by
  simp [run, State.step, State.goOn, State.publish, State.tell, init, sort, unique, setDifference,
    differenceAfter, inplaceMerge, serverIds]
  decide

end Brpc.NamingService
