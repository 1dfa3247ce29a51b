/-
# The map of shared connections

`SocketMap` of `brpc/socket_map.cpp`: `Insert`, `RemoveInternal` and `Find`, each one critical
section of `_mutex`, over the finite map that `FlatMap` implements.  Users call `Insert` and, once
for each id they got, `Remove`; sockets without a health check fail for good; `WatchConnections`
lists the orphans and then removes them one by one.  `connections_shared`: one connection for each
key, freed once.
-/

import Brpc.Lib.Run

namespace Brpc.SocketMap

open Function

variable {K : Type} [DecidableEq K]

structure SingleConnection where
  refCount : ℤ
  socket : ℕ
  noRefUs : ℤ

/-- The references of a socket that the map is responsible for. -/
structure Sock where
  hcEnabled : Bool
  failed : Bool
  additionalHeld : Bool
  additionalReleased : ℕ
  mapReleased : ℕ

/-- `ReleaseAdditionalReference`: the exchange of the status lets one caller through. -/
def Sock.releaseAdditional (s : Sock) : Sock :=
  if s.additionalHeld then
    { s with additionalHeld := false, additionalReleased := s.additionalReleased + 1 }
  else s

/-- The end of the `SocketUniquePtr` over the pointer of the map. -/
def Sock.dereference (s : Sock) : Sock := { s with mapReleased := s.mapReleased + 1 }

/-- A permanent failure: `SetFailed` gives the additional reference up. -/
def Sock.setFailed (s : Sock) : Sock := { s.releaseAdditional with failed := true }

/-- The map and its sockets; the ids below `next` were created. -/
structure Map (K : Type) where
  map : K → Option SingleConnection
  socket : ℕ → Sock
  next : ℕ

/-- The second half of `Insert`; `created` is the outcome of `CreateSocket`, with whether the new
socket has a health check. -/
def create (key : K) (created : Option Bool) (m : Map K) : Option ℕ × Map K :=
  match created with
  | none => (none, m)
  | some hc =>
    (some m.next,
      { map := update m.map key (some ⟨1, m.next, 0⟩)
        socket := update m.socket m.next ⟨hc, false, true, 0, 0⟩
        next := m.next + 1 })

/-- The entry leaves the map, and its socket becomes `s`. -/
def erase (key : K) (id : ℕ) (s : Sock) (m : Map K) : Map K :=
  { m with map := update m.map key none, socket := update m.socket id s }

def insert (key : K) (created : Option Bool) (m : Map K) : Option ℕ × Map K :=
  match m.map key with
  | none => create key created m
  | some sc =>
    if (m.socket sc.socket).failed = false ∨ (m.socket sc.socket).hcEnabled = true then
      (some sc.socket, { m with map := update m.map key (some { sc with refCount := sc.refCount + 1 }) })
    else create key created (erase key sc.socket (m.socket sc.socket).dereference m)

/-- `--ref_count` in `RemoveInternal`; `none` is `INVALID_SOCKET_ID`. -/
def SingleConnection.release (expected : Option ℕ) (removeOrphan : Bool) (sc : SingleConnection) :
    SingleConnection :=
  if removeOrphan = false ∧ (expected = none ∨ expected = some sc.socket) then
    { sc with refCount := sc.refCount - 1 }
  else sc

/-- `SocketMap::RemoveInternal`, with the `defer_close_second` and the time that it reads. -/
def removeInternal (key : K) (expected : Option ℕ) (removeOrphan : Bool) (defer now : ℤ) (m : Map K) : Map K :=
  match m.map key with
  | none => m
  | some sc =>
    let sc := sc.release expected removeOrphan
    if sc.refCount = 0 then
      if removeOrphan = false ∧ 0 < defer then
        { m with map := update m.map key (some { sc with noRefUs := now }) }
      else erase key sc.socket (m.socket sc.socket).releaseAdditional.dereference m
    else { m with map := update m.map key (some sc) }

def find (key : K) (m : Map K) : Option ℕ := (m.map key).map (·.socket)

/-- What holds of the map and the references of its sockets. -/
structure Map.Wf (m : Map K) : Prop where
  lt : ∀ {k sc}, m.map k = some sc → sc.socket < m.next
  injective : ∀ {k k' sc sc'}, m.map k = some sc → m.map k' = some sc' → sc.socket = sc'.socket → k = k'
  mapped : ∀ {k sc}, m.map k = some sc → (m.socket sc.socket).mapReleased = 0
  unmapped : ∀ {id}, id < m.next → (∀ k sc, m.map k = some sc → sc.socket ≠ id) → (m.socket id).mapReleased = 1
  additional : ∀ {id}, id < m.next → (m.socket id).additionalReleased = if (m.socket id).additionalHeld then 0 else 1

@[simp] theorem release_socket (e : Option ℕ) (o : Bool) (sc : SingleConnection) :
    (sc.release e o).socket = sc.socket := by
  unfold SingleConnection.release
  split <;> rfl

variable {m : Map K} {key : K} {sc : SingleConnection}

/-- `Insert` counts one more holder of the entry, or there is none that can be used and it makes a
new one or fails. -/
theorem insert_cases (key : K) (c : Option Bool) (m : Map K) :
    (∃ sc, m.map key = some sc ∧ (insert key c m).1 = some sc.socket ∧
      (insert key c m).2.map key = some { sc with refCount := sc.refCount + 1 } ∧
      (insert key c m).2.next = m.next) ∨
    (∀ sc, m.map key = some sc → (m.socket sc.socket).failed = true ∧ (m.socket sc.socket).hcEnabled = false) ∧
    ((insert key c m).1 = none ∧ (insert key c m).2.map key = none ∧ (insert key c m).2.next = m.next ∨
      (insert key c m).1 = some m.next ∧ (insert key c m).2.map key = some ⟨1, m.next, 0⟩ ∧
        (insert key c m).2.next = m.next + 1) := by
  cases hk : m.map key with
  | none => cases c <;> simp [insert, create, hk]
  | some sc =>
    by_cases h : (m.socket sc.socket).failed = false ∨ (m.socket sc.socket).hcEnabled = true
    · simp [insert, hk, h]
    · cases c <;> simp_all [insert, create, erase]

@[simp] theorem insert_map_of_ne {k : K} (hk : k ≠ key) (c : Option Bool) (m : Map K) :
    (insert key c m).2.map k = m.map k := by
  unfold insert create erase
  repeat' split
  all_goals simp [hk]

theorem removeInternal_map (hk : m.map key = some sc) (e : Option ℕ) (o : Bool) (defer now : ℤ) :
    (removeInternal key e o defer now m).map key = if (sc.release e o).refCount = 0 then
        if o = false ∧ 0 < defer then some { sc.release e o with noRefUs := now } else none
      else some (sc.release e o) := by
  simp only [removeInternal, hk, erase]
  repeat' split
  all_goals simp

@[simp] theorem removeInternal_map_of_ne {k : K} (hk : k ≠ key) (e : Option ℕ) (o : Bool)
    (defer now : ℤ) (m : Map K) : (removeInternal key e o defer now m).map k = m.map k := by
  unfold removeInternal erase
  dsimp only
  repeat' split
  all_goals simp [hk]

theorem removeInternal_inv {k : K} {e : Option ℕ} {o : Bool} {defer now : ℤ}
    (h : (removeInternal key e o defer now m).map k = some sc) :
    ∃ sc₀, m.map k = some sc₀ ∧ (k ≠ key ∧ sc = sc₀ ∨ k = key ∧ sc = sc₀.release e o ∧ sc.refCount ≠ 0 ∨
      k = key ∧ o = false ∧ sc = { sc₀.release e o with noRefUs := now }) := by
  by_cases hkey : k = key
  · subst hkey
    cases hk : m.map k with
    | none => simp [removeInternal, hk] at h
    | some =>
      rw [removeInternal_map hk] at h
      grind
  · rw [removeInternal_map_of_ne hkey] at h
    exact ⟨sc, h, .inl ⟨hkey, rfl⟩⟩

theorem find_removeInternal {k : K} {e : Option ℕ} {o : Bool} (hk : m.map k = some sc)
    (h : k = key → (sc.release e o).refCount ≠ 0) (defer now : ℤ) :
    find k (removeInternal key e o defer now m) = some sc.socket := by
  by_cases hkey : k = key
  · subst hkey
    simp [find, removeInternal_map hk, h rfl]
  · simp [find, hkey, hk]

@[simp] theorem removeInternal_next (e : Option ℕ) (o : Bool) (defer now : ℤ) (m : Map K) :
    (removeInternal key e o defer now m).next = m.next := by
  unfold removeInternal erase
  dsimp only
  repeat' split
  all_goals rfl

theorem Map.Wf.create (h : m.Wf) (hk : m.map key = none) (c : Option Bool) : (create key c m).2.Wf := by
  cases c with
  | none => exact h
  | some =>
    obtain ⟨_, _, _, hun, _⟩ := h
    constructor <;> simp only [SocketMap.create, update_apply]
    case unmapped =>
      intro id hid hno
      have hne := hno key _ (if_pos rfl)
      have := @hun id (by grind) fun k sc hk => hno k sc (by grind)
      grind
    all_goals grind

theorem Map.Wf.erase (h : m.Wf) (hk : m.map key = some sc) {s : Sock} (hs : s.mapReleased = 1)
    (ha : s.additionalReleased = if s.additionalHeld then 0 else 1) : (erase key sc.socket s m).Wf := by
  obtain ⟨_, _, _, hun, _⟩ := h
  constructor <;> simp only [SocketMap.erase, update_apply]
  case unmapped =>
    intro id hid hno
    by_cases hid' : id = sc.socket
    · rw [if_pos hid', hs]
    · rw [if_neg hid']
      exact hun hid fun k sc' hk' => by
        have := hno k sc'
        grind
  all_goals grind

theorem Map.Wf.update (h : m.Wf) (hk : m.map key = some sc) {sc' : SingleConnection}
    (hs : sc'.socket = sc.socket) : Map.Wf { m with map := update m.map key (some sc') } := by
  obtain ⟨_, _, _, hun, _⟩ := h
  constructor <;> simp only [update_apply]
  case unmapped =>
    intro id hid hno
    refine hun hid fun k sc₁ hk₁ => ?_
    have h₁ := hno k sc₁
    have h₂ := hno key sc' (if_pos rfl)
    grind
  all_goals grind

theorem Map.Wf.insert (h : m.Wf) (key : K) (c : Option Bool) : (insert key c m).2.Wf := by
  unfold SocketMap.insert
  split
  · exact h.create ‹_› c
  next sc hk =>
    split
    · exact h.update hk rfl
    · refine (h.erase hk ?_ ?_).create (by simp [SocketMap.erase]) c
      · simp [Sock.dereference, h.mapped hk]
      · exact h.additional (h.lt hk)

theorem Map.Wf.removeInternal (h : m.Wf) (key : K) (e : Option ℕ) (o : Bool) (defer now : ℤ) :
    (removeInternal key e o defer now m).Wf := by
  unfold SocketMap.removeInternal
  split
  · exact h
  next sc hk =>
    have ha := h.additional (h.lt hk)
    have hm := h.mapped hk
    dsimp only
    split
    · split
      · exact h.update hk (by simp)
      · rw [release_socket]
        exact h.erase hk (by grind [Sock.dereference, Sock.releaseAdditional])
          (by grind [Sock.dereference, Sock.releaseAdditional])
    · exact h.update hk (by simp)

/-! ## One connection for each key -/

open Lib SingleConnection

variable {K : Type} [DecidableEq K]

/-- The map, the clock, the `defer_us` and `orphan_sockets` of the watcher; and the holders of
each id, since when a key is without holders, and the keys inserted since the orphans were listed.
-/
structure State (K : Type) where
  m : Map K
  clock : ℤ
  deferUs : ℤ
  listed : K → Bool
  holders : K → ℕ → ℕ
  freeSince : K → ℤ
  taken : K → Bool

inductive Call (K : Type) where
  /-- `Insert`, with the outcome of `CreateSocket` if it comes to it. -/
  | insert (key : K) (created : Option Bool)
  /-- `Remove` by a holder of the id, with the value of `defer_close_second`. -/
  | remove (key : K) (id : ℕ) (defer : ℤ)
  | find (key : K)
  /-- `SetFailed` of a socket without health check. -/
  | fail (id : ℕ)
  | tick (us : ℕ)
  /-- `ListOrphans`; the time was read at most `lag` before the lock was taken. -/
  | listOrphans (deferSeconds : ℤ) (lag : ℕ)
  /-- `RemoveInternal` for one of `orphan_sockets`. -/
  | removeOrphan (key : K)

/-- One more holder of the id that `Insert` returned. -/
def addHolder (key : K) (id : Option ℕ) (h : K → ℕ → ℕ) : K → ℕ → ℕ :=
  fun k i => if k = key ∧ some i = id then h k i + 1 else h k i

/-- `ListOrphans` takes this key. -/
def isOrphan (m : Map K) (deferUs now : ℤ) (key : K) : Bool :=
  (m.map key).any fun sc => sc.refCount = 0 ∧ deferUs ≤ now - sc.noRefUs

def step (s : State K) : Call K → State K
  | .insert key created =>
    { s with
      m := (insert key created s.m).2
      holders := addHolder key (insert key created s.m).1 s.holders
      taken := update s.taken key true }
  | .remove key id defer =>
    if 0 < s.holders key id then
      { s with
        m := removeInternal key (some id) false defer s.clock s.m
        holders := update s.holders key (update (s.holders key) id (s.holders key id - 1))
        freeSince := if find key s.m = some id ∧ s.holders key id = 1
          then update s.freeSince key s.clock else s.freeSince }
    else s
  | .find _ => s
  | .fail id =>
    if (s.m.socket id).hcEnabled = true ∨ (s.m.socket id).failed = true then s
    else { s with m := { s.m with socket := update s.m.socket id (s.m.socket id).setFailed } }
  | .tick us => { s with clock := s.clock + us }
  | .listOrphans deferSeconds lag =>
    { s with
      deferUs := deferSeconds * 1000000
      listed := isOrphan s.m (deferSeconds * 1000000) (s.clock - lag)
      taken := fun _ => false }
  | .removeOrphan key =>
    if s.listed key then
      { s with
        m := removeInternal key none true 0 s.clock s.m
        listed := update s.listed key false }
    else s

/-- No socket was created yet. -/
def init : State K where
  m := ⟨fun _ => none, fun _ => ⟨false, false, true, 0, 0⟩, 0⟩
  clock := 0
  deferUs := 0
  listed := fun _ => false
  holders := fun _ _ => 0
  freeSince := fun _ => 0
  taken := fun _ => false

/-- A key that the watcher removes was not taken and released since it was listed. -/
def Undisturbed (s : State K) (c : Call K) : Prop :=
  ∀ key sc, c = .removeOrphan key → s.taken key = true → s.m.map key = some sc → sc.refCount ≠ 0

/-- A socket that has holders after the call stays in the map, unless it has failed for good and
this is an `Insert` that replaces it. -/
def KeepsHeld (s : State K) (c : Call K) : Prop :=
  ∀ key sc, s.m.map key = some sc → 0 < (step s c).holders key sc.socket →
    find key (step s c).m = some sc.socket ∨
      (∃ created, c = .insert key created) ∧ (s.m.socket sc.socket).failed = true ∧
        (s.m.socket sc.socket).hcEnabled = false

/-- An entry that the watcher drops has been without holders for the defer time. -/
def DropsAged (s : State K) (c : Call K) : Prop :=
  ∀ key, c = .removeOrphan key → (find key s.m).isSome → (find key (step s c).m).isNone →
    s.deferUs ≤ s.clock - s.freeSince key

/-- What holds between the calls. -/
structure Shared (s : State K) : Prop where
  wf : s.m.Wf
  refs : ∀ {k sc}, s.m.map k = some sc → sc.refCount = s.holders k sc.socket
  fresh : ∀ {k id}, s.m.next ≤ id → s.holders k id = 0

/-- `no_ref_us` is not before the key lost its last holder, and a listed key that was not taken
is old enough. -/
structure Aging (s : State K) : Prop where
  past : ∀ k, s.freeSince k ≤ s.clock
  since : ∀ {k sc}, s.m.map k = some sc → sc.refCount = 0 → s.freeSince k ≤ sc.noRefUs
  listed : ∀ {k sc}, s.listed k = true → s.taken k = false → s.m.map k = some sc →
    sc.refCount = 0 ∧ s.deferUs ≤ s.clock - s.freeSince k

variable {s : State K}

section

variable (h : Shared s)
include h

theorem Shared.insert (key : K) (c : Option Bool) : Shared (step s (.insert key c)) := by
  have hcases := insert_cases key c s.m
  have hother := fun k (hk : k ≠ key) => insert_map_of_ne hk c s.m
  refine ⟨h.wf.insert key c, ?_, ?_⟩ <;> simp only [step, addHolder] <;>
    obtain ⟨⟨hlt, _, _, _, _⟩, hrefs, hfresh⟩ := h
  · intro k sc hk
    by_cases hkey : k = key
    · grind
    · grind
  · grind

theorem Shared.remove (key : K) (id : ℕ) (defer : ℤ) : Shared (step s (.remove key id defer)) := by
  rw [step]
  split
  · refine ⟨h.wf.removeInternal .., ?_, ?_⟩ <;> simp only [removeInternal_next, update_apply]
    · intro k sc hk
      obtain ⟨sc₀, hk₀, hsc⟩ := removeInternal_inv hk
      have := h.refs hk₀
      grind [release]
    · have := @h.fresh
      grind
  · exact h

theorem Shared.removeOrphan (key : K) : Shared (step s (.removeOrphan key)) := by
  rw [step]
  split
  · refine ⟨h.wf.removeInternal .., fun hk => ?_, by simpa only [removeInternal_next] using @h.fresh⟩
    obtain ⟨sc₀, hk₀, hsc⟩ := removeInternal_inv hk
    have := h.refs hk₀
    grind [release]
  · exact h

theorem Shared.fail (id : ℕ) : Shared (step s (.fail id)) := by
  rw [step]
  split
  · exact h
  · obtain ⟨⟨hlt, hinj, hmapped, hun, hadd⟩, hrefs, hfresh⟩ := h
    refine ⟨⟨hlt, hinj, ?_, ?_, ?_⟩, hrefs, hfresh⟩ <;>
      simp only [update_apply] <;> grind [Sock.setFailed, Sock.releaseAdditional]

/-- **The counts are right between the calls.**  The step lemma. -/
theorem Shared.step (c : Call K) : Shared (step s c) := by
  cases c with
  | insert key c => exact h.insert key c
  | remove key id defer => exact h.remove key id defer
  | fail id => exact h.fail id
  | removeOrphan key => exact h.removeOrphan key
  | find | tick | listOrphans => exact { h with }

omit h in
theorem Aging.step (h : Aging s) (hs : Shared s) (c : Call K) : Aging (step s c) := by
  obtain ⟨hpast, hsince, hlisted⟩ := h
  have hrefs := @hs.refs
  cases c with
  | insert key c =>
    have hcases := insert_cases key c s.m
    have hother := fun k (hk : k ≠ key) => insert_map_of_ne hk c s.m
    refine ⟨hpast, ?_, ?_⟩ <;> simp only [SocketMap.step, update_apply]
    · grind
    · grind
  | remove =>
    rw [SocketMap.step]
    split
    · refine ⟨?_, fun hk => ?_, fun hl ht hk => ?_⟩ <;> simp only
      · grind
      · obtain ⟨sc₀, hk₀, hsc⟩ := removeInternal_inv hk
        grind [release, find]
      · obtain ⟨sc₀, hk₀, hsc⟩ := removeInternal_inv hk
        have := hlisted hl ht hk₀
        grind [release, find]
    · exact ⟨hpast, hsince, hlisted⟩
  | removeOrphan =>
    rw [SocketMap.step]
    split
    · refine ⟨hpast, fun hk => ?_, fun hl ht hk => ?_⟩
      all_goals
        obtain ⟨sc₀, hk₀, hsc⟩ := removeInternal_inv hk
        grind [release]
    · exact ⟨hpast, hsince, hlisted⟩
  | fail =>
    rw [SocketMap.step]
    split <;> exact ⟨hpast, hsince, hlisted⟩
  | find => exact ⟨hpast, hsince, hlisted⟩
  | tick =>
    refine ⟨fun k => ?_, hsince, fun hl ht hk => ?_⟩ <;> simp only [SocketMap.step]
    · have := hpast k
      omega
    · have := hlisted hl ht hk
      omega
  | listOrphans =>
    refine ⟨hpast, hsince, fun hl _ hk => ?_⟩
    have hl : isOrphan s.m _ _ _ = true := hl
    simp only [SocketMap.step] at hk
    simp only [isOrphan, hk, Option.any_some, decide_eq_true_eq] at hl
    have := hsince hk hl.1
    exact ⟨hl.1, by simp only [SocketMap.step]; omega⟩

theorem keepsHeld_of_shared (c : Call K) : KeepsHeld s c := by
  intro key sc hk hheld
  have hrefs := h.refs hk
  cases c with
  | insert k c =>
    by_cases hkey : key = k
    · have hcases := insert_cases key c s.m
      grind [step, find]
    · simp [step, find, hkey, hk]
  | remove k id defer =>
    rw [step] at hheld ⊢
    split at hheld
    · rw [if_pos ‹_›]
      refine .inl (find_removeInternal hk (fun hkey => ?_) ..)
      simp only [update_apply] at hheld
      grind [release]
    · rw [if_neg ‹_›]
      simp [find, hk]
  | removeOrphan k =>
    rw [step] at hheld ⊢
    split at hheld
    · rw [if_pos ‹_›]
      refine .inl (find_removeInternal hk (fun hkey => ?_) ..)
      grind [release]
    · rw [if_neg ‹_›]
      simp [find, hk]
  | fail =>
    rw [step]
    split <;> simp [find, hk]
  | find | tick | listOrphans => simp [step, find, hk]

end

theorem dropsAged_of_aging (h : Aging s) {c : Call K} (hc : Undisturbed s c) : DropsAged s c := by
  rintro key rfl hin hout
  obtain ⟨sc, hk⟩ : ∃ sc, s.m.map key = some sc := by simpa [find, Option.isSome_iff_exists] using hin
  rw [step] at hout
  split at hout
  · have hzero : sc.refCount = 0 := by
      by_contra hne
      simp [find_removeInternal hk fun _ => show (sc.release none true).refCount ≠ 0 from hne] at hout
    have htaken : s.taken key = false := by
      have := hc key sc rfl
      grind
    exact (h.listed ‹_› htaken hk).2
  · simp [find, hk] at hout

/-- **One connection for each key, freed once**, in every run whose calls are undisturbed:
`ref_count` is the number of holders, no two keys share a socket, a socket in the map has its map
reference and one that left it has lost it once, the additional reference was released at most
once; the next call keeps the sockets with holders, and drops an orphan for the watcher only when
it was without holders for the defer time. -/
theorem connections_shared (calls : List (Call K)) (c : Call K) (h : Along step Undisturbed init (calls ++ [c])) :
    Shared (run step init calls) ∧ KeepsHeld (run step init calls) c ∧ DropsAged (run step init calls) c := by
  rw [along_append] at h
  have hinv : Shared (run step init calls) ∧ Aging (run step init calls) := by
    refine run_invariant' (I := fun s => Shared s ∧ Aging s) (fun s c h => ?_) calls ?_
    · exact ⟨h.1.step c, h.2.step h.1 c⟩
    · exact ⟨⟨by constructor <;> simp [init], by simp [init], by simp [init]⟩,
        by constructor <;> simp [init]⟩
  exact ⟨hinv.1, keepsHeld_of_shared hinv.1 c, dropsAged_of_aging hinv.2 h.2.1⟩

/-- The only holder leaves, and the watcher comes a second later. -/
def released : List (Call Unit) :=
  [.insert () (some true), .remove () 0 1, .tick 1000000, .listOrphans 1 0]

theorem released_orphan_aged : DropsAged (run step init released) (.removeOrphan ()) := by
  refine (connections_shared released (.removeOrphan ()) ⟨?_, ?_, ?_, ?_, ?_, trivial⟩).2.2
  all_goals simp [Undisturbed, step]

/-- The same, but the key is taken and released again before the watcher removes it. -/
def retaken : List (Call Unit) := released ++ [.insert () none, .remove () 0 1]

/-- **A connection that was just used is dropped.** -/
theorem retaken_orphan_dropped : ¬ DropsAged (run step init retaken) (.removeOrphan ()) :=
  fun h => absurd (h () rfl (by decide) (by decide)) (by decide)

end Brpc.SocketMap
