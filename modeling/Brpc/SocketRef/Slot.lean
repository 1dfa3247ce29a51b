/-
# Versioned references to sockets

`Socket::Create`, `Address`, `AddressFailedAsWell`, `ReAddress`, `Dereference`, `SetFailed`,
`ReleaseAdditionalReference` and `Revive` of `brpc/socket_inl.h` and `brpc/socket.cpp`, on one slot
of the resource pool.  `_versioned_ref` holds a version, even while a socket is alive or the slot
free, odd while the socket is failed, and a reference count.  `_additional_ref_status` says whether
the reference that `Create` adds is still there.

Every access to the two words is a step (`State.step`), and what an operation has read is kept with
it (`Op`).  `refs` are the references handed out, under the version of their socket; an operation
keeps the one it is called with until it returns.
-/

import Brpc.Lib.Ops
import Brpc.Lib.Run

namespace Brpc.SocketRef

open Lib

/-- `_versioned_ref` -/
structure VRef where
  version : ℕ
  nref : ℕ
  deriving DecidableEq

/-- `_additional_ref_status` -/
inductive Status
  | refUsing
  | refReviving
  | refRecycled
  deriving DecidableEq

/-- What becomes of the slot: it is in the pool, a socket is being created on it or there, or it
is about to be returned. -/
inductive Phase
  | free
  | creating
  | live
  | recycling
  deriving DecidableEq

/-- An operation in progress, by its next step.  `own` is the reference the caller holds;
the creator of a socket has none. -/
inductive Op
  /-- `Create` is about to store the status. -/
  | create
  /-- `Address` or `AddressFailedAsWell` saw the version `ver1`, not that of its id, and is about
  to take its reference back. -/
  | unref (ver1 : ℕ) (failedAsWell : Bool)
  /-- `Address` took the last reference back at the version `ver2`, and is about to
  recycle the slot. -/
  | addressCas (ver2 : ℕ)
  /-- `SetFailed` has read `vref`. -/
  | setFailed (own : Option ℕ) (idVer : ℕ) (vref : VRef)
  /-- `ReleaseAdditionalReference` -/
  | release (own : Option ℕ)
  /-- `ReleaseAdditionalReference` is about to take the additional reference. -/
  | derefExtra (own : Option ℕ)
  /-- `Dereference` took the last reference at the version `ver`, and is about to recycle
  the slot. -/
  | derefCas (own : Option ℕ) (idVer ver : ℕ)
  /-- `Revive` has read `vref` and is about to store REF_REVIVING. -/
  | reviveStore (own idVer : ℕ) (vref : VRef)
  /-- The loop of `Revive`. -/
  | revive (own idVer : ℕ) (vref : VRef)
  /-- `Revive` is about to store REF_USING. -/
  | reviveUsing (own : ℕ)
  /-- `OnRecycle` and `return_resource` are next. -/
  | recycle (own : Option ℕ)

/-- The slot, the references handed out and the operations in progress, with the ids returned,
what each `Address` handed out for its id, the sockets recycled, and whether a CHECK failed. -/
structure State where
  vref : VRef
  /-- The version in `_this_id`. -/
  thisVer : ℕ
  status : Status
  phase : Phase
  /-- The versions of the ids returned by `Create`. -/
  ids : List ℕ
  refs : List ℕ
  ops : List Op
  /-- The version of the id addressed and that of the socket handed out. -/
  handed : List (ℕ × ℕ)
  recycled : List ℕ
  checkFailed : Bool

/-- A slot nobody has used yet. -/
def State.init : State where
  vref := ⟨0, 0⟩
  thisVer := 0
  status := .refUsing
  phase := .free
  ids := []
  refs := []
  ops := []
  handed := []
  recycled := []
  checkFailed := false

/-- How a step ends: `Create` fails before or after it has stored the status, and
`compare_exchange_weak` may fail without a reason. -/
inductive Answer
  | ok
  | early
  | late
  | spurious
  deriving DecidableEq

inductive Input
  | create
  | address (id : ℕ)
  | addressFailedAsWell (id : ℕ)
  | reAddress (v : ℕ)
  | dereference (v : ℕ)
  | setFailed (v : ℕ)
  | releaseAdditionalReference (v : ℕ)
  | revive (v : ℕ)
  /-- The next step of the operation `k`. -/
  | run (k : ℕ) (a : Answer)

namespace State

variable (s : State) (k : ℕ) (own : Option ℕ)

/-- `_versioned_ref.fetch_add(1)` -/
def fetchAdd : State := { s with vref := ⟨s.vref.version, s.vref.nref + 1⟩ }

/-- `_versioned_ref.fetch_sub(1)` -/
def fetchSub : State := { s with vref := ⟨s.vref.version, s.vref.nref - 1⟩ }

/-- A CHECK, or a LOG(FATAL) that is not reached if `ok`. -/
def check (ok : Bool) : State := { s with checkFailed := s.checkFailed || !ok }

/-- The operation `k` goes on with `new`. -/
def goOn (new : List Op) : State := { s with ops := replaceAt s.ops k new }

/-- The operation `k` returns, and its caller has its reference again. -/
def finish : State :=
  { s.goOn k [] with refs := own.toList ++ s.refs }

/-- `Create` gets the slot, and adds the additional reference. -/
def create (s : State) : State :=
  if s.phase = .free then
    { s.fetchAdd with
      thisVer := s.vref.version
      phase := .creating
      ops := s.ops ++ [.create] }
  else s

/-- The rest of `Create`: the status is stored, and the id returned unless something
fails. -/
def created : Answer → State
  | .early => { s.goOn k [.setFailed none s.thisVer s.vref] with phase := .live }
  | .late => { s.goOn k [.setFailed none s.thisVer s.vref] with
      phase := .live
      status := .refUsing }
  | _ => { s.goOn k [] with
      phase := .live
      status := .refUsing
      ids := s.ids ++ [s.thisVer] }

/-- `Address` and `AddressFailedAsWell`, up to the `fetch_add`. -/
def address (id : ℕ) (failedAsWell : Bool) : State :=
  if id ∈ s.ids then
    if s.vref.version = id ∨ failedAsWell = true ∧ s.vref.version = id + 1 then
      { s.fetchAdd with
        refs := s.thisVer :: s.refs
        handed := s.handed ++ [(id, s.thisVer)] }
    else { s.fetchAdd with ops := s.ops ++ [.unref s.vref.version failedAsWell] }
  else s

/-- The reference of an id that does not fit is taken back.  If it was the last one, the slot of a
failed socket is recycled; an even version is taken for a free slot. -/
def unref (k ver1 : ℕ) (failedAsWell : Bool) : State :=
  let ver2 := s.vref.version
  if 1 < s.vref.nref then s.fetchSub.goOn k []
  else if s.vref.nref = 1 then
    if ver2 % 2 = 1 then
      if ver1 = ver2 ∨ ver1 + 1 = ver2 then s.fetchSub.goOn k [.addressCas ver2]
      else (s.fetchSub.goOn k []).check false
    else (s.fetchSub.goOn k []).check (failedAsWell || ver1 = ver2)
  else (s.fetchSub.goOn k []).check false

/-- `Dereference` up to its `fetch_sub`: what it goes on with, if it took the last reference. -/
def dereferenceOp : List Op :=
  if s.vref.nref = 1 ∧ (s.vref.version = s.thisVer ∨ s.vref.version = s.thisVer + 1) then
    [.derefCas own s.thisVer s.vref.version]
  else []

/-- The LOG(FATAL)s of `Dereference` are not reached. -/
def dereferenceOk : Bool :=
  1 < s.vref.nref || s.vref.nref = 1 && (s.vref.version = s.thisVer || s.vref.version = s.thisVer + 1)

/-- A reference handed out is given back. -/
def dereference (v : ℕ) : State :=
  if v ∈ s.refs then
    { s.fetchSub.check s.dereferenceOk with
      refs := s.refs.erase v
      ops := s.ops ++ s.dereferenceOp none }
  else s

/-- `ReleaseAdditionalReference` gives the additional reference back. -/
def derefExtra : State :=
  if s.dereferenceOp own = [] then (s.fetchSub.finish k own).check s.dereferenceOk
  else s.fetchSub.goOn k (s.dereferenceOp own)

/-- The last `compare_exchange` of `Dereference`. -/
def derefCas (idVer ver : ℕ) : State :=
  if s.vref = ⟨ver, 0⟩ then
    { s.goOn k [.recycle own] with
      vref := ⟨idVer + 2, 0⟩
      phase := .recycling }
  else s.finish k own

/-- The last `compare_exchange` of `Address`. -/
def addressCas (k ver2 : ℕ) : State :=
  if s.vref = ⟨ver2, 0⟩ then
    { s.goOn k [.recycle none] with
      vref := ⟨ver2 + 1, 0⟩
      phase := .recycling }
  else s.finish k none

/-- An operation is started with a reference. -/
def start (v : ℕ) (op : Op) : State :=
  if v ∈ s.refs then { s with refs := s.refs.erase v, ops := s.ops ++ [op] } else s

/-- The loop of `SetFailed`. -/
def setFailed (s : State) (k : ℕ) (own : Option ℕ) (idVer : ℕ) (vref : VRef) : State :=
  if vref.version ≠ idVer then s.finish k own
  else if s.vref = vref then
    { s.goOn k [.release own] with vref := ⟨idVer + 1, vref.nref⟩ }
  else s.goOn k [.setFailed own idVer s.vref]

/-- The loop of `ReleaseAdditionalReference`. -/
def release : State :=
  match s.status with
  | .refUsing => { s.goOn k [.derefExtra own] with status := .refRecycled }
  | .refReviving => s
  | .refRecycled => s.finish k own

/-- The loop of `Revive`. -/
def revive (s : State) (k own idVer : ℕ) (vref : VRef) (a : Answer) : State :=
  let s := s.check (vref.version = idVer + 1)
  if vref.nref ≤ 1 then
    { (s.finish k (some own)).check (vref.nref = 1) with status := .refRecycled }
  else if s.vref = vref ∧ a ≠ .spurious then
    { s.goOn k [.reviveUsing own] with vref := ⟨idVer, vref.nref + 1⟩ }
  else s.goOn k [.revive own idVer s.vref]

/-- `OnRecycle` runs and the slot is returned to the pool. -/
def recycle : State :=
  { s.finish k own with
    recycled := s.recycled ++ [s.thisVer]
    phase := .free }

/-- The next step of an operation. -/
def run (a : Answer) : Op → State
  | .create => s.created k a
  | .unref ver1 failedAsWell => s.unref k ver1 failedAsWell
  | .addressCas ver2 => s.addressCas k ver2
  | .setFailed own idVer vref => s.setFailed k own idVer vref
  | .release own => s.release k own
  | .derefExtra own => s.derefExtra k own
  | .derefCas own idVer ver => s.derefCas k own idVer ver
  | .reviveStore own idVer vref =>
    { s.goOn k [.revive own idVer vref] with status := .refReviving }
  | .revive own idVer vref => s.revive k own idVer vref a
  | .reviveUsing own => { s.finish k (some own) with status := .refUsing }
  | .recycle own => s.recycle k own

def step : Input → State
  | .create => s.create
  | .address id => s.address id false
  | .addressFailedAsWell id => s.address id true
  | .reAddress v =>
    if v ∈ s.refs then { s.fetchAdd with refs := s.thisVer :: s.refs } else s
  | .dereference v => s.dereference v
  | .setFailed v => s.start v (.setFailed (some v) s.thisVer s.vref)
  | .releaseAdditionalReference v => s.start v (.release (some v))
  | .revive v => s.start v (.reviveStore v s.thisVer s.vref)
  | .run k a =>
    match s.ops[k]? with
    | some op => s.run k a op
    | none => s

end State
end Brpc.SocketRef
