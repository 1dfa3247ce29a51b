/-
# The sub messages of a parallel call

`SubCall`, `ParallelChannelDone::Create`, `Destroy`, `sub_channel_controller` and the parts of
`ParallelChannel::CallMethod` that own messages (`parallel_channel.cpp`).  Sub calls move from `aps`
into slots, whose destructors delete what is flagged, only when the `ParallelChannelDone` is made:
before that, and of a skipped sub call, flagged messages are leaked (`messages_owned_iff`).
-/

import Mathlib.Algebra.Order.Ring.Int
import Mathlib.Data.List.Flatten
import Mathlib.Data.List.Perm.Basic

namespace Brpc.Parallel.Messages

open List

/-- A request or a response. -/
abbrev Message := ℕ

/-- `SubCall`, with its flags; `none` is NULL. -/
structure SubCall where
  request : Option Message
  response : Option Message
  deleteRequest : Bool
  deleteResponse : Bool
  skipSubChannel : Bool

def SubCall.isBad (sc : SubCall) : Bool := sc.request.isNone || sc.response.isNone

def SubCall.isSkip (sc : SubCall) : Bool := sc.skipSubChannel

/-- The messages flagged for deletion, which `~SubDone` deletes. -/
def SubCall.flagged (sc : SubCall) : List Message :=
  (if sc.deleteRequest then sc.request.toList else []) ++ if sc.deleteResponse then sc.response.toList else []

/-- A sub channel: what its mapper returns, or what `response->New()` returns without one. -/
inductive Mapper
  | map (sc : SubCall)
  | noMapper (newResponse : Option Message)

/-- What `CallMethod` finds. -/
structure CallEnv where
  lockFails : Bool
  failed : Bool
  request : Message
  responseNull : Bool
  chans : List Mapper
  /-- `ParallelChannelDone::Create` returned an object. -/
  create : Bool
  /-- There is a timeout and its timer cannot be added. -/
  timerFails : Bool

/-- The mapping loop: `aps` as far as it is filled, and whether the loop came to its end. -/
def mapCalls (request : Message) : List Mapper → List SubCall × Bool
  | [] => ([], true)
  | .map sc :: ms =>
    if sc.isSkip = false ∧ sc.isBad then ([sc], false)
    else ((mapCalls request ms).1.cons sc, (mapCalls request ms).2)
  | .noMapper none :: _ => ([], false)
  | .noMapper (some r) :: ms =>
    ((mapCalls request ms).1.cons ⟨some request, some r, false, true, false⟩, (mapCalls request ms).2)

/-- The loop of `Create` that fills `sub_done_map`, at `done_index = j`. -/
def subDoneMap : ℕ → List SubCall → List (Option ℕ)
  | _, [] => []
  | j, sc :: aps => if sc.isSkip then none :: subDoneMap j aps else some j :: subDoneMap (j + 1) aps

/-- The loop of `CallMethod` that starts the sub calls: which channel got the controller of
which slot. -/
def startSubs : ℕ → ℕ → List SubCall → List (ℕ × ℕ)
  | _, _, [] => []
  | i, j, sc :: aps =>
    if sc.isSkip then startSubs (i + 1) j aps else (i, j) :: startSubs (i + 1) (j + 1) aps

/-- `ParallelChannelDone`: its slots, `_nchan`, and `sub_done_map`, which is there only when
`_ndone != _nchan`. -/
structure Done where
  subDones : List SubCall
  nchan : ℕ
  map : List (Option ℕ)

/-- `ParallelChannelDone::Create` and the loop that moves `aps` into the slots. -/
def Done.create (aps : List SubCall) : Done where
  subDones := aps.filter fun sc => !sc.isSkip
  nchan := aps.length
  map := if (aps.filter fun sc => !sc.isSkip).length ≠ aps.length then subDoneMap 0 aps else []

def Done.destroy (d : Done) : List Message := d.subDones.flatMap SubCall.flagged

/-- `ParallelChannelDone::sub_channel_controller`, as the slot of the controller. -/
def Done.subChannelController (d : Done) (i : ℤ) : Option ℕ :=
  if 0 ≤ i ∧ i < d.nchan then
    if d.nchan = d.subDones.length then some i.toNat else d.map[i.toNat]?.join
  else none

/-- What `CallMethod` leaves: the sub calls it was given, `cntl->_done`, the calls started and the
messages deleted. -/
structure Result where
  aps : List SubCall
  done : Option Done
  started : List (ℕ × ℕ)
  deleted : List Message

/-- The mapping loop is reached. -/
def CallEnv.maps (env : CallEnv) : Bool :=
  !env.lockFails && !env.failed && !env.responseNull && !env.chans.isEmpty

/-- The sub calls the mappers return. -/
def CallEnv.aps (env : CallEnv) : List SubCall :=
  if env.maps then (mapCalls env.request env.chans).1 else []

/-- The `ParallelChannelDone` is made: no mapper fails, not every channel is skipped and
there is memory. -/
def CallEnv.creates (env : CallEnv) : Bool :=
  env.maps && (mapCalls env.request env.chans).2 && env.aps.any (fun sc => !sc.isSkip) && env.create

def callMethod (env : CallEnv) : Result :=
  if env.creates then
    let d := Done.create env.aps
    if env.timerFails then ⟨env.aps, none, [], d.destroy⟩
    else ⟨env.aps, some d, startSubs 0 0 env.aps, []⟩
  else ⟨env.aps, none, [], []⟩

def Result.sub (r : Result) (i : ℤ) : Option ℕ := r.done.bind fun d => d.subChannelController i

/-- The messages deleted when `Controller::Reset` has destroyed `_done`. -/
def Result.reset (r : Result) : List Message := r.deleted ++ (r.done.elim [] Done.destroy)

variable {aps : List SubCall} {i j k m : ℕ}

end Brpc.Parallel.Messages
