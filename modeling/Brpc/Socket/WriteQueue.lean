/-
# The write queue of a socket

`Socket::Write`, `StartWrite`, `KeepWrite`, `DoWrite`, `IsWriteComplete` and
`ReleaseAllFailedWriteRequests` of `brpc/socket.cpp`.  A call of `Write` swaps its request into
`_write_head`; the one that finds NULL owns the right to write, the others hang their request under
the one they found.  The owner writes its list, then turns the stack of newer requests around and
appends it, or swaps NULL back.

A thread is named by its request.  Each exchange, compare-exchange, store to a `next` and call of
the connection is a step (`State.step`), and what the system answers is part of the input.
-/

import Brpc.Lib.Run
import Brpc.Messenger.Frame

namespace Brpc.Socket

open Function
open Messenger (Bytes)

/-- A `WriteRequest` object, and the thread whose `Write` made it. -/
abbrev Id := ℕ

/-- What a call of `Write` asks for: the data and whether to shut the connection down for writing
after it.  A `SocketMessage` is the data of `AppendAndDestroySelf`. -/
structure Call where
  data : Bytes
  shutdownWrite : Bool
  isMessage : Bool

inductive Next
  | unconnected
  | null
  | ptr (r : Id)
  deriving DecidableEq

/-- The next pointer made of a `WriteRequest*` that may be NULL. -/
def Next.ofOption : Option Id → Next
  | none => .null
  | some r => .ptr r

/-- Who called `IsWriteComplete`: `StartWrite`, `KeepWrite` or
`ReleaseAllFailedWriteRequests`. -/
inductive Caller
  | start
  | keep
  | fail
  deriving DecidableEq

/-- Where the owner of the right to write stands.  `tail` is `cur_tail` of `KeepWrite`. -/
inductive Phase
  /-- `req->next = NULL` is next. -/
  | setNull
  /-- The test of `_is_write_shutdown` and `ConnectIfNot` are next. -/
  | begin
  /-- `KeepWriteIfConnected` will be called. -/
  | connecting
  | write
  /-- The top of the loop of `KeepWrite`. -/
  | top (tail : Option Id)
  | doWrite (tail : Option Id)
  /-- The loop that returns the requests written; `waits` says that `nw <= 0`. -/
  | release (tail : Option Id) (waits : Bool)
  | waitEpollOut (tail : Option Id)
  /-- The loop that looks for `cur_tail`. -/
  | findTail (cur : Id)
  /-- The compare-exchange of `IsWriteComplete(old_head, ...)`. -/
  | isComplete (caller : Caller) (oldHead : Id)
  /-- The loop that turns the newer requests around, at `p` with `tail = rev`. -/
  | reverse (caller : Caller) (oldHead newHead p : Id) (rev : Option Id)
  /-- `old_head->next = tail`, with `tail = rev`. -/
  | linkOld (caller : Caller) (oldHead newHead rev : Id)
  /-- `ReleaseAllFailedWriteRequests`. -/
  | fail
  deriving DecidableEq

/-- Where a thread stands. -/
inductive Pc
  | idle
  /-- The checks of `Write` are passed, the exchange is next. -/
  | entered
  /-- `req->next = prev_head` is next. -/
  | link (prev : Id)
  /-- The thread owns the right to write, `req` is the first request of its list. -/
  | own (req : Id) (at_ : Phase)
  /-- The right is given up, `req` is still to be returned, as successful or not. -/
  | leave (req : Id) (ok : Bool)
  | done
  /-- The thread has followed NULL or UNCONNECTED, or a CHECK on them failed. -/
  | broken
  deriving DecidableEq

/-- The socket, its requests and its threads, with the bytes put on the connection, the requests
in the order of their exchanges, and those returned with how they ended. -/
structure State where
  /-- `_write_head` -/
  head : Option Id
  next : Id → Next
  /-- What is left of the data of each request. -/
  data : Id → Bytes
  pc : Id → Pc
  isWriteShutdown : Bool
  failed : Bool
  out : Bytes
  order : List Id
  finished : List (Id × Bool)

/-- The socket before the first `Write`.  A request is filled before any other thread can see it.
-/
def State.init (call : Id → Call) : State where
  head := none
  next := fun _ => .unconnected
  data := fun r => (call r).data
  pc := fun _ => .idle
  isWriteShutdown := false
  failed := false
  out := []
  order := []
  finished := []

/-- How `ConnectIfNot` returns, -1, 1 or 0.  A connect that was left pending ends with
`failed` or with anything else. -/
inductive Connect
  | failed
  | pending
  | connected
  deriving DecidableEq

/-- How a write returns: without an error, with EAGAIN or EOVERCROWDED, or with
another error. -/
inductive Result
  | ok
  | again
  | fatal
  deriving DecidableEq

/-- What the system answers in one step.  A write that fails may have taken bytes all the same. -/
structure Answer where
  connect : Connect
  /-- `write_in_background` or a TLS connection. -/
  background : Bool
  bytes : ℕ
  result : Result
  /-- `WaitEpollOut` fails with an error other than ETIMEDOUT. -/
  waitFails : Bool

inductive Input
  | write (r : Id)
  /-- The next step of a thread. -/
  | run (t : Id) (a : Answer)
  /-- `SetFailed` is called from elsewhere. -/
  | setFailed

def dataListMax : ℕ := 256

namespace State

variable (call : Id → Call)

variable (s : State) (r : Id)

def goto (t : Id) (pc : Pc) : State := { s with pc := update s.pc t pc }

/-- A request is returned, as successful or as failed. -/
def finish (ok : Bool) : State :=
  { s with finished := s.finished ++ [(r, ok)] }

/-- `r->data.clear()` -/
def clear : State := { s with data := update s.data r [] }

/-- The store `r->next = n`. -/
def setNext (n : Next) : State :=
  { s with next := update s.next r n }

/-- What is left of the data of `ids`, in their order. -/
def left (data : Id → Bytes) (ids : List Id) : Bytes := (ids.map data).flatten

/-- `n` bytes are cut off the front of the data of `ids`. -/
def cut (data : Id → Bytes) : ℕ → List Id → Id → Bytes
  | _, [] => data
  | n, r :: ids => cut (update data r ((data r).drop n)) (n - (data r).length) ids

/-- The connection takes the first `n` bytes of the data of `ids`. -/
def put (n : ℕ) (ids : List Id) : State :=
  { s with out := s.out ++ (left s.data ids).take n, data := cut s.data n ids }

/-- The requests `DoWrite` writes together: those of the list from `r` on, at most
`n`, none after one that shuts the connection down. -/
def batch (next : Id → Next) : ℕ → Id → List Id
  | 0, _ => []
  | n + 1, r => r :: if (call r).shutdownWrite then [] else
      match next r with
      | .ptr q => batch next n q
      | _ => []

/-- The checks of `Write`: data must not be empty, and the socket not have failed. -/
def write : State :=
  if s.pc r = .idle ∧ s.failed = false ∧ ((call r).isMessage = true ∨ (call r).data ≠ []) then
    s.goto r .entered
  else s

/-- The exchange of `StartWrite`. -/
def exchange : State :=
  let swapped := { s with head := some r, order := s.order ++ [r] }
  match s.head with
  | some prev => swapped.goto r (.link prev)
  | none => swapped.goto r (.own r .setNull)

/-- `StartWrite` with the right to write: fail when the connection is shut down, connect if
needed, then write here or in the background. -/
def beginWrite (t req : Id) (a : Answer) : State :=
  if s.isWriteShutdown then s.goto t (.own req .fail)
  else
    let s := { s with isWriteShutdown := (call req).shutdownWrite }
    match a.connect with
    | .failed => { s with failed := true }.goto t (.own req .fail)
    | .pending => s.goto t (.own req .connecting)
    | .connected => s.goto t (.own req (if a.background then .top none else .write))

/-- `AfterAppConnected` -/
def afterConnect (t req : Id) (a : Answer) : State :=
  if a.connect = .failed then { s with failed := true }.goto t (.own req .fail)
  else s.goto t (.own req (.top none))

/-- The write of `StartWrite` in the calling thread. -/
def directWrite (t req : Id) (a : Answer) : State :=
  let s := s.put a.bytes [req]
  if a.result = .fatal then { s with failed := true }.goto t (.own req .fail)
  else s.goto t (.own req (.isComplete .start req))

/-- The top of the loop of `KeepWrite`: a request written is returned, unless it is
the last one. -/
def loopTop (t req : Id) (tail : Option Id) : State :=
  match s.next req with
  | .ptr q =>
    if s.data req = [] then
      (s.finish req true).goto t (.own q (if (call req).shutdownWrite then .fail else .doWrite tail))
    else s.goto t (.own req (.doWrite tail))
  | .null => s.goto t (.own req (.doWrite tail))
  | .unconnected => s.goto t .broken

/-- `DoWrite`, and what `KeepWrite` makes of its result. -/
def doWrite (t req : Id) (tail : Option Id) (a : Answer) : State :=
  let ids := batch call s.next dataListMax req
  let s := { s.put a.bytes ids with
    isWriteShutdown := s.isWriteShutdown || ids.any fun r => (call r).shutdownWrite }
  if a.result = .fatal then { s with failed := true }.goto t (.own req .fail)
  else s.goto t (.own req (.release tail (a.result == .again || a.bytes == 0)))

/-- `KeepWrite` is about to call `IsWriteComplete`, for which it may have to look for
the tail of its list. -/
def checkPhase (req : Id) : Option Id → Phase
  | none => .findTail req
  | some z => .isComplete .keep z

/-- One turn of the loop that returns the requests written. -/
def releaseOne (t req : Id) (tail : Option Id) (waits : Bool) : State :=
  let onward := s.goto t (.own req (if waits then .waitEpollOut tail else checkPhase req tail))
  match s.next req with
  | .ptr q =>
    if s.data req = [] then
      (s.finish req true).goto t (.own q (if (call req).shutdownWrite then .fail else .release tail waits))
    else onward
  | .null => onward
  | .unconnected => s.goto t .broken

def waitEpollOut (t req : Id) (tail : Option Id) (a : Answer) : State :=
  if a.waitFails then { s with failed := true }.goto t (.own req .fail)
  else s.goto t (.own req (checkPhase req tail))

/-- One turn of the loop that looks for `cur_tail`. -/
def findTail (s : State) (t req cur : Id) : State :=
  match s.next cur with
  | .ptr q => s.goto t (.own req (.findTail q))
  | .null => s.goto t (.own req (.isComplete .keep cur))
  | .unconnected => s.goto t .broken

/-- Where a caller of `IsWriteComplete` goes on when it returned false with the tail
`z`: `StartWrite` starts `KeepWrite`. -/
def resume (z : Id) : Caller → Phase
  | .start => .top none
  | .keep => .top (some z)
  | .fail => .fail

/-- The compare-exchange of `IsWriteComplete`. -/
def isWriteComplete (t req : Id) (caller : Caller) (oldHead : Id) : State :=
  if s.next oldHead ≠ .null then s.goto t .broken
  else if s.head = some oldHead then
    if s.data oldHead = [] ∧ (caller ≠ .keep ∨ req = oldHead) then
      { s with head := none }.goto t (.leave req (caller != Caller.fail))
    else s.goto t (.own req (resume oldHead caller))
  else
    match s.head with
    | some newHead => s.goto t (.own req (.reverse caller oldHead newHead newHead none))
    | none => s.goto t .broken

/-- One turn of the loop that turns the newer requests around.  It spins while `p` is not hung
under the request its thread found. -/
def reverseOne (t req : Id) (caller : Caller) (oldHead newHead p : Id) (rev : Option Id) : State :=
  match s.next p with
  | .unconnected => s
  | .null => s.goto t .broken
  | .ptr q => (s.setNext p (.ofOption rev)).goto t (.own req
      (if q = oldHead then .linkOld caller oldHead newHead p else .reverse caller oldHead newHead q (some p)))

/-- One turn of `ReleaseWriteRequestsExceptLast`, or the last request is cleared. -/
def failOne (t req : Id) : State :=
  match s.next req with
  | .ptr q => ((s.clear req).finish req false).goto t (.own q .fail)
  | .null => (s.clear req).goto t (.own req (.isComplete .fail req))
  | .unconnected => s.goto t .broken

/-- The next step of the owner. -/
def own (s : State) (t req : Id) (a : Answer) : Phase → State
  | .setNull => (s.setNext req .null).goto t (.own req .begin)
  | .begin => s.beginWrite call t req a
  | .connecting => s.afterConnect t req a
  | .write => s.directWrite t req a
  | .top tail => s.loopTop call t req tail
  | .doWrite tail => s.doWrite call t req tail a
  | .release tail waits => s.releaseOne call t req tail waits
  | .waitEpollOut tail => s.waitEpollOut t req tail a
  | .findTail cur => s.findTail t req cur
  | .isComplete caller oldHead => s.isWriteComplete t req caller oldHead
  | .reverse caller oldHead newHead p rev => s.reverseOne t req caller oldHead newHead p rev
  | .linkOld caller oldHead newHead rev =>
    (s.setNext oldHead (.ptr rev)).goto t (.own req (resume newHead caller))
  | .fail => s.failOne t req

/-- The next step of a thread. -/
def thread (t : Id) (a : Answer) : State :=
  match s.pc t with
  | .entered => s.exchange t
  | .link prev => (s.setNext t (.ptr prev)).goto t .done
  | .own req ph => s.own call t req a ph
  | .leave req ok => (s.finish req ok).goto t .done
  | .idle | .done | .broken => s

def step : Input → State
  | .write r => s.write call r
  | .run t a => s.thread call t a
  | .setFailed => { s with failed := true }

end State
end Brpc.Socket
