/-
# The client controller

`src/brpc/controller.h`, `src/brpc/controller.cpp` and `src/bthread/id.cpp`.  The attempts of an RPC
share a ranged `bthread_id`: the unversioned id `_correlation_id` is for cancellations and timers,
the version `_correlation_id + k + 1` for the `k`-th attempt.  At most two attempts are open,
`_current_call` and, after a backup request, `_unfinished_call`.

Every function runs with the id locked; the model cuts this section at its calls (`Phase`), and what
comes between two of them is one step, a function of the state and of what it asks of the
environment.  What is done to sockets, the load balancer and the user is appended to `log`.  Error
texts, spans, latencies and the back-off sleep decide nothing and are left out.
-/

import Brpc.Lib.Run

namespace Brpc

/-- `int error_code`. -/
abbrev ErrorCode := ℤ

abbrev SocketId := ℕ

/-- The error codes the modelled functions name (`errno.h`, `errno.proto`). -/
def ENOENT : ErrorCode := 2
def ENOMEM : ErrorCode := 12
def EPERM : ErrorCode := 1
def EINVAL : ErrorCode := 22
def EPIPE : ErrorCode := 32
def ENODATA : ErrorCode := 61
def ENETUNREACH : ErrorCode := 101
def ECONNRESET : ErrorCode := 104
def ETIMEDOUT : ErrorCode := 110
def ECONNREFUSED : ErrorCode := 111
def EHOSTDOWN : ErrorCode := 112
def EHOSTUNREACH : ErrorCode := 113
def ECANCELED : ErrorCode := 125
def EREQUEST : ErrorCode := 1003
def ETOOMANYFAILS : ErrorCode := 1005
def EPCHANFINISH : ErrorCode := 1006
def EBACKUPREQUEST : ErrorCode := 1007
def ERPCTIMEDOUT : ErrorCode := 1008
def EFAILEDSOCKET : ErrorCode := 1009
def EOVERCROWDED : ErrorCode := 1011
def EEOF : ErrorCode := 1014
def EH2RUNOUTSTREAMS : ErrorCode := 1017
def ERESPONSE : ErrorCode := 2002
def ELOGOFF : ErrorCode := 2003
def ELIMIT : ErrorCode := 2004

inductive ConnectionType
  | unknown
  | single
  | pooled
  | short
  deriving DecidableEq

namespace Controller

/-- What `_timeout_id` was added for. -/
inductive Timer
  | handleBackupRequest
  | handleTimeout
  deriving DecidableEq

/-- The socket an attempt is sent through.  `progressive` is
`Socket::is_read_progressive()`. -/
structure SendingSock where
  id : SocketId
  progressive : Bool
  deriving DecidableEq

/-- `Controller::Call`: an attempt that has not ended. -/
structure Call where
  nretry : ℕ
  needFeedback : Bool
  enableCircuitBreaker : Bool
  /-- `none` is `INVALID_SOCKET_ID`. -/
  peerId : Option SocketId
  sendingSock : Option SendingSock
  streamUserData : Bool
  deriving DecidableEq

def Call.reset : Call := ⟨0, false, false, none, none, false⟩

structure CompletionInfo where
  id : ℕ
  responded : Bool
  deriving DecidableEq

/-- The assertions of `OnVersionedRPCReturned`, `EndRPC`, `IssueRPC` and
`SetFailed`, named by what they say. -/
inductive Check
  /-- `CHECK_EQ(0, bthread_id_unlock(..))`. -/
  | unlocked
  /-- `CHECK(_unfinished_call == NULL)`: only one backup request now. -/
  | oneBackup
  /-- `CHECK_EQ(current_id(), info.id)` before a retry. -/
  | retriesCurrent
  /-- `CHECK(false)`: a previous non-backup request responded. -/
  | backupResponded
  /-- `CHECK_EQ(0, bthread_id_unlock_and_destroy(saved_cid))`. -/
  | destroyed
  /-- `CHECK(false)` in `SetFailed`: error_code is 0. -/
  | errorCodeNonzero
  deriving DecidableEq

/-- What the controller does to the world.  Attempts are named by `nretry`. -/
inductive Effect
  /-- A response locked version `id`. -/
  | response (id : ℕ)
  /-- `IssueRPC` was entered. -/
  | issue (nretry : ℕ) (id : ℕ)
  /-- A server was picked, `need_feedback` is what the load balancer asked. -/
  | select (nretry : ℕ) (peer : SocketId) (needFeedback : Bool)
  /-- `sending_sock` was set. -/
  | connect (nretry : ℕ) (sock : SendingSock)
  /-- The packed request was given to `Socket::Write` with this `id_wait`. -/
  | write (nretry : ℕ) (id : ℕ)
  | addTimer (t : Timer)
  | delTimer
  /-- `Call::OnComplete` was entered. -/
  | complete (nretry : ℕ) (errorCode : ErrorCode) (responded endOfRpc : Bool)
  | destroyStreamUserData (nretry : ℕ)
  | addRecentError (nretry : ℕ)
  | feedbackCircuitBreaker (nretry : ℕ) (errorCode : ErrorCode)
  | returnToPool (nretry : ℕ) (sock : SendingSock)
  | onProgressiveReadCompleted (nretry : ℕ) (sock : SendingSock)
  | setFailedSock (nretry : ℕ) (sock : SendingSock)
  /-- `Socket::SetFailed(peer_id)`, the main socket. -/
  | setFailedPeer (peer : Option SocketId)
  | setLogOff (peer : Option SocketId)
  /-- `_lb->Feedback`; `lb` is whether `_lb` is still held. -/
  | feedback (nretry : ℕ) (peer : Option SocketId) (errorCode : ErrorCode) (lb : Bool)
  | aboutToDestroy (id : ℕ)
  /-- `EndRPC` was entered. -/
  | endRPC (id : ℕ)
  | destroyStreamCreator
  | resetLb
  | runDone
  /-- The id was destroyed, which wakes up the joiners. -/
  | unlockAndDestroy
  /-- An assertion failed. -/
  | checkFailed (c : Check)
  deriving DecidableEq

/-- Where a controller stands. -/
inductive Phase
  /-- The id is not locked. -/
  | unlocked
  /-- Locked, `OnVersionedRPCReturned(info, newBthread, savedError)` is next. -/
  | returned (info : CompletionInfo) (newBthread : Bool) (savedError : ErrorCode)
  /-- Locked, `IssueRPC` is next. -/
  | issuing
  /-- Locked, `EndRPC(info)` is next. -/
  | ending (info : CompletionInfo)
  /-- The id is destroyed. -/
  | destroyed
  deriving DecidableEq

/-- What does not change during an RPC. -/
structure Config where
  singleServerId : Option SocketId
  /-- A `RetryPolicy` was set in the channel options. -/
  retryPolicy : Bool
  timeoutMs : ℤ
  /-- `_done != NULL`. -/
  done : Bool
  /-- `is_done_allowed_to_run_in_place()`. -/
  doneInPlace : Bool
  enabledCircuitBreaker : Bool
  readProgressively : Bool
  auth : Bool
  /-- `_request_stream != INVALID_STREAM_ID`. -/
  requestStream : Bool
  /-- `FLAGS_DESTROY_CID_IN_DONE`, set by the combo channels. -/
  destroyCidInDone : Bool
  usercodeInPthread : Bool
  usercodeInCoroutine : Bool

/-- A channel to one server, without a timeout. -/
def plainConfig : Config where
  singleServerId := some 7
  retryPolicy := false
  timeoutMs := -1
  done := true
  doneInPlace := true
  enabledCircuitBreaker := false
  readProgressively := false
  auth := false
  requestStream := false
  destroyCidInDone := false
  usercodeInPthread := false
  usercodeInCoroutine := false

/-- `PendingError`: an error that came while the id was locked. -/
structure PendingError where
  id : ℕ
  errorCode : ErrorCode
  deriving DecidableEq

/-- `Controller`, with the ranged id it owns. -/
structure State where
  correlationId : ℕ
  /-- The id has the versions `correlationId .. correlationId + range - 1`. -/
  range : ℕ
  maxRetry : ℕ
  connectionType : ConnectionType
  errorCode : ErrorCode
  currentCall : Call
  unfinishedCall : Option Call
  /-- `_accessed != NULL`.  Which servers it excludes is left to the load balancer. -/
  accessed : Bool
  timeoutId : Option Timer
  streamCreator : Bool
  /-- `_lb != NULL`. -/
  lb : Bool
  phase : Phase
  pendingQ : List PendingError
  log : List Effect
  deriving DecidableEq

namespace State

variable (s : State)

def getId (nretry : ℕ) : ℕ := s.correlationId + nretry + 1

def currentId : ℕ := s.correlationId + s.currentCall.nretry + 1

def failedInline : Bool := s.errorCode ≠ 0

def hasVersion (id : ℕ) : Bool :=
  s.correlationId ≤ id ∧ id < s.correlationId + s.range

/-- Append to the log. -/
def emit (es : List Effect) : State := { s with log := s.log ++ es }

/-- `Controller::SetFailed`: a zero code is an assertion failure and becomes `-1`. -/
def setFailed (errorCode : ErrorCode) : State :=
  if errorCode = 0 then { s.emit [.checkFailed .errorCodeNonzero] with errorCode := -1 }
  else { s with errorCode := errorCode }

/-- `CHECK(cond)`: a failed assertion is logged and execution goes on
(`crash_on_fatal_log` is off by default). -/
def check (c : Check) (cond : Bool) : State :=
  if cond then s else s.emit [.checkFailed c]

end State
end Controller
end Brpc

/-! ## Issuing, completing and ending an attempt -/

namespace Brpc.Controller

def doesErrorAffectMainSocket (errorCode : ErrorCode) : Bool :=
  errorCode = ECONNREFUSED ∨ errorCode = ENETUNREACH ∨ errorCode = EHOSTUNREACH ∨ errorCode = EINVAL

/-- `RpcRetryPolicy::DoRetry`, the default policy. -/
def defaultDoRetry (errorCode : ErrorCode) : Bool :=
  errorCode ∈ [EFAILEDSOCKET, EEOF, EHOSTDOWN, ELOGOFF, ETIMEDOUT, ELIMIT, ENOENT, EPIPE,
    ECONNREFUSED, ECONNRESET, ENODATA, EOVERCROWDED, EH2RUNOUTSTREAMS]

/-- The `CONNECTION_TYPE_SHORT` branch of `OnComplete`, into which the pooled
branch falls when the connection must not be reused. -/
def Call.closeSock (streamCreator : Bool) (c : Call) (errorCode : ErrorCode) : List Effect :=
  (match c.sendingSock with
    | some sock =>
      if sock.progressive then [.onProgressiveReadCompleted c.nretry sock]
      else if streamCreator then [] else [.setFailedSock c.nretry sock]
    | none => []) ++
  if doesErrorAffectMainSocket errorCode then [.setFailedPeer c.peerId] else []

/-- The switch of `OnComplete` on the connection type. -/
def Call.settleSock (connectionType : ConnectionType) (streamCreator : Bool) (c : Call)
    (errorCode : ErrorCode) (responded : Bool) : List Effect :=
  match connectionType with
  | .unknown => []
  | .single =>
    if streamCreator ∧ doesErrorAffectMainSocket errorCode ∧
        (c.sendingSock.isNone ∨ c.sendingSock.map SendingSock.id ≠ c.peerId) then
      [.setFailedPeer c.peerId]
    else []
  | .pooled =>
    match c.sendingSock with
    | some sock =>
      if errorCode = 0 ∨ responded then
        if sock.progressive then [.onProgressiveReadCompleted c.nretry sock]
        else [.returnToPool c.nretry sock]
      else c.closeSock streamCreator errorCode
    | none => c.closeSock streamCreator errorCode
  | .short => c.closeSock streamCreator errorCode

def Call.onComplete (s : State) (c : Call) (errorCode : ErrorCode) (responded endOfRpc : Bool) : List Effect :=
  [.complete c.nretry errorCode responded endOfRpc] ++
  (if c.streamUserData then [.destroyStreamUserData c.nretry] else []) ++
  (if c.sendingSock.isSome then
    (if errorCode ≠ 0 then [.addRecentError c.nretry] else []) ++
    (if c.enableCircuitBreaker then [.feedbackCircuitBreaker c.nretry errorCode] else [])
   else []) ++
  c.settleSock s.connectionType s.streamCreator errorCode responded ++
  (if errorCode = ELOGOFF then [.setLogOff c.peerId] else []) ++
  (if c.needFeedback then [.feedback c.nretry c.peerId errorCode s.lb] else [])

/-- What `OnComplete` leaves of the call: the stream data and the socket are
released, the other fields stay. -/
def Call.completed (c : Call) : Call := { c with streamUserData := false, sendingSock := none }

/-- What the moving constructor `Call(Call*)` leaves of its argument. -/
def Call.movedOut (c : Call) : Call :=
  { c with needFeedback := false, peerId := none, streamUserData := false, sendingSock := none }

/-- The answers `OnVersionedRPCReturned` gets. -/
structure ReturnEnv where
  timerAdd : ErrorCode
  /-- `ExcludedServers::Create` returned an object. -/
  newExcludedServers : Bool
  /-- `new (std::nothrow) Call` returned an object. -/
  newCall : Bool
  /-- `DoRetry` of the user's policy. -/
  doRetry : Bool

/-- The answers `IssueRPC` gets, in the order it asks. -/
structure SendEnv where
  /-- `Socket::Address` and `IsAvailable` of the single server. -/
  available : Bool
  /-- `SelectServer`: an error, or a server and `need_feedback`. -/
  selectServer : ErrorCode ⊕ (SocketId × Bool)
  /-- `OnCreatingStream`: the error it set, or the socket it left to send through. -/
  creatingStream : ErrorCode ⊕ SocketId
  /-- `GetPooledSocket` or `GetShortSocket`: an error or a socket. -/
  getSocket : ErrorCode ⊕ SocketId
  /-- The `auth_error` of `FightAuthentication` when it was lost. -/
  authError : ErrorCode
  /-- The error `_pack_request` set, 0 for none. -/
  packRequest : ErrorCode

namespace State

variable (cfg : Config) (streamLost : Bool) (s : State) (info : CompletionInfo)

/-- `Controller::HandleSocketFailed` of an RPC in use. -/
def handleSocketFailed (id : ℕ) (errorCode : ErrorCode) : State :=
  { s.setFailed errorCode with phase := .returned ⟨id, false⟩ true s.errorCode }

/-- `bthread_id_unlock`, with its return value.  A pending error keeps the id
locked and is handled at once. -/
def unlock (id : ℕ) : State × ErrorCode :=
  if ¬s.hasVersion id then (s, EINVAL)
  else if s.phase = .unlocked ∨ s.phase = .destroyed then (s, EPERM)
  else match s.pendingQ with
    | [] => ({ s with phase := .unlocked }, 0)
    | e :: q => ({ s with pendingQ := q }.handleSocketFailed e.id e.errorCode, 0)

/-- `CHECK_EQ(0, bthread_id_unlock(id))`. -/
def checkedUnlock (id : ℕ) : State :=
  (s.unlock id).1.check .unlocked ((s.unlock id).2 = 0)

def handleSendFailed : State :=
  let s := if s.failedInline then s else { s with errorCode := -1 }
  { s with phase := .returned ⟨s.currentId, false⟩ (cfg.done && !cfg.doneInPlace) s.errorCode }

/-- The label `END_OF_RPC`: `EndRPC` runs here or in a new bthread, with the id
still locked. -/
def endOfRPC (newBthread : Bool) : State :=
  let stopLocking :=
    if newBthread && !cfg.usercodeInCoroutine then cfg.usercodeInPthread || cfg.done
    else cfg.done
  { s.emit (if stopLocking && !cfg.destroyCidInDone then [.aboutToDestroy info.id] else []) with
    phase := .ending info }

/-- `_unfinished_call && get_id(_unfinished_call->nretry) == info.id`. -/
def ofUnfinished : Bool :=
  match s.unfinishedCall with
  | some u => s.getId u.nretry = info.id
  | none => false

/-- `info.id != _correlation_id && info.id != current_id()`. -/
def ofPrevious : Bool :=
  info.id ≠ s.correlationId ∧ info.id ≠ s.currentId

/-- The body of the loop that intercepts previous calls, when it does not break. -/
def interceptPrevious (savedError : ErrorCode) : State :=
  let s := match s.unfinishedCall with
    | some u =>
      if s.getId u.nretry = info.id then
        { s.emit (u.onComplete s s.errorCode info.responded false) with unfinishedCall := none }
      else s
    | none => s
  { s with errorCode := savedError }.checkedUnlock info.id

/-- Create `_accessed` on demand, for the servers not to try again; `none` when
the creation fails. -/
def access (env : ReturnEnv) (s : State) : Option State :=
  if cfg.singleServerId.isSome ∨ s.accessed then some s
  else if env.newExcludedServers then some { s with accessed := true }
  else none

/-- The `EBACKUPREQUEST` branch: the current call stays open as
`_unfinished_call` and a new one is issued. -/
def sendBackup (env : ReturnEnv) (s : State) (info : CompletionInfo) (newBthread : Bool) : State :=
  if 0 ≤ cfg.timeoutMs ∧ env.timerAdd ≠ 0 then
    (s.setFailed env.timerAdd).endOfRPC cfg info newBthread
  else
    let s := if 0 ≤ cfg.timeoutMs then
        { s.emit [.addTimer .handleTimeout] with timeoutId := some .handleTimeout }
      else s
    match s.access cfg env with
    | none => (s.setFailed ENOMEM).endOfRPC cfg info newBthread
    | some s =>
      let s := s.check .oneBackup s.unfinishedCall.isNone
      if env.newCall then
        { s with
          unfinishedCall := some s.currentCall
          currentCall := { s.currentCall.movedOut with nretry := s.currentCall.nretry + 1 }
          phase := .issuing }
      else
        ({ s with unfinishedCall := none }.setFailed ENOMEM).endOfRPC cfg info newBthread

/-- The branch taken when the retry policy asks for a retry. -/
def retry (env : ReturnEnv) (s : State) (info : CompletionInfo) (newBthread : Bool) : State :=
  let s := s.check .retriesCurrent (s.currentId = info.id)
  match s.access cfg env with
  | none => (s.setFailed ENOMEM).endOfRPC cfg info newBthread
  | some s =>
    { s.emit (s.currentCall.onComplete s s.errorCode info.responded false) with
      currentCall := { s.currentCall.completed with nretry := s.currentCall.nretry + 1 }
      phase := .issuing }

/-- The answer of `retry_policy->DoRetry(this)`. -/
def doRetry (cfg : Config) (env : ReturnEnv) (s : State) : Bool :=
  if cfg.retryPolicy then env.doRetry else defaultDoRetry s.errorCode

def onVersionedRPCReturned (env : ReturnEnv) (s : State) (info : CompletionInfo)
    (newBthread : Bool) (savedError : ErrorCode) : State :=
  if s.ofPrevious info ∧ ¬(s.ofUnfinished info ∧ ¬s.failedInline) then
    s.interceptPrevious info savedError
  else if (¬s.failedInline ∧ ¬cfg.retryPolicy) ∨ s.maxRetry ≤ s.currentCall.nretry then
    s.endOfRPC cfg info newBthread
  else if s.errorCode = EBACKUPREQUEST then s.sendBackup cfg env info newBthread
  else if s.doRetry cfg env then s.retry cfg env info newBthread
  else s.endOfRPC cfg info newBthread

/-- The part of `IssueRPC` that picks a server: an error, or the server and
whether the load balancer needs feedback. -/
def pickServer (env : SendEnv) : ErrorCode ⊕ (SocketId × Bool) :=
  match cfg.singleServerId with
  | some id => if env.available then .inr (id, false) else .inl EHOSTDOWN
  | none => env.selectServer

/-- The part of `IssueRPC` that gets the sending socket: an error or the socket. -/
def pickSock (env : SendEnv) (s : State) (peer : SocketId) : ErrorCode ⊕ SocketId :=
  if s.streamCreator then env.creatingStream
  else if s.connectionType = .single then .inr peer
  else if s.connectionType = .unknown then .inl EINVAL
  else env.getSocket

/-- `Controller::IssueRPC` with `_sender == NULL`. -/
def issueRPC (env : SendEnv) (s : State) : State :=
  let n := s.currentCall.nretry
  let s : State := { s.emit [.issue n s.currentId] with
    errorCode := 0
    currentCall := { s.currentCall with
      needFeedback := false, enableCircuitBreaker := cfg.enabledCircuitBreaker } }
  match pickServer cfg env with
  | .inl ec => (s.setFailed ec).handleSendFailed cfg
  | .inr (peer, needFeedback) =>
    let s : State := { s.emit [.select n peer needFeedback] with
      currentCall := { s.currentCall with
        needFeedback := needFeedback, peerId := some peer, streamUserData := s.streamCreator } }
    match s.pickSock env peer with
    | .inl ec => (s.setFailed ec).handleSendFailed cfg
    | .inr sock =>
      let sending : SendingSock := ⟨sock, cfg.readProgressively && s.connectionType ≠ .unknown⟩
      let s : State := { s.emit [.connect n sending] with
        currentCall := { s.currentCall with sendingSock := some sending } }
      if cfg.auth ∧ env.authError ≠ 0 then (s.setFailed env.authError).handleSendFailed cfg
      else if env.packRequest ≠ 0 then (s.setFailed env.packRequest).handleSendFailed cfg
      else (s.emit [.write n s.currentId]).checkedUnlock s.currentId

/-- `Controller::HandleStreamConnection`: a successful call whose request stream
is gone or was not accepted becomes a failed one. -/
def handleStreamConnection : State :=
  if cfg.requestStream ∧ ¬s.failedInline ∧ streamLost then s.setFailed EREQUEST else s

/-- `EndRPC` of the current call: the unfinished one ends with it. -/
def endCurrent : State :=
  let s := match s.unfinishedCall with
    | some u =>
      let err := if s.errorCode = 0 then EBACKUPREQUEST else s.errorCode
      { s.emit (u.onComplete s err false false) with unfinishedCall := none }
    | none => s
  let s := s.handleStreamConnection cfg streamLost
  { s.emit (s.currentCall.onComplete s s.errorCode info.responded true) with
    currentCall := s.currentCall.completed }

/-- `EndRPC` of the unfinished call, which responded before the current one. -/
def endUnfinished : State :=
  let s := s.check .backupResponded s.unfinishedCall.isSome
  let s : State := { s.emit (s.currentCall.onComplete s ECANCELED false false) with
    currentCall := s.currentCall.completed }
  match s.unfinishedCall with
  | none => s
  | some u =>
    let s := s.handleStreamConnection cfg streamLost
    let s := if s.getId u.nretry = info.id then
        s.emit (u.onComplete s s.errorCode info.responded true)
      else s.emit (.checkFailed .backupResponded :: u.onComplete s ECANCELED false true)
    { s with unfinishedCall := none }

/-- `EndRPC` before the attempts: the timer is deleted. -/
def delTimer (s : State) : State :=
  if s.timeoutId.isSome then { s.emit [.delTimer] with timeoutId := none } else s

/-- `EndRPC` after the attempts: the stream creator and the load balancer are released. -/
def releaseLb : State :=
  let s := if s.streamCreator then { s.emit [.destroyStreamCreator] with streamCreator := false } else s
  { s.emit [.resetLb] with lb := false }

/-- `EndRPC` up to the release of the load balancer. -/
def endCalls : State :=
  let s := (s.emit [.endRPC info.id]).delTimer
  let s := if info.id = s.currentId ∨ info.id = s.correlationId then
      s.endCurrent cfg streamLost info
    else s.endUnfinished cfg streamLost info
  s.releaseLb

/-- `CHECK_EQ(0, bthread_id_unlock_and_destroy(_correlation_id))`. -/
def unlockAndDestroy (s : State) : State :=
  let s := s.check .destroyed (s.hasVersion s.correlationId)
  { s.emit [.unlockAndDestroy] with phase := .destroyed, pendingQ := [] }

/-- `Controller::EndRPC` of an RPC that destroys its id itself. -/
def endRPC : State :=
  let s := s.endCalls cfg streamLost info
  (if cfg.done then s.emit [.runDone] else s).unlockAndDestroy

end State

/-! ## One RPC over a plain channel

`callMethod` is the state in which `Channel::CallMethod` in `src/brpc/channel.cpp` leaves the
controller, still holding the id.  From there on a run is a list of `Input`s: responses and errors
for any version of the id, and the answers of the environment.  An error that finds the id locked
waits in `pendingQ`; a response that finds it locked comes later.
-/

def maxRetryCount : ℤ := 1000

def unsetMagicNum : ℤ := -123456789

def setMaxRetry (n : ℤ) : ℤ := if maxRetryCount < n then maxRetryCount else n

/-- The `max_retry` of an RPC: the controller's, or else the channel's, and never negative. -/
def effectiveMaxRetry (cntl channel : ℤ) : ℕ :=
  (if cntl = unsetMagicNum then setMaxRetry channel else cntl).toNat

/-- What `CallMethod` finds. -/
structure CallEnv where
  correlationId : ℕ
  cntlMaxRetry : ℤ
  /-- `_options.max_retry`. -/
  channelMaxRetry : ℤ
  backupRequestMs : ℤ
  connectionType : ConnectionType
  streamCreator : Bool
  /-- The error a cancellation before `CallMethod` or `_serialize_request` set. -/
  errorCode : ErrorCode
  tooManyUserCode : Bool
  timerAdd : ErrorCode

variable (cfg : Config) (env : CallEnv)

/-- Add the timer of `CallMethod` and go on to `IssueRPC`. -/
def State.addTimer (s : State) (t : Timer) : State :=
  if env.timerAdd ≠ 0 then (s.setFailed env.timerAdd).handleSendFailed cfg
  else { s.emit [.addTimer t] with timeoutId := some t, phase := .issuing }

/-- The controller when `CallMethod` has locked the call id and set the options. -/
def CallEnv.start : State where
  correlationId := env.correlationId
  range := 2 + effectiveMaxRetry env.cntlMaxRetry env.channelMaxRetry
  maxRetry := effectiveMaxRetry env.cntlMaxRetry env.channelMaxRetry
  connectionType := env.connectionType
  errorCode := env.errorCode
  currentCall := .reset
  unfinishedCall := none
  accessed := false
  timeoutId := none
  streamCreator := env.streamCreator
  lb := cfg.singleServerId.isNone
  phase := .issuing
  pendingQ := []
  log := []

/-- `backup_request_ms`, which a request with a stream does not use. -/
def CallEnv.backupMs : ℤ :=
  if cfg.requestStream then -1 else env.backupRequestMs

/-- `Channel::CallMethod` from the locking of the call id to `IssueRPC`. -/
def callMethod : State :=
  let s := env.start cfg
  if s.failedInline then s.handleSendFailed cfg
  else if cfg.usercodeInPthread ∧ cfg.done ∧ env.tooManyUserCode then
    (s.setFailed ELIMIT).handleSendFailed cfg
  else
    let s := if cfg.requestStream then { s with maxRetry := 0 } else s
    if 0 ≤ env.backupMs cfg ∧ (env.backupMs cfg < cfg.timeoutMs ∨ cfg.timeoutMs < 0) then
      s.addTimer cfg env .handleBackupRequest
    else if 0 ≤ cfg.timeoutMs then s.addTimer cfg env .handleTimeout
    else s

/-- What may happen next. -/
inductive Input
  /-- A response for version `id`, whose processing set `errorCode` (0 for none). -/
  | response (id : ℕ) (errorCode : ErrorCode)
  /-- `bthread_id_error(id, errorCode)`: a socket failure, a timer, a cancellation. -/
  | error (id : ℕ) (errorCode : ErrorCode)
  | onVersionedRPCReturned (env : ReturnEnv)
  | issueRPC (env : SendEnv)
  | endRPC (streamLost : Bool)

/-- `ProcessRpcResponse` up to `OnResponse`, with the id locked. -/
def State.onResponse (s : State) (id : ℕ) (errorCode : ErrorCode) : State :=
  { (if errorCode ≠ 0 then s.setFailed errorCode else s).emit [.response id] with
    phase := .returned ⟨id, true⟩ false s.errorCode }

/-- `bthread_id_error2` on an id that is not destroyed. -/
def State.idError (s : State) (id : ℕ) (errorCode : ErrorCode) : State :=
  if s.phase = .unlocked then s.handleSocketFailed id errorCode
  else { s with pendingQ := s.pendingQ ++ [⟨id, errorCode⟩] }

/-- One step of an RPC over a plain channel. -/
def State.step (cfg : Config) (s : State) : Input → State
  | .response id ec => if s.phase = .unlocked ∧ s.hasVersion id then s.onResponse id ec else s
  | .error id ec => if s.phase ≠ .destroyed ∧ s.hasVersion id then s.idError id ec else s
  | .onVersionedRPCReturned env =>
    match s.phase with
    | .returned info newBthread saved => s.onVersionedRPCReturned cfg env info newBthread saved
    | _ => s
  | .issueRPC env => if s.phase = .issuing then s.issueRPC cfg env else s
  | .endRPC streamLost =>
    match s.phase with
    | .ending info => s.endRPC cfg streamLost info
    | _ => s

end Brpc.Controller
