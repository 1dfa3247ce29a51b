/-
# The state of an HTTP/2 connection

`H2Context` and `H2StreamContext` in `brpc/policy/http2_rpc_protocol.cpp`: settings, the coder of
headers, the pending streams, the windows for sending (`_remote_window_left`) and what was received
but not yet given back (`_deferred_window_update`).  `_pending_streams` is a list in the order of
its iterator; frames written are collected in `sent`; whether `WriteAck` succeeds, and whether the
body parser takes the data, are answers of the environment (`Env`).

`H2Settings` of `brpc/http2.h` have the default values of the protocol but for `enable_push` and
`stream_window_size`; `SerializeH2Settings` leaves out what has those values.
-/

import Brpc.Http2.Pack
import Brpc.Http2.HeaderBlock

namespace Brpc.Http2

open Hpack (Bytes)

/-- `H2Settings` as it is constructed. -/
structure Settings where
  headerTableSize : ℕ := 4096
  enablePush : Bool := false
  maxConcurrentStreams : ℕ := 4294967295
  streamWindowSize : ℕ := 262144
  connectionWindowSize : ℕ := 1048576
  maxFrameSize : ℕ := 16384
  maxHeaderListSize : ℕ := 4294967295

namespace Settings

def defaultHeaderTableSize : ℕ := 4096

def defaultEnablePush : Bool := true

def defaultInitialWindowSize : ℕ := 65535

def maxWindowSize : ℕ := 2147483647

def defaultMaxFrameSize : ℕ := 16384

def maxOfMaxFrameSize : ℕ := 16777215

/-- `std::numeric_limits<uint32_t>::max()` -/
def unlimited : ℕ := 4294967295

/-- `IsValid`, and the fields are 32-bit numbers. -/
structure IsValid (s : Settings) : Prop where
  streamWindowSize : s.streamWindowSize ≤ maxWindowSize
  connectionWindowSize : defaultInitialWindowSize ≤ s.connectionWindowSize ∧ s.connectionWindowSize ≤ maxWindowSize
  maxFrameSize : defaultMaxFrameSize ≤ s.maxFrameSize ∧ s.maxFrameSize ≤ maxOfMaxFrameSize
  headerTableSize : s.headerTableSize ≤ unlimited
  maxConcurrentStreams : s.maxConcurrentStreams ≤ unlimited
  maxHeaderListSize : s.maxHeaderListSize ≤ unlimited

/-! ### Parsing -/

/-- One pair of a SETTINGS frame; `none` if the value is not allowed. -/
def setPair (s : Settings) (id value : ℕ) : Option Settings :=
  match id with
  | 1 => some { s with headerTableSize := value }
  | 2 => if 1 < value then none else some { s with enablePush := value = 1 }
  | 3 => some { s with maxConcurrentStreams := value }
  | 4 => if maxWindowSize < value then none else some { s with streamWindowSize := value }
  | 5 =>
    if maxOfMaxFrameSize < value ∨ value < defaultMaxFrameSize then none else some { s with maxFrameSize := value }
  | 6 => some { s with maxHeaderListSize := value }
  | _ => some s

/-- What `ParseH2Settings` returns, the settings as far as they were set, and the bytes left. -/
structure Parsed where
  ok : Bool
  settings : Settings
  rest : Bytes

/-- The loop of `ParseH2Settings` over the pairs. -/
def parsePairs : ℕ → Settings → Bytes → Option Parsed
  | 0, s, bs => some { ok := true, settings := s, rest := bs }
  | npairs + 1, s, bs =>
    (loadUint16 bs).bind fun id =>
    (loadUint32 id.2).bind fun value =>
      match s.setPair id.1 value.1 with
      | none => some { ok := false, settings := s, rest := value.2 }
      | some s => parsePairs npairs s value.2

/-- `ParseH2Settings` of `n` bytes. -/
def parse (s : Settings) (bs : Bytes) (n : ℕ) : Option Parsed :=
  if n / 6 * 6 ≠ n then some { ok := false, settings := s, rest := bs } else parsePairs (n / 6) s bs

/-! ### Serializing -/

/-- A pair that is written if its value is not the default. -/
def savePair (changed : Bool) (id value : ℕ) : Bytes := if changed then saveUint16 id ++ saveUint32 value else []

/-- `SerializeH2Settings` -/
def serialize (s : Settings) : Bytes :=
  savePair (s.headerTableSize ≠ defaultHeaderTableSize) 1 s.headerTableSize ++
    savePair (s.enablePush ≠ defaultEnablePush) 2 s.enablePush.toNat ++
    savePair (s.maxConcurrentStreams ≠ unlimited) 3 s.maxConcurrentStreams ++
    savePair (s.streamWindowSize ≠ defaultInitialWindowSize) 4 s.streamWindowSize ++
    savePair (s.maxFrameSize ≠ defaultMaxFrameSize) 5 s.maxFrameSize ++
    savePair (s.maxHeaderListSize ≠ unlimited) 6 s.maxHeaderListSize

end Settings

/-! ## The connection -/

open Hpack (Bytes HPacker Header)

/-- `H2Error`, as far as it is used. -/
inductive H2Error where
  | protocolError
  | internalError
  | flowControlError
  | streamClosedError
  | frameSizeError
  | refusedStream
deriving DecidableEq

/-- A frame that was written. -/
inductive Sent where
  | windowUpdate (streamId increment : ℕ)
  | rstStream (streamId : ℕ) (error : H2Error)
  | goaway (lastStreamId : ℤ) (error : H2Error)
  | settings (settings : Settings)
  | settingsAck
  | pingAck (data : Bytes)

/-- `H2StreamContext` -/
structure Stream where
  header : HeaderState := {}
  remoteWindowLeft : ℤ := 0
  deferredWindowUpdate : ℤ := 0

/-- `H2ConnectionState` -/
inductive ConnectionState where
  | uninitialized
  | ready
  | goaway
deriving DecidableEq

/-- What the handlers ask for. -/
structure Env where
  checks : Checks
  /-- whether the `n`-th `WriteAck` succeeds -/
  write : ℕ → Bool
  /-- whether `OnBody` takes the data -/
  onBody : Bool

/-- An environment in which every check and every write succeeds. -/
def Env.agreeable : Env := ⟨.lax, fun _ => true, true⟩

/-- `H2Context` -/
structure Context where
  isServer : Bool
  connState : ConnectionState := .uninitialized
  remoteWindowLeft : ℤ := 2147483647
  lastReceivedStreamId : ℤ := -1
  lastSentStreamId : ℕ := 1
  goawayStreamId : ℤ := -1
  remoteSettings : Settings := { connectionWindowSize := 0, streamWindowSize := 2147483647 }
  remoteSettingsReceived : Bool := false
  localSettings : Settings := {}
  unackLocalSettings : Settings
  hpacker : HPacker
  pendingStreams : List (ℕ × Stream) := []
  abandonedStreams : List ℕ := []
  deferredWindowUpdate : ℤ := 0
  /-- frames written, the newest last -/
  sent : List Sent := []
  /-- how often `WriteAck` was called -/
  writes : ℕ := 0

namespace Context

/-- The constructor and `Init`. -/
def init (isServer : Bool) (settings : Settings) : Option Context :=
  (HPacker.init settings.headerTableSize).map fun hpacker =>
    { isServer := isServer, unackLocalSettings := settings, hpacker := hpacker }

theorem init_isSome : (init false {}).isSome = true := by decide +kernel

variable (env : Env) (ctx : Context) (streamId : ℕ) (v : ℤ)

def writeAck (frames : List Sent) : Bool × Context :=
  if env.write ctx.writes then (true, { ctx with sent := ctx.sent ++ frames, writes := ctx.writes + 1 })
  else (false, { ctx with writes := ctx.writes + 1 })

/-! ### Streams -/

def findStream : Option Stream := ctx.pendingStreams.lookup streamId

/-- A stream that changed. -/
def setStream (s : Stream) : Context :=
  { ctx with pendingStreams := ctx.pendingStreams.map fun x => if x.1 = streamId then (x.1, s) else x }

def eraseStream : Context :=
  { ctx with pendingStreams := ctx.pendingStreams.filter fun x => x.1 ≠ streamId }

/-- `H2StreamContext::Init` -/
def initStream : Stream := { remoteWindowLeft := ctx.remoteSettings.streamWindowSize }

/-- `TryToInsertStream`: 0, -1 or 1. -/
def tryToInsertStream (s : Stream) : ℤ × Context :=
  if 0 ≤ ctx.goawayStreamId ∧ ctx.goawayStreamId < streamId then (1, ctx)
  else
    match ctx.findStream streamId with
    | none => (0, { ctx with pendingStreams := ctx.pendingStreams ++ [(streamId, s)] })
    | some _ => (-1, ctx)

/-! ### What is given back -/

/-- `SaveUint32` of a 64-bit number. -/
def toUint32 : ℕ := (v % 4294967296).toNat

def releaseDeferredWindowUpdate : ℤ × Context :=
  (ctx.deferredWindowUpdate, { ctx with deferredWindowUpdate := 0 })

def deferWindowUpdate (size : ℤ) : Context :=
  if size ≤ 0 then ctx
  else
    let acc := ctx.deferredWindowUpdate + size
    if (ctx.localSettings.streamWindowSize / 2 : ℕ) ≤ acc then
      let ctx := { ctx with deferredWindowUpdate := 0 }
      if 0 < acc then (ctx.writeAck env [.windowUpdate 0 (toUint32 acc)]).2 else ctx
    else { ctx with deferredWindowUpdate := acc }

def removeStreamAndDeferWU : Option Stream × Context :=
  match ctx.findStream streamId with
  | none => (none, ctx)
  | some s => (some s, (ctx.eraseStream streamId).deferWindowUpdate env s.deferredWindowUpdate)

/-- `ClearAbandonedStreams`, the last one first. -/
def clearAbandonedStreams : Context :=
  ctx.abandonedStreams.foldr (fun streamId ctx => (ctx.removeStreamAndDeferWU env streamId).2)
    { ctx with abandonedStreams := [] }

def addAbandonedStream : Context :=
  { ctx with abandonedStreams := ctx.abandonedStreams ++ [streamId] }

/-- `RemoveGoAwayStreams`: the streams removed.  With 0 the map is swapped for one without `init`; here it is
empty, while the code crashes at the next insertion, which a GOAWAY with a higher id makes possible. -/
def removeGoAwayStreams (goawayStreamId : ℤ) : List Stream × Context :=
  let ctx := { ctx with goawayStreamId := goawayStreamId }
  if goawayStreamId = 0 then (ctx.pendingStreams.map (·.2), { ctx with pendingStreams := [] })
  else
    ((ctx.pendingStreams.filter fun x => goawayStreamId < x.1).map (·.2),
      { ctx with pendingStreams := ctx.pendingStreams.filter fun x => ¬ goawayStreamId < x.1 })

/-! ### Windows for sending -/

/-- Bit 31 of a 64-bit number. -/
def bit31 : Bool := 2147483648 ≤ v % 4294967296

/-- `(v & (1 << 31)) != 0`: `1 << 31` is a negative `int`, so all bits from 31 on are looked at. -/
def highBits : Bool := 2147483648 ≤ v % 18446744073709551616

/-- The answer of `AddWindowSize` when the window was `before`. -/
def addAccepted (before diff : ℤ) : Bool :=
  !(!bit31 before && !bit31 diff && highBits (before + diff)) &&
    !(bit31 before && bit31 diff && !highBits (before + diff))

/-- `AddWindowSize`: the answer and the window, which has changed in any case. -/
def addWindowSize (window diff : ℤ) : Bool × ℤ := (addAccepted window diff, window + diff)

/-- `MinusWindowSize`, with no other thread in between. -/
def minusWindowSize (window size : ℤ) : Bool × ℤ :=
  if window < size then (false, window) else (true, window - size)

/-- `ConsumeWindowSize`, with no other thread in between: the answer, the stream's window and the connection's. -/
def consumeWindowSize (streamWindow connWindow size : ℤ) : Bool × ℤ × ℤ :=
  if streamWindow < size then (false, streamWindow, connWindow)
  else
    match minusWindowSize connWindow size with
    | (false, connWindow) => (false, streamWindow, connWindow)
    | (true, connWindow) =>
      if streamWindow - size < 0 then (false, streamWindow, connWindow)
      else (true, streamWindow - size, connWindow)

/-- `ConsumeWindowSize` with no other thread in between: both windows are debited, or none. -/
theorem consumeWindowSize_eq (sw cw size : ℤ) :
    consumeWindowSize sw cw size = if size ≤ sw ∧ size ≤ cw then (true, sw - size, cw - size) else (false, sw, cw) := by
  unfold consumeWindowSize minusWindowSize
  by_cases hstream : sw < size
  · rw [if_pos hstream, if_neg (by omega)]
  · by_cases hconn : cw < size
    · rw [if_neg hstream, if_pos hconn, if_neg (by omega)]
    · rw [if_neg hstream, if_neg hconn, if_pos (by omega)]
      simp only
      rw [if_neg (by omega)]

end Context
end Brpc.Http2
