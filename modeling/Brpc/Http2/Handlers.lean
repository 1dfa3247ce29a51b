/-
# The handlers of frames

`H2Context::Consume` in `brpc/policy/http2_rpc_protocol.cpp` and the handlers it calls, one for
each type of frame.  A handler gets all bytes behind the head of its frame and returns those it
has left; an error is answered with RST_STREAM or GOAWAY.  Subtractions are those of `uint32_t`.
-/

import Brpc.Http2.Context

namespace Brpc.Http2

open Settings

open Hpack (Bytes)
open Messenger (ParseError)

/-- `H2ParseResult`: whether there is a message, or an error of a stream or of the connection (stream 0). -/
inductive H2Result where
  | ok (message : Bool)
  | error (error : H2Error) (streamId : ℕ)
deriving DecidableEq

inductive ParseResult where
  | ok (message : Bool)
  | error (error : ParseError)
deriving DecidableEq

/-- A stream that is handed on with a status, as the message returned or to a bthread of its own. -/
structure Delivery where
  stream : Stream
  statusCode : ℕ
  isMessage : Bool

/-- What a handler leaves, and the streams `OnGoAway` hands on. -/
structure Handled where
  result : H2Result
  ctx : Context
  rest : Bytes
  delivered : List Delivery := []

namespace Context

variable (env : Env) (ctx : Context) (h : FrameHead) (bs : Bytes)

/-- An error of the connection. -/
def fail (rest : Bytes) (e : H2Error) : Handled := { result := .error e 0, ctx := ctx, rest := rest }

def onEndStream (streamId : ℕ) : H2Result × Context :=
  match ctx.removeStreamAndDeferWU env streamId with
  | (none, ctx) => (.ok false, ctx)
  | (some _, ctx) => (.ok true, ctx)

/-! ### DATA -/

/-- `H2StreamContext::OnData` behind the bytes: the error if there is one, the connection and the stream. -/
def streamOnData (s : Stream) (streamId fragSize : ℕ) (hasData : Bool) :
    Option (H2Error × ℕ) × Context × Stream :=
  if hasData ∧ env.onBody = false then (some (.protocolError, 0), ctx, s)
  else
    let acc := s.deferredWindowUpdate + fragSize
    if (ctx.localSettings.streamWindowSize / (ctx.pendingStreams.length + 1) : ℕ) ≤ acc then
      if ctx.localSettings.streamWindowSize < acc then
        (some (.flowControlError, streamId), ctx, { s with deferredWindowUpdate := acc })
      else if 0 < acc then
        let connWu := acc + ctx.releaseDeferredWindowUpdate.1
        match ctx.releaseDeferredWindowUpdate.2.writeAck env
          [.windowUpdate streamId (toUint32 acc), .windowUpdate 0 (toUint32 connWu)] with
        | (true, ctx) => (none, ctx, { s with deferredWindowUpdate := 0 })
        | (false, ctx) => (some (.internalError, 0), ctx, { s with deferredWindowUpdate := 0 })
      else (none, ctx, { s with deferredWindowUpdate := 0 })
    else (none, ctx, { s with deferredWindowUpdate := acc })

/-- `OnData` when the padding is known. -/
def onDataFragment (fragSize padLength : ℕ) (bs : Bytes) : Handled :=
  if fragSize < padLength then ctx.fail bs .frameSizeError
  else
    let fragSize := fragSize - padLength
    let rest := bs.drop (fragSize + padLength)
    match ctx.findStream h.streamId with
    | none =>
      -- the data is swallowed by a stream of its own
      let r := ctx.streamOnData env ctx.initStream h.streamId fragSize (bs.take fragSize ≠ [])
      { result := .error .streamClosedError h.streamId
        ctx := r.2.1.deferWindowUpdate env r.2.2.deferredWindowUpdate
        rest := rest }
    | some s =>
      let r := ctx.streamOnData env s h.streamId fragSize (bs.take fragSize ≠ [])
      let ctx := r.2.1.setStream h.streamId r.2.2
      match r.1 with
      | some (e, streamId) => { result := .error e streamId, ctx := ctx, rest := rest }
      | none =>
        if h.endStream then
          let r := ctx.onEndStream env h.streamId
          { result := r.1, ctx := r.2, rest := rest }
        else { result := .ok false, ctx := ctx, rest := rest }

def onData : Option Handled :=
  if h.padded then
    (loadUint8 bs).map fun pad =>
      ctx.onDataFragment env h ((h.payloadSize + 4294967295) % 4294967296) pad.1 pad.2
  else some (ctx.onDataFragment env h h.payloadSize 0 bs)

/-! ### HEADERS and CONTINUATION -/

/-- How a handler of headers goes on after the stream has decoded them. -/
def finishHeaders (streamId : ℕ) (result : HeaderResult) (rest : Bytes) : Handled :=
  match result with
  | .protocolError => ctx.fail rest .protocolError
  | .message => { result := .ok false, ctx := ctx, rest := rest }
  | .endStream =>
    let r := ctx.onEndStream env streamId
    { result := r.1, ctx := r.2, rest := rest }

/-- The bytes behind `H2StreamContext::OnHeaders`: the iterator moves on only if the headers were consumed. -/
def restOfHeaders (fragSize padLength : ℕ) (bs : Bytes) : Bytes :=
  if (consumeHeaders env.checks ctx.hpacker (bs.take fragSize)).map (·.ok) = some false then bs
  else bs.drop (fragSize + padLength)

/-- `H2StreamContext::OnHeaders` of a pending stream. -/
def streamOnHeaders (s : Stream) (h : FrameHead) (fragSize padLength : ℕ) (bs : Bytes) : Option Handled :=
  (s.header.onHeaders env.checks ctx.hpacker (bs.take fragSize) h.endHeaders h.endStream).map fun r =>
    finishHeaders env (setStream { ctx with hpacker := r.2.1 } h.streamId { s with header := r.2.2 }) h.streamId r.1
      (ctx.restOfHeaders env fragSize padLength bs)

/-- A stream only made to swallow a HEADERS frame. -/
def swallowHeaders (fragSize padLength : ℕ) (bs : Bytes) : Option Handled :=
  (ctx.initStream.header.onHeaders env.checks ctx.hpacker (bs.take fragSize) h.endHeaders h.endStream).map fun r =>
    { result := .ok false, ctx := { ctx with hpacker := r.2.1 }
      rest := ctx.restOfHeaders env fragSize padLength bs }

/-- `OnHeaders` when the fragment is known. -/
def onHeadersFragment (fragSize padLength : ℕ) (bs : Bytes) : Option Handled :=
  if fragSize < padLength then some (ctx.fail bs .frameSizeError)
  else
    let fragSize := fragSize - padLength
    if ctx.isServer ∧ ctx.lastReceivedStreamId < h.streamId then
      if h.streamId % 2 = 0 then some (ctx.fail bs .protocolError)
      else
        let ctx := { ctx with lastReceivedStreamId := h.streamId }
        match ctx.tryToInsertStream h.streamId ctx.initStream with
        | (0, ctx') => ctx'.streamOnHeaders env ctx.initStream h fragSize padLength bs
        | (1, ctx) => some (ctx.fail bs .refusedStream)
        | (_, ctx) => some (ctx.fail bs .protocolError)
    else
      match ctx.findStream h.streamId with
      | some s => ctx.streamOnHeaders env s h fragSize padLength bs
      | none =>
        if ctx.isServer then some (ctx.fail bs .protocolError)
        else ctx.swallowHeaders env h fragSize padLength bs

def onHeaders : Option Handled :=
  if h.streamId = 0 then some (ctx.fail bs .protocolError)
  else if h.payloadSize < (if h.hasPriority then 5 else 0) + (if h.padded then 1 else 0) then
    some (ctx.fail bs .frameSizeError)
  else
    (if h.padded then loadUint8 bs else some (0, bs)).bind fun pad =>
    (if h.hasPriority then (loadUint32 pad.2).bind fun x => (loadUint8 x.2).map (·.2) else some pad.2).bind
      fun bs =>
        ctx.onHeadersFragment env h
          (h.payloadSize - (if h.padded then 1 else 0) - (if h.hasPriority then 5 else 0)) pad.1 bs

def onContinuation (env : Env) (ctx : Context) (h : FrameHead) (bs : Bytes) : Option Handled :=
  let payload := bs.take h.payloadSize
  let rest := bs.drop h.payloadSize
  match ctx.findStream h.streamId with
  | some s =>
    (s.header.onContinuation env.checks ctx.hpacker payload h.endHeaders).map fun r =>
      finishHeaders env (setStream { ctx with hpacker := r.2.1 } h.streamId { s with header := r.2.2 }) h.streamId
        r.1 rest
  | none =>
    if ctx.isServer then some (ctx.fail bs .protocolError)
    else
      (ctx.initStream.header.onContinuation env.checks ctx.hpacker payload h.endHeaders).map fun r =>
        { result := .ok false, ctx := { ctx with hpacker := r.2.1 }, rest := rest }

/-! ### Other frames -/

def onResetStream : Option Handled :=
  if h.payloadSize ≠ 4 then some (ctx.fail bs .frameSizeError)
  else
    (loadUint32 bs).map fun code =>
      match ctx.removeStreamAndDeferWU env h.streamId with
      | (none, ctx) => { result := .ok false, ctx := ctx, rest := code.2 }
      | (some _, ctx) => { result := .ok (!ctx.isServer), ctx := ctx, rest := code.2 }

/-- The loop of `OnSettings` over the pending streams, up to the first window that is refused. -/
def shiftStreams (diff : ℤ) : List (ℕ × Stream) → Bool × List (ℕ × Stream)
  | [] => (true, [])
  | (id, s) :: streams =>
    let w := addWindowSize s.remoteWindowLeft diff
    let s := { s with remoteWindowLeft := w.2 }
    if w.1 then
      let r := shiftStreams diff streams
      (r.1, (id, s) :: r.2)
    else (false, (id, s) :: streams)

/-- All windows are shifted if there is a difference. -/
def shiftAll (diff : ℤ) (streams : List (ℕ × Stream)) : Bool × List (ℕ × Stream) :=
  if diff ≠ 0 then shiftStreams diff streams else (true, streams)

/-- The end of `OnSettings`: windows are shifted and the frame is acknowledged. -/
def applySettings (oldStreamWindowSize : ℕ) (rest : Bytes) : Handled :=
  let shifted := shiftAll (ctx.remoteSettings.streamWindowSize - oldStreamWindowSize) ctx.pendingStreams
  let ctx := { ctx with pendingStreams := shifted.2 }
  if shifted.1 = false then ctx.fail rest .flowControlError
  else
    match ctx.writeAck env [.settingsAck] with
    | (true, ctx) => { result := .ok false, ctx := ctx, rest := rest }
    | (false, ctx) => ctx.fail rest .protocolError

def onSettings : Option Handled :=
  if h.streamId ≠ 0 then some (ctx.fail bs .protocolError)
  else if h.endStream then
    if h.payloadSize ≠ 0 then some (ctx.fail bs .protocolError)
    else some { result := .ok false, ctx := { ctx with localSettings := ctx.unackLocalSettings }, rest := bs }
  else if ctx.remoteSettingsReceived = false then
    (parse {} bs h.payloadSize).map fun r =>
      if r.ok = false then ctx.fail r.rest .protocolError
      else
        applySettings env
          { ctx with
            remoteSettings := r.settings
            remoteWindowLeft := ctx.remoteWindowLeft - (maxWindowSize - defaultInitialWindowSize : ℕ)
            remoteSettingsReceived := true }
          ctx.remoteSettings.streamWindowSize r.rest
  else
    (ctx.remoteSettings.parse bs h.payloadSize).map fun r =>
      -- the settings are parsed in place
      let ctx' := { ctx with remoteSettings := r.settings }
      if r.ok = false then ctx'.fail r.rest .protocolError
      else ctx'.applySettings env ctx.remoteSettings.streamWindowSize r.rest

def onPriority : Handled := ctx.fail bs .protocolError

def onPushPromise : Handled := ctx.fail bs .protocolError

def onPing : Handled :=
  if h.payloadSize ≠ 8 then ctx.fail bs .frameSizeError
  else if h.streamId ≠ 0 then ctx.fail bs .protocolError
  else if h.endStream then { result := .ok false, ctx := ctx, rest := bs }
  else
    match ctx.writeAck env [.pingAck (bs.take 8)] with
    | (true, ctx) => { result := .ok false, ctx := ctx, rest := bs.drop 8 }
    | (false, ctx) => ctx.fail (bs.drop 8) .protocolError

/-- A 32-bit number as `int`. -/
def toInt32 (v : ℕ) : ℤ := if v < 2147483648 then v else v - 4294967296

/-- All streams removed get `HTTP_STATUS_SERVICE_UNAVAILABLE`; the first is the message, and bthreads with
`ProcessHttpResponseWrapper` are started for the others. -/
def deliver : List Stream → List Delivery
  | [] => []
  | s :: ss => ⟨s, 503, true⟩ :: ss.map fun s => ⟨s, 503, false⟩

/-- `OnGoAway` of a client behind the fields of the frame. -/
def goAway (lastStreamId : ℤ) (rest : Bytes) : Handled :=
  let r := ctx.removeGoAwayStreams lastStreamId
  { result := .ok (!r.1.isEmpty), ctx := r.2, rest := rest, delivered := deliver r.1 }

def onGoAway : Option Handled :=
  if h.payloadSize < 8 then some (ctx.fail bs .frameSizeError)
  else if h.streamId ≠ 0 then some (ctx.fail bs .protocolError)
  else if h.flags ≠ 0 then some (ctx.fail bs .protocolError)
  else
    (loadUint32 (bs.drop (h.payloadSize - 8))).bind fun lastStreamId =>
    (loadUint32 lastStreamId.2).map fun code =>
      if ctx.isServer then { result := .ok false, ctx := ctx, rest := code.2 }
      else ctx.goAway (toInt32 lastStreamId.1) code.2

def onWindowUpdate : Option Handled :=
  if h.payloadSize ≠ 4 then some (ctx.fail bs .frameSizeError)
  else
    (loadUint32 bs).map fun inc =>
      if 2147483648 ≤ inc.1 ∨ inc.1 = 0 then ctx.fail inc.2 .protocolError
      else if h.streamId = 0 then
        let w := addWindowSize ctx.remoteWindowLeft inc.1
        let ctx := { ctx with remoteWindowLeft := w.2 }
        if w.1 then { result := .ok false, ctx := ctx, rest := inc.2 } else ctx.fail inc.2 .flowControlError
      else
        match ctx.findStream h.streamId with
        | none => { result := .ok false, ctx := ctx, rest := inc.2 }
        | some s =>
          let w := addWindowSize s.remoteWindowLeft inc.1
          let ctx := ctx.setStream h.streamId { s with remoteWindowLeft := w.2 }
          if w.1 then { result := .ok false, ctx := ctx, rest := inc.2 } else ctx.fail inc.2 .flowControlError

/-! ### `Consume` -/

def handle (type : FrameType) (h : FrameHead) (bs : Bytes) : Option Handled :=
  match type with
  | .data => ctx.onData env h bs
  | .headers => ctx.onHeaders env h bs
  | .priority => some (ctx.onPriority bs)
  | .rstStream => ctx.onResetStream env h bs
  | .settings => ctx.onSettings env h bs
  | .pushPromise => some (ctx.onPushPromise bs)
  | .ping => some (ctx.onPing env h bs)
  | .goaway => ctx.onGoAway h bs
  | .windowUpdate => ctx.onWindowUpdate h bs
  | .continuation => ctx.onContinuation env h bs

/-- `Consume` after a handler: an error is answered with RST_STREAM or GOAWAY. -/
def answer (result : H2Result) : ParseResult × Context :=
  match result with
  | .ok message => (.ok message, ctx)
  | .error e streamId =>
    if streamId ≠ 0 then
      match ctx.writeAck env [.rstStream streamId e] with
      | (false, ctx) => (.error .absolutelyWrong, ctx)
      | (true, ctx) =>
        match ctx.removeStreamAndDeferWU env streamId with
        | (none, ctx) => (.ok false, ctx)
        | (some _, ctx) => (.ok (!ctx.isServer), ctx)
    else
      match ctx.writeAck env [.goaway ctx.lastReceivedStreamId e] with
      | (false, ctx) => (.error .absolutelyWrong, ctx)
      | (true, ctx) => (.ok false, ctx)

/-- `H2_CONNECTION_PREFACE_PREFIX` -/
def connectionPreface : Bytes := Hpack.text "PRI * HTTP/2.0\r\n\r\nSM\r\n\r\n"

/-- `SerializeH2SettingsFrameAndWU` -/
def settingsFrameAndWU (s : Settings) : List Sent :=
  .settings s ::
    if defaultInitialWindowSize < s.connectionWindowSize then
      [.windowUpdate 0 (s.connectionWindowSize - defaultInitialWindowSize)]
    else []

/-- `Consume` before the connection is ready. -/
def consumePreface : ParseResult × Context × Bytes :=
  if ctx.isServer then
    if bs.take 24 ≠ connectionPreface.take (bs.take 24).length then (.error .tryOthers, ctx, bs)
    else if bs.length < 24 then (.error .notEnoughData, ctx, bs)
    else
      match writeAck env { ctx with connState := .ready } (settingsFrameAndWU ctx.unackLocalSettings) with
      | (true, ctx) => (.ok false, ctx, bs.drop 24)
      | (false, ctx) => (.error .absolutelyWrong, ctx, bs.drop 24)
  else (.ok false, { ctx with connState := .ready }, bs)

/-- `Consume`, with the bytes left; after an error they are not looked at. -/
def consume : Option (ParseResult × Context × Bytes) :=
  match ctx.connState with
  | .uninitialized => some (ctx.consumePreface env bs)
  | .ready =>
    match consumeFrameHead ctx.localSettings.maxFrameSize bs with
    | .error e => some (.error e, ctx, bs)
    | .ok (h, rest) =>
      match findFrameHandler h.type with
      | none => some (.error .absolutelyWrong, ctx, rest)
      | some type =>
        (ctx.handle env type h rest).map fun r =>
          let a := r.ctx.answer env r.result
          (a.1, a.2, r.rest)
  | .goaway => some (.error .noResource, ctx, bs)

end Context
end Brpc.Http2
