/-
# The windows for sending

`_remote_window_left` of the connection and of its streams.  Most steps leave the windows alone, but
for streams that come and go (`SameWindows`); `AppendAndDestroySelf` of `H2UnsentRequest` and
`H2UnsentResponse` (`brpc/policy/http2_rpc_protocol.cpp`) debits them.
-/

import Brpc.Hpack.RoundTrip
import Brpc.Http2.GoAway

namespace Brpc.Http2

open Hpack (Bytes HPacker Header HPackOptions)

/-- The `butil::Status` of a message. -/
inductive SendStatus where
  | ok
  | elimit
  | ecanceled
  | eh2runoutstreams
  | einternal
  | elogoff

namespace Context

/-- The headers of a message, encoded. -/
def encodeHeaders (p : HPacker) (headers : List (Header × HPackOptions)) : Option (HPacker × Bytes) :=
  headers.foldlM (fun x h => (x.1.encode h.1 h.2).map fun r => (r.1, x.2 ++ r.2)) (p, [])

/-- `PackH2Message`: what the connection has to give back goes with the message. -/
def pack (ctx : Context) (headers trailers data : Bytes) (streamId : ℕ) : List Frame × Context :=
  let wu := ctx.releaseDeferredWindowUpdate
  (packH2Message ctx.remoteSettings.maxFrameSize headers trailers data streamId wu.1,
    if 0 < wu.1 then { wu.2 with sent := wu.2.sent ++ [.windowUpdate 0 (toUint32 wu.1)] } else wu.2)

/-- The windows debited for the body of a request: the answer, the stream's window and the connection's. -/
def debit (ctx : Context) (s : Stream) (data : Bytes) : Bool × ℤ × ℤ :=
  if data = [] then (true, s.remoteWindowLeft, ctx.remoteWindowLeft)
  else consumeWindowSize s.remoteWindowLeft ctx.remoteWindowLeft data.length

/-- `H2UnsentRequest::AppendAndDestroySelf` on the stream `id`. -/
def sendRequestOn (ctx : Context) (id : ℕ) (headers : List (Header × HPackOptions)) (data : Bytes) :
    Option (SendStatus × List Frame × Context) :=
  let s := ctx.initStream
  let w := ctx.debit s data
  let ctx := { ctx with remoteWindowLeft := w.2.2 }
  if w.1 = false then some (.elimit, [], ctx)
  else
    match ctx.tryToInsertStream id { s with remoteWindowLeft := w.2.1 } with
    | (0, ctx) =>
      (encodeHeaders ctx.hpacker headers).map fun r =>
        let p := pack { ctx with hpacker := r.1 } r.2 [] data id
        (.ok, p.1, p.2)
    | (1, ctx) => some (.elogoff, [], ctx)
    | (_, ctx) => some (.einternal, [], ctx)

/-- `H2UnsentRequest::AppendAndDestroySelf`; `canceled` if the RPC was already failed. -/
def sendRequest (ctx : Context) (canceled : Bool) (headers : List (Header × HPackOptions)) (data : Bytes) :
    Option (SendStatus × List Frame × Context) :=
  if ctx.remoteSettings.maxConcurrentStreams < ctx.pendingStreams.length then some (.elimit, [], ctx)
  else if canceled then some (.ecanceled, [], ctx)
  else if 2147483647 < ctx.lastSentStreamId then some (.eh2runoutstreams, [], ctx)
  else sendRequestOn { ctx with lastSentStreamId := ctx.lastSentStreamId + 2 } ctx.lastSentStreamId headers data

/-- `H2UnsentResponse::AppendAndDestroySelf`; a response that does not fit the window resets the stream. -/
def sendResponse (ctx : Context) (headers trailers : List (Header × HPackOptions)) (data : Bytes) (streamId : ℕ) :
    Option (List Frame × Context) :=
  match minusWindowSize ctx.remoteWindowLeft data.length with
  | (false, w) =>
    some ([{ head := { payloadSize := 4, type := FrameType.rstStream.toNat, flags := 0, streamId := streamId }
             payload := saveUint32 3 }],
      { ctx with remoteWindowLeft := w, sent := ctx.sent ++ [.rstStream streamId .flowControlError] })
  | (true, w) =>
    let ctx := { ctx with remoteWindowLeft := w }
    (encodeHeaders ctx.hpacker headers).bind fun h =>
    (encodeHeaders h.1 trailers).map fun t => pack { ctx with hpacker := t.1 } h.2 t.2 data streamId

/-! ### Runs -/

/-- What happens to a connection. -/
inductive Op where
  | consume (env : Env) (bs : Bytes)
  | sendRequest (canceled : Bool) (headers : List (Header × HPackOptions)) (data : Bytes)
  | sendResponse (headers trailers : List (Header × HPackOptions)) (data : Bytes) (streamId : ℕ)
  | addAbandonedStream (streamId : ℕ)
  | clearAbandonedStreams (env : Env)

/-- One step; a call that does not return is `none`. -/
def step (ctx : Context) : Op → Option Context
  | .consume env bs => (ctx.consume env bs).map (·.2.1)
  | .sendRequest canceled headers data => (ctx.sendRequest canceled headers data).map (·.2.2)
  | .sendResponse headers trailers data streamId => (ctx.sendResponse headers trailers data streamId).map (·.2)
  | .addAbandonedStream streamId => some (ctx.addAbandonedStream streamId)
  | .clearAbandonedStreams env => some (ctx.clearAbandonedStreams env)

end Context

/-! ## The windows for sending -/

open List Option
open Hpack (Bytes)

namespace Context

/-! ### What leaves the windows alone -/

/-- The windows of `ctx'` are those of `ctx`, or of new streams. -/
structure SameWindows (ctx ctx' : Context) : Prop where
  conn : ctx'.remoteWindowLeft = ctx.remoteWindowLeft
  settings : ctx'.remoteSettings = ctx.remoteSettings
  received : ctx'.remoteSettingsReceived = ctx.remoteSettingsReceived
  streams : ∀ x ∈ ctx'.pendingStreams, x.2.remoteWindowLeft = ctx.remoteSettings.streamWindowSize ∨
    ∃ y ∈ ctx.pendingStreams, y.2.remoteWindowLeft = x.2.remoteWindowLeft

namespace SameWindows

variable {ctx ctx' ctx'' : Context}

theorem of_streams (hconn : ctx'.remoteWindowLeft = ctx.remoteWindowLeft)
    (hsettings : ctx'.remoteSettings = ctx.remoteSettings)
    (hreceived : ctx'.remoteSettingsReceived = ctx.remoteSettingsReceived)
    (hstreams : ∀ x ∈ ctx'.pendingStreams, x ∈ ctx.pendingStreams) : SameWindows ctx ctx' :=
  ⟨hconn, hsettings, hreceived, fun x hx => .inr ⟨x, hstreams x hx, rfl⟩⟩

theorem refl (ctx : Context) : SameWindows ctx ctx := of_streams rfl rfl rfl fun _ hx => hx

theorem trans (h : SameWindows ctx ctx') (h' : SameWindows ctx' ctx'') : SameWindows ctx ctx'' := by
  refine ⟨h'.conn.trans h.conn, h'.settings.trans h.settings, h'.received.trans h.received, fun x hx => ?_⟩
  rcases h'.streams x hx with hx | ⟨y, hy, hyx⟩
  · exact .inl (by rw [hx, h.settings])
  · rcases h.streams y hy with hy | ⟨z, hz, hzy⟩
    · exact .inl (by rw [← hyx, hy])
    · exact .inr ⟨z, hz, hzy.trans hyx⟩

end SameWindows

variable {s : Stream}

theorem findStream_mem {ctx : Context} {streamId : ℕ} (h : ctx.findStream streamId = some s) :
    (streamId, s) ∈ ctx.pendingStreams := by
  obtain ⟨l₁, l₂, hl, -⟩ := lookup_eq_some_iff.1 h
  rw [hl]
  simp

theorem findStream_inserted {ctx ctx' : Context} {streamId : ℕ}
    (h : ctx.tryToInsertStream streamId s = (0, ctx')) : ctx'.findStream streamId = some s := by
  unfold tryToInsertStream at h
  split_ifs at h
  · exact absurd (Prod.ext_iff.1 h).1 (by simp)
  · split at h
    next hnone =>
      obtain ⟨-, rfl⟩ := Prod.ext_iff.1 h
      show (ctx.pendingStreams ++ [(streamId, s)]).lookup streamId = _
      rw [lookup_append, show ctx.pendingStreams.lookup streamId = none from hnone]
      simp
    · exact absurd (Prod.ext_iff.1 h).1 (by simp)

/-! ### Handlers that change little -/

/-- A relation that the handlers of HEADERS, CONTINUATION, RST_STREAM and PING keep, because it allows what they do. -/
structure Kept (env : Env) (R : Context → Context → Prop) : Prop where
  refl : ∀ ctx, R ctx ctx
  trans : ∀ {a b c}, R a b → R b c → R a c
  hpacker : ∀ ctx p, R ctx { ctx with hpacker := p }
  received : ∀ ctx id, R ctx { ctx with lastReceivedStreamId := id }
  insert : ∀ ctx {streamId}, streamId ≠ 0 → R ctx (ctx.tryToInsertStream streamId ctx.initStream).2
  header : ∀ {ctx streamId s}, ctx.findStream streamId = some s → ∀ header,
    R ctx (ctx.setStream streamId { s with header := header })
  remove : ∀ ctx streamId, R ctx (ctx.removeStreamAndDeferWU env streamId).2
  ack : ∀ ctx data, R ctx (ctx.writeAck env [.pingAck data]).2

namespace Kept

variable {env : Env} {R : Context → Context → Prop} {ctx : Context} {h : FrameHead} {r : Handled} {bs : Bytes}
  {streamId : ℕ} {s : Stream} (hR : Kept env R)
include hR

theorem onEndStream (streamId : ℕ) : R ctx (ctx.onEndStream env streamId).2 := by
  have hremove := hR.remove ctx streamId
  unfold Context.onEndStream
  split <;> rename_i heq <;> rw [heq] at hremove <;> exact hremove

theorem finish (hs : ctx.findStream streamId = some s) (p : Hpack.HPacker) (header : HeaderState)
    (result : HeaderResult) (rest : Bytes) :
    R ctx (finishHeaders env (setStream { ctx with hpacker := p } streamId { s with header := header }) streamId
      result rest).ctx := by
  have hs : findStream { ctx with hpacker := p } streamId = some s := hs
  have hset := hR.trans (hR.hpacker ctx p) (hR.header hs header)
  cases result with
  | protocolError | message => exact hset
  | endStream => exact hR.trans hset (hR.onEndStream streamId)

theorem onHeadersFragment (hid : h.streamId ≠ 0) {fragSize padLength : ℕ}
    (hr : ctx.onHeadersFragment env h fragSize padLength bs = some r) : R ctx r.ctx := by
  unfold Context.onHeadersFragment at hr
  simp only at hr
  split_ifs at hr
  · cases hr
    exact hR.refl ctx
  · cases hr
    exact hR.refl ctx
  · have hinsert := hR.trans (hR.received ctx h.streamId) (hR.insert _ hid)
    split at hr <;> rename_i heq <;> rw [heq] at hinsert
    · obtain ⟨x, -, rfl⟩ := map_eq_some_iff.1 hr
      exact hR.trans hinsert (hR.finish (findStream_inserted heq) _ _ _ _)
    all_goals
      cases hr
      exact hinsert
  · split at hr
    next s hs =>
      obtain ⟨x, -, rfl⟩ := map_eq_some_iff.1 hr
      exact hR.finish hs _ _ _ _
    · cases hr
      exact hR.refl ctx
  · split at hr
    next s hs =>
      obtain ⟨x, -, rfl⟩ := map_eq_some_iff.1 hr
      exact hR.finish hs _ _ _ _
    · obtain ⟨x, -, rfl⟩ := map_eq_some_iff.1 hr
      exact hR.hpacker ctx _

theorem onHeaders (hr : ctx.onHeaders env h bs = some r) : R ctx r.ctx := by
  unfold Context.onHeaders at hr
  by_cases hzero : h.streamId = 0
  · rw [if_pos hzero] at hr
    cases hr
    exact hR.refl ctx
  rw [if_neg hzero] at hr
  by_cases hsize : h.payloadSize < (if h.hasPriority then 5 else 0) + (if h.padded then 1 else 0)
  · rw [if_pos hsize] at hr
    cases hr
    exact hR.refl ctx
  · rw [if_neg hsize] at hr
    obtain ⟨pad, -, hr⟩ := bind_eq_some_iff.1 hr
    obtain ⟨bs', -, hr⟩ := bind_eq_some_iff.1 hr
    exact hR.onHeadersFragment hzero hr

theorem onContinuation (hr : ctx.onContinuation env h bs = some r) : R ctx r.ctx := by
  unfold Context.onContinuation at hr
  split at hr
  next s hs =>
    obtain ⟨x, -, rfl⟩ := map_eq_some_iff.1 hr
    exact hR.finish hs _ _ _ _
  · split_ifs at hr
    · cases hr
      exact hR.refl ctx
    · obtain ⟨x, -, rfl⟩ := map_eq_some_iff.1 hr
      exact hR.hpacker ctx _

theorem onResetStream (hr : ctx.onResetStream env h bs = some r) : R ctx r.ctx := by
  have hremove := hR.remove ctx h.streamId
  unfold Context.onResetStream at hr
  split_ifs at hr
  · cases hr
    exact hR.refl ctx
  · obtain ⟨code, -, rfl⟩ := map_eq_some_iff.1 hr
    split <;> rename_i heq <;> rw [heq] at hremove <;> exact hremove

theorem onPing (h : FrameHead) (bs : Bytes) : R ctx (ctx.onPing env h bs).ctx := by
  have hack := hR.ack ctx (bs.take 8)
  unfold Context.onPing
  split_ifs
  · exact hR.refl ctx
  · exact hR.refl ctx
  · exact hR.refl ctx
  · split <;> rename_i heq <;> rw [heq] at hack <;> exact hack

end Kept

variable {env : Env} {ctx ctx' : Context}

theorem SameWindows.writeAck (frames : List Sent) : SameWindows ctx (ctx.writeAck env frames).2 := by
  unfold Context.writeAck
  split_ifs <;> exact .of_streams rfl rfl rfl fun _ hx => hx

theorem SameWindows.deferWindowUpdate (size : ℤ) : SameWindows ctx (ctx.deferWindowUpdate env size) := by
  have hzero : SameWindows ctx { ctx with deferredWindowUpdate := 0 } := .of_streams rfl rfl rfl fun _ hx => hx
  unfold Context.deferWindowUpdate
  simp only
  split_ifs
  · exact .refl ctx
  · exact hzero.trans (.writeAck _)
  all_goals exact .of_streams rfl rfl rfl fun _ hx => hx

theorem SameWindows.removeStreamAndDeferWU (streamId : ℕ) :
    SameWindows ctx (ctx.removeStreamAndDeferWU env streamId).2 := by
  unfold Context.removeStreamAndDeferWU
  split
  · exact .refl ctx
  · have herase : SameWindows ctx (ctx.eraseStream streamId) := .of_streams rfl rfl rfl fun _ hx => (mem_filter.1 hx).1
    exact herase.trans (.deferWindowUpdate _)

theorem SameWindows.setStream (streamId : ℕ)
    (hs : ∃ y ∈ ctx.pendingStreams, y.2.remoteWindowLeft = s.remoteWindowLeft) :
    SameWindows ctx (ctx.setStream streamId s) := by
  refine ⟨rfl, rfl, rfl, fun x hx => ?_⟩
  obtain ⟨y, hy, rfl⟩ := mem_map.1 hx
  split_ifs with hid
  · exact .inr hs
  · exact .inr ⟨y, hy, rfl⟩

theorem SameWindows.tryToInsertStream (streamId : ℕ) (hs : s.remoteWindowLeft = ctx.remoteSettings.streamWindowSize) :
    SameWindows ctx (ctx.tryToInsertStream streamId s).2 := by
  unfold Context.tryToInsertStream
  split_ifs
  · exact .refl ctx
  · split
    · exact ⟨rfl, rfl, rfl, forall_mem_append.2 ⟨fun x hx => .inr ⟨x, hx, rfl⟩, forall_mem_singleton.2 (.inl hs)⟩⟩
    · exact .refl ctx

theorem SameWindows.kept : Kept env SameWindows where
  refl := .refl
  trans := .trans
  hpacker _ _ := .of_streams rfl rfl rfl fun _ hx => hx
  received _ _ := .of_streams rfl rfl rfl fun _ hx => hx
  insert _ _ _ := .tryToInsertStream _ rfl
  header hs _ := .setStream _ ⟨_, findStream_mem hs, rfl⟩
  remove _ _ := .removeStreamAndDeferWU _
  ack _ _ := .writeAck _

/-! ### The handlers that leave them alone -/

theorem SameWindows.of_writeAck {frames : List Sent} {b : Bool} (h : ctx.writeAck env frames = (b, ctx')) :
    SameWindows ctx ctx' := by
  have hsame := @SameWindows.writeAck env ctx frames
  rwa [h] at hsame

theorem pendingStreams_of_writeAck {frames : List Sent} {b : Bool} (h : ctx.writeAck env frames = (b, ctx')) :
    ctx'.pendingStreams = ctx.pendingStreams := by
  unfold Context.writeAck at h
  split_ifs at h <;> obtain ⟨-, rfl⟩ := Prod.ext_iff.1 h <;> rfl

theorem streamOnData_windows (s : Stream) (streamId fragSize : ℕ) (hasData : Bool) :
    SameWindows ctx (ctx.streamOnData env s streamId fragSize hasData).2.1 ∧
      (ctx.streamOnData env s streamId fragSize hasData).2.1.pendingStreams = ctx.pendingStreams ∧
      (ctx.streamOnData env s streamId fragSize hasData).2.2.remoteWindowLeft = s.remoteWindowLeft := by
  have hzero : SameWindows ctx ctx.releaseDeferredWindowUpdate.2 := .of_streams rfl rfl rfl fun _ hx => hx
  unfold streamOnData
  simp only
  split_ifs
  · exact ⟨.refl ctx, rfl, rfl⟩
  · exact ⟨.refl ctx, rfl, rfl⟩
  · split <;> rename_i hack <;>
      exact ⟨hzero.trans (.of_writeAck hack), (pendingStreams_of_writeAck hack).trans rfl, rfl⟩
  all_goals exact ⟨.refl ctx, rfl, rfl⟩

theorem SameWindows.onDataFragment (h : FrameHead) (fragSize padLength : ℕ) (bs : Bytes) :
    SameWindows ctx (ctx.onDataFragment env h fragSize padLength bs).ctx := by
  unfold Context.onDataFragment
  by_cases hpad : fragSize < padLength
  · rw [if_pos hpad]
    exact .refl ctx
  · rw [if_neg hpad]
    cases hs : ctx.findStream h.streamId with
    | none => exact (streamOnData_windows _ _ _ _).1.trans (.deferWindowUpdate _)
    | some s =>
      obtain ⟨hsame, hpending, hwindow⟩ := @streamOnData_windows env ctx s h.streamId (fragSize - padLength)
        (bs.take (fragSize - padLength) ≠ [])
      have hset := hsame.trans (.setStream h.streamId ⟨_, hpending ▸ findStream_mem hs, hwindow.symm⟩)
      simp only
      split
      · exact hset
      · split_ifs
        · exact hset.trans (SameWindows.kept.onEndStream _)
        · exact hset

variable {h : FrameHead} {r : Handled} {bs : Bytes}

theorem SameWindows.onData (hr : ctx.onData env h bs = some r) : SameWindows ctx r.ctx := by
  unfold Context.onData at hr
  split_ifs at hr
  · obtain ⟨pad, -, rfl⟩ := map_eq_some_iff.1 hr
    exact .onDataFragment _ _ _ _
  · cases hr
    exact .onDataFragment _ _ _ _

theorem SameWindows.of_remove {streamId : ℕ} {s : Option Stream}
    (h : ctx.removeStreamAndDeferWU env streamId = (s, ctx')) : SameWindows ctx ctx' := by
  have hsame := @SameWindows.removeStreamAndDeferWU env ctx streamId
  rwa [h] at hsame

theorem SameWindows.onGoAway (hr : ctx.onGoAway h bs = some r) : SameWindows ctx r.ctx := by
  rcases onGoAway_cases hr with ⟨e, rfl, -⟩ | ⟨last, code, -, -, -, -, hctx⟩
  · exact .refl ctx
  · rw [hctx]
    split_ifs
    · exact .refl ctx
    · rw [removeGoAwayStreams_eq]
      exact .of_streams rfl rfl rfl fun x hx => (mem_filter.1 hx).1

/-- **Windows change in `OnSettings` and `OnWindowUpdate` only.** -/
theorem SameWindows.handle {type : FrameType}
    (hr : ctx.handle env type h bs = some r) (hsettings : type ≠ .settings) (hupdate : type ≠ .windowUpdate) :
    SameWindows ctx r.ctx := by
  cases type with
  | data => exact .onData hr
  | headers => exact SameWindows.kept.onHeaders hr
  | priority | pushPromise =>
    cases hr
    exact .refl ctx
  | rstStream => exact SameWindows.kept.onResetStream hr
  | settings => exact absurd rfl hsettings
  | ping =>
    cases hr
    exact SameWindows.kept.onPing h bs
  | goaway => exact .onGoAway hr
  | windowUpdate => exact absurd rfl hupdate
  | continuation => exact SameWindows.kept.onContinuation hr

/-! ### Beside the handlers -/

theorem SameWindows.answer (result : H2Result) : SameWindows ctx (ctx.answer env result).2 := by
  unfold Context.answer
  cases result with
  | ok => exact .refl ctx
  | error e streamId =>
    simp only
    split_ifs
    · split <;> rename_i hack
      · exact .of_writeAck hack
      · split <;> rename_i hremove <;> exact (SameWindows.of_writeAck hack).trans (.of_remove hremove)
    · split <;> rename_i hack <;> exact .of_writeAck hack

theorem SameWindows.consumePreface (bs : Bytes) : SameWindows ctx (ctx.consumePreface env bs).2.1 := by
  have hready : SameWindows ctx { ctx with connState := .ready } := .of_streams rfl rfl rfl fun _ hx => hx
  unfold Context.consumePreface
  split_ifs
  · exact .refl ctx
  · exact .refl ctx
  · split <;> rename_i hack <;> exact hready.trans (.of_writeAck hack)
  · exact hready

theorem SameWindows.clearAbandonedStreams : SameWindows ctx (ctx.clearAbandonedStreams env) := by
  have hclear : SameWindows ctx { ctx with abandonedStreams := [] } := .of_streams rfl rfl rfl fun _ hx => hx
  unfold Context.clearAbandonedStreams
  induction ctx.abandonedStreams with
  | nil => exact hclear
  | cons streamId ids ih => exact ih.trans (.removeStreamAndDeferWU streamId)

theorem SameWindows.pack (headers trailers data : Bytes) (streamId : ℕ) :
    SameWindows ctx (ctx.pack headers trailers data streamId).2 := by
  unfold Context.pack
  simp only
  split_ifs <;> exact .of_streams rfl rfl rfl fun _ hx => hx

end Context
end Brpc.Http2
