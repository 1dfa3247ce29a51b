/-
# What is received is given back

A DATA frame that is not padded, of a stream, whose data is taken, is taken up with its size, and
all other frames take up nothing; all of it is given back or held (`credit_returned`), unless a
GOAWAY frame ends a stream that holds some.
-/

import Brpc.Http2.ReceiveCredit

namespace Brpc.Http2

open List
open Hpack (Bytes)
open Ledger (Books)

theorem Ledger.Books.of_eq {L L' : Ledger} (h : L' = L) : Books L L' 0 := h ▸ Books.refl L

namespace Context

variable {env : Env} {ctx : Context} {bs : Bytes} {h : FrameHead} {r : Handled} {s : Stream} {streamId : ℕ}

/-! ### The handlers -/

theorem books_setStream (hs : ctx.ledger.streams.lookup streamId = some s.deferredWindowUpdate) :
    Books ctx.ledger (ctx.setStream streamId s).ledger 0 := by
  intro hsound
  obtain ⟨l₁, l₂, hl, -⟩ := lookup_eq_some_iff.1 hs
  have hmem : (streamId, s.deferredWindowUpdate) ∈ ctx.ledger.streams := by
    rw [hl]
    simp
  rw [ledger_setStream, ← sub_self s.deferredWindowUpdate]
  exact Ledger.books_set hs (hsound.streams _ hmem) hsound

theorem books_tryToInsertStream {streamId : ℕ} (hid : streamId ≠ 0) {s : Stream} (hs : s.deferredWindowUpdate = 0) :
    Books ctx.ledger (ctx.tryToInsertStream streamId s).2.ledger 0 := by
  unfold tryToInsertStream
  split_ifs
  · exact Books.refl _
  · split
    next hnone =>
      have hlookup : ctx.ledger.streams.lookup streamId = none := by rw [lookup_ledger, hnone]; rfl
      have hbooks := Ledger.books_insert hid hlookup
      simp only [ledger, map_append, map_cons, map_nil, hs] at hbooks ⊢
      exact hbooks
    · exact Books.refl _

theorem books_kept (hwrite : ∀ n, env.write n = true) : Kept env fun ctx ctx' => Books ctx.ledger ctx'.ledger 0 where
  refl _ := .refl _
  trans h h' := h.trans_zero h'
  hpacker _ _ := .refl _
  received _ _ := .refl _
  insert _ _ hid := books_tryToInsertStream hid rfl
  header hs _ := by
    have hlookup := lookup_of_findStream hs
    exact books_setStream hlookup
  remove _ streamId := books_removeStreamAndDeferWU hwrite streamId
  ack _ _ := books_writeAck hwrite rfl

theorem books_onData (hwrite : ∀ n, env.write n = true)
    (hr : ctx.onData env h bs = some r) (hpadded : h.padded = false) (hid : h.streamId ≠ 0)
    (hsize : h.payloadSize < 16777216) (hbody : h.payloadSize ≠ 0 → env.onBody = true) :
    Books ctx.ledger (r.ctx.answer env r.result).2.ledger h.payloadSize := by
  have hdata : (decide (bs.take h.payloadSize ≠ [])) = true → env.onBody = true := by
    intro hdata
    refine hbody fun hzero => ?_
    simp [hzero] at hdata
  unfold onData at hr
  rw [if_neg (by simp [hpadded])] at hr
  cases hr
  unfold onDataFragment
  rw [if_neg (Nat.not_lt_zero _)]
  simp only [Nat.sub_zero, Nat.add_zero]
  cases hs : ctx.findStream h.streamId with
  | none => exact (books_unknown hwrite hid hsize hdata).trans_zero (books_answer hwrite _)
  | some s =>
    cases hnone : (ctx.streamOnData env s h.streamId h.payloadSize (bs.take h.payloadSize ≠ [])).1 with
    | none =>
      have hknown := books_known hwrite hs hdata hnone
      simp only [hnone]
      split_ifs
      · exact (hknown.trans_zero ((books_kept hwrite).onEndStream _)).trans_zero (books_answer hwrite _)
      · exact hknown.trans_zero (books_answer hwrite _)
    | some =>
      simp only [streamOnData_error hwrite hdata hnone]
      exact books_overrun hwrite hs hsize rfl

/-- The streams a GOAWAY frame ends hold nothing. -/
def GoAwayFits (ctx : Context) (bs : Bytes) (n : ℕ) : Prop :=
  ctx.isServer = true ∨ ∀ last, loadUint32 (bs.drop (n - 8)) = some last →
    ∀ x ∈ ctx.pendingStreams, toInt32 last.1 = 0 ∨ toInt32 last.1 < x.1 → x.2.deferredWindowUpdate = 0

theorem books_onGoAway (hr : ctx.onGoAway h bs = some r)
    (hfits : ctx.GoAwayFits bs h.payloadSize) : Books ctx.ledger r.ctx.ledger 0 := by
  rcases onGoAway_cases hr with ⟨e, rfl, -⟩ | ⟨last, code, -, hlast, -, -, hctx⟩
  · exact Books.refl _
  · rw [hctx]
    split_ifs with hserver
    · exact Books.refl _
    · have hbooks := Ledger.books_filter (L := ctx.ledger) (fun x => ¬ (toInt32 last.1 = 0 ∨ toInt32 last.1 < x.1))
        fun x hx hp => by
          obtain ⟨y, hy, rfl⟩ := mem_map.1 hx
          exact (hfits.resolve_left hserver) last hlast y hy (not_not.1 (of_decide_eq_false hp))
      rw [removeGoAwayStreams_eq]
      simp only [ledger, filter_map] at hbooks ⊢
      exact hbooks

theorem shiftStreams_deferred (diff : ℤ) (streams : List (ℕ × Stream)) :
    ((shiftStreams diff streams).2.map fun x => (x.1, x.2.deferredWindowUpdate)) =
      streams.map fun x => (x.1, x.2.deferredWindowUpdate) := by
  induction streams with
  | nil => rfl
  | cons x streams ih =>
    unfold shiftStreams
    simp only
    split_ifs
    · rw [map_cons, ih]
      rfl
    · rfl

theorem shiftAll_deferred (diff : ℤ) (streams : List (ℕ × Stream)) :
    ((shiftAll diff streams).2.map fun x => (x.1, x.2.deferredWindowUpdate)) =
      streams.map fun x => (x.1, x.2.deferredWindowUpdate) := by
  unfold shiftAll
  split_ifs
  · exact shiftStreams_deferred diff streams
  · rfl

theorem books_applySettings (hwrite : ∀ n, env.write n = true) {L : Ledger} (hL : L = ctx.ledger) (old : ℕ)
    (rest : Bytes) : Books L (ctx.applySettings env old rest).ctx.ledger 0 := by
  subst hL
  have hshift : { ctx with pendingStreams :=
      (shiftAll (ctx.remoteSettings.streamWindowSize - old) ctx.pendingStreams).2 }.ledger = ctx.ledger := by
    simp only [ledger, shiftAll_deferred]
  have hack : Books _ (Context.writeAck env { ctx with pendingStreams :=
      (shiftAll (ctx.remoteSettings.streamWindowSize - old) ctx.pendingStreams).2 } [.settingsAck]).2.ledger 0 :=
    books_writeAck hwrite rfl
  rw [hshift] at hack
  unfold applySettings
  simp only
  split_ifs
  · exact .of_eq hshift
  · split <;> rename_i heq <;> rw [heq] at hack <;> exact hack

theorem books_onSettings (hwrite : ∀ n, env.write n = true)
    (hr : ctx.onSettings env h bs = some r) : Books ctx.ledger r.ctx.ledger 0 := by
  unfold onSettings at hr
  split_ifs at hr
  · cases hr
    exact Books.refl _
  · cases hr
    exact Books.refl _
  · cases hr
    -- the local settings are acknowledged
    exact fun hsound => ⟨⟨hsound.ready, hsound.unackWindow, hsound.unackWindow, hsound.next, hsound.conn, hsound.nodup,
      hsound.nonzero, hsound.streams⟩, (add_zero _).symm⟩
  all_goals
    obtain ⟨q, -, rfl⟩ := Option.map_eq_some_iff.1 hr
    split_ifs
    · exact Books.refl _
    · exact books_applySettings hwrite (by rfl) _ _

theorem books_onWindowUpdate (hr : ctx.onWindowUpdate h bs = some r) : Books ctx.ledger r.ctx.ledger 0 := by
  unfold onWindowUpdate at hr
  by_cases hsize : h.payloadSize ≠ 4
  · rw [if_pos hsize] at hr
    cases hr
    exact Books.refl _
  rw [if_neg hsize] at hr
  obtain ⟨⟨inc, rest⟩, -, rfl⟩ := Option.map_eq_some_iff.1 hr
  dsimp only
  split_ifs
  · exact Books.refl _
  · exact Books.refl _
  · exact Books.refl _
  · cases hs : ctx.findStream h.streamId with
    | none => exact Books.refl _
    | some s =>
      have hset := lookup_of_findStream hs
      dsimp only
      split_ifs <;> exact books_setStream hset

/-- A frame whose credit is conserved: DATA is not padded, of a stream, and taken; GOAWAY ends no stream that holds
something. -/
def FrameCredits (env : Env) (ctx : Context) (type : FrameType) (h : FrameHead) (bs : Bytes) : Prop :=
  match type with
  | .data => h.padded = false ∧ h.streamId ≠ 0 ∧ (h.payloadSize ≠ 0 → env.onBody = true)
  | .goaway => ctx.GoAwayFits bs h.payloadSize
  | _ => True

/-- What a frame adds to the length received. -/
def flowControlled (type : FrameType) (h : FrameHead) : ℕ := if type = .data then h.payloadSize else 0

/-- **A frame and its answer.** -/
theorem books_handle (hwrite : ∀ n, env.write n = true) {type : FrameType}
    (hr : ctx.handle env type h bs = some r) (hsize : h.payloadSize < 16777216)
    (hcredits : ctx.FrameCredits env type h bs) :
    Books ctx.ledger (r.ctx.answer env r.result).2.ledger (flowControlled type h) := by
  cases type with
  | data => exact books_onData hwrite hr hcredits.1 hcredits.2.1 hsize hcredits.2.2
  | headers => exact ((books_kept hwrite).onHeaders hr).trans_zero (books_answer hwrite _)
  | priority | pushPromise =>
    cases hr
    exact (Books.refl _).trans_zero (books_answer hwrite _)
  | rstStream => exact ((books_kept hwrite).onResetStream hr).trans_zero (books_answer hwrite _)
  | settings => exact (books_onSettings hwrite hr).trans_zero (books_answer hwrite _)
  | ping =>
    cases hr
    exact ((books_kept hwrite).onPing h bs).trans_zero (books_answer hwrite _)
  | goaway => exact (books_onGoAway hr hcredits).trans_zero (books_answer hwrite _)
  | windowUpdate => exact (books_onWindowUpdate hr).trans_zero (books_answer hwrite _)
  | continuation => exact ((books_kept hwrite).onContinuation hr).trans_zero (books_answer hwrite _)

end Context

open Option Settings
open Hpack (Bytes HPacker Header HPackOptions)
open Messenger (ParseError)

namespace Context

variable {env : Env} {ctx ctx' : Context}

/-! ### Requests and responses -/

theorem books_pack {L : Ledger} (hL : L = ctx.ledger) (headers trailers data : Bytes) (streamId : ℕ) :
    Books L (ctx.pack headers trailers data streamId).2.ledger 0 := by
  subst hL
  intro hsound
  obtain ⟨hconn, hconn'⟩ : 0 ≤ ctx.deferredWindowUpdate ∧ ctx.deferredWindowUpdate ≤ 1073741823 := hsound.conn
  unfold pack releaseDeferredWindowUpdate
  by_cases hpos : 0 < ctx.deferredWindowUpdate
  · simp only [if_pos hpos]
    have hledger : { ctx with
        deferredWindowUpdate := 0
        sent := ctx.sent ++ [Sent.windowUpdate 0 (toUint32 ctx.deferredWindowUpdate)] }.ledger = ctx.ledger.release 0 := by
      simp [ledger, Ledger.release, toUint32_eq (show 0 ≤ ctx.deferredWindowUpdate ∧ _ by omega)]
    rw [hledger]
    exact Ledger.books_release ctx.ledger 0 hsound
  · simp only [if_neg hpos]
    have hzero : ctx.deferredWindowUpdate = 0 := by omega
    have hledger : { ctx with deferredWindowUpdate := 0 }.ledger = ctx.ledger := by
      simp only [ledger, hzero]
    rw [hledger]
    exact Books.refl _ hsound

variable {headers : List (Header × HPackOptions)}

variable {data : Bytes}

theorem books_sendRequestOn {L : Ledger} (hL : L = ctx.ledger) {id : ℕ} (hid : id ≠ 0)
    {r : SendStatus × List Frame × Context}
    (hr : ctx.sendRequestOn id headers data = some r) : Books L r.2.2.ledger 0 := by
  subst hL
  have hinsert : Books ctx.ledger _ 0 :=
    @books_tryToInsertStream { ctx with remoteWindowLeft := (ctx.debit ctx.initStream data).2.2 } id hid
      { ctx.initStream with remoteWindowLeft := (ctx.debit ctx.initStream data).2.1 } rfl
  unfold sendRequestOn at hr
  simp only at hr
  split_ifs at hr
  · cases hr
    exact Books.refl _
  · split at hr <;> rename_i heq <;> rw [heq] at hinsert
    · obtain ⟨p, -, rfl⟩ := map_eq_some_iff.1 hr
      exact hinsert.trans_zero (books_pack (by rfl) _ _ _ _)
    · cases hr
      exact hinsert
    · cases hr
      exact hinsert

theorem books_sendRequest {canceled : Bool}
    {r : SendStatus × List Frame × Context} (hr : ctx.sendRequest canceled headers data = some r) :
    Books ctx.ledger r.2.2.ledger 0 := by
  intro hsound
  unfold sendRequest at hr
  split_ifs at hr
  · cases hr
    exact Books.refl _ hsound
  · cases hr
    exact Books.refl _ hsound
  · cases hr
    exact Books.refl _ hsound
  · have hnext : 0 < ctx.lastSentStreamId := hsound.next
    have hid : Books ctx.ledger { ctx with lastSentStreamId := ctx.lastSentStreamId + 2 }.ledger 0 := fun h =>
      ⟨{ h with next := Nat.succ_pos _ }, (add_zero _).symm⟩
    exact hid.trans_zero (books_sendRequestOn rfl (by omega) hr) hsound

theorem books_sendResponse {trailers : List (Header × HPackOptions)} {streamId : ℕ}
    {r : List Frame × Context} (hr : ctx.sendResponse headers trailers data streamId = some r) :
    Books ctx.ledger r.2.ledger 0 := by
  unfold sendResponse at hr
  split at hr
  · cases hr
    refine .of_eq ?_
    simp [ledger, Sent.credit]
  · obtain ⟨p, -, hr⟩ := bind_eq_some_iff.1 hr
    obtain ⟨q, -, rfl⟩ := map_eq_some_iff.1 hr
    exact books_pack (by rfl) _ _ _ _

theorem books_clearAbandonedStreams (hwrite : ∀ n, env.write n = true) :
    Books ctx.ledger (ctx.clearAbandonedStreams env).ledger 0 := by
  unfold clearAbandonedStreams
  induction ctx.abandonedStreams with
  | nil => exact Books.refl _
  | cons streamId ids ih => exact ih.trans_zero (books_removeStreamAndDeferWU hwrite streamId)

/-! ### Runs -/

/-- The length of a DATA frame that is received. -/
def received (ctx : Context) : Op → ℕ
  | .consume _ bs =>
    if ctx.connState = .ready then
      match consumeFrameHead ctx.localSettings.maxFrameSize bs with
      | .ok (h, _) => ((findFrameHandler h.type).map fun type => flowControlled type h).getD 0
      | .error _ => 0
    else 0
  | _ => 0

/-- The credit of a step is conserved. -/
def OpCredits (ctx : Context) : Op → Prop
  | .consume env bs => (∀ n, env.write n = true) ∧ ∀ h rest type,
      consumeFrameHead ctx.localSettings.maxFrameSize bs = .ok (h, rest) → findFrameHandler h.type = some type →
        ctx.FrameCredits env type h rest
  | .clearAbandonedStreams env => ∀ n, env.write n = true
  | _ => True

theorem books_consume {bs : Bytes} {r : ParseResult × Context × Bytes} (hr : ctx.consume env bs = some r)
    (hcredits : ctx.OpCredits (.consume env bs)) :
    Books ctx.ledger r.2.1.ledger (ctx.received (.consume env bs)) := by
  intro hsound
  have hready : ctx.connState = .ready := hsound.ready
  unfold consume at hr
  simp only [hready] at hr
  simp only [received, hready, if_true]
  cases hhead : consumeFrameHead ctx.localSettings.maxFrameSize bs with
  | error =>
    rw [hhead] at hr
    cases hr
    exact Books.refl _ hsound
  | ok x =>
    obtain ⟨h, rest⟩ := x
    rw [hhead] at hr
    simp only at hr ⊢
    cases htype : findFrameHandler h.type with
    | none =>
      rw [htype] at hr
      cases hr
      exact Books.refl _ hsound
    | some type =>
      rw [htype] at hr
      obtain ⟨q, hq, rfl⟩ := map_eq_some_iff.1 hr
      have hsize := (consumeFrameHead_ok hhead).2.2.1
      exact books_handle hcredits.1 hq hsize (hcredits.2 h rest type hhead htype) hsound

theorem books_step {op : Op} (hcredits : ctx.OpCredits op) (hstep : ctx.step op = some ctx') :
    Books ctx.ledger ctx'.ledger (ctx.received op) := by
  cases op with
  | consume =>
    obtain ⟨r, hr, rfl⟩ := map_eq_some_iff.1 hstep
    exact books_consume hr hcredits
  | sendRequest =>
    obtain ⟨r, hr, rfl⟩ := map_eq_some_iff.1 hstep
    exact books_sendRequest hr
  | sendResponse =>
    obtain ⟨r, hr, rfl⟩ := map_eq_some_iff.1 hstep
    exact books_sendResponse hr
  | addAbandonedStream =>
    cases hstep
    exact Books.refl _
  | clearAbandonedStreams =>
    cases hstep
    exact books_clearAbandonedStreams hcredits

/-- A step of a run, with the length received so far. -/
def creditStep (s : Option (Context × ℕ)) (op : Op) : Option (Context × ℕ) :=
  s.bind fun x => (x.1.step op).map fun ctx => (ctx, x.2 + x.1.received op)

/-- The condition on a step of a run. -/
def StepCredits (s : Option (Context × ℕ)) (op : Op) : Prop := ∀ x, s = some x → x.1.OpCredits op

/-- A connection that has just become ready. -/
structure Fresh (ctx : Context) : Prop where
  ready : ctx.connState = .ready
  window : ctx.localSettings.streamWindowSize ≤ maxWindowSize
  unackWindow : ctx.unackLocalSettings.streamWindowSize ≤ maxWindowSize
  next : 0 < ctx.lastSentStreamId
  deferred : ctx.deferredWindowUpdate = 0
  streams : ctx.pendingStreams = []

theorem fresh_of_preface {isServer : Bool} {settings : Settings} {ctx ctx' : Context} {bs rest : Bytes}
    (hinit : init isServer settings = some ctx) (hvalid : settings.IsValid)
    (hpreface : ctx.consumePreface env bs = (.ok false, ctx', rest)) : Fresh ctx' := by
  obtain ⟨p, -, rfl⟩ := map_eq_some_iff.1 hinit
  unfold consumePreface at hpreface
  split_ifs at hpreface
  · cases (Prod.ext_iff.1 hpreface).1
  · cases (Prod.ext_iff.1 hpreface).1
  · split at hpreface <;> rename_i hack
    · obtain ⟨-, hctx⟩ := Prod.ext_iff.1 hpreface
      obtain ⟨rfl, -⟩ := Prod.ext_iff.1 hctx
      unfold Context.writeAck at hack
      split_ifs at hack
      · obtain ⟨-, rfl⟩ := Prod.ext_iff.1 hack
        exact ⟨rfl, by simp [maxWindowSize], hvalid.streamWindowSize, by simp, rfl, rfl⟩
      · cases (Prod.ext_iff.1 hack).1
    · cases (Prod.ext_iff.1 hpreface).1
  · obtain ⟨-, hctx⟩ := Prod.ext_iff.1 hpreface
    obtain ⟨rfl, -⟩ := Prod.ext_iff.1 hctx
    exact ⟨rfl, by simp [maxWindowSize], hvalid.streamWindowSize, by simp, rfl, rfl⟩

theorem Fresh.sound (h : Fresh ctx) : ctx.ledger.Sound := by
  refine ⟨h.ready, h.window, h.unackWindow, h.next, ?_, ?_, ?_, ?_⟩ <;> simp [ledger, h.deferred, h.streams]

/-- The increments of the connection's window that were written. -/
def increments (ctx : Context) : ℤ := (ctx.sent.map Sent.credit).sum

/-- **Credit is conserved** in every run whose steps meet the condition: the length of the DATA
frames received is what was given back for the connection, with what it and its streams hold. -/
theorem credit_returned (h : Fresh ctx) (ops : List Op) (hcredits : Lib.Along creditStep StepCredits (some (ctx, 0)) ops) :
    ∀ ctx' n, Lib.run creditStep (some (ctx, 0)) ops = some (ctx', n) →
      (n : ℤ) = ctx'.increments - ctx.increments + ctx'.deferredWindowUpdate +
        (ctx'.pendingStreams.map fun x => x.2.deferredWindowUpdate).sum := by
  have hbooks : ∀ x, Lib.run creditStep (some (ctx, 0)) ops = some x → Books ctx.ledger x.1.ledger x.2 := by
    refine Lib.run_invariant (I := fun s => ∀ x, s = some x → Books ctx.ledger x.1.ledger x.2)
      (fun s op hs hop x hx => ?_) ops (some (ctx, 0)) (fun x hx => Option.some.inj hx ▸ Books.refl _) hcredits
    obtain ⟨x₀, rfl, hx⟩ := bind_eq_some_iff.1 hx
    obtain ⟨c, hc, rfl⟩ := map_eq_some_iff.1 hx
    exact (hs x₀ rfl).trans (books_step (hop x₀ rfl) hc)
  intro ctx' n hrun
  obtain ⟨-, htotal⟩ := hbooks _ hrun h.sound
  have hstart : ctx.ledger.total = ctx.increments := by
    simp [Ledger.total, ledger, increments, h.deferred, h.streams]
  rw [hstart] at htotal
  simp only [Ledger.total, ledger, List.map_map] at htotal
  unfold increments at htotal ⊢
  simp only [Function.comp_def] at htotal
  omega

/-- A client that gets three bytes of data of a stream it does not know. -/
def threeBytes : List Op := [.consume .agreeable [0, 0, 3, 0, 0, 0, 0, 0, 1, 7, 7, 7]]

/-- They are held for the connection. -/
theorem three_bytes_held : ∃ ctx, (init false {}).map (fun c => (c.consumePreface .agreeable []).2.1) = some ctx ∧
    ∀ ctx' n, Lib.run creditStep (some (ctx, 0)) threeBytes = some (ctx', n) →
      (n : ℤ) = ctx'.increments - ctx.increments + ctx'.deferredWindowUpdate +
        (ctx'.pendingStreams.map fun x => x.2.deferredWindowUpdate).sum := by
  obtain ⟨c, hc⟩ := isSome_iff_exists.1 init_isSome
  have hframe : consumeFrameHead 16384 [0, 0, 3, 0, 0, 0, 0, 0, 1, 7, 7, 7] = .ok (⟨3, 0, 0, 1⟩, [7, 7, 7]) := by
    decide +kernel
  have hvalid : IsValid {} := ⟨by decide, by decide, by decide, by decide, by decide, by decide⟩
  have hclient : c.consumePreface .agreeable [] = (.ok false, (c.consumePreface .agreeable []).2.1, []) := by
    obtain ⟨p, -, rfl⟩ := map_eq_some_iff.1 hc
    rfl
  have hfresh := fresh_of_preface hc hvalid hclient
  have hcredits : Lib.Along creditStep StepCredits (some ((c.consumePreface .agreeable []).2.1, 0)) threeBytes := by
    obtain ⟨p, -, rfl⟩ := map_eq_some_iff.1 hc
    refine ⟨fun x hx => ?_, trivial⟩
    cases hx
    refine ⟨fun _ => rfl, fun h rest type hhead htype => ?_⟩
    obtain ⟨rfl, rfl⟩ := Prod.ext_iff.1 (Except.ok.inj (hframe.symm.trans hhead))
    cases htype
    exact ⟨rfl, by decide, fun _ => rfl⟩
  exact ⟨_, by rw [hc]; rfl, credit_returned hfresh _ hcredits⟩

/-- **Padding is not given back**: of a DATA frame of three bytes, one of data and one of padding,
the stream holds one. -/
theorem padding_lost : (Lib.run creditStep ((init false {}).map fun ctx => (ctx, 0))
      [.consume .agreeable [], .sendRequest false [] [], .consume .agreeable [0, 0, 3, 0, 8, 0, 0, 0, 1, 1, 7, 0]]).map
      (fun x => (x.2, x.1.increments, x.1.deferredWindowUpdate,
        x.1.pendingStreams.map fun y => (y.1, y.2.deferredWindowUpdate))) = some (3, 0, 0, [(1, 1)]) := by
  decide +kernel

end Context
end Brpc.Http2
