/-
# The ledger of received data

What a connection has received and not yet given back is held in `_deferred_window_update`
(`Ledger`).  `Books L L' n` says that the ledger has taken up `n` bytes on the way from `L` to
`L'`.
-/

import Brpc.Lib.Assoc
import Brpc.Http2.Windows

namespace Brpc.Http2

open List

/-- What a frame gives back to the peer for the connection. -/
def Sent.credit : Sent → ℤ
  | .windowUpdate 0 increment => increment
  | _ => 0

@[simp] theorem Sent.credit_conn (increment : ℕ) : (Sent.windowUpdate 0 increment).credit = increment := rfl

theorem Sent.credit_stream {streamId : ℕ} (hid : streamId ≠ 0) (increment : ℕ) :
    (Sent.windowUpdate streamId increment).credit = 0 := by
  unfold Sent.credit
  split
  next heq =>
    exact absurd (Sent.windowUpdate.inj heq).1 hid
  · rfl

/-- What has been received and is owed to the peer. -/
structure Ledger where
  state : ConnectionState
  /-- `stream_window_size` of the local settings, and of those not yet acknowledged -/
  window : ℕ
  unackWindow : ℕ
  /-- `_last_sent_stream_id`, the next stream of a client -/
  next : ℕ
  /-- `_deferred_window_update` of the connection and of the streams -/
  conn : ℤ
  streams : List (ℕ × ℤ)
  /-- the increments of the connection that were sent -/
  emitted : ℤ

namespace Ledger

/-- Given back, or held. -/
def total (L : Ledger) : ℤ := L.emitted + L.conn + (L.streams.map Prod.snd).sum

/-- The connection is ready, streams are distinct, and what they hold is bounded. -/
structure Sound (L : Ledger) : Prop where
  ready : L.state = .ready
  window : L.window ≤ 2147483647
  unackWindow : L.unackWindow ≤ 2147483647
  next : 0 < L.next
  conn : 0 ≤ L.conn ∧ L.conn ≤ 1073741823
  nodup : (L.streams.map Prod.fst).Nodup
  nonzero : ∀ x ∈ L.streams, x.1 ≠ 0
  streams : ∀ x ∈ L.streams, 0 ≤ x.2 ∧ x.2 ≤ 2147483647

/-- A sound ledger has taken up `n` bytes, and is sound. -/
def Books (L L' : Ledger) (n : ℤ) : Prop := L.Sound → L'.Sound ∧ L'.total = L.total + n

theorem Books.refl (L : Ledger) : Books L L 0 := fun h => ⟨h, (add_zero _).symm⟩

variable {L : Ledger} {n : ℤ}

theorem Books.trans {L' L'' : Ledger} {m : ℤ} (h : Books L L' n) (h' : Books L' L'' m) : Books L L'' (n + m) := by
  intro hsound
  obtain ⟨hsound', htotal⟩ := h hsound
  obtain ⟨hsound'', htotal'⟩ := h' hsound'
  exact ⟨hsound'', by rw [htotal', htotal, add_assoc]⟩

theorem Books.trans_zero {L' L'' : Ledger} (h : Books L L' n) (h' : Books L' L'' 0) : Books L L'' n :=
  add_zero n ▸ h.trans h'

/-! ### What moves credit -/

/-- `DeferWindowUpdate`: the connection holds `size` more, or gives all back. -/
def defer (L : Ledger) (size : ℤ) : Ledger :=
  if size ≤ 0 then L
  else if (L.window / 2 : ℕ) ≤ L.conn + size then { L with conn := 0, emitted := L.emitted + (L.conn + size) }
  else { L with conn := L.conn + size }

theorem books_defer (L : Ledger) {size : ℤ} (hsize : 0 ≤ size) : Books L (L.defer size) size := by
  intro h
  have hwindow := h.window
  obtain ⟨hconn, -⟩ := h.conn
  unfold defer
  split_ifs with hzero hhalf
  · obtain rfl : size = 0 := by omega
    exact ⟨h, (add_zero _).symm⟩
  · refine ⟨{ h with conn := ?_ }, ?_⟩
    · simp
    · simp only [total]
      omega
  · refine ⟨{ h with conn := ?_ }, ?_⟩
    · simp only
      omega
    · simp only [total]
      omega

/-- A stream that holds `d` goes, and the connection takes that over. -/
def remove (L : Ledger) (streamId : ℕ) (d : ℤ) : Ledger :=
  { L with streams := Lib.assocErase streamId L.streams }.defer d

variable {d : ℤ} {streamId : ℕ}

theorem erase_total (h : L.Sound) (hd : L.streams.lookup streamId = some d) :
    { L with streams := Lib.assocErase streamId L.streams }.total = L.total - d := by
  simp only [total, Lib.sum_assocErase h.nodup hd]
  omega

theorem Sound.filter (h : L.Sound) (p : ℕ × ℤ → Bool) : { L with streams := L.streams.filter p }.Sound :=
  { h with
    nodup := h.nodup.sublist (filter_sublist.map _)
    nonzero := fun x hx => h.nonzero x (mem_filter.1 hx).1
    streams := fun x hx => h.streams x (mem_filter.1 hx).1 }

theorem Sound.erase (h : L.Sound) (streamId : ℕ) : { L with streams := Lib.assocErase streamId L.streams }.Sound :=
  h.filter _

theorem books_remove_add (hd : L.streams.lookup streamId = some d) (hn : 0 ≤ n) :
    Books L (L.remove streamId (d + n)) n := by
  intro h
  obtain ⟨l₁, l₂, hl, -⟩ := lookup_eq_some_iff.1 hd
  have hnonneg : 0 ≤ d := (h.streams (streamId, d) (by rw [hl]; simp)).1
  obtain ⟨hsound, htotal⟩ := books_defer _ (add_nonneg hnonneg hn) (h.erase streamId)
  exact ⟨hsound, by rw [remove, htotal, erase_total h hd]; omega⟩

theorem books_remove (hd : L.streams.lookup streamId = some d) : Books L (L.remove streamId d) 0 := by
  simpa using books_remove_add hd le_rfl

/-! ### Data -/

theorem Sound.set (h : L.Sound) (streamId : ℕ) (hd : 0 ≤ d ∧ d ≤ 2147483647) :
    { L with streams := Lib.assocSet streamId d L.streams }.Sound := by
  refine { h with nodup := ?_, nonzero := fun x hx => ?_, streams := fun x hx => ?_ }
  · simp only [Lib.assocSet_keys]
    exact h.nodup
  · obtain ⟨y, hy, rfl⟩ := mem_map.1 hx
    split_ifs
    · exact h.nonzero y hy
    · exact h.nonzero y hy
  · obtain ⟨y, hy, rfl⟩ := mem_map.1 hx
    split_ifs
    · exact hd
    · exact h.streams y hy

/-- All that the connection holds is given back, with `acc` bytes of a stream. -/
def release (L : Ledger) (acc : ℤ) : Ledger := { L with conn := 0, emitted := L.emitted + (acc + L.conn) }

theorem books_release (L : Ledger) (acc : ℤ) : Books L (L.release acc) acc := by
  intro h
  refine ⟨{ h with conn := ?_ }, ?_⟩
  · simp [release]
  · simp only [release, total]
    omega

theorem books_set {d' : ℤ} (hd : L.streams.lookup streamId = some d) (hd' : 0 ≤ d' ∧ d' ≤ 2147483647) :
    Books L { L with streams := Lib.assocSet streamId d' L.streams } (d' - d) := by
  intro h
  refine ⟨h.set streamId hd', ?_⟩
  simp only [total, Lib.sum_assocSet h.nodup hd d']
  omega

theorem books_insert (hid : streamId ≠ 0) (hnew : L.streams.lookup streamId = none) :
    Books L { L with streams := L.streams ++ [(streamId, 0)] } 0 := by
  intro h
  have hkeys : streamId ∉ L.streams.map Prod.fst := by
    intro hmem
    obtain ⟨x, hx, rfl⟩ := mem_map.1 hmem
    exact absurd (lookup_eq_none_iff.1 hnew x hx) (by simp)
  refine ⟨{ h with nodup := ?_, nonzero := ?_, streams := ?_ }, ?_⟩
  · rw [map_append]
    exact concat_eq_append ▸ Nodup.concat hkeys h.nodup
  · exact forall_mem_append.2 ⟨h.nonzero, forall_mem_singleton.2 hid⟩
  · exact forall_mem_append.2 ⟨h.streams, forall_mem_singleton.2 (by simp)⟩
  · simp [total]

theorem books_filter (p : ℕ × ℤ → Bool) (hp : ∀ x ∈ L.streams, p x = false → x.2 = 0) :
    Books L { L with streams := L.streams.filter p } 0 := by
  intro h
  refine ⟨h.filter p, ?_⟩
  simp only [total, Lib.sum_filter_snd p hp, add_zero]

end Ledger

/-! ## Received data is given back -/

open Ledger
open Hpack (Bytes)
open Ledger (Books)

namespace Context

variable {env : Env} {ctx : Context}

/-- The ledger of a connection. -/
def ledger (ctx : Context) : Ledger where
  state := ctx.connState
  window := ctx.localSettings.streamWindowSize
  unackWindow := ctx.unackLocalSettings.streamWindowSize
  next := ctx.lastSentStreamId
  conn := ctx.deferredWindowUpdate
  streams := ctx.pendingStreams.map fun x => (x.1, x.2.deferredWindowUpdate)
  emitted := (ctx.sent.map Sent.credit).sum

theorem lookup_ledger (streamId : ℕ) :
    ctx.ledger.streams.lookup streamId = (ctx.findStream streamId).map (·.deferredWindowUpdate) := by
  unfold ledger findStream
  induction ctx.pendingStreams with
  | nil => rfl
  | cons x streams ih =>
    obtain ⟨id, s⟩ := x
    simp only [map_cons, lookup_cons]
    cases streamId == id with
    | true => rfl
    | false => exact ih

theorem ledger_setStream (streamId : ℕ) (s : Stream) : (ctx.setStream streamId s).ledger =
    { ctx.ledger with streams := Lib.assocSet streamId s.deferredWindowUpdate ctx.ledger.streams } := by
  simp only [ledger, setStream, Lib.assocSet, map_map]
  congr 1
  refine map_congr_left fun x _ => ?_
  simp only [Function.comp_apply]
  split_ifs <;> rfl

theorem ledger_eraseStream (streamId : ℕ) : (ctx.eraseStream streamId).ledger =
    { ctx.ledger with streams := Lib.assocErase streamId ctx.ledger.streams } := by
  simp only [ledger, eraseStream, Lib.assocErase, filter_map]
  rfl

variable {s : Stream} {streamId : ℕ}

theorem findStream_setStream (hs : ctx.findStream streamId = some s) (s' : Stream) :
    (ctx.setStream streamId s').findStream streamId = some s' := by
  obtain ⟨l₁, l₂, hl, hnot⟩ := lookup_eq_some_iff.1 hs
  refine lookup_eq_some_iff.2
    ⟨l₁.map fun x => if x.1 = streamId then (x.1, s') else x,
      l₂.map fun x => if x.1 = streamId then (x.1, s') else x, ?_, ?_⟩
  · simp [setStream, hl]
  · intro x hx
    obtain ⟨y, hy, rfl⟩ := mem_map.1 hx
    have := hnot y hy
    split_ifs <;> exact this

theorem writeAck_eq (hwrite : ∀ n, env.write n = true) (frames : List Sent) :
    ctx.writeAck env frames = (true, { ctx with sent := ctx.sent ++ frames, writes := ctx.writes + 1 }) := by
  rw [writeAck, if_pos (hwrite _)]

theorem ledger_sent (frames : List Sent) : { ctx with sent := ctx.sent ++ frames, writes := ctx.writes + 1 }.ledger =
      { ctx.ledger with emitted := ctx.ledger.emitted + (frames.map Sent.credit).sum } := by
  simp [ledger]

theorem toUint32_eq {v : ℤ} (h : 0 ≤ v ∧ v ≤ 4294967295) : (toUint32 v : ℤ) = v := by
  unfold toUint32
  omega

/-! ### What moves credit -/

section

variable (hwrite : ∀ n, env.write n = true)
include hwrite

theorem ledger_deferWindowUpdate (hsound : ctx.ledger.Sound) {size : ℤ}
    (hsize : size ≤ 3221225472) : (ctx.deferWindowUpdate env size).ledger = ctx.ledger.defer size := by
  obtain ⟨hconn, hconn'⟩ : 0 ≤ ctx.deferredWindowUpdate ∧ ctx.deferredWindowUpdate ≤ 1073741823 := hsound.conn
  unfold deferWindowUpdate defer
  by_cases hzero : size ≤ 0
  · rw [if_pos hzero, if_pos hzero]
  rw [if_neg hzero, if_neg hzero]
  simp only [writeAck_eq hwrite]
  have hacc : 0 < ctx.deferredWindowUpdate + size := by omega
  by_cases hhalf : ((ctx.localSettings.streamWindowSize / 2 : ℕ) : ℤ) ≤ ctx.deferredWindowUpdate + size
  · rw [if_pos hhalf, if_pos hacc, if_pos (show (ctx.ledger.window / 2 : ℕ) ≤ ctx.ledger.conn + size from hhalf)]
    simp [ledger, Sent.credit, toUint32_eq (show 0 ≤ ctx.deferredWindowUpdate + size ∧ _ by omega)]
  · rw [if_neg hhalf, if_neg (show ¬ (ctx.ledger.window / 2 : ℕ) ≤ ctx.ledger.conn + size from hhalf)]
    rfl

theorem books_deferWindowUpdate {size : ℤ} (hnonneg : 0 ≤ size)
    (hsize : size ≤ 3221225472) : Books ctx.ledger (ctx.deferWindowUpdate env size).ledger size := by
  intro hsound
  rw [ledger_deferWindowUpdate hwrite hsound hsize]
  exact books_defer _ hnonneg hsound

section

variable (hs : ctx.findStream streamId = some s)
include hs

theorem ledger_removeStreamAndDeferWU (hsize : s.deferredWindowUpdate ≤ 3221225472)
    (hsound : { ctx.ledger with streams := Lib.assocErase streamId ctx.ledger.streams }.Sound) :
    (ctx.removeStreamAndDeferWU env streamId).2.ledger = ctx.ledger.remove streamId s.deferredWindowUpdate := by
  unfold removeStreamAndDeferWU
  rw [hs]
  simp only
  rw [ledger_deferWindowUpdate hwrite (ledger_eraseStream streamId ▸ hsound) hsize, ledger_eraseStream]
  rfl

omit hwrite in
theorem lookup_of_findStream : ctx.ledger.streams.lookup streamId = some s.deferredWindowUpdate := by
  rw [lookup_ledger, hs]
  rfl

omit hwrite in
theorem mem_ledger : (streamId, s.deferredWindowUpdate) ∈ ctx.ledger.streams := mem_map_of_mem (findStream_mem hs)

end

theorem books_removeStreamAndDeferWU (streamId : ℕ) :
    Books ctx.ledger (ctx.removeStreamAndDeferWU env streamId).2.ledger 0 := by
  intro hsound
  cases hs : ctx.findStream streamId with
  | none =>
    rw [removeStreamAndDeferWU, hs]
    exact Books.refl _ hsound
  | some s =>
    have hle : s.deferredWindowUpdate ≤ 2147483647 := (hsound.streams _ (mem_ledger hs)).2
    rw [ledger_removeStreamAndDeferWU hwrite hs (by omega) (hsound.erase streamId)]
    exact books_remove (lookup_of_findStream hs) hsound

theorem books_writeAck {frames : List Sent}
    (hframes : (frames.map Sent.credit).sum = 0) : Books ctx.ledger (ctx.writeAck env frames).2.ledger 0 := by
  rw [writeAck_eq hwrite]
  have hledger : ctx.ledger = { ctx with sent := ctx.sent ++ frames, writes := ctx.writes + 1 }.ledger := by
    rw [ledger_sent, hframes, add_zero]
  rw [← hledger]
  exact Books.refl _

end

/-- RST_STREAM was written. -/
def reset (ctx : Context) (streamId : ℕ) (e : H2Error) : Context :=
  { ctx with sent := ctx.sent ++ [.rstStream streamId e], writes := ctx.writes + 1 }

theorem answer_stream (hwrite : ∀ n, env.write n = true) (e : H2Error) (hid : streamId ≠ 0) :
    (ctx.answer env (.error e streamId)).2 = ((ctx.reset streamId e).removeStreamAndDeferWU env streamId).2 := by
  unfold answer reset
  simp only [if_pos hid, writeAck_eq hwrite]
  split <;> rename_i heq <;> rw [heq]

theorem ledger_reset (streamId : ℕ) (e : H2Error) : (ctx.reset streamId e).ledger = ctx.ledger := by
  rw [reset, ledger_sent]
  simp [Sent.credit]

theorem books_answer (hwrite : ∀ n, env.write n = true) (result : H2Result) :
    Books ctx.ledger (ctx.answer env result).2.ledger 0 := by
  cases result with
  | ok => exact Books.refl _
  | error e streamId =>
    by_cases hid : streamId = 0
    · have hack : Books ctx.ledger (ctx.writeAck env [.goaway ctx.lastReceivedStreamId e]).2.ledger 0 :=
        books_writeAck hwrite rfl
      unfold answer
      simp only [if_neg (not_not.2 hid)]
      rw [writeAck_eq hwrite] at hack ⊢
      exact hack
    · have hremove := @books_removeStreamAndDeferWU env (ctx.reset streamId e) hwrite streamId
      rw [ledger_reset] at hremove
      rwa [answer_stream hwrite e hid]

/-! ### DATA -/

/-- What a stream writes once it holds its share of the window. -/
def released (ctx : Context) (streamId : ℕ) (acc : ℤ) : Context :=
  { ctx with
    deferredWindowUpdate := 0
    sent := ctx.sent ++
      [.windowUpdate streamId (toUint32 acc), .windowUpdate 0 (toUint32 (acc + ctx.deferredWindowUpdate))]
    writes := ctx.writes + 1 }

theorem ledger_released (hsound : ctx.ledger.Sound) (hid : streamId ≠ 0) {acc : ℤ}
    (hacc : 0 ≤ acc ∧ acc ≤ 2147483647) : (ctx.released streamId acc).ledger = ctx.ledger.release acc := by
  obtain ⟨hconn, hconn'⟩ : 0 ≤ ctx.deferredWindowUpdate ∧ ctx.deferredWindowUpdate ≤ 1073741823 := hsound.conn
  have hcut : (toUint32 (acc + ctx.deferredWindowUpdate) : ℤ) = _ := toUint32_eq (by omega)
  simp only [released, ledger, release, map_append, map_cons, map_nil, sum_append,
    sum_cons, sum_nil, Sent.credit_stream hid, Sent.credit_conn, hcut, zero_add, add_zero]

variable {hasData : Bool}

theorem streamOnData_eq (hwrite : ∀ n, env.write n = true) (s : Stream) (streamId fragSize : ℕ)
    (hbody : hasData = true → env.onBody = true) : ctx.streamOnData env s streamId fragSize hasData =
      if (ctx.localSettings.streamWindowSize / (ctx.pendingStreams.length + 1) : ℕ) ≤
          s.deferredWindowUpdate + fragSize then
        if ctx.localSettings.streamWindowSize < s.deferredWindowUpdate + fragSize then
          (some (.flowControlError, streamId), ctx, { s with deferredWindowUpdate := s.deferredWindowUpdate + fragSize })
        else if 0 < s.deferredWindowUpdate + fragSize then
          (none, ctx.released streamId (s.deferredWindowUpdate + fragSize), { s with deferredWindowUpdate := 0 })
        else (none, ctx, { s with deferredWindowUpdate := 0 })
      else (none, ctx, { s with deferredWindowUpdate := s.deferredWindowUpdate + fragSize }) := by
  unfold streamOnData
  rw [if_neg fun h => by rw [hbody h.1] at h; exact absurd h.2 (by simp)]
  simp only [writeAck_eq hwrite, releaseDeferredWindowUpdate, released]

variable {fragSize : ℕ}

section

variable (hwrite : ∀ n, env.write n = true)
include hwrite

theorem streamOnData_error (hbody : hasData = true → env.onBody = true) {e : H2Error × ℕ}
    (h : (ctx.streamOnData env s streamId fragSize hasData).1 = some e) :
    ctx.streamOnData env s streamId fragSize hasData = (some (.flowControlError, streamId), ctx,
        { s with deferredWindowUpdate := s.deferredWindowUpdate + fragSize }) := by
  rw [streamOnData_eq hwrite s streamId fragSize hbody] at h ⊢
  split_ifs at h ⊢
  rfl

/-- DATA of a stream that is not known: what a stream of its own holds goes to the connection. -/
theorem books_unknown (hid : streamId ≠ 0) (hsize : fragSize < 16777216) (hbody : hasData = true → env.onBody = true) :
    let r := ctx.streamOnData env ctx.initStream streamId fragSize hasData
    Books ctx.ledger (r.2.1.deferWindowUpdate env r.2.2.deferredWindowUpdate).ledger fragSize := by
  intro r hsound
  have hinit : ctx.initStream.deferredWindowUpdate + (fragSize : ℤ) = fragSize := by simp [initStream]
  have hr : r = _ := streamOnData_eq hwrite ctx.initStream streamId fragSize hbody
  simp only [hinit] at hr
  have hdefer : Books ctx.ledger (ctx.deferWindowUpdate env fragSize).ledger fragSize :=
    books_deferWindowUpdate hwrite (by omega) (by omega)
  rw [hr]
  split_ifs with hshare hover hpos
  · exact hdefer hsound
  · have hrelease := books_release ctx.ledger fragSize
    rw [← ledger_released hsound hid (by omega)] at hrelease
    exact hrelease hsound
  · obtain rfl : fragSize = 0 := by omega
    exact Books.refl _ hsound
  · exact hdefer hsound

/-- DATA of a pending stream: the stream or the connection holds it, or it is given back. -/
theorem books_known (hs : ctx.findStream streamId = some s) (hbody : hasData = true → env.onBody = true)
    (hnone : (ctx.streamOnData env s streamId fragSize hasData).1 = none) :
    let r := ctx.streamOnData env s streamId fragSize hasData
    Books ctx.ledger (r.2.1.setStream streamId r.2.2).ledger fragSize := by
  intro r hsound
  have hwindow : ctx.localSettings.streamWindowSize ≤ 2147483647 := hsound.window
  have hmem := mem_ledger hs
  have hlookup := lookup_of_findStream hs
  obtain ⟨hnonneg, hle⟩ : 0 ≤ s.deferredWindowUpdate ∧ s.deferredWindowUpdate ≤ 2147483647 := hsound.streams _ hmem
  have hr : r = _ := streamOnData_eq hwrite s streamId fragSize hbody
  rw [← show r = ctx.streamOnData env s streamId fragSize hasData from rfl, hr] at hnone
  rw [hr]
  split_ifs at hnone ⊢ with hshare hover hpos
  · have hset : Books (ctx.ledger.release (s.deferredWindowUpdate + fragSize)) _ (0 - s.deferredWindowUpdate) :=
      books_set hlookup ⟨le_rfl, by decide⟩
    have hbooks := (books_release ctx.ledger (s.deferredWindowUpdate + fragSize)).trans hset
    rw [ledger_setStream, ledger_released hsound (hsound.nonzero _ hmem) (by omega)]
    rw [show s.deferredWindowUpdate + fragSize + (0 - s.deferredWindowUpdate) = (fragSize : ℤ) by omega] at hbooks
    exact hbooks hsound
  · have hbooks : Books ctx.ledger _ (0 - s.deferredWindowUpdate) := books_set hlookup ⟨le_rfl, by decide⟩
    rw [ledger_setStream]
    rw [show 0 - s.deferredWindowUpdate = (fragSize : ℤ) by omega] at hbooks
    exact hbooks hsound
  · have hdiv := Nat.div_le_self ctx.localSettings.streamWindowSize (ctx.pendingStreams.length + 1)
    have hbooks : Books ctx.ledger _ (s.deferredWindowUpdate + fragSize - s.deferredWindowUpdate) :=
      books_set hlookup (by omega)
    rw [ledger_setStream]
    rw [add_sub_cancel_left] at hbooks
    exact hbooks hsound

/-- DATA that is more than the window: the stream is reset, and what it held goes to the connection. -/
theorem books_overrun (hs : ctx.findStream streamId = some s) (hsize : fragSize < 16777216) {s' : Stream}
    (hs' : s'.deferredWindowUpdate = s.deferredWindowUpdate + fragSize) : Books ctx.ledger
      ((ctx.setStream streamId s').answer env (.error .flowControlError streamId)).2.ledger fragSize := by
  intro hsound
  have hle : s.deferredWindowUpdate ≤ 2147483647 := (hsound.streams _ (mem_ledger hs)).2
  rw [answer_stream hwrite _ (hsound.nonzero _ (mem_ledger hs))]
  have hledger : ((ctx.setStream streamId s').reset streamId .flowControlError).ledger = { ctx.ledger with
      streams := Lib.assocSet streamId (s.deferredWindowUpdate + fragSize) ctx.ledger.streams } := by
    rw [ledger_reset, ledger_setStream, hs']
  have herased : { ctx.ledger with
      streams := Lib.assocErase streamId
        (Lib.assocSet streamId (s.deferredWindowUpdate + fragSize) ctx.ledger.streams) }.Sound := by
    rw [Lib.assocErase_assocSet]
    exact hsound.erase streamId
  have hfind : ((ctx.setStream streamId s').reset streamId .flowControlError).findStream streamId = some s' :=
    findStream_setStream hs _
  rw [ledger_removeStreamAndDeferWU hwrite hfind (by omega) (by rw [hledger]; exact herased), hledger, hs', remove,
    Lib.assocErase_assocSet]
  exact books_remove_add (lookup_of_findStream hs) (by omega) hsound

end

end Context
end Brpc.Http2
