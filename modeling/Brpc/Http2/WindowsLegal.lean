/-
# Windows stay legal

`AddWindowSize` in `brpc/policy/http2_rpc_protocol.cpp` adds first and looks at the sum afterwards:
the answer is right (`addAccepted_iff`), but a window that was refused an increment has it
nevertheless.  `OnWindowUpdate`, `Consume`, and requests and responses that are sent, keep the
windows legal (`Windows`) as long as no frame overflows one: `windows_legal`.
-/

import Brpc.Http2.Windows

namespace Brpc.Http2

open List Option Settings
open Hpack (Bytes)

namespace Context

/-! ### `AddWindowSize` -/

variable {d : ℤ}

/-- **The answer of `AddWindowSize` for legal windows.**  A sum below `-(2 ^ 31 - 1)` is not refused. -/
theorem addAccepted_iff {w : ℤ} (hw : -2147483647 ≤ w ∧ w ≤ 2147483647) (hd : -2147483647 ≤ d ∧ d ≤ 2147483647) :
    addAccepted w d = true ↔ w + d ≤ 2147483647 := by
  simp only [addAccepted, bit31, highBits, Bool.and_eq_true, Bool.not_eq_true', Bool.and_eq_false_iff,
    Bool.not_eq_false', decide_eq_true_eq, decide_eq_false_iff_not]
  omega

theorem shiftStreams_eq {streams : List (ℕ × Stream)} (h : ∀ x ∈ streams, addAccepted x.2.remoteWindowLeft d = true) :
    shiftStreams d streams =
      (true, streams.map fun x => (x.1, { x.2 with remoteWindowLeft := x.2.remoteWindowLeft + d })) := by
  induction streams with
  | nil => rfl
  | cons x streams ih =>
    have hx := h x mem_cons_self
    rw [shiftStreams, ih fun y hy => h y (mem_cons_of_mem _ hy)]
    simp only [addWindowSize, hx, if_true, map_cons]

theorem shiftStreams_refused {streams : List (ℕ × Stream)}
    (h : ∃ x ∈ streams, addAccepted x.2.remoteWindowLeft d = false) : (shiftStreams d streams).1 = false := by
  induction streams with
  | nil => simp at h
  | cons x streams ih =>
    rw [shiftStreams]
    cases hx : addAccepted x.2.remoteWindowLeft d with
    | false => simp [addWindowSize, hx]
    | true =>
      obtain ⟨y, hy, hrefused⟩ := h
      rcases mem_cons.1 hy with rfl | hy
      · rw [hx] at hrefused
        cases hrefused
      · simpa [addWindowSize, hx] using ih ⟨y, hy, hrefused⟩

/-! ### The invariant -/

/-- The windows are legal, and those of streams stay so when SETTINGS shift them. -/
structure Windows (ctx : Context) : Prop where
  conn_le : ctx.remoteWindowLeft ≤ 2147483647
  le_conn : (if ctx.remoteSettingsReceived then -2147418112 else 0) ≤ ctx.remoteWindowLeft
  settings : ctx.remoteSettings.streamWindowSize ≤ 2147483647
  streams : ∀ x ∈ ctx.pendingStreams, x.2.remoteWindowLeft ≤ 2147483647 ∧
    ctx.remoteSettings.streamWindowSize - 2147483647 ≤ x.2.remoteWindowLeft

variable {env : Env} {ctx ctx' : Context}

theorem Windows.init {isServer : Bool} {settings : Settings} (h : init isServer settings = some ctx) :
    Windows ctx := by
  obtain ⟨-, -, rfl⟩ := map_eq_some_iff.1 h
  exact ⟨le_rfl, by simp, le_rfl, fun x hx => absurd hx not_mem_nil⟩

theorem Windows.same (hw : Windows ctx) (h : SameWindows ctx ctx') : Windows ctx' := by
  refine ⟨h.conn ▸ hw.conn_le, ?_, h.settings ▸ hw.settings, fun x hx => ?_⟩
  · rw [h.received, h.conn]
    exact hw.le_conn
  · rw [h.settings]
    rcases h.streams x hx with hnew | ⟨y, hy, hold⟩
    · have := hw.settings
      omega
    · rw [← hold]
      exact hw.streams y hy

theorem Windows.conn_bounds (hw : Windows ctx) :
    -2147483647 ≤ ctx.remoteWindowLeft ∧ ctx.remoteWindowLeft ≤ 2147483647 := by
  have := hw.le_conn
  have := hw.conn_le
  split_ifs at * <;> omega

variable {x : ℕ × Stream}

theorem Windows.stream_bounds (hw : Windows ctx) (hx : x ∈ ctx.pendingStreams) :
    -2147483647 ≤ x.2.remoteWindowLeft ∧ x.2.remoteWindowLeft ≤ 2147483647 := by
  have := hw.streams x hx
  omega

/-! ### SETTINGS -/

variable {s : Settings}

theorem setPair_streamWindowSize {s' : Settings} {id value : ℕ} (h : s.setPair id value = some s')
    (hs : s.streamWindowSize ≤ 2147483647) : s'.streamWindowSize ≤ 2147483647 := by
  unfold setPair at h
  split at h
  case h_4 =>
    split_ifs at h with hvalue
    cases h
    exact not_lt.1 hvalue
  case h_2 | h_5 =>
    split_ifs at h
    cases h
    exact hs
  all_goals
    cases h
    exact hs

variable {bs : Bytes} {r : Parsed}

theorem parsePairs_streamWindowSize {npairs : ℕ}
    (h : parsePairs npairs s bs = some r) (hs : s.streamWindowSize ≤ 2147483647) :
    r.settings.streamWindowSize ≤ 2147483647 := by
  induction npairs generalizing s bs with
  | zero =>
    cases h
    exact hs
  | succ npairs ih =>
    obtain ⟨id, -, h⟩ := bind_eq_some_iff.1 h
    obtain ⟨value, -, h⟩ := bind_eq_some_iff.1 h
    split at h
    · cases h
      exact hs
    next s' hset =>
      exact ih h (setPair_streamWindowSize hset hs)

theorem parse_streamWindowSize {n : ℕ} (h : s.parse bs n = some r) (hs : s.streamWindowSize ≤ 2147483647) :
    r.settings.streamWindowSize ≤ 2147483647 := by
  unfold parse at h
  split_ifs at h
  · cases h
    exact hs
  · exact parsePairs_streamWindowSize h hs

/-- The windows before SETTINGS shift those of streams: the streams have the windows they had
under `old`. -/
structure BeforeShift (ctx : Context) (old : ℕ) : Prop where
  conn_le : ctx.remoteWindowLeft ≤ 2147483647
  le_conn : (if ctx.remoteSettingsReceived then -2147418112 else 0) ≤ ctx.remoteWindowLeft
  settings : ctx.remoteSettings.streamWindowSize ≤ 2147483647
  old_le : old ≤ 2147483647
  streams : ∀ x ∈ ctx.pendingStreams, x.2.remoteWindowLeft ≤ 2147483647 ∧ old - 2147483647 ≤ x.2.remoteWindowLeft

variable {old : ℕ}

section

variable (h : BeforeShift ctx old)
include h

theorem BeforeShift.accepted (hx : x ∈ ctx.pendingStreams) :
    addAccepted x.2.remoteWindowLeft (ctx.remoteSettings.streamWindowSize - old) = true ↔
      x.2.remoteWindowLeft + (ctx.remoteSettings.streamWindowSize - old) ≤ 2147483647 := by
  have := h.streams x hx
  have := h.settings
  have := h.old_le
  exact addAccepted_iff (by omega) (by omega)

theorem BeforeShift.shiftAll_eq (hfits : ∀ x ∈ ctx.pendingStreams,
      x.2.remoteWindowLeft + (ctx.remoteSettings.streamWindowSize - old) ≤ 2147483647) :
    shiftAll (ctx.remoteSettings.streamWindowSize - old) ctx.pendingStreams = (true, ctx.pendingStreams.map fun x =>
        (x.1, { x.2 with
          remoteWindowLeft := x.2.remoteWindowLeft + (ctx.remoteSettings.streamWindowSize - old) })) := by
  unfold shiftAll
  split_ifs with hdiff
  · exact shiftStreams_eq fun x hx => (h.accepted hx).2 (hfits x hx)
  · rw [not_not.1 hdiff]
    simp

theorem BeforeShift.applySettings (hfits : ∀ x ∈ ctx.pendingStreams,
      x.2.remoteWindowLeft + (ctx.remoteSettings.streamWindowSize - old) ≤ 2147483647) (rest : Bytes) :
    Windows (ctx.applySettings env old rest).ctx := by
  have hshifted : Windows { ctx with pendingStreams := ctx.pendingStreams.map fun x =>
      (x.1, { x.2 with
        remoteWindowLeft := x.2.remoteWindowLeft + (ctx.remoteSettings.streamWindowSize - old) }) } := by
    refine { h with streams := fun y hy => ?_ }
    obtain ⟨x, hx, rfl⟩ := mem_map.1 hy
    have hlow := (h.streams x hx).2
    refine ⟨hfits x hx, ?_⟩
    show (ctx.remoteSettings.streamWindowSize : ℤ) - 2147483647 ≤
      x.2.remoteWindowLeft + (ctx.remoteSettings.streamWindowSize - old)
    omega
  unfold Context.applySettings
  rw [h.shiftAll_eq hfits]
  simp only [Bool.true_eq_false, if_false]
  split <;> rename_i hack <;> exact hshifted.same (.of_writeAck hack)

theorem BeforeShift.applySettings_refused (hx : x ∈ ctx.pendingStreams)
    (hover : 2147483647 < x.2.remoteWindowLeft + (ctx.remoteSettings.streamWindowSize - old)) (rest : Bytes) :
    (ctx.applySettings env old rest).result = .error .flowControlError 0 := by
  have hdiff : (ctx.remoteSettings.streamWindowSize : ℤ) - old ≠ 0 := by
    have := (h.streams x hx).1
    omega
  have hrefused : (shiftAll (ctx.remoteSettings.streamWindowSize - old) ctx.pendingStreams).1 = false := by
    rw [shiftAll, if_pos hdiff]
    refine shiftStreams_refused ⟨x, hx, ?_⟩
    rw [← Bool.not_eq_true, h.accepted hx]
    omega
  unfold Context.applySettings
  rw [if_pos hrefused]
  rfl

end

/-! ### What makes windows illegal -/

/-- What `ParseH2Settings` makes of a SETTINGS frame: the first one starts with new settings. -/
def parsedSettings (ctx : Context) (bs : Bytes) (n : ℕ) : Option Parsed :=
  (if ctx.remoteSettingsReceived then ctx.remoteSettings else {}).parse bs n

/-- A frame that would push a window over `2 ^ 31 - 1`. -/
def Overflows (ctx : Context) (type : FrameType) (h : FrameHead) (bs : Bytes) : Prop :=
  match type with
  | .windowUpdate =>
    h.payloadSize = 4 ∧ ∃ inc rest, loadUint32 bs = some (inc, rest) ∧ inc < 2147483648 ∧
      if h.streamId = 0 then 2147483647 < ctx.remoteWindowLeft + inc
      else ∃ s, ctx.findStream h.streamId = some s ∧ 2147483647 < s.remoteWindowLeft + inc
  | .settings =>
    h.streamId = 0 ∧ h.endStream = false ∧ ∃ r, ctx.parsedSettings bs h.payloadSize = some r ∧ r.ok = true ∧
      ∃ x ∈ ctx.pendingStreams,
        2147483647 < x.2.remoteWindowLeft + (r.settings.streamWindowSize - ctx.remoteSettings.streamWindowSize)
  | _ => False

/-- A SETTINGS frame that is refused after it has changed `stream_window_size`: it is parsed in place. -/
def HalfApplied (ctx : Context) (type : FrameType) (h : FrameHead) (bs : Bytes) : Prop :=
  type = .settings ∧ h.streamId = 0 ∧ h.endStream = false ∧ ctx.remoteSettingsReceived = true ∧
    ∃ r, ctx.parsedSettings bs h.payloadSize = some r ∧ r.ok = false ∧
      r.settings.streamWindowSize ≠ ctx.remoteSettings.streamWindowSize

section

variable (hw : Windows ctx)
include hw

theorem Windows.parsed {n : ℕ} (hr : ctx.parsedSettings bs n = some r) : r.settings.streamWindowSize ≤ 2147483647 := by
  refine parse_streamWindowSize hr ?_
  split_ifs
  · exact hw.settings
  · decide

theorem Windows.beforeShift_first (hfirst : ctx.remoteSettingsReceived = false)
    (hs : s.streamWindowSize ≤ 2147483647) : BeforeShift { ctx with
        remoteSettings := s
        remoteWindowLeft := ctx.remoteWindowLeft - (maxWindowSize - defaultInitialWindowSize : ℕ)
        remoteSettingsReceived := true }
      ctx.remoteSettings.streamWindowSize := by
  have hle := hw.conn_le
  have hconn := hw.le_conn
  have hdiff : ((maxWindowSize - defaultInitialWindowSize : ℕ) : ℤ) = 2147418112 := rfl
  rw [hfirst] at hconn
  refine ⟨?_, ?_, hs, hw.settings, hw.streams⟩
  · simp only [hdiff]
    omega
  · simp only [hdiff, Bool.false_eq_true, if_true, if_false] at hconn ⊢
    omega

theorem Windows.beforeShift (hs : s.streamWindowSize ≤ 2147483647) :
    BeforeShift { ctx with remoteSettings := s } ctx.remoteSettings.streamWindowSize :=
  ⟨hw.conn_le, hw.le_conn, hs, hw.settings, hw.streams⟩

theorem Windows.onSettings {h : FrameHead} {r : Handled}
    (hr : ctx.onSettings env h bs = some r) (hfits : ¬ ctx.Overflows .settings h bs)
    (hwhole : ¬ ctx.HalfApplied .settings h bs) : Windows r.ctx := by
  unfold Context.onSettings at hr
  split_ifs at hr with hstream hack hsize hfirst
  · cases hr
    exact hw
  · cases hr
    exact hw
  · cases hr
    exact hw.same (.of_streams rfl rfl rfl fun _ hx => hx)
  · obtain ⟨q, hq, rfl⟩ := map_eq_some_iff.1 hr
    have hparsed : ctx.parsedSettings bs h.payloadSize = some q := by
      rw [parsedSettings, hfirst]
      exact hq
    split_ifs with hok
    · exact hw
    · refine (hw.beforeShift_first hfirst (hw.parsed hparsed)).applySettings (fun x hx => not_lt.1 fun hover => ?_) _
      exact hfits ⟨not_not.1 hstream, Bool.not_eq_true _ ▸ hack, q, hparsed, Bool.not_eq_false _ ▸ hok, x, hx, hover⟩
  · obtain ⟨q, hq, rfl⟩ := map_eq_some_iff.1 hr
    have hparsed : ctx.parsedSettings bs h.payloadSize = some q := by
      rw [parsedSettings, if_pos (Bool.not_eq_false _ ▸ hfirst)]
      exact hq
    split_ifs with hok
    · -- nothing that concerns the windows was set
      have hsame : q.settings.streamWindowSize = ctx.remoteSettings.streamWindowSize := by
        by_contra hne
        exact hwhole ⟨rfl, not_not.1 hstream, Bool.not_eq_true _ ▸ hack, Bool.not_eq_false _ ▸ hfirst, q, hparsed, hok,
          hne⟩
      refine ⟨hw.conn_le, hw.le_conn, hw.parsed hparsed, ?_⟩
      show ∀ x ∈ ctx.pendingStreams, x.2.remoteWindowLeft ≤ 2147483647 ∧
        (q.settings.streamWindowSize : ℤ) - 2147483647 ≤ x.2.remoteWindowLeft
      rw [hsame]
      exact hw.streams
    · refine (hw.beforeShift (hw.parsed hparsed)).applySettings (fun x hx => not_lt.1 fun hover => ?_) _
      exact hfits ⟨not_not.1 hstream, Bool.not_eq_true _ ▸ hack, q, hparsed, Bool.not_eq_false _ ▸ hok, x, hx, hover⟩

theorem Windows.onSettings_refused {h : FrameHead} (hover : ctx.Overflows .settings h bs) :
    ∃ r, ctx.onSettings env h bs = some r ∧ r.result = .error .flowControlError 0 := by
  obtain ⟨hstream, hack, q, hparsed, hok, x, hx, hover⟩ := hover
  have hsize := hw.parsed hparsed
  unfold Context.onSettings
  rw [if_neg (not_not.2 hstream), if_neg (by simp [hack])]
  unfold parsedSettings at hparsed
  split_ifs with hfirst
  · rw [if_neg (by simp [hfirst])] at hparsed
    rw [hparsed, map_some, if_neg (by simp [hok])]
    exact ⟨_, rfl, (hw.beforeShift_first hfirst hsize).applySettings_refused hx hover _⟩
  · rw [if_pos (Bool.not_eq_false _ ▸ hfirst)] at hparsed
    rw [hparsed, map_some, if_neg (by simp [hok])]
    exact ⟨_, rfl, (hw.beforeShift hsize).applySettings_refused hx hover _⟩

end

end Context

/-! ## Runs of a connection -/

open Hpack (Bytes HPacker)

namespace Context

variable {env : Env} {ctx ctx' : Context}

/-! ### WINDOW_UPDATE -/

theorem Windows.setConn (hw : Windows ctx) {w : ℤ} (hle : w ≤ 2147483647)
    (hlow : (if ctx.remoteSettingsReceived then -2147418112 else 0) ≤ w) :
    Windows { ctx with remoteWindowLeft := w } :=
  ⟨hle, hlow, hw.settings, hw.streams⟩

theorem Windows.setStream (hw : Windows ctx) (streamId : ℕ) {s : Stream} (hle : s.remoteWindowLeft ≤ 2147483647)
    (hlow : ctx.remoteSettings.streamWindowSize - 2147483647 ≤ s.remoteWindowLeft) :
    Windows (ctx.setStream streamId s) := by
  refine { hw with streams := fun x hx => ?_ }
  obtain ⟨y, hy, rfl⟩ := List.mem_map.1 hx
  split_ifs with hid
  · exact ⟨hle, hlow⟩
  · exact hw.streams y hy

variable {bs : Bytes} {h : FrameHead}

theorem Windows.onWindowUpdate {r : Handled} (hw : Windows ctx)
    (hr : ctx.onWindowUpdate h bs = some r) (hfits : ¬ ctx.Overflows .windowUpdate h bs) : Windows r.ctx := by
  unfold Context.onWindowUpdate at hr
  by_cases hsize : h.payloadSize ≠ 4
  · rw [if_pos hsize] at hr
    cases hr
    exact hw
  rw [if_neg hsize] at hr
  obtain ⟨⟨inc, rest⟩, hinc, rfl⟩ := map_eq_some_iff.1 hr
  by_cases hbad : 2147483648 ≤ inc ∨ inc = 0
  · rw [if_pos hbad]
    exact hw
  rw [if_neg hbad]
  have hlt : inc < 2147483648 := not_le.1 fun h => hbad (.inl h)
  split_ifs with hstream
  · have hsum : ctx.remoteWindowLeft + inc ≤ 2147483647 := not_lt.1 fun hover =>
      hfits ⟨not_not.1 hsize, inc, rest, hinc, hlt, by rwa [if_pos hstream]⟩
    have hset : Windows { ctx with remoteWindowLeft := ctx.remoteWindowLeft + inc } :=
      hw.setConn hsum (by have := hw.le_conn; omega)
    dsimp only
    split_ifs <;> exact hset
  · cases hs : ctx.findStream h.streamId with
    | none => exact hw
    | some s =>
      have hsum : s.remoteWindowLeft + inc ≤ 2147483647 := not_lt.1 fun hover =>
        hfits ⟨not_not.1 hsize, inc, rest, hinc, hlt, by rw [if_neg hstream]; exact ⟨s, hs, hover⟩⟩
      have hlow : (ctx.remoteSettings.streamWindowSize : ℤ) - 2147483647 ≤ s.remoteWindowLeft :=
        (hw.streams _ (findStream_mem hs)).2
      have hset : Windows (ctx.setStream h.streamId { s with remoteWindowLeft := s.remoteWindowLeft + inc }) :=
        hw.setStream h.streamId hsum (by change _ ≤ s.remoteWindowLeft + (inc : ℤ); omega)
      dsimp only
      split_ifs <;> exact hset

theorem Windows.onWindowUpdate_refused (hw : Windows ctx) (hover : ctx.Overflows .windowUpdate h bs) :
    ∃ r, ctx.onWindowUpdate h bs = some r ∧ r.result = .error .flowControlError 0 := by
  obtain ⟨hsize, inc, rest, hinc, hlt, hover⟩ := hover
  have hrefused : ∀ w : ℤ, -2147483647 ≤ w ∧ w ≤ 2147483647 → 2147483647 < w + inc →
      addAccepted w inc = false ∧ ¬ (2147483648 ≤ inc ∨ inc = 0) := by
    intro w hbounds hover
    rw [← Bool.not_eq_true, addAccepted_iff hbounds (by omega)]
    omega
  unfold Context.onWindowUpdate
  rw [if_neg (not_not.2 hsize), hinc, map_some]
  refine ⟨_, rfl, ?_⟩
  split_ifs at hover with hstream
  · obtain ⟨hfalse, hgood⟩ := hrefused _ hw.conn_bounds hover
    rw [if_neg hgood, if_pos hstream, addWindowSize, hfalse]
    rfl
  · obtain ⟨s, hs, hover⟩ := hover
    obtain ⟨hfalse, hgood⟩ := hrefused _ (hw.stream_bounds (findStream_mem hs)) hover
    rw [if_neg hgood, if_neg hstream, hs]
    simp only [addWindowSize, hfalse, Bool.false_eq_true, if_false]
    rfl

/-! ### `Consume` -/

/-- Neither overflows a window nor changes settings half-way. -/
def FrameFits (ctx : Context) (type : FrameType) (h : FrameHead) (bs : Bytes) : Prop :=
  ¬ ctx.Overflows type h bs ∧ ¬ ctx.HalfApplied type h bs

theorem Windows.handle {type : FrameType} {r : Handled} (hw : Windows ctx)
    (hr : ctx.handle env type h bs = some r) (hfits : ctx.FrameFits type h bs) : Windows r.ctx := by
  by_cases hsettings : type = .settings
  · subst hsettings
    exact hw.onSettings hr hfits.1 hfits.2
  by_cases hupdate : type = .windowUpdate
  · subst hupdate
    exact hw.onWindowUpdate hr hfits.1
  exact hw.same (.handle hr hsettings hupdate)

/-- **An increment that is too large is answered with FLOW_CONTROL_ERROR**, on legal windows. -/
theorem Windows.refused {type : FrameType} (hw : Windows ctx) (hover : ctx.Overflows type h bs) :
    ∃ r, ctx.handle env type h bs = some r ∧ r.result = .error .flowControlError 0 := by
  cases type with
  | settings => exact hw.onSettings_refused hover
  | windowUpdate => exact hw.onWindowUpdate_refused hover
  | _ => exact hover.elim

/-- The frame a connection is given, if it gets as far as its handler, fits the windows. -/
def BytesFit (ctx : Context) (bs : Bytes) : Prop :=
  ∀ h rest type, ctx.connState = .ready → consumeFrameHead ctx.localSettings.maxFrameSize bs = .ok (h, rest) →
    findFrameHandler h.type = some type → ctx.FrameFits type h rest

theorem Windows.consume {r : ParseResult × Context × Bytes} (hw : Windows ctx)
    (hr : ctx.consume env bs = some r) (hfits : ctx.BytesFit bs) : Windows r.2.1 := by
  unfold Context.consume at hr
  split at hr
  · cases hr
    exact hw.same (.consumePreface bs)
  next hready =>
    split at hr
    · cases hr
      exact hw
    next h rest hhead =>
      split at hr
      · cases hr
        exact hw
      next type htype =>
        obtain ⟨q, hq, rfl⟩ := map_eq_some_iff.1 hr
        exact (hw.handle hq (hfits h rest type hready hhead htype)).same (.answer q.result)
  · cases hr
    exact hw

/-! ### Requests and responses -/

theorem minusWindowSize_le (w : ℤ) (size : ℕ) : (minusWindowSize w size).2 ≤ w := by
  unfold minusWindowSize
  split_ifs <;> simp

theorem le_minusWindowSize (w : ℤ) (size : ℕ) : min w 0 ≤ (minusWindowSize w size).2 := by
  unfold minusWindowSize
  split_ifs
  · exact min_le_left w 0
  · exact (min_le_right w 0).trans (by omega)

theorem debit_spec (s : Stream) (data : Bytes) :
    ((ctx.debit s data).2.1 ≤ s.remoteWindowLeft ∧ min s.remoteWindowLeft 0 ≤ (ctx.debit s data).2.1) ∧
      (ctx.debit s data).2.2 ≤ ctx.remoteWindowLeft ∧ min ctx.remoteWindowLeft 0 ≤ (ctx.debit s data).2.2 := by
  unfold debit
  rw [consumeWindowSize_eq]
  split_ifs
  all_goals
    simp
    try omega

theorem Windows.minusConn (hw : Windows ctx) {w : ℤ} (hle : w ≤ ctx.remoteWindowLeft)
    (hlow : min ctx.remoteWindowLeft 0 ≤ w) : Windows { ctx with remoteWindowLeft := w } := by
  refine hw.setConn (hle.trans hw.conn_le) (le_trans (le_min hw.le_conn ?_) hlow)
  split_ifs <;> decide

theorem Windows.tryToInsertStream (hw : Windows ctx) (streamId : ℕ) {s : Stream}
    (hle : s.remoteWindowLeft ≤ 2147483647)
    (hlow : ctx.remoteSettings.streamWindowSize - 2147483647 ≤ s.remoteWindowLeft) :
    Windows (ctx.tryToInsertStream streamId s).2 := by
  unfold Context.tryToInsertStream
  split_ifs
  · exact hw
  · split
    · refine { hw with streams := fun x hx => ?_ }
      rcases List.mem_append.1 hx with hx | hx
      · exact hw.streams x hx
      · obtain rfl := List.mem_singleton.1 hx
        exact ⟨hle, hlow⟩
    · exact hw

theorem Windows.withHpacker (hw : Windows ctx) (p : HPacker) : Windows { ctx with hpacker := p } :=
  hw.same (.of_streams rfl rfl rfl fun _ hx => hx)

variable {data : Bytes} {headers : List (Hpack.Header × Hpack.HPackOptions)}

theorem Windows.sendRequestOn {id : ℕ} {r : SendStatus × List Frame × Context} (hw : Windows ctx)
    (hr : ctx.sendRequestOn id headers data = some r) : Windows r.2.2 := by
  obtain ⟨⟨hsle, hslow⟩, hle, hlow⟩ := @debit_spec ctx ctx.initStream data
  have hconn := hw.minusConn hle hlow
  have hsettings := hw.settings
  have hinit : ctx.initStream.remoteWindowLeft = ctx.remoteSettings.streamWindowSize := rfl
  have hinsert := hconn.tryToInsertStream id
    (s := { ctx.initStream with remoteWindowLeft := (ctx.debit ctx.initStream data).2.1 })
    (show (ctx.debit ctx.initStream data).2.1 ≤ 2147483647 by omega)
    (show ctx.remoteSettings.streamWindowSize - 2147483647 ≤ (ctx.debit ctx.initStream data).2.1 by omega)
  unfold Context.sendRequestOn at hr
  simp only at hr
  split_ifs at hr
  · cases hr
    exact hconn
  · split at hr <;> rename_i heq <;> rw [heq] at hinsert
    · obtain ⟨p, -, rfl⟩ := map_eq_some_iff.1 hr
      exact (hinsert.withHpacker p.1).same (.pack _ _ _ _)
    · cases hr
      exact hinsert
    · cases hr
      exact hinsert

theorem Windows.sendRequest {canceled : Bool} {r : SendStatus × List Frame × Context} (hw : Windows ctx)
    (hr : ctx.sendRequest canceled headers data = some r) : Windows r.2.2 := by
  unfold Context.sendRequest at hr
  split_ifs at hr
  · cases hr
    exact hw
  · cases hr
    exact hw
  · cases hr
    exact hw
  · have hid : Windows { ctx with lastSentStreamId := ctx.lastSentStreamId + 2 } :=
      hw.same (.of_streams rfl rfl rfl fun _ hx => hx)
    exact hid.sendRequestOn hr

theorem Windows.sendResponse {trailers : List (Hpack.Header × Hpack.HPackOptions)}
    {streamId : ℕ} {r : List Frame × Context} (hw : Windows ctx)
    (hr : ctx.sendResponse headers trailers data streamId = some r) : Windows r.2 := by
  have hle := minusWindowSize_le ctx.remoteWindowLeft data.length
  have hlow := le_minusWindowSize ctx.remoteWindowLeft data.length
  unfold Context.sendResponse at hr
  split at hr <;> rename_i w hminus <;> rw [hminus] at hle hlow
  · cases hr
    exact (hw.minusConn hle hlow).same (.of_streams rfl rfl rfl fun _ hx => hx)
  · obtain ⟨p, -, hr⟩ := bind_eq_some_iff.1 hr
    obtain ⟨q, -, rfl⟩ := map_eq_some_iff.1 hr
    exact ((hw.minusConn hle hlow).withHpacker q.1).same (.pack _ _ _ _)

/-! ### Runs -/

/-- The bytes that are received fit the windows. -/
def OpFits (ctx : Context) : Op → Prop
  | .consume _ bs => ctx.BytesFit bs
  | _ => True

theorem Windows.step {op : Op} (hw : Windows ctx) (hfits : ctx.OpFits op) (hstep : ctx.step op = some ctx') :
    Windows ctx' := by
  cases op with
  | consume =>
    obtain ⟨r, hr, rfl⟩ := map_eq_some_iff.1 hstep
    exact hw.consume hr hfits
  | sendRequest =>
    obtain ⟨r, hr, rfl⟩ := map_eq_some_iff.1 hstep
    exact hw.sendRequest hr
  | sendResponse =>
    obtain ⟨r, hr, rfl⟩ := map_eq_some_iff.1 hstep
    exact hw.sendResponse hr
  | addAbandonedStream =>
    cases hstep
    exact hw.same (.of_streams rfl rfl rfl fun _ hx => hx)
  | clearAbandonedStreams =>
    cases hstep
    exact hw.same .clearAbandonedStreams

/-- All windows are legal, and a frame that would push one over `2 ^ 31 - 1` is answered with FLOW_CONTROL_ERROR. -/
structure Legal (ctx : Context) : Prop where
  conn : -2147483647 ≤ ctx.remoteWindowLeft ∧ ctx.remoteWindowLeft ≤ 2147483647
  streams : ∀ x ∈ ctx.pendingStreams, -2147483647 ≤ x.2.remoteWindowLeft ∧ x.2.remoteWindowLeft ≤ 2147483647
  refused : ∀ env type h bs, ctx.Overflows type h bs →
    ∃ r, ctx.handle env type h bs = some r ∧ r.result = .error .flowControlError 0

theorem Windows.legal (hw : Windows ctx) : Legal ctx :=
  ⟨hw.conn_bounds, fun _ hx => hw.stream_bounds hx, fun _ _ _ _ hover => hw.refused hover⟩

/-- One step of a run; a call that does not return ends it. -/
def runStep (ctx : Option Context) (op : Op) : Option Context := ctx.bind (·.step op)

/-- The condition on a step of a run. -/
def StepFits (ctx : Option Context) (op : Op) : Prop := ∀ c, ctx = some c → c.OpFits op

/-- **Windows stay legal as long as no frame overflows one** and no SETTINGS frame is refused
after it has changed `stream_window_size`; and every increment that is too large is answered with
FLOW_CONTROL_ERROR. -/
theorem windows_legal {isServer : Bool} {settings : Settings} {ctx : Context} (hinit : init isServer settings = some ctx)
    (ops : List Op) (hfits : Lib.Along runStep StepFits (some ctx) ops) :
    ∀ ctx', Lib.run runStep (some ctx) ops = some ctx' → Legal ctx' := by
  have hwindows : ∀ ctx', Lib.run runStep (some ctx) ops = some ctx' → Windows ctx' := by
    refine Lib.run_invariant (I := fun s => ∀ c, s = some c → Windows c) (fun s op hs hop c hc => ?_) ops (some ctx)
      (fun c hc => Option.some.inj hc ▸ .init hinit) hfits
    obtain ⟨c₀, rfl, hstep⟩ := bind_eq_some_iff.1 hc
    exact (hs c₀ rfl).step (hop c₀ rfl) hstep
  exact fun ctx' hctx' => (hwindows ctx' hctx').legal

/-- A client that gets SETTINGS with larger stream windows, and WINDOW_UPDATE. -/
def largerWindows : List Op := [.consume .agreeable [], .consume .agreeable [0, 0, 6, 4, 0, 0, 0, 0, 0, 0, 4, 0, 8, 0, 0],
  .consume .agreeable [0, 0, 4, 8, 0, 0, 0, 0, 0, 0, 0, 1, 0]]

theorem largerWindows_legal : ∃ ctx, Lib.run runStep (init false {}) largerWindows = some ctx ∧ Legal ctx := by
  obtain ⟨ctx', hrun⟩ := isSome_iff_exists.1
    (show (Lib.run runStep (init false {}) largerWindows).isSome by decide +kernel)
  obtain ⟨ctx, hctx⟩ := isSome_iff_exists.1 init_isSome
  have hframe : consumeFrameHead 16384 [0, 0, 6, 4, 0, 0, 0, 0, 0, 0, 4, 0, 8, 0, 0] =
      .ok (⟨6, 4, 0, 0⟩, [0, 4, 0, 8, 0, 0]) := by decide +kernel
  have hframe' : consumeFrameHead 16384 [0, 0, 4, 8, 0, 0, 0, 0, 0, 0, 0, 1, 0] =
      .ok (⟨4, 8, 0, 0⟩, [0, 0, 1, 0]) := by decide +kernel
  have hfits : Lib.Along runStep StepFits (some ctx) largerWindows := by
    obtain ⟨p, -, rfl⟩ := map_eq_some_iff.1 hctx
    refine ⟨?_, ?_, ?_, trivial⟩
    · rintro c hc h rest type hready
      cases hc
      cases hready
    · rintro c hc h rest type - hhead htype
      cases hc
      obtain ⟨rfl, rfl⟩ := Prod.ext_iff.1 (Except.ok.inj (hframe.symm.trans hhead))
      cases htype
      refine ⟨?_, fun hhalf => nomatch hhalf.2.2.2.1⟩
      rintro ⟨-, -, r, -, -, x, hx, -⟩
      exact List.not_mem_nil hx
    · rintro c hc h rest type - hhead htype
      cases hc
      obtain ⟨rfl, rfl⟩ := Prod.ext_iff.1 (Except.ok.inj (hframe'.symm.trans hhead))
      cases htype
      refine ⟨?_, fun hhalf => nomatch hhalf.1⟩
      rintro ⟨-, inc, rest, hinc, -, hover⟩
      cases hinc
      exact absurd (show (2147483647 : ℤ) < 65535 + 256 from hover) (by decide)
  exact ⟨ctx', hrun, windows_legal hctx _ hfits ctx' (hctx ▸ hrun)⟩

/-- **An increment that was refused is kept**, and the next one is not refused. -/
theorem increment_kept :
    let ctx := Lib.run runStep (init false {})
      [.consume .agreeable [], .consume .agreeable [0, 0, 4, 8, 0, 0, 0, 0, 0, 0, 0, 0, 1]]
    ctx.map (·.remoteWindowLeft) = some 2147483648 ∧ (ctx.bind fun ctx =>
        (ctx.handle .agreeable .windowUpdate ⟨4, 8, 0, 0⟩ [0, 0, 0, 1]).map fun r =>
          (r.result, r.ctx.remoteWindowLeft)) = some (.ok false, 2147483649) := by
  constructor <;> decide +kernel

end Context
end Brpc.Http2
