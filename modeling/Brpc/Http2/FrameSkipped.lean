/-
# Where the next frame is read

After `H2Context::Consume` in `brpc/policy/http2_rpc_protocol.cpp` the next frame is read where its
iterator stands, which is behind the frame exactly if that was `FullySkipped`
(`frame_skipped_iff`).  A PING frame with ACK, and every PRIORITY frame, leave their payload to be
read as the next head (`ping_ack_left`).
-/

import Brpc.Http2.GoAway

namespace Brpc.Http2

open List
open Option (bind_eq_some_iff map_eq_some_iff)
open Hpack (Bytes)

theorem drop_eq_self_iff {bs : Bytes} {n : ℕ} (hn : n ≤ bs.length) : bs = bs.drop n ↔ n = 0 := by
  constructor
  · intro h
    have := congrArg List.length h
    rw [length_drop] at this
    omega
  · rintro rfl
    rfl

theorem loadUint16_rest {bs rest : Bytes} {v : ℕ} (h : loadUint16 bs = some (v, rest)) : rest = bs.drop 2 := by
  match bs, h with
  | a :: b :: bs, h =>
    obtain ⟨-, rfl⟩ := Prod.mk.inj (Option.some.inj h)
    rfl

theorem loadUint8_rest {bs rest : Bytes} {v : ℕ} (h : loadUint8 bs = some (v, rest)) :
    rest = bs.drop 1 ∧ v = (bs.headD 0).toNat := by
  match bs, h with
  | a :: bs, h =>
    obtain ⟨rfl, rfl⟩ := Prod.mk.inj (Option.some.inj h)
    exact ⟨rfl, rfl⟩

/-! ### When a payload is skipped -/

/-- The first byte of a padded payload. -/
def FrameHead.padLength (h : FrameHead) (bs : Bytes) : ℕ := if h.padded then (bs.headD 0).toNat else 0

/-- What stands before the fragment in a HEADERS frame. -/
def FrameHead.preamble (h : FrameHead) : ℕ := (if h.padded then 1 else 0) + (if h.hasPriority then 5 else 0)

/-- The pairs of a SETTINGS frame but for the last are allowed. -/
def AllButLast (s : Settings) (npairs : ℕ) (bs : Bytes) : Prop :=
  npairs = 0 ∨ (Settings.parsePairs (npairs - 1) s bs).map (·.ok) = some true

namespace Context

/-- A fragment of headers gets to a stream, and is decoded. -/
def HeadersTaken (env : Env) (ctx : Context) (h : FrameHead) (fragment : Bytes) : Prop :=
  (if ctx.isServer = true ∧ ctx.lastReceivedStreamId < h.streamId then
    h.streamId % 2 = 1 ∧ ¬ (0 ≤ ctx.goawayStreamId ∧ ctx.goawayStreamId < h.streamId) ∧
      ctx.findStream h.streamId = none
  else ctx.isServer = false ∨ (ctx.findStream h.streamId).isSome) ∧
    (consumeHeaders env.checks ctx.hpacker fragment).map (·.ok) ≠ some false

/-- The payload of a frame, the first of the bytes `bs`, is skipped by its handler. -/
def FullySkipped (env : Env) (ctx : Context) (type : FrameType) (h : FrameHead) (bs : Bytes) : Prop :=
  match type with
  | .data => h.padded = true → h.payloadSize = 1 ∨ h.padLength bs < h.payloadSize
  | .headers =>
    h.payloadSize = 0 ∨ h.streamId ≠ 0 ∧ h.preamble ≤ h.payloadSize ∧
      (h.payloadSize = h.preamble ∨ h.padLength bs ≤ h.payloadSize - h.preamble ∧
        ctx.HeadersTaken env h ((bs.drop h.preamble).take (h.payloadSize - h.preamble - h.padLength bs)))
  | .priority => h.payloadSize = 0
  | .rstStream => h.payloadSize = 0 ∨ h.payloadSize = 4
  | .settings =>
    h.payloadSize = 0 ∨ h.streamId = 0 ∧ h.endStream = false ∧ h.payloadSize / 6 * 6 = h.payloadSize ∧
      AllButLast (if ctx.remoteSettingsReceived then ctx.remoteSettings else {}) (h.payloadSize / 6) bs
  | .pushPromise => h.payloadSize = 0
  | .ping => h.payloadSize = 0 ∨ h.payloadSize = 8 ∧ h.streamId = 0 ∧ h.endStream = false
  | .goaway => h.payloadSize = 0 ∨ 8 ≤ h.payloadSize ∧ h.streamId = 0 ∧ h.flags = 0
  | .windowUpdate => h.payloadSize = 0 ∨ h.payloadSize = 4
  | .continuation => h.payloadSize = 0 ∨ ctx.isServer = false ∨ (ctx.findStream h.streamId).isSome

variable {env : Env} {ctx : Context} {h : FrameHead} {bs : Bytes} {r : Handled}

@[simp] theorem fail_rest (e : H2Error) : (ctx.fail bs e).rest = bs := rfl

theorem fail_skips {n : ℕ} {e : H2Error} (hn : n ≤ bs.length) : (ctx.fail bs e).rest = bs.drop n ↔ n = 0 :=
  drop_eq_self_iff hn

/-! ### DATA -/

theorem onDataFragment_rest (fragSize padLength : ℕ) : (ctx.onDataFragment env h fragSize padLength bs).rest =
    if fragSize < padLength then bs else bs.drop fragSize := by
  unfold onDataFragment
  by_cases hpad : fragSize < padLength
  · rw [if_pos hpad, if_pos hpad]
    rfl
  · rw [if_neg hpad, if_neg hpad]
    simp only [Nat.sub_add_cancel (not_lt.1 hpad)]
    split
    · rfl
    · split
      · rfl
      · split_ifs <;> rfl

theorem onData_skips (hr : ctx.onData env h bs = some r) (hlen : h.payloadSize ≤ bs.length)
    (hsize : h.payloadSize < 16777216) : r.rest = bs.drop h.payloadSize ↔ ctx.FullySkipped env .data h bs := by
  unfold onData at hr
  unfold FullySkipped
  split_ifs at hr with hpadded
  · obtain ⟨⟨pad, bs'⟩, hload, rfl⟩ := map_eq_some_iff.1 hr
    obtain ⟨rfl, rfl⟩ := loadUint8_rest hload
    have hbyte := (bs.headD 0).toNat_lt
    have hnonempty : 0 < bs.length := by
      cases bs with
      | nil => cases hload
      | cons => exact Nat.succ_pos _
    rw [onDataFragment_rest]
    simp only [FrameHead.padLength, forall_const, hpadded, if_true]
    by_cases hzero : h.payloadSize = 0
    · -- the size wraps around, and bytes of the next frames are taken
      rw [hzero]
      simp only [Nat.zero_add, Nat.reduceMod, zero_ne_one, Nat.not_lt_zero, or_self, iff_false]
      rw [if_neg (by omega)]
      intro hrest
      have := congrArg List.length hrest
      simp only [length_drop] at this
      omega
    · rw [show (h.payloadSize + 4294967295) % 4294967296 = h.payloadSize - 1 by omega]
      split_ifs with hpad
      · rw [show h.payloadSize = 1 + (h.payloadSize - 1) by omega, ← drop_drop,
          drop_eq_self_iff (by rw [length_drop]; omega)]
        omega
      · rw [drop_drop]
        exact iff_of_true (by congr 1; omega) (by omega)
  · cases hr
    rw [onDataFragment_rest, if_neg (Nat.not_lt_zero _)]
    exact iff_of_true rfl fun h => absurd h hpadded

/-! ### HEADERS and CONTINUATION -/

theorem finishHeaders_rest (streamId : ℕ) (result : HeaderResult) (rest : Bytes) :
    (ctx.finishHeaders env streamId result rest).rest = rest := by
  cases result <;> rfl

section

variable {fragSize padLength : ℕ}

theorem streamOnHeaders_rest {s : Stream} (hr : ctx.streamOnHeaders env s h fragSize padLength bs = some r) :
    r.rest = ctx.restOfHeaders env fragSize padLength bs := by
  obtain ⟨x, -, rfl⟩ := map_eq_some_iff.1 hr
  exact finishHeaders_rest _ _ _

theorem restOfHeaders_iff (hpad : padLength ≤ fragSize) (hlen : fragSize ≤ bs.length) :
    ctx.restOfHeaders env (fragSize - padLength) padLength bs = bs.drop fragSize ↔ fragSize = 0 ∨
        (consumeHeaders env.checks ctx.hpacker (bs.take (fragSize - padLength))).map (·.ok) ≠ some false := by
  unfold restOfHeaders
  rw [Nat.sub_add_cancel hpad]
  split_ifs with hfailed
  · rw [drop_eq_self_iff hlen]
    simp [hfailed]
  · exact iff_of_true rfl (.inr hfailed)

theorem onHeadersFragment_skips
    (hr : ctx.onHeadersFragment env h fragSize padLength bs = some r) (hlen : fragSize ≤ bs.length) :
    r.rest = bs.drop fragSize ↔
      fragSize = 0 ∨ padLength ≤ fragSize ∧ ctx.HeadersTaken env h (bs.take (fragSize - padLength)) := by
  unfold onHeadersFragment at hr
  by_cases hpad : fragSize < padLength
  · rw [if_pos hpad] at hr
    cases hr
    rw [fail_skips hlen]
    omega
  rw [if_neg hpad] at hr
  simp only [not_lt.1 hpad, true_and, HeadersTaken]
  by_cases hnew : ctx.isServer = true ∧ ctx.lastReceivedStreamId < h.streamId
  · simp only [if_pos hnew]
    split_ifs at hr with heven
    · cases hr
      rw [fail_skips hlen]
      simp [heven]
    · have hodd : h.streamId % 2 = 1 := by omega
      simp only [tryToInsertStream] at hr
      by_cases hgoaway : 0 ≤ ctx.goawayStreamId ∧ ctx.goawayStreamId < h.streamId
      · simp only [if_pos hgoaway] at hr
        cases hr
        rw [fail_skips hlen]
        simp [hgoaway]
      · simp only [if_neg hgoaway, findStream] at hr
        cases hs : ctx.pendingStreams.lookup h.streamId with
        | none =>
          rw [hs] at hr
          rw [streamOnHeaders_rest hr]
          exact (restOfHeaders_iff (not_lt.1 hpad) hlen).trans (by simp [hodd, hgoaway, findStream, hs])
        | some =>
          rw [hs] at hr
          cases hr
          rw [fail_skips hlen]
          simp [findStream, hs]
  · rw [if_neg hnew] at hr
    simp only [if_neg hnew]
    cases hs : ctx.findStream h.streamId with
    | some =>
      rw [hs] at hr
      rw [streamOnHeaders_rest hr, restOfHeaders_iff (not_lt.1 hpad) hlen]
      simp
    | none =>
      rw [hs] at hr
      by_cases hserver : ctx.isServer = true
      · simp only [if_pos hserver] at hr
        cases hr
        rw [fail_skips hlen]
        simp [hserver]
      · simp only [if_neg hserver] at hr
        obtain ⟨x, -, rfl⟩ := map_eq_some_iff.1 hr
        rw [restOfHeaders_iff (not_lt.1 hpad) hlen]
        simp [hserver]

end

theorem preamble_read {pad : ℕ} {bs₁ bs₂ : Bytes}
    (hpad : (if h.padded then loadUint8 bs else some (0, bs)) = some (pad, bs₁))
    (hpriority : (if h.hasPriority then (loadUint32 bs₁).bind fun x => (loadUint8 x.2).map (·.2) else some bs₁) =
      some bs₂) : bs₂ = bs.drop h.preamble ∧ pad = h.padLength bs := by
  have hfirst : bs₁ = bs.drop (if h.padded then 1 else 0) ∧ pad = h.padLength bs := by
    unfold FrameHead.padLength
    split_ifs at hpad ⊢ with hpadded
    · exact loadUint8_rest hpad
    · obtain ⟨rfl, rfl⟩ := Prod.mk.inj (Option.some.inj hpad)
      exact ⟨rfl, rfl⟩
  have hsecond : bs₂ = bs₁.drop (if h.hasPriority then 5 else 0) := by
    split_ifs at hpriority ⊢ with hprio
    · obtain ⟨x, hx, hpriority⟩ := bind_eq_some_iff.1 hpriority
      obtain ⟨y, hy, rfl⟩ := map_eq_some_iff.1 hpriority
      rw [(loadUint8_rest hy).1, loadUint32_rest hx, drop_drop]
    · exact (Option.some.inj hpriority).symm
  exact ⟨by rw [hsecond, hfirst.1, drop_drop]; rfl, hfirst.2⟩

theorem onHeaders_skips (hr : ctx.onHeaders env h bs = some r) (hlen : h.payloadSize ≤ bs.length) :
    r.rest = bs.drop h.payloadSize ↔ ctx.FullySkipped env .headers h bs := by
  unfold onHeaders at hr
  unfold FullySkipped
  by_cases hzero : h.streamId = 0
  · rw [if_pos hzero] at hr
    cases hr
    rw [fail_skips hlen]
    simp [hzero]
  rw [if_neg hzero] at hr
  have hpreamble : (if h.padded then 1 else 0) + (if h.hasPriority then 5 else 0) = h.preamble := rfl
  rw [add_comm (if h.hasPriority then 5 else 0), hpreamble] at hr
  by_cases hsize : h.payloadSize < h.preamble
  · rw [if_pos hsize] at hr
    cases hr
    rw [fail_skips hlen]
    simp [not_le.2 hsize]
  rw [if_neg hsize] at hr
  obtain ⟨⟨pad, bs₁⟩, hpad, hr⟩ := bind_eq_some_iff.1 hr
  obtain ⟨bs₂, hpriority, hr⟩ := bind_eq_some_iff.1 hr
  obtain ⟨rfl, rfl⟩ := preamble_read hpad hpriority
  rw [Nat.sub_sub, hpreamble] at hr
  have hskip := onHeadersFragment_skips hr (by rw [length_drop]; omega)
  rw [drop_drop, Nat.add_sub_cancel' (not_lt.1 hsize)] at hskip
  rw [hskip]
  simp only [ne_eq, hzero, not_false_eq_true, not_lt.1 hsize, true_and]
  constructor
  · rintro (hnone | htaken)
    · exact .inr (.inl (by omega))
    · exact .inr (.inr htaken)
  · rintro (hnone | hnone | htaken)
    · exact .inl (by omega)
    · exact .inl (by omega)
    · exact .inr htaken

theorem onContinuation_skips (hr : ctx.onContinuation env h bs = some r) (hlen : h.payloadSize ≤ bs.length) :
    r.rest = bs.drop h.payloadSize ↔ ctx.FullySkipped env .continuation h bs := by
  unfold onContinuation at hr
  unfold FullySkipped
  cases hs : ctx.findStream h.streamId with
  | some =>
    rw [hs] at hr
    obtain ⟨x, -, rfl⟩ := map_eq_some_iff.1 hr
    rw [finishHeaders_rest]
    simp
  | none =>
    rw [hs] at hr
    by_cases hserver : ctx.isServer = true
    · simp only [if_pos hserver] at hr
      cases hr
      rw [fail_skips hlen]
      simp [hserver]
    · simp only [if_neg hserver] at hr
      obtain ⟨x, -, rfl⟩ := map_eq_some_iff.1 hr
      simp [hserver]

end Context

/-! ## Where the next frame is read -/

open Option Settings

namespace Context

variable {env : Env} {ctx : Context} {h : FrameHead} {bs : Bytes} {r : Handled}

/-! ### SETTINGS -/

theorem parsePairs_rest {npairs : ℕ} {s : Settings} {bs : Bytes} {r : Parsed}
    (hr : parsePairs npairs s bs = some r) (hlen : npairs * 6 ≤ bs.length) :
    r.rest = bs.drop (npairs * 6) ↔ AllButLast s npairs bs := by
  induction npairs generalizing s bs with
  | zero =>
    cases hr
    exact iff_of_true rfl (.inl rfl)
  | succ npairs ih =>
    obtain ⟨⟨id, bs₁⟩, hid, hr⟩ := bind_eq_some_iff.1 hr
    obtain ⟨⟨value, bs₂⟩, hvalue, hr⟩ := bind_eq_some_iff.1 hr
    have hdrop : bs₂ = bs.drop 6 := by
      rw [loadUint32_rest hvalue, loadUint16_rest hid, drop_drop]
    simp only [AllButLast, Nat.succ_ne_zero, false_or, Nat.add_sub_cancel]
    cases hset : s.setPair id value with
    | none =>
      have hunfold : ∀ n, parsePairs (n + 1) s bs = some { ok := false, settings := s, rest := bs₂ } :=
        fun n => by simp only [parsePairs, hid, hvalue, bind_some, hset]
      simp only [hset] at hr
      cases hr
      rw [hdrop, show (npairs + 1) * 6 = 6 + npairs * 6 by omega, ← drop_drop,
        drop_eq_self_iff (by rw [length_drop]; omega)]
      cases npairs with
      | zero => exact iff_of_true rfl rfl
      | succ => simp [hunfold]
    | some s' =>
      have hunfold : ∀ n, parsePairs (n + 1) s bs = parsePairs n s' bs₂ :=
        fun n => by simp only [parsePairs, hid, hvalue, bind_some, hset]
      simp only [hset] at hr
      have hih := ih hr (by rw [hdrop, length_drop]; omega)
      rw [hdrop, drop_drop, show 6 + npairs * 6 = (npairs + 1) * 6 by omega] at hih
      rw [hih, ← hdrop]
      cases npairs with
      | zero => exact iff_of_true (.inl rfl) rfl
      | succ => simp [AllButLast, hunfold]

theorem parse_rest {s : Settings} {n : ℕ} {q : Parsed} (hq : s.parse bs n = some q) (hlen : n ≤ bs.length) :
    q.rest = bs.drop n ↔ n / 6 * 6 = n ∧ AllButLast s (n / 6) bs := by
  unfold parse at hq
  split_ifs at hq with hsix
  · cases hq
    rw [drop_eq_self_iff hlen]
    refine iff_of_false (fun hzero => hsix (by rw [hzero])) fun hwhole => hsix hwhole.1
  · rw [not_not] at hsix
    have hpairs := parsePairs_rest hq (by omega)
    rw [hsix] at hpairs
    simp [hpairs, hsix]

theorem applySettings_rest (old : ℕ) (rest : Bytes) : (ctx.applySettings env old rest).rest = rest := by
  unfold applySettings
  simp only
  split_ifs
  · rfl
  · split <;> rfl

theorem parsed_rest (q : Parsed) (ctx' : Context) (e : H2Error) (old : ℕ) :
    (if q.ok = false then ctx.fail q.rest e else ctx'.applySettings env old q.rest).rest = q.rest := by
  split_ifs
  · rfl
  · exact applySettings_rest old q.rest

section

variable (hlen : h.payloadSize ≤ bs.length)
include hlen

theorem onSettings_skips (hr : ctx.onSettings env h bs = some r) :
    r.rest = bs.drop h.payloadSize ↔ ctx.FullySkipped env .settings h bs := by
  unfold onSettings at hr
  unfold FullySkipped
  have hempty : ∀ s : Settings, h.payloadSize = 0 → h.payloadSize / 6 * 6 = h.payloadSize ∧
      AllButLast s (h.payloadSize / 6) bs := by
    intro s hzero
    rw [hzero]
    exact ⟨rfl, .inl rfl⟩
  split_ifs at hr with hstream hack hsize hfirst
  · cases hr
    rw [fail_skips hlen]
    simp [hstream]
  · cases hr
    rw [fail_skips hlen]
    simp [hack]
  · cases hr
    rw [drop_eq_self_iff hlen]
    simp [hack]
  · obtain ⟨q, hq, rfl⟩ := map_eq_some_iff.1 hr
    rw [parsed_rest, parse_rest hq hlen]
    simp only [hfirst, Bool.false_eq_true, if_false]
    exact ⟨fun hwhole => .inr ⟨not_not.1 hstream, Bool.not_eq_true _ ▸ hack, hwhole⟩,
      fun hskip => hskip.elim (hempty _) fun hwhole => hwhole.2.2⟩
  · obtain ⟨q, hq, rfl⟩ := map_eq_some_iff.1 hr
    rw [parsed_rest, parse_rest hq hlen, if_pos (Bool.not_eq_false _ ▸ hfirst)]
    exact ⟨fun hwhole => .inr ⟨not_not.1 hstream, Bool.not_eq_true _ ▸ hack, hwhole⟩,
      fun hskip => hskip.elim (hempty _) fun hwhole => hwhole.2.2⟩

/-! ### Other frames -/

theorem onResetStream_skips (hr : ctx.onResetStream env h bs = some r) :
    r.rest = bs.drop h.payloadSize ↔ ctx.FullySkipped env .rstStream h bs := by
  unfold onResetStream at hr
  unfold FullySkipped
  split_ifs at hr with hsize
  · cases hr
    rw [fail_skips hlen]
    simp [hsize]
  · obtain ⟨code, hcode, rfl⟩ := map_eq_some_iff.1 hr
    refine iff_of_true ?_ (.inr (not_not.1 hsize))
    rw [not_not.1 hsize, ← loadUint32_rest hcode]
    split <;> rfl

theorem onPing_skips : (ctx.onPing env h bs).rest = bs.drop h.payloadSize ↔ ctx.FullySkipped env .ping h bs := by
  unfold onPing FullySkipped
  dsimp only
  split_ifs with hsize hstream hack
  · rw [fail_skips hlen]
    simp [hsize]
  · rw [fail_skips hlen]
    simp [hstream]
  · rw [drop_eq_self_iff hlen]
    simp [hack]
  · refine iff_of_true ?_ (.inr ⟨not_not.1 hsize, not_not.1 hstream, Bool.not_eq_true _ ▸ hack⟩)
    rw [not_not.1 hsize]
    split <;> rfl

theorem onGoAway_skips (hr : ctx.onGoAway h bs = some r) :
    r.rest = bs.drop h.payloadSize ↔ ctx.FullySkipped env .goaway h bs := by
  unfold FullySkipped
  rcases onGoAway_cases hr with ⟨e, rfl, hnot⟩ | ⟨last, code, hok, hlast, hcode, hrest, -⟩
  · rw [fail_skips hlen]
    simp [hnot]
  · refine iff_of_true ?_ (.inr hok)
    rw [hrest, loadUint32_rest hcode, loadUint32_rest hlast, drop_drop, drop_drop]
    congr 1
    omega

theorem onWindowUpdate_skips (hr : ctx.onWindowUpdate h bs = some r) :
    r.rest = bs.drop h.payloadSize ↔ ctx.FullySkipped env .windowUpdate h bs := by
  unfold onWindowUpdate at hr
  unfold FullySkipped
  by_cases hsize : h.payloadSize ≠ 4
  · rw [if_pos hsize] at hr
    cases hr
    rw [fail_skips hlen]
    simp [hsize]
  rw [if_neg hsize] at hr
  obtain ⟨⟨inc, rest⟩, hinc, rfl⟩ := map_eq_some_iff.1 hr
  refine iff_of_true ?_ (.inr (not_not.1 hsize))
  rw [not_not.1 hsize, ← loadUint32_rest hinc]
  dsimp only
  split_ifs
  · rfl
  · rfl
  · rfl
  · cases ctx.findStream h.streamId with
    | none => rfl
    | some s =>
      dsimp only
      split_ifs <;> rfl

/-- **A handler skips the payload of its frame exactly if `FullySkipped` holds.** -/
theorem handle_skips {type : FrameType} (hr : ctx.handle env type h bs = some r) (hsize : h.payloadSize < 16777216) :
    r.rest = bs.drop h.payloadSize ↔ ctx.FullySkipped env type h bs := by
  cases type with
  | data => exact onData_skips hr hlen hsize
  | headers => exact onHeaders_skips hr hlen
  | priority | pushPromise =>
    cases hr
    exact drop_eq_self_iff hlen
  | rstStream => exact onResetStream_skips hlen hr
  | settings => exact onSettings_skips hlen hr
  | ping =>
    cases hr
    exact onPing_skips hlen
  | goaway => exact onGoAway_skips hlen hr
  | windowUpdate => exact onWindowUpdate_skips hlen hr
  | continuation => exact onContinuation_skips hr hlen

/-! ### `Consume` -/

end

/-- **When `Consume` has returned without error, it stands at the next frame exactly if the frame was skipped as a
whole.** -/
theorem frame_skipped_iff {type : FrameType} {rest rest' : Bytes} {message : Bool} {ctx' : Context}
    (hready : ctx.connState = .ready) (hhead : consumeFrameHead ctx.localSettings.maxFrameSize bs = .ok (h, rest))
    (htype : findFrameHandler h.type = some type) (hr : ctx.consume env bs = some (.ok message, ctx', rest')) :
    rest' = bs.drop (frameHeadSize + h.payloadSize) ↔ ctx.FullySkipped env type h rest := by
  obtain ⟨hdrop, hlen, hsize, -, -⟩ := consumeFrameHead_ok hhead
  unfold consume at hr
  simp only [hready, hhead, htype] at hr
  obtain ⟨q, hq, hanswer⟩ := map_eq_some_iff.1 hr
  have hrest : q.rest = rest' := congrArg (·.2.2) hanswer
  rw [← hrest, ← drop_drop, ← hdrop]
  exact handle_skips hlen hq hsize

/-- A PING frame. -/
def ping : Bytes := [0, 0, 8, 6, 0, 0, 0, 0, 0, 1, 2, 3, 4, 5, 6, 7, 8]

/-- To a client it is skipped. -/
theorem ping_skipped : ∃ ctx ctx', (init false {}).map (fun c => (c.consumePreface .agreeable []).2.1) = some ctx ∧
    ctx.consume .agreeable ping = some (.ok false, ctx', []) ∧
    ctx.FullySkipped .agreeable .ping ⟨8, 6, 0, 0⟩ [1, 2, 3, 4, 5, 6, 7, 8] := by
  obtain ⟨c, hc⟩ := isSome_iff_exists.1 init_isSome
  have hframe : consumeFrameHead 16384 ping = .ok (⟨8, 6, 0, 0⟩, [1, 2, 3, 4, 5, 6, 7, 8]) := by decide +kernel
  obtain ⟨p, -, rfl⟩ := map_eq_some_iff.1 hc
  obtain ⟨ctx', hctx'⟩ : ∃ ctx', Context.consume .agreeable
      (Context.consumePreface .agreeable { isServer := false, unackLocalSettings := {}, hpacker := p } []).2.1
      ping = some (.ok false, ctx', []) := by
    simp [consumePreface, consume, hframe, findFrameHandler, handle, onPing, FrameHead.endStream, writeAck, answer,
      Env.agreeable]
  refine ⟨_, ctx', by rw [hc]; rfl, hctx', (frame_skipped_iff ?_ ?_ ?_ hctx').1 rfl⟩
  exacts [rfl, hframe, rfl]

/-- **A PING frame with ACK leaves its payload**: the next head is read from it.  So does a
PRIORITY frame, which is answered with GOAWAY. -/
theorem ping_ack_left :
    let read bs := (init false {}).bind fun c =>
      ((c.consumePreface .agreeable []).2.1.consume .agreeable bs).map fun r => (r.1, r.2.2)
    read [0, 0, 8, 6, 1, 0, 0, 0, 0, 1, 2, 3, 4, 5, 6, 7, 8] = some (.ok false, [1, 2, 3, 4, 5, 6, 7, 8]) ∧
      read [0, 0, 5, 2, 0, 0, 0, 0, 1, 0, 0, 0, 0, 16] = some (.ok false, [0, 0, 0, 0, 16]) := by
  constructor <;> decide +kernel

end Context
end Brpc.Http2
