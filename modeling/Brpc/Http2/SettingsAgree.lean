/-
# The settings the peer has

One side sends its settings, the other takes them from its first SETTINGS frame.  `settings_agree_iff`: they are the
same iff server push is disabled and the stream window is not 65535 bytes.
-/

import Brpc.Http2.Handlers

namespace Brpc.Http2

open Option Settings Context
open Hpack (Bytes)

namespace Settings

/-! ### Pairs -/

theorem parsePairs_savePair (s' : Settings) {changed : Bool} {id value : ℕ} {s : Settings} (hid : id < 65536)
    (hvalue : value < 4294967296) (hset : changed = true → s.setPair id value = some s')
    (hkeep : changed = false → s' = s) (n : ℕ) (bs : Bytes) :
    parsePairs (changed.toNat + n) s (savePair changed id value ++ bs) = parsePairs n s' bs := by
  cases changed with
  | false => simp [savePair, hkeep rfl]
  | true =>
    rw [savePair, if_pos rfl, Bool.toNat_true, Nat.add_comm, parsePairs, List.append_assoc,
      loadUint16_save hid, bind_some, loadUint32_save hvalue, bind_some, hset rfl]

theorem length_savePair (changed : Bool) (id value : ℕ) : (savePair changed id value).length = 6 * changed.toNat := by
  cases changed <;> rfl

/-- What the parser makes of serialized settings. -/
def received (s : Settings) : Settings :=
  { headerTableSize := s.headerTableSize
    enablePush := false
    maxConcurrentStreams := s.maxConcurrentStreams
    streamWindowSize := if s.streamWindowSize = defaultInitialWindowSize then 262144 else s.streamWindowSize
    maxFrameSize := s.maxFrameSize
    maxHeaderListSize := s.maxHeaderListSize }

/-- The number of pairs written. -/
def pairs (s : Settings) : ℕ :=
  (decide (s.headerTableSize ≠ defaultHeaderTableSize)).toNat + ((decide (s.enablePush ≠ defaultEnablePush)).toNat +
    ((decide (s.maxConcurrentStreams ≠ unlimited)).toNat +
      ((decide (s.streamWindowSize ≠ defaultInitialWindowSize)).toNat +
        ((decide (s.maxFrameSize ≠ defaultMaxFrameSize)).toNat +
          ((decide (s.maxHeaderListSize ≠ unlimited)).toNat + 0)))))

theorem length_serialize (s : Settings) : s.serialize.length = s.pairs * 6 := by
  simp only [serialize, List.length_append, length_savePair, pairs]
  omega

/-- **Parsing serialized settings**, from default-constructed ones. -/
theorem parse_serialize {s : Settings} (hs : s.IsValid) (bs : Bytes) :
    parse {} (s.serialize ++ bs) s.serialize.length = some { ok := true, settings := s.received, rest := bs } := by
  obtain ⟨hwindow, -, ⟨hframe, hframe'⟩, htable, hstreams, hlist⟩ := hs
  unfold maxWindowSize at hwindow
  unfold unlimited at htable hstreams hlist
  unfold maxOfMaxFrameSize at hframe'
  rw [parse, length_serialize, Nat.mul_div_cancel _ (by decide), if_neg (by simp), pairs, serialize]
  simp only [List.append_assoc]
  have hpush : s.enablePush.toNat < 4294967296 := by cases s.enablePush <;> decide
  rw [parsePairs_savePair { headerTableSize := s.headerTableSize } (by decide) (by omega) (fun _ => rfl) ?_,
    parsePairs_savePair { headerTableSize := s.headerTableSize } (by decide) hpush ?_ (fun _ => rfl),
    parsePairs_savePair { headerTableSize := s.headerTableSize, maxConcurrentStreams := s.maxConcurrentStreams }
      (by decide) (by omega) (fun _ => rfl) ?_,
    parsePairs_savePair
      { headerTableSize := s.headerTableSize, maxConcurrentStreams := s.maxConcurrentStreams
        streamWindowSize := s.received.streamWindowSize } (by decide) (by omega) ?_ ?_,
    parsePairs_savePair
      { headerTableSize := s.headerTableSize, maxConcurrentStreams := s.maxConcurrentStreams
        streamWindowSize := s.received.streamWindowSize, maxFrameSize := s.maxFrameSize }
      (by decide) (by omega) ?_ ?_,
    parsePairs_savePair s.received (by decide) (by omega) (fun _ => rfl) ?_, parsePairs]
  all_goals
    intro h
    simp only [ne_eq, decide_not, Bool.not_eq_false', Bool.not_eq_true', decide_eq_true_eq, decide_eq_false_iff_not]
      at h
  · rw [received, h, unlimited]
  · rw [setPair, if_neg (by unfold maxOfMaxFrameSize; omega)]
  · rw [h, defaultMaxFrameSize]
  · rw [setPair, if_neg (by unfold maxWindowSize; omega), received, if_neg h]
  · rw [received, if_pos h]
  · rw [h, unlimited]
  · rw [show s.enablePush = false by simpa [defaultEnablePush] using h]
    rfl
  · rw [h, defaultHeaderTableSize]

/-- The settings that are sent are the same. -/
def Agrees (s s' : Settings) : Prop :=
  s.headerTableSize = s'.headerTableSize ∧ s.enablePush = s'.enablePush ∧
    s.maxConcurrentStreams = s'.maxConcurrentStreams ∧ s.streamWindowSize = s'.streamWindowSize ∧
    s.maxFrameSize = s'.maxFrameSize ∧ s.maxHeaderListSize = s'.maxHeaderListSize

theorem received_agrees_iff (s : Settings) :
    s.received.Agrees s ↔ s.enablePush = false ∧ s.streamWindowSize ≠ defaultInitialWindowSize := by
  unfold Agrees received
  simp only [true_and, and_true]
  constructor
  · rintro ⟨hpush, hwindow⟩
    refine ⟨hpush.symm, fun hc => ?_⟩
    rw [if_pos hc, hc] at hwindow
    exact absurd hwindow (by decide)
  · rintro ⟨hpush, hwindow⟩
    exact ⟨hpush.symm, if_neg hwindow⟩

end Settings

theorem remoteSettings_applySettings (env : Env) (ctx : Context) (old : ℕ) (rest : Bytes) :
    (ctx.applySettings env old rest).ctx.remoteSettings = ctx.remoteSettings := by
  unfold applySettings
  simp only
  split_ifs
  · rfl
  · unfold writeAck
    split_ifs <;> rfl

/-- **The peer has the settings that were sent** iff push is disabled and the stream window is not
the protocol's default. -/
theorem settings_agree_iff {s : Settings} (hs : s.IsValid) (env : Env) {ctx : Context}
    (hfirst : ctx.remoteSettingsReceived = false) (bs : Bytes) : ∃ r, ctx.onSettings env
        { payloadSize := s.serialize.length, type := FrameType.settings.toNat, flags := 0, streamId := 0 }
        (s.serialize ++ bs) = some r ∧
      (r.ctx.remoteSettings.Agrees s ↔
        s.enablePush = false ∧ s.streamWindowSize ≠ defaultInitialWindowSize) := by
  unfold onSettings
  rw [if_neg (by simp), if_neg (by simp [FrameHead.endStream]), if_pos hfirst]
  simp only [parse_serialize hs, map_some, Bool.true_eq_false, if_false]
  refine ⟨_, rfl, ?_⟩
  rw [remoteSettings_applySettings]
  exact s.received_agrees_iff

/-- Settings with windows and frames of their own. -/
def ownSettings : Settings :=
  { streamWindowSize := 1048576, connectionWindowSize := 1048576, maxFrameSize := 32768 }

theorem ownSettings_agree : ∃ ctx r, init true {} = some ctx ∧
    ctx.onSettings .agreeable
        { payloadSize := ownSettings.serialize.length, type := FrameType.settings.toNat, flags := 0, streamId := 0 }
        (ownSettings.serialize ++ []) = some r ∧ r.ctx.remoteSettings.Agrees ownSettings := by
  have hsome : (init true {}).isSome = true := by decide +kernel
  have hnot : ∀ ctx ∈ init true {}, ctx.remoteSettingsReceived = false := by
    intro ctx hctx
    obtain ⟨p, -, rfl⟩ := map_eq_some_iff.1 hctx
    rfl
  obtain ⟨ctx, hctx⟩ := isSome_iff_exists.1 hsome
  have hvalid : ownSettings.IsValid := ⟨by decide, by decide, by decide, by decide, by decide, by decide⟩
  obtain ⟨r, hr, hiff⟩ := settings_agree_iff hvalid _ (hnot ctx hctx) []
  exact ⟨ctx, r, hctx, hr, hiff.2 ⟨rfl, by decide⟩⟩

/-- **A stream window of 65535 bytes is not sent, and taken for 262144 bytes.** -/
theorem default_window_differs :
    IsValid { streamWindowSize := 65535 } ∧ serialize { streamWindowSize := 65535 } = [0, 2, 0, 0, 0, 0] ∧
    (((init true {}).bind fun ctx =>
      ctx.onSettings .agreeable
        { payloadSize := 6, type := FrameType.settings.toNat, flags := 0, streamId := 0 } [0, 2, 0, 0, 0, 0]).map
      (·.ctx.remoteSettings.streamWindowSize)) = some 262144 := by
  refine ⟨⟨by decide, by decide, by decide, by decide, by decide, by decide⟩, by decide, ?_⟩
  decide +kernel

end Brpc.Http2
