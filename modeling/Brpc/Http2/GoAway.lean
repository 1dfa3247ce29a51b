/-
# GOAWAY

`OnGoAway` and `RemoveGoAwayStreams` of `brpc/policy/http2_rpc_protocol.cpp`.  The debug data is
skipped before the fixed fields are read, so the word taken for Last-Stream-ID is the one eight
bytes before the end of the payload (`lastRead`); `goaway_exact` says when that does no harm.
-/

import Brpc.Http2.Handlers

namespace Brpc.Http2.Context

open List
open Hpack (Bytes)

variable {ctx : Context} {h : FrameHead} {bs : Bytes} {r : Handled}

theorem onGoAway_cases (hr : ctx.onGoAway h bs = some r) :
    (∃ e, r = ctx.fail bs e ∧ ¬ (8 ≤ h.payloadSize ∧ h.streamId = 0 ∧ h.flags = 0)) ∨
    ∃ last code, (8 ≤ h.payloadSize ∧ h.streamId = 0 ∧ h.flags = 0) ∧
      loadUint32 (bs.drop (h.payloadSize - 8)) = some last ∧ loadUint32 last.2 = some code ∧ r.rest = code.2 ∧
      r.ctx = if ctx.isServer then ctx else (ctx.removeGoAwayStreams (toInt32 last.1)).2 := by
  unfold onGoAway at hr
  split_ifs at hr with hsize hstream hflags hserver
  · exact .inl ⟨_, (Option.some.inj hr).symm, by omega⟩
  · exact .inl ⟨_, (Option.some.inj hr).symm, fun hok => hstream hok.2.1⟩
  · exact .inl ⟨_, (Option.some.inj hr).symm, fun hok => hflags hok.2.2⟩
  all_goals
    obtain ⟨last, hlast, hr⟩ := Option.bind_eq_some_iff.1 hr
    obtain ⟨code, hcode, rfl⟩ := Option.map_eq_some_iff.1 hr
    exact .inr ⟨last, code, ⟨not_lt.1 hsize, not_not.1 hstream, not_not.1 hflags⟩, hlast, hcode, rfl,
      by simp [hserver, goAway]⟩

/-- Both ways of `RemoveGoAwayStreams`. -/
theorem removeGoAwayStreams_eq (id : ℤ) : ctx.removeGoAwayStreams id =
    ((ctx.pendingStreams.filter fun x => id = 0 ∨ id < x.1).map (·.2), { ctx with
        goawayStreamId := id
        pendingStreams := ctx.pendingStreams.filter fun x => ¬ (id = 0 ∨ id < x.1) }) := by
  unfold removeGoAwayStreams
  split_ifs with hall <;> simp [hall]

theorem loadUint32_of_length (hlen : 4 ≤ bs.length) : ∃ v, loadUint32 bs = some (v, bs.drop 4) ∧ toInt32 v < 2147483648 := by
  match bs, hlen with
  | a :: b :: c :: d :: bs, _ =>
    have := a.toNat_lt
    have := b.toNat_lt
    have := c.toNat_lt
    have := d.toNat_lt
    refine ⟨_, rfl, ?_⟩
    unfold toInt32
    split_ifs <;> push_cast <;> omega

theorem tryToInsertStream_eq_one {id : ℕ} {s : Stream} :
    (ctx.tryToInsertStream id s).1 = 1 ↔ 0 ≤ ctx.goawayStreamId ∧ ctx.goawayStreamId < id := by
  unfold tryToInsertStream
  split_ifs with hgone
  · simp [hgone]
  · split <;> simp [hgone]

/-- What `OnGoAway` takes for Last-Stream-ID. -/
def lastRead (h : FrameHead) (bs : Bytes) : ℤ :=
  ((loadUint32 (bs.drop (h.payloadSize - 8))).map fun x => toInt32 x.1).getD 0

theorem deliver_spec (ss : List Stream) : (deliver ss).map (·.stream) = ss ∧ (∀ d ∈ deliver ss, d.statusCode = 503) ∧
    (deliver ss).isEmpty = ss.isEmpty ∧ ∀ i d, (deliver ss)[i]? = some d → (d.isMessage = true ↔ i = 0) := by
  cases ss with
  | nil => simp [deliver]
  | cons s ss =>
    refine ⟨by simp [deliver, Function.comp_def], by simp [deliver], rfl, fun i d hd => ?_⟩
    cases i with
    | zero => simp [← Option.some.inj hd]
    | succ i =>
      obtain ⟨s', -, rfl⟩ : ∃ s', ss[i]? = some s' ∧ ⟨s', 503, false⟩ = d := by simpa [deliver] using hd
      simp

/-- The streams above `last` are handed on, each once and with status 503: one as the message if there are any, the
others to bthreads.  All others stay pending, and no `int` above `last` is inserted any more. -/
structure Removes (ctx : Context) (last : ℕ) (out : Handled) : Prop where
  reported : out.delivered.map (·.stream) = (ctx.pendingStreams.filter fun x => last < x.1).map (·.2)
  status : ∀ d ∈ out.delivered, d.statusCode = 503
  result : out.result = .ok (!out.delivered.isEmpty)
  message : ∀ i d, out.delivered[i]? = some d → (d.isMessage = true ↔ i = 0)
  kept : out.ctx.pendingStreams = ctx.pendingStreams.filter fun x => ¬ last < x.1
  rejects : ∀ id s, last < id → id < 2147483648 → (out.ctx.tryToInsertStream id s).1 = 1

/-- What is read is not negative and not above `last`, and no pending stream is between them. -/
def Harmless (ctx : Context) (last : ℕ) (read : ℤ) : Prop :=
  (last = 2147483647 ∨ 0 ≤ read ∧ read ≤ last) ∧ ∀ x ∈ ctx.pendingStreams, last < x.1 ∨ x.1 ≤ read

theorem removes_iff {last : ℕ} {read : ℤ} (hpos : ∀ x ∈ ctx.pendingStreams, 0 < x.1) (hlast : last < 2147483648)
    (hread : read < 2147483648) (rest : Bytes) :
    ctx.Removes last (ctx.goAway read rest) ↔ ctx.Harmless last read := by
  rw [goAway, removeGoAwayStreams_eq]
  constructor
  · rintro ⟨-, -, -, -, hkept, hrejects⟩
    refine ⟨?_, fun x hx => ?_⟩
    · by_cases hmax : last = 2147483647
      · exact .inl hmax
      · obtain ⟨hnonneg, hlt⟩ : 0 ≤ read ∧ read < (last + 1 : ℕ) :=
          tryToInsertStream_eq_one.1 (hrejects (last + 1) ctx.initStream (by omega) (by omega))
        exact .inr ⟨hnonneg, by omega⟩
    · have hmem := congrArg (x ∈ ·) hkept
      simp only [mem_filter, hx, decide_eq_true_eq, true_and, eq_iff_iff] at hmem
      omega
  · rintro ⟨hbound, hnone⟩
    have hsame : ∀ x ∈ ctx.pendingStreams, (read = 0 ∨ read < x.1) ↔ last < x.1 := by
      intro x hx
      have := hpos x hx
      have := hnone x hx
      omega
    have hfilter : (ctx.pendingStreams.filter fun x => read = 0 ∨ read < x.1) =
        ctx.pendingStreams.filter fun x => last < x.1 := filter_congr fun x hx => by simp only [hsame x hx]
    obtain ⟨hstreams, hstatus, hempty, hmessage⟩ :=
      deliver_spec ((ctx.pendingStreams.filter fun x => read = 0 ∨ read < x.1).map (·.2))
    refine ⟨?_, hstatus, by rw [hempty], hmessage, ?_, fun id s hid hint => tryToInsertStream_eq_one.2 ?_⟩
    · exact hstreams.trans (congrArg _ hfilter)
    · exact filter_congr fun x hx => by simp only [hsame x hx]
    · simp only
      omega

/-- **GOAWAY removes and hands on exactly the streams above Last-Stream-ID** if and only if the word that is read
instead of it does no harm.  The bit above Last-Stream-ID is reserved. -/
theorem goaway_exact {word code : ℕ} {debug more : Bytes} (hclient : ctx.isServer = false)
    (hpos : ∀ x ∈ ctx.pendingStreams, 0 < x.1) (hsize : h.payloadSize = 8 + debug.length)
    (hstream : h.streamId = 0) (hflags : h.flags = 0) :
    let bs := saveUint32 word ++ saveUint32 code ++ debug ++ more
    let out := ctx.goAway (lastRead h bs) more
    ctx.onGoAway h bs = some out ∧
      (ctx.Removes (word % 2147483648) out ↔ ctx.Harmless (word % 2147483648) (lastRead h bs)) := by
  intro bs out
  have hlen : bs.length = 8 + debug.length + more.length := by
    simp only [bs, length_append]
    rfl
  obtain ⟨v, hlast, hint⟩ := @loadUint32_of_length (bs.drop (h.payloadSize - 8)) (by rw [length_drop]; omega)
  obtain ⟨c, hcode, -⟩ := @loadUint32_of_length ((bs.drop (h.payloadSize - 8)).drop 4) (by simp only [length_drop]; omega)
  have hread : lastRead h bs = toInt32 v := by
    rw [lastRead, hlast]
    rfl
  have hmore : ((bs.drop (h.payloadSize - 8)).drop 4).drop 4 = more := by
    rw [drop_drop, drop_drop]
    exact drop_left' (by simp only [length_append, saveUint32, length_cons, length_nil]; omega)
  refine ⟨?_, removes_iff hpos (Nat.mod_lt _ (by decide)) (hread ▸ hint) more⟩
  rw [onGoAway, if_neg (by omega), if_neg (not_not.2 hstream), if_neg (not_not.2 hflags), hlast, Option.bind_some, hcode,
    Option.map_some, if_neg (by simp [hclient]), hmore, ← hread]

/-- Without debug data, of the streams 1, 3 and 5 the last one goes. -/
theorem plain_goaway_exact : ∃ ctx, (init false {}).map (fun c => { c with
      pendingStreams := [(1, c.initStream), (3, c.initStream), (5, c.initStream)] }) = some ctx ∧
    ctx.Removes 3 (ctx.goAway (lastRead ⟨8, 7, 0, 0⟩ (saveUint32 3 ++ saveUint32 0)) []) := by
  obtain ⟨c, hc⟩ := Option.isSome_iff_exists.1 init_isSome
  obtain ⟨p, -, rfl⟩ := Option.map_eq_some_iff.1 hc
  have hread : lastRead ⟨8, 7, 0, 0⟩ (saveUint32 3 ++ saveUint32 0) = 3 := by decide
  refine ⟨_, by rw [hc]; rfl, ?_⟩
  refine (@goaway_exact _ ⟨8, 7, 0, 0⟩ 3 0 [] [] rfl (by simp) rfl rfl rfl).2.2 ⟨.inr (by decide), ?_⟩
  show ∀ x ∈ _, _ ∨ _ ≤ lastRead ⟨8, 7, 0, 0⟩ (saveUint32 3 ++ saveUint32 0)
  simp [hread]

/-- **Debug data ends other streams**: eight bytes of zero are read for Last-Stream-ID, and streams 1 and 3 go too. -/
theorem debug_data_read : ((init false {}).bind fun c =>
      (onGoAway { c with pendingStreams := [(1, c.initStream), (3, c.initStream), (5, c.initStream)] } ⟨16, 7, 0, 0⟩
        (saveUint32 3 ++ saveUint32 0 ++ List.replicate 8 0)).map fun r =>
          (r.ctx.pendingStreams.map (·.1), r.delivered.length)) = some ([], 3) := by
  decide +kernel

end Brpc.Http2.Context
