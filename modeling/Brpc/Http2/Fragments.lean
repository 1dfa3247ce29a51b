/-
# Header blocks do depend on how they are cut

A header block that is accepted in one HEADERS frame is accepted alike with CONTINUATION frames,
if it is cut between representations (`header_block_fragments`).
-/

import Brpc.Hpack.RoundTrip
import Brpc.Http2.HeaderBlock

namespace Brpc.Http2

open List HeaderState
open Option (map_eq_some_iff bind_some map_some)
open Hpack (Bytes Header HPacker Complete)

variable {c : Checks} {p : HPacker} {a b : Bytes}

/-- The bytes are decoded to the end. -/
def Accepted (c : Checks) (p : HPacker) (a : Bytes) (p' : HPacker) (headers : List Header) : Prop :=
  consumeHeaders c p a = some { ok := true, packer := p', headers := headers, rest := [] }

variable {p' : HPacker} {headers : List Header}

/-- **A block cut behind complete representations** is accepted in two parts. -/
theorem Accepted.split (ha : Complete a) (h : Accepted c p (a ++ b) p' headers) :
    ∃ q headers₁ headers₂, Accepted c p a q headers₁ ∧ Accepted c q b p' headers₂ ∧
      headers = headers₁ ++ headers₂ := by
  unfold Accepted at h
  rw [consumeHeaders_append ha] at h
  obtain ⟨r, hr, hthen⟩ := Option.bind_eq_some_iff.1 h
  unfold andThen at hthen
  split_ifs at hthen with hok
  · obtain ⟨r', hr', heq⟩ := map_eq_some_iff.1 hthen
    -- with nothing behind it, nothing is left of the first part
    have hself := consumeHeaders_append (c := c) ha p []
    rw [append_nil, hr, bind_some, andThen, if_pos hok, consumeHeaders_nil, map_some] at hself
    have hrest : r.rest = [] := congrArg Consumed.rest (Option.some.inj hself)
    obtain ⟨ok, q, headers₁, rest⟩ := r
    obtain ⟨ok', q', headers₂, rest'⟩ := r'
    obtain ⟨rfl, rfl, rfl, rfl⟩ := heq
    subst hok hrest
    exact ⟨q, headers₁, headers₂, hr, hr', rfl⟩
  · simp only [Option.some.injEq, Consumed.mk.injEq] at hthen
    exact absurd hthen.1 hok

/-- **CONTINUATION frames** with complete representations. -/
theorem onContinuations_eq (frags : List Bytes) (hne : frags ≠ []) (hcut : ∀ f ∈ frags.dropLast, Complete f)
    (h : Accepted c p frags.flatten p' headers) (s : HeaderState) (hrem : s.remainingHeaderFragment = []) :
    onContinuations c p s frags = some (if s.streamEnded then .endStream else .message, p',
      { s with headers := s.headers ++ headers, remainingHeaderFragment := [] }) := by
  induction frags generalizing p headers s with
  | nil => exact absurd rfl hne
  | cons f frags ih =>
    cases frags with
    | nil =>
      rw [flatten_singleton] at h
      simp only [onContinuations, onContinuation, hrem, nil_append, isEmpty_nil]
      rw [h]
      simp
    | cons =>
      obtain ⟨q, _, _, h₁, h₂, rfl⟩ := h.split (hcut f (by simp))
      rw [onContinuations, onContinuation]
      simp only [hrem, nil_append]
      rw [h₁]
      simp only [map_some, isEmpty_cons, Bool.false_eq_true, Bool.true_eq_false, if_false,
        bind_some, reduceCtorEq, or_self]
      rw [ih (by simp) (fun f' hf' => hcut f' (by simp [hf'])) h₂ _ rfl]
      simp

theorem onHeaderBlock_whole (a : Bytes) (endStream : Bool) :
    onHeaderBlock c p a [] endStream = onHeaders c p {} a true endStream := by
  rw [onHeaderBlock, isEmpty_nil]
  generalize onHeaders c p {} a true endStream = r
  cases r <;> simp

theorem accepted_of_onHeaders {endStream : Bool} {result : HeaderResult} {s : HeaderState}
    (h : onHeaders c p {} a true endStream = some (result, p', s)) (hok : result ≠ .protocolError) :
    Accepted c p a p' s.headers ∧ result = if endStream then .endStream else .message := by
  obtain ⟨r, hr, heq⟩ := map_eq_some_iff.1 h
  obtain ⟨ok, q, _, rest⟩ := r
  cases ok with
  | false =>
    simp only [if_true, Prod.mk.injEq] at heq
    exact absurd heq.1.symm hok
  | true =>
    by_cases hrest : rest = []
    · subst hrest
      obtain ⟨rfl, rfl, rfl⟩ := heq
      exact ⟨hr, rfl⟩
    · simp only [Bool.true_eq_false, if_false, if_true, ne_eq, hrest, not_false_iff, Prod.mk.injEq] at heq
      exact absurd heq.1.symm hok

theorem onHeaderBlock_eq (frag : Bytes) (frags : List Bytes) (endStream : Bool)
    (hcut : ∀ f ∈ (frag :: frags).dropLast, Complete f) (h : Accepted c p (frag ++ frags.flatten) p' headers) :
    ∃ s, onHeaderBlock c p frag frags endStream = some (if endStream then .endStream else .message, p', s) ∧
      s.headers = headers ∧ s.remainingHeaderFragment = [] := by
  cases frags with
  | nil =>
    rw [flatten_nil, append_nil] at h
    rw [onHeaderBlock_whole, onHeaders, h]
    simp
  | cons =>
    obtain ⟨q, _, _, h₁, h₂, rfl⟩ := h.split (hcut frag (by simp))
    rw [onHeaderBlock, onHeaders, h₁]
    simp only [map_some, isEmpty_cons, Bool.false_eq_true, Bool.true_eq_false, if_false,
      bind_some, reduceCtorEq, or_self]
    rw [onContinuations_eq _ (by simp) (fun f' hf' => hcut f' (by simp [hf'])) h₂ _ (by simp)]
    simp

/-- **Header blocks in fragments.**  A block accepted in one HEADERS frame is accepted alike in
fragments, if each of them but the last is complete representations.  Of one header, `Decode`
returns 0 for a proper part and leaves the tables alone iff the part is empty or the header is an
index. -/
theorem header_block_fragments (c : Checks) (p : HPacker) :
    (∀ (frag : Bytes) (frags : List Bytes) (endStream : Bool) (result : HeaderResult) (p' : HPacker)
        (s : HeaderState), onHeaderBlock c p (frag ++ frags.flatten) [] endStream = some (result, p', s) →
      result ≠ .protocolError → (∀ f ∈ (frag :: frags).dropLast, Complete f) →
      ∃ s', onHeaderBlock c p frag frags endStream = some (result, p', s') ∧ s'.headers = s.headers ∧
        s'.remainingHeaderFragment = []) ∧
    ∀ (a b : Bytes) (x : HPacker × Hpack.Read Header), p.decode (a ++ b) = some x → 0 < x.2.ret → x.2.rest = [] →
      ¬ Hpack.IsSizeUpdate (a ++ b) → b ≠ [] →
      ((∃ r, p.decode a = some (p, r) ∧ r.ret = 0) ↔ a = [] ∨ Hpack.IsIndexed a) := by
  constructor
  · intro frag frags endStream result p' s hwhole hok hcut
    rw [onHeaderBlock_whole] at hwhole
    obtain ⟨hacc, rfl⟩ := accepted_of_onHeaders hwhole hok
    exact onHeaderBlock_eq frag frags endStream hcut hacc
  · intro a b x hx hret hrest hsize hb
    by_cases ha : a = []
    · subst ha
      exact ⟨fun _ => .inl rfl, fun _ => ⟨HPacker.failed 0 [], rfl, rfl⟩⟩
    · obtain ⟨r, hr, hr0⟩ := Hpack.decode_cut hsize hx hret hrest ha hb
      constructor
      · rintro ⟨r', hr', hzero⟩
        obtain rfl : r = r' := congrArg Prod.snd (Option.some.inj (hr.symm.trans hr'))
        right
        by_contra hc
        rw [if_neg hc] at hr0
        omega
      · rintro (h | h)
        · exact absurd h ha
        · exact ⟨r, hr, by rw [hr0, if_pos h]⟩

/-- `a: b` in a HEADERS frame and `c: d` in a CONTINUATION frame, and a part of `a: b` alone. -/
theorem two_fragments_accepted : ∃ p, HPacker.init 4096 = some p ∧
    (∃ result p' s, onHeaderBlock .lax p [64, 1, 97, 1, 98, 64, 1, 99, 1, 100] [] true = some (result, p', s) ∧
      ∃ s', onHeaderBlock .lax p [64, 1, 97, 1, 98] [[64, 1, 99, 1, 100]] true = some (result, p', s') ∧
        s'.headers = s.headers ∧ s'.remainingHeaderFragment = []) ∧
    ((∃ r, p.decode [64] = some (p, r) ∧ r.ret = 0) ↔ ([64] : Bytes) = [] ∨ Hpack.IsIndexed [64]) := by
  obtain ⟨hall, hone⟩ : (((HPacker.init 4096).bind fun p =>
      onHeaderBlock .lax p [64, 1, 97, 1, 98, 64, 1, 99, 1, 100] [] true).map (·.1)) =
      some .endStream ∧ (((HPacker.init 4096).bind fun p => p.decode [64, 1, 97, 1, 98]).map
      fun x => (x.2.ret, x.2.rest)) = some (5, []) := by
    decide +kernel
  have hcomplete : Complete [64, 1, 97, 1, 98] := .cons (show _ = some [] by decide) .nil
  obtain ⟨⟨result, p', s⟩, hx, hresult⟩ := map_eq_some_iff.1 hall
  obtain ⟨p, hp, hblock⟩ := Option.bind_eq_some_iff.1 hx
  obtain ⟨x, hx, hx'⟩ := map_eq_some_iff.1 hone
  rw [hp, bind_some] at hx
  have hret : x.2.ret = 5 := congrArg Prod.fst hx'
  obtain ⟨hfrags, hpart⟩ := header_block_fragments .lax p
  refine ⟨p, hp, ⟨result, p', s, hblock, ?_⟩, ?_⟩
  · refine hfrags _ [[64, 1, 99, 1, 100]] true result p' s hblock ?_ ?_
    · rw [show result = .endStream from hresult]
      decide
    · simpa using hcomplete
  · exact hpart [64] [1, 97, 1, 98] x hx (by omega) (congrArg Prod.snd hx') (by decide) (by decide)

/-- **A literal header cut in two is refused**: `a: b` is accepted in one frame, but not with its
first byte alone in the HEADERS frame. -/
theorem cut_literal_refused : ((HPacker.init 4096).bind fun p => (onHeaderBlock .lax p
        [64, 1, 97, 1, 98] [] true).map fun r => (r.1, r.2.2.headers)) = some (.endStream, [⟨[97], [98]⟩]) ∧
    ((HPacker.init 4096).bind fun p => (onHeaderBlock .lax p
        [64] [[1, 97, 1, 98]] true).map fun r => (r.1, r.2.2.headers)) = some (.protocolError, []) ∧
    ((HPacker.init 4096).bind fun p => (p.decode [64]).map (·.2.ret)) = some (-1) := by
  decide +kernel

/-! ### What the encoder has written -/

open Hpack (HPackOptions Mirrors lowered encodeStep StepFits)

variable {e d : HPacker} {q : List Header}

/-- What is encoded with mirrored tables is accepted, and leaves them mirrored. -/
theorem mirrors_accepted (hm : Mirrors e d q) (hs : List (Header × HPackOptions))
    (hfits : Lib.Along encodeStep StepFits (some e) hs) (hacc : ∀ i ∈ hs, c.accepts (lowered i.1) = true) :
    ∃ e' d' q' sent, Lib.run encodeStep (some e) hs = some e' ∧ Mirrors e' d' q' ∧ e.encodeAll hs = some sent ∧
      Accepted c d (sent.map (·.2)).flatten d' (hs.map (lowered ·.1)) := by
  induction hs generalizing e d q with
  | nil => exact ⟨e, d, q, [], rfl, hm, rfl, consumeHeaders_nil c d⟩
  | cons i hs ih =>
    obtain ⟨hfit, hfits⟩ := hfits
    obtain ⟨e₁, d₁, out, q₁, henc, hdec, hm₁⟩ := hm.encode_decode (hfit e rfl).1 (hfit e rfl).2
    have hstep : encodeStep (some e) i = some e₁ := by simp [encodeStep, henc]
    rw [hstep] at hfits
    obtain ⟨e', d', q', sent, hrun, hm', hsent, haccepted⟩ := ih hm₁ hfits fun j hj => hacc j (mem_cons_of_mem i hj)
    refine ⟨e', d', q', (e₁, out) :: sent, by rw [Lib.run_cons, hstep, hrun], hm', ?_, ?_⟩
    · rw [HPacker.encodeAll, henc, bind_some, hsent]
      rfl
    · have hout : out ≠ [] := by
        rintro rfl
        have hname : (lowered i.1).name = [] := congrArg (·.2.value.name) (Option.some.inj (hdec [])).symm
        exact (hfit e rfl).1.1.1 (map_eq_nil_iff.1 hname)
      rw [Accepted, map_cons, flatten_cons, consumeHeaders_of_ne_nil (by simp [hout]), hdec, bind_some,
        afterDecode_pos (Int.natCast_pos.2 (length_pos_iff.2 hout)), if_neg (by simp [hacc]), haccepted]
      rfl

/-- **Headers arrive as they were sent**, with mirrored tables, in a HEADERS frame and CONTINUATION
frames cut between representations; and the tables are mirrored again for the next block. -/
theorem encoded_headers_received (hm : Mirrors e d q) (hs : List (Header × HPackOptions))
    (hfits : Lib.Along encodeStep StepFits (some e) hs) (hacc : ∀ i ∈ hs, c.accepts (lowered i.1) = true) :
    ∃ e' d' q' sent, Lib.run encodeStep (some e) hs = some e' ∧ Mirrors e' d' q' ∧ e.encodeAll hs = some sent ∧
      ∀ frag frags endStream, frag ++ frags.flatten = (sent.map (·.2)).flatten →
        (∀ f ∈ (frag :: frags).dropLast, Complete f) → ∃ s, onHeaderBlock c d frag frags endStream =
          some (if endStream then .endStream else .message, d', s) ∧ s.headers = hs.map (lowered ·.1) := by
  obtain ⟨e', d', q', sent, hrun, hm', hsent, haccepted⟩ := mirrors_accepted hm hs hfits hacc
  refine ⟨e', d', q', sent, hrun, hm', hsent, fun frag frags endStream hblock hcut => ?_⟩
  obtain ⟨s, hs, hheaders, -⟩ := onHeaderBlock_eq frag frags endStream hcut (hblock ▸ haccepted)
  exact ⟨s, hs, hheaders⟩

/-- The two headers in one frame. -/
theorem sameTwice_received : ∃ p d' sent, HPacker.init 70 = some p ∧ p.encodeAll Hpack.sameTwice = some sent ∧
    ∃ s, onHeaderBlock .lax p (sent.map (·.2)).flatten [] true = some (.endStream, d', s) ∧
      s.headers = [⟨[97], [98]⟩, ⟨[97], [98]⟩] := by
  obtain ⟨p, hp, hfits⟩ := Hpack.sameTwice_fits
  obtain ⟨_, d', _, sent, -, -, hsent, hblock⟩ := encoded_headers_received (c := .lax)
    (Hpack.init_mirrors (by decide) hp) Hpack.sameTwice hfits (by decide)
  exact ⟨p, d', sent, hp, hsent, hblock _ [] true (append_nil _) (by rintro _ ⟨⟩)⟩

end Brpc.Http2
