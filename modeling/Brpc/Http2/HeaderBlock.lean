/-
# Header blocks in fragments

`ConsumeHeaders`, `OnHeaders` and `OnContinuation` of `H2StreamContext` in
`brpc/policy/http2_rpc_protocol.cpp`: each frame of a header block is decoded as far as possible,
and what is left is kept in `_remaining_header_fragment`.
-/

import Brpc.Hpack.DecodeSteps

namespace Brpc.Http2

open List Option Hpack
open Hpack (Bytes Header HPacker Str Complete skipRepresentation)

/-- `Str2HttpMethod` and `strtol` on a value. -/
structure Checks where
  str2HttpMethod : Str → Bool
  isStatus : Str → Bool

/-- Checks that take everything. -/
def Checks.lax : Checks := ⟨fun _ => true, fun _ => true⟩

/-- The checks of `ConsumeHeaders` on a decoded pair: of the reserved names, those that start with a colon, only five
are known. -/
def Checks.accepts (c : Checks) (pair : Header) : Bool :=
  match cStr pair.name with
  | [] => true
  | first :: name =>
    first != 58 || name == text "authority" || name == text "path" || name == text "scheme" ||
      name == text "method" && c.str2HttpMethod pair.value ||
      name == text "status" && c.isStatus pair.value

/-- How `ConsumeHeaders` ends: whether it returns 0, the headers set, and the bytes left. -/
structure Consumed where
  ok : Bool
  packer : HPacker
  headers : List Header
  rest : Bytes

/-- A round of the loop of `ConsumeHeaders` after `Decode`; `next` is the rest of the loop. -/
def afterDecode (c : Checks) (next : HPacker → Bytes → Option Consumed) (x : HPacker × Read Header) :
    Option Consumed :=
  if x.2.ret < 0 then some { ok := false, packer := x.1, headers := [], rest := x.2.rest }
  else if x.2.ret = 0 then some { ok := true, packer := x.1, headers := [], rest := x.2.rest }
  else if c.accepts x.2.value = false then some { ok := false, packer := x.1, headers := [], rest := x.2.rest }
  else (next x.1 x.2.rest).map fun r => { r with headers := x.2.value :: r.headers }

/-- The loop of `ConsumeHeaders`, at most `n` rounds; each header has at least one byte. -/
def consumeWithin (c : Checks) : ℕ → HPacker → Bytes → Option Consumed
  | _, p, [] => some { ok := true, packer := p, headers := [], rest := [] }
  | 0, _, _ :: _ => none
  | n + 1, p, b :: bs => (p.decode (b :: bs)).bind (afterDecode c (consumeWithin c n))

def consumeHeaders (c : Checks) (p : HPacker) (bs : Bytes) : Option Consumed := consumeWithin c bs.length p bs

/-! ### Frames -/

/-- What a stream keeps of its headers. -/
structure HeaderState where
  headers : List Header := []
  remainingHeaderFragment : Bytes := []
  streamEnded : Bool := false

/-- How a handler ends; `endStream` is the call of `OnEndStream`. -/
inductive HeaderResult where
  | message
  | endStream
  | protocolError
deriving DecidableEq

/-- `H2StreamContext::OnHeaders`, on the fragment of the frame. -/
def HeaderState.onHeaders (c : Checks) (p : HPacker) (s : HeaderState) (frag : Bytes)
    (endHeaders endStream : Bool) : Option (HeaderResult × HPacker × HeaderState) :=
  (consumeHeaders c p frag).map fun r =>
    let s := { s with headers := s.headers ++ r.headers }
    if r.ok = false then (.protocolError, r.packer, s)
    else
      let s := { s with remainingHeaderFragment := s.remainingHeaderFragment ++ r.rest }
      if endHeaders then
        if r.rest ≠ [] then (.protocolError, r.packer, s)
        else (if endStream then .endStream else .message, r.packer, s)
      else (.message, r.packer, { s with streamEnded := s.streamEnded || endStream })

def HeaderState.onContinuation (c : Checks) (p : HPacker) (s : HeaderState) (payload : Bytes)
    (endHeaders : Bool) : Option (HeaderResult × HPacker × HeaderState) :=
  let s := { s with remainingHeaderFragment := s.remainingHeaderFragment ++ payload }
  (consumeHeaders c p s.remainingHeaderFragment).map fun r =>
    let s := { s with headers := s.headers ++ r.headers }
    if r.ok = false then (.protocolError, r.packer, s)
    else
      let s := { s with remainingHeaderFragment := r.rest }
      if endHeaders then
        if r.rest ≠ [] then (.protocolError, r.packer, s)
        else (if s.streamEnded then .endStream else .message, r.packer, s)
      else (.message, r.packer, s)

/-- CONTINUATION frames up to the first error; the last one has END_HEADERS. -/
def onContinuations (c : Checks) : HPacker → HeaderState → List Bytes →
    Option (HeaderResult × HPacker × HeaderState)
  | p, s, [] => some (.message, p, s)
  | p, s, frag :: frags => (s.onContinuation c p frag frags.isEmpty).bind fun r =>
      if r.1 = .protocolError ∨ frags = [] then some r else onContinuations c r.2.1 r.2.2 frags

/-- A header block on a new stream: a HEADERS frame, and CONTINUATION frames if there is more. -/
def onHeaderBlock (c : Checks) (p : HPacker) (frag : Bytes) (frags : List Bytes) (endStream : Bool) :
    Option (HeaderResult × HPacker × HeaderState) :=
  (HeaderState.onHeaders c p {} frag frags.isEmpty endStream).bind fun r =>
    if r.1 = .protocolError ∨ frags = [] then some r else onContinuations c r.2.1 r.2.2 frags

/-! ### Decoding in parts -/

variable {c : Checks} {p : HPacker} {a a' b : Bytes}

variable {next : HPacker → Bytes → Option Consumed} {x : HPacker × Read Header}

theorem afterDecode_neg (h : x.2.ret < 0) :
    afterDecode c next x = some { ok := false, packer := x.1, headers := [], rest := x.2.rest } := if_pos h

theorem afterDecode_pos (h : 0 < x.2.ret) : afterDecode c next x =
      if c.accepts x.2.value = false then some { ok := false, packer := x.1, headers := [], rest := x.2.rest }
      else (next x.1 x.2.rest).map fun r => { r with headers := x.2.value :: r.headers } := by
  rw [afterDecode, if_neg (by omega), if_neg (by omega)]

theorem afterDecode_congr {next' : HPacker → Bytes → Option Consumed}
    (h : 0 < x.2.ret → next x.1 x.2.rest = next' x.1 x.2.rest) : afterDecode c next x = afterDecode c next' x := by
  unfold afterDecode
  split_ifs with hneg hzero
  · rfl
  · rfl
  · rfl
  · rw [h (by omega)]

theorem consumeWithin_eq {n : ℕ} (hn : a.length ≤ n) : consumeWithin c n p a = consumeHeaders c p a := by
  refine Lib.turns_eq (fun n m p => ?_) (fun n m p x a ih => ?_) hn le_rfl
  · rw [consumeWithin, consumeWithin]
  · refine bind_congr fun y hy => afterDecode_congr fun hret => ?_
    exact ih y.1 y.2.rest (Nat.lt_succ_iff.1 (decode_rest hy hret))

theorem consumeHeaders_nil (c : Checks) (p : HPacker) :
    consumeHeaders c p [] = some { ok := true, packer := p, headers := [], rest := [] } := by
  rw [consumeHeaders, consumeWithin]

theorem consumeHeaders_of_ne_nil (ha : a ≠ []) :
    consumeHeaders c p a = (p.decode a).bind (afterDecode c (consumeHeaders c)) := by
  cases a with
  | nil => exact absurd rfl ha
  | cons =>
    refine bind_congr fun y hy => afterDecode_congr fun hret => ?_
    have hlt := decode_rest hy hret
    rw [length_cons] at hlt
    exact consumeWithin_eq (by omega)

theorem consumeHeaders_sizeUpdate (hsize : IsSizeUpdate a) (hret : 0 < (decodeInteger 5 a).ret) :
    consumeHeaders c p a = if HPacker.defaultHeaderTableSize < (decodeInteger 5 a).value then
        some { ok := false, packer := p, headers := [], rest := (decodeInteger 5 a).rest }
      else (p.decodeTable.resetMaxSize (decodeInteger 5 a).value).bind fun t =>
        consumeHeaders c { p with decodeTable := t } (decodeInteger 5 a).rest := by
  have ha : a ≠ [] := by
    rintro rfl
    exact hsize
  rw [consumeHeaders_of_ne_nil ha, decode_sizeUpdate hsize hret]
  split_ifs with hbig
  · rfl
  · rw [bind_assoc]
    refine bind_congr fun t _ => ?_
    by_cases hnil : (decodeInteger 5 a).rest = []
    · rw [hnil]
      rfl
    · rw [consumeHeaders_of_ne_nil hnil]

/-- What follows complete representations. -/
def andThen (c : Checks) (b : Bytes) (r : Consumed) : Option Consumed :=
  if r.ok then (consumeHeaders c r.packer b).map fun r' => { r' with headers := r.headers ++ r'.headers }
  else some { r with rest := r.rest ++ b }

theorem andThen_cons (b : Bytes) (h : Header) (r : Consumed) : andThen c b { r with headers := h :: r.headers } =
      (andThen c b r).map fun r' => { r' with headers := h :: r'.headers } := by
  unfold andThen
  simp only
  split_ifs
  · rw [Option.map_map]
    rfl
  · rfl

theorem consumeHeaders_header (hskip : skipRepresentation a = some a') (hsize : ¬ IsSizeUpdate a)
    (ih : ∀ p, consumeHeaders c p (a' ++ b) = (consumeHeaders c p a').bind (andThen c b)) :
    consumeHeaders c p (a ++ b) = (consumeHeaders c p a).bind (andThen c b) := by
  have ha := skipRepresentation_ne_nil hskip
  obtain ⟨happ, hread⟩ := decode_append (p := p) hskip hsize b
  rw [consumeHeaders_of_ne_nil ha, consumeHeaders_of_ne_nil (by simp [ha]), happ, bind_map, bind_assoc]
  refine bind_congr fun x hx => ?_
  rcases hread x hx with ⟨hret, hrest⟩ | hret
  · rw [Function.comp, @afterDecode_pos c _ (x.1, x.2.behind b) hret, afterDecode_pos hret,
      Read.behind_value, Read.behind_rest, hrest]
    split_ifs
    · simp [andThen]
    · rw [ih, map_bind, bind_map]
      exact bind_congr fun r _ => (andThen_cons b x.2.value r).symm
  · have hneg : x.2.ret < 0 := by omega
    rw [Function.comp, @afterDecode_neg c _ (x.1, x.2.behind b) hneg, afterDecode_neg hneg]
    simp [andThen]

/-- **Behind complete representations** decoding goes on as in one block. -/
theorem consumeHeaders_append (ha : Complete a) (p : HPacker) (b : Bytes) :
    consumeHeaders c p (a ++ b) = (consumeHeaders c p a).bind (andThen c b) := by
  induction ha generalizing p with
  | nil =>
    rw [nil_append, consumeHeaders_nil, bind_some, andThen, if_pos rfl]
    simp
  | @cons a a' hskip _ ih =>
    by_cases hsize : IsSizeUpdate a
    · have hskip' := hskip
      rw [skipRepresentation_sizeUpdate hsize] at hskip'
      obtain ⟨hret, hrest⟩ := skipInteger_eq_some.1 hskip'
      have hint := decodeInteger_append (show (decodeInteger 5 a).ret ≠ 0 by omega) b
      have hne := skipRepresentation_ne_nil hskip
      rw [consumeHeaders_sizeUpdate hsize hret,
        consumeHeaders_sizeUpdate ((isSizeUpdate_append hne b).2 hsize) (by rw [hint]; exact hret), hint,
        Read.behind_value, Read.behind_rest, hrest]
      split_ifs
      · simp [andThen]
      · rw [bind_assoc]
        exact bind_congr fun t _ => ih _
    · exact consumeHeaders_header hskip hsize ih

end Brpc.Http2
