/-
# The frames of baidu_std and streaming_rpc

`ParseRpcMessage` in `src/brpc/policy/baidu_rpc_protocol.cpp` and `ParseStreamingMessage` in
`src/brpc/policy/streaming_rpc_protocol.cpp` cut the same kind of frame but for the magic: magic,
`body_size` and `meta_size` in network order, meta and payload.  Both are `parseFrame`.
-/

import Mathlib.Data.List.Infix
import Mathlib.Tactic.NormNum

namespace Brpc.Messenger

open List

abbrev Bytes := List UInt8

/-- `ParseError` in `src/brpc/parse_result.h`. -/
inductive ParseError
  | tryOthers
  | notEnoughData
  | tooBigData
  | noResource
  | absolutelyWrong
  deriving DecidableEq

/-- The protocols with this frame. -/
inductive Kind
  | baiduStd
  | streamingRpc
  deriving DecidableEq

/-- `"PRPC"` and `"STRM"`. -/
def Kind.magic : Kind → Bytes
  | baiduStd => [0x50, 0x52, 0x50, 0x43]
  | streamingRpc => [0x53, 0x54, 0x52, 0x4d]

def Kind.other : Kind → Kind
  | baiduStd => streamingRpc
  | streamingRpc => baiduStd

theorem Kind.other_ne : ∀ k : Kind, k.other ≠ k
  | baiduStd => by decide
  | streamingRpc => by decide

theorem Kind.eq_other_of_ne : ∀ {k l : Kind}, k ≠ l → k = l.other
  | baiduStd, baiduStd, h => absurd rfl h
  | baiduStd, streamingRpc, _ => rfl
  | streamingRpc, baiduStd, _ => rfl
  | streamingRpc, streamingRpc, h => absurd rfl h

@[simp] theorem Kind.length_magic : ∀ k : Kind, k.magic.length = 4
  | baiduStd => rfl
  | streamingRpc => rfl

/-- What a parser cuts: `msg->meta` and `msg->payload`. -/
structure Frame where
  kind : Kind
  metaBuf : Bytes
  payload : Bytes
  deriving DecidableEq

/-! ### Numbers in network order -/

def pack32 (n : ℕ) : Bytes :=
  [UInt8.ofNat (n / 0x1000000), UInt8.ofNat (n / 0x10000), UInt8.ofNat (n / 0x100), UInt8.ofNat n]

/-- `RawUnpacker::unpack32` at the head of `bs`. -/
def unpack32 (bs : Bytes) : ℕ :=
  bs[0]!.toNat * 0x1000000 + bs[1]!.toNat * 0x10000 + bs[2]!.toNat * 0x100 + bs[3]!.toNat

@[simp] theorem length_pack32 (n : ℕ) : (pack32 n).length = 4 := rfl

theorem unpack32_pack32 {n : ℕ} (h : n < 2 ^ 32) (bs : Bytes) : unpack32 (pack32 n ++ bs) = n := by
  simp only [unpack32, pack32, cons_append, getElem!_cons_zero, getElem!_cons_succ, UInt8.toNat_ofNat']
  omega

variable {u : Bytes}

theorem unpack32_append (h : 4 ≤ u.length) (v : Bytes) : unpack32 (u ++ v) = unpack32 u := by
  match u, h with
  | _ :: _ :: _ :: _ :: _, _ => rfl

/-! ### Cutting a frame -/

/-- `sizeof(header_buf)`. -/
def headerSize : ℕ := 12

/-- The comparison of `header_buf` with the magic: as far as four bytes have arrived. -/
def Kind.matches (k : Kind) (header : Bytes) : Bool :=
  if 4 ≤ header.length then header.take 4 = k.magic else header = k.magic.take header.length

/-- The parsers once they have read the sizes.  A frame whose `meta_size` exceeds its `body_size`
is popped, and others are to try. -/
def cutBody (k : Kind) (maxBodySize bodySize metaSize : ℕ) (source : Bytes) : Except ParseError Frame × Bytes :=
  if maxBodySize < bodySize then (.error .tooBigData, source)
  else if source.length < headerSize + bodySize then (.error .notEnoughData, source)
  else if bodySize < metaSize then (.error .tryOthers, source.drop (headerSize + bodySize))
  else
    let body := source.drop headerSize
    (.ok { kind := k, metaBuf := body.take metaSize, payload := (body.drop metaSize).take (bodySize - metaSize) },
     source.drop (headerSize + bodySize))

/-- `ParseRpcMessage` and `ParseStreamingMessage`: the answer and what is left of `source`. -/
def parseFrame (k : Kind) (maxBodySize : ℕ) (source : Bytes) : Except ParseError Frame × Bytes :=
  let header := source.take headerSize
  if ¬ k.matches header then (.error .tryOthers, source)
  else if header.length < headerSize then (.error .notEnoughData, source)
  else cutBody k maxBodySize (unpack32 (header.drop 4)) (unpack32 (header.drop 8)) source

def parseRpcMessage (maxBodySize : ℕ) : Bytes → Except ParseError Frame × Bytes :=
  parseFrame .baiduStd maxBodySize

/-- `ParseStreamingMessage`, up to what the stream does with the frame: the messenger gets
a `NULL` message in any case. -/
def parseStreamingMessage (maxBodySize : ℕ) : Bytes → Except ParseError Frame × Bytes :=
  parseFrame .streamingRpc maxBodySize

/-- `PackRpcHeader` and the frame behind it; `PackStreamMessage` packs the same. -/
def Frame.encode (f : Frame) : Bytes :=
  f.kind.magic ++ pack32 (f.metaBuf.length + f.payload.length) ++ pack32 f.metaBuf.length ++ f.metaBuf ++ f.payload

/-- A frame the peer may send: its body fits `body_size` and `max_body_size`. -/
structure Frame.WellFormed (maxBodySize : ℕ) (f : Frame) : Prop where
  size_le : f.metaBuf.length + f.payload.length ≤ maxBodySize
  size_lt : f.metaBuf.length + f.payload.length < 2 ^ 32

/-! ### The magic -/

/-- `s` starts with the magic of `k`, as far as it goes. -/
def Kind.Heads (k : Kind) (s : Bytes) : Prop := s.take 4 <+: k.magic

theorem Kind.matches_take (k : Kind) (s : Bytes) : k.matches (s.take headerSize) = true ↔ k.Heads s := by
  unfold Kind.matches Kind.Heads headerSize
  rw [prefix_iff_eq_take, length_take, length_take, take_take]
  split
  · rw [decide_eq_true_eq, Nat.min_eq_left (by omega : 4 ≤ 12),
      Nat.min_eq_left (by omega : 4 ≤ s.length), take_of_length_le (i := 4) (l := k.magic)]
    exact Nat.le_of_eq k.length_magic
  · rw [decide_eq_true_eq, take_of_length_le (by omega : s.length ≤ 12),
      take_of_length_le (by omega : s.length ≤ 4), Nat.min_eq_right (by omega : s.length ≤ 12),
      Nat.min_eq_right (by omega : s.length ≤ 4)]

variable {k : Kind}

theorem Kind.Heads.of_append {v : Bytes} (h : k.Heads (u ++ v)) : k.Heads u :=
  (IsPrefix.take (prefix_append u v) 4).trans h

theorem Kind.heads_append_iff (hu : 4 ≤ u.length) (v : Bytes) : k.Heads (u ++ v) ↔ k.Heads u := by
  rw [Kind.Heads, take_append_of_le_length hu, Kind.Heads]

variable {s : Bytes}

theorem Kind.Heads.unique {l : Kind} (hs : s ≠ []) (hk : k.Heads s) (hl : l.Heads s) : k = l := by
  obtain ⟨b, s, rfl⟩ := exists_cons_of_ne_nil hs
  cases k <;> cases l <;> simp_all [Kind.Heads, Kind.magic]

/-! ### More bytes behind -/

variable {m : ℕ}

theorem parseFrame_of_not_heads (h : ¬ k.Heads s) : parseFrame k m s = (.error .tryOthers, s) := by
  rw [parseFrame, if_pos (by rwa [Kind.matches_take])]

theorem parseFrame_of_length_lt (h : k.Heads s)
    (hs : s.length < headerSize) : parseFrame k m s = (.error .notEnoughData, s) := by
  rw [parseFrame, if_neg (by simpa [Kind.matches_take] using h), if_pos]
  rw [length_take]
  omega

theorem parseFrame_of_le_length (h : k.Heads s) (hs : headerSize ≤ s.length) :
    parseFrame k m s = cutBody k m (unpack32 ((s.take headerSize).drop 4))
      (unpack32 ((s.take headerSize).drop 8)) s := by
  rw [parseFrame, if_neg (by simpa [Kind.matches_take] using h), if_neg]
  rw [length_take]
  omega

theorem cutBody_append {b n : ℕ} (h : (cutBody k m b n u).1 ≠ .error .notEnoughData) (v : Bytes) :
    cutBody k m b n (u ++ v) = ((cutBody k m b n u).1, (cutBody k m b n u).2 ++ v) := by
  unfold cutBody at h ⊢
  by_cases hb : m < b
  · simp only [if_pos hb]
  by_cases hl : u.length < headerSize + b
  · simp [hb, hl] at h
  have hle : ¬ (u ++ v).length < headerSize + b := by
    rw [length_append]
    omega
  simp only [if_neg hb, if_neg hl, if_neg hle]
  rw [drop_append_of_le_length (by omega), drop_append_of_le_length (by omega)]
  by_cases hn : b < n
  · simp only [if_pos hn]
  · have hd : n ≤ (u.drop headerSize).length := by
      rw [length_drop]
      omega
    have hd' : b - n ≤ ((u.drop headerSize).drop n).length := by
      rw [length_drop, length_drop]
      omega
    simp only [if_neg hn]
    rw [take_append_of_le_length hd, drop_append_of_le_length hd, take_append_of_le_length hd']

/-- **Only "not enough data" is revised.**  Every other answer of a parser stays the same when
more bytes arrive. -/
theorem parseFrame_append (h : (parseFrame k m u).1 ≠ .error .notEnoughData) (v : Bytes) :
    parseFrame k m (u ++ v) = ((parseFrame k m u).1, (parseFrame k m u).2 ++ v) := by
  by_cases hk : k.Heads u
  · by_cases hu : u.length < headerSize
    · exact absurd (by rw [parseFrame_of_length_lt hk hu]) h
    have hle : headerSize ≤ u.length := Nat.le_of_not_lt hu
    have h4 : 4 ≤ u.length := by
      unfold headerSize at hle
      omega
    rw [parseFrame_of_le_length hk hle] at h ⊢
    rw [parseFrame_of_le_length ((Kind.heads_append_iff h4 v).mpr hk)
      (by rw [length_append]; omega), take_append_of_le_length hle]
    exact cutBody_append h v
  · rw [parseFrame_of_not_heads hk, parseFrame_of_not_heads fun h => hk h.of_append]

theorem parseFrame_cases (m : ℕ) (hk : k.Heads s) :
    parseFrame k m s = (.error .notEnoughData, s) ∨ parseFrame k m s = (.error .tooBigData, s) ∨
      (∃ r, parseFrame k m s = (.error .tryOthers, r)) ∨ ∃ f r, parseFrame k m s = (.ok f, r) ∧ f.kind = k := by
  by_cases hs : s.length < headerSize
  · exact .inl (parseFrame_of_length_lt hk hs)
  rw [parseFrame_of_le_length hk (Nat.le_of_not_lt hs)]
  unfold cutBody
  split
  · exact .inr (.inl rfl)
  · split
    · exact .inl rfl
    · split
      · exact .inr (.inr (.inl ⟨_, rfl⟩))
      · exact .inr (.inr (.inr ⟨_, _, rfl, rfl⟩))

theorem eq_of_parseFrame_notEnough {r : Bytes} (h : parseFrame k m s = (.error .notEnoughData, r)) : r = s := by
  by_cases hk : k.Heads s
  · rcases parseFrame_cases m hk with h' | h' | ⟨_, h'⟩ | ⟨_, _, h', -⟩
    · exact (Prod.mk.inj (h.symm.trans h')).2
    all_goals cases h.symm.trans h'
  · cases h.symm.trans (parseFrame_of_not_heads hk)

/-- A parser that takes bytes takes a whole frame, and would have answered the same had
nothing come behind it. -/
theorem parseFrame_consumed (hk : k.Heads s) (h : (parseFrame k m s).1 ≠ .error .notEnoughData)
    (h' : (parseFrame k m s).1 ≠ .error .tooBigData) :
    ∃ w, s = w ++ (parseFrame k m s).2 ∧ parseFrame k m w = ((parseFrame k m s).1, []) ∧ headerSize ≤ w.length := by
  by_cases hs : s.length < headerSize
  · exact absurd (by rw [parseFrame_of_length_lt hk hs]) h
  have hle : headerSize ≤ s.length := Nat.le_of_not_lt hs
  obtain ⟨b, hb⟩ : ∃ b, b = unpack32 ((s.take headerSize).drop 4) := ⟨_, rfl⟩
  have hm : ¬ m < b := by
    intro hm
    rw [parseFrame_of_le_length hk hle, ← hb, cutBody, if_pos hm] at h'
    exact h' rfl
  have hl : ¬ s.length < headerSize + b := by
    intro hl
    rw [parseFrame_of_le_length hk hle, ← hb, cutBody, if_neg hm, if_pos hl] at h
    exact h rfl
  obtain ⟨w, hw⟩ : ∃ w, w = s.take (headerSize + b) := ⟨_, rfl⟩
  have hsplit : s = w ++ s.drop (headerSize + b) := by rw [hw, take_append_drop]
  have hwlen : w.length = headerSize + b := by
    rw [hw, length_take]
    omega
  have hheader : w.take headerSize = s.take headerSize := by
    rw [hw, take_take, Nat.min_eq_left (by omega)]
  have hwk : k.Heads w := (hsplit ▸ hk).of_append
  have hparse : (parseFrame k m w).1 ≠ .error .notEnoughData := by
    rw [parseFrame_of_le_length hwk (by omega), hheader, ← hb, cutBody, if_neg hm, if_neg (by omega)]
    split <;> simp
  have hrest : (parseFrame k m w).2 = [] := by
    rw [parseFrame_of_le_length hwk (by omega), hheader, ← hb, cutBody, if_neg hm, if_neg (by omega)]
    split <;> simp [hwlen]
  have happ := parseFrame_append hparse (s.drop (headerSize + b))
  rw [← hsplit, hrest, nil_append] at happ
  exact ⟨w, by rw [happ]; exact hsplit, by rw [happ]; exact Prod.ext rfl hrest, by omega⟩

/-- What is left of the buffer is no more than there was, and less when a frame was cut. -/
theorem parseFrame_length_le (k : Kind) (m : ℕ) (s : Bytes) : (parseFrame k m s).2.length ≤ s.length := by
  by_cases hk : k.Heads s
  · rcases parseFrame_cases m hk with h | h | ⟨r, h⟩ | ⟨f, r, h, -⟩
    · simp [h]
    · simp [h]
    all_goals
      obtain ⟨w, hw, -⟩ := parseFrame_consumed hk (m := m) (by simp [h]) (by simp [h])
      exact (congrArg length hw).symm ▸ by simp
  · simp [parseFrame_of_not_heads hk]

theorem parseFrame_ok_length_lt {r : Bytes} {f : Frame} (h : parseFrame k m s = (.ok f, r)) : r.length < s.length := by
  have hk : k.Heads s := by
    by_contra hk
    rw [parseFrame_of_not_heads hk] at h
    cases h
  obtain ⟨w, hw, -, hlen⟩ := parseFrame_consumed hk (m := m) (by simp [h]) (by simp [h])
  have hpos : 0 < w.length := Nat.lt_of_lt_of_le (by decide) hlen
  rw [hw, h, length_append]
  exact Nat.lt_add_of_pos_left hpos

/-! ### Well-formed frames -/

theorem Frame.length_encode (f : Frame) : f.encode.length = headerSize + (f.metaBuf.length + f.payload.length) := by
  simp [Frame.encode, headerSize]
  omega

theorem Frame.heads_encode (f : Frame) : f.kind.Heads f.encode := by
  unfold Frame.encode Kind.Heads
  rw [append_assoc, append_assoc, append_assoc, take_append_of_le_length (by simp), take_of_length_le (by simp)]

/-- **Round trip.**  A parser cuts a well-formed frame of its protocol, and only that. -/
theorem parseFrame_encode {f : Frame} (hf : f.WellFormed m) (v : Bytes) :
    parseFrame f.kind m (f.encode ++ v) = (.ok f, v) := by
  have hlen := f.length_encode
  have hheader : f.encode.take headerSize = f.kind.magic ++
      pack32 (f.metaBuf.length + f.payload.length) ++ pack32 f.metaBuf.length := by
    rw [Frame.encode, append_assoc _ f.metaBuf]
    exact take_left' (by simp [headerSize])
  have hbody : f.encode.drop headerSize = f.metaBuf ++ f.payload := by
    rw [Frame.encode, append_assoc _ f.metaBuf]
    exact drop_left' (by simp [headerSize])
  have hb : unpack32 ((f.encode.take headerSize).drop 4) = f.metaBuf.length + f.payload.length := by
    rw [hheader, append_assoc, drop_left' (by simp)]
    exact unpack32_pack32 hf.size_lt _
  have hn : unpack32 ((f.encode.take headerSize).drop 8) = f.metaBuf.length := by
    rw [hheader, drop_left' (by simp), ← append_nil (pack32 _)]
    exact unpack32_pack32 (Nat.lt_of_le_of_lt (Nat.le_add_right _ _) hf.size_lt) _
  have hparse : parseFrame f.kind m f.encode = (.ok f, []) := by
    rw [parseFrame_of_le_length f.heads_encode (by omega), hb, hn, cutBody,
      if_neg (Nat.not_lt.mpr hf.size_le), if_neg (by omega), if_neg (by omega), hbody]
    simp [hlen]
  rw [parseFrame_append (by rw [hparse]; simp), hparse]
  rfl

end Brpc.Messenger
