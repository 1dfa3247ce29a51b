/-
# What stands at the head of the buffer

The magics of the two protocols differ in the first byte, so at most one parser finds its
own.  `scan` says what stands at the head of a buffer for both at once, and
`parseFrame_eq_answer` what each parser answers.
-/

import Brpc.Messenger.Frame
import Brpc.Lib.Run

namespace Brpc.Messenger

open List

/-- What stands at the head of a buffer. -/
inductive Scan
  /-- A part of a frame, or nothing. -/
  | more (k : Option Kind)
  /-- Neither magic. -/
  | unknown
  | tooBig (k : Kind)
  | frame (f : Frame) (rest : Bytes)
  /-- A frame whose `meta_size` exceeds its `body_size`. -/
  | corrupted (k : Kind) (rest : Bytes)

namespace Scan

/-- Whose magic it is. -/
def kind : Scan → Option Kind
  | more k => k
  | unknown => none
  | tooBig k => some k
  | frame f _ => some f.kind
  | corrupted k _ => some k

/-- What is behind the frame, when there is a whole one. -/
def rest : Scan → Option Bytes
  | frame _ r => some r
  | corrupted _ r => some r
  | more _ => none
  | unknown => none
  | tooBig _ => none

/-- The same with `v` behind. -/
def extend (v : Bytes) : Scan → Scan
  | frame f r => frame f (r ++ v)
  | corrupted k r => corrupted k (r ++ v)
  | more k => more k
  | unknown => unknown
  | tooBig k => tooBig k

/-- No handler takes what stands here, whatever follows. -/
def Rejected : Scan → Prop
  | unknown => True
  | tooBig _ => True
  | more _ => False
  | frame _ _ => False
  | corrupted _ _ => False

instance : (x : Scan) → Decidable x.Rejected
  | unknown => .isTrue trivial
  | tooBig _ => .isTrue trivial
  | more _ => .isFalse id
  | frame _ _ => .isFalse id
  | corrupted _ _ => .isFalse id

/-- What the parser of `k` answers to the buffer `s`. -/
def answer (k : Kind) (s : Bytes) : Scan → Except ParseError Frame × Bytes
  | more none => (.error .notEnoughData, s)
  | more (some l) => (.error (if l = k then .notEnoughData else .tryOthers), s)
  | unknown => (.error .tryOthers, s)
  | tooBig l => (.error (if l = k then .tooBigData else .tryOthers), s)
  | frame f r => if f.kind = k then (.ok f, r) else (.error .tryOthers, s)
  | corrupted l r => (.error .tryOthers, if l = k then r else s)

theorem answer_of_kind_ne {x : Scan} {k p : Kind} (h : x.kind = some k) (hne : k ≠ p)
    (s : Bytes) : x.answer p s = (.error .tryOthers, s) := by
  cases x <;> simp_all [kind, answer]

/-- What the parser of `k`, whose magic is there, has seen. -/
def ofAnswer (k : Kind) : Except ParseError Frame × Bytes → Scan
  | (.ok f, r) => frame f r
  | (.error .notEnoughData, _) => more (some k)
  | (.error .tooBigData, _) => tooBig k
  | (.error .tryOthers, r) => corrupted k r
  | (.error .noResource, r) => corrupted k r
  | (.error .absolutelyWrong, r) => corrupted k r

theorem ofAnswer_append (k : Kind) (a : Except ParseError Frame) (r v : Bytes) :
    ofAnswer k (a, r ++ v) = (ofAnswer k (a, r)).extend v := by
  cases a with
  | ok => rfl
  | error e => cases e <;> rfl

theorem eq_of_rest_ofAnswer {k : Kind} {a : Except ParseError Frame × Bytes} {r : Bytes}
    (h : (ofAnswer k a).rest = some r) : a.1 ≠ .error .notEnoughData ∧ a.1 ≠ .error .tooBigData ∧ a.2 = r := by
  obtain ⟨_ | e, t⟩ := a
  · next e =>
    cases e <;> simp_all [ofAnswer, rest]
  · simp_all [ofAnswer, rest]

end Scan

instance (k : Kind) (s : Bytes) : Decidable (k.Heads s) :=
  inferInstanceAs (Decidable (_ <+: _))

/-- What stands at the head of a buffer that starts with the magic of `k`. -/
def scanAs (m : ℕ) (k : Kind) (s : Bytes) : Scan := Scan.ofAnswer k (parseFrame k m s)

def scan (m : ℕ) (s : Bytes) : Scan :=
  if s = [] then .more none
  else if Kind.baiduStd.Heads s then scanAs m .baiduStd s
  else if Kind.streamingRpc.Heads s then scanAs m .streamingRpc s
  else .unknown

variable {m : ℕ}

@[simp] theorem scan_nil : scan m [] = .more none := rfl

variable {k : Kind} {s : Bytes}

theorem scan_of_heads (hs : s ≠ []) (hk : k.Heads s) : scan m s = scanAs m k s := by
  unfold scan
  rw [if_neg hs]
  split
  · next h => rw [h.unique hs hk]
  · next h =>
    cases k with
    | baiduStd => exact absurd hk h
    | streamingRpc => rw [if_pos hk]

theorem scan_of_not_heads (hs : s ≠ []) (h : ∀ k : Kind, ¬ k.Heads s) : scan m s = .unknown := by
  rw [scan, if_neg hs, if_neg (h _), if_neg (h _)]

theorem scanAs_cases (hk : k.Heads s) :
    (scanAs m k s = .more (some k) ∧ parseFrame k m s = (.error .notEnoughData, s)) ∨
    (scanAs m k s = .tooBig k ∧ parseFrame k m s = (.error .tooBigData, s)) ∨
    (∃ r, scanAs m k s = .corrupted k r ∧ parseFrame k m s = (.error .tryOthers, r)) ∨
    ∃ f r, scanAs m k s = .frame f r ∧ parseFrame k m s = (.ok f, r) ∧ f.kind = k := by
  unfold scanAs
  rcases parseFrame_cases m hk with h | h | ⟨r, h⟩ | ⟨f, r, h, hf⟩
  · exact .inl ⟨by rw [h, Scan.ofAnswer], h⟩
  · exact .inr (.inl ⟨by rw [h, Scan.ofAnswer], h⟩)
  · exact .inr (.inr (.inl ⟨r, by rw [h, Scan.ofAnswer], h⟩))
  · exact .inr (.inr (.inr ⟨f, r, by rw [h, Scan.ofAnswer], h, hf⟩))

theorem scanAs_kind (hk : k.Heads s) : (scanAs m k s).kind = some k := by
  rcases scanAs_cases (m := m) hk with h | h | ⟨r, h⟩ | ⟨f, r, h, -, hf⟩
  · rw [h.1, Scan.kind]
  · rw [h.1, Scan.kind]
  · rw [h.1, Scan.kind]
  · rw [h, Scan.kind, hf]

theorem heads_cases (s : Bytes) : s = [] ∨ (s ≠ [] ∧ ∃ k : Kind, k.Heads s) ∨ (s ≠ [] ∧ ∀ k : Kind, ¬ k.Heads s) := by
  by_cases hs : s = []
  · exact .inl hs
  by_cases h : ∃ k : Kind, k.Heads s
  · exact .inr (.inl ⟨hs, h⟩)
  · exact .inr (.inr ⟨hs, not_exists.mp h⟩)

/-- **What each parser answers follows from `scan`.** -/
theorem parseFrame_eq_answer (k : Kind) (s : Bytes) : parseFrame k m s = (scan m s).answer k s := by
  rcases heads_cases s with rfl | ⟨hs, l, hl⟩ | ⟨hs, h⟩
  · exact parseFrame_of_length_lt (by simp [Kind.Heads]) (by decide)
  · rw [scan_of_heads hs hl]
    by_cases hlk : l = k
    · subst hlk
      rcases scanAs_cases (m := m) hl with h | h | ⟨r, h⟩ | ⟨f, r, h, h', hf⟩
      · simp [h.1, h.2, Scan.answer]
      · simp [h.1, h.2, Scan.answer]
      · simp [h.1, h.2, Scan.answer]
      · simp [h, h', hf, Scan.answer]
    · rw [parseFrame_of_not_heads fun hk => hlk (hl.unique hs hk)]
      rcases scanAs_cases (m := m) hl with h | h | ⟨r, h⟩ | ⟨f, r, h, -, rfl⟩
      · simp [h.1, Scan.answer, hlk]
      · simp [h.1, Scan.answer, hlk]
      · simp [h.1, Scan.answer, hlk]
      · simp [h, Scan.answer, hlk]
  · rw [scan_of_not_heads hs h, parseFrame_of_not_heads (h k), Scan.answer]

/-! ### More bytes behind -/

theorem scan_eq_more_none_iff : scan m s = .more none ↔ s = [] := by
  refine ⟨fun h => ?_, fun h => h ▸ scan_nil⟩
  rcases heads_cases s with hs | ⟨hs, k, hk⟩ | ⟨hs, hn⟩
  · exact hs
  · rw [scan_of_heads hs hk] at h
    exact absurd (scanAs_kind (m := m) hk) (by rw [h]; simp [Scan.kind])
  · rw [scan_of_not_heads hs hn] at h
    cases h

variable {u : Bytes}

/-- **What is not a part of a frame stays.** -/
theorem scan_append (h : ∀ k, scan m u ≠ .more k) (v : Bytes) : scan m (u ++ v) = (scan m u).extend v := by
  rcases heads_cases u with rfl | ⟨hu, k, hk⟩ | ⟨hu, hn⟩
  · exact absurd scan_nil (h none)
  · have huv : u ++ v ≠ [] := append_ne_nil_of_left_ne_nil hu v
    rw [scan_of_heads hu hk] at h ⊢
    have hp : (parseFrame k m u).1 ≠ .error .notEnoughData := by
      intro hp
      exact h (some k) (by rw [scanAs, ← Prod.mk.eta (p := parseFrame k m u), hp, Scan.ofAnswer])
    -- the whole magic is there, for otherwise the parser would wait
    have hlen : headerSize ≤ u.length := by
      by_contra hlt
      exact hp (by rw [parseFrame_of_length_lt hk (Nat.lt_of_not_le hlt)])
    have h4 : 4 ≤ u.length := by
      unfold headerSize at hlen
      omega
    rw [scan_of_heads huv ((Kind.heads_append_iff h4 v).mpr hk), scanAs, parseFrame_append hp,
      Scan.ofAnswer_append, scanAs]
  · rw [scan_of_not_heads hu hn, scan_of_not_heads (append_ne_nil_of_left_ne_nil hu v)
      fun k hk => hn k hk.of_append, Scan.extend]

/-- **A part of a frame becomes the frame of the same protocol**, or turns out to be none. -/
theorem scan_append_part (h : scan m u = .more (some k)) (v : Bytes) :
    (scan m (u ++ v)).kind = some k ∨ scan m (u ++ v) = .unknown := by
  rcases heads_cases u with rfl | ⟨hu, l, hl⟩ | ⟨hu, hn⟩
  · cases h
  · have hlk : l = k := by
      have := scanAs_kind (m := m) hl
      rw [← scan_of_heads hu hl, h, Scan.kind] at this
      exact (Option.some.inj this).symm
    have huv : u ++ v ≠ [] := append_ne_nil_of_left_ne_nil hu v
    rcases heads_cases (u ++ v) with h' | ⟨-, l', hl'⟩ | ⟨-, hn⟩
    · exact absurd h' huv
    · left
      rw [scan_of_heads huv hl', scanAs_kind hl', hl'.of_append.unique hu hl, hlk]
    · exact .inr (scan_of_not_heads huv hn)
  · rw [scan_of_not_heads hu hn] at h
    cases h

variable {r : Bytes}

theorem scan_consumed (h : (scan m s).rest = some r) :
    ∃ w, s = w ++ r ∧ scan m s = (scan m w).extend r ∧ (scan m w).rest = some [] ∧ headerSize ≤ w.length := by
  rcases heads_cases s with rfl | ⟨hs, k, hk⟩ | ⟨hs, hn⟩
  · cases h
  · rw [scan_of_heads hs hk] at h ⊢
    obtain ⟨h₁, h₂, hr⟩ := Scan.eq_of_rest_ofAnswer h
    obtain ⟨w, hsplit, hw, hlen⟩ := parseFrame_consumed hk h₁ h₂
    rw [hr] at hsplit
    have hwk : k.Heads w := (hsplit ▸ hk).of_append
    have hwne : w ≠ [] := ne_nil_of_length_pos (Nat.lt_of_lt_of_le (by decide) hlen)
    have hs' : scanAs m k s = (scan m w).extend r := by
      rw [scan_of_heads hwne hwk, scanAs, scanAs, hw, ← Scan.ofAnswer_append, nil_append, ← hr]
    refine ⟨w, hsplit, hs', ?_, hlen⟩
    rw [hs'] at h
    revert h
    cases scan m w <;> simp [Scan.extend, Scan.rest]
  · rw [scan_of_not_heads hs hn] at h
    cases h

theorem scan_consumed_frame {f : Frame} (h : scan m s = .frame f r) :
    ∃ w, s = w ++ r ∧ scan m w = .frame f [] ∧ headerSize ≤ w.length := by
  obtain ⟨w, hs, hext, hrest, hlen⟩ := scan_consumed (m := m) (by rw [h, Scan.rest])
  refine ⟨w, hs, ?_, hlen⟩
  cases hw : scan m w <;> simp_all [Scan.extend, Scan.rest]

theorem scan_consumed_corrupted (h : scan m s = .corrupted k r) :
    ∃ w, s = w ++ r ∧ scan m w = .corrupted k [] ∧ headerSize ≤ w.length := by
  obtain ⟨w, hs, hext, hrest, hlen⟩ := scan_consumed (m := m) (by rw [h, Scan.rest])
  refine ⟨w, hs, ?_, hlen⟩
  cases hw : scan m w <;> simp_all [Scan.extend, Scan.rest]

theorem scan_of_append_eq {v : Bytes} (hu : u ≠ []) (hv : v ≠ [])
    (h : (scan m (u ++ v)).rest = some []) : scan m u = .more (scan m (u ++ v)).kind := by
  by_cases hmore : ∃ k, scan m u = .more k
  · obtain ⟨_ | k, hk⟩ := hmore
    · exact absurd (scan_eq_more_none_iff.mp hk) hu
    · rcases scan_append_part hk v with h' | h'
      · rw [hk, h']
      · rw [h'] at h
        cases h
  · rw [scan_append (not_exists.mp hmore)] at h
    revert h
    cases scan m u <;> simp [Scan.extend, Scan.rest, hv]

/-! ## Cutting messages from a socket

`InputMessenger::CutInputMessage` and the loop of `ProcessNewMessage` in
`src/brpc/input_messenger.cpp`, with a table of handlers indexed by protocol: `baidu_std` is at 1,
`streaming_rpc` at 2, the others are arbitrary.  The handler that cut last (`preferred_index`) is
tried first, then on the server all others, and on the client only `streaming_rpc` after `baidu_std`.
-/

abbrev Parse := Bytes → Except ParseError Frame × Bytes

/-- The `ProtocolType` of the two. -/
def Kind.index : Kind → ℕ
  | .baiduStd => 1
  | .streamingRpc => 2

/-- `_handlers`: what stands behind the two protocols is arbitrary. -/
structure Handlers where
  maxBodySize : ℕ
  others : List (Option Parse)

/-- `_handlers[index].parse`. -/
def Handlers.parse (hs : Handlers) : ℕ → Option Parse
  | 0 => none
  | 1 => some (parseRpcMessage hs.maxBodySize)
  | 2 => some (parseStreamingMessage hs.maxBodySize)
  | i + 3 => hs.others[i]?.join

def Handlers.maxIndex (hs : Handlers) : ℕ := 2 + hs.others.length

/-- What `CutInputMessage` reads and writes of a `Socket`, whose `_rdma_state` is
`RDMA_OFF`.  A `preferred_index` of -1 is `none`. -/
structure Socket where
  createdByConnect : Bool
  readBuf : Bytes
  preferredIndex : Option ℕ

/-- A handler settles the result, or answers `PARSE_ERROR_TRY_OTHERS`. -/
inductive Tried
  | finished (result : Except ParseError (ℕ × Frame)) (m : Socket)
  | others (m : Socket)

/-- One call of `parse` with the tests behind it. -/
def tryHandler (parse : Parse) (index : ℕ) (m : Socket) : Tried :=
  match parse m.readBuf with
  | (.ok msg, r) => .finished (.ok (index, msg)) { m with readBuf := r, preferredIndex := index }
  | (.error .notEnoughData, r) =>
    .finished (.error .notEnoughData) { m with readBuf := r, preferredIndex := index }
  | (.error .tryOthers, r) => .others { m with readBuf := r }
  | (.error e, r) => .finished (.error e) { m with readBuf := r }

/-- The buffer starts with `"RDMA"`. -/
def isRdmaHello (buf : Bytes) : Bool := buf.take 4 = [0x52, 0x44, 0x4d, 0x41]

/-- The `do` loop over the preferred handler.  It goes round again only from `baidu_std`
to `streaming_rpc`. -/
def cutPreferred (hs : Handlers) (parse : Parse) (preferred : ℕ) (m : Socket) : Tried :=
  match tryHandler parse preferred m with
  | .finished result m => .finished result m
  | .others m =>
    if isRdmaHello m.readBuf then .finished (.error .tryOthers) m
    else if ¬ m.createdByConnect then .others m
    else if preferred ≠ Kind.baiduStd.index then .finished (.error .absolutelyWrong) m
    else
      match tryHandler (parseStreamingMessage hs.maxBodySize) Kind.streamingRpc.index m with
      | .finished result m => .finished result m
      | .others m =>
        .finished (.error (if isRdmaHello m.readBuf then .tryOthers else .absolutelyWrong)) m

/-- The `for` loop over the other handlers. -/
def cutOthers (hs : Handlers) (preferred : Option ℕ) :
    List ℕ → Socket → Except ParseError (ℕ × Frame) × Socket
  | [], m => (.error .tryOthers, m)
  | i :: is, m =>
    if some i = preferred then cutOthers hs preferred is m
    else
      match hs.parse i with
      | none => cutOthers hs preferred is m
      | some parse =>
        match tryHandler parse i m with
        | .finished result m => (result, m)
        | .others m => cutOthers hs preferred is m

/-- `InputMessenger::CutInputMessage`: the index of the handler with the message. -/
def cutInputMessage (hs : Handlers) (m : Socket) : Except ParseError (ℕ × Frame) × Socket :=
  let indexes := List.range (hs.maxIndex + 1)
  match m.preferredIndex.bind fun i => (hs.parse i).map (i, ·) with
  | none => cutOthers hs m.preferredIndex indexes m
  | some (preferred, parse) =>
    match cutPreferred hs parse preferred m with
    | .finished result m => (result, m)
    | .others m' => cutOthers hs m.preferredIndex indexes { m' with preferredIndex := none }

/-! ### The loop -/

/-- How `ProcessNewMessage` has left the socket. -/
inductive Verdict
  /-- The buffer holds no whole message. -/
  | more
  /-- `SetFailed`. -/
  | failed
  /-- The loop has not ended within its fuel. -/
  | spinning
  deriving DecidableEq

/-- A socket with what was cut from it. -/
structure Conn where
  socket : Socket
  /-- The messages cut, in order. -/
  cut : List Frame
  /-- The number of bytes that the handlers have taken from the buffer. -/
  consumed : ℕ
  verdict : Verdict

/-- The socket as a call of `CutInputMessage` leaves it. -/
def Conn.leave (c : Conn) (m : Socket) : Conn :=
  { c with
    socket := m
    consumed := c.consumed + (c.socket.readBuf.length - m.readBuf.length) }

/-- The loop of `ProcessNewMessage`, for at most `fuel` messages. -/
def Conn.processNewMessage (hs : Handlers) : ℕ → Conn → Conn
  | 0, c => { c with verdict := .spinning }
  | fuel + 1, c =>
    match cutInputMessage hs c.socket with
    | (.ok (_, msg), m) => processNewMessage hs fuel { c.leave m with cut := c.cut ++ [msg] }
    | (.error .notEnoughData, m) => { c.leave m with verdict := .more }
    | (.error _, m) => { c.leave m with verdict := .failed }

/-- `DoRead` with `ProcessNewMessage` behind it.  A failed socket is read no more. -/
def Conn.read (hs : Handlers) (c : Conn) (bs : Bytes) : Conn :=
  if c.verdict = .more then
    let buf := c.socket.readBuf ++ bs
    processNewMessage hs (buf.length + 1) { c with socket := { c.socket with readBuf := buf } }
  else c

end Brpc.Messenger
