/-
# The two protocols on one socket

`CutInputMessage` with the handlers of `baidu_std` and `streaming_rpc`: the preferred one is
asked first, and the other one when that has no use for the buffer; a client whose preferred
protocol is `streaming_rpc` asks no other (`cutFrom`, `cutInputMessage_spec`).
-/

import Brpc.Messenger.Cut

namespace Brpc.Messenger

open List Option Conn

/-- What a call of `CutInputMessage` comes to, with the preferred protocol and the buffer
behind it. -/
inductive Cut
  | more (k : Kind) (buf : Bytes)
  | msg (f : Frame) (k : Kind) (buf : Bytes)
  | fail (buf : Bytes)

def Cut.buf : Cut → Bytes
  | more _ b => b
  | msg _ _ b => b
  | fail b => b

/-- A handler that is asked last. -/
def Cut.settle (k : Kind) : Except ParseError Frame × Bytes → Cut
  | (.ok f, r) => .msg f k r
  | (.error .notEnoughData, r) => .more k r
  | (.error _, r) => .fail r

/-- Who is asked when the handler of `k` has no use for the buffer. -/
def Kind.next (client : Bool) : Kind → Option Kind
  | .baiduStd => some .streamingRpc
  | .streamingRpc => if client then none else some .baiduStd

/-- `CutInputMessage` when the handler of `p` is asked first. -/
def cutFrom (m : ℕ) (client : Bool) (p : Kind) (s : Bytes) : Cut :=
  match parseFrame p m s with
  | (.error .tryOthers, r) =>
    match p.next client with
    | none => .fail r
    | some k => .settle k (parseFrame k m r)
  | a => .settle p a

/-- The handler of `p` is asked first.  Without a preferred protocol the server starts with
the lowest index. -/
def Socket.Prefers (m : Socket) (p : Kind) : Prop :=
  m.preferredIndex = some p.index ∨ m.preferredIndex = none ∧ p = .baiduStd ∧ m.createdByConnect = false

/-- `result` and the socket left are those of `cut`. -/
def Cut.Shows (sock : Socket) (out : Except ParseError (ℕ × Frame) × Socket) : Cut → Prop
  | more k r => out = (.error .notEnoughData,
      { sock with readBuf := r, preferredIndex := some k.index })
  | msg f k r => out = (.ok (k.index, f), { sock with readBuf := r, preferredIndex := some k.index })
  | fail r => ∃ e i, e ≠ .notEnoughData ∧ out = (.error e, { sock with readBuf := r, preferredIndex := i })

theorem parse_index (hs : Handlers) : ∀ k : Kind, hs.parse k.index = some (parseFrame k hs.maxBodySize)
  | .baiduStd => rfl
  | .streamingRpc => rfl

variable {s : Bytes}

theorem not_heads_of_isRdmaHello (h : isRdmaHello s = true) (k : Kind) : ¬ k.Heads s := by
  unfold isRdmaHello at h
  rw [decide_eq_true_eq] at h
  rw [Kind.Heads, h]
  cases k <;> decide

theorem tryHandler_spec (k : Kind) (m : ℕ) (sock : Socket) :
    (∃ out sock', tryHandler (parseFrame k m) k.index sock = .finished out sock' ∧
      (Cut.settle k (parseFrame k m sock.readBuf)).Shows sock (out, sock') ∧
      (parseFrame k m sock.readBuf).1 ≠ .error .tryOthers) ∨
    ∃ r, parseFrame k m sock.readBuf = (.error .tryOthers, r) ∧
      tryHandler (parseFrame k m) k.index sock = .others { sock with readBuf := r } := by
  unfold tryHandler
  obtain ⟨a, r⟩ := parseFrame k m sock.readBuf
  cases a with
  | ok => exact .inl ⟨_, _, rfl, rfl, by simp⟩
  | error e =>
    cases e with
    | tryOthers => exact .inr ⟨r, rfl, rfl⟩
    | notEnoughData => exact .inl ⟨_, _, rfl, rfl, by simp⟩
    | tooBigData => exact .inl ⟨_, _, rfl, ⟨.tooBigData, _, by simp, rfl⟩, by simp⟩
    | noResource => exact .inl ⟨_, _, rfl, ⟨.noResource, _, by simp, rfl⟩, by simp⟩
    | absolutelyWrong => exact .inl ⟨_, _, rfl, ⟨.absolutelyWrong, _, by simp, rfl⟩, by simp⟩

variable {r : Bytes}

theorem Cut.Shows.of_update {i j : Option ℕ} {c : Cut}
    {out : Except ParseError (ℕ × Frame) × Socket} (h : c.Shows ⟨client, r, j⟩ out) :
    c.Shows ⟨client, s, i⟩ out := by
  cases c with
  | more | msg | fail => exact h

variable {p : Kind}

theorem cutFrom_of_ne (h : (parseFrame p m s).1 ≠ .error .tryOthers) :
    cutFrom m client p s = .settle p (parseFrame p m s) := by
  unfold cutFrom
  split
  · next h' => exact absurd (by rw [h']) h
  · rfl

theorem cutFrom_of_eq (h : parseFrame p m s = (.error .tryOthers, r)) : cutFrom m client p s =
      match p.next client with | none => .fail r | some k => .settle k (parseFrame k m r) := by
  rw [cutFrom, h]

variable {k : Kind}

theorem cutFrom_of_next (h : (scan m s).kind = some k) (hk : k ≠ p) (hnext : p.next client = some k) :
    cutFrom m client p s = .settle k (parseFrame k m s) := by
  have hp : parseFrame p m s = (.error .tryOthers, s) := by
    rw [parseFrame_eq_answer, Scan.answer_of_kind_ne h hk]
  rw [cutFrom_of_eq hp, hnext]

/-- The handler asked last, with its answer. -/
def lastHandler (k : Kind) (m : ℕ) (sock : Socket) : Except ParseError (ℕ × Frame) × Socket :=
  match tryHandler (parseFrame k m) k.index sock with
  | .finished result sock' => (result, sock')
  | .others sock' => (.error .tryOthers, sock')

theorem lastHandler_spec (k : Kind) (m : ℕ) (client : Bool) (s r : Bytes) (i j : Option ℕ) :
    (Cut.settle k (parseFrame k m r)).Shows ⟨client, s, i⟩ (lastHandler k m ⟨client, r, j⟩) := by
  unfold lastHandler
  rcases tryHandler_spec k m ⟨client, r, j⟩ with ⟨out, sock', h, hshow, -⟩ | ⟨r', hr', h⟩
  · rw [h]
    exact hshow.of_update
  · rw [h, hr']
    exact ⟨.tryOthers, j, by simp, rfl⟩

variable {hs : Handlers}

theorem range_maxIndex (hno : hs.others = []) : List.range (hs.maxIndex + 1) = [0, 1, 2] := by
  simp [Handlers.maxIndex, hno, range_succ]

theorem cutOthers_preferred (hno : hs.others = []) (p : Kind) (sock : Socket) :
    cutOthers hs (some p.index) (List.range (hs.maxIndex + 1)) sock = lastHandler p.other hs.maxBodySize sock := by
  rw [range_maxIndex hno]
  cases p <;> rfl

theorem cutOthers_none (hno : hs.others = []) (sock : Socket) : cutOthers hs none (List.range (hs.maxIndex + 1)) sock =
      match tryHandler (parseFrame .baiduStd hs.maxBodySize) Kind.baiduStd.index sock with
      | .finished result m => (result, m)
      | .others m => lastHandler .streamingRpc hs.maxBodySize m := by
  rw [range_maxIndex hno]
  rfl

theorem cutInputMessage_after (hall : client = true ∨ hs.others = [])
    (hr : parseFrame p hs.maxBodySize s = (.error .tryOthers, r))
    (h : tryHandler (parseFrame p hs.maxBodySize) p.index ⟨client, s, some p.index⟩ =
      .others ⟨client, r, some p.index⟩) : (cutFrom hs.maxBodySize client p s).Shows ⟨client, s, some p.index⟩
      (cutInputMessage hs ⟨client, s, some p.index⟩) := by
  rw [cutFrom_of_eq hr, cutInputMessage, bind_some, parse_index, map_some]
  simp only [cutPreferred, h]
  by_cases hrdma : isRdmaHello r = true
  · rw [if_pos hrdma]
    cases p.next client with
    | none => exact ⟨.tryOthers, some p.index, by simp, rfl⟩
    | some k =>
      simp only [parseFrame_of_not_heads (not_heads_of_isRdmaHello hrdma k)]
      exact ⟨.tryOthers, some p.index, by simp, rfl⟩
  rw [if_neg hrdma]
  cases client with
  | false =>
    have hno : hs.others = [] := by simpa using hall
    have hnext : p.next false = some p.other := by cases p <;> rfl
    simp only [Bool.false_eq_true, not_false_eq_true, if_true, hnext, cutOthers_preferred hno]
    exact lastHandler_spec ..
  | true =>
    cases p with
    | streamingRpc => exact ⟨.absolutelyWrong, some Kind.streamingRpc.index, by simp, rfl⟩
    | baiduStd =>
      simp only [not_true_eq_false, if_false, ne_eq, parseStreamingMessage, Kind.next]
      rcases tryHandler_spec .streamingRpc hs.maxBodySize ⟨true, r, some Kind.baiduStd.index⟩ with
        ⟨out, sock', h', hshow, -⟩ | ⟨r', hr', h'⟩
      · rw [h']
        exact hshow.of_update
      · rw [h', hr']
        exact ⟨_, some Kind.baiduStd.index, by split <;> simp, rfl⟩

/-- **`CutInputMessage` for the two protocols**: on a client with any handlers, on a server
with these two. -/
theorem cutInputMessage_spec {sock : Socket}
    (hall : sock.createdByConnect = true ∨ hs.others = []) (hp : sock.Prefers p) :
    (cutFrom hs.maxBodySize sock.createdByConnect p sock.readBuf).Shows sock (cutInputMessage hs sock) := by
  obtain ⟨client, s, i⟩ := sock
  rcases hp with hp | ⟨hp, rfl, hc⟩
  · obtain rfl : i = some p.index := hp
    rcases tryHandler_spec p hs.maxBodySize ⟨client, s, some p.index⟩ with
      ⟨out, sock', h, hshow, hne⟩ | ⟨r, hr, h⟩
    · rw [cutFrom_of_ne hne, cutInputMessage, bind_some, parse_index, map_some]
      simp only [cutPreferred, h]
      exact hshow
    · exact cutInputMessage_after hall hr h
  · obtain rfl : i = none := hp
    obtain rfl : client = false := hc
    have hno : hs.others = [] := by simpa using hall
    rw [cutInputMessage, bind_none]
    simp only [cutOthers_none hno]
    rcases tryHandler_spec .baiduStd hs.maxBodySize ⟨false, s, none⟩ with
      ⟨out, sock', h, hshow, hne⟩ | ⟨r, hr, h⟩
    · rw [cutFrom_of_ne hne, h]
      exact hshow
    · rw [cutFrom_of_eq hr, h]
      exact lastHandler_spec ..

/-! ### The loop -/

/-- How the loop ends. -/
inductive End
  | more (k : Kind) (buf : Bytes)
  | fail (buf : Bytes)

def End.buf : End → Bytes
  | more _ b => b
  | fail b => b

/-- The loop of `ProcessNewMessage` from the preferred protocol `p` and the buffer `s`: the
messages it cuts and its end. -/
inductive Serves (m : ℕ) (client : Bool) : Kind → Bytes → List Frame → End → Prop
  | more {p k : Kind} {s r : Bytes} (h : cutFrom m client p s = .more k r) : Serves m client p s [] (.more k r)
  | fail {p : Kind} {s r : Bytes} (h : cutFrom m client p s = .fail r) : Serves m client p s [] (.fail r)
  | msg {p k : Kind} {s r : Bytes} {f : Frame} {fs : List Frame} {e : End}
      (h : cutFrom m client p s = .msg f k r) (hrest : Serves m client k r fs e) :
      Serves m client p s (f :: fs) e

variable {m : ℕ} {client : Bool}

theorem buf_settle (k : Kind) (a : Except ParseError Frame × Bytes) : (Cut.settle k a).buf = a.2 := by
  obtain ⟨(e | f), r⟩ := a
  · cases e <;> rfl
  · rfl

theorem cutFrom_length_le (p : Kind) (s : Bytes) : (cutFrom m client p s).buf.length ≤ s.length := by
  have hle := parseFrame_length_le p m s
  by_cases hne : (parseFrame p m s).1 = .error .tryOthers
  · rw [cutFrom_of_eq (Prod.ext hne rfl)]
    cases p.next client with
    | none => exact hle
    | some l =>
      simp only [buf_settle]
      exact (parseFrame_length_le l m _).trans hle
  · rw [cutFrom_of_ne hne, buf_settle]
    exact hle

theorem settle_length_lt {l : Kind} {f : Frame}
    (h : Cut.settle k (parseFrame k m s) = .msg f l r) : r.length < s.length := by
  obtain ⟨a, ha⟩ : ∃ a, parseFrame k m s = a := ⟨_, rfl⟩
  rw [ha] at h
  obtain ⟨(e | f'), r'⟩ := a
  · cases e <;> cases h
  · cases h
    exact parseFrame_ok_length_lt ha

theorem cutFrom_length_lt {f : Frame} (h : cutFrom m client p s = .msg f k r) : r.length < s.length := by
  by_cases hne : (parseFrame p m s).1 = .error .tryOthers
  · rw [cutFrom_of_eq (Prod.ext hne rfl)] at h
    cases hn : p.next client with
    | none => simp [hn] at h
    | some =>
      simp only [hn] at h
      exact (settle_length_lt h).trans_le (parseFrame_length_le p m s)
  · rw [cutFrom_of_ne hne] at h
    exact settle_length_lt h

theorem exists_serves (p : Kind) (s : Bytes) : ∃ fs e, Serves m client p s fs e := by
  induction hn : s.length using Nat.strong_induction_on generalizing p s with
  | _ n ih =>
    cases h : cutFrom m client p s with
    | more => exact ⟨_, _, .more h⟩
    | fail => exact ⟨_, _, .fail h⟩
    | msg f k r =>
      obtain ⟨fs, e, hrest⟩ := ih r.length (hn ▸ cutFrom_length_lt h) k r rfl
      exact ⟨_, _, .msg h hrest⟩

/-- What a message or a failure was found in stays where it is when more bytes arrive. -/
theorem settle_append {u : Bytes} (h : ∀ l b, Cut.settle k (parseFrame k m u) ≠ .more l b) (v : Bytes) :
    parseFrame k m (u ++ v) = ((parseFrame k m u).1, (parseFrame k m u).2 ++ v) := by
  refine parseFrame_append (fun hne => ?_) v
  refine h k (parseFrame k m u).2 ?_
  rw [show parseFrame k m u = (.error .notEnoughData, (parseFrame k m u).2) from Prod.ext hne rfl]
  rfl

/-- The same cut with `v` behind. -/
def Cut.extend (v : Bytes) : Cut → Cut
  | more k b => more k (b ++ v)
  | msg f k b => msg f k (b ++ v)
  | fail b => fail (b ++ v)

theorem Cut.settle_extend (k : Kind) (a : Except ParseError Frame) (b v : Bytes) :
    Cut.settle k (a, b ++ v) = (Cut.settle k (a, b)).extend v := by
  rcases a with e | f
  · cases e <;> rfl
  · rfl

/-- **Only the wait for more is revised.** -/
theorem cutFrom_append {u : Bytes} (h : ∀ k b, cutFrom m client p u ≠ .more k b)
    (v : Bytes) : cutFrom m client p (u ++ v) = (cutFrom m client p u).extend v := by
  by_cases hne : (parseFrame p m u).1 = .error .tryOthers
  · have hr' := parseFrame_append (by rw [hne]; simp) v
    rw [hne] at hr'
    rw [cutFrom_of_eq (Prod.ext hne rfl)] at h ⊢
    rw [cutFrom_of_eq hr']
    cases hn : p.next client with
    | none => rfl
    | some =>
      simp only [hn] at h ⊢
      rw [settle_append h, Cut.settle_extend]
  · rw [cutFrom_of_ne hne] at h ⊢
    have hr := settle_append h v
    rw [cutFrom_of_ne (by rw [hr]; exact hne), hr, Cut.settle_extend]

theorem settle_eq_more {l : Kind} {a : Except ParseError Frame × Bytes} {b : Bytes}
    (h : Cut.settle l a = .more k b) : l = k ∧ a = (.error .notEnoughData, b) := by
  obtain ⟨(e | f), r⟩ := a
  · cases e <;> cases h
    exact ⟨rfl, rfl⟩
  · cases h

theorem cutFrom_eq_more {b : Bytes} (h : cutFrom m client p s = .more k b) :
    parseFrame k m b = (.error .notEnoughData, b) := by
  have key : ∀ {l : Kind} {u : Bytes}, Cut.settle l (parseFrame l m u) = .more k b →
      parseFrame k m b = (.error .notEnoughData, b) := by
    intro l u hu
    obtain ⟨rfl, ha⟩ := settle_eq_more hu
    obtain rfl := eq_of_parseFrame_notEnough ha
    exact ha
  by_cases hne : (parseFrame p m s).1 = .error .tryOthers
  · rw [cutFrom_of_eq (Prod.ext hne rfl)] at h
    cases hn : p.next client with
    | none => simp [hn] at h
    | some => exact key (by simpa only [hn] using h)
  · rw [cutFrom_of_ne hne] at h
    exact key h

theorem cutFrom_of_notEnough
    (h : parseFrame p m s = (.error .notEnoughData, s)) : cutFrom m client p s = .more p s := by
  rw [cutFrom_of_ne (by rw [h]; simp), h, Cut.settle]

theorem cutFrom_nil (p : Kind) : cutFrom m client p [] = .more p [] :=
  cutFrom_of_notEnough (by rw [parseFrame_eq_answer, scan_nil, Scan.answer])

variable {e : End} {fs : List Frame}

theorem Serves.congr {q : Kind} {t : Bytes}
    (h : cutFrom m client p s = cutFrom m client q t) (hs : Serves m client q t fs e) :
    Serves m client p s fs e := by
  cases hs with
  | more h' => exact .more (h.trans h')
  | fail h' => exact .fail (h.trans h')
  | msg h' hrest => exact .msg (h.trans h') hrest

theorem Serves.unique {gs : List Frame} {e' : End}
    (h : Serves m client p s fs e) (h' : Serves m client p s gs e') : fs = gs ∧ e = e' := by
  induction h generalizing gs e' with
  | more h =>
    cases h' with
    | more h' => cases h.symm.trans h'; exact ⟨rfl, rfl⟩
    | fail h' | msg h' => cases h.symm.trans h'
  | fail h =>
    cases h' with
    | more h' | msg h' => cases h.symm.trans h'
    | fail h' => cases h.symm.trans h'; exact ⟨rfl, rfl⟩
  | msg h _ ih =>
    cases h' with
    | more h' | fail h' => cases h.symm.trans h'
    | msg h' hrest' =>
      cases h.symm.trans h'
      obtain ⟨rfl, rfl⟩ := ih hrest'
      exact ⟨rfl, rfl⟩

/-- The loop has left the connection so. -/
def End.Left (c : Conn) : End → Prop
  | more k _ => c.verdict = .more ∧ c.socket.preferredIndex = some k.index
  | fail _ => c.verdict = .failed

/-- `c'` is what `c` becomes when the loop cuts `fs` and ends with `e`. -/
structure Conn.Becomes (c : Conn) (fs : List Frame) (e : End) (c' : Conn) : Prop where
  cut : c'.cut = c.cut ++ fs
  readBuf : c'.socket.readBuf = e.buf
  client : c'.socket.createdByConnect = c.socket.createdByConnect
  consumed : c'.consumed + e.buf.length = c.consumed + c.socket.readBuf.length
  ended : e.Left c'

variable {c : Conn}

theorem Conn.consumed_leave {sock : Socket} (h : sock.readBuf.length ≤ c.socket.readBuf.length) :
    (c.leave sock).consumed + sock.readBuf.length = c.consumed + c.socket.readBuf.length := by
  simp only [leave]
  omega

theorem cut_of_cutFrom {x : Cut} (hs' : c.socket.readBuf = s) (hc : c.socket.createdByConnect = client)
    (hall : client = true ∨ hs.others = []) (hp : c.socket.Prefers p)
    (h : cutFrom hs.maxBodySize client p s = x) : x.Shows c.socket (cutInputMessage hs c.socket) ∧
      x.buf.length ≤ c.socket.readBuf.length := by
  subst hs' hc h
  exact ⟨cutInputMessage_spec hall hp, cutFrom_length_le p _⟩

/-- **The loop refines `Serves`**, within as many rounds as there are bytes. -/
theorem processNewMessage_spec (h : Serves hs.maxBodySize client p s fs e) {fuel : ℕ}
    (hs' : c.socket.readBuf = s) (hc : c.socket.createdByConnect = client)
    (hall : client = true ∨ hs.others = []) (hp : c.socket.Prefers p) (hfuel : s.length < fuel) :
    c.Becomes fs e (c.processNewMessage hs fuel) := by
  induction h generalizing c fuel with
  | @more p k s r h =>
    obtain ⟨hout, hle⟩ := cut_of_cutFrom hs' hc hall hp h
    obtain ⟨fuel, rfl⟩ : ∃ n, fuel = n + 1 := ⟨fuel - 1, by omega⟩
    rw [processNewMessage, show cutInputMessage hs c.socket = _ from hout]
    exact ⟨(append_nil _).symm, rfl, rfl, consumed_leave hle, rfl, rfl⟩
  | @fail p s r h =>
    obtain ⟨⟨e, i, he, hout⟩, hle⟩ := cut_of_cutFrom hs' hc hall hp h
    obtain ⟨fuel, rfl⟩ : ∃ n, fuel = n + 1 := ⟨fuel - 1, by omega⟩
    rw [processNewMessage, hout]
    cases e with
    | notEnoughData => exact absurd rfl he
    | _ => exact ⟨(append_nil _).symm, rfl, rfl, consumed_leave hle, rfl⟩
  | @msg p k s r f fs e h _ ih =>
    obtain ⟨hout, hle⟩ := cut_of_cutFrom hs' hc hall hp h
    have hlt := cutFrom_length_lt h
    obtain ⟨fuel, rfl⟩ : ∃ n, fuel = n + 1 := ⟨fuel - 1, by omega⟩
    rw [processNewMessage, show cutInputMessage hs c.socket = _ from hout]
    have hrest := ih (c := { c.leave { c.socket with readBuf := r, preferredIndex := some k.index }
      with cut := c.cut ++ [f] }) rfl hc (.inl rfl)
      (by omega : r.length < fuel)
    exact { hrest with
      cut := by rw [hrest.cut, append_assoc, singleton_append]
      consumed := hrest.consumed.trans (consumed_leave hle) }

/-- **A read of the two protocols' socket.** -/
theorem Conn.read_spec {bs : Bytes} (h : Serves hs.maxBodySize client p (c.socket.readBuf ++ bs) fs e)
    (hv : c.verdict = .more) (hc : c.socket.createdByConnect = client)
    (hall : client = true ∨ hs.others = []) (hp : c.socket.Prefers p) :
    Becomes { c with socket := { c.socket with readBuf := c.socket.readBuf ++ bs } } fs e (c.read hs bs) := by
  rw [read, if_pos hv]
  exact processNewMessage_spec h rfl hc hall hp (Nat.lt_succ_self _)

end Brpc.Messenger
