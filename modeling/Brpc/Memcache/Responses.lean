/-
# Matching memcache responses with requests

`ParseMemcacheMessage` of `src/brpc/policy/memcache_binary_protocol.cpp` collects as many responses
as the `PipelinedInfo` at the front of the socket's queue counts, and `ProcessNewMessage` calls it
after each read: `responses_matched`.
-/

import Brpc.Lib.Loop
import Brpc.Messenger.Frame

namespace Brpc.Memcache

open List Messenger Memcache

/-- `PipelinedInfo` of `socket.h`. -/
structure PipelinedInfo where
  count : ℕ
  authFlags : ℕ
  idWait : ℕ
  deriving DecidableEq

/-- `MostCommonMessage`: `pi.count` counts the responses collected in `meta`, until the message is
complete and gets the `PipelinedInfo` of its request. -/
structure MostCommonMessage where
  metaBuf : Bytes
  pi : PipelinedInfo
  deriving DecidableEq

def MostCommonMessage.get : MostCommonMessage := ⟨[], ⟨0, 0, 0⟩⟩

/-- The parts of the socket the parser uses, the messages cut so far, and whether a `CHECK` or the
socket has failed. -/
structure Conn where
  readBuf : Bytes
  pipelineQ : List PipelinedInfo
  parsingContext : Option MostCommonMessage
  messages : List MostCommonMessage
  checkFailed : Bool
  failed : Bool

/-! ### Headers -/

/-- `sizeof(MemcacheResponseHeader)`. -/
def headerSize : ℕ := 24

def magicResponse : UInt8 := 0x81

def saslAuth : UInt8 := 0x21

/-- `supported_cmd_map`. -/
def supportedCmds : List UInt8 :=
  [0x00, 0x01, 0x02, 0x03, 0x04, 0x05, 0x06, 0x08, 0x0b, 0x0a, 0x0e, 0x0f, 0x10, 0x1c, saslAuth]

def isSupportedCommand (command : UInt8) : Bool := supportedCmds.contains command

/-- The size of the response at the head of `buf`: header and `total_body_length`. -/
def responseSize (buf : Bytes) : ℕ := headerSize + unpack32 (buf.drop 8)

def command (r : Bytes) : UInt8 := r[1]!

/-- `header->status != 0`, in any byte order. -/
def isFailure (r : Bytes) : Bool := r[6]! ≠ 0 || r[7]! ≠ 0

/-- What is appended to `meta`: the header with `local_header`'s conversions, and the body. -/
def toHost (r : Bytes) : Bytes :=
  let field i n := (r.drop i).take n
  field 0 2 ++ (field 2 2).reverse ++ field 4 2 ++ (field 6 2).reverse ++ (field 8 4).reverse ++
    (field 12 4).reverse ++ (field 16 8).reverse ++ r.drop headerSize

/-! ### The parser -/

/-- What is done with a complete response, which has been cut off the buffer.  The loop goes on
unless there is an answer. -/
def onResponse (c : Conn) (r : Bytes) : Conn × Option (Except ParseError MostCommonMessage) :=
  if ¬ isSupportedCommand (command r) then (c, some (.error .notEnoughData))
  else match c.pipelineQ with
    | [] => (c, some (.error .notEnoughData))
    | pi :: q =>
      let msg := c.parsingContext.getD .get
      let msg := { msg with metaBuf := msg.metaBuf ++ toHost r }
      if command r = saslAuth then
        if isFailure r then
          ({ c with pipelineQ := q, parsingContext := some msg }, some (.error .noResource))
        else ({ c with parsingContext := none }, none)
      else
        let count := msg.pi.count + 1
        if pi.count ≤ count then
          ({ c with pipelineQ := q, parsingContext := none, checkFailed := c.checkFailed || count ≠ pi.count },
           some (.ok { msg with pi := pi }))
        else
          ({ c with parsingContext := some { msg with pi := { msg.pi with count := count } } }, none)

/-- A turn of the loop of `ParseMemcacheMessage`. -/
def turn (c : Conn) : Conn × Option (Except ParseError MostCommonMessage) :=
  match c.readBuf with
  | [] => (c, some (.error .notEnoughData))
  | magic :: _ =>
    if magic ≠ magicResponse then (c, some (.error .tryOthers))
    else if c.readBuf.length < headerSize then (c, some (.error .notEnoughData))
    else
      let size := responseSize c.readBuf
      if c.readBuf.length < size then (c, some (.error .notEnoughData))
      else onResponse { c with readBuf := c.readBuf.drop size } (c.readBuf.take size)

/-- `ParseMemcacheMessage`.  Each turn that goes on takes a response. -/
def parseMemcacheMessage (c : Conn) : Conn × Option (Except ParseError MostCommonMessage) :=
  Lib.loop turn (c.readBuf.length + 1) c

/-- A turn of the loop of `ProcessNewMessage`: a message is queued, lack of data ends the loop, and
any other error the connection. -/
def processTurn (c : Conn) : Conn × Option Unit :=
  match parseMemcacheMessage c with
  | (c, some (.ok msg)) => ({ c with messages := c.messages ++ [msg] }, none)
  | (c, some (.error .notEnoughData)) => (c, some ())
  | (c, _) => ({ c with failed := true }, some ())

/-- A read and `ProcessNewMessage` for it. -/
def read (c : Conn) (piece : Bytes) : Conn :=
  if c.failed then c
  else
    let c := { c with readBuf := c.readBuf ++ piece }
    (Lib.loop processTurn (c.readBuf.length + 1) c).1

/-- A connection with requests in flight. -/
def connect (q : List PipelinedInfo) : Conn := ⟨[], q, none, [], false, false⟩

/-! ### What it is for -/

/-- A response of a server. -/
structure Response where
  bytes : Bytes
  head_eq : bytes.head? = some magicResponse
  le_length : headerSize ≤ bytes.length
  length_eq : bytes.length = responseSize bytes

def encode (rs : List Response) : Bytes := rs.flatMap Response.bytes

/-- The responses that answer requests: those of `SASL_AUTH` are left out, and nothing follows a
failed one. -/
def answers : List Response → List Response
  | [] => []
  | r :: rs =>
    if command r.bytes = saslAuth then if isFailure r.bytes then [] else answers rs
    else r :: answers rs

/-- Each request gets as many answers as it counts, in order. -/
def requests : List PipelinedInfo → List Response → List MostCommonMessage
  | [], _ => []
  | pi :: q, rs =>
    if rs.length < pi.count then []
    else ⟨(rs.take pi.count).flatMap fun r => toHost r.bytes, pi⟩ :: requests q (rs.drop pi.count)

/-- What the parser relies on, when `k` responses of the first request have come: every response is of a supported
command, a request waits for it, and a `SASL_AUTH` that does not fail is answered between requests. -/
def Fits : List PipelinedInfo → ℕ → List Response → Prop
  | _, _, [] => True
  | [], _, _ :: _ => False
  | pi :: q, k, r :: rs =>
    isSupportedCommand (command r.bytes) ∧
      if command r.bytes = saslAuth then isFailure r.bytes ∨ k = 0 ∧ Fits (pi :: q) 0 rs
      else if k + 1 = pi.count then Fits q 0 rs else Fits (pi :: q) (k + 1) rs

/-- The first response has arrived whole. -/
def Complete (buf : Bytes) : Prop := headerSize ≤ buf.length ∧ responseSize buf ≤ buf.length

instance (buf : Bytes) : Decidable (Complete buf) := inferInstanceAs (Decidable (_ ∧ _))

/-! ### Responses at the head of the buffer -/

variable {q : List PipelinedInfo} {pi : PipelinedInfo} {r : Response} {rs todo : List Response}
  {collected : List Response} {c c' : Conn} {rem more : Bytes} {target : List MostCommonMessage}

theorem responseSize_eq {buf : Bytes} (hlen : headerSize ≤ buf.length)
    (hsplit : buf ++ rem = r.bytes ++ more) : responseSize buf = r.bytes.length := by
  have hr := r.le_length
  simp only [headerSize] at hlen hr
  have hdrop : buf.drop 8 ++ rem = r.bytes.drop 8 ++ more := by
    rw [← drop_append_of_le_length (by omega), hsplit, drop_append_of_le_length (by omega)]
  have hsize : unpack32 (buf.drop 8) = unpack32 (r.bytes.drop 8) := by
    rw [← unpack32_append (u := buf.drop 8) (by rw [length_drop]; omega) rem, hdrop,
      unpack32_append (by rw [length_drop]; omega)]
  rw [r.length_eq, responseSize, responseSize, hsize]

theorem not_complete_nil : ¬ Complete [] := by decide

theorem turn_cases (hsplit : c.readBuf ++ rem = r.bytes ++ more) :
    (turn c = (c, some (.error .notEnoughData)) ∧ ¬ Complete c.readBuf) ∨
      ∃ buf, turn c = onResponse { c with readBuf := buf } r.bytes ∧
        buf ++ rem = more ∧ buf.length < c.readBuf.length := by
  unfold turn
  split
  next hbuf => exact .inl ⟨rfl, hbuf ▸ not_complete_nil⟩
  next magic tail hbuf =>
    have hmagic : magic = magicResponse := by
      have h := congrArg List.head? hsplit
      rw [hbuf, head?_append, head?_append, r.head_eq] at h
      exact Option.some.inj h
    rw [if_neg (not_not_intro hmagic)]
    split
    next hlen => exact .inl ⟨rfl, fun h => by have := h.1; omega⟩
    next hlen =>
      have hsize := responseSize_eq (by omega) hsplit
      have hr := r.le_length
      simp only
      split
      next hlen' => exact .inl ⟨rfl, fun h => by have := h.2; omega⟩
      next hlen' =>
        obtain ⟨buf, heq, hmore⟩ := Lib.exists_append_of_split hsplit (by omega)
        refine .inr ⟨buf, ?_, hmore, ?_⟩
        · rw [hsize, heq, drop_left, take_left]
        · rw [heq, length_append]
          simp only [headerSize] at hr
          omega

/-! ### The invariant -/

theorem requests_of_lt (h : ∀ pi ∈ q.head?, collected.length < pi.count) : requests q collected = [] := by
  cases q with
  | nil => rfl
  | cons pi => rw [requests, if_pos (h pi rfl)]

theorem requests_cons (h : collected.length + 1 = pi.count) : requests (pi :: q) (collected ++ r :: rs)
      = ⟨(collected ++ [r]).flatMap fun r => toHost r.bytes, pi⟩ :: requests q rs := by
  have hlen : (collected ++ [r]).length = pi.count := by rw [length_append, ← h]; rfl
  have hsplit : collected ++ r :: rs = (collected ++ [r]) ++ rs := by
    rw [append_assoc, singleton_append]
  rw [requests, hsplit, if_neg (by rw [length_append]; omega), ← hlen, take_left, drop_left]

/-- `collected` are in the parsing context and `todo` have not been cut yet; `rem` is still to be
read, and `target` are the messages there will be. -/
structure Conn.Inv (target : List MostCommonMessage) (rem : Bytes) (todo collected : List Response)
    (c : Conn) : Prop where
  split : c.readBuf ++ rem = encode todo
  context : c.parsingContext.getD .get = ⟨collected.flatMap fun r => toHost r.bytes, ⟨collected.length, 0, 0⟩⟩
  pos : ∀ pi ∈ c.pipelineQ, 0 < pi.count
  fits : Fits c.pipelineQ collected.length todo
  few : ∀ pi ∈ c.pipelineQ.head?, collected.length < pi.count
  messages : c.messages ++ requests c.pipelineQ (collected ++ answers todo) = target
  checked : c.checkFailed = false
  running : c.failed = false

/-- The messages are out when the connection ends. -/
def Conn.Over (target : List MostCommonMessage) (c : Conn) : Prop :=
  c.messages = target ∧ c.checkFailed = false

/-- What an answer leaves; a message takes bytes of the `size` there were. -/
def Answered (target : List MostCommonMessage) (rem : Bytes) (size : ℕ) (c : Conn) :
    Except ParseError MostCommonMessage → Prop
  | .ok msg => (∃ todo, Conn.Inv target rem todo [] { c with messages := c.messages ++ [msg] })
      ∧ c.readBuf.length < size
  | .error .notEnoughData => (∃ todo collected, c.Inv target rem todo collected) ∧ ¬ Complete c.readBuf
  | .error _ => c.Over target

theorem Conn.Inv.onResponse (h : c.Inv target rem (r :: rs) collected) {buf : Bytes}
    (hbuf : buf ++ rem = encode rs) {size : ℕ} (hlen : buf.length < size) :
    (∃ c', onResponse { c with readBuf := buf } r.bytes = (c', none) ∧
        (∃ collected, c'.Inv target rem rs collected) ∧ c'.readBuf = buf) ∨
      ∃ c' a, onResponse { c with readBuf := buf } r.bytes = (c', some a) ∧
        Answered target rem size c' a := by
  have hfits := h.fits
  have hpos := h.pos
  have hfew := h.few
  have hmessages := h.messages
  rw [answers] at hmessages
  cases hq : c.pipelineQ with
  | nil => rw [hq, Fits] at hfits; exact hfits.elim
  | cons pi =>
    rw [hq] at hfits hpos hfew hmessages
    obtain ⟨hsupported, hfits⟩ := hfits
    have hlt := hfew pi rfl
    rw [Memcache.onResponse, if_neg (not_not_intro hsupported)]
    simp only [h.context]
    by_cases hsasl : command r.bytes = saslAuth
    · rw [if_pos hsasl] at hfits hmessages
      rw [if_pos hsasl]
      split_ifs at hmessages ⊢ with hfail
      · rw [append_nil, requests_of_lt hfew, append_nil] at hmessages
        exact .inr ⟨_, _, rfl, hmessages, h.checked⟩
      · obtain ⟨hzero, hrest⟩ := hfits.resolve_left hfail
        obtain rfl := length_eq_zero_iff.1 hzero
        exact .inl ⟨_, rfl, ⟨[], hbuf, rfl, hq ▸ hpos, hq ▸ hrest, hq ▸ hfew, hq ▸ hmessages, h.checked, h.running⟩,
          rfl⟩
    · rw [if_neg hsasl] at hfits hmessages
      rw [if_neg hsasl]
      split_ifs at hfits with hlast
      · rw [if_pos hlast.ge]
        rw [requests_cons hlast] at hmessages
        refine .inr ⟨_, _, rfl, ⟨rs, hbuf, rfl, fun pi hpi => hpos pi (mem_cons_of_mem _ hpi), hfits,
          fun pi hpi => hpos pi (mem_cons_of_mem _ (mem_of_mem_head? hpi)), ?_, ?_, h.running⟩, hlen⟩
        · rw [append_assoc]
          simpa using hmessages
        · simp [h.checked, hlast]
      · rw [if_neg (by omega)]
        refine .inl ⟨_, rfl, ⟨collected ++ [r], hbuf, ?_, hq ▸ hpos, ?_, ?_, ?_, h.checked, h.running⟩, rfl⟩
        · simp
        · simpa [hq] using hfits
        · rintro pi' hpi'
          simp only [head?_cons, Option.mem_def, Option.some.injEq] at hpi'
          subst hpi'
          rw [length_append, length_singleton]
          omega
        · simpa [hq] using hmessages

theorem Conn.Inv.turn {size : ℕ} (h : c.Inv target rem todo collected) (hle : c.readBuf.length ≤ size) :
    (∃ c', turn c = (c', none) ∧ (∃ todo collected, c'.Inv target rem todo collected) ∧
        c'.readBuf.length < c.readBuf.length) ∨
      ∃ c' a, turn c = (c', some a) ∧ Answered target rem size c' a := by
  cases todo with
  | nil =>
    have hbuf : c.readBuf = [] := (append_eq_nil_iff.1 h.split).1
    refine .inr ⟨c, .error .notEnoughData, ?_, ⟨[], collected, h⟩, hbuf ▸ not_complete_nil⟩
    rw [turn, hbuf]
  | cons r rs =>
    rcases turn_cases (h.split.trans flatMap_cons) with ⟨heq, hpart⟩ | ⟨buf, heq, hbuf, hlt⟩
    · exact .inr ⟨c, _, heq, ⟨r :: rs, collected, h⟩, hpart⟩
    · rw [heq]
      rcases h.onResponse hbuf (hlt.trans_le hle) with ⟨c', heq', ⟨l, hinv⟩, hbuf'⟩ | hanswer
      · exact .inl ⟨c', heq', ⟨rs, l, hinv⟩, hbuf' ▸ hlt⟩
      · exact .inr hanswer

theorem Conn.Inv.parse (h : c.Inv target rem todo collected) :
    ∃ c' a, parseMemcacheMessage c = (c', some a) ∧ Answered target rem c.readBuf.length c' a := by
  refine Lib.loop_spec (m := fun s => s.readBuf.length) (I := fun s =>
      (∃ todo collected, s.Inv target rem todo collected) ∧ s.readBuf.length ≤ c.readBuf.length)
    ?_ ⟨⟨todo, collected, h⟩, le_rfl⟩ (Nat.lt_succ_self _)
  rintro s ⟨⟨todo, collected, hs⟩, hle⟩
  rcases hs.turn hle with ⟨s', heq, hs', hlt⟩ | hanswer
  · exact .inl ⟨s', heq, ⟨hs', by omega⟩, hlt⟩
  · exact .inr hanswer

/-- A connection between two reads. -/
def Conn.Settled (target : List MostCommonMessage) (rem : Bytes) (c : Conn) : Prop :=
  ((∃ todo collected, c.Inv target rem todo collected) ∧ ¬ Complete c.readBuf) ∨ c.failed = true ∧ c.Over target

theorem Conn.Inv.process (h : c.Inv target rem todo collected) :
    ∃ c' a, Lib.loop processTurn (c.readBuf.length + 1) c = (c', some a) ∧ c'.Settled target rem := by
  refine Lib.loop_spec (m := fun s => s.readBuf.length)
    (I := fun s => ∃ todo collected, s.Inv target rem todo collected) ?_ ⟨todo, collected, h⟩
    (Nat.lt_succ_self _)
  rintro s ⟨todo, collected, hs⟩
  obtain ⟨s', a, heq, hanswer⟩ := hs.parse
  match a, hanswer with
  | .ok msg, ⟨⟨todo, hinv⟩, hlt⟩ =>
    exact .inl ⟨_, by rw [processTurn, heq], ⟨todo, [], hinv⟩, hlt⟩
  | .error .notEnoughData, hanswer =>
    exact .inr ⟨s', (), by rw [processTurn, heq], .inl hanswer⟩
  | .error .tryOthers, hover | .error .tooBigData, hover | .error .noResource, hover
  | .error .absolutelyWrong, hover =>
    exact .inr ⟨{ s' with failed := true }, (), by rw [processTurn, heq], .inr ⟨rfl, hover⟩⟩

theorem Conn.Settled.read {piece : Bytes} (h : c.Settled target (piece ++ rem)) :
    (read c piece).Settled target rem := by
  rw [Memcache.read]
  rcases h with ⟨⟨todo, collected, h⟩, -⟩ | ⟨hfailed, hover⟩
  · rw [if_neg (by rw [h.running]; exact Bool.false_ne_true)]
    have h' : Conn.Inv target rem todo collected { c with readBuf := c.readBuf ++ piece } :=
      { h with split := by rw [← h.split, append_assoc] }
    obtain ⟨c', a, heq, hsettled⟩ := h'.process
    show Conn.Settled target rem (Lib.loop processTurn _ _).1
    rw [heq]
    exact hsettled
  · rw [if_pos hfailed]
    exact .inr ⟨hfailed, hover⟩

theorem Conn.Settled.reads {pieces : List Bytes} (h : c.Settled target (pieces.flatten ++ rem)) :
    (pieces.foldl Memcache.read c).Settled target rem := by
  induction pieces generalizing c with
  | nil => exact h
  | cons piece pieces ih =>
    rw [flatten_cons, append_assoc] at h
    exact ih h.read

theorem Conn.Settled.messages_eq (h : c.Settled target []) : c.messages = target := by
  rcases h with ⟨⟨todo, collected, h⟩, hpart⟩ | ⟨-, hover⟩
  · cases todo with
    | nil =>
      rw [← h.messages, answers, append_nil, requests_of_lt h.few, append_nil]
    | cons r rs =>
      have hbuf : c.readBuf ++ [] = r.bytes ++ encode rs := h.split.trans flatMap_cons
      have hlen : r.bytes.length ≤ c.readBuf.length := by
        rw [append_nil] at hbuf
        rw [hbuf, length_append]
        exact Nat.le_add_right _ _
      have hhead := r.le_length.trans hlen
      exact absurd ⟨hhead, (responseSize_eq hhead hbuf).trans_le hlen⟩ hpart
  · exact hover.1

/-- **Responses are matched with requests in any fragmentation**, as long as every response fits:
however the stream is cut into reads, no response that has arrived whole is left over, and in the
end each request has its responses. -/
theorem responses_matched (hq : ∀ pi ∈ q, 0 < pi.count) (hfits : Fits q 0 rs)
    (pieces : List Bytes) (hread : pieces.flatten ++ rem = encode rs) :
    let c := pieces.foldl read (connect q)
    c.checkFailed = false ∧ (c.failed = false → ¬ Complete c.readBuf) ∧
      (rem = [] → c.messages = requests q (answers rs)) := by
  intro c
  have hc : c.Settled (requests q (answers rs)) rem := by
    refine Conn.Settled.reads (.inl ⟨⟨rs, [], hread, rfl, hq, hfits, ?_, rfl, rfl, rfl⟩, not_complete_nil⟩)
    exact fun pi hpi => hq pi (mem_of_mem_head? hpi)
  refine ⟨?_, ?_, ?_⟩
  · rcases hc with ⟨⟨_, _, h⟩, -⟩ | ⟨-, h⟩
    · exact h.checked
    · exact h.2
  · intro hrunning
    rcases hc with ⟨-, h⟩ | ⟨hfailed, -⟩
    · exact h
    · rw [hrunning] at hfailed
      exact absurd hfailed Bool.false_ne_true
  · rintro rfl
    exact hc.messages_eq

/-- A response without a body. -/
def emptyResponse (command : UInt8) : Response where
  bytes := [0x81, command] ++ replicate 22 0
  head_eq := rfl
  le_length := le_of_eq rfl
  length_eq := by simp [responseSize, headerSize, unpack32]

/-- A `SASL_AUTH`, then the answers of two requests, the second in two reads. -/
theorem saslAuth_then_matched : let rs := [emptyResponse saslAuth, emptyResponse 0, emptyResponse 1, emptyResponse 0]
    let stream := encode rs
    let c := [stream.take 70, stream.drop 70].foldl read (connect [⟨2, 0, 5⟩, ⟨1, 0, 6⟩])
    c.checkFailed = false ∧ c.messages.map (·.pi.idWait) = [5, 6] := by
  have h := @responses_matched [⟨2, 0, 5⟩, ⟨1, 0, 6⟩]
    [emptyResponse saslAuth, emptyResponse 0, emptyResponse 1, emptyResponse 0] []
    (by decide) (by simp [Fits, emptyResponse]; decide) [_, _] (by
      rw [flatten_cons, flatten_singleton, append_nil]
      exact take_append_drop 70 _)
  refine ⟨h.1, ?_⟩
  rw [h.2.2 rfl]
  decide

/-- A response of an unsupported command: the one behind it is left in the buffer if it has come in
the same read.  A `SASL_AUTH` between two responses of a request throws away the first. -/
theorem unsupported_leaves_response : (let stream := encode [emptyResponse 0x07, emptyResponse 0]
     let c := [stream].foldl read (connect [⟨1, 0, 5⟩])
     c.failed = false ∧ Complete c.readBuf ∧ c.messages = [] ∧
       ([stream.take 24, stream.drop 24].foldl read (connect [⟨1, 0, 5⟩])).messages
         = requests [⟨1, 0, 5⟩] [emptyResponse 0]) ∧
    let rs := [emptyResponse 0, emptyResponse saslAuth, emptyResponse 1, emptyResponse 2]
    ([encode rs].foldl read (connect [⟨2, 0, 5⟩])).messages
      = requests [⟨2, 0, 5⟩] [emptyResponse 1, emptyResponse 2] := by
  decide

end Brpc.Memcache
