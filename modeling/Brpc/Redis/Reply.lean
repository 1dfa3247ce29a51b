/-
# Parsing replies of redis

`RedisReply::ConsumePartialIOBuf` of `brpc/redis_reply.cpp`.  A call that does not find enough data
leaves the buffer as it is, except that an array keeps the sub replies parsed so far and the index
of the one to go on with (`last_index`).  The texts of the error log are kept as the `Reason` of a
parse error, and `alloc` says which sizes the arena can allocate.

Every array takes a header off the buffer before it recurses, so the depth of a reply and the length
of the buffer bound how deep `consume` goes (`consume_depth`).
-/

import Brpc.Messenger.Frame

namespace Brpc.Redis

open Messenger (Bytes)

/-- A `RedisReply`: its type and data.  `lastIndex` of an array is not negative while the parsing
is suspended in it. -/
inductive Reply
  | nil
  | integer (value : ℤ)
  | string (text : Bytes)
  | status (text : Bytes)
  | error (text : Bytes)
  | array (lastIndex : ℤ) (subs : List Reply)

/-- Why a reply is absolutely wrong. -/
inductive Reason
  | invalidFirstCharacter
  | simpleStringTooLong
  | notDecimal
  | bulkStringTooLong
  | notEndedWithCrlf
  | tooManySubReplies
  | failToAllocate
  /-- The depth given to `consume` is used up. -/
  | tooDeep
  deriving DecidableEq

/-- PARSE_OK, PARSE_ERROR_NOT_ENOUGH_DATA and PARSE_ERROR_ABSOLUTELY_WRONG -/
inductive ParseError
  | ok
  | notEnoughData
  | absolutelyWrong (r : Reason)
  deriving DecidableEq

/-- What a call returns, and what it leaves of the reply and the buffer. -/
structure Result where
  err : ParseError
  reply : Reply
  left : Bytes

/-! ## Numbers -/

/-- The position of the first CRLF. -/
def findCrlf : Bytes → Option ℕ
  | [] => none
  | b :: bs => if b = 13 ∧ bs.head? = some 10 then some 0 else (findCrlf bs).map (· + 1)

def isSpace (b : UInt8) : Bool := b = 32 || (9 ≤ b && b ≤ 13)

def isDigit (b : UInt8) : Bool := 48 ≤ b && b ≤ 57

/-- The value of decimal digits. -/
def decimal (ds : Bytes) : ℕ := ds.foldl (fun n d => 10 * n + (d.toNat - 48)) 0

/-- The `int64_t` closest to a number. -/
def clamp (v : ℤ) : ℤ := max (-2 ^ 63) (min v (2 ^ 63 - 1))

/-- The digits at the front as a number with the sign `neg`, and how many characters it takes with
a sign of length `k`. -/
def signedDigits (neg : Bool) (k : ℕ) (bs : Bytes) : ℤ × ℕ :=
  match bs.takeWhile isDigit with
  | [] => (0, 0)
  | d :: ds =>
    (clamp (if neg then -decimal (d :: ds) else decimal (d :: ds)), k + (ds.length + 1))

/-- A number with an optional sign. -/
def signed (bs : Bytes) : ℤ × ℕ :=
  match bs with
  | 45 :: bs => signedDigits true 1 bs
  | 43 :: bs => signedDigits false 1 bs
  | bs => signedDigits false 0 bs

/-- `strtoll` in base 10: white space is skipped.  The second component is where `endptr` points
to. -/
def strtoll (bs : Bytes) : ℤ × ℕ :=
  if (signed (bs.dropWhile isSpace)).2 = 0 then (0, 0)
  else
    ((signed (bs.dropWhile isSpace)).1, (bs.takeWhile isSpace).length + (signed (bs.dropWhile isSpace)).2)

/-- The number of a header, with the position of the CRLF behind it. -/
inductive Number
  | notEnoughData
  | invalid
  | value (v : ℤ) (crlfPos : ℕ)
  deriving DecidableEq

/-- The number behind the first character, looked for in the first 31 bytes. -/
def readNumber (buf : Bytes) : Number :=
  match findCrlf (buf.take 31) with
  | none => .notEnoughData
  | some crlfPos =>
    if 1 + (strtoll ((buf.take 31).drop 1)).2 = crlfPos then
      .value (strtoll ((buf.take 31).drop 1)).1 crlfPos
    else .invalid

/-! ## Replies -/

variable (alloc : ℕ → Bool)

/-- Strings of less than `sizeof(short_str)` bytes need no memory. -/
def hasRoom (len : ℕ) : Bool := len < 16 || alloc ((len / 8 + 1) * 8)

/-- A simple string or an error, up to CRLF. -/
def consumeSimple (isError : Bool) (r : Reply) (buf : Bytes) : Result :=
  match findCrlf buf with
  | none =>
    if 2 ^ 32 - 1 < buf.length then ⟨.absolutelyWrong .simpleStringTooLong, r, buf⟩
    else ⟨.notEnoughData, r, buf⟩
  | some pos =>
    let text := (buf.take pos).drop 1
    if hasRoom alloc text.length then
      ⟨.ok, if isError then .error text else .status text, buf.drop (pos + 2)⟩
    else ⟨.absolutelyWrong .failToAllocate, r, buf.drop (pos + 2)⟩

/-- A bulk string of length `len`, a negative length being nil. -/
def consumeBulk (len : ℤ) (crlfPos : ℕ) (r : Reply) (buf : Bytes) : Result :=
  if len < 0 then ⟨.ok, .nil, buf.drop (crlfPos + 2)⟩
  else if 2 ^ 32 - 1 < len then ⟨.absolutelyWrong .bulkStringTooLong, r, buf⟩
  else if buf.length < crlfPos + 2 + len.toNat + 2 then ⟨.notEnoughData, r, buf⟩
  else if hasRoom alloc len.toNat then
    let body := buf.drop (crlfPos + 2)
    let rest := body.drop len.toNat
    ⟨if rest.take 2 = [13, 10] then .ok else .absolutelyWrong .notEndedWithCrlf,
      .string (body.take len.toNat), rest.drop 2⟩
  else ⟨.absolutelyWrong .failToAllocate, r, buf⟩

/-- `_length` and `last_index` of an array are of type `int`. -/
def toInt32 (n : ℕ) : ℤ := if n < 2 ^ 31 then n else n - 2 ^ 32

/-- The sub replies `todo` are parsed one after the other behind those of `done`. -/
def consumeSubs (f : Reply → Bytes → Result) : List Reply → List Reply → Bytes → Result
  | done, [], buf => ⟨.ok, .array (-1) done, buf⟩
  | done, r :: todo, buf =>
    match f r buf with
    | ⟨.ok, r', left⟩ => consumeSubs f (done ++ [r']) todo left
    | ⟨err, r', left⟩ => ⟨err, .array (toInt32 done.length) (done ++ r' :: todo), left⟩

/-- An array of `count` replies, a negative count being nil. -/
def consumeArray (f : Reply → Bytes → Result) (count : ℤ) (crlfPos : ℕ) (r : Reply) (buf : Bytes) : Result :=
  if count < 0 then ⟨.ok, .nil, buf.drop (crlfPos + 2)⟩
  else if count = 0 then ⟨.ok, .array (-1) [], buf.drop (crlfPos + 2)⟩
  else if 2 ^ 32 - 1 < count then ⟨.absolutelyWrong .tooManySubReplies, r, buf⟩
  else if alloc (32 * count.toNat) then
    consumeSubs f [] (List.replicate count.toNat .nil) (buf.drop (crlfPos + 2))
  else ⟨.absolutelyWrong .failToAllocate, r, buf⟩

/-- An integer, a bulk string or an array, which start with a number. -/
def consumeNumber (f : Reply → Bytes → Result) (fc : UInt8) (r : Reply) (buf : Bytes) : Result :=
  match readNumber buf with
  | .notEnoughData => ⟨.notEnoughData, r, buf⟩
  | .invalid => ⟨.absolutelyWrong .notDecimal, r, buf⟩
  | .value v crlfPos =>
    -- ':' and '$'
    if fc = 58 then ⟨.ok, .integer v, buf.drop (crlfPos + 2)⟩
    else if fc = 36 then consumeBulk alloc v crlfPos r buf
    else consumeArray alloc f v crlfPos r buf

/-- A reply is parsed from its first character on. -/
def consumeNew (f : Reply → Bytes → Result) (r : Reply) (buf : Bytes) : Result :=
  match buf.head? with
  | none => ⟨.notEnoughData, r, buf⟩
  | some fc =>
    -- '-', '+', then '$', '*', ':'
    if fc = 45 ∨ fc = 43 then consumeSimple alloc (fc == 45) r buf
    else if fc = 36 ∨ fc = 42 ∨ fc = 58 then consumeNumber alloc f fc r buf
    else ⟨.absolutelyWrong .invalidFirstCharacter, r, buf⟩

/-- `ConsumePartialIOBuf` with arrays nested up to a depth: a suspended array goes on at
its `last_index`. -/
def consume : ℕ → Reply → Bytes → Result
  | 0, r, buf => ⟨.absolutelyWrong .tooDeep, r, buf⟩
  | depth + 1, .array lastIndex subs, buf =>
    if 0 ≤ lastIndex then
      if lastIndex < toInt32 subs.length then
        consumeSubs (consume depth) (subs.take lastIndex.toNat) (subs.drop lastIndex.toNat) buf
      else ⟨.ok, .array (-1) subs, buf⟩
    else consumeNew alloc (consume depth) (.array lastIndex subs) buf
  | depth + 1, r, buf => consumeNew alloc (consume depth) r buf

/-- How deep the arrays of a reply are nested. -/
def Reply.depth : Reply → ℕ
  | .array _ subs => go subs + 1
  | _ => 0
where
  /-- The depth of the deepest reply of a list. -/
  go : List Reply → ℕ
  | [] => 0
  | r :: rs => max r.depth (go rs)

/-- `ConsumePartialIOBuf` -/
def consumePartial (r : Reply) (buf : Bytes) : Result :=
  consume alloc (r.depth + buf.length + 1) r buf

/-- The buffer is fed piece by piece, until `ConsumePartialIOBuf` has an outcome.  What has not
been fed then is added to what is left. -/
def feed : Reply → Bytes → List Bytes → Result
  | r, buf, [] => ⟨.notEnoughData, r, buf⟩
  | r, buf, piece :: pieces =>
    match consumePartial alloc r (buf ++ piece) with
    | ⟨.notEnoughData, r', left⟩ => feed r' left pieces
    | ⟨err, r', left⟩ => ⟨err, r', left ++ pieces.flatten⟩

/-! ## The depth of the recursion -/

open List

variable {alloc : ℕ → Bool}

/-! ## The cases of a call -/

section

variable (alloc : ℕ → Bool)

theorem consume_succ (r : Reply) :
    (∃ i subs, r = .array i subs ∧ 0 ≤ i ∧ i < toInt32 subs.length ∧ ∀ depth buf, consume alloc (depth + 1) r buf
        = consumeSubs (consume alloc depth) (subs.take i.toNat) (subs.drop i.toNat) buf)
    ∨ (∃ i subs, r = .array i subs ∧ toInt32 subs.length ≤ i ∧ ∀ depth buf,
      consume alloc (depth + 1) r buf = ⟨.ok, .array (-1) subs, buf⟩) ∨ ∀ depth buf,
      consume alloc (depth + 1) r buf = consumeNew alloc (consume alloc depth) r buf := by
  cases r with
  | array i subs =>
    by_cases hi : 0 ≤ i
    · by_cases hlt : i < toInt32 subs.length
      · refine .inl ⟨i, subs, rfl, hi, hlt, fun depth buf => ?_⟩
        rw [consume, if_pos hi, if_pos hlt]
      · refine .inr (.inl ⟨i, subs, rfl, Int.not_lt.1 hlt, fun depth buf => ?_⟩)
        rw [consume, if_pos hi, if_neg hlt]
    · refine .inr (.inr fun depth buf => ?_)
      rw [consume, if_neg hi]
  | nil | integer | string | status | error => exact .inr (.inr fun _ _ => rfl)

theorem consumeNew_cases (fc : UInt8) : (∃ isError, ∀ {f r buf}, buf.head? = some fc →
      consumeNew alloc f r buf = consumeSimple alloc isError r buf)
    ∨ (fc ≠ 13 ∧ ∀ {f r buf}, buf.head? = some fc → consumeNew alloc f r buf = consumeNumber alloc f fc r buf)
    ∨ ∀ {f r buf}, buf.head? = some fc →
      consumeNew alloc f r buf = ⟨.absolutelyWrong .invalidFirstCharacter, r, buf⟩ := by
  by_cases hsimple : fc = 45 ∨ fc = 43
  · refine .inl ⟨fc == 45, fun hfc => ?_⟩
    rw [consumeNew, hfc]
    exact if_pos hsimple
  by_cases hnum : fc = 36 ∨ fc = 42 ∨ fc = 58
  · refine .inr (.inl ⟨?_, fun hfc => ?_⟩)
    · rintro rfl
      exact absurd hnum (by decide)
    · rw [consumeNew, hfc]
      exact (if_neg hsimple).trans (if_pos hnum)
  · refine .inr (.inr fun hfc => ?_)
    rw [consumeNew, hfc]
    exact (if_neg hsimple).trans (if_neg hnum)

/-- What the number behind it is: the reply, the length of a bulk string or of an array. -/
theorem consumeNumber_cases (fc : UInt8) : (fc ≠ 36 ∧ ∀ {v pos f r buf}, readNumber buf = .value v pos →
      consumeNumber alloc f fc r buf = ⟨.ok, .integer v, buf.drop (pos + 2)⟩)
    ∨ (fc = 36 ∧ ∀ {v pos f r buf}, readNumber buf = .value v pos →
      consumeNumber alloc f fc r buf = consumeBulk alloc v pos r buf)
    ∨ (fc ≠ 36 ∧ ∀ {v pos f r buf}, readNumber buf = .value v pos →
      consumeNumber alloc f fc r buf = consumeArray alloc f v pos r buf) := by
  by_cases hint : fc = 58
  · refine .inl ⟨by rw [hint]; decide, fun h => ?_⟩
    rw [consumeNumber, h]
    exact if_pos hint
  by_cases hbulk : fc = 36
  · refine .inr (.inl ⟨hbulk, fun h => ?_⟩)
    rw [consumeNumber, h]
    exact (if_neg hint).trans (if_pos hbulk)
  · refine .inr (.inr ⟨hbulk, fun h => ?_⟩)
    rw [consumeNumber, h]
    exact (if_neg hint).trans (if_neg hbulk)

/-- An array without sub replies is taken off or refused, and those of others are parsed. -/
theorem consumeArray_cases (count : ℤ) (pos : ℕ) (r : Reply) : (∃ r', r'.depth ≤ 1 ∧ ∀ f buf,
      consumeArray alloc f count pos r buf = ⟨.ok, r', buf.drop (pos + 2)⟩)
    ∨ (∃ e ≠ .notDecimal, ∀ f buf, consumeArray alloc f count pos r buf = ⟨.absolutelyWrong e, r, buf⟩)
    ∨ ∀ f buf, consumeArray alloc f count pos r buf
        = consumeSubs f [] (List.replicate count.toNat .nil) (buf.drop (pos + 2)) := by
  unfold consumeArray
  split_ifs
  · exact .inl ⟨.nil, Nat.zero_le _, fun _ _ => rfl⟩
  · exact .inl ⟨.array (-1) [], Nat.le_refl _, fun _ _ => rfl⟩
  · exact .inr (.inl ⟨_, by rintro ⟨⟩, fun _ _ => rfl⟩)
  · exact .inr (.inr fun _ _ => rfl)
  · exact .inr (.inl ⟨_, by rintro ⟨⟩, fun _ _ => rfl⟩)

end

/-- The result leaves an end of the buffer, and its reply is no deeper than the reply before and
what has been taken off. -/
def Bounded (r : Reply) (buf : Bytes) (res : Result) : Prop :=
  res.left <:+ buf ∧ res.reply.depth + res.left.length ≤ r.depth + buf.length

theorem Bounded.same (err : ParseError) (r : Reply) (buf : Bytes) :
    Bounded r buf ⟨err, r, buf⟩ := ⟨suffix_refl _, Nat.le_refl _⟩

theorem Bounded.keep (err : ParseError) (r : Reply) (buf : Bytes) (n : ℕ) : Bounded r buf ⟨err, r, buf.drop n⟩ := by
  have hleft : buf.drop n <:+ buf := drop_suffix n buf
  exact ⟨hleft, Nat.add_le_add_left hleft.length_le _⟩

variable {buf : Bytes} {subs : List Reply}

theorem Bounded.leaf {r' : Reply} {n : ℕ} (hn : r'.depth ≤ n)
    (hbuf : r'.depth ≤ buf.length) (err : ParseError) (r : Reply) : Bounded r buf ⟨err, r', buf.drop n⟩ := by
  refine ⟨drop_suffix n buf, ?_⟩
  show r'.depth + (buf.drop n).length ≤ _
  rw [length_drop]
  omega

theorem Bounded.flat {r' : Reply} (h : r'.depth = 0) (err : ParseError) (r : Reply) (buf : Bytes)
    (n : ℕ) : Bounded r buf ⟨err, r', buf.drop n⟩ :=
  .leaf (by rw [h]; exact Nat.zero_le _) (by rw [h]; exact Nat.zero_le _) err r

section

variable (alloc : ℕ → Bool)

theorem consumeSimple_bounded (isError : Bool) (r : Reply) (buf : Bytes) :
    Bounded r buf (consumeSimple alloc isError r buf) := by
  unfold consumeSimple
  cases findCrlf buf with
  | none =>
    dsimp only
    split <;> exact .same _ r buf
  | some =>
    dsimp only
    split
    · exact .flat (by cases isError <;> rfl) _ r buf _
    · exact .keep _ r buf _

theorem consumeBulk_bounded (len : ℤ) (pos : ℕ) (r : Reply) (buf : Bytes) :
    Bounded r buf (consumeBulk alloc len pos r buf) := by
  unfold consumeBulk
  dsimp only
  rw [drop_drop, drop_drop]
  split_ifs
  · exact .flat rfl _ r buf _
  · exact .same _ r buf
  · exact .same _ r buf
  · exact .flat rfl _ r buf _
  · exact .flat rfl _ r buf _
  · exact .same _ r buf

theorem consumeNew_shaped (r : Reply) (buf : Bytes) : (∃ res, Bounded r buf res ∧ ∀ f, consumeNew alloc f r buf = res)
    ∨ ∃ n pos, 0 < buf.length ∧ ∀ f, consumeNew alloc f r buf
      = consumeSubs f [] (List.replicate n .nil) (buf.drop (pos + 2)) := by
  cases hfc : buf.head? with
  | none => exact .inl ⟨_, .same _ r buf, fun f => by rw [consumeNew, hfc]⟩
  | some fc =>
    have hpos : 0 < buf.length := length_pos_of_ne_nil (by rintro rfl; cases hfc)
    rcases consumeNew_cases alloc fc with ⟨isError, h⟩ | ⟨-, h⟩ | h
    · exact .inl ⟨_, consumeSimple_bounded alloc isError r buf, fun _ => h hfc⟩
    · simp only [h hfc]
      cases hread : readNumber buf with
      | notEnoughData | invalid =>
        exact .inl ⟨_, .same _ r buf, fun f => by rw [consumeNumber, hread]⟩
      | value v pos =>
        rcases consumeNumber_cases alloc fc with ⟨-, h⟩ | ⟨-, h⟩ | ⟨-, h⟩
        · exact .inl ⟨_, .flat rfl _ r buf _, fun _ => h hread⟩
        · exact .inl ⟨_, consumeBulk_bounded alloc v pos r buf, fun _ => h hread⟩
        · simp only [h hread]
          rcases consumeArray_cases alloc v pos r with ⟨r', hr', h⟩ | ⟨e, -, h⟩ | h
          · exact .inl ⟨_, .leaf (by omega) (by omega) _ r, fun f => h f buf⟩
          · exact .inl ⟨_, .same _ r buf, fun f => h f buf⟩
          · exact .inr ⟨v.toNat, pos, hpos, fun f => h f buf⟩
    · exact .inl ⟨_, .same _ r buf, fun _ => h hfc⟩

end

/-! ## Depth and length -/

theorem depth_go_le {d : ℕ} : Reply.depth.go subs ≤ d ↔ ∀ r ∈ subs, r.depth ≤ d := by
  induction subs with
  | nil => simp [Reply.depth.go]
  | cons r subs ih => rw [Reply.depth.go, Nat.max_le, ih, forall_mem_cons]

theorem depth_array (i : ℤ) (subs : List Reply) : (Reply.array i subs).depth = Reply.depth.go subs + 1 := by
  rw [Reply.depth]

theorem depth_nil : Reply.nil.depth = 0 := rfl

variable {r : Reply}

theorem depth_lt_array {i : ℤ} (h : r ∈ subs) : r.depth < (Reply.array i subs).depth := by
  exact Nat.lt_succ_of_le (depth_go_le.1 (Nat.le_refl _) r h)

theorem array_bounded {i : ℤ} {n b : ℕ} (hn : n ≤ b)
    (h : ∀ r ∈ subs, r.depth + n ≤ b) : (Reply.array i subs).depth + n ≤ b + 1 := by
  have hgo : Reply.depth.go subs ≤ b - n := depth_go_le.2 fun r hr => Nat.le_sub_of_add_le (h r hr)
  rw [depth_array]
  omega

theorem consumeSubs_bounded {f : Reply → Bytes → Result} (hf : ∀ r buf, Bounded r buf (f r buf))
    {b : ℕ} {todo done : List Reply} (hb : buf.length ≤ b)
    (hdone : ∀ r ∈ done, r.depth + buf.length ≤ b) (htodo : ∀ r ∈ todo, r.depth + buf.length ≤ b) :
    (consumeSubs f done todo buf).left <:+ buf
      ∧ (consumeSubs f done todo buf).reply.depth + (consumeSubs f done todo buf).left.length ≤ b + 1 := by
  induction todo generalizing done buf with
  | nil => exact ⟨suffix_refl _, array_bounded hb hdone⟩
  | cons r todo ih =>
    obtain ⟨hr, htodo⟩ := forall_mem_cons.1 htodo
    obtain ⟨hleft, hdepth⟩ := hf r buf
    rw [consumeSubs]
    -- The replies before and behind keep to the bound as the buffer gets shorter.
    rcases hres : f r buf with ⟨err, r', left⟩
    rw [hres] at hleft hdepth
    dsimp only at hleft hdepth
    have hlen := hleft.length_le
    have hdone' : ∀ x ∈ done ++ [r'], x.depth + left.length ≤ b := by
      intro x hx
      rcases mem_append.1 hx with hx | hx
      · exact Nat.le_trans (Nat.add_le_add_left hlen _) (hdone x hx)
      · cases mem_singleton.1 hx
        omega
    have htodo' : ∀ x ∈ todo, x.depth + left.length ≤ b := fun x hx =>
      Nat.le_trans (Nat.add_le_add_left hlen _) (htodo x hx)
    have hsub : ∀ x ∈ done ++ r' :: todo, x.depth + left.length ≤ b := by
      intro x hx
      rw [append_cons] at hx
      exact (mem_append.1 hx).elim (hdone' x) (htodo' x)
    have hb' : left.length ≤ b := Nat.le_trans hlen hb
    cases err with
    | ok =>
      obtain ⟨h₁, h₂⟩ := ih hb' hdone' htodo'
      exact ⟨h₁.trans hleft, h₂⟩
    | notEnoughData | absolutelyWrong => exact ⟨hleft, array_bounded hb' hsub⟩

/-- **A call takes at least as many bytes off the buffer as it makes the reply deeper.** -/
theorem consume_bounded (alloc : ℕ → Bool) (depth : ℕ) (r : Reply) (buf : Bytes) :
    Bounded r buf (consume alloc depth r buf) := by
  induction depth generalizing r buf with
  | zero => exact .same _ r buf
  | succ depth ih =>
    rcases consume_succ alloc r with ⟨i, subs, rfl, -, -, h⟩ | ⟨i, subs, rfl, -, h⟩ | h
    · rw [h]
      have hsubs : ∀ r ∈ subs, r.depth + buf.length ≤ Reply.depth.go subs + buf.length :=
        fun r hr => Nat.add_le_add_right (depth_go_le.1 (Nat.le_refl _) r hr) _
      have hbound := consumeSubs_bounded ih (Nat.le_add_left _ _)
        (fun r hr => hsubs r (mem_of_mem_take (i := i.toNat) hr))
        (fun r hr => hsubs r (mem_of_mem_drop (i := i.toNat) hr))
      refine ⟨hbound.1, ?_⟩
      rw [depth_array]
      exact Nat.le_trans hbound.2 (by omega)
    · rw [h]
      exact ⟨suffix_refl _, by rw [depth_array, depth_array]⟩
    · rw [h]
      rcases consumeNew_shaped alloc r buf with ⟨res, hres, heq⟩ | ⟨n, pos, hpos, heq⟩
      · rw [heq]
        exact hres
      · rw [heq]
        have hdrop : (buf.drop (pos + 2)).length + 1 ≤ buf.length := by
          rw [length_drop]
          omega
        have hnil : ∀ r ∈ List.replicate n Reply.nil,
            r.depth + (buf.drop (pos + 2)).length ≤ (buf.drop (pos + 2)).length := by
          intro r hr
          rw [eq_of_mem_replicate hr, depth_nil, Nat.zero_add]
        obtain ⟨hleft, hdepth⟩ := consumeSubs_bounded ih (Nat.le_refl _) (fun r hr => absurd hr not_mem_nil) hnil
        exact ⟨hleft.trans (drop_suffix _ _), by omega⟩

/-! ## Enough depth -/

theorem consumeSubs_congr {f g : Reply → Bytes → Result} {d : ℕ} (hg : ∀ r buf, Bounded r buf (g r buf))
    (h : ∀ r buf, r.depth + buf.length < d → f r buf = g r buf) {todo done : List Reply}
    (htodo : ∀ r ∈ todo, r.depth + buf.length < d) :
    consumeSubs f done todo buf = consumeSubs g done todo buf := by
  induction todo generalizing done buf with
  | nil => rfl
  | cons r todo ih =>
    obtain ⟨hr, htodo⟩ := forall_mem_cons.1 htodo
    have hlen := (hg r buf).1.length_le
    rw [consumeSubs, consumeSubs, h r buf hr]
    rcases hres : g r buf with ⟨err, r', left⟩
    rw [hres] at hlen
    cases err with
    | ok =>
      exact ih fun x hx => Nat.lt_of_le_of_lt (Nat.add_le_add_left hlen _) (htodo x hx)
    | notEnoughData | absolutelyWrong => rfl

theorem consume_depth_succ (alloc : ℕ → Bool) {depth : ℕ} (h : r.depth + buf.length < depth) :
    consume alloc (depth + 1) r buf = consume alloc depth r buf := by
  induction depth generalizing r buf with
  | zero => exact absurd h (Nat.not_lt_zero _)
  | succ depth ih =>
    rcases consume_succ alloc r with ⟨i, subs, rfl, -, -, heq⟩ | ⟨i, subs, rfl, -, heq⟩ | heq
    · rw [heq, heq]
      refine consumeSubs_congr (consume_bounded alloc depth) (fun r buf hlt => ih hlt) ?_
      intro r hr
      have := depth_lt_array (i := i) (mem_of_mem_drop hr)
      omega
    · rw [heq, heq]
    · rw [heq, heq]
      rcases consumeNew_shaped alloc r buf with ⟨res, -, hres⟩ | ⟨n, pos, hpos, hres⟩
      · exact (hres _).trans (hres _).symm
      · rw [hres, hres]
        refine consumeSubs_congr (consume_bounded alloc depth) (fun r buf hlt => ih hlt) ?_
        intro r hr
        rw [eq_of_mem_replicate hr, depth_nil, length_drop]
        omega

/-- **Any depth beyond that of the reply and the length of the buffer is enough.** -/
theorem consume_eq_consumePartial (alloc : ℕ → Bool) {depth : ℕ}
    (h : r.depth + buf.length < depth) : consume alloc depth r buf = consumePartial alloc r buf := by
  induction depth, h using Nat.le_induction with
  | base => rfl
  | succ n hn ih => rw [consume_depth_succ alloc hn, ih]

end Brpc.Redis
