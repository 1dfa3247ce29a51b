/-
# Parsing redis commands

`RedisCommandParser::Consume` and `RedisCommandByComponents` of `brpc/redis_command.cpp`.  The
parser keeps the number of strings announced, the index of the next one and the strings so far from
call to call, with one turn (`turn`) for each header.  However the bytes written are cut into
pieces, the components come back if and only if the numbers fit its types and there is memory
(`Encodable`).
-/

import Brpc.Lib.Run
import Brpc.Redis.Write
import Brpc.Lib.Loop

namespace Brpc.Redis

open List
open Messenger (Bytes)

/-- `RedisCommandParser` -/
structure CommandParser where
  parsingArray : Bool
  length : ℤ
  index : ℕ
  args : List Bytes

/-- The parser as constructed, and after `Reset`. -/
def CommandParser.init : CommandParser := ⟨false, 0, 0, []⟩

/-- How a call of `Consume` ends. -/
inductive CommandResult
  | ok (args : List Bytes)
  | notEnoughData
  | tryOthers
  | absolutelyWrong
  /-- CHECK(_index < _length) fails. -/
  | checkFailed
  /-- `_args[_index]` is out of range. -/
  | outOfRange
  /-- `_args.resize` throws. -/
  | thrown
  /-- There is no memory for a string, or its length overflows the `int` that counts its
  characters. -/
  | overrun
  /-- The turns given to `consumeTurns` are used up. -/
  | exhausted
  deriving DecidableEq

/-- A call goes on with the next header or ends. -/
inductive Turn
  | again (p : CommandParser) (buf : Bytes)
  | stop (res : CommandResult) (p : CommandParser) (buf : Bytes)

def toLower (b : UInt8) : UInt8 := if 65 ≤ b ∧ b ≤ 90 then b + 32 else b

def resize (args : List Bytes) (n : ℕ) : List Bytes :=
  args.take n ++ List.replicate (n - args.length) []

/-- The string at `_index`, the command name in lower case. -/
def nameOrArg (index : ℕ) (arg : Bytes) : Bytes := if index = 0 then arg.map toLower else arg

section
variable (alloc resizable : ℕ → Bool)

/-- A string of `len` bytes whose header ends at `crlfPos`. -/
def element (p : CommandParser) (len crlfPos : ℕ) (buf : Bytes) : Turn :=
  if p.length ≤ p.index then .stop .checkFailed p buf
  else if 2 ^ 32 - 1 < len then .stop .absolutelyWrong p buf
  else if buf.length < crlfPos + 2 + len + 2 then .stop .notEnoughData p buf
  else if alloc ((len / 8 + 1) * 8) = false ∨ p.index = 0 ∧ 2 ^ 31 ≤ len then
    .stop .overrun p (buf.drop (crlfPos + 2))
  else if p.args.length ≤ p.index then .stop .outOfRange p buf
  else
    let body := buf.drop (crlfPos + 2)
    let rest := body.drop len
    let args := p.args.set p.index (nameOrArg p.index (body.take len))
    if rest.take 2 ≠ [13, 10] then .stop .absolutelyWrong { p with args := args } (rest.drop 2)
    else if p.index + 1 < p.length then
      .again { p with index := p.index + 1, args := args } (rest.drop 2)
    else .stop (.ok args) .init (rest.drop 2)

/-- `Consume` up to its next call of itself. -/
def turn (p : CommandParser) (buf : Bytes) : Turn :=
  match buf.head? with
  | none => .stop .notEnoughData p buf
  | some fc =>
    -- '*' and '$'
    if p.parsingArray = false ∧ fc ≠ 42 then .stop .tryOthers p buf
    else if p.parsingArray = true ∧ fc ≠ 36 then .stop .absolutelyWrong p buf
    else
      match readNumber buf with
      | .notEnoughData => .stop .notEnoughData p buf
      | .invalid => .stop .absolutelyWrong p buf
      | .value v crlfPos =>
        if v < 0 then .stop .absolutelyWrong p buf
        else if p.parsingArray then element alloc p v.toNat crlfPos buf
        else
          let rest := buf.drop (crlfPos + 2)
          if resizable v.toNat then
            .again ⟨true, intOfSize v.toNat, 0, resize p.args v.toNat⟩ rest
          else .stop .thrown ⟨true, intOfSize v.toNat, 0, p.args⟩ rest

/-- `Consume` with a number of turns. -/
def consumeTurns : ℕ → CommandParser → Bytes → CommandResult × CommandParser × Bytes
  | 0, p, buf => (.exhausted, p, buf)
  | n + 1, p, buf =>
    match turn alloc resizable p buf with
    | .again p' buf' => consumeTurns n p' buf'
    | .stop res p' buf' => (res, p', buf')

/-- `Consume` -/
def consumeCommand (p : CommandParser) (buf : Bytes) : CommandResult × CommandParser × Bytes :=
  consumeTurns alloc resizable (buf.length + 1) p buf

/-! ## A stream of commands -/

/-- A parser with its buffer, and how the calls of `Consume` have ended. -/
structure Stream where
  parser : CommandParser
  buf : Bytes
  results : List CommandResult

def Stream.init : Stream := ⟨.init, [], []⟩

inductive StreamInput
  | arrive (piece : Bytes)
  | consume

/-- The process does not survive such a call. -/
def CommandResult.fatal : CommandResult → Bool
  | .checkFailed | .outOfRange | .thrown | .overrun => true
  | _ => false

def Stream.step (s : Stream) : StreamInput → Stream
  | .arrive piece => { s with buf := s.buf ++ piece }
  | .consume =>
    if s.results.any CommandResult.fatal then s
    else
      let out := consumeCommand alloc resizable s.parser s.buf
      ⟨out.2.1, out.2.2, s.results ++ [out.1]⟩

end

/-- The array header that comes next, if it is one, announces a number of strings that is
positive as an `int`. -/
def Stream.Fits (s : Stream) : StreamInput → Prop
  | .arrive _ => True
  | .consume => s.parser.parsingArray = false → s.buf.head? = some 42 →
      ∀ v pos, readNumber s.buf = .value v pos → 0 ≤ v → 0 < intOfSize v.toNat

/-! ## Safety -/

variable {alloc resizable : ℕ → Bool} {p : CommandParser} {buf : Bytes}

/-- While an array is parsed, the next string has its place in `_args`. -/
def CommandParser.Ok (p : CommandParser) : Prop :=
  if p.parsingArray then (p.index : ℤ) < p.length ∧ p.length ≤ p.args.length else p.args = []

/-- A call that ends without an access out of range, and not for want of turns. -/
def CommandResult.Safe (res : CommandResult) : Prop :=
  res ≠ .checkFailed ∧ res ≠ .outOfRange ∧ res ≠ .exhausted

/-- A turn keeps the parser in order, and goes on only with less in the buffer. -/
def Turn.Safe (buf : Bytes) : Turn → Prop
  | .again p buf' => p.Ok ∧ p.parsingArray = true ∧ buf'.length < buf.length
  | .stop res p _ => (res.fatal = false → p.Ok) ∧ res.Safe

theorem intOfSize_le (n : ℕ) : intOfSize n ≤ n := by
  rw [intOfSize]
  omega

theorem length_resize (args : List Bytes) (n : ℕ) : (resize args n).length = n := by
  rw [resize, length_append, length_take, length_replicate]
  omega

theorem ok_init : CommandParser.init.Ok := rfl

theorem safe_notEnoughData : CommandResult.notEnoughData.Safe := by
  refine ⟨?_, ?_, ?_⟩ <;> rintro ⟨⟩

theorem safe_absolutelyWrong : CommandResult.absolutelyWrong.Safe := by
  refine ⟨?_, ?_, ?_⟩ <;> rintro ⟨⟩

theorem element_safe (h : p.Ok) (hparsing : p.parsingArray = true) (len : ℕ) {pos : ℕ} :
    (element alloc p len pos buf).Safe buf := by
  have hok := h
  rw [CommandParser.Ok, if_pos hparsing] at hok
  have hargs : ∀ arg, ({ p with args := p.args.set p.index arg } : CommandParser).Ok := by
    intro arg
    rw [CommandParser.Ok, if_pos hparsing, length_set]
    exact hok
  rw [element]
  dsimp only
  split_ifs
  · omega
  · exact ⟨fun _ => h, safe_absolutelyWrong⟩
  · exact ⟨fun _ => h, safe_notEnoughData⟩
  · exact ⟨by rintro ⟨⟩, by rintro ⟨⟩, by rintro ⟨⟩, by rintro ⟨⟩⟩
  · omega
  · exact ⟨fun _ => hargs _, safe_absolutelyWrong⟩
  · refine ⟨?_, hparsing, ?_⟩
    · rw [CommandParser.Ok, if_pos hparsing, length_set]
      exact ⟨by push_cast; omega, hok.2⟩
    · rw [length_drop, length_drop, length_drop]
      omega
  · exact ⟨fun _ => ok_init, by rintro ⟨⟩, by rintro ⟨⟩, by rintro ⟨⟩⟩

/-- **A turn is safe** if the array it starts has a positive length. -/
theorem turn_safe (h : p.Ok) (hfits : p.parsingArray = false → buf.head? = some 42 →
      ∀ v pos, readNumber buf = .value v pos → 0 ≤ v → 0 < intOfSize v.toNat) :
    (turn alloc resizable p buf).Safe buf := by
  rw [turn]
  cases hhead : buf.head? with
  | none => exact ⟨fun _ => h, safe_notEnoughData⟩
  | some fc =>
    cases hnum : readNumber buf with
    | notEnoughData =>
      dsimp only
      split_ifs
      · exact ⟨fun _ => h, by rintro ⟨⟩, by rintro ⟨⟩, by rintro ⟨⟩⟩
      · exact ⟨fun _ => h, safe_absolutelyWrong⟩
      · exact ⟨fun _ => h, safe_notEnoughData⟩
    | invalid =>
      dsimp only
      split_ifs
      · exact ⟨fun _ => h, by rintro ⟨⟩, by rintro ⟨⟩, by rintro ⟨⟩⟩
      all_goals exact ⟨fun _ => h, safe_absolutelyWrong⟩
    | value v pos =>
      have hpos := readNumber_le hnum
      dsimp only
      split_ifs with htry hwrong hneg hparsing
      · exact ⟨fun _ => h, by rintro ⟨⟩, by rintro ⟨⟩, by rintro ⟨⟩⟩
      · exact ⟨fun _ => h, safe_absolutelyWrong⟩
      · exact ⟨fun _ => h, safe_absolutelyWrong⟩
      · exact element_safe h hparsing _
      · obtain rfl : fc = 42 := by
          by_contra hne
          exact htry ⟨Bool.eq_false_of_not_eq_true hparsing, hne⟩
        refine ⟨?_, rfl, by rw [length_drop]; omega⟩
        rw [CommandParser.Ok, if_pos rfl, length_resize]
        exact ⟨hfits (Bool.eq_false_of_not_eq_true hparsing) hhead v pos hnum (not_lt.1 hneg), intOfSize_le _⟩
      · exact ⟨by rintro ⟨⟩, by rintro ⟨⟩, by rintro ⟨⟩, by rintro ⟨⟩⟩

theorem consumeTurns_safe {n : ℕ} (hn : buf.length < n) (h : p.Ok)
    (hfits : p.parsingArray = false → buf.head? = some 42 →
      ∀ v pos, readNumber buf = .value v pos → 0 ≤ v → 0 < intOfSize v.toNat) :
    let out := consumeTurns alloc resizable n p buf
    (out.1.fatal = false → out.2.1.Ok) ∧ out.1.Safe := by
  induction n generalizing p buf with
  | zero => exact absurd hn (Nat.not_lt_zero _)
  | succ n ih =>
    have hsafe := @turn_safe alloc resizable p buf h hfits
    rw [consumeTurns]
    cases hturn : turn alloc resizable p buf with
    | again =>
      rw [hturn] at hsafe
      obtain ⟨hok, hparsing, hlt⟩ := hsafe
      exact ih (by omega) hok fun hnot => absurd hparsing (by rw [hnot]; decide)
    | stop =>
      rw [hturn] at hsafe
      exact hsafe

/-- As long as the process is alive the parser is in order, and every call was safe. -/
def Stream.Ok (s : Stream) : Prop :=
  (s.results.any CommandResult.fatal = false → s.parser.Ok) ∧ ∀ res ∈ s.results, res.Safe

theorem Stream.Ok.step {s : Stream} (h : s.Ok) {i : StreamInput} (hfits : s.Fits i) : (s.step alloc resizable i).Ok := by
  cases i with
  | arrive => exact h
  | consume =>
    rw [Stream.step]
    split_ifs with hdead
    · exact h
    obtain ⟨hok, hsafe⟩ := @consumeTurns_safe alloc resizable s.parser s.buf (s.buf.length + 1)
      (Nat.lt_succ_self _) (h.1 (Bool.eq_false_of_not_eq_true hdead)) hfits
    refine ⟨fun hlive => hok ?_, ?_⟩
    · rw [any_append, Bool.or_eq_false_iff] at hlive
      rw [any_cons, any_nil, Bool.or_false] at hlive
      exact hlive.2
    · exact forall_mem_append.2 ⟨h.2, forall_mem_singleton.2 hsafe⟩

/-- **The parser is safe on any stream in any pieces** whose arrays announce a positive
number of strings. -/
theorem Stream.run_safe (is : List StreamInput) (h : Lib.Along (step alloc resizable) Fits init is) :
    ∀ res ∈ (Lib.run (step alloc resizable) init is).results, res.Safe := by
  have hinit : init.Ok := ⟨fun _ => ok_init, forall_mem_nil _⟩
  exact (Lib.run_invariant (fun _ _ hs hfits => hs.step hfits) is init hinit h).2

/-! ## Commands arriving in pieces -/

def appendHeader (fc : UInt8) (value : ℕ) : Bytes := fc :: decimalLoop 24 value [] ++ [13, 10]

/-- A component as it is written. -/
def component (c : Bytes) : Bytes := appendHeader 36 c.length ++ c ++ [13, 10]

def redisCommandByComponents (comps : List Bytes) : Bytes :=
  appendHeader 42 comps.length ++ comps.flatMap component

variable {alloc resizable : ℕ → Bool} {p : CommandParser} {buf rem rest c : Bytes}

/-! ## Headers -/

theorem clamp_natCast (n : ℕ) : clamp n = (min n (2 ^ 63 - 1) : ℕ) := by
  rw [clamp]
  omega

/-- **A header is read back** as far as the number is an `int64_t`, and only when all of
it has arrived. -/
theorem readNumber_appendHeader {fc : UInt8} {n : ℕ} (hfc : fc ≠ 13) (hn : n < 2 ^ 64) :
    (∃ pos, pos + 2 = (appendHeader fc n).length ∧
      ∀ rest, readNumber (appendHeader fc n ++ rest) = .value (min n (2 ^ 63 - 1) : ℕ) pos) ∧
    ∀ buf rem rest, buf ++ rem = appendHeader fc n ++ rest →
      buf.length < (appendHeader fc n).length → readNumber buf = .notEnoughData := by
  obtain ⟨ds, hds, hne, hlen, hall, hdec⟩ := @decimalLoop_eq 20 24 n (by decide) (by decide) (by omega) []
  rw [append_nil] at hds
  have hcr : ∀ d ∈ ds, d ≠ 13 := fun d hd => (not_space_of_digit (hall d hd)).2.2.2
  have hheader : ∀ rest, appendHeader fc n ++ rest = fc :: ds ++ 13 :: 10 :: rest := by
    intro rest
    rw [appendHeader, hds, append_assoc]
    rfl
  have hlength : (appendHeader fc n).length = 1 + ds.length + 2 := by
    have h := congrArg length (hheader [])
    rw [append_nil, length_append, length_cons, length_cons] at h
    rw [h, length_singleton]
    omega
  refine ⟨⟨1 + ds.length, hlength.symm, fun rest => ?_⟩, fun buf rem rest hsplit hshort => ?_⟩
  · obtain ⟨rest', hread⟩ := readNumber_header (by omega) hcr hfc rest
    rw [hheader, hread, strtoll_digits hne hall, if_pos rfl, hdec, clamp_natCast]
  · have hnone := findCrlf_eq_none (forall_mem_cons.2 ⟨hfc, hcr⟩)
    have hfind : findCrlf (buf.take 31) = none := by
      rw [Option.eq_none_iff_forall_ne_some]
      intro pos hpos
      have hall := findCrlf_append hpos (buf.drop 31 ++ rem)
      rw [← append_assoc, take_append_drop, hsplit, hheader, findCrlf_append_crlf hnone rest, length_cons] at hall
      have hle := findCrlf_lt hpos
      rw [length_take] at hle
      have hpos' := Option.some.inj hall
      omega
    rw [readNumber, hfind]

theorem head?_of_split {fc : UInt8} {bs : Bytes} (hsplit : buf ++ rem = fc :: bs) (hne : buf ≠ []) :
    buf.head? = some fc := by
  obtain ⟨b, buf, rfl⟩ := exists_cons_of_ne_nil hne
  rw [(cons.inj hsplit).1]
  rfl

/-! ## Turns of the parser -/

/-- The character a parser in this state expects. -/
def CommandParser.firstCharacter (p : CommandParser) : UInt8 := if p.parsingArray then 36 else 42

theorem not_refused {fc : UInt8} (hfc : fc = p.firstCharacter) :
    ¬ (p.parsingArray = false ∧ fc ≠ 42) ∧ ¬ (p.parsingArray = true ∧ fc ≠ 36) := by
  rw [CommandParser.firstCharacter] at hfc
  constructor
  · rintro ⟨hnot, hne⟩
    rw [hnot, if_neg Bool.false_ne_true] at hfc
    exact hne hfc
  · rintro ⟨hparsing, hne⟩
    rw [hparsing, if_pos rfl] at hfc
    exact hne hfc

theorem turn_of_notEnoughData (hhead : buf.head? = some p.firstCharacter) (hnum : readNumber buf = .notEnoughData) :
    turn alloc resizable p buf = .stop .notEnoughData p buf := by
  obtain ⟨htry, hwrong⟩ := @not_refused p _ rfl
  unfold turn
  rw [hhead]
  dsimp only
  rw [if_neg htry, if_neg hwrong, hnum]

theorem turn_of_value {n pos : ℕ} (hhead : buf.head? = some p.firstCharacter)
    (hnum : readNumber buf = .value n pos) : turn alloc resizable p buf
      = if p.parsingArray then element alloc p n pos buf else if resizable n then
          .again ⟨true, intOfSize n, 0, resize p.args n⟩ (buf.drop (pos + 2))
        else .stop .thrown ⟨true, intOfSize n, 0, p.args⟩ (buf.drop (pos + 2)) := by
  obtain ⟨htry, hwrong⟩ := @not_refused p _ rfl
  unfold turn
  rw [hhead]
  dsimp only
  rw [if_neg htry, if_neg hwrong, hnum]
  dsimp only
  rw [if_neg (by omega), Int.toNat_natCast]

theorem turn_array {n : ℕ} (hn : n < 2 ^ 64) (hnot : p.parsingArray = false) :
    turn alloc resizable p (appendHeader 42 n ++ rest) = if resizable (min n (2 ^ 63 - 1)) then
          .again ⟨true, intOfSize (min n (2 ^ 63 - 1)), 0, resize p.args (min n (2 ^ 63 - 1))⟩ rest
        else .stop .thrown ⟨true, intOfSize (min n (2 ^ 63 - 1)), 0, p.args⟩ rest := by
  obtain ⟨⟨pos, hpos, hnum⟩, -⟩ := @readNumber_appendHeader 42 n (by decide) hn
  have hhead : (appendHeader 42 n ++ rest).head? = some p.firstCharacter := by
    rw [CommandParser.firstCharacter, hnot]
    rfl
  rw [turn_of_value hhead (hnum rest), if_neg (by rw [hnot]; decide), hpos, drop_left]

theorem turn_array_short {n : ℕ} (hn : n < 2 ^ 64) (hnot : p.parsingArray = false)
    (hsplit : buf ++ rem = appendHeader 42 n ++ rest) (hshort : buf.length < (appendHeader 42 n).length) :
    turn alloc resizable p buf = .stop .notEnoughData p buf := by
  rcases eq_or_ne buf [] with rfl | hne
  · rfl
  · refine turn_of_notEnoughData ?_ ((readNumber_appendHeader (by decide) hn).2 buf rem rest hsplit hshort)
    rw [CommandParser.firstCharacter, hnot]
    exact head?_of_split hsplit hne

theorem component_append : component c ++ rest = appendHeader 36 c.length ++ (c ++ 13 :: 10 :: rest) := by
  rw [component, append_assoc, append_assoc]
  rfl

theorem turn_component (hparsing : p.parsingArray = true) (hc : c.length < 2 ^ 64) :
    turn alloc resizable p (component c ++ rest)
      = if p.length ≤ p.index then .stop .checkFailed p (component c ++ rest)
        else if 2 ^ 32 - 1 < c.length then .stop .absolutelyWrong p (component c ++ rest)
        else if alloc ((c.length / 8 + 1) * 8) = false ∨ p.index = 0 ∧ 2 ^ 31 ≤ c.length then
          .stop .overrun p (c ++ 13 :: 10 :: rest)
        else if p.args.length ≤ p.index then .stop .outOfRange p (component c ++ rest)
        else if p.index + 1 < p.length then
          .again { p with index := p.index + 1, args := p.args.set p.index (nameOrArg p.index c) } rest
        else .stop (.ok (p.args.set p.index (nameOrArg p.index c))) .init rest := by
  obtain ⟨⟨pos, hpos, hnum⟩, -⟩ := @readNumber_appendHeader 36 c.length (by decide) hc
  have hbody := @component_append rest c
  have hlen : (component c ++ rest).length = pos + 2 + c.length + 2 + rest.length := by
    rw [hbody, length_append, length_append, length_cons, length_cons, hpos]
    omega
  have hdrop : (component c ++ rest).drop (pos + 2) = c ++ 13 :: 10 :: rest := by
    rw [hbody, hpos, drop_left]
  have hhead : (component c ++ rest).head? = some p.firstCharacter := by
    rw [CommandParser.firstCharacter, hparsing]
    rfl
  rw [turn_of_value hhead (hbody ▸ hnum _), if_pos hparsing, element]
  by_cases hcheck : p.length ≤ p.index
  · rw [if_pos hcheck, if_pos hcheck]
  by_cases hlong : 2 ^ 32 - 1 < c.length
  · rw [if_neg hcheck, if_neg hcheck, if_pos (by omega), if_pos hlong]
  have hmin : min c.length (2 ^ 63 - 1) = c.length := by omega
  rw [hmin, if_neg hcheck, if_neg hcheck, if_neg hlong, if_neg hlong, if_neg (by omega), hdrop]
  dsimp only
  rw [drop_left, take_left]
  rfl

theorem turn_component_short (hparsing : p.parsingArray = true) (hindex : (p.index : ℤ) < p.length)
    (hc : c.length < 2 ^ 32) (hsplit : buf ++ rem = component c ++ rest)
    (hshort : buf.length < (component c).length) : turn alloc resizable p buf = .stop .notEnoughData p buf := by
  obtain ⟨⟨pos, hpos, hnum⟩, hnone⟩ := @readNumber_appendHeader 36 c.length (by decide) (by omega)
  rcases eq_or_ne buf [] with rfl | hne
  · rfl
  have hlen : (component c).length = pos + 2 + c.length + 2 := by
    rw [component, length_append, length_append, ← hpos]
    rfl
  have hhead : buf.head? = some p.firstCharacter := by
    rw [CommandParser.firstCharacter, hparsing]
    exact head?_of_split hsplit hne
  rw [component_append] at hsplit
  by_cases hheader : buf.length < (appendHeader 36 c.length).length
  · exact turn_of_notEnoughData hhead (hnone buf rem _ hsplit hheader)
  · obtain ⟨buf', rfl, -⟩ := Lib.exists_append_of_split hsplit (not_lt.1 hheader)
    have hmin : min c.length (2 ^ 63 - 1) = c.length := by omega
    rw [turn_of_value hhead (hnum buf'), if_pos hparsing, element, hmin, if_neg (by omega),
      if_neg (by omega), if_pos (by omega)]

/-! ## Whole commands -/

/-- Strings from index `i` on as the parser stores them. -/
def stored : ℕ → List Bytes → List Bytes
  | _, [] => []
  | i, c :: cs => nameOrArg i c :: stored (i + 1) cs

/-- The parser that has `done` and waits for `cs`. -/
def midway (done cs : List Bytes) : CommandParser :=
  ⟨true, (done.length + cs.length : ℕ), done.length, done ++ replicate cs.length []⟩

/-- The numbers of strings that come at index `i` on fit into the types of the parser, and
there is memory for them. -/
structure Fit (alloc : ℕ → Bool) (i : ℕ) (cs : List Bytes) : Prop where
  size : ∀ c ∈ cs, c.length < 2 ^ 32
  alloc : ∀ c ∈ cs, alloc ((c.length / 8 + 1) * 8) = true
  name : i = 0 → ∀ c ∈ cs.head?, c.length < 2 ^ 31

/-- The parser waits for strings whose bytes are in the buffer or still to come (`rem`);
with them the command is `args`. -/
def Awaits (alloc : ℕ → Bool) (args : List Bytes) (rem : Bytes) (p : CommandParser) (buf : Bytes) : Prop :=
  ∃ done cs, p = midway done cs ∧ cs ≠ [] ∧ Fit alloc done.length cs ∧
    done ++ stored done.length cs = args ∧ buf ++ rem = cs.flatMap component

theorem component_ne_nil (c : Bytes) : component c ≠ [] := cons_ne_nil _ _

theorem set_midway (done cs : List Bytes) (c : Bytes) : (done ++ replicate (cs.length + 1) []).set done.length c
      = (done ++ [c]) ++ replicate cs.length [] := by
  rw [set_append_right _ _ (Nat.le_refl _), Nat.sub_self, append_assoc]
  rfl

theorem midway_concat (done cs : List Bytes) (c x : Bytes) : { midway done (c :: cs) with
        index := done.length + 1, args := (done ++ [x]) ++ replicate cs.length [] }
      = midway (done ++ [x]) cs := by
  have hlen : (done ++ [x]).length = done.length + 1 := by
    rw [length_append, length_singleton]
  rw [midway, midway, hlen, length_cons, Nat.add_assoc done.length 1, Nat.add_comm 1]

theorem turn_midway {done cs : List Bytes} (hfit : Fit alloc done.length (c :: cs)) :
    turn alloc resizable (midway done (c :: cs)) (component c ++ rest)
      = if cs = [] then .stop (.ok (done ++ [nameOrArg done.length c])) .init rest
        else .again (midway (done ++ [nameOrArg done.length c]) cs) rest := by
  have hsize := hfit.size c mem_cons_self
  have hover : ¬ (alloc ((c.length / 8 + 1) * 8) = false ∨ (midway done (c :: cs)).index = 0 ∧ 2 ^ 31 ≤ c.length) := by
    rintro (hfull | ⟨hzero, hlong⟩)
    · rw [hfit.alloc c mem_cons_self] at hfull
      cases hfull
    · exact absurd (hfit.name hzero c rfl) (not_lt.2 hlong)
  have hlen : (midway done (c :: cs)).args.length = done.length + cs.length + 1 := by
    rw [midway, length_append, length_replicate, length_cons]
    rfl
  have hlength : (midway done (c :: cs)).length = done.length + cs.length + 1 := by
    rw [midway, length_cons]
    push_cast
    omega
  have hindex : (midway done (c :: cs)).index = done.length := rfl
  have hset : (midway done (c :: cs)).args.set done.length (nameOrArg done.length c)
      = (done ++ [nameOrArg done.length c]) ++ replicate cs.length [] := set_midway done cs _
  rw [turn_component rfl (by omega), if_neg (by omega), if_neg (by omega), if_neg hover,
    if_neg (by omega), hindex, hset]
  cases cs with
  | nil =>
    rw [if_neg (by rw [hlength, length_nil]; omega), if_pos rfl, length_nil, replicate_zero, append_nil]
  | cons c' cs =>
    rw [if_pos (by rw [hlength, length_cons]; push_cast; omega), if_neg (cons_ne_nil _ _)]
    exact congrArg (fun p => Turn.again p rest) (midway_concat done (c' :: cs) c _)

/-- **A call on part of a command** takes the whole strings there are: the command is complete, or
the parser waits for the rest. -/
theorem Awaits.consumeTurns {args : List Bytes} (h : Awaits alloc args rem p buf) {n : ℕ} (hn : buf.length < n) :
    rem = [] ∧ consumeTurns alloc resizable n p buf = (.ok args, .init, []) ∨
      rem ≠ [] ∧ ∃ p' buf', consumeTurns alloc resizable n p buf = (.notEnoughData, p', buf') ∧
        Awaits alloc args rem p' buf' := by
  induction n generalizing p buf with
  | zero => exact absurd hn (Nat.not_lt_zero _)
  | succ n ih =>
    have hself := h
    obtain ⟨done, cs, rfl, hne, hfit, hargs, hsplit⟩ := h
    obtain ⟨c, cs, rfl⟩ := exists_cons_of_ne_nil hne
    rw [flatMap_cons] at hsplit
    have hindex : ((midway done (c :: cs)).index : ℤ) < (midway done (c :: cs)).length := by
      simp only [midway, length_cons]
      omega
    by_cases hshort : buf.length < (component c).length
    · refine Or.inr ⟨Lib.rem_ne_nil_of_split hsplit hshort, midway done (c :: cs), buf, ?_, hself⟩
      rw [Redis.consumeTurns, turn_component_short rfl hindex (hfit.size c mem_cons_self) hsplit hshort]
    · obtain ⟨buf', rfl, hrest⟩ := Lib.exists_append_of_split hsplit (not_lt.1 hshort)
      have hpos := length_pos_of_ne_nil (component_ne_nil c)
      rw [length_append] at hn
      rw [Redis.consumeTurns, turn_midway hfit]
      rw [stored] at hargs
      by_cases hlast : cs = []
      · subst hlast
        obtain ⟨rfl, rfl⟩ := append_eq_nil_iff.1 hrest
        rw [if_pos rfl]
        exact Or.inl ⟨rfl, by rw [← hargs]; rfl⟩
      · rw [if_neg hlast]
        refine ih ⟨_, cs, rfl, hlast, ⟨(forall_mem_cons.1 hfit.size).2, (forall_mem_cons.1 hfit.alloc).2,
          fun hzero => ?_⟩, ?_, hrest⟩ (by omega)
        · rw [length_append, length_singleton] at hzero
          omega
        · rw [length_append, length_singleton, append_assoc]
          exact hargs

end Brpc.Redis
