/-
# The parser of redis commands over whole streams

The two sides of the contract of `RedisCommandParser` (`brpc/redis_command.cpp`): it is safe on
every stream whose arrays have a positive length, and inverts the encoder exactly on the commands
that fit (`Stream.safe_and_inverts`).
-/

import Brpc.Redis.CommandRoundTrip

namespace Brpc.Redis

open List
open Messenger (Bytes)

/-- A command as the parser returns it: the name in lower case. -/
def lowerName : List Bytes → List Bytes
  | [] => []
  | c :: cs => c.map toLower :: cs

/-- The commands the parser can take: an `int` number of strings of less than 2^32 bytes, a name
of less than 2^31, and memory. -/
structure Encodable (alloc resizable : ℕ → Bool) (comps : List Bytes) : Prop where
  count : comps.length < 2 ^ 31
  room : resizable comps.length = true
  strings : Fit alloc 0 comps

variable {alloc resizable : ℕ → Bool} {p p' : CommandParser} {buf rem : Bytes} {comps : List Bytes}

theorem stored_succ (i : ℕ) (cs : List Bytes) : stored (i + 1) cs = cs := by
  induction cs generalizing i with
  | nil => rfl
  | cons c cs ih => rw [stored, ih, nameOrArg, if_neg (Nat.succ_ne_zero i)]

theorem stored_zero (cs : List Bytes) : stored 0 cs = lowerName cs := by
  cases cs with
  | nil => rfl
  | cons =>
    rw [stored, stored_succ]
    rfl

/-! ## From the encoder to the command -/

/-- Part of the command has been parsed, and `rem` has not arrived yet. -/
def Pending (alloc : ℕ → Bool) (comps : List Bytes) (rem : Bytes) (p : CommandParser) (buf : Bytes) : Prop :=
  p = .init ∧ buf ++ rem = redisCommandByComponents comps ∨ Awaits alloc (lowerName comps) rem p buf

theorem Pending.consumeCommand (henc : Encodable alloc resizable comps) (hne : comps ≠ [])
    (h : Pending alloc comps rem p buf) :
    rem = [] ∧ consumeCommand alloc resizable p buf = (.ok (lowerName comps), .init, []) ∨
      rem ≠ [] ∧ ∃ p' buf', consumeCommand alloc resizable p buf = (.notEnoughData, p', buf') ∧
        Pending alloc comps rem p' buf' := by
  have hawaits : ∀ {p : CommandParser} {buf : Bytes} {n : ℕ},
      Awaits alloc (lowerName comps) rem p buf → buf.length < n →
      rem = [] ∧ consumeTurns alloc resizable n p buf = (.ok (lowerName comps), .init, []) ∨
        rem ≠ [] ∧ ∃ p' buf', consumeTurns alloc resizable n p buf = (.notEnoughData, p', buf') ∧
          Pending alloc comps rem p' buf' := by
    intro p buf n h hn
    rcases h.consumeTurns hn with hdone | ⟨hrem, p', buf', heq, hnext⟩
    · exact .inl hdone
    · exact .inr ⟨hrem, p', buf', heq, .inr hnext⟩
  rcases h with ⟨rfl, hsplit⟩ | h
  · rw [redisCommandByComponents] at hsplit
    have hcount := henc.count
    rw [Redis.consumeCommand]
    by_cases hshort : buf.length < (appendHeader 42 comps.length).length
    · refine .inr ⟨Lib.rem_ne_nil_of_split hsplit hshort, .init, buf, ?_, .inl ⟨rfl, hsplit⟩⟩
      rw [consumeTurns, turn_array_short (by omega) rfl hsplit hshort]
    · obtain ⟨buf', rfl, hrest⟩ := Lib.exists_append_of_split hsplit (not_lt.1 hshort)
      have hmin : min comps.length (2 ^ 63 - 1) = comps.length := by omega
      have hint : intOfSize comps.length = comps.length := by
        rw [intOfSize]
        omega
      have hstart : (⟨true, intOfSize comps.length, 0, resize [] comps.length⟩ : CommandParser) = midway [] comps := by
        rw [hint, midway, resize, take_nil, length_nil, Nat.zero_add, Nat.sub_zero]
      rw [consumeTurns, turn_array (by omega) rfl, hmin, if_pos henc.room]
      dsimp only [CommandParser.init]
      rw [hstart]
      refine hawaits ⟨[], comps, rfl, hne, henc.strings, stored_zero comps, hrest⟩ ?_
      rw [length_append, appendHeader, length_append, length_cons]
      omega
  · exact hawaits h (Nat.lt_succ_self _)

theorem fit_of_ok {cs args : List Bytes} (hsize : ∀ c ∈ cs, c.length < 2 ^ 64)
    (hparsing : p.parsingArray = true) {n : ℕ}
    (h : consumeTurns alloc resizable n p (cs.flatMap component) = (.ok args, p', [])) :
    p.length = p.index + cs.length ∧ Fit alloc p.index cs := by
  induction cs generalizing n p with
  | nil =>
    cases n with
    | zero | succ => cases h
  | cons c cs ih =>
    cases n with
    | zero => cases h
    | succ =>
      rw [flatMap_cons, consumeTurns, turn_component hparsing (hsize c mem_cons_self)] at h
      have hcons : ¬ 2 ^ 32 - 1 < c.length →
          ¬ (alloc ((c.length / 8 + 1) * 8) = false ∨ p.index = 0 ∧ 2 ^ 31 ≤ c.length) →
          p.length = p.index + 1 + cs.length ∧ Fit alloc (p.index + 1) cs →
          p.length = p.index + (c :: cs).length ∧ Fit alloc p.index (c :: cs) := by
        rintro hlong hover ⟨hlength, hfit⟩
        obtain ⟨hroom, hname⟩ := not_or.1 hover
        refine ⟨by rw [hlength, length_cons]; push_cast; omega, forall_mem_cons.2 ⟨by omega, hfit.size⟩,
          forall_mem_cons.2 ⟨Bool.eq_true_of_not_eq_false hroom, hfit.alloc⟩, ?_⟩
        rintro hzero c' ⟨⟩
        exact not_le.1 fun hle => hname ⟨hzero, hle⟩
      split_ifs at h with hcheck hlong hover hrange hnext
      · cases h
      · cases h
      · cases h
      · cases h
      · obtain ⟨hlength, hfit⟩ := ih (forall_mem_cons.1 hsize).2 (by exact hparsing) h
        exact hcons hlong hover ⟨by rw [hlength]; push_cast; omega, hfit⟩
      · have hbytes : cs.flatMap component = [] := (Prod.mk.inj (Prod.mk.inj h).2).2
        cases cs with
        | nil =>
          exact hcons hlong hover ⟨by rw [length_nil]; omega, forall_mem_nil _, forall_mem_nil _,
            fun hzero => absurd hzero (Nat.succ_ne_zero _)⟩
        | cons c' => exact absurd (append_eq_nil_iff.1 hbytes).1 (component_ne_nil c')

/-- **A command that is returned with nothing left is one the parser can take.** -/
theorem encodable_of_ok {args : List Bytes} (hcount : comps.length < 2 ^ 64) (hsize : ∀ c ∈ comps, c.length < 2 ^ 64)
    (h : consumeCommand alloc resizable .init (redisCommandByComponents comps) = (.ok args, p', [])) :
    Encodable alloc resizable comps := by
  rw [consumeCommand, redisCommandByComponents, consumeTurns, turn_array hcount rfl] at h
  split_ifs at h with hroom
  · obtain ⟨hlength, hfit⟩ := fit_of_ok hsize rfl h
    have hint : intOfSize (min comps.length (2 ^ 63 - 1)) = comps.length := by
      exact hlength.trans (Int.zero_add _)
    rw [intOfSize] at hint
    have hmin : min comps.length (2 ^ 63 - 1) = comps.length := by omega
    exact ⟨by omega, hmin ▸ hroom, hfit⟩
  · cases h

/-! ## Streams -/

namespace Stream

variable {s : Stream}

/-- The bytes that arrive in a run. -/
def arrived (is : List StreamInput) : Bytes :=
  is.flatMap fun
    | .arrive piece => piece
    | .consume => []

/-- The calls have returned the command and nothing else, and all is as before it. -/
structure Returned (args : List Bytes) (s : Stream) : Prop where
  once : s.results.filter (· ≠ .notEnoughData) = [.ok args]
  parser : s.parser = .init
  buf : s.buf = []

/-- Part of the command has arrived and not been returned, or all of it. -/
def Fed (alloc : ℕ → Bool) (comps : List Bytes) (rem : Bytes) (s : Stream) : Prop :=
  Pending alloc comps rem s.parser s.buf ∧ (∀ res ∈ s.results, res = .notEnoughData) ∨
    rem = [] ∧ s.Returned (lowerName comps)

theorem Returned.mem {args : List Bytes} (h : s.Returned args) :
    ∀ res ∈ s.results, res = .notEnoughData ∨ res = .ok args := by
  intro res hres
  by_cases hmore : res = .notEnoughData
  · exact .inl hmore
  · have hmem : res ∈ s.results.filter (· ≠ .notEnoughData) := mem_filter.2 ⟨hres, decide_eq_true hmore⟩
    rw [h.once] at hmem
    exact .inr (mem_singleton.1 hmem)

theorem step_consume (hlive : ∀ res ∈ s.results, res.fatal = false) :
    s.step alloc resizable .consume = ⟨(consumeCommand alloc resizable s.parser s.buf).2.1,
          (consumeCommand alloc resizable s.parser s.buf).2.2,
          s.results ++ [(consumeCommand alloc resizable s.parser s.buf).1]⟩ := by
  have hany : ¬ s.results.any CommandResult.fatal = true := by
    rw [any_eq_true]
    rintro ⟨res, hres, hfatal⟩
    rw [hlive res hres] at hfatal
    cases hfatal
  rw [step, if_neg hany]

theorem Fed.consume (henc : Encodable alloc resizable comps) (hne : comps ≠ [])
    (h : Fed alloc comps rem s) : Fed alloc comps rem (s.step alloc resizable .consume) ∧
      (rem = [] → (s.step alloc resizable .consume).Returned (lowerName comps)) := by
  rcases h with ⟨hpending, hres⟩ | ⟨rfl, hret⟩
  · have hlive : ∀ res ∈ s.results, res.fatal = false := by
      intro res hmem
      rw [hres res hmem]
      rfl
    have hnone : s.results.filter (· ≠ .notEnoughData) = [] := by
      rw [filter_eq_nil_iff]
      intro res hmem
      rw [hres res hmem]
      decide
    rw [step_consume hlive]
    rcases hpending.consumeCommand henc hne with ⟨rfl, heq⟩ | ⟨hrem, p', buf', heq, hnext⟩
    · have hret : Returned (lowerName comps) ⟨.init, [], s.results ++ [.ok (lowerName comps)]⟩ :=
        ⟨by rw [filter_append, hnone]; rfl, rfl, rfl⟩
      rw [heq]
      exact ⟨.inr ⟨rfl, hret⟩, fun _ => hret⟩
    · rw [heq]
      exact ⟨.inl ⟨hnext, forall_mem_append.2 ⟨hres, forall_mem_singleton.2 rfl⟩⟩, fun hnil => absurd hnil hrem⟩
  · have hlive : ∀ res ∈ s.results, res.fatal = false := by
      intro res hmem
      rcases hret.mem res hmem with rfl | rfl <;> rfl
    have hnext : (s.step alloc resizable .consume).Returned (lowerName comps) := by
      rw [step_consume hlive, hret.parser, hret.buf]
      exact ⟨by rw [filter_append, hret.once]; rfl, rfl, rfl⟩
    exact ⟨.inr ⟨rfl, hnext⟩, fun _ => hnext⟩

theorem Fed.arrive {piece : Bytes} (h : Fed alloc comps (piece ++ rem) s) :
    Fed alloc comps rem (s.step alloc resizable (.arrive piece)) := by
  rcases h with ⟨⟨hparser, hsplit⟩ | ⟨done, cs, hp, hne, hfit, hargs, hsplit⟩, hres⟩ | ⟨hnil, hret⟩
  · rw [← append_assoc] at hsplit
    exact .inl ⟨.inl ⟨hparser, hsplit⟩, hres⟩
  · rw [← append_assoc] at hsplit
    exact .inl ⟨.inr ⟨done, cs, hp, hne, hfit, hargs, hsplit⟩, hres⟩
  · obtain ⟨rfl, rfl⟩ := append_eq_nil_iff.1 hnil
    exact .inr ⟨rfl, hret.once, hret.parser, by rw [step, hret.buf]; rfl⟩

/-- **Whatever has arrived, in whatever pieces,** no call returns anything but the
command. -/
theorem Fed.run (henc : Encodable alloc resizable comps) (hne : comps ≠ []) (is : List StreamInput)
    (h : Fed alloc comps (arrived is ++ rem) s) :
    Fed alloc comps rem (Lib.run (step alloc resizable) s is) := by
  induction is generalizing s with
  | nil => exact h
  | cons i is ih =>
    cases i with
    | arrive =>
      rw [arrived, flatMap_cons, append_assoc] at h
      exact ih h.arrive
    | consume => exact ih (Fed.consume henc hne h).1

/-- **The parser is safe on every stream, in any pieces, whose arrays announce a positive number
of strings; and it inverts the encoder** exactly on the commands that fit its types and the
memory. -/
theorem safe_and_inverts (alloc resizable : ℕ → Bool) : (∀ is, Lib.Along (step alloc resizable) Fits init is →
      ∀ res ∈ (Lib.run (step alloc resizable) init is).results, res.Safe) ∧
    ∀ comps : List Bytes, comps ≠ [] → comps.length < 2 ^ 64 → (∀ c ∈ comps, c.length < 2 ^ 64) →
      ((∀ is, arrived is = redisCommandByComponents comps →
          ((Lib.run (step alloc resizable) init is).step alloc resizable .consume).Returned
            (lowerName comps)) ↔ Encodable alloc resizable comps) := by
  refine ⟨run_safe, fun comps hne hcount hsize => ⟨fun h => ?_, fun henc is harr => ?_⟩⟩
  · have hret := h [.arrive (redisCommandByComponents comps)] (append_nil _)
    rw [step_consume (forall_mem_nil _)] at hret
    have hres : (consumeCommand alloc resizable .init (redisCommandByComponents comps)).1 = .ok (lowerName comps) := by
      rcases hret.mem _ (mem_append_right _ (mem_singleton_self _)) with hmore | hok
      · have honce := hret.once
        rw [hmore] at honce
        cases honce
      · exact hok
    exact encodable_of_ok hcount hsize (Prod.ext hres (Prod.ext hret.parser hret.buf))
  · have hstart : Fed alloc comps (arrived is ++ []) init := by
      rw [append_nil, harr]
      exact .inl ⟨.inl ⟨rfl, rfl⟩, forall_mem_nil _⟩
    exact (Fed.consume henc hne (Fed.run henc hne is hstart)).2 rfl

/-- `GET k` in two pieces, with a call in between. -/
def getInPieces : List StreamInput :=
  [.arrive [42, 50, 13, 10, 36, 51, 13, 10, 71], .consume, .arrive [69, 84, 13, 10, 36, 49, 13, 10, 107, 13, 10]]

theorem get_safe_and_returned :
    let s := Lib.run (step (fun _ => true) fun _ => true) init getInPieces
    (∀ res ∈ s.results, res.Safe) ∧
      (s.step (fun _ => true) (fun _ => true) .consume).Returned [[103, 101, 116], [107]] := by
  refine ⟨(safe_and_inverts _ _).1 getInPieces ⟨trivial, ?_, trivial, trivial⟩,
    ((safe_and_inverts _ _).2 [[71, 69, 84], [107]] (by decide) (by decide) (by decide)).2
      ⟨by decide, rfl, by decide, by decide, fun _ => by decide⟩ getInPieces (by decide)⟩
  intro _ _ v pos hnum _
  have hread : readNumber (step (fun _ => true) (fun _ => true) init
      (.arrive [42, 50, 13, 10, 36, 51, 13, 10, 71])).buf = .value 2 2 := by decide
  cases hnum
  decide

/-- An array of no strings and a string behind it: CHECK(_index < _length) fails. -/
theorem empty_array_checkFailed : (Lib.run (step (fun _ => true) (fun _ => true)) init
      [.arrive [42, 48, 13, 10, 36, 49, 13, 10, 120, 13, 10], .consume]).results = [.checkFailed] := by
  decide

end Stream
end Brpc.Redis
