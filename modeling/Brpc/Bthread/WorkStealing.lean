/-
# The work stealing queue

`WorkStealingQueue` of `bthread/work_stealing_queue.h`: the owner pushes and pops at `_bottom`,
thieves steal at `_top`.  Each access to an index or the buffer is a step (`State.step`), which
writes down what a call was made with and what it returned (`State.record`).  The indices grow with
the number of pushes, which does not reach 2^64.
-/

import Brpc.Lib.Ops
import Brpc.Lib.Run

namespace Brpc.WorkStealing

open Lib

/-- A capacity `init` accepts. -/
structure Capacity where
  val : ℕ
  pos : val ≠ 0
  pow : val &&& (val - 1) = 0

variable {α : Type*}

/-- Where the owner stands. -/
inductive Owner (α : Type*)
  | idle
  /-- `push` is about to load `_bottom`. -/
  | pushBottom (x : α)
  | pushTop (x : α) (b : ℕ)
  | pushWrite (x : α) (b : ℕ)
  /-- `push` is about to store `b + 1` to `_bottom`. -/
  | pushStore (x : α) (b : ℕ)
  /-- `pop` is about to load `_bottom`. -/
  | popBottom
  | popTop (b : ℕ)
  /-- `pop` is about to store `b - 1` to `_bottom`. -/
  | popStore (b : ℕ)
  /-- `pop` is about to load `_top` again. -/
  | popTopAgain (b : ℕ)
  /-- The queue is empty, `_bottom` will be `b` again. -/
  | popRestore (b : ℕ)
  | popRead (b t : ℕ)
  | popCas (b t : ℕ) (val : α)
  /-- `_bottom` will be `b` again, then `pop` returns. -/
  | popEnd (b : ℕ) (popped : Option α)

/-- Where a thief stands. -/
inductive Thief (α : Type*)
  | loadTop
  | loadBottom (t : ℕ)
  /-- The top of the loop. -/
  | loop (t : ℕ)
  | read (t : ℕ)
  | cas (t : ℕ) (val : α)

/-- What a call returns; `pop` and `steal` return true with a value. -/
inductive Answer (α : Type*)
  | push (ok : Bool)
  | take (val : Option α)

/-- The queue, the calls in progress, and the history: the values `push` was called with, those for
which it returned true, and those `pop` and `steal` returned. -/
structure State (α : Type*) where
  top : ℕ
  bottom : ℕ
  buffer : ℕ → α
  owner : Owner α
  thieves : List (Thief α)
  asked : List α
  pushed : List α
  returned : List α
  /-- `_bottom` and the `_top` loaded by each `push` that returned false. -/
  refused : List (ℕ × ℕ)

/-- A queue with whatever the new buffer holds. -/
def State.init (fill : ℕ → α) : State α where
  top := 1
  bottom := 1
  buffer := fill
  owner := .idle
  thieves := []
  asked := []
  pushed := []
  returned := []
  refused := []

inductive Input (α : Type*)
  /-- The owner, if it is not in a call, calls `push`. -/
  | push (x : α)
  | pop
  | runOwner
  | steal
  | runThief (k : ℕ)

/-- The slot of the item `i`. -/
def Capacity.slot (c : Capacity) (i : ℕ) : ℕ := i &&& (c.val - 1)

namespace State

variable (c : Capacity)

variable (s : State α) (b : ℕ)

def item (i : ℕ) : α := s.buffer (c.slot i)

def pushLoadTop (x : α) (b : ℕ) : State α × Option (Answer α) :=
  if s.top + c.val ≤ b then ({ s with owner := .idle }, some (.push false))
  else ({ s with owner := .pushWrite x b }, none)

def popLoadTop : State α × Option (Answer α) :=
  if b ≤ s.top then ({ s with owner := .idle }, some (.take none))
  else ({ s with owner := .popStore b }, none)

def popLoadTopAgain : State α :=
  if b - 1 < s.top then { s with owner := .popRestore b } else { s with owner := .popRead b s.top }

/-- `pop` reads the item, and has to compete for it if it is the last one. -/
def popReadItem (b t : ℕ) : State α × Option (Answer α) :=
  let val := s.item c (b - 1)
  if t ≠ b - 1 then ({ s with owner := .idle }, some (.take (some val)))
  else ({ s with owner := .popCas b t val }, none)

def popCompete (b t : ℕ) (val : α) : State α :=
  if s.top = t then { s with top := t + 1, owner := .popEnd b (some val) }
  else { s with owner := .popEnd b none }

/-- The next step of the owner, and what the call returns if it is the last. -/
def stepOwner : State α × Option (Answer α) :=
  match s.owner with
  | .idle => (s, none)
  | .pushBottom x => ({ s with owner := .pushTop x s.bottom }, none)
  | .pushTop x b => s.pushLoadTop c x b
  | .pushWrite x b =>
    ({ s with buffer := Function.update s.buffer (c.slot b) x, owner := .pushStore x b }, none)
  | .pushStore _ b => ({ s with bottom := b + 1, owner := .idle }, some (.push true))
  | .popBottom => ({ s with owner := .popTop s.bottom }, none)
  | .popTop b => s.popLoadTop b
  | .popStore b => ({ s with bottom := b - 1, owner := .popTopAgain b }, none)
  | .popTopAgain b => (s.popLoadTopAgain b, none)
  | .popRestore b => ({ s with bottom := b, owner := .idle }, some (.take none))
  | .popRead b t => s.popReadItem c b t
  | .popCas b t val => (s.popCompete b t val, none)
  | .popEnd b popped => ({ s with bottom := b, owner := .idle }, some (.take popped))

/-- The thief `k` goes on with `new`, or returns if that is empty. -/
def goOn (k : ℕ) (new : List (Thief α)) : State α :=
  { s with thieves := replaceAt s.thieves k new }

/-- The thief `k` returns false if `_top` has come to `_bottom`, and goes on with `th` otherwise. -/
def unlessEmpty (k t : ℕ) (th : Thief α) : State α × Option (Answer α) :=
  if s.bottom ≤ t then (s.goOn k [], some (.take none)) else (s.goOn k [th], none)

def stepThief (k : ℕ) : Thief α → State α × Option (Answer α)
  | .loadTop => (s.goOn k [.loadBottom s.top], none)
  | .loadBottom t => s.unlessEmpty k t (.loop t)
  | .loop t => s.unlessEmpty k t (.read t)
  | .read t => (s.goOn k [.cas t (s.item c t)], none)
  | .cas t val =>
    if s.top = t then ({ s.goOn k [] with top := t + 1 }, some (.take (some val)))
    else (s.goOn k [.loop s.top], none)

/-- The owner starts a call unless it is in one. -/
def call (o : Owner α) (asked : List α) : State α :=
  match s.owner with
  | .idle => { s with owner := o, asked := s.asked ++ asked }
  | _ => s

/-- What is known of a call that has returned in this step.  The value of a `push` is the one it
was called with. -/
def record (r : State α × Option (Answer α)) : State α :=
  match r.2 with
  | some (.push true) => { r.1 with pushed := r.1.pushed ++ s.asked.getLast?.toList }
  | some (.push false) => { r.1 with refused := r.1.refused ++ [(s.bottom, s.top)] }
  | some (.take (some val)) => { r.1 with returned := r.1.returned ++ [val] }
  | _ => r.1

def step : Input α → State α
  | .push x => s.call (.pushBottom x) [x]
  | .pop => s.call .popBottom []
  | .runOwner => s.record (s.stepOwner c)
  | .steal => { s with thieves := s.thieves ++ [.loadTop] }
  | .runThief k =>
    match s.thieves[k]? with
    | some th => s.record (s.stepThief c k th)
    | none => s

end State
end Brpc.WorkStealing
