/-
# The host and the port of a URL

`URI::SetHttpURL` and `ParseURL` of `brpc/uri.cpp` go over a URL up to its path with the same loop,
and `SplitHostAndPort` takes the port off the end of the host: `exact_iff`.
-/

import Mathlib.Data.Int.Notation
import Mathlib.Data.List.Basic

namespace Brpc.Uri

open List

def isValidChar (c : Char) : Bool := c.isAlphanum || c ∈ ":/?#[]@!$&'()*+,;=-._~% ".toList

/-- What the loop does with a byte. -/
inductive Action where
  | goOn
  | check
  | refuse
  | leave

/-- `g_url_parsing_fast_action_map`, and the test `SetHttpURL` makes of the bytes it looks at. -/
def action (test : Bool) (c : Char) : Action :=
  if c ∈ ['#', '/', '?'] then .leave
  else if c ∈ [' ', ':', '@'] then (if test && !isValidChar c then .refuse else .check)
  else .goOn

/-- What was found up to `p`: `text` is between `start` and `p`, `rest` from `p` on. -/
structure Head where
  scheme : List Char := []
  userInfo : List Char := []
  text : List Char := []
  rest : List Char := []

def Head.pass (h : Head) (c : Char) : Head := { h with text := h.text ++ [c] }

/-- The loop up to the path. -/
def scan (action : Char → Action) (h : Head) (needScheme needUserInfo : Bool) : List Char → Except String Head
  | [] => .ok h
  | c :: p =>
    match action c with
    | .goOn => scan action (h.pass c) needScheme needUserInfo p
    | .refuse => .error "invalid character in url"
    | .leave => .ok { h with rest := c :: p }
    | .check =>
      if c = ':' then
        match needScheme, p with
        | true, '/' :: '/' :: p => scan action { h with scheme := h.text, text := [] } false needUserInfo p
        | _, p => scan action (h.pass c) needScheme needUserInfo p
      else if c = '@' then
        if needUserInfo then scan action { h with userInfo := h.text, text := [] } needScheme false p
        else scan action (h.pass c) needScheme needUserInfo p
      else if p.all (· == ' ') then .ok { h with rest := c :: p }
      else .error "Invalid space in url"

/-- The loop of `SplitHostAndPort`, from the end; the first byte of the host is not looked at. -/
def splitLoop (portRaw multiply : ℕ) : List Char → Option (List Char × ℕ)
  | c :: d :: q =>
    if c.isDigit then
      splitLoop ((portRaw + (c.toNat - 48) * multiply) % 18446744073709551616)
        (multiply * 10 % 18446744073709551616) (d :: q)
    else if c = ':' then some (d :: q, portRaw)
    else none
  | _ => none

/-- `SplitHostAndPort`: the port is cast to 32 bits. -/
def splitHostAndPort (text : List Char) : List Char × ℤ :=
  match splitLoop 0 1 text.reverse with
  | some (host, portRaw) => (host.reverse, (portRaw : ℤ).bmod 4294967296)
  | none => (text, -1)

/-- The component that starts with `mark`, up to one of `stops` or blanks at the end. -/
def component (name : String) (mark : Char) (stops p : List Char) : Except String (List Char × List Char) :=
  if p.head? ≠ some mark then .ok ([], p)
  else
    let inside := fun c => c ∉ stops && c != ' '
    let rest := p.tail.dropWhile inside
    if rest.head? = some ' ' ∧ ¬rest.all (· == ' ') then .error ("Invalid space in " ++ name)
    else .ok (mark :: p.tail.takeWhile inside, rest)

structure Url where
  scheme : List Char
  userInfo : List Char
  host : List Char
  port : ℤ
  path : List Char
  query : List Char
  fragment : List Char
  deriving DecidableEq

/-- The start of a URL: heading blanks are skipped. -/
def head (test : Bool) (url : List Char) : Except String Head := scan (action test) {} true true (url.dropWhile (· == ' '))

def setHttpURL (url : List Char) : Except String Url := do
  let h ← head true url
  let (host, port) := splitHostAndPort h.text
  let (path, p) ← component "path" '/' ['?', '#'] h.rest
  let (query, p) ← component "query" '?' ['#'] p
  let (fragment, _) ← component "fragment" '#' [] p
  .ok ⟨h.scheme, h.userInfo, host, port, path, query.tail, fragment.tail⟩

/-- The scheme, the host and the port. -/
def parseURL (url : List Char) : Option (List Char × List Char × ℤ) :=
  (head false url).toOption.map fun h => (h.scheme, splitHostAndPort h.text)

/-- The number decimal digits stand for. -/
def value (digits : List Char) : ℕ := digits.foldl (fun n c => n * 10 + (c.toNat - 48)) 0

/-- The bytes before the path are valid, `ParseURL` agrees, and the port is the number written
after the host, if there is one. -/
structure Exact (url : List Char) (h : Head) (u : Url) : Prop where
  valid : ∀ c ∈ url.take (url.length - h.rest.length), isValidChar c
  agrees : parseURL url = some (u.scheme, u.host, u.port)
  port : h.text = u.host ∧ u.port = -1 ∨
    ∃ digits, h.text = u.host ++ ':' :: digits ∧ (∀ d ∈ digits, d.isDigit) ∧ u.port = value digits

/-- **The bytes that are tested are valid.** -/
theorem action_test : action true = action false := by
  funext c
  rw [action, action]
  by_cases h : c ∈ [' ', ':', '@']
  · have hvalid : isValidChar c = true := by
      simp only [mem_cons, not_mem_nil, or_false] at h
      rcases h with rfl | rfl | rfl <;> decide
    simp [hvalid]
  · rw [if_neg h, if_neg h]

theorem splitLoop_spec {portRaw multiply n : ℕ} {host r : List Char} (hraw : portRaw < 18446744073709551616)
    (h : splitLoop portRaw multiply r = some (host, n)) : ∃ ds, r = ds ++ ':' :: host ∧ host ≠ [] ∧ (∀ d ∈ ds, d.isDigit) ∧
      n = (portRaw + multiply * value ds.reverse) % 18446744073709551616 := by
  fun_induction splitLoop portRaw multiply r with
  | case1 portRaw multiply c d q hc ih =>
    obtain ⟨ds, hr, hne, hds, hn⟩ := ih (Nat.mod_lt _ (by decide)) h
    refine ⟨c :: ds, by rw [hr]; rfl, hne, forall_mem_cons.2 ⟨hc, hds⟩, ?_⟩
    have hvalue : value (c :: ds).reverse = value ds.reverse * 10 + (c.toNat - 48) := by
      rw [reverse_cons, value, foldl_append]
      rfl
    rw [hn, hvalue]
    rw [Nat.mod_add_mod, Nat.add_mod, Nat.mul_mod, Nat.mod_mod, ← Nat.mul_mod, ← Nat.add_mod]
    grind
  | case2 =>
    cases h
    exact ⟨[], rfl, cons_ne_nil _ _, forall_mem_nil _, by simp [value, Nat.mod_eq_of_lt hraw]⟩
  | case3 | case4 => cases h

/-- Digits behind a colon are split off. -/
theorem splitLoop_digits {host ds : List Char} (hne : host ≠ []) (hds : ∀ d ∈ ds, d.isDigit) (portRaw multiply : ℕ) :
    ∃ n, splitLoop portRaw multiply (ds ++ ':' :: host) = some (host, n) := by
  obtain ⟨c, q, rfl⟩ := exists_cons_of_ne_nil hne
  induction ds generalizing portRaw multiply with
  | nil => exact ⟨portRaw, rfl⟩
  | cons d ds ih =>
    obtain ⟨hd, hds⟩ := forall_mem_cons.1 hds
    cases ds with
    | nil | cons =>
      simp only [cons_append, nil_append] at ih ⊢
      rw [splitLoop, if_pos hd]
      exact ih hds _ _

/-- The host is all of the text, or the digits of the port follow it. -/
theorem splitHostAndPort_spec (text : List Char) : text = (splitHostAndPort text).1 ∧ (splitHostAndPort text).2 = -1 ∨
    ∃ digits, text = (splitHostAndPort text).1 ++ ':' :: digits ∧ (splitHostAndPort text).1 ≠ [] ∧
      ∀ d ∈ digits, d.isDigit := by
  rw [splitHostAndPort]
  split
  next host n hloop =>
    obtain ⟨ds, hreverse, hne, hdigits, -⟩ := splitLoop_spec (by decide) hloop
    refine .inr ⟨ds.reverse, ?_, by simpa using hne, by simpa using hdigits⟩
    rw [← reverse_inj, hreverse]
    simp
  · exact .inl ⟨rfl, rfl⟩

theorem splitHostAndPort_digits {host ds : List Char} (hne : host ≠ []) (hds : ∀ d ∈ ds, d.isDigit) :
    splitHostAndPort (host ++ ':' :: ds) =
      (host, ((value ds % 18446744073709551616 : ℕ) : ℤ).bmod 4294967296) := by
  obtain ⟨n, hn⟩ := @splitLoop_digits host.reverse ds.reverse (by simpa using hne) (by simpa using hds) 0 1
  obtain ⟨_, heq, -, -, rfl⟩ := splitLoop_spec (by decide) hn
  rw [splitHostAndPort, reverse_append, reverse_cons, append_assoc, singleton_append, hn, ← append_cancel_right heq]
  simp

theorem bmod_eq_iff (n : ℕ) : ((n % 18446744073709551616 : ℕ) : ℤ).bmod 4294967296 = n ↔ n < 2147483648 := by
  rw [Int.bmod]
  omega

/-- **A URL that is accepted is read exactly** if the bytes before its path are valid and the digits behind the
host, if its authority ends in a colon and digits only, stand for less than `2^31`, and otherwise not. -/
theorem exact_iff {url : List Char} {h : Head} {u : Url} (hhead : head true url = .ok h)
    (hu : setHttpURL url = .ok u) : Exact url h u ↔
      (∀ c ∈ url.take (url.length - h.rest.length), isValidChar c) ∧
        ∀ host digits, h.text = host ++ ':' :: digits → host ≠ [] → (∀ d ∈ digits, d.isDigit) →
          value digits < 2147483648 := by
  have hagrees : parseURL url = some (u.scheme, u.host, u.port) ∧ splitHostAndPort h.text = (u.host, u.port) := by
    simp only [setHttpURL, hhead, bind, Except.bind] at hu
    split at hu
    · cases hu
    split at hu
    · cases hu
    split at hu
    · cases hu
    cases hu
    exact ⟨by rw [parseURL, head, ← action_test, ← head, hhead]; rfl, rfl⟩
  constructor
  · rintro ⟨hvalid, -, hport⟩
    refine ⟨hvalid, fun host ds hds hne hall => ?_⟩
    have hsplit := hagrees.2
    rw [hds, splitHostAndPort_digits hne hall, Prod.mk.injEq] at hsplit
    obtain ⟨rfl, hbmod⟩ := hsplit
    rw [hds] at hport
    obtain ⟨htext, -⟩ | ⟨_, htext, -, hport⟩ := hport
    · exact absurd (congrArg length htext) (by simp)
    · rw [(List.cons.inj (append_cancel_left htext)).2] at hbmod ⊢
      exact (bmod_eq_iff _).1 (hbmod.trans hport)
  · rintro ⟨hvalid, hsmall⟩
    have hsplit := splitHostAndPort_spec h.text
    rw [hagrees.2] at hsplit
    refine ⟨hvalid, hagrees.1, hsplit.imp_right ?_⟩
    rintro ⟨ds, hds, hne, hall⟩
    have hport := hagrees.2
    rw [hds, splitHostAndPort_digits hne hall, Prod.mk.injEq] at hport
    exact ⟨ds, hds, hall, hport.2.symm.trans ((bmod_eq_iff _).2 (hsmall _ ds hds hne hall))⟩

/-- A byte that is not valid is passed over, and a port of more than 32 bits is wrapped. -/
theorem accepted_inexact : setHttpURL ['<'] = .ok ⟨[], [], ['<'], -1, [], [], []⟩ ∧ isValidChar '<' = false ∧
    setHttpURL "a:4294967296".toList = .ok ⟨[], [], ['a'], 0, [], [], []⟩ := by
  decide +kernel

theorem port80_exact : Exact ['a', ':', '8', '0'] ⟨[], [], ['a', ':', '8', '0'], []⟩ ⟨[], [], ['a'], 80, [], [], []⟩ := by
  refine (exact_iff rfl (by decide +kernel)).2 ⟨all_eq_true.1 (by decide +kernel), fun host ds hds _ _ => ?_⟩
  rcases host with _ | ⟨a, _ | ⟨b, _ | ⟨c, _ | ⟨d, q⟩⟩⟩⟩ <;> simp at hds
  obtain ⟨-, rfl⟩ := hds
  decide

end Brpc.Uri
