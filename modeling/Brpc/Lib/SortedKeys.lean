/-
# Lists sorted by a key

`std::sort`, `std::unique`, `std::set_difference` and `std::inplace_merge` on increasing lists,
where the difference is a filter (`setDifference_eq_filter`); the union as `std::set_union` makes it
(`setUnion`); and the element a walk around a sorted list meets first from some place on (`around`),
which depends on the set of the elements only (`FirstAround.unique`).
-/

import Mathlib.Order.Lattice
import Mathlib.Data.List.Dedup

namespace Lib

open List

variable {K : Type*} [LinearOrder K]

def sort (l : List K) : List K := l.mergeSort fun a b => a ≤ b

def inplaceMerge (xs ys : List K) : List K := xs.merge ys fun a b => a ≤ b

/-- `std::unique`: in a sorted list equal elements are neighbours. -/
def unique (l : List K) : List K := l.dedup

/-- One element of the first list against the second. -/
def differenceAfter (x : K) (rest : List K → List K) : List K → List K
  | [] => x :: rest []
  | y :: ys =>
    if x < y then x :: rest (y :: ys)
    else if y < x then differenceAfter x rest ys
    else rest ys

def setDifference : List K → List K → List K
  | [] => fun _ => []
  | x :: xs => differenceAfter x (setDifference xs)

/-- An increasing list without repetition. -/
def Increasing (l : List K) : Prop := l.Pairwise (· < ·)

variable {xs ys l : List K}

theorem Increasing.nodup (h : Increasing l) : l.Nodup := h.imp ne_of_lt

theorem increasing_of_nodup (h : l.Pairwise fun a b => decide (a ≤ b) = true) (hn : l.Nodup) : Increasing l :=
  (h.and hn).imp fun h => lt_of_le_of_ne (of_decide_eq_true h.1) h.2

theorem pairwise_sort (l : List K) : (sort l).Pairwise fun a b => decide (a ≤ b) = true :=
  pairwise_mergeSort (by simpa using fun _ _ _ => le_trans) (by simpa using le_total) l

theorem increasing_sort (h : l.Nodup) : Increasing (sort l) :=
  increasing_of_nodup (pairwise_sort l) ((mergeSort_perm l _).nodup_iff.2 h)

@[simp] theorem mem_sort {a : K} : a ∈ sort l ↔ a ∈ l := mem_mergeSort

theorem increasing_inplaceMerge (hx : Increasing xs) (hy : Increasing ys) (h : xs.Disjoint ys) :
    Increasing (inplaceMerge xs ys) := by
  refine increasing_of_nodup (pairwise_merge (by simpa using fun _ _ _ => le_trans)
    (by simpa using le_total) xs ys ?_ ?_) ?_
  · exact hx.imp fun h => decide_eq_true h.le
  · exact hy.imp fun h => decide_eq_true h.le
  · exact (merge_perm_append _).nodup_iff.2 (List.Nodup.append hx.nodup hy.nodup h)

@[simp] theorem mem_inplaceMerge {a : K} : a ∈ inplaceMerge xs ys ↔ a ∈ xs ∨ a ∈ ys := mem_merge

theorem increasing_unique_sort (l : List K) : Increasing (unique (sort l)) :=
  increasing_of_nodup ((pairwise_sort l).sublist (dedup_sublist _)) (nodup_dedup _)

@[simp] theorem mem_unique {a : K} : a ∈ unique l ↔ a ∈ l := mem_dedup

/-- **The difference of two increasing lists.** -/
theorem setDifference_eq_filter (hx : Increasing xs) (hy : Increasing ys) :
    setDifference xs ys = xs.filter (· ∉ ys) := by
  induction xs generalizing ys with
  | nil => rfl
  | cons x xs ih =>
    obtain ⟨hlt, hxs⟩ := pairwise_cons.1 hx
    induction ys with
    | nil => simp [setDifference, differenceAfter, ih hxs hy]
    | cons y ys ihy =>
      obtain ⟨hylt, hys⟩ := pairwise_cons.1 hy
      rw [setDifference, differenceAfter]
      rcases lt_trichotomy x y with h | rfl | h
      · rw [if_pos h, ih hxs hy, filter_cons_of_pos]
        grind
      · rw [if_neg (lt_irrefl x), if_neg (lt_irrefl x), ih hxs hys, filter_cons_of_neg (by simp)]
        exact filter_congr fun a ha => by simp [(hlt a ha).ne']
      · rw [if_neg h.not_gt, if_pos h]
        refine (ihy hys).trans (filter_congr fun a ha => ?_)
        have hya : y < a := by
          exact forall_mem_cons.2 ⟨h, fun a ha => h.trans (hlt a ha)⟩ a ha
        simp [hya.ne']

/-! ## Union, and walks around the list -/

variable {α : Type*} (key : α → K)

/-- The keys do not decrease. -/
def SortedBy (l : List α) : Prop := l.Pairwise fun a b => key a ≤ key b

/-- One element of the first list against the second. -/
def unionAfter (x : α) (rest : List α → List α) : List α → List α
  | [] => x :: rest []
  | y :: ys =>
    if key x < key y then x :: rest (y :: ys)
    else if key y < key x then y :: unionAfter x rest ys
    else x :: rest ys

/-- `std::set_union`: of two equal elements the one of the first list is taken. -/
def setUnion : List α → List α → List α
  | [] => id
  | x :: xs => unionAfter key x (setUnion xs)

variable {key}

variable {rest : List α → List α} {x z : α} {xs ys : List α}

theorem mem_of_mem_unionAfter (hrest : ∀ ys, z ∈ rest ys → z ∈ xs ∨ z ∈ ys) (h : z ∈ unionAfter key x rest ys) :
    z ∈ x :: xs ∨ z ∈ ys := by
  have hcons {ys ys' : List α} (hsub : ∀ a ∈ ys', a ∈ ys) (h : z ∈ x :: rest ys') : z ∈ x :: xs ∨ z ∈ ys := by
    rcases mem_cons.1 h with rfl | h
    · exact .inl mem_cons_self
    · rcases hrest ys' h with h | h
      · exact .inl (mem_cons_of_mem _ h)
      · exact .inr (hsub z h)
  induction ys with
  | nil => exact hcons (fun _ h => h) h
  | cons y ys ih =>
    rw [unionAfter] at h
    split at h
    · exact hcons (fun _ h => h) h
    · split at h
      · rcases mem_cons.1 h with rfl | h
        · exact .inr mem_cons_self
        · exact (ih h).imp_right (mem_cons_of_mem _)
      · exact hcons (fun _ h => mem_cons_of_mem _ h) h

/-- The union has the elements of both lists only. -/
theorem mem_of_mem_setUnion (h : z ∈ setUnion key xs ys) : z ∈ xs ∨ z ∈ ys := by
  induction xs generalizing ys with
  | nil => exact .inr h
  | cons x xs ih => exact mem_of_mem_unionAfter (fun _ h => ih h) h

theorem sublist_unionAfter
    (hrest : ∀ ys, xs.Sublist (rest ys)) (ys : List α) : (x :: xs).Sublist (unionAfter key x rest ys) := by
  induction ys with
  | nil => exact (hrest []).cons_cons x
  | cons y ys ih =>
    rw [unionAfter]
    split
    · exact (hrest _).cons_cons x
    · split
      · exact ih.cons y
      · exact (hrest _).cons_cons x

/-- The first list is still there. -/
theorem sublist_setUnion (xs ys : List α) : xs.Sublist (setUnion key xs ys) := by
  induction xs generalizing ys with
  | nil => exact nil_sublist ys
  | cons x xs ih => exact sublist_unionAfter ih ys

/-- **The union is sorted.** -/
theorem sortedBy_setUnion (hx : SortedBy key xs) (hy : SortedBy key ys) : SortedBy key (setUnion key xs ys) := by
  induction xs generalizing ys with
  | nil => exact hy
  | cons x xs ih =>
    obtain ⟨hxs, hx⟩ := pairwise_cons.1 hx
    -- an element in front of a union of later ones
    have hfront {a : α} {ys' : List α} (hy' : SortedBy key ys') (hax : ∀ b ∈ xs, key a ≤ key b)
        (hay : ∀ b ∈ ys', key a ≤ key b) : SortedBy key (a :: setUnion key xs ys') := by
      refine pairwise_cons.2 ⟨fun b hb => ?_, ih hx hy'⟩
      rcases mem_of_mem_setUnion hb with hb | hb
      · exact hax b hb
      · exact hay b hb
    rw [setUnion]
    induction ys with
    | nil => exact hfront hy hxs (forall_mem_nil _)
    | cons y ys ihy =>
      obtain ⟨hys, hy'⟩ := pairwise_cons.1 hy
      rw [unionAfter]
      split
      next hxy =>
        refine hfront hy hxs fun b hb => ?_
        rcases mem_cons.1 hb with rfl | hb
        · exact le_of_lt hxy
        · exact le_trans (le_of_lt hxy) (hys b hb)
      next hxy =>
        split
        · refine pairwise_cons.2 ⟨fun b hb => ?_, ihy hy'⟩
          rcases mem_of_mem_unionAfter (fun _ h => mem_of_mem_setUnion h) hb with hb | hb
          · rcases mem_cons.1 hb with rfl | hb
            · exact not_lt.1 hxy
            · exact le_trans (not_lt.1 hxy) (hxs b hb)
          · exact hys b hb
        next hyx =>
          exact hfront hy' hxs fun b hb => le_trans (not_lt.1 hyx) (hys b hb)

theorem count_of_lt [DecidableEq α] (h : SortedBy key (x :: xs)) (hlt : key z < key x) : (x :: xs).count z = 0 := by
  refine count_eq_zero.2 fun hmem => ?_
  rcases mem_cons.1 hmem with rfl | hmem
  · exact lt_irrefl _ hlt
  · exact absurd ((pairwise_cons.1 h).1 z hmem) hlt.not_ge

/-- **How often an element is in the union**, where elements of the two lists with one key are equal. -/
theorem count_setUnion [DecidableEq α] (hx : SortedBy key xs) (hy : SortedBy key ys)
    (hinj : ∀ a ∈ xs, ∀ b ∈ ys, key a = key b → a = b) :
    (setUnion key xs ys).count z = max (xs.count z) (ys.count z) := by
  induction xs generalizing ys with
  | nil => exact (Nat.zero_max _).symm
  | cons x xs ih =>
    obtain ⟨hxs, hx⟩ := pairwise_cons.1 hx
    have htail : ∀ a ∈ xs, ∀ b ∈ ys, key a = key b → a = b := fun a ha => hinj a (mem_cons_of_mem _ ha)
    rw [setUnion]
    induction ys with
    | nil => simp [unionAfter, count_cons, ih hx hy htail]
    | cons y ys ihy =>
      have hy' := (pairwise_cons.1 hy).2
      have htail' : ∀ a ∈ x :: xs, ∀ b ∈ ys, key a = key b → a = b := fun a ha b hb =>
        hinj a ha b (mem_cons_of_mem _ hb)
      rw [unionAfter]
      split_ifs with hxy hyx
      -- an element in front of both lists is in neither
      · have hzero : x = z → (y :: ys).count z = 0 := by
          rintro rfl
          exact count_of_lt hy hxy
        rw [count_cons, ih hx hy htail, count_cons (l := xs)]
        grind
      · have hzero : y = z → (x :: xs).count z = 0 := by
          rintro rfl
          exact count_of_lt (pairwise_cons.2 ⟨hxs, hx⟩) hyx
        rw [count_cons, ihy hy' htail' fun a ha => htail' a (mem_cons_of_mem _ ha), count_cons (l := ys)]
        grind
      · obtain rfl := hinj x mem_cons_self y mem_cons_self (le_antisymm (not_lt.1 hyx) (not_lt.1 hxy))
        rw [count_cons, ih hx hy' fun a ha => htail' a (mem_cons_of_mem _ ha), count_cons, count_cons]
        omega

/-! ## Around a sorted list -/

/-- The list from the first element with `p` on, and then from the front. -/
def around (p : α → Bool) (l : List α) : List α := l.drop (l.findIdx p) ++ l.take (l.findIdx p)

variable {a : α}

variable {p : α → Bool}

theorem mem_around {l : List α} : a ∈ around p l ↔ a ∈ l := by
  rw [around, mem_append, or_comm, ← mem_append, take_append_drop]

theorem length_around (p : α → Bool) (l : List α) : (around p l).length = l.length := by
  rw [around, length_append, Nat.add_comm, ← length_append, take_append_drop]

variable (key) in
/-- The smallest element with `p`, or the smallest of all where none has it. -/
structure FirstAround (p : α → Prop) (S : α → Prop) (a : α) : Prop where
  mem : S a
  first : (p a ∧ ∀ b, S b → p b → key a ≤ key b) ∨ ((∀ b, S b → ¬ p b) ∧ ∀ b, S b → key a ≤ key b)

/-- **The set decides.** -/
theorem FirstAround.unique {p S : α → Prop} {b : α} (ha : FirstAround key p S a)
    (hb : FirstAround key p S b) (hinj : key a = key b → a = b) : a = b := by
  refine hinj ?_
  rcases ha.first with ⟨hpa, hla⟩ | ⟨hna, hla⟩
  · rcases hb.first with ⟨hpb, hlb⟩ | ⟨hnb, -⟩
    · exact le_antisymm (hla b hb.mem hpb) (hlb a ha.mem hpa)
    · exact absurd hpa (hnb a ha.mem)
  · rcases hb.first with ⟨hpb, -⟩ | ⟨-, hlb⟩
    · exact absurd hpb (hna b hb.mem)
    · exact le_antisymm (hla b hb.mem) (hlb a ha.mem)

/-- **Other elements do not matter.** -/
theorem FirstAround.mono {p S S' : α → Prop} (h : FirstAround key p S' a) (hS : ∀ b, S b → S' b)
    (ha : S a) : FirstAround key p S a where
  mem := ha
  first := by
    rcases h.first with ⟨hp, hl⟩ | ⟨hn, hl⟩
    · exact .inl ⟨hp, fun b hb => hl b (hS b hb)⟩
    · exact .inr ⟨fun b hb => hn b (hS b hb), fun b hb => hl b (hS b hb)⟩

theorem head?_drop_findIdx (p : α → Bool) (l : List α) : (l.drop (l.findIdx p)).head? = l.find? p := by
  induction l with
  | nil => rfl
  | cons x xs ih =>
    rw [findIdx_cons, find?_cons]
    cases p x with
    | true => rfl
    | false => exact ih

theorem head?_around (p : α → Bool) (l : List α) : (around p l).head? = (l.find? p).or l.head? := by
  rw [around, head?_append, head?_drop_findIdx]
  cases hf : l.find? p with
  | some => rfl
  | none =>
    have hidx : l.findIdx p = l.length := findIdx_eq_length.2 fun a ha => Bool.eq_false_iff.2 (find?_eq_none.1 hf a ha)
    rw [hidx, take_length]

/-- **The walk starts there.** -/
theorem firstAround_head {l : List α} (hl : SortedBy key l)
    (h : (around p l).head? = some a) : FirstAround key (fun b => p b = true) (· ∈ l) a := by
  rw [head?_around] at h
  cases hf : l.find? p with
  | some =>
    rw [hf] at h
    cases h
    obtain ⟨hp, before, after, rfl, hbefore⟩ := find?_eq_some_iff_append.1 hf
    refine ⟨mem_append_right _ mem_cons_self, .inl ⟨hp, fun c hc hpc => ?_⟩⟩
    have hafter := (pairwise_append.1 hl).2.1
    rcases mem_append.1 hc with hc | hc
    · have := hbefore c hc
      rw [hpc] at this
      cases this
    · rcases mem_cons.1 hc with rfl | hc
      · exact le_rfl
      · exact (pairwise_cons.1 hafter).1 c hc
  | none =>
    rw [hf] at h
    cases l with
    | nil => cases h
    | cons =>
      cases h
      refine ⟨mem_cons_self, .inr ⟨find?_eq_none.1 hf, fun c hc => ?_⟩⟩
      rcases mem_cons.1 hc with rfl | hc
      · exact le_rfl
      · exact (pairwise_cons.1 hl).1 c hc

/-- A walk that starts where `p` begins to hold. -/
theorem around_eq_filter {l : List α} (h : l.Pairwise fun a b => p a → p b) :
    around p l = l.filter p ++ l.filter (!p ·) := by
  suffices hsplit : l.drop (l.findIdx p) = l.filter p ∧ l.take (l.findIdx p) = l.filter (!p ·) by
    rw [around, hsplit.1, hsplit.2]
  induction l with
  | nil => exact ⟨rfl, rfl⟩
  | cons a l ih =>
    obtain ⟨ha, hl⟩ := pairwise_cons.1 h
    cases hp : p a with
    | true =>
      have hall : l.filter p = l := filter_eq_self.2 fun b hb => ha b hb hp
      simpa [findIdx_cons, hp, hall] using ha
    | false => simpa [findIdx_cons, hp] using ih hl

theorem around_filter {q : α → Bool} {l : List α} (h : l.Pairwise fun a b => p a → p b) :
    around p (l.filter q) = (around p l).filter q := by
  simp [around_eq_filter h, around_eq_filter (h.filter q), filter_filter, Bool.and_comm]

/-! ## Trying candidates, with a last chance -/

variable {α : Type*} (available excluded : α → Bool)

/-- The first candidate that is available and not excluded, or the last if it is available. -/
def pick : List α → Option α
  | [] => none
  | a :: as => if (as = [] ∨ excluded a = false) ∧ available a = true then some a else pick as

variable {available excluded}

/-- When all candidates are available and none is excluded, the first is found. -/
theorem pick_head {as : List α} (hav : ∀ a ∈ as, available a = true)
    (hex : ∀ a ∈ as, excluded a = false) : pick available excluded as = as.head? := by
  cases as with
  | nil => rfl
  | cons a =>
    rw [pick, if_pos ⟨.inr (hex a List.mem_cons_self), hav a List.mem_cons_self⟩]
    rfl

/-- When none is excluded, the first that is available is found. -/
theorem pick_eq_find? (as : List α) : pick available (fun _ => false) as = as.find? available := by
  induction as with
  | nil => rfl
  | cons a as ih => cases ha : available a <;> simp [pick, ha, ih]

end Lib
