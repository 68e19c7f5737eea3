/-
  SingleFile.Proofs.Ordered — LOOKING THINGS UP IN ORDER
  ──────────────────────────────────────────────────────
  What is looked up in order of a number is there once for each number, so
  the first hit is the one with the least number, and a search need not look
  at all of them: it halves a range until one is left.  What such a search
  finds is told by the number of keys up to the one looked for, the reach of
  that key.

  Main results:
    * `find?_eq_some_iff_of_ordered` — the first hit is the least one.
    * `le_iff_lt_reach` — the keys up to a number stand in front.
    * `halve_eq` — the key that is left is the last one up to the number
      looked for.  The loop.
    * `bisect_eq_of_getElem?` — a key that is there is found.
    * `bisect_eq_of_not_mem` — for one that is not, the place it would take.
-/
import Mathlib.Data.List.Basic

namespace SingleFile

/-! ## §1. The first hit -/

/-- **The first hit is the least one** in a list that is in order of a number. -/
theorem find?_eq_some_iff_of_ordered {α : Type} (number : α → Nat) {l : List α} {test : α → Bool}
    {a : α} (hordered : l.Pairwise fun a b => number a < number b) :
    l.find? test = some a ↔ a ∈ l ∧ test a = true ∧
      ∀ earlier ∈ l, number earlier < number a → test earlier = false := by
  rw [List.find?_eq_some_iff_append]
  constructor
  · rintro ⟨htest, front, later, rfl, hfront⟩
    refine ⟨by simp, htest, fun earlier hearlier hlt => ?_⟩
    obtain ⟨-, hlater, -⟩ := List.pairwise_append.mp hordered
    rcases List.mem_append.mp hearlier with h | h
    · simpa using hfront earlier h
    · rcases List.mem_cons.mp h with rfl | h
      · exact absurd hlt (Nat.lt_irrefl _)
      · exact absurd hlt (Nat.lt_asymm ((List.pairwise_cons.mp hlater).1 earlier h))
  · rintro ⟨hmem, htest, hnone⟩
    obtain ⟨front, later, rfl⟩ := List.append_of_mem hmem
    obtain ⟨-, -, hfront⟩ := List.pairwise_append.mp hordered
    refine ⟨htest, front, later, rfl, fun earlier hearlier => ?_⟩
    have hlt := hfront earlier hearlier a (List.mem_cons_self ..)
    simp [hnone earlier (List.mem_append_left _ hearlier) hlt]

/-! ## §2. The search -/

/-- Where a search ends. -/
inductive SearchEnd where
  /-- At an index that holds the key. -/
  | found (index : Nat)
  /-- At the index the key would have to be put in at. -/
  | missing (index : Nat)
deriving DecidableEq, Repr

/-- Halves the range of the `size` keys from index `base` on until one key is left. -/
def halve (keys : List Nat) (key base size : Nat) : Nat :=
  if size ≤ 1 then base
  else
    let middle := base + size / 2
    if key < keys.getD middle 0 then halve keys key base (size - size / 2)
    else halve keys key middle (size - size / 2)
termination_by size

/-- Searches a key by halves. -/
def bisect (keys : List Nat) (key : Nat) : SearchEnd :=
  let last := halve keys key 0 keys.length
  match keys[last]? with
  | none => .missing last
  | some k =>
    if k = key then .found last
    else if k < key then .missing (last + 1)
    else .missing last

/-! ## §3. The keys up to a number -/

/-- How many keys stand in front of the first one above `key`. -/
def reach (keys : List Nat) (key : Nat) : Nat := (keys.takeWhile (· ≤ key)).length

variable {keys : List Nat} {key : Nat}

theorem reach_le_length (keys : List Nat) (key : Nat) : reach keys key ≤ keys.length :=
  (List.takeWhile_sublist _).length_le

theorem reach_cons_of_le {k : Nat} (h : k ≤ key) (keys : List Nat) :
    reach (k :: keys) key = reach keys key + 1 := by
  rw [reach, List.takeWhile_cons_of_pos (by rwa [decide_eq_true_eq]), List.length_cons]
  rfl

theorem reach_cons_of_lt {k : Nat} (h : key < k) (keys : List Nat) :
    reach (k :: keys) key = 0 := by
  rw [reach, List.takeWhile_cons_of_neg (by rw [decide_eq_true_eq]; omega)]
  rfl

/-- **The keys up to a number stand in front** of all others, if keys ascend. -/
theorem le_iff_lt_reach (hkeys : keys.Pairwise (· ≤ ·)) (key : Nat) {i k : Nat}
    (h : keys[i]? = some k) : k ≤ key ↔ i < reach keys key := by
  induction keys generalizing i with
  | nil => simp at h
  | cons first later ih =>
    obtain ⟨hfirst, hlater⟩ := List.pairwise_cons.mp hkeys
    by_cases hle : first ≤ key
    · rw [reach_cons_of_le hle]
      cases i with
      | zero =>
        obtain rfl : first = k := Option.some.inj h
        exact iff_of_true hle (Nat.succ_pos _)
      | succ i => rw [ih hlater h, Nat.succ_lt_succ_iff]
    · -- The first key is too large already, and so are those behind it.
      rw [reach_cons_of_lt (Nat.lt_of_not_le hle)]
      have hk : first ≤ k := by
        cases i with
        | zero => exact Nat.le_of_eq (Option.some.inj h)
        | succ i => exact hfirst k (List.mem_of_getElem? h)
      omega

/-- The reach of a number grows with it. -/
theorem reach_mono (hkeys : keys.Pairwise (· ≤ ·)) {a b : Nat} (h : a ≤ b) :
    reach keys a ≤ reach keys b := by
  by_contra hlt
  obtain ⟨k, hk⟩ : ∃ k, keys[reach keys b]? = some k := by
    refine ⟨_, List.getElem?_eq_getElem ?_⟩
    have := reach_le_length keys a
    omega
  have ha := (le_iff_lt_reach hkeys a hk).mpr (by omega)
  have hb := (le_iff_lt_reach hkeys b hk).not.mpr (by omega)
  omega

/-- A number that only the keys in front of an index do not exceed reaches up to it. -/
theorem reach_eq_of_between (hkeys : keys.Pairwise (· ≤ ·)) {i k : Nat} (h : keys[i]? = some k)
    (hle : k ≤ key) (hnext : ∀ next, keys[i + 1]? = some next → key < next) :
    reach keys key = i + 1 := by
  have hi := (le_iff_lt_reach hkeys key h).mp hle
  by_contra hne
  obtain ⟨next, hsome⟩ : ∃ next, keys[i + 1]? = some next := by
    refine ⟨_, List.getElem?_eq_getElem ?_⟩
    have := reach_le_length keys key
    omega
  have hle := (le_iff_lt_reach hkeys key hsome).mpr (by omega)
  exact absurd hle (Nat.not_le_of_lt (hnext next hsome))

/-- A key that is there once reaches up to its own index. -/
theorem reach_eq_of_getElem? (hkeys : keys.Pairwise (· < ·)) {i : Nat} (h : keys[i]? = some key) :
    reach keys key = i + 1 := by
  refine reach_eq_of_between (hkeys.imp Nat.le_of_lt) h (Nat.le_refl _) fun next hnext => ?_
  obtain ⟨hi, rfl⟩ := List.getElem?_eq_some_iff.mp h
  obtain ⟨hj, rfl⟩ := List.getElem?_eq_some_iff.mp hnext
  exact List.pairwise_iff_getElem.mp hkeys i (i + 1) hi hj (Nat.lt_succ_self i)

/-! ## §4. What the search finds -/

/-- **The loop**: while the last key up to the number looked for is in the range, halving the range
ends at that key; it ends at the first key if there is no such key. -/
theorem halve_eq (hkeys : keys.Pairwise (· ≤ ·)) {base size : Nat}
    (hbase : base ≤ reach keys key - 1) (hstop : reach keys key ≤ base + size)
    (hsize : base + size ≤ keys.length) : halve keys key base size = reach keys key - 1 := by
  induction size using Nat.strongRecOn generalizing base with
  | ind size ih =>
    unfold halve
    by_cases hone : size ≤ 1
    · rw [if_pos hone]
      omega
    · rw [if_neg hone]
      have hmiddle : base + size / 2 < keys.length := by omega
      have hat := le_iff_lt_reach hkeys key (List.getElem?_eq_getElem hmiddle)
      have hget : keys.getD (base + size / 2) 0 = keys[base + size / 2] := by
        rw [List.getD_eq_getElem?_getD, List.getElem?_eq_getElem hmiddle, Option.getD_some]
      show (if key < keys.getD (base + size / 2) 0 then _ else _) = _
      rw [hget]
      -- The key in the middle tells on which side of it the reach ends.
      by_cases hlow : key < keys[base + size / 2]
      · rw [if_pos hlow]
        apply ih (size - size / 2) (by omega) hbase <;> omega
      · rw [if_neg hlow]
        apply ih (size - size / 2) (by omega) <;> omega

/-- The search by halves ends at the last key up to the number looked for. -/
theorem halve_all (hkeys : keys.Pairwise (· ≤ ·)) (key : Nat) :
    halve keys key 0 keys.length = reach keys key - 1 :=
  halve_eq hkeys (Nat.zero_le _) (by have := reach_le_length keys key; omega) (by omega)

/-- **A key that is there is found**, if no key is there twice. -/
theorem bisect_eq_of_getElem? (hkeys : keys.Pairwise (· < ·)) {i : Nat}
    (h : keys[i]? = some key) : bisect keys key = .found i := by
  unfold bisect
  rw [halve_all (hkeys.imp Nat.le_of_lt), reach_eq_of_getElem? hkeys h, Nat.add_sub_cancel]
  simp only [h, if_true]

/-- **For a key that is not there, its place** is behind all smaller ones. -/
theorem bisect_eq_of_not_mem (hkeys : keys.Pairwise (· ≤ ·)) (h : key ∉ keys) :
    bisect keys key = .missing (reach keys key) := by
  have hlength := reach_le_length keys key
  unfold bisect
  rw [halve_all hkeys]
  cases hlast : keys[reach keys key - 1]? with
  | none =>
    have := List.getElem?_eq_none_iff.mp hlast
    simp only [hlast]
    rw [show reach keys key - 1 = reach keys key by omega]
  | some k =>
    have hne : k ≠ key := fun he => h (he ▸ List.mem_of_getElem? hlast)
    have hat := le_iff_lt_reach hkeys key hlast
    simp only [hlast, if_neg hne]
    by_cases hlow : k < key
    · rw [if_pos hlow, show reach keys key - 1 + 1 = reach keys key by omega]
    · rw [if_neg hlow, show reach keys key - 1 = reach keys key by omega]

/-- Keys in front of, at and behind the number looked for. -/
example : bisect [0, 6, 12] 8 = .missing 2 ∧ bisect [0, 6, 12] 6 = .found 1 := by
  simp [bisect, halve]

end SingleFile
