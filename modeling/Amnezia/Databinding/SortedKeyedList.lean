import Mathlib.Data.List.Basic
import Mathlib.Data.List.InsertIdx
import Mathlib.Tactic.Common

/-!
# ObservableSortedKeyedArrayList

A list of keyed elements kept in the order of a comparator, with `Collections.binarySearch` as the
only way to find a key.  Nothing is assumed of the comparator unless a theorem says so: a search in
a list that is out of order may miss a key, but it never reports one that is not there.
-/

namespace Amnezia.Databinding

variable {K E : Type*}

/-- The loop of `Collections.binarySearch` over the window from `low` to `high`, with at most `n`
rounds left. -/
def searchLoop (compare : K → K → Int) (keys : List K) (key : K) : Nat → Int → Int → Int
  | 0, low, _ => -(low + 1)
  | n + 1, low, high =>
    if low ≤ high then
      let mid := (low + high) / 2
      match keys[mid.toNat]? with
      | none => -(low + 1)
      | some midVal =>
        if compare midVal key < 0 then searchLoop compare keys key n (mid + 1) high
        else if compare midVal key > 0 then searchLoop compare keys key n low (mid - 1)
        else mid
    else -(low + 1)

def binarySearch (compare : K → K → Int) (keys : List K) (key : K) : Int :=
  searchLoop compare keys key keys.length 0 (keys.length - 1)

def getInsertionPoint (compare : K → K → Int) (keys : List K) (key : K) : Int :=
  -binarySearch compare keys key - 1

def containsKey (compare : K → K → Int) (keys : List K) (key : K) : Bool :=
  decide (0 ≤ binarySearch compare keys key)

def get (compare : K → K → Int) (key : E → K) (list : List E) (k : K) : Option E :=
  let index := binarySearch compare (list.map key) k
  if 0 ≤ index then list[index.toNat]? else none

/-- `add`: whether the list changed and what it is then, or nothing when it throws. -/
def add [DecidableEq E] (compare : K → K → Int) (key : E → K) (list : List E) (element : E) :
    Option (Bool × List E) :=
  let insertionPoint := getInsertionPoint compare (list.map key) (key element)
  if insertionPoint < 0 then
    if list[(-insertionPoint - 1).toNat]? = some element then some (false, list) else none
  else some (true, list.insertIdx insertionPoint.toNat element)

/-- A window inside the list leads to an index that compares as equal, or to an insertion point. -/
theorem searchLoop_spec (compare : K → K → Int) (keys : List K) (key : K) (n : Nat)
    (low high : Int) (hlow : 0 ≤ low) (hhigh : high < keys.length) (hwin : low ≤ high + 1) :
    (0 ≤ searchLoop compare keys key n low high ∧
        ∃ k, keys[(searchLoop compare keys key n low high).toNat]? = some k ∧
          compare k key = 0) ∨
      (searchLoop compare keys key n low high < 0 ∧
        -searchLoop compare keys key n low high - 1 ≤ keys.length) := by
  induction n generalizing low high with
  | zero =>
    simp only [searchLoop]
    omega
  | succ n ih =>
    simp only [searchLoop]
    split
    · rename_i hle
      have hmid : low ≤ (low + high) / 2 ∧ (low + high) / 2 ≤ high := by omega
      split
      · omega
      · rename_i midVal hget
        split
        · -- the key is to the right of the middle
          exact ih ((low + high) / 2 + 1) high (by omega) hhigh (by omega)
        · split
          · -- the key is to the left of the middle
            exact ih low ((low + high) / 2 - 1) hlow (by omega) (by omega)
          · exact .inl ⟨by omega, midVal, hget, by omega⟩
    · omega

theorem binarySearch_spec (compare : K → K → Int) (keys : List K) (key : K) :
    (0 ≤ binarySearch compare keys key ∧
        ∃ k, keys[(binarySearch compare keys key).toNat]? = some k ∧ compare k key = 0) ∨
      (binarySearch compare keys key < 0 ∧
        -binarySearch compare keys key - 1 ≤ keys.length) :=
  searchLoop_spec compare keys key keys.length 0 (keys.length - 1) (by omega) (by omega) (by omega)

variable {list : List E} {key : E → K} {element : E}

theorem mem_add [DecidableEq E] {compare : K → K → Int} {list' : List E} {changed : Bool}
    (h : add compare key list element = some (changed, list')) (e : E) :
    e ∈ list' ↔ e = element ∨ e ∈ list := by
  simp only [add] at h
  split at h
  · -- the key was found: the list stays, and the element is the one at that index
    split at h
    · rename_i hget
      cases h
      have hmem : element ∈ list := List.mem_of_getElem? hget
      constructor
      · exact .inr
      · intro he
        cases he with
        | inl heq => exact heq ▸ hmem
        | inr he => exact he
    · cases h
  · rename_i hpoint
    cases h
    apply List.mem_insertIdx
    have hspec := binarySearch_spec compare (list.map key) (key element)
    rw [List.length_map] at hspec
    unfold getInsertionPoint at hpoint ⊢
    omega

variable {compare : K → K → Int} (hzero : ∀ a b, compare a b = 0 → a = b)

include hzero

theorem mem_of_containsKey {keys : List K} {key : K} (h : containsKey compare keys key = true) :
    key ∈ keys := by
  have hpos : 0 ≤ binarySearch compare keys key := of_decide_eq_true h
  cases binarySearch_spec compare keys key with
  | inl hfound =>
    obtain ⟨-, k, hget, heq⟩ := hfound
    rw [← hzero k key heq]
    exact List.mem_of_getElem? hget
  | inr hmissed => omega

theorem get_of_containsKey {k : K} (h : containsKey compare (list.map key) k = true) :
    ∃ e, get compare key list k = some e ∧ e ∈ list ∧ key e = k := by
  have hpos : 0 ≤ binarySearch compare (list.map key) k := of_decide_eq_true h
  cases binarySearch_spec compare (list.map key) k with
  | inl hfound =>
    obtain ⟨-, k', hget, heq⟩ := hfound
    rw [List.getElem?_map, Option.map_eq_some_iff] at hget
    obtain ⟨e, he, hkey⟩ := hget
    refine ⟨e, ?_, List.mem_of_getElem? he, hkey.trans (hzero k' k heq)⟩
    simp only [get, if_pos hpos]
    exact he
  | inr hmissed => omega

theorem add_map_of_notMem [DecidableEq E] [DecidableEq K] (key : E → K) (list : List E)
    (element : E) (h : key element ∉ list.map key) :
    ∃ list', add compare key list element = some (true, list') ∧
      add compare id (list.map key) (key element) = some (true, list'.map key) := by
  have hpoint : ¬getInsertionPoint compare (list.map key) (key element) < 0 := by
    unfold getInsertionPoint
    intro hneg
    exact h (mem_of_containsKey hzero (decide_eq_true (by omega)))
  refine ⟨list.insertIdx (getInsertionPoint compare (list.map key) (key element)).toNat element,
    by simp only [add, if_neg hpoint], ?_⟩
  simp only [add, List.map_id, id, if_neg hpoint, List.map_insertIdx]

theorem add_of_notMem [DecidableEq E] (h : key element ∉ list.map key) :
    ∃ list', add compare key list element = some (true, list') ∧
      list'.Perm (element :: list) := by
  cases binarySearch_spec compare (list.map key) (key element) with
  | inl hfound =>
    obtain ⟨-, k, hget, heq⟩ := hfound
    rw [hzero k _ heq] at hget
    exact absurd (List.mem_of_getElem? hget) h
  | inr hmissed =>
    obtain ⟨hneg, hle⟩ := hmissed
    rw [List.length_map] at hle
    have hpoint : ¬getInsertionPoint compare (list.map key) (key element) < 0 := by
      unfold getInsertionPoint
      omega
    refine ⟨list.insertIdx (getInsertionPoint compare (list.map key) (key element)).toNat element,
      by simp only [add, if_neg hpoint], ?_⟩
    apply List.perm_insertIdx
    unfold getInsertionPoint
    omega

theorem add_of_unique [DecidableEq E] (h : ∀ e ∈ list, key e = key element → e = element) :
    ∃ added, add compare key list element = some added := by
  by_cases hpoint : getInsertionPoint compare (list.map key) (key element) < 0
  · have hfound : 0 ≤ binarySearch compare (list.map key) (key element) := by
      unfold getInsertionPoint at hpoint
      omega
    have hindex : (-getInsertionPoint compare (list.map key) (key element) - 1).toNat =
        (binarySearch compare (list.map key) (key element)).toNat := by
      unfold getInsertionPoint
      congr 1
      omega
    rcases binarySearch_spec compare (list.map key) (key element) with ⟨-, k, hget, heq⟩ | ⟨hneg, -⟩
    · rw [List.getElem?_map, Option.map_eq_some_iff] at hget
      obtain ⟨e, he, hkey⟩ := hget
      have hsame := h e (List.mem_of_getElem? he) (hkey.trans (hzero k _ heq))
      simp only [add, if_pos hpoint, hindex, he, hsame]
      exact ⟨_, rfl⟩
    · omega
  · simp only [add, if_neg hpoint]
    exact ⟨_, rfl⟩

end Amnezia.Databinding
