import Amnezia.Databinding.SortedKeyedList
import Amnezia.Lib.Comparators
import Amnezia.Lib.Runs

/-!
# ObservableSortedKeyedArrayList — the order of the keys

The operations that change the list, with what each returns or throws and the list it leaves.  The
removals are those of `ArrayList`, which the class inherits.  For a comparator that is a strict total
order the keys are strictly increasing after any sequence of operations, and the binary search is
then exact.
-/

namespace Amnezia.Databinding

open Comparators

variable {K E : Type}

/-! ## Operations -/

inductive ListException where
  | illegalArgument (message : String)
  | indexOutOfBounds (message : String)
  /-- Thrown by the caller's own collection or predicate. -/
  | callback
  deriving Repr, DecidableEq

def sameKey : ListException :=
  .illegalArgument "Element with same key already exists in list"

def wrongIndex : ListException := .indexOutOfBounds "Wrong index given for element"

def outOfBounds (index : Int) (size : Nat) : ListException :=
  .indexOutOfBounds ("Index: " ++ toString index ++ ", Size: " ++ toString size)

abbrev Call (E α : Type) := Except ListException α × List E

def indexOfKey (compare : K → K → Int) (keys : List K) (k : K) : Int :=
  let index := binarySearch compare keys k
  if 0 ≤ index then index else -1

section Operations

variable [DecidableEq E] (compare : K → K → Int) (key : E → K)

def addElement (list : List E) (element : E) : Call E Bool :=
  match add compare key list element with
  | none => (.error sameKey, list)
  | some (changed, list') => (.ok changed, list')

/-- `addAll(elements)`, with the `didChange` of the rounds before. -/
def addAll (list : List E) : Bool → List E → Call E Bool
  | didChange, [] => (.ok didChange, list)
  | didChange, e :: elements =>
    match addElement compare key list e with
    | (.error exception, list') => (.error exception, list')
    | (.ok changed, list') => addAll list' (if changed then true else didChange) elements

omit [DecidableEq E]

def addAt (list : List E) (index : Int) (element : E) : Call E Unit :=
  let insertionPoint := getInsertionPoint compare (list.map key) (key element)
  if ¬insertionPoint ≥ 0 then (.error sameKey, list)
  else if insertionPoint ≠ index then (.error wrongIndex, list)
  else (.ok (), list.insertIdx index.toNat element)

def addAllAt (list : List E) : Int → List E → Call E Bool
  | _, [] => (.ok true, list)
  | i, e :: elements =>
    match addAt compare key list i e with
    | (.error exception, list') => (.error exception, list')
    | (.ok (), list') => addAllAt list' (i + 1) elements

def elementAt (list : List E) (index : Int) : Option E :=
  if 0 ≤ index then list[index.toNat]? else none

def set (list : List E) (index : Int) (element : E) : Call E E :=
  match elementAt list index with
  | none => (.error (outOfBounds index list.length), list)
  | some replaced =>
    let order := compare (key element) (key replaced)
    let insertionPoint := getInsertionPoint compare (list.map key) (key element)
    -- a new key is allowed where it would be inserted next to the replaced element
    if order ≠ 0 ∧ (insertionPoint < index ∨ insertionPoint > index + 1) then
      (.error wrongIndex, list)
    else (.ok replaced, list.set index.toNat element)

end Operations

def removeAt (list : List E) (index : Int) : Call E E :=
  match elementAt list index with
  | none => (.error (outOfBounds index list.length), list)
  | some removed => (.ok removed, list.eraseIdx index.toNat)

/-- `remove(object)`, for an object that is known by the elements it equals. -/
def remove (list : List E) (equals : E → Bool) : Call E Bool :=
  match list.findIdx? equals with
  | none => (.ok false, list)
  | some index => (.ok true, list.eraseIdx index)

/-- `removeIf(filter)`: the filter is asked about every element before any is removed. -/
def removeIf (list : List E) (filter : E → Option Bool) : Call E Bool :=
  match list.mapM filter with
  | none => (.error .callback, list)
  | some answers => (.ok (answers.any id), list.filter fun e => filter e == some false)

/-- `batchRemove`, the loop of `removeAll` and `retainAll`: the elements for which `contains` answers
`complement` stay, and when it throws also those that were not asked about. -/
def batchRemove (contains : E → Option Bool) (complement : Bool) : List E → Call E Bool
  | [] => (.ok false, [])
  | e :: list =>
    match contains e with
    | none => (.error .callback, e :: list)
    | some answer =>
      let (outcome, rest) := batchRemove contains complement list
      if answer = complement then (outcome, e :: rest) else (outcome.map fun _ => true, rest)

/-- `subList(fromIndex, toIndex).clear()`, which is `removeRange`. -/
def removeRange (list : List E) (fromIndex toIndex : Int) : Call E Unit :=
  if fromIndex < 0 ∨ toIndex > list.length then (.error (outOfBounds fromIndex list.length), list)
  else if fromIndex > toIndex then
    (.error (.illegalArgument
      ("fromIndex(" ++ toString fromIndex ++ ") > toIndex(" ++ toString toIndex ++ ")")), list)
  else (.ok (), list.take fromIndex.toNat ++ list.drop toIndex.toNat)

inductive Operation (E : Type) where
  | add (element : E)
  | addAt (index : Int) (element : E)
  | addAll (elements : List E)
  | addAllAt (index : Int) (elements : List E)
  | set (index : Int) (element : E)
  | removeAt (index : Int)
  | remove (equals : E → Bool)
  | removeIf (filter : E → Option Bool)
  | removeAll (contains : E → Option Bool)
  | retainAll (contains : E → Option Bool)
  | removeRange (fromIndex toIndex : Int)
  | clear

inductive Returned (E : Type) where
  | unit
  | boolean (value : Bool)
  | element (value : E)

def Call.to {α : Type} (f : α → Returned E) (call : Call E α) : Call E (Returned E) :=
  (call.1.map f, call.2)

def perform [DecidableEq E] (compare : K → K → Int) (key : E → K) (list : List E) :
    Operation E → Call E (Returned E)
  | .add e => Call.to .boolean (addElement compare key list e)
  | .addAt i e => Call.to (fun _ => .unit) (addAt compare key list i e)
  | .addAll es => Call.to .boolean (addAll compare key list false es)
  | .addAllAt i es => Call.to .boolean (addAllAt compare key list i es)
  | .set i e => Call.to .element (set compare key list i e)
  | .removeAt i => Call.to .element (removeAt list i)
  | .remove equals => Call.to .boolean (remove list equals)
  | .removeIf filter => Call.to .boolean (removeIf list filter)
  | .removeAll contains => Call.to .boolean (batchRemove contains false list)
  | .retainAll contains => Call.to .boolean (batchRemove contains true list)
  | .removeRange i j => Call.to (fun _ => .unit) (removeRange list i j)
  | .clear => (.ok .unit, [])

def step [DecidableEq E] (compare : K → K → Int) (key : E → K) (list : List E)
    (op : Operation E) : List E :=
  (perform compare key list op).2

def Operation.isSingle : Operation E → Bool
  | .add _ | .addAt _ _ | .set _ _ => true
  | _ => false

/-- The call throws, or is an `add` that returns false. -/
def Refused : Except ListException (Returned E) → Prop
  | .error _ => True
  | .ok (.boolean value) => value = false
  | .ok _ => False

/-! ## Searching in increasing keys -/

def Increasing (compare : K → K → Int) (keys : List K) : Prop :=
  keys.Pairwise fun a b => compare a b < 0

variable {i p : Nat} {k : K}

section Search

variable {compare : K → K → Int} {keys : List K} {key : K}

theorem Increasing.lt_of_lt (h : Increasing compare keys) {j : Nat} {a b : K} (hij : i < j)
    (ha : keys[i]? = some a) (hb : keys[j]? = some b) : compare a b < 0 := by
  obtain ⟨hi, rfl⟩ := List.getElem?_eq_some_iff.mp ha
  obtain ⟨hj, rfl⟩ := List.getElem?_eq_some_iff.mp hb
  exact List.pairwise_iff_getElem.mp h i j hi hj hij

/-- `p` separates the keys before the key from those after it. -/
def Separates (compare : K → K → Int) (keys : List K) (key : K) (p : Nat) : Prop :=
  p ≤ keys.length ∧ (∀ i k, i < p → keys[i]? = some k → compare k key < 0) ∧
    ∀ i k, p ≤ i → keys[i]? = some k → compare key k < 0

/-- The keys before the window are smaller than the key, the keys behind it are larger. -/
structure Window (compare : K → K → Int) (keys : List K) (key : K) (low high : Int) : Prop where
  zero_le : 0 ≤ low
  lt_length : high < keys.length
  le_succ : low ≤ high + 1
  before : ∀ (i : Nat) k, i < low → keys[i]? = some k → compare k key < 0
  behind : ∀ (i : Nat) k, high < i → keys[i]? = some k → compare key k < 0

variable {high low : Int}

theorem Window.separates (h : Window compare keys key low high) (hempty : high < low) :
    Separates compare keys key low.toNat := by
  have hle := h.le_succ
  have hlen := h.lt_length
  refine ⟨by omega, ?_, ?_⟩
  · intro i k hi
    exact h.before i k (by omega)
  · intro i k hi
    exact h.behind i k (by omega)

variable (hcmp : Total compare)

include hcmp

theorem Separates.notMem (h : Separates compare keys key p) : key ∉ keys := by
  intro hmem
  have hself : ¬compare key key < 0 := by
    rw [(hcmp.eq_zero_iff key key).mpr rfl]
    decide
  obtain ⟨i, hi⟩ := List.mem_iff_getElem?.mp hmem
  rcases Nat.lt_or_ge i p with hlt | hge
  · exact hself (h.2.1 i key hlt hi)
  · exact hself (h.2.2 i key hge hi)

variable (hkeys : Increasing compare keys)

include hkeys

theorem Window.right {m : Nat} (h : Window compare keys key low high) (hm : m ≤ high)
    (hget : keys[m]? = some k) (hk : compare k key < 0) :
    Window compare keys key (m + 1) high where
  zero_le := by omega
  lt_length := h.lt_length
  le_succ := by omega
  before := by
    intro i k' hi hk'
    rcases Nat.lt_or_eq_of_le (show i ≤ m by omega) with him | rfl
    · exact hcmp.trans _ _ _ (hkeys.lt_of_lt him hk' hget) hk
    · rw [hget] at hk'
      cases hk'
      exact hk
  behind := h.behind

theorem Window.left {m : Nat} (h : Window compare keys key low high) (hlow : low ≤ m)
    (hm : m ≤ high) (hget : keys[m]? = some k) (hk : compare key k < 0) :
    Window compare keys key low (m - 1) where
  zero_le := h.zero_le
  lt_length := by
    have hlen := h.lt_length
    omega
  le_succ := by omega
  before := h.before
  behind := by
    intro i k' hi hk'
    rcases Nat.lt_or_eq_of_le (show m ≤ i by omega) with him | rfl
    · exact hcmp.trans _ _ _ hk (hkeys.lt_of_lt him hget hk')
    · rw [hget] at hk'
      cases hk'
      exact hk

-- Induction on the rounds left, which are more than the window is wide.
theorem searchLoop_increasing (n : Nat) (h : Window compare keys key low high)
    (hfuel : high - low < n) :
    (∃ i : Nat, searchLoop compare keys key n low high = i ∧ keys[i]? = some key) ∨
      ∃ p : Nat, searchLoop compare keys key n low high = -(p + 1) ∧
        Separates compare keys key p := by
  have hpos := h.zero_le
  induction n generalizing low high with
  | zero => exact .inr ⟨low.toNat, by simp only [searchLoop]; omega, h.separates (by omega)⟩
  | succ n ih =>
    simp only [searchLoop]
    split
    · rename_i hle
      have hmid : low ≤ (low + high) / 2 ∧ (low + high) / 2 ≤ high := by omega
      generalize (low + high) / 2 = mid at hmid
      obtain ⟨m, rfl⟩ : ∃ m : Nat, mid = m := ⟨mid.toNat, by omega⟩
      have hlen := h.lt_length
      have hlt : m < keys.length := by omega
      have hget : keys[m]? = some keys[m] := List.getElem?_eq_getElem hlt
      rw [Int.toNat_natCast, hget]
      dsimp only
      split
      · -- the key is to the right of the middle
        rename_i hright
        exact ih (h.right hcmp hkeys hmid.2 hget hright) (by omega) (by omega)
      · split
        · -- the key is to the left of the middle
          rename_i hleft
          have hbefore := (hcmp.swap key keys[m]).mpr hleft
          exact ih (h.left hcmp hkeys hmid.1 hmid.2 hget hbefore) (by omega) hpos
        · rename_i hnlt hngt
          have heq := (hcmp.eq_zero_iff keys[m] key).mp (by omega)
          exact .inl ⟨m, rfl, by rw [hget, heq]⟩
    · exact .inr ⟨low.toNat, by omega, h.separates (by omega)⟩

theorem binarySearch_increasing (key : K) :
    (∃ i : Nat, binarySearch compare keys key = i ∧ keys[i]? = some key) ∨
      ∃ p : Nat, getInsertionPoint compare keys key = p ∧ Separates compare keys key p := by
  have hwindow : Window compare keys key 0 (keys.length - 1) := by
    refine ⟨by omega, by omega, by omega, ?_, ?_⟩
    · intro i k hi
      omega
    · intro i k hi hk
      rw [List.getElem?_eq_none (by omega)] at hk
      cases hk
  rcases searchLoop_increasing hcmp hkeys keys.length hwindow (by omega) with h | ⟨p, hp, hsep⟩
  · exact .inl h
  · refine .inr ⟨p, ?_, hsep⟩
    unfold getInsertionPoint binarySearch
    omega

theorem index_unique {j : Nat} (hi : keys[i]? = some key) (hj : keys[j]? = some key) : i = j := by
  have hself : ¬compare key key < 0 := by
    rw [(hcmp.eq_zero_iff key key).mpr rfl]
    decide
  rcases Nat.lt_trichotomy i j with hlt | heq | hgt
  · exact absurd (hkeys.lt_of_lt hlt hi hj) hself
  · exact heq
  · exact absurd (hkeys.lt_of_lt hgt hj hi) hself

theorem indexOfKey_of_getElem? (hi : keys[i]? = some key) : indexOfKey compare keys key = i := by
  rcases binarySearch_increasing hcmp hkeys key with ⟨j, hj, hget⟩ | ⟨p, -, hsep⟩
  · have hij := index_unique hcmp hkeys hi hget
    simp only [indexOfKey, hj, hij]
    omega
  · exact absurd (List.mem_of_getElem? hi) (hsep.notMem hcmp)

theorem indexOfKey_of_notMem (h : key ∉ keys) : indexOfKey compare keys key = -1 := by
  rcases binarySearch_increasing hcmp hkeys key with ⟨j, -, hget⟩ | ⟨p, hp, -⟩
  · exact absurd (List.mem_of_getElem? hget) h
  · unfold getInsertionPoint at hp
    simp only [indexOfKey]
    rw [if_neg (by omega)]

end Search

/-! ## What one call for one element can do -/

variable {list : List E}

section Cases

variable (compare : K → K → Int) (key : E → K) (list : List E)

theorem elementAt_eq_some {list : List E} {i : Int} {e : E} (h : elementAt list i = some e) :
    ∃ n : Nat, i = n ∧ list[n]? = some e := by
  unfold elementAt at h
  split at h
  · exact ⟨i.toNat, by omega, h⟩
  · cases h

theorem addElement_cases [DecidableEq E] (e : E) :
    addElement compare key list e = (.error sameKey, list) ∨
      addElement compare key list e = (.ok false, list) ∨
      (0 ≤ getInsertionPoint compare (list.map key) (key e) ∧
        addElement compare key list e = (.ok true, list.insertIdx
          (getInsertionPoint compare (list.map key) (key e)).toNat e)) := by
  simp only [addElement, add]
  by_cases hpoint : getInsertionPoint compare (list.map key) (key e) < 0
  · rw [if_pos hpoint]
    by_cases hsame :
        list[(-getInsertionPoint compare (list.map key) (key e) - 1).toNat]? = some e
    · rw [if_pos hsame]
      exact .inr (.inl rfl)
    · rw [if_neg hsame]
      exact .inl rfl
  · rw [if_neg hpoint]
    exact .inr (.inr ⟨by omega, rfl⟩)

theorem addAt_cases (i : Int) (e : E) :
    (∃ exception, addAt compare key list i e = (.error exception, list)) ∨
      (0 ≤ getInsertionPoint compare (list.map key) (key e) ∧
        addAt compare key list i e = (.ok (), list.insertIdx
          (getInsertionPoint compare (list.map key) (key e)).toNat e)) := by
  simp only [addAt]
  split
  · exact .inl ⟨_, rfl⟩
  · rename_i hpoint
    split
    · exact .inl ⟨_, rfl⟩
    · rename_i hindex
      rw [not_not.mp hindex]
      exact .inr ⟨by omega, rfl⟩

theorem set_cases (i : Int) (e : E) :
    (∃ exception, set compare key list i e = (.error exception, list)) ∨
      ∃ (n : Nat) (replaced : E), list[n]? = some replaced ∧
        (compare (key e) (key replaced) = 0 ∨
          (n ≤ getInsertionPoint compare (list.map key) (key e) ∧
            getInsertionPoint compare (list.map key) (key e) ≤ n + 1)) ∧
        set compare key list i e = (.ok replaced, list.set n e) := by
  simp only [set]
  split
  · exact .inl ⟨_, rfl⟩
  · rename_i replaced hget
    obtain ⟨n, rfl, hn⟩ := elementAt_eq_some hget
    split
    · exact .inl ⟨_, rfl⟩
    · exact .inr ⟨n, replaced, hn, by omega, rfl⟩

end Cases

/-! ## Each operation keeps the order -/

section Order

variable {compare : K → K → Int} (hcmp : Total compare) {key : E → K} {keys : List K}

theorem Increasing.sublist {keys' : List K} (h : Increasing compare keys)
    (hsub : keys'.Sublist keys) : Increasing compare keys' :=
  List.Pairwise.sublist hsub h

theorem Increasing.of_sublist {list' : List E} (h : Increasing compare (list.map key))
    (hsub : list'.Sublist list) : Increasing compare (list'.map key) :=
  h.sublist (hsub.map key)

theorem Increasing.insert {before after : List K} (h : Increasing compare (before ++ after))
    (hbefore : ∀ a ∈ before, compare a k < 0) (hafter : ∀ b ∈ after, compare k b < 0) :
    Increasing compare (before ++ k :: after) := by
  obtain ⟨hb, ha, hba⟩ := List.pairwise_append.mp h
  apply List.pairwise_append.mpr
  refine ⟨hb, List.pairwise_cons.mpr ⟨hafter, ha⟩, ?_⟩
  intro a hmem b hb'
  rcases List.mem_cons.mp hb' with rfl | hb'
  · exact hbefore a hmem
  · exact hba a hmem b hb'

theorem Separates.before (h : Separates compare keys k p) (hi : i ≤ p) :
    ∀ a ∈ keys.take i, compare a k < 0 := by
  intro a ha
  obtain ⟨j, hj, rfl⟩ := List.mem_take_iff_getElem.mp ha
  exact h.2.1 j _ (by omega) (List.getElem?_eq_getElem _)

theorem Separates.after (h : Separates compare keys k p) (hi : p ≤ i) :
    ∀ b ∈ keys.drop i, compare k b < 0 := by
  intro b hb
  obtain ⟨j, hj, rfl⟩ := List.mem_drop_iff_getElem.mp hb
  exact h.2.2 (i + j) _ (by omega) (List.getElem?_eq_getElem _)

theorem Increasing.insertIdx (h : Increasing compare keys) (hsep : Separates compare keys k p) :
    Increasing compare (keys.insertIdx p k) := by
  have hbefore := hsep.before (Nat.le_refl p)
  have hafter := hsep.after (Nat.le_refl p)
  obtain ⟨before, after, rfl, hlen, hinsert⟩ := List.exists_of_modifyTailIdx (List.cons k) hsep.1
  rw [List.take_left' hlen] at hbefore
  rw [List.drop_left' hlen] at hafter
  rw [List.insertIdx, hinsert]
  exact h.insert hbefore hafter

theorem Increasing.set (h : Increasing compare keys) (hsep : Separates compare keys k p)
    (hi : i < keys.length) (hle : i ≤ p) (hge : p ≤ i + 1) : Increasing compare (keys.set i k) := by
  have hrest : Increasing compare (keys.take i ++ keys.drop (i + 1)) := by
    rw [← List.eraseIdx_eq_take_drop_succ]
    exact h.sublist (List.eraseIdx_sublist keys i)
  rw [List.set_eq_take_append_cons_drop, if_pos hi]
  exact hrest.insert (hsep.before hle) (hsep.after hge)

include hcmp

/-- The insertion point is negative for a key that is there, and separates the keys otherwise. -/
theorem insertionPoint_cases (hkeys : Increasing compare keys) (k : K) :
    (getInsertionPoint compare keys k < 0 ∧ k ∈ keys) ∨
      ∃ p : Nat, getInsertionPoint compare keys k = p ∧ Separates compare keys k p := by
  rcases binarySearch_increasing hcmp hkeys k with ⟨i, hi, hget⟩ | h
  · refine .inl ⟨?_, List.mem_of_getElem? hget⟩
    unfold getInsertionPoint
    omega
  · exact .inr h

variable (h : Increasing compare (list.map key))

include h

theorem increasing_insertionPoint {e : E}
    (hpoint : 0 ≤ getInsertionPoint compare (list.map key) (key e)) :
    Increasing compare ((list.insertIdx
      (getInsertionPoint compare (list.map key) (key e)).toNat e).map key) := by
  rcases insertionPoint_cases hcmp h (key e) with ⟨hneg, -⟩ | ⟨p, hp, hsep⟩
  · omega
  · rw [hp, Int.toNat_natCast, List.map_insertIdx]
    exact h.insertIdx hsep

theorem increasing_addElement [DecidableEq E] (e : E) :
    Increasing compare ((addElement compare key list e).2.map key) := by
  rcases addElement_cases compare key list e with heq | heq | ⟨hpoint, heq⟩
  · rw [heq]
    exact h
  · rw [heq]
    exact h
  · rw [heq]
    exact increasing_insertionPoint hcmp h hpoint

theorem increasing_addAt (i : Int) (e : E) :
    Increasing compare ((addAt compare key list i e).2.map key) := by
  rcases addAt_cases compare key list i e with ⟨exception, heq⟩ | ⟨hpoint, heq⟩
  · rw [heq]
    exact h
  · rw [heq]
    exact increasing_insertionPoint hcmp h hpoint

theorem increasing_addAll [DecidableEq E] (didChange : Bool) (es : List E) :
    Increasing compare ((addAll compare key list didChange es).2.map key) := by
  induction es generalizing list didChange with
  | nil => exact h
  | cons e es ih =>
    have hadd := increasing_addElement hcmp h e
    simp only [addAll]
    split
    · rename_i heq
      rw [heq] at hadd
      exact hadd
    · rename_i heq
      rw [heq] at hadd
      exact ih hadd _

theorem increasing_addAllAt (i : Int) (es : List E) :
    Increasing compare ((addAllAt compare key list i es).2.map key) := by
  induction es generalizing list i with
  | nil => exact h
  | cons e es ih =>
    have hadd := increasing_addAt hcmp h i e
    simp only [addAllAt]
    split
    · rename_i heq
      rw [heq] at hadd
      exact hadd
    · rename_i heq
      rw [heq] at hadd
      exact ih hadd _

theorem increasing_set (i : Int) (e : E) :
    Increasing compare ((set compare key list i e).2.map key) := by
  rcases set_cases compare key list i e with ⟨exception, heq⟩ | ⟨n, replaced, hn, hallowed, heq⟩
  · rw [heq]
    exact h
  · have hkey : (list.map key)[n]? = some (key replaced) := by
      rw [List.getElem?_map, hn]
      rfl
    obtain ⟨hlt, hat⟩ := List.getElem?_eq_some_iff.mp hkey
    rw [heq, List.map_set]
    rcases hallowed with horder | ⟨hle, hge⟩
    · -- the same key: the list of keys does not change
      rw [(hcmp.eq_zero_iff _ _).mp horder, ← hat, List.set_getElem_self]
      exact h
    · rcases insertionPoint_cases hcmp h (key e) with ⟨hneg, -⟩ | ⟨p, hp, hsep⟩
      · omega
      · exact h.set hsep hlt (by omega) (by omega)

end Order

/-! ## Removals -/

theorem removeAt_sublist (list : List E) (i : Int) : (removeAt list i).2.Sublist list := by
  unfold removeAt
  split
  · exact List.Sublist.refl list
  · exact List.eraseIdx_sublist list _

theorem remove_sublist (list : List E) (equals : E → Bool) :
    (remove list equals).2.Sublist list := by
  unfold remove
  split
  · exact List.Sublist.refl list
  · exact List.eraseIdx_sublist list _

theorem removeIf_sublist (list : List E) (filter : E → Option Bool) :
    (removeIf list filter).2.Sublist list := by
  unfold removeIf
  split
  · exact List.Sublist.refl list
  · exact List.filter_sublist

theorem batchRemove_sublist (contains : E → Option Bool) (complement : Bool) (list : List E) :
    (batchRemove contains complement list).2.Sublist list := by
  induction list with
  | nil => exact List.Sublist.refl []
  | cons e list ih =>
    simp only [batchRemove]
    split
    · exact List.Sublist.refl _
    · split
      · exact ih.cons_cons e
      · exact ih.cons e

theorem removeRange_sublist (list : List E) (i j : Int) :
    (removeRange list i j).2.Sublist list := by
  unfold removeRange
  split
  · exact List.Sublist.refl list
  · split
    · exact List.Sublist.refl list
    · have hdrop : (list.drop j.toNat).Sublist (list.drop i.toNat) :=
        List.drop_sublist_drop_left list (by omega)
      have happend := hdrop.append_left (list.take i.toNat)
      rw [List.take_append_drop] at happend
      exact happend

/-! ## Runs -/

section Runs

variable [DecidableEq E] {compare : K → K → Int} {key : E → K}

/-- Every operation keeps the keys increasing, also when it throws. -/
theorem increasing_step (hcmp : Total compare) (op : Operation E)
    (h : Increasing compare (list.map key)) :
    Increasing compare ((step compare key list op).map key) := by
  cases op with
  | add e => exact increasing_addElement hcmp h e
  | addAt i e => exact increasing_addAt hcmp h i e
  | addAll es => exact increasing_addAll hcmp h false es
  | addAllAt i es => exact increasing_addAllAt hcmp h i es
  | set i e => exact increasing_set hcmp h i e
  | removeAt i => exact h.of_sublist (removeAt_sublist list i)
  | remove equals => exact h.of_sublist (remove_sublist list equals)
  | removeIf filter => exact h.of_sublist (removeIf_sublist list filter)
  | removeAll contains => exact h.of_sublist (batchRemove_sublist contains false list)
  | retainAll contains => exact h.of_sublist (batchRemove_sublist contains true list)
  | removeRange i j => exact h.of_sublist (removeRange_sublist list i j)
  | clear => exact List.Pairwise.nil

theorem step_of_refused {op : Operation E} (hop : op.isSingle = true)
    (h : Refused (perform compare key list op).1) : step compare key list op = list := by
  cases op with
  | add e =>
    simp only [step, perform, Call.to] at h ⊢
    rcases addElement_cases compare key list e with heq | heq | ⟨-, heq⟩
    · rw [heq]
    · rw [heq]
    · rw [heq] at h
      cases h
  | addAt i e =>
    simp only [step, perform, Call.to] at h ⊢
    rcases addAt_cases compare key list i e with ⟨exception, heq⟩ | ⟨-, heq⟩
    · rw [heq]
    · rw [heq] at h
      cases h
  | set i e =>
    simp only [step, perform, Call.to] at h ⊢
    rcases set_cases compare key list i e with ⟨exception, heq⟩ | ⟨n, replaced, -, -, heq⟩
    · rw [heq]
    · rw [heq] at h
      cases h
  | _ => cases hop

/-- The search finds the position of every key that is there, and no other. -/
def Exact (compare : K → K → Int) (key : E → K) (list : List E) : Prop :=
  ∀ k, (∀ (i : Nat) e, list[i]? = some e → key e = k →
      indexOfKey compare (list.map key) k = i) ∧
    (k ∉ list.map key → indexOfKey compare (list.map key) k = -1)

omit [DecidableEq E] in
theorem Increasing.exact (hcmp : Total compare) (h : Increasing compare (list.map key)) :
    Exact compare key list := by
  intro k
  constructor
  · intro i e hi hk
    apply indexOfKey_of_getElem? hcmp h
    rw [List.getElem?_map, hi, Option.map_some, hk]
  · exact indexOfKey_of_notMem hcmp h

/-- From the empty list on: after every call the keys are strictly increasing and `indexOfKey` is
exact, and a call for one element that is refused leaves the list as it was. -/
theorem states_increasing (hcmp : Total compare) (key : E → K)
    (ops : List (Operation E)) :
    (∀ list ∈ Runs.states (step compare key) [] ops,
      Increasing compare (list.map key) ∧ Exact compare key list) ∧
    Runs.Guarded (step compare key)
      (fun list op => op.isSingle = true → Refused (perform compare key list op).1 →
        step compare key list op = list) [] ops := by
  constructor
  · intro list hlist
    have hstep : ∀ (list : List E) op, Increasing compare (list.map key) →
        Increasing compare ((step compare key list op).map key) :=
      fun _ op h => increasing_step hcmp op h
    have hnil : Increasing compare (([] : List E).map key) := List.Pairwise.nil
    have h := Runs.invariant_states_of_step hstep hnil ops list hlist
    exact ⟨h, h.exact hcmp⟩
  · exact Runs.guarded_true (fun _ _ hop h => step_of_refused hop h) [] ops

def sampleOperations : List (Operation (Nat × Nat)) :=
  [.add (4, 0), .add (2, 0), .add (4, 1), .set 0 (3, 0), .set 0 (5, 0), .addAt 2 (9, 0),
    .removeAt 1]

theorem states_increasing_sample :
    (Runs.run (step ofLT Prod.fst) [] sampleOperations = [(3, 0), (9, 0)]) ∧
    (∀ list ∈ Runs.states (step ofLT Prod.fst) [] sampleOperations,
      Increasing ofLT (list.map Prod.fst) ∧ Exact ofLT Prod.fst list) ∧
    Runs.Guarded (step ofLT Prod.fst)
      (fun list op => op.isSingle = true → Refused (perform ofLT Prod.fst list op).1 →
        step ofLT Prod.fst list op = list) [] sampleOperations :=
  ⟨by decide, states_increasing total_ofLT Prod.fst sampleOperations⟩

end Runs

end Amnezia.Databinding
