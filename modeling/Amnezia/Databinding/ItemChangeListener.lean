import Amnezia.Lib.Runs

/-!
# The children of a bound container

`ItemChangeListener` binds an `ObservableList` to the children of a view group.  A child is known
here by the item it shows.  The list tells each of its modifications before the next one is made;
a call that Android refuses throws.
-/

namespace Amnezia.Databinding

namespace ItemChangeListener

variable {T : Type*}

def removeViewAt (container : List T) (index : Nat) : Option (List T) :=
  if index < container.length then some (container.eraseIdx index) else none

def removeViews (container : List T) (start count : Nat) : Option (List T) :=
  if start + count ≤ container.length then
    some (container.take start ++ container.drop (start + count))
  else none

def addView (container : List T) (view : T) : List T := container ++ [view]

/-- The view of the item at a position; another child's view may be used again. -/
def getView (list : List T) (position : Nat) : Option T := list[position]?

def onChanged (sender : List T) : Option (List T) :=
  (List.range sender.length).foldlM
    (fun container i => return addView container (← getView sender i)) []

def onItemRangeChanged (sender container : List T) (positionStart itemCount : Nat) :
    Option (List T) :=
  (List.range' positionStart itemCount).foldlM (fun container i => do
    let container ← removeViewAt container i
    return addView container (← getView sender i)) container

def onItemRangeInserted (sender container : List T) (positionStart itemCount : Nat) :
    Option (List T) :=
  (List.range' positionStart itemCount).foldlM
    (fun container i => return addView container (← getView sender i)) container

def onItemRangeRemoved (container : List T) (positionStart itemCount : Nat) : Option (List T) :=
  removeViews container positionStart itemCount

end ItemChangeListener

open ItemChangeListener

inductive Change (T : Type*) where
  /-- `add` and `addAll`. -/
  | insert (index : Nat) (items : List T)
  | set (index : Nat) (item : T)
  /-- `remove`, `removeRange` and `clear`. -/
  | remove (index count : Nat)

/-- A list and the container it is bound to; there is none after a callback that threw. -/
structure BoundList (T : Type*) where
  list : List T
  container : Option (List T)

namespace BoundList

variable {T : Type*}

def setList (newList : List T) : BoundList T := ⟨newList, onChanged newList⟩

/-- A modification and its callback.  A position that is not in the list throws before anything is
changed. -/
def step (b : BoundList T) : Change T → BoundList T
  | .insert index items =>
    if index ≤ b.list.length then
      let list := b.list.take index ++ items ++ b.list.drop index
      ⟨list, b.container.bind (onItemRangeInserted list · index items.length)⟩
    else b
  | .set index item =>
    if index < b.list.length then
      let list := b.list.set index item
      ⟨list, b.container.bind (onItemRangeChanged list · index 1)⟩
    else b
  | .remove index count =>
    if index + count ≤ b.list.length then
      let list := b.list.take index ++ b.list.drop (index + count)
      ⟨list, b.container.bind (onItemRangeRemoved · index count)⟩
    else b

def Mirrored (b : BoundList T) : Prop :=
  ∃ children, b.container = some children ∧ children.length = b.list.length ∧
    ∀ k : Nat, children[k]? = b.list[k]?

/-- What is put in would be the same list behind the items that follow it. -/
def Safe (b : BoundList T) : Change T → Prop
  | .insert index items => items ++ b.list.drop index = b.list.drop index ++ items
  | .set index item => item :: b.list.drop (index + 1) = b.list.drop (index + 1) ++ [item]
  | .remove _ _ => True

theorem mirrored_iff {b : BoundList T} : b.Mirrored ↔ b.container = some b.list := by
  constructor
  · rintro ⟨children, hcontainer, -, hitems⟩
    rw [hcontainer, List.ext_getElem? hitems]
  · intro h
    exact ⟨b.list, h, rfl, fun _ => rfl⟩

theorem foldlM_addView (list : List T) (start count : Nat) (h : start + count ≤ list.length)
    (container : List T) :
    (List.range' start count).foldlM
      (fun container i => return addView container (← getView list i)) container =
        some (container ++ (list.drop start).take count) := by
  induction count generalizing start container with
  | zero => simp
  | succ count ih =>
    have hlt : start < list.length := by omega
    have hview : getView list start = some list[start] := List.getElem?_eq_getElem hlt
    rw [List.range'_succ, List.foldlM_cons, hview]
    show (List.range' (start + 1) count).foldlM _ (addView container list[start]) = _
    rw [ih (start + 1) (by omega), addView, List.append_assoc, List.drop_eq_getElem_cons hlt]
    rfl

theorem mirrored_setList (newList : List T) : (setList newList).Mirrored := by
  have hloop := foldlM_addView newList 0 newList.length (by omega) []
  rw [← List.range_eq_range', List.drop_zero, List.take_length, List.nil_append] at hloop
  exact mirrored_iff.2 hloop

theorem inserted_eq {l items : List T} {index : Nat} (h : index ≤ l.length) :
    onItemRangeInserted (l.take index ++ items ++ l.drop index) l index items.length =
      some (l ++ items) := by
  have hlength : (l.take index).length = index := List.length_take_of_le h
  have hitems : ((l.take index ++ items ++ l.drop index).drop index).take items.length = items := by
    rw [List.append_assoc, List.drop_left' hlength, List.take_left]
  unfold onItemRangeInserted
  rw [foldlM_addView _ _ _ (by simp; omega), hitems]

theorem changed_eq {l : List T} {index : Nat} {item : T} (h : index < l.length) :
    onItemRangeChanged (l.set index item) l index 1 = some (l.eraseIdx index ++ [item]) := by
  have hview : getView (l.set index item) index = some item := List.getElem?_set_self h
  have hremove : removeViewAt l index = some (l.eraseIdx index) := if_pos h
  unfold onItemRangeChanged
  rw [List.range'_one, List.foldlM_cons, hremove, hview]
  rfl

/-- One modification keeps the children right exactly when it is safe. -/
theorem mirrored_step_iff {b : BoundList T} (h : b.Mirrored) (c : Change T) :
    (b.step c).Mirrored ↔ b.Safe c := by
  have hcontainer := mirrored_iff.1 h
  cases c with
  | insert index items =>
    simp only [step, Safe]
    split
    · next hle =>
      rw [mirrored_iff]
      simp only [hcontainer, Option.bind_some, inserted_eq hle, Option.some.injEq]
      nth_rewrite 1 [← List.take_append_drop index b.list]
      rw [List.append_assoc, List.append_assoc, List.append_cancel_left_eq, eq_comm]
    · next hgt =>
      rw [List.drop_of_length_le (by omega), List.append_nil]
      exact iff_of_true h rfl
  | set index item =>
    simp only [step, Safe]
    split
    · next hlt =>
      rw [mirrored_iff]
      simp only [hcontainer, Option.bind_some, changed_eq hlt, Option.some.injEq]
      rw [List.eraseIdx_eq_take_drop_succ, List.set_eq_take_append_cons_drop, if_pos hlt,
        List.append_assoc, List.append_cancel_left_eq, eq_comm]
    · next hge =>
      rw [List.drop_of_length_le (by omega)]
      exact iff_of_true h rfl
  | remove index count =>
    simp only [step, Safe]
    refine iff_of_true ?_ trivial
    split
    · next hle =>
      rw [mirrored_iff]
      simp only [hcontainer, Option.bind_some]
      exact if_pos hle
    · exact h

/-- After every callback the container shows the list, exactly as long as the modifications are
safe. -/
theorem states_mirrored_iff (newList : List T) (changes : List (Change T)) :
    (∀ b ∈ Runs.states step (setList newList) changes, b.Mirrored) ↔
      Runs.Guarded step Safe (setList newList) changes := by
  have hstep : ∀ (b : BoundList T) (c : Change T), b.Mirrored → ((b.step c).Mirrored ↔ b.Safe c) :=
    fun _ c h => mirrored_step_iff h c
  exact Runs.states_iff_guarded hstep (mirrored_setList newList) changes

/-- An item inserted in front is shown last, and so is one that takes the place of the first. -/
theorem inserted_shown_last :
    (Runs.run step (setList ['b']) [.insert 0 ['a']]).list = ['a', 'b'] ∧
      (Runs.run step (setList ['b']) [.insert 0 ['a']]).container = some ['b', 'a'] ∧
      ¬ (Runs.run step (setList ['b']) [.insert 0 ['a']]).Mirrored ∧
      ¬ (Runs.run step (setList ['a', 'b']) [.set 0 'c']).Mirrored := by
  simp only [mirrored_iff]
  decide

end BoundList

end Amnezia.Databinding
