import Mathlib.Data.List.Basic
import Mathlib.Logic.Function.Basic
import Mathlib.Tactic.Common

/-!
# Links — lists linked in memory

A cell holds a value and the address of the next cell; the address `none` is the null pointer.
Loading from the null pointer and loading from memory that is not allocated are faults.
-/

namespace Links

variable {P V : Type}

/-- How a program that follows pointers can stop. -/
inductive Stop where
  | null | dangling | outOfFuel
  deriving DecidableEq, Repr

def address (p : Option P) : Except Stop P :=
  match p with
  | none => .error .null
  | some a => .ok a

def load {C : Type} (cells : P → Option C) (a : P) : Except Stop C :=
  match cells a with
  | none => .error .dangling
  | some c => .ok c

theorem load_eq {C : Type} {cells : P → Option C} {a : P} {c : C} (h : cells a = some c) :
    load cells a = .ok c := by
  unfold load
  rw [h]

/-- The list of the addresses and the values from a pointer on. -/
def IsList (cells : P → Option (V × Option P)) : Option P → List (P × V) → Prop
  | p, [] => p = none
  | p, (a, v) :: l => p = some a ∧ ∃ next, cells a = some (v, next) ∧ IsList cells next l

variable {cells cells' : P → Option (V × Option P)} {p : Option P} {l r : List (P × V)}

theorem IsList.pointer (h : IsList cells p l) : p = l.head?.map (·.1) := by
  cases l with
  | nil => exact h
  | cons c l => exact h.1

-- A list is a matter of its own cells only.
theorem IsList.congr (h : IsList cells p l) (hcells : ∀ c ∈ l, cells' c.1 = cells c.1) :
    IsList cells' p l := by
  induction l generalizing p with
  | nil => exact h
  | cons c l ih =>
    rw [List.forall_mem_cons] at hcells
    obtain ⟨hp, next, hc, hl⟩ := h
    exact ⟨hp, next, hcells.1.trans hc, ih hl hcells.2⟩

theorem IsList.cell {a : P} {v : V} (h : IsList cells p (l ++ (a, v) :: r)) :
    ∃ next, cells a = some (v, next) ∧ IsList cells next r := by
  induction l generalizing p with
  | nil => exact h.2
  | cons c l ih =>
    obtain ⟨-, next, -, hl⟩ := h
    exact ih hl

theorem IsList.replace {a : P} {v v' : V} {q : Option P} {r' : List (P × V)}
    (h : IsList cells p (l ++ (a, v) :: r)) (hcells : ∀ c ∈ l, cells' c.1 = cells c.1)
    (ha : cells' a = some (v', q)) (hr' : IsList cells' q r') :
    IsList cells' p (l ++ (a, v') :: r') := by
  induction l generalizing p with
  | nil => exact ⟨h.1, q, ha, hr'⟩
  | cons c l ih =>
    rw [List.forall_mem_cons] at hcells
    obtain ⟨hp, next, hc, hl⟩ := h
    exact ⟨hp, next, hcells.1.trans hc, ih hl hcells.2⟩

theorem IsList.last {a : P} {v : V} (h : IsList cells p (l ++ [(a, v)])) :
    cells a = some (v, none) := by
  obtain ⟨next, hcell, hnext⟩ := h.cell
  rw [hcell, show next = none from hnext]

end Links
