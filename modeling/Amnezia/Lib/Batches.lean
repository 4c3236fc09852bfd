import Mathlib.Tactic.Common

/-!
# Batches — items handed on a few at a time

Items are gathered, and what has been gathered is handed on whenever the number of items so far is
a multiple of `size`.  That number is kept in a counter that starts again from zero at `modulus`.
-/

namespace Batches

variable {α : Type*}

structure Gathered (α : Type*) where
  count : Nat := 0
  pending : List α := []
  batches : List (List α) := []

namespace Gathered

def add (modulus size : Nat) (g : Gathered α) (x : α) : Gathered α :=
  let count := (g.count + 1) % modulus
  if count % size = 0 then ⟨count, [], g.batches ++ [g.pending ++ [x]]⟩
  else ⟨count, g.pending ++ [x], g.batches⟩

def addUncounted (g : Gathered α) (x : α) : Gathered α := { g with pending := g.pending ++ [x] }

def finish (g : Gathered α) : List (List α) :=
  if g.pending = [] then g.batches else g.batches ++ [g.pending]

def items (g : Gathered α) : List α := g.batches.flatten ++ g.pending

theorem flatten_finish (g : Gathered α) : g.finish.flatten = g.items := by
  unfold finish items
  split
  · next h => rw [h, List.append_nil]
  · simp

theorem items_add (modulus size : Nat) (g : Gathered α) (x : α) :
    (g.add modulus size x).items = g.items ++ [x] := by
  unfold add
  simp only
  split
  · simp [items]
  · simp [items]

def addAll (modulus size : Nat) (g : Gathered α) (xs : List α) : Gathered α :=
  xs.foldl (add modulus size) g

theorem items_addAll (modulus size : Nat) (g : Gathered α) (xs : List α) :
    (g.addAll modulus size xs).items = g.items ++ xs := by
  induction xs generalizing g with
  | nil => exact (List.append_nil _).symm
  | cons x xs ih =>
    show ((g.add modulus size x).addAll modulus size xs).items = _
    rw [ih, items_add, List.append_assoc, List.singleton_append]

theorem items_addUncounted (g : Gathered α) (x : α) :
    (g.addUncounted x).items = g.items ++ [x] := by
  simp [addUncounted, items]

structure Bounded (modulus size : Nat) (g : Gathered α) : Prop where
  count_lt : g.count < modulus
  pending_eq : g.pending.length = g.count % size
  batches_ne : ∀ b ∈ g.batches, b ≠ []
  batches_le : ∀ b ∈ g.batches, b.length ≤ size

variable {modulus size : Nat} {g : Gathered α}

theorem bounded_empty (hmodulus : 0 < modulus) :
    ({} : Gathered α).Bounded modulus size where
  count_lt := hmodulus
  pending_eq := (Nat.zero_mod size).symm
  batches_ne _ hb := absurd hb List.not_mem_nil
  batches_le _ hb := absurd hb List.not_mem_nil

theorem succ_mod_of_ne {n : Nat} (hsize : 0 < size) (h : (n + 1) % size ≠ 0) :
    (n + 1) % size = n % size + 1 := by
  have hlt := Nat.mod_lt n hsize
  have hdiv := Nat.div_add_mod n size
  by_cases hlast : n % size + 1 = size
  · exfalso
    apply h
    rw [← hdiv, Nat.add_assoc, hlast, ← Nat.mul_succ, Nat.mul_mod_right]
  · rw [← hdiv, Nat.add_assoc, Nat.mul_add_mod, Nat.mul_add_mod, Nat.mod_mod,
      Nat.mod_eq_of_lt (by omega)]

-- The counter is back at a multiple of `size` when it starts again, so nothing is pending then.
theorem Bounded.add (h : g.Bounded modulus size) (hsize : 0 < size) (x : α) :
    (g.add modulus size x).Bounded modulus size := by
  have hmodulus : 0 < modulus := by
    have hlt := h.count_lt
    omega
  have hpending := Nat.mod_lt g.count hsize
  rw [← h.pending_eq] at hpending
  unfold Gathered.add
  simp only
  split
  · next hcount =>
    refine ⟨Nat.mod_lt _ hmodulus, hcount.symm, ?_, ?_⟩
    · intro b hb
      rcases List.mem_append.1 hb with hb | hb
      · exact h.batches_ne b hb
      · rw [List.mem_singleton.1 hb]
        simp
    · intro b hb
      rcases List.mem_append.1 hb with hb | hb
      · exact h.batches_le b hb
      · rw [List.mem_singleton.1 hb, List.length_append, List.length_singleton]
        omega
  · next hcount =>
    refine ⟨Nat.mod_lt _ hmodulus, ?_, h.batches_ne, h.batches_le⟩
    have hlt : g.count + 1 < modulus := by
      by_contra hge
      have heq : g.count + 1 = modulus := by
        have hlt := h.count_lt
        omega
      rw [heq, Nat.mod_self, Nat.zero_mod] at hcount
      exact hcount rfl
    rw [Nat.mod_eq_of_lt hlt] at hcount ⊢
    rw [List.length_append, List.length_singleton, h.pending_eq]
    exact (succ_mod_of_ne hsize hcount).symm

theorem Bounded.addAll (h : g.Bounded modulus size) (hsize : 0 < size) (xs : List α) :
    (g.addAll modulus size xs).Bounded modulus size := by
  induction xs generalizing g with
  | nil => exact h
  | cons x xs ih => exact ih (h.add hsize x)

-- One more item may come at the end without being counted.
theorem Bounded.finish_add (h : g.Bounded modulus size)
    (hsize : 0 < size) (x : α) :
    ∀ b ∈ (g.addUncounted x).finish, b ≠ [] ∧ b.length ≤ size := by
  have hpending := Nat.mod_lt g.count hsize
  rw [← h.pending_eq] at hpending
  intro b hb
  unfold finish addUncounted at hb
  rw [if_neg (by simp)] at hb
  rcases List.mem_append.1 hb with hb | hb
  · exact ⟨h.batches_ne b hb, h.batches_le b hb⟩
  · rw [List.mem_singleton.1 hb, List.length_append, List.length_singleton]
    exact ⟨by simp, by omega⟩

theorem Bounded.finish (h : g.Bounded modulus size) (hsize : 0 < size) :
    ∀ b ∈ g.finish, b ≠ [] ∧ b.length ≤ size := by
  have hpending := Nat.mod_lt g.count hsize
  rw [← h.pending_eq] at hpending
  intro b hb
  unfold Gathered.finish at hb
  split at hb
  · exact ⟨h.batches_ne b hb, h.batches_le b hb⟩
  · next hne =>
    rcases List.mem_append.1 hb with hb | hb
    · exact ⟨h.batches_ne b hb, h.batches_le b hb⟩
    · rw [List.mem_singleton.1 hb]
      exact ⟨hne, by omega⟩

end Gathered

end Batches
