import Mathlib.Data.Int.Order.Basic
import Mathlib.Order.Lattice
import Mathlib.Tactic.Common

/-!
# Comparators — three-way comparison by an integer

A comparator tells by the sign of an integer which of two values comes first.  It is total when the
signs are those of a strict total order.
-/

namespace Comparators

variable {α : Type}

/-- The signs of a comparator are those of a strict total order. -/
structure Total (cmp : α → α → Int) : Prop where
  eq_zero_iff : ∀ a b, cmp a b = 0 ↔ a = b
  swap : ∀ a b, cmp a b < 0 ↔ 0 < cmp b a
  trans : ∀ a b c, cmp a b < 0 → cmp b c < 0 → cmp a c < 0

variable {cmp : α → α → Int}

theorem Total.sign_eq (h : Total cmp) (a b : α) : (cmp a b).sign = -(cmp b a).sign := by
  rcases Int.lt_trichotomy (cmp a b) 0 with hneg | hzero | hpos
  · have hswap := (h.swap a b).1 hneg
    rw [Int.sign_eq_neg_one_of_neg hneg, Int.sign_eq_one_of_pos hswap]
  · have heq := (h.eq_zero_iff a b).1 hzero
    rw [hzero, (h.eq_zero_iff b a).2 heq.symm]
    rfl
  · have hswap := (h.swap b a).2 hpos
    rw [Int.sign_eq_one_of_pos hpos, Int.sign_eq_neg_one_of_neg hswap]
    rfl

def ofLT [LT α] [DecidableLT α] (a b : α) : Int := if a < b then -1 else if b < a then 1 else 0

theorem total_ofLT [LinearOrder α] [DecidableLT α] : Total (ofLT : α → α → Int) where
  eq_zero_iff a b := by
    unfold ofLT
    rcases lt_trichotomy a b with h | h | h
    · rw [if_pos h]
      exact ⟨nofun, fun heq => absurd h (heq ▸ lt_irrefl a)⟩
    · subst h
      rw [if_neg (lt_irrefl a), if_neg (lt_irrefl a)]
      exact ⟨fun _ => rfl, fun _ => rfl⟩
    · rw [if_neg (lt_asymm h), if_pos h]
      exact ⟨nofun, fun heq => absurd h (heq ▸ lt_irrefl a)⟩
  swap a b := by
    unfold ofLT
    rcases lt_trichotomy a b with h | h | h
    · rw [if_pos h, if_neg (lt_asymm h), if_pos h]
      decide
    · subst h
      rw [if_neg (lt_irrefl a), if_neg (lt_irrefl a)]
    · rw [if_neg (lt_asymm h), if_pos h, if_pos h]
      decide
  trans a b c := by
    have hlt : ∀ x y : α, ofLT x y < 0 ↔ x < y := by
      intro x y
      unfold ofLT
      split
      · next h => exact ⟨fun _ => h, fun _ => by decide⟩
      · next h =>
        split
        · exact ⟨fun h' => absurd h' (by decide), fun h' => absurd h' h⟩
        · exact ⟨fun h' => absurd h' (by decide), fun h' => absurd h' h⟩
    rw [hlt, hlt, hlt]
    exact lt_trans

def lex (cmp : α → α → Int) : List α → List α → Int
  | [], [] => 0
  | [], _ :: _ => -1
  | _ :: _, [] => 1
  | a :: as, b :: bs => if cmp a b ≠ 0 then cmp a b else lex cmp as bs

variable {as bs : List α} {a b : α}

theorem lex_cons_lt (h : Total cmp) :
    lex cmp (a :: as) (b :: bs) < 0 ↔ cmp a b < 0 ∨ a = b ∧ lex cmp as bs < 0 := by
  rw [lex, ← h.eq_zero_iff]
  split <;> omega

theorem lex_cons_pos (h : Total cmp) :
    0 < lex cmp (a :: as) (b :: bs) ↔ 0 < cmp a b ∨ a = b ∧ 0 < lex cmp as bs := by
  rw [lex, ← h.eq_zero_iff]
  split <;> omega

theorem lex_cons_eq_zero (h : Total cmp) :
    lex cmp (a :: as) (b :: bs) = 0 ↔ a = b ∧ lex cmp as bs = 0 := by
  rw [lex, ← h.eq_zero_iff]
  split <;> omega

theorem Total.lex (h : Total cmp) : Total (lex cmp) where
  eq_zero_iff as bs := by
    induction as generalizing bs with
    | nil =>
      cases bs with
      | nil => exact ⟨fun _ => rfl, fun _ => rfl⟩
      | cons b bs => exact ⟨nofun, nofun⟩
    | cons a as ih =>
      cases bs with
      | nil => exact ⟨nofun, nofun⟩
      | cons b bs => rw [lex_cons_eq_zero h, ih, List.cons.injEq]
  swap as bs := by
    induction as generalizing bs with
    | nil =>
      cases bs with
      | nil => simp [Comparators.lex]
      | cons b bs => simp [Comparators.lex]
    | cons a as ih =>
      cases bs with
      | nil => simp [Comparators.lex]
      | cons b bs => rw [lex_cons_lt h, lex_cons_pos h, h.swap, ih, eq_comm]
  trans as bs cs := by
    induction as generalizing bs cs with
    | nil =>
      intro hab hbc
      cases cs with
      | nil =>
        cases bs with
        | nil => exact hab
        | cons b bs => exact absurd hbc (by simp [Comparators.lex])
      | cons c cs => simp [Comparators.lex]
    | cons a as ih =>
      intro hab hbc
      cases bs with
      | nil => exact absurd hab (by simp [Comparators.lex])
      | cons b bs =>
        cases cs with
        | nil => exact absurd hbc (by simp [Comparators.lex])
        | cons c cs =>
          rw [lex_cons_lt h] at hab hbc ⊢
          rcases hab with hab | ⟨rfl, hab⟩
          · rcases hbc with hbc | ⟨rfl, -⟩
            · exact .inl (h.trans a b c hab hbc)
            · exact .inl hab
          · rcases hbc with hbc | ⟨rfl, hbc⟩
            · exact .inl hbc
            · exact .inr ⟨rfl, ih bs cs hab hbc⟩

end Comparators
