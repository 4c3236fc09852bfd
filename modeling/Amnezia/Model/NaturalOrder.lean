import Amnezia.Lib.Comparators
import Amnezia.Model.TunnelName
import Mathlib.Data.Char
import Mathlib.Data.List.Lex

/-!
# The order of tunnel names

`TunnelComparator.compare` against a strict total order.  The tokens of two names are compared
lexicographically.  Names that differ only in case or in leading zeros have the same tokens, and
each of them comes after the other.
-/

namespace Amnezia.Model.TunnelComparator

open Comparators

theorem compareTo_number (m n : Nat) : Token.compareTo (.number m) (.number n) = ofLT m n :=
  rfl

theorem compareTo_string (s t : List Char) :
    Token.compareTo (.string s) (.string t) = ofLT s t := by
  rw [Token.compareTo, ofLT]
  by_cases hlt : s < t
  · rw [if_neg (lt_asymm hlt), if_pos hlt, if_pos hlt]
  · rw [if_neg hlt, if_neg hlt]

theorem compareTo_number_string (m : Nat) (t : List Char) :
    Token.compareTo (.number m) (.string t) = -1 := rfl

theorem compareTo_string_number (s : List Char) (n : Nat) :
    Token.compareTo (.string s) (.number n) = 1 := rfl

theorem total_compareTo : Total Token.compareTo where
  eq_zero_iff a b := by
    cases a with
    | number m =>
      cases b with
      | number n => rw [compareTo_number, total_ofLT.eq_zero_iff, Token.number.injEq]
      | string t => exact ⟨nofun, nofun⟩
    | string s =>
      cases b with
      | number n => exact ⟨nofun, nofun⟩
      | string t => rw [compareTo_string, total_ofLT.eq_zero_iff, Token.string.injEq]
  swap a b := by
    cases a with
    | number m =>
      cases b with
      | number n => exact total_ofLT.swap m n
      | string t =>
        rw [compareTo_number_string, compareTo_string_number]
        decide
    | string s =>
      cases b with
      | number n =>
        rw [compareTo_number_string, compareTo_string_number]
        decide
      | string t =>
        rw [compareTo_string, compareTo_string]
        exact total_ofLT.swap s t
  trans a b c hab hbc := by
    cases a with
    | number m =>
      cases c with
      | string u =>
        rw [compareTo_number_string]
        decide
      | number k =>
        cases b with
        | number n => exact total_ofLT.trans m n k hab hbc
        | string t =>
          rw [compareTo_string_number] at hbc
          exact absurd hbc (by decide)
    | string s =>
      cases b with
      | number n =>
        rw [compareTo_string_number] at hab
        exact absurd hab (by decide)
      | string t =>
        cases c with
        | number k =>
          rw [compareTo_string_number] at hbc
          exact absurd hbc (by decide)
        | string u =>
          rw [compareTo_string] at hab hbc ⊢
          exact total_ofLT.trans s t u hab hbc

-- Equal lists of tokens fall through the loop to its last line.
theorem compareTokens_eq (as bs : List Token) : compareTokens as bs =
    if as = bs then 1 else lex Token.compareTo as bs := by
  induction bs generalizing as with
  | nil =>
    cases as with
    | nil => rfl
    | cons a as => rfl
  | cons b bs ih =>
    cases as with
    | nil => rfl
    | cons a as =>
      rw [compareTokens, lex, ih]
      by_cases hab : a = b
      · subst hab
        rw [if_neg (not_not.2 ((total_compareTo.eq_zero_iff a a).2 rfl)),
          if_neg (not_not.2 ((total_compareTo.eq_zero_iff a a).2 rfl))]
        simp
      · have hne : Token.compareTo a b ≠ 0 := fun h => hab ((total_compareTo.eq_zero_iff a b).1 h)
        have hlists : a :: as ≠ b :: bs := fun h => hab (List.cons.inj h).1
        rw [if_pos hne, if_pos hne, if_neg hlists]

theorem compareTokens_neg {as bs : List Token} :
    compareTokens as bs < 0 ↔ lex Token.compareTo as bs < 0 := by
  rw [compareTokens_eq]
  split
  · next heq =>
    rw [(total_compareTo.lex.eq_zero_iff as bs).2 heq]
    decide
  · exact Iff.rfl

theorem compare_neg {a b : Name} :
    compare a b < 0 ↔ lex Token.compareTo (tokens a) (tokens b) < 0 := by
  unfold compare
  split
  · next heq =>
    rw [(total_compareTo.lex.eq_zero_iff _ _).2 (congrArg tokens heq)]
  · exact compareTokens_neg

theorem compare_of_ne {a b : Name} (h : tokens a ≠ tokens b) :
    compare a b = lex Token.compareTo (tokens a) (tokens b) := by
  have hne : a ≠ b := fun heq => h (congrArg tokens heq)
  unfold compare
  rw [if_neg hne, compareTokens_eq, if_neg h]

theorem compare_of_tokens {a b : Name} (hne : a ≠ b) (h : tokens a = tokens b) : compare a b = 1 := by
  unfold compare
  rw [if_neg hne, compareTokens_eq, if_pos h]

/-- The comparator is zero on equal names only, and it is transitive.  Its signs are opposite unless
two different names have the same tokens. -/
theorem compare_total_iff (a b c : Name) :
    (compare a b = 0 ↔ a = b) ∧
      (compare a b < 0 → compare b c < 0 → compare a c < 0) ∧
      ((compare a b).sign = -(compare b a).sign ↔ a = b ∨ tokens a ≠ tokens b) := by
  refine ⟨⟨eq_of_compare_eq_zero a b, fun h => if_pos h⟩, ?_, ?_⟩
  · rw [compare_neg, compare_neg, compare_neg]
    exact total_compareTo.lex.trans _ _ _
  · constructor
    · intro hsign
      by_contra hcon
      rw [not_or, not_not] at hcon
      rw [compare_of_tokens hcon.1 hcon.2,
        compare_of_tokens (Ne.symm hcon.1) hcon.2.symm] at hsign
      exact absurd hsign (by decide)
    · rintro (rfl | hne)
      · rw [show compare a a = 0 from if_pos rfl]
        rfl
      · rw [compare_of_ne hne, compare_of_ne (Ne.symm hne)]
        exact total_compareTo.lex.sign_eq _ _

theorem compare_total_vpn : compare "vpn2".toList "vpn010".toList < 0 ∧
    compare "vpn010".toList "vpna".toList < 0 ∧ compare "vpn2".toList "vpna".toList < 0 := by
  have h₁ : compare "vpn2".toList "vpn010".toList < 0 := by decide
  have h₂ : compare "vpn010".toList "vpna".toList < 0 := by decide
  exact ⟨h₁, h₂, (compare_total_iff _ _ _).2.1 h₁ h₂⟩

theorem compare_case : isNameInvalid "Vpn".toList = false ∧ isNameInvalid "vpn".toList = false ∧
    compare "Vpn".toList "vpn".toList = 1 ∧ compare "vpn".toList "Vpn".toList = 1 := by
  decide

end Amnezia.Model.TunnelComparator
