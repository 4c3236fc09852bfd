import Mathlib.Data.List.SplitBy
import Mathlib.Tactic.Common

/-!
# Tunnel names

`Tunnel.isNameInvalid` and the natural order of `TunnelComparator`.  A valid name is ASCII, which is
what the case folding and the digit classes here are about.
-/

namespace Amnezia.Model

abbrev Name := List Char

/-- A character of `NAME_PATTERN`, `[a-zA-Z0-9_=+.-]`. -/
def nameChar (c : Char) : Bool := c.isAlphanum || ['_', '=', '+', '.', '-'].contains c

def isNameInvalid (name : Name) : Bool :=
  !(decide (1 ≤ name.length ∧ name.length ≤ 15) && name.all nameChar)

namespace TunnelComparator

inductive Token where
  | string (s : List Char)
  | number (n : Nat)
  deriving DecidableEq, Repr

def Token.compareTo : Token → Token → Int
  | .number _, .string _ => -1
  | .number n, .number m => if n < m then -1 else if m < n then 1 else 0
  | .string _, .number _ => 1
  | .string s, .string t => if t < s then 1 else if s < t then -1 else 0

def decimal (digits : List Char) : Nat :=
  digits.foldl (fun n c => 10 * n + (c.toNat - '0'.toNat)) 0

/-- One match of `\d+|\D+`: a number when `toInt` accepts it. -/
def token (run : List Char) : Token :=
  if run.all Char.isDigit ∧ decimal run ≤ 2147483647 then .number (decimal run) else .string run

def tokens (original : Name) : List Token :=
  let text := original.map fun c => (if c.isWhitespace then ' ' else c).toLower
  (text.splitBy fun a b => a.isDigit == b.isDigit).map token

def compareTokens : List Token → List Token → Int
  | _, [] => 1
  | [], _ :: _ => -1
  | a :: as, b :: bs => if a.compareTo b ≠ 0 then a.compareTo b else compareTokens as bs

def compare (a b : Name) : Int := if a = b then 0 else compareTokens (tokens a) (tokens b)

theorem compareTokens_ne_zero (as bs : List Token) : compareTokens as bs ≠ 0 := by
  induction bs generalizing as with
  | nil =>
    rw [compareTokens]
    decide
  | cons b bs ih =>
    cases as with
    | nil =>
      rw [compareTokens]
      decide
    | cons a as =>
      rw [compareTokens]
      split
      · assumption
      · exact ih as

theorem eq_of_compare_eq_zero (a b : Name) (h : compare a b = 0) : a = b := by
  unfold compare at h
  split at h
  · assumption
  · exact absurd h (compareTokens_ne_zero _ _)

example : compare "vpn10".toList "vpn9".toList = 1 ∧ compare "A".toList "a".toList = 1 := by decide

end TunnelComparator

end Amnezia.Model
