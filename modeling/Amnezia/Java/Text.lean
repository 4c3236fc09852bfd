import Amnezia.Lib.Fields
import Mathlib.Data.List.DropRight

/-!
# Strings of the Java library

What the app uses of `String`, `Integer`, `Long`, `BufferedReader` and `java.util.regex`, on text
decoded from a stream: a list of Unicode scalar values.
-/

namespace Amnezia.Java

abbrev Text := List Char

/-- What `String.trim` drops: a character not above the blank. -/
def trimmable (c : Char) : Bool := c ≤ ' '

def space (c : Char) : Bool := [' ', '\t', '\n', '\x0b', '\x0c', '\r'].contains c

def word (c : Char) : Bool := c.isAlphanum || c == '_'

/-- The regular expression `.`: any character but a line terminator. -/
def dot (c : Char) : Bool := !(['\n', '\r', '\u0085', '\u2028', '\u2029'].contains c)

/-- The character that stands for all those `String.equalsIgnoreCase` takes for the same ASCII
letter. -/
def foldCase (c : Char) : Char :=
  match c with
  | '\u0130' => 'i'
  | '\u0131' => 'i'
  | '\u017f' => 's'
  | '\u212a' => 'k'
  | c => c.toLower

/-- The zeros of the decimal digits of the basic plane. -/
def digitZeros : List Nat :=
  [0x30, 0x660, 0x6f0, 0x7c0, 0x966, 0x9e6, 0xa66, 0xae6, 0xb66, 0xbe6, 0xc66, 0xce6, 0xd66,
   0xde6, 0xe50, 0xed0, 0xf20, 0x1040, 0x1090, 0x17e0, 0x1810, 0x1946, 0x19d0, 0x1a80, 0x1a90,
   0x1b50, 0x1bb0, 0x1c40, 0x1c50, 0xa620, 0xa8d0, 0xa900, 0xa9d0, 0xa9f0, 0xaa50, 0xabf0, 0xff10]

def digit (c : Char) : Option Nat :=
  (digitZeros.find? fun z => z ≤ c.toNat && c.toNat < z + 10).map (c.toNat - ·)

def trim (s : Text) : Text := Fields.strip trimmable s

/-- `String.toLowerCase(Locale.ENGLISH)`, of a string of `\w`. -/
def toLowerCase (s : Text) : Text := s.map Char.toLower

/-- `String.equalsIgnoreCase`, of an ASCII string with any other. -/
def equalsIgnoreCase (ascii s : Text) : Bool := ascii.map foldCase == s.map foldCase

/-- `line.substring(0, line.indexOf(c))`, the line itself when it has no `c`. -/
def before (c : Char) (line : Text) : Text := line.takeWhile (· != c)

/-- `String.split` with a pattern that matches `sep` only.  The empty strings at the end are dropped,
and a string without `sep` is its only part. -/
def split (sep : Char) (s : Text) : List Text :=
  if sep ∈ s then (s.splitOn sep).rdropWhile List.isEmpty else [s]

def toCharArray (s : Text) : List (BitVec 16) :=
  s.flatMap fun c =>
    if c.toNat < 0x10000 then [BitVec.ofNat 16 c.toNat]
    else [BitVec.ofNat 16 (0xd800 + (c.toNat - 0x10000) / 0x400),
      BitVec.ofNat 16 (0xdc00 + (c.toNat - 0x10000) % 0x400)]

/-- `new String(char[])`, of code units outside the surrogates. -/
def ofCharArray (units : List (BitVec 16)) : Text := units.map fun unit => Char.ofNat unit.toNat

/-- The lines `BufferedReader.readLine` gives until it gives `null`. -/
def readLines : Text → List Text
  | [] => []
  | '\n' :: cs => [] :: readLines cs
  | '\r' :: '\n' :: cs => [] :: readLines cs
  | '\r' :: cs => [] :: readLines cs
  | c :: cs =>
    match readLines cs with
    | [] => [[c]]
    | line :: lines => (c :: line) :: lines

def digitsFrom : Nat → Text → Option Nat
  | n, [] => some n
  | n, c :: cs => (digit c).bind fun d => digitsFrom (10 * n + d) cs

def digitsUpTo (max : Nat) (s : Text) : Option Nat :=
  if s = [] then none else (digitsFrom 0 s).filter (· ≤ max)

/-- `Integer.parseInt`; `none` is the `NumberFormatException`. -/
def parseInt : Text → Option Int
  | '-' :: cs => (digitsUpTo 2147483648 cs).map fun (n : Nat) => -(n : Int)
  | '+' :: cs => (digitsUpTo 2147483647 cs).map Int.ofNat
  | cs => (digitsUpTo 2147483647 cs).map Int.ofNat

/-- `Long.parseLong`; `none` is the `NumberFormatException`. -/
def parseLong : Text → Option Int
  | '-' :: cs => (digitsUpTo 9223372036854775808 cs).map fun (n : Nat) => -(n : Int)
  | '+' :: cs => (digitsUpTo 9223372036854775807 cs).map Int.ofNat
  | cs => (digitsUpTo 9223372036854775807 cs).map Int.ofNat

def toLong (n : Int) : Int := n.bmod 18446744073709551616

def valueOf (n : Int) : Text :=
  if n < 0 then '-' :: Nat.toDigits 10 n.natAbs else Nat.toDigits 10 n.natAbs

variable {c : Char}

theorem trimmable_iff : trimmable c = true ↔ c.toNat ≤ 32 := by
  unfold trimmable
  rw [decide_eq_true_iff, Char.le_def, UInt32.le_iff_toNat_le]
  rfl

theorem trimmable_of_space (h : space c = true) : trimmable c = true := by
  have hall : [' ', '\t', '\n', '\x0b', '\x0c', '\r'].all trimmable = true := by decide
  unfold space at h
  rw [List.contains_iff_mem] at h
  exact List.all_eq_true.1 hall c h

theorem isAlphanum_iff : c.isAlphanum = true ↔
    (65 ≤ c.toNat ∧ c.toNat ≤ 90) ∨ (97 ≤ c.toNat ∧ c.toNat ≤ 122) ∨
      (48 ≤ c.toNat ∧ c.toNat ≤ 57) := by
  show (decide (c.val ≥ 65 ∧ c.val ≤ 90) || (decide (c.val ≥ 97) && decide (c.val ≤ 122))
    || (decide (c.val ≥ 48) && decide (c.val ≤ 57))) = true ↔ _
  simp only [Bool.or_eq_true, Bool.and_eq_true, decide_eq_true_iff, ge_iff_le,
    UInt32.le_iff_toNat_le, or_assoc]
  rfl

theorem lt_of_word (h : word c = true) : 32 < c.toNat ∧ c.toNat < 128 := by
  unfold word at h
  rw [Bool.or_eq_true, isAlphanum_iff, beq_iff_eq] at h
  rcases h with h | rfl
  · omega
  · decide

theorem isDigit_iff : c.isDigit = true ↔ 48 ≤ c.toNat ∧ c.toNat ≤ 57 := by
  simp only [Char.isDigit, Bool.and_eq_true, decide_eq_true_iff, ge_iff_le,
    UInt32.le_iff_toNat_le]
  rfl

theorem dot_of_lt (hlow : 32 ≤ c.toNat) (hhigh : c.toNat < 127) : dot c = true := by
  unfold dot
  rw [Bool.not_eq_true']
  apply eq_false_of_ne_true
  intro h
  rw [List.contains_iff_mem] at h
  simp only [List.mem_cons, List.not_mem_nil, or_false] at h
  rcases h with rfl | rfl | rfl | rfl | rfl <;> revert hlow hhigh <;> decide

theorem readLines_append {line : Text} (hn : '\n' ∉ line) (hr : '\r' ∉ line) (rest : Text) :
    readLines (line ++ '\n' :: rest) = line :: readLines rest := by
  induction line with
  | nil => rfl
  | cons c cs ih =>
    rw [List.mem_cons, not_or] at hn hr
    have hcs := ih hn.2 hr.2
    rw [List.cons_append, readLines.eq_5, hcs]
    · exact fun h => hn.1 h.symm
    · intro _ h
      exact absurd h.symm hr.1
    · exact fun h => hr.1 h.symm

theorem readLines_flatMap {lines : List Text} (h : ∀ l ∈ lines, '\n' ∉ l ∧ '\r' ∉ l) :
    readLines (lines.flatMap (· ++ ['\n'])) = lines := by
  induction lines with
  | nil => rfl
  | cons l ls ih =>
    have hl := h l (by simp)
    rw [List.flatMap_cons, List.append_assoc, List.singleton_append,
      readLines_append hl.1 hl.2, ih (fun m hm => h m (by simp [hm]))]

theorem mem_of_mem_readLines {s line : Text} (h : line ∈ readLines s) (hc : c ∈ line) : c ∈ s := by
  fun_induction readLines s generalizing line with
  | case1 => simp at h
  | case2 cs ih | case3 cs ih | case4 cs _ ih =>
    rcases List.mem_cons.1 h with rfl | h
    · exact absurd hc List.not_mem_nil
    · simp [ih h hc]
  | case5 d cs hn hrn hr heq ih =>
    rw [List.mem_singleton.1 h, List.mem_singleton] at hc
    simp [hc]
  | case6 d cs hn hrn hr l ls heq ih =>
    rcases List.mem_cons.1 h with rfl | h
    · rcases List.mem_cons.1 hc with rfl | hc
      · simp
      · have hmem := @ih l (by simp [heq]) hc
        simp [hmem]
    · have hmem := @ih line (by simp [heq, h]) hc
      simp [hmem]

theorem digit_of_isDigit (h : c.isDigit = true) : digit c = some (c.toNat - '0'.toNat) := by
  rw [isDigit_iff] at h
  have hfirst : (decide (48 ≤ c.toNat) && decide (c.toNat < 48 + 10)) = true := by
    simp only [Bool.and_eq_true, decide_eq_true_iff]
    omega
  unfold digit
  rw [show digitZeros = 48 :: digitZeros.tail from rfl]
  simp only [List.find?_cons, hfirst]
  rfl

variable {cs : Text}

theorem digitsFrom_of_isDigit (h : ∀ c ∈ cs, c.isDigit = true) (n : Nat) :
    digitsFrom n cs = some (Nat.ofDigitChars 10 cs n) := by
  induction cs generalizing n with
  | nil => rfl
  | cons c cs ih =>
    rw [digitsFrom, digit_of_isDigit (h c (by simp)), Option.bind_some,
      ih (fun d hd => h d (by simp [hd]))]
    rfl

theorem valueOf_natCast (n : Nat) : valueOf n = Nat.toDigits 10 n := by
  unfold valueOf
  rw [if_neg (by omega), Int.natAbs_natCast]

variable {n : Nat}

theorem isDigit_of_mem_valueOf {n : Nat} {c : Char} (h : c ∈ valueOf n) : c.isDigit = true := by
  rw [valueOf_natCast] at h
  exact Nat.isDigit_of_mem_toDigits (by decide) (by decide) h

theorem valueOf_ne_nil (n : Nat) : valueOf n ≠ [] := by
  rw [valueOf_natCast]
  exact Nat.toDigits_ne_nil

theorem digitsUpTo_of_isDigit (hne : cs ≠ []) (h : ∀ c ∈ cs, c.isDigit = true) (max : Nat) :
    (digitsUpTo max cs).map Int.ofNat =
      if Nat.ofDigitChars 10 cs 0 ≤ max then some (Nat.ofDigitChars 10 cs 0 : Int) else none := by
  rw [digitsUpTo, if_neg hne, digitsFrom_of_isDigit h]
  split
  · next hle =>
    rw [Option.filter_some_pos (by simpa using hle)]
    rfl
  · next hlt =>
    rw [Option.filter_some_neg (by simpa using hlt)]
    rfl

-- a number without a sign takes the last case of the parsers
theorem head_ne_of_isDigit (h : ∀ c ∈ cs, c.isDigit = true) {sign : Char}
    (hsign : sign.isDigit = false) (ds : Text) : cs ≠ sign :: ds := by
  rintro rfl
  have hdigit := h sign (by simp)
  rw [hsign] at hdigit
  cases hdigit

theorem parseInt_of_isDigit (hne : cs ≠ []) (h : ∀ c ∈ cs, c.isDigit = true) :
    parseInt cs = if Nat.ofDigitChars 10 cs 0 ≤ 2147483647 then some (Nat.ofDigitChars 10 cs 0 : Int)
      else none := by
  rw [parseInt.eq_3, digitsUpTo_of_isDigit hne h]
  · exact head_ne_of_isDigit h (by decide)
  · exact head_ne_of_isDigit h (by decide)

theorem parseLong_of_isDigit (hne : cs ≠ []) (h : ∀ c ∈ cs, c.isDigit = true) :
    parseLong cs = if Nat.ofDigitChars 10 cs 0 ≤ 9223372036854775807
      then some (Nat.ofDigitChars 10 cs 0 : Int) else none := by
  rw [parseLong.eq_3, digitsUpTo_of_isDigit hne h]
  · exact head_ne_of_isDigit h (by decide)
  · exact head_ne_of_isDigit h (by decide)

theorem digit_of_space (h : space c = true) : digit c = none := by
  unfold space at h
  rw [List.contains_iff_mem] at h
  simp only [List.mem_cons, List.not_mem_nil, or_false] at h
  rcases h with rfl | rfl | rfl | rfl | rfl | rfl <;> decide

theorem space_of_digitsFrom {k : Nat} (h : digitsFrom n cs = some k) :
    ∀ c ∈ cs, space c = false := by
  induction cs generalizing n with
  | nil => exact fun c hc => absurd hc List.not_mem_nil
  | cons d cs ih =>
    obtain ⟨v, hv, hrest⟩ := Option.bind_eq_some_iff.1 h
    intro c hc
    rcases List.mem_cons.1 hc with rfl | hc
    · apply eq_false_of_ne_true
      intro hs
      rw [digit_of_space hs] at hv
      cases hv
    · exact ih hrest c hc

theorem space_of_digitsUpTo {max : Nat} (h : digitsUpTo max cs = some n) :
    cs ≠ [] ∧ ∀ c ∈ cs, space c = false := by
  unfold digitsUpTo at h
  split at h
  · cases h
  · next hne => exact ⟨hne, space_of_digitsFrom (Option.filter_eq_some_iff.1 h).1⟩

theorem space_of_parseInt {n : Int} (h : parseInt cs = some n) :
    cs ≠ [] ∧ ∀ c ∈ cs, space c = false := by
  unfold parseInt at h
  split at h
  · next ds =>
    obtain ⟨k, hk, -⟩ := Option.map_eq_some_iff.1 h
    exact ⟨List.cons_ne_nil _ _, List.forall_mem_cons.2 ⟨by decide, (space_of_digitsUpTo hk).2⟩⟩
  · next ds =>
    obtain ⟨k, hk, -⟩ := Option.map_eq_some_iff.1 h
    exact ⟨List.cons_ne_nil _ _, List.forall_mem_cons.2 ⟨by decide, (space_of_digitsUpTo hk).2⟩⟩
  · obtain ⟨k, hk, -⟩ := Option.map_eq_some_iff.1 h
    exact space_of_digitsUpTo hk

theorem parseInt_valueOf (hmax : n ≤ 2147483647) : parseInt (valueOf n) = some (n : Int) := by
  rw [parseInt_of_isDigit (valueOf_ne_nil n) (fun c hc => isDigit_of_mem_valueOf hc), valueOf_natCast,
    Nat.ofDigitChars_ten_toDigits, if_pos hmax]

theorem parseLong_valueOf (hmax : n ≤ 9223372036854775807) :
    parseLong (valueOf n) = some (n : Int) := by
  rw [parseLong_of_isDigit (valueOf_ne_nil n) (fun c hc => isDigit_of_mem_valueOf hc), valueOf_natCast,
    Nat.ofDigitChars_ten_toDigits, if_pos hmax]

theorem toLong_of_lt (h : n < 9223372036854775808) : toLong n = n :=
  Int.bmod_eq_of_le (by omega) (by omega)

theorem split_eq_splitOn {sep : Char} {s : Text} (hsep : sep ∈ s) {last : Text}
    (h : (s.splitOn sep).getLast? = some last) (hne : last ≠ []) : split sep s = s.splitOn sep := by
  rw [split, if_pos hsep, List.rdropWhile_eq_self_iff]
  intro hl
  rw [List.getLast?_eq_some_getLast hl, Option.some.injEq] at h
  rw [h, List.isEmpty_iff]
  exact hne

theorem toNat_ofNat_of_lt (h : n < 128) : (Char.ofNat n).toNat = n := by
  have hall : ∀ m : Fin 128, (Char.ofNat m).toNat = m := by decide
  exact hall ⟨n, h⟩

theorem toCharArray_ofCharArray {units : List (BitVec 16)} (h : ∀ u ∈ units, u.toNat < 128) :
    toCharArray (ofCharArray units) = units := by
  induction units with
  | nil => rfl
  | cons u us ih =>
    have hu := h u (by simp)
    have hrest := ih (fun v hv => h v (by simp [hv]))
    unfold toCharArray ofCharArray at hrest ⊢
    rw [List.map_cons, List.flatMap_cons, toNat_ofNat_of_lt hu, if_pos (by omega), hrest,
      BitVec.ofNat_toNat, BitVec.setWidth_eq]
    rfl

end Amnezia.Java
