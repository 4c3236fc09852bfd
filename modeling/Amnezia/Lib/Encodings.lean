import Mathlib.Data.List.GetD

/-!
# Base 64 and base 16

The texts of a string of bytes in the two standard encodings, by division of the numbers the bytes
stand for, and the bytes a hexadecimal text denotes.
-/

namespace Encodings

def base64Digits : List Char :=
  "ABCDEFGHIJKLMNOPQRSTUVWXYZabcdefghijklmnopqrstuvwxyz0123456789+/".toList

def base64Digit (v : Nat) : Char := base64Digits.getD v '='

def base64Group (b₀ b₁ b₂ : Nat) : List Char :=
  let n := 65536 * b₀ + 256 * b₁ + b₂
  [n / 262144, n / 4096 % 64, n / 64 % 64, n % 64].map base64Digit

def base64 : List Nat → List Char
  | b₀ :: b₁ :: b₂ :: rest => base64Group b₀ b₁ b₂ ++ base64 rest
  | [b₀, b₁] => (base64Group b₀ b₁ 0).take 3 ++ ['=']
  | [b₀] => (base64Group b₀ 0 0).take 2 ++ ['=', '=']
  | [] => []

-- The digits of a group, in terms of the single bytes.
theorem base64Group_eq {b₀ b₁ b₂ : Nat} (h₁ : b₁ < 256) (h₂ : b₂ < 256) :
    base64Group b₀ b₁ b₂ =
      [b₀ / 4, b₀ % 4 * 16 + b₁ / 16, b₁ % 16 * 4 + b₂ / 64, b₂ % 64].map base64Digit := by
  have hd₀ : (65536 * b₀ + 256 * b₁ + b₂) / 262144 = b₀ / 4 := by omega
  have hd₁ : (65536 * b₀ + 256 * b₁ + b₂) / 4096 % 64 = b₀ % 4 * 16 + b₁ / 16 := by omega
  have hd₂ : (65536 * b₀ + 256 * b₁ + b₂) / 64 % 64 = b₁ % 16 * 4 + b₂ / 64 := by omega
  have hd₃ : (65536 * b₀ + 256 * b₁ + b₂) % 64 = b₂ % 64 := by omega
  unfold base64Group
  simp only [hd₀, hd₁, hd₂, hd₃]

def base16Digits : List Char := "0123456789abcdef".toList

def base16Digit (v : Nat) : Char := base16Digits.getD v '='

def base16 (bytes : List Nat) : List Char :=
  bytes.flatMap fun b => [base16Digit (b / 16), base16Digit (b % 16)]

def base16Value (code : Nat) : Option Nat :=
  if 48 ≤ code ∧ code ≤ 57 then some (code - 48)
  else if 65 ≤ code ∧ code ≤ 70 then some (code - 55)
  else if 97 ≤ code ∧ code ≤ 102 then some (code - 87)
  else none

def ofBase16 : List Nat → Option (List Nat)
  | [] => some []
  | [_] => none
  | c₀ :: c₁ :: rest =>
    (base16Value c₀).bind fun v₀ =>
      (base16Value c₁).bind fun v₁ => (ofBase16 rest).map fun bytes => (16 * v₀ + v₁) :: bytes

-- One byte of a decoder that tells the digits, and the rest, by tests of its own.
theorem ofBase16_cons {c₀ c₁ v₀ v₁ : Nat} {rest bytes : List Nat} {p₀ p₁ p : Prop} [Decidable p₀]
    [Decidable p₁] [Decidable p] (h₀ : base16Value c₀ = if p₀ then some v₀ else none)
    (h₁ : base16Value c₁ = if p₁ then some v₁ else none)
    (h : ofBase16 rest = if p then some bytes else none) :
    ofBase16 (c₀ :: c₁ :: rest) =
      if p₀ ∧ p₁ ∧ p then some ((16 * v₀ + v₁) :: bytes) else none := by
  rw [ofBase16, h₀, h₁, h]
  by_cases hp₀ : p₀
  · by_cases hp₁ : p₁
    · by_cases hp : p
      · simp [hp₀, hp₁, hp]
      · simp [hp]
    · simp [hp₁]
  · simp [hp₀]

theorem base16Value_lt {code v : Nat} (h : base16Value code = some v) : v < 16 := by
  unfold base16Value at h
  split at h
  · cases h
    omega
  · split at h
    · cases h
      omega
    · split at h
      · cases h
        omega
      · cases h

theorem length_of_ofBase16 {codes bytes : List Nat} (h : ofBase16 codes = some bytes) :
    codes.length = 2 * bytes.length := by
  fun_induction ofBase16 codes generalizing bytes with
  | case1 =>
    rw [← Option.some.inj h]
    rfl
  | case2 => cases h
  | case3 c₀ c₁ rest ih =>
    rw [Option.bind_eq_some_iff] at h
    obtain ⟨v₀, -, h⟩ := h
    rw [Option.bind_eq_some_iff] at h
    obtain ⟨v₁, -, h⟩ := h
    rw [Option.map_eq_some_iff] at h
    obtain ⟨bytes', hrest, rfl⟩ := h
    simp only [List.length_cons, ih hrest]
    omega

theorem base16Value_base16Digit {v : Nat} (h : v < 16) :
    base16Value (base16Digit v).toNat = some v := by
  have hall : ∀ n : Fin 16, base16Value (base16Digit n).toNat = some n.val := by decide
  exact hall ⟨v, h⟩

theorem ofBase16_base16 {bytes : List Nat} (h : ∀ b ∈ bytes, b < 256) :
    ofBase16 ((base16 bytes).map Char.toNat) = some bytes := by
  induction bytes with
  | nil => rfl
  | cons b bytes ih =>
    have hb := h b (by simp)
    have hhigh : base16Value (base16Digit (b / 16)).toNat = some (b / 16) :=
      base16Value_base16Digit (by omega)
    have hlow : base16Value (base16Digit (b % 16)).toNat = some (b % 16) :=
      base16Value_base16Digit (by omega)
    have hbyte : 16 * (b / 16) + b % 16 = b := by omega
    show ofBase16 ((base16Digit (b / 16)).toNat :: (base16Digit (b % 16)).toNat ::
      (base16 bytes).map Char.toNat) = _
    rw [ofBase16, hhigh, hlow, ih (fun b' hb' => h b' (by simp [hb'])), Option.bind_some,
      Option.bind_some, Option.map_some, hbyte]

-- A text of an even number of hexadecimal digits denotes bytes, and nothing else does.
theorem ofBase16_isSome_iff {codes : List Nat} {n : Nat} (h : codes.length = 2 * n) :
    (ofBase16 codes).isSome = true ↔ ∀ code ∈ codes, (base16Value code).isSome = true := by
  fun_induction ofBase16 codes generalizing n with
  | case1 => simp
  | case2 c =>
    rw [List.length_singleton] at h
    omega
  | case3 c₀ c₁ rest ih =>
    have hrest : rest.length = 2 * (n - 1) := by
      simp only [List.length_cons] at h
      omega
    rw [List.forall_mem_cons, List.forall_mem_cons, ← ih hrest]
    cases base16Value c₀ with
    | none => simp
    | some v₀ =>
      cases base16Value c₁ with
      | none => simp
      | some v₁ => simp

end Encodings
