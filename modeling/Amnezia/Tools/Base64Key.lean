import Amnezia.Tools.Encoding

/-!
# Printing a key

`key_to_base64` of `encoding.c`, and that the app prints the same.
-/

namespace Amnezia.Tools

open Crypto (Key Byte Word)
open Libc (Bytes)

def encodeInput (s₀ s₁ s₂ : Byte) : List Byte :=
  let s₀ : Word := s₀.setWidth 32
  let s₁ : Word := s₁.setWidth 32
  let s₂ : Word := s₂.setWidth 32
  [(s₀.sshiftRight 2 &&& 63).setWidth 8,
   ((s₀ <<< 4 ||| s₁.sshiftRight 4) &&& 63).setWidth 8,
   ((s₁ <<< 2 ||| s₂.sshiftRight 6) &&& 63).setWidth 8,
   (s₂ &&& 63).setWidth 8]

def encodeChar (input : Byte) : Char :=
  let input : Word := input.setWidth 32
  Char.ofNat ((input + 65 + ((25 - input).sshiftRight 8 &&& 6) - ((51 - input).sshiftRight 8 &&& 75)
    - ((61 - input).sshiftRight 8 &&& 15) + ((62 - input).sshiftRight 8 &&& 3)).setWidth 8).toNat

def encodeBase64 (s₀ s₁ s₂ : Byte) : Bytes := (encodeInput s₀ s₁ s₂).map encodeChar

def encodeSegments : List Byte → Bytes
  | b₀ :: b₁ :: b₂ :: rest => encodeBase64 b₀ b₁ b₂ ++ encodeSegments rest
  | [b₀, b₁] => (encodeBase64 b₀ b₁ 0).take 3 ++ ['=']
  | _ => []

def keyToBase64 (key : Key) : Bytes := encodeSegments key.bytes

theorem encodeInput_eq (b₀ b₁ b₂ : Byte) : encodeInput b₀ b₁ b₂ = Key.sextets b₀ b₁ b₂ := by
  have hfirst : ∀ b : Byte, (b.setWidth 32 : Word).sshiftRight 2 &&& (63 : Word) = b.signExtend 32 >>> 2 &&& 63 := by
    decide +kernel
  have hlow₄ : ∀ b : Byte, (b.setWidth 32 : Word) <<< 4 &&& (63 : Word) = b.signExtend 32 <<< 4 &&& 63 := by
    decide +kernel
  have hhigh₄ : ∀ b : Byte, (b.setWidth 32 : Word).sshiftRight 4 &&& (63 : Word) =
      (b.signExtend 32 &&& 0xff) >>> 4 &&& 63 := by
    decide +kernel
  have hlow₂ : ∀ b : Byte, (b.setWidth 32 : Word) <<< 2 &&& (63 : Word) = b.signExtend 32 <<< 2 &&& 63 := by
    decide +kernel
  have hhigh₆ : ∀ b : Byte, (b.setWidth 32 : Word).sshiftRight 6 &&& (63 : Word) =
      (b.signExtend 32 &&& 0xff) >>> 6 &&& 63 := by
    decide +kernel
  have hlast : ∀ b : Byte, (b.setWidth 32 : Word) &&& 63 = b.signExtend 32 &&& 63 := by
    decide +kernel
  have hor : ∀ v w : Word, (v ||| w) &&& 63 = (v &&& 63) ||| (w &&& 63) :=
    fun v w => BitVec.and_or_distrib_right ..
  unfold encodeInput Key.sextets
  simp only [hor, hfirst, hlow₄, hhigh₄, hlow₂, hhigh₆, hlast]

theorem encodeChar_eq (w : Word) : encodeChar ((w &&& 63).setWidth 8) =
    Char.ofNat (Key.encodeChar ((w &&& 63).setWidth 8)).toNat := by
  have hall : ∀ v : Byte, v < 64 → encodeChar v = Char.ofNat (Key.encodeChar v).toNat := by
    decide +kernel
  apply hall
  have hlt := Key.and_63_lt w
  rw [BitVec.lt_def, BitVec.toNat_setWidth, Nat.mod_eq_of_lt (by omega)]
  exact hlt

theorem encodeBase64_eq (b₀ b₁ b₂ : Byte) :
    encodeBase64 b₀ b₁ b₂ = Java.ofCharArray (Key.encodeBase64 b₀ b₁ b₂) := by
  unfold encodeBase64 Key.encodeBase64 Java.ofCharArray
  rw [encodeInput_eq]
  unfold Key.sextets
  simp only [List.map_cons, List.map_nil, encodeChar_eq]

theorem encodeSegments_eq (bytes : List Byte) :
    encodeSegments bytes = Java.ofCharArray (Key.encodeSegments bytes) := by
  fun_induction Key.encodeSegments bytes with
  | case1 b₀ b₁ b₂ rest ih =>
    rw [encodeSegments, encodeBase64_eq, ih]
    exact List.map_append.symm
  | case2 b₀ b₁ =>
    rw [encodeSegments, encodeBase64_eq]
    unfold Java.ofCharArray
    rw [List.map_append, List.map_take]
    rfl
  | case3 bytes h₁ h₂ =>
    rw [encodeSegments]
    · rfl
    · exact h₁
    · exact h₂

theorem keyToBase64_eq (key : Key) : keyToBase64 key = key.toBase64 := encodeSegments_eq key.bytes

end Amnezia.Tools
