import Amnezia.Tools.Config

/-!
# Hexadecimal keys

`key_to_hex`, `key_from_hex` and `key_is_zero` of `encoding.c`.  A `uint8_t` is promoted to 32 bits
before each operation and cut back when it is stored.
-/

namespace Amnezia.Tools

open Crypto (Key Byte Word)
open Libc (Bytes)

/-- `87U + n + (((n - 10U) >> 8) & ~38U)`, as a `char`. -/
def hexDigit (n : Word) : Char :=
  Char.ofNat ((87 + n + ((n - 10) >>> 8 &&& ~~~38)).setWidth 8).toNat

def hexDigits (b : Byte) : Bytes := [hexDigit (b.setWidth 32 >>> 4), hexDigit (b.setWidth 32 &&& 0xf)]

def keyToHex (key : Key) : Bytes := key.bytes.flatMap hexDigits

/-- What `key_from_hex` does with one character: `c_val`, and what goes into `ret`. -/
def hexValue (c : Char) : Byte × Byte :=
  let c : Word := (Libc.code c).setWidth 32
  let cNum : Byte := (c ^^^ 48).setWidth 8
  let cNum0 : Byte := ((cNum.setWidth 32 - 10 : Word) >>> 8).setWidth 8
  let cAlpha : Byte := ((c &&& ~~~32) - 55).setWidth 8
  let cAlpha0 : Byte :=
    (((cAlpha.setWidth 32 - 10 : Word) ^^^ (cAlpha.setWidth 32 - 16)) >>> 8).setWidth 8
  ((cNum0 &&& cNum) ||| (cAlpha0 &&& cAlpha),
    (((cNum0 ||| cAlpha0).setWidth 32 - 1 : Word).sshiftRight 8).setWidth 8)

def decodeHex : Bytes → List Byte × Byte
  | c₀ :: c₁ :: rest =>
    let (bytes, ret) := decodeHex rest
    (((hexValue c₀).1 * 16 ||| (hexValue c₁).1) :: bytes, (hexValue c₀).2 ||| (hexValue c₁).2 ||| ret)
  | _ => ([], 0)

theorem length_decodeHex {s : Bytes} {n : Nat} (h : s.length = 2 * n) :
    (decodeHex s).1.length = n := by
  induction n generalizing s with
  | zero =>
    rw [List.length_eq_zero_iff.1 h]
    rfl
  | succ n ih =>
    match s, h with
    | c₀ :: c₁ :: rest, h =>
      simp only [List.length_cons] at h
      show (decodeHex rest).1.length + 1 = _
      rw [ih (by omega)]

def keyFromHex (hex : Bytes) : Option Key :=
  if h : hex.length ≠ 64 then none
  else if accepted (decodeHex hex).2 then
    some ⟨(decodeHex hex).1, length_decodeHex (by omega : _ = 2 * 32)⟩
  else none

def keyIsZero (key : Key) : Bool := accepted (key.bytes.foldl (· ||| ·) 0)

theorem hexValue_hexDigits : ∀ b : Byte, (hexDigits b).map hexValue =
    [((b >>> 4) , 0), (b &&& 0xf, 0)] := by
  decide +kernel

theorem byte_of_nibbles : ∀ b : Byte, (b >>> 4) * 16 ||| (b &&& 0xf) = b := by
  decide +kernel

theorem decodeHex_hexDigits (b : Byte) (rest : Bytes) :
    decodeHex (hexDigits b ++ rest) = (b :: (decodeHex rest).1, (decodeHex rest).2) := by
  have hvalues := hexValue_hexDigits b
  simp only [hexDigits, List.map_cons, List.map_nil, List.cons.injEq, and_true] at hvalues
  show (((hexValue _).1 * 16 ||| (hexValue _).1) :: (decodeHex rest).1,
    (hexValue _).2 ||| (hexValue _).2 ||| (decodeHex rest).2) = _
  have hzero : ∀ ret : Byte, 0 ||| 0 ||| ret = ret := fun ret => BitVec.zero_or
  rw [hvalues.1, hvalues.2, byte_of_nibbles, hzero]

theorem decodeHex_flatMap (bytes : List Byte) :
    decodeHex (bytes.flatMap hexDigits) = (bytes, 0) := by
  induction bytes with
  | nil => rfl
  | cons b bytes ih => rw [List.flatMap_cons, decodeHex_hexDigits, ih]

theorem length_flatMap_hexDigits (bytes : List Byte) :
    (bytes.flatMap hexDigits).length = 2 * bytes.length := by
  induction bytes with
  | nil => rfl
  | cons b bytes ih =>
    rw [List.flatMap_cons, List.length_append, ih, List.length_cons]
    show 2 + 2 * bytes.length = _
    omega

theorem keyFromHex_keyToHex (key : Key) : keyFromHex (keyToHex key) = some key := by
  have hlength : (keyToHex key).length = 64 := by
    rw [keyToHex, length_flatMap_hexDigits, key.length_bytes]
  have hdecode : decodeHex (keyToHex key) = (key.bytes, 0) := decodeHex_flatMap key.bytes
  unfold keyFromHex
  rw [dif_neg (not_not.2 hlength)]
  simp only [hdecode]
  rfl

theorem isAlphanum_hexDigits : ∀ b : Byte, (hexDigits b).all Char.isAlphanum = true := by
  decide +kernel

theorem isAlphanum_keyToHex {key : Key} {c : Char} (h : c ∈ keyToHex key) : c.isAlphanum = true := by
  obtain ⟨b, _, hb⟩ := List.mem_flatMap.1 h
  exact List.all_eq_true.1 (isAlphanum_hexDigits b) c hb

theorem foldl_or_eq_zero (bytes : List Byte) (a : Byte) :
    bytes.foldl (· ||| ·) a = 0 ↔ a = 0 ∧ ∀ b ∈ bytes, b = 0 := by
  induction bytes generalizing a with
  | nil => simp
  | cons b bytes ih =>
    have hor : a ||| b = 0 ↔ a = 0 ∧ b = 0 := BitVec.or_eq_zero_iff
    rw [List.foldl_cons, ih, hor, List.forall_mem_cons, and_assoc]

theorem keyIsZero_iff {key : Key} : keyIsZero key = true ↔ key = zeroKey := by
  unfold keyIsZero
  rw [accepted_iff, foldl_or_eq_zero]
  constructor
  · intro h
    obtain ⟨bytes, hlength⟩ := key
    have hbytes : bytes = List.replicate 32 0 := List.eq_replicate_iff.2 ⟨hlength, h.2⟩
    subst hbytes
    rfl
  · rintro rfl
    exact ⟨rfl, fun b hb => List.eq_of_mem_replicate hb⟩

theorem hexChars_eq : ∀ b : Byte, Java.ofCharArray (Key.hexChars b) = hexDigits b := by
  decide +kernel

theorem toHex_eq (key : Key) : key.toHex = keyToHex key := by
  unfold Key.toHex keyToHex
  induction key.bytes with
  | nil => rfl
  | cons b bytes ih =>
    rw [List.flatMap_cons, List.flatMap_cons, ← hexChars_eq, ← ih]
    exact List.map_append

end Amnezia.Tools
