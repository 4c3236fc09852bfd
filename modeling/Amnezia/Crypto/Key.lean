import Amnezia.Java.Text
import Mathlib.Tactic.IntervalCases

/-!
# Keys

`Key.java`: 32 bytes and their base64 text.  Both directions are branch-free arithmetic on 32-bit
integers; bytes are sign-extended and characters zero-extended first, as Java promotes them.
-/

namespace Amnezia.Crypto

abbrev Byte := BitVec 8
abbrev CodeUnit := BitVec 16
abbrev Word := BitVec 32

inductive Format where
  | base64 | binary | hex
  deriving DecidableEq, Repr

inductive KeyFormatException.Type where
  | contents | length
  deriving DecidableEq, Repr

structure KeyFormatException where
  format : Format
  type : KeyFormatException.Type
  deriving DecidableEq, Repr

structure Key where
  bytes : List Byte
  length_bytes : bytes.length = 32
  deriving DecidableEq

namespace Key

/-- `((lo - 1 - c) & (c - (hi + 1))) >>> 8 & value`: the value when `c` is between the bounds. -/
def ifBetween (lo hi c value : Word) : Word :=
  ((lo - 1 - c) &&& (c - (hi + 1))) >>> 8 &&& value

/-- The six bits of a character in `decodeBase64`, or a negative number. -/
def decodeChar (c : CodeUnit) : Word :=
  let c : Word := c.setWidth 32
  (-1) + ifBetween 65 90 c (c - 64) + ifBetween 97 122 c (c - 70) + ifBetween 48 57 c (c + 5)
    + ifBetween 43 43 c 63 + ifBetween 47 47 c 64

def decodeBase64 (c₀ c₁ c₂ c₃ : CodeUnit) : Word :=
  decodeChar c₀ <<< 18 ||| decodeChar c₁ <<< 12 ||| decodeChar c₂ <<< 6 ||| decodeChar c₃ <<< 0

def sextets (b₀ b₁ b₂ : Byte) : List Byte :=
  let b₀ : Word := b₀.signExtend 32
  let b₁ : Word := b₁.signExtend 32
  let b₂ : Word := b₂.signExtend 32
  [(b₀ >>> 2 &&& 63).setWidth 8,
   ((b₀ <<< 4 ||| (b₁ &&& 0xff) >>> 4) &&& 63).setWidth 8,
   ((b₁ <<< 2 ||| (b₂ &&& 0xff) >>> 6) &&& 63).setWidth 8,
   (b₂ &&& 63).setWidth 8]

def encodeChar (input : Byte) : CodeUnit :=
  let input : Word := input.signExtend 32
  (input + 65 + ((25 - input) >>> 8 &&& 6) - ((51 - input) >>> 8 &&& 75)
    - ((61 - input) >>> 8 &&& 15) + ((62 - input) >>> 8 &&& 3)).setWidth 16

def encodeBase64 (b₀ b₁ b₂ : Byte) : List CodeUnit := (sextets b₀ b₁ b₂).map encodeChar

/-- `(byte) ((val >>> shift) & 0xff)`. -/
def byteAt (val : Word) (shift : Nat) : Byte := (val >>> shift &&& 0xff).setWidth 8

/-- The loop of `fromBase64` and the end segment after it: the bytes and `ret`. -/
def decodeSegments : List CodeUnit → List Byte × Word
  | [c₀, c₁, c₂, _] =>
    let val := decodeBase64 c₀ c₁ c₂ 65
    ([byteAt val 16, byteAt val 8], val >>> 31 ||| (val &&& 0xff))
  | c₀ :: c₁ :: c₂ :: c₃ :: rest =>
    let val := decodeBase64 c₀ c₁ c₂ c₃
    let (bytes, ret) := decodeSegments rest
    (byteAt val 16 :: byteAt val 8 :: byteAt val 0 :: bytes, val >>> 31 ||| ret)
  | _ => ([], 0)

theorem decodeSegments_last (c₀ c₁ c₂ c₃ : CodeUnit) : decodeSegments [c₀, c₁, c₂, c₃] =
    let val := decodeBase64 c₀ c₁ c₂ 65
    ([byteAt val 16, byteAt val 8], val >>> 31 ||| (val &&& 0xff)) := rfl

theorem decodeSegments_cons (c₀ c₁ c₂ c₃ : CodeUnit) {rest : List CodeUnit} (h : rest ≠ []) :
    decodeSegments (c₀ :: c₁ :: c₂ :: c₃ :: rest) =
      let val := decodeBase64 c₀ c₁ c₂ c₃
      let (bytes, ret) := decodeSegments rest
      (byteAt val 16 :: byteAt val 8 :: byteAt val 0 :: bytes, val >>> 31 ||| ret) :=
  decodeSegments.eq_2 _ _ _ _ _ h

variable {n : Nat}

theorem length_decodeSegments {input : List CodeUnit} (h : input.length = 4 * n + 4) :
    (decodeSegments input).1.length = 3 * n + 2 := by
  induction n generalizing input with
  | zero =>
    match input, h with
    | [c₀, c₁, c₂, c₃], _ => rfl
  | succ n ih =>
    match input, h with
    | c₀ :: c₁ :: c₂ :: c₃ :: rest, h =>
      simp only [List.length_cons] at h
      have hne : rest ≠ [] := by
        intro hnil
        rw [hnil, List.length_nil] at h
        omega
      have hrest := @ih rest (by omega)
      rw [decodeSegments_cons _ _ _ _ hne]
      show (decodeSegments rest).1.length + 3 = _
      omega

def fromBase64 (input : List CodeUnit) : Except KeyFormatException Key :=
  if h : input.length ≠ 44 ∨ input[43]? ≠ some 61 then .error ⟨.base64, .length⟩
  else if (decodeSegments input).2 ≠ 0 then .error ⟨.base64, .contents⟩
  else .ok ⟨(decodeSegments input).1, length_decodeSegments (by omega : _ = 4 * 10 + 4)⟩

def encodeSegments : List Byte → List CodeUnit
  | b₀ :: b₁ :: b₂ :: rest => encodeBase64 b₀ b₁ b₂ ++ encodeSegments rest
  | [b₀, b₁] => (encodeBase64 b₀ b₁ 0).take 3 ++ [61]
  | _ => []

def toBase64 (key : Key) : Java.Text := Java.ofCharArray (encodeSegments key.bytes)

/-- `(char) (87 + n + (((n - 10) >> 8) & ~38))`. -/
def hexChar (n : Word) : CodeUnit :=
  (87 + n + ((n - 10).sshiftRight 8 &&& ~~~38)).setWidth 16

def hexChars (b : Byte) : List CodeUnit :=
  [hexChar ((b.signExtend 32 : Word).sshiftRight 4 &&& 0xf), hexChar (b.signExtend 32 &&& 0xf)]

def toHex (key : Key) : Java.Text := Java.ofCharArray (key.bytes.flatMap hexChars)

theorem decodeChar_encodeChar_of_lt :
    ∀ v : Byte, v < 64 → decodeChar (encodeChar v) = v.setWidth 32 := by
  decide +kernel

theorem and_63_lt (w : Word) : (w &&& 63).toNat < 64 := by
  have hle : w.toNat &&& 63 ≤ 63 := Nat.and_le_right
  show w.toNat &&& 63 < 64
  omega

theorem decodeChar_encodeChar (w : Word) :
    decodeChar (encodeChar ((w &&& 63).setWidth 8)) = w &&& 63 := by
  have hlt := and_63_lt w
  have hmod : (w &&& 63).toNat % 2 ^ 8 = (w &&& 63).toNat := Nat.mod_eq_of_lt (by omega)
  rw [decodeChar_encodeChar_of_lt]
  · apply BitVec.eq_of_toNat_eq
    rw [BitVec.toNat_setWidth, BitVec.toNat_setWidth, hmod]
    exact Nat.mod_eq_of_lt (by omega)
  · rw [BitVec.lt_def, BitVec.toNat_setWidth, hmod]
    exact hlt

def chunk (w₀ w₁ w₂ w₃ : Word) : Word :=
  (w₀ &&& 63) <<< 18 ||| (w₁ &&& 63) <<< 12 ||| (w₂ &&& 63) <<< 6 ||| (w₃ &&& 63) <<< 0

theorem chunk_lt (w₀ w₁ w₂ w₃ : Word) : (chunk w₀ w₁ w₂ w₃).toNat < 2 ^ 24 := by
  have hshift : ∀ (w : Word) (k : Nat), k ≤ 18 → ((w &&& 63) <<< k).toNat < 2 ^ 24 := by
    intro w k hk
    have hlt := and_63_lt w
    have hpow : 2 ^ k ≤ 2 ^ 18 := Nat.pow_le_pow_right (by omega) hk
    have hmul : (w &&& 63).toNat * 2 ^ k ≤ 63 * 2 ^ 18 := Nat.mul_le_mul (by omega) hpow
    rw [BitVec.toNat_shiftLeft, Nat.shiftLeft_eq]
    have hmod := Nat.mod_le ((w &&& 63).toNat * 2 ^ k) (2 ^ 32)
    omega
  unfold chunk
  rw [BitVec.toNat_or, BitVec.toNat_or, BitVec.toNat_or]
  exact Nat.or_lt_two_pow (Nat.or_lt_two_pow (Nat.or_lt_two_pow (hshift w₀ 18 (by omega))
    (hshift w₁ 12 (by omega))) (hshift w₂ 6 (by omega))) (hshift w₃ 0 (by omega))

theorem chunk_sign (w₀ w₁ w₂ w₃ : Word) : chunk w₀ w₁ w₂ w₃ >>> 31 = 0 := by
  have hlt := chunk_lt w₀ w₁ w₂ w₃
  apply BitVec.eq_of_toNat_eq
  rw [BitVec.toNat_ushiftRight, Nat.shiftRight_eq_div_pow]
  show (chunk w₀ w₁ w₂ w₃).toNat / 2 ^ 31 = 0
  omega

section Chunk

variable (b₀ b₁ b₂ : Byte)

def chunkOf : Word :=
  chunk (b₀.signExtend 32 >>> 2) (b₀.signExtend 32 <<< 4 ||| (b₁.signExtend 32 &&& 0xff) >>> 4)
    (b₁.signExtend 32 <<< 2 ||| (b₂.signExtend 32 &&& 0xff) >>> 6) (b₂.signExtend 32)

theorem byteAt_chunkOf_16 : byteAt (chunkOf b₀ b₁ b₂) 16 = b₀ := by
  unfold byteAt chunkOf chunk
  ext i hi
  rw [BitVec.getElem_setWidth]
  interval_cases i <;> simp [BitVec.getElem_signExtend]

theorem byteAt_chunkOf_8 : byteAt (chunkOf b₀ b₁ b₂) 8 = b₁ := by
  unfold byteAt chunkOf chunk
  ext i hi
  rw [BitVec.getElem_setWidth]
  interval_cases i <;> simp [BitVec.getElem_signExtend]

theorem byteAt_chunkOf_0 : byteAt (chunkOf b₀ b₁ b₂) 0 = b₂ := by
  unfold byteAt chunkOf chunk
  ext i hi
  rw [BitVec.getElem_setWidth]
  interval_cases i <;> simp [BitVec.getElem_signExtend]

theorem chunkOf_zero_and : chunkOf b₀ b₁ 0 &&& 0xff = 0 := by
  have hbyte := byteAt_chunkOf_0 b₀ b₁ 0
  unfold byteAt at hbyte
  have hnat := congrArg BitVec.toNat hbyte
  rw [BitVec.toNat_setWidth, BitVec.ushiftRight_zero] at hnat
  have hle : (chunkOf b₀ b₁ 0 &&& 0xff).toNat ≤ 255 := Nat.and_le_right
  apply BitVec.eq_of_toNat_eq
  show (chunkOf b₀ b₁ 0 &&& 0xff).toNat = 0
  have hmod : (chunkOf b₀ b₁ 0 &&& 0xff).toNat % 2 ^ 8 = (chunkOf b₀ b₁ 0 &&& 0xff).toNat :=
    Nat.mod_eq_of_lt (by omega)
  rw [← hmod, hnat]
  rfl

theorem encodeBase64_spec : ∃ c₀ c₁ c₂ c₃, encodeBase64 b₀ b₁ b₂ = [c₀, c₁, c₂, c₃] ∧
    decodeBase64 c₀ c₁ c₂ c₃ = chunkOf b₀ b₁ b₂ := by
  refine ⟨_, _, _, _, rfl, ?_⟩
  unfold decodeBase64
  rw [decodeChar_encodeChar, decodeChar_encodeChar, decodeChar_encodeChar, decodeChar_encodeChar]
  rfl

theorem encodeBase64_end : ∃ c₀ c₁ c₂, (encodeBase64 b₀ b₁ 0).take 3 = [c₀, c₁, c₂] ∧
    decodeBase64 c₀ c₁ c₂ 65 = chunkOf b₀ b₁ 0 := by
  obtain ⟨c₀, c₁, c₂, c₃, heq, hval⟩ := encodeBase64_spec b₀ b₁ 0
  have hlast : c₃ = 65 := by
    have hc₃ : (encodeBase64 b₀ b₁ 0)[3]? = some c₃ := by rw [heq]; rfl
    exact (Option.some.inj hc₃).symm.trans (by decide)
  refine ⟨c₀, c₁, c₂, by rw [heq]; rfl, ?_⟩
  rw [← hlast]
  exact hval

end Chunk

variable {bytes : List Byte}

theorem encodeSegments_ne_nil (h : 2 ≤ bytes.length) : encodeSegments bytes ≠ [] := by
  match bytes, h with
  | [b₀, b₁], _ => simp [encodeSegments]
  | b₀ :: b₁ :: b₂ :: rest, _ =>
    obtain ⟨c₀, c₁, c₂, c₃, heq, -⟩ := encodeBase64_spec b₀ b₁ b₂
    simp [encodeSegments, heq]

theorem decodeSegments_encodeSegments (h : bytes.length = 3 * n + 2) :
    decodeSegments (encodeSegments bytes) = (bytes, 0) := by
  induction n generalizing bytes with
  | zero =>
    match bytes, h with
    | [b₀, b₁], _ =>
      obtain ⟨c₀, c₁, c₂, heq, hval⟩ := encodeBase64_end b₀ b₁
      rw [encodeSegments, heq]
      show decodeSegments [c₀, c₁, c₂, 61] = _
      simp only [decodeSegments, hval, byteAt_chunkOf_16, byteAt_chunkOf_8, chunkOf_zero_and]
      rw [chunkOf, chunk_sign]
      rfl
  | succ n ih =>
    match bytes, h with
    | b₀ :: b₁ :: b₂ :: rest, h =>
      have hrest : rest.length = 3 * n + 2 := by
        simp only [List.length_cons] at h
        omega
      obtain ⟨c₀, c₁, c₂, c₃, heq, hval⟩ := encodeBase64_spec b₀ b₁ b₂
      have hne : encodeSegments rest ≠ [] := encodeSegments_ne_nil (by omega)
      rw [encodeSegments, heq]
      show decodeSegments (c₀ :: c₁ :: c₂ :: c₃ :: encodeSegments rest) = _
      rw [decodeSegments_cons _ _ _ _ hne, ih hrest, hval]
      simp only [byteAt_chunkOf_16, byteAt_chunkOf_8, byteAt_chunkOf_0]
      rw [chunkOf, chunk_sign]
      rfl

theorem length_encodeSegments (h : bytes.length = 3 * n + 2) :
    (encodeSegments bytes).length = 4 * n + 4 := by
  induction n generalizing bytes with
  | zero =>
    match bytes, h with
    | [b₀, b₁], _ => rfl
  | succ n ih =>
    match bytes, h with
    | b₀ :: b₁ :: b₂ :: rest, h =>
      have hrest := @ih rest (by simp only [List.length_cons] at h; omega)
      obtain ⟨c₀, c₁, c₂, c₃, heq, -⟩ := encodeBase64_spec b₀ b₁ b₂
      rw [encodeSegments, heq, List.length_append, hrest]
      show 4 + (4 * n + 4) = 4 * (n + 1) + 4
      omega

theorem getLast_encodeSegments (h : bytes.length = 3 * n + 2) :
    (encodeSegments bytes).getLast? = some 61 := by
  induction n generalizing bytes with
  | zero =>
    match bytes, h with
    | [b₀, b₁], _ => rfl
  | succ n ih =>
    match bytes, h with
    | b₀ :: b₁ :: b₂ :: rest, h =>
      have hrest := @ih rest (by simp only [List.length_cons] at h; omega)
      rw [encodeSegments, List.getLast?_append, hrest]
      rfl

def base64Char (c : Char) : Bool := c.isAlphanum || c == '+' || c == '/' || c == '='

theorem encodeChar_base64 : ∀ v : Byte, v < 64 →
    (encodeChar v).toNat < 128 ∧ base64Char (Char.ofNat (encodeChar v).toNat) = true := by
  decide +kernel

theorem mem_encodeBase64 {b₀ b₁ b₂ : Byte} {u : CodeUnit} (h : u ∈ encodeBase64 b₀ b₁ b₂) :
    u.toNat < 128 ∧ base64Char (Char.ofNat u.toNat) = true := by
  have hmask : ∀ w : Word, (w &&& 63).setWidth 8 < (64 : Byte) := by
    intro w
    have hlt := and_63_lt w
    rw [BitVec.lt_def, BitVec.toNat_setWidth]
    show (w &&& 63).toNat % 256 < 64
    omega
  simp only [encodeBase64, sextets, List.map_cons, List.map_nil, List.mem_cons, List.not_mem_nil,
    or_false] at h
  rcases h with rfl | rfl | rfl | rfl <;> exact encodeChar_base64 _ (hmask _)

theorem mem_encodeSegments {u : CodeUnit} (h : u ∈ encodeSegments bytes) :
    u.toNat < 128 ∧ base64Char (Char.ofNat u.toNat) = true := by
  fun_induction encodeSegments bytes with
  | case1 b₀ b₁ b₂ rest ih =>
    rcases List.mem_append.1 h with h | h
    · exact mem_encodeBase64 h
    · exact ih h
  | case2 b₀ b₁ =>
    rcases List.mem_append.1 h with h | h
    · exact mem_encodeBase64 (List.mem_of_mem_take h)
    · rw [List.mem_singleton.1 h]
      decide
  | case3 => simp at h

theorem base64Char_of_mem_toBase64 {key : Key} {c : Char} (h : c ∈ key.toBase64) :
    base64Char c = true := by
  obtain ⟨u, hu, rfl⟩ := List.mem_map.1 h
  exact (mem_encodeSegments hu).2

theorem toNat_lt_of_mem_toBase64 {key : Key} {c : Char} (h : c ∈ key.toBase64) : c.toNat < 128 := by
  obtain ⟨u, hu, rfl⟩ := List.mem_map.1 h
  have hlt := (mem_encodeSegments hu).1
  rwa [Java.toNat_ofNat_of_lt hlt]

theorem length_toBase64 (key : Key) : key.toBase64.length = 44 := by
  unfold toBase64 Java.ofCharArray
  rw [List.length_map, length_encodeSegments (n := 10) key.length_bytes]

theorem fromBase64_toBase64 (key : Key) : fromBase64 (Java.toCharArray key.toBase64) = .ok key := by
  have hlen := length_encodeSegments (n := 10) key.length_bytes
  have hlast := getLast_encodeSegments (n := 10) key.length_bytes
  have hdec := decodeSegments_encodeSegments (n := 10) key.length_bytes
  unfold toBase64
  rw [Java.toCharArray_ofCharArray (fun u hu => (mem_encodeSegments hu).1)]
  rw [List.getLast?_eq_getElem?, hlen] at hlast
  unfold fromBase64
  rw [dif_neg (by rw [not_or, not_not, not_not]; exact ⟨hlen, hlast⟩), if_neg (by rw [hdec]; simp)]
  congr
  rw [hdec]

end Key

end Amnezia.Crypto
