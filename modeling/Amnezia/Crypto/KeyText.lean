import Amnezia.Lib.Encodings
import Amnezia.Crypto.Key

/-!
# The texts of a key

`Key.fromHex`, and both texts of a key against the standard encodings.  `decodeBase64` and `fromHex`
are written for characters of one byte; a `char` of Java has two.
-/

namespace Amnezia.Crypto.Key

open Encodings

def values (key : Key) : List Nat := key.bytes.map BitVec.toNat

theorem values_inj {k₁ k₂ : Key} (h : k₁.values = k₂.values) : k₁ = k₂ := by
  obtain ⟨bytes₁, h₁⟩ := k₁
  obtain ⟨bytes₂, h₂⟩ := k₂
  have hbytes : bytes₁ = bytes₂ := List.map_injective_iff.2 (fun _ _ => BitVec.eq_of_toNat_eq) h
  subst hbytes
  rfl

def hexValue (c : CodeUnit) : Word × Word :=
  let c : Word := c.setWidth 32
  let cNum := c ^^^ 48
  let cNum0 := (cNum - 10) >>> 8 &&& 0xff
  let cAlpha := (c &&& ~~~32) - 55
  let cAlpha0 := ((cAlpha - 10) ^^^ (cAlpha - 16)) >>> 8 &&& 0xff
  ((cNum0 &&& cNum) ||| (cAlpha0 &&& cAlpha), ((cNum0 ||| cAlpha0) - 1) >>> 8)

def decodeHex : List CodeUnit → List Byte × Word
  | c₀ :: c₁ :: rest =>
    let (bytes, ret) := decodeHex rest
    (((hexValue c₀).1 * 16 ||| (hexValue c₁).1).setWidth 8 :: bytes,
      (hexValue c₀).2 ||| (hexValue c₁).2 ||| ret)
  | _ => ([], 0)

variable {input : List CodeUnit} {n : Nat}

theorem length_decodeHex (h : input.length = 2 * n) : (decodeHex input).1.length = n := by
  induction n generalizing input with
  | zero =>
    rw [List.length_eq_zero_iff.1 h]
    rfl
  | succ n ih =>
    match input, h with
    | c₀ :: c₁ :: rest, h =>
      simp only [List.length_cons] at h
      show (decodeHex rest).1.length + 1 = _
      rw [ih (by omega)]

def fromHex (input : List CodeUnit) : Except KeyFormatException Key :=
  if h : input.length ≠ 64 then .error ⟨.hex, .length⟩
  else if (decodeHex input).2 ≠ 0 then .error ⟨.hex, .contents⟩
  else .ok ⟨(decodeHex input).1, length_decodeHex (by omega : _ = 2 * 32)⟩

variable {u : CodeUnit}

theorem forall_unit {P : CodeUnit → Prop} (h : ∀ n : Fin 256, P (BitVec.ofNat 16 n))
    (hu : u.toNat < 256) : P u := by
  have hn := h ⟨u.toNat, hu⟩
  rwa [BitVec.ofNat_toNat, BitVec.setWidth_eq] at hn

-- On one byte the masks of `fromHex` tell a hexadecimal digit and give its value, and a character
-- that `decodeBase64` decodes at all is the one its six bits are encoded as.
theorem decoded_of_lt (hu : u.toNat < 256) :
    (base16Value u.toNat =
      if (hexValue u).2 = 0 then some (hexValue u).1.toNat else none) ∧
    (decodeChar u ≠ -1 → encodeChar ((decodeChar u &&& 63).setWidth 8) = u ∧
      decodeChar u &&& 63 = decodeChar u) :=
  forall_unit (P := fun u => (base16Value u.toNat =
      if (hexValue u).2 = 0 then some (hexValue u).1.toNat else none) ∧
    (decodeChar u ≠ -1 → encodeChar ((decodeChar u &&& 63).setWidth 8) = u ∧
      decodeChar u &&& 63 = decodeChar u)) (by decide +kernel) hu

-- The two parts of a byte have no bit in common.
theorem toNat_parts {i j : Nat} (k : Nat) (hj : j < 2 ^ k) (h : i * 2 ^ k + j < 256) :
    ((BitVec.ofNat 32 (i * 2 ^ k) ||| BitVec.ofNat 32 j).setWidth 8).toNat = i * 2 ^ k + j := by
  have hhigh : (BitVec.ofNat 32 (i * 2 ^ k)).toNat = i <<< k := by
    rw [BitVec.toNat_ofNat, Nat.shiftLeft_eq]
    exact Nat.mod_eq_of_lt (by omega)
  have hlow : (BitVec.ofNat 32 j).toNat = j := by
    rw [BitVec.toNat_ofNat]
    exact Nat.mod_eq_of_lt (by omega)
  rw [BitVec.toNat_setWidth, BitVec.toNat_or, hhigh, hlow, ← Nat.shiftLeft_add_eq_or_of_lt hj,
    Nat.shiftLeft_eq]
  exact Nat.mod_eq_of_lt h

theorem toNat_nibbles {v₀ v₁ : Word} (h₀ : v₀.toNat < 16) (h₁ : v₁.toNat < 16) :
    ((v₀ * 16 ||| v₁).setWidth 8).toNat = v₀.toNat * 16 + v₁.toNat := by
  have hparts := toNat_parts (i := v₀.toNat) (j := v₁.toNat) 4 h₁ (by omega)
  rwa [BitVec.ofNat_mul, BitVec.ofNat_toNat, BitVec.ofNat_toNat, BitVec.setWidth_eq,
    BitVec.setWidth_eq] at hparts

theorem decodeHex_ret (c₀ c₁ : CodeUnit) (rest : List CodeUnit) :
    (decodeHex (c₀ :: c₁ :: rest)).2 = 0 ↔
      (hexValue c₀).2 = 0 ∧ (hexValue c₁).2 = 0 ∧ (decodeHex rest).2 = 0 := by
  show (hexValue c₀).2 ||| (hexValue c₁).2 ||| (decodeHex rest).2 = 0#32 ↔ _
  rw [BitVec.or_eq_zero_iff, BitVec.or_eq_zero_iff, and_assoc]
  rfl

theorem decodeHex_ret_iff (h : input.length = 2 * n) :
    (decodeHex input).2 = 0 ↔ ∀ u ∈ input, (hexValue u).2 = 0 := by
  induction n generalizing input with
  | zero =>
    rw [List.length_eq_zero_iff.1 h]
    exact iff_of_true rfl (by simp)
  | succ n ih =>
    match input, h with
    | c₀ :: c₁ :: rest, h =>
      simp only [List.length_cons] at h
      rw [decodeHex_ret, @ih rest (by omega)]
      simp only [List.forall_mem_cons]

theorem fromHex_accepts_iff : (∃ key, fromHex input = .ok key) ↔
    input.length = 64 ∧ ∀ u ∈ input, (hexValue u).2 = 0 := by
  unfold fromHex
  by_cases hlength : input.length = 64
  · rw [← decodeHex_ret_iff (n := 32) hlength, dif_neg (not_not.2 hlength)]
    by_cases hret : (decodeHex input).2 = 0
    · rw [if_neg (not_not.2 hret)]
      exact iff_of_true ⟨_, rfl⟩ ⟨hlength, hret⟩
    · rw [if_pos hret]
      exact iff_of_false (fun ⟨_, h⟩ => nomatch h) fun h => hret h.2
  · rw [dif_pos hlength]
    exact iff_of_false (fun ⟨_, h⟩ => nomatch h) fun h => hlength h.1

/-- Of characters of one byte `fromHex` accepts the hexadecimal texts, and reads what they denote. -/
theorem ofBase16_eq (hbytes : ∀ u ∈ input, u.toNat < 256) (h : input.length = 2 * n) :
    ofBase16 (input.map BitVec.toNat) =
      if (decodeHex input).2 = 0 then some ((decodeHex input).1.map BitVec.toNat) else none := by
  induction n generalizing input with
  | zero =>
    rw [List.length_eq_zero_iff.1 h]
    rfl
  | succ n ih =>
    match input, h with
    | c₀ :: c₁ :: rest, h =>
      simp only [List.length_cons] at h
      have hrest := @ih rest (fun u hu => hbytes u (by simp [hu])) (by omega)
      have hc₀ := (decoded_of_lt (hbytes c₀ (by simp))).1
      have hc₁ := (decoded_of_lt (hbytes c₁ (by simp))).1
      have hret := decodeHex_ret c₀ c₁ rest
      rw [List.map_cons, List.map_cons, ofBase16_cons hc₀ hc₁ hrest]
      by_cases hzero : (decodeHex (c₀ :: c₁ :: rest)).2 = 0
      · obtain ⟨h₀, h₁, -⟩ := hret.1 hzero
        rw [if_pos hzero, if_pos (hret.1 hzero)]
        rw [if_pos h₀] at hc₀
        rw [if_pos h₁] at hc₁
        show _ = some (((_ : Word).setWidth 8).toNat :: _)
        rw [toNat_nibbles (base16Value_lt hc₀) (base16Value_lt hc₁), Nat.mul_comm 16]
      · rw [if_neg hzero, if_neg (hret.not.1 hzero)]

variable {key : Key}

theorem fromHex_ok_iff (hbytes : ∀ u ∈ input, u.toNat < 256) :
    fromHex input = .ok key ↔ ofBase16 (input.map BitVec.toNat) = some key.values := by
  unfold fromHex
  by_cases hlength : input.length = 64
  · have hspec := ofBase16_eq (n := 32) hbytes hlength
    rw [dif_neg (not_not.2 hlength), hspec]
    by_cases hret : (decodeHex input).2 = 0
    · rw [if_neg (not_not.2 hret), if_pos hret]
      constructor
      · intro hok
        rw [← Except.ok.inj hok]
        rfl
      · intro hvalues
        congr 1
        exact values_inj (Option.some.inj hvalues)
    · rw [if_pos hret, if_neg hret]
      exact ⟨nofun, nofun⟩
  · rw [dif_pos hlength]
    constructor
    · nofun
    · intro hvalues
      have hcodes := length_of_ofBase16 hvalues
      rw [List.length_map, values, List.length_map, key.length_bytes] at hcodes
      exact absurd hcodes hlength

/-- The parts of one byte that `encodeBase64` shifts and masks out, and its two characters in
`toHex`. -/
theorem byte_parts : ∀ b : Byte,
    ((b.signExtend 32 >>> 2 &&& (63 : Word)).setWidth 8).toNat = b.toNat / 4 ∧
    b.signExtend 32 <<< 4 &&& (63 : Word) = BitVec.ofNat 32 (b.toNat % 4 * 16) ∧
    (b.signExtend 32 &&& (0xff : Word)) >>> 4 &&& (63 : Word) = BitVec.ofNat 32 (b.toNat / 16) ∧
    b.signExtend 32 <<< 2 &&& (63 : Word) = BitVec.ofNat 32 (b.toNat % 16 * 4) ∧
    (b.signExtend 32 &&& (0xff : Word)) >>> 6 &&& (63 : Word) = BitVec.ofNat 32 (b.toNat / 64) ∧
    ((b.signExtend 32 &&& (63 : Word)).setWidth 8).toNat = b.toNat % 64 ∧
    Java.ofCharArray (hexChars b) =
      [base16Digit (b.toNat / 16), base16Digit (b.toNat % 16)] ∧
    (hexChars b).all (fun u => u.toNat < 128) = true := by
  decide +kernel

theorem sextets_toNat (b₀ b₁ b₂ : Byte) : (sextets b₀ b₁ b₂).map BitVec.toNat =
    [b₀.toNat / 4, b₀.toNat % 4 * 16 + b₁.toNat / 16, b₁.toNat % 16 * 4 + b₂.toNat / 64,
      b₂.toNat % 64] := by
  obtain ⟨hfirst, hlow₄, -⟩ := byte_parts b₀
  obtain ⟨-, -, hhigh₄, hlow₂, -⟩ := byte_parts b₁
  obtain ⟨-, -, -, -, hhigh₆, hlast, -⟩ := byte_parts b₂
  have hor : ∀ v w : Word, (v ||| w) &&& 63 = (v &&& 63) ||| (w &&& 63) :=
    fun v w => BitVec.and_or_distrib_right ..
  have hsecond := toNat_parts (i := b₀.toNat % 4) (j := b₁.toNat / 16) 4 (by omega) (by omega)
  have hthird := toNat_parts (i := b₁.toNat % 16) (j := b₂.toNat / 64) 2 (by omega) (by omega)
  unfold sextets
  simp only [List.map_cons, List.map_nil, hor, hfirst, hlow₄, hhigh₄, hlow₂, hhigh₆, hlast]
  exact congrArg₂ (fun m n => [b₀.toNat / 4, m, n, b₂.toNat % 64]) hsecond hthird

theorem mem_sextets_lt {b₀ b₁ b₂ v : Byte} (h : v ∈ sextets b₀ b₁ b₂) : v < 64 := by
  have hmem : v.toNat ∈ (sextets b₀ b₁ b₂).map BitVec.toNat := List.mem_map_of_mem h
  rw [sextets_toNat] at hmem
  simp only [List.mem_cons, List.not_mem_nil, or_false] at hmem
  rw [BitVec.lt_def]
  show v.toNat < 64
  omega

theorem encodeChar_digit : ∀ v : Byte, v < 64 →
    Char.ofNat (encodeChar v).toNat = base64Digit v.toNat ∧
      encodeChar v ∈ Java.toCharArray base64Digits := by
  decide +kernel

theorem encodeBase64_group (b₀ b₁ b₂ : Byte) : Java.ofCharArray (encodeBase64 b₀ b₁ b₂) =
    base64Group b₀.toNat b₁.toNat b₂.toNat := by
  rw [base64Group_eq b₁.isLt b₂.isLt, ← sextets_toNat]
  unfold Java.ofCharArray encodeBase64
  rw [List.map_map, List.map_map]
  apply List.map_congr_left
  intro v hv
  exact (encodeChar_digit v (mem_sextets_lt hv)).1

theorem encodeSegments_base64 {bytes : List Byte} (h : bytes.length = 3 * n + 2) :
    Java.ofCharArray (encodeSegments bytes) = base64 (bytes.map BitVec.toNat) := by
  induction n generalizing bytes with
  | zero =>
    match bytes, h with
    | [b₀, b₁], _ =>
      have hgroup := congrArg (List.take 3) (encodeBase64_group b₀ b₁ 0)
      show Java.ofCharArray ((encodeBase64 b₀ b₁ 0).take 3 ++ [61]) =
        (base64Group b₀.toNat b₁.toNat 0).take 3 ++ ['=']
      unfold Java.ofCharArray at hgroup ⊢
      rw [List.map_append, List.map_take, hgroup]
      rfl
  | succ n ih =>
    match bytes, h with
    | b₀ :: b₁ :: b₂ :: rest, h =>
      have hrest := @ih rest (by simp only [List.length_cons] at h; omega)
      have hgroup := encodeBase64_group b₀ b₁ b₂
      show Java.ofCharArray (encodeBase64 b₀ b₁ b₂ ++ encodeSegments rest) =
        base64Group b₀.toNat b₁.toNat b₂.toNat ++ base64 (rest.map BitVec.toNat)
      unfold Java.ofCharArray at hgroup hrest ⊢
      rw [List.map_append, hgroup, hrest]

theorem toBase64_eq (key : Key) : key.toBase64 = base64 key.values :=
  encodeSegments_base64 (n := 10) key.length_bytes

theorem toHex_eq (key : Key) : key.toHex = base16 key.values := by
  unfold toHex values
  induction key.bytes with
  | nil => rfl
  | cons b bytes ih =>
    obtain ⟨-, -, -, -, -, -, hb, -⟩ := byte_parts b
    unfold Java.ofCharArray at hb ih ⊢
    rw [List.flatMap_cons, List.map_append, ih, hb]
    rfl

-- A negative number among the four leaves its sign in the chunk.
theorem ne_of_sign {w₀ w₁ w₂ w₃ : Word}
    (h : (w₀ <<< 18 ||| w₁ <<< 12 ||| w₂ <<< 6 ||| w₃ <<< 0) >>> 31 = 0) :
    w₀ ≠ -1 ∧ w₁ ≠ -1 ∧ w₂ ≠ -1 ∧ w₃ ≠ -1 := by
  have hbit := congrArg (fun w : Word => w.getLsbD 0) h
  simp at hbit
  refine ⟨?_, ?_, ?_, ?_⟩
  · rintro rfl
    simp at hbit
  · rintro rfl
    simp at hbit
  · rintro rfl
    simp at hbit
  · rintro rfl
    simp at hbit

/-- The bytes of a chunk are cut again into the groups of six bits it is made of. -/
theorem sextets_chunk (w₀ w₁ w₂ w₃ : Word) : sextets (byteAt (chunk w₀ w₁ w₂ w₃) 16)
    (byteAt (chunk w₀ w₁ w₂ w₃) 8) (byteAt (chunk w₀ w₁ w₂ w₃) 0) =
      [(w₀ &&& 63).setWidth 8, (w₁ &&& 63).setWidth 8, (w₂ &&& 63).setWidth 8,
        (w₃ &&& 63).setWidth 8] := by
  unfold sextets byteAt chunk
  simp only [List.cons.injEq, and_true]
  refine ⟨?_, ?_, ?_, ?_⟩
  all_goals
    ext i hi
    rw [BitVec.getElem_setWidth, BitVec.getElem_setWidth]
    interval_cases i <;> simp [BitVec.getElem_signExtend]

theorem encodeBase64_decodeBase64 {c₀ c₁ c₂ c₃ : CodeUnit} (h₀ : c₀.toNat < 256)
    (h₁ : c₁.toNat < 256) (h₂ : c₂.toNat < 256) (h₃ : c₃.toNat < 256)
    (h : decodeBase64 c₀ c₁ c₂ c₃ >>> 31 = 0) :
    encodeBase64 (byteAt (decodeBase64 c₀ c₁ c₂ c₃) 16) (byteAt (decodeBase64 c₀ c₁ c₂ c₃) 8)
      (byteAt (decodeBase64 c₀ c₁ c₂ c₃) 0) = [c₀, c₁, c₂, c₃] := by
  obtain ⟨hne₀, hne₁, hne₂, hne₃⟩ := ne_of_sign h
  obtain ⟨henc₀, hmask₀⟩ := (decoded_of_lt h₀).2 hne₀
  obtain ⟨henc₁, hmask₁⟩ := (decoded_of_lt h₁).2 hne₁
  obtain ⟨henc₂, hmask₂⟩ := (decoded_of_lt h₂).2 hne₂
  obtain ⟨henc₃, hmask₃⟩ := (decoded_of_lt h₃).2 hne₃
  have hchunk : decodeBase64 c₀ c₁ c₂ c₃ =
      chunk (decodeChar c₀) (decodeChar c₁) (decodeChar c₂) (decodeChar c₃) := by
    unfold decodeBase64 chunk
    rw [hmask₀, hmask₁, hmask₂, hmask₃]
  unfold encodeBase64
  rw [hchunk, sextets_chunk]
  simp only [List.map_cons, List.map_nil, henc₀, henc₁, henc₂, henc₃]

-- The low byte of the end segment is checked to be zero.
theorem byteAt_zero_of_and {val : Word} (h : val &&& 0xff = 0) : byteAt val 0 = 0 := by
  unfold byteAt
  rw [BitVec.ushiftRight_zero, h]
  rfl

theorem encodeSegments_decodeSegments (hbytes : ∀ u ∈ input, u.toNat < 256)
    (hlast : input.getLast? = some 61) (h : input.length = 4 * n + 4)
    (hret : (decodeSegments input).2 = 0) : encodeSegments (decodeSegments input).1 = input := by
  induction n generalizing input with
  | zero =>
    match input, h with
    | [c₀, c₁, c₂, c₃], _ =>
      obtain rfl : c₃ = 61 := Option.some.inj hlast
      obtain ⟨hsign, hlow⟩ := BitVec.or_eq_zero_iff.1 hret
      have hchars := encodeBase64_decodeBase64 (hbytes c₀ (by simp)) (hbytes c₁ (by simp))
        (hbytes c₂ (by simp)) (show (65 : CodeUnit).toNat < 256 by decide) hsign
      rw [byteAt_zero_of_and hlow] at hchars
      show (encodeBase64 _ _ 0).take 3 ++ [61] = _
      rw [hchars]
      rfl
  | succ n ih =>
    match input, h with
    | c₀ :: c₁ :: c₂ :: c₃ :: rest, h =>
      simp only [List.length_cons] at h
      have hne : rest ≠ [] := by
        intro hnil
        rw [hnil, List.length_nil] at h
        omega
      rw [decodeSegments_cons _ _ _ _ hne] at hret ⊢
      obtain ⟨hsign, hrest⟩ := BitVec.or_eq_zero_iff.1 hret
      have hchars := encodeBase64_decodeBase64 (hbytes c₀ (by simp)) (hbytes c₁ (by simp))
        (hbytes c₂ (by simp)) (hbytes c₃ (by simp)) hsign
      have hlast' : rest.getLast? = some 61 := by
        rw [← hlast, ← List.getLast?_append_of_ne_nil [c₀, c₁, c₂, c₃] hne]
        rfl
      show encodeBase64 _ _ _ ++ encodeSegments (decodeSegments rest).1 = _
      rw [hchars, ih (fun u hu => hbytes u (by simp [hu])) hlast' (by omega) hrest]
      rfl

theorem toCharArray_toBase64 (key : Key) : Java.toCharArray key.toBase64 = encodeSegments key.bytes :=
  Java.toCharArray_ofCharArray (fun _ hu => (mem_encodeSegments hu).1)

variable {s : List CodeUnit}

/-- Of strings of one-byte characters `fromBase64` accepts the texts of keys. -/
theorem fromBase64_ok_iff (hbytes : ∀ u ∈ s, u.toNat < 256) :
    fromBase64 s = .ok key ↔ s = Java.toCharArray key.toBase64 := by
  constructor
  · intro hok
    unfold fromBase64 at hok
    split at hok
    · cases hok
    · next hshape =>
      split at hok
      · cases hok
      · next hret =>
        have hlast : s.getLast? = some 61 := by
          rw [List.getLast?_eq_getElem?, show s.length = 44 by omega]
          exact not_not.1 (not_or.1 hshape).2
        rw [toCharArray_toBase64, ← Except.ok.inj hok]
        exact (encodeSegments_decodeSegments (n := 10) hbytes hlast (by omega) (not_not.1 hret)).symm
  · rintro rfl
    exact fromBase64_toBase64 key

def Base64Text (s : List CodeUnit) : Prop :=
  ∃ body, s = body ++ [61] ∧ ∀ u ∈ body, u ∈ Java.toCharArray base64Digits

theorem encodeBase64_alphabet {b₀ b₁ b₂ : Byte} (h : u ∈ encodeBase64 b₀ b₁ b₂) :
    u ∈ Java.toCharArray base64Digits := by
  obtain ⟨v, hv, rfl⟩ := List.mem_map.1 h
  exact (encodeChar_digit v (mem_sextets_lt hv)).2

theorem base64Text_encodeSegments {bytes : List Byte} (h : bytes.length = 3 * n + 2) :
    Base64Text (encodeSegments bytes) := by
  induction n generalizing bytes with
  | zero =>
    match bytes, h with
    | [b₀, b₁], _ =>
      exact ⟨_, rfl, fun u hu => encodeBase64_alphabet (List.mem_of_mem_take hu)⟩
  | succ n ih =>
    match bytes, h with
    | b₀ :: b₁ :: b₂ :: rest, h =>
      obtain ⟨body, hbody, hdigits⟩ := @ih rest (by simp only [List.length_cons] at h; omega)
      refine ⟨encodeBase64 b₀ b₁ b₂ ++ body, ?_, ?_⟩
      · rw [encodeSegments, hbody, List.append_assoc]
      · intro u hu
        rcases List.mem_append.1 hu with hu | hu
        · exact encodeBase64_alphabet hu
        · exact hdigits u hu

/-- A string that `fromBase64` accepts is the text of its key when its characters are of one byte,
and only then. -/
theorem fromBase64_canonical_iff {s : List CodeUnit} {key : Key} (hok : fromBase64 s = .ok key) :
    (s = Java.toCharArray key.toBase64 ∧ Base64Text s) ↔ ∀ u ∈ s, u.toNat < 256 := by
  constructor
  · rintro ⟨htext, -⟩ u hu
    rw [htext, toCharArray_toBase64] at hu
    have hlt := (mem_encodeSegments hu).1
    omega
  · intro hbytes
    have htext := (fromBase64_ok_iff hbytes).1 hok
    refine ⟨htext, ?_⟩
    rw [htext, toCharArray_toBase64]
    exact base64Text_encodeSegments (n := 10) key.length_bytes

theorem length_zeroBytes : (List.replicate 32 (0 : Byte)).length = 32 := List.length_replicate

def zero : Key := ⟨List.replicate 32 0, length_zeroBytes⟩

theorem fromBase64_canonical_zero : fromBase64 (Java.toCharArray zero.toBase64) = .ok zero ∧
    Base64Text (Java.toCharArray zero.toBase64) := by
  have hok := fromBase64_toBase64 zero
  refine ⟨hok, ((fromBase64_canonical_iff hok).2 ?_).2⟩
  intro u hu
  rw [toCharArray_toBase64] at hu
  have hlt := (mem_encodeSegments hu).1
  omega

def wideText : List CodeUnit := 0x230 :: List.replicate 42 65 ++ [61]

theorem fromBase64_wide :
    fromBase64 wideText = .ok zero ∧ wideText ≠ Java.toCharArray zero.toBase64 := by
  decide +kernel

def HexText (s : List CodeUnit) : Prop :=
  s.length = 64 ∧ ∀ u ∈ s, (base16Value u.toNat).isSome = true

theorem lt_of_base16Value {code : Nat} (h : (base16Value code).isSome = true) :
    code < 128 := by
  unfold base16Value at h
  split at h
  · omega
  · split at h
    · omega
    · split at h
      · omega
      · cases h

theorem HexText.bytes (h : HexText s) : ∀ u ∈ s, u.toNat < 256 := by
  intro u hu
  have hlt := lt_of_base16Value (h.2 u hu)
  omega

theorem fromHex_of_hexText (h : HexText s) : ∃ key, fromHex s = .ok key := by
  refine fromHex_accepts_iff.2 ⟨h.1, fun u hu => ?_⟩
  have hvalue := (decoded_of_lt (h.bytes u hu)).1
  have hsome := h.2 u hu
  by_contra hret
  rw [hvalue, if_neg hret] at hsome
  cases hsome

theorem hexText_of_fromHex (hbytes : ∀ u ∈ s, u.toNat < 256) (hok : fromHex s = .ok key) :
    HexText s := by
  have hvalues := (fromHex_ok_iff hbytes).1 hok
  have hlength : s.length = 2 * 32 := by
    have hcodes := length_of_ofBase16 hvalues
    rwa [List.length_map, values, List.length_map, key.length_bytes] at hcodes
  refine ⟨hlength, ?_⟩
  have hsome : (ofBase16 (s.map BitVec.toNat)).isSome = true := by rw [hvalues]; rfl
  rw [ofBase16_isSome_iff (n := 32) (by rw [List.length_map]; exact hlength)] at hsome
  intro u hu
  exact hsome _ (List.mem_map_of_mem hu)

/-- `fromHex` reads every hexadecimal text of 32 bytes.  It accepts no other text exactly when there
is no character above one byte, or the text is too long or short or has a character whose masks are
zero. -/
theorem fromHex_hexadecimal_iff (s : List CodeUnit) :
    (HexText s → ∃ key, fromHex s = .ok key ∧
      ofBase16 (s.map BitVec.toNat) = some key.values) ∧
    ((∀ key, fromHex s = .ok key ↔
        HexText s ∧ ofBase16 (s.map BitVec.toNat) = some key.values) ↔
      (∀ u ∈ s, u.toNat < 256) ∨ s.length ≠ 64 ∨ ∃ u ∈ s, (hexValue u).2 ≠ 0) := by
  refine ⟨fun h => ?_, fun hall => ?_, ?_⟩
  · obtain ⟨key, hok⟩ := fromHex_of_hexText h
    exact ⟨key, hok, (fromHex_ok_iff h.bytes).1 hok⟩
  · by_contra hcond
    simp only [not_or, not_not, not_exists, not_and] at hcond
    obtain ⟨key, hok⟩ := fromHex_accepts_iff.2 hcond.2
    exact hcond.1 ((hall key).1 hok).1.bytes
  · rintro (hbytes | hrejected) key
    · exact ⟨fun hok => ⟨hexText_of_fromHex hbytes hok, (fromHex_ok_iff hbytes).1 hok⟩,
        fun h => (fromHex_ok_iff hbytes).2 h.2⟩
    · have hnone : ¬ ∃ key, fromHex s = .ok key := by
        rw [fromHex_accepts_iff]
        rintro ⟨hlength, hmasks⟩
        exact hrejected.elim (· hlength) fun ⟨u, hu, hmask⟩ => hmask (hmasks u hu)
      exact ⟨fun hok => absurd ⟨key, hok⟩ hnone, fun h => absurd (fromHex_of_hexText h.1) hnone⟩

def zeroHex : List CodeUnit := List.replicate 64 48

theorem fromHex_hexadecimal_zero : HexText zeroHex ∧ ∃ key, fromHex zeroHex = .ok key ∧
    ofBase16 (zeroHex.map BitVec.toNat) = some key.values := by
  have hzero : HexText zeroHex := by
    refine ⟨by decide, ?_⟩
    intro u hu
    rw [List.eq_of_mem_replicate hu]
    decide
  exact ⟨hzero, (fromHex_hexadecimal_iff zeroHex).1 hzero⟩

def wideHex : List CodeUnit := List.replicate 64 0x100

theorem decodeHex_wide (n : Nat) :
    decodeHex (List.replicate (2 * n) 0x100) = (List.replicate n 0, 0) := by
  induction n with
  | zero => rfl
  | succ n ih =>
    have hvalue : hexValue 0x100 = (0, 0) := by decide
    show (((hexValue 0x100).1 * 16 ||| (hexValue 0x100).1).setWidth 8 ::
      (decodeHex (List.replicate (2 * n) 0x100)).1,
      (hexValue 0x100).2 ||| (hexValue 0x100).2 ||| (decodeHex (List.replicate (2 * n) 0x100)).2) = _
    rw [ih, hvalue]
    simp [List.replicate_succ]

theorem fromHex_wide : fromHex wideHex = .ok zero ∧ ¬ HexText wideHex := by
  constructor
  · have hdecode : decodeHex wideHex = (List.replicate 32 0, 0) := decodeHex_wide 32
    unfold fromHex
    rw [dif_neg (by decide), if_neg (by rw [hdecode]; decide)]
    simp only [hdecode]
    rfl
  · intro h
    have hlt := h.bytes 0x100 (List.mem_replicate.2 ⟨by decide, rfl⟩)
    exact absurd hlt (by decide)

theorem values_lt : ∀ b ∈ key.values, b < 256 := by
  intro b hb
  obtain ⟨byte, -, rfl⟩ := List.mem_map.1 hb
  exact byte.isLt

theorem lt_of_mem_hexChars {bytes : List Byte} (h : u ∈ bytes.flatMap hexChars) :
    u.toNat < 128 := by
  obtain ⟨b, -, hb⟩ := List.mem_flatMap.1 h
  obtain ⟨-, -, -, -, -, -, -, hascii⟩ := byte_parts b
  exact of_decide_eq_true (List.all_eq_true.1 hascii u hb)

theorem fromHex_toHex (key : Key) : fromHex (Java.toCharArray key.toHex) = .ok key := by
  have hunits : Java.toCharArray key.toHex = key.bytes.flatMap hexChars :=
    Java.toCharArray_ofCharArray (fun _ hu => lt_of_mem_hexChars hu)
  have hbytes : ∀ u ∈ key.bytes.flatMap hexChars, u.toNat < 256 := by
    intro u hu
    have hlt := lt_of_mem_hexChars hu
    omega
  have hcodes : (key.bytes.flatMap hexChars).map BitVec.toNat = key.toHex.map Char.toNat := by
    unfold toHex Java.ofCharArray
    rw [List.map_map]
    apply List.map_congr_left
    intro u hu
    exact (Java.toNat_ofNat_of_lt (lt_of_mem_hexChars hu)).symm
  rw [hunits, fromHex_ok_iff hbytes, hcodes, toHex_eq]
  exact ofBase16_base16 values_lt

theorem length_toHex (key : Key) : key.toHex.length = 64 := by
  have hpair : ∀ bytes : List Byte, (bytes.flatMap hexChars).length = 2 * bytes.length := by
    intro bytes
    induction bytes with
    | nil => rfl
    | cons b bytes ih =>
      rw [List.flatMap_cons, List.length_append, ih, List.length_cons]
      show 2 + 2 * bytes.length = _
      omega
  unfold toHex Java.ofCharArray
  rw [List.length_map, hpair, key.length_bytes]

/-- Both texts of a key are the standard ones, and both are read back as the key. -/
theorem toBase64_toHex_standard (key : Key) :
    key.toBase64 = base64 key.values ∧ key.toBase64.length = 44 ∧
      key.toBase64.getLast? = some '=' ∧
      key.toHex = base16 key.values ∧ key.toHex.length = 64 ∧
      fromBase64 (Java.toCharArray key.toBase64) = .ok key ∧
      fromHex (Java.toCharArray key.toHex) = .ok key := by
  have hpadded : key.toBase64.getLast? = some '=' := by
    unfold toBase64 Java.ofCharArray
    rw [List.getLast?_map, getLast_encodeSegments (n := 10) key.length_bytes]
    rfl
  exact ⟨toBase64_eq key, length_toBase64 key, hpadded, toHex_eq key, length_toHex key,
    fromBase64_toBase64 key, fromHex_toHex key⟩

end Amnezia.Crypto.Key
