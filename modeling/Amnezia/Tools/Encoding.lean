import Amnezia.Libc.Strings
import Amnezia.Crypto.Key

/-!
# Base64 keys of the command line tools

`encoding.c`: `key_from_base64` is the arithmetic of `Key.fromBase64` with arithmetic shifts and an
8-bit `ret`.  The two accept the same strings and give the same key.  Whether a `char` is signed
depends on the machine, and `decode_base64` promotes it as it is.
-/

namespace Amnezia.Tools

open Crypto (Key Byte Word)
open Libc (Bytes)

/-- `((lo - 1 - c) & (c - (hi + 1))) >> 8 & value`. -/
def ifBetween (lo hi c value : Word) : Word :=
  ((lo - 1 - c) &&& (c - (hi + 1))).sshiftRight 8 &&& value

def promote (signed : Bool) (c : Char) : Word :=
  if signed then (Libc.code c).signExtend 32 else (Libc.code c).setWidth 32

/-- The six bits of a character in `decode_base64`, or a negative number. -/
def decodeChar (signed : Bool) (c : Char) : Word :=
  let c : Word := promote signed c
  (-1) + ifBetween 65 90 c (c - 64) + ifBetween 97 122 c (c - 70) + ifBetween 48 57 c (c + 5)
    + ifBetween 43 43 c 63 + ifBetween 47 47 c 64

def decodeBase64 (signed : Bool) (c₀ c₁ c₂ c₃ : Char) : Word :=
  decodeChar signed c₀ <<< 18 ||| decodeChar signed c₁ <<< 12 ||| decodeChar signed c₂ <<< 6 |||
    decodeChar signed c₃ <<< 0

/-- `(val >> shift) & 0xff`, as an `uint8_t`. -/
def byteAt (val : Word) (shift : Nat) : Byte := (val.sshiftRight shift &&& 0xff).setWidth 8

/-- The loop of `key_from_base64` and the end segment after it: the bytes and `ret`. -/
def decodeSegments (signed : Bool) : Bytes → List Byte × Byte
  | [c₀, c₁, c₂, _] =>
    let val := decodeBase64 signed c₀ c₁ c₂ 'A'
    ([byteAt val 16, byteAt val 8], (val >>> 31 ||| (val &&& 0xff)).setWidth 8)
  | c₀ :: c₁ :: c₂ :: c₃ :: rest =>
    let val := decodeBase64 signed c₀ c₁ c₂ c₃
    let (bytes, ret) := decodeSegments signed rest
    (byteAt val 16 :: byteAt val 8 :: byteAt val 0 :: bytes, (val >>> 31).setWidth 8 ||| ret)
  | _ => ([], 0)

/-- `1 & ((ret - 1) >> 8)`. -/
def accepted (ret : Byte) : Bool := 1 &&& (ret.setWidth 32 - 1 : Word).sshiftRight 8 != 0

theorem length_decodeSegments (signed : Bool) {s : Bytes} {n : Nat} (h : s.length = 4 * n + 4) :
    (decodeSegments signed s).1.length = 3 * n + 2 := by
  induction n generalizing s with
  | zero =>
    match s, h with
    | [c₀, c₁, c₂, c₃], _ => rfl
  | succ n ih =>
    match s, h with
    | c₀ :: c₁ :: c₂ :: c₃ :: rest, h =>
      simp only [List.length_cons] at h
      have hne : rest ≠ [] := by
        intro hnil
        rw [hnil, List.length_nil] at h
        omega
      have hrest := @ih rest (by omega)
      rw [decodeSegments.eq_2 _ _ _ _ _ _ hne]
      show (decodeSegments signed rest).1.length + 3 = _
      omega

def keyFromBase64As (signed : Bool) (base64 : Bytes) : Option Key :=
  if h : base64.length ≠ 44 ∨ base64[43]? ≠ some '=' then none
  else if accepted (decodeSegments signed base64).2 then
    some ⟨(decodeSegments signed base64).1,
      length_decodeSegments signed (by omega : _ = 4 * 10 + 4)⟩
  else none

/-- `key_from_base64` on a machine where `char` is unsigned, as on ARM. -/
def keyFromBase64 (base64 : Bytes) : Option Key := keyFromBase64As false base64

theorem accepted_iff : ∀ ret : Byte, accepted ret = true ↔ ret = 0 := by decide +kernel

def codeUnit (c : Char) : Crypto.CodeUnit := BitVec.ofNat 16 c.toNat

-- A byte above 127 is no digit, whichever number it is promoted to.
theorem decodeChar_eq (signed : Bool) {c : Char} (h : c.toNat < 256) :
    decodeChar signed c = Key.decodeChar (codeUnit c) := by
  have hall : ∀ n : Fin 256,
      decodeChar signed (Char.ofNat n) = Key.decodeChar (codeUnit (Char.ofNat n)) := by
    cases signed <;> decide +kernel
  exact Libc.forall_byte (P := fun c => decodeChar signed c = Key.decodeChar (codeUnit c)) hall h

theorem decodeBase64_eq (signed : Bool) {c₀ c₁ c₂ c₃ : Char} (h₀ : c₀.toNat < 256) (h₁ : c₁.toNat < 256)
    (h₂ : c₂.toNat < 256) (h₃ : c₃.toNat < 256) : decodeBase64 signed c₀ c₁ c₂ c₃ =
      Key.decodeBase64 (codeUnit c₀) (codeUnit c₁) (codeUnit c₂) (codeUnit c₃) := by
  unfold decodeBase64 Key.decodeBase64
  rw [decodeChar_eq signed h₀, decodeChar_eq signed h₁, decodeChar_eq signed h₂,
    decodeChar_eq signed h₃]

theorem byteAt_eq (val : Word) {shift : Nat} (h : shift ≤ 16) :
    byteAt val shift = Key.byteAt val shift := by
  unfold byteAt Key.byteAt
  ext i hi
  have hlt : shift + i < 32 := by omega
  have hi32 : ¬ 32 ≤ i := by omega
  simp [BitVec.getLsbD_sshiftRight, hlt, hi32]

theorem setWidth_or_lt {v w : Word} (hv : v.toNat < 256) (hw : w.toNat < 256) :
    (v ||| w).toNat < 256 := by
  rw [BitVec.toNat_or]
  exact Nat.or_lt_two_pow (n := 8) hv hw

theorem sign_lt (val : Word) : (val >>> 31).toNat < 256 := by
  have hlt := val.isLt
  rw [BitVec.toNat_ushiftRight, Nat.shiftRight_eq_div_pow]
  omega

theorem low_lt (val : Word) : (val &&& 0xff).toNat < 256 := by
  have hle : val.toNat &&& 255 ≤ 255 := Nat.and_le_right
  show val.toNat &&& 255 < 256
  omega

/-- The loops of the two decoders give the same bytes, and the same `ret`. -/
theorem decodeSegments_eq (signed : Bool) {s : Bytes} (hs : ∀ c ∈ s, c.toNat < 256) {n : Nat}
    (h : s.length = 4 * n + 4) :
    (decodeSegments signed s).1 = (Key.decodeSegments (s.map codeUnit)).1 ∧
      (decodeSegments signed s).2 = (Key.decodeSegments (s.map codeUnit)).2.setWidth 8 ∧
      (Key.decodeSegments (s.map codeUnit)).2.toNat < 256 := by
  induction n generalizing s with
  | zero =>
    match s, h with
    | [c₀, c₁, c₂, c₃], _ =>
      have hval := decodeBase64_eq signed (hs c₀ (by simp)) (hs c₁ (by simp)) (hs c₂ (by simp))
        (show 'A'.toNat < 256 by decide)
      simp only [List.map_cons, List.map_nil]
      rw [decodeSegments.eq_1, Key.decodeSegments_last, hval]
      refine ⟨?_, rfl, setWidth_or_lt (sign_lt _) (low_lt _)⟩
      rw [byteAt_eq _ (by decide), byteAt_eq _ (by decide)]
      rfl
  | succ n ih =>
    match s, h with
    | c₀ :: c₁ :: c₂ :: c₃ :: rest, h =>
      simp only [List.length_cons] at h
      have hne : rest ≠ [] := by
        intro hnil
        rw [hnil, List.length_nil] at h
        omega
      obtain ⟨hbytes, hret, hlt⟩ := @ih rest (fun c hc => hs c (by simp [hc])) (by omega)
      have hval := decodeBase64_eq signed (hs c₀ (by simp)) (hs c₁ (by simp)) (hs c₂ (by simp))
        (hs c₃ (by simp))
      simp only [List.map_cons]
      rw [decodeSegments.eq_2 _ _ _ _ _ _ hne, Key.decodeSegments_cons _ _ _ _ (by simpa using hne),
        hval]
      simp only
      refine ⟨?_, ?_, setWidth_or_lt (sign_lt _) hlt⟩
      · rw [hbytes, byteAt_eq _ (by decide), byteAt_eq _ (by decide), byteAt_eq _ (by decide)]
      · rw [hret, BitVec.setWidth_or]

theorem toCharArray_bytes {s : Bytes} (hs : ∀ c ∈ s, c.toNat < 256) :
    Java.toCharArray s = s.map codeUnit := by
  induction s with
  | nil => rfl
  | cons c s ih =>
    have hc := hs c (by simp)
    have hrest := ih (fun d hd => hs d (by simp [hd]))
    unfold Java.toCharArray at hrest ⊢
    rw [List.flatMap_cons, if_pos (by omega), hrest]
    rfl

/-- `key_from_base64` accepts what `Key.fromBase64` accepts, and gives the same key. -/
theorem keyFromBase64As_eq (signed : Bool) {s : Bytes} (hs : ∀ c ∈ s, c.toNat < 256) :
    keyFromBase64As signed s = (Key.fromBase64 (Java.toCharArray s)).toOption := by
  have hend : (s.map codeUnit)[43]? = some 61 ↔ s[43]? = some '=' := by
    rw [List.getElem?_map]
    cases hc : s[43]? with
    | none => simp
    | some c =>
      have hmem : c ∈ s := List.mem_of_getElem? hc
      have hcode : codeUnit c = 61 ↔ c = '=' :=
        Libc.forall_byte (P := fun c => codeUnit c = 61 ↔ c = '=') (by decide +kernel) (hs c hmem)
      simpa using hcode
  have hshape : ((s.map codeUnit).length ≠ 44 ∨ (s.map codeUnit)[43]? ≠ some 61) ↔
      (s.length ≠ 44 ∨ s[43]? ≠ some '=') := by
    simp only [List.length_map, ne_eq, hend]
  rw [toCharArray_bytes hs]
  unfold keyFromBase64As Key.fromBase64
  by_cases hlength : s.length ≠ 44 ∨ s[43]? ≠ some '='
  · rw [dif_pos hlength, dif_pos (hshape.2 hlength)]
    rfl
  · rw [dif_neg hlength, dif_neg (hshape.not.2 hlength)]
    have h44 : s.length = 4 * 10 + 4 := by omega
    obtain ⟨hbytes, hret, hlt⟩ := decodeSegments_eq signed hs h44
    have hzero : accepted (decodeSegments signed s).2 = true ↔
        (Key.decodeSegments (s.map codeUnit)).2 = 0 := by
      rw [accepted_iff, hret, ← BitVec.toNat_inj, ← BitVec.toNat_inj, BitVec.toNat_setWidth,
        Nat.mod_eq_of_lt hlt]
      rfl
    by_cases hok : (Key.decodeSegments (s.map codeUnit)).2 = 0
    · rw [if_pos (hzero.2 hok), if_neg (not_not.2 hok)]
      simp only [hbytes]
      rfl
    · rw [if_neg (hzero.not.2 hok), if_pos hok]
      rfl

theorem keyFromBase64As_toBase64 (signed : Bool) (key : Key) :
    keyFromBase64As signed key.toBase64 = some key := by
  rw [keyFromBase64As_eq, Key.fromBase64_toBase64]
  · rfl
  · intro c hc
    have hlt := Key.toNat_lt_of_mem_toBase64 hc
    omega

end Amnezia.Tools
