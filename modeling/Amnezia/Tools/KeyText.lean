import Amnezia.Crypto.KeyText
import Amnezia.Tools.Base64Key
import Amnezia.Tools.HexKey

/-!
# The texts of a key, in C

`key_from_base64` and `key_from_hex` accept the standard texts of a key and no others.  The second
casts each character to an `uint8_t`, so the sign of a `char` matters to the first only.
-/

namespace Amnezia.Tools

open Crypto (Key Byte Word)
open Encodings
open Libc (Bytes)

variable {s : Bytes}

theorem ofCharArray_codeUnit (hs : ∀ c ∈ s, c.toNat < 256) :
    Java.ofCharArray (s.map codeUnit) = s := by
  unfold Java.ofCharArray
  rw [List.map_map]
  conv_rhs => rw [← List.map_id s]
  apply List.map_congr_left
  intro c hc
  have hlt := hs c hc
  show Char.ofNat (BitVec.ofNat 16 c.toNat).toNat = c
  rw [BitVec.toNat_ofNat, Nat.mod_eq_of_lt (by omega), Char.ofNat_toNat]

theorem keyFromBase64_some_iff (signed : Bool) (hs : ∀ c ∈ s, c.toNat < 256) {key : Key} :
    keyFromBase64As signed s = some key ↔ s = base64 key.values := by
  constructor
  · intro hkey
    rw [keyFromBase64As_eq signed hs] at hkey
    have hok : Key.fromBase64 (Java.toCharArray s) = .ok key := by
      cases hcase : Key.fromBase64 (Java.toCharArray s) with
      | error e =>
        rw [hcase] at hkey
        cases hkey
      | ok k =>
        rw [hcase] at hkey
        rw [Option.some.inj hkey]
    have hunits : ∀ u ∈ Java.toCharArray s, u.toNat < 256 := by
      intro u hu
      rw [toCharArray_bytes hs] at hu
      obtain ⟨c, hc, rfl⟩ := List.mem_map.1 hu
      have hlt := hs c hc
      unfold codeUnit
      rw [BitVec.toNat_ofNat]
      omega
    have hascii : ∀ c ∈ key.toBase64, c.toNat < 256 := by
      intro c hc
      have hlt := Key.toNat_lt_of_mem_toBase64 hc
      omega
    have htext := (Key.fromBase64_ok_iff hunits).1 hok
    rw [toCharArray_bytes hs, toCharArray_bytes hascii] at htext
    rw [← Key.toBase64_eq, ← ofCharArray_codeUnit hs, htext, ofCharArray_codeUnit hascii]
  · intro htext
    rw [htext, ← Key.toBase64_eq]
    exact keyFromBase64As_toBase64 signed key

-- On every byte the masks tell a hexadecimal digit, and give its value.
theorem hexValue_byte {c : Char} (hc : c.toNat < 256) :
    base16Value c.toNat =
      if (hexValue c).2 = 0 then some (hexValue c).1.toNat else none := by
  have hall : ∀ n : Fin 256, base16Value (Char.ofNat n).toNat =
      if (hexValue (Char.ofNat n)).2 = 0 then some (hexValue (Char.ofNat n)).1.toNat else none := by
    decide +kernel
  exact Libc.forall_byte (P := fun c => base16Value c.toNat =
    if (hexValue c).2 = 0 then some (hexValue c).1.toNat else none) hall hc

theorem toNat_nibbles {v₀ v₁ : Byte} (h₀ : v₀.toNat < 16) (h₁ : v₁.toNat < 16) :
    (v₀ * 16 ||| v₁).toNat = 16 * v₀.toNat + v₁.toNat := by
  have hall : ∀ m n : Fin 16, (BitVec.ofNat 8 m * 16 ||| BitVec.ofNat 8 n).toNat =
      16 * m.val + n.val := by
    decide +kernel
  have hn := hall ⟨v₀.toNat, h₀⟩ ⟨v₁.toNat, h₁⟩
  rwa [BitVec.ofNat_toNat, BitVec.ofNat_toNat, BitVec.setWidth_eq, BitVec.setWidth_eq] at hn

theorem ofBase16_eq (hs : ∀ c ∈ s, c.toNat < 256) {n : Nat} (h : s.length = 2 * n) :
    ofBase16 (s.map Char.toNat) =
      if (decodeHex s).2 = 0 then some ((decodeHex s).1.map BitVec.toNat) else none := by
  induction n generalizing s with
  | zero =>
    rw [List.length_eq_zero_iff.1 h]
    rfl
  | succ n ih =>
    match s, h with
    | c₀ :: c₁ :: rest, h =>
      simp only [List.length_cons] at h
      have hrest := @ih rest (fun c hc => hs c (by simp [hc])) (by omega)
      have hc₀ := hexValue_byte (hs c₀ (by simp))
      have hc₁ := hexValue_byte (hs c₁ (by simp))
      have hret : (decodeHex (c₀ :: c₁ :: rest)).2 = 0 ↔
          (hexValue c₀).2 = 0 ∧ (hexValue c₁).2 = 0 ∧ (decodeHex rest).2 = 0 := by
        show (hexValue c₀).2 ||| (hexValue c₁).2 ||| (decodeHex rest).2 = 0#8 ↔ _
        rw [BitVec.or_eq_zero_iff, BitVec.or_eq_zero_iff, and_assoc]
        rfl
      rw [List.map_cons, List.map_cons, ofBase16_cons hc₀ hc₁ hrest]
      by_cases hzero : (decodeHex (c₀ :: c₁ :: rest)).2 = 0
      · obtain ⟨h₀, h₁, -⟩ := hret.1 hzero
        rw [if_pos hzero, if_pos (hret.1 hzero)]
        rw [if_pos h₀] at hc₀
        rw [if_pos h₁] at hc₁
        show _ = some ((_ * 16 ||| _ : Byte).toNat :: _)
        rw [toNat_nibbles (base16Value_lt hc₀) (base16Value_lt hc₁)]
      · rw [if_neg hzero, if_neg (hret.not.1 hzero)]

theorem keyFromHex_some_iff (hs : ∀ c ∈ s, c.toNat < 256) {key : Key} :
    keyFromHex s = some key ↔ ofBase16 (s.map Char.toNat) = some key.values := by
  unfold keyFromHex
  by_cases hlength : s.length = 64
  · have hspec := ofBase16_eq (n := 32) hs hlength
    rw [dif_neg (not_not.2 hlength), hspec]
    by_cases hret : (decodeHex s).2 = 0
    · rw [if_pos ((accepted_iff _).2 hret), if_pos hret]
      constructor
      · intro hkey
        rw [← Option.some.inj hkey]
        rfl
      · intro hvalues
        congr 1
        exact Key.values_inj (Option.some.inj hvalues)
    · rw [if_neg ((accepted_iff _).not.2 hret), if_neg hret]
      exact ⟨nofun, nofun⟩
  · rw [dif_pos hlength]
    constructor
    · nofun
    · intro hvalues
      have hcodes := length_of_ofBase16 hvalues
      rw [List.length_map, Key.values, List.length_map, key.length_bytes] at hcodes
      exact absurd hcodes hlength

theorem keyFromHex_isSome_iff (hs : ∀ c ∈ s, c.toNat < 256) :
    (keyFromHex s).isSome = true ↔
      s.length = 64 ∧ ∀ c ∈ s, (base16Value c.toNat).isSome = true := by
  have hdigits (hlength : s.length = 64) : (ofBase16 (s.map Char.toNat)).isSome = true ↔
      ∀ c ∈ s, (base16Value c.toNat).isSome = true := by
    rw [ofBase16_isSome_iff (n := 32) (by rw [List.length_map]; exact hlength),
      List.forall_mem_map]
  constructor
  · intro hsome
    obtain ⟨key, hkey⟩ := Option.isSome_iff_exists.1 hsome
    have hvalues := (keyFromHex_some_iff hs).1 hkey
    have hlength : s.length = 64 := by
      have hcodes := length_of_ofBase16 hvalues
      rwa [List.length_map, Key.values, List.length_map, key.length_bytes] at hcodes
    exact ⟨hlength, (hdigits hlength).1 (by rw [hvalues]; rfl)⟩
  · rintro ⟨hlength, hall⟩
    have hsome := (hdigits hlength).2 hall
    rw [ofBase16_eq (n := 32) hs hlength] at hsome
    unfold keyFromHex
    rw [dif_neg (not_not.2 hlength)]
    by_cases hret : (decodeHex s).2 = 0
    · rw [if_pos ((accepted_iff _).2 hret)]
      rfl
    · rw [if_neg hret] at hsome
      cases hsome

/-- The decoders of the tools accept exactly the standard texts of a key, whatever the sign of a
`char`, and read back what the encoders print. -/
theorem keyDecoders_exact (signed : Bool) {s : Bytes} (hs : ∀ c ∈ s, c.toNat < 256) :
    ((keyFromBase64As signed s).isSome = true ↔ ∃ key : Key, s = base64 key.values) ∧
      (∀ key, keyFromBase64As signed s = some key → s = base64 key.values) ∧
      ((keyFromHex s).isSome = true ↔
        s.length = 64 ∧ ∀ c ∈ s, (base16Value c.toNat).isSome = true) ∧
      (∀ key, keyFromHex s = some key →
        ofBase16 (s.map Char.toNat) = some key.values) ∧
      ∀ key, keyFromBase64As signed (keyToBase64 key) = some key ∧
        keyFromHex (keyToHex key) = some key := by
  have hbase64 : ∀ key, keyFromBase64As signed s = some key ↔ s = base64 key.values :=
    fun _ => keyFromBase64_some_iff signed hs
  refine ⟨?_, fun key => (hbase64 key).1, keyFromHex_isSome_iff hs,
    fun key => (keyFromHex_some_iff hs).1, ?_⟩
  · rw [Option.isSome_iff_exists]
    exact exists_congr hbase64
  · intro key
    refine ⟨?_, keyFromHex_keyToHex key⟩
    rw [keyToBase64_eq]
    exact keyFromBase64As_toBase64 signed key

theorem keyDecoders_exact_upper : (keyFromHex (List.replicate 64 'F')).isSome = true := by
  have hmem : ∀ c ∈ List.replicate 64 'F', c = 'F' := fun c hc => List.eq_of_mem_replicate hc
  have hbytes : ∀ c ∈ List.replicate 64 'F', c.toNat < 256 := by
    intro c hc
    rw [hmem c hc]
    decide
  have hdigits : ∀ c ∈ List.replicate 64 'F', (base16Value c.toNat).isSome = true := by
    intro c hc
    rw [hmem c hc]
    decide
  exact (keyDecoders_exact true hbytes).2.2.1.2 ⟨List.length_replicate, hdigits⟩

end Amnezia.Tools
