import Amnezia.Tools.Config

/-!
# Header attributes of the kernel interface

`put_magic_header_attr` and `GET_MAGIC_HEADER` of `ipc-linux.h`, with what they use of `netlink.h`.
An attribute is its payload here, since its type only selects the field it goes to.  Numbers are
little-endian.
-/

namespace Amnezia.Tools

open Libc (Bytes)

inductive MnlType where
  | unspec | u8 | u16 | u32 | u64 | string | flag | msecs | nested | nestedCompat | nulString
  | binary
  deriving DecidableEq, Repr

def MnlType.len : MnlType → Nat
  | .u8 => 1
  | .u16 => 2
  | .u32 => 4
  | .u64 | .msecs => 8
  | _ => 0

def MnlType.accepts (payload : Bytes) : MnlType → Bool
  | .flag => payload.length == 0
  | .nulString => payload.length != 0 && payload.getLast? == some '\x00'
  | .string => payload.length != 0
  | .nested => payload.length == 0 || decide (4 ≤ payload.length)
  | _ => true

def mnlAttrValidate (payload : Bytes) (type : MnlType) : Bool :=
  decide (type.len ≤ payload.length) && type.accepts payload
    && (type.len == 0 || decide (payload.length ≤ type.len))

def mnlAttrGet (size : Nat) (payload : Bytes) : Nat :=
  (payload.take size).foldr (fun c n => (Libc.code c).toNat + 256 * n) 0

def mnlAttrGetU16 (payload : Bytes) : Nat := mnlAttrGet 2 payload

def mnlAttrGetU32 (payload : Bytes) : Nat := mnlAttrGet 4 payload

def u32Payload (n : Nat) : Bytes :=
  [Libc.byte (n % 256), Libc.byte (n / 256 % 256), Libc.byte (n / 65536 % 256),
   Libc.byte (n / 16777216 % 256)]

def strzPayload (s : Bytes) : Bytes := s ++ ['\x00']

def putMagicHeaderAttr (version : Nat) (headerField : Bytes) : Bytes :=
  if 2 ≤ version then strzPayload headerField
  else u32Payload ((Libc.strtoul headerField).1 % 4294967296)

/-- `mnl_attr_get_str` of an attribute that is valid. -/
def getNulString (payload : Bytes) : Option Bytes :=
  if mnlAttrValidate payload .nulString then some (Libc.cstr payload) else none

def getMagicHeader (payload : Bytes) : Option Bytes :=
  if mnlAttrValidate payload .u32 then some (Java.valueOf (mnlAttrGetU32 payload))
  else getNulString payload

theorem validate_u32_iff (payload : Bytes) :
    mnlAttrValidate payload .u32 = true ↔ payload.length = 4 := by
  unfold mnlAttrValidate
  rw [Bool.and_eq_true, Bool.and_eq_true, Bool.or_eq_true, decide_eq_true_iff, decide_eq_true_iff,
    beq_iff_eq]
  show (4 ≤ payload.length ∧ true = true) ∧ (4 = 0 ∨ payload.length ≤ 4) ↔ payload.length = 4
  constructor
  · intro h
    omega
  · intro h
    exact ⟨⟨by omega, rfl⟩, .inr (by omega)⟩

theorem validate_strz (s : Bytes) : mnlAttrValidate (strzPayload s) .nulString = true := by
  simp [mnlAttrValidate, MnlType.len, MnlType.accepts, strzPayload]

theorem cstr_strz {s : Bytes} (hs : '\x00' ∉ s) : Libc.cstr (strzPayload s) = s :=
  Fields.takeWhile_append_cons hs []

theorem length_strz (s : Bytes) : (strzPayload s).length = s.length + 1 :=
  List.length_append

/-- Three digits and a NUL are a number of at least seven digits. -/
theorem valueOf_getU32_ne {s : Bytes} (hs : s.length = 3) :
    Java.valueOf (mnlAttrGetU32 (strzPayload s)) ≠ s := by
  intro heq
  match s, hs with
  | [c₀, c₁, c₂], _ =>
    -- the text of a number has digits only, so the last character has a code above 47
    have hdigit : c₂.isDigit = true := by
      have hmem : c₂ ∈ Java.valueOf (mnlAttrGetU32 (strzPayload [c₀, c₁, c₂])) := by
        rw [heq]
        simp
      exact Java.isDigit_of_mem_valueOf hmem
    rw [Java.isDigit_iff] at hdigit
    have hcode : (Libc.code c₂).toNat = c₂.toNat := Libc.toNat_code (by omega)
    have hvalue : mnlAttrGetU32 (strzPayload [c₀, c₁, c₂]) = (Libc.code c₀).toNat +
        256 * ((Libc.code c₁).toNat + 256 * ((Libc.code c₂).toNat + 256 * 0)) := rfl
    have hlength := congrArg List.length heq
    have hshort : (Java.valueOf (mnlAttrGetU32 (strzPayload [c₀, c₁, c₂]))).length ≤ 3 := by
      rw [hlength]
      exact Nat.le_refl 3
    rw [Java.valueOf_natCast, Nat.length_toDigits_le_iff (by decide) (by decide)] at hshort
    omega

/-- From version 2 on a header comes back unless it has three characters: then its attribute has the
length of a number. -/
theorem getMagicHeader_put_iff {version : Nat} (hversion : 2 ≤ version) {value header : Bytes}
    (hvalue : '\x00' ∉ value) (hstored : parseAwgString value = .ok (some header)) :
    getMagicHeader (putMagicHeaderAttr version header) = some header ↔ header.length ≠ 3 := by
  have hsame : header = value := by
    unfold parseAwgString at hstored
    split at hstored
    · cases hstored
    · split at hstored
      · cases hstored
      · cases hstored
        rfl
  subst hsame
  have hput : putMagicHeaderAttr version header = strzPayload header := if_pos hversion
  unfold getMagicHeader getNulString
  rw [hput, validate_strz, if_pos rfl, cstr_strz hvalue]
  by_cases hthree : header.length = 3
  · have hnumber : mnlAttrValidate (strzPayload header) .u32 = true := by
      rw [validate_u32_iff, length_strz]
      omega
    rw [if_pos hnumber]
    simp only [Option.some.injEq, hthree, ne_eq, not_true_eq_false, iff_false]
    exact valueOf_getU32_ne hthree
  · have hstring : ¬ mnlAttrValidate (strzPayload header) .u32 = true := by
      rw [validate_u32_iff, length_strz]
      omega
    rw [if_neg hstring]
    simp [hthree]

theorem getMagicHeader_put_range :
    getMagicHeader (putMagicHeaderAttr 2 "5-12".toList) = some "5-12".toList := by
  have hstored : parseAwgString "5-12".toList = .ok (some "5-12".toList) := rfl
  exact (getMagicHeader_put_iff (by decide) (by decide) hstored).2 (by decide)

/-- The range `5-9` comes back as the number of its bytes. -/
theorem getMagicHeader_put_three : parseAwgString "5-9".toList = .ok (some "5-9".toList) ∧
    getMagicHeader (putMagicHeaderAttr 2 "5-9".toList) = some "3747125".toList := by
  decide +kernel

end Amnezia.Tools
