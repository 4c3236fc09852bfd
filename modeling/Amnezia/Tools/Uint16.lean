import Amnezia.Tools.Command

/-!
# Numbers of sixteen bits

`parse_uint16` of `config.c`, for an `unsigned long` of either width.  The number goes through
`strtoul`, which skips blanks, takes a sign and stops at `ULONG_MAX`, and then through an
`uint32_t`; only after that it is compared with `UINT16_MAX`.
-/

namespace Amnezia.Tools

open Libc (Bytes)

def Decimal (v : Bytes) (n : Nat) : Prop :=
  v ≠ [] ∧ (∀ c ∈ v, c.isDigit = true) ∧ Nat.ofDigitChars 10 v 0 = n

def Spells (v blanks sign digits : Bytes) (n : Nat) : Prop :=
  v = blanks ++ sign ++ digits ∧ (∀ c ∈ blanks, Libc.isspace c = true) ∧
    (sign = [] ∨ sign = ['+'] ∨ sign = ['-']) ∧ Decimal digits n

def reduced (max : Nat) (sign : Bytes) (n : Nat) : Nat :=
  (if max < n then max else if sign = ['-'] then (max + 1 - n) % (max + 1) else n) % 4294967296

variable {max : Nat} {v blanks sign digits : Bytes} {n : Nat}

-- A decimal number begins with a digit, at which neither blanks nor a sign are skipped.
theorem Spells.sign_eq (h : Spells v blanks sign digits n) :
    Libc.sign (v.dropWhile Libc.isspace) = (decide (sign = ['-']), digits) := by
  obtain ⟨rfl, hblanks, hsign, hne, hdigits, -⟩ := h
  obtain ⟨c, cs, rfl⟩ := List.exists_cons_of_ne_nil hne
  have hc := hdigits c List.mem_cons_self
  rw [List.append_assoc, List.dropWhile_append_of_pos hblanks]
  rcases hsign with rfl | rfl | rfl
  · exact Libc.sign_of_isDigit hc cs
  · rfl
  · rfl

theorem Spells.strtoul_eq (h : Spells v blanks sign digits n) :
    Libc.strtoulUpTo max v = (if max < n then max else
      if sign = ['-'] then (max + 1 - n) % (max + 1) else n, []) := by
  have hsign := h.sign_eq
  obtain ⟨-, -, -, hne, hdigits, hn⟩ := h
  have htake : digits.takeWhile Char.isDigit = digits := List.takeWhile_eq_self_iff.2 hdigits
  have hdrop : digits.dropWhile Char.isDigit = [] := List.dropWhile_eq_nil_iff.2 hdigits
  unfold Libc.strtoulUpTo
  simp only [hsign, htake, hdrop, hn, if_neg hne, decide_eq_true_eq]

-- Every text of which `strtoul` leaves nothing is of this kind.
theorem exists_spells (hne : v ≠ []) (hrest : (Libc.strtoulUpTo max v).2 = []) :
    ∃ blanks sign digits n, Spells v blanks sign digits n := by
  have hsplit : ∃ sign, (sign = [] ∨ sign = ['+'] ∨ sign = ['-']) ∧
      v.dropWhile Libc.isspace = sign ++ (Libc.sign (v.dropWhile Libc.isspace)).2 := by
    generalize v.dropWhile Libc.isspace = t
    unfold Libc.sign
    split
    · exact ⟨['-'], .inr (.inr rfl), rfl⟩
    · exact ⟨['+'], .inr (.inl rfl), rfl⟩
    · exact ⟨[], .inl rfl, rfl⟩
  obtain ⟨sign, hsign, hv⟩ := hsplit
  unfold Libc.strtoulUpTo at hrest
  simp only at hrest
  split at hrest
  · exact absurd hrest hne
  · next hdigits =>
    have hall := List.dropWhile_eq_nil_iff.1 hrest
    rw [List.takeWhile_eq_self_iff.2 hall] at hdigits
    refine ⟨v.takeWhile Libc.isspace, sign, (Libc.sign (v.dropWhile Libc.isspace)).2, _, ?_, ?_,
      hsign, hdigits, hall, rfl⟩
    · rw [List.append_assoc, ← hv, List.takeWhile_append_dropWhile]
    · exact fun c hc => List.mem_takeWhile_imp hc

theorem parseUint16Of_eq_ok_iff : parseUint16Of max v = .ok n ↔
    ∃ blanks sign digits m, Spells v blanks sign digits m ∧ reduced max sign m = n ∧
      n ≤ 65535 := by
  constructor
  · intro h
    unfold parseUint16Of at h
    split at h
    · cases h
    · next hne =>
      simp only at h
      split at h
      · cases h
      · next hcond =>
        cases h
        rw [not_or, not_not] at hcond
        obtain ⟨blanks, sign, digits, m, hspells⟩ := exists_spells hne hcond.1
        have hle := hcond.2
        rw [hspells.strtoul_eq] at hle ⊢
        exact ⟨blanks, sign, digits, m, hspells, rfl, Nat.le_of_not_lt hle⟩
  · rintro ⟨blanks, sign, digits, m, hspells, hreduced, hle⟩
    have hne : v ≠ [] := by
      rintro rfl
      obtain ⟨hv, -, -, hdigits, -⟩ := hspells
      exact hdigits (List.append_eq_nil_iff.1 hv.symm).2
    have hcond : ¬ (([] : Bytes) ≠ [] ∨ 65535 < reduced max sign m) := by
      rw [hreduced]
      simp [hle]
    unfold parseUint16Of
    rw [if_neg hne, hspells.strtoul_eq]
    show (if ([] : Bytes) ≠ [] ∨ 65535 < reduced max sign m then _ else _) = _
    rw [if_neg hcond, ← hreduced]
    rfl

-- A text of digits has neither blanks nor a sign.
theorem Spells.of_decimal {m : Nat} (h : Spells v blanks sign digits n) (hv : Decimal v m) :
    blanks = [] ∧ sign = [] ∧ n = m := by
  obtain ⟨rfl, hblanks, hsign, -, -, hn⟩ := h
  obtain ⟨-, hdigits, hm⟩ := hv
  have hblanks : blanks = [] := by
    rw [List.eq_nil_iff_forall_not_mem]
    intro c hc
    have hspace := hblanks c hc
    rw [Libc.isspace_of_isDigit (hdigits c (by simp [hc]))] at hspace
    cases hspace
  have hsign : sign = [] := by
    rcases hsign with hsign | hsign | hsign
    · exact hsign
    · exact absurd (hdigits '+' (by simp [hsign])) (by decide)
    · exact absurd (hdigits '-' (by simp [hsign])) (by decide)
  subst hblanks hsign
  rw [List.nil_append, List.nil_append, hn] at hm
  exact ⟨rfl, rfl, hm⟩

/-- A number that is left after the reductions was written as such. -/
def Unaliased (max : Nat) (v : Bytes) : Prop :=
  ∀ blanks sign digits n, Spells v blanks sign digits n → reduced max sign n ≤ 65535 →
    blanks = [] ∧ sign = [] ∧ n ≤ 65535

-- A text of digits is taken for what it is, if its number fits into the `uint32_t`.
theorem unaliased_of_decimal (hmax : 4294967295 ≤ max) (hv : Decimal v n) (hn : n < 4294967296) :
    Unaliased max v := by
  intro blanks sign digits m hspells hle
  obtain ⟨rfl, rfl, rfl⟩ := hspells.of_decimal hv
  unfold reduced at hle
  rw [if_neg (by omega), if_neg (by decide), Nat.mod_eq_of_lt hn] at hle
  exact ⟨rfl, rfl, hle⟩

/-- The texts that are accepted are the numbers up to 65535, and give their numbers, unless another
text comes to such a number on its way. -/
theorem exact_iff_unaliased (hmax : max = 4294967295 ∨ max = Libc.ulongMax) :
    (∀ n, parseUint16Of max v = .ok n ↔ Decimal v n ∧ n ≤ 65535) ↔ Unaliased max v := by
  have hplain : ∀ n, Decimal v n → n ≤ 65535 → Spells v [] [] v n ∧ reduced max [] n = n := by
    intro n hdecimal hle
    refine ⟨⟨rfl, fun c hc => absurd hc List.not_mem_nil, .inl rfl, hdecimal⟩, ?_⟩
    unfold reduced Libc.ulongMax at *
    rw [if_neg (by omega), if_neg (by decide)]
    omega
  constructor
  · intro h blanks sign digits n hspells hle
    -- a text that is accepted consists of digits
    obtain ⟨hdecimal, -⟩ :=
      (h _).1 (parseUint16Of_eq_ok_iff.2 ⟨blanks, sign, digits, n, hspells, rfl, hle⟩)
    obtain ⟨hblanks, hsign, hn⟩ := hspells.of_decimal hdecimal
    exact ⟨hblanks, hsign, by omega⟩
  · intro h n
    rw [parseUint16Of_eq_ok_iff]
    constructor
    · rintro ⟨blanks, sign, digits, m, hspells, hreduced, hle⟩
      obtain ⟨rfl, rfl, hm⟩ := h blanks sign digits m hspells (by omega)
      obtain ⟨rfl, -, -, hdecimal⟩ := hspells
      have hsame := (hplain m hdecimal hm).2
      rw [hsame] at hreduced
      exact ⟨hreduced ▸ hdecimal, hle⟩
    · rintro ⟨hdecimal, hle⟩
      obtain ⟨hspells, hreduced⟩ := hplain n hdecimal hle
      exact ⟨[], [], v, n, hspells, hreduced, hle⟩

section

variable {Addr : Type} {sys : Resolver Addr} {files : Bytes → Option Bytes}

def WgDevice.withUint (d : WgDevice Addr) (p : UintParameter) (n : Nat) : WgDevice Addr :=
  { d with uint := Function.update d.uint p (some n) }

theorem WgDevice.withUint_injective (d : WgDevice Addr) (p : UintParameter) :
    Function.Injective (d.withUint p) := by
  intro m n h
  have huint := congrFun (congrArg WgDevice.uint h) p
  simp only [WgDevice.withUint, Function.update_self, Option.some.injEq] at huint
  exact huint

-- What is accepted, seen through the field that a number is stored in.
theorem map_exact_iff {σ : Type} {x : Except Failure Nat} {f : Nat → σ}
    (hf : Function.Injective f) {q : Nat → Prop} :
    (∀ s, x.map f = .ok s ↔ ∃ n, q n ∧ s = f n) ↔ ∀ n, x = .ok n ↔ q n := by
  constructor
  · intro h n
    constructor
    · rintro rfl
      obtain ⟨m, hm, hfm⟩ := (h (f n)).1 rfl
      rw [hf hfm]
      exact hm
    · intro hn
      obtain ⟨m, hm, hfm⟩ := map_eq_ok ((h (f n)).2 ⟨n, hn, rfl⟩)
      rw [hm, hf hfm]
  · intro h s
    constructor
    · intro hs
      obtain ⟨n, hn, hfn⟩ := map_eq_ok hs
      exact ⟨n, (h n).1 hn, hfn.symm⟩
    · rintro ⟨n, hn, rfl⟩
      rw [(h n).2 hn]
      rfl

theorem keyMatch_noValue : ∀ k ∈ deviceKeys, keyMatch deviceKeys (k.1.toList ++ ['=']) = none := by
  decide

theorem processLine_uint {ctx : ConfigCtx Addr} (hctx : ctx.isDeviceSection = true) {key : String}
    {p : UintParameter} (hkey : (key, .uint p) ∈ deviceKeys) (v : Bytes) :
    processLine sys ctx (key.toList ++ '=' :: v) =
      (parseUint16Of Libc.ulongMax v).map fun n => { ctx with device := ctx.device.withUint p n } := by
  cases v with
  | nil =>
    have hnone := keyMatch_noValue _ hkey
    unfold processLine
    rw [(not_header []).1, (not_header []).2, if_neg (by decide), if_neg (by decide), if_pos hctx,
      hnone]
    rfl
  | cons c cs =>
    rw [processLine_deviceKey hctx (deviceKeys_names _ hkey) (filter_deviceKeys_name _ hkey)
      (List.cons_ne_nil c cs)]
    show ((parseUint16Of Libc.ulongMax (c :: cs)).map _).map _ = _
    cases parseUint16Of Libc.ulongMax (c :: cs) <;> rfl

theorem fieldKey_cmdDeviceKeys :
    ∀ k ∈ cmdDeviceKeys, fieldKey cmdDeviceKeys k.1.toList = some k.2 := by
  decide

theorem readArgument_uint {d : WgDevice Addr} (hpeers : d.peers = []) {arg : String}
    {p : UintParameter} (harg : (arg, .uint p) ∈ cmdDeviceKeys) (v : Bytes) :
    readArgument sys files d arg.toList v =
      (parseUint16Of Libc.ulongMax v).map fun n => d.withUint p n := by
  unfold readArgument
  rw [if_pos hpeers, fieldKey_cmdDeviceKeys _ harg]
  rfl

/-- The value of a number of sixteen bits, in a file or on the command line, is accepted exactly
when it is a decimal number up to 65535, and is then stored, if and only if no other number comes to
at most 65535 on its way through `unsigned long` and `uint32_t`. -/
theorem uint_exact_iff (hmax : max = 4294967295 ∨ max = Libc.ulongMax) {p : UintParameter}
    {ctx : ConfigCtx Addr} (hctx : ctx.isDeviceSection = true) {key : String}
    (hkey : (key, .uint p) ∈ deviceKeys) {d : WgDevice Addr} (hpeers : d.peers = [])
    {arg : String} (harg : (arg, .uint p) ∈ cmdDeviceKeys) (v : Bytes) :
    ((∀ n, parseUint16Of max v = .ok n ↔ Decimal v n ∧ n ≤ 65535) ↔ Unaliased max v) ∧
      ((∀ ctx', processLine sys ctx (key.toList ++ '=' :: v) = .ok ctx' ↔
        ∃ n, (Decimal v n ∧ n ≤ 65535) ∧ ctx' = { ctx with device := ctx.device.withUint p n }) ↔
          Unaliased Libc.ulongMax v) ∧
      ((∀ d', readArgument sys files d arg.toList v = .ok d' ↔
        ∃ n, (Decimal v n ∧ n ≤ 65535) ∧ d' = d.withUint p n) ↔ Unaliased Libc.ulongMax v) := by
  have hfile : Function.Injective fun n : Nat =>
      ({ ctx with device := ctx.device.withUint p n } : ConfigCtx Addr) := by
    intro m n h
    exact ctx.device.withUint_injective p (congrArg ConfigCtx.device h)
  refine ⟨exact_iff_unaliased hmax, ?_, ?_⟩
  · rw [← exact_iff_unaliased (.inr rfl), processLine_uint hctx hkey]
    exact map_exact_iff hfile
  · rw [← exact_iff_unaliased (.inr rfl), readArgument_uint hpeers harg]
    exact map_exact_iff (d.withUint_injective p)

def unknownResolver : Resolver Unit := ⟨fun _ => none, fun _ => none, fun _ => none, fun _ _ => none⟩

theorem uint_exact_1280 :
    ((∀ d', readArgument unknownResolver (fun _ => none) {} "jc".toList "1280".toList = .ok d' ↔
      ∃ n, (Decimal "1280".toList n ∧ n ≤ 65535) ∧
        d' = WgDevice.withUint {} .junkPacketCount n) ↔ Unaliased Libc.ulongMax "1280".toList) ∧
      Unaliased Libc.ulongMax "1280".toList := by
  have hdigits : ∀ c ∈ "1280".toList, c.isDigit = true := List.all_eq_true.1 (by decide)
  refine ⟨?_, unaliased_of_decimal (by decide) ⟨by decide, hdigits, rfl⟩ (by decide)⟩
  exact (@uint_exact_iff 4294967295 Unit unknownResolver (fun _ => none) (.inl rfl)
    .junkPacketCount ⟨{}, false, true⟩ rfl "Jc" (by decide) {} rfl "jc" (by decide)
    "1280".toList).2.2

/-- 4294967296 comes to 0 in the `uint32_t`. -/
theorem uint_aliased :
    readArgument unknownResolver (fun _ => none) {} "jc".toList "4294967296".toList =
      .ok (WgDevice.withUint {} .junkPacketCount 0) := by
  rw [readArgument_uint rfl (show ("jc", DeviceKey.uint .junkPacketCount) ∈ cmdDeviceKeys by decide)]
  have hparse : parseUint16Of Libc.ulongMax "4294967296".toList = .ok 0 := by decide
  rw [hparse]
  rfl

end

end Amnezia.Tools
