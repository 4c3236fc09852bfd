import Amnezia.Config.Inet
import Amnezia.Lib.Intervals

/-!
# IPv4 literals

Four decimal numbers between dots are an IPv4 address on every platform.  What is used of
`parseNumericAddress` beyond `Net.Documented` is collected in `Net.Literals`.
-/

namespace Amnezia.Config

open Java (Text)

def quadText (a b c d : Nat) : Text :=
  ['.'].intercalate [Java.valueOf a, Java.valueOf b, Java.valueOf c, Java.valueOf d]

def quadValue (a b c d : Nat) : Nat := a * 16777216 + b * 65536 + c * 256 + d

/-- A literal stands for itself, and four numbers are one. -/
structure Net.Literals {Addr : Type} (net : Net Addr) : Prop where
  bare : ∀ {t a}, net.parseNumericAddress t = some a → Fields.Bare Java.space t
  quad : ∀ {a b c d}, a < 256 → b < 256 → c < 256 → d < 256 →
    ∃ x, net.parseNumericAddress (quadText a b c d) = some x ∧ net.isInet4 x = true

/-- `value` is the number of an IPv4 address; a literal without a colon is one. -/
structure Net.Numbered {Addr : Type} (net : Net Addr) (value : Addr → Nat) : Prop where
  literals : net.Literals
  quad : ∀ {a b c d x}, a < 256 → b < 256 → c < 256 → d < 256 →
    net.parseNumericAddress (quadText a b c d) = some x → value x = quadValue a b c d
  colon : ∀ {t a}, net.parseNumericAddress t = some a → ':' ∉ t → net.isInet4 a = true

variable {t : Text} {a b c d : Nat}

section Networks

variable {Addr : Type} {net : Net Addr}

theorem InetAddresses.parse_eq_ok {a : Addr} :
    InetAddresses.parse net t = .ok a ↔ t ≠ [] ∧ net.parseNumericAddress t = some a := by
  unfold InetAddresses.parse
  by_cases hnil : t = []
  · rw [if_pos hnil]
    exact ⟨fun h => (by cases h), fun h => absurd hnil h.1⟩
  · rw [if_neg hnil]
    cases net.parseNumericAddress t with
    | none => exact ⟨fun h => (by cases h), fun h => (by cases h.2)⟩
    | some x =>
      constructor
      · intro h
        cases h
        exact ⟨hnil, rfl⟩
      · rintro ⟨-, h⟩
        cases h
        rfl

theorem quadText_ne_nil (a b c d : Nat) : quadText a b c d ≠ [] := by
  intro h
  have hmem : '.' ∈ quadText a b c d := by simp [quadText]
  rw [h] at hmem
  exact absurd hmem List.not_mem_nil

namespace InetNetwork

theorem bare_of_parse (hnet : net.Literals) {n : InetNetwork Addr} (h : parse net t = .ok n) :
    t ≠ [] ∧ Fields.Bare Java.space t := by
  rcases parse_cases h with ⟨k, -, h⟩ | ⟨t, m, k, rfl, hm, h⟩
  · obtain ⟨a, ha, -⟩ := ofMask_eq_ok.1 h
    obtain ⟨hne, ha⟩ := InetAddresses.parse_eq_ok.1 ha
    exact ⟨hne, hnet.bare ha⟩
  · obtain ⟨a, ha, -⟩ := ofMask_eq_ok.1 h
    obtain ⟨hne, ha⟩ := InetAddresses.parse_eq_ok.1 ha
    obtain ⟨hmne, hspace⟩ := Java.space_of_parseInt hm
    refine ⟨by simp, ?_, ?_⟩
    · intro c hc
      rw [List.head?_append_of_ne_nil _ hne] at hc
      exact (hnet.bare ha).head c hc
    · intro c hc
      rw [List.getLast?_append_of_ne_nil _ (by simp), List.getLast?_cons_of_ne_nil hmne] at hc
      exact hspace c (List.mem_of_mem_getLast? hc)

variable {k : Nat}

theorem parse_prefixed {a : Addr} (ha : InetAddresses.parse net t = .ok a) (hk : k ≤ 32) :
    parse net (t ++ '/' :: Java.valueOf k) = .ok ⟨a, k⟩ := by
  have hslash : '/' ∉ Java.valueOf k := by
    intro h
    exact absurd (Java.isDigit_of_mem_valueOf h) (by decide)
  have hmax := maxMask_cases net a
  unfold parse
  rw [cut_append hslash]
  simp only [Java.parseInt_valueOf (show k ≤ 2147483647 by omega)]
  refine ofMask_eq_ok.2 ⟨a, ha, by omega, ?_⟩
  rw [if_pos (by omega)]

theorem address_of_parse {n : InetNetwork Addr} (h : parse net (t ++ '/' :: Java.valueOf k) = .ok n) :
    ∃ a, InetAddresses.parse net t = .ok a := by
  have hslash : '/' ∉ Java.valueOf k := by
    intro h
    exact absurd (Java.isDigit_of_mem_valueOf h) (by decide)
  unfold parse at h
  rw [cut_append hslash] at h
  simp only at h
  split at h
  · cases h
  · obtain ⟨a, ha, -⟩ := ofMask_eq_ok.1 h
    exact ⟨a, ha⟩

theorem parse_quad (hnet : net.Literals) (ha : a < 256) (hb : b < 256) (hc : c < 256) (hd : d < 256)
    (hk : k ≤ 32) :
    ∃ x, net.parseNumericAddress (quadText a b c d) = some x ∧ net.isInet4 x = true ∧
      parse net (quadText a b c d ++ '/' :: Java.valueOf k) = .ok ⟨x, k⟩ := by
  obtain ⟨x, hx, hinet⟩ := hnet.quad ha hb hc hd
  exact ⟨x, hx, hinet, parse_prefixed (InetAddresses.parse_eq_ok.2 ⟨quadText_ne_nil a b c d, hx⟩) hk⟩

end InetNetwork

end Networks

/-- The numbers of an IPv4 network. -/
structure Quad where
  a : Fin 256
  b : Fin 256
  c : Fin 256
  d : Fin 256
  mask : Fin 33
  deriving DecidableEq

namespace Quad

def of (a b c d mask : Nat) : Quad :=
  ⟨Fin.ofNat 256 a, Fin.ofNat 256 b, Fin.ofNat 256 c, Fin.ofNat 256 d, Fin.ofNat 33 mask⟩

def network (q : Quad) : Text := quadText q.a q.b q.c q.d ++ '/' :: Java.valueOf q.mask.val

def value (q : Quad) : Nat := quadValue q.a q.b q.c q.d

def free (q : Quad) : Nat := 32 - q.mask

def Has (q : Quad) (v : Nat) : Prop := q.value >>> q.free = v >>> q.free

instance (q : Quad) (v : Nat) : Decidable (q.Has v) :=
  inferInstanceAs (Decidable (q.value >>> q.free = v >>> q.free))

def block (q : Quad) : Nat × Nat := (q.value, q.value + 1 <<< q.free)

def Aligned (q : Quad) : Prop := 1 <<< q.free ∣ q.value

instance (q : Quad) : Decidable q.Aligned := inferInstanceAs (Decidable (1 <<< q.free ∣ q.value))

theorem has_iff {q : Quad} (h : q.Aligned) {v : Nat} : q.Has v ↔ Intervals.Mem q.block v := by
  unfold Aligned at h
  unfold Has block
  rw [Nat.one_shiftLeft] at h ⊢
  rw [Nat.shiftRight_eq_div_pow, Nat.shiftRight_eq_div_pow]
  exact Intervals.div_eq_div_iff (Nat.two_pow_pos _) h

theorem parse_network {Addr : Type} {net : Net Addr} (hnet : net.Literals) (q : Quad) :
    ∃ x, net.parseNumericAddress (quadText q.a q.b q.c q.d) = some x ∧ net.isInet4 x = true ∧
      InetNetwork.parse net q.network = .ok ⟨x, q.mask.val⟩ :=
  InetNetwork.parse_quad hnet q.a.isLt q.b.isLt q.c.isLt q.d.isLt (Nat.le_of_lt_succ q.mask.isLt)

end Quad

def readOctet (t : Text) : Option Nat :=
  if Nat.ofDigitChars 10 t 0 < 256 ∧ t = Java.valueOf (Nat.ofDigitChars 10 t 0) then
    some (Nat.ofDigitChars 10 t 0)
  else none

def readQuad (t : Text) : Option Nat :=
  match t.splitOn '.' with
  | [a, b, c, d] => do
    return quadValue (← readOctet a) (← readOctet b) (← readOctet c) (← readOctet d)
  | _ => none

variable {n : Nat}

theorem readOctet_valueOf (h : n < 256) : readOctet (Java.valueOf n) = some n := by
  have hback : Nat.ofDigitChars 10 (Java.valueOf n) 0 = n := by
    rw [Java.valueOf_natCast, Nat.ofDigitChars_ten_toDigits]
  unfold readOctet
  rw [hback]
  exact if_pos ⟨h, rfl⟩

theorem valueOf_of_readOctet (h : readOctet t = some n) : t = Java.valueOf n := by
  unfold readOctet at h
  split at h
  · next hok =>
    cases h
    exact hok.2
  · cases h

theorem dot_notMem_valueOf (n : Nat) : '.' ∉ Java.valueOf n := by
  intro h
  exact absurd (Java.isDigit_of_mem_valueOf h) (by decide)

theorem readQuad_quadText (ha : a < 256) (hb : b < 256) (hc : c < 256) (hd : d < 256) :
    readQuad (quadText a b c d) = some (quadValue a b c d) := by
  have hsplit : (quadText a b c d).splitOn '.' =
      [Java.valueOf a, Java.valueOf b, Java.valueOf c, Java.valueOf d] := by
    unfold quadText
    refine List.splitOn_intercalate '.' ?_ (by simp)
    simp only [List.mem_cons, List.not_mem_nil, or_false]
    rintro l (rfl | rfl | rfl | rfl) <;> exact dot_notMem_valueOf _
  unfold readQuad
  rw [hsplit]
  simp only [readOctet_valueOf ha, readOctet_valueOf hb, readOctet_valueOf hc, readOctet_valueOf hd]
  rfl

theorem quadText_of_readQuad (h : readQuad t = some n) : ∃ a b c d, t = quadText a b c d := by
  unfold readQuad at h
  split at h
  · next ta tb tc td hsplit =>
    simp only [Option.bind_eq_bind, Option.bind_eq_some_iff] at h
    obtain ⟨a, ha, b, hb, c, hc, d, hd, -⟩ := h
    refine ⟨a, b, c, d, ?_⟩
    unfold quadText
    rw [← valueOf_of_readOctet ha, ← valueOf_of_readOctet hb, ← valueOf_of_readOctet hc,
      ← valueOf_of_readOctet hd, ← hsplit, List.intercalate_splitOn]
  · cases h

def inet4Net : Net (Option Nat) where
  parseNumericAddress t := if t = "::1".toList then some none else (readQuad t).map some
  getHostAddress
    | none => "::1".toList
    | some n => quadText (n / 16777216 % 256) (n / 65536 % 256) (n / 256 % 256) (n % 256)
  isInet4 a := a.isSome
  uri _ := none

theorem solid_quadText (a b c d : Nat) : Attribute.Solid (quadText a b c d) where
  nonempty := quadText_ne_nil a b c d
  chars x hx := by
    rcases Fields.mem_intercalate hx with hx | ⟨l, hl, hx⟩
    · rw [List.mem_singleton.1 hx]
      decide
    · simp only [List.mem_cons, List.not_mem_nil, or_false] at hl
      rcases hl with rfl | rfl | rfl | rfl <;> exact (Attribute.solid_valueOf _).chars x hx

theorem inet4Net_quadText (ha : a < 256) (hb : b < 256) (hc : c < 256) (hd : d < 256) :
    inet4Net.parseNumericAddress (quadText a b c d) = some (some (quadValue a b c d)) := by
  show (if quadText a b c d = "::1".toList then some none
    else (readQuad (quadText a b c d)).map some) = _
  have hne : quadText a b c d ≠ "::1".toList := by
    intro h
    have hmem : '.' ∈ quadText a b c d := by simp [quadText]
    rw [h] at hmem
    exact absurd hmem (by decide)
  rw [if_neg hne, readQuad_quadText ha hb hc hd]
  rfl

theorem inet4Net_literals : inet4Net.Literals where
  bare {t a} h := by
    change (if t = "::1".toList then some none else (readQuad t).map some) = some a at h
    split at h
    · next heq =>
      rw [heq]
      decide
    · obtain ⟨n, hn, -⟩ := Option.map_eq_some_iff.1 h
      obtain ⟨a, b, c, d, rfl⟩ := quadText_of_readQuad hn
      exact (solid_quadText a b c d).bare.mono fun _ => Java.trimmable_of_space
  quad {a b c d} ha hb hc hd :=
    ⟨some (quadValue a b c d), inet4Net_quadText ha hb hc hd, rfl⟩

theorem inet4Net_numbered : inet4Net.Numbered (·.getD 0) where
  literals := inet4Net_literals
  quad {a b c d x} ha hb hc hd h := by
    rw [inet4Net_quadText ha hb hc hd] at h
    cases h
    rfl
  colon {t a} h hcolon := by
    change (if t = "::1".toList then some none else (readQuad t).map some) = some a at h
    split at h
    · next heq =>
      rw [heq] at hcolon
      exact absurd (by decide) hcolon
    · obtain ⟨n, -, rfl⟩ := Option.map_eq_some_iff.1 h
      rfl

end Amnezia.Config
