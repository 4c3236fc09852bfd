import Amnezia.Config.Stored
import Amnezia.Tools.PrintedPeer

/-!
# Prefixes of networks

`InetNetwork.parse` and the loop of `parse_allowedips` against what the text of a network means: a
numeric address, alone or with a decimal prefix.  `Integer.parseInt` takes a sign and the digits of
any script, and a negative number stands for no prefix at all.
-/

namespace Amnezia.Config.InetNetwork

open Java (Text)

variable {Addr : Type} {net : Net Addr} {n : InetNetwork Addr} {s t m : Text}

variable (net) in
/-- The network that a text stands for. -/
inductive Denotes : Text → InetNetwork Addr → Prop
  | address {s : Text} {a : Addr} (ha : InetAddresses.parse net s = .ok a) :
      Denotes s ⟨a, maxMask net a⟩
  | prefixed {t m : Text} {a : Addr} (ha : InetAddresses.parse net t = .ok a) (hne : m ≠ [])
      (hdigits : ∀ c ∈ m, c.isDigit = true)
      (hmax : (Nat.ofDigitChars 10 m 0 : Int) ≤ maxMask net a) :
      Denotes (t ++ '/' :: m) ⟨a, Nat.ofDigitChars 10 m 0⟩

theorem slash_notMem_of_isDigit (h : ∀ c ∈ m, c.isDigit = true) : '/' ∉ m := by
  intro hmem
  exact absurd (h _ hmem) (by decide)

theorem denotes_of_notMem (hs : '/' ∉ s) : Denotes net s n ↔
      InetAddresses.parse net s = .ok n.address ∧ n.mask = maxMask net n.address := by
  constructor
  · intro h
    cases h with
    | address ha => exact ⟨ha, rfl⟩
    | prefixed => exact absurd (List.mem_append_right _ List.mem_cons_self) hs
  · rintro ⟨ha, hmask⟩
    have hn : n = ⟨n.address, maxMask net n.address⟩ := by rw [← hmask]
    rw [hn]
    exact .address ha

theorem denotes_of_mem (hslash : ∀ t a, InetAddresses.parse net t = .ok a → '/' ∉ t) :
    Denotes net (t ++ '/' :: m) n ↔
      InetAddresses.parse net t = .ok n.address ∧ m ≠ [] ∧ (∀ c ∈ m, c.isDigit = true) ∧
        (Nat.ofDigitChars 10 m 0 : Int) ≤ maxMask net n.address ∧
        n.mask = Nat.ofDigitChars 10 m 0 := by
  constructor
  · intro h
    generalize hs : t ++ '/' :: m = s at h
    cases h with
    | @address _ a ha =>
      have hmem : '/' ∈ s := by
        rw [← hs]
        exact List.mem_append_right _ List.mem_cons_self
      exact absurd hmem (hslash s a ha)
    | @prefixed t' m' a ha hne hdigits hmax =>
      obtain ⟨rfl, -, rfl⟩ := (List.append_cons_inj_of_notMem (hslash t' a ha)
        (slash_notMem_of_isDigit hdigits)).1 hs.symm
      exact ⟨ha, hne, hdigits, hmax, rfl⟩
  · rintro ⟨ha, hne, hdigits, hmax, hmask⟩
    obtain ⟨a, mask⟩ := n
    cases hmask
    exact .prefixed ha hne hdigits hmax

theorem parse_of_denotes (hslash : ∀ t a, InetAddresses.parse net t = .ok a → '/' ∉ t)
    (h : Denotes net s n) : parse net s = .ok n := by
  unfold parse
  cases h with
  | @address _ a ha =>
    have hmax := maxMask_cases net a
    rw [cut_eq_none (hslash s a ha)]
    exact ofMask_eq_ok.2 ⟨a, ha, by omega, rfl⟩
  | @prefixed t m a ha hne hdigits hmax =>
    have hcases := maxMask_cases net a
    rw [cut_append (slash_notMem_of_isDigit hdigits)]
    simp only [Java.parseInt_of_isDigit hne hdigits]
    rw [if_pos (by omega)]
    refine ofMask_eq_ok.2 ⟨a, ha, hmax, ?_⟩
    rw [if_pos (Int.natCast_nonneg _)]

theorem digits_of_denotes (hslash : ∀ t a, InetAddresses.parse net t = .ok a → '/' ∉ t)
    (h : Denotes net s n) (hcut : cut s = some (t, m)) : ∀ c ∈ m, c.isDigit = true := by
  cases h with
  | @address _ a ha =>
    rw [cut_eq_none (hslash s a ha)] at hcut
    cases hcut
  | @prefixed t' m' a ha hne hdigits hmax =>
    rw [cut_append (slash_notMem_of_isDigit hdigits)] at hcut
    cases hcut
    exact hdigits

theorem parse_of_cut (hcut : cut s = some (t, m)) : parse net s = .ok n ↔
    ∃ k a, Java.parseInt m = some k ∧ InetAddresses.parse net t = .ok a ∧ k ≤ maxMask net a ∧
      n = ⟨a, if 0 ≤ k then k else maxMask net a⟩ := by
  unfold parse
  rw [hcut]
  simp only
  cases Java.parseInt m with
  | none => exact ⟨nofun, fun ⟨_, _, h, _⟩ => nomatch h⟩
  | some k => simp only [ofMask_eq_ok, Option.some.injEq, ↓existsAndEq, true_and]

theorem denotes_of_parse (h : parse net s = .ok n)
    (hdigits : ∀ t m, cut s = some (t, m) → ∀ c ∈ m, c.isDigit = true) : Denotes net s n := by
  cases hcut : cut s with
  | some r =>
    obtain ⟨t, m⟩ := r
    have hm := hdigits t m hcut
    obtain ⟨k, a, hk, ha, hle, rfl⟩ := (parse_of_cut hcut).1 h
    obtain ⟨rfl, -⟩ := eq_of_cut hcut
    have hne : m ≠ [] := by
      rintro rfl
      cases hk
    rw [Java.parseInt_of_isDigit hne hm] at hk
    split at hk
    · cases hk
      rw [if_pos (Int.natCast_nonneg _)]
      exact .prefixed ha hne hm hle
    · cases hk
  | none =>
    unfold parse at h
    rw [hcut] at h
    obtain ⟨a, ha, -, rfl⟩ := ofMask_eq_ok.1 h
    exact .address ha

end Amnezia.Config.InetNetwork

namespace Amnezia.Tools

open Config (Net InetNetwork)
open Java (Text)
open Libc (Bytes utf8)

variable {Addr : Type} {net : Net Addr} {sys : Resolver Addr} {n : InetNetwork Addr} {s t m : Text}

variable (net sys) in
/-- Java and the C library read the same numeric addresses, and there is no `/` in one. -/
structure SameAddresses : Prop where
  same : ∀ t f a, parseIp sys (utf8 t) = .ok (f, a) ↔
    Config.InetAddresses.parse net t = .ok a ∧ f = familyOf net a
  slash : ∀ t a, Config.InetAddresses.parse net t = .ok a → '/' ∉ t

theorem charIsDigit_iff {c : Char} (h : c.toNat < 256) : Libc.charIsDigit c = true ↔ c.isDigit = true :=
  Libc.forall_byte (P := fun c => Libc.charIsDigit c = true ↔ c.isDigit = true) (by decide +kernel) h

-- A first digit, and nothing left when the digits end.
theorem parseCidr_some_eq_ok {f : Family} {mask : Bytes} (hbytes : ∀ c ∈ mask, c.toNat < 256)
    {cidr : Nat} : parseCidr f (some mask) = .ok cidr ↔ mask ≠ [] ∧
      (∀ c ∈ mask, c.isDigit = true) ∧ Nat.ofDigitChars 10 mask 0 ≤ f.maxCidr ∧
      cidr = Nat.ofDigitChars 10 mask 0 := by
  have hmax : f.maxCidr ≤ 128 := by cases f <;> decide
  cases mask with
  | nil => exact ⟨nofun, fun h => absurd rfl h.1⟩
  | cons c cs =>
    unfold parseCidr
    show (if Libc.charIsDigit c = false then _ else _) = _ ↔ _
    by_cases hc : c.isDigit = true
    · rw [if_neg (by simp [(charIsDigit_iff (hbytes c (by simp))).2 hc]), Libc.strtoul_of_isDigit hc]
      simp only
      constructor
      · intro h
        split at h
        · cases h
        · next hok =>
          rw [not_or, not_not, not_lt] at hok
          have hall : ∀ d ∈ c :: cs, d.isDigit = true := List.dropWhile_eq_nil_iff.1 hok.1
          have htake : (c :: cs).takeWhile Char.isDigit = c :: cs := List.takeWhile_eq_self_iff.2 hall
          cases h
          rw [htake] at hok ⊢
          have hmin : Nat.ofDigitChars 10 (c :: cs) 0 ≤ f.maxCidr := by
            have hle := hok.2
            unfold Libc.ulongMax at hle
            omega
          refine ⟨List.cons_ne_nil _ _, hall, hmin, ?_⟩
          exact Nat.min_eq_right (by unfold Libc.ulongMax; omega)
      · rintro ⟨-, hall, hle, rfl⟩
        have htake : (c :: cs).takeWhile Char.isDigit = c :: cs := List.takeWhile_eq_self_iff.2 hall
        have hdrop : (c :: cs).dropWhile Char.isDigit = [] := List.dropWhile_eq_nil_iff.2 hall
        have hmin : min Libc.ulongMax (Nat.ofDigitChars 10 (c :: cs) 0) =
            Nat.ofDigitChars 10 (c :: cs) 0 := Nat.min_eq_right (by unfold Libc.ulongMax; omega)
        rw [htake, hdrop, hmin, if_neg (by rw [not_or, not_not, not_lt]; exact ⟨rfl, hle⟩)]
    · have hnot : Libc.charIsDigit c = false := by
        rw [← Bool.not_eq_true, charIsDigit_iff (hbytes c (by simp))]
        exact hc
      rw [if_pos hnot]
      exact ⟨nofun, fun h => absurd (h.2.1 c (by simp)) hc⟩

theorem parseAllowedIp_eq_ok {entry ip : Bytes} {mask : Option Bytes}
    (hsep : Libc.strsep '/' entry = (ip, mask)) {f : Family} {a : Addr} {cidr : Nat} :
    parseAllowedIp sys entry = .ok ⟨f, a, cidr⟩ ↔
      parseIp sys ip = .ok (f, a) ∧ parseCidr f mask = .ok cidr := by
  unfold parseAllowedIp
  rw [hsep]
  simp only
  constructor
  · intro h
    obtain ⟨⟨f', a'⟩, hip, h⟩ := Loops.bind_eq_ok.1 h
    obtain ⟨cidr', hcidr, h⟩ := Loops.bind_eq_ok.1 h
    cases h
    exact ⟨hip, hcidr⟩
  · rintro ⟨hip, hcidr⟩
    rw [hip]
    simp only [Loops.ok_bind]
    rw [hcidr]
    rfl

theorem lt_of_isDigit {c : Char} (h : c.isDigit = true) : c.toNat < 128 := by
  rw [Java.isDigit_iff] at h
  omega

-- The bytes of a character outside ASCII are outside ASCII.
theorem ascii_of_utf8 (h : ∀ c ∈ utf8 t, c.toNat < 128) : utf8 t = t := by
  apply Libc.utf8_of_ascii
  intro c hc
  by_contra hascii
  obtain ⟨b, bs, hb⟩ := List.exists_cons_of_ne_nil (Libc.utf8Char_ne_nil c)
  have hmem : b ∈ Libc.utf8Char c := by simp [hb]
  have hlt := h b (List.mem_flatMap.2 ⟨c, hc, hmem⟩)
  rcases Libc.mem_utf8Char hmem with ⟨rfl, -⟩ | hbyte
  · exact hascii hlt
  · omega

theorem isDigit_utf8_iff : (∀ c ∈ utf8 m, c.isDigit = true) ↔ ∀ c ∈ m, c.isDigit = true := by
  constructor
  · intro h
    rw [← ascii_of_utf8 fun c hc => lt_of_isDigit (h c hc)]
    exact h
  · intro h
    rw [Libc.utf8_of_ascii fun c hc => lt_of_isDigit (h c hc)]
    exact h

/-- One round of `parse_allowedips` accepts the texts of networks. -/
theorem denotes_iff_parseAllowedIp (hsame : SameAddresses net sys) :
    InetNetwork.Denotes net s n ↔ ∃ cidr : Nat, n.mask = cidr ∧
      parseAllowedIp sys (utf8 s) = .ok ⟨familyOf net n.address, n.address, cidr⟩ := by
  have hbytes : ∀ m : Text, ∀ c ∈ utf8 m, c.toNat < 256 := by
    intro m c hc
    rcases Libc.mem_utf8 hc with ⟨-, h⟩ | ⟨-, h⟩ <;> omega
  have hnotMem : ∀ t : Text, '/' ∉ t → '/' ∉ utf8 t :=
    fun t ht hmem => ht ((Libc.mem_utf8_iff (by decide)).1 hmem)
  have hmax : ((familyOf net n.address).maxCidr : Int) = InetNetwork.maxMask net n.address :=
    maxCidr_familyOf n.address
  by_cases hmem : '/' ∈ s
  · obtain ⟨t, m, rfl, ht⟩ := List.eq_append_cons_of_mem hmem
    have hsep : Libc.strsep '/' (utf8 (t ++ '/' :: m)) = (utf8 t, some (utf8 m)) := by
      rw [Libc.utf8_append, Libc.utf8_cons, Libc.utf8Char_of_lt (by decide)]
      exact Libc.strsep_append (hnotMem t ht) (utf8 m)
    simp only [parseAllowedIp_eq_ok hsep, hsame.same, parseCidr_some_eq_ok (hbytes m)]
    rw [InetNetwork.denotes_of_mem hsame.slash]
    constructor
    · rintro ⟨ha, hne, hdigits, hle, hmask⟩
      have hascii := Libc.utf8_of_ascii (s := m) (fun c hc => lt_of_isDigit (hdigits c hc))
      refine ⟨_, hmask, ⟨ha, trivial⟩, ?_⟩
      rw [hascii]
      exact ⟨hne, hdigits, by omega, rfl⟩
    · rintro ⟨cidr, hmask, ⟨ha, -⟩, hne, hdigits, hle, rfl⟩
      have hdigits' := isDigit_utf8_iff.1 hdigits
      have hascii := Libc.utf8_of_ascii (s := m) (fun c hc => lt_of_isDigit (hdigits' c hc))
      rw [hascii] at hne hle hmask
      exact ⟨ha, hne, hdigits', by omega, hmask⟩
  · have hsep : Libc.strsep '/' (utf8 s) = (utf8 s, none) := Libc.strsep_of_notMem (hnotMem s hmem)
    simp only [parseAllowedIp_eq_ok hsep, hsame.same]
    rw [InetNetwork.denotes_of_notMem hmem]
    constructor
    · rintro ⟨ha, hmask⟩
      exact ⟨_, by rw [hmask, hmax], ⟨ha, trivial⟩, rfl⟩
    · rintro ⟨cidr, hmask, ⟨ha, -⟩, hcidr⟩
      cases hcidr
      exact ⟨ha, by rw [hmask, hmax]⟩

/-- `InetNetwork.parse` reads every text of a network, as `parse_allowedips` does.  It accepts no
other text exactly when the prefix is made of ASCII digits, or the address is not read or the prefix
is no integer or too large. -/
theorem parse_network_iff (hsame : SameAddresses net sys) (s : Text) :
    (∀ n, InetNetwork.Denotes net s n → InetNetwork.parse net s = .ok n) ∧
      ((∀ n, InetNetwork.parse net s = .ok n ↔ InetNetwork.Denotes net s n) ↔
        ∀ t m, InetNetwork.cut s = some (t, m) → (∀ c ∈ m, c.isDigit = true) ∨
          ∀ a k, Config.InetAddresses.parse net t = .ok a → Java.parseInt m = some k →
            InetNetwork.maxMask net a < k) ∧
      ∀ n, InetNetwork.Denotes net s n ↔ ∃ cidr : Nat, n.mask = cidr ∧
        parseAllowedIp sys (utf8 s) = .ok ⟨familyOf net n.address, n.address, cidr⟩ := by
  have hread : ∀ n, InetNetwork.Denotes net s n → InetNetwork.parse net s = .ok n :=
    fun n => InetNetwork.parse_of_denotes hsame.slash
  refine ⟨hread, ⟨fun hall t m hcut => ?_, fun hcond n => ⟨fun hok => ?_, hread n⟩⟩,
    fun n => denotes_iff_parseAllowedIp hsame⟩
  · by_cases hdigits : ∀ c ∈ m, c.isDigit = true
    · exact .inl hdigits
    · refine .inr fun a k ha hk => ?_
      by_contra hle
      have hok := (InetNetwork.parse_of_cut hcut).2 ⟨k, a, hk, ha, not_lt.1 hle, rfl⟩
      exact hdigits (InetNetwork.digits_of_denotes hsame.slash ((hall _).1 hok) hcut)
  · refine InetNetwork.denotes_of_parse hok fun t m hcut => ?_
    obtain ⟨k, a, hk, ha, hle, -⟩ := (InetNetwork.parse_of_cut hcut).1 hok
    exact (hcond t m hcut).resolve_right fun hlarge => absurd (hlarge a k ha hk) (not_lt.2 hle)

def exampleResolver : Resolver Bool where
  inetPton4 := Config.exampleNet.parseNumericAddress
  inetPton6 _ := none
  service _ := none
  getaddrinfo _ _ := none

theorem exampleNet_address {a : Bool} (h : Config.exampleNet.parseNumericAddress t = some a) :
    t = "1.1.1.1".toList ∨ t = "10.0.0.2".toList := by
  simp only [Config.exampleNet] at h
  split at h
  · exact .inl ‹_›
  · split at h
    · exact .inr ‹_›
    · cases h

theorem exampleNet_utf8 (t : Text) :
    Config.exampleNet.parseNumericAddress (utf8 t) = Config.exampleNet.parseNumericAddress t := by
  have hascii : ∀ s : Text, s = "1.1.1.1".toList ∨ s = "10.0.0.2".toList → ∀ c ∈ s, c.toNat < 128 := by
    have hall : ["1.1.1.1".toList, "10.0.0.2".toList].all (·.all (·.toNat < 128)) = true := by decide
    intro s hs c hc
    have hmem : s ∈ ["1.1.1.1".toList, "10.0.0.2".toList] := by simpa using hs
    have hchars := List.all_eq_true.1 (List.all_eq_true.1 hall s hmem) c hc
    exact of_decide_eq_true hchars
  have heq : ∀ s : Text, s = "1.1.1.1".toList ∨ s = "10.0.0.2".toList → (utf8 t = s ↔ t = s) := by
    intro s hs
    constructor
    · intro h
      rw [← h]
      exact (ascii_of_utf8 (h ▸ hascii s hs)).symm
    · rintro rfl
      exact Libc.utf8_of_ascii (hascii t hs)
  simp only [Config.exampleNet, heq _ (.inl rfl), heq _ (.inr rfl)]

theorem exampleNet_parse {a : Bool} :
    Config.InetAddresses.parse Config.exampleNet t = .ok a ↔
      Config.exampleNet.parseNumericAddress t = some a := by
  unfold Config.InetAddresses.parse
  split
  · next hnil =>
    subst hnil
    exact ⟨nofun, nofun⟩
  · cases Config.exampleNet.parseNumericAddress t with
    | none => exact ⟨nofun, nofun⟩
    | some b => rw [Except.ok.injEq, Option.some.injEq]

theorem sameAddresses_example : SameAddresses Config.exampleNet exampleResolver where
  same t f a := by
    unfold parseIp
    rw [exampleNet_parse]
    split
    · next hcolon =>
      rw [Libc.mem_utf8_iff (by decide)] at hcolon
      refine ⟨nofun, ?_⟩
      rintro ⟨ha, -⟩
      rcases exampleNet_address ha with rfl | rfl
      · exact absurd hcolon (by decide)
      · exact absurd hcolon (by decide)
    · rw [show exampleResolver.inetPton4 (utf8 t) = Config.exampleNet.parseNumericAddress t from
        exampleNet_utf8 t]
      cases Config.exampleNet.parseNumericAddress t with
      | none => exact ⟨nofun, fun h => nomatch h.1⟩
      | some b =>
        rw [Except.ok.injEq, Prod.mk.injEq, Option.some.injEq, and_comm, eq_comm (a := Family.inet)]
        rfl
  slash t a h := by
    rcases exampleNet_address (exampleNet_parse.1 h) with rfl | rfl
    · decide
    · decide

theorem parse_network_example :
    InetNetwork.parse Config.exampleNet "10.0.0.2/24".toList = .ok ⟨false, 24⟩ := by
  have hdigits : "24".toList.all Char.isDigit = true := by decide
  have hdenotes : InetNetwork.Denotes Config.exampleNet ("10.0.0.2".toList ++ '/' :: "24".toList)
      ⟨false, Nat.ofDigitChars 10 "24".toList 0⟩ :=
    .prefixed rfl (by decide) (List.all_eq_true.1 hdigits) (by decide)
  exact (parse_network_iff sameAddresses_example _).1 _ hdenotes

/-- A negative prefix is read as none. -/
theorem parse_network_negative :
    InetNetwork.parse Config.exampleNet "10.0.0.2/-1".toList = .ok ⟨false, 32⟩ ∧
      ¬ InetNetwork.Denotes Config.exampleNet "10.0.0.2/-1".toList ⟨false, 32⟩ := by
  refine ⟨by decide, ?_⟩
  intro h
  have hdigits := InetNetwork.digits_of_denotes sameAddresses_example.slash h
    (t := "10.0.0.2".toList) (m := "-1".toList) (by decide)
  exact absurd (hdigits '-' (by decide)) (by decide)

end Amnezia.Tools
