import Amnezia.Config.Attribute

/-!
# Addresses, networks and endpoints

`InetAddresses`, `InetNetwork` and `InetEndpoint`.  The address classes and `java.net.URI` are the
platform's; what their documentation says of them is `Net.Documented`.
-/

namespace Amnezia.Config

open Java (Text)

/-- What the platform provides, for addresses of the type `Addr`. -/
structure Net (Addr : Type) where
  /-- `parseNumericAddress`; `none` is the `IllegalArgumentException`. -/
  parseNumericAddress : Text → Option Addr
  getHostAddress : Addr → Text
  /-- `address instanceof Inet4Address`. -/
  isInet4 : Addr → Bool
  /-- `getHost` and `getPort` of `new URI(text)`: none for the `URISyntaxException`, and nothing
  inside when the authority is not a host with an optional port. -/
  uri : Text → Option (Option (Text × Int))

inductive ParsingClass where
  | integer | inetAddress | inetNetwork | inetEndpoint
  deriving DecidableEq, Repr

structure ParseException where
  parsingClass : ParsingClass
  text : Text
  message : Option String
  deriving DecidableEq, Repr

/-- `[0-9A-Za-z](?:[0-9A-Za-z-]{0,61}[0-9A-Za-z])?`. -/
def isLabel (label : Text) : Bool :=
  decide (1 ≤ label.length ∧ label.length ≤ 63)
    && label.all (fun c => c.isAlphanum || c == '-')
    && label.head?.all Char.isAlphanum && label.getLast?.all Char.isAlphanum

/-- `InetAddresses.isHostname`: labels between dots, and a dot at the end or not. -/
def isHostname (s : Text) : Bool :=
  let labels := if s.getLast? = some '.' then s.dropLast else s
  decide (1 ≤ s.length ∧ s.length ≤ 255) && (labels.splitOn '.').all isLabel

section Model

variable {Addr : Type} (net : Net Addr)

def InetAddresses.parse (address : Text) : Except ParseException Addr :=
  if address = [] then .error ⟨.inetAddress, address, some "Empty address"⟩
  else match net.parseNumericAddress address with
    | none => .error ⟨.inetAddress, address, none⟩
    | some a => .ok a

structure InetNetwork (Addr : Type) where
  address : Addr
  mask : Int
  deriving DecidableEq, Repr

namespace InetNetwork

def cut (network : Text) : Option (Text × Text) := Fields.cutLast '/' network

def maxMask (address : Addr) : Int := if net.isInet4 address then 32 else 128

def ofMask (rawAddress maskString : Text) (rawMask : Int) :
    Except ParseException (InetNetwork Addr) := do
  let address ← InetAddresses.parse net rawAddress
  if maxMask net address < rawMask then
    throw ⟨.inetNetwork, maskString, some "Invalid network mask"⟩
  return ⟨address, if 0 ≤ rawMask then rawMask else maxMask net address⟩

def parse (network : Text) : Except ParseException (InetNetwork Addr) :=
  match cut network with
  | some (rawAddress, maskString) =>
    match Java.parseInt maskString with
    | none => .error ⟨.integer, maskString, none⟩
    | some rawMask => ofMask net rawAddress maskString rawMask
  | none => ofMask net network [] (-1)

def toString (n : InetNetwork Addr) : Text :=
  net.getHostAddress n.address ++ '/' :: Java.valueOf n.mask

end InetNetwork

structure InetEndpoint where
  host : Text
  isResolved : Bool
  port : Int
  deriving DecidableEq, Repr

namespace InetEndpoint

/-- A character of `[/?#]`. -/
def forbidden (c : Char) : Bool := ['/', '?', '#'].contains c

def parse (endpoint : Text) : Except ParseException InetEndpoint :=
  if endpoint.any forbidden then .error ⟨.inetEndpoint, endpoint, some "Forbidden characters"⟩
  else match net.uri ("awg://".toList ++ endpoint) with
    | none => .error ⟨.inetEndpoint, endpoint, none⟩
    | some none => .error ⟨.inetEndpoint, endpoint, some "Missing/invalid port number"⟩
    | some (some (host, port)) =>
      if port < 0 ∨ 65535 < port then
        .error ⟨.inetEndpoint, endpoint, some "Missing/invalid port number"⟩
      else .ok ⟨host, (InetAddresses.parse net host).isOk, port⟩

/-- `BARE_IPV6`: a colon, and no bracket. -/
def bareIpv6 (host : Text) : Bool := host.contains ':' && !host.contains '[' && !host.contains ']'

def toString (e : InetEndpoint) : Text :=
  (if e.isResolved && bareIpv6 e.host then '[' :: e.host ++ [']'] else e.host)
    ++ ':' :: Java.valueOf e.port

end InetEndpoint

end Model

def hostChar (c : Char) : Bool := Attribute.solidChar c && c != '/' && c != '?'

/-- Addresses and hosts are printable and read back from the text they give. -/
structure Net.Documented {Addr : Type} (net : Net Addr) : Prop where
  parse_getHostAddress : ∀ a, net.parseNumericAddress (net.getHostAddress a) = some a
  getHostAddress_ne_nil : ∀ a, net.getHostAddress a ≠ []
  getHostAddress_chars : ∀ a, ∀ c ∈ net.getHostAddress a, hostChar c = true
  uri_chars : ∀ {text host port}, net.uri text = some (some (host, port)) →
    ∀ c ∈ host, hostChar c = true
  /-- An address with colons is in brackets. -/
  uri_brackets : ∀ {text host port}, net.uri text = some (some (host, port)) →
    ':' ∈ host → '[' ∈ host
  uri_split : ∀ {text host port}, net.uri text = some (some (host, port)) → 0 ≤ port →
    net.uri ("awg://".toList ++ (host ++ ':' :: Java.valueOf port)) = some (some (host, port))

theorem hostChar_iff {c : Char} :
    hostChar c = true ↔ Attribute.solidChar c = true ∧ c ≠ '/' ∧ c ≠ '?' := by
  unfold hostChar
  rw [Bool.and_eq_true, Bool.and_eq_true, bne_iff_ne, bne_iff_ne, and_assoc]

variable {s : Text}

theorem mem_of_isHostname (h : isHostname s = true) :
    s ≠ [] ∧ ∀ c ∈ s, c.isAlphanum = true ∨ c = '-' ∨ c = '.' := by
  unfold isHostname at h
  rw [Bool.and_eq_true, decide_eq_true_iff, List.all_eq_true] at h
  refine ⟨List.ne_nil_of_length_pos (by omega), ?_⟩
  intro c hc
  -- a character is a dot, or in one of the labels
  have hlabel : ∀ labels : Text, (∀ l ∈ labels.splitOn '.', isLabel l = true) → c ∈ labels →
      c.isAlphanum = true ∨ c = '-' ∨ c = '.' := by
    intro labels hlabels hmem
    rcases Fields.mem_splitOn_or '.' hmem with rfl | ⟨l, hl, hcl⟩
    · exact .inr (.inr rfl)
    · have hl := hlabels l hl
      simp only [isLabel, Bool.and_eq_true, List.all_eq_true, Bool.or_eq_true, beq_iff_eq] at hl
      rcases hl.1.1.2 c hcl with hc | hc
      · exact .inl hc
      · exact .inr (.inl hc)
  by_cases hlast : s.getLast? = some '.'
  · rw [if_pos hlast] at h
    obtain ⟨init, rfl⟩ := List.getLast?_eq_some_iff.1 hlast
    rw [List.dropLast_concat] at h
    rcases List.mem_append.1 hc with hc | hc
    · exact hlabel init h.2 hc
    · exact .inr (.inr (List.mem_singleton.1 hc))
  · rw [if_neg hlast] at h
    exact hlabel s h.2 hc

theorem solid_of_isHostname (h : isHostname s = true) : Attribute.Solid s := by
  obtain ⟨hne, hchars⟩ := mem_of_isHostname h
  refine ⟨hne, fun c hc => ?_⟩
  rcases hchars c hc with hc | rfl | rfl
  · exact Attribute.solidChar_of_isAlphanum hc
  · decide
  · decide

theorem colon_notMem_of_isHostname (h : isHostname s = true) : ':' ∉ s := by
  intro hmem
  have hchar := (mem_of_isHostname h).2 ':' hmem
  revert hchar
  decide

section Documented

variable {Addr : Type} {net : Net Addr} (hnet : net.Documented)

include hnet

theorem solid_getHostAddress (a : Addr) : Attribute.Solid (net.getHostAddress a) where
  nonempty := hnet.getHostAddress_ne_nil a
  chars c hc := (hostChar_iff.1 (hnet.getHostAddress_chars a c hc)).1

theorem InetAddresses.parse_getHostAddress (a : Addr) :
    InetAddresses.parse net (net.getHostAddress a) = .ok a := by
  unfold InetAddresses.parse
  rw [if_neg (hnet.getHostAddress_ne_nil a), hnet.parse_getHostAddress]

variable {text : Text}

namespace InetNetwork

variable {t : Text}

omit hnet in
theorem cut_append (ht : '/' ∉ t) : cut (s ++ '/' :: t) = some (s, t) :=
  Fields.cutLast_append ht s

omit hnet in
theorem cut_eq_none (h : '/' ∉ s) : cut s = none := if_neg h

omit hnet in
theorem eq_of_cut {m : Text} (h : cut s = some (t, m)) : s = t ++ '/' :: m ∧ '/' ∉ m := by
  by_cases hmem : '/' ∈ s
  · obtain ⟨t', m', hs, hm'⟩ : ∃ t' m', s = t' ++ '/' :: m' ∧ '/' ∉ m' := by
      obtain ⟨l, r, hr, hnot⟩ := List.eq_append_cons_of_mem (List.mem_reverse.2 hmem)
      refine ⟨r.reverse, l.reverse, ?_, by rwa [List.mem_reverse]⟩
      rw [← List.reverse_inj, hr]
      simp
    rw [hs, cut_append hm'] at h
    cases h
    exact ⟨hs, hm'⟩
  · rw [cut_eq_none hmem] at h
    cases h

omit hnet in
theorem maxMask_cases (net : Net Addr) (a : Addr) : maxMask net a = 32 ∨ maxMask net a = 128 := by
  unfold maxMask
  split
  · exact .inl rfl
  · exact .inr rfl

variable {n : InetNetwork Addr}

omit hnet in
theorem ofMask_eq_ok {m : Text} {k : Int} :
    ofMask net t m k = .ok n ↔ ∃ a, InetAddresses.parse net t = .ok a ∧ k ≤ maxMask net a ∧
      n = ⟨a, if 0 ≤ k then k else maxMask net a⟩ := by
  unfold ofMask
  cases ha : InetAddresses.parse net t with
  | error e => exact ⟨nofun, fun ⟨a, h, _⟩ => nomatch h⟩
  | ok a =>
    show (if maxMask net a < k then _ else _) = _ ↔ _
    by_cases hlt : maxMask net a < k
    · rw [if_pos hlt]
      constructor
      · intro h
        cases h
      · rintro ⟨a', ha', hle, -⟩
        cases ha'
        omega
    · rw [if_neg hlt]
      constructor
      · intro h
        cases h
        exact ⟨a, rfl, by omega, rfl⟩
      · rintro ⟨a', ha', -, rfl⟩
        cases ha'
        rfl

omit hnet in
/-- What a text is that is read as a network: an address, or one with a number behind it. -/
theorem parse_cases (h : parse net text = .ok n) :
    (∃ k, cut text = none ∧ ofMask net text [] k = .ok n) ∨
      ∃ t m k, text = t ++ '/' :: m ∧ Java.parseInt m = some k ∧ ofMask net t m k = .ok n := by
  unfold parse at h
  split at h
  · next t m hcut =>
    split at h
    · cases h
    · next k hk => exact .inr ⟨t, m, k, (eq_of_cut hcut).1, hk, h⟩
  · next hcut => exact .inl ⟨-1, hcut, h⟩

omit hnet in
/-- A network that was parsed has a mask that fits its address. -/
theorem mask_of_parse (h : parse net text = .ok n) :
    0 ≤ n.mask ∧ n.mask ≤ maxMask net n.address := by
  have hof : ∀ {t m k}, ofMask net t m k = .ok n →
      0 ≤ n.mask ∧ n.mask ≤ maxMask net n.address := by
    intro t m k h
    obtain ⟨a, -, hle, rfl⟩ := ofMask_eq_ok.1 h
    have hmax := maxMask_cases net a
    show 0 ≤ (if 0 ≤ k then k else maxMask net a) ∧
      (if 0 ≤ k then k else maxMask net a) ≤ maxMask net a
    split <;> omega
  rcases parse_cases h with ⟨k, -, h⟩ | ⟨t, m, k, -, -, h⟩
  · exact hof h
  · exact hof h

theorem solid_toString (hmask : 0 ≤ n.mask) : Attribute.Solid (toString net n) := by
  obtain ⟨m, hm⟩ := Int.eq_ofNat_of_zero_le hmask
  refine ⟨by simp [toString], ?_⟩
  intro c hc
  unfold toString at hc
  rw [hm] at hc
  rcases List.mem_append.1 hc with hc | hc
  · exact (solid_getHostAddress hnet n.address).chars c hc
  · rcases List.mem_cons.1 hc with rfl | hc
    · decide
    · exact (Attribute.solid_valueOf m).chars c hc

theorem parse_toString (hmask : 0 ≤ n.mask) (hmax : n.mask ≤ maxMask net n.address) :
    parse net (toString net n) = .ok n := by
  obtain ⟨m, hm⟩ := Int.eq_ofNat_of_zero_le hmask
  have hle : maxMask net n.address ≤ 128 := by
    unfold maxMask
    split <;> decide
  have hslash : '/' ∉ Java.valueOf m := by
    intro h
    exact absurd (Java.isDigit_of_mem_valueOf h) (by decide)
  have hcut : cut (toString net n) = some (net.getHostAddress n.address, Java.valueOf m) := by
    unfold toString
    rw [hm, cut_append hslash]
  have hint : Java.parseInt (Java.valueOf m) = some (m : Int) :=
    Java.parseInt_valueOf (by omega)
  unfold parse ofMask
  rw [hcut]
  simp only [hint]
  rw [InetAddresses.parse_getHostAddress hnet]
  show (do
    if maxMask net n.address < (m : Int) then
      throw ⟨.inetNetwork, Java.valueOf m, some "Invalid network mask"⟩
    return ⟨n.address, if 0 ≤ (m : Int) then (m : Int) else maxMask net n.address⟩ :
      Except ParseException (InetNetwork Addr)) = .ok n
  rw [if_neg (by omega), if_pos (by omega), ← hm]
  rfl

end InetNetwork

namespace InetEndpoint

/-- An endpoint with the host and the port of some URI. -/
structure Valid (net : Net Addr) (e : InetEndpoint) : Prop where
  uri : ∃ text, net.uri text = some (some (e.host, e.port))
  port_nonneg : 0 ≤ e.port
  port_le : e.port ≤ 65535
  isResolved : e.isResolved = (InetAddresses.parse net e.host).isOk

variable {e : InetEndpoint}

omit hnet in
theorem valid_of_parse (h : parse net text = .ok e) : Valid net e := by
  unfold parse at h
  split at h
  · cases h
  · split at h
    · cases h
    · cases h
    · next host port huri =>
      split at h
      · cases h
      · cases h
        exact ⟨⟨_, huri⟩, by show 0 ≤ port; omega, by show port ≤ 65535; omega, rfl⟩

theorem toString_eq (h : Valid net e) : toString e = e.host ++ ':' :: Java.valueOf e.port := by
  obtain ⟨text, huri⟩ := h.uri
  have hbare : bareIpv6 e.host = false := by
    unfold bareIpv6
    by_cases hcolon : ':' ∈ e.host
    · have hbracket := hnet.uri_brackets huri hcolon
      simp [hbracket]
    · simp [hcolon]
  unfold toString
  rw [hbare, Bool.and_false]
  rfl

theorem solid_toString (h : Valid net e) : Attribute.Solid (toString e) := by
  obtain ⟨text, huri⟩ := h.uri
  obtain ⟨m, hm⟩ := Int.eq_ofNat_of_zero_le h.port_nonneg
  rw [toString_eq hnet h, hm]
  refine ⟨by simp, ?_⟩
  intro c hc
  rcases List.mem_append.1 hc with hc | hc
  · exact (hostChar_iff.1 (hnet.uri_chars huri c hc)).1
  · rcases List.mem_cons.1 hc with rfl | hc
    · decide
    · exact (Attribute.solid_valueOf m).chars c hc

theorem parse_toString (h : Valid net e) : parse net (toString e) = .ok e := by
  obtain ⟨text, huri⟩ := h.uri
  obtain ⟨m, hm⟩ := Int.eq_ofNat_of_zero_le h.port_nonneg
  have hforbidden : (toString e).any forbidden = false := by
    rw [List.any_eq_false]
    intro c hc
    unfold forbidden
    rw [List.contains_iff_mem]
    have hsharp := (Attribute.solidChar_iff.1 ((solid_toString hnet h).chars c hc)).2.1
    rw [toString_eq hnet h, hm] at hc
    rcases List.mem_append.1 hc with hc | hc
    · have hchar := hostChar_iff.1 (hnet.uri_chars huri c hc)
      simp [hchar.2.1, hchar.2.2, hsharp]
    · rcases List.mem_cons.1 hc with rfl | hc
      · decide
      · have hdigit := Java.isDigit_of_mem_valueOf hc
        have hnone : ['/', '?', '#'].all (!Char.isDigit ·) = true := by decide
        intro hmem
        have hc := List.all_eq_true.1 hnone c hmem
        rw [hdigit] at hc
        exact absurd hc (by decide)
  have hport := h.port_nonneg
  have hle := h.port_le
  unfold parse
  rw [hforbidden, toString_eq hnet h, hnet.uri_split huri h.port_nonneg]
  simp only [Bool.false_eq_true, if_false]
  rw [if_neg (by omega), ← h.isResolved]

end InetEndpoint

end Documented

end Amnezia.Config
