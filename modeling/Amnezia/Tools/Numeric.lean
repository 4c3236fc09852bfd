import Amnezia.Tools.UapiRead

/-!
# Numeric addresses

`inet_ntop` and `getnameinfo` print what `inet_pton` and `getaddrinfo` give, and these read it back.
-/

namespace Amnezia.Tools

open Libc (Bytes)

def addressChar (c : Char) : Bool := c.isAlphanum || c == '.' || c == ':'

theorem addressChar_iff {c : Char} :
    addressChar c = true ↔ c.isAlphanum = true ∨ c = '.' ∨ c = ':' := by
  simp [addressChar, or_assoc]

/-- A character that a line keeps, in a file and in the text protocol. -/
def Plain (c : Char) : Prop := Libc.charIsSpace c = false ∧ c ≠ '#' ∧ c ≠ '\x00'

theorem plain_of_toNat {c : Char} (hlow : 35 < c.toNat) (hhigh : c.toNat < 256) : Plain c := by
  refine ⟨?_, ?_, ?_⟩
  · rw [Libc.charIsSpace_eq]
    exact Libc.isspace_of_gt (by omega) hhigh
  · rintro rfl
    exact absurd hlow (by decide)
  · rintro rfl
    exact absurd hlow (by decide)

theorem plain_of_isAlphanum {c : Char} (h : c.isAlphanum = true) : Plain c := by
  have hcode := Java.isAlphanum_iff.1 h
  exact plain_of_toNat (by omega) (by omega)

theorem plain_of_addressChar {c : Char} (h : addressChar c = true) : Plain c := by
  rcases addressChar_iff.1 h with h | rfl | rfl
  · exact plain_of_isAlphanum h
  · exact plain_of_toNat (by decide) (by decide)
  · exact plain_of_toNat (by decide) (by decide)

theorem plain_of_isDigit {c : Char} (h : c.isDigit = true) : Plain c := by
  have hcode := Java.isDigit_iff.1 h
  exact plain_of_toNat (by omega) (by omega)

theorem inLine_of_plain {text : Bytes} (h : ∀ c ∈ text, Plain c) : InLine text :=
  ⟨fun hmem => absurd (h _ hmem).1 (by decide), fun hmem => (h _ hmem).2.2 rfl⟩

/-- The host that `getnameinfo` prints: an address, with the name of an interface perhaps. -/
structure HostText (host : Bytes) : Prop where
  chars : ∀ c ∈ host, Plain c
  head : host.head? ≠ some '['
  bracket : ']' ∉ host

section Laws

variable {Addr : Type} {names : Namer Addr} {sys : Resolver Addr}

/-- The printing functions are inverse to the reading ones; a port has 16 bits. -/
structure Namer.Inverse (names : Namer Addr) (sys : Resolver Addr) : Prop where
  inet : ∀ s ip, sys.inetPton4 s = some ip → ∃ text, names.inetNtop .inet ip = some text
    ∧ sys.inetPton4 text = some ip ∧ ':' ∉ text ∧ ∀ c ∈ text, addressChar c = true
  inet6 : ∀ s ip, sys.inetPton6 s = some ip → ∃ text, names.inetNtop .inet6 ip = some text
    ∧ sys.inetPton6 text = some ip ∧ ':' ∈ text ∧ ∀ c ∈ text, addressChar c = true
  endpoint : ∀ node service e, sys.getaddrinfo node service = some e →
    ∃ host, names.getnameinfo e = some (host, Java.valueOf e.2)
      ∧ sys.getaddrinfo host (Java.valueOf e.2) = some e ∧ HostText host
  port : ∀ service n, sys.service service = some n → n ≤ 65535

variable (hinv : names.Inverse sys)
include hinv

theorem allowedIpText_read {ip : WgAllowedIp Addr} (hip : IpRead sys ip) :
    ∃ text, allowedIpText names ip = some (text ++ '/' :: Java.valueOf ip.cidr)
      ∧ parseIp sys text = .ok (ip.family, ip.ip) ∧ ∀ c ∈ text, addressChar c = true := by
  obtain ⟨family, ip, cidr⟩ := ip
  have haddr := hip.addr
  unfold allowedIpText parseIp
  cases family with
  | inet =>
    obtain ⟨s, hs⟩ := haddr
    obtain ⟨text, htext, hread, hcolon, hchars⟩ := hinv.inet s ip hs
    refine ⟨text, by rw [htext]; rfl, ?_, hchars⟩
    rw [if_neg hcolon, hread]
  | inet6 =>
    obtain ⟨s, hs⟩ := haddr
    obtain ⟨text, htext, hread, hcolon, hchars⟩ := hinv.inet6 s ip hs
    refine ⟨text, by rw [htext]; rfl, ?_, hchars⟩
    rw [if_pos hcolon, hread]

theorem endpointText_read {e : Addr × Nat} {node service : Bytes}
    (he : sys.getaddrinfo node service = some e) :
    ∃ text host port, endpointText names e = some text ∧ splitEndpoint text = some (host, port)
      ∧ sys.getaddrinfo host port = some e ∧ ∀ c ∈ text, Plain c := by
  obtain ⟨host, hname, hread, hhost⟩ := hinv.endpoint node service e he
  have hport := Java.valueOf_ne_nil e.2
  have hcolon : ':' ∉ Java.valueOf e.2 := fun h => absurd (Java.isDigit_of_mem_valueOf h) (by decide)
  have hdigits : ∀ c ∈ Java.valueOf e.2, Plain c := fun c hc =>
    plain_of_isDigit (Java.isDigit_of_mem_valueOf hc)
  unfold endpointText
  rw [hname]
  simp only [Option.map_some]
  split
  · refine ⟨_, host, Java.valueOf e.2, rfl, splitEndpoint_bracketed hhost.bracket hport, hread, ?_⟩
    simp only [List.cons_append, List.mem_cons, List.mem_append]
    rintro c (rfl | hc | rfl | rfl | hc)
    · exact plain_of_toNat (by decide) (by decide)
    · exact hhost.chars c hc
    · exact plain_of_toNat (by decide) (by decide)
    · exact plain_of_toNat (by decide) (by decide)
    · exact hdigits c hc
  · refine ⟨_, host, Java.valueOf e.2, rfl, splitEndpoint_plain hhost.head hport hcolon, hread, ?_⟩
    simp only [List.mem_cons, List.mem_append]
    rintro c (hc | rfl | hc)
    · exact hhost.chars c hc
    · exact plain_of_toNat (by decide) (by decide)
    · exact hdigits c hc

end Laws

def pairText : Bool → Bytes
  | false => "10.0.0.2".toList
  | true => "fd00::2".toList

def pairResolver : Resolver Bool where
  inetPton4 s := if s = pairText false then some false else none
  inetPton6 s := if s = pairText true then some true else none
  service := num 65535
  getaddrinfo node service :=
    if node = pairText false then (num 65535 service).map (false, ·)
    else if node = pairText true then (num 65535 service).map (true, ·)
    else none

def pairNamer : Namer Bool where
  family
    | false => .inet
    | true => .inet6
  inetNtop
    | .inet, false => some (pairText false)
    | .inet6, true => some (pairText true)
    | _, _ => none
  getnameinfo e := some (pairText e.1, Java.valueOf e.2)

theorem num_le {max n : Nat} {value : Bytes} (h : num max value = some n) : n ≤ max := by
  unfold num at h
  split at h
  · cases h
  · simp only at h
    split at h
    · cases h
    · cases h
      omega

theorem addressChar_pairText (b : Bool) : ∀ c ∈ pairText b, addressChar c = true := by
  rw [← List.all_eq_true]
  cases b <;> decide

theorem hostText_pairText (b : Bool) : HostText (pairText b) :=
  ⟨fun c hc => plain_of_addressChar (addressChar_pairText b c hc), by cases b <;> decide,
    by cases b <;> decide⟩

theorem pairNamer_inverse : pairNamer.Inverse pairResolver := by
  have hend : ∀ (b : Bool) (service : Bytes) (e : Bool × Nat),
      (num 65535 service).map (b, ·) = some e → e.1 = b ∧ e.2 ≤ 65535 := by
    intro b service e he
    obtain ⟨n, hn, rfl⟩ := Option.map_eq_some_iff.1 he
    exact ⟨rfl, num_le hn⟩
  have hback : ∀ (b : Bool) (n : Nat), n ≤ 65535 →
      pairResolver.getaddrinfo (pairText b) (Java.valueOf n) = some (b, n) := by
    intro b n hn
    have hnum : num 65535 (Java.valueOf n) = some n := num_valueOf hn (by decide)
    have hget : pairResolver.getaddrinfo (pairText b) (Java.valueOf n) =
        (num 65535 (Java.valueOf n)).map (b, ·) := by
      cases b <;> rfl
    rw [hget, hnum]
    rfl
  refine ⟨?_, ?_, ?_, fun _ _ h => num_le h⟩
  · intro s ip h
    obtain ⟨_, h⟩ := Option.ite_none_right_eq_some.1 h
    cases h
    exact ⟨pairText false, rfl, rfl, by decide, addressChar_pairText false⟩
  · intro s ip h
    obtain ⟨_, h⟩ := Option.ite_none_right_eq_some.1 h
    cases h
    exact ⟨pairText true, rfl, rfl, by decide, addressChar_pairText true⟩
  · intro node service e h
    have he : e.2 ≤ 65535 := by
      change (if node = pairText false then _ else _) = _ at h
      split at h
      · exact (hend false service e h).2
      · obtain ⟨_, h⟩ := Option.ite_none_right_eq_some.1 h
        exact (hend true service e h).2
    exact ⟨pairText e.1, rfl, hback e.1 e.2 he, hostText_pairText e.1⟩

def pairFile : Bytes :=
  ["[Interface]".toList, keyLine "PrivateKey" "AQEBAQEBAQEBAQEBAQEBAQEBAQEBAQEBAQEBAQEBAQE=".toList,
    keyLine "ListenPort" "51820".toList, keyLine "FwMark" "0x1f".toList, keyLine "Jc" "4".toList,
    keyLine "H1" "5-9".toList, keyLine "I1" "<b 0x01> <t>".toList, "[Peer]".toList,
    keyLine "PublicKey" "AgICAgICAgICAgICAgICAgICAgICAgICAgICAgICAgI=".toList,
    keyLine "Endpoint" "[fd00::2]:51820".toList,
    keyLine "AllowedIPs" "10.0.0.2/32, fd00::2/64".toList,
    keyLine "PersistentKeepalive" "25".toList].flatMap (· ++ ['\n'])

theorem configRead_pairFile : ∃ d, configRead pairResolver false pairFile = .ok d
    ∧ d.peers.length = 1 ∧ ∀ p ∈ d.peers, p.awg = none ∧ p.removeMe = false := by
  have hfile : ((configRead pairResolver false pairFile).toOption.any fun d =>
      d.peers.length == 1 && d.peers.all fun p => p.awg.isNone && !p.removeMe) = true := by
    decide +kernel
  obtain ⟨d, hread⟩ : ∃ d, configRead pairResolver false pairFile = .ok d :=
    Loops.exists_ok_iff.2 (by decide +kernel)
  rw [hread] at hfile
  simp only [Except.toOption, Option.any_some, Bool.and_eq_true, List.all_eq_true,
    beq_iff_eq, Option.isNone_iff_eq_none, Bool.not_eq_true'] at hfile
  exact ⟨d, hread, hfile⟩

end Amnezia.Tools
