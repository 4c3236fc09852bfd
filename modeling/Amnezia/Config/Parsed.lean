import Amnezia.Config.Config

/-!
# What a parsed configuration is

Every value that `Config.parse` keeps can be printed on a line of its own and read back, except for
the ends of application names.  And the lists are what the `[Interface]` sections of the text say.
-/

namespace Amnezia.Config

open Java (Text)

structure KeptText (t : Text) : Prop where
  nonempty : t ≠ []
  chars : ∀ c ∈ t, Attribute.valueChar c = true
  bare : Fields.Bare Java.trimmable t

section Valid

variable {Addr : Type} (net : Net Addr)

def MaskFits (n : InetNetwork Addr) : Prop := 0 ≤ n.mask ∧ n.mask ≤ InetNetwork.maxMask net n.address

structure SearchDomain (d : Text) : Prop where
  isHostname : isHostname d = true
  notAddress : ∃ e, InetAddresses.parse net d = .error e ∧ e.parsingClass = .inetAddress

def NumberFits (a : NumberAttribute) (n : Int) : Prop :=
  0 < n ∧ n ≤ 2147483647 ∧ a.tooLarge n = false

structure InterfaceBuilder.Valid (b : InterfaceBuilder Addr) : Prop where
  addresses : ∀ n ∈ b.addresses, MaskFits net n
  domains : ∀ d ∈ b.dnsSearchDomains, SearchDomain net d
  excluded : ∀ t ∈ b.excludedApplications, Attribute.Token t
  included : ∀ t ∈ b.includedApplications, Attribute.Token t
  number : ∀ a n, b.number a = some n → NumberFits a n
  text : ∀ a t, b.text a = some t → KeptText t

structure Interface.Valid (i : Interface Addr) : Prop where
  addresses : ∀ n ∈ i.addresses, MaskFits net n
  domains : ∀ d ∈ i.dnsSearchDomains, SearchDomain net d
  excluded : ∀ t ∈ i.excludedApplications, Attribute.Token t
  included : ∀ t ∈ i.includedApplications, Attribute.Token t
  number : ∀ a n, i.number a = some n → NumberFits a n
  text : ∀ a t, i.text a = some t → KeptText t
  /-- At most one of the two lists of applications is there. -/
  exclusive : i.includedApplications = .empty ∨ i.excludedApplications = .empty

structure PeerBuilder.Valid (b : PeerBuilder Addr) : Prop where
  allowedIps : ∀ n ∈ b.allowedIps, MaskFits net n
  endpoint : ∀ e, b.endpoint = some e → InetEndpoint.Valid net e
  persistentKeepalive : ∀ n, b.persistentKeepalive = some n → 0 < n ∧ n ≤ 65535

structure Peer.Valid (p : Peer Addr) : Prop where
  allowedIps : ∀ n ∈ p.allowedIps, MaskFits net n
  endpoint : ∀ e, p.endpoint = some e → InetEndpoint.Valid net e
  persistentKeepalive : ∀ n, p.persistentKeepalive = some n → 0 < n ∧ n ≤ 65535

end Valid

theorem digitsUpTo_le {max n : Nat} {s : Text} (h : Java.digitsUpTo max s = some n) : n ≤ max := by
  unfold Java.digitsUpTo at h
  split at h
  · cases h
  · have hle := Option.filter_eq_some_iff.1 h
    exact of_decide_eq_true hle.2

theorem parseInt_le {s : Text} {n : Int} (h : Java.parseInt s = some n) : n ≤ 2147483647 := by
  unfold Java.parseInt at h
  split at h
  · obtain ⟨m, -, rfl⟩ := Option.map_eq_some_iff.1 h
    omega
  · obtain ⟨m, hm, rfl⟩ := Option.map_eq_some_iff.1 h
    exact Int.ofNat_le.2 (digitsUpTo_le hm)
  · obtain ⟨m, hm, rfl⟩ := Option.map_eq_some_iff.1 h
    exact Int.ofNat_le.2 (digitsUpTo_le hm)

section Lines

variable {Addr : Type} [DecidableEq Addr] {net : Net Addr}

variable {value : Text}

theorem insertNetworks_fits {set set' : LinkedSet (InetNetwork Addr)}
    (h : insertNetworks net set value = .ok set') (hset : ∀ n ∈ set, MaskFits net n) :
    ∀ n ∈ set', MaskFits net n := by
  let inv : LinkedSet (InetNetwork Addr) → Prop := fun s => ∀ n ∈ s, MaskFits net n
  have hinv : inv set' := by
    refine Loops.foldlM_invariant ?_ (show inv set from hset) h
    intro t _ s s' hs hstep
    cases hparse : InetNetwork.parse net t with
    | error e =>
      rw [hparse] at hstep
      cases hstep
    | ok m =>
      rw [hparse] at hstep
      cases hstep
      intro n hn
      rcases LinkedSet.mem_insert.1 hn with hn | rfl
      · exact hs n hn
      · exact InetNetwork.mask_of_parse hparse
  exact hinv

variable {b : InterfaceBuilder Addr} {line : Text} {i : Interface Addr}

namespace InterfaceBuilder

variable {b' : InterfaceBuilder Addr}

theorem parseDnsServer_valid {t : Text} (hb : b.Valid net) (h : b.parseDnsServer net t = .ok b') :
    b'.Valid net := by
  unfold parseDnsServer at h
  split at h
  · cases h
    exact ⟨hb.addresses, hb.domains, hb.excluded, hb.included, hb.number, hb.text⟩
  · next e he =>
    split at h
    · cases h
    · next hname =>
      rw [not_or, not_not, Bool.not_eq_false] at hname
      cases h
      refine ⟨hb.addresses, ?_, hb.excluded, hb.included, hb.number, hb.text⟩
      intro d hd
      rcases LinkedSet.mem_insert.1 hd with hd | rfl
      · exact hb.domains d hd
      · exact ⟨hname.2, e, he, hname.1⟩

omit [DecidableEq Addr] in
theorem parseNumber_valid {a : NumberAttribute} (hb : b.Valid net)
    (h : parseNumber a b value = .ok b') : b'.Valid net := by
  unfold parseNumber at h
  split at h
  · next n hn =>
    unfold setNumber at h
    split at h
    · cases h
    · next hfits =>
      rw [not_or, Bool.not_eq_true] at hfits
      cases h
      refine ⟨hb.addresses, hb.domains, hb.excluded, hb.included, ?_, hb.text⟩
      intro a' m hm
      by_cases ha : a' = a
      · subst ha
        simp only [Function.update_self] at hm
        by_cases hzero : n = 0
        · rw [if_pos hzero] at hm
          cases hm
        · rw [if_neg hzero] at hm
          cases hm
          have hle := parseInt_le hn
          exact ⟨by omega, hle, hfits.2⟩
      · simp only [Function.update_of_ne ha] at hm
        exact hb.number a' m hm
  · cases h

omit [DecidableEq Addr] in
theorem parseText_valid {a : TextAttribute} (hb : b.Valid net)
    (hchars : ∀ c ∈ Java.trim value, Attribute.valueChar c = true) :
    (parseText a b value).Valid net := by
  refine ⟨hb.addresses, hb.domains, hb.excluded, hb.included, hb.number, ?_⟩
  intro a' t ht
  by_cases ha : a' = a
  · subst ha
    simp only [parseText, Function.update_self] at ht
    by_cases hnil : Java.trim value = []
    · rw [if_pos hnil] at ht
      cases ht
    · rw [if_neg hnil] at ht
      cases ht
      exact ⟨hnil, hchars, Fields.bare_strip _ _⟩
  · simp only [parseText, Function.update_of_ne ha] at ht
    exact hb.text a' t ht

theorem token_insertAll {set : LinkedSet Text} (hset : ∀ t ∈ set, Attribute.Token t)
    (hchars : ∀ c ∈ value, Attribute.valueChar c = true) (hbare : Fields.Bare Java.space value) :
    ∀ t ∈ set.insertAll (Attribute.split value), Attribute.Token t := by
  intro t ht
  rcases LinkedSet.mem_insertAll.1 ht with ht | ht
  · exact hset t ht
  · exact Attribute.token_of_mem_split hchars hbare ht

/-- What the builder does not check itself: the characters of a text, and the names of
applications. -/
structure Printable (a : InterfaceAttribute) (value : Text) : Prop where
  text : ∀ a', a = .text a' → ∀ c ∈ Java.trim value, Attribute.valueChar c = true
  applications : a = .excludedApplications ∨ a = .includedApplications →
    (∀ c ∈ value, Attribute.valueChar c = true) ∧ Fields.Bare Java.space value

theorem parseAttribute_valid {a : InterfaceAttribute} (hb : b.Valid net)
    (hvalue : Printable a value) (h : b.parseAttribute net a value = .ok b') : b'.Valid net := by
  cases a with
  | address =>
    simp only [parseAttribute, parseAddresses] at h
    split at h
    · next set hset =>
      cases h
      exact ⟨insertNetworks_fits hset hb.addresses, hb.domains, hb.excluded, hb.included,
        hb.number, hb.text⟩
    · cases h
  | dns =>
    simp only [parseAttribute, parseDnsServers] at h
    split at h
    · next b'' hfold =>
      cases h
      exact Loops.foldlM_invariant (fun t _ b b' => parseDnsServer_valid) hb hfold
    · cases h
  | excludedApplications =>
    cases h
    obtain ⟨hchars, hbare⟩ := hvalue.applications (.inl rfl)
    exact ⟨hb.addresses, hb.domains, token_insertAll hb.excluded hchars hbare, hb.included,
      hb.number, hb.text⟩
  | includedApplications =>
    cases h
    obtain ⟨hchars, hbare⟩ := hvalue.applications (.inr rfl)
    exact ⟨hb.addresses, hb.domains, hb.excluded, token_insertAll hb.included hchars hbare,
      hb.number, hb.text⟩
  | privateKey =>
    simp only [parseAttribute, parsePrivateKey] at h
    split at h
    · cases h
      exact ⟨hb.addresses, hb.domains, hb.excluded, hb.included, hb.number, hb.text⟩
    · cases h
  | number a =>
    rw [parseAttribute_number] at h
    exact parseNumber_valid hb h
  | text a =>
    rw [parseAttribute_text] at h
    cases h
    exact parseText_valid hb (hvalue.text a rfl)

theorem parseLine_cases (h : b.parseLine net line = .ok b') :
    ∃ attr a, Attribute.parse line = some attr ∧
      InterfaceAttribute.ofKey (Java.toLowerCase attr.key) = some a ∧
      b.parseAttribute net a attr.value = .ok b' := by
  unfold parseLine at h
  split at h
  · cases h
  · next attr hattr =>
    split at h
    · cases h
    · next a ha => exact ⟨attr, a, hattr, ha, h⟩

theorem parseLine_valid (hline : '#' ∉ line) (hb : b.Valid net) (h : b.parseLine net line = .ok b') :
    b'.Valid net := by
  obtain ⟨attr, a, hattr, -, h⟩ := parseLine_cases h
  have hvalue := Attribute.parse_value hattr hline
  exact parseAttribute_valid hb
    ⟨fun _ _ c hc => hvalue.1 c (Fields.mem_of_mem_strip hc), fun _ => hvalue⟩ h

omit [DecidableEq Addr] in
theorem new_valid : (new : InterfaceBuilder Addr).Valid net where
  addresses _ h := absurd h List.not_mem_nil
  domains _ h := absurd h List.not_mem_nil
  excluded _ h := absurd h List.not_mem_nil
  included _ h := absurd h List.not_mem_nil
  number _ _ h := by cases h
  text _ _ h := by cases h

omit [DecidableEq Addr] in
theorem build_cases (h : b.build = .ok i) :
    b.keyPair = some i.privateKey ∧ b.addresses = i.addresses ∧ b.dnsServers = i.dnsServers ∧
      b.dnsSearchDomains = i.dnsSearchDomains ∧ b.excludedApplications = i.excludedApplications ∧
      b.includedApplications = i.includedApplications ∧ b.number = i.number ∧ b.text = i.text ∧
      (i.includedApplications = .empty ∨ i.excludedApplications = .empty) := by
  unfold build at h
  split at h
  · cases h
  · next key hkey =>
    split at h
    · cases h
    · next hboth =>
      cases h
      refine ⟨hkey, rfl, rfl, rfl, rfl, rfl, rfl, rfl, ?_⟩
      by_cases hinc : b.includedApplications.isEmpty = true
      · exact .inl (LinkedSet.isEmpty_iff.1 hinc)
      · by_cases hexc : b.excludedApplications.isEmpty = true
        · exact .inr (LinkedSet.isEmpty_iff.1 hexc)
        · exact absurd ⟨eq_false_of_ne_true hinc, eq_false_of_ne_true hexc⟩ hboth

end InterfaceBuilder

omit [DecidableEq Addr] in
theorem Interface.valid_of_build (hb : b.Valid net) (h : b.build = .ok i) : i.Valid net := by
  obtain ⟨-, haddr, -, hdom, hexc, hinc, hnum, htext, hexcl⟩ := InterfaceBuilder.build_cases h
  exact ⟨haddr ▸ hb.addresses, hdom ▸ hb.domains, hexc ▸ hb.excluded, hinc ▸ hb.included,
    hnum ▸ hb.number, htext ▸ hb.text, hexcl⟩

theorem Interface.valid_of_parse {lines : List Text} (hlines : ∀ l ∈ lines, '#' ∉ l)
    (h : Interface.parse net lines = .ok i) : i.Valid net := by
  obtain ⟨b, hfold, hbuild⟩ := Loops.bind_eq_ok.1 h
  have hb : b.Valid net := Loops.foldlM_invariant
    (fun l hl _ _ => InterfaceBuilder.parseLine_valid (hlines l hl)) InterfaceBuilder.new_valid hfold
  exact Interface.valid_of_build hb hbuild

namespace PeerBuilder

theorem parseAttribute_valid {b b' : PeerBuilder Addr} {a : PeerAttribute} (hb : b.Valid net)
    (h : b.parseAttribute net a value = .ok b') : b'.Valid net := by
  cases a with
  | allowedIps =>
    simp only [parseAttribute, parseAllowedIPs] at h
    split at h
    · next set hset =>
      cases h
      exact ⟨insertNetworks_fits hset hb.allowedIps, hb.endpoint, hb.persistentKeepalive⟩
    · cases h
  | endpoint =>
    simp only [parseAttribute, parseEndpoint] at h
    split at h
    · next e he =>
      cases h
      refine ⟨hb.allowedIps, ?_, hb.persistentKeepalive⟩
      intro e' he'
      cases he'
      exact InetEndpoint.valid_of_parse he
    · cases h
  | persistentKeepalive =>
    simp only [parseAttribute, parsePersistentKeepalive] at h
    split at h
    · next n hn =>
      unfold setPersistentKeepalive at h
      split at h
      · cases h
      · cases h
        refine ⟨hb.allowedIps, hb.endpoint, ?_⟩
        intro m hm
        by_cases hzero : n = 0
        · rw [if_pos hzero] at hm
          cases hm
        · rw [if_neg hzero] at hm
          cases hm
          omega
    · cases h
  | preSharedKey =>
    simp only [parseAttribute, parsePreSharedKey] at h
    split at h
    · cases h
      exact ⟨hb.allowedIps, hb.endpoint, hb.persistentKeepalive⟩
    · cases h
  | publicKey =>
    simp only [parseAttribute, parsePublicKey] at h
    split at h
    · cases h
      exact ⟨hb.allowedIps, hb.endpoint, hb.persistentKeepalive⟩
    · cases h

theorem parseLine_valid {b b' : PeerBuilder Addr} (hb : b.Valid net)
    (h : b.parseLine net line = .ok b') : b'.Valid net := by
  unfold parseLine at h
  split at h
  · cases h
  · split at h
    · cases h
    · exact parseAttribute_valid hb h

omit [DecidableEq Addr] in
theorem new_valid : (new : PeerBuilder Addr).Valid net where
  allowedIps _ h := absurd h List.not_mem_nil
  endpoint _ h := by cases h
  persistentKeepalive _ h := by cases h

end PeerBuilder

omit [DecidableEq Addr] in
theorem Peer.valid_of_build {b : PeerBuilder Addr} {p : Peer Addr} (hb : b.Valid net)
    (h : b.build = .ok p) : p.Valid net := by
  unfold PeerBuilder.build at h
  split at h
  · cases h
  · cases h
    exact ⟨hb.allowedIps, hb.endpoint, hb.persistentKeepalive⟩

theorem Peer.valid_of_parse {lines : List Text} {p : Peer Addr} (h : Peer.parse net lines = .ok p) :
    p.Valid net := by
  obtain ⟨b, hfold, hbuild⟩ := Loops.bind_eq_ok.1 h
  have hb : b.Valid net :=
    Loops.foldlM_invariant (fun _ _ _ _ => PeerBuilder.parseLine_valid) PeerBuilder.new_valid hfold
  exact Peer.valid_of_build hb hbuild

def cleanLines (text : Text) : List Text := (Java.readLines text).map clean

namespace ParseState

variable {st' st : ParseState Addr}

theorem consumePeer_cases (h : st.consumePeer net = .ok st') :
    (st.inPeerSection = true ∧ ∃ p, Peer.parse net st.peerLines = .ok p ∧
      st' = { st with peers := st.peers ++ [p], peerLines := [] }) ∨
    (st.inPeerSection = false ∧ st' = st) := by
  unfold consumePeer at h
  split at h
  · next hpeer =>
    cases hp : Peer.parse net st.peerLines with
    | error e =>
      rw [hp] at h
      cases h
    | ok p =>
      rw [hp] at h
      cases h
      exact .inl ⟨hpeer, p, rfl, rfl⟩
  · next hpeer =>
    cases h
    exact .inr ⟨eq_false_of_ne_true hpeer, rfl⟩

omit [DecidableEq Addr] in
theorem header_cases (h : st.header line = .ok st') :
    (Java.equalsIgnoreCase "[Interface]".toList line = true ∧ st' = { st with
      inInterfaceSection := true, inPeerSection := false, seenInterfaceSection := true }) ∨
    (Java.equalsIgnoreCase "[Interface]".toList line = false ∧
      Java.equalsIgnoreCase "[Peer]".toList line = true ∧
      st' = { st with inInterfaceSection := false, inPeerSection := true }) := by
  unfold header at h
  split at h
  · next hi =>
    cases h
    exact .inl ⟨hi, rfl⟩
  · next hi =>
    split at h
    · next hp =>
      cases h
      exact .inr ⟨eq_false_of_ne_true hi, hp, rfl⟩
    · cases h

theorem cleanedLine_cases (h : st.cleanedLine net line = .ok st') :
    (line = [] ∧ st' = st) ∨
    (line ≠ [] ∧ line.head? = some '[' ∧
      ∃ t, st.consumePeer net = .ok t ∧ t.header line = .ok st') ∨
    (line ≠ [] ∧ line.head? ≠ some '[' ∧ st.inInterfaceSection = true ∧
      st' = { st with interfaceLines := st.interfaceLines ++ [line] }) ∨
    (line ≠ [] ∧ line.head? ≠ some '[' ∧ st.inInterfaceSection = false ∧ st.inPeerSection = true ∧
      st' = { st with peerLines := st.peerLines ++ [line] }) := by
  unfold cleanedLine at h
  split at h
  · next hnil =>
    cases h
    exact .inl ⟨hnil, rfl⟩
  · next hnil =>
    split at h
    · next hhead => exact .inr (.inl ⟨hnil, hhead, Loops.bind_eq_ok.1 h⟩)
    · next hhead =>
      split at h
      · next hi =>
        cases h
        exact .inr (.inr (.inl ⟨hnil, hhead, hi, rfl⟩))
      · next hi =>
        split at h
        · next hp =>
          cases h
          exact .inr (.inr (.inr ⟨hnil, hhead, eq_false_of_ne_true hi, hp, rfl⟩))
        · cases h

structure Kept (net : Net Addr) (st : ParseState Addr) : Prop where
  peers : ∀ p ∈ st.peers, p.Valid net
  interfaceLines : ∀ l ∈ st.interfaceLines, '#' ∉ l

theorem Kept.consumePeer (hst : st.Kept net) (h : st.consumePeer net = .ok st') : st'.Kept net := by
  rcases consumePeer_cases h with ⟨-, p, hp, rfl⟩ | ⟨-, rfl⟩
  · refine ⟨?_, hst.interfaceLines⟩
    intro q hq
    rcases List.mem_append.1 hq with hq | hq
    · exact hst.peers q hq
    · rw [List.mem_singleton.1 hq]
      exact Peer.valid_of_parse hp
  · exact hst

omit [DecidableEq Addr] in
theorem Kept.header (hst : st.Kept net) (h : st.header line = .ok st') : st'.Kept net := by
  rcases header_cases h with ⟨-, rfl⟩ | ⟨-, -, rfl⟩
  · exact ⟨hst.peers, hst.interfaceLines⟩
  · exact ⟨hst.peers, hst.interfaceLines⟩

theorem Kept.cleanedLine (hline : '#' ∉ line) (hst : st.Kept net)
    (h : st.cleanedLine net line = .ok st') : st'.Kept net := by
  rcases cleanedLine_cases h with ⟨-, rfl⟩ | ⟨-, -, t, ht, h⟩ | ⟨-, -, -, rfl⟩ | ⟨-, -, -, -, rfl⟩
  · exact hst
  · exact (hst.consumePeer ht).header h
  · refine ⟨hst.peers, ?_⟩
    intro l hl
    rcases List.mem_append.1 hl with hl | hl
    · exact hst.interfaceLines l hl
    · rw [List.mem_singleton.1 hl]
      exact hline
  · exact ⟨hst.peers, hst.interfaceLines⟩

end ParseState

variable {text : Text}

/-- What `Config.parse` did when it returns: the loop, the last peer, the interface. -/
theorem parse_cases {c : Config Addr} (h : parse net text = .ok c) :
    ∃ st st', (cleanLines text).foldlM (ParseState.cleanedLine net) {} = .ok st ∧
      st.consumePeer net = .ok st' ∧ st'.seenInterfaceSection = true ∧
      Interface.parse net st'.interfaceLines = .ok c.interfaze ∧ st'.peers = c.peers := by
  unfold parse at h
  obtain ⟨st, hfold, h⟩ := Loops.bind_eq_ok.1 h
  obtain ⟨st', hpeer, h⟩ := Loops.bind_eq_ok.1 h
  refine ⟨st, st', ?_, hpeer, ?_⟩
  · unfold cleanLines
    rw [List.foldlM_map]
    exact hfold
  · by_cases hseen : st'.seenInterfaceSection = false
    · rw [if_pos hseen] at h
      cases h
    · rw [if_neg hseen] at h
      obtain ⟨i, hi, h⟩ := Loops.bind_eq_ok.1 h
      cases h
      exact ⟨Bool.eq_true_of_not_eq_false hseen, hi, rfl⟩

theorem notMem_cleanLines {l : Text} (h : l ∈ cleanLines text) : '#' ∉ l := by
  obtain ⟨line, -, rfl⟩ := List.mem_map.1 h
  intro hmem
  exact (mem_clean hmem).2 rfl

theorem valid_of_parse {c : Config Addr} (h : parse net text = .ok c) :
    c.interfaze.Valid net ∧ ∀ p ∈ c.peers, p.Valid net := by
  obtain ⟨st, st', hfold, hpeer, -, hi, hpeers⟩ := parse_cases h
  have hst : st.Kept net := Loops.foldlM_invariant
    (fun l hl _ _ => ParseState.Kept.cleanedLine (notMem_cleanLines hl))
    ⟨fun _ hp => absurd hp List.not_mem_nil, fun _ hl => absurd hl List.not_mem_nil⟩ hfold
  have hst' := hst.consumePeer hpeer
  exact ⟨Interface.valid_of_parse hst'.interfaceLines hi, hpeers ▸ hst'.peers⟩

end Lines

end Amnezia.Config
