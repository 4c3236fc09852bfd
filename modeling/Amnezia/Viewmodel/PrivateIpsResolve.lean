import Amnezia.Config.Inet4
import Amnezia.Config.Parsed
import Amnezia.Viewmodel.PrivateIpsRuns

/-!
# Excluding private addresses and saving

`resolve` reads the DNS servers and the allowed addresses on their own.  Turning the exclusion on
makes a route of every DNS server without a colon, by putting `/32` behind its text; what the
interface takes as a search domain, and the empty text, give routes that are no networks.
-/

namespace Amnezia.Config

open Java (Text)

section Accepted

variable {Addr : Type} [DecidableEq Addr] {net : Net Addr}
variable {b c : InterfaceBuilder Addr} {value t : Text}

theorem insertNetworks_ok_iff (set : LinkedSet (InetNetwork Addr)) :
    (∃ set', insertNetworks net set value = .ok set') ↔
      ∀ t ∈ Attribute.split value, ∃ n, InetNetwork.parse net t = .ok n := by
  unfold insertNetworks
  generalize Attribute.split value = ts
  induction ts generalizing set with
  | nil => exact ⟨fun _ t ht => absurd ht List.not_mem_nil, fun _ => ⟨set, rfl⟩⟩
  | cons t ts ih =>
    simp only [Loops.foldlM_cons_eq_ok, List.forall_mem_cons]
    constructor
    · rintro ⟨set', u, hu, hrest⟩
      refine ⟨?_, (ih u).1 ⟨set', hrest⟩⟩
      cases hn : InetNetwork.parse net t with
      | error e =>
        rw [hn] at hu
        cases hu
      | ok n => exact ⟨n, rfl⟩
    · rintro ⟨⟨n, hn⟩, hrest⟩
      obtain ⟨set', hset'⟩ := (ih (set.insert n)).2 hrest
      exact ⟨set', set.insert n, by rw [hn]; rfl, hset'⟩

namespace PeerBuilder

theorem parseAllowedIPs_ok_iff {b : PeerBuilder Addr} :
    (∃ b', b.parseAllowedIPs net value = .ok b') ↔
      ∀ t ∈ Attribute.split value, ∃ n, InetNetwork.parse net t = .ok n := by
  rw [← insertNetworks_ok_iff b.allowedIps]
  unfold parseAllowedIPs
  cases insertNetworks net b.allowedIps value with
  | ok set => exact ⟨fun _ => ⟨set, rfl⟩, fun _ => ⟨_, rfl⟩⟩
  | error e => exact ⟨fun ⟨_, h⟩ => (by cases h), fun ⟨_, h⟩ => (by cases h)⟩

theorem parseAllowedIPs_publicKey {b b' : PeerBuilder Addr}
    (h : b.parseAllowedIPs net value = .ok b') : b'.publicKey = b.publicKey := by
  unfold parseAllowedIPs at h
  split at h
  · cases h
    rfl
  · cases h

/-- Whether a field is accepted does not depend on the others. -/
theorem parseAttribute_simulates {b c b' : PeerBuilder Addr} {a : PeerAttribute}
    (hkey : b.publicKey = c.publicKey) (h : b.parseAttribute net a value = .ok b') :
    ∃ c', c.parseAttribute net a value = .ok c' ∧ b'.publicKey = c'.publicKey := by
  cases a with
  | allowedIps =>
    simp only [parseAttribute, parseAllowedIPs] at h ⊢
    split at h
    · next set hset =>
      cases h
      obtain ⟨set', hset'⟩ := (insertNetworks_ok_iff c.allowedIps).2
        ((insertNetworks_ok_iff b.allowedIps).1 ⟨set, hset⟩)
      rw [hset']
      exact ⟨_, rfl, hkey⟩
    · cases h
  | endpoint | preSharedKey =>
    simp only [parseAttribute, parseEndpoint, parsePreSharedKey] at h ⊢
    split at h
    · cases h
      exact ⟨_, rfl, hkey⟩
    · cases h
  | persistentKeepalive =>
    simp only [parseAttribute, parsePersistentKeepalive, setPersistentKeepalive] at h ⊢
    split at h
    · split at h
      · cases h
      · next hrange =>
        cases h
        rw [if_neg hrange]
        exact ⟨_, rfl, hkey⟩
    · cases h
  | publicKey =>
    simp only [parseAttribute, parsePublicKey] at h ⊢
    split at h
    · cases h
      exact ⟨_, rfl, rfl⟩
    · cases h

omit [DecidableEq Addr] in
theorem build_ok_iff {b : PeerBuilder Addr} : (∃ p, b.build = .ok p) ↔ b.publicKey ≠ none := by
  unfold build
  cases b.publicKey with
  | none => exact ⟨fun ⟨p, h⟩ => (by cases h), fun h => absurd rfl h⟩
  | some key => exact ⟨fun _ h => (by cases h), fun _ => ⟨_, rfl⟩⟩

end PeerBuilder

namespace InterfaceBuilder

structure Agree (b c : InterfaceBuilder Addr) : Prop where
  keyPair : b.keyPair = c.keyPair
  excluded : b.excludedApplications = c.excludedApplications
  included : b.includedApplications = c.includedApplications

omit [DecidableEq Addr] in
theorem Agree.symm (h : Agree b c) : Agree c b :=
  ⟨h.keyPair.symm, h.excluded.symm, h.included.symm⟩

omit [DecidableEq Addr] in
theorem Agree.build (h : Agree b c) (hb : ∃ i, b.build = .ok i) : ∃ i, c.build = .ok i := by
  obtain ⟨i, hi⟩ := hb
  unfold InterfaceBuilder.build at hi ⊢
  rw [← h.keyPair, ← h.included, ← h.excluded]
  split at hi
  · cases hi
  · split at hi
    · cases hi
    · next hnot =>
      rw [if_neg hnot]
      exact ⟨_, rfl⟩

variable {b' : InterfaceBuilder Addr}

theorem Agree.parseAttribute {a : InterfaceAttribute} (ha : a ≠ .dns) (hagree : Agree b c)
    (h : b.parseAttribute net a value = .ok b') :
    ∃ c', c.parseAttribute net a value = .ok c' ∧ Agree b' c' := by
  obtain ⟨hkey, hexc, hinc⟩ := hagree
  cases a with
  | address =>
    simp only [InterfaceBuilder.parseAttribute, parseAddresses] at h ⊢
    split at h
    · next set hset =>
      cases h
      obtain ⟨set', hset'⟩ := (insertNetworks_ok_iff c.addresses).2
        ((insertNetworks_ok_iff b.addresses).1 ⟨set, hset⟩)
      rw [hset']
      exact ⟨_, rfl, hkey, hexc, hinc⟩
    · cases h
  | dns => exact absurd rfl ha
  | excludedApplications =>
    cases h
    exact ⟨_, rfl, hkey, congrArg (·.insertAll (Attribute.split value)) hexc, hinc⟩
  | includedApplications =>
    cases h
    exact ⟨_, rfl, hkey, hexc, congrArg (·.insertAll (Attribute.split value)) hinc⟩
  | privateKey =>
    simp only [InterfaceBuilder.parseAttribute, parsePrivateKey] at h ⊢
    split at h
    · cases h
      exact ⟨_, rfl, rfl, hexc, hinc⟩
    · cases h
  | number a =>
    rw [parseAttribute_number] at h ⊢
    unfold parseNumber setNumber at h ⊢
    split at h
    · split at h
      · cases h
      · next hrange =>
        cases h
        rw [if_neg hrange]
        exact ⟨_, rfl, hkey, hexc, hinc⟩
    · cases h
  | text a =>
    rw [parseAttribute_text] at h ⊢
    cases h
    exact ⟨_, rfl, hkey, hexc, hinc⟩

/-! ### DNS servers -/

variable (net) in
def AcceptedDns (value : Text) : Prop :=
  ∀ t ∈ Attribute.split value, (∃ a, InetAddresses.parse net t = .ok a) ∨ isHostname t = true

theorem parseDnsServer_ok_iff :
    (∃ b', b.parseDnsServer net t = .ok b') ↔
      (∃ a, InetAddresses.parse net t = .ok a) ∨ isHostname t = true := by
  unfold parseDnsServer
  cases hparse : InetAddresses.parse net t with
  | ok a => exact ⟨fun _ => .inl ⟨a, rfl⟩, fun _ => ⟨_, rfl⟩⟩
  | error e =>
    have hclass : e.parsingClass = .inetAddress := by
      unfold InetAddresses.parse at hparse
      split at hparse
      · cases hparse
        rfl
      · split at hparse
        · cases hparse
          rfl
        · cases hparse
    cases hname : isHostname t with
    | true =>
      refine ⟨fun _ => .inr rfl, fun _ => ⟨_, if_neg ?_⟩⟩
      simp [hclass]
    | false =>
      constructor
      · rintro ⟨b', hb'⟩
        simp at hb'
      · rintro (⟨a, ha⟩ | h)
        · cases ha
        · cases h

theorem parseDnsServer_agree (h : b.parseDnsServer net t = .ok b') : Agree b b' := by
  unfold parseDnsServer at h
  split at h
  · cases h
    exact ⟨rfl, rfl, rfl⟩
  · split at h
    · cases h
    · cases h
      exact ⟨rfl, rfl, rfl⟩

theorem parseDnsServers_ok_iff :
    (∃ b', b.parseDnsServers net value = .ok b') ↔ AcceptedDns net value := by
  have hfold : ∀ (ts : List Text) (b : InterfaceBuilder Addr),
      (∃ b', ts.foldlM (parseDnsServer net) b = .ok b') ↔
        ∀ t ∈ ts, (∃ a, InetAddresses.parse net t = .ok a) ∨ isHostname t = true := by
    intro ts
    induction ts with
    | nil => exact fun b => ⟨fun _ t ht => absurd ht List.not_mem_nil, fun _ => ⟨b, rfl⟩⟩
    | cons t ts ih =>
      intro b
      simp only [Loops.foldlM_cons_eq_ok, List.forall_mem_cons]
      constructor
      · rintro ⟨b', u, hu, hrest⟩
        exact ⟨parseDnsServer_ok_iff.1 ⟨u, hu⟩, (ih u).1 ⟨b', hrest⟩⟩
      · rintro ⟨ht, hrest⟩
        obtain ⟨u, hu⟩ := (parseDnsServer_ok_iff (b := b)).2 ht
        obtain ⟨b', hb'⟩ := (ih u).2 hrest
        exact ⟨b', u, hu, hb'⟩
  unfold AcceptedDns
  rw [← hfold (Attribute.split value) b]
  unfold parseDnsServers
  cases (Attribute.split value).foldlM (parseDnsServer net) b with
  | ok b' => exact ⟨fun _ => ⟨b', rfl⟩, fun _ => ⟨b', rfl⟩⟩
  | error e => exact ⟨fun ⟨_, h⟩ => (by cases h), fun ⟨_, h⟩ => (by cases h)⟩

theorem parseDnsServers_agree (h : b.parseDnsServers net value = .ok b') : Agree b b' := by
  unfold parseDnsServers at h
  split at h
  · next u hu =>
    cases h
    refine Loops.foldlM_invariant ?_ (⟨rfl, rfl, rfl⟩ : Agree b b) hu
    intro t _ v v' hv hstep
    have hnext := parseDnsServer_agree hstep
    exact ⟨hv.keyPair.trans hnext.keyPair, hv.excluded.trans hnext.excluded,
      hv.included.trans hnext.included⟩
  · cases h

end InterfaceBuilder

end Accepted

end Amnezia.Config

namespace Amnezia.Viewmodel

open Java (Text)
open Config (Net InetNetwork InterfaceBuilder PeerBuilder Quad)

/-! ## What makes `resolve` succeed -/

section Resolve

variable {Addr : Type} [DecidableEq Addr] {net : Net Addr}
variable {b c : InterfaceBuilder Addr} {value t : Text}

variable (net) in
def Parses (t : Text) : Prop := ∃ n, InetNetwork.parse net t = .ok n

instance (t : Text) : Decidable (Parses net t) := decidable_of_iff' _ Loops.exists_ok_iff

namespace PeerProxy

theorem foldlM_agree {fs : List (Config.PeerAttribute × Text)} {b c : PeerBuilder Addr}
    (hkey : b.publicKey = c.publicKey)
    (h : ∃ q, (fs.foldlM (parseField net) b >>= PeerBuilder.build) = .ok q) :
    ∃ q, (fs.foldlM (parseField net) c >>= PeerBuilder.build) = .ok q := by
  obtain ⟨q, hq⟩ := h
  obtain ⟨b', hb', hq⟩ := Loops.bind_eq_ok.1 hq
  obtain ⟨c', hc', hkey'⟩ := Loops.foldlM_simulates (R := fun b c => b.publicKey = c.publicKey)
    (fun f _ _ _ _ => PeerBuilder.parseAttribute_simulates) hkey hb'
  have hbuild := PeerBuilder.build_ok_iff.1 ⟨q, hq⟩
  rw [hkey'] at hbuild
  obtain ⟨q', hq'⟩ := PeerBuilder.build_ok_iff.2 hbuild
  exact ⟨q', Loops.bind_eq_ok.2 ⟨c', hc', hq'⟩⟩

theorem resolve_ok_iff (p : PeerProxy) : (∃ q, p.resolve net = .ok q) ↔
    (p.allowedIps = [] ∨ ∀ t ∈ Config.Attribute.split p.allowedIps, Parses net t) ∧
      ∃ q, PeerProxy.resolve net { p with allowedIps := [] } = .ok q := by
  have hempty : PeerProxy.resolve net { p with allowedIps := [] } =
      ((typed p.fields.tail).foldlM (parseField net) .new >>= PeerBuilder.build) := rfl
  rw [hempty]
  by_cases hnil : p.allowedIps = []
  · have hfields : typed p.fields = typed p.fields.tail :=
      List.filter_cons_of_neg (by simpa using hnil)
    have hsame : p.resolve net =
        ((typed p.fields.tail).foldlM (parseField net) .new >>= PeerBuilder.build) := by
      unfold resolve resolveFields
      rw [hfields]
    rw [hsame, and_iff_right (.inl hnil)]
  · have hfields : typed p.fields = (.allowedIps, p.allowedIps) :: typed p.fields.tail :=
      List.filter_cons_of_pos (by simpa using hnil)
    have hcons : p.resolve net = (PeerBuilder.parseAllowedIPs net .new p.allowedIps >>= fun b =>
        (typed p.fields.tail).foldlM (parseField net) b >>= PeerBuilder.build) := by
      unfold resolve resolveFields
      rw [hfields, List.foldlM_cons, bind_assoc]
      rfl
    rw [hcons, or_iff_right hnil]
    refine (Loops.exists_bind_ok_iff fun b hb => ?_).trans
      (and_congr_left' PeerBuilder.parseAllowedIPs_ok_iff)
    have hkey := PeerBuilder.parseAllowedIPs_publicKey hb
    exact ⟨foldlM_agree hkey, foldlM_agree hkey.symm⟩

end PeerProxy

namespace InterfaceProxy

theorem foldlM_agree {fs : List (Config.InterfaceAttribute × Text)} (hfs : ∀ f ∈ fs, f.1 ≠ .dns)
    (hagree : b.Agree c)
    (h : ∃ i, (fs.foldlM (parseField net) b >>= InterfaceBuilder.build) = .ok i) :
    ∃ i, (fs.foldlM (parseField net) c >>= InterfaceBuilder.build) = .ok i := by
  obtain ⟨i, hi⟩ := h
  obtain ⟨b', hb', hi⟩ := Loops.bind_eq_ok.1 hi
  have hstep : ∀ f ∈ fs, ∀ b c b' : InterfaceBuilder Addr, b.Agree c →
      parseField net b f = .ok b' → ∃ c', parseField net c f = .ok c' ∧ b'.Agree c' :=
    fun f hf b c b' hagree h => hagree.parseAttribute (hfs f hf) h
  obtain ⟨c', hc', hagree'⟩ := Loops.foldlM_simulates hstep hagree hb'
  obtain ⟨i', hi'⟩ := hagree'.build ⟨i, hi⟩
  exact ⟨i', Loops.bind_eq_ok.2 ⟨c', hc', hi'⟩⟩

theorem dns_notMem_lastFields (i : InterfaceProxy) : ∀ f ∈ typed i.lastFields, f.1 ≠ .dns := by
  intro f hf
  have hmem := List.mem_of_mem_filter hf
  simp only [lastFields, List.mem_append, List.mem_map, List.mem_singleton] at hmem
  rcases hmem with (⟨a, -, rfl⟩ | ⟨a, -, rfl⟩) | rfl
  · intro h; cases h
  · intro h; cases h
  · intro h; cases h

def resolveRest (net : Net Addr) (i : InterfaceProxy) (b : InterfaceBuilder Addr) :
    Except Config.BadConfigException (Config.Interface Addr) :=
  (typed i.lastFields).foldlM (parseField net)
    ((b.excludeApplications i.excludedApplications).includeApplications i.includedApplications)
    >>= InterfaceBuilder.build

theorem resolveRest_agree {i : InterfaceProxy} (hagree : b.Agree c)
    (h : ∃ j, resolveRest net i b = .ok j) : ∃ j, resolveRest net i c = .ok j := by
  have happs : InterfaceBuilder.Agree
      ((b.excludeApplications i.excludedApplications).includeApplications i.includedApplications)
      ((c.excludeApplications i.excludedApplications).includeApplications i.includedApplications) :=
    ⟨hagree.keyPair, congrArg (·.insertAll i.excludedApplications) hagree.excluded,
      congrArg (·.insertAll i.includedApplications) hagree.included⟩
  exact foldlM_agree (dns_notMem_lastFields i) happs h

theorem resolve_ok_iff (i : InterfaceProxy) : (∃ j, i.resolve net = .ok j) ↔
    (i.dnsServers = [] ∨ InterfaceBuilder.AcceptedDns net i.dnsServers) ∧
      ∃ j, InterfaceProxy.resolve net { i with dnsServers := [] } = .ok j := by
  have haddress : ∀ dns, typed [(Config.InterfaceAttribute.address, i.addresses), (.dns, dns)] =
      typed [(.address, i.addresses)] ++ typed [(.dns, dns)] :=
    fun dns => List.filter_append [_] [_]
  have hresolve : i.resolve net =
      ((typed [(.address, i.addresses)]).foldlM (parseField net) .new >>= fun b =>
        (typed [(.dns, i.dnsServers)]).foldlM (parseField net) b >>= resolveRest net i) := by
    rw [resolve_eq, firstFields, haddress, List.foldlM_append, bind_assoc]
    rfl
  have hempty : InterfaceProxy.resolve net { i with dnsServers := [] } =
      ((typed [(.address, i.addresses)]).foldlM (parseField net) .new >>= resolveRest net i) := by
    rw [resolve_eq, firstFields, haddress,
      show typed [(Config.InterfaceAttribute.dns, [])] = [] from rfl, List.append_nil]
    rfl
  rw [hresolve, hempty]
  by_cases hnil : i.dnsServers = []
  · have hnone : typed [(Config.InterfaceAttribute.dns, i.dnsServers)] = [] :=
      List.filter_cons_of_neg (by simpa using hnil)
    rw [hnone, and_iff_right (.inl hnil)]
    rfl
  · have hone : typed [(Config.InterfaceAttribute.dns, i.dnsServers)] = [(.dns, i.dnsServers)] :=
      List.filter_cons_of_pos (by simpa using hnil)
    rw [hone, or_iff_right hnil]
    simp only [Loops.foldlM_singleton]
    cases (typed [(Config.InterfaceAttribute.address, i.addresses)]).foldlM (parseField net)
        InterfaceBuilder.new with
    | error e => exact ⟨fun ⟨_, h⟩ => (by cases h), fun ⟨_, _, h⟩ => (by cases h)⟩
    | ok b =>
      rw [Loops.ok_bind, Loops.ok_bind]
      show (∃ j, (b.parseDnsServers net i.dnsServers >>= resolveRest net i) = .ok j) ↔ _
      refine (Loops.exists_bind_ok_iff fun c hc => ?_).trans
        (and_congr_left' InterfaceBuilder.parseDnsServers_ok_iff)
      have hagree := InterfaceBuilder.parseDnsServers_agree hc
      exact ⟨resolveRest_agree hagree.symm, resolveRest_agree hagree⟩

end InterfaceProxy

end Resolve

/-! ## The networks of a peer -/

def publicQuads : List Quad :=
  [.of 0 0 0 0 5, .of 8 0 0 0 7, .of 11 0 0 0 8, .of 12 0 0 0 6, .of 16 0 0 0 4,
   .of 32 0 0 0 3, .of 64 0 0 0 2, .of 128 0 0 0 3, .of 160 0 0 0 5, .of 168 0 0 0 6,
   .of 172 0 0 0 12, .of 172 32 0 0 11, .of 172 64 0 0 10, .of 172 128 0 0 9,
   .of 173 0 0 0 8, .of 174 0 0 0 7, .of 176 0 0 0 4, .of 192 0 0 0 9,
   .of 192 128 0 0 11, .of 192 160 0 0 13, .of 192 169 0 0 16, .of 192 170 0 0 15,
   .of 192 172 0 0 14, .of 192 176 0 0 12, .of 192 192 0 0 10, .of 193 0 0 0 8,
   .of 194 0 0 0 7, .of 196 0 0 0 6, .of 200 0 0 0 5, .of 208 0 0 0 4]

theorem ipv4PublicNetworks_eq : ipv4PublicNetworks = publicQuads.map Quad.network := by
  decide +kernel

theorem wildcardNetwork_eq : wildcardNetwork = Quad.network (.of 0 0 0 0 0) := by decide +kernel

/-- An entry of a list that is found again when the list is joined. -/
structure Plain (t : Text) : Prop where
  nonempty : t ≠ []
  comma : ',' ∉ t
  bare : Fields.Bare Java.space t

theorem Network.plain {t : Text} (h : Network t) : Plain t := ⟨h.nonempty, h.comma, h.bare⟩

section Networks

variable {Addr : Type} {net : Net Addr} {t : Text}

variable (net) in
def OnlyAddresses (dnsServers : Text) : Prop :=
  ∀ t ∈ Config.Attribute.split dnsServers, ∃ a, Config.InetAddresses.parse net t = .ok a

instance (dnsServers : Text) : Decidable (OnlyAddresses net dnsServers) :=
  decidable_of_iff' _ (forall₂_congr fun _ _ => Loops.exists_ok_iff)

variable (net) in
/-- `parseDnsServers` takes the text, or is not called. -/
def DnsAccepted (dnsServers : Text) : Prop :=
  dnsServers = [] ∨ InterfaceBuilder.AcceptedDns net dnsServers

theorem parses_quad (hnet : net.Literals) (q : Quad) : Parses net q.network := by
  obtain ⟨x, -, -, hx⟩ := q.parse_network hnet
  exact ⟨_, hx⟩

theorem parses_public (hnet : net.Literals) (h : t ∈ ipv4PublicNetworks) : Parses net t := by
  rw [ipv4PublicNetworks_eq] at h
  obtain ⟨q, -, rfl⟩ := List.mem_map.1 h
  exact parses_quad hnet q

theorem parses_wildcard (hnet : net.Literals) : Parses net wildcardNetwork := by
  rw [wildcardNetwork_eq]
  exact parses_quad hnet _

theorem parses_join {ts : List Text} (hts : ∀ t ∈ ts, Plain t) :
    (Config.Attribute.join ts = [] ∨
      ∀ t ∈ Config.Attribute.split (Config.Attribute.join ts), Parses net t) ↔
      ∀ t ∈ ts, Parses net t := by
  by_cases hne : ts = []
  · rw [hne]
    exact iff_of_true (.inl rfl) fun t ht => absurd ht List.not_mem_nil
  · have hsplit : Config.Attribute.split (Config.Attribute.join ts) = ts :=
      Config.Attribute.split_join_tight hne (fun t ht => (hts t ht).comma)
        (Fields.tight_of_bare fun t ht => (hts t ht).bare)
        fun t ht => (hts t (List.mem_of_mem_getLast? ht)).nonempty
    have hjoin : Config.Attribute.join ts ≠ [] := by
      intro hnil
      rw [hnil] at hsplit
      refine (hts [] ?_).nonempty rfl
      rw [← hsplit]
      exact List.mem_cons_self
    rw [or_iff_right hjoin, hsplit]

/-! ### Routes -/

open PeerProxy (dnsRoutesOf route_of_mem)

theorem hostMask_eq : hostMask = '/' :: Java.valueOf (32 : Nat) := by decide

variable {dnsServers : Text}

theorem bare_of_accepted (hnet : net.Literals) (hdns : DnsAccepted net dnsServers)
    (ht : t ∈ Config.Attribute.split dnsServers) : Fields.Bare Java.space t := by
  rcases hdns with rfl | hdns
  · rw [show t = [] from List.mem_singleton.1 ht]
    exact ⟨fun c hc => (nomatch hc), fun c hc => (nomatch hc)⟩
  · rcases hdns t ht with ⟨a, ha⟩ | hname
    · exact hnet.bare (Config.InetAddresses.parse_eq_ok.1 ha).2
    · exact (Config.solid_of_isHostname hname).bare.mono fun _ => Java.trimmable_of_space

theorem plain_route (hnet : net.Literals) {r : Text} (hdns : DnsAccepted net dnsServers)
    (hr : r ∈ dnsRoutesOf dnsServers) : Plain r := by
  have hroute := route_of_mem hr
  refine ⟨hroute.ne_nil, hroute.comma, ?_, hroute.last⟩
  obtain ⟨t, ht, rfl⟩ := List.mem_map.1 hr
  have hbare := bare_of_accepted hnet hdns (List.mem_of_mem_filter ht)
  intro c hc
  cases t with
  | nil =>
    cases hc
    decide
  | cons d t => exact hbare.head c hc

theorem parses_routes_iff (hdns : DnsAccepted net dnsServers) :
    (∀ r ∈ dnsRoutesOf dnsServers, Parses net r) ↔ OnlyAddresses net dnsServers := by
  constructor
  · intro hroutes t ht
    by_cases hcolon : ':' ∈ t
    · -- a text with a colon is not taken for a name
      rcases hdns with rfl | hdns
      · rw [show t = [] from List.mem_singleton.1 ht] at hcolon
        exact absurd hcolon List.not_mem_nil
      · exact (hdns t ht).resolve_right fun hname =>
          Config.colon_notMem_of_isHostname hname hcolon
    · have hmem : t ++ hostMask ∈ dnsRoutesOf dnsServers :=
        List.mem_map.2 ⟨t, List.mem_filter.2 ⟨ht, by simpa using hcolon⟩, rfl⟩
      obtain ⟨n, hn⟩ := hroutes _ hmem
      rw [hostMask_eq] at hn
      exact InetNetwork.address_of_parse hn
  · intro haddrs r hr
    obtain ⟨t, ht, rfl⟩ := List.mem_map.1 hr
    obtain ⟨a, ha⟩ := haddrs t (List.mem_of_mem_filter ht)
    have hparse := InetNetwork.parse_prefixed ha (Nat.le_refl 32)
    rw [← hostMask_eq] at hparse
    exact ⟨_, hparse⟩

end Networks

/-! ## What one edit does to a peer -/

namespace PeerProxy

section Peer

variable {Addr : Type} {net : Net Addr} {n : Nat} {dnsServers t value : Text} {p : PeerProxy}

variable (net) in
/-- The allowed addresses are networks, or nothing is typed. -/
def Networks (p : PeerProxy) : Prop :=
  p.allowedIps = [] ∨ ∀ t ∈ Config.Attribute.split p.allowedIps, Parses net t

theorem allowedIps_ne_nil {networks : List Text} (h : p.Contains networks) (ht : t ∈ networks)
    (hne : t ≠ []) : p.allowedIps ≠ [] := by
  intro hnil
  have hmem := h t ht
  rw [hnil] at hmem
  exact hne (List.mem_singleton.1 hmem)

section Texts

variable (hnet : net.Literals) (hnetworks : p.Networks net)

include hnet hnetworks

theorem plain_of_mem (hne : p.allowedIps ≠ []) (ht : t ∈ p.getAllowedIpsSet) : Plain t ∧ Parses net t := by
  have hparse := hnetworks.resolve_left hne t (mem_getAllowedIpsSet.1 ht)
  obtain ⟨n, hn⟩ := hparse
  have hbare := InetNetwork.bare_of_parse hnet hn
  exact ⟨⟨hbare.1, comma_of_mem_getAllowedIpsSet ht, hbare.2⟩, n, hn⟩

theorem parses_excluded (hwildcard : wildcardNetwork ∈ p.getAllowedIpsSet) (ht : t ∈ p.excluded) :
    Plain t ∧ Parses net t := by
  have hne : p.allowedIps ≠ [] :=
    allowedIps_ne_nil (contains_wildcard.2 hwildcard) (mem_ipv4Wildcard.2 rfl)
      network_wildcard.nonempty
  rcases (mem_excluded hwildcard).1 ht with ht | ⟨ht, -⟩
  · exact ⟨(network_of_mem_public ht).plain, parses_public hnet ht⟩
  · exact plain_of_mem hnet hnetworks hne ht

variable (h : p.Kept n dnsServers)

include h

theorem plain_routed (hdns : DnsAccepted net dnsServers)
    (hwildcard : wildcardNetwork ∈ p.getAllowedIpsSet) (ht : t ∈ p.excluded.insertAll p.dnsRoutes) :
    Plain t := by
  rcases LinkedSet.mem_insertAll.1 ht with ht | ht
  · exact (parses_excluded hnet hnetworks hwildcard ht).1
  · rw [h.routes] at ht
    exact plain_route hnet hdns ht

theorem networks_turnOn (hdns : DnsAccepted net dnsServers)
    (hstate : p.allowedIpsState = .containsIpv4Wildcard) :
    (p.setExcludingPrivateIps true).Networks net ↔ OnlyAddresses net dnsServers := by
  have hwildcard := mem_of_wildcard h.state hstate
  rw [setExcludingPrivateIps_true hstate]
  refine (parses_join fun t ht => plain_routed hnet hnetworks h hdns hwildcard ht).trans ?_
  rw [← parses_routes_iff hdns, ← h.routes]
  constructor
  · exact fun hall r hr => hall r (LinkedSet.mem_insertAll.2 (.inr hr))
  · intro hroutes t ht
    rcases LinkedSet.mem_insertAll.1 ht with ht | ht
    · exact (parses_excluded hnet hnetworks hwildcard ht).2
    · exact hroutes t ht

theorem networks_turnOff (hstate : p.allowedIpsState = .containsIpv4PublicNetworks) :
    (p.setExcludingPrivateIps false).Networks net := by
  have hcontains := contains_of_public h.state hstate
  have hne : p.allowedIps ≠ [] :=
    allowedIps_ne_nil hcontains List.mem_cons_self (by decide)
  have hentry : ∀ t ∈ (p.included.removeAll p.dnsRoutes).toList, Plain t ∧ Parses net t := by
    intro t ht
    rcases (mem_included hcontains).1 (LinkedSet.mem_removeAll.1 ht).1 with rfl | ⟨ht, -⟩
    · exact ⟨network_wildcard.plain, parses_wildcard hnet⟩
    · exact plain_of_mem hnet hnetworks hne ht
  rw [setExcludingPrivateIps_false hstate]
  exact (parses_join fun t ht => (hentry t ht).1).2 fun t ht => (hentry t ht).2

theorem networks_setInterfaceDns (hstate : p.allowedIpsState = .containsIpv4PublicNetworks)
    (hvalue : DnsAccepted net value) :
    (p.setInterfaceDns value).Networks net ↔ OnlyAddresses net value := by
  have hcontains := contains_of_public h.state hstate
  have hne : p.allowedIps ≠ [] :=
    allowedIps_ne_nil hcontains List.mem_cons_self (by decide)
  obtain ⟨-, heq⟩ := (setInterfaceDns_cases p value).resolve_left fun hnot => hnot.1 hstate
  rw [heq, ← parses_routes_iff hvalue]
  have hmem : ∀ t ∈ (LinkedSet.empty.insertAll (p.getAllowedIpsSet.toList.filter
      (fun t => !p.dnsRoutes.contains t || (dnsRoutesOf value).contains t)
      ++ dnsRoutesOf value)).toList, t ∈ p.getAllowedIpsSet ∨ t ∈ dnsRoutesOf value := by
    intro t ht
    have ht := (LinkedSet.mem_insertAll.1 ht).resolve_left List.not_mem_nil
    rcases List.mem_append.1 ht with ht | ht
    · exact .inl (List.mem_of_mem_filter ht)
    · exact .inr ht
  refine (parses_join fun t ht => ?_).trans ?_
  · rcases hmem t ht with ht | ht
    · exact (plain_of_mem hnet hnetworks hne ht).1
    · exact plain_route hnet hvalue ht
  · constructor
    · intro hall r hr
      exact hall r (LinkedSet.mem_insertAll.2 (.inr (List.mem_append_right _ hr)))
    · intro hroutes t ht
      rcases hmem t ht with ht | ht
      · exact (plain_of_mem hnet hnetworks hne ht).2
      · exact hroutes t ht

end Texts

theorem wildcard_iff_able : p.allowedIpsState = .containsIpv4Wildcard ↔
    p.isAbleToExcludePrivateIps = true ∧ p.isExcludingPrivateIps = false := by
  unfold isAbleToExcludePrivateIps isExcludingPrivateIps
  cases p.allowedIpsState <;> decide

section Step

variable [DecidableEq Addr]

theorem resolve_frame {p' : PeerProxy} (hfields : p'.fields.tail = p.fields.tail)
    (h : ∃ q, p.resolve net = .ok q) : (∃ q, p'.resolve net = .ok q) ↔ p'.Networks net := by
  rw [resolve_ok_iff p']
  refine and_iff_left ?_
  have hrest := ((resolve_ok_iff p).1 h).2
  have hsame : PeerProxy.resolve net { p' with allowedIps := [] } =
      PeerProxy.resolve net { p with allowedIps := [] } := by
    show resolveFields net ((.allowedIps, []) :: p'.fields.tail) =
      resolveFields net ((.allowedIps, []) :: p.fields.tail)
    rw [hfields]
  rw [hsame]
  exact hrest

variable (hnet : net.Literals) (h : p.Kept n dnsServers) (hresolve : ∃ q, p.resolve net = .ok q)

include hnet h hresolve

theorem resolve_setExcludingPrivateIps (hdns : DnsAccepted net dnsServers) (excluding : Bool) :
    (∃ q, (p.setExcludingPrivateIps excluding).resolve net = .ok q) ↔
      (excluding = true → p.isAbleToExcludePrivateIps = true → p.isExcludingPrivateIps = false →
        OnlyAddresses net dnsServers) := by
  have hnetworks : p.Networks net := ((resolve_ok_iff p).1 hresolve).1
  rcases setExcludingPrivateIps_cases p excluding with heq | ⟨rfl, hstate⟩ | ⟨rfl, hstate⟩
  · rw [heq]
    refine iff_of_true hresolve ?_
    rintro rfl hable hexcluding
    -- a peer that can be turned on is not left as it is
    have hstate := wildcard_iff_able.2 ⟨hable, hexcluding⟩
    have hturned := congrArg allowedIpsState heq
    rw [setExcludingPrivateIps_true hstate, hstate] at hturned
    cases hturned
  · have hable := wildcard_iff_able.1 hstate
    have hfields : (p.setExcludingPrivateIps true).fields.tail = p.fields.tail := by
      rw [setExcludingPrivateIps_true hstate]
      rfl
    rw [resolve_frame hfields hresolve, networks_turnOn hnet hnetworks h hdns hstate]
    exact ⟨fun hall _ _ _ => hall, fun hall => hall rfl hable.1 hable.2⟩
  · have hfields : (p.setExcludingPrivateIps false).fields.tail = p.fields.tail := by
      rw [setExcludingPrivateIps_false hstate]
      rfl
    rw [resolve_frame hfields hresolve]
    exact iff_of_true (networks_turnOff hnet hnetworks h hstate) fun hon => nomatch hon

theorem resolve_onDnsServersChanged (hvalue : DnsAccepted net value) :
    (∃ q, (p.onDnsServersChanged value).resolve net = .ok q) ↔
      (p.isExcludingPrivateIps = true → OnlyAddresses net value) := by
  have hnetworks : p.Networks net := ((resolve_ok_iff p).1 hresolve).1
  unfold onDnsServersChanged
  rw [if_pos h.bound]
  rcases setInterfaceDns_cases p value with ⟨hstate, heq⟩ | ⟨hstate, heq⟩
  · rw [heq]
    exact iff_of_true hresolve fun hexcluding => absurd (of_decide_eq_true hexcluding) hstate
  · have hfields : (p.setInterfaceDns value).fields.tail = p.fields.tail := by
      rw [heq]
      rfl
    have hexcluding : p.isExcludingPrivateIps = true := decide_eq_true hstate
    rw [resolve_frame hfields hresolve, networks_setInterfaceDns hnet hnetworks h hstate hvalue]
    exact ⟨fun hall _ => hall, fun hall => hall hexcluding⟩

end Step

end Peer

end PeerProxy

/-! ## Edits -/

/-- A text for the DNS field that `parseDnsServers` takes, or nothing. -/
structure DnsText {Addr : Type} [DecidableEq Addr] (net : Net Addr) where
  text : Text
  accepted : text = [] ∨ ∃ b, InterfaceBuilder.parseDnsServers net .new text = .ok b

inductive Edit {Addr : Type} [DecidableEq Addr] (net : Net Addr) where
  | setExcludingPrivateIps (excluding : Bool)
  | setDnsServers (value : DnsText net)

def exampleKey : Text := List.replicate 43 'A' ++ ['=']

namespace ConfigProxy

section Edits

variable {Addr : Type} [DecidableEq Addr] {net : Net Addr}

def edit (c : ConfigProxy) : Edit net → ConfigProxy
  | .setExcludingPrivateIps excluding => c.step (.setExcludingPrivateIps 0 excluding)
  | .setDnsServers value => c.step (.setDnsServers value.text)

variable (net) in
def Resolves (c : ConfigProxy) : Prop := ∃ r, c.resolve net = .ok r

instance (c : ConfigProxy) : Decidable (c.Resolves net) :=
  decidable_of_iff' _ Loops.exists_ok_iff

/-- No route is made of something that is not an address. -/
def Routable (c : ConfigProxy) : Edit net → Prop
  | .setExcludingPrivateIps excluding => ∀ p ∈ c.peers, excluding = true →
      p.isAbleToExcludePrivateIps = true → p.isExcludingPrivateIps = false →
      OnlyAddresses net c.interfaze.dnsServers
  | .setDnsServers value => ∀ p ∈ c.peers, p.isExcludingPrivateIps = true →
      OnlyAddresses net value.text

theorem resolves_iff {c : ConfigProxy} {p : PeerProxy} (h : c.peers = [p]) :
    c.Resolves net ↔ (∃ q, p.resolve net = .ok q) ∧ ∃ i, c.interfaze.resolve net = .ok i := by
  have hresolve : c.resolve net = (p.resolve net >>= fun q => c.interfaze.resolve net >>= fun i =>
      .ok ⟨i, [q]⟩) := by
    unfold resolve
    rw [h, List.mapM_cons, bind_assoc]
    rfl
  unfold Resolves
  rw [hresolve]
  refine Loops.exists_bind_ok_iff fun q _ => ?_
  exact (Loops.exists_bind_ok_iff fun i _ => iff_of_true ⟨_, rfl⟩ trivial).trans (and_iff_left trivial)

/-- What the screen always has: one peer, which has heard of everything. -/
structure Single (c : ConfigProxy) : Prop where
  sound : c.Sound
  one : c.peers.length = 1

theorem Single.edit {c : ConfigProxy} (h : c.Single) (e : Edit net) : (c.edit e).Single := by
  cases e with
  | setExcludingPrivateIps excluding =>
    exact ⟨sound_step h.sound _, (List.length_modify _ _ _).trans h.one⟩
  | setDnsServers value => exact ⟨sound_step h.sound _, (List.length_map _).trans h.one⟩

theorem resolves_edit_iff (hnet : net.Literals) {c : ConfigProxy} (hc : c.Single)
    (h : c.Resolves net) (e : Edit net) : (c.edit e).Resolves net ↔ c.Routable e := by
  obtain ⟨p, hp⟩ := List.length_eq_one_iff.1 hc.one
  obtain ⟨hpeer, hinterface⟩ := (resolves_iff hp).1 h
  have hkept := hc.sound p (by rw [hp]; exact List.mem_cons_self)
  cases e with
  | setExcludingPrivateIps excluding =>
    have hp' : (c.edit (.setExcludingPrivateIps excluding : Edit net)).peers =
        [p.setExcludingPrivateIps excluding] := by
      show c.peers.modify 0 _ = _
      rw [hp]
      rfl
    have hdns : DnsAccepted net c.interfaze.dnsServers :=
      ((InterfaceProxy.resolve_ok_iff _).1 hinterface).1
    refine (resolves_iff hp').trans ((and_iff_left hinterface).trans ?_)
    simp only [Routable, hp, List.forall_mem_singleton]
    exact PeerProxy.resolve_setExcludingPrivateIps hnet hkept hpeer hdns excluding
  | setDnsServers value =>
    have hp' : (c.edit (.setDnsServers value)).peers = [p.onDnsServersChanged value.text] := by
      show c.peers.map _ = _
      rw [hp]
      rfl
    have hvalue : DnsAccepted net value.text :=
      value.accepted.imp_right InterfaceBuilder.parseDnsServers_ok_iff.1
    have hinterface' : ∃ i, (c.edit (.setDnsServers value)).interfaze.resolve net = .ok i :=
      (InterfaceProxy.resolve_ok_iff _).2
        ⟨hvalue, ((InterfaceProxy.resolve_ok_iff _).1 hinterface).2⟩
    refine (resolves_iff hp').trans ((and_iff_left hinterface').trans ?_)
    simp only [Routable, hp, List.forall_mem_singleton]
    exact PeerProxy.resolve_onDnsServersChanged hnet hkept hpeer hvalue

/-- After every edit `resolve` succeeds, exactly as long as every DNS server that becomes a route
is an address. -/
theorem states_resolves_iff (hnet : net.Literals) {c : ConfigProxy} (hc : c.Single)
    (hresolves : c.Resolves net) (edits : List (Edit net)) :
    (∀ c' ∈ Runs.states edit c edits, c'.Resolves net) ↔ Runs.Guarded edit Routable c edits := by
  have hstep : ∀ (c : ConfigProxy) (e : Edit net), c.Single → (c.edit e).Single :=
    fun c e h => h.edit e
  have hstates := Runs.invariant_states_of_step hstep hc edits
  have hiff : (∀ c' ∈ Runs.states edit c edits, c'.Single ∧ c'.Resolves net) ↔
      Runs.Guarded edit Routable c edits := by
    refine Runs.states_iff_guarded (fun c e h => ?_) ⟨hc, hresolves⟩ edits
    rw [and_iff_right (h.1.edit e)]
    exact resolves_edit_iff hnet h.1 h.2 e
  rw [← hiff]
  exact forall₂_congr fun c' hc' => (and_iff_right (hstates c' hc')).symm

end Edits

def routedAll : ConfigProxy :=
  add { interfaze := { dnsServers := "1.1.1.1".toList, privateKey := exampleKey } }
    { PeerProxy.setAllowedIps {} "0.0.0.0/0".toList with publicKey := exampleKey }

theorem routedAll_single : routedAll.Single := by
  refine ⟨(sound_add ?_ ?_).1, rfl⟩
  · exact fun p hp => absurd hp List.not_mem_nil
  · exact PeerProxy.fresh_setAllowedIps { publicKey := exampleKey } _

theorem routedAll_resolves : routedAll.Resolves Config.inet4Net := by decide +kernel

def quadDns : DnsText Config.inet4Net where
  text := "8.8.4.4".toList
  accepted := .inr (Loops.exists_ok_iff.2 (by decide +kernel))

def domainDns : DnsText Config.inet4Net where
  text := "example.com".toList
  accepted := .inr (Loops.exists_ok_iff.2 (by decide +kernel))

def noDns : DnsText Config.inet4Net := ⟨[], .inl rfl⟩

def quadEdits : List (Edit Config.inet4Net) :=
  [.setExcludingPrivateIps true, .setDnsServers quadDns, .setExcludingPrivateIps false,
   .setDnsServers noDns]

theorem states_resolves_quads :
    (Runs.run edit routedAll quadEdits).Resolves Config.inet4Net := by
  have hquads : ∀ dns ∈ ["1.1.1.1".toList, "8.8.4.4".toList], OnlyAddresses Config.inet4Net dns := by
    decide +kernel
  have hoff : ∀ p ∈ (Runs.run edit routedAll (quadEdits.take 3)).peers,
      p.isExcludingPrivateIps = false := by
    decide +kernel
  have hguard : Runs.Guarded edit Routable routedAll quadEdits := by
    refine ⟨fun p _ _ _ _ => hquads _ (by decide), fun p _ _ => hquads _ (by decide),
      fun p _ hon => (nomatch hon), fun p hp hexcluding => ?_, trivial⟩
    rw [hoff p hp] at hexcluding
    cases hexcluding
  exact (states_resolves_iff Config.inet4Net_literals routedAll_single routedAll_resolves quadEdits).2
    hguard _ (Runs.run_mem_states _ _ _)

/-- A DNS field that is emptied while private addresses are excluded leaves a route to nothing; a
search domain becomes a route like an address. -/
theorem routedAll_not_resolves :
    routedAll.Single ∧ routedAll.Resolves Config.inet4Net ∧
      ¬ (Runs.run edit routedAll [.setExcludingPrivateIps true, .setDnsServers noDns]).Resolves
        Config.inet4Net ∧
      ¬ (Runs.run edit routedAll [.setDnsServers domainDns, .setExcludingPrivateIps true]).Resolves
        Config.inet4Net :=
  ⟨routedAll_single, routedAll_resolves, by decide +kernel, by decide +kernel⟩

end ConfigProxy

end Amnezia.Viewmodel
