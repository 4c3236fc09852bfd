import Amnezia.Tools.PrintedDevice

/-!
# From the app to the kernel

The app writes a configuration, awg-quick takes its own options out of it, and `setconf` reads the
rest.  The device that comes out is the configuration, exactly when the configuration is readable:
the command line tools have limits that the app does not have.
-/

namespace Amnezia.Tools

open Config.Attribute
open Java (Text)
open Libc (Bytes utf8)
open Config (InterfaceAttribute Interface PeerAttribute Peer Net InetNetwork NumberAttribute
  TextAttribute)

section Statement

variable {Addr : Type} (sys : Resolver Addr) (net : Net Addr)

def commaEntries (s : Bytes) : List Bytes := if s = [] then [] else s.splitOn ','

def commaNames (s : Option Bytes) : List Bytes := (s.map fun s => s.splitOn ',').getD []

structure Extracts (c : Config Addr) (o : Options) : Prop where
  addrs : (o.list .addrs).map commaEntries =
    some (c.interfaze.addresses.toList.map fun n => utf8 (n.toString net))
  dnses : (o.list .dnses).map commaEntries =
    some ((c.interfaze.dnsServers.toList.map fun a => utf8 (net.getHostAddress a))
      ++ c.interfaze.dnsSearchDomains.toList.map utf8)
  excluded : commaNames (o.list .excludedApplications) =
    c.interfaze.excludedApplications.toList.map utf8
  included : commaNames (o.list .includedApplications) =
    c.interfaze.includedApplications.toList.map utf8
  mtu : (o.mtu : Int) = (c.interfaze.number .mtu).getD 0

structure ConfiguresPeer (p : Peer Addr) (q : WgPeer Addr) : Prop where
  publicKey : q.publicKey = some p.publicKey
  presharedKey : q.presharedKey = p.preSharedKey
  noEndpoint : p.endpoint = none → q.endpoint = none
  endpoint : ∀ e, p.endpoint = some e →
    ∃ a, Config.InetAddresses.parse net e.host = .ok a ∧ q.endpoint = some (a, e.port.toNat)
  allowedIps : q.allowedIps = p.allowedIps.toList.map (wgAllowedIp net)
  persistentKeepalive : q.persistentKeepaliveInterval = p.persistentKeepalive.map Int.toNat

/-- The device is that of the configuration; what the configuration does not say is not set. -/
structure Configures (c : Config Addr) (d : WgDevice Addr) : Prop where
  privateKey : d.privateKey = some c.interfaze.privateKey
  listenPort : d.listenPort = (c.interfaze.number .listenPort).map Int.toNat
  uint : ∀ p, d.uint p = (c.interfaze.number p.attribute).map Int.toNat
  string : ∀ p, d.string p = (c.interfaze.text p.attribute).map fun t => some (utf8 t)
  peers : List.Forall₂ (ConfiguresPeer net) c.peers d.peers

/-- What the app writes goes through awg-quick and `setconf`, and means the same. -/
def ReachesKernel (c : Config Addr) : Prop :=
  let o := parseOptions (utf8 (c.toAwgQuickString net))
  Extracts net c o ∧
    ∃ config d, o.config = some config ∧ readConfig sys config = .ok d ∧ Configures net c d

def lineSize (key : Text) (entries : List Text) : Nat :=
  key.length + 2 + (entries.map fun t => (utf8 t).length + 2).sum

/-- A configuration within the limits of the command line tools. -/
structure Readable (c : Config Addr) : Prop where
  /-- `Jc`, `Jmin`, `Jmax` and `S1` to `S4` are 16-bit numbers. -/
  junk : ∀ (p : UintParameter) n, c.interfaze.number p.attribute = some n → n ≤ 65535
  /-- `H1` to `H4` and `I1` to `I5` are shorter than 5 KiB. -/
  short : ∀ a t, c.interfaze.text a = some t → (utf8 t).length < maxAwgStringLen
  /-- `H1` to `H4` have no blanks. -/
  headers : ∀ a t, c.interfaze.text a = some t → keepsBlanks a = false →
    ∀ d ∈ t, Java.space d = false
  excluded : ∀ t ∈ c.interfaze.excludedApplications, ∀ d ∈ t, Java.space d = false
  included : ∀ t ∈ c.interfaze.includedApplications, ∀ d ∈ t, Java.space d = false
  /-- Search domains stand beside a server. -/
  domains : c.interfaze.dnsServers.toList = [] → c.interfaze.dnsSearchDomains.toList = []
  /-- No list is longer than the longest line of awg-quick. -/
  lists : ∀ l : ListOption, lineSize l.attribute.key (c.interfaze.entries net l.attribute) ≤ 65536
  peers : ∀ p ∈ c.peers, ∀ a : PeerAttribute, lineSize a.key (p.entries net a) ≤ 65536

end Statement

theorem length_utf8_join {ts : List Text} (h : ts ≠ []) :
    (utf8 (join ts)).length + 2 = (ts.map fun t => (utf8 t).length + 2).sum := by
  have hjoin : utf8 (join ts) = [',', ' '].intercalate (ts.map utf8) :=
    Fields.apply_intercalate Libc.utf8_nil Libc.utf8_append [',', ' '] ts
  rw [hjoin]
  clear hjoin
  induction ts with
  | nil => exact absurd rfl h
  | cons t ts ih =>
    cases ts with
    | nil => simp [List.intercalate_singleton]
    | cons u us =>
      have hrest := ih (by simp)
      simp only [List.map_cons, List.sum_cons] at hrest ⊢
      rw [List.intercalate_cons_cons, List.length_append, List.length_append, ← hrest]
      simp only [List.length_cons, List.length_nil]
      omega

theorem length_fileLine {key : Text} (hword : ∀ c ∈ key, Java.word c = true) {ts : List Text}
    (h : ts ≠ []) :
    (fileLine (line key (join ts))).length = lineSize key ts := by
  have hjoin := length_utf8_join h
  unfold fileLine line lineSize
  rw [Libc.utf8_append, utf8_key hword]
  show (key ++ (' ' :: '=' :: ' ' :: utf8 (join ts)) ++ ['\n']).length = _
  simp only [List.length_append, List.length_cons, List.length_nil]
  omega

theorem length_valueOf_le {n : Nat} (h : n ≤ 2147483647) : (Java.valueOf n).length ≤ 10 := by
  rw [Java.valueOf_natCast, Nat.length_toDigits_le_iff (by decide) (by decide)]
  omega

section Lines

variable {Addr : Type} {net : Net Addr}

theorem lineSize_number {i : Interface Addr} (hi : i.Valid net) (a : NumberAttribute) :
    lineSize (InterfaceAttribute.number a).key (i.entries net (.number a)) ≤ 65536 := by
  have hkey : (InterfaceAttribute.number a).key.length ≤ 10 := by
    cases a <;> decide
  unfold lineSize
  rw [Interface.entries_number]
  cases hn : i.number a with
  | none =>
    simp only [Option.toList_none, List.map_nil, List.sum_nil]
    omega
  | some n =>
    have hfits := hi.number a n hn
    obtain ⟨m, rfl⟩ := Int.eq_ofNat_of_zero_le (Int.le_of_lt hfits.1)
    have hmax := hfits.2.1
    have hlength := @length_valueOf_le m (by omega)
    have hutf8 : utf8 (Java.valueOf m) = Java.valueOf m := by
      apply Libc.utf8_of_ascii
      intro c hc
      have hdigit := Java.isDigit_iff.1 (Java.isDigit_of_mem_valueOf hc)
      omega
    simp only [Option.toList_some, List.map_cons, List.map_nil, List.sum_cons, List.sum_nil, hutf8]
    omega

theorem lineSize_privateKey (i : Interface Addr) :
    lineSize InterfaceAttribute.privateKey.key (i.entries net .privateKey) ≤ 65536 := by
  have hutf8 : utf8 i.privateKey.toBase64 = i.privateKey.toBase64 :=
    Libc.utf8_of_ascii fun c hc => Crypto.Key.toNat_lt_of_mem_toBase64 hc
  have hkey : InterfaceAttribute.privateKey.key.length = 10 := rfl
  unfold lineSize Interface.entries
  simp only [List.map_cons, List.map_nil, List.sum_cons, List.sum_nil, hutf8,
    Crypto.Key.length_toBase64, hkey]
  omega

theorem lineSize_le {i : Interface Addr} (hi : i.Valid net)
    (hlists : ∀ l : ListOption, lineSize l.attribute.key (i.entries net l.attribute) ≤ 65536)
    (htexts : ∀ a t, i.text a = some t → (utf8 t).length < maxAwgStringLen)
    (a : InterfaceAttribute) : lineSize a.key (i.entries net a) ≤ 65536 := by
  cases a with
  | address => exact hlists .addrs
  | dns => exact hlists .dnses
  | excludedApplications => exact hlists .excludedApplications
  | includedApplications => exact hlists .includedApplications
  | number a => exact lineSize_number hi a
  | privateKey => exact lineSize_privateKey i
  | text a =>
    have hkey : (InterfaceAttribute.text a).key.length = 2 := by
      cases a <;> rfl
    unfold lineSize
    rw [Interface.entries_text]
    cases ht : i.text a with
    | none =>
      simp only [Option.toList_none, List.map_nil, List.sum_nil]
      omega
    | some t =>
      have hlt := htexts a t ht
      unfold maxAwgStringLen at hlt
      simp only [Option.toList_some, List.map_cons, List.map_nil, List.sum_cons, List.sum_nil]
      omega

end Lines

namespace Printed

variable {Addr : Type} {net : Net Addr}

variable {d : Printed Addr}

/-- The lines before one that is too long are those of some attributes of the interface, or of all
of them, some peers and some attributes of one more. -/
theorem lines_before {pre post : List Text} {l : Text} (h : d.lines net = pre ++ l :: post)
    (hlong : 65536 < (fileLine l).length) :
    (∃ as a as', d.attributes = as ++ a :: as' ∧ l = d.interfaze.attributeLine net a ∧
      pre = (Printed.mk d.interfaze as []).lines net) ∨
    (∃ ps p ps' bs b bs', d.peers = ps ++ p :: ps' ∧ p.2 = bs ++ b :: bs' ∧
      pre = (Printed.mk d.interfaze d.attributes (ps ++ [(p.1, bs)])).lines net) := by
  have hshort : ∀ m : Text, (fileLine m).length ≤ 65536 → l ≠ m := by
    rintro m hm rfl
    omega
  unfold lines at h
  rcases Loops.append_eq_append_cons h with ⟨mid, hmid⟩ | ⟨mid, rfl, hpeers⟩
  · -- in the interface, and not its header
    cases pre with
    | nil =>
      rw [List.nil_append, List.cons.injEq] at hmid
      exact absurd hmid.1.symm (hshort _ (by decide))
    | cons m pre =>
      rw [List.cons_append, List.cons.injEq] at hmid
      obtain ⟨as, as', hsplit, hpre, hrest⟩ := List.map_eq_append_iff.1 hmid.2
      obtain ⟨a, as'', rfl, ha, -⟩ := List.map_eq_cons_iff.1 hrest
      refine .inl ⟨as, a, as'', hsplit, ha.symm, ?_⟩
      unfold lines
      rw [← hmid.1, ← hpre, List.flatMap_nil, List.append_nil]
  · obtain ⟨ps, p, ps', mid', rest, hps, rfl, hp⟩ := Loops.flatMap_eq_append_cons hpeers
    unfold peerLines at hp
    cases mid' with
    | nil =>
      rw [List.nil_append, List.cons.injEq] at hp
      exact absurd hp.1.symm (hshort _ (by decide))
    | cons m₁ mid' =>
      cases mid' with
      | nil =>
        simp only [List.cons_append, List.nil_append, List.cons.injEq] at hp
        exact absurd hp.2.1.symm (hshort _ (by decide))
      | cons m₂ mid' =>
        simp only [List.cons_append, List.cons.injEq] at hp
        obtain ⟨bs, bs', hsplit, hpre, hrest⟩ := List.map_eq_append_iff.1 hp.2.2
        obtain ⟨b, bs'', rfl, -, -⟩ := List.map_eq_cons_iff.1 hrest
        refine .inr ⟨ps, p, ps', bs, b, bs'', hps, hsplit, ?_⟩
        unfold lines
        rw [List.flatMap_append, List.flatMap_cons, List.flatMap_nil, List.append_nil]
        unfold peerLines
        rw [← hp.1, ← hp.2.1, hpre]

theorem Good.take (hd : d.Good net) {as as' : List InterfaceAttribute}
    (has : d.attributes = as ++ as') : (Printed.mk d.interfaze as []).Good net where
  valid := hd.valid
  present a ha := hd.present a (by rw [has]; exact List.mem_append_left _ ha)
  nodup := (has ▸ hd.nodup).of_append_left
  nul := hd.nul
  peerValid _ h := absurd h List.not_mem_nil
  peerNumeric _ h := absurd h List.not_mem_nil
  peerPresent _ h := absurd h List.not_mem_nil
  peerNodup _ h := absurd h List.not_mem_nil

theorem Good.takePeers (hd : d.Good net) {ps ps' : List (Peer Addr × List PeerAttribute)}
    {p : Peer Addr × List PeerAttribute} (hps : d.peers = ps ++ p :: ps')
    {bs bs' : List PeerAttribute} (hbs : p.2 = bs ++ bs') :
    (Printed.mk d.interfaze d.attributes (ps ++ [(p.1, bs)])).Good net := by
  have hmem : ∀ q ∈ ps ++ [(p.1, bs)], ∃ q' ∈ d.peers, q.1 = q'.1 ∧ ∃ rest, q'.2 = q.2 ++ rest := by
    intro q hq
    rcases List.mem_append.1 hq with hq | hq
    · exact ⟨q, by rw [hps]; simp [hq], rfl, [], by simp⟩
    · rw [List.mem_singleton.1 hq]
      exact ⟨p, by rw [hps]; simp, rfl, bs', hbs⟩
  refine ⟨hd.valid, hd.present, hd.nodup, hd.nul, ?_, ?_, ?_, ?_⟩
  · intro q hq
    obtain ⟨q', hq', heq, -⟩ := hmem q hq
    exact heq ▸ hd.peerValid q' hq'
  · intro q hq
    obtain ⟨q', hq', heq, -⟩ := hmem q hq
    exact heq ▸ hd.peerNumeric q' hq'
  · intro q hq a ha
    obtain ⟨q', hq', heq, rest, hrest⟩ := hmem q hq
    rw [heq]
    exact hd.peerPresent q' hq' a (by rw [hrest]; exact List.mem_append_left _ ha)
  · intro q hq
    obtain ⟨q', hq', -, rest, hrest⟩ := hmem q hq
    exact (hrest ▸ hd.peerNodup q' hq').of_append_left

theorem Good.left (hd : d.Good net) : d.left.Good net where
  valid := hd.valid
  present a ha := hd.present a (List.mem_filter.1 ha).1
  nodup := hd.nodup.filter _
  nul := hd.nul
  peerValid := hd.peerValid
  peerNumeric := hd.peerNumeric
  peerPresent := hd.peerPresent
  peerNodup := hd.peerNodup

theorem quickAction_left : ∀ a ∈ d.left.attributes, quickAction a = none :=
  fun _ ha => of_decide_eq_true (List.mem_filter.1 ha).2

theorem mem_left {a : InterfaceAttribute} (ha : quickAction a = none) :
    a ∈ d.left.attributes ↔ a ∈ d.attributes := by
  show a ∈ d.attributes.filter _ ↔ _
  rw [List.mem_filter, decide_eq_true_iff]
  exact and_iff_left ha

theorem good_ofConfig [DecidableEq Addr] (hnet : net.Documented) {text : Text} {c : Config Addr}
    (h : Config.parse net text = .ok c) (hnul : '\x00' ∉ text)
    (hnum : ∀ p ∈ c.peers, ∀ e, p.endpoint = some e → e.isResolved = true) :
    (ofConfig net c).Good net := by
  have hvalid := Config.valid_of_parse h
  have hpeer : ∀ q ∈ (ofConfig net c).peers, ∃ p ∈ c.peers, q = (p, p.present net) := by
    intro q hq
    obtain ⟨p, hp, rfl⟩ := List.mem_map.1 hq
    exact ⟨p, hp, rfl⟩
  refine ⟨hvalid.1, fun a ha => Interface.mem_present.1 ha, Interface.nodup_present _,
    fun a t ht => Config.notMem_entries hnet h (by decide) hnul ht, ?_, ?_, ?_, ?_⟩
  · intro q hq
    obtain ⟨p, hp, rfl⟩ := hpeer q hq
    exact hvalid.2 p hp
  · intro q hq
    obtain ⟨p, hp, rfl⟩ := hpeer q hq
    exact hnum p hp
  · intro q hq a ha
    obtain ⟨p, hp, rfl⟩ := hpeer q hq
    exact Peer.mem_present.1 ha
  · intro q hq
    obtain ⟨p, hp, rfl⟩ := hpeer q hq
    exact Peer.nodup_present p

end Printed

end Amnezia.Tools
