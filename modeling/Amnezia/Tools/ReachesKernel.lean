import Amnezia.Tools.KernelPath

/-!
# The configurations that reach the kernel

When every line fits, what the tools read is the configuration up to the blanks they take out and
the values they refuse.  A line that does not fit ends the reading, and something is missing then:
a list, a text, or the public key that is the last line of every peer.
-/

namespace Amnezia.Tools

open Java (Text)
open Printed
open Libc (Bytes utf8)
open Config (InterfaceAttribute Interface PeerAttribute Peer Net InetNetwork NumberAttribute
  TextAttribute)

/-! ## Lists -/

theorem squeeze_eq_utf8_iff {t : Text} : squeeze t = utf8 t ↔ ∀ d ∈ t, Java.space d = false := by
  unfold squeeze
  rw [← Libc.filter_utf8, Libc.filter_utf8_eq_self_iff]

variable {ts : List Text}

theorem map_squeeze_eq_iff :
    ts.map squeeze = ts.map utf8 ↔ ∀ t ∈ ts, ∀ d ∈ t, Java.space d = false := by
  simp only [List.map_inj_left, squeeze_eq_utf8_iff]

theorem splitOn_squeezeAll (hne : ts ≠ []) (hcomma : ∀ t ∈ ts, ',' ∉ t) :
    (squeezeAll ts).splitOn ',' = ts.map squeeze := by
  unfold squeezeAll
  apply List.splitOn_intercalate
  · intro u hu
    obtain ⟨t, ht, rfl⟩ := List.mem_map.1 hu
    unfold squeeze
    rw [Libc.mem_utf8_iff (by decide)]
    exact fun hmem => hcomma t ht (List.mem_filter.1 hmem).1
  · simpa using hne

theorem commaEntries_squeezeAll (h : ∀ t ∈ ts, Config.Attribute.Solid t) :
    commaEntries (squeezeAll ts) = ts.map utf8 := by
  have hsqueeze : ts.map squeeze = ts.map utf8 := by
    rw [map_squeeze_eq_iff]
    intro t ht d hd
    apply eq_false_of_ne_true
    intro hspace
    have htrim := (h t ht).trimmable hd
    rw [Java.trimmable_of_space hspace] at htrim
    exact absurd htrim (by decide)
  unfold commaEntries
  by_cases hne : ts = []
  · rw [hne]
    rfl
  · rw [if_neg (squeezeAll_solid_ne_nil hne h),
      splitOn_squeezeAll hne fun t ht => (h t ht).token.comma, hsqueeze]

section Whole

variable {Addr : Type} {sys : Resolver Addr} {net : Net Addr}

variable {i : Interface Addr} {a : InterfaceAttribute}

theorem entries_of_notMem (h : a ∉ i.present net) : i.entries net a = [] := by
  rwa [Interface.mem_present, not_not] at h

theorem getD_list (i : Interface Addr) (a : InterfaceAttribute) :
    (if a ∈ i.present net then some (squeezeAll (i.entries net a)) else none).getD [] =
      squeezeAll (i.entries net a) := by
  split
  · rfl
  · next h =>
    rw [entries_of_notMem h]
    rfl

theorem commaNames_list (hcomma : ∀ t ∈ i.entries net a, ',' ∉ t) :
    commaNames (if a ∈ i.present net then some (squeezeAll (i.entries net a)) else none) =
      (i.entries net a).map squeeze := by
  split
  · next h => exact splitOn_squeezeAll (Interface.mem_present.1 h) hcomma
  · next h =>
    rw [entries_of_notMem h]
    rfl

theorem mtu_number (hi : i.Valid net) :
    (if .number .mtu ∈ i.present net then
      (Libc.atoi (squeezeAll (i.entries net (.number .mtu)))).toNat else 0) =
      ((i.number .mtu).getD 0).toNat := by
  split
  · next h =>
    obtain ⟨n, hn⟩ := number_of_entries (Interface.mem_present.1 h)
    have hfits := hi.number _ n hn
    obtain ⟨m, rfl⟩ := Int.eq_ofNat_of_zero_le (Int.le_of_lt hfits.1)
    have hmax := hfits.2.1
    have hentries : i.entries net (.number .mtu) = [Java.valueOf m] := by
      rw [Interface.entries_number, hn]
      rfl
    rw [hentries, squeezeAll_singleton, squeeze_solid (Config.Attribute.solid_valueOf m),
      Libc.atoi_valueOf (by omega), hn]
    rfl
  · next h =>
    have hnil := entries_of_notMem h
    rw [Interface.entries_number] at hnil
    cases hn : i.number .mtu with
    | none => rfl
    | some n =>
      rw [hn] at hnil
      cases hnil

/-! ## The device -/

theorem number_of_notMem {a : NumberAttribute} (h : ¬ i.entries net (.number a) ≠ []) :
    i.number a = none := by
  rw [not_not, Interface.entries_number, List.map_eq_nil_iff] at h
  exact Option.toList_eq_nil_iff.1 h

theorem text_of_notMem {a : TextAttribute} (h : ¬ i.entries net (.text a) ≠ []) :
    i.text a = none := by
  rw [not_not, Interface.entries_text] at h
  exact Option.toList_eq_nil_iff.1 h

theorem StringParameter.attribute_surjective (a : TextAttribute) :
    ∃ p : StringParameter, p.attribute = a := by
  cases a <;> first
    | exact ⟨.initPacketMagicHeader, rfl⟩
    | exact ⟨.responsePacketMagicHeader, rfl⟩
    | exact ⟨.underloadPacketMagicHeader, rfl⟩
    | exact ⟨.transportPacketMagicHeader, rfl⟩
    | exact ⟨.i1, rfl⟩
    | exact ⟨.i2, rfl⟩
    | exact ⟨.i3, rfl⟩
    | exact ⟨.i4, rfl⟩
    | exact ⟨.i5, rfl⟩

theorem configuresPeer_wgPeer {p : Peer Addr} (hp : p.Valid net)
    (hnum : ∀ e, p.endpoint = some e → e.isResolved = true) :
    ConfiguresPeer net p (wgPeer net (p, p.present net)) := by
  have hnodup : (p, p.present net).2.Nodup := Peer.nodup_present p
  have hmem : ∀ a, a ∉ (p, p.present net).2 → p.entries net a = [] := by
    intro a h
    rwa [show a ∈ (p, p.present net).2 ↔ _ from Peer.mem_present, not_not] at h
  have hendpoint : (wgPeer net (p, p.present net)).endpoint =
      p.endpoint.bind (wgEndpoint net) := by
    rw [component_wgPeer (fun q : WgPeer Addr => q.endpoint) hnodup (a := .endpoint)
      (fun _ => p.endpoint.bind (wgEndpoint net)) (fun q => rfl)
      (fun q b hne => by cases b <;> first | rfl | exact absurd rfl hne)]
    split
    · rfl
    · next h =>
      have hnil : p.endpoint.toList.map Config.InetEndpoint.toString = [] := hmem _ h
      rw [List.map_eq_nil_iff, Option.toList_eq_nil_iff] at hnil
      rw [hnil]
      rfl
  refine ⟨?_, ?_, ?_, ?_, ?_, ?_⟩
  · rw [publicKey_wgPeer hnodup]
    exact if_pos (Peer.mem_present.2 (by simp [Peer.entries]))
  · rw [component_wgPeer (fun q : WgPeer Addr => q.presharedKey) hnodup (a := .preSharedKey)
      (fun _ => p.preSharedKey) (fun q => rfl)
      (fun q b hne => by cases b <;> first | rfl | exact absurd rfl hne)]
    split
    · rfl
    · next h =>
      have hnil : p.preSharedKey.toList.map Crypto.Key.toBase64 = [] := hmem _ h
      rw [List.map_eq_nil_iff, Option.toList_eq_nil_iff] at hnil
      rw [hnil]
  · intro hnone
    rw [hendpoint, hnone]
    rfl
  · intro e he
    obtain ⟨a, ha⟩ := numeric_host (hp.endpoint e he) (hnum e he)
    refine ⟨a, ha.2, ?_⟩
    rw [hendpoint, he]
    show wgEndpoint net e = _
    unfold wgEndpoint
    rw [ha.2]
  · rw [component_wgPeer (fun q : WgPeer Addr => q.allowedIps) hnodup (a := .allowedIps)
      (fun ips => ips ++ p.allowedIps.toList.map (wgAllowedIp net)) (fun q => rfl)
      (fun q b hne => by cases b <;> first | rfl | exact absurd rfl hne)]
    split
    · rfl
    · next h =>
      have hnil : p.allowedIps.toList.map (InetNetwork.toString net) = [] := hmem _ h
      rw [List.map_eq_nil_iff] at hnil
      rw [hnil]
      rfl
  · rw [component_wgPeer (fun q : WgPeer Addr => q.persistentKeepaliveInterval) hnodup
      (a := .persistentKeepalive) (fun _ => p.persistentKeepalive.map Int.toNat) (fun q => rfl)
      (fun q b hne => by cases b <;> first | rfl | exact absurd rfl hne)]
    split
    · rfl
    · next h =>
      have hnil : p.persistentKeepalive.toList.map Java.valueOf = [] := hmem _ h
      rw [List.map_eq_nil_iff, Option.toList_eq_nil_iff] at hnil
      rw [hnil]
      rfl

/-! ## A configuration whose lines fit -/

variable (net) in
def Fits (c : Config Addr) : Prop := ∀ l ∈ c.quickLines net, (fileLine l).length ≤ 65536

theorem fits_iff (c : Config Addr) : Fits net c ↔
    (∀ a : InterfaceAttribute, lineSize a.key (c.interfaze.entries net a) ≤ 65536) ∧
      ∀ p ∈ c.peers, ∀ a : PeerAttribute, lineSize a.key (p.entries net a) ≤ 65536 := by
  have hline : ∀ {key : Text}, (∀ c ∈ key, Java.word c = true) → key.length ≤ 20 →
      ∀ ts : List Text, lineSize key ts ≤ 65536 ↔ (ts ≠ [] →
        (fileLine (Config.Attribute.line key (Config.Attribute.join ts))).length ≤ 65536) := by
    intro key hword hkey ts
    by_cases hne : ts = []
    · rw [hne]
      have hsize : lineSize key [] = key.length + 2 := rfl
      simp only [ne_eq, not_true_eq_false, false_implies, iff_true]
      omega
    · rw [length_fileLine hword hne]
      exact ⟨fun h _ => h, fun h => h hne⟩
  have hinterface : ∀ a : InterfaceAttribute, a.key.length ≤ 20 := by
    intro a
    cases a with
    | number a => cases a <;> decide
    | text a => cases a <;> decide
    | _ => decide
  have hpeer : ∀ a : PeerAttribute, a.key.length ≤ 20 := by
    intro a
    cases a <;> decide
  simp only [fun a : InterfaceAttribute => hline a.key_word (hinterface a),
    fun a : PeerAttribute => hline a.key_word (hpeer a)]
  unfold Fits
  rw [← lines_ofConfig]
  unfold lines peerLines ofConfig
  simp only [List.forall_mem_append, List.forall_mem_cons, List.forall_mem_map,
    List.forall_mem_flatMap, Interface.mem_present, Peer.mem_present]
  constructor
  · rintro ⟨⟨-, hi⟩, hps⟩
    exact ⟨hi, fun p hp => (hps p hp).2.2⟩
  · rintro ⟨hi, hps⟩
    exact ⟨⟨by decide, hi⟩, fun p hp => ⟨by decide, by decide, hps p hp⟩⟩

section Parsed

variable (hnet : net.Documented) {c : Config Addr} (hd : (ofConfig net c).Good net)

include hnet hd

theorem parseOptions_eq : parseOptions (utf8 (c.toAwgQuickString net)) =
    (Options.readLines {} ((c.quickLines net).map fileLine)).1 := by
  unfold parseOptions parseOptionsLeaving
  rw [Config.toAwgQuickString_eq, utf8_file, ← lines_ofConfig,
    getlines_fileLine fun l => notMem_lines hnet hd]

theorem parseOptions_of_fits (hfits : Fits net c) :
    let o := parseOptions (utf8 (c.toAwgQuickString net))
    let i := c.interfaze
    o.config = some (((ofConfig net c).left.lines net).flatMap fileLine) ∧
    o.list .addrs = some (squeezeAll (i.entries net .address)) ∧
    o.list .dnses = some (squeezeAll (i.entries net .dns)) ∧
    commaNames (o.list .excludedApplications) = i.excludedApplications.toList.map squeeze ∧
    commaNames (o.list .includedApplications) = i.includedApplications.toList.map squeeze ∧
    o.mtu = ((i.number .mtu).getD 0).toNat := by
  have hlines : ∀ l ∈ (c.quickLines net).map fileLine, l.length ≤ 65536 :=
    List.forall_mem_map.2 hfits
  obtain ⟨hconfig, hlist, hmtu⟩ := foldl_lines hnet hd
  rw [lines_ofConfig] at hconfig hlist hmtu
  intro o i
  have ho : o = (((c.quickLines net).map fileLine).foldl Options.readLine {}).setDefaults := by
    show parseOptions _ = _
    rw [parseOptions_eq hnet hd, Options.readLines_of_le hlines]
  rw [ho]
  unfold Options.setDefaults
  refine ⟨?_, ?_, ?_, ?_, ?_, ?_⟩
  · simp only [hconfig, Option.getD_some]
  · show some ((_ : Option Bytes).getD []) = _
    rw [hlist .addrs]
    exact congrArg some (getD_list i .address)
  · show some ((_ : Option Bytes).getD []) = _
    rw [hlist .dnses]
    exact congrArg some (getD_list i .dns)
  · show commaNames (Options.list _ .excludedApplications) = _
    rw [hlist .excludedApplications]
    exact commaNames_list fun t ht => (hd.valid.excluded t ht).comma
  · show commaNames (Options.list _ .includedApplications) = _
    rw [hlist .includedApplications]
    exact commaNames_list fun t ht => (hd.valid.included t ht).comma
  · show Options.mtu _ = _
    rw [hmtu]
    exact mtu_number hd.valid

theorem extracts_iff (hfits : Fits net c) :
    Extracts net c (parseOptions (utf8 (c.toAwgQuickString net))) ↔
      (c.interfaze.dnsServers.toList = [] → c.interfaze.dnsSearchDomains.toList = []) ∧
      (∀ t ∈ c.interfaze.excludedApplications, ∀ d ∈ t, Java.space d = false) ∧
      ∀ t ∈ c.interfaze.includedApplications, ∀ d ∈ t, Java.space d = false := by
  obtain ⟨-, haddrs, hdnses, hexcluded, hincluded, hmtu⟩ := parseOptions_of_fits hnet hd hfits
  have hi : c.interfaze.Valid net := hd.valid
  have haddrs' : ((parseOptions (utf8 (c.toAwgQuickString net))).list .addrs).map commaEntries =
      some (c.interfaze.addresses.toList.map fun n => utf8 (n.toString net)) := by
    rw [haddrs, Option.map_some,
      commaEntries_squeezeAll fun t ht => Interface.solid_entries hnet hi rfl ht]
    show some ((c.interfaze.addresses.toList.map (InetNetwork.toString net)).map utf8) = _
    rw [List.map_map]
    rfl
  have hmtu' : ((parseOptions (utf8 (c.toAwgQuickString net))).mtu : Int) =
      (c.interfaze.number .mtu).getD 0 := by
    rw [hmtu]
    apply Int.toNat_of_nonneg
    cases hn : c.interfaze.number .mtu with
    | none => exact Int.le_refl 0
    | some n => exact Int.le_of_lt (hi.number _ n hn).1
  have hdnses' : ((parseOptions (utf8 (c.toAwgQuickString net))).list .dnses).map commaEntries =
        some ((c.interfaze.dnsServers.toList.map fun a => utf8 (net.getHostAddress a))
          ++ c.interfaze.dnsSearchDomains.toList.map utf8) ↔
      (c.interfaze.dnsServers.toList = [] → c.interfaze.dnsSearchDomains.toList = []) := by
    rw [hdnses, Option.map_some,
      commaEntries_squeezeAll fun t ht => Interface.solid_entries hnet hi rfl ht]
    show some ((c.interfaze.dnsValues net).map utf8) = _ ↔ _
    unfold Interface.dnsValues LinkedSet.isEmpty
    cases hservers : c.interfaze.dnsServers.toList with
    | nil => simp [eq_comm]
    | cons a as => simp
  have hnames : ∀ s : LinkedSet Text, s.toList.map squeeze = s.toList.map utf8 ↔
      ∀ t ∈ s, ∀ d ∈ t, Java.space d = false := fun s => map_squeeze_eq_iff
  rw [← hdnses', ← hnames, ← hnames, ← hexcluded, ← hincluded]
  constructor
  · intro h
    exact ⟨h.dnses, h.excluded, h.included⟩
  · rintro ⟨hdns, hexc, hinc⟩
    exact ⟨haddrs', hdns, hexc, hinc, hmtu'⟩

omit hnet in
theorem configures_iff : Configures net c ((ofConfig net c).left.device net) ↔
    ∀ a t, c.interfaze.text a = some t → configText a t = utf8 t := by
  let d := (ofConfig net c).left
  have hnodup : d.attributes.Nodup := hd.left.nodup
  have hmem : ∀ {a : InterfaceAttribute}, quickAction a = none →
      (a ∈ d.attributes ↔ c.interfaze.entries net a ≠ []) :=
    fun h => (mem_left h).trans Interface.mem_present
  have hkey : (d.device net).privateKey = some c.interfaze.privateKey :=
    device_privateKey d hnodup ((hmem rfl).2 (by simp [Interface.entries]))
  have hport : (d.device net).listenPort = (c.interfaze.number .listenPort).map Int.toNat := by
    rw [device_listenPort d hnodup]
    split
    · rfl
    · next h => rw [number_of_notMem (mt (hmem rfl).2 h)]; rfl
  have huint : ∀ p, (d.device net).uint p = (c.interfaze.number p.attribute).map Int.toNat := by
    intro p
    rw [device_uint d hnodup]
    split
    · rfl
    · next h => rw [number_of_notMem (mt (hmem (by cases p <;> rfl)).2 h)]; rfl
  have hstring : ∀ p, (d.device net).string p =
      (c.interfaze.text p.attribute).map fun t => some (configText p.attribute t) := by
    intro p
    rw [device_string d hnodup]
    split
    · rfl
    · next h => rw [text_of_notMem (mt (hmem (by cases p <;> rfl)).2 h)]; rfl
  have hpeers : List.Forall₂ (ConfiguresPeer net) c.peers (d.device net).peers := by
    show List.Forall₂ _ c.peers ((c.peers.map fun p => (p, p.present net)).map (wgPeer net))
    rw [List.map_map, List.forall₂_map_right_iff, List.forall₂_same]
    intro p hp
    have hmem := List.mem_map_of_mem (f := fun p : Peer Addr => (p, p.present net)) hp
    exact configuresPeer_wgPeer (hd.peerValid _ hmem) (hd.peerNumeric _ hmem)
  constructor
  · intro h a t ht
    obtain ⟨p, rfl⟩ := StringParameter.attribute_surjective a
    have hp := (hstring p).symm.trans (h.string p)
    rw [ht] at hp
    simpa using hp
  · intro h
    refine ⟨hkey, hport, huint, fun p => ?_, hpeers⟩
    rw [hstring p]
    cases ht : c.interfaze.text p.attribute with
    | none => rfl
    | some t => rw [Option.map_some, Option.map_some, h _ t ht]

variable (hsys : sys.ReadsNumeric net)

include hsys

theorem readConfig_left {dev : WgDevice Addr} :
    readConfig sys (((ofConfig net c).left.lines net).flatMap fileLine) = .ok dev ↔
      ((∀ (p : UintParameter) n, c.interfaze.number p.attribute = some n → n ≤ 65535) ∧
        ∀ a t, c.interfaze.text a = some t → (configText a t).length < maxAwgStringLen) ∧
      dev = (ofConfig net c).left.device net := by
  have hpeers : ∀ p ∈ (ofConfig net c).left.peers, .publicKey ∈ p.2 := by
    show ∀ q ∈ c.peers.map fun p => (p, p.present net), _
    rw [List.forall_mem_map]
    exact fun p _ => Peer.mem_present.2 (by simp [Peer.entries])
  have hpresent : ∀ {a : InterfaceAttribute} {k : DeviceKey}, deviceKey a = some k →
      c.interfaze.entries net a ≠ [] → a ∈ (ofConfig net c).left.attributes :=
    fun hk ha => (mem_left (deviceKey_isSome.1 (by rw [hk]; rfl))).2
      (Interface.mem_present.2 ha)
  rw [readConfig_lines hnet hsys hd.left quickAction_left, ← and_assoc,
    and_iff_left hpeers]
  apply and_congr_left'
  constructor
  · intro h
    refine ⟨fun p n hn => ?_, fun a t ht => ?_⟩
    · have hk : deviceKey (.number p.attribute) = some (.uint p) := by
        cases p <;> rfl
      exact h _ (hpresent hk (by rw [Interface.entries_number, hn]; simp)) _ hk n hn
    · obtain ⟨p, rfl⟩ := StringParameter.attribute_surjective a
      have hk : deviceKey (.text p.attribute) = some (.string p) := by
        cases p <;> rfl
      exact h _ (hpresent hk (by rw [Interface.entries_text, ht]; simp)) _ hk t ht
  · rintro ⟨hnumber, htext⟩ a - k -
    cases k with
    | uint p => exact hnumber p
    | string p => exact htext p.attribute
    | _ => trivial

theorem reachesKernel_of_fits (hfits : Fits net c) : ReachesKernel sys net c ↔
    ((c.interfaze.dnsServers.toList = [] → c.interfaze.dnsSearchDomains.toList = []) ∧
      (∀ t ∈ c.interfaze.excludedApplications, ∀ d ∈ t, Java.space d = false) ∧
      ∀ t ∈ c.interfaze.includedApplications, ∀ d ∈ t, Java.space d = false) ∧
    ((∀ (p : UintParameter) n, c.interfaze.number p.attribute = some n → n ≤ 65535) ∧
      ∀ a t, c.interfaze.text a = some t → (configText a t).length < maxAwgStringLen) ∧
    ∀ a t, c.interfaze.text a = some t → configText a t = utf8 t := by
  have hconfig := (parseOptions_of_fits hnet hd hfits).1
  unfold ReachesKernel
  apply and_congr (extracts_iff hnet hd hfits)
  rw [← configures_iff hd]
  constructor
  · rintro ⟨config, dev, heq, hread, hdev⟩
    rw [hconfig] at heq
    cases heq
    obtain ⟨haccepts, rfl⟩ := (readConfig_left hnet hd hsys).1 hread
    exact ⟨haccepts, hdev⟩
  · rintro ⟨haccepts, hdev⟩
    exact ⟨_, _, hconfig, (readConfig_left hnet hd hsys).2 ⟨haccepts, rfl⟩, hdev⟩

/-! ## A line that does not fit -/

omit hsys in
theorem parseOptions_of_long {pre post : List Text} {l : Text}
    (h : c.quickLines net = pre ++ l :: post) (hpre : ∀ m ∈ pre, (fileLine m).length ≤ 65536)
    (hlong : 65536 < (fileLine l).length) {d : Printed Addr} (hlines : pre = d.lines net) :
    parseOptions (utf8 (c.toAwgQuickString net)) =
      ((d.lines net).map fileLine).foldl Options.readLine {} := by
  rw [parseOptions_eq hnet hd, h, List.map_append, List.map_cons,
    Options.readLines_of_gt (List.forall_mem_map.2 hpre) hlong, hlines]

theorem not_reachesKernel_of_take {as as' : List InterfaceAttribute}
    (has : c.interfaze.present net = as ++ a :: as')
    (ho : parseOptions (utf8 (c.toAwgQuickString net)) =
      (((mk c.interfaze as []).lines net).map fileLine).foldl Options.readLine {})
    (hlong : 65536 < (fileLine (c.interfaze.attributeLine net a)).length) :
    ¬ ReachesKernel sys net c := by
  have hnodup : (as ++ a :: as').Nodup := has ▸ Interface.nodup_present c.interfaze
  have hpresent : c.interfaze.entries net a ≠ [] :=
    Interface.mem_present.1 (by rw [has]; simp)
  have hnot : a ∉ as := fun hmem => (List.disjoint_of_nodup_append hnodup) hmem (by simp)
  have hgood : (mk c.interfaze as []).Good net := Good.take hd has
  obtain ⟨hconfig, hlist, -⟩ := foldl_lines hnet hgood
  rw [← ho] at hconfig hlist
  have hnone : ∀ l : ListOption, l.attribute = a →
      (parseOptions (utf8 (c.toAwgQuickString net))).list l = none := by
    intro l hl
    rw [hlist l]
    exact if_neg (hl ▸ hnot)
  have hnames : ∀ s : LinkedSet Text, commaNames none = s.toList.map utf8 → s.toList = [] :=
    fun s h => List.map_eq_nil_iff.1 h.symm
  have hshort : ¬ lineSize a.key (c.interfaze.entries net a) ≤ 65536 := by
    have hlength := length_fileLine a.key_word hpresent
    have heq : (fileLine (c.interfaze.attributeLine net a)).length =
      lineSize a.key (c.interfaze.entries net a) := hlength
    omega
  rintro ⟨hextracts, config, dev, hsome, hread, hdev⟩
  cases a with
  | address =>
    have haddrs := hextracts.addrs
    rw [hnone .addrs rfl] at haddrs
    cases haddrs
  | dns =>
    have hdnses := hextracts.dnses
    rw [hnone .dnses rfl] at hdnses
    cases hdnses
  | excludedApplications =>
    have hexcluded := hextracts.excluded
    rw [hnone .excludedApplications rfl] at hexcluded
    exact hpresent (hnames _ hexcluded)
  | includedApplications =>
    have hincluded := hextracts.included
    rw [hnone .includedApplications rfl] at hincluded
    exact hpresent (hnames _ hincluded)
  | number a => exact hshort (lineSize_number hd.valid a)
  | privateKey => exact hshort (lineSize_privateKey c.interfaze)
  | text a =>
    obtain ⟨t, ht⟩ := text_of_entries hpresent
    obtain ⟨p, rfl⟩ := StringParameter.attribute_surjective a
    rw [hconfig] at hsome
    cases hsome
    obtain ⟨-, -, rfl⟩ :=
      (readConfig_lines hnet hsys hgood.left quickAction_left).1 hread
    have hstring := hdev.string p
    rw [device_string _ hgood.left.nodup, ht,
      if_neg fun h => hnot ((mem_left (by cases p <;> rfl)).1 h)] at hstring
    cases hstring

theorem not_reachesKernel_of_takePeers {ps ps' : List (Peer Addr × List PeerAttribute)}
    {p : Peer Addr × List PeerAttribute} (hps : (ofConfig net c).peers = ps ++ p :: ps')
    {bs bs' : List PeerAttribute} {b : PeerAttribute} (hbs : p.2 = bs ++ b :: bs')
    (ho : parseOptions (utf8 (c.toAwgQuickString net)) =
      (((mk c.interfaze (c.interfaze.present net) (ps ++ [(p.1, bs)])).lines net).map
        fileLine).foldl Options.readLine {}) :
    ¬ ReachesKernel sys net c := by
  have hgood : (mk c.interfaze (c.interfaze.present net) (ps ++ [(p.1, bs)])).Good net :=
    Good.takePeers hd hps hbs
  have hconfig := (foldl_lines hnet hgood).1
  rw [← ho] at hconfig
  rintro ⟨-, config, dev, hsome, hread, -⟩
  rw [hconfig] at hsome
  cases hsome
  obtain ⟨-, hkeys, -⟩ :=
    (readConfig_lines hnet hsys hgood.left quickAction_left).1 hread
  have hkey : .publicKey ∈ bs := hkeys (p.1, bs) (List.mem_append_right _ (by simp))
  -- the public key is the last line, so it is not before any other
  have hp : p ∈ (ofConfig net c).peers := by
    rw [hps]
    simp
  obtain ⟨q, -, rfl⟩ := List.mem_map.1 hp
  have hnodup : (bs ++ b :: bs').Nodup := hbs ▸ hd.peerNodup _ hp
  obtain ⟨as, has⟩ := @Peer.present_eq Addr net q
  have hlast : (bs ++ b :: bs').getLast? = some .publicKey := by
    rw [← hbs, show (q, q.present net).2 = _ from has, List.getLast?_concat]
  rw [List.getLast?_append_of_ne_nil _ (by simp)] at hlast
  exact List.disjoint_of_nodup_append hnodup hkey (List.mem_of_getLast? hlast)

theorem fits_of_reachesKernel (h : ReachesKernel sys net c) : Fits net c := by
  by_contra hnot
  obtain ⟨pre, l, post, hsplit, hpre, hl⟩ := Loops.exists_first hnot
  have hlong : 65536 < (fileLine l).length := by omega
  have hlines : (ofConfig net c).lines net = pre ++ l :: post := by
    rw [lines_ofConfig, hsplit]
  rcases lines_before hlines hlong with
    ⟨as, a, as', has, rfl, hbefore⟩ | ⟨ps, p, ps', bs, b, bs', hps, hbs, hbefore⟩
  · have ho := parseOptions_of_long hnet hd hsplit hpre hlong hbefore
    exact not_reachesKernel_of_take hnet hd hsys has ho hlong h
  · have ho := parseOptions_of_long hnet hd hsplit hpre hlong hbefore
    exact not_reachesKernel_of_takePeers hnet hd hsys hps hbs ho h

theorem readable_iff : ReachesKernel sys net c ↔ Readable net c := by
  have hutf8 : ∀ a t, configText a t = utf8 t ↔
      (keepsBlanks a = false → ∀ d ∈ t, Java.space d = false) := by
    intro a t
    rw [← squeeze_eq_utf8_iff]
    unfold configText
    cases keepsBlanks a <;> simp
  constructor
  · intro h
    have hfits := fits_of_reachesKernel hnet hd hsys h
    obtain ⟨⟨hdomains, hexcluded, hincluded⟩, ⟨hjunk, hshort⟩, htext⟩ :=
      (reachesKernel_of_fits hnet hd hsys hfits).1 h
    obtain ⟨hlines, hpeers⟩ := (fits_iff c).1 hfits
    exact ⟨hjunk, fun a t ht => htext a t ht ▸ hshort a t ht,
      fun a t ht => (hutf8 a t).1 (htext a t ht), hexcluded, hincluded, hdomains,
      fun l => hlines l.attribute, hpeers⟩
  · intro h
    have htext : ∀ a t, c.interfaze.text a = some t → configText a t = utf8 t :=
      fun a t ht => (hutf8 a t).2 (h.headers a t ht)
    have hfits : Fits net c := (fits_iff c).2 ⟨lineSize_le hd.valid h.lists h.short, h.peers⟩
    exact (reachesKernel_of_fits hnet hd hsys hfits).2 ⟨⟨h.domains, h.excluded, h.included⟩,
      ⟨h.junk, fun a t ht => (htext a t ht).symm ▸ h.short a t ht⟩, htext⟩

end Parsed

/-! ## The limits can be checked -/

def ListOption.all : List ListOption :=
  [.addrs, .dnses, .excludedApplications, .includedApplications]

theorem ListOption.mem_all (l : ListOption) : l ∈ all := by
  cases l <;> decide

theorem mem_textAttributes (a : TextAttribute) : a ∈ TextAttribute.all := by
  cases a <;> decide

theorem all_not_space {t : Text} :
    t.all (!Java.space ·) = true ↔ ∀ d ∈ t, Java.space d = false := by
  simp only [List.all_eq_true, Bool.not_eq_true']

instance (c : Config Addr) : Decidable (Readable net c) :=
  decidable_of_iff
    ((∀ p ∈ UintParameter.all, ∀ n ∈ (c.interfaze.number p.attribute).toList, n ≤ 65535) ∧
      (∀ a ∈ TextAttribute.all, ∀ t ∈ (c.interfaze.text a).toList,
        (utf8 t).length < maxAwgStringLen ∧
          (keepsBlanks a = false → t.all (!Java.space ·) = true)) ∧
      (∀ t ∈ c.interfaze.excludedApplications.toList, t.all (!Java.space ·) = true) ∧
      (∀ t ∈ c.interfaze.includedApplications.toList, t.all (!Java.space ·) = true) ∧
      (c.interfaze.dnsServers.toList = [] → c.interfaze.dnsSearchDomains.toList = []) ∧
      (∀ l ∈ ListOption.all,
        lineSize l.attribute.key (c.interfaze.entries net l.attribute) ≤ 65536) ∧
      ∀ p ∈ c.peers, ∀ a ∈ PeerAttribute.order, lineSize a.key (p.entries net a) ≤ 65536) <| by
    simp only [all_not_space]
    constructor
    · rintro ⟨hjunk, htexts, hexcluded, hincluded, hdomains, hlists, hpeers⟩
      exact ⟨fun p n hn => hjunk p p.mem_all n (Option.mem_toList.2 hn),
        fun a t ht => (htexts a (mem_textAttributes a) t (Option.mem_toList.2 ht)).1,
        fun a t ht => (htexts a (mem_textAttributes a) t (Option.mem_toList.2 ht)).2,
        hexcluded, hincluded, hdomains, fun l => hlists l l.mem_all,
        fun p hp a => hpeers p hp a (PeerAttribute.mem_order a)⟩
    · intro h
      exact ⟨fun p _ n hn => h.junk p n (Option.mem_toList.1 hn),
        fun a _ t ht => ⟨h.short a t (Option.mem_toList.1 ht), h.headers a t (Option.mem_toList.1 ht)⟩,
        h.excluded, h.included, h.domains, fun l _ => h.lists l, fun p hp a _ => h.peers p hp a⟩

/-! ## The main result -/

/-- What the app writes reaches the kernel, exactly when it is within the limits of the command line
tools. -/
theorem reachesKernel_iff [DecidableEq Addr] (hnet : net.Documented) (hsys : sys.ReadsNumeric net)
    {text : Text} {c : Config Addr} (hparse : Config.parse net text = .ok c)
    (hnul : '\x00' ∉ text)
    (hnum : ∀ p ∈ c.peers, ∀ e, p.endpoint = some e → e.isResolved = true) :
    ReachesKernel sys net c ↔ Readable net c :=
  readable_iff hnet (good_ofConfig hnet hparse hnul hnum) hsys

end Whole

/-! ## Two texts -/

def kernelNet : Net (Fin 3) where
  parseNumericAddress text :=
    if text = "10.0.0.2".toList then some 0
    else if text = "1.1.1.1".toList then some 1
    else if text = "2001:db8:0:0:0:0:0:1".toList then some 2
    else if text = "[2001:db8:0:0:0:0:0:1]".toList then some 2
    else none
  getHostAddress a :=
    if a = 0 then "10.0.0.2".toList
    else if a = 1 then "1.1.1.1".toList
    else "2001:db8:0:0:0:0:0:1".toList
  isInet4 a := a ≠ 2
  uri text :=
    if text = "awg://[2001:db8:0:0:0:0:0:1]:51820".toList then
      some (some ("[2001:db8:0:0:0:0:0:1]".toList, 51820))
    else none

def kernelResolver : Resolver (Fin 3) where
  inetPton4 text :=
    if text = "10.0.0.2".toList then some 0
    else if text = "1.1.1.1".toList then some 1
    else none
  inetPton6 text := if text = "2001:db8:0:0:0:0:0:1".toList then some 2 else none
  service text := some (Libc.strtoul text).1
  getaddrinfo node service :=
    if node = "10.0.0.2".toList then some (0, (Libc.strtoul service).1)
    else if node = "1.1.1.1".toList then some (1, (Libc.strtoul service).1)
    else if node = "2001:db8:0:0:0:0:0:1".toList then some (2, (Libc.strtoul service).1)
    else none

theorem kernelNet_uri {text host : Text} {port : Int}
    (h : kernelNet.uri text = some (some (host, port))) :
    host = "[2001:db8:0:0:0:0:0:1]".toList ∧ port = 51820 := by
  simp only [kernelNet] at h
  split at h
  · cases h
    exact ⟨rfl, rfl⟩
  · cases h

theorem kernelNet_documented : kernelNet.Documented where
  parse_getHostAddress := by decide
  getHostAddress_ne_nil := by decide
  getHostAddress_chars a := by
    apply List.all_eq_true.1
    revert a
    decide
  uri_chars h := by
    obtain ⟨rfl, -⟩ := kernelNet_uri h
    apply List.all_eq_true.1
    decide
  uri_brackets h := by
    obtain ⟨rfl, -⟩ := kernelNet_uri h
    decide
  uri_split h _ := by
    obtain ⟨rfl, rfl⟩ := kernelNet_uri h
    decide

theorem kernelNet_numeric {host : Text} {a : Fin 3}
    (h : kernelNet.parseNumericAddress host = some a) :
    host = "10.0.0.2".toList ∧ a = 0 ∨ host = "1.1.1.1".toList ∧ a = 1 ∨
      host = "2001:db8:0:0:0:0:0:1".toList ∧ a = 2 ∨
      host = "[2001:db8:0:0:0:0:0:1]".toList ∧ a = 2 := by
  simp only [kernelNet] at h
  split_ifs at h with h₀ h₁ h₂ h₃ <;> cases h
  · exact .inl ⟨h₀, rfl⟩
  · exact .inr (.inl ⟨h₁, rfl⟩)
  · exact .inr (.inr (.inl ⟨h₂, rfl⟩))
  · exact .inr (.inr (.inr ⟨h₃, rfl⟩))

theorem kernelResolver_readsNumeric : kernelResolver.ReadsNumeric kernelNet := by
  have hport : ∀ port : Nat, port ≤ 65535 → (Libc.strtoul (Java.valueOf port)).1 = port := by
    intro port hport
    rw [Libc.strtoul_valueOf (by omega)]
  refine ⟨by decide, by decide, fun port hle => congrArg some (hport port hle), ?_, ?_, ?_⟩
  · intro host a port h hbracket hle
    rcases kernelNet_numeric h with ⟨rfl, rfl⟩ | ⟨rfl, rfl⟩ | ⟨rfl, rfl⟩ | ⟨rfl, rfl⟩
    · exact congrArg (fun n => some (0, n)) (hport port hle)
    · exact congrArg (fun n => some (1, n)) (hport port hle)
    · exact congrArg (fun n => some (2, n)) (hport port hle)
    · exact absurd (by decide) hbracket
  · intro host a port h hle
    rcases kernelNet_numeric h with ⟨hhost, -⟩ | ⟨hhost, -⟩ | ⟨hhost, -⟩ | ⟨hhost, rfl⟩
    · cases hhost
    · cases hhost
    · cases hhost
    · have hnode : host = "2001:db8:0:0:0:0:0:1".toList :=
        List.append_cancel_right (List.cons.inj hhost).2
      rw [hnode]
      exact congrArg (fun n => some (2, n)) (hport port hle)
  · intro text host port h
    obtain ⟨rfl, -⟩ := kernelNet_uri h
    exact .inr ⟨"2001:db8:0:0:0:0:0:1".toList, rfl, by decide⟩

def kernelText : Text :=
  ["[Interface]", "PrivateKey = AAAAAAAAAAAAAAAAAAAAAAAAAAAAAAAAAAAAAAAAAAA=",
   "Address = 10.0.0.2/32", "DNS = 1.1.1.1, example.com", "IncludedApplications = org.a, org.b",
   "MTU = 1280", "ListenPort = 51820", "Jc = 4", "H1 = 5-9", "I1 = <b 0x01> <t>", "[Peer]",
   "AllowedIPs = 10.0.0.2, 2001:db8:0:0:0:0:0:1/128",
   "Endpoint = [2001:db8:0:0:0:0:0:1]:51820", "PersistentKeepalive = 25",
   "PublicKey = AAAAAAAAAAAAAAAAAAAAAAAAAAAAAAAAAAAAAAAAAAA="].flatMap fun line =>
    line.toList ++ ['\n']

theorem parse_kernelText : ∃ c, Config.parse kernelNet kernelText = .ok c ∧ c.peers.length = 1 ∧
    Readable kernelNet c ∧ ∀ p ∈ c.peers, ∀ e, p.endpoint = some e → e.isResolved = true := by
  have hrun : ((Config.parse kernelNet kernelText).toOption.map fun c =>
      (decide (Readable kernelNet c), c.peers.map fun p => p.endpoint.map (·.isResolved))) =
      some (true, [some true]) := by decide +kernel
  obtain ⟨c, hc, hrun⟩ := Option.map_eq_some_iff.1 hrun
  rw [Prod.mk.injEq, decide_eq_true_iff] at hrun
  have hlength := congrArg List.length hrun.2
  rw [List.length_map] at hlength
  refine ⟨c, Loops.eq_ok_of_toOption hc, hlength, hrun.1, fun p hp e he => ?_⟩
  have hmem := List.mem_map_of_mem (f := fun p => p.endpoint.map (·.isResolved)) hp
  rw [hrun.2, he] at hmem
  simpa using hmem

theorem reachesKernel_kernelText : ∃ c, Config.parse kernelNet kernelText = .ok c ∧
    c.peers.length = 1 ∧ ReachesKernel kernelResolver kernelNet c := by
  obtain ⟨c, hparse, hlength, hreadable, hnum⟩ := parse_kernelText
  exact ⟨c, hparse, hlength, (reachesKernel_iff kernelNet_documented kernelResolver_readsNumeric
    hparse (by decide +kernel) hnum).2 hreadable⟩

def junkText : Text :=
  ["[Interface]", "PrivateKey = AAAAAAAAAAAAAAAAAAAAAAAAAAAAAAAAAAAAAAAAAAA=",
   "Jc = 70000"].flatMap fun line => line.toList ++ ['\n']

/-- `config.c` ends the process, so there is no device. -/
theorem junkText_exits : ∃ c config, Config.parse kernelNet junkText = .ok c ∧
    c.interfaze.number .junkPacketCount = some 70000 ∧ c.peers = [] ∧
    (parseOptions (utf8 (c.toAwgQuickString kernelNet))).config = some config ∧
    readConfig kernelResolver config = .error .exits ∧
    ¬ ReachesKernel kernelResolver kernelNet c := by
  have hrun : ((Config.parse kernelNet junkText).toOption.bind fun c =>
      (parseOptions (utf8 (c.toAwgQuickString kernelNet))).config.map fun config =>
        (c.interfaze.number .junkPacketCount, c.peers.isEmpty,
          match readConfig kernelResolver config with
          | .ok _ => none
          | .error e => some e)) = some (some 70000, true, some .exits) := by decide +kernel
  obtain ⟨c, hc, hrun⟩ := Option.bind_eq_some_iff.1 hrun
  obtain ⟨config, hconfig, hrun⟩ := Option.map_eq_some_iff.1 hrun
  simp only [Prod.mk.injEq] at hrun
  have hread : readConfig kernelResolver config = .error .exits := by
    cases h : readConfig kernelResolver config with
    | ok d =>
      rw [h] at hrun
      cases hrun.2.2
    | error e =>
      rw [h] at hrun
      cases hrun.2.2
      rfl
  refine ⟨c, config, Loops.eq_ok_of_toOption hc, hrun.1, List.isEmpty_iff.1 hrun.2.1, hconfig,
    hread, ?_⟩
  rintro ⟨-, config', d, hconfig', hd, -⟩
  rw [hconfig] at hconfig'
  cases hconfig'
  rw [hread] at hd
  cases hd

end Amnezia.Tools
