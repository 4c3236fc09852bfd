import Amnezia.Config.Stored
import Amnezia.Viewmodel.Proxy

/-!
# Saving without edits

A parsed configuration that is opened in the editor and resolved again, also after the editor was
written to a parcel and read back.  The listeners of the peers are called while the editor is
built, but they do not touch the fields then.
-/

namespace Amnezia.Viewmodel

open Config Loops
open Java (Text)

section Typed

variable {A P V : Type}

theorem typed_append (fs gs : List (A × Text)) : typed (fs ++ gs) = typed fs ++ typed gs :=
  List.filter_append fs gs

theorem typed_of_ne_nil {a : A} {t : Text} (h : t ≠ []) : typed [(a, t)] = [(a, t)] :=
  List.filter_cons_of_pos (by simpa using h)

theorem typed_option {a : A} {value : Option V} {print : V → Text}
    (h : ∀ v ∈ value, print v ≠ []) :
    typed [(a, (value.map print).getD [])] = value.toList.map fun v => (a, print v) := by
  cases value with
  | none => rfl
  | some v => exact typed_of_ne_nil (h v rfl)

theorem typed_family {all : List P} {key : P → A} {value : P → Option V} {print : V → Text}
    (h : ∀ p, ∀ v ∈ value p, print v ≠ []) :
    typed (all.map fun p => (key p, ((value p).map print).getD [])) =
      all.flatMap fun p => (value p).toList.map fun v => (key p, print v) := by
  induction all with
  | nil => rfl
  | cons p ps ih =>
    rw [List.map_cons, ← List.singleton_append, typed_append, ih, typed_option (h p),
      List.flatMap_cons]

theorem join_ne_nil {ts : List Text} (hne : ts ≠ []) (h : ∀ t ∈ ts, Attribute.Solid t) :
    Attribute.join ts ≠ [] := by
  intro hnil
  have hsplit := Attribute.split_join hne h
  rw [hnil] at hsplit
  have hmem : [] ∈ ts := by
    rw [← hsplit]
    exact List.mem_singleton_self []
  exact (h [] hmem).nonempty rfl

end Typed

section Model

variable {Addr : Type} [DecidableEq Addr] {net : Net Addr}

namespace InterfaceProxy

variable {b : InterfaceBuilder Addr} {i : Interface Addr}

theorem resolve_address (hnet : net.Documented) (hi : i.Valid net) (hb : b.addresses = .empty) :
    (typed [(.address, (ofInterface net i).addresses)]).foldlM (parseField net) b =
      .ok { b with addresses := i.addresses } := by
  have hsolid : ∀ t ∈ i.addresses.toList.map (InetNetwork.toString net), Attribute.Solid t := by
    intro t ht
    obtain ⟨n, hn, rfl⟩ := List.mem_map.1 ht
    exact InetNetwork.solid_toString hnet (hi.addresses n hn).1
  by_cases hne : i.addresses.toList.map (InetNetwork.toString net) = []
  · have hnone : i.addresses = .empty := LinkedSet.ext_toList (List.map_eq_nil_iff.1 hne)
    show (typed [(_, Attribute.join (i.addresses.toList.map _))]).foldlM _ b = _
    rw [hne, hnone, ← hb]
    rfl
  · show (typed [(_, Attribute.join (i.addresses.toList.map _))]).foldlM _ b = _
    rw [typed_of_ne_nil (join_ne_nil hne hsolid), foldlM_singleton]
    exact InterfaceBuilder.parseAddresses_split hnet hi.addresses
      (Attribute.split_join hne hsolid) hb

theorem resolve_dns (hnet : net.Documented) (hi : i.Valid net) (hservers : b.dnsServers = .empty)
    (hnames : b.dnsSearchDomains = .empty) :
    (typed [(.dns, (ofInterface net i).dnsServers)]).foldlM (parseField net) b =
      .ok { b with dnsServers := i.dnsServers, dnsSearchDomains := i.dnsSearchDomains } := by
  have hsolid : ∀ t ∈ i.dnsServers.toList.map net.getHostAddress ++ i.dnsSearchDomains.toList,
      Attribute.Solid t := by
    intro t ht
    rcases List.mem_append.1 ht with ht | ht
    · obtain ⟨a, -, rfl⟩ := List.mem_map.1 ht
      exact Config.solid_getHostAddress hnet a
    · exact Config.solid_of_isHostname (hi.domains t ht).isHostname
  by_cases hne : i.dnsServers.toList.map net.getHostAddress ++ i.dnsSearchDomains.toList = []
  · have hparts := List.append_eq_nil_iff.1 hne
    have hnone : i.dnsServers = .empty := LinkedSet.ext_toList (List.map_eq_nil_iff.1 hparts.1)
    have hnone' : i.dnsSearchDomains = .empty := LinkedSet.ext_toList hparts.2
    show (typed [(_, Attribute.join (i.dnsServers.toList.map _ ++ _))]).foldlM _ b = _
    have hstart : b = { b with dnsServers := .empty, dnsSearchDomains := .empty } := by
      rw [← hservers, ← hnames]
    rw [hne, hnone, hnone', ← hstart]
    rfl
  · show (typed [(_, Attribute.join (i.dnsServers.toList.map _ ++ _))]).foldlM _ b = _
    rw [typed_of_ne_nil (join_ne_nil hne hsolid), foldlM_singleton]
    exact InterfaceBuilder.parseDnsServers_split hnet hi.domains
      (Attribute.split_join hne hsolid) hservers hnames

theorem resolve_numbers (hi : i.Valid net) (hb : b.number = fun _ => none) :
    (typed (NumberAttribute.all.map fun a =>
        (InterfaceAttribute.number a, (ofInterface net i).number a))).foldlM (parseField net) b =
      .ok { b with number := i.number } := by
  have hstart : b = { b with number := fun _ => none } := by rw [← hb]
  have hprint : ∀ a, ∀ n ∈ i.number a, Java.valueOf n ≠ [] := fun a n hn =>
    (Config.solid_valueOf_of_pos (hi.number a n hn).1).nonempty
  have hfields : typed (NumberAttribute.all.map fun a =>
        (InterfaceAttribute.number a, (ofInterface net i).number a)) =
      NumberAttribute.all.flatMap fun a => (i.number a).toList.map fun n =>
        (InterfaceAttribute.number a, Java.valueOf n) := typed_family hprint
  rw [hfields, hstart]
  refine (chains_foldlM (parseField net)).family NumberAttribute.mem_all
    (fun u => { b with number := u }) ?_
  intro u a n hn
  rw [foldlM_singleton]
  show InterfaceBuilder.parseAttribute net _ (.number a) (Java.valueOf n) = _
  rw [InterfaceBuilder.parseAttribute_number, InterfaceBuilder.parseNumber_valueOf (hi.number a n hn)]

theorem resolve_texts (hi : i.Valid net) (hb : b.text = fun _ => none) :
    (typed (TextAttribute.all.map fun a =>
        (InterfaceAttribute.text a, (ofInterface net i).text a))).foldlM (parseField net) b =
      .ok { b with text := i.text } := by
  have hstart : b = { b with text := fun _ => none } := by rw [← hb]
  have hself : ∀ a, (ofInterface net i).text a = ((i.text a).map id).getD [] := by
    intro a
    rw [Option.map_id]
    rfl
  have hprint : ∀ a, ∀ t ∈ i.text a, id t ≠ [] := fun a t ht => (hi.text a t ht).nonempty
  have hfields : typed (TextAttribute.all.map fun a =>
        (InterfaceAttribute.text a, (ofInterface net i).text a)) =
      TextAttribute.all.flatMap fun a => (i.text a).toList.map fun t =>
        (InterfaceAttribute.text a, t) := by
    simp only [hself]
    exact typed_family hprint
  rw [hfields, hstart]
  refine (chains_foldlM (parseField net)).family TextAttribute.mem_all
    (fun u => { b with text := u }) ?_
  intro u a t ht
  rw [foldlM_singleton]
  show InterfaceBuilder.parseAttribute net _ (.text a) t = _
  rw [InterfaceBuilder.parseAttribute_text, InterfaceBuilder.parseText_kept (hi.text a t ht)]

theorem resolve_ofInterface (hnet : net.Documented) (hi : i.Valid net) :
    (ofInterface net i).resolve net = .ok i := by
  -- the builder after the fields before the applications, after these, and at the end
  let b₁ : InterfaceBuilder Addr :=
    ⟨i.addresses, i.dnsServers, i.dnsSearchDomains, .empty, .empty, none, fun _ => none, fun _ => none⟩
  let b₂ : InterfaceBuilder Addr := { b₁ with
    excludedApplications := i.excludedApplications, includedApplications := i.includedApplications }
  let b₃ : InterfaceBuilder Addr :=
    { b₂ with keyPair := some i.privateKey, number := i.number, text := i.text }
  have hfirst : (typed (ofInterface net i).firstFields).foldlM (parseField net) .new = .ok b₁ := by
    have hfields : typed (ofInterface net i).firstFields =
        typed [(.address, (ofInterface net i).addresses)]
          ++ typed [(.dns, (ofInterface net i).dnsServers)] := by
      rw [← typed_append]
      rfl
    rw [hfields, foldlM_append_eq_ok]
    exact ⟨_, resolve_address hnet hi rfl, resolve_dns hnet hi rfl rfl⟩
  have happs : (b₁.excludeApplications (ofInterface net i).excludedApplications).includeApplications
      (ofInterface net i).includedApplications = b₂ := by
    have hexc := LinkedSet.insertAll_toList i.excludedApplications
    have hinc := LinkedSet.insertAll_toList i.includedApplications
    show { b₁ with
      excludedApplications := LinkedSet.empty.insertAll i.excludedApplications.toList
      includedApplications := LinkedSet.empty.insertAll i.includedApplications.toList } = b₂
    rw [hexc, hinc]
  have hlast : (typed (ofInterface net i).lastFields).foldlM (parseField net) b₂ = .ok b₃ := by
    have hkey : typed [(InterfaceAttribute.privateKey, (ofInterface net i).privateKey)] =
        [(InterfaceAttribute.privateKey, i.privateKey.toBase64)] :=
      typed_of_ne_nil (Config.solid_toBase64 i.privateKey).nonempty
    unfold lastFields
    rw [typed_append, typed_append, hkey, foldlM_append_eq_ok]
    refine ⟨_, foldlM_append_eq_ok.2 ⟨_, resolve_numbers hi rfl, resolve_texts hi rfl⟩, ?_⟩
    rw [foldlM_singleton]
    exact InterfaceBuilder.parsePrivateKey_toBase64 i.privateKey _
  have hboth : ¬(b₃.includedApplications.isEmpty = false ∧
      b₃.excludedApplications.isEmpty = false) := by
    rintro ⟨hinc, hexc⟩
    rcases hi.exclusive with h | h
    · rw [show b₃.includedApplications = .empty from h] at hinc
      cases hinc
    · rw [show b₃.excludedApplications = .empty from h] at hexc
      cases hexc
  rw [resolve_eq, hfirst, ok_bind, happs, hlast]
  exact if_neg hboth

end InterfaceProxy

namespace PeerProxy

theorem resolve_allowedIps (hnet : net.Documented) {p : Peer Addr} (hp : p.Valid net) :
    (typed [(.allowedIps, (ofPeer net p).allowedIps)]).foldlM (parseField net) .new =
      .ok ⟨p.allowedIps, none, none, none, none⟩ := by
  have hsolid : ∀ t ∈ p.allowedIps.toList.map (InetNetwork.toString net),
      Attribute.Solid t := by
    intro t ht
    obtain ⟨n, hn, rfl⟩ := List.mem_map.1 ht
    exact InetNetwork.solid_toString hnet (hp.allowedIps n hn).1
  by_cases hne : p.allowedIps.toList.map (InetNetwork.toString net) = []
  · have hnone : p.allowedIps = .empty := LinkedSet.ext_toList (List.map_eq_nil_iff.1 hne)
    show (typed [(_, Attribute.join (p.allowedIps.toList.map _))]).foldlM _ _ = _
    rw [hne, hnone]
    rfl
  · show (typed [(_, Attribute.join (p.allowedIps.toList.map _))]).foldlM _ _ = _
    rw [typed_of_ne_nil (join_ne_nil hne hsolid), foldlM_singleton]
    exact PeerBuilder.parseAllowedIPs_split hnet hp.allowedIps
      (Attribute.split_join hne hsolid) rfl

theorem resolve_ofPeer (hnet : net.Documented) {p : Peer Addr} (hp : p.Valid net) :
    (ofPeer net p).resolve net = .ok p := by
  have hchain := chains_foldlM (parseField net)
  let b : PeerBuilder Addr := ⟨p.allowedIps, none, none, none, none⟩
  have hendpoint : ∀ e ∈ p.endpoint, InetEndpoint.toString e ≠ [] := fun e he =>
    (InetEndpoint.solid_toString hnet (hp.endpoint e he)).nonempty
  have hkeepalive : ∀ n ∈ p.persistentKeepalive, Java.valueOf n ≠ [] := fun n hn =>
    (Config.solid_valueOf_of_pos (hp.persistentKeepalive n hn).1).nonempty
  have hpsk : ∀ key ∈ p.preSharedKey, Crypto.Key.toBase64 key ≠ [] := fun key _ =>
    (Config.solid_toBase64 key).nonempty
  have hpublic : typed [(PeerAttribute.publicKey, (ofPeer net p).publicKey)] =
      [(PeerAttribute.publicKey, p.publicKey.toBase64)] :=
    typed_of_ne_nil (Config.solid_toBase64 p.publicKey).nonempty
  have hfields : typed (ofPeer net p).fields =
      typed [(.allowedIps, (ofPeer net p).allowedIps)]
        ++ p.endpoint.toList.map (fun e => (.endpoint, e.toString))
        ++ p.persistentKeepalive.toList.map (fun n => (.persistentKeepalive, Java.valueOf n))
        ++ p.preSharedKey.toList.map (fun key => (.preSharedKey, key.toBase64))
        ++ [(.publicKey, p.publicKey.toBase64)] := by
    rw [← hpublic, ← typed_option hendpoint, ← typed_option hkeepalive, ← typed_option hpsk,
      ← typed_append, ← typed_append, ← typed_append, ← typed_append]
    rfl
  have hfold : (typed (ofPeer net p).fields).foldlM (parseField net) .new =
      .ok ⟨p.allowedIps, p.endpoint, p.persistentKeepalive, p.preSharedKey, some p.publicKey⟩ := by
    rw [hfields]
    -- the builder as it is after each field
    refine hchain.append (hchain.append (hchain.append (hchain.append (resolve_allowedIps hnet hp)
      (hchain.option (fun o => { b with endpoint := o }) ?_))
      (hchain.option (fun o => { b with endpoint := p.endpoint, persistentKeepalive := o }) ?_))
      (hchain.option (fun o => ⟨p.allowedIps, p.endpoint, p.persistentKeepalive, o, none⟩) ?_)) ?_
    · intro e he
      rw [foldlM_singleton]
      exact PeerBuilder.parseEndpoint_toString hnet (hp.endpoint e he) _
    · intro n hn
      have hfits := hp.persistentKeepalive n hn
      rw [foldlM_singleton]
      exact PeerBuilder.parsePersistentKeepalive_valueOf hfits.1 hfits.2 _
    · intro key _
      rw [foldlM_singleton]
      exact PeerBuilder.parsePreSharedKey_toBase64 key _
    · rw [foldlM_singleton]
      exact PeerBuilder.parsePublicKey_toBase64 p.publicKey _
  unfold resolve resolveFields
  rw [hfold]
  rfl

theorem fields_calculateAllowedIpsState (p : PeerProxy) :
    p.calculateAllowedIpsState.fields = p.fields := rfl

theorem fields_setTotalPeers (p : PeerProxy) (n : Nat) : (p.setTotalPeers n).fields = p.fields := by
  unfold setTotalPeers
  split
  · rfl
  · exact fields_calculateAllowedIpsState _

theorem fields_onListChanged (p : PeerProxy) (n : Nat) : (p.onListChanged n).fields = p.fields := by
  unfold onListChanged
  split
  · exact fields_setTotalPeers p n
  · rfl

theorem fields_setInterfaceDns {p : PeerProxy}
    (h : p.allowedIpsState ≠ .containsIpv4PublicNetworks) (dnsServers : Text) :
    (p.setInterfaceDns dnsServers).fields = p.fields := by
  unfold setInterfaceDns
  simp only [if_neg h]
  rfl

theorem fields_bind {p : PeerProxy} (h : p.allowedIpsState ≠ .containsIpv4PublicNetworks)
    (interfaze : InterfaceProxy) (n : Nat) : (p.bind interfaze n).fields = p.fields :=
  (fields_setTotalPeers _ n).trans (fields_setInterfaceDns h interfaze.dnsServers)

end PeerProxy

namespace ConfigProxy

omit [DecidableEq Addr] in
theorem fields_add (c : ConfigProxy) {proxy : PeerProxy}
    (h : proxy.allowedIpsState ≠ .containsIpv4PublicNetworks) :
    (c.add proxy).peers.map PeerProxy.fields = c.peers.map PeerProxy.fields ++ [proxy.fields] := by
  have hothers : (c.peers.map (·.onListChanged (c.peers.length + 1))).map PeerProxy.fields =
      c.peers.map PeerProxy.fields := by
    rw [List.map_map]
    apply List.map_congr_left
    intro p _
    exact PeerProxy.fields_onListChanged p _
  show (c.peers.map _ ++ [_]).map PeerProxy.fields = _
  rw [List.map_append, hothers, List.map_singleton, PeerProxy.fields_bind h]

omit [DecidableEq Addr] in
theorem fields_foldl_add (ps : List (Peer Addr)) (c : ConfigProxy) :
    let c' := ps.foldl (fun c p => c.add (PeerProxy.ofPeer net p)) c
    c'.interfaze = c.interfaze ∧ c'.peers.map PeerProxy.fields =
      c.peers.map PeerProxy.fields ++ ps.map fun p => (PeerProxy.ofPeer net p).fields := by
  induction ps generalizing c with
  | nil => exact ⟨rfl, (List.append_nil _).symm⟩
  | cons p ps ih =>
    have hrest := ih (c.add (PeerProxy.ofPeer net p))
    -- a new peer is in no list yet, so its state is invalid
    have hstate : (PeerProxy.ofPeer net p).allowedIpsState ≠ .containsIpv4PublicNetworks := by
      show AllowedIpsState.invalid ≠ _
      decide
    refine ⟨hrest.1, hrest.2.trans ?_⟩
    rw [fields_add c hstate, List.append_assoc]
    rfl

theorem resolve_congr {c c' : ConfigProxy} (hinterface : c'.interfaze = c.interfaze)
    (hpeers : c'.peers.map PeerProxy.fields = c.peers.map PeerProxy.fields) :
    c'.resolve net = c.resolve net := by
  have hmap : ∀ c : ConfigProxy, c.peers.mapM (PeerProxy.resolve net) =
      (c.peers.map PeerProxy.fields).mapM (PeerProxy.resolveFields net) := by
    intro c
    rw [List.mapM_map]
    rfl
  unfold resolve
  rw [hmap, hmap, hinterface, hpeers]

theorem resolve_ofConfig (hnet : net.Documented) {c : Config Addr} (hi : c.interfaze.Valid net)
    (hp : ∀ p ∈ c.peers, p.Valid net) : (ofConfig net c).resolve net = .ok c := by
  have hfields := @fields_foldl_add Addr net c.peers
    { interfaze := InterfaceProxy.ofInterface net c.interfaze }
  -- the peers as they are before they are added
  have hcongr : (ofConfig net c).resolve net = ConfigProxy.resolve net
      ⟨InterfaceProxy.ofInterface net c.interfaze, c.peers.map (PeerProxy.ofPeer net)⟩ := by
    refine resolve_congr hfields.1 (hfields.2.trans ?_)
    rw [List.map_map]
    rfl
  have hpeers : (c.peers.map (PeerProxy.ofPeer net)).mapM (PeerProxy.resolve net) = .ok c.peers := by
    generalize c.peers = ps at hp
    induction ps with
    | nil => rfl
    | cons p ps ih =>
      rw [List.forall_mem_cons] at hp
      rw [List.map_cons, List.mapM_cons, PeerProxy.resolve_ofPeer hnet hp.1, ih hp.2]
      rfl
  rw [hcongr]
  unfold resolve
  rw [hpeers, ok_bind, InterfaceProxy.resolve_ofInterface hnet hi]
  rfl

end ConfigProxy

end Model

section Parcel

open Positional (Takes)

variable {α β : Type} {create : ParcelReader α} {object : Parcel} {a : α}

theorem takes_readParcelable (name : String) (h : Takes create object a) :
    Takes (readParcelable name create) (writeParcelable name object) (some a) := by
  have hname : Takes readString [.string (some name.toList)] (some name.toList) :=
    Positional.takes_next rfl
  refine hname.bind ?_
  show Takes (if name.toList = name.toList then some <$> create else failure) object (some a)
  rw [if_pos rfl]
  exact h.map some

theorem takes_readTypedObject (h : Takes create object a) :
    Takes (readTypedObject create) (writeTypedObject object) (some a) := by
  have hthere : Takes readInt [.int 1] 1 := Positional.takes_next rfl
  exact hthere.bind (h.map some)

theorem takes_readItem {read : ParcelReader (Option α)} (h : Takes read object (some a)) :
    Takes (readItem read) object a :=
  h.bind_pure rfl

variable {l : List β} {write : β → Parcel} {f : β → α}

theorem takes_readParcelableList (name : String) (h : ∀ b ∈ l, Takes create (write b) (f b)) :
    Takes (readParcelableList name create) (writeParcelableList name (l.map write)) (l.map f) := by
  have hlength : Takes readInt [.int (l.map write).length] l.length := by
    rw [List.length_map]
    exact Positional.takes_next rfl
  unfold writeParcelableList
  rw [List.flatMap_map]
  exact hlength.bind (Takes.times fun b hb => takes_readItem (takes_readParcelable name (h b hb)))

theorem takes_readTypedList (h : ∀ b ∈ l, Takes create (write b) (f b)) :
    Takes (readTypedList create) (writeTypedList (l.map write)) (l.map f) := by
  have hlength : Takes readInt [.int (l.map write).length] l.length := by
    rw [List.length_map]
    exact Positional.takes_next rfl
  unfold writeTypedList
  rw [List.flatMap_map]
  exact hlength.bind (Takes.times fun b hb => takes_readItem (takes_readTypedObject (h b hb)))

/-- The 23 values are read in the order in which they are written. -/
theorem InterfaceProxy.takes_ofParcel (i : InterfaceProxy) :
    Takes InterfaceProxy.ofParcel i.writeToParcel i := by
  intro rest
  show some (_, rest) = some (i, rest)
  congr
  · funext a
    cases a <;> rfl
  · funext a
    cases a <;> rfl

def PeerProxy.unbound (p : PeerProxy) : PeerProxy where
  allowedIps := p.allowedIps
  endpoint := p.endpoint
  persistentKeepalive := p.persistentKeepalive
  preSharedKey := p.preSharedKey
  publicKey := p.publicKey

theorem PeerProxy.takes_ofParcel (p : PeerProxy) :
    Takes PeerProxy.ofParcel p.writeToParcel p.unbound :=
  fun _ => rfl

namespace ConfigProxy

theorem takes_ofParcel (q : Bool) (c : ConfigProxy) : Takes (ofParcel q) (c.writeToParcel q)
    { interfaze := c.interfaze
      peers := (c.peers.map PeerProxy.unbound).map
        (·.bind c.interfaze (c.peers.map PeerProxy.unbound).length) } := by
  have hinterface := takes_readParcelable InterfaceProxy.className c.interfaze.takes_ofParcel
  have hpeers : ∀ p ∈ c.peers, Takes PeerProxy.ofParcel p.writeToParcel p.unbound :=
    fun p _ => p.takes_ofParcel
  cases q with
  | true =>
    exact hinterface.bind ((takes_readParcelableList PeerProxy.className hpeers).bind_pure rfl)
  | false => exact hinterface.bind ((takes_readTypedList hpeers).bind_pure rfl)

theorem ofParcel_writeToParcel (q : Bool) (c : ConfigProxy) :
    ∃ c', ofParcel q (c.writeToParcel q) = some (c', []) ∧ c'.interfaze = c.interfaze
      ∧ c'.peers.map PeerProxy.fields = c.peers.map PeerProxy.fields := by
  refine ⟨_, (takes_ofParcel q c).run, rfl, ?_⟩
  rw [List.map_map, List.map_map]
  apply List.map_congr_left
  intro p _
  have hstate : p.unbound.allowedIpsState ≠ .containsIpv4PublicNetworks := by
    show AllowedIpsState.invalid ≠ _
    decide
  exact PeerProxy.fields_bind hstate c.interfaze _

end ConfigProxy

end Parcel

section Editor

variable {Addr : Type} [DecidableEq Addr] {net : Net Addr}

/-- A parsed configuration is resolved from its editor as it was, and from the editor that is read
back from the parcel, before Android 10 and later. -/
theorem unedited_resolve (hnet : net.Documented) {text : Text} {c : Config Addr}
    (h : Config.parse net text = .ok c) :
    (ConfigProxy.ofConfig net c).resolve net = .ok c ∧
      ∀ q, ∃ proxy, ConfigProxy.ofParcel q ((ConfigProxy.ofConfig net c).writeToParcel q) =
        some (proxy, []) ∧ proxy.resolve net = .ok c := by
  have hvalid := Config.valid_of_parse h
  have hresolve := ConfigProxy.resolve_ofConfig hnet hvalid.1 hvalid.2
  refine ⟨hresolve, fun q => ?_⟩
  obtain ⟨proxy, hread, hinterface, hpeers⟩ :=
    ConfigProxy.ofParcel_writeToParcel q (ConfigProxy.ofConfig net c)
  refine ⟨proxy, hread, ?_⟩
  rw [ConfigProxy.resolve_congr hinterface hpeers, hresolve]

end Editor

theorem unedited_resolve_example : ∃ c, Config.parse Config.exampleNet Config.exampleText = .ok c ∧
    (ConfigProxy.ofConfig Config.exampleNet c).resolve Config.exampleNet = .ok c ∧
      ∀ q, ∃ proxy, ConfigProxy.ofParcel q
        ((ConfigProxy.ofConfig Config.exampleNet c).writeToParcel q) = some (proxy, []) ∧
          proxy.resolve Config.exampleNet = .ok c := by
  obtain ⟨c, hc⟩ : ∃ c, Config.parse Config.exampleNet Config.exampleText = .ok c :=
    exists_ok_iff.2 (by decide +kernel)
  exact ⟨c, hc, unedited_resolve Config.exampleNet_documented hc⟩

end Amnezia.Viewmodel
