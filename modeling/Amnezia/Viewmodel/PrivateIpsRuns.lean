import Amnezia.Viewmodel.PrivateIps

/-!
# What is shown of excluding private addresses

`isAbleToExcludePrivateIps` and `isExcludingPrivateIps` are read from `allowedIpsState`.  Along every
run the state is the one that belongs to the text, but for one case: a peer that has `0.0.0.0/0`
twice, the second time with blanks behind it.  While it stands last the blanks make it another
entry; when routes are put behind it they are lost.
-/

namespace Amnezia.Viewmodel

open Java (Text)
open Config (Net)

namespace PeerProxy

/-- What is shown is what the text says, with `n` peers. -/
structure Shown (n : Nat) (p : PeerProxy) : Prop where
  able : p.isAbleToExcludePrivateIps = true ↔
    n = 1 ∧ (p.Contains ipv4Wildcard ∨ p.Contains ipv4PublicNetworks)
  excluding : p.isExcludingPrivateIps = true ↔
    n = 1 ∧ p.Contains ipv4PublicNetworks ∧ ¬ p.Contains ipv4Wildcard

def Fresh (p : PeerProxy) : Prop := p.allowedIpsState = p.currentState

structure Stale (p : PeerProxy) : Prop where
  state : p.allowedIpsState = .containsIpv4PublicNetworks
  current : p.currentState = .containsIpv4Wildcard
  networks : p.Contains ipv4PublicNetworks

/-- What holds of a bound peer: it has heard of the number of peers and of the DNS servers. -/
structure Kept (n : Nat) (dnsServers : Text) (p : PeerProxy) : Prop where
  bound : p.bound = true
  total : p.totalPeers = n
  routes : p.dnsRoutes = dnsRoutesOf dnsServers
  state : p.Fresh ∨ p.Stale

section Peer

variable {n : Nat} {dnsServers : Text} {p : PeerProxy}

theorem Kept.route (h : p.Kept n dnsServers) : ∀ r ∈ p.dnsRoutes, Route r := by
  rw [h.routes]
  exact fun r hr => route_of_mem hr

theorem Kept.shown_iff (h : p.Kept n dnsServers) : p.Shown n ↔ p.Fresh := by
  constructor
  · intro hshown
    refine h.state.resolve_right fun hstale => ?_
    have hexcluding : p.isExcludingPrivateIps = true := decide_eq_true hstale.state
    exact (hshown.excluding.1 hexcluding).2.2 (currentState_eq_wildcard hstale.current).2
  · intro hfresh
    have hstate : p.allowedIpsState = p.currentState := hfresh
    unfold currentState at hstate
    rw [h.total] at hstate
    constructor
    · unfold isAbleToExcludePrivateIps
      grind
    · unfold isExcludingPrivateIps
      grind

theorem Kept.wildcard_iff (h : p.Kept n dnsServers) (hfresh : p.Fresh) :
    p.allowedIpsState = .containsIpv4Wildcard ↔ n = 1 ∧ p.Contains ipv4Wildcard := by
  rw [show p.allowedIpsState = p.currentState from hfresh]
  constructor
  · intro hcurrent
    have := currentState_eq_wildcard hcurrent
    rwa [h.total] at this
  · rintro ⟨hone, hcontains⟩
    exact currentState_wildcard (h.total.trans hone) hcontains

theorem fresh_calculateAllowedIpsState (p : PeerProxy) : p.calculateAllowedIpsState.Fresh := by
  rw [calculateAllowedIpsState_eq]
  rfl

theorem fresh_setAllowedIps (p : PeerProxy) (value : Text) : (p.setAllowedIps value).Fresh :=
  fresh_calculateAllowedIpsState _

theorem Kept.setAllowedIps (h : p.Kept n dnsServers) (value : Text) :
    (p.setAllowedIps value).Kept n dnsServers :=
  ⟨h.bound, h.total, h.routes, .inl (fresh_setAllowedIps p value)⟩

theorem setInterfaceDns_cases (p : PeerProxy) (dnsServers : Text) :
    (p.allowedIpsState ≠ .containsIpv4PublicNetworks ∧
      p.setInterfaceDns dnsServers = { p with dnsRoutes := dnsRoutesOf dnsServers }) ∨
    (p.allowedIpsState = .containsIpv4PublicNetworks ∧
      p.setInterfaceDns dnsServers =
        { p.setAllowedIps (Config.Attribute.join (LinkedSet.empty.insertAll
            (p.getAllowedIpsSet.toList.filter
              (fun t => !p.dnsRoutes.contains t || (dnsRoutesOf dnsServers).contains t)
              ++ dnsRoutesOf dnsServers)).toList) with
          dnsRoutes := dnsRoutesOf dnsServers }) := by
  unfold setInterfaceDns
  by_cases h : p.allowedIpsState = .containsIpv4PublicNetworks
  · simp only [if_pos h]
    exact .inr ⟨h, rfl⟩
  · simp only [if_neg h]
    exact .inl ⟨h, rfl⟩

theorem fresh_setInterfaceDns (h : p.Fresh ∨ p.Stale) (dnsServers : Text) :
    (p.setInterfaceDns dnsServers).Fresh := by
  rcases setInterfaceDns_cases p dnsServers with ⟨hstate, heq⟩ | ⟨-, heq⟩
  · rw [heq]
    exact h.resolve_right fun hstale => hstate hstale.state
  · rw [heq]
    exact fresh_setAllowedIps p _

theorem setInterfaceDns_bound (p : PeerProxy) (dnsServers : Text) :
    (p.setInterfaceDns dnsServers).bound = p.bound ∧
      (p.setInterfaceDns dnsServers).totalPeers = p.totalPeers := by
  rcases setInterfaceDns_cases p dnsServers with ⟨-, heq⟩ | ⟨-, heq⟩
  · rw [heq]
    exact ⟨rfl, rfl⟩
  · rw [heq]
    exact ⟨rfl, rfl⟩

theorem Kept.setInterfaceDns (h : p.Kept n dnsServers) (value : Text) :
    (p.setInterfaceDns value).Kept n value ∧ (p.setInterfaceDns value).Fresh := by
  have hbound := setInterfaceDns_bound p value
  have hfresh := fresh_setInterfaceDns h.state value
  exact ⟨⟨hbound.1.trans h.bound, hbound.2.trans h.total, dnsRoutes_setInterfaceDns p value,
    .inl hfresh⟩, hfresh⟩

theorem Kept.onDnsServersChanged (h : p.Kept n dnsServers) (value : Text) :
    (p.onDnsServersChanged value).Kept n value ∧ (p.onDnsServersChanged value).Fresh := by
  unfold PeerProxy.onDnsServersChanged
  rw [if_pos h.bound]
  exact h.setInterfaceDns value

theorem fresh_setTotalPeers (h : p.Fresh) (m : Nat) : (p.setTotalPeers m).Fresh := by
  unfold setTotalPeers
  split
  · exact h
  · exact fresh_calculateAllowedIpsState _

theorem totalPeers_setTotalPeers (p : PeerProxy) (m : Nat) : (p.setTotalPeers m).totalPeers = m := by
  unfold setTotalPeers
  split
  · next h => exact h
  · rfl

theorem setTotalPeers_keeps (p : PeerProxy) (m : Nat) :
    (p.setTotalPeers m).bound = p.bound ∧ (p.setTotalPeers m).dnsRoutes = p.dnsRoutes := by
  unfold setTotalPeers
  split
  · exact ⟨rfl, rfl⟩
  · exact ⟨rfl, rfl⟩

theorem Kept.onListChanged (h : p.Kept n dnsServers) {m : Nat} (hm : n ≠ m) :
    (p.onListChanged m).Kept m dnsServers ∧ (p.onListChanged m).Fresh := by
  have hkeeps := setTotalPeers_keeps p m
  have hfresh : (p.setTotalPeers m).Fresh := by
    unfold setTotalPeers
    rw [if_neg (fun heq => hm (h.total.symm.trans heq))]
    exact fresh_calculateAllowedIpsState _
  unfold PeerProxy.onListChanged
  rw [if_pos h.bound]
  exact ⟨⟨hkeeps.1.trans h.bound, totalPeers_setTotalPeers p m, hkeeps.2.trans h.routes,
    .inl hfresh⟩, hfresh⟩

theorem kept_bind (h : p.Fresh) (interfaze : InterfaceProxy) (n : Nat) :
    (p.bind interfaze n).Kept n interfaze.dnsServers ∧ (p.bind interfaze n).Fresh := by
  have hfresh : ((p.setInterfaceDns interfaze.dnsServers).setTotalPeers n).Fresh :=
    fresh_setTotalPeers (fresh_setInterfaceDns (.inl h) _) n
  exact ⟨⟨rfl, totalPeers_setTotalPeers _ n,
    (setTotalPeers_keeps _ n).2.trans (dnsRoutes_setInterfaceDns p _), .inl hfresh⟩, hfresh⟩

theorem one_of_able (hstate : p.Fresh ∨ p.Stale)
    (h : p.allowedIpsState = .containsIpv4Wildcard ∨
      p.allowedIpsState = .containsIpv4PublicNetworks) : p.totalPeers = 1 := by
  rcases hstate with hfresh | hstale
  · rw [show p.allowedIpsState = p.currentState from hfresh] at h
    exact h.elim (fun h => (currentState_eq_wildcard h).1) fun h => (currentState_eq_public h).1
  · exact (currentState_eq_wildcard hstale.current).1

theorem contains_of_public (hstate : p.Fresh ∨ p.Stale)
    (h : p.allowedIpsState = .containsIpv4PublicNetworks) : p.Contains ipv4PublicNetworks := by
  rcases hstate with hfresh | hstale
  · exact (currentState_eq_public (h ▸ hfresh.symm)).2.2
  · exact hstale.networks

theorem fresh_of_wildcard (hstate : p.Fresh ∨ p.Stale)
    (h : p.allowedIpsState = .containsIpv4Wildcard) : p.Fresh := by
  refine hstate.resolve_right fun hstale => ?_
  have := h.symm.trans hstale.state
  cases this

theorem mem_of_wildcard (hstate : p.Fresh ∨ p.Stale)
    (h : p.allowedIpsState = .containsIpv4Wildcard) : wildcardNetwork ∈ p.getAllowedIpsSet := by
  have hcurrent : p.currentState = .containsIpv4Wildcard := h ▸ (fresh_of_wildcard hstate h).symm
  exact contains_wildcard.1 (currentState_eq_wildcard hcurrent).2

theorem Kept.turnOn (h : p.Kept n dnsServers) (hstate : p.allowedIpsState = .containsIpv4Wildcard) :
    (p.setExcludingPrivateIps true).Kept n dnsServers ∧
      ((p.setExcludingPrivateIps true).Fresh ↔ ¬ p.WildcardReturns) := by
  have hwildcard := mem_of_wildcard h.state hstate
  have hone := one_of_able h.state (.inl hstate)
  have hreturns : (p.setExcludingPrivateIps true).Contains ipv4Wildcard ↔ p.WildcardReturns := by
    rw [setExcludingPrivateIps_true hstate]
    exact List.forall_mem_singleton.trans (wildcard_mem_split_join hwildcard h.route)
  have hpublic : (p.setExcludingPrivateIps true).Contains ipv4PublicNetworks := by
    rw [setExcludingPrivateIps_true hstate]
    exact fun t ht => public_mem_split_join hwildcard h.route ht
  have hone' : (p.setExcludingPrivateIps true).totalPeers = 1 := by
    rw [setExcludingPrivateIps_true hstate]
    exact hone
  have hstate' : (p.setExcludingPrivateIps true).allowedIpsState = .containsIpv4PublicNetworks := by
    rw [setExcludingPrivateIps_true hstate]
  have hfresh : (p.setExcludingPrivateIps true).Fresh ↔ ¬ p.WildcardReturns := by
    rw [← hreturns]
    constructor
    · intro hfresh
      exact (currentState_eq_public (hstate' ▸ hfresh.symm)).2.1
    · intro hnot
      exact hstate'.trans (currentState_public hone' hnot hpublic).symm
  refine ⟨⟨?_, ?_, ?_, ?_⟩, hfresh⟩
  · rw [setExcludingPrivateIps_true hstate]
    exact h.bound
  · rw [setExcludingPrivateIps_true hstate]
    exact h.total
  · rw [setExcludingPrivateIps_true hstate]
    exact h.routes
  · by_cases hcontains : (p.setExcludingPrivateIps true).Contains ipv4Wildcard
    · exact .inr ⟨hstate', currentState_wildcard hone' hcontains, hpublic⟩
    · exact .inl (hfresh.2 fun h => hcontains (hreturns.2 h))

theorem Kept.turnOff (h : p.Kept n dnsServers)
    (hstate : p.allowedIpsState = .containsIpv4PublicNetworks) :
    (p.setExcludingPrivateIps false).Kept n dnsServers ∧ (p.setExcludingPrivateIps false).Fresh := by
  have hcontains := contains_of_public h.state hstate
  have hmem : wildcardNetwork ∈ p.included.removeAll p.dnsRoutes := by
    refine LinkedSet.mem_removeAll.2 ⟨(mem_included hcontains).2 (.inl rfl), fun hroute => ?_⟩
    exact (h.route _ hroute).not_network network_wildcard
  have hcontains' : (p.setExcludingPrivateIps false).Contains ipv4Wildcard := by
    rw [setExcludingPrivateIps_false hstate]
    refine List.forall_mem_singleton.2 ?_
    refine Config.Attribute.mem_split_join ?_ hmem network_wildcard.nonempty network_wildcard.bare
    exact fun t ht => comma_of_mem_included hcontains (LinkedSet.mem_removeAll.1 ht).1
  have hone := one_of_able h.state (.inr hstate)
  have hone' : (p.setExcludingPrivateIps false).totalPeers = 1 := by
    rw [setExcludingPrivateIps_false hstate]
    exact hone
  have hfresh : (p.setExcludingPrivateIps false).Fresh := by
    refine Eq.trans ?_ (currentState_wildcard hone' hcontains').symm
    rw [setExcludingPrivateIps_false hstate]
  refine ⟨⟨?_, ?_, ?_, .inl hfresh⟩, hfresh⟩
  · rw [setExcludingPrivateIps_false hstate]
    exact h.bound
  · rw [setExcludingPrivateIps_false hstate]
    exact h.total
  · rw [setExcludingPrivateIps_false hstate]
    exact h.routes

theorem Kept.setExcludingPrivateIps (h : p.Kept n dnsServers) (excluding : Bool) :
    (p.setExcludingPrivateIps excluding).Kept n dnsServers := by
  rcases setExcludingPrivateIps_cases p excluding with heq | ⟨rfl, hstate⟩ | ⟨rfl, hstate⟩
  · rw [heq]
    exact h
  · exact (h.turnOn hstate).1
  · exact (h.turnOff hstate).1

theorem Kept.fresh_setExcludingPrivateIps (h : p.Kept n dnsServers) (hfresh : p.Fresh)
    (excluding : Bool) : (p.setExcludingPrivateIps excluding).Fresh ↔
      (excluding = true → n = 1 → p.Contains ipv4Wildcard → ¬ p.WildcardReturns) := by
  by_cases hon : excluding = true ∧ p.allowedIpsState = .containsIpv4Wildcard
  · obtain ⟨rfl, hstate⟩ := hon
    obtain ⟨hone, hcontains⟩ := (h.wildcard_iff hfresh).1 hstate
    rw [(h.turnOn hstate).2]
    exact ⟨fun hnot _ _ _ => hnot, fun hnot => hnot rfl hone hcontains⟩
  · have hright : (p.setExcludingPrivateIps excluding).Fresh := by
      rcases setExcludingPrivateIps_cases p excluding with heq | hturn | ⟨rfl, hstate⟩
      · rw [heq]
        exact hfresh
      · exact absurd hturn hon
      · exact (h.turnOff hstate).2
    refine ⟨fun _ hexcluding hone hcontains => ?_, fun _ => hright⟩
    exact absurd ⟨hexcluding, (h.wildcard_iff hfresh).2 ⟨hone, hcontains⟩⟩ hon

theorem fresh_new : ({} : PeerProxy).Fresh := rfl

end Peer

end PeerProxy

namespace ConfigProxy

def Sound (c : ConfigProxy) : Prop :=
  ∀ p ∈ c.peers, p.Kept c.peers.length c.interfaze.dnsServers

def Shown (c : ConfigProxy) : Prop := ∀ p ∈ c.peers, p.Shown c.peers.length

def Fresh (c : ConfigProxy) : Prop := ∀ p ∈ c.peers, p.Fresh

variable {c : ConfigProxy}

theorem Sound.shown_iff (h : c.Sound) : c.Shown ↔ c.Fresh :=
  forall₂_congr fun p hp => (h p hp).shown_iff

def Event.Safe (c : ConfigProxy) : Event → Prop
  | .setExcludingPrivateIps i excluding => ∀ p, c.peers[i]? = some p → excluding = true →
      c.peers.length = 1 → p.Contains ipv4Wildcard → ¬ p.WildcardReturns
  | _ => True

/-! ### The constructors -/

theorem sound_add (h : c.Sound) {q : PeerProxy} (hq : q.Fresh) :
    (c.add q).Sound ∧ (c.add q).Fresh := by
  have hlength : (c.add q).peers.length = c.peers.length + 1 := by simp [add]
  have hboth : ∀ p ∈ (c.add q).peers,
      p.Kept (c.peers.length + 1) c.interfaze.dnsServers ∧ p.Fresh := by
    intro p hp
    rcases List.mem_append.1 hp with hp | hp
    · obtain ⟨p', hp', rfl⟩ := List.mem_map.1 hp
      exact (h p' hp').onListChanged (by omega)
    · rw [List.mem_singleton.1 hp]
      exact PeerProxy.kept_bind hq c.interfaze _
  refine ⟨?_, fun p hp => (hboth p hp).2⟩
  unfold Sound
  rw [hlength]
  exact fun p hp => (hboth p hp).1

theorem sound_ofConfig {Addr : Type} [DecidableEq Addr] (net : Net Addr) (other : Config Addr) :
    (ofConfig net other).Sound ∧ (ofConfig net other).Fresh := by
  unfold ofConfig
  have hpeers : ∀ (ps : List (Config.Peer Addr)) (c : ConfigProxy), c.Sound → c.Fresh →
      (ps.foldl (fun c p => c.add (PeerProxy.ofPeer net p)) c).Sound ∧
        (ps.foldl (fun c p => c.add (PeerProxy.ofPeer net p)) c).Fresh := by
    intro ps
    induction ps with
    | nil => exact fun c hs hf => ⟨hs, hf⟩
    | cons p ps ih =>
      intro c hs hf
      have hpeer : (PeerProxy.ofPeer net p).Fresh := PeerProxy.fresh_setAllowedIps {} _
      have hadd := sound_add hs hpeer
      exact ih _ hadd.1 hadd.2
  exact hpeers other.peers _ (fun p hp => absurd hp List.not_mem_nil)
    fun p hp => absurd hp List.not_mem_nil

section Parcel

open Positional (Yields)

variable {α : Type} {P : α → Prop} {create : ParcelReader α}

theorem yields_readItem {read : ParcelReader (Option α)}
    (h : Yields read fun o => ∀ a ∈ o, P a) : Yields (readItem read) P := by
  refine h.bind fun o ho => ?_
  cases o with
  | none => exact .failure
  | some a => exact .pure (ho a rfl)

theorem yields_readParcelable (name : String) (h : Yields create P) :
    Yields (readParcelable name create) fun o => ∀ a ∈ o, P a := by
  refine (Yields.any readString).bind fun o _ => ?_
  cases o with
  | none => exact .pure fun a ha => nomatch ha
  | some n =>
    show Yields (if n = name.toList then some <$> create else failure) _
    split
    · refine h.map fun a ha b hb => ?_
      cases hb
      exact ha
    · exact .failure

theorem yields_readTypedObject (h : Yields create P) :
    Yields (readTypedObject create) fun o => ∀ a ∈ o, P a := by
  refine (Yields.any readInt).bind fun n _ => ?_
  show Yields (if n = 0 then pure none else some <$> create) _
  split
  · exact .pure fun a ha => nomatch ha
  · refine h.map fun a ha b hb => ?_
    cases hb
    exact ha

theorem yields_peer : Yields PeerProxy.ofParcel PeerProxy.Fresh :=
  (Yields.any readText).bind fun allowedIps _ => (Yields.any readText).bind fun _ _ =>
    (Yields.any readText).bind fun _ _ => (Yields.any readText).bind fun _ _ =>
      (Yields.any readText).bind fun _ _ => .pure (PeerProxy.fresh_setAllowedIps {} allowedIps)

theorem sound_bind {i : InterfaceProxy} {ps : List PeerProxy} (h : ∀ p ∈ ps, p.Fresh) :
    Sound { interfaze := i, peers := ps.map (·.bind i ps.length) } ∧
      Fresh { interfaze := i, peers := ps.map (·.bind i ps.length) } := by
  have hbind : ∀ p ∈ ps.map (·.bind i ps.length), p.Kept ps.length i.dnsServers ∧ p.Fresh := by
    intro p hp
    obtain ⟨p', hp', rfl⟩ := List.mem_map.1 hp
    exact PeerProxy.kept_bind (h p' hp') _ _
  refine ⟨?_, fun p hp => (hbind p hp).2⟩
  unfold Sound
  rw [List.length_map]
  exact fun p hp => (hbind p hp).1

theorem yields_ofParcel (q : Bool) : Yields (ofParcel q) fun c => c.Sound ∧ c.Fresh := by
  refine (Yields.any _).bind fun i _ => ?_
  cases q with
  | true =>
    have hpeers : Yields (readParcelableList PeerProxy.className PeerProxy.ofParcel)
        fun ps => ∀ p ∈ ps, p.Fresh := (Yields.any readInt).bind fun n _ =>
      (yields_readItem (yields_readParcelable _ yields_peer)).times n
    exact hpeers.bind fun ps hps => .pure (sound_bind hps)
  | false =>
    have hpeers : Yields (readTypedList PeerProxy.ofParcel) fun ps => ∀ p ∈ ps, p.Fresh :=
      (Yields.any readInt).bind fun n _ => (yields_readItem (yields_readTypedObject yields_peer)).times n
    exact hpeers.bind fun ps hps => .pure (sound_bind hps)

end Parcel

theorem Constructed.sound (h : Constructed c) : c.Sound ∧ c.Fresh := by
  cases h with
  | new => exact ⟨fun p hp => absurd hp List.not_mem_nil, fun p hp => absurd hp List.not_mem_nil⟩
  | config net other => exact sound_ofConfig net other
  | parcel h => exact yields_ofParcel _ _ _ _ h

/-! ### The events -/

variable {i : Nat}

theorem mem_modify {ps : List PeerProxy} {f : PeerProxy → PeerProxy} {p : PeerProxy}
    (h : p ∈ ps.modify i f) : p ∈ ps ∨ ∃ q, ps[i]? = some q ∧ p = f q := by
  obtain ⟨j, hj⟩ := List.mem_iff_getElem?.1 h
  rw [List.getElem?_modify] at hj
  obtain ⟨q, hq, heq⟩ := Option.map_eq_some_iff.1 hj
  split at heq
  · next hij =>
    rw [hij]
    exact .inr ⟨q, hq, heq.symm⟩
  · exact .inl (List.mem_iff_getElem?.2 ⟨j, heq ▸ hq⟩)

theorem sound_modify (h : c.Sound) {f : PeerProxy → PeerProxy}
    (hf : ∀ p n dnsServers, p.Kept n dnsServers → (f p).Kept n dnsServers) :
    Sound { c with peers := c.peers.modify i f } := by
  intro p hp
  show p.Kept (c.peers.modify i f).length c.interfaze.dnsServers
  rw [List.length_modify]
  rcases mem_modify hp with hp | ⟨q, hq, rfl⟩
  · exact h p hp
  · exact hf q _ _ (h q (List.mem_of_getElem? hq))

theorem kept_unbind (h : c.Sound) (hi : i < c.peers.length) :
    ∀ p ∈ (c.peers.eraseIdx i).map (·.onListChanged (c.peers.length - 1)),
      p.Kept (c.peers.length - 1) c.interfaze.dnsServers ∧ p.Fresh := by
  intro p hp
  obtain ⟨p', hp', rfl⟩ := List.mem_map.1 hp
  exact (h p' (List.mem_of_mem_eraseIdx hp')).onListChanged (by omega)

theorem sound_unbind (h : c.Sound) (i : Nat) : (c.unbind i).Sound := by
  unfold unbind
  split
  · exact h
  · next hq =>
    have hi := (List.getElem?_eq_some_iff.1 hq).1
    unfold Sound
    rw [List.length_map, List.length_eraseIdx_of_lt hi]
    exact fun p hp => (kept_unbind h hi p hp).1

theorem fresh_unbind (h : c.Sound) (hfresh : c.Fresh) (i : Nat) : (c.unbind i).Fresh := by
  unfold unbind
  split
  · exact hfresh
  · next hq => exact fun p hp => (kept_unbind h (List.getElem?_eq_some_iff.1 hq).1 p hp).2

theorem sound_setDnsServers (h : c.Sound) (value : Text) :
    (c.setDnsServers value).Sound ∧ (c.setDnsServers value).Fresh := by
  have hboth : ∀ p ∈ c.peers.map (·.onDnsServersChanged value),
      p.Kept c.peers.length value ∧ p.Fresh := by
    intro p hp
    obtain ⟨p', hp', rfl⟩ := List.mem_map.1 hp
    exact (h p' hp').onDnsServersChanged value
  refine ⟨?_, fun p hp => (hboth p hp).2⟩
  show ∀ p ∈ c.peers.map (·.onDnsServersChanged value),
    p.Kept (c.peers.map (·.onDnsServersChanged value)).length value
  rw [List.length_map]
  exact fun p hp => (hboth p hp).1

theorem sound_step (h : c.Sound) (e : Event) : (c.step e).Sound := by
  cases e with
  | addPeer => exact (sound_add h PeerProxy.fresh_new).1
  | unbind i => exact sound_unbind h i
  | setAllowedIps i value => exact sound_modify h fun p n d hp => hp.setAllowedIps value
  | setDnsServers value => exact (sound_setDnsServers h value).1
  | setExcludingPrivateIps i excluding =>
    exact sound_modify h fun p n d hp => hp.setExcludingPrivateIps excluding

theorem fresh_step_iff (h : c.Sound) (hfresh : c.Fresh) (e : Event) :
    (c.step e).Fresh ↔ e.Safe c := by
  cases e with
  | addPeer => exact iff_of_true (sound_add h PeerProxy.fresh_new).2 trivial
  | unbind i => exact iff_of_true (fresh_unbind h hfresh i) trivial
  | setDnsServers value => exact iff_of_true (sound_setDnsServers h value).2 trivial
  | setAllowedIps i value =>
    refine iff_of_true ?_ trivial
    intro p hp
    rcases mem_modify hp with hp | ⟨q, -, rfl⟩
    · exact hfresh p hp
    · exact PeerProxy.fresh_setAllowedIps q value
  | setExcludingPrivateIps i excluding =>
    constructor
    · intro hnext p hp
      have hmem := List.mem_of_getElem? hp
      refine ((h p hmem).fresh_setExcludingPrivateIps (hfresh p hmem) excluding).1 (hnext _ ?_)
      refine List.mem_iff_getElem?.2 ⟨i, ?_⟩
      show (c.peers.modify i (·.setExcludingPrivateIps excluding))[i]? = _
      rw [List.getElem?_modify_eq, hp]
      rfl
    · intro hsafe p hp
      rcases mem_modify hp with hp | ⟨q, hq, rfl⟩
      · exact hfresh p hp
      · have hmem := List.mem_of_getElem? hq
        exact ((h q hmem).fresh_setExcludingPrivateIps (hfresh q hmem) excluding).2 (hsafe q hq)

/-- After every event the screen shows what the texts say, exactly as long as the events are safe. -/
theorem states_shown_iff {c : ConfigProxy} (hc : Constructed c) (events : List Event) :
    (∀ c' ∈ Runs.states step c events, c'.Shown) ↔
      Runs.Guarded step (fun c e => Event.Safe c e) c events := by
  obtain ⟨hsound, hfresh⟩ := hc.sound
  have hstep : ∀ (c : ConfigProxy) (e : Event), c.Sound → (c.step e).Sound :=
    fun c e h => sound_step h e
  have hstates := Runs.invariant_states_of_step hstep hsound events
  have hiff : (∀ c' ∈ Runs.states step c events, c'.Sound ∧ c'.Fresh) ↔
      Runs.Guarded step (fun c e => Event.Safe c e) c events := by
    refine Runs.states_iff_guarded (fun c e h => ?_) ⟨hsound, hfresh⟩ events
    rw [and_iff_right (sound_step h.1 e)]
    exact fresh_step_iff h.1 h.2 e
  rw [← hiff]
  exact forall₂_congr fun c' hc' => by
    rw [(hstates c' hc').shown_iff, and_iff_right (hstates c' hc')]

def plainEvents : List Event :=
  [.addPeer, .setDnsServers "1.1.1.1".toList, .setAllowedIps 0 "0.0.0.0/0, ::/0".toList,
   .setExcludingPrivateIps 0 true, .addPeer, .unbind 1, .setExcludingPrivateIps 0 false]

theorem states_shown_plain : (Runs.run step { interfaze := {} } plainEvents).Shown := by
  refine (states_shown_iff .new plainEvents).2 ⟨trivial, trivial, trivial, ?_, trivial, trivial, ?_,
    trivial⟩ _ (Runs.run_mem_states _ _ _)
  · intro p hp _ _ _ hreturns
    cases hp
    revert hreturns
    unfold PeerProxy.WildcardReturns
    decide
  · intro p hp hon
    cases hon

def blankEvents : List Event :=
  [.addPeer, .setDnsServers "1.1.1.1".toList, .setAllowedIps 0 "0.0.0.0/0, 0.0.0.0/0 ".toList,
   .setExcludingPrivateIps 0 true]

theorem blank_excluding : (Runs.run step { interfaze := {} } blankEvents).peers.map
    (fun p => (p.isExcludingPrivateIps, decide (p.Contains ipv4Wildcard))) = [(true, true)] := by
  decide +kernel

theorem blank_not_shown : ¬ (Runs.run step { interfaze := {} } blankEvents).Shown := by
  intro h
  obtain ⟨p, hp, heq⟩ := List.map_eq_singleton_iff.1 blank_excluding
  have hshown := h p (by rw [hp]; exact List.mem_cons_self)
  have hexcluding : p.isExcludingPrivateIps = true := congrArg Prod.fst heq
  have hcontains : decide (p.Contains ipv4Wildcard) = true := congrArg Prod.snd heq
  exact (hshown.excluding.1 hexcluding).2.2 (of_decide_eq_true hcontains)

end ConfigProxy

end Amnezia.Viewmodel
