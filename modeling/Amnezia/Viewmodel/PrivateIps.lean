import Amnezia.Lib.Runs
import Amnezia.Viewmodel.Proxy

/-!
# Excluding private addresses

`PeerProxy.setExcludingPrivateIps` replaces `0.0.0.0/0` among the allowed addresses by the public
networks and the routes to the DNS servers, and back.  Whether this can be done, and whether it has
been done, is kept in `allowedIpsState`, which the setters calculate from the text and which
`setExcludingPrivateIps` writes itself.
-/

namespace Amnezia.Viewmodel

open Config Config.Attribute LinkedSet
open Java (Text)

namespace PeerProxy

def isAbleToExcludePrivateIps (p : PeerProxy) : Bool :=
  p.allowedIpsState = .containsIpv4PublicNetworks || p.allowedIpsState = .containsIpv4Wildcard

def isExcludingPrivateIps (p : PeerProxy) : Bool := p.allowedIpsState = .containsIpv4PublicNetworks

def replaceNetwork (oldNetworks newNetworks : List Text) (s : Bool × LinkedSet Text)
    (network : Text) : Bool × LinkedSet Text :=
  if oldNetworks.contains network then
    if s.1 then s else (true, s.2.insertAll newNetworks)
  else (s.1, s.2.insert network)

def setExcludingPrivateIps (p : PeerProxy) (excludingPrivateIps : Bool) : PeerProxy :=
  if p.isAbleToExcludePrivateIps = false ∨ p.isExcludingPrivateIps = excludingPrivateIps then p
  else
    let oldNetworks := if excludingPrivateIps then ipv4Wildcard else ipv4PublicNetworks
    let newNetworks := if excludingPrivateIps then ipv4PublicNetworks else ipv4Wildcard
    let input := p.getAllowedIpsSet.toList
    let output := (input.foldl (replaceNetwork oldNetworks newNetworks) (false, .empty)).2
    let output :=
      if excludingPrivateIps then output.insertAll p.dnsRoutes else output.removeAll p.dnsRoutes
    { p.setAllowedIps (join output.toList) with
      allowedIpsState :=
        if excludingPrivateIps then .containsIpv4PublicNetworks else .containsIpv4Wildcard }

def onDnsServersChanged (p : PeerProxy) (dnsServers : Text) : PeerProxy :=
  if p.bound then p.setInterfaceDns dnsServers else p

end PeerProxy

namespace ConfigProxy

def addPeer (c : ConfigProxy) : ConfigProxy := c.add {}

/-- `unbind` of the peer at a place of the list.  What is left of the peer itself has no owner and
no listener. -/
def unbind (c : ConfigProxy) (i : Nat) : ConfigProxy :=
  match c.peers[i]? with
  | none => c
  | some _ =>
    { c with peers := (c.peers.eraseIdx i).map (·.onListChanged (c.peers.length - 1)) }

def setDnsServers (c : ConfigProxy) (value : Text) : ConfigProxy where
  interfaze := { c.interfaze with dnsServers := value }
  peers := c.peers.map (·.onDnsServersChanged value)

inductive Event where
  | addPeer
  | unbind (i : Nat)
  | setAllowedIps (i : Nat) (value : Text)
  | setDnsServers (value : Text)
  | setExcludingPrivateIps (i : Nat) (excluding : Bool)

def step (c : ConfigProxy) : Event → ConfigProxy
  | .addPeer => c.addPeer
  | .unbind i => c.unbind i
  | .setAllowedIps i value => { c with peers := c.peers.modify i (·.setAllowedIps value) }
  | .setDnsServers value => c.setDnsServers value
  | .setExcludingPrivateIps i excluding =>
    { c with peers := c.peers.modify i (·.setExcludingPrivateIps excluding) }

inductive Constructed : ConfigProxy → Prop
  | new : Constructed { interfaze := {} }
  | config {Addr : Type} [DecidableEq Addr] (net : Net Addr) (other : Config Addr) :
      Constructed (ofConfig net other)
  | parcel {q : Bool} {parcel rest : Parcel} {c : ConfigProxy}
      (h : ofParcel q parcel = some (c, rest)) : Constructed c

end ConfigProxy

def wildcardNetwork : Text := "0.0.0.0/0".toList

def hostMask : Text := "/32".toList

theorem ipv4Wildcard_eq : ipv4Wildcard = [wildcardNetwork] := rfl

variable {t : Text}

theorem mem_ipv4Wildcard : t ∈ ipv4Wildcard ↔ t = wildcardNetwork := List.mem_singleton

/-- What the networks of the two lists have in common: they stand in a list as they are, and none is
a single address. -/
structure Network (t : Text) : Prop where
  nonempty : t ≠ []
  comma : ',' ∉ t
  bare : Fields.Bare Java.space t
  wide : ¬ hostMask <:+ t

theorem Network.rdropWhile (h : Network t) : t.rdropWhile Java.space = t :=
  Fields.rdropWhile_of_last h.bare.last

theorem network_iff : Network t ↔ t ≠ [] ∧ ',' ∉ t ∧ Fields.Bare Java.space t ∧ ¬ hostMask <:+ t :=
  ⟨fun h => ⟨h.nonempty, h.comma, h.bare, h.wide⟩,
    fun ⟨hne, hcomma, hbare, hwide⟩ => ⟨hne, hcomma, hbare, hwide⟩⟩

instance (t : Text) : Decidable (Network t) := decidable_of_iff' _ network_iff

theorem network_wildcard : Network wildcardNetwork := by decide

theorem network_of_mem_public (h : t ∈ ipv4PublicNetworks) : Network t := by
  have hall : ipv4PublicNetworks.all (Network ·) = true := by decide
  exact of_decide_eq_true (List.all_eq_true.1 hall t h)

theorem wildcard_notMem_public : wildcardNetwork ∉ ipv4PublicNetworks := by decide

theorem nodup_public : ipv4PublicNetworks.Nodup := by decide

namespace PeerProxy

section Entries

variable {p : PeerProxy}

theorem mem_getAllowedIpsSet :
    t ∈ p.getAllowedIpsSet ↔ t ∈ split p.allowedIps := by
  unfold getAllowedIpsSet
  rw [mem_insertAll]
  exact or_iff_right List.not_mem_nil

theorem tight_getAllowedIpsSet (p : PeerProxy) :
    Fields.Tight Java.space p.getAllowedIpsSet.toList :=
  (tight_split p.allowedIps).sublist (toList_insertAll_sublist _ _)

theorem comma_of_mem_getAllowedIpsSet (h : t ∈ p.getAllowedIpsSet) : ',' ∉ t :=
  comma_notMem_of_mem_split (mem_getAllowedIpsSet.1 h)

theorem getAllowedIpsSet_join {ts : List Text} (h : p.allowedIps = join ts)
    (hne : ts ≠ []) (hcomma : ∀ t ∈ ts, ',' ∉ t) (htight : Fields.Tight Java.space ts)
    (hlast : ∀ t ∈ ts.getLast?, t ≠ []) (hnodup : ts.Nodup) :
    p.getAllowedIpsSet.toList = ts := by
  unfold getAllowedIpsSet
  rw [h, split_join_tight hne hcomma htight hlast,
    toList_insertAll hnodup fun t _ => List.not_mem_nil]
  rfl

def Contains (p : PeerProxy) (networks : List Text) : Prop :=
  ∀ t ∈ networks, t ∈ split p.allowedIps

instance (networks : List Text) : Decidable (p.Contains networks) :=
  inferInstanceAs (Decidable (∀ t ∈ networks, t ∈ split p.allowedIps))

theorem contains_wildcard : p.Contains ipv4Wildcard ↔ wildcardNetwork ∈ p.getAllowedIpsSet := by
  rw [mem_getAllowedIpsSet]
  exact List.forall_mem_singleton

def currentState (p : PeerProxy) : AllowedIpsState :=
  if p.totalPeers = 1 then
    if p.Contains ipv4Wildcard then .containsIpv4Wildcard
    else if p.Contains ipv4PublicNetworks then .containsIpv4PublicNetworks
    else .other
  else .invalid

theorem calculateAllowedIpsState_eq (p : PeerProxy) :
    p.calculateAllowedIpsState = { p with allowedIpsState := p.currentState } := by
  have hall : ∀ networks : List Text,
      networks.all p.getAllowedIpsSet.toList.contains = true ↔ p.Contains networks := by
    intro networks
    rw [List.all_eq_true]
    refine forall₂_congr fun t _ => ?_
    rw [List.contains_iff_mem, mem_toList, mem_getAllowedIpsSet]
  unfold calculateAllowedIpsState currentState
  simp only [hall]

theorem currentState_eq_wildcard (h : p.currentState = .containsIpv4Wildcard) :
    p.totalPeers = 1 ∧ p.Contains ipv4Wildcard := by
  unfold currentState at h
  grind

theorem currentState_eq_public (h : p.currentState = .containsIpv4PublicNetworks) :
    p.totalPeers = 1 ∧ ¬ p.Contains ipv4Wildcard ∧ p.Contains ipv4PublicNetworks := by
  unfold currentState at h
  grind

theorem currentState_wildcard (hone : p.totalPeers = 1) (h : p.Contains ipv4Wildcard) :
    p.currentState = .containsIpv4Wildcard := by
  unfold currentState
  rw [if_pos hone, if_pos h]

theorem currentState_public (hone : p.totalPeers = 1) (hnot : ¬ p.Contains ipv4Wildcard)
    (h : p.Contains ipv4PublicNetworks) : p.currentState = .containsIpv4PublicNetworks := by
  unfold currentState
  rw [if_pos hone, if_neg hnot, if_pos h]

end Entries

def dnsRoutesOf (dnsServers : Text) : List Text :=
  ((split dnsServers).filter (!·.contains ':')).map (· ++ "/32".toList)

theorem dnsRoutes_setInterfaceDns (p : PeerProxy) (dnsServers : Text) :
    (p.setInterfaceDns dnsServers).dnsRoutes = dnsRoutesOf dnsServers := rfl

structure Route (r : Text) : Prop where
  comma : ',' ∉ r
  host : hostMask <:+ r

variable {r : Text}

theorem route_of_mem {dnsServers : Text} (h : r ∈ dnsRoutesOf dnsServers) : Route r := by
  obtain ⟨t, ht, rfl⟩ := List.mem_map.1 h
  refine ⟨?_, List.suffix_append t _⟩
  intro hmem
  rcases List.mem_append.1 hmem with hmem | hmem
  · exact comma_notMem_of_mem_split (List.mem_of_mem_filter ht) hmem
  · exact absurd hmem (by decide)

theorem Route.last (h : Route r) : ∀ c ∈ r.getLast?, Java.space c = false := by
  obtain ⟨t, rfl⟩ := h.host
  intro c hc
  rw [List.getLast?_append_of_ne_nil _ (by decide)] at hc
  cases hc
  decide

theorem Route.not_network (h : Route r) : ¬ Network r := fun hn => hn.wide h.host

theorem Route.ne_nil (h : Route r) : r ≠ [] := by
  rintro rfl
  exact absurd (List.suffix_nil.1 h.host) (by decide)

theorem Route.dropWhile (h : Route r) : Route (r.dropWhile Java.space) := by
  refine ⟨fun hmem => h.comma ((List.dropWhile_sublist _).mem hmem), ?_⟩
  obtain ⟨t, rfl⟩ := h.host
  rw [List.dropWhile_append]
  split
  · exact List.suffix_refl hostMask
  · exact List.suffix_append _ hostMask

section Loop

variable {oldNetworks newNetworks : List Text}

theorem foldl_replaceNetwork_of_not {l : List Text} (h : ∀ t ∈ l, t ∉ oldNetworks)
    (s : Bool × LinkedSet Text) :
    l.foldl (replaceNetwork oldNetworks newNetworks) s = (s.1, s.2.insertAll l) := by
  induction l generalizing s with
  | nil => rfl
  | cons t l ih =>
    have ht : replaceNetwork oldNetworks newNetworks s t = (s.1, s.2.insert t) :=
      if_neg (by simpa using h t List.mem_cons_self)
    rw [List.foldl_cons, ht, ih fun u hu => h u (List.mem_cons_of_mem _ hu)]
    rfl

theorem foldl_replaceNetwork_replaced (l : List Text) (output : LinkedSet Text) :
    l.foldl (replaceNetwork oldNetworks newNetworks) (true, output) =
      (true, output.insertAll (l.filter (· ∉ oldNetworks))) := by
  induction l generalizing output with
  | nil => rfl
  | cons t l ih =>
    rw [List.foldl_cons]
    by_cases ht : t ∈ oldNetworks
    · have hstep : replaceNetwork oldNetworks newNetworks (true, output) t = (true, output) := by
        simp [replaceNetwork, ht]
      rw [hstep, ih, List.filter_cons_of_neg (by simpa using ht)]
    · have hstep : replaceNetwork oldNetworks newNetworks (true, output) t =
          (true, output.insert t) := by
        simp [replaceNetwork, ht]
      rw [hstep, ih, List.filter_cons_of_pos (by simpa using ht)]
      rfl

theorem foldl_replaceNetwork {before after : List Text} (hbefore : ∀ u ∈ before, u ∉ oldNetworks)
    (ht : t ∈ oldNetworks) :
    ((before ++ t :: after).foldl (replaceNetwork oldNetworks newNetworks) (false, .empty)).2 =
      empty.insertAll (before ++ newNetworks ++ after.filter (· ∉ oldNetworks)) := by
  have hstep : ∀ output : LinkedSet Text, replaceNetwork oldNetworks newNetworks (false, output) t =
      (true, output.insertAll newNetworks) := by
    intro output
    simp [replaceNetwork, ht]
  rw [List.foldl_append, foldl_replaceNetwork_of_not hbefore, List.foldl_cons, hstep,
    foldl_replaceNetwork_replaced, insertAll_append, insertAll_append]

end Loop

def excluded (p : PeerProxy) : LinkedSet Text :=
  (p.getAllowedIpsSet.toList.foldl (replaceNetwork ipv4Wildcard ipv4PublicNetworks)
    (false, .empty)).2

def included (p : PeerProxy) : LinkedSet Text :=
  (p.getAllowedIpsSet.toList.foldl (replaceNetwork ipv4PublicNetworks ipv4Wildcard)
    (false, .empty)).2

section Toggle

variable {p : PeerProxy}

theorem setExcludingPrivateIps_true (h : p.allowedIpsState = .containsIpv4Wildcard) :
    p.setExcludingPrivateIps true =
      { p.setAllowedIps (join (p.excluded.insertAll p.dnsRoutes).toList) with
        allowedIpsState := .containsIpv4PublicNetworks } :=
  if_neg (by simp [isAbleToExcludePrivateIps, isExcludingPrivateIps, h])

theorem setExcludingPrivateIps_false (h : p.allowedIpsState = .containsIpv4PublicNetworks) :
    p.setExcludingPrivateIps false =
      { p.setAllowedIps (join (p.included.removeAll p.dnsRoutes).toList) with
        allowedIpsState := .containsIpv4Wildcard } :=
  if_neg (by simp [isAbleToExcludePrivateIps, isExcludingPrivateIps, h])

theorem setExcludingPrivateIps_cases (p : PeerProxy) (excluding : Bool) :
    p.setExcludingPrivateIps excluding = p ∨
      (excluding = true ∧ p.allowedIpsState = .containsIpv4Wildcard) ∨
      (excluding = false ∧ p.allowedIpsState = .containsIpv4PublicNetworks) := by
  by_cases h : p.isAbleToExcludePrivateIps = false ∨ p.isExcludingPrivateIps = excluding
  · exact .inl (if_pos h)
  · right
    cases hs : p.allowedIpsState <;> cases excluding <;>
      simp_all [isAbleToExcludePrivateIps, isExcludingPrivateIps]

theorem excluded_eq {before after : List Text}
    (heq : p.getAllowedIpsSet.toList = before ++ wildcardNetwork :: after) :
    wildcardNetwork ∉ before ∧ wildcardNetwork ∉ after ∧
      p.excluded = empty.insertAll (before ++ ipv4PublicNetworks ++ after) := by
  have hnodup := p.getAllowedIpsSet.nodup
  rw [heq, List.nodup_middle, List.nodup_cons, List.mem_append, not_or] at hnodup
  obtain ⟨⟨hbefore, hafter⟩, -⟩ := hnodup
  refine ⟨hbefore, hafter, ?_⟩
  have hnot : ∀ t, t ≠ wildcardNetwork → t ∉ ipv4Wildcard := fun t ht => ht ∘ mem_ipv4Wildcard.1
  have hfilter : after.filter (· ∉ ipv4Wildcard) = after := by
    rw [List.filter_eq_self]
    exact fun t ht => decide_eq_true (hnot t fun he => hafter (he ▸ ht))
  unfold excluded
  rw [heq, foldl_replaceNetwork (fun t ht => hnot t fun he => hbefore (he ▸ ht))
    (mem_ipv4Wildcard.2 rfl), hfilter]

theorem excluded_cases (h : wildcardNetwork ∈ p.getAllowedIpsSet) : ∃ before after,
    p.getAllowedIpsSet.toList = before ++ wildcardNetwork :: after ∧
      wildcardNetwork ∉ before ∧ wildcardNetwork ∉ after ∧
      p.excluded = empty.insertAll (before ++ ipv4PublicNetworks ++ after) := by
  obtain ⟨before, after, heq, -⟩ := List.eq_append_cons_of_mem h
  exact ⟨before, after, heq, excluded_eq heq⟩

theorem mem_replaced {before after : List Text} (hbefore : wildcardNetwork ∉ before)
    (hafter : wildcardNetwork ∉ after) : t ∈ before ++ ipv4PublicNetworks ++ after ↔
      t ∈ ipv4PublicNetworks ∨ (t ∈ before ++ wildcardNetwork :: after ∧ t ≠ wildcardNetwork) := by
  simp only [List.mem_append, List.mem_cons]
  constructor
  · rintro ((ht | ht) | ht)
    · exact .inr ⟨.inl ht, fun he => hbefore (he ▸ ht)⟩
    · exact .inl ht
    · exact .inr ⟨.inr (.inr ht), fun he => hafter (he ▸ ht)⟩
  · rintro (ht | ⟨ht | ht | ht, hne⟩)
    · exact .inl (.inr ht)
    · exact .inl (.inl ht)
    · exact absurd ht hne
    · exact .inr ht

theorem mem_excluded (h : wildcardNetwork ∈ p.getAllowedIpsSet) :
    t ∈ p.excluded ↔ t ∈ ipv4PublicNetworks ∨ (t ∈ p.getAllowedIpsSet ∧ t ≠ wildcardNetwork) := by
  obtain ⟨before, after, heq, hbefore, hafter, hset⟩ := excluded_cases h
  rw [hset, mem_insertAll, or_iff_right (show t ∉ empty from List.not_mem_nil),
    mem_replaced hbefore hafter, ← heq]
  rfl

theorem Route.mem_replaced_iff {r : Text} (hr : Route r) {old : Prop} :
    r ∈ ipv4PublicNetworks ∨ (old ∧ r ≠ wildcardNetwork) ↔ old := by
  constructor
  · rintro (hpublic | hold)
    · exact absurd (network_of_mem_public hpublic) hr.not_network
    · exact hold.1
  · refine fun hold => .inr ⟨hold, ?_⟩
    rintro rfl
    exact hr.not_network network_wildcard

theorem tight_excluded (h : wildcardNetwork ∈ p.getAllowedIpsSet) :
    Fields.Tight Java.space p.excluded.toList := by
  obtain ⟨before, after, heq, -, -, hset⟩ := excluded_cases h
  have htight := tight_getAllowedIpsSet p
  rw [heq] at htight
  -- each network takes the place of the wildcard between what stands before and after it
  have hwide := htight.replace fun t ht => (network_of_mem_public ht).bare
  rw [hset]
  exact hwide.sublist (toList_insertAll_sublist _ _)

theorem comma_of_mem_excluded (h : wildcardNetwork ∈ p.getAllowedIpsSet) (ht : t ∈ p.excluded) :
    ',' ∉ t := by
  rcases (mem_excluded h).1 ht with ht | ⟨ht, -⟩
  · exact (network_of_mem_public ht).comma
  · exact comma_of_mem_getAllowedIpsSet ht

theorem included_cases (h : p.Contains ipv4PublicNetworks) : ∃ before t after,
    p.getAllowedIpsSet.toList = before ++ t :: after ∧ (∀ u ∈ before, u ∉ ipv4PublicNetworks) ∧
      t ∈ ipv4PublicNetworks ∧ p.included =
        empty.insertAll
          (before ++ ipv4Wildcard ++ after.filter (· ∉ ipv4PublicNetworks)) := by
  have hsome : ¬ ∀ t ∈ p.getAllowedIpsSet.toList, t ∉ ipv4PublicNetworks := by
    have hfirst : "0.0.0.0/5".toList ∈ ipv4PublicNetworks := List.mem_cons_self
    exact fun hnone => hnone _ (mem_getAllowedIpsSet.2 (h _ hfirst)) hfirst
  obtain ⟨before, t, after, heq, hbefore, ht⟩ := Loops.exists_first hsome
  rw [not_not] at ht
  refine ⟨before, t, after, heq, hbefore, ht, ?_⟩
  unfold included
  rw [heq, foldl_replaceNetwork hbefore ht]

theorem mem_included (h : p.Contains ipv4PublicNetworks) : t ∈ p.included ↔
    t = wildcardNetwork ∨ (t ∈ p.getAllowedIpsSet ∧ t ∉ ipv4PublicNetworks) := by
  obtain ⟨before, u, after, heq, hbefore, hu, hset⟩ := included_cases h
  rw [hset, mem_insertAll, ← mem_toList (s := p.getAllowedIpsSet), heq]
  simp only [mem_toList.symm, toList_empty, List.not_mem_nil, false_or,
    List.mem_append, List.mem_cons, List.mem_filter, decide_eq_true_iff, mem_ipv4Wildcard]
  constructor
  · rintro ((ht | ht) | ⟨ht, hnot⟩)
    · exact .inr ⟨.inl ht, hbefore t ht⟩
    · exact .inl ht
    · exact .inr ⟨.inr (.inr ht), hnot⟩
  · rintro (ht | ⟨ht | rfl | ht, hnot⟩)
    · exact .inl (.inr ht)
    · exact .inl (.inl ht)
    · exact absurd hu hnot
    · exact .inr ⟨ht, hnot⟩

theorem comma_of_mem_included (h : p.Contains ipv4PublicNetworks) (ht : t ∈ p.included) :
    ',' ∉ t := by
  rcases (mem_included h).1 ht with rfl | ⟨ht, -⟩
  · exact network_wildcard.comma
  · exact comma_of_mem_getAllowedIpsSet ht

theorem tight_included (h : p.Contains ipv4PublicNetworks) :
    Fields.Tight Java.space p.included.toList := by
  obtain ⟨before, t, after, heq, -, -, hset⟩ := included_cases h
  have htight := tight_getAllowedIpsSet p
  rw [heq] at htight
  have hbare : ∀ u ∈ ipv4Wildcard, Fields.Bare Java.space u :=
    List.forall_mem_singleton.2 network_wildcard.bare
  rw [hset]
  exact (htight.replace hbare).sublist ((toList_insertAll_sublist _ _).trans
    (List.Sublist.append_left List.filter_sublist _))

def WildcardReturns (p : PeerProxy) : Prop :=
  (∃ r ∈ p.dnsRoutes, r ∉ p.getAllowedIpsSet.toList) ∧
    ∃ t ∈ p.getAllowedIpsSet.toList, t ≠ wildcardNetwork ∧
      t.rdropWhile Java.space = wildcardNetwork

section On

variable (hwildcard : wildcardNetwork ∈ p.getAllowedIpsSet)

include hwildcard

theorem last_excluded {init : List Text} {z : Text} (heq : p.excluded.toList = init ++ [z]) :
    z.rdropWhile Java.space = wildcardNetwork ↔ ∃ t ∈ p.getAllowedIpsSet.toList,
      t ≠ wildcardNetwork ∧ t.rdropWhile Java.space = wildcardNetwork := by
  have hz : z ∈ p.excluded := by
    rw [← mem_toList, heq]
    simp
  constructor
  · intro htrim
    rcases (mem_excluded hwildcard).1 hz with hz | ⟨hz, hne⟩
    · rw [(network_of_mem_public hz).rdropWhile] at htrim
      exact absurd (htrim ▸ hz) wildcard_notMem_public
    · exact ⟨z, hz, hne, htrim⟩
  · rintro ⟨t, ht, hne, htrim⟩
    -- only the last entry can end with a blank
    have hmem : t ∈ p.excluded := (mem_excluded hwildcard).2 (.inr ⟨ht, hne⟩)
    rw [← mem_toList, heq] at hmem
    rcases List.mem_append.1 hmem with hmem | hmem
    · have htight := tight_excluded hwildcard
      rw [heq] at htight
      have hlast := ((List.pairwise_append.1 htight).2.2 t hmem z List.mem_cons_self).1
      rw [Fields.rdropWhile_of_last hlast] at htrim
      exact absurd htrim hne
    · rwa [← List.mem_singleton.1 hmem]

variable (hroutes : ∀ r ∈ p.dnsRoutes, Route r)

include hroutes

theorem comma_of_mem_routed (ht : t ∈ p.excluded.insertAll p.dnsRoutes) : ',' ∉ t := by
  rcases mem_insertAll.1 ht with ht | ht
  · exact comma_of_mem_excluded hwildcard ht
  · exact (hroutes t ht).comma

theorem public_mem_split_join (ht : t ∈ ipv4PublicNetworks) :
    t ∈ split
      (join (p.excluded.insertAll p.dnsRoutes).toList) := by
  have hnet := network_of_mem_public ht
  refine mem_split_join (fun u hu => comma_of_mem_routed hwildcard hroutes hu) ?_
    hnet.nonempty hnet.bare
  exact mem_insertAll.2 (.inl ((mem_excluded hwildcard).2 (.inl ht)))

theorem wildcard_mem_split_join : wildcardNetwork ∈ split
      (join (p.excluded.insertAll p.dnsRoutes).toList) ↔ p.WildcardReturns := by
  obtain ⟨rs, heq, hrs⟩ := exists_toList_insertAll p.excluded p.dnsRoutes
  have hcomma : ∀ t ∈ (p.excluded.insertAll p.dnsRoutes).toList, ',' ∉ t :=
    fun t ht => comma_of_mem_routed hwildcard hroutes ht
  have hnot : wildcardNetwork ∉ p.excluded := by
    intro hmem
    rcases (mem_excluded hwildcard).1 hmem with hmem | ⟨-, hne⟩
    · exact wildcard_notMem_public hmem
    · exact hne rfl
  have hmem_iff : ∀ r ∈ p.dnsRoutes, r ∈ p.excluded ↔ r ∈ p.getAllowedIpsSet :=
    fun r hr => (mem_excluded hwildcard).trans (hroutes r hr).mem_replaced_iff
  have hne : p.excluded.toList ≠ [] :=
    List.ne_nil_of_mem ((mem_excluded hwildcard).2 (.inl List.mem_cons_self))
  obtain ⟨init, z, hinit⟩ := (List.eq_nil_or_concat _).resolve_left hne
  rw [List.concat_eq_append] at hinit
  rw [heq] at hcomma ⊢
  cases rs with
  | nil =>
    -- no route is new, and the entries come back as they are
    rw [List.append_nil] at heq hcomma ⊢
    constructor
    · intro hmem
      exact absurd (mem_of_mem_split_join hne hcomma (tight_excluded hwildcard) hmem)
        hnot
    · rintro ⟨⟨r, hr, hnew⟩, -⟩
      have hr' : r ∈ p.excluded.insertAll p.dnsRoutes := mem_insertAll.2 (.inr hr)
      rw [← mem_toList, heq] at hr'
      exact absurd ((hmem_iff r hr).1 hr') hnew
  | cons r rs =>
    have hroute : ∀ u ∈ r :: rs, Route u := fun u hu => hroutes u (hrs u hu).1
    have hnew : ∃ r ∈ p.dnsRoutes, r ∉ p.getAllowedIpsSet := by
      obtain ⟨hr, hnot⟩ := hrs r List.mem_cons_self
      exact ⟨r, hr, fun hmem => hnot ((hmem_iff r hr).2 hmem)⟩
    have htight := tight_excluded hwildcard
    rw [hinit] at htight
    have hsplit : split (join (p.excluded.toList ++ r :: rs)) =
        init ++ z.rdropWhile Java.space :: (r :: rs).map (List.dropWhile Java.space) := by
      have hlist : p.excluded.toList ++ r :: rs = init ++ z :: r :: rs := by
        rw [hinit, List.append_assoc]
        rfl
      rw [hlist] at hcomma ⊢
      exact split_join_append hcomma htight (fun u hu => (hroute u hu).last)
        fun u hu => (hroute u hu).dropWhile.ne_nil
    rw [hsplit, List.mem_append, List.mem_cons]
    constructor
    · rintro (hmem | hz | hmem)
      · refine absurd ?_ hnot
        rw [← mem_toList, hinit]
        exact List.mem_append_left _ hmem
      · exact ⟨hnew, (last_excluded hwildcard hinit).1 hz.symm⟩
      · obtain ⟨v, hv, heq⟩ := List.mem_map.1 hmem
        refine absurd network_wildcard ?_
        rw [← heq]
        exact (hroute v hv).dropWhile.not_network
    · rintro ⟨-, hreturn⟩
      exact .inr (.inl ((last_excluded hwildcard hinit).2 hreturn).symm)

end On

end Toggle

end PeerProxy

end Amnezia.Viewmodel
