import Amnezia.Viewmodel.PrivateIpsResolve

/-!
# Which addresses go through the tunnel

The thirty public networks are four blocks of addresses, what is left of IPv4 without the private
networks and the upper eighth.  Turned on, the exclusion leaves an IPv4 address in the tunnel that
is in one of them, in another entry of the peer, or is a DNS server.  Already turned on, it leaves
them all.
-/

namespace Amnezia.Viewmodel

open Java (Text)
open Config (Net InetNetwork Quad)

def privateQuads : List Quad :=
  [.of 10 0 0 0 8, .of 172 16 0 0 12, .of 192 168 0 0 16, .of 224 0 0 0 3]

def publicRuns : List (List (Nat × Nat)) :=
  [(publicQuads.take 2).map Quad.block, ((publicQuads.drop 2).take 9).map Quad.block,
   ((publicQuads.drop 11).take 9).map Quad.block, (publicQuads.drop 20).map Quad.block]

theorem blocks_public : publicQuads.map Quad.block = publicRuns.flatten := by decide

theorem publicRuns_linked : List.Forall₂ (fun b rs => Intervals.Linked b.1 rs b.2)
    [(0, 167772160), (184549376, 2886729728), (2887778304, 3232235520), (3232301056, 3758096384)]
    publicRuns := by
  decide

theorem aligned_public : ∀ q ∈ publicQuads, q.Aligned := by decide

theorem aligned_private : ∀ q ∈ privateQuads, q.Aligned := by decide

theorem blocks_private : privateQuads.map Quad.block =
    [(167772160, 184549376), (2886729728, 2887778304), (3232235520, 3232301056),
     (3758096384, 4294967296)] := by
  decide

variable {v : Nat}

theorem exists_has_iff {qs : List Quad} (h : ∀ q ∈ qs, q.Aligned) :
    (∃ q ∈ qs, q.Has v) ↔ ∃ r ∈ qs.map Quad.block, Intervals.Mem r v := by
  simp only [List.mem_map, exists_exists_and_eq_and]
  exact exists_congr fun q => and_congr_right fun hq => Quad.has_iff (h q hq)

theorem exists_has_public_iff (hv : v < 4294967296) :
    (∃ q ∈ publicQuads, q.Has v) ↔ ∀ q ∈ privateQuads, ¬ q.Has v := by
  have hprivate : (∀ q ∈ privateQuads, ¬ q.Has v) ↔ ¬ ∃ q ∈ privateQuads, q.Has v := by
    simp only [not_exists, not_and]
  rw [hprivate, exists_has_iff aligned_public, exists_has_iff aligned_private, blocks_public,
    Intervals.exists_mem_flatten_iff publicRuns_linked, blocks_private]
  simp only [List.mem_cons, List.not_mem_nil, or_false, exists_eq_or_imp, exists_eq_left,
    Intervals.Mem]
  omega

variable {t : Text}

section Covers

variable {Addr : Type} (net : Net Addr) (value : Addr → Nat)

def Covers (t : Text) (v : Nat) : Prop :=
  ∃ n, InetNetwork.parse net t = .ok n ∧ net.isInet4 n.address = true ∧
    value n.address >>> (32 - n.mask.toNat) = v >>> (32 - n.mask.toNat)

def IsServer (dnsServers : Text) (v : Nat) : Prop :=
  ∃ t ∈ Config.Attribute.split dnsServers, ':' ∉ t ∧
    ∃ a, Config.InetAddresses.parse net t = .ok a ∧ value a = v

def PeerProxy.Covered (p : PeerProxy) (v : Nat) : Prop :=
  ∃ t ∈ p.getAllowedIpsSet.toList, Covers net value t v

/-- Covered by an entry other than `0.0.0.0/0`, or a DNS server. -/
def PeerProxy.CoveredApart (p : PeerProxy) (dnsServers : Text) (v : Nat) : Prop :=
  (∃ t ∈ p.getAllowedIpsSet.toList, t ≠ wildcardNetwork ∧ Covers net value t v) ∨
    IsServer net value dnsServers v

variable {net value}

theorem covers_iff : Covers net value t v ↔
    (InetNetwork.parse net t).toOption.any (fun n => net.isInet4 n.address &&
      value n.address >>> (32 - n.mask.toNat) == v >>> (32 - n.mask.toNat)) = true := by
  unfold Covers
  cases InetNetwork.parse net t <;> simp [Except.toOption]

instance (t : Text) (v : Nat) : Decidable (Covers net value t v) := decidable_of_iff' _ covers_iff

instance (p : PeerProxy) (v : Nat) : Decidable (p.Covered net value v) :=
  inferInstanceAs (Decidable (∃ t ∈ p.getAllowedIpsSet.toList, Covers net value t v))

theorem isServer_iff {dnsServers : Text} : IsServer net value dnsServers v ↔
    ∃ t ∈ Config.Attribute.split dnsServers, ':' ∉ t ∧
      (Config.InetAddresses.parse net t).toOption.any (value · == v) = true := by
  refine exists_congr fun t => and_congr_right fun _ => and_congr_right fun _ => ?_
  cases Config.InetAddresses.parse net t <;> simp [Except.toOption]

instance (dnsServers : Text) (v : Nat) : Decidable (IsServer net value dnsServers v) :=
  decidable_of_iff' _ isServer_iff

theorem covers_network (hnet : net.Numbered value) {q : Quad} :
    Covers net value q.network v ↔ q.Has v := by
  obtain ⟨x, hx, hinet, hparse⟩ := q.parse_network hnet.literals
  have hvalue : value x = q.value := hnet.quad q.a.isLt q.b.isLt q.c.isLt q.d.isLt hx
  unfold Covers
  simp only [hparse, Except.ok.injEq, exists_eq_left', hinet, true_and, hvalue, Int.toNat_natCast]
  rfl

theorem exists_covers_public (hnet : net.Numbered value) (hv : v < 4294967296) :
    (∃ t ∈ ipv4PublicNetworks, Covers net value t v) ↔ ∀ q ∈ privateQuads, ¬ q.Has v := by
  rw [ipv4PublicNetworks_eq, ← exists_has_public_iff hv]
  simp only [List.mem_map, exists_exists_and_eq_and, covers_network hnet]

theorem covers_wildcard (hnet : net.Numbered value) (hv : v < 4294967296) :
    Covers net value wildcardNetwork v := by
  rw [wildcardNetwork_eq, covers_network hnet]
  show (0 : Nat) >>> 32 = v >>> 32
  rw [Nat.zero_shiftRight, Nat.shiftRight_eq_div_pow, Nat.div_eq_of_lt hv]

theorem covers_host (hnet : net.Numbered value) (hcolon : ':' ∉ t) :
    Covers net value (t ++ hostMask) v ↔
      ∃ a, Config.InetAddresses.parse net t = .ok a ∧ value a = v := by
  constructor
  · rintro ⟨n, hn, -, hv⟩
    rw [hostMask_eq] at hn
    obtain ⟨a, ha⟩ := InetNetwork.address_of_parse hn
    rw [InetNetwork.parse_prefixed ha (Nat.le_refl 32)] at hn
    cases hn
    exact ⟨a, ha, hv⟩
  · rintro ⟨a, ha, rfl⟩
    have hn := InetNetwork.parse_prefixed ha (Nat.le_refl 32)
    rw [← hostMask_eq] at hn
    exact ⟨_, hn, hnet.colon (Config.InetAddresses.parse_eq_ok.1 ha).2 hcolon, rfl⟩

theorem exists_covers_routes (hnet : net.Numbered value) {dnsServers : Text} :
    (∃ r ∈ PeerProxy.dnsRoutesOf dnsServers, Covers net value r v) ↔
      IsServer net value dnsServers v := by
  unfold PeerProxy.dnsRoutesOf IsServer
  simp only [List.mem_map, exists_exists_and_eq_and]
  simp only [List.mem_filter, and_assoc]
  refine exists_congr fun t => and_congr_right fun _ => ?_
  have hiff : (!t.contains ':') = true ↔ ':' ∉ t := by simp
  rw [hiff]
  exact and_congr_right fun hcolon => covers_host hnet hcolon

end Covers

namespace PeerProxy

section On

variable {Addr : Type} {net : Net Addr} {value : Addr → Nat} {p : PeerProxy} {dnsServers : Text}

theorem entries_turnOn (hnet : net.Literals) {n : Nat} (h : p.Kept n dnsServers)
    (hdns : DnsAccepted net dnsServers) (hnetworks : p.Networks net)
    (hstate : p.allowedIpsState = .containsIpv4Wildcard) :
    (p.setExcludingPrivateIps true).getAllowedIpsSet = p.excluded.insertAll p.dnsRoutes := by
  have hwildcard := mem_of_wildcard h.state hstate
  have hplain : ∀ t ∈ (p.excluded.insertAll p.dnsRoutes).toList, Plain t :=
    fun t ht => plain_routed hnet hnetworks h hdns hwildcard ht
  have htext : (p.setExcludingPrivateIps true).allowedIps =
      Config.Attribute.join (p.excluded.insertAll p.dnsRoutes).toList := by
    rw [setExcludingPrivateIps_true hstate]
    rfl
  have hne : (p.excluded.insertAll p.dnsRoutes).toList ≠ [] :=
    List.ne_nil_of_mem (LinkedSet.mem_insertAll.2
      (.inl ((mem_excluded hwildcard).2 (.inl List.mem_cons_self))))
  apply LinkedSet.ext_toList
  exact getAllowedIpsSet_join htext hne (fun t ht => (hplain t ht).comma)
    (Fields.tight_of_bare fun t ht => (hplain t ht).bare)
    (fun t ht => (hplain t (List.mem_of_mem_getLast? ht)).nonempty) (LinkedSet.nodup _)

theorem colon_of_mem_public (h : t ∈ ipv4PublicNetworks) : t.contains ':' = false := by
  have hall : ipv4PublicNetworks.all (fun t => !t.contains ':') = true := by decide
  simpa using List.all_eq_true.1 hall t h

theorem colon_of_mem_routes {r : Text} (h : r ∈ dnsRoutesOf dnsServers) :
    r.contains ':' = false := by
  obtain ⟨t, ht, rfl⟩ := List.mem_map.1 h
  have hcolon := List.of_mem_filter ht
  simpa using hcolon

theorem filter_colon_routed (hroutes : p.dnsRoutes = dnsRoutesOf dnsServers)
    (hwildcard : wildcardNetwork ∈ p.getAllowedIpsSet) :
    (p.excluded.insertAll p.dnsRoutes).toList.filter (·.contains ':') =
      p.getAllowedIpsSet.toList.filter (·.contains ':') := by
  obtain ⟨before, after, heq, -, -, hset⟩ := excluded_cases hwildcard
  have hpublic : ipv4PublicNetworks.filter (·.contains ':') = [] :=
    List.filter_eq_nil_iff.2 fun t ht => by rw [colon_of_mem_public ht]; decide
  have hdns : p.dnsRoutes.filter (·.contains ':') = [] := by
    rw [hroutes]
    exact List.filter_eq_nil_iff.2 fun r hr => by rw [colon_of_mem_routes hr]; decide
  have hentries : (before ++ ipv4PublicNetworks ++ after ++ p.dnsRoutes).filter (·.contains ':') =
      p.getAllowedIpsSet.toList.filter (·.contains ':') := by
    rw [heq, List.filter_append, List.filter_append, List.filter_append, List.filter_append, hpublic,
      hdns, List.filter_cons_of_neg (by decide), List.append_nil, List.append_nil]
  rw [hset, ← LinkedSet.insertAll_append]
  refine (LinkedSet.filter_toList_insertAll ?_ fun t _ => List.not_mem_nil).trans ?_
  · rw [hentries]
    exact p.getAllowedIpsSet.nodup.filter _
  · exact hentries

variable (hnet : net.Numbered value) (h : p.Kept 1 dnsServers) (hwildcard : p.Contains ipv4Wildcard)
  (hparses : ∀ t ∈ Config.Attribute.split p.allowedIps, Parses net t)
  (hdns : dnsServers = [] ∨ OnlyAddresses net dnsServers)

include hnet h hwildcard hparses hdns

theorem covered_turnOn (hexcluding : p.isExcludingPrivateIps = false) :
    (∀ v < 4294967296, (p.setExcludingPrivateIps true).Covered net value v ↔
      p.CoveredApart net value dnsServers v ∨ ∀ q ∈ privateQuads, ¬ q.Has v) ∧
      (p.setExcludingPrivateIps true).getAllowedIpsSet.toList.filter (·.contains ':') =
        p.getAllowedIpsSet.toList.filter (·.contains ':') := by
  have hfresh : p.Fresh := by
    refine h.state.resolve_right fun hstale => ?_
    have hshown : p.isExcludingPrivateIps = true := decide_eq_true hstale.state
    rw [hexcluding] at hshown
    cases hshown
  have hstate : p.allowedIpsState = .containsIpv4Wildcard :=
    (h.wildcard_iff hfresh).2 ⟨rfl, hwildcard⟩
  have hmem := contains_wildcard.1 hwildcard
  have haccepted : DnsAccepted net dnsServers := hdns.imp_right fun haddrs t ht => .inl (haddrs t ht)
  have hentries := entries_turnOn hnet.literals h haccepted (.inr hparses) hstate
  constructor
  · intro v hv
    unfold Covered CoveredApart
    rw [hentries, ← exists_covers_public hnet hv, ← exists_covers_routes hnet, ← h.routes]
    simp only [LinkedSet.mem_toList, LinkedSet.mem_insertAll, mem_excluded hmem]
    constructor
    · rintro ⟨t, (ht | ⟨ht, hne⟩) | ht, hcovers⟩
      · exact .inr ⟨t, ht, hcovers⟩
      · exact .inl (.inl ⟨t, ht, hne, hcovers⟩)
      · exact .inl (.inr ⟨t, ht, hcovers⟩)
    · rintro ((⟨t, ht, hne, hcovers⟩ | ⟨t, ht, hcovers⟩) | ⟨t, ht, hcovers⟩)
      · exact ⟨t, .inl (.inr ⟨ht, hne⟩), hcovers⟩
      · exact ⟨t, .inr ht, hcovers⟩
      · exact ⟨t, .inl (.inl ht), hcovers⟩
  · rw [hentries]
    exact filter_colon_routed h.routes hmem

/-- What is covered after the exclusion is turned on is what should be, if and only if it was not
shown as turned on before, or all private addresses are covered apart from `0.0.0.0/0`. -/
theorem covered_setExcludingPrivateIps_iff :
    ((∀ v < 4294967296, (p.setExcludingPrivateIps true).Covered net value v ↔
        p.CoveredApart net value dnsServers v ∨ ∀ q ∈ privateQuads, ¬ q.Has v) ∧
      (p.setExcludingPrivateIps true).getAllowedIpsSet.toList.filter (·.contains ':') =
        p.getAllowedIpsSet.toList.filter (·.contains ':')) ↔
      p.isExcludingPrivateIps = false ∨ ∀ v < 4294967296, (∃ q ∈ privateQuads, q.Has v) →
        p.CoveredApart net value dnsServers v := by
  by_cases hexcluding : p.isExcludingPrivateIps = false
  · exact iff_of_true (covered_turnOn hnet h hwildcard hparses hdns hexcluding) (.inl hexcluding)
  -- nothing is done, and `0.0.0.0/0` covers every address
  have hsame : p.setExcludingPrivateIps true = p := if_pos (.inr (by simpa using hexcluding))
  have hcovered : ∀ v < 4294967296, p.Covered net value v :=
    fun v hv => ⟨_, contains_wildcard.1 hwildcard, covers_wildcard hnet hv⟩
  rw [hsame, or_iff_right hexcluding, and_iff_left rfl]
  refine forall₂_congr fun v hv => ?_
  rw [iff_true_left (hcovered v hv), or_iff_not_imp_right]
  simp only [not_forall, not_not, exists_prop]

end On

def homePeer : PeerProxy :=
  (setAllowedIps {} "::1/128, 0.0.0.0/0, 192.168.1.0/24".toList).bind
    { dnsServers := "10.0.0.53, ::1".toList } 1

theorem covered_home :
    (homePeer.setExcludingPrivateIps true).Covered Config.inet4Net (·.getD 0)
        (Config.quadValue 192 168 1 7) ∧
      (homePeer.setExcludingPrivateIps true).Covered Config.inet4Net (·.getD 0)
        (Config.quadValue 10 0 0 53) ∧
      (homePeer.setExcludingPrivateIps true).Covered Config.inet4Net (·.getD 0)
        (Config.quadValue 93 184 216 34) ∧
      ¬ (homePeer.setExcludingPrivateIps true).Covered Config.inet4Net (·.getD 0)
        (Config.quadValue 10 0 0 1) ∧
      (homePeer.setExcludingPrivateIps true).getAllowedIpsSet.toList.filter (·.contains ':') =
        ["::1/128".toList] := by
  have hkept := (kept_bind (fresh_setAllowedIps {} "::1/128, 0.0.0.0/0, 192.168.1.0/24".toList)
    { dnsServers := "10.0.0.53, ::1".toList } 1).1
  obtain ⟨hcovered, hcolon⟩ := (covered_setExcludingPrivateIps_iff (p := homePeer)
    Config.inet4Net_numbered hkept (by decide +kernel) (by decide +kernel)
    (.inr (by decide +kernel))).2 (.inl (by decide +kernel))
  unfold CoveredApart at hcovered
  refine ⟨(hcovered _ (by decide)).2 (.inl (.inl (by decide +kernel))),
    (hcovered _ (by decide)).2 (.inl (.inr (by decide +kernel))),
    (hcovered _ (by decide)).2 (.inr (by decide +kernel)), ?_, ?_⟩
  · rw [hcovered _ (by decide)]
    decide +kernel
  · rw [hcolon]
    decide +kernel

end PeerProxy

namespace ConfigProxy

def blankConfig : ConfigProxy := Runs.run step { interfaze := {} } blankEvents

/-- It is shown as excluding, so turning it on does nothing. -/
theorem blank_covered : blankConfig.peers.length = 1 ∧ ∀ p ∈ blankConfig.peers,
    p.Contains ipv4Wildcard ∧
      (∀ t ∈ Config.Attribute.split p.allowedIps, Parses Config.inet4Net t) ∧
      OnlyAddresses Config.inet4Net blankConfig.interfaze.dnsServers ∧
      (p.setExcludingPrivateIps true).Covered Config.inet4Net (·.getD 0)
        (Config.quadValue 10 0 0 1) ∧
      ¬ (p.CoveredApart Config.inet4Net (·.getD 0) blankConfig.interfaze.dnsServers
            (Config.quadValue 10 0 0 1) ∨
          ∀ q ∈ privateQuads, ¬ q.Has (Config.quadValue 10 0 0 1)) := by
  unfold PeerProxy.CoveredApart
  decide +kernel

end ConfigProxy

end Amnezia.Viewmodel
