import Amnezia.Tools.PrintedConfig

/-!
# Printed peers in `config.c`

What `config_read_line` makes of one line of a peer, when the endpoint is a numeric address.
-/

namespace Amnezia.Tools

open Java (Text)
open Crypto (Key)
open Libc (Bytes utf8)
open Config (PeerAttribute Peer Net InetNetwork InetEndpoint)

section Peers

variable {Addr : Type} {sys : Resolver Addr} (net : Net Addr)

def familyOf (a : Addr) : Family := if net.isInet4 a then .inet else .inet6

def wgAllowedIp (n : InetNetwork Addr) : WgAllowedIp Addr :=
  ⟨familyOf net n.address, n.address, n.mask.toNat⟩

def wgEndpoint (e : InetEndpoint) : Option (Addr × Nat) :=
  match Config.InetAddresses.parse net e.host with
  | .ok a => some (a, e.port.toNat)
  | .error _ => none

def WgPeer.setAttribute (p : Peer Addr) (q : WgPeer Addr) : PeerAttribute → WgPeer Addr
  | .allowedIps =>
    let ips := p.allowedIps.toList.map (wgAllowedIp net)
    { q with allowedIps := q.allowedIps ++ ips, replaceAllowedIps := true }
  | .endpoint => { q with endpoint := p.endpoint.bind (wgEndpoint net) }
  | .persistentKeepalive =>
    { q with persistentKeepaliveInterval := p.persistentKeepalive.map Int.toNat }
  | .preSharedKey => { q with presharedKey := p.preSharedKey }
  | .publicKey => { q with publicKey := some p.publicKey }

variable {net}

theorem maxCidr_familyOf (a : Addr) :
    ((familyOf net a).maxCidr : Int) = InetNetwork.maxMask net a := by
  unfold familyOf InetNetwork.maxMask
  split <;> rfl

section Numeric

variable (hnet : net.Documented) (hsys : sys.ReadsNumeric net)

include hnet hsys

omit hnet in
theorem parseIp_getHostAddress (a : Addr) :
    parseIp sys (net.getHostAddress a) = .ok (familyOf net a, a) := by
  unfold parseIp familyOf
  cases h : net.isInet4 a with
  | true =>
    have hread := hsys.inet4 a h
    rw [if_neg hread.1, hread.2]
    rfl
  | false =>
    have hread := hsys.inet6 a h
    rw [if_pos hread.1, hread.2]
    rfl

omit hsys in
theorem maskFits_cidr {n : InetNetwork Addr} (h : Config.MaskFits net n) :
    ∃ m : Nat, n.mask = m ∧ '/' ∉ net.getHostAddress n.address ∧
      m ≤ (familyOf net n.address).maxCidr := by
  obtain ⟨m, hm⟩ := Int.eq_ofNat_of_zero_le h.1
  have hslash : '/' ∉ net.getHostAddress n.address := by
    intro hmem
    exact (Config.hostChar_iff.1 (hnet.getHostAddress_chars n.address _ hmem)).2.1 rfl
  have hcidr : m ≤ (familyOf net n.address).maxCidr := by
    have hmax := h.2
    rw [← maxCidr_familyOf, hm] at hmax
    exact Int.ofNat_le.1 hmax
  exact ⟨m, hm, hslash, hcidr⟩

theorem parseAllowedIp_toString {n : InetNetwork Addr} (h : Config.MaskFits net n) :
    parseAllowedIp sys (n.toString net) = .ok (wgAllowedIp net n) := by
  obtain ⟨m, hm, hslash, hcidr⟩ := maskFits_cidr hnet h
  unfold InetNetwork.toString wgAllowedIp
  rw [hm, parseAllowedIp_text (parseIp_getHostAddress hsys _) hslash hcidr]
  rfl

theorem parseAllowedIps_toString {ns : List (InetNetwork Addr)} (hne : ns ≠ [])
    (h : ∀ n ∈ ns, Config.MaskFits net n) :
    parseAllowedIps sys (squeezeAll (ns.map (InetNetwork.toString net))) =
      .ok (ns.map (wgAllowedIp net)) := by
  have hsolid : ∀ t ∈ ns.map (InetNetwork.toString net), Config.Attribute.Solid t := by
    intro t ht
    obtain ⟨n, hn, rfl⟩ := List.mem_map.1 ht
    exact InetNetwork.solid_toString hnet (h n hn).1
  have hnil := squeezeAll_solid_ne_nil (by simpa using hne) hsolid
  have hmap : (ns.map (InetNetwork.toString net)).mapM (parseAllowedIp sys) =
      .ok (ns.map (wgAllowedIp net)) := by
    clear hnil hne hsolid
    induction ns with
    | nil => rfl
    | cons n ns ih =>
      rw [List.map_cons, List.mapM_cons, parseAllowedIp_toString hnet hsys (h n (by simp)),
        ih (fun n' hn' => h n' (by simp [hn']))]
      rfl
  rw [squeezeAll_solid hsolid] at hnil ⊢
  exact parseAllowedIps_intercalate (by simpa using hne) hnil (fun t ht => (hsolid t ht).token.comma) hmap

omit hnet hsys in
theorem numeric_host {e : InetEndpoint} (he : e.Valid net) (hnum : e.isResolved = true) :
    ∃ a, net.parseNumericAddress e.host = some a ∧
      Config.InetAddresses.parse net e.host = .ok a := by
  have hresolved := he.isResolved
  rw [hnum] at hresolved
  unfold Config.InetAddresses.parse at hresolved ⊢
  split at hresolved
  · cases hresolved
  · next hne =>
    rw [if_neg hne]
    cases hparse : net.parseNumericAddress e.host with
    | none =>
      rw [hparse] at hresolved
      cases hresolved
    | some a => exact ⟨a, rfl, rfl⟩

theorem parseEndpoint_toString {e : InetEndpoint} (he : e.Valid net) (hnum : e.isResolved = true) :
    ∃ x, wgEndpoint net e = some x ∧ parseEndpoint sys e.toString = .ok x := by
  obtain ⟨text, huri⟩ := he.uri
  obtain ⟨m, hm⟩ := Int.eq_ofNat_of_zero_le he.port_nonneg
  have hport : m ≤ 65535 := by
    have := he.port_le
    omega
  obtain ⟨a, ha⟩ := numeric_host he hnum
  have hdigits : Java.valueOf m ≠ [] := Java.valueOf_ne_nil m
  have hcolon : ':' ∉ Java.valueOf m := by
    intro h
    exact absurd (Java.isDigit_of_mem_valueOf h) (by decide)
  refine ⟨(a, m), ?_, ?_⟩
  · unfold wgEndpoint
    rw [ha.2, hm]
    rfl
  · unfold parseEndpoint
    rw [InetEndpoint.toString_eq hnet he, hm]
    rcases hsys.uri_host huri with hplain | ⟨h, hhost, hbracket⟩
    · -- cut at the last colon
      have hcut : splitEndpoint (e.host ++ ':' :: Java.valueOf m) =
          some (e.host, Java.valueOf m) :=
        splitEndpoint_plain (fun h => hplain (List.mem_of_mem_head? h)) hdigits hcolon
      rw [hcut]
      simp only [hsys.numericHost ha.1 hplain hport]
    · have hcut : splitEndpoint (e.host ++ ':' :: Java.valueOf m) = some (h, Java.valueOf m) := by
        rw [hhost]
        show splitEndpoint ('[' :: (h ++ [']'] ++ ':' :: Java.valueOf m)) = _
        rw [List.append_assoc, List.singleton_append]
        exact splitEndpoint_bracketed hbracket hdigits
      rw [hhost] at ha
      rw [hcut]
      simp only [hsys.bracketedHost ha.1 hport]

omit hsys in
theorem cleanConfigLine_peer {p : Peer Addr} (hp : p.Valid net) (a : PeerAttribute) :
    cleanConfigLine (fileLine (p.attributeLine net a)) =
      a.key ++ '=' :: squeezeAll (p.entries net a) := by
  have hchars : ∀ c ∈ Config.Attribute.join (p.entries net a), Config.Attribute.valueChar c = true :=
    valueChar_join fun t ht => (Peer.solid_entries hnet hp ht).token.chars
  exact cleanConfigLine_squeeze a.key_word (by cases a <;> decide) (by cases a <;> decide) hchars

theorem setKey_peer {p : Peer Addr} (hp : p.Valid net)
    (hnum : ∀ e, p.endpoint = some e → e.isResolved = true) {a : PeerAttribute}
    (ha : p.entries net a ≠ []) (q : WgPeer Addr) :
    q.setKey sys (peerKey a) (squeezeAll (p.entries net a)) = .ok (q.setAttribute net p a) := by
  cases a with
  | allowedIps =>
    have hne : p.allowedIps.toList ≠ [] := by
      intro hnil
      exact ha (by unfold Peer.entries; simp [hnil])
    show (parseAllowedIps sys (squeezeAll (p.allowedIps.toList.map (InetNetwork.toString net)))).map
      _ = _
    rw [parseAllowedIps_toString hnet hsys hne hp.allowedIps]
    rfl
  | endpoint =>
    cases he : p.endpoint with
    | none => exact absurd (by unfold Peer.entries; simp [he]) ha
    | some e =>
      obtain ⟨x, hx, hparse⟩ := parseEndpoint_toString hnet hsys (hp.endpoint e he) (hnum e he)
      have hvalue : squeezeAll (p.entries net .endpoint) = e.toString := by
        show squeezeAll (p.endpoint.toList.map InetEndpoint.toString) = _
        rw [he]
        show squeezeAll [e.toString] = _
        rw [squeezeAll_singleton,
          squeeze_solid (InetEndpoint.solid_toString hnet (hp.endpoint e he))]
      rw [hvalue]
      show (parseEndpoint sys e.toString).map _ = .ok { q with endpoint := p.endpoint.bind _ }
      rw [hparse, he, Option.bind_some, hx]
      rfl
  | persistentKeepalive =>
    cases hk : p.persistentKeepalive with
    | none => exact absurd (by unfold Peer.entries; simp [hk]) ha
    | some n =>
      have hfits := hp.persistentKeepalive n hk
      obtain ⟨m, rfl⟩ := Int.eq_ofNat_of_zero_le (Int.le_of_lt hfits.1)
      have hvalue : squeezeAll (p.entries net .persistentKeepalive) = Java.valueOf m := by
        show squeezeAll (p.persistentKeepalive.toList.map Java.valueOf) = _
        rw [hk]
        show squeezeAll [Java.valueOf m] = _
        rw [squeezeAll_singleton, squeeze_solid (Config.Attribute.solid_valueOf m)]
      rw [hvalue]
      show (parsePersistentKeepalive (Java.valueOf m)).map _ =
        .ok { q with persistentKeepaliveInterval := p.persistentKeepalive.map Int.toNat }
      rw [parsePersistentKeepalive_valueOf (by omega), hk]
      rfl
  | preSharedKey =>
    cases hk : p.preSharedKey with
    | none => exact absurd (by unfold Peer.entries; simp [hk]) ha
    | some key =>
      have hvalue : squeezeAll (p.entries net .preSharedKey) = key.toBase64 := by
        show squeezeAll (p.preSharedKey.toList.map Key.toBase64) = _
        rw [hk]
        show squeezeAll [key.toBase64] = _
        rw [squeezeAll_singleton, squeeze_solid (Config.solid_toBase64 key)]
      rw [hvalue]
      show (parseKey key.toBase64).map _ = .ok { q with presharedKey := p.preSharedKey }
      rw [parseKey_toBase64, hk]
      rfl
  | publicKey =>
    show (parseKey (squeezeAll [p.publicKey.toBase64])).map _ = _
    rw [squeezeAll_singleton, squeeze_solid (Config.solid_toBase64 _), parseKey_toBase64]
    rfl

theorem configReadLine_peer {p : Peer Addr} (hp : p.Valid net)
    (hnum : ∀ e, p.endpoint = some e → e.isResolved = true) {a : PeerAttribute}
    (ha : p.entries net a ≠ []) {ctx : ConfigCtx Addr} (hdevice : ctx.isDeviceSection = false)
    (hpeer : ctx.isPeerSection = true) {done : List (WgPeer Addr)} {q : WgPeer Addr}
    (hpeers : ctx.device.peers = done ++ [q]) :
    configReadLine sys ctx (fileLine (p.attributeLine net a)) =
      .ok { ctx with device := { ctx.device with peers := done ++ [q.setAttribute net p a] } } := by
  rw [configReadLine_of_clean (by simp) (cleanConfigLine_peer hnet hp a),
    processLine_peer hdevice hpeer hpeers a
      (squeezeAll_solid_ne_nil ha fun _ => Peer.solid_entries hnet hp),
    setKey_peer hnet hsys hp hnum ha]
  rfl

end Numeric

end Peers

end Amnezia.Tools
