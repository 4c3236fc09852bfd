import Amnezia.Tools.Numeric
import Mathlib.Data.List.Forall2

/-!
# A device through the text protocol

What `userspace_set_device` writes, given back as an answer, and what `userspace_get_device` reads
from it.
-/

namespace Amnezia.Tools

open Crypto (Key)
open Libc (Bytes)

section Statement

variable {Addr : Type} {d : WgDevice Addr}

def WgPeer.psk (p : WgPeer Addr) : Key := p.presharedKey.getD zeroKey

/-- The peers are the same, but for what a request does with them. -/
structure SamePeer (p p' : WgPeer Addr) : Prop where
  publicKey : p'.publicKey = p.publicKey
  presharedKey : p'.psk = p.psk
  endpoint : p'.endpoint = p.endpoint
  keepalive : p'.persistentKeepaliveInterval = p.persistentKeepaliveInterval
  allowedIps : p'.allowedIps = p.allowedIps

/-- The devices are the same, but for what a request does with the peers. -/
structure SameDevice (d d' : WgDevice Addr) : Prop where
  privateKey : d'.privateKey = d.privateKey
  listenPort : d'.listenPort = d.listenPort
  fwmark : d'.fwmark = d.fwmark
  uint : d'.uint = d.uint
  string : d'.string = d.string
  peers : List.Forall₂ SamePeer d.peers d'.peers

/-- A request as an answer: without the line `set=1`, and with `errno=0` before the empty line. -/
def asReply (request : Bytes) : Bytes :=
  (request.drop "set=1\n".length).dropLast ++ "errno=0\n\n".toList

theorem asReply_userspaceSetDevice {names : Namer Addr} (h : (peersFields names d.peers).2 = true) :
    asReply (userspaceSetDevice names d) =
      (setFields names d).flatMap (fun f => f.line ++ ['\n']) ++ "errno=0\n\n".toList := by
  have hlength : "set=1\n".length = "set=1\n".toList.length := rfl
  unfold asReply userspaceSetDevice
  rw [h, if_pos rfl, hlength, List.append_assoc, List.drop_left, List.dropLast_concat]

end Statement

section Device

variable {Addr : Type} {names : Namer Addr} {sys : Resolver Addr} {d : WgDevice Addr}

theorem Reads.deviceFields (hd : DeviceRead sys d) (hport : ∀ n ∈ d.listenPort, n ≤ 65535)
    (hstrings : ∀ p, ∀ t ∈ d.string p, ∃ s, t = some s ∧ InLine s) :
    Reads sys {} (Tools.deviceFields d) { d with replacePeers := false, peers := [] } := by
  have hchain : Loops.Chains (Reads sys) := Reads.chains
  let done : WgDevice Addr := { d with replacePeers := false, peers := [] }
  -- the device as it is after each group of fields
  refine hchain.append (hchain.append (hchain.append (hchain.append (hchain.append
    (hchain.option (fun o => { privateKey := o }) ?_)
    (hchain.option (fun o => { privateKey := d.privateKey, listenPort := o }) ?_))
    (hchain.option (fun o => { done with fwmark := o, uint := fun _ => none, string := fun _ => none }) ?_)) ?_)
    (hchain.family UintParameter.mem_all (fun u => { done with uint := u, string := fun _ => none }) ?_))
    (hchain.family StringParameter.mem_all (fun u => { done with string := u }) ?_)
  · intro key _
    refine .deviceKey rfl (fieldKey_uapiDeviceKeys ("private_key", .privateKey) (by simp [uapiDeviceKeys]))
      (inLine_keyToHex key) ?_
    simp only [WgDevice.getField, keyFromHex_keyToHex, Option.map_some]
  · intro n hn
    refine .deviceKey rfl (fieldKey_uapiDeviceKeys ("listen_port", .listenPort) (by simp [uapiDeviceKeys]))
      (inLine_valueOf n) ?_
    simp only [WgDevice.getField, num_valueOf (hport n hn) (by decide), Option.map_some]
  · intro n hn
    refine .deviceKey rfl (fieldKey_uapiDeviceKeys ("fwmark", .fwMark) (by simp [uapiDeviceKeys]))
      (inLine_valueOf n) ?_
    simp only [WgDevice.getField, num_valueOf (hd.fwmark n hn) (by decide), Option.map_some]
  · split
    · exact .passedOver ⟨by decide, by decide⟩ (by decide)
    · exact .nil
  · intro u p n hn
    refine .deviceKey rfl (fieldKey_uint p) (inLine_valueOf n) ?_
    simp only [WgDevice.getField, num_valueOf (hd.uint p n hn) (by decide), Option.map_some]
  · intro u p t ht
    obtain ⟨s, rfl, hs⟩ := hstrings p t ht
    exact .deviceKey rfl (fieldKey_string p) hs rfl

def WgPeer.readBack (p : WgPeer Addr) : WgPeer Addr where
  publicKey := some p.key
  presharedKey := p.presharedKey.filter fun key => !keyIsZero key
  endpoint := p.endpoint
  persistentKeepaliveInterval := p.persistentKeepaliveInterval
  allowedIps := p.allowedIps

theorem samePeer_readBack {p : WgPeer Addr} (h : p.publicKey.isSome = true) :
    SamePeer p p.readBack := by
  refine ⟨?_, ?_, rfl, rfl, rfl⟩
  · obtain ⟨key, hkey⟩ := Option.isSome_iff_exists.1 h
    rw [hkey]
    simp only [WgPeer.readBack, WgPeer.key, hkey, Option.getD_some]
  · unfold WgPeer.psk WgPeer.readBack
    cases p.presharedKey with
    | none => rfl
    | some key =>
      rw [Option.filter_some]
      cases hzero : keyIsZero key with
      | false => rfl
      | true => exact (keyIsZero_iff.1 hzero).symm

section Peers

variable (hinv : names.Inverse sys)
include hinv

theorem allowedIps_texts {ips : List (WgAllowedIp Addr)} (h : ∀ ip ∈ ips, IpRead sys ip) :
    List.Forall₂ (fun text ip => InLine text ∧ getAllowedIp sys text = some ip)
      (ips.filterMap (allowedIpText names)) ips := by
  induction ips with
  | nil => exact .nil
  | cons ip ips ih =>
    have hip := h ip List.mem_cons_self
    obtain ⟨text, htext, hread, hchars⟩ := allowedIpText_read hinv hip
    have hslash : '/' ∉ text := fun hmem => absurd (hchars _ hmem) (by decide)
    have hline : InLine (text ++ '/' :: Java.valueOf ip.cidr) := by
      have htext := inLine_of_plain fun c hc => plain_of_addressChar (hchars c hc)
      have hcidr := inLine_valueOf ip.cidr
      unfold InLine
      simp only [List.mem_append, List.mem_cons, not_or]
      exact ⟨⟨htext.1, by decide, hcidr.1⟩, ⟨htext.2, by decide, hcidr.2⟩⟩
    rw [List.filterMap_cons_some htext]
    exact .cons ⟨hline, getAllowedIp_text hread hslash hip.cidr⟩
      (ih fun ip hip => h ip (List.mem_cons_of_mem _ hip))

theorem Reads.peerFields {p : WgPeer Addr} (hp : PeerRead sys p) (hremove : p.removeMe = false) :
    Reads sys d (Tools.peerFields names p) { d with peers := d.peers ++ [p.readBack] } := by
  have hchain : Loops.Chains (Reads sys) := Reads.chains
  let reading (q : WgPeer Addr) : WgDevice Addr := { d with peers := d.peers ++ [q] }
  have hallowed : Reads sys (reading { p.readBack with allowedIps := [] })
      ((p.allowedIps.filterMap (allowedIpText names)).map fun text => ("allowed_ip", text))
      (reading p.readBack) :=
    Reads.allowedIps (allowedIps_texts hinv hp.allowedIps)
  unfold Tools.peerFields
  rw [hremove, if_neg (by decide)]
  -- the peer as it is after each group of fields
  refine (Reads.publicKey p.key).cons (hchain.append (hchain.append (hchain.append (hchain.append
    (hchain.option (fun o => reading
      { publicKey := some p.key, presharedKey := o.filter fun key => !keyIsZero key }) ?_)
    (?_ : Reads sys _ _ (reading
      { p.readBack with persistentKeepaliveInterval := none, allowedIps := [] })))
    (hchain.option (fun o => reading
      { p.readBack with persistentKeepaliveInterval := o, allowedIps := [] }) ?_)) ?_) hallowed)
  · intro key _
    refine .peerKey rfl (fieldKey_uapiPeerKeys ("preshared_key", .presharedKey) (by simp [uapiPeerKeys]))
      (by decide) (inLine_keyToHex key) ?_
    simp only [WgPeer.getField, keyFromHex_keyToHex, Option.filter_some]
    cases keyIsZero key <;> rfl
  · unfold WgPeer.readBack
    cases he : p.endpoint with
    | none => exact .nil
    | some e =>
      obtain ⟨node, service, hgives⟩ := hp.endpoint e he
      obtain ⟨text, host, port, htext, hsplit, hread, hplain⟩ := endpointText_read hinv hgives
      rw [Option.bind_some, htext]
      refine .peerKey rfl (fieldKey_uapiPeerKeys ("endpoint", .endpoint) (by simp [uapiPeerKeys]))
        (by decide) (inLine_of_plain hplain) ?_
      simp only [WgPeer.getField, hsplit, hread]
  · intro n hn
    refine .peerKey rfl (fieldKey_uapiPeerKeys
      ("persistent_keepalive_interval", .persistentKeepaliveInterval) (by simp [uapiPeerKeys]))
      (by decide) (inLine_valueOf n) ?_
    simp only [WgPeer.getField, num_valueOf (hp.keepalive n hn) (by decide)]
  · split
    · exact .passedOver ⟨by decide, by decide⟩ (by decide)
    · exact .nil

theorem Reads.peersFields {ps : List (WgPeer Addr)} (hread : ∀ p ∈ ps, PeerRead sys p)
    (hawg : ∀ p ∈ ps, p.awg = none) (hremove : ∀ p ∈ ps, p.removeMe = false) :
    Reads sys d (Tools.peersFields names ps).1 { d with peers := d.peers ++ ps.map WgPeer.readBack }
      ∧ (Tools.peersFields names ps).2 = true := by
  induction ps generalizing d with
  | nil =>
    rw [List.map_nil, List.append_nil]
    exact ⟨.nil, rfl⟩
  | cons p ps ih =>
    rw [List.forall_mem_cons] at hread hawg hremove
    obtain ⟨hrest, hcomplete⟩ := ih hread.2 hawg.2 hremove.2
      (d := { d with peers := d.peers ++ [p.readBack] })
    have hawg' : ¬p.awg.isSome = true := by
      rw [hawg.1]
      decide
    rw [Tools.peersFields, if_neg hawg', List.map_cons, List.append_cons]
    exact ⟨(Reads.peerFields hinv hread.1 hremove.1).append hrest, hcomplete⟩

end Peers

/-- For every device of a file or a command line, without advanced security and removed peers, and
where printing and reading of numeric addresses are inverse: the request read back as an answer is
the same device iff its strings are not `NULL` and have no line feed. -/
theorem userspace_roundTrip_iff (hinv : names.Inverse sys) {files : Bytes → Option Bytes}
    {d : WgDevice Addr} (hd : Produced sys files d) (hawg : ∀ p ∈ d.peers, p.awg = none)
    (hremove : ∀ p ∈ d.peers, p.removeMe = false) :
    (∃ d', userspaceGetDevice sys (asReply (userspaceSetDevice names d)) = .ok d' ∧ SameDevice d d')
      ↔ ∀ p, ∀ t ∈ d.string p, ∃ s, t = some s ∧ '\n' ∉ s := by
  have hread := hd.configured
  constructor
  · rintro ⟨d', hget, hsame⟩
    rw [← hsame.string]
    exact userspaceGetDevice_strings hget
  · intro hstrings
    obtain ⟨hpeers, hcomplete⟩ := Reads.peersFields hinv hread.peers hawg hremove
      (d := { d with replacePeers := false, peers := [] })
    have hdevice := Reads.deviceFields hread.toDeviceRead
      (fun n hn => (hread.listenPort n hn).elim fun s hs => hinv.port s n hs) (by
        intro p t ht
        obtain ⟨s, rfl, hs⟩ := hstrings p t ht
        exact ⟨s, rfl, hs, hread.nul p s ht⟩)
    refine ⟨{ d with replacePeers := false, peers := d.peers.map WgPeer.readBack }, ?_, ?_⟩
    · rw [asReply_userspaceSetDevice hcomplete]
      exact (hdevice.append hpeers).get
    · refine ⟨rfl, rfl, rfl, rfl, rfl, ?_⟩
      simp only [List.forall₂_map_right_iff, List.forall₂_same]
      exact fun p hp => samePeer_readBack (hread.publicKeys p hp)

end Device

theorem userspace_roundTrip_pairFile : ∃ d, configRead pairResolver false pairFile = .ok d
    ∧ d.peers.length = 1
    ∧ ∃ d', userspaceGetDevice pairResolver (asReply (userspaceSetDevice pairNamer d)) = .ok d'
      ∧ SameDevice d d' := by
  obtain ⟨d, hread, hlength, hpeers⟩ := configRead_pairFile
  have hd : Produced pairResolver (fun _ => none) d := .file false pairFile hread
  have hstrings : ∀ p, ∀ t ∈ d.string p, ∃ s, t = some s ∧ '\n' ∉ s := by
    intro p t ht
    obtain ⟨s, hs, hkept⟩ := configRead_kept hread p t ht
    exact ⟨s, hs, hkept.newline⟩
  exact ⟨d, hread, hlength, (userspace_roundTrip_iff pairNamer_inverse hd
    (fun p hp => (hpeers p hp).1) (fun p hp => (hpeers p hp).2)).2 hstrings⟩

/-- The command `awg set awg0 i1 $'a\nb'`. -/
theorem userspace_lineFeed :
    let d : WgDevice Bool := { string := Function.update (fun _ => none) .i1 (some (some "a\nb".toList)) }
    configReadCmd pairResolver (fun _ => none) {} ["i1".toList, "a\nb".toList] = .ok d
      ∧ userspaceGetDevice pairResolver (asReply (userspaceSetDevice pairNamer d)) = .error .proto :=
  ⟨rfl, rfl⟩

end Amnezia.Tools
