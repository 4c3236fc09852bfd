import Amnezia.Config.Userspace
import Amnezia.Tools.ReachesKernel
import Amnezia.Tools.UapiRoundTrip

/-!
# The app's text protocol in `ipc-uapi.h`

What `toAwgUserspaceString` writes, given back as an answer, and what `userspace_get_device` reads
from it.
-/

namespace Amnezia.Tools

open Java (Text)
open Libc (Bytes utf8)
open Config (Interface Peer Net InetNetwork InetEndpoint NumberAttribute TextAttribute
  UserspaceLine Dns)

def userspaceField (l : UserspaceLine) : UapiField := (l.1, utf8 l.2)

theorem utf8_text {l : UserspaceLine} (h : (userspaceField l).OneLine) :
    utf8 l.text = (userspaceField l).line ++ ['\n'] := by
  have hkey : utf8 l.1.toList = l.1.toList := by
    apply Libc.utf8_of_ascii
    intro c hc
    exact (Java.lt_of_word (List.all_eq_true.1 h.key c hc)).2
  have hequals : utf8 ('=' :: l.2) = '=' :: utf8 l.2 := rfl
  unfold UserspaceLine.text UapiField.line userspaceField
  rw [Libc.utf8_append, Libc.utf8_append, hkey, hequals]
  rfl

theorem utf8_lines {ls : List UserspaceLine} (h : ∀ f ∈ ls.map userspaceField, f.OneLine) :
    utf8 (ls.flatMap UserspaceLine.text) =
      (ls.map userspaceField).flatMap fun f => f.line ++ ['\n'] := by
  induction ls with
  | nil => rfl
  | cons l ls ih =>
    rw [List.map_cons, List.forall_mem_cons] at h
    rw [List.flatMap_cons, Libc.utf8_append, utf8_text h.1, ih h.2]
    rfl

section Reads

variable {Addr : Type} {sys : Resolver Addr}

def ReadsText (sys : Resolver Addr) (d : WgDevice Addr) (ls : List UserspaceLine)
    (d' : WgDevice Addr) : Prop :=
  Reads sys d (ls.map userspaceField) d'

theorem ReadsText.append {d d' d'' : WgDevice Addr} {ls ls' : List UserspaceLine}
    (h₁ : ReadsText sys d ls d') (h₂ : ReadsText sys d' ls' d'') :
    ReadsText sys d (ls ++ ls') d'' := by
  unfold ReadsText
  rw [List.map_append]
  exact Reads.append h₁ h₂

theorem ReadsText.chains : Loops.Chains (ReadsText sys) where
  nil _ := Reads.nil
  append := ReadsText.append

theorem ReadsText.get {ls : List UserspaceLine} {d : WgDevice Addr} (h : ReadsText sys {} ls d) :
    userspaceGetDevice sys (utf8 (ls.flatMap UserspaceLine.text) ++ "errno=0\n\n".toList) =
      .ok d := by
  rw [utf8_lines h.oneLine]
  exact Reads.get h

-- A value that is plain ASCII is the same for the reader.
theorem ReadsText.of_utf8 {d d' : WgDevice Addr} {key : String} {value : Text}
    (hutf8 : utf8 value = value) (h : Reads sys d [(key, value)] d') :
    ReadsText sys d [(key, value)] d' := by
  have hfield : userspaceField (key, value) = (key, value) := congrArg (Prod.mk key) hutf8
  unfold ReadsText
  rw [List.map_cons, List.map_nil, hfield]
  exact h

theorem inLine_solid {t : Text} (h : Config.Attribute.Solid t) : InLine t := by
  constructor
  · intro hmem
    exact absurd (h.chars _ hmem) (by decide)
  · intro hmem
    exact absurd (h.chars _ hmem) (by decide)

theorem utf8_keyToHex (key : Crypto.Key) : utf8 (keyToHex key) = keyToHex key := by
  apply Libc.utf8_of_ascii
  intro c hc
  have hchar := Java.isAlphanum_iff.1 (isAlphanum_keyToHex hc)
  omega

theorem utf8_valueOf (n : Nat) : utf8 (Java.valueOf n) = Java.valueOf n :=
  utf8_solid (Config.Attribute.solid_valueOf n)

-- Both readers cut an endpoint in the same way.
theorem WgPeer.getField_endpoint {p : WgPeer Addr} {value : Bytes} {e : Addr × Nat}
    (h : parseEndpoint sys value = .ok e) :
    p.getField sys .endpoint value = .ok { p with endpoint := some e } := by
  unfold parseEndpoint at h
  split at h
  · cases h
  · next host port hcut =>
    split at h
    · next endpoint hinfo =>
      cases h
      simp only [WgPeer.getField, hcut, hinfo]
    · cases h

end Reads

section Interface

variable {Addr : Type} {sys : Resolver Addr} {net : Net Addr} {i : Interface Addr}

theorem userspaceNumbers_eq (i : Interface Addr) : NumberAttribute.all.flatMap i.userspaceNumber =
    ((i.number .listenPort).toList.map fun n => ("listen_port", Java.valueOf n))
      ++ UintParameter.all.flatMap fun p =>
        (i.number p.attribute).toList.map fun n => (p.uapiKey, Java.valueOf n) := by
  have hone : ∀ (a : NumberAttribute) key, a.userspaceKey = some key →
      i.userspaceNumber a = (i.number a).toList.map fun n => (key, Java.valueOf n) := by
    intro a key ha
    unfold Interface.userspaceNumber
    rw [ha, Option.toList_some, List.flatMap_singleton]
  have hall : NumberAttribute.all = [.listenPort, .mtu] ++ UintParameter.all.map UintParameter.attribute := rfl
  have huint : (fun p : UintParameter => i.userspaceNumber p.attribute) = fun p =>
      (i.number p.attribute).toList.map fun n => (p.uapiKey, Java.valueOf n) := by
    funext p
    exact hone p.attribute p.uapiKey (by cases p <;> rfl)
  rw [hall, List.flatMap_append, List.flatMap_map, huint, List.flatMap_cons,
    hone .listenPort "listen_port" rfl]
  -- the MTU has no line
  have hmtu : [NumberAttribute.mtu].flatMap i.userspaceNumber = [] := rfl
  rw [hmtu, List.append_nil]

theorem userspaceTexts_eq (i : Interface Addr) :
    (TextAttribute.all.flatMap fun a => (i.text a).toList.map fun t => (a.userspaceKey, t)) =
      StringParameter.all.flatMap fun p => (i.text p.attribute).toList.map fun t => (p.uapiKey, t) := by
  have hall : TextAttribute.all = StringParameter.all.map StringParameter.attribute := rfl
  have hkey : ∀ p : StringParameter, p.attribute.userspaceKey = p.uapiKey := by
    intro p
    cases p <;> rfl
  rw [hall, List.flatMap_map]
  simp only [hkey]

def interfaceDevice (i : Interface Addr) : WgDevice Addr where
  privateKey := some i.privateKey
  listenPort := (i.number .listenPort).map Int.toNat
  uint := Option.map Int.toNat ∘ fun p => i.number p.attribute
  string := Option.map (fun t => some (utf8 t)) ∘ fun p => i.text p.attribute

theorem ReadsText.interface (hi : i.Valid net)
    (hjunk : ∀ (p : UintParameter) n, i.number p.attribute = some n → n ≤ 65535)
    (hnul : ∀ a t, i.text a = some t → '\x00' ∉ t) :
    ReadsText sys {} i.userspaceLines (interfaceDevice i) := by
  have hchain : Loops.Chains (ReadsText sys) := ReadsText.chains
  have hprivate : ReadsText sys {} [("private_key", i.privateKey.toHex)]
      { privateKey := some i.privateKey } := by
    rw [toHex_eq]
    refine ReadsText.of_utf8 (utf8_keyToHex i.privateKey) (Reads.deviceKey rfl
      (fieldKey_uapiDeviceKeys ("private_key", .privateKey) (by simp [uapiDeviceKeys]))
      (inLine_keyToHex i.privateKey) ?_)
    simp only [WgDevice.getField, keyFromHex_keyToHex, Option.map_some]
  unfold Interface.userspaceLines
  rw [userspaceNumbers_eq, userspaceTexts_eq]
  -- the device as it is after each group of lines
  refine hchain.append (hprivate.append (hchain.append
    (hchain.option
      (fun o => { privateKey := some i.privateKey, listenPort := o.map Int.toNat }) ?_)
    (hchain.family UintParameter.mem_all (fun u =>
      { interfaceDevice i with uint := Option.map Int.toNat ∘ u, string := fun _ => none }) ?_)))
    (hchain.family StringParameter.mem_all (fun u =>
      { interfaceDevice i with string := Option.map (fun t => some (utf8 t)) ∘ u }) ?_)
  · intro n hn
    have hfits := hi.number .listenPort n hn
    obtain ⟨m, rfl⟩ := Int.eq_ofNat_of_zero_le (Int.le_of_lt hfits.1)
    have hport : m ≤ 65535 := by
      have hlarge := hfits.2.2
      simp only [NumberAttribute.tooLarge, decide_eq_false_iff_not] at hlarge
      omega
    refine ReadsText.of_utf8 (utf8_valueOf m) (Reads.deviceKey rfl
      (fieldKey_uapiDeviceKeys ("listen_port", .listenPort) (by simp [uapiDeviceKeys]))
      (inLine_valueOf m) ?_)
    simp only [WgDevice.getField, num_valueOf hport (by decide), Option.map_some, Int.toNat_natCast]
  · intro u p n hn
    have hfits := hi.number p.attribute n hn
    have hle := hjunk p n hn
    obtain ⟨m, rfl⟩ := Int.eq_ofNat_of_zero_le (Int.le_of_lt hfits.1)
    have hmax : m ≤ 65535 := by omega
    refine ReadsText.of_utf8 (utf8_valueOf m)
      (Reads.deviceKey rfl (fieldKey_uint p) (inLine_valueOf m) ?_)
    rw [Function.comp_update]
    simp only [WgDevice.getField, num_valueOf hmax (by decide), Option.map_some, Int.toNat_natCast]
  · intro u p t ht
    have hline : InLine (utf8 t) := by
      unfold InLine
      rw [Libc.mem_utf8_iff (by decide), Libc.mem_utf8_iff (by decide)]
      refine ⟨?_, hnul p.attribute t ht⟩
      intro hmem
      exact absurd ((hi.text p.attribute t ht).chars _ hmem) (by decide)
    rw [Function.comp_update]
    exact Reads.deviceKey rfl (fieldKey_string p) hline rfl

end Interface

section Peers

variable {Addr : Type} {sys : Resolver Addr} {net : Net Addr} {dns : Dns Addr}

def dropZeroKey (p : Peer Addr) : Peer Addr :=
  { p with preSharedKey := p.preSharedKey.filter fun key => !keyIsZero key }

def userspacePeer (net : Net Addr) (p : Peer Addr) : WgPeer Addr where
  publicKey := some p.publicKey
  presharedKey := p.preSharedKey.filter fun key => !keyIsZero key
  endpoint := p.endpoint.bind (wgEndpoint net)
  persistentKeepaliveInterval := p.persistentKeepalive.map Int.toNat
  allowedIps := p.allowedIps.toList.map (wgAllowedIp net)

theorem configuresPeer_userspacePeer {p : Peer Addr} (hp : p.Valid net)
    (hnum : ∀ e, p.endpoint = some e → e.isResolved = true) :
    ConfiguresPeer net (dropZeroKey p) (userspacePeer net p) where
  publicKey := rfl
  presharedKey := rfl
  noEndpoint h := by
    show p.endpoint.bind (wgEndpoint net) = none
    rw [show p.endpoint = none from h, Option.bind_none]
  endpoint e h := by
    have he : p.endpoint = some e := h
    obtain ⟨a, -, ha⟩ := numeric_host (hp.endpoint e he) (hnum e he)
    refine ⟨a, ha, ?_⟩
    show p.endpoint.bind (wgEndpoint net) = _
    rw [he, Option.bind_some, wgEndpoint, ha]
  allowedIps := rfl
  persistentKeepalive := rfl

variable (hnet : net.Documented) (hsys : sys.ReadsNumeric net)

include hnet hsys

theorem allowedIps_toString {ns : List (InetNetwork Addr)} (h : ∀ n ∈ ns, Config.MaskFits net n) :
    List.Forall₂ (fun text ip => InLine text ∧ getAllowedIp sys text = some ip)
      (ns.map (InetNetwork.toString net)) (ns.map (wgAllowedIp net)) := by
  rw [List.forall₂_map_left_iff, List.forall₂_map_right_iff, List.forall₂_same]
  intro n hn
  obtain ⟨m, hm, hslash, hcidr⟩ := maskFits_cidr hnet (h n hn)
  have htext : n.toString net = net.getHostAddress n.address ++ '/' :: Java.valueOf m := by
    rw [InetNetwork.toString, hm]
  have hip : wgAllowedIp net n = ⟨familyOf net n.address, n.address, m⟩ := by
    rw [wgAllowedIp, hm, Int.toNat_natCast]
  refine ⟨inLine_solid (InetNetwork.solid_toString hnet (h n hn).1), ?_⟩
  rw [htext, hip]
  exact getAllowedIp_text (parseIp_getHostAddress hsys n.address) hslash hcidr

theorem ReadsText.peer {d : WgDevice Addr} {p : Peer Addr} (hp : p.Valid net)
    (hnum : ∀ e, p.endpoint = some e → e.isResolved = true) :
    ReadsText sys d (p.userspaceLines net dns)
      { d with peers := d.peers ++ [userspacePeer net p] } := by
  have hchain : Loops.Chains (ReadsText sys) := ReadsText.chains
  let reading (q : WgPeer Addr) : WgDevice Addr := { d with peers := d.peers ++ [q] }
  -- the peer as it is after each group of lines
  have hpublic : ReadsText sys d [("public_key", p.publicKey.toHex)]
      (reading { publicKey := some p.publicKey }) := by
    rw [toHex_eq]
    exact ReadsText.of_utf8 (utf8_keyToHex p.publicKey) (Reads.publicKey p.publicKey)
  have hallowed : ReadsText sys (reading { publicKey := some p.publicKey })
      (p.allowedIps.toList.map fun n => ("allowed_ip", InetNetwork.toString net n))
      (reading { publicKey := some p.publicKey
                 allowedIps := p.allowedIps.toList.map (wgAllowedIp net) }) := by
    have hfields : (p.allowedIps.toList.map fun n =>
          (("allowed_ip", InetNetwork.toString net n) : UserspaceLine)).map userspaceField =
        (p.allowedIps.toList.map (InetNetwork.toString net)).map fun text => ("allowed_ip", text) := by
      rw [List.map_map, List.map_map]
      apply List.map_congr_left
      intro n hn
      exact congrArg (Prod.mk "allowed_ip")
        (utf8_solid (InetNetwork.solid_toString hnet (hp.allowedIps n hn).1))
    unfold ReadsText
    rw [hfields]
    exact Reads.allowedIps (allowedIps_toString hnet hsys hp.allowedIps)
  refine hchain.append (hchain.append (hchain.append (hpublic.append hallowed)
    (?_ : ReadsText sys _ _ (reading
      { userspacePeer net p with presharedKey := none, persistentKeepaliveInterval := none })))
    (hchain.option (fun o => reading
      { userspacePeer net p with
        presharedKey := none, persistentKeepaliveInterval := o.map Int.toNat }) ?_))
    (hchain.option (fun o => reading
      { userspacePeer net p with presharedKey := o.filter fun key => !keyIsZero key }) ?_)
  · unfold userspacePeer
    cases he : p.endpoint with
    | none => exact Reads.nil
    | some e =>
      -- a numeric endpoint is resolved by itself
      have hresolved : InetEndpoint.getResolved net dns e = some e := if_pos (hnum e he)
      obtain ⟨x, hx, hparse⟩ := parseEndpoint_toString hnet hsys (hp.endpoint e he) (hnum e he)
      have hsolid := InetEndpoint.solid_toString hnet (hp.endpoint e he)
      rw [Option.bind_some, Option.bind_some, hresolved, hx]
      exact ReadsText.of_utf8 (utf8_solid hsolid) (Reads.peerKey rfl
        (fieldKey_uapiPeerKeys ("endpoint", .endpoint) (by simp [uapiPeerKeys])) (by decide)
        (inLine_solid hsolid) (WgPeer.getField_endpoint hparse))
  · intro n hn
    have hfits := hp.persistentKeepalive n hn
    obtain ⟨m, rfl⟩ := Int.eq_ofNat_of_zero_le (Int.le_of_lt hfits.1)
    have hmax : m ≤ 65535 := by omega
    refine ReadsText.of_utf8 (utf8_valueOf m) (Reads.peerKey rfl
      (fieldKey_uapiPeerKeys ("persistent_keepalive_interval", .persistentKeepaliveInterval)
        (by simp [uapiPeerKeys])) (by decide) (inLine_valueOf m) ?_)
    simp only [WgPeer.getField, num_valueOf hmax (by decide), Option.map_some, Int.toNat_natCast]
  · intro key _
    rw [toHex_eq]
    refine ReadsText.of_utf8 (utf8_keyToHex key) (Reads.peerKey rfl
      (fieldKey_uapiPeerKeys ("preshared_key", .presharedKey) (by simp [uapiPeerKeys]))
      (by decide) (inLine_keyToHex key) ?_)
    simp only [WgPeer.getField, keyFromHex_keyToHex, Option.filter_some]
    cases keyIsZero key <;> rfl

theorem ReadsText.peers {d : WgDevice Addr} {ps : List (Peer Addr)} (hvalid : ∀ p ∈ ps, p.Valid net)
    (hnum : ∀ p ∈ ps, ∀ e, p.endpoint = some e → e.isResolved = true) :
    ReadsText sys d (ps.flatMap (Peer.userspaceLines net dns))
      { d with peers := d.peers ++ ps.map (userspacePeer net) } := by
  induction ps generalizing d with
  | nil =>
    rw [List.map_nil, List.append_nil]
    exact Reads.nil
  | cons p ps ih =>
    rw [List.forall_mem_cons] at hvalid hnum
    rw [List.flatMap_cons, List.map_cons, List.append_cons]
    exact (ReadsText.peer hnet hsys hvalid.1 hnum.1).append (ih hvalid.2 hnum.2)

end Peers

section Config

variable {Addr : Type} {sys : Resolver Addr} {net : Net Addr} [DecidableEq Addr]
  (hnet : net.Documented) (hsys : sys.ReadsNumeric net) (dns : Dns Addr)
  {text : Text} {c : Config Addr} (h : Config.parse net text = .ok c) (hnul : '\x00' ∉ text)
  (hnum : ∀ p ∈ c.peers, ∀ e, p.endpoint = some e → e.isResolved = true)

include hnet hsys h hnul hnum

theorem userspaceGetDevice_string
    (hjunk : ∀ (p : UintParameter) n, c.interfaze.number p.attribute = some n → n ≤ 65535) :
    userspaceGetDevice sys (utf8 (c.toAwgUserspaceString net dns) ++ "errno=0\n\n".toList) =
      .ok { interfaceDevice c.interfaze with peers := c.peers.map (userspacePeer net) } := by
  have hvalid := Config.valid_of_parse h
  have hinterface : ReadsText sys {} c.interfaze.userspaceLines (interfaceDevice c.interfaze) := by
    refine ReadsText.interface hvalid.1 hjunk ?_
    intro a t ht
    have hmem : t ∈ c.interfaze.entries net (.text a) := by
      rw [Config.Interface.entries_text, ht]
      exact List.mem_singleton_self t
    exact Config.notMem_entries hnet h (by decide) hnul hmem
  have hreplace : ReadsText sys (interfaceDevice c.interfaze) [("replace_peers", "true".toList)]
      (interfaceDevice c.interfaze) :=
    ReadsText.of_utf8 rfl (Reads.passedOver ⟨by decide, by decide⟩ (by decide))
  have hpeers : ReadsText sys (interfaceDevice c.interfaze)
      (c.peers.flatMap (Peer.userspaceLines net dns)) _ :=
    ReadsText.peers hnet hsys hvalid.2 hnum
  rw [Config.toAwgUserspaceString_eq]
  exact ((hinterface.append hreplace).append hpeers).get

/-- Every configuration that is parsed from a text without NUL, with numeric endpoints and 16-bit
junk parameters, is read back from the text for the userspace device, but for pre-shared keys of
zeros. -/
theorem userspaceString_configures
    (hjunk : ∀ (p : UintParameter) n, c.interfaze.number p.attribute = some n → n ≤ 65535) :
    ∃ d, userspaceGetDevice sys
        (utf8 (c.toAwgUserspaceString net dns) ++ "errno=0\n\n".toList) = .ok d
      ∧ Configures net { c with peers := c.peers.map dropZeroKey } d ∧ d.fwmark = none := by
  have hvalid := (Config.valid_of_parse h).2
  refine ⟨_, userspaceGetDevice_string hnet hsys dns h hnul hnum hjunk,
    ⟨rfl, rfl, fun p => rfl, fun p => rfl, ?_⟩, rfl⟩
  show List.Forall₂ (ConfiguresPeer net) (c.peers.map dropZeroKey) (c.peers.map (userspacePeer net))
  rw [List.forall₂_map_left_iff, List.forall₂_map_right_iff, List.forall₂_same]
  exact fun p hp => configuresPeer_userspacePeer (hvalid p hp) (hnum p hp)

end Config

def noDns : Dns (Fin 3) := ⟨fun _ => none, fun _ => (0, none)⟩

theorem userspaceString_kernelText : ∃ c, Config.parse kernelNet kernelText = .ok c
    ∧ c.peers.length = 1
    ∧ ∃ d, userspaceGetDevice kernelResolver
        (utf8 (c.toAwgUserspaceString kernelNet noDns) ++ "errno=0\n\n".toList) = .ok d
      ∧ Configures kernelNet { c with peers := c.peers.map dropZeroKey } d ∧ d.fwmark = none := by
  obtain ⟨c, hparse, hlength, hreadable, hnum⟩ := parse_kernelText
  exact ⟨c, hparse, hlength, userspaceString_configures kernelNet_documented
    kernelResolver_readsNumeric noDns hparse (by decide +kernel) hnum hreadable.junk⟩

section Agree

variable {Addr : Type} {sys : Resolver Addr} {net : Net Addr}

theorem samePeer_userspacePeer {p : Peer Addr} {q : WgPeer Addr} (hq : ConfiguresPeer net p q)
    (hp : ConfiguresPeer net (dropZeroKey p) (userspacePeer net p)) :
    SamePeer q (userspacePeer net p) where
  publicKey := hq.publicKey.symm
  presharedKey := by
    -- a key of zeros is none to one reader and a key to the other
    unfold WgPeer.psk userspacePeer
    rw [hq.presharedKey]
    cases p.preSharedKey with
    | none => rfl
    | some key =>
      rw [Option.filter_some]
      cases hzero : keyIsZero key with
      | false => rfl
      | true =>
        rw [keyIsZero_iff.1 hzero]
        rfl
  endpoint := by
    cases he : p.endpoint with
    | none => rw [hp.noEndpoint he, hq.noEndpoint he]
    | some e =>
      obtain ⟨a, ha, hfrom⟩ := hq.endpoint e he
      obtain ⟨b, hb, hto⟩ := hp.endpoint e he
      cases ha.symm.trans hb
      rw [hfrom, hto]
  keepalive := hq.persistentKeepalive.symm
  allowedIps := hq.allowedIps.symm

theorem Printed.device_fwmark (d : Printed Addr) : (d.device net).fwmark = some 0 := by
  have hinit : (configReadInit false : ConfigCtx Addr).device.fwmark = some 0 := rfl
  refine List.foldlRecOn d.attributes (deviceAfter d.interfaze)
    (motive := fun e => e.fwmark = some 0) hinit ?_
  intro e he a _
  unfold deviceAfter
  split
  · next k _ => cases k <;> exact he
  · exact he

/-- Whatever reaches the kernel through the file for `awg-quick` is the device that the text for
the userspace implementation gives, but for the mark, which only the file takes back: it does not
matter which of the two backends runs a tunnel. -/
theorem backends_sameDevice [DecidableEq Addr] (hnet : net.Documented)
    (hsys : sys.ReadsNumeric net) (dns : Dns Addr) {text : Text} {c : Config Addr}
    (h : Config.parse net text = .ok c) (hnul : '\x00' ∉ text)
    (hnum : ∀ p ∈ c.peers, ∀ e, p.endpoint = some e → e.isResolved = true)
    (hreach : ReachesKernel sys net c) :
    ∃ config d d', (parseOptions (utf8 (c.toAwgQuickString net))).config = some config
      ∧ readConfig sys config = .ok d
      ∧ userspaceGetDevice sys (utf8 (c.toAwgUserspaceString net dns) ++ "errno=0\n\n".toList) =
        .ok d'
      ∧ d.fwmark = some 0 ∧ SameDevice { d with fwmark := none } d' := by
  have hgood := Printed.good_ofConfig hnet h hnul hnum
  have hfits := fits_of_reachesKernel hnet hgood hsys hreach
  have hjunk := ((reachesKernel_of_fits hnet hgood hsys hfits).1 hreach).2.1.1
  obtain ⟨-, config, d, hconfig, hread, hconfigures⟩ := hreach
  have hmark : d.fwmark = some 0 := by
    rw [(parseOptions_of_fits hnet hgood hfits).1] at hconfig
    cases hconfig
    obtain ⟨-, rfl⟩ := (readConfig_left hnet hgood hsys).1 hread
    exact Printed.device_fwmark _
  have hvalid := (Config.valid_of_parse h).2
  refine ⟨config, d, _, hconfig, hread, userspaceGetDevice_string hnet hsys dns h hnul hnum hjunk,
    hmark, hconfigures.privateKey.symm, hconfigures.listenPort.symm, rfl, ?_, ?_, ?_⟩
  · funext p
    exact (hconfigures.uint p).symm
  · funext p
    exact (hconfigures.string p).symm
  · show List.Forall₂ SamePeer d.peers (c.peers.map (userspacePeer net))
    have hboth := (List.forall₂_and_left _ _).2 ⟨fun p hp => hp, hconfigures.peers⟩
    rw [List.forall₂_map_right_iff]
    apply List.Forall₂.flip
    apply hboth.imp
    intro p q ⟨hp, hq⟩
    exact samePeer_userspacePeer hq (configuresPeer_userspacePeer (hvalid p hp) (hnum p hp))

end Agree

theorem backends_sameDevice_kernelText : ∃ c config d d',
    Config.parse kernelNet kernelText = .ok c
      ∧ (parseOptions (utf8 (c.toAwgQuickString kernelNet))).config = some config
      ∧ readConfig kernelResolver config = .ok d
      ∧ userspaceGetDevice kernelResolver
        (utf8 (c.toAwgUserspaceString kernelNet noDns) ++ "errno=0\n\n".toList) = .ok d'
      ∧ d.fwmark = some 0 ∧ SameDevice { d with fwmark := none } d' := by
  obtain ⟨c, hparse, -, hreadable, hnum⟩ := parse_kernelText
  have hnul : '\x00' ∉ kernelText := by decide +kernel
  have hgood := Printed.good_ofConfig kernelNet_documented hparse hnul hnum
  have hreach := (readable_iff kernelNet_documented hgood kernelResolver_readsNumeric).2 hreadable
  obtain ⟨config, d, d', hsame⟩ := backends_sameDevice kernelNet_documented
    kernelResolver_readsNumeric noDns hparse hnul hnum hreach
  exact ⟨c, config, d, d', hparse, hsame⟩

end Amnezia.Tools
