import Amnezia.Lib.Loops
import Amnezia.Tools.Config

/-!
# What a file gives

The values that a device holds once a configuration file is read: each went through the parser of
its key, and the strings have only what the cleaning of a line leaves.
-/

namespace Amnezia.Tools

open Crypto (Key)
open Libc

/-! ## Keys -/

variable {key w : Bytes}

theorem getValue_key {name : Bytes} (hkey : '=' ∉ key) (hname : '=' ∉ name) (hw : w ≠ []) :
    getValue (key ++ '=' :: w) (name ++ ['=']) =
      if sameNoCase key name then some w else none := by
  have hpos := List.length_pos_of_ne_nil hw
  unfold getValue
  rw [startsNoCase_key hkey hname]
  cases h : sameNoCase key name with
  | false =>
    simp only [Bool.false_eq_true, if_false, ite_self]
  | true =>
    have hlength := length_eq_of_sameNoCase h
    rw [if_neg, if_pos rfl, drop_key h, if_pos rfl]
    simp only [List.length_append, List.length_cons, List.length_nil]
    omega

theorem keyMatch_key {K : Type} {keys : List (String × K)} (hnames : ∀ k ∈ keys, '=' ∉ k.1.toList)
    (hkey : '=' ∉ key) (hw : w ≠ []) {k : String × K}
    (hfilter : (keys.filter fun k => sameNoCase key k.1.toList) = [k]) :
    keyMatch keys (key ++ '=' :: w) = some (k.2, w) := by
  have hfind : keyMatch keys (key ++ '=' :: w) =
      (keys.filter fun k => sameNoCase key k.1.toList).findSome? fun k => some (k.2, w) := by
    unfold keyMatch
    apply Loops.findSome?_filter
    intro k hk
    rw [getValue_key hkey (hnames k hk) hw]
    split <;> rfl
  rw [hfind, hfilter]
  rfl

theorem deviceKeys_names : ∀ k ∈ deviceKeys, '=' ∉ k.1.toList := by decide

theorem peerKeys_names : ∀ k ∈ peerKeys, '=' ∉ k.1.toList := by decide

variable {line v : Bytes}

theorem getValue_eq_some {name : Bytes} (h : getValue line (name ++ ['=']) = some v) :
    ∃ key, line = key ++ '=' :: v ∧ sameNoCase key name = true ∧ v ≠ [] := by
  unfold getValue at h
  split at h
  · cases h
  · rename_i hlength
    split at h
    · rename_i hstarts
      cases h
      unfold startsNoCase sameNoCase at hstarts
      rw [beq_iff_eq, List.map_append, List.map_eq_append_iff] at hstarts
      obtain ⟨key, eq, htake, hkey, heq⟩ := hstarts
      obtain ⟨c, rfl, hc⟩ := List.map_eq_singleton_iff.1 heq
      have hc : c = '=' := toLower_eq_equals hc
      refine ⟨key, ?_, beq_iff_eq.2 hkey, ?_⟩
      · have hline := (List.take_append_drop (name ++ ['=']).length line).symm
        rw [htake, hc, List.append_assoc] at hline
        exact hline
      · rw [Ne, List.drop_eq_nil_iff]
        exact hlength
    · cases h

theorem keyMatch_eq_some {K : Type} {keys : List (String × K)} {k : K}
    (h : keyMatch keys line = some (k, v)) :
    ∃ key name, line = key ++ '=' :: v ∧ (name, k) ∈ keys ∧ sameNoCase key name.toList = true
      ∧ v ≠ [] := by
  obtain ⟨⟨name, k'⟩, hmem, hget⟩ := List.exists_of_findSome?_eq_some h
  obtain ⟨w, hw, heq⟩ := Option.map_eq_some_iff.1 hget
  cases heq
  obtain ⟨key, hline, hname, hv⟩ := getValue_eq_some hw
  exact ⟨key, name, hline, hmem, hname, hv⟩

/-! ## Lines -/

section Lines

variable {Addr : Type} {sys : Resolver Addr}
variable {ctx : ConfigCtx Addr} {d : WgDevice Addr} {input config : Bytes} {append : Bool}

inductive LineStep (sys : Resolver Addr) (ctx : ConfigCtx Addr) (line : Bytes) :
    ConfigCtx Addr → Prop where
  | interface (hline : sameNoCase line "[Interface]".toList = true) :
      LineStep sys ctx line { ctx with isPeerSection := false, isDeviceSection := true }
  | peer (hline : sameNoCase line "[Peer]".toList = true) : LineStep sys ctx line
      ⟨{ ctx.device with peers := ctx.device.peers ++ [{ replaceAllowedIps := true }] }, true, false⟩
  | deviceKey (key : DeviceKey) (value : Bytes) (d : WgDevice Addr)
      (hkey : keyMatch deviceKeys line = some (key, value))
      (hset : ctx.device.setKey sys key value = .ok d) : LineStep sys ctx line { ctx with device := d }
  | peerKey (key : PeerKey) (value : Bytes) (done : List (WgPeer Addr)) (p p' : WgPeer Addr)
      (hkey : keyMatch peerKeys line = some (key, value)) (hpeers : ctx.device.peers = done ++ [p])
      (hset : p.setKey sys key value = .ok p') :
      LineStep sys ctx line { ctx with device := { ctx.device with peers := done ++ [p'] } }

theorem map_eq_ok {ε α β : Type} {x : Except ε α} {f : α → β} {b : β} (h : x.map f = .ok b) :
    ∃ a, x = .ok a ∧ f a = b := by
  cases x with
  | error e => cases h
  | ok a =>
    cases h
    exact ⟨a, rfl, rfl⟩

theorem processLine_step {ctx' : ConfigCtx Addr} (h : processLine sys ctx line = .ok ctx') :
    LineStep sys ctx line ctx' := by
  unfold processLine at h
  split at h
  · cases h
    exact .interface ‹_›
  split at h
  · cases h
    exact .peer ‹_›
  split at h
  · split at h
    · rename_i key value hkey
      obtain ⟨d, hset, rfl⟩ := map_eq_ok h
      exact .deviceKey key value d hkey hset
    · cases h
  split at h
  · split at h
    · rename_i key value hkey
      obtain ⟨d, hset, rfl⟩ := map_eq_ok h
      unfold updateLastPeer at hset
      split at hset
      · cases hset
      · rename_i p hlast
        obtain ⟨done, hpeers⟩ := List.getLast?_eq_some_iff.1 hlast
        obtain ⟨p', hp', rfl⟩ := map_eq_ok hset
        rw [hpeers, List.modifyLast_concat]
        exact .peerKey key value done p p' hkey hpeers hp'
    · cases h
  · cases h

theorem configReadLine_step {ctx' : ConfigCtx Addr} (h : configReadLine sys ctx input = .ok ctx') :
    (cleanConfigLine input = [] ∧ ctx' = ctx) ∨ LineStep sys ctx (cleanConfigLine input) ctx' := by
  unfold configReadLine at h
  split at h
  · cases h
    exact .inl ⟨‹_›, rfl⟩
  · exact .inr (processLine_step h)

theorem configRead_invariant {inv : ConfigCtx Addr → Prop} (hinit : inv (configReadInit append))
    (hstep : ∀ input ∈ (getlines config).map cstr, ∀ ctx ctx', inv ctx →
      LineStep sys ctx (cleanConfigLine input) ctx' → inv ctx')
    (h : configRead sys append config = .ok d) :
    ∃ ctx, inv ctx ∧ ctx.device = d ∧ ∀ p ∈ d.peers, p.publicKey.isSome = true := by
  obtain ⟨ctx, hlines, hfinish⟩ := Loops.bind_eq_ok.1 h
  unfold configReadFinish at hfinish
  split at hfinish
  · rename_i hkeys
    cases hfinish
    refine ⟨ctx, ?_, rfl, List.all_eq_true.1 hkeys⟩
    refine Loops.foldlM_invariant ?_ hinit hlines
    intro input hinput t t' ht hread
    obtain ⟨_, rfl⟩ | hline := configReadLine_step hread
    · exact ht
    · exact hstep input hinput t t' ht hline
  · cases hfinish

end Lines

/-! ## Values -/

variable {value : Bytes}

section Values

variable {Addr : Type} {sys : Resolver Addr} {d : WgDevice Addr} {config : Bytes} {append : Bool}

variable {n : Nat}

theorem parseUint16_le (h : parseUint16 value = .ok n) : n ≤ 65535 := by
  unfold parseUint16 parseUint16Of at h
  split at h
  · cases h
  · simp only at h
    split at h
    · cases h
    · cases h
      omega

theorem parseFwmark_le (h : parseFwmark value = .ok n) : n ≤ 4294967295 := by
  unfold parseFwmark at h
  split at h
  · cases h
    exact Nat.zero_le _
  split at h
  · cases h
  · simp only at h
    generalize hr : (if (decide (2 < value.length) && value.take 2 == ['0', 'x']) = true
      then strtoulHex value else strtoul value) = r at h
    split at h
    · cases h
    · cases h
      omega

theorem parsePersistentKeepalive_le (h : parsePersistentKeepalive value = .ok n) : n ≤ 65535 := by
  unfold parsePersistentKeepalive at h
  split at h
  · cases h
    exact Nat.zero_le _
  split at h
  · cases h
  · simp only at h
    split at h
    · cases h
    · cases h
      omega

theorem parseAwgString_some {s : Bytes} (h : parseAwgString value = .ok (some s)) :
    s = value ∧ s ≠ [] ∧ s.length < maxAwgStringLen := by
  unfold parseAwgString at h
  split at h
  · cases h
  split at h
  · cases h
  · cases h
    exact ⟨rfl, ‹_›, Nat.lt_of_not_le ‹_›⟩

variable {family : Family}

theorem parseCidr_le {mask : Option Bytes} (h : parseCidr family mask = .ok n) :
    n ≤ family.maxCidr := by
  unfold parseCidr at h
  split at h
  · cases h
    exact Nat.le_refl _
  · split at h
    · cases h
    · simp only at h
      split at h
      · cases h
      · cases h
        omega

theorem parseUint16_valueOf (h : n ≤ 2147483647) :
    parseUint16 (Java.valueOf n) = if 65535 < n then .error .exits else .ok n := by
  have hread : strtoulUpTo ulongMax (Java.valueOf n) = (n, []) :=
    strtoul_valueOf (by omega)
  unfold parseUint16 parseUint16Of
  rw [if_neg (Java.valueOf_ne_nil n), hread]
  simp only [ne_eq, not_true_eq_false, false_or]
  rw [Nat.mod_eq_of_lt (by omega)]

theorem parseKey_toBase64 (key : Key) : parseKey key.toBase64 = .ok key := by
  unfold parseKey
  rw [keyFromBase64, keyFromBase64As_toBase64]

theorem parseAwgString_of_ne_nil (h : w ≠ []) : parseAwgString w =
    if maxAwgStringLen ≤ w.length then .error .rejected else .ok (some w) := by
  unfold parseAwgString
  rw [if_neg h]

theorem head_valueOf (n : Nat) : (Java.valueOf n).head?.any charIsDigit = true := by
  obtain ⟨c, cs, hcs⟩ := List.exists_cons_of_ne_nil (Java.valueOf_ne_nil n)
  have hc : c.isDigit = true := @Java.isDigit_of_mem_valueOf n c (by simp [hcs])
  rw [hcs]
  exact charIsDigit_of_isDigit hc

theorem sameNoCase_valueOf (n : Nat) : sameNoCase (Java.valueOf n) "off".toList = false := by
  apply eq_false_of_ne_true
  intro h
  unfold sameNoCase at h
  rw [beq_iff_eq] at h
  have hdigit : ∀ c : Char, c.isDigit = true → c.toLower = c := by
    intro c hc
    rw [Java.isDigit_iff] at hc
    have hall : ∀ n : Fin 256, 48 ≤ (Char.ofNat n).toNat ∧ (Char.ofNat n).toNat ≤ 57 →
        (Char.ofNat n).toLower = Char.ofNat n := by decide +kernel
    exact forall_byte (P := fun c => 48 ≤ c.toNat ∧ c.toNat ≤ 57 → c.toLower = c) hall
      (by omega) hc
  have hmem : 'o' ∈ (Java.valueOf n).map Char.toLower := by
    rw [h]
    decide
  obtain ⟨c, hc, hlower⟩ := List.mem_map.1 hmem
  have hc := Java.isDigit_of_mem_valueOf hc
  rw [hdigit c hc] at hlower
  rw [hlower] at hc
  exact absurd hc (by decide)

theorem parsePersistentKeepalive_valueOf (h : n ≤ 65535) :
    parsePersistentKeepalive (Java.valueOf n) = .ok n := by
  unfold parsePersistentKeepalive
  rw [sameNoCase_valueOf, head_valueOf, strtoul_valueOf (by omega)]
  simp only [Bool.false_eq_true, if_false, Bool.true_eq_false]
  rw [if_neg]
  simp only [ne_eq, not_true_eq_false, false_or]
  omega

theorem Family.maxCidr_le (family : Family) : family.maxCidr ≤ 128 := by
  cases family <;> decide

theorem parseCidr_valueOf (h : n ≤ family.maxCidr) :
    parseCidr family (some (Java.valueOf n)) = .ok n := by
  have hmax := family.maxCidr_le
  unfold parseCidr
  simp only [head_valueOf, strtoul_valueOf (show n < 18446744073709551616 by omega), Bool.true_eq_false,
    if_false]
  rw [if_neg]
  simp only [ne_eq, not_true_eq_false, false_or]
  omega

theorem parseAllowedIp_text {text : Bytes} {ip : Addr} {cidr : Nat}
    (htext : parseIp sys text = .ok (family, ip)) (hslash : '/' ∉ text)
    (hcidr : cidr ≤ family.maxCidr) :
    parseAllowedIp sys (text ++ '/' :: Java.valueOf cidr) = .ok ⟨family, ip, cidr⟩ := by
  unfold parseAllowedIp
  rw [strsep_append hslash]
  show (parseIp sys text >>= _) = _
  rw [htext]
  show (parseCidr family (some (Java.valueOf cidr)) >>= _) = _
  rw [parseCidr_valueOf hcidr]
  rfl

theorem parseAllowedIps_intercalate {texts : List Bytes} {ips : List (WgAllowedIp Addr)}
    (hne : texts ≠ []) (hnil : [','].intercalate texts ≠ []) (hcomma : ∀ t ∈ texts, ',' ∉ t)
    (h : texts.mapM (parseAllowedIp sys) = .ok ips) :
    parseAllowedIps sys ([','].intercalate texts) = .ok ips := by
  unfold parseAllowedIps
  rw [if_neg hnil, List.splitOn_intercalate ',' hcomma hne, h]

theorem splitEndpoint_plain {host port : Bytes} (hhost : host.head? ≠ some '[') (hport : port ≠ [])
    (hcolon : ':' ∉ port) : splitEndpoint (host ++ ':' :: port) = some (host, port) := by
  rw [splitEndpoint.eq_2, Fields.cutLast_append hcolon]
  · simp only [if_neg hport]
  · intro rest hrest
    cases host with
    | nil => cases hrest
    | cons c host =>
      cases hrest
      exact hhost rfl

theorem splitEndpoint_bracketed {host port : Bytes} (hhost : ']' ∉ host) (hport : port ≠ []) :
    splitEndpoint ('[' :: (host ++ ']' :: ':' :: port)) = some (host, port) := by
  rw [splitEndpoint.eq_1, Fields.dropWhile_append_cons hhost, Fields.takeWhile_append_cons hhost]
  simp only [if_neg hport]

def Resolver.Gives (sys : Resolver Addr) : Family → Addr → Prop
  | .inet, ip => ∃ s, sys.inetPton4 s = some ip
  | .inet6, ip => ∃ s, sys.inetPton6 s = some ip

structure IpRead (sys : Resolver Addr) (ip : WgAllowedIp Addr) : Prop where
  addr : sys.Gives ip.family ip.ip
  cidr : ip.cidr ≤ ip.family.maxCidr

theorem parseIp_gives {ip : Addr} (h : parseIp sys value = .ok (family, ip)) :
    sys.Gives family ip := by
  unfold parseIp at h
  split at h <;> split at h <;> cases h <;> exact ⟨_, ‹_›⟩

theorem parseAllowedIp_read {entry : Bytes} {ip : WgAllowedIp Addr}
    (h : parseAllowedIp sys entry = .ok ip) : IpRead sys ip := by
  obtain ⟨⟨family, addr⟩, hip, h⟩ := Loops.bind_eq_ok.1 h
  obtain ⟨cidr, hcidr, h⟩ := Loops.bind_eq_ok.1 h
  cases h
  exact ⟨parseIp_gives hip, parseCidr_le hcidr⟩

theorem parseAllowedIps_read {ips : List (WgAllowedIp Addr)}
    (h : parseAllowedIps sys value = .ok ips) : ∀ ip ∈ ips, IpRead sys ip := by
  unfold parseAllowedIps at h
  split at h
  · cases h
    simp
  · intro ip hip
    obtain ⟨entry, _, hentry⟩ := Loops.exists_of_mem_mapM h hip
    exact parseAllowedIp_read hentry

/-- What the parsers of the device keys can give; a peer is read by itself. -/
structure DeviceRead (sys : Resolver Addr) (d : WgDevice Addr) : Prop where
  listenPort : ∀ n ∈ d.listenPort, ∃ s, sys.service s = some n
  fwmark : ∀ n ∈ d.fwmark, n ≤ 4294967295
  uint : ∀ p, ∀ n ∈ d.uint p, n ≤ 65535
  string : ∀ p s, d.string p = some (some s) → s ≠ [] ∧ s.length < maxAwgStringLen

structure PeerRead (sys : Resolver Addr) (p : WgPeer Addr) : Prop where
  endpoint : ∀ e ∈ p.endpoint, ∃ host port, sys.getaddrinfo host port = some e
  keepalive : ∀ n ∈ p.persistentKeepaliveInterval, n ≤ 65535
  allowedIps : ∀ ip ∈ p.allowedIps, IpRead sys ip

variable {d' : WgDevice Addr}

-- A string is the one that was there, or the value of its key.
theorem WgDevice.setKey_string {key : DeviceKey} (h : d.setKey sys key value = .ok d')
    (p : StringParameter) {t : Option Bytes} (ht : t ∈ d'.string p) :
    t ∈ d.string p ∨ (key = .string p ∧ parseAwgString value = .ok t) := by
  cases key with
  | listenPort | fwMark | privateKey | uint =>
    obtain ⟨_, _, rfl⟩ := map_eq_ok h
    exact .inl ht
  | string q =>
    obtain ⟨r, hr, rfl⟩ := map_eq_ok h
    change t ∈ Function.update d.string q (some r) p at ht
    by_cases hp : p = q
    · subst hp
      rw [Function.update_self] at ht
      cases ht
      exact .inr ⟨rfl, hr⟩
    · rw [Function.update_of_ne hp] at ht
      exact .inl ht

theorem WgDevice.setKey_read {key : DeviceKey} (h : d.setKey sys key value = .ok d')
    (hd : DeviceRead sys d) : DeviceRead sys d' := by
  cases key with
  | listenPort =>
    obtain ⟨port, hport, rfl⟩ := map_eq_ok h
    refine { hd with listenPort := ?_ }
    intro n hn
    cases hn
    unfold parsePort at hport
    split at hport
    · cases hport
    · split at hport
      · cases hport
        exact ⟨value, ‹_›⟩
      · cases hport
  | fwMark =>
    obtain ⟨mark, hmark, rfl⟩ := map_eq_ok h
    refine { hd with fwmark := ?_ }
    intro n hn
    cases hn
    exact parseFwmark_le hmark
  | privateKey =>
    obtain ⟨key, _, rfl⟩ := map_eq_ok h
    exact { hd with }
  | uint p =>
    obtain ⟨n, hn, rfl⟩ := map_eq_ok h
    refine { hd with uint := ?_ }
    intro q m hm
    change m ∈ Function.update d.uint p (some n) q at hm
    by_cases hq : q = p
    · subst hq
      rw [Function.update_self] at hm
      cases hm
      exact parseUint16_le hn
    · rw [Function.update_of_ne hq] at hm
      exact hd.uint q m hm
  | string p =>
    have hstring := WgDevice.setKey_string h
    obtain ⟨t, ht, rfl⟩ := map_eq_ok h
    refine { hd with string := ?_ }
    intro q s hs
    obtain hs | ⟨_, hparse⟩ := hstring q hs
    · exact hd.string q s hs
    · exact (parseAwgString_some hparse).2

theorem WgPeer.setKey_read {p p' : WgPeer Addr} {key : PeerKey}
    (h : p.setKey sys key value = .ok p') (hp : PeerRead sys p) : PeerRead sys p' := by
  cases key with
  | endpoint =>
    obtain ⟨e, he, rfl⟩ := map_eq_ok h
    refine { hp with endpoint := ?_ }
    intro e' he'
    cases he'
    unfold parseEndpoint at he
    split at he
    · cases he
    · split at he
      · cases he
        exact ⟨_, _, ‹_›⟩
      · cases he
  | publicKey | presharedKey | advancedSecurity =>
    obtain ⟨_, _, rfl⟩ := map_eq_ok h
    exact { hp with }
  | allowedIps =>
    obtain ⟨ips, hips, rfl⟩ := map_eq_ok h
    refine { hp with allowedIps := ?_ }
    intro ip hip
    obtain hip | hip := List.mem_append.1 hip
    · exact hp.allowedIps ip hip
    · exact parseAllowedIps_read hips ip hip
  | persistentKeepalive =>
    obtain ⟨n, hn, rfl⟩ := map_eq_ok h
    refine { hp with keepalive := ?_ }
    intro m hm
    cases hm
    exact parsePersistentKeepalive_le hn

-- A key of a peer does not touch its flags.
theorem WgPeer.setKey_flags {p p' : WgPeer Addr} {key : PeerKey}
    (h : p.setKey sys key value = .ok p') :
    p'.removeMe = p.removeMe ∧ (p.replaceAllowedIps = true → p'.replaceAllowedIps = true) := by
  cases key <;> obtain ⟨_, _, rfl⟩ := map_eq_ok h <;> exact ⟨rfl, fun h => by first | exact h | rfl⟩

-- A key of the device does not touch the peers.
theorem WgDevice.setKey_peers {key : DeviceKey} (h : d.setKey sys key value = .ok d') :
    d'.peers = d.peers ∧ d'.replacePeers = d.replacePeers := by
  cases key <;> obtain ⟨_, _, rfl⟩ := map_eq_ok h <;> exact ⟨rfl, rfl⟩

theorem PeerRead.empty (replace : Bool) :
    PeerRead sys ({ replaceAllowedIps := replace } : WgPeer Addr) where
  endpoint _ h := nomatch h
  keepalive _ h := nomatch h
  allowedIps _ h := nomatch h

theorem DeviceRead.init (append : Bool) :
    DeviceRead sys (configReadInit append : ConfigCtx Addr).device := by
  constructor
  · intro n hn
    cases append <;> cases hn
  · intro n hn
    cases append <;> cases hn
    exact Nat.zero_le _
  · intro p n hn
    cases append <;> cases hn
  · intro p t ht
    cases append <;> cases ht

structure FilePeer (sys : Resolver Addr) (p : WgPeer Addr) : Prop extends PeerRead sys p where
  removeMe : p.removeMe = false
  replaceAllowedIps : p.replaceAllowedIps = true

theorem configRead_read (h : configRead sys append config = .ok d) :
    DeviceRead sys d ∧ (∀ p ∈ d.peers, FilePeer sys p ∧ p.publicKey.isSome = true)
      ∧ d.replacePeers = !append := by
  have hinv : ∃ ctx : ConfigCtx Addr, (DeviceRead sys ctx.device
      ∧ (∀ p ∈ ctx.device.peers, FilePeer sys p) ∧ ctx.device.replacePeers = !append)
      ∧ ctx.device = d ∧ ∀ p ∈ d.peers, p.publicKey.isSome = true := by
    refine configRead_invariant ⟨DeviceRead.init append, ?_, ?_⟩ ?_ h
    · cases append <;> exact fun p hp => nomatch hp
    · cases append <;> rfl
    · rintro input hinput ctx ctx' ⟨hdevice, hpeers, hreplace⟩ hline
      cases hline with
      | interface => exact ⟨hdevice, hpeers, hreplace⟩
      | peer =>
        refine ⟨{ hdevice with }, ?_, hreplace⟩
        intro p hp
        obtain hp | hp := List.mem_append.1 hp
        · exact hpeers p hp
        · rw [List.mem_singleton.1 hp]
          exact { PeerRead.empty true with removeMe := rfl, replaceAllowedIps := rfl }
      | deviceKey key value d hkey hset =>
        obtain ⟨hsame, hflag⟩ := WgDevice.setKey_peers hset
        exact ⟨WgDevice.setKey_read hset hdevice, hsame.symm ▸ hpeers, hflag.trans hreplace⟩
      | peerKey key value done p p' hkey heq hset =>
        refine ⟨{ hdevice with }, ?_, hreplace⟩
        intro q hq
        obtain hq | hq := List.mem_append.1 hq
        · exact hpeers q (heq ▸ List.mem_append_left _ hq)
        · rw [List.mem_singleton.1 hq]
          have hp := hpeers p (heq ▸ List.mem_append_right _ List.mem_cons_self)
          obtain ⟨hremove, hallowed⟩ := WgPeer.setKey_flags hset
          exact { WgPeer.setKey_read hset hp.toPeerRead with
            removeMe := hremove.trans hp.removeMe
            replaceAllowedIps := hallowed hp.replaceAllowedIps }
  obtain ⟨ctx, ⟨hdevice, hpeers, hreplace⟩, rfl, hkeys⟩ := hinv
  exact ⟨hdevice, fun p hp => ⟨hpeers p hp, hkeys p hp⟩, hreplace⟩

end Values

/-! ## Strings -/

/-- A string that a line of a file can give. -/
structure StringParameter.Kept (p : StringParameter) (s : Bytes) : Prop where
  nonempty : s ≠ []
  nul : '\x00' ∉ s
  comment : '#' ∉ s
  newline : '\n' ∉ s
  bare : Fields.Bare charIsSpace s
  header : p.isHeader = true → ∀ c ∈ s, charIsSpace c = false

theorem cleanToValue_eq {l : Bytes} (h : cleanToValue l = key ++ '=' :: v) (hkey : '=' ∉ key) :
    ∃ before rest, l = before ++ '=' :: rest ∧ v = rest.dropWhile charIsSpace := by
  induction l generalizing key with
  | nil => simp [cleanToValue] at h
  | cons c l ih =>
    by_cases hc : c = '='
    · subst hc
      rw [cleanToValue] at h
      cases key with
      | nil =>
        cases h
        exact ⟨[], l, rfl, rfl⟩
      | cons b key =>
        rw [List.cons_append, List.cons.injEq] at h
        exact absurd (h.1 ▸ List.mem_cons_self) hkey
    · rw [cleanToValue.eq_3 _ _ hc] at h
      split at h
      · obtain ⟨before, rest, rfl, hv⟩ := ih h hkey
        exact ⟨c :: before, rest, rfl, hv⟩
      · cases key with
        | nil =>
          rw [List.nil_append, List.cons.injEq] at h
          exact absurd h.1 hc
        | cons b key =>
          rw [List.cons_append, List.cons.injEq] at h
          obtain ⟨before, rest, rfl, hv⟩ := ih h.2 (fun hmem => hkey (List.mem_cons_of_mem b hmem))
          exact ⟨c :: before, rest, rfl, hv⟩

variable {input config : Bytes} {append : Bool}

theorem head_of_special
    (h : (specialHandshakeKeys.any fun k => startsNoCase input k.toList) = true) :
    ∃ c rest, input = c :: rest ∧ (c = 'i' ∨ c = 'I') := by
  obtain ⟨k, hk, hstarts⟩ := List.any_eq_true.1 h
  have hhead : ∀ k ∈ specialHandshakeKeys, k.toList.head? = some 'I' := by decide
  obtain ⟨ds, hds⟩ := List.head?_eq_some_iff.1 (hhead k hk)
  unfold startsNoCase sameNoCase at hstarts
  rw [beq_iff_eq, hds] at hstarts
  cases input with
  | nil => cases hstarts
  | cons c rest =>
    rw [List.length_cons, List.take_succ_cons, List.map_cons, List.map_cons,
      List.cons.injEq] at hstarts
    exact ⟨c, rest, rfl, toLower_eq_i hstarts.1⟩

theorem header_names : ∀ k ∈ deviceKeys,
    (match k.2 with | .string p => p.isHeader | _ => false) = true →
      (k.1.toList.map Char.toLower).head? = some 'h' := by
  decide

variable {name : String} {p : StringParameter}

-- No key of a header starts with the `I` of a special line.
theorem not_isHeader_of_special
    (hspecial : (specialHandshakeKeys.any fun k => startsNoCase input k.toList) = true)
    (h : cleanSpecialHandshakeLine (input.takeWhile (· != '#')) = key ++ '=' :: v)
    (hmem : (name, DeviceKey.string p) ∈ deviceKeys)
    (hname : sameNoCase key name.toList = true) : p.isHeader = false := by
  obtain ⟨c, rest, rfl, hc⟩ := head_of_special hspecial
  have hfirst : ∃ l, key ++ '=' :: v = c :: l := by
    have hcomment : (c != '#') = true := by
      rcases hc with rfl | rfl <;> decide
    have hspace : charIsSpace c = false := by
      rcases hc with rfl | rfl <;> decide
    have hequals : c ≠ '=' := by
      rcases hc with rfl | rfl <;> decide
    have htake : (c :: rest).takeWhile (· != '#') = c :: rest.takeWhile (· != '#') :=
      List.takeWhile_cons_of_pos hcomment
    unfold cleanSpecialHandshakeLine at h
    rw [htake, Fields.rdropWhile_cons_of_neg hspace,
      cleanToValue.eq_3 _ _ hequals, hspace] at h
    exact ⟨_, h.symm⟩
  obtain ⟨l, hl⟩ := hfirst
  unfold sameNoCase at hname
  rw [beq_iff_eq] at hname
  apply eq_false_of_ne_true
  intro hheader
  have hupper := header_names _ hmem hheader
  rw [← hname, List.head?_map] at hupper
  cases key with
  | nil => cases hupper
  | cons b key =>
    cases hl
    rw [List.head?_cons] at hupper
    rcases hc with rfl | rfl <;> exact absurd hupper (by decide)

theorem kept_of_keyMatch (hinput : input ∈ (getlines config).map cstr)
    (h : keyMatch deviceKeys (cleanConfigLine input) = some (.string p, value)) : p.Kept value := by
  obtain ⟨key, name, hline, hmem, hname, hvalue⟩ := keyMatch_eq_some h
  obtain ⟨raw, hraw, rfl⟩ := List.mem_map.1 hinput
  have hsub : (cstr raw).takeWhile (· != '#') <+: cstr raw := List.takeWhile_prefix _
  have hclean : ∀ c ∈ (cstr raw).takeWhile (· != '#'), c ≠ '#' ∧ c ≠ '\x00' := by
    intro c hc
    refine ⟨by simpa using List.mem_takeWhile_imp hc, ?_⟩
    rintro rfl
    exact notMem_cstr raw (hsub.mem hc)
  unfold cleanConfigLine at hline
  simp only at hline
  split at hline
  · rename_i hspecial
    -- the value of a special line keeps its own blanks
    have hkey := notMem_of_sameNoCase hname (deviceKeys_names _ hmem)
    have hheader := not_isHeader_of_special hspecial hline hmem hname
    obtain ⟨before, rest, hl, hv⟩ := cleanToValue_eq hline hkey
    have hleading := (List.rdropWhile_prefix charIsSpace
      ((cstr raw).takeWhile (· != '#')))
    have hlast := Fields.last_rdropWhile charIsSpace ((cstr raw).takeWhile (· != '#'))
    have hsuffix : value <:+ ((cstr raw).takeWhile (· != '#')).rdropWhile charIsSpace := by
      rw [hl, hv]
      exact (List.dropWhile_suffix _).trans
        ((List.suffix_cons '=' rest).trans (List.suffix_append before _))
    have hnewline : '\n' ∉ ((cstr raw).takeWhile (· != '#')).rdropWhile charIsSpace := by
      apply notMem_of_prefix ((areLines_getlines _).inner _ hraw)
        (hleading.trans (hsub.trans (List.takeWhile_prefix _)))
      rintro c hc rfl
      exact absurd (hlast _ hc) (by decide)
    refine ⟨hvalue, ?_, ?_, fun hn => hnewline (hsuffix.mem hn), ⟨?_, ?_⟩, ?_⟩
    · exact fun hn => (hclean _ (hleading.mem (hsuffix.mem hn))).2 rfl
    · exact fun hn => (hclean _ (hleading.mem (hsuffix.mem hn))).1 rfl
    · rw [hv]
      exact Fields.head_dropWhile _ _
    · exact Fields.suffix_last hsuffix hlast
    · intro hp
      rw [hheader] at hp
      cases hp
  · have hchar : ∀ c ∈ value, charIsSpace c = false ∧ c ≠ '#' ∧ c ≠ '\x00' := by
      intro c hc
      have hc : c ∈ key ++ '=' :: value := by simp [hc]
      rw [← hline, List.mem_filter] at hc
      exact ⟨by simpa using hc.2, hclean c hc.1⟩
    refine ⟨hvalue, ?_, ?_, ?_, ⟨?_, ?_⟩, fun _ c hc => (hchar c hc).1⟩
    · exact fun hn => (hchar _ hn).2.2 rfl
    · exact fun hn => (hchar _ hn).2.1 rfl
    · exact fun hn => absurd (hchar _ hn).1 (by decide)
    · exact fun c hc => (hchar c (List.mem_of_mem_head? hc)).1
    · exact fun c hc => (hchar c (List.mem_of_mem_getLast? hc)).1

/-- No string that a file gives is `NULL`, and each is one that its line can hold. -/
theorem configRead_kept {Addr : Type} {sys : Resolver Addr} {d : WgDevice Addr}
    (h : configRead sys append config = .ok d) (p : StringParameter) :
    ∀ t ∈ d.string p, ∃ s, t = some s ∧ p.Kept s := by
  have hinv : ∃ ctx : ConfigCtx Addr,
      (∀ p, ∀ t ∈ ctx.device.string p, ∃ s, t = some s ∧ p.Kept s) ∧ ctx.device = d
      ∧ ∀ p ∈ d.peers, p.publicKey.isSome = true := by
    refine configRead_invariant ?_ ?_ h
    · intro p t ht
      cases append <;> cases ht
    · intro input hinput ctx ctx' hctx hline
      cases hline with
      | interface | peer | peerKey => exact hctx
      | deviceKey key value d hkey hset =>
        intro p t ht
        obtain ht | ⟨rfl, hparse⟩ := WgDevice.setKey_string hset p ht
        · exact hctx p t ht
        · have hkept := kept_of_keyMatch hinput hkey
          cases t with
          | none =>
            unfold parseAwgString at hparse
            rw [if_neg hkept.nonempty] at hparse
            split at hparse <;> cases hparse
          | some s =>
            obtain ⟨rfl, _⟩ := parseAwgString_some hparse
            exact ⟨s, rfl, hkept⟩
  obtain ⟨ctx, hstrings, rfl, _⟩ := hinv
  exact hstrings p

/-! ## A line with a key and a value -/

def keyLine (name : String) (value : Bytes) : Bytes := name.toList ++ ([' ', '=', ' '] ++ value)

theorem special_append (hkey : 2 ≤ key.length) (r : Bytes) :
    (specialHandshakeKeys.any fun k => startsNoCase (key ++ r) k.toList) =
      specialHandshakeKeys.any fun k => startsNoCase key k.toList := by
  have htake : (key ++ r).take 2 = key.take 2 := List.take_append_of_le_length hkey
  have hstarts : ∀ k ∈ specialHandshakeKeys,
      startsNoCase (key ++ r) k.toList = startsNoCase key k.toList := by
    intro k hk
    have hlength : k.toList.length = 2 := by
      revert k
      decide
    unfold startsNoCase
    rw [hlength, htake]
  rw [Bool.eq_iff_iff, List.any_eq_true, List.any_eq_true]
  constructor
  · rintro ⟨k, hk, h⟩
    exact ⟨k, hk, hstarts k hk ▸ h⟩
  · rintro ⟨k, hk, h⟩
    exact ⟨k, hk, (hstarts k hk).symm ▸ h⟩

theorem not_header (w : Bytes) :
    sameNoCase (key ++ '=' :: w) "[Interface]".toList = false ∧
      sameNoCase (key ++ '=' :: w) "[Peer]".toList = false :=
  ⟨sameNoCase_of_notMem (by simp) (by decide), sameNoCase_of_notMem (by simp) (by decide)⟩

/-- Whether a line with this key goes through `clean_special_handshake_line`. -/
def isSpecial (name : String) : Bool :=
  specialHandshakeKeys.any fun k => startsNoCase name.toList k.toList

/-- The name of a key has nothing that the cleaning of a line looks for. -/
structure KeyName (name : String) : Prop where
  length : 2 ≤ name.toList.length
  chars : ∀ c ∈ name.toList, c ≠ '#' ∧ c ≠ '=' ∧ charIsSpace c = false

instance (name : String) : Decidable (KeyName name) :=
  decidable_of_iff (2 ≤ name.toList.length ∧
    (name.toList.all fun c => c != '#' && c != '=' && !charIsSpace c) = true) (by
      rw [List.all_eq_true]
      constructor
      · intro h
        exact ⟨h.1, fun c hc => by simpa [and_assoc] using h.2 c hc⟩
      · intro h
        exact ⟨h.length, fun c hc => by simpa [and_assoc] using h.chars c hc⟩)

theorem deviceKeys_keyName : ∀ k ∈ deviceKeys, KeyName k.1 := by decide

theorem peerKeys_keyName : ∀ k ∈ peerKeys, KeyName k.1 := by decide

theorem peerKeys_isSpecial : ∀ k ∈ peerKeys, isSpecial k.1 = false := by decide

theorem deviceKeys_isSpecial : ∀ k ∈ deviceKeys, isSpecial k.1 =
    match k.2 with | .string p => !p.isHeader | _ => false := by
  decide

theorem takeWhile_keyLine (hname : KeyName name) (hvalue : '#' ∉ value) :
    (keyLine name value ++ ['\n']).takeWhile (· != '#') = keyLine name value ++ ['\n'] := by
  rw [List.takeWhile_eq_self_iff]
  apply Fields.bne_of_notMem
  simp only [keyLine, List.mem_append, not_or]
  exact ⟨⟨fun h => (hname.chars _ h).1 rfl, by decide, hvalue⟩, by decide⟩

theorem special_keyLine (hname : KeyName name) (value : Bytes) :
    (specialHandshakeKeys.any fun k => startsNoCase (keyLine name value ++ ['\n']) k.toList) =
      isSpecial name := by
  rw [keyLine, List.append_assoc, special_append hname.length]
  rfl

theorem cleanConfigLine_plain (hname : KeyName name) (hspecial : isSpecial name = false)
    (hvalue : '#' ∉ value) :
    cleanConfigLine (keyLine name value ++ ['\n']) =
      name.toList ++ '=' :: value.filter fun c => !charIsSpace c := by
  have hfilter : (name.toList.filter fun c => !charIsSpace c) = name.toList := by
    rw [List.filter_eq_self]
    intro c hc
    rw [(hname.chars c hc).2.2]
    rfl
  have hequals : ([' ', '=', ' '].filter fun c => !charIsSpace c) = ['='] := by decide
  have hnewline : (['\n'].filter fun c => !charIsSpace c) = [] := by decide
  unfold cleanConfigLine
  rw [takeWhile_keyLine hname hvalue]
  simp only
  rw [if_neg]
  · simp only [keyLine, List.filter_append, hfilter, hequals, hnewline, List.append_nil]
    rfl
  · rw [special_keyLine hname, hspecial]
    decide

theorem cleanToValue_name {name : Bytes}
    (h : ∀ c ∈ name, c ≠ '#' ∧ c ≠ '=' ∧ charIsSpace c = false) (r : Bytes) :
    cleanToValue (name ++ r) = name ++ cleanToValue r := by
  induction name with
  | nil => rfl
  | cons c name ih =>
    obtain ⟨_, hequals, hspace⟩ := h c List.mem_cons_self
    rw [List.cons_append, cleanToValue.eq_3 _ _ hequals, hspace,
      ih fun d hd => h d (List.mem_cons_of_mem c hd)]
    rfl

theorem cleanConfigLine_bare (hname : KeyName name) (hspecial : isSpecial name = true)
    (hne : value ≠ []) (hvalue : '#' ∉ value) (hbare : Fields.Bare charIsSpace value) :
    cleanConfigLine (keyLine name value ++ ['\n']) = name.toList ++ '=' :: value := by
  have hend : (keyLine name value ++ ['\n']).rdropWhile charIsSpace =
      name.toList ++ ([' ', '=', ' '] ++ value) := by
    unfold keyLine
    rw [List.rdropWhile_concat_pos _ _ _ (by decide)]
    apply Fields.rdropWhile_of_last
    intro c hc
    rw [← List.append_assoc, List.getLast?_append_of_ne_nil _ hne] at hc
    exact hbare.last c hc
  have hstart : cleanToValue ([' ', '=', ' '] ++ value) = '=' :: value := by
    show '=' :: (' ' :: value).dropWhile charIsSpace = _
    rw [List.dropWhile_cons_of_pos (by decide), Fields.dropWhile_of_head hbare.head]
  unfold cleanConfigLine
  rw [takeWhile_keyLine hname hvalue]
  simp only
  rw [if_pos]
  · rw [cleanSpecialHandshakeLine, hend, cleanToValue_name hname.chars, hstart]
  · rw [special_keyLine hname, hspecial]

/-- A string that a line can hold is read back from the line that is printed for it. -/
theorem cleanConfigLine_kept (hmem : (name, DeviceKey.string p) ∈ deviceKeys) {s : Bytes}
    (hs : p.Kept s) : cleanConfigLine (keyLine name s ++ ['\n']) = name.toList ++ '=' :: s := by
  have hname := deviceKeys_keyName _ hmem
  have hspecial := deviceKeys_isSpecial _ hmem
  cases hheader : p.isHeader with
  | true =>
    simp only [hheader] at hspecial
    rw [cleanConfigLine_plain hname hspecial hs.comment, List.filter_eq_self.2]
    intro c hc
    rw [hs.header hheader c hc]
    rfl
  | false =>
    simp only [hheader] at hspecial
    exact cleanConfigLine_bare hname hspecial hs.nonempty hs.comment hs.bare

section Process

variable {Addr : Type} {sys : Resolver Addr}
variable {ctx : ConfigCtx Addr} {d : WgDevice Addr} {input : Bytes}

theorem filter_deviceKeys_name : ∀ k ∈ deviceKeys,
    (deviceKeys.filter fun k' => sameNoCase k.1.toList k'.1.toList) = [k] := by
  decide

theorem filter_peerKeys_name : ∀ k ∈ peerKeys,
    (peerKeys.filter fun k' => sameNoCase k.1.toList k'.1.toList) = [k] := by
  decide

theorem configReadLine_of_clean (hline : line ≠ []) (h : cleanConfigLine input = line) :
    configReadLine sys ctx input = processLine sys ctx line := by
  unfold configReadLine
  rw [h, if_neg hline]

theorem processLine_deviceKey (hctx : ctx.isDeviceSection = true) {k : String × DeviceKey}
    (hkey : '=' ∉ key) (hfilter : (deviceKeys.filter fun k => sameNoCase key k.1.toList) = [k])
    (hvalue : value ≠ []) :
    processLine sys ctx (key ++ '=' :: value) =
      (ctx.device.setKey sys k.2 value).map fun d => { ctx with device := d } := by
  unfold processLine
  rw [(not_header value).1, (not_header value).2, if_neg (by decide), if_neg (by decide),
    if_pos hctx, keyMatch_key deviceKeys_names hkey hvalue hfilter]

theorem processLine_peerKey (hdevice : ctx.isDeviceSection = false)
    (hpeer : ctx.isPeerSection = true) {done : List (WgPeer Addr)} {p : WgPeer Addr}
    (hpeers : ctx.device.peers = done ++ [p]) {k : String × PeerKey} (hkey : '=' ∉ key)
    (hfilter : (peerKeys.filter fun k => sameNoCase key k.1.toList) = [k])
    (hvalue : value ≠ []) :
    processLine sys ctx (key ++ '=' :: value) = (p.setKey sys k.2 value).map fun p' =>
      { ctx with device := { ctx.device with peers := done ++ [p'] } } := by
  have hmodify : ∀ p' : WgPeer Addr, (done ++ [p]).modifyLast (fun _ => p') = done ++ [p'] :=
    fun p' => List.modifyLast_concat ..
  unfold processLine
  rw [(not_header value).1, (not_header value).2, if_neg (by decide), if_neg (by decide),
    if_neg (by simp [hdevice]), if_pos hpeer, keyMatch_key peerKeys_names hkey hvalue hfilter]
  simp only [updateLastPeer, hpeers, List.getLast?_concat, hmodify]
  cases p.setKey sys k.2 value <;> rfl

end Process

def noResolver : Resolver Bool :=
  ⟨fun _ => none, fun _ => none, fun _ => none, fun _ _ => none⟩

end Amnezia.Tools
