import Amnezia.Tools.Base64Key
import Amnezia.Tools.Numeric
import Mathlib.Data.List.Forall2

/-!
# The configuration of an interface

`showconf_main` prints a device as a configuration file.  The strings are printed as they are, so
that what `config.c` makes of the file depends on them.
-/

namespace Amnezia.Tools

open Crypto (Key)
open Libc (Bytes)

/-! ## The model -/

def UintParameter.fileKey : UintParameter → String
  | .junkPacketCount => "Jc"
  | .junkPacketMinSize => "Jmin"
  | .junkPacketMaxSize => "Jmax"
  | .initPacketJunkSize => "S1"
  | .responsePacketJunkSize => "S2"
  | .cookieReplyPacketJunkSize => "S3"
  | .transportPacketJunkSize => "S4"

def StringParameter.fileKey : StringParameter → String
  | .initPacketMagicHeader => "H1"
  | .responsePacketMagicHeader => "H2"
  | .underloadPacketMagicHeader => "H3"
  | .transportPacketMagicHeader => "H4"
  | .i1 => "I1"
  | .i2 => "I2"
  | .i3 => "I3"
  | .i4 => "I4"
  | .i5 => "I5"

section Model

variable {Addr : Type} (names : Namer Addr)

def printHex (n : Nat) : Bytes := Nat.toDigits 16 n

def showDevice (d : WgDevice Addr) : List Bytes :=
  ["[Interface]".toList]
    ++ (d.listenPort.filter (· != 0)).toList.map
      (fun (port : Nat) => keyLine "ListenPort" (Java.valueOf port))
    ++ (d.fwmark.filter (· != 0)).toList.map (fun mark => keyLine "FwMark" ('0' :: 'x' :: printHex mark))
    ++ d.privateKey.toList.map (fun key => keyLine "PrivateKey" (keyToBase64 key))
    ++ UintParameter.all.flatMap (fun p =>
      (d.uint p).toList.map fun (n : Nat) => keyLine p.fileKey (Java.valueOf n))
    ++ d.formatStrings (fun p s => keyLine p.fileKey (printString s))
    ++ [[]]

/-- The value of `AllowedIPs`; an address that `inet_ntop` cannot print is passed over. -/
def showAllowedIps : List (WgAllowedIp Addr) → Bytes
  | [] => []
  | ip :: ips =>
    match allowedIpText names ip with
    | none => showAllowedIps ips
    | some text => text ++ (if ips = [] then [] else ", ".toList) ++ showAllowedIps ips

def showPeer (p : WgPeer Addr) : List Bytes :=
  ["[Peer]".toList, keyLine "PublicKey" (keyToBase64 p.key)]
    ++ p.presharedKey.toList.map (fun key => keyLine "PresharedKey" (keyToBase64 key))
    ++ p.awg.toList.map (fun awg => keyLine "AdvancedSecurity" (if awg then "on" else "off").toList)
    ++ (if p.allowedIps = [] then [] else [keyLine "AllowedIPs" (showAllowedIps names p.allowedIps)])
    ++ (p.endpoint.bind (endpointText names)).toList.map (fun text => keyLine "Endpoint" text)
    ++ (p.persistentKeepaliveInterval.filter (· != 0)).toList.map
      (fun (n : Nat) => keyLine "PersistentKeepalive" (Java.valueOf n))

def showPeers : List (WgPeer Addr) → List Bytes
  | [] => []
  | [p] => showPeer names p
  | p :: ps => showPeer names p ++ [] :: showPeers ps

def showconf (d : WgDevice Addr) : Bytes :=
  (showDevice d ++ showPeers names d.peers).flatMap (· ++ ['\n'])

/-- The peers are the same, an absent keepalive and zero being one. -/
structure RestoredPeer (p p' : WgPeer Addr) : Prop where
  publicKey : p'.publicKey = p.publicKey
  presharedKey : p'.presharedKey = p.presharedKey
  awg : p'.awg = p.awg
  allowedIps : p'.allowedIps = p.allowedIps
  endpoint : p'.endpoint = p.endpoint
  keepalive : p'.persistentKeepaliveInterval.getD 0 = p.persistentKeepaliveInterval.getD 0

/-- The devices are the same, an absent port or mark and zero being one.  Where `config_read_init`
sets the private key, an absent one and the key of zeros are one too. -/
structure Restored (append : Bool) (d d' : WgDevice Addr) : Prop where
  listenPort : d'.listenPort.getD 0 = d.listenPort.getD 0
  fwmark : d'.fwmark.getD 0 = d.fwmark.getD 0
  privateKey : if append then d'.privateKey = d.privateKey
    else d'.privateKey.getD zeroKey = d.privateKey.getD zeroKey
  uint : d'.uint = d.uint
  string : d'.string = d.string
  peers : List.Forall₂ RestoredPeer d.peers d'.peers

end Model

/-! ## Values -/

section Hex

theorem printHex_eq (n : Nat) :
    printHex n = if n < 16 then [n.digitChar] else printHex (n / 16) ++ [(n % 16).digitChar] :=
  Nat.toDigits_eq_if (by decide)

def hexDigitValue (c : Char) : Nat := if c.isDigit then c.toNat - 48 else c.toLower.toNat - 87

theorem digitChar_hex : ∀ d : Fin 16, (d.val.digitChar.isDigit
    || ['a', 'b', 'c', 'd', 'e', 'f'].contains d.val.digitChar.toLower) = true
    ∧ hexDigitValue d.val.digitChar = d.val ∧ d.val.digitChar.isAlphanum = true := by
  decide

theorem mem_printHex {n : Nat} {c : Char} (h : c ∈ printHex n) : ∃ d : Fin 16, c = d.val.digitChar := by
  induction n using Nat.strong_induction_on with
  | h n ih =>
    rw [printHex_eq] at h
    split at h
    · exact ⟨⟨n, by omega⟩, List.mem_singleton.1 h⟩
    · obtain h | h := List.mem_append.1 h
      · exact ih (n / 16) (by omega) h
      · exact ⟨⟨n % 16, by omega⟩, List.mem_singleton.1 h⟩

theorem foldl_printHex (n : Nat) :
    (printHex n).foldl (fun n c => 16 * n + hexDigitValue c) 0 = n := by
  induction n using Nat.strong_induction_on with
  | h n ih =>
    rw [printHex_eq]
    split
    · have hdigit := (digitChar_hex ⟨n, by omega⟩).2.1
      rw [List.foldl_cons, List.foldl_nil, hdigit, Nat.mul_zero, Nat.zero_add]
    · have hdigit := (digitChar_hex ⟨n % 16, by omega⟩).2.1
      rw [List.foldl_append, ih (n / 16) (by omega), List.foldl_cons, List.foldl_nil, hdigit]
      exact Nat.div_add_mod n 16

theorem printHex_ne_nil (n : Nat) : printHex n ≠ [] := by
  rw [printHex_eq]
  split <;> simp

theorem parseFwmark_printHex {n : Nat} (h : n ≤ 4294967295) :
    parseFwmark ('0' :: 'x' :: printHex n) = .ok n := by
  have hoff : Libc.sameNoCase ('0' :: 'x' :: printHex n) "off".toList = false := by
    unfold Libc.sameNoCase
    rw [beq_eq_false_iff_ne]
    intro heq
    exact absurd (List.cons.inj heq).1 (by decide)
  have hlength : 2 < ('0' :: 'x' :: printHex n).length := by
    have hpos := List.length_pos_of_ne_nil (printHex_ne_nil n)
    simp only [List.length_cons]
    omega
  have hhex : ∀ c ∈ printHex n,
      (c.isDigit || ['a', 'b', 'c', 'd', 'e', 'f'].contains c.toLower) = true := by
    intro c hc
    obtain ⟨d, rfl⟩ := mem_printHex hc
    exact (digitChar_hex d).1
  have hread : strtoulHex ('0' :: 'x' :: printHex n) = (n, []) := by
    unfold strtoulHex
    simp only [List.drop_succ_cons, List.drop_zero, List.takeWhile_eq_self_iff.2 hhex,
      List.dropWhile_eq_nil_iff.2 hhex, if_neg (printHex_ne_nil n)]
    have hfold := foldl_printHex n
    unfold hexDigitValue at hfold
    rw [hfold, Nat.min_eq_right (by omega)]
  have hhead : ('0' :: 'x' :: printHex n).head?.any Libc.charIsDigit = true := by
    show Libc.charIsDigit '0' = true
    decide
  unfold parseFwmark
  rw [hoff, hhead, if_neg (by decide), if_neg (by decide), decide_eq_true hlength]
  simp only [List.take_succ_cons, List.take_zero, beq_self_eq_true, Bool.and_self, if_true, hread]
  rw [if_neg (by simpa using h)]

end Hex

/-! ## Lines that are read -/

section Lines

variable {Addr : Type} {sys : Resolver Addr}
variable {d : WgDevice Addr} {ctx : ConfigCtx Addr} {p : WgPeer Addr}

structure ReadsLines (sys : Resolver Addr) (ctx : ConfigCtx Addr) (lines : List Bytes)
    (ctx' : ConfigCtx Addr) : Prop where
  inLine : ∀ l ∈ lines, InLine l
  run : (lines.map (· ++ ['\n'])).foldlM (configReadLine sys) ctx = .ok ctx'

theorem ReadsLines.chains : Loops.Chains (ReadsLines sys) where
  nil _ := ⟨fun _ hl => (List.not_mem_nil hl).elim, rfl⟩
  append h₁ h₂ := by
    constructor
    · intro l hl
      obtain hl | hl := List.mem_append.1 hl
      · exact h₁.inLine l hl
      · exact h₂.inLine l hl
    · rw [List.map_append]
      exact Loops.foldlM_append_eq_ok.2 ⟨_, h₁.run, h₂.run⟩

theorem ReadsLines.append {ctx' ctx'' : ConfigCtx Addr} {l l' : List Bytes}
    (h₁ : ReadsLines sys ctx l ctx') (h₂ : ReadsLines sys ctx' l' ctx'') :
    ReadsLines sys ctx (l ++ l') ctx'' :=
  ReadsLines.chains.append h₁ h₂

theorem ReadsLines.single {ctx' : ConfigCtx Addr} {line : Bytes} (hline : InLine line)
    (h : configReadLine sys ctx (line ++ ['\n']) = .ok ctx') : ReadsLines sys ctx [line] ctx' := by
  constructor
  · intro l hl
    rw [List.mem_singleton.1 hl]
    exact hline
  · show (configReadLine sys ctx (line ++ ['\n']) >>= pure) = _
    rw [h]
    rfl

theorem ReadsLines.get {append : Bool} {lines : List Bytes}
    (h : ReadsLines sys (configReadInit append) lines ctx) :
    configRead sys append (lines.flatMap (· ++ ['\n'])) = configReadFinish ctx := by
  unfold configRead
  rw [Libc.getlines_cstr h.inLine, h.run]
  rfl

theorem ReadsLines.blank (ctx : ConfigCtx Addr) : ReadsLines sys ctx [[]] ctx :=
  .single (by decide) rfl

theorem ReadsLines.interface (ctx : ConfigCtx Addr) : ReadsLines sys ctx ["[Interface]".toList]
    { ctx with isPeerSection := false, isDeviceSection := true } :=
  .single (by decide) rfl

theorem ReadsLines.peer (ctx : ConfigCtx Addr) : ReadsLines sys ctx ["[Peer]".toList]
    ⟨{ ctx.device with peers := ctx.device.peers ++ [{ replaceAllowedIps := true }] }, true, false⟩ :=
  .single (by decide) rfl

theorem fileKeys_inLine : (∀ k ∈ deviceKeys, InLine k.1.toList) ∧ ∀ k ∈ peerKeys, InLine k.1.toList := by
  decide

variable {name : String} {value : Bytes}

theorem inLine_keyLine (hname : InLine name.toList) (hvalue : InLine value) :
    InLine (keyLine name value) := by
  unfold keyLine InLine
  simp only [List.mem_append, not_or]
  exact ⟨⟨hname.1, by decide, hvalue.1⟩, ⟨hname.2, by decide, hvalue.2⟩⟩

theorem ReadsLines.deviceKey {d' : WgDevice Addr} {key : DeviceKey} {v : Bytes}
    (hmem : (name, key) ∈ deviceKeys) (hvalue : InLine value)
    (hclean : cleanConfigLine (keyLine name value ++ ['\n']) = name.toList ++ '=' :: v)
    (hv : v ≠ []) (hset : d.setKey sys key v = .ok d') :
    ReadsLines sys ⟨d, false, true⟩ [keyLine name value] ⟨d', false, true⟩ := by
  refine .single (inLine_keyLine (fileKeys_inLine.1 _ hmem) hvalue) ?_
  rw [configReadLine_of_clean (by simp) hclean, processLine_deviceKey rfl (deviceKeys_names _ hmem)
    (filter_deviceKeys_name _ hmem) hv]
  show (d.setKey sys key v).map _ = _
  rw [hset]
  rfl

theorem ReadsLines.peerKey {p' : WgPeer Addr} {key : PeerKey} {v : Bytes}
    (hmem : (name, key) ∈ peerKeys) (hvalue : InLine value)
    (hclean : cleanConfigLine (keyLine name value ++ ['\n']) = name.toList ++ '=' :: v)
    (hv : v ≠ []) (hset : p.setKey sys key v = .ok p') :
    ReadsLines sys ⟨{ d with peers := done ++ [p] }, true, false⟩ [keyLine name value]
      ⟨{ d with peers := done ++ [p'] }, true, false⟩ := by
  refine .single (inLine_keyLine (fileKeys_inLine.2 _ hmem) hvalue) ?_
  rw [configReadLine_of_clean (by simp) hclean, processLine_peerKey rfl rfl rfl (peerKeys_names _ hmem)
    (filter_peerKeys_name _ hmem) hv]
  show (p.setKey sys key v).map _ = _
  rw [hset]
  rfl

theorem cleanConfigLine_of_plain (hname : KeyName name) (hspecial : isSpecial name = false)
    (hvalue : ∀ c ∈ value, Plain c) :
    cleanConfigLine (keyLine name value ++ ['\n']) = name.toList ++ '=' :: value := by
  rw [cleanConfigLine_plain hname hspecial fun hmem => (hvalue _ hmem).2.1 rfl,
    List.filter_eq_self.2]
  intro c hc
  rw [(hvalue c hc).1]
  rfl

theorem ReadsLines.plainDeviceKey {d' : WgDevice Addr} {key : DeviceKey}
    (hmem : (name, key) ∈ deviceKeys) (hspecial : isSpecial name = false)
    (hvalue : ∀ c ∈ value, Plain c) (hne : value ≠ []) (hset : d.setKey sys key value = .ok d') :
    ReadsLines sys ⟨d, false, true⟩ [keyLine name value] ⟨d', false, true⟩ :=
  .deviceKey hmem (inLine_of_plain hvalue)
    (cleanConfigLine_of_plain (deviceKeys_keyName _ hmem) hspecial hvalue) hne hset

theorem ReadsLines.plainPeerKey {p' : WgPeer Addr} {key : PeerKey} (hmem : (name, key) ∈ peerKeys)
    (hvalue : ∀ c ∈ value, Plain c) (hne : value ≠ []) (hset : p.setKey sys key value = .ok p') :
    ReadsLines sys ⟨{ d with peers := done ++ [p] }, true, false⟩ [keyLine name value]
      ⟨{ d with peers := done ++ [p'] }, true, false⟩ :=
  .peerKey hmem (inLine_of_plain hvalue)
    (cleanConfigLine_of_plain (peerKeys_keyName _ hmem) (peerKeys_isSpecial _ hmem) hvalue) hne hset

end Lines

/-! ## The printed file -/

section Shown

variable {Addr : Type} {names : Namer Addr} {sys : Resolver Addr}
variable {d : WgDevice Addr} {ctx : ConfigCtx Addr} {p : WgPeer Addr} {done : List (WgPeer Addr)}

theorem plain_keyToBase64 (key : Key) : ∀ c ∈ keyToBase64 key, Plain c := by
  intro c hc
  rw [keyToBase64_eq] at hc
  have hchar := Key.base64Char_of_mem_toBase64 hc
  unfold Key.base64Char at hchar
  simp only [Bool.or_eq_true, beq_iff_eq] at hchar
  rcases hchar with ((h | rfl) | rfl) | rfl
  · exact plain_of_isAlphanum h
  · exact plain_of_toNat (by decide) (by decide)
  · exact plain_of_toNat (by decide) (by decide)
  · exact plain_of_toNat (by decide) (by decide)

theorem keyToBase64_ne_nil (key : Key) : keyToBase64 key ≠ [] := by
  rw [keyToBase64_eq]
  apply List.ne_nil_of_length_pos
  rw [Key.length_toBase64]
  decide

theorem plain_valueOf (n : Nat) : ∀ c ∈ Java.valueOf n, Plain c :=
  fun _ hc => plain_of_isDigit (Java.isDigit_of_mem_valueOf hc)

theorem parseKey_keyToBase64 (key : Key) : parseKey (keyToBase64 key) = .ok key := by
  rw [keyToBase64_eq, parseKey_toBase64]

theorem mem_fileKey_uint (p : UintParameter) : (p.fileKey, DeviceKey.uint p) ∈ deviceKeys := by
  cases p <;> simp [UintParameter.fileKey, deviceKeys]

theorem mem_fileKey_string (p : StringParameter) : (p.fileKey, DeviceKey.string p) ∈ deviceKeys := by
  cases p <;> simp [StringParameter.fileKey, deviceKeys]

def WgDevice.shown (append : Bool) (d : WgDevice Addr) : WgDevice Addr where
  replacePeers := !append
  privateKey := d.privateKey.or (if append then none else some zeroKey)
  fwmark := (d.fwmark.filter (· != 0)).or (if append then none else some 0)
  listenPort := d.listenPort.filter (· != 0)
  uint := d.uint
  string := d.string

theorem plain_hex (n : Nat) : ∀ c ∈ '0' :: 'x' :: printHex n, Plain c := by
  intro c hc
  have hhex : c = '0' ∨ c = 'x' ∨ c ∈ printHex n := by simpa using hc
  rcases hhex with rfl | rfl | hc
  · exact plain_of_isAlphanum (by decide)
  · exact plain_of_isAlphanum (by decide)
  · obtain ⟨d, rfl⟩ := mem_printHex hc
    exact plain_of_isAlphanum (digitChar_hex d).2.2

theorem isSpecial_fileKey (p : UintParameter) : isSpecial p.fileKey = false := by
  cases p <;> decide

theorem ReadsLines.device (append : Bool) (hd : DeviceRead sys d)
    (hport : ∀ n ∈ d.listenPort, n ≤ 65535)
    (hservice : ∀ n : Nat, n ≤ 65535 → sys.service (Java.valueOf n) = some n)
    (hstrings : ∀ p, ∀ t ∈ d.string p, ∃ s, t = some s ∧ p.Kept s) :
    ReadsLines sys (configReadInit append) (showDevice d) ⟨d.shown append, false, true⟩ := by
  have hchain : Loops.Chains (ReadsLines sys) := ReadsLines.chains
  let reading (d : WgDevice Addr) : ConfigCtx Addr := ⟨d, false, true⟩
  have hheader : ReadsLines sys (configReadInit append) ["[Interface]".toList]
      (reading (({} : WgDevice Addr).shown append)) := by
    have hinit : (configReadInit append : ConfigCtx Addr) =
        ⟨({} : WgDevice Addr).shown append, false, false⟩ := by
      cases append <;> rfl
    rw [hinit]
    exact .interface _
  -- the device as it is after each group of lines
  refine hchain.append (hchain.append (hchain.append (hchain.append (hchain.append (hchain.append hheader
    (hchain.option (fun o => reading { ({} : WgDevice Addr).shown append with listenPort := o }) ?_))
    (hchain.option (fun o => reading
      { ({} : WgDevice Addr).shown append with
        listenPort := d.listenPort.filter (· != 0)
        fwmark := o.or (if append then none else some 0) }) ?_))
    (hchain.option (fun o => reading
      { d.shown append with
        privateKey := o.or (if append then none else some zeroKey)
        uint := fun _ => none
        string := fun _ => none }) ?_))
    (hchain.family UintParameter.mem_all (fun u => reading
      { d.shown append with uint := u, string := fun _ => none }) ?_))
    (hchain.family StringParameter.mem_all (fun u => reading { d.shown append with string := u }) ?_))
    (.blank _)
  · intro n hn
    have hmem : ("ListenPort", DeviceKey.listenPort) ∈ deviceKeys := by simp [deviceKeys]
    have hn := hport n (Option.eq_some_of_filter_eq_some hn)
    refine .plainDeviceKey hmem (by decide) (plain_valueOf n) (Java.valueOf_ne_nil n) ?_
    simp only [WgDevice.setKey, parsePort, if_neg (Java.valueOf_ne_nil n), hservice n hn]
    rfl
  · intro n hn
    have hmem : ("FwMark", DeviceKey.fwMark) ∈ deviceKeys := by simp [deviceKeys]
    have hn := hd.fwmark n (Option.eq_some_of_filter_eq_some hn)
    refine .plainDeviceKey hmem (by decide) (plain_hex n) (List.cons_ne_nil _ _) ?_
    simp only [WgDevice.setKey, parseFwmark_printHex hn]
    rfl
  · intro key _
    have hmem : ("PrivateKey", DeviceKey.privateKey) ∈ deviceKeys := by simp [deviceKeys]
    refine .plainDeviceKey hmem (by decide) (plain_keyToBase64 key) (keyToBase64_ne_nil key) ?_
    simp only [WgDevice.setKey, parseKey_keyToBase64]
    rfl
  · intro u p n hn
    have hn := hd.uint p n hn
    refine .plainDeviceKey (mem_fileKey_uint p) (isSpecial_fileKey p) (plain_valueOf n)
      (Java.valueOf_ne_nil n) ?_
    simp only [WgDevice.setKey, parseUint16_valueOf (show n ≤ 2147483647 by omega)]
    rw [if_neg (by omega)]
    rfl
  · intro u p t ht
    obtain ⟨s, rfl, hs⟩ := hstrings p t ht
    obtain ⟨hne, hlength⟩ := hd.string p s ht
    refine .deviceKey (mem_fileKey_string p) ⟨hs.newline, hs.nul⟩
      (cleanConfigLine_kept (mem_fileKey_string p) hs) hne ?_
    have hparse : parseAwgString s = .ok (some s) := by
      rw [parseAwgString_of_ne_nil hne, if_neg (by omega)]
    show (parseAwgString s).map _ = _
    rw [hparse]
    rfl

def WgPeer.shown (p : WgPeer Addr) : WgPeer Addr where
  publicKey := some p.key
  presharedKey := p.presharedKey
  endpoint := p.endpoint
  persistentKeepaliveInterval := p.persistentKeepaliveInterval.filter (· != 0)
  awg := p.awg
  allowedIps := p.allowedIps
  replaceAllowedIps := true

theorem getD_filter (o : Option Nat) : (o.filter (· != 0)).getD 0 = o.getD 0 := by
  cases o with
  | none => rfl
  | some n =>
    cases n <;> rfl

theorem restoredPeer_shown (h : p.publicKey.isSome = true) : RestoredPeer p p.shown := by
  refine ⟨?_, rfl, rfl, rfl, rfl, getD_filter _⟩
  obtain ⟨key, hkey⟩ := Option.isSome_iff_exists.1 h
  rw [hkey]
  simp only [WgPeer.shown, WgPeer.key, hkey, Option.getD_some]

section Peers

variable (hinv : names.Inverse sys)
include hinv

theorem showAllowedIps_read {ips : List (WgAllowedIp Addr)} (h : ∀ ip ∈ ips, IpRead sys ip) :
    ∃ texts, texts.mapM (parseAllowedIp sys) = .ok ips ∧ texts.length = ips.length
      ∧ (∀ t ∈ texts, t ≠ [] ∧ ∀ c ∈ t, Plain c ∧ c ≠ ',')
      ∧ showAllowedIps names ips = ", ".toList.intercalate texts := by
  induction ips with
  | nil => exact ⟨[], rfl, rfl, fun t ht => (List.not_mem_nil ht).elim, rfl⟩
  | cons ip ips ih =>
    have hip := h ip List.mem_cons_self
    obtain ⟨text, htext, hread, hchars⟩ := allowedIpText_read hinv hip
    obtain ⟨texts, hmap, hlength, hplain, hshow⟩ := ih fun ip hip => h ip (List.mem_cons_of_mem _ hip)
    have hslash : '/' ∉ text := fun hmem => absurd (hchars _ hmem) (by decide)
    have hentry : ∀ c ∈ text ++ '/' :: Java.valueOf ip.cidr, Plain c ∧ c ≠ ',' := by
      simp only [List.mem_append, List.mem_cons]
      rintro c (hc | rfl | hc)
      · refine ⟨plain_of_addressChar (hchars c hc), ?_⟩
        rintro rfl
        exact absurd (hchars _ hc) (by decide)
      · exact ⟨plain_of_toNat (by decide) (by decide), by decide⟩
      · refine ⟨plain_valueOf ip.cidr c hc, ?_⟩
        rintro rfl
        exact absurd (Java.isDigit_of_mem_valueOf hc) (by decide)
    refine ⟨(text ++ '/' :: Java.valueOf ip.cidr) :: texts, ?_, by simp [hlength], ?_, ?_⟩
    · rw [List.mapM_cons, parseAllowedIp_text hread hslash hip.cidr, hmap]
      rfl
    · intro t ht
      rw [List.mem_cons] at ht
      obtain rfl | ht := ht
      · exact ⟨by simp, hentry⟩
      · exact hplain t ht
    · rw [showAllowedIps, htext]
      simp only [hshow]
      cases ips with
      | nil =>
        rw [List.length_eq_zero_iff.1 hlength]
        simp
      | cons ip' ips =>
        obtain ⟨t, ts, rfl⟩ := List.exists_cons_of_length_eq_add_one hlength
        rw [List.intercalate_cons_cons, if_neg (List.cons_ne_nil ip' ips)]

theorem ReadsLines.allowedIps {d : WgDevice Addr} {done : List (WgPeer Addr)} {p : WgPeer Addr}
    {ips : List (WgAllowedIp Addr)} (h : ∀ ip ∈ ips, IpRead sys ip) (hp : p.allowedIps = [])
    (hreplace : p.replaceAllowedIps = true) :
    ReadsLines sys ⟨{ d with peers := done ++ [p] }, true, false⟩
      (if ips = [] then [] else [keyLine "AllowedIPs" (showAllowedIps names ips)])
      ⟨{ d with peers := done ++ [{ p with allowedIps := ips }] }, true, false⟩ := by
  split
  · rename_i hips
    rw [hips, ← hp]
    exact ReadsLines.chains.nil _
  · rename_i hips
    obtain ⟨texts, hmap, hlength, hplain, hshow⟩ := showAllowedIps_read hinv h
    have hmem : ("AllowedIPs", PeerKey.allowedIps) ∈ peerKeys := by simp [peerKeys]
    have htexts : texts ≠ [] := by
      rintro rfl
      exact hips (List.length_eq_zero_iff.1 hlength.symm)
    have hself : texts.map (·.filter fun c => !Libc.charIsSpace c) = texts := by
      have hid : texts.map (·.filter fun c => !Libc.charIsSpace c) = texts.map id := by
        apply List.map_congr_left
        intro t ht
        apply List.filter_eq_self.2
        intro c hc
        rw [((hplain t ht).2 c hc).1.1]
        rfl
      rw [hid, List.map_id]
    have hclean : (showAllowedIps names ips).filter (fun c => !Libc.charIsSpace c) =
        [','].intercalate texts := by
      rw [hshow, Fields.apply_intercalate List.filter_nil (fun _ _ => List.filter_append ..), hself]
      rfl
    have hchars : ∀ c ∈ showAllowedIps names ips, c = ' ' ∨ Plain c := by
      intro c hc
      rw [hshow] at hc
      obtain hc | ⟨t, ht, hc⟩ := Fields.mem_intercalate hc
      · rcases List.mem_pair.1 hc with rfl | rfl
        · exact .inr (plain_of_toNat (by decide) (by decide))
        · exact .inl rfl
      · exact .inr ((hplain t ht).2 c hc).1
    have hline : InLine (showAllowedIps names ips) := by
      constructor
      · intro hmem
        obtain h | h := hchars _ hmem
        · cases h
        · exact absurd h.1 (by decide)
      · intro hmem
        obtain h | h := hchars _ hmem
        · cases h
        · exact h.2.2 rfl
    have hcomment : '#' ∉ showAllowedIps names ips := by
      intro hmem
      obtain h | h := hchars _ hmem
      · cases h
      · exact h.2.1 rfl
    have hne : [','].intercalate texts ≠ [] := by
      obtain ⟨t, ts, rfl⟩ := List.exists_cons_of_ne_nil htexts
      obtain ⟨c, t, rfl⟩ := List.exists_cons_of_ne_nil (hplain t List.mem_cons_self).1
      rw [Fields.cons_intercalate]
      exact List.cons_ne_nil _ _
    refine .peerKey hmem hline (cleanConfigLine_plain (peerKeys_keyName _ hmem)
      (peerKeys_isSpecial _ hmem) hcomment) (hclean ▸ hne) ?_
    rw [hclean]
    have hparse := parseAllowedIps_intercalate htexts hne
      (fun t ht hcomma => ((hplain t ht).2 _ hcomma).2 rfl) hmap
    simp only [WgPeer.setKey, hparse, hp, List.nil_append]
    rw [← hreplace]
    rfl

theorem ReadsLines.showPeer (hp : PeerRead sys p) :
    ReadsLines sys ctx (Tools.showPeer names p)
      ⟨{ ctx.device with peers := ctx.device.peers ++ [p.shown] }, true, false⟩ := by
  have hchain : Loops.Chains (ReadsLines sys) := ReadsLines.chains
  let reading (q : WgPeer Addr) : ConfigCtx Addr :=
    ⟨{ ctx.device with peers := ctx.device.peers ++ [q] }, true, false⟩
  -- the peer as it is after each group of lines
  have hpublic : ReadsLines sys (reading { replaceAllowedIps := true })
      [keyLine "PublicKey" (keyToBase64 p.key)]
      (reading { publicKey := some p.key, replaceAllowedIps := true }) := by
    have hmem : ("PublicKey", PeerKey.publicKey) ∈ peerKeys := by simp [peerKeys]
    refine .plainPeerKey hmem (plain_keyToBase64 p.key) (keyToBase64_ne_nil p.key) ?_
    simp only [WgPeer.setKey, parseKey_keyToBase64]
    rfl
  have hallowed : ReadsLines sys (reading { p.shown with
        endpoint := none, persistentKeepaliveInterval := none, allowedIps := [] })
      (if p.allowedIps = [] then [] else [keyLine "AllowedIPs" (showAllowedIps names p.allowedIps)])
      (reading { p.shown with endpoint := none, persistentKeepaliveInterval := none }) :=
    ReadsLines.allowedIps hinv hp.allowedIps rfl rfl
  refine hchain.append (hchain.append (hchain.append (hchain.append (hchain.append
    ((ReadsLines.peer ctx).append hpublic)
    (hchain.option (fun o => reading
      { publicKey := some p.key, presharedKey := o, replaceAllowedIps := true }) ?_))
    (hchain.option (fun o => reading
      { p.shown with
        awg := o, endpoint := none, persistentKeepaliveInterval := none, allowedIps := [] }) ?_))
    hallowed)
    (?_ : ReadsLines sys _ _ (reading { p.shown with persistentKeepaliveInterval := none })))
    (hchain.option (fun o => reading { p.shown with persistentKeepaliveInterval := o }) ?_)
  · intro key _
    have hmem : ("PresharedKey", PeerKey.presharedKey) ∈ peerKeys := by simp [peerKeys]
    refine .plainPeerKey hmem (plain_keyToBase64 key) (keyToBase64_ne_nil key) ?_
    simp only [WgPeer.setKey, parseKey_keyToBase64]
    rfl
  · intro awg _
    have hmem : ("AdvancedSecurity", PeerKey.advancedSecurity) ∈ peerKeys := by simp [peerKeys]
    have hplain : ∀ c ∈ (if awg then "on" else "off").toList, Plain c := by
      intro c hc
      apply plain_of_isAlphanum
      have hall : ((if awg then "on" else "off").toList.all Char.isAlphanum) = true := by
        cases awg <;> decide
      exact List.all_eq_true.1 hall c hc
    refine .plainPeerKey hmem hplain (by cases awg <;> decide) ?_
    cases awg <;> rfl
  · unfold WgPeer.shown
    cases he : p.endpoint with
    | none => exact hchain.nil _
    | some e =>
      obtain ⟨node, service, hgives⟩ := hp.endpoint e he
      obtain ⟨text, host, port, htext, hsplit, hread, hplain⟩ := endpointText_read hinv hgives
      have hmem : ("Endpoint", PeerKey.endpoint) ∈ peerKeys := by simp [peerKeys]
      have hne : text ≠ [] := by
        rintro rfl
        cases hsplit
      rw [Option.bind_some, htext]
      refine .plainPeerKey hmem hplain hne ?_
      simp only [WgPeer.setKey, parseEndpoint, hsplit, hread]
      rfl
  · intro n hn
    have hn := hp.keepalive n (Option.eq_some_of_filter_eq_some hn)
    have hmem : ("PersistentKeepalive", PeerKey.persistentKeepalive) ∈ peerKeys := by simp [peerKeys]
    refine .plainPeerKey hmem (plain_valueOf n) (Java.valueOf_ne_nil n) ?_
    simp only [WgPeer.setKey, parsePersistentKeepalive_valueOf hn]
    rfl

theorem ReadsLines.showPeers {ctx : ConfigCtx Addr} {ps : List (WgPeer Addr)}
    (hps : ∀ p ∈ ps, PeerRead sys p) :
    ∃ ctx', ReadsLines sys ctx (Tools.showPeers names ps) ctx'
      ∧ ctx'.device = { ctx.device with peers := ctx.device.peers ++ ps.map WgPeer.shown } := by
  fun_induction Tools.showPeers names ps generalizing ctx with
  | case1 =>
    refine ⟨ctx, ReadsLines.chains.nil ctx, ?_⟩
    rw [List.map_nil, List.append_nil]
  | case2 p =>
    exact ⟨_, ReadsLines.showPeer hinv (hps p List.mem_cons_self), rfl⟩
  | case3 p ps hps' ih =>
    rw [List.forall_mem_cons] at hps
    obtain ⟨ctx', hrest, hctx⟩ :=
      @ih ⟨{ ctx.device with peers := ctx.device.peers ++ [p.shown] }, true, false⟩ hps.2
    have happend : ctx.device.peers ++ (p :: ps).map WgPeer.shown =
        ctx.device.peers ++ [p.shown] ++ ps.map WgPeer.shown := by
      simp
    refine ⟨ctx', (ReadsLines.showPeer hinv hps.1).append ((ReadsLines.blank _).append hrest), ?_⟩
    rw [hctx, happend]

end Peers

/-- For every device of a file or a command line, and where printing and reading of numeric
addresses are inverse: the file that is printed gives the device back iff its strings are such as
a line of a file can hold. -/
theorem showconf_roundTrip_iff (hinv : names.Inverse sys)
    (hservice : ∀ n : Nat, n ≤ 65535 → sys.service (Java.valueOf n) = some n)
    {files : Bytes → Option Bytes} {d : WgDevice Addr} (hd : Produced sys files d) (append : Bool) :
    (∃ d', configRead sys append (showconf names d) = .ok d' ∧ Restored append d d')
      ↔ ∀ p, ∀ t ∈ d.string p, ∃ s, t = some s ∧ p.Kept s := by
  have hread := hd.configured
  constructor
  · rintro ⟨d', hget, hsame⟩
    rw [← hsame.string]
    exact configRead_kept hget
  · intro hstrings
    have hdevice := ReadsLines.device append hread.toDeviceRead
      (fun n hn => (hread.listenPort n hn).elim fun s hs => hinv.port s n hs) hservice hstrings
    obtain ⟨ctx, hpeers, hctx⟩ :=
      @ReadsLines.showPeers _ _ _ hinv ⟨d.shown append, false, true⟩ _ hread.peers
    have hfinish : configReadFinish ctx =
        .ok { d.shown append with peers := d.peers.map WgPeer.shown } := by
      have hkeys : ctx.device.peers.all (fun p => p.publicKey.isSome) = true := by
        rw [hctx]
        simp [WgDevice.shown, WgPeer.shown]
      unfold configReadFinish
      rw [if_pos hkeys, hctx]
      rfl
    refine ⟨{ d.shown append with peers := d.peers.map WgPeer.shown }, ?_, ?_⟩
    · unfold showconf
      rw [(hdevice.append hpeers).get, hfinish]
    · refine ⟨getD_filter _, ?_, ?_, rfl, rfl, ?_⟩
      · show ((d.fwmark.filter (· != 0)).or (if append then none else some 0)).getD 0 = _
        rw [← getD_filter d.fwmark]
        cases d.fwmark.filter (· != 0) <;> cases append <;> rfl
      · show if append = true then d.privateKey.or (if append then none else some zeroKey) = d.privateKey
          else (d.privateKey.or (if append then none else some zeroKey)).getD zeroKey
            = d.privateKey.getD zeroKey
        cases d.privateKey <;> cases append <;> rfl
      · simp only [List.forall₂_map_right_iff, List.forall₂_same]
        exact fun p hp => restoredPeer_shown (hread.publicKeys p hp)

end Shown

theorem showconf_roundTrip_pairFile : ∃ d, configRead pairResolver false pairFile = .ok d
    ∧ d.peers.length = 1
    ∧ ∃ d', configRead pairResolver true (showconf pairNamer d) = .ok d' ∧ Restored true d d' := by
  obtain ⟨d, hread, hlength, _⟩ := configRead_pairFile
  have hd : Produced pairResolver (fun _ => none) d := .file false pairFile hread
  have hservice : ∀ n : Nat, n ≤ 65535 → pairResolver.service (Java.valueOf n) = some n :=
    fun n hn => num_valueOf hn (by decide)
  exact ⟨d, hread, hlength, (showconf_roundTrip_iff pairNamer_inverse hservice hd true).2
    (configRead_kept hread)⟩

/-- The command `awg set awg0 h1 '1 2'`: the file that is printed gives another header. -/
theorem showconf_blank :
    let d : WgDevice Bool :=
      { string := Function.update (fun _ => none) .initPacketMagicHeader (some (some "1 2".toList)) }
    configReadCmd pairResolver (fun _ => none) {} ["h1".toList, "1 2".toList] = .ok d
      ∧ (configRead pairResolver false (showconf pairNamer d)).map
        (fun d' => d'.string .initPacketMagicHeader) = .ok (some (some "12".toList)) :=
  ⟨rfl, rfl⟩

end Amnezia.Tools
