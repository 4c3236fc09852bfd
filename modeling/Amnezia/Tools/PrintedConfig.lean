import Amnezia.Tools.PrintedLine
import Amnezia.Tools.ReadDevice

/-!
# Printed lines in `config.c`

What `config_read_line` makes of one line of `toAwgQuickString` that awg-quick leaves in place.
-/

namespace Amnezia.Tools

open Config Config.Attribute Libc
open Java (Text)
open Crypto (Key)

def keepsBlanks : TextAttribute → Bool
  | .specialJunkI1 | .specialJunkI2 | .specialJunkI3 | .specialJunkI4 | .specialJunkI5 => true
  | _ => false

def configText (a : TextAttribute) (t : Text) : Bytes := if keepsBlanks a then utf8 t else squeeze t

theorem special_textKey (a : TextAttribute) :
    (specialHandshakeKeys.any fun k => startsNoCase a.key k.toList) = keepsBlanks a := by
  cases a <;> decide

variable {key : Text}

theorem takeWhile_comment {v : Text} (hword : ∀ c ∈ key, Java.word c = true)
    (hv : ∀ c ∈ v, valueChar c = true) :
    (fileLine (line key v)).takeWhile (· != '#') =
      fileLine (line key v) := by
  rw [List.takeWhile_eq_self_iff]
  apply Fields.bne_of_notMem
  rw [fileLine_eq, mem_utf8_iff (by decide), List.mem_append]
  rintro (h | h)
  · exact notMem_line hword hv h
  · exact absurd h (by decide)

variable {ts : List Text}

theorem cleanConfigLine_squeeze (hword : ∀ c ∈ key, Java.word c = true) (hlength : 2 ≤ key.length)
    (hspecial : (specialHandshakeKeys.any fun k => startsNoCase key k.toList) = false)
    (hts : ∀ c ∈ join ts, valueChar c = true) :
    cleanConfigLine (fileLine (line key (join ts))) =
      key ++ '=' :: squeezeAll ts := by
  have hfirst : fileLine (line key (join ts)) =
      key ++ (utf8 (' ' :: '=' :: ' ' :: join ts) ++ ['\n']) := by
    unfold fileLine line
    rw [utf8_append, utf8_key hword, List.append_assoc]
  unfold cleanConfigLine
  rw [takeWhile_comment hword hts, charIsSpace_eq]
  simp only
  rw [if_neg, filter_fileLine hword]
  rw [hfirst, special_append hlength, hspecial]
  decide

theorem cleanToValue_key (hword : ∀ c ∈ key, Java.word c = true) (r : Bytes) :
    cleanToValue (key ++ r) = key ++ cleanToValue r := by
  induction key with
  | nil => rfl
  | cons c key ih =>
    have hc := hword c (by simp)
    have hlt := Java.lt_of_word hc
    have hspace : charIsSpace c = false := by
      rw [charIsSpace_eq]
      exact isspace_of_gt hlt.1 (by omega)
    rw [List.cons_append, cleanToValue.eq_3, if_neg (by simp [hspace]),
      ih (fun d hd => hword d (by simp [hd]))]
    · rfl
    · rintro rfl
      exact absurd hc (by decide)

variable {t : Text}

theorem cleanConfigLine_special (hword : ∀ c ∈ key, Java.word c = true) (hlength : 2 ≤ key.length)
    (hspecial : (specialHandshakeKeys.any fun k => startsNoCase key k.toList) = true)
    (ht : Config.KeptText t) :
    cleanConfigLine (fileLine (line key t)) = key ++ '=' :: utf8 t := by
  have hne : utf8 t ≠ [] := fun h => ht.nonempty (utf8_eq_nil.1 h)
  have hbare := bare_utf8 ht.bare
  have hline : fileLine (line key t) =
      key ++ ((' ' :: '=' :: ' ' :: utf8 t) ++ ['\n']) := by
    unfold fileLine line
    rw [utf8_append, utf8_key hword, List.append_assoc]
    rfl
  have hend : (key ++ ((' ' :: '=' :: ' ' :: utf8 t) ++ ['\n'])).rdropWhile isspace =
      key ++ (' ' :: '=' :: ' ' :: utf8 t) := by
    rw [← List.append_assoc, List.rdropWhile_concat_pos _ _ _ (by decide)]
    apply Fields.rdropWhile_of_last
    intro b hb
    have hsplit : key ++ (' ' :: '=' :: ' ' :: utf8 t) = (key ++ [' ', '=', ' ']) ++ utf8 t := by
      simp
    rw [hsplit, List.getLast?_append_of_ne_nil _ hne] at hb
    exact hbare.last b hb
  have hvalue : cleanToValue (' ' :: '=' :: ' ' :: utf8 t) = '=' :: utf8 t := by
    show '=' :: (' ' :: utf8 t).dropWhile charIsSpace = _
    rw [charIsSpace_eq, List.dropWhile_cons_of_pos (by decide),
      Fields.dropWhile_of_head hbare.head]
  unfold cleanConfigLine
  rw [takeWhile_comment hword ht.chars, hline]
  simp only
  rw [if_pos]
  · unfold cleanSpecialHandshakeLine
    rw [charIsSpace_eq, hend, cleanToValue_key hword, hvalue]
  · rw [special_append hlength, hspecial]

def deviceKey : InterfaceAttribute → Option DeviceKey
  | .number .listenPort => some .listenPort
  | .number .junkPacketCount => some (.uint .junkPacketCount)
  | .number .junkPacketMinSize => some (.uint .junkPacketMinSize)
  | .number .junkPacketMaxSize => some (.uint .junkPacketMaxSize)
  | .number .initPacketJunkSize => some (.uint .initPacketJunkSize)
  | .number .responsePacketJunkSize => some (.uint .responsePacketJunkSize)
  | .number .cookieReplyPacketJunkSize => some (.uint .cookieReplyPacketJunkSize)
  | .number .transportPacketJunkSize => some (.uint .transportPacketJunkSize)
  | .text .initPacketMagicHeader => some (.string .initPacketMagicHeader)
  | .text .responsePacketMagicHeader => some (.string .responsePacketMagicHeader)
  | .text .underloadPacketMagicHeader => some (.string .underloadPacketMagicHeader)
  | .text .transportPacketMagicHeader => some (.string .transportPacketMagicHeader)
  | .text .specialJunkI1 => some (.string .i1)
  | .text .specialJunkI2 => some (.string .i2)
  | .text .specialJunkI3 => some (.string .i3)
  | .text .specialJunkI4 => some (.string .i4)
  | .text .specialJunkI5 => some (.string .i5)
  | .privateKey => some .privateKey
  | _ => none

variable {a : InterfaceAttribute}

theorem deviceKey_isSome : (deviceKey a).isSome ↔ quickAction a = none := by
  cases a with
  | number a => cases a <;> decide
  | text a => cases a <;> decide
  | _ => decide

def peerKey : PeerAttribute → PeerKey
  | .allowedIps => .allowedIps
  | .endpoint => .endpoint
  | .persistentKeepalive => .persistentKeepalive
  | .preSharedKey => .presharedKey
  | .publicKey => .publicKey

variable {k : DeviceKey}

theorem filter_deviceKeys (h : deviceKey a = some k) :
    ∃ name, (deviceKeys.filter fun k => sameNoCase a.key k.1.toList) = [(name, k)] := by
  cases a with
  | number a => cases a <;> cases h <;> exact ⟨_, rfl⟩
  | text a => cases a <;> cases h <;> exact ⟨_, rfl⟩
  | privateKey =>
    cases h
    exact ⟨_, rfl⟩
  | _ => cases h

theorem filter_peerKeys (a : PeerAttribute) :
    ∃ name, (peerKeys.filter fun k => sameNoCase a.key k.1.toList) = [(name, peerKey a)] := by
  cases a <;> exact ⟨_, rfl⟩

section Lines

variable {Addr : Type} {sys : Resolver Addr}

variable {ctx : ConfigCtx Addr}

theorem processLine_device (hctx : ctx.isDeviceSection = true) (hk : deviceKey a = some k)
    {w : Bytes} (hw : w ≠ []) :
    processLine sys ctx (a.key ++ '=' :: w) =
      (ctx.device.setKey sys k w).map fun d => { ctx with device := d } := by
  obtain ⟨name, hfilter⟩ := filter_deviceKeys hk
  exact processLine_deviceKey hctx (equals_notMem a.key_word) hfilter hw

theorem processLine_peer (hdevice : ctx.isDeviceSection = false) (hpeer : ctx.isPeerSection = true)
    {done : List (WgPeer Addr)} {p : WgPeer Addr} (hpeers : ctx.device.peers = done ++ [p])
    (a : PeerAttribute) {w : Bytes} (hw : w ≠ []) :
    processLine sys ctx (a.key ++ '=' :: w) = (p.setKey sys (peerKey a) w).map fun p' =>
      { ctx with device := { ctx.device with peers := done ++ [p'] } } := by
  obtain ⟨name, hfilter⟩ := filter_peerKeys a
  exact processLine_peerKey hdevice hpeer hpeers (equals_notMem a.key_word) hfilter hw

def UintParameter.attribute : UintParameter → NumberAttribute
  | .junkPacketCount => .junkPacketCount
  | .junkPacketMinSize => .junkPacketMinSize
  | .junkPacketMaxSize => .junkPacketMaxSize
  | .initPacketJunkSize => .initPacketJunkSize
  | .responsePacketJunkSize => .responsePacketJunkSize
  | .cookieReplyPacketJunkSize => .cookieReplyPacketJunkSize
  | .transportPacketJunkSize => .transportPacketJunkSize

def StringParameter.attribute : StringParameter → TextAttribute
  | .initPacketMagicHeader => .initPacketMagicHeader
  | .responsePacketMagicHeader => .responsePacketMagicHeader
  | .underloadPacketMagicHeader => .underloadPacketMagicHeader
  | .transportPacketMagicHeader => .transportPacketMagicHeader
  | .i1 => .specialJunkI1
  | .i2 => .specialJunkI2
  | .i3 => .specialJunkI3
  | .i4 => .specialJunkI4
  | .i5 => .specialJunkI5

def DeviceKey.attribute : DeviceKey → InterfaceAttribute
  | .listenPort | .fwMark => .number .listenPort
  | .privateKey => .privateKey
  | .uint p => .number p.attribute
  | .string p => .text p.attribute

theorem attribute_of_deviceKey (h : deviceKey a = some k) : k.attribute = a ∧ k ≠ .fwMark := by
  cases a with
  | number a => cases a <;> cases h <;> exact ⟨rfl, by simp⟩
  | text a => cases a <;> cases h <;> exact ⟨rfl, by simp⟩
  | privateKey =>
    cases h
    exact ⟨rfl, by simp⟩
  | _ => cases h

def WgDevice.setAttribute (i : Interface Addr) (d : WgDevice Addr) : DeviceKey → WgDevice Addr
  | .listenPort => { d with listenPort := (i.number .listenPort).map Int.toNat }
  | .fwMark => d
  | .privateKey => { d with privateKey := some i.privateKey }
  | .uint p =>
    { d with uint := Function.update d.uint p ((i.number p.attribute).map Int.toNat) }
  | .string p =>
    let value := (i.text p.attribute).map fun t => some (configText p.attribute t)
    { d with string := Function.update d.string p value }

def DeviceKey.Accepts (i : Interface Addr) : DeviceKey → Prop
  | .uint p => ∀ n, i.number p.attribute = some n → n ≤ 65535
  | .string p =>
    ∀ t, i.text p.attribute = some t → (configText p.attribute t).length < maxAwgStringLen
  | _ => True

theorem utf8_solid (h : Solid t) : utf8 t = t := by
  apply utf8_of_ascii
  intro c hc
  have hchar := solidChar_iff.1 (h.chars c hc)
  omega

theorem squeeze_solid (h : Solid t) : squeeze t = t := by
  have hself : t.filter (!Java.space ·) = t := by
    rw [List.filter_eq_self]
    intro c hc
    rw [Bool.not_eq_true']
    apply eq_false_of_ne_true
    intro hspace
    have htrim := h.trimmable hc
    rw [Java.trimmable_of_space hspace] at htrim
    exact absurd htrim (by decide)
  unfold squeeze
  rw [hself, utf8_solid h]

theorem squeezeAll_singleton (t : Text) : squeezeAll [t] = squeeze t :=
  List.intercalate_singleton ..

theorem squeezeAll_solid (h : ∀ t ∈ ts, Solid t) :
    squeezeAll ts = [','].intercalate ts := by
  have hmap : ts.map squeeze = ts.map id :=
    List.map_congr_left fun t ht => squeeze_solid (h t ht)
  rw [List.map_id] at hmap
  unfold squeezeAll
  rw [hmap]

theorem squeezeAll_solid_ne_nil (hne : ts ≠ []) (h : ∀ t ∈ ts, Solid t) :
    squeezeAll ts ≠ [] := by
  obtain ⟨t, ts, rfl⟩ := List.exists_cons_of_ne_nil hne
  obtain ⟨c, cs, hcs⟩ := List.exists_cons_of_ne_nil (h t (by simp)).nonempty
  rw [squeezeAll_solid h, hcs, Fields.cons_intercalate]
  simp

theorem squeeze_ne_nil (h : Config.KeptText t) : squeeze t ≠ [] := by
  obtain ⟨c, cs, rfl⟩ := List.exists_cons_of_ne_nil h.nonempty
  have hc : Java.space c = false := by
    apply eq_false_of_ne_true
    intro hspace
    have htrim := h.bare.head c rfl
    rw [Java.trimmable_of_space hspace] at htrim
    exact absurd htrim (by decide)
  intro hnil
  have hfilter := utf8_eq_nil.1 hnil
  rw [List.filter_cons_of_pos (by simp [hc])] at hfilter
  cases hfilter

theorem configText_ne_nil {a : TextAttribute} (h : Config.KeptText t) : configText a t ≠ [] := by
  unfold configText
  split
  · exact fun hnil => h.nonempty (utf8_eq_nil.1 hnil)
  · exact squeeze_ne_nil h

/-- The resolver reads the numeric addresses that Java reads and prints. -/
structure Resolver.ReadsNumeric (sys : Resolver Addr) (net : Net Addr) : Prop where
  inet4 : ∀ a, net.isInet4 a = true →
    ':' ∉ net.getHostAddress a ∧ sys.inetPton4 (net.getHostAddress a) = some a
  inet6 : ∀ a, net.isInet4 a = false →
    ':' ∈ net.getHostAddress a ∧ sys.inetPton6 (net.getHostAddress a) = some a
  service : ∀ port : Nat, port ≤ 65535 → sys.service (Java.valueOf port) = some port
  numericHost : ∀ {host a} {port : Nat}, net.parseNumericAddress host = some a → '[' ∉ host →
    port ≤ 65535 → sys.getaddrinfo host (Java.valueOf port) = some (a, port)
  /-- An address in brackets is given without them. -/
  bracketedHost : ∀ {host a} {port : Nat}, net.parseNumericAddress ('[' :: host ++ [']']) = some a →
    port ≤ 65535 → sys.getaddrinfo host (Java.valueOf port) = some (a, port)
  /-- The brackets in the host of a URI are those around an address. -/
  uri_host : ∀ {text host port}, net.uri text = some (some (host, port)) →
    '[' ∉ host ∨ ∃ h, host = '[' :: h ++ [']'] ∧ ']' ∉ h

variable {net : Net Addr} {i : Interface Addr}

variable (net) in
def configValue (i : Interface Addr) : InterfaceAttribute → Bytes
  | .text a => configText a ((i.text a).getD [])
  | a => squeezeAll (i.entries net a)

theorem valueChar_join (h : ∀ t ∈ ts, ∀ c ∈ t, valueChar c = true) :
    ∀ c ∈ join ts, valueChar c = true := by
  intro c hc
  rcases mem_join hc with rfl | rfl | ⟨t, ht, hct⟩
  · decide
  · decide
  · exact h t ht c hct

theorem text_of_entries {a : TextAttribute} (h : i.entries net (.text a) ≠ []) :
    ∃ t, i.text a = some t := by
  cases ht : i.text a with
  | none => exact absurd (by rw [Interface.entries_text, ht]; rfl) h
  | some t => exact ⟨t, rfl⟩

theorem number_of_entries {a : NumberAttribute} (h : i.entries net (.number a) ≠ []) :
    ∃ n, i.number a = some n := by
  cases hn : i.number a with
  | none => exact absurd (by rw [Interface.entries_number, hn]; rfl) h
  | some n => exact ⟨n, rfl⟩

theorem cleanConfigLine_attribute (hnet : net.Documented) (hi : i.Valid net)
    (hleft : quickAction a = none) (ha : i.entries net a ≠ []) :
    cleanConfigLine (fileLine (i.attributeLine net a)) = a.key ++ '=' :: configValue net i a := by
  have hchars : ∀ c ∈ join (i.entries net a), valueChar c = true :=
    valueChar_join fun t ht => Interface.valueChar_entries hnet hi ht
  have hplain : 2 ≤ a.key.length →
      (specialHandshakeKeys.any fun k => startsNoCase a.key k.toList) = false →
      cleanConfigLine (fileLine (i.attributeLine net a)) =
        a.key ++ '=' :: squeezeAll (i.entries net a) :=
    fun hlength hspecial => cleanConfigLine_squeeze a.key_word hlength hspecial hchars
  cases a with
  | number a => cases a <;> exact hplain (by decide) (by decide)
  | privateKey => exact hplain (by decide) (by decide)
  | text a =>
    obtain ⟨t, ht⟩ := text_of_entries ha
    have hentries : i.entries net (.text a) = [t] := by
      rw [Interface.entries_text, ht]
      rfl
    have hvalue : configValue net i (.text a) = configText a t := by
      unfold configValue
      simp [ht]
    rw [hvalue]
    unfold configText
    cases hkeeps : keepsBlanks a with
    | true =>
      unfold Interface.attributeLine
      rw [hentries, Config.join_singleton, if_pos rfl]
      exact cleanConfigLine_special (InterfaceAttribute.text a).key_word (by cases a <;> decide)
        ((special_textKey a).trans hkeeps) (hi.text a t ht)
    | false =>
      rw [hplain (by cases a <;> decide) ((special_textKey a).trans hkeeps), hentries,
        squeezeAll_singleton, if_neg (by decide)]
  | _ => cases hleft

theorem configValue_number {a : NumberAttribute} {n : Nat} (h : i.number a = some (n : Int)) :
    configValue net i (.number a) = Java.valueOf n := by
  show squeezeAll ((i.number a).toList.map Java.valueOf) = _
  rw [h]
  show squeezeAll [Java.valueOf n] = _
  rw [squeezeAll_singleton, squeeze_solid (solid_valueOf n)]

theorem configValue_text {a : TextAttribute} (h : i.text a = some t) :
    configValue net i (.text a) = configText a t := by
  show configText a ((i.text a).getD []) = _
  rw [h]
  rfl

theorem configValue_privateKey : configValue net i .privateKey = i.privateKey.toBase64 := by
  show squeezeAll [i.privateKey.toBase64] = _
  rw [squeezeAll_singleton, squeeze_solid (Config.solid_toBase64 _)]

theorem setKey_eq_ok_iff (hsys : sys.ReadsNumeric net) (hi : i.Valid net)
    (hk : deviceKey a = some k) (ha : i.entries net a ≠ []) {d d' : WgDevice Addr} :
    d.setKey sys k (configValue net i a) = .ok d' ↔ k.Accepts i ∧ d' = d.setAttribute i k := by
  obtain ⟨hattr, hmark⟩ := attribute_of_deviceKey hk
  subst hattr
  cases k with
  | fwMark => exact absurd rfl hmark
  | listenPort =>
    obtain ⟨n, hn⟩ := number_of_entries ha
    have hfits := hi.number _ n hn
    obtain ⟨m, rfl⟩ := Int.eq_ofNat_of_zero_le (Int.le_of_lt hfits.1)
    have hport : m ≤ 65535 := by
      have hlarge : decide (65535 < (m : Int)) = false := hfits.2.2
      rw [decide_eq_false_iff_not] at hlarge
      omega
    have hparse : parsePort sys (Java.valueOf m) = .ok m := by
      unfold parsePort
      rw [if_neg (Java.valueOf_ne_nil m), hsys.service m hport]
    rw [show DeviceKey.listenPort.attribute = .number .listenPort from rfl, configValue_number hn]
    show (parsePort sys (Java.valueOf m)).map (fun port => { d with listenPort := some port }) =
      .ok d' ↔ True ∧ d' = { d with listenPort := (i.number .listenPort).map Int.toNat }
    rw [hparse, hn, true_and]
    exact ⟨fun h => (by cases h; rfl), fun h => (by rw [h]; rfl)⟩
  | privateKey =>
    rw [show DeviceKey.privateKey.attribute = .privateKey from rfl, configValue_privateKey]
    show (parseKey i.privateKey.toBase64).map (fun key => { d with privateKey := some key }) =
      .ok d' ↔ True ∧ d' = { d with privateKey := some i.privateKey }
    rw [parseKey_toBase64, true_and]
    exact ⟨fun h => (by cases h; rfl), fun h => (by rw [h]; rfl)⟩
  | uint p =>
    obtain ⟨n, hn⟩ := number_of_entries ha
    have hfits := hi.number _ n hn
    obtain ⟨m, rfl⟩ := Int.eq_ofNat_of_zero_le (Int.le_of_lt hfits.1)
    have haccepts : (DeviceKey.uint p).Accepts i ↔ m ≤ 65535 := by
      unfold DeviceKey.Accepts
      simp only [hn, Option.some.injEq, forall_eq']
      omega
    rw [haccepts, show (DeviceKey.uint p).attribute = .number p.attribute from rfl,
      configValue_number hn]
    show (parseUint16 (Java.valueOf m)).map (fun n : Nat =>
        { d with uint := Function.update d.uint p (some n) }) = .ok d' ↔ m ≤ 65535 ∧
      d' = { d with uint := Function.update d.uint p ((i.number p.attribute).map Int.toNat) }
    have hmax := hfits.2.1
    rw [parseUint16_valueOf (by omega), hn]
    by_cases hlarge : 65535 < m
    · simp only [if_pos hlarge]
      exact ⟨fun h => (by cases h), fun h => (by omega)⟩
    · simp only [if_neg hlarge]
      exact ⟨fun h => ⟨by omega, by cases h; rfl⟩, fun h => (by rw [h.2]; rfl)⟩
  | string p =>
    obtain ⟨t, ht⟩ := text_of_entries ha
    have haccepts : (DeviceKey.string p).Accepts i ↔
        (configText p.attribute t).length < maxAwgStringLen := by
      unfold DeviceKey.Accepts
      simp only [ht, Option.some.injEq, forall_eq']
    rw [haccepts, show (DeviceKey.string p).attribute = .text p.attribute from rfl,
      configValue_text ht]
    let value := (i.text p.attribute).map fun t => some (configText p.attribute t)
    have hvalue : value = some (some (configText p.attribute t)) := by
      show (i.text p.attribute).map _ = _
      rw [ht]
      rfl
    show (parseAwgString (configText p.attribute t)).map (fun s =>
        { d with string := Function.update d.string p (some s) }) = .ok d' ↔
      (configText p.attribute t).length < maxAwgStringLen ∧
        d' = { d with string := Function.update d.string p value }
    rw [parseAwgString_of_ne_nil (configText_ne_nil (hi.text _ t ht)), hvalue]
    by_cases hlong : maxAwgStringLen ≤ (configText p.attribute t).length
    · simp only [if_pos hlong]
      exact ⟨fun h => (by cases h), fun h => (by omega)⟩
    · simp only [if_neg hlong]
      exact ⟨fun h => ⟨by omega, by cases h; rfl⟩, fun h => (by rw [h.2]; rfl)⟩

theorem configValue_ne_nil (hi : i.Valid net) (hk : deviceKey a = some k)
    (ha : i.entries net a ≠ []) : configValue net i a ≠ [] := by
  obtain ⟨hattr, -⟩ := attribute_of_deviceKey hk
  cases a with
  | number a =>
    obtain ⟨n, hn⟩ := number_of_entries ha
    obtain ⟨m, rfl⟩ := Int.eq_ofNat_of_zero_le (Int.le_of_lt (hi.number _ n hn).1)
    rw [configValue_number hn]
    exact Java.valueOf_ne_nil m
  | text a =>
    obtain ⟨t, ht⟩ := text_of_entries ha
    rw [configValue_text ht]
    exact configText_ne_nil (hi.text _ t ht)
  | privateKey =>
    rw [configValue_privateKey]
    exact (Config.solid_toBase64 _).nonempty
  | _ => cases hk

theorem configReadLine_attribute (hnet : net.Documented) (hsys : sys.ReadsNumeric net)
    (hi : i.Valid net) (hk : deviceKey a = some k) (ha : i.entries net a ≠ [])
    {ctx' : ConfigCtx Addr} (hctx : ctx.isDeviceSection = true) :
    configReadLine sys ctx (fileLine (i.attributeLine net a)) = .ok ctx' ↔
      k.Accepts i ∧ ctx' = { ctx with device := ctx.device.setAttribute i k } := by
  have hleft : quickAction a = none := deviceKey_isSome.1 (by rw [hk]; rfl)
  rw [configReadLine_of_clean (by simp) (cleanConfigLine_attribute hnet hi hleft ha),
    processLine_device hctx hk (configValue_ne_nil hi hk ha)]
  cases hset : ctx.device.setKey sys k (configValue net i a) with
  | error e =>
    constructor
    · intro h
      cases h
    · rintro ⟨haccepts, -⟩
      have hok : ctx.device.setKey sys k (configValue net i a) =
          .ok (ctx.device.setAttribute i k) := (setKey_eq_ok_iff hsys hi hk ha).2 ⟨haccepts, rfl⟩
      rw [hset] at hok
      cases hok
  | ok d =>
    obtain ⟨haccepts, rfl⟩ := (setKey_eq_ok_iff hsys hi hk ha).1 hset
    constructor
    · intro h
      cases h
      exact ⟨haccepts, rfl⟩
    · rintro ⟨-, rfl⟩
      rfl

end Lines

end Amnezia.Tools
