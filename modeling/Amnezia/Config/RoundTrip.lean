import Amnezia.Config.Lists

/-!
# Reading back what was printed

`Config.parse` on the text of `Config.toAwgQuickString`.  Everything comes back but the search
domains of a configuration without DNS servers, and the end of the last application name.
-/

namespace Amnezia.Config

open Attribute LinkedSet Loops
open Java (Text)
open Crypto (Key)

theorem solid_toBase64 (key : Key) : Solid key.toBase64 where
  nonempty h := by
    have hread := Key.fromBase64_toBase64 key
    rw [h] at hread
    cases hread
  chars c hc := by
    have hchar := Key.base64Char_of_mem_toBase64 hc
    unfold Key.base64Char at hchar
    simp only [Bool.or_eq_true, beq_iff_eq] at hchar
    rcases hchar with ((h | rfl) | rfl) | rfl
    · exact solidChar_of_isAlphanum h
    · decide
    · decide
    · decide

theorem solid_valueOf_of_pos {n : Int} (hn : 0 < n) : Solid (Java.valueOf n) := by
  obtain ⟨m, rfl⟩ := Int.eq_ofNat_of_zero_le (Int.le_of_lt hn)
  exact solid_valueOf m

def reread (values : List Text) : List Text :=
  if values = [] then [] else split ((join values).rdropWhile Java.trimmable)

/-! ## Keys -/

namespace InterfaceAttribute

theorem ofKey_key (a : InterfaceAttribute) : ofKey (Java.toLowerCase a.key) = some a := by
  cases a with
  | number a => cases a <;> rfl
  | text a => cases a <;> rfl
  | _ => rfl

theorem key_ne_nil (a : InterfaceAttribute) : a.key ≠ [] := by
  cases a with
  | number a => cases a <;> decide
  | text a => cases a <;> decide
  | _ => decide

theorem key_word (a : InterfaceAttribute) : ∀ c ∈ a.key, Java.word c = true := by
  apply List.all_eq_true.1
  cases a with
  | number a => cases a <;> decide
  | text a => cases a <;> decide
  | _ => decide

end InterfaceAttribute

namespace PeerAttribute

theorem ofKey_key (a : PeerAttribute) : ofKey (Java.toLowerCase a.key) = some a := by
  cases a <;> rfl

theorem key_ne_nil (a : PeerAttribute) : a.key ≠ [] := by
  cases a <;> decide

theorem key_word (a : PeerAttribute) : ∀ c ∈ a.key, Java.word c = true := by
  apply List.all_eq_true.1
  cases a <;> decide

end PeerAttribute

theorem NumberAttribute.mem_all (a : NumberAttribute) : a ∈ NumberAttribute.all := by
  cases a <;> decide

theorem TextAttribute.mem_all (a : TextAttribute) : a ∈ TextAttribute.all := by
  cases a <;> decide

section Model

variable {Addr : Type} {net : Net Addr} {i : Interface Addr} {values : List Text} {v : Text}

/-! ## The lines of the file -/

def PrintedLine (l : Text) : Prop :=
  ∃ key v, key ≠ [] ∧ (∀ c ∈ key, Java.word c = true) ∧
    (∀ c ∈ v, valueChar c = true) ∧ l = line key v

theorem PrintedLine.ofInterface (a : InterfaceAttribute)
    (hv : ∀ c ∈ v, valueChar c = true) : PrintedLine (line a.key v) :=
  ⟨a.key, v, a.key_ne_nil, a.key_word, hv, rfl⟩

theorem PrintedLine.ofPeer (a : PeerAttribute) (hv : Solid v) :
    PrintedLine (line a.key v) :=
  ⟨a.key, v, a.key_ne_nil, a.key_word, hv.token.chars, rfl⟩

variable {l : Text}

theorem PrintedLine.notMem (h : PrintedLine l) : '\n' ∉ l ∧ '\r' ∉ l := by
  obtain ⟨key, v, -, hword, hv, rfl⟩ := h
  have hline : ∀ d : Char, Java.word d = false → valueChar d = false → d ≠ ' ' → d ≠ '=' →
      d ∉ line key v := by
    intro d hd hd' hblank heq hmem
    unfold line at hmem
    rcases List.mem_append.1 hmem with hmem | hmem
    · rw [hword d hmem] at hd
      cases hd
    · simp only [List.mem_cons] at hmem
      rcases hmem with h | h | h | h
      · exact hblank h
      · exact heq h
      · exact hblank h
      · rw [hv d h] at hd'
        cases hd'
  exact ⟨hline '\n' (by decide) (by decide) (by decide) (by decide),
    hline '\r' (by decide) (by decide) (by decide) (by decide)⟩

theorem PrintedLine.clean_head (h : PrintedLine l) : clean l ≠ [] ∧ (clean l).head? ≠ some '[' := by
  obtain ⟨key, v, hkey, hword, hv, rfl⟩ := h
  obtain ⟨k, ks, rfl⟩ := List.exists_cons_of_ne_nil hkey
  rw [clean_line hkey hword hv]
  refine ⟨by simp, ?_⟩
  intro hhead
  have hk : k = '[' := by simpa using hhead
  have hbad := hword k (by simp)
  rw [hk] at hbad
  exact absurd hbad (by decide)

theorem Interface.printed_listLine {a : InterfaceAttribute}
    (hvalues : ∀ t ∈ values, Token t) (h : l ∈ listLine a values) : PrintedLine l := by
  unfold listLine at h
  split at h
  · exact absurd h List.not_mem_nil
  · rw [List.mem_singleton.1 h]
    exact .ofInterface a (valueChar_of_mem_join hvalues)

theorem Interface.printed_quickLines (hnet : net.Documented) (hi : i.Valid net)
    (h : l ∈ i.quickLines net) : PrintedLine l := by
  simp only [quickLines, List.mem_append] at h
  rcases h with (((((h | h) | h) | h) | h) | h) | h
  · refine printed_listLine (fun t ht => ?_) h
    obtain ⟨n, hn, rfl⟩ := List.mem_map.1 ht
    exact (InetNetwork.solid_toString hnet (hi.addresses n hn).1).token
  · refine printed_listLine (fun t ht => ?_) h
    unfold dnsValues at ht
    split at ht
    · exact absurd ht List.not_mem_nil
    · rcases List.mem_append.1 ht with ht | ht
      · obtain ⟨a, -, rfl⟩ := List.mem_map.1 ht
        exact (solid_getHostAddress hnet a).token
      · exact (solid_of_isHostname (hi.domains t ht).isHostname).token
  · exact printed_listLine hi.excluded h
  · exact printed_listLine hi.included h
  · obtain ⟨a, -, h⟩ := List.mem_flatMap.1 h
    unfold numberLine at h
    split at h
    · exact absurd h List.not_mem_nil
    · next n hn =>
      rw [List.mem_singleton.1 h]
      exact .ofInterface (.number a) (solid_valueOf_of_pos (hi.number a n hn).1).token.chars
  · obtain ⟨a, -, h⟩ := List.mem_flatMap.1 h
    unfold textLine at h
    split at h
    · exact absurd h List.not_mem_nil
    · next t ht =>
      rw [List.mem_singleton.1 h]
      exact .ofInterface (.text a) (hi.text a t ht).chars
  · rw [List.mem_singleton.1 h]
    exact .ofInterface .privateKey (solid_toBase64 i.privateKey).token.chars

theorem Peer.printed_quickLines (hnet : net.Documented) {p : Peer Addr} (hp : p.Valid net)
    (h : l ∈ p.quickLines net) : PrintedLine l := by
  have hoption : ∀ (a : PeerAttribute) (value : Option Text),
      (∀ v, value = some v → Solid v) → l ∈ optionLine a value → PrintedLine l := by
    intro a value hsolid hl
    cases value with
    | none => exact absurd hl List.not_mem_nil
    | some v =>
      rw [show l = line a.key v from List.mem_singleton.1 hl]
      exact .ofPeer a (hsolid v rfl)
  simp only [quickLines, List.mem_append] at h
  rcases h with (((h | h) | h) | h) | h
  · split at h
    · exact absurd h List.not_mem_nil
    · rw [List.mem_singleton.1 h]
      refine ⟨_, _, PeerAttribute.allowedIps.key_ne_nil, PeerAttribute.allowedIps.key_word,
        valueChar_of_mem_join (fun t ht => ?_), rfl⟩
      obtain ⟨n, hn, rfl⟩ := List.mem_map.1 ht
      exact (InetNetwork.solid_toString hnet (hp.allowedIps n hn).1).token
  · refine hoption .endpoint _ (fun v hv => ?_) h
    obtain ⟨e, he, rfl⟩ := Option.map_eq_some_iff.1 hv
    exact InetEndpoint.solid_toString hnet (hp.endpoint e he)
  · refine hoption .persistentKeepalive _ (fun v hv => ?_) h
    obtain ⟨n, hn, rfl⟩ := Option.map_eq_some_iff.1 hv
    exact solid_valueOf_of_pos (hp.persistentKeepalive n hn).1
  · refine hoption .preSharedKey _ (fun v hv => ?_) h
    obtain ⟨key, -, rfl⟩ := Option.map_eq_some_iff.1 hv
    exact solid_toBase64 key
  · rw [List.mem_singleton.1 h]
    exact .ofPeer .publicKey (solid_toBase64 p.publicKey)

variable (net) in
def quickLines (c : Config Addr) : List Text :=
  "[Interface]".toList :: c.interfaze.quickLines net
    ++ c.peers.flatMap fun p => [] :: "[Peer]".toList :: p.quickLines net

theorem toAwgQuickString_eq (c : Config Addr) :
    c.toAwgQuickString net = (c.quickLines net).flatMap (· ++ ['\n']) := by
  have hpeer : ∀ p : Peer Addr, "\n[Peer]\n".toList ++ p.toAwgQuickString net =
      ([] :: "[Peer]".toList :: p.quickLines net).flatMap (· ++ ['\n']) := by
    intro p
    rfl
  unfold toAwgQuickString quickLines
  rw [List.flatMap_append, List.flatMap_assoc]
  simp only [hpeer]
  rfl

theorem cleanLines_toAwgQuickString (hnet : net.Documented) {c : Config Addr}
    (hi : c.interfaze.Valid net) (hp : ∀ p ∈ c.peers, p.Valid net) :
    cleanLines (c.toAwgQuickString net) =
      "[Interface]".toList :: (c.interfaze.quickLines net).map clean
        ++ c.peers.flatMap fun p => [] :: "[Peer]".toList :: (p.quickLines net).map clean := by
  have hlines : ∀ l ∈ c.quickLines net, '\n' ∉ l ∧ '\r' ∉ l := by
    intro l hl
    unfold quickLines at hl
    rcases List.mem_append.1 hl with hl | hl
    · rcases List.mem_cons.1 hl with rfl | hl
      · decide
      · exact (Interface.printed_quickLines hnet hi hl).notMem
    · obtain ⟨p, hpp, hl⟩ := List.mem_flatMap.1 hl
      simp only [List.mem_cons] at hl
      rcases hl with rfl | rfl | hl
      · decide
      · decide
      · exact (Peer.printed_quickLines hnet (hp p hpp) hl).notMem
  have hheader : clean "[Interface]".toList = "[Interface]".toList := by decide
  have hpeer : clean "[Peer]".toList = "[Peer]".toList := by decide
  have hnil : clean [] = [] := by decide
  unfold cleanLines
  rw [toAwgQuickString_eq, Java.readLines_flatMap hlines]
  unfold quickLines
  rw [List.map_append, List.map_cons, hheader, List.map_flatMap]
  simp only [List.map_cons, hnil, hpeer]

/-! ## Values -/

namespace InterfaceBuilder

theorem parseNumber_valueOf {a : NumberAttribute} {n : Int} (hn : NumberFits a n)
    (b : InterfaceBuilder Addr) : parseNumber a b (Java.valueOf n) =
      .ok { b with number := Function.update b.number a (some n) } := by
  obtain ⟨hpos, hmax, hlarge⟩ := hn
  obtain ⟨m, rfl⟩ := Int.eq_ofNat_of_zero_le (by omega : 0 ≤ n)
  have hparse : Java.parseInt (Java.valueOf (m : Int)) = some (m : Int) :=
    Java.parseInt_valueOf (by omega)
  have hok : ¬((m : Int) < 0 ∨ a.tooLarge m = true) := by
    rw [hlarge]
    simp
  unfold parseNumber
  rw [hparse]
  simp only [setNumber]
  rw [if_neg hok, if_neg (by omega)]

theorem parseText_kept {a : TextAttribute} {t : Text} (ht : KeptText t) (b : InterfaceBuilder Addr) :
    parseText a b t = { b with text := Function.update b.text a (some t) } := by
  have htrim : Java.trim t = t := ht.bare.strip
  simp only [parseText, htrim, if_neg ht.nonempty]

theorem parsePrivateKey_toBase64 (key : Key) (b : InterfaceBuilder Addr) :
    b.parsePrivateKey key.toBase64 = .ok { b with keyPair := some key } := by
  unfold parsePrivateKey
  rw [Key.fromBase64_toBase64]

end InterfaceBuilder

namespace PeerBuilder

theorem parsePersistentKeepalive_valueOf {n : Int} (hpos : 0 < n) (hmax : n ≤ 65535)
    (b : PeerBuilder Addr) : b.parsePersistentKeepalive (Java.valueOf n) =
      .ok { b with persistentKeepalive := some n } := by
  obtain ⟨m, rfl⟩ := Int.eq_ofNat_of_zero_le (Int.le_of_lt hpos)
  have hparse : Java.parseInt (Java.valueOf (m : Int)) = some (m : Int) :=
    Java.parseInt_valueOf (by omega)
  unfold parsePersistentKeepalive
  rw [hparse]
  simp only [setPersistentKeepalive]
  rw [if_neg (by omega), if_neg (by omega)]

theorem parseEndpoint_toString (hnet : net.Documented) {e : InetEndpoint} (he : e.Valid net)
    (b : PeerBuilder Addr) : b.parseEndpoint net e.toString = .ok { b with endpoint := some e } := by
  unfold parseEndpoint
  rw [InetEndpoint.parse_toString hnet he]

theorem parsePreSharedKey_toBase64 (key : Key) (b : PeerBuilder Addr) :
    b.parsePreSharedKey key.toBase64 = .ok { b with preSharedKey := some key } := by
  unfold parsePreSharedKey
  rw [Key.fromBase64_toBase64]

theorem parsePublicKey_toBase64 (key : Key) (b : PeerBuilder Addr) :
    b.parsePublicKey key.toBase64 = .ok { b with publicKey := some key } := by
  unfold parsePublicKey
  rw [Key.fromBase64_toBase64]

end PeerBuilder

variable [DecidableEq Addr] {value : Text} {set : LinkedSet (InetNetwork Addr)}

theorem insertNetworks_reread (hnet : net.Documented) {ns : List (InetNetwork Addr)}
    (hns : ∀ n ∈ ns, MaskFits net n)
    (hvalue : split value = ns.map (InetNetwork.toString net))
    (set : LinkedSet (InetNetwork Addr)) :
    insertNetworks net set value = .ok (set.insertAll ns) := by
  unfold insertNetworks
  rw [hvalue, List.foldlM_map]
  refine foldlM_eq_ok id (fun set n hn => ?_) set
  rw [InetNetwork.parse_toString hnet (hns n hn).1 (hns n hn).2]
  rfl

namespace InterfaceBuilder

variable {b : InterfaceBuilder Addr}

theorem parseAddresses_split (hnet : net.Documented) (hset : ∀ n ∈ set, MaskFits net n)
    (hvalue : split value = set.toList.map (InetNetwork.toString net))
    (hb : b.addresses = .empty) : b.parseAddresses net value = .ok { b with addresses := set } := by
  unfold parseAddresses
  rw [insertNetworks_reread hnet hset hvalue, hb, insertAll_toList]

theorem foldlM_servers (hnet : net.Documented) (servers : List Addr) (b : InterfaceBuilder Addr) :
    (servers.map net.getHostAddress).foldlM (parseDnsServer net) b =
      .ok { b with dnsServers := b.dnsServers.insertAll servers } := by
  rw [List.foldlM_map]
  refine foldlM_eq_ok (fun set => { b with dnsServers := set }) (fun set a _ => ?_) _
  unfold parseDnsServer
  rw [InetAddresses.parse_getHostAddress hnet]

theorem foldlM_domains {domains : List Text} (hdomains : ∀ d ∈ domains, SearchDomain net d)
    (b : InterfaceBuilder Addr) : domains.foldlM (parseDnsServer net) b =
      .ok { b with dnsSearchDomains := b.dnsSearchDomains.insertAll domains } := by
  refine foldlM_eq_ok (fun set => { b with dnsSearchDomains := set }) (fun set d hd => ?_) _
  obtain ⟨hname, e, he, hclass⟩ := hdomains d hd
  unfold parseDnsServer
  rw [he]
  simp only [hclass, hname]
  rfl

theorem parseDnsServers_split (hnet : net.Documented) {servers : LinkedSet Addr}
    {domains : LinkedSet Text} (hdomains : ∀ d ∈ domains, SearchDomain net d)
    (hvalue : split value = servers.toList.map net.getHostAddress ++ domains.toList)
    (hservers : b.dnsServers = .empty) (hnames : b.dnsSearchDomains = .empty) :
    b.parseDnsServers net value =
      .ok { b with dnsServers := servers, dnsSearchDomains := domains } := by
  have hfold : (servers.toList.map net.getHostAddress ++ domains.toList).foldlM
      (parseDnsServer net) b = .ok { b with
        dnsServers := b.dnsServers.insertAll servers.toList
        dnsSearchDomains := b.dnsSearchDomains.insertAll domains.toList } := by
    rw [foldlM_append_eq_ok]
    exact ⟨_, foldlM_servers hnet _ b, foldlM_domains hdomains _⟩
  unfold parseDnsServers
  rw [hvalue, hfold, hservers, hnames, insertAll_toList, insertAll_toList]

theorem parseLine_printed (b : InterfaceBuilder Addr) (a : InterfaceAttribute)
    (hv : ∀ c ∈ v, valueChar c = true) (hhead : ∀ c ∈ v.head?, Java.space c = false) :
    b.parseLine net (clean (line a.key v)) =
      b.parseAttribute net a (v.rdropWhile Java.trimmable) := by
  unfold parseLine
  rw [parse_clean_line a.key_ne_nil a.key_word hv hhead]
  simp only [a.ofKey_key]

theorem parseLine_solid (b : InterfaceBuilder Addr) (a : InterfaceAttribute)
    (hv : Solid v) :
    b.parseLine net (clean (line a.key v)) = b.parseAttribute net a v := by
  rw [parseLine_printed b a hv.token.chars hv.token.bare.head, hv.trimmed]

/-! ## Lists -/

theorem foldlM_listLine (b : InterfaceBuilder Addr) (a : InterfaceAttribute)
    (h : ∀ t ∈ values, Token t) :
    ((Interface.listLine a values).map clean).foldlM (parseLine net) b =
      if values = [] then .ok b
      else b.parseAttribute net a ((join values).rdropWhile Java.trimmable) := by
  unfold Interface.listLine
  split
  · rfl
  · rw [List.map_singleton, List.foldlM_cons, parseLine_printed b a
      (valueChar_of_mem_join h) (head_join h)]
    exact bind_pure _

theorem foldlM_addressLine (hnet : net.Documented) (hset : ∀ n ∈ set, MaskFits net n)
    (hb : b.addresses = .empty) :
    ((Interface.listLine .address (set.toList.map (InetNetwork.toString net))).map clean).foldlM
      (parseLine net) b = .ok { b with addresses := set } := by
  have hsolid : ∀ t ∈ set.toList.map (InetNetwork.toString net), Solid t := by
    intro t ht
    obtain ⟨n, hn, rfl⟩ := List.mem_map.1 ht
    exact InetNetwork.solid_toString hnet (hset n hn).1
  rw [foldlM_listLine b .address (fun t ht => (hsolid t ht).token)]
  split
  · next hnil =>
    rw [List.map_eq_nil_iff] at hnil
    have hset : set = .empty := ext_toList hnil
    rw [hset, ← hb]
  · next hne =>
    exact parseAddresses_split hnet hset (split_solid hne hsolid) hb

theorem foldlM_dnsLine (hnet : net.Documented)
    (hdomains : ∀ d ∈ i.dnsSearchDomains, SearchDomain net d) (hservers : b.dnsServers = .empty)
    (hnames : b.dnsSearchDomains = .empty) :
    ((Interface.listLine .dns (i.dnsValues net)).map clean).foldlM (parseLine net) b =
      .ok { b with
        dnsServers := i.dnsServers
        dnsSearchDomains := if i.dnsServers.isEmpty then .empty else i.dnsSearchDomains } := by
  by_cases hempty : i.dnsServers.isEmpty = true
  · have hvalues : i.dnsValues net = [] := if_pos hempty
    rw [hvalues, isEmpty_iff.1 hempty, ← hservers]
    simp only [hservers, show (empty : LinkedSet Addr).isEmpty = true from rfl, if_true]
    rw [← hnames, ← hservers]
    rfl
  · have hvalues : i.dnsValues net =
        i.dnsServers.toList.map net.getHostAddress ++ i.dnsSearchDomains.toList := if_neg hempty
    have hne : i.dnsValues net ≠ [] := by
      intro hnil
      rw [hvalues, List.append_eq_nil_iff, List.map_eq_nil_iff] at hnil
      exact hempty (List.isEmpty_iff.2 hnil.1)
    have hsolid : ∀ t ∈ i.dnsValues net, Solid t := by
      intro t ht
      rw [hvalues, List.mem_append] at ht
      rcases ht with ht | ht
      · obtain ⟨a, -, rfl⟩ := List.mem_map.1 ht
        exact solid_getHostAddress hnet a
      · exact solid_of_isHostname (hdomains t ht).isHostname
    have hsplit := split_solid hne hsolid
    rw [foldlM_listLine b .dns (fun t ht => (hsolid t ht).token), if_neg hne, if_neg hempty]
    rw [hvalues] at hsplit ⊢
    exact parseDnsServers_split hnet hdomains hsplit hservers hnames

theorem foldlM_excludedLine (h : ∀ t ∈ values, Token t) (b : InterfaceBuilder Addr) :
    ((Interface.listLine .excludedApplications values).map clean).foldlM (parseLine net) b =
      .ok { b with
        excludedApplications := b.excludedApplications.insertAll (reread values) } := by
  rw [foldlM_listLine b _ h]
  unfold reread
  split
  · rfl
  · rfl

theorem foldlM_includedLine (h : ∀ t ∈ values, Token t) (b : InterfaceBuilder Addr) :
    ((Interface.listLine .includedApplications values).map clean).foldlM (parseLine net) b =
      .ok { b with
        includedApplications := b.includedApplications.insertAll (reread values) } := by
  rw [foldlM_listLine b _ h]
  unfold reread
  split
  · rfl
  · rfl

/-! ## Numbers and texts -/

theorem foldlM_numberLines (hi : ∀ a n, i.number a = some n → NumberFits a n)
    (hb : b.number = fun _ => none) :
    ((NumberAttribute.all.flatMap i.numberLine).map clean).foldlM (parseLine net) b =
      .ok { b with number := i.number } := by
  have hlines : (NumberAttribute.all.flatMap i.numberLine).map clean =
      NumberAttribute.all.flatMap fun a => (i.number a).toList.map fun n =>
        clean (line a.key (Java.valueOf n)) := by
    rw [List.map_flatMap]
    congr
    funext a
    unfold Interface.numberLine
    cases i.number a <;> rfl
  have hstart : b = { b with number := fun _ => none } := by rw [← hb]
  rw [hlines, hstart]
  refine (chains_foldlM (parseLine net)).family NumberAttribute.mem_all
    (fun u => { b with number := u }) ?_
  intro u a n hn
  have hfits := hi a n hn
  rw [foldlM_singleton, show a.key = (InterfaceAttribute.number a).key from rfl,
    parseLine_solid _ _ (solid_valueOf_of_pos hfits.1), parseAttribute_number, parseNumber_valueOf hfits]

theorem foldlM_textLines (hi : ∀ a t, i.text a = some t → KeptText t) (hb : b.text = fun _ => none) :
    ((TextAttribute.all.flatMap i.textLine).map clean).foldlM (parseLine net) b =
      .ok { b with text := i.text } := by
  have hlines : (TextAttribute.all.flatMap i.textLine).map clean =
      TextAttribute.all.flatMap fun a => (i.text a).toList.map fun t =>
        clean (line a.key t) := by
    rw [List.map_flatMap]
    congr
    funext a
    unfold Interface.textLine
    cases i.text a <;> rfl
  have hstart : b = { b with text := fun _ => none } := by rw [← hb]
  rw [hlines, hstart]
  refine (chains_foldlM (parseLine net)).family TextAttribute.mem_all
    (fun u => { b with text := u }) ?_
  intro u a t htext
  have ht := hi a t htext
  have hbare : Fields.Bare Java.space t := ht.bare.mono fun _ => Java.trimmable_of_space
  rw [foldlM_singleton, show a.key = (InterfaceAttribute.text a).key from rfl,
    parseLine_printed _ _ ht.chars hbare.head, Fields.rdropWhile_of_last ht.bare.last,
    parseAttribute_text, parseText_kept ht]

theorem foldlM_privateKeyLine (key : Key) (b : InterfaceBuilder Addr) :
    ([line InterfaceAttribute.privateKey.key key.toBase64].map clean).foldlM
      (parseLine net) b = .ok { b with keyPair := some key } := by
  rw [List.map_singleton, foldlM_singleton, parseLine_solid b _ (solid_toBase64 key)]
  exact parsePrivateKey_toBase64 key b

end InterfaceBuilder

/-! ## The interface -/

def Interface.reprinted (i : Interface Addr) : Interface Addr :=
  { i with
    dnsSearchDomains := if i.dnsServers.isEmpty then .empty else i.dnsSearchDomains
    excludedApplications := .insertAll .empty (reread i.excludedApplications.toList)
    includedApplications := .insertAll .empty (reread i.includedApplications.toList) }

theorem Interface.parse_quickLines (hnet : net.Documented) (hi : i.Valid net) :
    Interface.parse net ((i.quickLines net).map clean) = .ok i.reprinted := by
  -- the builder after all the lines
  let b : InterfaceBuilder Addr :=
    ⟨i.addresses, i.dnsServers, i.reprinted.dnsSearchDomains, i.reprinted.excludedApplications,
      i.reprinted.includedApplications, some i.privateKey, i.number, i.text⟩
  have hfold : ((i.quickLines net).map clean).foldlM (InterfaceBuilder.parseLine net) .new
      = .ok b := by
    simp only [quickLines, List.map_append, foldlM_append_eq_ok]
    refine ⟨_, ⟨_, ⟨_, ⟨_, ⟨_, ⟨_, InterfaceBuilder.foldlM_addressLine hnet hi.addresses rfl,
      InterfaceBuilder.foldlM_dnsLine hnet hi.domains rfl rfl⟩,
      InterfaceBuilder.foldlM_excludedLine hi.excluded _⟩,
      InterfaceBuilder.foldlM_includedLine hi.included _⟩,
      InterfaceBuilder.foldlM_numberLines hi.number rfl⟩,
      InterfaceBuilder.foldlM_textLines hi.text rfl⟩, ?_⟩
    exact InterfaceBuilder.foldlM_privateKeyLine i.privateKey _
  have hboth : ¬(b.includedApplications.isEmpty = false ∧
      b.excludedApplications.isEmpty = false) := by
    -- an empty list is not printed, so it is empty again
    rintro ⟨hinc, hexc⟩
    rcases hi.exclusive with h | h
    · have hempty : b.includedApplications = .empty := by
        show i.reprinted.includedApplications = _
        simp only [reprinted, h]
        rfl
      rw [hempty] at hinc
      cases hinc
    · have hempty : b.excludedApplications = .empty := by
        show i.reprinted.excludedApplications = _
        simp only [reprinted, h]
        rfl
      rw [hempty] at hexc
      cases hexc
  unfold Interface.parse
  rw [hfold]
  show b.build = _
  exact if_neg hboth

/-! ## The peers -/

namespace PeerBuilder

theorem parseLine_solid (b : PeerBuilder Addr) (a : PeerAttribute) (hv : Solid v) :
    b.parseLine net (clean (line a.key v)) = b.parseAttribute net a v := by
  unfold parseLine
  rw [parse_solid a.key_ne_nil a.key_word hv]
  simp only [a.ofKey_key]

variable {b : PeerBuilder Addr}

theorem foldlM_optionLine {V : Type} (a : PeerAttribute) {value : Option V} {print : V → Text}
    (set : PeerBuilder Addr → Option V → PeerBuilder Addr)
    (hsolid : ∀ v, value = some v → Solid (print v))
    (hread : ∀ v, value = some v → b.parseAttribute net a (print v) = .ok (set b (some v)))
    (hnone : set b none = b) :
    ((Peer.optionLine a (value.map print)).map clean).foldlM (parseLine net) b =
      .ok (set b value) := by
  cases value with
  | none =>
    rw [hnone]
    rfl
  | some v =>
    show ([clean (line a.key (print v))]).foldlM (parseLine net) b = _
    rw [List.foldlM_cons, parseLine_solid b a (hsolid v rfl), hread v rfl]
    rfl

theorem parseAllowedIPs_split (hnet : net.Documented) (hset : ∀ n ∈ set, MaskFits net n)
    (hvalue : split value = set.toList.map (InetNetwork.toString net))
    (hb : b.allowedIps = .empty) :
    b.parseAllowedIPs net value = .ok { b with allowedIps := set } := by
  unfold parseAllowedIPs
  rw [insertNetworks_reread hnet hset hvalue, hb, insertAll_toList]

theorem foldlM_allowedIpsLine (hnet : net.Documented) (hset : ∀ n ∈ set, MaskFits net n)
    (hb : b.allowedIps = .empty) :
    ((if set.isEmpty then []
      else [line PeerAttribute.allowedIps.key
        (join (set.toList.map (InetNetwork.toString net)))]).map clean).foldlM
      (parseLine net) b = .ok { b with allowedIps := set } := by
  split
  · next hempty =>
    rw [isEmpty_iff.1 hempty, ← hb]
    rfl
  · next hne =>
    have hsolid : ∀ t ∈ set.toList.map (InetNetwork.toString net), Solid t := by
      intro t ht
      obtain ⟨n, hn, rfl⟩ := List.mem_map.1 ht
      exact InetNetwork.solid_toString hnet (hset n hn).1
    have hne : set.toList.map (InetNetwork.toString net) ≠ [] := by
      intro hnil
      rw [List.map_eq_nil_iff] at hnil
      exact hne (List.isEmpty_iff.2 hnil)
    have htokens := fun t ht => (hsolid t ht).token
    rw [List.map_singleton, foldlM_singleton]
    unfold parseLine
    rw [parse_clean_line PeerAttribute.allowedIps.key_ne_nil
      PeerAttribute.allowedIps.key_word (valueChar_of_mem_join htokens)
      (head_join htokens)]
    simp only [PeerAttribute.ofKey_key]
    exact parseAllowedIPs_split hnet hset (split_solid hne hsolid) hb

end PeerBuilder

theorem Peer.parse_quickLines (hnet : net.Documented) {p : Peer Addr} (hp : p.Valid net) :
    Peer.parse net ((p.quickLines net).map clean) = .ok p := by
  have hfold : ((p.quickLines net).map clean).foldlM (PeerBuilder.parseLine net) .new =
      .ok ⟨p.allowedIps, p.endpoint, p.persistentKeepalive, p.preSharedKey, some p.publicKey⟩ := by
    simp only [quickLines, List.map_append, foldlM_append_eq_ok]
    refine ⟨_, ⟨_, ⟨_, ⟨_, PeerBuilder.foldlM_allowedIpsLine hnet hp.allowedIps rfl,
      PeerBuilder.foldlM_optionLine .endpoint (fun b v => { b with endpoint := v })
        (fun e he => InetEndpoint.solid_toString hnet (hp.endpoint e he)) ?_ rfl⟩,
      PeerBuilder.foldlM_optionLine .persistentKeepalive
        (fun b v => { b with persistentKeepalive := v })
        (fun n hn => solid_valueOf_of_pos (hp.persistentKeepalive n hn).1) ?_ rfl⟩,
      PeerBuilder.foldlM_optionLine .preSharedKey (fun b v => { b with preSharedKey := v })
        (fun key _ => solid_toBase64 key) ?_ rfl⟩, ?_⟩
    · intro e he
      exact PeerBuilder.parseEndpoint_toString hnet (hp.endpoint e he) _
    · intro n hn
      obtain ⟨hpos, hmax⟩ := hp.persistentKeepalive n hn
      exact PeerBuilder.parsePersistentKeepalive_valueOf hpos hmax _
    · intro key _
      exact PeerBuilder.parsePreSharedKey_toBase64 key _
    · rw [List.map_singleton, foldlM_singleton,
        PeerBuilder.parseLine_solid _ _ (solid_toBase64 p.publicKey)]
      exact PeerBuilder.parsePublicKey_toBase64 p.publicKey _
  unfold Peer.parse
  rw [hfold]
  rfl

/-! ## The file -/

namespace ParseState

theorem foldlM_interfaceLines {lines : List Text}
    (hlines : ∀ l ∈ lines, l ≠ [] ∧ l.head? ≠ some '[') {st : ParseState Addr}
    (hst : st.inInterfaceSection = true) : lines.foldlM (cleanedLine net) st =
      .ok { st with interfaceLines := st.interfaceLines ++ lines } := by
  refine foldlM_gather (fun done => { st with interfaceLines := done }) (fun done l hl => ?_) _
  unfold cleanedLine
  rw [if_neg (hlines l hl).1, if_neg (hlines l hl).2, if_pos hst]

theorem foldlM_peerLines {lines : List Text}
    (hlines : ∀ l ∈ lines, l ≠ [] ∧ l.head? ≠ some '[') {st : ParseState Addr}
    (hi : st.inInterfaceSection = false) (hp : st.inPeerSection = true) :
    lines.foldlM (cleanedLine net) st =
      .ok { st with peerLines := st.peerLines ++ lines } := by
  refine foldlM_gather (fun done => { st with peerLines := done }) (fun done l hl => ?_) _
  unfold cleanedLine
  rw [if_neg (hlines l hl).1, if_neg (hlines l hl).2, if_neg (by simp [hi]), if_pos hp]

theorem foldlM_peers (hnet : net.Documented) {peers : List (Peer Addr)}
    (hpeers : ∀ p ∈ peers, p.Valid net) {st t : ParseState Addr}
    (hconsume : st.consumePeer net = .ok t) (hlines : t.peerLines = []) :
    ∃ st' t', (peers.flatMap fun p => [] :: "[Peer]".toList :: (p.quickLines net).map clean).foldlM
        (cleanedLine net) st = .ok st' ∧
      st'.consumePeer net = .ok t' ∧ t'.peers = t.peers ++ peers ∧
      t'.interfaceLines = t.interfaceLines ∧
      t'.seenInterfaceSection = t.seenInterfaceSection := by
  induction peers generalizing st t with
  | nil => exact ⟨st, t, rfl, hconsume, by simp, rfl, rfl⟩
  | cons p peers ih =>
    have hp := hpeers p (by simp)
    have hheads : ∀ l ∈ (p.quickLines net).map clean, l ≠ [] ∧ l.head? ≠ some '[' := by
      intro l hl
      obtain ⟨l', hl', rfl⟩ := List.mem_map.1 hl
      exact (Peer.printed_quickLines hnet hp hl').clean_head
    -- the state after the header, and after the lines of the peer
    let t₁ : ParseState Addr := { t with inInterfaceSection := false, inPeerSection := true }
    let t₂ : ParseState Addr := { t₁ with peerLines := (p.quickLines net).map clean }
    have hheader : st.cleanedLine net "[Peer]".toList = .ok t₁ := by
      have hcons : st.cleanedLine net "[Peer]".toList =
          (st.consumePeer net >>= (header · "[Peer]".toList)) := rfl
      rw [hcons, hconsume]
      rfl
    have hpeerLines : ((p.quickLines net).map clean).foldlM (cleanedLine net) t₁ = .ok t₂ := by
      rw [foldlM_peerLines hheads rfl rfl]
      show Except.ok { t₁ with peerLines := t.peerLines ++ (p.quickLines net).map clean } = _
      rw [hlines]
      rfl
    have hconsume₂ : t₂.consumePeer net =
        .ok { t₂ with peers := t.peers ++ [p], peerLines := [] } := by
      unfold consumePeer
      rw [if_pos rfl]
      show (Peer.parse net ((p.quickLines net).map clean)).map _ = _
      rw [Peer.parse_quickLines hnet hp]
      rfl
    obtain ⟨st', t', hfold, hcons', hpeers', hi', hs'⟩ :=
      ih (fun q hq => hpeers q (by simp [hq])) hconsume₂ rfl
    refine ⟨st', t', ?_, hcons', ?_, hi', hs'⟩
    · rw [List.flatMap_cons, foldlM_append_eq_ok]
      refine ⟨t₂, ?_, hfold⟩
      rw [foldlM_cons_eq_ok]
      refine ⟨st, rfl, ?_⟩
      rw [foldlM_cons_eq_ok]
      exact ⟨t₁, hheader, hpeerLines⟩
    · rw [hpeers']
      simp

end ParseState

theorem parse_toAwgQuickString (hnet : net.Documented) {c : Config Addr}
    (hi : c.interfaze.Valid net) (hp : ∀ p ∈ c.peers, p.Valid net) :
    parse net (c.toAwgQuickString net) = .ok ⟨c.interfaze.reprinted, c.peers⟩ := by
  have hheads : ∀ l ∈ (c.interfaze.quickLines net).map clean, l ≠ [] ∧ l.head? ≠ some '[' := by
    intro l hl
    obtain ⟨l', hl', rfl⟩ := List.mem_map.1 hl
    exact (Interface.printed_quickLines hnet hi hl').clean_head
  let st₁ : ParseState Addr := { inInterfaceSection := true, seenInterfaceSection := true }
  let st₂ : ParseState Addr :=
    { st₁ with interfaceLines := (c.interfaze.quickLines net).map clean }
  have hinterface : ((c.interfaze.quickLines net).map clean).foldlM (ParseState.cleanedLine net) st₁ =
      .ok st₂ := ParseState.foldlM_interfaceLines hheads rfl
  obtain ⟨st', t', hfold, hconsume, hpeers, hlines, hseen⟩ :=
    ParseState.foldlM_peers hnet hp (show st₂.consumePeer net = .ok st₂ from rfl) rfl
  have hall : (cleanLines (c.toAwgQuickString net)).foldlM (ParseState.cleanedLine net) {} =
      .ok st' := by
    rw [cleanLines_toAwgQuickString hnet hi hp, foldlM_append_eq_ok]
    refine ⟨st₂, ?_, hfold⟩
    rw [foldlM_cons_eq_ok]
    exact ⟨st₁, rfl, hinterface⟩
  unfold cleanLines at hall
  rw [List.foldlM_map] at hall
  unfold parse
  rw [hall]
  show (st'.consumePeer net >>= _) = _
  rw [hconsume]
  show (if t'.seenInterfaceSection = false then _ else _) = _
  rw [if_neg (by rw [hseen]; show ¬(true = false); decide), hlines]
  show (Interface.parse net ((c.interfaze.quickLines net).map clean) >>= _) = _
  rw [Interface.parse_quickLines hnet hi, hpeers]
  rfl

end Model

end Amnezia.Config
