import Amnezia.Config.RoundTrip
import Amnezia.Config.Lists

/-!
# A printed configuration, attribute by attribute

The lines of `toAwgQuickString` as the attributes that have entries, in the order of the printers:
the entries of a list, or the one text of any other attribute.
-/

namespace Amnezia.Config

open Java (Text)
open Attribute
open Crypto (Key)

theorem flatMap_lines_eq {ι : Type} (key : ι → Text) (entries : ι → List Text) (order : List ι) :
    (order.flatMap fun a =>
      if entries a = [] then [] else [line (key a) (join (entries a))]) =
    (order.filter fun a => entries a ≠ []).map fun a =>
      line (key a) (join (entries a)) := by
  induction order with
  | nil => rfl
  | cons a order ih =>
    rw [List.flatMap_cons, ih]
    by_cases h : entries a = []
    · rw [if_pos h, List.filter_cons_of_neg (by simpa using h), List.nil_append]
    · rw [if_neg h, List.filter_cons_of_pos (by simpa using h), List.map_cons]
      rfl

theorem join_singleton (t : Text) : join [t] = t := List.intercalate_singleton ..

namespace InterfaceAttribute

def order : List InterfaceAttribute :=
  [.address, .dns, .excludedApplications, .includedApplications]
    ++ NumberAttribute.all.map .number ++ TextAttribute.all.map .text ++ [.privateKey]

theorem mem_order (a : InterfaceAttribute) : a ∈ order := by
  cases a with
  | number a => cases a <;> decide
  | text a => cases a <;> decide
  | _ => decide

theorem nodup_order : order.Nodup := by decide

end InterfaceAttribute

section Model

variable {Addr : Type} (net : Net Addr)

variable {a : InterfaceAttribute} {i : Interface Addr}

namespace Interface

def entries (i : Interface Addr) : InterfaceAttribute → List Text
  | .address => i.addresses.toList.map (InetNetwork.toString net)
  | .dns => i.dnsValues net
  | .excludedApplications => i.excludedApplications.toList
  | .includedApplications => i.includedApplications.toList
  | .number a => (i.number a).toList.map Java.valueOf
  | .text a => (i.text a).toList
  | .privateKey => [i.privateKey.toBase64]

def present (i : Interface Addr) : List InterfaceAttribute :=
  InterfaceAttribute.order.filter fun a => i.entries net a ≠ []

def attributeLine (i : Interface Addr) (a : InterfaceAttribute) : Text :=
  line a.key (join (i.entries net a))

variable {net}

theorem entries_number (i : Interface Addr) (a : NumberAttribute) :
    i.entries net (.number a) = (i.number a).toList.map Java.valueOf := rfl

theorem entries_text (i : Interface Addr) (a : TextAttribute) :
    i.entries net (.text a) = (i.text a).toList := rfl

theorem mem_present : a ∈ i.present net ↔ i.entries net a ≠ [] := by
  unfold present
  rw [List.mem_filter, decide_eq_true_iff]
  exact and_iff_right (InterfaceAttribute.mem_order a)

theorem nodup_present (i : Interface Addr) : (i.present net).Nodup :=
  InterfaceAttribute.nodup_order.filter _

theorem quickLines_eq (i : Interface Addr) :
    i.quickLines net = (i.present net).map (i.attributeLine net) := by
  have hnumber : ∀ a : NumberAttribute, i.numberLine a =
      listLine (.number a) ((i.number a).toList.map Java.valueOf) := by
    intro a
    unfold numberLine listLine
    cases i.number a with
    | none => rfl
    | some n => exact congrArg (fun v => [line a.key v]) (join_singleton _).symm
  have htext : ∀ a : TextAttribute, i.textLine a =
      listLine (.text a) (i.text a).toList := by
    intro a
    unfold textLine listLine
    cases i.text a with
    | none => rfl
    | some t => exact congrArg (fun v => [line a.key v]) (join_singleton t).symm
  have hkey : [line InterfaceAttribute.privateKey.key i.privateKey.toBase64] =
      listLine .privateKey [i.privateKey.toBase64] := by
    unfold listLine
    exact congrArg (fun v => [line InterfaceAttribute.privateKey.key v])
      (join_singleton _).symm
  have hall : i.quickLines net =
      InterfaceAttribute.order.flatMap fun a => listLine a (i.entries net a) := by
    unfold quickLines InterfaceAttribute.order
    rw [List.flatMap_append, List.flatMap_append, List.flatMap_append, List.flatMap_map,
      List.flatMap_map, funext hnumber, funext htext, hkey]
    simp only [List.flatMap_cons, List.flatMap_nil, List.append_nil, List.append_assoc]
    rfl
  rw [hall]
  exact flatMap_lines_eq InterfaceAttribute.key (i.entries net) _

end Interface

namespace PeerAttribute

def order : List PeerAttribute :=
  [.allowedIps, .endpoint, .persistentKeepalive, .preSharedKey, .publicKey]

theorem mem_order (a : PeerAttribute) : a ∈ order := by
  cases a <;> decide

theorem nodup_order : order.Nodup := by decide

end PeerAttribute

namespace Peer

def entries (p : Peer Addr) : PeerAttribute → List Text
  | .allowedIps => p.allowedIps.toList.map (InetNetwork.toString net)
  | .endpoint => p.endpoint.toList.map InetEndpoint.toString
  | .persistentKeepalive => p.persistentKeepalive.toList.map Java.valueOf
  | .preSharedKey => p.preSharedKey.toList.map Key.toBase64
  | .publicKey => [p.publicKey.toBase64]

def present (p : Peer Addr) : List PeerAttribute :=
  PeerAttribute.order.filter fun a => p.entries net a ≠ []

def attributeLine (p : Peer Addr) (a : PeerAttribute) : Text :=
  line a.key (join (p.entries net a))

variable {net}

theorem mem_present {p : Peer Addr} {a : PeerAttribute} :
    a ∈ p.present net ↔ p.entries net a ≠ [] := by
  unfold present
  rw [List.mem_filter, decide_eq_true_iff]
  exact and_iff_right (PeerAttribute.mem_order a)

theorem nodup_present (p : Peer Addr) : (p.present net).Nodup :=
  PeerAttribute.nodup_order.filter _

theorem present_eq (p : Peer Addr) : ∃ as, p.present net = as ++ [.publicKey] := by
  refine ⟨[.allowedIps, .endpoint, .persistentKeepalive, .preSharedKey].filter
    fun a => p.entries net a ≠ [], ?_⟩
  have horder : PeerAttribute.order =
      [.allowedIps, .endpoint, .persistentKeepalive, .preSharedKey] ++ [.publicKey] := rfl
  have hkey : ([.publicKey] : List PeerAttribute).filter (fun a => p.entries net a ≠ []) =
      [.publicKey] := by
    simp [entries]
  unfold present
  rw [horder, List.filter_append, hkey]

theorem quickLines_eq (p : Peer Addr) :
    p.quickLines net = (p.present net).map (p.attributeLine net) := by
  have hips : (if p.allowedIps.isEmpty then [] else [line PeerAttribute.allowedIps.key
      (join (p.allowedIps.toList.map (InetNetwork.toString net)))]) =
      if p.entries net .allowedIps = [] then [] else
        [line PeerAttribute.allowedIps.key
          (join (p.entries net .allowedIps))] := by
    unfold entries LinkedSet.isEmpty
    cases p.allowedIps.toList <;> rfl
  have hoption : ∀ (a : PeerAttribute) (v : Option Text), optionLine a v =
      if v.toList = [] then [] else [line a.key (join v.toList)] := by
    intro a v
    cases v with
    | none => rfl
    | some t => exact congrArg (fun v => [line a.key v]) (join_singleton t).symm
  have hkey : [line PeerAttribute.publicKey.key p.publicKey.toBase64] =
      if p.entries net .publicKey = [] then [] else
        [line PeerAttribute.publicKey.key (join (p.entries net .publicKey))] := by
    unfold entries
    exact congrArg (fun v => [line PeerAttribute.publicKey.key v])
      (join_singleton _).symm
  have hall : p.quickLines net = PeerAttribute.order.flatMap fun a =>
      if p.entries net a = [] then [] else
        [line a.key (join (p.entries net a))] := by
    unfold quickLines PeerAttribute.order
    rw [hips, hoption, hoption, hoption, hkey, Option.toList_map, Option.toList_map,
      Option.toList_map]
    simp only [List.flatMap_cons, List.flatMap_nil, List.append_nil, List.append_assoc]
    rfl
  rw [hall]
  exact flatMap_lines_eq PeerAttribute.key (p.entries net) _

end Peer

variable {t : Text}

section Documented

variable {net}

/-- The number and key attributes, and the lists of addresses: their entries are solid. -/
def InterfaceAttribute.isSolid : InterfaceAttribute → Bool
  | .address | .dns | .number _ | .privateKey => true
  | .excludedApplications | .includedApplications | .text _ => false

variable (hnet : net.Documented)

include hnet

theorem Interface.solid_dnsValues (hi : i.Valid net) (h : t ∈ i.dnsValues net) :
    Solid t := by
  unfold dnsValues at h
  split at h
  · exact absurd h List.not_mem_nil
  · rcases List.mem_append.1 h with h | h
    · obtain ⟨a, -, rfl⟩ := List.mem_map.1 h
      exact solid_getHostAddress hnet a
    · exact solid_of_isHostname (hi.domains t h).isHostname

theorem Interface.solid_entries (hi : i.Valid net) (ha : a.isSolid = true) (h : t ∈ i.entries net a) :
    Solid t := by
  cases a with
  | address =>
    obtain ⟨n, hn, rfl⟩ := List.mem_map.1 h
    exact InetNetwork.solid_toString hnet (hi.addresses n hn).1
  | dns => exact solid_dnsValues hnet hi h
  | excludedApplications => cases ha
  | includedApplications => cases ha
  | number a =>
    obtain ⟨n, hn, rfl⟩ := List.mem_map.1 h
    exact solid_valueOf_of_pos (hi.number a n (Option.mem_toList.1 hn)).1
  | text a => cases ha
  | privateKey =>
    rw [List.mem_singleton.1 h]
    exact solid_toBase64 _

theorem Interface.valueChar_entries (hi : i.Valid net) (h : t ∈ i.entries net a) :
    ∀ c ∈ t, valueChar c = true := by
  by_cases ha : a.isSolid = true
  · exact (solid_entries hnet hi ha h).token.chars
  · cases a with
    | excludedApplications => exact (hi.excluded t h).chars
    | includedApplications => exact (hi.included t h).chars
    | text a => exact (hi.text a t (Option.mem_toList.1 h)).chars
    | _ => exact absurd rfl ha

theorem Peer.solid_entries {p : Peer Addr} (hp : p.Valid net) {a : PeerAttribute}
    (h : t ∈ p.entries net a) : Solid t := by
  cases a with
  | allowedIps =>
    obtain ⟨n, hn, rfl⟩ := List.mem_map.1 h
    exact InetNetwork.solid_toString hnet (hp.allowedIps n hn).1
  | endpoint =>
    obtain ⟨e, he, rfl⟩ := List.mem_map.1 h
    exact InetEndpoint.solid_toString hnet (hp.endpoint e (Option.mem_toList.1 he))
  | persistentKeepalive =>
    obtain ⟨n, hn, rfl⟩ := List.mem_map.1 h
    exact solid_valueOf_of_pos (hp.persistentKeepalive n (Option.mem_toList.1 hn)).1
  | preSharedKey =>
    obtain ⟨key, -, rfl⟩ := List.mem_map.1 h
    exact solid_toBase64 key
  | publicKey =>
    rw [List.mem_singleton.1 h]
    exact solid_toBase64 _

end Documented

section Chars

variable {net} [DecidableEq Addr]

variable {text : Text}

theorem mem_of_mem_cleanLines {l : Text} (hl : l ∈ cleanLines text) {c : Char} (hc : c ∈ l) :
    c ∈ text := by
  obtain ⟨line, hline, rfl⟩ := List.mem_map.1 hl
  exact Java.mem_of_mem_readLines hline (mem_clean hc).1

theorem mem_of_mem_interfaceLines {inside : Bool} {lines : List Text} {l : Text}
    (h : l ∈ interfaceLines inside lines) : l ∈ lines := by
  fun_induction interfaceLines inside lines with
  | case1 => exact h
  | case2 inside lines ih => exact List.mem_cons_of_mem _ (ih h)
  | case3 inside line lines hnil hhead ih => exact List.mem_cons_of_mem _ (ih h)
  | case4 line lines hnil hhead ih =>
    rcases List.mem_cons.1 h with rfl | h
    · simp
    · exact List.mem_cons_of_mem _ (ih h)
  | case5 inside line lines hnil hhead hin ih => exact List.mem_cons_of_mem _ (ih h)

theorem mem_of_mem_lineValues {line : Text} (h : t ∈ lineValues a line) {c : Char} (hc : c ∈ t) :
    c ∈ line := by
  unfold lineValues at h
  split at h
  · exact absurd h List.not_mem_nil
  · next attr hattr =>
    split at h
    · exact mem_of_mem_value hattr (mem_of_mem_split h hc)
    · exact absurd h List.not_mem_nil

namespace InterfaceBuilder

theorem parseAttribute_text_eq {b b' : InterfaceBuilder Addr} {value : Text}
    (ha : ∀ a', a ≠ .text a') (h : b.parseAttribute net a value = .ok b') : b'.text = b.text := by
  cases a with
  | address =>
    simp only [parseAttribute, parseAddresses] at h
    split at h
    · cases h
      rfl
    · cases h
  | dns =>
    simp only [parseAttribute, parseDnsServers] at h
    split at h
    · next b'' hfold =>
      cases h
      let inv : InterfaceBuilder Addr → Prop := fun t => t.text = b.text
      show inv b'
      refine Loops.foldlM_invariant ?_ (show inv b from rfl) hfold
      intro t _ b₁ b₂ hb₁ hstep
      unfold parseDnsServer at hstep
      split at hstep
      · cases hstep
        exact hb₁
      · split at hstep
        · cases hstep
        · cases hstep
          exact hb₁
    · cases h
  | excludedApplications =>
    cases h
    rfl
  | includedApplications =>
    cases h
    rfl
  | privateKey =>
    simp only [parseAttribute, parsePrivateKey] at h
    split at h
    · cases h
      rfl
    · cases h
  | number a =>
    rw [parseAttribute_number] at h
    unfold parseNumber setNumber at h
    split at h
    · split at h
      · cases h
      · cases h
        rfl
    · cases h
  | text a => exact absurd rfl (ha a)

def TextsIn (P : Char → Prop) (b : InterfaceBuilder Addr) : Prop :=
  ∀ a t, b.text a = some t → ∀ c ∈ t, P c

theorem TextsIn.parseLine {P : Char → Prop} {b b' : InterfaceBuilder Addr} {line : Text}
    (hb : b.TextsIn P) (hline : ∀ c ∈ line, P c) (h : b.parseLine net line = .ok b') :
    b'.TextsIn P := by
  obtain ⟨attr, a, hattr, -, h⟩ := parseLine_cases h
  by_cases ha : ∃ a', a = .text a'
  · obtain ⟨a', rfl⟩ := ha
    rw [parseAttribute_text] at h
    cases h
    intro a'' t ht
    by_cases heq : a'' = a'
    · subst heq
      simp only [parseText, Function.update_self] at ht
      split at ht
      · cases ht
      · cases ht
        intro c hc
        exact hline c (mem_of_mem_value hattr (Fields.mem_of_mem_strip hc))
    · simp only [parseText, Function.update_of_ne heq] at ht
      exact hb a'' t ht
  · unfold TextsIn
    rw [parseAttribute_text_eq (not_exists.1 ha) h]
    exact hb

end InterfaceBuilder

theorem mem_of_mem_entries {c : Config Addr} (h : parse net text = .ok c) (ha : a.isSolid = false)
    (ht : t ∈ c.interfaze.entries net a) : ∀ d ∈ t, d ∈ text := by
  have hparse := interface_of_parse h
  have hlines : ∀ l ∈ interfaceLines false (cleanLines text), ∀ d ∈ l, d ∈ text :=
    fun l hl d hd => mem_of_mem_cleanLines (mem_of_mem_interfaceLines hl) hd
  obtain ⟨-, -, hexc, hinc⟩ := Interface.lists_of_parse hparse
  have hlist : ∀ b : InterfaceAttribute,
      t ∈ LinkedSet.insertAll .empty ((interfaceLines false (cleanLines text)).flatMap
        (lineValues b)) → ∀ d ∈ t, d ∈ text := by
    intro b hmem d hd
    rcases LinkedSet.mem_insertAll.1 hmem with hmem | hmem
    · exact absurd hmem List.not_mem_nil
    · obtain ⟨l, hl, htl⟩ := List.mem_flatMap.1 hmem
      exact hlines l hl d (mem_of_mem_lineValues htl hd)
  cases a with
  | excludedApplications => exact hlist .excludedApplications (hexc ▸ ht)
  | includedApplications => exact hlist .includedApplications (hinc ▸ ht)
  | text a =>
    obtain ⟨b, hfold, hbuild⟩ := Loops.bind_eq_ok.1 hparse
    have hb : b.TextsIn (· ∈ text) := Loops.foldlM_invariant
      (fun l hl _ _ hb hstep => InterfaceBuilder.TextsIn.parseLine hb (hlines l hl) hstep)
      (fun _ _ ht => by cases ht) hfold
    obtain ⟨-, -, -, -, -, -, -, htext, -⟩ := InterfaceBuilder.build_cases hbuild
    exact hb a t (htext ▸ Option.mem_toList.1 ht)
  | _ => cases ha

theorem notMem_entries (hnet : net.Documented) {c : Config Addr} (h : parse net text = .ok c)
    {d : Char} (hsolid : solidChar d = false) (hd : d ∉ text)
    (ht : t ∈ c.interfaze.entries net a) : d ∉ t := by
  intro hmem
  by_cases ha : a.isSolid = true
  · rw [(Interface.solid_entries hnet (valid_of_parse h).1 ha ht).chars d hmem] at hsolid
    exact absurd hsolid (by decide)
  · exact hd (mem_of_mem_entries h (eq_false_of_ne_true ha) ht d hmem)

end Chars

end Model

end Amnezia.Config
