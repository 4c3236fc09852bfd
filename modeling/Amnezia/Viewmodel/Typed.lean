import Amnezia.Config.Document
import Amnezia.Config.Stored
import Amnezia.Config.Userspace
import Amnezia.Tools.HexKey
import Amnezia.Viewmodel.Proxy

/-!
# Saving what is typed

The builder checks the numbers, the addresses and the keys, but takes the texts of `H1` to `H4` and
`I1` to `I5` as they are typed.  Both formats to which they are written are made of lines, and one
of them has comments.
-/

namespace Amnezia.Viewmodel

open Config Loops
open Java (Text)

section Resolved

variable {Addr : Type} [DecidableEq Addr] {net : Net Addr}

namespace InterfaceProxy

theorem valid_of_foldlM {fs : List (InterfaceAttribute × Text)} {b b' : InterfaceBuilder Addr}
    (hfs : ∀ f ∈ fs, InterfaceBuilder.Printable f.1 f.2) (hb : b.Valid net)
    (h : (typed fs).foldlM (parseField net) b = .ok b') : b'.Valid net := by
  refine foldlM_invariant ?_ hb h
  intro f hf b b' hb hstep
  exact InterfaceBuilder.parseAttribute_valid hb (hfs f (List.mem_of_mem_filter hf)) hstep

theorem valid_of_resolve {i : InterfaceProxy} {i' : Interface Addr}
    (hexc : ∀ t ∈ i.excludedApplications, Config.Attribute.Token t)
    (hinc : ∀ t ∈ i.includedApplications, Config.Attribute.Token t)
    (htext : ∀ a, ∀ c ∈ Java.trim (i.text a), Config.Attribute.valueChar c = true)
    (h : i.resolve net = .ok i') : i'.Valid net := by
  rw [resolve_eq] at h
  obtain ⟨b₁, hfirst, h⟩ := bind_eq_ok.1 h
  obtain ⟨b₂, hlast, hbuild⟩ := bind_eq_ok.1 h
  have hb₁ : b₁.Valid net := by
    refine valid_of_foldlM ?_ InterfaceBuilder.new_valid hfirst
    intro f hf
    simp only [firstFields, List.mem_cons, List.not_mem_nil, or_false] at hf
    rcases hf with rfl | rfl
    · exact ⟨fun _ h => (nomatch h), fun h => (nomatch h)⟩
    · exact ⟨fun _ h => (nomatch h), fun h => (nomatch h)⟩
  have happs : ((b₁.excludeApplications i.excludedApplications).includeApplications
      i.includedApplications).Valid net := by
    refine ⟨hb₁.addresses, hb₁.domains, ?_, ?_, hb₁.number, hb₁.text⟩
    · intro t ht
      rcases LinkedSet.mem_insertAll.1 ht with ht | ht
      · exact hb₁.excluded t ht
      · exact hexc t ht
    · intro t ht
      rcases LinkedSet.mem_insertAll.1 ht with ht | ht
      · exact hb₁.included t ht
      · exact hinc t ht
  have hb₂ : b₂.Valid net := by
    refine valid_of_foldlM ?_ happs hlast
    intro f hf
    simp only [lastFields, List.mem_append, List.mem_map, List.mem_singleton] at hf
    rcases hf with (⟨a, -, rfl⟩ | ⟨a, -, rfl⟩) | rfl
    · exact ⟨fun _ h => (nomatch h), fun h => (nomatch h)⟩
    · refine ⟨?_, fun h => (nomatch h)⟩
      intro a' ha
      cases ha
      exact htext a
    · exact ⟨fun _ h => (nomatch h), fun h => (nomatch h)⟩
  exact Interface.valid_of_build hb₂ hbuild

def textAfter (a : TextAttribute) (t : Option Text) (f : InterfaceAttribute × Text) : Option Text :=
  if f.1 = .text a then (if Java.trim f.2 = [] then none else some (Java.trim f.2)) else t

theorem text_parseField {a : TextAttribute} {b b' : InterfaceBuilder Addr}
    {f : InterfaceAttribute × Text} (h : parseField net b f = .ok b') :
    b'.text a = textAfter a (b.text a) f := by
  obtain ⟨g, value⟩ := f
  unfold parseField at h
  unfold textAfter
  by_cases hg : ∃ a', g = .text a'
  · obtain ⟨a', rfl⟩ := hg
    rw [InterfaceBuilder.parseAttribute_text] at h
    cases h
    simp only [InterfaceBuilder.parseText, InterfaceAttribute.text.injEq]
    by_cases ha : a' = a
    · subst ha
      rw [Function.update_self, if_pos rfl]
    · rw [Function.update_of_ne (Ne.symm ha), if_neg ha]
  · rw [InterfaceBuilder.parseAttribute_text_eq (not_exists.1 hg) h, if_neg]
    intro ha
    exact hg ⟨a, ha⟩

theorem foldl_textAfter (a : TextAttribute) (t : Option Text) (fs : List (InterfaceAttribute × Text)) :
    fs.foldl (textAfter a) t = (fs.filter (·.1 = .text a)).foldl (textAfter a) t := by
  have hact : (fun t (f : InterfaceAttribute × Text) =>
      if decide (f.1 = .text a) = true then textAfter a t f else t) = textAfter a := by
    funext t f
    split
    · rfl
    · next hne => exact (if_neg fun heq => hne (decide_eq_true heq)).symm
  rw [List.foldl_filter, hact]

theorem text_of_resolve {i : InterfaceProxy} {i' : Interface Addr} (h : i.resolve net = .ok i')
    (a : TextAttribute) : i'.text a =
      if Java.trim (i.text a) = [] then none else some (Java.trim (i.text a)) := by
  rw [resolve_eq] at h
  obtain ⟨b₁, hfirst, h⟩ := bind_eq_ok.1 h
  obtain ⟨b₂, hlast, hbuild⟩ := bind_eq_ok.1 h
  have hfirst : b₁.text a = (typed i.firstFields).foldl (textAfter a) none :=
    foldlM_view (fun b : InterfaceBuilder Addr => b.text a) (textAfter a)
      (fun _ _ _ => text_parseField) hfirst
  have hlast := foldlM_view (fun b : InterfaceBuilder Addr => b.text a) (textAfter a)
    (fun _ _ _ => text_parseField) hlast
  change b₂.text a = (typed i.lastFields).foldl (textAfter a) (b₁.text a) at hlast
  -- the field of the attribute is one of the last fields, and stands there once
  have hnone : i.firstFields.filter (·.1 = .text a) = [] := rfl
  have hone : i.lastFields.filter (·.1 = .text a) = [(.text a, i.text a)] := by
    cases a <;> rfl
  have hcomm : ∀ fs : List (InterfaceAttribute × Text),
      (typed fs).filter (·.1 = .text a) = typed (fs.filter (·.1 = .text a)) := by
    intro fs
    unfold typed
    rw [List.filter_comm]
  have htext : i'.text = b₂.text := (InterfaceBuilder.build_cases hbuild).2.2.2.2.2.2.2.1.symm
  rw [foldl_textAfter, hcomm, hnone] at hfirst
  rw [foldl_textAfter, hcomm, hone, hfirst] at hlast
  rw [htext, hlast]
  by_cases hnil : i.text a = []
  · rw [hnil]
    rfl
  · have htyped : typed [(InterfaceAttribute.text a, i.text a)] = [(.text a, i.text a)] :=
      List.filter_cons_of_pos (by simpa using hnil)
    rw [htyped]
    exact if_pos rfl

end InterfaceProxy

theorem PeerProxy.valid_of_resolve {p : PeerProxy} {p' : Peer Addr} (h : p.resolve net = .ok p') :
    p'.Valid net := by
  obtain ⟨b, hfold, hbuild⟩ := bind_eq_ok.1 h
  have hb : b.Valid net := foldlM_invariant
    (fun _ _ _ _ => PeerBuilder.parseAttribute_valid) PeerBuilder.new_valid hfold
  exact Peer.valid_of_build hb hbuild

theorem ConfigProxy.resolve_cases {proxy : ConfigProxy} {c : Config Addr}
    (h : proxy.resolve net = .ok c) :
    proxy.interfaze.resolve net = .ok c.interfaze ∧ ∀ p ∈ c.peers, p.Valid net := by
  obtain ⟨peers, hpeers, h⟩ := bind_eq_ok.1 h
  obtain ⟨i, hi, h⟩ := bind_eq_ok.1 h
  cases h
  refine ⟨hi, ?_⟩
  intro p hp
  obtain ⟨q, -, hq⟩ := exists_of_mem_mapM hpeers hp
  exact PeerProxy.valid_of_resolve hq

end Resolved

section Userspace

variable {Addr : Type} {net : Net Addr}

theorem notMem_toHex (key : Crypto.Key) : '\n' ∉ key.toHex := by
  rw [Tools.toHex_eq]
  intro h
  exact absurd (Tools.isAlphanum_keyToHex h) (by decide)

theorem notMem_valueOf {n : Int} (h : 0 ≤ n) : '\n' ∉ Java.valueOf n := by
  obtain ⟨m, rfl⟩ := Int.eq_ofNat_of_zero_le h
  intro hmem
  exact absurd (Java.isDigit_of_mem_valueOf hmem) (by decide)

theorem notMem_solid {t : Text} (h : Config.Attribute.Solid t) : '\n' ∉ t := by
  intro hmem
  exact absurd (h.chars _ hmem) (by decide)

def lineOf (l : UserspaceLine) : Text := l.1.toList ++ '=' :: l.2

theorem notMem_lineOf {k : String} {v : Text} (hk : '\n' ∉ k.toList) (hv : '\n' ∉ v) :
    '\n' ∉ lineOf (k, v) := by
  unfold lineOf
  rw [List.mem_append, List.mem_cons, not_or, not_or]
  exact ⟨hk, by decide, hv⟩

theorem notMem_userspaceKey (a : NumberAttribute) : ∀ k ∈ a.userspaceKey, '\n' ∉ k.toList := by
  cases a <;> decide

theorem notMem_interfaceLines {i : Interface Addr} (hi : i.Valid net) :
    ∀ l ∈ i.userspaceLines, '\n' ∉ lineOf l := by
  intro l hl
  simp only [Interface.userspaceLines, Interface.userspaceNumber, List.mem_append,
    List.mem_singleton, List.mem_flatMap, List.mem_map, Option.mem_toList] at hl
  rcases hl with (rfl | ⟨a, -, k, hk, n, hn, rfl⟩) | ⟨a, -, t, ht, rfl⟩
  · exact notMem_lineOf (k := "private_key") (by decide) (notMem_toHex i.privateKey)
  · exact notMem_lineOf (notMem_userspaceKey a k hk)
      (notMem_valueOf (Int.le_of_lt (hi.number a n hn).1))
  · refine notMem_lineOf (by cases a <;> decide) ?_
    intro hmem
    exact absurd ((hi.text a t ht).chars _ hmem) (by decide)

theorem notMem_getResolved (hnet : net.Documented) (dns : Dns Addr) {e e' : InetEndpoint}
    (he : e.Valid net) (h : InetEndpoint.getResolved net dns e = some e') : '\n' ∉ e'.toString := by
  unfold InetEndpoint.getResolved at h
  split at h
  · cases h
    exact notMem_solid (InetEndpoint.solid_toString hnet he)
  · obtain ⟨a, -, rfl⟩ := Option.map_eq_some_iff.1 h
    have hhost := notMem_solid (Config.solid_getHostAddress hnet a)
    have hport := notMem_valueOf he.port_nonneg
    unfold InetEndpoint.toString
    split
    · simp only [List.mem_append, List.mem_cons, List.not_mem_nil, or_false, not_or]
      exact ⟨⟨⟨by decide, hhost⟩, by decide⟩, by decide, hport⟩
    · simp only [List.mem_append, List.mem_cons, not_or]
      exact ⟨hhost, by decide, hport⟩

theorem notMem_peerLines (hnet : net.Documented) (dns : Dns Addr) {p : Peer Addr}
    (hp : p.Valid net) : ∀ l ∈ p.userspaceLines net dns, '\n' ∉ lineOf l := by
  intro l hl
  simp only [Peer.userspaceLines, List.mem_append, List.mem_singleton, List.mem_map,
    Option.mem_toList] at hl
  rcases hl with (((rfl | ⟨n, hn, rfl⟩) | ⟨e', he', rfl⟩) | ⟨n, hn, rfl⟩) | ⟨key, -, rfl⟩
  · exact notMem_lineOf (k := "public_key") (by decide) (notMem_toHex p.publicKey)
  · exact notMem_lineOf (k := "allowed_ip") (by decide)
      (notMem_solid (InetNetwork.solid_toString hnet (hp.allowedIps n hn).1))
  · obtain ⟨e, he, hresolved⟩ := Option.bind_eq_some_iff.1 he'
    exact notMem_lineOf (k := "endpoint") (by decide)
      (notMem_getResolved hnet dns (hp.endpoint e he) hresolved)
  · exact notMem_lineOf (k := "persistent_keepalive_interval") (by decide)
      (notMem_valueOf (Int.le_of_lt (hp.persistentKeepalive n hn).1))
  · exact notMem_lineOf (k := "preshared_key") (by decide) (notMem_toHex key)

end Userspace

section Editor

variable {Addr : Type} [DecidableEq Addr]

/-- The store gives back the texts, the private key and the peers, and the userspace device is told
the lines of the attributes and no others. -/
structure Conveyed (net : Net Addr) (dns : Dns Addr) (c : Config Addr) : Prop where
  stored : ∃ c', Config.parse net (c.toAwgQuickString net) = .ok c'
    ∧ c'.interfaze.text = c.interfaze.text ∧ c'.interfaze.privateKey = c.interfaze.privateKey
    ∧ c'.peers = c.peers
  lines : (c.toAwgUserspaceString net dns).splitOn '\n' =
    (c.userspaceLines net dns).map lineOf ++ [[]]

variable {net : Net Addr}

omit [DecidableEq Addr] in
theorem userspace_splitOn (hnet : net.Documented) (dns : Dns Addr) {c : Config Addr}
    (hi : c.interfaze.Valid net) (hp : ∀ p ∈ c.peers, p.Valid net) :
    (c.toAwgUserspaceString net dns).splitOn '\n' =
      (c.userspaceLines net dns).map lineOf ++ [[]] := by
  have hlines : ∀ l ∈ (c.userspaceLines net dns).map lineOf, '\n' ∉ l := by
    intro t ht
    obtain ⟨l, hl, rfl⟩ := List.mem_map.1 ht
    simp only [Config.userspaceLines, List.mem_append, List.mem_singleton, List.mem_flatMap] at hl
    rcases hl with (hl | rfl) | ⟨p, hpp, hl⟩
    · exact notMem_interfaceLines hi l hl
    · decide
    · exact notMem_peerLines hnet dns (hp p hpp) l hl
  have htext : c.toAwgUserspaceString net dns =
      ((c.userspaceLines net dns).map lineOf).flatMap (· ++ ['\n']) := by
    rw [Config.toAwgUserspaceString_eq, List.flatMap_map]
    rfl
  rw [htext, Fields.splitOn_terminated hlines]

/-- For every state of the editor that is resolved, whose applications have the names that
applications have: it is conveyed iff the typed texts, trimmed, have neither the end of a line nor
the sign of a comment. -/
theorem typed_conveyed_iff (hnet : net.Documented) (dns : Dns Addr) {proxy : ConfigProxy}
    {c : Config Addr} (h : proxy.resolve net = .ok c)
    (hexc : ∀ t ∈ proxy.interfaze.excludedApplications, Config.Attribute.Token t)
    (hinc : ∀ t ∈ proxy.interfaze.includedApplications, Config.Attribute.Token t) :
    Conveyed net dns c ↔
      ∀ a, ∀ d ∈ Java.trim (proxy.interfaze.text a), Config.Attribute.valueChar d = true := by
  obtain ⟨hresolve, hpeers⟩ := ConfigProxy.resolve_cases h
  constructor
  · rintro ⟨⟨c', hparse, htext, -, -⟩, -⟩ a d hd
    -- what is parsed has such texts only
    have hkept := (Config.valid_of_parse hparse).1.text a
    have htyped := InterfaceProxy.text_of_resolve hresolve a
    rw [if_neg (List.ne_nil_of_mem hd)] at htyped
    rw [htext] at hkept
    exact (hkept _ htyped).chars d hd
  · intro htext
    have hvalid := InterfaceProxy.valid_of_resolve hexc hinc htext hresolve
    exact ⟨⟨_, Config.parse_toAwgQuickString hnet hvalid hpeers, rfl, rfl, rfl⟩,
      userspace_splitOn hnet dns hvalid hpeers⟩

end Editor

def headerProxy (h1 : Text) : ConfigProxy where
  interfaze :=
    { privateKey := "AAAAAAAAAAAAAAAAAAAAAAAAAAAAAAAAAAAAAAAAAAA=".toList
      text := Function.update (fun _ => []) .initPacketMagicHeader h1 }

def offline : Dns Bool := ⟨fun _ => none, fun _ => (0, none)⟩

theorem typed_conveyed_plain : ∃ c,
    (headerProxy " 1-5\n".toList).resolve Config.exampleNet = .ok c
      ∧ Conveyed Config.exampleNet offline c := by
  obtain ⟨c, hc⟩ : ∃ c, (headerProxy " 1-5\n".toList).resolve Config.exampleNet = .ok c :=
    exists_ok_iff.2 (by decide +kernel)
  refine ⟨c, hc, (typed_conveyed_iff Config.exampleNet_documented offline hc
    (fun t ht => nomatch ht) (fun t ht => nomatch ht)).2 ?_⟩
  intro a
  apply List.all_eq_true.1
  cases a <;> decide +kernel

/-- An `H1` with a line feed in it: the store gives back another `H1` and a `Jc`, and the userspace
device is told a `jc` that no attribute has. -/
theorem typed_adds_jc : ∃ c c',
    (headerProxy "1\njc=5".toList).resolve Config.exampleNet = .ok c
      ∧ c.interfaze.text .initPacketMagicHeader = some "1\njc=5".toList
      ∧ c.interfaze.number .junkPacketCount = none
      ∧ Config.parse Config.exampleNet (c.toAwgQuickString Config.exampleNet) = .ok c'
      ∧ c'.interfaze.text .initPacketMagicHeader = some "1".toList
      ∧ c'.interfaze.number .junkPacketCount = some 5
      ∧ "jc=5".toList ∈ (c.toAwgUserspaceString Config.exampleNet offline).splitOn '\n'
      ∧ "jc=5".toList ∉ (c.userspaceLines Config.exampleNet offline).map lineOf
      ∧ ¬Conveyed Config.exampleNet offline c := by
  have hrun : (((headerProxy "1\njc=5".toList).resolve Config.exampleNet).toOption.bind fun c =>
      (Config.parse Config.exampleNet (c.toAwgQuickString Config.exampleNet)).toOption.map fun c' =>
        ([c.interfaze.text .initPacketMagicHeader, c'.interfaze.text .initPacketMagicHeader],
          [c.interfaze.number .junkPacketCount, c'.interfaze.number .junkPacketCount],
          decide ("jc=5".toList ∈ (c.toAwgUserspaceString Config.exampleNet offline).splitOn '\n'),
          decide ("jc=5".toList ∈ (c.userspaceLines Config.exampleNet offline).map lineOf))) =
      some ([some "1\njc=5".toList, some "1".toList], [none, some 5], true, false) := by
    decide +kernel
  obtain ⟨c, hc, hrun⟩ := Option.bind_eq_some_iff.1 hrun
  obtain ⟨c', hc', hrun⟩ := Option.map_eq_some_iff.1 hrun
  simp only [Prod.mk.injEq, List.cons.injEq, and_true, decide_eq_true_iff,
    decide_eq_false_iff_not] at hrun
  obtain ⟨⟨htext, htext'⟩, ⟨hnumber, hnumber'⟩, hmem, hnotMem⟩ := hrun
  refine ⟨c, c', eq_ok_of_toOption hc, htext, hnumber, eq_ok_of_toOption hc', htext',
    hnumber', hmem, hnotMem, ?_⟩
  intro hconveyed
  rw [hconveyed.lines, List.mem_append] at hmem
  rcases hmem with hmem | hmem
  · exact hnotMem hmem
  · exact absurd hmem (by decide)

end Amnezia.Viewmodel
