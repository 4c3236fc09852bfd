import Amnezia.Tools.PrintedPeer

/-!
# Printed configurations in the command line tools

What `parse_options` and then `config.c` read from the lines of a printed configuration, or from the
lines up to some point in it.
-/

namespace Amnezia.Tools

open Config.Attribute
open Java (Text)
open Libc (Bytes utf8)
open Config (InterfaceAttribute Interface PeerAttribute Peer Net)

/-- Lines of a printed configuration: an interface and peers, each with the attributes whose lines
are there. -/
structure Printed (Addr : Type) where
  interfaze : Interface Addr
  attributes : List InterfaceAttribute
  peers : List (Peer Addr × List PeerAttribute)

namespace Printed

variable {Addr : Type} (net : Net Addr)

def peerLines (p : Peer Addr × List PeerAttribute) : List Text :=
  [] :: "[Peer]".toList :: p.2.map (p.1.attributeLine net)

def lines (d : Printed Addr) : List Text :=
  "[Interface]".toList :: d.attributes.map (d.interfaze.attributeLine net)
    ++ d.peers.flatMap (peerLines net)

def ofConfig (c : Config Addr) : Printed Addr where
  interfaze := c.interfaze
  attributes := c.interfaze.present net
  peers := c.peers.map fun p => (p, p.present net)

theorem lines_ofConfig (c : Config Addr) : (ofConfig net c).lines net = c.quickLines net := by
  unfold lines ofConfig Config.quickLines peerLines
  rw [Interface.quickLines_eq, List.flatMap_map]
  simp only [Peer.quickLines_eq]

/-- The lines are those of attributes that a valid configuration has, each at most once. -/
structure Good (d : Printed Addr) : Prop where
  valid : d.interfaze.Valid net
  present : ∀ a ∈ d.attributes, d.interfaze.entries net a ≠ []
  nodup : d.attributes.Nodup
  nul : ∀ a, ∀ t ∈ d.interfaze.entries net a, '\x00' ∉ t
  peerValid : ∀ p ∈ d.peers, p.1.Valid net
  peerNumeric : ∀ p ∈ d.peers, ∀ e, p.1.endpoint = some e → e.isResolved = true
  peerPresent : ∀ p ∈ d.peers, ∀ a ∈ p.2, p.1.entries net a ≠ []
  peerNodup : ∀ p ∈ d.peers, p.2.Nodup

variable {net}

theorem notMem_line {key : Text} (hword : ∀ c ∈ key, Java.word c = true) {ts : List Text} {d : Char}
    (hd : Java.word d = false ∧ d ∉ [' ', '=', ',']) (hts : ∀ t ∈ ts, d ∉ t) :
    d ∉ line key (join ts) := by
  intro h
  unfold line at h
  rcases List.mem_append.1 h with h | h
  · rw [hword d h] at hd
    exact absurd hd.1 (by decide)
  · simp only [List.mem_cons] at h hd
    rcases h with h | h | h | h
    · simp [h] at hd
    · simp [h] at hd
    · simp [h] at hd
    · rcases mem_join h with h | h | ⟨t, ht, hdt⟩
      · simp [h] at hd
      · simp [h] at hd
      · exact hts t ht hdt

theorem notMem_lines (hnet : net.Documented) {d : Printed Addr} (hd : d.Good net) {l : Text}
    (hl : l ∈ d.lines net) : '\n' ∉ l ∧ '\x00' ∉ l := by
  have hchar : ∀ {t : Text}, (∀ c ∈ t, valueChar c = true) → '\n' ∉ t :=
    fun h hmem => absurd (h _ hmem) (by decide)
  unfold lines at hl
  rcases List.mem_append.1 hl with hl | hl
  · rcases List.mem_cons.1 hl with rfl | hl
    · decide
    · obtain ⟨a, ha, rfl⟩ := List.mem_map.1 hl
      exact ⟨notMem_line a.key_word (by decide)
          fun t ht => hchar (Interface.valueChar_entries hnet hd.valid ht),
        notMem_line a.key_word (by decide) (hd.nul a)⟩
  · obtain ⟨p, hp, hl⟩ := List.mem_flatMap.1 hl
    simp only [peerLines, List.mem_cons] at hl
    rcases hl with rfl | rfl | hl
    · decide
    · decide
    · obtain ⟨a, ha, rfl⟩ := List.mem_map.1 hl
      have hsolid : ∀ t ∈ p.1.entries net a, Solid t :=
        fun t => Peer.solid_entries hnet (hd.peerValid p hp)
      exact ⟨notMem_line a.key_word (by decide) fun t ht => hchar (hsolid t ht).token.chars,
        notMem_line a.key_word (by decide)
          fun t ht hmem => absurd ((hsolid t ht).chars _ hmem) (by decide)⟩

theorem getlines_fileLine {ls : List Text} (h : ∀ l ∈ ls, '\n' ∉ l ∧ '\x00' ∉ l) :
    (Libc.getlines (ls.flatMap fileLine)).map Libc.cstr = ls.map fileLine := by
  have hfile : ls.flatMap fileLine = (ls.map utf8).flatMap (· ++ ['\n']) := by
    rw [List.flatMap_map]
    rfl
  have hline : ∀ u ∈ ls.map utf8, '\n' ∉ u := by
    intro u hu
    obtain ⟨l, hl, rfl⟩ := List.mem_map.1 hu
    rw [Libc.mem_utf8_iff (by decide)]
    exact (h l hl).1
  rw [hfile, Libc.getlines_flatMap hline, List.map_map, List.map_map]
  apply List.map_congr_left
  intro l hl
  show Libc.cstr (fileLine l) = fileLine l
  apply Libc.cstr_of_notMem
  rw [fileLine_eq, Libc.mem_utf8_iff (by decide), List.mem_append]
  rintro (hmem | hmem)
  · exact (h l hl).2 hmem
  · exact absurd hmem (by decide)

theorem utf8_file (ls : List Text) : utf8 (ls.flatMap (· ++ ['\n'])) = ls.flatMap fileLine := by
  induction ls with
  | nil => rfl
  | cons l ls ih =>
    rw [List.flatMap_cons, List.flatMap_cons, Libc.utf8_append, ih, fileLine_eq]

def left (d : Printed Addr) : Printed Addr :=
  { d with attributes := d.attributes.filter fun a => quickAction a = none }

theorem squeezeAll_eq_nil (hnet : net.Documented) {i : Interface Addr} (hi : i.Valid net)
    {a : InterfaceAttribute} (ha : i.entries net a ≠ []) (h : squeezeAll (i.entries net a) = []) :
    a = .excludedApplications ∨ a = .includedApplications := by
  by_cases hsolid : a.isSolid = true
  · exact absurd h (squeezeAll_solid_ne_nil ha fun t => Interface.solid_entries hnet hi hsolid)
  · cases a with
    | excludedApplications => exact .inl rfl
    | includedApplications => exact .inr rfl
    | text a =>
      obtain ⟨t, ht⟩ := text_of_entries ha
      have hentries : i.entries net (.text a) = [t] := by
        rw [Interface.entries_text, ht]
        rfl
      rw [hentries, squeezeAll_singleton] at h
      exact absurd h (squeeze_ne_nil (hi.text a t ht))
    | _ => exact absurd rfl hsolid

structure Adds (o o' : Options) (text : Bytes) : Prop where
  config : ∀ s, o.config = some s → o'.config = some (s ++ text)
  list : o'.list = o.list
  mtu : o'.mtu = o.mtu

theorem concatAndFree_nil (s line : Bytes) : concatAndFree (some s) [] line = some (s ++ line) := by
  show some (s ++ [] ++ line) = _
  rw [List.append_nil]

theorem adds_addLine (o : Options) (inside : Bool) (line : Bytes) :
    Adds o ({ o with inInterfaceSection := inside }.addLine line) line where
  config s hs := by
    show concatAndFree o.config [] line = _
    rw [hs, concatAndFree_nil]
  list := rfl
  mtu := rfl

theorem Adds.trans {o o' o'' : Options} {text text' : Bytes} (h : Adds o o' text)
    (h' : Adds o' o'' text') : Adds o o'' (text ++ text') where
  config s hs := by
    rw [h'.config _ (h.config s hs), List.append_assoc]
  list := h'.list.trans h.list
  mtu := h'.mtu.trans h.mtu

theorem adds_refl (o : Options) : Adds o o [] where
  config s hs := by rw [hs, List.append_nil]
  list := rfl
  mtu := rfl

theorem adds_peerAttributes (p : Peer Addr) (as : List PeerAttribute) {o : Options}
    (ho : o.inInterfaceSection = false) :
    Adds o (((as.map (p.attributeLine net)).map fileLine).foldl Options.readLine o)
      ((as.map (p.attributeLine net)).flatMap fileLine) := by
  induction as generalizing o with
  | nil => exact adds_refl o
  | cons a as ih =>
    have hline : o.readLine (fileLine (p.attributeLine net a)) =
        { o with inInterfaceSection := false }.addLine (fileLine (p.attributeLine net a)) :=
      Options.readLine_peerAttribute ho a _
    simp only [List.map_cons, List.foldl_cons, List.flatMap_cons]
    rw [hline]
    exact (adds_addLine o false _).trans (ih rfl)

theorem adds_peer (p : Peer Addr × List PeerAttribute) (o : Options) :
    Adds o (((peerLines net p).map fileLine).foldl Options.readLine o)
      ((peerLines net p).flatMap fileLine) := by
  unfold peerLines
  simp only [List.map_cons, List.foldl_cons, List.flatMap_cons]
  rw [Options.readLine_blank, Options.readLine_peerHeader]
  exact (adds_addLine o o.inInterfaceSection _).trans
    ((adds_addLine _ false _).trans (adds_peerAttributes p.1 p.2 rfl))

theorem adds_peers (ps : List (Peer Addr × List PeerAttribute)) (o : Options) :
    Adds o (((ps.flatMap (peerLines net)).map fileLine).foldl Options.readLine o)
      ((ps.flatMap (peerLines net)).flatMap fileLine) := by
  induction ps generalizing o with
  | nil => exact adds_refl o
  | cons p ps ih =>
    rw [List.flatMap_cons, List.map_append, List.foldl_append, List.flatMap_append]
    exact (adds_peer p o).trans (ih _)

section Interface

variable (hnet : net.Documented) {i : Interface Addr} (hi : i.Valid net)
  {as : List InterfaceAttribute} (has : ∀ a ∈ as, i.entries net a ≠ [])

include hnet hi has

theorem afterAttribute {a : InterfaceAttribute} (ha : a ∈ as) {o : Options}
    (ho : o.inInterfaceSection = true) :
    Options.AfterAttribute o (o.readLine (fileLine (i.attributeLine net a))) a (i.entries net a) :=
  Options.readLine_attribute ho (squeezeAll_eq_nil hnet hi (has a ha))

theorem list_foldl (hnodup : as.Nodup) {o : Options} (ho : o.inInterfaceSection = true)
    (l : ListOption) :
    (as.foldl (fun o a => o.readLine (fileLine (i.attributeLine net a))) o).list l =
      if l.attribute ∈ as then concatAndFree (o.list l) [','] (squeezeAll (i.entries net l.attribute))
      else o.list l := by
  refine Loops.foldl_component (fun o : Options => o.list l)
    (concatAndFree · [','] (squeezeAll (i.entries net l.attribute)))
    (fun o => o.inInterfaceSection = true)
    (fun a ha o ho => ?_) (fun ha o ho => ?_) (fun a ha hne o ho => ?_) hnodup ho
  · exact (afterAttribute hnet hi has ha ho).inside
  · rw [(afterAttribute hnet hi has ha ho).list, if_pos rfl]
  · rw [(afterAttribute hnet hi has ha ho).list, if_neg fun h => hne h.symm]

theorem mtu_foldl (hnodup : as.Nodup) {o : Options} (ho : o.inInterfaceSection = true) :
    (as.foldl (fun o a => o.readLine (fileLine (i.attributeLine net a))) o).mtu =
      if .number .mtu ∈ as then (Libc.atoi (squeezeAll (i.entries net (.number .mtu)))).toNat
      else o.mtu := by
  refine Loops.foldl_component (fun o : Options => o.mtu)
    (fun _ => (Libc.atoi (squeezeAll (i.entries net (.number .mtu)))).toNat)
    (fun o => o.inInterfaceSection = true)
    (fun a ha o ho => ?_) (fun ha o ho => ?_) (fun a ha hne o ho => ?_) hnodup ho
  · exact (afterAttribute hnet hi has ha ho).inside
  · rw [(afterAttribute hnet hi has ha ho).mtu, if_pos rfl]
  · rw [(afterAttribute hnet hi has ha ho).mtu, if_neg hne]

theorem config_foldl {o : Options} (ho : o.inInterfaceSection = true) {s : Bytes}
    (hs : o.config = some s) :
    (as.foldl (fun o a => o.readLine (fileLine (i.attributeLine net a))) o).config =
      some (s ++ ((as.filter fun a => quickAction a = none).map (i.attributeLine net)).flatMap
        fileLine) := by
  induction as generalizing o s with
  | nil => rw [List.foldl_nil, hs]; simp
  | cons a as ih =>
    have hafter := afterAttribute hnet hi has (List.mem_cons_self ..) ho
    have hconfig := hafter.config
    have hrest := fun b hb => has b (List.mem_cons_of_mem a hb)
    rw [List.foldl_cons]
    by_cases hleft : quickAction a = none
    · rw [if_pos hleft, hs] at hconfig
      rw [ih hrest hafter.inside (hconfig.trans (concatAndFree_nil _ _)), List.filter_cons_of_pos (by simpa using hleft),
        List.map_cons, List.flatMap_cons, List.append_assoc]
      rfl
    · rw [if_neg hleft, hs] at hconfig
      rw [ih hrest hafter.inside hconfig, List.filter_cons_of_neg (by simpa using hleft)]

end Interface

theorem foldl_lines (hnet : net.Documented) {d : Printed Addr} (hd : d.Good net) :
    let o := ((d.lines net).map fileLine).foldl Options.readLine {}
    o.config = some ((d.left.lines net).flatMap fileLine) ∧
    (∀ l, o.list l = if l.attribute ∈ d.attributes then
      some (squeezeAll (d.interfaze.entries net l.attribute)) else none) ∧
    o.mtu = if .number .mtu ∈ d.attributes then
      (Libc.atoi (squeezeAll (d.interfaze.entries net (.number .mtu)))).toNat else 0 := by
  let o₁ : Options :=
    { config := some (fileLine "[Interface]".toList), inInterfaceSection := true }
  let o₂ : Options := d.attributes.foldl
    (fun o a => o.readLine (fileLine (d.interfaze.attributeLine net a))) o₁
  have hadds := @adds_peers Addr net d.peers o₂
  have hattributes : ((d.attributes.map (d.interfaze.attributeLine net)).map fileLine).foldl
      Options.readLine o₁ = o₂ := by
    rw [List.map_map, List.foldl_map]
    rfl
  have hfold : ((d.lines net).map fileLine).foldl Options.readLine {} =
      ((d.peers.flatMap (peerLines net)).map fileLine).foldl Options.readLine o₂ := by
    unfold lines
    rw [List.map_append, List.foldl_append, List.map_cons, List.foldl_cons,
      Options.readLine_interfaceHeader, ← hattributes]
    rfl
  intro o
  rw [show o = _ from hfold]
  have hconfig := hadds.config _ (config_foldl hnet hd.valid hd.present (o := o₁) rfl rfl)
  refine ⟨?_, ?_, ?_⟩
  · rw [hconfig]
    unfold lines left
    rw [List.flatMap_append, List.flatMap_cons]
  · intro l
    rw [hadds.list, list_foldl hnet hd.valid hd.present hd.nodup (o := o₁) rfl l]
    rfl
  · rw [hadds.mtu, mtu_foldl hnet hd.valid hd.present hd.nodup (o := o₁) rfl]

end Printed

namespace Options

theorem readLines_append {pre : List Bytes} (hpre : ∀ l ∈ pre, l.length ≤ 65536) (o : Options)
    (post : List Bytes) : o.readLines (pre ++ post) = (pre.foldl readLine o).readLines post := by
  induction pre generalizing o with
  | nil => rfl
  | cons l pre ih =>
    have hl := hpre l (by simp)
    rw [List.cons_append, readLines, if_neg (by omega), ih (fun m hm => hpre m (by simp [hm]))]
    rfl

theorem readLines_of_le {ls : List Bytes} (h : ∀ l ∈ ls, l.length ≤ 65536) (o : Options) :
    o.readLines ls = ((ls.foldl readLine o).setDefaults, []) := by
  have happend := readLines_append h o []
  rwa [List.append_nil] at happend

theorem readLines_of_gt {pre : List Bytes} (hpre : ∀ l ∈ pre, l.length ≤ 65536) {long : Bytes}
    (hlong : 65536 < long.length) (o : Options) (post : List Bytes) :
    o.readLines (pre ++ long :: post) = (pre.foldl readLine o, long :: post) := by
  rw [readLines_append hpre, readLines, if_pos hlong]

end Options

end Amnezia.Tools
