import Amnezia.Tools.KernelSet

/-!
# What the messages for a device carry

A peer whose allowed IPs do not fit in one message is sent in several fragments.  Its settings are
part of the first one only, and the fragments together have its allowed IPs in order.
-/

namespace Amnezia.Tools

open Netlink PeerAttr

section Fragments

variable {Addr : Type} (family : Addr → Family)

def allowedIpAttrs (ip : WgAllowedIp Addr) : List (AllowedIpAttr Addr) :=
  [.family ip.family, .ipaddr ip.family ip.ip, .cidrMask ip.cidr]

def fragmentHead (p : WgPeer Addr) (first : Bool) : List (PeerAttr Addr) :=
  (.publicKey p.key :: if first then settings family p else [])
    ++ (if p.awg = some true then [.awg] else [])
    ++ (if (peerFlags p first).any then [.flags (peerFlags p first)] else [])

def fragment (p : WgPeer Addr) (first : Bool) (ips : Option (List (WgAllowedIp Addr))) :
    Fragment Addr :=
  fragmentHead family p first ++ (ips.map fun ips => .allowedIps (ips.map allowedIpAttrs)).toList

def Continues (p : WgPeer Addr) (ips : List (WgAllowedIp Addr)) (fs : List (Fragment Addr)) :
    Prop :=
  ∃ parts : List (Option (List (WgAllowedIp Addr))),
    fs = parts.map (fragment family p false) ∧ parts.flatMap (·.getD []) = ips

/-- The fragments of a peer: the settings are in the first, the allowed IPs in all of them. -/
def Carries (p : WgPeer Addr) (fs : List (Fragment Addr)) : Prop :=
  ∃ ips rest later, fs = fragment family p true ips :: later ∧ ips.getD [] ++ rest = p.allowedIps
    ∧ Continues family p rest later

/-- What is still to be sent of a peer at the cursor `allowedip`. -/
def Remains (p : WgPeer Addr) (allowedip : List (WgAllowedIp Addr)) (fs : List (Fragment Addr)) :
    Prop :=
  if allowedip = [] then Carries family p fs else Continues family p allowedip fs

def Owed (c : Cursor Addr) (fs : List (Fragment Addr)) : Prop :=
  match c with
  | ⟨[], _⟩ => fs = []
  | ⟨p :: ps, allowedip⟩ => ∃ group groups, fs = group ++ groups.flatten
    ∧ Remains family p allowedip group ∧ List.Forall₂ (Carries family) ps groups

end Fragments

/-! ## Sizes -/

variable {n : Nat}

section Sizes

variable {Addr : Type} {cap : Nat} {family : Addr → Family}

def allowedIpSize (ip : WgAllowedIp Addr) : Nat :=
  4 + ((allowedIpAttrs ip).map AllowedIpAttr.size).sum

theorem allowedIpSize_le (ip : WgAllowedIp Addr) : allowedIpSize ip ≤ 40 := by
  have haddr : attrLen ip.family.addrLen ≤ 20 := by
    cases ip.family <;> decide
  have htwo : attrLen 2 = 8 := rfl
  have hone : attrLen 1 = 8 := rfl
  show 4 + (attrLen 2 + (attrLen ip.family.addrLen + (attrLen 1 + 0))) ≤ 40
  omega

theorem sum_ite_le {α : Type} {f : α → Nat} {c : Prop} [Decidable c] {l : List α} {n : Nat}
    (h : (l.map f).sum ≤ n) : ((if c then l else []).map f).sum ≤ n := by
  split
  · exact h
  · exact Nat.zero_le n

theorem settings_size_le (p : WgPeer Addr) : ((settings family p).map size).sum ≤ 76 := by
  have haddr : ∀ f : Family, attrLen f.sockaddrLen ≤ 32 := by
    intro f
    cases f <;> decide
  unfold settings
  simp only [List.map_append, List.map_map, List.sum_append]
  have hkey : (p.presharedKey.toList.map (size ∘ @presharedKey Addr)).sum ≤ 36 := by
    cases p.presharedKey
    · exact Nat.zero_le 36
    · exact Nat.le_refl 36
  have hendpoint : (p.endpoint.toList.map
      (size ∘ fun e => endpoint (family e.1) e)).sum ≤ 32 := by
    cases p.endpoint with
    | none => exact Nat.zero_le 32
    | some e => exact haddr (family e.1)
  have hkeepalive : (p.persistentKeepaliveInterval.toList.map
      (size ∘ @persistentKeepaliveInterval Addr)).sum ≤ 8 := by
    cases p.persistentKeepaliveInterval
    · exact Nat.zero_le 8
    · exact Nat.le_refl 8
  omega

-- The longest head: both keys, an IPv6 endpoint, the keepalive, the two marks of a peer.
theorem fragmentHead_size_le (p : WgPeer Addr) (first : Bool) :
    ((fragmentHead family p first).map size).sum ≤ 124 := by
  unfold fragmentHead
  simp only [List.map_append, List.map_cons, List.sum_append, List.sum_cons]
  have hkey : (publicKey p.key : PeerAttr Addr).size = 36 := rfl
  have hsettings := @sum_ite_le _ size (first = true) _ _ _ (@settings_size_le _ family p)
  have hawg := @sum_ite_le _ size (p.awg = some true) _ [@awg Addr] 4 (Nat.le_refl 4)
  have hflags := @sum_ite_le _ size ((peerFlags p first).any = true) _
    [@flags Addr (peerFlags p first)] 8 (Nat.le_refl 8)
  omega

/-! ## One peer -/

theorem putAllowedIp_eq (b : Buf (List (AllowedIpAttr Addr))) (ip : WgAllowedIp Addr)
    (hb : b.len ≤ cap) :
    putAllowedIp cap b ip =
      if b.len + allowedIpSize ip ≤ cap then
        some ⟨b.len + allowedIpSize ip, b.attrs ++ [allowedIpAttrs ip]⟩
      else none := by
  unfold putAllowedIp nestStartCheck
  by_cases hnest : cap < b.len + 4
  · rw [if_pos hnest, if_neg (by unfold allowedIpSize; omega)]
    rfl
  · rw [if_neg hnest]
    show (Buf.putAll AllowedIpAttr.size cap ⟨b.len + 4, []⟩ (allowedIpAttrs ip)).bind _ = _
    rw [Buf.putAll_eq AllowedIpAttr.size (by show b.len + 4 ≤ cap; omega)]
    simp only [List.nil_append, allowedIpSize, ← Nat.add_assoc]
    split <;> rfl

-- A peer with `awg` has flags, which are longer: they do not fit where the mark did not.
theorem putMarks_eq (p : WgPeer Addr) (first : Bool) {nest : Buf (PeerAttr Addr)}
    (hnest : nest.len ≤ cap) :
    (if (peerFlags p first).any then
      Buf.putCheck size cap
        (if p.awg = some true then (nest.putCheck size cap .awg).getD nest else nest)
        (.flags (peerFlags p first))
      else some
        (if p.awg = some true then (nest.putCheck size cap .awg).getD nest else nest)) =
    nest.putAll size cap
      ((if p.awg = some true then [.awg] else [])
        ++ (if (peerFlags p first).any then [.flags (peerFlags p first)] else [])) := by
  have hflags : (@flags Addr (peerFlags p first)).size = 8 := rfl
  by_cases hawg : p.awg = some true
  · have hany : (peerFlags p first).any = true := by
      simp only [peerFlags, PeerFlags.any, hawg, Option.isSome_some, Bool.or_true]
    have hmark : (@awg Addr).size = 4 := rfl
    rw [Buf.putAll_eq _ hnest, if_pos hawg, if_pos hany, if_pos hawg, if_pos hany]
    simp only [Buf.putCheck, List.singleton_append, List.map_cons, List.map_nil, List.sum_cons,
      List.sum_nil, hflags, hmark]
    by_cases hfits : cap < nest.len + 4
    · rw [if_pos hfits, Option.getD_none, if_pos (by omega), if_neg (by omega)]
    · rw [if_neg hfits, Option.getD_some]
      simp only [Buf.put, hmark, hflags, List.append_assoc, List.singleton_append, Nat.add_zero,
        Nat.add_assoc]
      by_cases hboth : nest.len + (4 + 8) ≤ cap
      · rw [if_neg (by omega), if_pos hboth]
      · rw [if_pos (by omega), if_neg hboth]
  · rw [if_neg hawg, if_neg hawg, List.nil_append]
    split
    · show _ = (nest.putCheck size cap (.flags (peerFlags p first))).bind some
      rw [Option.bind_fun_some]
    · rfl

theorem putHead_putAll (len : Nat) (p : WgPeer Addr) (first : Bool) :
    putHead cap family len p first =
      (nestStartCheck cap len).bind
        (·.putAll size cap (fragmentHead family p first)) := by
  unfold putHead fragmentHead
  by_cases hnest : cap < len + 4
  · rw [nestStartCheck, if_pos hnest]
    rfl
  · have hlen : (@nestStart (PeerAttr Addr) len).len ≤ cap := by
      show len + 4 ≤ cap
      omega
    rw [nestStartCheck, if_neg hnest, Option.bind_some, List.append_assoc,
      Buf.putAll_append]
    show (Buf.putAll size cap (nestStart len) _).bind _ = _
    apply Option.bind_congr
    intro nest hput
    exact putMarks_eq p first (Buf.putAll_fits _ hlen hput)

theorem putHead_eq (len : Nat) (p : WgPeer Addr) (first : Bool) :
    putHead cap family len p first =
      if len + 4 + ((fragmentHead family p first).map size).sum ≤ cap then
        some ⟨len + 4 + ((fragmentHead family p first).map size).sum,
          fragmentHead family p first⟩
      else none := by
  rw [putHead_putAll, nestStartCheck]
  by_cases hnest : cap < len + 4
  · rw [if_pos hnest, if_neg (by omega)]
    rfl
  · rw [if_neg hnest, Option.bind_some, nestStart,
      Buf.putAll_eq _ (by show len + 4 ≤ cap; omega), List.nil_append]

def toPut (p : WgPeer Addr) (allowedip : List (WgAllowedIp Addr)) : List (WgAllowedIp Addr) :=
  if allowedip = [] then p.allowedIps else allowedip

def addFragment (b : Buf (Fragment Addr)) (f : Fragment Addr) : Buf (Fragment Addr) :=
  ⟨b.len + Fragment.size f, b.attrs ++ [f]⟩

inductive PeerRound (cap : Nat) (family : Addr → Family) (b : Buf (Fragment Addr))
    (p : WgPeer Addr) (allowedip : List (WgAllowedIp Addr)) : PeerStep Addr → Prop where
  | done (ips : Option (List (WgAllowedIp Addr))) (hips : ips.getD [] = toPut p allowedip)
      (fits : (addFragment b (fragment family p allowedip.isEmpty ips)).len ≤ cap) :
      PeerRound cap family b p allowedip
        (.done (addFragment b (fragment family p allowedip.isEmpty ips)))
  | tooBigPeers (full : cap < b.len + 128) : PeerRound cap family b p allowedip .tooBigPeers
  | tooBigAllowedIps (ips : Option (List (WgAllowedIp Addr))) (left : List (WgAllowedIp Addr))
      (hips : ips.getD [] ++ left = toPut p allowedip) (hleft : left ≠ [])
      (fits : (addFragment b (fragment family p allowedip.isEmpty ips)).len ≤ cap)
      (full : b.len + 172 ≤ cap → ips.getD [] ≠ []) :
      PeerRound cap family b p allowedip
        (.tooBigAllowedIps (addFragment b (fragment family p allowedip.isEmpty ips)) left)

theorem fragment_size (p : WgPeer Addr) (first : Bool) (ips : List (WgAllowedIp Addr)) :
    Fragment.size (fragment family p first (some ips)) =
      4 + ((fragmentHead family p first).map size).sum + 4
        + (ips.map allowedIpSize).sum := by
  have hnest : size (.allowedIps (ips.map allowedIpAttrs))
      = 4 + (ips.map allowedIpSize).sum := by
    simp only [size, List.map_map]
    rfl
  simp only [Fragment.size, fragment, Option.map_some, Option.toList_some, List.map_append,
    List.map_cons, List.map_nil, List.sum_append, List.sum_cons, List.sum_nil, hnest]
  omega

theorem fragment_none_size (p : WgPeer Addr) (first : Bool) :
    Fragment.size (fragment family p first none) =
      4 + ((fragmentHead family p first).map size).sum := by
  rw [Fragment.size, fragment, Option.map_none, Option.toList_none, List.append_nil]

theorem nestEnd_none (b : Buf (Fragment Addr)) (p : WgPeer Addr) (first : Bool) :
    b.nestEnd id ⟨b.len + 4 + ((fragmentHead family p first).map size).sum,
      fragmentHead family p first⟩ = addFragment b (fragment family p first none) := by
  rw [addFragment, fragment_none_size, ← Nat.add_assoc, fragment, Option.map_none,
    Option.toList_none, List.append_nil]
  rfl

-- The nest is open: as many allowed IPs as fit go into it, and where none does it is full.
theorem putAllowedIps_round (b : Buf (Fragment Addr)) (p : WgPeer Addr)
    (allowedip : List (WgAllowedIp Addr))
    (hnest : b.len + 4 + ((fragmentHead family p allowedip.isEmpty).map size).sum + 4
      ≤ cap) :
    let head : Buf (PeerAttr Addr) :=
      ⟨b.len + 4 + ((fragmentHead family p allowedip.isEmpty).map size).sum,
        fragmentHead family p allowedip.isEmpty⟩
    let r := Buf.fill (putAllowedIp cap) (nestStart head.len) (toPut p allowedip)
    PeerRound cap family b p allowedip
      (if r.2 = [] then .done (b.nestEnd id (head.nestEnd .allowedIps r.1))
        else .tooBigAllowedIps (b.nestEnd id (head.nestEnd .allowedIps r.1)) r.2) := by
  intro head r
  have hhead := @fragmentHead_size_le Addr family p allowedip.isEmpty
  obtain ⟨done, h⟩ : ∃ done, Buf.Filled cap allowedIpSize allowedIpAttrs (nestStart head.len)
      (toPut p allowedip) r.1 r.2 done := Buf.fill_filled (@putAllowedIp_eq Addr cap) hnest _
  have hlen : r.1.len = b.len + 4 + ((fragmentHead family p allowedip.isEmpty).map size).sum
      + 4 + (done.map allowedIpSize).sum := h.len
  have hfits : r.1.len ≤ cap := h.fits hnest
  have hsize : b.len + Fragment.size (fragment family p allowedip.isEmpty (some done)) = r.1.len := by
    rw [fragment_size, hlen]
    omega
  have hadd : b.nestEnd id (head.nestEnd .allowedIps r.1)
      = addFragment b (fragment family p allowedip.isEmpty (some done)) := by
    have hattrs : r.1.attrs = done.map allowedIpAttrs := h.attrs
    rw [addFragment, hsize]
    simp only [Buf.nestEnd, hattrs]
    rfl
  have hput : (addFragment b (fragment family p allowedip.isEmpty (some done))).len ≤ cap := by
    rw [addFragment, hsize]
    exact hfits
  rw [hadd]
  split
  · rename_i hleft
    apply PeerRound.done (some done) _ hput
    rw [h.parts, hleft, List.append_nil]
    rfl
  · rename_i hleft
    apply PeerRound.tooBigAllowedIps (some done) r.2 h.parts.symm hleft hput
    intro hroom hdone
    have hnil : done = [] := hdone
    obtain ⟨ip, ips, hcons⟩ := List.exists_cons_of_ne_nil hleft
    have hfull := h.full ip (by rw [hcons]; rfl)
    have hip := allowedIpSize_le ip
    rw [hnil] at hlen
    simp only [List.map_nil, List.sum_nil] at hlen
    omega

theorem putPeer_round (b : Buf (Fragment Addr)) (p : WgPeer Addr)
    (allowedip : List (WgAllowedIp Addr)) (hcursor : p.allowedIps = [] → allowedip = []) :
    PeerRound cap family b p allowedip (putPeer cap family b p allowedip) := by
  have hhead := @fragmentHead_size_le Addr family p allowedip.isEmpty
  unfold putPeer
  rw [putHead_eq]
  by_cases hfits :
      b.len + 4 + ((fragmentHead family p allowedip.isEmpty).map size).sum ≤ cap
  · rw [if_pos hfits]
    have hnone : (addFragment b (fragment family p allowedip.isEmpty none)).len ≤ cap := by
      rw [addFragment, fragment_none_size, ← Nat.add_assoc]
      exact hfits
    by_cases hips : p.allowedIps = []
    · show PeerRound cap family b p allowedip (if p.allowedIps = [] then _ else _)
      rw [if_pos hips, nestEnd_none]
      apply PeerRound.done none _ hnone
      rw [toPut, if_pos (hcursor hips), hips]
      rfl
    · have hput : toPut p allowedip ≠ [] := by
        unfold toPut
        split
        · exact hips
        · exact ‹_›
      show PeerRound cap family b p allowedip (if p.allowedIps = [] then _ else _)
      rw [if_neg hips, nestStartCheck]
      by_cases hnest :
          cap < b.len + 4 + ((fragmentHead family p allowedip.isEmpty).map size).sum + 4
      · rw [if_pos hnest]
        show PeerRound cap family b p allowedip (.tooBigAllowedIps (b.nestEnd id _) _)
        rw [nestEnd_none]
        apply PeerRound.tooBigAllowedIps none _ rfl hput hnone
        intro hroom
        omega
      · rw [if_neg hnest]
        exact putAllowedIps_round b p allowedip (by omega)
  · rw [if_neg hfits]
    apply PeerRound.tooBigPeers
    omega

end Sizes

/-! ## One message -/

section Message

variable {Addr : Type} {cap : Nat} {family : Addr → Family} {c : Cursor Addr}

def Cursor.left (c : Cursor Addr) : Nat :=
  match c with
  | ⟨[], _⟩ => 0
  | ⟨p :: ps, allowedip⟩ =>
    (if allowedip = [] then 1 + p.allowedIps.length else allowedip.length)
      + (ps.map fun q => 1 + q.allowedIps.length).sum

/-- `allowedip` points into the allowed IPs of the peer. -/
def Cursor.Valid (c : Cursor Addr) : Prop :=
  ∀ p ∈ c.peers.head?, p.allowedIps = [] → c.allowedip = []

theorem Cursor.left_fresh (ps : List (WgPeer Addr)) :
    Cursor.left ⟨ps, []⟩ = (ps.map fun q => 1 + q.allowedIps.length).sum := by
  cases ps with
  | nil => rfl
  | cons p ps => rfl

theorem Cursor.left_pos (c : Cursor Addr) (h : c.peers ≠ []) : 0 < c.left := by
  match c, h with
  | ⟨p :: ps, allowedip⟩, _ =>
    show 0 < (if allowedip = [] then 1 + p.allowedIps.length else allowedip.length) + _
    split
    · omega
    · have := List.length_pos_iff.2 ‹¬allowedip = []›
      omega

variable {ps : List (WgPeer Addr)} {fs : List (Fragment Addr)}

theorem Owed.fresh_iff :
    Owed family ⟨ps, []⟩ fs ↔
      ∃ groups, fs = groups.flatten ∧ List.Forall₂ (Carries family) ps groups := by
  cases ps with
  | nil =>
    show fs = [] ↔ _
    simp only [List.forall₂_nil_left_iff, exists_eq_right, List.flatten_nil]
  | cons p ps =>
    show (∃ group groups, _ ∧ (if [] = [] then Carries family p group else _) ∧ _) ↔ _
    simp only [if_true, List.forall₂_cons_left_iff]
    constructor
    · rintro ⟨group, groups, hfs, hgroup, hgroups⟩
      exact ⟨group :: groups, hfs, group, groups, hgroup, hgroups, rfl⟩
    · rintro ⟨_, hfs, group, groups, hgroup, hgroups, rfl⟩
      exact ⟨group, groups, hfs, hgroup, hgroups⟩

theorem Continues.nil (p : WgPeer Addr) : Continues family p [] [] :=
  ⟨[], rfl, rfl⟩

variable {allowedip : List (WgAllowedIp Addr)} {ips : Option (List (WgAllowedIp Addr))}
  {p : WgPeer Addr}

-- The first fragment that is sent from here on has the settings iff `allowedip` is `NULL`.
theorem Remains.cons {p : WgPeer Addr} {allowedip left : List (WgAllowedIp Addr)}
    {ips : Option (List (WgAllowedIp Addr))} {fs : List (Fragment Addr)}
    (hips : ips.getD [] ++ left = toPut p allowedip) (h : Continues family p left fs) :
    Remains family p allowedip (fragment family p allowedip.isEmpty ips :: fs) := by
  unfold toPut at hips
  unfold Remains
  by_cases hfresh : allowedip = []
  · rw [if_pos hfresh] at hips ⊢
    rw [hfresh]
    exact ⟨ips, left, fs, rfl, hips, h⟩
  · rw [if_neg hfresh] at hips ⊢
    rw [List.isEmpty_eq_false_iff.2 hfresh]
    obtain ⟨parts, hfs, hparts⟩ := h
    refine ⟨ips :: parts, by rw [hfs, List.map_cons], ?_⟩
    rw [List.flatMap_cons, hparts, hips]

/-- What the loop over the peers does to a buffer and the cursors. -/
structure Advance (cap : Nat) (family : Addr → Family) (b : Buf (Fragment Addr)) (c : Cursor Addr)
    (b' : Buf (Fragment Addr)) (c' : Cursor Addr) (fs : List (Fragment Addr)) : Prop where
  attrs : b'.attrs = b.attrs ++ fs
  len : b'.len = b.len + (fs.map Fragment.size).sum
  fits : b'.len ≤ cap
  owed : ∀ rest, Owed family c' rest → Owed family c (fs ++ rest)
  valid : c'.Valid
  left : c'.left ≤ c.left
  /-- 172 bytes hold the head of a peer and one allowed IP. -/
  progress : c.peers ≠ [] → b.len + 172 ≤ cap → c'.left < c.left

variable {b : Buf (Fragment Addr)}

theorem Advance.refl (hb : b.len ≤ cap) (hvalid : c.Valid)
    (hstop : c.peers ≠ [] → cap < b.len + 172) :
    Advance cap family b c b c [] where
  attrs := (List.append_nil _).symm
  len := rfl
  fits := hb
  owed _ h := h
  valid := hvalid
  left := Nat.le_refl _
  progress hpeers hroom := absurd hroom (Nat.not_le.2 (hstop hpeers))

theorem Advance.done {b' : Buf (Fragment Addr)} {c' : Cursor Addr}
    (hips : ips.getD [] = toPut p allowedip)
    (h : Advance cap family (addFragment b (fragment family p allowedip.isEmpty ips)) ⟨ps, []⟩ b' c'
      fs) :
    Advance cap family b ⟨p :: ps, allowedip⟩ b' c'
      (fragment family p allowedip.isEmpty ips :: fs) := by
  have hleft : Cursor.left ⟨ps, []⟩ < Cursor.left ⟨p :: ps, allowedip⟩ := by
    rw [Cursor.left_fresh]
    show _ < (if allowedip = [] then 1 + p.allowedIps.length else allowedip.length) + _
    split
    · omega
    · have := List.length_pos_iff.2 ‹¬allowedip = []›
      omega
  constructor
  · rw [h.attrs, addFragment, List.append_assoc, List.singleton_append]
  · rw [h.len, addFragment, List.map_cons, List.sum_cons, Nat.add_assoc]
  · exact h.fits
  · intro rest hrest
    obtain ⟨groups, hflat, hgroups⟩ := Owed.fresh_iff.1 (h.owed rest hrest)
    refine ⟨[fragment family p allowedip.isEmpty ips], groups, ?_, ?_, hgroups⟩
    · rw [List.cons_append, hflat, List.singleton_append]
    · exact Remains.cons ((List.append_nil _).trans hips) (Continues.nil p)
  · exact h.valid
  · exact Nat.le_of_lt (Nat.lt_of_le_of_lt h.left hleft)
  · exact fun _ _ => Nat.lt_of_le_of_lt h.left hleft

theorem Advance.tooBig {left : List (WgAllowedIp Addr)} (hvalid : Cursor.Valid ⟨p :: ps, allowedip⟩)
    (hips : ips.getD [] ++ left = toPut p allowedip) (hleft : left ≠ [])
    (hfits : (addFragment b (fragment family p allowedip.isEmpty ips)).len ≤ cap)
    (hfull : b.len + 172 ≤ cap → ips.getD [] ≠ []) :
    Advance cap family b ⟨p :: ps, allowedip⟩
      (addFragment b (fragment family p allowedip.isEmpty ips)) ⟨p :: ps, left⟩
      [fragment family p allowedip.isEmpty ips] := by
  have hlength := congrArg List.length hips
  rw [List.length_append, toPut] at hlength
  constructor
  · rfl
  · rw [List.map_singleton, List.sum_singleton]
    rfl
  · exact hfits
  · rintro rest ⟨group, groups, hrest, hgroup, hgroups⟩
    rw [Remains, if_neg hleft] at hgroup
    refine ⟨fragment family p allowedip.isEmpty ips :: group, groups, ?_, Remains.cons hips hgroup,
      hgroups⟩
    rw [hrest, List.singleton_append, List.cons_append]
  · intro q hq hnone
    cases hq
    have hnil := hvalid p rfl hnone
    rw [toPut, if_pos hnil, hnone] at hips
    exact absurd (List.append_eq_nil_iff.1 hips).2 hleft
  · show (if left = [] then _ else left.length) + _ ≤ (if allowedip = [] then _ else _) + _
    rw [if_neg hleft]
    split at hlength <;> simp only [*, if_true, if_false] <;> omega
  · intro _ hroom
    have hsome := List.length_pos_iff.2 (hfull hroom)
    show (if left = [] then _ else left.length) + _ < (if allowedip = [] then _ else _) + _
    rw [if_neg hleft]
    split at hlength <;> simp only [*, if_true, if_false] <;> omega

theorem putPeers_advance {b : Buf (Fragment Addr)} {ps : List (WgPeer Addr)}
    {allowedip : List (WgAllowedIp Addr)} (hb : b.len ≤ cap)
    (hvalid : Cursor.Valid ⟨ps, allowedip⟩) :
    ∃ fs, Advance cap family b ⟨ps, allowedip⟩ (putPeers cap family b ps allowedip).1
      (putPeers cap family b ps allowedip).2 fs := by
  induction ps generalizing b allowedip with
  | nil => exact ⟨[], Advance.refl hb hvalid (fun h => absurd rfl h)⟩
  | cons p ps ih =>
    have hround := @putPeer_round Addr cap family b p allowedip (hvalid p rfl)
    generalize hstep : putPeer cap family b p allowedip = step at hround
    simp only [putPeers, hstep]
    cases hround with
    | done ips hips fits =>
      obtain ⟨fs, h⟩ := ih fits (fun _ _ _ => rfl)
      exact ⟨_, Advance.done hips h⟩
    | tooBigPeers full =>
      exact ⟨[], Advance.refl hb hvalid (fun _ => by omega)⟩
    | tooBigAllowedIps ips left hips hleft fits full =>
      exact ⟨_, Advance.tooBig hvalid hips hleft fits full⟩

end Message

/-! ## All messages -/

section Messages

variable {Addr : Type} {cap : Nat} {family : Addr → Family} {c : Cursor Addr}

def Message.fragments (m : Message Addr) : List (Fragment Addr) := m.peers.getD []

/-- Messages are sent up to the first that is not acknowledged. -/
def deliver (ack : Message Addr → Bool) : List (Message Addr) → SetResult Addr
  | [] => ⟨[], true⟩
  | m :: ms =>
    if ack m = false then ⟨[m], false⟩ else { deliver ack ms with sent := m :: (deliver ack ms).sent }

theorem deliver_cons (ack : Message Addr → Bool) (m : Message Addr) (ms : List (Message Addr)) :
    deliver ack (m :: ms) =
      if ack m = false then ⟨[m], false⟩
      else { deliver ack ms with sent := m :: (deliver ack ms).sent } :=
  rfl

/-- The messages that are sent from a cursor on, whatever the acknowledgements are. -/
structure Sends (cap : Nat) (family : Addr → Family) (ifname : IfName) (device : List DeviceAttr)
    (c : Cursor Addr) (n : Nat) (first : Message Addr) (later : List (Message Addr)) : Prop where
  runs : ∀ fuel, n < fuel → ∀ ack,
    sendMessages cap family ack ifname true fuel device c = some (deliver ack (first :: later))
  fits : ∀ m ∈ first :: later, m.ifname = ifname ∧ m.size ≤ cap
  device : first.device = device ∧ ∀ m ∈ later, m.device = []
  owed : Owed family c ((first :: later).flatMap Message.fragments)

variable {device : List DeviceAttr} {ifname : IfName}

theorem Sends.mono {n' : Nat} {first : Message Addr} {later : List (Message Addr)}
    (h : Sends cap family ifname device c n first later) (hn : n ≤ n') :
    Sends cap family ifname device c n' first later :=
  { h with runs := fun fuel hfuel => h.runs fuel (Nat.lt_of_le_of_lt hn hfuel) }

theorem buildMessage_advance {ifname : IfName} {device : List DeviceAttr} {c : Cursor Addr}
    (hroom : preparedLen ifname device + 4 ≤ cap) (hvalid : c.Valid) :
    ∃ fs c', buildMessage cap family ifname true device c = (⟨ifname, device, some fs⟩, c')
      ∧ Message.size (⟨ifname, device, some fs⟩ : Message Addr) ≤ cap
      ∧ (∀ rest, Owed family c' rest → Owed family c (fs ++ rest)) ∧ c'.Valid ∧ c'.left ≤ c.left
      ∧ (c.peers ≠ [] → preparedLen ifname device + 176 ≤ cap → c'.left < c.left) := by
  obtain ⟨fs, h⟩ := @putPeers_advance Addr cap family
    (nestStart (preparedLen ifname device)) c.peers c.allowedip hroom hvalid
  refine ⟨fs, _, ?_, ?_, h.owed, h.valid, h.left, ?_⟩
  · show (_, _) = _
    rw [h.attrs]
    rfl
  · have hlen : _ = preparedLen ifname device + 4 + _ := h.len
    have hfits := h.fits
    show preparedLen ifname device + (4 + (fs.map Fragment.size).sum) ≤ cap
    omega
  · intro hpeers hlarge
    apply h.progress hpeers
    show preparedLen ifname device + 4 + 172 ≤ cap
    omega

theorem Owed.of_peers_eq_nil (h : c.peers = []) : Owed family c [] := by
  obtain ⟨peers, allowedip⟩ := c
  cases h
  rfl

-- A message is built; either it was the last one, or the others follow from the new cursors.
theorem sendMessages_sends {ifname : IfName} {device : List DeviceAttr} {c : Cursor Addr} {n : Nat}
    (hroom : preparedLen ifname device + 4 ≤ cap) (hvalid : c.Valid)
    (hnext : ∀ c' : Cursor Addr, c'.Valid → c'.peers ≠ [] → c'.left ≤ c.left →
      (c.peers ≠ [] → preparedLen ifname device + 176 ≤ cap → c'.left < c.left) →
      ∃ first later, Sends cap family ifname [] c' n first later) :
    ∃ first later, Sends cap family ifname device c (n + 1) first later := by
  obtain ⟨fs, c', hbuild, hsize, howed, hvalid', hleft, hless⟩ :=
    @buildMessage_advance Addr cap family ifname device c hroom hvalid
  have hstep : ∀ fuel ack, sendMessages cap family ack ifname true (fuel + 1) device c =
      if ack ⟨ifname, device, some fs⟩ = false then some ⟨[⟨ifname, device, some fs⟩], false⟩
      else if c'.peers = [] then some ⟨[⟨ifname, device, some fs⟩], true⟩
      else (sendMessages cap family ack ifname true fuel [] c').map
        fun s => { s with sent := ⟨ifname, device, some fs⟩ :: s.sent } := by
    intro fuel ack
    rw [sendMessages, hbuild]
  by_cases hend : c'.peers = []
  · refine ⟨⟨ifname, device, some fs⟩, [], ?_, ?_, ⟨rfl, fun m hm => nomatch hm⟩,
      howed [] (Owed.of_peers_eq_nil hend)⟩
    · intro fuel hfuel ack
      obtain ⟨fuel, rfl⟩ : ∃ k, fuel = k + 1 := ⟨fuel - 1, by omega⟩
      rw [hstep, if_pos hend, deliver]
      split <;> rfl
    · intro m hm
      rw [List.mem_singleton.1 hm]
      exact ⟨rfl, hsize⟩
  · obtain ⟨first, later, h⟩ := hnext c' hvalid' hend hleft hless
    refine ⟨⟨ifname, device, some fs⟩, first :: later, ?_, ?_, ⟨rfl, ?_⟩, howed _ h.owed⟩
    · intro fuel hfuel ack
      obtain ⟨fuel, rfl⟩ : ∃ k, fuel = k + 1 := ⟨fuel - 1, by omega⟩
      rw [hstep, if_neg hend, h.runs fuel (by omega) ack, deliver_cons _ ⟨ifname, device, some fs⟩]
      split <;> rfl
    · intro m hm
      cases hm with
      | head => exact ⟨rfl, hsize⟩
      | tail _ hm => exact h.fits m hm
    · intro m hm
      cases hm with
      | head => exact h.device.1
      | tail _ hm => exact h.device.2 m hm

theorem preparedLen_nil_le (ifname : IfName) : preparedLen ifname [] ≤ 40 := by
  have hname := ifname.length_lt
  show 20 + (4 + (ifname.bytes.length + 1 + 3) / 4 * 4) + 0 ≤ 40
  omega

-- Without the device there is room in every message, so that each one gets further.
theorem sendMessages_resumed (hcap : 216 ≤ cap) (ifname : IfName) (c : Cursor Addr)
    (hvalid : c.Valid) (hpeers : c.peers ≠ []) :
    ∃ first later, Sends cap family ifname [] c c.left first later := by
  have hname := preparedLen_nil_le ifname
  induction hn : c.left using Nat.strong_induction_on generalizing c with
  | _ n ih =>
    subst hn
    have hpos := c.left_pos hpeers
    have h := @sendMessages_sends Addr cap family ifname [] c (c.left - 1) (by omega) hvalid ?_
    · rw [Nat.sub_add_cancel hpos] at h
      exact h
    · intro c' hvalid' hpeers' _ hless
      have hlt := hless hpeers (by omega)
      obtain ⟨first, later, h⟩ := ih c'.left hlt c' hvalid' hpeers' rfl
      exact ⟨first, later, h.mono (by omega)⟩

theorem cap_le {pageSize : Nat} (hpage : 4096 ≤ pageSize) : 216 ≤ socketBufferSize pageSize := by
  unfold socketBufferSize
  split <;> omega

-- A device without peers is one message.
theorem kernelSetDevice_noPeers {version : Nat} {d : WgDevice Addr}
    (hdevice : deviceAttrs version d = some device) (hpeers : d.peers = []) {fuel : Nat}
    (hfuel : 0 < fuel) (ack : Message Addr → Bool) :
    kernelSetDevice cap family ack version ifname fuel d
      = some (deliver ack [⟨ifname, device, none⟩]) := by
  obtain ⟨fuel, rfl⟩ : ∃ k, fuel = k + 1 := ⟨fuel - 1, by omega⟩
  rw [kernelSetDevice, hdevice, hpeers, Option.bind_some, deliver_cons]
  show (if ack ⟨ifname, device, none⟩ = false then _ else if [] = [] then _ else _) = _
  rw [if_pos rfl]
  split <;> rfl

theorem kernelSetDevice_peers {version : Nat} {d : WgDevice Addr}
    (hdevice : deviceAttrs version d = some device) (hpeers : d.peers ≠ []) (fuel : Nat)
    (ack : Message Addr → Bool) :
    kernelSetDevice cap family ack version ifname fuel d
      = sendMessages cap family ack ifname true fuel device ⟨d.peers, []⟩ := by
  rw [kernelSetDevice, hdevice, Option.bind_some, List.isEmpty_eq_false_iff.2 hpeers]
  rfl

theorem sends_of_room (hcap : 216 ≤ cap) {ifname : IfName} {device : List DeviceAttr}
    (hroom : preparedLen ifname device + 4 ≤ cap) (ps : List (WgPeer Addr)) :
    ∃ first later,
      Sends cap family ifname device ⟨ps, []⟩ (Cursor.left ⟨ps, []⟩ + 1) first later := by
  apply sendMessages_sends hroom (fun _ _ _ => rfl)
  intro c' hvalid' hpeers' hleft _
  obtain ⟨first, later, h⟩ := sendMessages_resumed hcap ifname c' hvalid' hpeers'
  exact ⟨first, later, h.mono hleft⟩

/-- For every device whose attributes leave room for the peers nest, the messages are all sent
unless one is refused, and together they carry the device once and every peer in order. -/
theorem kernelSetDevice_carries (pageSize version : Nat) (ifname : IfName) (d : WgDevice Addr)
    (device : List DeviceAttr) (hpage : 4096 ≤ pageSize)
    (hdevice : deviceAttrs version d = some device)
    (hroom : preparedLen ifname device + 4 ≤ socketBufferSize pageSize) :
    ∃ first later groups,
      (∃ n, ∀ fuel, n < fuel → ∀ ack,
        kernelSetDevice (socketBufferSize pageSize) family ack version ifname fuel d
          = some (deliver ack (first :: later)))
      ∧ (first.device = device ∧ ∀ m ∈ later, m.device = [])
      ∧ (first :: later).flatMap Message.fragments = groups.flatten
      ∧ List.Forall₂ (Carries family) d.peers groups
      ∧ ∀ m ∈ first :: later, m.ifname = ifname ∧ m.size ≤ socketBufferSize pageSize := by
  by_cases hpeers : d.peers = []
  · refine ⟨⟨ifname, device, none⟩, [], [], ⟨0, ?_⟩, ⟨rfl, fun m hm => nomatch hm⟩, rfl, ?_, ?_⟩
    · exact fun fuel hfuel ack => kernelSetDevice_noPeers hdevice hpeers hfuel ack
    · rw [hpeers]
      exact List.Forall₂.nil
    · intro m hm
      rw [List.mem_singleton.1 hm]
      refine ⟨rfl, ?_⟩
      show preparedLen ifname device + 0 ≤ _
      omega
  · obtain ⟨first, later, h⟩ := @sends_of_room _ _ family (cap_le hpage) ifname device hroom d.peers
    obtain ⟨groups, hflat, hgroups⟩ := Owed.fresh_iff.1 h.owed
    refine ⟨first, later, groups, ⟨Cursor.left ⟨d.peers, []⟩ + 1, ?_⟩, h.device, hflat, hgroups,
      h.fits⟩
    intro fuel hfuel ack
    rw [kernelSetDevice_peers hdevice hpeers]
    exact h.runs fuel hfuel ack

end Messages

def twoPeers : WgDevice Bool where
  replacePeers := true
  listenPort := some 51820
  peers := [
    { publicKey := some zeroKey, presharedKey := some zeroKey, endpoint := some (false, 51820),
      allowedIps := List.replicate 200 ⟨.inet, false, 32⟩, replaceAllowedIps := true },
    { publicKey := some zeroKey, awg := some true, allowedIps := [⟨.inet6, true, 128⟩] }]

theorem kernelSetDevice_carries_twoPeers :
    ∃ first later groups,
      (∃ n, ∀ fuel, n < fuel → ∀ ack,
        kernelSetDevice 4096 (fun b => if b then .inet6 else .inet) ack 2
          (IfName.ofArg ['a', 'w', 'g', '0']) fuel twoPeers = some (deliver ack (first :: later)))
      ∧ (first.device = [.listenPort 51820, .flags true] ∧ ∀ m ∈ later, m.device = [])
      ∧ (first :: later).flatMap Message.fragments = groups.flatten
      ∧ List.Forall₂ (Carries fun b => if b then .inet6 else .inet) twoPeers.peers groups
      ∧ ∀ m ∈ first :: later,
        m.ifname = IfName.ofArg ['a', 'w', 'g', '0'] ∧ m.size ≤ 4096 :=
  kernelSetDevice_carries 4096 2 (IfName.ofArg ['a', 'w', 'g', '0']) twoPeers
    [.listenPort 51820, .flags true] (Nat.le_refl 4096) rfl (by decide)

end Amnezia.Tools
