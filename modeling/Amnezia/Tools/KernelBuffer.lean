import Amnezia.Tools.KernelFragments
import Amnezia.Tools.ReadDevice

/-!
# The device in the first message

The attributes of the device are put without a check, so that whether the first message keeps to the
buffer depends on the lengths of the strings in the file.
-/

namespace Amnezia.Tools

open Libc (Bytes)
open Netlink (Buf attrLen)

section Lengths

variable {Addr : Type}

/-- The attribute of a string: a header is a number for the first version of the interface. -/
def stringLen (version : Nat) (p : StringParameter) (s : Bytes) : Nat :=
  if p.isHeader = true ∧ version < 2 then 8 else attrLen (s.length + 1)

def stringsLen (version : Nat) (d : WgDevice Addr) : Nat :=
  (StringParameter.all.map fun p =>
    match d.string p with
    | some (some s) => stringLen version p s
    | _ => 0).sum

def fixedLen (ifname : IfName) (d : WgDevice Addr) : Nat :=
  20 + attrLen (ifname.bytes.length + 1)
    + (if d.privateKey.isSome then 36 else 0) + (if d.listenPort.isSome then 8 else 0)
    + 8 * (UintParameter.all.countP fun p => (d.uint p).isSome)
    + (if d.fwmark.isSome then 8 else 0) + (if d.replacePeers then 8 else 0)
    + (if d.peers = [] then 0 else 4)

theorem stringLen_eq (version : Nat) (p : StringParameter) (s : Bytes) :
    (DeviceAttr.string p (stringPayload version p s)).size = stringLen version p s := by
  have hnumber : ∀ n, (u32Payload n).length = 4 := fun n => rfl
  show attrLen (stringPayload version p s).length = _
  unfold stringPayload stringLen putMagicHeaderAttr
  cases p.isHeader with
  | false => rw [if_neg (by decide), length_strz, if_neg fun h => absurd h.1 (by decide)]
  | true =>
    by_cases hversion : 2 ≤ version
    · rw [if_pos rfl, if_pos hversion, length_strz, if_neg (by omega)]
    · rw [if_pos rfl, if_neg hversion, hnumber, if_pos ⟨rfl, by omega⟩]
      rfl

def WgDevice.NonNull (d : WgDevice Addr) : Prop := ∀ p, d.string p ≠ some none

def stringAttrs (version : Nat) (d : WgDevice Addr) (p : StringParameter) : List DeviceAttr :=
  match d.string p with
  | some (some s) => [.string p (stringPayload version p s)]
  | _ => []

theorem stringAttr_eq {version : Nat} {d : WgDevice Addr} (hd : d.NonNull) :
    stringAttr version d = fun p => pure (stringAttrs version d p) := by
  funext p
  have hp := hd p
  unfold stringAttr stringAttrs
  split <;> simp_all

theorem uint_sum (d : WgDevice Addr) (ps : List UintParameter) :
    ((ps.flatMap fun p => (d.uint p).toList.map (DeviceAttr.uint p)).map DeviceAttr.size).sum =
      8 * ps.countP fun p => (d.uint p).isSome := by
  induction ps with
  | nil => rfl
  | cons p ps ih =>
    rw [List.flatMap_cons, List.map_append, List.sum_append, ih, List.countP_cons]
    cases d.uint p with
    | none =>
      simp only [Option.toList_none, List.map_nil, List.sum_nil, Option.isSome_none,
        Bool.false_eq_true, if_false]
      omega
    | some n =>
      have hsize : (DeviceAttr.uint p n).size = 8 := rfl
      simp only [Option.toList_some, List.map_cons, List.map_nil, List.sum_cons, List.sum_nil, hsize,
        Option.isSome_some, if_true]
      omega

theorem strings_sum (version : Nat) (d : WgDevice Addr) (ps : List StringParameter) :
    (((ps.map (stringAttrs version d)).flatten).map DeviceAttr.size).sum =
      (ps.map fun p =>
        match d.string p with
        | some (some s) => stringLen version p s
        | _ => 0).sum := by
  induction ps with
  | nil => rfl
  | cons p ps ih =>
    rw [List.map_cons, List.flatten_cons, List.map_append, List.sum_append, ih, List.map_cons,
      List.sum_cons]
    congr 1
    unfold stringAttrs
    split
    · exact stringLen_eq version p _
    · rfl

theorem option_sum {α : Type} (o : Option α) {f : α → DeviceAttr} {n : Nat}
    (h : ∀ a, (f a).size = n) :
    ((o.toList.map f).map DeviceAttr.size).sum = if o.isSome then n else 0 := by
  cases o with
  | none => rfl
  | some a => exact h a

theorem deviceAttrs_eq {version : Nat} {d : WgDevice Addr} (hd : d.NonNull) (ifname : IfName) :
    ∃ device, deviceAttrs version d = some device ∧
      preparedLen ifname device + (if d.peers = [] then 0 else 4)
        = fixedLen ifname d + stringsLen version d := by
  have hattrs : deviceAttrs version d = some (d.privateKey.toList.map .privateKey
      ++ d.listenPort.toList.map .listenPort
      ++ UintParameter.all.flatMap (fun p => (d.uint p).toList.map (.uint p))
      ++ (StringParameter.all.map (stringAttrs version d)).flatten ++ d.fwmark.toList.map .fwmark
      ++ (if d.replacePeers then [.flags true] else [])) := by
    unfold deviceAttrs
    rw [stringAttr_eq hd, List.mapM_pure]
    rfl
  refine ⟨_, hattrs, ?_⟩
  have hkey := option_sum d.privateKey (n := 36) (fun a => rfl : ∀ a, (DeviceAttr.privateKey a).size = 36)
  have hport := option_sum d.listenPort (n := 8) (fun a => rfl : ∀ a, (DeviceAttr.listenPort a).size = 8)
  have hmark := option_sum d.fwmark (n := 8) (fun a => rfl : ∀ a, (DeviceAttr.fwmark a).size = 8)
  have hflags : ((if d.replacePeers = true then [DeviceAttr.flags true] else []).map
      DeviceAttr.size).sum = if d.replacePeers then 8 else 0 := by
    cases d.replacePeers <;> rfl
  unfold preparedLen fixedLen stringsLen
  simp only [List.map_append, List.sum_append, hkey, hport, hmark, hflags, uint_sum, strings_sum]
  omega

end Lengths

section Messages

variable {Addr : Type} {cap : Nat} {family : Addr → Family}

theorem deliver_sent_subset (ack : Message Addr → Bool) (ms : List (Message Addr)) :
    ∀ m ∈ (deliver ack ms).sent, m ∈ ms := by
  induction ms with
  | nil => exact fun m hm => hm
  | cons m' ms ih =>
    intro m hm
    rw [deliver_cons] at hm
    split at hm
    · rw [List.mem_singleton.1 hm]
      exact List.mem_cons_self
    · cases hm with
      | head => exact List.mem_cons_self
      | tail _ hm => exact List.mem_cons_of_mem m' (ih m hm)

-- Whatever the acknowledgement is, the first message has been sent.
theorem mem_deliver (ack : Message Addr → Bool) (m : Message Addr) (ms : List (Message Addr)) :
    m ∈ (deliver ack (m :: ms)).sent := by
  rw [deliver_cons]
  split <;> exact List.mem_cons_self

-- Where even the peers nest does not fit, no peer is put after it.
theorem buildMessage_full {ifname : IfName} {device : List DeviceAttr}
    (hfull : cap < preparedLen ifname device + 4) (c : Cursor Addr) :
    buildMessage cap family ifname true device c = (⟨ifname, device, some []⟩, c) := by
  obtain ⟨peers, allowedip⟩ := c
  show (_, _) = _
  cases peers with
  | nil => rfl
  | cons p ps =>
    have hstop : putPeer cap family (Netlink.nestStart (preparedLen ifname device)) p allowedip
        = .tooBigPeers := by
      unfold putPeer
      rw [putHead_eq, if_neg]
      rw [Netlink.nestStart]
      show ¬preparedLen ifname device + 4 + 4 + _ ≤ cap
      omega
    simp only [putPeers, hstop]
    rfl

theorem sends_of_full (hcap : 216 ≤ cap) {ifname : IfName} {device : List DeviceAttr}
    (hfull : cap < preparedLen ifname device + 4) {ps : List (WgPeer Addr)} (hps : ps ≠ []) :
    ∃ later, ∀ fuel, Cursor.left ⟨ps, []⟩ + 1 < fuel → ∀ ack,
      sendMessages cap family ack ifname true fuel device ⟨ps, []⟩
        = some (deliver ack (⟨ifname, device, some []⟩ :: later)) := by
  obtain ⟨first, later, h⟩ :=
    @sendMessages_resumed Addr cap family hcap ifname ⟨ps, []⟩ (fun _ _ _ => rfl) hps
  refine ⟨first :: later, ?_⟩
  intro fuel hfuel ack
  obtain ⟨fuel, rfl⟩ : ∃ k, fuel = k + 1 := ⟨fuel - 1, by omega⟩
  rw [sendMessages, buildMessage_full hfull, h.runs fuel (by omega) ack,
    deliver_cons _ ⟨ifname, device, some []⟩]
  simp only [if_neg hps]
  split <;> rfl

theorem NonNull.of_read {sys : Resolver Addr} {append : Bool} {config : Bytes} {d : WgDevice Addr}
    (h : configRead sys append config = .ok d) : d.NonNull := by
  intro p hp
  obtain ⟨s, hs, _⟩ := configRead_kept h p none hp
  cases hs

/-- For the device of a file, the messages keep to the buffer iff the strings of the file leave room
for the rest of the first one. -/
theorem kernelSetDevice_fits_iff (sys : Resolver Addr) (append : Bool) (config : Bytes)
    (d : WgDevice Addr) (hread : configRead sys append config = .ok d) (pageSize version : Nat)
    (hpage : 4096 ≤ pageSize) (ifname : IfName) :
    ∃ n, ∀ fuel, n < fuel → ∀ ack, ∃ r,
      kernelSetDevice (socketBufferSize pageSize) family ack version ifname fuel d = some r
      ∧ ((∀ m ∈ r.sent, m.size ≤ socketBufferSize pageSize)
        ↔ fixedLen ifname d + stringsLen version d ≤ socketBufferSize pageSize) := by
  have hcap := cap_le hpage
  obtain ⟨device, hdevice, hlen⟩ := @deviceAttrs_eq Addr version d (NonNull.of_read hread) ifname
  by_cases hpeers : d.peers = []
  · rw [if_pos hpeers] at hlen
    refine ⟨0, fun fuel hfuel ack => ⟨deliver ack [⟨ifname, device, none⟩], ?_, ?_⟩⟩
    · exact kernelSetDevice_noPeers hdevice hpeers hfuel ack
    have hsize : Message.size (⟨ifname, device, none⟩ : Message Addr) = preparedLen ifname device := rfl
    constructor
    · intro h
      have hm := h _ (mem_deliver ack _ [])
      omega
    · intro h m hm
      rw [List.mem_singleton.1 (deliver_sent_subset ack _ m hm)]
      omega
  · rw [if_neg hpeers] at hlen
    by_cases hroom : preparedLen ifname device + 4 ≤ socketBufferSize pageSize
    · obtain ⟨first, later, h⟩ := @sends_of_room _ _ family hcap ifname device hroom d.peers
      refine ⟨Cursor.left ⟨d.peers, []⟩ + 1, fun fuel hfuel ack => ⟨deliver ack (first :: later), ?_, ?_⟩⟩
      · rw [kernelSetDevice_peers hdevice hpeers]
        exact h.runs fuel hfuel ack
      · constructor
        · intro _
          omega
        · exact fun _ m hm => (h.fits m (deliver_sent_subset ack _ m hm)).2
    · obtain ⟨later, h⟩ :=
        @sends_of_full _ _ family hcap ifname device (Nat.lt_of_not_le hroom) d.peers hpeers
      refine ⟨Cursor.left ⟨d.peers, []⟩ + 1, fun fuel hfuel ack =>
        ⟨deliver ack (⟨ifname, device, some []⟩ :: later), ?_, ?_⟩⟩
      · rw [kernelSetDevice_peers hdevice hpeers]
        exact h fuel hfuel ack
      · constructor
        · intro hall
          have hm := hall _ (mem_deliver ack ⟨ifname, device, some []⟩ later)
          have hsize : Message.size (⟨ifname, device, some []⟩ : Message Addr)
              = preparedLen ifname device + 4 := rfl
          omega
        · intro hstrings
          omega

end Messages

section File

variable {Addr : Type}

def i1File (s : Bytes) : Bytes := ["[Interface]".toList, keyLine "I1" s].flatMap (· ++ ['\n'])

def i1Device (s : Bytes) : WgDevice Addr where
  replacePeers := true
  privateKey := some zeroKey
  fwmark := some 0
  string := Function.update (fun _ => none) .i1 (some (some s))

theorem configRead_i1File (sys : Resolver Addr) {s : Bytes} (hs : StringParameter.i1.Kept s)
    (hlength : s.length < maxAwgStringLen) :
    configRead sys false (i1File s) = .ok (i1Device s) := by
  have hlines : (Libc.getlines (i1File s)).map Libc.cstr
      = ["[Interface]".toList, keyLine "I1" s].map (· ++ ['\n']) := by
    apply Libc.getlines_cstr
    intro l hl
    rcases List.mem_pair.1 hl with rfl | rfl
    · decide
    · simp only [keyLine, List.mem_append, not_or]
      exact ⟨⟨by decide, by decide, hs.newline⟩, by decide, by decide, hs.nul⟩
  have hmem : ("I1", DeviceKey.string .i1) ∈ deviceKeys := by decide
  have hclean := cleanConfigLine_kept hmem hs
  have hheader : configReadLine sys (configReadInit false) ("[Interface]".toList ++ ['\n'])
      = .ok { configReadInit false with isDeviceSection := true } := rfl
  have hvalue : parseAwgString s = .ok (some s) := by
    unfold parseAwgString
    rw [if_neg hs.nonempty, if_neg (Nat.not_le.2 hlength)]
  unfold configRead
  rw [hlines, List.map_cons, List.map_cons, List.foldlM_cons, hheader, Loops.ok_bind,
    List.foldlM_cons, configReadLine_of_clean (List.append_ne_nil_of_left_ne_nil (by decide) _) hclean,
    processLine_deviceKey rfl (deviceKeys_names _ hmem) (filter_deviceKeys_name _ hmem) hs.nonempty,
    WgDevice.setKey, hvalue]
  rfl

theorem kept_replicate {n : Nat} (hn : 0 < n) : StringParameter.i1.Kept (List.replicate n 'a') := by
  have hchars : ∀ c ∈ List.replicate n 'a', c = 'a' := fun c hc => List.eq_of_mem_replicate hc
  refine ⟨?_, ?_, ?_, ?_, ⟨?_, ?_⟩, fun h => absurd h (by decide)⟩
  · rw [Ne, List.replicate_eq_nil_iff]
    omega
  · exact fun h => absurd (hchars _ h) (by decide)
  · exact fun h => absurd (hchars _ h) (by decide)
  · exact fun h => absurd (hchars _ h) (by decide)
  · intro c hc
    rw [hchars c (List.mem_of_mem_head? hc)]
    decide
  · intro c hc
    rw [hchars c (List.mem_of_mem_getLast? hc)]
    decide

theorem nonNull_i1Device (s : Bytes) : (i1Device s : WgDevice Addr).NonNull := by
  intro p
  cases p <;> intro h <;> cases h

theorem stringsLen_i1Device (version : Nat) (s : Bytes) :
    stringsLen version (i1Device s : WgDevice Addr) = attrLen (s.length + 1) := by
  simp [stringsLen, StringParameter.all, i1Device, stringLen, StringParameter.isHeader]

end File

theorem kernelSetDevice_fits_short :
    fixedLen (IfName.ofArg "awg0".toList) (i1Device (List.replicate 100 'a') : WgDevice Bool)
      + stringsLen 2 (i1Device (List.replicate 100 'a') : WgDevice Bool) ≤ 4096 ∧
    ∃ n, ∀ fuel, n < fuel → ∀ ack, ∃ r,
      kernelSetDevice 4096 (fun _ => .inet) ack 2 (IfName.ofArg "awg0".toList) fuel
        (i1Device (List.replicate 100 'a') : WgDevice Bool) = some r
      ∧ ((∀ m ∈ r.sent, m.size ≤ 4096) ↔
        fixedLen (IfName.ofArg "awg0".toList) (i1Device (List.replicate 100 'a') : WgDevice Bool)
          + stringsLen 2 (i1Device (List.replicate 100 'a') : WgDevice Bool) ≤ 4096) := by
  constructor
  · rw [stringsLen_i1Device]
    decide
  · exact kernelSetDevice_fits_iff noResolver false (i1File (List.replicate 100 'a')) _
      (configRead_i1File noResolver (kept_replicate (by decide)) (by decide)) 4096 2 (by decide)
      (IfName.ofArg "awg0".toList)

theorem kernelSetDevice_i1_overflows :
    configRead noResolver false (i1File (List.replicate 4200 'a'))
      = .ok (i1Device (List.replicate 4200 'a')) ∧
    ∃ m, kernelSetDevice 4096 (fun _ => .inet) (fun _ => true) 2 (IfName.ofArg "awg0".toList) 1
        (i1Device (List.replicate 4200 'a') : WgDevice Bool) = some ⟨[m], true⟩
      ∧ m.size = 4292 := by
  have hlength : (List.replicate 4200 'a').length = 4200 := List.length_replicate
  have hshort : (List.replicate 4200 'a').length < maxAwgStringLen := by
    rw [hlength]
    decide
  have hkept : StringParameter.i1.Kept (List.replicate 4200 'a') := kept_replicate (by decide)
  constructor
  · exact configRead_i1File noResolver hkept hshort
  · obtain ⟨device, hdevice, hlen⟩ := @deviceAttrs_eq Bool 2 _
      (nonNull_i1Device (List.replicate 4200 'a')) (IfName.ofArg "awg0".toList)
    rw [stringsLen_i1Device, hlength] at hlen
    exact ⟨⟨IfName.ofArg "awg0".toList, device, none⟩,
      kernelSetDevice_noPeers hdevice rfl (by decide) _, hlen⟩

end Amnezia.Tools
