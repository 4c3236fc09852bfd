import Amnezia.Tools.Printed

/-!
# The device read from printed lines

`config_read_line` over the lines that awg-quick leaves, and `config_read_finish`.
-/

namespace Amnezia.Tools

open Java (Text)
open Libc (Bytes utf8)
open Config (InterfaceAttribute Interface PeerAttribute Peer Net)

namespace Printed

variable {Addr : Type} {sys : Resolver Addr} (net : Net Addr)

def deviceAfter (i : Interface Addr) (d : WgDevice Addr) (a : InterfaceAttribute) : WgDevice Addr :=
  match deviceKey a with
  | some k => d.setAttribute i k
  | none => d

def wgPeer (p : Peer Addr × List PeerAttribute) : WgPeer Addr :=
  p.2.foldl (fun q a => q.setAttribute net p.1 a) { replaceAllowedIps := true }

def device (d : Printed Addr) : WgDevice Addr :=
  { d.attributes.foldl (deviceAfter d.interfaze) (configReadInit false).device with
    peers := d.peers.map (wgPeer net) }

variable {net}

theorem peers_deviceAfter (i : Interface Addr) (d : WgDevice Addr) (a : InterfaceAttribute) :
    (deviceAfter i d a).peers = d.peers := by
  unfold deviceAfter
  split
  · next k _ => cases k <;> rfl
  · rfl

theorem peers_foldl (i : Interface Addr) (as : List InterfaceAttribute) (d : WgDevice Addr) :
    (as.foldl (deviceAfter i) d).peers = d.peers := by
  induction as generalizing d with
  | nil => rfl
  | cons a as ih => rw [List.foldl_cons, ih, peers_deviceAfter]

/-- The lines of the interface: each is accepted or not, whatever the others are. -/
theorem foldlM_attributes (hnet : net.Documented) (hsys : sys.ReadsNumeric net)
    {i : Interface Addr} (hi : i.Valid net) {as : List InterfaceAttribute}
    (has : ∀ a ∈ as, i.entries net a ≠ []) (hleft : ∀ a ∈ as, quickAction a = none)
    {ctx ctx' : ConfigCtx Addr} (hctx : ctx.isDeviceSection = true) :
    ((as.map (i.attributeLine net)).map fileLine).foldlM (configReadLine sys) ctx = .ok ctx' ↔
      (∀ a ∈ as, ∀ k, deviceKey a = some k → k.Accepts i) ∧
        ctx' = { ctx with device := as.foldl (deviceAfter i) ctx.device } := by
  let act : ConfigCtx Addr → InterfaceAttribute → ConfigCtx Addr :=
    fun ctx a => { ctx with device := deviceAfter i ctx.device a }
  have hstep : ∀ a ∈ as, ∀ s s' : ConfigCtx Addr, s.isDeviceSection = true →
      (configReadLine sys s (fileLine (i.attributeLine net a)) = .ok s' ↔
        (∀ k, deviceKey a = some k → k.Accepts i) ∧ s' = act s a) := by
    intro a ha s s' hs
    obtain ⟨k, hk⟩ := Option.isSome_iff_exists.1 (deviceKey_isSome.2 (hleft a ha))
    rw [configReadLine_attribute hnet hsys hi hk (has a ha) hs]
    simp only [act, deviceAfter, hk, Option.some.injEq, forall_eq']
  have hfoldl : ∀ (l : List InterfaceAttribute) (s : ConfigCtx Addr),
      l.foldl act s = { s with device := l.foldl (deviceAfter i) s.device } := by
    intro l
    induction l with
    | nil => exact fun s => rfl
    | cons a l ih =>
      intro s
      rw [List.foldl_cons, List.foldl_cons, ih]
  rw [List.map_map, List.foldlM_map, ← hfoldl]
  exact Loops.foldlM_eq_ok_iff hstep (fun a ha s hs => hs) hctx

variable {p : Peer Addr × List PeerAttribute}

section Peers

variable (hnet : net.Documented) (hsys : sys.ReadsNumeric net)

include hnet hsys

theorem foldlM_peerAttributes {p : Peer Addr} (hp : p.Valid net)
    (hnum : ∀ e, p.endpoint = some e → e.isResolved = true) {as : List PeerAttribute}
    (has : ∀ a ∈ as, p.entries net a ≠ []) (d : WgDevice Addr) (done : List (WgPeer Addr))
    (q : WgPeer Addr) :
    ((as.map (p.attributeLine net)).map fileLine).foldlM (configReadLine sys)
        ⟨{ d with peers := done ++ [q] }, true, false⟩ =
      .ok ⟨{ d with peers := done ++ [as.foldl (fun q a => q.setAttribute net p a) q] },
        true, false⟩ := by
  induction as generalizing q with
  | nil => rfl
  | cons a as ih =>
    rw [List.map_cons, List.map_cons, List.foldlM_cons,
      configReadLine_peer hnet hsys hp hnum (has a (by simp)) rfl rfl rfl]
    exact ih (fun b hb => has b (by simp [hb])) _

theorem foldlM_peer (hp : p.1.Valid net) (hnum : ∀ e, p.1.endpoint = some e → e.isResolved = true)
    (has : ∀ a ∈ p.2, p.1.entries net a ≠ []) (ctx : ConfigCtx Addr) :
    ((peerLines net p).map fileLine).foldlM (configReadLine sys) ctx =
      .ok ⟨{ ctx.device with peers := ctx.device.peers ++ [wgPeer net p] }, true, false⟩ := by
  have hblank : configReadLine sys ctx (fileLine []) = .ok ctx := by
    have hclean : cleanConfigLine (fileLine []) = [] := by decide
    unfold configReadLine
    rw [if_pos hclean]
  have hheader : configReadLine sys ctx (fileLine "[Peer]".toList) = .ok
      ⟨{ ctx.device with peers := ctx.device.peers ++ [{ replaceAllowedIps := true }] },
        true, false⟩ := by
    have hclean : cleanConfigLine (fileLine "[Peer]".toList) = "[Peer]".toList := by decide
    rw [configReadLine_of_clean (by decide) hclean]
    rfl
  unfold peerLines
  simp only [List.map_cons]
  rw [List.foldlM_cons, hblank]
  show (fileLine "[Peer]".toList :: _).foldlM (configReadLine sys) ctx = _
  rw [List.foldlM_cons, hheader]
  exact foldlM_peerAttributes hnet hsys hp hnum has ctx.device ctx.device.peers _

theorem foldlM_peers {ps : List (Peer Addr × List PeerAttribute)} (hps : ∀ p ∈ ps, p.1.Valid net)
    (hnum : ∀ p ∈ ps, ∀ e, p.1.endpoint = some e → e.isResolved = true)
    (has : ∀ p ∈ ps, ∀ a ∈ p.2, p.1.entries net a ≠ []) (ctx : ConfigCtx Addr) :
    ∃ ctx', ((ps.flatMap (peerLines net)).map fileLine).foldlM (configReadLine sys) ctx = .ok ctx' ∧
      ctx'.device = { ctx.device with peers := ctx.device.peers ++ ps.map (wgPeer net) } := by
  induction ps generalizing ctx with
  | nil => exact ⟨ctx, rfl, by simp⟩
  | cons p ps ih =>
    obtain ⟨ctx', hfold, hdevice⟩ := ih (fun q hq => hps q (by simp [hq]))
      (fun q hq => hnum q (by simp [hq])) (fun q hq => has q (by simp [hq]))
      ⟨{ ctx.device with peers := ctx.device.peers ++ [wgPeer net p] }, true, false⟩
    refine ⟨ctx', ?_, ?_⟩
    · rw [List.flatMap_cons, List.map_append, List.foldlM_append,
        foldlM_peer hnet hsys (hps p (by simp)) (hnum p (by simp)) (has p (by simp))]
      exact hfold
    · rw [hdevice]
      simp

end Peers

theorem component_wgPeer {τ : Type} (get : WgPeer Addr → τ) (hp : p.2.Nodup) {a : PeerAttribute}
    (change : τ → τ) (hset : ∀ q : WgPeer Addr, get (q.setAttribute net p.1 a) = change (get q))
    (hframe : ∀ (q : WgPeer Addr) b, b ≠ a → get (q.setAttribute net p.1 b) = get q) :
    get (wgPeer net p) = if a ∈ p.2 then change (get { replaceAllowedIps := true })
      else get { replaceAllowedIps := true } :=
  Loops.foldl_component get change (fun _ => True) (fun _ _ _ _ => trivial)
    (fun _ q _ => hset q) (fun b _ hne q _ => hframe q b hne) hp trivial

theorem publicKey_wgPeer (hp : p.2.Nodup) :
    (wgPeer net p).publicKey = if .publicKey ∈ p.2 then some p.1.publicKey else none := by
  apply component_wgPeer (fun q : WgPeer Addr => q.publicKey) hp (fun _ => some p.1.publicKey)
  · intro q
    rfl
  · intro q b hne
    cases b <;> first | rfl | exact absurd rfl hne

theorem readConfig_lines (hnet : net.Documented) (hsys : sys.ReadsNumeric net) {d : Printed Addr}
    (hd : d.Good net) (hleft : ∀ a ∈ d.attributes, quickAction a = none) {dev : WgDevice Addr} :
    readConfig sys ((d.lines net).flatMap fileLine) = .ok dev ↔
      (∀ a ∈ d.attributes, ∀ k, deviceKey a = some k → k.Accepts d.interfaze) ∧
      (∀ p ∈ d.peers, .publicKey ∈ p.2) ∧ dev = d.device net := by
  let ctx₁ : ConfigCtx Addr := ⟨(configReadInit false).device, false, true⟩
  let ctx₂ : ConfigCtx Addr :=
    { ctx₁ with device := d.attributes.foldl (deviceAfter d.interfaze) ctx₁.device }
  obtain ⟨ctx₃, hpeers, hdevice⟩ := foldlM_peers hnet hsys hd.peerValid hd.peerNumeric
    hd.peerPresent ctx₂
  have hdevice : ctx₃.device = d.device net := by
    rw [hdevice]
    have hnone : ctx₂.device.peers = [] := peers_foldl d.interfaze d.attributes _
    rw [hnone, List.nil_append]
    rfl
  have hheader : configReadLine sys (configReadInit false) (fileLine "[Interface]".toList) =
      .ok ctx₁ := by
    have hclean : cleanConfigLine (fileLine "[Interface]".toList) = "[Interface]".toList := by decide
    rw [configReadLine_of_clean (by decide) hclean]
    rfl
  have hattributes : ∀ ctx', ((d.attributes.map (d.interfaze.attributeLine net)).map
      fileLine).foldlM (configReadLine sys) ctx₁ = .ok ctx' ↔ _ := fun ctx' =>
    @foldlM_attributes Addr sys net hnet hsys d.interfaze hd.valid d.attributes hd.present hleft
      ctx₁ ctx' rfl
  -- the last peers have their public keys
  have hfinish : configReadFinish ctx₃ = .ok dev ↔
      (∀ p ∈ d.peers, .publicKey ∈ p.2) ∧ dev = d.device net := by
    have hall : (ctx₃.device.peers.all fun p => p.publicKey.isSome) = true ↔
        ∀ p ∈ d.peers, .publicKey ∈ p.2 := by
      rw [hdevice, List.all_eq_true]
      show (∀ q ∈ d.peers.map (wgPeer net), _) ↔ _
      rw [List.forall_mem_map]
      constructor
      · intro h p hp
        have hsome := h p hp
        rw [publicKey_wgPeer (hd.peerNodup p hp)] at hsome
        by_contra hnot
        rw [if_neg hnot] at hsome
        cases hsome
      · intro h p hp
        rw [publicKey_wgPeer (hd.peerNodup p hp), if_pos (h p hp)]
        rfl
    unfold configReadFinish
    by_cases hkeys : (ctx₃.device.peers.all fun p => p.publicKey.isSome) = true
    · rw [if_pos hkeys, hdevice]
      constructor
      · intro h
        cases h
        exact ⟨hall.1 hkeys, rfl⟩
      · rintro ⟨-, rfl⟩
        rfl
    · rw [if_neg hkeys]
      constructor
      · intro h
        cases h
      · intro h
        exact absurd (hall.2 h.1) hkeys
  unfold readConfig configRead
  rw [getlines_fileLine fun l => notMem_lines hnet hd, Loops.bind_eq_ok]
  unfold lines
  rw [List.map_append, List.map_cons]
  constructor
  · rintro ⟨ctx', hfold, hfin⟩
    obtain ⟨ctx, hfirst, hrest⟩ := Loops.foldlM_append_eq_ok.1 hfold
    obtain ⟨ctx'', hhead, hmid⟩ := Loops.foldlM_cons_eq_ok.1 hfirst
    rw [hheader] at hhead
    cases hhead
    obtain ⟨haccepts, rfl⟩ := (hattributes ctx).1 hmid
    rw [hpeers] at hrest
    cases hrest
    exact ⟨haccepts, hfinish.1 hfin⟩
  · rintro ⟨haccepts, hrest⟩
    refine ⟨ctx₃, Loops.foldlM_append_eq_ok.2 ⟨ctx₂, ?_, hpeers⟩, hfinish.2 hrest⟩
    exact Loops.foldlM_cons_eq_ok.2 ⟨ctx₁, hheader, (hattributes ctx₂).2 ⟨haccepts, rfl⟩⟩

theorem component_foldl {τ : Type} (get : WgDevice Addr → τ) {i : Interface Addr} {k : DeviceKey}
    (hmark : k ≠ .fwMark) (value : τ) (hset : ∀ d : WgDevice Addr, get (d.setAttribute i k) = value)
    (hframe : ∀ (d : WgDevice Addr) k', k' ≠ k → get (d.setAttribute i k') = get d) {as : List InterfaceAttribute}
    (has : as.Nodup) (d : WgDevice Addr) :
    get (as.foldl (deviceAfter i) d) = if k.attribute ∈ as then value else get d := by
  have hkey : deviceKey k.attribute = some k := by
    cases k with
    | fwMark => exact absurd rfl hmark
    | uint p => cases p <;> rfl
    | string p => cases p <;> rfl
    | _ => rfl
  refine Loops.foldl_component get (fun _ => value) (fun _ => True) (fun _ _ _ _ => trivial)
    (fun _ s _ => ?_) (fun a _ hne s _ => ?_) has trivial
  · show get (deviceAfter i s k.attribute) = value
    unfold deviceAfter
    rw [hkey]
    exact hset s
  · show get (deviceAfter i s a) = get s
    unfold deviceAfter
    split
    · next k' hk' =>
      apply hframe
      rintro rfl
      exact hne (attribute_of_deviceKey hk').1.symm
    · rfl

section Device

variable (d : Printed Addr) (hd : d.attributes.Nodup)

include hd

theorem device_privateKey (h : .privateKey ∈ d.attributes) :
    (d.device net).privateKey = some d.interfaze.privateKey := by
  have hget := component_foldl (fun d : WgDevice Addr => d.privateKey) (k := .privateKey)
    (i := d.interfaze) (by simp) _ (fun _ => rfl)
    (fun d k hk => by cases k <;> first | rfl | exact absurd rfl hk) hd
    (configReadInit false).device
  exact hget.trans (if_pos h)

theorem device_listenPort : (d.device net).listenPort =
    if .number .listenPort ∈ d.attributes then (d.interfaze.number .listenPort).map Int.toNat
    else none :=
  component_foldl (fun d : WgDevice Addr => d.listenPort) (k := .listenPort) (i := d.interfaze)
    (by simp) _ (fun _ => rfl) (fun d k hk => by cases k <;> first | rfl | exact absurd rfl hk) hd
    (configReadInit false).device

theorem device_uint (p : UintParameter) : (d.device net).uint p =
    if .number p.attribute ∈ d.attributes then (d.interfaze.number p.attribute).map Int.toNat
    else none := by
  refine component_foldl (fun d : WgDevice Addr => d.uint p) (k := .uint p) (i := d.interfaze)
    (by simp) _ (fun d => Function.update_self ..) (fun d k hk => ?_) hd
    (configReadInit false).device
  cases k with
  | uint q =>
    apply Function.update_of_ne
    rintro rfl
    exact hk rfl
  | _ => rfl

theorem device_string (p : StringParameter) : (d.device net).string p =
    if .text p.attribute ∈ d.attributes then
      (d.interfaze.text p.attribute).map fun t => some (configText p.attribute t)
    else none := by
  refine component_foldl (fun d : WgDevice Addr => d.string p) (k := .string p) (i := d.interfaze)
    (by simp) _ (fun d => Function.update_self ..) (fun d k hk => ?_) hd
    (configReadInit false).device
  cases k with
  | string q =>
    apply Function.update_of_ne
    rintro rfl
    exact hk rfl
  | _ => rfl

end Device

end Printed

end Amnezia.Tools
