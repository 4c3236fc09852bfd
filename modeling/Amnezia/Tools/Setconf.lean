import Amnezia.Tools.Syncconf
import Amnezia.Tools.Uapi

/-!
# Setting a configuration

`setconf_main`, and what its request does to a running device.  All that is assumed of the device is
that it keeps what a request does not name.
-/

namespace Amnezia.Tools

open Libc (Bytes)

inductive SetCommand where
  | setconf | addconf | syncconf
  deriving DecidableEq, Repr

section Model

variable {Addr P : Type}

/-- The device that `setconf_main` gives to `ipc_set_device`. -/
def setconfMain (sys : Resolver Addr) (qsort : List PubkeyOrigin → List PubkeyOrigin)
    (runtime : Option (WgDevice Addr)) (command : SetCommand) (config : Bytes) :
    Option (WgDevice Addr) :=
  match configRead sys (command == .addconf) config with
  | .error _ => none
  | .ok device => if command = .syncconf then syncConf qsort runtime device else some device

/-- A running device: the values of its fields, and its peers. -/
structure Running (P : Type) where
  field : DeviceKey → Bytes
  peers : P

def Running.set (peerLine : P → UapiField → P) (noPeers : P) (r : Running P) (f : UapiField) :
    Running P :=
  if f.1 = "replace_peers" then { r with peers := noPeers }
  else match fieldKey uapiDeviceKeys f.1.toList with
    | some key => { r with field := Function.update r.field key f.2 }
    | none => { r with peers := peerLine r.peers f }

def Running.setAll (peerLine : P → UapiField → P) (noPeers : P) (r : Running P)
    (fs : List UapiField) : Running P :=
  fs.foldl (Running.set peerLine noPeers) r

end Model

section Named

variable {Addr P : Type} {peerLine : P → UapiField → P} {noPeers : P}
variable {key : DeviceKey} {d : WgDevice Addr}

def Names (fs : List UapiField) (key : DeviceKey) : Prop :=
  ∃ f ∈ fs, fieldKey uapiDeviceKeys f.1.toList = some key

theorem replace_notKey : fieldKey uapiDeviceKeys "replace_peers".toList = none := by decide

variable {f : UapiField}

theorem Running.set_field {r : Running P} (key : DeviceKey) :
    (r.set peerLine noPeers f).field key =
      if fieldKey uapiDeviceKeys f.1.toList = some key then f.2 else r.field key := by
  unfold Running.set
  by_cases hreplace : f.1 = "replace_peers"
  · rw [if_pos hreplace, hreplace, replace_notKey, if_neg (by simp)]
  · rw [if_neg hreplace]
    cases hf : fieldKey uapiDeviceKeys f.1.toList with
    | none => rw [if_neg (by simp)]
    | some k =>
      show Function.update r.field k f.2 key = _
      by_cases hk : key = k
      · subst hk
        rw [Function.update_self, if_pos rfl]
      · rw [Function.update_of_ne hk, if_neg fun h => hk (Option.some.inj h).symm]

variable {fs : List UapiField}

-- Two runs agree on a field once a line has named it, or from the start.
theorem Running.setAll_field {r₁ r₂ : Running P} (h : Names fs key ∨ r₁.field key = r₂.field key) :
    (r₁.setAll peerLine noPeers fs).field key = (r₂.setAll peerLine noPeers fs).field key := by
  induction fs generalizing r₁ r₂ with
  | nil =>
    obtain ⟨f, hf, _⟩ | h := h
    · cases hf
    · exact h
  | cons f fs ih =>
    apply ih
    rw [Running.set_field, Running.set_field]
    by_cases hf : fieldKey uapiDeviceKeys f.1.toList = some key
    · exact .inr (by rw [if_pos hf, if_pos hf])
    · rw [if_neg hf, if_neg hf]
      obtain ⟨g, hg, hkey⟩ | h := h
      · cases hg with
        | head => exact absurd hkey hf
        | tail _ hg => exact .inl ⟨g, hg, hkey⟩
      · exact .inr h

theorem Running.setAll_frame {r : Running P} (h : ¬Names fs key) :
    (r.setAll peerLine noPeers fs).field key = r.field key := by
  induction fs generalizing r with
  | nil => rfl
  | cons f fs ih =>
    have hf : fieldKey uapiDeviceKeys f.1.toList ≠ some key := fun hf =>
      h ⟨f, List.mem_cons_self, hf⟩
    have hrest : ¬Names fs key := fun ⟨g, hg, hkey⟩ => h ⟨g, List.mem_cons_of_mem f hg, hkey⟩
    show (Running.setAll peerLine noPeers (r.set peerLine noPeers f) fs).field key = _
    rw [ih hrest, Running.set_field, if_neg hf]

theorem Running.setAll_peers {r₁ r₂ : Running P}
    (h : (∃ f ∈ fs, f.1 = "replace_peers") ∨ r₁.peers = r₂.peers) :
    (r₁.setAll peerLine noPeers fs).peers = (r₂.setAll peerLine noPeers fs).peers := by
  induction fs generalizing r₁ r₂ with
  | nil =>
    obtain ⟨f, hf, _⟩ | h := h
    · cases hf
    · exact h
  | cons f fs ih =>
    apply ih
    by_cases hreplace : f.1 = "replace_peers"
    · apply Or.inr
      rw [Running.set, Running.set, if_pos hreplace, if_pos hreplace]
    · obtain ⟨g, hg, hkey⟩ | h := h
      · cases hg with
        | head => exact absurd hkey hreplace
        | tail _ hg => exact .inl ⟨g, hg, hkey⟩
      · apply Or.inr
        rw [Running.set, Running.set, if_neg hreplace, if_neg hreplace]
        split
        · exact h
        · rw [h]

def WgDevice.isSet (d : WgDevice Addr) : DeviceKey → Bool
  | .listenPort => d.listenPort.isSome
  | .fwMark => d.fwmark.isSome
  | .privateKey => d.privateKey.isSome
  | .uint p => (d.uint p).isSome
  | .string p => (d.string p).isSome

def peerLineKeys : List String :=
  ["public_key", "remove", "preshared_key", "endpoint", "persistent_keepalive_interval",
   "replace_allowed_ips", "allowed_ip"]

theorem fieldKey_peerLine : ∀ k ∈ peerLineKeys, fieldKey uapiDeviceKeys k.toList = none := by
  decide

variable {names : Namer Addr}

theorem mem_peerFields {p : WgPeer Addr} (h : f ∈ peerFields names p) : f.1 ∈ peerLineKeys := by
  unfold peerFields at h
  by_cases hremove : p.removeMe = true
  · rw [if_pos hremove] at h
    rcases List.mem_pair.1 h with rfl | rfl <;> simp [peerLineKeys]
  · rw [if_neg hremove] at h
    simp only [List.mem_cons, List.mem_append, List.mem_map] at h
    rcases h with rfl | ((((⟨_, _, rfl⟩ | ⟨_, _, rfl⟩) | ⟨_, _, rfl⟩) | h) | ⟨_, _, rfl⟩)
    · simp [peerLineKeys]
    · simp [peerLineKeys]
    · simp [peerLineKeys]
    · simp [peerLineKeys]
    · split at h
      · rw [List.mem_singleton.1 h]
        decide
      · cases h
    · simp [peerLineKeys]

theorem mem_peersFields {ps : List (WgPeer Addr)} (h : f ∈ (peersFields names ps).1) :
    f.1 ∈ peerLineKeys := by
  induction ps with
  | nil => cases h
  | cons p ps ih =>
    unfold peersFields at h
    split at h
    · rw [List.mem_singleton.1 h]
      exact List.mem_cons_self
    · obtain h | h := List.mem_append.1 h
      · exact mem_peerFields h
      · exact ih h

theorem names_deviceFields : Names (deviceFields d) key ↔ d.isSet key = true := by
  have hprivate : fieldKey uapiDeviceKeys "private_key".toList = some .privateKey := by decide
  have hlisten : fieldKey uapiDeviceKeys "listen_port".toList = some .listenPort := by decide
  have hmark : fieldKey uapiDeviceKeys "fwmark".toList = some .fwMark := by decide
  unfold Names deviceFields WgDevice.formatStrings
  simp only [List.mem_append, List.mem_map, List.mem_flatMap, Option.mem_toList]
  constructor
  · rintro ⟨f, hf, hkey⟩
    rcases hf with (((((⟨a, ha, rfl⟩ | ⟨a, ha, rfl⟩) | ⟨a, ha, rfl⟩) | hf) | ⟨p, _, a, ha, rfl⟩)
      | ⟨p, _, a, ha, rfl⟩)
    · cases hprivate.symm.trans hkey
      exact Option.isSome_of_mem ha
    · cases hlisten.symm.trans hkey
      exact Option.isSome_of_mem ha
    · cases hmark.symm.trans hkey
      exact Option.isSome_of_mem ha
    · split at hf
      · rw [List.mem_singleton.1 hf, replace_notKey] at hkey
        cases hkey
      · cases hf
    · cases (fieldKey_uint p).symm.trans hkey
      exact Option.isSome_of_mem ha
    · cases (fieldKey_string p).symm.trans hkey
      exact Option.isSome_of_mem ha
  · intro h
    cases key with
    | listenPort =>
      obtain ⟨a, ha⟩ := Option.isSome_iff_exists.1 h
      exact ⟨_, .inl (.inl (.inl (.inl (.inr ⟨a, ha, rfl⟩)))), hlisten⟩
    | fwMark =>
      obtain ⟨a, ha⟩ := Option.isSome_iff_exists.1 h
      exact ⟨_, .inl (.inl (.inl (.inr ⟨a, ha, rfl⟩))), hmark⟩
    | privateKey =>
      obtain ⟨a, ha⟩ := Option.isSome_iff_exists.1 h
      exact ⟨_, .inl (.inl (.inl (.inl (.inl ⟨a, ha, rfl⟩)))), hprivate⟩
    | uint p =>
      obtain ⟨a, ha⟩ := Option.isSome_iff_exists.1 h
      exact ⟨_, .inl (.inr ⟨p, p.mem_all, a, ha, rfl⟩), fieldKey_uint p⟩
    | string p =>
      obtain ⟨a, ha⟩ := Option.isSome_iff_exists.1 h
      exact ⟨_, .inr ⟨p, p.mem_all, a, ha, rfl⟩, fieldKey_string p⟩

theorem names_setFields : Names (setFields names d) key ↔ d.isSet key = true := by
  rw [← names_deviceFields]
  unfold Names setFields
  constructor
  · rintro ⟨f, hf, hkey⟩
    obtain hf | hf := List.mem_append.1 hf
    · exact ⟨f, hf, hkey⟩
    · rw [fieldKey_peerLine _ (mem_peersFields hf)] at hkey
      cases hkey
  · rintro ⟨f, hf, hkey⟩
    exact ⟨f, List.mem_append_left _ hf, hkey⟩

end Named

section File

variable {Addr P : Type} {sys : Resolver Addr} {key : DeviceKey} {d : WgDevice Addr}

def lineKey (input : Bytes) : Option DeviceKey :=
  (keyMatch deviceKeys (cleanConfigLine input)).map (·.1)

def FileNames (config : Bytes) (key : DeviceKey) : Prop :=
  ∃ input ∈ (Libc.getlines config).map Libc.cstr, lineKey input = some key

theorem disjoint_keys : ∀ k ∈ peerKeys, ∀ k' ∈ deviceKeys,
    Libc.sameNoCase k.1.toList k'.1.toList = false := by
  decide

-- A line with a key is no header.
theorem keyMatch_header {K : Type} {keys : List (String × K)} {line header : Bytes}
    (hheader : '=' ∉ header) (h : Libc.sameNoCase line header = true) : keyMatch keys line = none := by
  cases hmatch : keyMatch keys line with
  | none => rfl
  | some r =>
    obtain ⟨key, _, rfl, _⟩ := keyMatch_eq_some hmatch
    rw [Libc.sameNoCase_of_notMem (by simp) hheader] at h
    cases h

-- A line with a key of a peer has none of the device.
theorem keyMatch_peerKey {line : Bytes} {r : PeerKey × Bytes} (h : keyMatch peerKeys line = some r) :
    keyMatch deviceKeys line = none := by
  cases hmatch : keyMatch deviceKeys line with
  | none => rfl
  | some r' =>
    obtain ⟨key, name, rfl, hmem, hname, _⟩ := keyMatch_eq_some h
    obtain ⟨key', name', heq, hmem', hname', _⟩ := keyMatch_eq_some hmatch
    have hcut := congrArg (List.takeWhile (· != '=')) heq
    rw [Fields.takeWhile_append_cons (Libc.notMem_of_sameNoCase hname (peerKeys_names _ hmem)),
      Fields.takeWhile_append_cons (Libc.notMem_of_sameNoCase hname' (deviceKeys_names _ hmem'))] at hcut
    subst hcut
    have hsame := Libc.sameNoCase_trans hname hname'
    rw [disjoint_keys _ hmem _ hmem'] at hsame
    cases hsame

theorem isSome_update {K V : Type} [DecidableEq K] (f : K → Option V) (k : K) (v : V) (k' : K) :
    (Function.update f k (some v) k').isSome = ((f k').isSome || decide (k = k')) := by
  by_cases h : k' = k
  · subst h
    rw [Function.update_self, Option.isSome_some, decide_eq_true rfl, Bool.or_true]
  · rw [Function.update_of_ne h, decide_eq_false (Ne.symm h), Bool.or_false]

theorem WgDevice.setKey_isSet {d' : WgDevice Addr} {value : Bytes}
    (h : d.setKey sys key value = .ok d') (k : DeviceKey) :
    d'.isSet k = (d.isSet k || decide (key = k)) := by
  cases key with
  | listenPort | fwMark | privateKey =>
    obtain ⟨_, _, rfl⟩ := map_eq_ok h
    cases k <;> simp [WgDevice.isSet]
  | uint p =>
    obtain ⟨n, _, rfl⟩ := map_eq_ok h
    cases k with
    | uint q =>
      show (Function.update d.uint p (some n) q).isSome = ((d.uint q).isSome || _)
      rw [isSome_update]
      simp
    | _ => simp [WgDevice.isSet]
  | string p =>
    obtain ⟨s, _, rfl⟩ := map_eq_ok h
    cases k with
    | string q =>
      show (Function.update d.string p (some s) q).isSome = ((d.string q).isSome || _)
      rw [isSome_update]
      simp
    | _ => simp [WgDevice.isSet]

theorem configReadLine_isSet {ctx ctx' : ConfigCtx Addr} {input : Bytes}
    (h : configReadLine sys ctx input = .ok ctx') (k : DeviceKey) :
    ctx'.device.isSet k = (ctx.device.isSet k || decide (lineKey input = some k)) := by
  have hnone : keyMatch deviceKeys (cleanConfigLine input) = none →
      (ctx.device.isSet k || decide (lineKey input = some k)) = ctx.device.isSet k := by
    intro hmatch
    simp [lineKey, hmatch]
  obtain ⟨hempty, rfl⟩ | hline := configReadLine_step h
  · rw [hnone]
    cases hmatch : keyMatch deviceKeys (cleanConfigLine input) with
    | none => rfl
    | some r =>
      obtain ⟨key, _, heq, _⟩ := keyMatch_eq_some hmatch
      rw [hempty] at heq
      exact absurd heq.symm (by simp)
  · cases hline with
    | interface hline => rw [hnone (keyMatch_header (by decide) hline)]
    | peer hline =>
      rw [hnone (keyMatch_header (by decide) hline)]
      cases k <;> rfl
    | deviceKey key value d hkey hset =>
      have hlineKey : lineKey input = some key := by rw [lineKey, hkey]; rfl
      show d.isSet k = _
      rw [WgDevice.setKey_isSet hset, hlineKey]
      simp only [Option.some.injEq]
    | peerKey key value done p p' hkey hpeers hset =>
      rw [hnone (keyMatch_peerKey hkey)]
      cases k <;> rfl

theorem configRead_isSet {append : Bool} {config : Bytes} (h : configRead sys append config = .ok d)
    (k : DeviceKey) :
    d.isSet k = true ↔
      (configReadInit append : ConfigCtx Addr).device.isSet k = true ∨ FileNames config k := by
  obtain ⟨ctx, hlines, hfinish⟩ := Loops.bind_eq_ok.1 h
  have hdevice : ctx.device = d := by
    unfold configReadFinish at hfinish
    split at hfinish
    · cases hfinish
      rfl
    · cases hfinish
  have hfold := Loops.foldlM_view (fun ctx : ConfigCtx Addr => ctx.device.isSet k)
    (fun set input => set || decide (lineKey input = some k))
    (fun t a t' ht => configReadLine_isSet ht k) hlines
  have hor : ∀ (inputs : List Bytes) (b : Bool),
      inputs.foldl (fun set input => set || decide (lineKey input = some k)) b = true ↔
        b = true ∨ ∃ input ∈ inputs, lineKey input = some k := by
    intro inputs
    induction inputs with
    | nil => simp
    | cons input inputs ih =>
      intro b
      rw [List.foldl_cons, ih, Bool.or_eq_true, decide_eq_true_iff, or_assoc]
      simp
  rw [← hdevice, hfold, hor]
  rfl

/-- For every file that is accepted, the private key, the fwmark, the parameters and the peers are
the same from any two prior states iff the file names every parameter. -/
theorem setconf_same_iff (names : Namer Addr) (qsort : List PubkeyOrigin → List PubkeyOrigin)
    (runtime : Option (WgDevice Addr)) (peerLine : P → UapiField → P) (noPeers : P) (config : Bytes)
    (d : WgDevice Addr) (h : setconfMain sys qsort runtime .setconf config = some d) :
    (∀ s₁ s₂ : Running P,
      (∀ key, key ≠ .listenPort →
        (s₁.setAll peerLine noPeers (setFields names d)).field key
          = (s₂.setAll peerLine noPeers (setFields names d)).field key)
      ∧ (s₁.setAll peerLine noPeers (setFields names d)).peers
        = (s₂.setAll peerLine noPeers (setFields names d)).peers)
    ↔ (∀ p, FileNames config (.uint p)) ∧ ∀ p, FileNames config (.string p) := by
  have hread : configRead sys false config = .ok d := by
    unfold setconfMain at h
    split at h
    · cases h
    · cases h
      assumption
  have hnamed : ∀ key, Names (setFields names d) key ↔
      (configReadInit false : ConfigCtx Addr).device.isSet key = true ∨ FileNames config key :=
    fun key => names_setFields.trans (configRead_isSet hread key)
  constructor
  · intro hsame
    -- a key that is not named keeps two values that differ
    have hall : ∀ key, key ≠ .listenPort → Names (setFields names d) key := by
      intro key hkey
      by_contra hnot
      have hfield := (hsame ⟨fun _ => ['a'], noPeers⟩ ⟨fun _ => ['b'], noPeers⟩).1 key hkey
      rw [Running.setAll_frame hnot, Running.setAll_frame hnot] at hfield
      exact absurd hfield (by simp)
    constructor
    · intro p
      obtain hinit | hfile := (hnamed (.uint p)).1 (hall (.uint p) (by simp))
      · cases hinit
      · exact hfile
    · intro p
      obtain hinit | hfile := (hnamed (.string p)).1 (hall (.string p) (by simp))
      · cases hinit
      · exact hfile
  · rintro ⟨huint, hstring⟩ s₁ s₂
    constructor
    · intro key hkey
      apply Running.setAll_field
      apply Or.inl
      rw [hnamed]
      cases key with
      | listenPort => exact absurd rfl hkey
      | fwMark | privateKey => exact .inl rfl
      | uint p => exact .inr (huint p)
      | string p => exact .inr (hstring p)
    · apply Running.setAll_peers
      refine .inl ⟨("replace_peers", "true".toList), ?_, rfl⟩
      have hreplace := (configRead_read hread).2.2
      unfold setFields deviceFields
      rw [hreplace]
      simp

end File

def noNamer : Namer Bool where
  family _ := .inet
  inetNtop _ _ := none
  getnameinfo _ := none

def fullFile : Bytes :=
  ["[Interface]".toList, keyLine "Jc" ['1'], keyLine "Jmin" ['2'], keyLine "Jmax" ['3'],
    keyLine "S1" ['4'], keyLine "S2" ['5'], keyLine "S3" ['6'], keyLine "S4" ['7'],
    keyLine "H1" ['1'], keyLine "H2" ['2'], keyLine "H3" ['3'], keyLine "H4" ['4'],
    keyLine "I1" ['a'], keyLine "I2" ['b'], keyLine "I3" ['c'], keyLine "I4" ['d'],
    keyLine "I5" ['e']].flatMap (· ++ ['\n'])

theorem fileNames_fullFile :
    (∀ p, FileNames fullFile (.uint p)) ∧ ∀ p, FileNames fullFile (.string p) := by
  unfold FileNames
  constructor
  · intro p
    cases p <;> decide +kernel
  · intro p
    cases p <;> decide +kernel

theorem setconf_same_fullFile : ∃ d, setconfMain noResolver id none .setconf fullFile = some d ∧
    ∀ s₁ s₂ : Running Unit,
      (∀ key, key ≠ .listenPort →
        (s₁.setAll (fun _ _ => ()) () (setFields noNamer d)).field key
          = (s₂.setAll (fun _ _ => ()) () (setFields noNamer d)).field key)
      ∧ (s₁.setAll (fun _ _ => ()) () (setFields noNamer d)).peers
        = (s₂.setAll (fun _ _ => ()) () (setFields noNamer d)).peers := by
  have hsome : (setconfMain noResolver id none .setconf fullFile).isSome = true := by
    decide +kernel
  obtain ⟨d, hd⟩ := Option.isSome_iff_exists.1 hsome
  exact ⟨d, hd, (setconf_same_iff noNamer id none _ () fullFile d hd).2 fileNames_fullFile⟩

/-- A file that does not name Jc, over an interface with Jc = 9 and over one with Jc = 7. -/
theorem setconf_keeps_jc : ∃ d, setconfMain noResolver id none .setconf "[Interface]\n".toList = some d ∧
    ((⟨fun _ => ['9'], ()⟩ : Running Unit).setAll (fun _ _ => ()) () (setFields noNamer d)).field
        (.uint .junkPacketCount) = ['9'] ∧
    ((⟨fun _ => ['7'], ()⟩ : Running Unit).setAll (fun _ _ => ()) () (setFields noNamer d)).field
        (.uint .junkPacketCount) = ['7'] :=
  ⟨(configReadInit false).device, rfl, by decide, by decide⟩

end Amnezia.Tools
