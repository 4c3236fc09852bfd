import Amnezia.Tools.ReadDevice
import Amnezia.Tools.Uapi

/-!
# The command line of `awg set`

`config_read_cmd` of `config.c`.  Most arguments go through the parsers of the file's keys, but the
keys are read from files, and nothing cleans the strings.
-/

namespace Amnezia.Tools

open Crypto (Key)
open Libc (Bytes)

def cmdDeviceKeys : List (String × DeviceKey) :=
  [("listen-port", .listenPort), ("fwmark", .fwMark), ("private-key", .privateKey),
   ("jc", .uint .junkPacketCount), ("jmin", .uint .junkPacketMinSize),
   ("jmax", .uint .junkPacketMaxSize), ("s1", .uint .initPacketJunkSize),
   ("s2", .uint .responsePacketJunkSize), ("s3", .uint .cookieReplyPacketJunkSize),
   ("s4", .uint .transportPacketJunkSize), ("h1", .string .initPacketMagicHeader),
   ("h2", .string .responsePacketMagicHeader), ("h3", .string .underloadPacketMagicHeader),
   ("h4", .string .transportPacketMagicHeader), ("i1", .string .i1), ("i2", .string .i2),
   ("i3", .string .i3), ("i4", .string .i4), ("i5", .string .i5)]

def cmdPeerKeys : List (String × PeerKey) :=
  [("endpoint", .endpoint), ("allowed-ips", .allowedIps),
   ("persistent-keepalive", .persistentKeepalive), ("preshared-key", .presharedKey),
   ("advanced-security", .advancedSecurity)]

def stripSpaces (s : Bytes) : Bytes := s.filter fun c => !Libc.charIsSpace c

section Model

variable {Addr : Type} (sys : Resolver Addr) (files : Bytes → Option Bytes)

/-- `parse_keyfile`; `files` gives the bytes of a file that can be read. -/
def parseKeyfile (path : Bytes) : Except Failure Key :=
  match files path with
  | none => .error .rejected
  | some content =>
    if content = [] then .ok zeroKey
    else if content.length < 44 then .error .rejected
    else if (content.drop 44).all Libc.charIsSpace then parseKey (Libc.cstr (content.take 44))
    else .error .rejected

def WgDevice.setArgument (d : WgDevice Addr) (key : DeviceKey) (value : Bytes) :
    Except Failure (WgDevice Addr) :=
  match key with
  | .privateKey => (parseKeyfile files value).map fun key => { d with privateKey := some key }
  | key => d.setKey sys key value

def WgPeer.setArgument (p : WgPeer Addr) (key : PeerKey) (value : Bytes) :
    Except Failure (WgPeer Addr) :=
  match key with
  | .presharedKey => (parseKeyfile files value).map fun key => { p with presharedKey := some key }
  | .allowedIps => p.setKey sys .allowedIps (stripSpaces value)
  | key => p.setKey sys key value

def readArgument (d : WgDevice Addr) (arg value : Bytes) : Except Failure (WgDevice Addr) :=
  match (if d.peers = [] then fieldKey cmdDeviceKeys arg else none) with
  | some key => d.setArgument sys files key value
  | none =>
    if arg = "peer".toList then
      (parseKey value).map fun key => { d with peers := d.peers ++ [{ publicKey := some key }] }
    else match fieldKey cmdPeerKeys arg with
      | some key => updateLastPeer d fun p => p.setArgument sys files key value
      | none => .error .rejected

def removeLastPeer (d : WgDevice Addr) : Except Failure (WgDevice Addr) :=
  updateLastPeer d fun p => .ok { p with removeMe := true }

/-- `config_read_cmd`, from the device that the arguments before gave. -/
def configReadCmd (d : WgDevice Addr) : List Bytes → Except Failure (WgDevice Addr)
  | [] => .ok d
  -- `remove` is the only argument without a value
  | [arg] => if arg = "remove".toList then removeLastPeer d else .error .rejected
  | arg :: value :: args =>
    if arg = "remove".toList then removeLastPeer d >>= fun d => configReadCmd d (value :: args)
    else readArgument sys files d arg value >>= fun d => configReadCmd d args

/-- A device that a file or a command line gives; an argument of a command has no NUL. -/
inductive Produced (d : WgDevice Addr) : Prop where
  | file (append : Bool) (config : Bytes) (h : configRead sys append config = .ok d)
  | command (argv : List Bytes) (hargv : ∀ arg ∈ argv, '\x00' ∉ arg)
      (h : configReadCmd sys files {} argv = .ok d)

end Model

section Values

variable {Addr : Type} {sys : Resolver Addr} {files : Bytes → Option Bytes}

structure Configured (sys : Resolver Addr) (d : WgDevice Addr) : Prop extends DeviceRead sys d where
  nul : ∀ p s, d.string p = some (some s) → '\x00' ∉ s
  peers : ∀ p ∈ d.peers, PeerRead sys p
  publicKeys : ∀ p ∈ d.peers, p.publicKey.isSome = true

variable {d d' : WgDevice Addr} {value : Bytes}

theorem WgDevice.setArgument_configured {key : DeviceKey} (hvalue : '\x00' ∉ value)
    (h : d.setArgument sys files key value = .ok d') (hd : Configured sys d) :
    Configured sys d' := by
  by_cases hkey : key = .privateKey
  · subst hkey
    obtain ⟨_, _, rfl⟩ := map_eq_ok h
    exact { hd with }
  · have hset : d.setKey sys key value = .ok d' := by
      cases key with
      | privateKey => exact absurd rfl hkey
      | _ => exact h
    have hpeers := (WgDevice.setKey_peers hset).1
    refine { WgDevice.setKey_read hset hd.toDeviceRead with
      nul := ?_, peers := hpeers ▸ hd.peers, publicKeys := hpeers ▸ hd.publicKeys }
    intro p s hs
    obtain hs | ⟨_, hparse⟩ := WgDevice.setKey_string hset p hs
    · exact hd.nul p s hs
    · rw [(parseAwgString_some hparse).1]
      exact hvalue

-- A key of a command line leaves the public key alone.
theorem WgPeer.setArgument_read {p p' : WgPeer Addr} {k : String × PeerKey} (hk : k ∈ cmdPeerKeys)
    (h : p.setArgument sys files k.2 value = .ok p') (hp : PeerRead sys p) :
    PeerRead sys p' ∧ p'.publicKey = p.publicKey := by
  have hpublic : ∀ k ∈ cmdPeerKeys, k.2 ≠ .publicKey := by decide
  have hne := hpublic k hk
  have hset : ∀ key value, key ≠ .publicKey → p.setKey sys key value = .ok p' →
      PeerRead sys p' ∧ p'.publicKey = p.publicKey := by
    intro key value hkey hset
    refine ⟨WgPeer.setKey_read hset hp, ?_⟩
    cases key with
    | publicKey => exact absurd rfl hkey
    | _ =>
      obtain ⟨_, _, rfl⟩ := map_eq_ok hset
      rfl
  obtain ⟨name, key⟩ := k
  cases key with
  | publicKey => exact absurd rfl hne
  | presharedKey =>
    obtain ⟨_, _, rfl⟩ := map_eq_ok h
    exact ⟨{ hp with }, rfl⟩
  | allowedIps => exact hset .allowedIps (stripSpaces value) hne h
  | endpoint => exact hset .endpoint value hne h
  | persistentKeepalive => exact hset .persistentKeepalive value hne h
  | advancedSecurity => exact hset .advancedSecurity value hne h

theorem Configured.updateLastPeer {f : WgPeer Addr → Except Failure (WgPeer Addr)}
    (hf : ∀ p p', f p = .ok p' → PeerRead sys p → PeerRead sys p' ∧ p'.publicKey = p.publicKey)
    (h : Tools.updateLastPeer d f = .ok d') (hd : Configured sys d) : Configured sys d' := by
  unfold Tools.updateLastPeer at h
  split at h
  · cases h
  · rename_i p hlast
    obtain ⟨done, hpeers⟩ := List.getLast?_eq_some_iff.1 hlast
    obtain ⟨p', hp', rfl⟩ := map_eq_ok h
    have hp : p ∈ d.peers := hpeers ▸ List.mem_append_right _ List.mem_cons_self
    obtain ⟨hread, hpublic⟩ := hf p p' hp' (hd.peers p hp)
    have hmem : ∀ q ∈ d.peers.modifyLast fun _ => p', q ∈ d.peers ∨ q = p' := by
      intro q hq
      rw [hpeers, List.modifyLast_concat] at hq
      obtain hq | hq := List.mem_append.1 hq
      · exact .inl (hpeers ▸ List.mem_append_left _ hq)
      · exact .inr (List.mem_singleton.1 hq)
    refine { hd with peers := ?_, publicKeys := ?_ }
    · intro q hq
      obtain hq | rfl := hmem q hq
      · exact hd.peers q hq
      · exact hread
    · intro q hq
      obtain hq | rfl := hmem q hq
      · exact hd.publicKeys q hq
      · rw [hpublic]
        exact hd.publicKeys p hp

theorem fieldKey_mem {K : Type} {keys : List (String × K)} {arg : Bytes} {key : K}
    (h : fieldKey keys arg = some key) : ∃ name, (name, key) ∈ keys ∧ name.toList = arg := by
  unfold fieldKey at h
  obtain ⟨⟨name, key'⟩, hfind, rfl⟩ := Option.map_eq_some_iff.1 h
  exact ⟨name, List.mem_of_find?_eq_some hfind, by simpa using List.find?_some hfind⟩

theorem readArgument_configured {arg : Bytes} (hvalue : '\x00' ∉ value)
    (h : readArgument sys files d arg value = .ok d') (hd : Configured sys d) :
    Configured sys d' := by
  unfold readArgument at h
  split at h
  · exact WgDevice.setArgument_configured hvalue h hd
  split at h
  · obtain ⟨key, _, rfl⟩ := map_eq_ok h
    refine { hd with peers := ?_, publicKeys := ?_ }
    · intro p hp
      obtain hp | hp := List.mem_append.1 hp
      · exact hd.peers p hp
      · rw [List.mem_singleton.1 hp]
        exact { PeerRead.empty false with }
    · intro p hp
      obtain hp | hp := List.mem_append.1 hp
      · exact hd.publicKeys p hp
      · rw [List.mem_singleton.1 hp]
        rfl
  split at h
  · rename_i key hkey
    obtain ⟨name, hmem, _⟩ := fieldKey_mem hkey
    refine hd.updateLastPeer ?_ h
    intro p p' hset hp
    exact WgPeer.setArgument_read hmem hset hp
  · cases h

theorem removeLastPeer_configured (h : removeLastPeer d = .ok d') (hd : Configured sys d) :
    Configured sys d' := by
  refine hd.updateLastPeer ?_ h
  intro p p' hset hp
  cases hset
  exact ⟨{ hp with }, rfl⟩

theorem configReadCmd_configured {argv : List Bytes} (hargv : ∀ arg ∈ argv, '\x00' ∉ arg)
    (h : configReadCmd sys files d argv = .ok d') (hd : Configured sys d) : Configured sys d' := by
  fun_induction configReadCmd sys files d argv with
  | case1 d =>
    cases h
    exact hd
  | case2 d => exact removeLastPeer_configured h hd
  | case3 => cases h
  | case4 d value args ih =>
    obtain ⟨r, hr, h⟩ := Loops.bind_eq_ok.1 h
    exact ih r (fun a ha => hargv a (List.mem_cons_of_mem _ ha)) h (removeLastPeer_configured hr hd)
  | case5 d arg value args hremove ih =>
    obtain ⟨r, hr, h⟩ := Loops.bind_eq_ok.1 h
    have hvalue : '\x00' ∉ value := hargv value (List.mem_cons_of_mem _ List.mem_cons_self)
    exact ih r (fun a ha => hargv a (List.mem_cons_of_mem _ (List.mem_cons_of_mem _ ha))) h
      (readArgument_configured hvalue hr hd)

theorem Produced.configured (h : Produced sys files d) : Configured sys d := by
  cases h with
  | file append config h =>
    obtain ⟨hdevice, hpeers, _⟩ := configRead_read h
    refine { hdevice with nul := ?_, peers := ?_, publicKeys := ?_ }
    · intro p s hs
      obtain ⟨t, ht, hkept⟩ := configRead_kept h p _ hs
      cases ht
      exact hkept.nul
    · exact fun p hp => (hpeers p hp).1.toPeerRead
    · exact fun p hp => (hpeers p hp).2
  | command argv hargv h =>
    refine configReadCmd_configured hargv h ?_
    constructor
    · constructor <;> intros <;> simp_all
    · intro p s hs
      cases hs
    · intro p hp
      cases hp
    · intro p hp
      cases hp

end Values

end Amnezia.Tools
