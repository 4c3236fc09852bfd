import Amnezia.Lib.Netlink
import Amnezia.Tools.MagicHeader

/-!
# Setting a device over netlink

`kernel_set_device` of `ipc-linux.h`: a device is sent in as many messages as its peers take.  The
two cursors `peer` and `allowedip` are the lists of what is left, `NULL` being the empty list.  No
attribute here comes near `2^16` bytes, so that `nla_len` is its length.
-/

namespace Amnezia.Tools

open Crypto (Key)
open Libc (Bytes)
open Netlink (Buf attrLen)

/-- `mnl_ideal_socket_buffer_size`, from the size of a page. -/
def socketBufferSize (pageSize : Nat) : Nat := if 8192 < pageSize then 8192 else pageSize

structure IfName where
  bytes : Bytes
  length_lt : bytes.length < 16

/-- `strncpy(device->name, arg, IFNAMSIZ - 1)`. -/
def IfName.ofArg (arg : Bytes) : IfName :=
  ⟨arg.take 15, Nat.lt_of_le_of_lt (List.length_take_le 15 arg) (by decide)⟩

inductive DeviceAttr where
  | privateKey (key : Key)
  | listenPort (port : Nat)
  | uint (p : UintParameter) (n : Nat)
  | string (p : StringParameter) (payload : Bytes)
  | fwmark (mark : Nat)
  | flags (replacePeers : Bool)
  deriving DecidableEq

def DeviceAttr.size : DeviceAttr → Nat
  | .privateKey _ => attrLen 32
  | .listenPort _ | .uint _ _ => attrLen 2
  | .string _ payload => attrLen payload.length
  | .fwmark _ | .flags _ => attrLen 4

structure PeerFlags where
  removeMe : Bool
  replaceAllowedIps : Bool
  hasAwg : Bool
  deriving DecidableEq, Repr

inductive AllowedIpAttr (Addr : Type) where
  | family (f : Family)
  | ipaddr (f : Family) (ip : Addr)
  | cidrMask (cidr : Nat)

inductive PeerAttr (Addr : Type) where
  | publicKey (key : Key)
  | presharedKey (key : Key)
  | endpoint (f : Family) (endpoint : Addr × Nat)
  | persistentKeepaliveInterval (n : Nat)
  | awg
  | flags (flags : PeerFlags)
  | allowedIps (ips : List (List (AllowedIpAttr Addr)))

abbrev Fragment (Addr : Type) := List (PeerAttr Addr)

section Sizes

variable {Addr : Type}

def Family.addrLen : Family → Nat
  | .inet => 4
  | .inet6 => 16

def Family.sockaddrLen : Family → Nat
  | .inet => 16
  | .inet6 => 28

def AllowedIpAttr.size : AllowedIpAttr Addr → Nat
  | .family _ => attrLen 2
  | .ipaddr f _ => attrLen f.addrLen
  | .cidrMask _ => attrLen 1

def PeerAttr.size : PeerAttr Addr → Nat
  | .publicKey _ | .presharedKey _ => attrLen 32
  | .endpoint f _ => attrLen f.sockaddrLen
  | .persistentKeepaliveInterval _ => attrLen 2
  | .awg => attrLen 0
  | .flags _ => attrLen 4
  | .allowedIps ips => 4 + (ips.map fun attrs => 4 + (attrs.map AllowedIpAttr.size).sum).sum

def Fragment.size (f : Fragment Addr) : Nat := 4 + (f.map PeerAttr.size).sum

end Sizes

section Device

variable {Addr : Type}

def stringPayload (version : Nat) (p : StringParameter) (s : Bytes) : Bytes :=
  if p.isHeader then putMagicHeaderAttr version s else strzPayload s

def stringAttr (version : Nat) (d : WgDevice Addr) (p : StringParameter) :
    Option (List DeviceAttr) :=
  match d.string p with
  | none => some []
  | some none => none
  | some (some s) => some [.string p (stringPayload version p s)]

def deviceAttrs (version : Nat) (d : WgDevice Addr) : Option (List DeviceAttr) := do
  let strings ← StringParameter.all.mapM (stringAttr version d)
  return d.privateKey.toList.map .privateKey ++ d.listenPort.toList.map .listenPort
    ++ UintParameter.all.flatMap (fun p => (d.uint p).toList.map (.uint p))
    ++ strings.flatten ++ d.fwmark.toList.map .fwmark
    ++ (if d.replacePeers then [.flags true] else [])

end Device

section Peers

variable {Addr : Type} (cap : Nat) (family : Addr → Family)

def putAllowedIp (b : Buf (List (AllowedIpAttr Addr))) (ip : WgAllowedIp Addr) :
    Option (Buf (List (AllowedIpAttr Addr))) := do
  let nest ← Netlink.nestStartCheck cap b.len
  let nest ← nest.putAll AllowedIpAttr.size cap
    [.family ip.family, .ipaddr ip.family ip.ip, .cidrMask ip.cidr]
  return b.nestEnd id nest

def settings (p : WgPeer Addr) : List (PeerAttr Addr) :=
  p.presharedKey.toList.map .presharedKey
    ++ p.endpoint.toList.map (fun e => .endpoint (family e.1) e)
    ++ p.persistentKeepaliveInterval.toList.map .persistentKeepaliveInterval

/-- `flags`, in the fragment with the settings or in a later one. -/
def peerFlags (p : WgPeer Addr) (first : Bool) : PeerFlags :=
  ⟨p.removeMe, first && p.replaceAllowedIps, p.awg.isSome⟩

def PeerFlags.any (f : PeerFlags) : Bool := f.removeMe || f.replaceAllowedIps || f.hasAwg

/-- The nest of a peer up to its allowed IPs; every failure goes to `toobig_peers`. -/
def putHead (len : Nat) (p : WgPeer Addr) (first : Bool) : Option (Buf (PeerAttr Addr)) := do
  let nest ← Netlink.nestStartCheck cap len
  let nest ← nest.putAll PeerAttr.size cap
    (.publicKey p.key :: if first then settings family p else [])
  -- the result of putting `WGPEER_A_AWG` is not looked at
  let nest := if p.awg = some true then (nest.putCheck PeerAttr.size cap .awg).getD nest else nest
  if (peerFlags p first).any then nest.putCheck PeerAttr.size cap (.flags (peerFlags p first))
  else some nest

inductive PeerStep (Addr : Type) where
  | done (b : Buf (Fragment Addr))
  | tooBigPeers
  | tooBigAllowedIps (b : Buf (Fragment Addr)) (allowedip : List (WgAllowedIp Addr))

def putPeer (b : Buf (Fragment Addr)) (p : WgPeer Addr) (allowedip : List (WgAllowedIp Addr)) :
    PeerStep Addr :=
  match putHead cap family b.len p allowedip.isEmpty with
  | none => .tooBigPeers
  | some nest =>
    if p.allowedIps = [] then .done (b.nestEnd id nest)
    else
      let allowedip := if allowedip = [] then p.allowedIps else allowedip
      match Netlink.nestStartCheck cap nest.len with
      | none => .tooBigAllowedIps (b.nestEnd id nest) allowedip
      | some ips =>
        let (ips, left) := Buf.fill (putAllowedIp cap) ips allowedip
        let b := b.nestEnd id (nest.nestEnd .allowedIps ips)
        if left = [] then .done b else .tooBigAllowedIps b left

structure Cursor (Addr : Type) where
  peers : List (WgPeer Addr)
  allowedip : List (WgAllowedIp Addr)

def putPeers : Buf (Fragment Addr) → List (WgPeer Addr) → List (WgAllowedIp Addr) →
    Buf (Fragment Addr) × Cursor Addr
  | b, [], allowedip => (b, ⟨[], allowedip⟩)
  | b, p :: ps, allowedip =>
    match putPeer cap family b p allowedip with
    | .done b' => putPeers b' ps []
    | .tooBigPeers => (b, ⟨p :: ps, allowedip⟩)
    | .tooBigAllowedIps b' left => (b', ⟨p :: ps, left⟩)

end Peers

structure Message (Addr : Type) where
  ifname : IfName
  device : List DeviceAttr
  /-- The peers nest; there is none for a device without peers. -/
  peers : Option (List (Fragment Addr))

section Messages

variable {Addr : Type} (cap : Nat) (family : Addr → Family)

def preparedLen (ifname : IfName) (device : List DeviceAttr) : Nat :=
  20 + attrLen (ifname.bytes.length + 1) + (device.map DeviceAttr.size).sum

def Message.size (m : Message Addr) : Nat :=
  preparedLen m.ifname m.device +
    match m.peers with
    | none => 0
    | some fragments => 4 + (fragments.map Fragment.size).sum

/-- The part between `again` and `send`: the message, and the cursors after it. -/
def buildMessage (ifname : IfName) (hasPeers : Bool) (device : List DeviceAttr) (c : Cursor Addr) :
    Message Addr × Cursor Addr :=
  if hasPeers then
    let r := putPeers cap family (Netlink.nestStart (preparedLen ifname device)) c.peers c.allowedip
    (⟨ifname, device, some r.1.attrs⟩, r.2)
  else (⟨ifname, device, none⟩, c)

/-- The messages that are sent, and whether all of them were acknowledged. -/
structure SetResult (Addr : Type) where
  sent : List (Message Addr)
  acknowledged : Bool

/-- The messages from `again` on; the device is only part of the first. -/
def sendMessages (ack : Message Addr → Bool) (ifname : IfName) (hasPeers : Bool) :
    Nat → List DeviceAttr → Cursor Addr → Option (SetResult Addr)
  | 0, _, _ => none
  | fuel + 1, device, c =>
    let r := buildMessage cap family ifname hasPeers device c
    if ack r.1 = false then some ⟨[r.1], false⟩
    else if r.2.peers = [] then some ⟨[r.1], true⟩
    else (sendMessages ack ifname hasPeers fuel [] r.2).map fun s => { s with sent := r.1 :: s.sent }

/-- `kernel_set_device`; `none` when the fuel is used up, or a `NULL` pointer is read. -/
def kernelSetDevice (ack : Message Addr → Bool) (version : Nat) (ifname : IfName) (fuel : Nat)
    (d : WgDevice Addr) : Option (SetResult Addr) :=
  (deviceAttrs version d).bind fun device =>
    sendMessages cap family ack ifname (!d.peers.isEmpty) fuel device ⟨d.peers, []⟩

end Messages

end Amnezia.Tools
