import Amnezia.Tools.HexKey

/-!
# The text protocol of a userspace device

`ipc-uapi.h`: `userspace_set_device` writes a device as lines `key=value`, and `userspace_get_device`
reads such lines.  The socket is left out: the writer gives the text it writes, and the reader takes
the text of the answer.
-/

namespace Amnezia.Tools

open Crypto (Key)
open Libc (Bytes)

/-- What the system's functions answer that print addresses of the type `Addr`. -/
structure Namer (Addr : Type) where
  /-- `sa_family`. -/
  family : Addr → Family
  inetNtop : Family → Addr → Option Bytes
  /-- `getnameinfo` with `NI_NUMERICHOST` and `NI_NUMERICSERV`: the host and the service. -/
  getnameinfo : Addr × Nat → Option (Bytes × Bytes)

abbrev UapiField := String × Bytes

def UapiField.line (f : UapiField) : Bytes := f.1.toList ++ '=' :: f.2

def UintParameter.uapiKey : UintParameter → String
  | .junkPacketCount => "jc"
  | .junkPacketMinSize => "jmin"
  | .junkPacketMaxSize => "jmax"
  | .initPacketJunkSize => "s1"
  | .responsePacketJunkSize => "s2"
  | .cookieReplyPacketJunkSize => "s3"
  | .transportPacketJunkSize => "s4"

def StringParameter.uapiKey : StringParameter → String
  | .initPacketMagicHeader => "h1"
  | .responsePacketMagicHeader => "h2"
  | .underloadPacketMagicHeader => "h3"
  | .transportPacketMagicHeader => "h4"
  | .i1 => "i1"
  | .i2 => "i2"
  | .i3 => "i3"
  | .i4 => "i4"
  | .i5 => "i5"

section Writer

variable {Addr : Type} (names : Namer Addr)

def printString (s : Option Bytes) : Bytes := s.getD "(null)".toList

/-- What a writer makes of the strings whose flag is set, one after the other. -/
def WgDevice.formatStrings {α : Type} (d : WgDevice Addr)
    (format : StringParameter → Option Bytes → α) : List α :=
  StringParameter.all.flatMap fun p => (d.string p).toList.map (format p)

def deviceFields (d : WgDevice Addr) : List UapiField :=
  d.privateKey.toList.map (fun key => ("private_key", keyToHex key))
    ++ d.listenPort.toList.map (fun (port : Nat) => ("listen_port", Java.valueOf port))
    ++ d.fwmark.toList.map (fun (mark : Nat) => ("fwmark", Java.valueOf mark))
    ++ (if d.replacePeers then [("replace_peers", "true".toList)] else [])
    ++ UintParameter.all.flatMap (fun p =>
      (d.uint p).toList.map fun (n : Nat) => (p.uapiKey, Java.valueOf n))
    ++ d.formatStrings (fun p s => (p.uapiKey, printString s))

def endpointText (e : Addr × Nat) : Option Bytes :=
  (names.getnameinfo e).map fun (host, service) =>
    if names.family e.1 = .inet6 ∧ ':' ∈ host then '[' :: host ++ (']' :: ':' :: service)
    else host ++ ':' :: service

def allowedIpText (ip : WgAllowedIp Addr) : Option Bytes :=
  (names.inetNtop ip.family ip.ip).map fun text => text ++ '/' :: Java.valueOf ip.cidr

def peerFields (p : WgPeer Addr) : List UapiField :=
  ("public_key", keyToHex p.key) ::
    if p.removeMe then [("remove", "true".toList)]
    else p.presharedKey.toList.map (fun key => ("preshared_key", keyToHex key))
      ++ (p.endpoint.bind (endpointText names)).toList.map (fun text => ("endpoint", text))
      ++ p.persistentKeepaliveInterval.toList.map
        (fun (n : Nat) => ("persistent_keepalive_interval", Java.valueOf n))
      ++ (if p.replaceAllowedIps then [("replace_allowed_ips", "true".toList)] else [])
      ++ (p.allowedIps.filterMap (allowedIpText names)).map (fun text => ("allowed_ip", text))

/-- The lines of all peers, and whether they were all written: `HAS_AWG` ends the request. -/
def peersFields : List (WgPeer Addr) → List UapiField × Bool
  | [] => ([], true)
  | p :: ps =>
    if p.awg.isSome then ([("public_key", keyToHex p.key)], false)
    else (peerFields names p ++ (peersFields ps).1, (peersFields ps).2)

def setFields (d : WgDevice Addr) : List UapiField := deviceFields d ++ (peersFields names d.peers).1

def userspaceSetDevice (d : WgDevice Addr) : Bytes :=
  "set=1\n".toList ++ (setFields names d).flatMap (fun f => UapiField.line f ++ ['\n'])
    ++ (if (peersFields names d.peers).2 then ['\n'] else [])

end Writer

/-- What `userspace_get_device` can return but zero. -/
inductive GetFailure where
  | proto | netUnreachable
  | errno (n : Nat)
  deriving DecidableEq, Repr

/-- The state of the loop; `ret` is `-EPROTO` until there is a line with `errno`. -/
structure GetState (Addr : Type) where
  device : WgDevice Addr := {}
  errno : Option Nat := none

/-- `NUM(max)`; `none` is its `break`. -/
def num (max : Nat) (value : Bytes) : Option Nat :=
  if value.head?.any Libc.charIsDigit = false then none
  else
    let (num, rest) := Libc.strtoul value
    if rest ≠ [] ∨ max < num then none else some num

def fieldKey {K : Type} (keys : List (String × K)) (key : Bytes) : Option K :=
  (keys.find? fun k => k.1.toList == key).map (·.2)

def uapiDeviceKeys : List (String × DeviceKey) :=
  [("private_key", .privateKey), ("listen_port", .listenPort), ("fwmark", .fwMark),
   ("jc", .uint .junkPacketCount), ("jmin", .uint .junkPacketMinSize),
   ("jmax", .uint .junkPacketMaxSize), ("s1", .uint .initPacketJunkSize),
   ("s2", .uint .responsePacketJunkSize), ("s3", .uint .cookieReplyPacketJunkSize),
   ("s4", .uint .transportPacketJunkSize), ("h1", .string .initPacketMagicHeader),
   ("h2", .string .responsePacketMagicHeader), ("h3", .string .underloadPacketMagicHeader),
   ("h4", .string .transportPacketMagicHeader), ("i1", .string .i1), ("i2", .string .i2),
   ("i3", .string .i3), ("i4", .string .i4), ("i5", .string .i5)]

/-- The keys that are read while there is a peer. -/
inductive UapiPeerKey where
  | presharedKey | endpoint | persistentKeepaliveInterval | allowedIp
  /-- A time or a count of bytes, up to a maximum. -/
  | counter (max : Nat)
  deriving DecidableEq, Repr

def uapiPeerKeys : List (String × UapiPeerKey) :=
  [("preshared_key", .presharedKey), ("endpoint", .endpoint),
   ("persistent_keepalive_interval", .persistentKeepaliveInterval), ("allowed_ip", .allowedIp),
   ("last_handshake_time_sec", .counter 9223372036854775807),
   ("last_handshake_time_nsec", .counter 9223372036854775807),
   ("rx_bytes", .counter 18446744073709551615), ("tx_bytes", .counter 18446744073709551615)]

theorem fieldKey_uapiDeviceKeys : ∀ k ∈ uapiDeviceKeys, fieldKey uapiDeviceKeys k.1.toList = some k.2 := by
  decide +kernel

theorem fieldKey_uapiPeerKeys : ∀ k ∈ uapiPeerKeys, fieldKey uapiPeerKeys k.1.toList = some k.2 := by
  decide +kernel

theorem fieldKey_uint (p : UintParameter) :
    fieldKey uapiDeviceKeys p.uapiKey.toList = some (.uint p) :=
  fieldKey_uapiDeviceKeys (p.uapiKey, .uint p) (by cases p <;> simp [uapiDeviceKeys, UintParameter.uapiKey])

theorem fieldKey_string (p : StringParameter) :
    fieldKey uapiDeviceKeys p.uapiKey.toList = some (.string p) :=
  fieldKey_uapiDeviceKeys (p.uapiKey, .string p)
    (by cases p <;> simp [uapiDeviceKeys, StringParameter.uapiKey])

section Reader

variable {Addr : Type} (sys : Resolver Addr)

/-- What a line does to the device; `none` is a `break`. -/
def WgDevice.getField (d : WgDevice Addr) (key : DeviceKey) (value : Bytes) :
    Option (WgDevice Addr) :=
  match key with
  | .privateKey => (keyFromHex value).map fun key => { d with privateKey := some key }
  | .listenPort => (num 65535 value).map fun port => { d with listenPort := some port }
  | .fwMark => (num 4294967295 value).map fun mark => { d with fwmark := some mark }
  | .uint p => (num 65535 value).map fun n => { d with uint := Function.update d.uint p (some n) }
  | .string p => some { d with string := Function.update d.string p (some (some value)) }

/-- The value of `allowed_ip`; the `cidr` has eight bits. -/
def getAllowedIp (value : Bytes) : Option (WgAllowedIp Addr) :=
  match Libc.strsep '/' value with
  | (_, none) => none
  | (ip, some mask) =>
    if mask.head?.any Libc.charIsDigit = false then none
    else
      let parsed := if ':' ∈ ip then (sys.inetPton6 ip).map (Family.inet6, ·)
        else (sys.inetPton4 ip).map (Family.inet, ·)
      let (cidr, rest) := Libc.strtoul mask
      match parsed with
      | none => none
      | some (family, ip) =>
        if rest ≠ [] ∨ family.maxCidr < cidr % 256 then none else some ⟨family, ip, cidr % 256⟩

def WgPeer.getField (p : WgPeer Addr) (key : UapiPeerKey) (value : Bytes) :
    Except GetFailure (WgPeer Addr) :=
  match key with
  | .presharedKey =>
    match keyFromHex value with
    | none => .error .proto
    | some key =>
      -- a key of zeros is stored, but does not set the flag
      .ok { p with presharedKey := if keyIsZero key then p.presharedKey.map fun _ => key else some key }
  | .endpoint =>
    match splitEndpoint value with
    | none => .error .proto
    | some (host, port) =>
      match sys.getaddrinfo host port with
      | none => .error .netUnreachable
      | some endpoint => .ok { p with endpoint := some endpoint }
  | .persistentKeepaliveInterval =>
    match num 65535 value with
    | none => .error .proto
    | some n => .ok { p with persistentKeepaliveInterval := some n }
  | .allowedIp =>
    match getAllowedIp sys value with
    | none => .error .proto
    | some ip => .ok { p with allowedIps := p.allowedIps ++ [ip] }
  | .counter max => if (num max value).isSome then .ok p else .error .proto

/-- The chain of comparisons; a key that is not known is passed over. -/
def getField (st : GetState Addr) (key value : Bytes) : Except GetFailure (GetState Addr) :=
  match (if st.device.peers = [] then fieldKey uapiDeviceKeys key else none) with
  | some k =>
    match st.device.getField k value with
    | none => .error .proto
    | some d => .ok { st with device := d }
  | none =>
    if key = "public_key".toList then
      match keyFromHex value with
      | none => .error .proto
      | some k =>
        .ok { st with device := { st.device with peers := st.device.peers ++ [{ publicKey := some k }] } }
    else
      match st.device.peers.getLast?, fieldKey uapiPeerKeys key with
      | some p, some k =>
        (p.getField sys k value).map fun p' =>
          { st with device := { st.device with peers := st.device.peers.dropLast ++ [p'] } }
      | _, _ =>
        if key = "errno".toList then
          match num 2147483647 value with
          | none => .error .proto
          | some n => .ok { st with errno := some n }
        else .ok st

def getLine (st : GetState Addr) (line : Bytes) : Except GetFailure (GetState Addr) :=
  match line.dropWhile (· != '=') with
  | [] => .error .proto
  | _ :: value =>
    if line.getLast? ≠ some '\n' then .error .proto
    else getField sys st (line.takeWhile (· != '=')) value.dropLast

def readReply : GetState Addr → List Bytes → Except GetFailure (WgDevice Addr)
  | _, [] => .error .proto
  | st, line :: lines =>
    if line = ['\n'] then
      match st.errno with
      | none => .error .proto
      | some 0 => .ok st.device
      | some n => .error (.errno n)
    else getLine sys st line >>= fun st => readReply st lines

/-- `userspace_get_device`, on the text of the answer. -/
def userspaceGetDevice (reply : Bytes) : Except GetFailure (WgDevice Addr) :=
  readReply sys {} ((Libc.getlines reply).map Libc.cstr)

end Reader

end Amnezia.Tools
