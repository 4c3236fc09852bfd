import Amnezia.Tools.Encoding
import Mathlib.Data.List.ModifyLast
import Mathlib.Logic.Function.Basic

/-!
# The configuration reader of the command line tools

`config.c`, as `setconf.c` calls it.  A flag and the value it is about are one `Option` here; the
messages on `stderr` are left out.
-/

namespace Amnezia.Tools

open Libc
open Crypto (Key)

/-- How a line ends the program: `false` is returned, or `exit(1)` is called. -/
inductive Failure where
  | rejected | exits
  deriving DecidableEq, Repr

/-- What the system's resolver answers, for addresses of the type `Addr`. -/
structure Resolver (Addr : Type) where
  /-- `inet_pton(AF_INET, ..)`. -/
  inetPton4 : Bytes → Option Addr
  /-- `inet_pton(AF_INET6, ..)`. -/
  inetPton6 : Bytes → Option Addr
  /-- The port of `getaddrinfo(NULL, service, ..)`. -/
  service : Bytes → Option Nat
  /-- The address and port of `getaddrinfo(node, service, ..)`, once the retries are over. -/
  getaddrinfo : Bytes → Bytes → Option (Addr × Nat)

inductive UintParameter where
  | junkPacketCount | junkPacketMinSize | junkPacketMaxSize | initPacketJunkSize
  | responsePacketJunkSize | cookieReplyPacketJunkSize | transportPacketJunkSize
  deriving DecidableEq, Repr

inductive StringParameter where
  | initPacketMagicHeader | responsePacketMagicHeader | underloadPacketMagicHeader
  | transportPacketMagicHeader | i1 | i2 | i3 | i4 | i5
  deriving DecidableEq, Repr

def UintParameter.all : List UintParameter :=
  [.junkPacketCount, .junkPacketMinSize, .junkPacketMaxSize, .initPacketJunkSize,
   .responsePacketJunkSize, .cookieReplyPacketJunkSize, .transportPacketJunkSize]

def StringParameter.all : List StringParameter :=
  [.initPacketMagicHeader, .responsePacketMagicHeader, .underloadPacketMagicHeader,
   .transportPacketMagicHeader, .i1, .i2, .i3, .i4, .i5]

theorem UintParameter.mem_all (p : UintParameter) : p ∈ all := by
  cases p <;> decide

theorem StringParameter.mem_all (p : StringParameter) : p ∈ all := by
  cases p <;> decide

def StringParameter.isHeader : StringParameter → Bool
  | .initPacketMagicHeader | .responsePacketMagicHeader | .underloadPacketMagicHeader
  | .transportPacketMagicHeader => true
  | .i1 | .i2 | .i3 | .i4 | .i5 => false

inductive Family where
  | inet | inet6
  deriving DecidableEq, Repr

/-- `struct wgallowedip`. -/
structure WgAllowedIp (Addr : Type) where
  family : Family
  ip : Addr
  cidr : Nat
  deriving DecidableEq, Repr

/-- `struct wgpeer`. -/
structure WgPeer (Addr : Type) where
  publicKey : Option Key := none
  presharedKey : Option Key := none
  endpoint : Option (Addr × Nat) := none
  persistentKeepaliveInterval : Option Nat := none
  awg : Option Bool := none
  allowedIps : List (WgAllowedIp Addr) := []
  replaceAllowedIps : Bool := false
  removeMe : Bool := false

def zeroKey : Key := ⟨List.replicate 32 0, rfl⟩

def secondKey : Key := ⟨List.replicate 31 0 ++ [1], rfl⟩

def WgPeer.key {Addr : Type} (p : WgPeer Addr) : Key := p.publicKey.getD zeroKey

/-- `struct wgdevice`. -/
structure WgDevice (Addr : Type) where
  replacePeers : Bool := false
  privateKey : Option Key := none
  fwmark : Option Nat := none
  listenPort : Option Nat := none
  uint : UintParameter → Option Nat := fun _ => none
  /-- A string that is set can be `NULL`. -/
  string : StringParameter → Option (Option Bytes) := fun _ => none
  peers : List (WgPeer Addr) := []

/-- `struct config_ctx`; the last peer is the end of the list of peers. -/
structure ConfigCtx (Addr : Type) where
  device : WgDevice Addr
  isPeerSection : Bool := false
  isDeviceSection : Bool := false

def maxAwgStringLen : Nat := 5 * 1024

/-- `strtoul` in base 16, of a string that starts with `0x` and goes on. -/
def strtoulHex (value : Bytes) : Nat × Bytes :=
  let isHex := fun c : Char => c.isDigit || (['a', 'b', 'c', 'd', 'e', 'f'].contains c.toLower)
  let digit := fun c : Char => if c.isDigit then c.toNat - 48 else c.toLower.toNat - 87
  let digits := (value.drop 2).takeWhile isHex
  if digits = [] then (0, value.drop 1)
  else (min (2 ^ 64 - 1) (digits.foldl (fun n c => 16 * n + digit c) 0),
    (value.drop 2).dropWhile isHex)

def parseFwmark (value : Bytes) : Except Failure Nat :=
  if sameNoCase value "off".toList then .ok 0
  else if value.head?.any charIsDigit = false then .error .rejected
  else
    let hex := 2 < value.length && value.take 2 == ['0', 'x']
    let (ret, rest) := if hex then strtoulHex value else strtoul value
    if rest ≠ [] ∨ 2 ^ 32 - 1 < ret then .error .rejected else .ok ret

def parseKey (value : Bytes) : Except Failure Key :=
  match keyFromBase64 value with
  | some key => .ok key
  | none => .error .rejected

def parsePersistentKeepalive (value : Bytes) : Except Failure Nat :=
  if sameNoCase value "off".toList then .ok 0
  else if value.head?.any charIsDigit = false then .error .rejected
  else
    let (ret, rest) := strtoul value
    if rest ≠ [] ∨ 65535 < ret then .error .rejected else .ok ret

/-- `parse_awg_string`; the result `none` is the `NULL` of an empty string. -/
def parseAwgString (value : Bytes) : Except Failure (Option Bytes) :=
  if value = [] then .ok none
  else if maxAwgStringLen ≤ value.length then .error .rejected
  else .ok (some value)

/-- `parse_uint16`, where `ULONG_MAX` is `max`; the value of `strtoul` goes through an
`uint32_t`. -/
def parseUint16Of (max : Nat) (value : Bytes) : Except Failure Nat :=
  if value = [] then .error .rejected
  else
    let (n, rest) := strtoulUpTo max value
    let ret := n % 4294967296
    if rest ≠ [] ∨ 65535 < ret then .error .exits else .ok ret

def parseUint16 (value : Bytes) : Except Failure Nat := parseUint16Of ulongMax value

def parseBool (value : Bytes) : Except Failure Bool :=
  if value = [] then .error .rejected
  else if sameNoCase value "off".toList then .ok false
  else if sameNoCase value "on".toList then .ok true
  else if value.head?.any charIsDigit = false then .error .rejected
  else
    let (n, rest) := strtoul value
    if rest ≠ [] then .error .exits else .ok (n % 2 ^ 32 != 0)

/-- The host and the port of an endpoint: `[host]:port`, or cut at the last colon. -/
def splitEndpoint : Bytes → Option (Bytes × Bytes)
  | '[' :: rest =>
    match rest.dropWhile (· != ']') with
    | ']' :: ':' :: port => if port = [] then none else some (rest.takeWhile (· != ']'), port)
    | _ => none
  | value =>
    match Fields.cutLast ':' value with
    | some (host, port) => if port = [] then none else some (host, port)
    | none => none

section Model

variable {Addr : Type} (sys : Resolver Addr)

def parsePort (value : Bytes) : Except Failure Nat :=
  if value = [] then .error .rejected
  else match sys.service value with
    | some port => .ok port
    | none => .error .rejected

def parseIp (value : Bytes) : Except Failure (Family × Addr) :=
  if ':' ∈ value then
    match sys.inetPton6 value with
    | some ip => .ok (.inet6, ip)
    | none => .error .rejected
  else match sys.inetPton4 value with
    | some ip => .ok (.inet, ip)
    | none => .error .rejected

def parseEndpoint (value : Bytes) : Except Failure (Addr × Nat) :=
  match splitEndpoint value with
  | none => .error .rejected
  | some (host, port) =>
    match sys.getaddrinfo host port with
    | some endpoint => .ok endpoint
    | none => .error .rejected

def Family.maxCidr : Family → Nat
  | .inet => 32
  | .inet6 => 128

/-- The prefix of an allowed IP: the whole address when there is none. -/
def parseCidr (family : Family) : Option Bytes → Except Failure Nat
  | none => .ok family.maxCidr
  | some mask =>
    if mask.head?.any charIsDigit = false then .error .rejected
    else
      let (cidr, rest) := strtoul mask
      if rest ≠ [] ∨ family.maxCidr < cidr then .error .rejected else .ok cidr

def parseAllowedIp (entry : Bytes) : Except Failure (WgAllowedIp Addr) := do
  let (ip, mask) := strsep '/' entry
  let (family, ip) ← parseIp sys ip
  let cidr ← parseCidr family mask
  return ⟨family, ip, cidr⟩

def parseAllowedIps (value : Bytes) : Except Failure (List (WgAllowedIp Addr)) :=
  if value = [] then .ok [] else (value.splitOn ',').mapM (parseAllowedIp sys)

def getValue (line key : Bytes) : Option Bytes :=
  if line.length ≤ key.length then none
  else if startsNoCase line key then some (line.drop key.length)
  else none

/-- A chain of `key_match`: the first key that matches, and its value. -/
def keyMatch {K : Type} (keys : List (String × K)) (line : Bytes) : Option (K × Bytes) :=
  keys.findSome? fun k => (getValue line (k.1.toList ++ ['='])).map (k.2, ·)

inductive DeviceKey where
  | listenPort | fwMark | privateKey
  | uint (p : UintParameter)
  | string (p : StringParameter)
  deriving DecidableEq, Repr

def deviceKeys : List (String × DeviceKey) :=
  [("ListenPort", .listenPort), ("FwMark", .fwMark), ("PrivateKey", .privateKey),
   ("Jc", .uint .junkPacketCount), ("Jmin", .uint .junkPacketMinSize),
   ("Jmax", .uint .junkPacketMaxSize), ("S1", .uint .initPacketJunkSize),
   ("S2", .uint .responsePacketJunkSize), ("S3", .uint .cookieReplyPacketJunkSize),
   ("S4", .uint .transportPacketJunkSize), ("H1", .string .initPacketMagicHeader),
   ("H2", .string .responsePacketMagicHeader), ("H3", .string .underloadPacketMagicHeader),
   ("H4", .string .transportPacketMagicHeader), ("I1", .string .i1), ("I2", .string .i2),
   ("I3", .string .i3), ("I4", .string .i4), ("I5", .string .i5)]

inductive PeerKey where
  | endpoint | publicKey | allowedIps | persistentKeepalive | presharedKey | advancedSecurity
  deriving DecidableEq, Repr

def peerKeys : List (String × PeerKey) :=
  [("Endpoint", .endpoint), ("PublicKey", .publicKey), ("AllowedIPs", .allowedIps),
   ("PersistentKeepalive", .persistentKeepalive), ("PresharedKey", .presharedKey),
   ("AdvancedSecurity", .advancedSecurity)]

def WgDevice.setKey (d : WgDevice Addr) (key : DeviceKey) (value : Bytes) :
    Except Failure (WgDevice Addr) :=
  match key with
  | .listenPort => (parsePort sys value).map fun port => { d with listenPort := some port }
  | .fwMark => (parseFwmark value).map fun mark => { d with fwmark := some mark }
  | .privateKey => (parseKey value).map fun key => { d with privateKey := some key }
  | .uint p =>
    (parseUint16 value).map fun n => { d with uint := Function.update d.uint p (some n) }
  | .string p =>
    (parseAwgString value).map fun s => { d with string := Function.update d.string p (some s) }

def WgPeer.setKey (p : WgPeer Addr) (key : PeerKey) (value : Bytes) :
    Except Failure (WgPeer Addr) :=
  match key with
  | .endpoint => (parseEndpoint sys value).map fun endpoint => { p with endpoint := some endpoint }
  | .publicKey => (parseKey value).map fun key => { p with publicKey := some key }
  | .allowedIps => (parseAllowedIps sys value).map fun ips =>
      { p with allowedIps := p.allowedIps ++ ips, replaceAllowedIps := true }
  | .persistentKeepalive => (parsePersistentKeepalive value).map fun n =>
      { p with persistentKeepaliveInterval := some n }
  | .presharedKey => (parseKey value).map fun key => { p with presharedKey := some key }
  | .advancedSecurity => (parseBool value).map fun awg => { p with awg := some awg }

/-- The last peer of the list, which is there in a peer section. -/
def updateLastPeer (d : WgDevice Addr) (f : WgPeer Addr → Except Failure (WgPeer Addr)) :
    Except Failure (WgDevice Addr) :=
  match d.peers.getLast? with
  | none => .error .rejected
  | some p => (f p).map fun p' => { d with peers := d.peers.modifyLast fun _ => p' }

def processLine (ctx : ConfigCtx Addr) (line : Bytes) : Except Failure (ConfigCtx Addr) :=
  if sameNoCase line "[Interface]".toList then
    .ok { ctx with isPeerSection := false, isDeviceSection := true }
  else if sameNoCase line "[Peer]".toList then
    let peers := ctx.device.peers ++ [{ replaceAllowedIps := true }]
    .ok ⟨{ ctx.device with peers := peers }, true, false⟩
  else if ctx.isDeviceSection then
    match keyMatch deviceKeys line with
    | some (key, value) => (ctx.device.setKey sys key value).map fun d => { ctx with device := d }
    | none => .error .rejected
  else if ctx.isPeerSection then
    match keyMatch peerKeys line with
    | some (key, value) =>
      (updateLastPeer ctx.device fun p => p.setKey sys key value).map fun d =>
        { ctx with device := d }
    | none => .error .rejected
  else .error .rejected

def specialHandshakeKeys : List String := ["I1", "I2", "I3", "I4", "I5"]

/-- The second pass of `clean_special_handshake_line`: no blanks up to the value, which keeps its
own. -/
def cleanToValue : Bytes → Bytes
  | [] => []
  | '=' :: rest => '=' :: rest.dropWhile charIsSpace
  | c :: rest => if charIsSpace c then cleanToValue rest else c :: cleanToValue rest

def cleanSpecialHandshakeLine (input : Bytes) : Bytes :=
  cleanToValue (input.rdropWhile charIsSpace)

def cleanConfigLine (input : Bytes) : Bytes :=
  let line := input.takeWhile (· != '#')
  if specialHandshakeKeys.any fun key => startsNoCase input key.toList then
    cleanSpecialHandshakeLine line
  else line.filter fun c => !charIsSpace c

def configReadLine (ctx : ConfigCtx Addr) (input : Bytes) : Except Failure (ConfigCtx Addr) :=
  if cleanConfigLine input = [] then .ok ctx else processLine sys ctx (cleanConfigLine input)

def configReadInit (append : Bool) : ConfigCtx Addr :=
  if append then ⟨{}, false, false⟩
  else ⟨{ replacePeers := true, privateKey := some ⟨List.replicate 32 0, rfl⟩, fwmark := some 0 },
    false, false⟩

def configReadFinish (ctx : ConfigCtx Addr) : Except Failure (WgDevice Addr) :=
  if ctx.device.peers.all fun p => p.publicKey.isSome then .ok ctx.device else .error .rejected

def configRead (append : Bool) (config : Bytes) : Except Failure (WgDevice Addr) :=
  ((getlines config).map cstr).foldlM (configReadLine sys) (configReadInit append)
    >>= configReadFinish

def readConfig (config : Bytes) : Except Failure (WgDevice Addr) := configRead sys false config

end Model

end Amnezia.Tools
