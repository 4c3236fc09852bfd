import Amnezia.Config.Config

/-!
# The configuration for a userspace device

`toAwgUserspaceString` of `Interface`, `Peer` and `Config`, and `InetEndpoint.getResolved`.
-/

namespace Amnezia.Config

open Java (Text)
open Crypto (Key)

abbrev UserspaceLine := String × Text

def UserspaceLine.text (l : UserspaceLine) : Text := l.1.toList ++ '=' :: l.2 ++ ['\n']

/-- What the platform and the endpoints themselves know of names. -/
structure Dns (Addr : Type) where
  /-- `InetAddress.getAllByName`: the first address and the others; none for the
  `UnknownHostException`. -/
  getAllByName : Text → Option (Addr × List Addr)
  /-- The minutes since `lastResolution` of an endpoint, and the address of its `resolved`. -/
  last : InetEndpoint → Nat × Option Addr

section Model

variable {Addr : Type} (net : Net Addr) (dns : Dns Addr)

def InetEndpoint.getResolved (e : InetEndpoint) : Option InetEndpoint :=
  if e.isResolved then some e
  else
    let address := if 1 < (dns.last e).1 then
        -- an IPv4 address is preferred
        (dns.getAllByName e.host).map fun (first, others) =>
          ((first :: others).find? net.isInet4).getD first
      else (dns.last e).2
    address.map fun a => ⟨net.getHostAddress a, true, e.port⟩

def NumberAttribute.userspaceKey : NumberAttribute → Option String
  | .listenPort => some "listen_port"
  | .mtu => none
  | .junkPacketCount => some "jc"
  | .junkPacketMinSize => some "jmin"
  | .junkPacketMaxSize => some "jmax"
  | .initPacketJunkSize => some "s1"
  | .responsePacketJunkSize => some "s2"
  | .cookieReplyPacketJunkSize => some "s3"
  | .transportPacketJunkSize => some "s4"

def TextAttribute.userspaceKey : TextAttribute → String
  | .initPacketMagicHeader => "h1"
  | .responsePacketMagicHeader => "h2"
  | .underloadPacketMagicHeader => "h3"
  | .transportPacketMagicHeader => "h4"
  | .specialJunkI1 => "i1"
  | .specialJunkI2 => "i2"
  | .specialJunkI3 => "i3"
  | .specialJunkI4 => "i4"
  | .specialJunkI5 => "i5"

def Interface.userspaceNumber (i : Interface Addr) (a : NumberAttribute) : List UserspaceLine :=
  a.userspaceKey.toList.flatMap fun key => (i.number a).toList.map fun n => (key, Java.valueOf n)

def Interface.userspaceLines (i : Interface Addr) : List UserspaceLine :=
  [("private_key", i.privateKey.toHex)]
    ++ NumberAttribute.all.flatMap i.userspaceNumber
    ++ TextAttribute.all.flatMap fun a => (i.text a).toList.map fun t => (a.userspaceKey, t)

def Interface.toAwgUserspaceString (i : Interface Addr) : Text :=
  i.userspaceLines.flatMap UserspaceLine.text

def Peer.userspaceLines (p : Peer Addr) : List UserspaceLine :=
  [("public_key", p.publicKey.toHex)]
    ++ p.allowedIps.toList.map (fun n => ("allowed_ip", InetNetwork.toString net n))
    ++ (p.endpoint.bind (InetEndpoint.getResolved net dns)).toList.map
      (fun e => ("endpoint", e.toString))
    ++ p.persistentKeepalive.toList.map
      (fun n => ("persistent_keepalive_interval", Java.valueOf n))
    ++ p.preSharedKey.toList.map (fun key => ("preshared_key", key.toHex))

def Peer.toAwgUserspaceString (p : Peer Addr) : Text :=
  (p.userspaceLines net dns).flatMap UserspaceLine.text

def userspaceLines (c : Config Addr) : List UserspaceLine :=
  c.interfaze.userspaceLines ++ [("replace_peers", "true".toList)]
    ++ c.peers.flatMap (Peer.userspaceLines net dns)

def toAwgUserspaceString (c : Config Addr) : Text :=
  c.interfaze.toAwgUserspaceString ++ "replace_peers=true\n".toList
    ++ c.peers.flatMap (Peer.toAwgUserspaceString net dns)

theorem toAwgUserspaceString_eq (c : Config Addr) :
    c.toAwgUserspaceString net dns = (c.userspaceLines net dns).flatMap UserspaceLine.text := by
  unfold toAwgUserspaceString userspaceLines Interface.toAwgUserspaceString
  rw [List.flatMap_append, List.flatMap_append, List.flatMap_assoc]
  rfl

end Model

end Amnezia.Config
