import Amnezia.Config.Interface

/-!
# Configurations

`Peer.java` and `Config.java`: the `[Peer]` sections and the file they stand in.
-/

namespace Amnezia.Config

open Java (Text)
open Crypto (Key)

structure Peer (Addr : Type) where
  allowedIps : LinkedSet (InetNetwork Addr)
  endpoint : Option InetEndpoint
  persistentKeepalive : Option Int
  preSharedKey : Option Key
  publicKey : Key
  deriving DecidableEq

structure PeerBuilder (Addr : Type) where
  allowedIps : LinkedSet (InetNetwork Addr)
  endpoint : Option InetEndpoint
  persistentKeepalive : Option Int
  preSharedKey : Option Key
  publicKey : Option Key

inductive PeerAttribute where
  | allowedIps | endpoint | persistentKeepalive | preSharedKey | publicKey
  deriving DecidableEq, Repr

namespace PeerAttribute

def key : PeerAttribute → Text
  | .allowedIps => "AllowedIPs".toList
  | .endpoint => "Endpoint".toList
  | .persistentKeepalive => "PersistentKeepalive".toList
  | .preSharedKey => "PreSharedKey".toList
  | .publicKey => "PublicKey".toList

def switchCases : List (String × PeerAttribute) :=
  [("allowedips", .allowedIps), ("endpoint", .endpoint),
   ("persistentkeepalive", .persistentKeepalive), ("presharedkey", .preSharedKey),
   ("publickey", .publicKey)]

def ofKey (key : Text) : Option PeerAttribute :=
  (switchCases.find? fun c => c.1.toList == key).map Prod.snd

end PeerAttribute

section Model

variable {Addr : Type} [DecidableEq Addr] (net : Net Addr)

namespace PeerBuilder

def new : PeerBuilder Addr := ⟨.empty, none, none, none, none⟩

def parseAllowedIPs (b : PeerBuilder Addr) (value : Text) :
    Except BadConfigException (PeerBuilder Addr) :=
  match insertNetworks net b.allowedIps value with
  | .ok set => .ok { b with allowedIps := set }
  | .error e => .error (.ofParse .peer .allowedIps e)

def parseEndpoint (b : PeerBuilder Addr) (endpoint : Text) :
    Except BadConfigException (PeerBuilder Addr) :=
  match InetEndpoint.parse net endpoint with
  | .ok e => .ok { b with endpoint := some e }
  | .error e => .error (.ofParse .peer .endpoint e)

def setPersistentKeepalive (b : PeerBuilder Addr) (n : Int) :
    Except BadConfigException (PeerBuilder Addr) :=
  if n < 0 ∨ 65535 < n then
    .error ⟨.peer, .persistentKeepalive, .invalidValue, some (Java.valueOf n)⟩
  else .ok { b with persistentKeepalive := if n = 0 then none else some n }

def parsePersistentKeepalive (b : PeerBuilder Addr) (value : Text) :
    Except BadConfigException (PeerBuilder Addr) :=
  match Java.parseInt value with
  | some n => b.setPersistentKeepalive n
  | none => .error ⟨.peer, .persistentKeepalive, .invalidNumber, some value⟩

def parsePreSharedKey (b : PeerBuilder Addr) (preSharedKey : Text) :
    Except BadConfigException (PeerBuilder Addr) :=
  match Key.fromBase64 (Java.toCharArray preSharedKey) with
  | .ok key => .ok { b with preSharedKey := some key }
  | .error e => .error (.ofKeyFormat .peer .preSharedKey e)

def parsePublicKey (b : PeerBuilder Addr) (publicKey : Text) :
    Except BadConfigException (PeerBuilder Addr) :=
  match Key.fromBase64 (Java.toCharArray publicKey) with
  | .ok key => .ok { b with publicKey := some key }
  | .error e => .error (.ofKeyFormat .peer .publicKey e)

def parseAttribute (b : PeerBuilder Addr) (a : PeerAttribute) (value : Text) :
    Except BadConfigException (PeerBuilder Addr) :=
  match a with
  | .allowedIps => b.parseAllowedIPs net value
  | .endpoint => b.parseEndpoint net value
  | .persistentKeepalive => b.parsePersistentKeepalive value
  | .preSharedKey => b.parsePreSharedKey value
  | .publicKey => b.parsePublicKey value

def parseLine (b : PeerBuilder Addr) (line : Text) :
    Except BadConfigException (PeerBuilder Addr) :=
  match Attribute.parse line with
  | none => .error ⟨.peer, .topLevel, .syntaxError, some line⟩
  | some attr =>
    match PeerAttribute.ofKey (Java.toLowerCase attr.key) with
    | none => .error ⟨.peer, .topLevel, .unknownAttribute, some attr.key⟩
    | some a => b.parseAttribute net a attr.value

def build (b : PeerBuilder Addr) : Except BadConfigException (Peer Addr) :=
  match b.publicKey with
  | none => .error ⟨.peer, .publicKey, .missingAttribute, none⟩
  | some key =>
    .ok ⟨b.allowedIps, b.endpoint, b.persistentKeepalive, b.preSharedKey, key⟩

end PeerBuilder

namespace Peer

def parse (lines : List Text) : Except BadConfigException (Peer Addr) :=
  lines.foldlM (PeerBuilder.parseLine net) .new >>= PeerBuilder.build

def optionLine (key : PeerAttribute) (value : Option Text) : List Text :=
  value.toList.map (Attribute.line key.key)

def quickLines (p : Peer Addr) : List Text :=
  (if p.allowedIps.isEmpty then []
    else [Attribute.line PeerAttribute.allowedIps.key
      (Attribute.join (p.allowedIps.toList.map (InetNetwork.toString net)))])
    ++ optionLine .endpoint (p.endpoint.map InetEndpoint.toString)
    ++ optionLine .persistentKeepalive (p.persistentKeepalive.map Java.valueOf)
    ++ optionLine .preSharedKey (p.preSharedKey.map Key.toBase64)
    ++ [Attribute.line PeerAttribute.publicKey.key p.publicKey.toBase64]

def toAwgQuickString (p : Peer Addr) : Text := (p.quickLines net).flatMap (· ++ ['\n'])

end Peer

end Model

end Amnezia.Config

structure Amnezia.Config (Addr : Type) where
  interfaze : Amnezia.Config.Interface Addr
  peers : List (Amnezia.Config.Peer Addr)

namespace Amnezia.Config

open Java (Text)

structure ParseState (Addr : Type) where
  peers : List (Peer Addr) := []
  interfaceLines : List Text := []
  peerLines : List Text := []
  inInterfaceSection : Bool := false
  inPeerSection : Bool := false
  seenInterfaceSection : Bool := false

section Model

variable {Addr : Type} [DecidableEq Addr] (net : Net Addr)

namespace ParseState

def consumePeer (st : ParseState Addr) : Except BadConfigException (ParseState Addr) :=
  if st.inPeerSection then
    (Peer.parse net st.peerLines).map fun p => { st with peers := st.peers ++ [p], peerLines := [] }
  else .ok st

def header (st : ParseState Addr) (line : Text) : Except BadConfigException (ParseState Addr) :=
  if Java.equalsIgnoreCase "[Interface]".toList line then
    .ok { st with inInterfaceSection := true, inPeerSection := false, seenInterfaceSection := true }
  else if Java.equalsIgnoreCase "[Peer]".toList line then
    .ok { st with inInterfaceSection := false, inPeerSection := true }
  else .error ⟨.config, .topLevel, .unknownSection, some line⟩

def cleanedLine (st : ParseState Addr) (line : Text) :
    Except BadConfigException (ParseState Addr) :=
  if line = [] then .ok st
  else if line.head? = some '[' then st.consumePeer net >>= (header · line)
  else if st.inInterfaceSection then
    .ok { st with interfaceLines := st.interfaceLines ++ [line] }
  else if st.inPeerSection then .ok { st with peerLines := st.peerLines ++ [line] }
  else .error ⟨.config, .topLevel, .unknownSection, some line⟩

end ParseState

def parse (text : Text) : Except BadConfigException (Config Addr) := do
  let st ← (Java.readLines text).foldlM
    (fun (st : ParseState Addr) line => st.cleanedLine net (clean line)) {}
  let st ← st.consumePeer net
  if st.seenInterfaceSection = false then
    throw ⟨.config, .topLevel, .missingSection, none⟩
  let i ← Interface.parse net st.interfaceLines
  return ⟨i, st.peers⟩

def toAwgQuickString (c : Config Addr) : Text :=
  "[Interface]\n".toList ++ c.interfaze.toAwgQuickString net
    ++ c.peers.flatMap fun p => "\n[Peer]\n".toList ++ p.toAwgQuickString net

end Model

end Amnezia.Config
