import Amnezia.Config.Inet
import Amnezia.Crypto.Key
import Amnezia.Lib.LinkedSet
import Amnezia.Lib.Loops

/-!
# The `[Interface]` section

`Interface.java`: the builder's parsers, `Interface.parse` and `Interface.toAwgQuickString`.  The
nine number attributes and the nine text attributes of the source are handled alike, so each family
is indexed by the attribute.
-/

namespace Amnezia.Config

open Java (Text)
open Crypto (Key)

inductive Sect where
  | config | interface | peer
  deriving DecidableEq, Repr

inductive Location where
  | topLevel | address | allowedIps | dns | endpoint | excludedApplications | includedApplications
  | listenPort | mtu | persistentKeepalive | preSharedKey | privateKey | publicKey
  | junkPacketCount | junkPacketMinSize | junkPacketMaxSize | initPacketJunkSize
  | responsePacketJunkSize | cookieReplyPacketJunkSize | transportPacketJunkSize
  deriving DecidableEq, Repr

inductive Reason where
  | invalidKey | invalidNumber | invalidValue | missingAttribute | missingSection | syntaxError
  | unknownAttribute | unknownSection
  deriving DecidableEq, Repr

structure BadConfigException where
  sect : Sect
  location : Location
  reason : Reason
  text : Option Text
  deriving DecidableEq, Repr

def BadConfigException.ofParse (sect : Sect) (location : Location) (e : ParseException) :
    BadConfigException := ⟨sect, location, .invalidValue, some e.text⟩

def BadConfigException.ofKeyFormat (sect : Sect) (location : Location)
    (_ : Crypto.KeyFormatException) : BadConfigException := ⟨sect, location, .invalidKey, none⟩

inductive NumberAttribute where
  | listenPort | mtu | junkPacketCount | junkPacketMinSize | junkPacketMaxSize
  | initPacketJunkSize | responsePacketJunkSize | cookieReplyPacketJunkSize
  | transportPacketJunkSize
  deriving DecidableEq, Repr

namespace NumberAttribute

def all : List NumberAttribute :=
  [.listenPort, .mtu, .junkPacketCount, .junkPacketMinSize, .junkPacketMaxSize,
   .initPacketJunkSize, .responsePacketJunkSize, .cookieReplyPacketJunkSize,
   .transportPacketJunkSize]

def key : NumberAttribute → Text
  | .listenPort => "ListenPort".toList
  | .mtu => "MTU".toList
  | .junkPacketCount => "Jc".toList
  | .junkPacketMinSize => "Jmin".toList
  | .junkPacketMaxSize => "Jmax".toList
  | .initPacketJunkSize => "S1".toList
  | .responsePacketJunkSize => "S2".toList
  | .cookieReplyPacketJunkSize => "S3".toList
  | .transportPacketJunkSize => "S4".toList

def location : NumberAttribute → Location
  | .listenPort => .listenPort
  | .mtu => .mtu
  | .junkPacketCount => .junkPacketCount
  | .junkPacketMinSize => .junkPacketMinSize
  | .junkPacketMaxSize => .junkPacketMaxSize
  | .initPacketJunkSize => .initPacketJunkSize
  | .responsePacketJunkSize => .responsePacketJunkSize
  | .cookieReplyPacketJunkSize => .cookieReplyPacketJunkSize
  | .transportPacketJunkSize => .transportPacketJunkSize

/-- What the setter checks besides the sign: `MAX_UDP_PORT` for the port, nothing for the others. -/
def tooLarge : NumberAttribute → Int → Bool
  | .listenPort, n => 65535 < n
  | _, _ => false

end NumberAttribute

inductive TextAttribute where
  | initPacketMagicHeader | responsePacketMagicHeader | underloadPacketMagicHeader
  | transportPacketMagicHeader | specialJunkI1 | specialJunkI2 | specialJunkI3 | specialJunkI4
  | specialJunkI5
  deriving DecidableEq, Repr

namespace TextAttribute

def all : List TextAttribute :=
  [.initPacketMagicHeader, .responsePacketMagicHeader, .underloadPacketMagicHeader,
   .transportPacketMagicHeader, .specialJunkI1, .specialJunkI2, .specialJunkI3, .specialJunkI4,
   .specialJunkI5]

def key : TextAttribute → Text
  | .initPacketMagicHeader => "H1".toList
  | .responsePacketMagicHeader => "H2".toList
  | .underloadPacketMagicHeader => "H3".toList
  | .transportPacketMagicHeader => "H4".toList
  | .specialJunkI1 => "I1".toList
  | .specialJunkI2 => "I2".toList
  | .specialJunkI3 => "I3".toList
  | .specialJunkI4 => "I4".toList
  | .specialJunkI5 => "I5".toList

end TextAttribute

inductive InterfaceAttribute where
  | address | dns | excludedApplications | includedApplications | privateKey
  | number (a : NumberAttribute)
  | text (a : TextAttribute)
  deriving DecidableEq, Repr

namespace InterfaceAttribute

def key : InterfaceAttribute → Text
  | .address => "Address".toList
  | .dns => "DNS".toList
  | .excludedApplications => "ExcludedApplications".toList
  | .includedApplications => "IncludedApplications".toList
  | .privateKey => "PrivateKey".toList
  | .number a => a.key
  | .text a => a.key

def switchCases : List (String × InterfaceAttribute) :=
  [("address", .address), ("dns", .dns), ("excludedapplications", .excludedApplications),
   ("includedapplications", .includedApplications), ("listenport", .number .listenPort),
   ("mtu", .number .mtu), ("privatekey", .privateKey), ("jc", .number .junkPacketCount),
   ("jmin", .number .junkPacketMinSize), ("jmax", .number .junkPacketMaxSize),
   ("s1", .number .initPacketJunkSize), ("s2", .number .responsePacketJunkSize),
   ("s3", .number .cookieReplyPacketJunkSize), ("s4", .number .transportPacketJunkSize),
   ("h1", .text .initPacketMagicHeader), ("h2", .text .responsePacketMagicHeader),
   ("h3", .text .underloadPacketMagicHeader), ("h4", .text .transportPacketMagicHeader),
   ("i1", .text .specialJunkI1), ("i2", .text .specialJunkI2), ("i3", .text .specialJunkI3),
   ("i4", .text .specialJunkI4), ("i5", .text .specialJunkI5)]

def ofKey (key : Text) : Option InterfaceAttribute :=
  (switchCases.find? fun c => c.1.toList == key).map Prod.snd

end InterfaceAttribute

structure Interface (Addr : Type) where
  addresses : LinkedSet (InetNetwork Addr)
  dnsServers : LinkedSet Addr
  dnsSearchDomains : LinkedSet Text
  excludedApplications : LinkedSet Text
  includedApplications : LinkedSet Text
  /-- The private key of `keyPair`; the public one is computed from it. -/
  privateKey : Key
  number : NumberAttribute → Option Int
  text : TextAttribute → Option Text

structure InterfaceBuilder (Addr : Type) where
  addresses : LinkedSet (InetNetwork Addr)
  dnsServers : LinkedSet Addr
  dnsSearchDomains : LinkedSet Text
  excludedApplications : LinkedSet Text
  includedApplications : LinkedSet Text
  keyPair : Option Key
  number : NumberAttribute → Option Int
  text : TextAttribute → Option Text

section Model

variable {Addr : Type} [DecidableEq Addr] (net : Net Addr)

def insertNetworks (set : LinkedSet (InetNetwork Addr)) (value : Text) :
    Except ParseException (LinkedSet (InetNetwork Addr)) :=
  (Attribute.split value).foldlM (fun set t => (InetNetwork.parse net t).map set.insert) set

namespace InterfaceBuilder

def new : InterfaceBuilder Addr :=
  ⟨.empty, .empty, .empty, .empty, .empty, none, fun _ => none, fun _ => none⟩

def parseAddresses (b : InterfaceBuilder Addr) (value : Text) :
    Except BadConfigException (InterfaceBuilder Addr) :=
  match insertNetworks net b.addresses value with
  | .ok set => .ok { b with addresses := set }
  | .error e => .error (.ofParse .interface .address e)

def parseDnsServer (b : InterfaceBuilder Addr) (dnsServer : Text) :
    Except ParseException (InterfaceBuilder Addr) :=
  match InetAddresses.parse net dnsServer with
  | .ok a => .ok { b with dnsServers := b.dnsServers.insert a }
  | .error e =>
    if e.parsingClass ≠ .inetAddress ∨ isHostname dnsServer = false then .error e
    else .ok { b with dnsSearchDomains := b.dnsSearchDomains.insert dnsServer }

def parseDnsServers (b : InterfaceBuilder Addr) (value : Text) :
    Except BadConfigException (InterfaceBuilder Addr) :=
  match (Attribute.split value).foldlM (parseDnsServer net) b with
  | .ok b => .ok b
  | .error e => .error (.ofParse .interface .dns e)

def parseExcludedApplications (b : InterfaceBuilder Addr) (apps : Text) : InterfaceBuilder Addr :=
  { b with excludedApplications := b.excludedApplications.insertAll (Attribute.split apps) }

def parseIncludedApplications (b : InterfaceBuilder Addr) (apps : Text) : InterfaceBuilder Addr :=
  { b with includedApplications := b.includedApplications.insertAll (Attribute.split apps) }

def parsePrivateKey (b : InterfaceBuilder Addr) (privateKey : Text) :
    Except BadConfigException (InterfaceBuilder Addr) :=
  match Key.fromBase64 (Java.toCharArray privateKey) with
  | .ok key => .ok { b with keyPair := some key }
  | .error e => .error (.ofKeyFormat .interface .privateKey e)

/-! ### Number attributes -/

def setNumber (a : NumberAttribute) (b : InterfaceBuilder Addr) (n : Int) :
    Except BadConfigException (InterfaceBuilder Addr) :=
  if n < 0 ∨ a.tooLarge n = true then
    .error ⟨.interface, a.location, .invalidValue, some (Java.valueOf n)⟩
  else .ok { b with number := Function.update b.number a (if n = 0 then none else some n) }

def parseNumber (a : NumberAttribute) (b : InterfaceBuilder Addr) (value : Text) :
    Except BadConfigException (InterfaceBuilder Addr) :=
  match Java.parseInt value with
  | some n => setNumber a b n
  | none => .error ⟨.interface, a.location, .invalidNumber, some value⟩

def parseListenPort (b : InterfaceBuilder Addr) (value : Text) := parseNumber .listenPort b value

def parseMtu (b : InterfaceBuilder Addr) (value : Text) := parseNumber .mtu b value

def parseJunkPacketCount (b : InterfaceBuilder Addr) (value : Text) := parseNumber .junkPacketCount b value

def parseJunkPacketMinSize (b : InterfaceBuilder Addr) (value : Text) := parseNumber .junkPacketMinSize b value

def parseJunkPacketMaxSize (b : InterfaceBuilder Addr) (value : Text) := parseNumber .junkPacketMaxSize b value

def parseInitPacketJunkSize (b : InterfaceBuilder Addr) (value : Text) := parseNumber .initPacketJunkSize b value

def parseResponsePacketJunkSize (b : InterfaceBuilder Addr) (value : Text) :=
  parseNumber .responsePacketJunkSize b value

def parseCookieReplyPacketJunkSize (b : InterfaceBuilder Addr) (value : Text) :=
  parseNumber .cookieReplyPacketJunkSize b value

def parseTransportPacketJunkSize (b : InterfaceBuilder Addr) (value : Text) :=
  parseNumber .transportPacketJunkSize b value

/-! ### Text attributes -/

def parseText (a : TextAttribute) (b : InterfaceBuilder Addr) (value : Text) :
    InterfaceBuilder Addr :=
  let text := if Java.trim value = [] then none else some (Java.trim value)
  { b with text := Function.update b.text a text }

def parseInitPacketMagicHeader (b : InterfaceBuilder Addr) (value : Text) :=
  parseText .initPacketMagicHeader b value

def parseResponsePacketMagicHeader (b : InterfaceBuilder Addr) (value : Text) :=
  parseText .responsePacketMagicHeader b value

def parseUnderloadPacketMagicHeader (b : InterfaceBuilder Addr) (value : Text) :=
  parseText .underloadPacketMagicHeader b value

def parseTransportPacketMagicHeader (b : InterfaceBuilder Addr) (value : Text) :=
  parseText .transportPacketMagicHeader b value

def parseSpecialJunkI1 (b : InterfaceBuilder Addr) (value : Text) :=
  parseText .specialJunkI1 b value

def parseSpecialJunkI2 (b : InterfaceBuilder Addr) (value : Text) :=
  parseText .specialJunkI2 b value

def parseSpecialJunkI3 (b : InterfaceBuilder Addr) (value : Text) :=
  parseText .specialJunkI3 b value

def parseSpecialJunkI4 (b : InterfaceBuilder Addr) (value : Text) :=
  parseText .specialJunkI4 b value

def parseSpecialJunkI5 (b : InterfaceBuilder Addr) (value : Text) :=
  parseText .specialJunkI5 b value

/-! ### Lines -/

def parseAttribute (b : InterfaceBuilder Addr) (a : InterfaceAttribute) (value : Text) :
    Except BadConfigException (InterfaceBuilder Addr) :=
  match a with
  | .address => b.parseAddresses net value
  | .dns => b.parseDnsServers net value
  | .excludedApplications => .ok (b.parseExcludedApplications value)
  | .includedApplications => .ok (b.parseIncludedApplications value)
  | .privateKey => b.parsePrivateKey value
  | .number .listenPort => b.parseListenPort value
  | .number .mtu => b.parseMtu value
  | .number .junkPacketCount => b.parseJunkPacketCount value
  | .number .junkPacketMinSize => b.parseJunkPacketMinSize value
  | .number .junkPacketMaxSize => b.parseJunkPacketMaxSize value
  | .number .initPacketJunkSize => b.parseInitPacketJunkSize value
  | .number .responsePacketJunkSize => b.parseResponsePacketJunkSize value
  | .number .cookieReplyPacketJunkSize => b.parseCookieReplyPacketJunkSize value
  | .number .transportPacketJunkSize => b.parseTransportPacketJunkSize value
  | .text .initPacketMagicHeader => .ok (b.parseInitPacketMagicHeader value)
  | .text .responsePacketMagicHeader => .ok (b.parseResponsePacketMagicHeader value)
  | .text .underloadPacketMagicHeader => .ok (b.parseUnderloadPacketMagicHeader value)
  | .text .transportPacketMagicHeader => .ok (b.parseTransportPacketMagicHeader value)
  | .text .specialJunkI1 => .ok (b.parseSpecialJunkI1 value)
  | .text .specialJunkI2 => .ok (b.parseSpecialJunkI2 value)
  | .text .specialJunkI3 => .ok (b.parseSpecialJunkI3 value)
  | .text .specialJunkI4 => .ok (b.parseSpecialJunkI4 value)
  | .text .specialJunkI5 => .ok (b.parseSpecialJunkI5 value)

def parseLine (b : InterfaceBuilder Addr) (line : Text) :
    Except BadConfigException (InterfaceBuilder Addr) :=
  match Attribute.parse line with
  | none => .error ⟨.interface, .topLevel, .syntaxError, some line⟩
  | some attr =>
    match InterfaceAttribute.ofKey (Java.toLowerCase attr.key) with
    | none => .error ⟨.interface, .topLevel, .unknownAttribute, some attr.key⟩
    | some a => b.parseAttribute net a attr.value

def build (b : InterfaceBuilder Addr) : Except BadConfigException (Interface Addr) :=
  match b.keyPair with
  | none => .error ⟨.interface, .privateKey, .missingAttribute, none⟩
  | some key =>
    if b.includedApplications.isEmpty = false ∧ b.excludedApplications.isEmpty = false then
      .error ⟨.interface, .includedApplications, .invalidKey, none⟩
    else .ok ⟨b.addresses, b.dnsServers, b.dnsSearchDomains, b.excludedApplications,
      b.includedApplications, key, b.number, b.text⟩

theorem parseAttribute_number (b : InterfaceBuilder Addr) (a : NumberAttribute) (value : Text) :
    b.parseAttribute net (.number a) value = parseNumber a b value := by
  cases a <;> rfl

theorem parseAttribute_text (b : InterfaceBuilder Addr) (a : TextAttribute) (value : Text) :
    b.parseAttribute net (.text a) value = .ok (parseText a b value) := by
  cases a <;> rfl

end InterfaceBuilder

namespace Interface

def parse (lines : List Text) : Except BadConfigException (Interface Addr) :=
  lines.foldlM (InterfaceBuilder.parseLine net) .new >>= InterfaceBuilder.build

def listLine (key : InterfaceAttribute) (values : List Text) : List Text :=
  if values = [] then [] else [Attribute.line key.key (Attribute.join values)]

def numberLine (i : Interface Addr) (a : NumberAttribute) : List Text :=
  match i.number a with
  | none => []
  | some n => [Attribute.line a.key (Java.valueOf n)]

def textLine (i : Interface Addr) (a : TextAttribute) : List Text :=
  match i.text a with
  | none => []
  | some t => [Attribute.line a.key t]

def dnsValues (i : Interface Addr) : List Text :=
  if i.dnsServers.isEmpty then []
  else i.dnsServers.toList.map net.getHostAddress ++ i.dnsSearchDomains.toList

def quickLines (i : Interface Addr) : List Text :=
  listLine .address (i.addresses.toList.map (InetNetwork.toString net))
    ++ listLine .dns (i.dnsValues net)
    ++ listLine .excludedApplications i.excludedApplications.toList
    ++ listLine .includedApplications i.includedApplications.toList
    ++ NumberAttribute.all.flatMap i.numberLine
    ++ TextAttribute.all.flatMap i.textLine
    ++ [Attribute.line InterfaceAttribute.privateKey.key i.privateKey.toBase64]

def toAwgQuickString (i : Interface Addr) : Text := (i.quickLines net).flatMap (· ++ ['\n'])

end Interface

end Model

end Amnezia.Config
