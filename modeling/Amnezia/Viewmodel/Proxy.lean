import Amnezia.Config.Config
import Amnezia.Lib.Positional

/-!
# The editor of a configuration

`InterfaceProxy`, `PeerProxy` and `ConfigProxy`: the texts of the fields, the listeners that the
peers have on the DNS servers and on the list of peers, and the parcel in which the editor is kept.
-/

namespace Amnezia.Config

open Java (Text)

variable {Addr : Type}

def InterfaceBuilder.excludeApplications (b : InterfaceBuilder Addr) (apps : List Text) :
    InterfaceBuilder Addr :=
  { b with excludedApplications := b.excludedApplications.insertAll apps }

def InterfaceBuilder.includeApplications (b : InterfaceBuilder Addr) (apps : List Text) :
    InterfaceBuilder Addr :=
  { b with includedApplications := b.includedApplications.insertAll apps }

end Amnezia.Config

namespace Amnezia.Viewmodel

open Java (Text)
open Config (Net Interface InterfaceBuilder InterfaceAttribute NumberAttribute TextAttribute Peer
  PeerBuilder PeerAttribute InetNetwork InetEndpoint BadConfigException)

inductive ParcelValue where
  | int (n : Nat)
  | string (s : Option Text)
  | stringList (l : List Text)

abbrev Parcel := List ParcelValue

abbrev ParcelReader := Positional.Reader ParcelValue

section Parcel

variable {α : Type}

def readInt : ParcelReader Nat := Positional.next fun
  | .int n => some n
  | _ => none

def readString : ParcelReader (Option Text) := Positional.next fun
  | .string s => some s
  | _ => none

def readText : ParcelReader Text := return (← readString).getD []

def readStringList : ParcelReader (List Text) := Positional.next fun
  | .stringList l => some l
  | _ => none

def writeParcelable (name : String) (object : Parcel) : Parcel := .string (some name.toList) :: object

/-- `readParcelable`; a name of another class is not read. -/
def readParcelable (name : String) (create : ParcelReader α) : ParcelReader (Option α) := do
  match ← readString with
  | none => return none
  | some n => if n = name.toList then some <$> create else failure

def readItem (read : ParcelReader (Option α)) : ParcelReader α := do
  match ← read with
  | none => failure
  | some a => return a

def writeParcelableList (name : String) (objects : List Parcel) : Parcel :=
  .int objects.length :: objects.flatMap (writeParcelable name)

def readParcelableList (name : String) (create : ParcelReader α) : ParcelReader (List α) := do
  Positional.times (readItem (readParcelable name create)) (← readInt)

def writeTypedObject (object : Parcel) : Parcel := .int 1 :: object

def readTypedObject (create : ParcelReader α) : ParcelReader (Option α) := do
  if (← readInt) = 0 then return none else some <$> create

def writeTypedList (objects : List Parcel) : Parcel :=
  .int objects.length :: objects.flatMap writeTypedObject

def readTypedList (create : ParcelReader α) : ParcelReader (List α) := do
  Positional.times (readItem (readTypedObject create)) (← readInt)

end Parcel

def typed {A : Type} (fields : List (A × Text)) : List (A × Text) := fields.filter (·.2 ≠ [])

structure InterfaceProxy where
  excludedApplications : List Text := []
  includedApplications : List Text := []
  addresses : Text := []
  dnsServers : Text := []
  number : NumberAttribute → Text := fun _ => []
  text : TextAttribute → Text := fun _ => []
  privateKey : Text := []

namespace InterfaceProxy

def className : String := "org.amnezia.awg.viewmodel.InterfaceProxy"

section Model

variable {Addr : Type} [DecidableEq Addr] (net : Net Addr)

def ofInterface (other : Interface Addr) : InterfaceProxy where
  addresses := Config.Attribute.join (other.addresses.toList.map (InetNetwork.toString net))
  dnsServers := Config.Attribute.join
    (other.dnsServers.toList.map net.getHostAddress ++ other.dnsSearchDomains.toList)
  excludedApplications := other.excludedApplications.toList
  includedApplications := other.includedApplications.toList
  number a := ((other.number a).map Java.valueOf).getD []
  text a := (other.text a).getD []
  privateKey := other.privateKey.toBase64

def firstFields (i : InterfaceProxy) : List (InterfaceAttribute × Text) :=
  [(.address, i.addresses), (.dns, i.dnsServers)]

def lastFields (i : InterfaceProxy) : List (InterfaceAttribute × Text) :=
  NumberAttribute.all.map (fun a => (.number a, i.number a))
    ++ TextAttribute.all.map (fun a => (.text a, i.text a))
    ++ [(.privateKey, i.privateKey)]

def parseField (b : InterfaceBuilder Addr) (f : InterfaceAttribute × Text) :
    Except BadConfigException (InterfaceBuilder Addr) :=
  b.parseAttribute net f.1 f.2

def resolve (i : InterfaceProxy) : Except BadConfigException (Interface Addr) := do
  let b ← (typed i.firstFields).foldlM (parseField net) .new
  let b := if i.excludedApplications = [] then b else b.excludeApplications i.excludedApplications
  let b := if i.includedApplications = [] then b else b.includeApplications i.includedApplications
  let b ← (typed i.lastFields).foldlM (parseField net) b
  b.build

-- An empty list adds nothing, so it does not matter that it is passed over.
variable {net} in
theorem resolve_eq (i : InterfaceProxy) : i.resolve net =
    (typed i.firstFields).foldlM (parseField net) .new >>= fun b =>
      (typed i.lastFields).foldlM (parseField net)
        ((b.excludeApplications i.excludedApplications).includeApplications i.includedApplications)
        >>= InterfaceBuilder.build := by
  have hexc : ∀ b : InterfaceBuilder Addr, (if i.excludedApplications = [] then b
      else b.excludeApplications i.excludedApplications) =
        b.excludeApplications i.excludedApplications := by
    intro b
    split
    · next hnil => rw [hnil]; rfl
    · rfl
  have hinc : ∀ b : InterfaceBuilder Addr, (if i.includedApplications = [] then b
      else b.includeApplications i.includedApplications) =
        b.includeApplications i.includedApplications := by
    intro b
    split
    · next hnil => rw [hnil]; rfl
    · rfl
  unfold resolve
  simp only [hexc, hinc]

end Model

def writeToParcel (i : InterfaceProxy) : Parcel :=
  [.string i.addresses, .string i.dnsServers,
   .stringList i.excludedApplications, .stringList i.includedApplications,
   .string (i.number .listenPort), .string (i.number .mtu),
   .string (i.number .junkPacketCount), .string (i.number .junkPacketMinSize),
   .string (i.number .junkPacketMaxSize), .string (i.number .initPacketJunkSize),
   .string (i.number .responsePacketJunkSize), .string (i.number .cookieReplyPacketJunkSize),
   .string (i.number .transportPacketJunkSize),
   .string (i.text .initPacketMagicHeader), .string (i.text .responsePacketMagicHeader),
   .string (i.text .underloadPacketMagicHeader), .string (i.text .transportPacketMagicHeader),
   .string (i.text .specialJunkI1), .string (i.text .specialJunkI2),
   .string (i.text .specialJunkI3), .string (i.text .specialJunkI4),
   .string (i.text .specialJunkI5), .string i.privateKey]

def ofParcel : ParcelReader InterfaceProxy := do
  let addresses ← readText
  let dnsServers ← readText
  let excludedApplications ← readStringList
  let includedApplications ← readStringList
  let listenPort ← readText
  let mtu ← readText
  let junkPacketCount ← readText
  let junkPacketMinSize ← readText
  let junkPacketMaxSize ← readText
  let initPacketJunkSize ← readText
  let responsePacketJunkSize ← readText
  let cookieReplyPacketJunkSize ← readText
  let transportPacketJunkSize ← readText
  let initPacketMagicHeader ← readText
  let responsePacketMagicHeader ← readText
  let underloadPacketMagicHeader ← readText
  let transportPacketMagicHeader ← readText
  let specialJunkI1 ← readText
  let specialJunkI2 ← readText
  let specialJunkI3 ← readText
  let specialJunkI4 ← readText
  let specialJunkI5 ← readText
  let privateKey ← readText
  return {
    excludedApplications, includedApplications, addresses, dnsServers, privateKey
    number := fun
      | .listenPort => listenPort
      | .mtu => mtu
      | .junkPacketCount => junkPacketCount
      | .junkPacketMinSize => junkPacketMinSize
      | .junkPacketMaxSize => junkPacketMaxSize
      | .initPacketJunkSize => initPacketJunkSize
      | .responsePacketJunkSize => responsePacketJunkSize
      | .cookieReplyPacketJunkSize => cookieReplyPacketJunkSize
      | .transportPacketJunkSize => transportPacketJunkSize
    text := fun
      | .initPacketMagicHeader => initPacketMagicHeader
      | .responsePacketMagicHeader => responsePacketMagicHeader
      | .underloadPacketMagicHeader => underloadPacketMagicHeader
      | .transportPacketMagicHeader => transportPacketMagicHeader
      | .specialJunkI1 => specialJunkI1
      | .specialJunkI2 => specialJunkI2
      | .specialJunkI3 => specialJunkI3
      | .specialJunkI4 => specialJunkI4
      | .specialJunkI5 => specialJunkI5 }

end InterfaceProxy

inductive AllowedIpsState where
  | containsIpv4PublicNetworks | containsIpv4Wildcard | invalid | other
  deriving DecidableEq, Repr

def ipv4PublicNetworks : List Text :=
  ["0.0.0.0/5", "8.0.0.0/7", "11.0.0.0/8", "12.0.0.0/6", "16.0.0.0/4", "32.0.0.0/3",
   "64.0.0.0/2", "128.0.0.0/3", "160.0.0.0/5", "168.0.0.0/6", "172.0.0.0/12",
   "172.32.0.0/11", "172.64.0.0/10", "172.128.0.0/9", "173.0.0.0/8", "174.0.0.0/7",
   "176.0.0.0/4", "192.0.0.0/9", "192.128.0.0/11", "192.160.0.0/13", "192.169.0.0/16",
   "192.170.0.0/15", "192.172.0.0/14", "192.176.0.0/12", "192.192.0.0/10",
   "193.0.0.0/8", "194.0.0.0/7", "196.0.0.0/6", "200.0.0.0/5", "208.0.0.0/4"].map String.toList

def ipv4Wildcard : List Text := ["0.0.0.0/0".toList]

structure PeerProxy where
  dnsRoutes : List Text := []
  allowedIpsState : AllowedIpsState := .invalid
  /-- There is an owner, and the two listeners are registered with it. -/
  bound : Bool := false
  totalPeers : Nat := 0
  allowedIps : Text := []
  endpoint : Text := []
  persistentKeepalive : Text := []
  preSharedKey : Text := []
  publicKey : Text := []

namespace PeerProxy

def className : String := "org.amnezia.awg.viewmodel.PeerProxy"

def getAllowedIpsSet (p : PeerProxy) : LinkedSet Text :=
  .insertAll .empty (Config.Attribute.split p.allowedIps)

def calculateAllowedIpsState (p : PeerProxy) : PeerProxy :=
  let networkStrings := p.getAllowedIpsSet.toList
  let newState : AllowedIpsState :=
    if p.totalPeers = 1 then
      if ipv4Wildcard.all networkStrings.contains then .containsIpv4Wildcard
      else if ipv4PublicNetworks.all networkStrings.contains then .containsIpv4PublicNetworks
      else .other
    else .invalid
  { p with allowedIpsState := newState }

def setAllowedIps (p : PeerProxy) (value : Text) : PeerProxy :=
  { p with allowedIps := value }.calculateAllowedIpsState

def setInterfaceDns (p : PeerProxy) (dnsServers : Text) : PeerProxy :=
  let newDnsRoutes :=
    ((Config.Attribute.split dnsServers).filter (!·.contains ':')).map (· ++ "/32".toList)
  let p :=
    if p.allowedIpsState = .containsIpv4PublicNetworks then
      let input := p.getAllowedIpsSet.toList
      let output := input.filter (fun t => !p.dnsRoutes.contains t || newDnsRoutes.contains t)
        ++ newDnsRoutes
      p.setAllowedIps (Config.Attribute.join (LinkedSet.empty.insertAll output).toList)
    else p
  { p with dnsRoutes := newDnsRoutes }

def setTotalPeers (p : PeerProxy) (totalPeers : Nat) : PeerProxy :=
  if p.totalPeers = totalPeers then p
  else { p with totalPeers }.calculateAllowedIpsState

def bind (p : PeerProxy) (interfaze : InterfaceProxy) (size : Nat) : PeerProxy :=
  { (p.setInterfaceDns interfaze.dnsServers).setTotalPeers size with bound := true }

def onListChanged (p : PeerProxy) (size : Nat) : PeerProxy :=
  if p.bound then p.setTotalPeers size else p

def fields (p : PeerProxy) : List (PeerAttribute × Text) :=
  [(.allowedIps, p.allowedIps), (.endpoint, p.endpoint),
   (.persistentKeepalive, p.persistentKeepalive), (.preSharedKey, p.preSharedKey),
   (.publicKey, p.publicKey)]

section Model

variable {Addr : Type} [DecidableEq Addr] (net : Net Addr)

def ofPeer (other : Peer Addr) : PeerProxy :=
  { setAllowedIps {} (Config.Attribute.join (other.allowedIps.toList.map (InetNetwork.toString net)))
    with
    endpoint := (other.endpoint.map InetEndpoint.toString).getD []
    persistentKeepalive := (other.persistentKeepalive.map Java.valueOf).getD []
    preSharedKey := (other.preSharedKey.map Crypto.Key.toBase64).getD []
    publicKey := other.publicKey.toBase64 }

def parseField (b : PeerBuilder Addr) (f : PeerAttribute × Text) :
    Except BadConfigException (PeerBuilder Addr) :=
  b.parseAttribute net f.1 f.2

def resolveFields (fs : List (PeerAttribute × Text)) : Except BadConfigException (Peer Addr) :=
  (typed fs).foldlM (parseField net) .new >>= PeerBuilder.build

def resolve (p : PeerProxy) : Except BadConfigException (Peer Addr) := resolveFields net p.fields

end Model

def writeToParcel (p : PeerProxy) : Parcel :=
  [.string p.allowedIps, .string p.endpoint, .string p.persistentKeepalive, .string p.preSharedKey,
   .string p.publicKey]

def ofParcel : ParcelReader PeerProxy := do
  let allowedIps ← readText
  let endpoint ← readText
  let persistentKeepalive ← readText
  let preSharedKey ← readText
  let publicKey ← readText
  return { setAllowedIps {} allowedIps with endpoint, persistentKeepalive, preSharedKey, publicKey }

end PeerProxy

structure ConfigProxy where
  interfaze : InterfaceProxy
  peers : List PeerProxy := []

namespace ConfigProxy

def add (c : ConfigProxy) (proxy : PeerProxy) : ConfigProxy :=
  let size := c.peers.length + 1
  { c with peers := c.peers.map (·.onListChanged size) ++ [proxy.bind c.interfaze size] }

section Model

variable {Addr : Type} [DecidableEq Addr] (net : Net Addr)

def ofConfig (other : Config Addr) : ConfigProxy :=
  other.peers.foldl (fun c p => c.add (PeerProxy.ofPeer net p))
    { interfaze := InterfaceProxy.ofInterface net other.interfaze }

def resolve (c : ConfigProxy) : Except BadConfigException (Config Addr) := do
  let resolvedPeers ← c.peers.mapM (PeerProxy.resolve net)
  let interfaze ← c.interfaze.resolve net
  return ⟨interfaze, resolvedPeers⟩

end Model

/-- `writeToParcel`; `q` says whether the platform is Android 10 or later. -/
def writeToParcel (q : Bool) (c : ConfigProxy) : Parcel :=
  writeParcelable InterfaceProxy.className c.interfaze.writeToParcel ++
    if q then writeParcelableList PeerProxy.className (c.peers.map PeerProxy.writeToParcel)
    else writeTypedList (c.peers.map PeerProxy.writeToParcel)

def ofParcel (q : Bool) : ParcelReader ConfigProxy := do
  let interfaze := (← readParcelable InterfaceProxy.className InterfaceProxy.ofParcel).getD {}
  let peers ← if q then readParcelableList PeerProxy.className PeerProxy.ofParcel
    else readTypedList PeerProxy.ofParcel
  return { interfaze, peers := peers.map (·.bind interfaze peers.length) }

end ConfigProxy

end Amnezia.Viewmodel
