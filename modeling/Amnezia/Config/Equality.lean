import Mathlib.Data.List.Perm.Subperm
import Mathlib.Data.List.Forall2
import Amnezia.Config.Stored

/-!
# Equality of configurations

The `equals` methods of the classes a configuration is made of.  All of them compare contents but
the one of `KeyPair`, which has none of its own and inherits `Object.equals`: two key pairs are
equal when they are one object.
-/

namespace Amnezia.Java

variable {α : Type*}

/-- `AbstractSet.equals`: as many elements, and every element of the other set is in this one. -/
def setEquals (equals : α → α → Bool) (s t : List α) : Bool :=
  s.length == t.length && t.all fun a => s.any (equals a)

def optionalEquals (equals : α → α → Bool) : Option α → Option α → Bool
  | none, none => true
  | some a, some b => equals a b
  | _, _ => false

/-- `AbstractList.equals`: element by element, to the end of both lists. -/
def listEquals (equals : α → α → Bool) : List α → List α → Bool
  | [], [] => true
  | a :: as, b :: bs => equals a b && listEquals equals as bs
  | _, _ => false

variable {equals : α → α → Bool}

theorem setEquals_iff (heq : ∀ a b, equals a b = true ↔ a = b) {s t : List α} (hs : s.Nodup)
    (ht : t.Nodup) : setEquals equals s t = true ↔ ∀ a, a ∈ s ↔ a ∈ t := by
  have hsub : (t.all fun a => s.any (equals a)) = true ↔ t ⊆ s := by
    simp only [List.all_eq_true, List.any_eq_true, heq, exists_eq_right']
    rfl
  unfold setEquals
  rw [Bool.and_eq_true, beq_iff_eq, hsub, ← List.perm_ext_iff_of_nodup hs ht]
  constructor
  · intro ⟨hlength, hsubset⟩
    -- a set inside one of its own size is all of it
    exact ((ht.subperm hsubset).perm_of_length_le (by omega)).symm
  · intro hperm
    exact ⟨hperm.length_eq, hperm.symm.subset⟩

theorem optionalEquals_iff {β : Type*} {f : α → β} (heq : ∀ a b, equals a b = true ↔ f a = f b)
    (a b : Option α) : optionalEquals equals a b = true ↔ a.map f = b.map f := by
  cases a <;> cases b <;> simp [optionalEquals, heq]

theorem listEquals_iff {R : α → α → Prop} (heq : ∀ a b, equals a b = true ↔ R a b) (as bs : List α) :
    listEquals equals as bs = true ↔ List.Forall₂ R as bs := by
  induction as generalizing bs with
  | nil => cases bs <;> simp [listEquals]
  | cons a as ih => cases bs <;> simp [listEquals, heq, ih]

end Amnezia.Java

namespace Amnezia.Config

open Java (Text setEquals optionalEquals listEquals)
open Crypto (Key)

def keyEquals (k k' : Key) : Bool := k.bytes == k'.bytes

section Equals

variable {Addr : Type} [DecidableEq Addr]

def InetNetwork.equals (n n' : InetNetwork Addr) : Bool :=
  n.address == n'.address && n.mask == n'.mask

def InetEndpoint.equals (e e' : InetEndpoint) : Bool := e.host == e'.host && e.port == e'.port

def Peer.equals (p p' : Peer Addr) : Bool :=
  setEquals InetNetwork.equals p.allowedIps.toList p'.allowedIps.toList
    && optionalEquals InetEndpoint.equals p.endpoint p'.endpoint
    && optionalEquals (· == ·) p.persistentKeepalive p'.persistentKeepalive
    && optionalEquals keyEquals p.preSharedKey p'.preSharedKey
    && keyEquals p.publicKey p'.publicKey

def Interface.equals (i : Interface Addr) (keyPair : Nat) (i' : Interface Addr) (keyPair' : Nat) :
    Bool :=
  setEquals InetNetwork.equals i.addresses.toList i'.addresses.toList
    && setEquals (· == ·) i.dnsServers.toList i'.dnsServers.toList
    && setEquals (· == ·) i.dnsSearchDomains.toList i'.dnsSearchDomains.toList
    && setEquals (· == ·) i.excludedApplications.toList i'.excludedApplications.toList
    && setEquals (· == ·) i.includedApplications.toList i'.includedApplications.toList
    && keyPair == keyPair'
    && NumberAttribute.all.all (fun a => optionalEquals (· == ·) (i.number a) (i'.number a))
    && TextAttribute.all.all (fun a => optionalEquals (· == ·) (i.text a) (i'.text a))

omit [DecidableEq Addr] in
theorem keyEquals_iff (k k' : Key) : keyEquals k k' = true ↔ k = k' := by
  cases k
  cases k'
  simp [keyEquals]

theorem InetNetwork.equals_iff (n n' : InetNetwork Addr) : n.equals n' = true ↔ n = n' := by
  cases n
  cases n'
  simp [InetNetwork.equals]

theorem InetEndpoint.equals_iff (e e' : InetEndpoint) :
    e.equals e' = true ↔ (e.host, e.port) = (e'.host, e'.port) := by
  simp [InetEndpoint.equals]

theorem optionalEquals_eq_iff {α : Type} {equals : α → α → Bool}
    (heq : ∀ a b, equals a b = true ↔ a = b) (a b : Option α) :
    optionalEquals equals a b = true ↔ a = b := by
  have hid : ∀ a b, equals a b = true ↔ id a = id b := heq
  rw [Java.optionalEquals_iff hid, Option.map_id, id, id]

theorem setEquals_beq_iff {α : Type} [BEq α] [LawfulBEq α] (s t : LinkedSet α) :
    setEquals (· == ·) s.toList t.toList = true ↔ ∀ a, a ∈ s ↔ a ∈ t :=
  Java.setEquals_iff (fun _ _ => beq_iff_eq) s.nodup t.nodup

theorem setEquals_networks_iff (s t : LinkedSet (InetNetwork Addr)) :
    setEquals InetNetwork.equals s.toList t.toList = true ↔ ∀ n, n ∈ s ↔ n ∈ t :=
  Java.setEquals_iff InetNetwork.equals_iff s.nodup t.nodup

theorem Peer.equals_iff (p p' : Peer Addr) : p.equals p' = true ↔ p.SameContents p' := by
  unfold Peer.equals
  rw [Bool.and_eq_true, Bool.and_eq_true, Bool.and_eq_true, Bool.and_eq_true,
    setEquals_networks_iff, Java.optionalEquals_iff InetEndpoint.equals_iff,
    optionalEquals_eq_iff (fun _ _ => beq_iff_eq), optionalEquals_eq_iff keyEquals_iff,
    keyEquals_iff]
  constructor
  · intro ⟨⟨⟨⟨hips, hendpoint⟩, hkeepalive⟩, hpre⟩, hpublic⟩
    exact ⟨hips, hendpoint, hkeepalive, hpre, hpublic⟩
  · intro h
    exact ⟨⟨⟨⟨h.allowedIps, h.endpoint⟩, h.persistentKeepalive⟩, h.preSharedKey⟩, h.publicKey⟩

/-- The comparison of two interfaces is one of their key pair objects and of all contents but the
private key. -/
theorem Interface.equals_iff (i i' : Interface Addr) {keyPair keyPair' : Nat}
    (hkey : keyPair = keyPair' → i.privateKey = i'.privateKey) :
    i.equals keyPair i' keyPair' = true ↔ keyPair = keyPair' ∧ i.SameContents i' := by
  have hnumber : NumberAttribute.all.all
      (fun a => optionalEquals (· == ·) (i.number a) (i'.number a)) = true ↔
        ∀ a, i.number a = i'.number a := by
    simp only [List.all_eq_true, optionalEquals_eq_iff (fun _ _ => beq_iff_eq)]
    exact ⟨fun h a => h a a.mem_all, fun h a _ => h a⟩
  have htext : TextAttribute.all.all
      (fun a => optionalEquals (· == ·) (i.text a) (i'.text a)) = true ↔
        ∀ a, i.text a = i'.text a := by
    simp only [List.all_eq_true, optionalEquals_eq_iff (fun _ _ => beq_iff_eq)]
    exact ⟨fun h a => h a a.mem_all, fun h a _ => h a⟩
  unfold Interface.equals
  rw [Bool.and_eq_true, Bool.and_eq_true, Bool.and_eq_true, Bool.and_eq_true, Bool.and_eq_true,
    Bool.and_eq_true, Bool.and_eq_true, setEquals_networks_iff, setEquals_beq_iff,
    setEquals_beq_iff, setEquals_beq_iff, setEquals_beq_iff, beq_iff_eq, hnumber, htext]
  constructor
  · intro ⟨⟨⟨⟨⟨⟨⟨haddresses, hservers⟩, hdomains⟩, hexcluded⟩, hincluded⟩, hpair⟩, hnum⟩, htxt⟩
    exact ⟨hpair, by rw [hkey hpair], haddresses, hservers, hdomains, hexcluded, hincluded, hnum,
      htxt⟩
  · intro ⟨hpair, h⟩
    exact ⟨⟨⟨⟨⟨⟨⟨h.addresses, h.dnsServers⟩, h.dnsSearchDomains⟩, h.excludedApplications⟩,
      h.includedApplications⟩, hpair⟩, h.number⟩, h.text⟩

instance {α : Type} [DecidableEq α] : DecidableEq (NumberAttribute → α) := fun f g =>
  decidable_of_iff (∀ a ∈ NumberAttribute.all, f a = g a)
    ⟨fun h => funext fun a => h a a.mem_all, fun h a _ => congrFun h a⟩

instance {α : Type} [DecidableEq α] : DecidableEq (TextAttribute → α) := fun f g =>
  decidable_of_iff (∀ a ∈ TextAttribute.all, f a = g a)
    ⟨fun h => funext fun a => h a a.mem_all, fun h a _ => congrFun h a⟩

deriving instance DecidableEq for Interface, Config

end Equals

theorem SameContents.refl {Addr : Type} (c : Config Addr) : c.SameContents c :=
  ⟨⟨rfl, fun _ => Iff.rfl, fun _ => Iff.rfl, fun _ => Iff.rfl, fun _ => Iff.rfl, fun _ => Iff.rfl,
    fun _ => rfl, fun _ => rfl⟩, List.forall₂_same.2 fun p _ => Peer.SameContents.refl p⟩

end Amnezia.Config

/-- A `Config` object: which one it is, and its contents.  A call of `Config.parse` makes one
`Config` and the one `KeyPair` it keeps, so the reference stands for both. -/
structure Amnezia.ConfigObject (Addr : Type) where
  reference : Nat
  contents : Amnezia.Config Addr
  deriving DecidableEq

namespace Amnezia.ConfigObject

open Java (Text)

variable {Addr : Type} [DecidableEq Addr]

def equals (a b : ConfigObject Addr) : Bool :=
  a.contents.interfaze.equals a.reference b.contents.interfaze b.reference
    && Java.listEquals Config.Peer.equals a.contents.peers b.contents.peers

/-- The object that the `k`-th call of `Config.parse` returns, given the texts of the calls. -/
def parse (net : Config.Net Addr) (calls : Nat → Text) (k : Nat) :
    Except Config.BadConfigException (ConfigObject Addr) :=
  (Config.parse net (calls k)).map fun contents => ⟨k, contents⟩

theorem parse_eq_ok {net : Config.Net Addr} {calls : Nat → Text} {k : Nat}
    {a : ConfigObject Addr} (h : parse net calls k = .ok a) :
    a.reference = k ∧ Config.parse net (calls k) = .ok a.contents := by
  unfold parse at h
  cases hparse : Config.parse net (calls k) with
  | error e =>
    rw [hparse] at h
    cases h
  | ok contents =>
    rw [hparse] at h
    cases h
    exact ⟨rfl, rfl⟩

theorem equals_iff_of_parse {net : Config.Net Addr} {calls : Nat → Text} {i j : Nat}
    {a b : ConfigObject Addr} (ha : parse net calls i = .ok a) (hb : parse net calls j = .ok b) :
    a.equals b = true ↔ i = j := by
  obtain ⟨rfl, hpa⟩ := parse_eq_ok ha
  obtain ⟨rfl, hpb⟩ := parse_eq_ok hb
  have hsame : a.reference = b.reference → a.contents = b.contents := by
    intro heq
    rw [heq, hpb] at hpa
    exact (Except.ok.inj hpa).symm
  unfold equals
  rw [Bool.and_eq_true, Java.listEquals_iff Config.Peer.equals_iff,
    Config.Interface.equals_iff _ _ (fun heq => by rw [hsame heq])]
  constructor
  · intro h
    exact h.1.1
  · intro heq
    rw [hsame heq]
    have hrefl := Config.SameContents.refl b.contents
    exact ⟨⟨heq, hrefl.interfaze⟩, hrefl.peers⟩

end Amnezia.ConfigObject
