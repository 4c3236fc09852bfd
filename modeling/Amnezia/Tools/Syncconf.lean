import Amnezia.Tools.ReadDevice
import Mathlib.Data.List.Nodup

/-!
# Synchronising a configuration

`sync_conf` of `setconf.c`: the peers of the running device that the file does not have are removed
by entries in front of the file's own peers.  `qsort` is only known to sort.
-/

namespace Amnezia.Tools

open Crypto (Key)
open Libc (Bytes)

/-- `memcmp`, on byte strings of one length: the difference of the first bytes that differ. -/
def memcmp : List (BitVec 8) → List (BitVec 8) → Int
  | a :: as, b :: bs => if a = b then memcmp as bs else (a.toNat : Int) - b.toNat
  | _, _ => 0

structure PubkeyOrigin where
  pubkey : Key
  fromFile : Bool
  deriving DecidableEq

def pubkeyCmp (a b : PubkeyOrigin) : Int :=
  let ret := memcmp a.pubkey.bytes b.pubkey.bytes
  if ret ≠ 0 then ret else (a.fromFile.toNat : Int) - b.fromFile.toNat

section Model

variable {Addr : Type}

/-- The entry that removes a peer.  The flag for its key is not set, but nobody looks at it. -/
def removal (key : Key) : WgPeer Addr := { publicKey := some key, removeMe := true }

/-- Whether the loop over the sorted keys removes the key that stands before `rest`. -/
def isRemoved (k : PubkeyOrigin) (rest : List PubkeyOrigin) : Bool :=
  match rest with
  | [] => true
  | next :: _ => !next.fromFile || memcmp k.pubkey.bytes next.pubkey.bytes != 0

/-- The loop over the sorted keys; an entry goes to the front of the file's peers. -/
def addRemovals : List PubkeyOrigin → List (WgPeer Addr) → List (WgPeer Addr)
  | [], peers => peers
  | k :: rest, peers =>
    if k.fromFile then addRemovals rest peers
    else if isRemoved k rest then addRemovals rest (removal k.pubkey :: peers)
    else addRemovals rest peers

def pubkeys (file runtime : WgDevice Addr) : List PubkeyOrigin :=
  file.peers.map (⟨·.key, true⟩) ++ runtime.peers.map (⟨·.key, false⟩)

/-- `sync_conf`, with the answer of `ipc_get_device`; `none` is a failure. -/
def syncConf (qsort : List PubkeyOrigin → List PubkeyOrigin) (runtime : Option (WgDevice Addr))
    (file : WgDevice Addr) : Option (WgDevice Addr) :=
  if file.peers = [] then some file
  else match runtime with
    | none => none
    | some runtime =>
      if runtime.peers = [] then some file
      else some { file with
        replacePeers := false
        peers := addRemovals (qsort (pubkeys file runtime)) file.peers }

end Model

theorem memcmp_cons (a b : BitVec 8) (as bs : List (BitVec 8)) :
    memcmp (a :: as) (b :: bs) = if a = b then memcmp as bs else (a.toNat : Int) - b.toNat :=
  rfl

theorem memcmp_swap (as bs : List (BitVec 8)) : memcmp bs as = -memcmp as bs := by
  induction as generalizing bs with
  | nil => cases bs <;> rfl
  | cons a as ih =>
    cases bs with
    | nil => rfl
    | cons b bs =>
      rw [memcmp_cons, memcmp_cons]
      by_cases h : a = b
      · rw [if_pos h, if_pos h.symm, ih]
      · rw [if_neg h, if_neg (Ne.symm h)]
        omega

theorem memcmp_eq_zero {as bs : List (BitVec 8)} (hlength : as.length = bs.length) :
    memcmp as bs = 0 ↔ as = bs := by
  induction as generalizing bs with
  | nil =>
    rw [List.length_nil, eq_comm, List.length_eq_zero_iff] at hlength
    rw [hlength]
    exact ⟨fun _ => rfl, fun _ => rfl⟩
  | cons a as ih =>
    cases bs with
    | nil => cases hlength
    | cons b bs =>
      rw [memcmp_cons, List.cons.injEq]
      by_cases h : a = b
      · rw [if_pos h, ih (Nat.succ.inj hlength)]
        exact ⟨fun heq => ⟨h, heq⟩, fun heq => heq.2⟩
      · rw [if_neg h]
        have hne : a.toNat ≠ b.toNat := fun heq => h (BitVec.eq_of_toNat_eq heq)
        constructor
        · intro hz
          omega
        · exact fun heq => absurd heq.1 h

theorem memcmp_trans {as bs cs : List (BitVec 8)} (hbs : as.length = bs.length)
    (hcs : bs.length = cs.length) (h₁ : memcmp as bs ≤ 0) (h₂ : memcmp bs cs ≤ 0) :
    memcmp as cs ≤ 0 := by
  induction as generalizing bs cs with
  | nil => exact Int.le_refl 0
  | cons a as ih =>
    match bs, cs, hbs, hcs with
    | b :: bs, c :: cs, hbs, hcs =>
      rw [memcmp_cons] at h₁ h₂ ⊢
      by_cases hab : a = b
      · subst hab
        rw [if_pos rfl] at h₁
        by_cases hac : a = c
        · rw [if_pos hac] at h₂ ⊢
          exact ih (Nat.succ.inj hbs) (Nat.succ.inj hcs) h₁ h₂
        · rw [if_neg hac] at h₂ ⊢
          exact h₂
      · rw [if_neg hab] at h₁
        by_cases hbc : b = c
        · subst hbc
          rw [if_neg hab]
          exact h₁
        · rw [if_neg hbc] at h₂
          by_cases hac : a = c
          · subst hac
            exact absurd (BitVec.eq_of_toNat_eq (by omega)) hab
          · rw [if_neg hac]
            omega

theorem memcmp_key_eq_zero {k k' : Key} : memcmp k.bytes k'.bytes = 0 ↔ k = k' := by
  rw [memcmp_eq_zero (k.length_bytes.trans k'.length_bytes.symm)]
  constructor
  · intro h
    cases k
    cases k'
    cases h
    rfl
  · exact fun h => h ▸ rfl

theorem memcmp_le_of_cmp_le {a b : PubkeyOrigin} (h : pubkeyCmp a b ≤ 0) :
    memcmp a.pubkey.bytes b.pubkey.bytes ≤ 0 := by
  unfold pubkeyCmp at h
  simp only at h
  split at h <;> omega

-- Two origins of one key: the one from the file comes last.
theorem not_cmp_le (k : Key) : ¬pubkeyCmp ⟨k, true⟩ ⟨k, false⟩ ≤ 0 := by
  have hzero : memcmp k.bytes k.bytes = 0 := memcmp_key_eq_zero.2 rfl
  unfold pubkeyCmp
  simp only
  rw [if_neg (not_not.2 hzero)]
  decide

theorem pubkeyCmp_trans {a b c : PubkeyOrigin} (h₁ : pubkeyCmp a b ≤ 0) (h₂ : pubkeyCmp b c ≤ 0) :
    pubkeyCmp a c ≤ 0 := by
  have hab := memcmp_le_of_cmp_le h₁
  have hbc := memcmp_le_of_cmp_le h₂
  have hac := memcmp_trans (a.pubkey.length_bytes.trans b.pubkey.length_bytes.symm)
    (b.pubkey.length_bytes.trans c.pubkey.length_bytes.symm) hab hbc
  unfold pubkeyCmp at *
  simp only at *
  split
  · exact hac
  · rename_i hzero
    -- the keys are all one, so the origins decide
    have hkeys := memcmp_key_eq_zero.1 (not_not.1 hzero)
    rw [← hkeys, memcmp_swap] at h₂ hbc
    have hab' : memcmp a.pubkey.bytes b.pubkey.bytes = 0 := by omega
    rw [hab', if_neg (by decide)] at h₁
    rw [hab', if_neg (by decide)] at h₂
    omega

theorem pubkeyCmp_total (a b : PubkeyOrigin) : pubkeyCmp a b ≤ 0 ∨ pubkeyCmp b a ≤ 0 := by
  unfold pubkeyCmp
  simp only
  rw [memcmp_swap a.pubkey.bytes]
  split <;> split <;> omega

/-- What the C standard says of `qsort` with `pubkey_cmp`. -/
def Sorts (qsort : List PubkeyOrigin → List PubkeyOrigin) : Prop :=
  ∀ l, (qsort l).Perm l ∧ (qsort l).Pairwise fun a b => pubkeyCmp a b ≤ 0

theorem sorts_mergeSort : Sorts fun l => l.mergeSort fun a b => decide (pubkeyCmp a b ≤ 0) := by
  intro l
  refine ⟨List.mergeSort_perm l _, ?_⟩
  have hsorted := @List.pairwise_mergeSort _ (fun a b => decide (pubkeyCmp a b ≤ 0))
    (fun a b c h₁ h₂ => decide_eq_true (pubkeyCmp_trans (of_decide_eq_true h₁) (of_decide_eq_true h₂)))
    (fun a b => by simpa using pubkeyCmp_total a b) l
  exact hsorted.imp fun h => of_decide_eq_true h

def removedKeys : List PubkeyOrigin → List Key
  | [] => []
  | k :: rest =>
    if k.fromFile = false ∧ isRemoved k rest = true then k.pubkey :: removedKeys rest
    else removedKeys rest

theorem addRemovals_eq {Addr : Type} (l : List PubkeyOrigin) (peers : List (WgPeer Addr)) :
    addRemovals l peers = (removedKeys l).reverse.map removal ++ peers := by
  induction l generalizing peers with
  | nil => rfl
  | cons k rest ih =>
    unfold addRemovals removedKeys
    cases hfile : k.fromFile with
    | true => rw [if_pos rfl, ih, if_neg (by simp)]
    | false =>
      rw [if_neg (by decide)]
      by_cases hremoved : isRemoved k rest = true
      · rw [if_pos hremoved, if_pos ⟨rfl, hremoved⟩, ih, List.reverse_cons, List.map_append,
          List.append_assoc]
        rfl
      · rw [if_neg hremoved, if_neg fun h => hremoved h.2, ih]

-- Between the two origins of a key there is no other key, so the file's would be the next one.
theorem isRemoved_iff {k : Key} {rest : List PubkeyOrigin}
    (hsorted : (⟨k, false⟩ :: rest).Pairwise fun a b => pubkeyCmp a b ≤ 0)
    (hk : ⟨k, false⟩ ∉ rest) : isRemoved ⟨k, false⟩ rest = true ↔ ⟨k, true⟩ ∉ rest := by
  cases rest with
  | nil => exact ⟨fun _ => List.not_mem_nil, fun _ => rfl⟩
  | cons next rest =>
    show (!next.fromFile || memcmp k.bytes next.pubkey.bytes != 0) = true ↔ _
    obtain ⟨key, fromFile⟩ := next
    rw [Bool.or_eq_true, Bool.not_eq_true', bne_iff_ne, Ne, memcmp_key_eq_zero]
    constructor
    · intro hnext hmem
      have hkey : k = key := by
        obtain heq | hmem := List.mem_cons.1 hmem
        · exact (PubkeyOrigin.mk.inj heq).1
        · rw [List.pairwise_cons, List.pairwise_cons] at hsorted
          have hbefore := memcmp_le_of_cmp_le (hsorted.1 ⟨key, fromFile⟩ List.mem_cons_self)
          have hafter := memcmp_le_of_cmp_le (hsorted.2.1 _ hmem)
          have hswap := memcmp_swap k.bytes key.bytes
          simp only at hbefore hafter
          exact memcmp_key_eq_zero.1 (by omega)
      subst hkey
      obtain rfl | hne := hnext
      · exact hk List.mem_cons_self
      · exact hne rfl
    · intro hmem
      cases fromFile with
      | false => exact .inl rfl
      | true =>
        refine .inr fun heq => ?_
        subst heq
        exact hmem List.mem_cons_self

theorem mem_removedKeys {l : List PubkeyOrigin}
    (hsorted : l.Pairwise fun a b => pubkeyCmp a b ≤ 0)
    (hdistinct : (l.filter fun a => !a.fromFile).Nodup) {key : Key} :
    key ∈ removedKeys l ↔ ⟨key, false⟩ ∈ l ∧ ⟨key, true⟩ ∉ l := by
  induction l with
  | nil => simp [removedKeys]
  | cons k rest ih =>
    have hrest := List.pairwise_cons.1 hsorted
    -- what is after `k` in the order cannot be a second origin that comes before it
    have hfront : ⟨key, false⟩ ∈ rest → k ≠ ⟨key, true⟩ := by
      rintro hmem rfl
      exact not_cmp_le key (hrest.1 _ hmem)
    obtain ⟨k, fromFile⟩ := k
    cases fromFile with
    | true =>
      have hdistinct' : (rest.filter fun a => !a.fromFile).Nodup := by
        simpa using hdistinct
      rw [removedKeys, if_neg (by simp), ih hrest.2 hdistinct']
      simp only [List.mem_cons, PubkeyOrigin.mk.injEq, and_true, and_false, Bool.false_eq_true, false_or,
        not_or]
      constructor
      · rintro ⟨hmem, hnot⟩
        exact ⟨hmem, fun heq => hfront hmem (by rw [heq]), hnot⟩
      · rintro ⟨hmem, _, hnot⟩
        exact ⟨hmem, hnot⟩
    | false =>
      have hdistinct' : ⟨k, false⟩ ∉ rest ∧ (rest.filter fun a => !a.fromFile).Nodup := by
        simpa using hdistinct
      have hremoved := isRemoved_iff hsorted hdistinct'.1
      have hih := ih hrest.2 hdistinct'.2
      rw [removedKeys]
      by_cases hkey : key = k
      · subst hkey
        have hnot : key ∉ removedKeys rest := fun h => hdistinct'.1 (hih.1 h).1
        by_cases hmem : ⟨key, true⟩ ∈ rest
        · rw [if_neg fun h => hremoved.1 h.2 hmem]
          exact ⟨fun h => absurd h hnot, fun h => absurd (List.mem_cons_of_mem _ hmem) h.2⟩
        · rw [if_pos ⟨rfl, hremoved.2 hmem⟩]
          refine ⟨fun _ => ⟨List.mem_cons_self, ?_⟩, fun _ => List.mem_cons_self⟩
          simp [hmem]
      · have hother : ⟨key, false⟩ ∈ (⟨k, false⟩ :: rest : List PubkeyOrigin) ∧
            ⟨key, true⟩ ∉ (⟨k, false⟩ :: rest : List PubkeyOrigin) ↔ key ∈ removedKeys rest := by
          rw [hih]
          simp [hkey]
        rw [hother]
        split <;> simp [hkey]

theorem removedKeys_sublist (l : List PubkeyOrigin) :
    (removedKeys l).Sublist ((l.filter fun a => !a.fromFile).map PubkeyOrigin.pubkey) := by
  induction l with
  | nil => exact List.Sublist.slnil
  | cons k rest ih =>
    unfold removedKeys
    split
    · rename_i h
      rw [List.filter_cons_of_pos (by simp [h.1]), List.map_cons]
      exact ih.cons_cons _
    · cases hfile : k.fromFile with
      | true =>
        rw [List.filter_cons_of_neg (by simp [hfile])]
        exact ih
      | false =>
        rw [List.filter_cons_of_pos (by simp [hfile]), List.map_cons]
        exact ih.cons _

section Sync

variable {Addr : Type}

def setPeer (keys : List Key) (p : WgPeer Addr) : List Key :=
  if p.removeMe then keys.filter (· ≠ p.key) else if p.key ∈ keys then keys else keys ++ [p.key]

def setPeers (d : WgDevice Addr) (keys : List Key) : List Key :=
  d.peers.foldl setPeer (if d.replacePeers then [] else keys)

theorem mem_foldl_removals {removed keys : List Key} {k : Key} :
    k ∈ (removed.map (removal : Key → WgPeer Addr)).foldl setPeer keys ↔ k ∈ keys ∧ k ∉ removed := by
  induction removed generalizing keys with
  | nil => simp
  | cons r removed ih =>
    have hstep : setPeer keys (removal r : WgPeer Addr) = keys.filter (· ≠ r) := rfl
    rw [List.map_cons, List.foldl_cons, hstep, ih, List.mem_filter, List.mem_cons, not_or,
      decide_eq_true_iff, and_assoc]

theorem mem_foldl_peers {ps : List (WgPeer Addr)} (hps : ∀ p ∈ ps, p.removeMe = false)
    {keys : List Key} {k : Key} :
    k ∈ ps.foldl setPeer keys ↔ k ∈ keys ∨ k ∈ ps.map WgPeer.key := by
  induction ps generalizing keys with
  | nil => simp
  | cons p ps ih =>
    have hstep : k ∈ setPeer keys p ↔ k ∈ keys ∨ k = p.key := by
      unfold setPeer
      rw [if_neg (by simp [hps p List.mem_cons_self])]
      split
      · constructor
        · exact fun h => .inl h
        · rintro (h | rfl)
          · exact h
          · assumption
      · rw [List.mem_append, List.mem_singleton]
    rw [List.foldl_cons, ih fun q hq => hps q (List.mem_cons_of_mem p hq), hstep, List.map_cons,
      List.mem_cons, or_assoc]

theorem mem_pubkeys {file runtime : WgDevice Addr} {k : Key} :
    (⟨k, true⟩ ∈ pubkeys file runtime ↔ k ∈ file.peers.map WgPeer.key) ∧
      (⟨k, false⟩ ∈ pubkeys file runtime ↔ k ∈ runtime.peers.map WgPeer.key) := by
  unfold pubkeys
  simp [List.mem_append, List.mem_map]

theorem filter_pubkeys (file runtime : WgDevice Addr) :
    ((pubkeys file runtime).filter fun a => !a.fromFile) = runtime.peers.map (⟨·.key, false⟩) := by
  unfold pubkeys
  rw [List.filter_append, List.filter_eq_nil_iff.2, List.filter_eq_self.2, List.nil_append]
  · intro a ha
    obtain ⟨p, _, rfl⟩ := List.mem_map.1 ha
    rfl
  · intro a ha
    obtain ⟨p, _, rfl⟩ := List.mem_map.1 ha
    exact Bool.false_ne_true

/-- For every file with a peer and every running device with distinct keys, the peers that the file
does not have, and no others, are removed before its own peers are set. -/
theorem syncConf_removes (sys : Resolver Addr) (config : Bytes) (file : WgDevice Addr)
    (hread : configRead sys false config = .ok file) (hpeers : file.peers ≠ [])
    (runtime : WgDevice Addr) (hdistinct : (runtime.peers.map WgPeer.key).Nodup)
    (qsort : List PubkeyOrigin → List PubkeyOrigin) (hqsort : Sorts qsort) :
    ∃ removed : List Key,
      let d := { file with
        replacePeers := file.replacePeers && runtime.peers.isEmpty
        peers := removed.map removal ++ file.peers }
      syncConf qsort (some runtime) file = some d
      ∧ removed.Nodup
      ∧ (∀ k, k ∈ removed ↔ k ∈ runtime.peers.map WgPeer.key ∧ k ∉ file.peers.map WgPeer.key)
      ∧ ∀ k, k ∈ setPeers d (runtime.peers.map WgPeer.key) ↔ k ∈ file.peers.map WgPeer.key := by
  have hfile : ∀ p ∈ file.peers, p.removeMe = false := fun p hp =>
    ((configRead_read hread).2.1 p hp).1.removeMe
  unfold syncConf
  rw [if_neg hpeers]
  by_cases hruntime : runtime.peers = []
  · refine ⟨[], ?_, List.nodup_nil, ?_, ?_⟩
    · simp [hruntime]
    · simp [hruntime]
    · intro k
      simp only [setPeers, List.map_nil, List.nil_append, hruntime, ite_self]
      rw [mem_foldl_peers hfile]
      simp
  · obtain ⟨hperm, hsorted⟩ := hqsort (pubkeys file runtime)
    have hfilter : ((qsort (pubkeys file runtime)).filter fun a => !a.fromFile).Perm
        (runtime.peers.map (⟨·.key, false⟩)) := by
      rw [← filter_pubkeys file runtime]
      exact hperm.filter _
    have hkeys : (((qsort (pubkeys file runtime)).filter fun a => !a.fromFile).map
        PubkeyOrigin.pubkey).Nodup := by
      rw [(hfilter.map PubkeyOrigin.pubkey).nodup_iff, List.map_map]
      exact hdistinct
    have hmem : ∀ k, k ∈ (removedKeys (qsort (pubkeys file runtime))).reverse ↔
        k ∈ runtime.peers.map WgPeer.key ∧ k ∉ file.peers.map WgPeer.key := by
      intro k
      rw [List.mem_reverse, mem_removedKeys hsorted (List.Nodup.of_map _ hkeys), hperm.mem_iff, hperm.mem_iff,
        mem_pubkeys.1, mem_pubkeys.2]
    refine ⟨(removedKeys (qsort (pubkeys file runtime))).reverse, ?_, ?_, hmem, ?_⟩
    · have hempty : runtime.peers.isEmpty = false := List.isEmpty_eq_false_iff.2 hruntime
      simp only [if_neg hruntime, addRemovals_eq, hempty, Bool.and_false]
    · rw [(List.reverse_perm _).nodup_iff]
      exact hkeys.sublist (removedKeys_sublist _)
    · intro k
      have hempty : runtime.peers.isEmpty = false := List.isEmpty_eq_false_iff.2 hruntime
      simp only [setPeers, hempty, Bool.and_false, Bool.false_eq_true, if_false, List.foldl_append]
      rw [mem_foldl_peers hfile, mem_foldl_removals, hmem]
      by_cases hk : k ∈ file.peers.map WgPeer.key
      · simp [hk]
      · simp only [hk, not_false_eq_true, and_true, or_false, iff_false, not_and, not_not]
        exact fun h => h

end Sync

def onePeerFile : Bytes :=
  ["[Peer]".toList, keyLine "PublicKey" zeroKey.toBase64].flatMap (· ++ ['\n'])

def onePeerDevice : WgDevice Bool where
  replacePeers := true
  privateKey := some zeroKey
  fwmark := some 0
  peers := [{ publicKey := some zeroKey, replaceAllowedIps := true }]

def oneKey : Key := ⟨List.replicate 32 1, rfl⟩

theorem configRead_onePeerFile : configRead noResolver false onePeerFile = .ok onePeerDevice := by
  rfl

theorem syncConf_removes_one :
    ∃ removed : List Key,
      let d := { onePeerDevice with
        replacePeers := false
        peers := removed.map removal ++ onePeerDevice.peers }
      syncConf (fun l => l.mergeSort fun a b => decide (pubkeyCmp a b ≤ 0))
        (some { peers := [{ publicKey := some oneKey }, { publicKey := some zeroKey }] })
        onePeerDevice = some d
      ∧ removed.Nodup
      ∧ (∀ k, k ∈ removed ↔ k ∈ [oneKey, zeroKey] ∧ k ∉ [zeroKey])
      ∧ ∀ k, k ∈ setPeers d [oneKey, zeroKey] ↔ k ∈ [zeroKey] :=
  syncConf_removes noResolver onePeerFile onePeerDevice configRead_onePeerFile (by decide)
    { peers := [{ publicKey := some oneKey }, { publicKey := some zeroKey }] } (by decide) _
    sorts_mergeSort

end Amnezia.Tools
