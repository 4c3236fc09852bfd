import Amnezia.Config.RoundTrip

/-!
# Configurations that survive being stored

`FileConfigStore` writes `toAwgQuickString` and reads it with `Config.parse`.  Which texts give a
configuration with the same contents after that.
-/

namespace Amnezia.Config

open Java (Text)

section Contents

variable {Addr : Type}

structure Peer.SameContents (p p' : Peer Addr) : Prop where
  allowedIps : ∀ n, n ∈ p.allowedIps ↔ n ∈ p'.allowedIps
  endpoint : p.endpoint.map (fun e => (e.host, e.port)) =
    p'.endpoint.map (fun e => (e.host, e.port))
  persistentKeepalive : p.persistentKeepalive = p'.persistentKeepalive
  preSharedKey : p.preSharedKey = p'.preSharedKey
  publicKey : p.publicKey = p'.publicKey

structure Interface.SameContents (i i' : Interface Addr) : Prop where
  privateKey : i.privateKey.bytes = i'.privateKey.bytes
  addresses : ∀ n, n ∈ i.addresses ↔ n ∈ i'.addresses
  dnsServers : ∀ a, a ∈ i.dnsServers ↔ a ∈ i'.dnsServers
  dnsSearchDomains : ∀ d, d ∈ i.dnsSearchDomains ↔ d ∈ i'.dnsSearchDomains
  excludedApplications : ∀ t, t ∈ i.excludedApplications ↔ t ∈ i'.excludedApplications
  includedApplications : ∀ t, t ∈ i.includedApplications ↔ t ∈ i'.includedApplications
  number : ∀ a, i.number a = i'.number a
  text : ∀ a, i.text a = i'.text a

structure SameContents (c c' : Config Addr) : Prop where
  interfaze : c.interfaze.SameContents c'.interfaze
  peers : List.Forall₂ Peer.SameContents c.peers c'.peers

theorem Peer.SameContents.refl (p : Peer Addr) : p.SameContents p :=
  ⟨fun _ => Iff.rfl, rfl, rfl, rfl, rfl⟩

end Contents

def distinct (values : List Text) : List Text := (LinkedSet.empty.insertAll values).toList

/-- Nothing is lost at the end of the line of a list: the last value ends in a character that
trimming keeps, or is the only one and empty. -/
def KeepsLast (values : List Text) : Prop :=
  values = [] ∨ values = [[]] ∨
    ∃ t c, values.getLast? = some t ∧ t.getLast? = some c ∧ Java.trimmable c = false

theorem rdropWhile_eq_self_iff {t : Text} : t.rdropWhile Java.trimmable = t ↔
    t = [] ∨ ∃ c, t.getLast? = some c ∧ Java.trimmable c = false := by
  rcases List.eq_nil_or_concat t with rfl | ⟨init, c, rfl⟩
  · simp
  · rw [List.concat_eq_append, List.rdropWhile_eq_self_iff]
    simp

theorem mem_reread_iff {values : List Text} (hnodup : values.Nodup)
    (htoken : ∀ t ∈ values, Attribute.Token t) :
    (∀ t, t ∈ values ↔ t ∈ reread values) ↔ KeepsLast values := by
  rcases List.eq_nil_or_concat values with rfl | ⟨init, t, rfl⟩
  · simp [reread, KeepsLast]
  rw [List.concat_eq_append] at *
  have hlast : (init ++ [t]).getLast? = some t := List.getLast?_concat
  have ht := htoken t (by simp)
  have hne : init ++ [t] ≠ [] := by simp
  have hnotMem : t ∉ init := by
    intro hmem
    exact (List.nodup_append.1 hnodup).2.2 t hmem t (by simp) rfl
  unfold reread KeepsLast
  rw [if_neg hne]
  by_cases hinit : init = []
  · subst hinit
    rw [List.nil_append] at *
    rw [Attribute.split_trimmed_singleton ht]
    constructor
    · intro h
      have hself : t.rdropWhile Java.trimmable = t :=
        (List.mem_singleton.1 ((h t).1 (by simp))).symm
      rcases rdropWhile_eq_self_iff.1 hself with rfl | ⟨c, hc, hkeep⟩
      · exact .inr (.inl rfl)
      · exact .inr (.inr ⟨t, c, rfl, hc, hkeep⟩)
    · intro h
      have hself : t.rdropWhile Java.trimmable = t := by
        apply rdropWhile_eq_self_iff.2
        rcases h with h | h | ⟨t', c, ht', hc, hkeep⟩
        · cases h
        · exact .inl (List.singleton_inj.1 h)
        · cases ht'
          exact .inr ⟨c, hc, hkeep⟩
      rw [hself]
      exact fun _ => Iff.rfl
  · rw [Attribute.split_trimmed_join hinit htoken]
    constructor
    · intro h
      have hmem : t ∈ init ++ [t.rdropWhile Java.trimmable] :=
        (List.rdropWhile_prefix _ _).mem ((h t).1 (by simp))
      have hself : t.rdropWhile Java.trimmable = t := by
        rcases List.mem_append.1 hmem with hmem | hmem
        · exact absurd hmem hnotMem
        · exact (List.mem_singleton.1 hmem).symm
      rcases rdropWhile_eq_self_iff.1 hself with rfl | ⟨c, hc, hkeep⟩
      · -- an empty last value is dropped, and no other one is empty
        have hdrop := (h []).1 (by simp)
        rw [hself, List.rdropWhile_concat_pos _ _ _ rfl] at hdrop
        exact absurd ((List.rdropWhile_prefix _ _).mem hdrop) hnotMem
      · exact .inr (.inr ⟨t, c, hlast, hc, hkeep⟩)
    · rintro (h | h | ⟨t', c, ht', hc, hkeep⟩)
      · exact absurd h hne
      · rw [← List.nil_append [[]]] at h
        exact absurd (List.append_inj_left' h rfl) hinit
      · rw [hlast] at ht'
        cases ht'
        have hself : t.rdropWhile Java.trimmable = t :=
          rdropWhile_eq_self_iff.2 (.inr ⟨c, hc, hkeep⟩)
        have hnonempty : t.isEmpty = false := by
          cases t with
          | nil => cases hc
          | cons => rfl
        rw [hself, List.rdropWhile_concat_neg _ _ _ (by rw [hnonempty]; decide)]
        exact fun _ => Iff.rfl

section Stored

variable {Addr : Type} [DecidableEq Addr] {net : Net Addr}

/-- The `DNS` values of a text are not all names, and its lists of applications do not end in
something that is trimmed away. -/
structure Survives (net : Net Addr) (text : Text) : Prop where
  dns : listValues .dns text = [] ∨
    ∃ t ∈ listValues .dns text, (InetAddresses.parse net t).isOk = true
  excluded : KeepsLast (distinct (listValues .excludedApplications text))
  included : KeepsLast (distinct (listValues .includedApplications text))

omit [DecidableEq Addr] in
theorem addressesIn_eq_nil {values : List Text} :
    addressesIn net values = [] ↔ ∀ t ∈ values, (InetAddresses.parse net t).isOk = false := by
  unfold addressesIn
  rw [List.filterMap_eq_nil_iff]
  constructor
  · intro h t ht
    have hnone := h t ht
    cases hparse : InetAddresses.parse net t with
    | ok a =>
      rw [hparse] at hnone
      cases hnone
    | error e => rfl
  · intro h t ht
    have hok := h t ht
    cases hparse : InetAddresses.parse net t with
    | ok a =>
      rw [hparse] at hok
      cases hok
    | error e => rfl

theorem domains_kept_iff {i : Interface Addr} {values : List Text}
    (hservers : i.dnsServers = .insertAll .empty (addressesIn net values))
    (hdomains : i.dnsSearchDomains = .insertAll .empty (namesIn net values)) :
    (∀ d, d ∈ i.dnsSearchDomains ↔ d ∈ i.reprinted.dnsSearchDomains) ↔
      values = [] ∨ ∃ t ∈ values, (InetAddresses.parse net t).isOk = true := by
  by_cases hempty : i.dnsServers.isEmpty = true
  · have hnone : i.reprinted.dnsSearchDomains = .empty := if_pos hempty
    rw [LinkedSet.isEmpty_iff, hservers, LinkedSet.insertAll_eq_empty, addressesIn_eq_nil] at hempty
    rw [hnone, hdomains]
    constructor
    · intro h
      left
      rw [List.eq_nil_iff_forall_not_mem]
      intro t ht
      have hmem : t ∈ namesIn net values := by
        unfold namesIn
        rw [List.mem_filter, hempty t ht]
        exact ⟨ht, rfl⟩
      exact absurd ((h t).1 (LinkedSet.mem_insertAll.2 (.inr hmem))) List.not_mem_nil
    · rintro (rfl | ⟨t, ht, hok⟩)
      · exact fun _ => Iff.rfl
      · rw [hempty t ht] at hok
        cases hok
  · have hsame : i.reprinted.dnsSearchDomains = i.dnsSearchDomains := if_neg hempty
    rw [hsame]
    constructor
    · intro _
      right
      rw [LinkedSet.isEmpty_iff, hservers, LinkedSet.insertAll_eq_empty, addressesIn_eq_nil] at hempty
      by_contra hall
      apply hempty
      intro t ht
      apply eq_false_of_ne_true
      intro hok
      exact hall ⟨t, ht, hok⟩
    · exact fun _ _ => Iff.rfl

theorem applications_kept_iff {set : LinkedSet Text} {values : List Text}
    (hset : set = .insertAll .empty values) (htoken : ∀ t ∈ set, Attribute.Token t) :
    (∀ t, t ∈ set ↔ t ∈ LinkedSet.empty.insertAll (reread set.toList)) ↔
      KeepsLast (distinct values) := by
  have hdistinct : distinct values = set.toList := by
    unfold distinct
    rw [hset]
  rw [hdistinct, ← mem_reread_iff set.nodup htoken]
  apply forall_congr'
  intro t
  rw [LinkedSet.mem_insertAll]
  constructor
  · intro h
    exact h.trans ⟨fun h => h.elim (fun h => absurd h List.not_mem_nil) id, .inr⟩
  · intro h
    exact h.trans ⟨.inr, fun h => h.elim (fun h => absurd h List.not_mem_nil) id⟩

/-- A text that `Config.parse` accepts gives the same contents after it is printed and read again
exactly when it survives. -/
theorem stored_sameContents_iff (hnet : net.Documented) {text : Text} {c : Config Addr}
    (h : parse net text = .ok c) :
    (∃ c', parse net (c.toAwgQuickString net) = .ok c' ∧ c.SameContents c') ↔
      Survives net text := by
  obtain ⟨hi, hp⟩ := valid_of_parse h
  obtain ⟨hservers, hdomains, hexcluded, hincluded⟩ :=
    Interface.lists_of_parse (interface_of_parse h)
  have hback := parse_toAwgQuickString hnet hi hp
  have hdns := domains_kept_iff hservers hdomains
  have hexc := applications_kept_iff hexcluded hi.excluded
  have hinc := applications_kept_iff hincluded hi.included
  constructor
  · rintro ⟨c', hc', hsame⟩
    rw [hback] at hc'
    cases hc'
    exact ⟨hdns.1 hsame.interfaze.dnsSearchDomains,
      hexc.1 hsame.interfaze.excludedApplications, hinc.1 hsame.interfaze.includedApplications⟩
  · intro hs
    refine ⟨_, hback, ⟨rfl, fun _ => Iff.rfl, fun _ => Iff.rfl, hdns.2 hs.dns, hexc.2 hs.excluded,
      hinc.2 hs.included, fun _ => rfl, fun _ => rfl⟩, ?_⟩
    exact List.forall₂_same.2 fun p _ => Peer.SameContents.refl p

end Stored

def exampleNet : Net Bool where
  parseNumericAddress text :=
    if text = "1.1.1.1".toList then some true
    else if text = "10.0.0.2".toList then some false
    else none
  getHostAddress a := if a then "1.1.1.1".toList else "10.0.0.2".toList
  isInet4 _ := true
  uri text :=
    if text = "awg://vpn.example.com:51820".toList then
      some (some ("vpn.example.com".toList, 51820))
    else none

theorem exampleNet_uri {text host : Text} {port : Int}
    (h : exampleNet.uri text = some (some (host, port))) :
    host = "vpn.example.com".toList ∧ port = 51820 := by
  simp only [exampleNet] at h
  split at h
  · cases h
    exact ⟨rfl, rfl⟩
  · cases h

theorem exampleNet_documented : exampleNet.Documented where
  parse_getHostAddress := by decide
  getHostAddress_ne_nil := by decide
  getHostAddress_chars a := by
    apply List.all_eq_true.1
    revert a
    decide
  uri_chars h := by
    obtain ⟨rfl, -⟩ := exampleNet_uri h
    apply List.all_eq_true.1
    decide
  uri_brackets h := by
    obtain ⟨rfl, -⟩ := exampleNet_uri h
    decide
  uri_split h _ := by
    obtain ⟨rfl, rfl⟩ := exampleNet_uri h
    decide

def exampleText : Text :=
  ["[Interface]", "PrivateKey = AAAAAAAAAAAAAAAAAAAAAAAAAAAAAAAAAAAAAAAAAAA=",
   "Address = 10.0.0.2/32", "DNS = 1.1.1.1, example.com", "ExcludedApplications = org.a, org.b",
   "Jc = 4", "H1 = 1-5 # range", "[Peer]", "Endpoint = vpn.example.com:51820",
   "PublicKey = AAAAAAAAAAAAAAAAAAAAAAAAAAAAAAAAAAAAAAAAAAA="].flatMap fun line =>
    line.toList ++ ['\n']

theorem stored_sameContents_example : ∃ c, parse exampleNet exampleText = .ok c ∧
    ∃ c', parse exampleNet (c.toAwgQuickString exampleNet) = .ok c' ∧ c.SameContents c' := by
  obtain ⟨c, hc⟩ : ∃ c, parse exampleNet exampleText = .ok c :=
    Loops.exists_ok_iff.2 (by decide +kernel)
  refine ⟨c, hc, (stored_sameContents_iff exampleNet_documented hc).2 ⟨?_, ?_, ?_⟩⟩
  · exact .inr ⟨"1.1.1.1".toList, by decide +kernel, by decide⟩
  · exact .inr (.inr ⟨"org.b".toList, 'b', by decide +kernel, by decide, by decide⟩)
  · exact .inl (by decide +kernel)

def domainText : Text :=
  ["[Interface]", "PrivateKey = AAAAAAAAAAAAAAAAAAAAAAAAAAAAAAAAAAAAAAAAAAA=",
   "DNS = example.com"].flatMap fun line => line.toList ++ ['\n']

/-- The search domain is not printed, so it is lost. -/
theorem stored_loses_searchDomain : ∃ c c', parse exampleNet domainText = .ok c ∧
    parse exampleNet (c.toAwgQuickString exampleNet) = .ok c' ∧
    c.interfaze.dnsSearchDomains.toList = ["example.com".toList] ∧
    c'.interfaze.dnsSearchDomains.toList = [] ∧ ¬c.SameContents c' := by
  have hrun : ((parse exampleNet domainText).toOption.bind fun c =>
      (parse exampleNet (c.toAwgQuickString exampleNet)).toOption.map fun c' =>
        (c.interfaze.dnsSearchDomains.toList, c'.interfaze.dnsSearchDomains.toList)) =
      some (["example.com".toList], []) := by decide +kernel
  obtain ⟨c, hc, hrun⟩ := Option.bind_eq_some_iff.1 hrun
  obtain ⟨c', hc', hlists⟩ := Option.map_eq_some_iff.1 hrun
  rw [Prod.mk.injEq] at hlists
  refine ⟨c, c', Loops.eq_ok_of_toOption hc, Loops.eq_ok_of_toOption hc', hlists.1, hlists.2, ?_⟩
  intro hsame
  have hmem := (hsame.interfaze.dnsSearchDomains "example.com".toList).1
    (show _ ∈ c.interfaze.dnsSearchDomains.toList by rw [hlists.1]; simp)
  rw [← LinkedSet.mem_toList, hlists.2] at hmem
  exact absurd hmem List.not_mem_nil

end Amnezia.Config
