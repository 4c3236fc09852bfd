import Amnezia.Model.StoredManager
import Amnezia.Model.TunnelConfig

/-!
# Synchronising the tunnels with the server

`HandshakeViewModel.processConfigs` deletes the tunnels whose names the server does not list, by
comparing strings, and then updates or creates one tunnel for each entry, by looking its name up in
the live list.  A lookup may miss a name that is there; `create` then finds the file and throws, and
the exception is only logged.
-/

namespace Amnezia.Model

open Amnezia.Backend Amnezia.Databinding Config
open Java (Text)

structure RemoteConfig where
  name : Name
  configContent : Text

/-- What the backend, the platform and the store answer to the i-th deletion and to the i-th
update. -/
structure SyncAnswers (S : Type*) where
  removing : Nat → GoBackend.Answers S
  deletes : Nat → Bool
  updating : Nat → GoBackend.Answers S
  writes : Nat → Bool

namespace HandshakeViewModel

variable {Addr : Type} [DecidableEq Addr] {S : Type*} [DecidableEq S] (net : Net Addr)
  (endpoints : ConfigObject Addr → List (Option (List Char))) (o : SyncAnswers S)

def removeAll : Nat → StoredManager (ConfigObject Addr) S → List Nat →
    StoredManager (ConfigObject Addr) S
  | _, m, [] => m
  | i, m, tunnel :: tunnels =>
    removeAll (i + 1) (m.delete endpoints (o.removing i) tunnel (o.deletes i)) tunnels

/-- The body of `remoteConfigs.forEach`, with the number of the config object that it parses. -/
def updateOne (i reference : Nat) (m : StoredManager (ConfigObject Addr) S)
    (remote : RemoteConfig) : StoredManager (ConfigObject Addr) S :=
  match parse net remote.configContent with
  | .error _ => m
  | .ok contents =>
    if containsKey TunnelComparator.compare m.names remote.name then
      match get TunnelComparator.compare m.name m.tunnelMap remote.name with
      | some tunnel =>
        m.setTunnelConfig endpoints (o.updating i) tunnel ⟨reference, contents⟩ (o.writes i)
      | none => m
    else m.create remote.name (some ⟨reference, contents⟩) (o.writes i)

def updateAll : Nat → Nat → StoredManager (ConfigObject Addr) S → List RemoteConfig →
    StoredManager (ConfigObject Addr) S
  | _, _, m, [] => m
  | i, reference, m, remote :: remotes =>
    updateAll (i + 1) (reference + 1) (updateOne net endpoints o i reference m remote) remotes

def tunnelsToRemove (m : StoredManager (ConfigObject Addr) S) (remoteConfigs : List RemoteConfig) :
    List Nat :=
  m.tunnelMap.filter fun tunnel => m.name tunnel ∉ remoteConfigs.map RemoteConfig.name

/-- `processConfigs`, whose first config object has the number `reference`. -/
def processConfigs (reference : Nat) (m : StoredManager (ConfigObject Addr) S)
    (remoteConfigs : List RemoteConfig) : StoredManager (ConfigObject Addr) S :=
  updateAll net endpoints o 0 reference
    (removeAll endpoints o 0 m (tunnelsToRemove m remoteConfigs)) remoteConfigs

def namesAfterEntry (i : Nat) (names : List Name) (remote : RemoteConfig) : List Name :=
  if (parse net remote.configContent).isOk = true ∧
      isNameInvalid remote.name = false ∧ remote.name ∉ names ∧ o.writes i = true then
    StoredManager.insertName names remote.name
  else names

def Finds (store : Name → Option (ConfigObject Addr)) : List Name → List RemoteConfig → Prop
  | _, [] => True
  | names, remote :: remotes =>
    if remote.name ∈ names then
      (containsKey TunnelComparator.compare names remote.name = true ∨
          ∃ config, store remote.name = some config ∧
            parse net remote.configContent = .ok config.contents) ∧
        Finds store names remotes
    else Finds store (StoredManager.insertName names remote.name) remotes

def Stores (m : StoredManager (ConfigObject Addr) S) (remote : RemoteConfig) : Prop :=
  ∃ config, m.store remote.name = some config ∧
    parse net remote.configContent = .ok config.contents

structure Succeeds : Prop where
  deletes : ∀ i, o.deletes i = true
  writes : ∀ i, o.writes i = true
  bringsUp : ∀ i service config,
    GoBackend.CanBringUp endpoints (o.updating i).bringUp service (some config)

theorem removeAll_spec (hdeletes : ∀ i, o.deletes i = true) (i : Nat)
    (m : StoredManager (ConfigObject Addr) S) (tunnels : List Nat) (h : m.Accounted)
    (hmem : ∀ t ∈ tunnels, t ∈ m.tunnelMap) (hnodup : tunnels.Nodup) :
    let after := removeAll endpoints o i m tunnels
    after.Accounted ∧ after.tunnelMap = m.tunnelMap.filter (fun t => t ∉ tunnels) ∧
      after.name = m.name ∧ ∀ n, n ∉ tunnels.map m.name → after.store n = m.store n := by
  induction tunnels generalizing i m with
  | nil =>
    refine ⟨h, ?_, rfl, fun n _ => rfl⟩
    simp [removeAll]
  | cons t tunnels ih =>
    have ht : t ∈ m.tunnelMap := hmem t List.mem_cons_self
    obtain ⟨hfresh, hnodup⟩ := List.nodup_cons.mp hnodup
    obtain ⟨hmap, hname, hstore, -, -⟩ :=
      StoredManager.delete_of_mem endpoints h (o.removing i) ht
    have herase : m.tunnelMap.erase t = m.tunnelMap.filter (fun u => u ≠ t) := by
      rw [(List.Nodup.of_map _ h.nodup).erase_eq_filter]
      apply List.filter_congr
      intro u _
      rw [Bool.eq_iff_iff, bne_iff_ne, decide_eq_true_eq]
    simp only [removeAll, hdeletes i]
    obtain ⟨hacc, hmap', hname', hstore'⟩ :=
      ih (i + 1) _ (h.delete endpoints (o.removing i) ht) (by
        intro u hu
        have hne : u ≠ t := fun heq => hfresh (heq ▸ hu)
        rw [hmap, List.mem_erase_of_ne hne]
        exact hmem u (List.mem_cons_of_mem t hu)) hnodup
    refine ⟨hacc, ?_, hname'.trans hname, ?_⟩
    · rw [hmap', hmap, herase, List.filter_filter]
      apply List.filter_congr
      intro u _
      simp only [List.mem_cons, not_or, Bool.decide_and, Bool.and_comm]
    · intro n hn
      rw [List.map_cons, List.mem_cons, not_or] at hn
      rw [hstore' n (by rw [hname]; exact hn.2), hstore, Function.update_of_ne hn.1]

variable {m : StoredManager (ConfigObject Addr) S}

theorem removeAll_names (hdeletes : ∀ i, o.deletes i = true) (h : m.Accounted)
    (remotes : List RemoteConfig) :
    let after := removeAll endpoints o 0 m (tunnelsToRemove m remotes)
    after.Accounted ∧
      after.names = m.names.filter (fun n => n ∈ remotes.map RemoteConfig.name) ∧
      ∀ r ∈ remotes, after.store r.name = m.store r.name := by
  have hmem : ∀ t ∈ tunnelsToRemove m remotes, t ∈ m.tunnelMap :=
    fun t ht => List.mem_of_mem_filter ht
  have hnodup : (tunnelsToRemove m remotes).Nodup := (List.Nodup.of_map _ h.nodup).filter _
  obtain ⟨hacc, hmap, hname, hstore⟩ :=
    removeAll_spec endpoints o hdeletes 0 m (tunnelsToRemove m remotes) h hmem hnodup
  refine ⟨hacc, ?_, ?_⟩
  · unfold StoredManager.names
    rw [hmap, hname, List.filter_map]
    congr 1
    apply List.filter_congr
    intro t ht
    simp only [tunnelsToRemove, List.mem_filter, ht, true_and, decide_eq_true_eq, not_not,
      Function.comp_apply]
  · intro r hr
    apply hstore
    intro hremoved
    obtain ⟨t, ht, hsame⟩ := List.mem_map.mp hremoved
    have hlisted : m.name t ∉ remotes.map RemoteConfig.name :=
      of_decide_eq_true (List.mem_filter.mp ht).2
    rw [hsame] at hlisted
    exact hlisted (List.mem_map_of_mem hr)

variable {remote : RemoteConfig} {contents : Config Addr}

/-- One entry: a name that is found gets the config, one that is there and not found keeps its
file, a new one is inserted. -/
theorem updateOne_spec (hok : Succeeds endpoints o) (i reference : Nat) (h : m.Accounted)
    (hvalid : isNameInvalid remote.name = false)
    (hparse : parse net remote.configContent = .ok contents) :
    let after := updateOne net endpoints o i reference m remote
    after.Accounted ∧
      after.names = (if remote.name ∈ m.names then m.names
        else StoredManager.insertName m.names remote.name) ∧
      after.store =
        if remote.name ∈ m.names ∧
            ¬containsKey TunnelComparator.compare m.names remote.name = true then m.store
        else Function.update m.store remote.name (some ⟨reference, contents⟩) := by
  simp only [updateOne, hparse]
  by_cases hfound : containsKey TunnelComparator.compare m.names remote.name = true
  · -- the tunnel found has that very name
    obtain ⟨t, hget, ht, hname⟩ := get_of_containsKey TunnelComparator.eq_of_compare_eq_zero hfound
    have hmem : remote.name ∈ m.names :=
      mem_of_containsKey TunnelComparator.eq_of_compare_eq_zero hfound
    have hcan := hok.bringsUp i m.backend.vpnService ⟨reference, contents⟩
    obtain ⟨hmap, hname', hstore, -, -⟩ :=
      StoredManager.setTunnelConfig_of_can endpoints h (o.updating i) ht hcan
    simp only [if_pos hfound, hget, hok.writes i]
    refine ⟨h.setTunnelConfig endpoints (o.updating i) ht hcan, ?_, ?_⟩
    · rw [if_pos hmem]
      unfold StoredManager.names
      rw [hmap, hname']
    · rw [if_neg (fun hmissed => hmissed.2 hfound), hstore, hname]
  · simp only [if_neg hfound, hok.writes i]
    refine ⟨h.create _ _ _, ?_⟩
    by_cases hmem : remote.name ∈ m.names
    · -- the file exists, so nothing is created
      rw [StoredManager.create_eq_self h (fun hnew => hnew.2.1 hmem), if_pos hmem,
        if_pos ⟨hmem, hfound⟩]
      exact ⟨rfl, rfl⟩
    · obtain ⟨hnames, hstore, -, -, -⟩ :=
        StoredManager.create_of_notMem h hvalid hmem (⟨reference, contents⟩ : ConfigObject Addr)
      rw [if_neg hmem, if_neg (fun hmissed => hmem hmissed.1)]
      exact ⟨hnames, hstore⟩

/-- Entries the loop can work with: valid names, no name twice, texts that parse. -/
structure Acceptable (remotes : List RemoteConfig) : Prop where
  valid : ∀ r ∈ remotes, isNameInvalid r.name = false
  nodup : (remotes.map RemoteConfig.name).Nodup
  parses : ∀ r ∈ remotes, ∃ contents, parse net r.configContent = .ok contents

theorem Acceptable.tail {remotes : List RemoteConfig} (h : Acceptable net (remote :: remotes)) :
    Acceptable net remotes :=
  ⟨fun r hr => h.valid r (List.mem_cons_of_mem _ hr), (List.nodup_cons.mp h.nodup).2,
    fun r hr => h.parses r (List.mem_cons_of_mem _ hr)⟩

theorem updateOne_store_of_ne (hok : Succeeds endpoints o) (i reference : Nat) (h : m.Accounted)
    (hvalid : isNameInvalid remote.name = false)
    (hparse : parse net remote.configContent = .ok contents) {n : Name}
    (hne : n ≠ remote.name) :
    (updateOne net endpoints o i reference m remote).store n = m.store n := by
  rw [(updateOne_spec net endpoints o hok i reference h hvalid hparse).2.2]
  split
  · rfl
  · exact Function.update_of_ne hne _ _

theorem stores_updateOne_iff (hok : Succeeds endpoints o) (i reference : Nat) (h : m.Accounted)
    (hvalid : isNameInvalid remote.name = false)
    (hparse : parse net remote.configContent = .ok contents) :
    Stores net (updateOne net endpoints o i reference m remote) remote ↔
      (remote.name ∈ m.names →
        containsKey TunnelComparator.compare m.names remote.name = true ∨
          Stores net m remote) := by
  unfold Stores
  rw [(updateOne_spec net endpoints o hok i reference h hvalid hparse).2.2]
  split
  · rename_i hmissed
    constructor
    · intro hstored _
      exact .inr hstored
    · intro hkept
      exact (hkept hmissed.1).resolve_left hmissed.2
  · rename_i hset
    apply iff_of_true
    · exact ⟨⟨reference, contents⟩, Function.update_self _ _ _, hparse⟩
    · intro hmem
      by_cases hfound : containsKey TunnelComparator.compare m.names remote.name = true
      · exact .inl hfound
      · exact absurd ⟨hmem, hfound⟩ hset

theorem updateAll_spec (hok : Succeeds endpoints o) (i reference : Nat)
    (m : StoredManager (ConfigObject Addr) S) (remotes : List RemoteConfig) (h : m.Accounted)
    (haccept : Acceptable net remotes) (store : Name → Option (ConfigObject Addr))
    (hstore : ∀ r ∈ remotes, m.store r.name = store r.name) :
    let after := updateAll net endpoints o i reference m remotes
    (∀ n, n ∈ after.names ↔ n ∈ m.names ∨ n ∈ remotes.map RemoteConfig.name) ∧
      (∀ n, n ∉ remotes.map RemoteConfig.name → after.store n = m.store n) ∧
      ((∀ r ∈ remotes, Stores net after r) ↔ Finds net store m.names remotes) := by
  -- the invariant is that the files of the entries to come are still the old ones
  induction remotes generalizing i reference m with
  | nil =>
    refine ⟨fun n => ?_, fun _ _ => rfl, ?_⟩
    · simp [updateAll]
    · simp [Finds]
  | cons remote remotes ih =>
    have hvalid := haccept.valid remote List.mem_cons_self
    obtain ⟨contents, hparse⟩ := haccept.parses remote List.mem_cons_self
    have hfresh : remote.name ∉ remotes.map RemoteConfig.name :=
      (List.nodup_cons.mp haccept.nodup).1
    obtain ⟨hacc, hnames, -⟩ := updateOne_spec net endpoints o hok i reference h hvalid hparse
    have hother : ∀ n, n ≠ remote.name →
        (updateOne net endpoints o i reference m remote).store n = m.store n :=
      fun n hn => updateOne_store_of_ne net endpoints o hok i reference h hvalid hparse hn
    have hown := stores_updateOne_iff net endpoints o hok i reference h hvalid hparse
    obtain ⟨hall, hkeep, hiff⟩ := ih (i + 1) (reference + 1) _ hacc (haccept.tail net) (by
      intro r hr
      have hne : r.name ≠ remote.name := fun heq => hfresh (heq ▸ List.mem_map_of_mem hr)
      rw [hother _ hne]
      exact hstore r (List.mem_cons_of_mem _ hr))
    simp only [updateAll]
    refine ⟨fun n => ?_, fun n hn => ?_, ?_⟩
    · rw [hall, hnames, List.map_cons, List.mem_cons]
      split
      · rename_i hmem
        constructor
        · exact Or.imp_right .inr
        · rintro (hn | rfl | hn)
          · exact .inl hn
          · exact .inl hmem
          · exact .inr hn
      · rename_i hmem
        rw [StoredManager.mem_insertName hmem, or_assoc, or_left_comm]
    · rw [List.map_cons, List.mem_cons, not_or] at hn
      rw [hkeep n hn.2, hother n hn.1]
    · have hfinal : Stores net
          (updateAll net endpoints o (i + 1) (reference + 1)
            (updateOne net endpoints o i reference m remote) remotes) remote ↔
          Stores net (updateOne net endpoints o i reference m remote) remote := by
        unfold Stores
        rw [hkeep _ hfresh]
      have hbefore : Stores net m remote ↔ ∃ config, store remote.name = some config ∧
          parse net remote.configContent = .ok config.contents := by
        unfold Stores
        rw [hstore remote List.mem_cons_self]
      rw [List.forall_mem_cons, hiff, hfinal, hown, hbefore, hnames, Finds]
      by_cases hmem : remote.name ∈ m.names
      · rw [if_pos hmem, if_pos hmem]
        exact and_congr_left fun _ => forall_prop_of_true hmem
      · rw [if_neg hmem, if_neg hmem]
        exact and_iff_right fun hin => absurd hin hmem

/-- After `processConfigs` the names are those of the server, and the configs are those of the
server exactly when each name that was there is found at its turn or had its config already. -/
theorem processConfigs_iff {m : StoredManager (ConfigObject Addr) S} (h : m.Accounted)
    (hok : Succeeds endpoints o) (reference : Nat) {remotes : List RemoteConfig}
    (haccept : Acceptable net remotes) :
    let after := processConfigs net endpoints o reference m remotes
    (∀ n, n ∈ after.names ↔ n ∈ remotes.map RemoteConfig.name) ∧
      ((∀ r ∈ remotes, Stores net after r) ↔
        Finds net m.store (m.names.filter fun n => n ∈ remotes.map RemoteConfig.name) remotes) := by
  obtain ⟨hacc, hnames, hstore⟩ := removeAll_names endpoints o hok.deletes h remotes
  obtain ⟨hall, -, hiff⟩ :=
    updateAll_spec net endpoints o hok 0 reference _ remotes hacc haccept m.store hstore
  rw [hnames] at hiff
  refine ⟨fun n => ?_, hiff⟩
  unfold processConfigs
  rw [hall, hnames, List.mem_filter, decide_eq_true_eq]
  exact or_iff_right_of_imp And.right

def workingAnswers : SyncAnswers Nat :=
  { removing := fun _ => ⟨.working 0, .working 0⟩
    deletes := fun _ => true
    updating := fun _ => ⟨.working 0, .working 0⟩
    writes := fun _ => true }

omit [DecidableEq Addr] in
theorem workingAnswers_succeeds :
    Succeeds (fun _ : ConfigObject Addr => []) workingAnswers := by
  constructor
  · exact fun _ => rfl
  · exact fun _ => rfl
  · intro i service config
    exact ⟨config, rfl, ⟨rfl, .inr ⟨rfl, 0, rfl⟩⟩, rfl, rfl, rfl, rfl, rfl, rfl⟩

def built (names : List Name) : StoredManager (ConfigObject Bool) Nat :=
  (names.map fun name => (name, ⟨0, ConfigRequests.plainConfig⟩, true)).foldl
    (fun m r => m.create r.1 (some r.2.1) r.2.2) (.started [] (fun _ => []) none 0 fun _ => none)

theorem built_accounted (names : List Name) : (built names).Accounted :=
  StoredManager.accounted_creates _

def junkText : Text := keyText ++ "Jc = 4\n".toList

theorem acceptable_pair {a b : Name} (ha : isNameInvalid a = false) (hb : isNameInvalid b = false)
    (hne : a ≠ b) : Acceptable exampleNet [⟨a, junkText⟩, ⟨b, keyText⟩] := by
  constructor
  · simp [ha, hb]
  · simpa using hne
  · intro r hr
    apply Loops.exists_ok_iff.2
    rcases List.mem_pair.mp hr with rfl | rfl
    · show (parse exampleNet junkText).toOption.isSome = true
      decide +kernel
    · exact parse_keyText exampleNet

/-- Tunnel `a` is updated, tunnel `c` deleted, tunnel `b` created. -/
theorem processConfigs_two :
    let remotes : List RemoteConfig := [⟨['a'], junkText⟩, ⟨['b'], keyText⟩]
    let after := processConfigs exampleNet (fun _ => []) workingAnswers 1
      (built [['a'], ['c']]) remotes
    (∀ n, n ∈ after.names ↔ n ∈ remotes.map RemoteConfig.name) ∧
      ∀ r ∈ remotes, Stores exampleNet after r := by
  intro remotes
  have hsync := processConfigs_iff exampleNet (fun _ => []) workingAnswers
    (built_accounted [['a'], ['c']]) workingAnswers_succeeds 1
    (acceptable_pair (by decide) (by decide) (by decide) :
      Acceptable exampleNet remotes)
  refine ⟨hsync.1, hsync.2.mpr ?_⟩
  have hkept : (built [['a'], ['c']]).names.filter
      (fun n => n ∈ remotes.map RemoteConfig.name) = [['a']] := by
    decide +kernel
  rw [hkept]
  exact ⟨.inl (by decide +kernel), trivial⟩

/-- Tunnels `a` and `A` exist.  The search for `a` goes to the left of `A` and misses it, so the new
config of `a` is not stored. -/
theorem processConfigs_misses :
    let m := built [['a'], ['A']]
    let remotes : List RemoteConfig := [⟨['a'], junkText⟩, ⟨['A'], keyText⟩]
    let after := processConfigs exampleNet (fun _ => []) workingAnswers 1 m remotes
    m.names = [['A'], ['a']] ∧ m.Accounted ∧ Acceptable exampleNet remotes ∧
      Succeeds (fun _ : ConfigObject Bool => []) workingAnswers ∧
      ¬∀ r ∈ remotes, Stores exampleNet after r := by
  intro m remotes after
  have hnames : m.names = [['A'], ['a']] := by decide +kernel
  have haccept : Acceptable exampleNet remotes :=
    acceptable_pair (by decide) (by decide) (by decide)
  refine ⟨hnames, built_accounted [['a'], ['A']], haccept, workingAnswers_succeeds, ?_⟩
  intro hstores
  obtain ⟨config, hstore, hparse⟩ := hstores ⟨['a'], junkText⟩ List.mem_cons_self
  -- the file has no junk packet count, the text has one
  have hold : (after.store ['a']).map
      (fun c => c.contents.interfaze.number .junkPacketCount) = some none := by
    decide +kernel
  have hnew : (parse exampleNet junkText).toOption.map
      (fun c => c.interfaze.number .junkPacketCount) = some (some 4) := by
    decide +kernel
  have hnone : config.contents.interfaze.number .junkPacketCount = none := by
    clear_value after
    dsimp only at hstore
    rw [hstore] at hold
    exact Option.some.inj hold
  have hfour : config.contents.interfaze.number .junkPacketCount = some 4 := by
    rw [hparse] at hnew
    exact Option.some.inj hnew
  rw [hnone] at hfour
  cases hfour

end HandshakeViewModel

end Amnezia.Model
