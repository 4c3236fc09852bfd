import Amnezia.Backend.Notifications
import Amnezia.Model.ServerSync

/-!
# Synchronising while a tunnel is up

An entry for a tunnel that is up ends in `GoBackend.setState` with a config object that was parsed
just now.  The backend compares objects, so it takes the tunnel down and brings it up again whatever
the text says.
-/

namespace Amnezia.Model

open Amnezia.Backend Amnezia.Databinding Config
open Java (Text)

namespace HandshakeViewModel

variable {Addr : Type} [DecidableEq Addr] {S : Type*} [DecidableEq S] (net : Net Addr)
  (endpoints : ConfigObject Addr → List (Option (List Char))) (o : SyncAnswers S)

/-- How often the tunnel was told that it is down. -/
def downTransitions (m : StoredManager (ConfigObject Addr) S) (tunnel : Nat) : Nat :=
  m.backend.log.count (tunnel, .down)

variable {u : Nat}

def namesAfterRemoval : Nat → List Name → List Name → List Name
  | _, names, [] => names
  | i, names, name :: removed =>
    namesAfterRemoval (i + 1) (StoredManager.namesAfterDelete names name (o.deletes i)) removed

def Misses (name : Name) : Nat → List Name → List RemoteConfig → Prop
  | _, _, [] => True
  | i, names, remote :: remotes =>
    (remote.name = name → (parse net remote.configContent).isOk = true →
        containsKey TunnelComparator.compare names name = false) ∧
      Misses name (i + 1) (namesAfterEntry net o i names remote) remotes

structure Undisturbed (t : Nat) (c : ConfigObject Addr) (m : StoredManager (ConfigObject Addr) S) :
    Prop where
  accounted : m.Accounted
  agree : m.toTunnelManager.StatesAgree
  mem : t ∈ m.tunnelMap
  tunnel : m.backend.currentTunnel = some t
  config : m.backend.currentConfig = some c

variable {t : Nat} {c : ConfigObject Addr}

variable {m : StoredManager (ConfigObject Addr) S}

omit [DecidableEq Addr] [DecidableEq S] in
theorem Undisturbed.state_eq_up (h : Undisturbed t c m) : m.state t = .up :=
  (h.agree t).trans (GoBackend.getState_eq_up.mpr h.tunnel)

omit [DecidableEq Addr] [DecidableEq S] in
theorem Undisturbed.current_ne (h : Undisturbed t c m) (hu : u ≠ t) :
    m.backend.currentTunnel ≠ some u := by
  rw [h.tunnel]
  exact fun heq => hu (Option.some.inj heq).symm

omit [DecidableEq Addr] [DecidableEq S] in
theorem Undisturbed.state_eq_down (h : Undisturbed t c m) (hu : u ≠ t) : m.state u = .down :=
  (h.agree u).trans (GoBackend.getState_eq_down.mpr (h.current_ne hu))

omit [DecidableEq Addr] [DecidableEq S] in
theorem Undisturbed.of_backend {m' : StoredManager (ConfigObject Addr) S} (h : Undisturbed t c m)
    (hacc : m'.Accounted) (hbackend : m'.backend = m.backend) (hmem : t ∈ m'.tunnelMap) :
    Undisturbed t c m' := by
  have hstate : ∀ u, m'.state u = m.state u :=
    fun u => congrFun (congrArg GoBackend.notified hbackend) u
  constructor
  · exact hacc
  · intro u
    rw [hstate u, h.agree u, hbackend]
  · exact hmem
  · rw [hbackend]
    exact h.tunnel
  · rw [hbackend]
    exact h.config

theorem Undisturbed.removeAll (i : Nat) (m : StoredManager (ConfigObject Addr) S)
    (tunnels : List Nat) (h : Undisturbed t c m)
    (hmem : ∀ u ∈ tunnels, u ∈ m.tunnelMap ∧ u ≠ t) (hnodup : tunnels.Nodup) :
    let after := removeAll endpoints o i m tunnels
    Undisturbed t c after ∧ after.name = m.name ∧
      after.names = namesAfterRemoval o i m.names (tunnels.map m.name) ∧
      after.backend = m.backend := by
  induction tunnels generalizing i m with
  | nil => exact ⟨h, rfl, rfl, rfl⟩
  | cons u tunnels ih =>
    obtain ⟨hu, hne⟩ := hmem u List.mem_cons_self
    obtain ⟨hfresh, hnodup⟩ := List.nodup_cons.mp hnodup
    have hdown : m.state u ≠ .up := by
      rw [h.state_eq_down hne]
      exact State.noConfusion
    obtain ⟨hacc, hbackend, hname, hnames, hmap⟩ :=
      StoredManager.delete_of_down endpoints h.accounted (o.removing i) hu hdown (o.deletes i)
    have hnext : Undisturbed t c (m.delete endpoints (o.removing i) u (o.deletes i)) :=
      h.of_backend hacc hbackend ((hmap t hne.symm).mpr h.mem)
    obtain ⟨hafter, hname', hnames', hbackend'⟩ := ih (i + 1) _ hnext (by
      intro v hv
      have hvu : v ≠ u := fun heq => hfresh (heq ▸ hv)
      obtain ⟨hv, hvt⟩ := hmem v (List.mem_cons_of_mem u hv)
      exact ⟨(hmap v hvu).mpr hv, hvt⟩) hnodup
    simp only [HandshakeViewModel.removeAll]
    refine ⟨hafter, hname'.trans hname, ?_, hbackend'.trans hbackend⟩
    rw [hnames', hnames, hname]
    rfl

theorem Undisturbed.updateOne (i reference : Nat) (h : Undisturbed t c m) (remote : RemoteConfig)
    (hmiss : remote.name = m.name t → (parse net remote.configContent).isOk = true →
      containsKey TunnelComparator.compare m.names (m.name t) = false) :
    let after := updateOne net endpoints o i reference m remote
    Undisturbed t c after ∧ after.name t = m.name t ∧
      after.names = namesAfterEntry net o i m.names remote ∧
      downTransitions after t = downTransitions m t := by
  unfold HandshakeViewModel.updateOne namesAfterEntry
  cases hparse : parse net remote.configContent with
  | error e =>
    refine ⟨h, rfl, ?_, rfl⟩
    exact (if_neg fun hnew => nomatch hnew.1).symm
  | ok contents =>
    rw [hparse] at hmiss
    by_cases hfound : containsKey TunnelComparator.compare m.names remote.name = true
    · obtain ⟨u, hget, hu, hname⟩ := get_of_containsKey TunnelComparator.eq_of_compare_eq_zero hfound
      have hmem : remote.name ∈ m.names :=
        mem_of_containsKey TunnelComparator.eq_of_compare_eq_zero hfound
      -- the name found is not that of the running tunnel
      have hne : u ≠ t := by
        intro heq
        rw [heq] at hname
        have hmissed := hmiss hname.symm rfl
        rw [hname, hfound] at hmissed
        cases hmissed
      have hdown := h.state_eq_down hne
      have hcurrent := h.current_ne hne
      obtain ⟨hacc, hbackend, hmap, hname'⟩ := StoredManager.setTunnelConfig_of_down endpoints
        h.accounted (o.updating i) hu hdown hcurrent ⟨reference, contents⟩ (o.writes i)
      simp only [if_pos hfound, hget]
      refine ⟨h.of_backend hacc hbackend (hmap ▸ h.mem), congrFun hname' t, ?_, ?_⟩
      · rw [if_neg fun hnew => hnew.2.2.1 hmem]
        unfold StoredManager.names
        rw [hmap, hname']
      · rw [downTransitions, hbackend]
        rfl
    · simp only [if_neg hfound]
      by_cases hnew : isNameInvalid remote.name = false ∧ remote.name ∉ m.names ∧
          o.writes i = true
      · obtain ⟨hvalid, hnew, hwrites⟩ := hnew
        have hlt : t < m.nextTunnel := h.accounted.known t h.mem
        have hfresh : m.nextTunnel ≠ t := by omega
        have hacc := h.accounted.create remote.name
          (⟨reference, contents⟩ : ConfigObject Addr) (o.writes i)
        obtain ⟨hnames, -, -, hbackend, hmap⟩ := StoredManager.create_of_notMem h.accounted hvalid
          hnew (⟨reference, contents⟩ : ConfigObject Addr)
        have hname := (StoredManager.create_of_lt m remote.name
          (some (⟨reference, contents⟩ : ConfigObject Addr)) true hlt).2.1
        rw [hwrites] at hacc ⊢
        refine ⟨⟨hacc, ?_, (hmap t).mpr (.inr h.mem), ?_, ?_⟩, hname, ?_, ?_⟩
        · -- the new tunnel is down on both sides
          show GoBackend.Told _
          rw [hbackend, GoBackend.notify_told_iff h.agree]
          exact (GoBackend.getState_eq_down.mpr (h.current_ne hfresh)).symm
        · rw [hbackend]
          exact h.tunnel
        · rw [hbackend]
          exact h.config
        · rw [hnames, if_pos ⟨rfl, hvalid, hnew, rfl⟩]
        · rw [downTransitions, hbackend]
          exact List.count_cons_of_ne fun heq => hfresh (congrArg Prod.fst heq)
      · rw [StoredManager.create_eq_self h.accounted hnew]
        exact ⟨h, rfl, (if_neg fun hall => hnew hall.2).symm, rfl⟩

theorem setTunnelConfig_backend (answers : GoBackend.Answers S)
    (m : StoredManager (ConfigObject Addr) S) (t : Nat) (config : ConfigObject Addr)
    (saves : Bool) :
    (m.setTunnelConfig endpoints answers t config saves).backend =
      (GoBackend.setState endpoints answers m.backend t (m.state t) (some config)).state := by
  simp only [StoredManager.setTunnelConfig, TunnelManager.setTunnelConfig]
  split
  · rfl
  · split <;> rfl

theorem updateOne_log (i reference : Nat) (m : StoredManager (ConfigObject Addr) S)
    (remote : RemoteConfig) :
    m.backend.log <:+ (updateOne net endpoints o i reference m remote).backend.log := by
  unfold HandshakeViewModel.updateOne
  split
  · exact List.suffix_refl _
  · split
    · split
      · rw [setTunnelConfig_backend]
        exact (GoBackend.setState_log endpoints _ m.backend _ _ _).suffix
      · exact List.suffix_refl _
    · rename_i contents _ _
      rcases StoredManager.create_cases m remote.name (some ⟨reference, contents⟩) (o.writes i)
        with heq | ⟨c, heq⟩
      · rw [heq]
      · rw [heq, (StoredManager.addBack_fields _ _ _).1]
        exact List.suffix_cons _ _

theorem updateAll_log (i reference : Nat) (m : StoredManager (ConfigObject Addr) S)
    (remotes : List RemoteConfig) :
    m.backend.log <:+ (updateAll net endpoints o i reference m remotes).backend.log := by
  induction remotes generalizing i reference m with
  | nil => exact List.suffix_refl _
  | cons remote remotes ih =>
    exact (updateOne_log net endpoints o i reference m remote).trans (ih _ _ _)

/-- An entry that finds the running tunnel takes it down, as its config object is a new one. -/
theorem Undisturbed.updateOne_restarts (i : Nat) {reference : Nat} (h : Undisturbed t c m)
    (hold : c.reference < reference) {remote : RemoteConfig} (hname : remote.name = m.name t)
    (hparse : (parse net remote.configContent).isOk = true)
    (hfound : containsKey TunnelComparator.compare m.names (m.name t) = true) :
    downTransitions m t <
      downTransitions (HandshakeViewModel.updateOne net endpoints o i reference m remote) t := by
  unfold HandshakeViewModel.updateOne
  obtain ⟨contents, hcontents⟩ := Loops.exists_ok_iff.mpr hparse
  rw [hcontents]
  rw [← hname] at hfound
  obtain ⟨u, hget, hu, hname'⟩ := get_of_containsKey TunnelComparator.eq_of_compare_eq_zero hfound
  have hut : u = t := h.accounted.eq_of_name hu h.mem (hname'.trans hname)
  subst hut
  have hne : (some ⟨reference, contents⟩ : Option (ConfigObject Addr)) ≠
      m.backend.currentConfig := by
    rw [h.config]
    intro heq
    have href : reference = c.reference := congrArg ConfigObject.reference (Option.some.inj heq)
    omega
  obtain ⟨_, hrun⟩ := h.accounted.sound.running h.tunnel
  have hstop : m.backend.stopCurrent.log = (u, .down) :: m.backend.log := by
    simp only [GoBackend.stopCurrent, GoBackend.setStateDown, h.tunnel, if_neg hrun.handle_ne]
    rfl
  have hlog := GoBackend.setState_up_log endpoints (o.updating i) m.backend u
    (show State.up.resolve (m.backend.getState u) = .up from rfl) fun hkeep => hne hkeep.2
  have hcount := hlog.suffix.sublist.count_le (u, .down)
  rw [hstop, List.count_cons_self] at hcount
  simp only [if_pos hfound, hget, downTransitions, setTunnelConfig_backend, h.state_eq_up]
  omega

theorem updateAll_downTransitions_iff (i reference : Nat) (m : StoredManager (ConfigObject Addr) S)
    (remotes : List RemoteConfig) (h : Undisturbed t c m) (hold : c.reference < reference) :
    downTransitions (updateAll net endpoints o i reference m remotes) t = downTransitions m t ↔
      Misses net o (m.name t) i m.names remotes := by
  -- up to the first entry that finds the tunnel, it runs on with the same config object
  induction remotes generalizing i reference m with
  | nil => exact iff_of_true rfl trivial
  | cons remote remotes ih =>
    rw [updateAll, Misses]
    by_cases hmiss : remote.name = m.name t →
        (parse net remote.configContent).isOk = true →
          containsKey TunnelComparator.compare m.names (m.name t) = false
    · obtain ⟨hafter, hname, hnames, hquiet⟩ :=
        h.updateOne net endpoints o i reference remote hmiss
      have hrest := ih (i + 1) (reference + 1) _ hafter (by omega)
      rw [hname, hnames, hquiet] at hrest
      exact hrest.trans (and_iff_right hmiss).symm
    · have hfirst : remote.name = m.name t ∧
          (parse net remote.configContent).isOk = true ∧
          containsKey TunnelComparator.compare m.names (m.name t) = true := by
        simpa using hmiss
      obtain ⟨hname, hparse, hfound⟩ := hfirst
      have hdown := h.updateOne_restarts net endpoints o i hold hname hparse hfound
      have hlater := (updateAll_log net endpoints o (i + 1) (reference + 1)
        (updateOne net endpoints o i reference m remote) remotes).sublist.count_le (t, .down)
      unfold downTransitions at hdown ⊢
      exact iff_of_false (by omega) fun hmisses => hmiss hmisses.1

/-- A synchronisation that lists the running tunnel makes no `DOWN` transition of it exactly when no
entry finds it, whatever the texts say. -/
theorem undisturbed_iff {m : StoredManager (ConfigObject Addr) S} (h : Undisturbed t c m)
    {reference : Nat} (hold : c.reference < reference) {remotes : List RemoteConfig}
    (hlisted : m.name t ∈ remotes.map RemoteConfig.name) :
    downTransitions (processConfigs net endpoints o reference m remotes) t =
        downTransitions m t ↔
      Misses net o (m.name t) 0
        (namesAfterRemoval o 0 m.names ((tunnelsToRemove m remotes).map m.name)) remotes := by
  have hmem : ∀ u ∈ tunnelsToRemove m remotes, u ∈ m.tunnelMap ∧ u ≠ t := by
    intro u hu
    obtain ⟨hmap, hremoved⟩ := List.mem_filter.mp hu
    refine ⟨hmap, fun heq => ?_⟩
    rw [heq] at hremoved
    exact of_decide_eq_true hremoved hlisted
  have hnodup : (tunnelsToRemove m remotes).Nodup :=
    (List.Nodup.of_map _ h.accounted.nodup).filter _
  obtain ⟨hafter, hname, hnames, hbackend⟩ :=
    h.removeAll endpoints o 0 m (tunnelsToRemove m remotes) hmem hnodup
  have hupdates := updateAll_downTransitions_iff net endpoints o 0 reference _ remotes hafter hold
  rw [hname, hnames] at hupdates
  rw [← hupdates, processConfigs, downTransitions, downTransitions, downTransitions, hbackend]

def builtUp (names : List Name) (tunnel : Nat) : StoredManager (ConfigObject Bool) Nat :=
  { built names with
    toTunnelManager := (TunnelManager.setTunnelState (fun _ => []) ⟨.working 0, .working 0⟩ none
      (built names).toTunnelManager tunnel .up).state }

theorem builtUp_undisturbed :
    Undisturbed 0 ⟨0, ConfigRequests.plainConfig⟩ (builtUp [['a'], ['A']] 0) := by
  have hbuilt := built_accounted [['a'], ['A']]
  have hlog : (builtUp [['a'], ['A']] 0).backend.log =
      [(0, .up), (0, .up), (1, .down), (0, .down)] := by
    decide +kernel
  refine ⟨⟨hbuilt.nodup, hbuilt.files, hbuilt.known, .inr ⟨0, ⟨0, ConfigRequests.plainConfig⟩, ?_⟩⟩,
    ?_, by decide +kernel, rfl, rfl⟩
  · refine ⟨rfl, rfl, by decide +kernel, fun i => ?_⟩
    show i ∈ ({0} : Finset Int) ↔ i = 0
    exact Finset.mem_singleton
  · intro u
    have hup : State.of (decide (some 0 = some u)) = if u = 0 then .up else .down := by
      cases u <;> rfl
    show lastTold (builtUp [['a'], ['A']] 0).backend.log u = State.of (decide (some 0 = some u))
    rw [hlog, hup]
    simp only [lastTold, Function.update_apply]
    grind

/-- Tunnels `a` and `A` exist and `a` is up.  The search misses `a`, so it is left alone. -/
theorem undisturbed_missed :
    downTransitions (processConfigs exampleNet (fun _ => []) workingAnswers 1
        (builtUp [['a'], ['A']] 0) [⟨['a'], keyText⟩, ⟨['A'], keyText⟩]) 0 =
      downTransitions (builtUp [['a'], ['A']] 0) 0 := by
  have hname : (builtUp [['a'], ['A']] 0).name 0 = ['a'] := by decide +kernel
  have hkept : namesAfterRemoval workingAnswers 0 (builtUp [['a'], ['A']] 0).names
      ((tunnelsToRemove (builtUp [['a'], ['A']] 0)
        [⟨['a'], keyText⟩, ⟨['A'], keyText⟩]).map
          (builtUp [['a'], ['A']] 0).name) = [['A'], ['a']] := by
    decide +kernel
  have hmisses : Misses exampleNet workingAnswers ['a'] 0 [['A'], ['a']]
      [⟨['a'], keyText⟩, ⟨['A'], keyText⟩] := by
    have hsearch : containsKey TunnelComparator.compare [['A'], ['a']] ['a'] = false := by
      decide +kernel
    refine ⟨fun _ _ => hsearch, fun heq => ?_, trivial⟩
    exact absurd heq (by decide)
  apply (undisturbed_iff exampleNet (fun _ => []) workingAnswers builtUp_undisturbed
    (by decide) _).mpr
  · rw [hname, hkept]
    exact hmisses
  · rw [hname]
    decide +kernel

/-- Tunnel `a` is up with the config the server lists for it, and is taken down. -/
theorem synchronised_tunnel_restarts :
    let m := builtUp [['a']] 0
    m.state 0 = .up ∧ m.name 0 = ['a'] ∧
      m.backend.currentConfig.map ConfigObject.contents =
        (parse exampleNet keyText).toOption ∧
      (processConfigs exampleNet (fun _ => []) workingAnswers 1 m
        [⟨['a'], keyText⟩]).backend.log = (0, .up) :: (0, .down) :: m.backend.log := by
  intro m
  refine ⟨by decide +kernel, by decide +kernel, by decide +kernel, by decide +kernel⟩

end HandshakeViewModel

end Amnezia.Model
