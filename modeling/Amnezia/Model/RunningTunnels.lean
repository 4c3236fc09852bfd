import Amnezia.Backend.Notifications
import Amnezia.Model.StoredManager

/-!
# The persisted set of running tunnels

`UserKnobs.runningTunnels` is what `restoreState` brings up at the next start.  Only `saveState`
writes it, and only `setTunnelState` calls `saveState`; a tunnel also goes down, or gets another
name, on other ways.
-/

namespace Amnezia.Model

open Amnezia.Backend Amnezia.Databinding

namespace StoredManager

variable {C S : Type*}

/-- The requests, with what the store, the backend and the platform answer to them, and the two
messages to the service. -/
inductive Operation (C S : Type*) where
  | create (name : Name) (config : Option C) (writes : Bool)
  | delete (answers : GoBackend.Answers S) (tunnel : Nat) (deletes : Bool)
  | setTunnelName (answers : GoBackend.Answers S) (tunnel : Nat) (name : Name) (renames : Bool)
  | setTunnelConfig (answers : GoBackend.Answers S) (saves : Bool) (tunnel : Nat) (config : C)
  | setTunnelState (answers : GoBackend.Answers S) (load : Option C) (tunnel : Nat)
      (requested : State)
  | disconnect (service : S)
  | destroy (service : S)

def Operation.target : Operation C S → Option Nat
  | .delete _ tunnel _ | .setTunnelName _ tunnel _ _ | .setTunnelConfig _ _ tunnel _
  | .setTunnelState _ _ tunnel _ => some tunnel
  | .create _ _ _ | .disconnect _ | .destroy _ => none

def upNames (m : StoredManager C S) : List Name :=
  (m.tunnelMap.filter fun t => m.state t = .up).map m.name

def Saved (m : StoredManager C S) : Prop := ∀ n, n ∈ m.runningTunnels ↔ n ∈ m.upNames

variable {m : StoredManager C S}

theorem mem_upNames {n : Name} :
    n ∈ m.upNames ↔ ∃ t, (t ∈ m.tunnelMap ∧ m.state t = .up) ∧ m.name t = n := by
  simp [upNames]

theorem Saved.of_same {m' : StoredManager C S} (h : m.Saved)
    (hrunning : m'.runningTunnels = m.runningTunnels)
    (hup : ∀ t, (t ∈ m'.tunnelMap ∧ m'.state t = .up) ↔ (t ∈ m.tunnelMap ∧ m.state t = .up))
    (hname : ∀ t, m.state t = .up → m'.name t = m.name t) : m'.Saved := by
  intro n
  rw [hrunning, h n, mem_upNames, mem_upNames]
  apply exists_congr
  intro t
  rw [hup t]
  apply and_congr_right
  intro ht
  rw [hname t ht.2]

structure Settled (m : StoredManager C S) : Prop where
  sound : GoBackend.Sound m.backend
  told : GoBackend.CurrentTold m.backend
  known : ∀ t ∈ m.tunnelMap, t < m.nextTunnel
  /-- A number not in use yet stands for no tunnel that is up. -/
  unused : ∀ t, m.nextTunnel ≤ t → m.state t ≠ .up
  saved : m.Saved

variable {t : Nat}

theorem Settled.getState_eq_down (h : m.Settled) (ht : m.state t ≠ .up) :
    m.backend.getState t = .down :=
  GoBackend.getState_eq_down.mpr fun hcurrent => ht (h.told t hcurrent)

variable {s : GoBackend Nat C S}

theorem Settled.of_other {m' : StoredManager C S} (h : m.Settled) (hlt : t < m.nextTunnel)
    (hdown : m.state t ≠ .up) (hsound : GoBackend.Sound m'.backend)
    (hcurrent : m'.backend.currentTunnel = m.backend.currentTunnel)
    (hrunning : m'.runningTunnels = m.runningTunnels) (hnext : m'.nextTunnel = m.nextTunnel)
    (hdown' : m'.state t ≠ .up)
    (hother : ∀ u, u ≠ t → (u ∈ m'.tunnelMap ↔ u ∈ m.tunnelMap) ∧ m'.state u = m.state u ∧
      m'.name u = m.name u) : m'.Settled := by
  have hne : ∀ u, m.state u = .up → u ≠ t := fun u hu heq => hdown (heq ▸ hu)
  constructor
  · exact hsound
  · intro u hu
    rw [hcurrent] at hu
    have hup : m.state u = .up := h.told u hu
    exact (hother u (hne u hup)).2.1.trans hup
  · intro u hu
    rw [hnext]
    by_cases heq : u = t
    · rw [heq]
      exact hlt
    · exact h.known u ((hother u heq).1.mp hu)
  · intro u hu
    rw [hnext] at hu
    have heq : u ≠ t := by omega
    rw [(hother u heq).2.1]
    exact h.unused u hu
  · apply h.saved.of_same hrunning
    · intro u
      by_cases heq : u = t
      · rw [heq]
        exact iff_of_false (fun hu => hdown' hu.2) fun hu => hdown hu.2
      · rw [(hother u heq).1, (hother u heq).2.1]
    · intro u hu
      exact (hother u (hne u hu)).2.2

theorem Settled.remove (h : m.Settled) (hlt : t < m.nextTunnel) (hdown : m.state t ≠ .up) :
    (m.remove t).Settled :=
  h.of_other hlt hdown h.sound rfl rfl rfl hdown
    fun _ hu => ⟨List.mem_erase_of_ne hu, rfl, rfl⟩

theorem Settled.addBack (h : m.Settled) (hlt : t < m.nextTunnel) (hdown : m.state t ≠ .up)
    (wasLastUsed : Bool) : (m.addBack t wasLastUsed).Settled := by
  obtain ⟨hbackend, hname, hrunning, hnext⟩ := addBack_fields m t wasLastUsed
  have hstate : ∀ u, (m.addBack t wasLastUsed).state u = m.state u :=
    fun u => congrFun (congrArg GoBackend.notified hbackend) u
  apply h.of_other hlt hdown
  · rw [hbackend]
    exact h.sound
  · rw [hbackend]
  · exact hrunning
  · exact hnext
  · rw [hstate]
    exact hdown
  · intro u hu
    exact ⟨mem_addBack hu, hstate u, congrFun hname u⟩

theorem Settled.created (h : m.Settled) (name : Name) (config : C) :
    (m.created name config).Settled := by
  have hnew : m.state m.nextTunnel ≠ .up := h.unused _ (Nat.le_refl _)
  have hne : ∀ t, m.state t = .up → t ≠ m.nextTunnel := fun t ht heq => hnew (heq ▸ ht)
  have hstate : ∀ t, Function.update m.backend.notified m.nextTunnel .down t = .up ↔
      m.state t = .up := by
    intro t
    by_cases heq : t = m.nextTunnel
    · rw [heq, Function.update_self]
      exact iff_of_false State.noConfusion hnew
    · rw [Function.update_of_ne heq]
      rfl
  constructor
  · exact GoBackend.notify_sound h.sound _ _
  · intro t ht
    exact (hstate t).mpr (h.told t ht)
  · intro t ht
    exact Nat.lt_succ_of_lt (h.known t ht)
  · intro t ht hup
    have hle : m.nextTunnel + 1 ≤ t := ht
    exact h.unused t (by omega) ((hstate t).mp hup)
  · apply h.saved.of_same
    · rfl
    · intro t
      exact and_congr_right fun _ => hstate t
    · intro t ht
      exact Function.update_of_ne (hne t ht) _ _

theorem Settled.create (h : m.Settled) (name : Name) (config : Option C) (writes : Bool) :
    (m.create name config writes).Settled := by
  rcases create_cases m name config writes with heq | ⟨c, heq⟩
  · rw [heq]
    exact h
  · rw [heq]
    apply (h.created name c).addBack (Nat.lt_succ_self _)
    show Function.update m.backend.notified m.nextTunnel .down m.nextTunnel ≠ .up
    rw [Function.update_self]
    exact State.noConfusion

theorem Settled.getTunnelState (h : m.Settled) (hlt : t < m.nextTunnel) (hdown : m.state t ≠ .up)
    (renames : Bool) :
    let asked := (calls renames).getTunnelState (fun m => m.backend.getState) m t
    asked.Settled ∧ asked.state t ≠ .up := by
  intro asked
  have hasked : asked.state t = .down := by
    show Function.update m.backend.notified t (m.backend.getState t) t = .down
    rw [Function.update_self]
    exact h.getState_eq_down hdown
  have hdown' : asked.state t ≠ .up := by
    rw [hasked]
    exact State.noConfusion
  have hsound := GoBackend.notify_sound h.sound t (m.backend.getState t)
  exact ⟨h.of_other hlt hdown hsound rfl rfl rfl hdown'
    fun u hu => ⟨Iff.rfl, Function.update_of_ne hu _ _, rfl⟩, hdown'⟩

theorem Settled.current_ne (h : m.Settled) (ht : m.nextTunnel ≤ t) :
    m.backend.currentTunnel ≠ some t :=
  fun hcurrent => h.unused t ht (h.told t hcurrent)

theorem Settled.of_backend (h : m.Settled) (hsound : GoBackend.Sound s)
    (htold : GoBackend.CurrentTold s) (hup : ∀ t, s.notified t = .up ↔ m.state t = .up)
    (config : Nat → Option C) (store : Name → Option C) :
    Settled { m with backend := s, config := config, store := store } := by
  constructor
  · exact hsound
  · exact htold
  · exact h.known
  · intro t ht hsame
    exact h.unused t ht ((hup t).mp hsame)
  · apply h.saved.of_same
    · rfl
    · intro t
      exact and_congr_right fun _ => hup t
    · intro t _
      rfl

theorem Settled.of_sameDevice (h : m.Settled) (hsame : GoBackend.SameDevice s m.backend) :
    Settled { m with backend := s } := by
  refine h.of_backend (hsame.sound h.sound) (fun t ht => ?_) (fun t => ?_) m.config m.store
  · rw [hsame.told]
    exact h.told t (hsame.tunnel.symm.trans ht)
  · rw [hsame.told]
    rfl

theorem onDestroy_same (h : GoBackend.Sound s) {x : S}
    (hkeep : s.currentTunnel = none ∨ s.owned x = false) :
    GoBackend.SameDevice (s.onDestroy x) s := by
  rcases hkeep with hnone | howned
  · rcases GoBackend.onDestroy_cases h x with hsame | ⟨t, c, hrun, -⟩
    · exact hsame
    · rw [hrun.tunnel] at hnone
      cases hnone
  · unfold GoBackend.onDestroy
    rw [howned]
    exact ⟨rfl, rfl, rfl, rfl, rfl⟩

theorem onDisconnect_same (h : GoBackend.Sound s) {x : S}
    (hkeep : s.currentTunnel = none ∨ s.owned x = false) :
    GoBackend.SameDevice (s.onDisconnect x) s := by
  rcases hkeep with hnone | howned
  · rcases GoBackend.onDisconnect_cases h x with hsame | ⟨t, c, hrun, -⟩
    · exact hsame
    · rw [hrun.tunnel] at hnone
      cases hnone
  · have howned' : (s.complete x).owned x = false := howned
    simp only [GoBackend.onDisconnect, howned']
    exact ⟨rfl, rfl, rfl, rfl, rfl⟩

variable [DecidableEq S] [DecidableEq C] (endpoints : C → List (Option (List Char)))

def perform (m : StoredManager C S) : Operation C S → StoredManager C S
  | .create name config writes => m.create name config writes
  | .delete o tunnel deletes => delete endpoints o m tunnel deletes
  | .setTunnelName o tunnel name renames => setTunnelName endpoints o m tunnel name renames
  | .setTunnelConfig o saves tunnel config =>
    setTunnelConfig endpoints o m tunnel config saves
  | .setTunnelState o load tunnel requested =>
    { m with
      toTunnelManager :=
        (TunnelManager.setTunnelState endpoints o load m.toTunnelManager tunnel requested).state }
  | .disconnect service => { m with backend := m.backend.onDisconnect service }
  | .destroy service => { m with backend := m.backend.onDestroy service }

/-- A request is about a tunnel object that exists, in the map or taken out of it. -/
def step (m : StoredManager C S) (op : Operation C S) : StoredManager C S :=
  if ∀ tunnel ∈ op.target, tunnel < m.nextTunnel then perform endpoints m op else m

def KeepsUp (m : StoredManager C S) : Operation C S → Prop
  | .create _ _ _ | .setTunnelState _ _ _ _ => True
  | .delete _ tunnel _ => m.state tunnel ≠ .up
  | .setTunnelName _ tunnel name _ =>
    m.state tunnel ≠ .up ∨ isNameInvalid name = true ∨
      containsKey TunnelComparator.compare m.names name = true
  | .setTunnelConfig o _ tunnel config =>
    m.state tunnel = .down ∨
      m.state tunnel = .up ∧
        (m.backend.currentTunnel = none ∨
          m.backend.currentTunnel = some tunnel ∧
            ¬TunnelManager.LosesTunnel endpoints m.backend o tunnel .up (some config))
  | .disconnect service | .destroy service =>
    m.backend.currentTunnel = none ∨ m.backend.owned service = false

theorem Settled.delete (h : m.Settled) (o : GoBackend.Answers S) (hlt : t < m.nextTunnel)
    (hdown : m.state t ≠ .up) (deletes : Bool) : (delete endpoints o m t deletes).Settled := by
  have hremoved : (m.remove t).Settled := h.remove hlt hdown
  rw [delete_of_ne_up endpoints o hdown]
  split
  · exact ⟨hremoved.sound, hremoved.told, hremoved.known, hremoved.unused, hremoved.saved⟩
  · -- the file could not be deleted: the tunnel is put back
    exact hremoved.addBack hlt hdown _

theorem Settled.setTunnelName (h : m.Settled) (o : GoBackend.Answers S) (hlt : t < m.nextTunnel)
    (name : Name) (renames : Bool) (hkeep : m.state t ≠ .up ∨ isNameInvalid name = true ∨
      containsKey TunnelComparator.compare m.names name = true) :
    (setTunnelName endpoints o m t name renames).Settled := by
  unfold StoredManager.setTunnelName
  rcases hkeep with hdown | hrejected
  · have hremoved : (m.remove t).Settled := h.remove hlt hdown
    have hasked := hremoved.getTunnelState hlt hdown renames
    rcases (calls renames).setTunnelName_of_ne_up (setState endpoints o · · .down none)
        (setState endpoints o · · .up) (fun m => m.backend.getState) (m := m) (t := t) hdown name with
      hsame | hfailed | ⟨m', hstore, hrenamed⟩
    · rw [hsame]
      exact h
    · rw [hfailed, addBack_snd]
      exact hasked.1.addBack hlt hasked.2 _
    · rw [hrenamed, addBack_snd]
      simp only [calls, Option.ite_none_left_eq_some, Option.some.injEq] at hstore
      rw [← hstore.2]
      apply Settled.addBack
      · exact hremoved.of_other hlt hdown hremoved.sound rfl rfl rfl hdown
          fun u hu => ⟨Iff.rfl, rfl, Function.update_of_ne hu _ _⟩
      · exact hlt
      · exact hdown
  · rw [(calls renames).setTunnelName_of_rejected _ _ _ hrejected]
    exact h

theorem setState_state_up (hsound : GoBackend.Sound s) (htold : GoBackend.CurrentTold s)
    (o : GoBackend.Answers S) {c : C} (hup : s.notified t = .up)
    (hkeep : s.currentTunnel = none ∨ s.currentTunnel = some t ∧
      ¬TunnelManager.LosesTunnel endpoints s o t .up (some c)) :
    (GoBackend.setState endpoints o s t .up (some c)).state.notified t = .up := by
  have htold' := GoBackend.setState_currentTold endpoints o hsound htold t .up (some c)
  have hwritten := TunnelManager.written_iff endpoints hsound o t .up c
  rcases hkeep with hnone | ⟨hcurrent, hkept⟩
  · -- nothing runs: the tunnel comes up, or nobody is told anything
    have hidle : GoBackend.Idle s := by
      rcases hsound with hidle | ⟨u, c', hrun⟩
      · exact hidle
      · rw [hrun.tunnel] at hnone
        cases hnone
    have hstop : s.stopCurrent = s := by
      unfold GoBackend.stopCurrent
      rw [hnone]
    have hdown : s.getState t = .down :=
      GoBackend.getState_of_none hnone t
    rcases GoBackend.setStateUp_idle endpoints o.bringUp hidle t (some c) with
      ⟨⟨e, he⟩, -, hsame⟩ | ⟨-, c', -, hcan, -⟩
    · have hstate : (GoBackend.setState endpoints o s t .up (some c)).state =
          (GoBackend.setStateUp endpoints o.bringUp s t (some c)).state := by
        simp only [GoBackend.setState, GoBackend.setStateBody, GoBackend.attempt, hstop, hnone, he]
        simp [State.resolve]
      rw [hstate, hsame.told]
      exact hup
    · exact htold' t (GoBackend.setState_up_of_can endpoints o hsound t hcan).2
  · -- the tunnel itself runs, and is not lost
    have hafter := hwritten.mpr hkept
    apply htold' t
    rw [← GoBackend.getState_eq_up, ← hafter]
    have hbefore : s.getState t = .up := GoBackend.getState_eq_up.mpr hcurrent
    have hends := GoBackend.setState_ends endpoints o hsound t .up (some c)
    generalize GoBackend.setState endpoints o s t .up (some c) = out at hends
    cases hends with
    | unchanged _ => exact hbefore
    | up _ _ _ _ _ => rfl
    | failed _ _ _ _ => exact hbefore
    | undone _ _ _ _ _ _ _ _ => exact hbefore
    | lost _ _ _ _ _ _ _ _ _ _ _ _ => exact hbefore
    | down _ hdown _ _ => cases hdown

theorem Settled.setTunnelConfig (h : m.Settled) (o : GoBackend.Answers S) (saves : Bool) (t : Nat)
    (c : C) (hkeep : KeepsUp endpoints m (.setTunnelConfig o saves t c)) :
    (perform endpoints m (.setTunnelConfig o saves t c)).Settled := by
  have hsound := GoBackend.setState_sound endpoints o h.sound t (m.state t) (some c)
  have htold := GoBackend.setState_currentTold endpoints o h.sound h.told t (m.state t) (some c)
  have hup : ∀ u, (GoBackend.setState endpoints o m.backend t (m.state t) (some c)).state.notified
      u = .up ↔ m.state u = .up := by
    intro u
    rcases hkeep with hdown | ⟨hstate, hkept⟩
    · -- a tunnel that is down is not the current one, and the call does nothing
      have hcurrent : m.backend.currentTunnel ≠ some t := by
        intro hcurrent
        have hup : m.state t = .up := h.told t hcurrent
        rw [hdown] at hup
        cases hup
      rw [hdown, GoBackend.setState_down_of_ne endpoints o hcurrent]
      rfl
    · rw [hstate]
      by_cases heq : u = t
      · rw [heq, hstate]
        exact iff_of_true (setState_state_up endpoints h.sound h.told o hstate hkept) rfl
      · have hcurrent : m.backend.currentTunnel ≠ some u := by
          rcases hkept with hnone | ⟨hsome, -⟩
          · rw [hnone]
            exact (Option.some_ne_none u).symm
          · rw [hsome]
            exact fun hsame => heq (Option.some.inj hsame).symm
        rw [GoBackend.setState_notified_of_ne endpoints o m.backend heq hcurrent]
        rfl
  simp only [perform, StoredManager.setTunnelConfig, TunnelManager.setTunnelConfig]
  split
  · exact h.of_backend hsound htold hup m.config _
  · split
    · exact h.of_backend hsound htold hup _ _
    · exact h.of_backend hsound htold hup m.config _

theorem written_eq_up (hsound : GoBackend.Sound s) (htold : GoBackend.CurrentTold s)
    (o : GoBackend.Answers S) (t : Nat) (requested : State) (c : C)
    (hcurrent : (GoBackend.setState endpoints o s t requested (some c)).state.currentTunnel =
      some t) :
    TunnelManager.written (s.notified t)
      (GoBackend.setState endpoints o s t requested (some c)).result = .up := by
  have hends := GoBackend.setState_ends endpoints o hsound t requested (some c)
  generalize GoBackend.setState endpoints o s t requested (some c) = out at hends hcurrent
  cases hends with
  | unchanged _ => exact GoBackend.getState_eq_up.mpr hcurrent
  | up _ _ _ _ _ => rfl
  | failed s' _ _ hidle =>
    rw [hidle.tunnel] at hcurrent
    cases hcurrent
  | undone s' _ u _ hbefore _ _ hrun =>
    -- the tunnel that ran before runs again, so it is the one asked about
    rw [hrun.tunnel, ← hbefore.tunnel] at hcurrent
    exact htold t hcurrent
  | lost s' _ _ _ _ _ _ _ _ _ _ hidle =>
    rw [hidle.tunnel] at hcurrent
    cases hcurrent
  | down s' _ _ hidle =>
    rw [hidle.tunnel] at hcurrent
    cases hcurrent

theorem setTunnelState_currentTold (h : m.Settled) (o : GoBackend.Answers S) (load : Option C)
    (t : Nat) (requested : State) :
    GoBackend.CurrentTold
      (TunnelManager.setTunnelState endpoints o load m.toTunnelManager t requested).state.backend := by
  rcases TunnelManager.setTunnelState_backend endpoints o load m.toTunnelManager t requested with
    ⟨-, heq⟩ | ⟨c, -, heq⟩
  · rw [heq]
    exact h.told.notify fun hcurrent => h.told t hcurrent
  · have htold := GoBackend.setState_currentTold endpoints o h.sound h.told t requested (some c)
    rw [heq]
    exact htold.notify fun hcurrent =>
      written_eq_up endpoints h.sound h.told o t requested c hcurrent

theorem setTunnelState_state_of_ne (o : GoBackend.Answers S) (load : Option C) {u : Nat}
    (hne : u ≠ t) (hcurrent : m.backend.currentTunnel ≠ some u) (requested : State) :
    (TunnelManager.setTunnelState endpoints o load m.toTunnelManager t requested).state.state u =
      m.state u := by
  unfold TunnelManager.state
  rcases TunnelManager.setTunnelState_backend endpoints o load m.toTunnelManager t requested with
    ⟨-, heq⟩ | ⟨c, -, heq⟩
  · rw [heq]
    exact Function.update_of_ne hne _ _
  · rw [heq]
    apply (Function.update_of_ne hne _ _).trans
    exact GoBackend.setState_notified_of_ne endpoints o m.backend hne hcurrent requested (some c)

theorem Settled.setTunnelState (h : m.Settled) (o : GoBackend.Answers S) (load : Option C)
    (hlt : t < m.nextTunnel) (requested : State) :
    (perform endpoints m (.setTunnelState o load t requested)).Settled := by
  obtain ⟨hmap, -, hsaved⟩ :=
    TunnelManager.setTunnelState_saves endpoints o load m.toTunnelManager t requested
  constructor
  · exact TunnelManager.call_sound endpoints h.sound (.setTunnelState o load t requested)
  · exact setTunnelState_currentTold endpoints h o load t requested
  · intro u hu
    have hmem : u ∈ m.tunnelMap := hmap ▸ hu
    exact h.known u hmem
  · intro u hu
    have hle : m.nextTunnel ≤ u := hu
    have hne : u ≠ t := by omega
    have hsame := setTunnelState_state_of_ne endpoints o load hne (h.current_ne hle) requested
    intro hup
    exact h.unused u hle (hsame.symm.trans hup)
  · intro n
    have hrunning := congrArg TunnelManager.runningTunnels hsaved
    exact iff_of_eq (congrArg (n ∈ ·) hrunning)

theorem settled_step {op : Operation C S} (h : m.Settled) (hkeep : KeepsUp endpoints m op) :
    (step endpoints m op).Settled := by
  unfold step
  split
  · rename_i hexists
    cases op with
    | create name config writes => exact h.create name config writes
    | delete o t deletes => exact h.delete endpoints o (hexists t rfl) hkeep deletes
    | setTunnelName o t name renames =>
      exact h.setTunnelName endpoints o (hexists t rfl) name renames hkeep
    | setTunnelConfig o saves t c => exact h.setTunnelConfig endpoints o saves t c hkeep
    | setTunnelState o load t requested =>
      exact h.setTunnelState endpoints o load (hexists t rfl) requested
    | disconnect x => exact h.of_sameDevice (onDisconnect_same h.sound hkeep)
    | destroy x => exact h.of_sameDevice (onDestroy_same h.sound hkeep)
  · exact h

/-- As long as the requests that do not save leave the tunnels that are up and their names alone,
the persisted set is that of the tunnels that are up. -/
theorem saved_of_keepsUp (tunnels : List Nat) (name : Nat → Name) (lastUsed : Option Nat)
    (nextTunnel : Nat) (store : Name → Option C) (hknown : ∀ t ∈ tunnels, t < nextTunnel)
    (ops : List (Operation C S))
    (hkeep : Runs.Guarded (step endpoints) (KeepsUp endpoints)
      (started tunnels name lastUsed nextTunnel store) ops) :
    ∀ m ∈ Runs.states (step endpoints) (started tunnels name lastUsed nextTunnel store) ops,
      m.Saved := by
  have hinit : (started tunnels name lastUsed nextTunnel store : StoredManager C S).Settled := by
    constructor
    · exact GoBackend.sound_initial
    · intro t ht
      cases ht
    · exact hknown
    · intro t _
      exact State.noConfusion
    · intro n
      rw [mem_upNames]
      apply iff_of_false List.not_mem_nil
      intro ⟨t, ⟨_, hup⟩, _⟩
      cases hup
  have hstep : ∀ (m : StoredManager C S) (op : Operation C S), m.Settled →
      KeepsUp endpoints m op → (step endpoints m op).Settled :=
    fun m op h hop => settled_step endpoints h hop
  intro m hm
  exact (Runs.invariant_states hstep hinit hkeep m hm).saved

/-- Tunnel `a` gets another config while it is up; tunnel `b` comes and goes. -/
theorem saved_of_keepsUp_two :
    let answers : GoBackend.Answers Nat := ⟨.working 0, .working 0⟩
    let first : StoredManager Nat Nat := started [] (fun _ => []) none 0 fun _ => none
    let ops : List (Operation Nat Nat) :=
      [.create ['a'] (some 1) true, .setTunnelState answers none 0 .up,
        .setTunnelConfig answers true 0 2, .create ['b'] (some 3) true, .delete answers 1 true]
    (Runs.run (step fun _ => []) first ops).runningTunnels = [['a']] ∧
      ∀ m ∈ Runs.states (step fun _ => []) first ops, m.Saved := by
  refine ⟨by decide +kernel, ?_⟩
  apply saved_of_keepsUp (fun _ => []) [] (fun _ => []) none 0 fun _ => none
  · intro t ht
    cases ht
  · refine ⟨trivial, trivial, .inr ⟨rfl, .inr ⟨rfl, ?_⟩⟩, trivial, ?_, trivial⟩
    · -- the new config comes up, so the tunnel is not lost
      rintro ⟨c, c', hc, -, -, -, -, hcannot, -⟩
      cases hc
      exact hcannot ⟨2, rfl, ⟨rfl, .inr ⟨rfl, 0, rfl⟩⟩, rfl, rfl, rfl, by decide⟩
    · exact State.noConfusion

/-- Tunnel `a` is up when the disconnect action takes it down, or when it is deleted, or renamed:
`a` stays persisted. -/
theorem persisted_after_disconnect :
    let answers : GoBackend.Answers Nat := ⟨.working 0, .working 0⟩
    let up : StoredManager Nat Nat := Runs.run (step fun _ => [])
      (started [] (fun _ => []) none 0 fun _ => none)
      [.create ['a'] (some 1) true, .setTunnelState answers none 0 .up]
    let disconnected := step (fun _ => []) up (.disconnect 0)
    let deleted := step (fun _ => []) up (.delete answers 0 true)
    let renamed := step (fun _ => []) up (.setTunnelName answers 0 ['b'] true)
    ¬disconnected.Saved ∧
      (disconnected.runningTunnels = [['a']] ∧ disconnected.upNames = []) ∧
      (deleted.runningTunnels = [['a']] ∧ deleted.upNames = []) ∧
      (renamed.runningTunnels = [['a']] ∧ renamed.upNames = [['b']]) := by
  intro answers up disconnected deleted renamed
  refine ⟨fun hsaved => ?_, by decide +kernel, by decide +kernel, by decide +kernel⟩
  exact absurd ((hsaved ['a']).1 (by decide +kernel)) (by decide +kernel)

end StoredManager

end Amnezia.Model
