import Amnezia.Lib.Runs
import Amnezia.Backend.GoRuns

/-!
# TunnelManager and the states of its tunnels

`ObservableTunnel.state` is written from two sides: by the backend, through `onStateChange`, and by
the manager, through `onStateChanged`.  Both end in the same field, which is the last state the
tunnel was told, so the backend's record of notifications stands for it here.
-/

namespace Amnezia.Model

open Amnezia.Backend

structure TunnelManager (T C S N : Type*) where
  backend : GoBackend T C S
  tunnelMap : List T
  name : T → N
  /-- The cached config of a tunnel. -/
  config : T → Option C
  lastUsedTunnel : Option T
  /-- The names `saveState` last stored. -/
  runningTunnels : List N

namespace TunnelManager

variable {T C S N : Type*} [DecidableEq T]

def state (m : TunnelManager T C S N) (tunnel : T) : State := m.backend.notified tunnel

def loaded (tunnels : List T) (name : T → N) (lastUsed : Option T) (saved : List N) :
    TunnelManager T C S N :=
  { backend := .initial
    tunnelMap := tunnels
    name := name
    config := fun _ => none
    lastUsedTunnel := lastUsed
    runningTunnels := saved }

def saveState (m : TunnelManager T C S N) : TunnelManager T C S N :=
  { m with runningTunnels := (m.tunnelMap.filter fun t => m.state t = .up).map m.name }

def onStateChanged (m : TunnelManager T C S N) (tunnel : T) (state : State) :
    TunnelManager T C S N :=
  { m with backend := m.backend.notify tunnel state }

def onConfigChanged (m : TunnelManager T C S N) (tunnel : T) (config : C) :
    TunnelManager T C S N :=
  { m with config := Function.update m.config tunnel (some config) }

def getConfigAsync (load : Option C) (m : TunnelManager T C S N) (tunnel : T) :
    Outcome C (TunnelManager T C S N) :=
  match m.config tunnel, load with
  | some config, _ => ⟨.ok config, m⟩
  | none, some config => ⟨.ok config, m.onConfigChanged tunnel config⟩
  | none, none => ⟨.error .platform, m⟩

variable [DecidableEq S] [DecidableEq C] (endpoints : C → List (Option (List Char)))

def setTunnelState (o : GoBackend.Answers S) (load : Option C) (m : TunnelManager T C S N)
    (tunnel : T) (requested : State) : Outcome State (TunnelManager T C S N) :=
  let before := m.state tunnel
  let got := getConfigAsync load m tunnel
  match got.result with
  | .error e => ⟨.error e, (got.state.onStateChanged tunnel before).saveState⟩
  | .ok config =>
    let out := GoBackend.setState endpoints o got.state.backend tunnel requested (some config)
    let called := { got.state with backend := out.state }
    match out.result with
    | .ok newState =>
      let used := if newState = .up then some tunnel else called.lastUsedTunnel
      ⟨.ok newState,
        ({ called with lastUsedTunnel := used }.onStateChanged tunnel newState).saveState⟩
    | .error e => ⟨.error e, (called.onStateChanged tunnel before).saveState⟩

def setTunnelConfig (o : GoBackend.Answers S) (saves : Bool) (m : TunnelManager T C S N)
    (tunnel : T) (config : C) : Outcome C (TunnelManager T C S N) :=
  let out := GoBackend.setState endpoints o m.backend tunnel (m.state tunnel) (some config)
  let called := { m with backend := out.state }
  match out.result with
  | .error e => ⟨.error e, called⟩
  | .ok _ =>
    if saves then ⟨.ok config, called.onConfigChanged tunnel config⟩
    else ⟨.error .platform, called⟩

/-- The two calls, with what the backend, the store and the platform answer to them. -/
inductive Call (T C S : Type*) where
  | setTunnelState (answers : GoBackend.Answers S) (load : Option C) (tunnel : T)
      (requested : State)
  | setTunnelConfig (answers : GoBackend.Answers S) (saves : Bool) (tunnel : T) (config : C)

def call (m : TunnelManager T C S N) : Call T C S → TunnelManager T C S N
  | .setTunnelState answers load tunnel requested =>
    (setTunnelState endpoints answers load m tunnel requested).state
  | .setTunnelConfig answers saves tunnel config =>
    (setTunnelConfig endpoints answers saves m tunnel config).state

/-- Whatever else happens between two calls: other calls of the backend (as `delete` and
`setTunnelName` make them), messages to the service, states written after asking the backend, and
configs a `getTunnelConfig` has loaded. -/
inductive Step (T C S : Type*) where
  | call (call : Call T C S)
  | backend (event : GoBackend.Event T C S)
  | onStateChanged (tunnel : T) (state : State)
  | onConfigChanged (tunnel : T) (config : C)

def step (m : TunnelManager T C S N) : Step T C S → TunnelManager T C S N
  | .call c => call endpoints m c
  | .backend event => { m with backend := GoBackend.event endpoints m.backend event }
  | .onStateChanged tunnel state => m.onStateChanged tunnel state
  | .onConfigChanged tunnel config => m.onConfigChanged tunnel config

def StatesAgree (m : TunnelManager T C S N) : Prop :=
  ∀ tunnel, m.state tunnel = m.backend.getState tunnel

omit [DecidableEq S] [DecidableEq C] in
theorem getConfigAsync_backend (load : Option C) (m : TunnelManager T C S N) (t : T) :
    (getConfigAsync load m t).state.backend = m.backend := by
  unfold getConfigAsync
  split <;> rfl

omit [DecidableEq S] [DecidableEq C] in
theorem getConfigAsync_cases (load : Option C) (m : TunnelManager T C S N) (t : T) :
    ((∃ e, (getConfigAsync load m t).result = .error e) ∧ (m.config t).or load = none) ∨
      ∃ c, (getConfigAsync load m t).result = .ok c ∧ (m.config t).or load = some c := by
  unfold getConfigAsync
  cases m.config t with
  | some c => exact .inr ⟨c, rfl, rfl⟩
  | none =>
    cases load with
    | some c => exact .inr ⟨c, rfl, rfl⟩
    | none => exact .inl ⟨⟨_, rfl⟩, rfl⟩

/-- The state `setTunnelState` writes at its end: the captured one unless the backend returned. -/
def written (before : State) (result : Except Failure State) : State :=
  match result with
  | .ok newState => newState
  | .error _ => before

theorem setTunnelState_backend (o : GoBackend.Answers S) (load : Option C)
    (m : TunnelManager T C S N) (t : T) (requested : State) :
    ((m.config t).or load = none ∧
        (setTunnelState endpoints o load m t requested).state.backend =
          m.backend.notify t (m.state t)) ∨
      ∃ c, (m.config t).or load = some c ∧
        (setTunnelState endpoints o load m t requested).state.backend =
          (GoBackend.setState endpoints o m.backend t requested (some c)).state.notify t
            (written (m.state t)
              (GoBackend.setState endpoints o m.backend t requested (some c)).result) := by
  have hback : (getConfigAsync load m t).state.backend = m.backend :=
    getConfigAsync_backend load m t
  unfold setTunnelState
  cases getConfigAsync_cases load m t with
  | inl hfail =>
    obtain ⟨⟨e, he⟩, hnone⟩ := hfail
    simp only [he]
    refine .inl ⟨hnone, ?_⟩
    show (getConfigAsync load m t).state.backend.notify t (m.state t) = _
    rw [hback]
  | inr hok =>
    obtain ⟨c, hc, hsome⟩ := hok
    simp only [hc, hback]
    refine .inr ⟨c, hsome, ?_⟩
    cases (GoBackend.setState endpoints o m.backend t requested (some c)).result <;> rfl

/-- The map and the names stay, and the set of running tunnels is persisted last. -/
theorem setTunnelState_saves (o : GoBackend.Answers S) (load : Option C)
    (m : TunnelManager T C S N) (t : T) (requested : State) :
    let after := (setTunnelState endpoints o load m t requested).state
    after.tunnelMap = m.tunnelMap ∧ after.name = m.name ∧ after = after.saveState := by
  have hgot : (getConfigAsync load m t).state.tunnelMap = m.tunnelMap ∧
      (getConfigAsync load m t).state.name = m.name := by
    unfold getConfigAsync
    split <;> exact ⟨rfl, rfl⟩
  simp only [setTunnelState]
  split
  · exact ⟨hgot.1, hgot.2, rfl⟩
  · split <;> exact ⟨hgot.1, hgot.2, rfl⟩

theorem setTunnelConfig_backend (o : GoBackend.Answers S) (saves : Bool)
    (m : TunnelManager T C S N) (t : T) (c : C) :
    (setTunnelConfig endpoints o saves m t c).state.backend =
      (GoBackend.setState endpoints o m.backend t (m.state t) (some c)).state := by
  simp only [setTunnelConfig]
  cases (GoBackend.setState endpoints o m.backend t (m.state t) (some c)).result with
  | error e => rfl
  | ok r => cases saves <;> rfl

theorem call_sound {m : TunnelManager T C S N} (h : GoBackend.Sound m.backend) (c : Call T C S) :
    GoBackend.Sound (call endpoints m c).backend := by
  cases c with
  | setTunnelState o load t requested =>
    cases setTunnelState_backend endpoints o load m t requested with
    | inl hnone =>
      show GoBackend.Sound (setTunnelState endpoints o load m t requested).state.backend
      rw [hnone.2]
      exact GoBackend.notify_sound h t _
    | inr hsome =>
      obtain ⟨c, -, heq⟩ := hsome
      show GoBackend.Sound (setTunnelState endpoints o load m t requested).state.backend
      rw [heq]
      exact GoBackend.notify_sound (GoBackend.setState_sound endpoints o h t requested _) t _
  | setTunnelConfig o saves t c =>
    show GoBackend.Sound (setTunnelConfig endpoints o saves m t c).state.backend
    rw [setTunnelConfig_backend]
    exact GoBackend.setState_sound endpoints o h t _ _

theorem step_sound (m : TunnelManager T C S N) (a : Step T C S) (h : GoBackend.Sound m.backend) :
    GoBackend.Sound (step endpoints m a).backend := by
  cases a with
  | call c => exact call_sound endpoints h c
  | backend event => exact GoBackend.event_sound endpoints h event
  | onStateChanged t state => exact GoBackend.notify_sound h t state
  | onConfigChanged t c => exact h

theorem reachable_sound (tunnels : List T) (name : T → N) (lastUsed : Option T) (saved : List N)
    (steps : List (Step T C S)) :
    ∀ m ∈ Runs.states (step endpoints) (loaded tunnels name lastUsed saved) steps,
      GoBackend.Sound m.backend := by
  have hinit : GoBackend.Sound
      (loaded tunnels name lastUsed saved : TunnelManager T C S N).backend :=
    GoBackend.sound_initial
  let inv : TunnelManager T C S N → Prop := fun m => GoBackend.Sound m.backend
  have hinv : ∀ m ∈ Runs.states (step endpoints) (loaded tunnels name lastUsed saved) steps,
      inv m := Runs.invariant_states_of_step (step_sound endpoints) hinit steps
  exact hinv

/-- The tunnel is the current one, the call asks for `UP` with another config object than the one in
effect, that bring-up fails, and so does the activation of the old config. -/
def LosesTunnel (s : GoBackend T C S) (o : GoBackend.Answers S) (t : T) (requested : State)
    (config : Option C) : Prop :=
  ∃ c c', config = some c ∧ requested.resolve (s.getState t) = .up ∧
    s.currentTunnel = some t ∧ s.currentConfig = some c' ∧ c ≠ c' ∧
    ¬GoBackend.CanBringUp endpoints o.bringUp s.vpnService (some c) ∧
    ¬GoBackend.CanBringUp endpoints o.rollback (GoBackend.serviceAfter o.bringUp s.vpnService)
      (some c')

def KeepsTunnel (m : TunnelManager T C S N) : Call T C S → Prop
  | .setTunnelState o load t requested =>
    ¬LosesTunnel endpoints m.backend o t requested ((m.config t).or load)
  | .setTunnelConfig _ _ _ _ => True

omit [DecidableEq T] [DecidableEq C] in
theorem attempt_vpnService (o : GoBackend.Answers S) (s : GoBackend T C S) (t : T) (c : C) :
    (GoBackend.attempt endpoints o s t (some c)).state.vpnService =
      GoBackend.serviceAfter o.bringUp s.vpnService := by
  unfold GoBackend.attempt
  rw [GoBackend.setStateUp_vpnService, GoBackend.stopCurrent_vpnService]

/-- The written state is the backend's after the call unless the tunnel was lost. -/
theorem written_iff {s : GoBackend T C S} (h : GoBackend.Sound s) (o : GoBackend.Answers S) (t : T)
    (requested : State) (c : C) :
    written (s.getState t) (GoBackend.setState endpoints o s t requested (some c)).result =
        (GoBackend.setState endpoints o s t requested (some c)).state.getState t ↔
      ¬LosesTunnel endpoints s o t requested (some c) := by
  have hends := GoBackend.setState_ends endpoints o h t requested (some c)
  generalize GoBackend.setState endpoints o s t requested (some c) = out at hends ⊢
  cases hends with
  | unchanged hkeep =>
    refine iff_of_true rfl ?_
    rintro ⟨_, c', hc, hup, hcur, hconf, hne, -⟩
    cases hc
    cases hkeep with
    | inl hsame =>
      rw [hconf] at hsame
      exact hne (Option.some.inj hsame.2)
    | inr hother => exact hother.2 hcur
  | up s' c' hc hcan hrun =>
    refine iff_of_true (GoBackend.getState_eq_up.mpr hrun.tunnel).symm ?_
    rintro ⟨_, _, hc, -, -, -, -, hcannot, -⟩
    cases hc
    exact hcannot hcan
  | failed s' e hnone hidle =>
    have hbefore : s.getState t = .down :=
      GoBackend.getState_of_none hnone t
    have hafter : s'.getState t = .down :=
      GoBackend.getState_of_none hidle.tunnel t
    refine iff_of_true (hbefore.trans hafter.symm) ?_
    rintro ⟨_, _, -, -, hcur, -⟩
    rw [hnone] at hcur
    cases hcur
  | undone s' e u c' hbefore _ hcan hrun =>
    have hsame : s.getState t = s'.getState t := by
      rw [GoBackend.getState, GoBackend.getState, hbefore.tunnel, hrun.tunnel]
    refine iff_of_true hsame ?_
    rintro ⟨_, c'', hc, -, -, hconf, -, -, hcannot⟩
    cases hc
    rw [attempt_vpnService] at hcan
    rw [hbefore.config] at hconf
    cases hconf
    exact hcannot hcan
  | lost s' e e' u c' hbefore hup hnew hcannot _ hcannot' hidle =>
    have hafter : s'.getState t = .down :=
      GoBackend.getState_of_none hidle.tunnel t
    rw [attempt_vpnService] at hcannot'
    show s.getState t = s'.getState t ↔ _
    rw [hafter, GoBackend.getState_eq_down, not_iff_not]
    constructor
    · intro hcur
      have hut : u = t := Option.some.inj (hbefore.tunnel.symm.trans hcur)
      have hne : c ≠ c' := fun heq => hnew ⟨hut, by rw [heq]⟩
      exact ⟨c, c', rfl, hup, hcur, hbefore.config, hne, hcannot, hcannot'⟩
    · rintro ⟨_, _, -, -, hcur, -⟩
      exact hcur
  | down s' hdown hcur hidle =>
    have hafter : s'.getState t = .down :=
      GoBackend.getState_of_none hidle.tunnel t
    refine iff_of_true hafter.symm ?_
    rintro ⟨_, _, -, hup, -⟩
    rw [hdown] at hup
    cases hup

/-- In every reachable state in which the states agree, a call keeps them in agreement exactly when
it does not lose the tunnel whose state it captured. -/
theorem statesAgree_call_iff (tunnels : List T) (name : T → N) (lastUsed : Option T)
    (saved : List N) (steps : List (Step T C S)) (c : Call T C S) :
    ∀ m ∈ Runs.states (step endpoints) (loaded tunnels name lastUsed saved) steps,
      StatesAgree m → (StatesAgree (call endpoints m c) ↔ KeepsTunnel endpoints m c) := by
  intro m hm hagree
  have hsound : GoBackend.Sound m.backend :=
    reachable_sound endpoints tunnels name lastUsed saved steps m hm
  have htold : GoBackend.Told m.backend := hagree
  cases c with
  | setTunnelState o load t requested =>
    have hbefore : m.state t = m.backend.getState t := hagree t
    show GoBackend.Told (setTunnelState endpoints o load m t requested).state.backend ↔ _
    cases setTunnelState_backend endpoints o load m t requested with
    | inl hnone =>
      rw [hnone.2, hbefore]
      refine iff_of_true ((GoBackend.notify_told_iff htold t _).mpr rfl) ?_
      rintro ⟨c, _, hc, -⟩
      rw [hnone.1] at hc
      cases hc
    | inr hsome =>
      obtain ⟨c, hc, heq⟩ := hsome
      have hcalled : GoBackend.Told
          (GoBackend.setState endpoints o m.backend t requested (some c)).state :=
        GoBackend.setState_told endpoints o hsound htold t requested (some c)
      rw [heq, GoBackend.notify_told_iff hcalled, hbefore, written_iff endpoints hsound]
      show _ ↔ ¬LosesTunnel endpoints m.backend o t requested ((m.config t).or load)
      rw [hc]
  | setTunnelConfig o saves t c =>
    refine iff_of_true ?_ trivial
    show GoBackend.Told (setTunnelConfig endpoints o saves m t c).state.backend
    rw [setTunnelConfig_backend]
    exact GoBackend.setState_told endpoints o hsound htold t _ _

/-- Tunnel `false` runs config 1 when `establish` returns null for tunnel `true`. -/
theorem statesAgree_call_reactivated :
    let m : TunnelManager Bool Nat Nat Bool := Runs.run (step fun _ => [])
      (loaded [false, true] id none [])
      [.call (.setTunnelState ⟨.working 0, .working 0⟩ (some 1) false .up)]
    StatesAgree (call (fun _ => []) m
      (.setTunnelState ⟨{ Platform.working 0 with establish := .null }, .working 0⟩ (some 2) true
        .up)) := by
  intro m
  have hagree : StatesAgree m := fun t => by cases t <;> rfl
  refine (statesAgree_call_iff (fun _ : Nat => []) [false, true] (id : Bool → Bool) none [] _ _ m
    (Runs.run_mem_states _ _ _) hagree).mpr ?_
  rintro ⟨c, c', -, -, hcur, -⟩
  cases hcur

/-- Tunnel `false` runs config object 1 when a slower `getTunnelConfig` puts object 2 into its
cache.  Asked for `UP` while `establish` returns null twice, it ends down in the backend and `UP`
in its own state. -/
theorem setTunnelState_stale :
    let m : TunnelManager Bool Nat Nat Bool := Runs.run (step fun _ => [])
      (loaded [false, true] id none [])
      [.call (.setTunnelState ⟨.working 0, .working 0⟩ (some 1) false .up),
        .onConfigChanged false 2]
    let refused := { Platform.working 0 with establish := .null }
    let m' := call (fun _ => []) m (.setTunnelState ⟨refused, refused⟩ none false .up)
    StatesAgree m ∧ m'.state false = .up ∧ m'.backend.getState false = .down := by
  refine ⟨fun t => ?_, rfl, rfl⟩
  cases t <;> rfl

end TunnelManager

end Amnezia.Model
