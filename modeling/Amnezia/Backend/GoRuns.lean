import Amnezia.Lib.Runs
import Amnezia.Backend.GoStates

/-!
# Runs of GoBackend

The three Java fields, the map of libwg-go and the notifications agree in every reachable state,
whatever fails on the way, and a bring-up that fails is undone.
-/

namespace Amnezia.Backend.GoBackend

variable {T C S : Type*} [DecidableEq S] (endpoints : C → List (Option (List Char)))

variable {s : GoBackend T C S}

theorem attempt_cases (o : Answers S) (h : Sound s) (t : T) (config : Option C) :
    ((∃ e, (attempt endpoints o s t config).result = .error e) ∧
        ¬CanBringUp endpoints o.bringUp s.vpnService config ∧
        Idle (attempt endpoints o s t config).state) ∨
      ((attempt endpoints o s t config).result = .ok () ∧
        ∃ c, config = some c ∧ CanBringUp endpoints o.bringUp s.vpnService config ∧
          Running (attempt endpoints o s t config).state t c) := by
  have hidle : Idle s.stopCurrent := stopCurrent_idle h
  rw [← stopCurrent_vpnService s]
  cases setStateUp_idle endpoints o.bringUp hidle t config with
  | inl hfail => exact .inl ⟨hfail.1, hfail.2.1, hfail.2.2.idle hidle⟩
  | inr hok =>
    obtain ⟨hres, c, hc, hcan, hrun, -⟩ := hok
    exact .inr ⟨hres, c, hc, hcan, hrun⟩

variable {c : C}

theorem reactivate_cases (o : Answers S) {u : T} (h : Running s u c) (t : T) (config : Option C)
    (hcannot : ¬CanBringUp endpoints o.bringUp s.vpnService config) :
    ((∃ e, (reactivate endpoints o s t config u).result = .error e) ∧
        ¬CanBringUp endpoints o.rollback (attempt endpoints o s t config).state.vpnService
          (some c) ∧
        Idle (reactivate endpoints o s t config u).state) ∨
      ((reactivate endpoints o s t config u).result = .ok () ∧
        CanBringUp endpoints o.rollback (attempt endpoints o s t config).state.vpnService
          (some c) ∧
        Running (reactivate endpoints o s t config u).state u c) := by
  have hidle : Idle (attempt endpoints o s t config).state := by
    cases attempt_cases endpoints o (.inr ⟨u, c, h⟩) t config with
    | inl hfail => exact hfail.2.2
    | inr hok =>
      obtain ⟨-, _, -, hcan, -⟩ := hok
      exact absurd hcan hcannot
  unfold reactivate
  rw [h.config]
  cases setStateUp_idle endpoints o.rollback hidle u (some c) with
  | inl hfail => exact .inl ⟨hfail.1, hfail.2.1, hfail.2.2.idle hidle⟩
  | inr hok =>
    obtain ⟨hres, c', hc, hcan, hrun, -⟩ := hok
    cases hc
    exact .inr ⟨hres, hcan, hrun⟩

variable [DecidableEq T]

/-- The ends a call can come to in a sound state. -/
inductive Ends (o : Answers S) (s : GoBackend T C S) (t : T) (requested : State)
    (config : Option C) : Outcome State (GoBackend T C S) → Prop where
  | unchanged (hkeep : s.currentTunnel = some t ∧ config = s.currentConfig ∨
        requested.resolve (s.getState t) ≠ .up ∧ s.currentTunnel ≠ some t) :
      Ends o s t requested config ⟨.ok (s.getState t), s⟩
  | up (s' : GoBackend T C S) (c : C) (hconfig : config = some c)
      (hcan : CanBringUp endpoints o.bringUp s.vpnService config) (hrun : Running s' t c) :
      Ends o s t requested config ⟨.ok .up, s'⟩
  | failed (s' : GoBackend T C S) (e : Failure) (hnone : s.currentTunnel = none)
      (hidle : Idle s') : Ends o s t requested config ⟨.error e, s'⟩
  | undone (s' : GoBackend T C S) (e : Failure) (u : T) (c : C) (hbefore : Running s u c)
      (hagain : (reactivate endpoints o s t config u).result = .ok ())
      (hcan : CanBringUp endpoints o.rollback (attempt endpoints o s t config).state.vpnService
        (some c))
      (hrun : Running s' u c) : Ends o s t requested config ⟨.error e, s'⟩
  | lost (s' : GoBackend T C S) (e e' : Failure) (u : T) (c : C) (hbefore : Running s u c)
      (hup : requested.resolve (s.getState t) = .up) (hnew : ¬(u = t ∧ config = some c))
      (hcannot : ¬CanBringUp endpoints o.bringUp s.vpnService config)
      (hagain : (reactivate endpoints o s t config u).result = .error e')
      (hcannot' : ¬CanBringUp endpoints o.rollback
        (attempt endpoints o s t config).state.vpnService (some c))
      (hidle : Idle s') : Ends o s t requested config ⟨.error e, s'⟩
  | down (s' : GoBackend T C S) (hdown : requested.resolve (s.getState t) = .down)
      (hcurrent : s.currentTunnel = some t) (hidle : Idle s') :
      Ends o s t requested config ⟨.ok .down, s'⟩

theorem setState_ends [DecidableEq C] (o : Answers S) (h : Sound s) (t : T) (requested : State)
    (config : Option C) :
    Ends endpoints o s t requested config (setState endpoints o s t requested config) := by
  unfold setState setStateBody
  by_cases hkeep : requested.resolve (s.getState t) = s.getState t ∧ s.currentTunnel = some t ∧
      config = s.currentConfig
  · rw [if_pos hkeep]
    exact .unchanged (.inl hkeep.2)
  rw [if_neg hkeep]
  by_cases hup : requested.resolve (s.getState t) = .up
  · simp only [if_pos hup]
    have hnew : ∀ u c, Running s u c → ¬(u = t ∧ config = some c) := by
      intro u c hrun hsame
      have hcur : s.currentTunnel = some t := by rw [hrun.tunnel, hsame.1]
      refine hkeep ⟨?_, hcur, by rw [hrun.config, hsame.2]⟩
      rw [hup, getState_eq_up.mpr hcur]
    cases attempt_cases endpoints o h t config with
    | inl hfail =>
      obtain ⟨⟨e, he⟩, hcannot, hidle⟩ := hfail
      simp only [he]
      cases h with
      | inl hbefore =>
        simp only [hbefore.tunnel]
        exact .failed _ e hbefore.tunnel hidle
      | inr hbefore =>
        obtain ⟨u, c, hbefore⟩ := hbefore
        simp only [hbefore.tunnel]
        cases reactivate_cases endpoints o hbefore t config hcannot with
        | inl hlost =>
          obtain ⟨⟨e', he'⟩, hcannot', hidle'⟩ := hlost
          simp only [he']
          exact .lost _ e' e' u c hbefore hup (hnew u c hbefore) hcannot he' hcannot' hidle'
        | inr hundone =>
          obtain ⟨hres, hcan, hrun⟩ := hundone
          simp only [hres]
          exact .undone _ e u c hbefore hres hcan hrun
    | inr hok =>
      obtain ⟨hres, c, hc, hcan, hrun⟩ := hok
      simp only [hres, getState_eq_up.mpr hrun.tunnel]
      exact .up _ c hc hcan hrun
  · rw [if_neg hup]
    by_cases hdown : requested.resolve (s.getState t) = .down ∧ s.currentTunnel = some t
    · simp only [if_pos hdown]
      obtain ⟨c, hrun⟩ := h.running hdown.2
      have hidle : Idle (s.setStateDown t) := setStateDown_running hrun
      have hres : (s.setStateDown t).getState t = .down :=
        getState_of_none hidle.tunnel t
      rw [hres]
      exact .down _ hdown.1 hdown.2 hidle
    · rw [if_neg hdown]
      have hother : s.currentTunnel ≠ some t := by
        intro hcur
        refine hdown ⟨?_, hcur⟩
        have := State.resolve_ne_toggle requested (s.getState t)
        cases hres : requested.resolve (s.getState t) <;> simp_all
      exact .unchanged (.inr ⟨hup, hother⟩)

/-- Asked for `UP` where the bring-up can succeed, the tunnel ends up running. -/
theorem setState_up_of_can [DecidableEq C] (o : Answers S) (h : Sound s) (t : T)
    (hcan : CanBringUp endpoints o.bringUp s.vpnService (some c)) :
    (setState endpoints o s t .up (some c)).result = .ok .up ∧
      (setState endpoints o s t .up (some c)).state.currentTunnel = some t := by
  unfold setState setStateBody
  have hresolve : State.up.resolve (s.getState t) = .up := rfl
  simp only [hresolve]
  split
  · rename_i hkeep
    rw [← hkeep.1]
    exact ⟨rfl, hkeep.2.1⟩
  · rw [if_pos trivial]
    rcases attempt_cases endpoints o h t (some c) with ⟨-, hcannot, -⟩ | ⟨hres, _, -, -, hrun⟩
    · exact absurd hcan hcannot
    · simp only [hres, getState_eq_up.mpr hrun.tunnel]
      exact ⟨trivial, hrun.tunnel⟩

theorem setState_ok_of_can [DecidableEq C] (o : Answers S) (h : Sound s) (t : T) (requested : State)
    (hcan : CanBringUp endpoints o.bringUp s.vpnService (some c)) :
    ∃ state, (setState endpoints o s t requested (some c)).result = .ok state := by
  simp only [setState, setStateBody]
  split
  · exact ⟨_, rfl⟩
  · split
    · rcases attempt_cases endpoints o h t (some c) with ⟨-, hcannot, -⟩ | ⟨hres, -⟩
      · exact absurd hcan hcannot
      · simp only [hres]
        exact ⟨_, rfl⟩
    · split <;> exact ⟨_, rfl⟩

theorem setState_down [DecidableEq C] (o : Answers S) (h : Sound s) (t : T) (config : Option C) :
    (setState endpoints o s t .down config).result = .ok .down ∧
      (setState endpoints o s t .down config).state.currentTunnel =
        if s.currentTunnel = some t then none else s.currentTunnel := by
  unfold setState setStateBody
  have hresolve : State.down.resolve (s.getState t) = .down := rfl
  simp only [hresolve]
  by_cases hcurrent : s.currentTunnel = some t
  · obtain ⟨c, hrun⟩ := h.running hcurrent
    have hidle := setStateDown_running hrun
    have hup : s.getState t = .up := getState_eq_up.mpr hcurrent
    have hdown : (s.setStateDown t).getState t = .down :=
      getState_of_none hidle.tunnel t
    rw [if_neg (by simp [hup]), if_neg (by decide), if_pos ⟨trivial, hcurrent⟩, if_pos hcurrent, hdown]
    exact ⟨rfl, hidle.tunnel⟩
  · have hdown : s.getState t = .down := getState_eq_down.mpr hcurrent
    rw [if_neg (fun hkeep => hcurrent hkeep.2.1), if_neg (by decide),
      if_neg (fun hstop => hcurrent hstop.2), if_neg hcurrent, hdown]
    exact ⟨rfl, rfl⟩

theorem setState_down_of_ne [DecidableEq C] (o : Answers S) {t : T} (h : s.currentTunnel ≠ some t)
    (config : Option C) : (setState endpoints o s t .down config).state = s := by
  unfold setState setStateBody
  have hresolve : State.down.resolve (s.getState t) = .down := rfl
  simp only [hresolve]
  rw [if_neg (fun hkeep => h hkeep.2.1), if_neg (by decide), if_neg (fun hstop => h hstop.2)]

theorem setState_sound [DecidableEq C] (o : Answers S) (h : Sound s) (t : T) (requested : State)
    (config : Option C) : Sound (setState endpoints o s t requested config).state := by
  have hends := setState_ends endpoints o h t requested config
  generalize setState endpoints o s t requested config = out at hends ⊢
  cases hends with
  | unchanged _ => exact h
  | up s' c _ _ hrun => exact .inr ⟨t, c, hrun⟩
  | failed s' e _ hidle => exact .inl hidle
  | undone s' e u c _ _ _ hrun => exact .inr ⟨u, c, hrun⟩
  | lost s' e e' u c _ _ _ _ _ _ hidle => exact .inl hidle
  | down s' _ _ hidle => exact .inl hidle

/-- A call of a sound backend only brings tunnels up from an idle state and takes the running one
down: what both keep is kept. -/
theorem setState_closed [DecidableEq C] {P : GoBackend T C S → Prop}
    (hup : ∀ o s t config, Idle s → P s → P (setStateUp endpoints o s t config).state)
    (hdown : ∀ s t c, Running s t c → P s → P (s.setStateDown t)) (o : Answers S) (h : Sound s)
    (hs : P s) (t : T) (requested : State) (config : Option C) :
    P (setState endpoints o s t requested config).state := by
  have hstopped : P s.stopCurrent := by
    unfold stopCurrent
    cases hcurrent : s.currentTunnel with
    | none => exact hs
    | some u =>
      obtain ⟨c, hrun⟩ := h.running hcurrent
      exact hdown s u c hrun hs
  have hattempt : P (attempt endpoints o s t config).state :=
    hup o.bringUp _ t config (stopCurrent_idle h) hstopped
  simp only [setState, setStateBody]
  split
  · exact hs
  · split
    · rcases attempt_cases endpoints o h t config with ⟨⟨e, he⟩, -, hidle⟩ | ⟨hres, -⟩
      · simp only [he]
        cases s.currentTunnel with
        | none => exact hattempt
        | some u =>
          have hagain : P (reactivate endpoints o s t config u).state :=
            hup o.rollback _ u s.currentConfig hidle hattempt
          simp only
          split <;> exact hagain
      · simp only [hres]
        exact hattempt
    · split
      · rename_i hstop
        obtain ⟨c, hrun⟩ := h.running hstop.2
        exact hdown s t c hrun hs
      · exact hs

theorem setState_told [DecidableEq C] (o : Answers S) (h : Sound s) (htold : Told s) (t : T)
    (requested : State) (config : Option C) :
    Told (setState endpoints o s t requested config).state :=
  setState_closed endpoints
    (fun o _ t config hidle hs => setStateUp_told endpoints o hidle hs t config)
    (fun _ _ _ => setStateDown_told) o h htold t requested config

def CurrentTold (s : GoBackend T C S) : Prop := ∀ t, s.currentTunnel = some t → s.notified t = .up

omit [DecidableEq S] in
theorem Idle.currentTold (h : Idle s) : CurrentTold s := by
  intro t ht
  rw [h.tunnel] at ht
  cases ht

omit [DecidableEq S] in
theorem CurrentTold.notify (h : CurrentTold s) {t : T} {state : State}
    (hstate : s.currentTunnel = some t → state = .up) : CurrentTold (s.notify t state) := by
  intro u hu
  have hcurrent : s.currentTunnel = some u := hu
  show Function.update s.notified t state u = .up
  by_cases hut : u = t
  · rw [hut, Function.update_self]
    exact hstate (hut ▸ hcurrent)
  · rw [Function.update_of_ne hut]
    exact h u hcurrent

theorem setStateUp_currentTold (o : Platform S) (h : Idle s) (t : T) (config : Option C) :
    CurrentTold (setStateUp endpoints o s t config).state := by
  cases setStateUp_idle endpoints o h t config with
  | inl hfail => exact (hfail.2.2.idle h).currentTold
  | inr hok =>
    obtain ⟨-, c, -, -, hrun, hlog⟩ := hok
    intro u hu
    rw [hrun.tunnel] at hu
    cases hu
    rw [notified, hlog]
    exact Function.update_self _ _ _

theorem setState_currentTold [DecidableEq C] (o : Answers S) (h : Sound s) (htold : CurrentTold s)
    (t : T) (requested : State) (config : Option C) :
    CurrentTold (setState endpoints o s t requested config).state :=
  setState_closed endpoints
    (fun o _ t config hidle _ => setStateUp_currentTold endpoints o hidle t config)
    (fun _ _ _ hrun _ => (setStateDown_running hrun).currentTold) o h htold t requested config

inductive Event (T C S : Type*) where
  | setState (answers : Answers S) (tunnel : T) (requested : State) (config : Option C)
  | onCreate (service : S)
  | onDestroy (service : S)
  | onDisconnect (service : S)

def event [DecidableEq C] (s : GoBackend T C S) : Event T C S → GoBackend T C S
  | .setState answers tunnel requested config =>
    (setState endpoints answers s tunnel requested config).state
  | .onCreate service => s.onCreate service
  | .onDestroy service => s.onDestroy service
  | .onDisconnect service => s.onDisconnect service

theorem event_sound [DecidableEq C] (h : Sound s) (ev : Event T C S) :
    Sound (event endpoints s ev) := by
  cases ev with
  | setState o t requested config => exact setState_sound endpoints o h t requested config
  | onCreate x => exact (complete_same s x).sound h
  | onDestroy x => exact onDestroy_sound h x
  | onDisconnect x =>
    cases onDisconnect_cases h x with
    | inl hsame => exact hsame.sound h
    | inr hstop =>
      obtain ⟨t, c, hrun, hsame⟩ := hstop
      obtain ⟨c', hrun'⟩ := ((complete_same s x).sound h).running hrun.tunnel
      exact .inl (hsame.idle (setStateDown_running hrun'))

theorem event_told [DecidableEq C] (h : Sound s) (htold : Told s) (ev : Event T C S) :
    Told (event endpoints s ev) := by
  cases ev with
  | setState o t requested config => exact setState_told endpoints o h htold t requested config
  | onCreate x => exact (complete_same s x).toldState htold
  | onDestroy x =>
    cases onDestroy_cases h x with
    | inl hsame => exact hsame.toldState htold
    | inr hstop =>
      obtain ⟨t, c, hrun, hidle, hnot⟩ := hstop
      exact told_of_stopped hrun htold hidle hnot
  | onDisconnect x =>
    cases onDisconnect_cases h x with
    | inl hsame => exact hsame.toldState htold
    | inr hstop =>
      obtain ⟨t, c, hrun, hsame⟩ := hstop
      obtain ⟨c', hrun'⟩ := ((complete_same s x).sound h).running hrun.tunnel
      exact hsame.toldState (setStateDown_told hrun' ((complete_same s x).toldState htold))

/-- In every state of every run, whatever the platform answers: a tunnel, its config and its handle
are there together or not at all, libwg-go holds exactly that handle, and every tunnel was last
told the state it is in. -/
theorem consistent_of_events [DecidableEq C] (events : List (Event T C S)) :
    ∀ s ∈ Runs.states (event endpoints) initial events, Consistent s := by
  intro s hs
  have hinv : Sound s ∧ Told s :=
    Runs.invariant_states_of_step
      (fun s ev (h : Sound s ∧ Told s) =>
        ⟨event_sound endpoints h.1 ev, event_told endpoints h.1 h.2 ev⟩)
      ⟨sound_initial, told_initial⟩ events s hs
  exact Consistent.of_sound hinv.1 hinv.2

/-- Tunnel `false` is brought up, then `establish` returns null for tunnel `true`. -/
theorem consistent_of_events_switch :
    let first := event (fun _ : Nat => []) (initial : GoBackend Bool Nat Nat)
      (.setState ⟨.working 0, .working 0⟩ false .up (some 1))
    let second := event (fun _ : Nat => []) first
      (.setState ⟨{ Platform.working 0 with establish := .null }, .working 0⟩ true .up (some 2))
    second.currentTunnel = some false ∧ Consistent second := by
  intro first second
  refine ⟨rfl, consistent_of_events (fun _ : Nat => [])
    [.setState ⟨.working 0, .working 0⟩ false .up (some 1),
      .setState ⟨{ Platform.working 0 with establish := .null }, .working 0⟩ true .up (some 2)]
    second ?_⟩
  exact List.mem_cons_of_mem _ (List.mem_cons_of_mem _ (List.mem_singleton_self second))

/-- A call that throws, wherever its bring-up failed, leaves the earlier tunnel running its earlier
config on the only device if it could be activated again, and nothing if there was none. -/
theorem setState_throws [DecidableEq C] (o : Answers S) (s : GoBackend T C S) (t : T)
    (requested : State) (config : Option C) (e : Failure) (h : Consistent s)
    (hthrow : (setState endpoints o s t requested config).result = .error e) :
    (∀ u, s.currentTunnel = some u → (reactivate endpoints o s t config u).result = .ok () →
        (setState endpoints o s t requested config).state.currentTunnel = s.currentTunnel ∧
        (setState endpoints o s t requested config).state.currentConfig = s.currentConfig ∧
        ∀ i, i ∈ (setState endpoints o s t requested config).state.tunnelHandles ↔
          i = (setState endpoints o s t requested config).state.currentTunnelHandle) ∧
      (s.currentTunnel = none →
        (setState endpoints o s t requested config).state.currentTunnel = none ∧
        ∀ i, i ∉ (setState endpoints o s t requested config).state.tunnelHandles) := by
  have hends := setState_ends endpoints o h.sound t requested config
  generalize setState endpoints o s t requested config = out at hends hthrow ⊢
  cases hends with
  | unchanged _ => cases hthrow
  | up s' c _ _ _ => cases hthrow
  | down s' _ _ _ => cases hthrow
  | failed s' e' hnone hidle =>
    refine ⟨fun u hu => ?_, fun _ => ⟨hidle.tunnel, hidle.handles⟩⟩
    rw [hnone] at hu
    cases hu
  | undone s' e' u c hbefore _ _ hrun =>
    refine ⟨fun v hv _ => ⟨?_, ?_, hrun.handles⟩, fun hnone => ?_⟩
    · rw [hrun.tunnel, hbefore.tunnel]
    · rw [hrun.config, hbefore.config]
    · rw [hbefore.tunnel] at hnone
      cases hnone
  | lost s' e' e'' u c hbefore _ _ _ hagain _ _ =>
    refine ⟨fun v hv hok => ?_, fun hnone => ?_⟩
    · -- the tunnel activated again is the one that was current, and that failed
      rw [hbefore.tunnel] at hv
      cases hv
      rw [hagain] at hok
      cases hok
    · rw [hbefore.tunnel] at hnone
      cases hnone

/-- Tunnel `false` runs config 1 when `establish` returns null for tunnel `true`. -/
theorem setState_throws_establish :
    let s := (setState (fun _ : Nat => []) ⟨.working 0, .working 0⟩
      (initial : GoBackend Bool Nat Nat) false .up (some 1)).state
    let out := setState (fun _ : Nat => [])
      ⟨{ Platform.working 0 with establish := .null }, .working 0⟩ s true .up (some 2)
    out.state.currentTunnel = s.currentTunnel ∧ out.state.currentConfig = s.currentConfig ∧
      ∀ i, i ∈ out.state.tunnelHandles ↔ i = out.state.currentTunnelHandle := by
  intro s out
  have hsound : Sound s := setState_sound _ _ sound_initial false .up (some 1)
  have htold : Told s := setState_told _ _ sound_initial told_initial false .up (some 1)
  exact (setState_throws (fun _ : Nat => [])
    ⟨{ Platform.working 0 with establish := .null }, .working 0⟩ s true .up (some 2)
    (.backend .tunCreationError) (Consistent.of_sound hsound htold) rfl).1 false rfl rfl

end Amnezia.Backend.GoBackend
