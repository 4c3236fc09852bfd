import Amnezia.Backend.Go

/-!
# States of GoBackend

Idle and running states, and what each part of a call makes of them.
-/

namespace Amnezia.Backend.GoBackend

variable {T C S : Type*}

structure Idle (s : GoBackend T C S) : Prop where
  tunnel : s.currentTunnel = none
  config : s.currentConfig = none
  handle : s.currentTunnelHandle = -1
  handles : ∀ i, i ∉ s.tunnelHandles

structure Running (s : GoBackend T C S) (t : T) (c : C) : Prop where
  tunnel : s.currentTunnel = some t
  config : s.currentConfig = some c
  handle : 0 ≤ s.currentTunnelHandle
  handles : ∀ i, i ∈ s.tunnelHandles ↔ i = s.currentTunnelHandle

/-- The backend runs nothing, or one tunnel with one config and one device. -/
def Sound (s : GoBackend T C S) : Prop := Idle s ∨ ∃ t c, Running s t c

variable {s : GoBackend T C S} {t : T}

theorem Sound.running (h : Sound s) (ht : s.currentTunnel = some t) : ∃ c, Running s t c := by
  cases h with
  | inl hidle =>
    rw [hidle.tunnel] at ht
    cases ht
  | inr hrun =>
    obtain ⟨u, c, hrun⟩ := hrun
    have hut : u = t := Option.some.inj (hrun.tunnel.symm.trans ht)
    exact ⟨c, hut ▸ hrun⟩

def Told [DecidableEq T] (s : GoBackend T C S) : Prop := ∀ t, s.notified t = s.getState t

/-- The agreement of the fields, the map of handles and the notifications. -/
structure Consistent [DecidableEq T] (s : GoBackend T C S) : Prop where
  tunnel_iff_handle : s.currentTunnel ≠ none ↔ 0 ≤ s.currentTunnelHandle
  config_iff_handle : s.currentConfig ≠ none ↔ 0 ≤ s.currentTunnelHandle
  no_handle : ¬0 ≤ s.currentTunnelHandle → s.currentTunnelHandle = -1
  handles : ∀ i, i ∈ s.tunnelHandles ↔ 0 ≤ s.currentTunnelHandle ∧ i = s.currentTunnelHandle
  told : Told s

variable {c : C}

theorem Running.handle_ne (h : Running s t c) : s.currentTunnelHandle ≠ -1 := by
  have := h.handle
  omega

theorem Consistent.of_sound [DecidableEq T] (h : Sound s) (htold : Told s) : Consistent s := by
  cases h with
  | inl hidle =>
    have hneg : ¬0 ≤ s.currentTunnelHandle := by rw [hidle.handle]; decide
    exact
      { tunnel_iff_handle := iff_of_false (not_not.mpr hidle.tunnel) hneg
        config_iff_handle := iff_of_false (not_not.mpr hidle.config) hneg
        no_handle := fun _ => hidle.handle
        handles := fun i => iff_of_false (hidle.handles i) fun hi => hneg hi.1
        told := htold }
  | inr hrun =>
    obtain ⟨t, c, hrun⟩ := hrun
    have htun : s.currentTunnel ≠ none := by rw [hrun.tunnel]; exact Option.some_ne_none t
    have hconf : s.currentConfig ≠ none := by rw [hrun.config]; exact Option.some_ne_none c
    exact
      { tunnel_iff_handle := iff_of_true htun hrun.handle
        config_iff_handle := iff_of_true hconf hrun.handle
        no_handle := fun hneg => absurd hrun.handle hneg
        handles := fun i => (hrun.handles i).trans (and_iff_right hrun.handle).symm
        told := htold }

theorem Consistent.sound [DecidableEq T] (h : Consistent s) : Sound s := by
  cases htun : s.currentTunnel with
  | none =>
    have hneg : ¬0 ≤ s.currentTunnelHandle := fun hpos => h.tunnel_iff_handle.mpr hpos htun
    have hconf : s.currentConfig = none := by
      by_contra hne
      exact hneg (h.config_iff_handle.mp hne)
    exact .inl ⟨htun, hconf, h.no_handle hneg, fun i hi => hneg ((h.handles i).mp hi).1⟩
  | some t =>
    have hpos : 0 ≤ s.currentTunnelHandle := by
      apply h.tunnel_iff_handle.mp
      rw [htun]
      exact Option.some_ne_none t
    obtain ⟨c, hconf⟩ := Option.ne_none_iff_exists'.mp (h.config_iff_handle.mpr hpos)
    exact .inr ⟨t, c, htun, hconf, hpos, fun i => by rw [h.handles i, and_iff_right hpos]⟩

theorem sound_initial : Sound (initial : GoBackend T C S) :=
  .inl ⟨rfl, rfl, rfl, fun i => AList.notMem_empty i⟩

theorem told_initial [DecidableEq T] : Told (initial : GoBackend T C S) := fun _ => rfl

theorem getState_eq_up [DecidableEq T] : s.getState t = .up ↔ s.currentTunnel = some t := by
  rw [getState, State.of_eq_up, decide_eq_true_iff]

theorem getState_eq_down [DecidableEq T] : s.getState t = .down ↔ s.currentTunnel ≠ some t := by
  rw [getState, State.of_eq_down, decide_eq_false_iff_not]

theorem getState_of_none [DecidableEq T] (h : s.currentTunnel = none) (t : T) :
    s.getState t = .down := by
  rw [getState_eq_down, h]
  exact (Option.some_ne_none t).symm

variable {s' : GoBackend T C S}

theorem told_of_stopped [DecidableEq T] (h : Running s t c) (htold : Told s) (hidle : Idle s')
    (hlog : s'.log = (t, .down) :: s.log) : Told s' := by
  intro u
  have hdown : s'.getState u = .down :=
    getState_of_none hidle.tunnel u
  have hnot : s'.notified = Function.update s.notified t .down := congrArg lastTold hlog
  rw [hnot, hdown]
  by_cases hu : u = t
  · rw [hu, Function.update_self]
  · -- every other tunnel was down already
    rw [Function.update_of_ne hu, htold u, getState_eq_down, h.tunnel]
    exact fun heq => hu (Option.some.inj heq).symm

theorem setStateDown_running (h : Running s t c) : Idle (s.setStateDown t) := by
  rw [setStateDown, if_neg h.handle_ne]
  refine ⟨rfl, rfl, rfl, fun i hi => ?_⟩
  have herase : i ≠ s.currentTunnelHandle ∧ i ∈ s.tunnelHandles := AList.mem_erase.mp hi
  exact herase.1 ((h.handles i).mp herase.2)

theorem setStateDown_told [DecidableEq T] (h : Running s t c) (htold : Told s) :
    Told (s.setStateDown t) := by
  have hidle : Idle (s.setStateDown t) := setStateDown_running h
  refine told_of_stopped h htold hidle ?_
  rw [setStateDown, if_neg h.handle_ne]
  rfl

theorem setStateDown_vpnService (s : GoBackend T C S) (t : T) :
    (s.setStateDown t).vpnService = s.vpnService := by
  unfold setStateDown
  split <;> rfl

theorem stopCurrent_idle (h : Sound s) : Idle s.stopCurrent := by
  unfold stopCurrent
  cases h with
  | inl hidle =>
    rw [hidle.tunnel]
    exact hidle
  | inr hrun =>
    obtain ⟨t, c, hrun⟩ := hrun
    rw [hrun.tunnel]
    exact setStateDown_running hrun

theorem stopCurrent_vpnService (s : GoBackend T C S) : s.stopCurrent.vpnService = s.vpnService := by
  unfold stopCurrent
  cases s.currentTunnel with
  | none => rfl
  | some t => exact setStateDown_vpnService s t

theorem notify_sound (h : Sound s) (t : T) (state : State) : Sound (s.notify t state) := by
  cases h with
  | inl hidle => exact .inl ⟨hidle.tunnel, hidle.config, hidle.handle, hidle.handles⟩
  | inr hrun =>
    obtain ⟨u, c, hrun⟩ := hrun
    exact .inr ⟨u, c, hrun.tunnel, hrun.config, hrun.handle, hrun.handles⟩

theorem notify_told_iff [DecidableEq T] (h : Told s) (t : T) (state : State) :
    Told (s.notify t state) ↔ state = s.getState t := by
  constructor
  · intro htold
    have hself : Function.update s.notified t state t = s.getState t := htold t
    rwa [Function.update_self] at hself
  · intro hstate u
    show Function.update s.notified t state u = s.getState u
    by_cases hu : u = t
    · rw [hu, Function.update_self, hstate]
    · rw [Function.update_of_ne hu, h u]

structure SameDevice (s s' : GoBackend T C S) : Prop where
  tunnel : s.currentTunnel = s'.currentTunnel
  config : s.currentConfig = s'.currentConfig
  handle : s.currentTunnelHandle = s'.currentTunnelHandle
  handles : s.tunnelHandles = s'.tunnelHandles
  log : s.log = s'.log

theorem SameDevice.idle (h : SameDevice s s') (hs : Idle s') : Idle s := by
  refine ⟨h.tunnel.trans hs.tunnel, h.config.trans hs.config, h.handle.trans hs.handle, ?_⟩
  rw [h.handles]
  exact hs.handles

theorem SameDevice.sound (h : SameDevice s s') (hs : Sound s') : Sound s := by
  cases hs with
  | inl hidle => exact .inl (h.idle hidle)
  | inr hrun =>
    obtain ⟨t, c, hrun⟩ := hrun
    refine .inr ⟨t, c, h.tunnel.trans hrun.tunnel, h.config.trans hrun.config, ?_, ?_⟩
    · rw [h.handle]
      exact hrun.handle
    · rw [h.handle, h.handles]
      exact hrun.handles

theorem SameDevice.told [DecidableEq T] (h : SameDevice s s') : s.notified = s'.notified :=
  congrArg lastTold h.log

theorem SameDevice.toldState [DecidableEq T] (h : SameDevice s s') (hs : Told s') : Told s := by
  intro t
  rw [h.told, hs t, getState, getState, h.tunnel]

theorem complete_same (s : GoBackend T C S) (x : S) : SameDevice (s.complete x) s :=
  ⟨rfl, rfl, rfl, rfl, rfl⟩

theorem onDestroy_cases (h : Sound s) (x : S) :
    SameDevice (s.onDestroy x) s ∨
      ∃ t c, Running s t c ∧ Idle (s.onDestroy x) ∧
        (s.onDestroy x).log = (t, .down) :: s.log := by
  unfold onDestroy
  split
  · cases h with
    | inl hidle =>
      simp only [hidle.tunnel]
      exact .inl ⟨hidle.tunnel.symm, rfl, rfl, rfl, rfl⟩
    | inr hrun =>
      obtain ⟨t, c, hrun⟩ := hrun
      simp only [hrun.tunnel, if_pos hrun.handle_ne]
      refine .inr ⟨t, c, hrun, ⟨rfl, rfl, rfl, fun i hi => ?_⟩, rfl⟩
      have herase : i ≠ s.currentTunnelHandle ∧ i ∈ s.tunnelHandles := AList.mem_erase.mp hi
      exact herase.1 ((hrun.handles i).mp herase.2)
  · exact .inl ⟨rfl, rfl, rfl, rfl, rfl⟩

theorem onDestroy_sound (h : Sound s) (x : S) : Sound (s.onDestroy x) := by
  cases onDestroy_cases h x with
  | inl hsame => exact hsame.sound h
  | inr hstop =>
    obtain ⟨t, c, -, hidle, -⟩ := hstop
    exact .inl hidle

theorem disconnect_idle (h : Sound s) : Idle s.disconnect := by
  unfold disconnect
  cases h with
  | inl hidle =>
    simp only [hidle.tunnel]
    rw [if_pos hidle.handle]
    exact hidle
  | inr hrun =>
    obtain ⟨t, c, hrun⟩ := hrun
    simp only [hrun.tunnel]
    exact setStateDown_running hrun

theorem onDisconnect_cases (h : Sound s) (x : S) :
    SameDevice (s.onDisconnect x) s ∨
      ∃ t c, Running s t c ∧ SameDevice (s.onDisconnect x) ((s.complete x).setStateDown t) := by
  unfold onDisconnect
  simp only
  split
  · unfold disconnect
    cases h with
    | inl hidle =>
      have htun : (s.complete x).currentTunnel = none := hidle.tunnel
      simp only [htun]
      rw [if_pos (show (s.complete x).currentTunnelHandle = -1 from hidle.handle)]
      exact .inl ⟨htun.trans hidle.tunnel.symm, rfl, rfl, rfl, rfl⟩
    | inr hrun =>
      obtain ⟨t, c, hrun⟩ := hrun
      have htun : (s.complete x).currentTunnel = some t := hrun.tunnel
      simp only [htun]
      exact .inr ⟨t, c, hrun, rfl, rfl, rfl, rfl, rfl⟩
  · exact .inl ⟨rfl, rfl, rfl, rfl, rfl⟩

def CanAcquire (o : Platform S) (service : Option S) : Prop :=
  o.authorized = true ∧ (service ≠ none ∨ (o.starts = true ∧ ∃ x, o.service = .created x))

def serviceAfter (o : Platform S) (service : Option S) : Option S :=
  if o.authorized then
    match service, o.starts, o.service with
    | some x, _, _ => some x
    | none, true, .created x => some x
    | none, _, _ => none
  else service

section Service

variable [DecidableEq S]

theorem acquireService_same (o : Platform S) (s : GoBackend T C S) :
    SameDevice (acquireService o s).state s := by
  unfold acquireService
  split
  · exact ⟨rfl, rfl, rfl, rfl, rfl⟩
  · split
    · exact ⟨rfl, rfl, rfl, rfl, rfl⟩
    · split
      · exact ⟨rfl, rfl, rfl, rfl, rfl⟩
      · cases o.service <;> exact ⟨rfl, rfl, rfl, rfl, rfl⟩

theorem acquireService_cases (o : Platform S) (s : GoBackend T C S) :
    (∃ e, (acquireService o s).result = .error e ∧ ¬CanAcquire o s.vpnService) ∨
      ∃ x, (acquireService o s).result = .ok x ∧ CanAcquire o s.vpnService := by
  unfold acquireService CanAcquire
  cases hauth : o.authorized with
  | false => exact .inl ⟨_, rfl, by simp⟩
  | true =>
    cases hsvc : s.vpnService with
    | some x => exact .inr ⟨x, rfl, rfl, .inl (Option.some_ne_none x)⟩
    | none =>
      cases hstart : o.starts with
      | false => exact .inl ⟨_, rfl, by simp⟩
      | true =>
        cases hwait : o.service with
        | created x => exact .inr ⟨x, by simp, rfl, .inr ⟨rfl, x, rfl⟩⟩
        | timedOut => exact .inl ⟨_, by simp; rfl, by simp⟩
        | interrupted => exact .inl ⟨_, by simp; rfl, by simp⟩

theorem acquireService_vpnService (o : Platform S) (s : GoBackend T C S) :
    (acquireService o s).state.vpnService = serviceAfter o s.vpnService := by
  unfold acquireService serviceAfter
  cases o.authorized with
  | false => rfl
  | true =>
    cases hsvc : s.vpnService with
    | some x => simp [setOwner, hsvc]
    | none => cases o.starts <;> cases o.service <;> simp [setOwner, complete, hsvc]

end Service

variable (endpoints : C → List (Option (List Char)))

def CanActivate (o : Platform S) (config : C) : Prop :=
  dnsRetry o (endpoints config) dnsResolutionRetries 0 = none ∧ o.builds = true ∧
    o.establish = .tun ∧ o.device.Succeed

/-- From an idle state the device is turned on and recorded, or everything stays idle. -/
theorem activate_idle (o : Platform S) (h : Idle s) (t : T) (c : C) :
    ((∃ e, (activate endpoints o s t c).result = .error e) ∧ ¬CanActivate endpoints o c ∧
        SameDevice (activate endpoints o s t c).state s) ∨
      ((activate endpoints o s t c).result = .ok () ∧ CanActivate endpoints o c ∧
        Running (activate endpoints o s t c).state t c ∧
        (activate endpoints o s t c).state.log = (t, .up) :: s.log) := by
  have hempty : s.tunnelHandles = ∅ := by
    apply AList.ext
    apply List.eq_nil_of_map_eq_nil
    exact List.eq_nil_iff_forall_not_mem.mpr h.handles
  unfold activate CanActivate
  rw [if_neg (not_not.mpr h.handle)]
  cases dnsRetry o (endpoints c) dnsResolutionRetries 0 with
  | some failure => exact .inl ⟨⟨_, rfl⟩, by simp, rfl, rfl, rfl, rfl, rfl⟩
  | none =>
    cases o.builds with
    | false => exact .inl ⟨⟨_, rfl⟩, by simp, rfl, rfl, rfl, rfl, rfl⟩
    | true =>
      cases o.establish with
      | thrown => exact .inl ⟨⟨_, rfl⟩, by simp, rfl, rfl, rfl, rfl, rfl⟩
      | null => exact .inl ⟨⟨_, rfl⟩, by simp, rfl, rfl, rfl, rfl, rfl⟩
      | tun =>
        by_cases hdev : o.device.Succeed
        · right
          simp only [hempty, WgGo.awgTurnOn_empty hdev]
          refine ⟨rfl, ⟨trivial, trivial, trivial, hdev⟩, ⟨rfl, rfl, Int.le_refl 0, fun i => ?_⟩,
            rfl⟩
          show i ∈ AList.insert 0 _ ∅ ↔ i = 0
          rw [AList.mem_insert]
          exact or_iff_left (AList.notMem_empty i)
        · -- the handle is set to -1 again, which is what it was
          have hfail : WgGo.awgTurnOn o.device s.tunnelHandles c = (-1, s.tunnelHandles) := by
            cases WgGo.awgTurnOn_cases o.device s.tunnelHandles c with
            | inl heq => exact heq
            | inr hok =>
              obtain ⟨_, _, _, hsteps, _⟩ := hok
              exact absurd hsteps hdev
          left
          simp only [hfail]
          exact ⟨⟨_, rfl⟩, fun hcan => hdev hcan.2.2.2, rfl, rfl, h.handle.symm, rfl, rfl⟩

theorem activate_vpnService (o : Platform S) (s : GoBackend T C S) (t : T) (c : C) :
    (activate endpoints o s t c).state.vpnService = s.vpnService := by
  unfold activate
  split
  · rfl
  · split
    · rfl
    · split
      · rfl
      · cases o.establish with
        | thrown => rfl
        | null => rfl
        | tun =>
          simp only
          split <;> rfl

variable [DecidableEq S]

def CanBringUp (o : Platform S) (service : Option S) (config : Option C) : Prop :=
  ∃ c, config = some c ∧ CanAcquire o service ∧ CanActivate endpoints o c

/-- A bring-up from an idle state ends idle with an exception, or with the tunnel running. -/
theorem setStateUp_idle (o : Platform S) (h : Idle s) (t : T) (config : Option C) :
    ((∃ e, (setStateUp endpoints o s t config).result = .error e) ∧
        ¬CanBringUp endpoints o s.vpnService config ∧
        SameDevice (setStateUp endpoints o s t config).state s) ∨
      ((setStateUp endpoints o s t config).result = .ok () ∧
        ∃ c, config = some c ∧ CanBringUp endpoints o s.vpnService config ∧
          Running (setStateUp endpoints o s t config).state t c ∧
          (setStateUp endpoints o s t config).state.log = (t, .up) :: s.log) := by
  unfold setStateUp
  cases config with
  | none =>
    refine .inl ⟨⟨_, rfl⟩, fun hcan => ?_, rfl, rfl, rfl, rfl, rfl⟩
    obtain ⟨c, hc, -⟩ := hcan
    cases hc
  | some c =>
    have hsame : SameDevice (acquireService o s).state s := acquireService_same o s
    cases acquireService_cases o s with
    | inl hfail =>
      obtain ⟨e, he, hcannot⟩ := hfail
      simp only [he]
      refine .inl ⟨⟨e, rfl⟩, fun hcan => ?_, hsame⟩
      obtain ⟨_, -, hcan, -⟩ := hcan
      exact hcannot hcan
    | inr hok =>
      obtain ⟨x, hx, hcan⟩ := hok
      simp only [hx]
      cases activate_idle endpoints o (hsame.idle h) t c with
      | inl hfail =>
        obtain ⟨herr, hcannot, hact⟩ := hfail
        refine .inl ⟨herr, fun hcan => ?_, hact.tunnel.trans hsame.tunnel,
          hact.config.trans hsame.config, hact.handle.trans hsame.handle,
          hact.handles.trans hsame.handles, hact.log.trans hsame.log⟩
        obtain ⟨_, hc, -, hcan⟩ := hcan
        cases hc
        exact hcannot hcan
      | inr hup =>
        obtain ⟨hres, hact, hrun, hlog⟩ := hup
        refine .inr ⟨hres, c, rfl, ⟨c, rfl, hcan, hact⟩, hrun, ?_⟩
        rw [hlog, hsame.log]

theorem setStateUp_vpnService (o : Platform S) (s : GoBackend T C S) (t : T) (c : C) :
    (setStateUp endpoints o s t (some c)).state.vpnService = serviceAfter o s.vpnService := by
  rw [← acquireService_vpnService o s]
  unfold setStateUp
  cases acquireService_cases o s with
  | inl hfail =>
    obtain ⟨e, he, -⟩ := hfail
    simp only [he]
  | inr hok =>
    obtain ⟨x, hx, -⟩ := hok
    simp only [hx]
    exact activate_vpnService endpoints o _ t c

theorem setStateUp_told [DecidableEq T] (o : Platform S) (h : Idle s) (htold : Told s) (t : T)
    (config : Option C) :
    Told (setStateUp endpoints o s t config).state := by
  cases setStateUp_idle endpoints o h t config with
  | inl hfail => exact hfail.2.2.toldState htold
  | inr hok =>
    obtain ⟨-, c, -, -, hrun, hlog⟩ := hok
    intro u
    rw [notified, hlog, getState, hrun.tunnel]
    show Function.update s.notified t .up u = _
    by_cases hu : u = t
    · rw [hu, Function.update_self]
      simp
    · have hdown : s.notified u = .down := by
        rw [htold u, getState_eq_down, h.tunnel]
        exact (Option.some_ne_none u).symm
      rw [Function.update_of_ne hu, hdown, decide_eq_false]
      · rfl
      · exact fun heq => hu (Option.some.inj heq).symm

end Amnezia.Backend.GoBackend
