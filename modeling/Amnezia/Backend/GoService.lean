import Amnezia.Lib.Runs
import Amnezia.Backend.GoStates

/-!
# Destruction messages in flight

`stopSelf` only asks for the service to be destroyed: `onDestroy` runs on the main thread at some
later time, in the middle of a call or between two calls.  Here a call of `setState` is cut where
messages can be delivered: after the current tunnel was stopped, once the service is at hand (the
DNS rounds and the bring-up of the device follow), before the rollback, and again once the service
is at hand there.
-/

namespace Amnezia.Backend.GoBackend

variable {T C S : Type*} [DecidableEq S]

def deliver (s : GoBackend T C S) (service : S) : GoBackend T C S :=
  if service ∈ s.inFlight then
    { s.onDestroy service with inFlight := s.inFlight.erase service }
  else s

def deliverAll (s : GoBackend T C S) (services : List S) : GoBackend T C S :=
  services.foldl deliver s

structure Deliveries (S : Type*) where
  stopped : List S
  acquired : List S
  failed : List S
  reacquired : List S

def Deliveries.nothing : Deliveries S := ⟨[], [], [], []⟩

section Calls

variable (endpoints : C → List (Option (List Char)))

/-- `setStateUp` with messages delivered once the service is at hand. -/
def setStateUpDelivering (o : Platform S) (messages : List S) (s : GoBackend T C S) (tunnel : T)
    (config : Option C) : Outcome Unit (GoBackend T C S) :=
  match config with
  | none => ⟨.error (.backend .tunnelMissingConfig), s⟩
  | some config =>
    let acquired := acquireService o s
    match acquired.result with
    | .error e => ⟨.error e, acquired.state⟩
    | .ok _ => activate endpoints o (acquired.state.deliverAll messages) tunnel config

def attemptDelivering (o : Answers S) (d : Deliveries S) (s : GoBackend T C S) (tunnel : T)
    (config : Option C) : Outcome Unit (GoBackend T C S) :=
  setStateUpDelivering endpoints o.bringUp d.acquired (s.stopCurrent.deliverAll d.stopped) tunnel
    config

def reactivateDelivering (o : Answers S) (d : Deliveries S) (s : GoBackend T C S) (tunnel : T)
    (config : Option C) (original : T) : Outcome Unit (GoBackend T C S) :=
  setStateUpDelivering endpoints o.rollback d.reacquired
    ((attemptDelivering endpoints o d s tunnel config).state.deliverAll d.failed) original
    s.currentConfig

def setStateDelivering [DecidableEq T] [DecidableEq C] (o : Answers S) (d : Deliveries S)
    (s : GoBackend T C S) (tunnel : T) (requested : State) (config : Option C) :
    Outcome State (GoBackend T C S) :=
  setStateBody (attemptDelivering endpoints o d s tunnel config)
    (reactivateDelivering endpoints o d s tunnel config) s tunnel requested config

end Calls

/-- No message in flight can reach a service in use: the service has to be started again before
the next bring-up, or nothing is in flight. -/
def Fresh (s : GoBackend T C S) : Prop := s.vpnService = none ∨ s.inFlight = []

variable {s : GoBackend T C S}

theorem deliver_of_nil (h : s.inFlight = []) (x : S) : s.deliver x = s := by
  rw [deliver, if_neg (by rw [h]; exact List.not_mem_nil)]

theorem deliverAll_of_nil (h : s.inFlight = []) (xs : List S) : s.deliverAll xs = s := by
  induction xs with
  | nil => rfl
  | cons x xs ih =>
    rw [deliverAll, List.foldl_cons, deliver_of_nil h]
    exact ih

theorem deliver_vpnService (h : s.vpnService = none) (x : S) : (s.deliver x).vpnService = none := by
  unfold deliver
  split
  · rfl
  · exact h

theorem Fresh.deliver (h : Fresh s) (x : S) : Fresh (s.deliver x) := by
  cases h with
  | inl hnone => exact .inl (deliver_vpnService hnone x)
  | inr hnil =>
    rw [deliver_of_nil hnil]
    exact .inr hnil

theorem Fresh.deliverAll (h : Fresh s) (xs : List S) : Fresh (s.deliverAll xs) := by
  induction xs generalizing s with
  | nil => exact h
  | cons x xs ih => exact ih (h.deliver x)

theorem deliver_cases (x : S) : s.deliver x = s ∨ SameDevice (s.deliver x) (s.onDestroy x) := by
  unfold GoBackend.deliver
  split
  · exact .inr ⟨rfl, rfl, rfl, rfl, rfl⟩
  · exact .inl rfl

theorem deliver_sound (h : Sound s) (x : S) : Sound (s.deliver x) := by
  cases deliver_cases (s := s) x with
  | inl heq => rw [heq]; exact h
  | inr hsame => exact hsame.sound (onDestroy_sound h x)

theorem deliver_idle (h : Idle s) (x : S) : Idle (s.deliver x) := by
  cases deliver_cases (s := s) x with
  | inl heq => rw [heq]; exact h
  | inr hsame =>
    apply hsame.idle
    cases onDestroy_cases (.inl h) x with
    | inl hsame => exact hsame.idle h
    | inr hstop =>
      obtain ⟨t, c, -, hidle, -⟩ := hstop
      exact hidle

theorem deliverAll_idle (h : Idle s) (xs : List S) : Idle (s.deliverAll xs) := by
  induction xs generalizing s with
  | nil => exact h
  | cons x xs ih => exact ih (deliver_idle h x)

theorem deliver_unowned {x : S} (h : s.owned x = false) :
    (s.deliver x).currentTunnel = s.currentTunnel ∧ (s.deliver x).owned = s.owned ∧
      (s.deliver x).inFlight ⊆ s.inFlight := by
  unfold deliver onDestroy
  simp only [h]
  split
  · exact ⟨rfl, rfl, List.erase_subset⟩
  · exact ⟨rfl, rfl, List.Subset.refl _⟩

variable (endpoints : C → List (Option (List Char)))

theorem acquireService_fresh (o : Platform S) (h : Fresh s) :
    Fresh (acquireService o s).state ∧
      ∀ x, (acquireService o s).result = .ok x → (acquireService o s).state.inFlight = [] := by
  unfold acquireService
  split
  · exact ⟨h, fun x hx => nomatch hx⟩
  · cases hsvc : s.vpnService with
    | some y =>
      -- a cached service is taken as it is, so nothing may be in flight
      have hnil : s.inFlight = [] := by
        cases h with
        | inl hnone =>
          rw [hsvc] at hnone
          cases hnone
        | inr hnil => exact hnil
      exact ⟨.inr hnil, fun _ _ => hnil⟩
    | none =>
      simp only
      split
      · exact ⟨h, fun x hx => nomatch hx⟩
      · cases o.service <;> exact ⟨.inr rfl, fun _ _ => rfl⟩

omit [DecidableEq S] in
theorem activate_inFlight (o : Platform S) (s : GoBackend T C S) (t : T) (c : C) :
    (activate endpoints o s t c).state.inFlight = s.inFlight := by
  unfold activate
  split
  · rfl
  · split
    · rfl
    · split
      · rfl
      · cases o.establish with
        | thrown => rfl
        | null => rfl
        | tun =>
          simp only
          split <;> rfl

theorem setStateUpDelivering_cases (o : Platform S) (xs : List S) (hidle : Idle s)
    (hfresh : Fresh s) (t : T) (config : Option C) :
    ((∃ e, (setStateUpDelivering endpoints o xs s t config).result = .error e) ∧
        Idle (setStateUpDelivering endpoints o xs s t config).state ∧
        Fresh (setStateUpDelivering endpoints o xs s t config).state) ∨
      ((setStateUpDelivering endpoints o xs s t config).result = .ok () ∧
        (∃ c, Running (setStateUpDelivering endpoints o xs s t config).state t c) ∧
        (setStateUpDelivering endpoints o xs s t config).state.inFlight = []) := by
  unfold setStateUpDelivering
  cases config with
  | none => exact .inl ⟨⟨_, rfl⟩, hidle, hfresh⟩
  | some c =>
    have hacq : Idle (acquireService o s).state := (acquireService_same o s).idle hidle
    obtain ⟨hfresh', hnil⟩ := acquireService_fresh o hfresh
    simp only
    cases hres : (acquireService o s).result with
    | error e => exact .inl ⟨⟨e, rfl⟩, hacq, hfresh'⟩
    | ok x =>
      simp only [deliverAll_of_nil (hnil x hres)]
      have hstays : (activate endpoints o (acquireService o s).state t c).state.inFlight = [] := by
        rw [activate_inFlight]
        exact hnil x hres
      cases activate_idle endpoints o hacq t c with
      | inl hfail => exact .inl ⟨hfail.1, hfail.2.2.idle hacq, .inr hstays⟩
      | inr hok => exact .inr ⟨hok.1, ⟨c, hok.2.2.1⟩, hstays⟩

/-- A call with its deliveries, a delivery between two calls, or another message to the service. -/
inductive Action (T C S : Type*) where
  | setState (answers : Answers S) (deliveries : Deliveries S) (tunnel : T) (requested : State)
      (config : Option C)
  | deliver (service : S)
  | onCreate (service : S)
  | onDisconnect (service : S)

def act [DecidableEq T] [DecidableEq C] (s : GoBackend T C S) : Action T C S → GoBackend T C S
  | .setState answers deliveries tunnel requested config =>
    (setStateDelivering endpoints answers deliveries s tunnel requested config).state
  | .deliver service => s.deliver service
  | .onCreate service => s.onCreate service
  | .onDisconnect service => s.onDisconnect service

/-- The call goes through the bring-up: it resolves to `UP` and is not the one that is in effect
already. -/
def BringsUp [DecidableEq T] (s : GoBackend T C S) (tunnel : T) (requested : State)
    (config : Option C) : Prop :=
  requested.resolve (s.getState tunnel) = .up ∧
    ¬(s.currentTunnel = some tunnel ∧ config = s.currentConfig)

/-- A bring-up starts with no cached service, or with no tunnel to stop and no message in flight. -/
def StartsFresh [DecidableEq T] (s : GoBackend T C S) : Action T C S → Prop
  | .setState _ _ tunnel requested config =>
    BringsUp s tunnel requested config →
      s.vpnService = none ∨ (s.currentTunnel = none ∧ s.inFlight = [])
  | _ => True

/-- While a tunnel is up, the messages in flight are for services the backend does not own. -/
structure Quiet (s : GoBackend T C S) : Prop where
  sound : Sound s
  unowned : s.currentTunnel ≠ none → ∀ x ∈ s.inFlight, s.owned x = false

omit [DecidableEq S] in
theorem Quiet.of_idle (h : Idle s) : Quiet s :=
  ⟨.inl h, fun hne => absurd h.tunnel hne⟩

omit [DecidableEq S] in
theorem stopCurrent_fresh (h : s.vpnService = none ∨ (s.currentTunnel = none ∧ s.inFlight = [])) :
    Fresh s.stopCurrent := by
  cases h with
  | inl hnone =>
    left
    rw [stopCurrent_vpnService, hnone]
  | inr hnil =>
    right
    rw [stopCurrent, hnil.1]
    exact hnil.2

omit [DecidableEq S] in
theorem Quiet.of_nil (h : Sound s) (hnil : s.inFlight = []) : Quiet s :=
  ⟨h, fun _ _ hx => absurd (hnil ▸ hx) List.not_mem_nil⟩

theorem Quiet.setStateDelivering [DecidableEq T] [DecidableEq C] (o : Answers S)
    (d : Deliveries S) (h : Quiet s) (t : T) (requested : State) (config : Option C)
    (hguard : BringsUp s t requested config →
      s.vpnService = none ∨ (s.currentTunnel = none ∧ s.inFlight = [])) :
    Quiet (setStateDelivering endpoints o d s t requested config).state := by
  simp only [GoBackend.setStateDelivering, setStateBody]
  split
  · exact h
  · rename_i hnoop
    split
    · rename_i hup
      have hstart : Fresh s.stopCurrent := by
        apply stopCurrent_fresh
        apply hguard
        refine ⟨hup, fun hsame => hnoop ⟨?_, hsame⟩⟩
        rw [hup, getState_eq_up.mpr hsame.1]
      have hidle : Idle (s.stopCurrent.deliverAll d.stopped) :=
        deliverAll_idle (stopCurrent_idle h.sound) d.stopped
      cases setStateUpDelivering_cases endpoints o.bringUp d.acquired hidle
        (hstart.deliverAll d.stopped) t config with
      | inl hfail =>
        obtain ⟨⟨e, he⟩, hidle', hfresh'⟩ := hfail
        have herr : (attemptDelivering endpoints o d s t config).result = .error e := he
        simp only [herr]
        cases s.currentTunnel with
        | none => exact .of_idle hidle'
        | some u =>
          have hagain : Quiet (reactivateDelivering endpoints o d s t config u).state := by
            cases setStateUpDelivering_cases endpoints o.rollback d.reacquired
              (deliverAll_idle hidle' d.failed) (hfresh'.deliverAll d.failed) u
              s.currentConfig with
            | inl hlost => exact .of_idle hlost.2.1
            | inr hback =>
              obtain ⟨-, ⟨c, hrun⟩, hnil⟩ := hback
              exact .of_nil (.inr ⟨u, c, hrun⟩) hnil
          simp only
          split <;> exact hagain
      | inr hok =>
        obtain ⟨hres, ⟨c, hrun⟩, hnil⟩ := hok
        have hres' : (attemptDelivering endpoints o d s t config).result = .ok () := hres
        simp only [hres']
        exact .of_nil (.inr ⟨t, c, hrun⟩) hnil
    · split
      · rename_i hdown
        obtain ⟨c, hrun⟩ := h.sound.running hdown.2
        exact .of_idle (setStateDown_running hrun)
      · exact h

theorem Quiet.deliver (h : Quiet s) (x : S) : Quiet (s.deliver x) := by
  refine ⟨deliver_sound h.sound x, fun hne y hy => ?_⟩
  by_cases hx : x ∈ s.inFlight
  · cases htun : s.currentTunnel with
    | none =>
      have hidle : Idle s := h.sound.resolve_right fun hrun => by
        obtain ⟨t, c, hrun⟩ := hrun
        rw [hrun.tunnel] at htun
        cases htun
      exact absurd (deliver_idle hidle x).tunnel hne
    | some t =>
      have hcur : s.currentTunnel ≠ none := by rw [htun]; exact Option.some_ne_none t
      obtain ⟨-, hown, hsub⟩ := deliver_unowned (h.unowned hcur x hx)
      rw [hown]
      exact h.unowned hcur y (hsub hy)
  · have hsame : s.deliver x = s := by rw [GoBackend.deliver, if_neg hx]
    rw [hsame] at hne hy ⊢
    exact h.unowned hne y hy

omit [DecidableEq S] in
theorem Quiet.onDisconnect (h : Quiet s) (x : S) : Quiet (s.onDisconnect x) := by
  have hsound : Sound (s.complete x) := (complete_same s x).sound h.sound
  unfold GoBackend.onDisconnect
  simp only
  split
  · have hidle : Idle (s.complete x).disconnect := disconnect_idle hsound
    exact .of_idle ⟨hidle.tunnel, hidle.config, hidle.handle, hidle.handles⟩
  · rename_i howned
    refine ⟨?_, fun hne y hy => ?_⟩
    · have hsame : SameDevice
          { s.complete x with inFlight := x :: (s.complete x).inFlight } (s.complete x) :=
        ⟨rfl, rfl, rfl, rfl, rfl⟩
      exact hsame.sound hsound
    · cases List.mem_cons.mp hy with
      | inl heq =>
        rw [heq]
        exact eq_false_of_ne_true howned
      | inr hmem => exact h.unowned hne y hmem

theorem Quiet.act [DecidableEq T] [DecidableEq C] (h : Quiet s) (a : Action T C S)
    (hguard : StartsFresh s a) : Quiet (act endpoints s a) := by
  cases a with
  | setState o d t requested config =>
    exact h.setStateDelivering endpoints o d t requested config hguard
  | deliver x => exact h.deliver x
  | onCreate x => exact ⟨(complete_same s x).sound h.sound, h.unowned⟩
  | onDisconnect x => exact h.onDisconnect x

theorem Quiet.deliverAll (h : Quiet s) (xs : List S) {t : T} (ht : s.currentTunnel = some t) :
    (s.deliverAll xs).currentTunnel = some t := by
  induction xs generalizing s with
  | nil => exact ht
  | cons x xs ih =>
    refine ih (h.deliver x) ?_
    by_cases hx : x ∈ s.inFlight
    · have hcur : s.currentTunnel ≠ none := by rw [ht]; exact Option.some_ne_none t
      rw [(deliver_unowned (h.unowned hcur x hx)).1, ht]
    · rw [GoBackend.deliver, if_neg hx]
      exact ht

/-- In every run whose bring-ups all start fresh, a tunnel that is up stays up however many of the
messages in flight are delivered. -/
theorem delivered_tunnel_stays_up [DecidableEq T] [DecidableEq C] (actions : List (Action T C S))
    (hfresh : Runs.Guarded (act endpoints) StartsFresh initial actions) :
    ∀ s ∈ Runs.states (act endpoints) initial actions, ∀ t, s.getState t = .up →
      ∀ messages, (s.deliverAll messages).getState t = .up := by
  intro s hs t ht messages
  have hquiet : Quiet s :=
    Runs.invariant_states (fun s a (h : Quiet s) hg => h.act endpoints a hg)
      (.of_idle ⟨rfl, rfl, rfl, fun i => AList.notMem_empty i⟩) hfresh s hs
  rw [getState_eq_up] at ht ⊢
  exact hquiet.deliverAll messages ht

/-- One tunnel, brought up, taken down, and after the message was delivered up again. -/
theorem delivered_tunnel_stays_up_again :
    let run := [Action.setState ⟨.working 0, .working 0⟩ .nothing false .up (some 1),
      .setState ⟨.working 0, .working 0⟩ .nothing false .down none, .deliver 0,
      .setState ⟨.working 1, .working 1⟩ .nothing false .up (some 1)]
    let s : GoBackend Bool Nat Nat := Runs.run (act (fun _ => [])) initial run
    (s.deliverAll [0, 1]).getState false = .up := by
  intro run s
  have hfresh : Runs.Guarded (act (fun _ : Nat => [])) StartsFresh
      (initial : GoBackend Bool Nat Nat) run :=
    ⟨fun _ => .inl rfl, fun h => absurd h.1 (by decide), trivial, fun _ => .inl rfl, trivial⟩
  exact delivered_tunnel_stays_up (fun _ : Nat => []) run hfresh s (Runs.run_mem_states _ _ _)
    false rfl [0, 1]

/-- Switching from `false` to `true` leaves the message of the first tunnel's end in flight for the
service the second one runs on; its delivery takes the second tunnel down. -/
theorem switched_tunnel_destroyed :
    let s : GoBackend Bool Nat Nat := Runs.run (act (fun _ => [])) initial
      [.setState ⟨.working 0, .working 0⟩ .nothing false .up (some 1),
        .setState ⟨.working 0, .working 0⟩ .nothing true .up (some 2)]
    s.getState true = .up ∧ 0 ∈ s.inFlight ∧ (s.deliver 0).getState true = .down ∧
      (s.deliver 0).notified true = .down :=
  ⟨rfl, by decide, rfl, rfl⟩

end Amnezia.Backend.GoBackend
