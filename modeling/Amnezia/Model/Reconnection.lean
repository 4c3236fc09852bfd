import Amnezia.Model.TunnelState

/-!
# Reconnecting after a network change

`Application.onNetworkChange` takes each active tunnel down, waits, and brings it up again, while
the user may ask for tunnels to go up or down.  Every request is cut at its suspension points: the
check on the main thread, the call of the backend on another thread, and the state written back on
the main thread.
-/

namespace Amnezia.Model

open Amnezia.Backend

namespace TunnelManager

variable {T C S N : Type*} [DecidableEq T]

def writeState (m : TunnelManager T C S N) (tunnel : T) (before : State)
    (result : Except Failure State) : TunnelManager T C S N :=
  match result with
  | .ok newState =>
    let used := if newState = .up then some tunnel else m.lastUsedTunnel
    ({ m with lastUsedTunnel := used }.onStateChanged tunnel newState).saveState
  | .error _ => (m.onStateChanged tunnel before).saveState

def callBackend [DecidableEq C] [DecidableEq S] (endpoints : C → List (Option (List Char)))
    (o : GoBackend.Answers S) (load : Option C) (m : TunnelManager T C S N) (tunnel : T)
    (requested : State) : Outcome State (TunnelManager T C S N) :=
  let got := getConfigAsync load m tunnel
  match got.result with
  | .error e => ⟨.error e, got.state⟩
  | .ok config =>
    let out := GoBackend.setState endpoints o got.state.backend tunnel requested (some config)
    ⟨out.result, { got.state with backend := out.state }⟩

end TunnelManager

/-- Where the reconnection goes on; `rest` are the active tunnels it has not come to. -/
inductive Phase (T : Type*) where
  | start
  | takeDown (tunnel : T) (before : State) (rest : List T)
  | tookDown (tunnel : T) (before : State) (result : Except Failure State) (rest : List T)
  | pause (tunnel : T) (rest : List T)
  | bringUp (tunnel : T) (before : State) (rest : List T)
  | broughtUp (tunnel : T) (before : State) (result : Except Failure State) (rest : List T)
  | done

structure UserCall (T : Type*) where
  tunnel : T
  up : Bool
  before : State

structure Returned (T : Type*) where
  tunnel : T
  before : State
  result : Except Failure State

structure Reconnection (T C S N : Type*) where
  manager : TunnelManager T C S N
  phase : Phase T
  /-- In the order in which they were made. -/
  waiting : List (UserCall T)
  returned : List (Returned T)
  /-- What the last request of the user asked to be up. -/
  asked : Option T
  /-- What the last one asked for of those that are past the backend. -/
  settled : Option T

/-- What the scheduler does next: the reconnection or one of the requests goes on, or the user makes
a request. -/
inductive ReconnectAction (T : Type*) where
  | reconnect
  | setStateAsync (tunnel : T) (up : Bool)
  | setTunnelState (tunnel : T) (up : Bool)
  | callBackend (i : Nat)
  | writeState (i : Nat)

namespace Reconnection

variable {T C S N : Type*} [DecidableEq T]

section Program

variable [DecidableEq C] [DecidableEq S] (endpoints : C → List (Option (List Char)))
  (platform : Platform S) (load : T → C)

def target (tunnel : T) (up : Bool) : Option T := if up then some tunnel else none

def begin (m : TunnelManager T C S N) : Reconnection T C S N :=
  { manager := m
    phase := .start
    waiting := []
    returned := []
    asked := m.backend.currentTunnel
    settled := m.backend.currentTunnel }

/-- The loop over the active tunnels, up to the first suspension: `setStateAsync(DOWN)` compares. -/
def next (m : TunnelManager T C S N) : List T → Phase T
  | [] => .done
  | tunnel :: rest =>
    if m.state tunnel ≠ .down then .takeDown tunnel (m.state tunnel) rest else .pause tunnel rest

def callBackend (m : TunnelManager T C S N) (tunnel : T) (up : Bool) :
    Outcome State (TunnelManager T C S N) :=
  TunnelManager.callBackend endpoints ⟨platform, platform⟩ (some (load tunnel)) m tunnel
    (State.of up)

def reconnect (r : Reconnection T C S N) : Reconnection T C S N :=
  let m := r.manager
  match r.phase with
  | .start => { r with phase := next m (m.tunnelMap.filter fun t => m.state t = .up) }
  | .takeDown tunnel before rest =>
    let out := callBackend endpoints platform load m tunnel false
    { r with manager := out.state, phase := .tookDown tunnel before out.result rest }
  | .tookDown tunnel before result rest =>
    let written := m.writeState tunnel before result
    { r with
      manager := written
      phase := match result with
        | .ok _ => .pause tunnel rest
        | .error _ => next written rest }
  | .pause tunnel rest =>
    { r with
      phase := if m.state tunnel ≠ .up then .bringUp tunnel (m.state tunnel) rest
        else next m rest }
  | .bringUp tunnel before rest =>
    let out := callBackend endpoints platform load m tunnel true
    { r with manager := out.state, phase := .broughtUp tunnel before out.result rest }
  | .broughtUp tunnel before result rest =>
    let written := m.writeState tunnel before result
    { r with manager := written, phase := next written rest }
  | .done => r

def setTunnelState (r : Reconnection T C S N) (tunnel : T) (up : Bool) : Reconnection T C S N :=
  { r with
    waiting := r.waiting ++ [⟨tunnel, up, r.manager.state tunnel⟩]
    asked := target tunnel up }

/-- `setStateAsync` answers by itself when the tunnel is in the state asked for. -/
def setStateAsync (r : Reconnection T C S N) (tunnel : T) (up : Bool) : Reconnection T C S N :=
  if State.of up ≠ r.manager.state tunnel then r.setTunnelState tunnel up
  else { r with asked := target tunnel up, settled := target tunnel up }

def step (r : Reconnection T C S N) : ReconnectAction T → Reconnection T C S N
  | .reconnect => r.reconnect endpoints platform load
  | .setStateAsync tunnel up => r.setStateAsync tunnel up
  | .setTunnelState tunnel up => r.setTunnelState tunnel up
  | .callBackend i =>
    match r.waiting[i]? with
    | none => r
    | some call =>
      let out := callBackend endpoints platform load r.manager call.tunnel call.up
      { r with
        manager := out.state
        waiting := r.waiting.eraseIdx i
        returned := ⟨call.tunnel, call.before, out.result⟩ :: r.returned
        settled := target call.tunnel call.up }
  | .writeState i =>
    match r.returned[i]? with
    | none => r
    | some back =>
      { r with
        manager := r.manager.writeState back.tunnel back.before back.result
        returned := r.returned.eraseIdx i }

end Program

structure Finished (r : Reconnection T C S N) : Prop where
  phase : r.phase = .done
  waiting : r.waiting = []
  returned : r.returned = []

def Fresh (r : Reconnection T C S N) (tunnel : T) (result : Except Failure State) : Prop :=
  result = .ok (r.manager.backend.getState tunnel)

/-- States are written while they are up to date.  The reconnection brings a tunnel up only while
the user's requests so far want that tunnel up.  Requests get to the backend in the order in which
they are made, those that are answered without it included; and none asks to take a tunnel down
while another one is up. -/
def Orderly (r : Reconnection T C S N) : ReconnectAction T → Prop
  | .reconnect =>
    match r.phase with
    | .tookDown tunnel _ result _ => r.Fresh tunnel result
    | .bringUp tunnel _ _ => r.settled = some tunnel
    | .broughtUp tunnel _ result _ => r.Fresh tunnel result
    | _ => True
  | .setStateAsync tunnel up =>
    State.of up = r.manager.state tunnel →
      r.waiting = [] ∧ (up = false → r.manager.backend.currentTunnel = none)
  | .setTunnelState _ _ => True
  | .callBackend i =>
    i = 0 ∧ ∀ call ∈ r.waiting.head?, call.up = false →
      r.manager.backend.currentTunnel = some call.tunnel ∨ r.manager.backend.currentTunnel = none
  | .writeState i => ∀ back ∈ r.returned[i]?, r.Fresh back.tunnel back.result

def Restarts (tunnel : T) : Phase T → Prop
  | .tookDown t _ _ _ => t = tunnel
  | .pause t _ => t = tunnel
  | .bringUp t _ _ => t = tunnel
  | _ => False

/-- The tunnel that runs is the one the settled requests want, or the reconnection is about to
bring that one up. -/
structure Level (r : Reconnection T C S N) : Prop where
  sound : GoBackend.Sound r.manager.backend
  agree : TunnelManager.StatesAgree r.manager
  asked : r.asked = r.waiting.foldl (fun _ call => target call.tunnel call.up) r.settled
  running : r.manager.backend.currentTunnel = r.settled ∨
    r.manager.backend.currentTunnel = none ∧ ∃ tunnel, r.settled = some tunnel ∧
      Restarts tunnel r.phase

variable {r : Reconnection T C S N} {m : TunnelManager T C S N} {tunnel : T}

theorem writeState_spec (hsound : GoBackend.Sound r.manager.backend)
    (hagree : TunnelManager.StatesAgree r.manager) (before : State) {result : Except Failure State}
    (hfresh : r.Fresh tunnel result) :
    GoBackend.Sound (r.manager.writeState tunnel before result).backend ∧
      TunnelManager.StatesAgree (r.manager.writeState tunnel before result) ∧
      (r.manager.writeState tunnel before result).backend.currentTunnel =
        r.manager.backend.currentTunnel := by
  rw [Fresh] at hfresh
  subst hfresh
  have htold : GoBackend.Told r.manager.backend := hagree
  exact ⟨GoBackend.notify_sound hsound tunnel _, (GoBackend.notify_told_iff htold tunnel _).2 rfl,
    rfl⟩

theorem Level.current_eq_settled (h : r.Level) (hphase : ∀ tunnel, ¬Restarts tunnel r.phase) :
    r.manager.backend.currentTunnel = r.settled := by
  rcases h.running with heq | ⟨-, tunnel, -, hrestarts⟩
  · exact heq
  · exact absurd hrestarts (hphase tunnel)

theorem Level.current_of_state_up (h : r.Level) (hup : r.manager.state tunnel = .up) :
    r.manager.backend.currentTunnel = some tunnel :=
  GoBackend.getState_eq_up.1 ((h.agree tunnel).symm.trans hup)

theorem Level.setTunnelState (h : r.Level) (tunnel : T) (up : Bool) :
    (r.setTunnelState tunnel up).Level := by
  refine ⟨h.sound, h.agree, ?_, h.running⟩
  show target tunnel up = (r.waiting ++ [_]).foldl _ _
  rw [List.foldl_append]
  rfl

theorem Level.setStateAsync (h : r.Level) {up : Bool}
    (hguard : r.Orderly (.setStateAsync tunnel up)) : (r.setStateAsync tunnel up).Level := by
  unfold Reconnection.setStateAsync
  split
  · exact h.setTunnelState tunnel up
  · rename_i hsame
    have hstate : State.of up = r.manager.state tunnel := not_not.1 hsame
    obtain ⟨hwaiting, hdown⟩ := hguard hstate
    refine ⟨h.sound, h.agree, ?_, .inl ?_⟩
    · show target tunnel up = r.waiting.foldl _ (target tunnel up)
      rw [hwaiting]
      rfl
    · cases up with
      | true => exact h.current_of_state_up hstate.symm
      | false => exact hdown rfl

def ahead : Phase T → List T
  | .start => []
  | .takeDown tunnel _ rest => tunnel :: rest
  | .tookDown tunnel _ _ rest => tunnel :: rest
  | .pause tunnel rest => tunnel :: rest
  | .bringUp tunnel _ rest => tunnel :: rest
  | .broughtUp tunnel _ _ rest => tunnel :: rest
  | .done => []

/-- The reconnection alone: it deals with the tunnel that was running, and what it wrote is up to
date. -/
structure Alone (current : Option T) (r : Reconnection T C S N) : Prop where
  level : r.Level
  settled : r.settled = current
  ahead : ∀ tunnel ∈ ahead r.phase, current = some tunnel
  fresh : r.Orderly .reconnect

theorem ahead_next (m : TunnelManager T C S N) (rest : List T) : ahead (next m rest) = rest := by
  cases rest with
  | nil => rfl
  | cons tunnel rest =>
    rw [next]
    split <;> rfl

theorem orderly_of_next {rest : List T} (hphase : r.phase = next m rest) :
    r.Orderly .reconnect := by
  unfold Orderly
  cases rest with
  | nil =>
    rw [next] at hphase
    simp only [hphase]
  | cons tunnel rest =>
    rw [next] at hphase
    split at hphase <;> simp only [hphase]

theorem level_begin (hsound : GoBackend.Sound m.backend) (hagree : TunnelManager.StatesAgree m) :
    (begin m).Level :=
  ⟨hsound, hagree, rfl, .inl rfl⟩

section Steps

variable [DecidableEq C] [DecidableEq S] {endpoints : C → List (Option (List Char))}
  {platform : Platform S} {load : T → C}

theorem Level.writeState (h : r.Level) {i : Nat} (hguard : r.Orderly (.writeState i)) :
    (r.step endpoints platform load (.writeState i)).Level := by
  simp only [step]
  cases hget : r.returned[i]? with
  | none => exact h
  | some back =>
    obtain ⟨hsound, hagree, hsame⟩ := writeState_spec h.sound h.agree back.before
      (hguard back hget)
    exact ⟨hsound, hagree, h.asked, hsame.symm ▸ h.running⟩

variable (endpoints platform load) in
def reconnectAlone (m : TunnelManager T C S N) (n : Nat) : Reconnection T C S N :=
  Runs.run (step endpoints platform load) (begin m) (List.replicate n .reconnect)

variable
  (hplatform : ∀ service config, GoBackend.CanBringUp endpoints platform service (some config))

include hplatform

theorem callBackend_spec (hsound : GoBackend.Sound m.backend) (hagree : TunnelManager.StatesAgree m)
    (tunnel : T) (up : Bool) : let out := callBackend endpoints platform load m tunnel up
    GoBackend.Sound out.state.backend ∧ TunnelManager.StatesAgree out.state ∧
      out.result = .ok (out.state.backend.getState tunnel) ∧
      out.state.backend.currentTunnel =
        if up then some tunnel
        else if m.backend.currentTunnel = some tunnel then none else m.backend.currentTunnel := by
  intro out
  have hout : out = TunnelManager.callBackend endpoints ⟨platform, platform⟩ (some (load tunnel)) m
      tunnel (State.of up) := rfl
  have hback := TunnelManager.getConfigAsync_backend (some (load tunnel)) m tunnel
  unfold TunnelManager.callBackend at hout
  rcases TunnelManager.getConfigAsync_cases (some (load tunnel)) m tunnel with
    ⟨-, hnone⟩ | ⟨config, hok, -⟩
  · simp at hnone
  · simp only [hok, hback] at hout
    have hset := GoBackend.setState_sound endpoints ⟨platform, platform⟩ hsound tunnel
      (State.of up) (some config)
    have htold := GoBackend.setState_told endpoints ⟨platform, platform⟩ hsound hagree tunnel
      (State.of up) (some config)
    rw [hout]
    refine ⟨hset, htold, ?_⟩
    cases up with
    | true =>
      obtain ⟨hres, hcur⟩ := GoBackend.setState_up_of_can endpoints ⟨platform, platform⟩ hsound
        tunnel (hplatform m.backend.vpnService config)
      exact ⟨hres.trans (congrArg _ (GoBackend.getState_eq_up.2 hcur).symm), hcur⟩
    | false =>
      obtain ⟨hres, hcur⟩ := GoBackend.setState_down endpoints ⟨platform, platform⟩ hsound tunnel
        (some config)
      refine ⟨hres.trans (congrArg _ (GoBackend.getState_eq_down.2 ?_).symm), hcur⟩
      rw [State.of_false, hcur]
      split
      · exact (Option.some_ne_none tunnel).symm
      · assumption

theorem Level.reconnect (h : r.Level) (hguard : r.Orderly .reconnect) :
    (r.reconnect endpoints platform load).Level := by
  unfold Reconnection.reconnect
  unfold Orderly at hguard
  cases hphase : r.phase with
  | start =>
    have hcur := h.current_eq_settled (by simp [hphase, Restarts])
    exact ⟨h.sound, h.agree, h.asked, .inl hcur⟩
  | takeDown tunnel before rest =>
    have hcur := h.current_eq_settled (by simp [hphase, Restarts])
    obtain ⟨hsound, hagree, -, hnow⟩ := callBackend_spec hplatform h.sound h.agree
      tunnel false
    refine ⟨hsound, hagree, h.asked, ?_⟩
    by_cases hown : r.manager.backend.currentTunnel = some tunnel
    · -- the tunnel is down until the reconnection brings it up
      exact .inr ⟨hnow.trans (if_pos hown), tunnel, hcur.symm.trans hown, rfl⟩
    · exact .inl (hnow.trans ((if_neg hown).trans hcur))
  | tookDown tunnel before result rest =>
    simp only [hphase] at hguard
    obtain ⟨hsound, hagree, hsame⟩ := writeState_spec h.sound h.agree before hguard
    rw [Fresh] at hguard
    subst hguard
    refine ⟨hsound, hagree, h.asked, ?_⟩
    have hrunning := h.running
    rw [hphase] at hrunning
    exact hsame.symm ▸ hrunning
  | pause tunnel rest =>
    refine ⟨h.sound, h.agree, h.asked, ?_⟩
    have hrunning := h.running
    rw [hphase] at hrunning
    by_cases hup : r.manager.state tunnel = .up
    · rcases hrunning with heq | ⟨hnone, -⟩
      · exact .inl heq
      · rw [h.current_of_state_up hup] at hnone
        cases hnone
    · simp only [ne_eq, hup, not_false_eq_true, if_true]
      exact hrunning
  | bringUp tunnel before rest =>
    simp only [hphase] at hguard
    obtain ⟨hsound, hagree, -, hnow⟩ := callBackend_spec hplatform h.sound h.agree
      tunnel true
    exact ⟨hsound, hagree, h.asked, .inl (hnow.trans hguard.symm)⟩
  | broughtUp tunnel before result rest =>
    simp only [hphase] at hguard
    have hcur := h.current_eq_settled (by simp [hphase, Restarts])
    obtain ⟨hsound, hagree, hsame⟩ := writeState_spec h.sound h.agree before hguard
    exact ⟨hsound, hagree, h.asked, .inl (hsame.trans hcur)⟩
  | done => exact h

theorem Level.callBackend (h : r.Level) {i : Nat} (hguard : r.Orderly (.callBackend i)) :
    (r.step endpoints platform load (.callBackend i)).Level := by
  obtain ⟨rfl, hdown⟩ := hguard
  simp only [step]
  cases hwaiting : r.waiting with
  | nil => exact h
  | cons call waiting =>
    obtain ⟨hsound, hagree, -, hnow⟩ := callBackend_spec hplatform h.sound h.agree
      call.tunnel call.up
    have hasked := h.asked
    rw [hwaiting] at hasked
    refine ⟨hsound, hagree, hasked, .inl (hnow.trans ?_)⟩
    have hhead : call ∈ r.waiting.head? := by
      rw [hwaiting]
      rfl
    show _ = target call.tunnel call.up
    cases hup : call.up with
    | true => rfl
    | false =>
      rcases hdown call hhead hup with hown | hnone
      · exact if_pos hown
      · exact (ite_eq_right_iff.2 fun _ => hnone.symm).trans hnone

theorem level_step {a : ReconnectAction T} (h : r.Level) (hguard : r.Orderly a) :
    (r.step endpoints platform load a).Level := by
  cases a with
  | reconnect => exact h.reconnect hplatform hguard
  | setStateAsync tunnel up => exact h.setStateAsync hguard
  | setTunnelState tunnel up => exact h.setTunnelState tunnel up
  | callBackend i => exact h.callBackend hplatform hguard
  | writeState i => exact h.writeState hguard

theorem alone_step {current : Option T} (h : r.Alone current) :
    (r.reconnect endpoints platform load).Alone current := by
  have hlevel : (r.reconnect endpoints platform load).Level := h.level.reconnect hplatform h.fresh
  have hahead := h.ahead
  have hfresh := h.fresh
  unfold Orderly at hfresh
  unfold Reconnection.reconnect at hlevel ⊢
  cases hphase : r.phase with
  | start =>
    simp only [hphase] at hlevel ⊢
    refine ⟨hlevel, h.settled, ?_, orderly_of_next rfl⟩
    intro tunnel ht
    rw [ahead_next, List.mem_filter, decide_eq_true_eq] at ht
    have hcur := h.level.current_eq_settled (by simp [hphase, Restarts])
    rw [← h.settled, ← hcur]
    exact h.level.current_of_state_up ht.2
  | takeDown tunnel before rest =>
    simp only [hphase] at hlevel hahead ⊢
    obtain ⟨-, -, hresult, -⟩ := callBackend_spec hplatform h.level.sound h.level.agree
      tunnel false
    exact ⟨hlevel, h.settled, hahead, hresult⟩
  | tookDown tunnel before result rest =>
    simp only [hphase] at hlevel hahead hfresh ⊢
    rw [Fresh] at hfresh
    subst hfresh
    exact ⟨hlevel, h.settled, hahead, trivial⟩
  | pause tunnel rest =>
    simp only [hphase] at hlevel hahead ⊢
    by_cases hup : r.manager.state tunnel = .up
    · rw [if_neg (not_not.2 hup)] at hlevel ⊢
      refine ⟨hlevel, h.settled, ?_, orderly_of_next rfl⟩
      rw [ahead_next]
      exact fun t ht => hahead t (List.mem_cons_of_mem _ ht)
    · rw [if_pos hup] at hlevel ⊢
      exact ⟨hlevel, h.settled, hahead, h.settled.trans (hahead tunnel List.mem_cons_self)⟩
  | bringUp tunnel before rest =>
    simp only [hphase] at hlevel hahead ⊢
    obtain ⟨-, -, hresult, -⟩ := callBackend_spec hplatform h.level.sound h.level.agree
      tunnel true
    exact ⟨hlevel, h.settled, hahead, hresult⟩
  | broughtUp tunnel before result rest =>
    simp only [hphase] at hlevel hahead ⊢
    refine ⟨hlevel, h.settled, ?_, orderly_of_next rfl⟩
    rw [ahead_next]
    exact fun t ht => hahead t (List.mem_cons_of_mem _ ht)
  | done => exact h

theorem alone_run (hsound : GoBackend.Sound m.backend) (hagree : TunnelManager.StatesAgree m)
    (n : Nat) : (reconnectAlone endpoints platform load m n).Alone m.backend.currentTunnel := by
  have hbegin : (begin m).Alone m.backend.currentTunnel :=
    ⟨level_begin hsound hagree, rfl, fun t ht => absurd ht List.not_mem_nil, trivial⟩
  unfold reconnectAlone
  generalize begin m = r at hbegin ⊢
  induction n generalizing r with
  | zero => exact hbegin
  | succ n ih =>
    rw [List.replicate_succ, Runs.run_cons]
    exact ih _ (alone_step hplatform hbegin)

/-- When everything has finished, the tunnel that runs is the one the last request of the user asked
for, in every run whose steps are orderly; and without any request it is the one that ran before. -/
theorem ends_as_asked {m : TunnelManager T C S N} (hsound : GoBackend.Sound m.backend)
    (hagree : TunnelManager.StatesAgree m) :
    (∀ actions, Runs.Guarded (step endpoints platform load) Orderly (begin m) actions →
      ∀ r ∈ Runs.states (step endpoints platform load) (begin m) actions, r.Finished →
        r.manager.backend.currentTunnel = r.asked ∧ TunnelManager.StatesAgree r.manager) ∧
      ∀ n, (reconnectAlone endpoints platform load m n).phase = .done →
        (reconnectAlone endpoints platform load m n).manager.backend.currentTunnel =
            m.backend.currentTunnel ∧
          TunnelManager.StatesAgree (reconnectAlone endpoints platform load m n).manager := by
  constructor
  · intro actions hguard r hr hdone
    have hkeep : ∀ (r : Reconnection T C S N) a, r.Level → r.Orderly a →
        (r.step endpoints platform load a).Level := fun _ _ h hguard => level_step hplatform h hguard
    have hlevel : r.Level :=
      Runs.invariant_states hkeep (level_begin hsound hagree) hguard r hr
    have hcur := hlevel.current_eq_settled (by simp [hdone.phase, Restarts])
    have hasked := hlevel.asked
    rw [hdone.waiting] at hasked
    exact ⟨hcur.trans hasked.symm, hlevel.agree⟩
  · intro n hdone
    have halone : (reconnectAlone endpoints platform load m n).Alone m.backend.currentTunnel :=
      alone_run hplatform hsound hagree n
    have hcur := halone.level.current_eq_settled (by simp [hdone, Restarts])
    exact ⟨hcur.trans halone.settled, halone.level.agree⟩

end Steps

def exampleManager : TunnelManager Bool Nat Nat Bool :=
  (TunnelManager.setTunnelState (fun _ => []) ⟨.working 0, .working 0⟩ (some 0)
    (TunnelManager.loaded [false, true] id none []) false .up).state

def exampleRun (actions : List (ReconnectAction Bool)) : Reconnection Bool Nat Nat Bool :=
  Runs.run (step (fun _ => []) (.working 0) Bool.toNat) (begin exampleManager) actions

/-- During the pause the user asks for the tunnel that the reconnection has taken down. -/
theorem ends_as_asked_example :
    let r := exampleRun [.reconnect, .reconnect, .reconnect, .setStateAsync false true,
      .callBackend 0, .writeState 0, .reconnect]
    r.manager.backend.currentTunnel = r.asked ∧ r.asked = some false := by
  intro r
  have hworking : ∀ (service : Option Nat) (config : Nat),
      GoBackend.CanBringUp (fun _ => []) (Platform.working 0) service (some config) :=
    fun _ config => ⟨config, rfl, ⟨rfl, .inr ⟨rfl, 0, rfl⟩⟩, rfl, rfl, rfl, by decide⟩
  have hsound : GoBackend.Sound exampleManager.backend :=
    TunnelManager.call_sound (fun _ => []) GoBackend.sound_initial
      (.setTunnelState ⟨.working 0, .working 0⟩ (some 0) false .up)
  have hagree : TunnelManager.StatesAgree exampleManager := fun t => by cases t <;> rfl
  refine ⟨((ends_as_asked hworking hsound hagree).1 _ ?_ r (Runs.run_mem_states _ _ _)
    ⟨rfl, rfl, rfl⟩).1, rfl⟩
  refine ⟨trivial, trivial, rfl, fun h => ?_, ⟨rfl, fun call hcall hup => ?_⟩,
    fun back hback => ?_, trivial, trivial⟩
  · cases h
  · cases hcall
    cases hup
  · cases hback
    rfl

/-- During the pause the user asks to keep the tunnel down, or for another tunnel; the tunnel that
the reconnection had taken down comes up all the same. -/
theorem reconnection_overrides_user :
    let stopped := exampleRun [.reconnect, .reconnect, .reconnect, .setStateAsync false false,
      .reconnect, .reconnect, .reconnect]
    let switched := exampleRun [.reconnect, .reconnect, .reconnect, .setStateAsync true true,
      .callBackend 0, .writeState 0, .reconnect, .reconnect, .reconnect]
    (stopped.Finished ∧ stopped.asked = none ∧
        stopped.manager.backend.currentTunnel = some false) ∧
      switched.Finished ∧ switched.asked = some true ∧
        switched.manager.backend.currentTunnel = some false := by
  exact ⟨⟨⟨rfl, rfl, rfl⟩, rfl, rfl⟩, ⟨rfl, rfl, rfl⟩, rfl, rfl⟩

end Reconnection

end Amnezia.Model
