import Amnezia.Lib.Runs
import Amnezia.Backend.Notifications

/-!
# The connection status of a tunnel

A backend's status job waits for a handshake of the current tunnel and then calls
`onStatusChanged(true)`, which names no tunnel.  The task this posts marks the first tunnel of the
map that is up when the task runs.
-/

namespace Amnezia.Model

open Amnezia.Backend

inductive ConnectionStatus where
  | disconnected
  | connecting
  | connected
deriving DecidableEq, Repr

inductive AnyBackend (T C S N : Type*) where
  | go (backend : GoBackend T C S)
  | awgQuick (backend : AwgQuickBackend T C N)

/-- What the platform answers to a call, whichever backend it goes to. -/
structure AnyAnswers (S : Type*) where
  go : GoBackend.Answers S
  awgQuick : Shell

namespace AnyBackend

variable {T C S N : Type*} [DecidableEq T] [DecidableEq C] [DecidableEq S] [DecidableEq N]

def setState (endpoints : C → List (Option (List Char))) (name : T → N)
    (order : HashOrder (T × C)) (o : AnyAnswers S) (tunnel : T) (requested : State)
    (config : Option C) : AnyBackend T C S N → AnyBackend T C S N × List (T × State)
  | .go b =>
    let after := (GoBackend.setState endpoints o.go b tunnel requested config).state
    (.go after, notificationsSince b.log after.log)
  | .awgQuick b =>
    let after := (AwgQuickBackend.setState name order o.awgQuick b tunnel requested config).state
    (.awgQuick after, notificationsSince b.log after.log)

def log : AnyBackend T C S N → List (T × State)
  | .go b => b.log
  | .awgQuick b => b.log

/-- The notifications handed to the manager are what the call put on the log. -/
theorem setState_log (endpoints : C → List (Option (List Char))) (name : T → N)
    (order : HashOrder (T × C)) (o : AnyAnswers S) (tunnel : T) (requested : State)
    (config : Option C) (b : AnyBackend T C S N) :
    (b.setState endpoints name order o tunnel requested config).1.log =
      (b.setState endpoints name order o tunnel requested config).2.reverse ++ b.log := by
  cases b with
  | go b =>
    have hlog := GoBackend.setState_log endpoints o.go b tunnel requested config
    exact notificationsSince_of_suffix hlog.suffix
  | awgQuick b =>
    have hlog := AwgQuickBackend.setState_log name order o.awgQuick b tunnel requested config
    exact notificationsSince_of_suffix hlog

def setMultipleTunnels (on : Bool) : AnyBackend T C S N → AnyBackend T C S N
  | .go b => .go b
  | .awgQuick b => .awgQuick (b.setMultipleTunnels on)

/-- The tunnel whose handshake the status job asks for, unless `getLastHandshake` gives -3. -/
def polled (name : T → N) : AnyBackend T C S N → Option T
  | .go b => if b.currentTunnelHandle = -1 then none else b.currentTunnel
  | .awgQuick b => b.currentTunnel.filter fun t => name t ∈ b.interfaces

end AnyBackend

structure StatusManager (T C S N : Type*) where
  backend : AnyBackend T C S N
  tunnelMap : List T
  /-- `ObservableTunnel.state` and `.connectionStatus`. -/
  state : T → State
  connectionStatus : T → ConnectionStatus
  /-- The notifications that calls of the backend have still to make. -/
  notifications : List (T × State)
  /-- The tasks posted to the main queue, each as the tunnel its handshake was observed for. -/
  tasks : List T
  /-- Whether a handshake of the tunnel was observed since it last came up. -/
  observed : T → Bool

/-- What may happen next.  A state is also written by the manager, at the end of `setTunnelState`
and when it refreshes the states. -/
inductive StatusAction (T C S : Type*) where
  | setState (answers : AnyAnswers S) (tunnel : T) (requested : State) (config : Option C)
  | setMultipleTunnels (on : Bool)
  | onStateChange
  | onStateChanged (tunnel : T) (state : State)
  | onStatusChanged
  | runTask (i : Nat)

namespace StatusManager

variable {T C S N : Type*} [DecidableEq T]

def loaded (backend : AnyBackend T C S N) (tunnelMap : List T) (state : T → State) :
    StatusManager T C S N :=
  { backend := backend
    tunnelMap := tunnelMap
    state := state
    connectionStatus := fun _ => .disconnected
    notifications := []
    tasks := []
    observed := fun _ => false }

/-- `ObservableTunnel.onStateChanged`; a tunnel that comes up starts without a handshake. -/
def onStateChanged (m : StatusManager T C S N) (tunnel : T) (state : State) :
    StatusManager T C S N :=
  let status :=
    if state ≠ .up then .disconnected
    else if m.connectionStatus tunnel = .disconnected then .connecting
    else m.connectionStatus tunnel
  { m with
    state := Function.update m.state tunnel state
    connectionStatus := Function.update m.connectionStatus tunnel status
    observed :=
      if state = .up ∧ m.state tunnel ≠ .up then Function.update m.observed tunnel false
      else m.observed }

def activeTunnel (m : StatusManager T C S N) : Option T :=
  m.tunnelMap.find? fun t => m.state t = .up

def runTask (m : StatusManager T C S N) : StatusManager T C S N :=
  match m.activeTunnel with
  | none => m
  | some tunnel =>
    { m with connectionStatus := Function.update m.connectionStatus tunnel .connected }

variable [DecidableEq C] [DecidableEq S] [DecidableEq N]
  (endpoints : C → List (Option (List Char))) (name : T → N) (order : HashOrder (T × C))

def step (m : StatusManager T C S N) : StatusAction T C S → StatusManager T C S N
  | .setState answers tunnel requested config =>
    let out := m.backend.setState endpoints name order answers tunnel requested config
    { m with backend := out.1, notifications := m.notifications ++ out.2 }
  | .setMultipleTunnels on => { m with backend := m.backend.setMultipleTunnels on }
  | .onStateChange =>
    match m.notifications with
    | [] => m
    | n :: notifications => { m with notifications := notifications }.onStateChanged n.1 n.2
  | .onStateChanged tunnel state => m.onStateChanged tunnel state
  | .onStatusChanged =>
    -- the status job has seen a positive handshake time of the tunnel it polls
    match m.backend.polled name with
    | none => m
    | some tunnel =>
      { m with
        tasks := m.tasks ++ [tunnel]
        observed := Function.update m.observed tunnel true }
  | .runTask i =>
    match m.tasks[i]? with
    | none => m
    | some _ => { m with tasks := m.tasks.eraseIdx i }.runTask

variable {m : StatusManager T C S N}

def Confirmed (m : StatusManager T C S N) : Prop :=
  ∀ tunnel, m.connectionStatus tunnel = .connected → m.observed tunnel = true

/-- The tunnel does not come up while a task for an earlier handshake of it is waiting. -/
def ComesUpLate (m : StatusManager T C S N) (tunnel : T) (state : State) : Prop :=
  state = .up → m.state tunnel ≠ .up → tunnel ∉ m.tasks

/-- No tunnel comes up while a task observed for it is waiting, and a task runs when the tunnel it
was observed for is the first of the map that is up, or none is. -/
def Attributed (m : StatusManager T C S N) : StatusAction T C S → Prop
  | .onStateChange => ∀ n ∈ m.notifications.head?, m.ComesUpLate n.1 n.2
  | .onStateChanged tunnel state => m.ComesUpLate tunnel state
  | .runTask i => ∀ tunnel ∈ m.tasks[i]?, ∀ active ∈ m.activeTunnel, active = tunnel
  | _ => True

/-- What is known of the states, the statuses and the waiting tasks. -/
structure Tracked (m : StatusManager T C S N) : Prop where
  confirmed : m.Confirmed
  disconnected : ∀ tunnel, m.state tunnel ≠ .up → m.connectionStatus tunnel = .disconnected
  observed : ∀ tunnel ∈ m.tasks, m.observed tunnel = true

omit [DecidableEq C] [DecidableEq S] [DecidableEq N] in
theorem Tracked.onStateChanged (h : m.Tracked) {tunnel : T} {state : State}
    (hlate : m.ComesUpLate tunnel state) : (m.onStateChanged tunnel state).Tracked := by
  -- only a tunnel that comes up loses its handshake
  have hobserved : ∀ t, ¬(t = tunnel ∧ state = .up ∧ m.state tunnel ≠ .up) →
      (m.onStateChanged tunnel state).observed t = m.observed t := by
    intro t ht
    show (if state = .up ∧ m.state tunnel ≠ .up then Function.update m.observed tunnel false
      else m.observed) t = m.observed t
    split
    · rename_i hup
      exact Function.update_of_ne (fun heq => ht ⟨heq, hup⟩) _ _
    · rfl
  constructor
  · intro t hconnected
    by_cases ht : t = tunnel
    · subst ht
      change Function.update m.connectionStatus t _ t = .connected at hconnected
      rw [Function.update_self] at hconnected
      have hbefore : m.connectionStatus t = .connected := by
        split at hconnected
        · cases hconnected
        · split at hconnected
          · cases hconnected
          · exact hconnected
      rw [hobserved t ?_]
      · exact h.confirmed t hbefore
      · rintro ⟨-, -, hdown⟩
        rw [h.disconnected t hdown] at hbefore
        cases hbefore
    · rw [hobserved t fun hup => ht hup.1]
      exact h.confirmed t ((Function.update_of_ne ht _ _).symm.trans hconnected)
  · intro t hdown
    show Function.update m.connectionStatus tunnel _ t = _
    change Function.update m.state tunnel state t ≠ .up at hdown
    by_cases ht : t = tunnel
    · subst ht
      rw [Function.update_self] at hdown ⊢
      rw [if_pos hdown]
    · rw [Function.update_of_ne ht] at hdown ⊢
      exact h.disconnected t hdown
  · intro t ht
    rw [hobserved t fun hup => hlate hup.2.1 hup.2.2 (hup.1 ▸ ht)]
    exact h.observed t ht

omit [DecidableEq C] [DecidableEq S] [DecidableEq N] in
theorem Tracked.runTask (h : m.Tracked) {i : Nat} {tunnel : T} (hget : m.tasks[i]? = some tunnel)
    (hactive : ∀ active ∈ m.activeTunnel, active = tunnel) :
    ({ m with tasks := m.tasks.eraseIdx i }.runTask).Tracked := by
  have hsub : ∀ t ∈ m.tasks.eraseIdx i, m.observed t = true :=
    fun t ht => h.observed t ((Runs.mem_pool_iff hget).2 (.inr ht))
  have hfind : activeTunnel { m with tasks := m.tasks.eraseIdx i } = m.activeTunnel := rfl
  unfold StatusManager.runTask
  rw [hfind]
  cases hcase : m.activeTunnel with
  | none => exact ⟨h.confirmed, h.disconnected, hsub⟩
  | some active =>
    have hact : active = tunnel := hactive active hcase
    have hup : m.state active = .up := by
      have hfound := List.find?_some hcase
      simpa using hfound
    refine ⟨fun t ht => ?_, fun t ht => ?_, hsub⟩
    · change Function.update m.connectionStatus active .connected t = .connected at ht
      by_cases heq : t = active
      · rw [heq, hact]
        exact h.observed tunnel ((Runs.mem_pool_iff hget).2 (.inl rfl))
      · rw [Function.update_of_ne heq] at ht
        exact h.confirmed t ht
    · change m.state t ≠ .up at ht
      have hne : t ≠ active := fun heq => ht (heq ▸ hup)
      change Function.update m.connectionStatus active .connected t = .disconnected
      rw [Function.update_of_ne hne]
      exact h.disconnected t ht

theorem tracked_step {a : StatusAction T C S} (h : m.Tracked) (hguard : m.Attributed a) :
    (m.step endpoints name order a).Tracked := by
  cases a with
  | setState answers tunnel requested config => exact ⟨h.confirmed, h.disconnected, h.observed⟩
  | setMultipleTunnels on => exact ⟨h.confirmed, h.disconnected, h.observed⟩
  | onStateChange =>
    simp only [step]
    cases hqueue : m.notifications with
    | nil => exact h
    | cons n notifications =>
      have hpopped : Tracked { m with notifications := notifications } :=
        ⟨h.confirmed, h.disconnected, h.observed⟩
      have hhead : n ∈ m.notifications.head? := by rw [hqueue]; rfl
      exact hpopped.onStateChanged (hguard n hhead)
  | onStateChanged tunnel state => exact h.onStateChanged hguard
  | onStatusChanged =>
    simp only [step]
    cases m.backend.polled name with
    | none => exact h
    | some tunnel =>
      have hkeep : ∀ t, m.observed t = true → Function.update m.observed tunnel true t = true := by
        intro t ht
        by_cases heq : t = tunnel
        · rw [heq, Function.update_self]
        · rw [Function.update_of_ne heq, ht]
      refine ⟨fun t ht => hkeep t (h.confirmed t ht), h.disconnected, fun t ht => ?_⟩
      rcases List.mem_append.1 ht with ht | ht
      · exact hkeep t (h.observed t ht)
      · rw [List.mem_singleton.1 ht]
        exact Function.update_self _ _ _
  | runTask i =>
    simp only [step]
    cases hget : m.tasks[i]? with
    | none => exact h
    | some tunnel => exact h.runTask hget (hguard tunnel hget)

/-- In every run whose steps are attributed, every connected tunnel has had a handshake since it
last came up. -/
theorem confirmed_of_attributed (backend : AnyBackend T C S N) (tunnelMap : List T)
    (state : T → State) {actions : List (StatusAction T C S)}
    (hguard : Runs.Guarded (step endpoints name order) Attributed
      (loaded backend tunnelMap state) actions) :
    ∀ m ∈ Runs.states (step endpoints name order) (loaded backend tunnelMap state) actions,
      m.Confirmed := by
  have hinit : (loaded backend tunnelMap state).Tracked := ⟨nofun, fun _ _ => rfl, nofun⟩
  have hkeep : ∀ (m : StatusManager T C S N) a, m.Tracked → m.Attributed a →
      (m.step endpoints name order a).Tracked :=
    fun _ _ h hguard => tracked_step endpoints name order h hguard
  intro m hm
  exact (Runs.invariant_states hkeep hinit hguard m hm).confirmed

def working : AnyAnswers Nat := ⟨⟨.working 0, .working 0⟩, .working⟩

def entryOrder : HashOrder (Bool × Nat) := ⟨id, fun l => .refl l⟩

theorem confirmed_example :
    let m := Runs.run (step (fun _ => []) id entryOrder)
      (loaded (.go .initial : AnyBackend Bool Nat Nat Bool) [false, true] fun _ => .down)
      [.setState working false .up (some 0), .onStateChange, .onStatusChanged, .runTask 0]
    m.Confirmed ∧ m.connectionStatus false = .connected := by
  intro m
  refine ⟨confirmed_of_attributed _ _ _ _ _ _ ?_ m (Runs.run_mem_states _ _ _), rfl⟩
  refine ⟨trivial, ?_, trivial, ?_, trivial⟩
  · intro n hn _ _
    exact List.not_mem_nil
  · intro t ht active hactive
    cases ht
    cases hactive
    rfl

/-- A handshake of tunnel `false` is observed, tunnel `true` is brought up, and then the task runs.
With several tunnels up through `awg-quick`, the task of the current one marks the first one. -/
theorem connected_without_handshake :
    let switched := Runs.run (step (fun _ => []) id entryOrder)
      (loaded (.go .initial : AnyBackend Bool Nat Nat Bool) [false, true] fun _ => .down)
      [.setState working false .up (some 0), .onStateChange, .onStatusChanged,
        .setState working true .up (some 1), .onStateChange, .onStateChange, .runTask 0]
    let several := Runs.run (step (fun _ => []) id entryOrder)
      (loaded (.awgQuick .initial : AnyBackend Bool Nat Nat Bool) [false, true] fun _ => .down)
      [.setMultipleTunnels true, .setState working false .up (some 0), .onStateChange,
        .setState working true .up (some 1), .onStateChange, .onStatusChanged, .runTask 0]
    (switched.connectionStatus true = .connected ∧ switched.observed true = false) ∧
      several.connectionStatus false = .connected ∧ several.observed false = false := by
  refine ⟨⟨rfl, rfl⟩, rfl, rfl⟩

end StatusManager

end Amnezia.Model
