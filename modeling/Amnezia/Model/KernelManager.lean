import Mathlib.Data.List.AList
import Amnezia.Backend.AwgQuickRuns
import Amnezia.Model.ManagerRequests

/-!
# TunnelManager with AwgQuickBackend

The interfaces belong to the kernel and the files to the store, so both outlive the process of the
app.  What the backend remembers of a running tunnel, and the configs the tunnels have loaded, do
not.  A tunnel object is a number, and a file holds the config written to it.
-/

namespace Amnezia.Model

open Amnezia.Backend
open Amnezia.Databinding (containsKey)

structure KernelManager (C : Type*) extends TunnelList C where
  backend : AwgQuickBackend Nat C Name
  /-- The names `saveState` last stored. -/
  runningTunnels : List Name
  /-- The files, with the configs they hold. -/
  store : AList (fun _ : Name => C)

namespace KernelManager

variable {C : Type*}

def initial : KernelManager C :=
  { backend := .initial
    tunnelMap := []
    name := fun _ => []
    config := fun _ => none
    lastUsedTunnel := none
    runningTunnels := []
    nextTunnel := 0
    store := ∅ }

def state (m : KernelManager C) (tunnel : Nat) : State := m.backend.notified tunnel

def onStateChanged (m : KernelManager C) (tunnel : Nat) (state : State) : KernelManager C :=
  { m with backend := { m.backend with log := (tunnel, state) :: m.backend.log } }

def onConfigChanged (m : KernelManager C) (tunnel : Nat) (config : C) : KernelManager C :=
  { m with config := Function.update m.config tunnel (some config) }

def saveState (m : KernelManager C) : KernelManager C :=
  { m with runningTunnels := (m.tunnelMap.filter fun t => m.state t = .up).map m.name }

/-- The config store; `succeeds` is false when the file cannot be created, deleted or renamed. -/
def calls (succeeds : Bool) : ManagerCalls (KernelManager C) C where
  list := toTunnelList
  setList m list := { m with toTunnelList := list }
  state := state
  onStateChanged := onStateChanged
  storeCreate m name config :=
    if name ∈ m.store ∨ succeeds = false then none
    else some { m with store := m.store.insert name config }
  storeDelete m name :=
    if name ∈ m.store ∧ succeeds = true then some { m with store := m.store.erase name } else none
  storeRename m name replacement :=
    match m.store.lookup name with
    | none => none
    | some file =>
      if replacement ∈ m.store ∨ succeeds = false then none
      else some { m with store := (m.store.erase name).insert replacement file }

def create (writes : Bool) (m : KernelManager C) (name : Name) (config : Option C) :
    Except RequestFailure Nat × KernelManager C :=
  (calls writes).create m name config

def getState (shows : Bool) (m : KernelManager C) (tunnel : Nat) : State :=
  AwgQuickBackend.getState m.name shows m.backend tunnel

def getTunnelState (shows : Bool) (m : KernelManager C) (tunnel : Nat) : KernelManager C :=
  m.onStateChanged tunnel (getState shows m tunnel)

def refreshTunnelStates (shows : Bool) (m : KernelManager C) : KernelManager C :=
  m.tunnelMap.foldl (getTunnelState shows) m

/-- `getTunnelConfig`; `loads` is false when the file cannot be read. -/
def getTunnelConfig (loads : Bool) (m : KernelManager C) (tunnel : Nat) :
    Except RequestFailure C × KernelManager C :=
  match m.store.lookup (m.name tunnel), loads with
  | some config, true => (.ok config, m.onConfigChanged tunnel config)
  | _, _ => (.error .store, m)

def getConfigAsync (loads : Bool) (m : KernelManager C) (tunnel : Nat) :
    Except RequestFailure C × KernelManager C :=
  match m.config tunnel with
  | some config => (.ok config, m)
  | none => m.getTunnelConfig loads tunnel

/-- A new process: the interfaces and the files are still there.  `onTunnelsLoaded` makes a tunnel
of every file, and its state is what the kernel says. -/
def newProcess (shows : Bool) (m : KernelManager C) : KernelManager C :=
  let fresh : KernelManager C :=
    { m with
      backend := { (AwgQuickBackend.initial : AwgQuickBackend Nat C Name) with
        interfaces := m.backend.interfaces, multipleTunnels := m.backend.multipleTunnels }
      tunnelMap := []
      config := fun _ => none
      lastUsedTunnel := none }
  let loaded := m.store.keys.foldl
    (fun m name => ((calls true).addToList m name none
      (.of (shows && decide (name ∈ m.backend.interfaces)))).2) fresh
  { loaded with
    lastUsedTunnel := (m.lastUsedTunnel.map m.name).bind
      (Databinding.get TunnelComparator.compare loaded.name loaded.tunnelMap) }

variable [DecidableEq C] (order : HashOrder (Nat × C))

def setState (o : Shell) (m : KernelManager C) (tunnel : Nat) (requested : State)
    (config : Option C) : Outcome State (KernelManager C) :=
  let out := AwgQuickBackend.setState m.name order o m.backend tunnel requested config
  ⟨out.result, { m with backend := out.state }⟩

/-- `delete`, with the shell for the two calls of the backend. -/
def delete (stop restart : Shell) (deletes : Bool) (m : KernelManager C) (tunnel : Nat) :
    Except RequestFailure Unit × KernelManager C :=
  (calls deletes).delete (setState order stop · · .down none) (setState order restart · · .up) m
    tunnel

/-- `setTunnelName`, with the shell for the two calls of the backend and for `getTunnelState`. -/
def setTunnelName (stop restart : Shell) (shows renames : Bool) (m : KernelManager C) (tunnel : Nat)
    (name : Name) : Except RequestFailure Name × KernelManager C :=
  (calls renames).setTunnelName (setState order stop · · .down none) (setState order restart · · .up)
    (getState shows) m tunnel name

def setTunnelState (o : Shell) (loads : Bool) (m : KernelManager C) (tunnel : Nat)
    (requested : State) : Except RequestFailure State × KernelManager C :=
  let before := m.state tunnel
  match m.getConfigAsync loads tunnel with
  | (.error e, got) => (.error e, (got.onStateChanged tunnel before).saveState)
  | (.ok config, got) =>
    let out := setState order o got tunnel requested (some config)
    match out.result with
    | .error e => (.error (.backend e), (out.state.onStateChanged tunnel before).saveState)
    | .ok newState =>
      let used := if newState = .up then some tunnel else out.state.lastUsedTunnel
      (.ok newState,
        ({ out.state with lastUsedTunnel := used }.onStateChanged tunnel newState).saveState)

/-- `setTunnelConfig`; `saves` is false when the file cannot be opened. -/
def setTunnelConfig (o : Shell) (saves : Bool) (m : KernelManager C) (tunnel : Nat) (config : C) :
    Except RequestFailure C × KernelManager C :=
  let out := setState order o m tunnel (m.state tunnel) (some config)
  match out.result with
  | .error e => (.error (.backend e), out.state)
  | .ok _ =>
    if m.name tunnel ∈ out.state.store ∧ saves = true then
      (.ok config, { out.state with store := out.state.store.insert (m.name tunnel) config }
        |>.onConfigChanged tunnel config)
    else (.error .store, out.state)

def restoreState (o : Nat → Shell) (m : KernelManager C) : KernelManager C :=
  (m.tunnelMap.filter fun t => m.runningTunnels.contains (m.name t)).foldl
    (fun m t => (setTunnelState order (o t) true m t .up).2) m

/-- What happens, with the answers of the shell and of the file system. -/
inductive Event (C : Type*) where
  | create (writes : Bool) (name : Name) (config : Option C)
  | delete (stop restart : Shell) (deletes : Bool) (tunnel : Nat)
  | setTunnelName (stop restart : Shell) (shows renames : Bool) (tunnel : Nat) (name : Name)
  | setTunnelState (o : Shell) (loads : Bool) (tunnel : Nat) (requested : State)
  | setTunnelConfig (o : Shell) (saves : Bool) (tunnel : Nat) (config : C)
  | getTunnelConfig (loads : Bool) (tunnel : Nat)
  | refreshTunnelStates (shows : Bool)
  | setMultipleTunnels (on : Bool)
  | restoreState (o : Nat → Shell)
  | newProcess (shows : Bool)

def step (m : KernelManager C) : Event C → KernelManager C
  | .create writes name config => (create writes m name config).2
  | .delete stop restart deletes tunnel => (delete order stop restart deletes m tunnel).2
  | .setTunnelName stop restart shows renames tunnel name =>
    (setTunnelName order stop restart shows renames m tunnel name).2
  | .setTunnelState o loads tunnel requested => (setTunnelState order o loads m tunnel requested).2
  | .setTunnelConfig o saves tunnel config => (setTunnelConfig order o saves m tunnel config).2
  | .getTunnelConfig loads tunnel => (getTunnelConfig loads m tunnel).2
  | .refreshTunnelStates shows => refreshTunnelStates shows m
  | .setMultipleTunnels on => { m with backend := m.backend.setMultipleTunnels on }
  | .restoreState o => restoreState order o m
  | .newProcess shows => newProcess shows m

def Remembered (m : KernelManager C) (tunnel : Nat) : Prop :=
  m.name tunnel ∈ m.backend.interfaces → tunnel ∈ m.backend.runningConfigs

end KernelManager

/-! ## The backend, when every command succeeds -/

namespace KernelBackend

open AwgQuickBackend

variable {C : Type*} [DecidableEq C] (order : HashOrder (Nat × C)) (name : Nat → Name)
  (s : AwgQuickBackend Nat C Name) (t : Nat)

omit [DecidableEq C] in
theorem getState_working : getState name true s t = if name t ∈ s.interfaces then .up else .down := by
  unfold getState
  by_cases h : name t ∈ s.interfaces
  · rw [if_pos h, decide_eq_true h]
    rfl
  · rw [if_neg h, decide_eq_false h]
    rfl

theorem setState_down_none : AwgQuickBackend.setState name order .working s t .down none =
    if name t ∈ s.interfaces then
      if t ∈ s.runningConfigs then ⟨.ok .down, s.wentDown name t⟩ else ⟨.error .nullConfig, s⟩
    else ⟨.ok .down, s⟩ := by
  unfold AwgQuickBackend.setState
  rw [show Shell.working.shows = true from rfl, getState_working]
  by_cases hup : name t ∈ s.interfaces
  · rw [if_pos hup, if_pos hup]
    cases hconfig : s.runningConfigs.lookup t with
    | none =>
      rw [if_neg (AList.lookup_eq_none.1 hconfig)]
      rfl
    | some c =>
      have hmem : t ∈ s.runningConfigs := by
        rw [← AList.lookup_isSome, hconfig]
        rfl
      rw [if_pos hmem]
      rfl
  · rw [if_neg hup, if_neg hup]
    rfl

theorem setState_up (config : Option C) :
    AwgQuickBackend.setState name order .working s t .up config =
      if getState name true s t = .up ∧ s.runningConfigs.lookup t ≠ none ∧
        s.runningConfigs.lookup t = config then ⟨.ok .up, s⟩
      else bringUp name .working s t (getState name true s t) config
        (entrySet order s.runningConfigs) := by
  unfold AwgQuickBackend.setState
  have hresolve : State.up.resolve (getState name Shell.working.shows s t) = .up := rfl
  simp only [hresolve, true_and, reduceCtorEq, false_and, or_false]
  by_cases hsame : getState name true s t = .up ∧ s.runningConfigs.lookup t ≠ none ∧
      s.runningConfigs.lookup t = config
  · rw [if_pos hsame]
    refine (if_pos hsame).trans ?_
    rw [show Shell.working.shows = true from rfl, hsame.1]
  · rw [if_neg hsame]
    exact if_neg hsame

theorem setState_up_none : ∃ e s', AwgQuickBackend.setState name order .working s t .up none =
    ⟨.error e, s'⟩ := by
  have hsame : ¬(getState name true s t = .up ∧ s.runningConfigs.lookup t ≠ none ∧
      s.runningConfigs.lookup t = none) := fun h => h.2.1 h.2.2
  rw [setState_up, if_neg hsame]
  rcases bringUp_cases name .working s t (getState name true s t) none
      (entrySet order s.runningConfigs) with ⟨e, _, -, -, h⟩ | ⟨e, h⟩ | ⟨e, -, -, h⟩ | ⟨c, hc, -⟩
  · exact ⟨e, _, h⟩
  · exact ⟨e, _, h⟩
  · exact ⟨e, _, h⟩
  · cases hc

omit [DecidableEq C] in
theorem setEach_ok {cmd : Nat → CommandResult} (hcmd : ∀ i, (cmd i).Succeeds) (state : State)
    (es : List (Nat × C)) : (setEach name state cmd s es).2.result = .ok () := by
  induction es generalizing s cmd with
  | nil => rfl
  | cons e es ih =>
    simp only [setEach, setStateInternal_of_succeeds name s (hcmd 0)]
    exact ih _ fun i => hcmd (i + 1)

omit [DecidableEq C] in
theorem tearDown_working (snapshot : List (Nat × C)) :
    tearDown name .working s snapshot = ⟨.ok (), s.downEach name snapshot⟩ := by
  have hok : (setEach name .down Shell.working.teardown s snapshot).2.result = .ok () :=
    setEach_ok name s (fun _ => rfl) .down snapshot
  have hstate : (setEach name .down Shell.working.teardown s snapshot).2.state =
      s.downEach name snapshot := by
    rw [setEach_down_state, (setEach_spec name s .down Shell.working.teardown snapshot).2.2 () hok]
  unfold tearDown
  simp only [hok]
  rw [← hok, ← hstate]

omit [DecidableEq C] in
theorem bringUp_working (originalState : State) (c : C) (snapshot : List (Nat × C)) :
    bringUp name .working s t originalState (some c) snapshot =
      ⟨.ok .up, (s.ready name t originalState snapshot).wentUp name t c⟩ := by
  unfold bringUp ready
  by_cases hclear : s.multipleTunnels = false ∧ originalState = .down
  · have hup : originalState ≠ .up := by
      rw [hclear.2]
      decide
    simp only [if_pos hclear, if_neg hup, tearDown_working]
    rfl
  · simp only [if_neg hclear]
    by_cases hup : originalState = .up
    · obtain ⟨c', hc'⟩ : ∃ c', (s.runningConfigs.lookup t).or (some c) = some c' := by
        cases s.runningConfigs.lookup t with
        | none => exact ⟨c, rfl⟩
        | some c' => exact ⟨c', rfl⟩
      simp only [if_pos hup, hc']
      rfl
    · simp only [if_neg hup]
      rfl

theorem setState_up_some (c : C) : ∃ s',
    AwgQuickBackend.setState name order .working s t .up (some c) = ⟨.ok .up, s'⟩ ∧
      name t ∈ s'.interfaces ∧ (∀ n ∈ s'.interfaces, n = name t ∨ n ∈ s.interfaces) ∧
      (s'.notified t = .up ∨ s' = s ∧ t ∈ s.runningConfigs) := by
  rw [setState_up]
  split
  · next hsame =>
    have hmem : t ∈ s.runningConfigs := by
      rw [← AList.lookup_isSome]
      exact Option.isSome_iff_ne_none.2 hsame.2.1
    exact ⟨s, rfl, getState_eq_up name hsame.1, fun n hn => .inr hn, .inr ⟨rfl, hmem⟩⟩
  · rw [bringUp_working]
    refine ⟨_, rfl, Finset.mem_insert_self _ _, ?_, .inl (Function.update_self _ _ _)⟩
    intro n hn
    rcases Finset.mem_insert.1 hn with rfl | hn
    · exact .inl rfl
    · right
      unfold ready at hn
      split at hn
      · exact ((mem_interfaces_downEach name s _ n).1 hn).1
      · split at hn
        · exact Finset.mem_of_mem_erase hn
        · exact hn

end KernelBackend

/-! ## Requests for a tunnel that is up -/

namespace KernelManager

variable {C : Type*} [DecidableEq C] (order : HashOrder (Nat × C))

/-- A tunnel of the map that is up as far as the manager knows, with its file. -/
structure KnownUp (m : KernelManager C) (tunnel : Nat) : Prop where
  mem : tunnel ∈ m.tunnelMap
  up : m.state tunnel = .up
  file : m.name tunnel ∈ m.store

variable {m : KernelManager C} {t : Nat}

theorem delete_working (h : m.KnownUp t) :
    (m.Remembered t → ∃ m', delete order .working .working true m t = (.ok (), m') ∧
      m.name t ∉ m'.backend.interfaces) ∧
    (¬m.Remembered t → ∃ e m', delete order .working .working true m t = (.error e, m')) := by
  have hdown := KernelBackend.setState_down_none order m.name m.backend t
  unfold delete ManagerCalls.delete ManagerCalls.takeOut ManagerCalls.deleteFile
  simp only [calls, if_pos h.up, setState, TunnelList.remove]
  rw [hdown]
  unfold Remembered
  by_cases hup : m.name t ∈ m.backend.interfaces
  · by_cases hmem : t ∈ m.backend.runningConfigs
    · refine ⟨fun _ => ?_, fun hnot => absurd (fun _ => hmem) hnot⟩
      simp only [if_pos hup, if_pos hmem, and_true, if_pos h.file]
      exact ⟨_, rfl, Finset.notMem_erase _ _⟩
    · refine ⟨fun hrem => absurd (hrem hup) hmem, fun _ => ?_⟩
      simp only [if_pos hup, if_neg hmem]
      exact ManagerCalls.addBack_error
  · refine ⟨fun _ => ?_, fun hnot => absurd (fun hin => absurd hin hup) hnot⟩
    simp only [if_neg hup, and_true, if_pos h.file]
    exact ⟨_, rfl, hup⟩

def restartAs (m : KernelManager C) (tunnel : Nat) (name : Name) (wasLastUsed : Bool) :
    Except RequestFailure Name × KernelManager C :=
  let started := setState order .working m tunnel .up (m.config tunnel)
  match started.result with
  | .error e =>
    (calls true).addBack (started.state.getTunnelState true tunnel) tunnel wasLastUsed
      (.error (.backend e))
  | .ok _ => (calls true).addBack started.state tunnel wasLastUsed (.ok name)

theorem restartAs_none (hconfig : m.config t = none) (name : Name) (wasLastUsed : Bool) :
    ∃ e m', restartAs order m t name wasLastUsed = (.error e, m') := by
  obtain ⟨e, s', hset⟩ := KernelBackend.setState_up_none order m.name m.backend t
  unfold restartAs setState
  simp only [hconfig, hset]
  exact ManagerCalls.addBack_error

theorem restartAs_some {c : C} (hconfig : m.config t = some c) (name : Name) (wasLastUsed : Bool)
    (hunique : ∀ u ∈ m.tunnelMap, m.name u = m.name t → u = t) :
    ∃ m', restartAs order m t name wasLastUsed = (.ok name, m') ∧ m'.name = m.name ∧
      m.name t ∈ m'.backend.interfaces ∧
      (∀ n ∈ m'.backend.interfaces, n = m.name t ∨ n ∈ m.backend.interfaces) ∧
      (m'.state t = .up ∨ m'.state t = m.state t ∧ t ∈ m.backend.runningConfigs) := by
  obtain ⟨s', hset, hin, hsub, hnotified⟩ := KernelBackend.setState_up_some order m.name m.backend t c
  unfold restartAs setState
  simp only [hconfig, hset]
  obtain ⟨map, used, hadd⟩ := (calls true).addBack_of_unique { m with backend := s' } wasLastUsed
    (.ok name : Except RequestFailure Name) hunique
  rw [hadd]
  refine ⟨_, rfl, rfl, hin, hsub, ?_⟩
  unfold state
  rcases hnotified with hup | ⟨rfl, hmem⟩
  · exact .inl hup
  · exact .inr ⟨rfl, hmem⟩

/-- `setTunnelName` of a tunnel that is up, when nothing fails but for want of a config. -/
theorem setTunnelName_eq (h : m.KnownUp t) {n : Name} (hvalid : isNameInvalid n = false)
    (hunused : n ∉ m.names) (hfree : n ∉ m.store) :
    ∃ store, setTunnelName order .working .working true true m t n =
      if m.name t ∈ m.backend.interfaces then
        if t ∈ m.backend.runningConfigs then
          restartAs order { m with
            toTunnelList := (m.remove t).onNameChanged t n
            backend := m.backend.wentDown m.name t
            store := store } t n (decide (m.lastUsedTunnel = some t))
        else (calls true).addBack
          (getTunnelState true { m with toTunnelList := m.remove t } t) t
          (decide (m.lastUsedTunnel = some t)) (.error (.backend .nullConfig))
      else restartAs order { m with
        toTunnelList := (m.remove t).onNameChanged t n
        store := store } t n (decide (m.lastUsedTunnel = some t)) := by
  obtain ⟨file, hfile⟩ := Option.isSome_iff_exists.1 (AList.lookup_isSome.2 h.file)
  have hmissed : ¬containsKey TunnelComparator.compare m.names n = true := fun hfound =>
    hunused (Databinding.mem_of_containsKey TunnelComparator.eq_of_compare_eq_zero hfound)
  have hdown := KernelBackend.setState_down_none order m.name m.backend t
  refine ⟨(m.store.erase (m.name t)).insert n file, ?_⟩
  unfold setTunnelName ManagerCalls.setTunnelName ManagerCalls.takeOut ManagerCalls.renameFile
  simp only [calls, hvalid, if_neg hmissed, if_pos h.up, decide_eq_true h.up, setState,
    TunnelList.remove]
  rw [hdown]
  have hnot : ¬(n ∈ m.store ∨ true = false) := by simp [hfree]
  by_cases hup : m.name t ∈ m.backend.interfaces
  · by_cases hmem : t ∈ m.backend.runningConfigs
    · simp only [if_pos hup, if_pos hmem, hfile, if_neg hnot]
      rfl
    · simp only [if_pos hup, if_neg hmem]
      rfl
  · simp only [if_neg hup, hfile, if_neg hnot]
    rfl

omit [DecidableEq C] in
theorem unique_of_unused {n : Name} (hunused : n ∉ m.names) :
    ∀ u ∈ m.tunnelMap.erase t, Function.update m.name t n u = Function.update m.name t n t → u = t := by
  intro u hu hname
  by_contra hne
  rw [Function.update_of_ne hne, Function.update_self] at hname
  exact hunused (hname ▸ List.mem_map_of_mem (List.mem_of_mem_erase hu))

/-- `setTunnelName` of a tunnel that is up, by what the backend remembers and the tunnel has
loaded. -/
theorem setTunnelName_working (h : m.KnownUp t) {n : Name} (hvalid : isNameInvalid n = false)
    (hunused : n ∉ m.names) (hfree : n ∉ m.store) :
    (m.Remembered t ∧ (m.config t).isSome = true →
      ∃ m', setTunnelName order .working .working true true m t n = (.ok n, m') ∧
        m.name t ∉ m'.backend.interfaces ∧ n ∈ m'.backend.interfaces ∧ m'.name t = n ∧
        m'.state t = .up) ∧
    (¬(m.Remembered t ∧ (m.config t).isSome = true) →
      ∃ e m', setTunnelName order .working .working true true m t n = (.error e, m')) := by
  obtain ⟨store, heq⟩ := setTunnelName_eq order h hvalid hunused hfree
  have hunique := @unique_of_unused C m t n hunused
  have hself : ((m.remove t).onNameChanged t n).name t = n := Function.update_self _ _ _
  have hold : m.name t ≠ n := fun hsame => hunused (hsame ▸ List.mem_map_of_mem h.mem)
  rw [heq]
  unfold Remembered
  cases hconfig : m.config t with
  | none =>
    refine ⟨fun hboth => absurd hboth.2 Bool.false_ne_true, fun _ => ?_⟩
    split
    · split
      · apply restartAs_none
        exact hconfig
      · exact ManagerCalls.addBack_error
    · apply restartAs_none
      exact hconfig
  | some c =>
    have hrestart : ∀ backend : AwgQuickBackend Nat C Name, m.name t ∉ backend.interfaces →
        (t ∈ backend.runningConfigs → backend.notified t = .up) → ∃ m', restartAs order { m with
            toTunnelList := (m.remove t).onNameChanged t n, backend := backend, store := store } t n
            (decide (m.lastUsedTunnel = some t)) = (.ok n, m') ∧ m.name t ∉ m'.backend.interfaces ∧
          n ∈ m'.backend.interfaces ∧ m'.name t = n ∧ m'.state t = .up := by
      intro backend hgone htold
      obtain ⟨m', hok, hname, hin, hsub, hstate⟩ := @restartAs_some C _ order { m with
        toTunnelList := (m.remove t).onNameChanged t n, backend := backend, store := store } t c
        hconfig n (decide (m.lastUsedTunnel = some t)) hunique
      simp only [hself] at hin hsub
      refine ⟨m', hok, fun hmem => (hsub _ hmem).elim hold hgone, hin, by rw [hname]; exact hself, ?_⟩
      exact hstate.elim id fun hsame => hsame.1.trans (htold hsame.2)
    by_cases hup : m.name t ∈ m.backend.interfaces
    · by_cases hmem : t ∈ m.backend.runningConfigs
      · refine ⟨fun _ => ?_, fun hnot => absurd ⟨fun _ => hmem, rfl⟩ hnot⟩
        rw [if_pos hup, if_pos hmem]
        -- the backend has forgotten the tunnel, so it tells it that it is up
        refine hrestart _ (Finset.notMem_erase _ _) fun hmem => absurd hmem ?_
        simp [AwgQuickBackend.wentDown, AList.mem_erase]
      · refine ⟨fun hboth => absurd (hboth.1 hup) hmem, fun _ => ?_⟩
        rw [if_pos hup, if_neg hmem]
        exact ManagerCalls.addBack_error
    · refine ⟨fun _ => ?_, fun hnot => absurd ⟨fun hin => absurd hin hup, rfl⟩ hnot⟩
      rw [if_neg hup]
      exact hrestart m.backend hup fun _ => h.up

/-- The two requests on a tunnel that is up, when every command and every file operation succeeds.
They need the config that the interface was brought up with, which the backend remembers only in
the process that brought it up; `setTunnelName` needs the tunnel's own config too. -/
theorem up_requests_iff (h : m.KnownUp t) :
    ((delete order .working .working true m t).1 = .ok () ∧
        m.name t ∉ (delete order .working .working true m t).2.backend.interfaces ↔
      m.Remembered t) ∧
    ∀ n, isNameInvalid n = false → n ∉ m.names → n ∉ m.store →
      ((setTunnelName order .working .working true true m t n).1 = .ok n ∧
          m.name t ∉ (setTunnelName order .working .working true true m t n).2.backend.interfaces ∧
          n ∈ (setTunnelName order .working .working true true m t n).2.backend.interfaces ∧
          (setTunnelName order .working .working true true m t n).2.name t = n ∧
          (setTunnelName order .working .working true true m t n).2.state t = .up ↔
        m.Remembered t ∧ (m.config t).isSome = true) := by
  constructor
  · obtain ⟨hyes, hno⟩ := delete_working order h
    constructor
    · rintro ⟨hok, -⟩
      by_contra hnot
      obtain ⟨e, m', heq⟩ := hno hnot
      rw [heq] at hok
      cases hok
    · intro hrem
      obtain ⟨m', heq, hdown⟩ := hyes hrem
      rw [heq]
      exact ⟨rfl, hdown⟩
  · intro n hvalid hunused hfree
    obtain ⟨hyes, hno⟩ := setTunnelName_working order h hvalid hunused hfree
    constructor
    · rintro ⟨hok, -⟩
      by_contra hnot
      obtain ⟨e, m', heq⟩ := hno hnot
      rw [heq] at hok
      cases hok
    · intro hboth
      obtain ⟨m', heq, hdown⟩ := hyes hboth
      rw [heq]
      exact ⟨rfl, hdown⟩

def broughtUp : KernelManager Bool :=
  Runs.run (step (AwgQuickBackend.listOrder _)) initial
    [.create true ['a'] (some true), .setTunnelState .working true 0 .up]

theorem up_requests_broughtUp :
    (delete (AwgQuickBackend.listOrder _) .working .working true broughtUp 0).1 = .ok () ∧
    (setTunnelName (AwgQuickBackend.listOrder _) .working .working true true broughtUp 0 ['b']).1 =
      .ok ['b'] := by
  have hup : broughtUp.KnownUp 0 := ⟨by decide, by decide, by decide⟩
  have hrem : broughtUp.Remembered 0 := fun _ => by decide
  obtain ⟨hdelete, hrename⟩ := up_requests_iff (AwgQuickBackend.listOrder _) hup
  exact ⟨(hdelete.2 hrem).1, ((hrename ['b'] (by decide) (by decide) (by decide)).2 ⟨hrem, by decide⟩).1⟩

def restarted : KernelManager Bool :=
  Runs.run (step (AwgQuickBackend.listOrder _)) broughtUp
    [.setTunnelName .working .working true true 0 ['b'], .newProcess true,
     .restoreState fun _ => .working]

theorem up_requests_restarted :
    restarted.tunnelMap = [1] ∧ restarted.name 1 = ['b'] ∧ restarted.state 1 = .up ∧
    ['b'] ∈ restarted.backend.interfaces ∧ ['b'] ∈ restarted.store ∧
    (delete (AwgQuickBackend.listOrder _) .working .working true restarted 1).1 =
      .error (.backend .nullConfig) ∧
    ['b'] ∈ (delete (AwgQuickBackend.listOrder _) .working .working true restarted 1).2.backend.interfaces ∧
    (setTunnelName (AwgQuickBackend.listOrder _) .working .working true true restarted 1 ['c']).1 =
      .error (.backend .nullConfig) := by
  decide

end KernelManager

end Amnezia.Model
