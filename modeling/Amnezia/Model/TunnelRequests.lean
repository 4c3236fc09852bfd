import Mathlib.Data.Finset.Basic
import Amnezia.Model.ManagerRequests

/-!
# Requests of TunnelManager as coroutines

`create`, `delete` and `setTunnelName` run on the main thread between suspension points: one at
each call of the config store and of the backend, which run elsewhere, and one where the coroutine
comes back.  A coroutine in progress is the call it is about to make or the code it is about to
resume with; any of them may go on next.  Backend calls succeed here.  A tunnel object is a number,
a config an opaque value.
-/

namespace Amnezia.Model

open Amnezia.Backend (State Outcome)
open Amnezia.Databinding

inductive Thrown where
  | invalidName
  | alreadyExists (name : Name)
  | missingConfig
  | fileExists (name : Name)
  | fileNotDeleted (name : Name)
  | fileNotRenamed (name : Name)
  | sameKey
  deriving DecidableEq, Repr

structure Manager (C : Type*) extends TunnelList C where
  /-- `ObservableTunnel.state`. -/
  state : Nat → State
  /-- `configStore.enumerate()`. -/
  store : Finset Name

/-- Where a request in progress goes on. -/
inductive Coroutine (C : Type*) where
  -- create
  | storeCreate (name : Name) (config : Option C)
  | addToList (name : Name) (config : C)
  -- delete
  | stopForDelete (tunnel : Nat) (wasLastUsed : Bool)
  | storeDelete (tunnel : Nat) (wasUp wasLastUsed : Bool)
  | restartUndeleted (tunnel : Nat) (wasLastUsed : Bool) (e : Thrown)
  | putBack (tunnel : Nat) (wasLastUsed : Bool) (e : Thrown)
  -- setTunnelName
  | stopForRename (tunnel : Nat) (name : Name) (wasLastUsed : Bool)
  | storeRename (tunnel : Nat) (name : Name) (wasUp wasLastUsed : Bool)
  | onRenamed (tunnel : Nat) (name : Name) (wasUp wasLastUsed : Bool)
  | restartRenamed (tunnel : Nat) (wasLastUsed : Bool)
  | getTunnelState (tunnel : Nat) (wasLastUsed : Bool) (e : Thrown)
  | addBack (tunnel : Nat) (wasLastUsed : Bool) (e : Option Thrown)

/-- A request suspends, or ends by returning (`none`) or throwing. -/
inductive Progress (C : Type*) where
  | suspended (coroutine : Coroutine C)
  | finished (thrown : Option Thrown)

inductive Request (C : Type*) where
  | create (name : Name) (config : Option C)
  | delete (tunnel : Nat)
  | setTunnelName (tunnel : Nat) (name : Name)

namespace Manager

variable {C : Type*}

def remove (m : Manager C) (tunnel : Nat) : Manager C :=
  { m with toTunnelList := m.toTunnelList.remove tunnel }

def onStateChanged (m : Manager C) (tunnel : Nat) (state : State) : Manager C :=
  { m with state := Function.update m.state tunnel state }

def storeCreate (m : Manager C) (name : Name) : Except Thrown (Manager C) :=
  if name ∈ m.store then .error (.fileExists name) else .ok { m with store := insert name m.store }

def storeDelete (m : Manager C) (name : Name) : Except Thrown (Manager C) :=
  if name ∈ m.store then .ok { m with store := m.store.erase name }
  else .error (.fileNotDeleted name)

/-- `configStore.rename`: the marker for the new name is created first and deleted again when the
old file is not there. -/
def storeRename (m : Manager C) (name replacement : Name) : Except Thrown (Manager C) :=
  if replacement ∈ m.store then .error (.fileExists replacement)
  else if name ∈ m.store then .ok { m with store := insert replacement (m.store.erase name) }
  else .error (.fileNotRenamed name)

def start (m : Manager C) : Request C → Progress C × Manager C
  | .create name config =>
    if isNameInvalid name then (.finished (some .invalidName), m)
    else if containsKey TunnelComparator.compare m.names name then
      (.finished (some (.alreadyExists name)), m)
    else (.suspended (.storeCreate name config), m)
  | .delete tunnel =>
    let wasLastUsed := decide (m.lastUsedTunnel = some tunnel)
    let next := if m.state tunnel = .up then .stopForDelete tunnel wasLastUsed
      else .storeDelete tunnel false wasLastUsed
    (.suspended next, m.remove tunnel)
  | .setTunnelName tunnel name =>
    if isNameInvalid name then (.finished (some .invalidName), m)
    else if containsKey TunnelComparator.compare m.names name then
      (.finished (some (.alreadyExists name)), m)
    else
      let wasLastUsed := decide (m.lastUsedTunnel = some tunnel)
      let next := if m.state tunnel = .up then .stopForRename tunnel name wasLastUsed
        else .storeRename tunnel name false wasLastUsed
      (.suspended next, m.remove tunnel)

def finishWith (m : Manager C) (tunnel : Nat) (wasLastUsed : Bool) (e : Option Thrown) :
    Progress C × Manager C :=
  match m.addBack tunnel wasLastUsed with
  | none => (.finished (some .sameKey), m)
  | some list => (.finished e, { m with toTunnelList := list })

/-- A coroutine up to its next suspension; `reported` is what the backend says when asked for the
tunnel's state. -/
def resume (reported : State) (m : Manager C) : Coroutine C → Progress C × Manager C
  | .storeCreate name config =>
    match config with
    | none => (.finished (some .missingConfig), m)
    | some config =>
      match m.storeCreate name with
      | .error e => (.finished (some e), m)
      | .ok m' => (.suspended (.addToList name config), m')
  | .addToList name config =>
    let tunnel := m.nextTunnel
    let created :=
      { m with
        toTunnelList := m.newTunnel name (some config)
        state := Function.update m.state tunnel .down }
    match created.add tunnel with
    | none => (.finished (some .sameKey), created)
    | some list => (.finished none, { created with toTunnelList := list })
  | .stopForDelete tunnel wasLastUsed =>
    (.suspended (.storeDelete tunnel true wasLastUsed), m.onStateChanged tunnel .down)
  | .storeDelete tunnel wasUp wasLastUsed =>
    match m.storeDelete (m.name tunnel) with
    | .ok m' => (.finished none, m')
    | .error e =>
      (.suspended (if wasUp then .restartUndeleted tunnel wasLastUsed e
        else .putBack tunnel wasLastUsed e), m)
  | .restartUndeleted tunnel wasLastUsed e =>
    (.suspended (.putBack tunnel wasLastUsed e), m.onStateChanged tunnel .up)
  | .putBack tunnel wasLastUsed e => m.finishWith tunnel wasLastUsed (some e)
  | .stopForRename tunnel name wasLastUsed =>
    (.suspended (.storeRename tunnel name true wasLastUsed), m.onStateChanged tunnel .down)
  | .storeRename tunnel name wasUp wasLastUsed =>
    match m.storeRename (m.name tunnel) name with
    | .ok m' => (.suspended (.onRenamed tunnel name wasUp wasLastUsed), m')
    | .error e => (.suspended (.getTunnelState tunnel wasLastUsed e), m)
  | .onRenamed tunnel name wasUp wasLastUsed =>
    let renamed := { m with toTunnelList := m.onNameChanged tunnel name }
    if wasUp then (.suspended (.restartRenamed tunnel wasLastUsed), renamed)
    else renamed.finishWith tunnel wasLastUsed none
  | .restartRenamed tunnel wasLastUsed =>
    (.suspended (.addBack tunnel wasLastUsed none), m.onStateChanged tunnel .up)
  | .getTunnelState tunnel wasLastUsed e =>
    (.suspended (.addBack tunnel wasLastUsed (some e)), m.onStateChanged tunnel reported)
  | .addBack tunnel wasLastUsed e => m.finishWith tunnel wasLastUsed e

/-! ## A request with no other in progress -/

/-- What a request comes to when nothing happens where it is suspended: whether it returns, and the
manager then. -/
inductive Alone (reported : State) : Progress C × Manager C → Bool × Manager C → Prop where
  | finished (e : Option Thrown) (m : Manager C) : Alone reported (.finished e, m) (e.isNone, m)
  | resumed {coroutine : Coroutine C} {m : Manager C} {after : Bool × Manager C}
      (h : Alone reported (m.resume reported coroutine) after) :
      Alone reported (.suspended coroutine, m) after

def calls : ManagerCalls (Manager C) C where
  list := toTunnelList
  setList m list := { m with toTunnelList := list }
  state := state
  onStateChanged := onStateChanged
  storeCreate m name _ := (m.storeCreate name).toOption
  storeDelete m name := (m.storeDelete name).toOption
  storeRename m name replacement := (m.storeRename name replacement).toOption

def setState (state : State) (m : Manager C) (tunnel : Nat) : Outcome State (Manager C) :=
  ⟨.ok state, m.onStateChanged tunnel state⟩

def ended {α : Type} (out : Except RequestFailure α × Manager C) : Bool × Manager C :=
  (out.1.isOk, out.2)

/-- The requests as `ManagerCalls` has them, with a backend that does what it is asked for. -/
def perform (reported : State) (m : Manager C) : Request C → Bool × Manager C
  | .create name config => ended (calls.create m name config)
  | .delete tunnel =>
    ended (calls.delete (setState .down) (fun m t _ => setState .up m t) m tunnel)
  | .setTunnelName tunnel name =>
    ended (calls.setTunnelName (setState .down) (fun m t _ => setState .up m t)
      (fun _ _ => reported) m tunnel name)

section Alone

variable {reported : State} (m : Manager C) (t : Nat) (wasUp wasLastUsed : Bool)

theorem alone_finishWith {α : Type} {e : Option Thrown} {result : Except RequestFailure α}
    (h : e.isNone = result.isOk) :
    Alone reported (m.finishWith t wasLastUsed e)
      (ended (calls.addBack m t wasLastUsed result)) := by
  unfold finishWith ManagerCalls.addBack
  simp only [calls]
  cases m.addBack t wasLastUsed with
  | none => exact .finished _ m
  | some list =>
    unfold ended
    rw [← h]
    exact .finished e _

theorem alone_addToList (name : Name) (config : C) :
    Alone reported (.suspended (.addToList name config), m)
      (ended (calls.addToList m name (some config) .down)) := by
  apply Alone.resumed
  simp only [resume, ManagerCalls.addToList, calls, onStateChanged]
  cases (m.newTunnel name (some config)).add m.nextTunnel with
  | none => exact .finished (some .sameKey) _
  | some list => exact .finished none _

theorem alone_storeDelete :
    Alone reported (.suspended (.storeDelete t wasUp wasLastUsed), m)
      (ended (calls.deleteFile (fun m t _ => setState .up m t) m t wasUp wasLastUsed)) := by
  have hstore : calls.storeDelete m ((calls.list m).name t) =
      (m.storeDelete (m.name t)).toOption := rfl
  apply Alone.resumed
  simp only [resume, ManagerCalls.deleteFile]
  rw [hstore]
  cases m.storeDelete (m.name t) with
  | ok m' => exact .finished none m'
  | error e =>
    cases wasUp with
    | true => exact .resumed (.resumed (alone_finishWith _ t _ rfl))
    | false => exact .resumed (alone_finishWith m t _ rfl)

theorem alone_storeRename (name : Name) :
    Alone reported (.suspended (.storeRename t name wasUp wasLastUsed), m)
      (ended (calls.renameFile (fun m t _ => setState .up m t) (fun _ _ => reported) m t name wasUp
        wasLastUsed)) := by
  have hstore : calls.storeRename m ((calls.list m).name t) name =
      (m.storeRename (m.name t) name).toOption := rfl
  apply Alone.resumed
  simp only [resume, ManagerCalls.renameFile]
  rw [hstore]
  cases m.storeRename (m.name t) name with
  | ok m' =>
    cases wasUp with
    | true => exact .resumed (.resumed (.resumed (alone_finishWith _ t _ rfl)))
    | false => exact .resumed (alone_finishWith _ t _ rfl)
  | error e => exact .resumed (.resumed (alone_finishWith _ t _ rfl))

end Alone

/-- The coroutines are cut from the requests of `ManagerCalls`: one that nothing interleaves with
ends as the request does. -/
theorem alone_start (reported : State) (m : Manager C) (request : Request C) :
    Alone reported (m.start request) (perform reported m request) := by
  have hnames : (calls.list m).names = m.names := rfl
  have hstate : ∀ t, calls.state m t = m.state t := fun _ => rfl
  cases request with
  | create name config =>
    simp only [start, perform, ManagerCalls.create, hnames]
    split_ifs
    · exact .finished _ m
    · exact .finished _ m
    · cases config with
      | none => exact .resumed (.finished _ m)
      | some c =>
        have hstore : calls.storeCreate m name c = (m.storeCreate name).toOption := rfl
        apply Alone.resumed
        simp only [resume, hstore]
        cases m.storeCreate name with
        | ok m' => exact alone_addToList m' name c
        | error e => exact .finished (some e) m
  | delete t =>
    simp only [start, perform, ManagerCalls.delete, ManagerCalls.takeOut, hstate]
    by_cases hup : m.state t = .up
    · simp only [if_pos hup, decide_eq_true hup]
      exact .resumed (alone_storeDelete _ t true _)
    · simp only [if_neg hup, decide_eq_false hup]
      exact alone_storeDelete _ t false _
  | setTunnelName t name =>
    simp only [start, perform, ManagerCalls.setTunnelName, ManagerCalls.takeOut, hnames, hstate]
    split_ifs with hinvalid hexists hup
    · exact .finished _ m
    · exact .finished _ m
    · simp only [decide_eq_true hup]
      exact .resumed (alone_storeRename _ t true _ name)
    · simp only [decide_eq_false hup]
      exact alone_storeRename _ t false _ name

end Manager

/-- The manager with the requests in progress and the ends of those that are over. -/
structure Requests (C : Type*) where
  manager : Manager C
  running : List (Coroutine C)
  finished : List (Option Thrown)

namespace Requests

variable {C : Type*}

def settle (r : Requests C) (running : List (Coroutine C)) (out : Progress C × Manager C) :
    Requests C :=
  match out.1 with
  | .suspended coroutine =>
    { r with manager := out.2, running := coroutine :: running }
  | .finished thrown =>
    { manager := out.2, running := running, finished := thrown :: r.finished }

/-- The scheduler starts a request or lets the i-th coroutine go on; the backend may report a state
of a tunnel at any time. -/
inductive Action (C : Type*) where
  | start (request : Request C)
  | resume (i : Nat) (reported : State)
  | onStateChange (tunnel : Nat) (state : State)

def step (r : Requests C) : Action C → Requests C
  | .start request => r.settle r.running (r.manager.start request)
  | .resume i reported =>
    match r.running[i]? with
    | none => r
    | some coroutine => r.settle (r.running.eraseIdx i) (r.manager.resume reported coroutine)
  | .onStateChange tunnel state => { r with manager := r.manager.onStateChanged tunnel state }

end Requests

end Amnezia.Model
