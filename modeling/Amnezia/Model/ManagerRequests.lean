import Mathlib.Logic.Function.Basic
import Amnezia.Backend.Tunnel
import Amnezia.Databinding.SortedKeyedList
import Amnezia.Model.TunnelName

/-!
# The requests of TunnelManager that change its list

`create`, `delete` and `setTunnelName`, each run to its end: the backend they call, the config store
and what else the manager keeps are left open.  A tunnel object is a number.
-/

namespace Amnezia.Model

open Amnezia.Backend
open Amnezia.Databinding (containsKey)

inductive RequestFailure where
  | invalidName
  | alreadyExists (name : Name)
  | missingConfig
  | sameKey
  | store
  | backend (e : Failure)
  deriving DecidableEq, Repr

/-- The list of a manager, with `ObservableTunnel.name` and `.config`. -/
structure TunnelList (C : Type*) where
  tunnelMap : List Nat
  name : Nat → Name
  config : Nat → Option C
  lastUsedTunnel : Option Nat
  /-- The first number not used for a tunnel object yet. -/
  nextTunnel : Nat

namespace TunnelList

variable {C : Type*}

def names (l : TunnelList C) : List Name := l.tunnelMap.map l.name

def add (l : TunnelList C) (tunnel : Nat) : Option (TunnelList C) :=
  (Databinding.add TunnelComparator.compare l.name l.tunnelMap tunnel).map fun added =>
    { l with tunnelMap := added.2 }

def remove (l : TunnelList C) (tunnel : Nat) : TunnelList C :=
  { l with
    tunnelMap := l.tunnelMap.erase tunnel
    lastUsedTunnel := if l.lastUsedTunnel = some tunnel then none else l.lastUsedTunnel }

/-- Adding a tunnel back at the end of a request, as `lastUsedTunnel` if it was that. -/
def addBack (l : TunnelList C) (tunnel : Nat) (wasLastUsed : Bool) : Option (TunnelList C) :=
  (l.add tunnel).map fun l' =>
    { l' with lastUsedTunnel := if wasLastUsed then some tunnel else l'.lastUsedTunnel }

def newTunnel (l : TunnelList C) (name : Name) (config : Option C) : TunnelList C :=
  { l with
    name := Function.update l.name l.nextTunnel name
    config := Function.update l.config l.nextTunnel config
    nextTunnel := l.nextTunnel + 1 }

def onNameChanged (l : TunnelList C) (tunnel : Nat) (name : Name) : TunnelList C :=
  { l with name := Function.update l.name tunnel name }

end TunnelList

/-- What a manager is to its requests: its list, the states of the tunnels, and the calls of the
config store, which may fail. -/
structure ManagerCalls (M C : Type*) where
  list : M → TunnelList C
  setList : M → TunnelList C → M
  state : M → Nat → State
  onStateChanged : M → Nat → State → M
  storeCreate : M → Name → C → Option M
  storeDelete : M → Name → Option M
  storeRename : M → Name → Name → Option M

namespace ManagerCalls

variable {M C : Type*} (calls : ManagerCalls M C)

def addBack {α : Type} (m : M) (tunnel : Nat) (wasLastUsed : Bool)
    (result : Except RequestFailure α) : Except RequestFailure α × M :=
  match (calls.list m).addBack tunnel wasLastUsed with
  | none => (.error .sameKey, m)
  | some list => (result, calls.setList m list)

def addToList (m : M) (name : Name) (config : Option C) (state : State) :
    Except RequestFailure Nat × M :=
  let tunnel := (calls.list m).nextTunnel
  let created := calls.onStateChanged
    (calls.setList m ((calls.list m).newTunnel name config)) tunnel state
  match (calls.list created).add tunnel with
  | none => (.error .sameKey, created)
  | some list => (.ok tunnel, calls.setList created list)

def create (m : M) (name : Name) (config : Option C) : Except RequestFailure Nat × M :=
  if isNameInvalid name then (.error .invalidName, m)
  else if containsKey TunnelComparator.compare (calls.list m).names name then
    (.error (.alreadyExists name), m)
  else
    match config with
    | none => (.error .missingConfig, m)
    | some config =>
      match calls.storeCreate m name config with
      | none => (.error .store, m)
      | some m => calls.addToList m name (some config) .down

-- `setState` of the backend with `DOWN` and no config, with `UP` and a config, and `getState`.
variable (stop : M → Nat → Outcome State M) (start : M → Nat → Option C → Outcome State M)
  (getState : M → Nat → State)

/-- The tunnel is taken from the list, and down if it was up. -/
def takeOut (m : M) (tunnel : Nat) : Outcome State M :=
  let removed := calls.setList m ((calls.list m).remove tunnel)
  if calls.state m tunnel = .up then stop removed tunnel
  else ⟨.ok (calls.state m tunnel), removed⟩

/-- `delete` from the call of the config store on. -/
def deleteFile (m : M) (tunnel : Nat) (wasUp wasLastUsed : Bool) :
    Except RequestFailure Unit × M :=
  match calls.storeDelete m ((calls.list m).name tunnel) with
  | some m => (.ok (), m)
  | none =>
    if wasUp then
      let restarted := start m tunnel ((calls.list m).config tunnel)
      -- the exception of the store is lost when the backend throws too
      match restarted.result with
      | .error e => calls.addBack restarted.state tunnel wasLastUsed (.error (.backend e))
      | .ok _ => calls.addBack restarted.state tunnel wasLastUsed (.error .store)
    else calls.addBack m tunnel wasLastUsed (.error .store)

def delete (m : M) (tunnel : Nat) : Except RequestFailure Unit × M :=
  let wasUp := decide (calls.state m tunnel = .up)
  let wasLastUsed := decide ((calls.list m).lastUsedTunnel = some tunnel)
  let stopped := calls.takeOut stop m tunnel
  match stopped.result with
  | .error e => calls.addBack stopped.state tunnel wasLastUsed (.error (.backend e))
  | .ok _ => calls.deleteFile start stopped.state tunnel wasUp wasLastUsed

def getTunnelState (m : M) (tunnel : Nat) : M := calls.onStateChanged m tunnel (getState m tunnel)

/-- `setTunnelName` from the call of the config store on. -/
def renameFile (m : M) (tunnel : Nat) (name : Name) (wasUp wasLastUsed : Bool) :
    Except RequestFailure Name × M :=
  match calls.storeRename m ((calls.list m).name tunnel) name with
  | none =>
    calls.addBack (calls.getTunnelState getState m tunnel) tunnel wasLastUsed (.error .store)
  | some m =>
    let list := (calls.list m).onNameChanged tunnel name
    let renamed := calls.setList m list
    if wasUp then
      -- `tunnel.config` is what is cached; reading it only starts to load it
      let started := start renamed tunnel (list.config tunnel)
      match started.result with
      | .error e =>
        calls.addBack (calls.getTunnelState getState started.state tunnel) tunnel wasLastUsed
          (.error (.backend e))
      | .ok _ => calls.addBack started.state tunnel wasLastUsed (.ok name)
    else calls.addBack renamed tunnel wasLastUsed (.ok name)

def setTunnelName (m : M) (tunnel : Nat) (name : Name) : Except RequestFailure Name × M :=
  if isNameInvalid name then (.error .invalidName, m)
  else if containsKey TunnelComparator.compare (calls.list m).names name then
    (.error (.alreadyExists name), m)
  else
    let wasUp := decide (calls.state m tunnel = .up)
    let wasLastUsed := decide ((calls.list m).lastUsedTunnel = some tunnel)
    let stopped := calls.takeOut stop m tunnel
    match stopped.result with
    | .error e =>
      calls.addBack (calls.getTunnelState getState stopped.state tunnel) tunnel wasLastUsed
        (.error (.backend e))
    | .ok _ => calls.renameFile start getState stopped.state tunnel name wasUp wasLastUsed

theorem addBack_of_unique {α : Type} (m : M) {t : Nat} (wasLastUsed : Bool)
    (result : Except RequestFailure α)
    (h : ∀ u ∈ (calls.list m).tunnelMap, (calls.list m).name u = (calls.list m).name t → u = t) :
    ∃ map used, calls.addBack m t wasLastUsed result =
      (result, calls.setList m { calls.list m with tunnelMap := map, lastUsedTunnel := used }) := by
  obtain ⟨added, hadd⟩ := Databinding.add_of_unique TunnelComparator.eq_of_compare_eq_zero h
  unfold addBack TunnelList.addBack TunnelList.add
  rw [hadd]
  exact ⟨added.2, _, rfl⟩

variable {calls} {m : M} {t : Nat}

theorem addBack_cases {α : Type} (wasLastUsed : Bool) (result : Except RequestFailure α) :
    calls.addBack m t wasLastUsed result = (.error .sameKey, m) ∨
      ∃ map used, calls.addBack m t wasLastUsed result =
          (result, calls.setList m { calls.list m with tunnelMap := map, lastUsedTunnel := used }) ∧
        ∀ u, u ∈ map ↔ u = t ∨ u ∈ (calls.list m).tunnelMap := by
  unfold addBack TunnelList.addBack TunnelList.add
  cases hadd : Databinding.add TunnelComparator.compare (calls.list m).name
      (calls.list m).tunnelMap t with
  | none => exact .inl rfl
  | some added => exact .inr ⟨added.2, _, rfl, Databinding.mem_add hadd⟩

theorem addBack_error {α : Type} {wasLastUsed : Bool} {e : RequestFailure} :
    ∃ e' m', calls.addBack m t wasLastUsed (.error e : Except RequestFailure α) =
      (.error e', m') := by
  rcases addBack_cases wasLastUsed (.error e : Except RequestFailure α) with h | ⟨_, _, h, -⟩
  · exact ⟨_, _, h⟩
  · exact ⟨_, _, h⟩

variable (calls)

/-- No call of the backend is made for a tunnel that is not up. -/
theorem delete_of_ne_up (h : calls.state m t ≠ .up) :
    let removed := calls.setList m ((calls.list m).remove t)
    calls.delete stop start m t =
      match calls.storeDelete removed ((calls.list removed).name t) with
      | some m => (.ok (), m)
      | none =>
        calls.addBack removed t (decide ((calls.list m).lastUsedTunnel = some t))
          (.error .store) := by
  simp only [delete, takeOut, if_neg h, deleteFile, decide_eq_false h, Bool.false_eq_true, if_false]

theorem setTunnelName_of_rejected {name : Name} (h : isNameInvalid name = true ∨
    containsKey TunnelComparator.compare (calls.list m).names name = true) :
    (calls.setTunnelName stop start getState m t name).2 = m := by
  unfold setTunnelName
  split_ifs with hinvalid hexists
  · rfl
  · rfl
  · exact absurd h (not_or.mpr ⟨hinvalid, hexists⟩)

theorem setTunnelName_of_ne_up (h : calls.state m t ≠ .up) (name : Name) :
    let removed := calls.setList m ((calls.list m).remove t)
    let used := decide ((calls.list m).lastUsedTunnel = some t)
    let after := (calls.setTunnelName stop start getState m t name).2
    after = m ∨
      after = (calls.addBack (calls.getTunnelState getState removed t) t used
        (.error .store : Except RequestFailure Name)).2 ∨
      ∃ m', calls.storeRename removed ((calls.list removed).name t) name = some m' ∧
        after = (calls.addBack (calls.setList m' ((calls.list m').onNameChanged t name)) t used
          (.ok name)).2 := by
  unfold setTunnelName takeOut
  simp only [if_neg h, renameFile, decide_eq_false h, Bool.false_eq_true, if_false]
  split_ifs
  · exact .inl rfl
  · exact .inl rfl
  · split
    · exact .inr (.inl rfl)
    next m' hrenamed => exact .inr (.inr ⟨m', hrenamed, rfl⟩)

end ManagerCalls

end Amnezia.Model
