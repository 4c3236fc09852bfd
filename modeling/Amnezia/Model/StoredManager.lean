import Amnezia.Model.ManagerRequests
import Amnezia.Model.TunnelState

/-!
# TunnelManager with its config store

Requests that run one after the other, each to its end: what each leaves behind, whether it returns
or throws.  A tunnel object is a number, and a file holds the config written to it.
-/

namespace Amnezia.Model

open Amnezia.Backend Amnezia.Databinding TunnelComparator

structure StoredManager (C S : Type*) extends TunnelManager Nat C S Name where
  /-- The first number not used for a tunnel object yet. -/
  nextTunnel : Nat
  /-- The config that the file of a name holds, where there is one. -/
  store : Name → Option C

namespace StoredManager

variable {C S : Type*}

def started (tunnels : List Nat) (name : Nat → Name) (lastUsed : Option Nat) (nextTunnel : Nat)
    (store : Name → Option C) : StoredManager C S :=
  { TunnelManager.loaded tunnels name lastUsed [] with nextTunnel := nextTunnel, store := store }

def list (m : StoredManager C S) : TunnelList C :=
  ⟨m.tunnelMap, m.name, m.config, m.lastUsedTunnel, m.nextTunnel⟩

def setList (m : StoredManager C S) (list : TunnelList C) : StoredManager C S :=
  { m with
    tunnelMap := list.tunnelMap
    name := list.name
    config := list.config
    lastUsedTunnel := list.lastUsedTunnel
    nextTunnel := list.nextTunnel }

def names (m : StoredManager C S) : List Name := m.tunnelMap.map m.name

def remove (m : StoredManager C S) (tunnel : Nat) : StoredManager C S :=
  m.setList (m.list.remove tunnel)

/-- The config store; `succeeds` is false when the file cannot be created, deleted or renamed.  A
file that is created is written here. -/
def calls (succeeds : Bool) : ManagerCalls (StoredManager C S) C where
  list := list
  setList := setList
  state m := m.state
  onStateChanged m tunnel state := { m with toTunnelManager := m.onStateChanged tunnel state }
  storeCreate m name config :=
    if (m.store name).isSome ∨ succeeds = false then none
    else some { m with store := Function.update m.store name (some config) }
  storeDelete m name :=
    if (m.store name).isSome ∧ succeeds = true then
      some { m with store := Function.update m.store name none }
    else none
  storeRename m name replacement :=
    if (m.store replacement).isSome ∨ (m.store name).isNone ∨ succeeds = false then none
    else
      some { m with
        store := Function.update (Function.update m.store name none) replacement (m.store name) }

def create (m : StoredManager C S) (name : Name) (config : Option C) (writes : Bool) :
    StoredManager C S :=
  ((calls writes).create m name config).2

/-- What putting a tunnel back leaves: an exception of `add` leaves the tunnel out. -/
def addBack (m : StoredManager C S) (tunnel : Nat) (wasLastUsed : Bool) : StoredManager C S :=
  ((calls true).addBack m tunnel wasLastUsed (.ok ())).2

theorem addBack_snd {α : Type} (succeeds : Bool) (m : StoredManager C S) (t : Nat)
    (wasLastUsed : Bool) (result : Except RequestFailure α) :
    ((calls succeeds).addBack m t wasLastUsed result).2 = m.addBack t wasLastUsed := by
  unfold addBack ManagerCalls.addBack
  simp only [calls]
  split <;> rfl

theorem addBack_of_add {m : StoredManager C S} {t : Nat} {added : Bool × List Nat}
    (h : Databinding.add compare m.name m.tunnelMap t = some added)
    (wasLastUsed : Bool) :
    m.addBack t wasLastUsed =
      { m with
        tunnelMap := added.2
        lastUsedTunnel := if wasLastUsed then some t else m.lastUsedTunnel } := by
  have hadd : (m.list.add t) = some { m.list with tunnelMap := added.2 } := congrArg (Option.map _) h
  unfold addBack ManagerCalls.addBack TunnelList.addBack
  simp only [calls, hadd]
  rfl

/-- The manager with the file and the object of a new tunnel, which is not in the list yet. -/
def created (m : StoredManager C S) (name : Name) (config : C) : StoredManager C S :=
  { m with
    backend := m.backend.notify m.nextTunnel .down
    name := Function.update m.name m.nextTunnel name
    config := Function.update m.config m.nextTunnel (some config)
    nextTunnel := m.nextTunnel + 1
    store := Function.update m.store name (some config) }

theorem addToList_snd (succeeds : Bool) (m : StoredManager C S) (name : Name) (config : C) :
    ((calls succeeds).addToList { m with store := Function.update m.store name (some config) } name
      (some config) .down).2 = (m.created name config).addBack m.nextTunnel false := by
  unfold addBack ManagerCalls.addBack ManagerCalls.addToList TunnelList.addBack TunnelList.add
  simp only [calls, list, TunnelList.newTunnel, setList, TunnelManager.onStateChanged, created]
  cases Databinding.add compare (Function.update m.name m.nextTunnel name)
    m.tunnelMap m.nextTunnel <;> rfl

theorem addBack_cases (m : StoredManager C S) (t : Nat) (wasLastUsed : Bool) :
    m.addBack t wasLastUsed = m ∨ ∃ map used,
      m.addBack t wasLastUsed = { m with tunnelMap := map, lastUsedTunnel := used } ∧
        ∀ u, u ∈ map ↔ u = t ∨ u ∈ m.tunnelMap := by
  unfold addBack
  rcases ManagerCalls.addBack_cases wasLastUsed (.ok ()) with h | ⟨map, used, h, hmem⟩
  · exact .inl (congrArg Prod.snd h)
  · exact .inr ⟨map, used, congrArg Prod.snd h, hmem⟩

theorem addBack_fields (m : StoredManager C S) (t : Nat) (wasLastUsed : Bool) :
    (m.addBack t wasLastUsed).backend = m.backend ∧ (m.addBack t wasLastUsed).name = m.name ∧
      (m.addBack t wasLastUsed).runningTunnels = m.runningTunnels ∧
      (m.addBack t wasLastUsed).nextTunnel = m.nextTunnel := by
  rcases addBack_cases m t wasLastUsed with h | ⟨_, _, h, -⟩
  · rw [h]
    exact ⟨rfl, rfl, rfl, rfl⟩
  · rw [h]
    exact ⟨rfl, rfl, rfl, rfl⟩

variable {m : StoredManager C S} {t : Nat}

theorem mem_addBack {u : Nat} {wasLastUsed : Bool} (hne : u ≠ t) :
    u ∈ (m.addBack t wasLastUsed).tunnelMap ↔ u ∈ m.tunnelMap := by
  rcases addBack_cases m t wasLastUsed with h | ⟨_, _, h, hmem⟩
  · rw [h]
  · rw [h]
    exact (hmem u).trans (or_iff_right hne)

def insertName (names : List Name) (name : Name) : List Name :=
  match Databinding.add compare id names name with
  | some added => added.2
  | none => names

variable {name : Name}

theorem mem_insertName {names : List Name} {n : Name} (h : name ∉ names) :
    n ∈ insertName names name ↔ n = name ∨ n ∈ names := by
  obtain ⟨list, -, hadd⟩ :=
    add_map_of_notMem eq_of_compare_eq_zero id names name (by rwa [List.map_id])
  rw [List.map_id] at hadd
  simp only [insertName, id] at hadd ⊢
  rw [hadd]
  exact mem_add hadd n

theorem insertName_nodup {names : List Name} (hnodup : names.Nodup) (h : name ∉ names) :
    (insertName names name).Nodup := by
  obtain ⟨list, hadd, hperm⟩ := add_of_notMem eq_of_compare_eq_zero
    (show id name ∉ names.map id by rwa [List.map_id])
  simp only [insertName, hadd]
  exact hperm.nodup_iff.mpr (List.nodup_cons.mpr ⟨h, hnodup⟩)

structure Accounted (m : StoredManager C S) : Prop where
  nodup : m.names.Nodup
  files : ∀ name, (m.store name).isSome ↔ name ∈ m.names
  known : ∀ tunnel ∈ m.tunnelMap, tunnel < m.nextTunnel
  sound : GoBackend.Sound m.backend

theorem Accounted.eq_of_name (h : m.Accounted) {u : Nat} (ht : t ∈ m.tunnelMap)
    (hu : u ∈ m.tunnelMap) (hname : m.name t = m.name u) : t = u :=
  List.inj_on_of_nodup_map h.nodup ht hu hname

theorem Accounted.file_of_mem (h : m.Accounted) (ht : t ∈ m.tunnelMap) :
    (m.store (m.name t)).isSome = true :=
  (h.files _).mpr (List.mem_map_of_mem ht)

theorem create_some (m : StoredManager C S) (name : Name) (config : C) (writes : Bool) :
    m.create name (some config) writes =
      if isNameInvalid name = true ∨ containsKey compare m.names name = true ∨
        (m.store name).isSome = true ∨ writes = false then m
      else (m.created name config).addBack m.nextTunnel false := by
  unfold create ManagerCalls.create
  simp only [calls, show (list m).names = m.names from rfl]
  by_cases hinvalid : isNameInvalid name = true
  · rw [if_pos hinvalid, if_pos (.inl hinvalid)]
  by_cases hfound : containsKey compare m.names name = true
  · rw [if_neg hinvalid, if_pos hfound, if_pos (.inr (.inl hfound))]
  by_cases hfile : (m.store name).isSome = true ∨ writes = false
  · rw [if_neg hinvalid, if_neg hfound, if_pos hfile, if_pos (.inr (.inr hfile))]
  · rw [if_neg hinvalid, if_neg hfound, if_neg hfile,
      if_neg (not_or.mpr ⟨hinvalid, not_or.mpr ⟨hfound, hfile⟩⟩)]
    exact addToList_snd writes m name config

theorem create_of_notMem (h : m.Accounted) (hvalid : isNameInvalid name = false)
    (hnew : name ∉ m.names) (config : C) : let after := m.create name (some config) true
    after.names = insertName m.names name ∧
      after.store = Function.update m.store name (some config) ∧
      after.nextTunnel = m.nextTunnel + 1 ∧
      after.backend = m.backend.notify m.nextTunnel .down ∧
      ∀ t, t ∈ after.tunnelMap ↔ t = m.nextTunnel ∨ t ∈ m.tunnelMap := by
  have hmissed : ¬containsKey compare m.names name = true := fun hfound =>
    hnew (mem_of_containsKey eq_of_compare_eq_zero hfound)
  have haccepted : ¬(isNameInvalid name = true ∨ containsKey compare m.names name =
      true ∨ (m.store name).isSome = true ∨ true = false) := by
    rw [h.files name]
    simp [hvalid, hmissed, hnew]
  -- the other tunnels keep their names
  have hnames : m.tunnelMap.map (Function.update m.name m.nextTunnel name) = m.names := by
    apply List.map_congr_left
    intro t ht
    have hlt := h.known t ht
    exact Function.update_of_ne (by omega) _ _
  have hself : Function.update m.name m.nextTunnel name m.nextTunnel = name :=
    Function.update_self _ _ _
  obtain ⟨list, hadd, hkeys⟩ := add_map_of_notMem eq_of_compare_eq_zero
    (Function.update m.name m.nextTunnel name) m.tunnelMap m.nextTunnel (by rwa [hself, hnames])
  rw [hnames, hself] at hkeys
  have hmem := mem_add hadd
  simp only [create_some, if_neg haccepted, addBack_of_add (m := m.created name config) hadd]
  refine ⟨?_, rfl, rfl, rfl, hmem⟩
  simp only [insertName, hkeys]
  rfl

theorem create_cases (m : StoredManager C S) (name : Name) (config : Option C) (writes : Bool) :
    m.create name config writes = m ∨
      ∃ c, m.create name config writes = (m.created name c).addBack m.nextTunnel false := by
  cases config with
  | none =>
    left
    unfold create ManagerCalls.create
    split
    · rfl
    · split <;> rfl
  | some c =>
    rw [create_some]
    split
    · exact .inl rfl
    · exact .inr ⟨c, rfl⟩

theorem create_of_lt (m : StoredManager C S) (name : Name) (config : Option C) (writes : Bool)
    (ht : t < m.nextTunnel) :
    (m.create name config writes).state t = m.state t ∧
      (m.create name config writes).name t = m.name t ∧
      m.nextTunnel ≤ (m.create name config writes).nextTunnel := by
  have hne : t ≠ m.nextTunnel := by omega
  rcases create_cases m name config writes with heq | ⟨c, heq⟩
  · rw [heq]
    exact ⟨rfl, rfl, Nat.le_refl _⟩
  · obtain ⟨hbackend, hname, -, hnext⟩ := addBack_fields (m.created name c) m.nextTunnel false
    rw [heq]
    unfold TunnelManager.state
    rw [hbackend, hname, hnext]
    exact ⟨Function.update_of_ne hne _ _, Function.update_of_ne hne _ _, Nat.le_succ _⟩

/-- `create` of a name that is invalid or there already, or cannot be written, does nothing: a name
that the search misses still has its file. -/
theorem create_eq_self (h : m.Accounted) {writes : Bool}
    (hnot : ¬(isNameInvalid name = false ∧ name ∉ m.names ∧ writes = true)) (config : C) :
    m.create name (some config) writes = m := by
  rw [create_some, if_pos]
  by_contra haccepted
  simp only [not_or, Bool.not_eq_true, Bool.not_eq_false] at haccepted
  refine hnot ⟨haccepted.1, fun hmem => ?_, haccepted.2.2.2⟩
  rw [(h.files name).mpr hmem] at haccepted
  cases haccepted.2.2.1

theorem Accounted.create (h : m.Accounted) (name : Name) (config : C) (writes : Bool) :
    (m.create name (some config) writes).Accounted := by
  by_cases hnew : isNameInvalid name = false ∧ name ∉ m.names ∧ writes = true
  · obtain ⟨hvalid, hnew, rfl⟩ := hnew
    obtain ⟨hnames, hstore, hnext, hbackend, hmap⟩ := create_of_notMem h hvalid hnew config
    constructor
    · rw [hnames]
      exact insertName_nodup h.nodup hnew
    · intro n
      rw [hstore, hnames, mem_insertName hnew, ← h.files]
      by_cases heq : n = name
      · rw [heq, Function.update_self]
        exact iff_of_true rfl (.inl rfl)
      · rw [Function.update_of_ne heq]
        exact (or_iff_right heq).symm
    · intro t ht
      rw [hnext]
      cases (hmap t).mp ht with
      | inl heq => omega
      | inr hmem =>
        have hlt := h.known t hmem
        omega
    · rw [hbackend]
      exact GoBackend.notify_sound h.sound _ _
  · rw [create_eq_self h hnew]
    exact h

theorem accounted_creates (requests : List (Name × C × Bool)) :
    (requests.foldl (fun m r => m.create r.1 (some r.2.1) r.2.2)
      (started [] (fun _ => []) none 0 fun _ => none : StoredManager C S)).Accounted := by
  have hempty : (started [] (fun _ => []) none 0 fun _ => none : StoredManager C S).Accounted := by
    constructor
    · exact List.nodup_nil
    · intro n
      simp [started, StoredManager.names, TunnelManager.loaded]
    · exact fun t ht => absurd ht List.not_mem_nil
    · exact GoBackend.sound_initial
  generalize (started [] (fun _ => []) none 0 fun _ => none : StoredManager C S) = m at hempty
  induction requests generalizing m with
  | nil => exact hempty
  | cons r requests ih => exact ih _ (hempty.create r.1 r.2.1 r.2.2)

def namesAfterDelete (names : List Name) (name : Name) (deletes : Bool) : List Name :=
  let others := names.filter fun n => n ≠ name
  if deletes then others else insertName others name

theorem Accounted.remove_names (h : m.Accounted) (ht : t ∈ m.tunnelMap) :
    (m.remove t).names = m.names.filter fun n => n ≠ m.name t := by
  show (m.tunnelMap.erase t).map m.name = _
  unfold names
  rw [(List.Nodup.of_map _ h.nodup).erase_eq_filter, List.filter_map]
  congr 1
  apply List.filter_congr
  intro u hu
  rw [Bool.eq_iff_iff, bne_iff_ne, Function.comp_apply, decide_eq_true_eq, not_iff_not]
  exact ⟨congrArg m.name, h.eq_of_name hu ht⟩

variable [DecidableEq S] [DecidableEq C] (endpoints : C → List (Option (List Char)))

def setState (o : GoBackend.Answers S) (m : StoredManager C S) (tunnel : Nat) (requested : State)
    (config : Option C) : Outcome State (StoredManager C S) :=
  let out := GoBackend.setState endpoints o m.backend tunnel requested config
  ⟨out.result, { m with backend := out.state }⟩

def delete (o : GoBackend.Answers S) (m : StoredManager C S) (tunnel : Nat) (deletes : Bool) :
    StoredManager C S :=
  ((calls deletes).delete (setState endpoints o · · .down none) (setState endpoints o · · .up) m
    tunnel).2

def setTunnelName (o : GoBackend.Answers S) (m : StoredManager C S) (tunnel : Nat) (name : Name)
    (renames : Bool) : StoredManager C S :=
  ((calls renames).setTunnelName (setState endpoints o · · .down none)
    (setState endpoints o · · .up) (fun m => m.backend.getState) m tunnel name).2

/-- `setTunnelConfig`; `saves` is false when the file cannot be opened.  A file that is opened is
written here. -/
def setTunnelConfig (o : GoBackend.Answers S) (m : StoredManager C S) (tunnel : Nat) (config : C)
    (saves : Bool) : StoredManager C S :=
  let out := TunnelManager.setTunnelConfig endpoints o
    ((m.store (m.name tunnel)).isSome && saves) m.toTunnelManager tunnel config
  { m with
    toTunnelManager := out.state
    store :=
      match out.result with
      | .ok _ => Function.update m.store (m.name tunnel) (some config)
      | .error _ => m.store }

theorem delete_of_ne_up (o : GoBackend.Answers S) (hdown : m.state t ≠ .up) (deletes : Bool) :
    delete endpoints o m t deletes =
      if (m.store (m.name t)).isSome ∧ deletes = true then
        { m.remove t with store := Function.update m.store (m.name t) none }
      else (m.remove t).addBack t (decide (m.lastUsedTunnel = some t)) := by
  have hshared := (calls deletes).delete_of_ne_up (setState endpoints o · · .down none)
    (setState endpoints o · · .up) (m := m) (t := t) hdown
  unfold delete
  rw [hshared]
  by_cases hfile : (m.store (m.name t)).isSome ∧ deletes = true
  · simp only [calls, list, setList, TunnelList.remove, if_pos hfile]
    rfl
  · simp only [calls, list, setList, TunnelList.remove, if_neg hfile]
    exact addBack_snd deletes (m.remove t) t _ _

theorem delete_of_mem (h : m.Accounted) (o : GoBackend.Answers S) (ht : t ∈ m.tunnelMap) :
    let after := delete endpoints o m t true
    after.tunnelMap = m.tunnelMap.erase t ∧ after.name = m.name ∧
      after.store = Function.update m.store (m.name t) none ∧ after.nextTunnel = m.nextTunnel ∧
      GoBackend.Sound after.backend := by
  have hfile : (m.store (m.name t)).isSome = true := h.file_of_mem ht
  by_cases hup : m.state t = .up
  · have hsound := GoBackend.setState_sound endpoints o h.sound t .down none
    have hstopped := (GoBackend.setState_down endpoints o h.sound t none).1
    simp only [delete, ManagerCalls.delete, ManagerCalls.takeOut, ManagerCalls.deleteFile, calls,
      if_pos hup, setState, list, setList, TunnelList.remove, hstopped, hfile]
    exact ⟨rfl, rfl, rfl, rfl, hsound⟩
  · rw [delete_of_ne_up endpoints o hup, if_pos ⟨hfile, rfl⟩]
    exact ⟨rfl, rfl, rfl, rfl, h.sound⟩

theorem Accounted.delete (h : m.Accounted) (o : GoBackend.Answers S) (ht : t ∈ m.tunnelMap) :
    (delete endpoints o m t true).Accounted := by
  obtain ⟨hmap, hname, hstore, hnext, hsound⟩ := delete_of_mem endpoints h o ht
  have hnames : (StoredManager.delete endpoints o m t true).names =
      (m.tunnelMap.erase t).map m.name := by
    unfold names
    rw [hmap, hname]
  constructor
  · rw [hnames]
    exact h.nodup.sublist (List.Sublist.map _ (List.erase_sublist))
  · intro n
    rw [hstore, hnames, List.mem_map]
    by_cases heq : n = m.name t
    · rw [heq, Function.update_self]
      apply iff_of_false (by simp)
      intro ⟨u, hu, hsame⟩
      have hmem : u ∈ m.tunnelMap := List.mem_of_mem_erase hu
      have hut : u = t := h.eq_of_name hmem ht hsame
      rw [hut] at hu
      exact (List.Nodup.of_map _ h.nodup).not_mem_erase hu
    · rw [Function.update_of_ne heq, h.files n, names, List.mem_map]
      constructor
      · intro ⟨u, hu, hsame⟩
        have hne : u ≠ t := fun hut => heq (by rw [← hsame, hut])
        exact ⟨u, (List.mem_erase_of_ne hne).mpr hu, hsame⟩
      · intro ⟨u, hu, hsame⟩
        exact ⟨u, List.mem_of_mem_erase hu, hsame⟩
  · intro u hu
    rw [hnext]
    rw [hmap] at hu
    exact h.known u (List.mem_of_mem_erase hu)
  · exact hsound

theorem setTunnelConfig_of_can (h : m.Accounted) (o : GoBackend.Answers S) (ht : t ∈ m.tunnelMap)
    {c : C} (hcan : GoBackend.CanBringUp endpoints o.bringUp m.backend.vpnService (some c)) :
    let after := setTunnelConfig endpoints o m t c true
    after.tunnelMap = m.tunnelMap ∧ after.name = m.name ∧
      after.store = Function.update m.store (m.name t) (some c) ∧
      after.nextTunnel = m.nextTunnel ∧ GoBackend.Sound after.backend := by
  have hfile : (m.store (m.name t)).isSome = true := h.file_of_mem ht
  have hsound := GoBackend.setState_sound endpoints o h.sound t (m.state t) (some c)
  obtain ⟨state, hres⟩ := GoBackend.setState_ok_of_can endpoints o h.sound t (m.state t) hcan
  simp only [setTunnelConfig, TunnelManager.setTunnelConfig, hres, hfile]
  exact ⟨rfl, rfl, rfl, trivial, hsound⟩

theorem Accounted.setTunnelConfig (h : m.Accounted) (o : GoBackend.Answers S) (ht : t ∈ m.tunnelMap)
    {c : C} (hcan : GoBackend.CanBringUp endpoints o.bringUp m.backend.vpnService (some c)) :
    (setTunnelConfig endpoints o m t c true).Accounted := by
  obtain ⟨hmap, hname, hstore, hnext, hsound⟩ := setTunnelConfig_of_can endpoints h o ht hcan
  have hnames : (StoredManager.setTunnelConfig endpoints o m t c true).names = m.names := by
    unfold names
    rw [hmap, hname]
  constructor
  · rw [hnames]
    exact h.nodup
  · intro n
    rw [hstore, hnames, ← h.files n]
    by_cases heq : n = m.name t
    · rw [heq, Function.update_self]
      exact iff_of_true rfl (h.file_of_mem ht)
    · rw [Function.update_of_ne heq]
  · rw [hmap, hnext]
    exact h.known
  · exact hsound

theorem delete_of_down (h : m.Accounted) (o : GoBackend.Answers S) (ht : t ∈ m.tunnelMap)
    (hdown : m.state t ≠ .up) (deletes : Bool) : let after := delete endpoints o m t deletes
    after.Accounted ∧ after.backend = m.backend ∧ after.name = m.name ∧
      after.names = namesAfterDelete m.names (m.name t) deletes ∧
      ∀ u, u ≠ t → (u ∈ after.tunnelMap ↔ u ∈ m.tunnelMap) := by
  have hremoved := h.remove_names ht
  have hfile : (m.store (m.name t)).isSome = true := h.file_of_mem ht
  cases deletes with
  | true =>
    obtain ⟨hmap, hname, -, -, -⟩ := delete_of_mem endpoints h o ht
    refine ⟨h.delete endpoints o ht, ?_, hname, ?_, ?_⟩
    · rw [delete_of_ne_up endpoints o hdown, if_pos ⟨hfile, rfl⟩]
      rfl
    · unfold names
      rw [hmap, hname]
      exact hremoved
    · intro u hu
      rw [hmap, List.mem_erase_of_ne hu]
  | false =>
    -- the tunnel goes back to where the search puts its name
    have hnew : m.name t ∉ (m.remove t).names := by
      rw [hremoved]
      simp
    obtain ⟨list, hadd, hkeys⟩ := add_map_of_notMem eq_of_compare_eq_zero
      m.name (m.tunnelMap.erase t) t hnew
    have hmem := mem_add hadd
    have hinsert : list.map m.name = insertName (m.remove t).names (m.name t) := by
      unfold insertName
      rw [show add compare id (m.remove t).names (m.name t) = _ from hkeys]
    have hmem' : ∀ u, u ∈ list ↔ u ∈ m.tunnelMap := by
      intro u
      rw [hmem u]
      by_cases heq : u = t
      · rw [heq]
        exact iff_of_true (.inl rfl) ht
      · rw [List.mem_erase_of_ne heq]
        exact or_iff_right heq
    simp only [delete_of_ne_up endpoints o hdown, if_neg (show ¬ (_ ∧ false = true) by simp),
      addBack_of_add (m := m.remove t) hadd]
    refine ⟨?_, rfl, rfl, ?_, fun u _ => hmem' u⟩
    · constructor
      · show (list.map m.name).Nodup
        rw [hinsert]
        apply insertName_nodup _ hnew
        rw [hremoved]
        exact h.nodup.filter _
      · intro n
        show (m.store n).isSome ↔ n ∈ list.map m.name
        rw [h.files n, names, List.mem_map, List.mem_map]
        apply exists_congr
        intro u
        rw [hmem' u]
      · intro u hu
        exact h.known u ((hmem' u).mp hu)
      · exact h.sound
    · show list.map m.name = _
      rw [hinsert, hremoved]
      rfl

theorem setTunnelConfig_of_down (h : m.Accounted) (o : GoBackend.Answers S) (ht : t ∈ m.tunnelMap)
    (hdown : m.state t = .down) (hcurrent : m.backend.currentTunnel ≠ some t) (c : C) (saves : Bool) :
    let after := setTunnelConfig endpoints o m t c saves
    after.Accounted ∧ after.backend = m.backend ∧ after.tunnelMap = m.tunnelMap ∧
      after.name = m.name := by
  have hstate := GoBackend.setState_down_of_ne endpoints o hcurrent (some c)
  have hsound := GoBackend.setState_sound endpoints o h.sound t .down (some c)
  have hfile : (m.store (m.name t)).isSome = true := h.file_of_mem ht
  have hfiles : ∀ n, (Function.update m.store (m.name t) (some c) n).isSome ↔ n ∈ m.names := by
    intro n
    rw [← h.files n]
    by_cases heq : n = m.name t
    · rw [heq, Function.update_self]
      exact iff_of_true rfl hfile
    · rw [Function.update_of_ne heq]
  simp only [setTunnelConfig, TunnelManager.setTunnelConfig, hdown]
  split
  · refine ⟨⟨h.nodup, ?_, h.known, hsound⟩, hstate, rfl, rfl⟩
    exact h.files
  · split
    · refine ⟨⟨h.nodup, ?_, h.known, hsound⟩, hstate, rfl, rfl⟩
      exact hfiles
    · refine ⟨⟨h.nodup, ?_, h.known, hsound⟩, hstate, rfl, rfl⟩
      exact h.files

end StoredManager

end Amnezia.Model
