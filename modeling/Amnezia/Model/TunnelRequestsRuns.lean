import Amnezia.Lib.Runs
import Amnezia.Model.TunnelRequests

/-!
# The tunnel map and the config store

Every file of the store belongs to a tunnel of the map or to a request in progress.  A request that
starts on a tunnel of the map takes the tunnel and its name over, and nothing else can touch either
until it puts the tunnel back.
-/

namespace Amnezia.Model

open Amnezia.Backend (State)
open Amnezia.Databinding

variable {C : Type*}

def Coroutine.tunnels : Coroutine C → List Nat
  | .storeCreate _ _ => []
  | .addToList _ _ => []
  | .stopForDelete t _ => [t]
  | .storeDelete t _ _ => [t]
  | .restartUndeleted t _ _ => [t]
  | .putBack t _ _ => [t]
  | .stopForRename t _ _ => [t]
  | .storeRename t _ _ _ => [t]
  | .onRenamed t _ _ _ => [t]
  | .restartRenamed t _ => [t]
  | .getTunnelState t _ _ => [t]
  | .addBack t _ _ => [t]

def Coroutine.owned (name : Nat → Name) : Coroutine C → List Name
  | .storeCreate _ _ => []
  | .addToList n _ => [n]
  | .stopForDelete t _ => [name t]
  | .storeDelete t _ _ => [name t]
  | .restartUndeleted t _ _ => [name t]
  | .putBack t _ _ => [name t]
  | .stopForRename t _ _ => [name t]
  | .storeRename t _ _ _ => [name t]
  | .onRenamed _ n _ _ => [n]
  | .restartRenamed t _ => [name t]
  | .getTunnelState t _ _ => [name t]
  | .addBack t _ _ => [name t]

variable {co : Coroutine C} {t : Nat}

theorem Coroutine.owned_update (h : t ∉ co.tunnels) (name : Nat → Name) (n : Name) :
    co.owned (Function.update name t n) = co.owned name := by
  have hne : ∀ u, u ∈ co.tunnels → Function.update name t n u = name u := by
    intro u hu
    apply Function.update_of_ne
    intro heq
    exact h (heq ▸ hu)
  cases co <;> simp_all [Coroutine.tunnels, Coroutine.owned]

variable {running : List (Coroutine C)} {m : Manager C}

namespace Manager

def objects (m : Manager C) (running : List (Coroutine C)) : List Nat :=
  m.tunnelMap ++ running.flatMap Coroutine.tunnels

def claimed (m : Manager C) (running : List (Coroutine C)) : List Name :=
  m.names ++ running.flatMap (Coroutine.owned m.name)

structure Accounted (m : Manager C) (running : List (Coroutine C)) : Prop where
  objects : (m.objects running).Nodup
  bound : ∀ t ∈ m.objects running, t < m.nextTunnel
  claimed : (m.claimed running).Nodup
  store : ∀ n, n ∈ m.store ↔ n ∈ m.claimed running

theorem Accounted.move {m' : Manager C} {running' : List (Coroutine C)} (h : Accounted m running)
    (hobj : (m'.objects running').Perm (m.objects running))
    (hcl : (m'.claimed running').Perm (m.claimed running)) (hnext : m'.nextTunnel = m.nextTunnel)
    (hstore : m'.store = m.store) : Accounted m' running' where
  objects := hobj.nodup_iff.mpr h.objects
  bound t ht := by
    rw [hnext]
    exact h.bound t (hobj.mem_iff.mp ht)
  claimed := hcl.nodup_iff.mpr h.claimed
  store n := by
    rw [hstore, hcl.mem_iff]
    exact h.store n

theorem Accounted.perm {running' : List (Coroutine C)} (h : Accounted m running)
    (hperm : running'.Perm running) : Accounted m running' :=
  h.move ((hperm.flatMap_right _).append_left _) ((hperm.flatMap_right _).append_left _) rfl rfl

theorem claimed_cons (m : Manager C) (co : Coroutine C) (running : List (Coroutine C)) :
    (m.claimed (co :: running)).Perm (co.owned m.name ++ m.claimed running) := by
  unfold claimed
  rw [List.flatMap_cons, ← List.append_assoc, ← List.append_assoc]
  exact List.perm_append_comm.append_right _

theorem objects_cons (m : Manager C) (co : Coroutine C) (running : List (Coroutine C)) :
    (m.objects (co :: running)).Perm (co.tunnels ++ m.objects running) := by
  unfold objects
  rw [List.flatMap_cons, ← List.append_assoc, ← List.append_assoc]
  exact List.perm_append_comm.append_right _

theorem accounted_cons : Accounted m (co :: running) ↔
    (co.tunnels ++ m.objects running).Nodup ∧
      (∀ t ∈ co.tunnels ++ m.objects running, t < m.nextTunnel) ∧
      (co.owned m.name ++ m.claimed running).Nodup ∧
      ∀ n, n ∈ m.store ↔ n ∈ co.owned m.name ++ m.claimed running := by
  have hobj := objects_cons m co running
  have hcl := claimed_cons m co running
  rw [← hobj.nodup_iff, ← hcl.nodup_iff]
  simp only [← hobj.mem_iff, ← hcl.mem_iff]
  exact ⟨fun h => ⟨h.1, h.2, h.3, h.4⟩, fun ⟨h₁, h₂, h₃, h₄⟩ => ⟨h₁, h₂, h₃, h₄⟩⟩

theorem Accounted.replace {m' : Manager C} {co' : Coroutine C} (h : Accounted m (co :: running))
    (htun : co'.tunnels = co.tunnels) (hown : co'.owned m.name = co.owned m.name)
    (hmap : m'.tunnelMap = m.tunnelMap) (hname : m'.name = m.name)
    (hnext : m'.nextTunnel = m.nextTunnel) (hstore : m'.store = m.store) :
    Accounted m' (co' :: running) := by
  refine h.move ?_ ?_ hnext hstore
  · unfold Manager.objects
    rw [hmap, List.flatMap_cons, List.flatMap_cons, htun]
  · unfold Manager.claimed TunnelList.names
    rw [hmap, hname, List.flatMap_cons, List.flatMap_cons, hown]

theorem Accounted.drop (h : Accounted m (co :: running)) (htun : co.tunnels = [])
    (hown : co.owned m.name = []) : Accounted m running := by
  rw [accounted_cons, htun, hown] at h
  exact ⟨h.1, h.2.1, h.2.2.1, h.2.2.2⟩

theorem Accounted.notMem_names (h : Accounted m (co :: running)) {n : Name}
    (hown : co.owned m.name = [n]) : n ∉ m.claimed running := by
  have hnodup := (accounted_cons.1 h).2.2.1
  rw [hown] at hnodup
  exact (List.nodup_cons.mp hnodup).1

theorem Accounted.notMem_objects (h : Accounted m (co :: running)) (htun : co.tunnels = [t]) :
    t ∉ m.objects running := by
  have hnodup := (accounted_cons.1 h).1
  rw [htun] at hnodup
  exact (List.nodup_cons.mp hnodup).1

theorem Accounted.mem_store (h : Accounted m (co :: running)) {n : Name}
    (hown : co.owned m.name = [n]) : n ∈ m.store := by
  rw [(accounted_cons.1 h).2.2.2 n, hown]
  exact List.mem_cons_self

theorem add_of_notMem (h : m.name t ∉ m.names) :
    ∃ list, m.add t = some { m.toTunnelList with tunnelMap := list } ∧
      list.Perm (t :: m.tunnelMap) := by
  obtain ⟨list, hadd, hperm⟩ :=
    Databinding.add_of_notMem TunnelComparator.eq_of_compare_eq_zero h
  refine ⟨list, ?_, hperm⟩
  rw [TunnelList.add, hadd]
  rfl

theorem Accounted.finishWith (h : Accounted m (co :: running)) (htun : co.tunnels = [t])
    (hown : co.owned m.name = [m.name t]) (wasLastUsed : Bool) (e : Option Thrown) :
    (m.finishWith t wasLastUsed e).1 = .finished e ∧
      Accounted (m.finishWith t wasLastUsed e).2 running := by
  have hnew : m.name t ∉ m.names := by
    intro hmem
    exact h.notMem_names hown (List.mem_append_left _ hmem)
  obtain ⟨list, hadd, hperm⟩ := add_of_notMem hnew
  simp only [Manager.finishWith, TunnelList.addBack, hadd, Option.map_some]
  refine ⟨trivial, h.move ?_ ?_ rfl rfl⟩
  · refine .trans ?_ (objects_cons m co running).symm
    rw [htun]
    exact hperm.append_right _
  · refine .trans ?_ (claimed_cons m co running).symm
    rw [hown]
    exact (hperm.map m.name).append_right _

theorem names_update (h : t ∉ m.tunnelMap) (n : Name) :
    m.tunnelMap.map (Function.update m.name t n) = m.names := by
  apply List.map_congr_left
  intro u hu
  apply Function.update_of_ne
  intro heq
  exact h (heq ▸ hu)

theorem owned_update (h : t ∉ running.flatMap Coroutine.tunnels) (name : Nat → Name) (n : Name) :
    running.flatMap (Coroutine.owned (Function.update name t n)) =
      running.flatMap (Coroutine.owned name) := by
  induction running with
  | nil => rfl
  | cons co running ih =>
    rw [List.flatMap_cons, List.mem_append, not_or] at h
    rw [List.flatMap_cons, List.flatMap_cons, Coroutine.owned_update h.1, ih h.2]

theorem claimed_update (h : t ∉ m.objects running) (n : Name) :
    { m with name := Function.update m.name t n }.claimed running = m.claimed running := by
  unfold objects at h
  rw [List.mem_append, not_or] at h
  unfold claimed TunnelList.names
  rw [owned_update h.2]
  show m.tunnelMap.map (Function.update m.name t n) ++ _ = _
  rw [names_update h.1]
  rfl

def settled (running : List (Coroutine C)) : Progress C → List (Coroutine C)
  | .suspended co => co :: running
  | .finished _ => running

theorem Accounted.storeCreate (reported : State) (name : Name) (config : Option C)
    (h : Accounted m (.storeCreate name config :: running)) :
    Accounted (m.resume reported (.storeCreate name config)).2
      (settled running (m.resume reported (.storeCreate name config)).1) := by
  have hrest : Accounted m running := h.drop rfl rfl
  cases config with
  | none => exact hrest
  | some config =>
    simp only [resume, Manager.storeCreate]
    by_cases hex : name ∈ m.store
    · rw [if_pos hex]
      exact hrest
    · rw [if_neg hex]
      -- the new file is the only one of its name, and the request answers for it
      have hnew : name ∉ m.claimed running := fun hmem => hex ((hrest.store name).mpr hmem)
      refine accounted_cons.2 ⟨hrest.objects, hrest.bound, List.nodup_cons.mpr ⟨hnew, hrest.claimed⟩,
        fun n => ?_⟩
      show n ∈ insert name m.store ↔ n ∈ name :: m.claimed running
      rw [Finset.mem_insert, hrest.store n, List.mem_cons]

theorem Accounted.addToList (reported : State) (name : Name) (config : C)
    (h : Accounted m (.addToList name config :: running)) :
    Accounted (m.resume reported (.addToList name config)).2
      (settled running (m.resume reported (.addToList name config)).1) := by
  obtain ⟨hobjects, hbound, hclaims, hstore⟩ := accounted_cons.1 h
  have hfresh : m.nextTunnel ∉ m.objects running := by
    intro hmem
    have := hbound m.nextTunnel hmem
    omega
  let created : Manager C :=
    { m with
      toTunnelList := m.newTunnel name (some config)
      state := Function.update m.state m.nextTunnel .down }
  have hclaimed : created.claimed running = m.claimed running := claimed_update hfresh name
  have hname : created.name m.nextTunnel = name := Function.update_self ..
  have hnew : created.name m.nextTunnel ∉ created.names := by
    intro hmem
    rw [hname] at hmem
    apply h.notMem_names (n := name) rfl
    rw [← hclaimed]
    exact List.mem_append_left _ hmem
  obtain ⟨list, hadd, hperm⟩ := add_of_notMem hnew
  have hresume : m.resume reported (.addToList name config) =
      (.finished none, { created with tunnelMap := list }) := by
    simp only [created] at hadd
    simp only [resume, hadd]
    rfl
  rw [hresume]
  have hobj' : ({ created with tunnelMap := list }.objects running).Perm
      (m.nextTunnel :: m.objects running) := hperm.append_right _
  have hcl' : ({ created with tunnelMap := list }.claimed running).Perm
      (name :: m.claimed running) := by
    rw [← hclaimed, ← hname]
    exact (hperm.map created.name).append_right _
  refine ⟨?_, fun t ht => ?_, ?_, fun n => ?_⟩
  · exact hobj'.nodup_iff.mpr (List.nodup_cons.mpr ⟨hfresh, hobjects⟩)
  · show t < m.nextTunnel + 1
    cases List.mem_cons.mp (hobj'.mem_iff.mp ht) with
    | inl heq => omega
    | inr hmem =>
      have := hbound t hmem
      omega
  · exact hcl'.nodup_iff.mpr hclaims
  · exact (hstore n).trans hcl'.mem_iff.symm

-- The file of the tunnel is there, since the request still answers for it.
theorem Accounted.mem_erase_store (h : Accounted m (co :: running))
    (hown : co.owned m.name = [m.name t]) (n : Name) :
    n ∈ m.store.erase (m.name t) ↔ n ∈ m.claimed running := by
  have hnot : m.name t ∉ m.claimed running := h.notMem_names hown
  rw [Finset.mem_erase, (accounted_cons.1 h).2.2.2 n, hown, List.singleton_append, List.mem_cons]
  constructor
  · intro hn
    exact hn.2.resolve_left hn.1
  · intro hn
    exact ⟨fun heq => hnot (heq ▸ hn), .inr hn⟩

theorem Accounted.storeDelete (reported : State) (t : Nat) (wasUp wasLastUsed : Bool)
    (h : Accounted m (.storeDelete t wasUp wasLastUsed :: running)) :
    Accounted (m.resume reported (.storeDelete t wasUp wasLastUsed)).2
      (settled running (m.resume reported (.storeDelete t wasUp wasLastUsed)).1) := by
  obtain ⟨hobjects, hbound, hclaims, -⟩ := accounted_cons.1 h
  have hmem : m.name t ∈ m.store := h.mem_store rfl
  simp only [resume, Manager.storeDelete, if_pos hmem]
  exact ⟨(List.nodup_cons.mp hobjects).2, fun u hu => hbound u (List.mem_cons_of_mem _ hu),
    (List.nodup_cons.mp hclaims).2, h.mem_erase_store rfl⟩

theorem Accounted.storeRename (reported : State) (t : Nat) (name : Name) (wasUp wasLastUsed : Bool)
    (h : Accounted m (.storeRename t name wasUp wasLastUsed :: running)) :
    Accounted (m.resume reported (.storeRename t name wasUp wasLastUsed)).2
      (settled running (m.resume reported (.storeRename t name wasUp wasLastUsed)).1) := by
  obtain ⟨hobjects, hbound, hclaims, hstore⟩ := accounted_cons.1 h
  have hmem : m.name t ∈ m.store := h.mem_store rfl
  simp only [resume, Manager.storeRename]
  by_cases hex : name ∈ m.store
  · rw [if_pos hex]
    exact h.replace rfl rfl rfl rfl rfl rfl
  · rw [if_neg hex, if_pos hmem]
    have hnew : name ∉ m.claimed running := fun hn =>
      hex ((hstore name).mpr (List.mem_cons_of_mem _ hn))
    refine accounted_cons.2 ⟨hobjects, hbound,
      List.nodup_cons.mpr ⟨hnew, (List.nodup_cons.mp hclaims).2⟩, fun n => ?_⟩
    show n ∈ insert name (m.store.erase (m.name t)) ↔ n ∈ name :: m.claimed running
    rw [Finset.mem_insert, h.mem_erase_store rfl, List.mem_cons]

theorem Accounted.rename {name : Name} {wasUp wasLastUsed : Bool}
    (h : Accounted m (.onRenamed t name wasUp wasLastUsed :: running)) :
    Accounted { m with toTunnelList := m.onNameChanged t name }
      (.restartRenamed t wasLastUsed :: running) := by
  have hother : t ∉ m.objects running := h.notMem_objects rfl
  let renamed : Manager C := { m with toTunnelList := m.onNameChanged t name }
  refine h.move (.refl _) ?_ rfl rfl
  refine .trans ?_ (claimed_cons m _ running).symm
  refine (claimed_cons renamed (.restartRenamed t wasLastUsed) running).trans ?_
  show (Function.update m.name t name t :: renamed.claimed running).Perm (name :: m.claimed running)
  rw [Function.update_self, show renamed.claimed running = _ from claimed_update hother name]

theorem Accounted.resume (reported : State) (co : Coroutine C) (h : Accounted m (co :: running)) :
    Accounted (m.resume reported co).2 (settled running (m.resume reported co).1) := by
  cases co with
  | storeCreate name config => exact h.storeCreate reported name config
  | addToList name config => exact h.addToList reported name config
  | stopForDelete t w => exact h.replace rfl rfl rfl rfl rfl rfl
  | storeDelete t up w => exact h.storeDelete reported t up w
  | restartUndeleted t w e => exact h.replace rfl rfl rfl rfl rfl rfl
  | putBack t w e =>
    have hfin := h.finishWith rfl rfl w (some e)
    simp only [Manager.resume, hfin.1]
    exact hfin.2
  | stopForRename t name w => exact h.replace rfl rfl rfl rfl rfl rfl
  | storeRename t name up w => exact h.storeRename reported t name up w
  | onRenamed t name up w =>
    cases up with
    | true => exact h.rename
    | false =>
      have hfin := h.rename.finishWith rfl rfl w none
      simp only [Manager.resume, Bool.false_eq_true, if_false, hfin.1]
      exact hfin.2
  | restartRenamed t w => exact h.replace rfl rfl rfl rfl rfl rfl
  | getTunnelState t w e => exact h.replace rfl rfl rfl rfl rfl rfl
  | addBack t w e =>
    have hfin := h.finishWith rfl rfl w e
    simp only [Manager.resume, hfin.1]
    exact hfin.2

def OnMapped (m : Manager C) : Request C → Prop
  | .create _ _ => True
  | .delete tunnel => tunnel ∈ m.tunnelMap
  | .setTunnelName tunnel _ => tunnel ∈ m.tunnelMap

theorem Accounted.remove (h : Accounted m running) (ht : t ∈ m.tunnelMap) (htun : co.tunnels = [t])
    (hown : co.owned m.name = [m.name t]) : Accounted (m.remove t) (co :: running) := by
  have hperm : m.tunnelMap.Perm (t :: m.tunnelMap.erase t) := List.perm_cons_erase ht
  refine h.move ?_ ?_ rfl rfl
  · refine (objects_cons (m.remove t) co running).trans ?_
    rw [htun]
    exact (hperm.append_right _).symm
  · refine (claimed_cons (m.remove t) co running).trans ?_
    show (co.owned m.name ++ (m.remove t).claimed running).Perm _
    rw [hown]
    exact ((hperm.map m.name).append_right _).symm

theorem Accounted.start (request : Request C) (h : Accounted m running)
    (hmapped : OnMapped m request) :
    Accounted (m.start request).2 (settled running (m.start request).1) := by
  cases request with
  | create name config =>
    simp only [Manager.start]
    split
    · exact h
    · split
      · exact h
      · exact h.move (.refl _) (.refl _) rfl rfl
  | delete t =>
    simp only [Manager.start]
    split
    · exact h.remove hmapped rfl rfl
    · exact h.remove hmapped rfl rfl
  | setTunnelName t name =>
    simp only [Manager.start]
    split
    · exact h
    · split
      · exact h
      · split
        · exact h.remove hmapped rfl rfl
        · exact h.remove hmapped rfl rfl

end Manager

namespace Requests

def Agree (m : Manager C) : Prop :=
  m.names.Nodup ∧ ∀ n, n ∈ m.names ↔ n ∈ m.store

def idle (m : Manager C) : Requests C := { manager := m, running := [], finished := [] }

/-- A request is started on a tunnel of the map only: not on one that another request is working on,
nor on one that has been deleted. -/
def StartsOnMapped (r : Requests C) : Action C → Prop
  | .start request => r.manager.OnMapped request
  | _ => True

theorem settle_accounted {r : Requests C} {out : Progress C × Manager C}
    (h : out.2.Accounted (Manager.settled running out.1)) :
    (r.settle running out).manager.Accounted (r.settle running out).running := by
  unfold settle
  cases hout : out.1 with
  | suspended co =>
    rw [hout] at h
    exact h
  | finished e =>
    rw [hout] at h
    exact h

theorem step_accounted (r : Requests C) (a : Action C)
    (h : r.manager.Accounted r.running) (hguard : StartsOnMapped r a) :
    (step r a).manager.Accounted (step r a).running := by
  cases a with
  | start request => exact settle_accounted (h.start request hguard)
  | resume i reported =>
    simp only [step]
    cases hget : r.running[i]? with
    | none => exact h
    | some co =>
      exact settle_accounted ((h.perm (Runs.cons_eraseIdx_perm hget)).resume reported co)
  | onStateChange t state => exact h.move (.refl _) (.refl _) rfl rfl

theorem agree_of_accounted (h : m.Accounted []) : Agree m := by
  have hclaimed : m.claimed [] = m.names := List.append_nil _
  refine ⟨?_, fun n => ?_⟩
  · rw [← hclaimed]
    exact h.claimed
  · rw [h.store n, hclaimed]

theorem accounted_of_agree (h : Agree m) (hbound : ∀ t ∈ m.tunnelMap, t < m.nextTunnel) :
    m.Accounted [] := by
  have hclaimed : m.claimed [] = m.names := List.append_nil _
  have hobjects : m.objects [] = m.tunnelMap := List.append_nil _
  refine ⟨?_, ?_, ?_, fun n => ?_⟩
  · rw [hobjects]
    exact List.Nodup.of_map m.name h.1
  · rw [hobjects]
    exact hbound
  · rw [hclaimed]
    exact h.1
  · rw [hclaimed]
    exact (h.2 n).symm

/-- However the requests interleave, if each delete and rename was started on a tunnel of the map,
the names of the map are those of the store whenever no request is in progress. -/
theorem names_eq_store (m : Manager C) (hagree : Agree m)
    (hbound : ∀ t ∈ m.tunnelMap, t < m.nextTunnel) (actions : List (Action C))
    (hguard : Runs.Guarded step StartsOnMapped (idle m) actions) :
    ∀ r ∈ Runs.states step (idle m) actions, r.running = [] → Agree r.manager := by
  intro r hr hdone
  let inv : Requests C → Prop := fun r => r.manager.Accounted r.running
  have hinv : inv r :=
    Runs.invariant_states step_accounted (accounted_of_agree hagree hbound) hguard r hr
  have hacc : r.manager.Accounted [] := hdone ▸ hinv
  exact agree_of_accounted hacc

def oneTunnel : Manager Nat :=
  { tunnelMap := [0]
    name := fun _ => ['a']
    config := fun _ => none
    state := fun _ => .down
    nextTunnel := 1
    lastUsedTunnel := none
    store := {['a']} }

theorem agree_oneTunnel : Agree oneTunnel := by
  refine ⟨by decide, fun n => ?_⟩
  show n ∈ [['a']] ↔ n ∈ ({['a']} : Finset Name)
  rw [List.mem_singleton, Finset.mem_singleton]

/-- The tunnel is renamed to `b` while another `a` is asked for: the file is still there, so the
first attempt fails and the one after the rename succeeds. -/
theorem names_eq_store_rename_create :
    let actions : List (Action Nat) :=
      [.start (.setTunnelName 0 ['b']), .start (.create ['a'] (some 7)), .resume 0 .down,
        .resume 0 .down, .resume 0 .down, .start (.create ['a'] (some 8)), .resume 0 .down,
        .resume 0 .down]
    Agree (Runs.run step (idle oneTunnel) actions).manager := by
  intro actions
  have hguard : Runs.Guarded step StartsOnMapped (idle oneTunnel) actions :=
    ⟨List.mem_singleton_self 0, trivial, trivial, trivial, trivial, trivial, trivial, trivial,
      trivial⟩
  exact names_eq_store oneTunnel agree_oneTunnel (by decide) actions hguard _
    (Runs.run_mem_states _ _ _) rfl

/-- Two deletes of the same tunnel: the second one finds no file and puts the tunnel back. -/
theorem deleted_twice_comes_back :
    let r := Runs.run step (idle oneTunnel)
      [.start (.delete 0), .start (.delete 0), .resume 1 .down, .resume 0 .down, .resume 0 .down]
    Agree oneTunnel ∧ r.running = [] ∧ r.manager.names = [['a']] ∧ r.manager.store = ∅ ∧
      ¬Agree r.manager := by
  intro r
  refine ⟨agree_oneTunnel, rfl, by decide, by decide, fun h => ?_⟩
  exact absurd ((h.2 ['a']).1 (by decide)) (by decide)

end Requests

end Amnezia.Model
