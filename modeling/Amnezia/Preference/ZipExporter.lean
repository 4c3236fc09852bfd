import Amnezia.Model.TunnelRequestsRuns

/-!
# Exporting the configs

`ZipExporterPreference.exportZip` asks every tunnel of the list for its config, waits for all of
them and writes one entry after another.  The names of the entries are read from the list while
they are written.  Creations, deletions and renames may go on all the time; the list is read at
once when the configs are asked for.
-/

namespace Amnezia.Preference

open Amnezia.Backend (State)
open Amnezia.Model

inductive Job (C : Type*) where
  | start
  | load
  | onConfigChanged (config : C)
  | ended (config : C)
  deriving DecidableEq

def Job.result? {C : Type*} : Job C → Option C
  | .ended config => some config
  | _ => none

def Job.config? {C : Type*} : Job C → Option C
  | .onConfigChanged config => some config
  | .ended config => some config
  | _ => none

/-- `config ?: manager.getTunnelConfig(this)`, up to the call of the store. -/
def Job.ofConfig {C : Type*} : Option C → Job C
  | none => .load
  | some config => .ended config

theorem Job.config?_of_result? {C : Type*} {job : Job C} {config : C}
    (h : job.result? = some config) : job.config? = some config := by
  cases job with
  | ended c => exact h
  | start => cases h
  | load => cases h
  | onConfigChanged c => cases h

inductive Phase (C : Type*) where
  | collecting (jobs : List (Nat × Job C))
  | writing (configs : List C) (entries : List (Name × C))
  | completed (configs : List C) (entries : List (Name × C))
  /-- Nothing is left of the file. -/
  | failed
  deriving DecidableEq

structure Exporter (C : Type*) where
  requests : Requests C
  /-- What the file of a name holds. -/
  contents : Name → C
  phase : Phase C

def Phase.Faithful {C : Type*} (m : Manager C) (configOf : Nat → C) : Phase C → Prop
  | .writing configs entries =>
    ∀ config ∈ configs[entries.length]?, ∀ t ∈ m.tunnelMap[entries.length]?,
      ∀ u ∈ m.tunnelMap, m.name u = m.name t → configOf u = config
  | _ => True

instance {C : Type*} [DecidableEq C] (m : Manager C) (configOf : Nat → C) :
    ∀ phase : Phase C, Decidable (phase.Faithful m configOf)
  | .collecting _ => isTrue trivial
  | .writing configs entries => inferInstanceAs (Decidable
      (∀ config ∈ configs[entries.length]?, ∀ t ∈ m.tunnelMap[entries.length]?,
        ∀ u ∈ m.tunnelMap, m.name u = m.name t → configOf u = config))
  | .completed _ _ => isTrue trivial
  | .failed => isTrue trivial

inductive Action (C : Type*) where
  | request (action : Requests.Action C)
  /-- The `i`-th call of `getConfigAsync` goes on. -/
  | job (i : Nat)
  /-- `awaitAll` returns; `saved` says whether there is a file to write to. -/
  | awaitAll (saved : Bool)
  | write

namespace Exporter

variable {C : Type*}

def manager (s : Exporter C) : Manager C := s.requests.manager

def begin (requests : Requests C) (contents : Name → C) : Exporter C where
  requests := requests
  contents := contents
  phase := .collecting (requests.manager.tunnelMap.map (·, .start))

def contentsAfter (m : Manager C) (contents : Name → C) : Coroutine C → Name → C
  | .storeCreate name (some config) =>
    if name ∈ m.store then contents else Function.update contents name config
  | .storeRename tunnel name _ _ =>
    if name ∉ m.store ∧ m.name tunnel ∈ m.store then
      Function.update contents name (contents (m.name tunnel))
    else contents
  | _ => contents

def onRequest (s : Exporter C) (a : Requests.Action C) : Exporter C where
  requests := s.requests.step a
  contents :=
    match a with
    | .resume i _ =>
      match s.requests.running[i]? with
      | none => s.contents
      | some coroutine => contentsAfter s.manager s.contents coroutine
    | _ => s.contents
  phase := s.phase

def setConfig (s : Exporter C) (tunnel : Nat) (config : C) : Exporter C :=
  { s with requests := { s.requests with manager := { s.manager with
      config := Function.update s.manager.config tunnel (some config) } } }

def onJob (s : Exporter C) (jobs : List (Nat × Job C)) (i : Nat) : Exporter C :=
  match jobs[i]? with
  | none => s
  | some (tunnel, .start) =>
    { s with phase := .collecting (jobs.set i (tunnel, .ofConfig (s.manager.config tunnel))) }
  | some (tunnel, .load) =>
    if s.manager.name tunnel ∈ s.manager.store then
      let config := s.contents (s.manager.name tunnel)
      { s with phase := .collecting (jobs.set i (tunnel, .onConfigChanged config)) }
    else { s with phase := .failed }
  | some (tunnel, .onConfigChanged config) =>
    { s.setConfig tunnel config with phase := .collecting (jobs.set i (tunnel, .ended config)) }
  | some (_, .ended _) => s

def onAwaitAll (s : Exporter C) (jobs : List (Nat × Job C)) (saved : Bool) : Exporter C :=
  let configs := jobs.filterMap (·.2.result?)
  if configs.length < jobs.length then s
  else if configs.isEmpty || !saved then { s with phase := .failed }
  else { s with phase := .writing configs [] }

/-- The next round of the loop; an entry of the same name cannot be put twice. -/
def onWrite (s : Exporter C) (configs : List C) (entries : List (Name × C)) : Exporter C :=
  match configs[entries.length]? with
  | none => { s with phase := .completed configs entries }
  | some config =>
    match s.manager.tunnelMap[entries.length]? with
    | none => { s with phase := .failed }
    | some tunnel =>
      if entries.any (·.1 == s.manager.name tunnel) then { s with phase := .failed }
      else { s with phase := .writing configs (entries ++ [(s.manager.name tunnel, config)]) }

def step (s : Exporter C) : Action C → Exporter C
  | .request a => s.onRequest a
  | .job i => match s.phase with
    | .collecting jobs => s.onJob jobs i
    | _ => s
  | .awaitAll saved => match s.phase with
    | .collecting jobs => s.onAwaitAll jobs saved
    | _ => s
  | .write => match s.phase with
    | .writing configs entries => s.onWrite configs entries
    | _ => s

/-! ## What holds of the entries -/

def configOf (s : Exporter C) (tunnel : Nat) : C :=
  (s.manager.config tunnel).getD (s.contents (s.manager.name tunnel))

def Faithful (s : Exporter C) : Action C → Prop
  | .write => s.phase.Faithful s.manager s.configOf
  | _ => True

instance [DecidableEq C] (s : Exporter C) : ∀ a, Decidable (s.Faithful a)
  | .request _ => isTrue trivial
  | .job _ => isTrue trivial
  | .awaitAll _ => isTrue trivial
  | .write => inferInstanceAs (Decidable (s.phase.Faithful s.manager s.configOf))

def StartsOnMapped (s : Exporter C) : Action C → Prop
  | .request a => s.requests.StartsOnMapped a
  | _ => True

instance (s : Exporter C) : ∀ a, Decidable (s.StartsOnMapped a)
  | .request (.start (.create _ _)) => isTrue trivial
  | .request (.start (.delete t)) => inferInstanceAs (Decidable (t ∈ s.manager.tunnelMap))
  | .request (.start (.setTunnelName t _)) => inferInstanceAs (Decidable (t ∈ s.manager.tunnelMap))
  | .request (.resume _ _) => isTrue trivial
  | .request (.onStateChange _ _) => isTrue trivial
  | .job _ => isTrue trivial
  | .awaitAll _ => isTrue trivial
  | .write => isTrue trivial

def Quiet (s : Exporter C) (a : Action C) : Prop :=
  s.StartsOnMapped a ∧ (s.step a).manager.tunnelMap = s.manager.tunnelMap

instance (s : Exporter C) (a : Action C) : Decidable (s.Quiet a) :=
  inferInstanceAs (Decidable (_ ∧ _))

end Exporter

/-! ## What the requests leave alone -/

section Requests

variable {C : Type*}

theorem finishWith_keeps (m : Manager C) (t : Nat) (wasLastUsed : Bool) (e : Option Thrown) :
    (m.finishWith t wasLastUsed e).2.name = m.name ∧
      (m.finishWith t wasLastUsed e).2.config = m.config := by
  unfold Manager.finishWith TunnelList.addBack TunnelList.add
  cases Databinding.add TunnelComparator.compare m.name m.tunnelMap t with
  | none => exact ⟨rfl, rfl⟩
  | some added => exact ⟨rfl, rfl⟩

/-- A coroutine changes neither the name nor the config of a tunnel of the list. -/
theorem resume_keeps {m : Manager C} {co : Coroutine C} {running : List (Coroutine C)}
    (h : m.Accounted (co :: running)) (reported : State) {t : Nat} (ht : t ∈ m.tunnelMap) :
    (m.resume reported co).2.name t = m.name t ∧
      (m.resume reported co).2.config t = m.config t := by
  have hfinish : ∀ u w e, (m.finishWith u w e).2.name t = m.name t ∧
      (m.finishWith u w e).2.config t = m.config t := by
    intro u w e
    rw [(finishWith_keeps m u w e).1, (finishWith_keeps m u w e).2]
    exact ⟨rfl, rfl⟩
  cases co with
  | storeCreate name config =>
    cases config with
    | none => exact ⟨rfl, rfl⟩
    | some config =>
      simp only [Manager.resume, Manager.storeCreate]
      by_cases hex : name ∈ m.store
      · rw [if_pos hex]
        exact ⟨rfl, rfl⟩
      · rw [if_neg hex]
        exact ⟨rfl, rfl⟩
  | addToList name config =>
    have hbound := h.bound t (List.mem_append_left _ ht)
    have hne : t ≠ m.nextTunnel := by omega
    have hname : Function.update m.name m.nextTunnel name t = m.name t :=
      Function.update_of_ne hne ..
    have hconfig : Function.update m.config m.nextTunnel (some config) t = m.config t :=
      Function.update_of_ne hne ..
    simp only [Manager.resume]
    split
    · exact ⟨hname, hconfig⟩
    · next m' hadd =>
      obtain ⟨added, -, rfl⟩ := Option.map_eq_some_iff.1 hadd
      exact ⟨hname, hconfig⟩
  | stopForDelete u w => exact ⟨rfl, rfl⟩
  | storeDelete u up w =>
    simp only [Manager.resume, Manager.storeDelete]
    by_cases hex : m.name u ∈ m.store
    · rw [if_pos hex]
      exact ⟨rfl, rfl⟩
    · rw [if_neg hex]
      exact ⟨rfl, rfl⟩
  | restartUndeleted u w e => exact ⟨rfl, rfl⟩
  | putBack u w e => exact hfinish u w (some e)
  | stopForRename u name w => exact ⟨rfl, rfl⟩
  | storeRename u name up w =>
    simp only [Manager.resume]
    split
    · next m' hrename =>
      unfold Manager.storeRename at hrename
      split at hrename
      · cases hrename
      · split at hrename
        · cases hrename
          exact ⟨rfl, rfl⟩
        · cases hrename
    · exact ⟨rfl, rfl⟩
  | onRenamed u name up w =>
    -- the tunnel that gets its new name is not in the list
    have hne : t ≠ u := by
      rintro rfl
      exact h.notMem_objects rfl (List.mem_append_left _ ht)
    have hname : Function.update m.name u name t = m.name t := Function.update_of_ne hne ..
    cases up with
    | true => exact ⟨hname, rfl⟩
    | false =>
      have hkeeps := finishWith_keeps { m with toTunnelList := m.onNameChanged u name } u w none
      simp only [Manager.resume, Bool.false_eq_true, if_false]
      rw [hkeeps.1, hkeeps.2]
      exact ⟨hname, rfl⟩
  | restartRenamed u w => exact ⟨rfl, rfl⟩
  | getTunnelState u w e => exact ⟨rfl, rfl⟩
  | addBack u w e => exact hfinish u w e

theorem start_keeps (m : Manager C) (request : Request C) :
    (m.start request).2.name = m.name ∧ (m.start request).2.config = m.config := by
  cases request with
  | create name config =>
    simp only [Manager.start]
    split
    · exact ⟨rfl, rfl⟩
    · split
      · exact ⟨rfl, rfl⟩
      · exact ⟨rfl, rfl⟩
  | delete t => exact ⟨rfl, rfl⟩
  | setTunnelName t name =>
    simp only [Manager.start]
    split
    · exact ⟨rfl, rfl⟩
    · split
      · exact ⟨rfl, rfl⟩
      · exact ⟨rfl, rfl⟩

theorem settle_manager (r : Requests C) (running : List (Coroutine C))
    (out : Progress C × Manager C) : (r.settle running out).manager = out.2 := by
  unfold Requests.settle
  cases out.1 <;> rfl

theorem step_keeps {r : Requests C} (h : r.manager.Accounted r.running) (a : Requests.Action C)
    {t : Nat} (ht : t ∈ r.manager.tunnelMap) :
    (r.step a).manager.name t = r.manager.name t ∧
      (r.step a).manager.config t = r.manager.config t := by
  cases a with
  | start request =>
    simp only [Requests.step, settle_manager]
    rw [(start_keeps r.manager request).1, (start_keeps r.manager request).2]
    exact ⟨rfl, rfl⟩
  | resume i reported =>
    simp only [Requests.step]
    cases hget : r.running[i]? with
    | none => exact ⟨rfl, rfl⟩
    | some co =>
      rw [settle_manager]
      exact resume_keeps (h.perm (Runs.cons_eraseIdx_perm hget)) reported ht
  | onStateChange u state => exact ⟨rfl, rfl⟩

theorem contentsAfter_of_mem {m : Manager C} {contents : Name → C} (co : Coroutine C) {n : Name}
    (hn : n ∈ m.store) : Exporter.contentsAfter m contents co n = contents n := by
  have hne : ∀ name, name ∉ m.store → n ≠ name := by
    rintro name hnot rfl
    exact hnot hn
  unfold Exporter.contentsAfter
  split
  · split
    · rfl
    · next hnot => exact Function.update_of_ne (hne _ hnot) ..
  · split
    · next hnot => exact Function.update_of_ne (hne _ hnot.1) ..
    · rfl
  · rfl

end Requests

namespace Exporter

variable {C : Type*}

theorem mem_store_of_mem {s : Exporter C} (h : s.manager.Accounted s.requests.running) {t : Nat}
    (ht : t ∈ s.manager.tunnelMap) : s.manager.name t ∈ s.manager.store :=
  (h.store _).2 (List.mem_append_left _ (List.mem_map_of_mem ht))

theorem configOf_onRequest {s : Exporter C} (h : s.manager.Accounted s.requests.running)
    (a : Requests.Action C) {t : Nat} (ht : t ∈ s.manager.tunnelMap) :
    (s.onRequest a).configOf t = s.configOf t := by
  obtain ⟨hname, hconfig⟩ := step_keeps h a ht
  have hcontents : (s.onRequest a).contents (s.manager.name t) = s.contents (s.manager.name t) := by
    unfold onRequest
    cases a with
    | start request => rfl
    | resume i reported =>
      cases hget : s.requests.running[i]? with
      | none => simp only [hget]
      | some co =>
        simp only [hget]
        exact contentsAfter_of_mem co (mem_store_of_mem h ht)
    | onStateChange u state => rfl
  show ((s.requests.step a).manager.config t).getD
    ((s.onRequest a).contents ((s.requests.step a).manager.name t)) = _
  rw [hname, hconfig]
  exact congrArg _ hcontents

/-! ## What is gathered -/

end Exporter

section Gathered

variable {C : Type*}

/-- What `getConfigAsync` of a tunnel has found is the config of the tunnel. -/
structure Job.Right (m : Manager C) (configOf : Nat → C) (job : Nat × Job C) : Prop where
  load : job.2 = .load → m.config job.1 = none
  found : ∀ config ∈ job.2.config?, configOf job.1 = config

def Phase.Gathered (m : Manager C) (configOf : Nat → C) : Phase C → Prop
  | .collecting jobs => jobs.map Prod.fst = m.tunnelMap ∧ ∀ job ∈ jobs, Job.Right m configOf job
  | .writing configs entries => configs = m.tunnelMap.map configOf ∧
      entries.map Prod.snd = configs.take entries.length
  | .completed configs entries => entries.map Prod.snd = configs
  | .failed => True

variable {m m' : Manager C} {configOf configOf' : Nat → C}

theorem Phase.Gathered.congr {phase : Phase C} (h : phase.Gathered m configOf)
    (hmap : m'.tunnelMap = m.tunnelMap) (hconfig : ∀ t ∈ m.tunnelMap, m'.config t = m.config t)
    (hof : ∀ t ∈ m.tunnelMap, configOf' t = configOf t) : phase.Gathered m' configOf' := by
  cases phase with
  | collecting jobs =>
    obtain ⟨hjobs, hright⟩ := h
    refine ⟨hjobs.trans hmap.symm, fun job hjob => ?_⟩
    have hmem : job.1 ∈ m.tunnelMap := by
      rw [← hjobs]
      exact List.mem_map_of_mem hjob
    refine ⟨fun hload => ?_, fun config hfound => ?_⟩
    · rw [hconfig _ hmem]
      exact (hright job hjob).load hload
    · rw [hof _ hmem]
      exact (hright job hjob).found config hfound
  | writing configs entries =>
    refine ⟨?_, h.2⟩
    rw [hmap, h.1]
    exact List.map_congr_left fun t ht => (hof t ht).symm
  | completed configs entries => exact h
  | failed => trivial

variable {jobs : List (Nat × Job C)} {i t : Nat} {job job' : Job C}

/-- One call of `getConfigAsync` has gone on; what it has done to its tunnel concerns no other. -/
theorem Phase.Gathered.set (h : (Phase.collecting jobs).Gathered m configOf)
    (hnodup : m.tunnelMap.Nodup) (hget : jobs[i]? = some (t, job))
    (hmap : m'.tunnelMap = m.tunnelMap) (hconfig : ∀ u ≠ t, m'.config u = m.config u)
    (hof : ∀ u ≠ t, configOf' u = configOf u) (hright : Job.Right m' configOf' (t, job')) :
    (Phase.collecting (jobs.set i (t, job'))).Gathered m' configOf' := by
  obtain ⟨hjobs, hother⟩ := h
  obtain ⟨hlt, heq⟩ := List.getElem?_eq_some_iff.1 hget
  have hlt' : i < (jobs.map Prod.fst).length := by rwa [List.length_map]
  have hself : (jobs.map Prod.fst)[i] = t := by rw [List.getElem_map, heq]
  refine ⟨?_, fun other hmem => ?_⟩
  · rw [List.map_set, hmap, ← hjobs]
    show (jobs.map Prod.fst).set i t = jobs.map Prod.fst
    rw [← hself]
    exact List.set_getElem_self hlt'
  · obtain ⟨k, hk⟩ := List.mem_iff_getElem?.1 hmem
    rw [List.getElem?_set] at hk
    split at hk
    · cases hk
      exact hright
    · next hik =>
      -- the tunnels of the calls are all different
      have hne : other.1 ≠ t := by
        intro hsame
        have hk' : (jobs.map Prod.fst)[k]? = some t := by
          rw [List.getElem?_map, hk, ← hsame]
          rfl
        have hi' : (jobs.map Prod.fst)[i]? = some t := by
          rw [List.getElem?_map, hget]
          rfl
        rw [← hjobs] at hnodup
        exact hik ((List.getElem?_inj hlt' hnodup).1 (hi'.trans hk'.symm))
      have hright' := hother other (List.mem_of_getElem? hk)
      refine ⟨fun hload => ?_, fun config hfound => ?_⟩
      · rw [hconfig _ hne]
        exact hright'.load hload
      · rw [hof _ hne]
        exact hright'.found config hfound

end Gathered

namespace Exporter

variable {C : Type*}

structure Gathered (s : Exporter C) : Prop where
  accounted : s.manager.Accounted s.requests.running
  phase : s.phase.Gathered s.manager s.configOf

theorem Gathered.nodup {s : Exporter C} (h : s.Gathered) : s.manager.tunnelMap.Nodup :=
  (List.nodup_append.1 h.accounted.objects).1

theorem gathered_begin {r : Requests C} (h : r.manager.Accounted r.running) (contents : Name → C) :
    (begin r contents).Gathered := by
  refine ⟨h, ?_, ?_⟩
  · rw [List.map_map]
    exact List.map_id _
  · intro job hjob
    obtain ⟨t, -, rfl⟩ := List.mem_map.1 hjob
    exact ⟨fun hload => (nomatch hload), fun config hconfig => (nomatch hconfig)⟩

theorem Gathered.onRequest {s : Exporter C} (h : s.Gathered) {a : Requests.Action C}
    (hstarts : s.requests.StartsOnMapped a)
    (hmap : (s.onRequest a).manager.tunnelMap = s.manager.tunnelMap) : (s.onRequest a).Gathered where
  accounted := Requests.step_accounted s.requests a h.accounted hstarts
  phase := h.phase.congr hmap (fun _ ht => (step_keeps h.accounted a ht).2)
    fun _ ht => configOf_onRequest h.accounted a ht

theorem configOf_setConfig {s : Exporter C} {t : Nat} {config : C} (h : s.configOf t = config)
    (u : Nat) : (s.setConfig t config).configOf u = s.configOf u := by
  show (Function.update s.manager.config t (some config) u).getD _ = _
  by_cases hu : u = t
  · rw [hu, Function.update_self, h]
    rfl
  · rw [Function.update_of_ne hu]
    rfl

theorem Gathered.onJob {s : Exporter C} (h : s.Gathered) {jobs : List (Nat × Job C)}
    (hphase : s.phase = .collecting jobs) (i : Nat) : (s.onJob jobs i).Gathered := by
  have hgathered : (Phase.collecting jobs).Gathered s.manager s.configOf := hphase ▸ h.phase
  unfold Exporter.onJob
  split
  · exact h
  · next t hget =>
    refine ⟨h.accounted, hgathered.set h.nodup hget rfl (fun _ _ => rfl) (fun _ _ => rfl) ?_⟩
    show Job.Right s.manager s.configOf (t, Job.ofConfig (s.manager.config t))
    cases hconfig : s.manager.config t with
    | none => exact ⟨fun _ => hconfig, fun config hfound => (nomatch hfound)⟩
    | some config =>
      refine ⟨fun hload => (nomatch hload), fun config' hfound => ?_⟩
      cases hfound
      show (s.manager.config t).getD _ = config
      rw [hconfig]
      rfl
  · next t hget =>
    split
    · refine ⟨h.accounted, hgathered.set h.nodup hget rfl (fun _ _ => rfl) (fun _ _ => rfl)
        ⟨fun hload => (nomatch hload), fun config hfound => ?_⟩⟩
      cases hfound
      have hnone := (hgathered.2 _ (List.mem_of_getElem? hget)).load rfl
      show (s.manager.config t).getD _ = _
      rw [hnone]
      rfl
    · exact ⟨h.accounted, trivial⟩
  · next t config hget =>
    have hfound := (hgathered.2 _ (List.mem_of_getElem? hget)).found config rfl
    have hof := configOf_setConfig hfound
    refine ⟨h.accounted.move (.refl _) (.refl _) rfl rfl, ?_⟩
    refine hgathered.set h.nodup hget rfl (fun u hu => Function.update_of_ne hu ..)
      (fun u _ => hof u) ⟨fun hload => (nomatch hload), fun config' hfound' => ?_⟩
    cases hfound'
    exact (hof t).trans hfound
  · exact h

theorem Gathered.onAwaitAll {s : Exporter C} (h : s.Gathered) {jobs : List (Nat × Job C)}
    (hphase : s.phase = .collecting jobs) (saved : Bool) : (s.onAwaitAll jobs saved).Gathered := by
  have hgathered : (Phase.collecting jobs).Gathered s.manager s.configOf := hphase ▸ h.phase
  simp only [Exporter.onAwaitAll]
  split
  · exact h
  · next hall =>
    split
    · exact ⟨h.accounted, trivial⟩
    · refine ⟨h.accounted, ?_, rfl⟩
      have hsome := List.filterMap_length_eq_length.1
        (Nat.le_antisymm (List.length_filterMap_le _ _) (Nat.not_lt.1 hall))
      have hconfig : ∀ job ∈ jobs, job.2.result? = some (s.configOf job.1) := by
        intro job hjob
        obtain ⟨config, hconfig⟩ := Option.isSome_iff_exists.1 (hsome job hjob)
        rw [hconfig, (hgathered.2 job hjob).found config (Job.config?_of_result? hconfig)]
      show jobs.filterMap _ = s.manager.tunnelMap.map s.configOf
      rw [← hgathered.1, List.map_map, List.filterMap_congr hconfig]
      exact congrFun List.filterMap_eq_map jobs

theorem Gathered.onWrite {s : Exporter C} (h : s.Gathered) {configs : List C}
    {entries : List (Name × C)} (hphase : s.phase = .writing configs entries) :
    (s.onWrite configs entries).Gathered := by
  obtain ⟨hconfigs, hentries⟩ : (Phase.writing configs entries).Gathered s.manager s.configOf :=
    hphase ▸ h.phase
  unfold Exporter.onWrite
  split
  · next hnone =>
    refine ⟨h.accounted, ?_⟩
    show entries.map Prod.snd = configs
    rw [hentries]
    exact List.take_of_length_le (List.getElem?_eq_none_iff.1 hnone)
  · next config hsome =>
    split
    · exact ⟨h.accounted, trivial⟩
    · split
      · exact ⟨h.accounted, trivial⟩
      · refine ⟨h.accounted, hconfigs, ?_⟩
        rw [List.map_append, List.length_append, List.length_singleton, hentries, List.take_add_one,
          hsome]
        rfl

theorem Gathered.step {s : Exporter C} (h : s.Gathered) {a : Action C} (hquiet : s.Quiet a) :
    (s.step a).Gathered := by
  cases a with
  | request a => exact h.onRequest hquiet.1 hquiet.2
  | job i =>
    simp only [Exporter.step]
    split
    · next jobs hphase => exact h.onJob hphase i
    · exact h
  | awaitAll saved =>
    simp only [Exporter.step]
    split
    · next jobs hphase => exact h.onAwaitAll hphase saved
    · exact h
  | write =>
    simp only [Exporter.step]
    split
    · next configs entries hphase => exact h.onWrite hphase
    · exact h

theorem Gathered.faithful {s : Exporter C} (h : s.Gathered) (a : Action C) : s.Faithful a := by
  cases a with
  | request a => trivial
  | job i => trivial
  | awaitAll saved => trivial
  | write =>
    have hgathered := h.phase
    have hnames : s.manager.names.Nodup := (List.nodup_append.1 h.accounted.claimed).1
    show s.phase.Faithful s.manager s.configOf
    cases hphase : s.phase with
    | collecting jobs => trivial
    | completed configs entries => trivial
    | failed => trivial
    | writing configs entries =>
      intro config hconfig t ht u hu hname
      rw [hphase] at hgathered
      have hsame : u = t := List.inj_on_of_nodup_map hnames hu (List.mem_of_getElem? ht) hname
      rw [hgathered.1, List.getElem?_map, ht] at hconfig
      cases hconfig
      rw [hsame]

/-- As long as the list of tunnels stays as it is while the export goes on, every entry holds the
config of the tunnel of its name, and when the export completes each config has been written once. -/
theorem completed_faithful {r : Requests C} (h : r.manager.Accounted r.running)
    (contents : Name → C) {actions : List (Action C)}
    (hquiet : Runs.Guarded step Quiet (begin r contents) actions) :
    Runs.Guarded step Faithful (begin r contents) actions ∧
      ∀ configs entries,
        (Runs.run step (begin r contents) actions).phase = .completed configs entries →
          entries.map Prod.snd = configs := by
  have hstates : ∀ s ∈ Runs.states step (begin r contents) actions, s.Gathered :=
    Runs.invariant_states (fun s a hs ha => hs.step ha) (gathered_begin h contents) hquiet
  constructor
  · exact Runs.guarded_mono (fun s a hs => hs.faithful a) (Runs.guarded_of_states hstates)
  · intro configs entries hcompleted
    have hlast := (hstates _ (Runs.run_mem_states _ _ _)).phase
    rw [hcompleted] at hlast
    exact hlast

def twoTunnels : Manager Nat where
  tunnelMap := [0, 1]
  name t := if t = 0 then ['a'] else ['b']
  config _ := none
  state _ := .down
  nextTunnel := 2
  lastUsedTunnel := none
  store := {['a'], ['b']}

def twoContents (name : Name) : Nat := if name = ['a'] then 1 else 2

theorem accounted_twoTunnels : twoTunnels.Accounted [] := by
  refine Requests.accounted_of_agree ⟨by decide, fun n => ?_⟩ (by decide)
  show n ∈ [['a'], ['b']] ↔ n ∈ ({['a'], ['b']} : Finset Name)
  simp

def loadBoth : List (Action Nat) := [.job 0, .job 1, .job 1, .job 0, .job 0, .job 1, .awaitAll true]

def creating : List (Action Nat) := .request (.start (.create ['0'] (some 9))) :: loadBoth

/-- It comes into the list when the export is over. -/
theorem faithful_twoTunnels :
    Runs.Guarded step Faithful (begin (Requests.idle twoTunnels) twoContents)
        (creating ++ [.write, .request (.resume 0 .down), .write, .write]) ∧
      (Runs.run step (begin (Requests.idle twoTunnels) twoContents)
        (creating ++ [.write, .request (.resume 0 .down), .write, .write])).phase =
          .completed [1, 2] [(['a'], 1), (['b'], 2)] := by
  have hquiet : Runs.Guarded step Quiet (begin (Requests.idle twoTunnels) twoContents)
      (creating ++ [.write, .request (.resume 0 .down), .write, .write]) := by
    decide +kernel
  exact ⟨(completed_faithful accounted_twoTunnels twoContents hquiet).1, by decide +kernel⟩

/-- It comes into the list before the entries are written: the new tunnel stands first, and the
config of `a` is written under its name. -/
theorem created_takes_config :
    (Runs.run step (begin (Requests.idle twoTunnels) twoContents)
        (creating ++ [.request (.resume 0 .down), .request (.resume 0 .down), .write, .write,
          .write])).phase = .completed [1, 2] [(['0'], 1), (['a'], 2)] ∧
      ¬ Runs.Guarded step Faithful (begin (Requests.idle twoTunnels) twoContents)
        (creating ++ [.request (.resume 0 .down), .request (.resume 0 .down), .write, .write,
          .write]) := by
  decide +kernel

end Exporter

end Amnezia.Preference
