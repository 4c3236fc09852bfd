import Mathlib.Data.Finset.Card
import Amnezia.Lib.Runs
import Amnezia.Backend.AwgQuick

/-!
# Runs of AwgQuickBackend

The bookkeeping in `runningConfigs` against the kernel's interfaces, over whole sequences of calls
and over every failing command.
-/

namespace Amnezia.Backend.AwgQuickBackend

variable {T C N : Type*} [DecidableEq T] [DecidableEq N] (name : T → N) (order : HashOrder (T × C))

def ready (s : AwgQuickBackend T C N) (tunnel : T) (originalState : State)
    (snapshot : List (T × C)) : AwgQuickBackend T C N :=
  if s.multipleTunnels = false ∧ originalState = .down then s.downEach name snapshot
  else if originalState = .up then s.wentDown name tunnel
  else s

/-- What the `UP` branch can come to: the teardown of the other tunnels fails, the tunnel itself
cannot be stopped, it cannot be started, or it is up. -/
theorem bringUp_cases (o : Shell) (s : AwgQuickBackend T C N) (t : T) (originalState : State)
    (config : Option C) (snapshot : List (T × C)) :
    (∃ e done, (s.multipleTunnels = false ∧ originalState = .down) ∧ done <+: snapshot ∧
        bringUp name o s t originalState config snapshot =
          ⟨.error e, (setEach name .up o.rollback (s.downEach name done) done).2.state⟩) ∨
      (∃ e, bringUp name o s t originalState config snapshot = ⟨.error e, s⟩) ∨
      (∃ e, (originalState = .up → (s.runningConfigs.lookup t).or config ≠ none) ∧
        (config = none ∨ ¬o.up.Succeeds) ∧
        bringUp name o s t originalState config snapshot =
          ⟨.error e, rollBack name o (s.ready name t originalState snapshot) t originalState
            (s.runningConfigs.lookup t) snapshot⟩) ∨
      ∃ c, config = some c ∧ bringUp name o s t originalState config snapshot =
        ⟨.ok .up, (s.ready name t originalState snapshot).wentUp name t c⟩ := by
  unfold bringUp ready
  by_cases hclear : s.multipleTunnels = false ∧ originalState = .down
  · have hup : originalState ≠ .up := by rw [hclear.2]; decide
    simp only [if_pos hclear, if_neg hup]
    obtain ⟨hstate, hpre, hall⟩ := setEach_spec name s .down o.teardown snapshot
    cases hres : (setEach name .down o.teardown s snapshot).2.result with
    | error e =>
      refine .inl ⟨e, (setEach name .down o.teardown s snapshot).1, hclear, hpre, ?_⟩
      simp only [tearDown, hres, setEach_down_state]
    | ok u =>
      have hdown : (setEach name .down o.teardown s snapshot).2.state =
          s.downEach name snapshot := by
        rw [setEach_down_state, hall u hres]
      simp only [tearDown, hres, hdown]
      rcases setStateInternal_cases name (s.downEach name snapshot) o.up t config .up with
        ⟨e, hwhy, he⟩ | ⟨c, hc, -, hok⟩
      · refine .inr (.inr (.inl ⟨e, fun h => absurd h hup, hwhy, ?_⟩))
        simp only [he]
      · refine .inr (.inr (.inr ⟨c, hc, ?_⟩))
        simp only [hok]
        rfl
  · simp only [if_neg hclear]
    by_cases hup : originalState = .up
    · simp only [if_pos hup]
      rcases setStateInternal_cases name s o.down t ((s.runningConfigs.lookup t).or config) .down
        with ⟨e, -, he⟩ | ⟨c, hc, -, hok⟩
      · exact .inr (.inl ⟨e, by simp only [he]⟩)
      · have hsome : (s.runningConfigs.lookup t).or config ≠ none := by
          rw [hc]
          exact Option.some_ne_none c
        have hdown : s.apply name t c .down = s.wentDown name t := rfl
        simp only [hok, hdown]
        rcases setStateInternal_cases name (s.wentDown name t) o.up t config .up with
          ⟨e, hwhy, he⟩ | ⟨c', hc', -, hok'⟩
        · refine .inr (.inr (.inl ⟨e, fun _ => hsome, hwhy, ?_⟩))
          simp only [he]
        · refine .inr (.inr (.inr ⟨c', hc', ?_⟩))
          simp only [hok']
          rfl
    · simp only [if_neg hup]
      rcases setStateInternal_cases name s o.up t config .up with
        ⟨e, hwhy, he⟩ | ⟨c, hc, -, hok⟩
      · refine .inr (.inr (.inl ⟨e, fun h => absurd h hup, hwhy, ?_⟩))
        simp only [he]
      · refine .inr (.inr (.inr ⟨c, hc, ?_⟩))
        simp only [hok]
        rfl

variable {s : AwgQuickBackend T C N} {t : T}

omit [DecidableEq T] in
theorem getState_eq_up {shows : Bool} (h : getState name shows s t = .up) :
    name t ∈ s.interfaces := by
  rw [getState, State.of_eq_up, Bool.and_eq_true] at h
  exact of_decide_eq_true h.2

omit [DecidableEq T] in
theorem getState_ne_up {shows : Bool} (h : getState name shows s t ≠ .up) :
    getState name shows s t = .down := by
  unfold getState at h ⊢
  cases hb : shows && decide (name t ∈ s.interfaces) with
  | true => rw [hb] at h; exact absurd rfl h
  | false => rfl

/-- What a call can come to: nothing changed, the teardown of the other tunnels failed and was
undone, the bring-up failed and was undone, the tunnel came up, or it went down. -/
theorem setState_cases [DecidableEq C] (o : Shell) (s : AwgQuickBackend T C N) (t : T)
    (requested : State) (config : Option C) :
    (∃ r, setState name order o s t requested config = ⟨r, s⟩) ∨
      (∃ e done, (s.multipleTunnels = false ∧ getState name o.shows s t = .down) ∧
        done <+: entrySet order s.runningConfigs ∧
        setState name order o s t requested config =
          ⟨.error e, (setEach name .up o.rollback (s.downEach name done) done).2.state⟩) ∨
      (∃ e, (getState name o.shows s t = .up → (s.runningConfigs.lookup t).or config ≠ none) ∧
        (config = none ∨ ¬o.up.Succeeds) ∧ setState name order o s t requested config =
        ⟨.error e, rollBack name o
          (s.ready name t (getState name o.shows s t) (entrySet order s.runningConfigs)) t
          (getState name o.shows s t) (s.runningConfigs.lookup t)
          (entrySet order s.runningConfigs)⟩) ∨
      (∃ c, config = some c ∧ setState name order o s t requested config =
        ⟨.ok .up, (s.ready name t (getState name o.shows s t)
          (entrySet order s.runningConfigs)).wentUp name t c⟩) ∨
      (requested.resolve (getState name o.shows s t) = .down ∧
        getState name o.shows s t = .up ∧ (s.runningConfigs.lookup t).or config ≠ none ∧
        setState name order o s t requested config = ⟨.ok .down, s.wentDown name t⟩) := by
  simp only [setState]
  split
  · exact .inl ⟨_, rfl⟩
  · rename_i hnoop
    split
    · split
      · rcases bringUp_cases name o s t (getState name o.shows s t) config
          (entrySet order s.runningConfigs) with
          h | ⟨e, h⟩ | h | h
        · exact .inr (.inl h)
        · exact .inl ⟨_, h⟩
        · exact .inr (.inr (.inl h))
        · exact .inr (.inr (.inr (.inl h)))
      · exact .inl ⟨_, rfl⟩
    · rename_i hup
      rcases setStateInternal_cases name s o.down t ((s.runningConfigs.lookup t).or config) .down
        with ⟨e, -, he⟩ | ⟨c, hc, -, hok⟩
      · exact .inl ⟨_, by rw [he]⟩
      · have hdown : requested.resolve (getState name o.shows s t) = .down := by
          have := State.resolve_ne_toggle requested (getState name o.shows s t)
          cases h : requested.resolve (getState name o.shows s t) <;> simp_all
        have horig : getState name o.shows s t = .up := by
          by_contra h
          exact hnoop (.inr ⟨hdown, getState_ne_up name h⟩)
        have hsome : (s.runningConfigs.lookup t).or config ≠ none := by
          rw [hc]
          exact Option.some_ne_none c
        refine .inr (.inr (.inr (.inr ⟨hdown, horig, hsome, ?_⟩)))
        rw [hok, hdown]
        rfl

/-- A call only takes tunnels up and down: what both keep is kept whatever fails. -/
theorem setState_closed [DecidableEq C] {P : AwgQuickBackend T C N → Prop}
    (hup : ∀ s t c, P s → P (s.wentUp name t c)) (hdown : ∀ s t, P s → P (s.wentDown name t))
    (h : P s) (o : Shell) (t : T) (requested : State) (config : Option C) :
    P (setState name order o s t requested config).state := by
  have hups : ∀ es s, P s → P (s.upEach name es) := fun es _ h =>
    List.foldlRecOn es _ h fun s h e _ => hup s e.1 e.2 h
  have hdowns : ∀ es s, P s → P (s.downEach name es) := fun es _ h =>
    List.foldlRecOn es _ h fun s h e _ => hdown s e.1 h
  have hready : ∀ original es, P (s.ready name t original es) := by
    intro original es
    unfold ready
    split
    · exact hdowns es s h
    · split
      · exact hdown s t h
      · exact h
  rcases setState_cases name order o s t requested config with
    ⟨r, hs⟩ | ⟨f, done, -, -, hs⟩ | ⟨f, -, -, hs⟩ | ⟨c, -, hs⟩ | ⟨-, -, -, hs⟩
  · rw [hs]
    exact h
  · rw [hs, setEach_up_state]
    exact hups _ _ (hdowns done s h)
  · rw [hs]
    unfold rollBack
    split
    · rcases setStateInternal_cases name (s.ready name t (getState name o.shows s t)
          (entrySet order s.runningConfigs)) (o.rollback 0) t (s.runningConfigs.lookup t) .up with
        ⟨e, -, he⟩ | ⟨c, -, -, hok⟩
      · rw [he]
        exact hready _ _
      · rw [hok]
        exact hup _ t c (hready _ _)
    · split
      · rw [setEach_up_state]
        exact hups _ _ (hready _ _)
      · exact hready _ _
  · rw [hs]
    exact hup _ t c (hready _ _)
  · rw [hs]
    exact hdown s t h

/-! ## A failed call undoes what it did -/

/-- Kernel and bookkeeping agree: a tunnel is recorded as running exactly when its interface is
up, and every interface belongs to a recorded tunnel. -/
structure Agree (s : AwgQuickBackend T C N) : Prop where
  running : ∀ t, t ∈ s.runningConfigs ↔ name t ∈ s.interfaces
  named : ∀ n ∈ s.interfaces, ∃ t, t ∈ s.runningConfigs ∧ name t = n

def SameTunnels (s s' : AwgQuickBackend T C N) : Prop :=
  s.interfaces = s'.interfaces ∧ ∀ t, s.runningConfigs.lookup t = s'.runningConfigs.lookup t

/-- Taking some of the running tunnels down and up again with their own configs changes nothing. -/
theorem upEach_downEach (s : AwgQuickBackend T C N) (es : List (T × C))
    (hnodup : (es.map Prod.fst).Nodup)
    (hconf : ∀ e ∈ es, s.runningConfigs.lookup e.1 = some e.2)
    (hup : ∀ e ∈ es, name e.1 ∈ s.interfaces) :
    SameTunnels ((s.downEach name es).upEach name es) s := by
  refine ⟨?_, fun t => ?_⟩
  · ext n
    rw [mem_interfaces_upEach, mem_interfaces_downEach]
    constructor
    · rintro (⟨hn, -⟩ | hn)
      · exact hn
      · obtain ⟨e, he, rfl⟩ := List.mem_map.mp hn
        exact hup e he
    · intro hn
      by_cases hmem : n ∈ es.map fun e => name e.1
      · exact .inr hmem
      · exact .inl ⟨hn, hmem⟩
  · rw [lookup_upEach name _ es hnodup, lookup_downEach]
    cases hl : es.lookup t with
    | none =>
      have hnot : t ∉ es.map Prod.fst := by
        rw [List.lookup_eq_none_iff] at hl
        intro hmem
        obtain ⟨e, he, rfl⟩ := List.mem_map.mp hmem
        simpa using hl e he
      rw [if_neg hnot, Option.none_or]
    | some c =>
      rw [Option.some_or]
      have hmem : (t, c) ∈ es := by
        obtain ⟨l₁, l₂, heq, -⟩ := List.lookup_eq_some_iff.mp hl
        rw [heq]
        simp
      exact (hconf _ hmem).symm

omit [DecidableEq N] in
theorem Agree.entry (h : Agree name s) {e : T × C} (he : e ∈ entrySet order s.runningConfigs) :
    s.runningConfigs.lookup e.1 = some e.2 ∧ name e.1 ∈ s.interfaces := by
  have hconf := (mem_entrySet order _ e.1 e.2).mp he
  exact ⟨hconf, (h.running e.1).mp (AList.lookup_isSome.mp (by rw [hconf]; rfl))⟩

theorem rollBack_ready (hagree : Agree name s) {o : Shell} (hundo : ∀ i, (o.rollback i).Succeeds)
    (t : T) (shows : Bool) :
    SameTunnels (rollBack name o
      (s.ready name t (getState name shows s t) (entrySet order s.runningConfigs)) t
      (getState name shows s t) (s.runningConfigs.lookup t)
      (entrySet order s.runningConfigs)) s := by
  by_cases hup : getState name shows s t = .up
  · have hshown := getState_eq_up name hup
    have hmem : t ∈ s.runningConfigs := (hagree.running t).mpr hshown
    obtain ⟨c, hc⟩ := Option.isSome_iff_exists.mp (AList.lookup_isSome.mpr hmem)
    have hnclear : ¬(s.multipleTunnels = false ∧ getState name shows s t = .down) := by
      rw [hup]
      simp
    rw [ready, if_neg hnclear, if_pos hup, rollBack, hc,
      if_pos ⟨hup, Option.some_ne_none c⟩, setStateInternal_of_succeeds name _ (hundo 0)]
    exact upEach_downEach name s [(t, c)] (by simp) (by simpa using hc) (by simpa using hshown)
  · have hdown := getState_ne_up name hup
    rw [rollBack, if_neg (fun h => hup h.1)]
    by_cases hm : s.multipleTunnels = false
    · have hready : s.ready name t (getState name shows s t) (entrySet order s.runningConfigs) =
          s.downEach name (entrySet order s.runningConfigs) := by
        rw [ready, if_pos ⟨hm, hdown⟩]
      rw [hready, if_pos ⟨by rw [downEach_multipleTunnels, hm], hdown⟩,
        setEach_up_of_succeeds name _ hundo]
      exact upEach_downEach name s _ (entrySet_keys_nodup order _)
        (fun e he => (hagree.entry name order he).1) fun e he => (hagree.entry name order he).2
    · have hready : s.ready name t (getState name shows s t) (entrySet order s.runningConfigs) =
          s := by
        rw [ready, if_neg (fun h => hm h.1), if_neg hup]
      rw [hready, if_neg (fun h => hm h.1)]
      exact ⟨rfl, fun _ => rfl⟩

/-- When a call throws and the commands of its rollback succeed, the same interfaces are up and
each tunnel runs the config it ran before, wherever the first failure was. -/
theorem setState_failure_restores [DecidableEq C] (o : Shell) (s : AwgQuickBackend T C N) (t : T)
    (requested : State) (config : Option C) (e : Failure) (hagree : Agree name s)
    (hundo : ∀ i, (o.rollback i).Succeeds)
    (hthrow : (setState name order o s t requested config).result = .error e) :
    SameTunnels (setState name order o s t requested config).state s := by
  rcases setState_cases name order o s t requested config with
    ⟨r, h⟩ | ⟨f, done, -, hpre, h⟩ | ⟨f, -, -, h⟩ | ⟨c, -, h⟩ | ⟨-, -, -, h⟩
  · rw [h]
    exact ⟨rfl, fun _ => rfl⟩
  · rw [h, setEach_up_of_succeeds name _ hundo]
    have hentry := fun e he => hagree.entry name order (hpre.subset he : e ∈ _)
    refine upEach_downEach name s done ?_ (fun e he => (hentry e he).1) fun e he => (hentry e he).2
    exact (entrySet_keys_nodup order _).sublist (hpre.sublist.map _)
  · rw [h]
    exact rollBack_ready name order hagree hundo t o.shows
  · rw [h] at hthrow
    cases hthrow
  · rw [h] at hthrow
    cases hthrow

def listOrder (α : Type*) : HashOrder α := ⟨id, fun _ => List.Perm.refl _⟩

/-- Tunnel `false` runs config 1; bringing `true` up with config 2 instead fails in `awg-quick`. -/
theorem setState_failure_restores_switch :
    SameTunnels
      (setState id (listOrder (Bool × Nat)) { Shell.working with up := .exited 1 }
        ((initial : AwgQuickBackend Bool Nat Bool).wentUp id false 1) true .up (some 2)).state
      ((initial : AwgQuickBackend Bool Nat Bool).wentUp id false 1) :=
  setState_failure_restores id (listOrder (Bool × Nat)) { Shell.working with up := .exited 1 }
    ((initial : AwgQuickBackend Bool Nat Bool).wentUp id false 1) true .up (some 2)
    (.backend (.awgQuickConfigErrorCode 1))
    ⟨by decide, fun n hn => ⟨n, by revert n; decide, rfl⟩⟩ (fun _ => rfl) rfl

/-! ## Kernel and bookkeeping move together -/

theorem Agree.wentUp (hname : Function.Injective name) (h : Agree name s) (t : T) (c : C) :
    Agree name (s.wentUp name t c) := by
  refine ⟨fun u => ?_, fun n hn => ?_⟩
  · simp only [AwgQuickBackend.wentUp, AList.mem_insert, Finset.mem_insert, hname.eq_iff, h.running u]
  · simp only [AwgQuickBackend.wentUp, Finset.mem_insert] at hn
    rcases hn with rfl | hn
    · exact ⟨t, (AList.mem_insert _).mpr (.inl rfl), rfl⟩
    · obtain ⟨u, hu, rfl⟩ := h.named n hn
      exact ⟨u, (AList.mem_insert _).mpr (.inr hu), rfl⟩

theorem Agree.wentDown (hname : Function.Injective name) (h : Agree name s) (t : T) :
    Agree name (s.wentDown name t) := by
  refine ⟨fun u => ?_, fun n hn => ?_⟩
  · simp only [AwgQuickBackend.wentDown, AList.mem_erase, Finset.mem_erase, ne_eq, hname.eq_iff,
      h.running u]
  · simp only [AwgQuickBackend.wentDown, Finset.mem_erase] at hn
    obtain ⟨u, hu, rfl⟩ := h.named n hn.2
    exact ⟨u, AList.mem_erase.mpr ⟨fun hut => hn.1 (hut ▸ rfl), hu⟩, rfl⟩

/-- One call, whatever fails in it, keeps the kernel and the bookkeeping in agreement. -/
theorem Agree.setState [DecidableEq C] (hname : Function.Injective name) (h : Agree name s)
    (o : Shell) (t : T) (requested : State) (config : Option C) :
    Agree name (setState name order o s t requested config).state :=
  setState_closed name order (fun _ t c h => h.wentUp name hname t c)
    (fun _ t h => h.wentDown name hname t) h o t requested config

omit [DecidableEq T] [DecidableEq N] in
theorem agree_initial : Agree name (initial : AwgQuickBackend T C N) :=
  ⟨fun t => iff_of_false (AList.notMem_empty t) (Finset.notMem_empty _),
    fun _ hn => absurd hn (Finset.notMem_empty _)⟩

theorem Agree.step [DecidableEq C] (hname : Function.Injective name) (h : Agree name s)
    (call : Shell × Request T C) : Agree name (step name order s call) := by
  obtain ⟨o, request⟩ := call
  cases request with
  | setState t requested config => exact h.setState name order hname o t requested config
  | setMultipleTunnels on => exact ⟨h.running, h.named⟩

/-! ## At most one tunnel without `multipleTunnels` -/

def AtMostOne (s : AwgQuickBackend T C N) : Prop :=
  ∀ t u, t ∈ s.runningConfigs → u ∈ s.runningConfigs → t = u

omit [DecidableEq T] [DecidableEq N] in
theorem AtMostOne.of_subset {s' : AwgQuickBackend T C N} (h : AtMostOne s)
    (hsub : ∀ t, t ∈ s'.runningConfigs → t ∈ s.runningConfigs) : AtMostOne s' :=
  fun t u ht hu => h t u (hsub t ht) (hsub u hu)

theorem mem_ready {u : T} {original : State} {es : List (T × C)}
    (h : u ∈ (s.ready name t original es).runningConfigs) : u ∈ s.runningConfigs := by
  unfold ready at h
  split at h
  · exact ((mem_downEach name s es u).mp h).2
  · split at h
    · exact (AList.mem_erase.mp h).2
    · exact h

variable {config : Option C}

theorem mem_rollBack {o : Shell} {u : T} {original : State} {es : List (T × C)}
    (h : u ∈ (rollBack name o s t original config es).runningConfigs) :
    u ∈ s.runningConfigs ∨ (config ≠ none ∧ u = t) ∨ u ∈ es.map Prod.fst := by
  unfold rollBack at h
  split at h
  · rename_i hup
    rcases setStateInternal_cases name s (o.rollback 0) t config .up with
      ⟨e, -, he⟩ | ⟨c, -, -, hok⟩
    · rw [he] at h
      exact .inl h
    · rw [hok] at h
      rcases (AList.mem_insert _).mp h with rfl | h
      · exact .inr (.inl ⟨hup.2, rfl⟩)
      · exact .inl h
  · split at h
    · rw [setEach_up_state] at h
      obtain ⟨-, hpre, -⟩ := setEach_spec name s .up o.rollback es
      rcases (mem_upEach name s _ u).mp h with h | h
      · exact .inr (.inr ((hpre.sublist.map Prod.fst).subset h))
      · exact .inl h
    · exact .inl h

theorem mem_ready_of_single (hagree : Agree name s) (hone : AtMostOne s)
    (hm : s.multipleTunnels = false) (shows : Bool) (t u : T) (h : u ∈ (s.ready name t (getState name shows s t)
      (entrySet order s.runningConfigs)).runningConfigs) : u = t := by
  by_cases hup : getState name shows s t = .up
  · exact hone u t (mem_ready name h) ((hagree.running t).mpr (getState_eq_up name hup))
  · rw [ready, if_pos ⟨hm, getState_ne_up name hup⟩] at h
    obtain ⟨hnot, hmem⟩ := (mem_downEach name s _ u).mp h
    exact absurd ((mem_keys_entrySet order _ u).mpr hmem) hnot

theorem AtMostOne.setState [DecidableEq C] (hagree : Agree name s) (hone : AtMostOne s)
    (hm : s.multipleTunnels = false) (o : Shell) (t : T) (requested : State) (config : Option C) :
    AtMostOne (setState name order o s t requested config).state := by
  rcases setState_cases name order o s t requested config with
    ⟨r, hs⟩ | ⟨f, done, -, hpre, hs⟩ | ⟨f, -, -, hs⟩ | ⟨c, -, hs⟩ | ⟨-, -, -, hs⟩
  · rw [hs]
    exact hone
  · rw [hs, setEach_up_state]
    refine hone.of_subset fun u hu => ?_
    obtain ⟨-, hpre', -⟩ := setEach_spec name (s.downEach name done) .up o.rollback done
    rcases (mem_upEach name _ _ u).mp hu with h | h
    · have hsub := ((hpre'.trans hpre).sublist.map Prod.fst).subset h
      exact (mem_keys_entrySet order _ u).mp hsub
    · exact ((mem_downEach name s _ u).mp h).2
  · rw [hs]
    refine hone.of_subset fun u hu => ?_
    rcases mem_rollBack name hu with h | ⟨hc, rfl⟩ | h
    · exact mem_ready name h
    · exact AList.lookup_isSome.mp (Option.isSome_iff_ne_none.mpr hc)
    · exact (mem_keys_entrySet order _ u).mp h
  · rw [hs]
    have hsingle : ∀ u, u ∈ ((s.ready name t (getState name o.shows s t)
        (entrySet order s.runningConfigs)).wentUp name t c).runningConfigs → u = t := by
      intro u hu
      rcases (AList.mem_insert _).mp hu with rfl | hu
      · rfl
      · exact mem_ready_of_single name order hagree hone hm o.shows t u hu
    exact fun u v hu hv => (hsingle u hu).trans (hsingle v hv).symm
  · rw [hs]
    exact hone.of_subset fun u hu => (AList.mem_erase.mp hu).2

theorem AtMostOne.step [DecidableEq C] (hagree : Agree name s) (hone : AtMostOne s)
    (hm : s.multipleTunnels = false) (call : Shell × Request T C) :
    AtMostOne (step name order s call) := by
  obtain ⟨o, request⟩ := call
  cases request with
  | setState t requested config => exact hone.setState name order hagree hm o t requested config
  | setMultipleTunnels on => exact hone

omit [DecidableEq T] [DecidableEq N] in
theorem AtMostOne.card_le_one (hagree : Agree name s) (hone : AtMostOne s) :
    s.interfaces.card ≤ 1 := by
  rw [Finset.card_le_one]
  intro n hn m hm
  obtain ⟨t, ht, rfl⟩ := hagree.named n hn
  obtain ⟨u, hu, rfl⟩ := hagree.named m hm
  rw [hone t u ht hu]

/-- After every call of every sequence, whatever failed, the names of the tunnels in
`runningConfigs` are exactly the interfaces that are up; without `multipleTunnels` there is at
most one of them. -/
theorem runningConfigs_eq_interfaces [DecidableEq C] (hname : Function.Injective name)
    (order : HashOrder (T × C)) (calls : List (Shell × Request T C)) :
    (∀ s ∈ Runs.states (step name order) initial calls,
        ∀ n, n ∈ s.interfaces ↔ ∃ t, t ∈ s.runningConfigs ∧ name t = n) ∧
      ((∀ s ∈ Runs.states (step name order) initial calls, s.multipleTunnels = false) →
        ∀ s ∈ Runs.states (step name order) initial calls, s.interfaces.card ≤ 1) := by
  constructor
  · intro s hs n
    have hagree : Agree name s :=
      Runs.invariant_states_of_step (fun s call h => h.step name order hname call)
        (agree_initial name) calls s hs
    constructor
    · exact hagree.named n
    · rintro ⟨t, ht, rfl⟩
      exact (hagree.running t).mp ht
  · intro hm s hs
    -- agreement is needed to know that a tunnel whose interface is up is the recorded one
    have hinv : Agree name s ∧ AtMostOne s :=
      Runs.invariant_states
        (fun s call (h : Agree name s ∧ AtMostOne s) (hm : s.multipleTunnels = false) =>
          ⟨h.1.step name order hname call, h.2.step name order h.1 hm call⟩)
        ⟨agree_initial name, fun t _ ht => absurd ht (AList.notMem_empty t)⟩
        (Runs.guarded_of_states hm) s hs
    exact hinv.2.card_le_one name hinv.1

/-- Two tunnels, the second of which cannot be brought up while the first one runs. -/
theorem runningConfigs_eq_interfaces_two :
    let calls := [(Shell.working, Request.setState false .up (some 1)),
      ({ Shell.working with up := .exited 1 }, .setState true .up (some 2))]
    let states := Runs.states (step (id : Bool → Bool) (listOrder (Bool × Nat))) initial calls
    (∀ s ∈ states, ∀ n, n ∈ s.interfaces ↔ ∃ t, t ∈ s.runningConfigs ∧ id t = n) ∧
      ∀ s ∈ states, s.interfaces.card ≤ 1 := by
  intro calls states
  have hboth := runningConfigs_eq_interfaces (id : Bool → Bool) Function.injective_id
    (listOrder (Bool × Nat)) calls
  exact ⟨hboth.1, hboth.2 (by decide)⟩

/-! ## The tunnel the status job polls -/

/-- `currentTunnel` is one of the running tunnels, and null when there is none. -/
def CurrentRuns (s : AwgQuickBackend T C N) : Prop :=
  ((∃ t, t ∈ s.runningConfigs) → ∃ t, s.currentTunnel = some t ∧ t ∈ s.runningConfigs) ∧
    ((∀ t, t ∉ s.runningConfigs) → s.currentTunnel = none)

/-- The request takes this tunnel down: it resolves to `DOWN`, the tunnel is up, and there is a
config to hand to `awg-quick`. -/
def TakesDown (s : AwgQuickBackend T C N) (request : Request T C) (t : T) : Prop :=
  ∃ requested config, request = .setState t requested config ∧
    requested.resolve (getState name true s t) = .down ∧ getState name true s t = .up ∧
    (s.runningConfigs.lookup t).or config ≠ none

def DownAlone (s : AwgQuickBackend T C N) (request : Request T C) : Prop :=
  ∀ t, TakesDown name s request t → ∀ u, u ∈ s.runningConfigs → u = t

def workingStep [DecidableEq C] (s : AwgQuickBackend T C N)
    (request : Request T C) : AwgQuickBackend T C N :=
  step name order s (Shell.working, request)

theorem currentRuns_wentUp (s : AwgQuickBackend T C N) (t : T) (c : C) :
    CurrentRuns (s.wentUp name t c) := by
  have hmem : t ∈ (s.wentUp name t c).runningConfigs := (AList.mem_insert _).mpr (.inl rfl)
  exact ⟨fun _ => ⟨t, rfl, hmem⟩, fun h => absurd hmem (h t)⟩

theorem currentRuns_upEach (s : AwgQuickBackend T C N) (es : List (T × C))
    (hs : es = [] → CurrentRuns s) : CurrentRuns (s.upEach name es) := by
  induction es generalizing s with
  | nil => exact hs rfl
  | cons e es ih => exact ih (s.wentUp name e.1 e.2) fun _ => currentRuns_wentUp name s e.1 e.2

theorem currentRuns_wentDown_iff (s : AwgQuickBackend T C N) (t : T) :
    CurrentRuns (s.wentDown name t) ↔ ∀ u, u ∈ s.runningConfigs → u = t := by
  have hmem : ∀ u, u ∈ (s.wentDown name t).runningConfigs ↔ u ≠ t ∧ u ∈ s.runningConfigs :=
    fun u => AList.mem_erase
  constructor
  · intro h u hu
    by_contra hne
    obtain ⟨v, hv, -⟩ := h.1 ⟨u, (hmem u).mpr ⟨hne, hu⟩⟩
    cases hv
  · intro h
    refine ⟨?_, fun _ => rfl⟩
    rintro ⟨u, hu⟩
    exact absurd (h u ((hmem u).mp hu).2) ((hmem u).mp hu).1

theorem working_rollback (i : Nat) : (Shell.working.rollback i).Succeeds := rfl

theorem currentRuns_rollBack (h : CurrentRuns s) (t : T) (config : Option C) (original : State)
    (hstop : original = .up → (s.runningConfigs.lookup t).or config ≠ none) (hnull : config = none) :
    CurrentRuns (rollBack name Shell.working
      (s.ready name t original (entrySet order s.runningConfigs)) t original
      (s.runningConfigs.lookup t) (entrySet order s.runningConfigs)) := by
  unfold rollBack
  split
  · rename_i hup
    obtain ⟨c, hc⟩ := Option.ne_none_iff_exists'.mp hup.2
    rw [hc, setStateInternal_of_succeeds name _ (working_rollback 0)]
    exact currentRuns_wentUp name _ t c
  · rename_i hconf
    have hnotup : original ≠ .up := by
      intro hup
      have hsome := hstop hup
      rw [hnull, Option.or_none] at hsome
      exact hconf ⟨hup, hsome⟩
    split
    · rename_i hm
      rw [setEach_up_of_succeeds name _ working_rollback]
      refine currentRuns_upEach name _ _ fun hempty => ?_
      -- nothing was running, so nothing was taken down either
      rw [hempty]
      unfold ready
      split
      · exact h
      · exact h
    · rename_i hm
      have hmulti : ¬(s.multipleTunnels = false ∧ original = .down) := by
        intro hs
        refine hm ⟨?_, hs.2⟩
        rw [ready, if_pos hs, downEach_multipleTunnels]
        exact hs.1
      rw [ready, if_neg hmulti, if_neg hnotup]
      exact h

theorem setState_of_takesDown [DecidableEq C] {requested : State}
    (hdown : requested.resolve (getState name true s t) = .down)
    (hup : getState name true s t = .up) (hsome : (s.runningConfigs.lookup t).or config ≠ none) :
    (setState name order Shell.working s t requested config).state = s.wentDown name t := by
  obtain ⟨c, hc⟩ := Option.ne_none_iff_exists'.mp hsome
  have hshows : getState name Shell.working.shows s t = .up := hup
  rw [hup] at hdown
  have hcmd : Shell.working.down.Succeeds := rfl
  simp only [setState, hshows, hdown, hc, setStateInternal_of_succeeds name s hcmd]
  rfl

theorem currentRuns_setState [DecidableEq C] (h : CurrentRuns s) {requested : State}
    (hnot : ¬TakesDown name s (.setState t requested config) t) :
    CurrentRuns (setState name order Shell.working s t requested config).state := by
  rcases setState_cases name order Shell.working s t requested config with
    ⟨r, hs⟩ | ⟨f, done, -, -, hs⟩ | ⟨f, hstop, hwhy, hs⟩ | ⟨c, -, hs⟩ | ⟨hdown, hup, hsome, -⟩
  · rw [hs]
    exact h
  · rw [hs, setEach_up_of_succeeds name _ working_rollback]
    refine currentRuns_upEach name _ done fun hempty => ?_
    rw [hempty]
    exact h
  · rw [hs]
    have hnull : config = none := hwhy.resolve_right fun hfails => hfails rfl
    exact currentRuns_rollBack name order h t config _ hstop hnull
  · rw [hs]
    exact currentRuns_wentUp name _ t c
  · exact absurd ⟨requested, config, rfl, hdown, hup, hsome⟩ hnot

/-- A call keeps `currentTunnel` among the running tunnels exactly when it does not take a tunnel
down beside another one that goes on running. -/
theorem currentRuns_workingStep_iff [DecidableEq C] (s : AwgQuickBackend T C N)
    (request : Request T C) (h : CurrentRuns s) :
    CurrentRuns (workingStep name order s request) ↔ DownAlone name s request := by
  cases request with
  | setMultipleTunnels on =>
    refine iff_of_true h fun t htakes => ?_
    obtain ⟨_, _, hreq, -⟩ := htakes
    cases hreq
  | setState t requested config =>
    -- only the tunnel the call names can be taken down on request
    have hsame : ∀ u, TakesDown name s (.setState t requested config) u → u = t := by
      rintro u ⟨_, _, hreq, -⟩
      cases hreq
      rfl
    by_cases htakes : TakesDown name s (.setState t requested config) t
    · obtain ⟨_, _, hreq, hdown, hup, hsome⟩ := id htakes
      cases hreq
      have hstep : workingStep name order s (.setState t requested config) =
          s.wentDown name t := setState_of_takesDown name order hdown hup hsome
      rw [hstep, currentRuns_wentDown_iff]
      constructor
      · intro hd u hu
        rw [hsame u hu]
        exact hd
      · intro hd
        exact hd t htakes
    · refine iff_of_true (currentRuns_setState name order h htakes) fun u hu => ?_
      rw [hsame u hu] at hu
      exact absurd hu htakes

/-- Along a sequence of calls whose commands all succeed, the polled tunnel is a running one
whenever there is one, and null otherwise, exactly when every tunnel taken down on request was
the only one running. -/
theorem currentTunnel_runs_iff_downAlone [DecidableEq C] (requests : List (Request T C)) :
    (∀ s ∈ Runs.states (workingStep name order) initial requests, CurrentRuns s) ↔
      Runs.Guarded (workingStep name order) (DownAlone name) initial requests := by
  have hinit : CurrentRuns (initial : AwgQuickBackend T C N) :=
    ⟨fun ⟨t, ht⟩ => absurd ht (AList.notMem_empty t), fun _ => rfl⟩
  exact Runs.states_iff_guarded (currentRuns_workingStep_iff name order) hinit requests

/-- With several tunnels allowed: `false` and `true` come up, `false` goes down, and `true` runs on
without being polled. -/
theorem currentTunnel_null_beside_running :
    let s := Runs.run (workingStep (id : Bool → Bool) (listOrder (Bool × Nat))) initial
      [.setMultipleTunnels true, .setState false .up (some 1), .setState true .up (some 2),
        .setState false .down none]
    true ∈ s.runningConfigs ∧ true ∈ s.interfaces ∧ s.currentTunnel = none ∧ ¬CurrentRuns s := by
  intro s
  have hmem : true ∈ s.runningConfigs := by decide
  refine ⟨hmem, by decide, rfl, fun h => ?_⟩
  obtain ⟨t, ht, -⟩ := h.1 ⟨true, hmem⟩
  cases ht

end Amnezia.Backend.AwgQuickBackend
