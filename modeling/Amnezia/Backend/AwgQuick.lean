import Mathlib.Data.List.AList
import Mathlib.Data.Finset.Basic
import Amnezia.Backend.Tunnel

/-!
# AwgQuickBackend

The backend that drives the kernel module through `awg-quick`.  A tunnel is an object reference
`T` with a name; a config is an object reference `C`, compared by identity as the source does.
The kernel is the set of interface names that are up: a command that exits with status 0 adds or
removes the named interface, any other one leaves the set as it was.
-/

namespace Amnezia.Backend

/-- One `awg-quick` command with the temporary file it reads: an exception on the way, or the
exit status the root shell reports. -/
inductive CommandResult where
  | thrown
  | exited (status : Int)
  deriving DecidableEq, Repr

def CommandResult.Succeeds (r : CommandResult) : Prop := r = .exited 0

instance (r : CommandResult) : Decidable r.Succeeds := inferInstanceAs (Decidable (_ = _))

structure Shell where
  /-- `awg show interfaces` could be run. -/
  shows : Bool
  /-- `ensureToolsAvailable` returned. -/
  tools : Bool
  /-- The i-th command taking another running tunnel down. -/
  teardown : Nat → CommandResult
  /-- The command taking the tunnel itself down. -/
  down : CommandResult
  /-- The command bringing the tunnel itself up. -/
  up : CommandResult
  /-- The i-th command issued while undoing after a failure. -/
  rollback : Nat → CommandResult

def Shell.working : Shell :=
  { shows := true
    tools := true
    teardown := fun _ => .exited 0
    down := .exited 0
    up := .exited 0
    rollback := fun _ => .exited 0 }

/-- The order in which a `HashMap` happens to list its entries. -/
structure HashOrder (α : Type*) where
  list : List α → List α
  perm : ∀ l, (list l).Perm l

structure AwgQuickBackend (T C N : Type*) where
  runningConfigs : AList (fun _ : T => C)
  multipleTunnels : Bool
  currentTunnel : Option T
  interfaces : Finset N
  /-- The states the tunnels were told through `onStateChange`, the newest first. -/
  log : List (T × State)

namespace AwgQuickBackend

variable {T C N : Type*} [DecidableEq T] [DecidableEq N]

def initial : AwgQuickBackend T C N :=
  { runningConfigs := ∅
    multipleTunnels := false
    currentTunnel := none
    interfaces := ∅
    log := [] }

def notified (s : AwgQuickBackend T C N) : T → State := lastTold s.log

def entrySet (order : HashOrder (T × C)) (m : AList (fun _ : T => C)) : List (T × C) :=
  order.list (m.entries.map fun e => (e.1, e.2))

variable (name : T → N)

/-- `getState`: a tunnel is up when the kernel lists its name; nothing is listed when
`awg show interfaces` cannot be run. -/
def getState (shows : Bool) (s : AwgQuickBackend T C N) (tunnel : T) : State :=
  State.of (shows && decide (name tunnel ∈ s.interfaces))

def wentUp (s : AwgQuickBackend T C N) (tunnel : T) (config : C) : AwgQuickBackend T C N :=
  { s with
    interfaces := insert (name tunnel) s.interfaces
    runningConfigs := s.runningConfigs.insert tunnel config
    currentTunnel := some tunnel
    log := (tunnel, .up) :: s.log }

def wentDown (s : AwgQuickBackend T C N) (tunnel : T) : AwgQuickBackend T C N :=
  { s with
    interfaces := s.interfaces.erase (name tunnel)
    runningConfigs := s.runningConfigs.erase tunnel
    currentTunnel := none
    log := (tunnel, .down) :: s.log }

def apply (s : AwgQuickBackend T C N) (tunnel : T) (config : C) (state : State) :
    AwgQuickBackend T C N :=
  if state = .up then s.wentUp name tunnel config else s.wentDown name tunnel

def setStateInternal (r : CommandResult) (s : AwgQuickBackend T C N) (tunnel : T)
    (config : Option C) (state : State) : Outcome Unit (AwgQuickBackend T C N) :=
  match config with
  | none => ⟨.error .nullConfig, s⟩
  | some config =>
    match r with
    | .thrown => ⟨.error .platform, s⟩
    | .exited status =>
      if status ≠ 0 then ⟨.error (.backend (.awgQuickConfigErrorCode status)), s⟩
      else ⟨.ok (), s.apply name tunnel config state⟩

/-- A loop of `setStateInternal` over map entries that stops at the first exception, with the
entries it got through (the `rewind` list of the source). -/
def setEach (state : State) (cmd : Nat → CommandResult) (s : AwgQuickBackend T C N) :
    List (T × C) → List (T × C) × Outcome Unit (AwgQuickBackend T C N)
  | [] => ([], ⟨.ok (), s⟩)
  | e :: es =>
    let out := setStateInternal name (cmd 0) s e.1 (some e.2) state
    match out.result with
    | .error f => ([], ⟨.error f, out.state⟩)
    | .ok _ =>
      let rest := setEach state (fun i => cmd (i + 1)) out.state es
      (e :: rest.1, rest.2)

/-- Taking every running tunnel down before another one comes up, and bringing those already
taken down up again when one of the commands fails. -/
def tearDown (o : Shell) (s : AwgQuickBackend T C N) (snapshot : List (T × C)) :
    Outcome Unit (AwgQuickBackend T C N) :=
  let down := setEach name .down o.teardown s snapshot
  match down.2.result with
  | .ok _ => down.2
  | .error e => ⟨.error e, (setEach name .up o.rollback down.2.state down.1).2.state⟩

/-- The handler of a failed bring-up.  Its two conditions exclude each other. -/
def rollBack (o : Shell) (s : AwgQuickBackend T C N) (tunnel : T) (originalState : State)
    (originalConfig : Option C) (snapshot : List (T × C)) : AwgQuickBackend T C N :=
  if originalState = .up ∧ originalConfig ≠ none then
    (setStateInternal name (o.rollback 0) s tunnel originalConfig .up).state
  else if s.multipleTunnels = false ∧ originalState = .down then
    (setEach name .up o.rollback s snapshot).2.state
  else s

def bringUp (o : Shell) (s : AwgQuickBackend T C N) (tunnel : T) (originalState : State)
    (config : Option C) (snapshot : List (T × C)) : Outcome State (AwgQuickBackend T C N) :=
  let originalConfig := s.runningConfigs.lookup tunnel
  let cleared :=
    if s.multipleTunnels = false ∧ originalState = .down then tearDown name o s snapshot
    else ⟨.ok (), s⟩
  match cleared.result with
  | .error e => ⟨.error e, cleared.state⟩
  | .ok _ =>
    let stopped :=
      if originalState = .up then
        setStateInternal name o.down cleared.state tunnel (originalConfig.or config) .down
      else ⟨.ok (), cleared.state⟩
    match stopped.result with
    | .error e => ⟨.error e, stopped.state⟩
    | .ok _ =>
      let started := setStateInternal name o.up stopped.state tunnel config .up
      match started.result with
      | .error e =>
        ⟨.error e, rollBack name o started.state tunnel originalState originalConfig snapshot⟩
      | .ok _ => ⟨.ok .up, started.state⟩

def setState [DecidableEq C] (order : HashOrder (T × C)) (o : Shell) (s : AwgQuickBackend T C N)
    (tunnel : T) (requested : State) (config : Option C) : Outcome State (AwgQuickBackend T C N) :=
  let originalState := getState name o.shows s tunnel
  let originalConfig := s.runningConfigs.lookup tunnel
  let state := requested.resolve originalState
  if (state = .up ∧ originalState = .up ∧ originalConfig ≠ none ∧ originalConfig = config) ∨
      (state = .down ∧ originalState = .down) then
    ⟨.ok originalState, s⟩
  else if state = .up then
    if o.tools then bringUp name o s tunnel originalState config (entrySet order s.runningConfigs)
    else ⟨.error .platform, s⟩
  else
    let out := setStateInternal name o.down s tunnel (originalConfig.or config) .down
    match out.result with
    | .error e => ⟨.error e, out.state⟩
    | .ok _ => ⟨.ok state, out.state⟩

def setMultipleTunnels (s : AwgQuickBackend T C N) (on : Bool) : AwgQuickBackend T C N :=
  { s with multipleTunnels := on }

inductive Request (T C : Type*) where
  | setState (tunnel : T) (requested : State) (config : Option C)
  | setMultipleTunnels (on : Bool)

def step [DecidableEq C] (order : HashOrder (T × C)) (s : AwgQuickBackend T C N)
    (call : Shell × Request T C) : AwgQuickBackend T C N :=
  match call.2 with
  | .setState tunnel requested config =>
    (setState name order call.1 s tunnel requested config).state
  | .setMultipleTunnels on => s.setMultipleTunnels on

section Commands

variable (s : AwgQuickBackend T C N)

/-- A command throws and changes nothing, or it had a config, succeeded and took effect. -/
theorem setStateInternal_cases (r : CommandResult) (t : T) (config : Option C) (state : State) :
    (∃ e, (config = none ∨ ¬r.Succeeds) ∧
        setStateInternal name r s t config state = ⟨.error e, s⟩) ∨
      ∃ c, config = some c ∧ r.Succeeds ∧
        setStateInternal name r s t config state = ⟨.ok (), s.apply name t c state⟩ := by
  cases config with
  | none => exact .inl ⟨_, .inl rfl, rfl⟩
  | some c =>
    cases r with
    | thrown => exact .inl ⟨_, .inr (by decide), rfl⟩
    | exited status =>
      by_cases h : status = 0
      · subst h
        exact .inr ⟨c, rfl, rfl, rfl⟩
      · have hfails : ¬(CommandResult.exited status).Succeeds := fun hs => h (by cases hs; rfl)
        exact .inl ⟨_, .inr hfails, by simp only [setStateInternal, if_pos h]; rfl⟩

theorem setStateInternal_of_succeeds {r : CommandResult} (hr : r.Succeeds) (t : T) (c : C)
    (state : State) :
    setStateInternal name r s t (some c) state = ⟨.ok (), s.apply name t c state⟩ := by
  rw [CommandResult.Succeeds] at hr
  subst hr
  rfl

def upEach (es : List (T × C)) : AwgQuickBackend T C N :=
  es.foldl (fun s e => s.wentUp name e.1 e.2) s

def downEach (es : List (T × C)) : AwgQuickBackend T C N :=
  es.foldl (fun s e => s.wentDown name e.1) s

/-- The loop reaches the state in which the entries it got through have taken effect; these are
the first ones, and all of them when nothing was thrown. -/
theorem setEach_spec (state : State) (cmd : Nat → CommandResult) (es : List (T × C)) :
    (setEach name state cmd s es).2.state =
        (setEach name state cmd s es).1.foldl (fun s e => s.apply name e.1 e.2 state) s ∧
      (setEach name state cmd s es).1 <+: es ∧
      ∀ u, (setEach name state cmd s es).2.result = .ok u →
        (setEach name state cmd s es).1 = es := by
  induction es generalizing s cmd with
  | nil => exact ⟨rfl, List.prefix_rfl, fun _ _ => rfl⟩
  | cons e es ih =>
    rcases setStateInternal_cases name s (cmd 0) e.1 (some e.2) state with
      ⟨f, -, hf⟩ | ⟨c, hc, -, hok⟩
    · simp only [setEach, hf]
      exact ⟨rfl, List.nil_prefix, fun _ h => nomatch h⟩
    · cases hc
      simp only [setEach, hok]
      obtain ⟨hstate, hpre, hall⟩ := ih (s.apply name e.1 e.2 state) (fun i => cmd (i + 1))
      refine ⟨hstate, List.cons_prefix_cons.mpr ⟨rfl, hpre⟩, fun u hu => ?_⟩
      rw [hall u hu]

theorem setEach_down_state (cmd : Nat → CommandResult) (es : List (T × C)) :
    (setEach name .down cmd s es).2.state =
      s.downEach name (setEach name .down cmd s es).1 :=
  (setEach_spec name s .down cmd es).1

theorem setEach_up_state (cmd : Nat → CommandResult) (es : List (T × C)) :
    (setEach name .up cmd s es).2.state = s.upEach name (setEach name .up cmd s es).1 :=
  (setEach_spec name s .up cmd es).1

theorem setEach_up_of_succeeds {cmd : Nat → CommandResult} (hcmd : ∀ i, (cmd i).Succeeds)
    (es : List (T × C)) : (setEach name .up cmd s es).2.state = s.upEach name es := by
  induction es generalizing s cmd with
  | nil => rfl
  | cons e es ih =>
    simp only [setEach, setStateInternal_of_succeeds name s (hcmd 0)]
    exact ih (s.wentUp name e.1 e.2) fun i => hcmd (i + 1)

@[simp] theorem downEach_multipleTunnels (es : List (T × C)) :
    (s.downEach name es).multipleTunnels = s.multipleTunnels := by
  induction es generalizing s with
  | nil => rfl
  | cons e es ih => exact ih (s.wentDown name e.1)

theorem lookup_downEach (es : List (T × C)) (t : T) :
    (s.downEach name es).runningConfigs.lookup t =
      if t ∈ es.map Prod.fst then none else s.runningConfigs.lookup t := by
  induction es generalizing s with
  | nil => simp [downEach]
  | cons e es ih =>
    rw [downEach, List.foldl_cons]
    refine (ih (s.wentDown name e.1)).trans ?_
    by_cases hes : t ∈ es.map Prod.fst
    · rw [if_pos hes, List.map_cons, if_pos (List.mem_cons_of_mem _ hes)]
    · rw [if_neg hes]
      by_cases he : t = e.1
      · subst he
        rw [if_pos (by simp)]
        exact AList.lookup_erase ..
      · rw [if_neg (by simp [he, hes])]
        exact AList.lookup_erase_ne he

theorem lookup_upEach (es : List (T × C)) (hes : (es.map Prod.fst).Nodup) (t : T) :
    (s.upEach name es).runningConfigs.lookup t =
      (es.lookup t).or (s.runningConfigs.lookup t) := by
  induction es generalizing s with
  | nil => simp [upEach]
  | cons e es ih =>
    rw [List.map_cons, List.nodup_cons] at hes
    rw [upEach, List.foldl_cons]
    refine (ih (s.wentUp name e.1 e.2) hes.2).trans ?_
    by_cases he : t = e.1
    · subst he
      have hnone : es.lookup e.1 = none := by
        rw [List.lookup_eq_none_iff]
        intro p hp
        simp only [bne_iff_ne, ne_eq]
        intro heq
        exact hes.1 (heq ▸ List.mem_map_of_mem hp)
      rw [hnone, List.lookup_cons_self]
      exact AList.lookup_insert _
    · have hbeq : (t == e.1) = false := by simpa using he
      rw [List.lookup_cons, hbeq]
      congr 1
      exact AList.lookup_insert_ne he

theorem mem_downEach (es : List (T × C)) (t : T) :
    t ∈ (s.downEach name es).runningConfigs ↔ t ∉ es.map Prod.fst ∧ t ∈ s.runningConfigs := by
  rw [← AList.lookup_isSome, lookup_downEach, ← AList.lookup_isSome]
  split <;> simp_all

theorem mem_upEach (es : List (T × C)) (t : T) :
    t ∈ (s.upEach name es).runningConfigs ↔ t ∈ es.map Prod.fst ∨ t ∈ s.runningConfigs := by
  induction es generalizing s with
  | nil => simp [upEach]
  | cons e es ih =>
    rw [upEach, List.foldl_cons]
    refine (ih (s.wentUp name e.1 e.2)).trans ?_
    simp only [wentUp, AList.mem_insert, List.map_cons, List.mem_cons]
    tauto

theorem mem_interfaces_downEach (es : List (T × C)) (n : N) :
    n ∈ (s.downEach name es).interfaces ↔
      n ∈ s.interfaces ∧ n ∉ es.map (fun e => name e.1) := by
  induction es generalizing s with
  | nil => simp [downEach]
  | cons e es ih =>
    rw [downEach, List.foldl_cons]
    refine (ih (s.wentDown name e.1)).trans ?_
    simp only [wentDown, Finset.mem_erase, List.map_cons, List.mem_cons, not_or]
    tauto

theorem mem_interfaces_upEach (es : List (T × C)) (n : N) :
    n ∈ (s.upEach name es).interfaces ↔
      n ∈ s.interfaces ∨ n ∈ es.map (fun e => name e.1) := by
  induction es generalizing s with
  | nil => simp [upEach]
  | cons e es ih =>
    rw [upEach, List.foldl_cons]
    refine (ih (s.wentUp name e.1 e.2)).trans ?_
    simp only [wentUp, Finset.mem_insert, List.map_cons, List.mem_cons]
    tauto

end Commands

theorem mem_entrySet (order : HashOrder (T × C)) (m : AList (fun _ : T => C)) (t : T) (c : C) :
    (t, c) ∈ entrySet order m ↔ m.lookup t = some c := by
  rw [entrySet, (order.perm _).mem_iff, List.mem_map]
  constructor
  · rintro ⟨⟨t', c'⟩, hmem, heq⟩
    cases heq
    exact AList.mem_lookup_iff.mpr hmem
  · intro h
    exact ⟨⟨t, c⟩, AList.mem_lookup_iff.mp h, rfl⟩

omit [DecidableEq T] in
theorem entrySet_keys_nodup (order : HashOrder (T × C)) (m : AList (fun _ : T => C)) :
    ((entrySet order m).map Prod.fst).Nodup := by
  have hkeys : (m.entries.map fun e => (e.1, e.2)).map Prod.fst = m.keys := by
    rw [List.map_map]
    rfl
  rw [entrySet, ((order.perm _).map Prod.fst).nodup_iff, hkeys]
  exact m.keys_nodup

theorem mem_keys_entrySet (order : HashOrder (T × C)) (m : AList (fun _ : T => C)) (t : T) :
    t ∈ (entrySet order m).map Prod.fst ↔ t ∈ m := by
  rw [← AList.lookup_isSome, Option.isSome_iff_exists, List.mem_map]
  constructor
  · rintro ⟨⟨t', c⟩, hmem, rfl⟩
    exact ⟨c, (mem_entrySet order m t' c).mp hmem⟩
  · rintro ⟨c, hc⟩
    exact ⟨(t, c), (mem_entrySet order m t c).mpr hc, rfl⟩

end AwgQuickBackend

end Amnezia.Backend
