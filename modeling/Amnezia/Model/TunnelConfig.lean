import Amnezia.Config.Equality
import Amnezia.Config.Reader
import Amnezia.Model.TunnelState

/-!
# The cached config of a tunnel

`ObservableTunnel.config` is a copy of the file in the config store.  `setConfigAsync` compares a
new config with the copy; `getTunnelConfig` and `setTunnelConfig` access the file on an I/O thread
and assign the copy later, back on the main thread.
-/

namespace Amnezia.Model

open Amnezia.Backend Config
open Java (Text)

namespace TunnelManager

section SetConfigAsync

variable {T C S N : Type*} [DecidableEq T] [DecidableEq C] [DecidableEq S]
  (endpoints : C → List (Option (List Char)))

def setConfigAsync (equals : C → C → Bool) (o : GoBackend.Answers S) (saves : Bool)
    (m : TunnelManager T C S N) (tunnel : T) (config : C) : Outcome C (TunnelManager T C S N) :=
  match m.config tunnel with
  | none => setTunnelConfig endpoints o saves m tunnel config
  | some it =>
    if !equals config it then setTunnelConfig endpoints o saves m tunnel config else ⟨.ok it, m⟩

theorem setConfigAsync_of_config {equals : C → C → Bool} {m : TunnelManager T C S N} {tunnel : T}
    {it : C} (h : m.config tunnel = some it) (o : GoBackend.Answers S) (saves : Bool) (config : C) :
    setConfigAsync endpoints equals o saves m tunnel config =
      if equals config it = true then ⟨.ok it, m⟩
      else setTunnelConfig endpoints o saves m tunnel config := by
  unfold setConfigAsync
  simp only [h]
  cases equals config it <;> rfl

end SetConfigAsync

variable {T S N : Type*} [DecidableEq T] [DecidableEq S] {Addr : Type} [DecidableEq Addr]

/-- Equality of parsed configs is equality of contents exactly for one object and for different
contents; with two objects `setConfigAsync` goes through `setTunnelConfig` whatever they hold. -/
theorem equals_iff_sameContents_iff (net : Net Addr) (calls : Nat → Text) {i j : Nat}
    {a b : ConfigObject Addr} (ha : ConfigObject.parse net calls i = .ok a)
    (hb : ConfigObject.parse net calls j = .ok b) :
    ((a.equals b = true ↔ a.contents.SameContents b.contents) ↔
        i = j ∨ ¬a.contents.SameContents b.contents) ∧
      (a.equals b = true ↔ i = j) ∧
      ∀ (endpoints : ConfigObject Addr → List (Option (List Char))) (o : GoBackend.Answers S)
        (saves : Bool) (m : TunnelManager T (ConfigObject Addr) S N) (tunnel : T),
        m.config tunnel = some b →
          setConfigAsync endpoints ConfigObject.equals o saves m tunnel a =
            if i = j then ⟨.ok b, m⟩ else setTunnelConfig endpoints o saves m tunnel a := by
  have heq : a.equals b = true ↔ i = j := ConfigObject.equals_iff_of_parse ha hb
  have hsame : i = j → a.contents.SameContents b.contents := by
    intro hij
    rw [hij, hb] at ha
    rw [Except.ok.inj ha]
    exact SameContents.refl _
  refine ⟨?_, heq, fun endpoints o saves m tunnel hconfig => ?_⟩
  · rw [heq]
    tauto
  · rw [setConfigAsync_of_config endpoints hconfig]
    by_cases hij : i = j
    · rw [if_pos hij, if_pos (heq.2 hij)]
    · rw [if_neg hij, if_neg (mt heq.1 hij)]

def keyCalls : Nat → Text := fun _ => keyText

theorem equals_self_example : ∃ a, ConfigObject.parse exampleNet keyCalls 0 = .ok a ∧
    a.equals a = true := by
  have hok : (ConfigObject.parse exampleNet keyCalls 0).toOption.isSome = true := rfl
  obtain ⟨a, ha⟩ := Option.isSome_iff_exists.1 hok
  have ha := Loops.eq_ok_of_toOption ha
  exact ⟨a, ha, (equals_iff_sameContents_iff (T := Nat) (S := Nat) (N := Nat) _ _ ha ha).2.1.2 rfl⟩

def runThenSet {Addr : Type} [DecidableEq Addr] (a b : ConfigObject Addr) :
    TunnelManager Bool (ConfigObject Addr) Nat Bool ×
      TunnelManager Bool (ConfigObject Addr) Nat Bool :=
  let m := (setTunnelState (fun _ => []) ⟨.working 0, .working 0⟩ (some a)
    (loaded [false] id none []) false .up).state
  (m, (setConfigAsync (fun _ => []) ConfigObject.equals ⟨.working 0, .working 0⟩ true m false
    b).state)

/-- Two parses of one text have the same contents and are not equal; given the second config, a
tunnel running with the first is stopped (its service is told to stop) and started again. -/
theorem parsed_twice_not_equal :
    ∃ a b, ConfigObject.parse exampleNet keyCalls 0 = .ok a ∧
      ConfigObject.parse exampleNet keyCalls 1 = .ok b ∧
      a.contents.SameContents b.contents ∧ a.equals b = false ∧
      (runThenSet a b).1.state false = .up ∧ (runThenSet a b).1.backend.inFlight = [] ∧
      (runThenSet a b).2.state false = .up ∧ (runThenSet a b).2.backend.inFlight = [0] := by
  have hrun : ((ConfigObject.parse exampleNet keyCalls 0).toOption.bind fun a =>
      (ConfigObject.parse exampleNet keyCalls 1).toOption.map fun b =>
        decide (a.contents = b.contents ∧ a.equals b = false ∧
          (runThenSet a b).1.state false = .up ∧ (runThenSet a b).1.backend.inFlight = [] ∧
          (runThenSet a b).2.state false = .up ∧ (runThenSet a b).2.backend.inFlight = [0])) =
      some true := by decide +kernel
  obtain ⟨a, ha, hrun⟩ := Option.bind_eq_some_iff.1 hrun
  obtain ⟨b, hb, hrun⟩ := Option.map_eq_some_iff.1 hrun
  obtain ⟨hsame, hrest⟩ := of_decide_eq_true hrun
  refine ⟨a, b, Loops.eq_ok_of_toOption ha, Loops.eq_ok_of_toOption hb, ?_, hrest⟩
  rw [hsame]
  exact SameContents.refl _

end TunnelManager

/-- Where a request in progress goes on: on an I/O thread at the store, or back on the main thread
with the config the store returned.  `seen` counts the saves up to the request's own access. -/
inductive ConfigCoroutine (Addr : Type) where
  | load
  | save (config : Config Addr)
  | onConfigChanged (config : Config Addr) (seen : Nat)

structure ConfigRequests (Addr : Type) where
  /-- The field behind `ObservableTunnel.config`. -/
  config : Option (Config Addr)
  /-- The tunnel's file in the store. -/
  file : Text
  /-- How often the file was saved. -/
  saves : Nat
  running : List (ConfigCoroutine Addr)

inductive ConfigAction (Addr : Type) where
  | getTunnelConfig
  /-- The getter of `ObservableTunnel.config`. -/
  | config
  | getConfigAsync
  | setTunnelConfig (config : Config Addr)
  | resume (i : Nat)

namespace ConfigRequests

variable {Addr : Type} [DecidableEq Addr] (net : Net Addr)

def getTunnelConfig (r : ConfigRequests Addr) : ConfigRequests Addr :=
  { r with running := .load :: r.running }

def getConfig (r : ConfigRequests Addr) : ConfigRequests Addr :=
  match r.config with
  | none => r.getTunnelConfig
  | some _ => r

/-- `config ?: manager.getTunnelConfig(this)`, where the getter has started a request of its own. -/
def getConfigAsync (r : ConfigRequests Addr) : ConfigRequests Addr :=
  match r.config with
  | none => r.getConfig.getTunnelConfig
  | some _ => r.getConfig

def setTunnelConfig (r : ConfigRequests Addr) (config : Config Addr) : ConfigRequests Addr :=
  { r with running := .save config :: r.running }

def resume (r : ConfigRequests Addr) : ConfigCoroutine Addr → ConfigRequests Addr
  | .load =>
    match parse net r.file with
    | .ok config => { r with running := .onConfigChanged config r.saves :: r.running }
    | .error _ => r
  | .save config =>
    { r with
      file := config.toAwgQuickString net
      saves := r.saves + 1
      running := .onConfigChanged config (r.saves + 1) :: r.running }
  | .onConfigChanged config _ => { r with config := some config }

def step (r : ConfigRequests Addr) : ConfigAction Addr → ConfigRequests Addr
  | .getTunnelConfig => r.getTunnelConfig
  | .config => r.getConfig
  | .getConfigAsync => r.getConfigAsync
  | .setTunnelConfig config => r.setTunnelConfig config
  | .resume i =>
    match r.running[i]? with
    | none => r
    | some coroutine => resume net { r with running := r.running.eraseIdx i } coroutine

def Holds (file : Text) (c : Config Addr) : Prop :=
  ∃ c', parse net file = .ok c' ∧ c.SameContents c'

def CacheAgrees (r : ConfigRequests Addr) : Prop :=
  ∀ c, r.config = some c → Holds net r.file c

/-- A config is assigned while the file is as the request left it, and a config that is saved
survives being printed and read. -/
def InOrder (r : ConfigRequests Addr) : ConfigAction Addr → Prop
  | .resume i =>
    match r.running[i]? with
    | some (.onConfigChanged _ seen) => seen = r.saves
    | some (.save c) => Holds net (c.toAwgQuickString net) c
    | _ => True
  | _ => True

/-- What the requests in progress know.  If the cached config is out of date then some request that
has seen the file as it is has not assigned its config yet. -/
structure Tracked (r : ConfigRequests Addr) : Prop where
  seen_le : ∀ c seen, .onConfigChanged c seen ∈ r.running → seen ≤ r.saves
  fresh : ∀ c, .onConfigChanged c r.saves ∈ r.running → Holds net r.file c
  cached : CacheAgrees net r ∨ ∃ c, .onConfigChanged c r.saves ∈ r.running

variable {net}

variable {r : ConfigRequests Addr}

theorem Tracked.start (h : Tracked net r) {coroutine : ConfigCoroutine Addr}
    (hco : ∀ c seen, coroutine ≠ .onConfigChanged c seen) :
    Tracked net { r with running := coroutine :: r.running } := by
  have hmem : ∀ c seen, .onConfigChanged c seen ∈ coroutine :: r.running ↔
      .onConfigChanged c seen ∈ r.running := by
    intro c seen
    rw [List.mem_cons, or_iff_right (hco c seen).symm]
  constructor
  · intro c seen hin
    exact h.seen_le c seen ((hmem c seen).1 hin)
  · intro c hin
    exact h.fresh c ((hmem c _).1 hin)
  · exact h.cached.imp_right fun ⟨c, hin⟩ => ⟨c, (hmem c _).2 hin⟩

theorem Tracked.getTunnelConfig (h : Tracked net r) : Tracked net r.getTunnelConfig :=
  h.start nofun

theorem Tracked.getConfig (h : Tracked net r) : Tracked net r.getConfig := by
  unfold ConfigRequests.getConfig
  split
  · exact h.getTunnelConfig
  · exact h

variable {i : Nat}

theorem Tracked.load (h : Tracked net r) (hget : r.running[i]? = some .load) :
    Tracked net (resume net { r with running := r.running.eraseIdx i } .load) := by
  have hmem : ∀ c seen, .onConfigChanged c seen ∈ r.running ↔
      .onConfigChanged c seen ∈ r.running.eraseIdx i := by
    intro c seen
    rw [Runs.mem_pool_iff hget, or_iff_right nofun]
  have herased : Tracked net { r with running := r.running.eraseIdx i } := by
    constructor
    · intro c seen hin
      exact h.seen_le c seen ((hmem c seen).2 hin)
    · intro c hin
      exact h.fresh c ((hmem c _).2 hin)
    · exact h.cached.imp_right fun ⟨c, hin⟩ => ⟨c, (hmem c _).1 hin⟩
  unfold resume
  cases hparse : parse net r.file with
  | error e => exact herased
  | ok config =>
    constructor
    · intro c seen hin
      rcases List.mem_cons.1 hin with heq | hin
      · cases heq
        exact Nat.le_refl _
      · exact herased.seen_le c seen hin
    · intro c hin
      rcases List.mem_cons.1 hin with heq | hin
      · cases heq
        exact ⟨config, hparse, SameContents.refl _⟩
      · exact herased.fresh c hin
    · exact .inr ⟨config, List.mem_cons_self⟩

theorem Tracked.save {config : Config Addr} (h : Tracked net r)
    (hget : r.running[i]? = some (.save config))
    (hsurvives : Holds net (config.toAwgQuickString net) config) :
    Tracked net (resume net { r with running := r.running.eraseIdx i } (.save config)) := by
  have hold : ∀ c seen, .onConfigChanged c seen ∈ r.running.eraseIdx i → seen ≤ r.saves :=
    fun c seen hin => h.seen_le c seen ((Runs.mem_pool_iff hget).2 (.inr hin))
  constructor
  · intro c seen hin
    rcases List.mem_cons.1 hin with heq | hin
    · cases heq
      exact Nat.le_refl _
    · exact Nat.le_succ_of_le (hold c seen hin)
  · intro c hin
    rcases List.mem_cons.1 hin with heq | hin
    · cases heq
      exact hsurvives
    · -- every other request has seen fewer saves
      have hle := hold c _ hin
      change r.saves + 1 ≤ r.saves at hle
      omega
  · exact .inr ⟨config, List.mem_cons_self⟩

theorem Tracked.assign {config : Config Addr} (h : Tracked net r)
    (hget : r.running[i]? = some (.onConfigChanged config r.saves)) :
    Tracked net (resume net { r with running := r.running.eraseIdx i }
      (.onConfigChanged config r.saves)) := by
  have hsub : ∀ co ∈ r.running.eraseIdx i, co ∈ r.running :=
    fun co hin => (Runs.mem_pool_iff hget).2 (.inr hin)
  constructor
  · intro c seen hin
    exact h.seen_le c seen (hsub _ hin)
  · intro c hin
    exact h.fresh c (hsub _ hin)
  · left
    intro c hc
    cases hc
    exact h.fresh config ((Runs.mem_pool_iff hget).2 (.inl rfl))

theorem tracked_step {a : ConfigAction Addr} (h : Tracked net r) (hguard : InOrder net r a) :
    Tracked net (step net r a) := by
  cases a with
  | getTunnelConfig => exact h.getTunnelConfig
  | config => exact h.getConfig
  | getConfigAsync =>
    show Tracked net r.getConfigAsync
    unfold getConfigAsync
    split
    · exact h.getConfig.getTunnelConfig
    · exact h.getConfig
  | setTunnelConfig config => exact h.start nofun
  | resume i =>
    simp only [step]
    simp only [InOrder] at hguard
    cases hget : r.running[i]? with
    | none => exact h
    | some co =>
      rw [hget] at hguard
      cases co with
      | load => exact h.load hget
      | save config => exact h.save hget hguard
      | onConfigChanged config seen =>
        have hseen : seen = r.saves := hguard
        subst hseen
        exact h.assign hget

/-- In every run that starts with a cached config as in the file and whose steps are in order, the
cached config has the contents of the file whenever all requests have finished. -/
theorem cacheAgrees_of_inOrder {config : Option (Config Addr)} {file : Text}
    (hinit : CacheAgrees net ⟨config, file, 0, []⟩) {actions : List (ConfigAction Addr)}
    (hguard : Runs.Guarded (step net) (InOrder net) ⟨config, file, 0, []⟩ actions) :
    ∀ r ∈ Runs.states (step net) ⟨config, file, 0, []⟩ actions,
      r.running = [] → CacheAgrees net r := by
  have hstart : Tracked net ⟨config, file, 0, []⟩ := ⟨nofun, nofun, .inl hinit⟩
  intro r hr hdone
  have htracked : Tracked net r := by
    have hkeep : ∀ r a, Tracked net r → InOrder net r a → Tracked net (step net r a) :=
      fun _ _ h hguard => tracked_step h hguard
    exact Runs.invariant_states hkeep hstart hguard r hr
  rcases htracked.cached with hagrees | ⟨c, hin⟩
  · exact hagrees
  · rw [hdone] at hin
    exact absurd hin List.not_mem_nil

def plainConfig : Config Bool :=
  ⟨⟨.empty, .empty, .empty, .empty, .empty, ⟨List.ofFn fun _ : Fin 32 => 0, rfl⟩, fun _ => none,
    fun _ => none⟩, []⟩

theorem plainConfig_survives : parse exampleNet
    (plainConfig.toAwgQuickString exampleNet) = .ok plainConfig := by
  apply Loops.eq_ok_of_toOption
  decide +kernel

theorem cacheAgrees_example : CacheAgrees exampleNet
    (Runs.run (step exampleNet) ⟨none, keyText, 0, []⟩
      [.setTunnelConfig plainConfig, .resume 0, .resume 0, .getConfigAsync]) := by
  have hsurvives : Holds exampleNet (plainConfig.toAwgQuickString exampleNet)
      plainConfig := ⟨_, plainConfig_survives, SameContents.refl _⟩
  refine cacheAgrees_of_inOrder (fun _ h => by cases h) ?_ _ (Runs.run_mem_states _ _ _) rfl
  exact ⟨trivial, hsurvives, rfl, trivial, trivial⟩

/-- The old config is loaded, a new one is saved and assigned, and then the old one is assigned. -/
theorem stale_config_assigned :
    let r := Runs.run (step exampleNet) ⟨none, keyText ++ "Jc = 4\n".toList, 0, []⟩
      [.getTunnelConfig, .resume 0, .setTunnelConfig plainConfig, .resume 0, .resume 0, .resume 0]
    r.running = [] ∧ parse exampleNet r.file = .ok plainConfig ∧
      ¬CacheAgrees exampleNet r := by
  intro r
  have hrun : r.running.isEmpty = true ∧
      r.file = plainConfig.toAwgQuickString exampleNet ∧
      r.config.map (fun c => c.interfaze.number .junkPacketCount) = some (some 4) := by
    decide +kernel
  obtain ⟨hdone, hfile, hold⟩ := hrun
  refine ⟨List.isEmpty_iff.1 hdone, by rw [hfile, plainConfig_survives], ?_⟩
  intro hagrees
  obtain ⟨c, hc, hjunk⟩ := Option.map_eq_some_iff.1 hold
  obtain ⟨c', hparse, hsame⟩ := hagrees c hc
  rw [hfile, plainConfig_survives] at hparse
  cases hparse
  have hnone := hsame.interfaze.number .junkPacketCount
  rw [hjunk] at hnone
  cases hnone

end ConfigRequests

end Amnezia.Model
