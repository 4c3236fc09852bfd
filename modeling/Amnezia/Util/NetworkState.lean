import Amnezia.Lib.Runs

/-!
# Network changes

`NetworkState` keeps one current network out of the reports of `ConnectivityManager` and posts
`onNetworkChange` events to the main queue.  The first report after a lost network is taken for the
first report of all, and a report from any network makes that network the current one.
-/

namespace Amnezia.Util

inductive NetworkType where
  | none
  | wifi
  | cellular
  | other
deriving DecidableEq, Repr

/-- What `NetworkState` asks a `NetworkCapabilities` object. -/
structure NetworkCapabilities where
  transportWifi : Bool
  transportCellular : Bool
  validated : Bool
deriving DecidableEq, Repr

def getNetworkType (capabilities : NetworkCapabilities) : NetworkType :=
  if capabilities.transportWifi then .wifi
  else if capabilities.transportCellular then .cellular
  else .other

@[simp]
theorem getNetworkType_ne_none (capabilities : NetworkCapabilities) :
    getNetworkType capabilities ≠ .none := by
  unfold getNetworkType
  split
  · decide
  · split <;> decide

/-- A task posted to the main queue.  When the same network becomes validated the old type is a
field, read only when the task runs. -/
inductive Posted where
  | changed (oldType newType : NetworkType)
  | validated (newType : NetworkType)
deriving DecidableEq, Repr

def Posted.newType : Posted → NetworkType
  | .changed _ newType => newType
  | .validated newType => newType

/-- The fields of the listener, and the events it has posted in order. -/
structure NetworkState (N : Type*) where
  currentNetwork : Option N := none
  currentNetworkType : NetworkType := .none
  validated : Bool := false
  posted : List Posted := []
deriving DecidableEq

namespace NetworkState

variable {N : Type*} [DecidableEq N]

def isConnected (s : NetworkState N) : Bool :=
  s.validated && s.currentNetworkType != .none

def checkNetworkState (s : NetworkState N) (network : N) (capabilities : NetworkCapabilities) :
    NetworkState N :=
  let newNetworkType := getNetworkType capabilities
  let isValidated := capabilities.validated
  match s.currentNetwork with
  | none =>
    -- also the branch of the first network reported after a loss: no event is posted
    { s with
      currentNetwork := some network
      currentNetworkType := newNetworkType
      validated := isValidated }
  | some currentNetwork =>
    if currentNetwork ≠ network ∨ s.currentNetworkType ≠ newNetworkType then
      let oldNetworkType := s.currentNetworkType
      let changed : NetworkState N :=
        { s with
          currentNetwork := some network
          currentNetworkType := newNetworkType
          validated := false }
      if isValidated then
        { changed with
          validated := true
          posted := s.posted ++ [.changed oldNetworkType newNetworkType] }
      else changed
    else if !s.validated && isValidated then
      { s with validated := true, posted := s.posted ++ [.validated newNetworkType] }
    else s

def onCapabilitiesChanged (s : NetworkState N) (network : N)
    (capabilities : NetworkCapabilities) : NetworkState N :=
  s.checkNetworkState network capabilities

def onLost (s : NetworkState N) (network : N) : NetworkState N :=
  if s.currentNetwork = some network then
    { currentNetwork := none
      currentNetworkType := .none
      validated := false
      posted := s.posted ++ [.changed s.currentNetworkType .none] }
  else s

inductive Callback (N : Type*) where
  | capabilitiesChanged (network : N) (capabilities : NetworkCapabilities)
  | lost (network : N)
deriving DecidableEq

def step (s : NetworkState N) : Callback N → NetworkState N
  | .capabilitiesChanged network capabilities => s.onCapabilitiesChanged network capabilities
  | .lost network => s.onLost network

theorem checkNetworkState_cases (s : NetworkState N) (network : N)
    (capabilities : NetworkCapabilities) :
    (s.currentNetwork = none ∧
      s.checkNetworkState network capabilities =
        ⟨some network, getNetworkType capabilities, capabilities.validated, s.posted⟩) ∨
    (∃ currentNetwork, s.currentNetwork = some currentNetwork ∧
      (currentNetwork ≠ network ∨ s.currentNetworkType ≠ getNetworkType capabilities) ∧
      s.checkNetworkState network capabilities =
        ⟨some network, getNetworkType capabilities, capabilities.validated,
          if capabilities.validated then
            s.posted ++ [.changed s.currentNetworkType (getNetworkType capabilities)]
          else s.posted⟩) ∨
    (s.currentNetwork = some network ∧ s.currentNetworkType = getNetworkType capabilities ∧
      s.validated = false ∧ capabilities.validated = true ∧
      s.checkNetworkState network capabilities =
        ⟨some network, getNetworkType capabilities, true,
          s.posted ++ [.validated (getNetworkType capabilities)]⟩) ∨
    (s.currentNetwork = some network ∧ s.currentNetworkType = getNetworkType capabilities ∧
      (capabilities.validated = true → s.validated = true) ∧
      s.checkNetworkState network capabilities = s) := by
  rcases s with ⟨_ | currentNetwork, currentType, validated, posted⟩
  · exact Or.inl ⟨rfl, rfl⟩
  · by_cases hchanged : currentNetwork ≠ network ∨ currentType ≠ getNetworkType capabilities
    · refine Or.inr (Or.inl ⟨currentNetwork, rfl, hchanged, ?_⟩)
      simp only [checkNetworkState, if_pos hchanged]
      cases capabilities.validated <;> rfl
    · obtain ⟨hnetwork, htype⟩ := not_or.1 hchanged
      have hsame : currentNetwork = network := not_not.1 hnetwork
      subst hsame
      have htype : currentType = getNetworkType capabilities := not_not.1 htype
      subst htype
      simp only [checkNetworkState, if_neg hchanged]
      cases validated <;> cases capabilities.validated <;> simp

/-- After every event for a lost network comes an event whose new type is a network. -/
def Answered (posted : List Posted) : Prop :=
  ∀ before e after, posted = before ++ e :: after → e.newType = .none →
    ∃ e' ∈ after, e'.newType ≠ .none

theorem answered_nil : Answered [] := by
  intro before e after h
  simp at h

theorem answered_append_singleton (posted : List Posted) (e : Posted) :
    Answered (posted ++ [e]) ↔ e.newType ≠ .none := by
  constructor
  · intro h hnone
    obtain ⟨e', he', -⟩ := h posted e [] rfl hnone
    exact List.not_mem_nil he'
  · intro hne before e' after heq hnone
    -- the loss is not the last event, so the last event stands after it
    rcases List.eq_nil_or_concat after with rfl | ⟨after', last, rfl⟩
    · have := List.append_inj_right' heq rfl
      rw [List.singleton_inj.1 this] at hne
      exact absurd hnone hne
    · have heq : posted ++ [e] = (before ++ e' :: after') ++ [last] := by simpa using heq
      have hlast := List.append_inj_right' heq rfl
      refine ⟨last, by simp, ?_⟩
      rwa [← List.singleton_inj.1 hlast]

/-- The listener without a network: nothing is known, and the last event told the loss. -/
structure Sound (s : NetworkState N) : Prop where
  validated_of_none : s.currentNetwork = none → s.validated = false
  type_of_some : s.currentNetwork ≠ none → s.currentNetworkType ≠ .none
  posted_of_none : s.currentNetwork = none →
    s.posted = [] ∨ ∃ before e, s.posted = before ++ [e] ∧ e.newType = .none

omit [DecidableEq N] in
theorem sound_empty : Sound ({} : NetworkState N) :=
  ⟨fun _ => rfl, fun h => absurd rfl h, fun _ => Or.inl rfl⟩

omit [DecidableEq N] in
theorem sound_some (network : N) {type : NetworkType} (h : type ≠ .none) (validated : Bool)
    (posted : List Posted) : Sound ⟨some network, type, validated, posted⟩ :=
  ⟨nofun, fun _ => h, nofun⟩

variable {s : NetworkState N}

theorem sound_onLost (h : s.Sound) (network : N) : (s.onLost network).Sound := by
  unfold onLost
  split
  · exact ⟨fun _ => rfl, fun hne => absurd rfl hne, fun _ => Or.inr ⟨s.posted, _, rfl, rfl⟩⟩
  · exact h

theorem sound_step (h : s.Sound) (callback : Callback N) : (s.step callback).Sound := by
  cases callback with
  | capabilitiesChanged network capabilities =>
    have htype := getNetworkType_ne_none capabilities
    rcases s.checkNetworkState_cases network capabilities with
      ⟨-, heq⟩ | ⟨-, -, -, heq⟩ | ⟨-, -, -, -, heq⟩ | ⟨-, -, -, heq⟩ <;>
      rw [step, onCapabilitiesChanged, heq]
    · exact sound_some _ htype _ _
    · exact sound_some _ htype _ _
    · exact sound_some _ htype _ _
    · exact h
  | lost network => exact sound_onLost h network

/-- A connected listener has told of a network since every loss it told of. -/
def Announced (s : NetworkState N) : Prop :=
  s.isConnected = true → Answered s.posted

/-- The first report after a lost network comes without the validated flag. -/
def ReturnsUnvalidated (s : NetworkState N) : Callback N → Prop
  | .capabilitiesChanged _ capabilities =>
    s.currentNetwork = none → (∃ e ∈ s.posted, e.newType = .none) → capabilities.validated = false
  | .lost _ => True

omit [DecidableEq N] in
theorem announced_of_validated_false (h : s.validated = false) : s.Announced := by
  intro hconnected
  simp [isConnected, h] at hconnected

omit [DecidableEq N] in
theorem answered_iff_of_none (h : s.Sound) (hnone : s.currentNetwork = none) :
    Answered s.posted ↔ ¬ ∃ e ∈ s.posted, e.newType = .none := by
  rcases h.posted_of_none hnone with hnil | ⟨before, e, heq, he⟩
  · simp [hnil, answered_nil]
  · rw [heq, answered_append_singleton]
    simp [he]

theorem announced_step_iff (h : s.Sound) (ha : s.Announced) (callback : Callback N) :
    (s.step callback).Announced ↔ s.ReturnsUnvalidated callback := by
  cases callback with
  | capabilitiesChanged network capabilities =>
    have htype := getNetworkType_ne_none capabilities
    rcases s.checkNetworkState_cases network capabilities with
      ⟨hnone, heq⟩ | ⟨current, hsome, -, heq⟩ | ⟨hsome, -, -, -, heq⟩ | ⟨hsome, -, -, heq⟩ <;>
      rw [step, onCapabilitiesChanged, heq]
    · simp only [Announced, isConnected, ReturnsUnvalidated, answered_iff_of_none h hnone, hnone]
      cases capabilities.validated <;> simp [htype]
    · -- another network: validated and told, or neither
      refine iff_of_true ?_ (fun hnone => by simp [hsome] at hnone)
      cases capabilities.validated with
      | false => exact announced_of_validated_false rfl
      | true => exact fun _ => (answered_append_singleton _ _).2 htype
    · exact iff_of_true (fun _ => (answered_append_singleton _ _).2 htype)
        (fun hnone => by simp [hsome] at hnone)
    · exact iff_of_true ha (fun hnone => by simp [hsome] at hnone)
  | lost network =>
    refine iff_of_true ?_ trivial
    show (s.onLost network).Announced
    unfold onLost
    split
    · exact announced_of_validated_false rfl
    · exact ha

/-- Whenever the listener is connected it has posted an event for a network after every event for a
lost one, exactly in the runs in which every first report after a loss is still unvalidated. -/
theorem announced_iff_returnsUnvalidated (callbacks : List (Callback N)) :
    (∀ s ∈ Runs.states step {} callbacks, s.Announced) ↔
      Runs.Guarded step ReturnsUnvalidated ({} : NetworkState N) callbacks := by
  have hkeep : ∀ (s : NetworkState N) callback, s.Sound → (s.step callback).Sound :=
    fun _ callback h => sound_step h callback
  have hsound := Runs.invariant_states_of_step hkeep sound_empty callbacks
  have hstep : ∀ (s : NetworkState N) callback, s.Sound ∧ s.Announced →
      ((s.step callback).Sound ∧ (s.step callback).Announced ↔ s.ReturnsUnvalidated callback) := by
    intro s callback ⟨h, ha⟩
    rw [and_iff_right (sound_step h callback)]
    exact announced_step_iff h ha callback
  rw [← Runs.states_iff_guarded hstep ⟨sound_empty, announced_of_validated_false rfl⟩ callbacks]
  exact forall₂_congr fun s hs => (and_iff_right (hsound s hs)).symm

/-- A validated wifi network is lost and comes back already validated. -/
theorem not_announced_after_loss :
    ¬ ∀ s ∈ Runs.states step ({} : NetworkState Nat)
      [.capabilitiesChanged 0 ⟨true, false, true⟩, .lost 0,
        .capabilitiesChanged 0 ⟨true, false, true⟩], s.Announced := by
  intro h
  have hlast := h _ (Runs.run_mem_states step _ _) rfl
  obtain ⟨e, he, -⟩ := hlast [] (.changed .wifi .none) [] rfl rfl
  exact List.not_mem_nil he

def report (reports : N → Option (NetworkType × Bool)) :
    Callback N → N → Option (NetworkType × Bool)
  | .capabilitiesChanged network capabilities =>
    Function.update reports network (some (getNetworkType capabilities, capabilities.validated))
  | .lost network => Function.update reports network none

def Current (s : NetworkState N) (reports : N → Option (NetworkType × Bool)) : Prop :=
  ∀ network, s.currentNetwork = some network →
    ∃ isValidated, reports network = some (s.currentNetworkType, isValidated) ∧
      (isValidated = true → s.validated = true)

theorem current_step {reports : N → Option (NetworkType × Bool)} (h : s.Current reports)
    (callback : Callback N) : (s.step callback).Current (report reports callback) := by
  cases callback with
  | capabilitiesChanged network capabilities =>
    rcases s.checkNetworkState_cases network capabilities with
      ⟨-, heq⟩ | ⟨-, -, -, heq⟩ | ⟨-, -, -, -, heq⟩ | ⟨hsome, htype, hvalidated, heq⟩ <;>
      rw [step, onCapabilitiesChanged, heq] <;> intro n hn
    · obtain rfl : network = n := by simpa using hn
      exact ⟨capabilities.validated, by simp [report], id⟩
    · obtain rfl : network = n := by simpa using hn
      exact ⟨capabilities.validated, by simp [report], id⟩
    · obtain rfl : network = n := by simpa using hn
      exact ⟨capabilities.validated, by simp [report], fun _ => rfl⟩
    · obtain rfl : network = n := Option.some.inj (hsome.symm.trans hn)
      exact ⟨capabilities.validated, by simp [report, htype], hvalidated⟩
  | lost network =>
    show (s.onLost network).Current _
    unfold onLost
    split
    · exact nofun
    · rename_i hother
      intro n hn
      have hne : n ≠ network := by
        rintro rfl
        exact hother hn
      obtain ⟨isValidated, hreport, hvalidated⟩ := h n hn
      exact ⟨isValidated, by rw [report, Function.update_of_ne hne, hreport], hvalidated⟩

theorem current_run (callbacks : List (Callback N)) :
    (Runs.run step ({} : NetworkState N) callbacks).Current
      (Runs.run report (fun _ => none) callbacks) := by
  suffices ∀ (s : NetworkState N) reports, s.Current reports →
      (Runs.run step s callbacks).Current (Runs.run report reports callbacks) from
    this {} _ (fun network h => by simp at h)
  induction callbacks with
  | nil => exact fun _ _ h => h
  | cons callback callbacks ih =>
    exact fun s reports h => ih _ _ (current_step h callback)

/-- The report of a network that is available, with the type and the flag it last reported, posts
nothing exactly when it is not validated or no other network is the current one. -/
theorem redelivery_posts_nothing_iff (callbacks : List (Callback N)) (network : N)
    (capabilities : NetworkCapabilities)
    (hreport : Runs.run report (fun _ => none) callbacks network =
      some (getNetworkType capabilities, capabilities.validated)) :
    let s := Runs.run step ({} : NetworkState N) callbacks
    (s.step (.capabilitiesChanged network capabilities)).posted = s.posted ↔
      capabilities.validated = false ∨ s.currentNetwork = none ∨
        s.currentNetwork = some network := by
  intro s
  have hcurrent : s.Current (Runs.run report (fun _ => none) callbacks) := current_run callbacks
  rcases s.checkNetworkState_cases network capabilities with
    ⟨hnone, heq⟩ | ⟨current, hsome, hchanged, heq⟩ | ⟨hsome, -, hfalse, htrue, heq⟩ |
      ⟨hsome, -, -, heq⟩ <;>
    rw [step, onCapabilitiesChanged, heq]
  · simp [hnone]
  · -- the type agrees with the last report, so it is the network that differs
    have hne : current ≠ network := by
      rintro rfl
      obtain ⟨_, hlast, -⟩ := hcurrent current hsome
      rw [hreport, Option.some_inj, Prod.mk.injEq] at hlast
      simp [hlast.1] at hchanged
    cases capabilities.validated <;> simp [hsome, hne]
  · -- the last report was validated, so the listener is
    obtain ⟨_, hlast, hvalidated⟩ := hcurrent network hsome
    rw [hreport, Option.some_inj, Prod.mk.injEq] at hlast
    rw [hvalidated (hlast.2 ▸ htrue)] at hfalse
    contradiction
  · simp [hsome]

/-- Wifi and cellular are both available and validated, and wifi reports again. -/
theorem redelivery_posts :
    let callbacks : List (Callback Nat) :=
      [.capabilitiesChanged 0 ⟨true, false, true⟩, .capabilitiesChanged 1 ⟨false, true, true⟩]
    let s := Runs.run step ({} : NetworkState Nat) callbacks
    Runs.run report (fun _ => none) callbacks 0 = some (.wifi, true) ∧
      (s.step (.capabilitiesChanged 0 ⟨true, false, true⟩)).posted =
        s.posted ++ [.changed .cellular .wifi] := by
  decide

/-- Of the same two networks, cellular, which is the current one, reports again. -/
theorem redelivery_posts_nothing_current :
    let s := Runs.run step ({} : NetworkState Nat)
      [.capabilitiesChanged 0 ⟨true, false, true⟩, .capabilitiesChanged 1 ⟨false, true, true⟩]
    (s.step (.capabilitiesChanged 1 ⟨false, true, true⟩)).posted = s.posted :=
  (redelivery_posts_nothing_iff [.capabilitiesChanged 0 ⟨true, false, true⟩,
    .capabilitiesChanged 1 ⟨false, true, true⟩] 1 ⟨false, true, true⟩ (by decide)).2
    (Or.inr (Or.inr (by decide)))

end NetworkState

end Amnezia.Util
