import Mathlib.Logic.Function.Basic
import Amnezia.Backend.WgGo
import Amnezia.Lib.Runs

/-!
# libwg-go — what a tunnel holds

The descriptors and objects that `awgTurnOn` acquires, and where it and `awgTurnOff` let go of them.
The descriptor of the tun device comes with the call; from `NewDevice` on it belongs to the device,
and `Device.Close` closes it.  A constructor that fails acquires nothing.  Each call has a ledger of
its own, under its number.
-/

namespace Amnezia.Backend.WgGo

inductive Resource where
  | tun
  | device
  | uapiFile
  | uapi
  deriving DecidableEq, Repr

/-- What was acquired and what was closed during the life of a tunnel, in order. -/
structure Ledger where
  opened : List Resource
  closed : List Resource
  deriving DecidableEq, Repr

namespace Ledger

def acquire (l : Ledger) (r : Resource) : Ledger := { l with opened := l.opened ++ [r] }

def close (l : Ledger) (r : Resource) : Ledger := { l with closed := l.closed ++ [r] }

def closeFile (l : Ledger) (uapiFile : Bool) : Ledger :=
  if uapiFile = true ∧ .uapiFile ∉ l.closed then l.close .uapiFile else l

def closeDevice (l : Ledger) : Ledger := (l.close .device).close .tun

def Released (l : Ledger) : Prop := (∀ r ∈ l.opened, r ∈ l.closed) ∧ l.closed.count .tun = 1

instance (l : Ledger) : Decidable l.Released := inferInstanceAs (Decidable (_ ∧ _))

end Ledger

/-- A device, by its settings and the number of the call that created it. -/
structure Device (C : Type) where
  settings : C
  number : Nat

structure Library (C : Type) where
  tunnelHandles : TunnelHandles (Device C)
  /-- How often `awgTurnOn` was called. -/
  calls : Nat
  /-- The ledger of each call. -/
  ledger : Nat → Ledger

namespace Library

variable {C : Type}

def initial : Library C := ⟨∅, 0, fun _ => ⟨[], []⟩⟩

def openUapi (d : DeviceSteps) (l : Ledger) : Bool × Bool × Ledger :=
  if ¬d.uapiOpen then (false, false, l)
  else if ¬d.uapiListen then (true, false, (l.acquire .uapiFile).closeFile true)
  else (true, true, (l.acquire .uapiFile).acquire .uapi)

def leave (s : Library C) (l : Ledger) : Library C :=
  { s with calls := s.calls + 1, ledger := Function.update s.ledger s.calls l }

def called : Ledger := ⟨[.tun], []⟩

def awgTurnOn (s : Library C) (d : DeviceSteps) (settings : C) : Int × Library C :=
  let l := called
  if ¬d.createTun then (-1, s.leave (l.close .tun))
  else
    let l := l.acquire .device
    if ¬d.ipcSet then (-1, s.leave (l.close .tun))
    else
      let (uapiFile, uapi, l) := openUapi d l
      if ¬d.deviceUp then (-1, s.leave (l.closeFile uapiFile).closeDevice)
      else
        let i := freeHandle s.tunnelHandles maxInt32 0
        if i = maxInt32 then (-1, s.leave (l.closeFile uapiFile).closeDevice)
        else
          (i, { s.leave l with
            tunnelHandles := s.tunnelHandles.insert i ⟨⟨settings, s.calls⟩, uapi⟩ })

def closeHandle (l : Ledger) (uapi : Bool) : Ledger :=
  (if uapi then l.close .uapi else l).closeDevice

def awgTurnOff (s : Library C) (tunnelHandle : Int) : Library C :=
  match s.tunnelHandles.lookup tunnelHandle with
  | none => s
  | some handle =>
    { s with
      tunnelHandles := s.tunnelHandles.erase tunnelHandle
      ledger := Function.update s.ledger handle.device.number
        (closeHandle (s.ledger handle.device.number) handle.uapi) }

-- Without the ledgers both are the functions of the handles.
theorem awgTurnOn_handles (s : Library C) (d : DeviceSteps) (settings : C) :
    ((s.awgTurnOn d settings).1, (s.awgTurnOn d settings).2.tunnelHandles) =
      WgGo.awgTurnOn d s.tunnelHandles ⟨settings, s.calls⟩ := by
  obtain ⟨createTun, ipcSet, uapiOpen, uapiListen, deviceUp⟩ := d
  unfold awgTurnOn WgGo.awgTurnOn openUapi leave
  by_cases hfull : freeHandle s.tunnelHandles maxInt32 0 = maxInt32
  · cases createTun <;> cases ipcSet <;> cases deviceUp <;> simp [hfull]
  · cases createTun <;> cases ipcSet <;> cases deviceUp <;> cases uapiOpen <;> cases uapiListen <;>
      simp [hfull]

theorem awgTurnOff_handles (s : Library C) (tunnelHandle : Int) :
    (s.awgTurnOff tunnelHandle).tunnelHandles = WgGo.awgTurnOff s.tunnelHandles tunnelHandle := by
  unfold awgTurnOff WgGo.awgTurnOff
  split
  · next hnone =>
    exact (AList.ext (List.kerase_of_notMem_keys (AList.lookup_eq_none.1 hnone))).symm
  · rfl

inductive Call (C : Type) where
  | turnOn (d : DeviceSteps) (settings : C)
  | turnOff (tunnelHandle : Int)

def step (s : Library C) : Call C → Library C
  | .turnOn d settings => (s.awgTurnOn d settings).2
  | .turnOff tunnelHandle => s.awgTurnOff tunnelHandle

/-- What is to hold of a call of `awgTurnOn`: if it fails it has let go of everything; otherwise the
handle is new, and turning it off, whatever was called in between, lets go of everything. -/
structure Releases (s : Library C) (d : DeviceSteps) (settings : C) : Prop where
  failed : (s.awgTurnOn d settings).1 = -1 →
    ((s.awgTurnOn d settings).2.ledger s.calls).Released ∧
      (s.awgTurnOn d settings).2.tunnelHandles = s.tunnelHandles
  returned : (s.awgTurnOn d settings).1 ≠ -1 →
    0 ≤ (s.awgTurnOn d settings).1 ∧ (s.awgTurnOn d settings).1 ∉ s.tunnelHandles ∧
      ∀ between : List (Call C), (∀ call ∈ between, call ≠ .turnOff (s.awgTurnOn d settings).1) →
        (((Runs.run step (s.awgTurnOn d settings).2 between).awgTurnOff
          (s.awgTurnOn d settings).1).ledger s.calls).Released

/-- The descriptor is no tun device, or the settings are accepted and there is no UAPI listener. -/
def NoLeak (d : DeviceSteps) : Prop :=
  d.createTun = false ∨ d.ipcSet = true ∧ ¬(d.uapiOpen = true ∧ d.uapiListen = true)

instance (d : DeviceSteps) : Decidable (NoLeak d) := inferInstanceAs (Decidable (_ ∨ _))

variable {d : DeviceSteps}

-- without a device only the descriptor is there, and with one that was not configured it stays open
theorem released_not_created (h : d.createTun = false) : (called.close .tun).Released ↔ NoLeak d :=
  ⟨fun _ => .inl h, fun _ => by decide⟩

theorem released_not_configured (hcreate : d.createTun = true) (h : d.ipcSet = false) :
    ((called.acquire .device).close .tun).Released ↔ NoLeak d := by
  constructor
  · intro hreleased
    exact absurd hreleased (by decide)
  · rintro (hnot | ⟨hset, -⟩)
    · rw [hcreate] at hnot
      cases hnot
    · rw [h] at hset
      cases hset

-- a listener is closed by no failing path, and its file by no other call
theorem released_closed (hcreate : d.createTun = true) (hset : d.ipcSet = true) :
    (((openUapi d (called.acquire .device)).2.2.closeFile
        (openUapi d (called.acquire .device)).1).closeDevice.Released ↔ NoLeak d) ∧
      ((closeHandle (openUapi d (called.acquire .device)).2.2
        (openUapi d (called.acquire .device)).2.1).Released ↔ NoLeak d) := by
  obtain ⟨createTun, ipcSet, uapiOpen, uapiListen, deviceUp⟩ := d
  cases hcreate
  cases hset
  cases deviceUp
  · cases uapiOpen <;> cases uapiListen <;> decide
  · cases uapiOpen <;> cases uapiListen <;> decide

theorem awgTurnOn_cases (s : Library C) (d : DeviceSteps) (settings : C) :
    (∃ l : Ledger, (l.Released ↔ NoLeak d) ∧ s.awgTurnOn d settings = (-1, s.leave l)) ∨
      ∃ (i : Int) (uapi : Bool) (l : Ledger), 0 ≤ i ∧ i ∉ s.tunnelHandles ∧
        ((closeHandle l uapi).Released ↔ NoLeak d) ∧
        s.awgTurnOn d settings = (i, { s.leave l with
          tunnelHandles := s.tunnelHandles.insert i ⟨⟨settings, s.calls⟩, uapi⟩ }) := by
  unfold awgTurnOn
  cases hcreate : d.createTun with
  | false => exact .inl ⟨_, released_not_created hcreate, rfl⟩
  | true =>
    cases hset : d.ipcSet with
    | false => exact .inl ⟨_, released_not_configured hcreate hset, rfl⟩
    | true =>
      obtain ⟨hfailed, hoff⟩ := released_closed hcreate hset
      cases hup : d.deviceUp with
      | false => exact .inl ⟨_, hfailed, rfl⟩
      | true =>
        simp only [not_true_eq_false, if_false]
        by_cases hfull : freeHandle s.tunnelHandles maxInt32 0 = maxInt32
        · rw [if_pos hfull]
          exact .inl ⟨_, hfailed, rfl⟩
        · obtain ⟨hle, hfree⟩ := freeHandle_spec s.tunnelHandles maxInt32 0
          have hnew := hfree.resolve_left fun h => hfull (by omega)
          rw [if_neg hfull]
          exact .inr ⟨_, _, _, hle, hnew, hoff, rfl⟩

/-- Each handle has a device of its own, from an earlier call. -/
structure Distinct (s : Library C) : Prop where
  earlier : ∀ h handle, s.tunnelHandles.lookup h = some handle → handle.device.number < s.calls
  injective : ∀ h h' handle handle', s.tunnelHandles.lookup h = some handle →
    s.tunnelHandles.lookup h' = some handle' → handle.device.number = handle'.device.number → h = h'

theorem distinct_initial : (initial : Library C).Distinct := by
  constructor
  · intro h handle hlookup
    cases hlookup
  · intro h h' handle handle' hlookup
    cases hlookup

variable {s : Library C}

theorem Distinct.leave (h : s.Distinct) (l : Ledger) : (s.leave l).Distinct where
  earlier k handle hlookup := Nat.lt_succ_of_lt (h.earlier k handle hlookup)
  injective := h.injective

variable {handle : TunnelHandle (Device C)} {h : Int}

theorem lookup_insert_cases {handles : TunnelHandles (Device C)} {i : Int}
    {new : TunnelHandle (Device C)} (hlookup : (handles.insert i new).lookup h = some handle) :
    (h = i ∧ handle = new) ∨ (h ≠ i ∧ handles.lookup h = some handle) := by
  by_cases hi : h = i
  · subst hi
    rw [AList.lookup_insert] at hlookup
    exact .inl ⟨rfl, (Option.some.inj hlookup).symm⟩
  · rw [AList.lookup_insert_ne hi] at hlookup
    exact .inr ⟨hi, hlookup⟩

theorem lookup_erase_some {handles : TunnelHandles (Device C)} {i : Int}
    (hlookup : (handles.erase i).lookup h = some handle) : handles.lookup h = some handle := by
  by_cases hi : h = i
  · rw [hi, AList.lookup_erase] at hlookup
    cases hlookup
  · rwa [AList.lookup_erase_ne hi] at hlookup

theorem distinct_step (h : s.Distinct) (call : Call C) : (step s call).Distinct := by
  cases call with
  | turnOn d settings =>
    simp only [step]
    rcases awgTurnOn_cases s d settings with ⟨l, -, heq⟩ | ⟨i, uapi, l, -, -, -, heq⟩
    · rw [heq]
      exact h.leave l
    · rw [heq]
      constructor
      · intro k handle hlookup
        rcases lookup_insert_cases hlookup with ⟨-, rfl⟩ | ⟨-, hold⟩
        · exact Nat.lt_succ_self s.calls
        · exact Nat.lt_succ_of_lt (h.earlier k handle hold)
      · intro k k' handle handle' hlookup hlookup' hnumber
        rcases lookup_insert_cases hlookup with ⟨rfl, rfl⟩ | ⟨-, hold⟩
        · rcases lookup_insert_cases hlookup' with ⟨rfl, rfl⟩ | ⟨-, hold'⟩
          · rfl
          · have hlt := h.earlier k' handle' hold'
            simp only at hnumber
            omega
        · rcases lookup_insert_cases hlookup' with ⟨rfl, rfl⟩ | ⟨-, hold'⟩
          · have hlt := h.earlier k handle hold
            simp only at hnumber
            omega
          · exact h.injective k k' handle handle' hold hold' hnumber
  | turnOff tunnelHandle =>
    simp only [step, awgTurnOff]
    cases hoff : s.tunnelHandles.lookup tunnelHandle with
    | none => exact h
    | some off =>
      constructor
      · intro k handle hlookup
        exact h.earlier k handle (lookup_erase_some hlookup)
      · intro k k' handle handle' hlookup hlookup'
        exact h.injective k k' handle handle' (lookup_erase_some hlookup)
          (lookup_erase_some hlookup')

/-- The handle is in use and its call has this ledger. -/
structure Holds (s : Library C) (h : Int) (handle : TunnelHandle (Device C)) (l : Ledger) : Prop where
  distinct : s.Distinct
  lookup : s.tunnelHandles.lookup h = some handle
  ledger : s.ledger handle.device.number = l

variable {l : Ledger}

theorem Holds.step (hs : s.Holds h handle l) {call : Call C} (hcall : call ≠ .turnOff h) :
    (step s call).Holds h handle l := by
  refine ⟨distinct_step hs.distinct call, ?_, ?_⟩
  · cases call with
    | turnOn d settings =>
      simp only [Library.step]
      rcases awgTurnOn_cases s d settings with ⟨l, -, heq⟩ | ⟨i, uapi, l, -, hnew, -, heq⟩
      · rw [heq]
        exact hs.lookup
      · have hi : h ≠ i := by
          rintro rfl
          exact hnew (AList.lookup_isSome.mp (Option.isSome_iff_exists.mpr ⟨handle, hs.lookup⟩))
        rw [heq]
        exact (AList.lookup_insert_ne hi).trans hs.lookup
    | turnOff k =>
      have hk : h ≠ k := fun heq => hcall (congrArg Call.turnOff heq.symm)
      simp only [Library.step, awgTurnOff]
      split
      · exact hs.lookup
      · exact (AList.lookup_erase_ne hk).trans hs.lookup
  · cases call with
    | turnOn d settings =>
      have hnumber : handle.device.number ≠ s.calls :=
        Nat.ne_of_lt (hs.distinct.earlier h handle hs.lookup)
      simp only [Library.step]
      rcases awgTurnOn_cases s d settings with ⟨l, -, heq⟩ | ⟨i, uapi, l, -, -, -, heq⟩
      · rw [heq]
        exact (Function.update_of_ne hnumber _ _).trans hs.ledger
      · rw [heq]
        exact (Function.update_of_ne hnumber _ _).trans hs.ledger
    | turnOff k =>
      have hk : h ≠ k := fun heq => hcall (congrArg Call.turnOff heq.symm)
      simp only [Library.step, awgTurnOff]
      split
      · exact hs.ledger
      · rename_i other hother
        have hnumber : handle.device.number ≠ other.device.number :=
          fun heq => hk (hs.distinct.injective h k handle other hs.lookup hother heq)
        exact (Function.update_of_ne hnumber _ _).trans hs.ledger

theorem Holds.run (hs : s.Holds h handle l) {calls : List (Call C)}
    (hcalls : ∀ call ∈ calls, call ≠ .turnOff h) :
    (Runs.run Library.step s calls).Holds h handle l := by
  induction calls generalizing s with
  | nil => exact hs
  | cons call calls ih =>
    rw [Runs.run_cons]
    exact ih (hs.step (hcalls call List.mem_cons_self))
      fun call' hcall' => hcalls call' (List.mem_cons_of_mem call hcall')

theorem Holds.ledger_awgTurnOff (hs : s.Holds h handle l) :
    (s.awgTurnOff h).ledger handle.device.number = closeHandle l handle.uapi := by
  unfold awgTurnOff
  rw [hs.lookup, ← hs.ledger]
  exact Function.update_self _ _ _

/-- Whatever was called before, a call of `awgTurnOn` lets go of what it acquired, at once or with the
handle, exactly when no step leaves something that no one closes. -/
theorem releases_iff (before : List (Call C)) (d : DeviceSteps) (settings : C) :
    (Runs.run step initial before).Releases d settings ↔ NoLeak d := by
  have hstep : ∀ (s : Library C) call, s.Distinct → (step s call).Distinct :=
    fun _ call h => distinct_step h call
  have hdistinct := Runs.invariant_states_of_step hstep distinct_initial before _
    (Runs.run_mem_states step initial before)
  generalize Runs.run step initial before = s at hdistinct
  rcases awgTurnOn_cases s d settings with ⟨l, hl, heq⟩ | ⟨i, uapi, l, hle, hnew, hl, heq⟩
  · -- the call fails
    have hledger : (s.leave l).ledger s.calls = l := Function.update_self _ _ _
    constructor
    · intro h
      have hreleased := (h.failed (by rw [heq])).1
      rw [heq, hledger] at hreleased
      exact hl.mp hreleased
    · intro h
      constructor
      · intro _
        rw [heq, hledger]
        exact ⟨hl.mpr h, rfl⟩
      · intro hne
        rw [heq] at hne
        exact absurd rfl hne
  · -- the call returns a handle
    have hne : (s.awgTurnOn d settings).1 ≠ -1 := by
      rw [heq]
      simp only
      omega
    have hholds : (s.awgTurnOn d settings).2.Holds i ⟨⟨settings, s.calls⟩, uapi⟩ l := by
      refine ⟨distinct_step hdistinct (.turnOn d settings), ?_, ?_⟩
      · rw [heq]
        exact AList.lookup_insert _
      · rw [heq]
        exact Function.update_self _ _ _
    have hfirst : (s.awgTurnOn d settings).1 = i := by rw [heq]
    constructor
    · intro h
      have hreleased := (h.returned hne).2.2 [] (fun _ hcall => absurd hcall List.not_mem_nil)
      rw [hfirst, Runs.run_nil, hholds.ledger_awgTurnOff] at hreleased
      exact hl.mp hreleased
    · intro h
      refine ⟨fun hfailed => absurd hfailed hne, fun _ => ?_⟩
      rw [hfirst]
      refine ⟨hle, hnew, ?_⟩
      intro between hbetween
      rw [(hholds.run hbetween).ledger_awgTurnOff]
      exact hl.mpr h

/-- Settings that are refused leave the device; a device that does not come up leaves the listener;
a tunnel that was turned on and off leaves the file of its socket. -/
theorem awgTurnOn_leaks :
    ((initial : Library Unit).awgTurnOn ⟨true, false, true, true, true⟩ ()).1 = -1 ∧
      ((initial : Library Unit).awgTurnOn ⟨true, false, true, true, true⟩ ()).2.ledger 0 =
        ⟨[.tun, .device], [.tun]⟩ ∧
      ¬(initial : Library Unit).Releases ⟨true, false, true, true, true⟩ () ∧
    ((initial : Library Unit).awgTurnOn ⟨true, true, true, true, false⟩ ()).1 = -1 ∧
      ((initial : Library Unit).awgTurnOn ⟨true, true, true, true, false⟩ ()).2.ledger 0 =
        ⟨[.tun, .device, .uapiFile, .uapi], [.uapiFile, .device, .tun]⟩ ∧
      ¬(initial : Library Unit).Releases ⟨true, true, true, true, false⟩ () ∧
    ((initial : Library Unit).awgTurnOn ⟨true, true, true, true, true⟩ ()).1 = 0 ∧
      (((initial : Library Unit).awgTurnOn ⟨true, true, true, true, true⟩ ()).2.awgTurnOff 0).ledger
        0 = ⟨[.tun, .device, .uapiFile, .uapi], [.uapi, .device, .tun]⟩ ∧
      ¬(initial : Library Unit).Releases ⟨true, true, true, true, true⟩ () := by
  refine ⟨by decide, by decide, ?_, by decide, by decide, ?_, by decide +kernel, by decide +kernel, ?_⟩
  · intro h
    exact absurd (h.failed (by decide)).1 (by decide)
  · intro h
    exact absurd (h.failed (by decide)).1 (by decide)
  · intro h
    have hreleased := (h.returned (by decide +kernel)).2.2 [] nofun
    exact absurd hreleased (by decide +kernel)

end Library

end Amnezia.Backend.WgGo
