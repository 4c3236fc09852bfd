import Mathlib.Data.List.AList
import Mathlib.Tactic.Common

/-!
# libwg-go — the handles of the userspace devices

`awgTurnOn` and `awgTurnOff` of `api-android.go`: a map from 32-bit handles to running devices.
What the device library answers is given; the search for a free handle is the loop of the source.
-/

namespace Amnezia.Backend

/-- A device, known by the settings it was configured with, and whether it has a UAPI listener. -/
structure TunnelHandle (C : Type*) where
  device : C
  uapi : Bool

abbrev TunnelHandles (C : Type*) := AList (fun _ : Int => TunnelHandle C)

/-- Whether each fallible step of `awgTurnOn` succeeds. -/
structure DeviceSteps where
  createTun : Bool
  ipcSet : Bool
  uapiOpen : Bool
  uapiListen : Bool
  deviceUp : Bool
  deriving DecidableEq, Repr

/-- The steps without which `awgTurnOn` gives up; a missing UAPI socket is only logged. -/
def DeviceSteps.Succeed (d : DeviceSteps) : Prop :=
  d.createTun = true ∧ d.ipcSet = true ∧ d.deviceUp = true

instance (d : DeviceSteps) : Decidable d.Succeed := inferInstanceAs (Decidable (_ ∧ _))

namespace WgGo

variable {C : Type*}

def maxInt32 : Nat := 2147483647

/-- The loop looking for a handle that is not in use, with at most `n` handles left to try. -/
def freeHandle (handles : TunnelHandles C) : Nat → Int → Int
  | 0, i => i
  | n + 1, i => if i ∈ handles then freeHandle handles n (i + 1) else i

def awgTurnOn (d : DeviceSteps) (handles : TunnelHandles C) (settings : C) :
    Int × TunnelHandles C :=
  if ¬d.createTun then (-1, handles)
  else if ¬d.ipcSet then (-1, handles)
  else if ¬d.deviceUp then (-1, handles)
  else
    let i := freeHandle handles maxInt32 0
    if i = maxInt32 then (-1, handles)
    else (i, handles.insert i ⟨settings, d.uapiOpen && d.uapiListen⟩)

def awgTurnOff (handles : TunnelHandles C) (tunnelHandle : Int) : TunnelHandles C :=
  handles.erase tunnelHandle

theorem freeHandle_spec (handles : TunnelHandles C) (n : Nat) (i : Int) :
    i ≤ freeHandle handles n i ∧
      (freeHandle handles n i = i + n ∨ freeHandle handles n i ∉ handles) := by
  induction n generalizing i with
  | zero => simp [freeHandle]
  | succ n ih =>
    unfold freeHandle
    split
    · obtain ⟨hle, hfree⟩ := ih (i + 1)
      refine ⟨by omega, ?_⟩
      cases hfree with
      | inl hlast => left; rw [hlast]; push_cast; omega
      | inr hfree => right; exact hfree
    · rename_i hfree
      exact ⟨Int.le_refl i, .inr hfree⟩

/-- Turning a device on fails with -1 and keeps the map, or adds one new handle. -/
theorem awgTurnOn_cases (d : DeviceSteps) (handles : TunnelHandles C) (settings : C) :
    awgTurnOn d handles settings = (-1, handles) ∨
      ∃ i, 0 ≤ i ∧ i ∉ handles ∧ d.Succeed ∧ awgTurnOn d handles settings =
        (i, handles.insert i ⟨settings, d.uapiOpen && d.uapiListen⟩) := by
  by_cases hsteps : d.Succeed
  · obtain ⟨htun, hipc, hup⟩ := id hsteps
    simp only [awgTurnOn, htun, hipc, hup, not_true_eq_false, if_false]
    split
    · exact .inl rfl
    · rename_i hlast
      obtain ⟨hle, hfree⟩ := freeHandle_spec handles maxInt32 0
      have hnew : freeHandle handles maxInt32 0 ∉ handles :=
        hfree.resolve_left fun h => hlast (by omega)
      exact .inr ⟨_, hle, hnew, hsteps, rfl⟩
  · left
    unfold awgTurnOn
    unfold DeviceSteps.Succeed at hsteps
    split
    · rfl
    · split
      · rfl
      · split
        · rfl
        · exfalso; simp_all

theorem awgTurnOn_empty {d : DeviceSteps} (hsteps : d.Succeed) (settings : C) :
    awgTurnOn d ∅ settings =
      (0, (∅ : TunnelHandles C).insert 0 ⟨settings, d.uapiOpen && d.uapiListen⟩) := by
  obtain ⟨htun, hipc, hup⟩ := hsteps
  have hfree : freeHandle (∅ : TunnelHandles C) maxInt32 0 = 0 := by
    rw [show maxInt32 = 2147483646 + 1 from rfl, freeHandle, if_neg (AList.notMem_empty _)]
  simp only [awgTurnOn, htun, hipc, hup, hfree, not_true_eq_false, if_false]
  rfl

end WgGo

end Amnezia.Backend
