import Amnezia.ConfigStore.FileConfigStore
import Amnezia.Model.TunnelRequests

/-!
# The names that the requests work with

The set of names in the model of `TunnelManager`'s requests is what `FileConfigStore` makes of the
files, as long as the file system does what it is asked for.
-/

namespace Amnezia.ConfigStore

open Java (Directory createNewFile renameTo write)
open Config (Net)
open Model (Manager Thrown)

variable {Addr C : Type} {net : Net Addr} {m : Manager C} {d : Directory}

/-- `save` is not part of a request, and keeps the names. -/
def namesStep (m : Manager C) : Operation Addr → Except Thrown (Manager C)
  | .create name _ => m.storeCreate name
  | .delete name => m.storeDelete name
  | .rename name replacement => m.storeRename name replacement
  | .save name _ => if name ∈ m.store then .ok m else .error .missingConfig

def namesAfter (m : Manager C) (op : Operation Addr) : Option Thrown × Manager C :=
  match namesStep m op with
  | .ok m' => (none, m')
  | .error e => (some e, m)

def filesAfter (net : Net Addr) (d : Directory) (op : Operation Addr) :
    Option StoreException × Directory :=
  perform net d (op, {})

def ToAnother (op : Operation Addr) : Prop :=
  ∀ name replacement, op = .rename name replacement → name ≠ replacement

theorem step_agrees (h : m.store = enumerate d) {op : Operation Addr} (hop : ToAnother op) :
    (namesAfter m op).1.isSome = (filesAfter net d op).1.isSome ∧
      (namesAfter m op).2.store = enumerate (filesAfter net d op).2 := by
  have hmem : ∀ n, n ∈ m.store ↔ fileFor n ∈ d := by
    intro n
    rw [h, mem_enumerate]
  unfold namesAfter filesAfter namesStep perform
  rw [Finset.ext_iff]
  simp only [mem_enumerate]
  cases op with
  | create name config =>
    by_cases hd : fileFor name ∈ d <;>
      simp [create, createNewFile, write, outcome, Manager.storeCreate, hmem, hd, fileFor_inj]
  | delete name =>
    by_cases hd : fileFor name ∈ d <;>
      simp [delete, Java.delete, outcome, Manager.storeDelete, hmem, hd, fileFor_inj]
  | save name config =>
    by_cases hd : fileFor name ∈ d <;> simp [save, write, outcome, hmem, hd, fileFor_inj]
  | rename name replacement =>
    have hfile : fileFor name ≠ fileFor replacement := fun heq => hop _ _ rfl (fileFor_inj.1 heq)
    have hsome : fileFor name ∈ d ↔ (d.lookup (fileFor name)).isSome := AList.lookup_isSome.symm
    by_cases hd : fileFor replacement ∈ d
    · simp [rename, createNewFile, outcome, Manager.storeRename, hmem, hd]
    · -- the marker has another name, so the old file is looked up as it was
      cases hold : d.lookup (fileFor name) with
      | none =>
        have hback : ∀ n, fileFor n ∈ d ↔ ¬fileFor n = fileFor replacement ∧
            (fileFor n = fileFor replacement ∨ fileFor n ∈ d) := by
          intro n
          by_cases heq : fileFor n = fileFor replacement
          · simp [heq, hd]
          · simp [heq]
        simpa [rename, createNewFile, renameTo, Java.delete, outcome, Manager.storeRename, hmem, hd,
          hsome, hfile, hold] using hback
      | some bytes =>
        have hmoved : ∀ n, n = replacement ∨ ¬n = name ∧ fileFor n ∈ d ↔
            n = replacement ∨ ¬n = name ∧ (n = replacement ∨ fileFor n ∈ d) := by
          intro n
          tauto
        simpa [rename, createNewFile, renameTo, outcome, Manager.storeRename, hmem, hd, hsome, hfile,
          hold, fileFor_inj] using hmoved

/-- Over every run the two stores have the same names, and the next operation throws in both or in
neither. -/
theorem names_run (h : m.store = enumerate d) {ops : List (Operation Addr)}
    (hops : ∀ op ∈ ops, ToAnother op) :
    let m' := Runs.run (fun m op => (namesAfter m op).2) m ops
    let d' := Runs.run (fun d op => (filesAfter net d op).2) d ops
    m'.store = enumerate d' ∧
      ∀ op, ToAnother op → (namesAfter m' op).1.isSome = (filesAfter net d' op).1.isSome := by
  induction ops generalizing m d with
  | nil => exact ⟨h, fun op hop => (step_agrees h hop).1⟩
  | cons op ops ih =>
    rw [List.forall_mem_cons] at hops
    exact ih (step_agrees h hops.1).2 hops.2

theorem names_run_oneFile :
    let m : Manager Nat := ⟨⟨[], fun _ => [], fun _ => none, none, 0⟩, fun _ => .down, {['a']}⟩
    let ops : List (Operation Bool) := [.rename ['a'] ['b'], .delete ['c']]
    (Runs.run (fun m op => (namesAfter m op).2) m ops).store =
      enumerate (Runs.run (fun d op => (filesAfter Config.exampleNet d op).2) oneFile ops) := by
  intro m ops
  have hops : ∀ op ∈ ops, ToAnother op := by
    simp [ops, ToAnother]
  exact (names_run (by decide) hops).1

end Amnezia.ConfigStore
