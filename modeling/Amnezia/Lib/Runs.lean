import Mathlib.Data.List.Perm.Basic
import Mathlib.Tactic.Common

/-!
# Runs — systems that take one step after another

A system is a step function `step : σ → α → σ`: the action carries what the environment chose
(the request, the outcome of each call to the outside, the scheduler's pick).  A run is a list of
actions; a guard says in which states an action may be taken.
-/

namespace Runs

variable {σ α : Type*}

def run (step : σ → α → σ) (s : σ) (as : List α) : σ := as.foldl step s

def states (step : σ → α → σ) : σ → List α → List σ
  | s, [] => [s]
  | s, a :: as => s :: states step (step s a) as

/-- Every action of the run is taken in a state that meets its guard. -/
def Guarded (step : σ → α → σ) (guard : σ → α → Prop) : σ → List α → Prop
  | _, [] => True
  | s, a :: as => guard s a ∧ Guarded step guard (step s a) as

instance decidableGuarded (step : σ → α → σ) (guard : σ → α → Prop) [∀ s a, Decidable (guard s a)] :
    ∀ (s : σ) (as : List α), Decidable (Guarded step guard s as)
  | _, [] => isTrue trivial
  | s, a :: as => @instDecidableAnd _ _ _ (decidableGuarded step guard (step s a) as)

@[simp] theorem run_nil (step : σ → α → σ) (s : σ) : run step s [] = s := rfl

@[simp] theorem run_cons (step : σ → α → σ) (s : σ) (a : α) (as : List α) :
    run step s (a :: as) = run step (step s a) as := rfl

theorem head_mem_states (step : σ → α → σ) (s : σ) (as : List α) : s ∈ states step s as := by
  cases as <;> simp [states]

theorem run_mem_states (step : σ → α → σ) (s : σ) (as : List α) :
    run step s as ∈ states step s as := by
  induction as generalizing s with
  | nil => simp [states]
  | cons a as ih => exact List.mem_cons_of_mem _ (ih (step s a))

variable {step : σ → α → σ} {guard : σ → α → Prop}

theorem guarded_true (h : ∀ s a, guard s a) (s : σ) (as : List α) : Guarded step guard s as := by
  induction as generalizing s with
  | nil => trivial
  | cons a as ih => exact ⟨h s a, ih (step s a)⟩

theorem guarded_congr {guard' : σ → α → Prop} (h : ∀ s a, guard s a ↔ guard' s a) (s : σ)
    (as : List α) : Guarded step guard s as ↔ Guarded step guard' s as := by
  induction as generalizing s with
  | nil => exact Iff.rfl
  | cons a as ih => exact and_congr (h s a) (ih (step s a))

variable {as : List α} {s : σ}

theorem guarded_mono {guard' : σ → α → Prop} (h : ∀ s a, guard s a → guard' s a)
    (hg : Guarded step guard s as) : Guarded step guard' s as := by
  induction as generalizing s with
  | nil => trivial
  | cons a as ih => exact ⟨h s a hg.1, ih hg.2⟩

theorem guarded_of_states {prop : σ → Prop} (h : ∀ s' ∈ states step s as, prop s') :
    Guarded step (fun s' _ => prop s') s as := by
  induction as generalizing s with
  | nil => trivial
  | cons a as ih =>
    exact ⟨h s (head_mem_states step s _), ih fun s' hs' => h s' (List.mem_cons_of_mem _ hs')⟩

theorem invariant_states {inv : σ → Prop} (hstep : ∀ s a, inv s → guard s a → inv (step s a))
    (hs : inv s) (hg : Guarded step guard s as) : ∀ s' ∈ states step s as, inv s' := by
  induction as generalizing s with
  | nil =>
    intro s' hs'
    rw [List.mem_singleton.mp hs']
    exact hs
  | cons a as ih =>
    intro s' hs'
    rcases List.mem_cons.mp hs' with rfl | hs'
    · exact hs
    · exact ih (hstep s a hs hg.1) hg.2 s' hs'

theorem invariant_states_of_step {inv : σ → Prop} (hstep : ∀ s a, inv s → inv (step s a))
    (hs : inv s) (as : List α) : ∀ s' ∈ states step s as, inv s' :=
  invariant_states (fun s a h (_ : True) => hstep s a h) hs (guarded_true (fun _ _ => trivial) s as)

/-- If a step keeps the property exactly when it meets the guard, the property holds all along a
run exactly when every step of the run meets the guard. -/
theorem states_iff_guarded {prop : σ → Prop} (hstep : ∀ s a, prop s → (prop (step s a) ↔ guard s a))
    (hs : prop s) (as : List α) : (∀ s' ∈ states step s as, prop s') ↔ Guarded step guard s as := by
  constructor
  · intro h
    induction as generalizing s with
    | nil => trivial
    | cons a as ih =>
      have htail : ∀ s' ∈ states step (step s a) as, prop s' :=
        fun s' hs' => h s' (List.mem_cons_of_mem _ hs')
      have hnext : prop (step s a) := htail _ (head_mem_states step _ as)
      exact ⟨(hstep s a hs).mp hnext, ih hnext htail⟩
  · intro hg
    exact invariant_states (fun s a h hg => (hstep s a h).mpr hg) hs hg

theorem cons_eraseIdx_perm {pool : List α} {i : Nat} {a : α} (h : pool[i]? = some a) :
    (a :: pool.eraseIdx i).Perm pool := by
  obtain ⟨hlt, rfl⟩ := List.getElem?_eq_some_iff.mp h
  exact List.getElem_cons_eraseIdx_perm hlt

theorem mem_pool_iff {pool : List α} {i : Nat} {a b : α} (h : pool[i]? = some a) :
    b ∈ pool ↔ b = a ∨ b ∈ pool.eraseIdx i := by
  rw [← (cons_eraseIdx_perm h).mem_iff, List.mem_cons]

end Runs
