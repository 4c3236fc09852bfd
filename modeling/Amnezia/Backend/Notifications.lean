import Mathlib.Data.List.Infix
import Amnezia.Backend.AwgQuickRuns
import Amnezia.Backend.GoStates

/-!
# The notifications of a call

A call of `setState` puts the notifications it makes in front of the backend's log and leaves the
rest of the log as it was.
-/

namespace Amnezia.Backend

variable {T C S N : Type*}

/-- What a call put on the log, in the order in which the tunnels were told. -/
def notificationsSince (before after : List (T × State)) : List (T × State) :=
  (after.take (after.length - before.length)).reverse

theorem notificationsSince_of_suffix {before after : List (T × State)} (h : before <:+ after) :
    after = (notificationsSince before after).reverse ++ before := by
  obtain ⟨new, rfl⟩ := h
  have hlength : (new ++ before).length - before.length = new.length := by
    rw [List.length_append]
    omega
  rw [notificationsSince, hlength, List.take_left, List.reverse_reverse]

/-- The log grew by notifications to tunnels of `p`. -/
def Extends (p : T → Prop) (before after : List (T × State)) : Prop :=
  ∃ new, after = new ++ before ∧ ∀ n ∈ new, p n.1

namespace Extends

variable {p q : T → Prop} {log log' log'' : List (T × State)} {t : T}

theorem refl (p : T → Prop) (log : List (T × State)) : Extends p log log := ⟨[], rfl, nofun⟩

theorem single (h : p t) (state : State) (log : List (T × State)) :
    Extends p log ((t, state) :: log) := by
  refine ⟨[(t, state)], rfl, fun n hn => ?_⟩
  rw [List.mem_singleton.mp hn]
  exact h

theorem trans (h : Extends p log log') (h' : Extends p log' log'') : Extends p log log'' := by
  obtain ⟨new, rfl, hnew⟩ := h
  obtain ⟨new', rfl, hnew'⟩ := h'
  refine ⟨new' ++ new, (List.append_assoc new' new log).symm, fun n hn => ?_⟩
  rcases List.mem_append.mp hn with hn | hn
  · exact hnew' n hn
  · exact hnew n hn

theorem mono (h : Extends p log log') (hpq : ∀ u, p u → q u) : Extends q log log' := by
  obtain ⟨new, heq, hnew⟩ := h
  exact ⟨new, heq, fun n hn => hpq n.1 (hnew n hn)⟩

theorem suffix (h : Extends p log log') : log <:+ log' := by
  obtain ⟨new, heq, -⟩ := h
  exact ⟨new, heq.symm⟩

theorem lastTold_eq [DecidableEq T] (h : Extends p log log') (ht : ¬p t) :
    lastTold log' t = lastTold log t := by
  obtain ⟨new, rfl, hnew⟩ := h
  induction new with
  | nil => rfl
  | cons n new ih =>
    have hne : t ≠ n.1 := fun heq => ht (heq ▸ hnew n List.mem_cons_self)
    show Function.update (lastTold (new ++ log)) n.1 n.2 t = lastTold log t
    rw [Function.update_of_ne hne]
    exact ih fun n' hn' => hnew n' (List.mem_cons_of_mem n hn')

end Extends

namespace GoBackend

variable (endpoints : C → List (Option (List Char)))

theorem activate_log (o : Platform S) (s : GoBackend T C S) (t : T) (c : C) :
    Extends (· = t) s.log (activate endpoints o s t c).state.log := by
  unfold activate
  split
  · exact .refl _ _
  · split
    · exact .refl _ _
    · split
      · exact .refl _ _
      · cases o.establish with
        | thrown => exact .refl _ _
        | null => exact .refl _ _
        | tun =>
          simp only
          split
          · exact .refl _ _
          · exact .single (p := (· = t)) rfl _ _

theorem setStateDown_log (s : GoBackend T C S) (t : T) :
    Extends (· = t) s.log (s.setStateDown t).log := by
  unfold setStateDown
  split
  · exact .refl _ _
  · exact .single (p := (· = t)) rfl _ _

theorem stopCurrent_log (s : GoBackend T C S) :
    Extends (s.currentTunnel = some ·) s.log s.stopCurrent.log := by
  unfold stopCurrent
  cases s.currentTunnel with
  | none => exact .refl _ _
  | some t => exact (setStateDown_log s t).mono fun _ hu => congrArg some hu.symm

variable [DecidableEq S]

theorem setStateUp_log (o : Platform S) (s : GoBackend T C S) (t : T) (config : Option C) :
    Extends (· = t) s.log (setStateUp endpoints o s t config).state.log := by
  unfold setStateUp
  cases config with
  | none => exact .refl _ _
  | some c =>
    rw [← (acquireService_same o s).log]
    simp only
    split
    · exact .refl _ _
    · exact activate_log endpoints o _ t c

theorem attempt_log (o : Answers S) (s : GoBackend T C S) (t : T) (config : Option C) :
    Extends (· = t) s.stopCurrent.log (attempt endpoints o s t config).state.log :=
  setStateUp_log endpoints o.bringUp s.stopCurrent t config

variable [DecidableEq T] [DecidableEq C]

/-- Asked for `UP` with another config, a call first stops the current tunnel. -/
theorem setState_up_log (o : Answers S) (s : GoBackend T C S) (t : T) {requested : State}
    {config : Option C} (hup : requested.resolve (s.getState t) = .up)
    (hnew : ¬(s.currentTunnel = some t ∧ config = s.currentConfig)) :
    Extends (fun u => u = t ∨ s.currentTunnel = some u) s.stopCurrent.log
      (setState endpoints o s t requested config).state.log := by
  have hattempt : Extends (fun u => u = t ∨ s.currentTunnel = some u) s.stopCurrent.log
      (attempt endpoints o s t config).state.log :=
    (attempt_log endpoints o s t config).mono fun _ => .inl
  simp only [setState, setStateBody]
  rw [if_neg fun hkeep => hnew hkeep.2, if_pos hup]
  cases (attempt endpoints o s t config).result with
  | ok _ => exact hattempt
  | error e =>
    cases hcurrent : s.currentTunnel with
    | none =>
      rw [hcurrent] at hattempt
      exact hattempt
    | some u =>
      have hundo := setStateUp_log endpoints o.rollback (attempt endpoints o s t config).state u
        s.currentConfig
      rw [hcurrent] at hattempt
      have hall := hattempt.trans (hundo.mono fun _ hu => .inr (congrArg some hu.symm))
      simp only
      split <;> exact hall

/-- A call tells the tunnel it is about and the one that was current, no other. -/
theorem setState_log (o : Answers S) (s : GoBackend T C S) (t : T) (requested : State)
    (config : Option C) :
    Extends (fun u => u = t ∨ s.currentTunnel = some u) s.log
      (setState endpoints o s t requested config).state.log := by
  by_cases hup : requested.resolve (s.getState t) = .up ∧
      ¬(s.currentTunnel = some t ∧ config = s.currentConfig)
  · exact ((stopCurrent_log s).mono fun _ => .inr).trans
      (setState_up_log endpoints o s t hup.1 hup.2)
  · simp only [setState, setStateBody]
    split
    · exact .refl _ _
    · rename_i hkeep
      split
      · rename_i hresolve
        -- the tunnel runs with this config, so its state is the one asked for
        have hsame : s.currentTunnel = some t ∧ config = s.currentConfig :=
          not_not.mp fun hnew => hup ⟨hresolve, hnew⟩
        exact absurd ⟨hresolve.trans (getState_eq_up.mpr hsame.1).symm, hsame⟩ hkeep
      · split
        · exact (setStateDown_log s t).mono fun _ => .inl
        · exact .refl _ _

theorem setState_notified_of_ne (o : Answers S) (s : GoBackend T C S) {t u : T} (hne : u ≠ t)
    (hcurrent : s.currentTunnel ≠ some u) (requested : State) (config : Option C) :
    (setState endpoints o s t requested config).state.notified u = s.notified u :=
  (setState_log endpoints o s t requested config).lastTold_eq (not_or.mpr ⟨hne, hcurrent⟩)

end GoBackend

namespace AwgQuickBackend

variable [DecidableEq T] [DecidableEq N] (name : T → N)

theorem setState_log [DecidableEq C] (order : HashOrder (T × C)) (o : Shell)
    (s : AwgQuickBackend T C N) (t : T) (requested : State) (config : Option C) :
    s.log <:+ (setState name order o s t requested config).state.log := by
  refine setState_closed name order (P := fun s' => s.log <:+ s'.log) ?_ ?_ (List.suffix_refl _) o t
    requested config
  · exact fun _ _ _ h => h.trans (List.suffix_cons _ _)
  · exact fun _ _ h => h.trans (List.suffix_cons _ _)

end AwgQuickBackend

end Amnezia.Backend
