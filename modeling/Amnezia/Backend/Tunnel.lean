import Mathlib.Logic.Function.Basic
import Mathlib.Tactic.Common

/-!
# Tunnel states and backend failures

What both backends share: the requested and reported states of a tunnel and the ways a call of a
backend can throw.
-/

namespace Amnezia.Backend

inductive State where
  | down
  | toggle
  | up
  deriving DecidableEq, Repr

def State.of (running : Bool) : State := if running then .up else .down

/-- `BackendException.Reason`, with the format arguments the backends pass along. -/
inductive Reason where
  | unknownKernelModuleName
  | awgQuickConfigErrorCode (code : Int)
  | tunnelMissingConfig
  | vpnNotAuthorized
  | unableToStartVpn
  | tunCreationError
  | goActivationErrorCode (code : Int)
  | dnsResolutionFailure (host : List Char)
  deriving DecidableEq, Repr

/-- What a backend call throws: a `BackendException`, the `NullPointerException` of
`Objects.requireNonNull`, or whatever a call into the platform threw. -/
inductive Failure where
  | backend (reason : Reason)
  | nullConfig
  | platform
  deriving DecidableEq, Repr

/-- What a call that may throw leaves behind: its outcome and the state it reached. -/
structure Outcome (α σ : Type*) where
  result : Except Failure α
  state : σ

@[simp] theorem State.of_true : State.of true = .up := rfl

@[simp] theorem State.of_false : State.of false = .down := rfl

theorem State.of_eq_up {b : Bool} : State.of b = .up ↔ b = true := by
  cases b <;> simp

theorem State.of_eq_down {b : Bool} : State.of b = .down ↔ b = false := by
  cases b <;> simp

/-- The state a request asks for once `TOGGLE` is resolved against the state the tunnel is in. -/
def State.resolve (requested original : State) : State :=
  if requested = .toggle then (if original = .up then .down else .up) else requested

theorem State.resolve_ne_toggle (requested original : State) :
    requested.resolve original ≠ .toggle := by
  cases requested <;> cases original <;> decide

/-- The last state each tunnel was told, read off a log that has the newest notification first. -/
def lastTold {T : Type*} [DecidableEq T] : List (T × State) → T → State
  | [] => fun _ => .down
  | n :: log => Function.update (lastTold log) n.1 n.2

end Amnezia.Backend
