import Mathlib.Logic.Function.Basic
import Amnezia.Backend.Tunnel
import Amnezia.Backend.WgGo

/-!
# GoBackend

The backend that runs the userspace device inside an Android `VpnService`.  Tunnels, configs and
service instances are object references, compared by identity as the source does; every platform
call is answered from outside.  The state also holds the handles of libwg-go, the destruction
messages that `stopSelf` put in flight, and the last state each tunnel was told.
-/

namespace Amnezia.Backend

inductive Waited (S : Type*) where
  | created (service : S)
  | timedOut
  | interrupted
  deriving DecidableEq, Repr

/-- What `Builder.establish` ends in. -/
inductive Established where
  | thrown
  | null
  | tun
  deriving DecidableEq, Repr

structure Platform (S : Type*) where
  /-- `VpnService.prepare` returned null. -/
  authorized : Bool
  /-- `startService` returned. -/
  starts : Bool
  service : Waited S
  /-- Whether the endpoint of the k-th peer resolves in the i-th round. -/
  resolves : Nat → Nat → Bool
  /-- `Thread.sleep` after the i-th round was not interrupted. -/
  sleeps : Nat → Bool
  /-- None of the calls that fill the `Builder` threw. -/
  builds : Bool
  establish : Established
  device : DeviceSteps

def Platform.working {S : Type*} (service : S) : Platform S :=
  { authorized := true
    starts := true
    service := .created service
    resolves := fun _ _ => true
    sleeps := fun _ => true
    builds := true
    establish := .tun
    device :=
      { createTun := true, ipcSet := true, uapiOpen := true, uapiListen := true, deviceUp := true } }

structure GoBackend (T C S : Type*) where
  currentConfig : Option C
  currentTunnel : Option T
  currentTunnelHandle : Int
  /-- The value the static future `vpnService` was completed with, if it was. -/
  vpnService : Option S
  /-- The service instances whose `owner` is this backend. -/
  owned : S → Bool
  tunnelHandles : TunnelHandles C
  /-- The instances on which `stopSelf` was called and `onDestroy` has not run yet. -/
  inFlight : List S
  /-- The states the tunnels were told through `onStateChange`, the newest first. -/
  log : List (T × State)

namespace GoBackend

variable {T C S : Type*}

def initial : GoBackend T C S :=
  { currentConfig := none
    currentTunnel := none
    currentTunnelHandle := -1
    vpnService := none
    owned := fun _ => false
    tunnelHandles := ∅
    inFlight := []
    log := [] }

def dnsResolutionRetries : Nat := 10

/-- One round over the peers: the host of the first endpoint that does not resolve. -/
def firstUnresolved (resolves : Nat → Bool) : Nat → List (Option (List Char)) → Option (List Char)
  | _, [] => none
  | k, none :: peers => firstUnresolved resolves (k + 1) peers
  | k, some host :: peers =>
    if resolves k then firstUnresolved resolves (k + 1) peers else some host

/-- The rounds from the i-th one on, with `n` rounds left: what the loop throws, if it does. -/
def dnsRetry (o : Platform S) (hosts : List (Option (List Char))) : Nat → Nat → Option Failure
  | 0, _ => none
  | n + 1, i =>
    match firstUnresolved (o.resolves i) 0 hosts with
    | none => none
    | some host =>
      if n = 0 then some (.backend (.dnsResolutionFailure host))
      else if o.sleeps i then dnsRetry o hosts n (i + 1)
      else some .platform

def complete (s : GoBackend T C S) (service : S) : GoBackend T C S :=
  { s with vpnService := s.vpnService.or (some service) }

section Services

variable [DecidableEq S]

def setOwner (s : GoBackend T C S) (service : S) : GoBackend T C S :=
  { s with owned := Function.update s.owned service true }

/-- From the permission check to `service.setOwner(this)`.  Starting the service again cancels
the destruction messages in flight. -/
def acquireService (o : Platform S) (s : GoBackend T C S) : Outcome S (GoBackend T C S) :=
  if ¬o.authorized then ⟨.error (.backend .vpnNotAuthorized), s⟩
  else
    match s.vpnService with
    | some service => ⟨.ok service, s.setOwner service⟩
    | none =>
      if ¬o.starts then ⟨.error .platform, s⟩
      else
        let started := { s with inFlight := [] }
        match o.service with
        | .created service => ⟨.ok service, (started.complete service).setOwner service⟩
        | .timedOut => ⟨.error (.backend .unableToStartVpn), started⟩
        | .interrupted => ⟨.error .platform, started⟩

end Services

def notified [DecidableEq T] (s : GoBackend T C S) : T → State := lastTold s.log

/-- From the check of the handle to `tunnel.onStateChange(UP)`.  A handle in use ends it without a
notification. -/
def activate (endpoints : C → List (Option (List Char))) (o : Platform S) (s : GoBackend T C S)
    (tunnel : T) (config : C) : Outcome Unit (GoBackend T C S) :=
  if s.currentTunnelHandle ≠ -1 then ⟨.ok (), s⟩
  else
    match dnsRetry o (endpoints config) dnsResolutionRetries 0 with
    | some failure => ⟨.error failure, s⟩
    | none =>
      if ¬o.builds then ⟨.error .platform, s⟩
      else
        match o.establish with
        | .thrown => ⟨.error .platform, s⟩
        | .null => ⟨.error (.backend .tunCreationError), s⟩
        | .tun =>
          let on := WgGo.awgTurnOn o.device s.tunnelHandles config
          let s := { s with currentTunnelHandle := on.1, tunnelHandles := on.2 }
          if on.1 < 0 then ⟨.error (.backend (.goActivationErrorCode on.1)), s⟩
          else
            ⟨.ok (),
              { s with
                currentTunnel := some tunnel
                currentConfig := some config
                log := (tunnel, .up) :: s.log }⟩

variable [DecidableEq T] [DecidableEq S] (endpoints : C → List (Option (List Char)))

def setStateUp (o : Platform S) (s : GoBackend T C S) (tunnel : T) (config : Option C) :
    Outcome Unit (GoBackend T C S) :=
  match config with
  | none => ⟨.error (.backend .tunnelMissingConfig), s⟩
  | some config =>
    let acquired := acquireService o s
    match acquired.result with
    | .error e => ⟨.error e, acquired.state⟩
    | .ok _ => activate endpoints o acquired.state tunnel config

/-- The `DOWN` branch up to the notification: `stopSelf` is called on the cached service only. -/
def release (s : GoBackend T C S) : GoBackend T C S :=
  { s with
    currentTunnel := none
    currentTunnelHandle := -1
    currentConfig := none
    tunnelHandles := WgGo.awgTurnOff s.tunnelHandles s.currentTunnelHandle
    inFlight := s.vpnService.toList ++ s.inFlight }

def notify (s : GoBackend T C S) (tunnel : T) (state : State) : GoBackend T C S :=
  { s with log := (tunnel, state) :: s.log }

def setStateDown (s : GoBackend T C S) (tunnel : T) : GoBackend T C S :=
  if s.currentTunnelHandle = -1 then s else s.release.notify tunnel .down

def getState (s : GoBackend T C S) (tunnel : T) : State :=
  State.of (decide (s.currentTunnel = some tunnel))

def stopCurrent (s : GoBackend T C S) : GoBackend T C S :=
  match s.currentTunnel with
  | some current => s.setStateDown current
  | none => s

/-- The answers to the bring-up a call asks for, and to the one that undoes it. -/
structure Answers (S : Type*) where
  bringUp : Platform S
  rollback : Platform S

def attempt (o : Answers S) (s : GoBackend T C S) (tunnel : T) (config : Option C) :
    Outcome Unit (GoBackend T C S) :=
  setStateUp endpoints o.bringUp s.stopCurrent tunnel config

def reactivate (o : Answers S) (s : GoBackend T C S) (tunnel : T) (config : Option C)
    (original : T) : Outcome Unit (GoBackend T C S) :=
  setStateUp endpoints o.rollback (attempt endpoints o s tunnel config).state original
    s.currentConfig

def setStateBody [DecidableEq C] (started : Outcome Unit (GoBackend T C S))
    (undone : T → Outcome Unit (GoBackend T C S)) (s : GoBackend T C S) (tunnel : T)
    (requested : State) (config : Option C) : Outcome State (GoBackend T C S) :=
  let originalState := s.getState tunnel
  let state := requested.resolve originalState
  if state = originalState ∧ s.currentTunnel = some tunnel ∧ config = s.currentConfig then
    ⟨.ok originalState, s⟩
  else if state = .up then
    match started.result with
    | .ok _ => ⟨.ok (started.state.getState tunnel), started.state⟩
    | .error e =>
      match s.currentTunnel with
      | none => ⟨.error e, started.state⟩
      | some original =>
        match (undone original).result with
        | .ok _ => ⟨.error e, (undone original).state⟩
        | .error e' => ⟨.error e', (undone original).state⟩
  else if state = .down ∧ s.currentTunnel = some tunnel then
    let stopped := s.setStateDown tunnel
    ⟨.ok (stopped.getState tunnel), stopped⟩
  else ⟨.ok (s.getState tunnel), s⟩

def setState [DecidableEq C] (o : Answers S) (s : GoBackend T C S) (tunnel : T)
    (requested : State) (config : Option C) : Outcome State (GoBackend T C S) :=
  setStateBody (attempt endpoints o s tunnel config) (reactivate endpoints o s tunnel config) s
    tunnel requested config

def onCreate (s : GoBackend T C S) (service : S) : GoBackend T C S := s.complete service

def onDestroy (s : GoBackend T C S) (service : S) : GoBackend T C S :=
  let cleared :=
    if s.owned service then
      match s.currentTunnel with
      | none => s
      | some tunnel =>
        let handles :=
          if s.currentTunnelHandle ≠ -1 then
            WgGo.awgTurnOff s.tunnelHandles s.currentTunnelHandle
          else s.tunnelHandles
        { s with
          tunnelHandles := handles
          currentTunnel := none
          currentTunnelHandle := -1
          currentConfig := none
          log := (tunnel, .down) :: s.log }
    else s
  { cleared with vpnService := none }

/-- `setState(currentTunnel, DOWN, null)`, as the disconnect action calls it.  Without a current
tunnel the reference passed is null, which is the current one too. -/
def disconnect (s : GoBackend T C S) : GoBackend T C S :=
  match s.currentTunnel with
  | some tunnel => s.setStateDown tunnel
  | none => if s.currentTunnelHandle = -1 then s else s.release

def onDisconnect (s : GoBackend T C S) (service : S) : GoBackend T C S :=
  let completed := s.complete service
  let stopped := if completed.owned service then completed.disconnect else completed
  { stopped with inFlight := service :: stopped.inFlight }

end GoBackend

end Amnezia.Backend
