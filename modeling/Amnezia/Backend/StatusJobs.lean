import Mathlib.Logic.Relation
import Amnezia.Backend.Handshake
import Amnezia.Lib.Runs

/-!
# The status threads of AwgQuickBackend

Each bring-up launches a thread that asks for the last handshake once a second until there is one.
The thread that calls `setState` and the status threads share the fields `statusThread` and
`currentTunnel`, without a lock: here each access is a step of its own, and a run is any interleaving
of the steps.  The calls of `setState` themselves are made one at a time.
-/

namespace Amnezia.Backend

open Java (Text)

namespace StatusJobs

/-- What `setStateInternal` throws: also the exceptions of `statusThread.interrupt()` and
`statusThread.start()`. -/
inductive Thrown where
  | failure (f : Failure)
  | nullPointer
  | illegalThreadState
  deriving DecidableEq, Repr

def lift {α : Type} : Except Failure α → Except Thrown α
  | .ok a => .ok a
  | .error f => .error (.failure f)

/-- `setState`, as far as it does not depend on the other threads: it returns or throws, or calls
`setStateInternal` and goes on with what came of it. -/
inductive Program (T C : Type) where
  | ret (result : Except Thrown State)
  | call (cmd : CommandResult) (tunnel : T) (config : Option C) (state : State)
      (next : Except Thrown Unit → Program T C)

section Programs

variable {T C N : Type}

def callEach (state : State) (next : List (T × C) → Except Thrown Unit → Program T C) :
    (Nat → CommandResult) → List (T × C) → List (T × C) → Program T C
  | _, through, [] => next through (.ok ())
  | cmd, through, e :: es => .call (cmd 0) e.1 (some e.2) state fun
    | .error t => next through (.error t)
    | .ok () => callEach state next (fun i => cmd (i + 1)) (through ++ [e]) es

def tearDown (o : Shell) (snapshot : List (T × C)) (next : Except Thrown Unit → Program T C) :
    Program T C :=
  callEach .down (fun rewind result =>
    match result with
    | .ok () => next (.ok ())
    | .error e => callEach .up (fun _ _ => next (.error e)) o.rollback [] rewind)
    o.teardown [] snapshot

def rollBack (o : Shell) (multipleTunnels : Bool) (tunnel : T) (originalState : State)
    (originalConfig : Option C) (snapshot : List (T × C)) (next : Program T C) : Program T C :=
  if originalState = .up ∧ originalConfig ≠ none then
    .call (o.rollback 0) tunnel originalConfig .up fun _ => next
  else if multipleTunnels = false ∧ originalState = .down then
    callEach .up (fun _ _ => next) o.rollback [] snapshot
  else next

def start (o : Shell) (multipleTunnels : Bool) (tunnel : T) (originalState : State)
    (originalConfig config : Option C) (snapshot : List (T × C)) : Program T C :=
  .call o.up tunnel config .up fun
    | .ok () => .ret (.ok .up)
    | .error e =>
      rollBack o multipleTunnels tunnel originalState originalConfig snapshot (.ret (.error e))

def bringUp (o : Shell) (multipleTunnels : Bool) (tunnel : T) (originalState : State)
    (originalConfig config : Option C) (snapshot : List (T × C)) : Program T C :=
  let go := start o multipleTunnels tunnel originalState originalConfig config snapshot
  if multipleTunnels = false ∧ originalState = .down then
    tearDown o snapshot fun
      | .ok () => go
      | .error e => .ret (.error e)
  else if originalState = .up then
    .call o.down tunnel (originalConfig.or config) .down fun
      | .ok () => go
      | .error e => .ret (.error e)
  else go

variable [DecidableEq T] [DecidableEq N]

def setState [DecidableEq C] (name : T → N) (order : HashOrder (T × C)) (o : Shell) (s : AwgQuickBackend T C N)
    (tunnel : T) (requested : State) (config : Option C) : Program T C :=
  let originalState := s.getState name o.shows tunnel
  let originalConfig := s.runningConfigs.lookup tunnel
  let state := requested.resolve originalState
  if (state = .up ∧ originalState = .up ∧ originalConfig ≠ none ∧ originalConfig = config) ∨
      (state = .down ∧ originalState = .down) then
    .ret (.ok originalState)
  else if state = .up then
    if o.tools then
      bringUp o s.multipleTunnels tunnel originalState originalConfig config
        (AwgQuickBackend.entrySet order s.runningConfigs)
    else .ret (.error (.failure .platform))
  else
    .call o.down tunnel (originalConfig.or config) .down fun
      | .ok () => .ret (.ok state)
      | .error e => .ret (.error e)

/-! With each internal call run at once, the program is the `setState` of the backend. -/

def Program.run (name : T → N) (s : AwgQuickBackend T C N) :
    Program T C → Except Thrown State × AwgQuickBackend T C N
  | .ret result => (result, s)
  | .call cmd tunnel config state next =>
    let out := s.setStateInternal name cmd tunnel config state
    (next (lift out.result)).run name out.state

theorem run_callEach (name : T → N) (state : State)
    (next : List (T × C) → Except Thrown Unit → Program T C) (cmd : Nat → CommandResult)
    (through es : List (T × C)) (s : AwgQuickBackend T C N) :
    (callEach state next cmd through es).run name s =
      (next (through ++ (s.setEach name state cmd es).1)
        (lift (s.setEach name state cmd es).2.result)).run name
          (s.setEach name state cmd es).2.state := by
  induction es generalizing cmd through s with
  | nil =>
    rw [callEach, AwgQuickBackend.setEach, List.append_nil]
    rfl
  | cons e es ih =>
    rw [callEach, AwgQuickBackend.setEach, Program.run]
    cases hout : (s.setStateInternal name (cmd 0) e.1 (some e.2) state).result with
    | error f =>
      simp only [lift, List.append_nil]
    | ok u =>
      simp only [lift, ih, List.append_assoc, List.cons_append, List.nil_append]

theorem run_tearDown (name : T → N) (o : Shell) (snapshot : List (T × C))
    (next : Except Thrown Unit → Program T C) (s : AwgQuickBackend T C N) :
    (tearDown o snapshot next).run name s =
      (next (lift (s.tearDown name o snapshot).result)).run name
        (s.tearDown name o snapshot).state := by
  rw [tearDown, run_callEach, AwgQuickBackend.tearDown]
  cases hdown : (s.setEach name .down o.teardown snapshot).2.result with
  | ok u => simp only [lift, hdown]
  | error f => simp only [lift, run_callEach, List.nil_append]

theorem run_rollBack (name : T → N) (o : Shell) (tunnel : T) (originalState : State)
    (originalConfig : Option C) (snapshot : List (T × C)) (result : Except Thrown State)
    (s : AwgQuickBackend T C N) :
    (rollBack o s.multipleTunnels tunnel originalState originalConfig snapshot
      (.ret result)).run name s =
      (result, s.rollBack name o tunnel originalState originalConfig snapshot) := by
  unfold rollBack AwgQuickBackend.rollBack
  split_ifs
  · rfl
  · rw [run_callEach]
    rfl
  · rfl

theorem run_start (name : T → N) (o : Shell) (tunnel : T) (originalState : State)
    (originalConfig config : Option C) (snapshot : List (T × C)) {s : AwgQuickBackend T C N}
    {multipleTunnels : Bool} (hs : s.multipleTunnels = multipleTunnels) :
    (start o multipleTunnels tunnel originalState originalConfig config snapshot).run name s =
      match (s.setStateInternal name o.up tunnel config .up).result with
      | .error e => (.error (.failure e),
          (s.setStateInternal name o.up tunnel config .up).state.rollBack name o tunnel
            originalState originalConfig snapshot)
      | .ok _ => (.ok .up, (s.setStateInternal name o.up tunnel config .up).state) := by
  subst hs
  rw [start, Program.run]
  rcases AwgQuickBackend.setStateInternal_cases name s o.up tunnel config .up with
    ⟨e, -, heq⟩ | ⟨c, -, -, heq⟩
  · simp only [heq, lift, run_rollBack]
  · simp only [heq, lift, Program.run]

theorem multipleTunnels_setStateInternal (name : T → N) (cmd : CommandResult)
    (s : AwgQuickBackend T C N) (tunnel : T) (config : Option C) (state : State) :
    (s.setStateInternal name cmd tunnel config state).state.multipleTunnels = s.multipleTunnels := by
  rcases AwgQuickBackend.setStateInternal_cases name s cmd tunnel config state with
    ⟨e, -, heq⟩ | ⟨c, -, -, heq⟩
  · rw [heq]
  · rw [heq]
    unfold AwgQuickBackend.apply
    split <;> rfl

theorem multipleTunnels_setEach (name : T → N) (state : State) (cmd : Nat → CommandResult)
    (s : AwgQuickBackend T C N) (es : List (T × C)) :
    (s.setEach name state cmd es).2.state.multipleTunnels = s.multipleTunnels := by
  induction es generalizing s cmd with
  | nil => rfl
  | cons e es ih =>
    have hcall := multipleTunnels_setStateInternal name (cmd 0) s e.1 (some e.2) state
    rw [AwgQuickBackend.setEach]
    cases (s.setStateInternal name (cmd 0) e.1 (some e.2) state).result with
    | error f => exact hcall
    | ok u => exact (ih (fun i => cmd (i + 1)) _).trans hcall

theorem multipleTunnels_tearDown (name : T → N) (o : Shell) (s : AwgQuickBackend T C N)
    (snapshot : List (T × C)) :
    (s.tearDown name o snapshot).state.multipleTunnels = s.multipleTunnels := by
  have hdown := multipleTunnels_setEach name .down o.teardown s snapshot
  simp only [AwgQuickBackend.tearDown]
  cases (s.setEach name .down o.teardown snapshot).2.result with
  | ok u => exact hdown
  | error e => exact (multipleTunnels_setEach name .up o.rollback _ _).trans hdown

theorem run_bringUp (name : T → N) (o : Shell) (tunnel : T) (originalState : State)
    (config : Option C) (snapshot : List (T × C)) (s : AwgQuickBackend T C N) :
    (bringUp o s.multipleTunnels tunnel originalState (s.runningConfigs.lookup tunnel) config
      snapshot).run name s =
      (lift (s.bringUp name o tunnel originalState config snapshot).result,
        (s.bringUp name o tunnel originalState config snapshot).state) := by
  unfold bringUp AwgQuickBackend.bringUp
  by_cases hclear : s.multipleTunnels = false ∧ originalState = .down
  · have hnup : ¬originalState = .up := by
      rw [hclear.2]
      decide
    simp only [if_pos hclear, if_neg hnup, run_tearDown]
    cases hdown : (s.tearDown name o snapshot).result with
    | error e => rfl
    | ok u =>
      have hsame := multipleTunnels_tearDown name o s snapshot
      simp only [lift, run_start name o tunnel _ _ config snapshot hsame]
      cases ((s.tearDown name o snapshot).state.setStateInternal name o.up tunnel config .up).result
        <;> rfl
  · simp only [if_neg hclear]
    by_cases hup : originalState = .up
    · simp only [if_pos hup, Program.run]
      cases hdown : (s.setStateInternal name o.down tunnel
          ((s.runningConfigs.lookup tunnel).or config) .down).result with
      | error e => rfl
      | ok u =>
        have hsame := multipleTunnels_setStateInternal name o.down s tunnel
          ((s.runningConfigs.lookup tunnel).or config) .down
        simp only [lift, run_start name o tunnel _ _ config snapshot hsame]
        cases ((s.setStateInternal name o.down tunnel ((s.runningConfigs.lookup tunnel).or config)
          .down).state.setStateInternal name o.up tunnel config .up).result <;> rfl
    · simp only [if_neg hup, run_start name o tunnel _ _ config snapshot rfl]
      cases (s.setStateInternal name o.up tunnel config .up).result <;> rfl

theorem run_setState [DecidableEq C] (name : T → N) (order : HashOrder (T × C)) (o : Shell)
    (s : AwgQuickBackend T C N) (tunnel : T) (requested : State) (config : Option C) :
    (setState name order o s tunnel requested config).run name s =
      (lift (s.setState name order o tunnel requested config).result,
        (s.setState name order o tunnel requested config).state) := by
  unfold setState AwgQuickBackend.setState
  simp only
  split_ifs
  · rfl
  · exact run_bringUp name o tunnel _ config _ s
  · rfl
  · rw [Program.run]
    cases (s.setStateInternal name o.down tunnel
      ((s.runningConfigs.lookup tunnel).or config) .down).result with
    | error e => rfl
    | ok u => rfl

end Programs

inductive JobPc (T : Type) where
  /-- `new Thread` has returned, `start` has not been called. -/
  | created
  /-- Before the test of `isInterrupted()`. -/
  | head
  /-- Before the argument `currentTunnel` is read. -/
  | read
  /-- In `getLastHandshake` of this tunnel. -/
  | polling (tunnel : Option T)
  | sleeping
  /-- Before the call of the status callback. -/
  | reporting
  /-- Out of the loop, before `statusThread = null`. -/
  | leaving
  | ended
  deriving DecidableEq, Repr

structure Job (T : Type) where
  pc : JobPc T := .created
  interrupted : Bool := false
  deriving DecidableEq, Repr

inductive MainPc where
  /-- `runningConfigs.put(tunnel, config)`. -/
  | put
  /-- `currentTunnel = tunnel`. -/
  | setCurrent
  /-- `if (statusThread != null)` of `stopStatusJob`. -/
  | check
  /-- `statusThread.interrupt()`. -/
  | interrupt
  /-- `statusThread = null`. -/
  | clear
  /-- `statusThread = new Thread(..)`. -/
  | create
  /-- `statusThread.start()`. -/
  | start
  /-- `runningConfigs.remove(tunnel)`. -/
  | remove
  /-- `currentTunnel = null`. -/
  | clearCurrent
  /-- `tunnel.onStateChange(state)`. -/
  | notify
  deriving DecidableEq, Repr

structure Internal (T C : Type) where
  pc : MainPc
  tunnel : T
  config : C
  state : State
  next : Except Thrown Unit → Program T C

inductive Main (T C : Type) where
  | idle
  | running (program : Program T C)
  | internal (call : Internal T C)

structure System (T C N : Type) where
  backend : AwgQuickBackend T C N
  /-- The field `statusThread`, by the number of the thread. -/
  statusThread : Option Nat
  jobs : List (Job T)
  main : Main T C
  /-- How many threads had been created when the last DOWN transition was completed. -/
  stopped : Nat

/-- What the platform answers to a status thread. -/
structure JobEnv where
  /-- `awg show interfaces` could be run. -/
  shows : Bool := true
  /-- The status and the output of `awg show latest-handshakes`, or its exception. -/
  run : Option (Int × List Text) := none
  /-- A sleep ends by itself although there is an interrupt. -/
  elapsed : Bool := false

/-- A step of some thread; a call begins a `setState` when none is in progress. -/
inductive Action (T C : Type) where
  | call (o : Shell) (tunnel : T) (requested : State) (config : Option C)
  | main
  | job (j : Nat) (env : JobEnv)

def initial (T C N : Type) : System T C N :=
  { backend := AwgQuickBackend.initial
    statusThread := none
    jobs := []
    main := .idle
    stopped := 0 }

section Steps

variable {T C N : Type} [DecidableEq T] [DecidableEq N] (name : T → N)

def afterStop (state : State) : MainPc := if state = .up then .create else .remove

def Internal.at (c : Internal T C) (pc : MainPc) : Main T C := .internal { c with pc := pc }

def Internal.throw (c : Internal T C) (t : Thrown) : Main T C := .running (c.next (.error t))

def System.setJob (s : System T C N) (j : Nat) (job : Job T) : System T C N :=
  { s with jobs := s.jobs.set j job }

def internalStep (s : System T C N) (c : Internal T C) : System T C N :=
  match c.pc with
  | .put =>
    { s with
      backend := { s.backend with
        runningConfigs := s.backend.runningConfigs.insert c.tunnel c.config }
      main := c.at .setCurrent }
  | .setCurrent =>
    { s with
      backend := { s.backend with currentTunnel := some c.tunnel }
      main := c.at .check }
  | .check => { s with main := c.at (if s.statusThread = none then afterStop c.state else .interrupt) }
  | .interrupt =>
    -- the field is read again
    match s.statusThread with
    | none => { s with main := c.throw .nullPointer }
    | some j =>
      { s with
        jobs := s.jobs.modify j fun job => { job with interrupted := true }
        main := c.at .clear }
  | .clear => { s with statusThread := none, main := c.at (afterStop c.state) }
  | .create =>
    { s with
      jobs := s.jobs ++ [{}]
      statusThread := some s.jobs.length
      main := c.at .start }
  | .start =>
    match s.statusThread with
    | none => { s with main := c.throw .nullPointer }
    | some j =>
      match s.jobs[j]? with
      | some ⟨.created, interrupted⟩ =>
        { s.setJob j ⟨.head, interrupted⟩ with main := c.at .notify }
      | _ => { s with main := c.throw .illegalThreadState }
  | .remove =>
    { s with
      backend := { s.backend with runningConfigs := s.backend.runningConfigs.erase c.tunnel }
      main := c.at .clearCurrent }
  | .clearCurrent =>
    { s with
      backend := { s.backend with currentTunnel := none }
      main := c.at .notify }
  | .notify =>
    { s with
      backend := { s.backend with
        log := (c.tunnel, if c.state = .up then .up else .down) :: s.backend.log }
      main := .running (c.next (.ok ()))
      stopped := if c.state = .up then s.stopped else s.jobs.length }

def commandStep (s : System T C N) (cmd : CommandResult) (tunnel : T) (config : Option C)
    (state : State) (next : Except Thrown Unit → Program T C) : System T C N :=
  match config, cmd with
  | none, _ => { s with main := .running (next (.error (.failure .nullConfig))) }
  | some _, .thrown => { s with main := .running (next (.error (.failure .platform))) }
  | some config, .exited status =>
    if status ≠ 0 then
      { s with
        main := .running (next (.error (.failure (.backend (.awgQuickConfigErrorCode status))))) }
    else
      { s with
        backend := { s.backend with
          interfaces := if state = .up then insert (name tunnel) s.backend.interfaces
            else s.backend.interfaces.erase (name tunnel) }
        main := .internal ⟨if state = .up then .put else .check, tunnel, config, state, next⟩ }

def mainStep (s : System T C N) : System T C N :=
  match s.main with
  | .idle => s
  | .running (.ret _) => { s with main := .idle }
  | .running (.call cmd tunnel config state next) => commandStep name s cmd tunnel config state next
  | .internal c => internalStep s c

def afterRound : Round → JobPc T
  | .stop => .leaving
  | .retry => .sleeping
  | .report => .reporting

/-- An interrupted sleep takes the flag back, and the thread sets it again before it leaves: one
step, as nothing is polled in between. -/
def jobStep (s : System T C N) (j : Nat) (env : JobEnv) : System T C N :=
  match s.jobs[j]? with
  | none => s
  | some job =>
    match job.pc with
    | .created => s
    | .head => s.setJob j { job with pc := if job.interrupted then .leaving else .read }
    | .read => s.setJob j { job with pc := .polling s.backend.currentTunnel }
    -- the exception of `tunnel.getName()` ends the thread
    | .polling none => s.setJob j { job with pc := .ended }
    | .polling (some tunnel) =>
      s.setJob j { job with
        pc := afterRound (statusRound
          (s.backend.getLastHandshake name env.shows env.run tunnel)) }
    | .sleeping =>
      s.setJob j { job with pc := if job.interrupted && !env.elapsed then .leaving else .head }
    | .reporting => s.setJob j { job with pc := .leaving }
    | .leaving => { s.setJob j { job with pc := .ended } with statusThread := none }
    | .ended => s

def step [DecidableEq C] (order : HashOrder (T × C)) (s : System T C N) :
    Action T C → System T C N
  | .call o tunnel requested config =>
    match s.main with
    | .idle => { s with main := .running (setState name order o s.backend tunnel requested config) }
    | _ => s
  | .main => mainStep name s
  | .job j env => jobStep name s j env

def Alone : System T C N → System T C N → Prop :=
  Relation.ReflTransGen fun s s' => mainStep name s = s'

variable {name} in
theorem Alone.of_eq {s s' s'' : System T C N} (h : mainStep name s = s') (h' : Alone name s' s'') :
    Alone name s s'' :=
  Relation.ReflTransGen.head h h'

variable {name} in
theorem Alone.trans {s s' s'' : System T C N} (h : Alone name s s') (h' : Alone name s' s'') :
    Alone name s s'' :=
  Relation.ReflTransGen.trans h h'

theorem alone_stop (s : System T C N) (c : Internal T C) (hmain : s.main = c.at .check) :
    ∃ jobs, Alone name s
      { s with statusThread := none, jobs := jobs, main := c.at (afterStop c.state) } := by
  obtain ⟨backend, statusThread, jobs, main, stopped⟩ := s
  cases hmain
  cases statusThread with
  | none => exact ⟨jobs, .of_eq rfl .refl⟩
  | some j => exact ⟨_, .of_eq rfl (.of_eq rfl (.of_eq rfl .refl))⟩

theorem alone_launch (s : System T C N) (c : Internal T C) (hmain : s.main = c.at .create) :
    ∃ jobs, Alone name s
      { s with statusThread := some s.jobs.length, jobs := jobs, main := c.at .notify } := by
  obtain ⟨backend, statusThread, jobs, main, stopped⟩ := s
  cases hmain
  have hnew : (jobs ++ [({} : Job T)])[jobs.length]? = some {} := List.getElem?_concat_length
  refine ⟨(jobs ++ [({} : Job T)]).set jobs.length ⟨.head, false⟩, .of_eq rfl (.of_eq ?_ .refl)⟩
  simp only [mainStep, Internal.at, internalStep, hnew]
  rfl

omit [DecidableEq T] in
theorem commandStep_ok (s : System T C N) (tunnel : T) (config : C) (state : State)
    (next : Except Thrown Unit → Program T C) :
    commandStep name s (.exited 0) tunnel (some config) state next =
      { s with
        backend := { s.backend with
          interfaces := if state = .up then insert (name tunnel) s.backend.interfaces
            else s.backend.interfaces.erase (name tunnel) }
        main := .internal ⟨if state = .up then .put else .check, tunnel, config, state, next⟩ } := by
  unfold commandStep
  exact if_neg (not_not_intro rfl)

theorem alone_call (s : System T C N) {cmd : CommandResult} {tunnel : T} {config : Option C}
    {state : State} {next : Except Thrown Unit → Program T C}
    (hmain : s.main = .running (.call cmd tunnel config state next)) :
    ∃ s', Alone name s s' ∧
      s'.main = .running (next (lift (s.backend.setStateInternal name cmd tunnel config state).result)) ∧
      s'.backend = (s.backend.setStateInternal name cmd tunnel config state).state := by
  have hstep : mainStep name s = commandStep name s cmd tunnel config state next := by
    unfold mainStep
    rw [hmain]
  match config, cmd with
  | none, _ => exact ⟨_, .of_eq hstep .refl, rfl, rfl⟩
  | some c, .thrown => exact ⟨_, .of_eq hstep .refl, rfl, rfl⟩
  | some c, .exited status =>
    by_cases hstatus : status = 0
    · subst hstatus
      let call : Internal T C := ⟨.check, tunnel, c, state, next⟩
      rw [commandStep_ok] at hstep
      cases state with
      | up =>
        let begun : System T C N :=
          { s with
            backend := { s.backend with
              interfaces := insert (name tunnel) s.backend.interfaces
              runningConfigs := s.backend.runningConfigs.insert tunnel c
              currentTunnel := some tunnel }
            main := call.at .check }
        have hbegin : Alone name s begun := .of_eq hstep (.of_eq rfl (.of_eq rfl .refl))
        obtain ⟨jobs, hstop⟩ := alone_stop name begun call rfl
        obtain ⟨jobs', hlaunch⟩ := alone_launch name
          { begun with statusThread := none, jobs := jobs, main := call.at .create } call rfl
        have hnotify := hlaunch.trans (Alone.of_eq rfl .refl)
        exact ⟨_, (hbegin.trans hstop).trans hnotify, rfl, rfl⟩
      | _ =>
        let begun : System T C N :=
          { s with
            backend := { s.backend with interfaces := s.backend.interfaces.erase (name tunnel) }
            main := call.at .check }
        have hbegin : Alone name s begun := Alone.of_eq hstep .refl
        obtain ⟨jobs, hstop⟩ := alone_stop name begun call rfl
        have hnotify := (hbegin.trans hstop).trans (.of_eq rfl (.of_eq rfl (.of_eq rfl .refl)))
        exact ⟨_, hnotify, rfl, rfl⟩
    · have herror : commandStep name s (.exited status) tunnel (some c) state next = _ := if_pos hstatus
      have hcall : s.backend.setStateInternal name (.exited status) tunnel (some c) state = _ :=
        if_pos hstatus
      rw [hcall]
      exact ⟨_, .of_eq (hstep.trans herror) .refl, rfl, rfl⟩

theorem alone_program (program : Program T C) (s : System T C N)
    (hmain : s.main = .running program) :
    ∃ s', Alone name s s' ∧ s'.main = .running (.ret (program.run name s.backend).1) ∧
      s'.backend = (program.run name s.backend).2 := by
  induction program generalizing s with
  | ret result => exact ⟨s, .refl, hmain, rfl⟩
  | call cmd tunnel config state next ih =>
    obtain ⟨s₁, halone, hnext, hbackend⟩ := alone_call name s hmain
    obtain ⟨s₂, halone', hret, hrun⟩ := ih _ s₁ hnext
    rw [hbackend] at hret hrun
    exact ⟨s₂, halone.trans halone', hret, hrun⟩

/-- Not disturbed, a call with all the steps of its threads does what `setState` of the backend
does at once. -/
theorem alone_setState [DecidableEq C] (order : HashOrder (T × C)) (o : Shell) (s : System T C N)
    (hmain : s.main = .idle) (tunnel : T) (requested : State) (config : Option C) :
    ∃ s', Alone name (step name order s (.call o tunnel requested config)) s' ∧ s'.main = .idle ∧
      s'.backend = (s.backend.setState name order o tunnel requested config).state := by
  have hcall : step name order s (.call o tunnel requested config) =
      { s with main := .running (setState name order o s.backend tunnel requested config) } := by
    simp only [step, hmain]
  obtain ⟨s', halone, hret, hbackend⟩ := alone_program name
    (setState name order o s.backend tunnel requested config) _ (congrArg System.main hcall)
  have hreturn : mainStep name s' = { s' with main := .idle } := by
    simp only [mainStep, hret]
  refine ⟨{ s' with main := .idle }, halone.trans (.of_eq hreturn .refl), rfl, ?_⟩
  rw [hcall, run_setState] at hbackend
  exact hbackend

theorem alone_setState_initial : ∃ s', Alone id (step id ⟨id, fun _ => .refl _⟩
      (initial Bool Bool Bool) (.call .working true .up (some true))) s' ∧ s'.main = .idle ∧
    s'.backend = (AwgQuickBackend.initial.setState id ⟨id, fun _ => .refl _⟩ .working true .up
      (some true)).state :=
  alone_setState id _ .working _ rfl true .up (some true)

end Steps

end StatusJobs

end Amnezia.Backend
