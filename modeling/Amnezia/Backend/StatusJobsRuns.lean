import Amnezia.Backend.StatusJobs

/-!
# What holds across the interleavings

Two things must not happen for the status threads to stop with the tunnel: `currentTunnel` is cleared
while a thread stands between its test of the interrupt flag and its read of the field, and a thread
that ends late clears the reference to its successor.
-/

namespace Amnezia.Backend.StatusJobs

variable {T C N : Type}

/-- The thread does not go on by itself: it was never started, has ended, or finds its interrupt flag
set at the next test. -/
def Job.Settled (job : Job T) : Prop :=
  job.pc = .created ∨ job.pc = .ended ∨ job.interrupted = true

/-- No thread asks for the handshake of `null`, and every thread that was launched before the last
completed DOWN transition has ended or has its interrupt flag set. -/
structure System.Safe (s : System T C N) : Prop where
  tunnel : ∀ job ∈ s.jobs, job.pc ≠ .polling none
  stopped : ∀ j job, j < s.stopped → s.jobs[j]? = some job →
    job.pc ≠ .created → job.pc = .ended ∨ job.interrupted = true

def Main.pc? : Main T C → Option MainPc
  | .internal call => some call.pc
  | _ => none

/-- When the tunnel is cleared, no thread stands between its test and its read; and a thread that
clears the field finds itself there, or nothing. -/
def Careful (s : System T C N) : Action T C → Prop
  | .call _ _ _ _ => True
  | .main => s.main.pc? = some .clearCurrent → ∀ job ∈ s.jobs, job.pc ≠ .read
  | .job j _ => s.jobs[j]?.map Job.pc = some .leaving →
    s.statusThread = none ∨ s.statusThread = some j

structure System.JobInv (s : System T C N) (j : Nat) (job : Job T) : Prop where
  referenced : job.Settled ∨ s.statusThread = some j
  tunnel : s.backend.currentTunnel = none → job.Settled ∧ job.pc ≠ .read
  polling : job.pc ≠ .polling none
  stopped : j < s.stopped → job.Settled

def System.AllSettled (s : System T C N) : Prop :=
  ∀ (j : Nat) (job : Job T), s.jobs[j]? = some job → job.Settled

def Internal.Inv (c : Internal T C) (s : System T C N) : Prop :=
  match c.pc with
  | .put | .setCurrent => c.state = .up
  | .check | .interrupt => c.state = .up → s.backend.currentTunnel ≠ none
  | .clear => (c.state = .up → s.backend.currentTunnel ≠ none) ∧
    ∀ j job, s.statusThread = some j → s.jobs[j]? = some job → job.Settled
  | .create => c.state = .up ∧ s.backend.currentTunnel ≠ none ∧ s.AllSettled
  | .start => c.state = .up ∧ s.backend.currentTunnel ≠ none ∧
    ∀ j, s.statusThread = some j → s.stopped ≤ j
  | .remove | .clearCurrent => s.AllSettled
  | .notify => c.state ≠ .up → s.AllSettled

structure System.Inv (s : System T C N) : Prop where
  jobs : ∀ j job, s.jobs[j]? = some job → s.JobInv j job
  main : ∀ c, s.main = .internal c → c.Inv s
  stopped : s.stopped ≤ s.jobs.length

theorem inv_initial : (initial T C N).Inv where
  jobs j job h := by cases h
  main c h := by cases h
  stopped := Nat.le_refl 0

theorem System.Inv.safe {s : System T C N} (h : s.Inv) : s.Safe where
  tunnel := by
    intro job hjob
    obtain ⟨j, hj⟩ := List.mem_iff_getElem?.mp hjob
    exact (h.jobs j job hj).polling
  stopped := by
    intro j job hlt hj hcreated
    exact ((h.jobs j job hj).stopped hlt).resolve_left hcreated

structure JobMoves (s s' : System T C N) (j : Nat) (job job' : Job T) : Prop where
  backend : s'.backend = s.backend
  main : s'.main = s.main
  stopped : s'.stopped = s.stopped
  jobs : s'.jobs = s.jobs.set j job'
  started : job.pc ≠ .created ∧ job.pc ≠ .ended
  interrupted : job'.interrupted = job.interrupted
  read : job'.pc = .read → job.pc = .head ∧ job.interrupted = false
  polling : job'.pc = .polling none → job.pc = .read ∧ s.backend.currentTunnel = none
  field : s'.statusThread = s.statusThread ∨
    s'.statusThread = none ∧ job.pc = .leaving ∧ job'.pc = .ended

section Jobs

variable {s s' : System T C N} {j : Nat} {job job' : Job T}

theorem jobMoves_setJob (job : Job T) (hstarted : job.pc ≠ .created ∧ job.pc ≠ .ended) {pc : JobPc T}
    (hread : pc = .read → job.pc = .head ∧ job.interrupted = false)
    (hpolling : pc = .polling none → job.pc = .read ∧ s.backend.currentTunnel = none) :
    JobMoves s (s.setJob j { job with pc := pc }) j job { job with pc := pc } :=
  ⟨rfl, rfl, rfl, rfl, hstarted, rfl, hread, hpolling, .inl rfl⟩

theorem afterRound_ne (round : Round) :
    afterRound round ≠ (.read : JobPc T) ∧ afterRound round ≠ (.polling none : JobPc T) := by
  cases round <;> exact ⟨nofun, nofun⟩

theorem jobStep_cases [DecidableEq N] (name : T → N) (s : System T C N) (j : Nat) (env : JobEnv) :
    jobStep name s j env = s ∨ ∃ job job', s.jobs[j]? = some job ∧
      JobMoves s (jobStep name s j env) j job job' := by
  unfold jobStep
  cases hj : s.jobs[j]? with
  | none => exact .inl rfl
  | some job =>
    obtain ⟨pc, interrupted⟩ := job
    cases pc with
    | created => exact .inl rfl
    | ended => exact .inl rfl
    | head =>
      refine .inr ⟨_, _, rfl, jobMoves_setJob ⟨.head, interrupted⟩ ⟨nofun, nofun⟩ ?_ ?_⟩
      · cases interrupted with
        | true => exact nofun
        | false => exact fun _ => ⟨rfl, rfl⟩
      · cases interrupted <;> exact nofun
    | read =>
      refine .inr ⟨_, _, rfl, jobMoves_setJob ⟨.read, interrupted⟩ ⟨nofun, nofun⟩ nofun ?_⟩
      intro h
      exact ⟨rfl, JobPc.polling.inj h⟩
    | polling tunnel =>
      cases tunnel with
      | none =>
        exact .inr ⟨_, _, rfl,
          jobMoves_setJob ⟨.polling none, interrupted⟩ ⟨nofun, nofun⟩ nofun nofun⟩
      | some tunnel =>
        refine .inr ⟨_, _, rfl,
          jobMoves_setJob ⟨.polling (some tunnel), interrupted⟩ ⟨nofun, nofun⟩ ?_ ?_⟩
        · exact fun h => absurd h (afterRound_ne _).1
        · exact fun h => absurd h (afterRound_ne _).2
    | sleeping =>
      refine .inr ⟨_, _, rfl, jobMoves_setJob ⟨.sleeping, interrupted⟩ ⟨nofun, nofun⟩ ?_ ?_⟩
      · split <;> exact nofun
      · split <;> exact nofun
    | reporting =>
      exact .inr ⟨_, _, rfl, jobMoves_setJob ⟨.reporting, interrupted⟩ ⟨nofun, nofun⟩ nofun nofun⟩
    | leaving =>
      exact .inr ⟨⟨.leaving, interrupted⟩, ⟨.ended, interrupted⟩, rfl, rfl, rfl, rfl, rfl, ⟨nofun, nofun⟩, rfl, nofun,
        nofun, .inr ⟨rfl, rfl, rfl⟩⟩

theorem JobMoves.settled (h : JobMoves s s' j job job') (hjob : job.Settled) : job'.Settled := by
  have hflag := (hjob.resolve_left h.started.1).resolve_left h.started.2
  exact .inr (.inr (h.interrupted.trans hflag))

theorem JobMoves.getElem? (hj : s.jobs[j]? = some job) (h : JobMoves s s' j job job') {k : Nat}
    {other : Job T} (hk : s'.jobs[k]? = some other) :
    (k = j ∧ other = job') ∨ (k ≠ j ∧ s.jobs[k]? = some other) := by
  have hlt := (List.getElem?_eq_some_iff.mp hj).1
  rw [h.jobs, List.getElem?_set, if_pos hlt] at hk
  split at hk
  · rename_i heq
    exact .inl ⟨heq.symm, (Option.some.inj hk).symm⟩
  · rename_i hne
    exact .inr ⟨fun heq => hne heq.symm, hk⟩

theorem JobMoves.internal (hj : s.jobs[j]? = some job) (h : JobMoves s s' j job job')
    {c : Internal T C} (hc : c.Inv s) : c.Inv s' := by
  have hsettled : ∀ (k : Nat) (other' : Job T), s'.jobs[k]? = some other' →
      ∃ other, s.jobs[k]? = some other ∧ (other.Settled → other'.Settled) := by
    intro k other' hk
    rcases h.getElem? hj hk with ⟨rfl, rfl⟩ | ⟨-, hk⟩
    · exact ⟨job, hj, h.settled⟩
    · exact ⟨other', hk, id⟩
  have hall : s.AllSettled → s'.AllSettled := by
    intro hs k other' hk
    obtain ⟨other, hother, hkeep⟩ := hsettled k other' hk
    exact hkeep (hs k other hother)
  have hfield : ∀ k, s'.statusThread = some k → s.statusThread = some k := by
    intro k hk
    rcases h.field with heq | ⟨hnone, -⟩
    · exact heq ▸ hk
    · rw [hnone] at hk
      cases hk
  unfold Internal.Inv at hc ⊢
  rw [h.backend, h.stopped]
  split at hc
  · exact hc
  · exact hc
  · exact hc
  · exact hc
  · refine ⟨hc.1, ?_⟩
    intro k other' hk hother'
    obtain ⟨other, hother, hkeep⟩ := hsettled k other' hother'
    exact hkeep (hc.2 k other (hfield k hk) hother)
  · exact ⟨hc.1, hc.2.1, hall hc.2.2⟩
  · exact ⟨hc.1, hc.2.1, fun k hk => hc.2.2 k (hfield k hk)⟩
  · exact hall hc
  · exact hall hc
  · exact fun hup => hall (hc hup)

theorem JobMoves.jobInv_self (h : JobMoves s s' j job job') (hinv : s.JobInv j job) :
    s'.JobInv j job' where
  referenced := by
    rcases h.field with hsame | ⟨-, -, hended⟩
    · rw [hsame]
      exact hinv.referenced.imp_left h.settled
    · exact .inl (.inr (.inl hended))
  tunnel := by
    intro hnone
    rw [h.backend] at hnone
    obtain ⟨hsettled, -⟩ := hinv.tunnel hnone
    refine ⟨h.settled hsettled, ?_⟩
    intro hread
    have hflag := (hsettled.resolve_left h.started.1).resolve_left h.started.2
    rw [(h.read hread).2] at hflag
    cases hflag
  polling := by
    intro hpolling
    obtain ⟨hread, hnone⟩ := h.polling hpolling
    exact (hinv.tunnel hnone).2 hread
  stopped := by
    intro hlt
    exact h.settled (hinv.stopped (h.stopped ▸ hlt))

theorem JobMoves.jobInv_other (h : JobMoves s s' j job job')
    (hclear : job.pc = .leaving → s.statusThread = none ∨ s.statusThread = some j) {k : Nat}
    (hne : k ≠ j) {other : Job T} (hinv : s.JobInv k other) : s'.JobInv k other where
  referenced := by
    rcases h.field with hsame | ⟨-, hleaving, -⟩
    · rw [hsame]
      exact hinv.referenced
    · rcases hinv.referenced with hsettled | hfield
      · exact .inl hsettled
      · rcases hclear hleaving with hnone | hself
        · rw [hnone] at hfield
          cases hfield
        · rw [hself] at hfield
          exact absurd (Option.some.inj hfield).symm hne
  tunnel := by
    rw [h.backend]
    exact hinv.tunnel
  polling := hinv.polling
  stopped := by
    rw [h.stopped]
    exact hinv.stopped

theorem inv_jobStep [DecidableEq N] {name : T → N} {env : JobEnv} (h : s.Inv)
    (hcareful : Careful s (.job j env : Action T C)) : (jobStep name s j env).Inv := by
  rcases jobStep_cases name s j env with heq | ⟨job, job', hj, hmoves⟩
  · rw [heq]
    exact h
  · have hclear : job.pc = .leaving → s.statusThread = none ∨ s.statusThread = some j := by
      intro hleaving
      apply hcareful
      rw [hj, Option.map_some, hleaving]
    refine ⟨?_, ?_, ?_⟩
    · intro k other hk
      rcases hmoves.getElem? hj hk with ⟨rfl, rfl⟩ | ⟨hne, hk⟩
      · exact hmoves.jobInv_self (h.jobs k job hj)
      · exact hmoves.jobInv_other hclear hne (h.jobs k other hk)
    · intro c hc
      rw [hmoves.main] at hc
      exact hmoves.internal hj (h.main c hc)
    · rw [hmoves.stopped, hmoves.jobs, List.length_set]
      exact h.stopped

end Jobs

section Calls

variable {s s' : System T C N} {c : Internal T C}

theorem System.Inv.of_same (h : s.Inv) (hjobs : s'.jobs = s.jobs)
    (hfield : s'.statusThread = s.statusThread)
    (htunnel : s'.backend.currentTunnel = s.backend.currentTunnel)
    (hstopped : s'.stopped = s.stopped) (hmain : ∀ c, s'.main = .internal c → c.Inv s') :
    s'.Inv where
  jobs := by
    intro j job hj
    rw [hjobs] at hj
    obtain ⟨hreferenced, hnone, hpolling, hstop⟩ := h.jobs j job hj
    exact ⟨hfield ▸ hreferenced, htunnel ▸ hnone, hpolling, hstopped ▸ hstop⟩
  main := hmain
  stopped := by
    rw [hstopped, hjobs]
    exact h.stopped

theorem System.Inv.running (h : s.Inv) (program : Program T C) :
    { s with main := .running program }.Inv := by
  refine h.of_same rfl rfl rfl rfl ?_
  intro c hc
  cases hc

theorem System.Inv.allSettled_of_none (h : s.Inv) (hnone : s.statusThread = none) :
    s.AllSettled := by
  intro j job hj
  rcases (h.jobs j job hj).referenced with hsettled | hfield
  · exact hsettled
  · rw [hnone] at hfield
    cases hfield

theorem inv_afterStop (hsettled : s.AllSettled)
    (htunnel : c.state = .up → s.backend.currentTunnel ≠ none) {c' : Internal T C}
    (hc' : c.at (afterStop c.state) = .internal c') : c'.Inv s := by
  cases hc'
  unfold Internal.Inv afterStop
  by_cases hup : c.state = .up
  · simp only [if_pos hup]
    exact ⟨hup, htunnel hup, hsettled⟩
  · simp only [if_neg hup]
    exact hsettled

variable [DecidableEq T]

theorem inv_put (h : s.Inv) (hpc : c.pc = .put) (hc : c.Inv s) : (internalStep s c).Inv := by
  simp only [Internal.Inv, hpc] at hc
  simp only [internalStep, hpc]
  refine h.of_same rfl rfl rfl rfl ?_
  intro c' hc'
  cases hc'
  exact hc

theorem inv_setCurrent (h : s.Inv) (hpc : c.pc = .setCurrent) : (internalStep s c).Inv := by
  simp only [internalStep, hpc]
  refine ⟨?_, ?_, h.stopped⟩
  · intro j job hj
    obtain ⟨hreferenced, -, hpolling, hstop⟩ := h.jobs j job hj
    exact ⟨hreferenced, fun hnone => absurd hnone (Option.some_ne_none _), hpolling, hstop⟩
  · intro c' hc'
    cases hc'
    exact fun _ => Option.some_ne_none _

theorem inv_check (h : s.Inv) (hpc : c.pc = .check) (hc : c.Inv s) : (internalStep s c).Inv := by
  simp only [Internal.Inv, hpc] at hc
  simp only [internalStep, hpc]
  refine h.of_same rfl rfl rfl rfl ?_
  intro c' hc'
  by_cases hnone : s.statusThread = none
  · simp only [if_pos hnone] at hc'
    exact inv_afterStop (s := { s with main := _ }) (h.allSettled_of_none hnone) hc hc'
  · simp only [if_neg hnone] at hc'
    cases hc'
    exact hc

-- the thread of the field is settled from now on, and no thread is less settled than before
theorem inv_interrupt (h : s.Inv) (hpc : c.pc = .interrupt) (hc : c.Inv s) :
    (internalStep s c).Inv := by
  simp only [Internal.Inv, hpc] at hc
  simp only [internalStep, hpc]
  split
  · exact h.running _
  · rename_i i hfield
    have hget : ∀ (j : Nat) (job : Job T),
        (s.jobs.modify i fun job => { job with interrupted := true })[j]? = some job →
        ∃ job₀, s.jobs[j]? = some job₀ ∧ job.pc = job₀.pc ∧ (job₀.Settled → job.Settled) ∧
          (j = i → job.Settled) := by
      intro j job hj
      rw [List.getElem?_modify, Option.map_eq_map, Option.map_eq_some_iff] at hj
      obtain ⟨job₀, hj₀, rfl⟩ := hj
      refine ⟨job₀, hj₀, ?_⟩
      by_cases heq : i = j
      · rw [if_pos heq]
        exact ⟨rfl, fun _ => .inr (.inr rfl), fun _ => .inr (.inr rfl)⟩
      · rw [if_neg heq]
        exact ⟨rfl, id, fun h => absurd h.symm heq⟩
    refine ⟨?_, ?_, ?_⟩
    · intro j job hj
      obtain ⟨job₀, hj₀, hpc₀, hkeep, -⟩ := hget j job hj
      obtain ⟨hreferenced, hnone, hpolling, hstop⟩ := h.jobs j job₀ hj₀
      refine ⟨?_, ?_, hpc₀ ▸ hpolling, fun hlt => hkeep (hstop hlt)⟩
      · exact hreferenced.imp_left hkeep
      · intro htunnel
        exact ⟨hkeep (hnone htunnel).1, hpc₀ ▸ (hnone htunnel).2⟩
    · intro c' hc'
      cases hc'
      refine ⟨hc, ?_⟩
      intro j job hj hjob
      obtain ⟨-, -, -, -, hself⟩ := hget j job hjob
      exact hself (Option.some.inj (hj.symm.trans hfield))
    · rw [List.length_modify]
      exact h.stopped

theorem inv_clear (h : s.Inv) (hpc : c.pc = .clear) (hc : c.Inv s) : (internalStep s c).Inv := by
  simp only [Internal.Inv, hpc] at hc
  have hsettled : s.AllSettled := by
    intro j job hj
    rcases (h.jobs j job hj).referenced with hsettled | hfield
    · exact hsettled
    · exact hc.2 j job hfield hj
  simp only [internalStep, hpc]
  refine ⟨?_, ?_, h.stopped⟩
  · intro j job hj
    obtain ⟨-, hnone, hpolling, hstop⟩ := h.jobs j job hj
    exact ⟨.inl (hsettled j job hj), hnone, hpolling, hstop⟩
  · intro c' hc'
    exact inv_afterStop (s := { s with statusThread := none, main := _ }) hsettled hc.1 hc'

omit [DecidableEq T] in
theorem getElem?_concat {jobs : List (Job T)} {new job : Job T} {j : Nat}
    (h : (jobs ++ [new])[j]? = some job) : jobs[j]? = some job ∨ j = jobs.length ∧ job = new := by
  rw [List.getElem?_append] at h
  split at h
  · exact .inl h
  · rename_i hge
    obtain ⟨hlt, hget⟩ := List.getElem?_eq_some_iff.mp h
    rw [List.length_singleton] at hlt
    exact .inr ⟨by omega, by rw [← hget, List.getElem_singleton]⟩

theorem inv_create (h : s.Inv) (hpc : c.pc = .create) (hc : c.Inv s) : (internalStep s c).Inv := by
  simp only [Internal.Inv, hpc] at hc
  obtain ⟨hup, htunnel, hsettled⟩ := hc
  have hcreated : ({} : Job T).Settled := .inl rfl
  simp only [internalStep, hpc]
  refine ⟨?_, ?_, ?_⟩
  · intro j job hj
    rcases getElem?_concat hj with hj | ⟨rfl, rfl⟩
    · obtain ⟨-, -, hpolling, hstop⟩ := h.jobs j job hj
      exact ⟨.inl (hsettled j job hj), fun hnone => absurd hnone htunnel, hpolling, hstop⟩
    · refine ⟨.inl hcreated, fun hnone => absurd hnone htunnel, ?_, fun _ => hcreated⟩
      intro hpolling
      cases hpolling
  · intro c' hc'
    cases hc'
    refine ⟨hup, htunnel, ?_⟩
    intro j hj
    rw [← Option.some.inj hj]
    exact h.stopped
  · rw [List.length_append]
    exact Nat.le_add_right_of_le h.stopped

theorem inv_start (h : s.Inv) (hpc : c.pc = .start) (hc : c.Inv s) : (internalStep s c).Inv := by
  simp only [Internal.Inv, hpc] at hc
  obtain ⟨hup, htunnel, hnew⟩ := hc
  simp only [internalStep, hpc]
  split
  · exact h.running _
  · rename_i i hfield
    split
    · rename_i interrupted hi
      refine ⟨?_, ?_, ?_⟩
      · intro j job hj
        by_cases hij : i = j
        · subst hij
          have hlate := hnew i hfield
          have hpolling : job.pc ≠ .polling none := by
            have hlt := (List.getElem?_eq_some_iff.mp hi).1
            simp only [System.setJob, List.getElem?_set_self hlt] at hj
            cases hj
            intro hpolling
            cases hpolling
          exact ⟨.inr hfield, fun hnone => absurd hnone htunnel, hpolling, fun hlt => by
            simp only [System.setJob] at hlt
            omega⟩
        · simp only [System.setJob, List.getElem?_set_ne hij] at hj
          obtain ⟨hreferenced, hnone, hpolling, hstop⟩ := h.jobs j job hj
          exact ⟨hreferenced, hnone, hpolling, hstop⟩
      · intro c' hc'
        cases hc'
        exact fun hnup => absurd hup hnup
      · simp only [System.setJob, List.length_set]
        exact h.stopped
    · exact h.running _

theorem inv_remove (h : s.Inv) (hpc : c.pc = .remove) (hc : c.Inv s) : (internalStep s c).Inv := by
  simp only [Internal.Inv, hpc] at hc
  simp only [internalStep, hpc]
  refine h.of_same rfl rfl rfl rfl ?_
  intro c' hc'
  cases hc'
  exact hc

theorem inv_clearCurrent (h : s.Inv) (hpc : c.pc = .clearCurrent) (hc : c.Inv s)
    (hread : ∀ job ∈ s.jobs, job.pc ≠ .read) : (internalStep s c).Inv := by
  simp only [Internal.Inv, hpc] at hc
  simp only [internalStep, hpc]
  refine ⟨?_, ?_, h.stopped⟩
  · intro j job hj
    obtain ⟨hreferenced, -, hpolling, hstop⟩ := h.jobs j job hj
    have hjob := hread job (List.mem_of_getElem? hj)
    exact ⟨hreferenced, fun _ => ⟨hc j job hj, hjob⟩, hpolling, hstop⟩
  · intro c' hc'
    cases hc'
    exact fun _ => hc

theorem inv_notify (h : s.Inv) (hpc : c.pc = .notify) (hc : c.Inv s) : (internalStep s c).Inv := by
  simp only [Internal.Inv, hpc] at hc
  simp only [internalStep, hpc]
  by_cases hup : c.state = .up
  · simp only [if_pos hup]
    refine h.of_same rfl rfl rfl rfl ?_
    intro c' hc'
    cases hc'
  · simp only [if_neg hup]
    refine ⟨?_, ?_, Nat.le_refl _⟩
    · intro j job hj
      obtain ⟨hreferenced, hnone, hpolling, -⟩ := h.jobs j job hj
      exact ⟨hreferenced, hnone, hpolling, fun _ => hc hup j job hj⟩
    · intro c' hc'
      cases hc'

theorem inv_internalStep (h : s.Inv) (hc : c.Inv s)
    (hread : c.pc = .clearCurrent → ∀ job ∈ s.jobs, job.pc ≠ .read) : (internalStep s c).Inv := by
  cases hpc : c.pc with
  | put => exact inv_put h hpc hc
  | setCurrent => exact inv_setCurrent h hpc
  | check => exact inv_check h hpc hc
  | interrupt => exact inv_interrupt h hpc hc
  | clear => exact inv_clear h hpc hc
  | create => exact inv_create h hpc hc
  | start => exact inv_start h hpc hc
  | remove => exact inv_remove h hpc hc
  | clearCurrent => exact inv_clearCurrent h hpc hc (hread hpc)
  | notify => exact inv_notify h hpc hc

variable [DecidableEq N] {name : T → N}

omit [DecidableEq T] in
theorem inv_commandStep (h : s.Inv) (cmd : CommandResult) (tunnel : T) (config : Option C)
    (state : State) (next : Except Thrown Unit → Program T C) :
    (commandStep name s cmd tunnel config state next).Inv := by
  unfold commandStep
  split
  · exact h.running _
  · exact h.running _
  · split
    · exact h.running _
    · refine h.of_same rfl rfl rfl rfl ?_
      intro c' hc'
      cases hc'
      unfold Internal.Inv
      by_cases hup : state = .up
      · simp only [if_pos hup]
        exact hup
      · simp only [if_neg hup]
        exact fun hstate => absurd hstate hup

theorem inv_mainStep (h : s.Inv) (hcareful : Careful s (.main : Action T C)) :
    (mainStep name s).Inv := by
  unfold mainStep
  split
  · exact h
  · refine h.of_same rfl rfl rfl rfl ?_
    intro c hc
    cases hc
  · exact inv_commandStep h _ _ _ _ _
  · rename_i c hmain
    refine inv_internalStep h (h.main c hmain) ?_
    intro hpc
    apply hcareful
    rw [hmain]
    exact congrArg some hpc

theorem inv_step [DecidableEq C] {order : HashOrder (T × C)} (h : s.Inv) {action : Action T C}
    (hcareful : Careful s action) : (step name order s action).Inv := by
  cases action with
  | call o tunnel requested config =>
    simp only [step]
    split
    · exact h.running _
    · exact h
  | main => exact inv_mainStep h hcareful
  | job j env => exact inv_jobStep h hcareful

/-- In an interleaving in which each access to the fields comes at a careful moment, no status thread
asks for the handshake of `null`, and after a DOWN transition every thread launched before it has ended
or has its interrupt flag set. -/
theorem safe_of_careful [DecidableEq C] (name : T → N) (order : HashOrder (T × C))
    (actions : List (Action T C))
    (h : Runs.Guarded (step name order) Careful (initial T C N) actions) :
    ∀ s ∈ Runs.states (step name order) (initial T C N) actions, s.Safe := by
  intro s hs
  have hstep : ∀ (s : System T C N) action, s.Inv → Careful s action →
      (step name order s action).Inv := fun _ _ h hcareful => inv_step h hcareful
  exact (Runs.invariant_states hstep inv_initial h s hs).safe

end Calls

def unitOrder : HashOrder (Unit × Unit) := ⟨id, fun l => .refl l⟩

def bringUpCall : List (Action Unit Unit) :=
  .call .working () .up (some ()) :: List.replicate 8 .main

def bringDownCall : List (Action Unit Unit) :=
  .call .working () .down none :: List.replicate 8 .main

def quietRun : List (Action Unit Unit) :=
  bringUpCall ++ List.replicate 3 (.job 0 { run := some (0, ["k\t0".toList]) }) ++ bringDownCall ++
    List.replicate 2 (.job 0 {})

instance [DecidableEq T] (s : System T C N) (action : Action T C) : Decidable (Careful s action) :=
  match action with
  | .call _ _ _ _ => isTrue trivial
  | .main => inferInstanceAs (Decidable (_ → _))
  | .job _ _ => inferInstanceAs (Decidable (_ → _))

theorem safe_of_careful_quiet :
    (Runs.run (step id unitOrder) (initial Unit Unit Unit) quietRun).jobs = [⟨.ended, true⟩] ∧
      ∀ s ∈ Runs.states (step id unitOrder) (initial Unit Unit Unit) quietRun, s.Safe := by
  refine ⟨by decide +kernel, safe_of_careful id unitOrder quietRun ?_⟩
  decide +kernel

def nullRun : List (Action Unit Unit) :=
  bringUpCall ++ [.job 0 {}] ++ .call .working () .down none :: List.replicate 6 .main ++ [.job 0 {}]

/-- The first thread reports and is about to end; the tunnel goes down and up again; the first thread
clears the reference to the second; the tunnel goes down. -/
def lateRun : List (Action Unit Unit) :=
  bringUpCall ++ List.replicate 4 (.job 0 { run := some (0, ["k\t5".toList]) }) ++ bringDownCall ++
    bringUpCall ++ [.job 0 {}] ++ .call .working () .down none :: List.replicate 6 .main

/-- In the first run a thread asks for the handshake of `null`; in the second one a thread goes on
after the tunnel went down, without an interrupt. -/
theorem status_thread_survives :
    ((Runs.run (step id unitOrder) (initial Unit Unit Unit) nullRun).jobs = [⟨.polling none, true⟩] ∧
      ¬(Runs.run (step id unitOrder) (initial Unit Unit Unit) nullRun).Safe) ∧
    (Runs.run (step id unitOrder) (initial Unit Unit Unit) lateRun).jobs =
        [⟨.ended, true⟩, ⟨.head, false⟩] ∧
      (Runs.run (step id unitOrder) (initial Unit Unit Unit) lateRun).stopped = 2 ∧
      ¬(Runs.run (step id unitOrder) (initial Unit Unit Unit) lateRun).Safe := by
  refine ⟨⟨by decide +kernel, ?_⟩, by decide +kernel, by decide +kernel, ?_⟩
  · intro hsafe
    exact hsafe.tunnel ⟨.polling none, true⟩ (by decide +kernel) rfl
  · intro hsafe
    have hjob := hsafe.stopped 1 ⟨.head, false⟩ (by decide +kernel) (by decide +kernel) nofun
    rcases hjob with hended | hflag
    · cases hended
    · cases hflag

end Amnezia.Backend.StatusJobs
