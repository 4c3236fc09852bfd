import Amnezia.Java.LiveReader

/-!
# The root shell

`RootShell.run`: one shell process lives through all commands, and its two output streams carry the
output of all of them.  A command's part of a stream stands between two lines that begin with a
random marker, of which the second one carries the exit status.
-/

namespace Amnezia.Util

open Java (Text LiveReader)
open Java.LiveReader

structure Marker where
  text : Text
  length_eq : text.length = 36
  plain : text.all (fun c => c.isAlphanum || c == '-') = true

structure Command where
  stdout : Text
  stderr : Text
  status : BitVec 8

structure Call where
  marker : Marker
  command : Command
  /-- The collection the lines are added to, or `null`. -/
  output : Option (List Text)
  stdout_free : ¬ marker.text <:+: command.stdout
  stderr_free : ¬ marker.text <:+: command.stderr

namespace Call

def started (call : Call) : Text := call.marker.text ++ ['\n']

def statusLine (call : Call) : Text :=
  call.marker.text ++ ' ' :: Java.valueOf call.command.status.toNat

def finished (call : Call) : Text := call.statusLine ++ ['\n']

end Call

inductive Stop where
  | errno (status : Int)
  | numberFormatException
  /-- `readLine` waits for a line that the shell does not write. -/
  | waits
deriving DecidableEq

structure ReadLoop where
  markersSeen : Nat
  /-- The lines after the first marker. -/
  kept : List Text
  rest : List Text
  stop : Stop
deriving DecidableEq

/-- The two loops of `run`, which keep the lines that come after more than `after` markers: the
first one adds them to the output, the second one only logs them. -/
def readLoop (marker : Text) (after : Nat) : Nat → List Text → ReadLoop
  | seen, [] => ⟨seen, [], [], .waits⟩
  | seen, line :: lines =>
    if marker.isPrefixOf line then
      if line.length > marker.length + 1 then
        match Java.parseInt (line.drop (marker.length + 1)) with
        | some status => ⟨seen + 1, [], lines, .errno status⟩
        | none => ⟨seen + 1, [], lines, .numberFormatException⟩
      else readLoop marker after (seen + 1) lines
    else if seen > after then
      let loop := readLoop marker after seen lines
      { loop with kept := line :: loop.kept }
    else readLoop marker after seen lines

inductive RunException where
  | numberFormat
  | shellMarkerCountError (markersSeen : Nat)
  | shellExitStatusReadError
deriving DecidableEq

structure Ran where
  output : Option (List Text)
  result : Except RunException Int
deriving DecidableEq

/-- The streams of the shell, as far as they have been written and not been read. -/
structure RootShell where
  stdout : LiveReader := {}
  stderr : LiveReader := {}
  /-- What the pipe of the standard error holds. -/
  piped : Text := []

namespace RootShell

/-- `RootShell.run` on a shell that lives; `none` is a call that never returns.  `fits` is what the
pipe of the standard error takes while nobody reads it: `run` does not read that stream before it
has seen the end of the other one. -/
def run (fits : Text → Bool) (shell : RootShell) (call : Call) : Option (Ran × RootShell) :=
  let marker := call.marker.text
  let stdout := shell.stdout.write (call.started ++ call.command.stdout ++ call.finished)
  let stderr := shell.stderr.write (call.started ++ call.command.stderr ++ call.finished)
  let piped := shell.piped ++ call.started ++ call.command.stderr
  if fits piped then
    let out := readLoop marker 0 0 stdout.lines
    let output := call.output.map (· ++ out.kept)
    let stdout := { stdout with lines := out.rest }
    match out.stop with
    | .waits => none
    | .numberFormatException =>
      some (⟨output, .error .numberFormat⟩, ⟨stdout, stderr, piped ++ call.finished⟩)
    | .errno errnoStdout =>
      let err := readLoop marker 2 out.markersSeen stderr.lines
      let shell : RootShell := ⟨stdout, { stderr with lines := err.rest }, []⟩
      match err.stop with
      | .waits => none
      | .numberFormatException => some (⟨output, .error .numberFormat⟩, shell)
      | .errno errnoStderr =>
        if err.markersSeen ≠ 4 then
          some (⟨output, .error (.shellMarkerCountError err.markersSeen)⟩, shell)
        else if errnoStdout ≠ errnoStderr then
          some (⟨output, .error .shellExitStatusReadError⟩, shell)
        else some (⟨output, .ok errnoStdout⟩, shell)
  -- the command does not get to its end, and the standard output does not get its last line
  else none

/-- Calls one after the other.  A call that does not return keeps the lock. -/
def session (fits : Text → Bool) : RootShell → List Call → List (Option Ran)
  | _, [] => []
  | shell, call :: calls =>
    match shell.run fits call with
    | none => none :: calls.map fun _ => none
    | some (ran, shell) => some ran :: session fits shell calls

end RootShell

namespace Call

def expected (call : Call) : Ran :=
  ⟨call.output.map (· ++ Java.readLines call.command.stdout), .ok call.command.status.toNat⟩

def Framed (fits : Text → Bool) (call : Call) : Prop :=
  Ended call.command.stdout ∧ Ended call.command.stderr ∧
    fits (call.started ++ call.command.stderr) = true

instance (fits : Text → Bool) (call : Call) : Decidable (call.Framed fits) :=
  inferInstanceAs (Decidable (_ ∧ _ ∧ _))

end Call

theorem Marker.ends_eq_false (marker : Marker) {c : Char} (hc : c ∈ marker.text) :
    ends c = false := by
  have hplain := List.all_eq_true.1 marker.plain c hc
  simp only [Bool.or_eq_true, beq_iff_eq] at hplain
  rcases hplain with hword | rfl
  · have hlow := Java.isAlphanum_iff.1 hword
    simp only [ends, Bool.or_eq_false_iff, beq_eq_false_iff_ne]
    constructor
    · rintro rfl
      revert hword
      decide
    · rintro rfl
      revert hword
      decide
  · decide

theorem Marker.text_ne_nil (marker : Marker) : marker.text ≠ [] :=
  List.ne_nil_of_length_pos (by rw [marker.length_eq]; omega)

namespace Call

variable (call : Call)

theorem ends_statusLine {c : Char} (hc : c ∈ call.statusLine) : ends c = false := by
  rcases List.mem_append.1 hc with hc | hc
  · exact call.marker.ends_eq_false hc
  · rcases List.mem_cons.1 hc with rfl | hc
    · decide
    · have hdigit := Java.isDigit_of_mem_valueOf hc
      simp only [ends, Bool.or_eq_false_iff, beq_eq_false_iff_ne]
      constructor
      · rintro rfl
        revert hdigit
        decide
      · rintro rfl
        revert hdigit
        decide

theorem write_part (text : Text) :
    write {} (call.started ++ text ++ call.finished) =
      ⟨call.marker.text :: ((write {} text).lines ++
        [(write {} text).unended ++ call.statusLine]), [], false⟩ := by
  have hstarted : write {} call.started = ⟨[call.marker.text], [], false⟩ :=
    write_line (fun _ hc => call.marker.ends_eq_false hc) call.marker.text_ne_nil {}
  have htext : write ⟨[call.marker.text], [], false⟩ text =
      { write {} text with
        lines := [call.marker.text] ++ (write {} text).lines } :=
    write_lines [call.marker.text] {} text
  have hne : call.statusLine ≠ [] := by simp [statusLine]
  rw [write_append, write_append, hstarted, htext, finished,
    write_line (fun _ hc => call.ends_statusLine hc) hne]
  rfl

theorem not_prefix_of_mem_lines {text line : Text} (hfree : ¬ call.marker.text <:+: text)
    (hline : line ∈ (write {} text).lines) : ¬ call.marker.text <+: line := by
  intro hstarts
  rcases infix_of_mem_write (r := {}) (fun _ => rfl) hline with hline | hline
  · exact absurd hline List.not_mem_nil
  · exact hfree (hstarts.isInfix.trans hline)

end Call

section

variable {marker : Text} {after seen : Nat}

theorem readLoop_marker (lines : List Text) :
    readLoop marker after seen (marker :: lines) = readLoop marker after (seen + 1) lines := by
  have hshort : ¬ marker.length > marker.length + 1 := by omega
  rw [readLoop, if_pos (List.isPrefixOf_iff_prefix.2 List.prefix_rfl), if_neg hshort]

theorem readLoop_append {lines : List Text} (h : ∀ line ∈ lines, ¬ marker <+: line)
    (rest : List Text) : readLoop marker after seen (lines ++ rest) =
      let loop := readLoop marker after seen rest
      { loop with kept := (if seen > after then lines else []) ++ loop.kept } := by
  induction lines with
  | nil => simp
  | cons line lines ih =>
    have hline : ¬ marker.isPrefixOf line = true := by
      rw [List.isPrefixOf_iff_prefix]
      exact h line List.mem_cons_self
    rw [List.cons_append, readLoop, if_neg hline,
      ih (fun l hl => h l (List.mem_cons_of_mem _ hl))]
    split <;> simp

end

namespace Call

variable (call : Call) {after seen : Nat}

theorem readLoop_statusLine : readLoop call.marker.text after seen [call.statusLine] =
    ⟨seen + 1, [], [], .errno call.command.status.toNat⟩ := by
  have hstarts : call.marker.text.isPrefixOf call.statusLine = true :=
    List.isPrefixOf_iff_prefix.2 (List.prefix_append _ _)
  have hdigits := List.length_pos_of_ne_nil (Java.valueOf_ne_nil call.command.status.toNat)
  have hlong : call.statusLine.length > call.marker.text.length + 1 := by
    rw [statusLine, List.length_append, List.length_cons]
    omega
  have hdrop : call.statusLine.drop (call.marker.text.length + 1) =
      Java.valueOf call.command.status.toNat := by
    rw [statusLine, ← List.drop_drop, List.drop_left]
    rfl
  have hstatus := call.command.status.isLt
  have hparse : Java.parseInt (Java.valueOf call.command.status.toNat) =
      some (call.command.status.toNat : Int) := Java.parseInt_valueOf (by omega)
  rw [readLoop, if_pos hstarts, if_pos hlong, hdrop, hparse]

-- What stands before the marker on its line hides it, or else leaves a blank in the number.
theorem stop_statusLine {unended : Text} (hne : unended ≠ []) (status : Int) :
    (readLoop call.marker.text after seen [unended ++ call.statusLine]).stop ≠ .errno status := by
  have hpos := List.length_pos_of_ne_nil hne
  have hdrop : (unended ++ call.statusLine).drop (call.marker.text.length + 1) =
      (unended ++ call.marker.text).drop (call.marker.text.length + 1) ++
        ' ' :: Java.valueOf call.command.status.toNat := by
    rw [statusLine, ← List.append_assoc, List.drop_append_of_le_length]
    rw [List.length_append]
    omega
  have hparse : Java.parseInt
      ((unended ++ call.statusLine).drop (call.marker.text.length + 1)) = none := by
    cases hparse : Java.parseInt
        ((unended ++ call.statusLine).drop (call.marker.text.length + 1)) with
    | none => rfl
    | some n =>
      have hblank : ' ' ∈ (unended ++ call.statusLine).drop (call.marker.text.length + 1) := by
        rw [hdrop]
        simp
      exact absurd ((Java.space_of_parseInt hparse).2 ' ' hblank) (by decide)
  rw [readLoop]
  split
  · split
    · rw [hparse]
      exact fun h => nomatch h
    · exact fun h => nomatch h
  · split
    · exact fun h => nomatch h
    · exact fun h => nomatch h

/-- A loop over the call's part of a stream: it goes through exactly when the text ends with a line,
and keeps the lines of the text. -/
theorem readLoop_part {text : Text} (hfree : ¬ call.marker.text <:+: text)
    (hended : Ended text) :
    readLoop call.marker.text after seen
        (write {} (call.started ++ text ++ call.finished)).lines =
      ⟨seen + 2, if seen + 1 > after then Java.readLines text else [], [],
        .errno call.command.status.toNat⟩ := by
  -- nothing of the text stands before the last marker on its line
  have hunended := (unended_write_eq_nil_iff text).2 hended
  have hlines : (write {} text).lines = Java.readLines text := by
    rw [← drain_write, drain, if_pos hunended, List.append_nil]
  rw [write_part, readLoop_marker,
    readLoop_append (fun _ hline => call.not_prefix_of_mem_lines hfree hline), hunended,
    List.nil_append, readLoop_statusLine, hlines]
  simp

theorem stop_part {text : Text} (hfree : ¬ call.marker.text <:+: text)
    (hended : ¬ Ended text) (status : Int) :
    (readLoop call.marker.text after seen
      (write {} (call.started ++ text ++ call.finished)).lines).stop ≠
        .errno status := by
  have hunended : (write {} text).unended ≠ [] :=
    fun h => hended ((unended_write_eq_nil_iff text).1 h)
  rw [write_part, readLoop_marker,
    readLoop_append (fun _ hline => call.not_prefix_of_mem_lines hfree hline)]
  exact call.stop_statusLine hunended status

end Call

namespace RootShell

variable {fits : Text → Bool} {call : Call}

theorem lines_write_part (call : Call) (text : Text) :
    { write {} (call.started ++ text ++ call.finished) with lines := [] } =
      ({} : LiveReader) := by
  rw [Call.write_part]

theorem run_of_framed (h : call.Framed fits) :
    run fits {} call = some (call.expected, {}) := by
  obtain ⟨hout, herr, hfits⟩ := h
  unfold run
  simp only [List.nil_append]
  rw [if_pos hfits, call.readLoop_part call.stdout_free hout,
    call.readLoop_part call.stderr_free herr, lines_write_part, lines_write_part]
  simp [Call.expected]

-- A call returns only with a number from both of the streams.
theorem run_ok {shell shell' : RootShell} {output : Option (List Text)} {status : Int}
    (h : shell.run fits call = some (⟨output, .ok status⟩, shell')) :
    fits (shell.piped ++ call.started ++ call.command.stderr) = true ∧
      (∃ n, (readLoop call.marker.text 0 0 (shell.stdout.write
        (call.started ++ call.command.stdout ++ call.finished)).lines).stop = .errno n) ∧
      ∃ seen n, (readLoop call.marker.text 2 seen (shell.stderr.write
        (call.started ++ call.command.stderr ++ call.finished)).lines).stop = .errno n := by
  unfold run at h
  simp only at h
  split at h
  · next hfits =>
    split at h
    · cases h
    · simp at h
    · next n hstdout =>
      split at h
      · cases h
      · simp at h
      · next m hstderr => exact ⟨hfits, ⟨n, hstdout⟩, _, m, hstderr⟩
  · cases h

theorem framed_of_run {shell' : RootShell} (h : run fits {} call = some (call.expected, shell')) :
    call.Framed fits := by
  obtain ⟨hfits, ⟨n, hstdout⟩, seen, m, hstderr⟩ := run_ok h
  refine ⟨?_, ?_, hfits⟩
  · by_contra hout
    exact call.stop_part call.stdout_free hout n hstdout
  · by_contra herr
    exact call.stop_part call.stderr_free herr m hstderr

/-- On a live shell, each of a sequence of calls returns the exit status of its command and adds the
lines that the command wrote to its standard output, exactly when every command ends what it writes
with the end of a line and the pipe takes what it writes to its standard error. -/
theorem session_eq_expected_iff (fits : Text → Bool) (calls : List Call) :
    session fits {} calls = calls.map (fun call => some call.expected) ↔
      ∀ call ∈ calls, call.Framed fits := by
  induction calls with
  | nil => simp [session]
  | cons call calls ih =>
    -- a call that returns what it should leaves a quiet shell behind, so the rest starts from there
    rw [List.forall_mem_cons, ← ih, session, List.map_cons]
    constructor
    · intro h
      cases hrun : run fits {} call with
      | none => simp [hrun] at h
      | some p =>
        obtain ⟨ran, shell⟩ := p
        simp only [hrun, List.cons.injEq, Option.some.injEq] at h
        obtain ⟨rfl, hrest⟩ := h
        have hframed := framed_of_run hrun
        rw [run_of_framed hframed] at hrun
        cases hrun
        exact ⟨hframed, hrest⟩
    · rintro ⟨hframed, hrest⟩
      rw [run_of_framed hframed]
      simp only [hrest]

def printfFoo : Call where
  marker := ⟨"123e4567-e89b-42d3-a456-426614174000".toList, by decide, by decide⟩
  command := ⟨"foo".toList, [], 0⟩
  output := some []
  stdout_free := by decide
  stderr_free := by decide

def echoBar : Call where
  marker := ⟨"9b2d7c1e-0f3a-4c58-8e6b-d41f5a7c9023".toList, by decide, by decide⟩
  command := ⟨"bar\n".toList, [], 0⟩
  output := some []
  stdout_free := by decide
  stderr_free := by decide

/-- After `printf foo` the line with the exit status is `foo123e4567-… 0`, which is taken for output.
The call waits for another line, and whoever calls `run` next waits for the lock. -/
theorem printfFoo_never_returns :
    session (fun text => text.length ≤ 65536) {} [printfFoo, echoBar] = [none, none] := by
  decide

end RootShell

end Amnezia.Util
