import Amnezia.Backend.AwgQuick
import Amnezia.Backend.GoStatistics

/-!
# The last handshake

`getLastHandshake` of both backends looks for a line with a time and returns the first one it finds,
whatever the times of the other peers are.  The status job reports a connection when that time is
positive.
-/

namespace Amnezia.Backend

open Crypto (Key)
open Java (Text)

/-- The loop of `getLastHandshake`: the first time there is, -2 when it is no number, and -1 when
there is none. -/
def firstTime (time : Text → Option Text) : List Text → Int
  | [] => -1
  | line :: lines =>
    match time line with
    | some text => (Java.parseLong text).getD (-2)
    | none => firstTime time lines

def uapiTime (line : Text) : Option Text :=
  if startsWith "last_handshake_time_sec=" line then some (line.drop 24) else none

def shownTime (line : Text) : Option Text :=
  match Java.split '\t' line with
  | _ :: time :: _ => some time
  | _ => none

/-- `getLastHandshake`; the tunnel may be `null`. -/
def GoBackend.getLastHandshake {T C S : Type*} [DecidableEq T] (s : GoBackend T C S)
    (awgGetConfig : Int → Option Text) (tunnel : Option T) : Int :=
  if tunnel ≠ s.currentTunnel ∨ s.currentTunnelHandle = -1 then -3
  else
    match awgGetConfig s.currentTunnelHandle with
    | none => -2
    | some config => firstTime uapiTime (Java.split '\n' config)

/-- `getLastHandshake`, where `run` is the status and the output of the command, or its exception. -/
def AwgQuickBackend.getLastHandshake {T C N : Type*} [DecidableEq N] (name : T → N) (shows : Bool)
    (run : Option (Int × List Text)) (s : AwgQuickBackend T C N) (tunnel : T) : Int :=
  if getState name shows s tunnel ≠ .up then -3
  else
    match run with
    | none => -2
    | some (status, output) => if status ≠ 0 then -2 else firstTime shownTime output

inductive Round where
  | stop
  | retry
  | report
  deriving DecidableEq, Repr

def statusRound (lastHandshake : Int) : Round :=
  if lastHandshake = -3 then .stop
  else if lastHandshake = 0 then .retry
  else if lastHandshake > 0 then .report
  else .retry

theorem statusRound_report {n : Int} : statusRound n = .report ↔ 0 < n := by
  unfold statusRound
  split_ifs with h₁ h₂ h₃
  · exact ⟨nofun, fun h => by omega⟩
  · exact ⟨nofun, fun h => by omega⟩
  · exact ⟨fun _ => h₃, fun _ => rfl⟩
  · exact ⟨nofun, fun h => absurd h h₃⟩

def PositiveTime (text : Text) : Prop := ∃ n, Java.parseLong text = some n ∧ 0 < n

def SomePositive (time : Text → Option Text) (lines : List Text) : Prop :=
  ∃ line ∈ lines, ∃ text, time line = some text ∧ PositiveTime text

def FirstCounts (time : Text → Option Text) (lines : List Text) : Prop :=
  ∀ first rest, lines.filterMap time = first :: rest → (∃ text ∈ rest, PositiveTime text) →
    PositiveTime first

section FirstTime

variable (time : Text → Option Text) (lines : List Text)

theorem firstTime_eq : firstTime time lines =
    match lines.filterMap time with
    | [] => -1
    | text :: _ => (Java.parseLong text).getD (-2) := by
  induction lines with
  | nil => rfl
  | cons line lines ih =>
    rw [firstTime, List.filterMap_cons]
    cases time line with
    | none => exact ih
    | some text => rfl

theorem somePositive_iff : SomePositive time lines ↔
    ∃ text ∈ lines.filterMap time, PositiveTime text := by
  constructor
  · rintro ⟨line, hline, text, htime, hpos⟩
    exact ⟨text, List.mem_filterMap.mpr ⟨line, hline, htime⟩, hpos⟩
  · rintro ⟨text, htext, hpos⟩
    obtain ⟨line, hline, htime⟩ := List.mem_filterMap.mp htext
    exact ⟨line, hline, text, htime, hpos⟩

theorem pos_getD_iff (text : Text) : 0 < (Java.parseLong text).getD (-2) ↔ PositiveTime text := by
  unfold PositiveTime
  cases Java.parseLong text with
  | none => exact ⟨fun h => absurd h (by decide), fun ⟨n, hn, _⟩ => by cases hn⟩
  | some n => exact ⟨fun h => ⟨n, rfl, h⟩, fun ⟨m, hm, hpos⟩ => by cases hm; exact hpos⟩

theorem firstTime_pos_iff :
    (0 < firstTime time lines ↔ SomePositive time lines) ↔ FirstCounts time lines := by
  rw [firstTime_eq, somePositive_iff]
  unfold FirstCounts
  cases lines.filterMap time with
  | nil =>
    constructor
    · intro _ first rest h
      cases h
    · intro _
      constructor
      · intro h
        exact absurd h (by decide)
      · rintro ⟨text, htext, -⟩
        cases htext
  | cons first rest =>
    simp only [pos_getD_iff, List.mem_cons, List.cons.injEq]
    constructor
    · rintro h _ _ ⟨rfl, rfl⟩ ⟨text, htext, hpos⟩
      exact h.mpr ⟨text, .inr htext, hpos⟩
    · intro h
      constructor
      · intro hfirst
        exact ⟨first, .inl rfl, hfirst⟩
      · rintro ⟨text, rfl | htext, hpos⟩
        · exact hpos
        · exact h first rest ⟨rfl, rfl⟩ ⟨text, htext, hpos⟩

end FirstTime

theorem GoBackend.getLastHandshake_running {T C S : Type*} [DecidableEq T] {s : GoBackend T C S}
    {awgGetConfig : Int → Option Text} {tunnel : T} {config : Text}
    (htunnel : s.currentTunnel = some tunnel) (hhandle : s.currentTunnelHandle ≠ -1)
    (hconfig : awgGetConfig s.currentTunnelHandle = some config) :
    s.getLastHandshake awgGetConfig (some tunnel) = firstTime uapiTime (Java.split '\n' config) := by
  unfold getLastHandshake
  rw [if_neg, hconfig]
  rw [htunnel]
  exact fun h => h.elim (fun hne => hne rfl) hhandle

theorem AwgQuickBackend.getLastHandshake_running {T C N : Type*} [DecidableEq N] {name : T → N}
    {shows : Bool} {s : AwgQuickBackend T C N} {tunnel : T}
    (hup : getState name shows s tunnel = .up) (output : List Text) :
    getLastHandshake name shows (some (0, output)) s tunnel = firstTime shownTime output := by
  unfold getLastHandshake
  rw [if_neg (not_not_intro hup)]
  exact if_neg (not_not_intro rfl)

/-- The block of a peer as the device prints it; a time without seconds is less than a millisecond. -/
structure PeerBlock.Printed (b : PeerBlock) : Prop where
  one : b.OneOfEach
  key : ∃ key, readKey b.keyText = some key
  time : ∃ sec nsec : Nat, b.number "last_handshake_time_sec=" = some (sec : Int) ∧
    b.number "last_handshake_time_nsec=" = some (nsec : Int) ∧
    sec * 1000 + nsec / 1000000 < 9223372036854775808 ∧ (sec = 0 → nsec < 1000000)

structure PrintedDevice (lines : List Text) : Prop where
  device : ∀ l ∈ lines.takeWhile (fun l => !beginsPeer l),
    startsWith "last_handshake_time_sec=" l = false
  peers : ∀ b ∈ peerBlocks lines, b.Printed
  keys : ((peerBlocks lines).map fun b => readKey b.keyText).Nodup

theorem mem_block_of_mem {lines : List Text} {l : Text} (hl : l ∈ lines)
    (hpeer : beginsPeer l = false) :
    l ∈ lines.takeWhile (fun l => !beginsPeer l) ∨ ∃ b ∈ peerBlocks lines, l ∈ b.lines := by
  induction lines with
  | nil => cases hl
  | cons line lines ih =>
    rw [peerBlocks, List.takeWhile_cons]
    cases hline : beginsPeer line with
    | true =>
      have hl : l ∈ lines := by
        rcases List.mem_cons.mp hl with rfl | hl
        · rw [hpeer] at hline
          cases hline
        · exact hl
      rcases ih hl with h | ⟨b, hb, h⟩
      · exact .inr ⟨_, List.mem_cons_self, h⟩
      · exact .inr ⟨b, List.mem_cons_of_mem _ hb, h⟩
    | false =>
      rcases List.mem_cons.mp hl with rfl | hl
      · exact .inl List.mem_cons_self
      · rcases ih hl with h | h
        · exact .inl (List.mem_cons_of_mem _ h)
        · exact .inr h

theorem mem_of_mem_block {lines : List Text} {b : PeerBlock} (hb : b ∈ peerBlocks lines) {l : Text}
    (hl : l ∈ b.lines) : l ∈ lines := by
  induction lines with
  | nil => cases hb
  | cons line lines ih =>
    rw [peerBlocks] at hb
    split at hb
    · rcases List.mem_cons.mp hb with rfl | hb
      · exact List.mem_cons_of_mem _ ((List.takeWhile_sublist _).subset hl)
      · exact List.mem_cons_of_mem _ (ih hb)
    · exact List.mem_cons_of_mem _ (ih hb)

theorem PrintedDevice.somePositive_iff {lines : List Text} (h : PrintedDevice lines) :
    SomePositive uapiTime lines ↔ ∃ b ∈ peerBlocks lines, ∃ sec : Nat,
      b.number "last_handshake_time_sec=" = some (sec : Int) ∧ 0 < sec := by
  constructor
  · rintro ⟨line, hline, text, htime, n, hn, hpos⟩
    unfold uapiTime at htime
    split at htime
    · rename_i hlabel
      cases htime
      have hpeer : beginsPeer line = false := startsWith_eq_false hlabel "public_key=" (by decide)
      rcases mem_block_of_mem hline hpeer with hdevice | ⟨b, hb, hl⟩
      · rw [h.device line hdevice] at hlabel
        cases hlabel
      · obtain ⟨sec, nsec, hsec, -⟩ := (h.peers b hb).time
        have hone : b.AtMostOne "last_handshake_time_sec=" := (h.peers b hb).one _ (by decide)
        have hparse := PeerBlock.parse_of_number hone hsec hl hlabel
        have heq : (sec : Int) = n := Option.some.inj (hparse.symm.trans hn)
        exact ⟨b, hb, sec, hsec, by omega⟩
    · cases htime
  · rintro ⟨b, hb, sec, hsec, hpos⟩
    rw [PeerBlock.number_eq] at hsec
    obtain ⟨line, hfind, hparse⟩ := Option.bind_eq_some_iff.mp hsec
    have hlabel := List.find?_some hfind
    have hmem := mem_of_mem_block hb (List.mem_of_find?_eq_some hfind)
    exact ⟨line, hmem, _, if_pos hlabel, sec, hparse, by omega⟩

theorem PeerBlock.Printed.millis_ne_zero_iff {b : PeerBlock} (h : b.Printed) :
    b.stats.latestHandshakeEpochMillis ≠ 0 ↔ ∃ sec : Nat,
      b.number "last_handshake_time_sec=" = some (sec : Int) ∧ 0 < sec := by
  obtain ⟨sec, nsec, hsec, hnsec, hfits, hzero⟩ := h.time
  have hmillis : b.stats.latestHandshakeEpochMillis = (sec * 1000 + nsec / 1000000 : Nat) := by
    rw [b.millis_stats h.one hsec hnsec]
    exact Java.toLong_of_lt hfits
  rw [hmillis]
  constructor
  · intro hne
    exact ⟨sec, hsec, by omega⟩
  · rintro ⟨sec', hsec', hpos⟩
    have heq : (sec : Int) = sec' := Option.some.inj (hsec.symm.trans hsec')
    omega

theorem PrintedDevice.shows_iff {config : Text} (h : PrintedDevice (Java.split '\n' config)) :
    (∃ key stats, (readStatistics config).peer key = some stats ∧
      stats.latestHandshakeEpochMillis ≠ 0) ↔ SomePositive uapiTime (Java.split '\n' config) := by
  rw [h.somePositive_iff, readStatistics_eq]
  have hkeys := h.keys
  have hpeers := h.peers
  generalize peerBlocks (Java.split '\n' config) = blocks at hkeys hpeers
  constructor
  · rintro ⟨key, stats, hpeer, hne⟩
    have hsome : ¬(blocks.foldl addBlock {}).peer key = none := by
      rw [hpeer]
      exact nofun
    rw [peer_foldl_eq_none] at hsome
    push Not at hsome
    obtain ⟨before, b, after, rfl, hkey, hafter⟩ := exists_last hsome
    rw [peer_foldl_last hkey hafter] at hpeer
    cases hpeer
    have hb : b ∈ before ++ b :: after := List.mem_append_right _ List.mem_cons_self
    exact ⟨b, hb, (hpeers b hb).millis_ne_zero_iff.mp hne⟩
  · rintro ⟨b, hb, hpos⟩
    obtain ⟨key, hkey⟩ := (hpeers b hb).key
    obtain ⟨before, after, rfl⟩ := List.append_of_mem hb
    have hafter : ∀ b' ∈ after, readKey b'.keyText ≠ some key := by
      intro b' hb' hkey'
      rw [List.map_append, List.map_cons] at hkeys
      have hcons := (List.nodup_append.mp hkeys).2.1
      exact (List.nodup_cons.mp hcons).1 (List.mem_map.mpr ⟨b', hb', hkey'.trans hkey.symm⟩)
    exact ⟨key, b.stats, peer_foldl_last hkey hafter {}, (hpeers b hb).millis_ne_zero_iff.mpr hpos⟩

end Amnezia.Backend
