import Amnezia.Backend.Handshake
import Amnezia.Tools.Dump

/-!
# The latest handshakes of an interface

`awg show latest-handshakes` prints the key and the time of each peer.  The app takes the first of
these times for that of the connection.
-/

namespace Amnezia.Tools

open Backend
open Crypto (Key)
open Java (Text)
open Libc (Bytes Utf8Decoder)

variable {Addr : Type}

def handshakeRow (p : ShowPeer Addr) : List Bytes :=
  [keyToBase64 p.key, Java.valueOf p.lastHandshakeTime]

def latestHandshakesPrint (withInterface : Bool) (d : ShowDevice Addr) : Bytes :=
  (d.peers.map fun p => ['\t'].intercalate
    ((if withInterface then [d.name] else []) ++ handshakeRow p)).flatMap (· ++ ['\n'])

def handshakeLines (dec : Utf8Decoder) (d : ShowDevice Addr) : List Text :=
  Java.readLines (dec.decode (latestHandshakesPrint false d))

def dumpLines (dec : Utf8Decoder) (names : Namer Addr) (gaiStrerror : Addr × Nat → Bytes)
    (d : ShowDevice Addr) : List Text :=
  Java.readLines (dec.decode (dumpPrint names gaiStrerror false d))

def ShowsHandshake (s : Statistics) : Prop :=
  ∃ key stats, s.peer key = some stats ∧ stats.latestHandshakeEpochMillis ≠ 0

theorem shownTime_handshakeRow (dec : Utf8Decoder) (p : ShowPeer Addr) :
    shownTime (dec.decode (['\t'].intercalate (handshakeRow p))) =
      some (Java.valueOf p.lastHandshakeTime) := by
  have hdigits : ∀ c ∈ Java.valueOf p.lastHandshakeTime, c.isAlphanum = true := by
    intro c hc
    have hdigit := Java.isDigit_iff.1 (Java.isDigit_of_mem_valueOf hc)
    exact Java.isAlphanum_iff.2 (by omega)
  have htab : ∀ col ∈ [keyToBase64 p.key], '\t' ∉ col := by
    intro col hcol
    rw [List.mem_singleton.1 hcol]
    exact (inColumn_keyToBase64 p.key).notMem (by decide)
  have hsplit : Java.split '\t' (dec.decode (['\t'].intercalate (handshakeRow p))) =
      [dec.decode (keyToBase64 p.key), Java.valueOf p.lastHandshakeTime] :=
    split_row_of_notMem dec (List.cons_ne_nil _ _) (Java.valueOf_ne_nil _) hdigits htab
  unfold shownTime
  rw [hsplit]

theorem handshakeLines_eq (dec : Utf8Decoder) (d : ShowDevice Addr) : handshakeLines dec d =
    d.peers.map fun p => dec.decode (['\t'].intercalate (handshakeRow p)) := by
  have htext : dec.decode (latestHandshakesPrint false d) =
      (d.peers.map fun p => dec.decode (['\t'].intercalate (handshakeRow p))).flatMap
        (· ++ ['\n']) := by
    unfold latestHandshakesPrint
    rw [dec.decode_lines, List.map_map]
    rfl
  have hcontrol : ∀ c : Char, c.toNat < 32 → c ≠ '\t' → ∀ p : ShowPeer Addr,
      c ∉ dec.decode (['\t'].intercalate (handshakeRow p)) := by
    intro c hc htab p hmem
    rcases Fields.mem_intercalate (dec.mem_of_mem_decode _ _ (by omega) hmem) with
      hsep | ⟨col, hcol, hmem⟩
    · exact htab (List.mem_singleton.1 hsep)
    · rcases List.mem_pair.1 hcol with rfl | rfl
      · exact (inColumn_keyToBase64 _).notMem hc hmem
      · exact (inColumn_valueOf _).notMem hc hmem
  unfold handshakeLines
  rw [htext]
  apply Java.readLines_flatMap
  intro line hline
  obtain ⟨p, -, rfl⟩ := List.mem_map.1 hline
  exact ⟨hcontrol '\n' (by decide) (by decide) p, hcontrol '\r' (by decide) (by decide) p⟩

theorem positiveTime_valueOf {n : Nat} (h : n < 9223372036854775808) :
    PositiveTime (Java.valueOf n) ↔ 0 < n := by
  unfold PositiveTime
  rw [Java.parseLong_valueOf (by omega)]
  constructor
  · rintro ⟨m, hm, hpos⟩
    cases hm
    omega
  · intro hpos
    exact ⟨n, rfl, by omega⟩

theorem somePositive_handshakeLines (dec : Utf8Decoder) {d : ShowDevice Addr}
    (hfits : ∀ p ∈ d.peers, p.Fits) :
    SomePositive shownTime (handshakeLines dec d) ↔ ∃ p ∈ d.peers, 0 < p.lastHandshakeTime := by
  have hlt : ∀ p ∈ d.peers, p.lastHandshakeTime < 9223372036854775808 := by
    intro p hp
    have htime := (hfits p hp).lastHandshakeTime
    omega
  rw [handshakeLines_eq]
  constructor
  · rintro ⟨line, hline, text, htime, hpos⟩
    obtain ⟨p, hp, rfl⟩ := List.mem_map.1 hline
    rw [shownTime_handshakeRow] at htime
    cases htime
    exact ⟨p, hp, (positiveTime_valueOf (hlt p hp)).1 hpos⟩
  · rintro ⟨p, hp, hpos⟩
    exact ⟨_, List.mem_map_of_mem hp, _, shownTime_handshakeRow dec p,
      (positiveTime_valueOf (hlt p hp)).2 hpos⟩

theorem shows_dumpLines (dec : Utf8Decoder) {names : Namer Addr} {gaiStrerror : Addr × Nat → Bytes}
    (hnames : NamesInColumn names gaiStrerror) {d : ShowDevice Addr}
    (hstrings : ∀ p s, d.string p = some s → '\n' ∉ s ∧ '\r' ∉ s)
    (hkeys : (d.peers.map (·.key)).Nodup) (hfits : ∀ p ∈ d.peers, p.Fits) :
    ShowsHandshake (getStatistics (some (0, dumpLines dec names gaiStrerror d))) ↔
      ∃ p ∈ d.peers, 0 < p.lastHandshakeTime := by
  have hholds := holds_dumpRows dec hnames hkeys hfits
  rw [dumpLines, readLines_dumpPrint dec hnames (fun p s hs => (hstrings p s hs).1)
    fun p s hs => (hstrings p s hs).2]
  generalize getStatistics _ = s at hholds
  constructor
  · rintro ⟨key, stats, hpeer, hne⟩
    have hmem : key ∈ s.peers := by
      show key ∈ s.stats
      rw [← AList.lookup_isSome]
      show (s.peer key).isSome
      rw [hpeer]
      rfl
    rw [hholds.peers.mem_iff, List.map_map] at hmem
    obtain ⟨p, hp, rfl⟩ := List.mem_map.1 hmem
    have hentry := hholds.peer p.entry (List.mem_map_of_mem hp)
    have heq : stats = p.entry.2 := Option.some.inj (hpeer.symm.trans hentry)
    subst heq
    refine ⟨p, hp, ?_⟩
    simp only [ShowPeer.entry] at hne
    omega
  · rintro ⟨p, hp, hpos⟩
    refine ⟨p.key, p.entry.2, hholds.peer p.entry (List.mem_map_of_mem hp), ?_⟩
    simp only [ShowPeer.entry]
    omega

/-- Whether the time that is returned is positive says whether some peer has completed a handshake,
and whether the status job reports agrees with the statistics, exactly when a positive time of a later
peer implies one of the first: in the text of the userspace device, and in the lines of
`awg show latest-handshakes`. -/
theorem getLastHandshake_iff_firstCounts (Addr : Type) {T C S T' C' N : Type} [DecidableEq T]
    [DecidableEq N] (g : GoBackend T C S) (awgGetConfig : Int → Option Text) (tunnel : T) (config : Text)
    (htunnel : g.currentTunnel = some tunnel) (hhandle : g.currentTunnelHandle ≠ -1)
    (hconfig : awgGetConfig g.currentTunnelHandle = some config)
    (name : T' → N) (shows : Bool) (q : AwgQuickBackend T' C' N) (tunnel' : T')
    (hup : q.getState name shows tunnel' = .up) :
    ((0 < g.getLastHandshake awgGetConfig (some tunnel) ↔
        SomePositive uapiTime (Java.split '\n' config)) ↔
      FirstCounts uapiTime (Java.split '\n' config)) ∧
    (PrintedDevice (Java.split '\n' config) →
      ((statusRound (g.getLastHandshake awgGetConfig (some tunnel)) = .report ↔
          ShowsHandshake (g.getStatistics awgGetConfig tunnel)) ↔
        FirstCounts uapiTime (Java.split '\n' config))) ∧
    (∀ output, (0 < q.getLastHandshake name shows (some (0, output)) tunnel' ↔
        SomePositive shownTime output) ↔ FirstCounts shownTime output) ∧
    (∀ (dec : Utf8Decoder) (names : Namer Addr) (gaiStrerror : Addr × Nat → Bytes)
        (d : ShowDevice Addr), NamesInColumn names gaiStrerror →
        (∀ p s, d.string p = some s → '\n' ∉ s ∧ '\r' ∉ s) → (d.peers.map (·.key)).Nodup →
        (∀ p ∈ d.peers, p.Fits) →
      ((0 < q.getLastHandshake name shows (some (0, handshakeLines dec d)) tunnel' ↔
          ∃ p ∈ d.peers, 0 < p.lastHandshakeTime) ↔
        FirstCounts shownTime (handshakeLines dec d)) ∧
      ((statusRound (q.getLastHandshake name shows (some (0, handshakeLines dec d)) tunnel') =
            .report ↔
          ShowsHandshake (getStatistics (some (0, dumpLines dec names gaiStrerror d)))) ↔
        FirstCounts shownTime (handshakeLines dec d))) := by
  have hgo := GoBackend.getLastHandshake_running htunnel hhandle hconfig
  have hquick : ∀ output, q.getLastHandshake name shows (some (0, output)) tunnel' =
      firstTime shownTime output := AwgQuickBackend.getLastHandshake_running hup
  refine ⟨?_, ?_, ?_, ?_⟩
  · rw [hgo]
    exact firstTime_pos_iff uapiTime _
  · intro hprinted
    have hshows : ShowsHandshake (g.getStatistics awgGetConfig tunnel) ↔
        SomePositive uapiTime (Java.split '\n' config) := by
      rw [GoBackend.getStatistics_running htunnel hhandle hconfig]
      exact hprinted.shows_iff
    rw [hgo, hshows, statusRound_report]
    exact firstTime_pos_iff uapiTime _
  · intro output
    rw [hquick]
    exact firstTime_pos_iff shownTime output
  · intro dec names gaiStrerror d hnames hstrings hkeys hfits
    have hpositive := firstTime_pos_iff shownTime (handshakeLines dec d)
    rw [somePositive_handshakeLines dec hfits] at hpositive
    rw [hquick, statusRound_report, shows_dumpLines dec hnames hstrings hkeys hfits]
    exact ⟨hpositive, hpositive⟩

def timeBlock (lastDigit : Char) (time : String) : PeerBlock :=
  ⟨List.replicate 63 '0' ++ [lastDigit], ["last_handshake_time_sec=".toList ++ time.toList,
    "last_handshake_time_nsec=0".toList, "tx_bytes=148".toList, "rx_bytes=92".toList]⟩

def twoPeerText (first second : String) : Text :=
  List.intercalate ['\n'] ("listen_port=51820".toList ::
    ((timeBlock '0' first).text ++ (timeBlock '1' second).text))

def runningGo : GoBackend Unit Unit Unit :=
  { GoBackend.initial with currentTunnel := some (), currentTunnelHandle := 0 }

def runningQuick : AwgQuickBackend Unit Unit Unit :=
  { (AwgQuickBackend.initial : AwgQuickBackend Unit Unit Unit) with interfaces := {()} }

def twoPeerDevice (first second : Nat) : ShowDevice Bytes where
  name := "awg0".toList
  peers := [{ publicKey := some zeroKey, lastHandshakeTime := first },
    { publicKey := some secondKey, lastHandshakeTime := second }]

theorem blocks_twoPeerText : peerBlocks (Java.split '\n' (twoPeerText "5" "0")) =
    [timeBlock '0' "5", timeBlock '1' "0"] := by
  decide +kernel

theorem printed_timeBlock : (timeBlock '0' "5").Printed ∧ (timeBlock '1' "0").Printed := by
  refine ⟨⟨by decide +kernel, ⟨Key.zero, by decide +kernel⟩, 5, 0, ?_⟩,
    ⟨by decide +kernel, ⟨secondKey, by decide +kernel⟩, 0, 0, ?_⟩⟩
  · decide +kernel
  · decide +kernel

theorem printedDevice_twoPeerText : PrintedDevice (Java.split '\n' (twoPeerText "5" "0")) where
  device := by
    have hdevice : (Java.split '\n' (twoPeerText "5" "0")).takeWhile (fun l => !beginsPeer l) =
        ["listen_port=51820".toList] := by
      decide +kernel
    rw [hdevice]
    exact List.forall_mem_singleton.2 (by decide)
  peers := by
    rw [blocks_twoPeerText]
    intro b hb
    rcases List.mem_pair.1 hb with rfl | rfl
    · exact printed_timeBlock.1
    · exact printed_timeBlock.2
  keys := by
    rw [blocks_twoPeerText]
    decide +kernel

theorem fits_twoPeerDevice : ∀ p ∈ (twoPeerDevice 5 0).peers, p.Fits := by
  intro p hp
  rcases List.mem_pair.1 hp with rfl | rfl
  · exact ⟨by decide, by decide, by decide⟩
  · exact ⟨by decide, by decide, by decide⟩

theorem getLastHandshake_iff_firstCounts_twoPeers :
    (statusRound (runningGo.getLastHandshake (fun _ => some (twoPeerText "5" "0")) (some ())) = .report ↔
      ShowsHandshake (runningGo.getStatistics (fun _ => some (twoPeerText "5" "0")) ())) ∧
    (0 < runningQuick.getLastHandshake id true
        (some (0, handshakeLines Libc.replacingDecoder (twoPeerDevice 5 0))) () ↔
      ∃ p ∈ (twoPeerDevice 5 0).peers, 0 < p.lastHandshakeTime) := by
  have h := getLastHandshake_iff_firstCounts Bytes runningGo
    (fun _ => some (twoPeerText "5" "0")) () (twoPeerText "5" "0") rfl (by decide) rfl id true runningQuick ()
    (by decide)
  have hgo : (Java.split '\n' (twoPeerText "5" "0")).filterMap uapiTime = ["5".toList, "0".toList] := by
    decide +kernel
  have hquick : (handshakeLines Libc.replacingDecoder (twoPeerDevice 5 0)).filterMap shownTime =
      ["5".toList, "0".toList] := by
    decide +kernel
  have hfive : PositiveTime "5".toList := ⟨5, by decide⟩
  constructor
  · refine (h.2.1 printedDevice_twoPeerText).2 ?_
    intro first rest heq _
    rw [hgo] at heq
    cases heq
    exact hfive
  · refine (h.2.2.2 Libc.replacingDecoder exampleNamer _ (twoPeerDevice 5 0) namesInColumn_example
      (fun p => by cases p <;> nofun) (by decide +kernel) fits_twoPeerDevice).1.2 ?_
    intro first rest heq _
    rw [hquick] at heq
    cases heq
    exact hfive

/-- The second of two peers has completed a handshake: both backends return the zero of the first, the
status job does not report, and the statistics show the handshake. -/
theorem getLastHandshake_second_peer :
    (runningGo.getLastHandshake (fun _ => some (twoPeerText "0" "5")) (some ()) = 0 ∧
      SomePositive uapiTime (Java.split '\n' (twoPeerText "0" "5")) ∧
      ShowsHandshake (runningGo.getStatistics (fun _ => some (twoPeerText "0" "5")) ())) ∧
    runningQuick.getLastHandshake id true
        (some (0, handshakeLines Libc.replacingDecoder (twoPeerDevice 0 5))) () = 0 ∧
      SomePositive shownTime (handshakeLines Libc.replacingDecoder (twoPeerDevice 0 5)) ∧
      ShowsHandshake (getStatistics (some (0, dumpLines Libc.replacingDecoder exampleNamer
        (fun _ => "Try again".toList) (twoPeerDevice 0 5)))) := by
  have hfive : PositiveTime "5".toList := ⟨5, by decide⟩
  refine ⟨⟨by decide +kernel, ?_, secondKey, ⟨92, 148, 5000⟩, by decide +kernel, by decide⟩,
    by decide +kernel, ?_, secondKey, ⟨0, 0, 5000⟩, by decide +kernel, by decide⟩
  · exact ⟨"last_handshake_time_sec=5".toList, by decide +kernel, "5".toList, by decide +kernel, hfive⟩
  · refine ⟨secondKey.toBase64 ++ '\t' :: "5".toList, by decide +kernel, "5".toList, by decide +kernel,
      hfive⟩

end Amnezia.Tools
