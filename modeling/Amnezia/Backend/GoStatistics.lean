import Mathlib.Algebra.BigOperators.Group.List.Basic
import Amnezia.Backend.Go
import Amnezia.Backend.Statistics
import Amnezia.Crypto.KeyText
import Amnezia.Lib.Loops

/-!
# Statistics of a userspace tunnel

`GoBackend.getStatistics` reads the text of `awgGetConfig` line by line.  The entry of a peer is
added when the next peer begins or the text ends, so what a line adds to depends on the lines before
it.  Cut at the lines that begin a peer, the text is a list of blocks, and each block has its own
entry.
-/

namespace Amnezia.Backend

open Crypto (Key)
open Java (Text)

def startsWith (label : String) (line : Text) : Bool := label.toList.isPrefixOf line

def countLine (c : PeerStats) (line : Text) : PeerStats :=
  if startsWith "rx_bytes=" line then
    { c with rxBytes := (Java.parseLong (line.drop 9)).getD 0 }
  else if startsWith "tx_bytes=" line then
    { c with txBytes := (Java.parseLong (line.drop 9)).getD 0 }
  else if startsWith "last_handshake_time_sec=" line then
    match Java.parseLong (line.drop 24) with
    | some n =>
      { c with
        latestHandshakeEpochMillis :=
          Java.toLong (c.latestHandshakeEpochMillis + Java.toLong (n * 1000)) }
    | none => { c with latestHandshakeEpochMillis := 0 }
  else if startsWith "last_handshake_time_nsec=" line then
    match Java.parseLong (line.drop 25) with
    | some n =>
      { c with
        latestHandshakeEpochMillis :=
          Java.toLong (c.latestHandshakeEpochMillis + n.tdiv 1000000) }
    | none => { c with latestHandshakeEpochMillis := 0 }
  else c

def PeerStats.zero : PeerStats := ⟨0, 0, 0⟩

structure Scan where
  stats : Statistics
  key : Option Key
  /-- `rx`, `tx` and `latestHandshakeMSec`. -/
  counters : PeerStats

def Scan.flush (s : Scan) : Statistics :=
  match s.key with
  | none => s.stats
  | some key =>
    s.stats.add key s.counters.rxBytes s.counters.txBytes s.counters.latestHandshakeEpochMillis

def readKey (text : Text) : Option Key := (Key.fromHex (Java.toCharArray text)).toOption

def scanLine (s : Scan) (line : Text) : Scan :=
  if startsWith "public_key=" line then
    { stats := s.flush, key := readKey (line.drop 11), counters := .zero }
  else
    match s.key with
    -- each kind of line is passed over without a key
    | none => s
    | some _ => { s with counters := countLine s.counters line }

def readStatistics (config : Text) : Statistics :=
  ((Java.split '\n' config).foldl scanLine { stats := {}, key := none, counters := .zero }).flush

def GoBackend.getStatistics {T C S : Type*} [DecidableEq T] (s : GoBackend T C S)
    (awgGetConfig : Int → Option Text) (tunnel : T) : Statistics :=
  if some tunnel ≠ s.currentTunnel ∨ s.currentTunnelHandle = -1 then {}
  else
    match awgGetConfig s.currentTunnelHandle with
    | none => {}
    | some config => readStatistics config

structure PeerBlock where
  keyText : Text
  lines : List Text
  deriving DecidableEq

namespace PeerBlock

def own (b : PeerBlock) (label : String) : Option Text :=
  (b.lines.find? (startsWith label)).map (·.drop label.length)

def number (b : PeerBlock) (label : String) : Option Int := (b.own label).bind Java.parseLong

def stats (b : PeerBlock) : PeerStats := b.lines.foldl countLine .zero

def AtMostOne (b : PeerBlock) (label : String) : Prop :=
  (b.lines.filter (startsWith label)).length ≤ 1

def OneOfEach (b : PeerBlock) : Prop :=
  ∀ label ∈ ["rx_bytes=", "tx_bytes=", "last_handshake_time_sec=", "last_handshake_time_nsec="],
    b.AtMostOne label

instance (b : PeerBlock) (label : String) : Decidable (b.AtMostOne label) :=
  inferInstanceAs (Decidable (_ ≤ _))

instance (b : PeerBlock) : Decidable b.OneOfEach := inferInstanceAs (Decidable (∀ _ ∈ _, _))

end PeerBlock

def beginsPeer (line : Text) : Bool := startsWith "public_key=" line

def peerBlocks : List Text → List PeerBlock
  | [] => []
  | line :: lines =>
    if beginsPeer line then
      ⟨line.drop 11, lines.takeWhile fun l => !beginsPeer l⟩ :: peerBlocks lines
    else peerBlocks lines

def addBlock (stats : Statistics) (b : PeerBlock) : Statistics :=
  match readKey b.keyText with
  | none => stats
  | some key =>
    stats.add key b.stats.rxBytes b.stats.txBytes b.stats.latestHandshakeEpochMillis

variable {line : Text}

theorem scanLine_of_beginsPeer (h : beginsPeer line = true) (s : Scan) :
    scanLine s line = { stats := s.flush, key := readKey (line.drop 11), counters := .zero } :=
  if_pos h

variable {lines : List Text}

-- between two peers the key stays, and without a key so does everything else
theorem foldl_scanLine_none (h : ∀ l ∈ lines, beginsPeer l = false) {s : Scan} (hs : s.key = none) :
    lines.foldl scanLine s = s := by
  induction lines with
  | nil => rfl
  | cons line lines ih =>
    have hline : ¬startsWith "public_key=" line = true :=
      Bool.eq_false_iff.mp (h line List.mem_cons_self)
    have hstep : scanLine s line = s := by
      simp only [scanLine, if_neg hline, hs]
    rw [List.foldl_cons, hstep]
    exact ih fun l hl => h l (List.mem_cons_of_mem line hl)

theorem foldl_scanLine_some (h : ∀ l ∈ lines, beginsPeer l = false) (stats : Statistics) (key : Key)
    (c : PeerStats) : lines.foldl scanLine { stats := stats, key := some key, counters := c } =
      { stats := stats, key := some key, counters := lines.foldl countLine c } := by
  induction lines generalizing c with
  | nil => rfl
  | cons line lines ih =>
    have hline : ¬startsWith "public_key=" line = true :=
      Bool.eq_false_iff.mp (h line List.mem_cons_self)
    rw [List.foldl_cons, List.foldl_cons, scanLine, if_neg hline]
    exact ih (fun l hl => h l (List.mem_cons_of_mem line hl)) _

theorem takeWhile_beginsPeer (lines : List Text) :
    ∀ l ∈ lines.takeWhile fun l => !beginsPeer l, beginsPeer l = false := by
  intro l hl
  have hnot : (!beginsPeer l) = true := List.mem_takeWhile_imp (p := fun l => !beginsPeer l) hl
  exact Bool.not_eq_true' _ ▸ hnot

theorem flush_foldl_block (stats : Statistics) (keyText : Text) (lines : List Text)
    (h : ∀ l ∈ lines, beginsPeer l = false) :
    (lines.foldl scanLine { stats := stats, key := readKey keyText, counters := .zero }).flush =
      addBlock stats ⟨keyText, lines⟩ := by
  unfold addBlock
  cases hkey : readKey keyText with
  | none =>
    rw [foldl_scanLine_none h rfl]
    rfl
  | some key =>
    rw [foldl_scanLine_some h]
    rfl

/-- The loop comes to the lines before the first peer, followed by the blocks. -/
theorem flush_foldl_scanLine (lines : List Text) (s : Scan) :
    (lines.foldl scanLine s).flush = (peerBlocks lines).foldl addBlock
      ((lines.takeWhile fun l => !beginsPeer l).foldl scanLine s).flush := by
  induction lines generalizing s with
  | nil => rfl
  | cons line lines ih =>
    rw [List.foldl_cons, ih, peerBlocks, List.takeWhile_cons]
    cases hline : beginsPeer line with
    | true =>
      rw [scanLine_of_beginsPeer hline, flush_foldl_block _ _ _ (takeWhile_beginsPeer lines)]
      rfl
    | false => rfl

theorem readStatistics_eq (config : Text) :
    readStatistics config = (peerBlocks (Java.split '\n' config)).foldl addBlock {} := by
  rw [readStatistics, flush_foldl_scanLine, foldl_scanLine_none (takeWhile_beginsPeer _) rfl]
  rfl

variable {key : Key} {b : PeerBlock}

theorem peer_addBlock_ne (h : readKey b.keyText ≠ some key) (stats : Statistics) :
    (addBlock stats b).peer key = stats.peer key := by
  unfold addBlock
  cases hkey : readKey b.keyText with
  | none => rfl
  | some other =>
    have hne : key ≠ other := fun heq => h (hkey.trans (congrArg some heq.symm))
    exact AList.lookup_insert_ne hne

theorem peer_addBlock_self (h : readKey b.keyText = some key) (stats : Statistics) :
    (addBlock stats b).peer key = some b.stats := by
  unfold addBlock
  rw [h]
  exact AList.lookup_insert stats.stats

variable {blocks : List PeerBlock}

theorem peer_foldl_addBlock (h : ∀ b ∈ blocks, readKey b.keyText ≠ some key) (stats : Statistics) :
    (blocks.foldl addBlock stats).peer key = stats.peer key := by
  induction blocks generalizing stats with
  | nil => rfl
  | cons b blocks ih =>
    rw [List.foldl_cons, ih fun b' hb' => h b' (List.mem_cons_of_mem b hb')]
    exact peer_addBlock_ne (h b List.mem_cons_self) stats

theorem peer_foldl_last {before after : List PeerBlock} (h : readKey b.keyText = some key)
    (hafter : ∀ b' ∈ after, readKey b'.keyText ≠ some key) (stats : Statistics) :
    ((before ++ b :: after).foldl addBlock stats).peer key = some b.stats := by
  rw [List.foldl_append, List.foldl_cons, peer_foldl_addBlock hafter]
  exact peer_addBlock_self h _

theorem exists_last (h : ∃ b ∈ blocks, readKey b.keyText = some key) :
    ∃ before b after, blocks = before ++ b :: after ∧ readKey b.keyText = some key ∧
      ∀ b' ∈ after, readKey b'.keyText ≠ some key := by
  induction blocks with
  | nil =>
    obtain ⟨b, hb, -⟩ := h
    cases hb
  | cons b blocks ih =>
    by_cases hrest : ∃ b' ∈ blocks, readKey b'.keyText = some key
    · obtain ⟨before, b', after, rfl, hkey, hafter⟩ := ih hrest
      exact ⟨b :: before, b', after, rfl, hkey, hafter⟩
    · have hnot : ∀ b' ∈ blocks, readKey b'.keyText ≠ some key :=
        fun b' hb' heq => hrest ⟨b', hb', heq⟩
      obtain ⟨b', hb', hkey⟩ := h
      rcases List.mem_cons.mp hb' with rfl | hb'
      · exact ⟨[], b', blocks, rfl, hkey, hnot⟩
      · exact absurd hkey (hnot b' hb')

theorem peer_foldl_eq_none :
    (blocks.foldl addBlock {}).peer key = none ↔ ∀ b ∈ blocks, readKey b.keyText ≠ some key := by
  constructor
  · intro hnone b hb hkey
    obtain ⟨before, last, after, rfl, hlast, hafter⟩ := exists_last ⟨b, hb, hkey⟩
    rw [peer_foldl_last hlast hafter] at hnone
    cases hnone
  · intro h
    rw [peer_foldl_addBlock h]
    rfl

variable {label : String}

-- no two of the labels begin the same line
theorem startsWith_eq_false (h : startsWith label line = true) (other : String)
    (hlabels : label.toList.isPrefixOf other.toList = false ∧
      other.toList.isPrefixOf label.toList = false) : startsWith other line = false := by
  rw [Bool.eq_false_iff]
  intro hother
  have hp : label.toList <+: line := List.isPrefixOf_iff_prefix.mp h
  have hq : other.toList <+: line := List.isPrefixOf_iff_prefix.mp hother
  rcases List.prefix_or_prefix_of_prefix hp hq with hpq | hqp
  · rw [List.isPrefixOf_iff_prefix.mpr hpq] at hlabels
    exact absurd hlabels.1 (by decide)
  · rw [List.isPrefixOf_iff_prefix.mpr hqp] at hlabels
    exact absurd hlabels.2 (by decide)

theorem rxBytes_countLine (c : PeerStats) (line : Text) :
    (countLine c line).rxBytes =
      if startsWith "rx_bytes=" line then (Java.parseLong (line.drop 9)).getD 0 else c.rxBytes := by
  unfold countLine
  split_ifs
  · rfl
  · rfl
  · split <;> rfl
  · split <;> rfl
  · rfl

theorem txBytes_countLine (c : PeerStats) (line : Text) :
    (countLine c line).txBytes =
      if startsWith "tx_bytes=" line then (Java.parseLong (line.drop 9)).getD 0 else c.txBytes := by
  unfold countLine
  by_cases hrx : startsWith "rx_bytes=" line = true
  · rw [if_pos hrx, startsWith_eq_false hrx "tx_bytes=" (by decide)]
    rfl
  · rw [if_neg hrx]
    split_ifs
    · rfl
    · split <;> rfl
    · split <;> rfl
    · rfl

def handshakePart (line : Text) : Int :=
  (if startsWith "last_handshake_time_sec=" line then
    (Java.parseLong (line.drop 24)).getD 0 * 1000 else 0) +
  if startsWith "last_handshake_time_nsec=" line then
    ((Java.parseLong (line.drop 25)).getD 0).tdiv 1000000 else 0

def ReadableTime (line : Text) : Prop :=
  (startsWith "last_handshake_time_sec=" line = true → (Java.parseLong (line.drop 24)).isSome) ∧
    (startsWith "last_handshake_time_nsec=" line = true → (Java.parseLong (line.drop 25)).isSome)

theorem toLong_add_toLong (m n : Int) : Java.toLong (m + Java.toLong n) = Java.toLong (m + n) :=
  Int.add_bmod_bmod

theorem toLong_toLong_add (m n : Int) : Java.toLong (Java.toLong m + n) = Java.toLong (m + n) :=
  Int.bmod_add_bmod

theorem millis_countLine {c : PeerStats} {total : Int} (h : ReadableTime line)
    (hc : c.latestHandshakeEpochMillis = Java.toLong total) :
    (countLine c line).latestHandshakeEpochMillis = Java.toLong (total + handshakePart line) := by
  unfold handshakePart countLine
  by_cases hsec : startsWith "last_handshake_time_sec=" line = true
  · obtain ⟨n, hn⟩ := Option.isSome_iff_exists.mp (h.1 hsec)
    simp only [startsWith_eq_false hsec "rx_bytes=" (by decide),
      startsWith_eq_false hsec "tx_bytes=" (by decide),
      startsWith_eq_false hsec "last_handshake_time_nsec=" (by decide), hsec, hn, hc,
      Bool.false_eq_true, if_true, if_false, Option.getD_some, toLong_add_toLong,
      toLong_toLong_add, Int.add_zero]
  · by_cases hnsec : startsWith "last_handshake_time_nsec=" line = true
    · obtain ⟨n, hn⟩ := Option.isSome_iff_exists.mp (h.2 hnsec)
      simp only [startsWith_eq_false hnsec "rx_bytes=" (by decide),
        startsWith_eq_false hnsec "tx_bytes=" (by decide), hsec, hnsec, hn, hc,
        Bool.false_eq_true, if_true, if_false, Option.getD_some, toLong_toLong_add, Int.zero_add]
    · simp only [if_neg hsec, if_neg hnsec, Int.add_zero]
      split_ifs
      · exact hc
      · exact hc
      · exact hc

theorem millis_foldl (h : ∀ l ∈ lines, ReadableTime l) {c : PeerStats} {total : Int}
    (hc : c.latestHandshakeEpochMillis = Java.toLong total) :
    (lines.foldl countLine c).latestHandshakeEpochMillis =
      Java.toLong (total + (lines.map handshakePart).sum) := by
  induction lines generalizing c total with
  | nil => rw [List.map_nil, List.sum_nil, Int.add_zero, List.foldl_nil, hc]
  | cons line lines ih =>
    have hline := millis_countLine (h line List.mem_cons_self) hc
    rw [List.foldl_cons, ih (fun l hl => h l (List.mem_cons_of_mem line hl)) hline, List.map_cons,
      List.sum_cons, Int.add_assoc]

variable {n : Int}

namespace PeerBlock

variable {b : PeerBlock}

theorem number_eq (b : PeerBlock) (label : String) : b.number label =
    (b.lines.find? (startsWith label)).bind fun l => Java.parseLong (l.drop label.length) := by
  unfold number own
  rw [Option.bind_map]
  rfl

theorem rxBytes_stats (h : b.OneOfEach) :
    b.stats.rxBytes = (b.number "rx_bytes=").getD 0 := by
  have hone : b.AtMostOne "rx_bytes=" := h _ (by decide)
  rw [stats, Loops.foldl_of_atMostOne rxBytes_countLine hone, number_eq]
  cases b.lines.find? (startsWith "rx_bytes=") <;> rfl

theorem txBytes_stats (h : b.OneOfEach) :
    b.stats.txBytes = (b.number "tx_bytes=").getD 0 := by
  have hone : b.AtMostOne "tx_bytes=" := h _ (by decide)
  rw [stats, Loops.foldl_of_atMostOne txBytes_countLine hone, number_eq]
  cases b.lines.find? (startsWith "tx_bytes=") <;> rfl

-- the one line with the label is the one that was read
theorem parse_of_number (hone : b.AtMostOne label) (hn : b.number label = some n) {l : Text}
    (hl : l ∈ b.lines) (hlabel : startsWith label l = true) :
    Java.parseLong (l.drop label.length) = some n := by
  rw [number_eq] at hn
  obtain ⟨a, ha, hparse⟩ := Option.bind_eq_some_iff.mp hn
  rw [Loops.eq_of_atMostOne hone ha hl hlabel]
  exact hparse

theorem sum_of_number (hone : b.AtMostOne label) (hn : b.number label = some n) (f : Int → Int) :
    (b.lines.map fun l => if startsWith label l then
      f ((Java.parseLong (l.drop label.length)).getD 0) else 0).sum = f n := by
  rw [Loops.sum_of_atMostOne _ hone]
  rw [number_eq] at hn
  obtain ⟨a, ha, hparse⟩ := Option.bind_eq_some_iff.mp hn
  rw [ha, Option.map_some, Option.getD_some, hparse]
  rfl

theorem millis_stats (h : b.OneOfEach) {sec nsec : Int}
    (hsec : b.number "last_handshake_time_sec=" = some sec)
    (hnsec : b.number "last_handshake_time_nsec=" = some nsec) :
    b.stats.latestHandshakeEpochMillis = Java.toLong (sec * 1000 + nsec.tdiv 1000000) := by
  have honeSec : b.AtMostOne "last_handshake_time_sec=" := h _ (by decide)
  have honeNsec : b.AtMostOne "last_handshake_time_nsec=" := h _ (by decide)
  have hread : ∀ l ∈ b.lines, ReadableTime l := by
    intro l hl
    constructor
    · intro hlabel
      exact Option.isSome_iff_exists.mpr ⟨sec, parse_of_number honeSec hsec hl hlabel⟩
    · intro hlabel
      exact Option.isSome_iff_exists.mpr ⟨nsec, parse_of_number honeNsec hnsec hl hlabel⟩
  have hzero : PeerStats.zero.latestHandshakeEpochMillis = Java.toLong 0 := by decide
  have hsum : (b.lines.map handshakePart).sum = sec * 1000 + nsec.tdiv 1000000 := by
    have hparts := List.sum_map_add (l := b.lines)
      (f := fun l => if startsWith "last_handshake_time_sec=" l then
        (Java.parseLong (l.drop 24)).getD 0 * 1000 else 0)
      (g := fun l => if startsWith "last_handshake_time_nsec=" l then
        ((Java.parseLong (l.drop 25)).getD 0).tdiv 1000000 else 0)
    have h₁ := sum_of_number honeSec hsec (· * 1000)
    have h₂ := sum_of_number honeNsec hnsec (Int.tdiv · 1000000)
    exact hparts.trans (congrArg₂ (· + ·) h₁ h₂)
  rw [stats, millis_foldl hread hzero, hsum, Int.zero_add]

end PeerBlock

theorem readKey_eq_some {text : Text} :
    readKey text = some key ↔ Key.fromHex (Java.toCharArray text) = .ok key := by
  unfold readKey
  cases Key.fromHex (Java.toCharArray text) with
  | error e => exact ⟨nofun, nofun⟩
  | ok k =>
    constructor
    · intro h
      cases h
      rfl
    · intro h
      cases h
      rfl

theorem toLong_of_range (hlow : -9223372036854775808 ≤ n) (hhigh : n < 9223372036854775808) :
    Java.toLong n = n :=
  Int.bmod_eq_of_le hlow hhigh

theorem GoBackend.getStatistics_running {T C S : Type*} [DecidableEq T] {s : GoBackend T C S}
    {awgGetConfig : Int → Option Text} {tunnel : T} {config : Text}
    (htunnel : s.currentTunnel = some tunnel) (hhandle : s.currentTunnelHandle ≠ -1)
    (hconfig : awgGetConfig s.currentTunnelHandle = some config) :
    s.getStatistics awgGetConfig tunnel = readStatistics config := by
  unfold getStatistics
  rw [if_neg, hconfig]
  rw [htunnel]
  exact fun h => h.elim (fun hne => hne rfl) hhandle

/-- Each block whose key can be read gives the entry of that key what its own lines say, unless a
later block has the same key; there are no other entries.  For a text of characters below U+0100 the
keys that can be read are the 64 hexadecimal digits. -/
theorem GoBackend.getStatistics_blocks {T C S : Type*} [DecidableEq T] (s : GoBackend T C S)
    (awgGetConfig : Int → Option Text) (tunnel : T) (config : Text)
    (htunnel : s.currentTunnel = some tunnel) (hhandle : s.currentTunnelHandle ≠ -1)
    (hconfig : awgGetConfig s.currentTunnelHandle = some config)
    (hone : ∀ b ∈ peerBlocks (Java.split '\n' config), b.OneOfEach) :
    (∀ key, (s.getStatistics awgGetConfig tunnel).peer key = none ↔
      ∀ b ∈ peerBlocks (Java.split '\n' config), readKey b.keyText ≠ some key) ∧
    (∀ before b after key, peerBlocks (Java.split '\n' config) = before ++ b :: after →
      readKey b.keyText = some key → (∀ b' ∈ after, readKey b'.keyText ≠ some key) →
      (s.getStatistics awgGetConfig tunnel).peer key = some b.stats) ∧
    (∀ b ∈ peerBlocks (Java.split '\n' config),
      b.stats.rxBytes = (b.number "rx_bytes=").getD 0 ∧
      b.stats.txBytes = (b.number "tx_bytes=").getD 0 ∧
      ∀ sec nsec, b.number "last_handshake_time_sec=" = some sec →
        b.number "last_handshake_time_nsec=" = some nsec →
        b.stats.latestHandshakeEpochMillis = Java.toLong (sec * 1000 + nsec.tdiv 1000000) ∧
        (-9223372036854775808 ≤ sec * 1000 + nsec.tdiv 1000000 →
          sec * 1000 + nsec.tdiv 1000000 < 9223372036854775808 →
          b.stats.latestHandshakeEpochMillis = sec * 1000 + nsec.tdiv 1000000)) ∧
    ∀ text : Text, (∀ u ∈ Java.toCharArray text, u.toNat < 256) →
      ((∃ key, readKey text = some key) ↔ Key.HexText (Java.toCharArray text)) := by
  rw [getStatistics_running htunnel hhandle hconfig, readStatistics_eq]
  refine ⟨fun key => peer_foldl_eq_none, ?_, ?_, ?_⟩
  · intro before b after key hblocks hkey hafter
    rw [hblocks]
    exact peer_foldl_last hkey hafter {}
  · intro b hb
    have hb := hone b hb
    refine ⟨b.rxBytes_stats hb, b.txBytes_stats hb, ?_⟩
    intro sec nsec hsec hnsec
    have htime := b.millis_stats hb hsec hnsec
    refine ⟨htime, ?_⟩
    intro hlow hhigh
    rw [htime, toLong_of_range hlow hhigh]
  · intro text hbytes
    constructor
    · rintro ⟨key, hkey⟩
      exact Key.hexText_of_fromHex hbytes (readKey_eq_some.mp hkey)
    · intro hhex
      obtain ⟨key, hkey⟩ := Key.fromHex_of_hexText hhex
      exact ⟨key, readKey_eq_some.mpr hkey⟩

def malformedBlock : PeerBlock := ⟨"00zz".toList, ["rx_bytes=7".toList]⟩

def sampleBlock : PeerBlock :=
  ⟨List.replicate 64 '0', ["last_handshake_time_nsec=2000000".toList, "rx_bytes=3".toList,
    "tx_bytes=".toList, "last_handshake_time_sec=1".toList]⟩

def PeerBlock.text (b : PeerBlock) : List Text := ("public_key=".toList ++ b.keyText) :: b.lines

def sampleConfig : Text :=
  List.intercalate ['\n'] ("rx_bytes=9".toList :: malformedBlock.text ++ sampleBlock.text)

theorem GoBackend.getStatistics_blocks_sample :
    (({ initial with currentTunnel := some (), currentTunnelHandle := 0 } :
      GoBackend Unit Unit Unit).getStatistics (fun _ => some sampleConfig) ()).peer Key.zero =
      some ⟨3, 0, 1002⟩ := by
  have hblocks : peerBlocks (Java.split '\n' sampleConfig) = [malformedBlock, sampleBlock] := by
    decide +kernel
  have hone : ∀ b ∈ peerBlocks (Java.split '\n' sampleConfig), b.OneOfEach := by
    rw [hblocks]
    decide
  have hkey : readKey sampleBlock.keyText = some Key.zero := by
    decide +kernel
  have h := getStatistics_blocks
    ({ initial with currentTunnel := some (), currentTunnelHandle := 0 } : GoBackend Unit Unit Unit)
    (fun _ => some sampleConfig) () sampleConfig rfl (by decide) rfl hone
  have hentry := h.2.1 [malformedBlock] sampleBlock [] Key.zero hblocks hkey (by simp)
  have hstats : sampleBlock.stats = ⟨3, 0, 1002⟩ := by decide +kernel
  rw [hentry, hstats]

end Amnezia.Backend
