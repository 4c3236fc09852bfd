import Mathlib.Data.List.AList
import Amnezia.Crypto.Key

/-!
# Statistics of a tunnel

`AwgQuickBackend.getStatistics` reads what `awg show dump` prints.  The rows of the interface and
those of the peers are told apart by their number of columns only.
-/

namespace Amnezia.Backend

open Crypto (Key)
open Java (Text)

structure PeerStats where
  rxBytes : Int
  txBytes : Int
  latestHandshakeEpochMillis : Int
  deriving DecidableEq, Repr

structure Statistics where
  stats : AList (fun _ : Key => PeerStats) := ∅

namespace Statistics

def add (s : Statistics) (key : Key) (rxBytes txBytes latestHandshake : Int) : Statistics :=
  { s with stats := s.stats.insert key ⟨rxBytes, txBytes, latestHandshake⟩ }

def peer (s : Statistics) (key : Key) : Option PeerStats := s.stats.lookup key

def peers (s : Statistics) : List Key := s.stats.keys

end Statistics

def addLine (stats : Statistics) (line : Text) : Statistics :=
  match Java.split '\t' line with
  | [key, _, _, _, handshake, rx, tx, _] =>
    match Key.fromBase64 (Java.toCharArray key), Java.parseLong rx, Java.parseLong tx,
        Java.parseLong handshake with
    | .ok key, some rx, some tx, some handshake =>
      stats.add key rx tx (Java.toLong (handshake * 1000))
    -- an exception on the way is ignored
    | _, _, _, _ => stats
  | _ => stats

/-- `getStatistics`, where `run` is the status and the output of the command, or its exception. -/
def getStatistics (run : Option (Int × List Text)) : Statistics :=
  match run with
  | none => {}
  | some (status, output) => if status ≠ 0 then {} else output.foldl addLine {}

structure Statistics.Holds (s : Statistics) (entries : List (Key × PeerStats)) : Prop where
  peers : s.peers.Perm (entries.map (·.1))
  peer : ∀ e ∈ entries, s.peer e.1 = some e.2

theorem Statistics.Holds.empty : Holds {} [] where
  peers := .nil
  peer _ h := absurd h List.not_mem_nil

theorem Statistics.Holds.add {s : Statistics} {entries : List (Key × PeerStats)} (h : s.Holds entries)
    {key : Key} (hkey : key ∉ entries.map (·.1)) (rx tx handshake : Int) :
    (s.add key rx tx handshake).Holds ((key, ⟨rx, tx, handshake⟩) :: entries) := by
  have hnew : key ∉ s.stats.keys := fun hmem => hkey (h.peers.mem_iff.1 hmem)
  constructor
  · show (s.stats.insert key _).keys.Perm _
    rw [AList.keys_insert, List.erase_of_not_mem hnew]
    exact h.peers.cons key
  · intro e he
    rcases List.mem_cons.1 he with rfl | he
    · exact AList.lookup_insert s.stats
    · have hmem : e.1 ∈ entries.map (·.1) := List.mem_map_of_mem he
      have hne : e.1 ≠ key := fun heq => hkey (heq ▸ hmem)
      show (s.stats.insert key _).lookup e.1 = _
      rw [AList.lookup_insert_ne hne]
      exact h.peer e he

-- the rows are added in their order, the entries of a map have none
theorem Statistics.Holds.perm {s : Statistics} {es es' : List (Key × PeerStats)} (h : s.Holds es)
    (hperm : es.Perm es') : s.Holds es' where
  peers := h.peers.trans (hperm.map _)
  peer e he := h.peer e (hperm.mem_iff.2 he)

def IsRow (line : Text) (e : Key × PeerStats) : Prop :=
  ∀ stats, addLine stats line =
    stats.add e.1 e.2.rxBytes e.2.txBytes e.2.latestHandshakeEpochMillis

theorem holds_foldl {lines : List Text} {es : List (Key × PeerStats)} (hrows : List.Forall₂ IsRow lines es)
    {s : Statistics} {es₀ : List (Key × PeerStats)} (hs : s.Holds es₀)
    (hnodup : ((es ++ es₀).map (·.1)).Nodup) : (lines.foldl addLine s).Holds (es ++ es₀) := by
  induction hrows generalizing s es₀ with
  | nil => exact hs
  | cons hrow hrest ih =>
    rename_i line e lines es
    have hmiddle : (es ++ e :: es₀).Perm (e :: es ++ es₀) := List.perm_middle
    have hnodup' := (hmiddle.map (·.1)).nodup_iff.2 hnodup
    have hkey : e.1 ∉ es₀.map (·.1) := by
      rw [List.cons_append, List.map_cons, List.nodup_cons, List.map_append, List.mem_append] at hnodup
      exact fun hmem => hnodup.1 (.inr hmem)
    have hadd := hs.add hkey e.2.rxBytes e.2.txBytes e.2.latestHandshakeEpochMillis
    rw [List.foldl_cons, hrow s]
    exact (ih hadd hnodup').perm hmiddle

theorem getStatistics_ok (output : List Text) :
    getStatistics (some (0, output)) = output.foldl addLine {} := by
  unfold getStatistics
  exact if_neg (not_not_intro rfl)

theorem addLine_of_length {line : Text} (h : (Java.split '\t' line).length ≠ 8) (stats : Statistics) :
    addLine stats line = stats := by
  unfold addLine
  split
  · next heq =>
    rw [heq] at h
    exact absurd rfl h
  · rfl

theorem isRow_of_split {line : Text} {e : Key × PeerStats} {key psk endpoint ips handshake rx tx last : Text}
    (hsplit : Java.split '\t' line = [key, psk, endpoint, ips, handshake, rx, tx, last])
    (hkey : Key.fromBase64 (Java.toCharArray key) = .ok e.1)
    (hrx : Java.parseLong rx = some e.2.rxBytes) (htx : Java.parseLong tx = some e.2.txBytes)
    {seconds : Int} (hseconds : Java.parseLong handshake = some seconds)
    (hmillis : Java.toLong (seconds * 1000) = e.2.latestHandshakeEpochMillis) : IsRow line e := by
  intro stats
  unfold addLine
  rw [hsplit]
  simp only [hkey, hrx, htx, hseconds, hmillis]

end Amnezia.Backend
