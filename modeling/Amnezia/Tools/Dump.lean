import Amnezia.Backend.Statistics
import Amnezia.Tools.Showconf

/-!
# The dump of an interface

`dump_print` of `show.c`, and what the app reads in it.  The strings of the interface are printed as
they are, so that the row of the interface has twenty columns or more.
-/

namespace Amnezia.Tools

open Crypto (Key)
open Java (Text)
open Libc (Bytes Utf8Decoder)
open Backend (PeerStats addLine getStatistics)

/-- `struct wgpeer` of a device that was read, with what was counted for the peer. -/
structure ShowPeer (Addr : Type) extends WgPeer Addr where
  /-- `last_handshake_time.tv_sec`. -/
  lastHandshakeTime : Nat := 0
  rxBytes : Nat := 0
  txBytes : Nat := 0

/-- `struct wgdevice` of a device that was read: a number that was not set is zero, and a string
that was not set is `NULL`. -/
structure ShowDevice (Addr : Type) where
  name : Bytes
  privateKey : Option Key := none
  publicKey : Option Key := none
  listenPort : Nat := 0
  fwmark : Nat := 0
  uint : UintParameter → Nat := fun _ => 0
  string : StringParameter → Option Bytes := fun _ => none
  peers : List (ShowPeer Addr) := []

def maybeKey (key : Option Key) : Bytes := key.elim "(none)".toList keyToBase64

def fwmarkText (fwmark : Nat) : Bytes :=
  if fwmark = 0 then "off".toList else '0' :: 'x' :: printHex fwmark

def keepaliveText (interval : Nat) : Bytes :=
  if interval = 0 then "off".toList else Java.valueOf interval

section Model

variable {Addr : Type} (names : Namer Addr) (gaiStrerror : Addr × Nat → Bytes)

/-- `ip`, with an empty buffer where `inet_ntop` fails. -/
def ip (a : WgAllowedIp Addr) : Bytes := (names.inetNtop a.family a.ip).getD []

/-- `endpoint`; it is the message of the failure where `getnameinfo` fails. -/
def endpoint (e : Addr × Nat) : Bytes := (endpointText names e).getD (gaiStrerror e)

def dumpInterface (d : ShowDevice Addr) : List Bytes :=
  [maybeKey d.privateKey, maybeKey d.publicKey, Java.valueOf d.listenPort]
    ++ UintParameter.all.map (fun p => Java.valueOf (d.uint p))
    ++ StringParameter.all.map (fun p => printString (d.string p))
    ++ [fwmarkText d.fwmark]

def dumpPeer (p : ShowPeer Addr) : List Bytes :=
  [keyToBase64 p.key, maybeKey p.presharedKey,
    p.endpoint.elim "(none)".toList (endpoint names gaiStrerror),
    if p.allowedIps = [] then "(none)".toList
    else [','].intercalate (p.allowedIps.map fun a => ip names a ++ '/' :: Java.valueOf a.cidr),
    Java.valueOf p.lastHandshakeTime, Java.valueOf p.rxBytes, Java.valueOf p.txBytes,
    keepaliveText (p.persistentKeepaliveInterval.getD 0)]

def dumpRows (withInterface : Bool) (d : ShowDevice Addr) : List (List Bytes) :=
  (dumpInterface d :: d.peers.map (dumpPeer names gaiStrerror)).map
    ((if withInterface then [d.name] else []) ++ ·)

def dumpPrint (withInterface : Bool) (d : ShowDevice Addr) : Bytes :=
  ((dumpRows names gaiStrerror withInterface d).map (['\t'].intercalate ·)).flatMap (· ++ ['\n'])

def InColumn (s : Bytes) : Prop := ∀ c ∈ s, 32 ≤ c.toNat

/-- The texts of the system's functions have no control characters. -/
structure NamesInColumn : Prop where
  inetNtop : ∀ f a t, names.inetNtop f a = some t → InColumn t
  getnameinfo : ∀ e host service, names.getnameinfo e = some (host, service) →
    InColumn host ∧ InColumn service
  gaiStrerror : ∀ e, InColumn (gaiStrerror e)

end Model

def ShowPeer.entry {Addr : Type} (p : ShowPeer Addr) : Key × PeerStats :=
  (p.key, ⟨p.rxBytes, p.txBytes, p.lastHandshakeTime * 1000⟩)

theorem InColumn.append {s t : Bytes} (hs : InColumn s) (ht : InColumn t) : InColumn (s ++ t) := by
  intro c hc
  exact (List.mem_append.1 hc).elim (hs c) (ht c)

theorem InColumn.cons {c : Char} (hc : 32 ≤ c.toNat) {s : Bytes} (hs : InColumn s) : InColumn (c :: s) :=
  List.forall_mem_cons.2 ⟨hc, hs⟩

theorem InColumn.notMem {s : Bytes} (h : InColumn s) {c : Char} (hc : c.toNat < 32) : c ∉ s :=
  fun hmem => absurd (h c hmem) (by omega)

theorem inColumn_of_all {s : Bytes} (h : s.all (fun c => decide (32 ≤ c.toNat)) = true) : InColumn s :=
  fun c hc => of_decide_eq_true (List.all_eq_true.1 h c hc)

theorem inColumn_none : InColumn "(none)".toList := inColumn_of_all (by decide)

theorem inColumn_valueOf (n : Nat) : InColumn (Java.valueOf n) := by
  intro c hc
  have hdigit := Java.isDigit_iff.1 (Java.isDigit_of_mem_valueOf hc)
  omega

theorem inColumn_keyToBase64 (key : Key) : InColumn (keyToBase64 key) := by
  intro c hc
  rw [keyToBase64_eq] at hc
  have hchar := Key.base64Char_of_mem_toBase64 hc
  simp only [Key.base64Char, Bool.or_eq_true, beq_iff_eq, Java.isAlphanum_iff] at hchar
  rcases hchar with ((h | rfl) | rfl) | rfl
  · omega
  · decide
  · decide
  · decide

theorem inColumn_maybeKey (key : Option Key) : InColumn (maybeKey key) := by
  cases key with
  | none => exact inColumn_none
  | some key => exact inColumn_keyToBase64 key

-- the last columns are not empty and have no tab, and no byte of them needs a decoder
theorem fwmarkText_spec (fwmark : Nat) :
    fwmarkText fwmark ≠ [] ∧ ∀ c ∈ fwmarkText fwmark, c.isAlphanum = true := by
  unfold fwmarkText
  split
  · exact ⟨by decide, List.all_eq_true.1 (by decide)⟩
  · rw [List.forall_mem_cons, List.forall_mem_cons]
    refine ⟨List.cons_ne_nil _ _, by decide, by decide, ?_⟩
    intro c hc
    obtain ⟨digit, rfl⟩ := mem_printHex hc
    exact (digitChar_hex digit).2.2

theorem keepaliveText_spec (interval : Nat) :
    keepaliveText interval ≠ [] ∧ ∀ c ∈ keepaliveText interval, c.isAlphanum = true := by
  unfold keepaliveText
  split
  · exact ⟨by decide, List.all_eq_true.1 (by decide)⟩
  · refine ⟨Java.valueOf_ne_nil interval, ?_⟩
    intro c hc
    have hdigit := Java.isDigit_iff.1 (Java.isDigit_of_mem_valueOf hc)
    exact Java.isAlphanum_iff.2 (by omega)

theorem inColumn_of_isAlphanum {s : Bytes} (h : ∀ c ∈ s, c.isAlphanum = true) : InColumn s := by
  intro c hc
  have hcode := Java.isAlphanum_iff.1 (h c hc)
  omega

section Peer

variable {Addr : Type} {names : Namer Addr} {gaiStrerror : Addr × Nat → Bytes}
  (hnames : NamesInColumn names gaiStrerror)

include hnames

theorem inColumn_endpoint (e : Addr × Nat) :
    InColumn (endpoint names gaiStrerror e) := by
  unfold endpoint endpointText
  cases hinfo : names.getnameinfo e with
  | none => exact hnames.gaiStrerror e
  | some info =>
    obtain ⟨host, service⟩ := info
    obtain ⟨hhost, hservice⟩ := hnames.getnameinfo e host service hinfo
    simp only [Option.map_some, Option.getD_some]
    split
    · exact .append (.cons (by decide) hhost) (.cons (by decide) (.cons (by decide) hservice))
    · exact .append hhost (.cons (by decide) hservice)

theorem inColumn_ip (a : WgAllowedIp Addr) : InColumn (ip names a) := by
  unfold ip
  cases htext : names.inetNtop a.family a.ip with
  | none => exact fun c hc => absurd hc List.not_mem_nil
  | some text => exact hnames.inetNtop _ _ text htext

theorem inColumn_dumpPeer (p : ShowPeer Addr) :
    ∀ col ∈ dumpPeer names gaiStrerror p, InColumn col := by
  have hendpoint : InColumn (p.endpoint.elim "(none)".toList (endpoint names gaiStrerror)) := by
    cases p.endpoint with
    | none => exact inColumn_none
    | some e => exact inColumn_endpoint hnames e
  have hips : InColumn (if p.allowedIps = [] then "(none)".toList
      else [','].intercalate (p.allowedIps.map fun a => ip names a ++ '/' :: Java.valueOf a.cidr)) := by
    split
    · exact inColumn_none
    · intro c hc
      rcases Fields.mem_intercalate hc with hc | ⟨t, ht, hc⟩
      · rw [List.mem_singleton.1 hc]
        decide
      · obtain ⟨a, -, rfl⟩ := List.mem_map.1 ht
        exact InColumn.append (inColumn_ip hnames a) (.cons (by decide) (inColumn_valueOf _)) c hc
  simp only [dumpPeer, List.forall_mem_cons, List.not_mem_nil, false_implies, implies_true, and_true]
  exact ⟨inColumn_keyToBase64 _, inColumn_maybeKey _, hendpoint, hips, inColumn_valueOf _,
    inColumn_valueOf _, inColumn_valueOf _, inColumn_of_isAlphanum (keepaliveText_spec _).2⟩

end Peer

section Row

variable (dec : Utf8Decoder) {cols : List Bytes} {last : Bytes}

theorem split_row (hcols : cols ≠ []) (hne : last ≠ []) (hlast : ∀ c ∈ last, c.isAlphanum = true) :
    Java.split '\t' (dec.decode (['\t'].intercalate (cols ++ [last]))) =
      (cols.map dec.decode).flatMap (·.splitOn '\t') ++ [last] := by
  have hcode : ∀ c ∈ last, c ≠ '\t' ∧ c.toNat < 128 := by
    intro c hc
    have hcode := Java.isAlphanum_iff.1 (hlast c hc)
    refine ⟨?_, by omega⟩
    rintro rfl
    exact absurd hcode (by decide)
  have hsplit : (dec.decode (['\t'].intercalate (cols ++ [last]))).splitOn '\t' =
      (cols.map dec.decode).flatMap (·.splitOn '\t') ++ [last] := by
    rw [dec.decode_intercalate (by decide), Fields.splitOn_intercalate (by simp), List.map_append,
      List.flatMap_append, List.map_singleton, dec.decode_of_ascii (fun c hc => (hcode c hc).2),
      List.flatMap_singleton, List.splitOn_eq_singleton (fun h => (hcode _ h).1 rfl)]
  have hlen : (cols.map dec.decode).length ≤ ((cols.map dec.decode).flatMap (·.splitOn '\t')).length :=
    Fields.length_le_length_splitOn '\t' _
  have hpos : 0 < (cols.map dec.decode).length := by
    rw [List.length_map]
    exact List.length_pos_iff.2 hcols
  -- there are two columns, so that there is a tab
  have hmem : '\t' ∈ dec.decode (['\t'].intercalate (cols ++ [last])) := by
    by_contra hnot
    have hlengths := congrArg List.length hsplit
    rw [List.splitOn_eq_singleton hnot, List.length_singleton, List.length_append,
      List.length_singleton] at hlengths
    omega
  have hend : ((dec.decode (['\t'].intercalate (cols ++ [last]))).splitOn '\t').getLast? = some last := by
    rw [hsplit]
    exact List.getLast?_concat
  rw [Java.split_eq_splitOn hmem hend hne, hsplit]

theorem split_row_of_notMem (hcols : cols ≠ []) (hne : last ≠ [])
    (hlast : ∀ c ∈ last, c.isAlphanum = true) (htab : ∀ col ∈ cols, '\t' ∉ col) :
    Java.split '\t' (dec.decode (['\t'].intercalate (cols ++ [last]))) =
      cols.map dec.decode ++ [last] := by
  have hcols' : cols.map dec.decode ≠ [] := by simpa using hcols
  have hparts : (cols.map dec.decode).flatMap (·.splitOn '\t') = cols.map dec.decode := by
    rw [← Fields.splitOn_intercalate hcols']
    refine List.splitOn_intercalate '\t' ?_ hcols'
    intro col hcol hmem
    obtain ⟨col', hcol', rfl⟩ := List.mem_map.1 hcol
    exact htab col' hcol' (dec.mem_of_mem_decode _ _ (by decide) hmem)
  rw [split_row dec hcols hne hlast, hparts]

theorem length_le_split_row (hcols : cols ≠ []) (hne : last ≠ [])
    (hlast : ∀ c ∈ last, c.isAlphanum = true) : (cols ++ [last]).length ≤
      (Java.split '\t' (dec.decode (['\t'].intercalate (cols ++ [last])))).length := by
  have hlen : (cols.map dec.decode).length ≤ ((cols.map dec.decode).flatMap (·.splitOn '\t')).length :=
    Fields.length_le_length_splitOn '\t' _
  rw [split_row dec hcols hne hlast, List.length_append, List.length_append]
  rw [List.length_map] at hlen
  omega

end Row

section Rows

variable {Addr : Type} {names : Namer Addr} {gaiStrerror : Addr × Nat → Bytes} (dec : Utf8Decoder)

theorem length_dumpInterface (d : ShowDevice Addr) : (dumpInterface d).length = 20 := rfl

theorem addLine_dumpInterface (d : ShowDevice Addr) (stats : Backend.Statistics) :
    addLine stats (dec.decode (['\t'].intercalate (dumpInterface d))) = stats := by
  obtain ⟨hne, hlast⟩ := fwmarkText_spec d.fwmark
  have hlen : (dumpInterface d).length ≤
      (Java.split '\t' (dec.decode (['\t'].intercalate (dumpInterface d)))).length :=
    length_le_split_row dec (by simp) hne hlast
  rw [length_dumpInterface] at hlen
  exact Backend.addLine_of_length (by omega) stats

/-- The counters fit in a `long`, the time in milliseconds too. -/
structure ShowPeer.Fits (p : ShowPeer Addr) : Prop where
  rxBytes : p.rxBytes < 2 ^ 63
  txBytes : p.txBytes < 2 ^ 63
  lastHandshakeTime : p.lastHandshakeTime * 1000 < 2 ^ 63

theorem decode_valueOf (n : Nat) : dec.decode (Java.valueOf n) = Java.valueOf n := by
  apply dec.decode_of_ascii
  intro c hc
  have hdigit := Java.isDigit_iff.1 (Java.isDigit_of_mem_valueOf hc)
  omega

theorem decode_keyToBase64 (key : Key) : dec.decode (keyToBase64 key) = key.toBase64 := by
  rw [keyToBase64_eq]
  exact dec.decode_of_ascii (fun c hc => Key.toNat_lt_of_mem_toBase64 hc)

theorem decode_dumpPrint (d : ShowDevice Addr) :
    dec.decode (dumpPrint names gaiStrerror false d) =
      ((dumpRows names gaiStrerror false d).map fun row =>
        dec.decode (['\t'].intercalate row)).flatMap (· ++ ['\n']) := by
  unfold dumpPrint
  rw [dec.decode_lines, List.map_map]
  rfl

variable (hnames : NamesInColumn names gaiStrerror)

include hnames

theorem split_dumpPeer (p : ShowPeer Addr) : ∃ psk endpoint ips last : Text,
    Java.split '\t' (dec.decode (['\t'].intercalate (dumpPeer names gaiStrerror p))) =
      [p.key.toBase64, psk, endpoint, ips, Java.valueOf p.lastHandshakeTime, Java.valueOf p.rxBytes,
        Java.valueOf p.txBytes, last] := by
  obtain ⟨hne, hlast⟩ := keepaliveText_spec (p.persistentKeepaliveInterval.getD 0)
  have htab : ∀ col ∈ (dumpPeer names gaiStrerror p).dropLast, '\t' ∉ col := by
    intro col hcol
    exact (inColumn_dumpPeer hnames p col (List.dropLast_subset _ hcol)).notMem (by decide)
  have hsplit : Java.split '\t' (dec.decode (['\t'].intercalate (dumpPeer names gaiStrerror p))) =
      [dec.decode (keyToBase64 p.key), _, _, _, dec.decode (Java.valueOf p.lastHandshakeTime),
        dec.decode (Java.valueOf p.rxBytes), dec.decode (Java.valueOf p.txBytes), _] :=
    @split_row_of_notMem dec (dumpPeer names gaiStrerror p).dropLast _ (List.cons_ne_nil _ _) hne hlast
      htab
  rw [decode_keyToBase64, decode_valueOf, decode_valueOf, decode_valueOf] at hsplit
  exact ⟨_, _, _, _, hsplit⟩

theorem isRow_dumpPeer {p : ShowPeer Addr} (hfits : p.Fits) :
    Backend.IsRow (dec.decode (['\t'].intercalate (dumpPeer names gaiStrerror p))) p.entry := by
  obtain ⟨psk, endpoint, ips, last, hsplit⟩ := split_dumpPeer dec hnames p
  have hrx := hfits.rxBytes
  have htx := hfits.txBytes
  have htime := hfits.lastHandshakeTime
  exact Backend.isRow_of_split hsplit (Key.fromBase64_toBase64 p.key)
    (Java.parseLong_valueOf (by omega)) (Java.parseLong_valueOf (by omega))
    (Java.parseLong_valueOf (by omega)) (Java.toLong_of_lt htime)

theorem notMem_row {d : ShowDevice Addr} {c : Char} (hc : c.toNat < 32) (htab : c ≠ '\t')
    (hstrings : ∀ p s, d.string p = some s → c ∉ s) {row : List Bytes} (hrow : row ∈ dumpRows names gaiStrerror false d) :
    c ∉ ['\t'].intercalate row := by
  have hinterface : ∀ col ∈ dumpInterface d, c ∉ col := by
    intro col hcol
    simp only [dumpInterface, List.mem_append, List.mem_cons, List.not_mem_nil, or_false,
      List.mem_map] at hcol
    rcases hcol with ((((rfl | rfl | rfl) | ⟨p, -, rfl⟩) | ⟨p, -, rfl⟩) | rfl)
    · exact (inColumn_maybeKey _).notMem hc
    · exact (inColumn_maybeKey _).notMem hc
    · exact (inColumn_valueOf _).notMem hc
    · exact (inColumn_valueOf _).notMem hc
    · cases hs : d.string p with
      | none => exact (inColumn_of_all (by decide) : InColumn "(null)".toList).notMem hc
      | some s => exact hstrings p s hs
    · exact (inColumn_of_isAlphanum (fwmarkText_spec _).2).notMem hc
  have hcols : ∀ col ∈ row, c ∉ col := by
    rcases List.mem_map.1 hrow with ⟨row', hrow', rfl⟩
    rcases List.mem_cons.1 hrow' with rfl | hpeer
    · exact hinterface
    · obtain ⟨p, -, rfl⟩ := List.mem_map.1 hpeer
      exact fun col hcol => (inColumn_dumpPeer hnames p col hcol).notMem hc
  intro hmem
  rcases Fields.mem_intercalate hmem with hsep | ⟨col, hcol, hmem⟩
  · exact htab (List.mem_singleton.1 hsep)
  · exact hcols col hcol hmem

/-- The rows as the app reads them are one entry for each peer, and none for the interface. -/
theorem holds_dumpRows {d : ShowDevice Addr} (hkeys : (d.peers.map (·.key)).Nodup)
    (hfits : ∀ p ∈ d.peers, p.Fits) :
    (getStatistics (some (0, (dumpRows names gaiStrerror false d).map fun row =>
      dec.decode (['\t'].intercalate row)))).Holds (d.peers.map ShowPeer.entry) := by
  have hrows : List.Forall₂ Backend.IsRow (d.peers.map fun p =>
      dec.decode (['\t'].intercalate (dumpPeer names gaiStrerror p))) (d.peers.map ShowPeer.entry) := by
    rw [List.forall₂_map_left_iff, List.forall₂_map_right_iff, List.forall₂_same]
    exact fun p hp => isRow_dumpPeer dec hnames (hfits p hp)
  have hnodup : ((d.peers.map ShowPeer.entry ++ []).map Prod.fst).Nodup := by
    rw [List.append_nil, List.map_map]
    exact hkeys
  have hfold := Backend.holds_foldl hrows Backend.Statistics.Holds.empty hnodup
  rw [List.append_nil] at hfold
  unfold dumpRows
  rw [Backend.getStatistics_ok, List.map_map, List.map_cons, List.foldl_cons, List.map_map]
  show (List.foldl addLine (addLine {} (dec.decode (['\t'].intercalate (dumpInterface d)))) _).Holds _
  rw [addLine_dumpInterface]
  exact hfold

theorem notMem_dumpLine {d : ShowDevice Addr} {c : Char} (hc : c.toNat < 32) (htab : c ≠ '\t')
    (hstrings : ∀ p s, d.string p = some s → c ∉ s) :
    ∀ line ∈ (dumpRows names gaiStrerror false d).map fun row => dec.decode (['\t'].intercalate row),
      c ∉ line := by
  intro line hline hmem
  obtain ⟨row, hrow, rfl⟩ := List.mem_map.1 hline
  exact notMem_row hnames hc htab hstrings hrow (dec.mem_of_mem_decode _ _ (by omega) hmem)

theorem readLines_dumpPrint {d : ShowDevice Addr} (hfeed : ∀ p s, d.string p = some s → '\n' ∉ s)
    (hreturn : ∀ p s, d.string p = some s → '\r' ∉ s) :
    Java.readLines (dec.decode (dumpPrint names gaiStrerror false d)) =
      (dumpRows names gaiStrerror false d).map fun row => dec.decode (['\t'].intercalate row) := by
  rw [decode_dumpPrint]
  exact Java.readLines_flatMap fun line hline =>
    ⟨notMem_dumpLine dec hnames (by decide) (by decide) hfeed line hline,
      notMem_dumpLine dec hnames (by decide) (by decide) hreturn line hline⟩

/-- The app's statistics of the lines that are printed: one entry for each peer, with what was
counted for it, and none for the interface.  The lines are those between the line feeds; the root
shell's reader gives the same unless a string has a carriage return. -/
theorem getStatistics_dump (d : ShowDevice Addr) (hstrings : ∀ p s, d.string p = some s → '\n' ∉ s)
    (hkeys : (d.peers.map (·.key)).Nodup) (hfits : ∀ p ∈ d.peers, p.Fits) :
    ∃ lines : List Text,
      dec.decode (dumpPrint names gaiStrerror false d) = lines.flatMap (· ++ ['\n']) ∧
      (∀ line ∈ lines, '\n' ∉ line) ∧
      ((∀ p s, d.string p = some s → '\r' ∉ s) →
        Java.readLines (dec.decode (dumpPrint names gaiStrerror false d)) = lines) ∧
      (getStatistics (some (0, lines))).peers.Perm (d.peers.map (·.key)) ∧
      ∀ p ∈ d.peers, (getStatistics (some (0, lines))).peer p.key =
        some ⟨p.rxBytes, p.txBytes, p.lastHandshakeTime * 1000⟩ := by
  have hholds := holds_dumpRows dec hnames hkeys hfits
  refine ⟨_, decode_dumpPrint dec d,
    notMem_dumpLine dec hnames (by decide) (by decide) hstrings,
    readLines_dumpPrint dec hnames hstrings, ?_, ?_⟩
  · have hpeers := hholds.peers
    rwa [List.map_map] at hpeers
  · exact fun p hp => hholds.peer p.entry (List.mem_map_of_mem hp)

end Rows

def exampleNamer : Namer Bytes where
  family _ := .inet
  inetNtop _ a := if a.all (fun c => decide (32 ≤ c.toNat)) then some a else none
  getnameinfo e := if e.1.all (fun c => decide (32 ≤ c.toNat)) then some (e.1, Java.valueOf e.2) else none

theorem namesInColumn_example : NamesInColumn exampleNamer (fun _ => "Try again".toList) := by
  refine ⟨?_, ?_, fun _ => inColumn_of_all (by decide)⟩
  · intro f a t h
    unfold exampleNamer at h
    simp only [Option.ite_none_right_eq_some, Option.some.injEq] at h
    exact inColumn_of_all (h.2 ▸ h.1)
  · intro e host service h
    unfold exampleNamer at h
    simp only [Option.ite_none_right_eq_some, Option.some.injEq, Prod.mk.injEq] at h
    obtain ⟨hall, rfl, rfl⟩ := h
    exact ⟨inColumn_of_all hall, inColumn_valueOf e.2⟩

def exampleDevice : ShowDevice Bytes where
  name := "awg0".toList
  privateKey := some zeroKey
  listenPort := 51820
  string p := if p = .i1 then some "<b 0xf6>\t<r 8>\t\t".toList else none
  peers := [
    { publicKey := some zeroKey
      endpoint := some ("192.0.2.1".toList, 51820)
      allowedIps := [⟨.inet, "0.0.0.0".toList, 0⟩]
      lastHandshakeTime := 1700000000
      rxBytes := 92
      txBytes := 148 },
    { publicKey := some secondKey
      rxBytes := 5 }]

theorem getStatistics_dump_example : ∃ lines : List Text,
    Libc.replacingDecoder.decode (dumpPrint exampleNamer (fun _ => "Try again".toList) false exampleDevice) =
      lines.flatMap (· ++ ['\n']) ∧
    (∀ line ∈ lines, '\n' ∉ line) ∧
    Java.readLines (Libc.replacingDecoder.decode
      (dumpPrint exampleNamer (fun _ => "Try again".toList) false exampleDevice)) = lines ∧
    (getStatistics (some (0, lines))).peers.Perm [zeroKey, secondKey] ∧
    ∀ p ∈ exampleDevice.peers, (getStatistics (some (0, lines))).peer p.key =
      some ⟨p.rxBytes, p.txBytes, p.lastHandshakeTime * 1000⟩ := by
  have hstrings : ∀ c ∈ ['\n', '\r'], ∀ p s, exampleDevice.string p = some s → c ∉ s := by
    intro c hc p s h
    unfold exampleDevice at h
    simp only [Option.ite_none_right_eq_some, Option.some.injEq] at h
    rw [← h.2]
    rcases List.mem_pair.1 hc with rfl | rfl
    · decide
    · decide
  have hfits : ∀ p ∈ exampleDevice.peers, p.Fits := by
    intro p hp
    rcases List.mem_pair.1 hp with rfl | rfl
    · exact ⟨by decide, by decide, by decide⟩
    · exact ⟨by decide, by decide, by decide⟩
  obtain ⟨lines, htext, hfeed, hread, hpeers, hpeer⟩ := getStatistics_dump Libc.replacingDecoder
    namesInColumn_example exampleDevice (hstrings '\n' (by simp)) (by decide +kernel) hfits
  exact ⟨lines, htext, hfeed, hread (hstrings '\r' (by simp)), hpeers, hpeer⟩

end Amnezia.Tools
