import Amnezia.Config.Reader
import Amnezia.Config.Stored
import Mathlib.Logic.Relation

/-!
# Blocks of a configuration file

`Config.parse` is one pass with three flags and two buffers.  What it computes is said here without
them: the lines are cut at the headers, the `[Interface]` blocks are read as one, and each `[Peer]`
block on its own.
-/

namespace Amnezia.Config

open Java (Text)

abbrev Block := Text × List Text

def isHeader (line : Text) : Bool := line.head? == some '['

def Block.isInterface (b : Block) : Bool := Java.equalsIgnoreCase "[Interface]".toList b.1

def Block.isPeer (b : Block) : Bool := Java.equalsIgnoreCase "[Peer]".toList b.1

def keptLines (lines : List Text) : List Text :=
  (lines.map fun line => Java.trim (Java.before '#' line)).filter (!·.isEmpty)

section Reference

variable {Addr : Type} [DecidableEq Addr] (net : Net Addr)

def ofBlocks (blocks : List Block) : Option (Config Addr) :=
  if blocks.all (fun b => b.isInterface || b.isPeer) && blocks.any Block.isInterface then do
    let i ← (Interface.parse net ((blocks.filter Block.isInterface).flatMap Prod.snd)).toOption
    let peers ← ((blocks.filter Block.isPeer).mapM fun b => Peer.parse net b.2).toOption
    return ⟨i, peers⟩
  else none

def ofLines (lines : List Text) : Option (Config Addr) :=
  let (before, blocks) := Fields.cut isHeader (keptLines lines)
  if before = [] then ofBlocks net blocks else none

def parseLines (lines : List Text) : Except BadConfigException (Config Addr) :=
  lines.foldlM (fun (st : ParseState Addr) line => st.cleanedLine net (clean line)) {} >>=
    parseEnd net

end Reference

variable {Addr : Type} [DecidableEq Addr] {net : Net Addr}

variable {b : Block}

theorem Block.isPeer_of_isInterface (h : b.isInterface = true) : b.isPeer = false := by
  unfold isInterface Java.equalsIgnoreCase at h
  unfold isPeer Java.equalsIgnoreCase
  rw [← eq_of_beq h]
  decide

theorem Block.isInterface_of_isPeer (h : b.isPeer = true) : b.isInterface = false := by
  cases hi : b.isInterface with
  | true =>
    rw [isPeer_of_isInterface hi] at h
    cases h
  | false => rfl

variable {c : Config Addr} {blocks : List Block}

theorem ofBlocks_eq_some :
    ofBlocks net blocks = some c ↔
      (∀ b ∈ blocks, b.isInterface = true ∨ b.isPeer = true) ∧
      (∃ b ∈ blocks, b.isInterface = true) ∧
      Interface.parse net ((blocks.filter Block.isInterface).flatMap Prod.snd) = .ok c.interfaze ∧
      (blocks.filter Block.isPeer).mapM (fun b => Peer.parse net b.2) = .ok c.peers := by
  have hknown : (blocks.all (fun b => b.isInterface || b.isPeer) && blocks.any Block.isInterface)
      = true ↔ (∀ b ∈ blocks, b.isInterface = true ∨ b.isPeer = true) ∧
        ∃ b ∈ blocks, b.isInterface = true := by
    simp only [Bool.and_eq_true, List.all_eq_true, Bool.or_eq_true, List.any_eq_true]
  unfold ofBlocks
  constructor
  · intro h
    split at h
    · next hif =>
      obtain ⟨hall, hany⟩ := hknown.1 hif
      obtain ⟨i, hi, h⟩ := Option.bind_eq_some_iff.1 h
      obtain ⟨peers, hpeers, h⟩ := Option.bind_eq_some_iff.1 h
      cases h
      exact ⟨hall, hany, Loops.eq_ok_of_toOption hi, Loops.eq_ok_of_toOption hpeers⟩
    · cases h
  · rintro ⟨hall, hany, hi, hpeers⟩
    rw [if_pos (hknown.2 ⟨hall, hany⟩), hi, hpeers]
    rfl

namespace ParseState

def pending (st : ParseState Addr) : List (List Text) :=
  if st.inPeerSection then [st.peerLines] else []

def Settled (st : ParseState Addr) : Prop := st.inPeerSection = false → st.peerLines = []

variable {st : ParseState Addr}

theorem consumePeer_eq_ok {t : ParseState Addr} (hst : st.Settled) :
    st.consumePeer net = .ok t ↔ ∃ ps, st.pending.mapM (Peer.parse net) = .ok ps ∧
      t = { st with peers := st.peers ++ ps, peerLines := [] } := by
  constructor
  · intro h
    rcases consumePeer_cases h with ⟨hpeer, p, hp, rfl⟩ | ⟨hpeer, rfl⟩
    · refine ⟨[p], ?_, rfl⟩
      unfold pending
      rw [if_pos hpeer, List.mapM_cons, hp]
      rfl
    · refine ⟨[], ?_, ?_⟩
      · unfold pending
        rw [if_neg (by simp [hpeer])]
        rfl
      · have hlines := hst hpeer
        cases t
        simp only at hlines
        simp [hlines]
  · rintro ⟨ps, hps, rfl⟩
    unfold pending at hps
    unfold consumePeer
    cases hpeer : st.inPeerSection with
    | true =>
      rw [hpeer, if_pos rfl, List.mapM_cons] at hps
      obtain ⟨p, hp, hps⟩ := Loops.bind_eq_ok.1 hps
      cases hps
      rw [if_pos rfl, hp]
      simp only [← hpeer]
      rfl
    | false =>
      rw [hpeer] at hps
      cases hps
      have hlines := hst hpeer
      cases st
      simp only at hlines hpeer
      simp [hlines, hpeer]

structure Regular (b : Block) : Prop where
  header : b.1.head? = some '['
  lines : ∀ line ∈ b.2, line ≠ [] ∧ line.head? ≠ some '['

-- The header of a block, and then its lines.
theorem foldlM_block (hb : Regular b) {st' : ParseState Addr} :
    (b.1 :: b.2).foldlM (cleanedLine net) st = .ok st' ↔
      ∃ t, st.consumePeer net = .ok t ∧
        ((b.isInterface = true ∧ st' = { t with
          inInterfaceSection := true, inPeerSection := false, seenInterfaceSection := true
          interfaceLines := t.interfaceLines ++ b.2 }) ∨
        (b.isPeer = true ∧ st' = { t with
          inInterfaceSection := false, inPeerSection := true
          peerLines := t.peerLines ++ b.2 })) := by
  have hstep : st.cleanedLine net b.1 = (st.consumePeer net >>= (header · b.1)) := by
    have hne : b.1 ≠ [] := by
      intro hnil
      have hhead := hb.header
      rw [hnil] at hhead
      cases hhead
    unfold cleanedLine
    rw [if_neg hne, if_pos hb.header]
  rw [Loops.foldlM_cons_eq_ok, hstep]
  constructor
  · rintro ⟨u, hu, hlines⟩
    obtain ⟨t, ht, hu⟩ := Loops.bind_eq_ok.1 hu
    refine ⟨t, ht, ?_⟩
    rcases header_cases hu with ⟨hi, rfl⟩ | ⟨-, hp, rfl⟩
    · rw [foldlM_interfaceLines hb.lines rfl] at hlines
      cases hlines
      exact .inl ⟨hi, rfl⟩
    · rw [foldlM_peerLines hb.lines rfl rfl] at hlines
      cases hlines
      exact .inr ⟨hp, rfl⟩
  · rintro ⟨t, ht, ⟨hi, rfl⟩ | ⟨hp, rfl⟩⟩
    · refine ⟨{ t with
        inInterfaceSection := true, inPeerSection := false, seenInterfaceSection := true }, ?_, ?_⟩
      · rw [ht]
        exact if_pos hi
      · rw [foldlM_interfaceLines hb.lines rfl]
    · refine ⟨{ t with inInterfaceSection := false, inPeerSection := true }, ?_, ?_⟩
      · have hi : b.isInterface ≠ true := ne_true_of_eq_false (Block.isInterface_of_isPeer hp)
        rw [ht]
        exact (if_neg hi).trans (if_pos hp)
      · rw [foldlM_peerLines hb.lines rfl rfl]

theorem parseEnd_eq_ok (hst : st.Settled) :
    parseEnd net st = .ok c ↔ st.seenInterfaceSection = true ∧
      Interface.parse net st.interfaceLines = .ok c.interfaze ∧
      ∃ ps, st.pending.mapM (Peer.parse net) = .ok ps ∧ c.peers = st.peers ++ ps := by
  unfold parseEnd
  rw [Loops.bind_eq_ok]
  constructor
  · rintro ⟨t, ht, h⟩
    obtain ⟨ps, hps, rfl⟩ := (consumePeer_eq_ok hst).1 ht
    cases hseen : st.seenInterfaceSection with
    | false =>
      rw [if_pos hseen] at h
      cases h
    | true =>
      rw [if_neg (by simp [hseen])] at h
      obtain ⟨i, hi, h⟩ := Loops.bind_eq_ok.1 h
      cases h
      exact ⟨rfl, hi, ps, hps, rfl⟩
  · rintro ⟨hseen, hi, ps, hps, hpeers⟩
    refine ⟨_, (consumePeer_eq_ok hst).2 ⟨ps, hps, rfl⟩, ?_⟩
    rw [if_neg (by simp [hseen]), Loops.bind_eq_ok]
    refine ⟨c.interfaze, hi, ?_⟩
    rw [← hpeers]
    rfl

variable (net) in
/-- What the rest of the pass reads, from a state between two blocks: the peer that is still pending
is the first of those to come. -/
def Reads (st : ParseState Addr) (blocks : List Block) (c : Config Addr) : Prop :=
  (∀ b ∈ blocks, b.isInterface = true ∨ b.isPeer = true) ∧
  (st.seenInterfaceSection = true ∨ ∃ b ∈ blocks, b.isInterface = true) ∧
  Interface.parse net (st.interfaceLines ++
    (blocks.filter Block.isInterface).flatMap Prod.snd) = .ok c.interfaze ∧
  ∃ ps, (st.pending ++ (blocks.filter Block.isPeer).map Prod.snd).mapM (Peer.parse net) = .ok ps ∧
    c.peers = st.peers ++ ps

theorem reads_cons_interface (hb : b.isInterface = true) :
    st.Reads net (b :: blocks) c ↔ ∃ ps, st.pending.mapM (Peer.parse net) = .ok ps ∧
      Reads net { st with
        peers := st.peers ++ ps, peerLines := [], inInterfaceSection := true
        inPeerSection := false, seenInterfaceSection := true
        interfaceLines := st.interfaceLines ++ b.2 } blocks c := by
  have hlines : st.interfaceLines ++ ((b :: blocks).filter Block.isInterface).flatMap Prod.snd =
      st.interfaceLines ++ b.2 ++ (blocks.filter Block.isInterface).flatMap Prod.snd := by
    rw [List.filter_cons_of_pos hb, List.flatMap_cons, List.append_assoc]
  have hpeers : (b :: blocks).filter Block.isPeer = blocks.filter Block.isPeer :=
    List.filter_cons_of_neg (by simp [Block.isPeer_of_isInterface hb])
  unfold Reads
  rw [hlines, hpeers, List.forall_mem_cons]
  constructor
  · rintro ⟨⟨-, hknown⟩, -, hint, rs, hrs, heq⟩
    obtain ⟨ps, qs, hps, hqs, rfl⟩ := Loops.mapM_append_eq_ok.1 hrs
    refine ⟨ps, hps, hknown, .inl rfl, hint, qs, hqs, ?_⟩
    rw [heq, List.append_assoc]
  · rintro ⟨ps, hps, hknown, -, hint, qs, hqs, heq⟩
    refine ⟨⟨.inl hb, hknown⟩, .inr ⟨b, List.mem_cons_self, hb⟩, hint, ps ++ qs,
      Loops.mapM_append_eq_ok.2 ⟨ps, qs, hps, hqs, rfl⟩, ?_⟩
    rw [heq, List.append_assoc]

theorem reads_cons_peer (hb : b.isPeer = true) :
    st.Reads net (b :: blocks) c ↔ ∃ ps, st.pending.mapM (Peer.parse net) = .ok ps ∧
      Reads net { st with
        peers := st.peers ++ ps, peerLines := [] ++ b.2, inInterfaceSection := false
        inPeerSection := true } blocks c := by
  have hi : b.isInterface ≠ true := ne_true_of_eq_false (Block.isInterface_of_isPeer hb)
  have hlines : (b :: blocks).filter Block.isInterface = blocks.filter Block.isInterface :=
    List.filter_cons_of_neg hi
  have hpeers : ((b :: blocks).filter Block.isPeer).map Prod.snd =
      [b.2] ++ (blocks.filter Block.isPeer).map Prod.snd := by
    rw [List.filter_cons_of_pos hb]
    rfl
  have hsome : (∃ b' ∈ b :: blocks, b'.isInterface = true) ↔ ∃ b' ∈ blocks, b'.isInterface = true := by
    simp [hi]
  unfold Reads
  rw [hlines, hpeers, hsome, List.forall_mem_cons]
  constructor
  · rintro ⟨⟨-, hknown⟩, hseen, hint, rs, hrs, heq⟩
    obtain ⟨ps, qs, hps, hqs, rfl⟩ := Loops.mapM_append_eq_ok.1 hrs
    refine ⟨ps, hps, hknown, hseen, hint, qs, hqs, ?_⟩
    rw [heq, List.append_assoc]
  · rintro ⟨ps, hps, hknown, hseen, hint, qs, hqs, heq⟩
    refine ⟨⟨.inr hb, hknown⟩, hseen, hint, ps ++ qs,
      Loops.mapM_append_eq_ok.2 ⟨ps, qs, hps, hqs, rfl⟩, ?_⟩
    rw [heq, List.append_assoc]

theorem foldlM_blocks (hblocks : ∀ b ∈ blocks, Regular b) (hst : st.Settled) :
    ((blocks.flatMap fun b => b.1 :: b.2).foldlM (cleanedLine net) st >>= parseEnd net) = .ok c ↔
      st.Reads net blocks c := by
  induction blocks generalizing st with
  | nil =>
    show parseEnd net st = .ok c ↔ _
    rw [parseEnd_eq_ok hst]
    simp [Reads]
  | cons b blocks ih =>
    have hb := hblocks b (by simp)
    have hrest := fun b' hb' => hblocks b' (List.mem_cons_of_mem b hb')
    rw [List.flatMap_cons, List.foldlM_append, bind_assoc, Loops.bind_eq_ok]
    simp only [foldlM_block hb, consumePeer_eq_ok hst]
    constructor
    · rintro ⟨st', ⟨t, ⟨ps, hps, rfl⟩, ⟨hi, rfl⟩ | ⟨hp, rfl⟩⟩, h⟩
      · exact (reads_cons_interface hi).2 ⟨ps, hps, (ih hrest (fun _ => rfl)).1 h⟩
      · exact (reads_cons_peer hp).2 ⟨ps, hps, (ih hrest (fun h => Bool.noConfusion h)).1 h⟩
    · intro h
      rcases h.1 b List.mem_cons_self with hi | hp
      · obtain ⟨ps, hps, h⟩ := (reads_cons_interface hi).1 h
        exact ⟨_, ⟨_, ⟨ps, hps, rfl⟩, .inl ⟨hi, rfl⟩⟩, (ih hrest (fun _ => rfl)).2 h⟩
      · obtain ⟨ps, hps, h⟩ := (reads_cons_peer hp).1 h
        exact ⟨_, ⟨_, ⟨ps, hps, rfl⟩, .inr ⟨hp, rfl⟩⟩, (ih hrest (fun h => Bool.noConfusion h)).2 h⟩

-- A line that is empty once it is cleaned is skipped.
theorem foldlM_keptLines (lines : List Text) (st : ParseState Addr) :
    lines.foldlM (fun (st : ParseState Addr) line => st.cleanedLine net (clean line)) st =
      (keptLines lines).foldlM (cleanedLine net) st := by
  induction lines generalizing st with
  | nil => rfl
  | cons line lines ih =>
    have hkept : keptLines (line :: lines) =
        if clean line = [] then keptLines lines else clean line :: keptLines lines := by
      unfold keptLines
      rw [List.map_cons, List.filter_cons]
      show (if (!(clean line).isEmpty) = true then clean line :: _ else _) = _
      cases hline : clean line with
      | nil => rfl
      | cons c cs => rfl
    rw [List.foldlM_cons, hkept]
    split
    · next hnil =>
      rw [hnil, show st.cleanedLine net [] = .ok st from rfl]
      exact ih st
    · rw [List.foldlM_cons]
      apply bind_congr
      exact ih

end ParseState

variable {lines : List Text}

theorem mem_keptLines {line : Text} (h : line ∈ keptLines lines) : line ≠ [] := by
  rintro rfl
  exact absurd (List.mem_filter.1 h).2 (by simp)

theorem reads_init : ParseState.Reads net {} blocks c ↔ ofBlocks net blocks = some c := by
  have hseen : (({} : ParseState Addr).seenInterfaceSection = true ∨
      ∃ b ∈ blocks, b.isInterface = true) ↔ ∃ b ∈ blocks, b.isInterface = true :=
    or_iff_right (fun h => Bool.noConfusion h)
  have hpeers : (∃ ps, (({} : ParseState Addr).pending ++
      (blocks.filter Block.isPeer).map Prod.snd).mapM (Peer.parse net) = .ok ps ∧
        c.peers = ({} : ParseState Addr).peers ++ ps) ↔
      (blocks.filter Block.isPeer).mapM (fun b => Peer.parse net b.2) = .ok c.peers := by
    show (∃ ps, ((blocks.filter Block.isPeer).map Prod.snd).mapM (Peer.parse net) = .ok ps ∧
      c.peers = ps) ↔ _
    rw [List.mapM_map]
    constructor
    · rintro ⟨ps, hps, rfl⟩
      exact hps
    · intro h
      exact ⟨_, h, rfl⟩
  unfold ParseState.Reads
  rw [ofBlocks_eq_some, hseen, hpeers]
  rfl

theorem foldlM_kept_iff (hlines : ∀ line ∈ lines, line ≠ []) :
    (lines.foldlM (ParseState.cleanedLine net) {} >>= parseEnd net) = .ok c ↔
      (Fields.cut isHeader lines).1 = [] ∧
        ofBlocks net (Fields.cut isHeader lines).2 = some c := by
  have hjoin := Fields.cut_join isHeader lines
  obtain ⟨hbefore, hheaders⟩ := Fields.cut_headers isHeader lines
  generalize Fields.cut isHeader lines = parts at hjoin hbefore hheaders ⊢
  obtain ⟨before, blocks⟩ := parts
  simp only at hjoin hbefore hheaders ⊢
  subst hjoin
  have hnotHead : ∀ line : Text, isHeader line = false → line.head? ≠ some '[' := by
    intro line hline
    exact ne_of_beq_false hline
  cases before with
  | nil =>
    have hregular : ∀ b ∈ blocks, ParseState.Regular b := by
      intro b hb
      refine ⟨eq_of_beq (hheaders b hb).1, ?_⟩
      intro line hline
      refine ⟨hlines line ?_, hnotHead line ((hheaders b hb).2 line hline)⟩
      exact List.mem_flatMap.2 ⟨b, hb, List.mem_cons_of_mem _ hline⟩
    rw [List.nil_append, ParseState.foldlM_blocks hregular (fun _ => rfl), reads_init]
    exact (and_iff_right rfl).symm
  | cons line before =>
    -- The first line stands in no section.
    have herror : ∃ e, ({} : ParseState Addr).cleanedLine net line = .error e := by
      unfold ParseState.cleanedLine
      rw [if_neg (hlines line (by simp)), if_neg (hnotHead line (hbefore line (by simp)))]
      exact ⟨_, rfl⟩
    obtain ⟨e, he⟩ := herror
    rw [List.cons_append, List.foldlM_cons, he]
    constructor
    · intro h
      cases h
    · rintro ⟨h, -⟩
      cases h

theorem parseLines_eq_ok : parseLines net lines = .ok c ↔ ofLines net lines = some c := by
  unfold parseLines ofLines
  rw [ParseState.foldlM_keptLines, foldlM_kept_iff (fun _ h => mem_keptLines h)]
  generalize Fields.cut isHeader (keptLines lines) = parts
  obtain ⟨before, blocks⟩ := parts
  simp only
  split
  · next hnil => exact and_iff_right hnil
  · next hne => exact ⟨fun h => absurd h.1 hne, nofun⟩

structure FileBlock where
  header : Text
  lines : List Text
  header_isHeader : isHeader (clean header) = true
  lines_isHeader : ∀ line ∈ lines, isHeader (clean line) = false

namespace FileBlock

def kept (b : FileBlock) : Block := (clean b.header, keptLines b.lines)

def document (blocks : List FileBlock) : List Text := blocks.flatMap fun b => b.header :: b.lines

/-- An `[Interface]` block and a `[Peer]` block next to each other change places, or an
`[Interface]` block becomes two. -/
inductive Rearranged : List FileBlock → List FileBlock → Prop
  | move (pre post : List FileBlock) {i p : FileBlock} (hi : i.kept.isInterface = true)
      (hp : p.kept.isPeer = true) : Rearranged (pre ++ i :: p :: post) (pre ++ p :: i :: post)
  | split (pre post : List FileBlock) {b b₁ b₂ : FileBlock} (hb : b.kept.isInterface = true)
      (h₁ : b₁.kept.isInterface = true) (h₂ : b₂.kept.isInterface = true)
      (hlines : b.lines = b₁.lines ++ b₂.lines) :
      Rearranged (pre ++ b :: post) (pre ++ b₁ :: b₂ :: post)

theorem keptLines_append (l₁ l₂ : List Text) :
    keptLines (l₁ ++ l₂) = keptLines l₁ ++ keptLines l₂ := by
  unfold keptLines
  rw [List.map_append, List.filter_append]

theorem keptLines_document (blocks : List FileBlock) :
    keptLines (document blocks) = (blocks.map kept).flatMap fun b => b.1 :: b.2 := by
  induction blocks with
  | nil => rfl
  | cons b blocks ih =>
    have hheader : keptLines [b.header] = [clean b.header] := by
      have hne : (clean b.header).isEmpty = false := by
        cases hclean : clean b.header with
        | nil =>
          have hhead := b.header_isHeader
          rw [hclean] at hhead
          cases hhead
        | cons c cs => rfl
      show [clean b.header].filter (!·.isEmpty) = _
      rw [List.filter_cons_of_pos (by simp [hne])]
      rfl
    show keptLines ([b.header] ++ b.lines ++ document blocks) = _
    rw [keptLines_append, keptLines_append, hheader, ih]
    rfl

theorem ofLines_document (blocks : List FileBlock) :
    ofLines net (document blocks) = ofBlocks net (blocks.map kept) := by
  have hblocks : ∀ b ∈ blocks.map kept,
      isHeader b.1 = true ∧ ∀ line ∈ b.2, isHeader line = false := by
    intro b hb
    obtain ⟨b, -, rfl⟩ := List.mem_map.1 hb
    refine ⟨b.header_isHeader, ?_⟩
    intro line hline
    obtain ⟨raw, hraw, rfl⟩ := List.mem_map.1 (List.mem_filter.1 hline).1
    exact b.lines_isHeader raw hraw
  unfold ofLines
  rw [keptLines_document, Fields.cut_flatMap hblocks]
  rfl

-- Only the lines of the interface and the blocks of the peers count, each in their order.
theorem Rearranged.ofBlocks_eq {bs bs' : List FileBlock} (h : Rearranged bs bs') :
    ofBlocks net (bs.map kept) = ofBlocks net (bs'.map kept) := by
  cases h with
  | move pre post hi hp =>
    simp [ofBlocks, hi, hp, Block.isPeer_of_isInterface hi, Block.isInterface_of_isPeer hp]
  | split pre post hb h₁ h₂ hlines =>
    have hkept := congrArg keptLines hlines
    rw [keptLines_append] at hkept
    have hsnd : ∀ b : FileBlock, b.kept.2 = keptLines b.lines := fun _ => rfl
    simp [ofBlocks, hb, h₁, h₂, Block.isPeer_of_isInterface, hsnd, hkept]

theorem ofBlocks_eq_of_eqvGen {bs bs' : List FileBlock} (h : Relation.EqvGen Rearranged bs bs') :
    ofBlocks net (bs.map kept) = ofBlocks net (bs'.map kept) := by
  induction h with
  | rel bs bs' h => exact h.ofBlocks_eq
  | refl bs => rfl
  | symm bs bs' _ ih => exact ih.symm
  | trans bs bs' bs'' _ _ ih ih' => exact ih.trans ih'

end FileBlock

theorem toOption_parseLines (lines : List Text) :
    (parseLines net lines).toOption = ofLines net lines := by
  cases hparse : parseLines net lines with
  | ok c => exact (parseLines_eq_ok.1 hparse).symm
  | error e =>
    cases hof : ofLines net lines with
    | none => rfl
    | some c =>
      rw [parseLines_eq_ok.2 hof] at hparse
      cases hparse

/-- `Config.parse` reads the blocks of a file, and neither the place of an `[Interface]` block among
the `[Peer]` blocks nor a cut through it makes a difference. -/
theorem parse_ofBlocks :
    (∀ lines, (parseLines net lines).toOption = ofLines net lines) ∧
      (∀ text, parse net text = parseLines net (Java.readLines text)) ∧
      ∀ bs bs', Relation.EqvGen FileBlock.Rearranged bs bs' →
        (parseLines net (FileBlock.document bs)).toOption =
          (parseLines net (FileBlock.document bs')).toOption := by
  refine ⟨toOption_parseLines, fun _ => rfl, ?_⟩
  intro bs bs' h
  rw [toOption_parseLines, toOption_parseLines, FileBlock.ofLines_document,
    FileBlock.ofLines_document]
  exact FileBlock.ofBlocks_eq_of_eqvGen h

def exampleInterface : FileBlock where
  header := "[interface] # home".toList
  lines := ["PrivateKey = AAAAAAAAAAAAAAAAAAAAAAAAAAAAAAAAAAAAAAAAAAA=".toList]
  header_isHeader := by decide
  lines_isHeader := by decide

def examplePeer : FileBlock where
  header := "[Peer]".toList
  lines := [[], "PublicKey = AAAAAAAAAAAAAAAAAAAAAAAAAAAAAAAAAAAAAAAAAAA=".toList]
  header_isHeader := by decide
  lines_isHeader := by decide

theorem parse_ofBlocks_example :
    (parseLines exampleNet (FileBlock.document [examplePeer, exampleInterface])).toOption =
      (parseLines exampleNet (FileBlock.document [exampleInterface, examplePeer])).toOption := by
  apply parse_ofBlocks.2.2
  apply Relation.EqvGen.symm
  apply Relation.EqvGen.rel
  exact FileBlock.Rearranged.move [] [] (by decide) (by decide)

end Amnezia.Config
