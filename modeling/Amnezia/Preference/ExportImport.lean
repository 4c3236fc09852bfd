import Amnezia.Preference.ZipExporter
import Amnezia.Util.TunnelImporter

/-!
# Importing what was exported

The archive that `exportZip` writes, given to `importTunnel`.
-/

namespace Amnezia.Preference

open Config Util.TunnelImporter
open Model (Name isNameInvalid)

section

variable {Addr : Type} [DecidableEq Addr] {net : Net Addr}

def zipEntry (net : Net Addr) (entry : Name × Config Addr) : ZipEntry :=
  ⟨entry.1 ++ ".conf".toList, entry.2.toAwgQuickString net⟩

theorem tunnelName_conf {name : Name} (h : isNameInvalid name = false) :
    tunnelName (name ++ ".conf".toList) = some name := by
  unfold isNameInvalid at h
  simp only [Bool.not_eq_false', Bool.and_eq_true, List.all_eq_true] at h
  have hslash : ∀ c ∈ name ++ ".conf".toList, (c != '/') = true := by
    rw [List.forall_mem_append]
    refine ⟨fun c hc => ?_, List.all_eq_true.1 (by decide)⟩
    have hchar := h.2 c hc
    revert hchar
    contrapose
    simp only [bne_iff_ne, ne_eq, Decidable.not_not]
    rintro rfl
    decide
  have hbase := List.rtakeWhile_eq_self_iff.2 hslash
  have hsuffix : ".conf".toList.isSuffixOf (Java.toLowerCase (name ++ ".conf".toList)) = true := by
    unfold Java.toLowerCase
    rw [List.isSuffixOf_iff_suffix, List.map_append]
    exact List.suffix_append _ _
  have hnot : ¬('/' ∈ name ++ ".conf".toList ∧ name ++ ".conf".toList = []) := by
    intro hboth
    exact absurd (hslash _ hboth.1) (by decide)
  unfold tunnelName
  rw [hbase]
  simp only [hnot, if_false, hsuffix, if_true, List.length_append, Nat.add_sub_cancel,
    List.take_left]

/-- The loop goes on to the end of the text unless it throws. -/
theorem readLoop_rest_of_ok {st st' : ParseState Addr} {lines : List (Java.Text × Java.Text)}
    (h : (readLoop net st lines).1 = .ok st') : (readLoop net st lines).2 = [] := by
  induction lines generalizing st with
  | nil => rfl
  | cons l lines ih =>
    unfold readLoop at h ⊢
    cases hline : st.cleanedLine net (clean l.1) with
    | error e =>
      rw [hline] at h
      cases h
    | ok next =>
      rw [hline] at h
      exact ih h

theorem leavesBlanks_of_ok {entry : ZipEntry} {c : Config Addr}
    (h : parse net entry.text = .ok c) : LeavesBlanks net entry := by
  intro _
  rw [← parseReader_fst] at h
  rw [parseReader_snd]
  unfold parseReader at h
  split at h
  · cases h
  · next st rest hloop =>
    have hnil := readLoop_rest_of_ok (congrArg Prod.fst hloop)
    rw [hnil]
    exact fun c hc => absurd hc List.not_mem_nil

/-- Every tunnel of an exported archive is imported under its name, with the config that its own
file gives: no entry is skipped, fails, or runs into the next one. -/
theorem import_export (hnet : net.Documented) {entries : List ((Name × Config Addr) × Nat)}
    (hnames : ∀ e ∈ entries, isNameInvalid e.1.1 = false)
    (hparsed : ∀ e ∈ entries, ∃ text, parse net text = .ok e.1.2) :
    importEntries net [] (entries.map fun e => (zipEntry net e.1, e.2)) =
      entries.map fun e => some (e.1.1, .ok ⟨e.1.2.interfaze.reprinted, e.1.2.peers⟩) := by
  have hback : ∀ e ∈ entries, parse net (zipEntry net e.1).text =
      .ok ⟨e.1.2.interfaze.reprinted, e.1.2.peers⟩ := by
    intro e he
    obtain ⟨text, htext⟩ := hparsed e he
    have hvalid := valid_of_parse htext
    exact parse_toAwgQuickString hnet hvalid.1 hvalid.2
  have hblanks : ∀ e ∈ entries.map fun e => (zipEntry net e.1, e.2), LeavesBlanks net e.1 := by
    rw [List.forall_mem_map]
    exact fun e he => leavesBlanks_of_ok (hback e he)
  have hnil : ∀ c ∈ ([] : Java.Text), Java.trimmable c = true :=
    fun c hc => absurd hc List.not_mem_nil
  obtain ⟨buffer, -, himport⟩ := importEntries_append hnil hblanks
  have hall := himport []
  rw [List.append_nil] at hall
  rw [hall, importEntries, List.append_nil, List.map_map]
  apply List.map_congr_left
  intro e he
  have hname : tunnelName (zipEntry net e.1).name = some e.1.1 := tunnelName_conf (hnames e he)
  show importAlone net (zipEntry net e.1) = _
  rw [importAlone, hname, Option.map_some, hback e he]

theorem import_export_two : ∃ c, parse exampleNet keyText = .ok c ∧
    importEntries exampleNet [] [(zipEntry exampleNet (['a'], c), 7),
        (zipEntry exampleNet (['b'], c), 0)] =
      [some (['a'], .ok ⟨c.interfaze.reprinted, c.peers⟩),
        some (['b'], .ok ⟨c.interfaze.reprinted, c.peers⟩)] := by
  obtain ⟨c, hc⟩ := Loops.exists_ok_iff.2 (parse_keyText exampleNet)
  let entries : List ((Name × Config Bool) × Nat) := [((['a'], c), 7), ((['b'], c), 0)]
  have hnames : ∀ e ∈ entries, isNameInvalid e.1.1 = false := by
    simp only [entries, List.forall_mem_cons]
    exact ⟨by decide, by decide, by simp⟩
  have hparsed : ∀ e ∈ entries, ∃ text, parse exampleNet text = .ok e.1.2 := by
    simp only [entries, List.forall_mem_cons]
    exact ⟨⟨_, hc⟩, ⟨_, hc⟩, by simp⟩
  exact ⟨c, hc, import_export exampleNet_documented hnames hparsed⟩

end

end Amnezia.Preference
