import Amnezia.Config.Reader
import Amnezia.Config.Stored

/-!
# Importing an archive

The loop of `TunnelImporter.importTunnel` over the entries of a zip file.  All entries are read
through one `BufferedReader`: `nextEntry` skips what was not read of an entry, but not what the
reader already holds of it.
-/

namespace Amnezia.Util.TunnelImporter

open Config
open Java (Text)

structure ZipEntry where
  name : Text
  text : Text
  deriving DecidableEq, Repr

/-- The name of the tunnel, for an entry that is not skipped: the part after the last slash, which
must not be empty, without its extension `.conf`. -/
def tunnelName (name : Text) : Option Text :=
  let base := name.rtakeWhile (· != '/')
  if '/' ∈ name ∧ base = [] then none
  else if ".conf".toList.isSuffixOf (Java.toLowerCase base) then
    some (base.take (base.length - ".conf".toList.length))
  else none

variable {Addr : Type} [DecidableEq Addr] (net : Net Addr)

/-- What becomes of an entry: nothing, or the config to create under a name, or the exception. -/
abbrev Imported (Addr : Type) := Option (Text × Except BadConfigException (Config Addr))

/-- What the reader holds after an entry: all of `buffer` that is not read, and `held` more
characters of the entry's text. -/
def leftover (text rest : Text) (held : Nat) : Text := rest.take (rest.length - text.length + held)

/-- The loop of `importTunnel`, with what the reader holds.  Each entry comes with the number of
characters of its text the reader has taken in but not given out. -/
def importEntries (buffer : Text) : List (ZipEntry × Nat) → List (Imported Addr)
  | [] => []
  | (entry, held) :: entries =>
    match tunnelName entry.name with
    | none => none :: importEntries buffer entries
    | some name =>
      let parsed := parseReader net (buffer ++ entry.text)
      some (name, parsed.1) :: importEntries (leftover entry.text parsed.2 held) entries

def importAlone (entry : ZipEntry) : Imported Addr :=
  (tunnelName entry.name).map fun name => (name, parse net entry.text)

/-- The entry is skipped, or nothing but blanks follow where the parser stops in its text. -/
def LeavesBlanks (entry : ZipEntry) : Prop :=
  (tunnelName entry.name).isSome = true →
    ∀ c ∈ (parseReader net entry.text).2, Java.trimmable c = true

variable {net}

theorem leftover_eq_take {text : Text} (held : Nat) :
    leftover text (parseReader net text).2 held =
      (parseReader net text).2.take held := by
  have hle := length_parseReader_le net text
  unfold leftover
  rw [Nat.sub_eq_zero_of_le hle, Nat.zero_add]

theorem importEntries_cons {buffer : Text} (hbuffer : ∀ c ∈ buffer, Java.trimmable c = true)
    (entry : ZipEntry) (held : Nat) (entries : List (ZipEntry × Nat)) :
    importEntries net buffer ((entry, held) :: entries) =
      importAlone net entry :: importEntries net
        (if (tunnelName entry.name).isSome then (parseReader net entry.text).2.take held
          else buffer) entries := by
  rw [importEntries, importAlone]
  cases tunnelName entry.name with
  | none => rfl
  | some name =>
    simp only [parseReader_append_of_trimmable net hbuffer, leftover_eq_take,
      parseReader_fst]
    rfl

theorem trimmable_next {buffer : Text} (hbuffer : ∀ c ∈ buffer, Java.trimmable c = true)
    {entry : ZipEntry} (h : LeavesBlanks net entry) (held : Nat) :
    ∀ c ∈ (if (tunnelName entry.name).isSome then (parseReader net entry.text).2.take held
      else buffer), Java.trimmable c = true := by
  intro c hc
  split at hc
  · rename_i hconf
    exact h hconf c (List.mem_of_mem_take hc)
  · exact hbuffer c hc

/-- Entries that leave blanks come to what they come to alone, and the reader to blanks. -/
theorem importEntries_append {buffer : Text} (hbuffer : ∀ c ∈ buffer, Java.trimmable c = true)
    {before : List (ZipEntry × Nat)} (hbefore : ∀ e ∈ before, LeavesBlanks net e.1) :
    ∃ buffer', (∀ c ∈ buffer', Java.trimmable c = true) ∧
      ∀ entries, importEntries net buffer (before ++ entries) =
        before.map (fun e => importAlone net e.1) ++ importEntries net buffer' entries := by
  induction before generalizing buffer with
  | nil => exact ⟨buffer, hbuffer, fun _ => rfl⟩
  | cons e before ih =>
    have hnext := trimmable_next hbuffer (hbefore e List.mem_cons_self) e.2
    obtain ⟨buffer', hbuffer', heq⟩ := ih hnext fun e he => hbefore e (List.mem_cons_of_mem _ he)
    refine ⟨buffer', hbuffer', fun entries => ?_⟩
    rw [List.cons_append, importEntries_cons hbuffer, heq, List.map_cons, List.cons_append]

def keyEntry : ZipEntry := ⟨"a.conf".toList, keyText⟩

/-- A reader that has just taken in the first character that is not a blank makes the next entry
fail. -/
theorem import_keyEntry_ne {blanks : Text} (hblanks : ∀ c ∈ blanks, Java.trimmable c = true)
    {c : Char} (hc : Java.trimmable c = false) :
    importEntries net (blanks ++ [c]) [(keyEntry, 0)] ≠ [importAlone net keyEntry] := by
  intro heq
  have hparse : parse net (c :: keyText) = parse net keyText := by
    rw [← parseReader_fst, ← parseReader_append_of_trimmable net hblanks]
    have hsome := (List.cons.inj heq).1
    rw [List.append_assoc, List.singleton_append] at hsome
    exact congrArg Prod.snd (Option.some.inj hsome)
  have hok := parse_cons_keyText net hc
  rw [hparse, parse_keyText] at hok
  cases hok

theorem exists_import_ne {buffer : Text} (hbuffer : ∀ c ∈ buffer, Java.trimmable c = true)
    {entry : ZipEntry} (h : ¬LeavesBlanks net entry) :
    ∃ held, importEntries net buffer [(entry, held), (keyEntry, 0)] ≠
      [importAlone net entry, importAlone net keyEntry] := by
  have hconf : (tunnelName entry.name).isSome = true := by
    by_contra hskip
    exact h fun hconf => absurd hconf hskip
  have hrest : ¬∀ c ∈ (parseReader net entry.text).2, Java.trimmable c = true :=
    fun hall => h fun _ => hall
  obtain ⟨blanks, c, post, hsplit, hblanks, hc⟩ := Loops.exists_first hrest
  refine ⟨blanks.length + 1, ?_⟩
  have htake : (parseReader net entry.text).2.take (blanks.length + 1) = blanks ++ [c] := by
    rw [hsplit, List.take_length_add_append]
    rfl
  rw [importEntries_cons hbuffer, if_pos hconf, htake]
  intro heq
  exact import_keyEntry_ne hblanks (Bool.eq_false_iff.2 hc) (List.cons.inj heq).2

/-- After entries that leave only blanks, the next entry comes to what it comes to alone, whatever
the reader holds; and an entry leaves every following one so exactly when it leaves only blanks. -/
theorem import_eq_alone {before : List (ZipEntry × Nat)}
    (hbefore : ∀ e ∈ before, LeavesBlanks net e.1) :
    (∀ last, importEntries net [] (before ++ [last]) =
        (before ++ [last]).map fun e => importAlone net e.1) ∧
      ∀ entry, (∀ held last, importEntries net [] (before ++ [(entry, held), last]) =
        (before ++ [(entry, held), last]).map fun e => importAlone net e.1) ↔
          LeavesBlanks net entry := by
  have hnil : ∀ c ∈ ([] : Text), Java.trimmable c = true := fun c hc => absurd hc List.not_mem_nil
  obtain ⟨buffer, hbuffer, heq⟩ := importEntries_append hnil hbefore
  refine ⟨fun last => ?_, fun entry => ⟨fun hall => ?_, fun h held last => ?_⟩⟩
  · rw [heq, List.map_append, importEntries_cons hbuffer]
    rfl
  · by_contra hleaves
    obtain ⟨held, hne⟩ := exists_import_ne hbuffer hleaves
    have hown := hall held (keyEntry, 0)
    rw [heq, List.map_append] at hown
    exact hne (List.append_cancel_left hown)
  · rw [heq, List.map_append, importEntries_cons hbuffer,
      importEntries_cons (trimmable_next hbuffer h held)]
    rfl

/-- A line that is not in any section, and a blank line after it. -/
theorem import_eq_alone_example :
    let entries : List (ZipEntry × Nat) :=
      [(⟨"x.conf".toList, "oops\n \n".toList⟩, 2), (keyEntry, 0)]
    importEntries exampleNet [] entries =
      entries.map fun e => importAlone exampleNet e.1 := by
  have hblanks : ∀ e ∈ [((⟨"x.conf".toList, "oops\n \n".toList⟩, 2) : ZipEntry × Nat)],
      LeavesBlanks exampleNet e.1 := by
    intro e he _
    rw [List.mem_singleton.1 he]
    exact List.all_eq_true.1 (by decide +kernel)
  exact (import_eq_alone hblanks).1 (keyEntry, 0)

def importedJunk (imported : Imported Bool) : Option (Option Int) :=
  (imported.bind fun i => i.2.toOption).map fun c => c.interfaze.number .junkPacketCount

/-- The parser stops at the first line of the first entry, and the rest of it becomes part of the
second one's configuration. -/
theorem import_mixes_entries :
    let entries : List (ZipEntry × Nat) :=
      [(⟨"x.conf".toList, "oops\n[Interface]\nJc = 7\n".toList⟩, 19), (keyEntry, 0)]
    (importEntries exampleNet [] entries).map importedJunk = [none, some (some 7)] ∧
      entries.map (fun e => importedJunk (importAlone exampleNet e.1)) =
        [none, some none] := by
  decide +kernel

end Amnezia.Util.TunnelImporter
