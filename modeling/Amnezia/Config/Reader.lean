import Amnezia.Config.Config

/-!
# Parsing from a reader

`Config.parse(BufferedReader)` stops at the line it throws at and leaves the rest of the text in
the reader.  Here each line comes with the text that is still unread after it.
-/

namespace Amnezia.Java

def readLinesFrom : Text → List (Text × Text)
  | [] => []
  | '\n' :: cs => ([], cs) :: readLinesFrom cs
  | '\r' :: '\n' :: cs => ([], cs) :: readLinesFrom cs
  | '\r' :: cs => ([], cs) :: readLinesFrom cs
  | c :: cs =>
    match readLinesFrom cs with
    | [] => [([c], [])]
    | (line, rest) :: lines => (c :: line, rest) :: lines

theorem readLinesFrom_fst (s : Text) : (readLinesFrom s).map Prod.fst = readLines s := by
  fun_induction readLinesFrom s with
  | case1 => rfl
  | case2 cs ih => rw [List.map_cons, ih, readLines.eq_2]
  | case3 cs ih => rw [List.map_cons, ih, readLines.eq_3]
  | case4 cs hn ih => rw [List.map_cons, ih, readLines.eq_4 _ hn]
  | case5 c cs hn hrn hr heq ih =>
    rw [heq] at ih
    rw [readLines.eq_5 _ _ hn hrn hr, ← ih]
    rfl
  | case6 c cs hn hrn hr line rest lines heq ih =>
    rw [heq] at ih
    rw [readLines.eq_5 _ _ hn hrn hr, ← ih]
    rfl

theorem length_le_of_mem_readLinesFrom {s line rest : Text} (h : (line, rest) ∈ readLinesFrom s) :
    rest.length ≤ s.length := by
  fun_induction readLinesFrom s generalizing line rest with
  | case1 => simp at h
  | case2 cs ih | case3 cs ih | case4 cs _ ih =>
    rcases List.mem_cons.1 h with heq | h
    · cases heq
      simp only [List.length_cons]
      omega
    · have hle := ih h
      simp only [List.length_cons]
      omega
  | case5 c cs hn hrn hr heq ih =>
    cases List.mem_singleton.1 h
    simp
  | case6 c cs hn hrn hr line' rest' lines heq ih =>
    have hlist : ∃ line, (line, rest) ∈ (line', rest') :: lines := by
      rcases List.mem_cons.1 h with heq | h
      · cases heq
        exact ⟨line', List.mem_cons_self⟩
      · exact ⟨line, List.mem_cons_of_mem _ h⟩
    obtain ⟨line, hin⟩ := hlist
    have hle := ih (heq ▸ hin)
    simp only [List.length_cons]
    omega

end Amnezia.Java

namespace Amnezia.Config

open Java (Text)

variable {Addr : Type} [DecidableEq Addr] (net : Net Addr)

def readLoop (st : ParseState Addr) :
    List (Text × Text) → Except BadConfigException (ParseState Addr) × Text
  | [] => (.ok st, [])
  | (line, rest) :: lines =>
    match st.cleanedLine net (clean line) with
    | .error e => (.error e, rest)
    | .ok st => readLoop st lines

def parseEnd (st : ParseState Addr) : Except BadConfigException (Config Addr) := do
  let st ← st.consumePeer net
  if st.seenInterfaceSection = false then
    throw ⟨.config, .topLevel, .missingSection, none⟩
  let i ← Interface.parse net st.interfaceLines
  return ⟨i, st.peers⟩

def parseReader (text : Text) : Except BadConfigException (Config Addr) × Text :=
  match readLoop net {} (Java.readLinesFrom text) with
  | (.error e, rest) => (.error e, rest)
  | (.ok st, rest) => (parseEnd net st, rest)

theorem readLoop_fst (st : ParseState Addr) (lines : List (Text × Text)) :
    (readLoop net st lines).1 =
      (lines.map Prod.fst).foldlM (fun st line => st.cleanedLine net (clean line)) st := by
  induction lines generalizing st with
  | nil => rfl
  | cons l lines ih =>
    rw [List.map_cons, List.foldlM_cons, readLoop]
    cases st.cleanedLine net (clean l.1) with
    | error e => rfl
    | ok st' => exact ih st'

theorem parseReader_fst (text : Text) : (parseReader net text).1 = parse net text := by
  have hloop := readLoop_fst net {} (Java.readLinesFrom text)
  rw [Java.readLinesFrom_fst] at hloop
  unfold parseReader parse
  rw [← hloop]
  rcases readLoop net {} (Java.readLinesFrom text) with ⟨_ | st, rest⟩ <;> rfl

theorem readLoop_rest (st : ParseState Addr) (lines : List (Text × Text)) :
    (readLoop net st lines).2 = [] ∨ ∃ line, (line, (readLoop net st lines).2) ∈ lines := by
  induction lines generalizing st with
  | nil => exact .inl rfl
  | cons l lines ih =>
    unfold readLoop
    cases st.cleanedLine net (clean l.1) with
    | error e => exact .inr ⟨l.1, List.mem_cons_self⟩
    | ok st' =>
      refine (ih st').imp_right ?_
      intro ⟨line, hin⟩
      exact ⟨line, List.mem_cons_of_mem _ hin⟩

theorem parseReader_snd (text : Text) :
    (parseReader net text).2 = (readLoop net {} (Java.readLinesFrom text)).2 := by
  unfold parseReader
  rcases readLoop net {} (Java.readLinesFrom text) with ⟨_ | st, rest⟩ <;> rfl

theorem length_parseReader_le (text : Text) :
    (parseReader net text).2.length ≤ text.length := by
  rw [parseReader_snd]
  rcases readLoop_rest net {} (Java.readLinesFrom text) with hnil | ⟨line, hin⟩
  · rw [hnil]
    exact Nat.zero_le _
  · exact Java.length_le_of_mem_readLinesFrom hin

theorem clean_cons_of_trimmable {c : Char} (h : Java.trimmable c = true) (line : Text) :
    clean (c :: line) = clean line := by
  have hc : c ≠ '#' := by
    rintro rfl
    exact absurd h (by decide)
  have hbefore : Java.before '#' (c :: line) = c :: Java.before '#' line :=
    List.takeWhile_cons_of_pos (bne_iff_ne.2 hc)
  unfold clean Java.trim Fields.strip
  rw [hbefore, List.dropWhile_cons_of_pos h]

/-- A blank before the text changes nothing: it makes a blank line, or is trimmed off the first. -/
theorem readLoop_cons_of_trimmable {c : Char} (h : Java.trimmable c = true)
    (st : ParseState Addr) (text : Text) :
    readLoop net st (Java.readLinesFrom (c :: text)) =
      readLoop net st (Java.readLinesFrom text) := by
  have hblank : ∀ rest lines, readLoop net st (([], rest) :: lines) = readLoop net st lines :=
    fun _ _ => rfl
  by_cases hn : c = '\n'
  · subst hn
    rw [Java.readLinesFrom.eq_2, hblank]
  by_cases hr : c = '\r'
  · subst hr
    by_cases hrn : ∃ cs, text = '\n' :: cs
    · obtain ⟨cs, rfl⟩ := hrn
      rw [Java.readLinesFrom.eq_3, Java.readLinesFrom.eq_2, hblank]
    · rw [Java.readLinesFrom.eq_4 _ (fun cs heq => hrn ⟨cs, heq⟩), hblank]
  · have hcons : ∀ line rest lines, readLoop net st ((c :: line, rest) :: lines) =
        readLoop net st ((line, rest) :: lines) := by
      intro line rest lines
      simp only [readLoop, clean_cons_of_trimmable h]
    rw [Java.readLinesFrom.eq_5 _ _ hn (fun _ heq _ => hr heq) hr]
    cases Java.readLinesFrom text with
    | nil => exact (hcons [] [] []).trans (hblank [] [])
    | cons l lines => exact hcons l.1 l.2 lines

theorem parseReader_append_of_trimmable {blanks : Text}
    (h : ∀ c ∈ blanks, Java.trimmable c = true) (text : Text) :
    parseReader net (blanks ++ text) = parseReader net text := by
  induction blanks with
  | nil => rfl
  | cons c blanks ih =>
    have hcs : ∀ d ∈ blanks, Java.trimmable d = true := fun d hd => h d (List.mem_cons_of_mem _ hd)
    rw [← ih hcs, List.cons_append]
    unfold parseReader
    rw [readLoop_cons_of_trimmable net (h c List.mem_cons_self)]

def keyText : Text :=
  "[Interface]\nPrivateKey = AAAAAAAAAAAAAAAAAAAAAAAAAAAAAAAAAAAAAAAAAAA=\n".toList

theorem parse_keyText : (parse net keyText).isOk = true := rfl

theorem clean_cons_header {c : Char} (h : Java.trimmable c = false) (hc : c ≠ '#') :
    clean (c :: "[Interface]".toList) = c :: "[Interface]".toList := by
  have hmem : '#' ∉ c :: "[Interface]".toList := by
    rw [List.mem_cons, not_or]
    exact ⟨hc.symm, by decide⟩
  unfold clean Java.trim Fields.strip
  rw [before_of_notMem hmem, List.dropWhile_cons_of_neg (by simp [h])]
  exact List.rdropWhile_concat_neg _ (c :: "[Interface".toList) ']' (by decide)

theorem cleanedLine_cons_header {c : Char} (h : Java.trimmable c = false) (hc : c ≠ '#') :
    ∃ e, ({} : ParseState Addr).cleanedLine net (clean (c :: "[Interface]".toList)) = .error e := by
  rw [clean_cons_header h hc]
  by_cases hopen : c = '['
  · subst hopen
    exact ⟨_, rfl⟩
  · have hhead : (c :: "[Interface]".toList).head? ≠ some '[' := by simpa using hopen
    unfold ParseState.cleanedLine
    rw [if_neg (List.cons_ne_nil _ _), if_neg hhead]
    exact ⟨_, rfl⟩

theorem parse_cons_keyText {c : Char} (h : Java.trimmable c = false) :
    (parse net (c :: keyText)).isOk = false := by
  by_cases hc : c = '#'
  · -- the header is a comment, and the key stands in no section
    subst hc
    rfl
  · have hn : c ≠ '\n' := by
      rintro rfl
      exact absurd h (by decide)
    have hr : c ≠ '\r' := by
      rintro rfl
      exact absurd h (by decide)
    have hlines : ∃ rest lines, Java.readLinesFrom (c :: keyText) =
        (c :: "[Interface]".toList, rest) :: lines := by
      rw [Java.readLinesFrom.eq_5 _ _ hn (fun _ heq _ => hr heq) hr]
      exact ⟨_, _, rfl⟩
    obtain ⟨rest, lines, hlines⟩ := hlines
    obtain ⟨e, he⟩ := cleanedLine_cons_header net h hc
    rw [← parseReader_fst, parseReader, hlines, readLoop, he]
    rfl

end Amnezia.Config
