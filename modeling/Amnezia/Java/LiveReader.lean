import Amnezia.Java.Text

/-!
# Reading lines while they are written

A `BufferedReader` on a stream whose writer lives on.  `readLine` gives a line once its end has been
written and waits before that; a line feed right after a carriage return belongs to it.
-/

namespace Amnezia.Java

/-- What has been written and not been read. -/
structure LiveReader where
  /-- The lines that have ended. -/
  lines : List Text := []
  /-- What is there of the next one. -/
  unended : Text := []
  skipLF : Bool := false

namespace LiveReader

def feed (r : LiveReader) (c : Char) : LiveReader :=
  if c = '\n' then
    if r.skipLF then { r with skipLF := false } else ⟨r.lines ++ [r.unended], [], false⟩
  else if c = '\r' then ⟨r.lines ++ [r.unended], [], true⟩
  else ⟨r.lines, r.unended ++ [c], false⟩

def write (r : LiveReader) (text : Text) : LiveReader := text.foldl feed r

theorem write_append (r : LiveReader) (s t : Text) : r.write (s ++ t) = (r.write s).write t :=
  List.foldl_append

theorem write_cons (r : LiveReader) (c : Char) (s : Text) :
    r.write (c :: s) = (r.feed c).write s := rfl

def ends (c : Char) : Bool := c == '\n' || c == '\r'

theorem feed_of_not_ends {c : Char} (h : ends c = false) (r : LiveReader) :
    r.feed c = ⟨r.lines, r.unended ++ [c], false⟩ := by
  simp only [ends, Bool.or_eq_false_iff, beq_eq_false_iff_ne] at h
  unfold feed
  rw [if_neg h.1, if_neg h.2]

theorem write_of_not_ends {s : Text} (h : ∀ c ∈ s, ends c = false) (hne : s ≠ [])
    (r : LiveReader) : r.write s = ⟨r.lines, r.unended ++ s, false⟩ := by
  induction s generalizing r with
  | nil => exact absurd rfl hne
  | cons c s ih =>
    rw [write_cons, feed_of_not_ends (h c List.mem_cons_self)]
    cases s with
    | nil => rfl
    | cons d s =>
      rw [ih (fun e he => h e (List.mem_cons_of_mem _ he)) (List.cons_ne_nil d s)]
      simp

theorem write_line {s : Text} (h : ∀ c ∈ s, ends c = false) (hne : s ≠ []) (r : LiveReader) :
    r.write (s ++ ['\n']) = ⟨r.lines ++ [r.unended ++ s], [], false⟩ := by
  rw [write_append, write_of_not_ends h hne]
  rfl

theorem write_lines (ls : List Text) (r : LiveReader) (s : Text) :
    write { r with lines := ls ++ r.lines } s =
      { r.write s with lines := ls ++ (r.write s).lines } := by
  induction s generalizing r with
  | nil => rfl
  | cons c s ih =>
    have hfeed : feed { r with lines := ls ++ r.lines } c =
        { r.feed c with lines := ls ++ (r.feed c).lines } := by
      unfold feed
      split
      · split
        · rfl
        · simp
      · split
        · simp
        · rfl
    rw [write_cons, write_cons, hfeed, ih]

theorem infix_of_mem_write {r : LiveReader} (hr : r.skipLF = true → r.unended = []) {s l : Text}
    (hl : l ∈ (r.write s).lines) : l ∈ r.lines ∨ l <:+: r.unended ++ s := by
  induction s generalizing r with
  | nil => exact .inl hl
  | cons c s ih =>
    rw [write_cons] at hl
    have htail : s <:+: r.unended ++ c :: s :=
      ((List.suffix_cons c s).trans (List.suffix_append _ _)).isInfix
    have hended : (l ∈ r.lines ++ [r.unended] ∨ l <:+: [] ++ s) →
        l ∈ r.lines ∨ l <:+: r.unended ++ c :: s := by
      rintro (hl | hl)
      · rcases List.mem_append.1 hl with hl | hl
        · exact .inl hl
        · rw [List.mem_singleton.1 hl]
          exact .inr (List.prefix_append _ _).isInfix
      · exact .inr (hl.trans htail)
    by_cases hLF : c = '\n'
    · cases hskip : r.skipLF with
      | true =>
        have hfeed : r.feed c = { r with skipLF := false } := by
          unfold feed
          rw [if_pos hLF, if_pos hskip]
        rw [hfeed] at hl
        rcases ih (r := { r with skipLF := false }) (fun h => nomatch h) hl with hl | hl
        · exact .inl hl
        · refine .inr (hl.trans ?_)
          rw [hr hskip] at htail ⊢
          exact htail
      | false =>
        have hfeed : r.feed c = ⟨r.lines ++ [r.unended], [], false⟩ := by
          unfold feed
          rw [if_pos hLF, hskip]
          rfl
        rw [hfeed] at hl
        exact hended (ih (fun _ => rfl) hl)
    · by_cases hCR : c = '\r'
      · have hfeed : r.feed c = ⟨r.lines ++ [r.unended], [], true⟩ := by
          unfold feed
          rw [if_neg hLF, if_pos hCR]
        rw [hfeed] at hl
        exact hended (ih (fun _ => rfl) hl)
      · have hfeed : r.feed c = ⟨r.lines, r.unended ++ [c], false⟩ := by
          unfold feed
          rw [if_neg hLF, if_neg hCR]
        rw [hfeed] at hl
        rcases ih (r := ⟨r.lines, r.unended ++ [c], false⟩) (fun h => nomatch h) hl with hl | hl
        · exact .inl hl
        · rw [List.append_assoc] at hl
          exact .inr hl

def Ended (s : Text) : Prop := s.getLast?.all ends = true

instance (s : Text) : Decidable (Ended s) :=
  inferInstanceAs (Decidable (s.getLast?.all ends = true))

theorem skipLF_feed (r : LiveReader) (c : Char)
    (h : (r.feed c).skipLF = true) : (r.feed c).unended = [] := by
  revert h
  unfold feed
  split
  · split
    · exact fun h => nomatch h
    · exact fun h => nomatch h
  · split
    · exact fun _ => rfl
    · exact fun h => nomatch h

theorem skipLF_write {r : LiveReader} (hr : r.skipLF = true → r.unended = []) (s : Text)
    (h : (r.write s).skipLF = true) : (r.write s).unended = [] := by
  induction s generalizing r with
  | nil => exact hr h
  | cons c s ih => exact ih (skipLF_feed r c) h

theorem unended_feed_eq_nil_iff {r : LiveReader} (hr : r.skipLF = true → r.unended = [])
    (c : Char) : (r.feed c).unended = [] ↔ ends c = true := by
  cases hends : ends c with
  | false => simp [feed_of_not_ends hends]
  | true =>
    simp only [ends, Bool.or_eq_true, beq_iff_eq] at hends
    refine iff_of_true ?_ rfl
    unfold feed
    rcases hends with rfl | rfl
    · cases hskip : r.skipLF with
      | true => exact hr hskip
      | false => rfl
    · rfl

theorem unended_write_eq_nil_iff (s : Text) : (write {} s).unended = [] ↔ Ended s := by
  rcases List.eq_nil_or_concat s with rfl | ⟨s, c, rfl⟩
  · exact iff_of_true rfl rfl
  · have hr : (write {} s).skipLF = true → (write {} s).unended = [] :=
      skipLF_write (r := {}) (fun _ => rfl) s
    rw [List.concat_eq_append, write_append]
    show ((write {} s).feed c).unended = [] ↔ _
    rw [unended_feed_eq_nil_iff hr, Ended, List.getLast?_concat]
    rfl

def drain (r : LiveReader) : List Text :=
  r.lines ++ if r.unended = [] then [] else [r.unended]

def continued (unended : Text) : List Text → List Text
  | [] => if unended = [] then [] else [unended]
  | line :: lines => (unended ++ line) :: lines

-- A carriage return leaves a flag behind, which the next character takes away.
theorem write_skipLF {s : Text} (h : s.head? ≠ some '\n') (ls : List Text) :
    (write ⟨ls, [], true⟩ s).drain = (write ⟨ls, [], false⟩ s).drain := by
  cases s with
  | nil => rfl
  | cons c s =>
    have hfeed : feed ⟨ls, [], true⟩ c = feed ⟨ls, [], false⟩ c := by
      have hc : c ≠ '\n' := fun heq => h (by rw [heq]; rfl)
      unfold feed
      rw [if_neg hc, if_neg hc]
    rw [write_cons, write_cons, hfeed]

theorem continued_nil (ls : List Text) : continued [] ls = ls := by
  cases ls <;> rfl

-- A line that ends joins the lines, and the rest is read from the start of a line.
theorem append_continued (ls : List Text) (unended : Text) (rest : List Text) :
    (ls ++ [unended]) ++ continued [] rest = ls ++ continued unended ([] :: rest) := by
  rw [continued_nil, List.append_assoc, continued, List.append_nil]
  rfl

theorem drain_write_from (s : Text) (ls : List Text) (unended : Text) :
    (write ⟨ls, unended, false⟩ s).drain = ls ++ continued unended (readLines s) := by
  fun_induction readLines s generalizing ls unended with
  | case1 => rfl
  | case2 cs ih =>
    show (write ⟨ls ++ [unended], [], false⟩ cs).drain = _
    rw [ih, append_continued]
  | case3 cs ih =>
    show (write ⟨ls ++ [unended], [], false⟩ cs).drain = _
    rw [ih, append_continued]
  | case4 cs hcs ih =>
    have hhead : cs.head? ≠ some '\n' := by
      intro h
      obtain ⟨tail, rfl⟩ := List.head?_eq_some_iff.1 h
      exact hcs tail rfl
    show (write ⟨ls ++ [unended], [], true⟩ cs).drain = _
    rw [write_skipLF hhead, ih, append_continued]
  | case5 c cs hn _ hr heq ih | case6 c cs hn _ hr line lines heq ih =>
    have hends : ends c = false := by
      simp only [ends, Bool.or_eq_false_iff, beq_eq_false_iff_ne]
      exact ⟨hn, hr⟩
    rw [write_cons, feed_of_not_ends hends, ih, heq]
    simp [continued]

theorem drain_write (s : Text) : (write {} s).drain = readLines s := by
  rw [drain_write_from, continued_nil, List.nil_append]

end LiveReader

end Amnezia.Java
