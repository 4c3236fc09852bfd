import Amnezia.Java.Text

/-!
# Attributes

The `Key = Value` lines of a configuration file (`Attribute.java`), and what `Config.parse` does to
a line before it looks at it.
-/

namespace Amnezia.Config

open Java (Text)

structure Attribute where
  key : Text
  value : Text
  deriving DecidableEq, Repr

namespace Attribute

/-- `Attribute.parse`: the whole line matches `(\w+)\s*=\s*(.*?)\s*$`. -/
def parse (line : Text) : Option Attribute :=
  let key := line.takeWhile Java.word
  match (line.dropWhile Java.word).dropWhile Java.space with
  | '=' :: rest =>
    let value := Fields.strip Java.space rest
    if key ≠ [] ∧ value.all Java.dot then some ⟨key, value⟩ else none
  | _ => none

/-- `Attribute.split`, by `\s*,\s*`; the empty strings at the end are not part of the result, unless
there was nothing to split. -/
def split (value : Text) : List Text :=
  if ',' ∈ value then (Fields.split ',' Java.space value).rdropWhile List.isEmpty else [value]

def join (values : List Text) : Text := [',', ' '].intercalate values

def line (key value : Text) : Text := key ++ ' ' :: '=' :: ' ' :: value

end Attribute

def clean (line : Text) : Text := Java.trim (Java.before '#' line)

theorem notMem_before (c : Char) (line : Text) : c ∉ Java.before c line := by
  intro h
  have hc := List.mem_takeWhile_imp h
  simp at hc

variable {c : Char}

theorem before_of_notMem {line : Text} (h : c ∉ line) : Java.before c line = line := by
  unfold Java.before
  rw [List.takeWhile_eq_self_iff]
  intro d hd
  rw [bne_iff_ne]
  rintro rfl
  exact h hd

theorem mem_clean {line : Text} (h : c ∈ clean line) : c ∈ line ∧ c ≠ '#' := by
  have hbefore := Fields.mem_of_mem_strip h
  refine ⟨(List.takeWhile_prefix _).mem hbefore, ?_⟩
  rintro rfl
  exact notMem_before '#' line hbefore

namespace Attribute

/-- What a value can be made of. -/
def valueChar (c : Char) : Bool := Java.dot c && c != '#'

theorem trimmable_of_word (h : Java.word c = true) : Java.trimmable c = false := by
  apply eq_false_of_ne_true
  rw [Java.trimmable_iff]
  unfold Java.word at h
  rw [Bool.or_eq_true, Java.isAlphanum_iff, beq_iff_eq] at h
  rcases h with h | rfl
  · omega
  · decide

variable {v : Text}

theorem strip_space_trimmed (hhead : ∀ c ∈ v.head?, Java.space c = false) :
    Fields.strip Java.space ((' ' :: v).rdropWhile Java.trimmable) =
      v.rdropWhile Java.trimmable := by
  have hlast : ∀ c ∈ (v.rdropWhile Java.trimmable).getLast?, Java.space c = false := by
    intro c hc
    apply eq_false_of_ne_true
    intro hs
    have ht := Java.trimmable_of_space hs
    rw [Fields.last_rdropWhile _ _ c hc] at ht
    exact absurd ht (by decide)
  have hhead' := Fields.prefix_head (List.rdropWhile_prefix Java.trimmable v) hhead
  have hbare : Fields.strip Java.space (v.rdropWhile Java.trimmable) = v.rdropWhile Java.trimmable :=
    Fields.Bare.strip ⟨hhead', hlast⟩
  have happ := Fields.rdropWhile_append Java.trimmable [' '] v
  rw [List.singleton_append] at happ
  rw [happ]
  split
  · next hempty =>
    rw [List.isEmpty_iff] at hempty
    rw [hempty]
    rfl
  · show Fields.strip Java.space (v.rdropWhile Java.trimmable) = _
    exact hbare

variable {key : Text}

theorem notMem_line (hword : ∀ c ∈ key, Java.word c = true) (hv : ∀ c ∈ v, valueChar c = true) :
    '#' ∉ line key v := by
  intro h
  unfold line at h
  rcases List.mem_append.1 h with h | h
  · exact absurd (hword _ h) (by decide)
  · simp only [List.mem_cons] at h
    rcases h with h | h | h | h
    · exact absurd h (by decide)
    · exact absurd h (by decide)
    · exact absurd h (by decide)
    · exact absurd (hv _ h) (by decide)

/-- What `Config.parse` keeps of a printed line: only the end of the value can be lost. -/
theorem clean_line (hkey : key ≠ []) (hword : ∀ c ∈ key, Java.word c = true)
    (hv : ∀ c ∈ v, valueChar c = true) :
    clean (line key v) = key ++ ' ' :: '=' :: (' ' :: v).rdropWhile Java.trimmable := by
  unfold clean Java.trim Fields.strip
  rw [before_of_notMem (notMem_line hword hv), Fields.dropWhile_of_head]
  · have hassoc : line key v = (key ++ [' ']) ++ '=' :: ' ' :: v := by simp [line]
    rw [hassoc, Fields.rdropWhile_append_cons (by decide)]
    simp
  · -- the key is not empty and starts with a word character
    obtain ⟨k, ks, rfl⟩ := List.exists_cons_of_ne_nil hkey
    intro c hc
    have hck : c = k := by simpa [line] using hc.symm
    rw [hck]
    exact trimmable_of_word (hword k (by simp))

theorem parse_clean_line (hkey : key ≠ []) (hword : ∀ c ∈ key, Java.word c = true)
    (hv : ∀ c ∈ v, valueChar c = true) (hhead : ∀ c ∈ v.head?, Java.space c = false) :
    parse (clean (line key v)) = some ⟨key, v.rdropWhile Java.trimmable⟩ := by
  have htake : (key ++ ' ' :: '=' :: (' ' :: v).rdropWhile Java.trimmable).takeWhile Java.word
      = key := by
    rw [List.takeWhile_append_of_pos hword]
    show key ++ [] = key
    rw [List.append_nil]
  have hdrop : (key ++ ' ' :: '=' :: (' ' :: v).rdropWhile Java.trimmable).dropWhile Java.word
      = ' ' :: '=' :: (' ' :: v).rdropWhile Java.trimmable := by
    rw [List.dropWhile_append_of_pos hword]
    rfl
  have hall : (v.rdropWhile Java.trimmable).all Java.dot = true := by
    rw [List.all_eq_true]
    intro c hc
    have hvc := hv c ((List.rdropWhile_prefix _ v).mem hc)
    unfold valueChar at hvc
    rw [Bool.and_eq_true] at hvc
    exact hvc.1
  unfold parse
  rw [clean_line hkey hword hv, htake, hdrop]
  show (if key ≠ [] ∧ (Fields.strip Java.space ((' ' :: v).rdropWhile Java.trimmable)).all Java.dot
    then some (Attribute.mk key (Fields.strip Java.space ((' ' :: v).rdropWhile Java.trimmable)))
    else none) = _
  rw [strip_space_trimmed hhead, if_pos ⟨hkey, hall⟩]

theorem mem_of_mem_value {text : Text} {a : Attribute} (h : parse text = some a) (hc : c ∈ a.value) :
    c ∈ text := by
  unfold parse at h
  split at h
  · next rest hrest =>
    simp only at h
    split at h
    · cases h
      have hc' : c ∈ '=' :: rest := List.mem_cons_of_mem _ (Fields.mem_of_mem_strip hc)
      rw [← hrest] at hc'
      exact (List.dropWhile_sublist _).mem ((List.dropWhile_sublist _).mem hc')
    · cases h
  · cases h

theorem parse_value {text : Text} {a : Attribute} (h : parse text = some a)
    (hcomment : '#' ∉ text) :
    (∀ c ∈ a.value, valueChar c = true) ∧ Fields.Bare Java.space a.value := by
  have hmem : ∀ c ∈ a.value, c ∈ text := fun c => mem_of_mem_value h
  unfold parse at h
  split at h
  · next rest hrest =>
    simp only at h
    split at h
    · next hok =>
      cases h
      refine ⟨?_, Fields.bare_strip _ _⟩
      intro c hc
      unfold valueChar
      rw [Bool.and_eq_true, bne_iff_ne]
      refine ⟨List.all_eq_true.1 hok.2 c hc, ?_⟩
      rintro rfl
      exact hcomment (hmem _ hc)
    · cases h
  · cases h

/-- What stands in a list: no comma, no comment, and padded at neither end. -/
structure Token (t : Text) : Prop where
  chars : ∀ c ∈ t, valueChar c = true
  comma : ',' ∉ t
  bare : Fields.Bare Java.space t

variable {t : Text}

theorem mem_of_mem_split (h : t ∈ split v) (hc : c ∈ t) : c ∈ v := by
  unfold split at h
  split at h
  · exact (Fields.mem_split ((List.rdropWhile_prefix _ _).mem h)).2 c hc
  · rwa [List.mem_singleton.1 h] at hc

theorem token_of_mem_split (hchars : ∀ c ∈ v, valueChar c = true) (hbare : Fields.Bare Java.space v)
    (h : t ∈ split v) : Token t := by
  unfold split at h
  split at h
  · have ht := (List.rdropWhile_prefix _ _).mem h
    have hmem := Fields.mem_split ht
    exact ⟨fun c hc => hchars c (hmem.2 c hc), hmem.1, Fields.bare_of_mem_split hbare ht⟩
  · next hcomma =>
    rw [List.mem_singleton.1 h]
    exact ⟨hchars, hcomma, hbare⟩

variable {ts : List Text}

theorem mem_join (h : c ∈ join ts) : c = ',' ∨ c = ' ' ∨ ∃ t ∈ ts, c ∈ t := by
  unfold join at h
  induction ts with
  | nil => simp at h
  | cons t ts ih =>
    cases ts with
    | nil =>
      rw [List.intercalate_singleton] at h
      exact .inr (.inr ⟨t, by simp, h⟩)
    | cons u us =>
      rw [List.intercalate_cons_cons, List.mem_append, List.mem_append] at h
      rcases h with (h | h) | h
      · exact .inr (.inr ⟨t, by simp, h⟩)
      · simp only [List.mem_cons, List.not_mem_nil, or_false] at h
        exact h.imp_right .inl
      · rcases ih h with h | h | ⟨w, hw, hc⟩
        · exact .inl h
        · exact .inr (.inl h)
        · exact .inr (.inr ⟨w, by simp [hw], hc⟩)

theorem valueChar_of_mem_join (h : ∀ t ∈ ts, Token t) : ∀ c ∈ join ts, valueChar c = true := by
  intro c hc
  rcases mem_join hc with rfl | rfl | ⟨t, ht, hct⟩
  · decide
  · decide
  · exact (h t ht).chars c hct

theorem head_join (h : ∀ t ∈ ts, Token t) : ∀ c ∈ (join ts).head?, Java.space c = false := by
  intro c hc
  cases ts with
  | nil => simp [join] at hc
  | cons t ts =>
    cases t with
    | cons d ds =>
      have hd : c = d := by
        unfold join at hc
        rw [Fields.cons_intercalate] at hc
        simpa using hc.symm
      rw [hd]
      exact (h (d :: ds) (by simp)).bare.head d rfl
    | nil =>
      -- an empty first value leaves the comma in front
      cases ts with
      | nil => simp [join] at hc
      | cons u us =>
        have hd : c = ',' := by
          unfold join at hc
          rw [List.intercalate_cons_cons] at hc
          simpa using hc.symm
        rw [hd]
        decide

/-- What trimming the line leaves of a list: the end of its last value can be lost. -/
theorem split_trimmed_join {init : List Text} (hinit : init ≠ []) (h : ∀ u ∈ init ++ [t], Token u) :
    split ((join (init ++ [t])).rdropWhile Java.trimmable) =
      (init ++ [t.rdropWhile Java.trimmable]).rdropWhile List.isEmpty := by
  have ht := h t (by simp)
  have hjoin : join (init ++ [t]) = join init ++ ',' :: ' ' :: t := by
    unfold join
    rw [Fields.intercalate_concat _ hinit]
    simp
  have htrim : (' ' :: t).rdropWhile Java.trimmable <+: ' ' :: t := List.rdropWhile_prefix _ _
  have hcomma : ',' ∉ (' ' :: t).rdropWhile Java.trimmable := by
    intro hmem
    have hmem := htrim.mem hmem
    rw [List.mem_cons] at hmem
    exact hmem.elim (by decide) ht.comma
  have hend : ((' ' :: t).rdropWhile Java.trimmable).dropWhile Java.space =
      t.rdropWhile Java.trimmable := by
    have happ := Fields.rdropWhile_append Java.trimmable [' '] t
    rw [List.singleton_append] at happ
    rw [happ]
    split
    · next hempty =>
      rw [List.isEmpty_iff] at hempty
      rw [hempty]
      rfl
    · show (t.rdropWhile Java.trimmable).dropWhile Java.space = _
      exact Fields.dropWhile_of_head
        (Fields.prefix_head (List.rdropWhile_prefix Java.trimmable t) ht.bare.head)
  rw [hjoin, Fields.rdropWhile_append_cons (by decide)]
  unfold split
  rw [if_pos (by simp)]
  unfold join
  rw [Fields.split_join_append (by decide) (by decide) hinit
    (fun u hu => (h u (by simp [hu])).comma) (fun u hu => (h u (by simp [hu])).bare) hcomma, hend]

theorem split_trimmed_singleton (h : Token t) :
    split ((join [t]).rdropWhile Java.trimmable) = [t.rdropWhile Java.trimmable] := by
  unfold join split
  rw [List.intercalate_singleton, if_neg]
  intro hmem
  exact h.comma ((List.rdropWhile_prefix _ t).mem hmem)

theorem comma_notMem_of_mem_split (h : t ∈ split v) : ',' ∉ t := by
  unfold split at h
  split at h
  · exact (Fields.mem_split ((List.rdropWhile_prefix _ _).mem h)).1
  · next hcomma => rwa [List.mem_singleton.1 h]

theorem tight_split (v : Text) : Fields.Tight Java.space (split v) := by
  unfold split
  split
  · rw [Fields.split_eq_trim]
    exact List.Pairwise.sublist (List.rdropWhile_prefix _ _).sublist (Fields.tight_trim _ _)
  · exact List.pairwise_singleton _ v

theorem split_join_eq (hne : ts ≠ []) (hnil : ts ≠ [[]]) (hcomma : ∀ t ∈ ts, ',' ∉ t) :
    split (join ts) = (Fields.trim Java.space ts).rdropWhile List.isEmpty := by
  have hsplit : Fields.split ',' Java.space (join ts) = Fields.trim Java.space ts :=
    Fields.split_intercalate (by decide) (by decide) hne hcomma
  unfold split
  split
  · rw [hsplit]
  · next hnot =>
    -- a list of two would have a comma
    obtain ⟨t, ts, rfl⟩ := List.exists_cons_of_ne_nil hne
    cases ts with
    | nil =>
      have ht : t ≠ [] := fun h => hnil (by rw [h])
      show [join [t]] = [t].rdropWhile List.isEmpty
      rw [join, List.intercalate_singleton, List.rdropWhile_singleton,
        List.isEmpty_eq_false_iff.2 ht]
      rfl
    | cons u us =>
      refine absurd ?_ hnot
      rw [join, List.intercalate_cons_cons]
      simp

theorem split_join_tight (hne : ts ≠ []) (hcomma : ∀ t ∈ ts, ',' ∉ t)
    (htight : Fields.Tight Java.space ts) (hlast : ∀ t ∈ ts.getLast?, t ≠ []) :
    split (join ts) = ts := by
  rw [split_join_eq hne (fun h => hlast [] (by rw [h]; rfl) rfl) hcomma, htight.trim_eq]
  exact Fields.rdropWhile_of_last fun t ht => List.isEmpty_eq_false_iff.2 (hlast t ht)

theorem mem_split_join (hcomma : ∀ t ∈ ts, ',' ∉ t) (ht : t ∈ ts) (hne : t ≠ [])
    (hbare : Fields.Bare Java.space t) : t ∈ split (join ts) := by
  rw [split_join_eq (List.ne_nil_of_mem ht)
    (fun h => hne (List.mem_singleton.1 (h ▸ ht))) hcomma]
  have hmem := Fields.mem_trim_of_bare ht hbare
  rw [← List.rdropWhile_append_rtakeWhile (p := List.isEmpty) (l := Fields.trim Java.space ts)]
    at hmem
  rcases List.mem_append.1 hmem with hmem | hmem
  · exact hmem
  · exact absurd (List.isEmpty_iff.1 (List.mem_rtakeWhile_imp hmem)) hne

theorem mem_of_mem_split_join (hne : ts ≠ []) (hcomma : ∀ t ∈ ts, ',' ∉ t)
    (htight : Fields.Tight Java.space ts) (ht : t ∈ split (join ts)) : t ∈ ts := by
  by_cases hnil : ts = [[]]
  · rw [hnil] at ht ⊢
    exact ht
  · rw [split_join_eq hne hnil hcomma, htight.trim_eq] at ht
    exact (List.rdropWhile_prefix _ _).mem ht

theorem last_of_mem_split_join (hcomma : ∀ t ∈ ts, ',' ∉ t)
    (hlast : ∀ u ∈ ts.getLast?, ∀ c ∈ u.getLast?, Java.space c = false)
    (ht : t ∈ split (join ts)) : ∀ c ∈ t.getLast?, Java.space c = false := by
  by_cases hnil : ts = [] ∨ ts = [[]]
  · have hjoin : join ts = [] := by
      rcases hnil with rfl | rfl
      · rfl
      · rfl
    rw [hjoin] at ht
    have ht : t = [] := List.mem_singleton.1 ht
    simp [ht]
  · rw [not_or] at hnil
    rw [split_join_eq hnil.1 hnil.2 hcomma] at ht
    exact Fields.last_of_mem_trim hlast ((List.rdropWhile_prefix _ _).mem ht)

/-- Values put behind a list that was cut: its last value loses the blanks after it. -/
theorem split_join_append {init rs : List Text} {z r : Text}
    (hcomma : ∀ t ∈ init ++ z :: r :: rs, ',' ∉ t) (htight : Fields.Tight Java.space (init ++ [z]))
    (hlast : ∀ u ∈ r :: rs, ∀ c ∈ u.getLast?, Java.space c = false)
    (hne : ∀ u ∈ r :: rs, u.dropWhile Java.space ≠ []) :
    split (join (init ++ z :: r :: rs)) =
      init ++ z.rdropWhile Java.space :: (r :: rs).map (List.dropWhile Java.space) := by
  have hlong : init ++ z :: r :: rs ≠ [[]] := by
    intro h
    have hlength := congrArg List.length h
    rw [List.length_append, List.length_cons, List.length_cons, List.length_singleton] at hlength
    omega
  rw [split_join_eq (by simp) hlong hcomma, Fields.trim_append htight hlast]
  apply Fields.rdropWhile_of_last
  intro u hu
  rw [List.getLast?_append_of_ne_nil _ (by simp), List.map_cons, List.getLast?_cons_cons,
    ← List.map_cons] at hu
  obtain ⟨v, hv, rfl⟩ := List.mem_map.1 (List.mem_of_mem_getLast? hu)
  exact List.isEmpty_eq_false_iff.2 (hne v hv)

/-- A character of an address, a host, a number or a key: no format here gives it a meaning. -/
def solidChar (c : Char) : Bool :=
  decide (32 < c.toNat ∧ c.toNat < 127) && c != '#' && c != ','

theorem solidChar_iff :
    solidChar c = true ↔ (32 < c.toNat ∧ c.toNat < 127) ∧ c ≠ '#' ∧ c ≠ ',' := by
  unfold solidChar
  rw [Bool.and_eq_true, Bool.and_eq_true, decide_eq_true_iff, bne_iff_ne, bne_iff_ne, and_assoc]

theorem solidChar_of_isAlphanum (h : c.isAlphanum = true) : solidChar c = true := by
  rw [solidChar_iff]
  rw [Java.isAlphanum_iff] at h
  refine ⟨by omega, ?_, ?_⟩
  · rintro rfl
    revert h
    decide
  · rintro rfl
    revert h
    decide

structure Solid (t : Text) : Prop where
  nonempty : t ≠ []
  chars : ∀ c ∈ t, solidChar c = true

theorem Solid.trimmable (h : Solid t) (hc : c ∈ t) : Java.trimmable c = false := by
  apply eq_false_of_ne_true
  rw [Java.trimmable_iff]
  have hchar := solidChar_iff.1 (h.chars c hc)
  omega

theorem Solid.bare (h : Solid t) : Fields.Bare Java.trimmable t where
  head _ hc := h.trimmable (List.mem_of_mem_head? hc)
  last _ hc := h.trimmable (List.mem_of_mem_getLast? hc)

theorem Solid.token (h : Solid t) : Token t where
  chars c hc := by
    have hchar := solidChar_iff.1 (h.chars c hc)
    unfold valueChar
    rw [Bool.and_eq_true, bne_iff_ne]
    exact ⟨Java.dot_of_lt (by omega) (by omega), hchar.2.1⟩
  comma hc := (solidChar_iff.1 (h.chars _ hc)).2.2 rfl
  bare := h.bare.mono fun _ => Java.trimmable_of_space

theorem Solid.trimmed (h : Solid t) : t.rdropWhile Java.trimmable = t :=
  Fields.rdropWhile_of_last h.bare.last

theorem solid_valueOf (n : Nat) : Solid (Java.valueOf n) where
  nonempty := Java.valueOf_ne_nil n
  chars c hc := by
    apply solidChar_of_isAlphanum
    have hdigit := Java.isDigit_of_mem_valueOf hc
    rw [Java.isDigit_iff] at hdigit
    rw [Java.isAlphanum_iff]
    omega

theorem parse_solid (hkey : key ≠ []) (hword : ∀ c ∈ key, Java.word c = true) (hv : Solid v) :
    parse (clean (line key v)) = some ⟨key, v⟩ := by
  rw [parse_clean_line hkey hword hv.token.chars hv.token.bare.head, hv.trimmed]

theorem split_solid (hne : ts ≠ []) (h : ∀ t ∈ ts, Solid t) :
    split ((join ts).rdropWhile Java.trimmable) = ts := by
  rcases List.eq_nil_or_concat ts with rfl | ⟨init, t, rfl⟩
  · exact absurd rfl hne
  rw [List.concat_eq_append] at h ⊢
  have ht := h t (by simp)
  by_cases hinit : init = []
  · subst hinit
    rw [List.nil_append, split_trimmed_singleton ht.token, ht.trimmed]
  · rw [split_trimmed_join hinit (fun u hu => (h u hu).token), ht.trimmed]
    apply Fields.rdropWhile_of_last
    intro u hu
    have hu : t = u := by simpa using hu
    rw [← hu]
    exact List.isEmpty_eq_false_iff.2 ht.nonempty

theorem join_trimmed (h : ∀ t ∈ ts, Solid t) : (join ts).rdropWhile Java.trimmable = join ts := by
  apply Fields.rdropWhile_of_last
  intro c hc
  rcases List.eq_nil_or_concat ts with rfl | ⟨init, t, rfl⟩
  · cases hc
  rw [List.concat_eq_append] at h hc
  have ht := h t (by simp)
  refine ht.trimmable (List.mem_of_mem_getLast? ?_)
  by_cases hinit : init = []
  · subst hinit
    rwa [List.nil_append, join, List.intercalate_singleton] at hc
  · rwa [join, Fields.intercalate_concat _ hinit,
      List.getLast?_append_of_ne_nil _ ht.nonempty] at hc

theorem split_join (hne : ts ≠ []) (h : ∀ t ∈ ts, Solid t) : split (join ts) = ts := by
  have hsplit := split_solid hne h
  rwa [join_trimmed h] at hsplit

end Attribute

end Amnezia.Config
