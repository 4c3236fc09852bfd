import Amnezia.Model.TunnelName

/-!
# Typing a name

`NameInputFilter.filter`, on UTF-16 code units.  It lets the letters and digits of every script
through, and the characters it is about to replace still count for its bound on the length.
-/

namespace Amnezia.Widget

abbrev CodeUnit := BitVec 16

def nameMaxLength : Nat := 15

def nameUnit (c : CodeUnit) : Bool :=
  decide (c.toNat < 128) && Model.nameChar (Char.ofNat c.toNat)

def Typable (text : List CodeUnit) : Prop :=
  text.length ≤ nameMaxLength ∧ ∀ c ∈ text, nameUnit c = true

/-- A part of `source` is to replace a part of `dest`. -/
structure Edit where
  source : List CodeUnit
  sStart : Nat
  sEnd : Nat
  dest : List CodeUnit
  dStart : Nat
  dEnd : Nat
  sRange : sStart ≤ sEnd ∧ sEnd ≤ source.length
  dRange : dStart ≤ dEnd ∧ dEnd ≤ dest.length

namespace Edit

variable (e : Edit)

def inserted : List CodeUnit := (e.source.drop e.sStart).take (e.sEnd - e.sStart)

def replacedBy (text : List CodeUnit) : List CodeUnit :=
  e.dest.take e.dStart ++ text ++ e.dest.drop e.dEnd

end Edit

section

-- `Character.isLetterOrDigit`
variable (letterOrDigit : CodeUnit → Bool)

def isAllowed (c : CodeUnit) : Bool :=
  letterOrDigit c || ("_=+.-".toList.map fun d => BitVec.ofNat 16 d.toNat).contains c

structure Filtering where
  replacement : Option (List CodeUnit) := none
  rIndex : Nat := 0

/-- The loop from `offset = sIndex - sStart` on. -/
def filterFrom (e : Edit) : Nat → List CodeUnit → Filtering → Filtering
  | _, [], st => st
  | offset, c :: cs, st =>
    filterFrom e (offset + 1) cs
      (if e.dStart + offset < nameMaxLength ∧ isAllowed letterOrDigit c = true ∧
          e.dest.length + offset < nameMaxLength then { st with rIndex := st.rIndex + 1 }
      else { st with
        replacement := some ((st.replacement.getD e.inserted).eraseIdx st.rIndex) })

def filter (e : Edit) : Option (List CodeUnit) :=
  (filterFrom letterOrDigit e 0 e.inserted {}).replacement

variable {letterOrDigit} {e : Edit}

-- `done` is what the loop has let through, and `rIndex` points behind it.
theorem filterFrom_spec (offset : Nat) (done rest : List CodeUnit) (st : Filtering)
    (hindex : st.rIndex = done.length) (hst : st.replacement.getD e.inserted = done ++ rest) :
    let left := (rest.take (nameMaxLength - (e.dest.length + offset))).filter
      (isAllowed letterOrDigit)
    (filterFrom letterOrDigit e offset rest st).replacement.getD e.inserted = done ++ left ∧
      ((filterFrom letterOrDigit e offset rest st).replacement = none ↔
        st.replacement = none ∧ left = rest) := by
  induction rest generalizing offset done st with
  | nil => simp [filterFrom, hst]
  | cons c rest ih =>
    have hstart := e.dRange
    rw [filterFrom]
    split
    · next htakes =>
      have hroom : nameMaxLength - (e.dest.length + offset) =
          nameMaxLength - (e.dest.length + (offset + 1)) + 1 := by omega
      obtain ⟨hleft, hnone⟩ := ih (offset + 1) (done ++ [c]) { st with rIndex := st.rIndex + 1 }
        (by simp [hindex]) (by simp [hst])
      rw [hroom, List.take_succ_cons, List.filter_cons_of_pos htakes.2.1]
      refine ⟨by rw [hleft, List.append_assoc]; rfl, ?_⟩
      rw [hnone, List.cons_inj_right]
    · next hrefused =>
      -- the character at `rIndex` is the one that is refused
      have hdelete : (done ++ c :: rest).eraseIdx done.length = done ++ rest := by
        rw [List.eraseIdx_append_of_length_le (Nat.le_refl _), Nat.sub_self, List.eraseIdx_cons_zero]
      have hsame : ((c :: rest).take (nameMaxLength - (e.dest.length + offset))).filter
          (isAllowed letterOrDigit) = (rest.take (nameMaxLength - (e.dest.length + (offset + 1)))).filter
            (isAllowed letterOrDigit) := by
        by_cases hroom : e.dest.length + offset < nameMaxLength
        · have hc : ¬ isAllowed letterOrDigit c = true := fun hc => hrefused ⟨by omega, hc, hroom⟩
          rw [show nameMaxLength - (e.dest.length + offset) =
            nameMaxLength - (e.dest.length + (offset + 1)) + 1 by omega, List.take_succ_cons,
            List.filter_cons_of_neg hc]
        · rw [show nameMaxLength - (e.dest.length + offset) = 0 by omega,
            show nameMaxLength - (e.dest.length + (offset + 1)) = 0 by omega]
          rfl
      obtain ⟨hleft, hnone⟩ := ih (offset + 1) done { st with
        replacement := some ((st.replacement.getD e.inserted).eraseIdx st.rIndex) } hindex
        (by rw [Option.getD_some, hst, hindex, hdelete])
      rw [hsame]
      refine ⟨hleft, hnone.trans (iff_of_false (fun h => nomatch h.1) ?_)⟩
      rintro ⟨-, hall⟩
      have hlength := congrArg List.length hall
      have hle := (List.length_filter_le (isAllowed letterOrDigit)
        (rest.take (nameMaxLength - (e.dest.length + (offset + 1))))).trans (List.length_take_le' _ _)
      rw [List.length_cons] at hlength
      omega

theorem filter_getD : (filter letterOrDigit e).getD e.inserted =
    (e.inserted.take (nameMaxLength - e.dest.length)).filter (isAllowed letterOrDigit) :=
  (filterFrom_spec 0 [] e.inserted {} rfl rfl).1

theorem filter_eq_none_iff : filter letterOrDigit e = none ↔
    e.inserted.length ≤ nameMaxLength - e.dest.length ∧
      ∀ c ∈ e.inserted, isAllowed letterOrDigit c = true := by
  refine (filterFrom_spec 0 [] e.inserted {} rfl rfl).2.trans ?_
  rw [and_iff_right rfl, Nat.add_zero]
  constructor
  · intro hall
    have hlength := (List.length_filter_le (isAllowed letterOrDigit)
      (e.inserted.take (nameMaxLength - e.dest.length))).trans (List.length_take_le _ _)
    rw [hall] at hlength
    refine ⟨hlength, fun c hc => ?_⟩
    rw [← hall] at hc
    exact (List.mem_filter.1 hc).2
  · rintro ⟨hlength, hall⟩
    rw [List.take_of_length_le hlength, List.filter_eq_self.2 hall]

theorem typable_replacedBy (hdest : Typable e.dest) (text : List CodeUnit) :
    Typable (e.replacedBy text) ↔
      e.dest.length - (e.dEnd - e.dStart) + text.length ≤ nameMaxLength ∧
        ∀ c ∈ text, nameUnit c = true := by
  have hrange := e.dRange
  have hlength : (e.replacedBy text).length =
      e.dest.length - (e.dEnd - e.dStart) + text.length := by
    unfold Edit.replacedBy
    rw [List.length_append, List.length_append, List.length_take, List.length_drop]
    omega
  unfold Typable
  rw [hlength]
  refine and_congr_right fun _ => ⟨fun h c hc => h c (by simp [Edit.replacedBy, hc]), fun h c hc => ?_⟩
  rcases List.mem_append.1 hc with hc | hc
  · rcases List.mem_append.1 hc with hc | hc
    · exact hdest.2 c (List.mem_of_mem_take hc)
    · exact h c hc
  · exact hdest.2 c (List.mem_of_mem_drop hc)

def AsciiLetters (letterOrDigit : CodeUnit → Bool) : Prop :=
  ∀ c : CodeUnit, c.toNat < 128 → letterOrDigit c = (Char.ofNat c.toNat).isAlphanum

theorem isAllowed_of_nameUnit (hascii : AsciiLetters letterOrDigit) {c : CodeUnit}
    (h : nameUnit c = true) : isAllowed letterOrDigit c = true := by
  unfold nameUnit Model.nameChar at h
  simp only [Bool.and_eq_true, decide_eq_true_eq, Bool.or_eq_true] at h
  obtain ⟨hlt, halphanum | hother⟩ := h
  · unfold isAllowed
    rw [hascii c hlt, halphanum, Bool.true_or]
  · have hunits : ∀ n < 128, ['_', '=', '+', '.', '-'].contains (Char.ofNat n) = true →
        ("_=+.-".toList.map fun d => BitVec.ofNat 16 d.toNat).contains (BitVec.ofNat 16 n) = true := by
      decide
    unfold isAllowed
    have hmem := hunits c.toNat hlt hother
    rw [BitVec.ofNat_toNat, BitVec.setWidth_eq] at hmem
    rw [hmem, Bool.or_true]

/-- Only names can be typed, and every name can, if and only if no letter or digit outside the
pattern is typed where there is room, and what fits in place of the selected characters fits beside
them. -/
theorem filter_exact_iff (hascii : AsciiLetters letterOrDigit) (hdest : Typable e.dest) :
    (Typable (e.replacedBy ((filter letterOrDigit e).getD e.inserted)) ∧
        (Typable (e.replacedBy e.inserted) → filter letterOrDigit e = none)) ↔
      (∀ c ∈ e.inserted.take (nameMaxLength - e.dest.length),
          letterOrDigit c = true → nameUnit c = true) ∧
        ((∀ c ∈ e.inserted, nameUnit c = true) →
          e.dest.length - (e.dEnd - e.dStart) + e.inserted.length ≤ nameMaxLength →
            e.dest.length + e.inserted.length ≤ nameMaxLength) := by
  have hlength := hdest.1
  rw [typable_replacedBy hdest, typable_replacedBy hdest, filter_getD, filter_eq_none_iff]
  apply and_congr
  · constructor
    · intro h c hc hletter
      apply h.2 c
      rw [List.mem_filter]
      exact ⟨hc, by rw [isAllowed, hletter, Bool.true_or]⟩
    · intro h
      have hleft := (List.length_filter_le (isAllowed letterOrDigit)
        (e.inserted.take (nameMaxLength - e.dest.length))).trans (List.length_take_le _ _)
      refine ⟨by omega, fun c hc => ?_⟩
      obtain ⟨hc, hallowed⟩ := List.mem_filter.1 hc
      rcases Bool.or_eq_true_iff.1 hallowed with hletter | hother
      · exact h c hc hletter
      · have hunits : ("_=+.-".toList.map fun d => BitVec.ofNat 16 d.toNat).all nameUnit = true := by
          decide
        exact List.all_eq_true.1 hunits c (List.contains_iff_mem.1 hother)
  · constructor
    · intro h hall hfits
      have hroom := (h ⟨hfits, hall⟩).1
      omega
    · rintro h ⟨hfits, hall⟩
      have hroom := h hall hfits
      exact ⟨by omega, fun c hc => isAllowed_of_nameUnit hascii (hall c hc)⟩

end

def units (text : String) : List CodeUnit := text.toList.map fun c => BitVec.ofNat 16 c.toNat

def latinLetter (c : CodeUnit) : Bool :=
  if c.toNat < 128 then (Char.ofNat c.toNat).isAlphanum
  else [0xaa, 0xb5, 0xba].contains c.toNat ||
    decide (0xc0 ≤ c.toNat ∧ c.toNat ≤ 0xff ∧ c.toNat ≠ 0xd7 ∧ c.toNat ≠ 0xf7)

theorem asciiLetters_latinLetter : AsciiLetters latinLetter := fun _ h => if_pos h

def typeDigit : Edit := ⟨units "0", 0, 1, units "wg", 2, 2, by decide, by decide⟩

theorem filter_typeDigit :
    Typable (typeDigit.replacedBy ((filter latinLetter typeDigit).getD typeDigit.inserted)) ∧
      (Typable (typeDigit.replacedBy typeDigit.inserted) → filter latinLetter typeDigit = none) := by
  have hdest : Typable typeDigit.dest := ⟨by decide, List.all_eq_true.1 (by decide)⟩
  have hinserted : typeDigit.inserted.all nameUnit = true := by decide
  refine (filter_exact_iff asciiLetters_latinLetter hdest).2 ⟨fun c hc _ => ?_, fun _ _ => by decide⟩
  exact List.all_eq_true.1 hinserted c (List.mem_of_mem_take hc)

def typeLetter : Edit := ⟨units "é", 0, 1, [], 0, 0, by decide, by decide⟩

def typeOver : Edit := ⟨units "b", 0, 1, units "aaaaaaaaaaaaaaa", 0, 15, by decide, by decide⟩

theorem filter_inexact :
    (filter latinLetter typeLetter = none ∧ ¬ Typable (typeLetter.replacedBy typeLetter.inserted)) ∧
      (filter latinLetter typeOver = some [] ∧ Typable (typeOver.replacedBy typeOver.inserted)) := by
  have hletter : (typeLetter.replacedBy typeLetter.inserted).all nameUnit = false := by decide
  refine ⟨⟨by decide, fun h => ?_⟩, by decide, by decide, List.all_eq_true.1 (by decide)⟩
  rw [List.all_eq_true.2 h.2] at hletter
  cases hletter

end Amnezia.Widget
