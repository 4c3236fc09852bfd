import Mathlib.Tactic.Common

/-!
# Intervals — blocks of consecutive numbers

A block is the pair of its first number and of the number after its last one.  Blocks that are
linked, each beginning where the one before it ends, are together one block.
-/

namespace Intervals

def Mem (r : Nat × Nat) (v : Nat) : Prop := r.1 ≤ v ∧ v < r.2

instance (r : Nat × Nat) (v : Nat) : Decidable (Mem r v) := inferInstanceAs (Decidable (_ ∧ _))

def Linked : Nat → List (Nat × Nat) → Nat → Prop
  | lo, [], hi => lo = hi
  | lo, r :: rs, hi => r.1 = lo ∧ r.1 ≤ r.2 ∧ Linked r.2 rs hi

instance decidableLinked : ∀ lo rs hi, Decidable (Linked lo rs hi)
  | lo, [], hi => inferInstanceAs (Decidable (lo = hi))
  | _, r :: rs, hi => @instDecidableAnd _ _ _ (@instDecidableAnd _ _ _ (decidableLinked r.2 rs hi))

variable {rs : List (Nat × Nat)} {lo hi : Nat}

theorem Linked.le (h : Linked lo rs hi) : lo ≤ hi := by
  induction rs generalizing lo with
  | nil => exact Nat.le_of_eq h
  | cons r rs ih =>
    have hrest := ih h.2.2
    have hle := h.2.1
    have hlo := h.1
    omega

variable {v : Nat}

theorem Linked.exists_mem_iff (h : Linked lo rs hi) : (∃ r ∈ rs, Mem r v) ↔ lo ≤ v ∧ v < hi := by
  induction rs generalizing lo with
  | nil =>
    have heq : lo = hi := h
    constructor
    · rintro ⟨r, hr, -⟩
      exact absurd hr List.not_mem_nil
    · intro hv
      omega
  | cons r rs ih =>
    obtain ⟨hlo, hle, hrest⟩ := h
    have hhi := hrest.le
    simp only [List.mem_cons, exists_eq_or_imp, ih hrest]
    unfold Mem
    omega

theorem exists_mem_flatten_iff {bs : List (Nat × Nat)} {rss : List (List (Nat × Nat))}
    (h : List.Forall₂ (fun b rs => Linked b.1 rs b.2) bs rss) :
    (∃ r ∈ rss.flatten, Mem r v) ↔ ∃ b ∈ bs, Mem b v := by
  induction h with
  | nil => rfl
  | cons hlinked _ ih =>
    simp only [List.flatten_cons, List.mem_append, or_and_right, exists_or, List.mem_cons,
      exists_eq_left, ih, hlinked.exists_mem_iff]
    rfl

theorem div_eq_div_iff {size : Nat} (hsize : 0 < size) (hlo : size ∣ lo) :
    lo / size = v / size ↔ Mem (lo, lo + size) v := by
  obtain ⟨k, rfl⟩ := hlo
  rw [Nat.mul_div_cancel_left k hsize, eq_comm, Nat.div_eq_iff hsize]
  unfold Mem
  rw [Nat.mul_comm size k]
  omega

/-- The blocks lie one after another between `lo` and `hi`, and none of them is empty. -/
def Ascending : Nat → List (Nat × Nat) → Nat → Prop
  | lo, [], hi => lo ≤ hi
  | lo, r :: rs, hi => lo ≤ r.1 ∧ r.1 < r.2 ∧ Ascending r.2 rs hi

theorem Ascending.bounds (h : Ascending lo rs hi) : lo ≤ hi ∧ ∀ r ∈ rs, lo ≤ r.1 ∧ r.2 ≤ hi := by
  induction rs generalizing lo with
  | nil => exact ⟨h, fun r hr => absurd hr List.not_mem_nil⟩
  | cons r rs ih =>
    obtain ⟨hlo, hr, hrest⟩ := h
    obtain ⟨hle, hall⟩ := ih hrest
    refine ⟨by omega, ?_⟩
    rw [List.forall_mem_cons]
    refine ⟨⟨hlo, hle⟩, fun q hq => ?_⟩
    have hq := hall q hq
    omega

-- Blocks that ascend have no number in common.
theorem Ascending.disjoint (h : Ascending lo rs hi) :
    rs.Pairwise fun q r => ∀ v, ¬ (Mem q v ∧ Mem r v) := by
  induction rs generalizing lo with
  | nil => exact List.Pairwise.nil
  | cons r rs ih =>
    obtain ⟨-, -, hrest⟩ := h
    refine List.pairwise_cons.2 ⟨fun q hq v hv => ?_, ih hrest⟩
    have hq := (hrest.bounds.2 q hq).1
    have hv1 := hv.1.2
    have hv2 := hv.2.1
    omega

theorem Ascending.append {mid : Nat} {qs : List (Nat × Nat)} (hq : Ascending lo qs mid)
    (hr : Ascending mid rs hi) : Ascending lo (qs ++ rs) hi := by
  induction qs generalizing lo with
  | nil =>
    have hlo : lo ≤ mid := hq
    cases rs with
    | nil =>
      have hmid : mid ≤ hi := hr
      show lo ≤ hi
      omega
    | cons r rs =>
      obtain ⟨hmid, hr, hrest⟩ := hr
      exact ⟨by omega, hr, hrest⟩
  | cons q qs ih => exact ⟨hq.1, hq.2.1, ih hq.2.2⟩

def gaps : Nat → List Nat → List (Nat × Nat)
  | _, [] => []
  | lo, p :: ps => if lo < p then (lo, p) :: gaps (p + 1) ps else gaps (p + 1) ps

def afterLast : Nat → List Nat → Nat
  | lo, [] => lo
  | _, p :: ps => afterLast (p + 1) ps

theorem afterLast_eq (lo : Nat) (ps : List Nat) :
    afterLast lo ps = (ps.getLast?.map (· + 1)).getD lo := by
  induction ps generalizing lo with
  | nil => rfl
  | cons p ps ih =>
    rw [afterLast, ih, List.getLast?_cons]
    cases ps.getLast? <;> rfl

variable {ps : List Nat}

-- The points ascend, and a point may come again.
theorem ascending_gaps (hlo : ∀ p ∈ ps, lo ≤ p + 1) (hsorted : ps.Pairwise (· ≤ ·)) :
    Ascending lo (gaps lo ps) (afterLast lo ps) := by
  induction ps generalizing lo with
  | nil => exact Nat.le_refl lo
  | cons p ps ih =>
    obtain ⟨hp, hsorted⟩ := List.pairwise_cons.1 hsorted
    have hrest : Ascending (p + 1) (gaps (p + 1) ps) (afterLast (p + 1) ps) :=
      ih (fun q hq => Nat.succ_le_succ (hp q hq)) hsorted
    have hstart : Ascending lo [] (p + 1) := hlo p List.mem_cons_self
    have hpoint : Ascending p [] (p + 1) := Nat.le_succ p
    unfold gaps
    split
    · next hlt => exact ⟨Nat.le_refl lo, hlt, hpoint.append hrest⟩
    · exact hstart.append hrest

theorem lt_afterLast (hsorted : ps.Pairwise (· ≤ ·)) (lo : Nat) :
    ∀ p ∈ ps, p < afterLast lo ps := by
  induction ps generalizing lo with
  | nil => exact fun p hp => absurd hp List.not_mem_nil
  | cons p ps ih =>
    obtain ⟨hp, hsorted⟩ := List.pairwise_cons.1 hsorted
    have hnext := (ascending_gaps (fun q hq => Nat.succ_le_succ (hp q hq)) hsorted).bounds.1
    exact List.forall_mem_cons.2 ⟨hnext, ih hsorted (p + 1)⟩

theorem mem_gaps_iff (hlo : ∀ p ∈ ps, lo ≤ p + 1) (hsorted : ps.Pairwise (· ≤ ·)) :
    (∃ r ∈ gaps lo ps, Mem r v) ↔ lo ≤ v ∧ v < afterLast lo ps ∧ v ∉ ps := by
  induction ps generalizing lo with
  | nil =>
    have hempty : ¬ (lo ≤ v ∧ v < afterLast lo [] ∧ v ∉ []) := by
      unfold afterLast
      omega
    exact iff_of_false (by simp [gaps]) hempty
  | cons p ps ih =>
    obtain ⟨hp, hsorted⟩ := List.pairwise_cons.1 hsorted
    have hnext : ∀ q ∈ ps, p + 1 ≤ q + 1 := fun q hq => Nat.succ_le_succ (hp q hq)
    have hstart := hlo p List.mem_cons_self
    have hlast := (ascending_gaps hnext hsorted).bounds.1
    have hrest := ih hnext hsorted
    -- a number below the point is not one of the later points
    have hbelow : v < p → v ∉ ps := by
      intro hv hmem
      have hle := hp v hmem
      omega
    rw [gaps, afterLast, List.mem_cons, not_or]
    split
    · next hlt =>
      simp only [List.mem_cons, exists_eq_or_imp, hrest]
      unfold Mem
      constructor
      · rintro (⟨hle, hv⟩ | ⟨hle, hv, hmem⟩)
        · exact ⟨hle, by omega, by omega, hbelow hv⟩
        · exact ⟨by omega, hv, by omega, hmem⟩
      · rintro ⟨hle, hv, hne, hmem⟩
        by_cases hvp : v < p
        · exact .inl ⟨hle, hvp⟩
        · exact .inr ⟨by omega, hv, hmem⟩
    · next hge =>
      rw [hrest]
      constructor
      · rintro ⟨hle, hv, hmem⟩
        exact ⟨by omega, hv, by omega, hmem⟩
      · rintro ⟨hle, hv, hne, hmem⟩
        exact ⟨by omega, hv, hmem⟩

end Intervals
