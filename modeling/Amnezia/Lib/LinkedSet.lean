import Mathlib.Data.List.Nodup
import Mathlib.Tactic.Common

/-!
# Linked sets — sets that keep the order of insertion

The list of the elements, without duplicates: inserting an element that is already there changes
neither the elements nor their order.
-/

structure LinkedSet (α : Type*) where
  toList : List α
  nodup : toList.Nodup
  deriving DecidableEq

namespace LinkedSet

variable {α β : Type*}

def empty : LinkedSet α := ⟨[], List.nodup_nil⟩

def isEmpty (s : LinkedSet α) : Bool := s.toList.isEmpty

instance : Membership α (LinkedSet α) := ⟨fun s a => a ∈ s.toList⟩

variable {s : LinkedSet α} {a : α}

@[simp] theorem mem_toList : a ∈ s.toList ↔ a ∈ s := Iff.rfl

@[simp] theorem toList_empty : (empty : LinkedSet α).toList = [] := rfl

theorem ext_toList {t : LinkedSet α} (h : s.toList = t.toList) : s = t := by
  cases s
  cases t
  congr

theorem isEmpty_iff : s.isEmpty = true ↔ s = empty := by
  unfold isEmpty
  rw [List.isEmpty_iff]
  exact ⟨fun h => ext_toList h, fun h => by rw [h, toList_empty]⟩

variable [DecidableEq α]

def insert (s : LinkedSet α) (a : α) : LinkedSet α :=
  if h : a ∈ s.toList then s else
    ⟨s.toList ++ [a], List.nodup_append.2 ⟨s.nodup, List.nodup_singleton a, by
      intro b hb c hc hbc
      rw [hbc, List.mem_singleton.1 hc] at hb
      exact h hb⟩⟩

def insertAll (s : LinkedSet α) (as : List α) : LinkedSet α := as.foldl insert s

@[simp] theorem insertAll_nil (s : LinkedSet α) : s.insertAll [] = s := rfl

@[simp] theorem insertAll_cons (s : LinkedSet α) (a : α) (as : List α) :
    s.insertAll (a :: as) = (s.insert a).insertAll as := rfl

theorem insertAll_append (s : LinkedSet α) (as bs : List α) :
    s.insertAll (as ++ bs) = (s.insertAll as).insertAll bs := List.foldl_append

theorem foldl_insertAll (s : LinkedSet α) (f : β → List α) (l : List β) :
    l.foldl (fun s b => s.insertAll (f b)) s = s.insertAll (l.flatMap f) := by
  induction l generalizing s with
  | nil => rfl
  | cons b l ih => rw [List.foldl_cons, ih, List.flatMap_cons, insertAll_append]

theorem toList_insert_of_notMem (h : a ∉ s) : (s.insert a).toList = s.toList ++ [a] := by
  have hs : a ∉ s.toList := h
  unfold insert
  rw [dif_neg hs]

variable {b : α}

theorem mem_insert : b ∈ s.insert a ↔ b ∈ s ∨ b = a := by
  by_cases h : a ∈ s
  · have hs : s.insert a = s := dif_pos h
    rw [hs]
    constructor
    · exact .inl
    · rintro (hb | rfl)
      · exact hb
      · exact h
  · rw [← mem_toList, toList_insert_of_notMem h]
    simp

variable {as : List α}

theorem mem_insertAll : b ∈ s.insertAll as ↔ b ∈ s ∨ b ∈ as := by
  induction as generalizing s with
  | nil => simp
  | cons a as ih =>
    rw [insertAll_cons, ih, mem_insert, List.mem_cons, or_assoc]

theorem toList_insertAll (hnd : as.Nodup) (h : ∀ a ∈ as, a ∉ s) :
    (s.insertAll as).toList = s.toList ++ as := by
  induction as generalizing s with
  | nil => simp
  | cons a as ih =>
    have ha : a ∉ s := h a (by simp)
    have hrest : ∀ b ∈ as, b ∉ s.insert a := by
      intro b hb hmem
      rcases mem_insert.1 hmem with hbs | rfl
      · exact h b (by simp [hb]) hbs
      · exact (List.nodup_cons.1 hnd).1 hb
    rw [insertAll_cons, ih (List.nodup_cons.1 hnd).2 hrest, toList_insert_of_notMem ha]
    simp

theorem insertAll_toList (s : LinkedSet α) : empty.insertAll s.toList = s := by
  apply ext_toList
  rw [toList_insertAll s.nodup (fun a _ => List.not_mem_nil)]
  rfl

theorem exists_toList_insertAll (s : LinkedSet α) (as : List α) :
    ∃ bs, (s.insertAll as).toList = s.toList ++ bs ∧ (∀ b ∈ bs, b ∈ as ∧ b ∉ s) := by
  induction as generalizing s with
  | nil => exact ⟨[], (List.append_nil _).symm, fun b hb => absurd hb List.not_mem_nil⟩
  | cons a as ih =>
    obtain ⟨bs, heq, hbs⟩ := ih (s.insert a)
    rw [insertAll_cons]
    by_cases ha : a ∈ s
    · have hs : s.insert a = s := dif_pos ha
      rw [hs] at heq hbs ⊢
      exact ⟨bs, heq, fun b hb => ⟨List.mem_cons_of_mem _ (hbs b hb).1, (hbs b hb).2⟩⟩
    · rw [toList_insert_of_notMem ha] at heq
      refine ⟨a :: bs, by rw [heq, List.append_assoc]; rfl, ?_⟩
      intro b hb
      rcases List.mem_cons.1 hb with rfl | hb
      · exact ⟨List.mem_cons_self, ha⟩
      · obtain ⟨hmem, hnot⟩ := hbs b hb
        exact ⟨List.mem_cons_of_mem _ hmem, fun h => hnot (mem_insert.2 (.inl h))⟩

theorem toList_insertAll_sublist (s : LinkedSet α) (as : List α) :
    (s.insertAll as).toList.Sublist (s.toList ++ as) := by
  induction as generalizing s with
  | nil => simp
  | cons a as ih =>
    rw [insertAll_cons]
    refine (ih (s.insert a)).trans ?_
    by_cases ha : a ∈ s
    · have hs : s.insert a = s := dif_pos ha
      rw [hs]
      exact List.Sublist.append_left (List.sublist_cons_self a as) _
    · rw [toList_insert_of_notMem ha, List.append_assoc]
      exact List.Sublist.refl _

theorem filter_toList_insertAll {p : α → Bool} (hnd : (as.filter p).Nodup)
    (h : ∀ a ∈ as.filter p, a ∉ s) :
    (s.insertAll as).toList.filter p = s.toList.filter p ++ as.filter p := by
  induction as generalizing s with
  | nil => simp
  | cons a as ih =>
    rw [insertAll_cons]
    by_cases hp : p a = true
    · rw [List.filter_cons_of_pos hp] at hnd h ⊢
      have ha : a ∉ s := h a List.mem_cons_self
      have hrest : ∀ b ∈ as.filter p, b ∉ s.insert a := by
        intro b hb hmem
        rcases mem_insert.1 hmem with hbs | rfl
        · exact h b (List.mem_cons_of_mem _ hb) hbs
        · exact (List.nodup_cons.1 hnd).1 hb
      rw [ih (List.nodup_cons.1 hnd).2 hrest, toList_insert_of_notMem ha]
      simp [hp]
    · rw [List.filter_cons_of_neg hp] at hnd h ⊢
      have hfilter : (s.insert a).toList.filter p = s.toList.filter p := by
        by_cases ha : a ∈ s
        · rw [show s.insert a = s from dif_pos ha]
        · rw [toList_insert_of_notMem ha]
          simp [hp]
      have hrest : ∀ b ∈ as.filter p, b ∉ s.insert a := by
        intro b hb hmem
        rcases mem_insert.1 hmem with hbs | rfl
        · exact h b hb hbs
        · exact hp (List.of_mem_filter hb)
      rw [ih hnd hrest, hfilter]

def removeAll (s : LinkedSet α) (as : List α) : LinkedSet α :=
  ⟨s.toList.filter (· ∉ as), s.nodup.filter _⟩

theorem mem_removeAll : b ∈ s.removeAll as ↔ b ∈ s ∧ b ∉ as := by
  unfold removeAll
  rw [← mem_toList, List.mem_filter, decide_eq_true_iff, mem_toList]

theorem toList_removeAll {l r : List α} (h : s.toList = l ++ r) (hl : ∀ a ∈ l, a ∉ as)
    (hr : ∀ a ∈ r, a ∈ as) : (s.removeAll as).toList = l := by
  have hkeep : l.filter (· ∉ as) = l := by
    rw [List.filter_eq_self]
    exact fun a ha => decide_eq_true (hl a ha)
  have hdrop : r.filter (· ∉ as) = [] := by
    rw [List.filter_eq_nil_iff]
    intro a ha
    simpa using hr a ha
  show s.toList.filter (· ∉ as) = l
  rw [h, List.filter_append, hkeep, hdrop, List.append_nil]

theorem insertAll_eq_empty : empty.insertAll as = empty ↔ as = [] := by
  constructor
  · intro h
    rw [List.eq_nil_iff_forall_not_mem]
    intro a ha
    have hmem : a ∈ (empty : LinkedSet α) := by
      rw [← h, mem_insertAll]
      exact .inr ha
    exact List.not_mem_nil hmem
  · rintro rfl
    rfl

end LinkedSet
