import Mathlib.Data.List.DropRight
import Mathlib.Tactic.Common

/-!
# Fields — padded fields of line-based formats

A line-based format puts a value between padding, and joins a list of values with a separator that
may itself be padded.  A reader cuts at the separator and drops the padding.  Characters are of any
type: the padding is a predicate, the separator a character.
-/

namespace Fields

variable {α : Type*}

def strip (p : α → Bool) (l : List α) : List α := (l.dropWhile p).rdropWhile p

structure Bare (p : α → Bool) (l : List α) : Prop where
  head : ∀ a ∈ l.head?, p a = false
  last : ∀ a ∈ l.getLast?, p a = false

variable {p : α → Bool}

theorem forall_mem_iff_all {o : Option α} :
    (∀ a ∈ o, p a = false) ↔ o.all (fun a => !p a) = true := by
  cases o <;> simp

instance (p : α → Bool) (l : List α) : Decidable (Bare p l) :=
  decidable_of_iff (l.head?.all (fun a => !p a) = true ∧ l.getLast?.all (fun a => !p a) = true)
    ⟨fun h => ⟨forall_mem_iff_all.2 h.1, forall_mem_iff_all.2 h.2⟩,
      fun h => ⟨forall_mem_iff_all.1 h.head, forall_mem_iff_all.1 h.last⟩⟩

variable {l : List α}

theorem dropWhile_of_head (h : ∀ a ∈ l.head?, p a = false) : l.dropWhile p = l := by
  cases l with
  | nil => rfl
  | cons a l => rw [List.dropWhile_cons, if_neg (by simp [h a rfl])]

theorem rdropWhile_of_last (h : ∀ a ∈ l.getLast?, p a = false) : l.rdropWhile p = l := by
  rw [List.rdropWhile_eq_self_iff]
  intro hl
  simp [h (l.getLast hl) (List.getLast?_eq_getLast_of_ne_nil hl)]

theorem head_dropWhile (p : α → Bool) (l : List α) : ∀ a ∈ (l.dropWhile p).head?, p a = false := by
  intro a ha
  have h := List.head?_dropWhile_not p l
  rw [Option.mem_def.1 ha] at h
  exact h

theorem last_rdropWhile (p : α → Bool) (l : List α) :
    ∀ a ∈ (l.rdropWhile p).getLast?, p a = false := by
  intro a ha
  rw [Option.mem_def, List.getLast?_eq_some_iff] at ha
  obtain ⟨ys, hys⟩ := ha
  have hne : l.rdropWhile p ≠ [] := by simp [hys]
  have h := List.rdropWhile_last_not p l hne
  simp only [hys, List.getLast_append_singleton] at h
  exact eq_false_of_ne_true h

variable {q : α → Bool}

theorem prefix_head {l' : List α} (hl : l <+: l') (h : ∀ a ∈ l'.head?, q a = false) :
    ∀ a ∈ l.head?, q a = false := by
  obtain ⟨t, rfl⟩ := hl
  intro a ha
  cases l with
  | nil => simp at ha
  | cons b l => exact h a (by simpa using ha)

theorem suffix_last {l' : List α} (hl : l <:+ l') (h : ∀ a ∈ l'.getLast?, q a = false) :
    ∀ a ∈ l.getLast?, q a = false := by
  obtain ⟨t, rfl⟩ := hl
  intro a ha
  apply h
  rw [Option.mem_def] at ha ⊢
  rw [List.getLast?_append, ha]
  rfl

theorem bare_strip (p : α → Bool) (l : List α) : Bare p (strip p l) where
  head := prefix_head (List.rdropWhile_prefix p _) (head_dropWhile p l)
  last := last_rdropWhile p _

theorem Bare.strip (h : Bare p l) : strip p l = l := by
  unfold Fields.strip
  rw [dropWhile_of_head h.head, rdropWhile_of_last h.last]

theorem Bare.mono (h : Bare q l) (hpq : ∀ a, p a = true → q a = true) :
    Bare p l where
  head a ha := by
    have hq := h.head a ha
    grind
  last a ha := by
    have hq := h.last a ha
    grind

variable {a : α}

theorem mem_of_mem_strip (h : a ∈ strip p l) : a ∈ l :=
  (List.dropWhile_sublist p).mem ((List.rdropWhile_prefix p _).mem h)

theorem rdropWhile_append (p : α → Bool) (l₁ l₂ : List α) :
    (l₁ ++ l₂).rdropWhile p =
      if (l₂.rdropWhile p).isEmpty then l₁.rdropWhile p else l₁ ++ l₂.rdropWhile p := by
  unfold List.rdropWhile
  rw [List.reverse_append, List.dropWhile_append, List.isEmpty_reverse]
  split <;> simp

theorem rdropWhile_cons_of_neg (h : p a = false) (l : List α) :
    (a :: l).rdropWhile p = a :: l.rdropWhile p := by
  have happ := rdropWhile_append p [a] l
  rw [List.rdropWhile_singleton, h] at happ
  by_cases he : (l.rdropWhile p).isEmpty
  · rw [if_pos he] at happ
    rw [List.isEmpty_iff.1 he]
    exact happ
  · rw [if_neg he] at happ
    exact happ

theorem rdropWhile_append_cons (h : p a = false) (l₁ l₂ : List α) :
    (l₁ ++ a :: l₂).rdropWhile p = l₁ ++ a :: l₂.rdropWhile p := by
  rw [rdropWhile_append, rdropWhile_cons_of_neg h, if_neg (by simp)]

theorem cons_intercalate (s t : List α) (ts : List (List α)) (a : α) :
    s.intercalate ((a :: t) :: ts) = a :: s.intercalate (t :: ts) := by
  cases ts with
  | nil => simp
  | cons u us => simp [List.intercalate_cons_cons]

variable {ts : List (List α)}

theorem intercalate_nil (ls : List (List α)) : ([] : List α).intercalate ls = ls.flatten := by
  induction ls with
  | nil => rfl
  | cons l ls ih =>
    cases ls with
    | nil => simp
    | cons m ls => rw [List.intercalate_cons_cons, ih, List.append_nil, ← List.flatten_cons]

theorem intercalate_concat (s : List α) (hne : ts ≠ []) (u : List α) :
    s.intercalate (ts ++ [u]) = s.intercalate ts ++ s ++ u := by
  induction ts with
  | nil => exact absurd rfl hne
  | cons t ts ih =>
    cases ts with
    | nil => simp [List.intercalate_cons_cons]
    | cons v vs =>
      rw [List.cons_append, List.cons_append, List.intercalate_cons_cons, ← List.cons_append,
        ih (by simp), List.intercalate_cons_cons]
      simp

def trimInner (pad : α → Bool) : List α → List (List α) → List (List α)
  | x, [] => [x]
  | x, y :: ys => x.rdropWhile pad :: trimInner pad (y.dropWhile pad) ys

variable {u x : List α} {xs : List (List α)} {pad : α → Bool}

theorem mem_trimInner (h : u ∈ trimInner pad x xs) : ∃ v ∈ x :: xs, ∀ a ∈ u, a ∈ v := by
  induction xs generalizing x with
  | nil => exact ⟨x, by simp, fun a ha => by rwa [List.mem_singleton.1 h] at ha⟩
  | cons y ys ih =>
    rcases List.mem_cons.1 h with rfl | h
    · exact ⟨x, by simp, fun a ha => (List.rdropWhile_prefix pad x).mem ha⟩
    · obtain ⟨v, hv, hsub⟩ := ih h
      rcases List.mem_cons.1 hv with rfl | hv
      · exact ⟨y, by simp, fun a ha => (List.dropWhile_sublist pad).mem (hsub a ha)⟩
      · exact ⟨v, by simp [hv], hsub⟩

theorem head_of_mem_trimInner (hx : ∀ a ∈ x.head?, pad a = false) (h : u ∈ trimInner pad x xs) :
    ∀ a ∈ u.head?, pad a = false := by
  induction xs generalizing x with
  | nil =>
    rw [List.mem_singleton.1 h]
    exact hx
  | cons y ys ih =>
    rcases List.mem_cons.1 h with rfl | h
    · exact prefix_head (List.rdropWhile_prefix pad x) hx
    · exact ih (head_dropWhile pad y) h

theorem last_of_mem_trimInner
    (hlast : ∀ a ∈ ((x :: xs).getLast (by simp)).getLast?, pad a = false)
    (h : u ∈ trimInner pad x xs) : ∀ a ∈ u.getLast?, pad a = false := by
  induction xs generalizing x with
  | nil =>
    rw [List.mem_singleton.1 h]
    exact hlast
  | cons y ys ih =>
    rcases List.mem_cons.1 h with rfl | h
    · exact last_rdropWhile pad x
    · apply ih _ h
      cases ys with
      | nil => exact suffix_last (List.dropWhile_suffix pad) hlast
      | cons z zs => exact hlast

variable {blank : α}

theorem trimInner_blank (hpad : pad blank = true) {t : List α} (hts : ∀ u ∈ t :: ts, Bare pad u)
    (w : List α) : trimInner pad t (ts.map (blank :: ·) ++ [w]) = t :: ts ++ [w.dropWhile pad] := by
  induction ts generalizing t with
  | nil => simp [trimInner, rdropWhile_of_last (hts t (by simp)).last]
  | cons u us ih =>
    have hu : (blank :: u).dropWhile pad = u := by
      rw [List.dropWhile_cons, if_pos hpad]
      exact dropWhile_of_head (hts u (by simp)).head
    simp only [List.map_cons, List.cons_append, trimInner, hu,
      rdropWhile_of_last (hts t (by simp)).last]
    rw [ih (fun v hv => hts v (by simp [hv]))]
    rfl

section Separated

variable [DecidableEq α] (sep : α) (pad : α → Bool)

def split (l : List α) : List (List α) :=
  match l.splitOn sep with
  | [] => []
  | x :: xs => trimInner pad x xs

variable {sep pad} {blank : α}

theorem splitOn_cases (sep : α) (l : List α) :
    (sep ∉ l ∧ l.splitOn sep = [l]) ∨
      ∃ a b, sep ∉ a ∧ l = a ++ sep :: b ∧ l.splitOn sep = a :: b.splitOn sep := by
  by_cases h : sep ∈ l
  · obtain ⟨a, b, rfl, ha⟩ := List.eq_append_cons_of_mem h
    exact .inr ⟨a, b, ha, rfl, List.splitOn_append_cons_self_of_not_mem ha b⟩
  · exact .inl ⟨h, List.splitOn_eq_singleton h⟩

theorem splitOn_spec (sep : α) (l : List α) : ∃ x xs, l.splitOn sep = x :: xs ∧ x <+: l ∧
    (x :: xs).getLast (by simp) <:+ l ∧ ∀ u ∈ x :: xs, sep ∉ u ∧ ∀ a ∈ u, a ∈ l := by
  induction hn : l.length using Nat.strongRecOn generalizing l with
  | ind n ih =>
    rcases splitOn_cases sep l with ⟨hl, heq⟩ | ⟨a, b, ha, rfl, heq⟩
    · refine ⟨l, [], heq, List.prefix_refl l, List.suffix_refl l, ?_⟩
      intro u hu
      rw [List.mem_singleton.1 hu]
      exact ⟨hl, fun a ha => ha⟩
    · obtain ⟨x, xs, hb, -, hlast, hmem⟩ := ih b.length (by simp at hn; omega) b rfl
      rw [hb] at heq
      refine ⟨a, x :: xs, heq, List.prefix_append a _, ?_, ?_⟩
      · rw [List.getLast_cons (by simp)]
        exact hlast.trans ((List.suffix_cons sep b).trans (List.suffix_append a _))
      · intro u hu
        rcases List.mem_cons.1 hu with rfl | hu
        · exact ⟨ha, fun c hc => by simp [hc]⟩
        · exact ⟨(hmem u hu).1, fun c hc => by simp [(hmem u hu).2 c hc]⟩

theorem mem_splitOn_or (sep : α) (h : a ∈ l) : a = sep ∨ ∃ u ∈ l.splitOn sep, a ∈ u := by
  induction hn : l.length using Nat.strongRecOn generalizing l with
  | ind n ih =>
    rcases splitOn_cases sep l with ⟨-, heq⟩ | ⟨x, b, -, rfl, heq⟩
    · exact .inr ⟨l, by simp [heq], h⟩
    · rw [heq]
      rcases List.mem_append.1 h with h | h
      · exact .inr ⟨x, by simp, h⟩
      · rcases List.mem_cons.1 h with h | h
        · exact .inl h
        · have hlen : b.length < n := by
            simp only [List.length_append, List.length_cons] at hn
            omega
          exact (ih b.length hlen h rfl).imp_right fun ⟨u, hu, hau⟩ => ⟨u, by simp [hu], hau⟩

theorem mem_split (h : u ∈ split sep pad l) : sep ∉ u ∧ ∀ a ∈ u, a ∈ l := by
  obtain ⟨x, xs, heq, -, -, hmem⟩ := splitOn_spec sep l
  unfold split at h
  rw [heq] at h
  obtain ⟨v, hv, hsub⟩ := mem_trimInner h
  exact ⟨fun hs => (hmem v hv).1 (hsub sep hs), fun a ha => (hmem v hv).2 a (hsub a ha)⟩

theorem bare_of_mem_split (hl : Bare pad l) (h : u ∈ split sep pad l) : Bare pad u := by
  obtain ⟨x, xs, heq, hx, hlast, -⟩ := splitOn_spec sep l
  unfold split at h
  rw [heq] at h
  exact ⟨head_of_mem_trimInner (prefix_head hx hl.head) h,
    last_of_mem_trimInner (suffix_last hlast hl.last) h⟩

theorem splitOn_join_append (hblank : blank ≠ sep) {t : List α} (hts : ∀ u ∈ t :: ts, sep ∉ u)
    {w : List α} (hw : sep ∉ w) :
    ([sep, blank].intercalate (t :: ts) ++ sep :: w).splitOn sep =
      t :: (ts.map (blank :: ·) ++ [w]) := by
  induction ts generalizing t with
  | nil =>
    rw [List.intercalate_singleton, List.splitOn_append_cons_self_of_not_mem (hts t (by simp)),
      List.splitOn_eq_singleton hw]
    rfl
  | cons u us ih =>
    -- the blank after the separator counts as the first character of the next field
    have hrest : [sep, blank].intercalate (t :: u :: us) ++ sep :: w =
        t ++ sep :: ([sep, blank].intercalate ((blank :: u) :: us) ++ sep :: w) := by
      rw [cons_intercalate, List.intercalate_cons_cons]
      simp
    have hsep : ∀ v ∈ (blank :: u) :: us, sep ∉ v := by
      intro v hv
      rcases List.mem_cons.1 hv with rfl | hv
      · have hu := hts u (by simp)
        simp [hu, hblank.symm]
      · exact hts v (by simp [hv])
    rw [hrest, List.splitOn_append_cons_self_of_not_mem (hts t (by simp)), ih hsep]
    rfl

theorem split_join_append (hblank : blank ≠ sep) (hpad : pad blank = true) (hne : ts ≠ [])
    (hts : ∀ u ∈ ts, sep ∉ u) (hbare : ∀ u ∈ ts, Bare pad u) {w : List α} (hw : sep ∉ w) :
    split sep pad ([sep, blank].intercalate ts ++ sep :: w) = ts ++ [w.dropWhile pad] := by
  obtain ⟨t, ts, rfl⟩ := List.exists_cons_of_ne_nil hne
  unfold split
  rw [splitOn_join_append hblank hts hw]
  exact trimInner_blank hpad hbare w

end Separated

/-- No padding but at the two outer ends. -/
def Tight (pad : α → Bool) (fs : List (List α)) : Prop :=
  fs.Pairwise fun x y => (∀ a ∈ x.getLast?, pad a = false) ∧ ∀ a ∈ y.head?, pad a = false

def trim (pad : α → Bool) : List (List α) → List (List α)
  | [] => []
  | x :: xs => trimInner pad x xs

variable {sep : α} {r : List α}

section Tight

variable {pad : α → Bool} {fs : List (List α)}

theorem tight_of_bare (h : ∀ u ∈ fs, Bare pad u) : Tight pad fs :=
  List.pairwise_of_forall_mem_list fun x hx y hy => ⟨(h x hx).last, (h y hy).head⟩

theorem tight_trimInner (x : List α) (xs : List (List α)) : Tight pad (trimInner pad x xs) := by
  induction xs generalizing x with
  | nil => exact List.pairwise_singleton _ x
  | cons y ys ih =>
    refine List.pairwise_cons.2 ⟨?_, ih (y.dropWhile pad)⟩
    intro u hu
    exact ⟨last_rdropWhile pad x, head_of_mem_trimInner (head_dropWhile pad y) hu⟩

theorem tight_trim (pad : α → Bool) (fs : List (List α)) : Tight pad (trim pad fs) := by
  cases fs with
  | nil => exact List.Pairwise.nil
  | cons x xs => exact tight_trimInner x xs

theorem Tight.trim_eq (h : Tight pad fs) : trim pad fs = fs := by
  cases fs with
  | nil => rfl
  | cons x xs =>
    show trimInner pad x xs = x :: xs
    induction xs generalizing x with
    | nil => rfl
    | cons y ys ih =>
      obtain ⟨hx, htail⟩ := List.pairwise_cons.1 h
      have hxy := hx y List.mem_cons_self
      show x.rdropWhile pad :: trimInner pad (y.dropWhile pad) ys = _
      rw [rdropWhile_of_last hxy.1, dropWhile_of_head hxy.2, ih y htail]

theorem last_of_mem_trim (hlast : ∀ v ∈ fs.getLast?, ∀ a ∈ v.getLast?, pad a = false)
    (h : u ∈ trim pad fs) : ∀ a ∈ u.getLast?, pad a = false := by
  cases fs with
  | nil => cases h
  | cons x xs => exact last_of_mem_trimInner (hlast _ (List.getLast?_eq_getLast_of_ne_nil _)) h

theorem Tight.replace {before after us : List (List α)} (h : Tight pad (before ++ u :: after))
    (hus : ∀ v ∈ us, Bare pad v) : Tight pad (before ++ us ++ after) := by
  obtain ⟨hbefore, htail, hcross⟩ := List.pairwise_append.1 h
  obtain ⟨hafter, htail⟩ := List.pairwise_cons.1 htail
  have hleft : ∀ x ∈ before, ∀ a ∈ x.getLast?, pad a = false :=
    fun x hx => (hcross x hx u List.mem_cons_self).1
  refine List.pairwise_append.2 ⟨List.pairwise_append.2 ⟨hbefore, tight_of_bare hus, ?_⟩, htail, ?_⟩
  · exact fun x hx v hv => ⟨hleft x hx, (hus v hv).head⟩
  · intro x hx y hy
    refine ⟨?_, (hafter y hy).2⟩
    exact (List.mem_append.1 hx).elim (hleft x) fun hx => (hus x hx).last

theorem mem_trim_of_bare (hu : u ∈ fs) (hbare : Bare pad u) : u ∈ trim pad fs := by
  cases fs with
  | nil => cases hu
  | cons x xs =>
    show u ∈ trimInner pad x xs
    induction xs generalizing x with
    | nil => exact hu
    | cons y ys ih =>
      show u ∈ x.rdropWhile pad :: trimInner pad (y.dropWhile pad) ys
      rcases List.mem_cons.1 hu with rfl | hu
      · rw [rdropWhile_of_last hbare.last]
        exact List.mem_cons_self
      · refine List.mem_cons_of_mem _ (ih _ ?_)
        rcases List.mem_cons.1 hu with rfl | hu
        · rw [dropWhile_of_head hbare.head]
          exact List.mem_cons_self
        · exact List.mem_cons_of_mem _ hu

theorem trimInner_unpadded {rs : List (List α)} (h : ∀ u ∈ r :: rs, ∀ a ∈ u.getLast?, pad a = false) :
    trimInner pad (r.dropWhile pad) rs = (r :: rs).map (List.dropWhile pad) := by
  induction rs generalizing r with
  | nil => rfl
  | cons s rs ih =>
    have hr : ∀ a ∈ (r.dropWhile pad).getLast?, pad a = false :=
      suffix_last (List.dropWhile_suffix pad) (h r List.mem_cons_self)
    show (r.dropWhile pad).rdropWhile pad :: trimInner pad (s.dropWhile pad) rs = _
    rw [rdropWhile_of_last hr, ih fun u hu => h u (List.mem_cons_of_mem _ hu)]
    rfl

theorem trim_append {init : List (List α)} {z : List α} {rs : List (List α)}
    (h : Tight pad (init ++ [z])) (hrs : ∀ u ∈ r :: rs, ∀ a ∈ u.getLast?, pad a = false) :
    trim pad (init ++ z :: r :: rs) =
      init ++ z.rdropWhile pad :: (r :: rs).map (List.dropWhile pad) := by
  induction init with
  | nil =>
    show z.rdropWhile pad :: trimInner pad (r.dropWhile pad) rs = _
    rw [trimInner_unpadded hrs]
    rfl
  | cons x init ih =>
    obtain ⟨hx, htail⟩ := List.pairwise_cons.1 h
    have ih := ih htail
    cases init with
    | nil =>
      have hxz := hx z List.mem_cons_self
      show x.rdropWhile pad :: trimInner pad (z.dropWhile pad) (r :: rs) = _
      rw [rdropWhile_of_last hxz.1, dropWhile_of_head hxz.2]
      exact congrArg (x :: ·) ih
    | cons y init =>
      have hxy := hx y List.mem_cons_self
      show x.rdropWhile pad :: trimInner pad (y.dropWhile pad) (init ++ z :: r :: rs) = _
      rw [rdropWhile_of_last hxy.1, dropWhile_of_head hxy.2]
      exact congrArg (x :: ·) ih

theorem trimInner_map_blank (hpad : pad blank = true) (x : List α) (xs : List (List α)) :
    trimInner pad x (xs.map (blank :: ·)) = trimInner pad x xs := by
  induction xs generalizing x with
  | nil => rfl
  | cons y ys ih =>
    have hy : (blank :: y).dropWhile pad = y.dropWhile pad := List.dropWhile_cons_of_pos hpad
    show x.rdropWhile pad :: trimInner pad ((blank :: y).dropWhile pad) (ys.map (blank :: ·)) = _
    rw [hy, ih]
    rfl

variable [DecidableEq α]

theorem split_eq_trim (sep : α) (pad : α → Bool) (l : List α) :
    split sep pad l = trim pad (l.splitOn sep) := by
  unfold split
  cases l.splitOn sep <;> rfl

theorem split_intercalate (hblank : blank ≠ sep) (hpad : pad blank = true) (hne : fs ≠ [])
    (hsep : ∀ u ∈ fs, sep ∉ u) : split sep pad ([sep, blank].intercalate fs) = trim pad fs := by
  obtain ⟨x, xs, rfl⟩ := List.exists_cons_of_ne_nil hne
  have hcut : ([sep, blank].intercalate (x :: xs)).splitOn sep = x :: xs.map (blank :: ·) := by
    rcases List.eq_nil_or_concat xs with rfl | ⟨init, z, rfl⟩
    · rw [List.intercalate_singleton, List.splitOn_eq_singleton (hsep x List.mem_cons_self)]
      rfl
    · rw [List.concat_eq_append] at hsep ⊢
      have hz : sep ∉ blank :: z := by
        have hz := hsep z (by simp)
        simp [hz, hblank.symm]
      rw [← List.cons_append, intercalate_concat _ (by simp), List.append_assoc]
      show ([sep, blank].intercalate (x :: init) ++ sep :: blank :: z).splitOn sep = _
      rw [splitOn_join_append hblank (fun u hu => hsep u (by simp at hu ⊢; tauto)) hz]
      simp
  rw [split_eq_trim, hcut]
  exact trimInner_map_blank hpad x xs

end Tight

theorem splitOn_intercalate [DecidableEq α] {cols : List (List α)} (h : cols ≠ []) :
    ([sep].intercalate cols).splitOn sep = cols.flatMap (·.splitOn sep) := by
  induction cols with
  | nil => exact absurd rfl h
  | cons col cols ih =>
    cases cols with
    | nil => simp
    | cons next cols =>
      rw [List.intercalate_cons_cons, List.append_assoc, List.singleton_append,
        List.splitOn_append_cons_self, ih (by simp)]
      exact List.flatMap_cons.symm

theorem length_le_length_splitOn [DecidableEq α] (sep : α) (cols : List (List α)) :
    cols.length ≤ (cols.flatMap (·.splitOn sep)).length := by
  induction cols with
  | nil => simp
  | cons col cols ih =>
    obtain ⟨x, xs, heq, -⟩ := splitOn_spec sep col
    rw [List.flatMap_cons, heq, List.length_append, List.length_cons, List.length_cons]
    omega

theorem splitOn_terminated [DecidableEq α] {c : α} {ls : List (List α)} (h : ∀ l ∈ ls, c ∉ l) :
    (ls.flatMap (· ++ [c])).splitOn c = ls ++ [[]] := by
  induction ls with
  | nil => rfl
  | cons l ls ih =>
    rw [List.forall_mem_cons] at h
    rw [List.flatMap_cons, List.append_assoc, List.singleton_append,
      List.splitOn_append_cons_self_of_not_mem h.1, ih h.2, List.cons_append]

-- What ends in the separator is made of such parts.
theorem exists_terminated [DecidableEq α] {c : α} (h : ∀ a ∈ l.getLast?, a = c) :
    ∃ ls : List (List α), (∀ x ∈ ls, c ∉ x) ∧ l = ls.flatMap (· ++ [c]) := by
  induction l with
  | nil => exact ⟨[], fun x hx => absurd hx List.not_mem_nil, rfl⟩
  | cons a l ih =>
    have htail : ∀ b ∈ l.getLast?, b = c := by
      intro b hb
      apply h
      rw [List.getLast?_cons, Option.mem_def.1 hb]
      rfl
    obtain ⟨ls, hls, rfl⟩ := ih htail
    by_cases hac : a = c
    · subst hac
      exact ⟨[] :: ls, List.forall_mem_cons.2 ⟨List.not_mem_nil, hls⟩, rfl⟩
    · cases ls with
      | nil => exact absurd (h a rfl) hac
      | cons x xs =>
        obtain ⟨hx, hxs⟩ := List.forall_mem_cons.1 hls
        refine ⟨(a :: x) :: xs, List.forall_mem_cons.2 ⟨?_, hxs⟩, rfl⟩
        rw [List.mem_cons, not_or]
        exact ⟨fun hca => hac hca.symm, hx⟩

theorem mem_intercalate {sep : List α} {ls : List (List α)} (h : a ∈ sep.intercalate ls) :
    a ∈ sep ∨ ∃ l ∈ ls, a ∈ l := by
  induction ls with
  | nil => cases h
  | cons l ls ih =>
    cases ls with
    | nil =>
      rw [List.intercalate_singleton] at h
      exact .inr ⟨l, List.mem_cons_self, h⟩
    | cons r ls =>
      rw [List.intercalate_cons_cons, List.mem_append, List.mem_append] at h
      rcases h with (h | h) | h
      · exact .inr ⟨l, List.mem_cons_self, h⟩
      · exact .inl h
      · obtain h | ⟨t, ht, h⟩ := ih h
        · exact .inl h
        · exact .inr ⟨t, List.mem_cons_of_mem l ht, h⟩

/-- What acts on every part of a list acts on every value joined in it. -/
theorem apply_intercalate {β : Type*} {f : List α → List β} (hnil : f [] = [])
    (happend : ∀ l r, f (l ++ r) = f l ++ f r) (sep : List α) (ls : List (List α)) :
    f (sep.intercalate ls) = (f sep).intercalate (ls.map f) := by
  induction ls with
  | nil => exact hnil
  | cons l ls ih =>
    cases ls with
    | nil => rw [List.intercalate_singleton, List.map_singleton, List.intercalate_singleton]
    | cons r ls =>
      simp only [List.map_cons] at ih ⊢
      rw [List.intercalate_cons_cons, List.intercalate_cons_cons, happend, happend, ih]

section Cut

variable [DecidableEq α]

theorem bne_of_notMem (h : sep ∉ l) : ∀ a ∈ l, (a != sep) = true := by
  intro a ha
  rw [bne_iff_ne]
  rintro rfl
  exact h ha

theorem takeWhile_append_cons (h : sep ∉ l) (r : List α) :
    (l ++ sep :: r).takeWhile (· != sep) = l := by
  rw [List.takeWhile_append_of_pos (bne_of_notMem h), List.takeWhile_cons_of_neg (by simp),
    List.append_nil]

theorem dropWhile_append_cons (h : sep ∉ l) (r : List α) :
    (l ++ sep :: r).dropWhile (· != sep) = sep :: r := by
  rw [List.dropWhile_append_of_pos (bne_of_notMem h), List.dropWhile_cons_of_neg (by simp)]

def cutLast (sep : α) (l : List α) : Option (List α × List α) :=
  if sep ∈ l then some ((l.rdropWhile (· != sep)).dropLast, l.rtakeWhile (· != sep)) else none

theorem cutLast_append (h : sep ∉ r) (l : List α) : cutLast sep (l ++ sep :: r) = some (l, r) := by
  have hrev : (l ++ sep :: r).reverse = r.reverse ++ sep :: l.reverse := by simp
  have hmem : sep ∉ r.reverse := by rwa [List.mem_reverse]
  unfold cutLast List.rdropWhile List.rtakeWhile
  rw [if_pos (by simp), hrev, takeWhile_append_cons hmem, dropWhile_append_cons hmem]
  simp

end Cut

/-- The elements before the first header, and each header with the elements under it. -/
def cut (header : α → Bool) : List α → List α × List (α × List α)
  | [] => ([], [])
  | a :: l =>
    if header a then ([], (a, (cut header l).1) :: (cut header l).2)
    else (a :: (cut header l).1, (cut header l).2)

theorem cut_join (header : α → Bool) (l : List α) :
    (cut header l).1 ++ (cut header l).2.flatMap (fun b => b.1 :: b.2) = l := by
  induction l with
  | nil => rfl
  | cons a l ih =>
    rw [cut]
    split
    · rw [List.nil_append, List.flatMap_cons, List.cons_append, ih]
    · rw [List.cons_append, ih]

theorem cut_headers (header : α → Bool) (l : List α) : (∀ a ∈ (cut header l).1, header a = false) ∧
    ∀ b ∈ (cut header l).2, header b.1 = true ∧ ∀ a ∈ b.2, header a = false := by
  induction l with
  | nil => simp [cut]
  | cons a l ih =>
    rw [cut]
    split
    · next ha =>
      refine ⟨by simp, ?_⟩
      rw [List.forall_mem_cons]
      exact ⟨⟨ha, ih.1⟩, ih.2⟩
    · next ha =>
      refine ⟨?_, ih.2⟩
      rw [List.forall_mem_cons]
      exact ⟨eq_false_of_ne_true ha, ih.1⟩

theorem cut_append {header : α → Bool} (hl : ∀ a ∈ l, header a = false) (r : List α) :
    cut header (l ++ r) = (l ++ (cut header r).1, (cut header r).2) := by
  induction l with
  | nil => rfl
  | cons a l ih =>
    have ha := hl a (by simp)
    rw [List.cons_append, cut, if_neg (by simp [ha]), ih (fun b hb => hl b (by simp [hb]))]
    rfl

theorem cut_flatMap {header : α → Bool} {blocks : List (α × List α)}
    (h : ∀ b ∈ blocks, header b.1 = true ∧ ∀ a ∈ b.2, header a = false) :
    cut header (blocks.flatMap fun b => b.1 :: b.2) = ([], blocks) := by
  induction blocks with
  | nil => rfl
  | cons b blocks ih =>
    obtain ⟨hb, hlines⟩ := h b (by simp)
    rw [List.flatMap_cons, List.cons_append, cut, if_pos hb, cut_append hlines,
      ih (fun b' hb' => h b' (by simp [hb'])), List.append_nil]

end Fields
