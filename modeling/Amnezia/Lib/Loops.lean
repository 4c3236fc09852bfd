import Mathlib.Algebra.Group.Defs
import Mathlib.Data.List.Basic
import Mathlib.Data.List.Forall2
import Mathlib.Tactic.Common

/-!
# Loops — folds that can fail

A loop over a list whose body can throw is `List.foldlM` in `Except ε`.  A loop that ends without
an error has run its body on every element, so what each iteration keeps the loop keeps.
-/

namespace Loops

variable {σ α τ ε : Type}

variable {x : Except ε σ}

theorem bind_eq_ok {f : σ → Except ε τ} {b : τ} :
    (x >>= f) = .ok b ↔ ∃ a, x = .ok a ∧ f a = .ok b := by
  cases x with
  | error e => exact ⟨fun h => (by cases h), fun ⟨a, ha, _⟩ => (by cases ha)⟩
  | ok a =>
    constructor
    · intro h
      exact ⟨a, rfl, h⟩
    · rintro ⟨a', ha, h⟩
      cases ha
      exact h

theorem exists_ok_iff : (∃ a, x = .ok a) ↔ x.isOk = true := by
  cases x with
  | error e => exact ⟨fun ⟨a, ha⟩ => (by cases ha), fun h => (by cases h)⟩
  | ok a => exact ⟨fun _ => rfl, fun _ => ⟨a, rfl⟩⟩

theorem exists_bind_ok_iff {f : σ → Except ε τ} {ends : Prop}
    (h : ∀ a, x = .ok a → ((∃ b, f a = .ok b) ↔ ends)) :
    (∃ b, (x >>= f) = .ok b) ↔ (∃ a, x = .ok a) ∧ ends := by
  constructor
  · rintro ⟨b, hb⟩
    obtain ⟨a, ha, hb⟩ := bind_eq_ok.1 hb
    exact ⟨⟨a, ha⟩, (h a ha).1 ⟨b, hb⟩⟩
  · rintro ⟨⟨a, ha⟩, hends⟩
    obtain ⟨b, hb⟩ := (h a ha).2 hends
    exact ⟨b, bind_eq_ok.2 ⟨a, ha, hb⟩⟩

theorem ok_bind (a : σ) (f : σ → Except ε τ) : (Except.ok a >>= f) = f a := rfl

variable {step : σ → α → Except ε σ} {l : List α} {a : α} {s s' : σ}

theorem foldlM_cons_eq_ok :
    (a :: l).foldlM step s = .ok s' ↔ ∃ t, step s a = .ok t ∧ l.foldlM step t = .ok s' := by
  rw [List.foldlM_cons, bind_eq_ok]

theorem foldlM_append_eq_ok {l₁ l₂ : List α} :
    (l₁ ++ l₂).foldlM step s = .ok s' ↔
      ∃ t, l₁.foldlM step s = .ok t ∧ l₂.foldlM step t = .ok s' := by
  rw [List.foldlM_append, bind_eq_ok]

theorem exists_of_mem_mapM {f : α → Except ε τ} {bs : List τ} (h : l.mapM f = .ok bs) {b : τ}
    (hb : b ∈ bs) : ∃ a ∈ l, f a = .ok b := by
  induction l generalizing bs with
  | nil =>
    cases h
    cases hb
  | cons a l ih =>
    rw [List.mapM_cons] at h
    obtain ⟨c, hc, h⟩ := bind_eq_ok.1 h
    obtain ⟨cs, hcs, h⟩ := bind_eq_ok.1 h
    cases h
    cases hb with
    | head => exact ⟨a, List.mem_cons_self, hc⟩
    | tail _ hb =>
      obtain ⟨a', ha', heq⟩ := ih hcs hb
      exact ⟨a', List.mem_cons_of_mem a ha', heq⟩

theorem mapM_append_eq_ok {f : α → Except ε τ} {l₁ l₂ : List α} {bs : List τ} :
    (l₁ ++ l₂).mapM f = .ok bs ↔
      ∃ bs₁ bs₂, l₁.mapM f = .ok bs₁ ∧ l₂.mapM f = .ok bs₂ ∧ bs = bs₁ ++ bs₂ := by
  rw [List.mapM_append, bind_eq_ok]
  constructor
  · rintro ⟨bs₁, h₁, h⟩
    obtain ⟨bs₂, h₂, h⟩ := bind_eq_ok.1 h
    cases h
    exact ⟨bs₁, bs₂, h₁, h₂, rfl⟩
  · rintro ⟨bs₁, bs₂, h₁, h₂, rfl⟩
    refine ⟨bs₁, h₁, ?_⟩
    rw [h₂]
    rfl

theorem foldlM_invariant {inv : σ → Prop}
    (hstep : ∀ a ∈ l, ∀ t t', inv t → step t a = .ok t' → inv t') (hs : inv s)
    (h : l.foldlM step s = .ok s') : inv s' := by
  induction l generalizing s with
  | nil =>
    cases h
    exact hs
  | cons a l ih =>
    obtain ⟨t, ht, h⟩ := foldlM_cons_eq_ok.1 h
    exact ih (fun b hb => hstep b (by simp [hb])) (hstep a (by simp) s t hs ht) h

/-- A loop from a related state gives a related result, when each round does. -/
theorem foldlM_simulates {R : σ → σ → Prop}
    (hstep : ∀ a ∈ l, ∀ s t s', R s t → step s a = .ok s' → ∃ t', step t a = .ok t' ∧ R s' t')
    {t : σ} (h : R s t) (hfold : l.foldlM step s = .ok s') :
    ∃ t', l.foldlM step t = .ok t' ∧ R s' t' := by
  induction l generalizing s t with
  | nil =>
    cases hfold
    exact ⟨t, rfl, h⟩
  | cons a l ih =>
    obtain ⟨u, hu, hrest⟩ := foldlM_cons_eq_ok.1 hfold
    obtain ⟨v, hv, huv⟩ := hstep a List.mem_cons_self s t u h hu
    obtain ⟨t', ht', hR⟩ := ih (fun b hb => hstep b (List.mem_cons_of_mem _ hb)) huv hrest
    exact ⟨t', foldlM_cons_eq_ok.2 ⟨v, hv, ht'⟩, hR⟩

/-- A part of the state that every iteration changes in a way that does not depend on the rest. -/
theorem foldlM_view (view : σ → τ) (act : τ → α → τ)
    (hstep : ∀ t a t', step t a = .ok t' → view t' = act (view t) a) (h : l.foldlM step s = .ok s') :
    view s' = l.foldl act (view s) := by
  induction l generalizing s with
  | nil =>
    cases h
    rfl
  | cons a l ih =>
    obtain ⟨t, ht, h⟩ := foldlM_cons_eq_ok.1 h
    rw [ih h, hstep s a t ht]
    rfl

/-- A loop whose iterations all succeed, each changing only a part of the state. -/
theorem foldlM_eq_ok (state : τ → σ) {act : τ → α → τ}
    (hstep : ∀ t, ∀ a ∈ l, step (state t) a = .ok (state (act t a))) (t : τ) :
    l.foldlM step (state t) = .ok (state (l.foldl act t)) := by
  induction l generalizing t with
  | nil => rfl
  | cons a l ih =>
    rw [List.foldlM_cons, hstep t a List.mem_cons_self]
    exact ih (fun t b hb => hstep t b (List.mem_cons_of_mem _ hb)) (act t a)

theorem foldlM_gather (state : List α → σ)
    (hstep : ∀ done, ∀ a ∈ l, step (state done) a = .ok (state (done ++ [a]))) (done : List α) :
    l.foldlM step (state done) = .ok (state (done ++ l)) := by
  rw [foldlM_eq_ok state hstep, List.foldl_append_eq_append, ← List.flatMap_def, List.flatMap_singleton']

/-- A loop whose iterations can fail, each for itself: it ends without an error when no iteration
fails, in the state its iterations make. -/
theorem foldlM_eq_ok_iff {inv : σ → Prop} {accepts : α → Prop} {act : σ → α → σ}
    (hstep : ∀ a ∈ l, ∀ s s', inv s → (step s a = .ok s' ↔ accepts a ∧ s' = act s a))
    (hinv : ∀ a ∈ l, ∀ s, inv s → inv (act s a)) (hs : inv s) :
    l.foldlM step s = .ok s' ↔ (∀ a ∈ l, accepts a) ∧ s' = l.foldl act s := by
  induction l generalizing s with
  | nil =>
    show Except.ok s = .ok s' ↔ _
    simp [eq_comm]
  | cons a l ih =>
    have hrest := ih (fun b hb => hstep b (by simp [hb])) (fun b hb => hinv b (by simp [hb]))
      (hinv a (by simp) s hs)
    rw [foldlM_cons_eq_ok, List.forall_mem_cons, List.foldl_cons]
    constructor
    · rintro ⟨t, ht, h⟩
      obtain ⟨ha, rfl⟩ := (hstep a (by simp) s t hs).1 ht
      exact ⟨⟨ha, (hrest.1 h).1⟩, (hrest.1 h).2⟩
    · rintro ⟨⟨ha, hl⟩, hs'⟩
      exact ⟨act s a, (hstep a (by simp) s _ hs).2 ⟨ha, rfl⟩, hrest.2 ⟨hl, hs'⟩⟩

/-- A part of the state that only one element changes, which stands at most once in the list. -/
theorem foldl_component [DecidableEq α] (get : σ → τ) (change : τ → τ) (inv : σ → Prop)
    {act : σ → α → σ} (hinv : ∀ b ∈ l, ∀ s, inv s → inv (act s b))
    (hact : a ∈ l → ∀ s, inv s → get (act s a) = change (get s))
    (hframe : ∀ b ∈ l, b ≠ a → ∀ s, inv s → get (act s b) = get s) (hl : l.Nodup) (hs : inv s) :
    get (l.foldl act s) = if a ∈ l then change (get s) else get s := by
  induction l generalizing s with
  | nil => rfl
  | cons b l ih =>
    rw [List.nodup_cons] at hl
    have hrest := ih (fun c hc => hinv c (by simp [hc])) (fun hmem => hact (by simp [hmem]))
      (fun c hc => hframe c (by simp [hc])) hl.2 (hinv b (by simp) s hs)
    rw [List.foldl_cons, hrest]
    by_cases hb : b = a
    · subst hb
      rw [if_neg hl.1, if_pos (by simp), hact (by simp) s hs]
    · have hmem : a ∈ b :: l ↔ a ∈ l := by
        rw [List.mem_cons]
        exact or_iff_right fun h => hb h.symm
      simp only [hmem, hframe b (by simp) hb s hs]

theorem findSome?_filter {p : α → Bool} {f g : α → Option τ}
    (h : ∀ a ∈ l, f a = if p a then g a else none) : l.findSome? f = (l.filter p).findSome? g := by
  induction l with
  | nil => rfl
  | cons a l ih =>
    have hrest := ih fun b hb => h b (by simp [hb])
    rw [List.findSome?_cons, h a (by simp), hrest]
    cases hp : p a with
    | true => rw [List.filter_cons_of_pos hp, List.findSome?_cons, if_pos rfl]
    | false => rw [List.filter_cons_of_neg (by simp [hp])]; rfl

/-! At most one element of a list meets `p`. -/

section AtMostOne

variable {p : α → Bool} {l : List α}

-- the elements after the one that is found do not meet `p`
theorem atMostOne_cons (h : ((a :: l).filter p).length ≤ 1) (ha : p a = true) :
    ∀ b ∈ l, p b = false := by
  rw [List.filter_cons_of_pos ha, List.length_cons] at h
  have hnil : l.filter p = [] := List.eq_nil_of_length_eq_zero (by omega)
  intro b hb
  exact Bool.eq_false_iff.mpr (List.filter_eq_nil_iff.mp hnil b hb)

theorem atMostOne_tail (h : ((a :: l).filter p).length ≤ 1) : (l.filter p).length ≤ 1 :=
  Nat.le_trans ((List.sublist_cons_self a l).filter p).length_le h

theorem eq_of_atMostOne (h : (l.filter p).length ≤ 1) {b : α} (ha : l.find? p = some a) (hb : b ∈ l)
    (hpb : p b = true) : b = a := by
  rw [← List.head?_filter] at ha
  have hmem : b ∈ l.filter p := List.mem_filter.mpr ⟨hb, hpb⟩
  match hfilter : l.filter p with
  | [] => rw [hfilter] at hmem; cases hmem
  | [c] =>
    rw [hfilter] at ha hmem
    cases ha
    exact List.mem_singleton.mp hmem
  | _ :: _ :: _ => rw [hfilter] at h; simp at h

theorem foldl_of_forall_not {step : σ → α → σ} {get : σ → τ} {value : α → τ}
    (hstep : ∀ s a, get (step s a) = if p a then value a else get s)
    (h : ∀ a ∈ l, p a = false) (s : σ) : get (l.foldl step s) = get s := by
  induction l generalizing s with
  | nil => rfl
  | cons a l ih =>
    rw [List.foldl_cons, ih (fun b hb => h b (List.mem_cons_of_mem a hb)), hstep,
      h a List.mem_cons_self]
    rfl

theorem foldl_of_atMostOne {step : σ → α → σ} {get : σ → τ} {value : α → τ}
    (hstep : ∀ s a, get (step s a) = if p a then value a else get s)
    (h : (l.filter p).length ≤ 1) (s : σ) :
    get (l.foldl step s) = ((l.find? p).map value).getD (get s) := by
  induction l generalizing s with
  | nil => rfl
  | cons a l ih =>
    rw [List.foldl_cons, List.find?_cons]
    cases ha : p a with
    | true =>
      rw [foldl_of_forall_not hstep (atMostOne_cons h ha), hstep, ha]
      rfl
    | false =>
      rw [ih (atMostOne_tail h), hstep, ha]
      rfl

theorem sum_of_forall_not {M : Type} [AddMonoid M] (value : α → M) (h : ∀ a ∈ l, p a = false) :
    (l.map fun a => if p a then value a else 0).sum = 0 := by
  induction l with
  | nil => rfl
  | cons a l ih =>
    rw [List.map_cons, List.sum_cons, ih fun b hb => h b (List.mem_cons_of_mem a hb),
      h a List.mem_cons_self]
    exact add_zero 0

theorem sum_of_atMostOne {M : Type} [AddMonoid M] (value : α → M) (h : (l.filter p).length ≤ 1) :
    (l.map fun a => if p a then value a else 0).sum = ((l.find? p).map value).getD 0 := by
  induction l with
  | nil => rfl
  | cons a l ih =>
    rw [List.map_cons, List.sum_cons, List.find?_cons]
    cases ha : p a with
    | true =>
      rw [sum_of_forall_not value (atMostOne_cons h ha)]
      exact add_zero _
    | false =>
      rw [ih (atMostOne_tail h)]
      exact zero_add _

end AtMostOne

theorem eq_ok_of_toOption {ε : Type} {r : Except ε α} (h : r.toOption = some a) : r = .ok a := by
  cases r with
  | error e => cases h
  | ok b =>
    cases h
    rfl

theorem exists_first {p : α → Prop} (h : ¬ ∀ a ∈ l, p a) :
    ∃ pre a post, l = pre ++ a :: post ∧ (∀ b ∈ pre, p b) ∧ ¬ p a := by
  induction l with
  | nil => exact absurd (fun a ha => absurd ha List.not_mem_nil) h
  | cons b l ih =>
    by_cases hb : p b
    · obtain ⟨pre, a, post, rfl, hpre, ha⟩ := ih fun hl => h (List.forall_mem_cons.2 ⟨hb, hl⟩)
      exact ⟨b :: pre, a, post, rfl, List.forall_mem_cons.2 ⟨hb, hpre⟩, ha⟩
    · exact ⟨[], b, l, rfl, fun _ h => absurd h List.not_mem_nil, hb⟩

theorem forall₂_iff_forall {R S : σ → α → Prop} {p : α → Prop} {l : List σ} {u : List α}
    (h : List.Forall₂ R l u) (hp : ∀ a b, R a b → (S a b ↔ p b)) :
    List.Forall₂ S l u ↔ ∀ b ∈ u, p b := by
  induction h with
  | nil => simp
  | cons hab _ ih => rw [List.forall₂_cons, List.forall_mem_cons, hp _ _ hab, ih]

theorem append_eq_append_cons {r pre post : List α} (h : l ++ r = pre ++ a :: post) :
    (∃ mid, l = pre ++ a :: mid) ∨ ∃ mid, pre = l ++ mid ∧ r = mid ++ a :: post := by
  rcases List.append_eq_append_iff.1 h with ⟨mid, hpre, hr⟩ | ⟨mid, hl, hpost⟩
  · exact .inr ⟨mid, hpre, hr⟩
  · cases mid with
    | nil =>
      rw [List.append_nil] at hl
      exact .inr ⟨[], by rw [hl, List.append_nil], hpost.symm⟩
    | cons b mid =>
      rw [List.cons_append, List.cons.injEq] at hpost
      exact .inl ⟨mid, by rw [hl, hpost.1]⟩

theorem flatMap_eq_append_cons {f : σ → List α} {ls : List σ} {pre post : List α}
    (h : ls.flatMap f = pre ++ a :: post) :
    ∃ ls₁ l ls₂ mid rest, ls = ls₁ ++ l :: ls₂ ∧ pre = ls₁.flatMap f ++ mid ∧
      f l = mid ++ a :: rest := by
  induction ls generalizing pre with
  | nil => simp at h
  | cons l ls ih =>
    rw [List.flatMap_cons] at h
    rcases append_eq_append_cons h with ⟨mid, hl⟩ | ⟨mid, hpre, hls⟩
    · exact ⟨[], l, ls, pre, mid, rfl, rfl, hl⟩
    · obtain ⟨ls₁, l', ls₂, mid', rest, rfl, hmid, hl'⟩ := ih hls
      refine ⟨l :: ls₁, l', ls₂, mid', rest, rfl, ?_, hl'⟩
      rw [hpre, hmid, List.flatMap_cons, List.append_assoc]

/-- A relation between states that composes along a list. -/
structure Chains (R : σ → List α → σ → Prop) : Prop where
  nil : ∀ s, R s [] s
  append : ∀ {s s' s'' l l'}, R s l s' → R s' l' s'' → R s (l ++ l') s''

section Chains

variable {R : σ → List α → σ → Prop} (hR : Chains R)

include hR

theorem Chains.option {value : Option τ} {item : τ → α} (state : Option τ → σ)
    (h : ∀ a ∈ value, R (state none) [item a] (state (some a))) :
    R (state none) (value.toList.map item) (state value) := by
  cases value with
  | none => exact hR.nil _
  | some a => exact h a rfl

theorem Chains.family {P : Type} [DecidableEq P] {all : List P} (hall : ∀ p, p ∈ all)
    {value : P → Option τ} {item : P → τ → α} (state : (P → Option τ) → σ)
    (h : ∀ u p, ∀ a ∈ value p, R (state u) [item p a] (state (Function.update u p (some a)))) :
    R (state fun _ => none) (all.flatMap fun p => (value p).toList.map (item p)) (state value) := by
  -- after some of the family, these have their values and the others what they had
  have hrun : ∀ (ps : List P) (u : P → Option τ),
      R (state u) (ps.flatMap fun p => (value p).toList.map (item p))
        (state fun p => if p ∈ ps ∧ (value p).isSome = true then value p else u p) := by
    intro ps
    induction ps with
    | nil =>
      intro u
      simpa using hR.nil (state u)
    | cons q ps ih =>
      intro u
      rw [List.flatMap_cons]
      cases hq : value q with
      | none =>
        have hsame : (fun p => if p ∈ q :: ps ∧ (value p).isSome = true then value p else u p) =
            fun p => if p ∈ ps ∧ (value p).isSome = true then value p else u p := by
          funext p
          by_cases hp : p = q
          · simp [hp, hq]
          · simp [hp]
        rw [hsame]
        exact ih u
      | some a =>
        have hsame : (fun p => if p ∈ q :: ps ∧ (value p).isSome = true then value p else u p) =
            fun p => if p ∈ ps ∧ (value p).isSome = true then value p
              else Function.update u q (some a) p := by
          funext p
          by_cases hp : p = q
          · subst hp
            simp [hq]
          · simp [hp]
        rw [hsame]
        exact hR.append (h u q a hq) (ih _)
  have hvalue : (fun p => if p ∈ all ∧ (value p).isSome = true then value p else none) = value := by
    funext p
    cases hp : value p with
    | none => simp
    | some a => simp [hall p]
  simpa only [hvalue] using hrun all fun _ => none

end Chains

theorem chains_foldlM (step : σ → α → Except ε σ) :
    Chains fun s l s' => l.foldlM step s = .ok s' where
  nil _ := rfl
  append h h' := foldlM_append_eq_ok.2 ⟨_, h, h'⟩

theorem foldlM_singleton (step : σ → α → Except ε σ) (s : σ) (a : α) :
    [a].foldlM step s = step s a := by
  rw [List.foldlM_cons]
  exact bind_pure (step s a)

end Loops
