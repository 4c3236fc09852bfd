import Mathlib.Tactic.Common

/-!
# Positional — values without names

A format in which the place of a value says what it is: the reader takes the values one after the
other, in the order in which they were written.
-/

namespace Positional

variable {V α β : Type}

abbrev Reader (V : Type) := StateT (List V) Option

def next (accept : V → Option α) : Reader V α
  | [] => none
  | v :: vs => (accept v).map (·, vs)

def times (r : Reader V α) : Nat → Reader V (List α)
  | 0 => pure []
  | n + 1 => do
    let a ← r
    let as ← times r n
    return a :: as

/-- The reader takes exactly these values, whatever follows, and gives the result. -/
def Takes (r : Reader V α) (vs : List V) (a : α) : Prop :=
  ∀ rest, r (vs ++ rest) = some (a, rest)

theorem Takes.pure (a : α) : Takes (pure a : Reader V α) [] a := fun _ => rfl

variable {r : Reader V α} {f : α → Reader V β} {vs : List V} {a : α}

theorem Takes.bind {vs' : List V} {b : β} (h : Takes r vs a) (h' : Takes (f a) vs' b) :
    Takes (r >>= f) (vs ++ vs') b := by
  intro rest
  show (r (vs ++ vs' ++ rest)).bind (fun x => f x.1 x.2) = _
  rw [List.append_assoc, h (vs' ++ rest)]
  exact h' rest

theorem Takes.bind_pure {b : β} (h : Takes r vs a) (hf : f a = Pure.pure b) :
    Takes (r >>= f) vs b := by
  have hbind := h.bind (hf ▸ Takes.pure b)
  rwa [List.append_nil] at hbind

theorem Takes.map (f : α → β) (h : Takes r vs a) : Takes (f <$> r) vs (f a) := by
  rw [map_eq_pure_bind]
  exact h.bind_pure rfl

theorem takes_next {accept : V → Option α} {v : V} (h : accept v = some a) :
    Takes (next accept) [v] a := by
  intro rest
  show (accept v).map (·, rest) = _
  rw [h]
  rfl

-- The list is written item by item, and its length is known.
theorem Takes.times {l : List β} {write : β → List V} {f : β → α}
    (h : ∀ b ∈ l, Takes r (write b) (f b)) :
    Takes (Positional.times r l.length) (l.flatMap write) (l.map f) := by
  induction l with
  | nil => exact .pure []
  | cons b l ih =>
    have hrest := (ih fun b' hb' => h b' (List.mem_cons_of_mem b hb')).map (f b :: ·)
    exact (h b List.mem_cons_self).bind hrest

theorem Takes.run (h : Takes r vs a) : r vs = some (a, []) := by
  have hall := h []
  rwa [List.append_nil] at hall

def Yields (r : Reader V α) (P : α → Prop) : Prop := ∀ vs a rest, r vs = some (a, rest) → P a

variable {P : α → Prop}

theorem Yields.pure (h : P a) : Yields (pure a : Reader V α) P := by
  intro vs b rest hb
  cases hb
  exact h

theorem Yields.failure : Yields (failure : Reader V α) P := by
  intro vs a rest h
  cases h

theorem Yields.bind {Q : α → Prop} {P : β → Prop} (hr : Yields r Q) (hf : ∀ a, Q a → Yields (f a) P) :
    Yields (r >>= f) P := by
  intro vs b rest h
  change (r vs).bind (fun x => f x.1 x.2) = _ at h
  obtain ⟨⟨a, vs'⟩, ha, hb⟩ := Option.bind_eq_some_iff.1 h
  exact hf a (hr vs a vs' ha) vs' b rest hb

theorem Yields.any (r : Reader V α) : Yields r fun _ => True := fun _ _ _ _ => trivial

theorem Yields.map {f : α → β} {Q : α → Prop} {P : β → Prop} (hr : Yields r Q)
    (hf : ∀ a, Q a → P (f a)) : Yields (f <$> r) P := by
  rw [map_eq_pure_bind]
  exact hr.bind fun a ha => .pure (hf a ha)

theorem Yields.times (h : Yields r P) (n : Nat) :
    Yields (Positional.times r n) fun as => ∀ a ∈ as, P a := by
  induction n with
  | zero => exact .pure fun a ha => absurd ha List.not_mem_nil
  | succ n ih =>
    refine h.bind fun a ha => ih.bind fun as has => .pure fun b hb => ?_
    rcases List.mem_cons.1 hb with rfl | hb
    · exact ha
    · exact has b hb

end Positional
