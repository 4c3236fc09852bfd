import Mathlib.Algebra.BigOperators.Group.List.Basic
import Mathlib.Algebra.GroupWithZero.Nat
import Mathlib.Tactic.Common

/-!
# Netlink — attributes in a buffer of bounded size

A message under construction is its length so far and the attributes at the level of the innermost
open nest.  Putting an attribute with a check fails when it does not fit; to cancel a nest is to go
back to the buffer from before its start.
-/

namespace Netlink

variable {α β γ : Type*}

def align (n : Nat) : Nat := (n + 3) / 4 * 4

def attrLen (n : Nat) : Nat := 4 + align n

structure Buf (α : Type*) where
  len : Nat
  attrs : List α

def nestStart (len : Nat) : Buf α := ⟨len + 4, []⟩

def nestStartCheck (cap len : Nat) : Option (Buf α) :=
  if cap < len + 4 then none else some (nestStart len)

namespace Buf

def nestEnd (b : Buf α) (wrap : List β → α) (inner : Buf β) : Buf α :=
  ⟨inner.len, b.attrs ++ [wrap inner.attrs]⟩

section Put

variable (size : α → Nat)

def put (b : Buf α) (a : α) : Buf α := ⟨b.len + size a, b.attrs ++ [a]⟩

def putCheck (cap : Nat) (b : Buf α) (a : α) : Option (Buf α) :=
  if cap < b.len + size a then none else some (b.put size a)

def putAll (cap : Nat) (b : Buf α) (as : List α) : Option (Buf α) := as.foldlM (putCheck size cap) b

theorem putAll_append (cap : Nat) (b : Buf α) (as as' : List α) :
    b.putAll size cap (as ++ as') = (b.putAll size cap as).bind (·.putAll size cap as') :=
  List.foldlM_append

/-- Each check leaves room for what is already there, so only the whole length matters. -/
theorem putAll_eq {cap : Nat} {b : Buf α} (hb : b.len ≤ cap) (as : List α) :
    b.putAll size cap as =
      if b.len + (as.map size).sum ≤ cap then some ⟨b.len + (as.map size).sum, b.attrs ++ as⟩
      else none := by
  unfold putAll
  induction as generalizing b with
  | nil =>
    rw [List.map_nil, List.sum_nil, Nat.add_zero, if_pos hb, List.append_nil]
    rfl
  | cons a as ih =>
    rw [List.foldlM_cons, List.map_cons, List.sum_cons, ← Nat.add_assoc]
    unfold putCheck
    by_cases hfits : b.len + size a ≤ cap
    · rw [if_neg (by omega)]
      have hput := @ih (b.put size a) hfits
      show as.foldlM (putCheck size cap) (b.put size a) = _
      rw [hput]
      simp only [put, List.append_assoc, List.singleton_append]
    · rw [if_pos (by omega), if_neg (by omega)]
      rfl

theorem putAll_fits {cap : Nat} {b b' : Buf α} (hb : b.len ≤ cap) {as : List α}
    (h : b.putAll size cap as = some b') : b'.len ≤ cap := by
  rw [putAll_eq size hb] at h
  split at h
  · cases h
    exact ‹_›
  · cases h

end Put

/-- Puts entries as long as there is room: the buffer, and the entries that are left. -/
def fill (put : Buf α → γ → Option (Buf α)) : Buf α → List γ → Buf α × List γ
  | b, [] => (b, [])
  | b, c :: cs =>
    match put b c with
    | none => (b, c :: cs)
    | some b' => fill put b' cs

/-- What was put and what is left make up the list; the first entry that is left does not fit. -/
structure Filled (cap : Nat) (cost : γ → Nat) (attr : γ → α) (b : Buf α) (cs : List γ) (b' : Buf α)
    (left done : List γ) : Prop where
  parts : cs = done ++ left
  attrs : b'.attrs = b.attrs ++ done.map attr
  len : b'.len = b.len + (done.map cost).sum
  fits : b.len ≤ cap → b'.len ≤ cap
  full : ∀ c ∈ left.head?, cap < b'.len + cost c

theorem fill_filled {cap : Nat} {put : Buf α → γ → Option (Buf α)} {cost : γ → Nat} {attr : γ → α}
    (hput : ∀ b c, b.len ≤ cap → put b c =
      if b.len + cost c ≤ cap then some ⟨b.len + cost c, b.attrs ++ [attr c]⟩ else none)
    {b : Buf α} (hb : b.len ≤ cap) (cs : List γ) :
    ∃ done, Filled cap cost attr b cs (fill put b cs).1 (fill put b cs).2 done := by
  induction cs generalizing b with
  | nil => exact ⟨[], rfl, (List.append_nil _).symm, rfl, id, by simp [fill]⟩
  | cons c cs ih =>
    unfold fill
    rw [hput b c hb]
    by_cases hfits : b.len + cost c ≤ cap
    · rw [if_pos hfits]
      obtain ⟨done, h⟩ := @ih ⟨b.len + cost c, b.attrs ++ [attr c]⟩ hfits
      refine ⟨c :: done, ?_, ?_, ?_, fun _ => h.fits hfits, h.full⟩
      · rw [List.cons_append, ← h.parts]
      · rw [h.attrs, List.map_cons, List.append_assoc, List.singleton_append]
      · rw [h.len, List.map_cons, List.sum_cons, ← Nat.add_assoc]
    · rw [if_neg hfits]
      refine ⟨[], rfl, (List.append_nil _).symm, rfl, id, ?_⟩
      intro d hd
      cases hd
      show cap < b.len + cost c
      omega

end Buf

end Netlink
