import Amnezia.Lib.Loops
import Amnezia.Libc.Strings

/-!
# The list of interfaces

`string_list_add` of `ipc.c`, on a buffer with its bytes, and the walk over it in `show_main`.  A
`size_t` is a number modulo `2 ^ 64`, and no object is larger than `PTRDIFF_MAX`.
-/

namespace Amnezia.Tools

open Libc (Bytes)

def sizeT (n : Nat) : Nat := n % 18446744073709551616

def ptrdiffMax : Nat := 9223372036854775807

inductive MemoryFault where
  | noMemory | outOfBounds
  deriving DecidableEq, Repr

/-- The bytes of an object; `none` was never written. -/
abbrev Object := List (Option Char)

def store (mem : Object) (i : Nat) (c : Char) : Except MemoryFault Object :=
  if i < mem.length then .ok (mem.set i (some c)) else .error .outOfBounds

def memcpy (mem : Object) (i : Nat) : Bytes → Except MemoryFault Object
  | [] => .ok mem
  | c :: cs => store mem i c >>= fun mem => memcpy mem (i + 1) cs

/-- `realloc`, which succeeds where it can. -/
def realloc (mem : Object) (size : Nat) : Except MemoryFault Object :=
  if size ≤ ptrdiffMax then .ok ((mem ++ List.replicate (size - mem.length) none).take size)
  else .error .noMemory

/-- The string at the start of an object, and what is behind its terminator. -/
def readString : Object → Option (Bytes × Object)
  | some c :: mem =>
    if c = '\x00' then some ([], mem) else (readString mem).map fun r => (c :: r.1, r.2)
  | _ => none

structure StringList where
  /-- `NULL` has no bytes. -/
  buffer : Object := []
  len : Nat := 0
  cap : Nat := 0

/-- The buffer is made larger where the string and the terminators do not fit. -/
def growFor (list : StringList) (len : Nat) : Except MemoryFault StringList :=
  if sizeT (list.cap + 18446744073709551616 - list.len) ≤ len then
    let newCap := sizeT (list.cap * 2)
    let needed := sizeT (list.len + len + 1)
    let newCap := if newCap < needed then needed else newCap
    (realloc list.buffer newCap).map fun buffer => { list with buffer := buffer, cap := newCap }
  else .ok list

def stringListAdd (list : StringList) (str : Bytes) : Except MemoryFault StringList :=
  let len := sizeT (str.length + 1)
  if len = 1 then .ok list
  else do
    let list ← growFor list len
    let buffer ← memcpy list.buffer list.len (str ++ ['\x00'])
    let buffer ← store buffer (sizeT (list.len + len)) '\x00'
    .ok { list with buffer := buffer, len := sizeT (list.len + len) }

/-- What `ipc_list_devices` returns: `list.buffer ?: strdup("\0")`. -/
def listBuffer (list : StringList) : Object :=
  if list.buffer = [] then [some '\x00'] else list.buffer

theorem readString_length {mem : Object} {r : Bytes × Object} (h : readString mem = some r) :
    r.2.length < mem.length := by
  fun_induction readString mem generalizing r with
  | case1 mem =>
    cases h
    exact Nat.lt_succ_self _
  | case2 c mem hc ih =>
    obtain ⟨r', hr', rfl⟩ := Option.map_eq_some_iff.1 h
    exact Nat.lt_succ_of_lt (@ih r' hr')
  | case3 => cases h

/-- The loop of `show_main`; `none` is a read of a byte that is not there. -/
def walk (mem : Object) : Option (List Bytes) :=
  match h : readString mem with
  | none => none
  | some ([], _) => some []
  | some (c :: s, rest) =>
    have := readString_length h
    (walk rest).map ((c :: s) :: ·)
termination_by mem.length

theorem memcpy_append (pre old post : Object) {cs : Bytes} (h : old.length = cs.length) :
    memcpy (pre ++ old ++ post) pre.length cs = .ok (pre ++ cs.map some ++ post) := by
  induction cs generalizing pre old with
  | nil =>
    rw [List.length_eq_zero_iff.1 h]
    rfl
  | cons c cs ih =>
    obtain ⟨o, old, rfl⟩ := List.exists_cons_of_length_eq_add_one h
    have hstep : memcpy (pre ++ [some c] ++ old ++ post) (pre ++ [some c]).length cs = _ :=
      ih (pre ++ [some c]) old (Nat.succ.inj h)
    have hset : (pre ++ (o :: old) ++ post).set pre.length (some c) =
        pre ++ [some c] ++ old ++ post := by
      simp
    rw [memcpy, store, if_pos (by simp), hset, Loops.ok_bind]
    simpa using hstep

def terminatedBytes (strs : List Bytes) : Bytes := strs.flatMap (· ++ ['\x00'])

/-- The buffer has the strings and one terminator more; for no strings there is none. -/
structure HoldsStrings (list : StringList) (strs : List Bytes) : Prop where
  len : list.len = (terminatedBytes strs).length
  cap : list.cap = list.buffer.length
  small : list.cap ≤ ptrdiffMax
  bytes : (strs = [] ∧ list.buffer = []) ∨
    ∃ rest, list.buffer = (terminatedBytes strs).map some ++ some '\x00' :: rest

variable {list : StringList} {strs : List Bytes} {str : Bytes} {len : Nat}

theorem HoldsStrings.growFor (h : HoldsStrings list strs) (hlen : len ≤ ptrdiffMax) :
    Tools.growFor list len = .error .noMemory ∨
      ∃ room, Tools.growFor list len = .ok { list with
          buffer := (terminatedBytes strs).map some ++ room
          cap := (terminatedBytes strs).length + room.length } ∧
        len < room.length ∧ (terminatedBytes strs).length + room.length ≤ ptrdiffMax := by
  obtain ⟨room, hroom⟩ : ∃ room, list.buffer = (terminatedBytes strs).map some ++ room := by
    obtain ⟨rfl, hnull⟩ | ⟨rest, hbytes⟩ := h.bytes
    · exact ⟨[], hnull⟩
    · exact ⟨_, hbytes⟩
  have hcap : list.cap = (terminatedBytes strs).length + room.length := by
    rw [h.cap, hroom, List.length_append, List.length_map]
  have hsmall := h.small
  have hstart := h.len
  unfold Tools.growFor sizeT
  unfold ptrdiffMax at hlen hsmall
  split
  · -- neither size wraps around, as there was memory for `cap` and for the string
    simp only
    generalize hnew : (if list.cap * 2 % 18446744073709551616 <
      (list.len + len + 1) % 18446744073709551616 then (list.len + len + 1) % 18446744073709551616
      else list.cap * 2 % 18446744073709551616) = newCap
    have hneeded : list.len + len + 1 ≤ newCap ∧ list.cap ≤ newCap := by
      split at hnew <;> omega
    unfold realloc
    split
    · next hfits =>
      refine .inr ⟨room ++ List.replicate (newCap - list.cap) none, ?_, ?_, ?_⟩
      · have hgrown : (list.buffer ++ List.replicate (newCap - list.buffer.length) none).take newCap =
            (terminatedBytes strs).map some ++ (room ++ List.replicate (newCap - list.cap) none) := by
          rw [← h.cap, List.take_of_length_le, hroom, List.append_assoc]
          rw [List.length_append, List.length_replicate, ← h.cap]
          omega
        rw [hgrown, List.length_append, List.length_replicate,
          show (terminatedBytes strs).length + (room.length + (newCap - list.cap)) = newCap by omega]
        rfl
      · rw [List.length_append, List.length_replicate]
        omega
      · rw [List.length_append, List.length_replicate]
        omega
    · exact .inl rfl
  · refine .inr ⟨room, ?_, by omega, by unfold ptrdiffMax; omega⟩
    rw [← hroom, ← hcap]

theorem HoldsStrings.add (h : HoldsStrings list strs) (hstr : str.length < ptrdiffMax)
    (hok : stringListAdd list str ≠ .error .noMemory) :
    ∃ list', stringListAdd list str = .ok list' ∧
      HoldsStrings list' (if str = [] then strs else strs ++ [str]) := by
  have hsize : sizeT (str.length + 1) = str.length + 1 := by
    unfold sizeT
    unfold ptrdiffMax at hstr
    omega
  unfold stringListAdd at hok ⊢
  simp only [hsize] at hok ⊢
  split at hok
  · next hlen =>
    have hnil : str = [] := List.length_eq_zero_iff.1 (by omega)
    rw [if_pos hlen, if_pos hnil]
    exact ⟨list, rfl, h⟩
  · next hlen =>
    have hne : str ≠ [] := by
      rintro rfl
      exact hlen rfl
    rw [if_neg hlen, if_neg hne]
    obtain hfull | ⟨room, hgrow, hroom, hsmall⟩ := h.growFor (by omega : str.length + 1 ≤ _)
    · rw [hfull] at hok
      exact absurd rfl hok
    -- the string and its terminator take the place of `old`, the second terminator that of `x`
    obtain ⟨old, x, post, hsplit, hold⟩ : ∃ old x post,
        room = old ++ x :: post ∧ old.length = (str ++ ['\x00']).length := by
      refine ⟨room.take (str.length + 1), room[str.length + 1], room.drop (str.length + 2), ?_, ?_⟩
      · rw [List.getElem_cons_drop, List.take_append_drop]
      · rw [List.length_take, List.length_append, List.length_singleton]
        omega
    have hcopy := memcpy_append ((terminatedBytes strs).map some) old (x :: post) hold
    have hlength : (terminatedBytes (strs ++ [str])).length =
        (terminatedBytes strs).length + (str.length + 1) := by
      simp [terminatedBytes]
    have hend : sizeT ((terminatedBytes strs).length + (str.length + 1)) =
        (terminatedBytes strs).length + (str.length + 1) := by
      unfold sizeT
      unfold ptrdiffMax at hsmall
      omega
    have hstore : store ((terminatedBytes strs).map some ++ (str ++ ['\x00']).map some ++ x :: post)
        ((terminatedBytes strs).length + (str.length + 1)) '\x00' =
          .ok ((terminatedBytes (strs ++ [str])).map some ++ some '\x00' :: post) := by
      unfold store
      rw [if_pos (by simp)]
      simp [terminatedBytes]
    rw [List.length_map, List.append_assoc, ← hsplit] at hcopy
    refine ⟨{
      buffer := (terminatedBytes (strs ++ [str])).map some ++ some '\x00' :: post
      len := (terminatedBytes strs).length + (str.length + 1)
      cap := (terminatedBytes strs).length + room.length }, ?_, ?_⟩
    · rw [hgrow, Loops.ok_bind]
      simp only [h.len, hcopy, Loops.ok_bind, hend, hstore]
    · constructor
      · exact hlength.symm
      · show (terminatedBytes strs).length + room.length = List.length _
        rw [List.length_append, List.length_map, hlength, hsplit, List.length_append, hold]
        simp only [List.length_append, List.length_cons, List.length_nil]
        omega
      · exact hsmall
      · exact .inr ⟨post, rfl⟩

theorem readString_append {s : Bytes} (h : '\x00' ∉ s) (rest : Object) :
    readString (s.map some ++ some '\x00' :: rest) = some (s, rest) := by
  induction s with
  | nil => rfl
  | cons c s ih =>
    rw [List.mem_cons, not_or] at h
    rw [List.map_cons, List.cons_append, readString, if_neg (Ne.symm h.1), ih h.2]
    rfl

theorem walk_terminated (h : ∀ s ∈ strs, s ≠ [] ∧ '\x00' ∉ s) (rest : Object) :
    walk ((terminatedBytes strs).map some ++ some '\x00' :: rest) = some strs := by
  induction strs with
  | nil =>
    unfold walk
    rfl
  | cons s strs ih =>
    rw [List.forall_mem_cons] at h
    obtain ⟨c, s, rfl⟩ := List.exists_cons_of_ne_nil h.1.1
    have hbytes : (terminatedBytes ((c :: s) :: strs)).map some ++ some '\x00' :: rest =
        (c :: s).map some ++ some '\x00' :: ((terminatedBytes strs).map some ++ some '\x00' :: rest) := by
      simp [terminatedBytes]
    have hread := readString_append h.1.2 ((terminatedBytes strs).map some ++ some '\x00' :: rest)
    rw [hbytes, walk]
    split
    · next heq => rw [hread] at heq; cases heq
    · next heq => rw [hread] at heq; cases heq
    · next heq =>
      rw [hread] at heq
      cases heq
      rw [ih h.2]
      rfl

/-- The strings that are added are written inside the buffer, and the walk finds those that are not
empty, in their order, before the buffer ends. -/
theorem stringList_walk {strs : List Bytes} (hstrs : ∀ s ∈ strs, '\x00' ∉ s ∧ s.length < ptrdiffMax)
    (h : strs.foldlM stringListAdd {} ≠ .error .noMemory) :
    ∃ list, strs.foldlM stringListAdd {} = .ok list ∧
      walk (listBuffer list) = some (strs.filter (· ≠ [])) := by
  have hrun : ∀ (strs before : List Bytes) (list : StringList), HoldsStrings list before →
      (∀ s ∈ strs, s.length < ptrdiffMax) → strs.foldlM stringListAdd list ≠ .error .noMemory →
        ∃ list', strs.foldlM stringListAdd list = .ok list' ∧
          HoldsStrings list' (before ++ strs.filter (· ≠ [])) := by
    intro strs
    induction strs with
    | nil => exact fun before list hlist _ _ => ⟨list, rfl, by simpa using hlist⟩
    | cons s strs ih =>
      intro before list hlist hstrs hok
      rw [List.forall_mem_cons] at hstrs
      rw [List.foldlM_cons] at hok ⊢
      obtain ⟨list₁, hadd, hlist₁⟩ := hlist.add hstrs.1 fun hfull => hok (by rw [hfull]; rfl)
      rw [hadd, Loops.ok_bind] at hok ⊢
      obtain ⟨list', hrest, hlist'⟩ := ih _ list₁ hlist₁ hstrs.2 hok
      refine ⟨list', hrest, ?_⟩
      by_cases hs : s = []
      · simpa [hs] using hlist'
      · simpa [hs] using hlist'
  obtain ⟨list, hlist, hholds⟩ :=
    hrun strs [] {} ⟨rfl, rfl, by decide, .inl ⟨rfl, rfl⟩⟩ (fun s hs => (hstrs s hs).2) h
  refine ⟨list, hlist, ?_⟩
  rw [List.nil_append] at hholds
  have hplain : ∀ s ∈ strs.filter (· ≠ []), s ≠ [] ∧ '\x00' ∉ s := by
    intro s hs
    obtain ⟨hs, hne⟩ := List.mem_filter.1 hs
    exact ⟨by simpa using hne, (hstrs s hs).1⟩
  unfold listBuffer
  obtain ⟨hnil, hnull⟩ | ⟨rest, hbytes⟩ := hholds.bytes
  · rw [if_pos hnull, hnil]
    unfold walk
    rfl
  · rw [if_neg (by simp [hbytes]), hbytes]
    exact walk_terminated hplain rest

theorem stringList_walk_three :
    ∃ list, ["awg0".toList, [], "wg1".toList].foldlM stringListAdd {} = .ok list ∧
      walk (listBuffer list) = some ["awg0".toList, "wg1".toList] := by
  have hstrs : ∀ s ∈ ["awg0".toList, [], "wg1".toList], '\x00' ∉ s ∧ s.length < ptrdiffMax := by
    simp [ptrdiffMax]
  exact stringList_walk hstrs (fun h => nomatch h)

end Amnezia.Tools
