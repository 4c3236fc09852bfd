import Amnezia.Lib.Batches
import Amnezia.Lib.Intervals
import Amnezia.Tools.AwgQuick

/-!
# The users of a network

`set_users` in `android.c`: the ranges of user ids that `network users add` gets, at most 18 of them
in a command.  How the ids of the applications are found is a parameter, and every command that is
issued is answered.
-/

namespace Amnezia.Tools

open Batches (Gathered)
open Intervals
open Libc (Bytes)

abbrev Uid := BitVec 32

def printU (n : BitVec 32) : Bytes := Java.valueOf n.toNat

structure Users where
  argsPerCommand : BitVec 32 := 0
  ranges : Option Bytes := none
  /-- What has been written to `range`; the longest text has 21 characters, for which there is
  room. -/
  built : List Bytes := []
  commands : List Bytes := []

def networkUsersAdd (netid : BitVec 32) (ranges : Option Bytes) : Bytes :=
  "network users add ".toList ++ printU netid ++ ' ' :: ranges.getD "(null)".toList

namespace Users

def concat (s : Users) (range : Bytes) : Users :=
  { s with ranges := concatAndFree s.ranges [' '] range, built := s.built ++ [range] }

def cndc (netid : BitVec 32) (s : Users) : Users :=
  { s with commands := s.commands ++ [networkUsersAdd netid s.ranges] }

def addRange (netid : BitVec 32) (s : Users) (range : Bytes) : Users :=
  let s := { s.concat range with argsPerCommand := s.argsPerCommand + 1 }
  if s.argsPerCommand % 18 = 0 then { s.cndc netid with ranges := none } else s

def excludedLoop (netid : BitVec 32) : Uid → Users → List Uid → Uid × Users
  | start, s, [] => (start, s)
  | start, s, uid :: uids =>
    if uid = 0 then (start, s)
    else if start > uid - 1 then excludedLoop netid (uid + 1) s uids
    else if start = uid - 1 then
      excludedLoop netid (uid + 1) (s.addRange netid (printU start)) uids
    else
      let range := printU start ++ '-' :: printU (uid - 1)
      excludedLoop netid (uid + 1) (s.addRange netid range) uids

def includedLoop (netid : BitVec 32) : Users → List Uid → Users
  | s, [] => s
  | s, uid :: uids =>
    if uid = 0 then s else includedLoop netid (s.addRange netid (printU uid)) uids

def addTail (s : Users) (start : Uid) : Users :=
  if start < 99999 then s.concat (printU start ++ "-99999".toList) else s

def finish (netid : BitVec 32) (s : Users) : Users :=
  if s.ranges.isSome then s.cndc netid else s

end Users

inductive Fault where
  | exit (status : Nat)
  | readsBeyondText
  | writesBeyondArray
deriving DecidableEq

def eexist : Nat := 17

def setUsers (getUidList : Option Bytes → Except Fault (List Uid)) (netid : BitVec 32)
    (excludedApplications includedApplications : Option Bytes) : Except Fault Users :=
  if excludedApplications.isSome && includedApplications.isSome then .error (.exit eexist)
  else if excludedApplications.isSome || includedApplications.isNone then do
    let uids ← getUidList excludedApplications
    let (start, s) := Users.excludedLoop netid 0 {} uids
    return (s.addTail start).finish netid
  else do
    let uids ← getUidList includedApplications
    return (Users.includedLoop netid {} uids).finish netid

def rangeText (r : Nat × Nat) : Bytes :=
  if r.1 + 1 = r.2 then Java.valueOf r.1 else Java.valueOf r.1 ++ '-' :: Java.valueOf (r.2 - 1 : Nat)

def usersAdd (netid : BitVec 32) (ranges : List (Nat × Nat)) : Bytes :=
  networkUsersAdd netid (some ([' '].intercalate (ranges.map rangeText)))

namespace Users

structure Holds (netid : BitVec 32) (s : Users) (g : Gathered (Nat × Nat)) : Prop where
  count : s.argsPerCommand.toNat = g.count
  ranges : s.ranges =
    if g.pending = [] then none else some ([' '].intercalate (g.pending.map rangeText))
  built : s.built = g.items.map rangeText
  commands : s.commands = g.batches.map (usersAdd netid)

variable {netid : BitVec 32} {s : Users} {g : Gathered (Nat × Nat)}

theorem holds_empty : Holds netid {} {} := ⟨rfl, rfl, rfl, rfl⟩

theorem concatAndFree_pending (pending : List (Nat × Nat)) (r : Nat × Nat) :
    concatAndFree (if pending = [] then none else
        some ([' '].intercalate (pending.map rangeText))) [' '] (rangeText r) =
      some ([' '].intercalate ((pending ++ [r]).map rangeText)) := by
  split
  · next hnil =>
    rw [hnil]
    simp [concatAndFree]
  · next hne =>
    have hmap : pending.map rangeText ≠ [] := by simp [hne]
    rw [List.map_append]
    show some _ = some _
    rw [List.map_singleton, Fields.intercalate_concat _ hmap]

theorem Holds.addRange (h : Holds netid s g) (r : Nat × Nat) :
    Holds netid (s.addRange netid (rangeText r)) (g.add 4294967296 18 r) := by
  have hcount : (s.argsPerCommand + 1).toNat = (g.count + 1) % 4294967296 := by
    rw [BitVec.toNat_add, h.count]
    rfl
  have hbuilt : s.built ++ [rangeText r] = (g.add 4294967296 18 r).items.map rangeText := by
    rw [Gathered.items_add, List.map_append, h.built]
    rfl
  have hfull : (s.argsPerCommand + 1) % 18 = 0 ↔ (g.count + 1) % 4294967296 % 18 = 0 := by
    rw [← BitVec.toNat_inj, BitVec.toNat_umod, hcount]
    rfl
  have hranges : concatAndFree s.ranges [' '] (rangeText r) =
      some ([' '].intercalate ((g.pending ++ [r]).map rangeText)) := by
    rw [h.ranges, concatAndFree_pending]
  by_cases hcommand : (g.count + 1) % 4294967296 % 18 = 0
  · have hadd : g.add 4294967296 18 r =
        ⟨(g.count + 1) % 4294967296, [], g.batches ++ [g.pending ++ [r]]⟩ := if_pos hcommand
    have hs : s.addRange netid (rangeText r) =
        ⟨s.argsPerCommand + 1, none, s.built ++ [rangeText r], s.commands ++
          [networkUsersAdd netid (concatAndFree s.ranges [' '] (rangeText r))]⟩ :=
      if_pos (hfull.2 hcommand)
    rw [hadd] at hbuilt ⊢
    rw [hs, hranges]
    refine ⟨hcount, rfl, hbuilt, ?_⟩
    show s.commands ++ _ = (g.batches ++ [g.pending ++ [r]]).map (usersAdd netid)
    rw [h.commands, List.map_append (f := usersAdd netid)]
    rfl
  · have hadd : g.add 4294967296 18 r =
        ⟨(g.count + 1) % 4294967296, g.pending ++ [r], g.batches⟩ := if_neg hcommand
    have hs : s.addRange netid (rangeText r) =
        ⟨s.argsPerCommand + 1, concatAndFree s.ranges [' '] (rangeText r),
          s.built ++ [rangeText r], s.commands⟩ := if_neg (fun hc => hcommand (hfull.1 hc))
    have hne : g.pending ++ [r] ≠ [] := by simp
    rw [hadd] at hbuilt ⊢
    rw [hs, hranges]
    exact ⟨hcount, (if_neg hne).symm, hbuilt, h.commands⟩

theorem Holds.addTail (h : Holds netid s g) {start : Uid} (hstart : start < 99999) :
    Holds netid (s.addTail start) (g.addUncounted (start.toNat, 100000)) := by
  have htext : printU start ++ "-99999".toList = rangeText (start.toNat, 100000) := by
    have hlt : ¬ start.toNat + 1 = 100000 := by
      rw [BitVec.lt_def] at hstart
      have h99999 : (99999 : Uid).toNat = 99999 := rfl
      omega
    have hlast : '-' :: Java.valueOf (100000 - 1 : Nat) = "-99999".toList := by decide
    rw [rangeText, if_neg hlt, hlast]
    rfl
  have hne : g.pending ++ [(start.toNat, 100000)] ≠ [] := by simp
  unfold Users.addTail concat
  rw [if_pos hstart, htext]
  refine ⟨h.count, ?_, ?_, h.commands⟩
  · rw [h.ranges, concatAndFree_pending]
    exact (if_neg hne).symm
  · rw [Gathered.items_addUncounted, List.map_append, h.built]
    rfl

theorem Holds.finish (h : Holds netid s g) :
    (s.finish netid).commands = g.finish.map (usersAdd netid) ∧
      (s.finish netid).built = g.items.map rangeText := by
  unfold Users.finish Gathered.finish cndc
  rw [h.ranges]
  split
  · next hnil => exact ⟨h.commands, h.built⟩
  · next hne =>
    refine ⟨?_, h.built⟩
    rw [List.map_append, ← h.commands]
    rfl

-- What `start` and `*uid - 1` are as numbers, and which of the three branches is taken.
theorem sub_one_cases (start : Uid) {uid : Uid} (hpos : 1 ≤ uid.toNat) :
    (start > uid - 1 ↔ ¬ start.toNat < uid.toNat) ∧
      (start = uid - 1 ↔ start.toNat + 1 = uid.toNat) ∧ (uid - 1).toNat = uid.toNat - 1 := by
  have hpred : (uid - 1).toNat = uid.toNat - 1 := BitVec.toNat_sub_of_le hpos
  refine ⟨?_, ?_, hpred⟩
  · rw [gt_iff_lt, BitVec.lt_def, hpred]
    omega
  · rw [← BitVec.toNat_inj, hpred]
    omega

theorem excludedLoop_holds {uids : List Uid} (rest : List Uid)
    (hbound : ∀ u ∈ uids, 1 ≤ u.toNat ∧ u.toNat ≤ 99999) (start : Uid) (h : Holds netid s g) :
    (excludedLoop netid start s (uids ++ 0 :: rest)).1.toNat =
        afterLast start.toNat (uids.map BitVec.toNat) ∧
      Holds netid (excludedLoop netid start s (uids ++ 0 :: rest)).2
        (g.addAll 4294967296 18 (gaps start.toNat (uids.map BitVec.toNat))) := by
  induction uids generalizing start s g with
  | nil => exact ⟨rfl, h⟩
  | cons uid uids ih =>
    obtain ⟨huid, hrest⟩ := List.forall_mem_cons.1 hbound
    have hne : ¬ uid = 0 := by
      rintro rfl
      exact absurd huid.1 (by decide)
    have hnext : (uid + 1).toNat = uid.toNat + 1 := by
      rw [BitVec.toNat_add]
      exact Nat.mod_eq_of_lt (by show uid.toNat + 1 < 4294967296; omega)
    obtain ⟨hgt, heq, hpred⟩ := sub_one_cases start huid.1
    rw [List.cons_append, excludedLoop, if_neg hne, List.map_cons, afterLast,
      gaps]
    by_cases hlt : start.toNat < uid.toNat
    · rw [if_neg (fun hc => hgt.1 hc hlt), if_pos hlt]
      have hrange : rangeText (start.toNat, uid.toNat) =
          if start = uid - 1 then printU start else printU start ++ '-' :: printU (uid - 1) := by
        unfold rangeText printU
        simp only [heq, hpred]
      by_cases hsingle : start = uid - 1
      · rw [if_pos hsingle] at hrange ⊢
        rw [← hrange, ← hnext]
        exact ih hrest _ (h.addRange _)
      · rw [if_neg hsingle] at hrange ⊢
        rw [← hrange, ← hnext]
        exact ih hrest _ (h.addRange _)
    · rw [if_pos (hgt.2 hlt), if_neg hlt, ← hnext]
      exact ih hrest _ h

theorem includedLoop_holds {uids : List Uid} (rest : List Uid) (hbound : ∀ u ∈ uids, 1 ≤ u.toNat)
    (h : Holds netid s g) :
    Holds netid (includedLoop netid s (uids ++ 0 :: rest))
      (g.addAll 4294967296 18 (uids.map fun u => (u.toNat, u.toNat + 1))) := by
  induction uids generalizing s g with
  | nil => exact h
  | cons uid uids ih =>
    obtain ⟨huid, hrest⟩ := List.forall_mem_cons.1 hbound
    have hne : ¬ uid = 0 := by
      rintro rfl
      exact absurd huid (by decide)
    have htext : printU uid = rangeText (uid.toNat, uid.toNat + 1) := (if_pos rfl).symm
    rw [List.cons_append, includedLoop, if_neg hne, htext]
    exact ih hrest (h.addRange _)

end Users

/-- The ids of the ranges are those with `p`. -/
def Covers (ranges : List (Nat × Nat)) (p : Nat → Prop) : Prop :=
  ∀ id, (∃ r ∈ ranges, Mem r id) ↔ p id

def tailRange (start : Nat) : List (Nat × Nat) :=
  if start < 99999 then [(start, 100000)] else []

section

variable {uids : List Nat}

theorem afterLast_le (hbound : ∀ u ∈ uids, 1 ≤ u ∧ u ≤ 99999) :
    afterLast 0 uids ≤ 100000 := by
  rw [afterLast_eq]
  cases hlast : uids.getLast? with
  | none => exact Nat.zero_le _
  | some u => exact Nat.succ_le_succ (hbound u (List.mem_of_getLast? hlast)).2

theorem ascending_excluded (hsorted : uids.Pairwise (· ≤ ·))
    (hbound : ∀ u ∈ uids, 1 ≤ u ∧ u ≤ 99999) :
    Ascending 0
      (gaps 0 uids ++ tailRange (afterLast 0 uids)) 100000 := by
  have hgaps : Ascending 0 (gaps 0 uids) (afterLast 0 uids) :=
    ascending_gaps (fun u _ => Nat.zero_le (u + 1)) hsorted
  apply hgaps.append
  have hle := afterLast_le hbound
  unfold tailRange
  split
  · next hlt => exact ⟨Nat.le_refl _, by omega, Nat.le_refl _⟩
  · exact hle

-- The range behind the last id is left out when it is the single id 99999.
theorem covers_excluded_iff (hsorted : uids.Pairwise (· ≤ ·))
    (hbound : ∀ u ∈ uids, 1 ≤ u ∧ u ≤ 99999) :
    Covers (gaps 0 uids ++ tailRange (afterLast 0 uids))
        (fun id => id ≤ 99999 ∧ id ∉ uids) ↔ uids.getLast? ≠ some 99998 := by
  have hgaps : ∀ id, (∃ r ∈ gaps 0 uids, Mem r id) ↔
      0 ≤ id ∧ id < afterLast 0 uids ∧ id ∉ uids :=
    fun id => mem_gaps_iff (fun u _ => Nat.zero_le (u + 1)) hsorted
  have hbelow : ∀ id, afterLast 0 uids ≤ id → id ∉ uids := by
    intro id hid hmem
    have hlt := lt_afterLast hsorted 0 id hmem
    omega
  have hle := afterLast_le hbound
  have hlast : uids.getLast? = some 99998 ↔ afterLast 0 uids = 99999 := by
    rw [afterLast_eq]
    cases uids.getLast? <;> simp
  rw [ne_eq, hlast]
  generalize afterLast 0 uids = start at hgaps hbelow hle ⊢
  unfold Covers tailRange
  by_cases htail : start < 99999
  · rw [if_pos htail]
    refine iff_of_true (fun id => ?_) (by omega)
    simp only [List.mem_append, or_and_right, exists_or, List.mem_singleton, exists_eq_left]
    rw [hgaps]
    unfold Mem
    constructor
    · rintro (⟨-, hid, hmem⟩ | ⟨hlo, hhi⟩)
      · exact ⟨by omega, hmem⟩
      · exact ⟨by omega, hbelow id hlo⟩
    · rintro ⟨hid, hmem⟩
      by_cases hlt : id < start
      · exact .inl ⟨Nat.zero_le id, hlt, hmem⟩
      · exact .inr ⟨by omega, by omega⟩
  · rw [if_neg htail]
    simp only [List.append_nil, hgaps]
    constructor
    · intro h hstart
      -- 99999 is neither excluded nor in a range
      have h99999 := (h 99999).2 ⟨Nat.le_refl _, hbelow 99999 (by omega)⟩
      omega
    · intro hstart id
      constructor
      · exact fun h => ⟨by omega, h.2.2⟩
      · exact fun h => ⟨Nat.zero_le id, by omega, h.2⟩

end

section

variable {getUidList : Option Bytes → Except Fault (List Uid)} {netid : BitVec 32}

theorem setUsers_included {text : Bytes} {uids : List Uid} (h : getUidList (some text) = .ok uids) :
    setUsers getUidList netid none (some text) =
      .ok ((Users.includedLoop netid {} uids).finish netid) := by
  show (getUidList (some text)).bind _ = _
  rw [h]
  rfl

theorem setUsers_excluded {text : Option Bytes} {uids : List Uid} (h : getUidList text = .ok uids) :
    setUsers getUidList netid text none =
      .ok (((Users.excludedLoop netid 0 {} uids).2.addTail
        (Users.excludedLoop netid 0 {} uids).1).finish netid) := by
  have hbind : setUsers getUidList netid text none = (getUidList text).bind fun uids =>
      .ok (((Users.excludedLoop netid 0 {} uids).2.addTail
        (Users.excludedLoop netid 0 {} uids).1).finish netid) := by
    cases text <;> rfl
  rw [hbind, h]
  rfl

end

namespace Users

variable (netid : BitVec 32) {uids : List Uid}

theorem bounded_nil : ({} : Gathered (Nat × Nat)).Bounded 4294967296 18 :=
  Gathered.bounded_empty (by omega)

theorem included_batches (rest : List Uid) (hbound : ∀ u ∈ uids, 1 ≤ u.toNat) :
    ∃ batches : List (List (Nat × Nat)),
      ((includedLoop netid {} (uids ++ 0 :: rest)).finish netid).commands =
        batches.map (usersAdd netid) ∧
      ((includedLoop netid {} (uids ++ 0 :: rest)).finish netid).built =
        batches.flatten.map rangeText ∧
      (∀ b ∈ batches, b ≠ [] ∧ b.length ≤ 18) ∧
      batches.flatten = uids.map fun u => (u.toNat, u.toNat + 1) := by
  have hloop : Holds netid (includedLoop netid {} (uids ++ 0 :: rest)) _ :=
    includedLoop_holds rest hbound holds_empty
  obtain ⟨hcommands, hbuilt⟩ := hloop.finish
  refine ⟨_, hcommands, ?_, (bounded_nil.addAll (by omega) _).finish (by omega), ?_⟩
  · rw [hbuilt, Gathered.flatten_finish]
  · rw [Gathered.flatten_finish, Gathered.items_addAll]
    rfl

theorem excluded_batches (rest : List Uid)
    (hbound : ∀ u ∈ uids, 1 ≤ u.toNat ∧ u.toNat ≤ 99999) :
    let loop := excludedLoop netid 0 {} (uids ++ 0 :: rest)
    ∃ batches : List (List (Nat × Nat)),
      ((loop.2.addTail loop.1).finish netid).commands = batches.map (usersAdd netid) ∧
      ((loop.2.addTail loop.1).finish netid).built = batches.flatten.map rangeText ∧
      (∀ b ∈ batches, b ≠ [] ∧ b.length ≤ 18) ∧
      batches.flatten = gaps 0 (uids.map BitVec.toNat) ++
        tailRange (afterLast 0 (uids.map BitVec.toNat)) := by
  intro loop
  obtain ⟨hstart, hloop⟩ := excludedLoop_holds rest hbound 0 (@holds_empty netid)
  have hbounded := bounded_nil.addAll (by omega)
    (gaps 0 (uids.map BitVec.toNat))
  have htail : loop.1 < 99999 ↔ afterLast 0 (uids.map BitVec.toNat) < 99999 := by
    rw [BitVec.lt_def, hstart]
    rfl
  unfold tailRange
  by_cases hlt : loop.1 < 99999
  · obtain ⟨hcommands, hbuilt⟩ := (hloop.addTail hlt).finish
    refine ⟨_, hcommands, ?_, hbounded.finish_add (by omega) _, ?_⟩
    · rw [hbuilt, Gathered.flatten_finish]
    · rw [Gathered.flatten_finish, Gathered.items_addUncounted, Gathered.items_addAll,
        if_pos (htail.1 hlt), hstart]
      rfl
  · have hno : loop.2.addTail loop.1 = loop.2 := if_neg hlt
    obtain ⟨hcommands, hbuilt⟩ := hloop.finish
    rw [hno]
    refine ⟨_, hcommands, ?_, hbounded.finish (by omega), ?_⟩
    · rw [hbuilt, Gathered.flatten_finish]
    · rw [Gathered.flatten_finish, Gathered.items_addAll, if_neg (fun h => hlt (htail.2 h)),
        List.append_nil]
      rfl

end Users

/-- For a sorted list of ids between 1 and 99999, every range that `set_users` builds is in exactly
one command, and no command has more than 18 of them.  The ranges of the included ids cover these.
The ranges between the excluded ids have no id in common, and they cover all other ids up to 99999
exactly when the greatest of them is not 99998. -/
theorem setUsers_covers_iff {getUidList : Option Bytes → Except Fault (List Uid)} {netid : BitVec 32}
    {excluded included : Option Bytes} {uids rest : List Uid}
    (hone : excluded = none ∨ included = none)
    (hlist : getUidList (if included.isSome then included else excluded) = .ok (uids ++ 0 :: rest))
    (hsorted : uids.Pairwise (· ≤ ·)) (hbound : ∀ u ∈ uids, 1 ≤ u.toNat ∧ u.toNat ≤ 99999) :
    ∃ (s : Users) (batches : List (List (Nat × Nat))),
      setUsers getUidList netid excluded included = .ok s ∧
      s.commands = batches.map (usersAdd netid) ∧
      s.built = batches.flatten.map rangeText ∧ (∀ b ∈ batches, b ≠ [] ∧ b.length ≤ 18) ∧
      (included.isSome → Covers batches.flatten fun id => ∃ u ∈ uids, u.toNat = id) ∧
      (included = none →
        batches.flatten.Pairwise (fun q r => ∀ id, ¬ (Mem q id ∧ Mem r id)) ∧
        (Covers batches.flatten (fun id => id ≤ 99999 ∧ ¬ ∃ u ∈ uids, u.toNat = id) ↔
          uids.getLast? ≠ some 99998)) := by
  cases included with
  | some text =>
    obtain rfl : excluded = none := hone.resolve_right (by simp)
    obtain ⟨batches, hcommands, hbuilt, hsize, hflatten⟩ :=
      Users.included_batches netid rest (fun u hu => (hbound u hu).1)
    refine ⟨_, batches, setUsers_included hlist, hcommands, hbuilt, hsize, ?_, ?_⟩
    · intro _ id
      rw [hflatten]
      constructor
      · rintro ⟨r, hr, hlo, hhi⟩
        obtain ⟨u, hu, rfl⟩ := List.mem_map.1 hr
        exact ⟨u, hu, Nat.le_antisymm hlo (Nat.le_of_lt_succ hhi)⟩
      · rintro ⟨u, hu, rfl⟩
        exact ⟨_, List.mem_map_of_mem hu, Nat.le_refl _, Nat.lt_succ_self _⟩
    · exact fun h => nomatch h
  | none =>
    obtain ⟨batches, hcommands, hbuilt, hsize, hflatten⟩ :=
      Users.excluded_batches netid rest hbound
    refine ⟨_, batches, setUsers_excluded hlist, hcommands, hbuilt, hsize, ?_, ?_⟩
    · exact fun h => nomatch h
    · intro _
      have hsorted : (uids.map BitVec.toNat).Pairwise (· ≤ ·) := List.pairwise_map.2 hsorted
      have hbound : ∀ n ∈ uids.map BitVec.toNat, 1 ≤ n ∧ n ≤ 99999 := by
        intro n hn
        obtain ⟨u, hu, rfl⟩ := List.mem_map.1 hn
        exact hbound u hu
      have hlast : uids.getLast? = some 99998 ↔
          (uids.map BitVec.toNat).getLast? = some 99998 := by
        rw [List.getLast?_map, Option.map_eq_some_iff]
        constructor
        · exact fun h => ⟨99998, h, rfl⟩
        · rintro ⟨u, hu, hnat⟩
          rw [hu, Option.some.injEq, ← BitVec.toNat_inj]
          exact hnat
      have hcovers := covers_excluded_iff hsorted hbound
      simp only [List.mem_map] at hcovers
      rw [hflatten, ne_eq, hlast]
      exact ⟨(ascending_excluded hsorted hbound).disjoint, hcovers⟩

theorem setUsers_covers_shared :
    ∃ (s : Users) (batches : List (List (Nat × Nat))),
      setUsers (fun _ => .ok [10001, 10001, 10003, 0]) 4096 (some "a".toList) none = .ok s ∧
      s.commands = batches.map (usersAdd 4096) ∧
      Covers batches.flatten fun id => id ≤ 99999 ∧ ¬ ∃ u ∈ ([10001, 10001, 10003] : List Uid),
        u.toNat = id := by
  obtain ⟨s, batches, hs, hcommands, -, -, -, hexcluded⟩ :=
    @setUsers_covers_iff (fun _ => .ok [10001, 10001, 10003, 0]) 4096 (some "a".toList) none
      [10001, 10001, 10003] [] (.inr rfl) rfl (by decide) (by simp)
  exact ⟨s, batches, hs, hcommands, (hexcluded rfl).2.2 (by decide)⟩

/-- With 99998 as the greatest excluded id, no range has 99999. -/
theorem setUsers_99998 :
    (setUsers (fun _ => .ok [99998, 0]) 4096 (some "a".toList) none).map Users.commands =
      .ok ["network users add 4096 0-99997".toList] := by
  decide

end Amnezia.Tools
