import Mathlib.Data.List.Pairwise
import Amnezia.Lib.Loops
import Amnezia.Tools.SetUsers

/-!
# The ids of applications

`get_uid_list` in `android.c`: the ids of the packages whose names stand in a text with commas.  A
pointer into the text is the string that begins there, so that the text can be read up to its NUL
and no further.
-/

namespace Amnezia.Tools

open Libc

/-! ## The packages -/

/-- What a line of `packages.list` says, up to its second blank. -/
def packageOf (line : Bytes) : Option (Bytes × Uid) :=
  match strsep ' ' line with
  | (_, none) => none
  | (packageName, some rest) =>
    let packageUidStr := rest.takeWhile (· != ' ')
    let (n, endptr) := strtoul packageUidStr
    let packageUid : Uid := BitVec.ofNat 32 n
    if packageUid = 0 || packageUidStr == [] || endptr != [] then none
    else some (packageName, packageUid)

/-! ## The array -/

/-- `uid_list`, and the index of the next entry. -/
structure UidList where
  entries : List Uid
  i : Nat
deriving DecidableEq

def UidList.push (l : UidList) (uid : Uid) : Except Fault UidList :=
  if l.i < l.entries.length then .ok ⟨l.entries.set l.i uid, l.i + 1⟩
  else .error .writesBeyondArray

-- The pointer behind a comma is nearer to the end of the text.
theorem length_lt_of_strchrnul {s rest : Bytes} {c : Char}
    (h : strchrnul ',' s = c :: rest) : rest.length < s.length := by
  have hle := (List.dropWhile_suffix (l := s) (· != ',')).length_le
  unfold strchrnul at h
  rw [h, List.length_cons] at hle
  omega

def countLoop (i : Nat) (comma : Bytes) : Except Fault Nat :=
  match comma with
  | [] => .error .readsBeyondText
  | _ :: next =>
    match hcomma : strchrnul ',' next with
    | [] => .ok (i + 1)
    | c :: rest => countLoop (i + 1) (c :: rest)
termination_by comma.length
decreasing_by
  have hlt := length_lt_of_strchrnul hcomma
  simp only [List.length_cons]
  omega

def matchName (packageName : Bytes) (packageUid : Uid) (l : UidList) (start : Bytes) :
    Except Fault UidList :=
  let tokenLen := start.length - (strchrnul ',' start).length
  if tokenLen ≠ 0 ∧ packageName.length = tokenLen ∧
      start.take tokenLen = packageName.take tokenLen then l.push packageUid
  else .ok l

def nameLoop (packageName : Bytes) (packageUid : Uid) (l : UidList) (start : Bytes) :
    Except Fault UidList :=
  if start = [] then .ok l
  else
    match matchName packageName packageUid l start, _h : strchrnul ',' start with
    | .error fault, _ => .error fault
    | .ok _, [] => .error .readsBeyondText
    | .ok l, _ :: next => nameLoop packageName packageUid l next
termination_by start.length
decreasing_by exact length_lt_of_strchrnul _h

/-- `get_uid_list`.  The list of packages is what is in the file, or the error of opening it. -/
def getUidList (qsort : List Uid → List Uid) (packageList : Except Nat Bytes)
    (selectedApplications : Option Bytes) : Except Fault (List Uid) :=
  match selectedApplications with
  | none => .ok [0]
  | some selected => do
    let size ← countLoop 1 selected
    let file ← packageList.mapError .exit
    let packages := ((getlines file).map cstr).filterMap packageOf
    let l ← packages.foldlM (fun l p => nameLoop p.1 p.2 l selected) ⟨List.replicate size 0, 0⟩
    return qsort (l.entries.take l.i) ++ l.entries.drop l.i

/-! ## Sorting -/

/-- `compare_uid`: the difference, as an `int`. -/
def compareUid (a b : Uid) : Int := (a - b).toInt

structure Consistent (l : List Uid) : Prop where
  swap : ∀ a ∈ l, ∀ b ∈ l, 0 < compareUid a b ↔ compareUid b a < 0
  trans : ∀ a ∈ l, ∀ b ∈ l, ∀ c ∈ l, compareUid a b ≤ 0 → compareUid b c ≤ 0 → compareUid a c ≤ 0

/-- `qsort` with `compare_uid`: it sorts when the comparison is an order. -/
structure Qsort where
  sort : List Uid → List Uid
  perm : ∀ l, (sort l).Perm l
  sorted : ∀ l, Consistent l → (sort l).Pairwise fun a b => compareUid a b ≤ 0

def Near (l : List Uid) : Prop := ∀ a ∈ l, ∀ b ∈ l, a.toNat < b.toNat + 2147483648

theorem compareUid_of_near {a b : Uid} (hab : a.toNat < b.toNat + 2147483648)
    (hba : b.toNat < a.toNat + 2147483648) : compareUid a b = a.toNat - b.toNat := by
  have ha := a.isLt
  have hb := b.isLt
  unfold compareUid
  rw [BitVec.toInt_eq_toNat_cond, BitVec.toNat_sub]
  omega

theorem consistent_of_near {l : List Uid} (h : Near l) : Consistent l where
  swap a ha b hb := by
    rw [compareUid_of_near (h a ha b hb) (h b hb a ha),
      compareUid_of_near (h b hb a ha) (h a ha b hb)]
    omega
  trans a ha b hb c hc := by
    rw [compareUid_of_near (h a ha b hb) (h b hb a ha),
      compareUid_of_near (h b hb c hc) (h c hc b hb),
      compareUid_of_near (h a ha c hc) (h c hc a ha)]
    omega

theorem Qsort.sort_of_near (q : Qsort) {l : List Uid} (h : Near l) :
    (q.sort l).Pairwise (· ≤ ·) := by
  apply (q.sorted l (consistent_of_near h)).imp_of_mem
  intro a b ha hb hle
  have ha := (q.perm l).mem_iff.1 ha
  have hb := (q.perm l).mem_iff.1 hb
  rw [compareUid_of_near (h a ha b hb) (h b hb a ha)] at hle
  rw [BitVec.le_def]
  omega

def Qsort.merge : Qsort where
  sort l := (l.attach.mergeSort fun a b => decide (compareUid a b ≤ 0)).map Subtype.val
  perm l := by
    have hperm := (List.mergeSort_perm l.attach fun a b => decide (compareUid a b ≤ 0)).map
      Subtype.val
    rw [List.attach_map_subtype_val] at hperm
    exact hperm
  sorted l h := by
    rw [List.pairwise_map]
    have hsorted := @List.pairwise_mergeSort { x // x ∈ l }
      (fun a b => decide (compareUid a b ≤ 0)) ?_ ?_ l.attach
    · exact hsorted.imp fun hle => of_decide_eq_true hle
    · intro a b c hab hbc
      rw [decide_eq_true_eq] at hab hbc ⊢
      exact h.trans a a.2 b b.2 c c.2 hab hbc
    · intro a b
      have hswap := h.swap a a.2 b b.2
      simp only [Bool.or_eq_true, decide_eq_true_eq]
      omega

-- Two different elements of a list that is related pairwise are related one way or the other.
theorem rel_of_pairwise {R : Uid → Uid → Prop} {l : List Uid} {a b : Uid} (h : l.Pairwise R)
    (ha : a ∈ l) (hb : b ∈ l) (hne : a ≠ b) : R a b ∨ R b a := by
  have hsymm : Std.Symm fun a b => R a b ∨ R b a := ⟨fun _ _ => Or.symm⟩
  exact (h.imp (S := fun a b => R a b ∨ R b a) .inl).forall ha hb hne

/-- A `qsort` that sorts downwards where the comparison is no order. -/
noncomputable def Qsort.downwards : Qsort where
  sort l :=
    open Classical in
    if Consistent l then Qsort.merge.sort l else l.mergeSort fun a b => decide (b ≤ a)
  perm l := by
    split
    · exact Qsort.merge.perm l
    · exact List.mergeSort_perm l _
  sorted l h := by
    rw [if_pos h]
    exact Qsort.merge.sorted l h

-- A difference of exactly `2 ^ 31` is negative both ways.
theorem compareUid_far {a b : Uid} (h : b.toNat + 2147483648 ≤ a.toNat) :
    compareUid a b < 0 ∧ (compareUid b a ≤ 0 → compareUid b a < 0) := by
  have ha := a.isLt
  have hb := b.isLt
  unfold compareUid
  rw [BitVec.toInt_eq_toNat_cond, BitVec.toInt_eq_toNat_cond, BitVec.toNat_sub, BitVec.toNat_sub]
  omega

theorem Qsort.downwards_of_far {l : List Uid} {a b : Uid} (ha : a ∈ l) (hb : b ∈ l)
    (hfar : b.toNat + 2147483648 ≤ a.toNat) : ¬(Qsort.downwards.sort l).Pairwise (· ≤ ·) := by
  intro hsorted
  have ha' := (Qsort.downwards.perm l).mem_iff.2 ha
  have hb' := (Qsort.downwards.perm l).mem_iff.2 hb
  have hne : a ≠ b := by
    rintro rfl
    omega
  have hle : ¬a ≤ b := by
    rw [BitVec.le_def]
    omega
  by_cases hl : Consistent l
  · -- an order that follows the comparison puts the larger id first
    obtain ⟨hneg, hneg'⟩ := compareUid_far hfar
    rcases rel_of_pairwise (hsorted.and (Qsort.downwards.sorted l hl)) ha' hb' hne with h | h
    · exact hle h.1
    · have hswap := (hl.swap a ha b hb).2 (hneg' h.2)
      omega
  · have hdown : (Qsort.downwards.sort l).Pairwise fun a b => b ≤ a := by
      have hsort : Qsort.downwards.sort l = l.mergeSort fun a b => decide (b ≤ a) := if_neg hl
      rw [hsort]
      refine (List.pairwise_mergeSort ?_ ?_ l).imp of_decide_eq_true
      · intro x y z hxy hyz
        rw [decide_eq_true_eq] at hxy hyz ⊢
        exact BitVec.le_trans hyz hxy
      · intro x y
        rw [Bool.or_eq_true, decide_eq_true_eq, decide_eq_true_eq]
        exact BitVec.le_total y x
    rcases rel_of_pairwise (hsorted.and hdown) ha' hb' hne with h | h
    · exact hle h.1
    · exact hle h.2

/-! ## Texts that end with a comma -/

def terminated (names : List Bytes) : Bytes := names.flatMap (· ++ [','])

def named (names : List Bytes) : List Bytes := names.filter (· ≠ [])

section

variable {t rest : Bytes} {names : List Bytes}

theorem strchrnul_append (h : ',' ∉ t) (rest : Bytes) :
    strchrnul ',' (t ++ ',' :: rest) = ',' :: rest :=
  Fields.dropWhile_append_cons h rest

theorem matchName_append (h : ',' ∉ t) (name : Bytes) (uid : Uid) (l : UidList) (rest : Bytes) :
    matchName name uid l (t ++ ',' :: rest) =
      if t ≠ [] ∧ t = name then l.push uid else .ok l := by
  have hlen : (t ++ ',' :: rest).length - (',' :: rest).length = t.length := by
    rw [List.length_append]
    omega
  unfold matchName
  simp only [strchrnul_append h, hlen, List.take_left]
  have hcond : (t.length ≠ 0 ∧ name.length = t.length ∧ t = name.take t.length) ↔
      t ≠ [] ∧ t = name := by
    rw [ne_eq, List.length_eq_zero_iff]
    constructor
    · rintro ⟨hne, hname, heq⟩
      rw [← hname, List.take_length] at heq
      exact ⟨hne, heq⟩
    · rintro ⟨hne, rfl⟩
      exact ⟨hne, rfl, (List.take_length).symm⟩
  simp only [hcond]

theorem UidList.push_zeros (ws : List Uid) (k : Nat) (uid : Uid) :
    UidList.push ⟨ws ++ List.replicate (k + 1) 0, ws.length⟩ uid =
      .ok ⟨ws ++ [uid] ++ List.replicate k 0, ws.length + 1⟩ := by
  unfold UidList.push
  rw [if_pos (by simp), List.set_append_right _ _ (Nat.le_refl _), Nat.sub_self,
    List.replicate_succ, List.set_cons_zero, List.append_assoc, List.singleton_append]

theorem nameLoop_append (h : ',' ∉ t) (name : Bytes) (uid : Uid) (l : UidList) (rest : Bytes) :
    nameLoop name uid l (t ++ ',' :: rest) =
      (if t ≠ [] ∧ t = name then l.push uid else .ok l).bind fun l =>
        nameLoop name uid l rest := by
  have hne : t ++ ',' :: rest ≠ [] := by simp
  rw [nameLoop, if_neg hne, ← matchName_append h name uid l rest]
  split
  · next hmatch =>
    rw [hmatch]
    rfl
  · next hcomma =>
    rw [strchrnul_append h] at hcomma
    cases hcomma
  · next hmatch hcomma =>
    rw [strchrnul_append h] at hcomma
    cases hcomma
    rw [hmatch]
    rfl

-- The last name has no comma behind it, and the loop goes on behind the NUL.
theorem nameLoop_last (h : ',' ∉ t) (hne : t ≠ []) (name : Bytes) (uid : Uid) (l : UidList) :
    nameLoop name uid l t = (matchName name uid l t).bind fun _ => .error .readsBeyondText := by
  have hcomma : strchrnul ',' t = [] :=
    List.dropWhile_eq_nil_iff.2 (Fields.bne_of_notMem h)
  rw [nameLoop, if_neg hne]
  split
  · next hmatch =>
    rw [hmatch]
    rfl
  · next hmatch _ =>
    rw [hmatch]
    rfl
  · next hnext =>
    rw [hcomma] at hnext
    cases hnext

-- The ids go to the front of the zeros, one for every time the name stands in the text.
theorem nameLoop_terminated (hnames : ∀ t ∈ names, ',' ∉ t) (name : Bytes) (uid : Uid)
    (ws : List Uid) (k : Nat) :
    nameLoop name uid ⟨ws ++ List.replicate ((named names).count name + k) 0, ws.length⟩
        (terminated names) =
      .ok ⟨ws ++ List.replicate ((named names).count name) uid ++ List.replicate k 0,
        ws.length + (named names).count name⟩ := by
  induction names generalizing ws with
  | nil =>
    rw [nameLoop, terminated, List.flatMap_nil, if_pos rfl]
    simp [named]
  | cons t names ih =>
    obtain ⟨ht, hnames⟩ := List.forall_mem_cons.1 hnames
    have hstart : terminated (t :: names) = t ++ ',' :: terminated names := by
      simp [terminated]
    rw [hstart, nameLoop_append ht]
    by_cases hhit : t ≠ [] ∧ t = name
    · obtain ⟨hne, rfl⟩ := hhit
      have hcount : (named (t :: names)).count t = (named names).count t + 1 := by
        simp [named, hne]
      rw [hcount, if_pos ⟨hne, rfl⟩, Nat.add_right_comm, UidList.push_zeros]
      have hrest := ih hnames (ws ++ [uid])
      rw [List.length_append, List.length_singleton] at hrest
      have hi : ws.length + 1 + (named names).count t = ws.length + ((named names).count t + 1) := by
        omega
      show nameLoop t uid _ _ = _
      rw [hrest, List.replicate_succ, hi]
      simp
    · have hcount : (named (t :: names)).count name = (named names).count name := by
        by_cases hne : t = []
        · simp [named, hne]
        · have htn : ¬ t = name := fun htn => hhit ⟨hne, htn⟩
          simp [named, hne, htn]
      rw [hcount, if_neg hhit]
      exact ih hnames ws

theorem nameLoop_ne_ok {start : Bytes} (hne : start ≠ []) (hlast : start.getLast? ≠ some ',')
    (name : Bytes) (uid : Uid) (l l' : UidList) : nameLoop name uid l start ≠ .ok l' := by
  induction hlen : start.length using Nat.strong_induction_on generalizing start l with
  | h n ih =>
    by_cases hmem : ',' ∈ start
    · obtain ⟨t, rest, rfl, ht⟩ := List.eq_append_cons_of_mem hmem
      have hrest : rest ≠ [] := by
        rintro rfl
        exact hlast (by simp)
      have hlast : rest.getLast? ≠ some ',' := by
        rcases List.eq_nil_or_concat rest with rfl | ⟨init, z, rfl⟩
        · exact absurd rfl hrest
        · simpa [List.getLast?_append, List.getLast?_cons] using hlast
      rw [nameLoop_append ht]
      intro hok
      obtain ⟨l₁, -, hloop⟩ := Loops.bind_eq_ok.1 hok
      refine ih rest.length ?_ hrest hlast l₁ rfl hloop
      rw [← hlen, List.length_append, List.length_cons]
      omega
    · rw [nameLoop_last hmem hne]
      intro hok
      obtain ⟨l₁, -, herror⟩ := Loops.bind_eq_ok.1 hok
      cases herror

theorem countLoop_cons (i : Nat) (c : Char) (next : Bytes) :
    countLoop i (c :: next) = .ok (i + 1 + next.count ',') := by
  induction hlen : next.length using Nat.strong_induction_on generalizing i c next with
  | h n ih =>
    by_cases hmem : ',' ∈ next
    · obtain ⟨t, rest, rfl, ht⟩ := List.eq_append_cons_of_mem hmem
      have hlt : rest.length < n := by
        rw [← hlen, List.length_append, List.length_cons]
        omega
      rw [countLoop]
      split
      · next hcomma =>
        rw [strchrnul_append ht] at hcomma
        cases hcomma
      · next hcomma =>
        rw [strchrnul_append ht] at hcomma
        cases hcomma
        rw [ih rest.length hlt (i + 1) ',' rest rfl, List.count_append, List.count_cons_self,
          List.count_eq_zero_of_not_mem ht]
        congr 1
        omega
    · have hnone : strchrnul ',' next = [] :=
        List.dropWhile_eq_nil_iff.2 (Fields.bne_of_notMem hmem)
      rw [countLoop]
      split
      · rw [List.count_eq_zero_of_not_mem hmem]
      · next hcomma =>
        rw [hnone] at hcomma
        cases hcomma

end

/-! ## Packages -/

structure Package where
  name : Bytes
  uid : Uid
  rest : Bytes
  uid_ne : uid ≠ 0
  name_plain : ' ' ∉ name ∧ '\n' ∉ name ∧ '\x00' ∉ name
  rest_plain : '\n' ∉ rest ∧ '\x00' ∉ rest

namespace Package

def line (p : Package) : Bytes := p.name ++ ' ' :: (printU p.uid ++ ' ' :: p.rest)

def file (packages : List Package) : Bytes := packages.flatMap (·.line ++ ['\n'])

theorem notMem_printU (n : BitVec 32) {c : Char} (hc : c.isDigit = false) : c ∉ printU n := by
  intro hmem
  rw [Java.isDigit_of_mem_valueOf hmem] at hc
  cases hc

theorem packageOf_line (p : Package) : packageOf (p.line ++ ['\n']) = some (p.name, p.uid) := by
  have hline : p.line ++ ['\n'] =
      p.name ++ ' ' :: (printU p.uid ++ ' ' :: (p.rest ++ ['\n'])) := by
    simp [line]
  have huid := p.uid.isLt
  have hstrtoul : strtoul (printU p.uid) = (p.uid.toNat, []) :=
    strtoul_valueOf (by omega)
  have hne : (printU p.uid == []) = false :=
    beq_eq_false_iff_ne.2 (Java.valueOf_ne_nil p.uid.toNat)
  have hdigits := Fields.takeWhile_append_cons (notMem_printU p.uid (show ' '.isDigit = false by rfl))
    (p.rest ++ ['\n'])
  unfold packageOf
  rw [hline, strsep_append p.name_plain.1]
  have hzero : decide (p.uid = 0) = false := decide_eq_false p.uid_ne
  simp only [hdigits, hstrtoul, BitVec.ofNat_toNat, BitVec.setWidth_eq, hne, hzero]
  rfl

theorem filterMap_file (packages : List Package) :
    ((getlines (file packages)).map cstr).filterMap packageOf =
      packages.map fun p => (p.name, p.uid) := by
  have hfile : file packages = (packages.map line).flatMap (· ++ ['\n']) := by
    rw [file, List.flatMap_map]
  have hlines : ∀ l ∈ packages.map line, '\n' ∉ l ∧ '\x00' ∉ l := by
    intro l hl
    obtain ⟨p, -, rfl⟩ := List.mem_map.1 hl
    have hn := notMem_printU p.uid (show '\n'.isDigit = false by rfl)
    have h0 := notMem_printU p.uid (show '\x00'.isDigit = false by rfl)
    simp [line, p.name_plain, p.rest_plain, hn, h0]
  rw [hfile, getlines_cstr hlines, List.map_map, List.filterMap_map,
    ← List.filterMap_eq_map]
  exact List.filterMap_congr fun p _ => p.packageOf_line

def Listed (text : Bytes) (p : Package) : Prop := p.name ≠ [] ∧ p.name ∈ text.splitOn ','

def found (names : List Bytes) (packages : List Package) : List Uid :=
  packages.flatMap fun p => List.replicate ((named names).count p.name) p.uid

variable {names : List Bytes} {packages : List Package}

theorem mem_found {uid : Uid} : uid ∈ found names packages ↔
    ∃ p ∈ packages, p.name ∈ named names ∧ p.uid = uid := by
  unfold found
  rw [List.mem_flatMap]
  apply exists_congr
  intro p
  rw [List.mem_replicate, ← Nat.pos_iff_ne_zero, List.count_pos_iff, eq_comm (a := uid)]

theorem listed_terminated (hnames : ∀ t ∈ names, ',' ∉ t) (p : Package) :
    p.Listed (terminated names) ↔ p.name ∈ named names := by
  unfold Listed terminated named
  rw [Fields.splitOn_terminated hnames]
  simp only [List.mem_append, List.mem_singleton, List.mem_filter, decide_eq_true_eq]
  constructor
  · rintro ⟨hne, hmem | hnil⟩
    · exact ⟨hmem, hne⟩
    · exact absurd hnil hne
  · exact fun h => ⟨h.2, .inl h.1⟩

theorem length_flatMap_count_le (hunique : (packages.map name).Nodup) (ts : List Bytes) :
    (packages.flatMap fun p => List.replicate (ts.count p.name) p.uid).length ≤ ts.length := by
  induction packages generalizing ts with
  | nil => exact Nat.zero_le _
  | cons p packages ih =>
    obtain ⟨hnot, hunique⟩ := List.nodup_cons.1 hunique
    -- the names of the other packages are still there when this one's is taken out
    have hothers : ∀ q ∈ packages, List.replicate (ts.count q.name) q.uid =
        List.replicate ((ts.filter (· != p.name)).count q.name) q.uid := by
      intro q hq
      have hne : (q.name != p.name) = true := by
        rw [bne_iff_ne]
        intro heq
        exact hnot (heq ▸ List.mem_map_of_mem hq)
      rw [List.count_filter (p := (· != p.name)) hne]
    have hlen : ts.count p.name + (ts.filter (· != p.name)).length = ts.length := by
      have hsplit := List.length_eq_countP_add_countP (l := ts) (· == p.name)
      rw [← List.countP_eq_length_filter, hsplit]
      congr 1
      apply List.countP_congr
      simp
    have hrest := ih hunique (ts.filter (· != p.name))
    rw [List.flatMap_cons, List.length_append, List.length_replicate,
      List.flatMap_congr hothers]
    omega

-- A name in the text is that of one package at most.
theorem length_found_le (hunique : (packages.map name).Nodup) (names : List Bytes) :
    (found names packages).length ≤ (named names).length :=
  length_flatMap_count_le hunique (named names)

theorem foldlM_nameLoop (hnames : ∀ t ∈ names, ',' ∉ t) (ws : List Uid) (k : Nat) :
    (packages.map fun p => (p.name, p.uid)).foldlM
        (fun l p => nameLoop p.1 p.2 l (terminated names))
        ⟨ws ++ List.replicate ((found names packages).length + k) 0, ws.length⟩ =
      .ok ⟨ws ++ found names packages ++ List.replicate k 0,
        ws.length + (found names packages).length⟩ := by
  induction packages generalizing ws with
  | nil =>
    show Except.ok _ = Except.ok _
    simp [found]
  | cons p packages ih =>
    have hfound : found names (p :: packages) =
        List.replicate ((named names).count p.name) p.uid ++ found names packages := rfl
    have hlen : (found names (p :: packages)).length + k =
        (named names).count p.name + ((found names packages).length + k) := by
      rw [hfound, List.length_append, List.length_replicate, Nat.add_assoc]
    have hrest := ih (ws ++ List.replicate ((named names).count p.name) p.uid)
    rw [List.length_append, List.length_replicate] at hrest
    rw [List.map_cons, List.foldlM_cons, hlen, nameLoop_terminated hnames]
    show List.foldlM _ _ _ = _
    rw [hrest, hfound, List.length_append, List.length_replicate, List.append_assoc,
      Nat.add_assoc]
    simp

end Package

/-- The sorted ids of the packages whose names stand in the text, and a zero behind them. -/
def Lists (text : Bytes) (packages : List Package) (entries : List Uid) : Prop :=
  ∃ uids rest, entries = uids ++ 0 :: rest ∧ uids.Pairwise (· ≤ ·) ∧
    ∀ uid, uid ∈ uids ↔ ∃ p ∈ packages, p.Listed text ∧ p.uid = uid

section

variable (q : Qsort) {packages : List Package} {text : Bytes}

theorem getUidList_some (file : Bytes) :
    getUidList q.sort (.ok file) (some text) = (countLoop 1 text).bind fun size =>
      ((((getlines file).map cstr).filterMap packageOf).foldlM
        (fun l p => nameLoop p.1 p.2 l text) ⟨List.replicate size 0, 0⟩).bind fun l =>
          .ok (q.sort (l.entries.take l.i) ++ l.entries.drop l.i) := by
  rfl

theorem count_terminated {names : List Bytes} (hnames : ∀ t ∈ names, ',' ∉ t) :
    (terminated names).count ',' = names.length := by
  induction names with
  | nil => rfl
  | cons t names ih =>
    obtain ⟨ht, hnames⟩ := List.forall_mem_cons.1 hnames
    have hstart : terminated (t :: names) = t ++ ',' :: terminated names := by
      simp [terminated]
    rw [hstart, List.count_append, List.count_cons_self, ih hnames,
      List.count_eq_zero_of_not_mem ht, List.length_cons, Nat.zero_add]

-- A comma at the very start of the text is not counted, but then the first name is empty.
theorem countLoop_terminated {names : List Bytes} (hne : names ≠ [])
    (hnames : ∀ t ∈ names, ',' ∉ t) :
    ∃ size, countLoop 1 (terminated names) = .ok size ∧ (named names).length + 2 ≤ size := by
  cases names with
  | nil => exact absurd rfl hne
  | cons t names =>
    obtain ⟨ht, hrest⟩ := List.forall_mem_cons.1 hnames
    have hle : (named names).length ≤ names.length := List.length_filter_le _ _
    cases t with
    | nil =>
      refine ⟨_, countLoop_cons 1 ',' (terminated names), ?_⟩
      have hnamed : named ([] :: names) = named names := rfl
      rw [count_terminated hrest, hnamed]
      omega
    | cons c cs =>
      have hcs : ',' ∉ cs := fun hmem => ht (List.mem_cons_of_mem c hmem)
      have hstart : terminated ((c :: cs) :: names) = c :: (cs ++ ',' :: terminated names) := by
        simp [terminated]
      have hnamed : named ((c :: cs) :: names) = (c :: cs) :: named names := rfl
      refine ⟨_, by rw [hstart, countLoop_cons], ?_⟩
      rw [List.count_append, List.count_cons_self, count_terminated hrest,
        List.count_eq_zero_of_not_mem hcs, hnamed, List.length_cons]
      omega

theorem getUidList_terminated {names : List Bytes} (hne : names ≠ [])
    (hnames : ∀ t ∈ names, ',' ∉ t) (hunique : (packages.map Package.name).Nodup) :
    ∃ k, getUidList q.sort (.ok (Package.file packages)) (some (terminated names)) =
      .ok (q.sort (Package.found names packages) ++ 0 :: List.replicate k 0) := by
  obtain ⟨size, hsize, hle⟩ := countLoop_terminated hne hnames
  have hfound := Package.length_found_le hunique names
  obtain ⟨k, rfl⟩ : ∃ k, size = (Package.found names packages).length + (k + 1) :=
    ⟨size - (Package.found names packages).length - 1, by omega⟩
  have hfold := @Package.foldlM_nameLoop names packages hnames [] (k + 1)
  rw [List.nil_append, List.length_nil, List.nil_append, Nat.zero_add] at hfold
  refine ⟨k, ?_⟩
  rw [getUidList_some, hsize, Package.filterMap_file]
  show Except.bind (List.foldlM _ _ _) _ = _
  rw [hfold]
  show Except.ok _ = Except.ok _
  rw [List.take_left, List.drop_left, List.replicate_succ]

-- Every package is looked for in the text, so the first one already reads beyond it.
theorem getUidList_unterminated (hne : text ≠ []) (hlast : text.getLast? ≠ some ',')
    (hpackages : packages ≠ []) (entries : List Uid) :
    getUidList q.sort (.ok (Package.file packages)) (some text) ≠ .ok entries := by
  cases packages with
  | nil => exact absurd rfl hpackages
  | cons p packages =>
    rw [getUidList_some, Package.filterMap_file]
    intro hok
    obtain ⟨size, -, hok⟩ := Loops.bind_eq_ok.1 hok
    obtain ⟨l, hfold, -⟩ := Loops.bind_eq_ok.1 hok
    obtain ⟨l₁, hfirst, -⟩ := Loops.foldlM_cons_eq_ok.1 hfold
    exact nameLoop_ne_ok hne hlast _ _ _ _ hfirst

-- No id is zero, so the list is what stands before the first zero.
theorem Lists.sorted {uids : List Uid} {k : Nat} (huids : ∀ uid ∈ uids, ∃ p ∈ packages, p.uid = uid)
    (h : Lists text packages (uids ++ 0 :: List.replicate k 0)) : uids.Pairwise (· ≤ ·) := by
  obtain ⟨uids', rest, heq, hsorted, hmem⟩ := h
  have hzero : (0 : Uid) ∉ uids := by
    intro hin
    obtain ⟨p, -, hp⟩ := huids 0 hin
    exact p.uid_ne hp
  have hzero' : (0 : Uid) ∉ uids' := by
    intro hin
    obtain ⟨p, -, -, hp⟩ := (hmem 0).1 hin
    exact p.uid_ne hp
  have hsame := congrArg (List.takeWhile (· != (0 : Uid))) heq
  rw [Fields.takeWhile_append_cons hzero, Fields.takeWhile_append_cons hzero'] at hsame
  exact hsame ▸ hsorted

theorem found_mem_iff {names : List Bytes} (hnames : ∀ t ∈ names, ',' ∉ t) (uid : Uid) :
    uid ∈ Package.found names packages ↔
      ∃ p ∈ packages, p.Listed (terminated names) ∧ p.uid = uid := by
  simp only [Package.mem_found, Package.listed_terminated hnames]

/-- For a text and packages with different names, every `qsort` lists the ids and all reading and
writing is within bounds, exactly when the text is not empty, its last name ends with a comma or
there are no packages, and the listed ids are less than `2 ^ 31` from each other. -/
theorem getUidList_lists_iff (hunique : (packages.map Package.name).Nodup) :
    (∀ q : Qsort, ∃ entries,
      getUidList q.sort (.ok (Package.file packages)) (some text) = .ok entries ∧
        Lists text packages entries) ↔
      text ≠ [] ∧ (text.getLast? = some ',' ∨ packages = []) ∧
        ∀ p ∈ packages, p.Listed text → ∀ p' ∈ packages, p'.Listed text →
          p.uid.toNat < p'.uid.toNat + 2147483648 := by
  have hterminated : text.getLast? = some ',' → ∃ names : List Bytes,
      (∀ t ∈ names, ',' ∉ t) ∧ text = terminated names := by
    intro hlast
    apply Fields.exists_terminated
    intro a ha
    rw [hlast] at ha
    exact (Option.some.inj ha).symm
  constructor
  · intro hall
    obtain ⟨entries, hget, -⟩ := hall Qsort.merge
    have hne : text ≠ [] := by
      rintro rfl
      rw [getUidList_some, countLoop] at hget
      cases hget
    have hends : text.getLast? = some ',' ∨ packages = [] := by
      by_contra hnot
      rw [not_or] at hnot
      exact getUidList_unterminated Qsort.merge hne hnot.1 hnot.2 entries hget
    refine ⟨hne, hends, fun p hp hlisted p' hp' hlisted' => ?_⟩
    -- ids too far from each other come out in the wrong order from some `qsort`
    by_contra hfar
    rcases hends with hlast | rfl
    · obtain ⟨names, hnames, rfl⟩ := hterminated hlast
      have hmem : ∀ uid, uid ∈ Package.found names packages ↔ _ := found_mem_iff hnames
      obtain ⟨k, hdown⟩ := getUidList_terminated Qsort.downwards
        (fun hnil => hne (by rw [hnil]; rfl)) hnames hunique
      obtain ⟨entries, hget, hlists⟩ := hall Qsort.downwards
      cases hdown.symm.trans hget
      apply Qsort.downwards_of_far ((hmem p.uid).2 ⟨p, hp, hlisted, rfl⟩)
        ((hmem p'.uid).2 ⟨p', hp', hlisted', rfl⟩) (by omega)
      refine hlists.sorted fun uid huid => ?_
      obtain ⟨p, hp, -, hid⟩ := (hmem uid).1 ((Qsort.downwards.perm _).mem_iff.1 huid)
      exact ⟨p, hp, hid⟩
    · cases hp
  · rintro ⟨hne, hlast | rfl, hnear⟩ q
    · obtain ⟨names, hnames, rfl⟩ := hterminated hlast
      have hmem : ∀ uid, uid ∈ Package.found names packages ↔ _ := found_mem_iff hnames
      obtain ⟨k, hget⟩ := getUidList_terminated q (fun hnil => hne (by rw [hnil]; rfl)) hnames hunique
      have hnear : Near (Package.found names packages) := by
        intro a ha b hb
        obtain ⟨p, hp, hlisted, rfl⟩ := (hmem a).1 ha
        obtain ⟨p', hp', hlisted', rfl⟩ := (hmem b).1 hb
        exact hnear p hp hlisted p' hp' hlisted'
      refine ⟨_, hget, _, _, rfl, q.sort_of_near hnear, fun uid => ?_⟩
      rw [(q.perm _).mem_iff, hmem]
    · cases text with
      | nil => exact absurd rfl hne
      | cons c next =>
        have hget : getUidList q.sort (.ok (Package.file [])) (some (c :: next)) =
            .ok (q.sort [] ++ 0 :: List.replicate (1 + next.count ',') 0) := by
          rw [getUidList_some, countLoop_cons, Package.filterMap_file]
          show Except.ok (q.sort [] ++ List.replicate (1 + 1 + next.count ',') 0) = _
          rw [Nat.add_assoc, Nat.add_comm 1, List.replicate_succ]
        have hnil : q.sort [] = [] := (q.perm []).eq_nil
        refine ⟨_, hget, [], _, by rw [hnil, List.nil_append], List.Pairwise.nil, ?_⟩
        simp

end

def fooPackage : Package :=
  ⟨"com.foo".toList, 10001, "0 /data/user/0/com.foo default".toList, by decide, by decide,
    by decide⟩

theorem fooPackage_lists :
    ∃ entries, getUidList Qsort.merge.sort (.ok (Package.file [fooPackage]))
        (some "com.foo,com.bar,".toList) = .ok entries ∧
      Lists "com.foo,com.bar,".toList [fooPackage] entries := by
  refine (getUidList_lists_iff (by decide)).2 ⟨by decide, .inl (by decide), ?_⟩ Qsort.merge
  intro p hp _ p' hp' _
  rw [List.mem_singleton.1 hp, List.mem_singleton.1 hp']
  decide

/-- The name of an application as it comes from a configuration has no comma behind it, and the
loop goes on to read behind the end of the text. -/
theorem fooPackage_reads_beyond :
    (parseOptions "[Interface]\nExcludedApplications = com.foo\n".toList).list
        .excludedApplications = some "com.foo".toList ∧
      getUidList Qsort.merge.sort (.ok (Package.file [fooPackage])) (some "com.foo".toList) =
        .error .readsBeyondText := by
  refine ⟨by decide, ?_⟩
  have hcount : countLoop 1 "com.foo".toList = .ok 2 := countLoop_cons 1 'c' "om.foo".toList
  have hloop : nameLoop "com.foo".toList 10001 ⟨[0, 0], 0⟩ "com.foo".toList =
      .error .readsBeyondText := by
    rw [nameLoop_last (by decide) (by decide)]
    decide
  rw [getUidList_some, hcount, Package.filterMap_file]
  show Except.bind (Except.bind (nameLoop "com.foo".toList 10001 ⟨[0, 0], 0⟩ "com.foo".toList) _)
    _ = _
  rw [hloop]
  rfl

/-- From the list of the packages to the commands for `netd`: an id is in one of the ranges unless
it is that of a package that is named.  Shared ids and names without a package make no difference. -/
theorem setUsers_excludes_packages (q : Qsort) {names : List Bytes} (hne : names ≠ [])
    (hnames : ∀ t ∈ names, ',' ∉ t) {packages : List Package}
    (hunique : (packages.map Package.name).Nodup)
    (hbound : ∀ p ∈ packages, 1 ≤ p.uid.toNat ∧ p.uid.toNat < 99998) (netid : BitVec 32) :
    ∃ (s : Users) (batches : List (List (Nat × Nat))),
      setUsers (getUidList q.sort (.ok (Package.file packages))) netid
        (some (terminated names)) none = .ok s ∧
      s.commands = batches.map (usersAdd netid) ∧
      Covers batches.flatten fun id => id ≤ 99999 ∧
        ¬ ∃ p ∈ packages, p.name ∈ named names ∧ p.uid.toNat = id := by
  obtain ⟨k, hget⟩ := getUidList_terminated q hne hnames hunique
  have hfound : ∀ u ∈ Package.found names packages, 1 ≤ u.toNat ∧ u.toNat < 99998 := by
    intro u hu
    obtain ⟨p, hp, -, rfl⟩ := Package.mem_found.1 hu
    exact hbound p hp
  let uids := q.sort (Package.found names packages)
  have huids : ∀ u ∈ uids, 1 ≤ u.toNat ∧ u.toNat < 99998 :=
    fun u hu => hfound u ((q.perm _).mem_iff.1 hu)
  have hnear : Near (Package.found names packages) := by
    intro a ha b hb
    have hlt := (hfound a ha).2
    omega
  have hsorted : (uids.map BitVec.toNat).Pairwise (· ≤ ·) :=
    List.pairwise_map.2 (q.sort_of_near hnear)
  have hmem : ∀ id, id ∈ uids.map BitVec.toNat ↔
      ∃ p ∈ packages, p.name ∈ named names ∧ p.uid.toNat = id := by
    intro id
    simp only [uids, List.mem_map, (q.perm _).mem_iff, Package.mem_found]
    constructor
    · rintro ⟨_, ⟨p, hp, hname, rfl⟩, hid⟩
      exact ⟨p, hp, hname, hid⟩
    · rintro ⟨p, hp, hname, hid⟩
      exact ⟨p.uid, ⟨p, hp, hname, rfl⟩, hid⟩
  have hnat : ∀ n ∈ uids.map BitVec.toNat, 1 ≤ n ∧ n < 99998 := List.forall_mem_map.2 huids
  have hlast : (uids.map BitVec.toNat).getLast? ≠ some 99998 := by
    intro heq
    have hlt := (hnat _ (List.mem_of_getLast? heq)).2
    omega
  obtain ⟨batches, hcommands, -, -, hflatten⟩ := Users.excluded_batches netid (List.replicate k 0)
    fun u hu => ⟨(huids u hu).1, by have hlt := (huids u hu).2; omega⟩
  refine ⟨_, batches, setUsers_excluded hget, hcommands, ?_⟩
  have hcovers := (covers_excluded_iff hsorted
    fun n hn => ⟨(hnat n hn).1, by have hlt := (hnat n hn).2; omega⟩).2 hlast
  rw [hflatten]
  simpa only [hmem] using hcovers

theorem setUsers_excludes_fooPackage : ∃ (s : Users) (batches : List (List (Nat × Nat))),
    setUsers (getUidList Qsort.merge.sort (.ok (Package.file [fooPackage]))) 4096
      (some "com.foo,com.bar,".toList) none = .ok s ∧
    s.commands = batches.map (usersAdd 4096) ∧
    Covers batches.flatten fun id => id ≤ 99999 ∧ ¬ ∃ p ∈ [fooPackage],
      p.name ∈ named ["com.foo".toList, "com.bar".toList] ∧ p.uid.toNat = id :=
  @setUsers_excludes_packages Qsort.merge ["com.foo".toList, "com.bar".toList] (by decide)
    (by decide) [fooPackage] (by decide) (List.forall_mem_singleton.2 (by decide)) 4096

end Amnezia.Tools
