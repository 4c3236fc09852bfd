import Amnezia.Model.TunnelName
import Amnezia.Tools.Printed

/-!
# Where awg-quick puts each line

The loop of `parse_options` on any file: which lines it takes for itself, what is left for
`awg setconf`, and which lines make it start the userspace implementation.
-/

namespace Amnezia.Tools

open Libc

/-- `clean`, for a line of the file, which is read up to its NUL. -/
def squeezeLine (line : Bytes) : Bytes := (cstr line).filter fun c => !isspace c

/-- The key that a line gives a value, where it is one of those that are compared. -/
def keyOf (clean : Bytes) : Option (OptionKey × Bytes) :=
  match strsep '=' clean with
  | (name, some value) =>
    (optionKeys.find? fun k => sameNoCase name k.key.toList).map fun k => (k, value)
  | (_, none) => none

/-- The option that a line of an interface section belongs to, and its value. -/
def placeOf (clean : Bytes) : Option (OptionAction × Bytes) :=
  (keyOf clean).bind fun (k, value) =>
    if k.action ≠ .awg ∧
      (value ≠ [] ∨ k.key ∈ ["ExcludedApplications", "IncludedApplications"]) then
      some (k.action, value)
    else none

variable {clean value : Bytes} {k : OptionKey}

theorem mem_optionKeys (h : keyOf clean = some (k, value)) : k ∈ optionKeys := by
  unfold keyOf at h
  split at h
  · obtain ⟨k', hk', heq⟩ := Option.map_eq_some_iff.1 h
    cases heq
    exact List.mem_of_find?_eq_some hk'
  · cases h

theorem optionOf_of_notMem (h : '=' ∉ clean) : optionOf clean = none := by
  rw [optionOf, List.findSome?_eq_none_iff]
  intro k _
  have hstarts : startsNoCase clean (k.key.toList ++ ['=']) = false := by
    apply eq_false_of_ne_true
    intro hsame
    have hmem : '='.toLower ∈ (k.key.toList ++ ['=']).map Char.toLower := by simp
    rw [← beq_iff_eq.1 hsame] at hmem
    exact notMem_map_toLower (fun hin => h (List.mem_of_mem_take hin)) hmem
  rw [hstarts]
  rfl

theorem optionKeys_unique : ∀ k ∈ optionKeys,
    (optionKeys.filter fun k' => sameNoCase k.key.toList k'.key.toList) = [k] := by
  decide

theorem optionOf_eq (clean : Bytes) : optionOf clean = (keyOf clean).bind fun (k, value) =>
    if k.bound < k.key.length + (value.length + 1) then some (k.action, value) else none := by
  by_cases hmem : '=' ∈ clean
  · obtain ⟨name, value, rfl, hname⟩ := List.eq_append_cons_of_mem hmem
    have hkeyOf : keyOf (name ++ '=' :: value) =
        (optionKeys.find? fun k => sameNoCase name k.key.toList).map fun k => (k, value) := by
      rw [keyOf, strsep_append hname]
    rw [optionOf_key hname, hkeyOf]
    cases hfind : optionKeys.find? fun k => sameNoCase name k.key.toList with
    | none =>
      rw [List.filter_eq_nil_iff.2 (List.find?_eq_none.1 hfind)]
      rfl
    | some k =>
      have hkey : sameNoCase name k.key.toList = true := by
        simpa using List.find?_some hfind
      -- names that differ in case only are the same to every comparison
      have hsame : sameNoCase name = sameNoCase k.key.toList := by
        funext other
        unfold sameNoCase at hkey ⊢
        rw [beq_iff_eq.1 hkey]
      rw [hsame, optionKeys_unique k (List.mem_of_find?_eq_some hfind), List.findSome?_singleton,
        length_eq_of_sameNoCase hkey, String.length_toList]
      rfl
  · rw [optionOf_of_notMem hmem, keyOf, strsep_of_notMem hmem]
    rfl

theorem placeOf_eq (clean : Bytes) : placeOf clean = (optionOf clean).filter (·.1 ≠ .awg) := by
  have hbounds : ∀ k ∈ optionKeys, k.action ≠ .awg →
      if k.key ∈ ["ExcludedApplications", "IncludedApplications"] then k.bound ≤ k.key.length
      else k.bound = k.key.length + 1 := by
    decide
  rw [optionOf_eq, placeOf]
  cases hkey : keyOf clean with
  | none => rfl
  | some r =>
    obtain ⟨k, value⟩ := r
    by_cases hawg : k.action = .awg
    · simp only [Option.bind_some, hawg, ne_eq, not_true_eq_false, false_and, if_false]
      split <;> rfl
    · have hbound := hbounds k (mem_optionKeys hkey) hawg
      have hpos : value ≠ [] ↔ 0 < value.length := List.length_pos_iff.symm
      have hlong : k.bound < k.key.length + (value.length + 1) ↔ k.action ≠ .awg ∧
          (value ≠ [] ∨ k.key ∈ ["ExcludedApplications", "IncludedApplications"]) := by
        rw [hpos]
        split at hbound
        · next happs => exact iff_of_true (by omega) ⟨hawg, .inr happs⟩
        · next happs => simp only [hawg, happs, ne_eq, not_false_eq_true, true_and, or_false]; omega
      simp only [Option.bind_some, ← hlong]
      split
      · simp [Option.filter, hawg]
      · rfl

def marked : Bool → List Bytes → List (Bytes × Bool)
  | _, [] => []
  | inside, line :: lines =>
    let inside := Options.sectionAfter inside (squeezeLine line)
    (line, inside) :: marked inside lines

/-- The option that a line belongs to; `none` is the configuration for `awg setconf`. -/
def place (x : Bytes × Bool) : Option (OptionAction × Bytes) :=
  if x.2 then placeOf (squeezeLine x.1) else none

def linesLeft (ls : List (Bytes × Bool)) : List Bytes :=
  (ls.filter fun x => place x = none).map (·.1)

def valuesOf (act : OptionAction) (ls : List (Bytes × Bool)) : List Bytes :=
  ls.filterMap fun x => (place x).bind fun p => if p.1 = act then some p.2 else none

def noticed (x : Bytes × Bool) : Bool :=
  x.2 && (optionOf (squeezeLine x.1)).any fun r => r.1 = .awg

structure Collected (o o' : Options) (ls : List (Bytes × Bool)) : Prop where
  config : o'.config = (linesLeft ls).foldl (concatAndFree · []) o.config
  list : ∀ l, o'.list l = (valuesOf (.list l) ls).foldl (concatAndFree · [',']) (o.list l)
  mtu : o'.mtu = ((valuesOf .mtu ls).map fun v => (atoi v).toNat).getLastD o.mtu
  isAwgOn : o'.isAwgOn = (o.isAwgOn || ls.any noticed)

theorem Collected.trans {o₁ o₂ o₃ : Options} {xs ys : List (Bytes × Bool)}
    (h₁ : Collected o₁ o₂ xs) (h₂ : Collected o₂ o₃ ys) : Collected o₁ o₃ (xs ++ ys) := by
  constructor
  · rw [h₂.config, h₁.config, ← List.foldl_append]
    simp [linesLeft]
  · intro l
    rw [h₂.list, h₁.list, ← List.foldl_append]
    simp [valuesOf]
  · rw [h₂.mtu, h₁.mtu]
    simp [valuesOf, List.getLastD_eq_getLast?, List.getLast?_append]
  · rw [h₂.isAwgOn, h₁.isAwgOn, List.any_append, Bool.or_assoc]

variable {o o' : Options} {x : Bytes × Bool}

theorem Collected.left (hx : place x = none) (hconfig : o'.config = concatAndFree o.config [] x.1)
    (hlist : o'.list = o.list) (hmtu : o'.mtu = o.mtu)
    (hawg : o'.isAwgOn = (o.isAwgOn || noticed x)) : Collected o o' [x] := by
  constructor
  · simp [linesLeft, hx, hconfig]
  · simp [valuesOf, hx, hlist]
  · simp [valuesOf, hx, hmtu]
  · simp [hawg]

theorem Collected.taken {act : OptionAction} (hx : place x = some (act, value))
    (hconfig : o'.config = o.config)
    (hlist : ∀ l, o'.list l =
      if act = .list l then concatAndFree (o.list l) [','] value else o.list l)
    (hmtu : o'.mtu = if act = .mtu then (atoi value).toNat else o.mtu)
    (hawg : o'.isAwgOn = (o.isAwgOn || noticed x)) : Collected o o' [x] := by
  constructor
  · simp [linesLeft, hx, hconfig]
  · intro l
    rw [hlist]
    split <;> simp [valuesOf, *]
  · rw [hmtu]
    split <;> simp [valuesOf, *]
  · simp [hawg]

theorem readLine_collected (o : Options) {line : Bytes} (hline : '\x00' ∉ line) :
    Collected o (o.readLine line) (marked o.inInterfaceSection [line]) ∧
      (o.readLine line).inInterfaceSection =
        Options.sectionAfter o.inInterfaceSection (squeezeLine line) := by
  have hplace := placeOf_eq (squeezeLine line)
  have hclean : (line.filter fun c => !isspace c) = squeezeLine line := by
    rw [squeezeLine, cstr_of_notMem hline]
  unfold Options.readLine
  simp only [hclean, marked]
  cases Options.sectionAfter o.inInterfaceSection (squeezeLine line) with
  | false => exact ⟨.left rfl rfl rfl rfl (Bool.or_false _).symm, rfl⟩
  | true =>
    have hnoticed : noticed (line, true) =
      (optionOf (squeezeLine line)).any fun r => r.1 = .awg := Bool.true_and _
    cases hopt : optionOf (squeezeLine line) with
    | none =>
      rw [hopt] at hplace hnoticed
      exact ⟨.left hplace rfl rfl rfl (by rw [hnoticed]; exact (Bool.or_false _).symm), rfl⟩
    | some r =>
      obtain ⟨act, value⟩ := r
      rw [hopt] at hplace hnoticed
      cases act with
      | list l =>
        refine ⟨.taken hplace rfl (fun l' => ?_) rfl
          (by rw [hnoticed]; exact (Bool.or_false _).symm), rfl⟩
        by_cases hl : l = l'
        · subst hl
          simp
        · simp [Function.update_of_ne (Ne.symm hl), hl]
      | mtu =>
        exact ⟨.taken hplace rfl (fun l => rfl) rfl
          (by rw [hnoticed]; exact (Bool.or_false _).symm), rfl⟩
      | awg => exact ⟨.left hplace rfl rfl rfl (by rw [hnoticed]; exact (Bool.or_true _).symm), rfl⟩

theorem foldl_collected (o : Options) {lines : List Bytes} (h : ∀ l ∈ lines, '\x00' ∉ l) :
    Collected o (lines.foldl Options.readLine o) (marked o.inInterfaceSection lines) := by
  induction lines generalizing o with
  | nil => exact ⟨rfl, fun l => rfl, rfl, (Bool.or_false _).symm⟩
  | cons line lines ih =>
    obtain ⟨hline, hinside⟩ := readLine_collected o (h line List.mem_cons_self)
    have hrest := ih (o.readLine line) fun l hl => h l (List.mem_cons_of_mem line hl)
    rw [hinside] at hrest
    exact hline.trans hrest

def joinAll (sep : Bytes) (parts : List Bytes) : Option Bytes :=
  if parts = [] then none else some (sep.intercalate parts)

theorem foldl_concatAndFree (sep : Bytes) (parts : List Bytes) :
    parts.foldl (concatAndFree · sep) none = joinAll sep parts := by
  have hsome : ∀ (parts : List Bytes) s, parts.foldl (concatAndFree · sep) (some s) =
      some (sep.intercalate (s :: parts)) := by
    intro parts
    induction parts with
    | nil => simp
    | cons part parts ih =>
      intro s
      rw [List.foldl_cons, List.intercalate_cons_cons]
      show List.foldl _ (some (s ++ sep ++ part)) parts = _
      rw [ih]
      cases parts <;> simp
  cases parts with
  | nil => rfl
  | cons part parts => exact hsome parts part

/-- The options have the values of their lines, and the rest of the lines is in `config`. -/
structure InPlace (ls : List (Bytes × Bool)) (o : Options) : Prop where
  config : o.config = some (linesLeft ls).flatten
  addrs : o.list .addrs = some ([','].intercalate (valuesOf (.list .addrs) ls))
  dnses : o.list .dnses = some ([','].intercalate (valuesOf (.list .dnses) ls))
  excluded : o.list .excludedApplications =
    joinAll [','] (valuesOf (.list .excludedApplications) ls)
  included : o.list .includedApplications =
    joinAll [','] (valuesOf (.list .includedApplications) ls)
  mtu : o.mtu = ((valuesOf .mtu ls).map fun v => (atoi v).toNat).getLastD 0

theorem joinAll_getD (sep : Bytes) (parts : List Bytes) :
    (joinAll sep parts).getD [] = sep.intercalate parts := by
  unfold joinAll
  split
  · next h => rw [h]; rfl
  · rfl

theorem readLines_inPlace {lines : List Bytes} (hnul : ∀ l ∈ lines, '\x00' ∉ l)
    (h : ∀ l ∈ lines, l.length ≤ 65536) :
    InPlace (marked false lines) (Options.readLines {} lines).1 ∧
      (Options.readLines {} lines).1.isAwgOn = (marked false lines).any noticed := by
  have hrun := foldl_collected {} hnul
  have hlist := fun l => (hrun.list l).trans (foldl_concatAndFree _ _)
  rw [Options.readLines_of_le h]
  refine ⟨⟨?_, ?_, ?_, hlist _, hlist _, hrun.mtu⟩, hrun.isAwgOn⟩
  · show some (Option.getD _ _) = _
    rw [hrun.config, foldl_concatAndFree, joinAll_getD, Fields.intercalate_nil]
  · show some (Option.getD _ _) = _
    rw [hlist, joinAll_getD]
  · show some (Option.getD _ _) = _
    rw [hlist, joinAll_getD]

/-- The interface in the name of a file: the match of `/?([a-zA-Z0-9_=+.-]{1,15})\.conf$`. -/
def ifaceOf (filename : Bytes) : Option Bytes :=
  let name := ((filename.rdrop 5).rtakeWhile Model.nameChar).rtake 15
  if ".conf".toList <:+ filename ∧ name ≠ [] then some name else none

/-- `parse_options` on the file it has opened, with `*iface` and the lines it has not put anywhere;
it exits where the name has none. -/
def parseNamedOptions (filename file : Bytes) : Option (Option Bytes × Options × List Bytes) :=
  (ifaceOf filename).map fun iface => (some iface, parseOptionsLeaving file)

/-- The lines of the file are read to the end. -/
def ShortLines (file : Bytes) : Prop :=
  ∀ line ∈ (getlines file).map cstr, line.length ≤ 65536

theorem readLines_left_iff (o : Options) (lines : List Bytes) :
    (o.readLines lines).2 = [] ↔ ∀ l ∈ lines, l.length ≤ 65536 := by
  induction lines generalizing o with
  | nil => simp [Options.readLines]
  | cons line lines ih =>
    rw [Options.readLines, List.forall_mem_cons]
    split
    · exact iff_of_false (List.cons_ne_nil _ _) (by omega)
    · rw [ih]
      exact (and_iff_right (by omega)).symm

-- The part behind a NUL plays no role for the place of a line.
theorem marked_map_cstr (inside : Bool) (lines : List Bytes) :
    marked inside (lines.map cstr) =
      (marked inside lines).map fun x => (cstr x.1, x.2) := by
  induction lines generalizing inside with
  | nil => rfl
  | cons line lines ih =>
    have hclean : squeezeLine (cstr line) = squeezeLine line := by
      rw [squeezeLine, cstr_of_notMem (notMem_cstr line), squeezeLine]
    simp only [List.map_cons, marked, hclean, ih]

theorem place_cstr (x : Bytes × Bool) : place (cstr x.1, x.2) = place x := by
  unfold place squeezeLine
  rw [cstr_of_notMem (notMem_cstr x.1)]

theorem linesLeft_map_cstr (ls : List (Bytes × Bool)) :
    linesLeft (ls.map fun x => (cstr x.1, x.2)) = (linesLeft ls).map cstr := by
  unfold linesLeft
  simp only [List.filter_map, List.map_map, Function.comp_def, place_cstr]

theorem valuesOf_map_cstr (act : OptionAction) (ls : List (Bytes × Bool)) :
    valuesOf act (ls.map fun x => (cstr x.1, x.2)) = valuesOf act ls := by
  unfold valuesOf
  simp only [List.filterMap_map, Function.comp_def, place_cstr]

theorem flatten_cstr_iff (lines : List Bytes) :
    (lines.map cstr).flatten = lines.flatten ↔ ∀ l ∈ lines, '\x00' ∉ l := by
  constructor
  · intro heq l hl hnul
    have hmem : '\x00' ∈ (lines.map cstr).flatten := heq ▸ List.mem_flatten.2 ⟨l, hl, hnul⟩
    obtain ⟨_, hcut, hin⟩ := List.mem_flatten.1 hmem
    obtain ⟨l', -, rfl⟩ := List.mem_map.1 hcut
    exact notMem_cstr l' hin
  · intro h
    rw [List.map_congr_left fun l hl => cstr_of_notMem (h l hl), List.map_id']

theorem mem_linesLeft {ls : List (Bytes × Bool)} {line : Bytes} :
    line ∈ linesLeft ls ↔ ∃ x ∈ ls, place x = none ∧ x.1 = line := by
  simp only [linesLeft, List.mem_map, List.mem_filter, decide_eq_true_eq, and_assoc]

/-- No string is `NULL`, every line is put somewhere, the lines of an option there and the others
unchanged in `config`, if and only if every line is short enough up to its NUL and no line that is
left for `config` has a NUL. -/
theorem parseOptions_places_iff {filename file : Bytes} {iface : Option Bytes} {left : List Bytes}
    (h : parseNamedOptions filename file = some (iface, o, left)) :
    ((iface ≠ none ∧ o.config ≠ none ∧ o.list .addrs ≠ none ∧ o.list .dnses ≠ none) ∧
        left = [] ∧ InPlace (marked false (getlines file)) o) ↔
      ShortLines file ∧
        ∀ x ∈ marked false (getlines file), place x = none → '\x00' ∉ x.1 := by
  obtain ⟨name, -, heq⟩ := Option.map_eq_some_iff.1 h
  unfold parseOptionsLeaving at heq
  have hleft := readLines_left_iff {} ((getlines file).map cstr)
  have hnul : ∀ l ∈ (getlines file).map cstr, '\x00' ∉ l :=
    List.forall_mem_map.2 fun l _ => notMem_cstr l
  have hplaced := readLines_inPlace hnul
  generalize Options.readLines {} ((getlines file).map cstr) = out at heq hleft hplaced
  cases heq
  rw [marked_map_cstr] at hplaced
  have hlines : (∀ x ∈ marked false (getlines file), place x = none → '\x00' ∉ x.1) ↔
      ∀ l ∈ linesLeft (marked false (getlines file)), '\x00' ∉ l := by
    constructor
    · intro hall l hl
      obtain ⟨x, hx, hplace, rfl⟩ := mem_linesLeft.1 hl
      exact hall x hx hplace
    · exact fun hall x hx hplace => hall _ (mem_linesLeft.2 ⟨x, hx, hplace, rfl⟩)
  rw [hlines, ← flatten_cstr_iff, ← linesLeft_map_cstr]
  constructor
  · rintro ⟨-, hnil, hin⟩
    have hshort := hleft.1 hnil
    exact ⟨hshort, Option.some.inj ((hplaced hshort).1.config.symm.trans hin.config)⟩
  · rintro ⟨hshort, hconfig⟩
    obtain ⟨config, addrs, dnses, excluded, included, mtu⟩ := (hplaced hshort).1
    rw [hconfig] at config
    rw [valuesOf_map_cstr] at addrs dnses excluded included mtu
    refine ⟨⟨nofun, ?_, ?_, ?_⟩, hleft.2 hshort, ⟨config, addrs, dnses, excluded, included, mtu⟩⟩
    · rw [config]
      nofun
    · rw [addrs]
      nofun
    · rw [dnses]
      nofun

/-- An address with a NUL behind it, and a key. -/
theorem parseOptions_places_two : ∃ o left, parseNamedOptions "/data/wg0.conf".toList
      "[Interface]\nAddress = 10.0.0.1\x00junk\nJc = 5".toList = some (some "wg0".toList, o, left) ∧
    left = [] ∧ o.config = some "[Interface]\nJc = 5".toList ∧
      o.list .addrs = some "10.0.0.1".toList := by
  have hcond : ShortLines "[Interface]\nAddress = 10.0.0.1\x00junk\nJc = 5".toList ∧
      ∀ x ∈ marked false (getlines "[Interface]\nAddress = 10.0.0.1\x00junk\nJc = 5".toList),
        place x = none → '\x00' ∉ x.1 := by
    unfold ShortLines
    decide
  obtain ⟨-, hleft, hplaced⟩ := (parseOptions_places_iff (show parseNamedOptions
    "/data/wg0.conf".toList "[Interface]\nAddress = 10.0.0.1\x00junk\nJc = 5".toList =
      some (some "wg0".toList, _, _) from rfl)).2 hcond
  exact ⟨_, _, rfl, hleft, hplaced.config, hplaced.addrs⟩

/-- A line that is one byte too long leaves all of them `NULL`. -/
theorem parseOptions_null :
    ∃ o, parseNamedOptions "/data/wg0.conf".toList (List.replicate 65537 'a') =
        some (some "wg0".toList, o, [List.replicate 65537 'a']) ∧
      o.config = none ∧ o.list .addrs = none ∧ o.list .dnses = none := by
  have hlong : ∀ line : Bytes, 65536 < line.length → '\n' ∉ line ∧ '\x00' ∉ line →
      parseOptionsLeaving line = ({}, [line]) := by
    intro line hlength hline
    unfold parseOptionsLeaving
    rw [getlines_of_notMem (List.ne_nil_of_length_pos (by omega)) hline.1, List.map_singleton,
      cstr_of_notMem hline.2, Options.readLines, if_pos hlength]
  have ho := hlong (List.replicate 65537 'a') (by rw [List.length_replicate]; decide)
    ⟨fun h => absurd (List.eq_of_mem_replicate h) (by decide),
      fun h => absurd (List.eq_of_mem_replicate h) (by decide)⟩
  refine ⟨{}, ?_, rfl, rfl, rfl⟩
  unfold parseNamedOptions
  rw [ho]
  rfl

/-- The attributes that can be set to nothing. -/
def emptyKeys : List String := ["I2", "I3", "I4", "I5"]

/-- A line of an interface section that sets an attribute. -/
def SetsAwg (k : OptionKey) (x : Bytes × Bool) : Prop :=
  x.2 = true ∧ k.action = .awg ∧
    ∃ value, keyOf (squeezeLine x.1) = some (k, value) ∧ (value ≠ [] ∨ k.key ∈ emptyKeys)

/-- One character is too short for the bounds of these keys. -/
def strictKeys : List String := ["Jc", "S1", "S2", "S3", "S4", "H1", "H2", "H3", "H4", "I1"]

/-- Nothing is long enough for the bounds of these keys. -/
def laxKeys : List String := ["Jmin", "Jmax"]

def Missed (x : Bytes × Bool) : Prop :=
  x.2 = true ∧ ∃ k c, keyOf (squeezeLine x.1) = some (k, [c]) ∧ k.key ∈ strictKeys

def Spurious (x : Bytes × Bool) : Prop :=
  x.2 = true ∧ ∃ k, keyOf (squeezeLine x.1) = some (k, []) ∧ k.key ∈ laxKeys

theorem optionKeys_bounds : ∀ k ∈ optionKeys,
    if k.action = .awg then
      k.key ∈ strictKeys ∧ k.key ∉ laxKeys ∧ k.key ∉ emptyKeys ∧ k.bound = k.key.length + 2 ∨
        k.key ∉ strictKeys ∧ k.bound ≤ k.key.length ∧ (k.key ∈ laxKeys ∨ k.key ∈ emptyKeys)
    else k.key ∉ strictKeys ∧ k.key ∉ laxKeys := by
  decide

theorem noticed_iff : noticed x = true ↔ ((∃ k, SetsAwg k x) ∧ ¬ Missed x) ∨ Spurious x := by
  obtain ⟨line, inside⟩ := x
  unfold noticed SetsAwg Missed Spurious
  rw [optionOf_eq]
  cases inside with
  | false => simp
  | true =>
    cases hkey : keyOf (squeezeLine line) with
    | none => simp
    | some r =>
      obtain ⟨k, value⟩ := r
      have hbounds := optionKeys_bounds k (mem_optionKeys hkey)
      simp only [Option.bind_some, Bool.true_and, true_and, Option.some.injEq, Prod.mk.injEq]
      split at hbounds
      · next hawg =>
        obtain ⟨hstrict, hlax, hempty, hbound⟩ | ⟨hstrict, hbound, hlow⟩ := hbounds
        · -- two characters are needed
          match value with
          | [] => simp [hbound, hlax, hempty, hawg]
          | [c] => simp [hbound, hstrict, hlax]
          | c :: d :: value => simp [hbound, hawg]
        · rw [if_pos (by omega)]
          by_cases hnil : value = []
          · simpa [hstrict, hnil, hawg] using hlow.symm
          · simp [hstrict, hnil, hawg]
      · next hawg =>
        split <;> simp [hawg, hbounds]

theorem Missed.setsAwg (h : Missed x) : ∃ k, SetsAwg k x := by
  obtain ⟨hin, k, c, hkey, hstrict⟩ := h
  have hbounds := optionKeys_bounds k (mem_optionKeys hkey)
  split at hbounds
  · next hawg => exact ⟨k, hin, hawg, [c], hkey, .inl (List.cons_ne_nil c [])⟩
  · exact absurd hstrict hbounds.1

inductive Implementation where
  | userspace | kernel
  deriving DecidableEq, Repr

def addIf (isAwgOn : Bool) : Implementation := if isAwgOn then .userspace else .kernel

def markedLines (file : Bytes) : List (Bytes × Bool) :=
  marked false ((getlines file).map cstr)

/-- Some line is noticed as it should be, or there are lines that are missed if and only if there
are lines that are noticed without need. -/
def AwgRegular (file : Bytes) : Prop :=
  (∃ x ∈ markedLines file, (∃ k, SetsAwg k x) ∧ ¬ Missed x) ∨
    ((∃ x ∈ markedLines file, Missed x) ↔ ∃ x ∈ markedLines file, Spurious x)

theorem isAwgOn_iff_regular {file : Bytes} (hfile : ShortLines file) :
    ((parseOptions file).isAwgOn = true ↔ ∃ x ∈ markedLines file, ∃ k, SetsAwg k x) ↔
      AwgRegular file := by
  have hrun : (parseOptions file).isAwgOn = true ↔ ∃ x ∈ markedLines file, noticed x = true := by
    rw [← List.any_eq_true]
    have hnul : ∀ l ∈ (getlines file).map cstr, '\x00' ∉ l :=
      List.forall_mem_map.2 fun l _ => notMem_cstr l
    exact Bool.eq_iff_iff.1 (readLines_inPlace hnul hfile).2
  have hsets : (∃ x ∈ markedLines file, ∃ k, SetsAwg k x) ↔
      (∃ x ∈ markedLines file, (∃ k, SetsAwg k x) ∧ ¬ Missed x) ∨
        ∃ x ∈ markedLines file, Missed x := by
    constructor
    · rintro ⟨x, hx, hset⟩
      by_cases hmissed : Missed x
      · exact .inr ⟨x, hx, hmissed⟩
      · exact .inl ⟨x, hx, hset, hmissed⟩
    · rintro (⟨x, hx, hset, -⟩ | ⟨x, hx, hmissed⟩)
      · exact ⟨x, hx, hset⟩
      · exact ⟨x, hx, hmissed.setsAwg⟩
  have hlogic : ∀ clear missed spurious : Prop,
    ((clear ∨ spurious ↔ clear ∨ missed) ↔ clear ∨ (missed ↔ spurious)) := by tauto
  simp only [noticed_iff, and_or_left, exists_or] at hrun
  rw [hrun, hsets]
  exact hlogic _ _ _

/-- `is_awg_on` says whether an attribute is set exactly for the regular files, and among those the
attributes that are set decide which implementation is started. -/
theorem isAwgOn_iff {file : Bytes} (hfile : ShortLines file) :
    (((parseOptions file).isAwgOn = true ↔ ∃ x ∈ markedLines file, ∃ k, SetsAwg k x) ↔
      AwgRegular file) ∧
    ∀ file', ShortLines file' → AwgRegular file → AwgRegular file' →
      (∀ k, (∃ x ∈ markedLines file, SetsAwg k x) ↔ ∃ x ∈ markedLines file', SetsAwg k x) →
      addIf (parseOptions file).isAwgOn = addIf (parseOptions file').isAwgOn := by
  refine ⟨isAwgOn_iff_regular hfile, ?_⟩
  intro file' hfile' hregular hregular' hsame
  congr 1
  rw [Bool.eq_iff_iff, (isAwgOn_iff_regular hfile).2 hregular,
    (isAwgOn_iff_regular hfile').2 hregular']
  have hswap : ∀ file, (∃ x ∈ markedLines file, ∃ k, SetsAwg k x) ↔
      ∃ k, ∃ x ∈ markedLines file, SetsAwg k x := by
    intro file
    constructor
    · exact fun ⟨x, hx, k, hset⟩ => ⟨k, x, hx, hset⟩
    · exact fun ⟨k, x, hx, hset⟩ => ⟨x, hx, k, hset⟩
  simp only [hswap, hsame]

/-- A count of junk packets with two digits. -/
theorem isAwgOn_jc : (parseOptions "[Interface]\nJc = 10\n".toList).isAwgOn = true ∧
    ∃ x ∈ markedLines "[Interface]\nJc = 10\n".toList, ∃ k, SetsAwg k x := by
  have hkey : keyOf (squeezeLine "Jc = 10\n".toList) = some (⟨"Jc", 4, .awg⟩, "10".toList) := by
    decide
  have hset : SetsAwg ⟨"Jc", 4, .awg⟩ ("Jc = 10\n".toList, true) :=
    ⟨rfl, rfl, _, hkey, .inl (by decide)⟩
  have hmissed : ¬ Missed ("Jc = 10\n".toList, true) := by
    rintro ⟨-, k, c, hone, -⟩
    cases hkey.symm.trans hone
  have hmem : ("Jc = 10\n".toList, true) ∈ markedLines "[Interface]\nJc = 10\n".toList := by decide
  have hfile : ShortLines "[Interface]\nJc = 10\n".toList := by
    unfold ShortLines
    decide
  exact ⟨((isAwgOn_iff hfile).1.2 (.inl ⟨_, hmem, ⟨_, hset⟩, hmissed⟩)).2 ⟨_, hmem, _, hset⟩,
    _, hmem, _, hset⟩

/-- With one digit it is not noticed. -/
theorem isAwgOn_missed : (parseOptions "[Interface]\nJc = 5\n".toList).isAwgOn = false ∧
    ∃ x ∈ markedLines "[Interface]\nJc = 5\n".toList, ∃ k, SetsAwg k x :=
  ⟨by decide, ("Jc = 5\n".toList, true), by decide, ⟨"Jc", 4, .awg⟩, rfl, rfl, "5".toList, by decide,
    .inl (by decide)⟩

end Amnezia.Tools
