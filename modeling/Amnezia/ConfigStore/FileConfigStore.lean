import Mathlib.Data.Finset.Image
import Amnezia.Java.Files
import Amnezia.Lib.Runs
import Amnezia.Model.TunnelConfig

/-!
# FileConfigStore

One `awg-quick` file for each tunnel.  An operation is two or three calls of the file system, and
each of them can fail after those before it have changed the directory.
-/

namespace Amnezia.ConfigStore

open Config
open Java (Text Directory NewFile Stream)
open Libc (Bytes Utf8Decoder utf8)

/-- What the store throws; `io` is an exception of the file system itself. -/
inductive StoreException where
  | configFileExists (file : Text)
  | configDelete (file : Text)
  | configExists (replacement : Text)
  | configRename (file : Text)
  | configNotFound (file : Text)
  | io
  deriving DecidableEq, Repr

/-- What the file system answers to the calls of one operation. -/
structure FileCalls where
  createNewFile : NewFile := .created
  delete : Bool := true
  renameTo : Bool := true
  stream : Stream := .written

def fileFor (name : Text) : Text := name ++ ".conf".toList

def enumerate (d : Directory) : Finset Text :=
  ((d.keys.filter fun file => ".conf".toList.isSuffixOf file).map fun file =>
    file.take (file.length - ".conf".length)).toFinset

section Store

variable {Addr : Type} [DecidableEq Addr] (net : Net Addr)

/-- `load`; `none` is the `FileNotFoundException`. -/
def load (dec : Utf8Decoder) (d : Directory) (name : Text) :
    Option (Except BadConfigException (Config Addr)) :=
  (d.lookup (fileFor name)).map fun bytes => parse net (dec.decode bytes)

def fileBytes (config : Config Addr) : Bytes := utf8 (config.toAwgQuickString net)

def create (calls : FileCalls) (d : Directory) (name : Text) (config : Config Addr) :
    Except StoreException (Config Addr) × Directory :=
  match Java.createNewFile calls.createNewFile d (fileFor name) with
  | (none, d) => (.error .io, d)
  | (some false, d) => (.error (.configFileExists (fileFor name)), d)
  | (some true, d) =>
    match Java.write calls.stream d (fileFor name) (fileBytes net config) with
    | (false, d) => (.error .io, d)
    | (true, d) => (.ok config, d)

def delete (calls : FileCalls) (d : Directory) (name : Text) : Except StoreException Unit × Directory :=
  match Java.delete calls.delete d (fileFor name) with
  | (false, d) => (.error (.configDelete (fileFor name)), d)
  | (true, d) => (.ok (), d)

def rename (calls : FileCalls) (d : Directory) (name replacement : Text) :
    Except StoreException Unit × Directory :=
  match Java.createNewFile calls.createNewFile d (fileFor replacement) with
  | (none, d) => (.error .io, d)
  | (some false, d) => (.error (.configExists replacement), d)
  | (some true, d) =>
    match Java.renameTo calls.renameTo d (fileFor name) (fileFor replacement) with
    | (true, d) => (.ok (), d)
    -- the marker file stays when it cannot be deleted
    | (false, d) =>
      (.error (.configRename (fileFor name)), (Java.delete calls.delete d (fileFor replacement)).2)

def save (calls : FileCalls) (d : Directory) (name : Text) (config : Config Addr) :
    Except StoreException (Config Addr) × Directory :=
  if fileFor name ∉ d then (.error (.configNotFound (fileFor name)), d)
  else
    match Java.write calls.stream d (fileFor name) (fileBytes net config) with
    | (false, d) => (.error .io, d)
    | (true, d) => (.ok config, d)

inductive Operation (Addr : Type) where
  | create (name : Text) (config : Config Addr)
  | delete (name : Text)
  | rename (name replacement : Text)
  | save (name : Text) (config : Config Addr)

def outcome {α : Type} (out : Except StoreException α × Directory) : Option StoreException × Directory :=
  match out with
  | (.ok _, d) => (none, d)
  | (.error e, d) => (some e, d)

def perform (d : Directory) (op : Operation Addr × FileCalls) : Option StoreException × Directory :=
  match op.1 with
  | .create name config => outcome (create net op.2 d name config)
  | .delete name => outcome (delete op.2 d name)
  | .rename name replacement => outcome (rename op.2 d name replacement)
  | .save name config => outcome (save net op.2 d name config)

structure SameStore (dec : Utf8Decoder) (d d' : Directory) : Prop where
  enumerate : enumerate d' = enumerate d
  load : ∀ name, load net dec d' name = load net dec d name

def Keeps (dec : Utf8Decoder) (d : Directory) (op : Operation Addr × FileCalls) : Prop :=
  (perform net d op).1.isSome = true → SameStore net dec d (perform net d op).2

/-- No call fails after which something has to be undone: a file that was created is written, the
marker of a name is renamed over or deleted, and a file that is cut off reads as it did. -/
def Harmless (dec : Utf8Decoder) (d : Directory) (op : Operation Addr × FileCalls) : Prop :=
  match op.1 with
  | .create name _ => fileFor name ∈ d ∨ op.2.createNewFile ≠ .created ∨ op.2.stream = .written
  | .delete _ => True
  | .rename name replacement => fileFor replacement ∈ d ∨ op.2.createNewFile ≠ .created ∨
      ((name = replacement ∨ fileFor name ∈ d) ∧ op.2.renameTo = true) ∨ op.2.delete = true
  | .save name config => ∀ n bytes, op.2.stream = .cut n → d.lookup (fileFor name) = some bytes →
      parse net (dec.decode ((fileBytes net config).take n)) =
        parse net (dec.decode bytes)

end Store

theorem fileFor_inj {m n : Text} : fileFor m = fileFor n ↔ m = n := List.append_left_inj _

variable {d : Directory} {name : Text}

theorem mem_enumerate : name ∈ enumerate d ↔ fileFor name ∈ d := by
  unfold enumerate
  rw [List.mem_toFinset, List.mem_map]
  constructor
  · rintro ⟨file, hfile, rfl⟩
    obtain ⟨hmem, hsuffix⟩ := List.mem_filter.1 hfile
    obtain ⟨stem, rfl⟩ := List.isSuffixOf_iff_suffix.1 hsuffix
    rw [List.length_append, show ".conf".length = ".conf".toList.length from rfl,
      Nat.add_sub_cancel, List.take_left]
    exact hmem
  · intro hmem
    refine ⟨fileFor name, List.mem_filter.2 ⟨hmem, ?_⟩, ?_⟩
    · exact List.isSuffixOf_iff_suffix.2 (List.suffix_append name _)
    · unfold fileFor
      rw [List.length_append, show ".conf".length = ".conf".toList.length from rfl,
        Nat.add_sub_cancel, List.take_left]

section Same

variable {Addr : Type} [DecidableEq Addr] {net : Net Addr} {dec : Utf8Decoder}

theorem SameStore.refl (d : Directory) : SameStore net dec d d := ⟨rfl, fun _ => rfl⟩

theorem sameStore_of_lookup {d' : Directory} (h : ∀ file, d'.lookup file = d.lookup file) :
    SameStore net dec d d' := by
  constructor
  · ext name
    rw [mem_enumerate, mem_enumerate, ← AList.lookup_isSome, ← AList.lookup_isSome, h]
  · intro name
    unfold load
    rw [h]

theorem not_sameStore_of_mem {d' : Directory} (hnew : fileFor name ∉ d) (hmem : fileFor name ∈ d') :
    ¬SameStore net dec d d' := by
  intro hsame
  have hname : name ∈ enumerate d' := mem_enumerate.2 hmem
  rw [hsame.enumerate] at hname
  exact hnew (mem_enumerate.1 hname)

/-- A file that is there with other bytes: the names stay, and so does what is loaded if both read
the same. -/
theorem sameStore_insert_iff {bytes : Bytes} (hbytes : d.lookup (fileFor name) = some bytes)
    {bytes' : Bytes} :
    SameStore net dec d (d.insert (fileFor name) bytes') ↔
      parse net (dec.decode bytes') = parse net (dec.decode bytes) := by
  have hself : load net dec (d.insert (fileFor name) bytes') name =
      some (parse net (dec.decode bytes')) := by
    unfold load
    rw [AList.lookup_insert]
    rfl
  have hbefore : load net dec d name = some (parse net (dec.decode bytes)) := by
    unfold load
    rw [hbytes]
    rfl
  constructor
  · intro hsame
    have hload := hsame.load name
    rw [hself, hbefore] at hload
    exact Option.some.inj hload
  · intro hparse
    constructor
    · ext other
      rw [mem_enumerate, mem_enumerate, AList.mem_insert, fileFor_inj, or_iff_right_iff_imp]
      rintro rfl
      rw [← AList.lookup_isSome, hbytes]
      rfl
    · intro other
      by_cases heq : other = name
      · rw [heq, hself, hbefore, hparse]
      · unfold load
        rw [AList.lookup_insert_ne (fun h => heq (fileFor_inj.1 h))]

end Same

section Operations

variable {Addr : Type} [DecidableEq Addr] {net : Net Addr} {dec : Utf8Decoder}

theorem create_keeps_iff (d : Directory) (name : Text) (config : Config Addr) (calls : FileCalls) :
    Keeps net dec d (.create name config, calls) ↔ Harmless net dec d (.create name config, calls) := by
  show ((outcome (create net calls d name config)).1.isSome = true →
    SameStore net dec d (outcome (create net calls d name config)).2) ↔
      fileFor name ∈ d ∨ calls.createNewFile ≠ .created ∨ calls.stream = .written
  unfold create
  rcases Java.createNewFile_cases calls.createNewFile d (fileFor name) with
    ⟨hnew, hcreated, heq⟩ | ⟨hold, result, hresult, heq⟩
  · -- the file is there from now on, also when the stream fails
    rw [heq]
    cases hstream : calls.stream with
    | written => exact iff_of_true (fun h => nomatch h) (.inr (.inr rfl))
    | notOpened =>
      refine iff_of_false (fun h => not_sameStore_of_mem hnew ?_ (h rfl)) (by simp [hnew, hcreated])
      exact AList.mem_insert _ |>.2 (.inl rfl)
    | cut n =>
      refine iff_of_false (fun h => not_sameStore_of_mem hnew ?_ (h rfl)) (by simp [hnew, hcreated])
      exact AList.mem_insert _ |>.2 (.inl rfl)
  · have hunchanged : SameStore net dec d d := .refl d
    rw [heq]
    refine iff_of_true (fun _ => ?_) (hold.imp_right .inl)
    match result, hresult with
    | none, _ => exact hunchanged
    | some false, _ => exact hunchanged
    | some true, h => exact absurd rfl h

theorem delete_keeps (d : Directory) (name : Text) (calls : FileCalls) :
    Keeps net dec d (.delete name, calls) := by
  show (outcome (delete calls d name)).1.isSome = true →
    SameStore net dec d (outcome (delete calls d name)).2
  unfold delete
  rcases Java.delete_cases calls.delete d (fileFor name) with ⟨-, -, heq⟩ | ⟨-, heq⟩
  · rw [heq]
    exact fun h => nomatch h
  · rw [heq]
    exact fun _ => .refl d

theorem lookup_erase_insert {file : Text} (hnew : file ∉ d) (bytes : Bytes) (other : Text) :
    ((d.insert file bytes).erase file).lookup other = d.lookup other := by
  by_cases heq : other = file
  · rw [heq, AList.lookup_erase]
    exact (AList.lookup_eq_none.2 hnew).symm
  · rw [AList.lookup_erase_ne heq, AList.lookup_insert_ne heq]

theorem rename_keeps_iff (d : Directory) (name replacement : Text) (calls : FileCalls) :
    Keeps net dec d (.rename name replacement, calls) ↔
      Harmless net dec d (.rename name replacement, calls) := by
  show ((outcome (rename calls d name replacement)).1.isSome = true →
    SameStore net dec d (outcome (rename calls d name replacement)).2) ↔
      fileFor replacement ∈ d ∨ calls.createNewFile ≠ .created ∨
        ((name = replacement ∨ fileFor name ∈ d) ∧ calls.renameTo = true) ∨ calls.delete = true
  unfold rename
  rcases Java.createNewFile_cases calls.createNewFile d (fileFor replacement) with
    ⟨hnew, hcreated, heq⟩ | ⟨hold, result, hresult, heq⟩
  · rw [heq]
    have hmarker : fileFor replacement ∈ d.insert (fileFor replacement) [] :=
      (AList.mem_insert _).2 (.inl rfl)
    have hthere : fileFor name ∈ d.insert (fileFor replacement) [] ↔
        name = replacement ∨ fileFor name ∈ d := by
      rw [AList.mem_insert, fileFor_inj]
    rcases Java.renameTo_cases calls.renameTo (d.insert (fileFor replacement) []) (fileFor name)
        (fileFor replacement) with ⟨bytes, hbytes, hworks, hrename⟩ | ⟨hfails, hrename⟩
    · simp only [hrename]
      have hmem : fileFor name ∈ d.insert (fileFor replacement) [] := by
        rw [← AList.lookup_isSome, hbytes]
        rfl
      exact iff_of_true (fun h => nomatch h) (.inr (.inr (.inl ⟨hthere.1 hmem, hworks⟩)))
    · -- the marker is there, and has to be deleted again
      simp only [hrename]
      rw [hthere] at hfails
      rcases Java.delete_cases calls.delete (d.insert (fileFor replacement) []) (fileFor replacement)
        with ⟨-, hworks, hdelete⟩ | ⟨hundone, hdelete⟩
      · rw [hdelete]
        exact iff_of_true (fun _ => sameStore_of_lookup (lookup_erase_insert hnew []))
          (.inr (.inr (.inr hworks)))
      · rw [hdelete]
        refine iff_of_false (fun h => not_sameStore_of_mem hnew hmarker (h rfl)) ?_
        rintro (h | h | h | h)
        · exact hnew h
        · exact h hcreated
        · exact hfails h
        · exact hundone ⟨hmarker, h⟩
  · have hunchanged : SameStore net dec d d := .refl d
    rw [heq]
    refine iff_of_true (fun _ => ?_) (hold.imp_right .inl)
    match result, hresult with
    | none, _ => exact hunchanged
    | some false, _ => exact hunchanged
    | some true, h => exact absurd rfl h

theorem save_keeps_iff (d : Directory) (name : Text) (config : Config Addr) (calls : FileCalls) :
    Keeps net dec d (.save name config, calls) ↔ Harmless net dec d (.save name config, calls) := by
  show ((outcome (save net calls d name config)).1.isSome = true →
    SameStore net dec d (outcome (save net calls d name config)).2) ↔
      ∀ n bytes, calls.stream = .cut n → d.lookup (fileFor name) = some bytes →
        parse net (dec.decode ((fileBytes net config).take n)) =
          parse net (dec.decode bytes)
  unfold save
  cases hbytes : d.lookup (fileFor name) with
  | none =>
    rw [if_pos (AList.lookup_eq_none.1 hbytes)]
    exact iff_of_true (fun _ => .refl d) (fun _ _ _ h => nomatch h)
  | some bytes =>
    have hmem : fileFor name ∈ d := by
      rw [← AList.lookup_isSome, hbytes]
      rfl
    rw [if_neg (not_not_intro hmem)]
    cases hstream : calls.stream with
    | written => exact iff_of_true (fun h => nomatch h) (fun _ _ h => nomatch h)
    | notOpened => exact iff_of_true (fun _ => .refl d) (fun _ _ h => nomatch h)
    | cut n =>
      show (true = true → SameStore net dec d (d.insert (fileFor name) ((fileBytes net config).take n))) ↔ _
      rw [sameStore_insert_iff hbytes]
      constructor
      · rintro h n' bytes' hcut hsome
        cases hcut
        cases hsome
        exact h rfl
      · exact fun h _ => h n bytes rfl rfl

/-- An operation keeps the store when it throws, exactly when no failure is left behind. -/
theorem keeps_iff_harmless (d : Directory) (op : Operation Addr × FileCalls) :
    Keeps net dec d op ↔ Harmless net dec d op := by
  obtain ⟨op, calls⟩ := op
  cases op with
  | create name config => exact create_keeps_iff d name config calls
  | delete name => exact iff_of_true (delete_keeps d name calls) trivial
  | rename name replacement => exact rename_keeps_iff d name replacement calls
  | save name config => exact save_keeps_iff d name config calls

end Operations

section Returns

variable {Addr : Type} (net : Net Addr)

def contents (d : Directory) (name : Text) : Option Bytes := d.lookup (fileFor name)

def Operation.apply (op : Operation Addr) (store : Text → Option Bytes) : Text → Option Bytes :=
  match op with
  | .create name config | .save name config =>
    Function.update store name (some (fileBytes net config))
  | .delete name => Function.update store name none
  | .rename name replacement =>
    Function.update (Function.update store name none) replacement (store name)

variable {net}

theorem contents_insert (d : Directory) (name : Text) (bytes : Bytes) :
    contents (d.insert (fileFor name) bytes) = Function.update (contents d) name (some bytes) := by
  funext other
  unfold contents
  by_cases heq : other = name
  · rw [heq, Function.update_self, AList.lookup_insert]
  · rw [Function.update_of_ne heq, AList.lookup_insert_ne (fun h => heq (fileFor_inj.1 h))]

theorem contents_erase (d : Directory) (name : Text) :
    contents (d.erase (fileFor name)) = Function.update (contents d) name none := by
  funext other
  unfold contents
  by_cases heq : other = name
  · rw [heq, Function.update_self, AList.lookup_erase]
  · rw [Function.update_of_ne heq, AList.lookup_erase_ne (fun h => heq (fileFor_inj.1 h))]

variable {calls : FileCalls}

theorem create_returns {config : Config Addr}
    (h : (perform net d (.create name config, calls)).1 = none) :
    contents (perform net d (.create name config, calls)).2 =
      (Operation.create name config).apply net (contents d) := by
  change (outcome (create net calls d name config)).1 = none at h
  show contents (outcome (create net calls d name config)).2 =
    Function.update (contents d) name (some (fileBytes net config))
  unfold create at h ⊢
  rcases Java.createNewFile_cases calls.createNewFile d (fileFor name) with
    ⟨-, -, heq⟩ | ⟨-, result, hresult, heq⟩
  · rw [heq] at h ⊢
    cases hstream : calls.stream with
    | written =>
      simp only [Java.write, outcome]
      rw [contents_insert, contents_insert, Function.update_idem]
    | notOpened =>
      rw [hstream] at h
      cases h
    | cut n =>
      rw [hstream] at h
      cases h
  · rw [heq] at h
    match result, hresult with
    | none, _ => cases h
    | some false, _ => cases h
    | some true, hne => exact absurd rfl hne

theorem rename_returns {replacement : Text} (hne : name ≠ replacement)
    (h : (perform net d (.rename name replacement, calls)).1 = none) :
    contents (perform net d (.rename name replacement, calls)).2 =
      (Operation.rename name replacement : Operation Addr).apply net (contents d) := by
  change (outcome (rename calls d name replacement)).1 = none at h
  show contents (outcome (rename calls d name replacement)).2 =
    Function.update (Function.update (contents d) name none) replacement (contents d name)
  unfold rename at h ⊢
  rcases Java.createNewFile_cases calls.createNewFile d (fileFor replacement) with
    ⟨-, -, heq⟩ | ⟨-, result, hresult, heq⟩
  · rw [heq] at h ⊢
    rcases Java.renameTo_cases calls.renameTo (d.insert (fileFor replacement) []) (fileFor name)
        (fileFor replacement) with ⟨bytes, hbytes, -, hrename⟩ | ⟨-, hrename⟩
    · simp only [hrename, outcome]
      rw [AList.lookup_insert_ne (fun h => hne (fileFor_inj.1 h))] at hbytes
      have hold : contents d name = some bytes := hbytes
      rw [contents_insert, contents_erase, contents_insert, hold,
        Function.update_comm hne.symm (some []) none (contents d), Function.update_idem]
    · simp only [hrename] at h
      cases h
  · rw [heq] at h
    match result, hresult with
    | none, _ => cases h
    | some false, _ => cases h
    | some true, hne => exact absurd rfl hne

theorem delete_returns (h : (perform net d (.delete name, calls)).1 = none) :
    contents (perform net d (.delete name, calls)).2 =
      (Operation.delete name : Operation Addr).apply net (contents d) := by
  change (outcome (delete calls d name)).1 = none at h
  show contents (outcome (delete calls d name)).2 = Function.update (contents d) name none
  unfold delete at h ⊢
  rcases Java.delete_cases calls.delete d (fileFor name) with ⟨-, -, heq⟩ | ⟨-, heq⟩
  · rw [heq]
    exact contents_erase d name
  · rw [heq] at h
    cases h

theorem save_returns {config : Config Addr}
    (h : (perform net d (.save name config, calls)).1 = none) :
    contents (perform net d (.save name config, calls)).2 =
      (Operation.save name config).apply net (contents d) := by
  change (outcome (save net calls d name config)).1 = none at h
  show contents (outcome (save net calls d name config)).2 =
    Function.update (contents d) name (some (fileBytes net config))
  unfold save at h ⊢
  by_cases hmem : fileFor name ∈ d
  · rw [if_neg (not_not_intro hmem)] at h ⊢
    cases hstream : calls.stream with
    | written => exact contents_insert d name _
    | notOpened =>
      rw [hstream] at h
      cases h
    | cut n =>
      rw [hstream] at h
      cases h
  · rw [if_pos hmem] at h
    cases h

theorem perform_returns {op : Operation Addr × FileCalls}
    (hne : ∀ name replacement, op.1 = .rename name replacement → name ≠ replacement)
    (h : (perform net d op).1 = none) :
    contents (perform net d op).2 = op.1.apply net (contents d) := by
  obtain ⟨op, calls⟩ := op
  cases op with
  | create name config => exact create_returns h
  | delete name => exact delete_returns h
  | rename name replacement => exact rename_returns (hne name replacement rfl) h
  | save name config => exact save_returns h

/-- Operations that return do to the files what they are for, all along a run: together the files
are one map of names, the store that `TunnelManager` works with.  A file is not renamed to its own
name. -/
theorem contents_run {ops : List (Operation Addr × FileCalls)}
    (hne : ∀ op ∈ ops, ∀ name replacement, op.1 = .rename name replacement → name ≠ replacement)
    (h : Runs.Guarded (fun d op => (perform net d op).2)
      (fun d op => (perform net d op).1 = none) d ops) :
    contents (Runs.run (fun d op => (perform net d op).2) d ops) =
      Runs.run (fun store op => op.1.apply net store) (contents d) ops := by
  induction ops generalizing d with
  | nil => rfl
  | cons op ops ih =>
    rw [List.forall_mem_cons] at hne
    rw [Runs.run_cons, Runs.run_cons, ih hne.2 h.2, perform_returns hne.1 h.1]

end Returns

section Runs

variable {Addr : Type} [DecidableEq Addr] (net : Net Addr) (dec : Utf8Decoder)

/-- Over a run, every operation that throws leaves the store as it was exactly when every operation
meets no failure that it cannot undo. -/
theorem throwing_keeps_iff (d : Directory) (ops : List (Operation Addr × FileCalls)) :
    Runs.Guarded (fun d op => (perform net d op).2) (Keeps net dec) d ops ↔
      Runs.Guarded (fun d op => (perform net d op).2) (Harmless net dec) d ops :=
  Runs.guarded_congr keeps_iff_harmless d ops

end Runs

def oneFile : Directory := AList.singleton (fileFor ['a']) keyText

theorem contents_run_oneFile :
    let ops : List (Operation Bool × FileCalls) := [(.rename ['a'] ['b'], {}), (.delete ['b'], {})]
    contents (Runs.run (fun d op => (perform exampleNet d op).2) oneFile ops) =
      Runs.run (fun store op => op.1.apply exampleNet store) (contents oneFile) ops := by
  apply contents_run
  · simp
  · exact ⟨rfl, rfl, trivial⟩

def cutCreate : Operation Bool × FileCalls :=
  (.create ['a'] Model.ConfigRequests.plainConfig, { stream := .cut 0 })

def cutSave : Operation Bool × FileCalls :=
  (.save ['a'] Model.ConfigRequests.plainConfig, { stream := .cut 0 })

def stuckRename : Operation Bool × FileCalls :=
  (.rename ['a'] ['b'], { renameTo := false, delete := false })

theorem throwing_changes_store :
    ((perform exampleNet ∅ cutCreate).1 = some .io ∧
      enumerate (perform exampleNet ∅ cutCreate).2 = {['a']} ∧
      ¬Keeps exampleNet Libc.replacingDecoder ∅ cutCreate) ∧
    ((perform exampleNet oneFile cutSave).1 = some .io ∧
      load exampleNet Libc.replacingDecoder (perform exampleNet oneFile cutSave).2 ['a'] =
        some (.error ⟨.config, .topLevel, .missingSection, none⟩) ∧
      ¬Keeps exampleNet Libc.replacingDecoder oneFile cutSave) ∧
    ((perform exampleNet oneFile stuckRename).1 = some (.configRename "a.conf".toList) ∧
      enumerate (perform exampleNet oneFile stuckRename).2 = {['a'], ['b']} ∧
      ¬Keeps exampleNet Libc.replacingDecoder oneFile stuckRename) := by
  refine ⟨⟨rfl, by decide, ?_⟩, ⟨rfl, rfl, ?_⟩, ⟨rfl, by decide, ?_⟩⟩
  · intro hkeeps
    have hnames := (hkeeps rfl).enumerate
    exact absurd hnames (by decide)
  · intro hkeeps
    have hload := congrArg (Option.map Except.isOk) ((hkeeps rfl).load ['a'])
    have hbefore : (load exampleNet Libc.replacingDecoder oneFile ['a']).map Except.isOk =
        some true := by decide +kernel
    rw [hbefore] at hload
    exact absurd hload (by decide)
  · intro hkeeps
    have hnames := (hkeeps rfl).enumerate
    exact absurd hnames (by decide)

end Amnezia.ConfigStore
