import Mathlib.Data.List.AList
import Amnezia.Libc.Strings

/-!
# Files of a directory

`java.io.File` and `FileOutputStream`, on the files of one directory.  A call takes the system's
answer with it, which may be a failure whatever the directory is.
-/

namespace Amnezia.Java

open Libc (Bytes)

abbrev Directory := AList (fun _ : Text => Bytes)

/-- How `createNewFile` ends where there is no such file. -/
inductive NewFile where
  | created | refused | thrown
  deriving DecidableEq, Repr

/-- How `FileOutputStream(file, false).use { it.write(bytes) }` ends.  The file is empty once the
stream is open, and the stream can fail after any part of the bytes is written. -/
inductive Stream where
  | notOpened
  | cut (n : Nat)
  | written
  deriving DecidableEq, Repr

/-- `File.createNewFile`; `none` is the `IOException`. -/
def createNewFile (answer : NewFile) (d : Directory) (file : Text) : Option Bool × Directory :=
  match answer with
  | .thrown => (none, d)
  | .refused => (some false, d)
  | .created => if file ∈ d then (some false, d) else (some true, d.insert file [])

def delete (works : Bool) (d : Directory) (file : Text) : Bool × Directory :=
  if file ∈ d ∧ works = true then (true, d.erase file) else (false, d)

/-- `File.renameTo`, onto a file that may be there. -/
def renameTo (works : Bool) (d : Directory) (file target : Text) : Bool × Directory :=
  match d.lookup file with
  | none => (false, d)
  | some bytes => if works then (true, (d.erase file).insert target bytes) else (false, d)

def write (stream : Stream) (d : Directory) (file : Text) (bytes : Bytes) : Bool × Directory :=
  match stream with
  | .notOpened => (false, d)
  | .cut n => (false, d.insert file (bytes.take n))
  | .written => (true, d.insert file bytes)

theorem createNewFile_cases (answer : NewFile) (d : Directory) (file : Text) :
    (file ∉ d ∧ answer = .created ∧ createNewFile answer d file = (some true, d.insert file [])) ∨
      ((file ∈ d ∨ answer ≠ .created) ∧
        ∃ result, result ≠ some true ∧ createNewFile answer d file = (result, d)) := by
  cases answer with
  | thrown => exact .inr ⟨.inr (by decide), none, by decide, rfl⟩
  | refused => exact .inr ⟨.inr (by decide), some false, by decide, rfl⟩
  | created =>
    by_cases hmem : file ∈ d
    · exact .inr ⟨.inl hmem, some false, by decide, if_pos hmem⟩
    · exact .inl ⟨hmem, rfl, if_neg hmem⟩

theorem delete_cases (works : Bool) (d : Directory) (file : Text) :
    (file ∈ d ∧ works = true ∧ delete works d file = (true, d.erase file)) ∨
      (¬(file ∈ d ∧ works = true) ∧ delete works d file = (false, d)) := by
  by_cases h : file ∈ d ∧ works = true
  · exact .inl ⟨h.1, h.2, if_pos h⟩
  · exact .inr ⟨h, if_neg h⟩

theorem renameTo_cases (works : Bool) (d : Directory) (file target : Text) :
    (∃ bytes, d.lookup file = some bytes ∧ works = true ∧
        renameTo works d file target = (true, (d.erase file).insert target bytes)) ∨
      (¬(file ∈ d ∧ works = true) ∧ renameTo works d file target = (false, d)) := by
  unfold renameTo
  cases hbytes : d.lookup file with
  | none => exact .inr ⟨fun h => AList.lookup_eq_none.1 hbytes h.1, rfl⟩
  | some bytes =>
    cases works with
    | false => exact .inr ⟨fun h => Bool.false_ne_true h.2, rfl⟩
    | true => exact .inl ⟨bytes, rfl, rfl, rfl⟩

end Amnezia.Java
