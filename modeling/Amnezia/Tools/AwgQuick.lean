import Amnezia.Libc.Strings
import Mathlib.Logic.Function.Basic

/-!
# What awg-quick takes out of a configuration

The loop of `parse_options` in `android.c`, over the file it has opened.  The name of the interface
comes from the name of the file and is left out.
-/

namespace Amnezia.Tools

open Libc (Bytes)

/-- The lists that `parse_options` collects, `,` between their parts. -/
inductive ListOption where
  | addrs | dnses | excludedApplications | includedApplications
  deriving DecidableEq, Repr

/-- What `parse_options` writes through its arguments, and `is_awg_on`; `none` is `NULL`. -/
structure Options where
  config : Option Bytes := none
  list : ListOption → Option Bytes := fun _ => none
  mtu : Nat := 0
  isAwgOn : Bool := false
  inInterfaceSection : Bool := false

inductive OptionAction where
  | list (l : ListOption) | mtu | awg
  deriving DecidableEq, Repr

/-- A branch: the line starts with `key=` and has more than `bound` characters. -/
structure OptionKey where
  key : String
  bound : Nat
  action : OptionAction
  deriving DecidableEq, Repr

def optionKeys : List OptionKey :=
  [⟨"Address", 8, .list .addrs⟩, ⟨"DNS", 4, .list .dnses⟩,
   ⟨"ExcludedApplications", 4, .list .excludedApplications⟩,
   ⟨"IncludedApplications", 4, .list .includedApplications⟩, ⟨"MTU", 4, .mtu⟩,
   ⟨"Jc", 4, .awg⟩, ⟨"Jmin", 4, .awg⟩, ⟨"Jmax", 4, .awg⟩, ⟨"S1", 4, .awg⟩, ⟨"S2", 4, .awg⟩,
   ⟨"S3", 4, .awg⟩, ⟨"S4", 4, .awg⟩, ⟨"H1", 4, .awg⟩, ⟨"H2", 4, .awg⟩, ⟨"H3", 4, .awg⟩,
   ⟨"H4", 4, .awg⟩, ⟨"I1", 4, .awg⟩, ⟨"I2", 2, .awg⟩, ⟨"I3", 2, .awg⟩, ⟨"I4", 2, .awg⟩,
   ⟨"I5", 2, .awg⟩]

def concatAndFree (orig : Option Bytes) (delim newLine : Bytes) : Option Bytes :=
  match orig with
  | none => some newLine
  | some s => some (s ++ delim ++ newLine)

def optionOf (clean : Bytes) : Option (OptionAction × Bytes) :=
  optionKeys.findSome? fun k =>
    if Libc.startsNoCase clean (k.key.toList ++ ['=']) && decide (k.bound < clean.length) then
      some (k.action, clean.drop (k.key.toList ++ ['=']).length)
    else none

namespace Options

/-- Whether a line is in an interface section, which it can start or end itself. -/
def sectionAfter (inside : Bool) (clean : Bytes) : Bool :=
  Libc.sameNoCase clean "[Interface]".toList || (inside && clean.head? != some '[')

def addLine (o : Options) (line : Bytes) : Options :=
  { o with config := concatAndFree o.config [] line }

def readLine (o : Options) (line : Bytes) : Options :=
  let clean := line.filter fun c => !Libc.isspace c
  let o := { o with inInterfaceSection := sectionAfter o.inInterfaceSection clean }
  if o.inInterfaceSection then
    match optionOf clean with
    | some (.list l, value) =>
      { o with list := Function.update o.list l (concatAndFree (o.list l) [','] value) }
    | some (.mtu, value) => { o with mtu := (Libc.atoi value).toNat }
    | some (.awg, _) => { o with isAwgOn := true }.addLine line
    | none => o.addLine line
  else o.addLine line

def setDefaults (o : Options) : Options :=
  { o with
    config := some (o.config.getD [])
    list := fun l =>
      match l with
      | .addrs | .dnses => some ((o.list l).getD [])
      | .excludedApplications | .includedApplications => o.list l }

/-- The loop, with the lines it has not put anywhere; a line of more than `1 << 16` characters ends
it, and the function. -/
def readLines (o : Options) : List Bytes → Options × List Bytes
  | [] => (o.setDefaults, [])
  | line :: lines =>
    if 65536 < line.length then (o, line :: lines) else (o.readLine line).readLines lines

end Options

def parseOptionsLeaving (file : Bytes) : Options × List Bytes :=
  Options.readLines {} ((Libc.getlines file).map Libc.cstr)

def parseOptions (file : Bytes) : Options := (parseOptionsLeaving file).1

end Amnezia.Tools
