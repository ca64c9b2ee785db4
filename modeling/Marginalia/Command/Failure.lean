import Marginalia.Disk.Basic
import Marginalia.Form.Filled
import Marginalia.Text.Quoted

/-!
# What a command has to say

A command that cannot do what it was asked for ends with a `Failure`; what it notices on the way it
keeps as a `Note`.  Both are causes, and their wording is here alone.
-/

set_option autoImplicit false
namespace Marginalia

/-- A count as it stands in a message. -/
def countText (n : Nat) : Text := Nat.toDigits 10 n

/-- Why a command failed. -/
inductive Failure where
  | unreadable (p : Path) (fault : DiskFault)
  | unwritable (p : Path) (fault : DiskFault)
  /-- A file of values is not an object of values. -/
  | invalidValues (p : Path)
  /-- An assignment has no hash in front of an equals sign. -/
  | notAnAssignment (t : Text)
  /-- The patterns stand for no scripts. -/
  | noScripts (patterns : List Text)
  /-- That many files could not be read or written. -/
  | files (count : Nat)
  /-- That many values could not be written. -/
  | refused (count : Nat)
  deriving DecidableEq, Repr

/-- The sentence that reports a failure. -/
def Failure.message : Failure → Text
  | unreadable p fault => "failed to read ".toList ++ p.spelled ++ ": ".toList ++ fault.message
  | unwritable p fault => "failed to write ".toList ++ p.spelled ++ ": ".toList ++ fault.message
  | invalidValues p => "invalid values in ".toList ++ p.spelled
  | notAnAssignment t => "expected HASH=VALUE, got ".toList ++ Text.quoted t
  | noScripts patterns =>
    "no JavaScript files found matching patterns: ".toList ++ Text.quotedList patterns
  | files count => countText count ++ " file(s) could not be processed".toList
  | refused count => countText count ++ " value(s) could not be written".toList

/-- Something that a command notices. -/
inductive Note where
  /-- The preferences are there but cannot be read. -/
  | unreadablePreferences (fault : DiskFault)
  /-- The preferences make no sense. -/
  | invalidPreferences
  /-- A mark is no control. -/
  | passedOver (tag : Tag) (offset : Nat) (fault : Fault)
  /-- A file has that many controls. -/
  | described (p : Path) (controls : Nat)
  /-- A value is not written. -/
  | refused (refusal : Refusal)
  /-- A file changes. -/
  | revised (verb : Text) (p : Path)
  deriving DecidableEq, Repr

namespace Note

/-- Whether a note is shown to those who did not ask for notes. -/
def isWarning : Note → Bool
  | unreadablePreferences _ | invalidPreferences => true
  | _ => false

/-- How grave a note is, and the part of the tool it is from. -/
def heading : Note → Text
  | unreadablePreferences _ | invalidPreferences => "WARN sigil::config: ".toList
  | passedOver .. | refused _ => "DEBUG sigil_palette::palette: ".toList
  | described .. => "DEBUG sigil::commands::parse: ".toList
  | revised .. => "DEBUG sigil::commands: ".toList

/-- The sentence that reports a note. -/
def message : Note → Text
  | unreadablePreferences fault => "failed to read sigil.config.json: ".toList ++ fault.message
  | invalidPreferences => "failed to parse sigil.config.json".toList
  | passedOver tag offset fault =>
    "skipping @".toList ++ tag.name ++ " at ".toList ++ countText offset ++ ": ".toList ++
      fault.message
  | described p controls => p.spelled ++ ": ".toList ++ countText controls ++ " control(s)".toList
  | refused r => "inject ".toList ++ r.hash ++ " failed: ".toList ++ r.fault.message
  | revised verb p => verb ++ ' ' :: p.spelled

/-- The line that reports a note. -/
def line (n : Note) : Text := n.heading ++ n.message

end Note
end Marginalia
