/-!
The labels of the formal system.  A label names a statement, and it doubles as a file name in
the tools around a database, so the names of devices are reserved.

* `Label.isLabelChar`, `Label.isWellFormed`: the alphabet of labels, and the labels over it;
* `Label.isReserved`: the names of devices, in any case of letters.
-/

namespace ProofSheet.Label

/-- The ASCII letters and digits, the hyphen, the underscore and the full stop. -/
def isLabelChar (c : Char) : Bool :=
  c.isAlphanum || c == '-' || c == '_' || c == '.'

/-- A label is non-empty and made of label characters. -/
def isWellFormed (label : String) : Bool :=
  !label.toList.isEmpty && label.toList.all isLabelChar

/-- The names of devices, in capitals. -/
def deviceNames : List String :=
  ["CON", "PRN", "AUX", "CLOCK$", "NUL", "COM1", "COM2", "COM3", "COM4", "COM5", "COM6", "COM7",
    "COM8", "COM9", "LPT1", "LPT2", "LPT3", "LPT4", "LPT5", "LPT6", "LPT7", "LPT8", "LPT9"]

/-- The label is the name of a device, where ASCII letters count alike in both cases. -/
def isReserved (label : String) : Bool :=
  deviceNames.any fun name => name.toList == label.toList.map Char.toUpper

end ProofSheet.Label
