/-!
# Host routines

The functions that a host can offer to scripts.  `write` belongs to the page's `response`; others
inspect or change the slots that they are given, or the global scope.  Beyond these a host may bring
along callbacks of its own (`PageScript.Callback`), which are known here by their number.
-/

namespace PageScript

inductive Routine
  /-- writes one value to the page -/
  | write
  /-- does nothing with any arguments -/
  | ignore
  /-- the double of an integer -/
  | twice
  /-- the number of arguments -/
  | count
  /-- the name of the type of a value -/
  | typeName
  /-- adds one in place to every integer -/
  | increment
  /-- exchanges the values of two slots -/
  | swap
  /-- whether two arguments are one slot -/
  | same
  /-- refuses any arguments, quoting them -/
  | fail
  /-- the value at the end of a path that is given as text -/
  | look
  /-- assigns a value to a variable whose name is given as text -/
  | assign
  /-- the setting that variables have to be declared, and a way to change it -/
  | explicit
  /-- a callback of the host's own -/
  | callback (index : Nat)
deriving DecidableEq, Inhabited

end PageScript
