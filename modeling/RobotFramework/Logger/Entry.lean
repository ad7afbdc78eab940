import Std.Data.TreeMap.Basic
import RobotFramework.Lib.Double

/-!
# `Logger/Logger.h`: what is logged

A call of one of the `log` overloads, before the logger does anything with it.
-/

namespace RobotFramework

open Cxx

inductive LogLevel where
  | INFO
  | WARN
  | CRIT
  | DONE
  | FAIL
  | MISC
  | LOVE
  | HATE
deriving DecidableEq

/-- The arguments of a `log` call; `sub` is absent in the overloads that do not take it. -/
structure LogCall (K : Type) where
  component : Text
  sub : Option Text := none
  numericData : Std.TreeMap String (Double K) := ∅
  message : Text := []
  level : LogLevel

end RobotFramework
