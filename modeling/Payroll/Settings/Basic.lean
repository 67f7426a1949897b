import Payroll.Json.Record

/-!
# Settings

Limits for formulas and for the store of results. Every setting has a default, so a configuration
may name any part of them.
-/

set_option autoImplicit false

namespace Payroll

-- Powers are those of core, whatever other instances there are.
attribute [local instance (2000)] instPowNat

structure CacheSettings where
  enabled : Bool := true
  maxCapacity : Nat := 10000
  ttlSeconds : Nat := 3600
deriving DecidableEq

structure FormulaSettings where
  maxNestingDepth : Nat := 32
  maxStepsWarning : Nat := 50
deriving DecidableEq

structure Settings where
  cache : CacheSettings := {}
  formula : FormulaSettings := {}
deriving DecidableEq

/-- Numbers in settings are 64 bits wide. -/
def settingsBound : Nat := 2 ^ (64 : Nat)

namespace CacheSettings

def ofJson? (j : Json) : Option CacheSettings := do
  let row ← j.row? 3
  let number := Json.naturalBelow? settingsBound
  some { enabled := ← row.default? 0 ["enabled"] true Json.bool?
         maxCapacity := ← row.default? 1 ["max_capacity"] 10000 number
         ttlSeconds := ← row.default? 2 ["ttl_seconds"] 3600 number }

/-- The time to live is shown both as it is set and as a duration in seconds. -/
def toJson (c : CacheSettings) : Json :=
  .object
    [("enabled", .bool c.enabled), ("max_capacity", .natural c.maxCapacity),
      ("ttl_seconds", .natural c.ttlSeconds), ("ttl", .natural c.ttlSeconds)]

end CacheSettings

namespace FormulaSettings

def ofJson? (j : Json) : Option FormulaSettings := do
  let row ← j.row? 2
  let number := Json.naturalBelow? settingsBound
  some { maxNestingDepth := ← row.default? 0 ["max_nesting_depth"] 32 number
         maxStepsWarning := ← row.default? 1 ["max_steps_warning"] 50 number }

def toJson (f : FormulaSettings) : Json :=
  .object
    [("max_nesting_depth", .natural f.maxNestingDepth),
      ("max_steps_warning", .natural f.maxStepsWarning)]

end FormulaSettings

namespace Settings

def ofJson? (j : Json) : Option Settings := do
  let row ← j.row? 2
  some { cache := ← row.default? 0 ["cache"] {} CacheSettings.ofJson?
         formula := ← row.default? 1 ["formula"] {} FormulaSettings.ofJson? }

def toJson (s : Settings) : Json :=
  .object [("cache", s.cache.toJson), ("formula", s.formula.toJson)]

def withoutCache (s : Settings) : Settings :=
  { s with cache := { s.cache with enabled := false } }

end Settings

end Payroll
