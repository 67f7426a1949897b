import Payroll.Json.Binary64
import Payroll.Payslip
import Payroll.Settings.Basic

/-!
# Stores of results

A store keeps successful payslips under keys and counts how often a key was found. Sales in keys are
compared by value.
-/

set_option autoImplicit false

namespace Payroll

-- Powers are those of core, whatever other instances there are.
attribute [local instance (2000)] instPowNat

namespace ResultCache

/-- What a payslip is stored under. The narrow key has neither plan nor sales. -/
structure Key where
  employeeId : String
  planId : Option String
  sales : Option Decimal
  period : String
deriving DecidableEq

namespace Key

def ofRequest (r : Request) : Key :=
  { employeeId := r.employee.id, planId := some r.plan.id
    sales := some r.sales.normalize, period := r.period }

/-- The key that stays the same when the plan or the sales change within the period. -/
def narrow (r : Request) : Key :=
  { employeeId := r.employee.id, planId := none, sales := none, period := r.period }

def sameSales : Option Decimal → Option Decimal → Bool
  | some a, some b => a.same b
  | none, none => true
  | _, _ => false

def same (a b : Key) : Bool :=
  a.employeeId = b.employeeId && a.planId = b.planId && sameSales a.sales b.sales
    && a.period = b.period

def toJson (k : Key) : Json :=
  .object
    [("employee_id", .string k.employeeId), ("plan_id", .optional .string k.planId),
      ("sales_amount", .optional Decimal.toJson k.sales), ("period", .string k.period)]

def ofJson? (j : Json) : Option Key := do
  let row ← j.row? 4
  some { employeeId := ← row.required? 0 ["employee_id"] Json.string?
         planId := ← row.nullable? 1 ["plan_id"] Json.string?
         sales := ← row.nullable? 2 ["sales_amount"] Decimal.ofJson?
         period := ← row.required? 3 ["period"] Json.string? }

end Key

structure Stats where
  hits : Nat
  misses : Nat
  entries : Nat
deriving DecidableEq

namespace Stats

/-- The fraction of lookups that hit, with six digits after the point. The quotient is a double
before it is rounded; a half goes to the even neighbour. -/
def hitRate (s : Stats) : String :=
  let millionths :=
    match Binary64.nearest? s.hits (s.hits + s.misses) with
    | some (m, e) => Rounding.halfEven (m * 10 ^ (6 : Nat) * 2 ^ e.toNat) (2 ^ (-e).toNat)
    | none => 0
  let digits := Text.padded 7 millionths
  String.ofList (digits.take (digits.length - 6) ++ '.' :: digits.drop (digits.length - 6))

def toJson (s : Stats) : Json :=
  .object
    [("hits", .natural s.hits), ("misses", .natural s.misses), ("entries", .natural s.entries),
      ("hitRate", .string s.hitRate)]

end Stats

end ResultCache

structure ResultCache where
  /-- Whether entries live at all. -/
  keeps : Bool := true
  /-- No two of the keys are the same. -/
  entries : List (ResultCache.Key × Payslip) := []
  hits : Nat := 0
  misses : Nat := 0

namespace ResultCache

def longestLife : Nat := 1000 * 365 * 24 * 60 * 60

/-- An empty store. Without time to live or without room it keeps nothing. -/
def ofSettings (settings : CacheSettings) : Except Abort ResultCache :=
  if longestLife < settings.ttlSeconds then .error .lifetime
  else .ok { keeps := settings.ttlSeconds ≠ 0 && settings.maxCapacity ≠ 0 }

def find? (c : ResultCache) (key : Key) : Option Payslip :=
  (c.entries.find? (·.1.same key)).map (·.2)

def get (c : ResultCache) (key : Key) : Option Payslip × ResultCache :=
  match c.find? key with
  | some payslip => (some payslip, { c with hits := c.hits + 1 })
  | none => (none, { c with misses := c.misses + 1 })

def invalidate (c : ResultCache) (key : Key) : ResultCache :=
  { c with entries := c.entries.filter (!·.1.same key) }

def insert (c : ResultCache) (key : Key) (payslip : Payslip) : ResultCache :=
  if payslip.succeeded && c.keeps then
    { c with entries := (key, payslip) :: (c.invalidate key).entries }
  else c

def clear (c : ResultCache) : ResultCache := { c with entries := [] }

def stats (c : ResultCache) : Stats :=
  { hits := c.hits, misses := c.misses, entries := c.entries.length }

def describe (c : ResultCache) : String :=
  "ResultCache \x7b entries: " ++ toString c.entries.length ++ ", hits: " ++ toString c.hits
    ++ ", misses: " ++ toString c.misses ++ " \x7d"

end ResultCache

end Payroll
