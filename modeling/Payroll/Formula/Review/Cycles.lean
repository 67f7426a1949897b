import Payroll.Formula.Review.Steps

/-!
# Circular dependencies

A result depends on the results that its steps refer to. Names bound before the first step are no
dependencies, even if a step binds them again.
-/

set_option autoImplicit false

namespace Payroll

abbrev Dependencies := List (String × List String)

namespace Dependencies

def add (g : Dependencies) (name : String) (more : List String) : Dependencies :=
  match g with
  | [] => [(name, more)]
  | (n, names) :: rest =>
    if n = name then (n, names ++ more) :: rest else (n, names) :: add rest name more

def of (g : Dependencies) (name : String) : List String := (g.lookup name).getD []

/-- The part of a path, latest name first, from the last visit of `name` on, and then `name`. -/
def loop (path : List String) (name : String) : List String :=
  path.reverse.dropWhile (· ≠ name) ++ [name]

/-- Follows the dependencies of `name` depth first. `path` holds the names that led to it, latest
first, and `visited` the names that were left without finding a loop. The answer is a loop, or the
names visited by now. No path is longer than the number of names, so this is depth enough. -/
def search (g : Dependencies) :
    Nat → List String → List String → String → Except (List String) (List String)
  | 0, _, visited, _ => .ok visited
  | depth + 1, path, visited, name => do
    let path := name :: path
    let visited ← (g.of name).foldlM
      (fun visited next =>
        if path.contains next then .error (loop path next)
        else if visited.contains next then .ok visited
        else search g depth path visited next)
      visited
    return name :: visited

def firstLoop? (g : Dependencies) (names : List String) : Option (List String) :=
  let outcome := names.foldlM
    (fun visited name =>
      if visited.contains name then .ok visited else search g g.length [] visited name)
    []
  match outcome with
  | .error path => some path
  | .ok _ => none

end Dependencies

namespace Formula

def resultNames (f : Formula) : List String :=
  (f.steps.map (·.result)).filter (!·.isEmpty)

def dependencies (f : Formula) : Dependencies :=
  let results := f.resultNames
  let initial := f.initialNames
  f.steps.foldl
    (fun g s =>
      if s.result.isEmpty then g
      else
        g.add s.result <|
          s.operation.references.filter fun name => !initial.contains name && results.contains name)
    []

def producerId? (f : Formula) (name : String) : Option String :=
  (f.steps.find? (·.result = name)).map (·.id)

def cycleDefects (f : Formula) : List Defect :=
  match f.dependencies.firstLoop? f.resultNames with
  | some path => [.circular (path.head?.bind f.producerId?) path]
  | none => []

end Formula

end Payroll
