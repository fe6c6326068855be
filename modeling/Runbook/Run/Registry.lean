import Runbook.Report

/-!
# Runbook.Run.Registry

Capabilities and the registry that names them. A capability acts on a world of any type: it takes
arguments, changes the world, and either reports or raises an error. `Capability.within` lets a
capability that knows a part of a world act on the whole.

A registry keeps the order of registration; registering a name again replaces the capability in its
place.
-/

namespace Runbook

/-- Something that a step can invoke. -/
structure Capability (World : Type) where
  /-- What the capability does, for listings. -/
  description : String
  /-- The effect of an invocation; an error is its text. -/
  invoke : Entries → World → Except String Report × World

/-- A capability on a part of a world. -/
def Capability.within {Part World : Type} (get : World → Part) (put : Part → World → World)
    (capability : Capability Part) : Capability World where
  description := capability.description
  invoke args world :=
    let acted := capability.invoke args (get world)
    (acted.1, put acted.2 world)

/-- Capabilities under their names, in the order of registration. -/
abbrev Registry (World : Type) := List (String × Capability World)

namespace Registry

variable {World : Type}

/-- The capability with a name. -/
def find? (name : String) : List (String × Capability World) → Option (Capability World)
  | [] => none
  | (n, c) :: rest => if n = name then some c else find? name rest

/-- Registers a capability: in the place of one with the same name, and else at the end. -/
def register (name : String) (capability : Capability World) :
    List (String × Capability World) → List (String × Capability World)
  | [] => [(name, capability)]
  | (n, c) :: rest =>
    if n = name then (n, capability) :: rest else (n, c) :: register name capability rest

/-- The names in order. -/
def names (registry : Registry World) : List String := registry.map (·.1)

end Registry

end Runbook
