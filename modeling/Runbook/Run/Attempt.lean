import Runbook.Delay
import Runbook.Run.Registry

/-!
# Runbook.Run.Attempt

Invoking a capability until it succeeds. After a failed attempt there is another one as long as
retries are left, with the same arguments and after a pause that doubles from attempt to attempt. A
raised error counts as a failure whose output is the error's text.
-/

namespace Runbook

/-- One invocation of a capability and the pause behind it. -/
structure Attempt where
  /-- What the capability reported or raised. -/
  result : Except String Report
  /-- How long the next attempt is put off; zero behind the last one. -/
  pause : Delay

/-- A raised error as a report. -/
def Report.ofResult : Except String Report → Report
  | .ok report => report
  | .error text => .failed (.string text)

/-- The report of an attempt. -/
def Attempt.report (attempt : Attempt) : Report := .ofResult attempt.result

/-- A sequence of attempts: all of them, the report of the last one, and the world behind it. -/
structure Attempts (World : Type) where
  /-- All attempts, oldest first. -/
  all : List Attempt
  /-- What the last one reported. -/
  last : Report
  /-- The world behind the last one. -/
  world : World

/-- Invokes a capability until it succeeds or `retries` further attempts have failed; `number`
counts the attempts from one. -/
def attemptsFrom {World : Type} (capability : Capability World) (args : Entries)
    (base : Option Delay) (number : Nat) : Nat → World → Attempts World
  | 0, world =>
    let tried := capability.invoke args world
    ⟨[⟨tried.1, ⟨0, 0⟩⟩], .ofResult tried.1, tried.2⟩
  | retries + 1, world =>
    let tried := capability.invoke args world
    if (Report.ofResult tried.1).success then
      ⟨[⟨tried.1, ⟨0, 0⟩⟩], .ofResult tried.1, tried.2⟩
    else
      let pause := base.elim ⟨0, 0⟩ fun d => d.backoff number
      let rest := attemptsFrom capability args base (number + 1) retries tried.2
      ⟨⟨tried.1, pause⟩ :: rest.all, rest.last, rest.world⟩

/-- Invokes a capability at most `retries + 1` times. -/
def attempts {World : Type} (capability : Capability World) (args : Entries)
    (base : Option Delay) (retries : Nat) (world : World) : Attempts World :=
  attemptsFrom capability args base 1 retries world

end Runbook
