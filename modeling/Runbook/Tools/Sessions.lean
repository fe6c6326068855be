import Runbook.Run.Registry
import Runbook.Session
import Runbook.Tools.Arguments

/-!
# Runbook.Tools.Sessions

The built-in capabilities on sessions. Arguments that are not accepted raise an error; an operation
on a session that is not open is a failure. In neither case does the store change.
-/

namespace Runbook.Tools

/-- Entries, one on each line. -/
def entryLines (entries : List String) : Value := .string ("\n".intercalate entries)

/-- The handle in the `session` argument, or the text of the error. -/
def handleArgument (args : Entries) : Except String SessionHandle :=
  match requiredText args "session" with
  | .error e => .error e.message
  | .ok text =>
    match SessionHandle.ofText text with
    | .error e => .error e.message
    | .ok handle => .ok handle

/-- A failure of an operation on sessions. -/
def sessionFailure (e : SessionError) : Report := .failed (.string e.message)

/-- Opens a session, with the `text` argument as its first entry. -/
def sessionOpen (now : String) (args : Entries) (store : SessionStore) :
    Except String Report × SessionStore :=
  let (handle, store) := store.opening ((present? args "label").map Value.display) now
  let store :=
    match present? args "text" with
    | none => store
    | some v => ((store.append handle v.display).map (·.2)).toOption.getD store
  (.ok ((Report.succeeded (.string handle.text)).withDetail "session" (.string handle.text)), store)

/-- Adds the `text` argument to a session. -/
def sessionWrite (args : Entries) (store : SessionStore) : Except String Report × SessionStore :=
  match handleArgument args with
  | .error e => (.error e, store)
  | .ok handle =>
    match requiredText args "text" with
    | .error e => (.error e.message, store)
    | .ok text =>
      match store.append handle text with
      | .error e => (.ok (sessionFailure e), store)
      | .ok (count, store) =>
        match store.read handle with
        | .error e => (.error e.message, store)
        | .ok session =>
          (.ok ⟨entryLines session.entries, true,
            some [("session", .string handle.text), ("entries", .ofNat count)]⟩, store)

/-- All entries of a session. -/
def sessionRead (args : Entries) (store : SessionStore) : Except String Report × SessionStore :=
  match handleArgument args with
  | .error e => (.error e, store)
  | .ok handle =>
    match store.read handle with
    | .error e => (.ok (sessionFailure e), store)
    | .ok session =>
      (.ok ⟨entryLines session.entries, true,
        some [("session", .string handle.text), ("entries", .ofNat session.entries.length),
          ("opened_at", .string session.openedAt)]⟩, store)

/-- Closes a session. -/
def sessionClose (args : Entries) (store : SessionStore) : Except String Report × SessionStore :=
  match handleArgument args with
  | .error e => (.error e, store)
  | .ok handle =>
    match store.close handle with
    | .error e => (.ok (sessionFailure e), store)
    | .ok (entries, store) =>
      (.ok ⟨entryLines entries, true,
        some [("session", .string handle.text), ("entries", .ofNat entries.length)]⟩, store)

end Runbook.Tools
