import Runbook.Text.Blank
import Runbook.Text.Numeral
import Runbook.Text.Search

/-!
# Runbook.Session

Sessions: logs of texts that are opened, written, read and closed under a handle. A store never
gives out a handle twice, because it counts all sessions it ever opened; a handle of a closed
session stays unknown. An operation on an unknown handle fails and changes nothing, and no operation
touches another session (`find?_put`, `find?_remove`).

A handle is written `session-N`, and is also read without the word.
-/

namespace Runbook

/-- The number of a session. -/
structure SessionHandle where
  /-- Counted from one in each store. -/
  id : Nat
deriving DecidableEq

/-- Why an operation on a session fails. -/
inductive SessionError where
  /-- No session with this handle is open. -/
  | notOpen (handle : SessionHandle)
  /-- The text is no handle. -/
  | badHandle (text : String)
deriving DecidableEq

namespace SessionHandle

/-- The word in front of the number. -/
def word : List Char := "session-".toList

/-- The text of a handle. -/
def text (handle : SessionHandle) : String := String.ofList (word ++ Text.digits handle.id)

/-- The handle that a text spells, with or without the word and with blanks around it. -/
def ofText (s : String) : Except SessionError SessionHandle :=
  let cs := Text.trim s.toList
  match Text.natural? Text.wordLimit ((Text.dropLead? word cs).getD cs) with
  | some n => .ok ⟨n⟩
  | none => .error (.badHandle s)

end SessionHandle

/-- The description of an error. -/
def SessionError.message : SessionError → String
  | notOpen handle => handle.text ++ " is not open"
  | badHandle text => "'" ++ text ++ "' is not a session handle"

/-- An open session. -/
structure Session where
  /-- The label given when it was opened. -/
  label : Option String
  /-- The time at which it was opened, as text. -/
  openedAt : String
  /-- The entries, oldest first. -/
  entries : List String
deriving DecidableEq

/-- The open sessions and the number of all sessions ever opened. -/
structure SessionStore where
  /-- How many sessions were opened. -/
  opened : Nat
  /-- The open sessions under their handles. -/
  sessions : List (SessionHandle × Session)

namespace SessionStore

/-- A store without sessions. -/
def empty : SessionStore := ⟨0, []⟩

/-- The session under a handle. -/
def find? (handle : SessionHandle) : List (SessionHandle × Session) → Option Session
  | [] => none
  | (h, s) :: rest => if h = handle then some s else find? handle rest

/-- Replaces the session under a handle. -/
def put (handle : SessionHandle) (session : Session) :
    List (SessionHandle × Session) → List (SessionHandle × Session)
  | [] => []
  | (h, s) :: rest => if h = handle then (h, session) :: rest else (h, s) :: put handle session rest

/-- The sessions without those under a handle. -/
def remove (handle : SessionHandle) :
    List (SessionHandle × Session) → List (SessionHandle × Session)
  | [] => []
  | (h, s) :: rest => if h = handle then remove handle rest else (h, s) :: remove handle rest

/-- A session that is put is found, if there was one, and no other is touched. -/
theorem find?_put (handle other : SessionHandle) (session : Session)
    (sessions : List (SessionHandle × Session)) :
    find? other (put handle session sessions) =
      if handle = other then (find? handle sessions).map fun _ => session
      else find? other sessions := by
  induction sessions with
  | nil => by_cases h : handle = other <;> simp [put, find?, h]
  | cons entry rest ih =>
    obtain ⟨k, s⟩ := entry
    by_cases hk : k = handle
    · subst hk
      by_cases ho : k = other <;> simp [put, find?, ho]
    · by_cases ho : k = other
      · subst ho
        have : ¬handle = k := fun h => hk h.symm
        simp [put, find?, hk, this]
      · simp [put, find?, hk, ho, ih]

/-- A session that is removed is not found, and no other is touched. -/
theorem find?_remove (handle other : SessionHandle) (sessions : List (SessionHandle × Session)) :
    find? other (remove handle sessions) =
      if handle = other then none else find? other sessions := by
  induction sessions with
  | nil => simp [remove, find?]
  | cons entry rest ih =>
    obtain ⟨k, s⟩ := entry
    by_cases hk : k = handle
    · subst hk
      by_cases ho : k = other
      · subst ho; simp [remove, ih]
      · simp [remove, find?, ih, ho]
    · by_cases ho : k = other
      · subst ho
        have : ¬handle = k := fun h => hk h.symm
        simp [remove, find?, hk, this]
      · simp [remove, find?, hk, ho, ih]

/-- How many sessions are open. -/
def size (store : SessionStore) : Nat := store.sessions.length

/-- Is a session open? -/
def isOpen (store : SessionStore) (handle : SessionHandle) : Bool :=
  (find? handle store.sessions).isSome

/-- Opens a session without entries. -/
def opening (store : SessionStore) (label : Option String) (now : String) :
    SessionHandle × SessionStore :=
  let handle := ⟨store.opened + 1⟩
  (handle, ⟨store.opened + 1, store.sessions ++ [(handle, ⟨label, now, []⟩)]⟩)

/-- The session under a handle. -/
def read (store : SessionStore) (handle : SessionHandle) : Except SessionError Session :=
  match find? handle store.sessions with
  | some session => .ok session
  | none => .error (.notOpen handle)

/-- Adds an entry and gives the number of entries. -/
def append (store : SessionStore) (handle : SessionHandle) (entry : String) :
    Except SessionError (Nat × SessionStore) :=
  match find? handle store.sessions with
  | none => .error (.notOpen handle)
  | some session =>
    let entries := session.entries ++ [entry]
    .ok (entries.length,
      { store with sessions := put handle { session with entries := entries } store.sessions })

/-- Closes a session and gives its entries. -/
def close (store : SessionStore) (handle : SessionHandle) :
    Except SessionError (List String × SessionStore) :=
  match find? handle store.sessions with
  | none => .error (.notOpen handle)
  | some session =>
    .ok (session.entries, { store with sessions := remove handle store.sessions })

end SessionStore

end Runbook
