import Mathlib.Data.List.Nodup
import Runbook.Session

/-!
# Runbook.Proofs.Session

A store of sessions told by the log of its calls. The log of a session starts where the session was
opened and ends where it was closed; what it shows of an open session is the label and the entries
that were appended since (`Shows`). A store that started empty holds at every time just the sessions
that the log of its calls shows (`Explained`), so every answer can be told from the log alone
(`Explains`). No handle is ever given out twice, since the store counts its sessions.

The main statement is `performAll_explained`.
-/

namespace Runbook.SessionStore

/-! ## calls -/

/-- An operation on a store. -/
inductive Operation where
  | opening (label : Option String) (now : String)
  | append (handle : SessionHandle) (entry : String)
  | read (handle : SessionHandle)
  | close (handle : SessionHandle)
  | isOpen (handle : SessionHandle)
deriving DecidableEq

/-- What an operation answers. -/
inductive Answer where
  /-- The handle of the new session. -/
  | opened (handle : SessionHandle)
  /-- The number of entries, the new one among them. -/
  | appended (count : Nat)
  /-- The session as it is. -/
  | contents (session : Session)
  /-- The entries of the session that was closed. -/
  | closed (entries : List String)
  /-- Whether the session is open. -/
  | status (isOpen : Bool)
  /-- Why the operation fails. -/
  | refused (error : SessionError)
deriving DecidableEq

namespace Operation

/-- The handle that an operation is about. -/
def handle? : Operation → Option SessionHandle
  | .opening _ _ => none
  | .append handle _ | .read handle | .close handle | .isOpen handle => some handle

/-- Is a session opened? -/
def isOpening : Operation → Bool
  | .opening _ _ => true
  | _ => false

/-- The answer about a handle under which no session is open. -/
def refusal (handle : SessionHandle) : Operation → Answer
  | .isOpen _ => .status false
  | _ => .refused (.notOpen handle)

end Operation

/-- Performs an operation. -/
def perform (store : SessionStore) : Operation → Answer × SessionStore
  | .opening label now =>
    let opened := store.opening label now
    (.opened opened.1, opened.2)
  | .append handle entry =>
    match store.append handle entry with
    | .ok (count, after) => (.appended count, after)
    | .error e => (.refused e, store)
  | .read handle =>
    match store.read handle with
    | .ok session => (.contents session, store)
    | .error e => (.refused e, store)
  | .close handle =>
    match store.close handle with
    | .ok (entries, after) => (.closed entries, after)
    | .error e => (.refused e, store)
  | .isOpen handle => (.status (store.isOpen handle), store)

/-- An operation and what it answered. -/
structure Call where
  operation : Operation
  answer : Answer
deriving DecidableEq

/-- Performs operations one after the other; gives the log of the calls and the store behind
them. -/
def performAll (store : SessionStore) : List Operation → List Call × SessionStore
  | [] => ([], store)
  | operation :: operations =>
    let first := store.perform operation
    let rest := first.2.performAll operations
    (⟨operation, first.1⟩ :: rest.1, rest.2)

namespace Call

/-- The handle that a call gave out. -/
def issued? (call : Call) : Option SessionHandle :=
  match call.answer with
  | .opened handle => some handle
  | _ => none

/-- Did the call close the session under the handle? -/
def closes (handle : SessionHandle) (call : Call) : Bool :=
  match call.operation, call.answer with
  | .close h, .closed _ => h = handle
  | _, _ => false

/-- Did the call close a session? -/
def isClosing (call : Call) : Bool :=
  match call.answer with
  | .closed _ => true
  | _ => false

/-- The entry that the call appended to the session under the handle. -/
def entry? (handle : SessionHandle) (call : Call) : Option String :=
  match call.operation, call.answer with
  | .append h entry, .appended _ => if h = handle then some entry else none
  | _, _ => none

end Call

/-! ## what a log shows -/

/-- The handles that were given out, in order. -/
def issued (log : List Call) : List SessionHandle := log.filterMap Call.issued?

/-- The log shows the session as open: it was opened under the handle and not closed since, and its
entries are those appended since. -/
def Shows (log : List Call) (handle : SessionHandle) (session : Session) : Prop :=
  ∃ before since,
    log = before ++ ⟨.opening session.label session.openedAt, .opened handle⟩ :: since ∧
      (∀ call ∈ since, call.closes handle = false) ∧
      session.entries = since.filterMap (Call.entry? handle)

/-- What the log of the calls before it says that an operation answers. -/
inductive Explains (log : List Call) : Operation → Answer → Prop where
  /-- A handle is new, and its number counts the sessions so far. -/
  | opening {label : Option String} {now : String} {handle : SessionHandle}
      (hfresh : handle ∉ issued log) (hcount : handle.id = (issued log).length + 1) :
      Explains log (.opening label now) (.opened handle)
  | append {handle : SessionHandle} {entry : String} {session : Session}
      (hshows : Shows log handle session) :
      Explains log (.append handle entry) (.appended (session.entries ++ [entry]).length)
  | read {handle : SessionHandle} {session : Session} (hshows : Shows log handle session) :
      Explains log (.read handle) (.contents session)
  | close {handle : SessionHandle} {session : Session} (hshows : Shows log handle session) :
      Explains log (.close handle) (.closed session.entries)
  | isOpen {handle : SessionHandle} {session : Session} (hshows : Shows log handle session) :
      Explains log (.isOpen handle) (.status true)
  /-- No operation finds a session that is not open. -/
  | unknown {operation : Operation} {handle : SessionHandle}
      (hhandle : operation.handle? = some handle)
      (hunknown : ∀ session, ¬Shows log handle session) :
      Explains log operation (operation.refusal handle)

/-- A call adds to the handles issued the one that it opens, if any. -/
theorem issued_append (log : List Call) (call : Call) :
    issued (log ++ [call]) = issued log ++ call.issued?.toList := by
  cases h : call.issued? <;> simp [issued, List.filterMap_append, h]

/-- A session that the log shows was given its handle in it. -/
theorem Shows.mem_issued {log : List Call} {handle : SessionHandle} {session : Session}
    (h : Shows log handle session) : handle ∈ issued log := by
  obtain ⟨before, since, rfl, -, -⟩ := h
  simp [issued, Call.issued?]

/-- A call that does not give out the handle goes on with its session, unless it closes it. -/
theorem shows_append_iff {call : Call} {handle : SessionHandle}
    (hcall : call.issued? ≠ some handle) (log : List Call) (session : Session) :
    Shows (log ++ [call]) handle session ↔ call.closes handle = false ∧
      ∃ entries, Shows log handle { session with entries := entries } ∧
        session.entries = entries ++ (call.entry? handle).toList := by
  constructor
  · rintro ⟨before, since, hlog, hopen, hentries⟩
    rcases List.eq_nil_or_concat' since with rfl | ⟨since, last, rfl⟩
    · -- the last call would have opened the session
      obtain ⟨-, rfl⟩ := List.append_inj' hlog rfl |>.imp_right List.singleton_inj.mp
      exact absurd rfl hcall
    · have hsplit : log ++ [call] = (before ++
          ⟨.opening session.label session.openedAt, .opened handle⟩ :: since) ++ [last] := by
        rw [hlog]; simp
      obtain ⟨rfl, hlast⟩ := List.append_inj' hsplit rfl
      obtain rfl := List.singleton_inj.mp hlast
      refine ⟨hopen call (by simp), since.filterMap (Call.entry? handle),
        ⟨before, since, rfl, fun c hc => hopen c (by simp [hc]), rfl⟩, ?_⟩
      rw [hentries, List.filterMap_append]
      cases h : call.entry? handle <;> simp [h]
  · rintro ⟨hcloses, entries, ⟨before, since, rfl, hopen, hentries⟩, hsession⟩
    refine ⟨before, since ++ [call], by simp, ?_, ?_⟩
    · intro c hc
      rcases List.mem_append.mp hc with hc | hc
      · exact hopen c hc
      · rw [List.mem_singleton.mp hc]
        exact hcloses
    · change entries = _ at hentries
      rw [hsession, hentries, List.filterMap_append]
      cases h : call.entry? handle <;> simp [h]

/-- A new handle shows a session without entries. -/
theorem shows_opening_iff {log : List Call} {handle : SessionHandle} (hfresh : handle ∉ issued log)
    (label : Option String) (now : String) (session : Session) :
    Shows (log ++ [⟨.opening label now, .opened handle⟩]) handle session ↔
      session = ⟨label, now, []⟩ := by
  constructor
  · rintro ⟨before, since, hlog, -, hentries⟩
    rcases List.eq_nil_or_concat' since with rfl | ⟨since, last, rfl⟩
    · obtain ⟨-, hcall⟩ := List.append_inj' hlog rfl
      obtain ⟨label', openedAt, entries⟩ := session
      simp only [List.cons.injEq, Call.mk.injEq, Operation.opening.injEq, and_true] at hcall
      obtain ⟨rfl, rfl⟩ := hcall
      simpa using hentries
    · -- the handle would not be new
      have hsplit : log ++ [⟨.opening label now, .opened handle⟩] = (before ++
          ⟨.opening session.label session.openedAt, .opened handle⟩ :: since) ++ [last] := by
        rw [hlog]; simp
      obtain ⟨rfl, -⟩ := List.append_inj' hsplit rfl
      exact absurd (by simp [issued, Call.issued?]) hfresh
  · rintro rfl
    exact ⟨log, [], rfl, by simp, rfl⟩

/-! ## the open sessions as a list -/

/-- A handle is looked up in the first sessions before the others. -/
theorem find?_append (handle : SessionHandle) (first second : List (SessionHandle × Session)) :
    find? handle (first ++ second) = (find? handle first).or (find? handle second) := by
  induction first with
  | nil => rfl
  | cons entry rest ih =>
      obtain ⟨k, s⟩ := entry
      by_cases hk : k = handle
      · simp [find?, hk]
      · simp [find?, hk, ih]

/-- A handle is found just when a session has it. -/
theorem find?_eq_none_iff (handle : SessionHandle) (sessions : List (SessionHandle × Session)) :
    find? handle sessions = none ↔ handle ∉ sessions.map (·.1) := by
  induction sessions with
  | nil => simp [find?]
  | cons entry rest ih =>
      obtain ⟨k, s⟩ := entry
      by_cases hk : k = handle
      · simp [find?, hk]
      · simp [find?, hk, ih, Ne.symm hk]

/-- Writing to a session leaves the handles as they are. -/
theorem handles_put (handle : SessionHandle) (session : Session)
    (sessions : List (SessionHandle × Session)) :
    (put handle session sessions).map (·.1) = sessions.map (·.1) := by
  induction sessions with
  | nil => rfl
  | cons entry rest ih =>
      obtain ⟨k, s⟩ := entry
      by_cases hk : k = handle
      · simp [put, hk]
      · simp [put, hk, ih]

/-- Removing a session takes its handle away and no other. -/
theorem handles_remove (handle : SessionHandle) (sessions : List (SessionHandle × Session)) :
    (remove handle sessions).map (·.1) = (sessions.map (·.1)).filter (· ≠ handle) := by
  induction sessions with
  | nil => rfl
  | cons entry rest ih =>
      obtain ⟨k, s⟩ := entry
      by_cases hk : k = handle
      · simp [remove, hk, ih]
      · simp [remove, hk, ih]

/-- Where no handle occurs twice, one session is removed. -/
theorem length_remove {handle : SessionHandle} {sessions : List (SessionHandle × Session)}
    (hnodup : (sessions.map (·.1)).Nodup) (hmem : handle ∈ sessions.map (·.1)) :
    (remove handle sessions).length + 1 = sessions.length := by
  have hlength := congrArg List.length (handles_remove handle sessions)
  have herase : (sessions.map (·.1)).filter (· ≠ handle) = (sessions.map (·.1)).erase handle := by
    rw [hnodup.erase_eq_filter]
    exact List.filter_congr fun h _ => by simp [bne, beq_eq_decide]
  have hpos := List.length_pos_of_mem hmem
  rw [herase, List.length_erase_of_mem hmem] at hlength
  simp only [List.length_map] at hlength hpos
  omega

/-- Under a handle that stands for no open session, every operation is refused and changes
nothing. -/
theorem perform_of_unknown {store : SessionStore} {operation : Operation} {handle : SessionHandle}
    (hhandle : operation.handle? = some handle) (hfind : find? handle store.sessions = none) :
    store.perform operation = (operation.refusal handle, store) := by
  cases operation with
  | opening label now => contradiction
  | append h entry | read h | close h | isOpen h =>
      obtain rfl : h = handle := Option.some.inj hhandle
      simp [perform, SessionStore.append, SessionStore.read, SessionStore.close,
        SessionStore.isOpen, Operation.refusal, hfind]

/-! ## stores and their logs -/

/-- The store is what the log of its calls tells. -/
structure Explained (log : List Call) (store : SessionStore) : Prop where
  /-- The handles given out count the sessions. -/
  issued_eq : issued log = (List.range' 1 store.opened).map SessionHandle.mk
  /-- The open sessions are those that the log shows. -/
  find?_iff : ∀ handle session,
    find? handle store.sessions = some session ↔ Shows log handle session
  /-- No handle stands for two sessions. -/
  nodup : (store.sessions.map (·.1)).Nodup
  /-- Every session that was opened is open or was closed. -/
  size_add : store.size + log.countP Call.isClosing = store.opened

/-- The empty log explains the empty store. -/
theorem explained_empty : Explained [] empty where
  issued_eq := rfl
  find?_iff handle session := by simp [empty, find?, Shows]
  nodup := List.nodup_nil
  size_add := rfl

namespace Explained

variable {log : List Call} {store : SessionStore} (h : Explained log store)
include h

/-- As many handles were issued as sessions were opened. -/
theorem length_issued : (issued log).length = store.opened := by
  rw [h.issued_eq]
  simp

/-- No handle was issued twice. -/
theorem nodup_issued : (issued log).Nodup := by
  rw [h.issued_eq]
  refine List.Nodup.map ?_ List.nodup_range'
  intro m n hmn
  exact congrArg SessionHandle.id hmn

theorem next_notMem : (⟨store.opened + 1⟩ : SessionHandle) ∉ issued log := by
  simp [h.issued_eq, Nat.add_comm]

/-- A handle is unknown just when the log shows no open session for it. -/
theorem find?_eq_none_iff (handle : SessionHandle) :
    find? handle store.sessions = none ↔ ∀ session, ¬Shows log handle session := by
  rw [Option.eq_none_iff_forall_ne_some]
  exact forall_congr' fun session => not_congr (h.find?_iff handle session)

/-- A store that is left alone is told by the log with one more call, if that neither opens nor
writes nor closes a session. -/
theorem idle {call : Call} (hissued : call.issued? = none) (hcloses : call.isClosing = false)
    (hentry : ∀ handle, call.entry? handle = none) : Explained (log ++ [call]) store where
  issued_eq := by rw [issued_append, hissued, Option.toList_none, List.append_nil, h.issued_eq]
  find?_iff handle session := by
    have hopen : call.closes handle = false := by
      unfold Call.closes Call.isClosing at *
      split <;> simp_all
    rw [h.find?_iff, shows_append_iff (by simp [hissued])]
    simp [hopen, hentry]
  nodup := h.nodup
  size_add := by simp [List.countP_append, hcloses, h.size_add]

/-- Opening a session keeps the store explained. -/
theorem opening (label : Option String) (now : String) :
    Explained (log ++ [⟨.opening label now, .opened ⟨store.opened + 1⟩⟩])
      (store.opening label now).2 where
  issued_eq := by
    rw [issued_append, h.issued_eq]
    simp [Call.issued?, SessionStore.opening, List.range'_concat, Nat.add_comm]
  find?_iff handle session := by
    simp only [SessionStore.opening, find?_append]
    by_cases hnew : handle = ⟨store.opened + 1⟩
    · subst hnew
      have hunknown : find? ⟨store.opened + 1⟩ store.sessions = none := by
        rw [h.find?_eq_none_iff]
        exact fun session hshows => h.next_notMem hshows.mem_issued
      rw [shows_opening_iff h.next_notMem, hunknown]
      simp [find?, eq_comm]
    · rw [shows_append_iff (by simpa [Call.issued?, eq_comm] using hnew)]
      simp [find?, Ne.symm hnew, Call.closes, Call.entry?, h.find?_iff]
  nodup := by
    have hnew : (⟨store.opened + 1⟩ : SessionHandle) ∉ store.sessions.map (·.1) := by
      rw [← SessionStore.find?_eq_none_iff, h.find?_eq_none_iff]
      exact fun session hshows => h.next_notMem hshows.mem_issued
    simp only [SessionStore.opening, List.map_append, List.map_singleton]
    exact h.nodup.append (List.nodup_singleton _) (by simpa using hnew)
  size_add := by
    have hsize := h.size_add
    simp only [size] at hsize
    simp only [size, SessionStore.opening, List.length_append, List.length_singleton,
      List.countP_append, List.countP_singleton, Call.isClosing, Bool.false_eq_true, if_false]
    omega

/-- So does appending to one. -/
theorem append {handle : SessionHandle} {session : Session}
    (hfind : find? handle store.sessions = some session) (entry : String) :
    Explained (log ++ [⟨.append handle entry, .appended (session.entries ++ [entry]).length⟩])
      ⟨store.opened,
        put handle { session with entries := session.entries ++ [entry] } store.sessions⟩ where
  issued_eq := by simpa [issued_append, Call.issued?] using h.issued_eq
  find?_iff other s := by
    rw [shows_append_iff (by simp [Call.issued?]), find?_put]
    by_cases hother : handle = other
    · subst hother
      simp only [if_true, hfind, Option.map_some, Option.some.injEq, Call.closes, Call.entry?,
        Option.toList_some, true_and]
      constructor
      · rintro rfl
        exact ⟨session.entries, (h.find?_iff _ _).mp hfind, rfl⟩
      · rintro ⟨entries, hshows, hentries⟩
        rw [← h.find?_iff, hfind, Option.some.injEq] at hshows
        obtain ⟨label, openedAt, _⟩ := s
        subst hshows
        change _ = entries ++ [entry] at hentries
        subst hentries
        rfl
    · rw [if_neg hother, h.find?_iff]
      simp [Call.closes, Call.entry?, hother]
  nodup := by
    simp only [handles_put]
    exact h.nodup
  size_add := by
    have hlength := congrArg List.length
      (handles_put handle { session with entries := session.entries ++ [entry] } store.sessions)
    simp only [List.length_map] at hlength
    simpa [size, hlength, Call.isClosing, List.countP_append] using h.size_add

/-- So does closing one. -/
theorem close {handle : SessionHandle} {session : Session}
    (hfind : find? handle store.sessions = some session) :
    Explained (log ++ [⟨.close handle, .closed session.entries⟩])
      ⟨store.opened, remove handle store.sessions⟩ where
  issued_eq := by simpa [issued_append, Call.issued?] using h.issued_eq
  find?_iff other s := by
    rw [shows_append_iff (by simp [Call.issued?]), find?_remove]
    by_cases hother : handle = other
    · simp [hother, Call.closes]
    · rw [if_neg hother, h.find?_iff]
      simp [Call.closes, Call.entry?, hother]
  nodup := by
    simp only [handles_remove]
    exact h.nodup.filter _
  size_add := by
    have hmem : handle ∈ store.sessions.map (·.1) := by
      by_contra hnot
      rw [← SessionStore.find?_eq_none_iff, hfind] at hnot
      contradiction
    have hlength := length_remove h.nodup hmem
    have hsize := h.size_add
    simp only [size] at hsize
    simp only [size, List.countP_append, List.countP_singleton, Call.isClosing, if_true]
    omega

/-- An operation under a handle that stands for no open session. -/
theorem step_of_unknown {operation : Operation} {handle : SessionHandle}
    (hhandle : operation.handle? = some handle) (hfind : find? handle store.sessions = none) :
    Explains log operation (store.perform operation).1 ∧
      Explained (log ++ [⟨operation, (store.perform operation).1⟩])
        (store.perform operation).2 := by
  rw [perform_of_unknown hhandle hfind]
  refine ⟨.unknown hhandle ((h.find?_eq_none_iff handle).mp hfind), h.idle ?_ ?_ fun _ => ?_⟩
  all_goals cases operation <;> rfl

/-- One operation: its answer is what the log explains, and the store behind it is told by the log
with the call. -/
theorem step (operation : Operation) :
    Explains log operation (store.perform operation).1 ∧
      Explained (log ++ [⟨operation, (store.perform operation).1⟩])
        (store.perform operation).2 := by
  cases operation with
  | opening label now =>
      -- the new handle counts the sessions opened, and the log has issued that many
      refine ⟨.opening h.next_notMem ?_, h.opening label now⟩
      rw [h.length_issued]
      rfl
  | append handle entry =>
      -- a handle is known just if the log shows it open
      cases hfind : find? handle store.sessions with
      | none => exact h.step_of_unknown rfl hfind
      | some session =>
          simp only [perform, SessionStore.append, hfind]
          exact ⟨.append ((h.find?_iff _ _).mp hfind), h.append hfind entry⟩
  | read handle =>
      cases hfind : find? handle store.sessions with
      | none => exact h.step_of_unknown rfl hfind
      | some session =>
          simp only [perform, SessionStore.read, hfind]
          exact ⟨.read ((h.find?_iff _ _).mp hfind), h.idle rfl rfl fun _ => rfl⟩
  | close handle =>
      cases hfind : find? handle store.sessions with
      | none => exact h.step_of_unknown rfl hfind
      | some session =>
          simp only [perform, SessionStore.close, hfind]
          exact ⟨.close ((h.find?_iff _ _).mp hfind), h.close hfind⟩
  | isOpen handle =>
      cases hfind : find? handle store.sessions with
      | none => exact h.step_of_unknown rfl hfind
      | some session =>
          simp only [perform, SessionStore.isOpen, hfind]
          exact ⟨.isOpen ((h.find?_iff _ _).mp hfind), h.idle rfl rfl fun _ => rfl⟩

end Explained

/-- All operations: every answer is what the log before it explains, and the store at the end is
told by the whole log. -/
theorem Explained.run {log : List Call} {store : SessionStore} (h : Explained log store)
    (operations : List Operation) :
    (∀ before call after, (store.performAll operations).1 = before ++ call :: after →
        Explains (log ++ before) call.operation call.answer) ∧
      Explained (log ++ (store.performAll operations).1) (store.performAll operations).2 := by
  induction operations generalizing log store with
  | nil => exact ⟨fun before call after hlog => by simp [performAll] at hlog, by simpa [performAll]⟩
  | cons operation operations ih =>
      obtain ⟨hanswer, hstore⟩ := h.step operation
      obtain ⟨hanswers, hstores⟩ := ih hstore
      refine ⟨?_, by simpa [performAll] using hstores⟩
      intro before call after hlog
      simp only [performAll] at hlog
      cases before with
      | nil =>
          obtain ⟨rfl, -⟩ := List.cons.inj hlog
          simpa using hanswer
      | cons first before =>
          obtain ⟨rfl, hrest⟩ := List.cons.inj hlog
          simpa using hanswers before call after hrest

/-! ## what a log says of its handles -/

/-- The calls are those of the operations. -/
theorem operation_performAll (store : SessionStore) (operations : List Operation) :
    (store.performAll operations).1.map Call.operation = operations := by
  induction operations generalizing store with
  | nil => rfl
  | cons operation operations ih => simp [performAll, ih]

/-- Just the calls that open a session give out a handle. -/
theorem isSome_issued?_perform (store : SessionStore) (operation : Operation) :
    (Call.mk operation (store.perform operation).1).issued?.isSome = operation.isOpening := by
  cases operation with
  | opening label now => rfl
  | isOpen handle => rfl
  | append handle entry =>
      simp only [perform]
      cases store.append handle entry <;> rfl
  | read handle =>
      simp only [perform]
      cases store.read handle <;> rfl
  | close handle =>
      simp only [perform]
      cases store.close handle <;> rfl

/-- Any calls issue as many handles as they open sessions. -/
theorem length_issued_performAll (store : SessionStore) (operations : List Operation) :
    (issued (store.performAll operations).1).length = operations.countP Operation.isOpening := by
  induction operations generalizing store with
  | nil => rfl
  | cons operation operations ih =>
      have hfirst := isSome_issued?_perform store operation
      have hrest := ih (store.perform operation).2
      simp only [issued, performAll, List.filterMap_cons, List.countP_cons] at hrest ⊢
      cases hcall : (Call.mk operation (store.perform operation).1).issued? with
      | none => simp_all
      | some handle => simp_all

/-- A session that was closed is never shown again. -/
theorem not_shows_of_closes {log : List Call} (hnodup : (issued log).Nodup)
    (hlog : ∀ before call after, log = before ++ call :: after →
      Explains before call.operation call.answer)
    {call : Call} (hmem : call ∈ log) {handle : SessionHandle} (hcloses : call.closes handle = true)
    (session : Session) : ¬Shows log handle session := by
  rintro ⟨start, since, hstart, hopen, -⟩
  obtain ⟨before, after, hsplit⟩ := List.append_of_mem hmem
  -- when it was closed, the session had been opened
  have hissued : handle ∈ issued before := by
    have hcall := hlog before call after hsplit
    obtain ⟨operation, answer⟩ := call
    dsimp only at hcall
    cases hcall with
    | close hshows =>
        obtain rfl : _ = handle := by simpa [Call.closes] using hcloses
        exact hshows.mem_issued
    | unknown => cases operation <;> simp [Call.closes, Operation.refusal] at hcloses
    | opening | append | read | isOpen => simp [Call.closes] at hcloses
  rw [hstart] at hsplit
  rcases List.append_eq_append_iff.mp hsplit with ⟨between, rfl, hrest⟩ | ⟨between, rfl, hrest⟩
  · cases between with
    | nil =>
        obtain ⟨rfl, -⟩ := List.cons.inj hrest
        simp [Call.closes] at hcloses
    | cons first between =>
        obtain ⟨-, rfl⟩ := List.cons.inj hrest
        simp [hopen call (by simp)] at hcloses
  · -- the handle would have been given out twice
    rw [hstart] at hnodup
    simp only [issued, List.filterMap_append, List.filterMap_cons, Call.issued?] at hnodup hissued
    rw [List.append_assoc, List.nodup_append] at hnodup
    exact hnodup.2.2 handle hissued handle (by simp) rfl

/-- What is asked of a session after it was closed is refused. -/
theorem answer_of_closes {log before after : List Call} (hnodup : (issued log).Nodup)
    (hanswers : ∀ before call after, log = before ++ call :: after →
      Explains before call.operation call.answer)
    {call later : Call} {handle : SessionHandle} (hlog : log = before ++ call :: after)
    (hlater : later ∈ after) (hcloses : call.closes handle = true)
    (hhandle : later.operation.handle? = some handle) :
    later.answer = later.operation.refusal handle := by
  obtain ⟨since, rest, rfl⟩ := List.append_of_mem hlater
  have hsplit : log = (before ++ call :: since) ++ later :: rest := by simpa using hlog
  have hprefix : ∀ start first more, before ++ call :: since = start ++ first :: more →
      Explains start first.operation first.answer := by
    intro start first more hstart
    refine hanswers start first (more ++ later :: rest) ?_
    rw [hsplit, hstart, List.append_assoc, List.cons_append]
  rw [hsplit, issued, List.filterMap_append, List.nodup_append] at hnodup
  have hunknown := not_shows_of_closes hnodup.1 hprefix (by simp) hcloses
  have hanswer := hanswers _ later rest hsplit
  obtain ⟨operation, answer⟩ := later
  dsimp only at hanswer hhandle ⊢
  cases hanswer with
  | opening => contradiction
  | unknown hsame =>
      obtain rfl : _ = handle := Option.some.inj (hsame.symm.trans hhandle)
      rfl
  | append hshows | read hshows | close hshows | isOpen hshows =>
      obtain rfl : _ = handle := Option.some.inj hhandle
      exact absurd hshows (hunknown _)

/-- An operation that is refused leaves the store alone. -/
theorem perform_of_refused {store : SessionStore} {operation : Operation} {error : SessionError}
    (h : (store.perform operation).1 = .refused error) : (store.perform operation).2 = store := by
  cases operation with
  | opening label now => simp [perform] at h
  | isOpen handle => rfl
  | append handle entry =>
      simp only [perform] at h ⊢
      cases hcase : store.append handle entry <;> simp_all
  | read handle =>
      simp only [perform]
      cases store.read handle <;> rfl
  | close handle =>
      simp only [perform] at h ⊢
      cases hcase : store.close handle <;> simp_all

/-- An operation leaves the sessions alone that it is not about. -/
theorem find?_perform {store : SessionStore} {operation : Operation} {other : SessionHandle}
    (hhandle : operation.handle? ≠ some other)
    (hopened : (store.perform operation).1 ≠ .opened other) :
    find? other (store.perform operation).2.sessions = find? other store.sessions := by
  cases operation with
  | opening label now =>
      have hnew : ¬(⟨store.opened + 1⟩ : SessionHandle) = other := by
        simpa [perform, SessionStore.opening] using hopened
      simp [perform, SessionStore.opening, find?_append, find?, hnew]
  | isOpen handle => rfl
  | append handle entry =>
      have hother : ¬handle = other := by simpa [Operation.handle?] using hhandle
      simp only [perform, SessionStore.append]
      cases hfind : find? handle store.sessions with
      | none => rfl
      | some session => simp [find?_put, hother]
  | read handle =>
      simp only [perform]
      cases store.read handle <;> rfl
  | close handle =>
      have hother : ¬handle = other := by simpa [Operation.handle?] using hhandle
      simp only [perform, SessionStore.close]
      cases hfind : find? handle store.sessions with
      | none => rfl
      | some session => simp [find?_remove, hother]

/-- **A store of sessions is the log of its calls.** Whatever is done with a store that starts
without sessions, every answer is the one that the log of the calls before it explains: a new handle
for each session, the label of an open session and the entries appended since it was opened, their
number, and a refusal under every other handle. No handle is given out twice, and as long as fewer
sessions are opened than there are words, its number fits one. A handle is refused at all times
after its session was closed. At every time, a refused operation changes nothing, and no operation
changes another session than its own; the sessions that are open and those that were closed are all
that were opened. -/
theorem performAll_explained (operations : List Operation) :
    ∃ log store, empty.performAll operations = (log, store) ∧
      log.map Call.operation = operations ∧
      (∀ before call after, log = before ++ call :: after →
        Explains before call.operation call.answer) ∧
      (issued log).Nodup ∧ (issued log).length = operations.countP Operation.isOpening ∧
      (operations.countP Operation.isOpening < Text.wordLimit →
        ∀ handle ∈ issued log, handle.id < Text.wordLimit) ∧
      (∀ before call after later handle, log = before ++ call :: after → later ∈ after →
        call.closes handle = true → later.operation.handle? = some handle →
          later.answer = later.operation.refusal handle) ∧
      (∀ operation error, (store.perform operation).1 = .refused error →
        (store.perform operation).2 = store) ∧
      (∀ operation other, operation.handle? ≠ some other →
        (store.perform operation).1 ≠ .opened other →
          find? other (store.perform operation).2.sessions = find? other store.sessions) ∧
      store.size + log.countP Call.isClosing = operations.countP Operation.isOpening := by
  obtain ⟨hanswers, hstore⟩ := explained_empty.run operations
  have hopenings := length_issued_performAll empty operations
  simp only [List.nil_append] at hanswers hstore
  generalize hrun : empty.performAll operations = run at hanswers hstore hopenings
  obtain ⟨log, store⟩ := run
  have hcount : store.opened = operations.countP Operation.isOpening :=
    hstore.length_issued.symm.trans hopenings
  refine ⟨log, store, rfl, ?_, hanswers, hstore.nodup_issued, hopenings, ?_, ?_,
    fun _ _ => perform_of_refused, fun _ _ => find?_perform, hstore.size_add.trans hcount⟩
  · rw [← operation_performAll empty operations, hrun]
  · intro hfew handle hmem
    rw [hstore.issued_eq, hcount, List.mem_map] at hmem
    obtain ⟨n, hn, rfl⟩ := hmem
    rw [List.mem_range'_1] at hn
    change n < Text.wordLimit
    omega
  · intro before call after later handle
    exact answer_of_closes hstore.nodup_issued hanswers

end Runbook.SessionStore
