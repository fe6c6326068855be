import Runbook.Number.Basic

/-!
# Runbook.Value.Basic

The values that a workflow computes with: null, booleans, numbers, strings, lists, and mappings.
A mapping is the list of its entries in the order of insertion; assigning a key that is already
there keeps its place (`Entries.get?_set`, `Entries.keys_set`).
-/

namespace Runbook

/-- A value of a workflow. -/
inductive Value where
  | null
  | bool (b : Bool)
  | number (n : Number)
  | string (s : String)
  | array (items : List Value)
  | object (entries : List (String × Value))

/-- The entries of a mapping, in the order of insertion. -/
abbrev Entries := List (String × Value)

instance : Inhabited Value := ⟨.null⟩

/-! ## Entries -/

namespace Entries

/-- The value of the first entry with a key. -/
def get? (key : String) : Entries → Option Value
  | [] => none
  | (k, v) :: rest => if k = key then some v else get? key rest

/-- Is there an entry with the key? -/
def has (key : String) (entries : Entries) : Bool := (get? key entries).isSome

/-- Binds a key: in its place if there is an entry with it, and else at the end. -/
def set (key : String) (value : Value) : Entries → Entries
  | [] => [(key, value)]
  | (k, v) :: rest => if k = key then (k, value) :: rest else (k, v) :: set key value rest

/-- The entries without those for a key. -/
def erase (key : String) (entries : Entries) : Entries := entries.filter fun e => e.1 ≠ key

/-- The keys in order. -/
def keys (entries : Entries) : List String := entries.map (·.1)

/-- Entries from a list of bindings: a key that is bound again keeps its place and takes the later
value. -/
def ofBindings (bindings : List (String × Value)) : Entries :=
  bindings.foldl (fun entries b => set b.1 b.2 entries) []

/-- An entry that is set is read back, and no other is touched. -/
theorem get?_set (key other : String) (value : Value) (entries : Entries) :
    get? other (set key value entries) =
      if key = other then some value else get? other entries := by
  induction entries with
  | nil => simp [set, get?]
  | cons e rest ih =>
    obtain ⟨k, v⟩ := e
    by_cases h : k = key
    · subst h
      by_cases h' : k = other <;> simp [set, get?, h']
    · by_cases h' : k = other
      · subst h'
        have : ¬key = k := fun hk => h hk.symm
        simp [set, get?, h, this]
      · simp [set, get?, h, h', ih]

/-- An entry is read from the first entries before the second. -/
theorem get?_append (key : String) (first second : Entries) :
    get? key (first ++ second) = (get? key first).or (get? key second) := by
  induction first with
  | nil => simp [get?]
  | cons e rest ih =>
    obtain ⟨k, v⟩ := e
    by_cases h : k = key
    · simp [get?, h]
    · simp only [List.cons_append, get?, if_neg h, ih]

/-- A key that is set stays in its place, or comes last if it is new. -/
theorem keys_set (key : String) (value : Value) (entries : Entries) :
    keys (set key value entries) =
      if key ∈ keys entries then keys entries else keys entries ++ [key] := by
  induction entries with
  | nil => simp [set, keys]
  | cons e rest ih =>
    obtain ⟨k, v⟩ := e
    by_cases h : k = key
    · simp [set, keys, h]
    · have h' : ¬key = k := fun hk => h hk.symm
      simp only [keys] at ih
      by_cases hm : key ∈ List.map (·.1) rest <;> simp [set, keys, h, h', hm, ih]

end Entries

/-! ## Parts of a value -/

namespace Value

/-- The integer `n` as a value. -/
def ofNat (n : Nat) : Value := .number (.int n)

/-- A string or null. -/
def optionalText (s : Option String) : Value := s.elim .null .string

/-- The items of a list. -/
def items? : Value → Option (List Value)
  | .array items => some items
  | _ => none

/-- The entries of a mapping. -/
def entries? : Value → Option Entries
  | .object entries => some entries
  | _ => none

/-- The text of a string. -/
def string? : Value → Option String
  | .string s => some s
  | _ => none

/-- The value of a key, if the value is a mapping that has it. -/
def member? (value : Value) (key : String) : Option Value :=
  value.entries?.bind (Entries.get? key)

/-! ## Equality

Two values are the same if they have one shape and equal leaves. The order of a mapping's entries
does not matter.
-/

mutual

/-- Equality of values as data. -/
def same : Value → Value → Bool
  | .null, .null => true
  | .bool a, .bool b => a == b
  | .number a, .number b => a.same b
  | .string a, .string b => a == b
  | .array xs, .array ys => sameItems xs ys
  | .object es, .object fs => es.length == fs.length && sameEntries es fs
  | _, _ => false
termination_by structural v => v

/-- Lists of equal length with the same values at each place. -/
def sameItems : List Value → List Value → Bool
  | [], [] => true
  | x :: xs, y :: ys => same x y && sameItems xs ys
  | _, _ => false
termination_by structural xs => xs

/-- Every entry on the left has the same value on the right. -/
def sameEntries : List (String × Value) → Entries → Bool
  | [], _ => true
  | (k, v) :: es, fs =>
    (match Entries.get? k fs with
      | some w => same v w
      | none => false) && sameEntries es fs
termination_by structural es => es

end

end Value

end Runbook
