import Runbook.Value.Reading

/-!
# Runbook.Value.Skipping

Passing over a value in a data text. What is passed over has to be well formed, but is not looked
into: numbers may be of any size, escapes need not form characters, and values nest as deep as they
like. The faults are those of reading, apart from a comma with nothing behind it, where the value or
the key is missed.
-/

namespace Runbook.Reading

/-! ## Strings and numbers -/

/-- What follows a string, from behind its opening quote. -/
def skipString : List Char → Except Fault (List Char)
  | [] => fault .endInString [] 0
  | '"' :: rest => .ok rest
  | '\\' :: [] => fault .endInString [] 0
  | '\\' :: 'u' :: a :: b :: c :: d :: rest =>
    if (hexFour? a b c d).isSome then skipString rest else hexFault (a :: b :: c :: d :: rest)
  | '\\' :: 'u' :: short => hexFault short
  | '\\' :: e :: rest =>
    if (escaped? e).isSome then skipString rest else fault .badEscape (e :: rest) 1
  | c :: rest => if c.toNat < 32 then fault .controlCharacter (c :: rest) 0 else skipString rest

/-- What follows the exponent part of a number, from behind its letter. -/
def skipExponent (cs : List Char) : Except Fault (List Char) :=
  match (splitSign cs).2 with
  | [] => fault .badNumber [] 0
  | c :: rest =>
    if c.isDigit then .ok (rest.dropWhile Char.isDigit) else fault .badNumber (c :: rest) 1

/-- What follows the decimal places of a number, from behind the point. -/
def skipPlaces (cs : List Char) : Except Fault (List Char) :=
  if (cs.takeWhile Char.isDigit).isEmpty then fault .badNumber cs 1
  else
    match cs.dropWhile Char.isDigit with
    | 'e' :: rest => skipExponent rest
    | 'E' :: rest => skipExponent rest
    | rest => .ok rest

/-- What follows a number whose whole part has been passed over. -/
def skipNumberTail : List Char → Except Fault (List Char)
  | '.' :: rest => skipPlaces rest
  | 'e' :: rest => skipExponent rest
  | 'E' :: rest => skipExponent rest
  | rest => .ok rest

/-- What follows a number, from behind its sign. -/
def skipNumber : List Char → Except Fault (List Char)
  | [] => fault .badNumber [] 0
  | c :: rest =>
    if c = '0' then
      if rest.head?.any Char.isDigit then fault .badNumber rest 1 else skipNumberTail rest
    else if c.isDigit then skipNumberTail (rest.dropWhile Char.isDigit)
    else fault .badNumber (c :: rest) 1

/-! ## Values -/

mutual

/-- What follows a value. -/
def skipValue : Nat → List Char → Except Fault (List Char)
  | 0, cs => fault .expectedValue cs 0
  | steps + 1, cs =>
    match skipGaps cs with
    | [] => fault .endInValue [] 0
    | 'n' :: rest => word "ull".toList rest
    | 't' :: rest => word "rue".toList rest
    | 'f' :: rest => word "alse".toList rest
    | '"' :: rest => skipString rest
    | '-' :: rest => skipNumber rest
    | '[' :: rest =>
      match skipGaps rest with
      | [] => fault .endInList [] 0
      | ']' :: rest => .ok rest
      | rest => skipItems steps rest
    | '{' :: rest =>
      match skipGaps rest with
      | '}' :: rest => .ok rest
      | rest => skipMembers steps rest
    | c :: rest => if c.isDigit then skipNumber (c :: rest) else fault .expectedValue (c :: rest) 1

/-- What follows the items of a list; there is at least one. -/
def skipItems : Nat → List Char → Except Fault (List Char)
  | 0, cs => fault .expectedValue cs 0
  | steps + 1, cs => do
    match skipGaps (← skipValue steps cs) with
    | [] => fault .endInList [] 0
    | ']' :: rest => return rest
    | ',' :: rest => skipItems steps rest
    | rest => fault .expectedCommaOrBracket rest 1

/-- What follows the entries of a mapping; there is at least one. -/
def skipMembers : Nat → List Char → Except Fault (List Char)
  | 0, cs => fault .expectedValue cs 0
  | steps + 1, cs =>
    match skipGaps cs with
    | [] => fault .endInObject [] 0
    | '"' :: rest => do
      let rest ← colon (← skipString rest)
      match skipGaps (← skipValue steps rest) with
      | [] => fault .endInObject [] 0
      | '}' :: rest => return rest
      | ',' :: rest => skipMembers steps rest
      | rest => fault .expectedCommaOrBrace rest 1
    | rest => fault .keyNotString rest 1

end

end Runbook.Reading
