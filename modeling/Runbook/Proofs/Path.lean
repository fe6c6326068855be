import Mathlib.Data.List.TakeWhile
import Runbook.Path
import Runbook.Proofs.Text.Blank

/-!
# Runbook.Proofs.Path

The texts that spell a path. A path text (`PathText`) is a name and moves behind it, where a move is
a point and a name, an index in brackets, or a key in brackets and quotes. Points and brackets in a
quoted key belong to the key.

The main statement is `PathText.ofText?_chars`: reading a path text gives one accessor for its name
and one for each move.
-/

namespace Runbook

/-! ## path texts -/

/-- A name in a path: no points, no square brackets, and no blanks at its ends. -/
structure PathName where
  chars : List Char
  solid : Text.Solid chars
  plain : ∀ c ∈ chars, c ≠ '.' ∧ c ≠ '[' ∧ c ≠ ']'

/-- The digits of an index. -/
structure IndexDigits where
  chars : List Char
  ne_nil : chars ≠ []
  isDigit : ∀ c ∈ chars, c.isDigit = true

/-- A key in quotes of either kind; everything but its own quote may stand in it. -/
structure QuotedKey where
  quote : Char
  isQuote : Path.isQuote quote = true
  chars : List Char
  notMem : quote ∉ chars

/-- The key with its quotes. -/
def QuotedKey.text (key : QuotedKey) : List Char := key.quote :: (key.chars ++ [key.quote])

/-- A move into a value, as a path text spells it. -/
inductive Move where
  /-- A point and a name. -/
  | member (name : PathName)
  /-- An index in brackets. -/
  | item (digits : IndexDigits)
  /-- A key in brackets. -/
  | entry (key : QuotedKey)

namespace Move

def chars : Move → List Char
  | .member name => '.' :: name.chars
  | .item digits => '[' :: (digits.chars ++ [']'])
  | .entry key => '[' :: (key.text ++ [']'])

/-- The accessor that a move spells; an index may be too large to be one. -/
def accessor? : Move → Option Accessor
  | .member name => some (.key (String.ofList name.chars))
  | .item digits => (Text.natural? Text.wordLimit digits.chars).map .index
  | .entry key => some (.key (String.ofList key.chars))

/-- Does the move stand in brackets? -/
def isBracketed : Move → Bool
  | .member _ => false
  | .item _ | .entry _ => true

end Move

/-- The text of a path: a name and the moves behind it. -/
structure PathText where
  head : PathName
  moves : List Move

namespace PathText

def chars (path : PathText) : List Char := path.head.chars ++ path.moves.flatMap Move.chars

/-- The accessors that a path text spells. -/
def accessors? (path : PathText) : Option Path :=
  (path.moves.mapM Move.accessor?).map (.key (String.ofList path.head.chars) :: ·)

end PathText

theorem ne_of_isDigit {c d : Char} (hc : c.isDigit = true) (hd : d.isDigit = false) : c ≠ d := by
  rintro rfl
  rw [hc] at hd
  contradiction

namespace Path

theorem isQuote_iff {c : Char} : isQuote c = true ↔ c = '\'' ∨ c = '"' := by
  simp [isQuote]

theorem isQuote_single : isQuote '\'' = true := rfl

/-- A digit is no quote, so the index of an access is not read as a key. -/
theorem isQuote_of_isDigit {c : Char} (hc : c.isDigit = true) : isQuote c = false := by
  have hsingle : c ≠ '\'' := ne_of_isDigit hc rfl
  have hdouble : c ≠ '"' := ne_of_isDigit hc rfl
  simp [isQuote, hsingle, hdouble]

/-! ## pieces between points -/

/-- Puts a text in front of the first piece. -/
def extend (cs : List Char) (pieces : List (List Char)) : List (List Char) :=
  cs.foldr extendFirst pieces

theorem extend_cons (cs piece : List Char) (pieces : List (List Char)) :
    extend cs (piece :: pieces) = (cs ++ piece) :: pieces := by
  induction cs with
  | nil => rfl
  | cons c cs ih =>
      rw [extend] at ih
      rw [extend, List.foldr_cons, ih]
      rfl

theorem extend_extend (first second : List Char) (pieces : List (List Char)) :
    extend first (extend second pieces) = extend (first ++ second) pieces := by
  rw [extend, extend, extend, List.foldr_append]

/-- Two extensions of the first segment are one by both texts. -/
theorem map_extend_extend (first second : List Char) (pieces : Option (List (List Char))) :
    (pieces.map (extend second)).map (extend first) = pieces.map (extend (first ++ second)) := by
  rw [Option.map_map]
  congr 1
  funext ps
  exact extend_extend first second ps

theorem map_extendFirst (c : Char) (cs : List Char) (pieces : Option (List (List Char))) :
    (pieces.map (extend cs)).map (extendFirst c) = pieces.map (extend (c :: cs)) :=
  map_extend_extend [c] cs pieces

/-- Outside brackets, a name belongs to one piece. -/
theorem segments?_name {cs : List Char} (hcs : ∀ c ∈ cs, c ≠ '.' ∧ c ≠ '[' ∧ c ≠ ']')
    (rest : List Char) :
    segments? 0 none (cs ++ rest) = (segments? 0 none rest).map (extend cs) := by
  induction cs with
  | nil => exact Option.map_id'.symm
  | cons c cs ih =>
      obtain ⟨hpoint, hopen, hclose⟩ := hcs c List.mem_cons_self
      rw [List.cons_append, segments?, ih fun d hd => hcs d (List.mem_cons_of_mem _ hd)]
      simp only [Nat.lt_irrefl, and_false, if_false, hopen, hclose, hpoint, false_and]
      exact map_extendFirst c cs _

/-- Inside brackets, digits belong to the piece. -/
theorem segments?_digits {cs : List Char} (hcs : ∀ c ∈ cs, c.isDigit = true) (rest : List Char) :
    segments? 1 none (cs ++ rest) = (segments? 1 none rest).map (extend cs) := by
  induction cs with
  | nil => exact Option.map_id'.symm
  | cons c cs ih =>
      have hdigit := hcs c List.mem_cons_self
      have hquote := isQuote_of_isDigit hdigit
      have hopen : c ≠ '[' := ne_of_isDigit hdigit rfl
      have hclose : c ≠ ']' := ne_of_isDigit hdigit rfl
      rw [List.cons_append, segments?, ih fun d hd => hcs d (List.mem_cons_of_mem _ hd)]
      simp only [hquote, Bool.false_eq_true, false_and, if_false, hopen, hclose,
        Nat.succ_ne_zero, and_false]
      exact map_extendFirst c cs _

/-- Inside quotes, everything up to the closing quote belongs to the piece. -/
theorem segments?_quoted {q : Char} {cs : List Char} (hcs : q ∉ cs) (rest : List Char) :
    segments? 1 (some q) (cs ++ q :: rest) =
      (segments? 1 none rest).map (extend (cs ++ [q])) := by
  induction cs with
  | nil =>
      simp only [List.nil_append, segments?, if_true]
      rfl
  | cons c cs ih =>
      rw [List.mem_cons, not_or] at hcs
      rw [List.cons_append, segments?, if_neg (Ne.symm hcs.1), ih hcs.2]
      exact map_extendFirst c (cs ++ [q]) _

theorem segments?_open (rest : List Char) :
    segments? 0 none ('[' :: rest) = (segments? 1 none rest).map (extendFirst '[') := rfl

theorem segments?_close (rest : List Char) :
    segments? 1 none (']' :: rest) = (segments? 0 none rest).map (extend [']']) := rfl

/-- A quote within brackets starts a key, whatever its characters are. -/
theorem segments?_quote {q : Char} (hq : isQuote q = true) (rest : List Char) :
    segments? 1 none (q :: rest) = (segments? 1 (some q) rest).map (extendFirst q) := by
  rw [segments?, if_pos ⟨hq, Nat.one_pos⟩]

/-- What stands in brackets belongs to one piece. -/
theorem segments?_bracketed {move : Move} (hmove : move.isBracketed = true) (rest : List Char) :
    segments? 0 none (move.chars ++ rest) = (segments? 0 none rest).map (extend move.chars) := by
  cases move with
  | member name => contradiction
  | item digits =>
      have hinside := segments?_digits digits.isDigit (']' :: rest)
      rw [segments?_close, map_extend_extend] at hinside
      simp only [Move.chars, List.cons_append, List.append_assoc, List.nil_append]
      rw [segments?_open, hinside, map_extendFirst]
  | entry key =>
      have hinside := segments?_quoted key.notMem (']' :: rest)
      rw [segments?_close, map_extend_extend] at hinside
      simp only [Move.chars, QuotedKey.text, List.cons_append, List.append_assoc, List.nil_append]
      rw [segments?_open, segments?_quote key.isQuote, hinside, map_extendFirst, map_extendFirst]
      simp

/-- The pieces of the text of some moves. -/
def movePieces : List Move → List (List Char)
  | [] => [[]]
  | .member name :: moves => [] :: extend name.chars (movePieces moves)
  | move :: moves => extend move.chars (movePieces moves)

/-- The moves of a written path are cut at their dots, and at no other place. -/
theorem segments?_moves (moves : List Move) :
    segments? 0 none (moves.flatMap Move.chars) = some (movePieces moves) := by
  induction moves with
  | nil => rfl
  | cons move moves ih =>
      rw [List.flatMap_cons]
      cases move with
      | member name =>
          have hname := segments?_name name.plain (moves.flatMap Move.chars)
          rw [ih, Option.map_some] at hname
          simp [Move.chars, segments?, isQuote, hname, movePieces]
      | item digits =>
          rw [segments?_bracketed rfl, ih]
          rfl
      | entry key =>
          rw [segments?_bracketed rfl, ih]
          rfl

/-! ## accessors -/

/-- Brackets are closed behind digits. -/
theorem closing?_digits {cs : List Char} (hcs : ∀ c ∈ cs, c.isDigit = true) (rest : List Char) :
    closing? none (cs ++ ']' :: rest) = some (cs, rest) := by
  induction cs with
  | nil => rfl
  | cons c cs ih =>
      have hdigit := hcs c List.mem_cons_self
      have hquote := isQuote_of_isDigit hdigit
      have hclose : c ≠ ']' := ne_of_isDigit hdigit rfl
      rw [List.cons_append, closing?, ih fun d hd => hcs d (List.mem_cons_of_mem _ hd)]
      simp [hquote, hclose]

/-- A quoted key ends at the first quote of its kind with a bracket behind it. -/
theorem closing?_quoted {q : Char} {cs : List Char} (hcs : q ∉ cs) (rest : List Char) :
    closing? (some q) (cs ++ q :: ']' :: rest) = some (cs ++ [q], rest) := by
  induction cs with
  | nil => simp [closing?, isQuote]
  | cons c cs ih =>
      rw [List.mem_cons, not_or] at hcs
      rw [List.cons_append, closing?, if_neg (Ne.symm hcs.1), ih hcs.2]
      rfl

/-- Brackets are closed behind a quoted key. -/
theorem closing?_key (key : QuotedKey) (rest : List Char) :
    closing? none (key.text ++ ']' :: rest) = some (key.text, rest) := by
  have hkey := closing?_quoted key.notMem rest
  simp only [QuotedKey.text, List.cons_append, List.append_assoc, List.nil_append]
  rw [closing?, if_pos key.isQuote, hkey]
  rfl

theorem unquoted?_ne {q c : Char} (hne : c ≠ q) (cs : List Char) :
    unquoted? q (c :: cs) = none := by
  simp [unquoted?, hne]

theorem unquoted?_text (q : Char) (cs : List Char) :
    unquoted? q (q :: (cs ++ [q])) = some cs := by
  simp [unquoted?]

/-- The digits of an index are read as the number they spell, if it fits a word. -/
theorem accessor?_digits (digits : IndexDigits) :
    accessor? (Text.trim digits.chars) =
      (Text.natural? Text.wordLimit digits.chars).map .index := by
  have hblank : ∀ c ∈ digits.chars, Text.isBlank c = false := fun c hc =>
    Text.isBlank_of_isDigit (digits.isDigit c hc)
  rw [(Text.solid_of_forall digits.ne_nil hblank).trim_eq]
  cases hcs : digits.chars with
  | nil => exact absurd hcs digits.ne_nil
  | cons c cs =>
      have hdigit := digits.isDigit c (by simp [hcs])
      have hdouble : c ≠ '"' := ne_of_isDigit hdigit rfl
      have hsingle : c ≠ '\'' := ne_of_isDigit hdigit rfl
      rw [accessor?, unquoted?_ne hdouble, unquoted?_ne hsingle]

/-- The text of a quoted key is read as the key. -/
theorem accessor?_key (key : QuotedKey) :
    accessor? (Text.trim key.text) = some (.key (String.ofList key.chars)) := by
  have hblank : Text.isBlank key.quote = false := by
    rcases isQuote_iff.mp key.isQuote with h | h <;> rw [h] <;> decide
  have hsolid : Text.Solid key.text :=
    ⟨⟨key.quote, _, rfl, hblank⟩, ⟨key.quote :: key.chars, key.quote, rfl, hblank⟩⟩
  rw [hsolid.trim_eq, QuotedKey.text]
  rcases isQuote_iff.mp key.isQuote with h | h <;> rw [h]
  · rw [accessor?, unquoted?_ne (by decide), unquoted?_text]
  · rw [accessor?, unquoted?_text]

/-- The first of some accessors in brackets. -/
theorem accessors?_of_closing? {cs inner rest : List Char}
    (hclosing : closing? none cs = some (inner, rest)) (steps : Nat) :
    accessors? (steps + 1) ('[' :: cs) =
      (accessor? (Text.trim inner)).bind fun a => (accessors? steps rest).map (a :: ·) := by
  simp only [accessors?, if_true, hclosing, Option.bind_eq_bind, Option.bind_some]
  cases accessor? (Text.trim inner) with
  | none => rfl
  | some a => cases accessors? steps rest <;> rfl

/-- The first of some bracketed moves. -/
theorem accessors?_cons {move : Move} (hmove : move.isBracketed = true) (steps : Nat)
    (rest : List Char) :
    accessors? (steps + 1) (move.chars ++ rest) =
      move.accessor?.bind fun a => (accessors? steps rest).map (a :: ·) := by
  cases move with
  | member name => contradiction
  | item digits =>
      have hclosing := closing?_digits digits.isDigit rest
      have htext : (Move.item digits).chars ++ rest = '[' :: (digits.chars ++ ']' :: rest) := by
        simp [Move.chars]
      rw [htext, accessors?_of_closing? hclosing, accessor?_digits, Move.accessor?]
  | entry key =>
      have hclosing := closing?_key key rest
      have htext : (Move.entry key).chars ++ rest = '[' :: (key.text ++ ']' :: rest) := by
        simp [Move.chars]
      rw [htext, accessors?_of_closing? hclosing, accessor?_key, Move.accessor?]

/-- Moves in brackets are read one by one, as many as the text has room for. -/
theorem accessors?_bracketed {moves : List Move} (hmoves : ∀ m ∈ moves, m.isBracketed = true)
    {steps : Nat} (hsteps : (moves.flatMap Move.chars).length ≤ steps) :
    accessors? steps (moves.flatMap Move.chars) = moves.mapM Move.accessor? := by
  induction moves generalizing steps with
  | nil => simp [accessors?.eq_def]
  | cons move moves ih =>
      have hmove := hmoves move List.mem_cons_self
      have hlength : 1 ≤ move.chars.length := by
        cases move <;> simp [Move.chars]
      rw [List.flatMap_cons, List.length_append] at hsteps
      obtain ⟨steps, rfl⟩ : ∃ n, steps = n + 1 := ⟨steps - 1, by omega⟩
      rw [List.flatMap_cons, accessors?_cons hmove,
        ih (fun m hm => hmoves m (List.mem_cons_of_mem _ hm)) (by omega), List.mapM_cons]
      cases move.accessor? with
      | none => rfl
      | some a => cases moves.mapM Move.accessor? <;> rfl

/-! ## segments -/

/-- A name and bracketed moves are one segment. -/
theorem segment?_bracketed (name : PathName) {moves : List Move}
    (hmoves : ∀ m ∈ moves, m.isBracketed = true) :
    segment? (name.chars ++ moves.flatMap Move.chars) =
      (moves.mapM Move.accessor?).map (.key (String.ofList name.chars) :: ·) := by
  have hname : ∀ c ∈ name.chars, (decide (c ≠ '[')) = true := fun c hc => by
    simpa using (name.plain c hc).2.1
  have hopen : (moves.flatMap Move.chars).takeWhile (· ≠ '[') = [] ∧
      (moves.flatMap Move.chars).dropWhile (· ≠ '[') = moves.flatMap Move.chars := by
    cases moves with
    | nil => exact ⟨rfl, rfl⟩
    | cons move moves =>
        cases move with
        | member name => exact absurd (hmoves _ List.mem_cons_self) (by simp [Move.isBracketed])
        | item digits => simp [Move.chars]
        | entry key => simp [Move.chars]
  have htake : (name.chars ++ moves.flatMap Move.chars).takeWhile (· ≠ '[') = name.chars := by
    rw [List.takeWhile_append_of_pos hname, hopen.1, List.append_nil]
  have hdrop : (name.chars ++ moves.flatMap Move.chars).dropWhile (· ≠ '[') =
      moves.flatMap Move.chars := by
    rw [List.dropWhile_append_of_pos hname, hopen.2]
  have hlength : (moves.flatMap Move.chars).length ≤
      (name.chars ++ moves.flatMap Move.chars).length := by
    rw [List.length_append]
    omega
  rw [segment?, htake, hdrop, accessors?_bracketed hmoves hlength, name.solid.trim_eq]
  cases moves.mapM Move.accessor? with
  | none => rfl
  | some more => simp [name.solid.isEmpty_eq]

/-- A path is read segment by segment. -/
theorem join?_cons {piece : List Char} (hpiece : piece ≠ []) (pieces : List (List Char)) :
    join? (piece :: pieces) =
      (segment? piece).bind fun p => (join? pieces).map fun rest => p ++ rest := by
  have hempty : piece.isEmpty = false := by simpa using hpiece
  rw [join?, hempty]
  cases segment? piece with
  | none => rfl
  | some p => cases join? pieces <;> rfl

/-- The pieces behind a name and the bracketed moves that follow it. -/
theorem join?_movePieces (name : PathName) {bracketed : List Move}
    (hbracketed : ∀ m ∈ bracketed, m.isBracketed = true) (moves : List Move) :
    join? (extend (name.chars ++ bracketed.flatMap Move.chars) (movePieces moves)) =
      ((bracketed ++ moves).mapM Move.accessor?).map (.key (String.ofList name.chars) :: ·) := by
  induction moves generalizing name bracketed with
  | nil =>
      have hne : name.chars ++ bracketed.flatMap Move.chars ≠ [] := by simp [name.solid.ne_nil]
      rw [movePieces, extend_cons, List.append_nil, join?_cons hne,
        segment?_bracketed name hbracketed, List.append_nil]
      cases bracketed.mapM Move.accessor? <;> simp [join?]
  | cons move moves ih =>
      cases hmove : move.isBracketed with
      | true =>
          -- a bracketed move belongs to the piece of the name before it
          have hmore : ∀ m ∈ bracketed ++ [move], m.isBracketed = true := by
            intro m hm
            rcases List.mem_append.mp hm with hm | hm
            · exact hbracketed m hm
            · rw [List.mem_singleton.mp hm, hmove]
          have hpieces : movePieces (move :: moves) = extend move.chars (movePieces moves) := by
            cases move with
            | member name => contradiction
            | item digits => rfl
            | entry key => rfl
          have hrest := ih name hmore
          rw [List.flatMap_append, List.flatMap_singleton, List.append_assoc,
            List.singleton_append] at hrest
          rw [hpieces, extend_extend, List.append_assoc, hrest]
      | false =>
          cases move with
          | item digits => contradiction
          | entry key => contradiction
          | member next =>
              -- a member starts a piece of its own
              have hrest := ih next (List.forall_mem_nil _)
              rw [List.flatMap_nil, List.append_nil, List.nil_append] at hrest
              have hne : name.chars ++ bracketed.flatMap Move.chars ≠ [] := by
                simp [name.solid.ne_nil]
              rw [movePieces, extend_cons, List.append_nil, join?_cons hne,
                segment?_bracketed name hbracketed, hrest, List.mapM_append, List.mapM_cons]
              cases bracketed.mapM Move.accessor? with
              | none => rfl
              | some first => cases moves.mapM Move.accessor? <;> rfl

end Path

/-- A move neither starts nor ends with a blank. -/
theorem Move.solid (move : Move) : Text.Solid move.chars := by
  cases move with
  | member name =>
      obtain ⟨front, c, hend, hc⟩ := name.solid.ends
      exact ⟨⟨'.', _, rfl, by decide⟩, ⟨'.' :: front, c, by rw [Move.chars, hend]; rfl, hc⟩⟩
  | item digits => exact ⟨⟨'[', _, rfl, by decide⟩, ⟨'[' :: digits.chars, ']', rfl, by decide⟩⟩
  | entry key => exact ⟨⟨'[', _, rfl, by decide⟩, ⟨'[' :: key.text, ']', rfl, by decide⟩⟩

/-- So a text without outer blanks stays one with moves behind it. -/
theorem solid_moves {cs : List Char} (hcs : Text.Solid cs) (moves : List Move) :
    Text.Solid (cs ++ moves.flatMap Move.chars) := by
  induction moves generalizing cs with
  | nil => rwa [List.flatMap_nil, List.append_nil]
  | cons move moves ih =>
      rw [List.flatMap_cons, ← List.append_assoc]
      exact ih (hcs.append move.solid [])

/-- A written path has no outer blanks: trimming leaves it alone. -/
theorem PathText.solid (path : PathText) : Text.Solid path.chars :=
  solid_moves path.head.solid path.moves

/-- Reading a path text gives an accessor for its name and one for each move. -/
theorem PathText.ofText?_chars (path : PathText) : Path.ofText? path.chars = path.accessors? := by
  have hpieces := Path.segments?_name path.head.plain (path.moves.flatMap Move.chars)
  rw [Path.segments?_moves, Option.map_some] at hpieces
  have hjoin := Path.join?_movePieces path.head (List.forall_mem_nil _) path.moves
  rw [List.flatMap_nil, List.append_nil, List.nil_append] at hjoin
  rw [Path.ofText?, path.solid.trim_eq, chars, hpieces, Option.bind_some, hjoin, accessors?]

end Runbook
