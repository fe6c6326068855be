import Runbook.Proofs.Expression.Splicing
import Runbook.Proofs.Template
import Runbook.Run.Interpreter

/-!
# Runbook.Proofs.Condition

Conditions that compare a value with a text, such as `{{ x }} == 'prod'`. The value is spliced into
the condition before that is read, so the condition is about the value only if the value is sealed
(`TreatsAsData`). A value that is not sealed can decide the condition by itself, as `injected` does
at the end of this file.
-/

namespace Runbook

open Expression Template

/-! ## a span in front of an equation -/

/-- The span of a name. -/
def spanOf (x : Identifier) : List Char := opening ++ (' ' :: (x.chars ++ [' ']) ++ closing)

/-- The condition that the value of a name equals a text. -/
def conditionText (x : Identifier) (t : PlainText) : List Char := equationText (spanOf x) t

/-- A path that is just a name. -/
def Identifier.atom (x : Identifier) : Atom := .path ⟨x, []⟩

theorem Identifier.chars_atom (x : Identifier) : x.atom.chars = x.chars :=
  List.append_nil x.chars

/-- No character but a blank and those of names stands in an identifier between two blanks. -/
theorem Identifier.notMem (x : Identifier) {c : Char} (hspace : c ≠ ' ')
    (hc : isNameChar c = false) : c ∉ ' ' :: (x.chars ++ [' ']) := by
  have hname : c ∉ x.chars := fun hmem => by
    rw [x.isNameChar c hmem] at hc
    contradiction
  simp [hspace, hname]

/-- The text of a condition, with the span at its front. -/
theorem conditionText_eq (x : Identifier) (t : PlainText) :
    conditionText x t =
      opening ++ (' ' :: (x.chars ++ [' ']) ++ (closing ++ equationText [] t)) := by
  simp [conditionText, spanOf, equationText]

/-- The first span of a condition is at its front. -/
theorem cut?_conditionText (x : Identifier) (t : PlainText) :
    Text.cut? opening (conditionText x t) =
      some ([], ' ' :: (x.chars ++ [' ']) ++ (closing ++ equationText [] t)) := by
  rw [conditionText_eq]
  exact Text.cut?_self ['{'] _

/-- The condition is taken apart into its span and the text behind it. -/
theorem pieces_conditionText (x : Identifier) {t : PlainText} (ht : '{' ∉ t.chars) :
    pieces (conditionText x t) =
      [.plain [], .span (' ' :: (x.chars ++ [' '])), .plain (equationText [] t)] := by
  have hrest : Text.cut? opening (equationText [] t) = none := by
    apply Text.cut?_eq_none_of_notMem
    simpa [equationText, Atom.chars] using ht
  have hclose := x.notMem (c := '}') (by decide) (by decide)
  have hlast : (' ' :: (x.chars ++ [' '])).getLast? ≠ some '}' := fun hlast =>
    hclose (List.mem_of_mem_getLast? hlast)
  have hfront := pieces_front (Text.undoubled_of_notMem hclose) hlast hrest
  rw [conditionText_eq]
  simpa using hfront

/-- A name resolves to the value that it is bound to. -/
theorem evaluate_identifier {context : Context} {x : Identifier} {v : Value}
    (hx : context.get? (String.ofList x.chars) = some v) :
    Resolver.evaluate context x.chars = some v := by
  have hread : ofText x.chars = .reference (String.ofList x.chars) := by
    have hleaf := x.atom.readSteps_chars x.chars.length
    rw [x.chars_atom] at hleaf
    simpa [ofText, Identifier.atom, Atom.toExpression, Reference.chars] using hleaf
  simp only [Context.get?] at hx
  simp [Resolver.evaluate, evaluateText, hread, evaluate, dereference, hx]

/-- As data the span of a condition becomes the quoted value. -/
theorem renderData_conditionText {context : Context} {x : Identifier} {t : PlainText} {v : String}
    (hx : context.get? (String.ofList x.chars) = some (.string v)) (ht : '{' ∉ t.chars) :
    renderData Resolver.rich context (conditionText x t) = equationText (quoted v) t := by
  have hsolid : Text.Solid x.chars :=
    Text.solid_of_forall x.ne_nil fun c hc => (isNameChar_iff.1 (x.isNameChar c hc)).1
  have htrim : Text.trim (' ' :: (x.chars ++ [' '])) = x.chars :=
    Text.trim_padded Text.blanks_space Text.blanks_space hsolid
  have hvalue : Resolver.rich.resolve context x.chars = some (.string v) := evaluate_identifier hx
  simp [renderData, pieces_conditionText x ht, writePiece, htrim, hvalue, equationText, Value.chars]

/-! ## what the condition resolves to -/

/-- A condition is more than one span, so it is rendered as data. -/
theorem single?_conditionText (x : Identifier) (t : PlainText) :
    single? (conditionText x t) = none := by
  have hends : conditionText x t =
      spanOf x ++ ([' ', '=', '=', ' '] ++ '\'' :: t.chars) ++ ['\''] := by
    simp [conditionText, equationText, Atom.chars]
  have hsolid : Text.Solid (conditionText x t) :=
    ⟨⟨'{', _, rfl, by decide⟩, ⟨_, '\'', hends, by decide⟩⟩
  have htail : ∀ cs, Text.dropLead? opening (conditionText x t) = some cs →
      Text.dropTail? closing cs = none := by
    intro cs hlead
    cases htail : Text.dropTail? closing cs with
    | none => rfl
    | some inner =>
        have hcs := Text.dropTail?_eq_some_iff.1 htail
        have hwhole := Text.dropLead?_eq_some_iff.1 hlead
        rw [hends, hcs] at hwhole
        have hlast := congrArg List.getLast? hwhole
        simp [closing, List.getLast?_append, List.getLast?_cons] at hlast
  rw [single?, hsolid.trim_eq]
  cases hlead : Text.dropLead? opening (conditionText x t) with
  | none => rfl
  | some cs => simp [htail cs hlead]

/-- An equation between two texts has the truth of their equality for its value. -/
theorem evaluate_equation (root : Entries) (s : String) (t : PlainText) :
    (equation s t).evaluate root = .ok (.bool (s == String.ofList t.chars)) := by
  have hequal : (Value.string s).looselyEqual (.string (String.ofList t.chars)) =
      (s == String.ofList t.chars) := by
    simp [Value.looselyEqual, Value.same, Value.display]
  simp [equation, evaluate, asOperand, Comparison.test, hequal, Except.map]

/-! ## when a condition is about the value only -/

section Conditions

variable {World : Type} (interpreter : Interpreter World) (context : Context) (step : Step)

/-- The condition of the step treats the value of the name as data: with the value spliced in it is
an equation of two texts, its value is the truth of the equation and no rendered text, and the step
is carried out just if the texts are equal. -/
structure TreatsAsData (x : Identifier) (t : PlainText) (v : String) : Prop where
  read : ofText (renderData interpreter.resolver context (conditionText x t)) = equation v t
  resolved : resolveText interpreter.resolver context (conditionText x t) =
    some (.bool (v == String.ofList t.chars))
  holds_iff : interpreter.holds step context = true ↔ v = String.ofList t.chars

/-- **A condition treats a value as data if and only if the value is sealed.** This is about every
string under every name, every text without single quotes and opening braces, and every context of
an interpreter that evaluates expressions. -/
theorem treatsAsData_iff (x : Identifier) (t : PlainText) (v : String)
    (hresolver : interpreter.resolver = Resolver.rich) (ht : '{' ∉ t.chars)
    (hx : context.get? (String.ofList x.chars) = some (.string v))
    (hstep : step.condition = some (.string (String.ofList (conditionText x t)))) :
    TreatsAsData interpreter context step x t v ↔ Sealed v := by
  have hdata := renderData_conditionText hx ht
  constructor
  · intro h
    have hread := h.read
    rw [hresolver, hdata] at hread
    exact (ofText_equation_iff v t).1 hread
  · intro h
    have hread := (ofText_equation_iff v t).2 h
    have hvalue : Resolver.rich.resolve context (equationText (quoted v) t) =
        some (.bool (v == String.ofList t.chars)) := by
      simp [Resolver.rich, Resolver.evaluate, evaluateText, hread, evaluate_equation]
    have hresolved : resolveText Resolver.rich context (conditionText x t) =
        some (.bool (v == String.ofList t.chars)) := by
      have hoccurs : Text.occurs opening (conditionText x t) = true := by
        simp [Text.occurs, cut?_conditionText]
      rw [resolveText, single?_conditionText]
      simp [hoccurs, hdata, hvalue]
    refine ⟨by rw [hresolver, hdata, hread], by rw [hresolver, hresolved], ?_⟩
    simp only [Interpreter.holds, hstep, String.toList_ofList, hresolver, hresolved]
    simp [conditionTruth, Value.isTruthy]

end Conditions

/-! ### a string that decides its condition -/

/-- The name `x`. -/
def nameX : Identifier :=
  ⟨⟨['x'], by decide, by decide⟩, fun c hc => by cases hc; decide, by decide⟩

/-- The text `prod`. -/
def textProd : PlainText := ⟨['p', 'r', 'o', 'd'], by decide⟩

/-- A step that is to be carried out in production only. -/
def guardedStep : Step where
  id := "a"
  tool := some "echo"
  description := none
  args := [("text", .string "t")]
  condition := some (.string "\x7b\x7b x \x7d\x7d == 'prod'")
  loop := none
  loopVariable := "item"
  retries := 0
  allowFailure := false
  assign := none
  retryDelay := none

/-- An interpreter without capabilities. -/
def idle : Interpreter Unit := ⟨[], Resolver.rich, none, none⟩

/-- A string that closes its own quotes and goes on with an expression. -/
def injected : String := "\" || 1 || \""

/-- The condition on the injected value is true, though it is not the text it is compared to. -/
theorem unequal_holds :
    ¬(idle.holds guardedStep (.ofParameters [("x", .string injected)]) = true ↔
      injected = "prod") := by
  decide +kernel

/-- A plain value is treated as data in the condition and the injected one is not. -/
theorem treatsAsData_samples :
    TreatsAsData idle (.ofParameters [("x", .string "prod")]) guardedStep nameX textProd "prod" ∧
      ¬TreatsAsData idle (.ofParameters [("x", .string injected)]) guardedStep nameX textProd
        injected :=
  ⟨(treatsAsData_iff idle _ guardedStep nameX textProd "prod" rfl (by decide) rfl rfl).2
      (by decide),
    fun h =>
      absurd ((treatsAsData_iff idle _ guardedStep nameX textProd injected rfl (by decide) rfl
        rfl).1 h) (by decide)⟩

end Runbook
