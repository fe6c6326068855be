import Runbook.Proofs.Expression.Form
import Runbook.Resolver

/-!
# Runbook.Proofs.Mention

Which keys a text reads. A name reads the key that it is and the key that the path in it starts with
(`Path.readKeys`), and an expression reads what its names read. Two contexts that have the same
values under all these keys give the text the same value, with either resolver
(`Resolver.lookUp_congr`, `Resolver.evaluate_congr`).

A text mentions a key if the characters of the key stand side by side in it (`Mentions`). Whatever
an expression refers to is cut out of its text (`Expression.mentions_of_mem_names`), and so is the
key that a path starts with (`Path.startsIn_of_ofText?`). So a text mentions all keys that it reads.
-/

namespace Runbook

/-- The key stands in the text. -/
def Mentions (cs : List Char) (key : String) : Prop := key.toList <:+: cs

instance (cs : List Char) (key : String) : Decidable (Mentions cs key) :=
  inferInstanceAs (Decidable (_ <:+: _))

theorem mentions_self (cs : List Char) : Mentions cs (String.ofList cs) := by
  simp [Mentions]

/-- A larger text mentions more. -/
theorem Mentions.mono {cs text : List Char} {key : String} (h : Mentions cs key)
    (hcs : cs <:+: text) : Mentions text key :=
  h.trans hcs

/-- What is found without the blanks around a part is in the text that has the part. -/
theorem Text.infix_of_trim {cs part text : List Char} (h : cs <:+: Text.trim part)
    (hpart : part <:+: text) : cs <:+: text :=
  h.trans ((Text.infix_trim part).trans hpart)

/-! ## paths -/

namespace Path

variable {cs inner rest name : List Char}

/-- A key stands in its quoted text. -/
theorem infix_of_unquoted? {q : Char} (h : unquoted? q cs = some inner) : inner <:+: cs := by
  cases cs with
  | nil => contradiction
  | cons c cs =>
      simp only [unquoted?, Option.ite_none_right_eq_some, Option.some.injEq] at h
      rw [← h.2]
      exact (Text.properPart_dropLast c cs).isInfix

/-- The key of a bracketed accessor stands between its quotes. -/
theorem mentions_of_accessor? {key : String} (h : accessor? cs = some (.key key)) :
    Mentions cs key := by
  unfold accessor? at h
  split at h
  · next name hname =>
      obtain rfl : String.ofList name = key := by simpa using h
      exact (mentions_self name).mono (infix_of_unquoted? hname)
  · split at h
    · next name hname =>
        obtain rfl : String.ofList name = key := by simpa using h
        exact (mentions_self name).mono (infix_of_unquoted? hname)
    · simp at h

/-- What stands in front of a closing bracket starts the text. -/
theorem prefix_of_closing? {quote : Option Char} (h : closing? quote cs = some (inner, rest)) :
    inner <+: cs := by
  fun_induction closing? quote cs generalizing inner with
  | case1 => contradiction
  | case4 => exact (Prod.mk.inj (Option.some.inj h)).1 ▸ List.nil_prefix
  | case2 c cs q ih | case3 c cs hquote ih | case5 c cs hquote hclose ih =>
      obtain ⟨⟨inner', rest'⟩, hinner, hpair⟩ := Option.map_eq_some_iff.mp h
      obtain ⟨rfl, rfl⟩ := Prod.mk.inj hpair
      exact List.cons_prefix_cons.mpr ⟨rfl, ih hinner⟩

/-- The key of the first accessor in brackets stands in the text of the accessors. -/
theorem mentions_of_accessors? {steps : Nat} {key : String} {path : Path}
    (h : accessors? steps cs = some (.key key :: path)) : Mentions cs key := by
  cases cs with
  | nil => simp [accessors?] at h
  | cons c cs =>
      cases steps with
      | zero => simp [accessors?] at h
      | succ steps =>
          rw [accessors?] at h
          split at h
          · simp only [Option.bind_eq_bind, Option.bind_eq_some_iff, Option.pure_def,
              Option.some.injEq, List.cons.injEq, Prod.exists] at h
            obtain ⟨inner, rest, hclosing, a, haccessor, more, -, rfl, -⟩ := h
            have hinner : inner <:+: c :: cs :=
              (prefix_of_closing? hclosing).isInfix.trans (List.suffix_cons c cs).isInfix
            exact Text.infix_of_trim (mentions_of_accessor? haccessor) hinner
          · contradiction

/-- The path starts with an index or a key of which the text mentions. -/
def StartsIn (cs : List Char) (path : Path) : Prop :=
  ∃ a rest, path = a :: rest ∧ ∀ key, a = .key key → Mentions cs key

/-- A segment starts with its name or, without one, with its first accessor. -/
theorem startsIn_of_segment? {path : Path} (h : segment? cs = some path) : StartsIn cs path := by
  simp only [segment?, Option.bind_eq_bind, Option.bind_eq_some_iff, Option.pure_def] at h
  obtain ⟨accessors, haccessors, h⟩ := h
  split at h
  · split at h
    · contradiction
    · next hsome =>
        obtain rfl : accessors = path := by simpa using h
        cases accessors with
        | nil => simp at hsome
        | cons a rest =>
            refine ⟨a, rest, rfl, ?_⟩
            rintro key rfl
            exact (mentions_of_accessors? haccessors).mono (List.dropWhile_suffix _).isInfix
  · obtain rfl : _ :: accessors = path := by simpa using h
    refine ⟨_, accessors, rfl, fun key hkey => ?_⟩
    obtain rfl : String.ofList _ = key := by simpa using hkey
    exact (mentions_self _).mono ((Text.infix_trim _).trans (List.takeWhile_prefix _).isInfix)

/-- There is a first segment, and the text starts with it. -/
theorem exists_of_segments? {depth : Nat} {quote : Option Char} {pieces : List (List Char)}
    (h : segments? depth quote cs = some pieces) :
    ∃ piece more, pieces = piece :: more ∧ piece <+: cs := by
  fun_induction segments? depth quote cs generalizing pieces with
  | case1 => exact ⟨[], [], (Option.some.inj h).symm, List.nil_prefix⟩
  | case2 | case6 => contradiction
  | case8 =>
      obtain ⟨pieces', -, rfl⟩ := Option.map_eq_some_iff.mp h
      exact ⟨[], pieces', rfl, List.nil_prefix⟩
  | case3 _ _ _ _ ih | case4 _ _ _ _ ih | case5 _ _ _ ih | case7 _ _ _ _ _ ih
  | case9 _ _ _ _ _ _ _ ih =>
      obtain ⟨pieces', hpieces, rfl⟩ := Option.map_eq_some_iff.mp h
      obtain ⟨piece, more, rfl, hpiece⟩ := ih hpieces
      exact ⟨_ :: piece, more, rfl, List.cons_prefix_cons.mpr ⟨rfl, hpiece⟩⟩

/-- A path starts with a key that its text mentions, if it starts with a key. -/
theorem startsIn_of_ofText? {path : Path} (h : ofText? cs = some path) : StartsIn cs path := by
  obtain ⟨pieces, hpieces, hjoin⟩ := Option.bind_eq_some_iff.mp h
  obtain ⟨piece, more, rfl, hpiece⟩ := exists_of_segments? hpieces
  rw [join?] at hjoin
  split at hjoin
  · contradiction
  · simp only [Option.bind_eq_bind, Option.bind_eq_some_iff, Option.pure_def,
      Option.some.injEq] at hjoin
    obtain ⟨first, hfirst, others, -, rfl⟩ := hjoin
    obtain ⟨a, rest, rfl, ha⟩ := startsIn_of_segment? hfirst
    refine ⟨a, rest ++ others, rfl, fun key hkey => ?_⟩
    exact Text.infix_of_trim ((ha key hkey).mono hpiece.isInfix) (List.infix_refl cs)

/-- The key that the path in a text starts with, if it starts with a key. -/
def firstKey? (cs : List Char) : Option String :=
  match ofText? cs with
  | some (.key key :: _) => some key
  | _ => none

/-- The keys that a name reads: the name itself and the first key of its path. -/
def readKeys (cs : List Char) : List String := String.ofList cs :: (firstKey? cs).toList

/-- A path mentions the name it starts from. -/
theorem mentions_of_mem_readKeys {key : String} (h : key ∈ readKeys cs) : Mentions cs key := by
  rcases List.mem_cons.mp h with rfl | h
  · exact mentions_self cs
  · unfold firstKey? at h
    split at h
    · next first rest hpath =>
        obtain rfl : key = first := by simpa using h
        obtain ⟨a, rest', hsplit, ha⟩ := startsIn_of_ofText? hpath
        obtain ⟨rfl, -⟩ := List.cons.inj hsplit
        exact ha key rfl
    · simp at h

/-- A path leads to the same value from two mappings with the same values under the keys that it
reads. -/
theorem resolve_congr {root other : Entries}
    (h : ∀ key ∈ readKeys cs, Entries.get? key root = Entries.get? key other) :
    resolve root cs = resolve other cs := by
  unfold resolve
  cases hpath : ofText? cs with
  | none => rfl
  | some path =>
      obtain ⟨a, rest, rfl, -⟩ := startsIn_of_ofText? hpath
      simp only [Option.bind_some, walk]
      cases a with
      | key key =>
          have hkey : key ∈ readKeys cs := by simp [readKeys, firstKey?, hpath]
          simp only [Accessor.lookup, h key hkey]
      | index n => rfl

end Path

/-! ## expressions -/

namespace Expression

mutual

/-- The names that an expression refers to. -/
def names : Expression → List String
  | .anyOf parts | .allOf parts => partNames parts
  | .negated _ operand => names operand
  | .compared _ left right => names left ++ names right
  | .membership haystack needle => names haystack ++ names needle
  | .reference name => [name]
  | .literal _ | .malformed _ => []
termination_by structural e => e

/-- The names that some expressions refer to. -/
def partNames : List Expression → List String
  | [] => []
  | e :: es => names e ++ partNames es
termination_by structural es => es

end

/-- The names of some expressions are those of each of them. -/
theorem mem_partNames {name : String} {es : List Expression} :
    name ∈ partNames es ↔ ∃ e ∈ es, name ∈ e.names := by
  induction es with
  | nil => simp [partNames]
  | cons e es ih => simp [partNames, ih]

section Congruence

variable {root other : Entries}

mutual

/-- An expression has the same value over two mappings in which its names lead to the same. -/
theorem evaluate_congr (e : Expression)
    (h : ∀ name ∈ e.names, dereference root name = dereference other name) :
    evaluate root e = evaluate other e := by
  cases e with
  | literal value | malformed error => rfl
  | reference name => rw [evaluate, evaluate, h name (List.mem_singleton.mpr rfl)]
  | negated times operand => rw [evaluate, evaluate, evaluate_congr operand h]
  | anyOf parts => rw [evaluate, evaluate, (evaluateParts_congr parts h).1]
  | allOf parts => rw [evaluate, evaluate, (evaluateParts_congr parts h).2]
  | compared op left right =>
      rw [names, List.forall_mem_append] at h
      rw [evaluate, evaluate, evaluate_congr left h.1, evaluate_congr right h.2]
  | membership haystack needle =>
      rw [names, List.forall_mem_append] at h
      rw [evaluate, evaluate, evaluate_congr haystack h.1, evaluate_congr needle h.2]

/-- The parts of an expression are evaluated alike over roots that agree on their names. -/
theorem evaluateParts_congr (es : List Expression)
    (h : ∀ name ∈ partNames es, dereference root name = dereference other name) :
    evaluateAny root es = evaluateAny other es ∧ evaluateAll root es = evaluateAll other es := by
  cases es with
  | nil => exact ⟨rfl, rfl⟩
  | cons e es =>
      rw [partNames, List.forall_mem_append] at h
      have hrest := evaluateParts_congr es h.2
      constructor
      · rw [evaluateAny, evaluateAny, evaluate_congr e h.1, hrest.1]
      · rw [evaluateAll, evaluateAll, evaluate_congr e h.1, hrest.2]

end

end Congruence

/-! ## readings -/

/-- The names in the expression of a form are those of its parts, or it is a reference. -/
theorem mem_names_expression {form : Form Expression} {name : String} :
    name ∈ form.expression.names ↔
      (∃ part ∈ form.parts, name ∈ part.names) ∨ form = .reference name := by
  cases form <;> simp [Form.expression, Form.parts, names, mem_partNames, eq_comm]

variable {cs : List Char}

/-- Whatever an expression refers to stands in its text. -/
theorem mentions_of_mem_names {steps : Nat} {name : String}
    (h : name ∈ (readSteps steps cs).names) : Mentions cs name := by
  induction steps generalizing cs with
  | zero => simp [readSteps, names] at h
  | succ steps ih =>
      refine Mentions.mono ?_ (Text.infix_trim cs)
      rw [readSteps_succ, mem_names_expression, Form.parts_map] at h
      rcases h with ⟨e, he, hname⟩ | hreference
      · obtain ⟨part, hpart, rfl⟩ := List.mem_map.mp he
        exact (ih hname).mono (properPart_of_mem_parts part hpart).isInfix
      · rw [name_of_formOf (Form.map_eq_reference_iff.mp hreference)]
        exact mentions_self _

/-- The keys that an expression reads. -/
def readKeys (e : Expression) : List String := e.names.flatMap fun name => Path.readKeys name.toList

/-- An expression mentions each entry of the root that it reads. -/
theorem mentions_of_mem_readKeys {key : String} (h : key ∈ (ofText cs).readKeys) :
    Mentions cs key := by
  obtain ⟨name, hname, hkey⟩ := List.mem_flatMap.mp h
  have htext : name.toList <:+: cs := mentions_of_mem_names hname
  exact (Path.mentions_of_mem_readKeys hkey).mono htext

/-- A text is evaluated alike over roots that agree on the entries it reads. -/
theorem evaluateText_congr {root other : Entries}
    (h : ∀ key ∈ (ofText cs).readKeys, Entries.get? key root = Entries.get? key other) :
    evaluateText root cs = evaluateText other cs := by
  refine evaluate_congr _ fun name hname => ?_
  have hkeys : ∀ key ∈ Path.readKeys name.toList, Entries.get? key root = Entries.get? key other :=
    fun key hkey => h key (List.mem_flatMap.mpr ⟨name, hname, hkey⟩)
  have hself : name ∈ Path.readKeys name.toList := by simp [Path.readKeys]
  rw [dereference, dereference, hkeys name hself, Path.resolve_congr hkeys]

end Expression

/-! ## resolvers -/

namespace Resolver

variable {context other : Context} {text : List Char} {key : String}

/-- The keys that the basic resolver reads for a text. -/
def lookUpKeys (text : List Char) : List String := Path.readKeys (Text.trim text)

/-- The keys that the rich resolver reads for a text. -/
def evaluateKeys (text : List Char) : List String :=
  (Expression.ofText text).readKeys ++ lookUpKeys text

/-- A text mentions what is looked up for it. -/
theorem mentions_of_mem_lookUpKeys (h : key ∈ lookUpKeys text) : Mentions text key :=
  (Path.mentions_of_mem_readKeys h).mono (Text.infix_trim text)

/-- A text mentions what is read to evaluate it. -/
theorem mentions_of_mem_evaluateKeys (h : key ∈ evaluateKeys text) : Mentions text key :=
  (List.mem_append.mp h).elim Expression.mentions_of_mem_readKeys mentions_of_mem_lookUpKeys

/-- The two contexts have the same values under the keys. -/
def AgreeOn (keys : List String) (context other : Context) : Prop :=
  ∀ key ∈ keys, context.get? key = other.get? key

/-- A lookup sees the keys it reads, and no others. -/
theorem lookUp_congr (h : AgreeOn (lookUpKeys text) context other) :
    lookUp context text = lookUp other text := by
  have hwhole := h (String.ofList (Text.trim text)) List.mem_cons_self
  simp only [lookUp, hwhole, Path.resolve_congr h]

/-- Nor does an evaluation see any other key. -/
theorem evaluate_congr (h : AgreeOn (evaluateKeys text) context other) :
    evaluate context text = evaluate other text := by
  obtain ⟨hexpression, hlookUp⟩ := List.forall_mem_append.mp h
  rw [evaluate, evaluate, Expression.evaluateText_congr hexpression, lookUp_congr hlookUp]

end Resolver

end Runbook
