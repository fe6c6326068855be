import Runbook.Parameters
import Runbook.Proofs.Text.Blank
import Runbook.Proofs.Text.Search
import Mathlib.Data.List.Induction

/-!
# Runbook.Proofs.Parameters

What the words of a command line bind. A key is well formed if it is a solid text without an equals
sign (`Parameters.IsKey`). Pairs bind well-formed keys only, but behind two dashes a text that is no
pair is bound as it stands: the keys of the parameters are all well formed exactly if none of these
texts is stray (`keys_isKey_iff`).

Trailing words spell bindings in four ways (`Spells`). Each way is read as the binding that it
spells, whatever follows, so of several bindings of a key the last one counts, that of a pair more
than that of a word (`ofWords_spelled`).
-/

namespace Runbook

/-! ## mappings from bindings -/

namespace Entries

/-- The last binding is set over those before it. -/
theorem ofBindings_concat (bindings : List (String × Value)) (b : String × Value) :
    ofBindings (bindings ++ [b]) = set b.1 b.2 (ofBindings bindings) := by
  simp [ofBindings]

/-- The keys of a mapping are those of its bindings, in the order in which they are bound first. -/
theorem keys_ofBindings (bindings : List (String × Value)) :
    keys (ofBindings bindings) = (keys bindings).eraseDups := by
  induction bindings using List.reverseRecOn with
  | nil => rfl
  | append_singleton bindings b ih =>
      have hkeys : keys (bindings ++ [b]) = keys bindings ++ [b.1] := by simp [keys]
      rw [ofBindings_concat, keys_set, ih, hkeys, List.eraseDups_append]
      by_cases hb : b.1 ∈ keys bindings
      · simp [hb, List.removeAll]
      · have hsingle : [b.1].eraseDups = [b.1] := rfl
        simp [hb, List.removeAll, hsingle]

/-- A mapping has for each key the value that it is bound to last. -/
theorem get?_ofBindings (key : String) (bindings : List (String × Value)) :
    get? key (ofBindings bindings) = get? key bindings.reverse := by
  induction bindings using List.reverseRecOn with
  | nil => rfl
  | append_singleton bindings b ih =>
      rw [ofBindings_concat, get?_set, ih, List.reverse_append]
      rfl

end Entries

namespace Parameters

/-! ## keys -/

/-- A text that can be the key of a parameter: it is not empty, no blank stands at its ends, and no
equals sign is in it. -/
structure IsKey (key : String) : Prop where
  solid : Text.Solid key.toList
  plain : '=' ∉ key.toList

/-- A pair binds what stands before its first equals sign, trimmed and not empty, to the text behind
it. -/
theorem pair?_eq_some_iff {cs : List Char} {key : String} {value : Value} :
    pair? cs = some (key, value) ↔
      ∃ before after, cs = before ++ '=' :: after ∧ '=' ∉ before ∧ ¬Text.Blanks before ∧
        key = String.ofList (Text.trim before) ∧ value = .string (String.ofList after) := by
  unfold pair?
  constructor
  · intro h
    split at h
    · contradiction
    · next before after hcut =>
        obtain ⟨hcs, hbefore⟩ := Text.cut?_character_eq_some_iff.mp hcut
        split at h
        · contradiction
        · next htrim =>
            obtain ⟨hkey, hvalue⟩ := Prod.mk.inj (Option.some.inj h)
            refine ⟨before, after, hcs, hbefore, ?_, hkey.symm, hvalue.symm⟩
            rwa [← Text.trim_eq_nil_iff, ← List.isEmpty_iff]
  · rintro ⟨before, after, hcs, hbefore, hblank, rfl, rfl⟩
    rw [Text.cut?_character_eq_some_iff.mpr ⟨hcs, hbefore⟩]
    rw [← Text.trim_eq_nil_iff, ← List.isEmpty_iff] at hblank
    simp [hblank]

/-- The key of a pair can be a key. -/
theorem isKey_of_pair? {cs : List Char} {key : String} {value : Value}
    (h : pair? cs = some (key, value)) : IsKey key := by
  obtain ⟨before, after, -, hbefore, hblank, rfl, -⟩ := pair?_eq_some_iff.mp h
  constructor
  · rw [String.toList_ofList]
    exact (Text.trim_solid before).resolve_left fun hnil => hblank (Text.trim_eq_nil_iff.mp hnil)
  · rw [String.toList_ofList]
    exact fun hmem => hbefore (Text.mem_of_mem_trim hmem)

/-- A key is more than blanks. -/
theorem IsKey.not_blanks {key : String} (h : IsKey key) : ¬Text.Blanks key.toList := by
  rw [← Text.trim_eq_nil_iff, h.solid.trim_eq]
  exact h.solid.ne_nil

/-- A key and a text as one word, with an equals sign between them. -/
def pairText (b : String × String) : String := b.1 ++ "=" ++ b.2

theorem toList_pairText (b : String × String) :
    (pairText b).toList = b.1.toList ++ '=' :: b.2.toList := by
  simp [pairText]

/-- What is written as a pair is read as the pair. -/
theorem IsKey.pair?_pairText {key : String} (h : IsKey key) (value : String) :
    pair? (pairText (key, value)).toList = some (key, .string value) := by
  rw [toList_pairText]
  refine pair?_eq_some_iff.mpr ⟨key.toList, value.toList, rfl, h.plain, h.not_blanks, ?_, ?_⟩
  · rw [h.solid.trim_eq, String.ofList_toList]
  · rw [String.ofList_toList]

/-- A key alone is no pair. -/
theorem pair?_of_notMem {cs : List Char} (h : '=' ∉ cs) : pair? cs = none := by
  rw [pair?, Text.cut?_eq_none_of_notMem h]

/-- A text that is neither a pair nor a key, though it is not empty: it has an equals sign with only
blanks in front, or it has none, but a blank at one of its ends. -/
inductive Stray : List Char → Prop
  | unnamed {front : List Char} (hfront : Text.Blanks front) (rest : List Char) :
      Stray (front ++ '=' :: rest)
  | padded {cs : List Char} (hne : cs ≠ []) (hplain : '=' ∉ cs) (hsolid : ¬Text.Solid cs) : Stray cs

/-- Stray text after the dashes binds a key, though it is no pair and no key. -/
theorem stray_iff {cs : List Char} :
    Stray cs ↔ cs ≠ [] ∧ pair? cs = none ∧ ¬IsKey (String.ofList cs) := by
  constructor
  · rintro (⟨hfront, rest⟩ | ⟨hne, hplain, hsolid⟩)
    · next front =>
        have hequals : '=' ∉ front := fun hmem => absurd (hfront _ hmem) (by decide)
        refine ⟨by simp, ?_, fun hkey => hkey.plain (by simp)⟩
        rw [pair?, Text.cut?_character_eq_some_iff.mpr ⟨rfl, hequals⟩]
        simp [Text.trim_eq_nil_iff.mpr hfront]
    · exact ⟨hne, pair?_of_notMem hplain, fun hkey => hsolid (by simpa using hkey.solid)⟩
  · rintro ⟨hne, hpair, hkey⟩
    by_cases hequals : '=' ∈ cs
    · obtain ⟨front, rest, rfl, hfront⟩ := List.eq_append_cons_of_mem hequals
      refine .unnamed ?_ rest
      by_contra hblank
      rw [pair?_eq_some_iff.mpr ⟨front, rest, rfl, hfront, hblank, rfl, rfl⟩] at hpair
      contradiction
    · refine .padded hne hequals fun hsolid => hkey ⟨?_, ?_⟩
      · rwa [String.toList_ofList]
      · rwa [String.toList_ofList]

/-! ## trailing words -/

/-- The word starts with a dash. -/
def Dashed (word : String) : Prop := word.toList.head? = some '-'

instance (word : String) : Decidable (Dashed word) :=
  inferInstanceAs (Decidable (word.toList.head? = some '-'))

section

variable {word : String} {key : List Char} (hword : word.toList = dashes ++ key)
include hword

/-- Behind its dashes an option has its key. -/
theorem dropLead?_option : Text.dropLead? dashes word.toList = some key := by
  rw [hword, Text.dropLead?_self]

/-- An option with a sign of equality binds its pair, whatever the next word is. -/
theorem bindings_pair {b : String × Value} (hpair : pair? key = some b) (rest : List String) :
    bindings (word :: rest) = b :: bindings rest := by
  have hne : key ≠ [] := by
    rintro rfl
    contradiction
  rw [bindings, dropLead?_option hword]
  simp [hpair]

/-- An option before another one, or at the end, is a flag. -/
theorem bindings_alone (hne : key ≠ []) (hpair : pair? key = none) {rest : List String}
    (hnext : ∀ next ∈ rest.head?, Dashed next) :
    bindings (word :: rest) = (String.ofList key, flagValue) :: bindings rest := by
  cases rest with
  | nil => simp [bindings, dropLead?_option hword, hpair]
  | cons next rest =>
      have hdash : next.toList.head? = some '-' := hnext next rfl
      simp [bindings.eq_2 word, dropLead?_option hword, hpair, hdash]

/-- An option before a plain word takes the word as its value. -/
theorem bindings_valued (hne : key ≠ []) (hpair : pair? key = none) {value : String}
    (hvalue : ¬Dashed value) (rest : List String) :
    bindings (word :: value :: rest) = (String.ofList key, .string value) :: bindings rest := by
  have hdash : ¬value.toList.head? = some '-' := hvalue
  simp [bindings.eq_2 word, dropLead?_option hword, hpair, hdash]

end

/-! ## stray words -/

/-- The text is bound by the bindings though it is no key. -/
def BoundAsIs (key : String) (bs : List (String × Value)) : Prop :=
  key ∈ Entries.keys bs ∧ ¬IsKey key

/-- The text is stray, and behind two dashes it is one of the words. -/
def StandsStray (key : String) (words : List String) : Prop :=
  Stray key.toList ∧ "--" ++ key ∈ words

/-- A key is bound unchecked in one of the two halves. -/
theorem boundAsIs_append {key : String} {first second : List (String × Value)} :
    BoundAsIs key (first ++ second) ↔ BoundAsIs key first ∨ BoundAsIs key second := by
  simp [BoundAsIs, Entries.keys, or_and_right]

/-- Where all keys are checked none is bound unchecked. -/
theorem not_boundAsIs_of_forall {key : String} {bs : List (String × Value)}
    (h : ∀ b ∈ bs, IsKey b.1) : ¬BoundAsIs key bs := by
  rintro ⟨hmem, hkey⟩
  obtain ⟨b, hb, rfl⟩ := List.mem_map.mp hmem
  exact hkey (h b hb)

/-- A stray option stands at the front or behind it. -/
theorem standsStray_cons (key word : String) (rest : List String) :
    StandsStray key (word :: rest) ↔ StandsStray key [word] ∨ StandsStray key rest := by
  simp [StandsStray, and_or_left]

/-- A word is the option of a key just when the key stands behind its dashes. -/
theorem option_eq_iff {word key : String} :
    "--" ++ key = word ↔ Text.dropLead? dashes word.toList = some key.toList := by
  rw [Text.dropLead?_eq_some_iff, ← String.toList_inj, String.toList_append, eq_comm]
  rfl

/-- A single word is stray by the text behind its dashes. -/
theorem standsStray_singleton {key word : String} :
    StandsStray key [word] ↔
      Stray key.toList ∧ Text.dropLead? dashes word.toList = some key.toList := by
  simp [StandsStray, option_eq_iff]

/-- A word behind two dashes that is no pair binds the text behind them, be it a key or not. -/
theorem boundAsIs_option {word : String} {cs : List Char}
    (hword : Text.dropLead? dashes word.toList = some cs) (hne : cs ≠ []) (hpair : pair? cs = none)
    (key : String) (value : Value) :
    BoundAsIs key [(String.ofList cs, value)] ↔ StandsStray key [word] := by
  rw [standsStray_singleton, hword, Option.some.injEq, BoundAsIs]
  constructor
  · rintro ⟨hmem, hkey⟩
    obtain rfl : key = String.ofList cs := by simpa [Entries.keys] using hmem
    rw [String.toList_ofList]
    exact ⟨stray_iff.mpr ⟨hne, hpair, hkey⟩, rfl⟩
  · rintro ⟨hstray, rfl⟩
    rw [String.ofList_toList]
    exact ⟨by simp [Entries.keys], by simpa using (stray_iff.mp hstray).2.2⟩

/-- Words bind a text that is no key exactly if it is stray and stands among them behind two dashes.
A word with two dashes is never the value of the one before it. -/
theorem boundAsIs_bindings (words : List String) (key : String) :
    BoundAsIs key (bindings words) ↔ StandsStray key words := by
  induction words using bindings.induct with
  | case1 => simp [bindings, BoundAsIs, StandsStray, Entries.keys]
  | case2 word rest hlead ih =>
      have hpair : ¬BoundAsIs key (pair? word.toList).toList :=
        not_boundAsIs_of_forall fun b hb => isKey_of_pair? (Option.mem_toList.mp hb)
      have hword : ¬StandsStray key [word] := by simp [standsStray_singleton, hlead]
      rw [bindings, hlead, boundAsIs_append, standsStray_cons, ih]
      simp [hpair, hword]
  | case3 word rest hlead ih =>
      have hword : ¬StandsStray key [word] := by
        rw [standsStray_singleton, hlead]
        rintro ⟨hstray, hkey⟩
        exact (stray_iff.mp hstray).1 (Option.some.inj hkey).symm
      rw [bindings, hlead, standsStray_cons, ← ih]
      simp [hword]
  | case4 word cs hne hlead b rest hpair ih =>
      have hkey : ¬BoundAsIs key [b] :=
        not_boundAsIs_of_forall fun c hc => by
          obtain rfl := List.mem_singleton.mp hc
          exact isKey_of_pair? hpair
      have hword : ¬StandsStray key [word] := by
        rw [standsStray_singleton, hlead]
        rintro ⟨hstray, hcs⟩
        rw [Option.some.inj hcs, (stray_iff.mp hstray).2.1] at hpair
        contradiction
      rw [bindings_pair (Text.dropLead?_eq_some_iff.mp hlead) hpair, ← List.singleton_append,
        boundAsIs_append, standsStray_cons, ih]
      simp [hkey, hword]
  | case5 word cs hne hlead hpair =>
      rw [bindings_alone (Text.dropLead?_eq_some_iff.mp hlead) hne hpair (by simp)]
      exact boundAsIs_option hlead hne hpair key flagValue
  | case6 word cs hne hlead next rest hpair hdash ih =>
      have hnext : ∀ w ∈ (next :: rest).head?, Dashed w := by
        intro w hw
        obtain rfl := Option.some.inj hw
        exact hdash
      rw [bindings_alone (Text.dropLead?_eq_some_iff.mp hlead) hne hpair hnext,
        ← List.singleton_append, boundAsIs_append, standsStray_cons, ih,
        boundAsIs_option hlead hne hpair]
  | case7 word cs hne hlead value rest hpair hdash ih =>
      -- the value that is passed over has no dash in front, so no key can stand in it
      have hvalue : ¬StandsStray key [value] := by
        rw [standsStray_singleton, Text.dropLead?_eq_some_iff]
        rintro ⟨-, hvalue⟩
        exact hdash (by rw [hvalue]; rfl)
      rw [bindings_valued (Text.dropLead?_eq_some_iff.mp hlead) hne hpair hdash,
        ← List.singleton_append, boundAsIs_append, standsStray_cons key word,
        standsStray_cons key value, ih, boundAsIs_option hlead hne hpair]
      simp [hvalue]

/-- **Which keys are well formed.** All keys of the parameters can be keys, whatever the pairs and
the words are, exactly if no stray text stands behind two dashes. -/
theorem keys_isKey_iff (pairs words : List String) :
    (∀ key ∈ Entries.keys (ofWords pairs words), IsKey key) ↔
      ∀ key, Stray key.toList → "--" ++ key ∉ words := by
  have hpairs : ∀ key, ¬BoundAsIs key (pairs.filterMap fun p => pair? p.toList) := by
    refine fun key => not_boundAsIs_of_forall fun b hb => ?_
    obtain ⟨p, -, hp⟩ := List.mem_filterMap.mp hb
    exact isKey_of_pair? hp
  have hwords : ∀ key, BoundAsIs key (ofWords pairs words) ↔ StandsStray key words := by
    intro key
    rw [ofWords, BoundAsIs, Entries.keys_ofBindings, List.mem_eraseDups, ← BoundAsIs,
      boundAsIs_append, boundAsIs_bindings]
    exact or_iff_left (hpairs key)
  constructor
  · intro h key hstray hmem
    obtain ⟨hkey, hnot⟩ := (hwords key).mpr ⟨hstray, hmem⟩
    exact hnot (h key hkey)
  · intro h key hkey
    by_contra hnot
    obtain ⟨hstray, hmem⟩ := (hwords key).mp ⟨hkey, hnot⟩
    exact h key hstray hmem

/-- An equals sign right behind two dashes becomes part of a key, and so does what follows it. -/
theorem ofWords_unnamed :
    ofWords [] ["--=x"] = [("=x", .string "true")] ∧ ¬IsKey "=x" :=
  ⟨rfl, fun h => h.plain (by decide)⟩

/-! ## spellings -/

/-- A key that is not taken for an option where a pair starts with it. -/
structure IsName (key : String) : Prop extends IsKey key where
  undashed : ¬Dashed key

/-- A text without blanks and equals signs, and without a dash at its front, is a name. -/
theorem isName_of_forall {key : String} (hne : key.toList ≠ [])
    (h : ∀ c ∈ key.toList, Text.isBlank c = false ∧ c ≠ '=') (hdash : ¬Dashed key) :
    IsName key where
  solid := Text.solid_of_forall hne fun c hc => (h c hc).1
  plain hmem := (h '=' hmem).2 rfl
  undashed := hdash

/-- Words that spell bindings, one after the other: each of them takes one word or two. -/
inductive Spells : List (String × String) → List String → Prop
  | nil : Spells [] []
  /-- `--key=value` -/
  | joined {key : String} (hkey : IsName key) (value : String) {bs : List (String × String)}
      {words : List String} (hrest : Spells bs words) :
      Spells ((key, value) :: bs) (("--" ++ pairText (key, value)) :: words)
  /-- `--key value`, where the value does not look like an option. -/
  | apart {key value : String} (hkey : IsName key) (hvalue : ¬Dashed value)
      {bs : List (String × String)} {words : List String} (hrest : Spells bs words) :
      Spells ((key, value) :: bs) (("--" ++ key) :: value :: words)
  /-- `key=value` -/
  | plain {key : String} (hkey : IsName key) (value : String) {bs : List (String × String)}
      {words : List String} (hrest : Spells bs words) :
      Spells ((key, value) :: bs) (pairText (key, value) :: words)
  /-- `--key`, which stands for the text `true`, where no value follows. -/
  | flag {key : String} (hkey : IsName key) {bs : List (String × String)} {words : List String}
      (hnext : ∀ next ∈ words.head?, Dashed next) (hrest : Spells bs words) :
      Spells ((key, "true") :: bs) (("--" ++ key) :: words)

/-- Bindings of keys to texts, as values. -/
def texts (bs : List (String × String)) : List (String × Value) :=
  bs.map fun b => (b.1, .string b.2)

/-- The text that a key is bound to last. -/
def lastText? (key : String) (bs : List (String × String)) : Option String :=
  bs.reverse.lookup key

theorem toList_option (key : String) : ("--" ++ key).toList = dashes ++ key.toList :=
  String.toList_append

/-- A pair whose key is a name is no option. -/
theorem IsName.dropLead?_pairText {key : String} (h : IsName key) (value : String) :
    Text.dropLead? dashes (pairText (key, value)).toList = none := by
  obtain ⟨c, cs, hcs, -⟩ := h.solid.starts
  have hdash : '-' ≠ c := by
    rintro rfl
    exact h.undashed (by rw [Dashed, hcs]; rfl)
  rw [toList_pairText, hcs]
  exact Text.dropLead?_cons_ne hdash _ _

/-- Words bind what they spell. -/
theorem Spells.bindings_eq {bs : List (String × String)} {words : List String}
    (h : Spells bs words) : bindings words = texts bs := by
  induction h with
  | nil => rfl
  | joined hkey value hrest ih =>
      rw [bindings_pair (toList_option _) (hkey.pair?_pairText value), ih]
      rfl
  | @apart key value hkey hvalue bs words hrest ih =>
      rw [bindings_valued (toList_option key) hkey.solid.ne_nil (pair?_of_notMem hkey.plain) hvalue,
        ih, String.ofList_toList]
      rfl
  | plain hkey value hrest ih =>
      rw [bindings, hkey.dropLead?_pairText, hkey.pair?_pairText, ih]
      rfl
  | @flag key hkey bs words hnext hrest ih =>
      rw [bindings_alone (toList_option key) hkey.solid.ne_nil (pair?_of_notMem hkey.plain) hnext,
        ih, String.ofList_toList]
      rfl

/-- Written pairs are read back, all of them and in order. -/
theorem filterMap_pairs {bs : List (String × String)} (h : ∀ b ∈ bs, IsKey b.1) :
    (bs.map pairText).filterMap (fun p => pair? p.toList) = texts bs := by
  rw [List.filterMap_map, texts, ← List.filterMap_eq_map]
  exact List.filterMap_congr fun b hb => (h b hb).pair?_pairText b.2

/-- A key has the text that the pairs look up for it. -/
theorem get?_texts (key : String) (bs : List (String × String)) :
    Entries.get? key (texts bs) = (bs.lookup key).map .string := by
  induction bs with
  | nil => rfl
  | cons b bs ih =>
      obtain ⟨name, text⟩ := b
      have hcons : texts ((name, text) :: bs) = (name, .string text) :: texts bs := rfl
      rw [hcons, Entries.get?, ih, List.lookup_cons]
      by_cases hkey : name = key
      · simp [hkey]
      · have hne : (key == name) = false := by simpa using Ne.symm hkey
        simp [hkey, hne]

/-- **All spellings mean the same.** Whichever way each of the trailing bindings is spelled, every
key has the value of its last pair, or else of its last trailing binding, and the keys stand in the
order in which they come up first, those of the trailing words in front. -/
theorem ofWords_spelled {trailing pairs : List (String × String)} {words : List String}
    (hwords : Spells trailing words) (hpairs : ∀ b ∈ pairs, IsKey b.1) :
    Entries.keys (ofWords (pairs.map pairText) words) =
        (trailing.map (·.1) ++ pairs.map (·.1)).eraseDups ∧
      ∀ key, Entries.get? key (ofWords (pairs.map pairText) words) =
        ((lastText? key pairs).or (lastText? key trailing)).map .string := by
  have hbindings : ofWords (pairs.map pairText) words =
      Entries.ofBindings (texts (trailing ++ pairs)) := by
    rw [ofWords, hwords.bindings_eq, filterMap_pairs hpairs, texts, texts, texts, List.map_append]
  constructor
  · rw [hbindings, Entries.keys_ofBindings]
    simp [Entries.keys, texts, Function.comp_def]
  · intro key
    have hreverse : (texts (trailing ++ pairs)).reverse =
        texts (pairs.reverse ++ trailing.reverse) := by simp [texts]
    rw [hbindings, Entries.get?_ofBindings, hreverse, get?_texts, List.lookup_append]
    rfl

/-- All four spellings, with an equals sign in a value, an empty value, and two keys bound twice. -/
theorem ofWords_spelled_mixture :
    Spells [("count", "3"), ("query", "a=b c"), ("note", ""), ("dry-run", "true"), ("count", "4")]
        ["--count", "3", "query=a=b c", "--note", "", "--dry-run", "--count=4"] ∧
      Entries.keys (ofWords ["query=x"] ["--count", "3", "query=a=b c", "--note", "", "--dry-run",
        "--count=4"]) = ["count", "query", "note", "dry-run"] ∧
      Entries.get? "count" (ofWords ["query=x"] ["--count", "3", "query=a=b c", "--note", "",
        "--dry-run", "--count=4"]) = some (.string "4") ∧
      Entries.get? "query" (ofWords ["query=x"] ["--count", "3", "query=a=b c", "--note", "",
        "--dry-run", "--count=4"]) = some (.string "x") := by
  have hcount : IsName "count" := isName_of_forall (by decide) (by decide) (by decide)
  have hquery : IsName "query" := isName_of_forall (by decide) (by decide) (by decide)
  have hnote : IsName "note" := isName_of_forall (by decide) (by decide) (by decide)
  have hdry : IsName "dry-run" := isName_of_forall (by decide) (by decide) (by decide)
  have hspells : Spells
      [("count", "3"), ("query", "a=b c"), ("note", ""), ("dry-run", "true"), ("count", "4")]
      ["--count", "3", "query=a=b c", "--note", "", "--dry-run", "--count=4"] :=
    .apart hcount (by decide) <| .plain hquery "a=b c" <| .apart hnote (by decide) <|
      .flag hdry (by decide) <| .joined hcount "4" .nil
  have hpairs : ∀ b ∈ [("query", "x")], IsKey b.1 := by
    simpa using hquery.toIsKey
  obtain ⟨hkeys, hvalues⟩ := ofWords_spelled hspells hpairs
  exact ⟨hspells, hkeys, hvalues "count", hvalues "query"⟩

end Parameters

end Runbook
