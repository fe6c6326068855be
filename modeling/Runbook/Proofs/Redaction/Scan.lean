import Runbook.Proofs.Redaction.Pattern

/-!
# Runbook.Proofs.Redaction.Scan

How a rule goes through a text. A text passes in front of some tails if the rule deals with it in
the same way whichever of them follows, and has dealt with all of it where the tail starts
(`Passes`); it does not pass only if at some place the text does not decide what is found there
(`Decides`, `passes_or`). Where the name at the front of a text has no telltale, nothing is
announced (`Calm`).
-/

namespace Runbook.Redaction

variable {rule : Rule} {mask : List Char} {previous : Option Char}

/-! ## one step -/

/-- What is found where the rule may start. -/
theorem Rule.find?_eq_bind (h : (rule.startsWord && previous.any Text.isWordChar) = false)
    (cs : List Char) :
    rule.find? previous cs = (rule.announcement cs).bind fun lead =>
      (rule.secret lead.2).map fun secret => (lead.1, secret.1) := by
  rw [Rule.find?, h, if_neg Bool.false_ne_true]

/-- Nothing is found where the rule may not start. -/
theorem Rule.find?_eq_none (h : (rule.startsWord && previous.any Text.isWordChar) = true)
    (cs : List Char) : rule.find? previous cs = none := by
  rw [Rule.find?, if_pos h]

/-- Without an announcement a character is kept. -/
theorem scrub_kept {c : Char} {cs : List Char} (h : rule.find? previous (c :: cs) = none) :
    scrub rule mask 0 previous (c :: cs) = c :: scrub rule mask 0 (some c) cs := by
  simp only [scrub, h]

/-- The character before the second of two parts. -/
theorem getLast?_append_or (front back : List Char) (previous : Option Char) :
    (front ++ back).getLast?.or previous = back.getLast?.or (front.getLast?.or previous) := by
  rw [List.getLast?_append, Option.or_assoc]

/-- The last character behind a text, if what stands before it counts as well. -/
theorem getLast?_cons_or (c : Char) (cs : List Char) (previous : Option Char) :
    (c :: cs).getLast?.or previous = cs.getLast?.or (some c) :=
  getLast?_append_or [c] cs previous

/-- A secret that is found is replaced, and the scan goes on behind it. -/
theorem scrub_replaced {lead secret rest : List Char} (hlead : lead ≠ [])
    (h : rule.find? previous (lead ++ secret ++ rest) = some (lead, secret)) :
    scrub rule mask 0 previous (lead ++ secret ++ rest) =
      lead ++ mask ++ scrub rule mask 0 ((lead ++ secret).getLast?.or previous) rest := by
  cases lead with
  | nil => contradiction
  | cons c lead =>
      simp only [List.cons_append] at h ⊢
      simp only [scrub, h]
      cases hpart : lead ++ secret with
      | nil =>
          obtain ⟨rfl, rfl⟩ := List.append_eq_nil_iff.mp hpart
          rfl
      | cons d part =>
          have hskip : (c :: lead).length + secret.length - 1 = (d :: part).length := by
            simp [← hpart]
          rw [hskip, scrub_skip rule mask (d :: part) rest _ (by simp)]
          simp [List.getLast?_cons]

/-- What is found stands at the front of the text. -/
theorem Rule.Sound.of_find? (hsound : rule.Sound) {cs lead secret : List Char}
    (h : rule.find? previous cs = some (lead, secret)) :
    ∃ rest, cs = lead ++ secret ++ rest ∧ (∃ c, lead.getLast? = some c ∧ isSeam c = true) ∧
      ((∀ c, rest.head? = some c → isSeam c = true) ∨ '\\' ∉ secret) := by
  simp only [Rule.find?, Option.ite_none_left_eq_some, Option.bind_eq_some_iff,
    Option.map_eq_some_iff] at h
  obtain ⟨-, ⟨lead', left⟩, hlead, ⟨secret', rest⟩, hsecret, hpair⟩ := h
  obtain ⟨rfl, rfl⟩ := Prod.mk.inj hpair
  refine ⟨rest, ?_, hsound.endsInSeam cs lead' left hlead, ?_⟩
  · rw [hsound.splits_announcement cs lead' left hlead,
      hsound.splits_secret left secret' rest hsecret, List.append_assoc]
  · exact hsound.endsWhole.imp (fun hend => hend left secret' rest hsecret)
      fun hescapes => hescapes left secret' rest hsecret

/-- The announcement of a secret is not empty. -/
theorem Rule.Sound.ne_nil (hsound : rule.Sound) {cs lead secret : List Char}
    (h : rule.find? previous cs = some (lead, secret)) : lead ≠ [] := by
  obtain ⟨rest, -, ⟨c, hlast, -⟩, -⟩ := hsound.of_find? h
  rintro rfl
  simp at hlast

/-! ## passing -/

/-- In front of all tails of a kind, the rule finds nothing at the front of the text, or the same
secret within it. -/
def Decides (rule : Rule) (Tail : List Char → Prop) (previous : Option Char) (cs : List Char) :
    Prop :=
  (∀ tail, Tail tail → rule.find? previous (cs ++ tail) = none) ∨
    ∃ lead secret left, lead ≠ [] ∧ cs = lead ++ secret ++ left ∧
      ∀ tail, Tail tail → rule.find? previous (cs ++ tail) = some (lead, secret)

/-- A secret that is found in front of all tails decides. -/
theorem Rule.Sound.decides (hsound : rule.Sound) {Tail : List Char → Prop}
    {cs lead secret left tail : List Char} (htail : Tail tail) (hcs : cs = lead ++ secret ++ left)
    (hfind : ∀ tail, Tail tail → rule.find? previous (cs ++ tail) = some (lead, secret)) :
    Decides rule Tail previous cs :=
  .inr ⟨lead, secret, left, hsound.ne_nil (hfind tail htail), hcs, hfind⟩

/-- The text is dealt with in the same way in front of all tails of a kind, and what is written for
it. -/
inductive Passes (rule : Rule) (mask : List Char) (Tail : List Char → Prop) :
    Option Char → List Char → List Char → Prop
  | done (previous : Option Char) : Passes rule mask Tail previous [] []
  | kept {previous : Option Char} {c : Char} {cs out : List Char}
      (hfind : ∀ tail, Tail tail → rule.find? previous (c :: cs ++ tail) = none)
      (hpasses : Passes rule mask Tail (some c) cs out) :
      Passes rule mask Tail previous (c :: cs) (c :: out)
  | replaced {previous : Option Char} {lead secret cs out : List Char} (hlead : lead ≠ [])
      (hfind : ∀ tail, Tail tail →
        rule.find? previous (lead ++ secret ++ cs ++ tail) = some (lead, secret))
      (hpasses : Passes rule mask Tail ((lead ++ secret).getLast?.or previous) cs out) :
      Passes rule mask Tail previous (lead ++ secret ++ cs) (lead ++ mask ++ out)

variable {Tail : List Char → Prop}

/-- The scan of a text that passes goes on with the tail. -/
theorem Passes.scrub_eq {cs out : List Char} (h : Passes rule mask Tail previous cs out)
    {tail : List Char} (htail : Tail tail) :
    scrub rule mask 0 previous (cs ++ tail) =
      out ++ scrub rule mask 0 (cs.getLast?.or previous) tail := by
  induction h with
  | done previous => rfl
  | @kept previous c cs out hfind hpasses ih =>
      have hnone : rule.find? previous (c :: (cs ++ tail)) = none := hfind tail htail
      rw [List.cons_append, scrub_kept hnone, ih, getLast?_cons_or, List.cons_append]
  | @replaced previous lead secret cs out hlead hfind hpasses ih =>
      have hfound := hfind tail htail
      rw [List.append_assoc] at hfound ⊢
      rw [scrub_replaced hlead hfound, ih, getLast?_append_or (lead ++ secret) cs]
      simp only [List.append_assoc]

/-- A text passes, or it crosses into the tail from some place on, if at every place it decides what
is found or crosses there. -/
theorem passes_or (mask : List Char) {Crosses : Option Char → List Char → Prop}
    (hlocal : ∀ previous cs, cs ≠ [] → Decides rule Tail previous cs ∨ Crosses previous cs)
    (previous : Option Char) (cs : List Char) :
    (∃ out, Passes rule mask Tail previous cs out) ∨
      ∃ front back out, cs = front ++ back ∧
        Passes rule mask (fun tail => ∃ t, Tail t ∧ tail = back ++ t) previous front out ∧
        Crosses (front.getLast?.or previous) back := by
  induction hsize : cs.length using Nat.strongRecOn generalizing previous cs with
  | ind size ih =>
      subst hsize
      rcases cs with _ | ⟨c, cs⟩
      · exact .inl ⟨[], .done previous⟩
      rcases hlocal previous (c :: cs) (by simp) with (hnone | hwithin) | hcross
      · rcases ih cs.length (by simp) (some c) cs rfl with
          ⟨out, hpasses⟩ | ⟨front, back, out, rfl, hpasses, hcross⟩
        · exact .inl ⟨c :: out, .kept hnone hpasses⟩
        · refine .inr ⟨c :: front, back, c :: out, rfl, .kept ?_ hpasses, ?_⟩
          · rintro _ ⟨tail, htail, rfl⟩
            simpa using hnone tail htail
          · rwa [getLast?_cons_or]
      · -- a secret within the text: the scan goes on behind it, in a shorter text
        obtain ⟨lead, secret, left, hlead, hcs, hfind⟩ := hwithin
        rw [hcs] at hfind ⊢
        have hshorter : left.length < (c :: cs).length := by
          have := List.length_pos_iff.mpr hlead
          simp only [hcs, List.length_append]
          omega
        rcases ih left.length hshorter ((lead ++ secret).getLast?.or previous) left rfl with
          ⟨out, hpasses⟩ | ⟨front, back, out, rfl, hpasses, hcross⟩
        · exact .inl ⟨_, .replaced hlead hfind hpasses⟩
        · refine .inr ⟨lead ++ secret ++ front, back, _, (List.append_assoc ..).symm,
            .replaced hlead ?_ hpasses, ?_⟩
          · rintro _ ⟨tail, htail, rfl⟩
            simpa using hfind tail htail
          · rwa [getLast?_append_or (lead ++ secret) front]
      · exact .inr ⟨[], c :: cs, [], rfl, .done previous, hcross⟩

/-- A text whose last character is known passes, or it crosses into the tail from some place on, if
the texts with that last character decide what is found or cross. -/
theorem passes_or_of_last (mask : List Char) {d : Char} (Crosses : Option Char → List Char → Prop)
    (hlocal : ∀ previous cs, Decides rule Tail previous (cs ++ [d]) ∨ Crosses previous (cs ++ [d]))
    (previous : Option Char) (front : List Char) :
    (∃ out, Passes rule mask Tail previous (front ++ [d]) out) ∨
      ∃ start back out, front ++ [d] = start ++ back ∧
        Passes rule mask (fun tail => ∃ t, Tail t ∧ tail = back ++ t) previous start out ∧
        Crosses (start.getLast?.or previous) back := by
  have hends : ∀ previous cs, cs ≠ [] → Decides rule Tail previous cs ∨
      cs ≠ [] ∧ (cs.getLast? = some d → Crosses previous cs) := by
    intro previous cs hne
    by_cases hlast : cs.getLast? = some d
    · obtain ⟨cs, rfl⟩ := List.getLast?_eq_some_iff.mp hlast
      exact (hlocal previous cs).imp_right fun h => ⟨hne, fun _ => h⟩
    · exact .inr ⟨hne, fun h => absurd h hlast⟩
  rcases passes_or mask hends previous (front ++ [d]) with
    hpasses | ⟨start, back, out, hsplit, hpasses, hne, hcross⟩
  · exact .inl hpasses
  · -- what is left of the text where it crosses ends as the text does
    refine .inr ⟨start, back, out, hsplit, hpasses, hcross ?_⟩
    obtain ⟨c, hc⟩ : ∃ c, back.getLast? = some c :=
      ⟨back.getLast hne, List.getLast?_eq_some_getLast hne⟩
    have hback := congrArg List.getLast? hsplit
    simpa [List.getLast?_append, hc, eq_comm] using hback

/-- A text passes if all texts with its last character decide what is found. -/
theorem exists_passes_of_last (mask : List Char) {d : Char}
    (hlocal : ∀ previous cs, Decides rule Tail previous (cs ++ [d])) (previous : Option Char)
    (front : List Char) : ∃ out, Passes rule mask Tail previous (front ++ [d]) out := by
  have hnever : ∀ previous cs, Decides rule Tail previous (cs ++ [d]) ∨ False :=
    fun previous cs => .inl (hlocal previous cs)
  refine (passes_or_of_last mask (fun _ _ => False) hnever previous front).resolve_right ?_
  rintro ⟨-, -, -, -, -, hcross⟩
  exact hcross

/-- What is written for a text ends as the text does, or with the mask. -/
theorem Passes.getLast?_eq (hmask : mask ≠ []) {cs out : List Char}
    (h : Passes rule mask Tail previous cs out) :
    out.getLast? = cs.getLast? ∨ out.getLast? = mask.getLast? := by
  obtain ⟨m, hm⟩ : ∃ m, mask.getLast? = some m :=
    ⟨mask.getLast hmask, List.getLast?_eq_some_getLast hmask⟩
  induction h with
  | done previous => exact .inl rfl
  | kept hfind hpasses ih =>
      rcases ih with hsame | hmasked
      · exact .inl (by rw [List.getLast?_cons, List.getLast?_cons, hsame])
      · exact .inr (by rw [List.getLast?_cons, hmasked, hm]; rfl)
  | @replaced previous lead secret cs out hlead hfind hpasses ih =>
      rcases ih with hsame | hmasked
      · cases hlast : cs.getLast? with
        | none => exact .inr (by simp [List.getLast?_append, hsame, hlast, hm])
        | some d => exact .inl (by simp [List.getLast?_append, hsame, hlast])
      · exact .inr (by simp [List.getLast?_append, hmasked, hm])

/-- Every text passes in front of nothing. -/
theorem Rule.Sound.exists_passes (hsound : rule.Sound) (mask : List Char) (previous : Option Char)
    (cs : List Char) : Passes rule mask (· = []) previous cs (scrub rule mask 0 previous cs) := by
  have hlocal : ∀ (previous : Option Char) (cs : List Char), cs ≠ [] →
      Decides rule (· = []) previous cs ∨ False := by
    intro previous cs _
    cases hfind : rule.find? previous cs with
    | none => exact .inl (.inl (by simpa using hfind))
    | some found =>
        obtain ⟨rest, hcs, -⟩ := hsound.of_find? hfind
        exact .inl (hsound.decides rfl hcs (by simpa using hfind))
  rcases passes_or mask hlocal previous cs with
    ⟨out, hpasses⟩ | ⟨front, back, out, -, -, hcross⟩
  · have hscrub := hpasses.scrub_eq rfl
    simp only [List.append_nil, scrub] at hscrub
    rwa [hscrub]
  · exact hcross.elim

/-- A text that is redacted ends as before, or with the mask. -/
theorem Rule.Sound.getLast?_scrub (hsound : rule.Sound) (hmask : mask ≠ [])
    (previous : Option Char) (cs : List Char) :
    (scrub rule mask 0 previous cs).getLast? = cs.getLast? ∨
      (scrub rule mask 0 previous cs).getLast? = mask.getLast? :=
  (hsound.exists_passes mask previous cs).getLast?_eq hmask

/-! ## texts without announcements -/

/-- The name at the front of the text, if there is one, has no telltale in it. -/
def Calm (cs : List Char) : Prop := ∀ c ∈ cs.takeWhile isNameChar, foldCase c ∉ telltales

/-- The empty text announces nothing. -/
theorem calm_nil : Calm [] := fun c hc => by simp at hc

/-- Nor does a text that does not start with a name. -/
theorem calm_cons_of_not {c : Char} (hc : isNameChar c = false) (cs : List Char) :
    Calm (c :: cs) := by
  simp [Calm, hc]

/-- Characters without telltales in front change nothing. -/
theorem Calm.append {first rest : List Char} (hfirst : ∀ c ∈ first, foldCase c ∉ telltales)
    (hrest : Calm rest) : Calm (first ++ rest) := by
  intro c hc
  rw [List.takeWhile_append] at hc
  split at hc
  · rcases List.mem_append.mp hc with hc | hc
    · exact hfirst c hc
    · exact hrest c hc
  · exact hfirst c ((List.takeWhile_prefix _).subset hc)

/-- Nothing is announced at the front of a calm text. -/
theorem Rule.Sound.find?_calm (hsound : rule.Sound) {cs : List Char} (h : Calm cs) :
    rule.find? previous cs = none := by
  cases hfind : rule.find? previous cs with
  | none => rfl
  | some found =>
      simp only [Rule.find?, Option.ite_none_left_eq_some, Option.bind_eq_some_iff] at hfind
      obtain ⟨-, ⟨lead, left⟩, hlead, -⟩ := hfind
      obtain ⟨c, hc, htell⟩ := hsound.announces cs lead left hlead
      refine absurd htell (h c ?_)
      rw [hsound.splits_announcement cs lead left hlead, List.takeWhile_append]
      split
      · exact List.mem_append_left _ ((List.takeWhile_prefix _).subset hc)
      · exact hc

/-- What stands before a calm text does not matter. -/
theorem Rule.Sound.scrub_calm (hsound : rule.Sound) {cs : List Char} (h : Calm cs)
    (previous : Option Char) : scrub rule mask 0 previous cs = scrub rule mask 0 none cs := by
  cases cs with
  | nil => rfl
  | cons c cs => rw [scrub_kept (hsound.find?_calm h), scrub_kept (hsound.find?_calm h)]

/-- Characters that are no telltales are kept in front of a calm text. -/
theorem Rule.Sound.scrub_append_calm (hsound : rule.Sound) {first rest : List Char}
    (hfirst : ∀ c ∈ first, foldCase c ∉ telltales) (hrest : Calm rest) (previous : Option Char) :
    scrub rule mask 0 previous (first ++ rest) = first ++ scrub rule mask 0 none rest := by
  induction first generalizing previous with
  | nil => exact hsound.scrub_calm hrest previous
  | cons c first ih =>
      have hcalm := Calm.append hfirst hrest
      rw [List.cons_append] at hcalm ⊢
      rw [scrub_kept (hsound.find?_calm hcalm),
        ih (fun d hd => hfirst d (List.mem_cons_of_mem _ hd)), List.cons_append]

end Runbook.Redaction
