import Mathlib.Tactic.SplitIfs
import SigmaQuery.Proofs.ValueReading

/-!
# Values between delimiters

A value of a comparison is written between two delimiters. It stays there if each delimiter in it is
*escaped*: it is behind an odd number of backslashes, or it is doubled. A small machine decides this by
reading the text once. Which of the values stay between their delimiters differs from target to target,
because some write a value as it is and some escape another character.
-/

namespace SigmaQuery

open List

namespace Text

/-! ## Reading between delimiters -/

/-- Where the reading of a text between delimiters stands. -/
inductive Place where
  /-- Before a character that is not escaped. -/
  | plain
  /-- Behind a backslash. -/
  | escaped
  /-- Behind a delimiter that has to be followed by a second one. -/
  | halved
  /-- Behind the delimiter that has ended the text. -/
  | ended
deriving DecidableEq, Repr

/-- How a text can hold the delimiter that it stands between: doubled, and with some behind a
backslash. -/
structure Enclosure where
  delimiter : Char
  backslash : Bool := true
  ne_backslash : delimiter ≠ '\\' := by decide

namespace Enclosure

/-- Reads a character. -/
def step (k : Enclosure) : Place → Char → Place
  | .plain, c =>
    if k.backslash && c == '\\' then .escaped else if c == k.delimiter then .halved else .plain
  | .escaped, _ => .plain
  | .halved, c => if c == k.delimiter then .plain else .ended
  | .ended, _ => .ended

/-- Reads a text. -/
def scan (k : Enclosure) (p : Place) (cs : List Char) : Place :=
  cs.foldl k.step p

/-- Every delimiter in the text is escaped. -/
def encloses (k : Enclosure) (s : String) : Bool :=
  match k.scan .plain s.toList with
  | .plain | .escaped => true
  | .halved | .ended => false

section

variable (k : Enclosure) (p : Place)

@[simp]
theorem scan_nil : k.scan p [] = p := rfl

@[simp]
theorem scan_cons (c : Char) (cs : List Char) : k.scan p (c :: cs) = k.scan (k.step p c) cs := rfl

@[simp]
theorem scan_append (cs ds : List Char) : k.scan p (cs ++ ds) = k.scan (k.scan p cs) ds :=
  foldl_append

end

variable {k : Enclosure} {p : Place} {c : Char}

theorem step_eq_escaped_iff :
    k.step p c = .escaped ↔ p = .plain ∧ (k.backslash && c == '\\') = true := by
  cases p with
  | plain => simp only [step]; split_ifs <;> simp_all
  | halved => simp only [step]; split_ifs <;> simp
  | escaped | ended => simp [step]

/-- Words that do with the machine what the characters do can stand for them. -/
theorem scan_flatMap {g : Char → List Char} (same : ∀ p c, k.scan p (g c) = k.step p c) (p : Place)
    (cs : List Char) : k.scan p (cs.flatMap g) = k.scan p cs := by
  induction cs generalizing p with
  | nil => rfl
  | cons c cs ih => rw [flatMap_cons, scan_append, same, ih, scan_cons]

end Enclosure

open Enclosure

/-- Single quotes around a text. -/
def singleQuotes : Enclosure := { delimiter := '\'' }

/-- Double quotes around a text. -/
def doubleQuotes : Enclosure := { delimiter := '"' }

/-- Single quotes around a text in which they can only be doubled. -/
def pairedQuotes : Enclosure := { delimiter := '\'', backslash := false }

theorem EscapeRule.apply_eq_mark {r : EscapeRule} (kept : ∀ c, r.dropped c = false) (cs : List Char) :
    r.apply cs = r.mark cs :=
  filter_eq_self.mpr fun c _ => by rw [kept]; rfl

theorem EscapeRule.mark_eq_flatMap {r : EscapeRule} (backslash : r.backslash = false)
    (doubled : ∀ c, r.doubled c = false) (cs : List Char) :
    r.mark cs = cs.flatMap fun c => if r.special c then ['\\', c] else [c] := by
  have marks : ∀ c rest, r.marks c rest = r.special c := by
    intro c rest
    simp [EscapeRule.marks, backslash]
  fun_induction r.mark cs <;> simp_all

theorem scan_plainQuoteEscape (p : Place) (cs : List Char) :
    singleQuotes.scan p (plainQuoteEscape.apply cs) = singleQuotes.scan p cs := by
  rw [EscapeRule.apply_eq_mark fun _ => rfl, EscapeRule.mark_eq_flatMap rfl fun _ => rfl]
  refine Enclosure.scan_flatMap (fun p c => ?_) p cs
  split_ifs with quote
  · obtain rfl : c = '"' := by simpa [plainQuoteEscape] using quote
    cases p <;> rfl
  · rfl

theorem scan_likePattern (p : Place) (s : String) :
    singleQuotes.scan p (replaceChar '*' "%" s).toList = singleQuotes.scan p s.toList := by
  rw [replaceChar, replaceEach, String.toList_ofList]
  refine scan_flatMap (fun p c => ?_) p s.toList
  split_ifs with star
  · obtain rfl : c = '*' := by simpa using star
    cases p <;> rfl
  · rfl

/-! ### Regular expressions -/

/-- The wildcards of a text in a regular expression. -/
def regexWord (c : Char) : List Char :=
  if c == '*' then ['.', '*'] else if c == '?' then ['.'] else [c]

theorem toList_regexOf (s : String) :
    (regexOf s).toList = (regexEscape.apply s.toList).flatMap regexWord := by
  rw [regexOf, replaceEach, EscapeRule.text, String.toList_ofList, String.toList_ofList]
  rfl

theorem regexEscape_reversible : regexEscape.Reversible where
  backslash := rfl
  quote := by decide
  backslash_plain := by decide
  wildcard := forall_isWildcard (by decide) (by decide)
  dropped c dropped := by cases dropped

theorem regexWord_of_not_isWildcard {c : Char} (plain : isWildcard c = false) :
    regexWord c = [c] := by
  rw [isWildcard, Bool.or_eq_false_iff] at plain
  simp [regexWord, plain.1, plain.2]

theorem ne_quote_of_marks {c : Char} {rest : List Char} (marks : regexEscape.marks c rest = true) :
    c ≠ '\'' := by
  rintro rfl
  simp [EscapeRule.marks, regexEscape] at marks

section

variable {p : Place} {c : Char}

theorem scan_regexWord (other : c ≠ '\\') :
    singleQuotes.scan p (regexWord c) = pairedQuotes.step p c := by
  cases wild : isWildcard c with
  | true =>
    rw [isWildcard, Bool.or_eq_true, beq_iff_eq, beq_iff_eq] at wild
    rcases wild with rfl | rfl <;> cases p <;> rfl
  | false =>
    rw [regexWord_of_not_isWildcard wild]
    cases p <;> simp [step, singleQuotes, pairedQuotes, other]

theorem scan_escaped_regexWord (place : p ≠ .escaped) {rest : List Char}
    (marks : regexEscape.marks c rest = true) :
    singleQuotes.scan p ('\\' :: regexWord c) = pairedQuotes.step p c := by
  have other : c ≠ '\'' := ne_quote_of_marks marks
  rw [regexWord_of_not_isWildcard (regexEscape_reversible.of_marks marks).1]
  cases p with
  | escaped => exact absurd rfl place
  | _ => simp [step, singleQuotes, pairedQuotes, other]

theorem pairedQuotes_step_ne_escaped : pairedQuotes.step p c ≠ .escaped := by
  rw [Ne, step_eq_escaped_iff]
  exact fun marks => Bool.false_ne_true marks.2

end

/-- In a regular expression no backslash of the text is before a single quote any more. -/
theorem scan_regexEscape {p : Place} (cs : List Char) (place : p ≠ .escaped) :
    singleQuotes.scan p ((regexEscape.mark cs).flatMap regexWord) = pairedQuotes.scan p cs := by
  fun_induction regexEscape.mark cs generalizing p with
  | case1 => rfl
  | case2 c marks =>
    rw [flatMap_cons, flatMap_cons, flatMap_nil, append_nil]
    exact scan_escaped_regexWord place marks
  | case3 c unmarked =>
    have other : c ≠ '\\' := fun same =>
      Bool.false_ne_true ((regexEscape_reversible.of_not_marks unmarked).2 same)
    rw [flatMap_cons, flatMap_nil, append_nil]
    exact scan_regexWord other
  | case4 c d rest marks ih =>
    rw [flatMap_cons, flatMap_cons, ← append_assoc, scan_append,
      scan_cons, ← ih pairedQuotes_step_ne_escaped]
    exact congrArg (singleQuotes.scan · _) (scan_escaped_regexWord place marks)
  | case5 c d rest unmarked twice => cases twice
  | case6 c d rest unmarked single ih =>
    by_cases same : c = '\\'
    · -- the backslash stands before a wildcard, whose word begins with a dot
      subst same
      have wild : isWildcard d = true := (regexEscape_reversible.of_not_marks unmarked).2 rfl
      obtain ⟨word, begins⟩ : ∃ word, regexWord d = '.' :: word := by
        rw [isWildcard, Bool.or_eq_true, beq_iff_eq, beq_iff_eq] at wild
        rcases wild with rfl | rfl <;> exact ⟨_, rfl⟩
      have later := ih (pairedQuotes_step_ne_escaped (p := p) (c := '\\'))
      rw [regexEscape_reversible.mark_of_isWildcard wild, flatMap_cons, begins] at later
      rw [regexEscape_reversible.mark_of_isWildcard wild, flatMap_cons, flatMap_cons,
        begins, scan_cons, ← later]
      cases p with
      | escaped => exact absurd rfl place
      | _ => rfl
    · rw [flatMap_cons, scan_append, scan_regexWord same, ih pairedQuotes_step_ne_escaped]
      rfl

theorem encloses_eq_of_scan {k k' : Enclosure} {s s' : String}
    (same : k.scan .plain s.toList = k'.scan .plain s'.toList) : k.encloses s = k'.encloses s' := by
  rw [encloses, same, encloses]

theorem scan_of_writes {g : Char → List Char} {cs : List Char} {gs : List Glyph}
    (written : Writes cs gs) (backslash : g '\\' = ['\\'])
    (escaped : ∀ c, doubleQuotes.scan .escaped (g c) = .plain)
    (bare : ∀ c, c ≠ '\\' → c ≠ '"' → doubleQuotes.scan .plain (g c) = .plain) :
    doubleQuotes.scan .plain (cs.flatMap g) = .plain := by
  induction written with
  | nil => rfl
  | escaped c rest ih =>
    rw [flatMap_cons, backslash, flatMap_cons, singleton_append,
      Enclosure.scan_cons, Enclosure.scan_append]
    exact (congrArg (doubleQuotes.scan · _) (escaped c)).trans ih
  | bare backslash quote rest ih =>
    rw [flatMap_cons, Enclosure.scan_append, bare _ backslash quote, ih]

theorem encloses_quoteEscape (s : String) : doubleQuotes.encloses (quoteEscape.text s) = true := by
  have written := quoteEscape_reversible.writes_apply s.toList
  have plain : doubleQuotes.scan .plain (quoteEscape.apply s.toList) = .plain := by
    have words := scan_of_writes (g := fun c => [c]) written rfl (fun _ => rfl) fun c other quote => by
      simp [Enclosure.step, doubleQuotes, other, quote]
    rwa [flatMap_singleton'] at words
  rw [Enclosure.encloses, EscapeRule.text, String.toList_ofList, plain]

theorem encloses_regexOf (s : String) : doubleQuotes.encloses (regexOf s) = true := by
  have written := regexEscape_reversible.writes_apply s.toList
  have plain : doubleQuotes.scan .plain ((regexEscape.apply s.toList).flatMap regexWord) = .plain := by
    refine scan_of_writes written rfl (fun c => ?_) fun c other quote => ?_
    · unfold regexWord
      split_ifs <;> rfl
    · unfold regexWord
      split_ifs
      · rfl
      · rfl
      · simp [Enclosure.step, doubleQuotes, other, quote]
  rw [Enclosure.encloses, toList_regexOf, plain]

end Text

open Text

/-! ## The targets -/

theorem hasStar_eq (s : String) :
    hasStar s = (startsWithStar s || hasInnerStar s || endsWithStar s) := by
  unfold hasStar startsWithStar hasInnerStar endsWithStar
  cases s.toList with
  | nil => rfl
  | cons c cs =>
    rcases eq_nil_or_concat cs with rfl | ⟨inner, d, rfl⟩
    · rw [Bool.eq_iff_iff]
      simp [@eq_comm _ '*']
    · rw [Bool.eq_iff_iff]
      simp [@eq_comm _ '*', getLast?_cons, or_assoc]

theorem dropStars_eq_self {cs : List Char} (none : '*' ∉ cs) : dropStars cs = cs := by
  fun_induction dropStars cs <;> simp_all

theorem withoutStars_eq_self {s : String} (none : ¬ hasStar s = true) : withoutStars s = s := by
  rw [withoutStars, dropStars_eq_self (by simpa [hasStar] using none), String.ofList_toList]

namespace QRadar

/-- What stands between a field and a text. -/
def operatorOf (s : String) : String :=
  if hasStar s then " ilike " else "="

/-- What stands between the quotes for a text. -/
def bodyOf (s : String) : String :=
  plainQuoteEscape.text (if hasStar s then replaceChar '*' "%" s else s)

theorem start_item (field : Value) (s : String) (q : TextQuery) :
    (item dialect field (.text s)).start q =
      ((fieldText field).map fun name => some (name ++ operatorOf s ++ "'" ++ bodyOf s ++ "'"), q) := by
  unfold operatorOf bodyOf
  by_cases star : hasStar s = true
  · have like : item dialect field (.text s) =
        likeText dialect field s >>= fun text => pure (some text) := if_pos star
    rw [like, likeText, if_pos star, if_pos star]
    cases fieldText field with
    | error e => rfl
    | ok name =>
      simp only [String.append_assoc]
      rfl
  · have equal : item dialect field (.text s) = (do
        let name ← FaultM.ofExcept (fieldText field)
        return some (← FaultM.ofExcept
          (Dialect.fill dialect.item [name, ← operand dialect (.text s)]))) := if_neg star
    have filled : ∀ name text, Dialect.fill dialect.item [name, text] =
        .ok (name ++ ("=" ++ text)) := by
      intro name text
      simp [Dialect.fill, dialect, Pattern.between, Pattern.fill, Except.map]
    simp only [equal, filled, if_neg star]
    cases fieldText field with
    | error e => rfl
    | ok name =>
      simp only [String.append_assoc]
      rfl

theorem render_text (o : Options) (field : Value) (s : String) :
    (Target.qradar ⟨o, dialect⟩).render (.item field (.text s)) =
      ((fieldText field).map fun name => .text (name ++ operatorOf s ++ "'" ++ bodyOf s ++ "'"),
        .qradar ⟨o, dialect⟩) := by
  simp only [Target.render, Target.withRenderer, Target.lift, renderer, Renderer.render, start_item]
  cases fieldText field <;> rfl

theorem encloses_bodyOf (s : String) :
    singleQuotes.encloses (bodyOf s) = singleQuotes.encloses s := by
  refine encloses_eq_of_scan ?_
  rw [bodyOf, EscapeRule.text, String.toList_ofList, scan_plainQuoteEscape]
  split_ifs
  · exact scan_likePattern .plain s
  · rfl

end QRadar

namespace NetWitness

/-- What stands between a field and a text. -/
def operatorOf (s : String) : String :=
  if hasInnerStar s then " regex " else if hasStar s then " contains " else "="

/-- What stands between the quotes for a text. -/
def bodyOf (s : String) : String :=
  if hasInnerStar s then regexOf s else if hasStar s then withoutStars s else s

theorem valueText_text (s : String) : valueText dialect (.text s) = pure ("'" ++ (s ++ "'")) := rfl

theorem item_text (field : Value) (s : String) :
    item dialect field (.text s) =
      pure (some ("(" ++ field.display ++ operatorOf s ++ "'" ++ bodyOf s ++ "'" ++ ")")) := by
  unfold operatorOf bodyOf
  by_cases inner : hasInnerStar s = true
  · have regex : item dialect field (.text s) = (do
        return some (comparison field "regex" (← valueText dialect (.text (regexOf s))))) :=
      if_pos inner
    rw [regex, valueText_text, pure_bind, if_pos inner, if_pos inner,
      show " regex " = " " ++ "regex" ++ " " from rfl]
    simp only [comparison, String.append_assoc]
  by_cases star : hasStar s = true
  · have contains : item dialect field (.text s) = (do
        return some (comparison field "contains" (← valueText dialect (.text (withoutStars s))))) :=
      (if_neg inner).trans (if_pos star)
    rw [contains, valueText_text, pure_bind, if_neg inner, if_neg inner, if_pos star, if_pos star,
      show " contains " = " " ++ "contains" ++ " " from rfl]
    simp only [comparison, String.append_assoc]
  · have equal : item dialect field (.text s) = (do
        return some (← FaultM.ofExcept
          (Dialect.fill dialect.item [field.display, ← valueText dialect (.text s)]))) :=
      (if_neg inner).trans (if_neg star)
    have filled : Dialect.fill dialect.item [field.display, "'" ++ (s ++ "'")] =
        .ok ("(" ++ (field.display ++ ("=" ++ ("'" ++ (s ++ "'") ++ ")")))) := rfl
    rw [equal, valueText_text, pure_bind, filled, if_neg inner, if_neg inner, if_neg star,
      if_neg star]
    simp only [String.append_assoc]
    rfl

theorem render_text (o : Options) (field : Value) (s : String) :
    (Target.netwitness ⟨o, dialect⟩).render (.item field (.text s)) =
      (.ok (.text ("(" ++ field.display ++ operatorOf s ++ "'" ++ bodyOf s ++ "'" ++ ")")),
        .netwitness ⟨o, dialect⟩) := by
  simp only [Target.render, Target.withRenderer, Target.lift, renderer, Renderer.render, item_text]
  rfl

/-- In a regular expression every backslash is escaped, so that it escapes no quote; otherwise the
value is left as it is, but for its stars. -/
theorem encloses_bodyOf (s : String) : singleQuotes.encloses (bodyOf s) =
    if hasInnerStar s then pairedQuotes.encloses s else singleQuotes.encloses (withoutStars s) := by
  unfold bodyOf
  split_ifs with inner star
  · refine encloses_eq_of_scan ?_
    rw [toList_regexOf, EscapeRule.apply_eq_mark fun _ => rfl]
    exact scan_regexEscape s.toList (by decide)
  · rfl
  · rw [withoutStars_eq_self star]

end NetWitness

/-- A text with a star is escaped between its double quotes, another one is not. -/
theorem DefenderAtp.encloses_patternOf (s : String) :
    doubleQuotes.encloses (patternOf s).2 = (hasStar s || doubleQuotes.encloses s) := by
  rw [hasStar_eq]
  by_cases inner : hasInnerStar s = true
  · simp [patternOf, inner, encloses_regexOf]
  · cases first : startsWithStar s <;> cases last : endsWithStar s <;>
      simp [patternOf, inner, first, last, clean, encloses_quoteEscape]

namespace Target

/-- **Comparisons between delimiters**: QRadar, NetWitness and Defender write a comparison with any text
as an operator and a body between two delimiters. For QRadar every delimiter in the body is escaped
exactly if it is so in the value already. For NetWitness the same is true of the value without its stars,
but if a star is inside the value its quotes have to be doubled. Defender escapes the values with a star;
for the others it is as with QRadar. -/
theorem render_encloses (o : Options) (field : Value) (s : String) :
    (∃ operator body, operator ∈ ["=", " ilike "] ∧
      (Target.qradar ⟨o, QRadar.dialect⟩).render (.item field (.text s)) =
        ((QRadar.fieldText field).map fun name => .text (name ++ operator ++ "'" ++ body ++ "'"),
          .qradar ⟨o, QRadar.dialect⟩) ∧
      singleQuotes.encloses body = singleQuotes.encloses s) ∧
    (∃ operator body, operator ∈ ["=", " contains ", " regex "] ∧
      (Target.netwitness ⟨o, NetWitness.dialect⟩).render (.item field (.text s)) =
        (.ok (.text ("(" ++ field.display ++ operator ++ "'" ++ body ++ "'" ++ ")")),
          .netwitness ⟨o, NetWitness.dialect⟩) ∧
      singleQuotes.encloses body = if hasInnerStar s then pairedQuotes.encloses s
        else singleQuotes.encloses (withoutStars s)) ∧
    ∃ operator body, operator ∈ ["==", "startswith", "endswith", "contains", "matches regex"] ∧
      DefenderAtp.valuePattern (.text s) = .ok (operator ++ " \"" ++ body ++ "\"") ∧
      doubleQuotes.encloses body = (hasStar s || doubleQuotes.encloses s) := by
  refine ⟨⟨_, _, ?_, QRadar.render_text o field s, QRadar.encloses_bodyOf s⟩,
    ⟨_, _, ?_, NetWitness.render_text o field s, NetWitness.encloses_bodyOf s⟩,
    ⟨(DefenderAtp.patternOf s).1, (DefenderAtp.patternOf s).2, ?_, rfl,
      DefenderAtp.encloses_patternOf s⟩⟩
  · unfold QRadar.operatorOf
    split_ifs <;> simp
  · unfold NetWitness.operatorOf
    split_ifs <;> simp
  · unfold DefenderAtp.patternOf
    split_ifs <;> simp

/-- A delimiter in the value that none of the three escapes. -/
theorem render_leaves_quotes :
    (Target.qradar ⟨{}, QRadar.dialect⟩).render (.item (.text "f") (.text "it's")) =
      (.ok (.text "f='it's'"), .qradar ⟨{}, QRadar.dialect⟩) ∧
    (Target.netwitness ⟨{}, NetWitness.dialect⟩).render (.item (.text "f") (.text "it's")) =
      (.ok (.text "(f='it's')"), .netwitness ⟨{}, NetWitness.dialect⟩) ∧
    singleQuotes.encloses "it's" = false ∧
    DefenderAtp.valuePattern (.text "a\"b") = .ok "== \"a\"b\"" ∧
    doubleQuotes.encloses "a\"b" = false := by
  refine ⟨?_, ?_, ?_, ?_, ?_⟩ <;> rfl

end Target

end SigmaQuery
