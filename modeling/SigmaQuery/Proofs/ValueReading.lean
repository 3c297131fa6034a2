import SigmaQuery.Target.Basic

/-!
# Reading values back

The value of a rule and the text that a target writes for it say the same in two ways: both are read
as a row of *glyphs*, which are literal characters and wildcards. In a rule a backslash matters only
right before a wildcard. In a written text it matters before every character.
-/

namespace SigmaQuery

open List Elastic.QueryString

namespace Text

/-! ## Two ways to read -/

/-- A character that stands for itself, or a wildcard. -/
inductive Glyph where
  | literal (c : Char)
  | wildcard (c : Char)
deriving DecidableEq, Repr

/-- The character is a wildcard, unless a backslash takes this meaning away. -/
def isWildcard (c : Char) : Bool :=
  c == '*' || c == '?'

variable {c d : Char} {cs : List Char} {gs : List Glyph}

theorem forall_isWildcard {P : Char → Prop} (star : P '*') (mark : P '?') (c : Char)
    (wild : isWildcard c = true) : P c := by
  rw [isWildcard, Bool.or_eq_true, beq_iff_eq, beq_iff_eq] at wild
  rcases wild with rfl | rfl
  · exact star
  · exact mark

theorem ne_backslash_of_isWildcard (wild : isWildcard c = true) : c ≠ '\\' := by
  rintro rfl
  exact absurd wild (by decide)

namespace Glyph

/-- What a bare character stands for. -/
def ofBare (c : Char) : Glyph :=
  if isWildcard c then .wildcard c else .literal c

/-- The glyph is a wildcard. -/
def isWild : Glyph → Bool
  | .literal _ => false
  | .wildcard _ => true

theorem ofBare_of_isWildcard {c : Char} (h : isWildcard c = true) : ofBare c = .wildcard c := by
  rw [ofBare, if_pos h]

theorem ofBare_of_not_isWildcard {c : Char} (h : isWildcard c = false) : ofBare c = .literal c := by
  rw [ofBare, h]
  rfl

theorem isWild_ofBare (c : Char) : (ofBare c).isWild = isWildcard c := by
  unfold ofBare
  cases h : isWildcard c <;> rfl

end Glyph

/-- Reads the value of a rule. A backslash right before a wildcard makes it literal, and every other
backslash is literal itself. -/
def readValue : List Char → List Glyph
  | [] => []
  | [c] => [.ofBare c]
  | c :: d :: rest =>
    if c == '\\' && isWildcard d then .literal d :: readValue rest
    else .ofBare c :: readValue (d :: rest)

/-- Reads a written text. A backslash makes the next character literal. -/
def readWritten : List Char → List Glyph
  | [] => []
  | [c] => [.ofBare c]
  | c :: d :: rest =>
    if c == '\\' then .literal d :: readWritten rest else .ofBare c :: readWritten (d :: rest)

/-- The bare characters of a written text: those that are neither behind a backslash nor a backslash
before another character. -/
def bareChars : List Char → List Char
  | [] => []
  | [c] => [c]
  | c :: d :: rest => if c == '\\' then bareChars rest else c :: bareChars (d :: rest)

theorem readValue_escaped (wild : isWildcard d = true) (rest : List Char) :
    readValue ('\\' :: d :: rest) = .literal d :: readValue rest :=
  if_pos wild

theorem readValue_backslash (plain : isWildcard d = false) (rest : List Char) :
    readValue ('\\' :: d :: rest) = .literal '\\' :: readValue (d :: rest) :=
  if_neg (ne_true_of_eq_false plain)

theorem readValue_cons (other : c ≠ '\\') (rest : List Char) :
    readValue (c :: rest) = .ofBare c :: readValue rest := by
  cases rest with
  | nil => rfl
  | cons d rest => exact if_neg (by simp [other])

theorem readWritten_cons (other : c ≠ '\\') (rest : List Char) :
    readWritten (c :: rest) = .ofBare c :: readWritten rest := by
  cases rest with
  | nil => rfl
  | cons d rest => exact if_neg (by simp [other])

theorem bareChars_cons (other : c ≠ '\\') (rest : List Char) :
    bareChars (c :: rest) = c :: bareChars rest := by
  cases rest with
  | nil => rfl
  | cons d rest => exact if_neg (by simp [other])

/-! ## Texts that fit between quotes -/

/-- The text writes the glyphs one after another, bare or behind a backslash, and leaves no quote and
no backslash bare. -/
inductive Writes : List Char → List Glyph → Prop
  | nil : Writes [] []
  | escaped (c : Char) {cs : List Char} {gs : List Glyph} (rest : Writes cs gs) :
      Writes ('\\' :: c :: cs) (.literal c :: gs)
  | bare {c : Char} {cs : List Char} {gs : List Glyph} (backslash : c ≠ '\\') (quote : c ≠ '"')
      (rest : Writes cs gs) : Writes (c :: cs) (.ofBare c :: gs)

theorem Writes.readWritten_eq (h : Writes cs gs) : readWritten cs = gs := by
  induction h with
  | nil => rfl
  | escaped c rest ih => simp [readWritten, ih]
  | bare backslash quote rest ih => rw [readWritten_cons backslash, ih]

theorem Writes.not_mem_bareChars (h : Writes cs gs) : '"' ∉ bareChars cs ∧ '\\' ∉ bareChars cs := by
  induction h with
  | nil => exact ⟨not_mem_nil, not_mem_nil⟩
  | escaped c rest ih => simpa [bareChars] using ih
  | bare backslash quote rest ih =>
    rw [bareChars_cons backslash, mem_cons, mem_cons, not_or, not_or]
    exact ⟨⟨quote.symm, ih.1⟩, backslash.symm, ih.2⟩

theorem Writes.tail_of_wildcard (h : Writes (c :: cs) (.wildcard d :: gs)) : Writes cs gs := by
  generalize eq : Glyph.wildcard d :: gs = whole at h
  cases h with
  | escaped => cases eq
  | bare backslash quote rest =>
    rw [(List.cons.inj eq).2]
    exact rest

/-! ## Escaping can be undone -/

namespace EscapeRule

variable {r : EscapeRule}

/-- The glyph is written down, not left out. -/
def keeps (r : EscapeRule) : Glyph → Bool
  | .literal c => !r.dropped c
  | .wildcard _ => true

/-- A rule whose work can be undone. It escapes quotes, and backslashes that stand before no wildcard.
It leaves wildcards alone, and what it leaves out it does not escape before. -/
structure Reversible (r : EscapeRule) : Prop where
  backslash : r.backslash = true
  quote : r.special '"' = true
  backslash_plain : r.special '\\' = false
  wildcard : ∀ c, isWildcard c = true → r.special c = false ∧ r.doubled c = false ∧
    r.dropped c = false
  dropped : ∀ c, r.dropped c = true → r.special c = false ∧ r.doubled c = false ∧ c ≠ '\\'

namespace Reversible

variable (h : r.Reversible)
include h

theorem marks_iff (c : Char) (rest : List Char) :
    r.marks c rest = true ↔ r.special c = true ∨ c = '\\' ∧ startsWildcard rest = false := by
  simp [marks, h.backslash]

variable {c : Char} {rest cs : List Char} {gs : List Glyph}

theorem of_marks (marked : r.marks c rest = true) : isWildcard c = false ∧ r.dropped c = false := by
  rcases (h.marks_iff c rest).mp marked with special | ⟨rfl, -⟩
  · constructor
    · cases wild : isWildcard c with
      | false => rfl
      | true => rw [(h.wildcard c wild).1] at special; cases special
    · cases dropped : r.dropped c with
      | false => rfl
      | true => rw [(h.dropped c dropped).1] at special; cases special
  · refine ⟨rfl, ?_⟩
    cases dropped : r.dropped '\\' with
    | false => rfl
    | true => exact absurd rfl (h.dropped '\\' dropped).2.2

theorem readValue_of_marks (marked : r.marks c rest = true) :
    readValue (c :: rest) = .literal c :: readValue rest := by
  by_cases same : c = '\\'
  · subst same
    rcases (h.marks_iff '\\' rest).mp marked with special | ⟨-, plain⟩
    · rw [h.backslash_plain] at special
      cases special
    · cases rest with
      | nil => rfl
      | cons d rest => exact readValue_backslash plain rest
  · rw [readValue_cons same, Glyph.ofBare_of_not_isWildcard (h.of_marks marked).1]

theorem of_not_marks (unmarked : ¬ r.marks c rest = true) :
    c ≠ '"' ∧ (c = '\\' → startsWildcard rest = true) := by
  rw [h.marks_iff, not_or] at unmarked
  constructor
  · rintro rfl
    exact unmarked.1 h.quote
  · intro same
    cases starts : startsWildcard rest with
    | true => rfl
    | false => exact absurd ⟨same, starts⟩ unmarked.2

theorem of_doubled (doubled : r.doubled c = true) : isWildcard c = false ∧ r.dropped c = false := by
  constructor
  · cases wild : isWildcard c with
    | false => rfl
    | true => rw [(h.wildcard c wild).2.1] at doubled; cases doubled
  · cases dropped : r.dropped c with
    | false => rfl
    | true => rw [(h.dropped c dropped).2.1] at doubled; cases doubled

theorem mark_of_isWildcard {d : Char} (wild : isWildcard d = true) (rest : List Char) :
    r.mark (d :: rest) = d :: r.mark rest := by
  obtain ⟨special, doubled, -⟩ := h.wildcard d wild
  have unmarked : ∀ cs, r.marks d cs = false := by
    intro cs
    simp [marks, special, ne_backslash_of_isWildcard wild]
  cases rest with
  | nil => simp [mark, unmarked]
  | cons c rest => simp [mark, unmarked, doubled]

theorem writes_bare (quote : c ≠ '"') (other : c ≠ '\\')
    (rest : Writes (cs.filter (!r.dropped ·)) (gs.filter r.keeps)) :
    Writes ((c :: cs).filter (!r.dropped ·)) ((.ofBare c :: gs).filter r.keeps) := by
  have written := Writes.bare other quote rest
  cases wild : isWildcard c with
  | true =>
    have kept : r.dropped c = false := (h.wildcard c wild).2.2
    rw [Glyph.ofBare_of_isWildcard wild] at written ⊢
    rwa [filter_cons_of_pos (by rw [kept]; rfl), filter_cons_of_pos rfl]
  | false =>
    rw [Glyph.ofBare_of_not_isWildcard wild] at written ⊢
    cases dropped : r.dropped c with
    | true => simpa [dropped, keeps] using rest
    | false => simpa [dropped, keeps] using written

theorem writes_escaped (kept : r.dropped c = false)
    (rest : Writes (cs.filter (!r.dropped ·)) (gs.filter r.keeps)) :
    Writes (('\\' :: c :: cs).filter (!r.dropped ·)) ((.literal c :: gs).filter r.keeps) := by
  have stays : r.dropped '\\' = false := by
    cases dropped : r.dropped '\\' with
    | false => rfl
    | true => exact absurd rfl (h.dropped '\\' dropped).2.2
  simpa [stays, kept, keeps] using Writes.escaped c rest

/-- An escaped value is read back as the value, without what the rule leaves out, and it fits between
quotes. -/
theorem writes_apply (cs : List Char) : Writes (r.apply cs) ((readValue cs).filter r.keeps) := by
  unfold apply
  fun_induction r.mark cs with
  | case1 => exact .nil
  | case2 c marked =>
    rw [show readValue [c] = .literal c :: readValue [] from h.readValue_of_marks marked]
    exact h.writes_escaped (h.of_marks marked).2 .nil
  | case3 c unmarked =>
    obtain ⟨quote, before⟩ := h.of_not_marks unmarked
    have other : c ≠ '\\' := fun same => Bool.false_ne_true (before same)
    exact h.writes_bare quote other .nil
  | case4 c d rest marked ih =>
    rw [h.readValue_of_marks marked]
    exact h.writes_escaped (h.of_marks marked).2 ih
  | case5 c d rest unmarked twice ih =>
    rw [Bool.and_eq_true, beq_iff_eq] at twice
    obtain ⟨doubled, same⟩ := twice
    subst same
    obtain ⟨quote, before⟩ := h.of_not_marks unmarked
    obtain ⟨plain, kept⟩ := h.of_doubled doubled
    have other : d ≠ '\\' := by
      rintro rfl
      exact Bool.false_ne_true (before rfl)
    have first := h.writes_escaped kept (h.writes_bare quote other ih)
    rw [readValue_cons other, readValue_cons other]
    rwa [← Glyph.ofBare_of_not_isWildcard plain] at first
  | case6 c d rest unmarked single ih =>
    obtain ⟨quote, before⟩ := h.of_not_marks unmarked
    by_cases same : c = '\\'
    · -- the backslash stays in front of the wildcard, and both ways to read take the two together
      subst same
      have wild : isWildcard d = true := before rfl
      rw [h.mark_of_isWildcard wild] at ih ⊢
      rw [readValue_cons (ne_backslash_of_isWildcard wild), Glyph.ofBare_of_isWildcard wild] at ih
      have kept : r.dropped d = false := (h.wildcard d wild).2.2
      rw [filter_cons_of_pos (by rw [kept]; rfl), filter_cons_of_pos rfl] at ih
      rw [readValue_escaped wild]
      exact h.writes_escaped kept ih.tail_of_wildcard
    · rw [readValue_cons same]
      exact h.writes_bare quote same ih

end Reversible

end EscapeRule

theorem quoteEscape_reversible : quoteEscape.Reversible where
  backslash := rfl
  quote := rfl
  backslash_plain := rfl
  wildcard := forall_isWildcard (by decide) (by decide)
  dropped c dropped := by cases dropped

/-! ## Wildcards -/

/-- The search for a wildcard agrees with the reading of a value, also behind a backslash. -/
theorem hasWildcard_go_eq (cs : List Char) :
    hasWildcard.go false cs = (readValue cs).any Glyph.isWild ∧
      hasWildcard.go true cs = (readValue ('\\' :: cs)).any Glyph.isWild := by
  induction cs with
  | nil => exact ⟨rfl, rfl⟩
  | cons c rest ih =>
    by_cases same : c = '\\'
    · subst same
      refine ⟨ih.2, ?_⟩
      rw [readValue_backslash rfl, any_cons]
      exact ih.2
    · have onward : hasWildcard.go (c == '\\') rest = (readValue rest).any Glyph.isWild := by
        rw [beq_false_of_ne same]
        exact ih.1
      constructor
      · rw [readValue_cons same, any_cons, Glyph.isWild_ofBare, ← onward]
        rfl
      · cases wild : isWildcard c with
        | true =>
          rw [readValue_escaped wild, any_cons, ← onward]
          rfl
        | false =>
          rw [readValue_backslash wild, readValue_cons same, any_cons, any_cons,
            Glyph.isWild_ofBare, wild, ← onward]
          rfl

theorem hasWildcard_eq (s : String) : hasWildcard s = (readValue s.toList).any Glyph.isWild :=
  (hasWildcard_go_eq s.toList).1

end Text

open Text

/-! ## The targets -/

theorem Graylog.escape_reversible : Graylog.escape.Reversible where
  backslash := rfl
  quote := by decide
  backslash_plain := by decide
  wildcard := forall_isWildcard (by decide) (by decide)
  dropped c dropped := by cases dropped

theorem Elastic.QueryString.escape_reversible : escape.Reversible where
  backslash := rfl
  quote := by decide
  backslash_plain := by decide
  wildcard := forall_isWildcard (by decide) (by decide)
  dropped c dropped := by
    have bracket : c = '<' ∨ c = '>' := by simpa [escape] using dropped
    rcases bracket with rfl | rfl <;> decide

namespace Target

theorem cleanValue_of_reversible {t : Target} {r : EscapeRule} (h : r.Reversible)
    (cleans : ∀ s, t.cleanValue (.text s) = .ok (.text (r.text s))) (s : String) :
    ∃ body, t.cleanValue (.text s) = .ok (.text body) ∧
      readWritten body.toList = (readValue s.toList).filter r.keeps ∧
      '"' ∉ bareChars body.toList ∧ '\\' ∉ bareChars body.toList := by
  have written : Writes (r.text s).toList ((readValue s.toList).filter r.keeps) := by
    rw [EscapeRule.text, String.toList_ofList]
    exact h.writes_apply s.toList
  exact ⟨r.text s, cleans s, written.readWritten_eq, written.not_mem_bareChars⟩

/-- The targets that write a text in quotes, where a backslash takes the meaning from whatever is
behind it. -/
def quoting : List TargetKind :=
  [.splunk, .splunkXml, .sumologic, .logpoint, .graylog, .esQs]

/-- The glyph can be written for the target. A query string has no angle brackets. -/
def keepsGlyph (k : TargetKind) (g : Glyph) : Bool :=
  !(k == .esQs && (g == .literal '<' || g == .literal '>'))

theorem keeps_queryString : escape.keeps = keepsGlyph .esQs := by
  funext g
  rw [Bool.eq_iff_iff]
  cases g <;> simp [EscapeRule.keeps, keepsGlyph, escape]

theorem keeps_eq_keepsGlyph {r : EscapeRule} {k : TargetKind} (other : k ≠ .esQs)
    (all : ∀ c, r.dropped c = false) : r.keeps = keepsGlyph k := by
  funext g
  rw [keepsGlyph, beq_false_of_ne other, Bool.false_and]
  cases g with
  | literal c => rw [EscapeRule.keeps, all]
  | wildcard c => rfl

theorem exists_reversible {t : Target} (h : t.kind ∈ quoting) :
    ∃ r : EscapeRule, r.Reversible ∧ r.keeps = keepsGlyph t.kind ∧
      ∀ s, t.cleanValue (.text s) = .ok (.text (r.text s)) := by
  cases t with
  | splunk | splunkXml | sumologic | logpoint =>
    exact ⟨_, quoteEscape_reversible, keeps_eq_keepsGlyph nofun fun _ => rfl, fun _ => rfl⟩
  | graylog =>
    exact ⟨_, Graylog.escape_reversible, keeps_eq_keepsGlyph nofun fun _ => rfl, fun _ => rfl⟩
  | esQs => exact ⟨_, escape_reversible, keeps_queryString, fun _ => rfl⟩
  | _ => simp [quoting, kind] at h

/-- A cleaned value is read back as the glyphs of the value. No quote in it is bare, and it does not
end in half an escape. A value is searched for in a keyword field if a wildcard is read in it. -/
theorem cleanValue_reading (t : Target) (h : t.kind ∈ quoting) (s : String) :
    (∃ body, t.cleanValue (.text s) = .ok (.text body) ∧
      readWritten body.toList = (readValue s.toList).filter (keepsGlyph t.kind) ∧
      '"' ∉ bareChars body.toList ∧ '\\' ∉ bareChars body.toList) ∧
    Elastic.Keywords.hasWild (.text s) = (readValue s.toList).any Glyph.isWild := by
  obtain ⟨r, reversible, keeps, cleans⟩ := exists_reversible h
  rw [← keeps]
  exact ⟨cleanValue_of_reversible reversible cleans s, hasWildcard_eq s⟩

/-- The first backslash is literal and the second makes the star literal. The angle bracket is left
out, so that the wildcard follows the quote. -/
theorem cleanValue_reading_queryString :
    (∃ body, (Target.esQs (.new {})).cleanValue (.text "\\\\*&&\"<?\\") = .ok (.text body) ∧
      readWritten body.toList =
        [.literal '\\', .literal '*', .literal '&', .literal '&', .literal '"', .wildcard '?',
          .literal '\\'] ∧
      '"' ∉ bareChars body.toList ∧ '\\' ∉ bareChars body.toList) ∧
    Elastic.Keywords.hasWild (.text "\\\\*&&\"<?\\") = true :=
  cleanValue_reading (.esQs (.new {})) (by decide) "\\\\*&&\"<?\\"

end Target

end SigmaQuery
