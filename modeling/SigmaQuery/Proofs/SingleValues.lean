import Mathlib.Data.List.Basic
import SigmaQuery.Proofs.Computation
import SigmaQuery.Proofs.QuotedValues

/-!
# Lists of one value

A list of one value and the value itself ask for the same. NetWitness compares with the same operator in
both forms, but a list escapes a value with a star at an end, which a single value does not. PowerShell
ties a single value to its field, and a value of a list only if it has a star.
-/

namespace SigmaQuery

open FaultM Text List Target PowerShell EscapeRule

namespace Text

/-! ## Escaping -/

namespace EscapeRule

variable {r : EscapeRule}

theorem sublist_mark (r : EscapeRule) (cs : List Char) : cs.Sublist (r.mark cs) := by
  fun_induction r.mark cs <;> simp_all

theorem count_mark (r : EscapeRule) {x : Char} (other : x ≠ '\\') (cs : List Char) :
    (r.mark cs).count x = cs.count x := by
  fun_induction r.mark cs <;> simp_all [count_cons, other.symm]

theorem mark_cons (single : ∀ c, r.doubled c = false) (c : Char) (rest : List Char) :
    r.mark (c :: rest) = if r.marks c rest then '\\' :: c :: r.mark rest else c :: r.mark rest := by
  cases rest with
  | nil => rw [mark, mark]
  | cons d rest => simp [mark, single]

end EscapeRule

/-! ## Stars -/

variable {cs : List Char}

theorem dropStars_concat (none : '*' ∉ cs) : dropStars (cs ++ ['*']) = cs := by
  induction cs with
  | nil => rfl
  | cons c rest ih =>
    obtain ⟨here, later⟩ := not_or.mp (mt mem_cons.mpr none)
    simp [dropStars, ih later, Ne.symm here]

theorem exists_mark_concat (none : '*' ∉ cs) :
    ∃ marked, regexEscape.mark (cs ++ ['*']) = marked ++ ['*'] ∧ '*' ∉ marked := by
  induction cs with
  | nil => exact ⟨[], by decide, not_mem_nil⟩
  | cons c rest ih =>
    obtain ⟨here, later⟩ := not_or.mp (mt mem_cons.mpr none)
    obtain ⟨marked, same, free⟩ := ih later
    rw [cons_append, mark_cons fun _ => rfl, same]
    split
    · exact ⟨'\\' :: c :: marked, rfl, by simp [here, free]⟩
    · exact ⟨c :: marked, rfl, by simp [here, free]⟩

/-- Leaving out a star at the end takes the same from a text and from its escaped form. -/
theorem exists_dropped (inner : '*' ∉ cs.dropLast) : ∃ dropped, cs = dropStars cs ++ dropped ∧
    regexEscape.mark cs = dropStars (regexEscape.mark cs) ++ dropped := by
  rcases eq_nil_or_concat cs with rfl | ⟨init, c, rfl⟩
  · exact ⟨[], rfl, rfl⟩
  · rw [concat_eq_append, dropLast_concat] at inner
    rw [concat_eq_append]
    by_cases star : c = '*'
    · subst star
      obtain ⟨marked, same, free⟩ := exists_mark_concat inner
      refine ⟨['*'], ?_, ?_⟩
      · rw [dropStars_concat inner]
      · rw [same, dropStars_concat free]
    · have none : '*' ∉ init ++ [c] := by simp [inner, Ne.symm star]
      have marked : '*' ∉ regexEscape.mark (init ++ [c]) := by
        rwa [← count_eq_zero, count_mark _ (by decide), count_eq_zero]
      exact ⟨[], by rw [dropStars_eq_self none, append_nil],
        by rw [dropStars_eq_self marked, append_nil]⟩

theorem dropStars_mark_iff (inner : '*' ∉ cs.dropLast) :
    dropStars (regexEscape.mark cs) = dropStars cs ↔ regexEscape.mark cs = cs := by
  obtain ⟨dropped, same, marked⟩ := exists_dropped inner
  constructor
  · intro equal
    rw [marked, equal, ← same]
  · intro equal
    rw [equal]

theorem length_dropStars_le (inner : '*' ∉ cs.dropLast) :
    (dropStars cs).length ≤ (dropStars (regexEscape.mark cs)).length := by
  obtain ⟨dropped, same, marked⟩ := exists_dropped inner
  have longer := (regexEscape.sublist_mark cs).length_le
  rw [marked, length_append] at longer
  have whole := congrArg List.length same
  rw [length_append] at whole
  omega

/-- The characters that are not escaped twice. Behind a star in front the backslash of an escaped
character is left out with the star, unless the character is a backslash itself. -/
def exposed : List Char → List Char
  | '*' :: c :: rest => if regexEscape.special c then rest else c :: rest
  | cs => cs

theorem dropStars_cons {d : Char} (other : d ≠ '*') (rest : List Char) :
    dropStars (d :: rest) = d :: dropStars rest := by
  simp [dropStars, other]

theorem dropStars_star {d : Char} (other : d ≠ '\\') (rest : List Char) :
    dropStars ('*' :: d :: rest) = dropStars (d :: rest) := by
  simp [dropStars, other]

theorem dropStars_mark_star (d : Char) {rest : List Char} (inner : '*' ∉ (d :: rest).dropLast) :
    dropStars (regexEscape.mark ('*' :: d :: rest)) = dropStars ('*' :: d :: rest) ↔
      regexEscape.mark (exposed ('*' :: d :: rest)) = exposed ('*' :: d :: rest) := by
  have later : '*' ∉ rest.dropLast := by
    cases rest <;> simp_all
  have marked := mark_cons (r := regexEscape) (fun _ => rfl) d rest
  rw [regexEscape_reversible.mark_of_isWildcard rfl, exposed]
  by_cases special : regexEscape.special d = true
  · have noStar : d ≠ '*' := by
      rintro rfl
      cases special
    have noBackslash : d ≠ '\\' := by
      rintro rfl
      cases special
    -- the star takes the backslash of the escaped character with it
    rw [if_pos special, marked, if_pos (by simp [marks, special]), dropStars,
      dropStars_star noBackslash, dropStars_cons noStar, dropStars_cons noStar, cons_inj_right]
    exact dropStars_mark_iff later
  · rw [if_neg special]
    by_cases backslash : d = '\\'
    · subst backslash
      rw [marked, dropStars]
      split_ifs with alone
      · -- one backslash of two is left, so both sides are false by their lengths
        rw [dropStars, dropStars_cons (by decide)]
        constructor
        · intro same
          have longer := length_dropStars_le later
          rw [← same, length_cons] at longer
          omega
        · intro same
          have longer := (regexEscape.sublist_mark rest).length_le
          have lengths := congrArg List.length same
          rw [length_cons, length_cons, length_cons] at lengths
          omega
      · rw [dropStars, cons_inj_right]
        exact dropStars_mark_iff later
    · have unmarked : ¬ regexEscape.marks d rest = true := by
        simp [marks, special, backslash]
      rw [dropStars_star backslash, ← dropStars_mark_iff inner, marked, if_neg unmarked,
        dropStars_star backslash]

/-- Without a star inside, escaping makes a difference to the text without its stars exactly if a
character is escaped, other than one behind a star in front. -/
theorem withoutStars_escaped_iff {s : String} (inner : hasInnerStar s = false) :
    withoutStars (regexEscape.text s) = withoutStars s ↔
      regexEscape.apply (exposed s.toList) = exposed s.toList := by
  have plain : ∀ cs, regexEscape.apply cs = regexEscape.mark cs :=
    apply_eq_mark fun _ => rfl
  have none : '*' ∉ (s.toList.drop 1).dropLast := by
    simpa [hasInnerStar] using inner
  rw [withoutStars, withoutStars, text, String.toList_ofList, String.ofList_inj, plain, plain]
  cases begun : s.toList with
  | nil => exact iff_of_true rfl rfl
  | cons c rest =>
    rw [begun, drop_one, tail_cons] at none
    by_cases star : c = '*'
    · subst star
      cases rest with
      | nil => exact iff_of_true (by decide) (by decide)
      | cons d rest => exact dropStars_mark_star d none
    · have whole : '*' ∉ (c :: rest).dropLast := by
        cases rest <;> simp_all [Ne.symm star]
      rw [show exposed (c :: rest) = c :: rest by simp [exposed, star]]
      exact dropStars_mark_iff whole

end Text

/-! ## NetWitness -/

namespace NetWitness

/-- The way to search for a text. -/
def way (s : String) : Way :=
  if hasInnerStar s then .regex else if hasStar s then .contains else .equal

def Way.sign : Way → String
  | .equal => "="
  | .contains => "contains"
  | .regex => "regex"

/-- What stands between the quotes for a text in a list. -/
def listBodyOf (s : String) : String :=
  if hasInnerStar s then regexOf s else if hasStar s then withoutStars (regexEscape.text s) else s

theorem listBodyOf_iff (s : String) : listBodyOf s = bodyOf s ↔
    (hasStar s = true → hasInnerStar s = false →
      regexEscape.apply (exposed s.toList) = exposed s.toList) := by
  unfold listBodyOf bodyOf
  cases inner : hasInnerStar s with
  | true => simp
  | false =>
    cases star : hasStar s with
    | true => simpa using withoutStars_escaped_iff inner
    | false => simp

theorem operatorOf_eq (s : String) :
    ∃ blank ∈ ["", " "], operatorOf s = blank ++ (way s).sign ++ blank := by
  unfold operatorOf way
  split_ifs
  · exact ⟨" ", by simp, rfl⟩
  · exact ⟨" ", by simp, rfl⟩
  · exact ⟨"", by simp, rfl⟩

theorem wayOf_text (s : String) : wayOf (.text s) = (way s, .text (listBodyOf s)) := by
  unfold way listBodyOf
  by_cases inner : hasInnerStar s = true
  · rw [wayOf, if_pos inner, if_pos inner, if_pos inner]
  · have star : (endsWithStar s || startsWithStar s) = hasStar s := by
      simpa [inner, Bool.or_comm] using (hasStar_eq s).symm
    rw [wayOf, if_neg inner, if_neg inner, if_neg inner, star]
    split_ifs <;> rfl

theorem itemList_text (field : Value) (s : String) :
    itemList dialect field (.list [.text s]) = pure (some ("(" ++ field.display ++ " " ++
      (way s).sign ++ " " ++ "'" ++ listBodyOf s ++ "'" ++ ")")) := by
  have parts : ∀ w, inWay dialect w [.text s] =
      pure (if way s = w then ["'" ++ (listBodyOf s ++ "'")] else []) := by
    intro w
    rw [inWay, map_singleton, wayOf_text]
    by_cases this : way s = w
    · simp only [this, filter_singleton, if_true]
      rfl
    · simp only [this, filter_singleton, if_false]
      rfl
  have elements : (Value.list [.text s]).elements = .ok [.text s] := rfl
  rw [itemList, elements, ofExcept_ok, pure_bind, parts, pure_bind, parts, pure_bind, parts, pure_bind]
  have joined : ∀ operator, ("(" ++ " || ".intercalate
      [field.display ++ " " ++ operator ++ " " ++ ", ".intercalate ["'" ++ (listBodyOf s ++ "'")]] ++
        ")") = "(" ++ field.display ++ " " ++ operator ++ " " ++ "'" ++ listBodyOf s ++ "'" ++ ")" := by
    intro operator
    simp only [String.intercalate_singleton, String.append_assoc]
  rw [← joined]
  cases way s <;> rfl

theorem render_list (o : Options) (field : Value) (s : String) :
    ((netwitness ⟨o, dialect⟩).render (.item field (.list [.text s]))).1 = .ok (.text ("(" ++
      field.display ++ " " ++ (way s).sign ++ " " ++ "'" ++ listBodyOf s ++ "'" ++ ")")) := by
  have list : item dialect field (.list [.text s]) = itemList dialect field (.list [.text s]) := rfl
  simp only [render, withRenderer, lift, renderer, Renderer.render, list, itemList_text]
  rfl

end NetWitness

/-! ## PowerShell -/

namespace PowerShell

/-- What is compared with a text. -/
def testOf (k : String) : String :=
  if isEventId (.text k) then "$_.ID -eq " else "$_.message -match "

/-- What stands between the quotes for a field with a text. -/
def bodyOf (k s : String) : String :=
  escape.text (if isEventId (.text k) then s else k ++ ".*" ++ starPattern s)

/-- What stands between the quotes for a field with a text in a list. -/
def listBodyOf (k s : String) : String :=
  escape.text (if isEventId (.text k) then s
    else if hasStar s then k ++ ".*" ++ starPattern s else s)

theorem starPattern_eq_self {s : String} (h : hasStar s = false) : starPattern s = s := by
  have none : '*' ∉ s.toList := by simpa [hasStar] using h
  rw [starPattern, replaceChar, replaceEach, ← String.toList_inj, String.toList_ofList]
  generalize s.toList = cs at none
  induction cs with
  | nil => rfl
  | cons c rest ih =>
    obtain ⟨here, later⟩ := not_or.mp (mt mem_cons.mpr none)
    rw [flatMap_cons, ih later, if_neg (by simpa using Ne.symm here)]
    rfl

theorem listBodyOf_iff (k s : String) :
    listBodyOf k s = bodyOf k s ↔ isEventId (.text k) = true ∨ hasStar s = true := by
  unfold listBodyOf bodyOf
  cases event : isEventId (.text k) with
  | true => simp
  | false =>
    cases star : hasStar s with
    | true => simp
    | false =>
      refine iff_of_false (fun same => ?_) (by simp)
      have plain : ∀ cs, escape.apply cs = escape.mark cs := apply_eq_mark fun _ => rfl
      have marked := String.ofList_inj.mp same
      rw [plain, plain] at marked
      have points := congrArg (List.count '.') marked
      rw [count_mark _ (by decide), count_mark _ (by decide),
        if_neg Bool.false_ne_true, if_neg Bool.false_ne_true, if_neg Bool.false_ne_true,
        starPattern_eq_self star, String.toList_append, String.toList_append, count_append,
        count_append, show List.count '.' ".*".toList = 1 from rfl] at points
      omega

theorem matchText_text (s : String) : matchText dialect (.text s) =
    pure ("$_.message -match " ++ ("\"" ++ (escape.text s ++ "\""))) := rfl

theorem eventIdText_text (s : String) : eventIdText dialect (.text s) =
    pure ("$_.ID -eq " ++ ("\"" ++ (escape.text s ++ "\""))) := by
  have filled : eventIdText dialect (.text s) =
    pure ("$_." ++ ("ID" ++ (" -eq " ++ (("\"" ++ (escape.text s ++ "\"")) ++ "")))) := rfl
  rw [String.append_empty] at filled
  rw [filled, show "$_.ID -eq " = "$_." ++ "ID" ++ " -eq " from rfl]
  simp only [String.append_assoc]

theorem item_text {k : String} (other : isLog (.text k) = false) (s : String) :
    item dialect (.text k) (.text s) =
      pure (some (testOf k ++ ("\"" ++ (bodyOf k s ++ "\"")))) := by
  have taken : item dialect (.text k) (.text s) = single dialect (fun v => pure (messageText v))
    (.text k) (.text s) := if_pos rfl
  rw [taken, single, if_neg (by simp [other]), testOf, bodyOf]
  by_cases event : isEventId (.text k) = true
  · rw [if_pos event, if_pos event, if_pos event, eventIdText_text, pure_bind]
  · rw [if_neg event, if_neg event, if_neg event, fieldPattern, ofExcept_ok, pure_bind,
      matchText_text, pure_bind]

theorem alternative_text (k s : String) : alternative dialect (.text k) (.text s) =
    pure (testOf k ++ ("\"" ++ (listBodyOf k s ++ "\""))) := by
  rw [alternative, testOf, listBodyOf]
  by_cases event : isEventId (.text k) = true
  · rw [if_pos event, if_pos event, if_pos event, eventIdText_text]
  · rw [if_neg event, if_neg event, if_neg event, fieldPattern]
    split
    · rw [ofExcept_ok, pure_bind, matchText_text]
    · rw [matchText_text]

theorem item_list (k s : String) : item dialect (.text k) (.list [.text s]) =
    pure (some ("(" ++ (testOf k ++ ("\"" ++ (listBodyOf k s ++ "\""))) ++ ")")) := by
  have list : item dialect (.text k) (.list [.text s]) =
    itemList dialect (.text k) (.list [.text s]) := rfl
  have elements : (Value.list [.text s]).elements = .ok [.text s] := rfl
  rw [list, itemList, elements, ofExcept_ok, pure_bind, Renderer.valueTexts, alternative_text]
  rfl

theorem render_item {t : PowerShell} {text : String} {field v : Value}
    (usual : t.query.dialect = dialect) (written : item dialect field v = pure (some text)) :
    ((powershell t).render (.item field v)).1 = .ok (.text text) := by
  simp only [render, withRenderer, lift, renderer, Renderer.render, usual, written]
  rfl

end PowerShell

namespace Target

/-- **A list of one value**: NetWitness compares a field with a text and with a list of the text by the
same operator. The texts between the quotes are the same too, unless the text has a star at an end, none
inside, and a character that is escaped in the list alone. PowerShell tests the same property in both
forms, but for the same text only if the field is the number of an event or the text has a star. -/
theorem render_oneValue (o : Options) (log : Value) (k s : String) :
    (∃ operator ∈ ["=", "contains", "regex"], ∃ blank ∈ ["", " "], ∃ body body' : String,
      ((netwitness ⟨o, NetWitness.dialect⟩).render (.item (.text k) (.text s))).1 =
        .ok (.text ("(" ++ k ++ (blank ++ operator ++ blank) ++ "'" ++ body ++ "'" ++ ")")) ∧
      ((netwitness ⟨o, NetWitness.dialect⟩).render (.item (.text k) (.list [.text s]))).1 =
        .ok (.text ("(" ++ k ++ " " ++ operator ++ " " ++ "'" ++ body' ++ "'" ++ ")")) ∧
      (body' = body ↔ (hasStar s = true → hasInnerStar s = false →
        regexEscape.apply (exposed s.toList) = exposed s.toList))) ∧
    (isLog (.text k) = false → ∃ test ∈ ["$_.ID -eq ", "$_.message -match "], ∃ body body' : String,
      ((powershell ⟨⟨o, PowerShell.dialect⟩, log⟩).render (.item (.text k) (.text s))).1 =
        .ok (.text (test ++ ("\"" ++ (body ++ "\"")))) ∧
      ((powershell ⟨⟨o, PowerShell.dialect⟩, log⟩).render
        (.item (.text k) (.list [.text s]))).1 =
          .ok (.text ("(" ++ (test ++ ("\"" ++ (body' ++ "\""))) ++ ")")) ∧
      (body' = body ↔ isEventId (.text k) = true ∨ hasStar s = true)) := by
  constructor
  · obtain ⟨blank, known, operator⟩ := NetWitness.operatorOf_eq s
    have single := congrArg Prod.fst (NetWitness.render_text o (.text k) s)
    rw [operator] at single
    refine ⟨(NetWitness.way s).sign, ?_, blank, known, _, _, single,
      NetWitness.render_list o (.text k) s, NetWitness.listBodyOf_iff s⟩
    cases NetWitness.way s <;> simp [NetWitness.Way.sign]
  · intro other
    refine ⟨testOf k, ?_, _, _, render_item rfl (PowerShell.item_text other s),
      render_item rfl (item_list k s), PowerShell.listBodyOf_iff k s⟩
    unfold testOf
    split_ifs <;> simp

/-- A text with a star is tied to its field in both forms. -/
theorem render_oneValue_star : isLog (.text "f") = false ∧ ∃ test body : String,
    ((powershell ⟨⟨{}, PowerShell.dialect⟩, .null⟩).render
      (.item (.text "f") (.text "*a"))).1 = .ok (.text (test ++ ("\"" ++ (body ++ "\"")))) ∧
    ((powershell ⟨⟨{}, PowerShell.dialect⟩, .null⟩).render
      (.item (.text "f") (.list [.text "*a"]))).1 =
        .ok (.text ("(" ++ (test ++ ("\"" ++ (body ++ "\""))) ++ ")")) := by
  obtain ⟨test, _, body, body', single, list, same⟩ := (render_oneValue {} .null "f" "*a").2 rfl
  rw [same.mpr (.inr rfl)] at list
  exact ⟨rfl, test, body, single, list⟩

/-- The point of a file name is escaped in a list alone, and a list forgets the field. -/
theorem render_oneValue_differs :
    ((netwitness ⟨{}, NetWitness.dialect⟩).render (.item (.text "f") (.text "*a.exe"))).1 =
      .ok (.text "(f contains 'a.exe')") ∧
    ((netwitness ⟨{}, NetWitness.dialect⟩).render
      (.item (.text "f") (.list [.text "*a.exe"]))).1 = .ok (.text "(f contains 'a\\.exe')") ∧
    ((powershell ⟨⟨{}, PowerShell.dialect⟩, .null⟩).render
      (.item (.text "f") (.text "x"))).1 = .ok (.text "$_.message -match \"f.*x\"") ∧
    ((powershell ⟨⟨{}, PowerShell.dialect⟩, .null⟩).render
      (.item (.text "f") (.list [.text "x"]))).1 = .ok (.text "($_.message -match \"x\")") := by
  refine ⟨?_, ?_, ?_, ?_⟩ <;> rfl

end Target

end SigmaQuery
