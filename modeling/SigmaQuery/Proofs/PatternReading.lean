import Mathlib.Data.List.Basic
import Mathlib.Data.List.Forall2

/-!
# Perl patterns

The part of the language of Perl patterns that groups, looks ahead and skips text: a pattern is read
into alternatives (`read`), each a row of pieces, and the places of a line between which a row of
pieces matches are given piece by piece (`Subject.Row`). What plain text matches is left open: a
subject is a line together with any account of the plain texts in it, so everything below holds
whatever escapes and repetitions plain text contains. Patterns with classes, quotations, other kinds
of groups or repeated groups are not read.

A pattern is read in one pass over its signs with the open groups on a stack. What a text adds to
the innermost open group does not depend on the rest of the pattern if that rest begins with the end
of a part (`Reads`). Texts without groups are such texts (`Closed.reads`), and so are the groups
whose branches are skips before such texts (`reads_groupText`).
-/

namespace SigmaQuery.Perl

open List

/-! ## Signs -/

/-- The kinds of groups: one of the branches, a look ahead, and a look ahead that must fail. -/
inductive Kind where
  | among
  | ahead
  | notAhead
deriving DecidableEq, Repr

/-- What matches by itself: plain text, any characters of a line, and the start of the line. -/
inductive Atom where
  | plain (cs : List Char)
  | skip
  | start
deriving DecidableEq, Repr

/-- The signs of a pattern. -/
inductive Sign where
  | opening (k : Kind)
  | closing
  | bar
  | atom (a : Atom)
deriving DecidableEq, Repr

/-- The text begins with a sign that repeats what stands before it. -/
def startsQuantifier : List Char → Bool
  | [] => false
  | c :: _ => c == '?' || c == '+' || c == '*' || c == '\x7b'

/-- Plain text before other signs. -/
def plainBefore (cs : List Char) : List Sign → List Sign
  | .atom (.plain ds) :: rest => .atom (.plain (cs ++ ds)) :: rest
  | ss => .atom (.plain cs) :: ss

/-- The signs of a pattern. After a backslash any character is plain, but quotations and control
characters are not read. -/
def signs : List Char → Option (List Sign)
  | [] => some []
  | ['\\'] => none
  | '\\' :: c :: rest =>
    if c = 'Q' ∨ c = 'c' then none else (signs rest).map (plainBefore ['\\', c])
  | '.' :: '*' :: rest =>
    if startsQuantifier rest then (signs rest).map (plainBefore ['.', '*'])
    else (signs rest).map (.atom .skip :: ·)
  | '(' :: '?' :: ':' :: rest => (signs rest).map (.opening .among :: ·)
  | '(' :: '?' :: '=' :: rest => (signs rest).map (.opening .ahead :: ·)
  | '(' :: '?' :: '!' :: rest => (signs rest).map (.opening .notAhead :: ·)
  | '(' :: _ => none
  | '[' :: _ => none
  | ')' :: rest => if startsQuantifier rest then none else (signs rest).map (.closing :: ·)
  | '|' :: rest => (signs rest).map (.bar :: ·)
  | '^' :: rest =>
    if startsQuantifier rest then none else (signs rest).map (.atom .start :: ·)
  | c :: rest => (signs rest).map (plainBefore [c])

/-- The sign belongs to no group. -/
def Sign.isAtom : Sign → Bool
  | .atom _ => true
  | _ => false

/-- The text ends a pattern or a part of it. -/
def endsPart : List Char → Bool
  | [] => true
  | c :: _ => c == ')' || c == '|'

variable {rest text : List Char} {ss : List Sign} {texts : List (List Char)}
  {rows : List (List Piece)}

theorem startsQuantifier_of_endsPart (ends : endsPart rest = true) :
    startsQuantifier rest = false := by
  cases rest with
  | nil => rfl
  | cons d rest =>
    rw [endsPart, Bool.or_eq_true, beq_iff_eq, beq_iff_eq] at ends
    rcases ends with rfl | rfl <;> rfl

theorem startsQuantifier_append (cs : List Char) (free : startsQuantifier rest = false) :
    startsQuantifier (cs ++ rest) = startsQuantifier cs := by
  cases cs with
  | cons c cs => rfl
  | nil => exact free

theorem all_plainBefore (cs : List Char) (ss : List Sign) :
    (plainBefore cs ss).all Sign.isAtom = ss.all Sign.isAtom := by
  unfold plainBefore
  split <;> rfl

theorem plainBefore_append (ends : endsPart rest = true) (cs : List Char) (ss : List Sign) :
    ((signs rest).map (ss ++ ·)).map (plainBefore cs) =
      (signs rest).map (plainBefore cs ss ++ ·) := by
  cases ss with
  | cons s ss =>
    rw [Option.map_map]
    congr 1
    funext tt
    rcases s with _ | _ | _ | a
    · rfl
    · rfl
    · rfl
    · cases a <;> rfl
  | nil =>
    cases rest with
    | nil => rfl
    | cons c rest =>
      rw [endsPart, Bool.or_eq_true, beq_iff_eq, beq_iff_eq] at ends
      rcases ends with rfl | rfl
      · rw [signs]
        split
        · rfl
        · cases signs rest <;> rfl
      · rw [signs]
        cases signs rest <;> rfl

/-- A character with no meaning of its own stands for itself. -/
theorem signs_char {c : Char} (ordinary : c ∉ ['\\', '(', '[', ')', '|', '^'])
    (point : c = '.' → rest.head? ≠ some '*') :
    signs (c :: rest) = (signs rest).map (plainBefore [c]) := by
  simp only [mem_cons, not_mem_nil, or_false, not_or] at ordinary
  obtain ⟨noBackslash, noOpening, noClass, noClosing, noBar, noStart⟩ := ordinary
  rw [signs]
  · exact fun escape => (noBackslash escape).elim
  · exact fun _ _ escape => (noBackslash escape).elim
  · rintro rest here rfl
    exact point here rfl
  · exact fun _ opening => (noOpening opening).elim
  · exact fun _ opening => (noOpening opening).elim
  · exact fun _ opening => (noOpening opening).elim
  · exact noOpening
  · exact noClass
  · exact noClosing
  · exact noBar
  · exact noStart

theorem signs_append {cs : List Char} (read : signs cs = some ss) (free : ss.all Sign.isAtom = true)
    (ends : endsPart rest = true) : signs (cs ++ rest) = (signs rest).map (ss ++ ·) := by
  have quantifier := startsQuantifier_of_endsPart ends
  have longer : ∀ {u : List Char} {r : List Char} {tt : List Sign},
      (signs r).map (plainBefore u) = some tt → tt.all Sign.isAtom = true →
      (∀ {ss : List Sign}, signs r = some ss → ss.all Sign.isAtom = true →
        signs (r ++ rest) = (signs rest).map (ss ++ ·)) →
      (signs (r ++ rest)).map (plainBefore u) = (signs rest).map (tt ++ ·) := by
    intro u r tt read free ih
    obtain ⟨ss, found, rfl⟩ := Option.map_eq_some_iff.mp read
    rw [all_plainBefore] at free
    rw [ih found free, plainBefore_append ends]
  fun_induction signs cs generalizing ss with
  | case1 =>
    cases read
    exact (Option.map_id' (x := signs rest)).symm
  | case2 | case3 => cases read
  | case4 c r other ih =>
    rw [cons_append, cons_append, signs, if_neg other]
    exact longer read free ih
  | case5 r repeated ih =>
    rw [cons_append, cons_append, signs, startsQuantifier_append r quantifier, if_pos repeated]
    exact longer read free ih
  | case6 r single ih =>
    obtain ⟨tt, found, rfl⟩ := Option.map_eq_some_iff.mp read
    rw [cons_append, cons_append, signs, startsQuantifier_append r quantifier,
      if_neg single, ih found free, Option.map_map]
    rfl
  | case7 r ih | case8 r ih | case9 r ih | case13 r single ih | case14 r ih =>
    -- a sign of a group
    obtain ⟨tt, -, rfl⟩ := Option.map_eq_some_iff.mp read
    cases free
  | case10 | case11 | case12 | case15 => cases read
  | case16 r single ih =>
    obtain ⟨tt, found, rfl⟩ := Option.map_eq_some_iff.mp read
    rw [cons_append, signs, startsQuantifier_append r quantifier, if_neg single,
      ih found free, Option.map_map]
    rfl
  | case17 c r noEnd noEscape noSkip _ _ _ noOpening noClass noClosing noBar noStart ih =>
    have noBackslash : c ≠ '\\' := by
      intro escape
      cases r with
      | nil => exact noEnd escape rfl
      | cons d r => exact noEscape d r escape rfl
    rw [cons_append, signs_char (by simp_all)]
    · exact longer read free ih
    · -- a last point stays plain, since no end of a part is a star
      rintro rfl star
      cases r with
      | nil =>
        obtain ⟨r', rfl⟩ := head?_eq_some_iff.mp star
        cases ends
      | cons d r =>
        obtain rfl := Option.some.inj star
        exact noSkip r rfl rfl

/-! ## Pieces -/

/-- A piece of a pattern. Each branch of a group is a row of pieces. -/
inductive Piece where
  | atom (a : Atom)
  | group (k : Kind) (branches : List (List Piece))
deriving Repr

/-- A group that is being read: its finished branches, and the pieces of the last one. -/
structure Level where
  done : List (List Piece) := []
  pieces : List Piece := []
deriving Repr

namespace Level

def branches (l : Level) : List (List Piece) := l.done ++ [l.pieces]

def add (l : Level) (ps : List Piece) : Level := { l with pieces := l.pieces ++ ps }

/-- Begins the next branch. -/
def next (l : Level) : Level := { done := l.branches }

@[simp] theorem add_nil (l : Level) : l.add [] = l := by
  rw [add, append_nil]

@[simp] theorem add_add (l : Level) (ps qs : List Piece) : (l.add ps).add qs = l.add (ps ++ qs) := by
  rw [add, add, add, append_assoc]

end Level

/-- The branches of a pattern. The groups around the one that is being read are on a stack. -/
def parse : List Sign → Level → List (Kind × Level) → Option (List (List Piece))
  | [], l, [] => some l.branches
  | [], _, _ :: _ => none
  | .opening k :: ss, l, outer => parse ss {} ((k, l) :: outer)
  | .closing :: _, _, [] => none
  | .closing :: ss, l, (k, around) :: outer => parse ss (around.add [.group k l.branches]) outer
  | .bar :: ss, l, outer => parse ss l.next outer
  | .atom a :: ss, l, outer => parse ss (l.add [.atom a]) outer

/-- Reads on in a group. -/
def scan (text : List Char) (l : Level) (outer : List (Kind × Level)) : Option (List (List Piece)) :=
  (signs text).bind fun ss => parse ss l outer

/-- The branches of a pattern. -/
def read (text : List Char) : Option (List (List Piece)) := scan text {} []

/-- The text of a sign that opens a group. -/
def openingText : Kind → List Char
  | .among => ['(', '?', ':']
  | .ahead => ['(', '?', '=']
  | .notAhead => ['(', '?', '!']

section Scan

variable (l around : Level) (outer : List (Kind × Level)) {rest : List Char}

theorem scan_opening (k : Kind) (rest : List Char) :
    scan (openingText k ++ rest) l outer = scan rest {} ((k, l) :: outer) := by
  have opened : signs (openingText k ++ rest) = (signs rest).map (.opening k :: ·) := by
    cases k <;> exact signs.eq_def _
  rw [scan, opened, Option.bind_map]
  rfl

theorem scan_closing (k : Kind) (single : startsQuantifier rest = false) :
    scan (')' :: rest) l ((k, around) :: outer) =
      scan rest (around.add [.group k l.branches]) outer := by
  rw [scan, signs, single, if_neg Bool.false_ne_true, Option.bind_map]
  rfl

theorem scan_bar (rest : List Char) : scan ('|' :: rest) l outer = scan rest l.next outer := by
  rw [scan, signs, Option.bind_map]
  rfl

theorem scan_skip (single : startsQuantifier rest = false) :
    scan ('.' :: '*' :: rest) l outer = scan rest (l.add [.atom .skip]) outer := by
  rw [scan, signs, single, if_neg Bool.false_ne_true, Option.bind_map]
  rfl

end Scan

/-! ## Texts that are read by themselves -/

/-- Before the end of a part the text is read as these pieces, whatever group it stands in. -/
structure Reads (text : List Char) (ps : List Piece) : Prop where
  unquantified : startsQuantifier text = false
  scan_append : ∀ rest, endsPart rest = true → ∀ l outer,
    scan (text ++ rest) l outer = scan rest (l.add ps) outer

namespace Reads

variable {text : List Char} {ps : List Piece}

theorem read_eq (h : Reads text ps) : read text = some [ps] := by
  have whole := h.scan_append [] rfl {} []
  rw [append_nil] at whole
  rw [read, whole]
  rfl

end Reads

/-- The text has no groups. -/
def Groupless (text : List Char) : Prop :=
  ∃ ss, signs text = some ss ∧ ss.all Sign.isAtom = true

namespace Groupless

variable {rest : List Char}

theorem plainBefore {text : List Char} (h : Groupless rest) (cs : List Char)
    (signs_eq : signs text = (signs rest).map (plainBefore cs)) : Groupless text := by
  obtain ⟨ss, read, free⟩ := h
  refine ⟨Perl.plainBefore cs ss, ?_, ?_⟩
  · rw [signs_eq, read, Option.map_some]
  · rw [all_plainBefore, free]

theorem escaped (h : Groupless rest) {c : Char} (other : ¬ (c = 'Q' ∨ c = 'c')) :
    Groupless ('\\' :: c :: rest) := by
  refine h.plainBefore ['\\', c] ?_
  rw [signs, if_neg other]

theorem skip (h : Groupless rest) : Groupless ('.' :: '*' :: rest) := by
  by_cases repeated : startsQuantifier rest = true
  · refine h.plainBefore ['.', '*'] ?_
    rw [signs, if_pos repeated]
  · obtain ⟨ss, read, free⟩ := h
    refine ⟨.atom .skip :: ss, ?_, ?_⟩
    · rw [signs, if_neg repeated, read, Option.map_some]
    · rw [all_cons, free]
      rfl

theorem char (h : Groupless rest) {c : Char} (ordinary : c ∉ ['\\', '(', '[', ')', '|', '^'])
    (point : c = '.' → rest.head? ≠ some '*') : Groupless (c :: rest) :=
  h.plainBefore [c] (signs_char ordinary point)

end Groupless

/-- The text has no groups, and does not repeat what stands before it. -/
structure Closed (text : List Char) : Prop where
  unquantified : startsQuantifier text = false
  groupless : Groupless text

/-- The pieces that are no groups. -/
def Sign.piece? : Sign → Option Piece
  | .atom a => some (.atom a)
  | _ => none

theorem parse_append (free : ss.all Sign.isAtom = true) (rest : List Sign) (l : Level)
    (outer : List (Kind × Level)) :
    parse (ss ++ rest) l outer = parse rest (l.add (ss.filterMap Sign.piece?)) outer := by
  induction ss generalizing l with
  | nil => rw [nil_append, filterMap_nil, Level.add_nil]
  | cons s ss ih =>
    rw [all_cons, Bool.and_eq_true] at free
    cases s with
    | atom a =>
      rw [cons_append, parse, ih free.2, Level.add_add]
      rfl
    | opening k | closing | bar => cases free.1

theorem Closed.reads (h : Closed text) : ∃ ps, Reads text ps := by
  obtain ⟨ss, read, free⟩ := h.groupless
  refine ⟨ss.filterMap Sign.piece?, h.unquantified, ?_⟩
  intro rest ends l outer
  rw [scan, scan, signs_append read free ends, Option.bind_map]
  congr 1
  funext rest
  exact parse_append free rest l outer

/-- Branches that skip text first, as a group. -/
def groupText (k : Kind) (texts : List (List Char)) : List Char :=
  openingText k ++ ['|'].intercalate (texts.map (['.', '*'] ++ ·)) ++ [')']

/-- A row of pieces after skipped text. -/
def skipTo (ps : List Piece) : List Piece := .atom .skip :: ps

theorem scan_branch {ps : List Piece} (reads : Reads text ps) (rest : List Char)
    (ends : endsPart rest = true) (done : List (List Piece)) (outer : List (Kind × Level)) :
    scan ('.' :: '*' :: (text ++ rest)) { done } outer =
      scan rest { done, pieces := skipTo ps } outer := by
  have single : startsQuantifier (text ++ rest) = false := by
    rw [startsQuantifier_append text (startsQuantifier_of_endsPart ends), reads.unquantified]
  rw [scan_skip _ _ single, reads.scan_append rest ends, Level.add_add]
  rfl

theorem scan_branches (reads : Forall₂ Reads texts rows) (nonempty : texts ≠ [])
    (single : startsQuantifier rest = false) (done : List (List Piece)) (k : Kind) (around : Level)
    (outer : List (Kind × Level)) :
    scan (['|'].intercalate (texts.map (['.', '*'] ++ ·)) ++ ')' :: rest) { done }
        ((k, around) :: outer) =
      scan rest (around.add [.group k (done ++ rows.map skipTo)]) outer := by
  -- the branches before a bar are done when those after it are read
  induction reads generalizing done with
  | nil => exact absurd rfl nonempty
  | @cons text ps texts rows first others ih =>
    cases others with
    | nil =>
      rw [map_singleton, intercalate_singleton, append_assoc]
      refine (scan_branch first (')' :: rest) rfl done _).trans ?_
      rw [scan_closing _ _ _ _ single]
      rfl
    | @cons text' ps' texts rows second others =>
      rw [map_cons, map_cons, intercalate_cons_cons, ← map_cons,
        append_assoc, append_assoc, append_assoc]
      refine (scan_branch first ('|' :: _) rfl done _).trans ?_
      rw [scan_bar]
      refine (ih (cons_ne_nil _ _) (done ++ [skipTo ps])).trans ?_
      rw [append_assoc]
      rfl

theorem scan_groupText (reads : Forall₂ Reads texts rows) (nonempty : texts ≠ [])
    (single : startsQuantifier rest = false) (k : Kind) (l : Level) (outer : List (Kind × Level)) :
    scan (groupText k texts ++ rest) l outer =
      scan rest (l.add [.group k (rows.map skipTo)]) outer := by
  rw [groupText, append_assoc, append_assoc, scan_opening]
  exact scan_branches reads nonempty single [] k l outer

theorem startsQuantifier_groupText (k : Kind) (texts : List (List Char)) (rest : List Char) :
    startsQuantifier (groupText k texts ++ rest) = false := by
  cases k <;> rfl

theorem reads_groupText (reads : Forall₂ Reads texts rows) (nonempty : texts ≠ []) (k : Kind) :
    Reads (groupText k texts) [.group k (rows.map skipTo)] where
  unquantified := by
    rw [← append_nil (groupText k texts)]
    exact startsQuantifier_groupText k texts []
  scan_append _ ends l outer :=
    scan_groupText reads nonempty (startsQuantifier_of_endsPart ends) k l outer

theorem reads_flatMap_groupText (k : Kind) (reads : Forall₂ Reads texts rows) :
    Reads (texts.flatMap fun text => groupText k [text])
      (rows.map fun ps => .group k [skipTo ps]) := by
  have unquantified : ∀ (texts : List (List Char)) {rest : List Char},
      startsQuantifier rest = false →
      startsQuantifier ((texts.flatMap fun text => groupText k [text]) ++ rest) = false := by
    intro texts rest single
    cases texts with
    | nil => exact single
    | cons text texts =>
      rw [flatMap_cons, append_assoc]
      exact startsQuantifier_groupText k [text] _
  constructor
  · rw [← append_nil (texts.flatMap _)]
    exact unquantified texts rfl
  · intro rest ends l outer
    have single := startsQuantifier_of_endsPart ends
    induction reads generalizing l with
    | nil => rw [flatMap_nil, nil_append, map_nil, Level.add_nil]
    | @cons text ps texts rows first others ih =>
      rw [flatMap_cons, append_assoc,
        scan_groupText (.cons first .nil) (cons_ne_nil _ _) (unquantified texts single), ih,
        Level.add_add]
      rfl

/-! ## Matches -/

/-- A line, and the plain texts that match between two places of it. -/
structure Subject where
  line : List Char
  plain : List Char → Nat → Nat → Prop

namespace Subject

variable (s : Subject)

/-- A place of the line, at its end at most. -/
def last : Nat := s.line.length

/-- What an atom matches. Skipped text lies within one line. -/
def Atom : Perl.Atom → Nat → Nat → Prop
  | .plain cs, i, j => s.plain cs i j
  | .skip, i, j => i ≤ j ∧ j ≤ s.last ∧ '\n' ∉ (s.line.drop i).take (j - i)
  | .start, i, j => i = 0 ∧ j = 0

mutual

/-- The piece matches between two places. A look ahead takes no text. -/
def Piece : Perl.Piece → Nat → Nat → Prop
  | .atom a, i, j => s.Atom a i j
  | .group .among rows, i, j => Branch rows i j
  | .group .ahead rows, i, j => i = j ∧ ∃ e, Branch rows i e
  | .group .notAhead rows, i, j => i = j ∧ ¬ ∃ e, Branch rows i e

/-- The pieces match one after the other. -/
def Row : List Perl.Piece → Nat → Nat → Prop
  | [], i, j => i = j
  | p :: ps, i, j => ∃ m, Piece p i m ∧ Row ps m j

/-- One of the branches matches. -/
def Branch : List (List Perl.Piece) → Nat → Nat → Prop
  | [], _, _ => False
  | ps :: rest, i, j => Row ps i j ∨ Branch rest i j

end

/-- The pieces match from a place on. -/
def Starts (ps : List Perl.Piece) (i : Nat) : Prop := ∃ e, s.Row ps i e

/-- The pattern matches at a place. -/
def MatchesAt (text : List Char) (i : Nat) : Prop :=
  ∃ rows, read text = some rows ∧ ∃ e, s.Branch rows i e

/-- The condition is met at a place or after it. -/
def From (met : Nat → Prop) (i : Nat) : Prop :=
  ∃ j, i ≤ j ∧ j ≤ s.last ∧ met j

variable {s} {ps : List Perl.Piece}

theorem From.earlier {met : Nat → Prop} {i j : Nat} (h : s.From met j) (before : i ≤ j) :
    s.From met i := by
  obtain ⟨m, after, within, here⟩ := h
  exact ⟨m, Nat.le_trans before after, within, here⟩

theorem from_congr {met met' : Nat → Prop} (same : ∀ j ≤ s.last, (met j ↔ met' j)) (i : Nat) :
    s.From met i ↔ s.From met' i := by
  refine exists_congr fun j => and_congr_right fun _ => and_congr_right fun within => ?_
  exact same j within

theorem branch_iff {rows : List (List Perl.Piece)} {i e : Nat} :
    s.Branch rows i e ↔ ∃ ps ∈ rows, s.Row ps i e := by
  induction rows with
  | nil => simp [Branch]
  | cons ps rows ih => rw [Branch, ih, exists_mem_cons_iff]

theorem matchesAt_iff {text : List Char} (reads : Reads text ps) (i : Nat) :
    s.MatchesAt text i ↔ s.Starts ps i := by
  constructor
  · rintro ⟨rows, found, e, row⟩
    rw [reads.read_eq, Option.some.injEq] at found
    subst found
    obtain ⟨qs, member, row⟩ := branch_iff.mp row
    rw [mem_singleton.mp member] at row
    exact ⟨e, row⟩
  · rintro ⟨e, row⟩
    exact ⟨[ps], reads.read_eq, e, branch_iff.mpr ⟨ps, mem_singleton_self ps, row⟩⟩

section Skipping

variable (oneLine : '\n' ∉ s.line)
include oneLine

theorem starts_skipTo (ps : List Perl.Piece) (i : Nat) :
    s.Starts (skipTo ps) i ↔ s.From (s.Starts ps) i := by
  constructor
  · rintro ⟨e, m, ⟨after, within, -⟩, row⟩
    exact ⟨m, after, within, e, row⟩
  · rintro ⟨m, after, within, e, row⟩
    have clear : '\n' ∉ (s.line.drop i).take (m - i) := by
      intro member
      exact oneLine (mem_of_mem_drop (mem_of_mem_take member))
    exact ⟨e, m, ⟨after, within, clear⟩, row⟩

theorem exists_branch_skipTo (rows : List (List Perl.Piece)) (i : Nat) :
    (∃ e, s.Branch (rows.map skipTo) i e) ↔ ∃ ps ∈ rows, s.From (s.Starts ps) i := by
  constructor
  · rintro ⟨e, row⟩
    obtain ⟨qs, among, row⟩ := branch_iff.mp row
    obtain ⟨ps, member, rfl⟩ := mem_map.mp among
    exact ⟨ps, member, (starts_skipTo oneLine ps i).mp ⟨e, row⟩⟩
  · rintro ⟨ps, member, later⟩
    obtain ⟨e, row⟩ := (starts_skipTo oneLine ps i).mpr later
    exact ⟨e, branch_iff.mpr ⟨skipTo ps, mem_map_of_mem member, row⟩⟩

theorem exists_branch_singleton (ps : List Perl.Piece) (i : Nat) :
    (∃ e, s.Branch [skipTo ps] i e) ↔ s.From (s.Starts ps) i := by
  refine (exists_branch_skipTo oneLine [ps] i).trans ⟨?_, ?_⟩
  · rintro ⟨qs, member, later⟩
    rwa [mem_singleton.mp member] at later
  · intro later
    exact ⟨ps, mem_singleton_self ps, later⟩

theorem starts_among (rows : List (List Perl.Piece)) (i : Nat) :
    s.Starts [.group .among (rows.map skipTo)] i ↔ ∃ ps ∈ rows, s.From (s.Starts ps) i := by
  rw [← exists_branch_skipTo oneLine]
  constructor
  · rintro ⟨e, m, row, rfl⟩
    exact ⟨m, row⟩
  · rintro ⟨e, row⟩
    exact ⟨e, e, row, rfl⟩

theorem starts_notAhead (ps : List Perl.Piece) (i : Nat) :
    s.Starts [.group .notAhead [skipTo ps]] i ↔ ¬ s.From (s.Starts ps) i := by
  rw [← exists_branch_singleton oneLine]
  constructor
  · rintro ⟨e, m, ⟨-, none⟩, -⟩
    exact none
  · intro none
    exact ⟨i, i, ⟨rfl, none⟩, rfl⟩

theorem starts_ahead (rows : List (List Perl.Piece)) (i : Nat) :
    s.Starts (rows.map fun ps => .group .ahead [skipTo ps]) i ↔
      ∀ ps ∈ rows, s.From (s.Starts ps) i := by
  induction rows with
  | nil =>
    constructor
    · intro _ ps member
      cases member
    · intro _
      exact ⟨i, rfl⟩
  | cons ps rows ih =>
    rw [forall_mem_cons, ← ih, ← exists_branch_singleton oneLine]
    constructor
    · rintro ⟨e, m, ⟨rfl, found⟩, row⟩
      exact ⟨found, e, row⟩
    · rintro ⟨found, e, row⟩
      exact ⟨e, i, ⟨rfl, found⟩, row⟩

end Skipping

end Subject

end SigmaQuery.Perl
