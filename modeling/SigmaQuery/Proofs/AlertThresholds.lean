import Mathlib
import SigmaQuery.Proofs.AggregationLanguage
import SigmaQuery.Proofs.Alerts
import SigmaQuery.Proofs.TargetsInTurn

/-!
# The thresholds of alerts

An aggregation compares the value of a metric with a number. The alert for it has an upper threshold, a
lower one, or both, and it is raised for a value above the upper or below the lower one. So *less* and
*greater* need one threshold each. No thresholds raise an alert for a single value: an alert that is
raised for a value is raised for all on one side of it too. The two thresholds for *equal* leave no value
out, and the alert is always raised.

The comparison of a parsed rule is one of these three, because a condition is cut at the first sign that
fits: the signs for *at most* and *at least* are never read.
-/

namespace SigmaQuery

open FaultM List

/-! ## Comparison signs -/

/-- The comparison signs that are read in a condition. -/
def comparisonSigns : List String := ["<", ">", "=="]

section

variable {condition : String} {tokens : List Token} {t : Token}

theorem text_of_signWidth {sign : String} {rest : List Char} {n : Nat}
    (width : signWidth sign rest = some n) : String.ofList (rest.take n) = sign := by
  rw [wordWidth_eq_some width, take_of_startsWord (startsWord_of_wordWidth width), String.ofList_toList]

theorem exists_sign {r : LexRule} (isRule : r ∈ lexRules) {k : TokenKind}
    (isSign : k ∈ comparisonKinds) (kind : r.kind = some k) :
    ∃ sign ∈ ["==", "<", "<=", ">", ">="], r.width = signWidth sign := by
  have rules : ∀ r ∈ lexRules, (∃ sign ∈ ["==", "<", "<=", ">", ">="], r.width = signWidth sign) ∨
      ∀ k ∈ comparisonKinds, r.kind ≠ some k := by
    simp [lexRules, comparisonKinds]
  exact (rules r isRule).resolve_right fun other => other k isSign kind

theorem comparison_of_mem (cut : tokenize condition = .ok tokens) (member : t ∈ tokens)
    (kind : t.kind ∈ comparisonKinds) : t.text ∈ comparisonSigns := by
  obtain ⟨rest, n, found, text⟩ := exists_lexeme_of_mem cut member
  obtain ⟨r, isRule, fits⟩ := exists_of_findSome?_eq_some found
  obtain ⟨m, width, same⟩ := Option.map_eq_some_iff.mp fits
  obtain ⟨ruleKind, rfl⟩ := Prod.mk.inj same
  obtain ⟨sign, known, signed⟩ := exists_sign isRule kind ruleKind
  rw [signed] at width
  have written : t.text = sign := text.trans (text_of_signWidth width)
  -- the lexeme of a text that begins with the shorter sign has one character
  have shorter : ∀ c : Char, (∀ cs, (lexeme? (c :: cs)).map Prod.snd = some 1) →
      sign ≠ String.ofList [c, '='] := by
    rintro c single rfl
    have two : m = 2 := by simpa using wordWidth_eq_some width
    have front := take_of_startsWord (startsWord_of_wordWidth width)
    rw [String.toList_ofList] at front
    obtain ⟨cs, rfl⟩ : ∃ cs, rest = c :: cs := by
      cases rest with
      | nil => cases front
      | cons d cs => exact ⟨cs, by rw [cons_eq_cons.mp front |>.1]⟩
    have one := single cs
    rw [found, two] at one
    cases one
  have notAtMost := shorter '<' fun _ => rfl
  have notAtLeast := shorter '>' fun _ => rfl
  simp only [mem_cons, not_mem_nil, or_false] at known
  rw [written]
  rcases known with rfl | rfl | rfl | rfl | rfl
  · decide
  · decide
  · exact absurd rfl notAtMost
  · decide
  · exact absurd rfl notAtLeast

end

/-! ## Parsed aggregations -/

namespace Aggregation

/-- The tokens of conditions: a comparison is one of the signs, and the word for searches near each
other names this function and no other. -/
def Spelled (t : Token) : Prop :=
  (t.kind ∈ comparisonKinds → t.text ∈ comparisonSigns) ∧
    (t.kind = .near → ∀ f : AggregateFunction, t.text = f.name → f = .near)

theorem spelled_of_mem {condition : String} {tokens : List Token} {t : Token}
    (cut : tokenize condition = .ok tokens) (member : t ∈ tokens) : Spelled t := by
  refine ⟨comparison_of_mem cut member, fun kind f named => ?_⟩
  have small : t.text.toList.all Char.isLower = true := by
    rw [named]
    cases f <;> decide
  obtain ⟨g, text, near⟩ := (function_spelling cut member (.inr kind)).mpr small
  obtain rfl := near.mp kind
  have same : AggregateFunction.ofName? f.name = some .near :=
    AggregateFunction.ofName?_eq_some_iff.mpr (named.symm.trans text)
  rw [AggregateFunction.ofName?_eq_some_iff.mpr rfl] at same
  exact Option.some.inj same

/-- Behind a comparison sign the aggregation has its text, and behind the word for searches near each
other it has this function. -/
def Compares (a : Aggregation) : Prop :=
  (a.state ∈ [.compared, .done] → ∃ sign ∈ comparisonSigns, a.operator = some sign) ∧
    (a.state ∈ [.nearTerm, .nearNext, .nearAnd] → a.function = some .near)

section Moves

variable {s next : AggregationState} {k : TokenKind} {action : AggregationAction}
  (move : aggregationMove s k = some (action, next))
include move

theorem move_compared (reached : next ∈ [.compared, .done]) :
    action = .setOperator ∧ k ∈ comparisonKinds ∨ action = .setThreshold ∧ s = .compared := by
  unfold aggregationMove at move
  grind

theorem move_near (reached : next ∈ [.nearTerm, .nearNext, .nearAnd]) :
    action = .startNear ∧ k = .near ∨
      action ∈ [.addTerm, .include, .exclude] ∧ s ∈ [.nearTerm, .nearNext, .nearAnd] := by
  unfold aggregationMove at move
  grind

end Moves

variable {c : Config} {a b : Aggregation} {tokens : List Token}

theorem Compares.move (h : a.Compares) {t : Token} (spelled : Spelled t) {action : AggregationAction}
    {next : AggregationState} (move : aggregationMove a.state t.kind = some (action, next))
    (acted : a.act c t.text action = .ok b) : (b.inState next).Compares := by
  constructor
  · intro reached
    rcases move_compared move reached with ⟨rfl, sign⟩ | ⟨rfl, before⟩
    · cases acted
      exact ⟨t.text, spelled.1 sign, rfl⟩
    · cases acted
      exact h.1 (by simp [before])
  · intro reached
    rcases move_near move reached with ⟨rfl, near⟩ | ⟨later, before⟩
    · obtain ⟨f, read, rfl⟩ := Cond.map_eq_ok acted
      exact congrArg some (spelled.2 near f (name_of_readFunction read).symm)
    · have same : b.function = a.function := by
        simp only [mem_cons, not_mem_nil, or_false] at later
        rcases later with rfl | rfl | rfl <;> cases acted <;> rfl
      exact same.trans (h.2 before)

/-- A parsed aggregation compares by one of the signs, or it is for searches near each other. -/
theorem compares_of_run (h : a.Compares) (spelled : ∀ t ∈ tokens, Spelled t)
    (ran : run c a tokens = .ok b) :
    b.function = some .near ∨ ∃ sign ∈ comparisonSigns, b.operator = some sign := by
  induction tokens generalizing a with
  | nil =>
    rw [run] at ran
    split at ran
    · rename_i final
      cases ran
      cases place : b.state with
      | done => exact .inr (h.1 (by simp [place]))
      | nearNext => exact .inl (h.2 (by simp [place]))
      | _ => simp [place, AggregationState.isFinal] at final
    · cases ran
  | cons t rest ih =>
    rw [forall_mem_cons] at spelled
    obtain ⟨-, action, next, a', move, acted, goes⟩ := exists_move ran
    exact ih (h.move spelled.1 move acted) spelled.2 goes

end Aggregation

open Aggregation

/-! ### Parsed rules -/

variable {source : Except Fault (Option LogSource)} {d : Detection} {p : ParsedCondition}
  {a : Aggregation}

theorem aggregation_of_parseCondition {elements : List Cond}
    (yields : (parseCondition source d elements).Yields p) (has : p.aggregation = some a) :
    ∃ c tokens, ofTokens c tokens = .ok a ∧ ∀ t ∈ tokens, .token t ∈ elements := by
  rw [parseCondition] at yields
  split at yields
  · obtain ⟨search, -, last⟩ := yields.bind
    rw [last.of_pure] at has
    cases has
  · rename_i before bar after cut
    obtain ⟨search, -, rest⟩ := yields.bind
    obtain ⟨c, -, rest⟩ := rest.bind
    obtain ⟨a', ⟨_, _, made⟩, last⟩ := rest.bind
    rw [last.of_pure] at has
    cases has
    have made : aggregationOf c after = .ok a := congrArg Prod.fst made
    rw [aggregationOf] at made
    split at made
    · refine ⟨c, _, made, fun t member => ?_⟩
      obtain ⟨x, inside, same⟩ := mem_filterMap.mp member
      rw [eq_of_splitKind? cut]
      cases x with
      | token t' =>
        cases same
        exact mem_append_right _ (mem_cons_of_mem _ inside)
      | _ => cases same
    · cases made

theorem aggregation_of_parseConditions {rows : List (List Cond)} {ps : List ParsedCondition}
    (yields : (Rule.parseConditions source d rows).Yields ps) (member : p ∈ ps)
    (has : p.aggregation = some a) : ∃ elements ∈ rows, ∃ c tokens, ofTokens c tokens = .ok a ∧
      ∀ t ∈ tokens, .token t ∈ elements := by
  induction rows generalizing ps with
  | nil =>
    rw [yields.of_pure] at member
    cases member
  | cons elements rest ih =>
    obtain ⟨first, here, others⟩ := yields.bind
    obtain ⟨ps, later, last⟩ := others.bind
    rw [last.of_pure] at member
    rcases mem_cons.mp member with rfl | member
    · exact ⟨elements, mem_cons_self, aggregation_of_parseCondition here has⟩
    · obtain ⟨row, known, found⟩ := ih later member
      exact ⟨row, mem_cons_of_mem _ known, found⟩

namespace Rule

variable {elements : List Cond} {rows : List (List Cond)}

theorem spelled_of_elementsOf {v : Value} (read : elementsOf v = .ok elements) {t : Token}
    (member : .token t ∈ elements) : Spelled t := by
  cases v with
  | text s =>
    obtain ⟨tokens, cut, rfl⟩ := Cond.map_eq_ok read
    obtain ⟨t', inside, same⟩ := mem_map.mp member
    cases same
    exact spelled_of_mem cut inside
  | list items =>
    cases read
    obtain ⟨x, -, same⟩ := mem_map.mp member
    cases x <;> cases same
  | _ => cases read

theorem exists_of_elementsOfEach {vs : List Value} (read : elementsOfEach vs = .ok rows)
    (row : elements ∈ rows) : ∃ v, elementsOf v = .ok elements := by
  induction vs generalizing rows with
  | nil =>
    cases read
    cases row
  | cons v rest ih =>
    rw [elementsOfEach] at read
    split at read
    · cases read
    · rename_i first here
      obtain ⟨others, later, rfl⟩ := Cond.map_eq_ok read
      rcases mem_cons.mp row with rfl | row
      · exact ⟨v, here⟩
      · exact ih later row

theorem exists_of_conditionElements {entries : Entries}
    (read : conditionElements entries = .ok rows) (row : elements ∈ rows) :
    ∃ v, elementsOf v = .ok elements := by
  unfold conditionElements at read
  split at read
  · cases read
  · exact exists_of_elementsOfEach read row
  · exact exists_of_elementsOfEach read row
  · cases read
    cases row

/-- A parsed rule compares by one of the signs, or it searches for events near each other. -/
theorem compares_of_parse {document : Value} {before after : Config} {r : Rule}
    (parsed : (Rule.parse document).start before = (.ok r, after)) {p : ParsedCondition}
    (member : p ∈ r.conditions) {a : Aggregation} (has : p.aggregation = some a) :
    a.function = some .near ∨ ∃ sign ∈ comparisonSigns, a.operator = some sign := by
  have yields : (Rule.parse document).Yields r := ⟨before, after, parsed⟩
  obtain ⟨_, -, rest⟩ := yields.bind
  obtain ⟨entries, -, rest⟩ := rest.bind
  obtain ⟨rows, ⟨_, _, read⟩, rest⟩ := rest.bind
  have read : conditionElements entries = .ok rows := congrArg Prod.fst read
  obtain ⟨c, -, rest⟩ := rest.bind
  obtain ⟨ps, conditions, rest⟩ := rest.bind
  obtain ⟨c', -, rest⟩ := rest.bind
  rw [rest.of_pure] at member
  obtain ⟨p', inside, rfl⟩ := mem_map.mp member
  obtain ⟨elements, row, c₀, tokens, made, cut⟩ := aggregation_of_parseConditions conditions inside has
  obtain ⟨v, element⟩ := exists_of_conditionElements read row
  refine compares_of_run (a := {}) ⟨by simp, by simp⟩ (fun t inTokens => ?_) made
  exact spelled_of_elementsOf element (cut t inTokens)

end Rule

namespace Elastic.Elastalert

/-! ## When an alert is raised -/

/-- The alert is raised for a value of its metric: the value is above the upper threshold or below the
lower one, as far as the alert has them. -/
def Raised (alert : Value) (v : Int) : Prop :=
  (∃ upper, alert.get? (.text "max_threshold") = some (.int upper) ∧ upper < v) ∨
    ∃ lower, alert.get? (.text "min_threshold") = some (.int lower) ∧ v < lower

theorem not_raised_iff_eq (alert : Value) (n : Int) : ¬ ∀ v, Raised alert v ↔ v = n := by
  intro only
  rcases (only n).mpr rfl with ⟨upper, has, above⟩ | ⟨lower, has, below⟩
  · have next : n + 1 = n := (only (n + 1)).mp (.inl ⟨upper, has, by omega⟩)
    omega
  · have next : n - 1 = n := (only (n - 1)).mp (.inr ⟨lower, has, by omega⟩)
    omega

theorem raised_thresholds (n v : Int) :
    (Raised (record (thresholds (some "<") n)) v ↔ v < n) ∧
      (Raised (record (thresholds (some ">") n)) v ↔ n < v) ∧
      Raised (record (thresholds (some "==") n)) v := by
  refine ⟨?_, ?_, ?_⟩ <;> simp [Raised, thresholds, record, Value.get?, lookup]
  omega

/-! ## The parts of an alert -/

section

variable {fields more : List (String × Value)} {key : String}

theorem get?_record_append (k : Key) :
    (record (fields ++ more)).get? k = ((record fields).get? k).or ((record more).get? k) := by
  induction fields with
  | nil => rfl
  | cons x rest ih =>
    simp only [record, Value.get?, cons_append, map_cons, lookup] at ih ⊢
    split_ifs
    · rfl
    · exact ih

theorem get?_record_eq_none (other : ∀ x ∈ fields, x.1 ≠ key) :
    (record fields).get? (.text key) = none := by
  induction fields with
  | nil => rfl
  | cons x rest ih =>
    rw [forall_mem_cons] at other
    have unlike : ¬ Key.text x.1 = .text key := fun same => other.1 (Key.text.inj same)
    simp only [record, Value.get?, map_cons, lookup, if_neg unlike]
    exact ih other.2

end

variable {fields : List (String × Value)} {a : Aggregation} {p : ParsedCondition} {s : Shared}
  {i : Nat} {w : Work Elastalert} {made : Value}

theorem name_of_notice {o : Options} (told : notice o = .ok fields) :
    ∀ x ∈ fields, x.1 ∈ ["alert", "email", "smtp_host", "from_addr", "smtp_auth_file"] := by
  have given : ∀ name, ∀ x ∈ givenOption o name, x.1 = name := by
    intro name
    unfold givenOption
    split_ifs <;> simp
  simp only [notice] at told
  split at told
  · split at told
    · cases told
      intro x member
      simp only [mem_append, mem_cons, not_mem_nil, or_false] at member
      rcases member with (((rfl | rfl) | member) | member) | member
      · simp
      · simp
      all_goals simp [given _ x member]
    · cases told
  · cases told
    decide

theorem get?_trigger {interval : Value} (fires : trigger interval (some a) = .ok fields) :
    ∃ n, thresholdNumber a = .ok n ∧
      (record fields).get? (.text "type") = some (.text "metric_aggregation") ∧
      ∀ key ∈ ["max_threshold", "min_threshold"],
        (record fields).get? (.text key) = (record (thresholds a.operator n)).get? (.text key) := by
  obtain ⟨n, number, rfl⟩ := Cond.map_eq_ok fires
  refine ⟨n, number, ?_, fun key known => ?_⟩
  · cases a.group <;> simp [record, Value.get?, lookup]
  · rw [get?_record_append, get?_record_eq_none, Option.none_or]
    simp only [mem_cons, not_mem_nil, or_false] at known
    rcases known with rfl | rfl <;> cases a.group <;> simp

theorem function_ne_near {query : Value} (filtered : (filter p).Yields query)
    (has : p.aggregation = some a) : a.function ≠ some .near := by
  obtain ⟨text, found, -⟩ := filtered.bind
  obtain ⟨_, -, rest⟩ := found.bind
  rw [has] at rest
  obtain ⟨suffix, ⟨_, _, run⟩, -⟩ := rest.bind
  intro near
  rw [aggregate, near] at run
  cases run

theorem exists_thresholds {w' : Work Elastalert} (run : (alert s i p).start w = (.ok made, w'))
    (has : p.aggregation = some a) : a.function ≠ some .near ∧ ∃ n, thresholdNumber a = .ok n ∧
      made.get? (.text "type") = some (.text "metric_aggregation") ∧
      ∀ v, Raised made v ↔ Raised (record (thresholds a.operator n)) v := by
  have yields : (alert s i p).Yields made := ⟨w, w', run⟩
  obtain ⟨_, -, rest⟩ := yields.bind
  obtain ⟨priority, -, rest⟩ := rest.bind
  obtain ⟨realert, -, rest⟩ := rest.bind
  obtain ⟨query, filtered, rest⟩ := rest.bind
  obtain ⟨fires, ⟨_, _, triggered⟩, rest⟩ := rest.bind
  obtain ⟨notices, ⟨_, _, told⟩, last⟩ := rest.bind
  have triggered : trigger s.interval p.aggregation = .ok fires := congrArg Prod.fst triggered
  have told : notice _ = .ok notices := congrArg Prod.fst told
  rw [has] at triggered
  obtain ⟨n, number, type, bounds⟩ := get?_trigger triggered
  have found : ∀ key ∈ ["type", "max_threshold", "min_threshold"],
      made.get? (.text key) = (record fires).get? (.text key) := by
    intro key known
    have apart : ∀ name ∈ ["type", "max_threshold", "min_threshold"],
        name ∉ ["alert", "email", "smtp_host", "from_addr", "smtp_auth_file"] := by decide
    have free : ∀ x ∈ notices, x.1 ≠ key := by
      rintro x member rfl
      exact apart x.1 known (name_of_notice told x member)
    rw [last.of_pure, get?_record_append, get?_record_append, get?_record_eq_none free, Option.or_none,
      get?_record_eq_none, Option.none_or]
    simp only [mem_cons, not_mem_nil, or_false] at known
    rcases known with rfl | rfl | rfl <;> simp
  refine ⟨function_ne_near filtered has, n, number, ?_, fun v => ?_⟩
  · rw [found "type" (by simp), type]
  · rw [Raised, found "max_threshold" (by simp), found "min_threshold" (by simp),
      bounds "max_threshold" (by simp), bounds "min_threshold" (by simp)]
    rfl

theorem exists_start_of_alertsOf {n : Nat} {ps : List ParsedCondition} {key : Key}
    (condition : ps[i]? = some p) (built : (alertsOf s n ps w)[i]? = some (key, made)) :
    ∃ w₁ w₂, (alert s (n + i) p).start w₁ = (.ok made, w₂) := by
  induction ps generalizing n w i with
  | nil => cases condition
  | cons q rest ih =>
    rcases run : (alert s n q).start w with ⟨e | v, w'⟩
    · rw [(start_addAlerts_of_error rest run).2] at built
      cases built
    · rw [(start_addAlerts_of_ok rest run).2] at built
      cases i with
      | zero =>
        cases condition
        cases built
        exact ⟨w, w', run⟩
      | succ i =>
        obtain ⟨w₁, w₂, later⟩ := ih condition built
        exact ⟨w₁, w₂, by rwa [Nat.add_right_comm] at later⟩

/-- **Alerts and comparisons**: a target adds the alerts of a parsed rule, one for each condition if the
rule is converted, behind those of the rules before it. The alert of a condition with an aggregation is
one for a metric. It is raised for the values less or greater than the threshold if the aggregation asks
for them. If it asks for the values equal to the threshold, the alert is raised for every value; no alert
is raised for one value alone. -/
theorem generate_thresholds {document : Value} {before after : Config} {r : Rule}
    (parsed : (Rule.parse document).start before = (.ok r, after)) (o : Options)
    (history : List (Config × Rule)) (c : Config) :
    (∃ built, (((Target.elastalert (new o)).after history).generate c r).target.alerts =
        ((Target.elastalert (new o)).after history).alerts ++ built ∧
      (∀ x, (((Target.elastalert (new o)).after history).generate c r).result = .ok x →
        built.length = r.conditions.length) ∧
      ∀ (i : Nat) (p : ParsedCondition) (a : Aggregation) (key : Key) (alert : Value),
        r.conditions[i]? = some p → p.aggregation = some a → built[i]? = some (key, alert) →
        alert.get? (.text "type") = some (.text "metric_aggregation") ∧
        ∃ n, thresholdNumber a = .ok n ∧
          (a.operator = some "<" ∧ (∀ v, Raised alert v ↔ v < n) ∨
            a.operator = some ">" ∧ (∀ v, Raised alert v ↔ n < v) ∨
            a.operator = some "==" ∧ ∀ v, Raised alert v)) ∧
    ∀ alert n, ¬ ∀ v, Raised alert v ↔ v = n := by
  refine ⟨?_, not_raised_iff_eq⟩
  obtain ⟨orderly, -⟩ := orderly_foldl_served (t := new o) .nil history
  rw [Target.after_elastalert]
  generalize history.foldl (fun t x => served x.1 x.2 t) (new o) = t at orderly ⊢
  refine ⟨made c r t, (orderly_served orderly c r).2, fun x returned => ?_, ?_⟩
  · exact length_made ⟨x, _, Prod.ext returned rfl⟩
  · intro i p a key alert condition has built
    obtain ⟨s, w, w', run⟩ : ∃ s w w', (Elastalert.alert s (0 + i) p).start w = (.ok alert, w') := by
      unfold made at built
      split at built
      · cases built
      · obtain ⟨w, w', run⟩ := exists_start_of_alertsOf condition built
        exact ⟨_, w, w', run⟩
    obtain ⟨notNear, n, number, type, raised⟩ := exists_thresholds run has
    refine ⟨type, n, number, ?_⟩
    rcases Rule.compares_of_parse parsed (List.mem_of_getElem? condition) has with
      near | ⟨sign, known, operator⟩
    · exact absurd near notNear
    · rw [operator] at raised ⊢
      simp only [comparisonSigns, List.mem_cons, List.not_mem_nil, or_false] at known
      rcases known with rfl | rfl | rfl
      · exact .inl ⟨rfl, fun v => (raised v).trans (raised_thresholds n v).1⟩
      · exact .inr (.inl ⟨rfl, fun v => (raised v).trans (raised_thresholds n v).2.1⟩)
      · exact .inr (.inr ⟨rfl, fun v => (raised v).mpr (raised_thresholds n v).2.2⟩)

/-- An alert with the threshold is the only one, and is raised for the values above it. -/
theorem generate_thresholds_groupCount :
    (Rule.parse Target.groupCount).start .empty =
      (.ok Target.groupCounted, ((Rule.parse Target.groupCount).start .empty).2) ∧
    ∃ key alert, (Target.newElastalert.generate .empty Target.groupCounted).target.alerts =
        [(key, alert)] ∧ ∀ v, Raised alert v ↔ 5 < v := by
  refine ⟨Target.parse_groupCount, ?_⟩
  obtain ⟨⟨built, alerts, returned, each⟩, -⟩ :=
    generate_thresholds Target.parse_groupCount (.withDefaults optionSpecs []) [] .empty
  have asked : Target.groupCounted.conditions.map (fun p => p.aggregation.map fun a =>
      (a.operator, (thresholdNumber a).toOption)) = [some (some ">", some 5)] := by decide +kernel
  obtain ⟨p, conditions, aggregation⟩ := List.map_eq_singleton_iff.mp asked
  obtain ⟨a, has, compared⟩ := Option.map_eq_some_iff.mp aggregation
  obtain ⟨operator, number⟩ := Prod.mk.inj compared
  have one : built.length = 1 := by
    rw [returned none (eq_ok_of_toOption (by decide +kernel)), conditions]
    rfl
  obtain ⟨⟨key, alert⟩, rfl⟩ := List.length_eq_one_iff.mp one
  refine ⟨key, alert, alerts, ?_⟩
  obtain ⟨-, n, is, raised⟩ := each 0 p a key alert (by rw [conditions]; rfl) has rfl
  obtain rfl : n = 5 := Except.ok.inj (is.symm.trans (eq_ok_of_toOption number))
  rw [operator] at raised
  rcases raised with ⟨other, -⟩ | ⟨-, above⟩ | ⟨other, -⟩
  · exact absurd other (by decide)
  · exact above
  · exact absurd other (by decide)

/-- The upper threshold of an alert. -/
def upperThreshold (alert : Value) : Option Int :=
  match alert.get? (.text "max_threshold") with
  | some (.int n) => some n
  | _ => none

theorem raised_of_upperThreshold {alert : Value} {n v : Int} (has : upperThreshold alert = some n)
    (above : n < v) : Raised alert v := by
  unfold upperThreshold at has
  split at has
  · next found =>
    cases has
    exact .inl ⟨n, found, above⟩
  · cases has

/-- A rule that looks for five events. -/
def exactCount : Value :=
  .map [("title", "A"), ("logsource", .map [("product", "p")]), ("detection",
    .map [("sel", .map [("f", "v")]), ("condition", "sel | count() == 5")])]

/-- The rule as parsed. -/
def exactCounted : Rule :=
  ((Rule.parse exactCount).start .empty).1.toOption.getD default

/-- The alert for five events is raised for seven. -/
theorem generate_exactCount :
    ((Rule.parse exactCount).start .empty).1.toOption.isSome ∧
    exactCounted.conditions.map (fun p => p.aggregation.map fun a => (a.operator, a.threshold)) =
      [some (some "==", some "5")] ∧
    ∃ key alert, (Target.newElastalert.generate .empty exactCounted).target.alerts =
      [(key, alert)] ∧ Raised alert 7 := by
  refine ⟨by decide +kernel, by decide +kernel, ?_⟩
  have upper : (Target.newElastalert.generate .empty exactCounted).target.alerts.map
      (fun e => upperThreshold e.2) = [some 4] := by decide +kernel
  obtain ⟨⟨key, alert⟩, single, four⟩ := List.map_eq_singleton_iff.mp upper
  exact ⟨key, alert, single, raised_of_upperThreshold four (by decide)⟩

end Elastic.Elastalert

end SigmaQuery
