import SigmaQuery.Proofs.Definitions
import SigmaQuery.Proofs.FilterMeaning
import SigmaQuery.Proofs.Memory

/-!
# What other targets take over

A target for PowerShell remembers the log that was named last and begins every query with it. A target
for Qualys remembers that something was lost, and every rule after that is a fault. A target for search
requests remembers the last time frame. Each of them is told here by what a rule comes to from a given
memory.
-/

namespace SigmaQuery

open FaultM Memory List GenerateM

/-! ## PowerShell -/

namespace PowerShell

open Renderer

/-- A target for PowerShell remembers the log that was named last. -/
def memory : Memory PowerShell Value where
  put log t := { t with log }
  put_put _ _ _ := rfl

variable {t : PowerShell}

/-- The value of the field names a log. -/
def namesLog (d : Dialect) (field v : Value) : Bool :=
  d.takesValue v && isLog field

section

variable (d : Dialect) (field v : Value)

theorem plain_eventIdText : (eventIdText d v).Plain :=
  (plain_ofExcept _).bind fun _ => plain_ofExcept _

theorem plain_matchText : (matchText d v).Plain :=
  (plain_ofExcept _).bind fun text => plain_pure ("$_.message -match " ++ text)

theorem plain_alternative : (alternative d field v).Plain := by
  unfold alternative
  split
  · exact plain_eventIdText d v
  · split
    · split
      · exact (plain_ofExcept _).bind fun v => plain_matchText d v
      · exact plain_matchText d _
    · exact plain_matchText d v

theorem plain_itemList : (itemList d field v).Plain :=
  (plain_ofExcept _).bind fun vs => (plain_valueTexts (plain_alternative d field) vs).bind fun texts =>
    plain_pure (some ("(" ++ " -or ".intercalate texts ++ ")"))

theorem tells_single :
    memory.Tells t (isLog field) Constant (single d (fun v => pure (messageText v)) field v) := by
  have written : ∀ {m : FaultM PowerShell String}, m.Plain →
      (do return some (← m) : FaultM PowerShell (Option String)).Plain := fun h =>
    h.bind fun text => plain_pure (some text)
  unfold single
  by_cases log : isLog field = true
  · rw [if_pos log, log]
    exact (tells_put v).next fun _ => tells_constant (.ok none)
  · rw [if_neg log, Bool.eq_false_iff.mpr log]
    refine tells_of_plain ?_
    split
    · exact written (plain_eventIdText d v)
    · split
      · exact (plain_ofExcept _).bind fun v => written (plain_matchText d v)
      · exact (plain_ofExcept _).bind fun v => written (plain_matchText d v)
      · exact (plain_operandText (fun v => plain_pure (messageText v)) d v).bind fun _ =>
          written (plain_ofExcept _)

end

theorem tells_item (d : Dialect) (field v : Value) :
    memory.Tells t (namesLog d field v) Constant (item d field v) := by
  unfold item namesLog
  by_cases taken : d.takesValue v = true
  · rw [if_pos taken, taken, Bool.true_and]
    exact tells_single d field v
  · rw [if_neg taken, Bool.eq_false_iff.mpr taken, Bool.false_and]
    split
    · exact tells_of_plain (plain_itemList d field _)
    · exact tells_throw _ _ _

theorem remembers (d : Dialect) :
    (renderer d).Remembers memory t (fun _ _ => false) (namesLog d) where
  enter _ _ := tells_constant (.ok ())
  anyText := rfl
  join _ _ := tells_constant _
  negate _ := tells_constant _
  bracket _ := tells_constant _
  value v := tells_constant (.ok (messageText v))
  list vs := tells_of_plain (writes_listText (fun v => plain_pure (messageText v)) d vs).plain
  item field v := tells_item d field v
  isNull _ := tells_constant _
  notNull _ := tells_constant _

/-- The search names a log. -/
def mentionsLog (d : Dialect) : Cond → Bool :=
  Cond.touches (fun _ => true) (fun _ _ => false) (namesLog d)

/-- A query text with its end. A text that is missing is a fault. -/
def ended (text : Option String) (finish : String) : GenerateM PowerShell (Option String) :=
  match text with
  | some t => return some (t ++ finish)
  | none => throw .wrongType

theorem tells_ended (text : Option String) (finish : String) (r : Rule) :
    memory.work.Tells ⟨t, r⟩ false Constant (ended text finish) := by
  cases text with
  | none => exact tells_throw _ _ _
  | some text => exact tells_constant (.ok (some (text ++ finish)))

theorem tells_queryText (c : Config) (p : ParsedCondition) (r : Rule) :
    memory.work.Tells ⟨t, r⟩ (mentionsLog t.query.dialect p.search) Constant (queryText c p) := by
  have rendered := ((remembers t.query.dialect).tells_render p.search).target (s := t) r
  have sourced : memory.work.Tells ⟨t, r⟩ false Constant (logSource c) :=
    tells_of_rule (x := r.source c) fun s => start_logSource c ⟨s, r⟩
  rw [← Bool.or_false (mentionsLog t.query.dialect p.search)]
  refine tells_get (fun _ => rfl) (rendered.next fun text => sourced.next (t := false) fun _ => ?_)
  cases p.aggregation with
  | none => exact tells_ended text _ r
  | some a =>
    exact (tells_constant (aggregate a)).next fun steps => tells_ended text (" \x7d " ++ steps) r

/-- The query of a rule begins with the log of the memory, unless the rule names a log. -/
def BeginsWithLog (d : Dialect) (p? : Option ParsedCondition) (f : Value → Option String) : Prop :=
  ((∀ p ∈ p?, mentionsLog d p.search = true) → Constant f) ∧
    ∀ p ∈ p?, mentionsLog d p.search = false → ∃ text, f = fun log => some (command log ++ text)

theorem tells_generate_nil (c : Config) {r : Rule} (conditions : r.conditions = []) :
    memory.work.Tells ⟨t, r⟩ false (BeginsWithLog t.query.dialect none) (generate c) := by
  have none : memory.work.Tells ⟨t, r⟩ false (BeginsWithLog t.query.dialect none)
      (FaultM.ofExcept (.ok none)) := tells_ofExcept fun text _ =>
    ⟨fun _ => ⟨text, rfl⟩, fun p member => absurd member (Option.not_mem_none p)⟩
  exact tells_get (fun _ => rfl) (none.of_start fun a => start_first_nil conditions)

theorem tells_generate_cons (c : Config) {r : Rule} {p : ParsedCondition}
    {rest : List ParsedCondition} (conditions : r.conditions = p :: rest) :
    memory.work.Tells ⟨t, r⟩ (mentionsLog t.query.dialect p.search)
      (BeginsWithLog t.query.dialect (some p)) (generate c) := by
  let after :=
    if (t.query.options.get "csv").truthy then " | ConvertTo-CSV -NoTypeInformation" else ""
  have begun : ∀ q : Option String, memory.work.Tells ⟨t, r⟩ false
      (fun f => ∃ text, f = fun log => some (command log ++ text))
      (do return some (command (← get).target.log ++ q.getD "" ++ after)) := by
    intro q
    refine ⟨.ok fun log => some (command log ++ q.getD "" ++ after), none, fun _ => rfl, nofun, ?_⟩
    intro f same
    cases same
    refine ⟨⟨q.getD "" ++ after, ?_⟩, nofun⟩
    funext log
    rw [String.append_assoc]
  have whole := (tells_queryText c p r).bind begun
    (P := BeginsWithLog t.query.dialect (some p))
    (by
      rintro touched f log -
      refine ⟨fun _ => ⟨f log, rfl⟩, ?_⟩
      rintro p' ⟨⟩ untouched
      exact absurd (untouched.symm.trans touched) Bool.false_ne_true)
    (by
      intro untouched f written
      refine ⟨fun touched => ?_, fun _ _ _ => written⟩
      exact absurd (untouched.symm.trans (touched p rfl)) Bool.false_ne_true)
  rw [Bool.or_false] at whole
  exact tells_get (fun _ => rfl) (whole.of_start fun a => start_first conditions)

theorem tells_generate (c : Config) (r : Rule) :
    memory.work.Tells ⟨t, r⟩ (r.conditions.head?.any (mentionsLog t.query.dialect ·.search))
      (BeginsWithLog t.query.dialect r.conditions.head?) (generate c) := by
  have first : r.conditions = [] ∨ ∃ p rest, r.conditions = p :: rest := by
    cases r.conditions <;> simp
  obtain none | ⟨p, rest, some⟩ := first
  · have h := tells_generate_nil (t := t) c none
    rw [none]
    exact h
  · have h := tells_generate_cons (t := t) c some
    rw [some]
    exact h

end PowerShell

/-! ## Qualys -/

namespace Qualys

open Renderer

/-- A target for Qualys remembers how much could be expressed. -/
def memory : Memory Qualys Coverage where
  put coverage t := { t with coverage }
  put_put _ _ _ := rfl

variable {t : Qualys}

/-- A conjunction that loses a part. -/
def cuts (allowed : List Value) (j : Junction) (items : List Cond) : Bool :=
  j = .conj && !items.all (keeps allowed)

theorem tells_enter (allowed : List Value) (j : Junction) (items : List Cond) :
    memory.Tells t (cuts allowed j items) Constant (enter allowed j items) := by
  show memory.Tells t _ Constant (if cuts allowed j items = true then _ else _)
  by_cases cut : cuts allowed j items = true
  · rw [if_pos cut, cut]
    exact tells_put Coverage.part
  · rw [if_neg cut, Bool.eq_false_iff.mpr cut]
    exact tells_constant (.ok ())

theorem plain_valueText (d : Dialect) (v : Value) : (valueText d v).Plain :=
  plain_ofExcept _

theorem writes_itemList (d : Dialect) (allowed : List Value) (field v : Value) :
    (itemList d allowed field v).Writes := by
  have alternatives : ∀ v, (alternative d (field.memberOf allowed) field v).Plain := fun v =>
    (plain_valueText d v).bind fun _ => plain_pure _
  exact (plain_ofExcept _).writes fun vs => (plain_valueTexts alternatives vs).writes fun _ =>
    writes_pure _

theorem writes_item (d : Dialect) (allowed : List Value) (field v : Value) :
    (item d allowed field v).Writes := by
  unfold item
  split
  · refine (plain_operandText (plain_valueText d) d v).writes fun text => ?_
    split
    · exact (plain_ofExcept _).writes writes_pure
    · exact writes_pure text
  · split
    · exact writes_itemList d allowed field _
    · exact writes_throw _

theorem remembers (d : Dialect) (allowed : List Value) :
    (renderer d allowed).Remembers memory t (cuts allowed) (fun _ _ => false) where
  enter j items := tells_enter allowed j items
  anyText := rfl
  join _ _ := tells_constant _
  negate _ := tells_constant _
  bracket _ := tells_constant _
  value v := tells_of_plain (plain_valueText d v)
  list vs := tells_of_plain (writes_listText (plain_valueText d) d vs).plain
  item field v := tells_of_plain (writes_item d allowed field v).plain
  isNull _ := tells_constant _
  notNull _ := tells_constant _

/-- A conjunction of the search loses a part. -/
def losesPart (allowed : List Value) : Cond → Bool :=
  Cond.touches (keeps allowed) (cuts allowed) fun _ _ => false

theorem tells_search (c : Cond) (r : Rule) :
    memory.work.Tells ⟨t, r⟩ (losesPart t.allowed c) Constant (search c) :=
  tells_get (fun _ => rfl) (((remembers t.query.dialect t.allowed).tells_render c).target r)

/-- What is left once the text of a rule is known. -/
def covered (text : Option String) (c : Coverage) : Coverage :=
  if text == some "()" then .nothing else c

/-- The outcome of a rule with a text. -/
def verdict (text : Option String) : Coverage → Except Fault (Option String)
  | .part => .error (.partialMatch text)
  | .nothing => .error (.fullMatch text)
  | .full => .ok text

theorem verdict_inj {text : Option String} {a b : Coverage} :
    verdict text a = verdict text b ↔ a = b := by
  cases a <;> cases b <;> simp [verdict]

/-- The last steps of generation, with a text. -/
def judge (text : Option String) : GenerateM Qualys (Option String) := do
  if text == some "()" then
    modify fun w => { w with target := { w.target with coverage := .nothing } }
  match (← get).target.coverage with
  | .part => throw (.partialMatch text)
  | .nothing => throw (.fullMatch text)
  | .full => return text

theorem start_judge (text : Option String) (a : Coverage) (r : Rule) :
    (judge text).start ⟨memory.put a t, r⟩ =
      (verdict text (covered text a), ⟨memory.put (covered text a) t, r⟩) := by
  unfold judge covered
  by_cases empty : (text == some "()") = true
  · rw [if_pos empty, if_pos empty]
    rfl
  · rw [if_neg empty, if_neg empty]
    cases a <;> rfl

variable {w : Work Qualys} {p : ParsedCondition} {rest : List ParsedCondition}

theorem start_generate_nil (conditions : w.rule.conditions = []) :
    generate.start w = (.ok none, w) := by
  rw [generate, start_bind_of_ok (start_conditions _), conditions]
  rfl

theorem start_generate_eq (conditions : w.rule.conditions = p :: rest) :
    generate.start w = (GenerateM.query search noAggregation p >>= judge).start w := by
  rw [generate, start_bind_of_ok (start_conditions _), conditions]
  rfl

/-- The outcome of a rule goes by the coverage, unless the rule has an outcome of its own. -/
theorem start_generate {r : Rule} (conditions : r.conditions = p :: rest) :
    ∃ (out : Except Fault (Option String)) (left : Option Coverage),
      (left.isSome = true → losesPart t.allowed p.search = true) ∧
      (∀ text, out = .ok text → losesPart t.allowed p.search = true → left.isSome = true) ∧
      ∀ a, generate.start ⟨memory.put a t, r⟩ = match out with
        | .error e => (.error e, ⟨memory.put (left.getD a) t, r⟩)
        | .ok text => (verdict text (covered text (left.getD a)),
          ⟨memory.put (covered text (left.getD a)) t, r⟩) := by
  obtain ⟨out, left, run, honest, returned⟩ := tells_query p (tells_search (t := t) p.search r)
  cases out with
  | error e =>
    refine ⟨.error e, left, honest, nofun, fun a => ?_⟩
    exact (start_generate_eq conditions).trans (start_bind_of_error (run a))
  | ok f =>
    obtain ⟨⟨text, rfl⟩, changed⟩ := returned f rfl
    refine ⟨.ok text, left, honest, fun _ _ => changed, fun a => ?_⟩
    exact (start_generate_eq conditions).trans
      ((start_bind_of_ok (run a)).trans (start_judge text _ r))

end Qualys

/-! ## Search requests -/

namespace Elastic.SearchRequest

/-- The filters that must hold in a combination. -/
def musts : Value → List Value
  | .map es => match lookup (.text "bool") es with
    | some (.map parts) => match lookup (.text "must") parts with
      | some (.list fs) => fs
      | _ => []
    | _ => []
  | _ => []

theorem musts_of_lookup {es parts : Entries} {fs : List Value}
    (combination : lookup (.text "bool") es = some (.map parts))
    (found : lookup (.text "must") parts = some (.list fs)) : musts (.map es) = fs := by
  simp only [musts, combination, found]

theorem musts_require (filter : Value) (extra : List Value) :
    musts (require filter extra) = musts filter ++ extra := by
  have fresh : musts (boolean "must" (.list extra)) = extra := rfl
  unfold require
  split
  · rename_i es
    split
    · rename_i parts combination
      have before : musts (.map es) = (match lookup (.text "must") parts with
          | some (.list fs) => fs
          | _ => []) := by
        rw [musts, combination]
      rw [before]
      exact musts_of_lookup (lookup_put _ _ _) (lookup_put _ _ _)
    · rename_i other
      rw [fresh, musts]
      split
      · rename_i parts combination
        exact absurd combination (other parts)
      · rfl
  · rename_i other
    rw [fresh, musts]
    · rfl
    · exact other

theorem require_ne (filter v : Value) : require filter [v] ≠ filter := by
  intro same
  have length := congrArg (fun f => (musts f).length) same
  simp [musts_require] at length

theorem require_inj {filter v w : Value} : require filter [v] = require filter [w] ↔ v = w := by
  constructor
  · intro same
    have filters := congrArg musts same
    rw [musts_require, musts_require, append_cancel_left_eq] at filters
    exact singleton_inj.mp filters
  · rintro rfl
    rfl

theorem requestWith_inj {counts : Option Value} {f g : Value} :
    requestWith counts f = requestWith counts g ↔ f = g := by
  simp [requestWith, record]

section

variable {title : Value} {tests : Value → Value → Except Fault Value}
  {range : Option (Except Fault Value)} {counts : Option Value} {p : ParsedCondition}

theorem ne_nil_of_requestsOf_error {ps : List ParsedCondition} {e : Fault} {vs : List Value}
    (h : requestsOf title tests range ps = (.error e, vs)) : vs ≠ [] := by
  cases ps with
  | nil => cases h
  | cons p rest =>
    rw [requestsOf] at h
    split at h
    · obtain ⟨-, rfl⟩ := Prod.mk.inj h
      exact cons_ne_nil _ _
    · obtain ⟨-, rfl⟩ := Prod.mk.inj h
      exact cons_ne_nil _ _

/-- The requests of a first condition that has a filter, with a time frame or without. -/
theorem requestsOf_cons {filter : Value} (made : filterOf title tests p.search = .ok filter)
    (found : countsOf title p.aggregation = .ok counts) (rest : List ParsedCondition) :
    requestsOf title tests range (p :: rest) = match range with
      | none => ((requestsOf title tests none rest).1,
        requestWith counts filter :: (requestsOf title tests none rest).2)
      | some (.error e) => (.error e, [requestWith counts (require filter [])])
      | some (.ok v) => ((requestsOf title tests (some (.ok v)) rest).1,
        requestWith counts (require filter [v]) :: (requestsOf title tests (some (.ok v)) rest).2) := by
  have request : requestOf title tests range p = framed range (requestWith counts) filter := by
    rw [requestOf, made]
    simp only [found]
  rw [requestsOf, request]
  rcases range with _ | e | v <;> rfl

theorem requestsOf_inj {c : Config} {i i' : Value} {rest : List ParsedCondition}
    {filter : Value} (made : filterOf title tests p.search = .ok filter)
    (found : countsOf title p.aggregation = .ok counts)
    (same : requestsOf title tests (rangeOf c i) (p :: rest) =
      requestsOf title tests (rangeOf c i') (p :: rest)) : rangeOf c i = rangeOf c i' := by
  -- with a date field that is no key, a time frame is a fault of the first condition
  have fault : ∀ e f, ¬ ((requestsOf title tests none rest).1,
      requestWith counts f :: (requestsOf title tests none rest).2) =
        (.error e, [requestWith counts (require f [])]) := by
    intro e f equal
    obtain ⟨failed, requests⟩ := Prod.mk.inj equal
    exact ne_nil_of_requestsOf_error (Prod.ext failed rfl) (List.cons.inj requests).2
  rw [requestsOf_cons made found, requestsOf_cons made found] at same
  unfold rangeOf at same ⊢
  cases key : keyOf (dateField c) with
  | error e =>
    rw [key] at same
    by_cases timed : i.truthy = true <;> by_cases timed' : i'.truthy = true <;>
      simp only [timed, timed', if_true, if_false, Bool.false_eq_true, Except.map] at same ⊢
    · exact absurd same.symm (fault e filter)
    · exact absurd same (fault e filter)
  | ok date =>
    rw [key] at same
    by_cases timed : i.truthy = true <;> by_cases timed' : i'.truthy = true <;>
      simp only [timed, timed', if_true, if_false, Bool.false_eq_true, Except.map] at same ⊢ <;>
      have requests := requestWith_inj.mp (List.cons.inj (Prod.mk.inj same).2).1
    · exact congrArg (some <| Except.ok ·) (require_inj.mp requests)
    · exact absurd requests (require_ne filter _)
    · exact absurd requests.symm (require_ne filter _)

end

/-- The outcome of a rule and the requests that it adds, with the time frame to take over. -/
def served (c : Config) (r : Rule) (tests : Value → Value → Except Fault Value) (interval : Value) :
    Except Fault (Option String) × List Value :=
  match r.entry "title", r.source c with
  | .error e, _ => (.error e, [])
  | .ok _, .error e => (.error e, [])
  | .ok title, .ok _ =>
    let range := rangeOf c ((timeframe? r.document).getD interval)
    ((requestsOf title tests range r.conditions).1.map fun _ => none,
      (requestsOf title tests range r.conditions).2)

section

variable {c : Config} {r : Rule} {tests : Value → Value → Except Fault Value}

theorem served_of_untimed {title : Value} {source : LogSource} (titled : r.entry "title" = .ok title)
    (sourced : r.source c = .ok source) (none : timeframe? r.document = none) (interval : Value) :
    served c r tests interval =
      ((requestsOf title tests (rangeOf c interval) r.conditions).1.map fun _ => Option.none,
        (requestsOf title tests (rangeOf c interval) r.conditions).2) := by
  rw [served, titled, sourced, none]
  rfl

theorem served_congr {i i' : Value} (same : rangeOf c i = rangeOf c i') :
    served c r tests i = served c r tests i' := by
  unfold served
  cases timeframe? r.document with
  | none => simp only [Option.getD_none, same]
  | some interval => rfl

theorem map_none_inj {x y : Except Fault Unit}
    (same : (x.map fun _ => (none : Option String)) = y.map fun _ => none) : x = y := by
  cases x <;> cases y <;> simp_all [Except.map]

/-- A rule whose first condition has no filter, or that has a time frame of its own, takes over no
time frame. -/
theorem served_eq {i i' : Value} (unread : ∀ p ∈ r.conditions.head?, timeframe? r.document = none →
      ∀ title source filter counts, r.entry "title" = .ok title → r.source c = .ok source →
        filterOf title tests p.search = .ok filter → countsOf title p.aggregation = .ok counts → False) :
    served c r tests i = served c r tests i' := by
  unfold served
  cases titled : r.entry "title" with
  | error e => rfl
  | ok title =>
    cases sourced : r.source c with
    | error e => rfl
    | ok source =>
      cases timed : timeframe? r.document with
      | some interval => rfl
      | none =>
        cases conditions : r.conditions with
        | nil => rfl
        | cons p rest =>
          have first : p ∈ r.conditions.head? := by
            rw [conditions]
            rfl
          -- the first condition fails before the time frame is looked at
          have fails : ∃ e v, ∀ range, requestOf title tests range p = (.error e, v) := by
            cases made : filterOf title tests p.search with
            | error e => exact ⟨e, _, fun range => by rw [requestOf, made]⟩
            | ok filter =>
              cases found : countsOf title p.aggregation with
              | error e => exact ⟨e, _, fun range => by rw [requestOf, made]; simp only [found]; rfl⟩
              | ok counts => exact (unread p first timed title source filter counts titled sourced
                  made found).elim
          obtain ⟨e, v, failed⟩ := fails
          simp only [requestsOf, failed]

end

theorem start_generate_served (c : Config) (r : Rule) (s : SearchRequest) :
    ∃ s' b, (generate c).start ⟨s, r⟩ = ((served c r s.tests s.interval).1, ⟨s', r⟩) ∧
      s'.queries = s.queries ++ (served c r s.tests s.interval).2 ∧ s'.options = s.options ∧
      s'.keywords = { s.keywords with matched := b } ∧
      (timeframe? r.document = none → s'.interval = s.interval) := by
  have entered := start_entry "title" (⟨s, r⟩ : Work SearchRequest)
  unfold served
  cases titled : r.entry "title" with
  | error e =>
    rw [titled] at entered
    refine ⟨s, s.keywords.matched, start_bind_of_error entered, ?_, rfl, rfl, fun _ => rfl⟩
    exact (append_nil _).symm
  | ok title =>
    rw [titled] at entered
    cases sourced : r.source c with
    | error e =>
      exact ⟨{ s with title }, s.keywords.matched, start_generate_of_no_source titled sourced,
        (append_nil _).symm, rfl, rfl, fun _ => rfl⟩
    | ok source =>
      obtain ⟨b, added⟩ :=
        start_addRequests c r.conditions ⟨s.informed title source r.document, r⟩
      let range := rangeOf c ((timeframe? r.document).getD s.interval)
      let w := withRequests ⟨s.informed title source r.document, r⟩ b
        (requestsOf title s.tests range r.conditions).2
      refine ⟨w.target, b, (start_generate titled sourced).trans ((start_map _ _ _).trans ?_),
        rfl, rfl, rfl, ?_⟩
      · rw [added]
        rfl
      · intro none
        show (timeframe? r.document).getD s.interval = _
        rw [none]
        rfl

end Elastic.SearchRequest

end SigmaQuery
