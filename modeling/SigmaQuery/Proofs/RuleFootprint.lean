import SigmaQuery.Proofs.RuleHistory
import SigmaQuery.Proofs.RuleReading

/-!
# What a target leaves in a rule

Some targets write to the rule that they convert: Splunk renames the function of an aggregation over
groups, and the targets for alerts and for watches put in entries that are missing, a time frame among
them. Another target that converts the rule afterwards may read what was written.
-/

namespace SigmaQuery

open FaultM GenerateM TextQuery Elastic.SearchRequest Option Rule

/-! ## Parsed rules -/

namespace Aggregation

/-- The text of the function is its name. -/
def Faithful (a : Aggregation) : Prop :=
  a.functionText = a.function.map AggregateFunction.name

theorem name_of_readFunction {name : String} {f : AggregateFunction}
    (read : readFunction name = .ok f) : f.name = name := by
  rw [readFunction] at read
  split at read
  · rename_i g found
    cases read
    rw [AggregateFunction.ofName?] at found
    have named := List.find?_some found
    exact beq_iff_eq.mp named
  · cases read

theorem Faithful.act {c : Config} {a b : Aggregation} {text : String} {action : AggregationAction}
    (faithful : a.Faithful) (done : a.act c text action = .ok b) : b.Faithful := by
  -- only two actions set the function, and they set its text too
  have named : ∀ {b' : AggregateFunction → Aggregation} {b : Aggregation},
      (readFunction text).map b' = .ok b →
      (∀ f, (b' f).function = some f ∧ (b' f).functionText = some text) → b.Faithful := by
    intro b' b read sets
    obtain ⟨f, found, rfl⟩ := Cond.map_eq_ok read
    rw [Faithful, (sets f).1, (sets f).2, map_some, name_of_readFunction found]
  cases action with
  | setFunction | startNear => exact named done fun f => ⟨rfl, rfl⟩
  | setField | setGroup =>
    obtain ⟨f, -, rfl⟩ := Cond.map_eq_ok done
    exact faithful
  | _ =>
    cases done
    exact faithful

theorem Faithful.move {a : Aggregation} (faithful : a.Faithful) (state : AggregationState) :
    Faithful { a with state } :=
  faithful

theorem Faithful.run {c : Config} {a b : Aggregation} {tokens : List Token} (faithful : a.Faithful)
    (ran : a.run c tokens = .ok b) : b.Faithful := by
  induction tokens generalizing a with
  | nil =>
    rw [Aggregation.run] at ran
    split at ran
    · cases ran
      exact faithful
    · cases ran
  | cons t rest ih =>
    rw [Aggregation.run] at ran
    split at ran
    · cases ran
    · split at ran
      · cases ran
      · split at ran
        · cases ran
        · rename_i b' acted
          exact ih ((faithful.act acted).move _) ran

end Aggregation

/-- An aggregation of the condition has the name of its function. -/
def ParsedCondition.Faithful (p : ParsedCondition) : Prop :=
  ∀ a ∈ p.aggregation, a.Faithful

variable {source : Except Fault (Option LogSource)} {d : Detection} {p : ParsedCondition}
  {r r' : Rule} {rest : List ParsedCondition} {a : Aggregation}

theorem faithful_of_parseCondition {elements : List Cond}
    (yields : (parseCondition source d elements).Yields p) : p.Faithful := by
  rw [parseCondition] at yields
  split at yields
  · obtain ⟨search, -, last⟩ := yields.bind
    rw [last.of_pure]
    intro a member
    cases member
  · obtain ⟨search, -, rest⟩ := yields.bind
    obtain ⟨c, -, rest⟩ := rest.bind
    obtain ⟨a, ⟨_, _, made⟩, last⟩ := rest.bind
    rw [last.of_pure]
    intro a' member
    cases member
    have made : aggregationOf c _ = .ok a := congrArg Prod.fst made
    rw [aggregationOf] at made
    split at made
    · exact Aggregation.Faithful.run (a := {}) rfl made
    · cases made

theorem faithful_of_parseConditions {rows : List (List Cond)} {ps : List ParsedCondition}
    (yields : (parseConditions source d rows).Yields ps) : ∀ p ∈ ps, p.Faithful := by
  induction rows generalizing ps with
  | nil =>
    rw [yields.of_pure]
    intro p member
    cases member
  | cons elements rest ih =>
    obtain ⟨p, first, others⟩ := yields.bind
    obtain ⟨ps, later, last⟩ := others.bind
    rw [last.of_pure]
    exact List.forall_mem_cons.mpr ⟨faithful_of_parseCondition first, ih later⟩

/-- A parsed rule has a detection part, and its aggregations have the names of their functions. -/
structure Rule.Sound (r : Rule) : Prop where
  detected : ∃ es detection, r.document = .map es ∧
    lookup (.text "detection") es = some (.map detection)
  faithful : ∀ p ∈ r.conditions, p.Faithful

theorem Rule.sound_of_parse {document : Value} {c₀ c₁ : Config}
    (parsed : (parse document).start c₀ = (.ok r, c₁)) : r.Sound := by
  have yields : (parse document).Yields r := ⟨c₀, c₁, parsed⟩
  obtain ⟨detection, ⟨_, _, found⟩, rest⟩ := yields.bind
  have found : detectionEntries document = .ok detection := congrArg Prod.fst found
  obtain ⟨_, -, rest⟩ := rest.bind
  obtain ⟨rows, -, rest⟩ := rest.bind
  obtain ⟨c, -, rest⟩ := rest.bind
  obtain ⟨ps, conditions, rest⟩ := rest.bind
  obtain ⟨c', -, rest⟩ := rest.bind
  rw [rest.of_pure]
  constructor
  · cases document with
    | map es =>
      rw [detectionEntries] at found
      split at found
      · cases found
      · rename_i part
        cases found
        exact ⟨es, detection, rfl, part⟩
      · cases found
    | _ => cases found
  · intro p member
    obtain ⟨p', inside, rfl⟩ := List.mem_map.mp member
    exact faithful_of_parseConditions conditions p' inside

/-! ## Splunk -/

theorem FaultM.view_bind {σ α β υ : Type} (view : σ → υ) {m : FaultM σ α} {f : α → FaultM σ β}
    (next : ∀ a, Keeps view (f a)) (s : σ) : view ((m >>= f).start s).2 = view (m.start s).2 := by
  rcases run : m.start s with ⟨e | a, t⟩
  · rw [start_bind_of_error run]
  · rw [start_bind_of_ok run]
    exact next a t

/-- The rule with another aggregation of its first condition. -/
def Rule.withAggregation (a : Aggregation) (r : Rule) : Rule :=
  { r with conditions := match r.conditions with
    | [] => []
    | p :: rest => { p with aggregation := some a } :: rest }

theorem Rule.withAggregation_self (conditions : r.conditions = p :: rest)
    (has : p.aggregation = some a) : r.withAggregation a = r := by
  obtain ⟨document, detection, ps⟩ := r
  obtain ⟨search, aggregation⟩ := p
  obtain rfl : ps = _ := conditions
  obtain rfl : aggregation = _ := has
  rfl

theorem TextQuery.start_generate (renderer : Dialect → Renderer TextQuery)
    (aggregate : Aggregation → GenerateM TextQuery String) (t : TextQuery) (r : Rule) :
    (TextQuery.generate renderer aggregate).start ⟨t, r⟩ =
      (written renderer aggregate t.options r.conditions).start ⟨t, r⟩ := by
  rw [generate_eq, start_bind_of_ok (start_get _), start_bind_of_ok (start_conditions _)]

namespace Splunk

theorem keeps_columns (c : Config) : Keeps (fun w => w) (columns c) := by
  have entries : Keeps (fun w => w) (GenerateM.entries : GenerateM TextQuery Entries) := by
    intro w
    rw [start_entries]
  have shown : Keeps (fun w => w) (GenerateM.shownFields : GenerateM TextQuery _) := by
    refine entries.bind fun es => ?_
    split
    · exact keeps_pure _
    · exact (keeps_ofExcept _).bind fun _ => keeps_pure _
  refine shown.bind fun fields => ?_
  split
  · exact keeps_pure _
  · exact keeps_pure _
  · exact (keeps_ofExcept _).bind fun _ => keeps_pure _

/-- The target gets to the aggregation of a condition. -/
def Gets (c : Config) (t : TextQuery) (r : Rule) (p : ParsedCondition) : Prop :=
  (columns c).Returns ⟨t, r⟩ ∧ (search (renderer true) p.search).Returns ⟨t, r⟩

section

variable {c : Config} {t : TextQuery} {r : Rule} {p : ParsedCondition} {a : Aggregation}

theorem rule_aggregate (w : Work TextQuery) (offered : a.function ≠ some .near) :
    ((aggregate a).start w).2.rule = w.rule.withAggregation (groupedFunction a) := by
  rw [aggregate, if_neg offered, pipelineAggregation, if_neg]
  · rfl
  · rwa [function_groupedFunction]

theorem rule_query_of_returns (w : Work TextQuery) (has : p.aggregation = some a)
    (offered : a.function ≠ some .near)
    (searched : (search (renderer true) p.search).Returns w) :
    ((GenerateM.query (search (renderer true)) aggregate p).start w).2.rule =
      w.rule.withAggregation (groupedFunction a) := by
  obtain ⟨text, w', run⟩ := searched
  have kept : w'.rule = w.rule := (congrArg (fun x => x.2.rule) run).symm
  rw [GenerateM.query, start_bind_of_ok run, has, ← kept, ← rule_aggregate w' offered]
  refine FaultM.view_bind Work.rule (fun suffix => ?_) w'
  split
  · exact keeps_pure _
  · exact keeps_throw _

theorem rule_query_of_not (w : Work TextQuery)
    (not : ∀ a, p.aggregation = some a → a.function ≠ some .near →
      ¬ (search (renderer true) p.search).Returns w) :
    ((GenerateM.query (search (renderer true)) aggregate p).start w).2.rule = w.rule := by
  rcases run : (search (renderer true) p.search).start w with ⟨e | text, w'⟩
  · rw [GenerateM.query, start_bind_of_error run]
    exact (congrArg (fun x => x.2.rule) run).symm
  · have kept : w'.rule = w.rule := (congrArg (fun x => x.2.rule) run).symm
    rw [GenerateM.query, start_bind_of_ok run, ← kept]
    cases has : p.aggregation with
    | none => rfl
    | some a =>
      -- the search returns, so the function is one that is not offered
      have near : a.function = some .near := by
        by_contra other
        exact not a has other ⟨text, w', run⟩
      have thrown : (aggregate a).start w' = (.error (.unoffered .nearAggregation), w') := by
        rw [aggregate, if_pos near]
        rfl
      show (Work.rule (FaultM.start (aggregate a >>= _) w').2) = _
      rw [start_bind_of_error thrown]

theorem rule_written (o : Options) (p : ParsedCondition) (rest : List ParsedCondition)
    (w : Work TextQuery) :
    ((written (renderer true) aggregate o (p :: rest)).start w).2.rule =
      ((GenerateM.query (search (renderer true)) aggregate p).start w).2.rule := by
  refine FaultM.view_bind Work.rule (fun q => ?_) w
  refine Keeps.bind (fun w => ?_) fun _ => keeps_pure _
  rw [start_titleComment]

theorem rule_generate_of_columns (read : (columns c).Returns ⟨t, r⟩) :
    ((generate c).start ⟨t, r⟩).2.rule =
      ((written (renderer true) aggregate t.options r.conditions).start ⟨t, r⟩).2.rule := by
  obtain ⟨names, w, run⟩ := read
  have kept : w = ⟨t, r⟩ := by
    have := keeps_columns c ⟨t, r⟩
    rwa [run] at this
  rw [kept] at run
  rw [generate, start_bind_of_ok run, ← TextQuery.start_generate]
  refine FaultM.view_bind Work.rule (fun text => ?_) _
  split
  · exact keeps_pure _
  · exact (keeps_ofExcept _).bind fun _ => keeps_pure _

theorem rule_generate_of_gets {rest : List ParsedCondition} (conditions : r.conditions = p :: rest)
    (has : p.aggregation = some a) (offered : a.function ≠ some .near) (gets : Gets c t r p) :
    ((generate c).start ⟨t, r⟩).2.rule = r.withAggregation (groupedFunction a) := by
  rw [rule_generate_of_columns gets.1, conditions, rule_written,
    rule_query_of_returns ⟨t, r⟩ has offered gets.2]

theorem rule_generate_of_not (not : ∀ p ∈ r.conditions.head?, ∀ a ∈ p.aggregation,
    a.function ≠ some .near → ¬ Gets c t r p) : ((generate c).start ⟨t, r⟩).2.rule = r := by
  by_cases read : (columns c).Returns ⟨t, r⟩
  · rw [rule_generate_of_columns read]
    cases conditions : r.conditions with
    | nil => rfl
    | cons p rest =>
      rw [rule_written, rule_query_of_not]
      intro a has offered searched
      exact not p (by rw [conditions]; rfl) a has offered ⟨read, searched⟩
  · rcases run : (columns c).start ⟨t, r⟩ with ⟨e | names, w⟩
    · have kept := keeps_columns c ⟨t, r⟩
      rw [run] at kept
      rw [generate, start_bind_of_error run]
      exact congrArg Work.rule kept
    · exact absurd ⟨names, w, run⟩ read

end

end Splunk

/-! ## Alerts and watches -/

section Timeframes

variable {σ α β : Type}

/-- From rules with the first property the computation returns, and the rule then has the second. -/
def GenerateM.Leads (P Q : Rule → Prop) (m : GenerateM σ α) : Prop :=
  ∀ t r, P r → ∃ a w, m.start ⟨t, r⟩ = (.ok a, w) ∧ Q w.rule

/-- From rules with the first property the rule has the second afterwards, whatever the outcome. -/
def GenerateM.Reaches (P Q : Rule → Prop) (m : GenerateM σ α) : Prop :=
  ∀ t r, P r → Q (m.start ⟨t, r⟩).2.rule

variable {P Q : Rule → Prop} {m : GenerateM σ α} {es : Entries} {r : Rule}

theorem GenerateM.Leads.reaches {R : Rule → Prop} {f : α → GenerateM σ β} (first : Leads P Q m)
    (next : ∀ a, Reaches Q R (f a)) : Reaches P R (m >>= f) := by
  intro t r holds
  obtain ⟨a, w, run, there⟩ := first t r holds
  rw [start_bind_of_ok run]
  exact next a w.target w.rule there

theorem GenerateM.reaches_of_keeps (kept : Keeps Work.rule m) : Reaches P P m := by
  intro t r holds
  rw [kept ⟨t, r⟩]
  exact holds

/-- What is done for all conditions keeps the rule, so the rule is then as it was before. -/
theorem GenerateM.Reaches.conditions {shared : GenerateM σ α}
    {each : α → List ParsedCondition → GenerateM σ Unit} (reaches : Reaches P Q shared)
    (kept : ∀ s ps, Keeps Work.rule (each s ps)) : Reaches P Q (do
      let s ← shared
      each s (← GenerateM.conditions)
      return none : GenerateM σ (Option String)) := by
  intro t r holds
  have rest : ∀ s, Keeps Work.rule (do
      each s (← GenerateM.conditions)
      return none : GenerateM σ (Option String)) := fun s =>
    Keeps.bind (fun _ => rfl) fun ps => Keeps.bind (kept s ps) fun _ => keeps_pure _
  rw [FaultM.view_bind Work.rule rest]
  exact reaches t r holds

/-- The rule has a title that is a text, and a detection part. -/
def Rule.Titled (r : Rule) : Prop :=
  ∃ es title detection, r.topEntries = .ok es ∧ lookup (.text "title") es = some (.text title) ∧
    lookup (.text "detection") es = some (.map detection)

/-- The rule has a time frame. -/
def Rule.Timed (r : Rule) : Prop :=
  ∃ es detection v, r.topEntries = .ok es ∧ lookup (.text "detection") es = some (.map detection) ∧
    lookup (.text "timeframe") detection = some v

theorem lookup_putDefault_of_some {k k' : Key} {v : Value} (found : lookup k es = some v)
    (w : Value) : lookup k (putDefault k' w es) = some v := by
  by_cases same : k = k'
  · rw [← same, putDefault_of_lookup found, found]
  · rw [lookup_putDefault_of_ne same, found]

theorem leads_entryOr (k : String) (default : Value) :
    Leads Titled Titled (GenerateM.entryOr k default : GenerateM σ Value) := by
  rintro t r ⟨es, title, detection, found, titled, detected⟩
  refine ⟨_, _, start_entryOr found k default, ?_⟩
  exact ⟨_, title, detection, rfl, lookup_putDefault_of_some titled _,
    lookup_putDefault_of_some detected _⟩

theorem leads_ruleName (used : σ → List String) (replace : List String → σ → σ) :
    Leads Titled Titled (GenerateM.ruleName used replace) := by
  rintro t r ⟨es, title, detection, found, titled, detected⟩
  have entry : r.entry "title" = .ok (.text title) := by
    rw [Rule.entry, Rule.document_of_topEntries found]
    simp only [titled]
  exact ⟨_, _, start_ruleName_of_title entry, es, title, detection, found, titled, detected⟩

theorem leads_timeframeOr : Leads Titled Timed
    (GenerateM.detectionEntryOr "timeframe" (.text "30m") : GenerateM σ Value) := by
  rintro t r ⟨es, title, detection, found, titled, detected⟩
  have timeframe : timeframeIn es = .ok ((lookup (.text "timeframe") detection).getD "30m") := by
    rw [timeframeIn, detected]
  refine ⟨_, _, (start_timeframeOr found).trans (by rw [timeframe]), ?_⟩
  refine ⟨_, putDefault (.text "timeframe") (.text "30m") detection, _, rfl, ?_, lookup_putDefault _ _ _⟩
  simp only [withTimeframe, detected, lookup_put]

theorem keeps_rule_logSource (c : Config) :
    Keeps Work.rule (GenerateM.logSource c : GenerateM σ LogSource) := by
  intro w
  rw [start_logSource]

/-- The rule has a title that is a text. -/
def Rule.HasTitle (r : Rule) : Prop :=
  ∃ title, r.entry "title" = .ok (.text title)

theorem Rule.Sound.titled {r : Rule} (sound : r.Sound) (has : r.HasTitle) : r.Titled := by
  obtain ⟨es, detection, document, detected⟩ := sound.detected
  obtain ⟨title, entry⟩ := has
  obtain ⟨es', found, titled⟩ := entry_eq_ok entry
  have same : Value.map es' = .map es := (document_of_topEntries found).symm.trans document
  rw [Value.map.inj same] at found titled
  exact ⟨es, title, detection, found, titled, detected⟩

/-- A computation that begins with naming the rule leaves one without a title as it is. -/
theorem GenerateM.rule_of_untitled {used : σ → List String} {replace : List String → σ → σ}
    {rest : String → GenerateM σ α} {next : α → GenerateM σ β} {t : σ} (untitled : ¬ r.HasTitle) :
    (((GenerateM.ruleName used replace >>= rest) >>= next).start ⟨t, r⟩).2.rule = r := by
  obtain ⟨e, failed⟩ : ∃ e, (GenerateM.ruleName used replace).start ⟨t, r⟩ = (.error e, ⟨t, r⟩) :=
    start_ruleName_of_no_title (not_exists.mp untitled)
  rw [start_bind_of_error (start_bind_of_error failed)]

/-- The rule is the other one with entries put in that are read as before, a time frame among them. -/
structure Rule.Filled (r r' : Rule) : Prop where
  reading : r'.reading = r.reading
  conditions : r'.conditions = r.conditions
  timeframe : timeframe? r'.document = some ((timeframe? r.document).getD (.text "30m"))

theorem timeframe?_of_detection {detection : Entries} (found : r.topEntries = .ok es)
    (detected : lookup (.text "detection") es = some (.map detection)) :
    timeframe? r.document = lookup (.text "timeframe") detection := by
  have read : (Value.map es).get? (.text "detection") = some (.map detection) := detected
  rw [timeframe?, document_of_topEntries found, read]
  rfl

theorem ParsedCondition.mapAggregation_id (p : ParsedCondition) : p.mapAggregation id = p := by
  obtain ⟨search, aggregation⟩ := p
  cases aggregation <;> rfl

theorem map_mapAggregation_id (ps : List ParsedCondition) : ps.map (·.mapAggregation id) = ps :=
  (List.map_congr_left fun p _ => p.mapAggregation_id).trans (List.map_id ps)

/-- A computation that keeps what is read of a rule, and that puts in a time frame. -/
theorem filled_of_sees (sees : Sees (seen id) m) (reaches : Reaches Titled Timed m)
    (t : σ) (titled : r.Titled) : r.Filled (m.start ⟨t, r⟩).2.rule := by
  have kept : (m.start ⟨t, r⟩).2.rule.seen id = r.seen id := sees.keeps ⟨t, r⟩
  obtain ⟨reading, conditions⟩ := Prod.mk.inj kept
  rw [map_mapAggregation_id, map_mapAggregation_id] at conditions
  refine ⟨reading, conditions, ?_⟩
  obtain ⟨es', detection', v, found', detected', timed⟩ := reaches t r titled
  obtain ⟨es, -, detection, found, -, detected⟩ := titled
  rw [timeframe?_of_detection found detected, timeframe?_of_detection found' detected', timed]
  rw [Rule.reading, Rule.reading, found, found'] at reading
  have frames : Rule.timeframeIn es' = Rule.timeframeIn es :=
    congrArg Prod.snd (Except.ok.inj reading)
  rw [timeframeIn, timeframeIn, detected, detected'] at frames
  simp only [timed, getD_some] at frames
  exact congrArg some (Except.ok.inj frames)

end Timeframes

namespace Elastic.Elastalert

theorem reaches_generate (c : Config) : Reaches Titled Timed (generate c) := by
  refine Reaches.conditions ?_ fun s ps => (sees_addAlerts s 0 ps : Sees (fun r => r) _).keeps
  refine (leads_ruleName _ _).reaches fun _ => (leads_entryOr _ _).reaches fun _ =>
    (leads_entryOr _ _).reaches fun _ => (leads_entryOr _ _).reaches fun _ =>
      (leads_entryOr _ _).reaches fun _ => (leads_entryOr _ _).reaches fun _ =>
        leads_timeframeOr.reaches fun _ => reaches_of_keeps ?_
  exact (keeps_ofExcept _).bind fun _ => (keeps_rule_logSource c).bind fun _ => keeps_pure _

theorem filled_generate {c : Config} {t : Elastalert} {r : Rule} (titled : r.Titled) :
    r.Filled ((generate c).start ⟨t, r⟩).2.rule := by
  refine filled_of_sees (sees_generate (fun s n p => ?_) c) (reaches_generate c) t titled
  rw [p.mapAggregation_id]

theorem rule_generate_of_untitled {c : Config} {t : Elastalert} {r : Rule} (untitled : ¬ r.HasTitle) :
    ((generate c).start ⟨t, r⟩).2.rule = r :=
  rule_of_untitled untitled

end Elastic.Elastalert

namespace Elastic.Watcher

theorem reaches_generate (c : Config) : Reaches Titled Timed (generate c) := by
  have kept : ∀ s ps, Sees (fun r => r) (setWatches s none ps) := fun s ps =>
    sees_setWatches (fun _ _ same => congrArg reading same) s none ps
  refine Reaches.conditions ?_ fun s ps => (kept s ps).keeps
  refine (leads_ruleName _ _).reaches fun _ => (leads_entryOr _ _).reaches fun _ =>
    (leads_entryOr _ _).reaches fun _ => (leads_entryOr _ _).reaches fun _ =>
      (leads_entryOr _ _).reaches fun _ => leads_timeframeOr.reaches fun _ => reaches_of_keeps ?_
  exact (keeps_rule_logSource c).bind fun _ => keeps_pure _

theorem filled_generate {c : Config} {t : Watcher} {r : Rule} (titled : r.Titled) :
    r.Filled ((generate c).start ⟨t, r⟩).2.rule := by
  refine filled_of_sees (sees_generate (fun s order p => ?_) c) (reaches_generate c) t titled
  rw [p.mapAggregation_id]

theorem rule_generate_of_untitled {c : Config} {t : Watcher} {r : Rule} (untitled : ¬ r.HasTitle) :
    ((generate c).start ⟨t, r⟩).2.rule = r :=
  rule_of_untitled untitled

end Elastic.Watcher

/-! ## Rules that are read alike -/

/-- The aggregation without the text of its function, if it counts. -/
def unnamedCount (a : Aggregation) : Aggregation :=
  if a.function = some .count then { a with functionText := none } else a

theorem unnamedCount_groupedFunction (faithful : a.Faithful) :
    unnamedCount (Splunk.groupedFunction a) = unnamedCount a := by
  by_cases grouped : (a.group.isSome && a.functionText == some "count") = true
  · have renamed : Splunk.groupedFunction a = { a with functionText := some "dc" } := if_pos grouped
    have counts : a.function = some .count := by
      rw [Bool.and_eq_true, beq_iff_eq, faithful] at grouped
      obtain ⟨f, function, name⟩ := map_eq_some_iff.mp grouped.2
      cases f with
      | count => exact function
      | _ => exact absurd name (by decide)
    rw [renamed, unnamedCount, unnamedCount, if_pos counts, if_pos counts]
  · have same : Splunk.groupedFunction a = a := if_neg grouped
    rw [same]

namespace Elastic

theorem Elastalert.aggregate_unnamedCount {σ : Type} (a : Aggregation) :
    (Elastalert.aggregate (unnamedCount a) : GenerateM σ String) = Elastalert.aggregate a := by
  rw [unnamedCount]
  split <;> rfl

theorem Elastalert.trigger_unnamedCount (interval : Value) (a : Option Aggregation) :
    Elastalert.trigger interval (a.map unnamedCount) = Elastalert.trigger interval a := by
  cases a with
  | none => rfl
  | some a =>
    rw [map_some, unnamedCount]
    split
    · rename_i counts
      have metric : Elastalert.metric { a with functionText := none } = Elastalert.metric a := by
        rw [Elastalert.metric, Elastalert.metric, if_pos counts, if_pos counts]
      rw [Elastalert.trigger, Elastalert.trigger, metric]
      rfl
    · rfl

theorem Elastalert.alert_unnamedCount (s : Elastalert.Shared) (n : Nat) (p : ParsedCondition) :
    Elastalert.alert s n (p.mapAggregation unnamedCount) = Elastalert.alert s n p := by
  have filter : Elastalert.filter (p.mapAggregation unnamedCount) = Elastalert.filter p := by
    rw [Elastalert.filter, Elastalert.filter, query_mapAggregation Elastalert.aggregate_unnamedCount]
  have trigger : Elastalert.trigger s.interval (p.mapAggregation unnamedCount).aggregation =
      Elastalert.trigger s.interval p.aggregation := Elastalert.trigger_unnamedCount _ _
  rw [Elastalert.alert, Elastalert.alert, filter, trigger]

theorem Watcher.counting_unnamedCount (order : Option String) (a : Option Aggregation) :
    Watcher.counting order (a.map unnamedCount) = Watcher.counting order a := by
  cases a with
  | none => rfl
  | some a =>
    rw [map_some, unnamedCount]
    split
    · cases threshold : a.threshold <;>
        simp only [Watcher.counting, bind_some, threshold, map_none, map_some]
    · rfl

theorem Watcher.setWatch_unnamedCount (s : Watcher.Shared) (order : Option String)
    (p : ParsedCondition) :
    Watcher.setWatch s order (p.mapAggregation unnamedCount) = Watcher.setWatch s order p := by
  have watch : ∀ query, Watcher.watchOf s order query (p.mapAggregation unnamedCount).aggregation =
      Watcher.watchOf s order query p.aggregation := by
    intro query
    rw [Watcher.watchOf, Watcher.watchOf]
    have counts : Watcher.counting order (p.mapAggregation unnamedCount).aggregation =
        Watcher.counting order p.aggregation := Watcher.counting_unnamedCount _ _
    rw [counts]
  simp only [Watcher.setWatch, watch]
  rfl

end Elastic

theorem Rule.seen_withAggregation {blur : Aggregation → Aggregation} {b : Aggregation}
    (conditions : r.conditions = p :: rest) (has : p.aggregation = some a) (same : blur b = blur a) :
    (r.withAggregation b).seen blur = r.seen blur := by
  obtain ⟨document, detection, ps⟩ := r
  obtain ⟨search, aggregation⟩ := p
  obtain rfl : ps = _ := conditions
  obtain rfl : aggregation = _ := has
  show (_, ParsedCondition.mapAggregation blur ⟨search, some b⟩ :: _) =
    (_, ParsedCondition.mapAggregation blur ⟨search, some a⟩ :: _)
  rw [ParsedCondition.mapAggregation, ParsedCondition.mapAggregation, map_some,
    map_some, same]
  rfl

theorem Rule.Filled.seen (filled : r.Filled r') (blur : Aggregation → Aggregation) :
    r'.seen blur = r.seen blur := by
  rw [Rule.seen, Rule.seen, filled.reading, filled.conditions]

/-! ## Search requests -/

theorem Rule.entry_congr (same : r'.reading = r.reading) {k : String}
    (plain : Key.text k ≠ .text "detection") (unfilled : lookup (.text k) fillers = none) :
    r'.entry k = r.entry k := by
  have sees : Sees reading (GenerateM.entry k : GenerateM Unit Value) :=
    sees_entry (fun _ _ same => same) plain unfilled
  have outcomes := congrArg Prod.fst (sees.agrees () r' r same)
  rwa [outcome, outcome, start_entry, start_entry] at outcomes

theorem Rule.source_congr (same : r'.reading = r.reading) (c : Config) :
    r'.source c = r.source c := by
  rw [source, source, logSource_congr same]

namespace Elastic.SearchRequest

/-- The indices after a rule with such a title and log source. -/
def indicesAfter (s : SearchRequest) : Except Fault Value → Except Fault LogSource →
    Option (List String)
  | .ok _, .ok source => some source.index
  | _, _ => s.indices

theorem indices_generate (c : Config) (r : Rule) (s : SearchRequest) :
    ((generate c).start ⟨s, r⟩).2.target.indices = s.indicesAfter (r.entry "title") (r.source c) := by
  have entered := GenerateM.start_entry "title" (⟨s, r⟩ : Work SearchRequest)
  cases titled : r.entry "title" with
  | error e =>
    rw [titled] at entered
    rw [generate, start_bind_of_error entered]
    rfl
  | ok title =>
    rw [titled] at entered
    cases sourced : r.source c with
    | error e =>
      rw [start_generate_of_no_source titled sourced]
      rfl
    | ok source =>
      obtain ⟨b, added⟩ := start_addRequests c r.conditions ⟨s.informed title source r.document, r⟩
      rw [start_generate titled sourced, start_map, added]
      rfl

variable {c : Config} {r r' : Rule}

/-- What a target for search requests has after two rules is the same if they have the same title and
log source and are served alike. -/
theorem same_of_served {s : SearchRequest} (title : r'.entry "title" = r.entry "title")
    (source : r'.source c = r.source c)
    (same : served c r' s.tests s.interval = served c r s.tests s.interval) :
    ((generate c).start ⟨s, r'⟩).1 = ((generate c).start ⟨s, r⟩).1 ∧
      ((generate c).start ⟨s, r'⟩).2.target.queries = ((generate c).start ⟨s, r⟩).2.target.queries ∧
      ((generate c).start ⟨s, r'⟩).2.target.indices = ((generate c).start ⟨s, r⟩).2.target.indices ∧
      ((generate c).start ⟨s, r'⟩).2.target.options = ((generate c).start ⟨s, r⟩).2.target.options := by
  obtain ⟨s₁, b₁, run₁, queries₁, options₁, -⟩ := start_generate_served c r s
  obtain ⟨s₂, b₂, run₂, queries₂, options₂, -⟩ := start_generate_served c r' s
  have indices := (indices_generate c r' s).trans (by rw [title, source, ← indices_generate c r s])
  rw [run₁, run₂] at indices ⊢
  refine ⟨by rw [same], ?_, indices, options₂.trans options₁.symm⟩
  rw [queries₂, queries₁, same]

/-- A rule with a time frame put in is served like the other one with that time frame to take over. -/
theorem served_filled (filled : r.Filled r') (tests : Value → Value → Except Fault Value)
    (interval : Value) : served c r' tests interval = served c r tests (.text "30m") := by
  rw [served, served, entry_congr filled.reading (by decide) rfl,
    source_congr filled.reading, filled.timeframe, filled.conditions]
  rfl

theorem countsOf_groupedFunction (title : Value) (a : Aggregation) :
    countsOf title (some (Splunk.groupedFunction a)) = countsOf title (some a) := by
  rw [Splunk.groupedFunction]
  split <;> rfl

theorem served_of_requests {tests : Value → Value → Except Fault Value}
    (document : r'.document = r.document) (requests : ∀ title range,
      requestsOf title tests range r'.conditions = requestsOf title tests range r.conditions)
    (interval : Value) : served c r' tests interval = served c r tests interval := by
  have title : r'.entry "title" = r.entry "title" := by
    rw [Rule.entry, Rule.entry, document]
  have source : r'.source c = r.source c := by
    rw [Rule.source, Rule.source, Rule.logSource, Rule.logSource, document]
  rw [served, served, title, source, document]
  simp only [requests]

theorem served_withAggregation {p : ParsedCondition} {rest : List ParsedCondition} {a : Aggregation}
    (conditions : r.conditions = p :: rest) (has : p.aggregation = some a)
    (tests : Value → Value → Except Fault Value) (interval : Value) :
    served c (r.withAggregation (Splunk.groupedFunction a)) tests interval =
      served c r tests interval := by
  have document : (r.withAggregation (Splunk.groupedFunction a)).document = r.document := rfl
  refine served_of_requests document (fun title range => ?_) interval
  have request : requestOf title tests range
      { p with aggregation := some (Splunk.groupedFunction a) } = requestOf title tests range p := by
    simp only [requestOf, countsOf_groupedFunction, has]
  simp only [withAggregation, conditions, requestsOf, request]

end Elastic.SearchRequest

/-! ## Text -/

namespace TextQuery

theorem start_search (renderer : Dialect → Renderer TextQuery) (c : Cond) (t : TextQuery) (r : Rule) :
    (search renderer c).start ⟨t, r⟩ = ((((renderer t.dialect).render c).start t).1,
      ⟨(((renderer t.dialect).render c).start t).2, r⟩) :=
  rfl

variable {r : Rule} {p : ParsedCondition} {rest : List ParsedCondition}

theorem outcome_generate {renderer : Dialect → Renderer TextQuery}
    {aggregate : Aggregation → GenerateM TextQuery String} (t : TextQuery)
    (conditions : r.conditions = p :: rest) : outcome (generate renderer aggregate) t r =
      outcome (written renderer aggregate t.options (p :: rest)) t r := by
  rw [outcome, outcome, start_generate, conditions]

/-- What a text target writes for the first condition with any aggregation that it offers: the
aggregation between two texts, or the same fault. -/
theorem outcome_pipeline (renderer : Dialect → Renderer TextQuery) (step compare : String)
    (t : TextQuery) (conditions : r.conditions = p :: rest) :
    ∃ frame : Except Fault (String × String), ∀ a, a.function ≠ some .near →
      (outcome (generate renderer (pipelineAggregation step compare)) t (r.withAggregation a)).1 =
      frame.map fun x => some (x.1 ++ pipelineText step compare (textOrNone a.functionText) a ++ x.2) := by
  have first : ∀ a, (r.withAggregation a).conditions = { p with aggregation := some a } :: rest := by
    intro a
    rw [withAggregation, conditions]
  rcases run : ((renderer t.dialect).render p.search).start t with ⟨written?, t'⟩
  -- the aggregation comes after the search and before the comment, neither of which goes by it
  refine ⟨do
    let text ← written?
    let text ← text.elim (.error .wrongType) .ok
    let b ← r.comment t.options
    return (b.getD "" ++ text, (commentEnd t.options).getD ""), fun a offered => ?_⟩
  have searched := start_search renderer p.search t (r.withAggregation a)
  have piped : (pipelineAggregation step compare a).start ⟨t', r.withAggregation a⟩ =
      (.ok (pipelineText step compare (textOrNone a.functionText) a), ⟨t', r.withAggregation a⟩) := by
    rw [pipelineAggregation, if_neg offered]
    rfl
  have commented : (titleComment t.options).start ⟨t', r.withAggregation a⟩ =
    (r.comment t.options, ⟨t', r.withAggregation a⟩) := start_titleComment t.options _
  rw [run] at searched
  rw [outcome_generate t (first a), written, outcome, GenerateM.query]
  rcases written? with e | _ | text
  · rw [start_bind_of_error (start_bind_of_error searched)]
    rfl
  · rw [start_bind_of_error ((start_bind_of_ok searched).trans (start_bind_of_ok piped))]
    rfl
  · rw [start_bind_of_ok ((start_bind_of_ok searched).trans (start_bind_of_ok piped))]
    cases comment : r.comment t.options with
    | error e =>
      rw [comment] at commented
      rw [start_bind_of_error commented]
      rfl
    | ok b =>
      rw [comment] at commented
      rw [start_bind_of_ok commented]
      exact congrArg (fun s => Except.ok (some s)) (by simp only [getD_some, String.append_assoc])

end TextQuery

end SigmaQuery
