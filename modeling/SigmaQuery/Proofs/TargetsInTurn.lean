import SigmaQuery.Proofs.RuleFootprint
import SigmaQuery.Proofs.Watches

/-!
# Targets in turn

One rule is converted by one target and then by another. What the first target writes to the rule may
show in what the second produces, for two reasons only: Splunk has renamed the count of an aggregation
over groups, which two targets write by its name, or a target for alerts or watches has put in a time
frame, which the target for search requests takes for the rule's own.
-/

namespace SigmaQuery

open FaultM GenerateM Elastic Target SearchRequest Splunk

/-- The output of a target for search requests goes by its options and by what it has collected. -/
theorem Elastic.SearchRequest.finalize_congr {s s' : SearchRequest} (options : s'.options = s.options)
    (indices : s'.indices = s.indices) (queries : s'.queries = s.queries) :
    s'.finalize = s.finalize := by
  rw [SearchRequest.finalize, SearchRequest.finalize, options, indices, queries]

/-- A pipeline shows the name of its function: the texts have different lengths. -/
theorem pipelineText_ne (step compare : String) (a : Aggregation) (x y : String) :
    x ++ pipelineText step compare "dc" { a with functionText := some "dc" } ++ y ≠
      x ++ pipelineText step compare "count" a ++ y := by
  intro same
  -- the texts as they are put together: all parts but the name are the same on both sides
  delta pipelineText at same
  have lengths := congrArg String.length same
  have short : "dc".length = 2 := rfl
  have long : "count".length = 5 := rfl
  simp only [String.length_append, short, long] at lengths
  omega

namespace Target

/-- What a target has collected: requests with their indices, alerts, or watches. -/
def collected : Target → Option (List String) × List Value × Entries
  | .esDsl s => (s.indices, s.queries, [])
  | .elastalert s => (none, [], s.alerts)
  | .watcher s => (none, [], s.watches)
  | _ => (none, [], [])

/-- What a target produces from a rule: its result, and what it has collected then. -/
def product (c : Config) (r : Rule) (t : Target) :
    Except Fault (Option String) × Option (List String) × List Value × Entries :=
  ((t.generate c r).result, (t.generate c r).target.collected)

/-- The target produces the same from two rules, and so has the same output in the end. -/
structure ProducesAlike (c : Config) (r r' : Rule) (t : Target) : Prop where
  product : t.product c r' = t.product c r
  final : (t.generate c r').target.finalize.1 = (t.generate c r).target.finalize.1

section

variable {c : Config} {r r' : Rule}

theorem producesAlike_of_eq {t : Target} (same : r' = r) : t.ProducesAlike c r r' := by
  rw [same]
  exact ⟨rfl, rfl⟩

theorem producesAlike_of_outcome {σ : Type} {back : σ → Target} {m : GenerateM σ (Option String)}
    {s : σ} (runs : ∀ r, (back s).generate c r = runGeneration back m s r)
    (same : outcome m s r' = outcome m s r) : (back s).ProducesAlike c r r' := by
  obtain ⟨results, targets⟩ := Prod.mk.inj same
  have result : ((back s).generate c r').result = ((back s).generate c r).result := by
    rw [runs, runs]
    exact results
  have target : ((back s).generate c r').target = ((back s).generate c r).target := by
    rw [runs, runs]
    exact congrArg back targets
  refine ⟨?_, by rw [target]⟩
  rw [product, product, result, target]

theorem output_eq_product (s : SearchRequest) (c : Config) (r : Rule) :
    (esDsl s).output c r = (((esDsl s).product c r).1,
      ((esDsl s).product c r).2.2.1.drop s.queries.length) :=
  rfl

theorem generate_esDsl (s : SearchRequest) (c : Config) (r : Rule) :
    (esDsl s).generate c r = ⟨((SearchRequest.generate c).start ⟨s, r⟩).1,
      .esDsl ((SearchRequest.generate c).start ⟨s, r⟩).2.target,
      ((SearchRequest.generate c).start ⟨s, r⟩).2.rule⟩ :=
  rfl

theorem producesAlike_of_served {s : SearchRequest} (title : r'.entry "title" = r.entry "title")
    (source : r'.source c = r.source c) (same : served c r' s.tests s.interval =
      served c r s.tests s.interval) : (esDsl s).ProducesAlike c r r' := by
  obtain ⟨result, queries, indices, options⟩ := same_of_served title source same
  constructor
  · rw [product, product, generate_esDsl, generate_esDsl]
    exact Prod.ext result (Prod.ext indices (Prod.ext queries rfl))
  · rw [generate_esDsl, generate_esDsl]
    exact finalize_congr options indices queries

end

/-! ## After Splunk -/

/-- Splunk renames the count of a rule: the first condition counts over groups, and the target gets to
its aggregation. -/
def Renames (c : Config) (t : TextQuery) (r : Rule) : Prop :=
  ∃ p ∈ r.conditions.head?, ∃ a ∈ p.aggregation,
    a.group.isSome = true ∧ a.functionText = some "count" ∧ Splunk.Gets c t r p

section

variable {c : Config} {t : TextQuery} {r : Rule}

theorem rule_of_not_renames (not : ¬ Renames c t r) : ((splunk t).generate c r).rule = r := by
  show ((Splunk.generate c).start ⟨t, r⟩).2.rule = r
  by_cases gets : ∃ p ∈ r.conditions.head?, ∃ a ∈ p.aggregation,
      a.function ≠ some .near ∧ Splunk.Gets c t r p
  · obtain ⟨p, first, a, has, offered, gets⟩ := gets
    obtain ⟨rest, conditions⟩ := List.head?_eq_some_iff.mp first
    have plain : groupedFunction a = a := by
      rw [groupedFunction, if_neg]
      intro grouped
      rw [Bool.and_eq_true, beq_iff_eq] at grouped
      exact not ⟨p, first, a, has, grouped.1, grouped.2, gets⟩
    rw [rule_generate_of_gets conditions has offered gets, plain,
      Rule.withAggregation_self conditions has]
  · refine rule_generate_of_not fun p first a has offered got => ?_
    exact gets ⟨p, first, a, has, offered, got⟩

theorem rule_of_renames (sound : r.Sound) (renames : Renames c t r) :
    ∃ p rest a, r.conditions = p :: rest ∧ p.aggregation = some a ∧ a.Faithful ∧
      a.function ≠ some .near ∧ a.functionText = some "count" ∧
      groupedFunction a = { a with functionText := some "dc" } ∧
      ((splunk t).generate c r).rule = r.withAggregation (groupedFunction a) := by
  obtain ⟨p, first, a, has, grouped, counts, gets⟩ := renames
  obtain ⟨rest, conditions⟩ := List.head?_eq_some_iff.mp first
  have faithful : a.Faithful := sound.faithful p (by rw [conditions]; exact List.mem_cons_self) a has
  have offered : a.function ≠ some .near := by
    intro near
    rw [Aggregation.Faithful, counts, near] at faithful
    exact absurd faithful (by decide)
  refine ⟨p, rest, a, conditions, has, faithful, offered, counts, ?_, ?_⟩
  · rw [groupedFunction, if_pos]
    rw [grouped, counts]
    rfl
  · exact rule_generate_of_gets conditions has offered gets

/-- A target that writes a pipeline shows a count that was renamed, if it writes the rule at all. -/
theorem product_pipeline {back : TextQuery → Target} {renderer : Dialect → Renderer TextQuery}
    {step compare : String} {u : TextQuery} (runs : ∀ r, (back u).generate c r = runGeneration back
      (TextQuery.generate renderer (pipelineAggregation step compare)) u r)
    (collects : ∀ u, (back u).collected = (none, [], [])) (ends : ∀ u, (back u).finalize.1 = .ok none)
    (sound : r.Sound) (renames : Renames c t r) :
    ((∃ text, ((back u).generate c r).result = .ok text) →
      (back u).product c ((splunk t).generate c r).rule ≠ (back u).product c r) ∧
    ((¬ ∃ text, ((back u).generate c r).result = .ok text) →
      (back u).ProducesAlike c r ((splunk t).generate c r).rule) := by
  obtain ⟨p, rest, a, conditions, has, -, offered, counts, renamed, left⟩ :=
    rule_of_renames sound renames
  obtain ⟨frame, written⟩ := TextQuery.outcome_pipeline renderer step compare u conditions
  have result : ∀ r, ((back u).generate c r).result =
      (outcome (TextQuery.generate renderer (pipelineAggregation step compare)) u r).1 := by
    intro r
    rw [runs]
    rfl
  have target : ∀ r, ∃ u', ((back u).generate c r).target = back u' := by
    intro r
    rw [runs]
    exact ⟨_, rfl⟩
  -- the two texts are one frame around two pipelines
  have before := written a offered
  rw [Rule.withAggregation_self conditions has, ← result, counts] at before
  have after := written (groupedFunction a) (by rwa [function_groupedFunction])
  rw [← result, ← left, renamed] at after
  constructor
  · rintro ⟨text, converted⟩ same
    have results := congrArg Prod.fst same
    rw [product, product, before, after] at results
    rw [before] at converted
    cases frame with
    | error e => cases converted
    | ok x =>
      exact pipelineText_ne step compare a x.1 x.2 (Option.some.inj (Except.ok.inj results))
  · intro failed
    cases frame with
    | ok x => exact absurd ⟨_, before⟩ failed
    | error e =>
      obtain ⟨u₁, here⟩ := target r
      obtain ⟨u₂, there⟩ := target ((splunk t).generate c r).rule
      constructor
      · rw [product, product, before, after, here, there, collects, collects]
        rfl
      · rw [here, there, ends, ends]

end

/-! ## Two targets -/

/-- The targets that are compared. -/
inductive Compared : Target → Prop
  | splunk (t : TextQuery) : Compared (.splunk t)
  | sumologic (t : TextQuery) : Compared (.sumologic t)
  | logpoint (t : TextQuery) : Compared (.logpoint t)
  | esDsl (s : SearchRequest) : Compared (.esDsl s)
  | elastalert (s : Elastalert) : Compared (.elastalert s)
  | watcher (s : Watcher) : Compared (.watcher s)

/-- The first target writes something to the rule that the second one shows: the name of a count, or a
time frame that is not the one which the second would take over. -/
inductive Disturbs (c : Config) (r : Rule) : Target → Target → Prop
  | count {t : TextQuery} {b : Target} (pipeline : ∃ u, b = .sumologic u ∨ b = .logpoint u)
      (renames : Renames c t r) (converts : ∃ text, (b.generate c r).result = .ok text) :
      Disturbs c r (.splunk t) b
  | timeframe {a : Target} {s : SearchRequest}
      (fills : (∃ t, a = .elastalert t) ∨ ∃ t, a = .watcher t) (titled : r.HasTitle)
      (reads : (esDsl s).reads c r)
      (other : rangeOf c (.text "30m") ≠ rangeOf c s.interval) :
      Disturbs c r a (.esDsl s)

section

variable {c : Config} {r r' : Rule} {a b : Target} {t : TextQuery}

theorem splunk_alike (t : TextQuery)
    (same : r'.seen groupedFunction = r.seen groupedFunction) :
    (splunk t).ProducesAlike c r r' :=
  producesAlike_of_outcome (fun _ => rfl) (agrees_generate c t r' r same)

theorem elastalert_alike (s : Elastalert) (same : r'.seen unnamedCount = r.seen unnamedCount) :
    (elastalert s).ProducesAlike c r r' :=
  producesAlike_of_outcome (fun _ => rfl)
    ((Elastalert.sees_generate Elastalert.alert_unnamedCount c).agrees s r' r same)

theorem watcher_alike (s : Watcher) (same : r'.seen unnamedCount = r.seen unnamedCount) :
    (watcher s).ProducesAlike c r r' :=
  producesAlike_of_outcome (fun _ => rfl)
    ((Watcher.sees_generate Watcher.setWatch_unnamedCount c).agrees s r' r same)

theorem alike_after_splunk (sound : r.Sound) (renames : Renames c t r)
    (compared : b.Compared) (calm : ¬ Disturbs c r (.splunk t) b) :
    b.ProducesAlike c r ((splunk t).generate c r).rule := by
  obtain ⟨p, rest, a, conditions, has, faithful, -, -, -, left⟩ := rule_of_renames sound renames
  have grouped := Rule.seen_withAggregation conditions has (groupedFunction_groupedFunction a)
  have unnamed := Rule.seen_withAggregation conditions has (unnamedCount_groupedFunction faithful)
  cases compared with
  | splunk u => exact left ▸ splunk_alike u grouped
  | sumologic u =>
    exact (product_pipeline (fun _ => rfl) (fun _ => rfl) (fun _ => rfl) sound renames).2 fun converts =>
      calm (.count ⟨u, .inl rfl⟩ renames converts)
  | logpoint u =>
    exact (product_pipeline (fun _ => rfl) (fun _ => rfl) (fun _ => rfl) sound renames).2 fun converts =>
      calm (.count ⟨u, .inr rfl⟩ renames converts)
  | esDsl s =>
    rw [left]
    exact producesAlike_of_served rfl rfl (served_withAggregation conditions has _ _)
  | elastalert s => exact left ▸ elastalert_alike s unnamed
  | watcher s => exact left ▸ watcher_alike s unnamed

/-- What a target for search requests makes of a rule with a time frame put in. -/
theorem output_filled (s : SearchRequest) (filled : r.Filled r') :
    (esDsl s).output c r' = (esDsl s).output c r ↔ ((esDsl s).reads c r →
        rangeOf c (.text "30m") = rangeOf c s.interval) := by
  -- a rule with this time frame is served like the rule itself by a target that has it to take over
  have apart := tellsApart_esDsl s c r (.esDsl { s with interval := .text "30m" }) (.esDsl s) rfl rfl
  rw [output_esDsl, output_esDsl] at apart
  rw [output_esDsl, output_esDsl, served_filled filled]
  refine apart.trans (imp_congr_right fun _ => ?_)
  exact Carried.range.injEq _ _ ▸ Iff.rfl

/-- Where entries have been put in, only a target for search requests may show it. -/
theorem alike_of_filled (filled : r.Filled r') (compared : b.Compared)
    (range : ∀ s, b = .esDsl s → (esDsl s).reads c r →
      rangeOf c (.text "30m") = rangeOf c s.interval) :
    b.ProducesAlike c r r' := by
  cases compared with
  | splunk u => exact splunk_alike u (filled.seen _)
  | sumologic u =>
    exact producesAlike_of_outcome (fun _ => rfl) (SumoLogic.sees_generate.agrees u _ _ (filled.seen _))
  | logpoint u =>
    exact producesAlike_of_outcome (fun _ => rfl) (LogPoint.sees_generate.agrees u _ _ (filled.seen _))
  | esDsl s =>
    have same := (output_filled s filled).mpr (range s rfl)
    rw [output_esDsl, output_esDsl] at same
    exact producesAlike_of_served (Rule.entry_congr filled.reading (by decide) rfl)
      (Rule.source_congr filled.reading c) same
  | elastalert s => exact elastalert_alike s (filled.seen _)
  | watcher s => exact watcher_alike s (filled.seen _)

theorem product_ne_of_filled {s : SearchRequest} (filled : r.Filled r') (reads : (esDsl s).reads c r)
    (other : rangeOf c (.text "30m") ≠ rangeOf c s.interval) :
    (esDsl s).product c r' ≠ (esDsl s).product c r := by
  intro same
  refine other ((output_filled s filled).mp ?_ reads)
  rw [output_eq_product, output_eq_product, same]

theorem rule_of_text {back : TextQuery → Target} {renderer : Dialect → Renderer TextQuery}
    {aggregate : Aggregation → GenerateM TextQuery String}
    (runs : (back t).generate c r = runGeneration back (TextQuery.generate renderer aggregate) t r)
    (aggregates : ∀ a, Sees (fun r => r) (aggregate a)) : ((back t).generate c r).rule = r := by
  have kept : Keeps Work.rule (TextQuery.generate renderer aggregate) := by
    rw [TextQuery.generate_eq]
    refine Keeps.bind (fun _ => rfl) fun w => Keeps.bind (fun _ => rfl) fun ps => ?_
    exact (TextQuery.sees_written (fun _ _ same => congrArg Rule.reading same) aggregates _ ps).keeps
  rw [runs]
  exact kept ⟨t, r⟩

theorem rule_esDsl (s : SearchRequest) : ((esDsl s).generate c r).rule = r := by
  obtain ⟨s', b, run, -⟩ := start_generate_served c r s
  rw [generate_esDsl, run]

theorem alike_of_not_disturbs (sound : r.Sound) (first : a.Compared) (second : b.Compared)
    (calm : ¬ Disturbs c r a b) : b.ProducesAlike c r (a.generate c r).rule := by
  -- a target that leaves the rule alone, or that has put in entries, or that has renamed a count
  cases first with
  | splunk t =>
    by_cases renames : Renames c t r
    · exact alike_after_splunk sound renames second calm
    · exact producesAlike_of_eq (rule_of_not_renames renames)
  | sumologic t | logpoint t =>
    exact producesAlike_of_eq (rule_of_text rfl (sees_pipelineAggregation _ _))
  | esDsl s => exact producesAlike_of_eq (rule_esDsl s)
  | elastalert t =>
    by_cases titled : r.HasTitle
    · refine alike_of_filled (Elastalert.filled_generate (sound.titled titled)) second ?_
      rintro s rfl reads
      by_contra other
      exact calm (.timeframe (.inl ⟨t, rfl⟩) titled reads other)
    · exact producesAlike_of_eq (Elastalert.rule_generate_of_untitled titled)
  | watcher t =>
    by_cases titled : r.HasTitle
    · refine alike_of_filled (Watcher.filled_generate (sound.titled titled)) second ?_
      rintro s rfl reads
      by_contra other
      exact calm (.timeframe (.inr ⟨t, rfl⟩) titled reads other)
    · exact producesAlike_of_eq (Watcher.rule_generate_of_untitled titled)

theorem product_ne_of_disturbs (sound : r.Sound) (disturbs : Disturbs c r a b) :
    b.product c (a.generate c r).rule ≠ b.product c r := by
  cases disturbs with
  | count pipeline renames converts =>
    obtain ⟨u, rfl | rfl⟩ := pipeline
    · exact (product_pipeline (fun _ => rfl) (fun _ => rfl) (fun _ => rfl) sound renames).1 converts
    · exact (product_pipeline (fun _ => rfl) (fun _ => rfl) (fun _ => rfl) sound renames).1 converts
  | timeframe fills titled reads other =>
    obtain ⟨t, rfl⟩ | ⟨t, rfl⟩ := fills
    · exact product_ne_of_filled (Elastalert.filled_generate (sound.titled titled)) reads other
    · exact product_ne_of_filled (Watcher.filled_generate (sound.titled titled)) reads other

/-- **A rule after another target**: a target produces the same from a parsed rule after another target
has converted it, exactly if that one does not disturb it; the final output is then the same as well. -/
theorem product_after_target {document : Value} {c₀ c₁ : Config}
    (parsed : (Rule.parse document).start c₀ = (.ok r, c₁)) (c : Config) (first : a.Compared)
    (second : b.Compared) :
    (b.product c (a.generate c r).rule = b.product c r ↔ ¬ Disturbs c r a b) ∧
      (¬ Disturbs c r a b → (b.generate c (a.generate c r).rule).target.finalize.1 =
        (b.generate c r).target.finalize.1) := by
  have sound := Rule.sound_of_parse parsed
  refine ⟨⟨fun same disturbs => ?_, fun calm => ?_⟩, fun calm => ?_⟩
  · exact product_ne_of_disturbs sound disturbs same
  · exact (alike_of_not_disturbs sound first second calm).product
  · exact (alike_of_not_disturbs sound first second calm).final

end

/-- A rule that counts over groups. -/
def groupCount : Value :=
  .map [("title", "A"), ("logsource", .map [("product", "p")]), ("detection",
    .map [("sel", .map [("f", "v")]), ("condition", "sel | count() by g > 5")])]

/-- The rule as parsed. -/
def groupCounted : Rule :=
  ((Rule.parse groupCount).start .empty).1.toOption.getD default

/-- New targets. -/
def newSplunk : Target :=
  .splunk ⟨.withDefaults [commentOption] [], dialect⟩

@[inherit_doc newSplunk]
def newSumoLogic : Target :=
  .sumologic ⟨.withDefaults [commentOption] [], SumoLogic.dialect⟩

@[inherit_doc newSplunk]
def newSearchRequest : Target :=
  .esDsl (.new (.withDefaults optionSpecs []))

@[inherit_doc newSplunk]
def newElastalert : Target :=
  .elastalert (.new (.withDefaults Elastalert.optionSpecs []))

theorem result_groupCounted :
    ((Rule.parse groupCount).start .empty).1.toOption.isSome = true ∧
    (newSumoLogic.generate .empty groupCounted).result =
      .ok (some "f=\"v\" | count() as val by g | when val > 5") ∧
    (newSumoLogic.generate .empty (newSplunk.generate .empty groupCounted).rule).result =
      .ok (some "f=\"v\" | dc() as val by g | when val > 5") :=
  ⟨by decide +kernel, eq_ok_of_toOption (by decide +kernel), eq_ok_of_toOption (by decide +kernel)⟩

theorem parse_groupCount : (Rule.parse groupCount).start .empty =
    (.ok groupCounted, ((Rule.parse groupCount).start .empty).2) := by
  obtain ⟨r, parsed⟩ := Option.isSome_iff_exists.mp result_groupCounted.1
  refine Prod.ext (eq_ok_of_toOption ?_) rfl
  rw [groupCounted, parsed, Option.getD_some]

/-- Splunk disturbs Sumo Logic, and not the other way round. -/
theorem product_after_target_groupCount :
    (Rule.parse groupCount).start .empty =
      (.ok groupCounted, ((Rule.parse groupCount).start .empty).2) ∧
    newSplunk.Compared ∧ newSumoLogic.Compared ∧
    Disturbs .empty groupCounted newSplunk newSumoLogic ∧
    newSplunk.product .empty (newSumoLogic.generate .empty groupCounted).rule =
      newSplunk.product .empty groupCounted := by
  refine ⟨parse_groupCount, .splunk _, .sumologic _, ?_, ?_⟩
  · by_contra calm
    have same : newSumoLogic.product .empty (newSplunk.generate .empty groupCounted).rule =
        newSumoLogic.product .empty groupCounted :=
      (product_after_target parse_groupCount .empty (.splunk _) (.sumologic _)).1.mpr calm
    have results := congrArg Prod.fst same
    rw [product, product, result_groupCounted.2.1, result_groupCounted.2.2] at results
    exact absurd (Option.some.inj (Except.ok.inj results)) (by decide)
  · refine (product_after_target parse_groupCount .empty (.sumologic _) (.splunk _)).1.mpr ?_
    intro disturbs
    cases disturbs

/-- After Splunk, Sumo Logic writes another function than it does for the rule itself; after a target
for alerts, the target for search requests no longer asks for the field but for a range of time. -/
theorem product_after_target_differs :
    (newSumoLogic.generate .empty groupCounted).result =
      .ok (some "f=\"v\" | count() as val by g | when val > 5") ∧
    (newSumoLogic.generate .empty (newSplunk.generate .empty groupCounted).rule).result =
      .ok (some "f=\"v\" | dc() as val by g | when val > 5") ∧
    (newSearchRequest.generate .empty groupCounted).target.requests.map (fun v =>
      ((v.at? ["query", "constant_score", "filter", "match_phrase", "f"]).isSome,
        (v.at? ["query", "constant_score", "filter", "bool", "must"]).isSome)) = [(true, false)] ∧
    (newSearchRequest.generate .empty
        (newElastalert.generate .empty groupCounted).rule).target.requests.map (fun v =>
      ((v.at? ["query", "constant_score", "filter", "match_phrase", "f"]).isSome,
        (v.at? ["query", "constant_score", "filter", "bool", "must"]).isSome)) = [(false, true)] := by
  refine ⟨result_groupCounted.2.1, result_groupCounted.2.2, ?_, ?_⟩
  · decide +kernel
  · decide +kernel

end Target

end SigmaQuery
