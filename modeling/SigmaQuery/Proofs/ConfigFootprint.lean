import SigmaQuery.Proofs.SearchBrackets

/-!
# What parsing leaves of a configuration

One configuration serves for many rules, and parsing a rule may change it in two ways. A search for a
value in a field uses up the only default target of the field's mapping, if the rule meets none of the
mapping's conditions. The simplification may take items out of the conditions of a log source, which
are shared by all rules.

A rule touches the mappings of the fields that its definitions search, and of the definitions only
those that its conditions mention. Where none of them is used up and no log source loses an item, the
configuration stays as it is. Then each rule of a sequence is parsed as it is alone.
-/

namespace SigmaQuery

open FaultM List Rule

/-! ## Taking a default target -/

/-- The fields in which a condition searches, for the condition of one field of a rule. -/
def Cond.targetFields : Cond → List Value
  | .item field _ => [field]
  | .any items => items.filterMap fun
    | .item field _ => some field
    | _ => none
  | _ => []

namespace FieldMapping

@[simp] theorem targetFields_anyTarget (targets : List Value) (value : Value) :
    (anyTarget targets value).targetFields = targets := by
  simp [anyTarget, Cond.targetFields, filterMap_map]

/-- A search takes the only default target. -/
def spends (m : FieldMapping) (values : FieldValues) : Bool :=
  match m with
  | .conditional _ cases (some [_]) => (targetSet (metTargets cases values)).isEmpty
  | _ => false

variable {m m' : FieldMapping} {field value : Value} {values : FieldValues} {t : Cond}

/-- Which targets a search finds, and what is left of the mapping, does not depend on the value. -/
theorem resolve_value (h : m.resolve field value values = .ok (t, m')) (w : Value) :
    ∃ u, m.resolve field w values = .ok (u, m') ∧ u.targetFields = t.targetFields := by
  cases m with
  | simple target =>
    cases h
    exact ⟨_, rfl, rfl⟩
  | multi targets =>
    cases h
    exact ⟨_, rfl, by simp⟩
  | conditional document cases default =>
    simp only [resolve] at h ⊢
    split at h
    · cases h
    · rename_i usable
      rw [if_neg usable]
      split at h
      · split at h <;> cases h
        · exact ⟨_, rfl, rfl⟩
        · exact ⟨_, rfl, rfl⟩
        · exact ⟨_, rfl, rfl⟩
        · exact ⟨_, rfl, by simp⟩
      · cases h
        exact ⟨_, rfl, rfl⟩
      · cases h
        exact ⟨_, rfl, by simp⟩

/-- A mapping keeps its default unless the only target of it is taken. -/
theorem eq_of_resolve (keeps : m.spends values = false)
    (h : m.resolve field value values = .ok (t, m')) : m' = m := by
  cases m with
  | simple target | multi targets =>
    cases h
    rfl
  | conditional document cases default =>
    simp only [resolve] at h
    split at h
    · cases h
    · split at h
      · rename_i unmet
        split at h <;> cases h
        · rfl
        · rfl
        · simp [spends, unmet] at keeps
        · rfl
      · cases h
        rfl
      · cases h
        rfl

/-- A mapping whose only default target is taken finds the field itself from then on. -/
theorem resolve_spent (takes : m.spends values = true)
    (h : m.resolve field value values = .ok (t, m')) :
    m' ≠ m ∧ ∀ w, m'.resolve field w values = .ok (.item field w, m') := by
  unfold spends at takes
  split at takes
  · rename_i document cases target
    have unmet : targetSet (metTargets cases values) = [] := List.isEmpty_iff.mp takes
    simp only [resolve, unmet] at h
    split at h
    · cases h
    · rename_i usable
      cases h
      refine ⟨by simp, fun w => ?_⟩
      simp only [resolve, unmet, if_neg usable]
  · cases takes

end FieldMapping

/-! ## Fields of a configuration -/

namespace Config

/-- A search in the field takes the only default target of its mapping. -/
def spends (c : Config) (field : Value) (values : FieldValues) : Bool :=
  match c.fieldMapping field with
  | .ok (some m) => m.spends values
  | _ => false

variable {c : Config} {field : Value} {m : FieldMapping} {values : FieldValues}

theorem setMapping_self (found : c.fieldMapping field = .ok (some m)) :
    c.setMapping field m = c := by
  unfold fieldMapping at found
  unfold setMapping
  cases use : field.keyUse with
  | unusable | unmatched => rfl
  | key k =>
    simp only [use] at found ⊢
    cases known : lookup k c.fieldMappings with
    | none => rfl
    | some own =>
      simp only [known, Except.ok.injEq] at found ⊢
      rw [put_of_lookup (found ▸ known)]

theorem fieldMapping_setMapping (found : c.fieldMapping field = .ok (some m))
    (takes : m.spends values = true) (m' : FieldMapping) :
    (c.setMapping field m').fieldMapping field = .ok (some m') := by
  have own : FieldMapping.ofTarget field .null ≠ .ok (some m) := by
    intro itself
    cases field <;> cases itself
    cases takes
  unfold fieldMapping at found ⊢
  unfold setMapping
  cases use : field.keyUse with
  | unusable => simp [use] at found
  | unmatched =>
    simp only [use] at found
    exact absurd found own
  | key k =>
    simp only [use] at found ⊢
    cases known : lookup k c.fieldMappings with
    | none =>
      simp only [known] at found
      exact absurd found own
    | some _ => simp only [lookup_put]

/-- Two searches in one field, one after the other: unless the first takes an only default target, it
changes nothing and the second one finds the same targets. Else it changes the configuration, and the
second one finds the field itself. -/
theorem resolve_twice {s : Config} {value : Value} {t : Cond}
    (first : (resolve field value values).start c = (.ok t, s)) (w : Value) :
    (c.spends field values = false → s = c ∧ ∃ u,
        (resolve field w values).start s = (.ok u, s) ∧ u.targetFields = t.targetFields) ∧
      (c.spends field values = true → s ≠ c ∧
        (resolve field w values).start s = (.ok (.item field w), s)) := by
  rcases resolve_start_cases c field value values with ⟨e, run⟩ | ⟨m, m', t', found, resolved, run⟩
  · rw [first] at run
    cases run
  · rw [first] at run
    cases run
    simp only [spends, found]
    refine ⟨fun keeps => ?_, fun takes => ?_⟩
    · obtain rfl := FieldMapping.eq_of_resolve keeps resolved
      obtain ⟨u, resolved', same⟩ := FieldMapping.resolve_value resolved w
      rw [setMapping_self found]
      have run := start_resolve found resolved'
      rw [setMapping_self found] at run
      exact ⟨rfl, u, run, same⟩
    · obtain ⟨changed, itself⟩ := FieldMapping.resolve_spent takes resolved
      have found' := fieldMapping_setMapping found takes m'
      have run := start_resolve found' (itself w)
      rw [setMapping_self found'] at run
      refine ⟨fun same => changed ?_, run⟩
      rw [same, found] at found'
      exact (Option.some.inj (Except.ok.inj found')).symm

end Config

/-! ## The fields that a rule searches -/

/-- The part of a condition before the first bar. -/
def searchPart (elements : List Cond) : List Cond :=
  match splitKind? .pipe elements with
  | none => elements
  | some (before, _, _) => before

namespace Detection

/-- The definitions that the elements of a condition mention. -/
def mentioned (d : Detection) (elements : List Cond) : List Value :=
  elements.flatMap fun x => match x.tokenText with
    | .ok text => d.several text
    | .error _ => []

end Detection

/-- A search in one of the definition's fields keeps an invariant of the configuration. -/
def KeptBySearches (I : Config → Prop) (values : FieldValues) (definition : Value) : Prop :=
  ∀ k ∈ definition.searchedFields, ∀ w, Stays I (Config.resolve k.toValue w values)

/-- The definitions that an element mentions keep an invariant of the configuration. -/
def Detection.KeptByMention (d : Detection) (I : Config → Prop) (x : Cond) : Prop :=
  ∀ text, x.tokenText = .ok text → ∀ v ∈ d.several text, KeptBySearches I d.values v

/-! ## Searches -/

section Searches

variable {I : Config → Prop} {d : Detection}

theorem compositional_stays : Compositional (Stays I) where
  value := stays_pure
  fault _ := stays_throw _
  nullTests _ := stays_get.bind fun _ => stays_ofExcept _
  both first next _ := first.bind fun _ => next.bind fun _ => stays_pure _

theorem keptByMention_of_error {x : Cond} {e : Fault} (unread : x.tokenText = .error e) :
    d.KeptByMention I x := by
  intro text read
  rw [unread] at read
  cases read

theorem stays_reduceOperators {elements : List Cond}
    (kept : ∀ x ∈ elements, d.KeptByMention I x) : Stays I (reduceOperators d elements) := by
  -- A finished node is no token, so after each sweep the elements still mention no more than before.
  have several : ∀ (j : Junction) (x : Cond), d.KeptByMention I x →
      Ensures I (d.KeptByMention I) (d.parseSeveral j x) := by
    intro j x mention c holds
    refine ⟨(compositional_stays.of_parseSeveral j mention c holds).1, fun n c' run => ?_⟩
    rw [d.parseSeveral_eq_group] at run
    obtain ⟨_, _, _, last⟩ := start_bind_eq_ok.mp run
    cases last
    exact keptByMention_of_error rfl
  have identifier : ∀ x : Cond, d.KeptByMention I x →
      Ensures I (d.KeptByMention I) (d.parseIdentifier x) := by
    intro x mention c holds
    refine ⟨(compositional_stays.of_parseIdentifier mention c holds).1, fun n c' run => ?_⟩
    rw [d.parseIdentifier_eq_group] at run
    obtain ⟨_, _, _, last⟩ := start_bind_eq_ok.mp run
    cases last
    exact keptByMention_of_error rfl
  exact ensures_operators (Q := fun _ => True) several identifier (fun _ _ => trivial)
    (fun _ _ => trivial) (fun _ _ _ _ _ => trivial) kept |>.stays

variable (simplify : ∀ t, Stays I (Config.simplify t)) {source : Except Fault (Option LogSource)}
include simplify

theorem stays_parseSearch {elements : List Cond} (kept : ∀ x ∈ elements, d.KeptByMention I x) :
    Stays I (parseSearch Config.simplify source d elements) := by
  refine ensures_search (Q := fun _ => True)
    (fun kept => (stays_reduceOperators kept).imp fun _ _ _ _ => trivial)
    (fun roots _ => ?_) (fun _ _ => keptByMention_of_error rfl) kept
  unfold finishSearch
  split
  · exact (stays_ofExcept _).bind fun s => simplify _
  · exact stays_throw _

theorem stays_parseCondition {elements : List Cond}
    (kept : ∀ x ∈ searchPart elements, d.KeptByMention I x) :
    Stays I (parseCondition source d elements) := by
  unfold parseCondition
  unfold searchPart at kept
  split <;> rename_i split <;> simp only [split] at kept
  · exact (stays_parseSearch simplify kept).bind fun t => stays_pure _
  · refine (stays_parseSearch simplify kept).bind fun t => stays_get.bind fun c => ?_
    exact (stays_ofExcept _).bind fun a => stays_pure _

theorem stays_parseConditions {rows : List (List Cond)}
    (kept : ∀ elements ∈ rows, ∀ x ∈ searchPart elements, d.KeptByMention I x) :
    Stays I (parseConditions source d rows) := by
  induction rows with
  | nil => exact stays_pure []
  | cons elements rest ih =>
    rw [forall_mem_cons] at kept
    exact (stays_parseCondition simplify kept.1).bind fun p =>
      (ih kept.2).bind fun ps => stays_pure _

end Searches

/-- The definitions that a rule document mentions in its conditions, with the values that the rule
gives to fields. -/
def Rule.mentions (document : Value) : List (FieldValues × Value) :=
  match detectionEntries document with
  | .error _ => []
  | .ok entries => match conditionElements entries with
    | .error _ => []
    | .ok rows =>
      let d := Detection.ofEntries entries
      rows.flatMap fun elements => (d.mentioned (searchPart elements)).map (d.values, ·)

/-- What the searches of the mentioned definitions and the simplification keep, parsing the rule
keeps. -/
theorem Rule.stays_parse {I : Config → Prop} (simplify : ∀ t, Stays I (Config.simplify t))
    {document : Value} (kept : ∀ m ∈ mentions document, KeptBySearches I m.1 m.2) :
    Stays I (parse document) := by
  unfold mentions at kept
  unfold parse
  cases read : detectionEntries document with
  | error e => exact stays_throw e
  | ok entries =>
    unfold parseOver
    simp only [read, ofExcept_ok, pure_bind] at kept ⊢
    cases cut : conditionElements entries with
    | error e => exact stays_throw e
    | ok rows =>
      simp only [cut, ofExcept_ok, pure_bind] at kept ⊢
      refine stays_get.bind fun c => ?_
      refine (stays_parseConditions simplify fun elements row x member text taken v known => ?_).bind
        fun ps => stays_get.bind fun c' => stays_pure _
      refine kept (_, v) (mem_flatMap.mpr ⟨elements, row, mem_map_of_mem ?_⟩)
      exact mem_flatMap.mpr ⟨x, member, by rwa [taken]⟩

/-! ## Configurations that stay as they are -/

namespace Config

/-- The configuration has the mappings of `c`, and it is `c` unless log sources have lost something
since. -/
structure Worn (c s : Config) : Prop where
  fieldMappings : s.fieldMappings = c.fieldMappings
  losses : ∃ more, s.losses = c.losses ++ more ∧ (more = [] → s = c)

variable {c s : Config}

theorem worn_self (c : Config) : c.Worn c :=
  ⟨rfl, [], (append_nil _).symm, fun _ => rfl⟩

theorem Worn.lose (worn : c.Worn s) (ls : List Loss) : c.Worn (s.lose ls) := by
  obtain ⟨more, grown, unchanged⟩ := worn.losses
  refine ⟨worn.fieldMappings, more ++ ls, ?_, fun none => ?_⟩
  · show s.losses ++ ls = c.losses ++ (more ++ ls)
    rw [grown, append_assoc]
  · obtain ⟨noMore, rfl⟩ := append_eq_nil_iff.mp none
    rw [lose_nil, unchanged noMore]

theorem Worn.eq_of_losses (worn : c.Worn s) (same : s.losses = c.losses) : s = c := by
  obtain ⟨more, grown, unchanged⟩ := worn.losses
  rw [same] at grown
  exact unchanged (append_cancel_left (grown.symm.trans (append_nil _).symm))

theorem Worn.fieldMapping_eq (worn : c.Worn s) (field : Value) :
    s.fieldMapping field = c.fieldMapping field := by
  unfold fieldMapping
  rw [worn.fieldMappings]

theorem start_simplify_eq (t : Cond) (s : Config) : (simplify t).start s =
    ((s.current t).simplified.1, s.lose (s.current t).simplified.2) := rfl

theorem stays_resolve {field : Value} {values : FieldValues} (keeps : c.spends field values = false)
    (w : Value) : Stays c.Worn (resolve field w values) := by
  intro s worn
  refine ⟨?_, fun _ _ _ => trivial⟩
  have same : s.spends field values = false := by rwa [spends, worn.fieldMapping_eq]
  rcases run : (resolve field w values).start s with ⟨e | t, s'⟩
  · rcases resolve_start_cases s field w values with ⟨e', failed⟩ | ⟨m, m', t, -, -, returned⟩
    · rw [run] at failed
      cases failed
      exact worn
    · rw [run] at returned
      cases returned
  · obtain ⟨rfl, -⟩ := (resolve_twice run w).1 same
    exact worn

/-- Some definition that the rule mentions searches a field and takes the only default target of the
field's mapping. -/
def exhausts (c : Config) (document : Value) : Bool :=
  (mentions document).any fun m => m.2.searchedFields.any fun k => c.spends k.toValue m.1

/-- A rule that takes no only default target leaves the mappings as they are. -/
theorem worn_parse {document : Value} (keeps : c.exhausts document = false) :
    c.Worn ((parse document).start c).2 := by
  have simplify : ∀ t, Stays c.Worn (simplify t) := by
    intro t s worn
    rw [start_simplify_eq]
    exact ⟨worn.lose _, fun _ _ _ => trivial⟩
  refine (stays_parse simplify (fun m known k searched w => ?_) c (worn_self c)).1
  refine stays_resolve ?_ w
  have none := any_eq_false.mp keeps m known
  simpa using any_eq_false.mp (Bool.eq_false_iff.mpr none) k searched

theorem losses_prefix_parse (c : Config) (document : Value) :
    c.losses <+: ((parse document).start c).2.losses := by
  let grown : Config → Prop := fun s => c.losses <+: s.losses
  have simplify : ∀ t, Stays grown (simplify t) := by
    intro t s longer
    rw [start_simplify_eq]
    exact ⟨longer.trans (prefix_append _ _), fun _ _ _ => trivial⟩
  refine (stays_parse simplify (fun m known k searched w s longer => ?_) c prefix_rfl).1
  refine ⟨?_, fun _ _ _ => trivial⟩
  rcases resolve_start_cases s k.toValue w m.1 with ⟨e, run⟩ | ⟨_, m', _, -, -, run⟩ <;> rw [run]
  · exact longer
  · have same : (s.setMapping k.toValue m').losses = s.losses := by
      unfold setMapping
      split
      · split <;> rfl
      · rfl
    show c.losses <+: (s.setMapping k.toValue m').losses
    rw [same]
    exact longer

/-! ## Sequences of rules -/

/-- Parses rule documents one after another with one configuration. Gives the outcome of each, and
the configuration that is left. -/
def parseInTurn (c : Config) : List Value → List (Except Fault Rule) × Config
  | [] => ([], c)
  | document :: rest =>
    let (outcome, c₁) := (parse document).start c
    let (outcomes, c₂) := c₁.parseInTurn rest
    (outcome :: outcomes, c₂)

/-- Parses rule documents in turn. The searches are as they are at the end, when all rules are
parsed. -/
def parseEach (c : Config) (documents : List Value) : List (Except Fault Rule) × Config :=
  let (outcomes, c') := c.parseInTurn documents
  (outcomes.map fun outcome => outcome.map (Rule.current c'), c')

theorem parseEach_fst (c : Config) (documents : List Value) :
    (c.parseEach documents).1 =
      (c.parseInTurn documents).1.map (Except.map (Rule.current (c.parseInTurn documents).2)) := rfl

theorem parseInTurn_cons (c : Config) (document : Value) (rest : List Value) :
    c.parseInTurn (document :: rest) =
      (((parse document).start c).1 :: (((parse document).start c).2.parseInTurn rest).1,
        (((parse document).start c).2.parseInTurn rest).2) := rfl

theorem losses_prefix_parseInTurn (c : Config) (documents : List Value) :
    c.losses <+: (c.parseInTurn documents).2.losses := by
  induction documents generalizing c with
  | nil => exact prefix_rfl
  | cons document rest ih =>
    rw [parseInTurn_cons]
    exact (losses_prefix_parse c document).trans (ih _)

/-- The losses after one rule lie between those before it and those at the end. -/
theorem losses_eq_of_parseInTurn {document : Value} {rest : List Value}
    (lossless : (((parse document).start c).2.parseInTurn rest).2.losses = c.losses) :
    ((parse document).start c).2.losses = c.losses := by
  have first := losses_prefix_parse c document
  have later := losses_prefix_parseInTurn ((parse document).start c).2 rest
  rw [lossless] at later
  exact later.eq_of_length (Nat.le_antisymm later.length_le first.length_le)

/-- Where no rule but the last takes an only default target and nothing is lost, each rule finds the
configuration as it was at the start. -/
theorem parseInTurn_fst {documents : List Value}
    (keeps : ∀ d ∈ documents.dropLast, c.exhausts d = false)
    (lossless : (c.parseInTurn documents).2.losses = c.losses) :
    (c.parseInTurn documents).1 = documents.map fun d => ((parse d).start c).1 := by
  induction documents with
  | nil => rfl
  | cons document rest ih =>
    rw [parseInTurn_cons] at lossless ⊢
    rw [map_cons]
    cases rest with
    | nil => rfl
    | cons next more =>
      rw [dropLast_cons_cons, forall_mem_cons] at keeps
      have unchanged := (worn_parse keeps.1).eq_of_losses (losses_eq_of_parseInTurn lossless)
      rw [unchanged] at lossless ⊢
      rw [ih keeps.2 lossless]

theorem parseInTurn_snd {documents : List Value} (keeps : ∀ d ∈ documents, c.exhausts d = false)
    (lossless : (c.parseInTurn documents).2.losses = c.losses) :
    (c.parseInTurn documents).2 = c := by
  induction documents with
  | nil => rfl
  | cons document rest ih =>
    rw [forall_mem_cons] at keeps
    rw [parseInTurn_cons] at lossless ⊢
    have unchanged := (worn_parse keeps.1).eq_of_losses (losses_eq_of_parseInTurn lossless)
    rw [unchanged] at lossless ⊢
    exact ih keeps.2 lossless

end Config

theorem Rule.current_of_fresh {c : Config} (fresh : c.losses = []) (r : Rule) : r.current c = r := by
  obtain ⟨document, detection, conditions⟩ := r
  simp [Rule.current, Config.current, fresh, Cond.after_nil]

/-- **Rules in turn and rules alone**: let rules be parsed in turn with one configuration whose log
sources have lost nothing, neither before nor by the parsing. If none but the last takes the only
default target of a conditional mapping, each has the outcome and the searches that it has alone; if
the last takes none either, the configuration is left as it was.

Of two searches in a field the second finds the targets of the first, unless the first takes an only
default target: then the configuration changes, and the second finds the field itself. -/
theorem Config.parseEach_alone {c : Config} {documents : List Value} (fresh : c.losses = [])
    (keeps : ∀ d ∈ documents.dropLast, c.exhausts d = false)
    (lossless : (c.parseEach documents).2.losses = []) :
    (c.parseEach documents).1 = documents.map (fun d => ((Rule.parse d).start c).1) ∧
      ((∀ d ∈ documents, c.exhausts d = false) → (c.parseEach documents).2 = c) ∧
      ∀ field value w values t s, (Config.resolve field value values).start c = (.ok t, s) →
        (c.spends field values = false → s = c ∧ ∃ u,
          (Config.resolve field w values).start s = (.ok u, s) ∧
            u.targetFields = t.targetFields) ∧
        (c.spends field values = true → s ≠ c ∧
          (Config.resolve field w values).start s = (.ok (.item field w), s)) := by
  have none : (c.parseInTurn documents).2.losses = c.losses := lossless.trans fresh.symm
  refine ⟨?_, fun all => Config.parseInTurn_snd all none, fun field value w values t s first =>
    Config.resolve_twice first w⟩
  have same : Except.map (Rule.current (c.parseInTurn documents).2) = (id : Except Fault Rule → _) := by
    funext outcome
    cases outcome with
    | error e => rfl
    | ok r => exact congrArg Except.ok (Rule.current_of_fresh lossless r)
  rw [Config.parseEach_fst, same, List.map_id, Config.parseInTurn_fst keeps none]

/-! ## Samples -/

/-- A rule with the condition `sel`, as parsed where its field `f` has one target. -/
def selParsed (document : Value) (target : String) : Rule where
  document
  detection := selDetection
  conditions := [⟨.group (.all none [.item (.text target) "v", .item "g" "w"]), none⟩]

/-- A mapping with a default target and nothing else. -/
def soleDefaultConfig : Config where
  fieldMappings := [("f", some (.conditional [("default", "x")] [] (some ["x"])))]

/-- The second of two equal rules finds no default target and is left with the field of the rule. -/
theorem Config.parseEach_sole_default :
    (soleDefaultConfig.parseEach [selRule "sel", selRule "sel"]).1 =
        [.ok (selParsed (selRule "sel") "x"), .ok (selParsed (selRule "sel") "f")] ∧
      ((Rule.parse (selRule "sel")).start soleDefaultConfig).1 = .ok (selParsed (selRule "sel") "x") := by
  constructor <;> decide +kernel

/-- A mapping with a target for rules whose field `g` has the value `w`, and a default target. -/
def guardedConfig : Config where
  fieldMappings := [("f", some (.conditional [("g=w", "x"), ("default", "y")]
    [⟨"g", "w", ["x"]⟩] (some ["y"])))]

/-- Rules that meet the condition leave the default target where it is. -/
theorem Config.parseEach_guarded :
    guardedConfig.exhausts (selRule "sel") = false ∧
    guardedConfig.parseEach [selRule "sel", selRule "sel"] =
      ([.ok (selParsed (selRule "sel") "x"), .ok (selParsed (selRule "sel") "x")], guardedConfig) ∧
    guardedConfig.spends "f" [("g", ["w"])] = false ∧ guardedConfig.spends "f" [] = true ∧
    (Config.resolve "f" "v" [("g", ["w"])]).start guardedConfig =
      (.ok (.item "x" "v"), guardedConfig) ∧
    ∃ u, (Config.resolve "f" "w" [("g", ["w"])]).start guardedConfig = (.ok u, guardedConfig) ∧
      u.targetFields = ["x"] := by
  have keeps : guardedConfig.exhausts (selRule "sel") = false := by decide +kernel
  have all : ∀ d ∈ [selRule "sel", selRule "sel"], guardedConfig.exhausts d = false := by
    simp [keeps]
  have alone : (Rule.parse (selRule "sel")).start guardedConfig =
      (.ok (selParsed (selRule "sel") "x"), guardedConfig) := by decide +kernel
  have last : (guardedConfig.parseEach [selRule "sel", selRule "sel"]).2 = guardedConfig := by
    decide +kernel
  have met : guardedConfig.spends "f" [("g", ["w"])] = false := by decide +kernel
  have unmet : guardedConfig.spends "f" [] = true := by decide +kernel
  have found : (Config.resolve "f" "v" [("g", ["w"])]).start guardedConfig =
      (.ok (.item "x" "v"), guardedConfig) := by decide +kernel
  obtain ⟨outcomes, unchanged, again⟩ := Config.parseEach_alone (c := guardedConfig) rfl
    (fun d member => all d (List.dropLast_subset _ member)) (congrArg Config.losses last)
  obtain ⟨-, u, second, targets⟩ := (again "f" "v" "w" _ _ _ found).1 met
  rw [List.map_cons, List.map_cons, alone, List.map_nil] at outcomes
  exact ⟨keeps, Prod.ext outcomes (unchanged all), met, unmet, found, u, second, targets⟩

end SigmaQuery
