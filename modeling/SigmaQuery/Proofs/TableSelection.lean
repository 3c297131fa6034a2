import SigmaQuery.Proofs.Equality
import SigmaQuery.Proofs.Memory
import SigmaQuery.Proofs.QueryText

/-!
# The table of a hunting query

An event number is not searched for: it selects the table of the query. Rendering goes through the tree
from left to right, and a table that is selected takes the place of the one before, in a disjunction and
below a negation as well. So the query is for the table of the last event number that selects one.
-/

namespace SigmaQuery

open FaultM List Renderer GenerateM

namespace DefenderAtp

/-! ## Tables that are selected -/

section

variable (product service : Value)

mutual

/-- The tables that a field with its value selects. A list selects with each of its values. -/
def selected (field : Value) : Value → List String
  | .list vs => selectedEach field vs
  | v =>
    if field.same (.text "EventID") && product.same (.text "windows") then
      ((tableRule? service v).map TableRule.table).toList
    else []

def selectedEach (field : Value) : List Value → List String
  | [] => []
  | v :: rest => selected field v ++ selectedEach field rest

end

/-- The tables that a leaf of a search selects. -/
def leafTables : Cond → List String
  | .item field v => selected product service field v
  | _ => []

/-- The tables that a search selects, from left to right. -/
def tables (c : Cond) : List String :=
  c.leaves.flatMap (leafTables product service)

end

/-- Takes tables in turn, each in the place of the one before. -/
def choose (t : DefenderAtp) (names : List String) : DefenderAtp :=
  names.foldl (fun t name => { t with table := some (.text name) }) t

/-- The target knows the log source of the rule at hand. -/
structure Knows (t : DefenderAtp) (product service : Value) : Prop where
  product : t.product = some product
  service : t.service = some service

section

variable {t u : DefenderAtp} {product service : Value} {d : Dialect} {field v : Value}

theorem Knows.choose (knows : t.Knows product service) (names : List String) :
    (t.choose names).Knows product service := by
  induction names generalizing t with
  | nil => exact knows
  | cons name names ih => exact ih ⟨knows.product, knows.service⟩

theorem choose_append (t : DefenderAtp) (names others : List String) :
    t.choose (names ++ others) = (t.choose names).choose others :=
  foldl_append

theorem table_choose (t : DefenderAtp) (names : List String) :
    (t.choose names).table = (names.getLast?.map fun name => some (.text name)).getD t.table := by
  rcases eq_nil_or_concat names with rfl | ⟨init, name, rfl⟩
  · rfl
  · simp [DefenderAtp.choose, foldl_append]

/-! ## Rendering selects -/

theorem plain_usualItem (d : Dialect) (field v : Value) : (usualItem d field v).Plain :=
  (writes_item d clean field v).plain

variable {out : Option String}

theorem choose_of_eventItem (knows : t.Knows product service)
    (run : (eventItem d field v).start t = (.ok out, u)) :
    u = t.choose (if product.same (.text "windows") then
      ((tableRule? service v).map TableRule.table).toList else []) := by
  have source : (FaultM.ofExcept (known t.product) : FaultM DefenderAtp Value).start t =
      (.ok product, t) := by
    rw [knows.product]
    rfl
  have part : (FaultM.ofExcept (known t.service) : FaultM DefenderAtp Value).start t =
      (.ok service, t) := by
    rw [knows.service]
    rfl
  rw [eventItem, start_bind_of_ok (start_get t), start_bind_of_ok source] at run
  split_ifs at run ⊢ with windows
  · rw [start_bind_of_ok (start_get t), start_bind_of_ok part] at run
    cases found : tableRule? service v with
    | some r =>
      rw [found] at run
      cases run
      rfl
    | none =>
      rw [found] at run
      exact (plain_usualItem d field v).eq_of_start run
  · exact (plain_usualItem d field v).eq_of_start run

theorem eq_of_ruledItem (run : (ruledItem d field v).start t = (.ok out, u)) : u = t := by
  rw [ruledItem, start_bind_of_ok (start_get t)] at run
  refine Plain.eq_of_start ((plain_ofExcept _).bind fun parts => ?_) run
  split
  · exact plain_pure _
  · exact plain_throw _
  · exact plain_usualItem d field v
  · exact plain_throw _
  · refine (plain_ofExcept _).bind fun first => (plain_ofExcept _).bind fun second => ?_
    split
    · exact plain_pure _
    · exact plain_throw _
  · exact plain_throw _

theorem choose_of_single (knows : t.Knows product service) (single : ∀ vs, v ≠ .list vs)
    (run : (item d field v).start t = (.ok out, u)) :
    u = t.choose (selected product service field v) := by
  rw [item] at run
  · rw [selected]
    · cases event : field.same (.text "EventID") with
      | true =>
        rw [event, if_pos rfl] at run
        exact choose_of_eventItem knows run
      | false =>
        rw [event, if_neg Bool.false_ne_true] at run
        split_ifs at run with plain
        · exact eq_of_ruledItem run
        · exact (plain_usualItem d field v).eq_of_start run
    · exact single
  · exact single

mutual

theorem choose_of_item (v : Value) {t u : DefenderAtp} {out : Option String}
    (knows : t.Knows product service) (run : (item d field v).start t = (.ok out, u)) :
    u = t.choose (selected product service field v) := by
  match v with
  | .list vs =>
    rw [item] at run
    obtain ⟨outs, t₁, each, joined⟩ := start_bind_eq_ok.mp run
    rw [(plain_ofExcept _).eq_of_start joined, selected]
    exact choose_of_itemEach vs knows each
  | .null | .bool _ | .int _ | .decimal _ | .text _ | .map _ => exact choose_of_single knows nofun run

theorem choose_of_itemEach (vs : List Value) {t u : DefenderAtp} {outs : List (Option String)}
    (knows : t.Knows product service) (run : (itemEach d field vs).start t = (.ok outs, u)) :
    u = t.choose (selectedEach product service field vs) := by
  match vs with
  | [] =>
    cases run
    rfl
  | v :: rest =>
    rw [itemEach] at run
    obtain ⟨out, t₁, here, run⟩ := start_bind_eq_ok.mp run
    -- the next value may overwrite the table that this one has chosen
    obtain rfl := choose_of_item v knows here
    obtain ⟨outs, t₂, later, last⟩ := start_bind_eq_ok.mp run
    cases last
    rw [choose_of_itemEach rest (knows.choose _) later, selectedEach, choose_append]

end

mutual

theorem choose_of_render (c : Cond) {t u : DefenderAtp} {out : Option String}
    (knows : t.Knows product service) (run : ((renderer d).render c).start t = (.ok out, u)) :
    u = t.choose (tables product service c) := by
  match c with
  | .all _ items | .any items =>
    rw [render] at run
    obtain ⟨_, t₁, entered, run⟩ := start_bind_eq_ok.mp run
    cases entered
    obtain ⟨outs, t₂, each, joined⟩ := start_bind_eq_ok.mp run
    rw [(plain_ofExcept _).eq_of_start joined]
    exact choose_of_renderEach items knows each
  | .not (c :: _) | .group c =>
    rw [render] at run
    obtain ⟨text, t₁, inner, outer⟩ := start_bind_eq_ok.mp run
    rw [(plain_ofExcept _).eq_of_start outer]
    exact choose_of_render c knows inner
  | .item field v =>
    rw [render] at run
    rw [choose_of_item v knows run, tables]
    exact congrArg t.choose (append_nil _).symm
  | .isNull _ | .notNull _ =>
    rw [render] at run
    exact (plain_ofExcept _).eq_of_start run
  | .seq _ | .value (.list _) =>
    rw [render] at run
    exact (writes_listText (fun _ => plain_ofExcept _) d _).plain.eq_of_start run
  | .value (.text _) | .value (.int _) =>
    rw [render] at run
    exact ((plain_ofExcept _).bind fun text => plain_pure (some text)).eq_of_start run
  | .not [] | .absent | .token _ | .value .null | .value (.bool _) | .value (.decimal _)
  | .value (.map _) =>
    rw [render] at run
    · cases run
    all_goals nofun

theorem choose_of_renderEach (items : List Cond) {t u : DefenderAtp} {outs : List (Option String)}
    (knows : t.Knows product service)
    (run : ((renderer d).renderEach items).start t = (.ok outs, u)) :
    u = t.choose ((Cond.leavesOfAll items).flatMap (leafTables product service)) := by
  match items with
  | [] =>
    cases run
    rfl
  | c :: rest =>
    rw [renderEach] at run
    obtain ⟨out, t₁, here, run⟩ := start_bind_eq_ok.mp run
    obtain rfl := choose_of_render c knows here
    obtain ⟨outs, t₂, later, last⟩ := start_bind_eq_ok.mp run
    cases last
    rw [choose_of_renderEach rest (knows.choose _) later, Cond.leavesOfAll, flatMap_append,
      choose_append]
    rfl

end

/-! ## The table of a rule -/

/-- The target when it begins with a rule that has a log source. -/
def informed (t : DefenderAtp) (product service : Value) : DefenderAtp :=
  { t with table := some .null, product := some product, service := some service }

/-- The rule has a log source, as far as it is known, and a first condition. -/
structure Asks (r : Rule) (product service : Value) (p : ParsedCondition) : Prop where
  source : ∃ es, r.document = .map es ∧ sourceOf es = .ok (product, service)
  first : r.conditions.head? = some p

variable {r : Rule} {p : ParsedCondition}

theorem start_tableText (t : DefenderAtp) (product service : Value) (names : List String) (r : Rule) :
    tableText.start ⟨(t.informed product service).choose names, r⟩ =
      ((names.getLast?.map fun name => Except.ok (some (name ++ " | where "))).getD
        (.error (.unsupported .noTable)), ⟨(t.informed product service).choose names, r⟩) := by
  rw [tableText, start_bind_of_ok (start_get _)]
  simp only [table_choose]
  cases names.getLast? <;> rfl

theorem start_generate (asks : Asks r product service p) (t : DefenderAtp) :
    generate.start ⟨t, r⟩ = (do
      let q ← GenerateM.query search GenerateM.noAggregation p
      let b ← tableText
      let a ← pure (GenerateM.commentEnd t.query.options)
      return some (b.getD "" ++ q.getD "" ++ a.getD "") :
        GenerateM DefenderAtp (Option String)).start ⟨t.informed product service, r⟩ := by
  obtain ⟨⟨es, document, source⟩, first⟩ := asks
  obtain ⟨rest, conditions⟩ := head?_eq_some_iff.mp first
  have read : (entries : GenerateM DefenderAtp Entries).start
      ⟨{ t with table := some .null }, r⟩ = (.ok es, ⟨{ t with table := some .null }, r⟩) := by
    rw [entries, start_bind_of_ok (start_get _)]
    simp only [document]
    rfl
  have begun : generate.start ⟨t, r⟩ = (entries >>= fun es => _).start _ := rfl
  rw [begun, start_bind_of_ok read, source]
  show (GenerateM.first (GenerateM.query search GenerateM.noAggregation) (fun _ => tableText)
    fun _ => pure (GenerateM.commentEnd t.query.options)).start ⟨t.informed product service, r⟩ = _
  rw [start_first conditions]

variable {w : Work DefenderAtp} {text : String}

theorem exists_asks (run : generate.start ⟨t, r⟩ = (.ok (some text), w)) :
    ∃ product service p, Asks r product service p := by
  obtain ⟨document, detection, conditions⟩ := r
  cases document with
  | map es =>
    have begun : ∀ conditions, generate.start ⟨t, ⟨.map es, detection, conditions⟩⟩ =
        (FaultM.ofExcept (sourceOf es) >>= fun x => _).start _ := fun _ => rfl
    rw [begun] at run
    cases source : sourceOf es with
    | error e =>
      rw [source] at run
      cases run
    | ok x =>
      cases conditions with
      | nil =>
        rw [source] at run
        cases run
      | cons p rest => exact ⟨x.1, x.2, p, ⟨es, rfl, source⟩, rfl⟩
  | _ => cases run

theorem start_search (c : Cond) (t : DefenderAtp) (r : Rule) : (search c).start ⟨t, r⟩ =
    ((((renderer t.query.dialect).render c).start t).1,
      ⟨(((renderer t.query.dialect).render c).start t).2, r⟩) := by
  rw [search, start_bind_of_ok (start_get _), start_target]

/-- The outcome of a rule without an aggregation whose search can be written. -/
theorem generate_of_render (asks : Asks r product service p) (plain : p.aggregation = none)
    {q : Option String} (run : ((renderer t.query.dialect).render p.search).start
      (t.informed product service) = (.ok q, u)) :
    (generate.start ⟨t, r⟩).1 = ((tables product service p.search).getLast?.map fun table =>
      .ok (some (table ++ " | where " ++ q.getD "" ++
        (commentEnd t.query.options).getD ""))).getD (.error (.unsupported .noTable)) := by
  have found : (search p.search).start ⟨t.informed product service, r⟩ = (.ok q, ⟨u, r⟩) :=
    (start_search ..).trans (congrArg (fun x => (x.1, (⟨x.2, r⟩ : Work DefenderAtp))) run)
  have named := start_tableText t product service (tables product service p.search) r
  rw [← choose_of_render p.search ⟨rfl, rfl⟩ run] at named
  rw [start_generate asks, start_bind_of_ok (start_query_eq_ok.mpr ⟨plain, found⟩)]
  cases last : (tables product service p.search).getLast? with
  | none =>
    rw [last] at named
    rw [start_bind_of_error named]
    rfl
  | some table =>
    rw [last] at named
    rw [start_bind_of_ok named]
    rfl

theorem returns_of_generate (asks : Asks r product service p)
    (run : generate.start ⟨t, r⟩ = (.ok (some text), w)) : p.aggregation = none ∧
      ((renderer t.query.dialect).render p.search).Returns (t.informed product service) := by
  rw [start_generate asks] at run
  obtain ⟨q, w₁, queried, -⟩ := start_bind_eq_ok.mp run
  obtain ⟨plain, found⟩ := start_query_eq_ok.mp queried
  rw [start_search] at found
  exact ⟨plain, q, w₁.target, Prod.ext (Prod.mk.inj found).1 (congrArg Work.target (Prod.mk.inj found).2)⟩

end

/-- **The table of the last event number**: a rule that is converted has a log source, a condition that
selects a table, and a query that begins with the table that is selected last. If the condition has no
aggregation and can be written, the rule is refused for want of a table exactly if none is selected. -/
theorem generate_table (c : Config) (r : Rule) (t : DefenderAtp) :
    (∀ text, (Target.generate c r (.wdatp t)).result = .ok (some text) →
      ∃ product service p table query, Asks r product service p ∧
        (tables product service p.search).getLast? = some table ∧
        text = table ++ " | where " ++ query) ∧
    ∀ product service p, Asks r product service p → p.aggregation = none →
      ((renderer t.query.dialect).render p.search).Returns (t.informed product service) →
      ((Target.generate c r (.wdatp t)).result = .error (.unsupported .noTable) ↔
        tables product service p.search = []) := by
  constructor
  · intro text returned
    have run : generate.start ⟨t, r⟩ = (.ok (some text), (generate.start ⟨t, r⟩).2) :=
      Prod.ext returned rfl
    obtain ⟨product, service, p, asks⟩ := exists_asks run
    obtain ⟨plain, q, u, written⟩ := returns_of_generate asks run
    have outcome := generate_of_render asks plain written
    rw [run] at outcome
    cases last : (tables product service p.search).getLast? with
    | none =>
      rw [last] at outcome
      cases outcome
    | some table =>
      rw [last] at outcome
      have same := Option.some.inj (Except.ok.inj outcome)
      exact ⟨product, service, p, table, _, asks, last, same.trans (String.append_assoc ..)⟩
  · rintro product service p asks plain ⟨q, u, written⟩
    show (generate.start ⟨t, r⟩).1 = _ ↔ _
    rw [generate_of_render asks plain written, ← getLast?_eq_none_iff]
    cases (tables product service p.search).getLast? <;> simp

/-- A rule for an event log, with one condition. -/
def sysmonRule (search : Cond) : Rule where
  document := .map [("logsource", .map [("product", "windows"), ("service", "sysmon")])]
  detection := .ofEntries []
  conditions := [⟨search, none⟩]

/-- A rule that selects a table is not refused for want of one. -/
theorem generate_table_sysmon :
    Asks (sysmonRule (.item "EventID" (.int 1))) "windows" "sysmon" ⟨.item "EventID" (.int 1), none⟩ ∧
    ((renderer dialect).render (.item "EventID" (.int 1))).Returns
      ((new {}).informed "windows" "sysmon") ∧
    (Target.generate .empty (sysmonRule (.item "EventID" (.int 1))) (.wdatp (new {}))).result ≠
      .error (.unsupported .noTable) := by
  have asks : Asks (sysmonRule (.item "EventID" (.int 1))) "windows" "sysmon"
    ⟨.item "EventID" (.int 1), none⟩ := ⟨⟨_, rfl, rfl⟩, rfl⟩
  have returns : ((renderer dialect).render (.item "EventID" (.int 1))).Returns
    ((new {}).informed "windows" "sysmon") := ⟨_, _, rfl⟩
  refine ⟨asks, returns, fun refused => ?_⟩
  cases ((generate_table .empty _ (new {})).2 _ _ _ asks rfl returns).mp refused

/-- Two event numbers with different tables, and one below a negation. -/
theorem generate_table_inconsistent :
    tables "windows" "sysmon" (.item "EventID" (.list [.int 1, .int 3])) =
      ["ProcessCreationEvents", "NetworkCommunicationEvents"] ∧
    (Target.generate .empty (sysmonRule (.all none [.item "EventID" (.list [.int 1, .int 3]),
        .item "Image" "x"])) (.wdatp (new {}))).result =
      .ok (some "NetworkCommunicationEvents | where FolderPath == \"x\"") ∧
    (Target.generate .empty (sysmonRule (.not [.item "EventID" (.int 1)])) (.wdatp (new {}))).result =
      .ok (some "ProcessCreationEvents | where ") := by
  refine ⟨?_, ?_, ?_⟩ <;> decide +kernel

end DefenderAtp

end SigmaQuery
