import SigmaQuery.Proofs.QueryStringMemory
import SigmaQuery.Proofs.RuleMemory

/-!
# Rules after other rules

Four targets carry something from rule to rule: whether the last field was a keyword field, the last
time frame, the last log, and how much could be expressed. What such a target gives for a rule goes by
nothing else that the rules before have left. A rule is written by what is carried unless it comes with
its own: a value before the first field, a rule without a time frame, a rule that names no log, a rule
that can be expressed.
-/

namespace SigmaQuery

open FaultM Memory List Qualys Target PowerShell

/-! ## Targets -/

/-- What a target carries from rule to rule, as far as a rule can see it. -/
inductive Carried where
  | keyword (matched : Bool)
  | range (filter : Option (Except Fault Value))
  | command (text : String)
  | coverage (c : Coverage)
  | nothing

namespace Target

open Elastic

/-- The requests that a target has collected. -/
def requests : Target → List Value
  | .esDsl s => s.queries
  | _ => []

/-- What a target gives for a rule: its result, and the requests that it adds. -/
def output (c : Config) (r : Rule) (t : Target) : Except Fault (Option String) × List Value :=
  ((t.generate c r).result, (t.generate c r).target.requests.drop t.requests.length)

/-- The target after other rules, whatever became of them. -/
def after (t : Target) (history : List (Config × Rule)) : Target :=
  history.foldl (fun t x => (t.generate x.1 x.2).target) t

/-- What the target carries. -/
def carried (c : Config) : Target → Carried
  | .esQs q => .keyword q.keywords.matched
  | .esDsl s => .range (SearchRequest.rangeOf c s.interval)
  | .powershell s => .command (command s.log)
  | .qualys s => .coverage s.coverage
  | _ => .nothing

/-- The target without what it carries and collects. -/
def forget : Target → Target
  | .esQs q => .esQs (q.afterField true)
  | .esDsl s => .esDsl { options := s.options, keywords := { s.keywords with matched := true } }
  | .powershell s => .powershell { s with log := .null }
  | .qualys s => .qualys { s with coverage := .full }
  | t => t

/-- The target writes the rule by what it carries. -/
def reads (c : Config) (r : Rule) (t : Target) : Prop :=
  ∃ p ∈ r.conditions.head?, match t with
    | .esQs _ => p.search.openValues ≠ 0 ∧ ∃ text, (t.generate c r).result = .ok text
    | .esDsl s => SearchRequest.timeframe? r.document = none ∧ ∃ title source filter counts,
      r.entry "title" = .ok title ∧ r.source c = .ok source ∧
        SearchRequest.filterOf title s.tests p.search = .ok filter ∧
        SearchRequest.countsOf title p.aggregation = .ok counts
    | .powershell s => mentionsLog s.query.dialect p.search = false ∧
      ∃ text, (t.generate c r).result = .ok text
    | .qualys s => losesPart s.allowed p.search = false ∧
      ∃ text, (t.forget.generate c r).result = .ok text
    | _ => False

/-- The target may carry something else after the rule. -/
def touches (c : Config) (r : Rule) (t : Target) : Prop :=
  match t with
  | .esDsl _ => SearchRequest.timeframe? r.document ≠ none
  | .esQs _ => ∃ p ∈ r.conditions.head?, p.search.hasItem = true
  | .powershell s => ∃ p ∈ r.conditions.head?, mentionsLog s.query.dialect p.search = true
  | .qualys s => ∃ p ∈ r.conditions.head?, losesPart s.allowed p.search = true ∨
    (t.forget.generate c r).result = .error (.fullMatch (some "()"))
  | _ => False

/-- Of targets that differ only in what they carry and collect, the rule tells those apart that carry
something else, if the target writes it by that. -/
def TellsApart (c : Config) (r : Rule) (t : Target) : Prop :=
  ∀ t₁ t₂ : Target, t₁.forget = t.forget → t₂.forget = t.forget →
    (t₁.output c r = t₂.output c r ↔ (t.reads c r → t₁.carried c = t₂.carried c))

/-- The rule changes nothing but what is carried and collected, and what is carried only if it touches
it. -/
def Frames (c : Config) (r : Rule) (t : Target) : Prop :=
  ∀ t₁ : Target, t₁.forget = t.forget → (t₁.generate c r).target.forget = t.forget ∧
    (¬ t.touches c r → ∀ c', (t₁.generate c r).target.carried c' = t₁.carried c')

/-! ### Query strings -/

variable {t : Target} {q : QueryString} {r : Rule}

theorem eq_esQs (same : t.forget = (esQs q).forget) : ∃ a, t = .esQs (q.afterField a) := by
  cases t with
  | esQs q' =>
    have same : q'.afterField true = q.afterField true := by
      simpa [forget] using same
    exact ⟨q'.keywords.matched, congrArg _ (QueryString.eq_afterField same)⟩
  | _ => simp [forget] at same

section

variable {σ μ : Type} {M : Memory σ μ} {s : σ} {c : Config} {r : Rule} {touched : Bool}
  {Q : (μ → Option String) → Prop} {m : GenerateM σ (Option String)}

theorem output_of_tells (back : σ → Target) (tells : M.work.Tells ⟨s, r⟩ touched Q m)
    (runs : ∀ s, (back s).generate c r = runGeneration back m s r)
    (single : ∀ s, (back s).requests = []) :
    ∃ (out : Except Fault (μ → Option String)) (left : Option μ),
      (∀ a, (back (M.put a s)).output c r = (out.map (· a), []) ∧
        ((back (M.put a s)).generate c r).target = back (M.put (left.getD a) s)) ∧
      (left.isSome = true → touched = true) ∧ ∀ f, out = .ok f → Q f := by
  obtain ⟨out, left, run, honest, returned⟩ := tells
  refine ⟨out, left, fun a => ?_, honest, fun f ok => (returned f ok).1⟩
  have generated : (back (M.put a s)).generate c r =
      ⟨out.map (· a), back (M.put (left.getD a) s), r⟩ := by
    have here : m.start ⟨M.put a s, r⟩ = (out.map (· a), ⟨M.put (left.getD a) s, r⟩) := run a
    rw [runs, runGeneration, here]
  rw [output, generated, single, single]
  exact ⟨rfl, rfl⟩

theorem target_of_tells (back : σ → Target) (tells : M.work.Tells ⟨s, r⟩ touched Q m)
    (runs : ∀ s, (back s).generate c r = runGeneration back m s r)
    (single : ∀ s, (back s).requests = []) (a : μ) :
    ∃ b, ((back (M.put a s)).generate c r).target = back (M.put b s) ∧ (touched = false → b = a) := by
  obtain ⟨_, left, run, honest, -⟩ := output_of_tells back tells runs single
  refine ⟨left.getD a, (run a).2, ?_⟩
  intro untouched
  cases left with
  | none => rfl
  | some b => exact absurd (untouched.symm.trans (honest rfl)) Bool.false_ne_true

end

theorem tellsApart_esQs (language : q.query.dialect = QueryString.dialect) (c : Config) (r : Rule) :
    (esQs q).TellsApart c r := by
  obtain ⟨out, left, run, -, results⟩ := output_of_tells (c := c) .esQs
    (QueryString.tells_generate language r) (fun _ => rfl) (fun _ => rfl)
  have alone : ((esQs q).generate c r).result = out.map (· q.keywords.matched) :=
    congrArg Prod.fst (run q.keywords.matched).1
  intro t₁ t₂ same₁ same₂
  obtain ⟨a, rfl⟩ := eq_esQs same₁
  obtain ⟨b, rfl⟩ := eq_esQs same₂
  show (esQs (QueryString.memory.put a q)).output c r =
    (esQs (QueryString.memory.put b q)).output c r ↔ (_ → Carried.keyword a = Carried.keyword b)
  rw [(run a).1, (run b).1, Prod.mk.injEq, and_iff_left rfl, Carried.keyword.injEq]
  cases out with
  | error e =>
    refine iff_of_true rfl ?_
    rintro ⟨p, -, -, text, ok⟩
    rw [alone] at ok
    cases ok
  | ok f =>
    have written : (esQs q).reads c r ↔ f true ≠ f false := by
      rw [ne_eq, results f rfl, not_forall₂]
      constructor
      · rintro ⟨p, first, opened, -⟩
        exact ⟨p, first, opened⟩
      · rintro ⟨p, first, opened⟩
        exact ⟨p, first, opened, _, alone⟩
    rw [written]
    show Except.ok (f a) = Except.ok (f b) ↔ _
    rw [Except.ok.injEq]
    cases a <;> cases b <;> simp [eq_comm]

theorem frames_esQs (language : q.query.dialect = QueryString.dialect) (c : Config) (r : Rule) :
    (esQs q).Frames c r := by
  intro t₁ same
  obtain ⟨a, rfl⟩ := eq_esQs same
  obtain ⟨b, left, unchanged⟩ := target_of_tells (c := c) .esQs
    (QueryString.tells_generate language r) (fun _ => rfl) (fun _ => rfl) a
  show ((esQs (QueryString.memory.put a q)).generate c r).target.forget = _ ∧ (_ → ∀ c',
    ((esQs (QueryString.memory.put a q)).generate c r).target.carried c' = _)
  rw [left]
  refine ⟨rfl, fun untouched c' => ?_⟩
  rw [unchanged (Bool.eq_false_iff.mpr fun touched => untouched ((Option.any_eq_true _ _).mp touched))]
  rfl

/-! ### PowerShell -/

theorem eq_powershell {s : PowerShell} (same : t.forget = (powershell s).forget) :
    ∃ log, t = .powershell (PowerShell.memory.put log s) := by
  cases t with
  | powershell s' =>
    obtain ⟨query, log⟩ := s'
    have same : query = s.query := by
      simpa [forget] using same
    subst same
    exact ⟨log, rfl⟩
  | _ => simp [forget] at same

theorem tellsApart_powershell (s : PowerShell) (c : Config) (r : Rule) :
    (powershell s).TellsApart c r := by
  obtain ⟨out, left, run, -, results⟩ := output_of_tells .powershell
    (tells_generate (t := s) c r) (fun _ => rfl) (fun _ => rfl)
  have alone : ((powershell s).generate c r).result = out.map (· s.log) :=
    congrArg Prod.fst (run s.log).1
  intro t₁ t₂ same₁ same₂
  obtain ⟨a, rfl⟩ := eq_powershell same₁
  obtain ⟨b, rfl⟩ := eq_powershell same₂
  show _ ↔ (_ → Carried.command (command a) = Carried.command (command b))
  rw [(run a).1, (run b).1, Prod.mk.injEq, and_iff_left rfl, Carried.command.injEq]
  cases out with
  | error e =>
    refine iff_of_true rfl ?_
    rintro ⟨p, -, -, text, ok⟩
    rw [alone] at ok
    cases ok
  | ok f =>
    obtain ⟨named, unnamed⟩ := results f rfl
    show Except.ok (f a) = Except.ok (f b) ↔ _
    rw [Except.ok.injEq]
    by_cases own : ∀ p ∈ r.conditions.head?, mentionsLog s.query.dialect p.search = true
    · obtain ⟨text, rfl⟩ := named own
      refine iff_of_true rfl ?_
      rintro ⟨p, first, none, -⟩
      exact absurd (none.symm.trans (own p first)) Bool.false_ne_true
    · obtain ⟨p, first, none⟩ := not_forall₂.mp own
      have none := Bool.eq_false_iff.mpr none
      obtain ⟨text, rfl⟩ := unnamed p first none
      have reads : (powershell s).reads c r := ⟨p, first, none, _, alone⟩
      rw [Option.some_inj, String.append_left_inj, imp_iff_right reads]

theorem frames_powershell (s : PowerShell) (c : Config) (r : Rule) :
    (powershell s).Frames c r := by
  intro t₁ same
  obtain ⟨a, rfl⟩ := eq_powershell same
  obtain ⟨b, left, unchanged⟩ := target_of_tells .powershell
    (tells_generate (t := s) c r) (fun _ => rfl) (fun _ => rfl) a
  rw [left]
  refine ⟨rfl, fun untouched c' => ?_⟩
  rw [unchanged (Bool.eq_false_iff.mpr fun touched => untouched ((Option.any_eq_true _ _).mp touched))]

/-! ### Qualys -/

theorem eq_qualys {s : Qualys} (same : t.forget = (qualys s).forget) :
    ∃ a, t = .qualys (memory.put a s) := by
  cases t with
  | qualys s' =>
    obtain ⟨query, allowed, coverage⟩ := s'
    have same : query = s.query ∧ allowed = s.allowed := by
      simpa [forget] using same
    obtain ⟨rfl, rfl⟩ := same
    exact ⟨coverage, rfl⟩
  | _ => simp [forget] at same

theorem generate_qualys_nil (s : Qualys) (c : Config) (conditions : r.conditions = []) :
    (qualys s).generate c r = ⟨.ok none, .qualys s, r⟩ := by
  have run : Qualys.generate.start ⟨s, r⟩ = (.ok none, ⟨s, r⟩) :=
    start_generate_nil conditions
  show runGeneration .qualys Qualys.generate s r = _
  rw [runGeneration, run]

theorem generate_qualys (s : Qualys) (c : Config) {p : ParsedCondition}
    {rest : List ParsedCondition} (conditions : r.conditions = p :: rest) :
    ∃ (out : Except Fault (Option String)) (left : Option Coverage),
      (left.isSome = true → losesPart s.allowed p.search = true) ∧
      (∀ text, out = .ok text → losesPart s.allowed p.search = true → left.isSome = true) ∧
      ∀ a, (qualys (memory.put a s)).generate c r = match out with
        | .error e => ⟨.error e, .qualys (memory.put (left.getD a) s), r⟩
        | .ok text => ⟨verdict text (covered text (left.getD a)),
          .qualys (memory.put (covered text (left.getD a)) s), r⟩ := by
  obtain ⟨out, left, honest, changed, run⟩ := start_generate (t := s) conditions
  refine ⟨out, left, honest, changed, fun a => ?_⟩
  show runGeneration .qualys Qualys.generate (memory.put a s) r = _
  rw [runGeneration, run a]
  cases out <;> rfl

theorem tellsApart_qualys (s : Qualys) (c : Config) (r : Rule) : (qualys s).TellsApart c r := by
  intro t₁ t₂ same₁ same₂
  obtain ⟨a, rfl⟩ := eq_qualys same₁
  obtain ⟨b, rfl⟩ := eq_qualys same₂
  show _ ↔ (_ → Carried.coverage a = Carried.coverage b)
  rw [Carried.coverage.injEq]
  have outputs : ∀ a, (qualys (memory.put a s)).output c r =
      (((qualys (memory.put a s)).generate c r).result, []) := fun _ => rfl
  rw [outputs, outputs, Prod.mk.injEq, and_iff_left rfl]
  cases conditions : r.conditions with
  | nil =>
    rw [generate_qualys_nil _ c conditions, generate_qualys_nil _ c conditions]
    refine iff_of_true rfl ?_
    rintro ⟨p, first, -⟩
    rw [conditions] at first
    cases first
  | cons p rest =>
    obtain ⟨out, left, honest, changed, run⟩ := generate_qualys s c conditions
    have alone : (qualys s).forget.generate c r = _ := run .full
    have isFirst : ∀ p' ∈ r.conditions.head?, p' = p := by
      intro p' first
      rw [conditions] at first
      cases first
      rfl
    rw [run a, run b]
    cases out with
    | error e =>
      refine iff_of_true rfl ?_
      rintro ⟨-, -, -, text, ok⟩
      rw [alone] at ok
      cases ok
    | ok text =>
      cases loses : losesPart s.allowed p.search with
      | true =>
        -- what the rule loses replaces what was carried
        obtain ⟨v, rfl⟩ := Option.isSome_iff_exists.mp (changed text rfl loses)
        refine iff_of_true rfl ?_
        rintro ⟨p', first, keeps, -⟩
        obtain rfl := isFirst p' first
        exact absurd (keeps.symm.trans loses) Bool.false_ne_true
      | false =>
        obtain rfl : left = none := by
          rw [← Option.not_isSome_iff_eq_none]
          intro some
          exact absurd (loses.symm.trans (honest some)) Bool.false_ne_true
        show verdict text (covered text a) = verdict text (covered text b) ↔ _
        rw [verdict_inj]
        by_cases empty : (text == some "()") = true
        · -- an empty text is a fault for the rule alone, and here too
          rw [covered, covered, if_pos empty, if_pos empty]
          refine iff_of_true rfl ?_
          rintro ⟨-, -, -, t, ok⟩
          have none : covered text .full = .nothing := if_pos empty
          rw [alone] at ok
          change verdict text (covered text .full) = _ at ok
          rw [none] at ok
          cases ok
        · rw [covered, covered, if_neg empty, if_neg empty]
          have full : covered text .full = .full := if_neg empty
          have reads : (qualys s).reads c r := by
            refine ⟨p, by rw [conditions]; rfl, loses, text, ?_⟩
            rw [alone]
            show verdict text (covered text .full) = _
            rw [full]
            rfl
          rw [imp_iff_right reads]

theorem frames_qualys (s : Qualys) (c : Config) (r : Rule) : (qualys s).Frames c r := by
  intro t₁ same
  obtain ⟨a, rfl⟩ := eq_qualys same
  cases conditions : r.conditions with
  | nil =>
    rw [generate_qualys_nil _ c conditions]
    exact ⟨rfl, fun _ _ => rfl⟩
  | cons p rest =>
    obtain ⟨out, left, honest, -, run⟩ := generate_qualys s c conditions
    have alone : (qualys s).forget.generate c r = _ := run .full
    have first : p ∈ r.conditions.head? := by
      rw [conditions]
      rfl
    have kept : ¬ (qualys s).touches c r → left = none := by
      intro untouched
      rw [← Option.not_isSome_iff_eq_none]
      intro changed
      exact untouched ⟨p, first, .inl (honest changed)⟩
    rw [run a]
    cases out with
    | error e =>
      refine ⟨rfl, fun untouched c' => ?_⟩
      rw [kept untouched]
      rfl
    | ok text =>
      refine ⟨rfl, fun untouched c' => ?_⟩
      obtain rfl := kept untouched
      -- a text without content would show in the outcome of the rule alone
      have visible : ¬ (text == some "()") = true := by
        intro empty
        refine untouched ⟨p, first, .inr ?_⟩
        have none : covered text .full = .nothing := if_pos empty
        rw [alone]
        show verdict text (covered text .full) = _
        rw [none, eq_of_beq empty]
        rfl
      have covered : covered text a = a := if_neg visible
      exact congrArg Carried.coverage covered

/-! ### Search requests -/

theorem eq_esDsl {s : SearchRequest} (same : t.forget = (esDsl s).forget) :
    ∃ s', t = .esDsl s' ∧ s'.tests = s.tests := by
  cases t with
  | esDsl s' =>
    obtain ⟨options, keywords, title, interval, indices, queries⟩ := s'
    obtain ⟨field, blacklist, matched⟩ := keywords
    have same : options = s.options ∧ field = s.keywords.field ∧ blacklist = s.keywords.blacklist := by
      simpa [forget] using same
    obtain ⟨rfl, rfl, rfl⟩ := same
    exact ⟨_, rfl, rfl⟩
  | _ => simp [forget] at same

theorem output_esDsl (s : SearchRequest) (c : Config) (r : Rule) :
    (esDsl s).output c r = SearchRequest.served c r s.tests s.interval := by
  obtain ⟨s', b, run, queries, -⟩ := SearchRequest.start_generate_served c r s
  have generated : (esDsl s).generate c r =
      ⟨(SearchRequest.served c r s.tests s.interval).1, .esDsl s', r⟩ := by
    show runGeneration .esDsl (SearchRequest.generate c) s r = _
    rw [runGeneration, run]
  rw [output, generated]
  show (_, s'.queries.drop s.queries.length) = _
  rw [queries, drop_left]

theorem tellsApart_esDsl (s : SearchRequest) (c : Config) (r : Rule) :
    (esDsl s).TellsApart c r := by
  intro t₁ t₂ same₁ same₂
  obtain ⟨s₁, rfl, tests₁⟩ := eq_esDsl same₁
  obtain ⟨s₂, rfl, tests₂⟩ := eq_esDsl same₂
  show _ ↔ (_ → Carried.range (SearchRequest.rangeOf c s₁.interval) =
    Carried.range (SearchRequest.rangeOf c s₂.interval))
  rw [Carried.range.injEq, output_esDsl, output_esDsl, tests₁, tests₂]
  constructor
  · rintro same ⟨p, first, none, title, source, filter, counts, titled, sourced, made, found⟩
    obtain ⟨rest, conditions⟩ := head?_eq_some_iff.mp first
    rw [SearchRequest.served_of_untimed titled sourced none,
      SearchRequest.served_of_untimed titled sourced none, conditions] at same
    obtain ⟨results, requests⟩ := Prod.mk.inj same
    exact SearchRequest.requestsOf_inj made found
      (Prod.ext (SearchRequest.map_none_inj results) requests)
  · intro same
    by_cases reads : (esDsl s).reads c r
    · exact SearchRequest.served_congr (same reads)
    · exact SearchRequest.served_eq fun p first none title source filter counts titled sourced made
        found => reads ⟨p, first, none, title, source, filter, counts, titled, sourced, made, found⟩

theorem frames_esDsl (s : SearchRequest) (c : Config) (r : Rule) : (esDsl s).Frames c r := by
  intro t₁ same
  obtain ⟨s₁, rfl, -⟩ := eq_esDsl same
  obtain ⟨s', b, run, -, options, keywords, interval⟩ := SearchRequest.start_generate_served c r s₁
  have generated : ((esDsl s₁).generate c r).target = .esDsl s' := by
    show (runGeneration .esDsl (SearchRequest.generate c) s₁ r).target = _
    rw [runGeneration, run]
  rw [generated, ← same, forget, forget, options, keywords]
  refine ⟨rfl, fun untouched c' => ?_⟩
  rw [carried, interval (not_ne_iff.mp untouched), carried]

/-! ### Sequences of rules -/

section

variable {t t₁ : Target}

theorem forget_after (frames : ∀ c r, t.Frames c r) (same : t₁.forget = t.forget)
    (history : List (Config × Rule)) : (t₁.after history).forget = t.forget := by
  induction history generalizing t₁ with
  | nil => exact same
  | cons x rest ih => exact ih (frames x.1 x.2 t₁ same).1

theorem carried_after (frames : ∀ c r, t.Frames c r) {history : List (Config × Rule)}
    (untouched : ∀ x ∈ history, ¬ t.touches x.1 x.2) (c : Config)
    (same : t₁.forget = t.forget) : (t₁.after history).carried c = t₁.carried c := by
  induction history generalizing t₁ with
  | nil => rfl
  | cons x rest ih =>
    rw [forall_mem_cons] at untouched
    obtain ⟨kept, carries⟩ := frames x.1 x.2 t₁ same
    exact (ih untouched.2 kept).trans (carries untouched.1 c)

end

/-- The kinds of targets that carry something from rule to rule. -/
def carriers : List TargetKind :=
  [.esQs, .esDsl, .powershell, .qualys]

theorem carries_of_new {k : TargetKind} (kind : k ∈ carriers) {o : Options} {c₀ c₁ : Config}
    (made : (new k o).start c₀ = (.ok t, c₁)) (c : Config) (r : Rule) :
    t.TellsApart c r ∧ t.Frames c r := by
  obtain ⟨_, _, -, rest⟩ := start_bind_eq_ok.mp made
  obtain ⟨c', _, -, last⟩ := start_bind_eq_ok.mp rest
  have made : ofKind k (o.withDefaults k.optionSpecs) c' = .ok t := congrArg Prod.fst last
  simp only [carriers, mem_cons, not_mem_nil, or_false] at kind
  rcases kind with rfl | rfl | rfl | rfl
  · cases made
    exact ⟨tellsApart_esQs rfl c r, frames_esQs rfl c r⟩
  · cases made
    exact ⟨tellsApart_esDsl _ c r, frames_esDsl _ c r⟩
  · cases made
    exact ⟨tellsApart_powershell _ c r, frames_powershell _ c r⟩
  · obtain ⟨s, -, rfl⟩ := Cond.map_eq_ok made
    exact ⟨tellsApart_qualys s c r, frames_qualys s c r⟩

/-- **A rule after other rules**: a target for query strings, for search requests, for PowerShell or for
Qualys gives the same for a rule after two sequences of rules exactly if it carries the same after both
or does not write the rule by what it carries. It carries what a new target does as long as no rule
touches it. -/
theorem output_after {k : TargetKind} (kind : k ∈ carriers) {o : Options} {c₀ c₁ : Config}
    {t : Target} (made : (new k o).start c₀ = (.ok t, c₁)) (c : Config) (r : Rule) :
    (∀ h₁ h₂ : List (Config × Rule), (t.after h₁).output c r = (t.after h₂).output c r ↔
      (t.reads c r → (t.after h₁).carried c = (t.after h₂).carried c)) ∧
    ∀ h : List (Config × Rule), (∀ x ∈ h, ¬ t.touches x.1 x.2) →
      (t.after h).carried c = t.carried c := by
  have frames : ∀ c r, t.Frames c r := fun c r => (carries_of_new kind made c r).2
  refine ⟨fun h₁ h₂ => ?_, fun h untouched => carried_after frames untouched c rfl⟩
  exact (carries_of_new kind made c r).1 _ _ (forget_after frames rfl h₁) (forget_after frames rfl h₂)

/-- A rule with one condition. -/
def soleRule (detection : Entries) (search : Cond) : Rule where
  document := .map [("title", "A"), ("logsource", .map [("product", "p")]),
    ("detection", .map detection)]
  detection := .ofEntries detection
  conditions := [⟨search, none⟩]

/-- A rule with a field. -/
def fieldSearch : Rule :=
  soleRule [("sel", .map [("f", "v")]), ("condition", "sel")] (.item "f" "v")

/-- A rule with a value. -/
def valueSearch : Rule :=
  soleRule [("words", .list ["x"]), ("condition", "words")] (.value "x")

/-- A new target for query strings. -/
def newQueryString : Target :=
  .esQs (.new (Options.withDefaults keywordOptions []))

/-- A field makes another query of the value after it. A rule without a field does not. -/
theorem output_after_field :
    (newQueryString.after [(.empty, fieldSearch)]).output .empty valueSearch ≠
        newQueryString.output .empty valueSearch ∧
      (newQueryString.after [(.empty, valueSearch)]).carried .empty = .keyword true := by
  have made : (new .esQs []).start .empty = (.ok newQueryString, .empty) := rfl
  obtain ⟨decides, untouched⟩ := output_after (by decide) made .empty valueSearch
  have reads : newQueryString.reads .empty valueSearch :=
    ⟨⟨.value "x", none⟩, rfl, by decide +kernel, some "x", rfl⟩
  have carries : (newQueryString.after [(.empty, fieldSearch)]).carried .empty = .keyword false := rfl
  constructor
  · intro same
    have equal := (decides [(.empty, fieldSearch)] []).mp same reads
    rw [carries] at equal
    cases equal
  · refine untouched [(.empty, valueSearch)] ?_
    rintro x member ⟨p, first, item⟩
    obtain rfl := List.mem_singleton.mp member
    obtain rfl : (⟨.value "x", none⟩ : ParsedCondition) = p := Option.some.inj first
    cases item

/-- A rule with a time frame. -/
def timedSearch : Rule :=
  soleRule [("sel", .map [("f", "v")]), ("timeframe", "5m"), ("condition", "sel")] (.item "f" "v")

/-- A rule with a log. -/
def logSearch : Rule :=
  soleRule [("sel", .map [("LogName", "Security")]), ("condition", "sel")]
    (.item "LogName" "Security")

/-- A rule with a field that the configuration does not map to. -/
def unknownSearch : Rule :=
  soleRule [("sel", .map [("f", "v"), ("g", "w")]), ("condition", "sel")]
    (.group (.all none [.item "f" "v", .item "g" "w"]))

/-- A configuration with one field. -/
def mappedConfig : Config where
  fieldMappings := [("f", some (.simple "f"))]

/-- A target for PowerShell after a rule with a log. -/
def logPowerShell (log : Value) : Target :=
  .powershell { query := ⟨.withDefaults [csvOption] [], PowerShell.dialect⟩, log }

theorem result_logPowerShell : ((logPowerShell .null).generate mappedConfig fieldSearch).result =
    .ok (some ("Get-WinEvent | where \x7b$_.message -match \"f.*v\" \x7d | " ++
      "select TimeCreated,Id,RecordId,ProcessId,MachineName,Message")) := by
  cbv

/-- A new target gives something else for a rule after another rule than alone. -/
def Leaks (k : TargetKind) (before r : Rule) : Prop :=
  ∃ t, (new k []).start mappedConfig = (.ok t, mappedConfig) ∧
    (t.after [(mappedConfig, before)]).output mappedConfig r ≠ t.output mappedConfig r

/-- Each of the targets takes something over from a rule before: how a value is quoted, the time frame,
the log, and that something was lost. -/
theorem output_after_differs : Leaks .esQs fieldSearch valueSearch ∧
    Leaks .esDsl timedSearch fieldSearch ∧ Leaks .powershell logSearch fieldSearch ∧
    Leaks .qualys unknownSearch fieldSearch := by
  refine ⟨?_, ?_, ?_, ?_⟩
  · refine ⟨newQueryString, rfl, fun same => ?_⟩
    have texts : (.ok (some "\"x\"") : Except Fault _) = .ok (some "x") := congrArg Prod.fst same
    simp at texts
  · refine ⟨.esDsl .plain, rfl, fun same => ?_⟩
    have later : ((Target.esDsl .plain).after [(mappedConfig, timedSearch)]).output mappedConfig
        fieldSearch = (.ok none, [SearchRequest.request
          (SearchRequest.boolean "must" (.list [SearchRequest.rangeFilter "date" "5m"]))]) := by cbv
    have alone : (Target.esDsl .plain).output mappedConfig fieldSearch =
        (.ok none, [SearchRequest.request (SearchRequest.phrase "f" "v")]) := by cbv
    rw [later, alone] at same
    simp [SearchRequest.request, SearchRequest.boolean, SearchRequest.phrase, record] at same
  · refine ⟨logPowerShell .null, rfl, fun same => ?_⟩
    have later : (logPowerShell .null).after [(mappedConfig, logSearch)] =
        logPowerShell "Security" := by cbv
    rw [later] at same
    have reads : (logPowerShell .null).reads mappedConfig fieldSearch :=
      ⟨_, rfl, by decide, _, result_logPowerShell⟩
    have carried := (tellsApart_powershell _ _ _ _ _ (by rfl) (by rfl)).mp same reads
    exact absurd (Carried.command.inj carried) (by decide)
  · refine ⟨.qualys { query := ⟨.withDefaults [commentOption] [], Qualys.dialect⟩, allowed := ["f"] },
      rfl, fun same => ?_⟩
    have results : (.error (.partialMatch (some "f:`v`")) : Except Fault _) = .ok (some "f:`v`") :=
      congrArg Prod.fst same
    cases results

end Target

end SigmaQuery
