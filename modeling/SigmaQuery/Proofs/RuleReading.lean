import SigmaQuery.Proofs.Definitions
import SigmaQuery.Proofs.RuleNames
import SigmaQuery.Target.Basic

/-!
# What targets read of a rule

Targets read a few entries of a rule's document and its conditions. Some of them put in an entry that is
missing, with the value that they go on with, so what they read is the same before and after. Two rules
that are read alike give the same outcome and leave the target alike.
-/

namespace SigmaQuery

open FaultM Option TextQuery

/-! ## Entries that are put in -/

section Entries

variable {α : Type} {k k' : Key} {entries : List (Key × α)}

theorem putDefault_of_lookup {w : α} (found : lookup k entries = some w) (v : α) :
    putDefault k v entries = entries := by
  rw [putDefault, found]

theorem lookup_putDefault (k : Key) (v : α) (entries : List (Key × α)) :
    lookup k (putDefault k v entries) = some ((lookup k entries).getD v) := by
  cases found : lookup k entries with
  | none => rw [putDefault, found, getD_none, lookup_put]
  | some w => rw [putDefault_of_lookup found, found, getD_some]

theorem lookup_putDefault_of_ne (other : k ≠ k') (v : α) :
    lookup k (putDefault k' v entries) = lookup k entries := by
  cases found : lookup k' entries with
  | none => rw [putDefault, found, lookup_put_of_ne other]
  | some w => rw [putDefault_of_lookup found]

end Entries

/-- The condition with another aggregation, if it has one. -/
def ParsedCondition.mapAggregation (f : Aggregation → Aggregation) (p : ParsedCondition) :
    ParsedCondition :=
  { p with aggregation := p.aggregation.map f }

namespace Rule

/-- The entries of a rule's document. -/
def topEntries (r : Rule) : Except Fault Entries :=
  match r.document with
  | .map es => .ok es
  | _ => .error .wrongType

/-- The entries that targets put into a document without them. -/
def fillers : Entries :=
  [("description", .text ""), ("falsepositives", .text ""), ("level", .text ""),
    ("tags", .list [.text "NOT-DEF"])]

/-- An entry beside the detection part as it is read. -/
def entryIn (es : Entries) (k : Key) : Option Value :=
  if k = .text "detection" then none else (lookup k es).or (lookup k fillers)

/-- The time frame as it is read. -/
def timeframeIn (es : Entries) : Except Fault Value :=
  match lookup (.text "detection") es with
  | none => .error .noKey
  | some (.map detection) => .ok ((lookup (.text "timeframe") detection).getD (.text "30m"))
  | some _ => .error .noPart

/-- A document as it is read. -/
def readingOf (es : Entries) : (Key → Option Value) × Except Fault Value :=
  (entryIn es, timeframeIn es)

/-- The document of a rule as it is read. -/
def reading (r : Rule) : Except Fault ((Key → Option Value) × Except Fault Value) :=
  r.topEntries.map readingOf

/-- A rule as it is read by a target that takes some aggregations for the same. -/
def seen (blur : Aggregation → Aggregation) (r : Rule) :
    Except Fault ((Key → Option Value) × Except Fault Value) × List ParsedCondition :=
  (r.reading, r.conditions.map (·.mapAggregation blur))

variable {r r' : Rule} {es : Entries} {k : Key} {v : Value}

theorem document_of_topEntries (found : r.topEntries = .ok es) : r.document = .map es := by
  rw [topEntries] at found
  split at found
  · rename_i es' document
    rw [document, Except.ok.inj found]
  · cases found

theorem reading_of_map (document : r.document = .map es) : r.reading = .ok (readingOf es) := by
  rw [reading, topEntries, document]
  rfl

theorem topEntries_cases (same : r.reading = r'.reading) :
    (∃ e, r.topEntries = .error e ∧ r'.topEntries = .error e) ∨
      ∃ es es', r.topEntries = .ok es ∧ r'.topEntries = .ok es' ∧ readingOf es = readingOf es' := by
  rw [reading, reading] at same
  rcases here : r.topEntries with e | es <;> rcases there : r'.topEntries with e' | es' <;>
    rw [here, there] at same
  · exact .inl ⟨e, rfl, congrArg Except.error (Except.error.inj same).symm⟩
  · cases same
  · cases same
  · exact .inr ⟨es, es', rfl, rfl, Except.ok.inj same⟩

theorem lookup_congr {es' : Entries} (same : readingOf es = readingOf es')
    (plain : k ≠ .text "detection") (unfilled : lookup k fillers = none) :
    lookup k es = lookup k es' := by
  have read := congrFun (congrArg Prod.fst same) k
  simpa only [readingOf, entryIn, if_neg plain, unfilled, or_none] using read

theorem readingOf_putDefault (filler : lookup k fillers = some v) (es : Entries) :
    readingOf (putDefault k v es) = readingOf es := by
  have plain : .text "detection" ≠ k := by
    rintro rfl
    cases filler
  refine Prod.ext ?_ ?_
  · funext k'
    show entryIn (putDefault k v es) k' = entryIn es k'
    rw [entryIn, entryIn]
    by_cases same : k' = k
    · subst same
      rw [if_neg plain.symm, if_neg plain.symm, lookup_putDefault, filler]
      cases lookup k' es <;> rfl
    · rw [lookup_putDefault_of_ne same]
  · show timeframeIn (putDefault k v es) = timeframeIn es
    rw [timeframeIn, timeframeIn, lookup_putDefault_of_ne plain]

/-- The document with a time frame, if it has a detection part. -/
def withTimeframe (es : Entries) : Entries :=
  match lookup (.text "detection") es with
  | some (.map detection) =>
    put (.text "detection") (.map (putDefault (.text "timeframe") (.text "30m") detection)) es
  | _ => es

theorem readingOf_withTimeframe (es : Entries) : readingOf (withTimeframe es) = readingOf es := by
  unfold withTimeframe
  split
  · rename_i detection found
    refine Prod.ext ?_ ?_
    · funext k
      show entryIn (put _ _ es) k = entryIn es k
      rw [entryIn, entryIn]
      by_cases same : k = .text "detection"
      · rw [if_pos same, if_pos same]
      · rw [lookup_put_of_ne same]
    · show timeframeIn (put _ _ es) = timeframeIn es
      simp only [timeframeIn, lookup_put, found, lookup_putDefault, getD_some]
  · rfl

theorem entry_eq_ok {k : String} (found : r.entry k = .ok v) :
    ∃ es, r.topEntries = .ok es ∧ lookup (.text k) es = some v := by
  rw [entry] at found
  split at found
  · rename_i es document
    split at found
    · rename_i w there
      rw [Except.ok.inj found] at there
      exact ⟨es, by rw [topEntries, document], there⟩
    · cases found
  · cases found

theorem logSource_congr (same : r.reading = r'.reading) (c : Config) :
    r.logSource c = r'.logSource c := by
  have read : ∀ {r : Rule} {e : Fault}, r.topEntries = .error e → r.logSource c = .error e := by
    rintro ⟨document, detection, conditions⟩ e failed
    cases document with
    | map es => cases failed
    | _ => exact congrArg Except.error (Except.error.inj failed)
  rcases topEntries_cases same with ⟨e, here, there⟩ | ⟨es, es', here, there, alike⟩
  · rw [read here, read there]
  · rw [logSource, logSource, document_of_topEntries here, document_of_topEntries there]
    simp only [Config.logSourceOf]
    rw [lookup_congr alike (by decide) rfl]

end Rule

open Rule

namespace GenerateM

variable {σ α β υ ν : Type}

/-! ## Computations that go by a view of the rule -/

/-- The outcome of a computation, and the target afterwards. -/
def outcome (m : GenerateM σ α) (t : σ) (r : Rule) : Except Fault α × σ :=
  ((m.start ⟨t, r⟩).1, (m.start ⟨t, r⟩).2.target)

/-- From rules with the same view the computation has the same outcome and leaves the same target. -/
def Agrees (view : Rule → υ) (m : GenerateM σ α) : Prop :=
  ∀ t r r', view r = view r' → outcome m t r = outcome m t r'

/-- The computation goes by a view of the rule, which it keeps. -/
structure Sees (view : Rule → υ) (m : GenerateM σ α) : Prop where
  keeps : Keeps (fun w => view w.rule) m
  agrees : Agrees view m

section Views

variable {view : Rule → υ} {coarse : Rule → ν} {m : GenerateM σ α} {f : α → GenerateM σ β}

theorem Agrees.bind (first : Agrees view m) (kept : Keeps (fun w => coarse w.rule) m)
    (coarser : ∀ r r', view r = view r' → coarse r = coarse r') (next : ∀ a, Agrees coarse (f a)) :
    Agrees view (m >>= f) := by
  intro t r r' same
  have here := first t r r' same
  have before := kept ⟨t, r⟩
  have before' := kept ⟨t, r'⟩
  rcases run : m.start ⟨t, r⟩ with ⟨e | a, u, s⟩ <;>
    rcases run' : m.start ⟨t, r'⟩ with ⟨e' | a', u', s'⟩ <;>
    rw [outcome, outcome, run, run'] at here <;> obtain ⟨outs, targets⟩ := Prod.mk.inj here <;>
    cases outs <;> cases targets
  · rw [outcome, outcome, start_bind_of_error run, start_bind_of_error run']
  · rw [run] at before
    rw [run'] at before'
    rw [outcome, outcome, start_bind_of_ok run, start_bind_of_ok run']
    exact next a u s s' (before.trans ((coarser r r' same).trans before'.symm))

theorem Sees.bind (first : Sees view m) (next : ∀ a, Sees view (f a)) : Sees view (m >>= f) where
  keeps := first.keeps.bind fun a => (next a).keeps
  agrees := first.agrees.bind first.keeps (fun _ _ same => same) fun a => (next a).agrees

theorem sees_of_start (out : σ → Except Fault α × σ)
    (runs : ∀ t r, m.start ⟨t, r⟩ = ((out t).1, ⟨(out t).2, r⟩)) : Sees view m where
  keeps := by
    rintro ⟨t, r⟩
    rw [runs]
  agrees := by
    intro t r r' _
    rw [outcome, outcome, runs, runs]

theorem Sees.of_start {m' : GenerateM σ α} (sees : Sees view m')
    (same : ∀ w, m.start w = m'.start w) : Sees view m where
  keeps w := by
    rw [same w]
    exact sees.keeps w
  agrees t r r' alike := by
    rw [outcome, outcome, same, same]
    exact sees.agrees t r r' alike

theorem sees_pure (a : α) : Sees view (pure a : GenerateM σ α) :=
  sees_of_start (fun t => (.ok a, t)) fun _ _ => rfl

theorem sees_ofExcept (x : Except Fault α) : Sees view (FaultM.ofExcept x : GenerateM σ α) :=
  sees_of_start (fun t => (x, t)) fun _ _ => rfl

theorem sees_throw (e : Fault) : Sees view (throw e : GenerateM σ α) :=
  sees_ofExcept (.error e)

theorem sees_target (m : FaultM σ α) : Sees view (target m) :=
  sees_of_start m.start fun _ _ => rfl

theorem sees_modify (f : σ → σ) :
    Sees view (modify fun w => { w with target := f w.target } : GenerateM σ PUnit) :=
  sees_of_start (fun t => (.ok ⟨⟩, f t)) fun _ _ => rfl

theorem agrees_get {f : Work σ → GenerateM σ β}
    (seen : ∀ t r r', view r = view r' → f ⟨t, r⟩ = f ⟨t, r'⟩) (next : ∀ w, Agrees view (f w)) :
    Agrees view (get >>= f) := by
  intro t r r' same
  show outcome (f ⟨t, r⟩) t r = outcome (f ⟨t, r'⟩) t r'
  rw [seen t r r' same]
  exact next _ t r r' same

theorem sees_get {f : Work σ → GenerateM σ β}
    (seen : ∀ t r r', view r = view r' → f ⟨t, r⟩ = f ⟨t, r'⟩) (next : ∀ w, Sees view (f w)) :
    Sees view (get >>= f) where
  keeps := keeps_get.bind fun w => (next w).keeps
  agrees := agrees_get seen fun w => (next w).agrees

end Views

/-! ## Reading the document -/

theorem start_entries (w : Work σ) : (entries : GenerateM σ Entries).start w = (w.rule.topEntries, w) := by
  obtain ⟨t, ⟨document, detection, conditions⟩⟩ := w
  cases document <;> rfl

section Documents

variable {view : Rule → υ} (finer : ∀ r r', view r = view r' → r.reading = r'.reading)

include finer

theorem sees_entries_bind {k : Key} (plain : k ≠ .text "detection")
    (unfilled : lookup k fillers = none) {f : Entries → GenerateM σ β}
    (seen : ∀ es es', lookup k es = lookup k es' → f es = f es') (next : ∀ es, Sees view (f es)) :
    Sees view (entries >>= f) where
  keeps := by
    refine Keeps.bind (fun w => ?_) fun es => (next es).keeps
    rw [start_entries]
  agrees := by
    intro t r r' same
    have start : ∀ r : Rule, (entries : GenerateM σ Entries).start ⟨t, r⟩ = (r.topEntries, ⟨t, r⟩) :=
      fun r => start_entries ⟨t, r⟩
    rcases topEntries_cases (finer r r' same) with ⟨e, here, there⟩ | ⟨es, es', here, there, alike⟩
    · rw [outcome, outcome, start_bind_of_error ((start r).trans (by rw [here])),
        start_bind_of_error ((start r').trans (by rw [there]))]
    · rw [outcome, outcome, start_bind_of_ok ((start r).trans (by rw [here])),
        start_bind_of_ok ((start r').trans (by rw [there])),
        seen es es' (lookup_congr alike plain unfilled)]
      exact (next es').agrees t r r' same

theorem sees_entry {k : String} (plain : Key.text k ≠ .text "detection")
    (unfilled : lookup (.text k) fillers = none) : Sees view (entry k : GenerateM σ Value) := by
  refine sees_entries_bind finer plain unfilled ?_ fun es => ?_
  · intro es es' same
    rw [same]
  · split
    · exact sees_pure _
    · exact sees_throw _

theorem sees_shownFields : Sees view (shownFields : GenerateM σ _) := by
  refine sees_entries_bind finer (k := .text "fields") (by decide) rfl ?_ fun es => ?_
  · intro es es' same
    rw [same]
  · split
    · exact sees_pure _
    · exact (sees_ofExcept _).bind fun _ => sees_pure _

theorem sees_titleComment (o : Options) : Sees view (titleComment o : GenerateM σ _) := by
  rw [titleComment]
  split
  · refine sees_entries_bind finer (k := .text "title") (by decide) rfl ?_ fun es => ?_
    · intro es es' same
      rw [same]
    · split <;> exact sees_pure _
  · exact sees_pure _

theorem sees_logSource (c : Config) : Sees view (logSource c : GenerateM σ _) := by
  refine sees_get (fun t r r' same => ?_) fun w => ?_
  · rw [logSource_congr (finer r r' same)]
  · split
    · exact sees_throw _
    · exact sees_throw _
    · exact sees_pure _

theorem sees_ruleName (used : σ → List String) (replace : List String → σ → σ) :
    Sees view (ruleName used replace) := by
  refine (sees_entry finer (by decide) rfl).bind fun title => ?_
  refine sees_get (fun _ _ _ _ => rfl) fun w => (sees_ofExcept _).bind fun named => ?_
  exact (sees_modify _).bind fun _ => sees_pure _

end Documents

/-! ## Putting in what is missing -/

section Fillers

variable {blur : Aggregation → Aggregation}

theorem finer_seen (r r' : Rule) (same : r.seen blur = r'.seen blur) : r.reading = r'.reading :=
  congrArg Prod.fst same

variable {r : Rule} {es : Entries} {t : σ} {used : σ → List String} {replace : List String → σ → σ}
  {f : List ParsedCondition → GenerateM σ β}

theorem seen_document {es' : Entries} (document : r.document = .map es)
    (alike : readingOf es' = readingOf es) :
    seen blur { r with document := .map es' } = r.seen blur := by
  have here : r.reading = .ok (readingOf es) := reading_of_map document
  have there : reading { r with document := .map es' } = .ok (readingOf es') :=
    reading_of_map rfl
  rw [seen, seen, here, there, alike]

/-- A computation that reads something of the document and replaces it by one that is read alike. -/
theorem sees_replacement {m : GenerateM σ α} {read : Entries → Except Fault α} {new : Entries → Entries}
    (alike : ∀ es, readingOf (new es) = readingOf es)
    (seen : ∀ es es', readingOf es = readingOf es' → read es = read es')
    (failed : ∀ t (r : Rule) e, r.topEntries = .error e → m.start ⟨t, r⟩ = (.error e, ⟨t, r⟩))
    (found : ∀ t (r : Rule) es, r.topEntries = .ok es →
      m.start ⟨t, r⟩ = (read es, ⟨t, { r with document := .map (new es) }⟩)) :
    Sees (Rule.seen blur) m where
  keeps := by
    rintro ⟨t, r⟩
    cases here : r.topEntries with
    | error e => rw [failed t r e here]
    | ok es =>
      rw [found t r es here]
      exact seen_document (document_of_topEntries here) (alike es)
  agrees := by
    intro t r r' same
    rcases topEntries_cases (finer_seen r r' same) with
      ⟨e, here, there⟩ | ⟨es, es', here, there, same⟩
    · rw [outcome, outcome, failed t r e here, failed t r' e there]
    · rw [outcome, outcome, found t r es here, found t r' es' there, seen es es' same]

theorem start_entryOr (found : r.topEntries = .ok es) (k : String) (default : Value) :
    (entryOr k default).start ⟨t, r⟩ = (.ok ((lookup (.text k) es).getD default),
      ⟨t, { r with document := .map (putDefault (.text k) default es) }⟩) := by
  have read : (entries : GenerateM σ Entries).start ⟨t, r⟩ = (.ok es, ⟨t, r⟩) := by
    rw [start_entries, found]
  rw [entryOr, start_bind_of_ok read]
  show (Except.ok ((lookup (.text k) (putDefault (.text k) default es)).getD default), _) = _
  rw [lookup_putDefault, getD_some]

theorem sees_entryOr {k : String} {default : Value}
    (filler : lookup (.text k) fillers = some default) :
    Sees (Rule.seen blur) (entryOr k default : GenerateM σ Value) := by
  refine sees_replacement (Rule.readingOf_putDefault filler) ?_ (fun t r e failed => ?_)
    fun t r es found => start_entryOr found k default
  · intro es es' same
    have read := congrFun (congrArg Prod.fst same) (.text k)
    have plain : Key.text k ≠ .text "detection" := by
      intro detection
      rw [detection] at filler
      cases filler
    simp only [readingOf, entryIn, if_neg plain, filler] at read
    have values := congrArg (fun x => Option.getD x default) read
    simp only [getD_or, getD_some] at values
    rw [values]
  · refine start_bind_of_error ?_
    rw [start_entries, failed]

theorem start_timeframeOr (found : r.topEntries = .ok es) :
    (detectionEntryOr "timeframe" (.text "30m")).start ⟨t, r⟩ =
      (timeframeIn es, ⟨t, { r with document := .map (withTimeframe es) }⟩) := by
  have read : (entries : GenerateM σ Entries).start ⟨t, r⟩ = (.ok es, ⟨t, r⟩) := by
    rw [start_entries, found]
  obtain ⟨document, detection, conditions⟩ := r
  obtain rfl : document = .map es := document_of_topEntries found
  rw [detectionEntryOr, start_bind_of_ok read, timeframeIn, withTimeframe]
  cases part : lookup (.text "detection") es with
  | none => rfl
  | some v =>
    cases v with
    | map detection =>
      show (Except.ok ((lookup (.text "timeframe") (putDefault _ _ detection)).getD _), _) = _
      rw [lookup_putDefault, getD_some]
    | _ => rfl

theorem sees_timeframeOr :
    Sees (Rule.seen blur) (detectionEntryOr "timeframe" (.text "30m") : GenerateM σ Value) := by
  refine sees_replacement Rule.readingOf_withTimeframe (fun es es' same => congrArg Prod.snd same)
    (fun t r e failed => ?_) fun t r es found => start_timeframeOr found
  refine start_bind_of_error ?_
  rw [start_entries, failed]

/-- The entry of the title is not put in where the rule has got a name from it. -/
theorem start_ruleName_title (default : Value) (rest : String → Value → GenerateM σ β) (w : Work σ) :
    (do
      let name ← ruleName used replace
      let title ← entryOr "title" default
      rest name title : GenerateM σ β).start w = (do
      let name ← ruleName used replace
      let title ← entry "title"
      rest name title : GenerateM σ β).start w := by
  by_cases titled : ∃ title, w.rule.entry "title" = .ok (.text title)
  · obtain ⟨title, titled⟩ := titled
    rw [start_bind_of_ok (start_ruleName_of_title titled),
      start_bind_of_ok (start_ruleName_of_title titled)]
    obtain ⟨t, r⟩ := w
    obtain ⟨es, found, there⟩ := entry_eq_ok titled
    have same : { r with document := .map (putDefault (.text "title") default es) } = r := by
      rw [putDefault_of_lookup there, ← document_of_topEntries found]
    have read := start_entryOr (t := replace (used t ++ [freshName (used t) (nameOfTitle title)]) t)
      found "title" default
    rw [same, there, getD_some] at read
    have looked := start_entry "title"
      (⟨replace (used t ++ [freshName (used t) (nameOfTitle title)]) t, r⟩ : Work σ)
    rw [show r.entry "title" = .ok (.text title) from titled] at looked
    exact (start_bind_of_ok read).trans (start_bind_of_ok looked).symm
  · obtain ⟨e, failed⟩ : ∃ e, (ruleName used replace).start w = (.error e, w) :=
      start_ruleName_of_no_title (not_exists.mp titled)
    rw [start_bind_of_error failed, start_bind_of_error failed]

theorem sees_named (default : Value) {rest : String → Value → GenerateM σ β}
    (next : ∀ name title, Sees (seen blur) (rest name title)) : Sees (seen blur) (do
      let name ← ruleName used replace
      let title ← entryOr "title" default
      rest name title) := by
  have read : Sees (seen blur) (do
      let name ← ruleName used replace
      let title ← entry "title"
      rest name title) :=
    (sees_ruleName finer_seen used replace).bind fun name =>
      (sees_entry finer_seen (by decide) rfl).bind fun title => next name title
  exact read.of_start (start_ruleName_title default rest)

/-- A computation that looks at the conditions, in the same way where they are taken for the same. -/
theorem agrees_conditions {view : Rule → υ}
    (coarser : ∀ r r', r.seen blur = r'.seen blur → view r = view r')
    (blind : ∀ ps, f (ps.map (·.mapAggregation blur)) = f ps) (next : ∀ ps, Agrees view (f ps)) :
    Agrees (seen blur) (conditions >>= f) := by
  intro t r r' same
  have conditions : f r.conditions = f r'.conditions := by
    rw [← blind, ← blind r'.conditions]
    exact congrArg f (congrArg Prod.snd same)
  show outcome (f r.conditions) t r = outcome (f r'.conditions) t r'
  rw [conditions]
  exact next _ t r r' (coarser r r' same)

theorem sees_conditions (blind : ∀ ps, f (ps.map (·.mapAggregation blur)) = f ps)
    (next : ∀ ps, Sees (seen blur) (f ps)) : Sees (seen blur) (conditions >>= f) where
  keeps := Keeps.bind (fun _ => rfl) fun ps => (next ps).keeps
  agrees := agrees_conditions (fun _ _ same => same) blind fun ps => (next ps).agrees

end Fillers

/-! ## Queries -/

section Queries

variable {view : Rule → υ}

variable {search : Cond → GenerateM σ (Option String)}
  {aggregate : Aggregation → GenerateM σ String}

theorem sees_query (searches : ∀ c, Sees view (search c))
    (aggregates : ∀ a, Sees view (aggregate a)) (p : ParsedCondition) :
    Sees view (query search aggregate p) := by
  refine (searches p.search).bind fun text => ?_
  split
  · exact sees_pure _
  · refine (aggregates _).bind fun suffix => ?_
    split
    · exact sees_pure _
    · exact sees_throw _

/-- The query of a condition is the same where its aggregations are taken for the same. -/
theorem query_mapAggregation {blur : Aggregation → Aggregation}
    (blind : ∀ a, aggregate (blur a) = aggregate a) (p : ParsedCondition) :
    query search aggregate (p.mapAggregation blur) = query search aggregate p := by
  obtain ⟨condition, aggregation⟩ := p
  cases aggregation with
  | none => rfl
  | some a => simp only [query, ParsedCondition.mapAggregation, map_some, blind]

theorem sees_search (renderer : Dialect → Renderer TextQuery) (c : Cond) :
    Sees view (TextQuery.search renderer c) :=
  sees_get (fun _ _ _ _ => rfl) fun _ => sees_target _

theorem sees_pipelineAggregation (step compare : String) (a : Aggregation) :
    Sees view (pipelineAggregation step compare a : GenerateM σ String) := by
  rw [pipelineAggregation]
  split
  · exact sees_throw _
  · exact sees_pure _

theorem sees_searchIn (part : σ → Elastic.QueryString) (replace : Elastic.QueryString → σ → σ)
    (c : Cond) : Sees view (Elastic.QueryString.searchIn part replace c) :=
  sees_of_start (fun t => (((Elastic.QueryString.renderer (part t).query.dialect).render c).start
    (part t)).map id fun q => replace q t) fun _ _ => rfl

end Queries

end GenerateM

open GenerateM

/-! ## Alerts -/

namespace Elastic.Elastalert

variable {υ : Type} {view : Rule → υ} {blur : Aggregation → Aggregation}

theorem sees_alert (s : Shared) (n : Nat) (p : ParsedCondition) : Sees view (alert s n p) := by
  have aggregates : ∀ a, Sees view (aggregate a : GenerateM Elastalert String) := by
    intro a
    rw [aggregate]
    split
    · exact sees_throw _
    · exact sees_pure _
    · exact sees_throw _
  have filters : Sees view (filter p) :=
    (sees_query (sees_searchIn _ _) aggregates p).bind fun _ => sees_pure _
  refine sees_get (fun _ _ _ _ => rfl) fun w => ?_
  exact (sees_ofExcept _).bind fun _ => (sees_ofExcept _).bind fun _ => filters.bind fun _ =>
    (sees_ofExcept _).bind fun _ => (sees_ofExcept _).bind fun _ => sees_pure _

theorem sees_store (name : String) (v : Value) : Sees view (store name v) :=
  sees_modify fun t : Elastalert => { t with alerts := put (.text name) v t.alerts }

theorem sees_addAlerts (s : Shared) (n : Nat) (ps : List ParsedCondition) :
    Sees view (addAlerts s n ps) := by
  induction ps generalizing n with
  | nil => exact sees_pure _
  | cons p rest ih =>
    exact ((sees_alert s n p).bind fun v => sees_store _ v).bind fun _ => ih (n + 1)

theorem sees_shared (c : Config) : Sees (seen blur) (shared c) := by
  refine sees_named _ fun name _ => ?_
  refine (sees_entryOr rfl).bind fun _ => (sees_entryOr rfl).bind fun _ =>
    (sees_entryOr rfl).bind fun _ => (sees_entryOr rfl).bind fun _ => ?_
  exact sees_timeframeOr.bind fun _ => (sees_ofExcept _).bind fun _ =>
    (sees_logSource finer_seen c).bind fun _ => sees_pure _

theorem addAlerts_mapAggregation
    (blind : ∀ s n p, alert s n (p.mapAggregation blur) = alert s n p) (s : Shared) (n : Nat)
    (ps : List ParsedCondition) : addAlerts s n (ps.map (·.mapAggregation blur)) = addAlerts s n ps := by
  induction ps generalizing n with
  | nil => rfl
  | cons p rest ih => rw [List.map_cons, addAlerts, addAlerts, addAlert, addAlert, blind, ih]

theorem sees_generate (blind : ∀ s n p, alert s n (p.mapAggregation blur) = alert s n p)
    (c : Config) : Sees (seen blur) (generate c) := by
  refine (sees_shared c).bind fun s => sees_conditions ?_ fun ps => ?_
  · intro ps
    rw [addAlerts_mapAggregation blind]
  · exact (sees_addAlerts s 0 ps).bind fun _ => sees_pure _

end Elastic.Elastalert

/-! ## Watches -/

namespace Elastic.Watcher

variable {υ : Type} {view : Rule → υ} {blur : Aggregation → Aggregation}

theorem sees_store (name : String) (v : Value) : Sees view (store name v) :=
  sees_modify fun t : Watcher => { t with watches := put (.text name) v t.watches }

theorem sees_setWatch (finer : ∀ r r', view r = view r' → r.reading = r'.reading) (s : Shared)
    (order : Option String) (p : ParsedCondition) : Sees view (setWatch s order p) := by
  refine (sees_searchIn _ _ _).bind fun text => Sees.bind ?_ fun made =>
    (sees_store _ _).bind fun _ => sees_pure _
  refine (sees_ofExcept _).bind fun c => ?_
  refine sees_entries_bind finer (k := .text "fields") (by decide) rfl ?_ fun es => ?_
  · intro es es' same
    rw [same]
  · exact (sees_ofExcept _).bind fun _ => sees_get (fun _ _ _ _ => rfl) fun _ => sees_pure _

theorem sees_setWatches (finer : ∀ r r', view r = view r' → r.reading = r'.reading) (s : Shared)
    (order : Option String) (ps : List ParsedCondition) : Sees view (setWatches s order ps) := by
  induction ps generalizing order with
  | nil => exact sees_pure _
  | cons p rest ih => exact (sees_setWatch finer s order p).bind fun order => ih order

theorem sees_shared (c : Config) : Sees (seen blur) (shared c) := by
  refine sees_named _ fun name _ => ?_
  refine (sees_entryOr rfl).bind fun _ => (sees_entryOr rfl).bind fun _ =>
    (sees_entryOr rfl).bind fun _ => ?_
  exact sees_timeframeOr.bind fun _ => (sees_logSource finer_seen c).bind fun _ => sees_pure _

theorem setWatches_mapAggregation
    (blind : ∀ s order p, setWatch s order (p.mapAggregation blur) = setWatch s order p) (s : Shared)
    (order : Option String) (ps : List ParsedCondition) :
    setWatches s order (ps.map (·.mapAggregation blur)) = setWatches s order ps := by
  induction ps generalizing order with
  | nil => rfl
  | cons p rest ih => simp only [List.map_cons, setWatches, blind, ih]

theorem sees_generate (blind : ∀ s order p, setWatch s order (p.mapAggregation blur) = setWatch s order p)
    (c : Config) : Sees (seen blur) (generate c) := by
  refine (sees_shared c).bind fun s => sees_conditions ?_ fun ps => ?_
  · intro ps
    rw [setWatches_mapAggregation blind]
  · exact (sees_setWatches finer_seen s none ps).bind fun _ => sees_pure _

end Elastic.Watcher

/-! ## Text -/

section Text

variable {blur : Aggregation → Aggregation} {renderer : Dialect → Renderer TextQuery}
  {aggregate : Aggregation → GenerateM TextQuery String}

/-- What is written for the first condition. -/
def TextQuery.written (renderer : Dialect → Renderer TextQuery)
    (aggregate : Aggregation → GenerateM TextQuery String) (o : Options) :
    List ParsedCondition → GenerateM TextQuery (Option String)
  | [] => return none
  | p :: _ => do
    let q ← query (TextQuery.search renderer) aggregate p
    let b ← titleComment o
    return some (b.getD "" ++ q.getD "" ++ (commentEnd o).getD "")

theorem TextQuery.generate_eq : generate renderer aggregate =
    get >>= fun w => conditions >>= written renderer aggregate w.target.options := by
  rw [generate, commented]
  refine congrArg (get >>= ·) ?_
  funext w
  rw [first]
  refine congrArg (conditions >>= ·) ?_
  funext ps
  cases ps <;> rfl

theorem TextQuery.written_mapAggregation (blind : ∀ a, aggregate (blur a) = aggregate a) (o : Options)
    (ps : List ParsedCondition) : written renderer aggregate o (ps.map (·.mapAggregation blur)) =
      written renderer aggregate o ps := by
  cases ps with
  | nil => rfl
  | cons p rest =>
    rw [List.map_cons, written, written, query_mapAggregation blind]

theorem TextQuery.sees_written {υ : Type} {view : Rule → υ}
    (finer : ∀ r r', view r = view r' → r.reading = r'.reading)
    (aggregates : ∀ a, Sees view (aggregate a)) (o : Options) (ps : List ParsedCondition) :
    Sees view (written renderer aggregate o ps) := by
  cases ps with
  | nil => exact sees_pure _
  | cons p rest =>
    exact (sees_query (sees_search renderer) aggregates p).bind fun _ =>
      (sees_titleComment finer o).bind fun _ => sees_pure _

theorem TextQuery.sees_generate (blind : ∀ a, aggregate (blur a) = aggregate a)
    (aggregates : ∀ a, Sees (seen blur) (aggregate a)) :
    Sees (seen blur) (generate renderer aggregate) := by
  rw [generate_eq]
  refine sees_get (fun _ _ _ _ => rfl) fun w => sees_conditions ?_ ?_
  · exact written_mapAggregation blind _
  · exact sees_written finer_seen aggregates _

end Text

theorem SumoLogic.sees_generate : Sees (seen id) SumoLogic.generate :=
  TextQuery.sees_generate (fun _ => rfl) (sees_pipelineAggregation _ _)

theorem LogPoint.sees_generate : Sees (seen id) LogPoint.generate :=
  TextQuery.sees_generate (fun _ => rfl) (sees_pipelineAggregation _ _)

namespace Splunk

theorem groupedFunction_of_ne {a : Aggregation} (other : a.functionText ≠ some "count") :
    groupedFunction a = a := by
  rw [groupedFunction, if_neg]
  intro both
  rw [Bool.and_eq_true, beq_iff_eq] at both
  exact other both.2

theorem groupedFunction_groupedFunction (a : Aggregation) :
    groupedFunction (groupedFunction a) = groupedFunction a := by
  by_cases grouped : (a.group.isSome && a.functionText == some "count") = true
  · have renamed : groupedFunction a = { a with functionText := some "dc" } := if_pos grouped
    rw [renamed]
    exact groupedFunction_of_ne (show some "dc" ≠ some "count" by decide)
  · have same : groupedFunction a = a := if_neg grouped
    rw [same, same]

theorem function_groupedFunction (a : Aggregation) : (groupedFunction a).function = a.function := by
  unfold groupedFunction
  split <;> rfl

theorem aggregate_groupedFunction (a : Aggregation) : aggregate (groupedFunction a) = aggregate a := by
  rw [aggregate, aggregate, function_groupedFunction, groupedFunction_groupedFunction]

theorem sees_setAggregation (a : Aggregation) :
    Sees reading (setAggregation a : GenerateM TextQuery Unit) where
  keeps _ := rfl
  agrees _ _ _ _ := rfl

theorem sees_aggregate (a : Aggregation) : Sees reading (aggregate a) := by
  rw [aggregate]
  split
  · exact sees_throw _
  · exact (sees_setAggregation _).bind fun _ => sees_pipelineAggregation _ _ _

theorem sees_columns {υ : Type} {view : Rule → υ}
    (finer : ∀ r r', view r = view r' → r.reading = r'.reading) (c : Config) :
    Sees view (columns c) := by
  refine (sees_shownFields finer).bind fun fields => ?_
  split
  · exact sees_pure _
  · exact sees_pure _
  · exact (sees_ofExcept _).bind fun _ => sees_pure _

/-- The outcome of a rule goes by its aggregation as it is renamed. The aggregation is renamed in the
rule too, so the rule is not kept as it is seen while it is written. -/
theorem agrees_generate (c : Config) : Agrees (seen groupedFunction) (generate c) := by
  refine (sees_columns finer_seen c).agrees.bind (sees_columns finer_seen c).keeps
    (fun _ _ same => same) fun columns => ?_
  have written : ∀ o ps, Sees reading (written (renderer true) aggregate o ps) :=
    TextQuery.sees_written (fun _ _ same => same) sees_aggregate
  have agrees : Agrees (seen groupedFunction) (TextQuery.generate (renderer true) aggregate) := by
    rw [TextQuery.generate_eq]
    refine agrees_get (fun _ _ _ _ => rfl) fun w => agrees_conditions finer_seen ?_ fun ps => ?_
    · exact written_mapAggregation aggregate_groupedFunction _
    · exact (written _ ps).agrees
  have keeps : Keeps (fun w => w.rule.reading) (TextQuery.generate (renderer true) aggregate) := by
    rw [TextQuery.generate_eq]
    exact keeps_get.bind fun w => Keeps.bind (fun _ => rfl) fun ps => (written _ ps).keeps
  refine agrees.bind keeps finer_seen fun text => Sees.agrees ?_
  split
  · exact sees_pure _
  · exact (sees_ofExcept _).bind fun _ => sees_pure _

end Splunk

end SigmaQuery
