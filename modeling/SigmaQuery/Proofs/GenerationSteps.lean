import SigmaQuery.Proofs.Computation
import SigmaQuery.Target.Generation

/-!
# Steps of generation

What the steps that targets share do to a target at work on a rule. None of them changes the rule, and
what they read of it does not depend on the target.
-/

namespace SigmaQuery

open FaultM

namespace Rule

/-- The entry of a rule's document that must be there. -/
def entry (r : Rule) (k : String) : Except Fault Value :=
  match r.document with
  | .map es => match lookup (.text k) es with
    | some v => .ok v
    | none => .error .noKey
  | _ => .error .wrongType

/-- The log source of a rule, which must have one. -/
def source (r : Rule) (c : Config) : Except Fault LogSource :=
  match r.logSource c with
  | .error e => .error e
  | .ok none => .error .noPart
  | .ok (some s) => .ok s

/-- The comment before the query of a rule, which gives its title if the option asks for it. -/
def comment (r : Rule) (o : Options) : Except Fault (Option String) :=
  if (o.get "rulecomment").truthy then match r.document with
    | .map es => match lookup (.text "title") es with
      | some title => .ok (some ("# " ++ title.display ++ "\n"))
      | none => .ok (some "")
    | _ => .error .wrongType
  else .ok none

end Rule

namespace GenerateM

variable {σ α : Type}

theorem start_target (m : FaultM σ α) (w : Work σ) :
    (target m).start w = ((m.start w.target).1, { w with target := (m.start w.target).2 }) := rfl

theorem start_conditions (w : Work σ) :
    (conditions : GenerateM σ _).start w = (.ok w.rule.conditions, w) := rfl

theorem start_entry (k : String) (w : Work σ) :
    (entry k : GenerateM σ Value).start w = (w.rule.entry k, w) := by
  obtain ⟨t, ⟨document, detection, conditions⟩⟩ := w
  cases document with
  | map es =>
    show ((match lookup (.text k) es with
      | some v => pure v
      | none => throw .noKey : GenerateM σ Value)).start _ = (match lookup (.text k) es with
      | some v => .ok v
      | none => .error .noKey, _)
    cases lookup (.text k) es <;> rfl
  | _ => rfl

theorem start_logSource (c : Config) (w : Work σ) :
    (logSource c : GenerateM σ LogSource).start w = (w.rule.source c, w) := by
  show ((match w.rule.logSource c with
    | .error e => throw e
    | .ok none => throw .noPart
    | .ok (some s) => pure s : GenerateM σ LogSource)).start w = _
  rw [Rule.source]
  rcases w.rule.logSource c with e | _ | s <;> rfl

theorem start_titleComment (o : Options) (w : Work σ) :
    (titleComment o : GenerateM σ (Option String)).start w = (w.rule.comment o, w) := by
  obtain ⟨t, ⟨document, detection, conditions⟩⟩ := w
  rw [titleComment, Rule.comment]
  split
  · cases document with
    | map es =>
      show ((match lookup (.text "title") es with
        | some title => pure (some ("# " ++ title.display ++ "\n"))
        | none => pure (some "") : GenerateM σ (Option String))).start _ =
          (match lookup (.text "title") es with
        | some title => .ok (some ("# " ++ title.display ++ "\n"))
        | none => .ok (some ""), _)
      cases lookup (.text "title") es <;> rfl
    | _ => rfl
  · rfl

variable {query before after : ParsedCondition → GenerateM σ (Option String)} {w : Work σ}
  {p : ParsedCondition}

theorem start_query_eq_ok {search : Cond → GenerateM σ (Option String)}
    {text : Option String} {v : Work σ} :
    (GenerateM.query search noAggregation p).start w = (.ok text, v) ↔
      p.aggregation = none ∧ (search p.search).start w = (.ok text, v) := by
  obtain ⟨c, aggregation⟩ := p
  cases aggregation with
  | none =>
    show (search c >>= pure).start w = _ ↔ _
    rw [bind_pure]
    exact (and_iff_right rfl).symm
  | some a =>
    refine ⟨fun run => ?_, fun h => nomatch h.1⟩
    obtain ⟨_, _, -, refused⟩ := start_bind_eq_ok.mp run
    cases refused

/-- The query of the first condition, with what is written before and after it. -/
theorem start_first {rest : List ParsedCondition}
    (conditions : w.rule.conditions = p :: rest) : (first query before after).start w = (do
      let q ← query p
      let b ← before p
      let a ← after p
      return some (b.getD "" ++ q.getD "" ++ a.getD "") : GenerateM σ (Option String)).start w := by
  rw [first, start_bind_of_ok (start_conditions w), conditions]

theorem start_first_nil (conditions : w.rule.conditions = []) :
    (first query before after).start w = (.ok none, w) := by
  rw [first, start_bind_of_ok (start_conditions w), conditions]
  rfl

end GenerateM

end SigmaQuery
