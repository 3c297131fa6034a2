import Mathlib.Data.List.Forall2
import SigmaQuery.Proofs.RuleHistory

/-!
# What a query leaves out

A target for Qualys leaves items with fields that it does not know out of conjunctions and disjunctions,
and writes the other items and values one after another.
-/

namespace SigmaQuery

open FaultM List Cond Renderer

/-! ## Texts in turn -/

/-- The texts stand in a text one after another. -/
def InTurn : List String → String → Prop
  | [], _ => True
  | t :: ts, s => ∃ before after, s = before ++ t ++ after ∧ InTurn ts after

namespace InTurn

variable {ts us : List String} {s s' : String}

theorem behind (h : InTurn ts s) (before : String) : InTurn ts (before ++ s) := by
  cases ts with
  | nil => trivial
  | cons t ts =>
    obtain ⟨first, after, rfl, rest⟩ := h
    exact ⟨before ++ first, after, by simp only [String.append_assoc], rest⟩

theorem append (h : InTurn ts s) (h' : InTurn us s') : InTurn (ts ++ us) (s ++ s') := by
  induction ts generalizing s with
  | nil => exact h'.behind s
  | cons t ts ih =>
    obtain ⟨before, after, rfl, rest⟩ := h
    exact ⟨before, after ++ s', by simp only [String.append_assoc], ih rest⟩

theorem before (h : InTurn ts s) (after : String) : InTurn ts (s ++ after) := by
  have ended : InTurn [] after := trivial
  simpa using h.append ended

/-- Texts in the first part of a junction and in the others. A part without a text is left out. -/
theorem part {out : Option String} {outs : List (Option String)} {sep : String}
    (here : InTurn ts (out.getD "")) (later : InTurn us (sep.intercalate (outs.filterMap id))) :
    InTurn (ts ++ us) (sep.intercalate ((out :: outs).filterMap id)) := by
  cases out with
  | none => simpa using here.append later
  | some text =>
    show InTurn _ (sep.intercalate (text :: outs.filterMap id))
    cases kept : outs.filterMap id with
    | nil =>
      rw [kept] at later
      simpa using here.append later
    | cons next rest =>
      rw [kept] at later
      rw [String.intercalate_cons_cons]
      exact (here.before sep).append later

end InTurn

/-! ## What becomes of leaves -/

namespace Cond

mutual

/-- The leaves of a tree, each with the junction that leaves it out, if one does. -/
def fates (keeps : Cond → Bool) : Cond → List (Cond × Option Junction)
  | .all _ items => fatesIn keeps .conj items
  | .any items => fatesIn keeps .disj items
  | .not (c :: _) => fates keeps c
  | .group inner => fates keeps inner
  | c => [(c, none)]

def fatesIn (keeps : Cond → Bool) (j : Junction) : List Cond → List (Cond × Option Junction)
  | [] => []
  | c :: rest => (if keeps c then fates keeps c else [(c, some j)]) ++ fatesIn keeps j rest

end

/-- The leaves that are not left out. -/
def written (fates : List (Cond × Option Junction)) : List Cond :=
  (fates.filter fun x => x.2.isNone).map Prod.fst

/-- A conjunction leaves out a leaf. -/
def cut (fates : List (Cond × Option Junction)) : Bool :=
  fates.any fun x => x.2 == some .conj

variable {keeps : Cond → Bool}

mutual

theorem fates_leaves (leaf : ∀ c, keeps c = false → c.leaves = [c]) (c : Cond) :
    (c.fates keeps).map Prod.fst = c.leaves ∧
      ∀ x ∈ c.fates keeps, x.2 ≠ none → keeps x.1 = false := by
  match c with
  | .all _ items => exact fatesIn_leaves leaf .conj items
  | .any items => exact fatesIn_leaves leaf .disj items
  | .not (c :: _) => exact fates_leaves leaf c
  | .group inner => exact fates_leaves leaf inner
  | .not [] | .absent | .isNull _ | .notNull _ | .seq _ | .item _ _ | .value _ | .token _ =>
    exact ⟨rfl, forall_mem_singleton.mpr fun out => absurd rfl out⟩

theorem fatesIn_leaves (leaf : ∀ c, keeps c = false → c.leaves = [c]) (j : Junction)
    (items : List Cond) : (fatesIn keeps j items).map Prod.fst = leavesOfAll items ∧
      ∀ x ∈ fatesIn keeps j items, x.2 ≠ none → keeps x.1 = false := by
  match items with
  | [] => exact ⟨rfl, forall_mem_nil _⟩
  | c :: rest =>
    obtain ⟨same, others⟩ := fatesIn_leaves leaf j rest
    rw [fatesIn, map_append, same, leavesOfAll, forall_mem_append]
    cases kept : keeps c with
    | true =>
      obtain ⟨here, only⟩ := fates_leaves leaf c
      exact ⟨congrArg (· ++ _) here, only, others⟩
    | false =>
      refine ⟨?_, forall_mem_singleton.mpr fun _ => kept, others⟩
      rw [leaf c kept]
      rfl

end

end Cond

namespace Qualys

variable {allowed : List Value} {t u : Qualys} {out : Option String} {outs : List (Option String)}
  {j : Junction}

/-- The target after leaves with these fates. -/
def marked (t : Qualys) (fates : List (Cond × Option Junction)) : Qualys :=
  if cut fates then { t with coverage := .part } else t

theorem marked_append (t : Qualys) (fates others : List (Cond × Option Junction)) :
    t.marked (fates ++ others) = (t.marked fates).marked others := by
  unfold marked cut
  rw [any_append]
  cases fates.any _ <;> cases others.any _ <;> rfl

/-- The leaves that are not left out have texts of their own, and these stand in a text in turn. -/
def Accounts (allowed : List Value) (fates : List (Cond × Option Junction)) (text : String) : Prop :=
  ∃ texts, Forall₂ (fun l s => (renderer dialect allowed).render l = pure (some s))
    (written fates) texts ∧ InTurn texts text

theorem accounts_leaf {c : Cond} (writes : ((renderer dialect allowed).render c).Writes)
    (run : ((renderer dialect allowed).render c).start t = (.ok out, u)) :
    u = t.marked [(c, none)] ∧ Accounts allowed [(c, none)] (out.getD "") := by
  obtain ⟨r, same⟩ := writes
  rw [same] at run
  cases r with
  | error e => cases run
  | ok s =>
    cases run
    exact ⟨rfl, [s], .cons same .nil, "", "", by simp, trivial⟩

theorem join_eq
    (joined : (FaultM.ofExcept (join dialect j outs) : FaultM Qualys _).start t = (.ok out, u)) :
    u = t ∧ ∃ sep : String, out = some (sep.intercalate (outs.filterMap id)) := by
  cases j <;> cases joined <;> exact ⟨rfl, _, rfl⟩

theorem Accounts.bracket {fates : List (Cond × Option Junction)} {out' : Option String}
    (h : Accounts allowed fates (out.getD "")) (bracketed : dialect.bracket out = .ok out') :
    Accounts allowed fates (out'.getD "") := by
  obtain ⟨texts, own, stand⟩ := h
  refine ⟨texts, own, ?_⟩
  unfold Dialect.bracket at bracketed
  split at bracketed
  · cases bracketed
    exact stand
  · cases bracketed
    exact stand
  · cases bracketed
    exact (stand.before _).behind "("

theorem Accounts.append {fates others : List (Cond × Option Junction)}
    {sep : String} (here : Accounts allowed fates (out.getD ""))
    (later : Accounts allowed others (sep.intercalate (outs.filterMap id))) :
    Accounts allowed (fates ++ others) (sep.intercalate ((out :: outs).filterMap id)) := by
  obtain ⟨texts, own, stand⟩ := here
  obtain ⟨texts', own', stand'⟩ := later
  refine ⟨texts ++ texts', ?_, stand.part stand'⟩
  rw [written, filter_append, map_append]
  exact rel_append own own'

theorem marked_of_enter {items : List Cond}
    (entered : (enter allowed j items).start t = (.ok (), u)) :
    u.marked (fatesIn (keeps allowed) .disj items) =
      t.marked (fatesIn (keeps allowed) j items) := by
  have lost : cut (fatesIn (keeps allowed) j items) =
      (cuts allowed j items || cut (fatesIn (keeps allowed) .disj items)) := by
    clear entered
    induction items with
    | nil => cases j <;> rfl
    | cons c rest ih =>
      unfold cut at ih ⊢
      rw [fatesIn, fatesIn, any_append, any_append, ih, cuts, cuts, all_cons]
      cases keeps allowed c <;> cases j <;> simp [Bool.or_left_comm]
  unfold marked
  rw [lost]
  change (if cuts allowed j items = true then _ else _ : FaultM Qualys Unit).start t = _ at entered
  split_ifs at entered with cut
  · cases entered
    rw [cut]
    split <;> rfl
  · cases entered
    rw [Bool.eq_false_iff.mpr cut, Bool.false_or]

mutual

theorem accounts_render (c : Cond) {t u : Qualys} {out : Option String}
    (run : ((renderer dialect allowed).render c).start t = (.ok out, u)) :
    u = t.marked (c.fates (keeps allowed)) ∧
      Accounts allowed (c.fates (keeps allowed)) (out.getD "") := by
  match c with
  | .all _ items | .any items =>
    rw [render] at run
    obtain ⟨_, t₁, entered, run⟩ := start_bind_eq_ok.mp run
    obtain ⟨outs, t₂, each, joined⟩ := start_bind_eq_ok.mp run
    obtain ⟨rfl, accounts⟩ := accounts_renderEach items each
    obtain ⟨rfl, sep, rfl⟩ := join_eq joined
    exact ⟨marked_of_enter entered, accounts _ sep⟩
  | .not (c :: _) =>
    rw [render] at run
    obtain ⟨text, t₁, inner, outer⟩ := start_bind_eq_ok.mp run
    obtain ⟨rfl, texts, own, stand⟩ := accounts_render c inner
    refine ⟨(plain_ofExcept _).eq_of_start outer, texts, own, ?_⟩
    cases text <;> cases outer
    · exact stand
    · exact stand.behind "not "
  | .group c =>
    rw [render] at run
    obtain ⟨text, t₁, inner, outer⟩ := start_bind_eq_ok.mp run
    obtain ⟨rfl, accounts⟩ := accounts_render c inner
    exact ⟨(plain_ofExcept _).eq_of_start outer, accounts.bracket (congrArg Prod.fst outer)⟩
  | .item field v =>
    exact accounts_leaf (by rw [render]; exact writes_item dialect allowed field v) run
  | .isNull _ | .notNull _ =>
    exact accounts_leaf (by rw [render]; exact writes_nullText _ _) run
  | .seq _ | .value (.list _) =>
    refine accounts_leaf ?_ run
    rw [render]
    exact writes_listText (fun _ => plain_ofExcept _) _ _
  | .value (.text _) | .value (.int _) =>
    exact accounts_leaf (by rw [render]; exact (plain_ofExcept _).writes writes_pure) run
  | .not [] | .absent | .token _ | .value .null | .value (.bool _) | .value (.decimal _)
  | .value (.map _) =>
    rw [render] at run
    · cases run
    all_goals nofun

theorem accounts_renderEach (items : List Cond) {t u : Qualys} {outs : List (Option String)}
    (run : ((renderer dialect allowed).renderEach items).start t = (.ok outs, u)) :
    u = t.marked (fatesIn (keeps allowed) .disj items) ∧ ∀ j (sep : String),
      Accounts allowed (fatesIn (keeps allowed) j items) (sep.intercalate (outs.filterMap id)) := by
  match items with
  | [] =>
    cases run
    exact ⟨rfl, fun _ _ => ⟨[], .nil, trivial⟩⟩
  | c :: rest =>
    rw [renderEach, show (renderer dialect allowed).keeps = keeps allowed from rfl] at run
    split_ifs at run with kept
    · obtain ⟨out, t₁, here, run⟩ := start_bind_eq_ok.mp run
      obtain ⟨outs, t₂, later, last⟩ := start_bind_eq_ok.mp run
      cases last
      obtain ⟨rfl, first⟩ := accounts_render c here
      obtain ⟨rfl, others⟩ := accounts_renderEach rest later
      rw [fatesIn, if_pos kept, marked_append]
      refine ⟨rfl, fun j sep => ?_⟩
      rw [fatesIn, if_pos kept]
      exact first.append (others j sep)
    · obtain ⟨rfl, others⟩ := accounts_renderEach rest run
      rw [fatesIn, if_neg kept, marked_append]
      refine ⟨rfl, fun j sep => ?_⟩
      rw [fatesIn, if_neg kept]
      exact others j sep

end

/-! ## What becomes of a rule -/

/-- The condition has no aggregation, and its search is written so. -/
def IsWritten (t : Qualys) (p : ParsedCondition) (text : Option String) : Prop :=
  p.aggregation = none ∧ ∃ u, ((renderer dialect t.allowed).render p.search).start t = (.ok text, u)

variable {r : Rule} {p : ParsedCondition} {text : Option String}

theorem start_search (usual : t.query.dialect = dialect) (c : Cond) :
    (search c).start ⟨t, r⟩ = ((((renderer dialect t.allowed).render c).start t).1,
      ⟨(((renderer dialect t.allowed).render c).start t).2, r⟩) := by
  rw [← usual]
  rfl

theorem start_query_of_isWritten (usual : t.query.dialect = dialect) (written : IsWritten t p text) :
    (GenerateM.query search GenerateM.noAggregation p).start ⟨t, r⟩ =
      (.ok text, ⟨t.marked (p.search.fates (keeps t.allowed)), r⟩) := by
  obtain ⟨plain, u, run⟩ := written
  rw [GenerateM.start_query_eq_ok, start_search usual, run, (accounts_render p.search run).1]
  exact ⟨plain, rfl⟩

theorem isWritten_of_generate (usual : t.query.dialect = dialect) {rest : List ParsedCondition}
    (conditions : r.conditions = p :: rest) (returned : (generate.start ⟨t, r⟩).1 = .ok text) :
    IsWritten t p text := by
  have run : generate.start ⟨t, r⟩ = (.ok text, (generate.start ⟨t, r⟩).2) := Prod.ext returned rfl
  rw [start_generate_eq conditions] at run
  obtain ⟨text', w, queried, judged⟩ := start_bind_eq_ok.mp run
  have same : text = text' := by
    have judgement := congrArg Prod.fst
      ((start_judge (t := w.target) text' w.target.coverage w.rule).symm.trans judged)
    generalize covered text' w.target.coverage = coverage at judgement
    cases coverage <;> cases judgement
    rfl
  obtain ⟨plain, found⟩ := GenerateM.start_query_eq_ok.mp queried
  rw [start_search usual] at found
  subst same
  exact ⟨plain, w.target, Prod.ext (Prod.mk.inj found).1 (congrArg Work.target (Prod.mk.inj found).2)⟩

/-- **What a query leaves out**: every leaf of the first condition is written or left out by a junction,
and only items with unknown fields are left out. If a rule has a query on a new target, it is what is
written for the condition. It holds the texts of the leaves that are not left out, one after another.
What is written is refused if it is empty brackets or if a conjunction leaves something out, and is the
query otherwise: what disjunctions leave out is not reported. -/
theorem generate_accounts {o : Options} {c : Config} (fresh : Qualys.new o c = .ok t) (k : Config)
    (first : r.conditions.head? = some p) :
    ((p.search.fates (keeps t.allowed)).map Prod.fst = p.search.leaves ∧
      ∀ x ∈ p.search.fates (keeps t.allowed), x.2 ≠ none → keeps t.allowed x.1 = false) ∧
    (∀ text, (Target.generate k r (.qualys t)).result = .ok text → IsWritten t p text) ∧
    ∀ text, IsWritten t p text →
      Accounts t.allowed (p.search.fates (keeps t.allowed)) (text.getD "") ∧
      (Target.generate k r (.qualys t)).result = if text = some "()" then .error (.fullMatch text)
        else if cut (p.search.fates (keeps t.allowed)) then .error (.partialMatch text)
        else .ok text := by
  obtain ⟨allowed, -, rfl⟩ := map_eq_ok fresh
  obtain ⟨rest, conditions⟩ := head?_eq_some_iff.mp first
  refine ⟨fates_leaves (fun c lost => ?_) p.search, fun text => isWritten_of_generate rfl conditions,
    fun text written => ?_⟩
  · cases c with
    | item field v => rfl
    | _ => cases lost
  · obtain ⟨u, run⟩ := written.2
    refine ⟨(accounts_render p.search run).2, ?_⟩
    show (generate.start ⟨_, r⟩).1 = _
    have state : ∀ fates, marked ⟨⟨o, dialect⟩, allowed, .full⟩ fates =
        memory.put (if cut fates then .part else .full) ⟨⟨o, dialect⟩, allowed, .full⟩ := by
      intro fates
      unfold marked
      split <;> rfl
    rw [start_generate_eq conditions, start_bind_of_ok (start_query_of_isWritten rfl written), state,
      start_judge]
    unfold covered
    by_cases empty : text = some "()"
    · rw [if_pos empty, if_pos (beq_iff_eq.mpr empty)]
      rfl
    · rw [if_neg empty, if_neg (mt beq_iff_eq.mp empty)]
      split <;> rfl

/-- A new target that knows one field. -/
def oneField : Qualys := ⟨⟨{}, dialect⟩, ["f"], .full⟩

/-- A conjunction that leaves something out is refused. -/
theorem generate_accounts_conjunction : Qualys.new {} Target.mappedConfig = .ok oneField ∧
    (Target.generate .empty (Target.soleRule [] (.all none [.item "f" "v", .item "g" "w"]))
      (.qualys oneField)).result = .error (.partialMatch (some "f:`v`")) := by
  have fresh : Qualys.new {} Target.mappedConfig = .ok oneField := rfl
  have written : IsWritten oneField ⟨.all none [.item "f" "v", .item "g" "w"], none⟩ (some "f:`v`") :=
    ⟨rfl, _, rfl⟩
  exact ⟨fresh, ((generate_accounts (r := Target.soleRule [] _) fresh .empty rfl).2.2 _ written).2⟩

/-- A disjunction leaves out an unknown field, an unknown field on its own leaves its value, and a
disjunction of unknown fields leaves nothing, but the target reports none of these. -/
theorem generate_hides_unknown : Qualys.new {} Target.mappedConfig = .ok oneField ∧
    (Target.generate .empty (Target.soleRule [] (.group (.any [.item "f" "v", .item "g" "w"])))
      (.qualys oneField)).result = .ok (some "(f:`v`)") ∧
    (Target.generate .empty (Target.soleRule [] (.item "g" "w")) (.qualys oneField)).result =
      .ok (some "w") ∧
    (Target.generate .empty (Target.soleRule [] (.group (.any [.item "g" "v", .item "h" "w"])))
      (.qualys oneField)).result = .ok none := by
  refine ⟨?_, ?_, ?_, ?_⟩ <;> rfl

end Qualys

end SigmaQuery
