import Mathlib.Logic.Relation
import SigmaQuery.Proofs.Reduction

/-!
# How long a simplification runs

A pass goes back to a node after each rule that it has applied there, and the simplification starts over
after each pass that has changed something. Neither goes on for ever. A run is written down here call by
call and pass by pass, without regard to whether it ends: `PassRun` counts the calls of one pass,
`SettleRun` has the counts of all passes up to the one without a change. Every tree has such a run, and
it is no longer than the tree is heavy.

Apart from the order in which a pass goes about it, a rule may be applied to any node of a tree
(`Reduces`). Each of these rewritings makes the tree lighter.
-/

namespace SigmaQuery

open List

namespace Cond

/-! ## Rewriting -/

/-- A rule is applied to a node of the tree. -/
inductive Reduces : Cond → Cond → Prop
  | here {t c : Cond} (step : reduce? t = .ok (some c)) : Reduces t c
  | operand {t c d : Cond} {before after : List Cond} (operands : t.operands = before ++ c :: after)
      (inner : Reduces c d) : Reduces t (t.withOperands (before ++ d :: after))

variable {t u c : Cond} {xs ts cs : List Cond} {steps : List Step} {ls : List Loss} {ns : List Nat}
  {r : Except Fault Cond × List Loss}

theorem Reduces.weight_lt (h : t.Reduces u) : u.weight < t.weight := by
  induction h with
  | here step => exact weight_reduce? step
  | @operand t c d before after operands inner ih =>
    -- the node itself weighs the same, and of its operands only one is another
    have whole := weight_withOperands t (before ++ d :: after)
    rw [operands, weights_append, weights_append, weights, weights] at whole
    omega

/-- A chain of rewritings makes the tree lighter, so it does not come back to the tree. -/
theorem weight_lt_of_transGen (h : Relation.TransGen Reduces t u) : u.weight < t.weight := by
  induction h with
  | single step => exact step.weight_lt
  | tail _ step ih => exact Nat.lt_trans step.weight_lt ih

theorem length_lt_weight {us : List Cond} (chain : (t :: us).IsChain Reduces) :
    us.length < t.weight := by
  induction us generalizing t with
  | nil => exact weight_pos t
  | cons u us ih =>
    obtain ⟨step, rest⟩ := isChain_cons_cons.mp chain
    have lighter := step.weight_lt
    have shorter := ih rest
    rw [length_cons]
    omega

/-- A chain of rewritings, perhaps of none. -/
abbrev ReducesTo : Cond → Cond → Prop :=
  Relation.ReflTransGen Reduces

/-- Chains of rewritings of the operands in a row make one of the whole. -/
theorem reflTransGen_row {R : Cond → Cond → Prop} (context : List Cond → Cond)
    (one : ∀ before after {c d : Cond}, R c d →
      R (context (before ++ c :: after)) (context (before ++ d :: after))) {ys : List Cond}
    (each : Forall₂ (Relation.ReflTransGen R) xs ys) (before : List Cond) :
    Relation.ReflTransGen R (context (before ++ xs)) (context (before ++ ys)) := by
  induction each generalizing before with
  | nil => exact .refl
  | @cons x y xs ys here _ ih =>
    have first := here.lift (fun c => context (before ++ c :: xs)) fun _ _ => one before xs
    have others := ih (before ++ [y])
    rw [append_assoc, append_assoc] at others
    exact first.trans others

theorem reducesTo_withOperands (each : Forall₂ ReducesTo t.operands xs) :
    ReducesTo t (t.withOperands xs) := by
  cases t with
  | all o items => exact reflTransGen_row (.all o) (fun _ _ => .operand (t := .all o _) rfl) each []
  | any items => exact reflTransGen_row .any (fun _ _ => .operand (t := .any _) rfl) each []
  | not items => exact reflTransGen_row .not (fun _ _ => .operand (t := .not _) rfl) each []
  | _ => exact .refl

theorem stepwise_reducesTo : Stepwise (fun _ => True) (fun _ => True) ReducesTo where
  reduced _ _ := trivial
  operand _ _ := trivial
  step _ _ step first := .head (.here step) first
  rebuild _ := reducesTo_withOperands

theorem Passes.reducesTo (h : Passes ts steps cs) : Forall₂ ReducesTo ts cs :=
  stepwise_reducesTo.passes h (fun _ _ => trivial) fun _ _ => trivial

theorem Passes.eq_of_nil (h : Passes ts [] cs) : cs = ts := by
  generalize none : ([] : List Step) = steps at h
  induction h with
  | nil => rfl
  | reduce step next ih => cases none
  | @operands t ts below steps xs cs stuck inner rest ihInner ihRest =>
    obtain ⟨rfl, rfl⟩ := append_eq_nil_iff.mp none.symm
    rw [ihInner rfl, ihRest rfl]
    cases t <;> rfl

/-- Where a pass takes no step, no rule applies to the roots, and the same is so of their operands. -/
theorem Passes.still {P : Cond → Prop} (h : Passes ts [] cs)
    (node : ∀ t, reduce? t = .ok none → (∀ x ∈ t.operands, P x) → P t) : ∀ t ∈ ts, P t := by
  generalize none : ([] : List Step) = steps at h
  induction h with
  | nil => exact fun t member => absurd member not_mem_nil
  | reduce step next ih => cases none
  | @operands t ts below steps xs cs stuck inner rest ihInner ihRest =>
    obtain ⟨rfl, rfl⟩ := append_eq_nil_iff.mp none.symm
    exact forall_mem_cons.mpr ⟨node t stuck (ihInner rfl), ihRest rfl⟩

theorem Passes.irreducible (h : Passes ts [] cs) : ∀ t ∈ ts, ∀ u, ¬ t.Reduces u := by
  refine h.still fun t stuck below u reduces => ?_
  cases reduces with
  | here step =>
    rw [stuck] at step
    cases step
  | operand operands reduced =>
    exact below _ (operands ▸ mem_append_right _ mem_cons_self) _ reduced

theorem Settles.reducesTo (h : Settles t steps c) : ReducesTo t c ∧ ∀ u, ¬ c.Reduces u := by
  induction h with
  | @done t c last =>
    obtain rfl : c = t := singleton_inj.mp last.eq_of_nil
    exact ⟨.refl, last.irreducible c (mem_singleton_self c)⟩
  | again some_step first later ih =>
    cases first.reducesTo with
    | cons here _ => exact ⟨here.trans ih.1, ih.2⟩

/-- A pass over an unshared tree that reports a change has rewritten the tree; one that reports none has
left it as it was. -/
theorem reduces_of_pass {changed : Bool} (tree : t.unshared = true)
    (h : pass [] t = (.ok (c, changed), ls)) :
    (changed = true → Relation.TransGen Reduces t c) ∧ (changed = false → c = t) := by
  obtain ⟨-, steps, passes, changes⟩ := exists_passes_of_pass tree h
  have lighter := weight_pass [] t h
  constructor
  · rintro rfl
    have other : c ≠ t := by
      rintro rfl
      exact absurd lighter (Nat.not_succ_le_self _)
    cases passes.reducesTo with
    | cons chain _ => exact (Relation.reflTransGen_iff_eq_or_transGen.mp chain).resolve_left other
  · rintro rfl
    obtain rfl : steps = [] := by simpa using changes
    exact singleton_inj.mp passes.eq_of_nil

/-! ## Calls -/

/-- What a pass gives if a rule was applied before. -/
def restarted (r : Except Fault (Cond × Bool) × List Loss) : Except Fault (Cond × Bool) × List Loss :=
  (r.1.map fun x => (x.1, true), r.2)

/-- What a pass over a node gives by what it gives for the operands. -/
def rebuilt (t : Cond) (r : Except Fault (List Cond × Bool) × List Loss) :
    Except Fault (Cond × Bool) × List Loss :=
  (r.1.map fun x => (t.withOperands x.1, x.2), r.2)

/-- What a pass over a row gives by what it gives for the first tree and for the others. -/
def joined (c : Cond) (changed : Bool) (r : Except Fault (List Cond × Bool) × List Loss) :
    Except Fault (List Cond × Bool) × List Loss :=
  (r.1.map fun x => (c.after r.2 :: x.1, changed || x.2), r.2)

mutual

/-- A pass over a tree: the losses before it, the tree, the number of calls and what it gives. After a
rule the node is called again, otherwise its operands are. -/
inductive PassRun : List Loss → Cond → Nat → Except Fault (Cond × Bool) × List Loss → Prop
  | fail {ls : List Loss} {t : Cond} {e : Fault} (broken : reduce? t = .error e) :
      PassRun ls t 1 (.error e, ls ++ losses t)
  | restart {ls : List Loss} {t c : Cond} {n : Nat} {r : Except Fault (Cond × Bool) × List Loss}
      (step : reduce? t = .ok (some c))
      (next : PassRun (ls ++ losses t) (c.after (ls ++ losses t)) n r) :
      PassRun ls t (n + 1) (restarted r)
  | descend {ls : List Loss} {t : Cond} {n : Nat} {r : Except Fault (List Cond × Bool) × List Loss}
      (stuck : reduce? t = .ok none) (inner : RowRun ls t.operands n r) :
      PassRun ls t (n + 1) (rebuilt t r)

/-- A pass over a row of trees. -/
inductive RowRun : List Loss → List Cond → Nat → Except Fault (List Cond × Bool) × List Loss → Prop
  | nil {ls : List Loss} : RowRun ls [] 0 (.ok ([], false), ls)
  | fail {ls gone : List Loss} {t : Cond} {rest : List Cond} {n : Nat} {e : Fault}
      (first : PassRun ls t n (.error e, gone)) : RowRun ls (t :: rest) n (.error e, gone)
  | cons {ls sooner : List Loss} {t c : Cond} {rest : List Cond} {n m : Nat} {changed : Bool}
      {r : Except Fault (List Cond × Bool) × List Loss}
      (first : PassRun ls t n (.ok (c, changed), sooner))
      (others : RowRun sooner (rest.map (after sooner)) m r) :
      RowRun ls (t :: rest) (n + m) (joined c changed r)

end

section Equations

variable {ls gone : List Loss} {t c : Cond} {rest : List Cond} {e : Fault}

theorem pass_of_error (broken : reduce? t = .error e) : pass ls t = (.error e, ls ++ losses t) := by
  rw [pass]
  split <;> simp_all

theorem pass_of_step (step : reduce? t = .ok (some c)) :
    pass ls t = restarted (pass (ls ++ losses t) (c.after (ls ++ losses t))) := by
  rw [pass]
  split
  · simp_all
  · rename_i d found
    obtain rfl : d = c := Option.some.inj (Except.ok.inj (found.symm.trans step))
    rcases pass (ls ++ losses t) (d.after (ls ++ losses t)) with ⟨e | x, gone⟩ <;> rfl
  · simp_all

theorem pass_of_descent (stuck : reduce? t = .ok none) :
    pass ls t = rebuilt t (passAll ls t.operands) := by
  rw [pass]
  split
  · simp_all
  · simp_all
  · rcases passAll ls t.operands with ⟨e | x, gone⟩ <;> rfl

theorem passAll_of_error (first : pass ls t = (.error e, gone)) :
    passAll ls (t :: rest) = (.error e, gone) := by
  rw [passAll, first]

theorem passAll_of_ok {changed : Bool} (first : pass ls t = (.ok (c, changed), gone)) :
    passAll ls (t :: rest) = joined c changed (passAll gone (rest.map (after gone))) := by
  rw [passAll, first]
  dsimp only
  rcases passAll gone (rest.map (after gone)) with ⟨e | x, gone⟩ <;> rfl

end Equations

mutual

theorem exists_passRun (ls : List Loss) (t : Cond) : ∃ n, PassRun ls t n (pass ls t) := by
  rcases step : reduce? t with e | _ | c
  · rw [pass_of_error step]
    exact ⟨1, .fail step⟩
  · have lighter := weights_operands_lt t
    obtain ⟨n, run⟩ := exists_rowRun ls t.operands
    rw [pass_of_descent step]
    exact ⟨n + 1, .descend step run⟩
  · -- the rule makes the node lighter, and what is lost by it makes it no heavier
    have lighter := weight_reduce? step
    have lost := weight_after_le (ls ++ losses t) c
    obtain ⟨n, run⟩ := exists_passRun (ls ++ losses t) (c.after (ls ++ losses t))
    rw [pass_of_step step]
    exact ⟨n + 1, .restart step run⟩
termination_by 2 * t.weight
decreasing_by all_goals omega

theorem exists_rowRun (ls : List Loss) (ts : List Cond) : ∃ n, RowRun ls ts n (passAll ls ts) := by
  cases ts with
  | nil =>
    rw [passAll]
    exact ⟨0, .nil⟩
  | cons t rest =>
    have sum := weights_cons t rest
    have pos := weight_pos t
    obtain ⟨n, first⟩ := exists_passRun ls t
    rcases here : pass ls t with ⟨e | ⟨c, changed⟩, sooner⟩
    · rw [here] at first
      rw [passAll_of_error here]
      exact ⟨n, .fail first⟩
    · have lost := weights_map_after_le sooner rest
      obtain ⟨m, others⟩ := exists_rowRun sooner (rest.map (after sooner))
      rw [here] at first
      rw [passAll_of_ok here]
      exact ⟨n + m, .cons first others⟩
termination_by 2 * weights ts + 1
decreasing_by all_goals omega

end

theorem PassRun.pos {n : Nat} {r : Except Fault (Cond × Bool) × List Loss} (run : PassRun ls t n r) :
    0 < n := by
  cases run with
  | fail => exact Nat.one_pos
  | restart | descend => exact Nat.succ_pos _

mutual

/-- Whatever run a pass takes, it gives the same and takes no more calls than the tree is heavy. -/
theorem PassRun.eq_pass {ls : List Loss} {t : Cond} {n : Nat}
    {r : Except Fault (Cond × Bool) × List Loss} (run : PassRun ls t n r) :
    r = pass ls t ∧ n ≤ t.weight := by
  cases run with
  | fail broken => exact ⟨(pass_of_error broken).symm, weight_pos t⟩
  | @restart _ _ c n r step next =>
    have lighter := weight_reduce? step
    have lost := weight_after_le (ls ++ losses t) c
    obtain ⟨rfl, calls⟩ := next.eq_pass
    exact ⟨(pass_of_step step).symm, by omega⟩
  | descend stuck inner =>
    have lighter := weights_operands_lt t
    obtain ⟨rfl, calls⟩ := inner.eq_passAll
    exact ⟨(pass_of_descent stuck).symm, by omega⟩
termination_by 2 * n

theorem RowRun.eq_passAll {ls : List Loss} {ts : List Cond} {n : Nat}
    {r : Except Fault (List Cond × Bool) × List Loss} (run : RowRun ls ts n r) :
    r = passAll ls ts ∧ n ≤ weights ts := by
  cases run with
  | nil =>
    rw [passAll]
    exact ⟨rfl, Nat.le_refl _⟩
  | @fail _ _ t rest n e first =>
    have sum := weights_cons t rest
    obtain ⟨result, calls⟩ := first.eq_pass
    exact ⟨(passAll_of_error result.symm).symm, by omega⟩
  | @cons _ sooner t c rest n m changed r first others =>
    -- the recursion is on the calls, and the run over the rest has fewer: the first tree took one
    have pos := first.pos
    have sum := weights_cons t rest
    have lost := weights_map_after_le sooner rest
    obtain ⟨result, calls⟩ := first.eq_pass
    obtain ⟨rfl, more⟩ := others.eq_passAll
    exact ⟨(passAll_of_ok result.symm).symm, by omega⟩
termination_by 2 * n + 1

end

/-! ## Passes -/

/-- Passes up to one that changes nothing or fails: the number of calls of each of them, and what is
given in the end. -/
inductive SettleRun : List Loss → Cond → List Nat → Except Fault Cond × List Loss → Prop
  | fail {ls gone : List Loss} {t : Cond} {n : Nat} {e : Fault}
      (last : PassRun ls t n (.error e, gone)) : SettleRun ls t [n] (.error e, gone)
  | done {ls gone : List Loss} {t c : Cond} {n : Nat} (last : PassRun ls t n (.ok (c, false), gone)) :
      SettleRun ls t [n] (.ok c, gone)
  | again {ls gone : List Loss} {t c : Cond} {n : Nat} {ns : List Nat}
      {r : Except Fault Cond × List Loss} (first : PassRun ls t n (.ok (c, true), gone))
      (later : SettleRun gone c ns r) : SettleRun ls t (n :: ns) r

section Settling

variable {ls gone : List Loss} {t c : Cond}

theorem settle_of_error {e : Fault} (failed : pass ls t = (.error e, gone)) :
    settle ls t = (.error e, gone) := by
  rw [settle]
  split <;> simp_all

theorem settle_of_unchanged (passed : pass ls t = (.ok (c, false), gone)) :
    settle ls t = (.ok c, gone) := by
  rw [settle]
  split <;> simp_all

theorem settle_of_changed (passed : pass ls t = (.ok (c, true), gone)) :
    settle ls t = settle gone c := by
  rw [settle]
  split <;> simp_all

end Settling

theorem exists_settleRun (ls : List Loss) (t : Cond) : ∃ ns, SettleRun ls t ns (settle ls t) := by
  obtain ⟨n, run⟩ := exists_passRun ls t
  rcases result : pass ls t with ⟨e | ⟨c, _ | _⟩, gone⟩
  · rw [result] at run
    rw [settle_of_error result]
    exact ⟨[n], .fail run⟩
  · rw [result] at run
    rw [settle_of_unchanged result]
    exact ⟨[n], .done run⟩
  · have lighter : c.weight + 1 ≤ t.weight := weight_pass ls t result
    obtain ⟨ns, later⟩ := exists_settleRun gone c
    rw [result] at run
    rw [settle_of_changed result]
    exact ⟨n :: ns, .again run later⟩
termination_by t.weight
decreasing_by omega

/-- Whatever run is taken, it ends the same, and neither the passes nor the calls in one of them are more
than the tree is heavy. -/
theorem SettleRun.eq_settle (run : SettleRun ls t ns r) :
    r = settle ls t ∧ ns.length ≤ t.weight ∧ ∀ n ∈ ns, n ≤ t.weight := by
  induction run with
  | @fail _ _ t _ _ last =>
    obtain ⟨result, calls⟩ := last.eq_pass
    exact ⟨(settle_of_error result.symm).symm, weight_pos t, forall_mem_singleton.mpr calls⟩
  | @done _ _ t _ _ last =>
    obtain ⟨result, calls⟩ := last.eq_pass
    exact ⟨(settle_of_unchanged result.symm).symm, weight_pos t, forall_mem_singleton.mpr calls⟩
  | @again ls _ t c _ _ _ first later ih =>
    -- the pass has made the tree lighter, which pays for it
    obtain ⟨result, calls⟩ := first.eq_pass
    obtain ⟨same, passes, each⟩ := ih
    have lighter : c.weight + 1 ≤ t.weight := weight_pass ls t result.symm
    refine ⟨?_, ?_, forall_mem_cons.mpr ⟨calls, fun n member => ?_⟩⟩
    · exact same.trans (settle_of_changed result.symm).symm
    · rw [length_cons]
      omega
    · have := each n member
      omega

/-! ## The whole simplification -/

/-- The whole simplification: the number of calls of each pass, and what is given in the end. -/
inductive SimplifyRun (t : Cond) : List Nat → Except Fault Cond × List Loss → Prop
  | fail {e : Fault} (broken : t.strip = .error e) : SimplifyRun t [] (.error e, [])
  | settled {bare : Cond} {ns : List Nat} {r : Except Fault Cond × List Loss}
      (stripped : t.strip = .ok bare) (run : SettleRun [] bare ns r) :
      SimplifyRun t ns (r.1.map bracket, r.2)

theorem nodewise_weight : Nodewise fun t bare => bare.weight ≤ t.weight := by
  have sums : ∀ {items ds : List Cond},
      Forall₂ (fun t bare : Cond => bare.weight ≤ t.weight) items ds →
        weights ds ≤ weights items := by
    intro items ds each
    induction each with
    | nil => exact Nat.le_refl _
    | cons first _ ih => exact Nat.add_le_add first ih
  constructor
  case group => exact fun lighter => Nat.le_add_left_of_le lighter
  case junction =>
    intro j o items ds each
    rw [weight_build, weight_build]
    exact Nat.add_le_add_left (sums each) _
  case isNull => exact fun each => Nat.add_le_add_left (sums each) 3
  case notNull => exact fun each => Nat.add_le_add_left (sums each) 3
  case same => exact fun _ => Nat.le_refl _

theorem simplified_of_error {e : Fault} (broken : t.strip = .error e) :
    t.simplified = (.error e, []) := by
  rw [simplified, broken]

theorem simplified_of_ok {bare : Cond} (stripped : t.strip = .ok bare) :
    t.simplified = ((settle [] bare).1.map bracket, (settle [] bare).2) := by
  rw [simplified, stripped]

theorem exists_simplifyRun (t : Cond) : ∃ ns, SimplifyRun t ns t.simplified := by
  cases stripped : t.strip with
  | error e =>
    rw [simplified_of_error stripped]
    exact ⟨[], .fail stripped⟩
  | ok bare =>
    obtain ⟨ns, run⟩ := exists_settleRun [] bare
    rw [simplified_of_ok stripped]
    exact ⟨ns, .settled stripped run⟩

theorem SimplifyRun.eq_simplified (run : SimplifyRun t ns r) :
    r = t.simplified ∧ ns.length ≤ t.weight ∧ ∀ n ∈ ns, n ≤ t.weight := by
  cases run with
  | fail broken =>
    exact ⟨(simplified_of_error broken).symm, Nat.zero_le _, fun n member => absurd member not_mem_nil⟩
  | settled stripped run =>
    obtain ⟨rfl, passes, calls⟩ := run.eq_settle
    have lighter := nodewise_weight.strip stripped
    exact ⟨(simplified_of_ok stripped).symm, Nat.le_trans passes lighter,
      fun n member => Nat.le_trans (calls n member) lighter⟩

/-- **The simplification ends**, with a tree or with a fault. It has a run, and whatever run it takes
gives the same, in at most as many passes as the tree is heavy and in at most as many calls in each of
them. A pass that reports a change has made the tree lighter. No chain of rewritings, in whatever order
the rules are applied to the nodes, is as long as the tree is heavy, and none comes back to the tree. If
no conjunction belongs to a log source, a pass reports a change exactly if it rewrites the tree, and the
passes rewrite the tree until no rule applies to any node. -/
theorem simplified_ends (t : Cond) :
    (∃ ns, SimplifyRun t ns t.simplified) ∧
    (∀ ns r, SimplifyRun t ns r →
      r = t.simplified ∧ ns.length ≤ t.weight ∧ ∀ n ∈ ns, n ≤ t.weight) ∧
    (∀ ls c gone, pass ls t = (.ok (c, true), gone) → c.weight < t.weight) ∧
    (∀ us : List Cond, (t :: us).IsChain Reduces → us.length < t.weight) ∧
    ¬ Relation.TransGen Reduces t t ∧
    (t.unshared = true →
      (∀ c changed gone, pass [] t = (.ok (c, changed), gone) →
        (changed = true → Relation.TransGen Reduces t c) ∧ (changed = false → c = t)) ∧
      ∀ u, t.simplify = .ok u → ∃ bare c, t.strip = .ok bare ∧ u = c.bracket ∧
        ReducesTo bare c ∧ ∀ d, ¬ c.Reduces d) := by
  refine ⟨exists_simplifyRun t, fun ns r run => run.eq_simplified, fun ls c gone passed => ?_,
    fun us chain => length_lt_weight chain, fun chain => ?_, fun tree => ⟨?_, ?_⟩⟩
  · exact weight_pass ls t passed
  · exact Nat.lt_irrefl _ (weight_lt_of_transGen chain)
  · intro c changed gone passed
    exact reduces_of_pass tree passed
  · intro u simplified
    obtain ⟨steps, bare, c, stripped, settles, rfl⟩ := (simplify_eq_ok_iff tree).mp simplified
    exact ⟨bare, c, stripped, rfl, settles.reducesTo⟩

end Cond

end SigmaQuery
