import SigmaQuery.Proofs.SearchLoops
import SigmaQuery.Proofs.SearchOutcome

/-!
# The runs of the search parser

A search is parsed by loops and by calls. The groups are taken out in a loop that calls the parser again
for each of them, the operators are taken up in a loop for each kind, and the tree that is left is
simplified pass by pass. A run is written down here step by step (`SearchRun`), without regard to whether
it ends.

It ends if no operator between operands is the first of the elements or the first of a group
(`StartsFree`), whatever else is wrong with them. Taking out a group and taking up an operator keep this.
The number of turns of all loops is at most six times the number of elements.
-/

namespace SigmaQuery

open FaultM List

/-! ## Turns -/

theorem itemAt_ne_endless {α : Type} (items : List α) (i : Int) :
    itemAt items i ≠ .error .endless := by
  unfold itemAt
  split <;> simp

variable {o : Operator} {elements : List Cond} {c : Config} {n : Nat}
  {r : Except Fault (List Cond) × Config}

theorem Operator.finishes_turn {d : Detection} (member : o ∈ searchOperators d)
    (elements : List Cond) (i : Int) : Finishes (o.turn elements i) := by
  have item : ∀ j : Int, Finishes (FaultM.ofExcept (itemAt elements j)) := fun j =>
    finishes_ofExcept (itemAt_ne_endless elements j)
  simp only [searchOperators, mem_cons, not_mem_nil, or_false] at member
  rcases member with rfl | rfl | rfl | rfl | rfl | rfl
  · exact (item _).bind fun x => (d.finishes_parseSeveral .conj x).bind fun t => finishes_pure _
  · exact (item _).bind fun x => (d.finishes_parseSeveral .disj x).bind fun t => finishes_pure _
  · exact (item _).bind fun x => (d.finishes_parseIdentifier x).bind fun t => finishes_pure _
  · exact (item _).bind fun x => (finishes_pure _).bind fun t => finishes_pure _
  · exact (item _).bind fun x => (item _).bind fun y => finishes_pure _
  · exact (item _).bind fun x => (item _).bind fun y => finishes_pure _

theorem Operator.Loop.ne_endless (loop : o.Loop elements c n r)
    (finishes : ∀ elements i, Finishes (o.turn elements i)) : r.1 ≠ .error .endless := by
  induction loop with
  | stop none => simp
  | @fail elements before after sign c c' e found failed =>
    have turn := finishes elements before.length c
    rwa [failed] at turn
  | next found turned later ih => exact ih

theorem Loops.ne_endless {os : List Operator} (loops : Loops os elements c n r)
    (finishes : ∀ o ∈ os, ∀ elements i, Finishes (o.turn elements i)) : r.1 ≠ .error .endless := by
  induction loops with
  | done => simp
  | @fail o os elements c c' n e loop => exact loop.ne_endless (finishes o mem_cons_self)
  | next loop later ih => exact ih fun o member => finishes o (mem_cons_of_mem _ member)

/-! ## Runs -/

/-- What is done with the elements that the loops leave. One node is joined to the log source and
simplified. -/
inductive FinishRun (source : Except Fault (Option LogSource)) :
    List Cond → Config → Except Fault Cond × Config → Prop
  | several {elements : List Cond} {c : Config} (many : elements.length ≠ 1) :
      FinishRun source elements c (.error (.value .startNode), c)
  | unsourced {root : Cond} {c : Config} {e : Fault} (unknown : source = .error e) :
      FinishRun source [root] c (.error e, c)
  | simplify {root : Cond} {c : Config} {s : Option LogSource} {ns : List Nat}
      {r : Except Fault Cond × List Loss} (known : source = .ok s)
      (run : Cond.SimplifyRun (c.current (constrain s root)) ns r) :
      FinishRun source [root] c (r.1, c.lose r.2)

/-- The run of a search: the elements and the configuration before it, the number of turns of its loops
and of those for its groups, and what it ends with. -/
inductive SearchRun (source : Except Fault (Option LogSource)) (d : Detection) :
    List Cond → Config → Nat → Except Fault Cond × Config → Prop
  | refused {elements : List Cond} {c : Config} {e : Fault} (broken : splitGroup? elements = .error e) :
      SearchRun source d elements c 0 (.error e, c)
  | groupFails {elements : List Cond} {g : GroupSplit} {c c' : Config} {n : Nat} {e : Fault}
      (found : splitGroup? elements = .ok (some g))
      (inside : SearchRun source d g.inside c n (.error e, c')) :
      SearchRun source d elements c (n + 1) (.error e, c')
  | group {elements : List Cond} {g : GroupSplit} {t : Cond} {c c' : Config} {n m : Nat}
      {r : Except Fault Cond × Config} (found : splitGroup? elements = .ok (some g))
      (inside : SearchRun source d g.inside c n (.ok t, c'))
      (later : SearchRun source d (g.before ++ .group t :: g.after) c' m r) :
      SearchRun source d elements c (n + 1 + m) r
  | loopFails {elements : List Cond} {c c' : Config} {n : Nat} {e : Fault}
      (none : splitGroup? elements = .ok none)
      (loops : Loops (searchOperators d) elements c n (.error e, c')) :
      SearchRun source d elements c n (.error e, c')
  | finish {elements results : List Cond} {c c' : Config} {n : Nat} {r : Except Fault Cond × Config}
      (none : splitGroup? elements = .ok none)
      (loops : Loops (searchOperators d) elements c n (.ok results, c'))
      (last : FinishRun source results c' r) : SearchRun source d elements c n r

section Runs

variable {source : Except Fault (Option LogSource)} {d : Detection}

variable {elements : List Cond} {c : Config} {r : Except Fault Cond × Config} {n : Nat}

theorem FinishRun.eq_start (run : FinishRun source elements c r) :
    r = (finishSearch Config.simplify source elements).start c := by
  cases run with
  | several many =>
    unfold finishSearch
    split
    · exact absurd rfl many
    · rfl
  | unsourced unknown =>
    rw [unknown]
    rfl
  | @simplify root c s ns r known run =>
    obtain ⟨rfl, -, -⟩ := run.eq_simplified
    rw [known]
    rfl

theorem exists_finishRun (elements : List Cond) (c : Config) :
    FinishRun source elements c ((finishSearch Config.simplify source elements).start c) := by
  by_cases one : elements.length = 1
  · obtain ⟨root, rfl⟩ := length_eq_one_iff.mp one
    cases found : source with
    | error e => exact .unsourced rfl
    | ok s =>
      obtain ⟨ns, run⟩ := Cond.exists_simplifyRun (c.current (constrain s root))
      exact .simplify rfl run
  · have several : FinishRun source elements c _ := .several one
    rwa [several.eq_start] at several

theorem FinishRun.ne_endless (run : FinishRun source elements c r)
    (known : source ≠ .error .endless) : r.1 ≠ .error .endless := by
  cases run with
  | several many => simp
  | unsourced unknown => exact error_ne_endless unknown known
  | simplify _ run => exact run.ne_endless

theorem splitGroup?_ne_endless (elements : List Cond) : splitGroup? elements ≠ .error .endless := by
  have position : ∀ x : Cond, x.tokenPosition ≠ .error .endless := by
    intro x
    cases x <;> simp [Cond.tokenPosition]
  have early : ∀ close opening, closeBeforeOpen close opening ≠ .endless := by
    intro close opening
    have := position close
    have := position opening
    unfold closeBeforeOpen
    split <;> simp_all
  have empty : ∀ opening, emptyGroup opening ≠ .endless := by
    intro opening
    have := position opening
    unfold emptyGroup
    split <;> simp_all
  unfold splitGroup?
  split
  · simp
  · split
    · simp [early]
    · split
      · simp
      · simp [empty]
      · simp

theorem SearchRun.ne_endless (run : SearchRun source d elements c n r)
    (known : source ≠ .error .endless) : r.1 ≠ .error .endless := by
  have turns : ∀ o ∈ searchOperators d, ∀ elements i, Finishes (o.turn elements i) :=
    fun o member => Operator.finishes_turn member
  induction run with
  | refused broken => exact error_ne_endless broken (splitGroup?_ne_endless _)
  | groupFails found inside ih => exact ih
  | group found inside later ihInside ihLater => exact ihLater
  | loopFails none loops => exact error_ne_endless rfl (loops.ne_endless turns)
  | finish none loops last => exact last.ne_endless known

theorem SearchRun.unique {m : Nat} {r' : Except Fault Cond × Config}
    (first : SearchRun source d elements c n r) (second : SearchRun source d elements c m r') :
    n = m ∧ r = r' := by
  -- two runs never part: `splitGroup?`, the inner run and the loops each have one result
  induction first generalizing m r' with
  | refused broken =>
    cases second with
    | refused broken' =>
      cases broken.symm.trans broken'
      exact ⟨rfl, rfl⟩
    | groupFails found' | group found' | loopFails found' | finish found' =>
      cases broken.symm.trans found'
  | groupFails found inside ih =>
    cases second with
    | refused broken' => cases found.symm.trans broken'
    | groupFails found' inside' =>
      cases found.symm.trans found'
      obtain ⟨rfl, same⟩ := ih inside'
      exact ⟨rfl, same⟩
    | group found' inside' =>
      cases found.symm.trans found'
      cases (ih inside').2
    | loopFails none' | finish none' => cases found.symm.trans none'
  | group found inside later ihInside ihLater =>
    cases second with
    | refused broken' => cases found.symm.trans broken'
    | groupFails found' inside' =>
      cases found.symm.trans found'
      cases (ihInside inside').2
    | group found' inside' later' =>
      cases found.symm.trans found'
      obtain ⟨rfl, same⟩ := ihInside inside'
      cases same
      obtain ⟨rfl, rfl⟩ := ihLater later'
      exact ⟨rfl, rfl⟩
    | loopFails none' | finish none' => cases found.symm.trans none'
  | loopFails none loops =>
    cases second with
    | refused found' | groupFails found' | group found' => cases none.symm.trans found'
    | loopFails none' loops' =>
      obtain ⟨rfl, same⟩ := loops.unique loops'
      cases same
      exact ⟨rfl, rfl⟩
    | finish none' loops' => cases (loops.unique loops').2
  | finish none loops last =>
    cases second with
    | refused found' | groupFails found' | group found' => cases none.symm.trans found'
    | loopFails none' loops' => cases (loops.unique loops').2
    | finish none' loops' last' =>
      obtain ⟨rfl, same⟩ := loops.unique loops'
      cases same
      exact ⟨rfl, last.eq_start.trans last'.eq_start.symm⟩

end Runs

/-! ## Searches that end -/

/-- Neither the elements nor those between an opening bracket and the first closing one behind it begin
with an operator between operands. -/
structure StartsFree (elements : List Cond) : Prop where
  whole : OpensFree elements
  groups : ∀ before opening inside close after,
    elements = before ++ opening :: (inside ++ close :: after) → opening.isKind .lpar = true →
      close.isKind .rpar = true → (∀ x ∈ inside, x.isKind .rpar = false) → OpensFree inside

namespace StartsFree

variable {elements : List Cond} {g : GroupSplit}

/-- A group that is taken out has no closing bracket, so only its own start counts. -/
theorem inside (free : StartsFree elements) (found : splitGroup? elements = .ok (some g)) :
    StartsFree g.inside := by
  obtain ⟨opening, close, whole, opens, closes, -, noClose⟩ := eq_of_splitGroup? found
  refine ⟨free.groups _ _ _ _ _ whole opens closes noClose, ?_⟩
  intro before opening' inner close' after parts _ closes' _
  have member : close' ∈ g.inside := by simp [parts]
  rw [noClose close' member] at closes'
  cases closes'

/-- Where a group was taken out, all opening brackets that are left stand behind it. -/
theorem outside (free : StartsFree elements) (found : splitGroup? elements = .ok (some g)) (t : Cond) :
    StartsFree (g.before ++ .group t :: g.after) := by
  obtain ⟨opening, close, whole, opens, closes, noOpening, noClose⟩ := eq_of_splitGroup? found
  constructor
  · intro x head
    cases before : g.before with
    | nil =>
      rw [before] at head
      obtain rfl : Cond.group t = x := Option.some.inj head
      exact ⟨rfl, rfl⟩
    | cons y rest =>
      rw [before] at head whole
      exact free.whole x (by rw [whole]; exact head)
  · intro before opening' inner close' after parts opens' closes' noClose'
    have notGroup : opening' ≠ .group t := by
      rintro rfl
      cases opens'
    -- a bracket before the group would have been the first one
    have notBefore : opening' ∉ g.before := by
      intro member
      rw [noOpening opening' member] at opens'
      cases opens'
    obtain ⟨middle, behind⟩ : ∃ middle, g.after = middle ++ opening' :: (inner ++ close' :: after) := by
      rcases append_eq_append_iff.mp parts with ⟨rest, -, same⟩ | ⟨rest, front, same⟩
      · cases rest with
        | nil => exact absurd (List.cons.inj same).1.symm notGroup
        | cons y middle => exact ⟨middle, (List.cons.inj same).2⟩
      · cases rest with
        | nil => exact absurd (List.cons.inj same).1 notGroup
        | cons y rest =>
          obtain rfl := (List.cons.inj same).1
          exact absurd (by simp [front]) notBefore
    refine free.groups (g.before ++ opening :: (g.inside ++ close :: middle)) opening' inner close' after
      ?_ opens' closes' noClose'
    rw [whole, behind]
    simp

/-- The brackets need not be looked for in pairs: it is enough that no operator between operands stands
in front or behind an opening one. -/
theorem of_freeStarts (free : freeStarts true elements = true) : StartsFree elements := by
  refine ⟨opensFree_of_freeStarts free, ?_⟩
  rintro before opening inside close after rfl opens - -
  have behind := (freeStarts_of_append free).2
  rw [freeStarts, opens, Bool.and_eq_true] at behind
  exact opensFree_of_freeStarts (freeStarts_of_append behind.2).1

end StartsFree

section Runs

variable {source : Except Fault (Option LogSource)} {d : Detection}

theorem exists_searchRun {elements : List Cond} (free : StartsFree elements) (c : Config) :
    ∃ n ≤ 6 * elements.length, SearchRun source d elements c n
      ((parseSearch Config.simplify source d elements).start c) := by
  induction elements using groups_induction generalizing c with
  | error elements e broken =>
    rw [parseSearch_of_error broken]
    exact ⟨0, Nat.zero_le _, .refused broken⟩
  | none elements none =>
    obtain ⟨n, few, loops⟩ := exists_loops (fun o member => guarded_of_mem (d := d) member) free.whole c
    rw [reduceEach_searchOperators] at loops
    rw [parseSearch_of_none none]
    rcases run : (reduceOperators d elements).start c with ⟨e | results, c'⟩
    · rw [run] at loops
      rw [start_bind_of_error run]
      exact ⟨n, few, .loopFails none loops⟩
    · rw [run] at loops
      rw [start_bind_of_ok run]
      exact ⟨n, few, .finish none loops (exists_finishRun results c')⟩
  | some elements g found inside outside =>
    have shorter := length_of_splitGroup? found
    obtain ⟨n, few, first⟩ := inside (free.inside found) c
    rw [parseSearch_of_some found]
    rcases run : (parseSearch Config.simplify source d g.inside).start c with ⟨e | t, c'⟩
    · rw [run] at first
      rw [start_bind_of_error run]
      exact ⟨n + 1, by omega, .groupFails found first⟩
    · rw [run] at first
      rw [start_bind_of_ok run]
      obtain ⟨m, few', later⟩ := outside t (free.outside found t) c'
      rw [length_append, length_cons] at few'
      exact ⟨n + 1 + m, by omega, .group found first later⟩

end Runs

/-- **The search parser ends**, with a tree or with a fault, if neither the elements nor a group begin with
an operator between operands, whatever else they are. There is one run, it takes at most six turns for
each element, and it ends with what the parser gives. -/
theorem parseSearch_ends {elements : List Cond} (free : StartsFree elements) (d : Detection)
    (c₀ c : Config) (document : Value) :
    ∃ n ≤ 6 * elements.length, ∃ r,
      SearchRun (c₀.logSourceOf document) d elements c n r ∧
      (∀ m r', SearchRun (c₀.logSourceOf document) d elements c m r' → m = n ∧ r' = r) ∧
      r = (parseSearch Config.simplify (c₀.logSourceOf document) d elements).start c ∧
      r.1 ≠ .error .endless := by
  obtain ⟨n, few, run⟩ := @exists_searchRun (c₀.logSourceOf document) d elements free c
  refine ⟨n, few, _, run, ?_, rfl, run.ne_endless (c₀.logSourceOf_ne_endless document)⟩
  intro m r' other
  exact other.unique run

/-- A group that ends with an operator, a negation of nothing, and a bracket that closes nothing. -/
def malformedSearch : List Cond :=
  [.token ⟨.lpar, "(", 1⟩, .token ⟨.id, "a", 2⟩, .token ⟨.or, "or", 4⟩, .token ⟨.rpar, ")", 6⟩,
    .token ⟨.not, "not", 8⟩, .token ⟨.rpar, ")", 12⟩]

theorem parseSearch_ends_malformed : freeStarts true malformedSearch = true ∧ ∃ n ≤ 36, ∃ r,
    SearchRun (Config.empty.logSourceOf (.map [])) ⟨[(.text "a", .map [])], []⟩ malformedSearch .empty n r ∧
      r.1 ≠ .error .endless := by
  have free : freeStarts true malformedSearch = true := by decide
  obtain ⟨n, few, r, run, -, -, finished⟩ := parseSearch_ends (.of_freeStarts free)
    ⟨[(.text "a", .map [])], []⟩ .empty .empty (.map [])
  exact ⟨free, n, few, r, run, finished⟩

end SigmaQuery
