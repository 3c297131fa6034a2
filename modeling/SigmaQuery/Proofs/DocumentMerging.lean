import SigmaQuery.Proofs.CollectionSteps
import SigmaQuery.Proofs.Sharing

/-!
# Merging many documents

At a path of a document stands a map, with its keys in order, or another value. Documents *fit* if no
path leads to a map in one of them and to something else in the other. Such documents are merged path
by path, so merging is associative, and merging one twice is merging it once. Global documents can
therefore be gathered first and merged into a rule at once.
-/

namespace SigmaQuery

open List DocumentAction
open Section (toEntries ofEntries ProperAll properAll_ofEntries toEntries_ofEntries toEntries_mergeAll)

/-! ## Parts of a document -/

/-- Keys that are there keep their place, and new ones follow in their order. -/
def joinKeys (ks new : List Key) : List Key :=
  ks ++ new.filter (· ∉ ks)

theorem joinKeys_assoc (ks ls ms : List Key) :
    joinKeys (joinKeys ks ls) ms = joinKeys ks (joinKeys ls ms) := by
  simp only [joinKeys, append_assoc, filter_append, filter_filter]
  congr 2
  refine filter_congr fun i _ => ?_
  by_cases there : i ∈ ks <;> simp [there]

/-- What stands at a path: a map with its keys, in their order, or another value. -/
inductive Part where
  | keys (ks : List Key)
  | value (v : Value)

namespace Part

def isMap : Part → Bool
  | keys _ => true
  | value _ => false

/-- What stands at a path after merging. -/
def merge (old : Option Part) : Option Part → Option Part
  | none => old
  | some (value v) => some (value v)
  | some (keys new) => match old with
    | some (keys ks) => some (keys (joinKeys ks new))
    | _ => some (keys new)

variable {x y z : Option Part} {p q : Part}

theorem merge_none : merge none x = x := by
  rcases x with - | - | - <;> rfl

theorem isMap_merge (merged : merge x (some q) = some p) : p.isMap = q.isMap := by
  rcases q with new | v
  · rcases x with - | ks | v <;> cases merged <;> rfl
  · cases merged
    rfl

theorem merge_assoc (fit : ∀ p q, y = some p → z = some q → p.isMap = q.isMap) :
    merge (merge x y) z = merge x (merge y z) := by
  rcases z with - | ms | v
  · rfl
  · rcases y with - | ls | v
    · rw [merge_none, merge]
    · rcases x with - | ks | v
      · rfl
      · simp only [merge, joinKeys_assoc]
      · rfl
    · cases fit _ _ rfl rfl
  · rfl

theorem merge_idem : merge (merge x y) y = merge x y := by
  rcases y with - | new | v
  · rfl
  · rcases x with - | ks | v <;> simp +contextual [merge, joinKeys]
  · rfl

end Part

namespace Value

def part : Value → Part
  | .map entries => .keys (entries.map Prod.fst)
  | v => .value v

/-- The part at a path, if there is one. -/
def partAt : List Key → Value → Option Part
  | [], v => some v.part
  | k :: path, .map entries => (lookup k entries).bind (partAt path)
  | _ :: _, _ => none

/-- No path leads to a map in one value and to something else in the other. -/
def Fits (v w : Value) : Prop :=
  ∀ path p q, v.partAt path = some p → w.partAt path = some q → p.isMap = q.isMap

end Value

variable {a b : Entries} {k : Key} {v w : Value}

/-! ## Distinct keys -/

mutual

theorem keysDistinct_toValue {s : Section} (proper : s.Proper) : s.toValue.keysDistinct = true := by
  match s with
  | .value v =>
    cases v with
    | map es => exact absurd rfl (proper es)
    | _ => rfl
  | .map _ entries =>
    rw [Section.Proper] at proper
    exact entriesDistinct_toEntries proper

theorem entriesDistinct_toEntries {sections : Sections} (proper : ProperAll sections) :
    entriesDistinct (toEntries sections) = true := by
  match sections with
  | [] => rfl
  | (k, s) :: rest =>
    rw [ProperAll] at proper
    simp [toEntries, entriesDistinct, Section.lookup_toEntries, proper.1,
      keysDistinct_toValue proper.2.1, entriesDistinct_toEntries proper.2.2]

end

theorem keysDistinct_of_lookup (distinct : entriesDistinct a = true) (found : lookup k a = some v) :
    v.keysDistinct = true := by
  have there : lookup k (ofEntries 0 a) = some (.ofValue 0 v) := by
    rw [Section.lookup_ofEntries, found, Option.map_some]
  have value := keysDistinct_toValue ((properAll_ofEntries 0 distinct).of_lookup there)
  rwa [Section.toValue_ofValue] at value

mutual

/-- A value is determined by its parts. -/
theorem Value.eq_of_partAt {v w : Value} (distinctV : v.keysDistinct = true)
    (distinctW : w.keysDistinct = true) (same : ∀ path, v.partAt path = w.partAt path) : v = w := by
  have here := same []
  match v with
  | .map a =>
    cases w with
    | map b =>
      rw [entries_eq_of_partAt distinctV distinctW (Part.keys.inj (Option.some.inj here))
        fun k path => same (k :: path)]
    | _ => cases here
  | .null | .bool _ | .int _ | .decimal _ | .text _ | .list _ =>
    cases w <;> cases here
    rfl

theorem entries_eq_of_partAt {a b : Entries} (distinctA : entriesDistinct a = true)
    (distinctB : entriesDistinct b = true) (keys : a.map Prod.fst = b.map Prod.fst)
    (same : ∀ k path, (lookup k a).bind (Value.partAt path) = (lookup k b).bind (Value.partAt path)) :
    a = b := by
  match a, b with
  | [], [] => rfl
  | [], _ :: _ | _ :: _, [] => cases keys
  | (k, v) :: a, (j, w) :: b =>
    obtain ⟨rfl, later⟩ : k = j ∧ a.map Prod.fst = b.map Prod.fst := by simpa using keys
    obtain ⟨⟨absentA, distinctV⟩, distinctA⟩ := entriesDistinct_cons.mp distinctA
    obtain ⟨⟨absentB, distinctW⟩, distinctB⟩ := entriesDistinct_cons.mp distinctB
    -- the keys settle the order, and the parts below a key the value
    have value : v = w := Value.eq_of_partAt distinctV distinctW fun path => by
      simpa [lookup] using same k path
    rw [value, entries_eq_of_partAt distinctA distinctB later fun i path => ?_]
    by_cases here : k = i
    · rw [← here, absentA, absentB]
    · simpa [lookup, here] using same i path

end

/-! ## Parts after merging -/

theorem lookup_mergeEntries (distinct : entriesDistinct b = true) (k : Key) (a : Entries) :
    lookup k (mergeEntries a b) =
      (lookup k b).elim (lookup k a) fun v => some (mergeOver (lookup k a) v) := by
  induction b generalizing a with
  | nil =>
    rw [mergeEntries]
    rfl
  | cons e rest ih =>
    obtain ⟨j, v⟩ := e
    obtain ⟨⟨absent, -⟩, distinct⟩ := entriesDistinct_cons.mp distinct
    rw [mergeEntries, ih distinct]
    by_cases same : j = k
    · subst same
      simp [lookup_put, lookup, absent]
    · simp [lookup_put_of_ne (Ne.symm same), lookup, same]

theorem keys_put (k : Key) (v : Value) (a : Entries) :
    (put k v a).map Prod.fst = joinKeys (a.map Prod.fst) [k] := by
  induction a with
  | nil => rfl
  | cons e rest ih =>
    by_cases same : e.1 = k
    · simp [put, same, joinKeys]
    · by_cases later : k ∈ rest.map Prod.fst <;> simp_all [put, joinKeys, Ne.symm same]

theorem joinKeys_of_lookup (absent : lookup k a = none) :
    joinKeys [k] (a.map Prod.fst) = k :: a.map Prod.fst := by
  induction a with
  | nil => rfl
  | cons e rest ih =>
    by_cases same : e.1 = k
    · simp [lookup, same] at absent
    · rw [lookup, if_neg same] at absent
      simpa [joinKeys, same] using ih absent

theorem keys_mergeEntries (distinct : entriesDistinct b = true) (a : Entries) :
    (mergeEntries a b).map Prod.fst = joinKeys (a.map Prod.fst) (b.map Prod.fst) := by
  induction b generalizing a with
  | nil => simp [mergeEntries, joinKeys]
  | cons e rest ih =>
    obtain ⟨k, v⟩ := e
    obtain ⟨⟨absent, -⟩, distinct⟩ := entriesDistinct_cons.mp distinct
    rw [mergeEntries, ih distinct, keys_put, joinKeys_assoc, joinKeys_of_lookup absent, map_cons]

theorem Value.Fits.below (fits : (Value.map a).Fits (.map b)) (inA : lookup k a = some v)
    (inB : lookup k b = some w) : v.Fits w := by
  intro path p q foundV foundW
  exact fits (k :: path) p q (by simpa [Value.partAt, inA]) (by simpa [Value.partAt, inB])

theorem partAt_mergeOver (distinct : w.keysDistinct = true) (fits : v.Fits w) (path : List Key) :
    (mergeOver (some v) w).partAt path = Part.merge (v.partAt path) (w.partAt path) := by
  -- down the path: what stands at a key of both maps fits as well
  induction path generalizing v w with
  | nil =>
    cases w with
    | map b =>
      cases v with
      | map a =>
        rw [mergeOver]
        exact congrArg (some ∘ Part.keys) (keys_mergeEntries distinct a)
      | _ => rfl
    | _ => rfl
  | cons k path ih =>
    cases w with
    | map b =>
      cases v with
      | map a =>
        rw [mergeOver, Value.partAt, Value.partAt, Value.partAt, lookup_mergeEntries distinct]
        cases inB : lookup k b with
        | none => rfl
        | some y =>
          cases inA : lookup k a with
          | none =>
            rw [Option.bind_none, Part.merge_none]
            cases y <;> rfl
          | some x => exact ih (keysDistinct_of_lookup distinct inB) (fits.below inA inB)
      | _ => cases fits [] _ _ rfl rfl
    | _ =>
      cases v with
      | map a => cases fits [] _ _ rfl rfl
      | _ => rfl

/-! ## Laws of merging -/

/-- Entries whose keys are distinct at every depth. -/
abbrev Document := { entries : Entries // entriesDistinct entries = true }

namespace Document

variable {a b c g : Document} {es : List Document}

def value (a : Document) : Value := .map a.1

/-- Merges a document into another. -/
def merge (a b : Document) : Document where
  val := mergeEntries a.1 b.1
  property := by
    have properA := properAll_ofEntries 0 a.2
    have properB := properAll_ofEntries 0 b.2
    have distinct := entriesDistinct_toEntries (properA.mergeAll properB)
    rwa [toEntries_mergeAll properA properB, toEntries_ofEntries, toEntries_ofEntries] at distinct

/-- The documents fit. -/
def Fit (a b : Document) : Prop := a.value.Fits b.value

theorem Fit.symm (fit : Fit a b) : Fit b a :=
  fun path p q inB inA => (fit path q p inA inB).symm

theorem fit_self (a : Document) : Fit a a :=
  fun _ _ _ found found' => congrArg Part.isMap (Option.some.inj (found.symm.trans found'))

theorem eq_of_partAt (same : ∀ path, a.value.partAt path = b.value.partAt path) : a = b :=
  Subtype.ext (Value.map.inj (Value.eq_of_partAt a.2 b.2 same))

theorem partAt_merge (fit : Fit a b) (path : List Key) :
    (a.merge b).value.partAt path = Part.merge (a.value.partAt path) (b.value.partAt path) := by
  have parts := partAt_mergeOver (v := a.value) (w := b.value) b.2 fit path
  rw [value, value, mergeOver] at parts
  exact parts

theorem Fit.merge (fit : Fit a b) (fitA : Fit a c) (fitB : Fit b c) : Fit (a.merge b) c := by
  intro path p q found inC
  rw [partAt_merge fit] at found
  cases inB : b.value.partAt path with
  | none =>
    rw [inB] at found
    exact fitA path p q found inC
  | some r =>
    rw [inB] at found
    exact (Part.isMap_merge found).trans (fitB path r q inB inC)

theorem Fit.merge_right (fit : Fit b c) (fitB : Fit a b) (fitC : Fit a c) : Fit a (b.merge c) :=
  (fit.merge fitB.symm fitC.symm).symm

theorem merge_assoc (fitAB : Fit a b) (fitAC : Fit a c) (fitBC : Fit b c) :
    (a.merge b).merge c = a.merge (b.merge c) := by
  refine eq_of_partAt fun path => ?_
  rw [partAt_merge (fitAB.merge fitAC fitBC), partAt_merge fitAB,
    partAt_merge (fitBC.merge_right fitAB fitAC), partAt_merge fitBC, Part.merge_assoc (fitBC path)]

/-- Documents that are gathered first and then merged are merged one after another. -/
theorem merge_foldl (fit : (a :: g :: es).Pairwise Fit) :
    a.merge (es.foldl merge g) = es.foldl merge (a.merge g) := by
  induction es generalizing g with
  | nil => rfl
  | cons e es ih =>
    simp only [pairwise_cons, forall_mem_cons] at fit
    obtain ⟨⟨fitAG, fitAE, fitA⟩, ⟨fitGE, fitG⟩, fitE, later⟩ := fit
    -- what is gathered so far fits the others, so the next one can be gathered in it
    have fitNext : (a :: g.merge e :: es).Pairwise Fit := by
      simp only [pairwise_cons, forall_mem_cons]
      exact ⟨⟨fitGE.merge_right fitAG fitAE, fitA⟩,
        fun d member => fitGE.merge (fitG d member) (fitE d member), later⟩
    rw [foldl_cons, foldl_cons, ih fitNext, merge_assoc fitAG fitAE fitGE]

end Document

namespace Collection

open Document

variable {a b c g : Document} {es : List Document}

/-- Global documents are gathered in the entries for the rules that follow. -/
theorem addEach_globals {f : Option RuleFilter} {n : Nat} {globals more : List Value}
    {s : Collection} (read : Forall₂ (fun d e => split d = .ok (.global, e.1)) globals es)
    (proper : ProperAll s.globals) (start : toEntries s.globals = g.1) :
    ∃ t, addEach f n (globals ++ more) s = addEach f (n + globals.length) more t ∧
      ProperAll t.globals ∧ toEntries t.globals = (es.foldl merge g).1 := by
  induction read generalizing n s g with
  | nil => exact ⟨s, rfl, proper, start⟩
  | @cons d e globals es global _ ih =>
    have properE := properAll_ofEntries n e.2
    have step : s.add f n d = pure (s.addGlobals (ofEntries n e.1)) := by
      rw [add_eq, prepare, global]
      rfl
    have next : toEntries (s.addGlobals (ofEntries n e.1)).globals = (g.merge e).1 := by
      rw [addGlobals, toEntries_mergeAll proper properE, toEntries_ofEntries, start]
      rfl
    obtain ⟨t, run, rest⟩ := ih (n := n + 1) (proper.mergeAll properE) next
    refine ⟨t, ?_, rest⟩
    rw [cons_append, addEach, step, pure_bind, run, length_cons, Nat.add_right_comm, Nat.add_assoc]

/-- **Merging is associative and idempotent on documents that fit**, and it merges their parts path by
path. A rule after global documents is made from a document into which they were merged at once,
gathered in one; it is the same as if they were merged one after another. -/
theorem merge_laws (fit : [a, b, c].Pairwise Fit) :
    (a.merge b).merge c = a.merge (b.merge c) ∧ (a.merge b).merge b = a.merge b ∧
    (∀ path, (a.merge b).value.partAt path =
      Part.merge (a.value.partAt path) (b.value.partAt path)) ∧
    ∀ (f : Option RuleFilter) (n : Nat) (s : Collection) (g : Document) (globals : List Value)
      (es : List Document) (rule : Value), ProperAll s.globals → toEntries s.globals = g.1 →
      Forall₂ (fun d e => split d = .ok (.global, e.1)) globals es → split rule = .ok (.rule, a.1) →
      (a :: g :: es).Pairwise Fit →
      ∃ t document, addEach f n (globals ++ [rule]) s = make f t (some (true, document)) ∧
        toEntries t.globals = (es.foldl merge g).1 ∧
        toEntries document = (a.merge (es.foldl merge g)).1 ∧
        toEntries document = (es.foldl merge (a.merge g)).1 := by
  obtain ⟨⟨fitAB, fitAC⟩, fitBC⟩ : (Fit a b ∧ Fit a c) ∧ Fit b c := by simpa using fit
  refine ⟨merge_assoc fitAB fitAC fitBC, eq_of_partAt fun path => ?_, partAt_merge fitAB, ?_⟩
  · rw [partAt_merge (fitAB.merge fitAB (fit_self b)), partAt_merge fitAB, Part.merge_idem]
  · intro f n s g globals es rule proper start read isRule fitEs
    obtain ⟨t, run, properT, gathered⟩ := addEach_globals read proper start
    have once : toEntries (Section.mergeAll (ofEntries (n + globals.length) a.1) t.globals) =
        (a.merge (es.foldl merge g)).1 := by
      rw [toEntries_mergeAll (properAll_ofEntries _ a.2) properT, toEntries_ofEntries, gathered]
      rfl
    refine ⟨t, _, ?_, gathered, once, once.trans (congrArg Subtype.val (merge_foldl fitEs))⟩
    rw [run, addEach, add_eq, prepare, isRule]
    simp [addEach]

/-- The document of a rule. -/
def plainRule : Document :=
  ⟨[("title", "A"), ("detection", .map [("sel", "x"), ("condition", "sel")])], by decide⟩

/-- Documents to merge into it. -/
def additions : List Document :=
  [⟨[("detection", .map [("sel", "y"), ("more", "z")])], by decide⟩,
    ⟨[("level", "low"), ("detection", .map [("more", "w")])], by decide⟩]

theorem merge_laws_additions : (plainRule :: additions).Pairwise Fit ∧ ∃ t document,
    addEach none 0 (additions.map (fun e => .map (("action", "global") :: e.1)) ++
      [plainRule.value]) {} = make none t (some (true, document)) ∧
    toEntries document = ([("title", "A"), ("detection",
      .map [("sel", "y"), ("condition", "sel"), ("more", "w")]), ("level", "low")] : Entries) := by
  have fit : (plainRule :: ⟨[], rfl⟩ :: additions).Pairwise Fit := by
    simp only [additions, pairwise_cons, forall_mem_cons, not_mem_nil, false_imp_iff, implies_true,
      Pairwise.nil, and_true]
    refine ⟨⟨?_, ?_, ?_⟩, ⟨?_, ?_⟩, ?_⟩ <;> rintro (- | ⟨k, - | ⟨j, - | ⟨i, path⟩⟩⟩) p q inA inB <;>
      simp only [plainRule, value, Value.partAt, lookup] at inA inB <;>
      grind [Value.partAt, Value.part, lookup, Part.isMap]
  have fitRule := fit.sublist ((sublist_cons_self _ _).cons_cons _)
  obtain ⟨-, -, -, reading⟩ := merge_laws fitRule
  obtain ⟨t, document, made, -, -, entries⟩ := reading none 0 {} ⟨[], rfl⟩
    (additions.map fun e => .map (("action", "global") :: e.1)) additions plainRule.value trivial rfl
    (.cons rfl (.cons rfl .nil)) rfl fit
  exact ⟨fitRule, t, document, made, entries⟩

end Collection

end SigmaQuery
