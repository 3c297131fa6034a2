import SigmaQuery.Proofs.RuleHistory
import SigmaQuery.Proofs.RuleNames

/-!
# Watches of many rules

A target for watches keeps them under the names of rules. All conditions of a rule have one name, so each
watch takes the place of the one before, and what stays of a rule is the watch of its last condition.
Names of rules are different, so no rule changes the watch of another.
-/

namespace SigmaQuery

open FaultM List GenerateM

/-- The value at a path of keys. -/
def Value.at? : List Key → Value → Option Value
  | [], v => some v
  | k :: rest, .map entries => (lookup k entries).bind (Value.at? rest)
  | _ :: _, _ => none

theorem optionValue_inj {a b : Option String} : optionValue a = optionValue b ↔ a = b := by
  constructor
  · intro same
    cases a <;> cases b <;> cases same <;> rfl
  · rintro rfl
    rfl

theorem eq_ok_of_toOption {α : Type} {x : Except Fault α} {a : α} (some : x.toOption = some a) :
    x = .ok a := by
  cases x with
  | error e => cases some
  | ok b => exact congrArg Except.ok (Option.some.inj some)

namespace Elastic.Watcher

/-! ## The watches of a rule -/

/-- The query of a watch. -/
def queryIn : Value → Option Value :=
  Value.at? ["input", "search", "request", "body", "query", "query_string", "query"]

/-- The names and the watches of a target at work. -/
def holdings (w : Work Watcher) : List String × Entries :=
  (w.target.names, w.target.watches)

/-- What a condition gives: the text of its query, its watch, and the order of buckets known after
it. -/
structure Made where
  text : Option String
  watch : Value
  order : Option String

/-- Makes the watch of a condition. -/
def make (s : Shared) (order : Option String) (p : ParsedCondition) : GenerateM Watcher Made := do
  let text ← queryText p
  let made ← watchOf s order text p.aggregation
  return ⟨text, made.1, made.2⟩

theorem setWatch_eq (s : Shared) (order : Option String) (p : ParsedCondition) :
    setWatch s order p = do
      let made ← make s order p
      store s.name made.watch
      return made.order := by
  simp only [setWatch, make, bind_assoc, pure_bind]

theorem keeps_watchOf (s : Shared) (order query : Option String) (a : Option Aggregation) :
    Keeps holdings (watchOf s order query a) := by
  have entries : Keeps holdings (entries : GenerateM Watcher Entries) := by
    intro w
    exact congrArg (fun x => (x.1.names, x.1.watches)) (keeps_entries w)
  exact (keeps_ofExcept _).bind fun _ => entries.bind fun _ => (keeps_ofExcept _).bind fun _ =>
    keeps_get.bind fun _ => keeps_pure _

theorem keeps_make (s : Shared) (order : Option String) (p : ParsedCondition) :
    Keeps holdings (make s order p) :=
  Keeps.bind (fun _ => rfl) fun _ => (keeps_watchOf _ _ _ _).bind fun _ => keeps_pure _

variable {s : Shared} {order : Option String} {watches : Entries} {t : Watcher}
  {each : List (List Made)}

theorem queryIn_watchOf {query : Option String} {a : Option Aggregation}
    {made : Value × Option String} (yields : (watchOf s order query a).Yields made) :
    queryIn made.1 = some (optionValue query) := by
  obtain ⟨_, -, yields⟩ := yields.bind
  obtain ⟨_, -, yields⟩ := yields.bind
  obtain ⟨_, -, yields⟩ := yields.bind
  obtain ⟨_, -, yields⟩ := yields.bind
  rw [yields.of_pure]
  rfl

/-- The watch of a condition has the text of the condition as its query. -/
theorem queryIn_make {p : ParsedCondition} {made : Made} (yields : (make s order p).Yields made) :
    queryIn made.watch = some (optionValue made.text) := by
  obtain ⟨text, -, rest⟩ := yields.bind
  obtain ⟨watch, watched, rfl⟩ := rest.map
  exact queryIn_watchOf watched

/-- The target with a watch under a name. -/
def stored (name : String) (watch : Value) (w : Work Watcher) : Work Watcher :=
  { w with target := { w.target with watches := put (.text name) watch w.target.watches } }

/-- What conditions give one after another, up to the first that fails. -/
def madeOf (s : Shared) (order : Option String) : List ParsedCondition → Work Watcher → List Made
  | [], _ => []
  | p :: rest, w => match (make s order p).start w with
    | (.error _, _) => []
    | (.ok made, w) => made :: madeOf s made.order rest (stored s.name made.watch w)

section

variable {s : Shared} {order : Option String} {p : ParsedCondition} {w w' : Work Watcher}

theorem start_setWatches_of_error (rest : List ParsedCondition) {e : Fault}
    (failed : (make s order p).start w = (.error e, w')) :
    (setWatches s order (p :: rest)).start w = (.error e, w') ∧
      madeOf s order (p :: rest) w = [] := by
  constructor
  · rw [setWatches, setWatch_eq]
    exact start_bind_of_error (start_bind_of_error failed)
  · rw [madeOf, failed]

theorem start_setWatches_of_ok (rest : List ParsedCondition) {made : Made}
    (run : (make s order p).start w = (.ok made, w')) :
    (setWatches s order (p :: rest)).start w =
        (setWatches s made.order rest).start (stored s.name made.watch w') ∧
      madeOf s order (p :: rest) w =
        made :: madeOf s made.order rest (stored s.name made.watch w') := by
  constructor
  · have set : (setWatch s order p).start w = (.ok made.order, stored s.name made.watch w') := by
      rw [setWatch_eq, start_bind_of_ok run]
      rfl
    exact start_bind_of_ok set
  · rw [madeOf, run]

theorem returns_setWatches_iff (s : Shared) (order : Option String) (ps : List ParsedCondition)
    (w : Work Watcher) :
    (setWatches s order ps).Returns w ↔ (madeOf s order ps w).length = ps.length := by
  induction ps generalizing order w with
  | nil => exact iff_of_true ⟨(), w, rfl⟩ rfl
  | cons p rest ih =>
    rcases run : (make s order p).start w with ⟨e | made, w'⟩
    · obtain ⟨failed, none⟩ := start_setWatches_of_error rest run
      rw [none]
      refine iff_of_false ?_ (Nat.succ_ne_zero _).symm
      rintro ⟨_, _, returned⟩
      rw [failed] at returned
      cases returned
    · obtain ⟨goes, all⟩ := start_setWatches_of_ok rest run
      rw [all, length_cons, length_cons, Nat.succ_inj, ← ih]
      unfold Returns
      rw [goes]

theorem queryIn_madeOf (s : Shared) (order : Option String) (ps : List ParsedCondition)
    (w : Work Watcher) :
    ∀ made ∈ madeOf s order ps w, queryIn made.watch = some (optionValue made.text) := by
  induction ps generalizing order w with
  | nil => nofun
  | cons p rest ih =>
    rcases run : (make s order p).start w with ⟨e | made, w'⟩
    · rw [(start_setWatches_of_error rest run).2]
      nofun
    · rw [(start_setWatches_of_ok rest run).2]
      intro made' member
      rcases mem_cons.mp member with rfl | later
      · exact queryIn_make ⟨_, _, run⟩
      · exact ih _ _ _ later

/-- Watches with one more at the end, if there is one. -/
def withLast (before : Entries) (name : String) (last : Option Value) : Entries :=
  before ++ (last.map fun watch => (Key.text name, watch)).toList

theorem put_withLast {before : Entries} {name : String}
    (new : .text name ∉ before.map Prod.fst) (last : Option Value) (watch : Value) :
    put (.text name) watch (withLast before name last) = withLast before name (some watch) := by
  cases last with
  | none =>
    rw [withLast, Option.map_none, Option.toList_none, append_nil]
    exact put_of_not_mem new watch
  | some old => exact put_of_last new watch old

/-- Of the watches of a rule with a new name the last stays, behind those that are there. -/
theorem watches_setWatches {before : Entries} (s : Shared) (order : Option String)
    (ps : List ParsedCondition) (w : Work Watcher) (new : .text s.name ∉ before.map Prod.fst)
    {last : Option Value} (here : w.target.watches = withLast before s.name last) :
    ((setWatches s order ps).start w).2.target.watches =
        withLast before s.name (((madeOf s order ps w).map Made.watch).getLast?.or last) ∧
      ((setWatches s order ps).start w).2.target.names = w.target.names := by
  induction ps generalizing order w last with
  | nil => exact ⟨here, rfl⟩
  | cons p rest ih =>
    have kept := keeps_make s order p w
    rcases run : (make s order p).start w with ⟨e | made, w'⟩ <;> rw [run] at kept
    · obtain ⟨names, watches⟩ := Prod.mk.inj kept
      obtain ⟨failed, none⟩ := start_setWatches_of_error rest run
      rw [failed, none]
      exact ⟨watches.trans here, names⟩
    · obtain ⟨names, watches⟩ := Prod.mk.inj kept
      obtain ⟨goes, all⟩ := start_setWatches_of_ok rest run
      have put : (stored s.name made.watch w').target.watches =
          withLast before s.name (some made.watch) := by
        show SigmaQuery.put _ _ w'.target.watches = _
        rw [watches, here, put_withLast new]
      obtain ⟨whole, unchanged⟩ := ih made.order _ put
      rw [goes, all, whole, unchanged, map_cons, getLast?_cons]
      refine ⟨?_, names⟩
      cases ((madeOf s made.order rest (stored s.name made.watch w')).map Made.watch).getLast? <;> rfl

end

/-! ## The watches of many rules -/

theorem names_shared (c : Config) (w : Work Watcher) :
    Names names (fun ns t => { t with names := ns }) Shared.name (shared c) w := by
  refine names_ruleName_bind Shared.name (fun name x => ?_) w
  have entry : ∀ k default, Stays (fun w : Work Watcher => besides w = x)
      (entryOr k default) := fun k default =>
    (keeps_entryOr k default).stays x
  refine Ensures.bind (entry _ _) fun _ _ => Ensures.bind (entry _ _) fun _ _ =>
    Ensures.bind (entry _ _) fun _ _ => Ensures.bind (entry _ _) fun _ _ => ?_
  refine Ensures.bind ((keeps_detectionEntryOr _ _).stays x) fun _ _ => ?_
  refine Ensures.bind ((keeps_logSource c).stays x) fun _ _ => ?_
  exact ensures_pure rfl

/-- What the conditions of a rule give, up to the first that fails. -/
def made (c : Config) (r : Rule) (t : Watcher) : List Made :=
  match (shared c).start ⟨t, r⟩ with
  | (.error _, _) => []
  | (.ok s, w) => madeOf s none r.conditions w

/-- The target after a rule, whatever its outcome. -/
def served (c : Config) (r : Rule) (t : Watcher) : Watcher :=
  ((generate c).start ⟨t, r⟩).2.target

theorem length_made {c : Config} {r : Rule} (returned : (generate c).Returns ⟨t, r⟩) :
    (made c r t).length = r.conditions.length := by
  obtain ⟨s, w, found, set⟩ := (names_shared c ⟨t, r⟩).returns_each returned
  rw [made, found]
  exact (returns_setWatches_iff s none r.conditions w).mp set

theorem queryIn_made (c : Config) (r : Rule) (t : Watcher) :
    ∀ m ∈ made c r t, queryIn m.watch = some (optionValue m.text) := by
  rw [made]
  split
  · nofun
  · exact queryIn_madeOf _ _ _ _

/-- The key is the name of the rule. -/
def IsWatchOf (k : Key) (name : String) : Prop :=
  k = .text name

theorem IsWatchOf.unique {k : Key} {a b : String} : IsWatchOf k a → IsWatchOf k b → a = b := by
  rintro rfl same
  exact Key.text.inj same

theorem orderly_withLast {names : List String} (orderly : Orderly IsWatchOf names watches)
    {name : String} (new : name ∉ names) (last : Option Value) :
    Orderly IsWatchOf (names ++ [name]) (withLast watches name last) := by
  cases last with
  | none =>
    rw [withLast, Option.map_none, Option.toList_none, append_nil]
    exact orderly.extend_name new
  | some watch =>
    refine orderly.extend IsWatchOf.unique new (nodup_singleton _) fun k member => ?_
    exact mem_singleton.mp member

theorem map_snd_withLast (watches : Entries) (name : String) (last : Option Value) :
    (withLast watches name last).map Prod.snd = watches.map Prod.snd ++ last.toList := by
  rw [withLast, map_append]
  cases last <;> rfl

/-- A rule adds the watch of its last condition behind those that are there, and leaves the target
orderly. A rule that fails does so with the last condition before the fault. -/
theorem orderly_served (orderly : Orderly IsWatchOf t.names t.watches) (c : Config) (r : Rule) :
    Orderly IsWatchOf (served c r t).names (served c r t).watches ∧
      (served c r t).watches.map Prod.snd =
        t.watches.map Prod.snd ++ ((made c r t).map Made.watch).getLast?.toList := by
  rcases (names_shared c ⟨t, r⟩).start_forConditions fun s => setWatches s none with
    ⟨e, w, failed, run, kept⟩ | ⟨s, w, found, goes, new, target⟩
  · change (generate c).start _ = _ at run
    rw [served, run, made, failed]
    rcases kept with same | ⟨name, new, renamed⟩
    · rw [same]
      exact ⟨orderly, (append_nil _).symm⟩
    · rw [renamed]
      exact ⟨orderly.extend_name new, (append_nil _).symm⟩
  · change (generate c).start _ = _ at goes
    have all : made c r t = madeOf s none r.conditions w := by rw [made, found]
    have here : w.target.watches = withLast t.watches s.name none := by
      rw [target]
      exact (append_nil _).symm
    have fresh := orderly.key_not_mem IsWatchOf.unique new rfl
    obtain ⟨whole, kept⟩ := watches_setWatches s none r.conditions w fresh here
    rw [Option.or_none] at whole
    have names : ((setWatches s none r.conditions).start w).2.target.names = t.names ++ [s.name] := by
      rw [kept, target]
    have extended :=
      orderly_withLast orderly new ((madeOf s none r.conditions w).map Made.watch).getLast?
    rw [← whole, ← names] at extended
    rw [served, goes, start_map, all]
    refine ⟨extended, ?_⟩
    rw [← map_snd_withLast, ← whole]

/-- What each of many rules gives. -/
def madeEach (t : Watcher) : List (Config × Rule) → List (List Made)
  | [] => []
  | x :: rest => made x.1 x.2 t :: madeEach (served x.1 x.2 t) rest

theorem queryIn_madeEach (t : Watcher) (history : List (Config × Rule)) :
    ∀ ms ∈ madeEach t history, ∀ m ∈ ms, queryIn m.watch = some (optionValue m.text) := by
  induction history generalizing t with
  | nil => nofun
  | cons x rest ih =>
    intro ms member
    rcases mem_cons.mp member with rfl | later
    · exact queryIn_made x.1 x.2 t
    · exact ih _ ms later

theorem orderly_foldl_served (orderly : Orderly IsWatchOf t.names t.watches)
    (history : List (Config × Rule)) :
    Orderly IsWatchOf (history.foldl (fun t x => served x.1 x.2 t) t).names
        (history.foldl (fun t x => served x.1 x.2 t) t).watches ∧
      (history.foldl (fun t x => served x.1 x.2 t) t).watches.map Prod.snd =
        t.watches.map Prod.snd ++
          (madeEach t history).filterMap fun ms => (ms.map Made.watch).getLast? := by
  induction history generalizing t with
  | nil => exact ⟨orderly, (append_nil _).symm⟩
  | cons x rest ih =>
    obtain ⟨orderly', watches⟩ := orderly_served orderly x.1 x.2
    obtain ⟨last, whole⟩ := ih orderly'
    refine ⟨last, ?_⟩
    rw [foldl_cons, whole, watches, madeEach, filterMap_cons, append_assoc]
    cases ((made x.1 x.2 t).map Made.watch).getLast? <;> rfl

/-- A list of lists that are not empty has as many entries in all as lists only if each has one. -/
theorem length_eq_sum_iff {α : Type} {xs : List α} {size : α → Nat} (some : ∀ x ∈ xs, size x ≠ 0) :
    xs.length = (xs.map size).sum ↔ ∀ x ∈ xs, size x = 1 := by
  induction xs with
  | nil => exact iff_of_true rfl nofun
  | cons x rest ih =>
    obtain ⟨here, later⟩ := forall_mem_cons.mp some
    have least := length_le_sum_of_one_le (rest.map size) (by
      intro n member
      obtain ⟨y, inside, rfl⟩ := mem_map.mp member
      exact Nat.one_le_iff_ne_zero.mpr (later y inside))
    rw [length_map] at least
    rw [forall_mem_cons, ← ih later, length_cons, map_cons, sum_cons]
    omega

theorem forall₂_last (full : ∀ ms ∈ each, ms ≠ [])
    (whole : watches.map Prod.snd = each.filterMap fun ms => (ms.map Made.watch).getLast?) :
    Forall₂ (fun e ms => ∃ m, ms.getLast? = some m ∧ e.2 = m.watch) watches each := by
  induction each generalizing watches with
  | nil =>
    rw [map_eq_nil_iff.mp whole]
    exact .nil
  | cons ms rest ih =>
    obtain ⟨nonempty, later⟩ := forall_mem_cons.mp full
    have last : ms.getLast? = some (ms.getLast nonempty) := getLast?_eq_some_getLast nonempty
    rw [filterMap_cons_some (by rw [getLast?_map, last]; rfl)] at whole
    obtain ⟨e, es, rfl, first, others⟩ := map_eq_cons_iff.mp whole
    exact .cons ⟨_, last, first⟩ (ih later others)

theorem ne_nil_of_lengths {history : List (Config × Rule)}
    (lengths : Forall₂ (fun x ms => ms.length = x.2.conditions.length) history each)
    (listed : ∀ x ∈ history, x.2.conditions ≠ []) : ∀ ms ∈ each, ms ≠ [] := by
  induction lengths with
  | nil => nofun
  | cons same _ ih =>
    obtain ⟨here, later⟩ := forall_mem_cons.mp listed
    refine forall_mem_cons.mpr ⟨?_, ih later⟩
    rw [← length_pos_iff, same]
    exact length_pos_iff.mpr here

end Elastic.Watcher

namespace Target

/-- The watches that a target has. -/
def watches : Target → Entries
  | .watcher s => s.watches
  | _ => []

/-- The target converts rules one after another. -/
def Converts (t : Target) : List (Config × Rule) → Prop
  | [] => True
  | x :: rest => (∃ text, (t.generate x.1 x.2).result = .ok text) ∧
    Converts (t.generate x.1 x.2).target rest

theorem after_watcher (t : Elastic.Watcher) (history : List (Config × Rule)) :
    (Target.watcher t).after history =
      .watcher (history.foldl (fun t x => Elastic.Watcher.served x.1 x.2 t) t) := by
  induction history generalizing t with
  | nil => rfl
  | cons x rest ih => exact ih _

theorem Converts.forall₂_made {t : Elastic.Watcher} {history : List (Config × Rule)}
    (converted : (Target.watcher t).Converts history) :
    Forall₂ (fun x ms => ms.length = x.2.conditions.length) history
      (Elastic.Watcher.madeEach t history) := by
  induction history generalizing t with
  | nil => exact .nil
  | cons x rest ih =>
    obtain ⟨⟨text, result⟩, later⟩ := converted
    exact .cons (Elastic.Watcher.length_made ⟨text, _, Prod.ext result rfl⟩) (ih later)

end Target

namespace Elastic.Watcher

/-- The queries of the watches after many rules are the texts of last conditions. -/
theorem queries_after (o : Options) (history : List (Config × Rule)) :
    ((Target.watcher (new o)).after history).watches.map (fun e => queryIn e.2) =
      ((madeEach (new o) history).map (List.map Made.text)).filterMap fun texts =>
        texts.getLast?.map fun text => some (optionValue text) := by
  have whole := (orderly_foldl_served (t := new o) .nil history).2
  have queries := queryIn_madeEach (new o) history
  calc
    _ = ((history.foldl (fun t x => served x.1 x.2 t) (new o)).watches.map Prod.snd).map queryIn := by
      rw [Target.after_watcher, map_map]
      rfl
    _ = ((madeEach (new o) history).filterMap fun ms => (ms.map Made.watch).getLast?).map queryIn := by
      rw [whole]
      rfl
    _ = _ := by
      rw [map_filterMap, filterMap_map]
      refine filterMap_congr fun ms member => ?_
      show ((ms.map Made.watch).getLast?).map queryIn = ((ms.map Made.text).getLast?).map _
      rw [getLast?_map, getLast?_map, Option.map_map, Option.map_map]
      refine Option.map_congr fun m last => ?_
      exact queries ms member m (mem_of_getLast? last)

/-- A text is the query of a watch exactly if it is that of the last condition of a rule. -/
theorem exists_query_after_iff (o : Options) (history : List (Config × Rule)) (q : Option String) :
    (∃ e ∈ ((Target.watcher (new o)).after history).watches, queryIn e.2 = some (optionValue q)) ↔
      ∃ ms ∈ madeEach (new o) history, (ms.map Made.text).getLast? = some q := by
  have listed : some (optionValue q) ∈
      ((Target.watcher (new o)).after history).watches.map (fun e => queryIn e.2) ↔
        ∃ ms ∈ madeEach (new o) history, (ms.map Made.text).getLast? = some q := by
    rw [queries_after]
    simp only [mem_filterMap, mem_map, Option.map_eq_some_iff, Option.some.injEq,
      optionValue_inj, exists_eq_right, exists_exists_and_eq_and]
  rw [← listed, mem_map]

/-- After rules that a new target converts, each with a condition or more, there is one watch for each
rule: that of its last condition. So the queries of the watches are the texts of last conditions, and
there are as many watches as conditions only if each rule has a single condition. -/
theorem watches_after (o : Options) {history : List (Config × Rule)}
    (listed : ∀ x ∈ history, x.2.conditions ≠ [])
    (converted : (Target.watcher (new o)).Converts history) :
    (((Target.watcher (new o)).after history).watches.map Prod.fst).Nodup ∧
    ((Target.watcher (new o)).after history).watches.length = history.length ∧
    List.Forall₂ (fun x ms => ms.length = x.2.conditions.length) history (madeEach (new o) history) ∧
    (∀ ms ∈ madeEach (new o) history, ∀ m ∈ ms, queryIn m.watch = some (optionValue m.text)) ∧
    List.Forall₂ (fun e ms => ∃ m, ms.getLast? = some m ∧ e.2 = m.watch)
      ((Target.watcher (new o)).after history).watches (madeEach (new o) history) ∧
    (∀ q, (∃ e ∈ ((Target.watcher (new o)).after history).watches,
        queryIn e.2 = some (optionValue q)) ↔
      ∃ ms ∈ madeEach (new o) history, (ms.map Made.text).getLast? = some q) ∧
    (((Target.watcher (new o)).after history).watches.length =
        (history.map fun x => x.2.conditions.length).sum ↔
      ∀ x ∈ history, x.2.conditions.length = 1) := by
  obtain ⟨orderly, whole⟩ := orderly_foldl_served (t := new o) .nil history
  have after : ((Target.watcher (new o)).after history).watches =
      (history.foldl (fun t x => served x.1 x.2 t) (new o)).watches := by
    rw [Target.after_watcher]
    rfl
  rw [← after] at whole
  have lengths := converted.forall₂_made
  have kept := forall₂_last (ne_nil_of_lengths lengths listed) whole
  have counts := kept.length_eq.trans lengths.length_eq.symm
  refine ⟨after ▸ orderly.keys, counts, lengths, queryIn_madeEach (new o) history, kept,
    exists_query_after_iff o history, ?_⟩
  rw [counts]
  exact length_eq_sum_iff fun x member => (List.length_pos_iff.mpr (listed x member)).ne'

/-- A rule with two conditions. -/
def twoSearches : Rule where
  document := .map [("title", "A"), ("logsource", .map [("product", "p")]),
    ("detection", .map [("one", .map [("f", "v")]), ("two", .map [("f", "w")]),
      ("condition", .list ["one", "two"])])]
  detection := .ofEntries [("one", .map [("f", "v")]), ("two", .map [("f", "w")]),
    ("condition", .list ["one", "two"])]
  conditions := [⟨.item "f" "v", none⟩, ⟨.item "f" "w", none⟩]

/-- The options of a target for which nothing is chosen. -/
def plainOptions : Options :=
  .withDefaults optionSpecs []

theorem converts_twoSearches : (Target.watcher (new plainOptions)).Converts
    [(.empty, twoSearches), (.empty, Target.fieldSearch)] :=
  ⟨⟨none, eq_ok_of_toOption (by decide +kernel)⟩, ⟨none, eq_ok_of_toOption (by decide +kernel)⟩, trivial⟩

/-- Two rules with one title keep a watch each. -/
theorem watches_after_twoSearches :
    (((Target.watcher (new plainOptions)).after
      [(.empty, twoSearches), (.empty, Target.fieldSearch)]).watches.map Prod.fst).Nodup ∧
    ((Target.watcher (new plainOptions)).after
      [(.empty, twoSearches), (.empty, Target.fieldSearch)]).watches.length = 2 := by
  have listed : ∀ x ∈ [(Config.empty, twoSearches), (Config.empty, Target.fieldSearch)],
      x.2.conditions ≠ [] := by
    intro x member
    rcases List.mem_pair.mp member with rfl | rfl <;> nofun
  obtain ⟨distinct, count, -⟩ := watches_after plainOptions listed converts_twoSearches
  exact ⟨distinct, count⟩

/-- Two conditions give two watches, and the first of them is lost. -/
theorem watch_of_first_condition_lost :
    (Target.watcher (new plainOptions)).Converts [(.empty, twoSearches)] ∧
    (madeEach (new plainOptions) [(.empty, twoSearches)]).map (List.map Made.text) =
      [[some "f:\"v\"", some "f:\"w\""]] ∧
    ((Target.watcher (new plainOptions)).after [(.empty, twoSearches)]).watches.map
      (fun e => queryIn e.2) = [some (.text "f:\"w\"")] := by
  have texts : (madeEach (new plainOptions) [(.empty, twoSearches)]).map (List.map Made.text) =
      [[some "f:\"v\"", some "f:\"w\""]] := by decide +kernel
  refine ⟨⟨converts_twoSearches.1, trivial⟩, texts, ?_⟩
  rw [queries_after, texts]
  rfl

end Elastic.Watcher

end SigmaQuery
