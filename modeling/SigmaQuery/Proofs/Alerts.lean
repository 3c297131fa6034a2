import SigmaQuery.Proofs.RuleHistory
import SigmaQuery.Proofs.RuleNames

/-!
# Alerts of many rules

A target for Elastalert keeps the alerts of all rules under names: that of the rule, and the number of
the condition. A rule may fail at any of its conditions, and the alerts of those before stay. So the
alerts after many rules are what their conditions gave one after another, and none is put in the place of
another: the names of rules are different, and the name of a rule can be read back from that of an alert.
-/

namespace SigmaQuery

open FaultM List GenerateM Ensures

/-! ## What a computation leaves to other parts -/

theorem GenerateM.keeps_query {σ υ : Type} {view : Work σ → υ}
    {search : Cond → GenerateM σ (Option String)} {aggregate : Aggregation → GenerateM σ String}
    (keepsSearch : ∀ c, Keeps view (search c)) (keepsAggregate : ∀ a, Keeps view (aggregate a))
    (p : ParsedCondition) : Keeps view (query search aggregate p) := by
  refine (keepsSearch p.search).bind fun text => ?_
  split
  · exact keeps_pure _
  · refine (keepsAggregate _).bind fun suffix => ?_
    split
    · exact keeps_pure _
    · exact keeps_throw _

namespace Elastic.Elastalert

/-! ## The alerts of a rule -/

/-- The names and the alerts of a target at work. -/
def holdings (w : Work Elastalert) : List String × Entries :=
  (w.target.names, w.target.alerts)

theorem keeps_aggregate (a : Aggregation) : Keeps holdings (aggregate a) := by
  rw [aggregate]
  split
  · exact keeps_throw _
  · exact keeps_pure _
  · exact keeps_throw _

theorem keeps_filter (p : ParsedCondition) : Keeps holdings (filter p) := by
  have searched : ∀ c, Keeps holdings
      (QueryString.searchIn base (fun b t => { t with base := b }) c) := fun _ _ => rfl
  exact (keeps_query searched keeps_aggregate p).bind fun _ => keeps_pure _

theorem keeps_alert (s : Shared) (n : Nat) (p : ParsedCondition) : Keeps holdings (alert s n p) :=
  keeps_get.bind fun _ => (keeps_ofExcept _).bind fun _ => (keeps_ofExcept _).bind fun _ =>
    (keeps_filter p).bind fun _ => (keeps_ofExcept _).bind fun _ => (keeps_ofExcept _).bind fun _ =>
      keeps_pure _

/-- The key of an alert of the rule with this name. -/
def alertKey (name : String) (n : Nat) : Key :=
  .text (name ++ "_" ++ toString n)

theorem alertKey_inj {a b : String} {m n : Nat} : alertKey a m = alertKey b n ↔ a = b ∧ m = n := by
  constructor
  · intro same
    exact marked_inj (Key.text.inj same)
  · rintro ⟨rfl, rfl⟩
    rfl

/-- The target with an alert more. -/
def stored (k : Key) (v : Value) (w : Work Elastalert) : Work Elastalert :=
  { w with target := { w.target with alerts := put k v w.target.alerts } }

/-- The alerts that conditions give one after another, numbered from `n`, up to the first condition that
fails. -/
def alertsOf (s : Shared) (n : Nat) : List ParsedCondition → Work Elastalert → Entries
  | [], _ => []
  | p :: rest, w => match (alert s n p).start w with
    | (.error _, _) => []
    | (.ok v, w) => (alertKey s.name n, v) :: alertsOf s (n + 1) rest (stored (alertKey s.name n) v w)

section

variable {s : Shared} {n : Nat} {p : ParsedCondition} {w w' : Work Elastalert}

theorem start_addAlerts_of_error (rest : List ParsedCondition) {e : Fault}
    (failed : (alert s n p).start w = (.error e, w')) :
    (addAlerts s n (p :: rest)).start w = (.error e, w') ∧ alertsOf s n (p :: rest) w = [] := by
  constructor
  · exact start_bind_of_error (start_bind_of_error failed)
  · rw [alertsOf, failed]

theorem start_addAlerts_of_ok (rest : List ParsedCondition) {v : Value}
    (made : (alert s n p).start w = (.ok v, w')) :
    (addAlerts s n (p :: rest)).start w =
        (addAlerts s (n + 1) rest).start (stored (alertKey s.name n) v w') ∧
      alertsOf s n (p :: rest) w =
        (alertKey s.name n, v) :: alertsOf s (n + 1) rest (stored (alertKey s.name n) v w') := by
  constructor
  · have added : (addAlert s n p).start w = (.ok (), stored (alertKey s.name n) v w') :=
      start_bind_of_ok made
    exact start_bind_of_ok added
  · rw [alertsOf, made]

theorem keys_alertsOf (s : Shared) (n : Nat) (ps : List ParsedCondition) (w : Work Elastalert) :
    (alertsOf s n ps w).map Prod.fst =
      (List.range' n (alertsOf s n ps w).length).map (alertKey s.name) := by
  induction ps generalizing n w with
  | nil => rfl
  | cons p rest ih =>
    rcases run : (alert s n p).start w with ⟨e | v, w'⟩
    · rw [(start_addAlerts_of_error rest run).2]
      rfl
    · rw [(start_addAlerts_of_ok rest run).2, map_cons, length_cons, range'_succ, map_cons, ih]

theorem returns_addAlerts_iff (s : Shared) (n : Nat) (ps : List ParsedCondition)
    (w : Work Elastalert) :
    (addAlerts s n ps).Returns w ↔ (alertsOf s n ps w).length = ps.length := by
  induction ps generalizing n w with
  | nil => exact iff_of_true ⟨(), w, rfl⟩ rfl
  | cons p rest ih =>
    rcases run : (alert s n p).start w with ⟨e | v, w'⟩
    · obtain ⟨failed, none⟩ := start_addAlerts_of_error rest run
      rw [none]
      refine iff_of_false ?_ (Nat.succ_ne_zero _).symm
      rintro ⟨_, _, returned⟩
      rw [failed] at returned
      cases returned
    · obtain ⟨goes, alerts⟩ := start_addAlerts_of_ok rest run
      rw [alerts, length_cons, length_cons, Nat.succ_inj, ← ih]
      unfold Returns
      rw [goes]

/-- The alerts of a rule go behind those that are there, if their keys are new. -/
theorem alerts_addAlerts (s : Shared) (n : Nat) (ps : List ParsedCondition) (w : Work Elastalert)
    (new : ∀ m, n ≤ m → alertKey s.name m ∉ w.target.alerts.map Prod.fst) :
    ((addAlerts s n ps).start w).2.target.alerts = w.target.alerts ++ alertsOf s n ps w ∧
      ((addAlerts s n ps).start w).2.target.names = w.target.names := by
  induction ps generalizing n w with
  | nil => exact ⟨(append_nil _).symm, rfl⟩
  | cons p rest ih =>
    have kept := keeps_alert s n p w
    rcases run : (alert s n p).start w with ⟨e | v, w'⟩
    · rw [run] at kept
      obtain ⟨names, alerts⟩ := Prod.mk.inj kept
      obtain ⟨failed, none⟩ := start_addAlerts_of_error rest run
      rw [failed, none, append_nil]
      exact ⟨alerts, names⟩
    · rw [run] at kept
      obtain ⟨names, alerts⟩ := Prod.mk.inj kept
      obtain ⟨goes, made⟩ := start_addAlerts_of_ok rest run
      have put : (stored (alertKey s.name n) v w').target.alerts =
          w.target.alerts ++ [(alertKey s.name n, v)] := by
        show SigmaQuery.put _ v w'.target.alerts = _
        rw [alerts, put_of_not_mem (new n (Nat.le_refl n))]
      -- the next keys are new too: they have greater numbers than the one that was put in
      have later : ∀ m, n + 1 ≤ m →
          alertKey s.name m ∉ (stored (alertKey s.name n) v w').target.alerts.map Prod.fst := by
        intro m greater member
        rw [put, map_append, mem_append] at member
        rcases member with old | last
        · exact new m (by omega) old
        · have := (alertKey_inj.mp (mem_singleton.mp last)).2
          omega
      obtain ⟨whole, unchanged⟩ := ih (n + 1) (stored (alertKey s.name n) v w') later
      rw [goes, made, whole, put, append_assoc, unchanged]
      exact ⟨rfl, names⟩

end

/-! ## The alerts of many rules -/

theorem names_shared (c : Config) (w : Work Elastalert) :
    Names names (fun ns t => { t with names := ns }) Shared.name (shared c) w := by
  refine names_ruleName_bind Shared.name (fun name x => ?_) w
  have entry : ∀ k default, Stays (fun w : Work Elastalert => besides w = x)
      (entryOr k default) := fun k default =>
    (keeps_entryOr k default).stays x
  refine bind (entry _ _) fun _ _ => bind (entry _ _) fun _ _ =>
    bind (entry _ _) fun _ _ => bind (entry _ _) fun _ _ =>
      bind (entry _ _) fun _ _ => ?_
  refine bind ((keeps_detectionEntryOr _ _).stays x) fun _ _ => ?_
  refine bind (stays_ofExcept _) fun _ _ => ?_
  refine bind ((keeps_logSource c).stays x) fun _ _ => ?_
  exact ensures_pure rfl

/-- The alerts that the conditions of a rule give, up to the first that fails. -/
def made (c : Config) (r : Rule) (t : Elastalert) : Entries :=
  match (shared c).start ⟨t, r⟩ with
  | (.error _, _) => []
  | (.ok s, w) => alertsOf s 0 r.conditions w

/-- The target after a rule, whatever its outcome. -/
def served (c : Config) (r : Rule) (t : Elastalert) : Elastalert :=
  ((generate c).start ⟨t, r⟩).2.target

variable {t : Elastalert}

theorem length_made {c : Config} {r : Rule}
    (returned : (generate c).Returns ⟨t, r⟩) : (made c r t).length = r.conditions.length := by
  obtain ⟨s, w, found, added⟩ := (names_shared c ⟨t, r⟩).returns_each returned
  rw [made, found]
  exact (returns_addAlerts_iff s 0 r.conditions w).mp added

/-- The key is that of an alert of the rule with this name. -/
def IsAlertOf (k : Key) (name : String) : Prop :=
  ∃ n, k = alertKey name n

theorem IsAlertOf.unique {k : Key} {a b : String} : IsAlertOf k a → IsAlertOf k b → a = b := by
  rintro ⟨m, rfl⟩ ⟨n, same⟩
  exact (alertKey_inj.mp same).1

/-- A rule adds its alerts behind those that are there, and leaves the target orderly, whether or not it
is converted. -/
theorem orderly_served (orderly : Orderly IsAlertOf t.names t.alerts) (c : Config)
    (r : Rule) : Orderly IsAlertOf (served c r t).names (served c r t).alerts ∧
      (served c r t).alerts = t.alerts ++ made c r t := by
  rcases (names_shared c ⟨t, r⟩).start_forConditions fun s => addAlerts s 0 with
    ⟨e, w, failed, run, kept⟩ | ⟨s, w, found, goes, new, target⟩
  · change (generate c).start _ = _ at run
    rw [served, run, made, failed, append_nil]
    rcases kept with same | ⟨name, new, renamed⟩
    · rw [same]
      exact ⟨orderly, rfl⟩
    · rw [renamed]
      exact ⟨orderly.extend_name new, rfl⟩
  · change (generate c).start _ = _ at goes
    have alerts : made c r t = alertsOf s 0 r.conditions w := by rw [made, found]
    have fresh : ∀ n, 0 ≤ n → alertKey s.name n ∉ w.target.alerts.map Prod.fst := by
      intro n _
      rw [target]
      exact orderly.key_not_mem IsAlertOf.unique new ⟨n, rfl⟩
    have added : ((addAlerts s 0 r.conditions).start w).2.target.alerts =
          t.alerts ++ alertsOf s 0 r.conditions w ∧
        ((addAlerts s 0 r.conditions).start w).2.target.names = t.names ++ [s.name] := by
      have added := alerts_addAlerts s 0 r.conditions w fresh
      rw [target] at added
      exact added
    obtain ⟨whole, names⟩ := added
    have extended : Orderly IsAlertOf (t.names ++ [s.name])
        (t.alerts ++ alertsOf s 0 r.conditions w) := by
      refine orderly.extend IsAlertOf.unique new ?_ ?_ <;> rw [keys_alertsOf]
      · exact (nodup_range' ..).map fun m n same => (alertKey_inj.mp same).2
      · intro k member
        obtain ⟨n, -, rfl⟩ := mem_map.mp member
        exact ⟨n, rfl⟩
    rw [served, goes, start_map, alerts]
    rw [← whole, ← names] at extended
    exact ⟨extended, whole⟩

/-- The alerts that each of many rules gives. -/
def madeEach (t : Elastalert) : List (Config × Rule) → List Entries
  | [] => []
  | x :: rest => made x.1 x.2 t :: madeEach (served x.1 x.2 t) rest

theorem orderly_foldl_served (orderly : Orderly IsAlertOf t.names t.alerts)
    (history : List (Config × Rule)) :
    Orderly IsAlertOf (history.foldl (fun t x => served x.1 x.2 t) t).names
        (history.foldl (fun t x => served x.1 x.2 t) t).alerts ∧
      (history.foldl (fun t x => served x.1 x.2 t) t).alerts =
        t.alerts ++ (madeEach t history).flatten := by
  induction history generalizing t with
  | nil => exact ⟨orderly, (append_nil _).symm⟩
  | cons x rest ih =>
    obtain ⟨orderly', alerts⟩ := orderly_served orderly x.1 x.2
    obtain ⟨last, whole⟩ := ih orderly'
    refine ⟨last, ?_⟩
    rw [foldl_cons, whole, alerts, madeEach, flatten_cons, append_assoc]

end Elastic.Elastalert

/-- The alerts that a target has. -/
def Target.alerts : Target → Entries
  | .elastalert s => s.alerts
  | _ => []

theorem Target.after_elastalert (t : Elastic.Elastalert) (history : List (Config × Rule)) :
    (Target.elastalert t).after history =
      .elastalert (history.foldl (fun t x => Elastic.Elastalert.served x.1 x.2 t) t) := by
  induction history generalizing t with
  | nil => rfl
  | cons x rest ih => exact ih _

namespace Elastic.Elastalert

/-- Every rule with a text for a title gets the first free name, so that rules get different names in any
order. The alerts of a new target after any rules are those that the conditions of these rules gave, in
each rule up to the first condition that fails, and their keys are different: no rule changes the alerts
of those before, and if a rule is converted then there is an alert for each of its conditions. -/
theorem alerts_after :
    (∀ used title, ∃ name, takeName used (.text title) = .ok (name, used ++ [name]) ∧
      FirstFree used (nameOfTitle title) name) ∧
    (∀ titles, List.Forall₂ NamedBy titles (nameEach [] titles).1 ∧
      ((nameEach [] titles).1.filterMap Except.toOption).Nodup) ∧
    (∀ (o : Options) (history : List (Config × Rule)),
      (((Target.elastalert (new o)).after history).alerts.map Prod.fst).Nodup ∧
      ((Target.elastalert (new o)).after history).alerts = (madeEach (new o) history).flatten ∧
      ((Target.elastalert (new o)).after history).alerts.length =
        ((madeEach (new o) history).map List.length).sum ∧
      ∀ later, ((Target.elastalert (new o)).after history).alerts <+:
        ((Target.elastalert (new o)).after (history ++ later)).alerts) ∧
    ∀ c r t, (generate c).Returns ⟨t, r⟩ → (made c r t).length = r.conditions.length := by
  refine ⟨fun used title => ⟨_, rfl, freshName_firstFree _ _⟩, fun titles => ?_,
    fun o history => ?_, fun c r t returned => length_made returned⟩
  · obtain ⟨outcomes, names, distinct⟩ := nameEach_spec .nil titles
    rw [names, List.nil_append] at distinct
    exact ⟨outcomes, distinct⟩
  · obtain ⟨orderly, alerts⟩ := orderly_foldl_served (t := new o) .nil history
    refine ⟨?_, ?_, ?_, fun later => ?_⟩
    · rw [Target.after_elastalert]
      exact orderly.keys
    · rw [Target.after_elastalert]
      exact alerts
    · rw [Target.after_elastalert, ← List.length_flatten]
      exact congrArg List.length alerts
    · rw [Target.after_elastalert, Target.after_elastalert, List.foldl_append]
      exact ⟨_, (orderly_foldl_served orderly later).2.symm⟩

end Elastic.Elastalert

end SigmaQuery
