import Mathlib.Data.String.Basic
import SigmaQuery.Proofs.FieldTargets

/-!
# The values that conditional mappings see

A conditional mapping has targets for rules in which a field has a value. It asks the values that the
definitions of the rule give to fields: those of the maps that are definitions or stand in lists, at any
depth. A value counts by its text. A list of values is one value with a text of its own, so its items are
not seen.
-/

namespace SigmaQuery

open FaultM List

/-! ## The values of a rule -/

/-- The definition gives the field the value: it is a map that does, or a list in which one does. -/
inductive GivenIn (field : Key) (w : Value) : Value → Prop
  | entry {entries : Entries} (member : (field, w) ∈ entries) : GivenIn field w (.map entries)
  | item {items : List Value} {v : Value} (member : v ∈ items) (inside : GivenIn field w v) :
    GivenIn field w (.list items)

/-- The texts that are kept for a field. -/
def FieldValues.shown (values : FieldValues) (field : Key) : List String :=
  (lookup field values).getD []

variable {field : Key} {s : String} {w : Value}

theorem mem_shown_addValue {k : Key} {v : Value} {values : FieldValues} :
    s ∈ (addValue k v values).shown field ↔ s ∈ values.shown field ∨ k = field ∧ v.display = s := by
  unfold FieldValues.shown addValue
  simp only
  by_cases same : k = field
  · subst same
    rw [lookup_put, Option.getD_some]
    split
    · rename_i known
      rw [contains_iff_mem] at known
      constructor
      · exact .inl
      · rintro (old | ⟨-, rfl⟩)
        · exact old
        · exact known
    · simp [eq_comm]
  · rw [lookup_put_of_ne (Ne.symm same)]
    simp [same]

theorem addValues_map_cons (values : FieldValues) (k : Key) (v : Value) (rest : Entries) :
    addValues values (.map ((k, v) :: rest)) = addValues (addValue k v values) (.map rest) := by
  rw [addValues, addValues, foldl_cons]

theorem mem_shown_addValues_map (entries : Entries)
    (values : FieldValues) : s ∈ (addValues values (.map entries)).shown field ↔
      s ∈ values.shown field ∨ ∃ w, (field, w) ∈ entries ∧ w.display = s := by
  induction entries generalizing values with
  | nil => simp [addValues]
  | cons e rest ih =>
    obtain ⟨k, v⟩ := e
    rw [addValues_map_cons, ih, mem_shown_addValue]
    constructor
    · rintro ((old | ⟨rfl, shown⟩) | ⟨w, member, shown⟩)
      · exact .inl old
      · exact .inr ⟨v, mem_cons_self, shown⟩
      · exact .inr ⟨w, mem_cons_of_mem _ member, shown⟩
    · rintro (old | ⟨w, member, shown⟩)
      · exact .inl (.inl old)
      · rcases mem_cons.mp member with here | later
        · cases here
          exact .inl (.inr ⟨rfl, shown⟩)
        · exact .inr ⟨w, later, shown⟩

theorem givenIn_map_iff {entries : Entries} :
    GivenIn field w (.map entries) ↔ (field, w) ∈ entries := by
  constructor
  · intro given
    cases given with
    | entry member => exact member
  · exact .entry

theorem givenIn_list_iff {items : List Value} :
    GivenIn field w (.list items) ↔ ∃ v ∈ items, GivenIn field w v := by
  constructor
  · intro given
    cases given with
    | item member inside => exact ⟨_, member, inside⟩
  · rintro ⟨v, member, inside⟩
    exact .item member inside

mutual

theorem mem_shown_addValues {s : String} {field : Key} (v : Value) (values : FieldValues) :
    s ∈ (addValues values v).shown field ↔
      s ∈ values.shown field ∨ ∃ w, GivenIn field w v ∧ w.display = s := by
  match v with
  | .map entries =>
    rw [mem_shown_addValues_map]
    simp only [givenIn_map_iff]
  | .list items =>
    rw [addValues, mem_shown_addItemValues items]
    simp only [givenIn_list_iff]
    grind
  | .null | .bool _ | .int _ | .decimal _ | .text _ =>
    -- a single value gives no field a value
    simp only [addValues]
    constructor
    · exact .inl
    · rintro (old | ⟨w, given, -⟩)
      · exact old
      · cases given

theorem mem_shown_addItemValues {s : String} {field : Key} (items : List Value)
    (values : FieldValues) : s ∈ (addItemValues values items).shown field ↔
      s ∈ values.shown field ∨ ∃ v ∈ items, ∃ w, GivenIn field w v ∧ w.display = s := by
  match items with
  | [] => simp [addItemValues]
  | v :: rest =>
    rw [addItemValues, mem_shown_addItemValues rest, mem_shown_addValues v, exists_mem_cons_iff,
      or_assoc]

end

namespace Detection

/-- Some definition of a rule gives the field a value with the text. -/
def Shows (entries : Entries) (field : Key) (text : String) : Prop :=
  ∃ e ∈ entries, e.1 ≠ .text "condition" ∧ ∃ w, GivenIn field w e.2 ∧ w.display = text

theorem mem_shown_foldl {s : String} {field : Key} (definitions : Entries) (values : FieldValues) :
    s ∈ FieldValues.shown (definitions.foldl (fun vs e => addValues vs e.2) values) field ↔
      s ∈ values.shown field ∨ ∃ e ∈ definitions, ∃ w, GivenIn field w e.2 ∧ w.display = s := by
  induction definitions generalizing values with
  | nil => simp
  | cons e rest ih =>
    rw [foldl_cons, ih, mem_shown_addValues, exists_mem_cons_iff, or_assoc]

/-- The texts that are kept for a field are those of its values in the definitions. -/
theorem mem_shown_iff {s : String} {field : Key} {entries : Entries} :
    s ∈ (ofEntries entries).values.shown field ↔ Shows entries field s := by
  have fresh : s ∉ FieldValues.shown [] field := not_mem_nil
  refine (mem_shown_foldl (remove (.text "condition") entries) []).trans ?_
  simp [fresh, remove, Shows, and_assoc]

end Detection

/-! ## Conditions as texts -/

section Cutting

open String

/-- The cutting of a text behind the parts `acc`, with `m` read of the next part and `r` to come. -/
theorem splitOnAux_singleton (sep : Char) (l m r : List Char) (acc : List String) :
    splitOnAux (ofList (l ++ m ++ r)) (ofList [sep]) ⟨utf8Len l⟩ ⟨utf8Len l + utf8Len m⟩ 0 acc =
      acc.reverse ++ (List.splitOnPPrepend (· == sep) r m.reverse).map ofList := by
  induction r generalizing l m acc with
  | nil =>
    have done := atEnd_of_valid (l ++ m) []
    have word := extract_of_valid l m []
    simp only [utf8Len_append, iff_true] at done
    rw [splitOnAux, if_pos done, word]
    simp
  | cons c r ih =>
    have more : ¬ Pos.Raw.atEnd (ofList (l ++ m ++ c :: r)) ⟨utf8Len l + utf8Len m⟩ = true := by
      rw [← utf8Len_append, atEnd_of_valid]
      simp
    have here : Pos.Raw.get (ofList (l ++ m ++ c :: r)) ⟨utf8Len l + utf8Len m⟩ = c := by
      rw [← utf8Len_append, get_of_valid]
      rfl
    have next : Pos.Raw.next (ofList (l ++ m ++ c :: r)) ⟨utf8Len l + utf8Len m⟩ =
        ⟨utf8Len l + utf8Len m + c.utf8Size⟩ := by
      rw [← utf8Len_append, next_of_valid]
    have sepHere : Pos.Raw.get (ofList [sep]) 0 = sep := get_of_valid [] [sep]
    have sepNext : Pos.Raw.next (ofList [sep]) 0 = ⟨sep.utf8Size⟩ := by
      simpa using next_of_valid [] sep []
    have sepDone : Pos.Raw.atEnd (ofList [sep]) ⟨sep.utf8Size⟩ = true := by
      simpa using atEnd_of_valid [sep] []
    rw [splitOnAux, if_neg more, here, sepHere]
    by_cases same : c = sep
    · -- the part ends here, and its end is found by going back over the separator
      subst same
      have word := extract_of_valid l m (c :: r)
      have back : Pos.Raw.unoffsetBy ⟨utf8Len l + utf8Len m + c.utf8Size⟩ ⟨c.utf8Size⟩ =
          ⟨utf8Len l + utf8Len m⟩ := by
        simp [Pos.Raw.unoffsetBy]
      have rest := ih (l ++ m ++ [c]) [] (ofList m :: acc)
      simp only [beq_self_eq_true, if_true, next, sepNext, sepDone, back, word]
      rw [splitOnPPrepend_cons_pos (by simp)]
      simpa [Nat.add_assoc] using rest
    · have rest := ih l (m ++ [c]) acc
      have stay : Pos.Raw.unoffsetBy ⟨utf8Len l + utf8Len m⟩ 0 = ⟨utf8Len l + utf8Len m⟩ := by
        simp [Pos.Raw.unoffsetBy]
      rw [if_neg (by simpa using same), stay, next]
      rw [splitOnPPrepend_cons_neg (by simpa using same)]
      simpa [Nat.add_assoc] using rest

theorem splitOn_singleton (sep : Char) (s : String) :
    s.splitOn (ofList [sep]) = (s.toList.splitOn sep).map ofList := by
  have cut : splitOnAux (ofList ([] ++ [] ++ s.toList)) (ofList [sep]) 0 0 0 [] = _ :=
    splitOnAux_singleton sep [] [] s.toList []
  rw [nil_append, nil_append, ofList_toList] at cut
  have some_sep : ¬ (ofList [sep] == "") = true := by simp
  rw [String.splitOn, if_neg some_sep, cut]
  rfl

theorem splitOn_equals (s : String) : s.splitOn "=" = (s.toList.splitOn '=').map ofList :=
  splitOn_singleton '=' s

theorem splitOn_eq_pair {text a b : List Char} {sep : Char} :
    text.splitOn sep = [a, b] ↔ text = a ++ sep :: b ∧ sep ∉ a ∧ sep ∉ b := by
  constructor
  · intro cut
    have some_sep : sep ∈ text := by
      by_contra none
      rw [splitOn_eq_singleton none] at cut
      cases cut
    obtain ⟨first, rest, rfl, left⟩ := eq_append_cons_of_mem some_sep
    rw [splitOn_append_cons_self_of_not_mem left] at cut
    obtain ⟨rfl, last⟩ := List.cons.inj cut
    have right : sep ∉ rest := by
      intro another
      obtain ⟨second, more, rfl, none⟩ := eq_append_cons_of_mem another
      rw [splitOn_append_cons_self_of_not_mem none] at last
      exact splitOn_ne_nil sep more (List.cons.inj last).2
    rw [splitOn_eq_singleton right] at last
    obtain rfl := singleton_inj.mp last
    exact ⟨rfl, left, right⟩
  · rintro ⟨rfl, left, right⟩
    rw [splitOn_append_cons_self_of_not_mem left, splitOn_eq_singleton right]

theorem splitOn_equals_iff {text field value : String} : text.splitOn "=" = [field, value] ↔
    text = field ++ "=" ++ value ∧ '=' ∉ field.toList ∧ '=' ∉ value.toList := by
  have pair : (text.splitOn "=" = [field, value]) ↔
      text.toList.splitOn '=' = [field.toList, value.toList] := by
    rw [splitOn_equals]
    constructor
    · intro cut
      have lists := congrArg (List.map String.toList) cut
      simpa [List.map_map, Function.comp_def] using lists
    · intro cut
      rw [cut]
      simp
  rw [pair, splitOn_eq_pair, String.ext_iff]
  simp

end Cutting

/-! ## Conditions that a rule meets -/

/-- The targets of a condition or of a default. -/
def Value.asTargets : Value → List Value
  | .text s => [.text s]
  | .list items => items
  | _ => []

namespace FieldMapping

/-- Some case has the target for rules whose field has the value. -/
def Listed (cases : List MappingCase) (field value : String) (t : Value) : Prop :=
  ∃ c ∈ cases, c.field = field ∧ c.value = value ∧ t ∈ c.targets

/-- A document has the target for rules whose field has the value. -/
def Configured (document : Entries) (field value : String) (t : Value) : Prop :=
  '=' ∉ field.toList ∧ '=' ∉ value.toList ∧
    ∃ target, (.text (field ++ "=" ++ value), target) ∈ document ∧ t ∈ target.asTargets

variable {field value condition : String} {target t : Value} {cases : List MappingCase}
  {rest document : Entries} {default : Option (List Value)}

theorem listed_addCase {field' value' : String} :
    Listed (addCase field' value' target cases) field value t ↔
      Listed cases field value t ∨ (field' = field ∧ value' = value ∧ t ∈ target.asTargets) := by
  have shape : addCase field' value' target cases =
      if cases.any fun c => c.field == field' && c.value == value' then
        cases.map fun c => if c.field == field' && c.value == value' then
          { c with targets := c.targets ++ target.asTargets } else c
      else cases ++ [⟨field', value', target.asTargets⟩] := by
    cases target <;> rfl
  rw [shape]
  split
  · -- the case is there and takes the targets in
    rename_i known
    obtain ⟨own, present, matched⟩ := any_eq_true.mp known
    simp only [Bool.and_eq_true, beq_iff_eq] at matched
    constructor
    · rintro ⟨c, member, rfl, rfl, has⟩
      obtain ⟨c, old, rfl⟩ := mem_map.mp member
      by_cases here : (c.field == field' && c.value == value') = true
      · simp only [if_pos here, mem_append] at has ⊢
        simp only [Bool.and_eq_true, beq_iff_eq] at here
        rcases has with before | new
        · exact .inl ⟨c, old, rfl, rfl, before⟩
        · exact .inr ⟨here.1.symm, here.2.symm, new⟩
      · simp only [if_neg here] at has ⊢
        exact .inl ⟨c, old, rfl, rfl, has⟩
    · rintro (⟨c, old, rfl, rfl, has⟩ | ⟨rfl, rfl, has⟩)
      · refine ⟨_, mem_map_of_mem old, ?_⟩
        split
        · exact ⟨rfl, rfl, mem_append_left _ has⟩
        · exact ⟨rfl, rfl, has⟩
      · refine ⟨_, mem_map_of_mem present, ?_⟩
        rw [if_pos (by simp [matched])]
        exact ⟨matched.1, matched.2, mem_append_right _ has⟩
  · -- the case is new and stands at the end
    constructor
    · rintro ⟨c, member, rfl, rfl, has⟩
      rcases mem_append.mp member with old | new
      · exact .inl ⟨c, old, rfl, rfl, has⟩
      · obtain rfl := mem_singleton.mp new
        exact .inr ⟨rfl, rfl, has⟩
    · rintro (⟨c, old, rfl, rfl, has⟩ | ⟨rfl, rfl, has⟩)
      · exact ⟨c, mem_append_left _ old, rfl, rfl, has⟩
      · exact ⟨_, mem_append_right _ mem_cons_self, rfl, rfl, has⟩

theorem configured_cons : Configured ((.text condition, target) :: rest) field value t ↔
      (condition.splitOn "=" = [field, value] ∧ t ∈ target.asTargets) ∨
        Configured rest field value t := by
  rw [splitOn_equals_iff]
  constructor
  · rintro ⟨left, right, target', member, has⟩
    rcases mem_cons.mp member with here | later
    · cases here
      exact .inl ⟨⟨rfl, left, right⟩, has⟩
    · exact .inr ⟨left, right, target', later, has⟩
  · rintro (⟨⟨rfl, left, right⟩, has⟩ | ⟨left, right, target', later, has⟩)
    · exact ⟨left, right, target, mem_cons_self, has⟩
    · exact ⟨left, right, target', mem_cons_of_mem _ later, has⟩

theorem configured_cons_of_ne (other : ∀ f v, condition.splitOn "=" = [f, v] → False) :
    Configured ((.text condition, target) :: rest) field value t ↔ Configured rest field value t := by
  rw [configured_cons]
  exact or_iff_right fun here => other field value here.1

theorem listed_readCases {cases' : List MappingCase} {default' : Option (List Value)}
    (read : readCases cases default document = .ok (cases', default')) :
    Listed cases' field value t ↔ Listed cases field value t ∨ Configured document field value t := by
  fun_induction readCases cases default document with
  | case1 cases default =>
    cases read
    simp [Configured]
  | case2 => cases read
  | case3 cases default condition target rest field' value' parts ih =>
    rw [ih read, listed_addCase, configured_cons, parts, or_assoc]
    simp [and_assoc]
  | case4 cases default rest s other ih | case5 cases default rest items other ih =>
    rw [ih read, configured_cons_of_ne other]
  | case6 | case7 => cases read

theorem mem_metTargets {values : FieldValues} : t ∈ metTargets cases values ↔
      ∃ field value, Listed cases field value t ∧ value ∈ values.shown (.text field) := by
  rw [metTargets, mem_flatMap]
  simp only [mem_filter]
  constructor
  · rintro ⟨c, ⟨member, met⟩, has⟩
    refine ⟨c.field, c.value, ⟨c, member, rfl, rfl, has⟩, ?_⟩
    cases known : lookup (.text c.field) values with
    | none => simp [known] at met
    | some texts => simpa [known, FieldValues.shown] using met
  · rintro ⟨field, value, ⟨c, member, rfl, rfl, has⟩, shown⟩
    refine ⟨c, ⟨member, ?_⟩, has⟩
    cases known : lookup (.text c.field) values with
    | none => simp [known, FieldValues.shown] at shown
    | some texts => simpa [known, FieldValues.shown] using shown

/-- The rule meets a condition that has the target. -/
def Seen (entries document : Entries) (t : Value) : Prop :=
  ∃ field value, Configured document field value t ∧ Detection.Shows entries (.text field) value

theorem mem_metTargets_iff {entries : Entries}
    (read : readCases [] none document = .ok (cases, default)) :
    t ∈ metTargets cases (Detection.ofEntries entries).values ↔ Seen entries document t := by
  have none_listed (field value : String) : ¬ Listed [] field value t := by
    rintro ⟨c, member, -⟩
    cases member
  simp only [mem_metTargets, listed_readCases read, none_listed, false_or, Detection.mem_shown_iff,
    Seen]

end FieldMapping

/-- A conditional mapping sees a value of the rule by its text. A search in the mapped field fails only
if a target of a condition that the rule meets cannot stand in a set. Otherwise it compares all targets
of these conditions, and if there are any nothing else; if there are none it compares what is left of the
default, or the field itself. -/
theorem Config.resolve_seen_targets {c : Config} {field : Value} {document : Entries}
    {cases : List MappingCase} {default left : Option (List Value)}
    (mapped : c.fieldMapping field = .ok (some (.conditional document cases left)))
    (read : FieldMapping.readCases [] none document = .ok (cases, default)) (entries : Entries)
    (value : Value) :
    ((∃ t, FieldMapping.Seen entries document t ∧ t.hashable = false) →
      (resolve field value (Detection.ofEntries entries).values).start c = (.error .wrongType, c)) ∧
    ((∀ t, FieldMapping.Seen entries document t → t.hashable = true) → ∃ u c',
      (resolve field value (Detection.ofEntries entries).values).start c = (.ok u, c') ∧
      ((∃ t, FieldMapping.Seen entries document t) →
        ∀ f, f ∈ (Cond.comparedFields [u]).map Value.canonicalScalar ↔
          ∃ t, FieldMapping.Seen entries document t ∧ t.canonicalScalar = f) ∧
      ((¬ ∃ t, FieldMapping.Seen entries document t) → SameFields (Cond.comparedFields [u])
        (if !(left.getD []).isEmpty then left.getD [] else [field]))) := by
  have seen {t : Value} : t ∈ FieldMapping.metTargets cases (Detection.ofEntries entries).values ↔
    FieldMapping.Seen entries document t := FieldMapping.mem_metTargets_iff read
  refine ⟨?_, ?_⟩
  · rintro ⟨t, met, unusable⟩
    refine start_resolve_of_not_usable mapped ?_ value
    rw [FieldMapping.usable, List.all_eq_false]
    exact ⟨t, seen.mpr met, by simp [unusable]⟩
  · intro sets
    have usable : (FieldMapping.conditional document cases left).usable
        (Detection.ofEntries entries).values = true :=
      List.all_eq_true.mpr fun t met => sets t (seen.mp met)
    obtain ⟨u, m', resolved, same⟩ := FieldMapping.resolve_fields usable field value
    refine ⟨u, _, start_resolve mapped resolved, ?_, ?_⟩
    · rintro ⟨t, met⟩ f
      rw [FieldMapping.valueFields_of_met (List.ne_nil_of_mem (seen.mpr met))] at same
      rw [same f, List.mem_map]
      simp only [seen]
    · intro unmet
      have nothing := List.eq_nil_iff_forall_not_mem.mpr fun t met => unmet ⟨t, seen.mp met⟩
      rwa [FieldMapping.valueFields_of_unmet nothing] at same

theorem readCases_guarded : FieldMapping.readCases [] none [("g=w", "x"), ("default", "y")] =
    .ok ([⟨"g", "w", ["x"]⟩], some ["y"]) := by
  simp only [FieldMapping.readCases, splitOn_equals]
  with_unfolding_all rfl

/-- The value that meets the condition stands in a map inside a list of lists. -/
def nestedEntries : Entries :=
  [("sel", .list [.list [.map [("g", "w")]], "k"]), ("other", .map [("f", "v")]),
    ("condition", "sel or other")]

theorem configured_guarded :
    FieldMapping.Configured [("g=w", "x"), ("default", "y")] "g" "w" "x" :=
  ⟨by decide, by decide, "x", mem_cons_self, mem_cons_self⟩

theorem Config.resolve_seen_targets_nested : ∃ u c',
    (resolve "f" "v" (Detection.ofEntries nestedEntries).values).start guardedConfig = (.ok u, c') ∧
    Value.text "x" ∈ (Cond.comparedFields [u]).map Value.canonicalScalar := by
  have given : GivenIn "g" "w" (.list [.list [.map [("g", "w")]], "k"]) :=
    .item List.mem_cons_self (.item List.mem_cons_self (.entry List.mem_cons_self))
  have seen : FieldMapping.Seen nestedEntries [("g=w", "x"), ("default", "y")] "x" :=
    ⟨"g", "w", configured_guarded, _, List.mem_cons_self, by decide, "w", given, rfl⟩
  have sets (t : Value) (met : FieldMapping.Seen nestedEntries [("g=w", "x"), ("default", "y")] t) :
      t.hashable = true := by
    rw [← FieldMapping.mem_metTargets_iff readCases_guarded, FieldMapping.mem_metTargets] at met
    obtain ⟨-, -, ⟨c, member, -, -, has⟩, -⟩ := met
    rw [List.mem_singleton.mp member] at has
    rw [List.mem_singleton.mp has]
    rfl
  have mapped : guardedConfig.fieldMapping "f" = .ok (some (.conditional
    [("g=w", "x"), ("default", "y")] [⟨"g", "w", ["x"]⟩] (some ["y"]))) := rfl
  obtain ⟨u, c', run, met, -⟩ :=
    (resolve_seen_targets mapped readCases_guarded nestedEntries "v").2 sets
  exact ⟨u, c', run, (met ⟨_, seen⟩ "x").mpr ⟨_, seen, rfl⟩⟩

/-- The value that should meet the condition is an item of a list. -/
def listedEntries : Entries :=
  [("sel", .map [("f", "v"), ("g", .list ["w", "z"])]), ("condition", "sel")]

/-- The condition is not met, and the search goes to the default. -/
theorem Config.resolve_listed_value :
    GivenIn "g" (.list ["w", "z"]) (.map [("f", "v"), ("g", .list ["w", "z"])]) ∧
    FieldMapping.Configured [("g=w", "x"), ("default", "y")] "g" "w" "x" ∧
    (Detection.ofEntries listedEntries).values.shown "g" =
      [(Value.list ["w", "z"]).display] ∧
    ((resolve "f" "v" (Detection.ofEntries listedEntries).values).start guardedConfig).1 =
      .ok (.item "y" "v") := by
  have given : GivenIn "g" (.list ["w", "z"]) (.map [("f", "v"), ("g", .list ["w", "z"])]) :=
    .entry (List.mem_cons_of_mem _ List.mem_cons_self)
  exact ⟨given, configured_guarded, by with_unfolding_all rfl, by with_unfolding_all rfl⟩

end SigmaQuery
