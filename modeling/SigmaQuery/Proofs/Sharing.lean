import SigmaQuery.Collection.Section
import SigmaQuery.Proofs.Definitions

/-!
# Shared sections

Where two documents have maps of the same number at the same path, the maps are one and the same. Two
documents *agree* if such maps have the same entries in both.

Merging a source into a document changes maps of the document. Another document is *disturbed* by it
if it shares a map whose entries change. Main statements: a document that is not disturbed stays as it
is when the change is carried over to it (`refreshAll_of_agree`, `Agree.mergeAll`), and one that is
disturbed does not (`toEntries_refreshAll_ne`).
-/

namespace SigmaQuery

open List

/-! ## Documents with distinct keys -/

mutual

/-- The keys of a map are distinct, and so are those of the maps in it. -/
def Value.keysDistinct : Value → Bool
  | .map entries => entriesDistinct entries
  | _ => true

/-- The keys of entries are distinct, and so are those of the maps in them. -/
def entriesDistinct : Entries → Bool
  | [] => true
  | (k, v) :: rest => (lookup k rest).isNone && v.keysDistinct && entriesDistinct rest

end

theorem entriesDistinct_cons {k : Key} {v : Value} {entries : Entries} :
    entriesDistinct ((k, v) :: entries) = true ↔
      (lookup k entries = none ∧ v.keysDistinct = true) ∧ entriesDistinct entries = true := by
  rw [← Option.isNone_iff_eq_none, ← Bool.and_eq_true_iff]
  exact Bool.and_eq_true_iff

theorem lookup_remove_of_none {k : Key} {entries : Entries} (absent : lookup k entries = none)
    (k' : Key) : lookup k (remove k' entries) = none := by
  induction entries with
  | nil => rfl
  | cons e rest ih =>
    obtain ⟨j, v⟩ := e
    simp only [lookup] at absent
    split at absent
    · cases absent
    · rename_i other
      by_cases gone : j = k'
      · simpa [remove, gone] using ih absent
      · simpa [remove, gone, lookup, other] using ih absent

theorem entriesDistinct_remove {entries : Entries} (distinct : entriesDistinct entries = true)
    (k : Key) : entriesDistinct (remove k entries) = true := by
  induction entries with
  | nil => rfl
  | cons e rest ih =>
    obtain ⟨j, v⟩ := e
    obtain ⟨⟨absent, value⟩, others⟩ := entriesDistinct_cons.mp distinct
    have below := ih others
    by_cases gone : j = k
    · simpa [remove, gone] using below
    · have kept : remove k ((j, v) :: rest) = (j, v) :: remove k rest := by simp [remove, gone]
      rw [kept]
      simp [entriesDistinct, lookup_remove_of_none absent, value, below]

namespace Section

mutual

/-- The section is a map whose keys are distinct at every depth, or a value that is no map. -/
def Proper : Section → Prop
  | .value v => ∀ entries, v ≠ .map entries
  | .map _ entries => ProperAll entries

/-- The keys are distinct, here and in all maps below. -/
def ProperAll : Sections → Prop
  | [] => True
  | (k, s) :: rest => lookup k rest = none ∧ s.Proper ∧ ProperAll rest

end

variable {sections source document es dest a b es' other : Sections} {k : Key} {s t : Section}
  {path : List Key} {m : Nat × Sections} {number origin bound : Nat}

theorem ProperAll.of_lookup (proper : ProperAll sections) (found : lookup k sections = some s) :
    s.Proper := by
  induction sections with
  | nil => cases found
  | cons e rest ih =>
    obtain ⟨-, here, others⟩ := proper
    rw [lookup] at found
    split at found
    · cases found
      exact here
    · exact ih others found

theorem lookup_of_mem (proper : ProperAll sections) (member : (k, s) ∈ sections) :
    lookup k sections = some s := by
  induction sections with
  | nil => cases member
  | cons e rest ih =>
    obtain ⟨absent, -, others⟩ := proper
    rcases mem_cons.mp member with rfl | later
    · exact if_pos rfl
    · have found := ih others later
      have other : e.1 ≠ k := by
        rintro rfl
        rw [absent] at found
        cases found
      exact (if_neg other).trans found

theorem ProperAll.put {sections : Sections} (proper : ProperAll sections) (k : Key) {s : Section}
    (properNew : s.Proper) : ProperAll (put k s sections) := by
  induction sections with
  | nil => exact ⟨rfl, properNew, trivial⟩
  | cons e rest ih =>
    obtain ⟨absent, here, others⟩ := proper
    rw [SigmaQuery.put]
    split
    · exact ⟨absent, properNew, others⟩
    · rename_i other
      exact ⟨(lookup_put_of_ne other _ _).trans absent, here, ih others⟩

/-! ## Merging -/

theorem mergeOver_value (old : Option Section) (v : Value) :
    mergeOver old (.value v) = .value v := rfl

/-- A map over a map is merged into it; over anything else it takes its place. -/
theorem mergeOver_map (old : Option Section) (origin : Nat) (new : Sections) :
    (∃ kept entries, old = some (.map kept entries) ∧
      mergeOver old (.map origin new) = .map kept (mergeAll entries new)) ∨
    (∀ kept entries, old ≠ some (.map kept entries)) ∧
      mergeOver old (.map origin new) = .map origin new := by
  rcases old with - | v | ⟨kept, entries⟩
  · exact .inr ⟨nofun, rfl⟩
  · exact .inr ⟨nofun, rfl⟩
  · exact .inl ⟨kept, entries, rfl, rfl⟩

mutual

theorem ProperAll.mergeAll {dest source : Sections} (proper : ProperAll dest)
    (properSource : ProperAll source) : ProperAll (Section.mergeAll dest source) := by
  match source with
  | [] => exact proper
  | (k, s) :: rest =>
    obtain ⟨-, here, others⟩ := properSource
    rw [Section.mergeAll]
    refine ProperAll.mergeAll (proper.put k ?_) others
    exact Proper.mergeOver (fun t found => proper.of_lookup found) here

theorem Proper.mergeOver {old : Option Section} {s : Section}
    (proper : ∀ t, old = some t → t.Proper) (properNew : s.Proper) :
    (Section.mergeOver old s).Proper := by
  match s with
  | .value v =>
    rw [mergeOver_value]
    exact properNew
  | .map origin new =>
    rcases mergeOver_map old origin new with ⟨kept, entries, found, merged⟩ | ⟨-, merged⟩
    · have properOld := proper _ found
      rw [merged]
      exact ProperAll.mergeAll properOld properNew
    · rw [merged]
      exact properNew

end

theorem lookup_mergeAll_of_none (absent : lookup k source = none) (dest : Sections) :
    lookup k (mergeAll dest source) = lookup k dest := by
  induction source generalizing dest with
  | nil => rfl
  | cons e rest ih =>
    rw [lookup] at absent
    split at absent
    · cases absent
    · rename_i other
      exact (ih absent _).trans (lookup_put_of_ne (Ne.symm other) _ _)

theorem lookup_mergeAll_of_some (proper : ProperAll source) (found : lookup k source = some s)
    (dest : Sections) : lookup k (mergeAll dest source) = some (mergeOver (lookup k dest) s) := by
  induction source generalizing dest with
  | nil => cases found
  | cons e rest ih =>
    obtain ⟨absent, -, others⟩ := proper
    rw [lookup] at found
    split at found
    · rename_i same
      cases found
      subst same
      exact (lookup_mergeAll_of_none absent _).trans (lookup_put _ _ _)
    · rename_i other
      refine (ih others found _).trans ?_
      rw [lookup_put_of_ne (Ne.symm other)]

/-! ## Values -/

theorem toEntries_eq_map (sections : Sections) :
    toEntries sections = sections.map fun (k, s) => (k, toValue s) := by
  induction sections with
  | nil => rfl
  | cons e rest ih => exact congrArg ((e.1, toValue e.2) :: ·) ih

theorem lookup_toEntries (k : Key) (sections : Sections) :
    lookup k (toEntries sections) = (lookup k sections).map toValue := by
  rw [toEntries_eq_map, lookup_map]

theorem exists_of_lookup_toEntries {entries : Entries} (proper : ProperAll sections)
    (found : lookup k (toEntries sections) = some (.map entries)) :
    ∃ origin es, lookup k sections = some (.map origin es) ∧ toEntries es = entries := by
  rw [lookup_toEntries] at found
  obtain ⟨s, there, value⟩ := Option.map_eq_some_iff.mp found
  cases s with
  | value v => exact absurd value (proper.of_lookup there entries)
  | map origin es => exact ⟨origin, es, there, Value.map.inj value⟩

theorem toEntries_put (k : Key) (s : Section) (sections : Sections) :
    toEntries (put k s sections) = put k (toValue s) (toEntries sections) := by
  rw [toEntries_eq_map, toEntries_eq_map, put_map]

theorem toEntries_remove (k : Key) (sections : Sections) :
    toEntries (remove k sections) = remove k (toEntries sections) := by
  rw [toEntries_eq_map, toEntries_eq_map, remove, remove, filter_map]
  rfl

mutual

theorem toEntries_mergeAll {dest source : Sections} (proper : ProperAll dest)
    (properSource : ProperAll source) :
    toEntries (mergeAll dest source) = mergeEntries (toEntries dest) (toEntries source) := by
  match source with
  | [] => rw [mergeAll, toEntries, mergeEntries]
  | (k, s) :: rest =>
    rw [ProperAll] at properSource
    have properOld : ∀ t, lookup k dest = some t → t.Proper := fun t found =>
      proper.of_lookup found
    rw [mergeAll, toEntries, mergeEntries, lookup_toEntries,
      ← toValue_mergeOver properOld properSource.2.1, ← toEntries_put]
    exact toEntries_mergeAll (proper.put k (Proper.mergeOver properOld properSource.2.1))
      properSource.2.2

theorem toValue_mergeOver {old : Option Section} {s : Section}
    (proper : ∀ t, old = some t → t.Proper) (properNew : s.Proper) :
    toValue (mergeOver old s) = SigmaQuery.mergeOver (old.map toValue) (toValue s) := by
  match s with
  | .value v =>
    rw [mergeOver_value, toValue]
    cases v with
    | map entries => exact absurd rfl (properNew entries)
    | _ => rfl
  | .map origin new =>
    rw [Proper] at properNew
    rcases old with - | v | ⟨kept, entries⟩
    · rfl
    · have noMap : ∀ entries, v ≠ .map entries := proper _ rfl
      cases v with
      | map entries => exact absurd rfl (noMap entries)
      | _ => rfl
    · have properOld := proper _ rfl
      rw [Proper] at properOld
      have merged : mergeOver (some (.map kept entries)) (.map origin new) =
        .map kept (mergeAll entries new) := rfl
      rw [merged, toValue, toEntries_mergeAll properOld properNew, Option.map_some, toValue, toValue,
        SigmaQuery.mergeOver]

end

/-! ## The sections of a document -/

theorem ofEntries_eq_map (number : Nat) (entries : Entries) :
    ofEntries number entries = entries.map fun (k, v) => (k, ofValue number v) := by
  induction entries with
  | nil => rfl
  | cons e rest ih => exact congrArg ((e.1, ofValue number e.2) :: ·) ih

theorem lookup_ofEntries (k : Key) (number : Nat) (entries : Entries) :
    lookup k (ofEntries number entries) = (lookup k entries).map (ofValue number) := by
  rw [ofEntries_eq_map, lookup_map]

mutual

theorem toValue_ofValue (number : Nat) (v : Value) : toValue (ofValue number v) = v := by
  match v with
  | .map entries => rw [ofValue, toValue, toEntries_ofEntries]
  | .null | .bool _ | .int _ | .decimal _ | .text _ | .list _ => rfl

theorem toEntries_ofEntries (number : Nat) (entries : Entries) :
    toEntries (ofEntries number entries) = entries := by
  match entries with
  | [] => rfl
  | (k, v) :: rest => rw [ofEntries, toEntries, toValue_ofValue, toEntries_ofEntries]

end

mutual

theorem proper_ofValue (number : Nat) {v : Value} (distinct : v.keysDistinct = true) :
    (ofValue number v).Proper := by
  match v with
  | .map entries =>
    rw [ofValue, Proper]
    exact properAll_ofEntries number distinct
  | .null | .bool _ | .int _ | .decimal _ | .text _ | .list _ => nofun

theorem properAll_ofEntries (number : Nat) {entries : Entries}
    (distinct : entriesDistinct entries = true) : ProperAll (ofEntries number entries) := by
  match entries with
  | [] => trivial
  | (k, v) :: rest =>
    obtain ⟨⟨absent, value⟩, others⟩ := entriesDistinct_cons.mp distinct
    rw [ofEntries, ProperAll, lookup_ofEntries, absent]
    exact ⟨rfl, proper_ofValue number value, properAll_ofEntries number others⟩

end

/-! ## Maps at a path -/

/-- The map at a path below a section: its number and its entries. -/
def mapAt? : List Key → Section → Option (Nat × Sections)
  | _, .value _ => none
  | [], .map origin entries => some (origin, entries)
  | k :: path, .map _ entries => (lookup k entries).bind (mapAt? path)

/-- The map at a path in a document. -/
def mapIn? (k : Key) (path : List Key) (document : Sections) : Option (Nat × Sections) :=
  (lookup k document).bind (mapAt? path)

theorem mapAt?_value (path : List Key) (v : Value) : mapAt? path (.value v) = none := by
  cases path <;> rfl

theorem mapIn?_eq_some : mapIn? k path document = some m ↔
      ∃ s, lookup k document = some s ∧ mapAt? path s = some m :=
  Option.bind_eq_some_iff

theorem mapAt?_nil_eq_some : mapAt? [] s = some m ↔ s = .map m.1 m.2 := by
  cases s with
  | value v => exact ⟨nofun, nofun⟩
  | map o es => constructor <;> (rintro ⟨⟩; rfl)

theorem mapAt?_cons_eq_some : mapAt? (k :: path) s = some m ↔
    ∃ origin es, s = .map origin es ∧ mapIn? k path es = some m := by
  constructor
  · intro found
    cases s with
    | value v => cases found
    | map origin es => exact ⟨origin, es, rfl, found⟩
  · rintro ⟨origin, es, rfl, found⟩
    exact found

theorem origin_of_mapAt?_ofValue {v : Value} {entries : Sections}
    (found : mapAt? path (ofValue number v) = some (origin, entries)) : origin = number := by
  induction path generalizing v with
  | nil =>
    cases v with
    | map es =>
      cases found
      rfl
    | _ => cases found
  | cons k path ih =>
    cases v with
    | map es =>
      obtain ⟨s, below, found⟩ := mapIn?_eq_some.mp found
      rw [lookup_ofEntries] at below
      obtain ⟨w, -, rfl⟩ := Option.map_eq_some_iff.mp below
      exact ih found
    | _ => cases found

theorem origin_of_mapIn?_ofEntries {entries : Entries}
    (found : mapIn? k path (ofEntries number entries) = some (origin, es)) : origin = number := by
  obtain ⟨s, below, found⟩ := mapIn?_eq_some.mp found
  rw [lookup_ofEntries] at below
  obtain ⟨v, -, rfl⟩ := Option.map_eq_some_iff.mp below
  exact origin_of_mapAt?_ofValue found

theorem Proper.of_mapAt? {entries : Sections} (proper : s.Proper)
    (found : mapAt? path s = some (origin, entries)) : ProperAll entries := by
  induction path generalizing s with
  | nil =>
    obtain rfl := mapAt?_nil_eq_some.mp found
    exact proper
  | cons k path ih =>
    obtain ⟨o, es, rfl, found⟩ := mapAt?_cons_eq_some.mp found
    obtain ⟨t, below, found⟩ := mapIn?_eq_some.mp found
    exact ih (ProperAll.of_lookup proper below) found

theorem ProperAll.of_mapIn? {entries : Sections} (proper : ProperAll document)
    (found : mapIn? k path document = some (origin, entries)) : ProperAll entries := by
  obtain ⟨s, below, found⟩ := mapIn?_eq_some.mp found
  exact (proper.of_lookup below).of_mapAt? found

/-! ## Maps after merging -/

theorem mergeAll_nil (dest : Sections) : mergeAll dest [] = dest := rfl

/-- A map in a merged section was there before, with entries that something was merged into, or it
comes from the new section as it is. -/
theorem mapAt?_mergeOver {old : Option Section} {entries : Sections} (proper : s.Proper)
    (found : mapAt? path (mergeOver old s) = some (origin, entries)) :
    (∃ t es new, old = some t ∧ mapAt? path t = some (origin, es) ∧ ProperAll new ∧
      entries = mergeAll es new) ∨ mapAt? path s = some (origin, entries) := by
  induction path generalizing old s with
  | nil =>
    cases s with
    | value v =>
      rw [mergeOver_value] at found
      cases found
    | map o new =>
      rcases mergeOver_map old o new with ⟨kept, es, rfl, merged⟩ | ⟨-, merged⟩
      · rw [merged] at found
        cases found
        exact .inl ⟨_, es, new, rfl, rfl, proper, rfl⟩
      · rw [merged] at found
        exact .inr found
  | cons k path ih =>
    cases s with
    | value v =>
      rw [mergeOver_value, mapAt?_value] at found
      cases found
    | map o new =>
      rcases mergeOver_map old o new with ⟨kept, es, rfl, merged⟩ | ⟨-, merged⟩
      · rw [merged] at found
        obtain ⟨t, below, found⟩ := mapIn?_eq_some.mp found
        -- the source says nothing at the key, or something is merged over what is there
        cases there : lookup k new with
        | none =>
          rw [lookup_mergeAll_of_none there] at below
          exact .inl ⟨_, entries, [], rfl, mapIn?_eq_some.mpr ⟨t, below, found⟩, trivial,
            (mergeAll_nil _).symm⟩
        | some y =>
          rw [lookup_mergeAll_of_some proper there] at below
          cases below
          rcases ih (ProperAll.of_lookup proper there) found with
            ⟨t, es', more, before, at', rest⟩ | fresh
          · exact .inl ⟨_, es', more, rfl, mapIn?_eq_some.mpr ⟨t, before, at'⟩, rest⟩
          · exact .inr (mapIn?_eq_some.mpr ⟨y, there, fresh⟩)
      · rw [merged] at found
        exact .inr found

theorem mapIn?_mergeAll {entries : Sections} (proper : ProperAll source)
    (found : mapIn? k path (mergeAll dest source) = some (origin, entries)) :
    (∃ es new, mapIn? k path dest = some (origin, es) ∧ ProperAll new ∧ entries = mergeAll es new) ∨
      mapIn? k path source = some (origin, entries) := by
  have whole : mapAt? (k :: path) (mergeOver (some (.map 0 dest)) (.map 0 source)) =
      some (origin, entries) := found
  rcases mapAt?_mergeOver (s := .map 0 source) proper whole with
    ⟨t, es, new, same, before, rest⟩ | fresh
  · cases same
    exact .inl ⟨es, new, before, rest⟩
  · exact .inr fresh

mutual

/-- What keeps its value when a section is merged over it stays as it is. -/
theorem mergeOver_eq_of_toValue {t s : Section} (proper : t.Proper) (properNew : s.Proper)
    (same : toValue (mergeOver (some t) s) = toValue t) : mergeOver (some t) s = t := by
  match s with
  | .value v =>
    rw [mergeOver_value, toValue] at same
    rw [mergeOver_value]
    cases t with
    | value w =>
      rw [toValue] at same
      rw [same]
    | map kept es =>
      rw [toValue] at same
      exact absurd same (properNew _)
  | .map origin new =>
    cases t with
    | value w =>
      exact absurd same.symm (proper _)
    | map kept es =>
      rw [Proper] at proper properNew
      rw [mergeOver, toValue, toValue] at same
      rw [mergeOver, mergeAll_eq_of_toEntries proper properNew (Value.map.inj same)]

theorem mergeAll_eq_of_toEntries {dest source : Sections} (proper : ProperAll dest)
    (properSource : ProperAll source) (same : toEntries (mergeAll dest source) = toEntries dest) :
    mergeAll dest source = dest := by
  match source with
  | [] => exact mergeAll_nil dest
  | (k, s) :: rest =>
    rw [ProperAll] at properSource
    rw [mergeAll] at same ⊢
    -- no later entry of the source touches the key, so its value can be read off at the end
    have value : (lookup k dest).map toValue = some (toValue (mergeOver (lookup k dest) s)) := by
      rw [← lookup_toEntries, ← same, lookup_toEntries, lookup_mergeAll_of_none properSource.1,
        lookup_put, Option.map_some]
    obtain ⟨t, found, shown⟩ := Option.map_eq_some_iff.mp value
    rw [found] at shown
    have kept := mergeOver_eq_of_toValue (proper.of_lookup found) properSource.2.1 shown.symm
    rw [found, kept, put_of_lookup found] at same ⊢
    exact mergeAll_eq_of_toEntries proper properSource.2.2 same

end

/-! ## Agreement -/

/-- Maps of the same number at the same path have the same entries in both documents. -/
def Agree (a b : Sections) : Prop :=
  ∀ k path origin es es', mapIn? k path a = some (origin, es) →
    mapIn? k path b = some (origin, es') → es = es'

theorem Agree.symm (agree : Agree a b) : Agree b a :=
  fun k path origin es es' inB inA => (agree k path origin es' es inA inB).symm

theorem agree_refl (a : Sections) : Agree a a := by
  intro k path origin es es' found found'
  rw [found] at found'
  cases found'
  rfl

theorem agree_nil (a : Sections) : Agree [] a := nofun

/-- The same of two sections. -/
def AgreeAt (t s : Section) : Prop :=
  ∀ path origin es es', mapAt? path t = some (origin, es) →
    mapAt? path s = some (origin, es') → es = es'

theorem Agree.at (agree : Agree a b) (inA : lookup k a = some t) (inB : lookup k b = some s) :
    AgreeAt t s :=
  fun path origin es es' found found' => agree k path origin es es'
    (mapIn?_eq_some.mpr ⟨t, inA, found⟩) (mapIn?_eq_some.mpr ⟨s, inB, found'⟩)

theorem AgreeAt.entries {origin' : Nat} (agree : AgreeAt (.map origin es) (.map origin' es')) :
    Agree es es' :=
  fun k path => agree (k :: path)

mutual

theorem refresh_of_agreeAt {changed : Option Section} {s : Section} (proper : s.Proper)
    (agree : ∀ t, changed = some t → AgreeAt t s) : refresh changed s = s := by
  match s with
  | .value v => rw [refresh]
  | .map origin es =>
    rw [Proper] at proper
    rcases changed with - | v | ⟨other, new⟩
    · simp [refresh]
    · simp [refresh]
    · have agreeMap := agree _ rfl
      rw [refresh]
      by_cases same : origin = other
      · subst same
        rw [if_pos rfl, agreeMap [] origin new es rfl rfl]
      · rw [if_neg same, refreshAll_of_agree proper agreeMap.entries]

/-- A change is not seen in a document that agrees with the changed one. -/
theorem refreshAll_of_agree {changed sections : Sections} (proper : ProperAll sections)
    (agree : Agree changed sections) : refreshAll changed sections = sections := by
  match sections with
  | [] => rw [refreshAll]
  | (k, s) :: rest =>
    rw [ProperAll] at proper
    have here : lookup k ((k, s) :: rest) = some s := by simp [lookup]
    have later : ∀ k' t, lookup k' rest = some t → lookup k' ((k, s) :: rest) = some t := by
      intro k' t found
      have other : k ≠ k' := by
        rintro rfl
        rw [proper.1] at found
        cases found
      simpa [lookup, other] using found
    have agreeRest : Agree changed rest := by
      intro k' path origin es es' inChanged inRest
      obtain ⟨t, found, below⟩ := mapIn?_eq_some.mp inRest
      exact agree k' path origin es es' inChanged (mapIn?_eq_some.mpr ⟨t, later k' t found, below⟩)
    rw [refreshAll, refresh_of_agreeAt proper.2.1 fun t found => agree.at found here,
      refreshAll_of_agree proper.2.2 agreeRest]

end

theorem entriesAt_of_lookup (found : lookup k document = some (.map origin es)) :
    entriesAt k document = es := by
  rw [entriesAt, found]

theorem ProperAll.entriesAt (proper : ProperAll document) (k : Key) :
    ProperAll (Section.entriesAt k document) := by
  unfold Section.entriesAt
  split
  · rename_i found
    have below := proper.of_lookup found
    rwa [Proper] at below
  · trivial

theorem Agree.entriesAt (agree : Agree a b) (k : Key) :
    Agree (Section.entriesAt k a) (Section.entriesAt k b) := by
  unfold Section.entriesAt
  split
  · rename_i inA
    split
    · rename_i inB
      exact (agree.at inA inB).entries
    · exact (agree_nil _).symm
  · exact agree_nil _

theorem refreshBelow_of_agree {changed : Sections} (proper : ProperAll document)
    (agree : Agree changed document) (k j : Key) :
    refreshBelow (entriesAt k changed) (remove j (entriesAt k document)) =
      remove j (entriesAt k document) := by
  have below : ∀ k' origin es, (k', Section.map origin es) ∈ remove j (entriesAt k document) →
      refreshAll (entriesAt k' (entriesAt k changed)) es = es := by
    intro k' origin es member
    have found := lookup_of_mem (proper.entriesAt k) (mem_filter.mp member).1
    have properBelow := (proper.entriesAt k).entriesAt k'
    have agreeBelow := (agree.entriesAt k).entriesAt k'
    rw [entriesAt_of_lookup found] at properBelow agreeBelow
    exact refreshAll_of_agree properBelow agreeBelow
  generalize remove j (entriesAt k document) = part at below ⊢
  induction part with
  | nil => rfl
  | cons e rest ih =>
    have others := ih fun k' origin es member => below k' origin es (.tail _ member)
    obtain ⟨k', v | ⟨origin, es⟩⟩ := e
    · rw [refreshBelow, others]
      nofun
    · rw [refreshBelow, below k' origin es (.head _), others]

/-! ## Disturbance -/

/-- Merging a source into a document changes the entries of a map that another document shares. -/
def Disturbs (dest source other : Sections) : Prop :=
  ∃ k path origin es es' shared, mapIn? k path dest = some (origin, es) ∧
    mapIn? k path (mergeAll dest source) = some (origin, es') ∧ toEntries es' ≠ toEntries es ∧
    mapIn? k path other = some (origin, shared)

/-- The document itself is disturbed exactly if a map of it takes in something new. -/
theorem disturbs_self_iff (proper : ProperAll dest) (properSource : ProperAll source) :
    Disturbs dest source dest ↔ ∃ k origin es origin' new, lookup k dest = some (.map origin es) ∧
        lookup k source = some (.map origin' new) ∧ toEntries (mergeAll es new) ≠ toEntries es := by
  constructor
  · rintro ⟨k, path, origin, es, es', shared, before, merged, changed, -⟩
    obtain ⟨s, inDest, before⟩ := mapIn?_eq_some.mp before
    obtain ⟨t, inMerged, merged⟩ := mapIn?_eq_some.mp merged
    -- the section at the key is not the same afterwards, or no map below it could have changed
    have other : s ≠ t := by
      rintro rfl
      rw [before] at merged
      cases merged
      exact changed rfl
    cases inSource : lookup k source with
    | none =>
      rw [lookup_mergeAll_of_none inSource, inDest] at inMerged
      exact absurd (Option.some.inj inMerged) other
    | some y =>
      rw [lookup_mergeAll_of_some properSource inSource, inDest] at inMerged
      obtain rfl := Option.some.inj inMerged
      cases y with
      | value v =>
        rw [mergeOver_value, mapAt?_value] at merged
        cases merged
      | map origin' new =>
        cases s with
        | value v =>
          rw [mapAt?_value] at before
          cases before
        | map o old =>
          refine ⟨k, o, old, origin', new, inDest, inSource, fun same => other ?_⟩
          have properOld := proper.of_lookup inDest
          have properNew := properSource.of_lookup inSource
          rw [Proper] at properOld properNew
          rw [mergeOver, mergeAll_eq_of_toEntries properOld properNew same]
  · rintro ⟨k, origin, es, origin', new, inDest, inSource, changed⟩
    have found : mapIn? k [] dest = some (origin, es) :=
      mapIn?_eq_some.mpr ⟨_, inDest, rfl⟩
    refine ⟨k, [], origin, es, mergeAll es new, es, found, ?_, changed, found⟩
    refine mapIn?_eq_some.mpr ⟨.map origin (mergeAll es new), ?_, rfl⟩
    rw [lookup_mergeAll_of_some properSource inSource, inDest, mergeOver]

theorem Disturbs.self (disturbed : Disturbs dest source other) : Disturbs dest source dest := by
  obtain ⟨k, path, origin, es, es', shared, before, merged, changed, -⟩ := disturbed
  exact ⟨k, path, origin, es, es', es, before, merged, changed, before⟩

/-- The other document shares no map with the source. -/
def Apart (source other : Sections) : Prop :=
  ∀ k path origin es es', mapIn? k path source = some (origin, es) →
    mapIn? k path other ≠ some (origin, es')

theorem Agree.mergeAll {dest source other : Sections} (agree : Agree dest other)
    (proper : ProperAll dest) (properSource : ProperAll source) (apart : Apart source other)
    (undisturbed : ¬ Disturbs dest source other) : Agree (mergeAll dest source) other := by
  intro k path origin es' shared merged inOther
  rcases mapIn?_mergeAll properSource merged with ⟨es, new, before, properNew, rfl⟩ | fresh
  · have same : toEntries (Section.mergeAll es new) = toEntries es :=
      Classical.byContradiction fun changed =>
        undisturbed ⟨k, path, origin, es, _, shared, before, merged, changed, inOther⟩
    rw [mergeAll_eq_of_toEntries (proper.of_mapIn? before) properNew same]
    exact agree k path origin es shared before inOther
  · exact absurd inOther (apart k path origin es' shared fresh)

theorem Agree.mergeAll_new (agree : Agree source other) (properSource : ProperAll source)
    (apart : Apart dest other) : Agree (Section.mergeAll dest source) other := by
  intro k path origin es' shared merged inOther
  rcases mapIn?_mergeAll properSource merged with ⟨es, new, before, -, -⟩ | found
  · exact absurd inOther (apart k path origin es shared before)
  · exact agree k path origin es' shared found inOther

/-- The maps of a document come from documents with numbers below a bound. -/
def Below (bound : Nat) (document : Sections) : Prop :=
  ∀ k path origin es, mapIn? k path document = some (origin, es) → origin < bound

theorem below_nil (bound : Nat) : Below bound [] := nofun

theorem Below.succ (below : Below bound document) : Below (bound + 1) document :=
  fun k path origin es found => Nat.lt_succ_of_lt (below k path origin es found)

theorem below_ofEntries (number : Nat) (entries : Entries) :
    Below (number + 1) (ofEntries number entries) := by
  intro k path origin es found
  rw [origin_of_mapIn?_ofEntries found]
  exact Nat.lt_succ_self number

theorem Below.mergeAll (below : Below bound dest) (belowSource : Below bound source)
    (properSource : ProperAll source) : Below bound (Section.mergeAll dest source) := by
  intro k path origin entries merged
  rcases mapIn?_mergeAll properSource merged with ⟨es, new, before, -, -⟩ | found
  · exact below k path origin es before
  · exact belowSource k path origin entries found

theorem apart_ofEntries (below : Below number other) (entries : Entries) :
    Apart (ofEntries number entries) other := by
  intro k path origin es es' found inOther
  have small := below k path origin es' inOther
  rw [origin_of_mapIn?_ofEntries found] at small
  exact Nat.lt_irrefl number small

theorem lookup_refreshAll (k : Key) (changed sections : Sections) :
    lookup k (refreshAll changed sections) =
      (lookup k sections).map (refresh (lookup k changed)) := by
  induction sections with
  | nil =>
    rw [refreshAll]
    rfl
  | cons e rest ih =>
    obtain ⟨k', s⟩ := e
    rw [refreshAll]
    by_cases same : k' = k
    · simp [lookup, same]
    · simpa [lookup, same] using ih

theorem mapAt?_refresh (changed : mapAt? path t = some (origin, es))
    (before : mapAt? path s = some (origin, es')) :
    mapAt? path (refresh (some t) s) = some (origin, es) := by
  induction path generalizing t s with
  | nil =>
    obtain rfl := mapAt?_nil_eq_some.mp changed
    obtain rfl := mapAt?_nil_eq_some.mp before
    simp [refresh, mapAt?]
  | cons k path ih =>
    obtain ⟨o, new, rfl, below⟩ := mapAt?_cons_eq_some.mp changed
    obtain ⟨o', old, rfl, before⟩ := mapAt?_cons_eq_some.mp before
    rw [refresh]
    by_cases same : o' = o
    · rw [if_pos same]
      exact changed
    · obtain ⟨t', inNew, below⟩ := mapIn?_eq_some.mp below
      obtain ⟨s', inOld, before⟩ := mapIn?_eq_some.mp before
      rw [if_neg same, mapAt?, lookup_refreshAll, inOld, inNew]
      exact ih below before

theorem toEntries_of_mapAt? {m' : Nat × Sections} (same : toValue s = toValue t)
    (inS : mapAt? path s = some m) (inT : mapAt? path t = some m') :
    toEntries m.2 = toEntries m'.2 := by
  induction path generalizing s t with
  | nil =>
    obtain rfl := mapAt?_nil_eq_some.mp inS
    obtain rfl := mapAt?_nil_eq_some.mp inT
    exact Value.map.inj same
  | cons k path ih =>
    obtain ⟨o, es, rfl, inS⟩ := mapAt?_cons_eq_some.mp inS
    obtain ⟨o', es', rfl, inT⟩ := mapAt?_cons_eq_some.mp inT
    obtain ⟨s', belowS, inS⟩ := mapIn?_eq_some.mp inS
    obtain ⟨t', belowT, inT⟩ := mapIn?_eq_some.mp inT
    have entries : toEntries es = toEntries es' := Value.map.inj same
    have value := congrArg (lookup k) entries
    rw [lookup_toEntries, lookup_toEntries, belowS, belowT] at value
    exact ih (Option.some.inj value) inS inT

theorem toEntries_refreshAll_ne (agree : Agree dest other) (disturbed : Disturbs dest source other) :
    toEntries (refreshAll (mergeAll dest source) other) ≠ toEntries other := by
  obtain ⟨k, path, origin, es, es', shared, before, merged, changed, inOther⟩ := disturbed
  intro same
  apply changed
  obtain rfl := agree k path origin es shared before inOther
  obtain ⟨t, inMerged, merged⟩ := mapIn?_eq_some.mp merged
  obtain ⟨s, found, inOther⟩ := mapIn?_eq_some.mp inOther
  have after : mapAt? path (refresh (some t) s) = some (origin, es') :=
    mapAt?_refresh merged inOther
  have value := congrArg (lookup k) same
  rw [lookup_toEntries, lookup_toEntries, lookup_refreshAll, found, inMerged] at value
  exact toEntries_of_mapAt? (Option.some.inj value) after inOther

end Section

end SigmaQuery
