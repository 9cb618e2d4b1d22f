import JsonBind.Proofs.Table.Columns
import JsonBind.Proofs.Table.Conversion

/-!
# What a table reads

A table takes the members of an object in order. Each of them either is taken, as a
change of what is being built, or breaks the reading with one error. Which of the
two it is depends on the members before it only by the fields that those belong to.

The main statement says this for whole objects: which of them can be read, what they
are read to, and which error is the one that counts.
-/

namespace JsonBind
namespace Table

variable {τ κ : Type}

inductive Takes (table : Table τ κ) (context : κ) (before : Members) (key : String)
    (value : Value) : (τ -> τ) -> Prop where
  | skip :
      (forall slot : table.Index, ¬ table.Resolves key slot) ->
      table.lenient = true ->
      Takes table context before key value id
  | fill {slot : table.Index} {set : τ -> τ} :
      table.Resolves key slot ->
      (forall earlier : String × Value, earlier ∈ before -> ¬ table.Resolves earlier.1 slot) ->
      (table.columns.get slot).binding.shape.accepts value = true ->
      (table.columns.get slot).binding.Converts context value set ->
      Takes table context before key value set

/-- A member with which reading stops, and the error. Each case excludes those above it. -/
inductive Breaks (table : Table τ κ) (context : κ) (before : Members) (key : String)
    (value : Value) : Error -> Prop where
  | unknownField :
      (forall slot : table.Index, ¬ table.Resolves key slot) ->
      table.lenient = false ->
      Breaks table context before key value (.unknownField table.name key)
  | duplicate {slot : table.Index} {earlier : String × Value} :
      table.Resolves key slot ->
      earlier ∈ before ->
      table.Resolves earlier.1 slot ->
      Breaks table context before key value
        ((Objection.duplicate key).error table.name (table.columns.get slot).field)
  | otherShape {slot : table.Index} :
      table.Resolves key slot ->
      (forall earlier : String × Value, earlier ∈ before -> ¬ table.Resolves earlier.1 slot) ->
      (table.columns.get slot).binding.shape.accepts value = false ->
      Breaks table context before key value
        ((Objection.otherShape (table.columns.get slot).binding.shape value).error table.name
          (table.columns.get slot).field)
  | conversion {slot : table.Index} {objection : Objection} :
      table.Resolves key slot ->
      (forall earlier : String × Value, earlier ∈ before -> ¬ table.Resolves earlier.1 slot) ->
      (table.columns.get slot).binding.shape.accepts value = true ->
      (table.columns.get slot).binding.Objects context value objection ->
      Breaks table context before key value
        (objection.error table.name (table.columns.get slot).field)

theorem takes_or_breaks (table : Table τ κ) (context : κ) (before : Members) (key : String)
    (value : Value) :
    (exists set : τ -> τ, Takes table context before key value set) ∨
      exists e : Error, Breaks table context before key value e := by
  by_cases hdeclared : exists slot : table.Index, table.Resolves key slot
  · rcases hdeclared with ⟨slot, hslot⟩
    by_cases hearlier : exists earlier : String × Value,
        earlier ∈ before ∧ table.Resolves earlier.1 slot
    · rcases hearlier with ⟨earlier, hmem, hresolves⟩
      exact Or.inr ⟨_, .duplicate hslot hmem hresolves⟩
    · have hfresh : forall earlier : String × Value, earlier ∈ before ->
          ¬ table.Resolves earlier.1 slot := by
        intro earlier hmem hresolves
        exact hearlier ⟨earlier, hmem, hresolves⟩
      cases hshape : (table.columns.get slot).binding.shape.accepts value with
      | false => exact Or.inr ⟨_, .otherShape hslot hfresh hshape⟩
      | true =>
          rcases Binding.converts_or_objects context hshape with ⟨set, hset⟩ | ⟨objection, h⟩
          · exact Or.inl ⟨set, .fill hslot hfresh hshape hset⟩
          · exact Or.inr ⟨_, .conversion hslot hfresh hshape h⟩
  · have hunknown : forall slot : table.Index, ¬ table.Resolves key slot := by
      intro slot hslot
      exact hdeclared ⟨slot, hslot⟩
    cases hlenient : table.lenient with
    | true => exact Or.inl ⟨id, .skip hunknown hlenient⟩
    | false => exact Or.inr ⟨_, .unknownField hunknown hlenient⟩

/-!
# One member

The table keeps the columns that are filled. They are those of the members before.
-/

def FilledBy (table : Table τ κ) (filled : List table.Index) (before : Members) : Prop :=
  forall slot : table.Index, slot ∈ filled <->
    exists earlier : String × Value, earlier ∈ before ∧ table.Resolves earlier.1 slot

theorem filledBy_nil (table : Table τ κ) : table.FilledBy [] [] := by
  intro slot
  constructor
  · intro h
    cases h
  · rintro ⟨_, h, _⟩
    cases h

namespace FilledBy

variable {table : Table τ κ} {filled : List table.Index} {before : Members}

theorem not_mem (h : table.FilledBy filled before) {slot : table.Index}
    (hfresh : forall earlier : String × Value, earlier ∈ before ->
      ¬ table.Resolves earlier.1 slot) : slot ∉ filled := by
  intro hmem
  rcases (h slot).mp hmem with ⟨earlier, hearlier, hresolves⟩
  exact hfresh earlier hearlier hresolves

theorem skip (h : table.FilledBy filled before) {key : String} (value : Value)
    (hunknown : forall slot : table.Index, ¬ table.Resolves key slot) :
    table.FilledBy filled (before ++ [(key, value)]) := by
  intro slot
  rw [h slot]
  constructor
  · rintro ⟨earlier, hmem, hresolves⟩
    exact ⟨earlier, List.mem_append_left _ hmem, hresolves⟩
  · rintro ⟨earlier, hmem, hresolves⟩
    rcases List.mem_append.mp hmem with hold | hnew
    · exact ⟨earlier, hold, hresolves⟩
    · rw [List.mem_singleton.mp hnew] at hresolves
      exact absurd hresolves (hunknown slot)

theorem fill (h : table.FilledBy filled before) (hun : table.Unambiguous) {key : String}
    (value : Value) {slot : table.Index} (hslot : table.Resolves key slot) :
    table.FilledBy (slot :: filled) (before ++ [(key, value)]) := by
  intro other
  rw [List.mem_cons, h other]
  constructor
  · rintro (rfl | ⟨earlier, hmem, hresolves⟩)
    · exact ⟨(key, value), by simp, hslot⟩
    · exact ⟨earlier, List.mem_append_left _ hmem, hresolves⟩
  · rintro ⟨earlier, hmem, hresolves⟩
    rcases List.mem_append.mp hmem with hold | hnew
    · exact Or.inr ⟨earlier, hold, hresolves⟩
    · rw [List.mem_singleton.mp hnew] at hresolves
      exact Or.inl (hun key other slot hresolves hslot)

end FilledBy

section

variable {table : Table τ κ} {context : κ} {filled : List table.Index} {slot : table.Index}

theorem fillColumn_of_mem (h : slot ∈ filled) (target : τ) (key : String) (value : Value) :
    table.fillColumn context filled target slot key value =
      .fail ((Objection.duplicate key).error table.name (table.columns.get slot).field) :=
  if_pos h

theorem fillColumn_of_otherShape (hfresh : slot ∉ filled) {value : Value}
    (hshape : (table.columns.get slot).binding.shape.accepts value = false) (target : τ)
    (key : String) :
    table.fillColumn context filled target slot key value =
      .fail ((Objection.otherShape (table.columns.get slot).binding.shape value).error table.name
        (table.columns.get slot).field) := by
  rw [fillColumn]
  dsimp only
  rw [if_neg hfresh, if_neg (by rw [hshape]; exact Bool.false_ne_true)]

theorem fillColumn_of_accepts (hfresh : slot ∉ filled) {value : Value}
    (hshape : (table.columns.get slot).binding.shape.accepts value = true) (target : τ)
    (key : String) :
    table.fillColumn context filled target slot key value =
      (table.columns.get slot).fill table.name context target value := by
  rw [fillColumn]
  dsimp only
  rw [if_neg hfresh, if_pos hshape]

theorem fillAll_cons_of_find? {key : String} (hfind : table.find? key = some slot) (target : τ)
    (value : Value) (rest : Members) :
    table.fillAll context filled target ((key, value) :: rest) = (do
      let target ← table.fillColumn context filled target slot key value
      table.fillAll context (slot :: filled) target rest) := by
  rw [fillAll, hfind]

theorem fillAll_cons_of_unknown {key : String}
    (hunknown : forall slot : table.Index, ¬ table.Resolves key slot) (target : τ)
    (value : Value) (rest : Members) :
    table.fillAll context filled target ((key, value) :: rest) =
      if table.lenient then do
        .tell (.skipping table.name key)
        table.fillAll context filled target rest
      else .fail (.unknownField table.name key) := by
  rw [fillAll, find?_eq_none_iff.mpr hunknown]

end

theorem fillAll_cons_of_converts {table : Table τ κ} {context : κ} {filled : List table.Index}
    {key : String} {value : Value} {slot : table.Index} {set : τ -> τ}
    (hfind : table.find? key = some slot) (hfresh : slot ∉ filled)
    (hshape : (table.columns.get slot).binding.shape.accepts value = true)
    (hset : (table.columns.get slot).binding.Converts context value set) (target : τ)
    (rest : Members) :
    (table.fillAll context filled target ((key, value) :: rest)).result =
      (table.fillAll context (slot :: filled) (set target) rest).result := by
  rw [fillAll_cons_of_find? hfind]
  apply Outcome.result_bind_of_ok
  rw [fillColumn_of_accepts hfresh hshape]
  exact Column.fill_of_converts hset table.name target

theorem fillAll_cons_of_takes {table : Table τ κ} (hun : table.Unambiguous) {context : κ}
    {filled : List table.Index} {before : Members} (hfilled : table.FilledBy filled before)
    {key : String} {value : Value} {set : τ -> τ}
    (h : Takes table context before key value set) :
    exists filled' : List table.Index,
      table.FilledBy filled' (before ++ [(key, value)]) ∧
        forall (target : τ) (rest : Members),
          (table.fillAll context filled target ((key, value) :: rest)).result =
            (table.fillAll context filled' (set target) rest).result := by
  cases h with
  | skip hunknown hlenient =>
      refine ⟨filled, hfilled.skip value hunknown, ?_⟩
      intro target rest
      rw [fillAll_cons_of_unknown hunknown, if_pos hlenient]
      exact Outcome.result_tell_bind _ _
  | fill hslot hfresh hshape hset =>
      rename_i slot
      refine ⟨slot :: filled, hfilled.fill hun value hslot, ?_⟩
      intro target rest
      exact fillAll_cons_of_converts ((find?_eq_some_iff hun).mpr hslot) (hfilled.not_mem hfresh)
        hshape hset target rest

theorem fillAll_cons_of_breaks {table : Table τ κ} (hun : table.Unambiguous) {context : κ}
    {filled : List table.Index} {before : Members} (hfilled : table.FilledBy filled before)
    {key : String} {value : Value} {e : Error} (h : Breaks table context before key value e)
    (target : τ) (rest : Members) :
    (table.fillAll context filled target ((key, value) :: rest)).result = .error e := by
  cases h with
  | unknownField hunknown hlenient =>
      rw [fillAll_cons_of_unknown hunknown, if_neg (by simp [hlenient])]
      rfl
  | duplicate hslot hmem hresolves =>
      rename_i slot earlier
      have hfull : slot ∈ filled := (hfilled slot).mpr ⟨earlier, hmem, hresolves⟩
      rw [fillAll_cons_of_find? ((find?_eq_some_iff hun).mpr hslot), fillColumn_of_mem hfull]
      rfl
  | otherShape hslot hfresh hshape =>
      rw [fillAll_cons_of_find? ((find?_eq_some_iff hun).mpr hslot),
        fillColumn_of_otherShape (hfilled.not_mem hfresh) hshape]
      rfl
  | conversion hslot hfresh hshape hobjects =>
      rw [fillAll_cons_of_find? ((find?_eq_some_iff hun).mpr hslot),
        fillColumn_of_accepts (hfilled.not_mem hfresh) hshape]
      exact Outcome.result_bind_of_error (Column.fill_of_objects hobjects table.name target)

/-!
# All members
-/

inductive TakesAll (table : Table τ κ) (context : κ) : Members -> Members -> (τ -> τ) -> Prop where
  | nil (before : Members) : TakesAll table context before [] id
  | cons {before rest : Members} {key : String} {value : Value} {set sets : τ -> τ} :
      Takes table context before key value set ->
      TakesAll table context (before ++ [(key, value)]) rest sets ->
      TakesAll table context before ((key, value) :: rest) (sets ∘ set)

theorem fillAll_of_takesAll {table : Table τ κ} (hun : table.Unambiguous) {context : κ}
    {before members : Members} {sets : τ -> τ} (h : TakesAll table context before members sets) :
    forall (filled : List table.Index) (target : τ), table.FilledBy filled before ->
      (table.fillAll context filled target members).result = .ok (sets target) := by
  induction h with
  | nil _ =>
      intro filled target _
      rfl
  | cons first _ ih =>
      intro filled target hfilled
      rcases fillAll_cons_of_takes hun hfilled first with ⟨filled', hfilled', hstep⟩
      rw [hstep, ih filled' _ hfilled']
      rfl

theorem fillAll_of_breaks {table : Table τ κ} (hun : table.Unambiguous) {context : κ}
    {before taken : Members} {sets : τ -> τ} (h : TakesAll table context before taken sets)
    {key : String} {value : Value} {e : Error} (rest : Members)
    (hbreaks : Breaks table context (before ++ taken) key value e) :
    forall (filled : List table.Index) (target : τ), table.FilledBy filled before ->
      (table.fillAll context filled target (taken ++ (key, value) :: rest)).result = .error e := by
  induction h with
  | nil _ =>
      intro filled target hfilled
      rw [List.append_nil] at hbreaks
      exact fillAll_cons_of_breaks hun hfilled hbreaks target rest
  | cons first _ ih =>
      intro filled target hfilled
      rcases fillAll_cons_of_takes hun hfilled first with ⟨filled', hfilled', hstep⟩
      rw [List.cons_append, hstep]
      apply ih _ filled' _ hfilled'
      rw [List.append_assoc]
      exact hbreaks

theorem TakesAll.snoc {table : Table τ κ} {context : κ} {before members : Members}
    {sets : τ -> τ} (h : TakesAll table context before members sets) {key : String}
    {value : Value} {set : τ -> τ}
    (hlast : Takes table context (before ++ members) key value set) :
    TakesAll table context before (members ++ [(key, value)]) (set ∘ sets) := by
  induction h with
  | nil before =>
      rw [List.append_nil] at hlast
      rw [Function.comp_id, ← Function.id_comp set]
      exact .cons hlast (.nil _)
  | cons first _ ih =>
      rw [List.append_cons] at hlast
      rw [← Function.comp_assoc]
      exact .cons first (ih hlast)

theorem takesAll_or_breaks (table : Table τ κ) (context : κ) (before members : Members) :
    (exists sets : τ -> τ, TakesAll table context before members sets) ∨
      exists (taken rest : Members) (key : String) (value : Value) (sets : τ -> τ) (e : Error),
        members = taken ++ (key, value) :: rest ∧ TakesAll table context before taken sets ∧
          Breaks table context (before ++ taken) key value e := by
  induction members generalizing before with
  | nil => exact Or.inl ⟨id, .nil before⟩
  | cons member members ih =>
      rcases member with ⟨key, value⟩
      rcases takes_or_breaks table context before key value with ⟨set, hset⟩ | ⟨e, hbreaks⟩
      · rcases ih (before ++ [(key, value)]) with ⟨sets, hsets⟩ |
          ⟨taken, rest, key', value', sets, e, rfl, htaken, hbreaks⟩
        · exact Or.inl ⟨sets ∘ set, .cons hset hsets⟩
        · refine Or.inr ⟨(key, value) :: taken, rest, key', value', sets ∘ set, e, rfl,
            .cons hset htaken, ?_⟩
          rw [List.append_assoc] at hbreaks
          exact hbreaks
      · refine Or.inr ⟨[], members, key, value, id, e, rfl, .nil before, ?_⟩
        rw [List.append_nil]
        exact hbreaks

/-!
# Readable objects

The same conditions once more, for an object as a whole instead of one member after
the other.
-/

structure Readable (table : Table τ κ) (context : κ) (members : Members) : Prop where
  declared : table.lenient = true ∨
    forall member : String × Value, member ∈ members ->
      exists slot : table.Index, table.Resolves member.1 slot
  once : members.Pairwise fun first second =>
    forall slot : table.Index, table.Resolves first.1 slot -> ¬ table.Resolves second.1 slot
  converts : forall (member : String × Value) (slot : table.Index), member ∈ members ->
    table.Resolves member.1 slot ->
      (table.columns.get slot).binding.shape.accepts member.2 = true ∧
        exists set : τ -> τ, (table.columns.get slot).binding.Converts context member.2 set

/-- The setters of the fields that are present, applied in order to what their values convert to. -/
inductive Sets (table : Table τ κ) (context : κ) : Members -> (τ -> τ) -> Prop where
  | nil : Sets table context [] id
  | skip {key : String} {value : Value} {rest : Members} {sets : τ -> τ} :
      (forall slot : table.Index, ¬ table.Resolves key slot) ->
      Sets table context rest sets ->
      Sets table context ((key, value) :: rest) sets
  | set {key : String} {value : Value} {rest : Members} {slot : table.Index} {set sets : τ -> τ} :
      table.Resolves key slot ->
      (table.columns.get slot).binding.Converts context value set ->
      Sets table context rest sets ->
      Sets table context ((key, value) :: rest) (sets ∘ set)

theorem sets_of_takesAll {table : Table τ κ} {context : κ} {before members : Members}
    {sets : τ -> τ} (h : TakesAll table context before members sets) :
    Sets table context members sets := by
  induction h with
  | nil _ => exact .nil
  | cons first _ ih =>
      cases first with
      | skip hunknown _ => exact .skip hunknown ih
      | fill hslot _ _ hset => exact .set hslot hset ih

theorem converts_unique {column : Column τ κ} {context : κ} {value : Value} {set set' : τ -> τ}
    (h : column.binding.Converts context value set)
    (h' : column.binding.Converts context value set') : set = set' := by
  funext target
  have hfill := Column.fill_of_converts h "" target
  rw [Column.fill_of_converts h' "" target] at hfill
  exact (Except.ok.inj hfill).symm

theorem sets_unique {table : Table τ κ} (hun : table.Unambiguous) {context : κ}
    {members : Members} {sets sets' : τ -> τ} (h : Sets table context members sets)
    (h' : Sets table context members sets') : sets = sets' := by
  induction h generalizing sets' with
  | nil =>
      cases h'
      rfl
  | skip hunknown _ ih =>
      cases h' with
      | skip _ hrest => exact ih hrest
      | set hslot _ _ => exact absurd hslot (hunknown _)
  | set hslot hset _ ih =>
      cases h' with
      | skip hunknown _ => exact absurd hslot (hunknown _)
      | set hslot' hset' hrest =>
          cases hun _ _ _ hslot hslot'
          rw [ih hrest, converts_unique hset hset']

/-!
# From members to objects, and back
-/

theorem pairwise_snoc_of_takes {table : Table τ κ} (hun : table.Unambiguous) {context : κ}
    {before : Members} {key : String} {value : Value} {set : τ -> τ}
    (h : Takes table context before key value set)
    (hbefore : before.Pairwise fun first second =>
      forall slot : table.Index, table.Resolves first.1 slot -> ¬ table.Resolves second.1 slot) :
    (before ++ [(key, value)]).Pairwise fun first second =>
      forall slot : table.Index, table.Resolves first.1 slot -> ¬ table.Resolves second.1 slot := by
  rw [List.pairwise_append]
  refine ⟨hbefore, List.pairwise_singleton _ _, ?_⟩
  intro earlier hmem new hnew slot hearlier hslot
  rw [List.mem_singleton.mp hnew] at hslot
  cases h with
  | skip hunknown _ => exact hunknown slot hslot
  | fill hkey hfresh _ _ =>
      rw [hun key slot _ hslot hkey] at hearlier
      exact hfresh earlier hmem hearlier

theorem readable_of_takesAll {table : Table τ κ} (hun : table.Unambiguous) {context : κ}
    {before members : Members} {sets : τ -> τ} (h : TakesAll table context before members sets)
    (hbefore : Readable table context before) : Readable table context (before ++ members) := by
  induction h with
  | nil before => simpa using hbefore
  | cons first _ ih =>
      rename_i before rest key value set sets _
      have hlonger : Readable table context (before ++ [(key, value)]) := by
        constructor
        · cases first with
          | skip _ hlenient => exact Or.inl hlenient
          | fill hslot _ _ _ =>
              rcases hbefore.declared with hlenient | hdeclared
              · exact Or.inl hlenient
              · apply Or.inr
                intro member hmem
                rcases List.mem_append.mp hmem with hold | hnew
                · exact hdeclared member hold
                · rw [List.mem_singleton.mp hnew]
                  exact ⟨_, hslot⟩
        · exact pairwise_snoc_of_takes hun first hbefore.once
        · intro member slot hmem hresolves
          rcases List.mem_append.mp hmem with hold | hnew
          · exact hbefore.converts member slot hold hresolves
          · rw [List.mem_singleton.mp hnew] at hresolves ⊢
            cases first with
            | skip hunknown _ => exact absurd hresolves (hunknown slot)
            | fill hslot _ hshape hset =>
                cases hun key _ _ hslot hresolves
                exact ⟨hshape, _, hset⟩
      simpa using ih hlonger

theorem readable_nil (table : Table τ κ) (context : κ) : Readable table context [] where
  declared := Or.inr (by intro member hmem; cases hmem)
  once := List.Pairwise.nil
  converts member slot hmem := by cases hmem

theorem not_breaks_of_readable {table : Table τ κ} {context : κ}
    {taken rest : Members} {key : String} {value : Value} {e : Error}
    (h : Readable table context (taken ++ (key, value) :: rest)) :
    ¬ Breaks table context taken key value e := by
  have hmem : (key, value) ∈ taken ++ (key, value) :: rest := by simp
  intro hbreaks
  cases hbreaks with
  | unknownField hunknown hstrict =>
      rcases h.declared with hlenient | hdeclared
      · rw [hstrict] at hlenient
        cases hlenient
      · rcases hdeclared _ hmem with ⟨slot, hslot⟩
        exact hunknown slot hslot
  | duplicate hslot hearlier hresolves =>
      have hcross := (List.pairwise_append.mp h.once).right.right
      exact hcross _ hearlier _ List.mem_cons_self _ hresolves hslot
  | otherShape hslot _ hshape =>
      rw [(h.converts _ _ hmem hslot).left] at hshape
      cases hshape
  | conversion hslot _ _ hobjects =>
      rcases (h.converts _ _ hmem hslot).right with ⟨set, hset⟩
      have hfill := Column.fill_of_converts hset "" table.empty
      rw [Column.fill_of_objects hobjects] at hfill
      cases hfill

theorem takesAll_of_readable {table : Table τ κ} {context : κ} {members : Members}
    (h : Readable table context members) :
    exists sets : τ -> τ, TakesAll table context [] members sets := by
  rcases takesAll_or_breaks table context [] members with htakes |
    ⟨taken, rest, key, value, sets, e, rfl, _, hbreaks⟩
  · exact htakes
  · exact absurd hbreaks (not_breaks_of_readable h)

/-!
# Whole objects
-/

theorem result_read_object (table : Table τ κ) (members : Members) (context : κ) :
    (table.read (.object members) context).result =
      (table.fillAll context [] table.empty members).result :=
  Outcome.result_tell_bind _ _

theorem isObject_of_result_read {table : Table τ κ} {value : Value} {context : κ} {target : τ}
    (h : (table.read value context).result = .ok target) :
    exists members : Members, value = .object members := by
  cases value with
  | object members => exact ⟨members, rfl⟩
  | _ => cases h

theorem result_read_of_takesAll {table : Table τ κ} (hun : table.Unambiguous) {context : κ}
    {members : Members} {sets : τ -> τ} (h : TakesAll table context [] members sets) :
    (table.read (.object members) context).result = .ok (sets table.empty) := by
  rw [result_read_object]
  exact fillAll_of_takesAll hun h [] table.empty table.filledBy_nil

theorem result_read_of_breaks {table : Table τ κ} (hun : table.Unambiguous) {context : κ}
    {taken : Members} {sets : τ -> τ} (h : TakesAll table context [] taken sets) {key : String}
    {value : Value} {e : Error} (hbreaks : Breaks table context taken key value e)
    (rest : Members) :
    (table.read (.object (taken ++ (key, value) :: rest)) context).result = .error e := by
  rw [result_read_object]
  exact fillAll_of_breaks hun h rest hbreaks [] table.empty table.filledBy_nil

structure Arrives (table : Table τ κ) (context : κ) (taken : Members) (key : String)
    (slot : table.Index) : Prop where
  readable : Readable table context taken
  resolves : table.Resolves key slot
  fresh : forall earlier : String × Value, earlier ∈ taken -> ¬ table.Resolves earlier.1 slot

theorem arrives_first {table : Table τ κ} {context : κ} {key : String} {slot : table.Index}
    (h : table.Resolves key slot) : table.Arrives context [] key slot where
  readable := readable_nil table context
  resolves := h
  fresh := by
    intro earlier hmem
    cases hmem

theorem result_read_snoc {table : Table τ κ} (hun : table.Unambiguous) {context : κ}
    {taken : Members} {key : String} {v : Value} {target : τ} {change : τ -> τ}
    (hread : (table.read (.object taken) context).result = .ok target)
    (h : Takes table context taken key v change) :
    (table.read (.object (taken ++ [(key, v)])) context).result = .ok (change target) := by
  rcases takesAll_or_breaks table context [] taken with ⟨sets, htaken⟩ |
    ⟨before, rest, other, w, sets, e, rfl, hbefore, hbreaks⟩
  · rw [result_read_of_takesAll hun htaken] at hread
    cases hread
    rw [result_read_of_takesAll hun (htaken.snoc h)]
    rfl
  · rw [result_read_of_breaks hun hbefore hbreaks rest] at hread
    cases hread

theorem Arrives.exists_result_read {table : Table τ κ} (hun : table.Unambiguous) {context : κ}
    {taken : Members} {key : String} {slot : table.Index}
    (h : table.Arrives context taken key slot) :
    exists target : τ, (table.read (.object taken) context).result = .ok target := by
  rcases takesAll_of_readable h.readable with ⟨sets, htaken⟩
  exact ⟨_, result_read_of_takesAll hun htaken⟩

theorem result_read_eq_ok_iff {table : Table τ κ} (hun : table.Unambiguous) {value : Value}
    {context : κ} {target : τ} :
    (table.read value context).result = .ok target <->
      exists (members : Members) (sets : τ -> τ), value = .object members ∧
        Readable table context members ∧ Sets table context members sets ∧
          target = sets table.empty := by
  constructor
  · intro hresult
    rcases isObject_of_result_read hresult with ⟨members, rfl⟩
    rcases takesAll_or_breaks table context [] members with ⟨sets, htakes⟩ |
      ⟨taken, rest, key, v, sets, e, rfl, htaken, hbreaks⟩
    · have hreadable := readable_of_takesAll hun htakes (readable_nil table context)
      rw [result_read_of_takesAll hun htakes] at hresult
      exact ⟨members, sets, rfl, hreadable, sets_of_takesAll htakes,
        (Except.ok.inj hresult).symm⟩
    · rw [result_read_of_breaks hun htaken hbreaks rest] at hresult
      cases hresult
  · rintro ⟨members, sets, rfl, hreadable, hsets, rfl⟩
    rcases takesAll_of_readable hreadable with ⟨sets', htakes⟩
    rw [sets_unique hun hsets (sets_of_takesAll htakes)]
    exact result_read_of_takesAll hun htakes

theorem result_read_eq_error_iff {table : Table τ κ} (hun : table.Unambiguous)
    {members : Members} {context : κ} {e : Error} :
    (table.read (.object members) context).result = .error e <->
      exists (taken rest : Members) (key : String) (v : Value),
        members = taken ++ (key, v) :: rest ∧ Readable table context taken ∧
          Breaks table context taken key v e := by
  constructor
  · intro hresult
    rcases takesAll_or_breaks table context [] members with ⟨sets, htakes⟩ |
      ⟨taken, rest, key, v, sets, found, rfl, htaken, hbreaks⟩
    · rw [result_read_of_takesAll hun htakes] at hresult
      cases hresult
    · have hreadable := readable_of_takesAll hun htaken (readable_nil table context)
      rw [result_read_of_breaks hun htaken hbreaks rest] at hresult
      cases hresult
      exact ⟨taken, rest, key, v, rfl, hreadable, hbreaks⟩
  · rintro ⟨taken, rest, key, v, rfl, hreadable, hbreaks⟩
    rcases takesAll_of_readable hreadable with ⟨sets, htaken⟩
    exact result_read_of_breaks hun htaken hbreaks rest

def counts : Table (Option Int64) Unit where
  name := "counts"
  lenient := true
  empty := none
  columns := [⟨⟨"count", ["dc"]⟩, .long fun _ n => some n⟩]

theorem resolves_counts (key : String) (slot : counts.Index) :
    counts.Resolves key slot <-> key = "count" ∨ key = "dc" := by
  rcases slot with ⟨i, hi⟩
  have hzero : i = 0 := Nat.lt_one_iff.mp hi
  subst hzero
  change key ∈ ["count", "dc"] <-> _
  simp

end Table
end JsonBind
