import JsonBind.Proofs.Table.Reading

/-!
# What reading tells

Reading an object tells of the object first, and then member by member what each of them
has to tell, in document order. It stops with the first member that breaks the reading,
and that one may have told something before: a nested object tells what its own reader
comes to, and so does each item of an array, up to the one that fails.
-/

namespace JsonBind

def Event.isReading : Event -> Bool
  | .reading _ _ => true
  | .skipping _ _ => false

/-!
# Items
-/

section

variable {υ κ : Type} {read : Value -> κ -> Outcome υ} {context : κ}

/-- What the items of an array tell. The first with which something is wrong is the last that is
read, if it is an object, and is not read if it is none. -/
inductive ItemsTell (read : Value -> κ -> Outcome υ) (context : κ) :
    List Value -> List Event -> Prop where
  | all {items : List Value} {found : List υ} :
      ItemsConvert read context items found ->
      ItemsTell read context items (items.flatMap fun item => (read item context).events)
  | otherItem {before after : List Value} {item : Value} {found : List υ} :
      ItemsConvert read context before found ->
      item.isObject = false ->
      ItemsTell read context (before ++ item :: after)
        (before.flatMap fun item => (read item context).events)
  | nestedItem {before after : List Value} {item : Value} {found : List υ} {e : Error} :
      ItemsConvert read context before found ->
      item.isObject = true ->
      (read item context).result = .error e ->
      ItemsTell read context (before ++ item :: after)
        ((before ++ [item]).flatMap fun item => (read item context).events)

theorem exists_itemsTell (read : Value -> κ -> Outcome υ) (context : κ) (items : List Value) :
    exists told : List Event, ItemsTell read context items told := by
  rcases items_convert_or_object read context 0 items with ⟨found, hitems⟩ |
    ⟨before, after, item, found, objection, rfl, hbefore, hitem⟩
  · exact ⟨_, .all hitems⟩
  · cases hitem with
    | otherItem hobject => exact ⟨_, .otherItem hbefore hobject⟩
    | nestedItem hobject hread => exact ⟨_, .nestedItem hbefore hobject hread⟩

variable {table : String} {field : Field}

theorem events_readItems_append {before : List Value} {found : List υ}
    (h : ItemsConvert read context before found) (index : Nat) (rest : List Value) :
    (readItems table field read context index (before ++ rest)).events =
      before.flatMap (fun item => (read item context).events) ++
        (readItems table field read context (index + before.length) rest).events := by
  induction h generalizing index with
  | nil => rfl
  | cons hitem _ ih =>
      rename_i item first before others _
      rw [List.cons_append, readItems, if_pos hitem.left,
        Outcome.events_bind_of_ok (Outcome.result_mapError_of_ok hitem.right _),
        Outcome.events_bind_pure, ih (index + 1), List.flatMap_cons, List.append_assoc,
        List.length_cons, Nat.add_right_comm, Nat.add_assoc]
      rfl

theorem events_readItems {items : List Value} {told : List Event}
    (h : ItemsTell read context items told) (index : Nat) :
    (readItems table field read context index items).events = told := by
  cases h with
  | all hitems =>
      have hall := @events_readItems_append _ _ _ _ table field _ _ hitems index []
      rw [List.append_nil] at hall
      exact hall.trans (List.append_nil _)
  | otherItem hbefore hobject =>
      rw [events_readItems_append hbefore, readItems, if_neg (by simp [hobject])]
      exact List.append_nil _
  | nestedItem hbefore hobject hread =>
      rw [events_readItems_append hbefore, readItems, if_pos hobject,
        Outcome.events_bind_of_error (Outcome.result_mapError_of_error hread _),
        List.flatMap_append, List.flatMap_singleton]
      rfl

end

/-!
# Columns

Only nested readers tell something.
-/

section

variable {τ κ : Type} {context : κ}

inductive Binding.Tells (context : κ) : Binding τ κ -> Value -> List Event -> Prop where
  | string (set : τ -> String -> τ) (value : Value) : Tells context (.string set) value []
  | long (set : τ -> Int64 -> τ) (value : Value) : Tells context (.long set) value []
  | boolean (set : τ -> Bool -> τ) (value : Value) : Tells context (.boolean set) value []
  | object {υ : Type} (read : Value -> κ -> Outcome υ) (set : τ -> υ -> τ) (value : Value) :
      Tells context (.object read set) value (read value context).events
  | objectArray {υ : Type} {read : Value -> κ -> Outcome υ} (set : τ -> List υ -> τ)
      {items : List Value} {told : List Event} :
      ItemsTell read context items told ->
      Tells context (.objectArray read set) (.array items) told

theorem Binding.exists_tells (context : κ) {binding : Binding τ κ} {value : Value}
    (h : binding.shape.accepts value = true) :
    exists told : List Event, binding.Tells context value told := by
  cases binding with
  | string set => exact ⟨_, .string set value⟩
  | long set => exact ⟨_, .long set value⟩
  | boolean set => exact ⟨_, .boolean set value⟩
  | object read set => exact ⟨_, .object read set value⟩
  | objectArray read set =>
      cases value with
      | array items =>
          rcases exists_itemsTell read context items with ⟨told, hitems⟩
          exact ⟨told, .objectArray set hitems⟩
      | _ => cases h

theorem Column.events_fill {column : Column τ κ} {value : Value} {told : List Event}
    (h : column.binding.Tells context value told) (table : String) (target : τ) :
    (column.fill table context target value).events = told := by
  rcases column with ⟨field, binding⟩
  cases h with
  | string set value =>
      unfold fill
      cases value <;> rfl
  | long set value =>
      unfold fill
      dsimp only
      split
      · rfl
      · rfl
  | boolean set value =>
      unfold fill
      dsimp only
      split
      · rfl
      · rfl
  | object read set value => exact Outcome.events_bind_pure _ _
  | objectArray set hitems =>
      exact (Outcome.events_bind_pure _ _).trans (events_readItems hitems 0)

end

/-!
# Members
-/

namespace Table

variable {τ κ : Type} {table : Table τ κ} {context : κ} {before : Members} {key : String}
  {value : Value}

/-- What a member tells, depending on those before it. A member that is refused by its key or its
shape tells nothing. -/
inductive Tells (table : Table τ κ) (context : κ) (before : Members) (key : String)
    (value : Value) : List Event -> Prop where
  | skipping :
      (forall slot : table.Index, ¬ table.Resolves key slot) ->
      table.lenient = true ->
      Tells table context before key value [.skipping table.name key]
  | column {slot : table.Index} {told : List Event} :
      table.Resolves key slot ->
      (forall earlier : String × Value, earlier ∈ before -> ¬ table.Resolves earlier.1 slot) ->
      (table.columns.get slot).binding.shape.accepts value = true ->
      (table.columns.get slot).binding.Tells context value told ->
      Tells table context before key value told
  | nothing :
      ((forall slot : table.Index, ¬ table.Resolves key slot) -> table.lenient = false) ->
      (forall slot : table.Index, table.Resolves key slot ->
        (exists earlier : String × Value, earlier ∈ before ∧ table.Resolves earlier.1 slot) ∨
          (table.columns.get slot).binding.shape.accepts value = false) ->
      Tells table context before key value []

theorem tells_of_takes {set : τ -> τ} (h : Takes table context before key value set) :
    exists told : List Event, Tells table context before key value told := by
  cases h with
  | skip hunknown hlenient => exact ⟨_, .skipping hunknown hlenient⟩
  | fill hslot hfresh hshape _ =>
      rcases Binding.exists_tells context hshape with ⟨told, htold⟩
      exact ⟨told, .column hslot hfresh hshape htold⟩

theorem tells_of_breaks (hun : table.Unambiguous) {e : Error}
    (h : Breaks table context before key value e) :
    exists told : List Event, Tells table context before key value told := by
  cases h with
  | unknownField hunknown hstrict =>
      exact ⟨[], .nothing (fun _ => hstrict) fun slot hslot => absurd hslot (hunknown slot)⟩
  | duplicate hslot hmem hresolves =>
      refine ⟨[], .nothing (fun hunknown => absurd hslot (hunknown _)) ?_⟩
      intro slot hkey
      rw [hun key slot _ hkey hslot]
      exact Or.inl ⟨_, hmem, hresolves⟩
  | otherShape hslot _ hshape =>
      refine ⟨[], .nothing (fun hunknown => absurd hslot (hunknown _)) ?_⟩
      intro slot hkey
      rw [hun key slot _ hkey hslot]
      exact Or.inr hshape
  | conversion hslot hfresh hshape _ =>
      rcases Binding.exists_tells context hshape with ⟨told, htold⟩
      exact ⟨told, .column hslot hfresh hshape htold⟩

theorem Tells.eq_of_unknown {told : List Event} (h : Tells table context before key value told)
    (hunknown : forall slot : table.Index, ¬ table.Resolves key slot) :
    told = if table.lenient then [.skipping table.name key] else [] := by
  cases h with
  | skipping _ hlenient => rw [if_pos hlenient]
  | column hslot _ _ _ => exact absurd hslot (hunknown _)
  | nothing hstrict _ => rw [if_neg (by simp [hstrict hunknown])]

theorem events_fillColumn (hun : table.Unambiguous) {filled : List table.Index}
    (hfilled : table.FilledBy filled before) {slot : table.Index}
    (hslot : table.Resolves key slot) {told : List Event}
    (h : Tells table context before key value told) (target : τ) :
    (table.fillColumn context filled target slot key value).events = told := by
  cases h with
  | skipping hunknown _ => exact absurd hslot (hunknown slot)
  | column hkey hfresh hshape htold =>
      cases hun key _ _ hslot hkey
      rw [fillColumn_of_accepts (hfilled.not_mem hfresh) hshape]
      exact Column.events_fill htold table.name target
  | nothing _ hrefused =>
      by_cases hmem : slot ∈ filled
      · rw [fillColumn_of_mem hmem]
        rfl
      · rcases hrefused slot hslot with hearlier | hshape
        · exact absurd ((hfilled slot).mpr hearlier) hmem
        · rw [fillColumn_of_otherShape hmem hshape]
          rfl

theorem events_fillAll_cons (hun : table.Unambiguous) {filled : List table.Index}
    (hfilled : table.FilledBy filled before) {told : List Event}
    (h : Tells table context before key value told) (target : τ) :
    exists filled' : List table.Index, table.FilledBy filled' (before ++ [(key, value)]) ∧
      forall rest : Members,
        (table.fillAll context filled target ((key, value) :: rest)).events =
          told ++
            match (table.fillAll context filled target [(key, value)]).result with
            | .ok next => (table.fillAll context filled' next rest).events
            | .error _ => [] := by
  cases hfind : table.find? key with
  | none =>
      have hunknown := find?_eq_none_iff.mp hfind
      refine ⟨filled, hfilled.skip value hunknown, ?_⟩
      intro rest
      rw [h.eq_of_unknown hunknown, fillAll_cons_of_unknown hunknown,
        fillAll_cons_of_unknown hunknown]
      split
      · rfl
      · rfl
  | some slot =>
      have hslot := resolves_of_find? hfind
      refine ⟨slot :: filled, hfilled.fill hun value hslot, ?_⟩
      intro rest
      have hone : table.fillAll context filled target [(key, value)] =
          table.fillColumn context filled target slot key value := by
        rw [fillAll_cons_of_find? hfind]
        exact bind_pure _
      rw [← events_fillColumn hun hfilled hslot h target, hone, fillAll_cons_of_find? hfind]
      cases hcolumn : (table.fillColumn context filled target slot key value).result with
      | ok next => exact Outcome.events_bind_of_ok hcolumn
      | error e => exact (Outcome.events_bind_of_error hcolumn).trans (List.append_nil _).symm

/-!
# Objects
-/

inductive TellsAll (table : Table τ κ) (context : κ) :
    Members -> Members -> List Event -> Prop where
  | nil (before : Members) : TellsAll table context before [] []
  | takes {before rest : Members} {key : String} {value : Value} {set : τ -> τ}
      {told others : List Event} :
      Takes table context before key value set ->
      Tells table context before key value told ->
      TellsAll table context (before ++ [(key, value)]) rest others ->
      TellsAll table context before ((key, value) :: rest) (told ++ others)
  | breaks {before rest : Members} {key : String} {value : Value} {e : Error}
      {told : List Event} :
      Breaks table context before key value e ->
      Tells table context before key value told ->
      TellsAll table context before ((key, value) :: rest) told

theorem exists_tellsAll (hun : table.Unambiguous) (context : κ) (before members : Members) :
    exists told : List Event, TellsAll table context before members told := by
  induction members generalizing before with
  | nil => exact ⟨[], .nil before⟩
  | cons member members ih =>
      rcases member with ⟨key, value⟩
      rcases takes_or_breaks table context before key value with ⟨set, htakes⟩ | ⟨e, hbreaks⟩
      · rcases tells_of_takes htakes with ⟨told, htold⟩
        rcases ih (before ++ [(key, value)]) with ⟨others, hothers⟩
        exact ⟨told ++ others, .takes htakes htold hothers⟩
      · rcases tells_of_breaks hun hbreaks with ⟨told, htold⟩
        exact ⟨told, .breaks hbreaks htold⟩

theorem events_fillAll (hun : table.Unambiguous) {members : Members} {told : List Event}
    (h : TellsAll table context before members told) {filled : List table.Index}
    (hfilled : table.FilledBy filled before) (target : τ) :
    (table.fillAll context filled target members).events = told := by
  induction h generalizing filled target with
  | nil _ => rfl
  | takes htakes htold _ ih =>
      rcases events_fillAll_cons hun hfilled htold target with ⟨filled', hfilled', hevents⟩
      rcases fillAll_cons_of_takes hun hfilled htakes with ⟨_, _, hresult⟩
      rw [hevents, hresult target []]
      exact congrArg _ (ih hfilled' _)
  | breaks hbreaks htold =>
      rcases events_fillAll_cons hun hfilled htold target with ⟨_, _, hevents⟩
      rw [hevents, fillAll_cons_of_breaks hun hfilled hbreaks target []]
      exact List.append_nil _

theorem events_read_object_iff (hun : table.Unambiguous) {members : Members}
    {events : List Event} :
    (table.read (.object members) context).events = events <->
      exists told : List Event, TellsAll table context [] members told ∧
        events = .reading table.name members.length :: told := by
  have htells : forall told : List Event, TellsAll table context [] members told ->
      (table.read (.object members) context).events =
        .reading table.name members.length :: told := by
    intro told htold
    rw [← events_fillAll hun htold table.filledBy_nil table.empty]
    exact Outcome.events_tell_bind _ _
  constructor
  · intro h
    rcases exists_tellsAll hun context [] members with ⟨told, htold⟩
    exact ⟨told, htold, h.symm.trans (htells told htold)⟩
  · intro h
    rcases h with ⟨told, htold, rfl⟩
    exact htells told htold

theorem events_read_of_not_isObject {v : Value} (h : v.isObject = false) :
    (table.read v context).events = [] := by
  cases v with
  | object members => cases h
  | _ => rfl

/-- What holds of the events of skipped members, and of those that columns tell, holds of all that
members tell. -/
theorem TellsAll.forall_mem {members : Members} {told : List Event}
    (h : TellsAll table context before members told) (holds : Event -> Prop)
    (hskip : forall key : String, table.lenient = true -> holds (.skipping table.name key))
    (hcolumn : forall (slot : table.Index) (v : Value) (told : List Event),
      (table.columns.get slot).binding.Tells context v told ->
        forall event : Event, event ∈ told -> holds event) :
    forall event : Event, event ∈ told -> holds event := by
  have hmember : forall {before : Members} {key : String} {value : Value} {told : List Event},
      Tells table context before key value told ->
        forall event : Event, event ∈ told -> holds event := by
    intro before key value told htold event hmem
    cases htold with
    | skipping _ hlenient =>
        rw [List.mem_singleton.mp hmem]
        exact hskip key hlenient
    | column _ _ _ htold => exact hcolumn _ _ _ htold event hmem
    | nothing _ _ => cases hmem
  induction h with
  | nil _ =>
      intro event hmem
      cases hmem
  | takes _ htold _ ih =>
      intro event hmem
      rcases List.mem_append.mp hmem with hfirst | hrest
      · exact hmember htold event hfirst
      · exact ih event hrest
  | breaks _ htold => exact hmember htold

end Table
end JsonBind
