import JsonBind.Table
import JsonBind.Proofs.Outcome

/-!
# Contexts

A table hands the context that it is given to its nested readers, and does nothing else with
it. So in a tree of tables it is only the nested readers that can make use of the context:
they may note it before they read, and record it with what was read. All else is the same in
every context: what is visited, whether reading fails and with which error, and how the
result is put together.
-/

namespace JsonBind

variable {τ κ υ α β : Type}

/-!
# Runs in all contexts
-/

/-- Runs that differ in their contexts alone. They tell the same events, made of the context in the
same way, and they fail with the same error or have results that are made of the context in the
same way. -/
def Uniform (told : (κ -> Event) -> Prop) (made : (κ -> α) -> Prop) (run : κ -> Outcome α) : Prop :=
  exists events : List (κ -> Event),
    (forall event : κ -> Event, event ∈ events -> told event) ∧
    (forall context : κ, (run context).events = events.map fun event => event context) ∧
    ((exists e : Error, forall context : κ, (run context).result = .error e) ∨
      exists result : κ -> α, made result ∧
        forall context : κ, (run context).result = .ok (result context))

namespace Uniform

variable {told told' : (κ -> Event) -> Prop} {made made' : (κ -> α) -> Prop}
  {run : κ -> Outcome α}

theorem done {result : κ -> α} (h : made result) :
    Uniform told made fun context => pure (result context) :=
  ⟨[], List.forall_mem_nil _, fun _ => rfl, Or.inr ⟨result, h, fun _ => rfl⟩⟩

theorem fail (e : Error) : Uniform told made fun _ => .fail e :=
  ⟨[], List.forall_mem_nil _, fun _ => rfl, Or.inl ⟨e, fun _ => rfl⟩⟩

theorem tell {event : κ -> Event} (h : told event) :
    Uniform told (fun _ => True) fun context => Outcome.tell (event context) := by
  refine ⟨[event], ?_, fun _ => rfl, Or.inr ⟨fun _ => (), trivial, fun _ => rfl⟩⟩
  intro other hmem
  rw [List.mem_singleton.mp hmem]
  exact h

theorem const {outcome : Outcome α}
    (htold : forall event : Event, event ∈ outcome.events -> told fun _ => event)
    (hmade : forall a : α, outcome.result = .ok a -> made fun _ => a) :
    Uniform told made fun _ => outcome := by
  refine ⟨outcome.events.map fun event _ => event, ?_, ?_, ?_⟩
  · intro mark hmem
    rcases List.mem_map.mp hmem with ⟨event, hevent, rfl⟩
    exact htold event hevent
  · intro context
    rw [List.map_map]
    exact (List.map_id _).symm
  · cases hresult : outcome.result with
    | error e => exact Or.inl ⟨e, fun _ => hresult⟩
    | ok a => exact Or.inr ⟨fun _ => a, hmade a hresult, fun _ => hresult⟩

theorem mono (h : Uniform told made run)
    (htold : forall event : κ -> Event, told event -> told' event)
    (hmade : forall result : κ -> α, made result -> made' result) : Uniform told' made' run := by
  rcases h with ⟨events, hmem, hevents, hresult⟩
  refine ⟨events, fun event hevent => htold event (hmem event hevent), hevents, ?_⟩
  rcases hresult with herror | ⟨result, hresult, hok⟩
  · exact Or.inl herror
  · exact Or.inr ⟨result, hmade result hresult, hok⟩

theorem bind {made' : (κ -> β) -> Prop} {next : κ -> α -> Outcome β}
    (h : Uniform told made run)
    (hnext : forall result : κ -> α, made result ->
      Uniform told made' fun context => next context (result context)) :
    Uniform told made' fun context => run context >>= next context := by
  rcases h with ⟨events, htold, hevents, ⟨e, herror⟩ | ⟨result, hmade, hok⟩⟩
  · refine ⟨events, htold, fun context => ?_, Or.inl ⟨e, fun context => ?_⟩⟩
    · exact (Outcome.events_bind_of_error (herror context)).trans (hevents context)
    · exact Outcome.result_bind_of_error (herror context)
  · rcases hnext result hmade with ⟨more, hmore, hothers, hrest⟩
    refine ⟨events ++ more, ?_, fun context => ?_, ?_⟩
    · intro event hmem
      exact (List.mem_append.mp hmem).elim (htold event) (hmore event)
    · rw [Outcome.events_bind_of_ok (hok context), hevents, hothers, List.map_append]
    · simp only [fun context => Outcome.result_bind_of_ok (f := next context) (hok context)]
      exact hrest

theorem mapError (h : Uniform told made run) (f : Error -> Error) :
    Uniform told made fun context => (run context).mapError f := by
  rcases h with ⟨events, htold, hevents, ⟨e, herror⟩ | ⟨result, hmade, hok⟩⟩
  · refine ⟨events, htold, hevents, Or.inl ⟨f e, fun context => ?_⟩⟩
    exact Outcome.result_mapError_of_error (herror context) f
  · refine ⟨events, htold, hevents, Or.inr ⟨result, hmade, fun context => ?_⟩⟩
    exact Outcome.result_mapError_of_ok (hok context) f

end Uniform

/-!
# Trees of tables
-/

inductive Binding.Nests : Binding τ κ -> {υ : Type} -> (Value -> κ -> Outcome υ) -> Prop where
  | object {υ : Type} (read : Value -> κ -> Outcome υ) (set : τ -> υ -> τ) :
      Nests (.object read set) read
  | objectArray {υ : Type} (read : Value -> κ -> Outcome υ) (set : τ -> List υ -> τ) :
      Nests (.objectArray read set) read

/-- A table with all that is nested in it, to any depth. Around a table, a reader hands the context
on to it; the reader itself may note the context, and record it with the result. -/
inductive Threads : {υ : Type} -> (Value -> κ -> Outcome υ) -> Prop where
  | table {τ : Type} {table : Table τ κ} :
      (forall {υ : Type} (column : Column τ κ) (read : Value -> κ -> Outcome υ),
        column ∈ table.columns -> column.binding.Nests read -> Threads read) ->
      Threads table.read
  | noted {υ : Type} (note : Value -> κ -> Event) {read : Value -> κ -> Outcome υ} :
      Threads read ->
      Threads fun value context => do
        .tell (note value context)
        read value context
  | recorded {σ υ : Type} (record : σ -> κ -> υ) {read : Value -> κ -> Outcome σ} :
      Threads read ->
      Threads fun value context => do
        return record (← read value context) context
  | unaware {υ : Type} (read : Value -> Outcome υ) : Threads fun value _ => read value

inductive Told : {υ : Type} -> (Value -> κ -> Outcome υ) -> (κ -> Event) -> Prop where
  | reading {τ : Type} (table : Table τ κ) (members : Nat) :
      Told table.read fun _ => .reading table.name members
  | skipping {τ : Type} (table : Table τ κ) (key : String) :
      Told table.read fun _ => .skipping table.name key
  | nested {τ υ : Type} {table : Table τ κ} {column : Column τ κ}
      {read : Value -> κ -> Outcome υ} {event : κ -> Event} :
      column ∈ table.columns ->
      column.binding.Nests read ->
      Told read event ->
      Told table.read event
  | note {υ : Type} (note : Value -> κ -> Event) (read : Value -> κ -> Outcome υ) (value : Value) :
      Told (fun value context => do .tell (note value context); read value context) (note value)
  | noted {υ : Type} (note : Value -> κ -> Event) {read : Value -> κ -> Outcome υ}
      {event : κ -> Event} :
      Told read event ->
      Told (fun value context => do .tell (note value context); read value context) event
  | recorded {σ υ : Type} (record : σ -> κ -> υ) {read : Value -> κ -> Outcome σ}
      {event : κ -> Event} :
      Told read event ->
      Told (fun value context => do return record (← read value context) context) event
  | unaware {υ : Type} {read : Value -> Outcome υ} {value : Value} {event : Event} :
      event ∈ (read value).events ->
      Told (fun value _ => read value) fun _ => event

/-- The results that a reader may have, as made of the context. Only where it is recorded does the
context get into the result. -/
inductive Made : {υ : Type} -> (Value -> κ -> Outcome υ) -> (κ -> υ) -> Prop where
  | empty {τ : Type} (table : Table τ κ) : Made table.read fun _ => table.empty
  | string {τ : Type} {table : Table τ κ} {field : Field} {set : τ -> String -> τ} {made : κ -> τ}
      (text : String) :
      ⟨field, .string set⟩ ∈ table.columns ->
      Made table.read made ->
      Made table.read fun context => set (made context) text
  | long {τ : Type} {table : Table τ κ} {field : Field} {set : τ -> Int64 -> τ} {made : κ -> τ}
      (n : Int64) :
      ⟨field, .long set⟩ ∈ table.columns ->
      Made table.read made ->
      Made table.read fun context => set (made context) n
  | boolean {τ : Type} {table : Table τ κ} {field : Field} {set : τ -> Bool -> τ} {made : κ -> τ}
      (flag : Bool) :
      ⟨field, .boolean set⟩ ∈ table.columns ->
      Made table.read made ->
      Made table.read fun context => set (made context) flag
  | object {τ υ : Type} {table : Table τ κ} {field : Field} {read : Value -> κ -> Outcome υ}
      {set : τ -> υ -> τ} {made : κ -> τ} {nested : κ -> υ} :
      ⟨field, .object read set⟩ ∈ table.columns ->
      Made table.read made ->
      Made read nested ->
      Made table.read fun context => set (made context) (nested context)
  | objectArray {τ υ : Type} {table : Table τ κ} {field : Field} {read : Value -> κ -> Outcome υ}
      {set : τ -> List υ -> τ} {made : κ -> τ} {items : List (κ -> υ)} :
      ⟨field, .objectArray read set⟩ ∈ table.columns ->
      Made table.read made ->
      (forall item : κ -> υ, item ∈ items -> Made read item) ->
      Made table.read fun context => set (made context) (items.map fun item => item context)
  | noted {υ : Type} (note : Value -> κ -> Event) {read : Value -> κ -> Outcome υ}
      {made : κ -> υ} :
      Made read made ->
      Made (fun value context => do .tell (note value context); read value context) made
  | recorded {σ υ : Type} (record : σ -> κ -> υ) {read : Value -> κ -> Outcome σ}
      {made : κ -> σ} :
      Made read made ->
      Made (fun value context => do return record (← read value context) context)
        fun context => record (made context) context
  | unaware {υ : Type} {read : Value -> Outcome υ} {value : Value} {a : υ} :
      (read value).result = .ok a ->
      Made (fun value _ => read value) fun _ => a

/-!
# Reading
-/

theorem uniform_readItems {read : Value -> κ -> Outcome υ} {told : (κ -> Event) -> Prop}
    (hread : forall value : Value, Uniform told (Made read) (read value)) (table : String)
    (field : Field) (index : Nat) (values : List Value) :
    Uniform told
      (fun found => exists items : List (κ -> υ),
        (forall item : κ -> υ, item ∈ items -> Made read item) ∧
          found = fun context => items.map fun item => item context)
      fun context => readItems table field read context index values := by
  induction values generalizing index with
  | nil => exact .done ⟨[], List.forall_mem_nil _, rfl⟩
  | cons value values ih =>
      simp only [readItems]
      split
      · refine ((hread value).mapError _).bind fun first hfirst => ?_
        refine (ih (index + 1)).bind fun others hothers => ?_
        rcases hothers with ⟨items, hitems, rfl⟩
        refine .done ⟨first :: items, ?_, rfl⟩
        intro item hmem
        rcases List.mem_cons.mp hmem with rfl | hmem
        · exact hfirst
        · exact hitems item hmem
      · exact .fail _

namespace Table

variable {table : Table τ κ}

abbrev NestsUniform (table : Table τ κ) : Prop :=
  forall {υ : Type} (column : Column τ κ) (read : Value -> κ -> Outcome υ),
    column ∈ table.columns -> column.binding.Nests read ->
      forall value : Value, Uniform (Told read) (Made read) (read value)

theorem uniform_fill (hnested : table.NestsUniform) {column : Column τ κ}
    (hcolumn : column ∈ table.columns) {target : κ -> τ} (htarget : Made table.read target)
    (value : Value) :
    Uniform (Told table.read) (Made table.read) fun context =>
      column.fill table.name context (target context) value := by
  rcases column with ⟨field, binding⟩
  unfold Column.fill
  cases binding with
  | string set =>
      cases value with
      | string text => exact .done (.string text hcolumn htarget)
      | _ => exact .done (.string "" hcolumn htarget)
  | long set =>
      dsimp only
      cases value.long? with
      | some n => exact .done (.long n hcolumn htarget)
      | none => exact .fail _
  | boolean set =>
      dsimp only
      cases value.boolean? with
      | some flag => exact .done (.boolean flag hcolumn htarget)
      | none => exact .fail _
  | object read set =>
      have hnests : Binding.Nests (.object read set) read := .object read set
      have hread : Uniform (Told table.read) (Made read) (read value) :=
        (hnested _ read hcolumn hnests value).mono (fun _ => .nested hcolumn hnests) fun _ => id
      exact (hread.mapError _).bind fun nested hmade => .done (.object hcolumn htarget hmade)
  | objectArray read set =>
      have hnests : Binding.Nests (.objectArray read set) read := .objectArray read set
      have hread : forall item : Value, Uniform (Told table.read) (Made read) (read item) :=
        fun item =>
          (hnested _ read hcolumn hnests item).mono (fun _ => .nested hcolumn hnests) fun _ => id
      refine (uniform_readItems hread table.name field 0 _).bind fun found hfound => ?_
      rcases hfound with ⟨items, hitems, rfl⟩
      exact .done (.objectArray hcolumn htarget hitems)

theorem uniform_fillColumn (hnested : table.NestsUniform) (filled : List table.Index)
    {target : κ -> τ} (htarget : Made table.read target) (slot : table.Index) (key : String)
    (value : Value) :
    Uniform (Told table.read) (Made table.read) fun context =>
      table.fillColumn context filled (target context) slot key value := by
  unfold fillColumn
  dsimp only
  split
  · exact .fail _
  · split
    · exact uniform_fill hnested (List.get_mem _ slot) htarget value
    · exact .fail _

theorem uniform_fillAll (hnested : table.NestsUniform) (filled : List table.Index)
    {target : κ -> τ} (htarget : Made table.read target) (members : Members) :
    Uniform (Told table.read) (Made table.read) fun context =>
      table.fillAll context filled (target context) members := by
  induction members generalizing filled target with
  | nil => exact .done htarget
  | cons member members ih =>
      rcases member with ⟨key, value⟩
      simp only [fillAll]
      cases table.find? key with
      | some slot =>
          exact (uniform_fillColumn hnested filled htarget slot key value).bind
            fun next hnext => ih (slot :: filled) hnext
      | none =>
          dsimp only
          split
          · exact (Uniform.tell (.skipping table key)).bind fun _ _ => ih filled htarget
          · exact .fail _

theorem uniform_read (hnested : table.NestsUniform) (value : Value) :
    Uniform (Told table.read) (Made table.read) (table.read value) := by
  cases value with
  | object members =>
      exact (Uniform.tell (.reading table members.length)).bind fun _ _ =>
        uniform_fillAll hnested [] (.empty table) members
  | _ => exact .fail _

end Table

/-- In a tree of tables the context makes no difference to whether reading fails and with which
error. It gets into what is told only where a reader notes it, and into the result only where a
reader records it, and at any depth it is the context that the outermost table was given. -/
theorem Threads.uniform_in_all_contexts {read : Value -> κ -> Outcome υ} (h : Threads read)
    (value : Value) : Uniform (Told read) (Made read) (read value) := by
  induction h generalizing value with
  | table _ ih => exact Table.uniform_read ih value
  | noted note _ ih =>
      refine (Uniform.tell (.note note _ value)).bind fun _ _ => ?_
      exact (ih value).mono (fun _ => .noted note) fun _ => .noted note
  | recorded record _ ih =>
      exact ((ih value).mono (fun _ => .recorded record) fun _ => id).bind fun _ hmade =>
        .done (.recorded record hmade)
  | unaware read =>
      exact .const (fun _ => .unaware) fun _ => .unaware

def sizeOfNode : Table (Int64 × Nat) Nat where
  name := "shard"
  lenient := false
  empty := (0, 0)
  columns :=
    [⟨.named "size", .object
      (fun value node => do
        .tell (.reading "node" node)
        return (← Table.read ⟨"size", false, 0, [⟨.named "bytes", .long fun _ n => n⟩]⟩ value node,
          node))
      fun _ size => size⟩]

def sizesOfNode : Table (List (Int64 × Nat)) Nat where
  name := "shards"
  lenient := true
  empty := []
  columns := [⟨.named "shards", .objectArray sizeOfNode.read fun _ sizes => sizes⟩]

def twoShards : Value :=
  .object
    [ ("shards", .array
        [ .object [("size", .object [("bytes", .long 1)])],
          .object [("size", .object [("bytes", .long 2)])] ]) ]

theorem Threads.uniform_in_all_contexts_sizes :
    Threads sizesOfNode.read ∧
      Uniform (Told sizesOfNode.read) (Made sizesOfNode.read) (sizesOfNode.read twoShards) ∧
      (sizesOfNode.read twoShards 7).result = .ok [(1, 7), (2, 7)] ∧
      (sizesOfNode.read twoShards 8).result = .ok [(1, 8), (2, 8)] ∧
      (sizesOfNode.read twoShards 8).events =
        [ .reading "shards" 1, .reading "shard" 1, .reading "node" 8, .reading "size" 1,
          .reading "shard" 1, .reading "node" 8, .reading "size" 1 ] := by
  have hsizes : Threads sizesOfNode.read := by
    refine .table fun column read hcolumn hnests => ?_
    cases List.mem_singleton.mp hcolumn
    cases hnests
    refine .table fun column read hcolumn hnests => ?_
    cases List.mem_singleton.mp hcolumn
    cases hnests
    refine .noted (fun _ node => .reading "node" node) (.recorded Prod.mk (.table ?_))
    intro υ column read hcolumn hnests
    cases List.mem_singleton.mp hcolumn
    cases hnests
  exact ⟨hsizes, hsizes.uniform_in_all_contexts twoShards, rfl, rfl, rfl⟩

end JsonBind
