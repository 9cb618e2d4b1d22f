import JsonBind.Proofs.Table.Reading

/-!
# Paths of errors

An error inside a nested value is an error of the field that the value is in, at each level
anew. So the error that comes out tells the whole path: for each level the table, the field
by its name, and the number of the item if the field holds an array. What went wrong at the
end of the path is told last, as it would be told there. Whatever kind it is of, further out
it is a parse error.
-/

namespace JsonBind

/-- A level on the way to a nested value: a field of a table, and an item if it holds an array. -/
structure Descent where
  table : String
  field : Field
  item : Option Nat

namespace Descent

def label (descent : Descent) : String :=
  let place := "[" ++ descent.table ++ "] failed to parse field [" ++ descent.field.name ++ "]: "
  match descent.item with
  | none => place
  | some index => place ++ ("element " ++ String.ofList (Decimal.natural index) ++ ": ")

def error (descent : Descent) (e : Error) : Error :=
  .parse (descent.label ++ e.message)

theorem error_nested (table : String) (field : Field) (e : Error) :
    (Objection.nested e).error table field = error ⟨table, field, none⟩ e := rfl

theorem error_nestedItem (table : String) (field : Field) (index : Nat) (e : Error) :
    (Objection.nestedItem index e).error table field = error ⟨table, field, some index⟩ e :=
  congrArg Error.parse String.append_assoc.symm

theorem message_foldr_error (path : List Descent) (e : Error) :
    (path.foldr error e).message =
      path.foldr (fun descent shown => "Parse error: " ++ (descent.label ++ shown)) e.message := by
  induction path with
  | nil => rfl
  | cons descent path ih =>
      rw [List.foldr_cons, List.foldr_cons, ← ih]
      rfl

end Descent

theorem Shape.accepts_object (v : Value) : Shape.object.accepts v = v.isObject := by
  cases v <;> rfl

namespace Table

variable {τ κ υ : Type}

/-!
# Nested readers that are run
-/

/-- In the course of reading a value, a nested reader is run on a value within it. -/
inductive Reaches (table : Table τ κ) (context : κ) :
    Value -> Descent -> (Value -> κ -> Outcome υ) -> Value -> Prop where
  | object {taken rest : Members} {key : String} {slot : table.Index}
      {read : Value -> κ -> Outcome υ} {set : τ -> υ -> τ} {inner : Value} :
      table.Arrives context taken key slot ->
      (table.columns.get slot).binding = .object read set ->
      inner.isObject = true ->
      Reaches table context (.object (taken ++ (key, inner) :: rest))
        ⟨table.name, (table.columns.get slot).field, none⟩ read inner
  | item {taken rest : Members} {key : String} {slot : table.Index}
      {read : Value -> κ -> Outcome υ} {set : τ -> List υ -> τ} {before after : List Value}
      {found : List υ} {inner : Value} :
      table.Arrives context taken key slot ->
      (table.columns.get slot).binding = .objectArray read set ->
      ItemsConvert read context before found ->
      inner.isObject = true ->
      Reaches table context (.object (taken ++ (key, .array (before ++ inner :: after)) :: rest))
        ⟨table.name, (table.columns.get slot).field, some before.length⟩ read inner

theorem result_read_of_reaches {table : Table τ κ} (hun : table.Unambiguous) {context : κ}
    {value inner : Value} {descent : Descent} {read : Value -> κ -> Outcome υ}
    (h : table.Reaches context value descent read inner) {e : Error}
    (hread : (read inner context).result = .error e) :
    (table.read value context).result = .error (descent.error e) := by
  cases h with
  | object harrives hbinding hobject =>
      rename_i taken rest key slot set
      have hshape : (table.columns.get slot).binding.shape.accepts inner = true := by
        rw [hbinding]
        exact (Shape.accepts_object inner).trans hobject
      have hobjects : (table.columns.get slot).binding.Objects context inner (.nested e) := by
        rw [hbinding]
        exact .object set hread
      rw [← Descent.error_nested]
      exact (result_read_eq_error_iff hun).mpr ⟨taken, rest, key, inner, rfl, harrives.readable,
        .conversion harrives.resolves harrives.fresh hshape hobjects⟩
  | item harrives hbinding hbefore hobject =>
      rename_i taken rest key slot set before after found
      have hshape : (table.columns.get slot).binding.shape.accepts
          (.array (before ++ inner :: after)) = true := by
        rw [hbinding]
        rfl
      have hobjects : (table.columns.get slot).binding.Objects context
          (.array (before ++ inner :: after)) (.nestedItem before.length e) := by
        rw [hbinding]
        exact .objectArray set hbefore (.nestedItem hobject hread)
      rw [← Descent.error_nestedItem]
      exact (result_read_eq_error_iff hun).mpr ⟨taken, rest, key, _, rfl, harrives.readable,
        .conversion harrives.resolves harrives.fresh hshape hobjects⟩

/-!
# Where reading fails

At the end of a path either a table fails that all of its nested readers give results to, or
a nested reader fails, whatever it does. A reader that hands on the errors of a table lets
the path go on in there; the table may have another context.
-/

inductive FailsAt : {τ κ : Type} -> Table τ κ -> κ -> Value -> List Descent -> Error -> Prop where
  | own {τ κ : Type} {table : Table τ κ} {context : κ} {value : Value} {e : Error} :
      (table.read value context).result = .error e ->
      (forall {υ : Type} (descent : Descent) (read : Value -> κ -> Outcome υ) (inner : Value),
        table.Reaches context value descent read inner ->
          exists found : υ, (read inner context).result = .ok found) ->
      FailsAt table context value [] e
  | reader {τ κ υ : Type} {table : Table τ κ} {context : κ} {value inner : Value}
      {descent : Descent} {read : Value -> κ -> Outcome υ} {e : Error} :
      table.Reaches context value descent read inner ->
      (read inner context).result = .error e ->
      FailsAt table context value [descent] e
  | nested {τ κ υ σ ρ : Type} {table : Table τ κ} {context : κ} {value inner : Value}
      {descent : Descent} {read : Value -> κ -> Outcome υ} {within : Table σ ρ} {other : ρ}
      {path : List Descent} {e : Error} :
      table.Reaches context value descent read inner ->
      within.Declared ->
      (forall found : Error, (within.read inner other).result = .error found ->
        (read inner context).result = .error found) ->
      FailsAt within other inner path e ->
      FailsAt table context value (descent :: path) e

theorem result_read_of_failsAt {table : Table τ κ} {context : κ} {value : Value}
    {path : List Descent} {e : Error} (h : FailsAt table context value path e)
    (hdeclared : table.Declared) :
    (table.read value context).result = .error (path.foldr Descent.error e) := by
  induction h with
  | own hread _ => exact hread
  | reader hreaches hread => exact result_read_of_reaches hdeclared.unambiguous hreaches hread
  | nested hreaches hwithin hands _ ih =>
      exact result_read_of_reaches hdeclared.unambiguous hreaches (hands _ (ih hwithin))

theorem exists_failsAt {table : Table τ κ} (hdeclared : table.Declared) {context : κ}
    {value : Value} {e : Error} (h : (table.read value context).result = .error e) :
    exists (path : List Descent) (inner : Error),
      FailsAt table context value path inner ∧ e = path.foldr Descent.error inner := by
  by_cases hreader : exists (υ : Type) (descent : Descent) (read : Value -> κ -> Outcome υ)
      (inner : Value) (found : Error), table.Reaches context value descent read inner ∧
        (read inner context).result = .error found
  · rcases hreader with ⟨υ, descent, read, inner, found, hreaches, hread⟩
    have hfails : FailsAt table context value [descent] found := .reader hreaches hread
    rw [result_read_of_failsAt hfails hdeclared] at h
    exact ⟨[descent], found, hfails, (Except.error.inj h).symm⟩
  · refine ⟨[], e, .own h ?_, rfl⟩
    intro υ descent read inner hreaches
    cases hread : (read inner context).result with
    | ok found => exact ⟨found, rfl⟩
    | error found => exact absurd ⟨υ, descent, read, inner, found, hreaches, hread⟩ hreader

/-!
# Kinds of errors
-/

theorem Breaks.isReading {table : Table τ κ} {context : κ} {before : Members} {key : String}
    {value : Value} {e : Error} (h : Breaks table context before key value e) :
    e.isReading = true ∧ e.isWriting = false := by
  cases h with
  | unknownField _ _ => exact ⟨rfl, rfl⟩
  | duplicate _ _ _ => exact ⟨rfl, rfl⟩
  | otherShape _ _ _ => exact ⟨rfl, rfl⟩
  | conversion _ _ _ _ => exact ⟨rfl, rfl⟩

theorem isReading_of_result_read {table : Table τ κ} (hun : table.Unambiguous) {context : κ}
    {value : Value} {e : Error} (h : (table.read value context).result = .error e) :
    e.isReading = true ∧ e.isWriting = false := by
  cases value with
  | object members =>
      rcases (result_read_eq_error_iff hun).mp h with ⟨_, _, _, _, _, _, hbreaks⟩
      exact hbreaks.isReading
  | _ =>
      cases h
      exact ⟨rfl, rfl⟩

theorem mem_of_result_read_unknownField {table : Table τ κ} (hun : table.Unambiguous)
    {context : κ} {value : Value} {name key : String}
    (h : (table.read value context).result = .error (.unknownField name key)) :
    name = table.name ∧ exists (members : Members) (v : Value),
      value = .object members ∧ (key, v) ∈ members ∧
        forall slot : table.Index, ¬ table.Resolves key slot := by
  cases value with
  | object members =>
      rcases (result_read_eq_error_iff hun).mp h with ⟨taken, rest, other, v, rfl, _, hbreaks⟩
      generalize hfound : Error.unknownField name key = e at hbreaks
      cases hbreaks with
      | unknownField hunknown _ =>
          cases hfound
          exact ⟨rfl, _, v, rfl, by simp, hunknown⟩
      | duplicate _ _ _ => cases hfound
      | otherShape _ _ _ => cases hfound
      | conversion _ _ _ _ => cases hfound
  | _ => cases h

/-- Every error tells the path to where reading failed. If that is inside some nested value, the
error is a parse error, and its text is that of the innermost error with the labels of all levels
before it, the outermost first. An unknown field is told of the table itself and of a member of the
root only; all errors are errors of reading, and none is an error of writing. -/
theorem read_error_tells_path {table : Table τ κ} (h : table.Declared) (context : κ)
    (value : Value) :
    (forall e : Error, (table.read value context).result = .error e <->
      exists (path : List Descent) (inner : Error),
        FailsAt table context value path inner ∧ e = path.foldr Descent.error inner) ∧
    (forall (path : List Descent) (inner : Error),
      FailsAt table context value path inner -> path ≠ [] ->
        exists reason : String, (table.read value context).result = .error (.parse reason) ∧
          (Error.parse reason).message =
            path.foldr (fun descent shown => "Parse error: " ++ (descent.label ++ shown))
              inner.message) ∧
    (forall name key : String,
      (table.read value context).result = .error (.unknownField name key) ->
        name = table.name ∧ exists (members : Members) (v : Value),
          value = .object members ∧ (key, v) ∈ members ∧
            forall slot : table.Index, ¬ table.Resolves key slot) ∧
    forall e : Error, (table.read value context).result = .error e ->
      e.isReading = true ∧ e.isWriting = false := by
  have hun := h.unambiguous
  refine ⟨?_, ?_, ?_, ?_⟩
  · intro e
    constructor
    · exact exists_failsAt h
    · intro hfails
      rcases hfails with ⟨path, inner, hpath, rfl⟩
      exact result_read_of_failsAt hpath h
  · intro path inner hfails hne
    cases path with
    | nil => exact absurd rfl hne
    | cons descent path =>
        refine ⟨_, result_read_of_failsAt hfails h, ?_⟩
        exact Descent.message_foldr_error (descent :: path) inner
  · intro name key
    exact mem_of_result_read_unknownField hun
  · intro e
    exact isReading_of_result_read hun

def unreadable : Value -> Unit -> Outcome Unit :=
  fun _ _ => .fail (.config "odd")

def shard : Table Unit Unit where
  name := "shard"
  lenient := false
  empty := ()
  columns := [⟨.named "parts", .objectArray unreadable fun _ _ => ()⟩]

def sharded : Table Unit Unit where
  name := "index"
  lenient := false
  empty := ()
  columns := [⟨⟨"shard", ["s"]⟩, .object shard.read fun _ _ => ()⟩]

theorem failsAt_parts :
    FailsAt sharded () (.object [("s", .object [("parts", .array [.object []])])])
      [⟨"index", ⟨"shard", ["s"]⟩, none⟩, ⟨"shard", .named "parts", some 0⟩]
      (.config "odd") := by
  have hs : sharded.Resolves "s" ⟨0, by decide⟩ := List.mem_cons_of_mem _ List.mem_cons_self
  have hparts : shard.Resolves "parts" ⟨0, by decide⟩ := List.mem_cons_self
  have hshard : shard.Declared := rfl
  have hnone : ItemsConvert unreadable () [] [] := .nil
  refine .nested (.object (arrives_first hs) rfl rfl) hshard (fun _ hread => hread) ?_
  exact .reader (.item (arrives_first hparts) rfl hnone rfl) rfl

/-- The shard is found by an alias, and told by its name. -/
theorem read_error_tells_path_of_parts :
    sharded.Declared ∧
      exists reason : String,
        (sharded.read (.object [("s", .object [("parts", .array [.object []])])]) ()).result =
          .error (.parse reason) ∧
        (Error.parse reason).message = "Parse error: [index] failed to parse field [shard]: " ++
          ("Parse error: [shard] failed to parse field [parts]: element 0: " ++
            "Configuration error: odd") := by
  have declared : sharded.Declared := rfl
  rcases (read_error_tells_path declared () _).right.left _ _ failsAt_parts (by simp) with
    ⟨reason, hread, hmessage⟩
  exact ⟨declared, reason, hread, hmessage⟩

end Table
end JsonBind
