import JsonBind.Proofs.Builder.Call

/-!
# Clients that look at results

A client sees what comes of each of its calls. Behind a refusal it may go on as if nothing had
been, or make other calls, or give up, and it may give up at any time for reasons of its own. The
items of an array are written by such clients as well. So clients see a builder in the middle of
arrays, and with all that was left there by others that gave up.

The builders that they see are coherent, whatever they do. So nothing that a call does behind its
first move is ever refused, and no scope gets lost between being closed and being put.
-/

namespace JsonBind
namespace Builder

inductive Client where
  | done (result : Except Error Unit)
  | call (c : Call) (next : Except Error Unit -> Client)
  | array (name : String) (items : List Client) (next : Except Error Unit -> Client)

def resultOf (w : Write Unit) (b : Builder) : Except Error Unit :=
  match w.run b with
  | .ok _ _ => .ok ()
  | .error e _ => .error e

def attempt (w : Write Unit) : Write (Except Error Unit) :=
  fun b => .ok (resultOf w b) (after w b)

namespace Client

mutual

def write : Client -> Write Unit
  | .done (.ok ()) => return ()
  | .done (.error e) => throw e
  | .call c next => do
      let result ← attempt c.write
      (next result).write
  | .array name items next => do
      let result ← attempt (Builder.array name (itemWrites items))
      (next result).write

def itemWrites : List Client -> List (Write Unit)
  | [] => []
  | item :: items => item.write :: itemWrites items

end

/-- The builders that a client sees when it starts from `b`: before each of its calls, and when it
is done. What an item of an array sees is among them, if the items before it were accepted. -/
inductive Visits : Client -> Builder -> Builder -> Prop where
  | here (client : Client) (b : Builder) : Visits client b b
  | call {c : Call} {next : Except Error Unit -> Client} {b seen : Builder} :
      Visits (next (resultOf c.write b)) (after c.write b) seen ->
      Visits (.call c next) b seen
  | array {name : String} {items : List Client} {next : Except Error Unit -> Client}
      {b seen : Builder} :
      Visits (next (resultOf (Builder.array name (itemWrites items)) b))
        (after (Builder.array name (itemWrites items)) b) seen ->
      Visits (.array name items next) b seen
  | item {name : String} {before later : List Client} {item : Client}
      {next : Except Error Unit -> Client} {b start seen : Builder} :
      (do field name; openArray; (itemWrites before).forM id : Write Unit).run b = .ok () start ->
      Visits item start seen ->
      Visits (.array name (before ++ item :: later) next) b seen

/-!
# What clients keep

What each call keeps, a client keeps, for all that it does between calls is to look at results.
-/

theorem keeps_attempt {P : Builder -> Prop} {w : Write Unit} (h : Keeps P w) :
    Keeps P (attempt w) :=
  h

mutual

theorem keeps_write {P : Builder -> Prop} (hcall : forall c : Call, Keeps P c.write) :
    forall client : Client, Keeps P client.write
  | .done (.ok ()) => by
      rw [write]
      exact keeps_pure P ()
  | .done (.error e) => by
      rw [write]
      exact fun _ h => h
  | .call c next => by
      rw [write]
      exact keeps_bind (keeps_attempt (hcall c)) fun result => keeps_write hcall (next result)
  | .array name items next => by
      rw [write]
      have harray : Keeps P (Builder.array name (itemWrites items)) :=
        keeps_array (fun p => hcall (.piece p)) name (keeps_itemWrites hcall items)
      exact keeps_bind (keeps_attempt harray) fun result => keeps_write hcall (next result)

theorem keeps_itemWrites {P : Builder -> Prop} (hcall : forall c : Call, Keeps P c.write) :
    forall (items : List Client) (w : Write Unit), w ∈ itemWrites items -> Keeps P w
  | [], _, h => by
      rw [itemWrites] at h
      cases h
  | item :: items, w, h => by
      rw [itemWrites] at h
      cases h with
      | head => exact keeps_write hcall item
      | tail _ hrest => exact keeps_itemWrites hcall items w hrest

end

theorem Visits.keeps {P : Builder -> Prop} (hcall : forall c : Call, Keeps P c.write)
    {client : Client} {b seen : Builder} (h : Visits client b seen) (hb : P b) : P seen := by
  have hpiece : forall p : Piece, Keeps P p.write := fun p => hcall (.piece p)
  induction h with
  | here _ _ => exact hb
  | call _ ih => exact ih (hcall _ _ hb)
  | array _ ih => exact ih (keeps_array hpiece _ (keeps_itemWrites hcall _) _ hb)
  | item hstart _ ih =>
      -- Nothing is known of how the array ends, so what comes before the item is run by itself.
      rename_i name before later item next b start seen _
      have hbefore : Keeps P (do field name; openArray; (itemWrites before).forM id) :=
        keeps_bind (hpiece (.field name)) fun _ =>
          keeps_bind (hpiece .openArray) fun _ => keeps_forM (keeps_itemWrites hcall before)
      have hkept := hbefore b hb
      rw [after, hstart] at hkept
      exact ih hkept

theorem Visits.reachable {client : Client} {b : Builder} (h : client.Visits .empty b) :
    Reachable b := by
  refine h.keeps ?_ .empty
  intro c b hreachable
  have hact := Reachable.act (.call c) hreachable
  rw [Act.write] at hact
  exact hact

end Client

/-!
# Second moves

Closing a scope puts what it has become, and behind a name comes its value, or the scope of an
array. These second moves run on builders that the first ones have made.
-/

inductive Closes : Piece -> Scope -> Value -> Prop where
  | object {members : Members} : Closes .closeObject (.object members none) (.object members)
  | array {items : Array Value} : Closes .closeArray (.array items) (.array items.toList)

theorem Supported.run_of_closes {b : Builder} (h : Supported b) {p : Piece} {scope : Scope}
    {outer : List Scope} {v : Value} (hcloses : Closes p scope v)
    (hscopes : b.scopes = scope :: outer) :
    HasRoom ⟨outer, b.root⟩ ∧
      (place v).run ⟨outer, b.root⟩ = .ok () (put ⟨outer, b.root⟩ v) ∧
      p.write.run b = .ok () (put ⟨outer, b.root⟩ v) := by
  have room := h scope outer hscopes
  rcases b with ⟨scopes, root⟩
  cases hscopes
  refine ⟨room, place_of_hasRoom room v, Piece.write_of_step ?_⟩
  cases hcloses with
  | object => exact .closeObject room
  | array => exact .closeArray room

theorem Supported.run_of_named {b : Builder} (h : Supported b) {name : String} {named : Builder}
    (accepted : (field name).run b = .ok () named) :
    HasRoom named ∧
      openArray.run named = .ok () { named with scopes := .array #[] :: named.scopes } ∧
      forall v : Value, (value v).run named = .ok () (named.put v) := by
  have step : Step (.field name) b named := Piece.step_of_write h accepted
  have room := step.hasRoom_of_field
  exact ⟨room, Piece.write_of_step (.openArray room), fun v => Piece.write_of_step (.value room)⟩

/-- Whatever clients do, a builder that one of them sees is coherent: with a root nothing is open,
only the innermost object can lack a name, and no object has two members of one name. So no second
move of a call is refused. What a scope has become when it is closed is put where there is room for
it, and behind an accepted name there is room for its value, and for an array. -/
theorem coherent_and_second_moves_of_visits {client : Client} {b : Builder}
    (h : client.Visits .empty b) :
    Coherent b ∧
    (forall (p : Piece) (scope : Scope) (outer : List Scope) (v : Value),
      Closes p scope v -> b.scopes = scope :: outer ->
        HasRoom ⟨outer, b.root⟩ ∧
          (place v).run ⟨outer, b.root⟩ = .ok () (put ⟨outer, b.root⟩ v) ∧
          p.write.run b = .ok () (put ⟨outer, b.root⟩ v)) ∧
    forall (name : String) (named : Builder), (field name).run b = .ok () named ->
      HasRoom named ∧
        (forall v : Value,
          (value v).run named = .ok () (named.put v) ∧
            (fieldValue name v).run b = .ok () (named.put v)) ∧
        openArray.run named = .ok () { named with scopes := .array #[] :: named.scopes } ∧
        forall items : List (Write Unit), (array name items).run b =
          (items.forM id >>= fun _ => closeArray).run
            { named with scopes := .array #[] :: named.scopes } := by
  have hcoherent := h.reachable.coherent
  refine ⟨hcoherent, ?_, ?_⟩
  · intro p scope outer v hcloses hscopes
    exact hcoherent.supported.run_of_closes hcloses hscopes
  · intro name named accepted
    rcases hcoherent.supported.run_of_named accepted with ⟨room, opened, written⟩
    refine ⟨room, ?_, opened, ?_⟩
    · intro v
      exact ⟨written v, (run_bind_of_ok accepted).trans (written v)⟩
    · intro items
      exact (run_bind_of_ok accepted).trans (run_bind_of_ok opened)

def quitter : Client :=
  .call (.piece .openObject) fun _ =>
    .call (.piece .closeArray) fun _ =>
      .call (.piece (.field "x")) fun _ => .done (.error (.config "odd"))

def careless : Client :=
  .call (.piece .openObject) fun _ =>
    .array "records" [.call (.piece (.value .null)) .done, quitter] fun _ =>
      .call (.piece (.value (.bool true))) fun _ => .call (.piece .closeObject) .done

/-- The value comes under the name that the second item left, and the object of that item is closed
into the array. -/
theorem coherent_and_second_moves_of_visits_careless :
    careless.Visits .empty
        ⟨[.object [("x", .bool true)] none, .array #[.null], .object [] (some "records")], none⟩ ∧
      closeObject.run
          ⟨[.object [("x", .bool true)] none, .array #[.null], .object [] (some "records")], none⟩ =
        .ok ()
          ⟨[.array #[.null, .object [("x", .bool true)]], .object [] (some "records")], none⟩ ∧
      (fieldValue "y" .null).run
          ⟨[.object [("x", .bool true)] none, .array #[.null], .object [] (some "records")], none⟩ =
        .ok ()
          ⟨[.object [("x", .bool true), ("y", .null)] none, .array #[.null],
            .object [] (some "records")], none⟩ := by
  have visits : careless.Visits .empty
      ⟨[.object [("x", .bool true)] none, .array #[.null], .object [] (some "records")], none⟩ :=
    .call (.array (.call (.here _ _)))
  rcases coherent_and_second_moves_of_visits visits with ⟨_, hclosed, hnamed⟩
  have closed := (hclosed _ _ _ _ .object rfl).right.right
  have named := ((hnamed "y" _ rfl).right.left .null).right
  exact ⟨visits, closed, named⟩

end Builder
end JsonBind
