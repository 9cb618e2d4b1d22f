import JsonBind.Proofs.Table.Events

/-!
# Items of an array

The items of an array are read one after the other, up to the first with which something is
wrong. The main statement says what is read, what the error is, and on which items the reader
is run: on all of them, or on those up to the one that is told of. It says so for every reader,
so it holds of arrays in fields of tables and of arrays that are documents of their own.
-/

namespace JsonBind

section

variable {υ κ : Type} {read : Value -> κ -> Outcome υ} {context : κ}

def ItemReads (read : Value -> κ -> Outcome υ) (context : κ) (item : Value) : Prop :=
  item.isObject = true ∧ exists found : υ, (read item context).result = .ok found

theorem exists_itemsConvert_iff {items : List Value} :
    (exists found : List υ, ItemsConvert read context items found) <->
      forall item : Value, item ∈ items -> ItemReads read context item := by
  induction items with
  | nil => exact ⟨fun _ => List.forall_mem_nil _, fun _ => ⟨[], .nil⟩⟩
  | cons item items ih =>
      rw [List.forall_mem_cons, ← ih]
      constructor
      · intro hconvert
        rcases hconvert with ⟨found, hconvert⟩
        cases hconvert with
        | cons hitem hitems => exact ⟨⟨hitem.left, _, hitem.right⟩, _, hitems⟩
      · intro hreads
        rcases hreads with ⟨⟨hobject, first, hfirst⟩, others, hitems⟩
        exact ⟨first :: others, .cons ⟨hobject, hfirst⟩ hitems⟩

theorem take_append_of_getElem? {α : Type} {items : List α} {k : Nat} {item : α}
    (h : items[k]? = some item) :
    items = items.take k ++ item :: items.drop (k + 1) ∧ (items.take k).length = k := by
  rcases List.getElem?_eq_some_iff.mp h with ⟨hk, rfl⟩
  constructor
  · rw [List.getElem_cons_drop, List.take_append_drop]
  · exact List.length_take_of_le (Nat.le_of_lt hk)

/-!
# Runs of the reader

A reader shows on which values it is run if it notes each run before all else. Such a note makes
no difference to what is read.
-/

/-- The reader is run on the items that are visited, one after the other, and on nothing else. -/
def RunsOn (table : String) (field : Field) (read : Value -> κ -> Outcome υ) (context : κ)
    (items visited : List Value) : Prop :=
  forall note : Value -> Event,
    (readItems table field (fun item context => do .tell (note item); read item context)
        context 0 items).events =
      visited.flatMap fun item => note item :: (read item context).events

variable {table : String} {field : Field}

theorem ItemsConvert.noted {items : List Value} {found : List υ}
    (h : ItemsConvert read context items found) (note : Value -> Event) :
    ItemsConvert (fun item context => do .tell (note item); read item context) context items
      found :=
  h

theorem runsOn_of_convert {items : List Value} {found : List υ}
    (h : ItemsConvert read context items found) : RunsOn table field read context items items :=
  fun note => events_readItems (.all (h.noted note)) 0

section

variable {items : List Value} {k : Nat} {item : Value} (hitem : items[k]? = some item)
  (hearlier : forall earlier : Value, earlier ∈ items.take k -> ItemReads read context earlier)

include hitem hearlier

theorem runsOn_of_otherItem (hobject : item.isObject = false) :
    RunsOn table field read context items (items.take k) := by
  intro note
  rcases exists_itemsConvert_iff.mpr hearlier with ⟨found, hbefore⟩
  have htells : ItemsTell _ context (items.take k ++ item :: items.drop (k + 1)) _ :=
    .otherItem (hbefore.noted note) hobject
  rw [← (take_append_of_getElem? hitem).left] at htells
  exact events_readItems htells 0

theorem runsOn_of_nestedItem {e : Error} (hobject : item.isObject = true)
    (hread : (read item context).result = .error e) :
    RunsOn table field read context items (items.take (k + 1)) := by
  intro note
  rcases exists_itemsConvert_iff.mpr hearlier with ⟨found, hbefore⟩
  have htells : ItemsTell _ context (items.take k ++ item :: items.drop (k + 1)) _ :=
    .nestedItem (hbefore.noted note) hobject hread
  rw [← (take_append_of_getElem? hitem).left] at htells
  -- It is only by being read that the item turns out to be wrong.
  rw [List.take_add_one, hitem]
  exact events_readItems htells 0

end

/-!
# Whole arrays
-/

theorem result_readItems_eq_error_iff_getElem? {items : List Value} {e : Error} :
    (readItems table field read context 0 items).result = .error e <->
      exists (k : Nat) (item : Value) (objection : Objection), items[k]? = some item ∧
        (forall earlier : Value, earlier ∈ items.take k -> ItemReads read context earlier) ∧
          ItemObjects read context k item objection ∧ e = objection.error table field := by
  rw [result_readItems_eq_error_iff]
  constructor
  · intro hsplit
    rcases hsplit with ⟨before, after, item, found, objection, rfl, hbefore, hitem, rfl⟩
    rw [Nat.zero_add] at hitem
    refine ⟨before.length, item, objection, by simp, ?_, hitem, rfl⟩
    rw [List.take_left]
    exact exists_itemsConvert_iff.mp ⟨found, hbefore⟩
  · intro hnumbered
    rcases hnumbered with ⟨k, item, objection, hitem, hearlier, hobjects, rfl⟩
    rcases take_append_of_getElem? hitem with ⟨hsplit, hlength⟩
    rcases exists_itemsConvert_iff.mpr hearlier with ⟨found, hbefore⟩
    refine ⟨_, _, item, found, objection, hsplit, hbefore, ?_, rfl⟩
    rw [hlength, Nat.zero_add]
    exact hobjects

/-- An array is read if all of its items are objects that the reader can read. What is read has an
entry for each item, in order, which is what the reader makes of it; the reader is run once on each.
Otherwise the error tells the least number of an item with which something is wrong, and what that
is. The reader is run on the items before that one, on it too if it is an object, and on none of
those behind it. -/
theorem readItems_stops_at_first (table : String) (field : Field)
    (read : Value -> κ -> Outcome υ) (context : κ) (items : List Value) :
    ((exists found : List υ, (readItems table field read context 0 items).result = .ok found) <->
      forall item : Value, item ∈ items -> ItemReads read context item) ∧
    (forall found : List υ,
      (readItems table field read context 0 items).result = .ok found <->
        found.length = items.length ∧
          (forall (i : Nat) (hitem : i < items.length) (hfound : i < found.length),
            items[i].isObject = true ∧ (read items[i] context).result = .ok found[i]) ∧
          RunsOn table field read context items items) ∧
    forall e : Error,
      (readItems table field read context 0 items).result = .error e <->
        exists (k : Nat) (item : Value), items[k]? = some item ∧
          (forall earlier : Value, earlier ∈ items.take k -> ItemReads read context earlier) ∧
          ((item.isObject = false ∧
              e = .parse ("[" ++ table ++ "] failed to parse field [" ++ field.name ++ "]: " ++
                ("element " ++ String.ofList (Nat.toDigits 10 k) ++ " is " ++ item.kind ++
                  ", expected an object")) ∧
              RunsOn table field read context items (items.take k)) ∨
            exists inner : Error, item.isObject = true ∧
              (read item context).result = .error inner ∧
              e = .parse ("[" ++ table ++ "] failed to parse field [" ++ field.name ++ "]: " ++
                ("element " ++ String.ofList (Nat.toDigits 10 k) ++ ": " ++ inner.message)) ∧
              RunsOn table field read context items (items.take (k + 1))) := by
  refine ⟨?_, ?_, ?_⟩
  · rw [← exists_itemsConvert_iff]
    simp only [result_readItems_eq_ok_iff]
  · intro found
    rw [result_readItems_eq_ok_iff]
    constructor
    · intro hconvert
      rcases List.forall₂_iff_get.mp hconvert with ⟨hlength, hget⟩
      exact ⟨hlength.symm, hget, runsOn_of_convert hconvert⟩
    · intro hfound
      rcases hfound with ⟨hlength, hget, _⟩
      exact List.forall₂_iff_get.mpr ⟨hlength.symm, hget⟩
  · intro e
    rw [result_readItems_eq_error_iff_getElem?]
    constructor
    · intro hstops
      rcases hstops with ⟨k, item, objection, hitem, hearlier, hobjects, rfl⟩
      refine ⟨k, item, hitem, hearlier, ?_⟩
      cases hobjects with
      | otherItem hobject =>
          exact Or.inl ⟨hobject, rfl, runsOn_of_otherItem hitem hearlier hobject⟩
      | nestedItem hobject hinner =>
          exact Or.inr
            ⟨_, hobject, hinner, rfl, runsOn_of_nestedItem hitem hearlier hobject hinner⟩
    · intro hstops
      rcases hstops with ⟨k, item, hitem, hearlier, hwrong⟩
      rcases hwrong with ⟨hobject, rfl, _⟩ | ⟨inner, hobject, hinner, rfl, _⟩
      · exact ⟨k, item, _, hitem, hearlier, .otherItem hobject, rfl⟩
      · exact ⟨k, item, _, hitem, hearlier, .nestedItem hobject hinner, rfl⟩

end

example :
    (readItems "index" (.named "shards") (fun _ node => return node) 7 0
      [.object [], .object [("size", .long 1)], .null, .object []]).result =
        .error (.parse
          "[index] failed to parse field [shards]: element 2 is null, expected an object") := by
  rfl

end JsonBind
