import JsonBind.Proofs.Builder.Call

/-!
# Sentences

The pieces that make a whole document are the sentences of a grammar: a value, or
an opened array of sentences that is closed again, or an opened object of named
sentences that is closed again. A sentence denotes a tree. A builder finishes with
a tree exactly if the calls that it accepted make one sentence, and the tree is
what the sentence denotes.
-/

namespace JsonBind
namespace Builder

namespace Piece

def isOpening : Piece -> Bool
  | .openObject | .openArray => true
  | _ => false

def isClosing : Piece -> Bool
  | .closeObject | .closeArray => true
  | _ => false

end Piece

def memberPieces (member : String × List Piece × Value) : List Piece :=
  .field member.1 :: member.2.1

def memberWrites (members : List (String × List Piece × Value)) : List (String × Value) :=
  members.map fun member => (member.1, member.2.2)

inductive Sentence : List Piece -> Value -> Prop where
  | value (v : Value) : Sentence [.value v] v
  | array (items : List (List Piece × Value)) :
      (forall item : List Piece × Value, item ∈ items -> Sentence item.1 item.2) ->
      Sentence (.openArray :: items.flatMap (·.1) ++ [.closeArray]) (.array (items.map (·.2)))
  | object (members : List (String × List Piece × Value)) :
      (forall member : String × List Piece × Value, member ∈ members ->
        Sentence member.2.1 member.2.2) ->
      Sentence (.openObject :: members.flatMap memberPieces ++ [.closeObject])
        (.object (Members.ofWrites (memberWrites members)))

/-!
# Sentences run

Wherever there is room for a value, a sentence can be written, and what it denotes
has been put there then.
-/

theorem steps_items {items : List (List Piece × Value)} {outer : List Scope}
    {root : Option Value}
    (h : forall item : List Piece × Value, item ∈ items ->
      forall b : Builder, HasRoom b -> Steps item.1 b (b.put item.2)) (before : Array Value) :
    Steps (items.flatMap (·.1)) ⟨.array before :: outer, root⟩
      ⟨.array (before ++ (items.map (·.2)).toArray) :: outer, root⟩ := by
  induction items generalizing before with
  | nil =>
      simpa using Steps.nil (⟨.array before :: outer, root⟩ : Builder)
  | cons item rest ih =>
      have first : Steps item.1 ⟨.array before :: outer, root⟩
          ⟨.array (before.push item.2) :: outer, root⟩ :=
        h item List.mem_cons_self _ HasRoom.item
      have others := ih (fun other hmem => h other (List.mem_cons_of_mem item hmem))
        (before.push item.2)
      have harray : before.push item.2 ++ (rest.map (·.2)).toArray =
          before ++ ((item :: rest).map (·.2)).toArray := by
        simp
      rw [harray] at others
      rw [List.flatMap_cons]
      exact first.append others

theorem steps_members {members : List (String × List Piece × Value)} {outer : List Scope}
    {root : Option Value}
    (h : forall member : String × List Piece × Value, member ∈ members ->
      forall b : Builder, HasRoom b -> Steps member.2.1 b (b.put member.2.2))
    (before : Members) :
    Steps (members.flatMap memberPieces) ⟨.object before none :: outer, root⟩
      ⟨.object ((memberWrites members).foldl
        (fun members write => Members.insert write.1 write.2 members) before) none :: outer,
        root⟩ := by
  induction members generalizing before with
  | nil => exact Steps.nil _
  | cons member rest ih =>
      rcases member with ⟨name, ps, v⟩
      have named : Steps [.field name] ⟨.object before none :: outer, root⟩
          ⟨.object before (some name) :: outer, root⟩ := .single .field
      have written : Steps ps ⟨.object before (some name) :: outer, root⟩
          ⟨.object (before.insert name v) none :: outer, root⟩ :=
        h (name, ps, v) List.mem_cons_self _ HasRoom.member
      have others := ih (fun other hmem => h other (List.mem_cons_of_mem _ hmem))
        (before.insert name v)
      rw [List.flatMap_cons]
      exact (named.append written).append others

theorem Sentence.steps {ps : List Piece} {v : Value} (h : Sentence ps v) :
    forall b : Builder, HasRoom b -> Steps ps b (b.put v) := by
  induction h with
  | value v =>
      intro b room
      exact .single (.value room)
  | array items _ ih =>
      intro b room
      have inside : Steps (items.flatMap (·.1)) ⟨.array #[] :: b.scopes, b.root⟩
          ⟨.array (items.map (·.2)).toArray :: b.scopes, b.root⟩ := by
        simpa using steps_items ih #[]
      exact (Steps.cons (.openArray room) inside).append (.single (.closeArray room))
  | object members _ ih =>
      intro b room
      have inside : Steps (members.flatMap memberPieces) ⟨.object [] none :: b.scopes, b.root⟩
          ⟨.object (Members.ofWrites (memberWrites members)) none :: b.scopes, b.root⟩ :=
        steps_members ih []
      exact (Steps.cons (.openObject room) inside).append (.single (.closeObject room))

/-!
# Beginnings of sentences

The open scopes of a builder are a beginning of a sentence: around each there is
what was written before it was opened, and in it there are whole sentences.
-/

inductive Opened : List Piece -> List Scope -> Prop where
  | nil : Opened [] []
  | array {before : List Piece} {outer : List Scope} (items : List (List Piece × Value)) :
      Opened before outer ->
      HasRoom ⟨outer, none⟩ ->
      (forall item : List Piece × Value, item ∈ items -> Sentence item.1 item.2) ->
      Opened (before ++ .openArray :: items.flatMap (·.1))
        (.array (items.map (·.2)).toArray :: outer)
  | object {before : List Piece} {outer : List Scope}
      (members : List (String × List Piece × Value)) :
      Opened before outer ->
      HasRoom ⟨outer, none⟩ ->
      (forall member : String × List Piece × Value, member ∈ members ->
        Sentence member.2.1 member.2.2) ->
      Opened (before ++ .openObject :: members.flatMap memberPieces)
        (.object (Members.ofWrites (memberWrites members)) none :: outer)
  | field {before : List Piece} {members : Members} {outer : List Scope} (name : String) :
      Opened before (.object members none :: outer) ->
      Opened (before ++ [.field name]) (.object members (some name) :: outer)

/-- What a builder holds, by the pieces that were written. -/
inductive Written : List Piece -> Builder -> Prop where
  | unfinished {ps : List Piece} {scopes : List Scope} :
      Opened ps scopes -> Written ps ⟨scopes, none⟩
  | finished {ps : List Piece} {v : Value} : Sentence ps v -> Written ps ⟨[], some v⟩

theorem forall_mem_snoc {α : Type} {P : α -> Prop} {xs : List α} {x : α}
    (hxs : forall y : α, y ∈ xs -> P y) (hx : P x) (y : α) (hy : y ∈ xs ++ [x]) : P y := by
  rcases List.mem_append.mp hy with hmem | hmem
  · exact hxs y hmem
  · rw [List.mem_singleton.mp hmem]
    exact hx

theorem Opened.put {before ps : List Piece} {scopes : List Scope} {v : Value}
    (h : Opened before scopes) (room : HasRoom ⟨scopes, none⟩) (sentence : Sentence ps v) :
    Written (before ++ ps) (put ⟨scopes, none⟩ v) := by
  cases h with
  | nil => exact .finished sentence
  | array items outer below inside =>
      have longer := Opened.array (items ++ [(ps, v)]) outer below
        (forall_mem_snoc inside sentence)
      have hscopes : ((items ++ [(ps, v)]).map (·.2)).toArray =
          (items.map (·.2)).toArray.push v := by
        simp
      rw [hscopes, List.flatMap_append] at longer
      simpa [Builder.put] using Written.unfinished longer
  | object members outer below inside => cases room
  | field name named =>
      cases named with
      | object members outer below inside =>
          have longer := Opened.object (members ++ [(name, ps, v)]) outer below
            (forall_mem_snoc inside sentence)
          have hwrites : memberWrites (members ++ [(name, ps, v)]) =
              memberWrites members ++ [(name, v)] := by
            simp [memberWrites]
          rw [hwrites, Members.ofWrites_append, List.flatMap_append] at longer
          simpa [Builder.put, memberPieces] using Written.unfinished longer

theorem Written.step {ps : List Piece} {p : Piece} {b b' : Builder} (h : Written ps b)
    (step : Step p b b') : Written (ps ++ [p]) b' := by
  cases h with
  | finished sentence =>
      -- There is no room behind a root, and no scope to close.
      cases step with
      | openObject room => cases room
      | openArray room => cases room
      | value room => cases room
  | unfinished opened =>
      cases step with
      | openObject room =>
          have pushed := Opened.object [] opened room (by intro member hmem; cases hmem)
          exact .unfinished pushed
      | openArray room =>
          have pushed := Opened.array [] opened room (by intro item hmem; cases hmem)
          exact .unfinished pushed
      | closeObject room =>
          cases opened with
          | object members outer _ inside =>
              simpa using outer.put room (.object members inside)
      | closeArray room =>
          cases opened with
          | array items outer _ inside =>
              simpa using outer.put room (.array items inside)
      | field => exact .unfinished (.field _ opened)
      | value room => exact opened.put room (.value _)

theorem Written.steps {ps qs : List Piece} {b b' : Builder} (h : Written ps b)
    (steps : Steps qs b b') : Written (ps ++ qs) b' := by
  induction steps generalizing ps with
  | nil _ => simpa using h
  | cons first _ ih => simpa using ih (h.step first)

/-!
# Counting containers

In a sentence as many containers are closed as are opened. In a beginning one more
is opened for each scope.
-/

theorem countP_items {items : List (List Piece × Value)}
    (h : forall item : List Piece × Value, item ∈ items ->
      item.1.countP Piece.isOpening = item.1.countP Piece.isClosing) :
    (items.flatMap (·.1)).countP Piece.isOpening =
      (items.flatMap (·.1)).countP Piece.isClosing := by
  induction items with
  | nil => rfl
  | cons item rest ih =>
      rw [List.flatMap_cons, List.countP_append, List.countP_append, h item List.mem_cons_self,
        ih fun other hmem => h other (List.mem_cons_of_mem item hmem)]

theorem countP_members {members : List (String × List Piece × Value)}
    (h : forall member : String × List Piece × Value, member ∈ members ->
      member.2.1.countP Piece.isOpening = member.2.1.countP Piece.isClosing) :
    (members.flatMap memberPieces).countP Piece.isOpening =
      (members.flatMap memberPieces).countP Piece.isClosing := by
  induction members with
  | nil => rfl
  | cons member rest ih =>
      have hrest := ih fun other hmem => h other (List.mem_cons_of_mem member hmem)
      rw [List.flatMap_cons, List.countP_append, List.countP_append, hrest]
      simpa [memberPieces, Piece.isOpening, Piece.isClosing] using h member List.mem_cons_self

theorem Sentence.balanced {ps : List Piece} {v : Value} (h : Sentence ps v) :
    ps.countP Piece.isOpening = ps.countP Piece.isClosing := by
  induction h with
  | value v => rfl
  | array items _ ih =>
      simp [List.countP_cons, Piece.isOpening, Piece.isClosing, countP_items ih]
  | object members _ ih =>
      simp [List.countP_cons, Piece.isOpening, Piece.isClosing, countP_members ih]

theorem Opened.unbalanced {ps : List Piece} {scopes : List Scope} (h : Opened ps scopes) :
    ps.countP Piece.isOpening = ps.countP Piece.isClosing + scopes.length := by
  induction h with
  | nil => rfl
  | array items _ _ inside ih =>
      have balanced := countP_items fun item hmem => (inside item hmem).balanced
      simp [List.countP_cons, Piece.isOpening, Piece.isClosing, balanced, ih]
      omega
  | object members _ _ inside ih =>
      have balanced := countP_members fun member hmem => (inside member hmem).balanced
      simp [List.countP_cons, Piece.isOpening, Piece.isClosing, balanced, ih]
      omega
  | field name _ ih =>
      simp [Piece.isOpening, Piece.isClosing, ih]

end Builder
end JsonBind
