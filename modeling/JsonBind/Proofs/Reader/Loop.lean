import Mathlib.Data.List.Forall2
import JsonBind.Proofs.Reader.Container
import JsonBind.Proofs.Reader.Scalar
import JsonBind.Proofs.Value.Everywhere
import JsonBind.Proofs.Value.Text

/-!
# Loops over containers

Containers are read by loops, one turn for each item or member. It does not matter
to the loops what is made of the items and members: what they read is told here
for any reader of items, and for any way to take members.
-/

namespace JsonBind
namespace Reader

open Scan (Reads)

variable {α σ : Type}

/-!
# Reading values back
-/

def Starts (v : Value) : Prop :=
  forall (layout : Layout) (level : Nat),
    exists (c : Char) (cs : List Char),
      v.textAppend layout level [] = c :: cs ∧ IsMark c ∧ c ≠ ']'

theorem Starts.textAppend {v : Value} (h : Starts v) (layout : Layout) (level : Nat)
    (rest : List Char) :
    exists (c : Char) (cs : List Char),
      v.textAppend layout level rest = c :: (cs ++ rest) ∧ IsMark c ∧ c ≠ ']' := by
  rcases h layout level with ⟨c, cs, htext, hmark, hne⟩
  refine ⟨c, cs, ?_, hmark, hne⟩
  have happend := Value.textAppend_append layout v level [] rest
  rw [htext, List.nil_append] at happend
  exact happend

theorem Starts.length_lt {v : Value} (h : Starts v) (layout : Layout) (level : Nat)
    (blanks rest : List Char) :
    (Utf8.ofChars rest).length <
      (Utf8.ofChars (blanks ++ v.textAppend layout level rest)).length := by
  rcases h.textAppend layout level rest with ⟨c, cs, htext, _⟩
  have hlt := Utf8.length_ofChars_lt_cons c cs rest
  rw [htext, Utf8.ofChars_append, List.length_append]
  omega

theorem Starts.reads_itemFollows_first {v : Value} (h : Starts v) (layout : Layout)
    (level : Nat) (rest : List Char) :
    Reads (itemFollows .clean true)
      (Utf8.ofChars (layout.line level ++ v.textAppend layout level rest)) true
      (Utf8.ofChars (v.textAppend layout level rest)) := by
  rcases h.textAppend layout level rest with ⟨c, cs, htext, hmark, hne⟩
  rw [htext]
  exact Reader.reads_itemFollows_first (layout.blanks_line level) hmark hne (cs ++ rest)

theorem Starts.reads_itemFollows_next {v : Value} (h : Starts v) (layout : Layout) (level : Nat)
    (rest : List Char) :
    Reads (itemFollows .clean false)
      (Utf8.ofChars (',' :: (layout.line level ++ v.textAppend layout level rest))) true
      (Utf8.ofChars (v.textAppend layout level rest)) := by
  rcases h.textAppend layout level rest with ⟨c, cs, htext, hmark, hne⟩
  rw [htext]
  exact Reader.reads_itemFollows_next (layout.blanks_line level) hmark hne (cs ++ rest)

/-- The text of `v`, wherever it stands, is read as `a`. -/
structure ReadsBack (p : Reader α) (v : Value) (a : α) : Prop where
  starts : Starts v
  reads : forall (layout : Layout) (level : Nat) (blanks rest : List Char),
    Blanks blanks -> Delimits rest ->
      Reads p (Utf8.ofChars (blanks ++ v.textAppend layout level rest)) a (Utf8.ofChars rest)

theorem ReadsBack.reads_text {p : Reader α} {v : Value} {a : α} (h : ReadsBack p v a)
    (layout : Layout) (level : Nat) {rest : List Char} (hrest : Delimits rest) :
    Reads p (Utf8.ofChars (v.textAppend layout level rest)) a (Utf8.ofChars rest) :=
  h.reads layout level [] rest blanks_nil hrest

theorem readsBack_of_opening {p : Reader α} {v : Value} {a : α} (bracket : Bracket)
    (h : forall (layout : Layout) (level : Nat) (rest : List Char),
      exists cs : List Char, v.textAppend layout level rest = bracket.opening :: cs ∧
        forall blanks : List Char, Blanks blanks ->
          Reads p (Utf8.ofChars (blanks ++ bracket.opening :: cs)) a (Utf8.ofChars rest)) :
    ReadsBack p v a where
  starts := by
    intro layout level
    rcases h layout level [] with ⟨cs, htext, _⟩
    refine ⟨bracket.opening, cs, htext, bracket.isMark_opening, ?_⟩
    cases bracket <;> decide
  reads := by
    intro layout level blanks rest hblanks _
    rcases h layout level rest with ⟨cs, htext, hreads⟩
    rw [htext]
    exact hreads blanks hblanks

/-!
# Items

A reader of items goes through the text of an array in turns, and keeps what it
reads in reverse.
-/

section

variable {item : Reader α} {step : List α -> Reader (Option (List α))}
  (hstep : forall read : List α, step read = do
    if ← itemFollows .clean read.isEmpty then return some ((← item) :: read) else return none)

include hstep

theorem reads_item_first {v : Value} {a : α} (h : ReadsBack item v a) (layout : Layout)
    (level : Nat) {rest : List Char} (hrest : Delimits rest) :
    Reads (step []) (Utf8.ofChars (layout.line level ++ v.textAppend layout level rest)) (some [a])
      (Utf8.ofChars rest) := by
  rw [hstep]
  apply (h.starts.reads_itemFollows_first layout level rest).bind
  exact (h.reads_text layout level hrest).bind (.pure (some [a]) _)

theorem reads_item_next {v : Value} {a : α} (h : ReadsBack item v a) (layout : Layout)
    (level : Nat) {read : List α} (hread : read.isEmpty = false) {rest : List Char}
    (hrest : Delimits rest) :
    Reads (step read) (Utf8.ofChars (',' :: (layout.line level ++ v.textAppend layout level rest)))
      (some (a :: read)) (Utf8.ofChars rest) := by
  rw [hstep, hread]
  apply (h.starts.reads_itemFollows_next layout level rest).bind
  exact (h.reads_text layout level hrest).bind (.pure (some (a :: read)) _)

theorem reads_items_end (layout : Layout) (level : Nat) (read : List α) (rest : List Char) :
    Reads (step read) (Utf8.ofChars (layout.line level ++ ']' :: rest)) none
      (Utf8.ofChars (']' :: rest)) := by
  rw [hstep]
  exact (reads_itemFollows_end read.isEmpty (layout.blanks_line level) rest).bind (.pure none _)

omit hstep in
theorem delimits_line {c : Char} (h : c = ',' ∨ c = ']' ∨ c = '}' ∨ c = '\n')
    (layout : Layout) (level : Nat) (rest : List Char) :
    Delimits (layout.line level ++ c :: rest) := by
  cases layout with
  | compact => exact delimits_cons h
  | pretty => exact delimits_cons (by decide)

omit hstep in
theorem delimits_itemsAppend (layout : Layout) (level outer : Nat) (items : List Value)
    (rest : List Char) :
    Delimits (Value.itemsAppend layout level items (layout.line outer ++ ']' :: rest)) := by
  cases items with
  | nil => exact delimits_line (by decide) layout outer rest
  | cons item items => exact delimits_cons (by decide)

theorem reads_itemsAppend {items : List Value} {as : List α}
    (h : List.Forall₂ (ReadsBack item) items as) (layout : Layout) (level outer : Nat)
    {read : List α} (hread : read.isEmpty = false) (rest : List Char) :
    Reads (Scan.iterate step read)
      (Utf8.ofChars (Value.itemsAppend layout level items (layout.line outer ++ ']' :: rest)))
      (as.reverse ++ read) (Utf8.ofChars (']' :: rest)) := by
  induction h generalizing read with
  | nil => exact Reads.iterate_stop (reads_items_end hstep layout outer read rest)
  | cons hfirst _ ih =>
      rename_i v a items as _
      have hdelimits := delimits_itemsAppend layout level outer items rest
      have hturn := reads_item_next hstep hfirst layout level hread hdelimits
      rw [Value.itemsAppend, Layout.lineAppend_eq, List.reverse_cons, List.append_assoc]
      refine hturn.iterate_more ?_ (ih rfl)
      exact hfirst.starts.length_lt layout level (',' :: layout.line level) _

theorem reads_items {items : List Value} {as : List α}
    (h : List.Forall₂ (ReadsBack item) items as) (layout : Layout) (level : Nat)
    (rest : List Char) :
    exists cs : List Char, (Value.array items).textAppend layout level rest = '[' :: cs ∧
      Reads (Scan.iterate step []) (Utf8.ofChars cs) as.reverse (Utf8.ofChars (']' :: rest)) := by
  cases h with
  | nil =>
      refine ⟨']' :: rest, ?_, ?_⟩
      · rw [Value.textAppend]
      · exact Reads.iterate_stop (reads_items_end hstep .compact 0 [] rest)
  | cons hfirst hmore =>
      rename_i v a items as
      have hdelimits := delimits_itemsAppend layout (level + 1) level items rest
      have hturn := reads_item_first hstep hfirst layout (level + 1) hdelimits
      have hloop := reads_itemsAppend hstep hmore layout (level + 1) level
        (@List.isEmpty_cons α a []) rest
      refine ⟨layout.line (level + 1) ++ v.textAppend layout (level + 1)
        (Value.itemsAppend layout (level + 1) items (layout.line level ++ ']' :: rest)), ?_, ?_⟩
      · rw [Value.textAppend, Layout.lineAppend_eq, Layout.lineAppend_eq]
      · rw [List.reverse_cons]
        refine hturn.iterate_more ?_ hloop
        exact hfirst.starts.length_lt layout (level + 1) (layout.line (level + 1)) _

end

/-!
# Members

A loop over members holds a state, which tells whether a member is the first one.
Each turn takes a name, and makes of it and of what comes behind it the next state.
-/

section

variable {first : σ -> Bool} {take : σ -> String -> Reader (Option σ)}
  {step : σ -> Reader (Option σ)}
  (hstep : forall state : σ, step state = do
    match ← nameFollows .clean (first state) with
    | none => return none
    | some name => take state name)

/-- The states that the text of some members leads through. -/
inductive MembersTaken (first : σ -> Bool) (take : σ -> String -> Reader (Option σ)) :
    Members -> σ -> σ -> Prop where
  | nil (state : σ) : MembersTaken first take [] state state
  | cons {name : String} {v : Value} {members : Members} {state next last : σ} :
      Starts v ->
      (forall (layout : Layout) (level : Nat) (rest : List Char), Delimits rest ->
        Reads (take state name)
          (Utf8.ofChars (layout.colonAppend (v.textAppend layout level rest))) (some next)
          (Utf8.ofChars rest)) ->
      first next = false ->
      MembersTaken first take members next last ->
      MembersTaken first take ((name, v) :: members) state last

theorem delimits_membersAppend (layout : Layout) (level outer : Nat) (members : Members)
    (rest : List Char) :
    Delimits (Value.membersAppend layout level members (layout.line outer ++ '}' :: rest)) := by
  cases members with
  | nil => exact delimits_line (by decide) layout outer rest
  | cons member members =>
      rcases member with ⟨name, v⟩
      exact delimits_cons (by decide)

theorem length_lt_member {v : Value} (h : Starts v) (layout : Layout) (level : Nat)
    (blanks : List Char) (name : String) (rest : List Char) :
    (Utf8.ofChars rest).length <
      (Utf8.ofChars (blanks ++ Text.stringAppend name
        (layout.colonAppend (v.textAppend layout level rest)))).length := by
  have htext := h.length_lt layout level (blanks ++ Text.stringAppend name (':' :: layout.gap)) rest
  rw [List.append_assoc, ← Text.stringAppend_append, List.cons_append] at htext
  rw [Layout.colonAppend_eq]
  exact htext

include hstep

theorem reads_members_end (layout : Layout) (level : Nat) (state : σ) (rest : List Char) :
    Reads (step state) (Utf8.ofChars (layout.line level ++ '}' :: rest)) none
      (Utf8.ofChars ('}' :: rest)) := by
  rw [hstep]
  exact (reads_nameFollows_end (first state) (layout.blanks_line level) rest).bind (.pure none _)

theorem reads_membersAppend {members : Members} {state last : σ}
    (h : MembersTaken first take members state last) (hfirst : first state = false)
    (layout : Layout) (level outer : Nat) (rest : List Char) :
    Reads (Scan.iterate step state)
      (Utf8.ofChars (Value.membersAppend layout level members (layout.line outer ++ '}' :: rest)))
      last (Utf8.ofChars ('}' :: rest)) := by
  induction h with
  | nil state => exact Reads.iterate_stop (reads_members_end hstep layout outer state rest)
  | cons hstarts htake hnext _ ih =>
      rename_i name v members state next last _
      have hdelimits := delimits_membersAppend layout level outer members rest
      rw [Value.membersAppend, Layout.lineAppend_eq]
      refine Reads.iterate_more ?_ ?_ (ih hnext)
      · rw [hstep, hfirst]
        apply (reads_nameFollows_next (layout.blanks_line level) name _).bind
        exact htake layout level _ hdelimits
      · exact length_lt_member hstarts layout level (',' :: layout.line level) name _

theorem reads_members {members : Members} {state last : σ}
    (h : MembersTaken first take members state last) (hfirst : first state = true)
    (layout : Layout) (level : Nat) (rest : List Char) :
    exists cs : List Char, (Value.object members).textAppend layout level rest = '{' :: cs ∧
      Reads (Scan.iterate step state) (Utf8.ofChars cs) last (Utf8.ofChars ('}' :: rest)) := by
  cases h with
  | nil =>
      refine ⟨'}' :: rest, ?_, ?_⟩
      · rw [Value.textAppend]
      · exact Reads.iterate_stop (reads_members_end hstep .compact 0 state rest)
  | cons hstarts htake hnext hmore =>
      rename_i name v members next
      have hdelimits := delimits_membersAppend layout (level + 1) level members rest
      have hloop := reads_membersAppend hstep hmore hnext layout (level + 1) level rest
      refine ⟨layout.line (level + 1) ++ Text.stringAppend name
        (layout.colonAppend (v.textAppend layout (level + 1)
          (Value.membersAppend layout (level + 1) members (layout.line level ++ '}' :: rest)))),
        ?_, ?_⟩
      · rw [Value.textAppend, Layout.lineAppend_eq, Layout.lineAppend_eq]
      · refine Reads.iterate_more ?_ ?_ hloop
        · rw [hstep, hfirst]
          apply (reads_nameFollows_first (layout.blanks_line (level + 1)) name _).bind
          exact htake layout (level + 1) _ hdelimits
        · exact length_lt_member hstarts layout (level + 1) (layout.line (level + 1)) name _

end

end Reader
end JsonBind
