import Mathlib.Data.List.Forall2
import JsonBind.Reader.Container
import JsonBind.Proofs.Except
import JsonBind.Proofs.Reader.Taken
import JsonBind.Proofs.Scan.Yields

/-!
# The turns of container loops

A loop over an array reads items until none follows, a loop over an object members. What
such a loop makes of them is told apart from what it reads.
-/

namespace JsonBind
namespace Reader

open Scan (Reads Runs Advances Yields reads_bind_iff reads_pure_iff reads_iterate_iff)

variable {α γ σ : Type} {ending : Ending}

/-!
# Brackets
-/

theorem reads_retold_iff {p : Reader α} {retell : Fault -> Fault} {input rest : List UInt8}
    {a : α} :
    Reads (fun input => (p input).mapError retell) input a rest <-> Reads p input a rest := by
  simp only [Reads, mapError_eq_ok_iff]

theorem reads_enclosed_iff {bracket : Bracket} {inside : Reader α} {input rest : List UInt8}
    {a : α} :
    Reads (enclosed ending bracket inside) input a rest <->
      exists (byte : Option UInt8) (within behind : List UInt8),
        Reads (next ending) input byte within ∧ Reads inside within a behind ∧
          Reads (close ending bracket) behind () rest := by
  unfold enclosed
  simp only [reads_retold_iff, reads_bind_iff, reads_pure_iff]
  constructor
  · rintro ⟨byte, within, hnext, found, behind, hinside, ⟨⟩, left, hclose, rfl, rfl⟩
    exact ⟨byte, within, behind, hnext, hinside, hclose⟩
  · rintro ⟨byte, within, behind, hnext, hinside, hclose⟩
    exact ⟨byte, within, hnext, a, behind, hinside, (), rest, hclose, rfl, rfl⟩

theorem length_lt_of_reads_enclosed {bracket : Bracket} {inside : Reader α} {byte : UInt8}
    {input rest : List UInt8} {a : α}
    (h : Reads (enclosed ending bracket inside) (byte :: input) a rest) :
    rest.length < (byte :: input).length := by
  rcases reads_enclosed_iff.mp h with ⟨_, within, behind, hnext, hinside, hclose⟩
  rcases hnext.unique (reads_next_cons ending byte input) with ⟨_, rfl⟩
  exact Nat.lt_succ_of_le (Nat.le_trans hclose.le hinside.le)

theorem yields_enclosed {converts : γ -> α -> Prop} {p : Reader α} {q : Reader γ}
    (h : forall within : List UInt8, Yields converts p q within) (bracket : Bracket)
    (input : List UInt8) :
    Yields converts (enclosed ending bracket p) (enclosed ending bracket q) input := by
  intro a rest
  simp only [reads_enclosed_iff]
  constructor
  · rintro ⟨byte, within, behind, hnext, hp, hclose⟩
    rcases (h within a behind).mp hp with ⟨c, hq, hconverts⟩
    exact ⟨c, ⟨byte, within, behind, hnext, hq, hclose⟩, hconverts⟩
  · rintro ⟨c, ⟨byte, within, behind, hnext, hq, hclose⟩, hconverts⟩
    exact ⟨byte, within, behind, hnext, (h within a behind).mpr ⟨c, hq, hconverts⟩, hclose⟩

theorem exists_reads_of_itemFollows_false {first : Bool} {input rest : List UInt8}
    (h : Reads (itemFollows ending first) input false rest) :
    exists byte : Option UInt8, Reads (peekBehindBlanks ending) input byte rest := by
  rcases reads_bind_iff.mp h with ⟨byte, mid, hpeek, hmatch⟩
  refine ⟨byte, ?_⟩
  split at hmatch
  · exact absurd hmatch (not_reads_fault _ _ _ _ _)
  · rcases reads_pure_iff.mp hmatch with ⟨_, rfl⟩
    exact hpeek
  · split at hmatch
    · cases (reads_pure_iff.mp hmatch).left
    · simp only [reads_bind_iff] at hmatch
      rcases hmatch with ⟨_, _, _, _, _, _, hmatch⟩
      split at hmatch
      · exact absurd hmatch (not_reads_fault _ _ _ _ _)
      · exact absurd hmatch (not_reads_fault _ _ _ _ _)
      · cases (reads_pure_iff.mp hmatch).left
  · split at hmatch
    · cases (reads_pure_iff.mp hmatch).left
    · exact absurd hmatch (not_reads_fault _ _ _ _ _)

/-- Where an array is closed, no item follows, and looking for one changes nothing. -/
theorem reads_close_square_iff (first : Bool) {input rest : List UInt8} :
    Reads (close ending .square) input () rest <->
      exists mid : List UInt8, Reads (itemFollows ending first) input false mid ∧
        Reads (close ending .square) mid () rest := by
  constructor
  · intro h
    rcases reads_bind_iff.mp h with ⟨byte, mid, hpeek, hmatch⟩
    have hagain := (reads_again hpeek).right
    split at hmatch
    · exact absurd hmatch (not_reads_fault _ _ _ _ _)
    · rename_i hbyte
      refine ⟨mid, reads_bind_iff.mpr ⟨byte, mid, hpeek, ?_⟩,
        reads_bind_iff.mpr ⟨byte, mid, hagain, ?_⟩⟩
      · rw [hbyte]
        exact Reads.pure false mid
      · rw [hbyte]
        exact hmatch
    · simp only [reads_bind_iff] at hmatch
      rcases hmatch with ⟨_, _, _, _, _, _, _, _, _, hmatch⟩
      split at hmatch <;> exact absurd hmatch (not_reads_fault _ _ _ _ _)
    · exact absurd hmatch (not_reads_fault _ _ _ _ _)
  · rintro ⟨mid, hfollows, hclose⟩
    -- Looking for an item may have taken blanks; behind them the same byte is found again.
    rcases exists_reads_of_itemFollows_false hfollows with ⟨byte, hpeek⟩
    rcases reads_bind_iff.mp hclose with ⟨again, behind, hagain, hmatch⟩
    rcases hagain.unique (reads_again hpeek).right with ⟨rfl, rfl⟩
    exact reads_bind_iff.mpr ⟨again, behind, hpeek, hmatch⟩

/-!
# Items
-/

/-- The items that follow each other up to the end of an array, each read by `item`. -/
inductive ItemsRead (ending : Ending) (item : Reader α) :
    Bool -> List UInt8 -> List α -> List UInt8 -> Prop where
  | stop {first : Bool} {input rest : List UInt8} :
      Reads (itemFollows ending first) input false rest ->
      ItemsRead ending item first input [] rest
  | more {first : Bool} {input mid behind rest : List UInt8} {a : α} {as : List α} :
      Reads (itemFollows ending first) input true mid ->
      Reads item mid a behind ->
      ItemsRead ending item false behind as rest ->
      ItemsRead ending item first input (a :: as) rest

theorem itemsRead_iff_of_yields {converts : γ -> α -> Prop} {p : Reader α} {q : Reader γ}
    (h : forall input : List UInt8, Yields converts p q input) {first : Bool}
    {input rest : List UInt8} {as : List α} :
    ItemsRead ending p first input as rest <->
      exists cs : List γ, ItemsRead ending q first input cs rest ∧
        List.Forall₂ converts cs as := by
  constructor
  · intro hread
    induction hread with
    | stop hends => exact ⟨[], .stop hends, .nil⟩
    | more hfollows hitem _ ih =>
        rcases (h _ _ _).mp hitem with ⟨c, hc, hconverts⟩
        rcases ih with ⟨cs, hcs, hmore⟩
        exact ⟨c :: cs, .more hfollows hc hcs, .cons hconverts hmore⟩
  · rintro ⟨cs, hread, hall⟩
    induction hread generalizing as with
    | stop hends =>
        cases hall
        exact .stop hends
    | more hfollows hitem _ ih =>
        cases hall with
        | cons hconverts hmore =>
            exact .more hfollows ((h _ _ _).mpr ⟨_, hitem, hconverts⟩) (ih hmore)

section

variable {item : Reader α} {step : List α -> Reader (Option (List α))}
  (hstep : forall read : List α, step read = do
    if ← itemFollows ending read.isEmpty then return some ((← item) :: read) else return none)

include hstep

theorem reads_item_turn_iff {read : List α} {input rest : List UInt8}
    {turn : Option (List α)} :
    Reads (step read) input turn rest <->
      (turn = none ∧ Reads (itemFollows ending read.isEmpty) input false rest) ∨
        exists (a : α) (mid : List UInt8), turn = some (a :: read) ∧
          Reads (itemFollows ending read.isEmpty) input true mid ∧ Reads item mid a rest := by
  rw [hstep, reads_bind_iff]
  constructor
  · rintro ⟨follows, mid, hfollows, hmore⟩
    cases follows with
    | false =>
        rcases reads_pure_iff.mp hmore with ⟨rfl, rfl⟩
        exact Or.inl ⟨rfl, hfollows⟩
    | true =>
        rcases reads_bind_iff.mp hmore with ⟨a, behind, hitem, hpure⟩
        rcases reads_pure_iff.mp hpure with ⟨rfl, rfl⟩
        exact Or.inr ⟨a, mid, rfl, hfollows, hitem⟩
  · rintro (⟨rfl, hends⟩ | ⟨a, mid, rfl, hfollows, hitem⟩)
    · exact ⟨false, rest, hends, .pure none rest⟩
    · exact ⟨true, mid, hfollows, hitem.bind (.pure (some (a :: read)) rest)⟩

theorem reads_iterate_items_iff (hitem : Advances item) {read last : List α}
    {input rest : List UInt8} :
    Reads (Scan.iterate step read) input last rest <->
      exists as : List α, ItemsRead ending item read.isEmpty input as rest ∧
        last = as.reverse ++ read := by
  have hshorter : forall (read next : List α) (input mid : List UInt8),
      Reads (step read) input (some next) mid -> mid.length < input.length := by
    intro read next input behind hturn
    rcases (reads_item_turn_iff hstep).mp hturn with ⟨hnone, _⟩ | ⟨a, mid, _, hfollows, ha⟩
    · cases hnone
    · exact Nat.lt_of_lt_of_le (hitem mid a behind ha) hfollows.le
  rw [reads_iterate_iff hshorter]
  constructor
  · intro hruns
    induction hruns with
    | stop hturn =>
        rcases (reads_item_turn_iff hstep).mp hturn with ⟨_, hends⟩ | ⟨a, mid, hsome, _⟩
        · exact ⟨[], .stop hends, rfl⟩
        · cases hsome
    | more hturn _ ih =>
        rcases (reads_item_turn_iff hstep).mp hturn with ⟨hnone, _⟩ | ⟨a, mid, hsome, hfollows, ha⟩
        · cases hnone
        · cases hsome
          rcases ih with ⟨as, has, rfl⟩
          refine ⟨a :: as, .more hfollows ha has, ?_⟩
          rw [List.reverse_cons, List.append_assoc, List.singleton_append]
  · rintro ⟨as, has, rfl⟩
    generalize hfirst : read.isEmpty = first at has
    induction has generalizing read with
    | stop hends =>
        exact .stop ((reads_item_turn_iff hstep).mpr (Or.inl ⟨rfl, hfirst ▸ hends⟩))
    | more hfollows ha _ ih =>
        rename_i a as _
        have hturn := (reads_item_turn_iff hstep).mpr
          (Or.inr ⟨a, _, rfl, hfirst ▸ hfollows, ha⟩)
        rw [List.reverse_cons, List.append_assoc, List.singleton_append]
        exact .more hturn (ih rfl)

end

theorem yields_iterate_items {converts : γ -> α -> Prop} {p : Reader α} {q : Reader γ}
    (h : forall input : List UInt8, Yields converts p q input) (hq : Advances q)
    {step : List α -> Reader (Option (List α))} {step' : List γ -> Reader (Option (List γ))}
    (hstep : forall read : List α, step read = do
      if ← itemFollows ending read.isEmpty then return some ((← p) :: read) else return none)
    (hstep' : forall read : List γ, step' read = do
      if ← itemFollows ending read.isEmpty then return some ((← q) :: read) else return none)
    (input : List UInt8) :
    Yields (List.Forall₂ converts) (Scan.iterate step []) (Scan.iterate step' []) input := by
  intro last rest
  simp only [reads_iterate_items_iff hstep (Yields.advances h hq), itemsRead_iff_of_yields h,
    reads_iterate_items_iff hstep' hq, List.append_nil]
  constructor
  · rintro ⟨as, ⟨cs, hread, hall⟩, rfl⟩
    exact ⟨cs.reverse, ⟨cs, hread, rfl⟩, List.forall₂_reverse_iff.mpr hall⟩
  · rintro ⟨_, ⟨cs, hread, rfl⟩, hall⟩
    refine ⟨last.reverse, ⟨cs, hread, ?_⟩, last.reverse_reverse.symm⟩
    rw [← List.forall₂_reverse_iff, List.reverse_reverse]
    exact hall

/-!
# Members
-/

theorem length_lt_of_reads_name {byte : UInt8} {input rest : List UInt8} {text : Option String}
    (h : Reads (name ending) (byte :: input) text rest) :
    rest.length < (byte :: input).length :=
  length_lt_of_reads_next_bind h

theorem length_lt_of_reads_nameFollows {first : Bool} {input rest : List UInt8} {text : String}
    (h : Reads (nameFollows ending first) input (some text) rest) :
    rest.length < input.length := by
  rcases reads_bind_iff.mp h with ⟨byte, mid, hpeek, hmatch⟩
  have hle := hpeek.le
  rcases reads_again hpeek with ⟨rfl, _⟩
  cases mid with
  | nil => exact absurd hmatch (not_reads_fault _ _ _ _ _)
  | cons byte tail =>
      refine Nat.lt_of_lt_of_le ?_ hle
      split at hmatch
      · exact absurd hmatch (not_reads_fault _ _ _ _ _)
      · cases (reads_pure_iff.mp hmatch).left
      · split at hmatch
        · exact absurd hmatch (not_reads_fault _ _ _ _ _)
        · exact length_lt_of_reads_next_bind hmatch
      · split at hmatch
        · exact length_lt_of_reads_name hmatch
        · exact absurd hmatch (not_reads_fault _ _ _ _ _)
      · split at hmatch
        · exact absurd hmatch (not_reads_fault _ _ _ _ _)
        · exact absurd hmatch (not_reads_fault _ _ _ _ _)

inductive MembersRead (ending : Ending) (value : Reader α) :
    Bool -> List UInt8 -> List (String × α) -> List UInt8 -> Prop where
  | stop {first : Bool} {input rest : List UInt8} :
      Reads (nameFollows ending first) input none rest ->
      MembersRead ending value first input [] rest
  | more {first : Bool} {input mid inner behind rest : List UInt8} {name : String} {a : α}
      {members : List (String × α)} :
      Reads (nameFollows ending first) input (some name) mid ->
      Reads (colon ending) mid () inner ->
      Reads value inner a behind ->
      MembersRead ending value false behind members rest ->
      MembersRead ending value first input ((name, a) :: members) rest

theorem membersRead_iff_of_yields {converts : γ -> α -> Prop} {p : Reader α} {q : Reader γ}
    (h : forall input : List UInt8, Yields converts p q input) {first : Bool}
    {input rest : List UInt8} {members : List (String × α)} :
    MembersRead ending p first input members rest <->
      exists others : List (String × γ), MembersRead ending q first input others rest ∧
        List.Forall₂ (fun other member => other.1 = member.1 ∧ converts other.2 member.2)
          others members := by
  constructor
  · intro hread
    induction hread with
    | stop hends => exact ⟨[], .stop hends, .nil⟩
    | more hfollows hcolon hvalue _ ih =>
        rename_i name a members _
        rcases (h _ _ _).mp hvalue with ⟨c, hc, hconverts⟩
        rcases ih with ⟨others, hothers, hmore⟩
        exact ⟨(name, c) :: others, .more hfollows hcolon hc hothers, .cons ⟨rfl, hconverts⟩ hmore⟩
  · rintro ⟨others, hread, hall⟩
    induction hread generalizing members with
    | stop hends =>
        cases hall
        exact .stop hends
    | more hfollows hcolon hvalue _ ih =>
        cases hall with
        | cons hconverts hmore =>
            rename_i member _
            rcases member with ⟨name, a⟩
            rcases hconverts with ⟨rfl, hconverts⟩
            exact .more hfollows hcolon ((h _ _ _).mpr ⟨_, hvalue, hconverts⟩) (ih hmore)

/-- The states that members lead through, one after the other. -/
inductive LedBy (takes : σ -> String × α -> σ -> Prop) : List (String × α) -> σ -> σ -> Prop where
  | nil (state : σ) : LedBy takes [] state state
  | cons {member : String × α} {members : List (String × α)} {state next last : σ} :
      takes state member next ->
      LedBy takes members next last ->
      LedBy takes (member :: members) state last

section

variable {value : Reader α} {first : σ -> Bool} {takes : σ -> String × α -> σ -> Prop}
  {step : σ -> Reader (Option σ)}
  (hfirst : forall (state next : σ) (member : String × α),
    takes state member next -> first next = false)
  (hturn : forall (state : σ) (turn : Option σ) (input rest : List UInt8),
    Reads (step state) input turn rest <->
      (turn = none ∧ Reads (nameFollows ending (first state)) input none rest) ∨
        exists (member : String × α) (next : σ) (mid inner : List UInt8),
          turn = some next ∧ takes state member next ∧
            Reads (nameFollows ending (first state)) input (some member.1) mid ∧
              Reads (colon ending) mid () inner ∧ Reads value inner member.2 rest)

include hfirst hturn

theorem reads_iterate_members_iff {state last : σ} {input rest : List UInt8} :
    Reads (Scan.iterate step state) input last rest <->
      exists members : List (String × α),
        MembersRead ending value (first state) input members rest ∧
          LedBy takes members state last := by
  have hshorter : forall (state next : σ) (input mid : List UInt8),
      Reads (step state) input (some next) mid -> mid.length < input.length := by
    intro state next input behind h
    rcases (hturn _ _ _ _).mp h with
      ⟨hnone, _⟩ | ⟨member, _, mid, inner, _, _, hfollows, hcolon, hvalue⟩
    · cases hnone
    · have hlt := length_lt_of_reads_nameFollows hfollows
      exact Nat.lt_of_le_of_lt (Nat.le_trans hvalue.le hcolon.le) hlt
  rw [reads_iterate_iff hshorter]
  constructor
  · intro hruns
    induction hruns with
    | stop h =>
        rcases (hturn _ _ _ _).mp h with ⟨_, hends⟩ | ⟨_, _, _, _, hsome, _⟩
        · exact ⟨[], .stop hends, .nil _⟩
        · cases hsome
    | more h _ ih =>
        rcases (hturn _ _ _ _).mp h with
          ⟨hnone, _⟩ | ⟨⟨name, a⟩, _, mid, inner, hsome, htakes, hfollows, hcolon, hvalue⟩
        · cases hnone
        · cases hsome
          rcases ih with ⟨members, hmembers, hled⟩
          rw [hfirst _ _ _ htakes] at hmembers
          exact ⟨(name, a) :: members, .more hfollows hcolon hvalue hmembers, .cons htakes hled⟩
  · intro h
    rcases h with ⟨members, hmembers, hled⟩
    generalize hisFirst : first state = isFirst at hmembers
    induction hmembers generalizing state with
    | stop hends =>
        cases hled
        exact .stop ((hturn _ _ _ _).mpr (Or.inl ⟨rfl, hisFirst ▸ hends⟩))
    | more hfollows hcolon hvalue _ ih =>
        cases hled with
        | cons htakes hled =>
            have h := (hturn _ _ _ _).mpr
              (Or.inr ⟨_, _, _, _, rfl, htakes, hisFirst ▸ hfollows, hcolon, hvalue⟩)
            exact .more h (ih hled (hfirst _ _ _ htakes))

end

/-!
# Members that are put to each other
-/

theorem ledBy_put_iff {put : σ -> String × α -> σ} {members : List (String × α)}
    {state last : σ} :
    LedBy (fun state member next => next = put state member) members state last <->
      last = members.foldl put state := by
  constructor
  · intro h
    induction h with
    | nil state => rfl
    | cons htakes _ ih =>
        subst htakes
        exact ih
  · intro h
    subst h
    induction members generalizing state with
    | nil => exact .nil state
    | cons member members ih => exact .cons rfl ih

section

variable {value : Reader α} {first : σ -> Bool} {put : σ -> String × α -> σ}
  {step : σ -> Reader (Option σ)}
  (hfirst : forall (state : σ) (member : String × α), first (put state member) = false)
  (hstep : forall state : σ, step state = do
    match ← nameFollows ending (first state) with
    | none => return none
    | some name =>
        colon ending
        return some (put state (name, ← value)))

include hstep in
theorem reads_put_turn_iff (state : σ) (turn : Option σ) (input rest : List UInt8) :
    Reads (step state) input turn rest <->
      (turn = none ∧ Reads (nameFollows ending (first state)) input none rest) ∨
        exists (member : String × α) (next : σ) (mid inner : List UInt8),
          turn = some next ∧ next = put state member ∧
            Reads (nameFollows ending (first state)) input (some member.1) mid ∧
              Reads (colon ending) mid () inner ∧ Reads value inner member.2 rest := by
  rw [hstep, reads_bind_iff]
  constructor
  · intro h
    rcases h with ⟨name?, mid, hfollows, hmore⟩
    cases name? with
    | none =>
        rcases reads_pure_iff.mp hmore with ⟨rfl, rfl⟩
        exact Or.inl ⟨rfl, hfollows⟩
    | some name =>
        simp only [reads_bind_iff, reads_pure_iff] at hmore
        rcases hmore with ⟨⟨⟩, inner, hcolon, a, behind, hvalue, rfl, rfl⟩
        exact Or.inr ⟨(name, a), _, mid, inner, rfl, rfl, hfollows, hcolon, hvalue⟩
  · intro h
    rcases h with ⟨rfl, hends⟩ | ⟨member, _, mid, inner, rfl, rfl, hfollows, hcolon, hvalue⟩
    · exact ⟨none, rest, hends, .pure none rest⟩
    · exact ⟨some member.1, mid, hfollows, hcolon.bind (hvalue.bind (.pure _ rest))⟩

include hfirst hstep in
theorem reads_iterate_put_iff {state last : σ} {input rest : List UInt8} :
    Reads (Scan.iterate step state) input last rest <->
      exists members : List (String × α),
        MembersRead ending value (first state) input members rest ∧
          last = members.foldl put state := by
  have hnext : forall (state next : σ) (member : String × α),
      next = put state member -> first next = false := by
    intro state next member heq
    rw [heq, hfirst]
  simp only [reads_iterate_members_iff hnext (reads_put_turn_iff hstep), ledBy_put_iff]

end

end Reader
end JsonBind
