import JsonBind.Reader.Source
import JsonBind.Proofs.Reader.Loop
import JsonBind.Proofs.Value.Depth

/-!
# Trees read back

A tree without doubles, in which no object has two members of one name, reads back
from its text in each layout, if as many containers may be open within each other
as it is deep.
-/

namespace JsonBind
namespace Reader

open Scan (Reads)

/-!
# Ways to read a value

There is more than one way to put a member to those that have been read. The readers of
values that differ in nothing else are taken together here.
-/

def valueAt (ending : Ending) (more : Reader Value -> Members -> Reader (Option Members))
    (inner : Option (Reader Value)) (first : Option Char) : Reader Value :=
  match first, inner with
  | some '[', none => fault .tooDeep .atNext
  | some '{', none => fault .tooDeep .atNext
  | some '[', some item => do
      let items ← enclosed ending .square (Scan.iterate (moreItems ending item) [])
      return .array items.reverse
  | some '{', some value => do
      let members ← enclosed ending .curly (Scan.iterate (more value) [])
      return .object members
  | _, _ => scalar ending

def valueBy (ending : Ending) (more : Reader Value -> Members -> Reader (Option Members))
    (inner : Option (Reader Value)) : Reader Value := do
  valueAt ending more inner ((← peekBehindBlanks ending).map Char.ofUInt8)

theorem valueWith_eq (ending : Ending) (inner : Option (Reader Value)) :
    valueWith ending inner = valueBy ending (moreMembers ending) inner :=
  rfl

theorem valueAt_of_ne {ending : Ending}
    (more : Reader Value -> Members -> Reader (Option Members)) (inner : Option (Reader Value))
    {first : Option Char} (hsquare : first ≠ some '[') (hcurly : first ≠ some '{') :
    valueAt ending more inner first = scalar ending := by
  unfold valueAt
  split
  · exact absurd rfl hsquare
  · exact absurd rfl hcurly
  · exact absurd rfl hsquare
  · exact absurd rfl hcurly
  · rfl

section

variable {more : Reader Value -> Members -> Reader (Option Members)}

/-!
# Scalars
-/

def StartsScalar (c : Char) : Prop :=
  IsMark c ∧ c ≠ ']' ∧ c ≠ '[' ∧ c ≠ '{'

instance (c : Char) : Decidable (StartsScalar c) :=
  inferInstanceAs (Decidable (_ ∧ _))

theorem startsScalar_of_isDigit {c : Char} (h : c.isDigit = true) : StartsScalar c := by
  have hne : forall mark : Char, mark.isDigit = false -> c ≠ mark := by
    intro mark hmark heq
    rw [heq, hmark] at h
    cases h
  exact ⟨isMark_of_isDigit h, hne ']' rfl, hne '[' rfl, hne '{' rfl⟩

theorem reads_valueBy_of_scalar (inner : Option (Reader Value)) {c : Char}
    (hc : StartsScalar c) {v : Value} {cs : List Char} {rest : List UInt8}
    (h : Reads (scalar .clean) (Utf8.ofChars (c :: cs)) v rest) {blanks : List Char}
    (hblanks : Blanks blanks) :
    Reads (valueBy .clean more inner) (Utf8.ofChars (blanks ++ c :: cs)) v rest := by
  rcases hc with ⟨hmark, _, hsquare, hcurly⟩
  apply (reads_peekBehindBlanks hblanks hmark cs).bind
  rw [map_ofUInt8_of_isMark hmark, valueAt_of_ne]
  · exact h
  · exact fun heq => hsquare (Option.some.inj heq)
  · exact fun heq => hcurly (Option.some.inj heq)

theorem readsBack_of_scalar {v : Value}
    (h : forall (layout : Layout) (level : Nat) (rest : List Char), Delimits rest ->
      exists (c : Char) (cs : List Char), v.textAppend layout level rest = c :: cs ∧
        StartsScalar c ∧ Reads (scalar .clean) (Utf8.ofChars (c :: cs)) v (Utf8.ofChars rest))
    (inner : Option (Reader Value)) : ReadsBack (valueBy .clean more inner) v v where
  starts := by
    intro layout level
    rcases h layout level [] delimits_nil with ⟨c, cs, htext, hc, _⟩
    exact ⟨c, cs, htext, hc.left, hc.right.left⟩
  reads := by
    intro layout level blanks rest hblanks hrest
    rcases h layout level rest hrest with ⟨c, cs, htext, hc, hscalar⟩
    rw [htext]
    exact reads_valueBy_of_scalar inner hc hscalar hblanks

theorem readsBack_null (inner : Option (Reader Value)) :
    ReadsBack (valueBy .clean more inner) .null .null := by
  apply readsBack_of_scalar
  intro layout level rest _
  refine ⟨'n', 'u' :: 'l' :: 'l' :: rest, ?_, by decide, reads_scalar_null rest⟩
  rw [Value.textAppend]

theorem readsBack_bool (flag : Bool) (inner : Option (Reader Value)) :
    ReadsBack (valueBy .clean more inner) (.bool flag) (.bool flag) := by
  apply readsBack_of_scalar
  intro layout level rest _
  cases flag with
  | true =>
      refine ⟨'t', 'r' :: 'u' :: 'e' :: rest, ?_, by decide, reads_scalar_true rest⟩
      rw [Value.textAppend]
  | false =>
      refine ⟨'f', 'a' :: 'l' :: 's' :: 'e' :: rest, ?_, by decide, reads_scalar_false rest⟩
      rw [Value.textAppend]

theorem readsBack_string (text : String) (inner : Option (Reader Value)) :
    ReadsBack (valueBy .clean more inner) (.string text) (.string text) := by
  apply readsBack_of_scalar
  intro layout level rest _
  refine ⟨'"', Text.escapedAppend text.toList ('"' :: rest), ?_, by decide,
    reads_scalar_string text rest⟩
  rw [Value.textAppend, Text.stringAppend]

theorem readsBack_int {n : Int} (bounds : Number.Bounds n)
    (inner : Option (Reader Value)) :
    ReadsBack (valueBy .clean more inner) (.number (.int n bounds)) (.number (.int n bounds)) := by
  apply readsBack_of_scalar
  intro layout level rest hrest
  have hscalar := reads_scalar_int bounds hrest
  rw [Value.textAppend, Number.textAppend]
  cases n with
  | ofNat m =>
      rcases exists_natural_eq_cons m with ⟨digit, digits, heq, hdigit⟩
      rw [Decimal.integer, heq] at hscalar ⊢
      exact ⟨digit, digits ++ rest, rfl, startsScalar_of_isDigit hdigit, hscalar⟩
  | negSucc m =>
      rw [Decimal.integer] at hscalar ⊢
      exact ⟨'-', Decimal.natural (m + 1) ++ rest, rfl, by decide, hscalar⟩

/-!
# Containers
-/

theorem readsBack_array {item : Reader Value} {items : List Value}
    (h : List.Forall₂ (ReadsBack item) items items) :
    ReadsBack (valueBy .clean more (some item)) (.array items) (.array items) := by
  apply readsBack_of_opening .square
  intro layout level rest
  rcases reads_items (fun read => (rfl : moreItems .clean item read = _)) h layout level rest with
    ⟨cs, htext, hloop⟩
  refine ⟨cs, htext, ?_⟩
  intro blanks hblanks
  apply (reads_peekBehindBlanks hblanks (Bracket.isMark_opening .square) cs).bind
  apply (reads_enclosed .square blanks_nil hloop).bind
  show Reads (pure (Value.array items.reverse.reverse)) _ _ _
  rw [List.reverse_reverse]
  exact Reads.pure (Value.array items) (Utf8.ofChars rest)

end

/-!
# Members
-/

section

variable {more : Reader Value -> Members -> Reader (Option Members)}
  {put : Members -> String -> Value -> Members}
  (hmore : forall (value : Reader Value) (read : Members), more value read = do
    match ← nameFollows .clean read.isEmpty with
    | none => return none
    | some name =>
        colon .clean
        return some (put read name (← value)))
  (hput : forall (read : Members) (name : String) (v : Value), name ∉ read.names ->
    put read name v = read ++ [(name, v)])

include hput in
theorem membersTaken_of_nodup {value : Reader Value} {read members : Members}
    (hnodup : (read ++ members).names.Nodup)
    (h : forall member : String × Value, member ∈ members -> ReadsBack value member.2 member.2) :
    MembersTaken List.isEmpty
      (fun (read : Members) name => do
        colon .clean
        return some (put read name (← value)))
      members read (read ++ members) := by
  induction members generalizing read with
  | nil =>
      rw [List.append_nil]
      exact .nil read
  | cons member members ih =>
      rcases member with ⟨name, v⟩
      have hvalue := h (name, v) List.mem_cons_self
      have hnew : name ∉ Members.names read := by
        intro hmem
        rw [Members.names, List.map_append] at hnodup
        exact (List.nodup_append.mp hnodup).right.right name hmem name List.mem_cons_self rfl
      have hbehind := hput read name v hnew
      rw [List.append_cons] at hnodup ⊢
      refine .cons hvalue.starts ?_ (by simp) (ih hnodup ?_)
      · intro layout level rest hrest
        rw [Layout.colonAppend_eq]
        apply (reads_colon _).bind
        apply (hvalue.reads layout level layout.gap rest layout.blanks_gap hrest).bind
        show Reads (pure (some (put read name v))) _ _ _
        rw [hbehind]
        exact Reads.pure _ (Utf8.ofChars rest)
      · intro other hother
        exact h other (List.mem_cons_of_mem (name, v) hother)

include hmore hput in
theorem readsBack_object {value : Reader Value} {members : Members}
    (hnodup : members.names.Nodup)
    (h : forall member : String × Value, member ∈ members -> ReadsBack value member.2 member.2) :
    ReadsBack (valueBy .clean more (some value)) (.object members) (.object members) := by
  have htaken := @membersTaken_of_nodup put hput value [] members hnodup h
  apply readsBack_of_opening .curly
  intro layout level rest
  rcases reads_members (hmore value) htaken rfl layout level rest with ⟨cs, htext, hloop⟩
  refine ⟨cs, htext, ?_⟩
  intro blanks hblanks
  apply (reads_peekBehindBlanks hblanks (Bracket.isMark_opening .curly) cs).bind
  exact (reads_enclosed .curly blanks_nil hloop).bind (.pure (Value.object members) _)

end

/-!
# Values
-/

/-- A tree that reads back where up to `levels` containers may be open within each other. -/
structure Fits (levels : Nat) (v : Value) : Prop where
  integral : v.Integral
  distinct : v.Distinct
  depth : v.depth ≤ levels

theorem Fits.mono {levels more : Nat} {v : Value} (h : Fits levels v) (hle : levels ≤ more) :
    Fits more v :=
  ⟨h.integral, h.distinct, Nat.le_trans h.depth hle⟩

theorem Fits.exists_of_isContainer {levels : Nat} {v : Value} (h : Fits levels v)
    (hv : v.isContainer = true) :
    exists inner : Nat, levels = inner + 1 ∧
      forall child : Value, child ∈ v.children -> Fits inner child := by
  have hdepth := h.depth
  rw [Value.depth_of_isContainer hv] at hdepth
  cases levels with
  | zero => exact absurd hdepth (Nat.not_succ_le_zero _)
  | succ inner =>
      refine ⟨inner, rfl, ?_⟩
      intro child hmem
      constructor
      · exact h.integral.child hmem
      · exact h.distinct.child hmem
      · exact Nat.le_trans (Value.depth_le_itemsDepth hmem) (Nat.le_of_succ_le_succ hdepth)

theorem Fits.exists_of_array {levels : Nat} {items : List Value}
    (h : Fits levels (.array items)) :
    exists inner : Nat, levels = inner + 1 ∧
      forall item : Value, item ∈ items -> Fits inner item :=
  h.exists_of_isContainer rfl

theorem Fits.exists_of_object {levels : Nat} {members : Members}
    (h : Fits levels (.object members)) :
    exists inner : Nat, levels = inner + 1 ∧
      forall member : String × Value, member ∈ members -> Fits inner member.2 := by
  rcases h.exists_of_isContainer rfl with ⟨inner, rfl, hchildren⟩
  refine ⟨inner, rfl, ?_⟩
  intro member hmem
  exact hchildren member.2 (List.mem_map_of_mem hmem)

theorem Fits.scalar (levels : Nat) {v : Value} (hv : v.isContainer = false)
    (hfloat : forall (x : Float) (finite : x.isFinite = true), v ≠ .number (.float x finite)) :
    Fits levels v := by
  rcases Value.children_of_not_isContainer hv with ⟨hchildren, hdepth⟩
  have hnone : forall (P : Value -> Prop) (child : Value), child ∈ v.children -> P child := by
    intro P child hmem
    rw [hchildren] at hmem
    cases hmem
  constructor
  · exact .intro hfloat (hnone _)
  · refine .intro ?_ (hnone _)
    intro members heq
    rw [heq] at hv
    cases hv
  · rw [hdepth]
    exact Nat.zero_le levels

theorem Fits.string (levels : Nat) (text : String) : Fits levels (.string text) :=
  .scalar levels rfl (by intro x finite heq; cases heq)

theorem Fits.int (levels : Nat) {n : Int} (bounds : Number.Bounds n) :
    Fits levels (.number (.int n bounds)) :=
  .scalar levels rfl (by intro x finite heq; cases heq)

theorem Fits.container {levels : Nat} {v : Value} (hv : v.isContainer = true)
    (hnodup : forall members : Members, v = .object members -> members.names.Nodup)
    (h : forall child : Value, child ∈ v.children -> Fits levels child) :
    Fits (levels + 1) v := by
  constructor
  · refine .intro ?_ fun child hmem => (h child hmem).integral
    intro x finite heq
    rw [heq] at hv
    cases hv
  · exact .intro hnodup fun child hmem => (h child hmem).distinct
  · rw [Value.depth_of_isContainer hv]
    exact Nat.succ_le_succ (Value.itemsDepth_le fun child hmem => (h child hmem).depth)

theorem Fits.array {levels : Nat} {items : List Value}
    (h : forall item : Value, item ∈ items -> Fits levels item) :
    Fits (levels + 1) (.array items) :=
  .container rfl (by intro members heq; cases heq) h

theorem Fits.object {levels : Nat} {members : Members} (hnodup : members.names.Nodup)
    (h : forall member : String × Value, member ∈ members -> Fits levels member.2) :
    Fits (levels + 1) (.object members) := by
  apply Fits.container rfl
  · intro other heq
    cases heq
    exact hnodup
  · intro child hmem
    rcases List.mem_map.mp hmem with ⟨member, hmember, rfl⟩
    exact h member hmember

theorem readsBack_of_levels {root : Nat -> Reader Value}
    {more : Reader Value -> Members -> Reader (Option Members)}
    {put : Members -> String -> Value -> Members}
    (hmore : forall (value : Reader Value) (read : Members), more value read = do
      match ← nameFollows .clean read.isEmpty with
      | none => return none
      | some name =>
          colon .clean
          return some (put read name (← value)))
    (hput : forall (read : Members) (name : String) (v : Value), name ∉ read.names ->
      put read name v = read ++ [(name, v)])
    (hzero : root 0 = valueBy .clean more none)
    (hsucc : forall levels : Nat, root (levels + 1) = valueBy .clean more (some (root levels)))
    {levels : Nat} {v : Value} (h : Fits levels v) : ReadsBack (root levels) v v := by
  have hroot : forall levels : Nat,
      exists inner : Option (Reader Value), root levels = valueBy .clean more inner := by
    intro levels
    cases levels with
    | zero => exact ⟨none, hzero⟩
    | succ levels => exact ⟨some (root levels), hsucc levels⟩
  induction v using Value.induction generalizing levels with
  | null =>
      rcases hroot levels with ⟨inner, hinner⟩
      exact hinner ▸ readsBack_null inner
  | bool flag =>
      rcases hroot levels with ⟨inner, hinner⟩
      exact hinner ▸ readsBack_bool flag inner
  | number n =>
      rcases hroot levels with ⟨inner, hinner⟩
      cases n with
      | int n bounds => exact hinner ▸ readsBack_int bounds inner
      | float x finite => exact absurd rfl (h.integral.here x finite)
  | string text =>
      rcases hroot levels with ⟨inner, hinner⟩
      exact hinner ▸ readsBack_string text inner
  | array items ih =>
      rcases h.exists_of_array with ⟨levels, rfl, hitems⟩
      rw [hsucc]
      refine readsBack_array (List.forall₂_same.mpr ?_)
      intro item hmem
      exact ih item hmem (hitems item hmem)
  | object members ih =>
      rcases h.exists_of_object with ⟨levels, rfl, hmembers⟩
      rw [hsucc]
      refine readsBack_object hmore hput (h.distinct.here members rfl) ?_
      intro member hmem
      exact ih member hmem (hmembers member hmem)

theorem readsBack_value {levels : Nat} {v : Value} (h : Fits levels v) :
    ReadsBack (value .clean levels) v v :=
  readsBack_of_levels (fun _ _ => rfl) (fun _ _ v hnew => Members.insert_of_not_mem hnew v)
    (valueWith_eq .clean none) (fun levels => valueWith_eq .clean (some (value .clean levels))) h

end Reader
end JsonBind
