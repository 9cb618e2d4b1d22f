import JsonBind.Proofs.Reader.Source
import JsonBind.Proofs.Reader.Turns
import JsonBind.Proofs.Value.Settled

/-!
# Documents as written

Reading a tree keeps one member of each name. The reader below goes through a text in the
same way, and keeps all members in the order in which they are written. The tree that is
read from a text is what it keeps, settled.
-/

namespace JsonBind
namespace Reader

/-- One more member behind those read already, whether or not its name came before. -/
def writtenMembers (ending : Ending) (value : Reader Value) (members : Members) :
    Reader (Option Members) := do
  match ← nameFollows ending members.isEmpty with
  | none => return none
  | some name =>
      colon ending
      return some (members ++ [(name, ← value)])

/-- A value as it is written, in which up to `levels` containers are open within each other. -/
def written (ending : Ending) : Nat -> Reader Value
  | 0 => valueBy ending (writtenMembers ending) none
  | levels + 1 => valueBy ending (writtenMembers ending) (some (written ending levels))

end Reader

def Source.written (source : Source) : Except Fault Value :=
  source.read Reader.written

namespace Reader

open Scan (Reads Advances Yields reads_bind_iff reads_pure_iff)

variable {ending : Ending}

/-!
# Single values
-/

theorem not_array_of_reads_valueAt {more : Reader Value -> Members -> Reader (Option Members)}
    {inner : Option (Reader Value)} {first : Option Char} (hne : first ≠ some '[')
    {input rest : List UInt8} {items : List Value} :
    ¬ Reads (valueAt ending more inner first) input (.array items) rest := by
  intro h
  by_cases hcurly : first = some '{'
  · subst hcurly
    cases inner with
    | none => exact absurd h (not_reads_fault _ _ _ _ _)
    | some value =>
        rcases reads_bind_iff.mp h with ⟨members, behind, _, hpure⟩
        cases (reads_pure_iff.mp hpure).left
  · rw [valueAt_of_ne more inner hne hcurly] at h
    cases (kind_of_reads_scalar h).left

theorem head?_of_reads_valueAt_string
    {more : Reader Value -> Members -> Reader (Option Members)} {inner : Option (Reader Value)}
    {first : Option Char} {input rest : List UInt8} {text : String}
    (h : Reads (valueAt ending more inner first) input (.string text) rest) :
    input.head?.map Char.ofUInt8 = some '"' := by
  unfold valueAt at h
  split at h
  · exact absurd h (not_reads_fault _ _ _ _ _)
  · exact absurd h (not_reads_fault _ _ _ _ _)
  · rcases reads_bind_iff.mp h with ⟨items, behind, _, hpure⟩
    cases (reads_pure_iff.mp hpure).left
  · rcases reads_bind_iff.mp h with ⟨members, behind, _, hpure⟩
    cases (reads_pure_iff.mp hpure).left
  · exact (kind_of_reads_scalar h).right text rfl

theorem advances_valueBy (more : Reader Value -> Members -> Reader (Option Members))
    (inner : Option (Reader Value)) : Advances (valueBy ending more inner) := by
  intro input v rest h
  rcases reads_bind_iff.mp h with ⟨byte, mid, hpeek, hmore⟩
  refine Nat.lt_of_lt_of_le ?_ hpeek.le
  rcases reads_again hpeek with ⟨rfl, _⟩
  unfold valueAt at hmore
  cases mid with
  | nil => exact advances_scalar [] v rest hmore
  | cons byte tail =>
      split at hmore
      · exact absurd hmore (not_reads_fault _ _ _ _ _)
      · exact absurd hmore (not_reads_fault _ _ _ _ _)
      · rcases reads_bind_iff.mp hmore with ⟨items, behind, henclosed, hpure⟩
        exact Nat.lt_of_le_of_lt hpure.le (length_lt_of_reads_enclosed henclosed)
      · rcases reads_bind_iff.mp hmore with ⟨members, behind, henclosed, hpure⟩
        exact Nat.lt_of_le_of_lt hpure.le (length_lt_of_reads_enclosed henclosed)
      · exact advances_scalar _ v rest hmore

def writtenInside (ending : Ending) : Nat -> Option (Reader Value)
  | 0 => none
  | levels + 1 => some (written ending levels)

theorem written_eq (ending : Ending) (levels : Nat) :
    written ending levels =
      valueBy ending (writtenMembers ending) (writtenInside ending levels) := by
  cases levels <;> rfl

theorem advances_written (ending : Ending) (levels : Nat) : Advances (written ending levels) := by
  rw [written_eq]
  exact advances_valueBy (writtenMembers ending) (writtenInside ending levels)

/-!
# The insides of containers
-/

theorem isEmpty_insert (name : String) (value : Value) (members : Members) :
    (members.insert name value).isEmpty = false := by
  cases members with
  | nil => rfl
  | cons member rest =>
      rw [Members.insert]
      split <;> rfl

theorem reads_iterate_moreMembers_iff {value : Reader Value} {input rest : List UInt8}
    {members : Members} :
    Reads (Scan.iterate (moreMembers ending value) []) input members rest <->
      exists writes : List (String × Value), MembersRead ending value true input writes rest ∧
        members = Members.ofWrites writes :=
  @reads_iterate_put_iff _ _ ending value List.isEmpty
    (fun read member => Members.insert member.1 member.2 read) (moreMembers ending value)
    (fun read member => isEmpty_insert member.1 member.2 read) (fun _ => rfl) [] members input rest

theorem reads_iterate_writtenMembers_iff {value : Reader Value} {input rest : List UInt8}
    {members : Members} :
    Reads (Scan.iterate (writtenMembers ending value) []) input members rest <->
      MembersRead ending value true input members rest := by
  have hput : forall (read : Members) (member : String × Value),
      (read ++ [member]).isEmpty = false := by
    intro read member
    simp
  have hfold : forall writes : Members,
      writes.foldl (fun read member => read ++ [member]) [] = writes := by
    intro writes
    simp [← List.flatMap_def]
  have hloop := @reads_iterate_put_iff _ _ ending value List.isEmpty
    (fun read member => read ++ [member]) (writtenMembers ending value) hput (fun _ => rfl) []
    members input rest
  simp only [hfold] at hloop
  rw [hloop]
  constructor
  · rintro ⟨_, hmembers, rfl⟩
    exact hmembers
  · intro hmembers
    exact ⟨members, hmembers, rfl⟩

theorem reads_written_array_iff {levels : Nat} {input rest : List UInt8} {w : Value} :
    Reads (valueAt ending (writtenMembers ending) (some (written ending levels)) (some '['))
        input w rest <->
      exists (items : List Value) (byte : Option UInt8) (within behind : List UInt8),
        w = .array items ∧ Reads (next ending) input byte within ∧
          ItemsRead ending (written ending levels) true within items behind ∧
            Reads (close ending .square) behind () rest := by
  have hloop : forall {read : List Value} {within behind : List UInt8},
      Reads (Scan.iterate (moreItems ending (written ending levels)) []) within read behind <->
        exists items : List Value,
          ItemsRead ending (written ending levels) true within items behind ∧
            read = items.reverse ++ [] :=
    reads_iterate_items_iff (fun _ => rfl) (advances_written ending levels)
  unfold valueAt
  simp only [reads_bind_iff, reads_pure_iff, reads_enclosed_iff, hloop, List.append_nil]
  constructor
  · rintro ⟨_, _, ⟨byte, within, behind, hnext, ⟨items, hitems, rfl⟩, hclose⟩, rfl, rfl⟩
    exact ⟨items, byte, within, behind, by rw [List.reverse_reverse], hnext, hitems, hclose⟩
  · rintro ⟨items, byte, within, behind, rfl, hnext, hitems, hclose⟩
    exact ⟨items.reverse, rest, ⟨byte, within, behind, hnext, ⟨items, hitems, rfl⟩, hclose⟩,
      by rw [List.reverse_reverse], rfl⟩

theorem reads_written_object_iff {levels : Nat} {input rest : List UInt8} {w : Value} :
    Reads (valueAt ending (writtenMembers ending) (some (written ending levels)) (some '{'))
        input w rest <->
      exists (members : Members) (byte : Option UInt8) (within behind : List UInt8),
        w = .object members ∧ Reads (next ending) input byte within ∧
          MembersRead ending (written ending levels) true within members behind ∧
            Reads (close ending .curly) behind () rest := by
  unfold valueAt
  simp only [reads_bind_iff, reads_pure_iff, reads_enclosed_iff, reads_iterate_writtenMembers_iff]
  constructor
  · rintro ⟨members, _, ⟨byte, within, behind, hnext, hmembers, hclose⟩, rfl, rfl⟩
    exact ⟨members, byte, within, behind, rfl, hnext, hmembers, hclose⟩
  · rintro ⟨members, byte, within, behind, rfl, hnext, hmembers, hclose⟩
    exact ⟨members, rest, ⟨byte, within, behind, hnext, hmembers, hclose⟩, rfl, rfl⟩

/-!
# Trees
-/

theorem yields_fault {α : Type} {converts : Value -> α -> Prop} (cause : Cause) (mark : Mark)
    (input : List UInt8) :
    Yields converts (fault cause mark) (fault cause mark : Reader Value) input := by
  apply Scan.yields_of_not_reads (not_reads_fault _ _ _)
  intro w rest a h
  exact absurd h (not_reads_fault _ _ _ _ _)

theorem yields_scalar (input : List UInt8) :
    Yields (fun w v => w.settled = v) (scalar ending) (scalar ending) input := by
  intro v rest
  constructor
  · intro h
    exact ⟨v, h, Value.settled_of_not_isContainer (kind_of_reads_scalar h).left⟩
  · rintro ⟨w, h, rfl⟩
    rw [Value.settled_of_not_isContainer (kind_of_reads_scalar h).left]
    exact h

theorem forall₂_settled_iff {ws vs : List Value} :
    List.Forall₂ (fun w v => w.settled = v) ws vs <-> ws.map Value.settled = vs := by
  rw [← List.forall₂_map_left_iff, List.forall₂_eq_eq_eq]

theorem forall₂_settled_members_iff {ws vs : Members} :
    List.Forall₂ (fun w v => w.1 = v.1 ∧ w.2.settled = v.2) ws vs <->
      (ws.map fun w => (w.1, w.2.settled)) = vs := by
  rw [← List.forall₂_eq_eq_eq, List.forall₂_map_left_iff]
  simp only [Prod.ext_iff]

section

variable {value written : Reader Value}
  (h : forall input : List UInt8, Yields (fun w v => w.settled = v) value written input)

include h

theorem yields_iterate_members (input : List UInt8) :
    Yields (fun ws vs => Value.settled (.object ws) = .object vs)
      (Scan.iterate (moreMembers ending value) [])
      (Scan.iterate (writtenMembers ending written) []) input := by
  intro members rest
  simp only [reads_iterate_moreMembers_iff, reads_iterate_writtenMembers_iff,
    membersRead_iff_of_yields h, forall₂_settled_members_iff, Value.settled_object,
    Value.object.injEq]
  constructor
  · rintro ⟨_, ⟨writes, hread, rfl⟩, rfl⟩
    exact ⟨writes, hread, rfl⟩
  · rintro ⟨writes, hread, rfl⟩
    exact ⟨_, ⟨writes, hread, rfl⟩, rfl⟩

theorem yields_valueAt (hadvances : Advances written) (first : Option Char)
    (input : List UInt8) :
    Yields (fun w v => w.settled = v) (valueAt ending (moreMembers ending) (some value) first)
      (valueAt ending (writtenMembers ending) (some written) first) input := by
  by_cases hsquare : first = some '['
  · subst hsquare
    have hitems := yields_iterate_items h hadvances (fun _ => (rfl : moreItems ending value _ = _))
      (fun _ => (rfl : moreItems ending written _ = _))
    refine Yields.bind_pure (yields_enclosed hitems .square input) ?_
    intro ws v
    simp only [forall₂_settled_iff, Value.settled_array, List.map_reverse, exists_eq_left']
    exact eq_comm
  by_cases hcurly : first = some '{'
  · subst hcurly
    refine Yields.bind_pure (yields_enclosed (yields_iterate_members h) .curly input) ?_
    intro ws v
    rw [Value.settled_object]
    constructor
    · rintro rfl
      exact ⟨_, rfl, rfl⟩
    · rintro ⟨vs, heq, rfl⟩
      exact heq
  · rw [valueAt_of_ne _ _ hsquare hcurly, valueAt_of_ne _ _ hsquare hcurly]
    exact yields_scalar input

end

theorem yields_valueAt_none (first : Option Char) (input : List UInt8) :
    Yields (fun w v => w.settled = v) (valueAt ending (moreMembers ending) none first)
      (valueAt ending (writtenMembers ending) none first) input := by
  by_cases hsquare : first = some '['
  · subst hsquare
    exact yields_fault .tooDeep .atNext input
  by_cases hcurly : first = some '{'
  · subst hcurly
    exact yields_fault .tooDeep .atNext input
  · rw [valueAt_of_ne _ _ hsquare hcurly, valueAt_of_ne _ _ hsquare hcurly]
    exact yields_scalar input

/-- What is read as a tree is the value that is written, settled. -/
theorem yields_value_written (levels : Nat) (input : List UInt8) :
    Yields (fun w v => w.settled = v) (value ending levels) (written ending levels) input := by
  induction levels generalizing input with
  | zero =>
      rw [value, valueWith_eq, written]
      apply Yields.bind_left
      intro byte mid _
      exact yields_valueAt_none (byte.map Char.ofUInt8) mid
  | succ levels ih =>
      rw [value, valueWith_eq, written]
      apply Yields.bind_left
      intro byte mid _
      exact yields_valueAt ih (advances_written ending levels) (byte.map Char.ofUInt8) mid

theorem readsBack_written {levels : Nat} {v : Value} (h : Fits levels v) :
    ReadsBack (written .clean levels) v v :=
  readsBack_of_levels (fun _ _ => rfl) (fun _ _ _ _ => rfl) rfl (fun _ => rfl) h

theorem reads_document_iff {α : Type} {root : Nat -> Reader α} {input rest : List UInt8} {a : α} :
    Reads (document ending root) input a rest <->
      exists mid : List UInt8, Reads (root maxLevels) input a mid ∧
        Reads (peekBehindBlanks ending) mid none rest := by
  constructor
  · intro h
    rcases reads_bind_iff.mp h with ⟨found, mid, hroot, hmore⟩
    rcases reads_bind_iff.mp hmore with ⟨byte, behind, hpeek, hmatch⟩
    cases byte with
    | none =>
        rcases reads_pure_iff.mp hmatch with ⟨rfl, rfl⟩
        exact ⟨mid, hroot, hpeek⟩
    | some byte => exact absurd hmatch (not_reads_fault _ _ _ _ _)
  · rintro ⟨mid, hroot, hpeek⟩
    exact hroot.bind (hpeek.bind (.pure a rest))

end Reader

namespace Source

open Scan (Reads Yields)

theorem read_eq_ok_iff {α : Type} {source : Source} {root : Ending -> Nat -> Reader α} {a : α} :
    source.read root = .ok a <->
      exists rest : List UInt8,
        Reads (Reader.document source.ending (root source.ending)) source.bytes a rest := by
  unfold read
  constructor
  · intro h
    split at h
    · rename_i found hfound
      cases h
      exact ⟨found.rest, found, hfound, rfl, rfl⟩
    · cases h
  · rintro ⟨rest, found, hfound, rfl, _⟩
    rw [hfound]

theorem read_eq_ok_iff_of_yields {α : Type} {converts : Value -> α -> Prop}
    {root : Ending -> Nat -> Reader α}
    (h : forall (ending : Ending) (levels : Nat) (input : List UInt8),
      Yields converts (root ending levels) (Reader.written ending levels) input)
    {source : Source} {a : α} :
    source.read root = .ok a <->
      exists w : Value, source.written = .ok w ∧ converts w a := by
  unfold written
  simp only [read_eq_ok_iff, Reader.reads_document_iff]
  constructor
  · rintro ⟨rest, mid, hroot, hend⟩
    rcases (h _ _ _ a mid).mp hroot with ⟨w, hw, hconverts⟩
    exact ⟨w, ⟨rest, mid, hw, hend⟩, hconverts⟩
  · rintro ⟨w, ⟨rest, mid, hw, hend⟩, hconverts⟩
    exact ⟨rest, mid, (h _ _ _ a mid).mpr ⟨w, hw, hconverts⟩, hend⟩

theorem tree_eq_ok_iff {source : Source} {v : Value} :
    source.tree = .ok v <-> exists w : Value, source.written = .ok w ∧ w.settled = v :=
  read_eq_ok_iff_of_yields fun _ levels input => Reader.yields_value_written levels input

theorem written_text {v : Value} (h : Reader.Fits Reader.maxLevels v) (layout : Layout) :
    (ofText (v.text layout)).written = .ok v :=
  read_text (Reader.readsBack_written h) layout

end Source
end JsonBind
