import JsonBind.Proofs.Reader.Written
import JsonBind.Proofs.Struct.Slot

/-!
# Records as they are written

A record type can read a text straight, and it can read the value that is written there.
Both come to the same, whatever the text: if one way reads a record, so does the other
one, and it is the same record.
-/

namespace JsonBind

open Scan (Reads Advances Yields reads_bind_iff reads_pure_iff)
open Reader (ItemsRead LedBy MembersRead not_reads_fault)

variable {σ υ : Type} {ending : Ending}

/-- Straight from a text the slot is filled with what the value that is written there fills it. -/
def Slot.Faithful (slot : Slot σ) : Prop :=
  forall (ending : Ending) (levels : Nat) (input : List UInt8),
    Yields (fun w set => slot.ofTree w = .ok set) (slot.ofText ending levels)
      (Reader.written ending levels) input

def Struct.Faithful (struct : Struct σ) : Prop :=
  forall slot : Slot σ, slot ∈ struct.slots -> slot.Faithful

/-!
# Slots
-/

namespace Slot

theorem not_reads_wrongAhead (expected : String) (input : List UInt8) (a : υ)
    (rest : List UInt8) : ¬ Reads (wrongAhead expected ending : Reader υ) input a rest := by
  intro h
  rcases reads_bind_iff.mp h with ⟨byte, mid, _, hmatch⟩
  split at hmatch
  · exact not_reads_fault _ _ _ _ _ hmatch
  · exact not_reads_fault _ _ _ _ _ hmatch
  · exact not_reads_fault _ _ _ _ _ hmatch
  · rcases reads_bind_iff.mp hmatch with ⟨v, behind, _, hfault⟩
    split at hfault
    · exact not_reads_fault _ _ _ _ _ hfault
    · exact not_reads_fault _ _ _ _ _ hfault

theorem longOf_settled (w : Value) : longOf w.settled = longOf w := by
  cases w with
  | array items =>
      rw [Value.settled_array]
      rfl
  | object members =>
      rw [Value.settled_object]
      rfl
  | _ => rw [Value.settled_of_not_isContainer rfl]

theorem reads_longAhead_iff {levels : Nat} {input rest : List UInt8} {n : Int64} :
    Reads (longAhead ending levels) input n rest <->
      exists v : Value, Reads (Reader.value ending levels) input v rest ∧ longOf v = .ok n := by
  constructor
  · intro h
    rcases reads_bind_iff.mp h with ⟨v, mid, hvalue, hmatch⟩
    cases hlong : longOf v with
    | error mismatch =>
        rw [hlong] at hmatch
        exact absurd hmatch (not_reads_fault _ _ _ _ _)
    | ok long =>
        rw [hlong] at hmatch
        rcases reads_pure_iff.mp hmatch with ⟨rfl, rfl⟩
        exact ⟨v, hvalue, hlong⟩
  · intro h
    rcases h with ⟨v, hvalue, hlong⟩
    apply hvalue.bind
    rw [hlong]
    exact Reads.pure n rest

theorem yields_longAhead (levels : Nat) (input : List UInt8) :
    Yields (fun w n => longOf w = .ok n) (longAhead ending levels)
      (Reader.written ending levels) input := by
  intro n rest
  rw [reads_longAhead_iff]
  constructor
  · intro h
    rcases h with ⟨v, hvalue, hlong⟩
    -- A long is told from a tree, which has been settled already.
    rcases (Reader.yields_value_written levels input v rest).mp hvalue with ⟨w, hw, rfl⟩
    rw [longOf_settled] at hlong
    exact ⟨w, hw, hlong⟩
  · intro h
    rcases h with ⟨w, hw, hlong⟩
    have hvalue := (Reader.yields_value_written levels input w.settled rest).mpr ⟨w, hw, rfl⟩
    exact ⟨w.settled, hvalue, longOf_settled w ▸ hlong⟩

theorem faithful_long (name : String) (spellings : List String) (get : σ -> Option Int64)
    (set : Int64 -> σ -> σ) : (long name spellings get set).Faithful := by
  intro ending levels input
  have h := (@yields_longAhead ending levels input).map_left set
  simp only [← map_eq_ok_iff] at h
  exact h

theorem yields_stringAhead (levels : Nat) (input : List UInt8) :
    Yields (fun w text => stringOf w = .ok text) (stringAhead ending)
      (Reader.written ending levels) input := by
  rw [Reader.written_eq]
  apply Yields.bind_left
  intro byte mid hpeek
  rcases Reader.reads_again hpeek with ⟨rfl, _⟩
  by_cases hquote : mid.head?.map Char.ofUInt8 = some '"'
  · rw [hquote, Reader.valueAt_of_ne _ _ (by decide) (by decide)]
    intro text rest
    simp only [stringOf_eq_ok_iff, Reader.reads_scalar_quote_iff hquote]
    constructor
    · intro h
      exact ⟨.string text, ⟨text, h, rfl⟩, rfl⟩
    · rintro ⟨_, ⟨other, h, rfl⟩, heq⟩
      cases heq
      exact h
  · apply Scan.yields_of_not_reads
    · intro text rest h
      split at h
      · rename_i heq
        exact hquote heq
      · exact not_reads_wrongAhead _ _ _ _ h
    · intro w rest text h hstring
      rw [stringOf_eq_ok_iff.mp hstring] at h
      exact hquote (Reader.head?_of_reads_valueAt_string h)

theorem faithful_string (name : String) (spellings : List String) (get : σ -> Option String)
    (set : String -> σ -> σ) : (string name spellings get set).Faithful := by
  intro ending levels input
  have h := (@yields_stringAhead ending levels input).map_left set
  simp only [← map_eq_ok_iff] at h
  exact h

end Slot

namespace Struct

variable {struct : Struct σ}

/-!
# Items and members
-/

theorem reads_positional_iff {levels : Nat} {slots : List (Slot σ)}
    (hslots : forall slot : Slot σ, slot ∈ slots -> slot.Faithful) (length : Nat) {first : Bool}
    {record result : σ} {input rest : List UInt8} :
    (exists behind : List UInt8,
      Reads (positional ending levels first slots record) input result behind ∧
        Reads (Reader.close ending .square) behind () rest) <->
      exists (items : List Value) (behind : List UInt8),
        ItemsRead ending (Reader.written ending levels) first input items behind ∧
          Reads (Reader.close ending .square) behind () rest ∧
            ofItems length slots items record = .ok result := by
  induction slots generalizing first record input with
  | nil =>
      -- No slot is left, and the end is not looked for; closing the array finds it.
      constructor
      · rintro ⟨behind, hpositional, hclose⟩
        rcases reads_pure_iff.mp hpositional with ⟨rfl, rfl⟩
        rcases (Reader.reads_close_square_iff first).mp hclose with ⟨mid, hends, hclose⟩
        exact ⟨[], mid, .stop hends, hclose, rfl⟩
      · rintro ⟨items, behind, hitems, hclose, hresult⟩
        cases hitems with
        | stop hends =>
            cases hresult
            exact ⟨input, .pure _ input,
              (Reader.reads_close_square_iff first).mpr ⟨behind, hends, hclose⟩⟩
        | more _ _ _ => cases hresult
  | cons slot slots ih =>
      have hslot := hslots slot List.mem_cons_self
      have ih := @ih fun other hmem => hslots other (List.mem_cons_of_mem slot hmem)
      constructor
      · rintro ⟨behind, hpositional, hclose⟩
        rcases reads_bind_iff.mp hpositional with ⟨follows, mid, hfollows, hmore⟩
        cases follows with
        | false =>
            rcases reads_pure_iff.mp hmore with ⟨rfl, rfl⟩
            exact ⟨[], behind, .stop hfollows, hclose, rfl⟩
        | true =>
            rcases reads_bind_iff.mp hmore with ⟨set, after, hset, hrest⟩
            rcases (hslot _ _ _ set after).mp hset with ⟨w, hw, hconverts⟩
            rcases ih.mp ⟨behind, hrest, hclose⟩ with ⟨items, left, hitems, hclose, hresult⟩
            exact ⟨w :: items, left, .more hfollows hw hitems, hclose,
              ofItems_cons_eq_ok_iff.mpr ⟨set, hconverts, hresult⟩⟩
      · rintro ⟨items, behind, hitems, hclose, hresult⟩
        cases hitems with
        | stop hends =>
            cases hresult
            exact ⟨behind, hends.bind (.pure _ behind), hclose⟩
        | more hfollows hw hitems =>
            rename_i mid after w items
            rcases ofItems_cons_eq_ok_iff.mp hresult with ⟨set, hconverts, hresult⟩
            rcases ih.mpr ⟨items, behind, hitems, hclose, hresult⟩ with ⟨left, hrest, hclose⟩
            have hset := (hslot _ _ _ set after).mpr ⟨w, hw, hconverts⟩
            exact ⟨left, hfollows.bind (hset.bind hrest), hclose⟩

def Takes (struct : Struct σ) (state : List struct.Index × σ) (member : String × Value)
    (next : List struct.Index × σ) : Prop :=
  exists (slot : struct.Index) (set : σ -> σ), struct.slot? member.1 = some slot ∧
    slot ∉ state.1 ∧ (struct.slots.get slot).ofTree member.2 = .ok set ∧
      next = (slot :: state.1, set state.2)

theorem reads_field_turn_iff (h : struct.Faithful) {levels : Nat}
    (state : List struct.Index × σ) (turn : Option (List struct.Index × σ))
    (input rest : List UInt8) :
    Reads (struct.moreFields ending levels state) input turn rest <->
      (turn = none ∧ Reads (Reader.nameFollows ending state.1.isEmpty) input none rest) ∨
        exists (member : String × Value) (next : List struct.Index × σ) (mid inner : List UInt8),
          turn = some next ∧ struct.Takes state member next ∧
            Reads (Reader.nameFollows ending state.1.isEmpty) input (some member.1) mid ∧
              Reads (Reader.colon ending) mid () inner ∧
                Reads (Reader.written ending levels) inner member.2 rest := by
  rcases state with ⟨filled, record⟩
  unfold moreFields
  rw [reads_bind_iff]
  constructor
  · intro hread
    rcases hread with ⟨key?, mid, hfollows, hmore⟩
    cases key? with
    | none =>
        rcases reads_pure_iff.mp hmore with ⟨rfl, rfl⟩
        exact Or.inl ⟨rfl, hfollows⟩
    | some key =>
        cases hopen : struct.open? filled key with
        | error mismatch =>
            simp only [hopen] at hmore
            exact absurd hmore (not_reads_fault _ _ _ _ _)
        | ok slot =>
            simp only [hopen, reads_bind_iff, reads_pure_iff] at hmore
            rcases hmore with ⟨_, inner, hcolon, set, behind, hset, rfl, rfl⟩
            rcases (h _ (List.get_mem _ _) _ _ _ set rest).mp hset with ⟨w, hw, hconverts⟩
            rcases open?_eq_ok_iff.mp hopen with ⟨hfind, hfresh⟩
            exact Or.inr ⟨(key, w), _, mid, inner, rfl,
              ⟨slot, set, hfind, hfresh, hconverts, rfl⟩, hfollows, hcolon, hw⟩
  · intro hread
    rcases hread with ⟨rfl, hends⟩ | ⟨⟨key, w⟩, _, mid, inner, rfl, htakes, hfollows, hcolon, hw⟩
    · exact ⟨none, rest, hends, .pure none rest⟩
    · rcases htakes with ⟨slot, set, hfind, hfresh, hconverts, rfl⟩
      have hset := (h _ (List.get_mem _ _) _ _ _ set rest).mpr ⟨w, hw, hconverts⟩
      refine ⟨some key, mid, hfollows, ?_⟩
      simp only [open?_eq_ok_iff.mpr ⟨hfind, hfresh⟩]
      exact hcolon.bind (hset.bind (.pure _ rest))

theorem ledBy_takes_iff {members : Members} {filled : List struct.Index} {record result : σ} :
    (exists all : List struct.Index,
      LedBy struct.Takes members (filled, record) (all, result)) <->
      struct.ofMembers filled record members = .ok result := by
  induction members generalizing filled record with
  | nil =>
      constructor
      · intro h
        rcases h with ⟨all, hled⟩
        cases hled
        rfl
      · intro h
        cases h
        exact ⟨filled, .nil _⟩
  | cons member members ih =>
      rw [ofMembers_cons_eq_ok_iff]
      constructor
      · intro h
        rcases h with ⟨all, hled⟩
        cases hled with
        | cons htakes hled =>
            rcases htakes with ⟨slot, set, hfind, hfresh, hset, rfl⟩
            exact ⟨slot, set, hfind, hfresh, hset, ih.mp ⟨all, hled⟩⟩
      · intro h
        rcases h with ⟨slot, set, hfind, hfresh, hset, hrest⟩
        rcases ih.mpr hrest with ⟨all, hled⟩
        exact ⟨all, .cons ⟨slot, set, hfind, hfresh, hset, rfl⟩ hled⟩

theorem reads_iterate_moreFields_iff (h : struct.Faithful) {levels : Nat} {result : σ}
    {input rest : List UInt8} :
    (exists all : List struct.Index,
      Reads (Scan.iterate (struct.moreFields ending levels) ([], struct.empty)) input (all, result)
        rest) <->
      exists members : Members,
        MembersRead ending (Reader.written ending levels) true input members rest ∧
          struct.ofMembers [] struct.empty members = .ok result := by
  have hnext : forall (state next : List struct.Index × σ) (member : String × Value),
      struct.Takes state member next -> next.1.isEmpty = false := by
    intro state next member htakes
    rcases htakes with ⟨slot, set, _, _, _, rfl⟩
    rfl
  simp only [Reader.reads_iterate_members_iff hnext (reads_field_turn_iff h), ← ledBy_takes_iff]
  constructor
  · intro hread
    rcases hread with ⟨all, members, hmembers, hled⟩
    exact ⟨members, hmembers, all, hled⟩
  · intro hread
    rcases hread with ⟨members, hmembers, all, hled⟩
    exact ⟨all, members, hmembers, hled⟩

/-!
# Records
-/

theorem isContainer_of_ofTree {v : Value} {record : σ} (h : struct.ofTree v = .ok record) :
    v.isContainer = true := by
  cases v with
  | array items => rfl
  | object members => rfl
  | _ => cases h

theorem ofItems_eq_ok_of_length {slots : List (Slot σ)} {items : List Value} {record result : σ}
    {length : Nat} (h : ofItems length slots items record = .ok result) (other : Nat) :
    ofItems other slots items record = .ok result := by
  induction slots generalizing items record with
  | nil =>
      cases items with
      | nil => exact h
      | cons item items => cases h
  | cons slot slots ih =>
      cases items with
      | nil => exact h
      | cons item items =>
          rcases ofItems_cons_eq_ok_iff.mp h with ⟨set, hset, hrest⟩
          exact ofItems_cons_eq_ok_iff.mpr ⟨set, hset, ih hrest⟩

theorem yields_ahead_array (h : struct.Faithful) (levels : Nat) (input : List UInt8) :
    Yields (fun w record => struct.ofTree w = .ok record)
      (Reader.enclosed ending .square (positional ending levels true struct.slots struct.empty))
      (Reader.valueAt ending (Reader.writtenMembers ending) (some (Reader.written ending levels))
        (some '[')) input := by
  intro record rest
  simp only [Reader.reads_enclosed_iff, Reader.reads_written_array_iff]
  constructor
  · rintro ⟨byte, within, behind, hnext, hpositional, hclose⟩
    rcases (reads_positional_iff h 0).mp ⟨behind, hpositional, hclose⟩ with
      ⟨items, left, hitems, hclose, hresult⟩
    exact ⟨.array items, ⟨items, byte, within, left, rfl, hnext, hitems, hclose⟩,
      ofItems_eq_ok_of_length hresult items.length⟩
  · rintro ⟨_, ⟨items, byte, within, left, rfl, hnext, hitems, hclose⟩, hresult⟩
    rcases (reads_positional_iff h items.length).mpr ⟨items, left, hitems, hclose, hresult⟩ with
      ⟨behind, hpositional, hclose⟩
    exact ⟨byte, within, behind, hnext, hpositional, hclose⟩

theorem yields_ahead_object (h : struct.Faithful) (levels : Nat) (input : List UInt8) :
    Yields (fun w record => struct.ofTree w = .ok record)
      (Reader.enclosed ending .curly do
        return (← Scan.iterate (struct.moreFields ending levels) ([], struct.empty)).2)
      (Reader.valueAt ending (Reader.writtenMembers ending) (some (Reader.written ending levels))
        (some '{')) input := by
  intro record rest
  simp only [Reader.reads_enclosed_iff, Reader.reads_written_object_iff, reads_bind_iff,
    reads_pure_iff]
  constructor
  · rintro ⟨byte, within, _, hnext, ⟨⟨all, _⟩, behind, hloop, rfl, rfl⟩, hclose⟩
    rcases (reads_iterate_moreFields_iff h).mp ⟨all, hloop⟩ with ⟨members, hmembers, hresult⟩
    exact ⟨.object members, ⟨members, byte, within, _, rfl, hnext, hmembers, hclose⟩, hresult⟩
  · rintro ⟨_, ⟨members, byte, within, behind, rfl, hnext, hmembers, hclose⟩, hresult⟩
    rcases (reads_iterate_moreFields_iff h).mpr ⟨members, hmembers, hresult⟩ with ⟨all, hloop⟩
    exact ⟨byte, within, behind, hnext, ⟨(all, record), behind, hloop, rfl, rfl⟩, hclose⟩

/-- Records are read straight from a text as from the values that are written there. -/
theorem yields_ahead (h : struct.Faithful) (levels : Nat) (input : List UInt8) :
    Yields (fun w record => struct.ofTree w = .ok record) (struct.ahead ending levels)
      (Reader.written ending levels) input := by
  rw [Reader.written_eq]
  apply Yields.bind_left
  intro byte mid _
  split
  · rename_i hsquare
    rw [hsquare]
    exact Reader.yields_fault .tooDeep .atNext mid
  · rename_i hcurly
    rw [hcurly]
    exact Reader.yields_fault .tooDeep .atNext mid
  · rename_i levels hsquare
    rw [hsquare]
    exact yields_ahead_array h levels mid
  · rename_i levels hcurly
    rw [hcurly]
    exact yields_ahead_object h levels mid
  · rename_i levels _ _ hsquare hcurly hsquare' hcurly'
    rw [Reader.valueAt_of_ne]
    · apply Scan.yields_of_not_reads (Slot.not_reads_wrongAhead _ _)
      intro w rest record hscalar hrecord
      have hcontainer := isContainer_of_ofTree hrecord
      rw [(Reader.kind_of_reads_scalar hscalar).left] at hcontainer
      cases hcontainer
    · intro heq
      cases levels with
      | zero => exact hsquare heq rfl
      | succ levels => exact hsquare' levels heq rfl
    · intro heq
      cases levels with
      | zero => exact hcurly heq rfl
      | succ levels => exact hcurly' levels heq rfl

theorem read_eq_ok_iff_written (h : struct.Faithful) {source : Source} {record : σ} :
    struct.read source = .ok record <->
      exists w : Value, source.written = .ok w ∧ struct.ofTree w = .ok record :=
  Source.read_eq_ok_iff_of_yields fun _ levels input => yields_ahead h levels input

theorem read_text (h : struct.Faithful) {v : Value} (hfits : Reader.Fits Reader.maxLevels v)
    {record : σ} (hrecord : struct.ofTree v = .ok record) (layout : Layout) :
    struct.read (.ofText (v.text layout)) = .ok record :=
  (read_eq_ok_iff_written h).mpr ⟨v, Source.written_text hfits layout, hrecord⟩

/-!
# Slots that hold a list of records
-/

theorem yields_listAhead (h : struct.Faithful) (levels : Nat) (input : List UInt8) :
    Yields (fun w records => struct.listOf w = .ok records) (struct.listAhead ending levels)
      (Reader.written ending levels) input := by
  rw [Reader.written_eq]
  apply Yields.bind_left
  intro byte mid _
  split
  · rename_i hsquare
    rw [hsquare]
    exact Reader.yields_fault .tooDeep .atNext mid
  · rename_i levels hsquare
    rw [hsquare]
    have hitems := Reader.yields_iterate_items (yields_ahead h levels)
      (Reader.advances_written ending levels)
      (fun _ => (rfl : struct.moreRecords ending levels _ = _))
      (fun _ => (rfl : Reader.moreItems ending (Reader.written ending levels) _ = _))
    refine Yields.bind_pure (Reader.yields_enclosed hitems .square mid) ?_
    intro items records
    simp only [listOf, mapM_eq_ok_iff]
    constructor
    · intro hall
      refine ⟨records.reverse, ?_, records.reverse_reverse.symm⟩
      rw [← List.forall₂_reverse_iff, List.reverse_reverse]
      exact hall
    · rintro ⟨read, hall, rfl⟩
      exact List.forall₂_reverse_iff.mpr hall
  · rename_i levels _ _ hsquare hsquare'
    apply Scan.yields_of_not_reads (Slot.not_reads_wrongAhead _ _)
    intro w rest records hw hrecords
    rcases listOf_eq_ok_iff.mp hrecords with ⟨items, rfl, _⟩
    refine Reader.not_array_of_reads_valueAt ?_ hw
    intro heq
    cases levels with
    | zero => exact hsquare heq rfl
    | succ levels => exact hsquare' levels heq rfl

end Struct

theorem Slot.faithful_list {struct : Struct υ} (h : struct.Faithful) (name : String)
    (spellings : List String) (get : σ -> Option (List υ)) (set : List υ -> σ -> σ) :
    (Slot.list struct name spellings get set).Faithful := by
  intro ending levels input
  have hmap := (@Struct.yields_listAhead υ ending struct h levels input).map_left set
  simp only [← map_eq_ok_iff] at hmap
  exact hmap

end JsonBind
