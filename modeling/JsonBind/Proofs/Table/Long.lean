import JsonBind.Proofs.Struct.Written
import JsonBind.Proofs.Table.Reading
import JsonBind.Proofs.Text.Long

/-!
# Longs that are read

A long is an integer, or a text that spells one, in the range of longs. Doubles are none, even
if they are whole. A column for longs and a slot for longs take the same values for the same
longs; the column refuses all others, and then nothing is read.
-/

namespace JsonBind
namespace Value

/-- The integer that a value is, or that it spells. -/
inductive Denotes : Value -> Int -> Prop where
  | number {n : Int} (bounds : Number.Bounds n) : Denotes (.number (.int n bounds)) n
  | string {text : String} {n : Int} :
      Text.Spells text.toList n ->
      Denotes (.string text) n

theorem Denotes.rightUnique : Relator.RightUnique Denotes := by
  intro v n n' h h'
  cases h with
  | number bounds =>
      cases h'
      rfl
  | string hspells =>
      cases h' with
      | string hspells' => exact hspells.unique hspells'

theorem long?_eq_some_iff {v : Value} {m : Int64} :
    v.long? = some m <-> v.Denotes m.toInt := by
  constructor
  · intro h
    cases v with
    | number n =>
        cases n with
        | int n bounds =>
            change (if n < 0x8000000000000000 then some (Int64.ofInt n) else none) = some m at h
            split at h
            · rename_i hlt
              cases h
              rw [Int64.toInt_ofInt_of_le bounds.left hlt]
              exact .number bounds
            · cases h
        | float _ _ => cases h
    | string text => exact .string (Text.long?_eq_some_iff.mp h)
    | _ => cases h
  · intro h
    generalize hn : m.toInt = n at h
    cases h with
    | number bounds =>
        subst hn
        exact long?_long m
    | string hspells =>
        subst hn
        exact Text.long?_eq_some_iff.mpr hspells

theorem long?_eq_none_iff {v : Value} :
    v.long? = none <->
      forall n : Int, v.Denotes n -> n < -0x8000000000000000 ∨ 0x8000000000000000 ≤ n := by
  constructor
  · intro h n hdenotes
    by_contra hrange
    have hlow : -0x8000000000000000 ≤ n := by omega
    have hhigh : n < 0x8000000000000000 := by omega
    rw [← Int64.toInt_ofInt_of_le hlow hhigh, ← long?_eq_some_iff, h] at hdenotes
    cases hdenotes
  · intro h
    cases hlong : v.long? with
    | none => rfl
    | some n =>
        have hlow : -0x8000000000000000 ≤ n.toInt := n.le_toInt
        have hhigh : n.toInt < 0x8000000000000000 := n.toInt_lt
        have hrange := h n.toInt (long?_eq_some_iff.mp hlong)
        omega

theorem accepts_long_of_long? {v : Value} {n : Int64} (h : v.long? = some n) :
    Shape.long.accepts v = true := by
  cases v with
  | number _ => rfl
  | string _ => rfl
  | _ => cases h

end Value

namespace Table

variable {τ κ : Type} {table : Table τ κ} {context : κ} {taken : Members} {key : String}
  {slot : table.Index} {set : τ -> Int64 -> τ} {v : Value}

theorem takes_long (harrives : table.Arrives context taken key slot)
    (hbinding : (table.columns.get slot).binding = .long set) {n : Int64}
    (hlong : v.long? = some n) : Takes table context taken key v (set · n) := by
  apply Takes.fill harrives.resolves harrives.fresh
  · rw [hbinding]
    exact Value.accepts_long_of_long? hlong
  · rw [hbinding]
    exact .long set hlong

theorem breaks_long (harrives : table.Arrives context taken key slot)
    (hbinding : (table.columns.get slot).binding = .long set) (hlong : v.long? = none) :
    exists reason : String, Breaks table context taken key v (.parse reason) := by
  cases hshape : (table.columns.get slot).binding.shape.accepts v with
  | false => exact ⟨_, .otherShape harrives.resolves harrives.fresh hshape⟩
  | true =>
      have hobjects : (table.columns.get slot).binding.Objects context v (.notLong v) := by
        rw [hbinding]
        exact .long set hlong
      exact ⟨_, .conversion harrives.resolves harrives.fresh hshape hobjects⟩

/-- A column for longs is set to a long, whatever was read before it, if that is what the value
denotes. All other values are refused with a parse error, whatever comes behind them. A slot for
longs takes the same values for the same longs, from a tree and straight from a text. -/
theorem long_set_iff_denotes (h : table.Declared)
    (harrives : table.Arrives context taken key slot)
    (hbinding : (table.columns.get slot).binding = .long set) (v : Value) :
    (forall target : τ, (table.read (.object taken) context).result = .ok target ->
      forall changed : τ,
        (table.read (.object (taken ++ [(key, v)])) context).result = .ok changed <->
          exists n : Int64, v.Denotes n.toInt ∧ changed = set target n) ∧
    ((exists reason : String, forall rest : Members,
        (table.read (.object (taken ++ (key, v) :: rest)) context).result =
          .error (.parse reason)) <->
      forall n : Int, v.Denotes n -> n < -0x8000000000000000 ∨ 0x8000000000000000 ≤ n) ∧
    (forall n : Int64, Slot.longOf v = .ok n <-> v.Denotes n.toInt) ∧
    forall (ending : Ending) (levels : Nat) (input rest : List UInt8) (n : Int64),
      Scan.Reads (Slot.longAhead ending levels) input n rest <->
        exists w : Value,
          Scan.Reads (Reader.value ending levels) input w rest ∧ w.Denotes n.toInt := by
  have hun := h.unambiguous
  refine ⟨?_, ?_, ?_, ?_⟩
  · intro target hread changed
    simp only [← Value.long?_eq_some_iff]
    cases hlong : v.long? with
    | some n =>
        rw [result_read_snoc hun hread (takes_long harrives hbinding hlong)]
        simp [eq_comm]
    | none =>
        rcases breaks_long harrives hbinding hlong with ⟨reason, hbreaks⟩
        have herror := (result_read_eq_error_iff hun).mpr
          ⟨taken, [], key, v, rfl, harrives.readable, hbreaks⟩
        rw [herror]
        simp
  · rw [← Value.long?_eq_none_iff]
    constructor
    · intro herror
      rcases herror with ⟨reason, herror⟩
      cases hlong : v.long? with
      | none => rfl
      | some n =>
          rcases harrives.exists_result_read hun with ⟨target, hread⟩
          have hset := result_read_snoc hun hread (takes_long harrives hbinding hlong)
          rw [herror []] at hset
          cases hset
    · intro hlong
      rcases breaks_long harrives hbinding hlong with ⟨reason, hbreaks⟩
      refine ⟨reason, ?_⟩
      intro rest
      exact (result_read_eq_error_iff hun).mpr
        ⟨taken, rest, key, v, rfl, harrives.readable, hbreaks⟩
  · intro n
    rw [Slot.longOf_eq_ok_iff, Value.long?_eq_some_iff]
  · intro ending levels input rest n
    simp only [Slot.reads_longAhead_iff, Slot.longOf_eq_ok_iff, Value.long?_eq_some_iff]

/-- The least long, spelled with leading zeros and between blanks, and an integer one beyond the
greatest long. -/
theorem long_set_iff_denotes_least :
    counts.Declared ∧ counts.Arrives () [("other", .null)] "dc" ⟨0, by decide⟩ ∧
      (counts.read (.object
        [("other", .null), ("dc", .string " -009223372036854775808\n")]) ()).result =
          .ok (some Int64.minValue) ∧
      exists reason : String, forall rest : Members,
        (counts.read (.object ([("other", .null)] ++
          ("dc", .number (.int 0x8000000000000000 (by decide))) :: rest)) ()).result =
            .error (.parse reason) := by
  have declared : counts.Declared := rfl
  have other : (counts.read (.object [("other", .null)]) ()).result = .ok none := rfl
  have arrives : counts.Arrives () [("other", .null)] "dc" ⟨0, by decide⟩ := by
    rcases (result_read_eq_ok_iff declared.unambiguous).mp other with ⟨_, _, heq, hreadable, _⟩
    cases heq
    refine ⟨hreadable, (resolves_counts _ _).mpr (Or.inr rfl), ?_⟩
    intro earlier hmem hresolves
    rw [List.mem_singleton.mp hmem] at hresolves
    rcases (resolves_counts _ _).mp hresolves with heq | heq
    · exact absurd heq (by decide)
    · exact absurd heq (by decide)
  refine ⟨declared, arrives, ?_, ?_⟩
  · apply ((long_set_iff_denotes declared arrives rfl _).left none other _).mpr
    exact ⟨Int64.minValue, Value.long?_eq_some_iff.mp (by decide), rfl⟩
  · apply (long_set_iff_denotes declared arrives rfl _).right.left.mpr
    intro n hdenotes
    cases hdenotes
    exact Or.inr (Int.le_refl _)

end Table
end JsonBind
