import Mathlib.Data.List.Induction
import JsonBind.Text.Long

/-!
# Spellings of integers

An integer is spelled by digits, behind a sign or without one, and between blanks. Each text
spells one integer at most. It is read as a long exactly if it spells one, and that is in
the range of longs.
-/

namespace JsonBind
namespace Text

inductive Digits : List Char -> Nat -> Prop where
  | first {c : Char} :
      c.isDigit = true ->
      Digits [c] (c.toNat - '0'.toNat)
  | next {cs : List Char} {n : Nat} {c : Char} :
      Digits cs n ->
      c.isDigit = true ->
      Digits (cs ++ [c]) (10 * n + (c.toNat - '0'.toNat))

inductive Signed : List Char -> Int -> Prop where
  | plain {cs : List Char} {n : Nat} : Digits cs n -> Signed cs n
  | plus {cs : List Char} {n : Nat} : Digits cs n -> Signed ('+' :: cs) n
  | minus {cs : List Char} {n : Nat} : Digits cs n -> Signed ('-' :: cs) (-n)

inductive Spells : List Char -> Int -> Prop where
  | between {before cs after : List Char} {n : Int} :
      (forall c : Char, c ∈ before -> isBlank c = true) ->
      Signed cs n ->
      (forall c : Char, c ∈ after -> isBlank c = true) ->
      Spells (before ++ cs ++ after) n

/-!
# Digits
-/

theorem digits?_singleton {c : Char} (h : c.isDigit = true) :
    digits? [c] = some (c.toNat - '0'.toNat) := by
  simp [digits?, h, Nat.ofDigitChars_cons]

theorem digits?_append_singleton {cs : List Char} (hcs : cs ≠ []) (c : Char) :
    digits? (cs ++ [c]) =
      if c.isDigit then (digits? cs).map fun n => 10 * n + (c.toNat - '0'.toNat) else none := by
  cases hdigit : c.isDigit with
  | false => simp [digits?, hdigit]
  | true => by_cases hall : cs.all Char.isDigit = true <;>
      simp_all [digits?, Nat.ofDigitChars_append, Nat.ofDigitChars_cons]

theorem digits?_eq_some_iff {cs : List Char} {n : Nat} : digits? cs = some n <-> Digits cs n := by
  constructor
  · intro h
    induction cs using List.reverseRecOn generalizing n with
    | nil => cases h
    | append_singleton cs c ih =>
        cases cs with
        | nil =>
            cases hdigit : c.isDigit with
            | false => simp [digits?, hdigit] at h
            | true =>
                rw [List.nil_append, digits?_singleton hdigit] at h
                cases h
                exact .first hdigit
        | cons d ds =>
            rw [digits?_append_singleton (List.cons_ne_nil d ds)] at h
            cases hdigit : c.isDigit with
            | false => simp [hdigit] at h
            | true =>
                rw [hdigit, if_pos rfl] at h
                rcases Option.map_eq_some_iff.mp h with ⟨m, hm, rfl⟩
                exact .next (ih hm) hdigit
  · intro h
    induction h with
    | first hdigit => exact digits?_singleton hdigit
    | next hdigits hdigit ih =>
        rename_i cs n c
        have hcs : cs ≠ [] := by
          intro hnil
          rw [hnil] at ih
          cases ih
        rw [digits?_append_singleton hcs, hdigit, if_pos rfl, ih]
        rfl

theorem Digits.isDigit {cs : List Char} {n : Nat} (h : Digits cs n) :
    forall c : Char, c ∈ cs -> c.isDigit = true := by
  induction h with
  | first hdigit =>
      intro c hmem
      rw [List.mem_singleton.mp hmem]
      exact hdigit
  | next _ hdigit ih =>
      intro c hmem
      rcases List.mem_append.mp hmem with hmem | hmem
      · exact ih c hmem
      · rw [List.mem_singleton.mp hmem]
        exact hdigit

theorem Digits.ne_nil {cs : List Char} {n : Nat} (h : Digits cs n) : cs ≠ [] := by
  cases h with
  | first _ => exact List.cons_ne_nil _ _
  | next _ _ => exact List.append_ne_nil_of_right_ne_nil _ (List.cons_ne_nil _ _)

/-!
# Signs
-/

theorem signed?_of_isDigit {c : Char} (h : c.isDigit = true) (cs : List Char) :
    signed? (c :: cs) = (digits? (c :: cs)).map Int.ofNat := by
  unfold signed?
  split
  · rename_i heq
    cases heq
    cases h
  · rename_i heq
    cases heq
    cases h
  · rfl

theorem signed?_eq_some_iff {cs : List Char} {n : Int} : signed? cs = some n <-> Signed cs n := by
  constructor
  · intro h
    unfold signed? at h
    split at h
    · rcases Option.map_eq_some_iff.mp h with ⟨m, hm, rfl⟩
      exact .plus (digits?_eq_some_iff.mp hm)
    · rcases Option.map_eq_some_iff.mp h with ⟨m, hm, rfl⟩
      exact .minus (digits?_eq_some_iff.mp hm)
    · rcases Option.map_eq_some_iff.mp h with ⟨m, hm, rfl⟩
      exact .plain (digits?_eq_some_iff.mp hm)
  · intro h
    cases h with
    | plain hdigits =>
        cases cs with
        | nil => exact absurd rfl hdigits.ne_nil
        | cons c cs =>
            rw [signed?_of_isDigit (hdigits.isDigit c List.mem_cons_self),
              digits?_eq_some_iff.mpr hdigits]
            rfl
    | plus hdigits =>
        rw [signed?, digits?_eq_some_iff.mpr hdigits]
        rfl
    | minus hdigits =>
        rw [signed?, digits?_eq_some_iff.mpr hdigits]
        rfl

/-!
# Blanks
-/

theorem isBlank_of_isDigit {c : Char} (h : c.isDigit = true) : isBlank c = false := by
  have hrange : 48 ≤ c.toNat ∧ c.toNat ≤ 57 := by
    simpa [Char.isDigit, UInt32.le_iff_toNat_le] using h
  simp only [isBlank, decide_eq_false_iff_not]
  omega

theorem Digits.not_isBlank {cs : List Char} {n : Nat} (h : Digits cs n) :
    forall c : Char, c ∈ cs -> isBlank c = false :=
  fun c hmem => isBlank_of_isDigit (h.isDigit c hmem)

theorem Signed.not_isBlank {cs : List Char} {n : Int} (h : Signed cs n) :
    cs ≠ [] ∧ forall c : Char, c ∈ cs -> isBlank c = false := by
  cases h with
  | plain hdigits => exact ⟨hdigits.ne_nil, hdigits.not_isBlank⟩
  | plus hdigits =>
      exact ⟨List.cons_ne_nil _ _, List.forall_mem_cons.mpr ⟨rfl, hdigits.not_isBlank⟩⟩
  | minus hdigits =>
      exact ⟨List.cons_ne_nil _ _, List.forall_mem_cons.mpr ⟨rfl, hdigits.not_isBlank⟩⟩

theorem dropWhile_isBlank_append {before cs : List Char} (rest : List Char)
    (hbefore : forall c : Char, c ∈ before -> isBlank c = true) (hcs : cs ≠ [])
    (h : forall c : Char, c ∈ cs -> isBlank c = false) :
    (before ++ (cs ++ rest)).dropWhile isBlank = cs ++ rest := by
  rw [List.dropWhile_append_of_pos hbefore]
  cases cs with
  | nil => exact absurd rfl hcs
  | cons c cs =>
      rw [List.cons_append, List.dropWhile_cons, h c List.mem_cons_self]
      rfl

theorem trim_append {before cs after : List Char}
    (hbefore : forall c : Char, c ∈ before -> isBlank c = true) (hcs : cs ≠ [])
    (h : forall c : Char, c ∈ cs -> isBlank c = false)
    (hafter : forall c : Char, c ∈ after -> isBlank c = true) :
    trim (before ++ cs ++ after) = cs := by
  have hback : (after.reverse ++ (cs.reverse ++ [])).dropWhile isBlank = cs.reverse ++ [] := by
    apply dropWhile_isBlank_append
    · intro c hmem
      exact hafter c (List.mem_reverse.mp hmem)
    · exact mt List.reverse_eq_nil_iff.mp hcs
    · intro c hmem
      exact h c (List.mem_reverse.mp hmem)
  rw [List.append_nil] at hback
  rw [trim, List.append_assoc, dropWhile_isBlank_append after hbefore hcs h, List.reverse_append,
    hback, List.reverse_reverse]

theorem exists_eq_trim (cs : List Char) :
    exists before after : List Char, cs = before ++ trim cs ++ after ∧
      (forall c : Char, c ∈ before -> isBlank c = true) ∧
      forall c : Char, c ∈ after -> isBlank c = true := by
  have hblank : forall (cs : List Char) (c : Char),
      c ∈ cs.takeWhile isBlank -> isBlank c = true :=
    fun cs => List.all_eq_true.mp List.all_takeWhile
  have hback := @List.takeWhile_append_dropWhile _ isBlank (cs.dropWhile isBlank).reverse
  refine ⟨cs.takeWhile isBlank, ((cs.dropWhile isBlank).reverse.takeWhile isBlank).reverse, ?_,
    hblank cs, ?_⟩
  · rw [trim, List.append_assoc, ← List.reverse_append, hback, List.reverse_reverse,
      List.takeWhile_append_dropWhile]
  · intro c hmem
    exact hblank _ c (List.mem_reverse.mp hmem)

/-!
# Longs
-/

theorem signed?_trim_eq_some_iff {cs : List Char} {n : Int} :
    signed? (trim cs) = some n <-> Spells cs n := by
  constructor
  · intro h
    rcases exists_eq_trim cs with ⟨before, after, hcs, hbefore, hafter⟩
    rw [hcs]
    exact .between hbefore (signed?_eq_some_iff.mp h) hafter
  · intro h
    cases h with
    | between hbefore hsigned hafter =>
        rcases hsigned.not_isBlank with ⟨hcs, hnot⟩
        rw [trim_append hbefore hcs hnot hafter]
        exact signed?_eq_some_iff.mpr hsigned

theorem Spells.unique {cs : List Char} {n n' : Int} (h : Spells cs n) (h' : Spells cs n') :
    n = n' := by
  have hsigned := signed?_trim_eq_some_iff.mpr h
  rw [signed?_trim_eq_some_iff.mpr h'] at hsigned
  exact (Option.some.inj hsigned).symm

theorem long?_eq_some_iff {text : String} {m : Int64} :
    long? text = some m <-> Spells text.toList m.toInt := by
  have hlow : -0x8000000000000000 ≤ m.toInt := m.le_toInt
  have hhigh : m.toInt < 0x8000000000000000 := m.toInt_lt
  rw [← signed?_trim_eq_some_iff, long?]
  cases signed? (trim text.toList) with
  | none => simp
  | some n =>
      dsimp only
      constructor
      · intro h
        split at h
        · rename_i hrange
          cases h
          rw [Int64.toInt_ofInt_of_le hrange.left hrange.right]
        · cases h
      · intro h
        cases h
        rw [if_pos ⟨hlow, hhigh⟩, Int64.ofInt_toInt]

end Text
end JsonBind
