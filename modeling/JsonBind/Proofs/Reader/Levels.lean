import JsonBind.Proofs.Reader.Written
import JsonBind.Proofs.Builder.RoundTrip

/-!
# How deep texts may be nested

Reading descends by a fixed number of levels, whatever the settings allow. With fewer levels
a text is read to the same value as with more of them, if that value is no deeper. So of the
two limits on the depth of a text the lower one counts; a tree is checked for one only.
-/

namespace JsonBind
namespace Reader

open Scan (Reads Yields)

variable {ending : Ending}

theorem isContainer_of_reads_valueAt {levels : Nat} {first : Option Char}
    (hfirst : first = some '[' ∨ first = some '{') {input rest : List UInt8} {w : Value}
    (h : Reads (valueAt ending (writtenMembers ending) (writtenInside ending levels) first)
      input w rest) : w.isContainer = true := by
  cases levels with
  | zero => rcases hfirst with rfl | rfl <;> exact absurd h (not_reads_fault _ _ _ _ _)
  | succ levels =>
      rcases hfirst with rfl | rfl
      · rcases reads_written_array_iff.mp h with ⟨items, _, _, _, rfl, _⟩
        rfl
      · rcases reads_written_object_iff.mp h with ⟨members, _, _, _, rfl, _⟩
        rfl

theorem yields_scalar_levels (levels : Nat) (input : List UInt8) :
    Yields (fun w v => w.depth ≤ levels ∧ w = v) (scalar ending) (scalar ending) input := by
  intro v rest
  constructor
  · intro h
    have hdepth := (Value.children_of_not_isContainer (kind_of_reads_scalar h).left).right
    exact ⟨v, h, hdepth ▸ Nat.zero_le levels, rfl⟩
  · rintro ⟨w, h, _, rfl⟩
    exact h

theorem yields_valueAt_levels_zero (more : Nat) (first : Option Char) (input : List UInt8) :
    Yields (fun w v => w.depth ≤ 0 ∧ w = v)
      (valueAt ending (writtenMembers ending) (writtenInside ending 0) first)
      (valueAt ending (writtenMembers ending) (writtenInside ending more) first) input := by
  by_cases hfirst : first = some '[' ∨ first = some '{'
  · apply Scan.yields_of_not_reads
    · intro v rest h
      rcases hfirst with rfl | rfl <;> exact not_reads_fault _ _ _ _ _ h
    · rintro w rest v h ⟨hdepth, _⟩
      rw [Value.depth_of_isContainer (isContainer_of_reads_valueAt hfirst h)] at hdepth
      exact Nat.not_succ_le_zero _ hdepth
  · rcases not_or.mp hfirst with ⟨hsquare, hcurly⟩
    rw [valueAt_of_ne _ _ hsquare hcurly, valueAt_of_ne _ _ hsquare hcurly]
    exact yields_scalar_levels 0 input

section

variable {levels more : Nat}
  (h : forall input : List UInt8,
    Yields (fun w v => w.depth ≤ levels ∧ w = v) (written ending levels) (written ending more)
      input)

include h

theorem yields_iterate_writtenMembers (input : List UInt8) :
    Yields (fun ws vs => (forall member : String × Value, member ∈ ws -> member.2.depth ≤ levels) ∧
        ws = vs)
      (Scan.iterate (writtenMembers ending (written ending levels)) [])
      (Scan.iterate (writtenMembers ending (written ending more)) []) input := by
  intro members rest
  have hall : forall ws : Members,
      List.Forall₂ (fun w v => w.1 = v.1 ∧ w.2.depth ≤ levels ∧ w.2 = v.2) ws members <->
        (forall member : String × Value, member ∈ ws -> member.2.depth ≤ levels) ∧
          ws = members := by
    intro ws
    rw [← List.forall₂_eq_eq_eq, ← List.forall₂_and_left]
    simp only [Prod.ext_iff, and_left_comm]
  simp only [reads_iterate_writtenMembers_iff, membersRead_iff_of_yields h, hall]

theorem yields_valueAt_levels (first : Option Char) (input : List UInt8) :
    Yields (fun w v => w.depth ≤ levels + 1 ∧ w = v)
      (valueAt ending (writtenMembers ending) (writtenInside ending (levels + 1)) first)
      (valueAt ending (writtenMembers ending) (writtenInside ending (more + 1)) first) input := by
  by_cases hsquare : first = some '['
  · subst hsquare
    have hitems := yields_iterate_items h (advances_written ending more)
      (fun _ => (rfl : moreItems ending (written ending levels) _ = _))
      (fun _ => (rfl : moreItems ending (written ending more) _ = _))
    refine Yields.bind_pure (yields_enclosed hitems .square input) ?_
    intro ws v
    rw [Value.depth_le_succ_iff rfl]
    simp only [List.forall₂_and_left, List.forall₂_eq_eq_eq, Value.children, List.mem_reverse]
    constructor
    · rintro ⟨hdepth, rfl⟩
      exact ⟨ws, ⟨hdepth, rfl⟩, rfl⟩
    · rintro ⟨_, ⟨hdepth, rfl⟩, rfl⟩
      exact ⟨hdepth, rfl⟩
  by_cases hcurly : first = some '{'
  · subst hcurly
    refine Yields.bind_pure (yields_enclosed (yields_iterate_writtenMembers h) .curly input) ?_
    intro ws v
    rw [Value.depth_le_succ_iff rfl]
    simp only [Value.children, List.forall_mem_map]
    constructor
    · rintro ⟨hdepth, rfl⟩
      exact ⟨ws, ⟨hdepth, rfl⟩, rfl⟩
    · rintro ⟨_, ⟨hdepth, rfl⟩, rfl⟩
      exact ⟨hdepth, rfl⟩
  · rw [valueAt_of_ne _ _ hsquare hcurly, valueAt_of_ne _ _ hsquare hcurly]
    exact yields_scalar_levels (levels + 1) input

end

/-- With fewer levels just those values are read that are no deeper. -/
theorem yields_written_levels {levels more : Nat} (hle : levels ≤ more) (input : List UInt8) :
    Yields (fun w v => w.depth ≤ levels ∧ w = v) (written ending levels) (written ending more)
      input := by
  induction levels generalizing more input with
  | zero =>
      rw [written_eq, written_eq]
      apply Yields.bind_left
      intro byte mid _
      exact yields_valueAt_levels_zero more (byte.map Char.ofUInt8) mid
  | succ levels ih =>
      cases more with
      | zero => exact absurd hle (Nat.not_succ_le_zero levels)
      | succ more =>
          rw [written_eq, written_eq]
          apply Yields.bind_left
          intro byte mid _
          exact yields_valueAt_levels (fun input => ih (Nat.le_of_succ_le_succ hle) input)
            (byte.map Char.ofUInt8) mid

end Reader

namespace Source

theorem tree_text_eq_ok_iff {v w : Value} (hintegral : v.Integral) (hdistinct : v.Distinct)
    (layout : Layout) :
    (ofText (v.text layout)).tree = .ok w <-> v.depth ≤ Reader.maxLevels ∧ w = v := by
  constructor
  · intro h
    rcases tree_eq_ok_iff.mp h with ⟨found, hfound, rfl⟩
    rcases read_eq_ok_iff.mp hfound with ⟨rest, hdocument⟩
    rcases Reader.reads_document_iff.mp hdocument with ⟨mid, hread, _⟩
    -- With as many levels as the tree is deep at least, what is read is known.
    have hle := Nat.le_max_left Reader.maxLevels v.depth
    rcases (Reader.yields_written_levels hle _ found mid).mp hread with ⟨_, hmore, hdepth, rfl⟩
    have hfits : Reader.Fits (max Reader.maxLevels v.depth) v :=
      ⟨hintegral, hdistinct, Nat.le_max_right _ _⟩
    have hback := (Reader.readsBack_written hfits).reads layout 0 [] [] Reader.blanks_nil
      Reader.delimits_nil
    rw [List.nil_append, ← Utf8.encode_ofList] at hback
    rcases hmore.unique hback with ⟨rfl, _⟩
    exact ⟨hdepth, Value.settled_of_distinct hdistinct⟩
  · rintro ⟨hdepth, rfl⟩
    exact tree_text ⟨hintegral, hdistinct, hdepth⟩ layout

end Source

theorem Settings.check_of_pos {settings : Settings} (h : 0 < settings.maxDepth) :
    settings.check = .ok () := by
  apply if_neg
  intro hzero
  rw [hzero] at h
  exact absurd h (by decide)

namespace Builder

theorem fits_nested_null (n : Nat) : Reader.Fits n (nested .null n) := by
  have hnull : Reader.Fits 0 .null := .scalar 0 rfl fun _ _ heq => nomatch heq
  have hfits := fits_nested hnull n
  rwa [Nat.zero_add] at hfits

theorem depth_nested_null (n : Nat) : (nested .null n).depth = n := by
  rw [depth_nested, Value.depth, Nat.zero_add]

end Builder

namespace Document

open Builder (nested depth_nested_null fits_nested_null)

theorem ofText_text_eq_ok_iff {settings : Settings} (hcheck : settings.check = .ok ())
    {v : Value} (hintegral : v.Integral) (hdistinct : v.Distinct) (layout : Layout)
    {document : Document} :
    ofText settings (v.text layout) = .ok document <->
      (v.depth ≤ settings.maxDepth.toNat ∧ v.depth ≤ Reader.maxLevels) ∧ ⟨v⟩ = document := by
  rw [ofText_eq_ok_iff hcheck]
  simp only [Source.tree_text_eq_ok_iff hintegral hdistinct]
  constructor
  · rintro ⟨_, ⟨hlevels, rfl⟩, hdepth, hdocument⟩
    exact ⟨⟨hdepth, hlevels⟩, hdocument⟩
  · rintro ⟨⟨hdepth, hlevels⟩, hdocument⟩
    exact ⟨v, ⟨hlevels, rfl⟩, hdepth, hdocument⟩

/-- A tree becomes a document if it is no deeper than the settings allow. Its text does if the tree
is no deeper than the reader descends, besides. -/
theorem ofText_and_ofValue_iff_depth_le {settings : Settings} (hpos : 0 < settings.maxDepth)
    {v : Value} (hintegral : v.Integral) (hdistinct : v.Distinct) :
    ((exists document : Document, ofText settings (v.text .compact) = .ok document) <->
        v.depth ≤ settings.maxDepth.toNat ∧ v.depth ≤ Reader.maxLevels) ∧
      ((exists document : Document, ofValue settings v = .ok document) <->
        v.depth ≤ settings.maxDepth.toNat) := by
  have hcheck := Settings.check_of_pos hpos
  simp only [ofText_text_eq_ok_iff hcheck hintegral hdistinct, ofValue_eq_ok_iff hcheck,
    exists_and_left, exists_eq', and_true]

theorem ofText_and_ofValue_iff_depth_le_deepest :
    (exists document : Document,
      ofText ⟨200⟩ ((nested .null 127).text .compact) = .ok document) ∧
    exists document : Document, ofValue ⟨200⟩ (nested .null 127) = .ok document := by
  have hfits := fits_nested_null 127
  have hboth := @ofText_and_ofValue_iff_depth_le ⟨200⟩ (by decide) _ hfits.integral hfits.distinct
  rw [depth_nested_null] at hboth
  exact ⟨hboth.left.mpr (by decide), hboth.right.mpr (by decide)⟩

/-- One level more is allowed by the settings, and passes as a tree, but not as a text. -/
theorem ofText_refuses_allowed_depth :
    (nested .null 128).Integral ∧ (nested .null 128).Distinct ∧ (nested .null 128).depth = 128 ∧
      ofValue ⟨128⟩ (nested .null 128) = .ok ⟨nested .null 128⟩ ∧
      forall document : Document,
        ofText ⟨128⟩ ((nested .null 128).text .compact) ≠ .ok document := by
  have hfits := fits_nested_null 128
  have hdepth := depth_nested_null 128
  refine ⟨hfits.integral, hfits.distinct, hdepth, ?_, ?_⟩
  · exact ofValue_of_depth_le rfl (by rw [hdepth]; decide)
  · intro document h
    rcases (ofText_text_eq_ok_iff rfl hfits.integral hfits.distinct .compact).mp h with
      ⟨⟨_, hlevels⟩, _⟩
    rw [hdepth] at hlevels
    exact absurd hlevels (by decide)

end Document
end JsonBind
