import JsonBind.Proofs.Scan

/-!
# Scans beside each other

One scan may read what another one reads, converted. The conversion may refuse what the
other scan reads, and then the first one reads nothing there.
-/

namespace JsonBind
namespace Scan

variable {β ε α γ δ σ τ : Type}

/-- On this input `p` reads just what `q` reads, converted. -/
def Yields (converts : γ -> α -> Prop) (p : Scan β ε α) (q : Scan β ε γ) (input : List β) :
    Prop :=
  forall (a : α) (rest : List β),
    Reads p input a rest <-> exists c : γ, Reads q input c rest ∧ converts c a

theorem Yields.advances {converts : γ -> α -> Prop} {p : Scan β ε α} {q : Scan β ε γ}
    (h : forall input : List β, Yields converts p q input) (hq : Advances q) : Advances p := by
  intro input a rest hread
  rcases (h input a rest).mp hread with ⟨c, hc, _⟩
  exact hq input c rest hc

theorem yields_of_not_reads {converts : γ -> α -> Prop} {p : Scan β ε α} {q : Scan β ε γ}
    {input : List β} (hp : forall (a : α) (rest : List β), ¬ Reads p input a rest)
    (hq : forall (c : γ) (rest : List β) (a : α), Reads q input c rest -> ¬ converts c a) :
    Yields converts p q input := by
  intro a rest
  constructor
  · intro h
    exact absurd h (hp a rest)
  · rintro ⟨c, hread, hconverts⟩
    exact absurd hconverts (hq c rest a hread)

theorem Yields.bind_left {converts : γ -> α -> Prop} {first : Scan β ε δ}
    {p : δ -> Scan β ε α} {q : δ -> Scan β ε γ} {input : List β}
    (h : forall (d : δ) (mid : List β),
      Reads first input d mid -> Yields converts (p d) (q d) mid) :
    Yields converts (first >>= p) (first >>= q) input := by
  intro a rest
  simp only [reads_bind_iff]
  constructor
  · rintro ⟨d, mid, hfirst, hp⟩
    rcases (h d mid hfirst a rest).mp hp with ⟨c, hq, hconverts⟩
    exact ⟨c, ⟨d, mid, hfirst, hq⟩, hconverts⟩
  · rintro ⟨c, ⟨d, mid, hfirst, hq⟩, hconverts⟩
    exact ⟨d, mid, hfirst, (h d mid hfirst a rest).mpr ⟨c, hq, hconverts⟩⟩

theorem Yields.bind_pure {converts : γ -> α -> Prop} {wrapped : τ -> σ -> Prop}
    {p : Scan β ε α} {q : Scan β ε γ} {input : List β} (h : Yields converts p q input)
    {f : α -> σ} {g : γ -> τ}
    (hwrapped : forall (c : γ) (s : σ), wrapped (g c) s <->
      exists a : α, converts c a ∧ s = f a) :
    Yields wrapped (p >>= fun a => Pure.pure (f a)) (q >>= fun c => Pure.pure (g c)) input := by
  intro s rest
  simp only [reads_bind_iff, reads_pure_iff]
  constructor
  · rintro ⟨a, mid, hp, rfl, rfl⟩
    rcases (h a rest).mp hp with ⟨c, hq, hconverts⟩
    exact ⟨g c, ⟨c, rest, hq, rfl, rfl⟩, (hwrapped c (f a)).mpr ⟨a, hconverts, rfl⟩⟩
  · rintro ⟨t, ⟨c, mid, hq, rfl, rfl⟩, hwraps⟩
    rcases (hwrapped c s).mp hwraps with ⟨a, hconverts, rfl⟩
    exact ⟨a, rest, (h a rest).mpr ⟨c, hq, hconverts⟩, rfl, rfl⟩

theorem Yields.map_left {converts : γ -> α -> Prop} {p : Scan β ε α} {q : Scan β ε γ}
    {input : List β} (h : Yields converts p q input) (f : α -> σ) :
    Yields (fun c s => exists a : α, converts c a ∧ f a = s) (f <$> p) q input := by
  intro s rest
  rw [reads_map_iff]
  constructor
  · rintro ⟨a, hp, rfl⟩
    rcases (h a rest).mp hp with ⟨c, hq, hconverts⟩
    exact ⟨c, hq, a, hconverts, rfl⟩
  · rintro ⟨c, hq, a, hconverts, rfl⟩
    exact ⟨a, (h a rest).mpr ⟨c, hq, hconverts⟩, rfl⟩

end Scan
end JsonBind
