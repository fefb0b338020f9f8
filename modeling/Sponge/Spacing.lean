import Sponge.Runs

/-!
Events along the runs of a machine, and how far apart they are.
Every operation takes some time and emits some events. Events with the same key
are spaced by a gap if each one bars its key for a while: the bar is kept by all
operations, with the time that has passed since, and gone only after the gap.
-/
namespace Sponge.Runs.Machine

variable {σ ι κ : Type*} (M : Machine σ ι) (duration : ι → ℕ) (emits : σ → ι → List κ)

/-- The events of a run that begins at the time `now`, each with its time. -/
def timeline : ℕ → σ → List ι → List (ℕ × κ)
  | _, _, [] => []
  | now, s, op :: ops =>
    (emits s op).map (fun k => (now, k)) ++ timeline (now + duration op) (M.step s op) ops

/-- Events with the same key come in order, more than the gap apart. -/
def Spaced (gap : ℕ) (events : List (ℕ × κ)) : Prop :=
  events.Pairwise fun a b => a.2 = b.2 → a.1 + gap < b.1

/-- `barred k t s` means that in s the key k was last emitted t ago. -/
structure Bars (gap : ℕ) (P : σ → Prop) (barred : κ → ℕ → σ → Prop) : Prop where
  keeps : ∀ {s op}, P s → M.enabled s op → P (M.step s op)
  nodup : ∀ s op, P s → M.enabled s op → (emits s op).Nodup
  begins : ∀ {s op k}, P s → M.enabled s op → k ∈ emits s op → barred k (duration op) (M.step s op)
  lasts : ∀ {s op k t}, P s → M.enabled s op → barred k t s →
    barred k (t + duration op) (M.step s op)
  ends : ∀ {s op k t}, P s → M.enabled s op → barred k t s → k ∈ emits s op → gap < t

variable {M duration emits} {gap : ℕ} {P : σ → Prop} {barred : κ → ℕ → σ → Prop}

/-- After an emission t ago, the next one of this key comes when the gap is over. -/
theorem Bars.lt_of_mem (hbars : Bars M duration emits gap P barred) {now t : ℕ} {s : σ} {k : κ}
    (hs : P s) (hbarred : barred k t s) {ops : List ι} (hv : M.Valid s ops) {time : ℕ}
    (hmem : (time, k) ∈ M.timeline duration emits now s ops) : now + gap < time + t := by
  induction ops generalizing now t s with
  | nil => exact absurd hmem List.not_mem_nil
  | cons op ops ih =>
    rcases List.mem_append.mp hmem with hnow | hlater
    · obtain ⟨k', hemitted, heq⟩ := List.mem_map.mp hnow
      obtain ⟨rfl, rfl⟩ := Prod.mk.inj heq
      have hgap := hbars.ends hs hv.1 hbarred hemitted
      omega
    · have hrest := ih (hbars.keeps hs hv.1) (hbars.lasts hs hv.1 hbarred) hv.2 hlater
      omega

theorem Bars.spaced (hbars : Bars M duration emits gap P barred) (now : ℕ) {s : σ} (hs : P s)
    {ops : List ι} (hv : M.Valid s ops) :
    Spaced gap (M.timeline duration emits now s ops) := by
  induction ops generalizing now s with
  | nil => exact List.Pairwise.nil
  | cons op ops ih =>
    refine List.pairwise_append.mpr ⟨?_, ih _ (hbars.keeps hs hv.1) hv.2, ?_⟩
    · rw [List.pairwise_map]
      refine (hbars.nodup s op hs hv.1).imp ?_
      intro k k' hne heq
      exact absurd heq hne
    · rintro ⟨time, k⟩ hfirst ⟨time', k'⟩ hlater heq
      obtain ⟨k'', hemitted, hpair⟩ := List.mem_map.mp hfirst
      obtain ⟨rfl, rfl⟩ := Prod.mk.inj hpair
      change k'' = k' at heq
      subst heq
      have hgap := hbars.lt_of_mem (hbars.keeps hs hv.1) (hbars.begins hs hv.1 hemitted) hv.2 hlater
      omega

end Sponge.Runs.Machine
