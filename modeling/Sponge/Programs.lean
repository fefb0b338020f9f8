import Mathlib

/-!
Programs with a state and exceptions, and what holds when they end.
The triples are those of Std.Do; `Ensures` fixes their shape for pre- and postconditions
that are plain predicates. A program for a part of the state is run on the whole through
a lens, and the rest of the state stays as it is.
-/
namespace Sponge.Programs

open Std.Do

variable {ε σ τ α : Type}

/-- Started where P holds, the program ends where Q holds, or throws where E holds. -/
abbrev Ensures (P : σ → Prop) (m : EStateM ε σ α) (Q : α → σ → Prop) (E : ε → σ → Prop) : Prop :=
  ⦃fun s => ⌜P s⌝⦄ m ⦃post⟨fun a s => ⌜Q a s⌝, fun e s => ⌜E e s⌝⟩⦄

/-- What has been ensured can be read off the result. -/
theorem ensures_iff {P : σ → Prop} {m : EStateM ε σ α} {Q : α → σ → Prop} {E : ε → σ → Prop} :
    Ensures P m Q E ↔ ∀ s, P s →
      match m s with
      | .ok a s' => Q a s'
      | .error e s' => E e s' := by
  rw [Ensures, Triple.iff]
  refine forall_congr' fun s => imp_congr Iff.rfl ?_
  cases hm : m s <;> simp only [WP.wp, PredTrans.apply, EStateM.run, hm] <;> exact Iff.rfl

section Rules

variable {β : Type} {P P' : σ → Prop} {m : EStateM ε σ α} {Q Q' : α → σ → Prop}
  {E E' : ε → σ → Prop}

theorem Ensures.mono (h : Ensures P m Q E) (hpre : ∀ s, P' s → P s)
    (hpost : ∀ a s, Q a s → Q' a s) (hthrown : ∀ e s, E e s → E' e s) : Ensures P' m Q' E' := by
  rw [ensures_iff] at h ⊢
  intro s hs
  have hend := h s (hpre s hs)
  cases hm : m s with
  | ok a s' =>
    rw [hm] at hend
    exact hpost a s' hend
  | error e s' =>
    rw [hm] at hend
    exact hthrown e s' hend

theorem Ensures.pre (h : Ensures P m Q E) (hpre : ∀ s, P' s → P s) : Ensures P' m Q E :=
  h.mono hpre (fun _ _ => id) (fun _ _ => id)

theorem Ensures.post (h : Ensures P m Q E) (hpost : ∀ a s, Q a s → Q' a s) : Ensures P m Q' E :=
  h.mono (fun _ => id) hpost (fun _ _ => id)

/-- Two facts about one program; the second one says nothing about exceptions. -/
theorem Ensures.and (h : Ensures P m Q E) (h' : Ensures P' m Q' (fun _ _ => True)) :
    Ensures (fun s => P s ∧ P' s) m (fun a s => Q a s ∧ Q' a s) E := by
  rw [ensures_iff] at h h' ⊢
  rintro s ⟨hs, hs'⟩
  have hend := h s hs
  have hend' := h' s hs'
  cases hm : m s with
  | ok a s' =>
    rw [hm] at hend hend'
    exact ⟨hend, hend'⟩
  | error e s' =>
    rw [hm] at hend
    exact hend

theorem Ensures.bind {f : α → EStateM ε σ β} {R : β → σ → Prop} (h : Ensures P m Q E)
    (h' : ∀ a, Ensures (Q a) (f a) R E) : Ensures P (m >>= f) R E := Triple.bind m f h h'

/-- It is enough to look at one start at a time. -/
theorem ensures_of_start (h : ∀ s, P s → Ensures (fun s' => s' = s) m Q E) : Ensures P m Q E :=
  ensures_iff.mpr fun s hs => ensures_iff.mp (h s hs) s rfl

theorem ensures_pure {a : α} (h : ∀ s, P s → Q a s) : Ensures P (pure a) Q E :=
  Triple.pure a h

theorem ensures_throw {e : ε} (h : ∀ s, P s → E e s) : Ensures P (throw e : EStateM ε σ α) Q E :=
  ensures_iff.mpr h

theorem ensures_get_bind {f : σ → EStateM ε σ β} {R : β → σ → Prop}
    (h : ∀ s, P s → Ensures (fun s' => s' = s) (f s) R E) : Ensures P (get >>= f) R E :=
  ensures_iff.mpr fun s hs => ensures_iff.mp (h s hs) s rfl

theorem ensures_set {s₁ : σ} {R : Unit → σ → Prop} (h : ∀ s, P s → R () s₁) :
    Ensures P (set s₁ : EStateM ε σ Unit) R E := ensures_iff.mpr h

theorem ensures_modify {f : σ → σ} {R : Unit → σ → Prop} (h : ∀ s, P s → R () (f s)) :
    Ensures P (modify f : EStateM ε σ Unit) R E := ensures_iff.mpr h

end Rules

/-- A part of a state that can be replaced. -/
structure Lens (σ τ : Type) where
  get : σ → τ
  set : τ → σ → σ

/-- Run a program on a part of the state. -/
def zoom (l : Lens σ τ) (m : EStateM ε τ α) : EStateM ε σ α := fun s =>
  match m (l.get s) with
  | .ok a t => .ok a (l.set t s)
  | .error e t => .error e (l.set t s)

theorem zoom_ensures {l : Lens σ τ} {m : EStateM ε τ α} {s : σ} {Q : α → τ → Prop}
    {E : ε → τ → Prop} (h : Ensures (fun t => t = l.get s) m Q E) :
    Ensures (fun s' => s' = s) (zoom l m) (fun a s' => ∃ t, Q a t ∧ s' = l.set t s)
      (fun e s' => ∃ t, E e t ∧ s' = l.set t s) := by
  rw [ensures_iff] at h ⊢
  rintro s' rfl
  have hend := h (l.get s') rfl
  unfold zoom
  cases hm : m (l.get s') with
  | ok a t =>
    rw [hm] at hend
    exact ⟨t, hend, rfl⟩
  | error e t =>
    rw [hm] at hend
    exact ⟨t, hend, rfl⟩

end Sponge.Programs
