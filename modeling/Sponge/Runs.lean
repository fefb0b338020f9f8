import Mathlib.Data.Nat.Notation
import Mathlib.Data.List.Basic

/-!
Guarded deterministic machines and their runs.
An operation is applied only where its guard holds. A run is the list of its
operations; `Valid` says that every guard held when its operation was applied.
Invariants are proved for one step and lifted to runs here, once.
-/
namespace Sponge.Runs

structure Machine (σ ι : Type*) where
  enabled : σ → ι → Prop
  step : σ → ι → σ

namespace Machine

variable {σ ι : Type*}

/-- The machine whose operations can be applied anywhere. -/
def total (step : σ → ι → σ) : Machine σ ι := ⟨fun _ _ => True, step⟩

variable (M : Machine σ ι)

def exec : σ → List ι → σ
  | s, [] => s
  | s, op :: ops => exec (M.step s op) ops

def Valid : σ → List ι → Prop
  | _, [] => True
  | s, op :: ops => M.enabled s op ∧ Valid (M.step s op) ops

instance decidableValid [h : ∀ s op, Decidable (M.enabled s op)] :
    ∀ (s : σ) (ops : List ι), Decidable (M.Valid s ops)
  | _, [] => isTrue trivial
  | s, op :: ops =>
    have := decidableValid (M.step s op) ops
    inferInstanceAs (Decidable (M.enabled s op ∧ M.Valid (M.step s op) ops))

@[simp] theorem exec_nil (s : σ) : M.exec s [] = s := rfl

@[simp] theorem exec_cons (s : σ) (op : ι) (ops : List ι) :
    M.exec s (op :: ops) = M.exec (M.step s op) ops := rfl

@[simp] theorem valid_nil (s : σ) : M.Valid s [] := trivial

@[simp] theorem valid_cons (s : σ) (op : ι) (ops : List ι) :
    M.Valid s (op :: ops) ↔ M.enabled s op ∧ M.Valid (M.step s op) ops := Iff.rfl

theorem valid_of_total (h : ∀ s op, M.enabled s op) (s : σ) (ops : List ι) : M.Valid s ops := by
  induction ops generalizing s with
  | nil => trivial
  | cons op ops ih => exact ⟨h s op, ih _⟩

theorem valid_append (s : σ) (ops ops' : List ι) :
    M.Valid s (ops ++ ops') ↔ M.Valid s ops ∧ M.Valid (M.exec s ops) ops' := by
  induction ops generalizing s with
  | nil => simp
  | cons op ops ih => simp [ih, and_assoc]

theorem exec_append (s : σ) (ops ops' : List ι) :
    M.exec s (ops ++ ops') = M.exec (M.exec s ops) ops' := by
  induction ops generalizing s with
  | nil => rfl
  | cons op ops ih => exact ih (M.step s op)

theorem valid_of_snoc_prefix {s : σ} {ops pre : List ι} {op : ι} (hv : M.Valid s ops)
    (hpre : pre ++ [op] <+: ops) : M.Valid s pre ∧ M.enabled (M.exec s pre) op := by
  obtain ⟨post, rfl⟩ := hpre
  obtain ⟨hnext, -⟩ := (M.valid_append _ _ _).mp hv
  obtain ⟨hbefore, hop, -⟩ := (M.valid_append _ _ _).mp hnext
  exact ⟨hbefore, hop⟩

theorem exec_snoc (s : σ) (ops : List ι) (op : ι) :
    M.exec s (ops ++ [op]) = M.step (M.exec s ops) op := M.exec_append s ops [op]

/-- What every step preserves holds at the end of every run. -/
theorem invariant {P : σ → Prop}
    (hstep : ∀ s op, P s → M.enabled s op → P (M.step s op))
    {s : σ} (h : P s) {ops : List ι} (hv : M.Valid s ops) : P (M.exec s ops) := by
  induction ops generalizing s with
  | nil => exact h
  | cons op ops ih => exact ih (hstep s op h hv.1) hv.2

/-- The prefixes of a list, from the first one on. -/
theorem forall_prefix_cons {Q : List ι → Prop} {op : ι} {ops : List ι} :
    (∀ pre, pre <+: op :: ops → Q pre) ↔ Q [] ∧ ∀ pre, pre <+: ops → Q (op :: pre) := by
  constructor
  · intro hall
    refine ⟨hall [] List.nil_prefix, ?_⟩
    intro pre hpre
    exact hall (op :: pre) (List.cons_prefix_cons.mpr ⟨rfl, hpre⟩)
  · rintro ⟨hnil, hall⟩ pre hpre
    cases pre with
    | nil => exact hnil
    | cons first pre =>
      obtain ⟨rfl, hrest⟩ := List.cons_prefix_cons.mp hpre
      exact hall pre hrest

/-- The operations of a list, each with those before it. -/
theorem forall_snoc_prefix_cons {Q : List ι → ι → Prop} {op : ι} {ops : List ι} :
    (∀ pre last, pre ++ [last] <+: op :: ops → Q pre last) ↔
      Q [] op ∧ ∀ pre last, pre ++ [last] <+: ops → Q (op :: pre) last := by
  constructor
  · intro hall
    refine ⟨hall [] op (by simp), ?_⟩
    intro pre last hpre
    exact hall (op :: pre) last (List.cons_prefix_cons.mpr ⟨rfl, hpre⟩)
  · rintro ⟨hfirst, hall⟩ pre last hpre
    cases pre with
    | nil =>
      rw [show last = op by simpa using hpre]
      exact hfirst
    | cons first pre =>
      obtain ⟨rfl, hrest⟩ := List.cons_prefix_cons.mp hpre
      exact hall pre last hrest

theorem forall_snoc_prefix_nil {Q : List ι → ι → Prop} (pre : List ι) (last : ι)
    (h : pre ++ [last] <+: []) : Q pre last := by
  simp at h

/-- If the operations that pass a test T keep an invariant P, and every other one spoils
at once a property Q that P gives, then Q holds all along a run exactly if all its
operations pass. -/
theorem always_iff_passes {P Q : σ → Prop} {T : σ → ι → Prop} (hgood : ∀ s, P s → Q s)
    (hpass : ∀ s op, P s → M.enabled s op → T s op → P (M.step s op))
    (hfail : ∀ s op, P s → M.enabled s op → ¬ T s op → ¬ Q (M.step s op)) {s : σ} (h : P s)
    {ops : List ι} (hv : M.Valid s ops) :
    (∀ pre, pre <+: ops → Q (M.exec s pre)) ↔
      ∀ pre op, pre ++ [op] <+: ops → T (M.exec s pre) op := by
  induction ops generalizing s with
  | nil =>
    refine iff_of_true ?_ forall_snoc_prefix_nil
    intro pre hpre
    rw [List.prefix_nil.mp hpre]
    exact hgood s h
  | cons op ops ih =>
    obtain ⟨henabled, hrest⟩ := hv
    rw [forall_prefix_cons, forall_snoc_prefix_cons]
    by_cases hop : T s op
    · exact and_congr (iff_of_true (hgood s h) hop) (ih (hpass s op h henabled hop) hrest)
    · refine iff_of_false ?_ (fun hboth => hop hboth.1)
      intro hboth
      exact hfail s op h henabled hop (hboth.2 [] List.nil_prefix)

/-- Two tests that agree wherever an invariant holds, and that keep it when passed, are passed
by the same runs. -/
theorem passes_congr {P : σ → Prop} {T U : σ → ι → Prop}
    (hiff : ∀ s op, P s → (T s op ↔ U s op)) (hkeep : ∀ s op, P s → U s op → P (M.step s op))
    {s : σ} (h : P s) (ops : List ι) :
    (∀ pre op, pre ++ [op] <+: ops → T (M.exec s pre) op) ↔
      ∀ pre op, pre ++ [op] <+: ops → U (M.exec s pre) op := by
  induction ops generalizing s with
  | nil => exact iff_of_true forall_snoc_prefix_nil forall_snoc_prefix_nil
  | cons op ops ih =>
    rw [forall_snoc_prefix_cons, forall_snoc_prefix_cons]
    by_cases hop : U s op
    · exact and_congr (hiff s op h) (ih (hkeep s op h hop))
    · refine iff_of_false ?_ (fun hboth => hop hboth.1)
      intro hboth
      exact hop ((hiff s op h).mp hboth.1)

/-- No operation of the run is one of those in T. -/
def Never (T : σ → ι → Prop) (s : σ) (ops : List ι) : Prop :=
  ∀ pre op, pre ++ [op] <+: ops → ¬ T (M.exec s pre) op

theorem never_nil (T : σ → ι → Prop) (s : σ) : M.Never T s [] := forall_snoc_prefix_nil

theorem never_cons {T : σ → ι → Prop} {s : σ} {op : ι} {ops : List ι} :
    M.Never T s (op :: ops) ↔ ¬ T s op ∧ M.Never T (M.step s op) ops :=
  forall_snoc_prefix_cons

instance decidableNever {T : σ → ι → Prop} [h : ∀ s op, Decidable (T s op)] :
    ∀ (s : σ) (ops : List ι), Decidable (M.Never T s ops)
  | s, [] => isTrue (M.never_nil T s)
  | s, op :: ops =>
    have := decidableNever (T := T) (M.step s op) ops
    decidable_of_iff (¬ T s op ∧ M.Never T (M.step s op) ops) M.never_cons.symm

/-- What the other operations preserve holds at the end of every run without those in T. -/
theorem invariant_of_never {P : σ → Prop} {T : σ → ι → Prop}
    (hstep : ∀ s op, P s → M.enabled s op → ¬ T s op → P (M.step s op)) {s : σ} (h : P s)
    {ops : List ι} (hv : M.Valid s ops) (hnever : M.Never T s ops) : P (M.exec s ops) := by
  induction ops generalizing s with
  | nil => exact h
  | cons op ops ih =>
    obtain ⟨hno, hrest⟩ := M.never_cons.mp hnever
    exact ih (hstep s op h hv.1 hno) hv.2 hrest

/-- A property Q that the operations in S bring about and those in T end holds after a run if
it held before or has been brought about, and has not been ended since. -/
theorem marked_iff {P Q : σ → Prop} {S T : σ → ι → Prop}
    (hkeep : ∀ s op, P s → M.enabled s op → P (M.step s op))
    (hmark : ∀ s op, P s → M.enabled s op → (Q (M.step s op) ↔ (Q s ∧ ¬ T s op) ∨ S s op))
    {s : σ} (h : P s) {ops : List ι} (hv : M.Valid s ops) :
    Q (M.exec s ops) ↔ (Q s ∧ M.Never T s ops) ∨
      ∃ pre op post, ops = pre ++ op :: post ∧ S (M.exec s pre) op ∧
        M.Never T (M.exec s (pre ++ [op])) post := by
  induction ops generalizing s with
  | nil => simp [never_nil]
  | cons op ops ih =>
    obtain ⟨hop, hrest⟩ := hv
    rw [exec_cons, ih (hkeep s op h hop) hrest, hmark s op h hop, never_cons]
    constructor
    · rintro (⟨⟨hs, hclear⟩ | hset, hnever⟩ | ⟨pre, op', post, rfl, hset, hnever⟩)
      · exact Or.inl ⟨hs, hclear, hnever⟩
      · exact Or.inr ⟨[], op, ops, rfl, hset, hnever⟩
      · exact Or.inr ⟨op :: pre, op', post, rfl, hset, hnever⟩
    · rintro (⟨hs, hclear, hnever⟩ | ⟨pre, op', post, hsplit, hset, hnever⟩)
      · exact Or.inl ⟨Or.inl ⟨hs, hclear⟩, hnever⟩
      · cases pre with
        | nil =>
          obtain ⟨rfl, rfl⟩ := List.cons.inj hsplit
          exact Or.inl ⟨Or.inr hset, hnever⟩
        | cons first pre =>
          obtain ⟨rfl, rfl⟩ := List.cons.inj hsplit
          exact Or.inr ⟨pre, op', post, rfl, hset, hnever⟩

end Machine

end Sponge.Runs
