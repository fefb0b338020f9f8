import Sponge.Runs

/-!
Guarded machines that reply, and simulations between them.
A transducer is a machine whose operations also return something. One transducer
simulates another when related states give the same replies and stay related; then
every valid run of the first is a valid run of the second, reply by reply.
-/
namespace Sponge.Runs

structure Transducer (σ ι ω : Type*) extends Machine σ ι where
  reply : σ → ι → ω

namespace Transducer

variable {σ τ ι ω : Type*}

def replies (T : Transducer σ ι ω) : σ → List ι → List ω
  | _, [] => []
  | s, op :: ops => T.reply s op :: T.replies (T.step s op) ops

/-- What T does from a state related by R, U does as well. -/
structure Simulation (T : Transducer σ ι ω) (U : Transducer τ ι ω) (R : σ → τ → Prop) :
    Prop where
  enabled : ∀ s t op, R s t → T.enabled s op → U.enabled t op
  reply : ∀ s t op, R s t → T.enabled s op → T.reply s op = U.reply t op
  step : ∀ s t op, R s t → T.enabled s op → R (T.step s op) (U.step t op)

theorem Simulation.run {T : Transducer σ ι ω} {U : Transducer τ ι ω} {R : σ → τ → Prop}
    (h : Simulation T U R) {s : σ} {t : τ} (hst : R s t) {ops : List ι} (hv : T.Valid s ops) :
    U.Valid t ops ∧ T.replies s ops = U.replies t ops ∧ R (T.exec s ops) (U.exec t ops) := by
  induction ops generalizing s t with
  | nil => exact ⟨trivial, rfl, hst⟩
  | cons op ops ih =>
    obtain ⟨hop, hrest⟩ := hv
    obtain ⟨hvalid, hreplies, hend⟩ := ih (h.step s t op hst hop) hrest
    refine ⟨⟨h.enabled s t op hst hop, hvalid⟩, ?_, hend⟩
    rw [replies, replies, h.reply s t op hst hop, hreplies]

end Transducer

end Sponge.Runs
