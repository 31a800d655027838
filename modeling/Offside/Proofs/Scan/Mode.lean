import Offside.Proofs.Scan.Run

/-!
# Strict and lenient scanning

Strict scanning reports a string without its closing quote and a line whose width is that of no
open level. Where it reports neither, lenient scanning does the same.
-/

namespace Offside

/-- The causes that only strict scanning gives. -/
def Cause.OfStrictScan : Cause → Prop
  | .unterminatedString | .inconsistentDedent _ => True
  | _ => False

theorem Piece.token?_lenient (p : Piece) (position : Position)
    (h : ∀ cause, p.token? .strict position = .error cause → ¬ cause.OfStrictScan) :
    p.token? .lenient position = p.token? .strict position := by
  unfold token? at h ⊢
  cases hshape : p.shape with
  | string text closed =>
      cases closed with
      | true => rfl
      | false =>
          simp only [hshape] at h
          exact absurd trivial (h .unterminatedString rfl)
  | _ => rfl

namespace Scan

variable {s t : Scan} {xs : List Token}

theorem Step.loosen {mode : Mode} (h : Step mode s xs t) : Step .lenient s xs t := by
  cases mode with
  | lenient => exact h
  | strict =>
      cases h with
      | drop hrest hidle => exact .drop hrest hidle
      | dropLast hrest hidle => exact .dropLast hrest hidle
      | settle hrest hblanks hlead _ => exact .settle hrest hblanks hlead nofun
      | @piece r l c cs p token hrest hpiece htoken =>
          refine .piece hrest hpiece ((p.token?_lenient r.position ?_).trans htoken)
          simp [htoken]

theorem Reaches.loosen {mode : Mode} (h : Reaches mode s xs t) : Reaches .lenient s xs t := by
  induction h with
  | refl s => exact .refl s
  | step hstep _ ih => exact .step hstep.loosen ih

theorem Fails.loosen {e : Fault} (h : Fails .strict s e) (he : ¬ e.cause.OfStrictScan) :
    Fails .lenient s e := by
  cases h with
  | foreign hrest hpiece => exact .foreign hrest hpiece
  | @piece r l c cs p cause hrest hpiece htoken =>
      refine .piece hrest hpiece ((p.token?_lenient r.position fun cause' hcause ↦ ?_).trans htoken)
      obtain rfl := Except.error.inj (hcause.symm.trans htoken)
      exact he
  | ragged _ _ _ _ _ => exact absurd trivial he

end Scan

variable {source : String}

theorem scan_loosen {mode : Mode} {ts : List Token} (h : scan mode source = .ok ts) :
    scan .lenient source = .ok ts := by
  obtain ⟨xs, t, hreach, hend, rfl⟩ := scan_eq_ok_iff.mp h
  exact scan_eq_ok_iff.mpr ⟨xs, t, hreach.loosen, hend, rfl⟩

theorem scan_error_loosen {f : Fault} (h : scan .strict source = .error f)
    (hf : ¬ f.cause.OfStrictScan) : scan .lenient source = .error f := by
  obtain ⟨xs, t, hreach, hfails⟩ := Scan.exists_fails_of_run h
  rw [scan, hreach.loosen.run_eq]
  exact (hfails.loosen hf).run_eq

end Offside
