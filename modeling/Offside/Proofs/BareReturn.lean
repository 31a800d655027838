import Offside.Proofs.Grammar.Transport

/-!
# A return alone

The keyword `return` is all of its statement only if a line break or the end mark follows it.
Anything else behind it is taken for the start of an expression, so a list of tokens in which the
end of a block follows it directly is not parsed at all.
-/

namespace Offside

/-- A `return` stands directly in front of a token of kind `k`. -/
inductive ReturnBefore (k : Kind) : List Token → Prop
  | here {t : Token} {ts : List Token} (hreturn : t.kind = .keyword .returnKw)
      (hnext : firstKind ts = k) : ReturnBefore k (t :: ts)
  | later {t : Token} {ts : List Token} (h : ReturnBefore k ts) : ReturnBefore k (t :: ts)

namespace ReturnBefore

variable {k : Kind} {t : Token} {ts us : List Token}

theorem of_cons (h : ReturnBefore k (t :: ts)) (ht : t.kind ≠ .keyword .returnKw) :
    ReturnBefore k ts := by
  cases h with
  | here hreturn _ => exact absurd hreturn ht
  | later h => exact h

theorem of_suffix (h : ReturnBefore k us) (hsuffix : us <:+ ts) : ReturnBefore k ts := by
  obtain ⟨ws, rfl⟩ := hsuffix
  induction ws with
  | nil => exact h
  | cons _ _ ih => exact .later ih

theorem of_breaks (h : ReturnBefore k ts) (hgap : Breaks ts us) : ReturnBefore k us := by
  induction hgap with
  | refl _ => exact h
  | cons hkind _ ih => exact ih (h.of_cons (by simp [hkind]))

end ReturnBefore

/-- Every statement but a `return` alone ends in front of a brace. -/
theorem Stmt.endsBefore_brace {k : Kind} (s : Stmt)
    (hk : k = .mark .openCurly ∨ k = .mark .closeCurly) (h : ∀ p, s ≠ .returning p none) :
    s.EndsBefore k := by
  have hends : k.Ends .lowest := by rcases hk with rfl | rfl <;> exact ⟨rfl, rfl⟩
  cases s with
  | expression _ _ =>
      refine ⟨hends, ?_⟩
      rcases hk with rfl | rfl <;> rfl
  | assignment _ _ _ _ => exact hends
  | varDecl _ _ _ _ value =>
      cases value with
      | none => rcases hk with rfl | rfl <;> exact ⟨nofun, nofun⟩
      | some _ => exact hends
  | returning p value =>
      cases value with
      | none => exact absurd rfl (h p)
      | some _ => exact hends
  | importing _ _ _ localName =>
      cases localName with
      | none => rcases hk with rfl | rfl <;> exact ⟨nofun, nofun⟩
      | some _ => trivial
  | _ => trivial

/-- What `return` stands in front of ends it or starts an expression. -/
theorem Stmt.EndsBefore.after_return {s : Stmt} {n : Nat} {t : Token} {ts us : List Token}
    (hends : s.EndsBefore (firstKind us)) (h : s.Simple n (t :: ts) us)
    (ht : t.kind = .keyword .returnKw) :
    firstKind ts = .newline ∨ firstKind ts = .eof ∨ (firstKind ts).StartsExpr := by
  have hexpr : ∀ {e : Expr} {n : Nat} {us : List Token}, ¬ e.Reads n (t :: ts) us := by
    intro e n us h
    have hinner := (Expr.Reads.starts h).isInner
    rw [firstKind_cons, ht] at hinner
    exact hinner
  cases h with
  | expression h => exact absurd h hexpr
  | assignment htarget _ _ => exact absurd htarget hexpr
  | returning _ => exact hends.imp_right .inl
  | returningValue _ h => exact .inr (.inr (Expr.Reads.starts h))
  | binding hkind _ _ _ => simp [ht] at hkind
  | breaking hkind | continuing hkind | pass hkind | importing hkind _ _
  | fromImport hkind _ _ _ _ =>
      simp [ht] at hkind

theorem Layout.exact_carries_returnBefore {k : Kind} (mode : Mode)
    (hk : k = .dedent ∨ k = .mark .closeCurly) : (exact mode).Carries (exact mode)
    (fun ts us ↦ ts = us ∧ ReturnBefore k ts) (fun ts us ↦ ts = us ∧ ReturnBefore k ts) where
  mode h := h
  inner := by
    rintro k t ts - rfl ht ⟨rfl, h⟩
    refine ⟨ts, rfl, rfl, h.of_cons fun hreturn ↦ ?_⟩
    rw [hreturn] at ht
    exact ht.elim
  returning := by
    rintro s n t ts us - ht h hends ⟨rfl, hbefore⟩
    cases hbefore with
    | here _ hnext =>
        have hafter := hends.after_return h ht
        rw [hnext] at hafter
        rcases hk with rfl | rfl <;> simp [Kind.StartsExpr, Kind.atomForm?, Kind.unaryOp?] at hafter
    | later h => exact ⟨ts, rfl, rfl, h⟩
  inside _ _ h := h
  brace := by
    rintro t ts - ht ⟨rfl, h⟩
    exact ⟨ts, rfl, rfl, h.of_cons (by rcases ht with ht | ht <;> simp [ht])⟩
  indent := by
    rintro t ts - ht ⟨rfl, h⟩
    exact ⟨ts, rfl, rfl, h.of_cons (by simp [ht])⟩
  dedent := by
    rintro t ts - ht ⟨rfl, h⟩
    exact ⟨t, ts, rfl, ht, rfl, h.of_cons (by simp [ht])⟩
  eof := by
    rintro ts _ hend ⟨rfl, -⟩
    exact hend
  gap := by
    rintro ts us _ hgap ⟨rfl, h⟩
    exact ⟨us, hgap, rfl, h.of_breaks hgap⟩
  ends := by
    rintro s n ts us _ _ - hends - - ⟨rfl, -⟩
    exact hends

/-- What is read has no `return` directly in front of the end of a block. -/
theorem Program.Reads.not_returnBefore {p : Program} {mode : Mode} {n : Nat} {ts : List Token}
    {k : Kind} (h : p.Reads (.exact mode) n ts) (hk : k = .dedent ∨ k = .mark .closeCurly) :
    ¬ ReturnBefore k ts := by
  intro hbefore
  obtain ⟨-, us, hgap, h⟩ := h
  have hL := (Layout.exact_carries_returnBefore mode hk).translates
  obtain ⟨us', -, hus⟩ := hL.gap hgap (.inl ⟨rfl, hbefore⟩)
  obtain ⟨-, -, -, hnil⟩ := h.translate hL hus
  cases hnil

end Offside
