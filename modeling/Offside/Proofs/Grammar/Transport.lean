import Offside.Proofs.Parse.CompleteProgram

/-!
# Carrying readings from one list of tokens to another

Two lists of tokens may differ in their layout only. What is read from the one is then read from
the other, as long as the relation between them passes through every token that belongs to an
expression or a statement. Between statements more may happen, so there are two relations: one
inside statements and another behind the gaps around them. Indented blocks are translated as a
whole, since the same block may be written between braces.
-/

namespace Offside

/-- What is written inside statements. Braces stand around them, and the keyword `return` may be
all there is of one, so what follows it may be layout. -/
def Kind.IsInner : Kind → Prop
  | .newline | .indent | .dedent | .eof | .keyword .returnKw => False
  | .mark .openCurly | .mark .closeCurly => False
  | _ => True

theorem Kind.IsInner.isInk {k : Kind} (h : k.IsInner) : k.IsInk := by
  cases k with
  | newline | indent | dedent | eof => exact h
  | _ => trivial

theorem BinaryOp.kind_isInner (op : BinaryOp) : op.kind.IsInner := by
  cases op <;> trivial

theorem UnaryOp.kind_isInner (op : UnaryOp) : op.kind.IsInner := by
  cases op <;> trivial

theorem AssignOp.kind_isInner (op : AssignOp) : op.kind.IsInner := by
  cases op <;> trivial

theorem Kind.StartsExpr.isInner {k : Kind} (h : k.StartsExpr) : k.IsInner := by
  cases k with
  | newline | indent | dedent | eof => simp [StartsExpr, atomForm?, unaryOp?] at h
  | keyword k =>
      cases k with
      | returnKw => simp [StartsExpr, atomForm?, unaryOp?] at h
      | _ => trivial
  | mark m =>
      cases m with
      | openCurly | closeCurly => simp [StartsExpr, atomForm?, unaryOp?] at h
      | _ => trivial
  | _ => trivial

theorem Kind.isInner_of_atomForm? {k : Kind} {form : AtomForm} (h : k.atomForm? = some form) :
    k.IsInner :=
  StartsExpr.isInner (.inl (Option.isSome_of_eq_some h))

/-- The relation goes on past a token inside a statement, which stands on both sides. -/
def PassesInner (M : List Token → List Token → Prop) : Prop :=
  ∀ ⦃k t ts ts'⦄, t.kind = k → k.IsInner → M (t :: ts) ts' → ∃ us', ts' = t :: us' ∧ M ts us'

/-- Readings from the one list are readings from the other. -/
def Reading.Carried {α : Type} (M : List Token → List Token → Prop) (S : Reading α) : Prop :=
  ∀ ⦃a n ts us ts'⦄, S a n ts us → M ts ts' → ∃ us', S a n ts' us' ∧ M us us'

section

variable {α : Type} {M : List Token → List Token → Prop} {S : Reading α}

theorem Named.carried (hM : PassesInner M) (f : Token → α) : (Named f).Carried M := by
  intro a n ts us ts' h hts
  cases h with
  | mk hkind =>
      obtain ⟨us', rfl, hus⟩ := hM hkind trivial hts
      exact ⟨us', .mk hkind, hus⟩

theorem Optionally.carried (hM : PassesInner M) (k : Kind) (hk : k.IsInner) (hS : S.Carried M) :
    (Optionally k S).Carried M := by
  intro a n ts us ts' h hts
  cases h with
  | none => exact ⟨ts', .none, hts⟩
  | some hkind hpart =>
      obtain ⟨us', rfl, hus⟩ := hM hkind hk hts
      obtain ⟨vs', hpart, hvs⟩ := hS hpart hus
      exact ⟨vs', .some hkind hpart, hvs⟩

theorem Separated.carried (hM : PassesInner M) (hS : S.Carried M) : (Separated S).Carried M := by
  intro as n ts us ts' h hts
  induction h generalizing ts' with
  | last hpart =>
      obtain ⟨us', hpart, hus⟩ := hS hpart hts
      exact ⟨us', .last hpart, hus⟩
  | more hpart hcomma _ ih =>
      obtain ⟨us', hpart, hus⟩ := hS hpart hts
      obtain ⟨vs', rfl, hvs⟩ := hM hcomma trivial hus
      obtain ⟨ws', hothers, hws⟩ := ih hvs
      exact ⟨ws', .more hpart hcomma hothers, hws⟩

theorem Listed.carried (hM : PassesInner M) (hS : S.Carried M) : (Listed S).Carried M := by
  intro as n ts us ts' h hts
  cases h with
  | none => exact ⟨ts', .none, hts⟩
  | some hparts =>
      obtain ⟨us', hparts, hus⟩ := Separated.carried hM hS hparts hts
      exact ⟨us', .some hparts, hus⟩

end

section

variable {M : List Token → List Token → Prop} (hM : PassesInner M)

include hM

theorem Phrase.Reads.carry {ph : Phrase} {n : Nat} {ts us ts' : List Token}
    (h : ph.Reads n ts us) (hts : M ts ts') : ∃ us', ph.Reads n ts' us' ∧ M us us' := by
  induction h generalizing ts' with
  | nested _ ih =>
      obtain ⟨us', h, hus⟩ := ih hts
      exact ⟨us', .nested h, hus⟩
  | looser _ ih =>
      obtain ⟨us', h, hus⟩ := ih hts
      exact ⟨us', .looser h, hus⟩
  | @binary op _ _ _ _ _ _ _ _ _ hop _ ihl ihr =>
      obtain ⟨us', hleft, hus⟩ := ihl hts
      obtain ⟨vs', rfl, hvs⟩ := hM hop op.kind_isInner hus
      obtain ⟨ws', hright, hws⟩ := ihr hvs
      exact ⟨ws', .binary hleft hop hright, hws⟩
  | @unary op _ _ _ _ _ hop _ ih =>
      obtain ⟨us', rfl, hus⟩ := hM hop op.kind_isInner hts
      obtain ⟨vs', h, hvs⟩ := ih hus
      exact ⟨vs', .unary hop h, hvs⟩
  | operand _ ih =>
      obtain ⟨us', h, hus⟩ := ih hts
      exact ⟨us', .operand h, hus⟩
  | primary htoken =>
      have hinner := Kind.isInner_of_atomForm? (Expr.atomForm?_of_ofToken htoken)
      obtain ⟨us', rfl, hus⟩ := hM rfl hinner hts
      exact ⟨us', .primary htoken, hus⟩
  | group hopen _ hclose ih =>
      obtain ⟨us', rfl, hus⟩ := hM hopen trivial hts
      obtain ⟨vs', h, hvs⟩ := ih hus
      obtain ⟨ws', rfl, hws⟩ := hM hclose trivial hvs
      exact ⟨ws', .group hopen h hclose, hws⟩
  | array hopen _ hclose ih =>
      obtain ⟨us', rfl, hus⟩ := hM hopen trivial hts
      obtain ⟨vs', h, hvs⟩ := ih hus
      obtain ⟨ws', rfl, hws⟩ := hM hclose trivial hvs
      exact ⟨ws', .array hopen h hclose, hws⟩
  | call _ hopen _ hclose ihl ihr =>
      obtain ⟨us', hcallee, hus⟩ := ihl hts
      obtain ⟨vs', rfl, hvs⟩ := hM hopen trivial hus
      obtain ⟨ws', h, hws⟩ := ihr hvs
      obtain ⟨xs', rfl, hxs⟩ := hM hclose trivial hws
      exact ⟨xs', .call hcallee hopen h hclose, hxs⟩
  | subscript _ hopen _ hclose ihl ihr =>
      obtain ⟨us', hobject, hus⟩ := ihl hts
      obtain ⟨vs', rfl, hvs⟩ := hM hopen trivial hus
      obtain ⟨ws', h, hws⟩ := ihr hvs
      obtain ⟨xs', rfl, hxs⟩ := hM hclose trivial hws
      exact ⟨xs', .subscript hobject hopen h hclose, hxs⟩
  | member _ hdot hname ih =>
      obtain ⟨us', hobject, hus⟩ := ih hts
      obtain ⟨vs', rfl, hvs⟩ := hM hdot trivial hus
      obtain ⟨ws', rfl, hws⟩ := hM hname trivial hvs
      exact ⟨ws', .member hobject hdot hname, hws⟩
  | last _ ih =>
      obtain ⟨us', h, hus⟩ := ih hts
      exact ⟨us', .last h, hus⟩
  | more _ hcomma _ ihl ihr =>
      obtain ⟨us', h, hus⟩ := ihl hts
      obtain ⟨vs', rfl, hvs⟩ := hM hcomma trivial hus
      obtain ⟨ws', hothers, hws⟩ := ihr hvs
      exact ⟨ws', .more h hcomma hothers, hws⟩
  | none => exact ⟨ts', .none, hts⟩
  | some _ ih =>
      obtain ⟨us', h, hus⟩ := ih hts
      exact ⟨us', .some h, hus⟩

theorem Expr.Reads.carried : Reading.Carried M Expr.Reads :=
  fun _ _ _ _ _ h ↦ Phrase.Reads.carry hM h

theorem Parameter.Reads.carried : Reading.Carried M Parameter.Reads := by
  intro p n ts us ts' h hts
  cases h with
  | mk hname htype hdefault =>
      obtain ⟨us', rfl, hus⟩ := hM hname trivial hts
      obtain ⟨vs', htype, hvs⟩ :=
        Optionally.carried hM (.mark .colon) trivial (Named.carried hM _) htype hus
      obtain ⟨ws', hdefault, hws⟩ :=
        Optionally.carried hM (.mark .assign) trivial (Expr.Reads.carried hM) hdefault hvs
      exact ⟨ws', .mk hname htype hdefault, hws⟩

/-- Whether the keyword `return` is passed depends on what stands after it. -/
theorem Stmt.Simple.carry {s : Stmt} {n : Nat} {ts us ts' : List Token} (h : s.Simple n ts us)
    (hreturn : ∀ ⦃t vs⦄, ts = t :: vs → t.kind = .keyword .returnKw →
      ∃ us', ts' = t :: us' ∧ M vs us') (hts : M ts ts') :
    ∃ us', s.Simple n ts' us' ∧ M us us' := by
  have hnames := Optionally.carried hM (.keyword .asKw) trivial (Named.carried hM Token.lexeme)
  have hfirst : ∀ ⦃e : Expr⦄ ⦃n t ts us ts'⦄, e.Reads n (t :: ts) us → M (t :: ts) ts' →
      ∃ us', ts' = t :: us' ∧ M ts us' := by
    intro e n t ts us ts' h hts
    obtain ⟨t, vs, ⟨⟩, hstart⟩ := h.exists_cons nofun
    exact hM rfl hstart.startsExpr.isInner hts
  cases h with
  | expression h =>
      obtain ⟨us', rfl, -⟩ := hfirst h hts
      obtain ⟨vs', h, hvs⟩ := Expr.Reads.carried hM h hts
      exact ⟨vs', .expression h, hvs⟩
  | @assignment _ _ _ _ op _ _ _ _ _ htarget hop hvalue =>
      obtain ⟨us', rfl, -⟩ := hfirst htarget hts
      obtain ⟨vs', htarget, hvs⟩ := Expr.Reads.carried hM htarget hts
      obtain ⟨ws', rfl, hws⟩ := hM hop op.kind_isInner hvs
      obtain ⟨xs', hvalue, hxs⟩ := Expr.Reads.carried hM hvalue hws
      exact ⟨xs', .assignment htarget hop hvalue, hxs⟩
  | binding hkind hname htype hvalue =>
      obtain ⟨us', rfl, hus⟩ := hM rfl (hkind.elim (· ▸ trivial) (· ▸ trivial)) hts
      obtain ⟨vs', rfl, hvs⟩ := hM hname trivial hus
      obtain ⟨ws', htype, hws⟩ :=
        Optionally.carried hM (.mark .colon) trivial (Named.carried hM _) htype hvs
      obtain ⟨xs', hvalue, hxs⟩ :=
        Optionally.carried hM (.mark .assign) trivial (Expr.Reads.carried hM) hvalue hws
      exact ⟨xs', .binding hkind hname htype hvalue, hxs⟩
  | returning hkind =>
      obtain ⟨us', rfl, hus⟩ := hreturn rfl hkind
      exact ⟨us', .returning hkind, hus⟩
  | returningValue hkind h =>
      obtain ⟨us', rfl, hus⟩ := hreturn rfl hkind
      obtain ⟨vs', h, hvs⟩ := Expr.Reads.carried hM h hus
      exact ⟨vs', .returningValue hkind h, hvs⟩
  | breaking hkind =>
      obtain ⟨us', rfl, hus⟩ := hM hkind trivial hts
      exact ⟨us', .breaking hkind, hus⟩
  | continuing hkind =>
      obtain ⟨us', rfl, hus⟩ := hM hkind trivial hts
      exact ⟨us', .continuing hkind, hus⟩
  | pass hkind =>
      obtain ⟨us', rfl, hus⟩ := hM hkind trivial hts
      exact ⟨us', .pass hkind, hus⟩
  | importing hkind hmodule hlocal =>
      obtain ⟨us', rfl, hus⟩ := hM hkind trivial hts
      obtain ⟨vs', rfl, hvs⟩ := hM hmodule trivial hus
      obtain ⟨ws', hlocal, hws⟩ := hnames hlocal hvs
      exact ⟨ws', .importing hkind hmodule hlocal, hws⟩
  | fromImport hkind hmodule himport hitems hlocal =>
      obtain ⟨us', rfl, hus⟩ := hM hkind trivial hts
      obtain ⟨vs', rfl, hvs⟩ := hM hmodule trivial hus
      obtain ⟨ws', rfl, hws⟩ := hM himport trivial hvs
      obtain ⟨xs', hitems, hxs⟩ := Separated.carried hM (Named.carried hM _) hitems hws
      obtain ⟨ys', hlocal, hys⟩ := hnames hlocal hxs
      exact ⟨ys', .fromImport hkind hmodule himport hitems hlocal, hys⟩

end

/-- What closes an indented block, up to the token after the block. -/
inductive Layout.Dedents (L : Layout) : List Token → List Token → Prop
  | dedent {t : Token} {ts : List Token} (hkind : t.kind = .dedent) : Dedents L (t :: ts) ts
  | missing {ts : List Token} (hmode : L.mode = .lenient) (hend : firstKind ts = .eof) :
      Dedents L ts ts

/-- What turns derivations in the layout `L` into derivations in `L'`. The tokens inside statements
are related by `M`, those behind a gap by `N`. An indented block may be written in another way. -/
structure Layout.Translates (L L' : Layout) (M N : List Token → List Token → Prop) : Prop where
  inner : PassesInner M
  returning : ∀ ⦃s n t ts us ts'⦄, t.kind = .keyword .returnKw → s.Simple n (t :: ts) us →
    L.ends s us → M (t :: ts) ts' → ∃ us', ts' = t :: us' ∧ M ts us'
  inside : ∀ ⦃t ts ts'⦄, t.kind ≠ .newline → N (t :: ts) ts' → M (t :: ts) ts'
  gap : ∀ ⦃ts us ts'⦄, L.gap ts us → M ts ts' ∨ N ts ts' → ∃ us', L'.gap ts' us' ∧ N us us'
  ends : ∀ ⦃s n ts us ts' us'⦄, s.Simple n ts us → L.ends s us → s.Simple n ts' us' →
    M ts ts' → M us us' → L'.ends s us'
  brace : ∀ ⦃t ts us ts'⦄, t.kind = .mark .openCurly ∨ t.kind = .mark .closeCurly →
    L.gap ts us → N (t :: ts) ts' → ∃ vs' us', ts' = t :: vs' ∧ L'.gap vs' us' ∧ N us us'
  indented : ∀ ⦃t ts ts'⦄, t.kind = .indent → N (t :: ts) ts' → ∃ us', N ts us' ∧
    ∀ ⦃ss n us vs vs'⦄, (Part.stmts ss).Reads L n ts us → L.Dedents us vs →
      (Part.stmts ss).Reads L' n us' vs' → N us vs' →
      ∃ ws', (Part.block ⟨t.position, ss⟩).Reads L' (n + 1) ts' ws' ∧ (M vs ws' ∨ N vs ws')

theorem Layout.Translates.inside_of_either {L L' : Layout} {M N : List Token → List Token → Prop}
    (hL : L.Translates L' M N) {t : Token} {ts ts' : List Token} (ht : t.kind ≠ .newline)
    (h : M (t :: ts) ts' ∨ N (t :: ts) ts') : M (t :: ts) ts' :=
  h.elim id (hL.inside ht)

namespace Part

/-- The relation in front of a part. -/
def start (M N : List Token → List Token → Prop) : Part → List Token → List Token → Prop
  | stmt _ | body _ | branches _ => M
  | otherwise _ => fun ts ts' ↦ M ts ts' ∨ N ts ts'
  | block _ | stmts _ => N

/-- The relation after a part. -/
def finish (M N : List Token → List Token → Prop) : Part → List Token → List Token → Prop
  | stmts _ => N
  | _ => fun ts ts' ↦ M ts ts' ∨ N ts ts'

variable {L L' : Layout} {M N : List Token → List Token → Prop}

theorem Reads.translate (hL : L.Translates L' M N) {part : Part} {n : Nat}
    {ts us ts' : List Token} (h : part.Reads L n ts us) (hts : part.start M N ts ts') :
    ∃ us', part.Reads L' n ts' us' ∧ part.finish M N us us' := by
  have hexpr := Expr.Reads.carried hL.inner
  have hindented : ∀ {t : Token} {ss : List Stmt} {n : Nat} {ts us vs ts' : List Token},
      t.kind = .indent → (stmts ss).Reads L n ts us → L.Dedents us vs →
      (∀ {us'}, N ts us' → ∃ vs', (stmts ss).Reads L' n us' vs' ∧ N us vs') → N (t :: ts) ts' →
      ∃ ws', (block ⟨t.position, ss⟩).Reads L' (n + 1) ts' ws' ∧ (M vs ws' ∨ N vs ws') := by
    intro t ss n ts us vs ts' hopen h hclose ih hts
    obtain ⟨us', hus, hblock⟩ := hL.indented hopen hts
    obtain ⟨vs', h', hvs⟩ := ih hus
    exact hblock h hclose h' hvs
  induction h generalizing ts' with
  | simple h hends =>
      obtain ⟨us', h', hus⟩ := h.carry hL.inner
        (fun t vs hcons hkind ↦ hL.returning hkind (hcons ▸ h) hends (hcons ▸ hts)) hts
      exact ⟨us', .simple h' (hL.ends h hends h' hts hus), .inl hus⟩
  | function hkind hname hopen hparameters hclose hreturns _ ih =>
      obtain ⟨us', rfl, hus⟩ := hL.inner hkind trivial hts
      obtain ⟨vs', rfl, hvs⟩ := hL.inner hname trivial hus
      obtain ⟨ws', rfl, hws⟩ := hL.inner hopen trivial hvs
      obtain ⟨xs', hparameters, hxs⟩ :=
        Listed.carried hL.inner (Parameter.Reads.carried hL.inner) hparameters hws
      obtain ⟨ys', rfl, hys⟩ := hL.inner hclose trivial hxs
      obtain ⟨zs', hreturns, hzs⟩ :=
        Optionally.carried hL.inner (.mark .arrow) trivial (Named.carried hL.inner _) hreturns hys
      obtain ⟨rs', hbody, hrs⟩ := ih hzs
      exact ⟨rs', .function hkind hname hopen hparameters hclose hreturns hbody, hrs⟩
  | conditional hkind _ _ ihl ihr =>
      obtain ⟨us', rfl, hus⟩ := hL.inner hkind trivial hts
      obtain ⟨vs', hbranches, hvs⟩ := ihl hus
      obtain ⟨ws', hotherwise, hws⟩ := ihr hvs
      exact ⟨ws', .conditional hkind hbranches hotherwise, hws⟩
  | whileLoop hkind hcondition _ ih =>
      obtain ⟨us', rfl, hus⟩ := hL.inner hkind trivial hts
      obtain ⟨vs', hcondition, hvs⟩ := hexpr hcondition hus
      obtain ⟨ws', hbody, hws⟩ := ih hvs
      exact ⟨ws', .whileLoop hkind hcondition hbody, hws⟩
  | forLoop hkind hname hin hiterable _ ih =>
      obtain ⟨us', rfl, hus⟩ := hL.inner hkind trivial hts
      obtain ⟨vs', rfl, hvs⟩ := hL.inner hname trivial hus
      obtain ⟨ws', rfl, hws⟩ := hL.inner hin trivial hvs
      obtain ⟨xs', hiterable, hxs⟩ := hexpr hiterable hws
      obtain ⟨ys', hbody, hys⟩ := ih hxs
      exact ⟨ys', .forLoop hkind hname hin hiterable hbody, hys⟩
  | classDecl hkind hname _ ih =>
      obtain ⟨us', rfl, hus⟩ := hL.inner hkind trivial hts
      obtain ⟨vs', rfl, hvs⟩ := hL.inner hname trivial hus
      obtain ⟨ws', hbody, hws⟩ := ih hvs
      exact ⟨ws', .classDecl hkind hname hbody, hws⟩
  | branch hcondition _ ih =>
      obtain ⟨us', hcondition, hus⟩ := hexpr hcondition hts
      obtain ⟨vs', hbody, hvs⟩ := ih hus
      exact ⟨vs', .branch hcondition hbody, hvs⟩
  | elif hcondition _ hkind _ ihl ihr =>
      obtain ⟨us', hcondition, hus⟩ := hexpr hcondition hts
      obtain ⟨vs', hbody, hvs⟩ := ihl hus
      obtain ⟨ws', rfl, hws⟩ := hL.inner hkind trivial (hL.inside_of_either (by simp [hkind]) hvs)
      obtain ⟨xs', hothers, hxs⟩ := ihr hws
      exact ⟨xs', .elif hcondition hbody hkind hothers, hxs⟩
  | noElse => exact ⟨ts', .noElse, hts⟩
  | «else» hkind _ ih =>
      obtain ⟨us', rfl, hus⟩ := hL.inner hkind trivial (hL.inside_of_either (by simp [hkind]) hts)
      obtain ⟨vs', hbody, hvs⟩ := ih hus
      exact ⟨vs', .else hkind hbody, hvs⟩
  | body hcolon hgap _ ih =>
      obtain ⟨us', rfl, hus⟩ := hL.inner hcolon trivial hts
      obtain ⟨vs', hgap, hvs⟩ := hL.gap hgap (.inl hus)
      obtain ⟨ws', h, hws⟩ := ih hvs
      exact ⟨ws', .body hcolon hgap h, hws⟩
  | braced hopen hgap _ hclose hafter ih =>
      obtain ⟨us', vs', rfl, hgap, hvs⟩ := hL.brace (.inl hopen) hgap hts
      obtain ⟨ws', h, hws⟩ := ih hvs
      obtain ⟨xs', ys', rfl, hafter, hys⟩ := hL.brace (.inr hclose) hafter hws
      exact ⟨ys', .braced hopen hgap h hclose hafter, .inr hys⟩
  | indented hopen h hclose ih => exact hindented hopen h (.dedent hclose) ih hts
  | unclosed hmode hopen h hend ih => exact hindented hopen h (.missing hmode hend) ih hts
  | nil => exact ⟨ts', .nil, hts⟩
  | @cons s ss n m ts us vs ws xs hbefore h hafter _ ihl ihr =>
      obtain ⟨us', hbefore, hus⟩ := hL.gap hbefore (.inr hts)
      have hinside : M us us' := by
        have hstart := h.stmt_starts.ne_newline
        cases us with
        | nil => exact absurd (.inr (.inr rfl)) h.stmt_starts.not_closes
        | cons t us => exact hL.inside hstart hus
      obtain ⟨vs', h, hvs⟩ := ihl hinside
      obtain ⟨ws', hafter, hws⟩ := hL.gap hafter hvs
      obtain ⟨xs', hothers, hxs⟩ := ihr hws
      exact ⟨xs', .cons hbefore h hafter hothers, hxs⟩

end Part

theorem Program.Reads.translate {L L' : Layout} {M N : List Token → List Token → Prop}
    (hL : L.Translates L' M N) (hend : ∀ ⦃us'⦄, N [] us' → us' = []) {p : Program} {n : Nat}
    {ts ts' : List Token} (h : p.Reads L n ts) (hts : M ts ts' ∨ N ts ts') : p.Reads L' n ts' := by
  obtain ⟨hposition, us, hgap, h⟩ := h
  obtain ⟨us', hgap, hus⟩ := hL.gap hgap hts
  obtain ⟨vs', h, hvs⟩ := h.translate hL hus
  obtain rfl := hend hvs
  exact ⟨hposition, us', hgap, h⟩

theorem parse_of_translates {mode mode' : Mode} {M N : List Token → List Token → Prop}
    (hL : (Layout.exact mode).Translates (Layout.exact mode') M N)
    (hend : ∀ ⦃us'⦄, N [] us' → us' = []) {ts us : List Token} {p : Program}
    (h : parse mode ts = .ok p) (hts : M (content ts) (content us)) : parse mode' us = .ok p := by
  obtain ⟨n, hn, hread⟩ := Program.Reads.of_parse_eq_ok h
  exact parse_eq_ok_of_reads (hread.translate hL hend (.inl hts)) hn

/-- What carries derivations in the layout `L` to derivations in `L'` with the same braces, indents
and dedents. The relation around statements is the narrower one. -/
structure Layout.Carries (L L' : Layout) (M N : List Token → List Token → Prop) : Prop where
  mode : L.mode = .lenient → L'.mode = .lenient
  inner : PassesInner M
  returning : ∀ ⦃s n t ts us ts'⦄, t.kind = .keyword .returnKw → s.Simple n (t :: ts) us →
    L.ends s us → M (t :: ts) ts' → ∃ us', ts' = t :: us' ∧ M ts us'
  inside : ∀ ⦃ts ts'⦄, N ts ts' → M ts ts'
  brace : ∀ ⦃t ts ts'⦄, t.kind = .mark .openCurly ∨ t.kind = .mark .closeCurly →
    M (t :: ts) ts' → ∃ us', ts' = t :: us' ∧ M ts us'
  indent : ∀ ⦃t ts ts'⦄, t.kind = .indent → N (t :: ts) ts' → ∃ us', ts' = t :: us' ∧ N ts us'
  dedent : ∀ ⦃t ts ts'⦄, t.kind = .dedent → N (t :: ts) ts' →
    ∃ t' us', ts' = t' :: us' ∧ t'.kind = .dedent ∧ N ts us'
  eof : ∀ ⦃ts ts'⦄, firstKind ts = .eof → N ts ts' → firstKind ts' = .eof
  gap : ∀ ⦃ts us ts'⦄, L.gap ts us → M ts ts' → ∃ us', L'.gap ts' us' ∧ N us us'
  ends : ∀ ⦃s n ts us ts' us'⦄, s.Simple n ts us → L.ends s us → s.Simple n ts' us' →
    M ts ts' → M us us' → L'.ends s us'

/-- Tokens carried by a function that leaves all of them but line breaks and end marks as they
are. -/
theorem Layout.Carries.of_map {L L' : Layout} {f : List Token → List Token}
    (hmode : L.mode = .lenient → L'.mode = .lenient)
    (hcons : ∀ ⦃t⦄ ts, t.kind ≠ .newline → t.kind ≠ .eof → f (t :: ts) = t :: f ts)
    (heof : ∀ ts, firstKind ts = .eof → firstKind (f ts) = .eof)
    (hgap : ∀ ts us, L.gap ts us → L'.gap (f ts) (f us))
    (hends : ∀ s us, L.ends s us → L'.ends s (f us)) :
    L.Carries L' (fun ts ts' ↦ f ts = ts') (fun ts ts' ↦ f ts = ts') where
  mode := hmode
  inner := by
    rintro k t ts - rfl hk rfl
    exact ⟨f ts, hcons ts hk.isInk.ne_newline hk.isInk.ne_eof, rfl⟩
  returning := by
    rintro s n t ts us - hkind - - rfl
    exact ⟨f ts, hcons ts (by simp [hkind]) (by simp [hkind]), rfl⟩
  inside _ _ h := h
  brace := by
    rintro t ts - hkind rfl
    exact ⟨f ts, hcons ts (by rcases hkind with h | h <;> simp [h])
      (by rcases hkind with h | h <;> simp [h]), rfl⟩
  indent := by
    rintro t ts - hkind rfl
    exact ⟨f ts, hcons ts (by simp [hkind]) (by simp [hkind]), rfl⟩
  dedent := by
    rintro t ts - hkind rfl
    exact ⟨t, f ts, hcons ts (by simp [hkind]) (by simp [hkind]), hkind, rfl⟩
  eof := by
    rintro ts - hend rfl
    exact heof ts hend
  gap := by
    rintro ts us - h rfl
    exact ⟨f us, hgap ts us h, rfl⟩
  ends := by
    rintro s n ts us - - - h - - rfl
    exact hends s us h

theorem Layout.Carries.translates {L L' : Layout} {M N : List Token → List Token → Prop}
    (hL : L.Carries L' M N) : L.Translates L' M N where
  inner := hL.inner
  returning := hL.returning
  inside _ _ _ _ h := hL.inside h
  gap _ _ _ hgap h := hL.gap hgap (h.elim id fun h ↦ hL.inside h)
  ends := hL.ends
  brace := by
    intro t ts us ts' hkind hgap hts
    obtain ⟨vs', rfl, hvs⟩ := hL.brace hkind (hL.inside hts)
    obtain ⟨us', hgap, hus⟩ := hL.gap hgap hvs
    exact ⟨vs', us', rfl, hgap, hus⟩
  indented := by
    intro t ts ts' hopen hts
    obtain ⟨us', rfl, hus⟩ := hL.indent hopen hts
    refine ⟨us', hus, ?_⟩
    intro ss n us vs vs' _ hclose h hvs
    cases hclose with
    | dedent hclose =>
        obtain ⟨u', ws', rfl, hclose, hws⟩ := hL.dedent hclose hvs
        exact ⟨ws', .indented hopen h hclose, .inr hws⟩
    | missing hmode hend =>
        exact ⟨vs', .unclosed (hL.mode hmode) hopen h (hL.eof hend hvs), .inr hvs⟩

theorem Program.Reads.carry {L L' : Layout} {M N : List Token → List Token → Prop}
    (hL : L.Carries L' M N) (hend : ∀ ⦃us'⦄, N [] us' → us' = []) {p : Program} {n : Nat}
    {ts ts' : List Token} (h : p.Reads L n ts) (hts : M ts ts') : p.Reads L' n ts' :=
  h.translate hL.translates hend (.inl hts)

end Offside
