import Mathlib.Data.List.Forall2
import Mathlib.Tactic.SplitIfs
import Offside.Proofs.Scan.Reread

/-!
# Two scans side by side

Two scans that do alike in every step come to the same end: both succeed, with tokens that match
one by one, or both fail, with faults that match.
-/

namespace Offside

/-- Two outcomes that are both lists of tokens, which match one by one, or both faults, which
match. -/
inductive Matching (T : Token → Token → Prop) (F : Fault → Fault → Prop) :
    Except Fault (List Token) → Except Fault (List Token) → Prop
  | ok {ts us : List Token} (h : List.Forall₂ T ts us) : Matching T F (.ok ts) (.ok us)
  | error {e f : Fault} (h : F e f) : Matching T F (.error e) (.error f)

namespace Piece

/-- No word, number or mark goes on with one of these. -/
def Parts (c : Char) : Prop :=
  c ∈ ['\n', '\r', '#', '\'', '\"']

instance : DecidablePred Parts :=
  fun c ↦ inferInstanceAs (Decidable (c ∈ ['\n', '\r', '#', '\'', '\"']))

theorem parts_of_isQuote {c : Char} (h : isQuote c) : Parts c := by
  obtain rfl | rfl : c = '\'' ∨ c = '\"' := by simpa [isQuote] using h
  all_goals decide

theorem Parts.goesOn_eq_false {c : Char} (h : Parts c) :
    c.isDigit = false ∧ c ≠ '.' ∧ continuesWord c = false := by
  simp only [Parts, List.mem_cons, List.not_mem_nil, or_false] at h
  rcases h with rfl | rfl | rfl | rfl | rfl
  all_goals exact ⟨by decide, by decide, by decide +kernel⟩

theorem Parts.ofPair?_eq_none {d : Char} (h : Parts d) (c : Char) : Mark.ofPair? c d = none := by
  refine Option.eq_none_iff_forall_ne_some.mpr fun m hm ↦ ?_
  unfold Mark.ofPair? at hm
  split at hm
  all_goals first | exact absurd h (by decide) | cases hm

theorem numeral_of_point {c : Char} {cs places : List Char}
    (h : cs.dropWhile Char.isDigit = '.' :: places) :
    numeral c cs = ⟨.decimal,
      c :: cs.takeWhile Char.isDigit ++ '.' :: places.takeWhile Char.isDigit,
      places.dropWhile Char.isDigit⟩ := by
  simp only [numeral, h]

theorem numeral_of_no_point {c : Char} {cs : List Char}
    (h : (cs.dropWhile Char.isDigit).head? ≠ some '.') :
    numeral c cs = ⟨.integer, c :: cs.takeWhile Char.isDigit, cs.dropWhile Char.isDigit⟩ := by
  unfold numeral
  split
  · next hpoint => exact absurd (congrArg List.head? hpoint) h
  · rfl

/-- Two texts that begin with characters that satisfy `P`, or with the same character in front of
texts that are related by `R`. -/
inductive Abreast (P : Char → Prop) (R : List Char → List Char → Prop) :
    List Char → List Char → Prop
  | nil : Abreast P R [] []
  | parts {c d : Char} {cs ds : List Char} (hc : P c) (hd : P d) : Abreast P R (c :: cs) (d :: ds)
  | same {c : Char} {cs ds : List Char} (h : R cs ds) : Abreast P R (c :: cs) (c :: ds)

/-- The same piece in front of texts that are related by `R`. -/
structure Same (R : List Char → List Char → Prop) (p q : Piece) : Prop where
  shape : p.shape = q.shape
  lexeme : p.lexeme = q.lexeme
  rest : R p.rest q.rest

theorem Same.token?_eq {R : List Char → List Char → Prop} {p q : Piece} (h : p.Same R q)
    (mode : Mode) (position : Position) : p.token? mode position = q.token? mode position := by
  rw [token?, token?, h.shape, h.lexeme]

section

variable {P : Char → Prop} {R : List Char → List Char → Prop}
  (hR : ∀ ⦃cs ds⦄, R cs ds → Abreast P R cs ds) {c : Char} {cs ds : List Char}

include hR

theorem takeWhile_abreast {q : Char → Bool} (hq : ∀ c, P c → q c = false) (h : R cs ds) :
    cs.takeWhile q = ds.takeWhile q ∧ R (cs.dropWhile q) (ds.dropWhile q) := by
  induction cs generalizing ds with
  | nil =>
      cases hR h with
      | nil => exact ⟨rfl, h⟩
  | cons c cs ih =>
      cases hR h with
      | parts hc hd =>
          rw [List.takeWhile_cons_of_neg (by simp [hq _ hc]),
            List.takeWhile_cons_of_neg (by simp [hq _ hd]),
            List.dropWhile_cons_of_neg (by simp [hq _ hc]),
            List.dropWhile_cons_of_neg (by simp [hq _ hd])]
          exact ⟨rfl, h⟩
      | same htail =>
          by_cases hc : q c
          · obtain ⟨htake, hdrop⟩ := ih htail
            rw [List.takeWhile_cons_of_pos hc, List.takeWhile_cons_of_pos hc,
              List.dropWhile_cons_of_pos hc, List.dropWhile_cons_of_pos hc, htake]
            exact ⟨rfl, hdrop⟩
          · rw [List.takeWhile_cons_of_neg hc, List.takeWhile_cons_of_neg hc,
              List.dropWhile_cons_of_neg hc, List.dropWhile_cons_of_neg hc]
            exact ⟨rfl, h⟩

theorem run_abreast {q : Char → Bool} (hq : ∀ c, P c → q c = false) (shape : Shape) (c : Char)
    (h : R cs ds) : (run shape q c cs).Same R (run shape q c ds) := by
  obtain ⟨htake, hdrop⟩ := takeWhile_abreast hR hq h
  exact ⟨rfl, congrArg (c :: ·) htake, hdrop⟩

variable (hP : ∀ c, P c → Parts c)

include hP

theorem numeral_abreast (c : Char) (h : R cs ds) : (numeral c cs).Same R (numeral c ds) := by
  have hq : ∀ c, P c → c.isDigit = false := fun c hc ↦ (hP c hc).goesOn_eq_false.1
  have hpoint : ∀ c, P c → c ≠ '.' := fun c hc ↦ (hP c hc).goesOn_eq_false.2.1
  obtain ⟨htake, hdrop⟩ := takeWhile_abreast hR hq h
  by_cases hhead : (cs.dropWhile Char.isDigit).head? = some '.'
  · obtain ⟨places, hplaces⟩ := List.head?_eq_some_iff.mp hhead
    obtain ⟨places', hplaces', hrest⟩ :
        ∃ places', ds.dropWhile Char.isDigit = '.' :: places' ∧ R places places' := by
      rw [hplaces] at hdrop
      generalize ds.dropWhile Char.isDigit = ds at hdrop
      cases hR hdrop with
      | parts hc _ => exact absurd rfl (hpoint _ hc)
      | same htail => exact ⟨_, rfl, htail⟩
    obtain ⟨htake', hdrop'⟩ := takeWhile_abreast hR hq hrest
    rw [numeral_of_point hplaces, numeral_of_point hplaces', htake, htake']
    exact ⟨rfl, rfl, hdrop'⟩
  · have hhead' : (ds.dropWhile Char.isDigit).head? ≠ some '.' := by
      generalize cs.dropWhile Char.isDigit = cs at hdrop hhead
      generalize ds.dropWhile Char.isDigit = ds at hdrop
      cases hR hdrop with
      | nil => exact nofun
      | parts _ hd => exact fun hd' ↦ hpoint _ hd (Option.some.inj hd')
      | same _ => exact hhead
    rw [numeral_of_no_point hhead, numeral_of_no_point hhead', htake]
    exact ⟨rfl, rfl, hdrop⟩

theorem mark?_abreast (c : Char) (h : R cs ds) :
    Option.Rel (Same R) (mark? c cs) (mark? c ds) := by
  have hsingle : Option.Rel (Same R) ((Mark.ofChar? c).map fun m ↦ ⟨.mark m, [c], cs⟩)
      ((Mark.ofChar? c).map fun m ↦ ⟨.mark m, [c], ds⟩) := by
    cases Mark.ofChar? c with
    | none => exact .none
    | some m => exact .some ⟨rfl, rfl, h⟩
  cases hR h with
  | nil => exact hsingle
  | parts hc hd =>
      simp only [mark?, (hP _ hc).ofPair?_eq_none, (hP _ hd).ofPair?_eq_none]
      exact hsingle
  | @same d cs ds htail =>
      cases hpair : Mark.ofPair? c d with
      | none =>
          simp only [mark?, hpair]
          exact hsingle
      | some m =>
          simp only [mark?, hpair]
          exact .some ⟨rfl, rfl, htail⟩

/-- Texts that are abreast begin with the same piece, unless a blank, a line break, a comment or a
string stands there. -/
theorem at?_abreast (hlead : Leads c) (hquote : ¬ isQuote c) (h : R cs ds) :
    Option.Rel (Same R) (at? c cs) (at? c ds) := by
  rw [at?_of_leads hlead, at?_of_leads hlead, if_neg hquote, if_neg hquote]
  split_ifs
  · exact .some (numeral_abreast hR hP c h)
  · exact .some (run_abreast hR (fun c hc ↦ (hP c hc).goesOn_eq_false.2.2) .word c h)
  · exact mark?_abreast hR hP c h

end

end Piece

namespace Scan

variable {mode : Mode} {T : Token → Token → Prop} {F : Fault → Fault → Prop}
  {R : Scan → Scan → Prop} {s t : Scan}

/-- Both scans are at the end, or both go on to states that are related by `R`, or both fail, with
tokens and faults that match. -/
inductive Alike (mode : Mode) (T : Token → Token → Prop) (F : Fault → Fault → Prop)
    (R : Scan → Scan → Prop) (s t : Scan) : Prop
  | ends (hs : s.reader.rest = []) (ht : t.reader.rest = [])
      (h : List.Forall₂ T s.finish t.finish)
  | steps {xs ys : List Token} {s' t' : Scan} (hs : Step mode s xs s') (ht : Step mode t ys t')
      (htokens : List.Forall₂ T xs ys) (h : R s' t')
  | fails {e f : Fault} (hs : Fails mode s e) (ht : Fails mode t f) (h : F e f)

theorem run_matching (hR : ∀ s t, R s t → Alike mode T F R s t) (h : R s t)
    {found found' : List Token} (hfound : List.Forall₂ T found found') :
    Matching T F (s.run mode found) (t.run mode found') := by
  fun_induction run mode s found generalizing t found' with
  | case1 s found hrest =>
      cases hR s t h with
      | ends _ ht hfinish =>
          have hrun : t.run mode found' = .ok (found'.reverse ++ t.finish) :=
            run_eq_ok_iff.mpr ⟨[], t, .refl t, ht, by rw [List.append_nil]⟩
          rw [hrun]
          exact .ok (List.rel_append (List.forall₂_reverse_iff.mpr hfound) hfinish)
      | steps hs _ _ _ => exact absurd hrest hs.rest_ne_nil
      | fails hs _ _ => exact absurd hrest hs.rest_ne_nil
  | case2 s found c cs hrest e hstep =>
      cases hR s t h with
      | ends hs _ _ => cases hrest.symm.trans hs
      | steps hs _ _ _ => cases hstep.symm.trans (hs.step_eq hrest)
      | fails hs ht hef =>
          cases hstep.symm.trans (hs.step_eq hrest)
          rw [ht.run_eq]
          exact .error hef
  | case3 s found c cs hrest xs next hstep _ ih =>
      cases hR s t h with
      | ends hs _ _ => cases hrest.symm.trans hs
      | steps hs ht htokens hnext =>
          cases hstep.symm.trans (hs.step_eq hrest)
          rw [(Reaches.single ht).run_eq]
          exact ih hnext (List.rel_append (List.forall₂_reverse_iff.mpr htokens) hfound)
      | fails hs _ _ => cases hstep.symm.trans (hs.step_eq hrest)

end Scan
end Offside
