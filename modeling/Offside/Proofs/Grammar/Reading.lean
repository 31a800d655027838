import Mathlib.Algebra.Ring.Int.Defs
import Mathlib.Data.List.Infix
import Offside.Token.Basic

/-!
# Readings

A grammar says which values can be read from the front of a list of tokens. A reading relates a
value to the tokens before and after it and to the number of levels that have to be open at once
inside it. Lists and optional parts are read in the same way whatever they are made of.
-/

namespace Offside

/-- The kind of the first token; behind the last token stands the end mark. -/
def firstKind : List Token → Kind
  | [] => .eof
  | t :: _ => t.kind

@[simp] theorem firstKind_nil : firstKind [] = .eof := rfl

@[simp] theorem firstKind_cons (t : Token) (ts : List Token) : firstKind (t :: ts) = t.kind := rfl

theorem exists_cons_of_firstKind {ts : List Token} {k : Kind} (h : firstKind ts = k)
    (hk : k ≠ .eof) : ∃ t us, ts = t :: us ∧ t.kind = k := by
  cases ts with
  | nil => exact absurd h.symm hk
  | cons t us => exact ⟨t, us, rfl, h⟩

/-- Tokens that are written, as opposed to the layout around them. -/
def Kind.IsInk : Kind → Prop
  | .newline | .indent | .dedent | .eof => False
  | _ => True

theorem Kind.IsInk.ne_newline {k : Kind} (h : k.IsInk) : k ≠ .newline := by
  rintro rfl
  exact h

theorem Kind.IsInk.ne_eof {k : Kind} (h : k.IsInk) : k ≠ .eof := by
  rintro rfl
  exact h

theorem Kind.IsInk.ne_indent {k : Kind} (h : k.IsInk) : k ≠ .indent := by
  rintro rfl
  exact h

theorem Kind.IsInk.ne_dedent {k : Kind} (h : k.IsInk) : k ≠ .dedent := by
  rintro rfl
  exact h

/-- What is left without the line breaks in front. -/
def skipBreaks (ts : List Token) : List Token :=
  ts.dropWhile (·.kind = .newline)

@[simp] theorem skipBreaks_nil : skipBreaks [] = [] := rfl

theorem skipBreaks_cons_of_eq {t : Token} (h : t.kind = .newline) (ts : List Token) :
    skipBreaks (t :: ts) = skipBreaks ts := by
  simp [skipBreaks, h]

theorem skipBreaks_cons_of_ne {t : Token} (h : t.kind ≠ .newline) (ts : List Token) :
    skipBreaks (t :: ts) = t :: ts := by
  simp [skipBreaks, h]

/-- What a token of this kind adds to the number of open indents. -/
def Kind.rise : Kind → Int
  | .indent => 1
  | .dedent => -1
  | _ => 0

/-- The number of indents less that of dedents. -/
def excess (ts : List Token) : Int :=
  (ts.map (·.kind.rise)).sum

@[simp] theorem excess_nil : excess [] = 0 := rfl

@[simp] theorem excess_cons (t : Token) (ts : List Token) :
    excess (t :: ts) = t.kind.rise + excess ts := by
  simp [excess]

@[simp] theorem excess_append (ts us : List Token) :
    excess (ts ++ us) = excess ts + excess us := by
  simp [excess]

theorem excess_skipBreaks (ts : List Token) : excess (skipBreaks ts) = excess ts := by
  induction ts with
  | nil => rfl
  | cons t ts ih =>
      by_cases h : t.kind = .newline
      · rw [skipBreaks_cons_of_eq h, ih, excess_cons, h]
        exact (Int.zero_add _).symm
      · rw [skipBreaks_cons_of_ne h]

/-- `S a n ts us`: what stands in `ts` before `us` is read as `a`, on `n` levels. -/
abbrev Reading (α : Type) := α → Nat → List Token → List Token → Prop

variable {α : Type}

/-- A single name, from which `f` makes the value. -/
inductive Named (f : Token → α) : Reading α
  | mk {t : Token} {ts : List Token} (hkind : t.kind = .identifier) : Named f (f t) 0 (t :: ts) ts

/-- A part that a token of kind `k` announces, or nothing. -/
inductive Optionally (k : Kind) (S : Reading α) : Reading (Option α)
  | none {ts : List Token} : Optionally k S none 0 ts ts
  | some {t : Token} {a : α} {n : Nat} {ts us : List Token} (hkind : t.kind = k)
      (hpart : S a n ts us) : Optionally k S (some a) n (t :: ts) us

/-- One part or more, with commas between them. -/
inductive Separated (S : Reading α) : Reading (List α)
  | last {a : α} {n : Nat} {ts us : List Token} (hpart : S a n ts us) : Separated S [a] n ts us
  | more {t : Token} {a : α} {as : List α} {n m : Nat} {ts us vs : List Token}
      (hpart : S a n ts (t :: us)) (hcomma : t.kind = .mark .comma)
      (hothers : Separated S as m us vs) : Separated S (a :: as) (max n m) ts vs

/-- Any number of parts, with commas between them. -/
inductive Listed (S : Reading α) : Reading (List α)
  | none {ts : List Token} : Listed S [] 0 ts ts
  | some {as : List α} {n : Nat} {ts us : List Token} (hparts : Separated S as n ts us) :
      Listed S as n ts us

/-- Any number of parts, one right after the other. -/
inductive Sequence (S : Reading α) : Reading (List α)
  | nil {ts : List Token} : Sequence S [] 0 ts ts
  | cons {a : α} {as : List α} {n m : Nat} {ts us vs : List Token} (hpart : S a n ts us)
      (hothers : Sequence S as m us vs) : Sequence S (a :: as) (max n m) ts vs

variable {S : Reading α}

theorem Sequence.snoc {a : α} {as : List α} {n m : Nat} {ts us vs : List Token}
    (h : Sequence S as n ts us) (hlast : S a m us vs) : Sequence S (as ++ [a]) (max n m) ts vs := by
  induction h with
  | nil =>
      rw [Nat.max_comm]
      exact .cons hlast .nil
  | cons hpart _ ih =>
      rw [Nat.max_assoc]
      exact .cons hpart (ih hlast)

/-- Whether reading a value only takes tokens from the front. -/
def Reading.Shrinks (S : Reading α) : Prop :=
  ∀ ⦃a n ts us⦄, S a n ts us → us <:+ ts

theorem Named.shrinks (f : Token → α) : (Named f : Reading α).Shrinks := by
  intro a n ts us h
  cases h with
  | mk _ => exact List.suffix_cons _ _

theorem Optionally.shrinks {k : Kind} (hS : S.Shrinks) : (Optionally k S).Shrinks := by
  intro a n ts us h
  cases h with
  | none => exact List.suffix_rfl
  | some _ hpart => exact (hS hpart).trans (List.suffix_cons _ _)

theorem Separated.shrinks (hS : S.Shrinks) : (Separated S).Shrinks := by
  intro as n ts us h
  induction h with
  | last hpart => exact hS hpart
  | more hpart _ _ ih => exact (ih.trans (List.suffix_cons _ _)).trans (hS hpart)

theorem Listed.shrinks (hS : S.Shrinks) : (Listed S).Shrinks := by
  intro as n ts us h
  cases h with
  | none => exact List.suffix_rfl
  | some hparts => exact Separated.shrinks hS hparts

/-- Whether reading a value leaves fewer tokens than there were. -/
def Reading.Consumes (S : Reading α) : Prop :=
  ∀ ⦃a n ts us⦄, S a n ts us → us.length < ts.length

theorem Named.consumes (f : Token → α) : (Named f : Reading α).Consumes := by
  intro a n ts us h
  cases h with
  | mk _ => exact Nat.lt_succ_self _

end Offside
