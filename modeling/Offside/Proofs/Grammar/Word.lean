import Offside.Proofs.Grammar.Part

/-!
# The words of programs

Names, values, keywords and operators are the words of a program; brackets, commas, points,
colons, arrows and the layout only hold them together. A tree has its words in the order in which
they are written, so reading a tree can neither lose a word nor add one nor move one.
-/

namespace Offside

inductive Word where
  | name (s : String)
  | value (v : Literal)
  /-- A keyword or an operator. -/
  | sign (k : Kind)
  deriving DecidableEq

/-- What a mark means as a word. -/
def Mark.word? (m : Mark) : Option Word :=
  let k := Kind.mark m
  if k.binaryOp?.isSome || k.unaryOp?.isSome || k.assignOp?.isSome then some (.sign k) else none

/-- The word that a token is. A number is worth what it carries, or else what its text denotes. -/
def Token.word? (t : Token) : Option Word :=
  match t.kind with
  | .integer => match t.literal with
      | some (.integer n) => some (.value (.integer n))
      | _ => (Numeral.integer? t.lexeme.toList).map fun n ↦ .value (.integer n)
  | .float => match t.literal with
      | some (.float x) => some (.value (.float x))
      | _ => (Numeral.double? t.lexeme.toList).map fun x ↦ .value (.float x)
  | .string => match t.literal with
      | some (.text s) => some (.value (.text s))
      | _ => some (.value (.text t.lexeme))
  | .identifier => some (.name t.lexeme)
  | .keyword k => match k.literal? with
      | some v => some (.value v)
      | none => some (.sign (.keyword k))
  | .mark m => m.word?
  | _ => none

/-- The words of a row of tokens. -/
def wordsOf (ts : List Token) : List Word :=
  ts.filterMap Token.word?

mutual

def Expr.words : Expr → List Word
  | .integer _ n => [.value (.integer n)]
  | .float _ x => [.value (.float x)]
  | .string _ s => [.value (.text s)]
  | .boolean _ b => [.value (.boolean b)]
  | .null _ => [.value .null]
  | .symbol _ s => [.name s]
  | .binary _ op l r => l.words ++ .sign op.kind :: r.words
  | .unary _ op e => .sign op.kind :: e.words
  | .call _ e es => e.words ++ Expr.allWords es
  | .subscript _ e i => e.words ++ i.words
  | .member _ e s => e.words ++ [.name s]
  | .array _ es => Expr.allWords es

def Expr.allWords : List Expr → List Word
  | [] => []
  | e :: es => e.words ++ Expr.allWords es

end

/-- The words of a part that the word `w` announces. -/
def announced {α : Type} (w : List Word) (f : α → List Word) : Option α → List Word
  | none => []
  | some a => w ++ f a

def TypeRef.words (t : TypeRef) : List Word :=
  [.name t.name]

def Parameter.words (p : Parameter) : List Word :=
  .name p.name :: announced [] TypeRef.words p.type ++
    announced [.sign (.mark .assign)] Expr.words p.default

/-- The words of the name under which a module is imported. -/
def localNameWords : Option String → List Word :=
  announced [.sign (.keyword .asKw)] fun s ↦ [.name s]

mutual

def Stmt.words : Stmt → List Word
  | .expression _ e => e.words
  | .varDecl _ s c t e => .sign (.keyword (if c then .constKw else .letKw)) :: .name s ::
      announced [] TypeRef.words t ++ announced [.sign (.mark .assign)] Expr.words e
  | .fnDecl _ s ps t b => .sign (.keyword .defKw) :: .name s :: ps.flatMap Parameter.words ++
      announced [] TypeRef.words t ++ b.words
  | .returning _ e => .sign (.keyword .returnKw) :: announced [] Expr.words e
  | .conditional _ bs none => .sign (.keyword .ifKw) :: Branch.allWords bs
  | .conditional _ bs (some b) =>
      .sign (.keyword .ifKw) :: Branch.allWords bs ++ .sign (.keyword .elseKw) :: b.words
  | .whileLoop _ e b => .sign (.keyword .whileKw) :: e.words ++ b.words
  | .forLoop _ s e b => .sign (.keyword .forKw) :: .name s :: .sign (.keyword .inKw) :: e.words ++
      b.words
  | .breaking _ => [.sign (.keyword .breakKw)]
  | .continuing _ => [.sign (.keyword .continueKw)]
  | .pass _ => [.sign (.keyword .passKw)]
  | .assignment _ t op e => t.words ++ .sign op.kind :: e.words
  | .classDecl _ s b => .sign (.keyword .classKw) :: .name s :: b.words
  | .importing _ s none a => .sign (.keyword .importKw) :: .name s :: localNameWords a
  | .importing _ s (some is) a => .sign (.keyword .fromKw) :: .name s ::
      .sign (.keyword .importKw) :: is.map Word.name ++ localNameWords a

def Stmt.allWords : List Stmt → List Word
  | [] => []
  | s :: ss => s.words ++ Stmt.allWords ss

def Block.words : Block → List Word
  | ⟨_, ss⟩ => Stmt.allWords ss

def Branch.words : Branch → List Word
  | ⟨e, b⟩ => e.words ++ b.words

/-- The words of branches with `elif` between them. -/
def Branch.allWords : List Branch → List Word
  | [] => []
  | b :: bs => b.words ++ Branch.moreWords bs

/-- The words of branches with `elif` before each. -/
def Branch.moreWords : List Branch → List Word
  | [] => []
  | b :: bs => .sign (.keyword .elifKw) :: b.words ++ Branch.moreWords bs

end

def Program.words (p : Program) : List Word :=
  Stmt.allWords p.body

theorem Branch.moreWords_of_ne_nil {bs : List Branch} (h : bs ≠ []) :
    Branch.moreWords bs = .sign (.keyword .elifKw) :: Branch.allWords bs := by
  cases bs with
  | nil => exact absurd rfl h
  | cons b bs => rw [moreWords, allWords, List.cons_append]

section

variable {t : Token}

@[simp] theorem wordsOf_nil : wordsOf [] = [] := rfl

theorem wordsOf_cons_of_none (h : t.word? = none) (ts : List Token) :
    wordsOf (t :: ts) = wordsOf ts :=
  List.filterMap_cons_none h

theorem wordsOf_cons_of_some {w : Word} (h : t.word? = some w) (ts : List Token) :
    wordsOf (t :: ts) = w :: wordsOf ts :=
  List.filterMap_cons_some h

theorem wordsOf_cons_identifier (h : t.kind = .identifier) (ts : List Token) :
    wordsOf (t :: ts) = .name t.lexeme :: wordsOf ts :=
  wordsOf_cons_of_some (by simp [Token.word?, h]) ts

theorem wordsOf_cons_keyword {k : Keyword} (h : t.kind = .keyword k) (hk : k.literal? = none)
    (ts : List Token) : wordsOf (t :: ts) = .sign (.keyword k) :: wordsOf ts :=
  wordsOf_cons_of_some (by simp [Token.word?, h, hk]) ts

theorem wordsOf_cons_mark {m : Mark} (h : t.kind = .mark m) (hm : m.word? = none)
    (ts : List Token) : wordsOf (t :: ts) = wordsOf ts :=
  wordsOf_cons_of_none (by simp [Token.word?, h, hm]) ts

theorem wordsOf_cons_binaryOp {op : BinaryOp} (h : t.kind = op.kind) (ts : List Token) :
    wordsOf (t :: ts) = .sign op.kind :: wordsOf ts := by
  apply wordsOf_cons_of_some
  rw [Token.word?, h]
  cases op <;> rfl

theorem wordsOf_cons_unaryOp {op : UnaryOp} (h : t.kind = op.kind) (ts : List Token) :
    wordsOf (t :: ts) = .sign op.kind :: wordsOf ts := by
  apply wordsOf_cons_of_some
  rw [Token.word?, h]
  cases op <;> rfl

theorem wordsOf_cons_assignOp {op : AssignOp} (h : t.kind = op.kind) (ts : List Token) :
    wordsOf (t :: ts) = .sign op.kind :: wordsOf ts := by
  apply wordsOf_cons_of_some
  rw [Token.word?, h]
  cases op <;> rfl

/-- An expression of one token is the word that the token is. -/
theorem word?_of_ofToken {e : Expr} (h : Expr.ofToken t = .ok e) :
    ∃ w, t.word? = some w ∧ e.words = [w] := by
  obtain ⟨kind, lexeme, literal, position⟩ := t
  cases kind with
  | integer =>
      simp only [Expr.ofToken] at h
      split at h
      · next n =>
          cases h
          exact ⟨.value (.integer n), rfl, rfl⟩
      · next hliteral =>
          split at h
          · next n hn =>
              cases h
              refine ⟨.value (.integer n), ?_, rfl⟩
              simp [Token.word?, hn]
          · cases h
  | float =>
      simp only [Expr.ofToken] at h
      split at h
      · next x =>
          cases h
          exact ⟨.value (.float x), rfl, rfl⟩
      · next hliteral =>
          split at h
          · next x hx =>
              cases h
              refine ⟨.value (.float x), ?_, rfl⟩
              simp [Token.word?, hx]
          · cases h
  | string =>
      simp only [Expr.ofToken] at h
      split at h
      · next s =>
          cases h
          exact ⟨.value (.text s), rfl, rfl⟩
      · next hliteral =>
          cases h
          refine ⟨.value (.text lexeme), ?_, rfl⟩
          simp [Token.word?]
  | keyword k =>
      cases k <;> cases h <;> exact ⟨_, rfl, rfl⟩
  | identifier =>
      cases h
      exact ⟨_, rfl, rfl⟩
  | _ => cases h

theorem wordsOf_cons_of_ofToken {e : Expr} (h : Expr.ofToken t = .ok e) (ts : List Token) :
    wordsOf (t :: ts) = e.words ++ wordsOf ts := by
  obtain ⟨w, hw, he⟩ := word?_of_ofToken h
  rw [wordsOf_cons_of_some hw, he, List.singleton_append]

end

/-- Reading a value takes exactly its words from the front. -/
def Reading.Spells {α : Type} (S : Reading α) (f : α → List Word) : Prop :=
  ∀ ⦃a n ts us⦄, S a n ts us → wordsOf ts = f a ++ wordsOf us

section

variable {α : Type} {S : Reading α} {f : α → List Word}

theorem Named.spells {g : Token → α} (hfg : ∀ t, f (g t) = [.name t.lexeme]) :
    (Named g).Spells f := by
  intro a n ts us h
  cases h with
  | mk hkind => rw [wordsOf_cons_identifier hkind, hfg, List.singleton_append]

theorem Optionally.spells {k : Kind} {w : List Word}
    (hk : ∀ t ts, t.kind = k → wordsOf (t :: ts) = w ++ wordsOf ts) (hS : S.Spells f) :
    (Optionally k S).Spells (announced w f) := by
  intro a n ts us h
  cases h with
  | none => rfl
  | some hkind hpart => rw [hk _ _ hkind, hS hpart, announced, List.append_assoc]

theorem Separated.spells (hS : S.Spells f) : (Separated S).Spells (List.flatMap f) := by
  intro as n ts us h
  induction h with
  | last hpart => simp [hS hpart]
  | more hpart hcomma _ ih => simp [hS hpart, wordsOf_cons_mark hcomma rfl, ih]

theorem Listed.spells (hS : S.Spells f) : (Listed S).Spells (List.flatMap f) := by
  intro as n ts us h
  cases h with
  | none => rfl
  | some hparts => exact Separated.spells hS hparts

end

/-- The words of what the grammar reads in an expression. -/
def Phrase.words : Phrase → List Word
  | tier _ e | nested _ e | suffixed e => e.words
  | list es | items es => Expr.allWords es

theorem Phrase.Reads.words_eq {ph : Phrase} {n : Nat} {ts us : List Token}
    (h : ph.Reads n ts us) : wordsOf ts = ph.words ++ wordsOf us := by
  induction h with
  | nested _ ih | looser _ ih | operand _ ih | some _ ih => exact ih
  | none => rfl
  | primary htoken => exact wordsOf_cons_of_ofToken htoken _
  | last _ ih => simp [ih, words, Expr.allWords]
  | binary _ hop _ ihl ihr =>
      rw [ihl, wordsOf_cons_binaryOp hop, ihr]
      simp [words, Expr.words]
  | unary hop _ ih =>
      rw [wordsOf_cons_unaryOp hop, ih]
      simp [words, Expr.words]
  | group hopen _ hclose ih =>
      rw [wordsOf_cons_mark hopen rfl, ih, wordsOf_cons_mark hclose rfl]
      rfl
  | array hopen _ hclose ih =>
      rw [wordsOf_cons_mark hopen rfl, ih, wordsOf_cons_mark hclose rfl]
      simp [words, Expr.words]
  | call _ hopen _ hclose ihl ihr =>
      rw [ihl, wordsOf_cons_mark hopen rfl, ihr, wordsOf_cons_mark hclose rfl]
      simp [words, Expr.words]
  | subscript _ hopen _ hclose ihl ihr =>
      rw [ihl, wordsOf_cons_mark hopen rfl, ihr, wordsOf_cons_mark hclose rfl]
      simp [words, Expr.words]
  | member _ hdot hname ih =>
      rw [ih, wordsOf_cons_mark hdot rfl, wordsOf_cons_identifier hname]
      simp [words, Expr.words]
  | more _ hcomma _ ihl ihr =>
      rw [ihl, wordsOf_cons_mark hcomma rfl, ihr]
      simp [words, Expr.allWords]

theorem Expr.Reads.spells : Reading.Spells Expr.Reads Expr.words :=
  fun _ _ _ _ h ↦ Phrase.Reads.words_eq h

theorem TypeRef.Reads.spells : Reading.Spells TypeRef.Reads TypeRef.words :=
  Named.spells fun _ ↦ rfl

/-- A type after its mark. -/
theorem optionalType_spells {m : Mark} (hm : m.word? = none) :
    (Optionally (.mark m) TypeRef.Reads).Spells (announced [] TypeRef.words) :=
  Optionally.spells (fun _ ts hk ↦ wordsOf_cons_mark hk hm ts) TypeRef.Reads.spells

/-- An initial value or a default. -/
theorem optionalValue_spells : (Optionally (.mark .assign) Expr.Reads).Spells
    (announced [.sign (.mark .assign)] Expr.words) :=
  Optionally.spells (fun _ ts (hk : _ = AssignOp.assign.kind) ↦ wordsOf_cons_assignOp hk ts)
    Expr.Reads.spells

theorem localName_spells :
    (Optionally (.keyword .asKw) (Named Token.lexeme)).Spells localNameWords :=
  Optionally.spells (fun _ ts hk ↦ wordsOf_cons_keyword hk rfl ts) (Named.spells fun _ ↦ rfl)

theorem Parameter.Reads.spells : Reading.Spells Parameter.Reads Parameter.words := by
  intro p n ts us h
  cases h with
  | mk hname htype hdefault =>
      rw [wordsOf_cons_identifier hname, optionalType_spells rfl htype,
        optionalValue_spells hdefault]
      simp [Parameter.words]

theorem Stmt.Simple.spells : Reading.Spells Stmt.Simple Stmt.words := by
  intro s n ts us h
  cases h with
  | expression h => exact Expr.Reads.spells h
  | assignment htarget hop hvalue =>
      rw [Expr.Reads.spells htarget, wordsOf_cons_assignOp hop, Expr.Reads.spells hvalue]
      simp [Stmt.words]
  | @binding t _ _ _ _ _ _ _ _ hkind hname htype hvalue =>
      rcases hkind with hkind | hkind
      · rw [wordsOf_cons_keyword hkind rfl, wordsOf_cons_identifier hname,
          optionalType_spells rfl htype, optionalValue_spells hvalue]
        simp [Stmt.words, hkind]
      · rw [wordsOf_cons_keyword hkind rfl, wordsOf_cons_identifier hname,
          optionalType_spells rfl htype, optionalValue_spells hvalue]
        simp [Stmt.words, hkind]
  | returning hkind | breaking hkind | continuing hkind | pass hkind =>
      rw [wordsOf_cons_keyword hkind rfl]
      simp [Stmt.words, announced]
  | returningValue hkind h =>
      rw [wordsOf_cons_keyword hkind rfl, Expr.Reads.spells h]
      simp [Stmt.words, announced]
  | importing hkind hmodule hlocal =>
      rw [wordsOf_cons_keyword hkind rfl, wordsOf_cons_identifier hmodule, localName_spells hlocal]
      simp [Stmt.words]
  | fromImport hkind hmodule himport hitems hlocal =>
      have hitems := Separated.spells (f := fun s ↦ [.name s]) (Named.spells fun _ ↦ rfl) hitems
      rw [wordsOf_cons_keyword hkind rfl, wordsOf_cons_identifier hmodule,
        wordsOf_cons_keyword himport rfl, hitems, localName_spells hlocal]
      simp [Stmt.words, List.map_eq_flatMap]

namespace Part

/-- The words of what the grammar reads in a program besides expressions. -/
def words : Part → List Word
  | stmt s => s.words
  | stmts ss => Stmt.allWords ss
  | block b | body b => b.words
  | branches bs => Branch.allWords bs
  | otherwise o => announced [.sign (.keyword .elseKw)] Block.words o

theorem Reads.branches_ne_nil {L : Layout} {bs : List Branch} {n : Nat} {ts us : List Token}
    (h : (branches bs).Reads L n ts us) : bs ≠ [] := by
  cases h <;> exact List.cons_ne_nil _ _

/-- Whatever a layout may pass over, as long as it holds no words, the words of a part are the
words in front of which it starts and behind which it ends. -/
theorem Reads.words_eq {L : Layout}
    (hgap : ∀ ts us, L.gap ts us → wordsOf ts = wordsOf us) {part : Part} {n : Nat}
    {ts us : List Token} (h : part.Reads L n ts us) :
    wordsOf ts = part.words ++ wordsOf us := by
  have hopening : ∀ t ts, t.kind = .indent ∨ t.kind = .dedent →
      wordsOf (t :: ts) = wordsOf ts := by
    intro t ts hkind
    apply wordsOf_cons_of_none
    rcases hkind with hkind | hkind <;> simp [Token.word?, hkind]
  induction h with
  | simple h _ => exact Stmt.Simple.spells h
  | function hkind hname hopen hparameters hclose hreturns _ ih =>
      rw [wordsOf_cons_keyword hkind rfl, wordsOf_cons_identifier hname,
        wordsOf_cons_mark hopen rfl, Listed.spells Parameter.Reads.spells hparameters,
        wordsOf_cons_mark hclose rfl, optionalType_spells rfl hreturns, ih]
      simp [words, Stmt.words]
  | @conditional _ _ o _ _ _ _ _ hkind _ _ ihl ihr =>
      rw [wordsOf_cons_keyword hkind rfl, ihl, ihr]
      cases o <;> simp [words, Stmt.words, announced]
  | whileLoop hkind hcondition _ ih =>
      rw [wordsOf_cons_keyword hkind rfl, Expr.Reads.spells hcondition, ih]
      simp [words, Stmt.words]
  | forLoop hkind hname hin hiterable _ ih =>
      rw [wordsOf_cons_keyword hkind rfl, wordsOf_cons_identifier hname,
        wordsOf_cons_keyword hin rfl, Expr.Reads.spells hiterable, ih]
      simp [words, Stmt.words]
  | classDecl hkind hname _ ih =>
      rw [wordsOf_cons_keyword hkind rfl, wordsOf_cons_identifier hname, ih]
      simp [words, Stmt.words]
  | branch hcondition _ ih =>
      rw [Expr.Reads.spells hcondition, ih]
      simp [words, Branch.allWords, Branch.words, Branch.moreWords]
  | elif hcondition _ hkind hothers ihl ihr =>
      rw [Expr.Reads.spells hcondition, ihl, wordsOf_cons_keyword hkind rfl, ihr]
      simp [words, Branch.allWords, Branch.words,
        Branch.moreWords_of_ne_nil (branches_ne_nil hothers)]
  | noElse | nil => rfl
  | «else» hkind _ ih =>
      rw [wordsOf_cons_keyword hkind rfl, ih]
      rfl
  | body hcolon hpassed _ ih =>
      rw [wordsOf_cons_mark hcolon rfl, hgap _ _ hpassed, ih]
      rfl
  | braced hopen hbefore _ hclose hafter ih =>
      rw [wordsOf_cons_mark hopen rfl, hgap _ _ hbefore, ih, wordsOf_cons_mark hclose rfl,
        hgap _ _ hafter]
      rfl
  | indented hopen _ hclose ih =>
      rw [hopening _ _ (.inl hopen), ih, hopening _ _ (.inr hclose)]
      rfl
  | unclosed _ hopen _ _ ih =>
      rw [hopening _ _ (.inl hopen), ih]
      rfl
  | cons hbefore _ hafter _ ihl ihr =>
      rw [hgap _ _ hbefore, ihl, hgap _ _ hafter, ihr]
      simp [words, Stmt.allWords]

end Part

end Offside
