import Offside.Proofs.Grammar.Part
import Offside.Tree.Positions

/-!
# Every tree can be written

For every expression there are tokens that the grammar reads as it, up to positions: every operand
is put in parentheses. Statements are written with a line break after each and their blocks in
braces, provided that they are such as a program can have.
-/

namespace Offside

mutual

/-- Conditionals have branches, no list of imported items is empty and no type is optional. -/
def Stmt.WellFormed : Stmt → Prop
  | .varDecl _ _ _ t _ => ∀ type ∈ t, type.optional = false
  | .fnDecl _ _ ps t b => (∀ p ∈ ps, ∀ type ∈ p.type, type.optional = false) ∧
      (∀ type ∈ t, type.optional = false) ∧ b.WellFormed
  | .conditional _ bs none => bs ≠ [] ∧ Branch.AllWellFormed bs
  | .conditional _ bs (some b) => bs ≠ [] ∧ Branch.AllWellFormed bs ∧ b.WellFormed
  | .whileLoop _ _ b | .forLoop _ _ _ b | .classDecl _ _ b => b.WellFormed
  | .importing _ _ items _ => items ≠ some []
  | _ => True

def Stmt.AllWellFormed : List Stmt → Prop
  | [] => True
  | s :: ss => s.WellFormed ∧ Stmt.AllWellFormed ss

def Block.WellFormed : Block → Prop
  | ⟨_, ss⟩ => Stmt.AllWellFormed ss

def Branch.WellFormed : Branch → Prop
  | ⟨_, b⟩ => b.WellFormed

def Branch.AllWellFormed : List Branch → Prop
  | [] => True
  | b :: bs => b.WellFormed ∧ Branch.AllWellFormed bs

end

def Program.WellFormed (p : Program) : Prop :=
  Stmt.AllWellFormed p.body

/-- A value can be written anywhere, up to what `f` forgets. -/
def Reading.Writes {α β : Type} (S : Reading α) (f : α → β) (a : α) : Prop :=
  ∃ a' n ts, f a' = f a ∧ ∀ us, S a' n (ts ++ us) us

/-- A token without a text. -/
def Token.plain (kind : Kind) : Token :=
  Token.layout kind .start

/-- A name as a token. -/
def Token.ofName (name : String) : Token :=
  ⟨.identifier, name, none, .start⟩

@[simp] theorem Token.position_plain (kind : Kind) : (plain kind).position = .start := rfl

@[simp] theorem Token.lexeme_ofName (name : String) : (ofName name).lexeme = name := rfl

section

variable {α β : Type} {S : Reading α} {f : α → β}

theorem Optionally.writes {k : Kind} {o : Option α} (h : ∀ a ∈ o, S.Writes f a) :
    (Optionally k S).Writes (Option.map f) o := by
  cases o with
  | none => exact ⟨Option.none, 0, [], rfl, fun us ↦ .none⟩
  | some a =>
      obtain ⟨a', n, ts, ha, hread⟩ := h a rfl
      refine ⟨Option.some a', n, Token.plain k :: ts, by simp [ha], fun us ↦ ?_⟩
      exact .some rfl (hread us)

theorem Separated.writes {as : List α} (hne : as ≠ []) (h : ∀ a ∈ as, S.Writes f a) :
    (Separated S).Writes (List.map f) as := by
  induction as with
  | nil => exact absurd rfl hne
  | cons a as ih =>
      obtain ⟨a', n, ts, ha, hread⟩ := h a (List.mem_cons_self ..)
      by_cases hlast : as = []
      · subst hlast
        exact ⟨[a'], n, ts, by simp [ha], fun us ↦ .last (hread us)⟩
      · obtain ⟨as', m, vs, has, hreads⟩ := ih hlast fun b hb ↦ h b (List.mem_cons_of_mem a hb)
        refine ⟨a' :: as', max n m, ts ++ Token.plain (.mark .comma) :: vs, by simp [ha, has],
          fun us ↦ ?_⟩
        rw [List.append_assoc]
        exact .more (hread _) rfl (hreads us)

theorem Listed.writes {as : List α} (h : ∀ a ∈ as, S.Writes f a) :
    (Listed S).Writes (List.map f) as := by
  by_cases hempty : as = []
  · subst hempty
    exact ⟨[], 0, [], rfl, fun us ↦ .none⟩
  · obtain ⟨as', n, ts, has, hread⟩ := Separated.writes hempty h
    exact ⟨as', n, ts, has, fun us ↦ .some (hread us)⟩

theorem Named.writes (name : String) : (Named Token.lexeme).Writes id name :=
  ⟨name, 0, [Token.ofName name], rfl, fun _ ↦ .mk (t := Token.ofName name) rfl⟩

theorem TypeRef.Reads.writes {type : TypeRef} (h : type.optional = false) :
    Reading.Writes TypeRef.Reads TypeRef.erase type := by
  refine ⟨⟨type.name, false, .start⟩, 0, [Token.ofName type.name], ?_,
    fun _ ↦ .mk (t := Token.ofName type.name) rfl⟩
  simp [TypeRef.erase, TypeRef.mapPositions, h]

end

namespace Phrase

/-- A phrase that can be followed by suffixes. -/
abbrev Suffixed : Reading Expr :=
  fun e ↦ (suffixed e).Reads

theorem Reads.nested_of_suffixed {e : Expr} {n : Nat} {ts us : List Token}
    (h : (suffixed e).Reads n ts us) (p : Precedence) : (Phrase.nested p e).Reads (n + 1) ts us :=
  .nested ((Reads.operand h).loosen p.rank_le_unary)

theorem lowest_of_writes {e : Expr} (h : Suffixed.Writes Expr.erase e) :
    Reading.Writes Expr.Reads Expr.erase e := by
  obtain ⟨e', n, ts, he, hread⟩ := h
  exact ⟨e', n + 1, ts, he, fun us ↦ (hread us).nested_of_suffixed .lowest⟩

/-- An expression of any precedence can be put in parentheses. -/
theorem Reads.grouped {p : Precedence} {e : Expr} {n : Nat} {ts us : List Token}
    (h : (tier p e).Reads n ts (Token.plain (.mark .closeParen) :: us)) :
    (suffixed e).Reads (n + 1) (Token.plain (.mark .openParen) :: ts) us :=
  .group rfl (.nested (h.loosen (Nat.zero_le _))) rfl

end Phrase

open Phrase

mutual

theorem Expr.writes : (e : Expr) → Suffixed.Writes Expr.erase e
  | .integer p n => ⟨.integer .start n, 0, [⟨.integer, "", some (.integer n), .start⟩], rfl,
      fun _ ↦ .primary rfl⟩
  | .float p x => ⟨.float .start x, 0, [⟨.float, "", some (.float x), .start⟩], rfl,
      fun _ ↦ .primary rfl⟩
  | .string p s => ⟨.string .start s, 0, [⟨.string, "", some (.text s), .start⟩], rfl,
      fun _ ↦ .primary rfl⟩
  | .boolean p true => ⟨.boolean .start true, 0, [Token.plain (.keyword .trueKw)], rfl,
      fun _ ↦ .primary rfl⟩
  | .boolean p false => ⟨.boolean .start false, 0, [Token.plain (.keyword .falseKw)], rfl,
      fun _ ↦ .primary rfl⟩
  | .null p => ⟨.null .start, 0, [Token.plain (.keyword .noneKw)], rfl,
      fun _ ↦ .primary rfl⟩
  | .symbol p s => ⟨.symbol .start s, 0, [Token.ofName s], rfl,
      fun _ ↦ .primary rfl⟩
  | .binary p op l r => by
      obtain ⟨l', n, ts, hl, hleft⟩ := l.writes
      obtain ⟨r', m, us, hr, hright⟩ := r.writes
      refine ⟨.binary l'.position op l' r', max n (m + 1) + 1, Token.plain (.mark .openParen) ::
        ts ++ Token.plain op.kind :: us ++ [Token.plain (.mark .closeParen)], ?_, fun vs ↦ ?_⟩
      · simp only [erase] at hl hr ⊢
        simp [mapPositions, hl, hr]
      · have hleft := (Reads.operand (hleft (Token.plain op.kind :: us ++
          Token.plain (.mark .closeParen) :: vs))).loosen op.precedence.leftOperand.rank_le_unary
        have hright := (hright (Token.plain (.mark .closeParen) :: vs)).nested_of_suffixed
          op.precedence.rightOperand
        simpa using (Reads.binary hleft rfl hright).grouped
  | .unary p op e => by
      obtain ⟨e', n, ts, he, hread⟩ := e.writes
      refine ⟨.unary .start op e', n + 1 + 1, Token.plain (.mark .openParen) ::
        Token.plain op.kind :: ts ++ [Token.plain (.mark .closeParen)], ?_, fun vs ↦ ?_⟩
      · simp only [erase] at he ⊢
        simp [mapPositions, he]
      · have hread := Reads.operand (hread (Token.plain (.mark .closeParen) :: vs))
        have hunary := @Reads.unary op (Token.plain op.kind) _ _ _ _ rfl hread
        simpa using hunary.grouped
  | .call p e es => by
      obtain ⟨e', n, ts, he, hread⟩ := e.writes
      obtain ⟨es', m, us, hes, hreads⟩ := Listed.writes fun a ha ↦
        lowest_of_writes (Expr.allWrites es a ha)
      refine ⟨.call e'.position e' es', max n m, ts ++ Token.plain (.mark .openParen) ::
        us ++ [Token.plain (.mark .closeParen)], ?_, fun vs ↦ ?_⟩
      · simp only [erase] at he hes ⊢
        simp [mapPositions, mapAllPositions_eq_map, he, hes]
      · have hitems := Reads.items_of_listed (hreads (Token.plain (.mark .closeParen) :: vs))
        simpa using Reads.call (hread _) rfl hitems rfl
  | .subscript p e i => by
      obtain ⟨e', n, ts, he, hread⟩ := e.writes
      obtain ⟨i', m, us, hi, hindex⟩ := lowest_of_writes i.writes
      refine ⟨.subscript e'.position e' i', max n m, ts ++ Token.plain (.mark .openBracket) ::
        us ++ [Token.plain (.mark .closeBracket)], ?_, fun vs ↦ ?_⟩
      · simp only [erase] at he hi ⊢
        simp [mapPositions, he, hi]
      · have hindex := hindex (Token.plain (.mark .closeBracket) :: vs)
        simpa using Reads.subscript (hread _) rfl hindex rfl
  | .member p e s => by
      obtain ⟨e', n, ts, he, hread⟩ := e.writes
      refine ⟨.member e'.position e' s, n, ts ++ [Token.plain (.mark .dot), Token.ofName s], ?_,
        fun vs ↦ ?_⟩
      · simp only [erase] at he ⊢
        simp [mapPositions, he]
      · simpa using Reads.member (u := Token.ofName s) (hread _) rfl rfl
  | .array p es => by
      obtain ⟨es', n, ts, hes, hreads⟩ := Listed.writes fun a ha ↦
        lowest_of_writes (Expr.allWrites es a ha)
      refine ⟨.array .start es', n, Token.plain (.mark .openBracket) :: ts ++
        [Token.plain (.mark .closeBracket)], ?_, fun vs ↦ ?_⟩
      · simp only [erase] at hes ⊢
        simp [mapPositions, mapAllPositions_eq_map, hes]
      · have hitems := Reads.items_of_listed (hreads (Token.plain (.mark .closeBracket) :: vs))
        simpa using Reads.array (t := Token.plain (.mark .openBracket)) rfl hitems rfl

theorem Expr.allWrites : (es : List Expr) → ∀ e ∈ es, Suffixed.Writes Expr.erase e
  | [] => nofun
  | e :: es => by
      intro a ha
      rcases List.mem_cons.mp ha with heq | ha
      · exact heq ▸ e.writes
      · exact Expr.allWrites es a ha

end

/-- A whole expression, and the token that it starts with. -/
theorem Expr.exists_writing (e : Expr) : ∃ (e' : Expr) (n : Nat) (t : Token) (ts : List Token),
    e'.erase = e.erase ∧ ∀ us, e'.Reads n (t :: ts ++ us) us := by
  obtain ⟨e', n, ts, he, hread⟩ := lowest_of_writes e.writes
  cases ts with
  | nil => exact absurd ((hread []).length_lt nofun) (Nat.lt_irrefl 0)
  | cons t ts => exact ⟨e', n, t, ts, he, hread⟩

theorem Expr.Reads.writes (e : Expr) : Reading.Writes Expr.Reads Expr.erase e :=
  lowest_of_writes e.writes

theorem Parameter.Reads.writes {p : Parameter} (h : ∀ type ∈ p.type, type.optional = false) :
    Reading.Writes Parameter.Reads Parameter.erase p := by
  obtain ⟨type, n, ts, htype, hread⟩ := Optionally.writes (k := .mark .colon) fun t ht ↦
    TypeRef.Reads.writes (h t ht)
  obtain ⟨default, m, us, hdefault, hreads⟩ := Optionally.writes (k := .mark .assign)
    fun e (_ : e ∈ p.default) ↦ Expr.Reads.writes e
  refine ⟨⟨p.name, type, default, .start⟩, max n m, Token.ofName p.name :: ts ++ us, ?_,
    fun vs ↦ ?_⟩
  · have htype : type.map (TypeRef.mapPositions fun _ ↦ .unset) =
      p.type.map (TypeRef.mapPositions fun _ ↦ .unset) := htype
    have hdefault : default.map (Expr.mapPositions fun _ ↦ .unset) =
      p.default.map (Expr.mapPositions fun _ ↦ .unset) := hdefault
    simp [erase, mapPositions, htype, hdefault]
  · rw [List.append_assoc]
    exact .mk (t := Token.ofName p.name) rfl (hread (us ++ vs)) (hreads vs)

/-- A statement can be written in front of every line break. -/
def Stmt.Writable (s : Stmt) : Prop :=
  ∃ s' n ts, Stmt.erase s' = s.erase ∧ ∀ us, firstKind us = .newline →
    (Part.stmt s').Reads .written n (ts ++ us) us

theorem Stmt.Simple.writable {s : Stmt} (h : Reading.Writes Stmt.Simple Stmt.erase s) :
    s.Writable := by
  obtain ⟨s', n, ts, hs, hread⟩ := h
  exact ⟨s', n, ts, hs, fun us hus ↦ .simple (hread us) hus⟩

/-- The statements without a body. -/
theorem Stmt.Simple.writes_expression (p : Position) (e : Expr) :
    Reading.Writes Stmt.Simple Stmt.erase (.expression p e) := by
  obtain ⟨e', n, t, ts, he, hread⟩ := e.exists_writing
  refine ⟨.expression t.position e', n, t :: ts, ?_, fun us ↦ .expression (hread us)⟩
  simp only [Expr.erase] at he
  simp [erase, mapPositions, he]

theorem Stmt.Simple.writes_assignment (p : Position) (target : Expr) (op : AssignOp)
    (value : Expr) : Reading.Writes Stmt.Simple Stmt.erase (.assignment p target op value) := by
  obtain ⟨target', n, t, ts, htarget, hread⟩ := target.exists_writing
  obtain ⟨value', m, us, hvalue, hreads⟩ := Expr.Reads.writes value
  refine ⟨.assignment t.position target' op value', max n m,
    t :: ts ++ Token.plain op.kind :: us, ?_, fun vs ↦ ?_⟩
  · simp only [Expr.erase] at htarget hvalue
    simp [erase, mapPositions, htarget, hvalue]
  · rw [List.append_assoc]
    exact .assignment (hread _) rfl (hreads vs)

theorem Stmt.Simple.writes_binding (p : Position) (name : String) (isConstant : Bool)
    {type : Option TypeRef} (value : Option Expr) (h : ∀ t ∈ type, t.optional = false) :
    Reading.Writes Stmt.Simple Stmt.erase (.varDecl p name isConstant type value) := by
  obtain ⟨type', n, ts, htype, hread⟩ := Optionally.writes (k := .mark .colon) fun t ht ↦
    TypeRef.Reads.writes (h t ht)
  obtain ⟨value', m, us, hvalue, hreads⟩ := Optionally.writes (k := .mark .assign)
    fun e (_ : e ∈ value) ↦ Expr.Reads.writes e
  have key : ∀ k : Keyword, k = .letKw ∨ k = .constKw →
      ∃ s' n ts, Stmt.erase s' =
        (Stmt.varDecl p name (Kind.keyword k = .keyword .constKw) type value).erase ∧
          ∀ us, Stmt.Simple s' n (ts ++ us) us := by
    intro k hk
    refine ⟨.varDecl .start name (Kind.keyword k = .keyword .constKw) type' value', max n m,
      Token.plain (.keyword k) :: Token.ofName name :: ts ++ us, ?_, fun vs ↦ ?_⟩
    · have htype : type'.map (TypeRef.mapPositions fun _ ↦ .unset) =
        type.map (TypeRef.mapPositions fun _ ↦ .unset) := htype
      have hvalue : value'.map (Expr.mapPositions fun _ ↦ .unset) =
        value.map (Expr.mapPositions fun _ ↦ .unset) := hvalue
      simp [erase, mapPositions, htype, hvalue]
    · rw [List.append_assoc]
      refine .binding (t := Token.plain (.keyword k)) (u := Token.ofName name) ?_ rfl
        (hread (us ++ vs)) (hreads vs)
      rcases hk with rfl | rfl
      · exact .inl rfl
      · exact .inr rfl
  cases isConstant with
  | false => exact key .letKw (.inl rfl)
  | true => exact key .constKw (.inr rfl)

theorem Stmt.Simple.writes_returning (p : Position) (value : Option Expr) :
    Reading.Writes Stmt.Simple Stmt.erase (.returning p value) := by
  cases value with
  | none =>
      exact ⟨.returning .start none, 0, [Token.plain (.keyword .returnKw)], rfl,
        fun us ↦ .returning (t := Token.plain (.keyword .returnKw)) rfl⟩
  | some e =>
      obtain ⟨e', n, ts, he, hread⟩ := Expr.Reads.writes e
      refine ⟨.returning .start (some e'), n, Token.plain (.keyword .returnKw) :: ts, ?_,
        fun us ↦ .returningValue (t := Token.plain (.keyword .returnKw)) rfl (hread us)⟩
      simp only [Expr.erase] at he
      simp [erase, mapPositions, he]

theorem Stmt.Simple.writes_importing (p : Position) (module : String)
    {items : Option (List String)} (localName : Option String) (h : items ≠ some []) :
    Reading.Writes Stmt.Simple Stmt.erase (.importing p module items localName) := by
  obtain ⟨localName', n, ts, hlocal, hread⟩ := Optionally.writes (k := .keyword .asKw)
    fun s (_ : s ∈ localName) ↦ Named.writes s
  obtain rfl : localName' = localName := by simpa using hlocal
  cases items with
  | none =>
      exact ⟨.importing .start module none localName', n,
        Token.plain (.keyword .importKw) :: Token.ofName module :: ts, rfl,
        fun us ↦ .importing (t := Token.plain (.keyword .importKw)) (u := Token.ofName module)
          rfl rfl (hread us)⟩
  | some items =>
      obtain ⟨items', m, us, hitems, hreads⟩ := Separated.writes
        (fun hempty ↦ h (congrArg some hempty)) fun s (_ : s ∈ items) ↦ Named.writes s
      obtain rfl : items' = items := by simpa using hitems
      refine ⟨.importing .start module (some items') localName', max m n,
        Token.plain (.keyword .fromKw) :: Token.ofName module ::
          Token.plain (.keyword .importKw) :: us ++ ts, rfl, fun vs ↦ ?_⟩
      rw [List.append_assoc]
      exact .fromImport (t := Token.plain (.keyword .fromKw)) (u := Token.ofName module)
        (v := Token.plain (.keyword .importKw)) rfl rfl rfl (hreads (ts ++ vs)) (hread vs)

/-- A part can be written anywhere. -/
abbrev Part.Writes {α β : Type} (part : α → Part) (f : α → β) (a : α) : Prop :=
  Reading.Writes (fun a ↦ (part a).Reads .written) f a

mutual

theorem Stmt.writable : (s : Stmt) → s.WellFormed → s.Writable
  | .expression p e, _ => Stmt.Simple.writable (Stmt.Simple.writes_expression p e)
  | .varDecl p s c _ e, h => Stmt.Simple.writable (Stmt.Simple.writes_binding p s c e h)
  | .fnDecl p s ps t b, h => by
      obtain ⟨hps, ht, hb⟩ := h
      obtain ⟨ps', n, ts, hps, hparameters⟩ := Listed.writes fun q hq ↦
        Parameter.Reads.writes (hps q hq)
      obtain ⟨t', m, us, ht, hreturns⟩ := Optionally.writes (k := .mark .arrow) fun r hr ↦
        TypeRef.Reads.writes (ht r hr)
      obtain ⟨b', k, vs, hb, hbody⟩ := b.writes hb
      refine ⟨.fnDecl .start s ps' t' b', max n (max m k), Token.plain (.keyword .defKw) ::
        Token.ofName s :: Token.plain (.mark .openParen) :: ts ++
          Token.plain (.mark .closeParen) :: us ++ vs, ?_, fun ws _ ↦ ?_⟩
      · have ht : t'.map (TypeRef.mapPositions fun _ ↦ .unset) =
          t.map (TypeRef.mapPositions fun _ ↦ .unset) := ht
        have hps : ps'.map (Parameter.mapPositions fun _ ↦ .unset) =
          ps.map (Parameter.mapPositions fun _ ↦ .unset) := hps
        simp only [Block.erase] at hb
        simp [Stmt.erase, Stmt.mapPositions, hps, ht, hb]
      · simp only [List.append_assoc, List.cons_append]
        exact .function (t := Token.plain (.keyword .defKw)) (u := Token.ofName s) rfl rfl rfl
          (hparameters _) rfl (hreturns _) (hbody ws)
  | .returning p e, _ => Stmt.Simple.writable (Stmt.Simple.writes_returning p e)
  | .conditional p bs none, ⟨hne, h⟩ => by
      obtain ⟨bs', n, ts, hbs, hbranches⟩ := Branch.allWrites bs hne h
      refine ⟨.conditional .start bs' none, max n 0, Token.plain (.keyword .ifKw) :: ts, ?_,
        fun us _ ↦ ?_⟩
      · simp [Stmt.erase, Stmt.mapPositions, hbs]
      · exact .conditional (t := Token.plain (.keyword .ifKw)) rfl (hbranches us) .noElse
  | .conditional p bs (some b), ⟨hne, h, hb⟩ => by
      obtain ⟨bs', n, ts, hbs, hbranches⟩ := Branch.allWrites bs hne h
      obtain ⟨b', m, us, hb, hbody⟩ := b.writes hb
      refine ⟨.conditional .start bs' (some b'), max n m, Token.plain (.keyword .ifKw) :: ts ++
        Token.plain (.keyword .elseKw) :: us, ?_, fun vs _ ↦ ?_⟩
      · simp only [Block.erase] at hb
        simp [Stmt.erase, Stmt.mapPositions, hbs, hb]
      · rw [List.append_assoc]
        exact .conditional (t := Token.plain (.keyword .ifKw)) rfl (hbranches _)
          (.else rfl (hbody vs))
  | .whileLoop p e b, h => by
      obtain ⟨e', n, ts, he, hcondition⟩ := Expr.Reads.writes e
      obtain ⟨b', m, us, hb, hbody⟩ := b.writes h
      refine ⟨.whileLoop .start e' b', max n m, Token.plain (.keyword .whileKw) :: ts ++ us, ?_,
        fun vs _ ↦ ?_⟩
      · simp only [Expr.erase, Block.erase] at he hb
        simp [Stmt.erase, Stmt.mapPositions, he, hb]
      · rw [List.append_assoc]
        exact .whileLoop (t := Token.plain (.keyword .whileKw)) rfl (hcondition _) (hbody vs)
  | .forLoop p s e b, h => by
      obtain ⟨e', n, ts, he, hiterable⟩ := Expr.Reads.writes e
      obtain ⟨b', m, us, hb, hbody⟩ := b.writes h
      refine ⟨.forLoop .start s e' b', max n m, Token.plain (.keyword .forKw) ::
        Token.ofName s :: Token.plain (.keyword .inKw) :: ts ++ us, ?_, fun vs _ ↦ ?_⟩
      · simp only [Expr.erase, Block.erase] at he hb
        simp [Stmt.erase, Stmt.mapPositions, he, hb]
      · rw [List.append_assoc]
        exact .forLoop (t := Token.plain (.keyword .forKw)) (u := Token.ofName s) rfl rfl rfl
          (hiterable _) (hbody vs)
  | .breaking p, _ => Stmt.Simple.writable ⟨.breaking .start, 0,
      [Token.plain (.keyword .breakKw)], rfl,
      fun _ ↦ .breaking (t := Token.plain (.keyword .breakKw)) rfl⟩
  | .continuing p, _ => Stmt.Simple.writable ⟨.continuing .start, 0,
      [Token.plain (.keyword .continueKw)], rfl,
      fun _ ↦ .continuing (t := Token.plain (.keyword .continueKw)) rfl⟩
  | .pass p, _ => Stmt.Simple.writable ⟨.pass .start, 0, [Token.plain (.keyword .passKw)], rfl,
      fun _ ↦ .pass (t := Token.plain (.keyword .passKw)) rfl⟩
  | .assignment p t op e, _ => Stmt.Simple.writable (Stmt.Simple.writes_assignment p t op e)
  | .classDecl p s b, h => by
      obtain ⟨b', n, ts, hb, hbody⟩ := b.writes h
      refine ⟨.classDecl .start s b', n, Token.plain (.keyword .classKw) :: Token.ofName s :: ts,
        ?_, fun us _ ↦ ?_⟩
      · simp only [Block.erase] at hb
        simp [Stmt.erase, Stmt.mapPositions, hb]
      · exact .classDecl (t := Token.plain (.keyword .classKw)) (u := Token.ofName s) rfl rfl
          (hbody us)
  | .importing p m _ a, h => Stmt.Simple.writable (Stmt.Simple.writes_importing p m a h)

theorem Stmt.allWrites : (ss : List Stmt) → Stmt.AllWellFormed ss →
    Part.Writes .stmts (Stmt.mapAllPositions fun _ ↦ .unset) ss
  | [], _ => ⟨[], 0, [], rfl, fun _ ↦ .nil⟩
  | s :: ss, ⟨hs, hss⟩ => by
      obtain ⟨s', n, ts, hs, hread⟩ := s.writable hs
      obtain ⟨ss', m, us, hss, hreads⟩ := Stmt.allWrites ss hss
      refine ⟨s' :: ss', max n m, ts ++ Token.plain .newline :: us, ?_, fun vs ↦ ?_⟩
      · simp only [Stmt.erase] at hs
        simp [Stmt.mapAllPositions, hs, hss]
      · rw [List.append_assoc]
        exact .cons (.refl _) (hread _ rfl) (.cons rfl (.refl _)) (hreads vs)

theorem Block.writes : (b : Block) → b.WellFormed → Part.Writes .body Block.erase b
  | ⟨p, ss⟩, h => by
      obtain ⟨ss', n, ts, hss, hreads⟩ := Stmt.allWrites ss h
      refine ⟨⟨.start, ss'⟩, n + 1, Token.plain (.mark .colon) :: Token.plain (.mark .openCurly) ::
        ts ++ [Token.plain (.mark .closeCurly)], ?_, fun us ↦ ?_⟩
      · simp [Block.erase, Block.mapPositions, hss]
      · rw [List.append_assoc]
        exact .body rfl (.refl _) (.braced (t := Token.plain (.mark .openCurly)) rfl (.refl _)
          (hreads _) rfl (.refl us))

theorem Branch.allWrites : (bs : List Branch) → bs ≠ [] → Branch.AllWellFormed bs →
    Part.Writes .branches (Branch.mapAllPositions fun _ ↦ .unset) bs
  | [], hne, _ => absurd rfl hne
  | ⟨e, b⟩ :: bs, _, ⟨h, hbs⟩ => by
      obtain ⟨e', n, ts, he, hcondition⟩ := Expr.Reads.writes e
      obtain ⟨b', m, us, hb, hbody⟩ := b.writes h
      simp only [Expr.erase, Block.erase] at he hb
      by_cases hlast : bs = []
      · subst hlast
        refine ⟨[⟨e', b'⟩], max n m, ts ++ us, ?_, fun vs ↦ ?_⟩
        · simp [Branch.mapAllPositions, Branch.mapPositions, he, hb]
        · rw [List.append_assoc]
          exact .branch (hcondition _) (hbody vs)
      · obtain ⟨bs', k, vs, hbs, hbranches⟩ := Branch.allWrites bs hlast hbs
        refine ⟨⟨e', b'⟩ :: bs', max (max n m) k,
          ts ++ us ++ Token.plain (.keyword .elifKw) :: vs, ?_, fun ws ↦ ?_⟩
        · simp [Branch.mapAllPositions, Branch.mapPositions, he, hb, hbs]
        · rw [List.append_assoc, List.append_assoc]
          exact .elif (hcondition _) (hbody _) rfl (hbranches ws)

end

end Offside
