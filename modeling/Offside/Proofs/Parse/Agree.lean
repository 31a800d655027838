import Offside.Proofs.Parse.CompareLevel
import Offside.Proofs.Parse.Sound

/-!
# Strict and lenient runs

The mode of a cursor matters at one place only, where an indented block runs into the end of the
tokens. A strict and a lenient run from the same cursor therefore come out alike, or the strict
run misses a dedent at the end, and then there are more indents than dedents ahead.
-/

namespace Offside

namespace Cursor

/-- The cursor that lenient parsing has here. -/
def loosen (c : Cursor) : Cursor :=
  { c with mode := .lenient }

/-- What strict parsing starts from. -/
structure Ready (c : Cursor) : Prop where
  mode : c.mode = .strict
  stop : c.stop.kind = .eof
  ahead : ∀ t ∈ c.ahead, t.kind ≠ .eof

/-- Tokens of balanced indentation have been read. -/
structure Follows (d c : Cursor) : Prop where
  mode : d.mode = c.mode
  stop : d.stop = c.stop
  ahead : d.ahead <:+ c.ahead
  excess : excess d.ahead = excess c.ahead

theorem Follows.refl (c : Cursor) : c.Follows c :=
  ⟨rfl, rfl, List.suffix_rfl, rfl⟩

theorem Follows.trans {c d e : Cursor} (h : e.Follows d) (h' : d.Follows c) : e.Follows c :=
  ⟨h.mode.trans h'.mode, h.stop.trans h'.stop, h.ahead.trans h'.ahead, h.excess.trans h'.excess⟩

theorem Ready.of_follows {c d : Cursor} (hc : c.Ready) (h : d.Follows c) : d.Ready :=
  ⟨h.mode.trans hc.mode, h.stop ▸ hc.stop, fun t ht ↦ hc.ahead t (h.ahead.subset ht)⟩

theorem Ready.exists_cons {c : Cursor} {k : Kind} (hc : c.Ready) (h : c.current.kind = k)
    (hk : k ≠ .eof) : ∃ t ts, c.ahead = t :: ts ∧ t.kind = k := by
  rw [← facing_ahead_self c, kind_current_facing c.ahead hc.stop] at h
  exact exists_cons_of_firstKind h hk

end Cursor

/-- The fault of an indented block that runs into the end of the tokens. -/
def Token.missingDedent (stop : Token) : Fault :=
  ⟨.unexpectedToken .dedent stop.describe, stop.position⟩

/-- What comes out of a strict run from `c` and of the lenient run. -/
inductive Cursor.Compares {α : Type} (c : Cursor) :
    EStateM.Result Fault Cursor α → EStateM.Result Fault Cursor α → Prop
  | ok {a : α} {d : Cursor} (h : d.Follows c) : Compares c (.ok a d) (.ok a d.loosen)
  | error {f : Fault} {d e : Cursor} (h : ∀ found, f.cause ≠ .unexpectedToken .dedent found) :
      Compares c (.error f d) (.error f e)
  | unclosed {d : Cursor} {y : EStateM.Result Fault Cursor α} (h : 0 < excess c.ahead) :
      Compares c (.error c.stop.missingDedent d) y

theorem Cursor.Compares.mono {α : Type} {c d : Cursor} {x y : EStateM.Result Fault Cursor α}
    (h : d.Compares x y) (hd : d.Follows c) : c.Compares x y := by
  cases h with
  | ok he => exact .ok (he.trans hd)
  | error hcause => exact .error hcause
  | unclosed hopen =>
      rw [hd.stop]
      exact .unclosed (hd.excess ▸ hopen)

namespace Parse

variable {α β : Type}

/-- Strict and lenient runs of `p`, whatever token is the first. -/
def Agrees (p : Parse α) : Prop :=
  ∀ ⦃c : Cursor⦄, c.Ready → c.Compares (p c) (p c.loosen)

/-- A strict run of `p`, with its result sent through `g`, and a lenient run of `p'`, both from
cursors at a token of kind `k`. -/
def AgreesAt (g : α → α) (k : Kind) (p p' : Parse α) : Prop :=
  ∀ ⦃c : Cursor⦄, c.Ready → c.current.kind = k → c.Compares ((g <$> p) c) (p' c.loosen)

/-- Running on from where `p` comes out, where `p` need not have started at `c`. -/
theorem compares_bind {g : α → α} {b c : Cursor} {p p' : Parse α} {f f' : α → Parse β}
    (h : b.Compares ((g <$> p) b) (p' b.loosen)) (hstop : b.stop = c.stop)
    (hle : excess b.ahead ≤ excess c.ahead)
    (hf : ∀ a d, p b = .ok a d → d.Follows b → c.Compares (f a d) (f' (g a) d.loosen)) :
    c.Compares ((p >>= f) b) ((p' >>= f') b.loosen) := by
  rw [bind_eq, bind_eq]
  rw [map_eq] at h
  cases hrun : p b with
  | ok a d =>
      rw [hrun] at h
      generalize p' b.loosen = y at h ⊢
      cases h with
      | ok hd => exact hf a d hrun hd
  | error e d =>
      rw [hrun] at h
      generalize p' b.loosen = y at h ⊢
      cases h with
      | error hcause => exact .error hcause
      | unclosed hopen =>
          rw [hstop]
          exact .unclosed (Int.lt_of_lt_of_le hopen hle)

variable {g : α → α} {h : β → β} {k : Kind} {p p' : Parse α}

theorem AgreesAt.bind {f f' : α → Parse β} (hp : AgreesAt g k p p')
    (hf : ∀ a j, AgreesAt h j (f a) (f' (g a))) : AgreesAt h k (p >>= f) (p' >>= f') := by
  intro c hc hk
  rw [map_eq_pure_bind, bind_assoc]
  refine compares_bind (hp hc hk) rfl (Int.le_refl _) fun a d _ hd ↦ ?_
  rw [← map_eq_pure_bind]
  exact (hf a _ (hc.of_follows hd) rfl).mono hd

theorem advance_agrees (hk : k.rise = 0) : AgreesAt id k advance advance := by
  intro c _ hkind
  rw [id_map]
  obtain ⟨_ | ⟨t, ts⟩, stop, beyond, depth, limit, mode⟩ := c
  · exact .ok (.refl _)
  · have hexcess : excess ts = excess (t :: ts) := by
      replace hkind : t.kind = k := hkind
      rw [excess_cons, hkind, hk, Int.zero_add]
    exact .ok ⟨rfl, rfl, List.suffix_cons t ts, hexcess⟩

theorem throw_agrees {cause : Cause} {position : Position}
    (hcause : cause.expected? ≠ some .dedent) :
    AgreesAt g k (throw ⟨cause, position⟩) (throw ⟨cause, position⟩) :=
  fun _ _ _ ↦ .error (α := α) fun _ h ↦ hcause (congrArg Cause.expected? h)

theorem skipNewlines_agrees (k : Kind) : AgreesAt id k skipNewlines skipNewlines := by
  intro c _ _
  rw [id_map]
  exact .ok ⟨rfl, rfl, List.dropWhile_suffix _, excess_skipBreaks c.ahead⟩

theorem entering_agrees {σ : Type} {inner : Option σ} {q : σ → Parse α}
    (hq : ∀ s, inner = some s → AgreesAt g k (q s) (q s)) :
    AgreesAt g k (entering inner q) (entering inner q) := by
  intro c hc hk
  have hfault : c.Compares (.error ⟨.nestingTooDeep c.limit, c.current.position⟩ c.deepen)
      (.error ⟨.nestingTooDeep c.limit, c.current.position⟩ c.loosen.deepen) :=
    .error (α := α) nofun
  rw [map_eq]
  cases inner with
  | none =>
      rw [entering_none, entering_none]
      exact hfault
  | some s =>
      by_cases hroom : c.depth < c.limit
      · have h := hq s rfl (c := c.deepen) ⟨hc.mode, hc.stop, hc.ahead⟩ hk
        have hloosen : c.loosen.deepen = c.deepen.loosen := rfl
        rw [map_eq] at h
        rw [entering_some s q hroom, entering_some s q (c := c.loosen) hroom, hloosen]
        generalize q s c.deepen = x at h ⊢
        generalize q s c.deepen.loosen = y at h ⊢
        cases x with
        | ok a d =>
            cases h with
            | ok hd => exact .ok ⟨hd.mode, hd.stop, hd.ahead, hd.excess⟩
        | error e d =>
            cases h with
            | error hf => exact .error hf
            | unclosed hopen => exact .unclosed hopen
      · have hle := Nat.le_of_not_lt hroom
        rw [entering_of_le _ _ hle, entering_of_le _ _ (c := c.loosen) hle]
        exact hfault

end Parse

/-- The runs in the two modes. -/
def modes : Comparison where
  place := id
  Rel := Parse.AgreesAt
  rel_pure _ _ _ _ := .ok (.refl _)
  rel_bind := .bind
  rel_current hf c hc hk := hf c.current hk hc hk
  rel_ahead hf c hc hk := hf c.ahead c.ahead rfl hc hk
  rel_skipNewlines := Parse.skipNewlines_agrees
  rel_advance := Parse.advance_agrees
  rel_throw h := Parse.throw_agrees h.expected?_ne

namespace Parse

theorem agrees_iff_same {α : Type} {p : Parse α} : Agrees p ↔ modes.Same id p p := by
  constructor
  · intro h _ c hc _
    rw [id_map]
    exact h hc
  · intro h c hc
    have hcompares := h c.current.kind hc rfl
    rwa [id_map] at hcompares

end Parse

end Offside
