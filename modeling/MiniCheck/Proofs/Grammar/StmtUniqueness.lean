import MiniCheck.Proofs.Grammar.ExprUniqueness
import MiniCheck.Proofs.Grammar.StmtReading

/-!
# Settled derivations of programs are unique

The first token of a declaration or a statement decides how it is derived, except
that an `if` may or may not have an `else`. Nothing that follows a settled statement
can belong to it, which decides that too.
-/

namespace MiniCheck
namespace Grammar

open Token (Kind)

/-! ## Parts of declarations and statements -/

theorem TypeWord.eq_of_val_eq {w w' : TypeWord} (h : w.token.val = w'.token.val) : w = w' := by
  obtain ⟨type, token⟩ := w
  obtain ⟨type', token'⟩ := w'
  have hword : type.word = type'.word := Token.kind_eq_of_val_eq h
  have htype : type = type' := by
    cases type <;> cases type' <;> first | rfl | exact absurd hword (by decide)
  subst htype
  obtain rfl := Subtype.ext h
  rfl

theorem Parameters.unique {x y : List Token} (hx : headKind x = .rightParen)
    (hy : headKind y = .rightParen) : ∀ P Q : Parameters, P.tokens ++ x = Q.tokens ++ y →
      P = Q ∧ x = y
  | last type name, last type' name', h => by
    simp only [tokens, List.cons_append, List.nil_append, List.cons.injEq] at h
    obtain ⟨htype, hname, hxy⟩ := h
    obtain rfl := TypeWord.eq_of_val_eq htype
    obtain rfl := Subtype.ext hname
    exact ⟨rfl, hxy⟩
  | last type name, more type' name' comma rest, h => by
    simp only [tokens, List.cons_append, List.nil_append, List.cons.injEq] at h
    simp [h.2.2] at hx
  | more type name comma rest, last type' name', h => by
    simp only [tokens, List.cons_append, List.nil_append, List.cons.injEq] at h
    simp [← h.2.2] at hy
  | more type name comma rest, more type' name' comma' rest', h => by
    simp only [tokens, List.cons_append, List.cons.injEq] at h
    obtain ⟨htype, hname, hcomma, hrest⟩ := h
    obtain rfl := TypeWord.eq_of_val_eq htype
    obtain rfl := Subtype.ext hname
    obtain rfl := Subtype.ext hcomma
    obtain ⟨rfl, hxy⟩ := unique hx hy rest rest' hrest
    exact ⟨rfl, hxy⟩

theorem Parameters.isType_headKind (x : List Token) (P : Parameters) :
    (headKind (P.tokens ++ x)).isType = true := by
  cases P with
  | last type _ => exact Grammar.isType_headKind type _
  | more type _ _ _ => exact Grammar.isType_headKind type _

theorem parameterTokens_unique {x y : List Token} (hx : headKind x = .rightParen)
    (hy : headKind y = .rightParen) (P Q : Option Parameters)
    (h : parameterTokens P ++ x = parameterTokens Q ++ y) : P = Q ∧ x = y := by
  cases P with
  | none =>
    cases Q with
    | none => exact ⟨rfl, h⟩
    | some Q =>
      have hhead := Q.isType_headKind y
      change x = Q.tokens ++ y at h
      rw [← h, hx] at hhead
      exact absurd hhead (by decide)
  | some P =>
    cases Q with
    | none =>
      have hhead := P.isType_headKind x
      change P.tokens ++ x = y at h
      rw [h, hy] at hhead
      exact absurd hhead (by decide)
    | some Q =>
      obtain ⟨rfl, hxy⟩ := Parameters.unique hx hy P Q h
      exact ⟨rfl, hxy⟩

theorem Initializer.unique {x y : List Token} (hx : (headKind x).closes = true)
    (hy : (headKind y).closes = true) (I J : Initializer) (h : I.tokens ++ x = J.tokens ++ y)
    (hI : I.Settled) (hJ : J.Settled) : I = J ∧ x = y := by
  cases I <;> cases J <;>
    simp only [tokens, List.cons_append, List.nil_append, List.cons.injEq] at h
  case absent.absent => exact ⟨rfl, h⟩
  case absent.given =>
    rw [h, headKind_cons, Token.kind_val] at hx
    exact absurd hx (by decide)
  case given.absent =>
    rw [← h, headKind_cons, Token.kind_val] at hy
    exact absurd hy (by decide)
  case given.given equal value equal' value' =>
    obtain ⟨rfl, hxy⟩ := ExprDerivation.expression_unique h.2 hI hJ hx hy
    obtain rfl := Subtype.ext h.1
    exact ⟨rfl, hxy⟩

theorem Declarators.unique {x y : List Token} (hx : headKind x = .semicolon)
    (hy : headKind y = .semicolon) : ∀ D E : Declarators, D.tokens ++ x = E.tokens ++ y →
      D.Settled → E.Settled → D = E ∧ x = y
  | last name init, last name' init', h, hD, hE => by
    simp only [tokens, List.cons_append, List.cons.injEq] at h
    obtain ⟨rfl, hxy⟩ := Initializer.unique (by rw [hx]; rfl) (by rw [hy]; rfl) init init' h.2 hD hE
    obtain rfl := Subtype.ext h.1
    exact ⟨rfl, hxy⟩
  | last name init, more name' init' comma rest, h, hD, hE => by
    simp only [tokens, List.cons_append, List.append_assoc, List.cons.injEq] at h
    obtain ⟨_, hxy⟩ := Initializer.unique (by rw [hx]; rfl) (by simp; rfl) init init' h.2 hD hE.1
    simp [hxy] at hx
  | more name init comma rest, last name' init', h, hD, hE => by
    simp only [tokens, List.cons_append, List.append_assoc, List.cons.injEq] at h
    obtain ⟨_, hxy⟩ := Initializer.unique (by simp; rfl) (by rw [hy]; rfl) init init' h.2 hD.1 hE
    simp [← hxy] at hy
  | more name init comma rest, more name' init' comma' rest', h, hD, hE => by
    simp only [tokens, List.cons_append, List.append_assoc, List.cons.injEq] at h
    obtain ⟨rfl, hcons⟩ :=
      Initializer.unique (by simp; rfl) (by simp; rfl) init init' h.2 hD.1 hE.1
    obtain ⟨hcomma, hrest⟩ := List.cons.inj hcons
    obtain rfl := Subtype.ext h.1
    obtain rfl := Subtype.ext hcomma
    obtain ⟨rfl, hxy⟩ := unique hx hy rest rest' hrest hD.2 hE.2
    exact ⟨rfl, hxy⟩

theorem Clause.unique {k : Kind} (hopens : k.opens = false) (hcloses : k.closes = true)
    {x y : List Token} (l l' : Token.Of k) (C C' : Clause)
    (h : C.tokens ++ l.val :: x = C'.tokens ++ l'.val :: y) (hC : C.Settled) (hC' : C'.Settled) :
    C = C' ∧ l = l' ∧ x = y := by
  have hne : ∀ (V : ExpressionDerivation) (m : Token.Of k) (z w : List Token),
      V.tokens ++ z ≠ m.val :: w := by
    intro V m z w hV
    have hhead := V.opens_headKind z
    rw [hV, headKind_cons, Token.kind_val, hopens] at hhead
    exact absurd hhead (by decide)
  cases C <;> cases C' <;> simp only [tokens, List.nil_append] at h
  case omitted.omitted =>
    obtain ⟨hl, hxy⟩ := List.cons.inj h
    exact ⟨rfl, Subtype.ext hl, hxy⟩
  case omitted.given => exact absurd h.symm (hne _ _ _ _)
  case given.omitted => exact absurd h (hne _ _ _ _)
  case given.given V V' =>
    obtain ⟨rfl, hcons⟩ := ExprDerivation.expression_unique h hC hC' (by simpa using hcloses)
      (by simpa using hcloses)
    obtain ⟨hl, hxy⟩ := List.cons.inj hcons
    exact ⟨rfl, Subtype.ext hl, hxy⟩

theorem condition_unique {k : Kind} (hcloses : k.closes = true) {x y : List Token}
    (l l' : Token.Of k) {V V' : ExpressionDerivation}
    (h : V.tokens ++ l.val :: x = V'.tokens ++ l'.val :: y) (hV : V.Settled) (hV' : V'.Settled) :
    V = V' ∧ l = l' ∧ x = y := by
  obtain ⟨rfl, hcons⟩ := ExprDerivation.expression_unique h hV hV' (by simpa using hcloses)
    (by simpa using hcloses)
  obtain ⟨hl, hxy⟩ := List.cons.inj hcons
  exact ⟨rfl, Subtype.ext hl, hxy⟩

/-! ## Declarations and statements -/

namespace StmtDerivation

/-- Whether what is derived is over where the tokens `x` follow. -/
def Over : {r : StmtRule} → StmtDerivation r → List Token → Prop
  | .statement, D, x | .command, D, x => D.dangles = true → headKind x ≠ .elseWord
  | .items, _, x => ListEnds x
  | .declaration, _, _ => True
  | .program, _, x => (headKind x).isType = false

theorem not_listEnds (x : List Token) : ∀ D : StmtDerivation .statement, ¬ ListEnds (D.tokens ++ x)
  | declared declaration => by
    have htype := declaration.isType_headKind x
    rintro (hk | hnil)
    · change headKind (declaration.tokens ++ x) = _ at hk
      rw [hk] at htype
      exact absurd htype (by decide)
    · exact declaration.tokens_ne_nil_of_declaration (List.append_eq_nil_iff.mp hnil).1
  | empty semicolon => by
    simp [ListEnds, tokens]
  | command inner => not_listEnds_of_beginsCommand (inner.beginsCommand_headKind x)

/-- Declarations, semicolons and commands are told apart by their first tokens. -/
theorem declaration_ne_semicolon (D : StmtDerivation .declaration) (semicolon : Token.Of .semicolon)
    (x y : List Token) : D.tokens ++ x ≠ semicolon.val :: y := by
  intro h
  have htype := D.isType_headKind x
  rw [h, headKind_cons, Token.kind_val] at htype
  exact absurd htype (by decide)

theorem declaration_ne_command (D : StmtDerivation .declaration) (C : StmtDerivation .command)
    (x y : List Token) : D.tokens ++ x ≠ C.tokens ++ y := by
  intro h
  have htype := D.isType_headKind x
  rw [h, Kind.isType_of_beginsCommand (C.beginsCommand_headKind y)] at htype
  exact absurd htype (by decide)

theorem command_ne_semicolon (C : StmtDerivation .command) (semicolon : Token.Of .semicolon)
    (x y : List Token) : C.tokens ++ x ≠ semicolon.val :: y := by
  intro h
  have hhead := C.beginsCommand_headKind x
  rw [h, headKind_cons, Token.kind_val] at hhead
  exact absurd hhead (by decide)

theorem value_ne_word {k : Kind} (hk : k.opens = false) (V : ExpressionDerivation)
    (word : Token.Of k) (x y : List Token) : V.tokens ++ x ≠ word.val :: y := by
  intro h
  have hhead := V.opens_headKind x
  rw [h, headKind_cons, Token.kind_val, hk] at hhead
  exact absurd hhead (by decide)

theorem unique : ∀ {r : StmtRule} (D E : StmtDerivation r) (x y : List Token),
    D.tokens ++ x = E.tokens ++ y → D.Settled → E.Settled → D.Over x → E.Over y → D = E ∧ x = y
  | _, declared A, E, x, y, h, hD, hE, hx, hy => by
    cases E with
    | declared B =>
      obtain ⟨rfl, hxy⟩ := unique A B x y h hD hE trivial trivial
      exact ⟨rfl, hxy⟩
    | empty semicolon => exact absurd h (A.declaration_ne_semicolon semicolon x y)
    | command C => exact absurd h (A.declaration_ne_command C x y)
  | _, empty semicolon, E, x, y, h, _, _, hx, hy => by
    cases E with
    | declared B => exact absurd h.symm (B.declaration_ne_semicolon semicolon y x)
    | empty semicolon' =>
      obtain ⟨hsemicolon, hxy⟩ := List.cons.inj h
      obtain rfl := Subtype.ext hsemicolon
      exact ⟨rfl, hxy⟩
    | command C => exact absurd h.symm (C.command_ne_semicolon semicolon y x)
  | _, command A, E, x, y, h, hD, hE, hx, hy => by
    cases E with
    | declared B => exact absurd h.symm (B.declaration_ne_command A y x)
    | empty semicolon => exact absurd h (A.command_ne_semicolon semicolon x y)
    | command B =>
      obtain ⟨rfl, hxy⟩ := unique A B x y h hD hE hx hy
      exact ⟨rfl, hxy⟩
  | _, block left A right, E, x, y, h, hD, hE, hx, hy => by
    cases E <;> simp only [tokens, List.cons_append, List.append_assoc, List.nil_append,
      List.cons.injEq] at h
    case block left' B right' =>
      obtain ⟨rfl, hcons⟩ := unique A B _ _ h.2 hD hE (.inl right.property) (.inl right'.property)
      obtain ⟨hright, hxy⟩ := List.cons.inj hcons
      obtain rfl := Subtype.ext h.1
      obtain rfl := Subtype.ext hright
      exact ⟨rfl, hxy⟩
    case expr V _ => exact absurd h.symm (value_ne_word rfl V left _ _)
    all_goals exact absurd (Token.kind_eq_of_val_eq h.1) (by decide)
  | _, branch word left C right A, E, x, y, h, hD, hE, hx, hy => by
    cases E <;> simp only [tokens, List.cons_append, List.append_assoc, List.nil_append,
      List.cons.injEq] at h
    case branch word' left' C' right' B =>
      obtain ⟨hword, hleft, h⟩ := h
      obtain ⟨rfl, rfl, hrest⟩ := condition_unique rfl right right' h hD.1 hE.1
      obtain ⟨rfl, hxy⟩ := unique A B x y hrest hD.2 hE.2 (fun _ => hx rfl) (fun _ => hy rfl)
      obtain rfl := Subtype.ext hword
      obtain rfl := Subtype.ext hleft
      exact ⟨rfl, hxy⟩
    case branchElse word' left' C' right' B elseWord B' =>
      obtain ⟨rfl, rfl, hrest⟩ := condition_unique rfl right right' h.2.2 hD.1 hE.1
      obtain ⟨_, rfl⟩ := unique A B x _ hrest hD.2 hE.2.1 (fun _ => hx rfl)
        (fun hdangles => by rw [hE.2.2.1] at hdangles; cases hdangles)
      exact absurd elseWord.property (hx rfl)
    case expr V _ => exact absurd h.symm (value_ne_word rfl V word _ _)
    all_goals exact absurd (Token.kind_eq_of_val_eq h.1) (by decide)
  | _, branchElse word left C right A elseWord A', E, x, y, h, hD, hE, hx, hy => by
    have hclosed : A.Over (elseWord.val :: (A'.tokens ++ x)) := by
      intro hdangles
      rw [hD.2.2.1] at hdangles
      cases hdangles
    cases E <;> simp only [tokens, List.cons_append, List.append_assoc, List.nil_append,
      List.cons.injEq] at h
    case branch word' left' C' right' B =>
      obtain ⟨rfl, rfl, hrest⟩ := condition_unique rfl right right' h.2.2 hD.1 hE.1
      obtain ⟨_, rfl⟩ := unique A B _ y hrest hD.2.1 hE.2 hclosed (fun _ => hy rfl)
      exact absurd elseWord.property (hy rfl)
    case branchElse word' left' C' right' B elseWord' B' =>
      obtain ⟨hword, hleft, h⟩ := h
      obtain ⟨rfl, rfl, hthen⟩ := condition_unique rfl right right' h hD.1 hE.1
      obtain ⟨rfl, hcons⟩ := unique A B _ _ hthen hD.2.1 hE.2.1 hclosed
        (fun hdangles => by rw [hE.2.2.1] at hdangles; cases hdangles)
      obtain ⟨helse, hrest⟩ := List.cons.inj hcons
      obtain ⟨rfl, hxy⟩ := unique A' B' x y hrest hD.2.2.2 hE.2.2.2 hx hy
      obtain rfl := Subtype.ext hword
      obtain rfl := Subtype.ext hleft
      obtain rfl := Subtype.ext helse
      exact ⟨rfl, hxy⟩
    case expr V _ => exact absurd h.symm (value_ne_word rfl V word _ _)
    all_goals exact absurd (Token.kind_eq_of_val_eq h.1) (by decide)
  | _, whileLoop word left C right A, E, x, y, h, hD, hE, hx, hy => by
    cases E <;> simp only [tokens, List.cons_append, List.append_assoc, List.nil_append,
      List.cons.injEq] at h
    case whileLoop word' left' C' right' B =>
      obtain ⟨hword, hleft, h⟩ := h
      obtain ⟨rfl, rfl, hrest⟩ := condition_unique rfl right right' h hD.1 hE.1
      obtain ⟨rfl, hxy⟩ := unique A B x y hrest hD.2 hE.2 hx hy
      obtain rfl := Subtype.ext hword
      obtain rfl := Subtype.ext hleft
      exact ⟨rfl, hxy⟩
    case expr V _ => exact absurd h.symm (value_ne_word rfl V word _ _)
    all_goals exact absurd (Token.kind_eq_of_val_eq h.1) (by decide)
  | _, forLoop word left I first C second U right A, E, x, y, h, hD, hE, hx, hy => by
    cases E <;> simp only [tokens, List.cons_append, List.append_assoc, List.nil_append,
      List.cons.injEq] at h
    case forLoop word' left' I' first' C' second' U' right' B =>
      obtain ⟨hword, hleft, h⟩ := h
      obtain ⟨rfl, rfl, hcondition⟩ := Clause.unique rfl rfl first first' I I' h hD.1 hE.1
      obtain ⟨rfl, rfl, hupdate⟩ :=
        Clause.unique rfl rfl second second' C C' hcondition hD.2.1 hE.2.1
      obtain ⟨rfl, rfl, hbody⟩ :=
        Clause.unique rfl rfl right right' U U' hupdate hD.2.2.1 hE.2.2.1
      obtain ⟨rfl, hxy⟩ := unique A B x y hbody hD.2.2.2 hE.2.2.2 hx hy
      obtain rfl := Subtype.ext hword
      obtain rfl := Subtype.ext hleft
      exact ⟨rfl, hxy⟩
    case expr V _ => exact absurd h.symm (value_ne_word rfl V word _ _)
    all_goals exact absurd (Token.kind_eq_of_val_eq h.1) (by decide)
  | _, ret word V semicolon, E, x, y, h, hD, hE, hx, hy => by
    cases E <;> simp only [tokens, List.cons_append, List.append_assoc, List.nil_append,
      List.cons.injEq] at h
    case ret word' V' semicolon' =>
      obtain ⟨rfl, rfl, hxy⟩ := Clause.unique rfl rfl semicolon semicolon' V V' h.2 hD hE
      obtain rfl := Subtype.ext h.1
      exact ⟨rfl, hxy⟩
    case expr V _ => exact absurd h.symm (value_ne_word rfl V word _ _)
    all_goals exact absurd (Token.kind_eq_of_val_eq h.1) (by decide)
  | _, print word left V right semicolon, E, x, y, h, hD, hE, hx, hy => by
    cases E <;> simp only [tokens, List.cons_append, List.append_assoc, List.nil_append,
      List.cons.injEq] at h
    case print word' left' V' right' semicolon' =>
      obtain ⟨hword, hleft, h⟩ := h
      obtain ⟨rfl, rfl, hcons⟩ := condition_unique rfl right right' h hD hE
      obtain ⟨hsemicolon, hxy⟩ := List.cons.inj hcons
      obtain rfl := Subtype.ext hword
      obtain rfl := Subtype.ext hleft
      obtain rfl := Subtype.ext hsemicolon
      exact ⟨rfl, hxy⟩
    case expr V _ => exact absurd h.symm (value_ne_word rfl V word _ _)
    all_goals exact absurd (Token.kind_eq_of_val_eq h.1) (by decide)
  | _, expr V semicolon, E, x, y, h, hD, hE, hx, hy => by
    cases E <;> simp only [tokens, List.cons_append, List.append_assoc, List.nil_append] at h
    case expr V' semicolon' =>
      obtain ⟨rfl, rfl, hxy⟩ := condition_unique rfl semicolon semicolon' h hD hE
      exact ⟨rfl, hxy⟩
    all_goals exact absurd h (value_ne_word rfl V _ _ _)
  | _, nil, E, x, y, h, _, _, hx, hy => by
    cases E with
    | nil => exact ⟨rfl, h⟩
    | cons first rest =>
      change x = first.tokens ++ rest.tokens ++ y at h
      rw [List.append_assoc] at h
      exact absurd (h ▸ hx) (first.not_listEnds _)
  | _, cons first rest, E, x, y, h, hD, hE, hx, hy => by
    cases E with
    | nil =>
      change first.tokens ++ rest.tokens ++ x = y at h
      rw [List.append_assoc] at h
      exact absurd (h ▸ hy) (first.not_listEnds _)
    | cons first' rest' =>
      simp only [tokens, List.append_assoc] at h
      obtain ⟨rfl, hrest⟩ := unique first first' _ _ h hD.1 hE.1
        (fun _ => rest.headKind_ne_else hx) (fun _ => rest'.headKind_ne_else hy)
      obtain ⟨rfl, hxy⟩ := unique rest rest' x y hrest hD.2 hE.2 hx hy
      exact ⟨rfl, hxy⟩
  | _, function type name left P right leftBrace A rightBrace, E, x, y, h, hD, hE, hx, hy => by
    cases E with
    | function type' name' left' P' right' leftBrace' B rightBrace' =>
      simp only [tokens, List.cons_append, List.append_assoc, List.nil_append,
        List.cons.injEq] at h
      obtain ⟨htype, hname, hleft, h⟩ := h
      obtain ⟨rfl, htail⟩ := parameterTokens_unique (by simp) (by simp) P P' h
      simp only [List.cons.injEq] at htail
      obtain ⟨hright, hleftBrace, hbody⟩ := htail
      obtain ⟨rfl, hcons⟩ :=
        unique A B _ _ hbody hD hE (.inl rightBrace.property) (.inl rightBrace'.property)
      obtain ⟨hrightBrace, hxy⟩ := List.cons.inj hcons
      obtain rfl := TypeWord.eq_of_val_eq htype
      obtain rfl := Subtype.ext hname
      obtain rfl := Subtype.ext hleft
      obtain rfl := Subtype.ext hright
      obtain rfl := Subtype.ext hleftBrace
      obtain rfl := Subtype.ext hrightBrace
      exact ⟨rfl, hxy⟩
    | vars type' names semicolon =>
      simp only [tokens, names.tokens_eq, List.cons_append, List.append_assoc, List.nil_append,
        List.cons.injEq] at h
      exact absurd (by simp [← h.2.2]) (names.afterFirst_ne_leftParen semicolon y)
  | _, vars type names semicolon, E, x, y, h, hD, hE, hx, hy => by
    cases E with
    | function type' name left P right leftBrace A rightBrace =>
      simp only [tokens, names.tokens_eq, List.cons_append, List.append_assoc, List.nil_append,
        List.cons.injEq] at h
      exact absurd (by simp [h.2.2]) (names.afterFirst_ne_leftParen semicolon x)
    | vars type' names' semicolon' =>
      simp only [tokens, List.cons_append, List.append_assoc, List.nil_append,
        List.cons.injEq] at h
      obtain ⟨rfl, hcons⟩ := Declarators.unique (by simp) (by simp) names names' h.2 hD hE
      obtain ⟨hsemicolon, hxy⟩ := List.cons.inj hcons
      obtain rfl := TypeWord.eq_of_val_eq h.1
      obtain rfl := Subtype.ext hsemicolon
      exact ⟨rfl, hxy⟩
  | _, done, E, x, y, h, _, _, hx, hy => by
    cases E with
    | done => exact ⟨rfl, h⟩
    | next first rest =>
      change x = first.tokens ++ rest.tokens ++ y at h
      have htype := first.isType_headKind (rest.tokens ++ y)
      rw [← List.append_assoc, ← h] at htype
      exact absurd (htype.symm.trans hx) (by decide)
  | _, next first rest, E, x, y, h, hD, hE, hx, hy => by
    cases E with
    | done =>
      change first.tokens ++ rest.tokens ++ x = y at h
      have htype := first.isType_headKind (rest.tokens ++ x)
      rw [← List.append_assoc, h] at htype
      exact absurd (htype.symm.trans hy) (by decide)
    | next first' rest' =>
      simp only [tokens, List.append_assoc] at h
      obtain ⟨rfl, hrest⟩ := unique first first' _ _ h hD.1 hE.1 trivial trivial
      obtain ⟨rfl, hxy⟩ := unique rest rest' x y hrest hD.2 hE.2 hx hy
      exact ⟨rfl, hxy⟩

end StmtDerivation
end Grammar
end MiniCheck
