import MiniCheck.Proofs.Grammar.ExprViability
import MiniCheck.Proofs.Grammar.StmtReading

/-!
# Where reading a declaration or a statement gets stuck

As for expressions, the tokens that a reader has passed over when it fails can be
continued by each of the tokens it expected.
-/

namespace MiniCheck
namespace Grammar

open Token (Kind)
open Grammar.Parser

abbrev YieldsStmt (r : StmtRule) : List Token → Prop :=
  Yields fun D : StmtDerivation r => D.tokens

def StmtDerivation.sample : StmtDerivation .statement := .empty (Token.sample .semicolon)

section Declarations

variable {depth : Nat} {expr : Parser Expr} {body : Parser (List Stmt)} {ts r : List Token}
  {i : Nat} {f : Location} {m : Mismatch} {d : Cursor}

theorem baseType_stuck (h : baseType ⟨ts, i, f⟩ = .error m d) :
    Stuck (Yields fun w : TypeWord => [w.token.val]) ts m d := by
  rw [baseType_apply] at h
  split at h
  · cases h
  · cases h
  · cases h
  case h_4 hint hfloat hvoid =>
    refine fail_stuck BaseType (by simp [TooDeep]) ?_ h
    intro k hk
    simp only [List.mem_cons, List.not_mem_nil, or_false] at hk
    rcases hk with rfl | rfl | rfl
    · exact ⟨fun hk => hint hk.symm, by decide, fun t => ⟨[], ⟨.int, t⟩, rfl⟩⟩
    · exact ⟨fun hk => hfloat hk.symm, by decide, fun t => ⟨[], ⟨.float, t⟩, rfl⟩⟩
    · exact ⟨fun hk => hvoid hk.symm, by decide, fun t => ⟨[], ⟨.void, t⟩, rfl⟩⟩

theorem parameter_stuck (h : parameter ⟨ts, i, f⟩ = .error m d) :
    Stuck (Yields fun p : TypeWord × Token.Of .name => [p.1.token.val, p.2.val]) ts m d := by
  simp only [parameter] at h
  rcases bind_eq_error_iff.mp h with h | ⟨b, c, hb, h⟩
  · refine (baseType_stuck h).lift (w := []) ?_
    rintro _ ⟨w, rfl⟩
    exact ⟨[(Token.sample .name).val], (w, Token.sample .name), rfl⟩
  · obtain ⟨w, r, rfl, rfl, rfl⟩ := baseType_of_ok hb
    rcases bind_eq_error_iff.mp h with h | ⟨t, c, _, h⟩
    · refine (expect_stuck (by decide) (by simp [TooDeep]) h).lift (w := [w.token.val]) ?_
      rintro _ ⟨name, rfl⟩
      exact ⟨[], (w, name), rfl⟩
    · cases h

theorem separated_parameter_stuck (bound : List Token)
    (h : separated parameter bound ⟨ts, i, f⟩ = .error m d) :
    Stuck (Yields Parameters.tokens) ts m d := by
  induction bound generalizing ts with
  | nil =>
    simp only [separated] at h
    rcases bind_eq_error_iff.mp h with h | ⟨p, c, _, h⟩
    · refine (parameter_stuck h).lift (w := []) ?_
      rintro _ ⟨⟨w, name⟩, rfl⟩
      exact ⟨[], .last w name, rfl⟩
    · cases h
  | cons b bound ih =>
    simp only [separated] at h
    rcases bind_eq_error_iff.mp h with h | ⟨p, c, hp, h⟩
    · refine (parameter_stuck h).lift (w := []) ?_
      rintro _ ⟨⟨w, name⟩, rfl⟩
      exact ⟨[], .last w name, rfl⟩
    · obtain ⟨w, name, r, rfl, rfl, rfl⟩ := parameter_of_ok hp
      rcases accept_cases .comma (by decide) r i f with ⟨comma, s, rfl, hc⟩ | ⟨_, hc⟩
      · rw [bind_of_ok hc] at h
        rcases bind_eq_error_iff.mp h with h | ⟨ps, c, _, h⟩
        · refine (ih h).lift (w := [w.token.val, name.val, comma.val]) ?_
          rintro _ ⟨P, rfl⟩
          exact ⟨[], .more w name comma P, by simp [Parameters.tokens]⟩
        · cases h
      · rw [bind_of_ok hc] at h
        cases h

theorem parameters_stuck (h : parameters ⟨ts, i, f⟩ = .error m d) :
    Stuck (Yields Parameters.tokens) ts m d := by
  simp only [parameters, bind_of_ok (peek_apply _)] at h
  split at h
  · exact separated_parameter_stuck _ h
  · cases h

theorem functionTail_stuck (hread : ReadsBody depth body)
    (hbody : FailsWithin (YieldsStmt .items) body) (w : TypeWord) (name : Token.Of .name)
    (left : Token.Of .leftParen) (h : functionTail body w.type name.val ⟨ts, i, f⟩ = .error m d) :
    Stuck (YieldsStmt .declaration) (w.token.val :: name.val :: left.val :: ts) m d := by
  simp only [functionTail] at h
  rcases bind_eq_error_iff.mp h with h | ⟨ps, c, hps, h⟩
  · refine (parameters_stuck h).lift (w := [w.token.val, name.val, left.val]) ?_
    rintro _ ⟨P, rfl⟩
    refine ⟨[(Token.sample .rightParen).val, (Token.sample .leftBrace).val,
      (Token.sample .rightBrace).val], .function w name left (some P) (Token.sample .rightParen)
        (Token.sample .leftBrace) .nil (Token.sample .rightBrace), ?_⟩
    simp [StmtDerivation.tokens, parameterTokens]
  obtain ⟨P, r, rfl, rfl, rfl⟩ := parameters_sound hps
  rcases bind_eq_error_iff.mp h with h | ⟨t, c, ht, h⟩
  · refine (expect_stuck (by decide) (by simp [TooDeep]) h).lift (L := YieldsStmt .declaration)
      (w := w.token.val :: name.val :: left.val :: parameterTokens P) ?_
    rintro _ ⟨right, rfl⟩
    refine ⟨[(Token.sample .leftBrace).val, (Token.sample .rightBrace).val],
      .function w name left P right (Token.sample .leftBrace) .nil (Token.sample .rightBrace), ?_⟩
    simp [StmtDerivation.tokens]
  obtain ⟨right, r, rfl, rfl, rfl⟩ := expect_of_ok ht
  have hright : w.token.val :: name.val :: left.val :: (parameterTokens P ++ right.val :: r) =
      (w.token.val :: name.val :: left.val :: (parameterTokens P ++ [right.val])) ++ r := by simp
  rcases bind_eq_error_iff.mp h with h | ⟨t, c, ht, h⟩
  · rw [hright]
    apply (expect_stuck (by decide) (by simp [TooDeep]) h).lift
    rintro _ ⟨leftBrace, rfl⟩
    refine ⟨[(Token.sample .rightBrace).val],
      .function w name left P right leftBrace .nil (Token.sample .rightBrace), ?_⟩
    simp [StmtDerivation.tokens]
  obtain ⟨leftBrace, r, rfl, rfl, rfl⟩ := expect_of_ok ht
  have hbrace : (w.token.val :: name.val :: left.val :: (parameterTokens P ++ [right.val])) ++
      leftBrace.val :: r = (w.token.val :: name.val :: left.val ::
        (parameterTokens P ++ [right.val, leftBrace.val])) ++ r := by simp
  rw [hright, hbrace]
  rcases bind_eq_error_iff.mp h with h | ⟨ss, c, hss, h⟩
  · apply (hbody _ _ _ _ _ h).lift
    rintro _ ⟨B, rfl⟩
    refine ⟨[(Token.sample .rightBrace).val],
      .function w name left P right leftBrace B (Token.sample .rightBrace), ?_⟩
    simp [StmtDerivation.tokens]
  obtain ⟨B, r, rfl, _, _, rfl⟩ := hread.sound hss
  rcases bind_eq_error_iff.mp h with h | ⟨t, c, _, h⟩
  · rw [← List.append_assoc]
    apply (expect_stuck (by decide) (by simp [TooDeep]) h).lift
    rintro _ ⟨rightBrace, rfl⟩
    refine ⟨[], .function w name left P right leftBrace B rightBrace, ?_⟩
    simp [StmtDerivation.tokens]
  · cases h

theorem initializer_stuck (hx : FailsWithin (YieldsExpr .expression) expr)
    (h : optionally .equal expr ⟨ts, i, f⟩ = .error m d) :
    Stuck (Yields Initializer.tokens) ts m d := by
  obtain ⟨equal, r, rfl, herror⟩ := optionally_of_error (by decide) h
  refine (hx _ _ _ _ _ herror).lift (w := [equal.val]) ?_
  rintro _ ⟨V, rfl⟩
  exact ⟨[], .given equal V, by simp [Initializer.tokens]⟩

theorem declarators_stuck (hread : ReadsOperation BinaryOp.topLevel depth expr)
    (hx : FailsWithin (YieldsExpr .expression) expr) {type : BaseType} (bound : List Token)
    (name : Token.Of .name)
    (h : declarators expr type bound name.val ⟨ts, i, f⟩ = .error m d) :
    Stuck (Yields Declarators.tokens) (name.val :: ts) m d := by
  have hinitializer : ∀ {ts : List Token} {i : Nat} (name : Token.Of .name),
      optionally .equal expr ⟨ts, i, f⟩ = .error m d →
        Stuck (Yields Declarators.tokens) (name.val :: ts) m d := by
    intro ts i name h
    refine (initializer_stuck hx h).lift (w := [name.val]) ?_
    rintro _ ⟨I, rfl⟩
    exact ⟨[], .last name I, by simp [Declarators.tokens]⟩
  induction bound generalizing name ts i with
  | nil =>
    rw [declarators_nil] at h
    rcases bind_eq_error_iff.mp h with h | ⟨init, c, _, h⟩
    · exact hinitializer name h
    · cases h
  | cons b bound ih =>
    rw [declarators_cons] at h
    rcases bind_eq_error_iff.mp h with h | ⟨init, c, hinit, h⟩
    · exact hinitializer name h
    obtain ⟨I, r, rfl, _, _, rfl, rfl⟩ := initializer_sound hread hinit
    rcases accept_cases .comma (by decide) r (i + I.size) f with ⟨comma, s, rfl, hc⟩ | ⟨_, hc⟩
    · rw [bind_of_ok hc] at h
      have happend : name.val :: (I.tokens ++ comma.val :: s) =
          (name.val :: (I.tokens ++ [comma.val])) ++ s := by simp
      rw [happend]
      rcases bind_eq_error_iff.mp h with h | ⟨t, c, ht, h⟩
      · apply (expect_stuck (by decide) (by simp [TooDeep]) h).lift
        rintro _ ⟨next, rfl⟩
        exact ⟨[], .more name I comma (.last next .absent),
          by simp [Declarators.tokens, Initializer.tokens]⟩
      obtain ⟨next, s, rfl, rfl, rfl⟩ := expect_of_ok ht
      rcases bind_eq_error_iff.mp h with h | ⟨rest, c, _, h⟩
      · apply (ih next h).lift
        rintro _ ⟨D, rfl⟩
        exact ⟨[], .more name I comma D, by simp [Declarators.tokens]⟩
      · cases h
    · rw [bind_of_ok hc] at h
      cases h

theorem declaration_stuck (hread : ReadsOperation BinaryOp.topLevel depth expr)
    (hreadBody : ReadsBody depth body) (hx : FailsWithin (YieldsExpr .expression) expr)
    (hbody : FailsWithin (YieldsStmt .items) body) :
    FailsWithin (YieldsStmt .declaration) (declaration expr body) := by
  intro ts i f m d h
  simp only [declaration] at h
  rcases bind_eq_error_iff.mp h with h | ⟨b, c, hb, h⟩
  · refine (baseType_stuck h).lift (w := []) ?_
    rintro _ ⟨w, rfl⟩
    exact ⟨_, .vars w (.last (Token.sample .name) .absent) (Token.sample .semicolon), rfl⟩
  obtain ⟨w, r, rfl, rfl, rfl⟩ := baseType_of_ok hb
  rcases bind_eq_error_iff.mp h with h | ⟨t, c, ht, h⟩
  · refine (expect_stuck (by decide) (by simp [TooDeep]) h).lift (w := [w.token.val]) ?_
    rintro _ ⟨name, rfl⟩
    exact ⟨_, .vars w (.last name .absent) (Token.sample .semicolon), rfl⟩
  obtain ⟨name, r, rfl, rfl, rfl⟩ := expect_of_ok ht
  rcases accept_cases .leftParen (by decide) r i f with ⟨left, r, rfl, hc⟩ | ⟨_, hc⟩
  · rw [bind_of_ok hc] at h
    simp only [↓reduceIte] at h
    rcases bind_eq_error_iff.mp h with h | ⟨s, c, _, h⟩
    · exact functionTail_stuck hreadBody hbody w name left h
    · cases h
  · rw [bind_of_ok hc] at h
    simp only [Bool.false_eq_true, ↓reduceIte, bind_of_ok (remaining_apply _)] at h
    rcases bind_eq_error_iff.mp h with h | ⟨ss, c, hss, h⟩
    · refine (declarators_stuck hread hx _ name h).lift (w := [w.token.val]) ?_
      rintro _ ⟨D, rfl⟩
      exact ⟨[(Token.sample .semicolon).val], .vars w D (Token.sample .semicolon),
        by simp [StmtDerivation.tokens]⟩
    obtain ⟨D, s, hD, _, _, rfl, rfl⟩ := declarators_sound hread _ name hss
    rcases bind_eq_error_iff.mp h with h | ⟨t, c, _, h⟩
    · rw [hD]
      refine (expect_stuck (by decide) (by simp [TooDeep]) h).lift (L := YieldsStmt .declaration)
        (w := w.token.val :: D.tokens) ?_
      rintro _ ⟨semicolon, rfl⟩
      exact ⟨[], .vars w D semicolon, by simp [StmtDerivation.tokens]⟩
    · cases h

end Declarations

section Statements

variable {depth : Nat} {expr : Parser Expr} {declaration : Parser (List Stmt)}
  {statement : Parser Stmt} {ts r : List Token} {i : Nat} {f : Location} {m : Mismatch}
  {d : Cursor}

theorem itemsWithin_stuck (hreadD : ReadsDeclaration depth declaration)
    (hreadS : ReadsStatement depth statement)
    (hdecl : FailsWithin (YieldsStmt .declaration) declaration)
    (hstmt : FailsWithin (YieldsStmt .statement) statement) (bound : List Token)
    (h : itemsWithin declaration statement bound ⟨ts, i, f⟩ = .error m d) :
    Stuck (YieldsStmt .items) ts m d := by
  induction bound generalizing ts i with
  | nil => cases h
  | cons b bound ih =>
    by_cases hend : ListEnds ts
    · rw [itemsWithin_of_listEnds hend] at h
      cases h
    cases htype : (headKind ts).isType with
    | true =>
      rw [itemsWithin_of_isType htype] at h
      rcases bind_eq_error_iff.mp h with h | ⟨declared, c, hdeclared, h⟩
      · refine (hdecl _ _ _ _ _ h).lift (w := []) ?_
        rintro _ ⟨D, rfl⟩
        exact ⟨[], .cons (.declared D) .nil, by simp [StmtDerivation.tokens]⟩
      obtain ⟨D, r, rfl, _, _, rfl⟩ := hreadD.sound hdeclared
      rcases bind_eq_error_iff.mp h with h | ⟨rest, c, _, h⟩
      · apply (ih h).lift
        rintro _ ⟨R, rfl⟩
        exact ⟨[], .cons (.declared D) R, by simp [StmtDerivation.tokens]⟩
      · cases h
    | false =>
      by_cases hk : headKind ts = .semicolon
      · obtain ⟨semicolon, r, rfl⟩ := exists_of_headKind hk (by decide)
        rw [itemsWithin_semicolon] at h
        refine (ih h).lift (w := [semicolon.val]) ?_
        rintro _ ⟨R, rfl⟩
        exact ⟨[], .cons (.empty semicolon) R, by simp [StmtDerivation.tokens]⟩
      · rw [itemsWithin_of_ne hend htype hk] at h
        rcases bind_eq_error_iff.mp h with h | ⟨s, c, hs, h⟩
        · refine (hstmt _ _ _ _ _ h).lift (w := []) ?_
          rintro _ ⟨D, rfl⟩
          exact ⟨[], .cons D .nil, by simp [StmtDerivation.tokens]⟩
        obtain ⟨D, r, rfl, _, _, rfl⟩ := hreadS.sound hs
        rcases bind_eq_error_iff.mp h with h | ⟨rest, c, _, h⟩
        · apply (ih h).lift
          rintro _ ⟨R, rfl⟩
          exact ⟨[], .cons D R, by simp [StmtDerivation.tokens]⟩
        · cases h

theorem items_stuck (hreadD : ReadsDeclaration depth declaration)
    (hreadS : ReadsStatement depth statement)
    (hdecl : FailsWithin (YieldsStmt .declaration) declaration)
    (hstmt : FailsWithin (YieldsStmt .statement) statement) :
    FailsWithin (YieldsStmt .items) (items declaration statement) := by
  intro ts i f m d h
  simp only [items, bind_of_ok (remaining_apply _)] at h
  exact itemsWithin_stuck hreadD hreadS hdecl hstmt _ h

theorem clause_stuck (hx : FailsWithin (YieldsExpr .expression) expr) (k : Kind) :
    FailsWithin (Yields Clause.tokens) (clause expr k) := by
  intro ts i f m d h
  simp only [clause, bind_of_ok (peek_apply _)] at h
  split at h
  · cases h
  · refine (hx _ _ _ _ _ h).lift (w := []) ?_
    rintro _ ⟨V, rfl⟩
    exact ⟨[], .given V, by simp [Clause.tokens]⟩

def endedTokens {k : Kind} (E : Clause × Token.Of k) : List Token := E.1.tokens ++ [E.2.val]

theorem ended_stuck (hread : ReadsOperation BinaryOp.topLevel depth expr)
    (hx : FailsWithin (YieldsExpr .expression) expr) {k : Kind} (hk : k ≠ .eof) {context : String}
    (hcontext : ¬ TooDeep context) :
    FailsWithin (Yields (endedTokens (k := k))) (ended expr k context) := by
  intro ts i f m d h
  rcases bind_eq_error_iff.mp h with h | ⟨e, c, he, h⟩
  · refine (clause_stuck hx _ _ _ _ _ _ h).lift (w := []) ?_
    rintro _ ⟨C, rfl⟩
    exact ⟨[(Token.sample k).val], (C, Token.sample k), rfl⟩
  obtain ⟨C, r, rfl, rfl⟩ : ∃ (C : Clause) (r : List Token), ts = C.tokens ++ r ∧
      c = ⟨r, i + C.size, f⟩ := by
    simp only [clause, bind_of_ok (peek_apply _)] at he
    split at he
    · cases he
      exact ⟨.omitted, ts, rfl, rfl⟩
    · obtain ⟨V, r, rfl, _, _, rfl⟩ := hread.sound he
      exact ⟨.given V, r, rfl, rfl⟩
  rcases bind_eq_error_iff.mp h with h | ⟨t, c, _, h⟩
  · apply (expect_stuck hk hcontext h).lift
    rintro _ ⟨last, rfl⟩
    exact ⟨[], (C, last), by simp [endedTokens]⟩
  · cases h

def enclosedTokens (E : Token.Of .leftParen × ExpressionDerivation × Token.Of .rightParen) :
    List Token := E.1.val :: (E.2.1.tokens ++ [E.2.2.val])

theorem enclosed_stuck (hread : ReadsOperation BinaryOp.topLevel depth expr)
    (hx : FailsWithin (YieldsExpr .expression) expr) {before behind : String}
    (hbefore : ¬ TooDeep before) (hbehind : ¬ TooDeep behind) :
    FailsWithin (Yields enclosedTokens) (enclosed expr before behind) := by
  intro ts i f m d h
  rcases bind_eq_error_iff.mp h with h | ⟨t, c, ht, h⟩
  · refine (expect_stuck (by decide) hbefore h).lift (w := []) ?_
    rintro _ ⟨left, rfl⟩
    exact ⟨_, (left, .sample _, Token.sample .rightParen), rfl⟩
  obtain ⟨left, r, rfl, rfl, rfl⟩ := expect_of_ok ht
  rcases bind_eq_error_iff.mp h with h | ⟨e, c, he, h⟩
  · refine (hx _ _ _ _ _ h).lift (w := [left.val]) ?_
    rintro _ ⟨V, rfl⟩
    exact ⟨_, (left, V, Token.sample .rightParen), rfl⟩
  obtain ⟨V, r, rfl, _, _, rfl⟩ := hread.sound he
  rcases bind_eq_error_iff.mp h with h | ⟨t, c, _, h⟩
  · refine (expect_stuck (by decide) hbehind h).lift (L := Yields enclosedTokens)
      (w := left.val :: V.tokens) ?_
    rintro _ ⟨right, rfl⟩
    exact ⟨[], (left, V, right), by simp [enclosedTokens]⟩
  · cases h

theorem branch_stuck (hread : ReadsOperation BinaryOp.topLevel depth expr)
    (hx : FailsWithin (YieldsExpr .expression) expr) (hreadS : ReadsStatement depth statement)
    (hstmt : FailsWithin (YieldsStmt .statement) statement) (word : Token.Of .ifWord) (p : Location)
    (h : branch expr statement p ⟨word.val :: r, i, f⟩ = .error m d) :
    Stuck (YieldsStmt .command) (word.val :: r) m d := by
  rw [branch_eq, bind_of_ok (skip_apply _), Cursor.advance_cons] at h
  rcases bind_eq_error_iff.mp h with h | ⟨e, c, he, h⟩
  · have hstuck := enclosed_stuck hread hx (by simp [TooDeep]) (by simp [TooDeep]) _ _ _ _ _ h
    refine hstuck.lift (w := [word.val]) ?_
    rintro _ ⟨⟨left, C, right⟩, rfl⟩
    exact ⟨StmtDerivation.sample.tokens, .branch word left C right .sample,
      by simp [StmtDerivation.tokens, enclosedTokens]⟩
  obtain ⟨left, C, right, r, rfl, _, _, _, rfl⟩ := enclosed_sound hread he
  have hright : word.val :: left.val :: (C.tokens ++ right.val :: r) =
      (word.val :: left.val :: (C.tokens ++ [right.val])) ++ r := by simp
  rcases bind_eq_error_iff.mp h with h | ⟨thenBody, c, hthen, h⟩
  · rw [hright]
    apply (hstmt _ _ _ _ _ h).lift
    rintro _ ⟨T, rfl⟩
    exact ⟨[], .branch word left C right T, by simp [StmtDerivation.tokens]⟩
  obtain ⟨T, r, rfl, _, _, rfl⟩ := hreadS.sound hthen
  rcases bind_eq_error_iff.mp h with h | ⟨elseBody, c, _, h⟩
  · obtain ⟨elseWord, s, rfl, herror⟩ := optionally_of_error (by decide) h
    have helse : word.val :: left.val :: (C.tokens ++ right.val :: (T.tokens ++ elseWord.val :: s)) =
        (word.val :: left.val :: (C.tokens ++ right.val :: (T.tokens ++ [elseWord.val]))) ++ s := by
      simp
    rw [helse]
    apply (hstmt _ _ _ _ _ herror).lift
    rintro _ ⟨E, rfl⟩
    exact ⟨[], .branchElse word left C right T elseWord E, by simp [StmtDerivation.tokens]⟩
  · cases h

theorem whileLoop_stuck (hread : ReadsOperation BinaryOp.topLevel depth expr)
    (hx : FailsWithin (YieldsExpr .expression) expr)
    (hstmt : FailsWithin (YieldsStmt .statement) statement) (word : Token.Of .whileWord)
    (p : Location) (h : whileLoop expr statement p ⟨word.val :: r, i, f⟩ = .error m d) :
    Stuck (YieldsStmt .command) (word.val :: r) m d := by
  rw [whileLoop_eq, bind_of_ok (skip_apply _), Cursor.advance_cons] at h
  rcases bind_eq_error_iff.mp h with h | ⟨e, c, he, h⟩
  · have hstuck := enclosed_stuck hread hx (by simp [TooDeep]) (by simp [TooDeep]) _ _ _ _ _ h
    refine hstuck.lift (w := [word.val]) ?_
    rintro _ ⟨⟨left, C, right⟩, rfl⟩
    exact ⟨StmtDerivation.sample.tokens, .whileLoop word left C right .sample,
      by simp [StmtDerivation.tokens, enclosedTokens]⟩
  obtain ⟨left, C, right, r, rfl, _, _, _, rfl⟩ := enclosed_sound hread he
  have hright : word.val :: left.val :: (C.tokens ++ right.val :: r) =
      (word.val :: left.val :: (C.tokens ++ [right.val])) ++ r := by simp
  rcases bind_eq_error_iff.mp h with h | ⟨body, c, _, h⟩
  · rw [hright]
    apply (hstmt _ _ _ _ _ h).lift
    rintro _ ⟨B, rfl⟩
    exact ⟨[], .whileLoop word left C right B, by simp [StmtDerivation.tokens]⟩
  · cases h

theorem forLoop_stuck (hread : ReadsOperation BinaryOp.topLevel depth expr)
    (hx : FailsWithin (YieldsExpr .expression) expr)
    (hstmt : FailsWithin (YieldsStmt .statement) statement) (word : Token.Of .forWord)
    (p : Location) (h : forLoop expr statement p ⟨word.val :: r, i, f⟩ = .error m d) :
    Stuck (YieldsStmt .command) (word.val :: r) m d := by
  rw [forLoop_eq, bind_of_ok (skip_apply _), Cursor.advance_cons] at h
  rcases bind_eq_error_iff.mp h with h | ⟨t, c, ht, h⟩
  · refine (expect_stuck (by decide) (by simp [TooDeep]) h).lift (w := [word.val]) ?_
    rintro _ ⟨left, rfl⟩
    exact ⟨_, .forLoop word left .omitted (Token.sample _) .omitted (Token.sample _) .omitted
      (Token.sample _) .sample, rfl⟩
  obtain ⟨left, r, rfl, rfl, rfl⟩ := expect_of_ok ht
  rcases bind_eq_error_iff.mp h with h | ⟨e, c, he, h⟩
  · have hstuck := ended_stuck hread hx (by decide) (by simp [TooDeep]) _ _ _ _ _ h
    refine hstuck.lift (w := [word.val, left.val]) ?_
    rintro _ ⟨⟨I, first⟩, rfl⟩
    refine ⟨(Token.sample .semicolon).val :: (Token.sample .rightParen).val ::
      StmtDerivation.sample.tokens, .forLoop word left I first .omitted (Token.sample _) .omitted
        (Token.sample _) .sample, ?_⟩
    simp [StmtDerivation.tokens, endedTokens, Clause.tokens]
  obtain ⟨I, first, r, rfl, _, _, _, rfl⟩ := ended_sound hread (by decide) he
  have hfirst : word.val :: left.val :: (I.tokens ++ first.val :: r) =
      (word.val :: left.val :: (I.tokens ++ [first.val])) ++ r := by simp
  rw [hfirst]
  rcases bind_eq_error_iff.mp h with h | ⟨e, c, he, h⟩
  · apply (ended_stuck hread hx (by decide) (by simp [TooDeep]) _ _ _ _ _ h).lift
    rintro _ ⟨⟨C, second⟩, rfl⟩
    refine ⟨(Token.sample .rightParen).val :: StmtDerivation.sample.tokens, .forLoop word left I
      first C second .omitted (Token.sample _) .sample, ?_⟩
    simp [StmtDerivation.tokens, endedTokens, Clause.tokens]
  obtain ⟨C, second, r, rfl, _, _, _, rfl⟩ := ended_sound hread (by decide) he
  have hsecond : (word.val :: left.val :: (I.tokens ++ [first.val])) ++ (C.tokens ++
      second.val :: r) = (word.val :: left.val :: (I.tokens ++ first.val :: (C.tokens ++
        [second.val]))) ++ r := by simp
  rw [hsecond]
  rcases bind_eq_error_iff.mp h with h | ⟨e, c, he, h⟩
  · apply (ended_stuck hread hx (by decide) (by simp [TooDeep]) _ _ _ _ _ h).lift
    rintro _ ⟨⟨U, right⟩, rfl⟩
    exact ⟨StmtDerivation.sample.tokens, .forLoop word left I first C second U right .sample,
      by simp [StmtDerivation.tokens, endedTokens]⟩
  obtain ⟨U, right, r, rfl, _, _, _, rfl⟩ := ended_sound hread (by decide) he
  have hright : (word.val :: left.val :: (I.tokens ++ first.val :: (C.tokens ++ [second.val]))) ++
      (U.tokens ++ right.val :: r) = (word.val :: left.val :: (I.tokens ++ first.val ::
        (C.tokens ++ second.val :: (U.tokens ++ [right.val])))) ++ r := by simp
  rw [hright]
  rcases bind_eq_error_iff.mp h with h | ⟨body, c, _, h⟩
  · apply (hstmt _ _ _ _ _ h).lift
    rintro _ ⟨B, rfl⟩
    exact ⟨[], .forLoop word left I first C second U right B, by simp [StmtDerivation.tokens]⟩
  · cases h

theorem ret_stuck (hread : ReadsOperation BinaryOp.topLevel depth expr)
    (hx : FailsWithin (YieldsExpr .expression) expr) (word : Token.Of .returnWord) (p : Location)
    (h : ret expr p ⟨word.val :: r, i, f⟩ = .error m d) :
    Stuck (YieldsStmt .command) (word.val :: r) m d := by
  rw [ret_eq, bind_of_ok (skip_apply _), Cursor.advance_cons] at h
  rcases bind_eq_error_iff.mp h with h | ⟨e, c, _, h⟩
  · have hstuck := ended_stuck hread hx (by decide) (by simp [TooDeep]) _ _ _ _ _ h
    refine hstuck.lift (w := [word.val]) ?_
    rintro _ ⟨⟨V, semicolon⟩, rfl⟩
    exact ⟨[], .ret word V semicolon, by simp [StmtDerivation.tokens, endedTokens]⟩
  · cases h

theorem print_stuck (hread : ReadsOperation BinaryOp.topLevel depth expr)
    (hx : FailsWithin (YieldsExpr .expression) expr) (word : Token.Of .printWord) (p : Location)
    (h : print expr p ⟨word.val :: r, i, f⟩ = .error m d) :
    Stuck (YieldsStmt .command) (word.val :: r) m d := by
  rw [print_eq, bind_of_ok (skip_apply _), Cursor.advance_cons] at h
  rcases bind_eq_error_iff.mp h with h | ⟨e, c, he, h⟩
  · have hstuck := enclosed_stuck hread hx (by simp [TooDeep]) (by simp [TooDeep]) _ _ _ _ _ h
    refine hstuck.lift (w := [word.val]) ?_
    rintro _ ⟨⟨left, V, right⟩, rfl⟩
    exact ⟨[(Token.sample .semicolon).val], .print word left V right (Token.sample .semicolon),
      by simp [StmtDerivation.tokens, enclosedTokens]⟩
  obtain ⟨left, V, right, r, rfl, _, _, _, rfl⟩ := enclosed_sound hread he
  have hright : word.val :: left.val :: (V.tokens ++ right.val :: r) =
      (word.val :: left.val :: (V.tokens ++ [right.val])) ++ r := by simp
  rcases bind_eq_error_iff.mp h with h | ⟨t, c, _, h⟩
  · rw [hright]
    apply (expect_stuck (by decide) (by simp [TooDeep]) h).lift
    rintro _ ⟨semicolon, rfl⟩
    exact ⟨[], .print word left V right semicolon, by simp [StmtDerivation.tokens]⟩
  · cases h

theorem declared_stuck {p : Location}
    (hdecl : FailsWithin (YieldsStmt .declaration) declaration)
    (h : (Grammar.declared p <$> declaration) ⟨ts, i, f⟩ = .error m d) :
    Stuck (YieldsStmt .statement) ts m d := by
  rw [map_apply] at h
  cases hrun : declaration ⟨ts, i, f⟩ with
  | ok ss c =>
    rw [hrun] at h
    cases h
  | error m' c =>
    rw [hrun] at h
    cases h
    refine (hdecl _ _ _ _ _ hrun).lift (w := []) ?_
    rintro _ ⟨D, rfl⟩
    exact ⟨[], .declared D, by simp [StmtDerivation.tokens]⟩

theorem statementWith_stuck (hread : ReadsOperation BinaryOp.topLevel depth expr)
    (hreadD : ReadsDeclaration depth declaration) (hreadS : ReadsStatement depth statement)
    (hx : FailsWithin (YieldsExpr .expression) expr)
    (hdecl : FailsWithin (YieldsStmt .declaration) declaration)
    (hstmt : FailsWithin (YieldsStmt .statement) statement) :
    FailsWithin (YieldsStmt .statement) (statementWith expr declaration statement) := by
  intro ts i f m d h
  have of_command : Stuck (YieldsStmt .command) ts m d → Stuck (YieldsStmt .statement) ts m d := by
    intro hstuck
    refine hstuck.lift (w := []) ?_
    rintro _ ⟨C, rfl⟩
    exact ⟨[], .command C, by simp [StmtDerivation.tokens]⟩
  rw [statementWith_apply] at h
  split at h
  case h_1 => exact declared_stuck hdecl h
  case h_2 => exact declared_stuck hdecl h
  case h_3 => exact declared_stuck hdecl h
  case h_4 => cases h
  case h_5 hk =>
    obtain ⟨left, r, rfl⟩ := exists_of_headKind hk (by decide)
    apply of_command
    rcases bind_eq_error_iff.mp h with h | ⟨body, c, hbody, h⟩
    · refine (items_stuck hreadD hreadS hdecl hstmt _ _ _ _ _ h).lift (w := [left.val]) ?_
      rintro _ ⟨B, rfl⟩
      exact ⟨[(Token.sample .rightBrace).val], .block left B (Token.sample .rightBrace),
        by simp [StmtDerivation.tokens]⟩
    obtain ⟨B, r', hB, _, _, rfl⟩ := (reads_items hreadD hreadS).sound hbody
    obtain rfl : r = B.tokens ++ r' := hB
    rcases bind_eq_error_iff.mp h with h | ⟨t, c, _, h⟩
    · refine (expect_stuck (by decide) (by simp [TooDeep]) h).lift (L := YieldsStmt .command)
        (w := left.val :: B.tokens) ?_
      rintro _ ⟨right, rfl⟩
      exact ⟨[], .block left B right, by simp [StmtDerivation.tokens]⟩
    · cases h
  case h_6 hk =>
    obtain ⟨word, r, rfl⟩ := exists_of_headKind hk (by decide)
    exact of_command (branch_stuck hread hx hreadS hstmt word _ h)
  case h_7 hk =>
    obtain ⟨word, r, rfl⟩ := exists_of_headKind hk (by decide)
    exact of_command (whileLoop_stuck hread hx hstmt word _ h)
  case h_8 hk =>
    obtain ⟨word, r, rfl⟩ := exists_of_headKind hk (by decide)
    exact of_command (forLoop_stuck hread hx hstmt word _ h)
  case h_9 hk =>
    obtain ⟨word, r, rfl⟩ := exists_of_headKind hk (by decide)
    exact of_command (ret_stuck hread hx word _ h)
  case h_10 hk =>
    obtain ⟨word, r, rfl⟩ := exists_of_headKind hk (by decide)
    exact of_command (print_stuck hread hx word _ h)
  case h_11 =>
    apply of_command
    rcases bind_eq_error_iff.mp h with h | ⟨value, c, hvalue, h⟩
    · refine (hx _ _ _ _ _ h).lift (w := []) ?_
      rintro _ ⟨V, rfl⟩
      exact ⟨[(Token.sample .semicolon).val], .expr V (Token.sample .semicolon),
        by simp [StmtDerivation.tokens]⟩
    obtain ⟨V, r, rfl, _, _, rfl⟩ := hread.sound hvalue
    rcases bind_eq_error_iff.mp h with h | ⟨t, c, _, h⟩
    · apply (expect_stuck (by decide) (by simp [TooDeep]) h).lift
      rintro _ ⟨semicolon, rfl⟩
      exact ⟨[], .expr V semicolon, by simp [StmtDerivation.tokens]⟩
    · cases h

end Statements

theorem statement_and_body_stuck : ∀ depth : Nat,
    FailsWithin (YieldsStmt .statement) (statement depth) ∧
      FailsWithin (YieldsStmt .items) (functionBody depth)
  | 0 => by
    constructor
    · intro ts i f m d h
      rw [statement] at h
      exact fail_stuck Stmt (by simp [TooDeep]) (by simp) h
    · intro ts i f m d h
      rw [functionBody] at h
      exact fail_stuck (List Stmt) (by simp [TooDeep]) (by simp) h
  | depth + 1 => by
    obtain ⟨hstmt, hbody⟩ := statement_and_body_stuck depth
    obtain ⟨hreadS, hreadB⟩ := reads_statement_and_body depth
    have hread := reads_expression depth
    have hreadD := reads_declarations_of_depth depth
    have hx := expression_stuck depth
    have hdecl := declaration_stuck hread hreadB hx hbody
    constructor
    · rw [statement]
      exact statementWith_stuck hread hreadD hreadS hx hdecl hstmt
    · rw [functionBody]
      exact items_stuck hreadD hreadS hdecl hstmt

theorem declaration_of_depth_stuck (depth : Nat) :
    FailsWithin (YieldsStmt .declaration) (declaration (expression depth) (functionBody depth)) :=
  declaration_stuck (reads_expression depth) (reads_statement_and_body depth).2
    (expression_stuck depth) (statement_and_body_stuck depth).2

end Grammar
end MiniCheck
