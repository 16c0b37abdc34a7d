import MiniCheck.Proofs.Grammar.ExprReading
import MiniCheck.Proofs.Grammar.StmtDerivation

/-!
# Reading declarations

What the readers of parameters, of declared variables and of whole declarations
answer, given a reader of expressions and one of the bodies of functions.
-/

namespace MiniCheck
namespace Grammar

open Token (Kind)
open Grammar.Parser

section Types

variable {ts r : List Token} {i : Nat} {f : Location} {d : Cursor}

theorem baseType_apply (c : Cursor) :
    baseType c =
      match c.kind with
      | .intWord => .ok .int c.advance
      | .floatWord => .ok .float c.advance
      | .voidWord => .ok .void c.advance
      | _ => .error (c.mismatch [.intWord, .floatWord, .voidWord] "as type name") c := by
  simp only [baseType, bind_of_ok (peek_apply _)]
  cases c.kind <;> rfl

theorem baseType_word (w : TypeWord) :
    baseType ⟨w.token.val :: r, i, f⟩ = .ok w.type ⟨r, i, f⟩ := by
  obtain ⟨type, token⟩ := w
  have hk : Cursor.kind ⟨token.val :: r, i, f⟩ = type.word := token.property
  rw [baseType_apply, hk]
  cases type <;> rfl

theorem baseType_of_ok {b : BaseType} (h : baseType ⟨ts, i, f⟩ = .ok b d) :
    ∃ (w : TypeWord) (r : List Token), ts = w.token.val :: r ∧ b = w.type ∧ d = ⟨r, i, f⟩ := by
  have of_word : ∀ type : BaseType, headKind ts = type.word →
      ∃ (w : TypeWord) (r : List Token), ts = w.token.val :: r ∧ b = w.type ∧ d = ⟨r, i, f⟩ := by
    intro type hk
    obtain ⟨token, r, rfl⟩ := exists_of_headKind hk (by cases type <;> decide)
    rw [baseType_word ⟨type, token⟩] at h
    cases h
    exact ⟨⟨type, token⟩, r, rfl, rfl, rfl⟩
  rw [baseType_apply] at h
  split at h
  · exact of_word .int ‹_›
  · exact of_word .float ‹_›
  · exact of_word .void ‹_›
  · cases h

theorem isType_headKind (w : TypeWord) (ts : List Token) :
    (headKind (w.token.val :: ts)).isType = true := by
  rw [headKind_cons, w.token.property]
  exact w.type.isType_word

end Types

/-! ## Parameters -/

section Parameters

variable {ts r : List Token} {i : Nat} {f : Location} {d : Cursor}

theorem parameter_of_ok {p : Param} (h : parameter ⟨ts, i, f⟩ = .ok p d) :
    ∃ (w : TypeWord) (name : Token.Of .name) (r : List Token), ts = w.token.val :: name.val :: r ∧
      p = ⟨name.val.lexeme, w.type, name.val.location⟩ ∧ d = ⟨r, i, f⟩ := by
  simp only [parameter] at h
  obtain ⟨b, c, hb, h⟩ := bind_eq_ok_iff.mp h
  obtain ⟨w, r, rfl, rfl, rfl⟩ := baseType_of_ok hb
  obtain ⟨t, c, ht, h⟩ := bind_eq_ok_iff.mp h
  obtain ⟨name, r, rfl, rfl, rfl⟩ := expect_of_ok ht
  cases h
  exact ⟨w, name, r, rfl, rfl, rfl⟩

theorem parameter_cons (w : TypeWord) (name : Token.Of .name) :
    parameter ⟨w.token.val :: name.val :: r, i, f⟩ =
      .ok ⟨name.val.lexeme, w.type, name.val.location⟩ ⟨r, i, f⟩ := by
  simp only [parameter, bind_of_ok (baseType_word w), bind_of_ok (expect_of .name _ name r)]
  rfl

theorem separated_parameter_sound (bound : List Token) {ps : List Param}
    (h : separated parameter bound ⟨ts, i, f⟩ = .ok ps d) :
    ∃ (P : Parameters) (r : List Token), ts = P.tokens ++ r ∧ ps = P.tree ∧ d = ⟨r, i, f⟩ := by
  induction bound generalizing ts ps d with
  | nil =>
    simp only [separated] at h
    obtain ⟨p, c, hp, h⟩ := bind_eq_ok_iff.mp h
    obtain ⟨w, name, r, rfl, rfl, rfl⟩ := parameter_of_ok hp
    cases h
    exact ⟨.last w name, r, rfl, rfl, rfl⟩
  | cons b bound ih =>
    simp only [separated] at h
    obtain ⟨p, c, hp, h⟩ := bind_eq_ok_iff.mp h
    obtain ⟨w, name, r, rfl, rfl, rfl⟩ := parameter_of_ok hp
    rcases accept_cases .comma (by decide) r i f with ⟨comma, s, rfl, hc⟩ | ⟨_, hc⟩
    · rw [bind_of_ok hc] at h
      obtain ⟨ps, c, hps, h⟩ := bind_eq_ok_iff.mp h
      obtain ⟨P, r, rfl, rfl, rfl⟩ := ih hps
      cases h
      exact ⟨.more w name comma P, r, rfl, rfl, rfl⟩
    · rw [bind_of_ok hc] at h
      cases h
      exact ⟨.last w name, r, rfl, rfl, rfl⟩

theorem separated_parameter_complete (hr : headKind r ≠ .comma) :
    ∀ (P : Parameters) (bound : List Token), (P.tokens ++ r).length ≤ bound.length →
      separated parameter bound ⟨P.tokens ++ r, i, f⟩ = .ok P.tree ⟨r, i, f⟩
  | .last w name, [], _ => by
    simp only [separated]
    exact bind_of_ok (parameter_cons w name)
  | .last w name, b :: bound, _ => by
    simp only [separated]
    exact (bind_of_ok (parameter_cons w name)).trans (bind_of_ok (accept_of_ne hr))
  | .more w name comma rest, [], hb => absurd hb (by simp [Parameters.tokens])
  | .more w name comma rest, b :: bound, hb => by
    have hb' : (rest.tokens ++ r).length ≤ bound.length := by
      simp only [Parameters.tokens, List.cons_append, List.length_cons] at hb
      omega
    have hrest := separated_parameter_complete hr rest bound hb'
    simp only [separated, Parameters.tokens, List.cons_append]
    rw [bind_of_ok (parameter_cons w name), bind_of_ok (accept_of _ comma _)]
    simp only [↓reduceIte]
    rw [bind_of_ok hrest]
    rfl

theorem parameters_sound {ps : List Param} (h : parameters ⟨ts, i, f⟩ = .ok ps d) :
    ∃ (P : Option Parameters) (r : List Token), ts = parameterTokens P ++ r ∧
      ps = parameterTree P ∧ d = ⟨r, i, f⟩ := by
  simp only [parameters, bind_of_ok (peek_apply _)] at h
  split at h
  · obtain ⟨P, r, rfl, rfl, rfl⟩ := separated_parameter_sound _ h
    exact ⟨some P, r, rfl, rfl, rfl⟩
  · cases h
    exact ⟨none, ts, rfl, rfl, rfl⟩

theorem parameters_complete (P : Option Parameters) (right : Token.Of .rightParen) :
    parameters ⟨parameterTokens P ++ right.val :: r, i, f⟩ =
      .ok (parameterTree P) ⟨right.val :: r, i, f⟩ := by
  cases P with
  | none =>
    have hno : (Cursor.kind ⟨right.val :: r, i, f⟩).isType = false := by
      change right.val.kind.isType = false
      rw [right.property]
      rfl
    change parameters ⟨right.val :: r, i, f⟩ = _
    simp only [parameters, bind_of_ok (peek_apply _), hno]
    rfl
  | some P =>
    have hyes : (Cursor.kind ⟨P.tokens ++ right.val :: r, i, f⟩).isType = true := by
      cases P with
      | last w _ => exact isType_headKind w _
      | more w _ _ _ => exact isType_headKind w _
    have hcomma : headKind (right.val :: r) ≠ .comma := by
      rw [headKind_cons, right.property]
      decide
    change parameters ⟨P.tokens ++ right.val :: r, i, f⟩ = _
    simp only [parameters, bind_of_ok (peek_apply _), hyes, ↓reduceIte]
    exact separated_parameter_complete hcomma P _ (Nat.le_refl _)

end Parameters

/-! ## Variables -/

namespace Declarators

def first : Declarators → Token.Of .name
  | last name _ => name
  | more name _ _ _ => name

/-- The tokens behind the first name. -/
def afterFirst : Declarators → List Token
  | last _ init => init.tokens
  | more _ init comma rest => init.tokens ++ comma.val :: rest.tokens

theorem tokens_eq (D : Declarators) : D.tokens = D.first.val :: D.afterFirst := by
  cases D <;> rfl

/-- Behind its name a variable is told from a function. -/
theorem afterFirst_ne_leftParen (D : Declarators) (semicolon : Token.Of .semicolon)
    (r : List Token) : headKind (D.afterFirst ++ semicolon.val :: r) ≠ .leftParen := by
  cases D with
  | last name init =>
    cases init with
    | absent => simp [afterFirst, Initializer.tokens]
    | given equal value => simp [afterFirst, Initializer.tokens]
  | more name init comma rest =>
    cases init with
    | absent => simp [afterFirst, Initializer.tokens]
    | given equal value => simp [afterFirst, Initializer.tokens]

end Declarators

section Variables

variable {depth : Nat} {expr : Parser Expr} {type : BaseType} {ts r : List Token} {i : Nat}
  {f : Location} {d : Cursor}

theorem initializer_sound (hx : ReadsOperation BinaryOp.topLevel depth expr) {o : Option Expr}
    (h : optionally .equal expr ⟨ts, i, f⟩ = .ok o d) :
    ∃ (I : Initializer) (r : List Token), ts = I.tokens ++ r ∧ I.Settled ∧ I.nesting ≤ depth ∧
      o = I.tree i ∧ d = ⟨r, i + I.size, f⟩ := by
  rcases optionally_of_ok (by decide) h with ⟨equal, r, e, rfl, rfl, he⟩ | ⟨_, rfl, rfl⟩
  · obtain ⟨D, s, rfl, hD, rfl, rfl⟩ := hx.sound he
    exact ⟨.given equal D, s, rfl, hD.settled, hD.nesting, rfl, rfl⟩
  · exact ⟨.absent, ts, rfl, trivial, Nat.zero_le _, rfl, rfl⟩

theorem initializer_complete (hx : ReadsOperation BinaryOp.topLevel depth expr)
    (I : Initializer) (hs : I.Settled) (hn : I.nesting ≤ depth)
    (hr : (headKind r).closes = true) (i : Nat) :
    optionally .equal expr ⟨I.tokens ++ r, i, f⟩ = .ok (I.tree i) ⟨r, i + I.size, f⟩ := by
  cases I with
  | absent =>
    refine optionally_of_ne expr fun hequal => ?_
    change headKind r = .equal at hequal
    rw [hequal] at hr
    exact absurd hr (by decide)
  | given equal value => exact optionally_of expr equal (hx.complete (.of_closes hs hn hr) i f)

theorem declarators_nil (expr : Parser Expr) (type : BaseType) (name : Token) :
    declarators expr type [] name =
      (optionally .equal expr >>= fun init =>
        pure [.declareVar name.lexeme type init name.location]) := by
  rw [optionally_bind]
  rfl

theorem declarators_cons (expr : Parser Expr) (type : BaseType) (b : Token) (bound : List Token)
    (name : Token) :
    declarators expr type (b :: bound) name =
      (optionally .equal expr >>= fun init => do
        if ← accept .comma then
          let next ← expect .name "after ','"
          let rest ← declarators expr type bound next
          pure (.declareVar name.lexeme type init name.location :: rest)
        else pure [.declareVar name.lexeme type init name.location]) := by
  rw [optionally_bind]
  rfl

theorem declarators_sound (hx : ReadsOperation BinaryOp.topLevel depth expr) (bound : List Token)
    (name : Token.Of .name) {ss : List Stmt}
    (h : declarators expr type bound name.val ⟨ts, i, f⟩ = .ok ss d) :
    ∃ (D : Declarators) (r : List Token), name.val :: ts = D.tokens ++ r ∧ D.Settled ∧
      D.nesting ≤ depth ∧ ss = D.tree type i ∧ d = ⟨r, i + D.size, f⟩ := by
  induction bound generalizing name ts i ss d with
  | nil =>
    rw [declarators_nil] at h
    obtain ⟨init, c, hinit, h⟩ := bind_eq_ok_iff.mp h
    obtain ⟨I, r, rfl, hs, hn, rfl, rfl⟩ := initializer_sound hx hinit
    cases h
    exact ⟨.last name I, r, rfl, hs, hn, rfl, rfl⟩
  | cons b bound ih =>
    rw [declarators_cons] at h
    obtain ⟨init, c, hinit, h⟩ := bind_eq_ok_iff.mp h
    obtain ⟨I, r, rfl, hs, hn, rfl, rfl⟩ := initializer_sound hx hinit
    rcases accept_cases .comma (by decide) r (i + I.size) f with ⟨comma, s, rfl, hc⟩ | ⟨_, hc⟩
    · rw [bind_of_ok hc] at h
      obtain ⟨t, c, ht, h⟩ := bind_eq_ok_iff.mp h
      obtain ⟨next, s, rfl, rfl, rfl⟩ := expect_of_ok ht
      obtain ⟨rest, c, hrest, h⟩ := bind_eq_ok_iff.mp h
      obtain ⟨D, r, hD, hsD, hnD, rfl, rfl⟩ := ih next hrest
      cases h
      refine ⟨.more name I comma D, r, ?_, ⟨hs, hsD⟩, Nat.max_le.mpr ⟨hn, hnD⟩, rfl, ?_⟩
      · simp [Declarators.tokens, hD]
      · simp [Declarators.size, Nat.add_assoc]
    · rw [bind_of_ok hc] at h
      cases h
      exact ⟨.last name I, r, rfl, hs, hn, rfl, rfl⟩

theorem declarators_complete (type : BaseType)
    (hx : ReadsOperation BinaryOp.topLevel depth expr) (hr : headKind r = .semicolon) :
    ∀ (D : Declarators) (bound : List Token) (i : Nat), D.Settled → D.nesting ≤ depth →
      (D.afterFirst ++ r).length ≤ bound.length →
      declarators expr type bound D.first.val ⟨D.afterFirst ++ r, i, f⟩ =
        .ok (D.tree type i) ⟨r, i + D.size, f⟩
  | .last name I, bound, i, hs, hn, _ => by
    have hinit := initializer_complete hx I hs hn (r := r) (f := f) (by rw [hr]; rfl) i
    have hc : accept .comma ⟨r, i + I.size, f⟩ = .ok false ⟨r, i + I.size, f⟩ :=
      accept_of_ne (by rw [hr]; decide)
    change declarators expr type bound name.val ⟨I.tokens ++ r, i, f⟩ = _
    cases bound with
    | nil =>
      rw [declarators_nil, bind_of_ok hinit]
      rfl
    | cons b bound =>
      rw [declarators_cons, bind_of_ok hinit, bind_of_ok hc]
      rfl
  | .more name I comma rest, [], i, _, _, hb => absurd hb (by simp [Declarators.afterFirst])
  | .more name I comma rest, b :: bound, i, hs, hn, hb => by
    obtain ⟨hnI, hnrest⟩ := Nat.max_le.mp hn
    have hinit := initializer_complete hx I hs.1 hnI (r := comma.val :: (rest.tokens ++ r)) (f := f)
      (by rw [headKind_cons, comma.property]; rfl) i
    have hb' : (rest.afterFirst ++ r).length ≤ bound.length := by
      simp only [Declarators.afterFirst, rest.tokens_eq, List.length_append, List.length_cons] at hb ⊢
      omega
    have hrest := declarators_complete type hx hr rest bound (i + I.size) hs.2 hnrest hb'
    simp only [Declarators.first, Declarators.afterFirst, List.append_assoc, List.cons_append]
    rw [declarators_cons, bind_of_ok hinit, bind_of_ok (accept_of _ comma _), rest.tokens_eq]
    simp only [↓reduceIte, List.cons_append]
    rw [bind_of_ok (expect_of _ _ rest.first _), bind_of_ok hrest]
    simp [Declarators.tree, Declarators.size, Nat.add_assoc]

end Variables

/-! ## Declarations -/

/-- Where a list between braces is over. -/
def ListEnds (r : List Token) : Prop := headKind r = .rightBrace ∨ r = []

/-- The body of a function opens a nesting level itself. -/
abbrev ReadsBody (depth : Nat) (x : Parser (List Stmt)) : Prop :=
  Reads (fun D : StmtDerivation .items => D.tokens) (fun D => D.size) (fun D => D.tree)
    (fun D r => D.Settled ∧ D.nesting + 1 ≤ depth ∧ ListEnds r) x

abbrev ReadsDeclaration (depth : Nat) (x : Parser (List Stmt)) : Prop :=
  Reads (fun D : StmtDerivation .declaration => D.tokens) (fun D => D.size) (fun D => D.tree)
    (fun D _ => D.Settled ∧ D.nesting ≤ depth) x

section Declaration

variable {depth : Nat} {expr : Parser Expr} {body : Parser (List Stmt)} {ts r : List Token}
  {i : Nat} {f : Location} {d : Cursor}

theorem functionTail_sound (hbody : ReadsBody depth body) (w : TypeWord) (name : Token.Of .name)
    (left : Token.Of .leftParen) {s : Stmt}
    (h : functionTail body w.type name.val ⟨ts, i, f⟩ = .ok s d) :
    ∃ (D : StmtDerivation .declaration) (r : List Token),
      w.token.val :: name.val :: left.val :: ts = D.tokens ++ r ∧ (D.Settled ∧ D.nesting ≤ depth) ∧
        [s] = D.tree i ∧ d = ⟨r, i + D.size, f⟩ := by
  simp only [functionTail] at h
  obtain ⟨ps, c, hps, h⟩ := bind_eq_ok_iff.mp h
  obtain ⟨P, r, rfl, rfl, rfl⟩ := parameters_sound hps
  obtain ⟨t, c, ht, h⟩ := bind_eq_ok_iff.mp h
  obtain ⟨right, r, rfl, rfl, rfl⟩ := expect_of_ok ht
  obtain ⟨t, c, ht, h⟩ := bind_eq_ok_iff.mp h
  obtain ⟨leftBrace, r, rfl, rfl, rfl⟩ := expect_of_ok ht
  obtain ⟨ss, c, hss, h⟩ := bind_eq_ok_iff.mp h
  obtain ⟨B, r, rfl, ⟨hs, hn, _⟩, rfl, rfl⟩ := hbody.sound hss
  obtain ⟨t, c, ht, h⟩ := bind_eq_ok_iff.mp h
  obtain ⟨rightBrace, r, rfl, rfl, rfl⟩ := expect_of_ok ht
  cases h
  refine ⟨.function w name left P right leftBrace B rightBrace, r, ?_, ⟨hs, hn⟩, rfl, rfl⟩
  simp [StmtDerivation.tokens]

theorem functionTail_complete (hbody : ReadsBody depth body) (w : TypeWord)
    (name : Token.Of .name) (P : Option Parameters) (right : Token.Of .rightParen)
    (leftBrace : Token.Of .leftBrace) (B : StmtDerivation .items)
    (rightBrace : Token.Of .rightBrace) (hs : B.Settled) (hn : B.nesting + 1 ≤ depth) :
    functionTail body w.type name.val
        ⟨parameterTokens P ++ right.val :: leftBrace.val :: (B.tokens ++ rightBrace.val :: r), i, f⟩ =
      .ok (.declareFun name.val.lexeme w.type (parameterTree P) (B.tree i) name.val.location)
        ⟨r, i + B.size, f⟩ := by
  have hread := hbody.complete (D := B) (r := rightBrace.val :: r)
    ⟨hs, hn, .inl rightBrace.property⟩ i f
  simp only [functionTail, bind_of_ok (parameters_complete P right),
    bind_of_ok (expect_of _ _ right _), bind_of_ok (expect_of _ _ leftBrace _), bind_of_ok hread,
    bind_of_ok (expect_of _ _ rightBrace _)]
  rfl

theorem reads_declaration (hx : ReadsOperation BinaryOp.topLevel depth expr)
    (hbody : ReadsBody depth body) : ReadsDeclaration depth (declaration expr body) := by
  intro ts i f ss d
  constructor
  · intro h
    simp only [declaration] at h
    obtain ⟨b, c, hb, h⟩ := bind_eq_ok_iff.mp h
    obtain ⟨w, r, rfl, rfl, rfl⟩ := baseType_of_ok hb
    obtain ⟨t, c, ht, h⟩ := bind_eq_ok_iff.mp h
    obtain ⟨name, r, rfl, rfl, rfl⟩ := expect_of_ok ht
    rcases accept_cases .leftParen (by decide) r i f with ⟨left, r, rfl, hc⟩ | ⟨_, hc⟩
    · rw [bind_of_ok hc] at h
      simp only [↓reduceIte] at h
      obtain ⟨s, c, hs, h⟩ := bind_eq_ok_iff.mp h
      cases h
      exact functionTail_sound hbody w name left hs
    · rw [bind_of_ok hc] at h
      simp only [Bool.false_eq_true, ↓reduceIte, bind_of_ok (remaining_apply _)] at h
      obtain ⟨ss, c, hss, h⟩ := bind_eq_ok_iff.mp h
      obtain ⟨D, s, hD, hs, hn, rfl, rfl⟩ := declarators_sound hx _ name hss
      obtain ⟨t, c, ht, h⟩ := bind_eq_ok_iff.mp h
      obtain ⟨semicolon, r, rfl, rfl, rfl⟩ := expect_of_ok ht
      cases h
      refine ⟨.vars w D semicolon, r, ?_, ⟨hs, hn⟩, rfl, rfl⟩
      simp [StmtDerivation.tokens, hD]
  · rintro ⟨D, r, rfl, ⟨hs, hn⟩, rfl, rfl⟩
    cases D with
    | function w name left P right leftBrace B rightBrace =>
      have hread := functionTail_complete hbody w name P right leftBrace B rightBrace hs hn
        (r := r) (i := i) (f := f)
      simp only [StmtDerivation.tokens, List.cons_append, List.append_assoc, List.nil_append]
      simp only [declaration, bind_of_ok (baseType_word w), bind_of_ok (expect_of _ _ name _),
        bind_of_ok (accept_of _ left _), ↓reduceIte, bind_of_ok hread]
      rfl
    | vars w D semicolon =>
      have hread := declarators_complete w.type hx (r := semicolon.val :: r) (f := f)
        semicolon.property D (D.afterFirst ++ semicolon.val :: r) i hs hn (Nat.le_refl _)
      have hno : accept .leftParen ⟨D.afterFirst ++ semicolon.val :: r, i, f⟩ =
          .ok false ⟨D.afterFirst ++ semicolon.val :: r, i, f⟩ :=
        accept_of_ne (D.afterFirst_ne_leftParen semicolon r)
      simp only [StmtDerivation.tokens, List.cons_append, List.append_assoc, List.nil_append,
        D.tokens_eq]
      simp only [declaration, bind_of_ok (baseType_word w), bind_of_ok (expect_of _ _ D.first _),
        bind_of_ok hno, Bool.false_eq_true, ↓reduceIte, bind_of_ok (remaining_apply _),
        bind_of_ok hread, bind_of_ok (expect_of _ _ semicolon _)]
      rfl

end Declaration

end Grammar
end MiniCheck
