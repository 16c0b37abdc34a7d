import MiniCheck.Proofs.Grammar.ProgramReading

/-!
# Where trees point

The place of every node is that of a token which the program was read from: the operator of
an operation, the name of a variable, of an assignment, of a call or of what is declared, the
literal itself, the word `return`. Only what is omitted has no token of its own.
-/

namespace MiniCheck

namespace Token

/-- Some token of `ts` that satisfies `P` stands at `p`. -/
def Stands (ts : List Token) (P : Token → Prop) (p : Location) : Prop :=
  ∃ t ∈ ts, t.location = p ∧ P t

/-- The token is the name `name`. -/
def IsNamed (name : String) (t : Token) : Prop := t.kind = .name ∧ t.lexeme = name

/-- The token is an operand of an expression or stands for an operation in one. -/
def IsInExpression (t : Token) : Prop :=
  t.kind = .name ∨ t.kind = .number ∨ (∃ op : BinaryOp, t.kind = op.sign) ∨
    ∃ op : UnaryOp, t.kind = op.sign

theorem Stands.mono {ts : List Token} {P Q : Token → Prop} {p : Location} (h : Stands ts P p)
    (hPQ : ∀ t, P t → Q t) : Stands ts Q p := by
  obtain ⟨t, ht, hp, hP⟩ := h
  exact ⟨t, ht, hp, hPQ t hP⟩

theorem stands_of_mem {ts : List Token} {k : Kind} {t : Of k} (h : t.val ∈ ts) :
    Stands ts (fun s => s.kind = k) t.val.location :=
  ⟨t.val, h, rfl, t.property⟩

theorem stands_name {ts : List Token} {t : Of .name} (h : t.val ∈ ts) :
    Stands ts (IsNamed t.val.lexeme) t.val.location :=
  ⟨t.val, h, rfl, t.property, rfl⟩

end Token

open Token (Stands IsNamed IsInExpression)

namespace Expr

mutual
/-- Every part of the expression points at a token of `ts` that stands for it. -/
def Anchored (ts : List Token) : Expr → Prop
  | binary op left right m =>
    Stands ts (fun t => t.kind = op.sign) m.location ∧ left.Anchored ts ∧ right.Anchored ts
  | unary op operand m =>
    Stands ts (fun t => t.kind = op.sign) m.location ∧ operand.Anchored ts
  | assign name value m => Stands ts (IsNamed name) m.location ∧ value.Anchored ts
  | var name m => Stands ts (IsNamed name) m.location
  | number lexeme m => Stands ts (fun t => t.kind = .number ∧ t.lexeme = lexeme) m.location
  | omitted _ => False
  | call name args m => Stands ts (IsNamed name) m.location ∧ AllAnchored ts args

def AllAnchored (ts : List Token) : List Expr → Prop
  | [] => True
  | e :: es => e.Anchored ts ∧ AllAnchored ts es
end

/-- The expression is omitted, or it is anchored. -/
def AnchoredClause (ts : List Token) (e : Expr) : Prop := e.isOmitted = true ∨ e.Anchored ts

variable {ts : List Token} {e : Expr}

theorem Anchored.stands (h : e.Anchored ts) : Stands ts IsInExpression e.location := by
  cases e with
  | binary op left right m => exact h.1.mono fun _ hk => .inr (.inr (.inl ⟨op, hk⟩))
  | unary op operand m => exact h.1.mono fun _ hk => .inr (.inr (.inr ⟨op, hk⟩))
  | assign name value m => exact h.1.mono fun _ hn => .inl hn.1
  | var name m => exact Stands.mono h fun _ hn => .inl hn.1
  | number lexeme m => exact Stands.mono h fun _ hn => .inr (.inl hn.1)
  | omitted m => cases h
  | call name args m => exact h.1.mono fun _ hn => .inl hn.1

end Expr

namespace Stmt

mutual
/-- Declarations point at the names that they declare, returns at their first word, and
expressions at tokens of their own. -/
def Anchored (ts : List Token) : Stmt → Prop
  | declareVar name _ init p =>
    Stands ts (IsNamed name) p ∧ ∀ value ∈ init, value.Anchored ts
  | declareFun name _ params body p =>
    Stands ts (IsNamed name) p ∧ (∀ q ∈ params, Stands ts (IsNamed q.name) q.location) ∧
      AllAnchored ts body
  | block body _ => AllAnchored ts body
  | branch e thenBody none _ => e.Anchored ts ∧ thenBody.Anchored ts
  | branch e thenBody (some elseBody) _ =>
    e.Anchored ts ∧ thenBody.Anchored ts ∧ elseBody.Anchored ts
  | whileLoop e body _ => e.Anchored ts ∧ body.Anchored ts
  | forLoop init e update body _ =>
    init.AnchoredClause ts ∧ e.AnchoredClause ts ∧ update.AnchoredClause ts ∧ body.Anchored ts
  | ret value p => Stands ts (fun t => t.kind = .returnWord) p ∧ value.AnchoredClause ts
  | print value _ => value.Anchored ts
  | expr value _ => value.AnchoredClause ts

def AllAnchored (ts : List Token) : List Stmt → Prop
  | [] => True
  | s :: rest => s.Anchored ts ∧ AllAnchored ts rest
end

theorem allAnchored_append {ts : List Token} {ss rest : List Stmt} (h : AllAnchored ts ss)
    (hrest : AllAnchored ts rest) : AllAnchored ts (ss ++ rest) := by
  induction ss with
  | nil => exact hrest
  | cons s ss ih => exact ⟨h.1, ih h.2⟩

end Stmt

namespace Grammar

variable {ts : List Token}

/-! ## Trees of derivations -/

/-- What is derived from the tokens of `ts` is anchored in them. -/
def ExprRule.Anchored (ts : List Token) : (r : ExprRule) → r.Result → Prop
  | .operation _, e => e.Anchored ts
  | .arguments, es => Expr.AllAnchored ts es

theorem ExprDerivation.anchored : ∀ {r : ExprRule} (D : ExprDerivation r) (i : Nat),
    D.tokens ⊆ ts → r.Anchored ts (D.tree i)
  | _, signed _ _ operand, i, h => by
    obtain ⟨hsign, hoperand⟩ := List.cons_subset.mp h
    exact ⟨Token.stands_of_mem hsign, operand.anchored i hoperand⟩
  | _, parenthesized _ inner _, i, h => by
    obtain ⟨_, h⟩ := List.cons_subset.mp h
    exact inner.anchored i (List.append_subset.mp h).1
  | _, number token, _, h => ⟨token.val, h List.mem_cons_self, rfl, token.property, rfl⟩
  | _, assign _ _ value, i, h => by
    obtain ⟨hname, h⟩ := List.cons_subset.mp h
    exact ⟨Token.stands_name hname, value.anchored i (List.cons_subset.mp h).2⟩
  | _, callEmpty _ _ _, _, h => ⟨Token.stands_name (h List.mem_cons_self), trivial⟩
  | _, call _ _ args _, i, h => by
    obtain ⟨hname, h⟩ := List.cons_subset.mp h
    obtain ⟨_, h⟩ := List.cons_subset.mp h
    exact ⟨Token.stands_name hname, args.anchored i (List.append_subset.mp h).1⟩
  | _, var _, _, h => Token.stands_name (h List.mem_cons_self)
  | _, tighter inner, i, h => inner.anchored i h
  | _, binary left _ _ _ right, i, h => by
    obtain ⟨hleft, h⟩ := List.append_subset.mp h
    obtain ⟨hsign, hright⟩ := List.cons_subset.mp h
    exact ⟨Token.stands_of_mem hsign, left.anchored i hleft, right.anchored _ hright⟩
  | _, last arg, i, h => ⟨arg.anchored i h, trivial⟩
  | _, more arg _ rest, i, h => by
    obtain ⟨harg, h⟩ := List.append_subset.mp h
    exact ⟨arg.anchored i harg, rest.anchored _ (List.cons_subset.mp h).2⟩

theorem Clause.anchored (C : Clause) (p : Location) (i : Nat) (h : C.tokens ⊆ ts) :
    (C.tree p i).AnchoredClause ts := by
  cases C with
  | omitted => exact .inl rfl
  | given value => exact .inr (value.anchored i h)

theorem Initializer.anchored (I : Initializer) (i : Nat) (h : I.tokens ⊆ ts) :
    ∀ e ∈ I.tree i, e.Anchored ts := by
  cases I with
  | absent => exact nofun
  | given equal value =>
    intro e he
    cases he
    exact value.anchored i (List.cons_subset.mp h).2

theorem Declarators.anchored (type : BaseType) : ∀ (D : Declarators) (i : Nat),
    D.tokens ⊆ ts → Stmt.AllAnchored ts (D.tree type i)
  | last _ init, i, h => by
    obtain ⟨hname, hinit⟩ := List.cons_subset.mp h
    exact ⟨⟨Token.stands_name hname, init.anchored i hinit⟩, trivial⟩
  | more _ init _ rest, i, h => by
    obtain ⟨hname, h⟩ := List.cons_subset.mp h
    obtain ⟨hinit, h⟩ := List.append_subset.mp h
    exact ⟨⟨Token.stands_name hname, init.anchored i hinit⟩,
      rest.anchored type _ (List.cons_subset.mp h).2⟩

theorem Parameters.anchored : ∀ P : Parameters, P.tokens ⊆ ts →
    ∀ q ∈ P.tree, Stands ts (IsNamed q.name) q.location
  | last _ _, h, q, hq => by
    cases List.mem_singleton.mp hq
    exact Token.stands_name (h (by simp [tokens]))
  | more _ _ _ rest, h, q, hq => by
    obtain ⟨_, h⟩ := List.cons_subset.mp h
    obtain ⟨hname, h⟩ := List.cons_subset.mp h
    rcases List.mem_cons.mp hq with rfl | hq
    · exact Token.stands_name hname
    · exact rest.anchored (List.cons_subset.mp h).2 q hq

theorem parameterTree_anchored (P : Option Parameters) (h : parameterTokens P ⊆ ts) :
    ∀ q ∈ parameterTree P, Stands ts (IsNamed q.name) q.location := by
  cases P with
  | none => exact nofun
  | some P => exact P.anchored h

theorem declared_anchored {ss : List Stmt} (h : Stmt.AllAnchored ts ss) (p : Location) :
    (declared p ss).Anchored ts := by
  cases ss with
  | nil => exact h
  | cons s rest =>
    cases rest with
    | nil => exact h.1
    | cons s' rest => exact h

def StmtRule.Anchored (ts : List Token) : (r : StmtRule) → r.Result → Prop
  | .statement, s | .command, s => s.Anchored ts
  | .items, ss | .declaration, ss | .program, ss => Stmt.AllAnchored ts ss

theorem StmtDerivation.anchored : ∀ {r : StmtRule} (D : StmtDerivation r) (i : Nat),
    D.tokens ⊆ ts → r.Anchored ts (D.tree i)
  | _, declared declaration, i, h => declared_anchored (declaration.anchored i h) _
  | _, empty _, _, _ => .inl rfl
  | _, command inner, i, h => inner.anchored i h
  | _, block _ body _, i, h => by
    obtain ⟨_, h⟩ := List.cons_subset.mp h
    exact body.anchored i (List.append_subset.mp h).1
  | _, branch _ _ condition _ thenBody, i, h => by
    simp only [tokens, List.cons_subset, List.append_subset] at h
    obtain ⟨_, _, hcondition, _, hthen⟩ := h
    exact ⟨condition.anchored i hcondition, thenBody.anchored _ hthen⟩
  | _, branchElse _ _ condition _ thenBody _ elseBody, i, h => by
    simp only [tokens, List.cons_subset, List.append_subset] at h
    obtain ⟨_, _, hcondition, _, hthen, _, helse⟩ := h
    exact ⟨condition.anchored i hcondition, thenBody.anchored _ hthen, elseBody.anchored _ helse⟩
  | _, whileLoop _ _ condition _ body, i, h => by
    simp only [tokens, List.cons_subset, List.append_subset] at h
    obtain ⟨_, _, hcondition, _, hbody⟩ := h
    exact ⟨condition.anchored i hcondition, body.anchored _ hbody⟩
  | _, forLoop _ _ init _ condition _ update _ body, i, h => by
    simp only [tokens, List.cons_subset, List.append_subset] at h
    obtain ⟨_, _, hinit, _, hcondition, _, hupdate, _, hbody⟩ := h
    exact ⟨init.anchored _ i hinit, condition.anchored _ _ hcondition,
      update.anchored _ _ hupdate, body.anchored _ hbody⟩
  | _, ret _ value _, i, h => by
    obtain ⟨hword, h⟩ := List.cons_subset.mp h
    exact ⟨Token.stands_of_mem hword, value.anchored _ i (List.append_subset.mp h).1⟩
  | _, print _ _ value _ _, i, h => by
    simp only [tokens, List.cons_subset, List.append_subset] at h
    exact value.anchored i h.2.2.1
  | _, expr value _, i, h => .inr (value.anchored i (List.append_subset.mp h).1)
  | _, nil, _, _ => trivial
  | _, cons (declared declaration) rest, i, h => by
    obtain ⟨hfirst, hrest⟩ := List.append_subset.mp h
    exact Stmt.allAnchored_append (declaration.anchored i hfirst) (rest.anchored _ hrest)
  | _, cons (empty _) rest, i, h => rest.anchored i (List.cons_subset.mp h).2
  | _, cons (command inner) rest, i, h => by
    obtain ⟨hfirst, hrest⟩ := List.append_subset.mp h
    exact ⟨inner.anchored i hfirst, rest.anchored _ hrest⟩
  | _, function _ _ _ params _ _ body _, i, h => by
    simp only [tokens, List.cons_subset, List.append_subset] at h
    obtain ⟨_, hname, _, hparams, _, _, hbody, _⟩ := h
    exact ⟨⟨Token.stands_name hname, parameterTree_anchored params hparams,
      body.anchored i hbody⟩, trivial⟩
  | _, vars type names _, i, h => by
    obtain ⟨_, h⟩ := List.cons_subset.mp h
    exact names.anchored type.type i (List.append_subset.mp h).1
  | _, done, _, _ => trivial
  | _, next first rest, i, h => by
    obtain ⟨hfirst, hrest⟩ := List.append_subset.mp h
    exact Stmt.allAnchored_append (first.anchored i hfirst) (rest.anchored _ hrest)

end Grammar

/-- A program is anchored in the tokens that it was read from. -/
theorem Program.anchored_of_ofTokens {ts : List Token} {p : Program} (h : ofTokens ts = .ok p) :
    Stmt.AllAnchored ts p := by
  obtain ⟨D, rfl, _, _, rfl⟩ := ofTokens_eq_ok_iff.mp h
  exact D.anchored 0 (List.Subset.refl _)

end MiniCheck
