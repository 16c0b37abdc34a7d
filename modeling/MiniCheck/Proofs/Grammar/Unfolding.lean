import MiniCheck.Proofs.Grammar.Comparing

/-!
# Bounds that make no difference

The recursion of a reader is bounded by a number, and its loops by a list of tokens. Both are long
enough wherever the reader is: with them, each procedure does what its own body says.
-/

namespace MiniCheck
namespace Grammar

open Token (Kind)
open Reader (Past PastAt)

namespace Reading

/-- What an operand reads that has neither sign nor level. -/
def primary (expr : Reading Expr) : Reading Expr := do
  match ← peek with
  | .leftParen => parenthesized expr
  | .number => literal
  | .name => named expr
  | _ => fail [.leftParen, .number, .bang, .minus, .name] "to start an expression"

/-- What an operand reads inside its level. -/
def prefixed (bound : Nat) : Reading Expr := do
  match ← peek with
  | .bang => signed .not (operand bound)
  | .minus => signed .neg (operand bound)
  | .leftParen => parenthesized (expression bound)
  | .number => literal
  | .name => named (expression bound)
  | _ => fail [.leftParen, .number, .bang, .minus, .name] "to start an expression"

/-- What calls do with bounds that are large enough. -/
def bounded : Calling
  | .program => program
  | .declarations => do
    declarations (declaration (expression ample) (functionBody ample)) (← remaining)
  | .declaration => declaration (expression ample) (functionBody ample)
  | .baseType => baseType
  | .functionTail type name => functionTail (functionBody ample) type name
  | .parameterList => parameters
  | .parameters => do separated parameter (← remaining)
  | .variableTail type name =>
    endedBy (do declarators (expression ample) type (← remaining) name) .semicolon
      "after variable declaration"
  | .declarators type name => do declarators (expression ample) type (← remaining) name
  | .items => items (declaration (expression ample) (functionBody ample)) (statement ample)
  | .statement => statement ample
  | .command =>
    statementWith (expression ample) (declaration (expression ample) (functionBody ample))
      (statement ample)
  | .branch p => branch (expression ample) (statement ample) p
  | .whileLoop p => whileLoop (expression ample) (statement ample) p
  | .forLoop p => forLoop (expression ample) (statement ample) p
  | .ret p => ret (expression ample) p
  | .print p => print (expression ample) p
  | .clause terminator => clause (expression ample) terminator
  | .level n => operation (operand ample) n
  | .chain n left => do chain (n + 1) (operation (operand ample) n) (← remaining) left
  | .operand => operand ample
  | .prefixed => prefixed ample
  | .primary => primary (expression ample)
  | .argumentList => arguments (expression ample)
  | .arguments => do separated (expression ample) (← remaining)

end Reading

open Reading (body bounded ample)

/-! ## Bounded readers and cursors -/

section Cursors

variable {d bound : Nat}

theorem lt_add_ample (d : Nat) : maxNesting < d + ample :=
  Nat.lt_of_lt_of_le (Nat.lt_succ_self _) (Nat.le_add_left _ _)

theorem follows_declaration (hd : d ≤ maxNesting) (hbound : maxNesting < d + bound) :
    Follows d (Reading.declaration (Reading.expression bound) (Reading.functionBody bound))
      (declaration (expression (maxNesting - d)) (functionBody (maxNesting - d))) :=
  (Follows.expression hd hbound).declaration (Follows.statement_and_body bound hd hbound).2

theorem follows_prefixed (hd : d ≤ maxNesting) (hbound : maxNesting < d + bound) :
    Follows d (Reading.prefixed bound) (operand (maxNesting - d + 1)) := by
  have hoperand := Follows.operand bound hd hbound
  have hexpr := Follows.expression hd hbound
  refine Follows.peek.bind fun k => ?_
  cases k
  case bang => exact hoperand.signed .not
  case minus => exact hoperand.signed .neg
  case leftParen => exact hexpr.parenthesized
  case number => exact .literal
  case name => exact hexpr.named
  all_goals exact .fail _ _

theorem exists_follows_primary {expr : Reading Expr} {expr' : Parser Expr}
    (h : Follows d expr expr') : ∃ y, Follows d (Reading.primary expr) y := by
  let next : Kind → Parser Expr
    | .leftParen => parenthesized expr'
    | .number => literal
    | .name => named expr'
    | _ => Parser.fail [.leftParen, .number, .bang, .minus, .name] "to start an expression"
  refine ⟨Parser.peek >>= next, Follows.peek.bind fun k => ?_⟩
  cases k
  case leftParen => exact h.parenthesized
  case number => exact .literal
  case name => exact h.named
  all_goals exact .fail _ _

theorem follows_command (hd : d ≤ maxNesting) (hbound : maxNesting < d + bound) :
    Follows d (Reading.statementWith (Reading.expression bound)
        (Reading.declaration (Reading.expression bound) (Reading.functionBody bound))
        (Reading.statement bound))
      (statementWith (expression (maxNesting - d))
        (declaration (expression (maxNesting - d)) (functionBody (maxNesting - d)))
        (statement (maxNesting - d))) :=
  (Follows.expression hd hbound).statementWith (follows_declaration hd hbound)
    (Follows.statement_and_body bound hd hbound).1

theorem follows_items (hd : d ≤ maxNesting) (hbound : maxNesting < d + bound) :
    Follows d (Reading.items
        (Reading.declaration (Reading.expression bound) (Reading.functionBody bound))
        (Reading.statement bound))
      (items (declaration (expression (maxNesting - d)) (functionBody (maxNesting - d)))
        (statement (maxNesting - d))) :=
  (follows_declaration hd hbound).items (Follows.statement_and_body bound hd hbound).1

theorem exists_follows (hd : d ≤ maxNesting) (p : Procedure) :
    ∃ y : Parser p.Answer, Follows d (bounded p) y := by
  have hbound := lt_add_ample d
  have hexpr := Follows.expression hd hbound
  have hdecl := follows_declaration hd hbound
  obtain ⟨hstmt, hbody⟩ := Follows.statement_and_body ample hd hbound
  have hoperand := Follows.operand ample hd hbound
  cases p with
  | program =>
    exact ⟨_, Follows.remaining.bind fun ts => (hdecl.declarations ts).bind fun nodes =>
      Follows.remaining.bind fun rest => .ite (.pure nodes) (.fail _ _)⟩
  | declarations => exact ⟨_, Follows.remaining.bind fun ts => hdecl.declarations ts⟩
  | declaration => exact ⟨_, hdecl⟩
  | baseType => exact ⟨_, .baseType⟩
  | functionTail type name => exact ⟨_, hbody.functionTail type name⟩
  | parameterList => exact ⟨_, .parameters⟩
  | parameters => exact ⟨_, Follows.remaining.bind fun ts => Follows.parameter.separated ts⟩
  | variableTail type name =>
    exact ⟨_, (Follows.remaining.bind fun ts => hexpr.declarators type ts name).bind
      fun declared => (Follows.expect .semicolon _).bind fun _ => .pure declared⟩
  | declarators type name =>
    exact ⟨_, Follows.remaining.bind fun ts => hexpr.declarators type ts name⟩
  | items => exact ⟨_, hdecl.items hstmt⟩
  | statement => exact ⟨_, hstmt⟩
  | command => exact ⟨_, hexpr.statementWith hdecl hstmt⟩
  | branch p => exact ⟨_, hexpr.branch hstmt p⟩
  | whileLoop p => exact ⟨_, hexpr.whileLoop hstmt p⟩
  | forLoop p => exact ⟨_, hexpr.forLoop hstmt p⟩
  | ret p => exact ⟨_, hexpr.ret p⟩
  | print p => exact ⟨_, hexpr.print p⟩
  | clause terminator => exact ⟨_, hexpr.clause terminator⟩
  | level n => exact ⟨_, hoperand.operation n⟩
  | chain n left =>
    exact ⟨_, Follows.remaining.bind fun ts => (hoperand.operation n).chain ts left⟩
  | operand => exact ⟨_, hoperand⟩
  | prefixed => exact ⟨_, follows_prefixed hd hbound⟩
  | primary => exact exists_follows_primary hexpr
  | argumentList => exact ⟨_, hexpr.arguments⟩
  | arguments => exact ⟨_, Follows.remaining.bind fun ts => hexpr.separated ts⟩

end Cursors

/-! ## One turn of each loop -/

section Loops

variable {d n : Nat} {ts : List Token} {α ι : Type} (loop : List Token → ι → Reading α)
  (loop' : List Token → ι → Parser α)

/-- A list bounds a loop in the same way as the tokens that are left, if it is not shorter. -/
theorem alike_loop (h : ∀ bound i, Follows d (loop bound i) (loop' bound i))
    (hloop : ∀ i bound bound' c, c.rest.length ≤ bound.length → c.rest.length ≤ bound'.length →
      loop' bound i c = loop' bound' i c) {bound : List Token} (hbound : ts.length ≤ bound.length)
    (i : ι) :
    Alike (Past ts d n) (loop bound i) (Reading.remaining >>= fun rest => loop rest i) := by
  intro r hr
  have hrun : (Reading.remaining >>= fun rest => loop rest i) r =
      loop (r.tokens.drop r.position) i r := Reading.bind_apply _ _ _
  have hagrees := h (r.tokens.drop r.position) i r hr.within hr.depth
  have hleft : (r.tokens.drop r.position).length ≤ bound.length := by
    rw [List.length_drop, hr.tokens]
    omega
  rw [hrun]
  refine ⟨?_, hagrees.onward⟩
  have hsame := hloop i bound (r.tokens.drop r.position) r.cursor hleft (Nat.le_refl _)
  rw [← hsame] at hagrees
  exact (h bound i r hr.within hr.depth).unique hagrees

/-- A loop is one turn of it, and then the loop again. -/
theorem alike_turn (h : ∀ bound i, Follows d (loop bound i) (loop' bound i))
    (hloop : ∀ i bound bound' c, c.rest.length ≤ bound.length → c.rest.length ≤ bound'.length →
      loop' bound i c = loop' bound' i c) (turn : (ι → Reading α) → ι → Reading α)
    (hturn : ∀ b bound i, loop (b :: bound) i = turn (loop bound) i)
    (hothers : ∀ {x y : ι → Reading α}, (∀ i, Alike (Past ts d (n + 1)) (x i) (y i)) →
      ∀ i, Alike (Past ts d n) (turn x i) (turn y i)) (i : ι) :
    Alike (Past ts d n) (turn (fun i => Reading.remaining >>= fun rest => loop rest i) i)
      (Reading.remaining >>= fun rest => loop rest i) := by
  -- One turn more than there are tokens is long enough, and leaves a bound that is so too.
  let t : Token := ⟨.eof, "", .first⟩
  have hlonger : ts.length ≤ (t :: ts).length := Nat.le_succ _
  have hfirst : Alike (Past ts d n) (turn (loop ts) i) _ :=
    hturn t ts i ▸ alike_loop loop loop' h hloop hlonger i
  exact (hothers (fun i => (alike_loop loop loop' h hloop (Nat.le_refl _) i).symm) i).trans hfirst

end Loops

section Unfolding

variable {d n : Nat} {ts : List Token}

theorem alike_list {α : Type} {item : Reading α} {item' : Parser α} (h : Follows d item item')
    (hlocal : Local item') :
    Alike (Past ts d n) (Reading.separatedWith item (Reading.remaining >>= Reading.separated item))
      (Reading.remaining >>= Reading.separated item) :=
  alike_turn (fun bound (_ : Unit) => Reading.separated item bound)
    (fun bound _ => Parser.separated item' bound) (fun bound _ => h.separated bound)
    (fun _ bound bound' c => separated_bound hlocal bound bound' c)
    (fun others _ => Reading.separatedWith item (others ())) (fun _ _ _ => rfl)
    (fun hothers _ => h.alike.separatedWith (hothers ())) ()

theorem functionBody_ample :
    Reading.functionBody ample = Reading.nested "function" (Reading.items
      (Reading.declaration (Reading.expression maxNesting) (Reading.functionBody maxNesting))
      (Reading.statement maxNesting)) := by
  rw [ample, Reading.functionBody]

theorem statement_ample :
    Reading.statement ample = Reading.nested "statement" (Reading.statementWith
      (Reading.expression maxNesting)
      (Reading.declaration (Reading.expression maxNesting) (Reading.functionBody maxNesting))
      (Reading.statement maxNesting)) := by
  rw [ample, Reading.statement]

/-- Calls that are bounded by enough do what their own bodies say. -/
theorem unfolds (hd : d ≤ maxNesting) (p : Procedure) :
    Alike (Past ts d n) (body bounded p) (bounded p) := by
  obtain ⟨y, hy⟩ := exists_follows hd p
  have hbound := lt_add_ample d
  have hbound' : maxNesting < d + 1 + maxNesting := by omega
  -- Without a loop or a level of its own, a procedure is written with bounds as it is without.
  have of_eq : body bounded p = bounded p → Alike (Past ts d n) (body bounded p) (bounded p) := by
    intro heq
    rw [heq]
    exact hy.alike
  have hexpr := Follows.expression hd hbound
  have hdecl := follows_declaration hd hbound
  obtain ⟨hstmt, hbody⟩ := Follows.statement_and_body ample hd hbound
  have hoperand := Follows.operand ample hd hbound
  have hadvances := advances_declaration (maxNesting - d)
  cases p with
  | program =>
    refine of_eq ?_
    simp only [body, bounded, Reading.program, bind_assoc]
  | declarations =>
    exact alike_turn (fun bound (_ : Unit) => Reading.declarations _ bound)
      (fun bound _ => declarations _ bound) (fun bound _ => hdecl.declarations bound)
      (fun _ bound bound' c => declarations_bound hadvances bound bound' c)
      (fun others _ => Reading.declarationsWith _ (others ())) (fun _ _ _ => rfl)
      (fun hothers _ => hdecl.alike.declarationsWith (hdecl.forward hadvances) (hothers ())) ()
  | declaration =>
    refine of_eq ?_
    simp only [body, bounded, Reading.declaration, bind_assoc, Reading.endedBy]
  | baseType => exact of_eq rfl
  | functionTail type name =>
    refine Follows.parameters.alike.next fun _ => .expect_bind fun _ => .expect_bind fun _ =>
      Alike.next ?_ fun _ => .expect_bind fun _ => .pure _
    rw [functionBody_ample]
    exact .nested fun hlt => (follows_items hlt (lt_add_ample _)).alike_of
      (follows_items hlt hbound')
  | parameterList => exact of_eq rfl
  | parameters => exact alike_list .parameter .parameter
  | variableTail type name => exact of_eq rfl
  | declarators type name =>
    exact alike_turn (fun bound name => Reading.declarators _ type bound name)
      (fun bound name => declarators _ type bound name)
      (fun bound name => hexpr.declarators type bound name)
      (fun name bound bound' c => declarators_bound (Local.expression _) bound bound' name c)
      (fun others name => Reading.declaratorsWith _ type others name) (fun _ _ _ => rfl)
      (fun hothers name => hexpr.alike.declaratorsWith hothers name) name
  | items =>
    exact alike_turn (fun bound (_ : Unit) => Reading.itemsWithin _ _ bound)
      (fun bound _ => itemsWithin _ _ bound) (fun bound _ => hdecl.itemsWithin hstmt bound)
      (fun _ bound bound' c => itemsWithin_bound hadvances (advances_statement _) bound bound' c)
      (fun others _ => Reading.itemsWith _ _ (others ())) (fun _ _ _ => rfl)
      (fun hothers _ => hdecl.alike.itemsWith (hdecl.forward hadvances) hstmt.alike
        (hstmt.forward (advances_statement _)) (hothers ())) ()
  | statement =>
    change Alike _ _ (Reading.statement ample)
    rw [statement_ample]
    exact .nested fun hlt => (follows_command hlt (lt_add_ample _)).alike_of
      (follows_command hlt hbound')
  | command =>
    refine .here_bind fun p => .peek_bind fun k => ?_
    cases k
    case intWord => exact (hdecl.alike.map _).at_kind
    case floatWord => exact (hdecl.alike.map _).at_kind
    case voidWord => exact (hdecl.alike.map _).at_kind
    case semicolon => exact (Alike.skip_bind fun _ => .fresh_bind fun _ => .pure _).at_kind
    case leftBrace =>
      refine (Alike.skip_bind fun _ => ?_).at_kind
      simp only [Reading.endedBy, bind_assoc, pure_bind]
      exact (hdecl.items hstmt).alike.next fun _ => .expect_bind fun _ => .pure _
    case ifWord => exact (hexpr.branch hstmt p).alike.at_kind
    case whileWord => exact (hexpr.whileLoop hstmt p).alike.at_kind
    case forWord => exact (hexpr.forLoop hstmt p).alike.at_kind
    case returnWord => exact (hexpr.ret p).alike.at_kind
    case printWord => exact (hexpr.print p).alike.at_kind
    all_goals
      simp only [Reading.endedBy, bind_assoc, pure_bind]
      exact (hexpr.alike.next fun _ => .expect_bind fun _ => .pure _).at_kind
  | branch p => exact of_eq rfl
  | whileLoop p => exact of_eq rfl
  | forLoop p => exact of_eq rfl
  | ret p => exact of_eq rfl
  | print p => exact of_eq rfl
  | clause terminator => exact of_eq rfl
  | level k =>
    refine of_eq ?_
    obtain ⟨k, hk⟩ := k
    cases k with
    | zero => rfl
    | succ k => rfl
  | chain k left =>
    have hlevel := hoperand.operation k
    exact alike_turn (fun bound left => Reading.chain (k + 1) _ bound left)
      (fun bound left => chain (k + 1) _ bound left)
      (fun bound left => hlevel.chain bound left)
      (fun left bound bound' c => chain_bound ((Local.operand _).operation k) bound bound' left c)
      (fun others left => Reading.chainWith (k + 1) _ others left) (fun _ _ _ => rfl)
      (fun hothers left => hlevel.alike.chainWith hothers left) left
  | operand =>
    exact .nested fun hlt => (follows_prefixed hlt (lt_add_ample _)).alike_of
      (follows_prefixed hlt hbound')
  | prefixed =>
    refine .peek_bind fun k => ?_
    cases k
    case bang => exact (hoperand.signed .not).alike.at_kind
    case minus => exact (hoperand.signed .neg).alike.at_kind
    case leftParen => exact .peek_at hexpr.parenthesized.alike.at_kind
    case number => exact .peek_at Follows.literal.alike.at_kind
    case name => exact .peek_at hexpr.named.alike.at_kind
    all_goals exact .peek_at (Alike.fail _ _).at_kind
  | primary =>
    refine .peek_bind fun k => ?_
    cases k
    case leftParen => exact hexpr.parenthesized.alike.at_kind
    case number => exact Follows.literal.alike.at_kind
    case name =>
      have hnamed : Alike (Past ts d n) (Reading.named _) _ := hexpr.named.alike
      simp only [Reading.named, Reading.endedBy, bind_assoc, pure_bind] at hnamed ⊢
      exact hnamed.at_kind
    all_goals exact (Alike.fail _ _).at_kind
  | argumentList => exact of_eq rfl
  | arguments => exact alike_list hexpr (Local.expression _)

end Unfolding
end Grammar
end MiniCheck
