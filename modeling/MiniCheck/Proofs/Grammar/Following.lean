import MiniCheck.Grammar.Reader
import MiniCheck.Proofs.Grammar.CommandReading

/-!
# A reader with a counter does what cursors do

Seen as a cursor, a reader that keeps count of its open nesting levels reads what is read with
that many levels fewer to open. However it ends, it has as many levels open as at the beginning,
and it has not gone back.
-/

namespace MiniCheck
namespace Grammar

open Token (Kind)

namespace Reader

variable (r : Reader)

/-- What a cursor knows of a reader. -/
def cursor : Cursor := ⟨r.tokens.drop r.position, r.nextId, r.finish⟩

theorem head?_rest_cursor : r.cursor.rest.head? = r.current? := List.head?_drop

theorem kind_cursor : r.cursor.kind = r.kind := by
  rw [Cursor.kind, head?_rest_cursor, kind]

theorem location_cursor : r.cursor.location = r.location := by
  rw [Cursor.location, head?_rest_cursor, location]
  rfl

theorem mismatch_cursor (expected : List Kind) (context : String) :
    r.cursor.mismatch expected context = r.mismatch expected context := by
  rw [Cursor.mismatch, mismatch, kind_cursor, location_cursor, Cursor.lexeme, head?_rest_cursor,
    lexeme]

theorem advance_cursor : r.advance.cursor = r.cursor.advance := by
  unfold advance
  split
  · rw [cursor, cursor, Cursor.advance, List.tail_drop]
    rfl
  · rename_i h
    have hrest : r.cursor.rest = [] := List.drop_eq_nil_of_le (Nat.le_of_not_lt h)
    rw [Cursor.advance, hrest, List.tail_nil, ← hrest]

theorem rest_cursor_of_current? {t : Token} (h : r.current? = some t) :
    r.cursor.rest = t :: r.tokens.drop (r.position + 1) := by
  obtain ⟨hlt, ht⟩ := List.getElem?_eq_some_iff.mp h
  rw [← ht]
  exact List.drop_eq_getElem_cons hlt

/-- The reader has not gone beyond its tokens. -/
def Within : Prop := r.position ≤ r.tokens.length

/-- From `r` to `s` nothing but the position and the next number has changed, and the position
has not gone back. -/
structure Onward (r s : Reader) : Prop where
  tokens : s.tokens = r.tokens
  depth : s.depth = r.depth
  position : r.position ≤ s.position
  within : s.Within

namespace Onward

variable {r s t : Reader}

theorem refl (h : r.Within) : Onward r r := ⟨rfl, rfl, Nat.le_refl _, h⟩

theorem trans (h : Onward r s) (h' : Onward s t) : Onward r t :=
  ⟨h'.tokens.trans h.tokens, h'.depth.trans h.depth, Nat.le_trans h.position h'.position, h'.within⟩

theorem advance (h : r.Within) : Onward r r.advance := by
  unfold Reader.advance
  split
  · rename_i hlt
    exact ⟨rfl, rfl, Nat.le_succ _, hlt⟩
  · exact .refl h

/-- A level that is opened and closed again leaves nothing behind. -/
theorem closed (h : Onward r.opened s) : Onward r s.closed := by
  refine ⟨h.tokens, ?_, h.position, h.within⟩
  change s.depth - 1 = r.depth
  rw [h.depth]
  rfl

end Onward
end Reader

/-- The outcome of a reader that began at `r`, and the same outcome seen from a cursor. -/
inductive Agrees {α : Type} (r : Reader) :
    EStateM.Result Mismatch Reader α → EStateM.Result Mismatch Cursor α → Prop
  | ok (a : α) {s : Reader} (h : r.Onward s) : Agrees r (.ok a s) (.ok a s.cursor)
  | error (m : Mismatch) {s : Reader} (h : r.Onward s) : Agrees r (.error m s) (.error m s.cursor)

/-- With `d` levels open, `x` reads what `y` reads. -/
def Follows (d : Nat) {α : Type} (x : Reading α) (y : Parser α) : Prop :=
  ∀ r : Reader, r.Within → r.depth = d → Agrees r (x r) (y r.cursor)

namespace Follows

variable {d : Nat} {α β : Type}

/-! ## Single steps -/

theorem pure (a : α) : Follows d (Pure.pure a) (Pure.pure a) := fun _ hr _ => .ok a (.refl hr)

theorem bind {x : Reading α} {y : Parser α} {g : α → Reading β} {h : α → Parser β}
    (hx : Follows d x y) (hg : ∀ a, Follows d (g a) (h a)) : Follows d (x >>= g) (y >>= h) := by
  intro r hr hd
  have hfirst := hx r hr hd
  rw [Reading.bind_apply, Parser.bind_apply]
  generalize x r = first, y r.cursor = first' at hfirst
  cases hfirst with
  | error m hs => exact .error m hs
  | @ok a s hs =>
    -- What comes next begins with as many levels open as the first part did.
    have hsecond := hg a s hs.within (hs.depth.trans hd)
    change Agrees r (g a s) (h a s.cursor)
    generalize g a s = second, h a s.cursor = second' at hsecond
    cases hsecond with
    | ok b ht => exact .ok b (hs.trans ht)
    | error m ht => exact .error m (hs.trans ht)

theorem map {x : Reading α} {y : Parser α} (hx : Follows d x y) (g : α → β) :
    Follows d (g <$> x) (g <$> y) := by
  have hread : g <$> x = x >>= fun a => Pure.pure (g a) := (bind_pure_comp g x).symm
  have hparse : g <$> y = y >>= fun a => Pure.pure (g a) := (bind_pure_comp g y).symm
  rw [hread, hparse]
  exact hx.bind fun a => .pure (g a)

theorem ite {p : Prop} [Decidable p] {x x' : Reading α} {y y' : Parser α} (hx : Follows d x y)
    (hx' : Follows d x' y') : Follows d (if p then x else x') (if p then y else y') := by
  split
  · exact hx
  · exact hx'

theorem peek : Follows d Reading.peek Parser.peek := by
  intro r hr _
  rw [Parser.peek_apply, r.kind_cursor]
  exact .ok r.kind (.refl hr)

theorem here : Follows d Reading.here Parser.here := by
  intro r hr _
  rw [Parser.here_apply, r.location_cursor]
  exact .ok r.location (.refl hr)

theorem remaining : Follows d Reading.remaining Parser.remaining :=
  fun r hr _ => .ok (r.tokens.drop r.position) (.refl hr)

theorem fail (expected : List Kind) (context : String) :
    Follows d (Reading.fail expected context : Reading α) (Parser.fail expected context) := by
  intro r hr _
  rw [Parser.fail_apply, r.mismatch_cursor]
  exact .error _ (.refl hr)

theorem skip : Follows d Reading.skip Parser.skip := by
  intro r hr _
  rw [Parser.skip_apply, ← r.advance_cursor]
  exact .ok () (.advance hr)

theorem accept (k : Kind) : Follows d (Reading.accept k) (Parser.accept k) := by
  intro r hr _
  unfold Reading.accept Parser.accept
  rw [r.kind_cursor, ← r.advance_cursor]
  split
  · exact .ok true (.advance hr)
  · exact .ok false (.refl hr)

theorem expect (k : Kind) (context : String) :
    Follows d (Reading.expect k context) (Parser.expect k context) := by
  intro r hr _
  unfold Reading.expect Parser.expect
  rw [r.mismatch_cursor]
  cases hcurrent : r.current? with
  | none =>
    have hrest : r.cursor.rest = [] := by
      rw [← List.head?_eq_none_iff, r.head?_rest_cursor, hcurrent]
    rw [hrest]
    exact .error _ (.refl hr)
  | some t =>
    rw [r.rest_cursor_of_current? hcurrent]
    obtain ⟨hlt, _⟩ := List.getElem?_eq_some_iff.mp hcurrent
    by_cases hk : t.kind = k
    · have honward : r.Onward { r with position := r.position + 1 } :=
        ⟨rfl, rfl, Nat.le_succ _, hlt⟩
      simp only [hk, ↓reduceIte]
      exact .ok t honward
    · simp only [hk, ↓reduceIte]
      exact .error _ (.refl hr)

theorem fresh (p : Location) : Follows d (Reading.fresh p) (Parser.fresh p) := by
  intro r hr _
  have honward : r.Onward { r with nextId := r.nextId + 1 } := ⟨rfl, rfl, Nat.le_refl _, hr⟩
  exact .ok (Mark.mk r.nextId p) honward

/-- Inside a level that may be opened, one more is open. -/
theorem nested {x : Reading α} {y : Parser α} (what : String) (hd : d < maxNesting)
    (hx : Follows (d + 1) x y) : Follows d (Reading.nested what x) y := by
  intro r hr hdepth
  have hopen : r.depth < maxNesting := hdepth ▸ hd
  unfold Reading.nested
  rw [if_pos hopen]
  have hinside : Agrees r.opened (x r.opened) (y r.cursor) :=
    hx r.opened hr (congrArg Nat.succ hdepth)
  generalize x r.opened = inside, y r.cursor = inside' at hinside
  cases hinside with
  | ok a hs => exact .ok a hs.closed
  | error m hs => exact .error m hs.closed

/-- Where no level may be opened any more, nothing is read. -/
theorem refused {x : Reading α} (what : String) {context : String}
    (hcontext : what ++ " nested too deeply" = context) :
    Follows maxNesting (Reading.nested what x) (Parser.fail [] context) := by
  intro r hr hdepth
  have hfull : ¬ r.depth < maxNesting := hdepth ▸ Nat.lt_irrefl _
  unfold Reading.nested
  rw [if_neg hfull, hcontext]
  exact Follows.fail [] context r hr hdepth

theorem separated {item : Reading α} {item' : Parser α} (h : Follows d item item')
    (bound : List Token) :
    Follows d (Reading.separated item bound) (Parser.separated item' bound) := by
  induction bound with
  | nil => exact h.bind fun a => .pure [a]
  | cons b bound ih =>
    exact h.bind fun a => (accept .comma).bind fun _ =>
      .ite (ih.bind fun as => .pure (a :: as)) (.pure [a])

theorem optionally {k : Kind} {x : Reading α} {y : Parser α} (h : Follows d x y) :
    Follows d (Reading.optionally k x) (Parser.optionally k y) :=
  (accept k).bind fun _ => .ite (h.map some) (.pure none)

/-! ## Expressions -/

section Expressions

variable {expr item : Reading Expr} {expr' item' : Parser Expr}

theorem chain {n : Nat} (h : Follows d item item') (bound : List Token) (left : Expr) :
    Follows d (Reading.chain n item bound left) (chain n item' bound left) := by
  induction bound generalizing left with
  | nil => exact .pure left
  | cons b bound ih =>
    refine peek.bind fun k => ?_
    cases BinaryOp.atLevel? n k with
    | none => exact .pure left
    | some op =>
      exact here.bind fun p => skip.bind fun _ => h.bind fun right => (fresh p).bind fun m =>
        ih (.binary op left right m)

theorem operation (h : Follows d item item') (n : Nat) :
    Follows d (Reading.operation item n) (operation item' n) := by
  induction n with
  | zero => exact h
  | succ n ih => exact ih.bind fun left => remaining.bind fun ts => ih.chain ts left

theorem arguments (h : Follows d expr expr') :
    Follows d (Reading.arguments expr) (arguments expr') :=
  peek.bind fun _ => .ite (.pure []) (remaining.bind fun ts => h.separated ts)

theorem named (h : Follows d expr expr') : Follows d (Reading.named expr) (named expr') := by
  refine (expect .name _).bind fun name => (accept .equal).bind fun _ => .ite ?_ ?_
  · exact h.bind fun value => (fresh _).bind fun m => .pure (Expr.assign name.lexeme value m)
  · refine (accept .leftParen).bind fun _ => .ite ?_ ?_
    · exact h.arguments.bind fun args => (expect .rightParen _).bind fun _ =>
        (fresh _).bind fun m => .pure (Expr.call name.lexeme args m)
    · exact (fresh _).bind fun m => .pure (Expr.var name.lexeme m)

theorem parenthesized (h : Follows d expr expr') :
    Follows d (Reading.parenthesized expr) (parenthesized expr') :=
  skip.bind fun _ => h.bind fun e => (expect .rightParen _).bind fun _ => .pure e

theorem literal : Follows d Reading.literal literal :=
  (expect .number _).bind fun t => (fresh _).bind fun m => .pure (Expr.number t.lexeme m)

theorem signed (op : UnaryOp) (h : Follows d item item') :
    Follows d (Reading.signed op item) (signed op item') :=
  here.bind fun p => skip.bind fun _ => h.bind fun e => (fresh p).bind fun m =>
    .pure (Expr.unary op e m)

/-- The levels that are open and those that may still be opened are `maxNesting` together. The
recursion never comes to the end of its bound, because the counter is full before that. -/
theorem operand (bound : Nat) : ∀ {d : Nat}, d ≤ maxNesting → maxNesting < d + bound →
    Follows d (Reading.operand bound) (Grammar.operand (maxNesting - d)) := by
  induction bound with
  | zero => exact fun hd hbound => absurd hbound (Nat.not_lt.mpr hd)
  | succ bound ih =>
    intro d hd hbound
    rcases Nat.eq_or_lt_of_le hd with rfl | hlt
    · rw [Nat.sub_self]
      exact .refused "expression" rfl
    · have hbudget : maxNesting - d = (maxNesting - (d + 1)) + 1 := by omega
      have hinner := ih (d := d + 1) hlt (by omega)
      have hexpr := hinner.operation BinaryOp.topLevel
      rw [hbudget]
      refine .nested "expression" hlt (peek.bind fun k => ?_)
      cases k
      case bang => exact hinner.signed .not
      case minus => exact hinner.signed .neg
      case leftParen => exact hexpr.parenthesized
      case number => exact .literal
      case name => exact hexpr.named
      all_goals exact .fail _ _

theorem expression {bound : Nat} (hd : d ≤ maxNesting) (hbound : maxNesting < d + bound) :
    Follows d (Reading.expression bound) (Grammar.expression (maxNesting - d)) :=
  (operand bound hd hbound).operation BinaryOp.topLevel

end Expressions

/-! ## Declarations -/

section Statements

variable {expr : Reading Expr} {expr' : Parser Expr} {decls : Reading (List Stmt)}
  {decls' : Parser (List Stmt)} {stmt : Reading Stmt} {stmt' : Parser Stmt}

theorem baseType : Follows d Reading.baseType baseType := by
  refine peek.bind fun k => ?_
  cases k
  case intWord => exact skip.bind fun _ => .pure BaseType.int
  case floatWord => exact skip.bind fun _ => .pure BaseType.float
  case voidWord => exact skip.bind fun _ => .pure BaseType.void
  all_goals exact .fail _ _

theorem parameter : Follows d Reading.parameter parameter :=
  baseType.bind fun type => (expect .name _).bind fun name =>
    .pure (Param.mk name.lexeme type name.location)

theorem parameters : Follows d Reading.parameters parameters :=
  peek.bind fun _ => .ite (remaining.bind fun ts => parameter.separated ts) (.pure [])

theorem functionTail {body : Reading (List Stmt)} {body' : Parser (List Stmt)}
    (h : Follows d body body') (type : BaseType) (name : Token) :
    Follows d (Reading.functionTail body type name) (functionTail body' type name) :=
  parameters.bind fun params => (expect .rightParen _).bind fun _ =>
    (expect .leftBrace _).bind fun _ => h.bind fun statements =>
      (expect .rightBrace _).bind fun _ =>
        .pure (Stmt.declareFun name.lexeme type params statements name.location)

theorem declarators (h : Follows d expr expr') (type : BaseType) (bound : List Token)
    (name : Token) :
    Follows d (Reading.declarators expr type bound name) (declarators expr' type bound name) := by
  induction bound generalizing name with
  | nil =>
    rw [declarators_nil]
    exact h.optionally.bind fun init =>
      .pure [Stmt.declareVar name.lexeme type init name.location]
  | cons b bound ih =>
    rw [declarators_cons]
    refine h.optionally.bind fun init => (accept .comma).bind fun _ => .ite ?_ ?_
    · exact (expect .name _).bind fun next => (ih next).bind fun rest =>
        .pure (Stmt.declareVar name.lexeme type init name.location :: rest)
    · exact .pure [Stmt.declareVar name.lexeme type init name.location]

theorem declaration {body : Reading (List Stmt)} {body' : Parser (List Stmt)}
    (hexpr : Follows d expr expr') (hbody : Follows d body body') :
    Follows d (Reading.declaration expr body) (Grammar.declaration expr' body') := by
  refine baseType.bind fun type => (expect .name _).bind fun name => (accept .leftParen).bind
    fun _ => .ite ?_ ?_
  · exact (hbody.functionTail type name).bind fun s => .pure [s]
  · exact remaining.bind fun ts => (hexpr.declarators type ts name).bind fun declared =>
      (expect .semicolon _).bind fun _ => .pure declared

/-! ## Statements -/

theorem itemsWithin (hdecl : Follows d decls decls')
    (hstmt : Follows d stmt stmt') (bound : List Token) :
    Follows d (Reading.itemsWithin decls stmt bound)
      (itemsWithin decls' stmt' bound) := by
  induction bound with
  | nil => exact .pure []
  | cons b bound ih =>
    refine peek.bind fun k => remaining.bind fun ts => .ite (.pure []) (.ite ?_ ?_)
    · exact hdecl.bind fun declared => ih.bind fun rest => .pure (declared ++ rest)
    · exact (accept .semicolon).bind fun _ =>
        .ite ih (hstmt.bind fun s => ih.bind fun rest => .pure (s :: rest))

theorem items (hdecl : Follows d decls decls') (hstmt : Follows d stmt stmt') :
    Follows d (Reading.items decls stmt) (items decls' stmt') :=
  remaining.bind fun ts => hdecl.itemsWithin hstmt ts

theorem enclosed (h : Follows d expr expr') (before behind : String) :
    Follows d (Reading.enclosed expr before behind) (enclosed expr' before behind) :=
  (expect .leftParen _).bind fun _ => h.bind fun value => (expect .rightParen _).bind fun _ =>
    .pure value

theorem clause (h : Follows d expr expr') (terminator : Kind) :
    Follows d (Reading.clause expr terminator) (clause expr' terminator) :=
  peek.bind fun _ => .ite
    (here.bind fun p => (fresh p).bind fun m => .pure (Expr.omitted m)) h

theorem ended (h : Follows d expr expr') (terminator : Kind) (context : String) :
    Follows d (Reading.ended expr terminator context) (ended expr' terminator context) :=
  (h.clause terminator).bind fun value => (expect terminator _).bind fun _ => .pure value

theorem branch (hexpr : Follows d expr expr') (hstmt : Follows d stmt stmt')
    (p : Location) : Follows d (Reading.branch expr stmt p) (branch expr' stmt' p) := by
  rw [branch_eq]
  exact skip.bind fun _ => (hexpr.enclosed _ _).bind fun condition => hstmt.bind fun thenBody =>
    hstmt.optionally.bind fun elseBody => .pure (Stmt.branch condition thenBody elseBody p)

theorem whileLoop (hexpr : Follows d expr expr') (hstmt : Follows d stmt stmt')
    (p : Location) :
    Follows d (Reading.whileLoop expr stmt p) (whileLoop expr' stmt' p) := by
  rw [whileLoop_eq]
  exact skip.bind fun _ => (hexpr.enclosed _ _).bind fun condition => hstmt.bind fun body =>
    .pure (Stmt.whileLoop condition body p)

theorem forLoop (hexpr : Follows d expr expr') (hstmt : Follows d stmt stmt')
    (p : Location) : Follows d (Reading.forLoop expr stmt p) (forLoop expr' stmt' p) := by
  rw [forLoop_eq]
  exact skip.bind fun _ => (expect .leftParen _).bind fun _ => (hexpr.ended _ _).bind fun init =>
    (hexpr.ended _ _).bind fun condition => (hexpr.ended _ _).bind fun update =>
      hstmt.bind fun body => .pure (Stmt.forLoop init condition update body p)

theorem ret (h : Follows d expr expr') (p : Location) :
    Follows d (Reading.ret expr p) (ret expr' p) := by
  rw [ret_eq]
  exact skip.bind fun _ => (h.ended _ _).bind fun value => .pure (Stmt.ret value p)

theorem print (h : Follows d expr expr') (p : Location) :
    Follows d (Reading.print expr p) (print expr' p) := by
  rw [print_eq]
  exact skip.bind fun _ => (h.enclosed _ _).bind fun value => (expect .semicolon _).bind fun _ =>
    .pure (Stmt.print value p)

theorem statementWith (hexpr : Follows d expr expr') (hdecl : Follows d decls decls')
    (hstmt : Follows d stmt stmt') :
    Follows d (Reading.statementWith expr decls stmt)
      (statementWith expr' decls' stmt') := by
  refine here.bind fun p => peek.bind fun k => ?_
  cases k
  case intWord => exact hdecl.map _
  case floatWord => exact hdecl.map _
  case voidWord => exact hdecl.map _
  case semicolon =>
    exact skip.bind fun _ => (fresh p).bind fun m => .pure (Stmt.expr (.omitted m) p)
  case leftBrace =>
    exact skip.bind fun _ => (hdecl.items hstmt).bind fun body =>
      (expect .rightBrace _).bind fun _ => .pure (Stmt.block body p)
  case ifWord => exact hexpr.branch hstmt p
  case whileWord => exact hexpr.whileLoop hstmt p
  case forWord => exact hexpr.forLoop hstmt p
  case returnWord => exact hexpr.ret p
  case printWord => exact hexpr.print p
  all_goals
    exact hexpr.bind fun value => (expect .semicolon _).bind fun _ => .pure (Stmt.expr value p)

/-- Statements and the bodies of functions share the budget of expressions. -/
theorem statement_and_body (bound : Nat) : ∀ {d : Nat}, d ≤ maxNesting → maxNesting < d + bound →
    Follows d (Reading.statement bound) (Grammar.statement (maxNesting - d)) ∧
      Follows d (Reading.functionBody bound) (Grammar.functionBody (maxNesting - d)) := by
  induction bound with
  | zero => exact fun hd hbound => absurd hbound (Nat.not_lt.mpr hd)
  | succ bound ih =>
    intro d hd hbound
    rw [Reading.statement, Reading.functionBody]
    rcases Nat.eq_or_lt_of_le hd with rfl | hlt
    · rw [Nat.sub_self, Grammar.statement, Grammar.functionBody]
      exact ⟨.refused "statement" rfl, .refused "function" rfl⟩
    · have hbudget : maxNesting - d = (maxNesting - (d + 1)) + 1 := by omega
      have hinner : maxNesting < d + 1 + bound := by omega
      obtain ⟨hstmt, hbody⟩ := ih hlt hinner
      have hexpr := expression hlt hinner
      have hdecl := hexpr.declaration hbody
      rw [hbudget, Grammar.statement, Grammar.functionBody]
      exact ⟨.nested "statement" hlt (hexpr.statementWith hdecl hstmt),
        .nested "function" hlt (hdecl.items hstmt)⟩

end Statements

/-! ## Programs -/

theorem declarations {declaration : Reading (List Stmt)} {declaration' : Parser (List Stmt)}
    (h : Follows d declaration declaration') (bound : List Token) :
    Follows d (Reading.declarations declaration bound) (declarations declaration' bound) := by
  induction bound with
  | nil => exact .pure []
  | cons b bound ih =>
    exact peek.bind fun k => .ite
      (h.bind fun declared => ih.bind fun rest => .pure (declared ++ rest)) (.pure [])

theorem program : Follows 0 Reading.program Grammar.program := by
  have hbound : maxNesting < 0 + Reading.ample := by decide
  have hdecl := (expression (Nat.zero_le _) hbound).declaration
    (statement_and_body _ (Nat.zero_le _) hbound).2
  exact remaining.bind fun ts => (hdecl.declarations ts).bind fun nodes =>
    remaining.bind fun rest => .ite (.pure nodes) (.fail _ _)

end Follows
end Grammar
end MiniCheck
