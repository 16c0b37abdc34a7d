import MiniCheck.Proofs.Grammar.DeclarationReading

/-!
# Reading commands

A command is a statement that is neither a declaration nor a semicolon alone. It is read
exactly where a settled derivation that fits into the budget of nesting levels can be taken
off the front, such that no `else` follows that would belong to it.
-/

namespace MiniCheck

namespace Token.Kind

/-- Whether tokens of this kind stand at the front of statements that are neither
declarations nor a semicolon alone. -/
def beginsCommand (k : Kind) : Bool :=
  k.opens || k = leftBrace || k = ifWord || k = whileWord || k = forWord || k = returnWord ||
    k = printWord

theorem isType_of_beginsCommand {k : Kind} (h : k.beginsCommand = true) : k.isType = false := by
  cases k <;> first | rfl | exact absurd h (by decide)

theorem ne_semicolon_of_beginsCommand {k : Kind} (h : k.beginsCommand = true) : k ≠ semicolon := by
  rintro rfl
  exact absurd h (by decide)

end Token.Kind

namespace Grammar

open Token (Kind)
open Grammar.Parser

namespace StmtDerivation

theorem beginsCommand_headKind (ts : List Token) :
    ∀ D : StmtDerivation .command, (headKind (D.tokens ++ ts)).beginsCommand = true
  | block left _ _ => by
    simp only [tokens, List.cons_append, headKind_cons, left.property]
    rfl
  | branch word _ _ _ _ => by
    simp only [tokens, List.cons_append, headKind_cons, word.property]
    rfl
  | branchElse word _ _ _ _ _ _ => by
    simp only [tokens, List.cons_append, headKind_cons, word.property]
    rfl
  | whileLoop word _ _ _ _ => by
    simp only [tokens, List.cons_append, headKind_cons, word.property]
    rfl
  | forLoop word _ _ _ _ _ _ _ _ => by
    simp only [tokens, List.cons_append, headKind_cons, word.property]
    rfl
  | ret word _ _ => by
    simp only [tokens, List.cons_append, headKind_cons, word.property]
    rfl
  | print word _ _ _ _ => by
    simp only [tokens, List.cons_append, headKind_cons, word.property]
    rfl
  | expr value semicolon => by
    have hopens := value.opens_headKind (semicolon.val :: ts)
    simp only [tokens, List.append_assoc, List.cons_append, List.nil_append, Kind.beginsCommand,
      hopens, Bool.true_or]

theorem isType_headKind (ts : List Token) :
    ∀ D : StmtDerivation .declaration, (headKind (D.tokens ++ ts)).isType = true
  | function type _ _ _ _ _ _ _ => Grammar.isType_headKind type _
  | vars type _ _ => Grammar.isType_headKind type _

theorem tokens_ne_nil_of_command (D : StmtDerivation .command) : D.tokens ≠ [] := by
  intro h
  have hhead := D.beginsCommand_headKind []
  rw [h] at hhead
  exact absurd hhead (by decide)

/-- A statement is told from a declaration and from a semicolon by its first token. -/
theorem exists_command {ts : List Token} (D : StmtDerivation .statement)
    (htype : (headKind (D.tokens ++ ts)).isType = false)
    (hsemicolon : headKind (D.tokens ++ ts) ≠ .semicolon) : ∃ C, D = command C :=
  match D with
  | declared declaration => by
    have hhead : (headKind ((declared declaration).tokens ++ ts)).isType = true :=
      declaration.isType_headKind ts
    rw [hhead] at htype
    exact absurd htype (by decide)
  | empty semicolon => absurd semicolon.property hsemicolon
  | command C => ⟨C, rfl⟩

theorem tokens_ne_nil_of_declaration (D : StmtDerivation .declaration) : D.tokens ≠ [] := by
  cases D <;> simp [tokens]

/-- No list of statements begins with `else`, so one that follows never belongs to a
statement in a list. -/
theorem headKind_ne_else {r : List Token} (hr : ListEnds r) :
    ∀ D : StmtDerivation .items, headKind (D.tokens ++ r) ≠ .elseWord
  | nil => by
    rintro h
    change headKind r = .elseWord at h
    rcases hr with hr | rfl
    · rw [hr] at h
      exact absurd h (by decide)
    · exact absurd h (by decide)
  | cons (declared declaration) rest => by
    intro h
    have hhead := declaration.isType_headKind (rest.tokens ++ r)
    simp only [tokens, List.append_assoc] at h
    rw [h] at hhead
    exact absurd hhead (by decide)
  | cons (empty semicolon) rest => by
    simp [tokens]
  | cons (command inner) rest => by
    intro h
    have hhead := inner.beginsCommand_headKind (rest.tokens ++ r)
    simp only [tokens, List.append_assoc] at h
    rw [h] at hhead
    exact absurd hhead (by decide)

/-- What a reader of statements with a budget of `depth` levels takes off in front of `r`. -/
structure Admitted (depth : Nat) {rule : StmtRule} (D : StmtDerivation rule) (r : List Token) :
    Prop where
  settled : D.Settled
  nesting : D.nesting ≤ depth
  dangles : D.dangles = true → headKind r ≠ .elseWord

theorem Admitted.of_closed {depth : Nat} {rule : StmtRule} {D : StmtDerivation rule}
    {r : List Token} (hs : D.Settled) (hn : D.nesting ≤ depth) (hclosed : D.dangles = false) :
    D.Admitted depth r := by
  refine ⟨hs, hn, ?_⟩
  intro hdangles
  rw [hclosed] at hdangles
  cases hdangles

end StmtDerivation

abbrev ReadsStatement (depth : Nat) (x : Parser Stmt) : Prop :=
  Reads (fun D : StmtDerivation .statement => D.tokens) (fun D => D.size) (fun D => D.tree)
    (fun D => D.Admitted depth) x

abbrev ReadsItems (depth : Nat) (x : Parser (List Stmt)) : Prop :=
  Reads (fun D : StmtDerivation .items => D.tokens) (fun D => D.size) (fun D => D.tree)
    (fun D r => D.Settled ∧ D.nesting ≤ depth ∧ ListEnds r) x

/-! ## Clauses -/

section Clauses

variable {depth : Nat} {expr : Parser Expr} {k : Kind} {ts r : List Token} {i : Nat}
  {f : Location} {c d : Cursor}

/-- A clause that is read up to its terminator is the expression in front of it or omitted. -/
theorem clause_sound (hx : ReadsOperation BinaryOp.topLevel depth expr) (hk : k ≠ .eof)
    {context : String} {e : Expr} {t : Token} (h : clause expr k ⟨ts, i, f⟩ = .ok e c)
    (ht : expect k context c = .ok t d) :
    ∃ (C : Clause) (last : Token.Of k) (r : List Token), ts = C.tokens ++ last.val :: r ∧
      C.Settled ∧ C.nesting ≤ depth ∧ e = C.tree last.val.location i ∧
        d = ⟨r, i + C.size, f⟩ := by
  simp only [clause, bind_of_ok (peek_apply _)] at h
  by_cases hhead : headKind ts = k
  · obtain ⟨last, r, rfl⟩ := exists_of_headKind hhead hk
    simp only [Cursor.kind_mk, hhead, ↓reduceIte] at h
    cases h
    rw [expect_of] at ht
    cases ht
    exact ⟨.omitted, last, r, rfl, trivial, Nat.zero_le _, rfl, rfl⟩
  · simp only [Cursor.kind_mk, hhead, ↓reduceIte] at h
    obtain ⟨D, s, rfl, hD, rfl, rfl⟩ := hx.sound h
    obtain ⟨last, r, rfl, rfl, rfl⟩ := expect_of_ok ht
    exact ⟨.given D, last, r, rfl, hD.settled, hD.nesting, rfl, rfl⟩

theorem clause_complete (hx : ReadsOperation BinaryOp.topLevel depth expr) (C : Clause)
    (last : Token.Of k) (hopens : k.opens = false) (hcloses : k.closes = true) (hs : C.Settled)
    (hn : C.nesting ≤ depth) (i : Nat) :
    clause expr k ⟨C.tokens ++ last.val :: r, i, f⟩ =
      .ok (C.tree last.val.location i) ⟨last.val :: r, i + C.size, f⟩ := by
  simp only [clause, bind_of_ok (peek_apply _)]
  cases C with
  | omitted =>
    have hhead : Cursor.kind ⟨last.val :: r, i, f⟩ = k := last.property
    simp only [Clause.tokens, List.nil_append, hhead, ↓reduceIte]
    rfl
  | given value =>
    have hne : headKind (value.tokens ++ last.val :: r) ≠ k := by
      intro hk
      have hhead := value.opens_headKind (last.val :: r)
      rw [hk, hopens] at hhead
      exact absurd hhead (by decide)
    simp only [Clause.tokens, Cursor.kind_mk, hne, ↓reduceIte]
    exact hx.complete (D := value)
      (.of_closes hs hn (by rw [headKind_cons, last.property]; exact hcloses)) i f

/-- A clause together with the token that ends it. -/
def ended (expr : Parser Expr) (k : Kind) (context : String) : Parser Expr := do
  let value ← clause expr k
  let _ ← expect k context
  return value

theorem ended_sound (hx : ReadsOperation BinaryOp.topLevel depth expr) (hk : k ≠ .eof)
    {context : String} {e : Expr} (h : ended expr k context ⟨ts, i, f⟩ = .ok e d) :
    ∃ (C : Clause) (last : Token.Of k) (r : List Token), ts = C.tokens ++ last.val :: r ∧
      C.Settled ∧ C.nesting ≤ depth ∧ e = C.tree last.val.location i ∧
        d = ⟨r, i + C.size, f⟩ := by
  obtain ⟨value, c, hvalue, h⟩ := bind_eq_ok_iff.mp h
  obtain ⟨t, c', ht, h⟩ := bind_eq_ok_iff.mp h
  cases h
  exact clause_sound hx hk hvalue ht

theorem ended_complete (hx : ReadsOperation BinaryOp.topLevel depth expr) (context : String)
    (C : Clause) (last : Token.Of k) (hopens : k.opens = false) (hcloses : k.closes = true)
    (hs : C.Settled) (hn : C.nesting ≤ depth) (i : Nat) (f : Location) :
    ended expr k context ⟨C.tokens ++ last.val :: r, i, f⟩ =
      .ok (C.tree last.val.location i) ⟨r, i + C.size, f⟩ := by
  rw [ended, bind_of_ok (clause_complete hx C last hopens hcloses hs hn i),
    bind_of_ok (expect_of _ _ last _)]
  rfl

/-- An expression between parentheses. -/
def enclosed (expr : Parser Expr) (before behind : String) : Parser Expr := do
  let _ ← expect .leftParen before
  let value ← expr
  let _ ← expect .rightParen behind
  return value

theorem enclosed_sound (hx : ReadsOperation BinaryOp.topLevel depth expr) {before behind : String}
    {e : Expr} (h : enclosed expr before behind ⟨ts, i, f⟩ = .ok e d) :
    ∃ (left : Token.Of .leftParen) (V : ExpressionDerivation) (right : Token.Of .rightParen)
      (r : List Token), ts = left.val :: (V.tokens ++ right.val :: r) ∧ V.Settled ∧
        V.nesting ≤ depth ∧ e = V.tree i ∧ d = ⟨r, i + V.size, f⟩ := by
  obtain ⟨t, c, ht, h⟩ := bind_eq_ok_iff.mp h
  obtain ⟨left, r, rfl, rfl, rfl⟩ := expect_of_ok ht
  obtain ⟨value, c, hvalue, h⟩ := bind_eq_ok_iff.mp h
  obtain ⟨V, r, rfl, hV, rfl, rfl⟩ := hx.sound hvalue
  obtain ⟨t, c, ht, h⟩ := bind_eq_ok_iff.mp h
  obtain ⟨right, r, rfl, rfl, rfl⟩ := expect_of_ok ht
  cases h
  exact ⟨left, V, right, r, rfl, hV.settled, hV.nesting, rfl, rfl⟩

theorem enclosed_complete (hx : ReadsOperation BinaryOp.topLevel depth expr)
    (before behind : String) (left : Token.Of .leftParen) (V : ExpressionDerivation)
    (right : Token.Of .rightParen) (hs : V.Settled) (hn : V.nesting ≤ depth) (r : List Token)
    (i : Nat) (f : Location) :
    enclosed expr before behind ⟨left.val :: (V.tokens ++ right.val :: r), i, f⟩ =
      .ok (V.tree i) ⟨r, i + V.size, f⟩ := by
  have hvalue := hx.complete (D := V) (r := right.val :: r)
    (.of_closes hs hn (by rw [headKind_cons, right.property]; rfl)) i f
  rw [enclosed, bind_of_ok (expect_of _ _ left _), bind_of_ok hvalue,
    bind_of_ok (expect_of _ _ right _)]
  rfl

end Clauses

/-! ## Commands -/

namespace ExprDerivation

theorem location_append {r : ExprRule} (D : ExprDerivation r) (ts : List Token) (i : Nat)
    (f : Location) : Cursor.location ⟨D.tokens ++ ts, i, f⟩ = D.location := by
  have hopens := D.opens_headKind []
  cases htokens : D.tokens with
  | nil =>
    rw [htokens] at hopens
    exact absurd hopens (by decide)
  | cons t rest => simp [Cursor.location, location, htokens]

end ExprDerivation

namespace StmtDerivation

theorem location_append {r : StmtRule} (D : StmtDerivation r) (h : D.tokens ≠ [])
    (ts : List Token) (i : Nat) (f : Location) :
    Cursor.location ⟨D.tokens ++ ts, i, f⟩ = D.location := by
  cases htokens : D.tokens with
  | nil => exact absurd htokens h
  | cons t rest => simp [Cursor.location, location, htokens]

/-- What a reader of commands with a budget of `depth` levels may answer with. -/
def Answers (depth : Nat) (ts : List Token) (i : Nat) (f : Location) (s : Stmt) (d : Cursor) :
    Prop :=
  ∃ (D : StmtDerivation .command) (r : List Token), ts = D.tokens ++ r ∧ D.Admitted depth r ∧
    s = D.tree i ∧ d = ⟨r, i + D.size, f⟩

end StmtDerivation

open StmtDerivation (Answers)

section Commands

variable {depth : Nat} {expr : Parser Expr} {statement : Parser Stmt} {r : List Token} {i : Nat}
  {f : Location} {s : Stmt} {d : Cursor}

theorem branch_eq (expr : Parser Expr) (statement : Parser Stmt) (p : Location) :
    branch expr statement p = (do
      skip
      let condition ← enclosed expr "after 'if'" "after if condition"
      let thenBody ← statement
      let elseBody ← optionally .elseWord statement
      return .branch condition thenBody elseBody p) := by
  simp only [optionally_bind, enclosed, bind_assoc, pure_bind]
  rfl

theorem whileLoop_eq (expr : Parser Expr) (statement : Parser Stmt) (p : Location) :
    whileLoop expr statement p = (do
      skip
      let condition ← enclosed expr "after 'while'" "after while condition"
      return .whileLoop condition (← statement) p) := by
  simp only [enclosed, bind_assoc, pure_bind]
  rfl

theorem forLoop_eq (expr : Parser Expr) (statement : Parser Stmt) (p : Location) :
    forLoop expr statement p = (do
      skip
      let _ ← expect .leftParen "after 'for'"
      let init ← ended expr .semicolon "after for initializer"
      let condition ← ended expr .semicolon "after for condition"
      let update ← ended expr .rightParen "after for clauses"
      return .forLoop init condition update (← statement) p) := by
  simp only [ended, bind_assoc, pure_bind]
  rfl

theorem ret_eq (expr : Parser Expr) (p : Location) :
    ret expr p = (do
      skip
      let value ← ended expr .semicolon "after return"
      return .ret value p) := by
  simp only [ended, bind_assoc, pure_bind]
  rfl

theorem print_eq (expr : Parser Expr) (p : Location) :
    print expr p = (do
      skip
      let value ← enclosed expr "after 'print'" "after print argument"
      let _ ← expect .semicolon "after print"
      return .print value p) := by
  simp only [enclosed, bind_assoc, pure_bind]
  rfl

theorem branch_sound (hx : ReadsOperation BinaryOp.topLevel depth expr)
    (hstmt : ReadsStatement depth statement) (word : Token.Of .ifWord)
    (h : branch expr statement word.val.location ⟨word.val :: r, i, f⟩ = .ok s d) :
    Answers depth (word.val :: r) i f s d := by
  rw [branch_eq, bind_of_ok (skip_apply _), Cursor.advance_cons] at h
  obtain ⟨e, c, he, h⟩ := bind_eq_ok_iff.mp h
  obtain ⟨left, C, right, r, rfl, hsC, hnC, rfl, rfl⟩ := enclosed_sound hx he
  obtain ⟨thenBody, c, hthen, h⟩ := bind_eq_ok_iff.mp h
  obtain ⟨T, r, rfl, hT, rfl, rfl⟩ := hstmt.sound hthen
  obtain ⟨elseBody, c, helse, h⟩ := bind_eq_ok_iff.mp h
  rcases optionally_of_ok (by decide) helse with ⟨word', r, b, rfl, rfl, hb⟩ | ⟨hne, rfl, rfl⟩
  · obtain ⟨E, r, rfl, hE, rfl, rfl⟩ := hstmt.sound hb
    cases h
    have hopen : T.dangles = false := by
      cases hdangles : T.dangles with
      | false => rfl
      | true => exact absurd word'.property (hT.dangles hdangles)
    refine ⟨.branchElse word left C right T word' E, r, ?_,
      ⟨⟨hsC, hT.settled, hopen, hE.settled⟩, ?_, hE.dangles⟩, rfl, ?_⟩
    · simp [StmtDerivation.tokens]
    · exact Nat.max_le.mpr ⟨hnC, Nat.max_le.mpr ⟨hT.nesting, hE.nesting⟩⟩
    · simp [StmtDerivation.size, Nat.add_assoc]
  · cases h
    refine ⟨.branch word left C right T, r, ?_,
      ⟨⟨hsC, hT.settled⟩, Nat.max_le.mpr ⟨hnC, hT.nesting⟩, fun _ => hne⟩, rfl, ?_⟩
    · simp [StmtDerivation.tokens]
    · simp [StmtDerivation.size, Nat.add_assoc]

theorem whileLoop_sound (hx : ReadsOperation BinaryOp.topLevel depth expr)
    (hstmt : ReadsStatement depth statement) (word : Token.Of .whileWord)
    (h : whileLoop expr statement word.val.location ⟨word.val :: r, i, f⟩ = .ok s d) :
    Answers depth (word.val :: r) i f s d := by
  rw [whileLoop_eq, bind_of_ok (skip_apply _), Cursor.advance_cons] at h
  obtain ⟨e, c, he, h⟩ := bind_eq_ok_iff.mp h
  obtain ⟨left, C, right, r, rfl, hsC, hnC, rfl, rfl⟩ := enclosed_sound hx he
  obtain ⟨body, c, hbody, h⟩ := bind_eq_ok_iff.mp h
  obtain ⟨B, r, rfl, hB, rfl, rfl⟩ := hstmt.sound hbody
  cases h
  refine ⟨.whileLoop word left C right B, r, ?_,
    ⟨⟨hsC, hB.settled⟩, Nat.max_le.mpr ⟨hnC, hB.nesting⟩, hB.dangles⟩, rfl, ?_⟩
  · simp [StmtDerivation.tokens]
  · simp [StmtDerivation.size, Nat.add_assoc]

theorem forLoop_sound (hx : ReadsOperation BinaryOp.topLevel depth expr)
    (hstmt : ReadsStatement depth statement) (word : Token.Of .forWord)
    (h : forLoop expr statement word.val.location ⟨word.val :: r, i, f⟩ = .ok s d) :
    Answers depth (word.val :: r) i f s d := by
  rw [forLoop_eq, bind_of_ok (skip_apply _), Cursor.advance_cons] at h
  obtain ⟨t, c, ht, h⟩ := bind_eq_ok_iff.mp h
  obtain ⟨left, r, rfl, rfl, rfl⟩ := expect_of_ok ht
  obtain ⟨init, c, hinit, h⟩ := bind_eq_ok_iff.mp h
  obtain ⟨I, first, r, rfl, hsI, hnI, rfl, rfl⟩ := ended_sound hx (by decide) hinit
  obtain ⟨condition, c, hcondition, h⟩ := bind_eq_ok_iff.mp h
  obtain ⟨C, second, r, rfl, hsC, hnC, rfl, rfl⟩ := ended_sound hx (by decide) hcondition
  obtain ⟨update, c, hupdate, h⟩ := bind_eq_ok_iff.mp h
  obtain ⟨U, right, r, rfl, hsU, hnU, rfl, rfl⟩ := ended_sound hx (by decide) hupdate
  obtain ⟨body, c, hbody, h⟩ := bind_eq_ok_iff.mp h
  obtain ⟨B, r, rfl, hB, rfl, rfl⟩ := hstmt.sound hbody
  cases h
  refine ⟨.forLoop word left I first C second U right B, r, ?_,
    ⟨⟨hsI, hsC, hsU, hB.settled⟩, ?_, hB.dangles⟩, rfl, ?_⟩
  · simp [StmtDerivation.tokens]
  · exact Nat.max_le.mpr ⟨Nat.max_le.mpr ⟨hnI, hnC⟩, Nat.max_le.mpr ⟨hnU, hB.nesting⟩⟩
  · simp [StmtDerivation.size, Nat.add_assoc]

theorem ret_sound (hx : ReadsOperation BinaryOp.topLevel depth expr)
    (word : Token.Of .returnWord)
    (h : ret expr word.val.location ⟨word.val :: r, i, f⟩ = .ok s d) :
    Answers depth (word.val :: r) i f s d := by
  rw [ret_eq, bind_of_ok (skip_apply _), Cursor.advance_cons] at h
  obtain ⟨value, c, hvalue, h⟩ := bind_eq_ok_iff.mp h
  obtain ⟨V, semicolon, r, rfl, hs, hn, rfl, rfl⟩ := ended_sound hx (by decide) hvalue
  cases h
  refine ⟨.ret word V semicolon, r, ?_, .of_closed hs hn rfl, rfl, rfl⟩
  simp [StmtDerivation.tokens]

theorem print_sound (hx : ReadsOperation BinaryOp.topLevel depth expr)
    (word : Token.Of .printWord)
    (h : print expr word.val.location ⟨word.val :: r, i, f⟩ = .ok s d) :
    Answers depth (word.val :: r) i f s d := by
  rw [print_eq, bind_of_ok (skip_apply _), Cursor.advance_cons] at h
  obtain ⟨value, c, hvalue, h⟩ := bind_eq_ok_iff.mp h
  obtain ⟨left, V, right, r, rfl, hs, hn, rfl, rfl⟩ := enclosed_sound hx hvalue
  obtain ⟨t, c, ht, h⟩ := bind_eq_ok_iff.mp h
  obtain ⟨semicolon, r, rfl, rfl, rfl⟩ := expect_of_ok ht
  cases h
  refine ⟨.print word left V right semicolon, r, ?_, .of_closed hs hn rfl, rfl, rfl⟩
  simp [StmtDerivation.tokens]

theorem branch_complete (hx : ReadsOperation BinaryOp.topLevel depth expr)
    (hstmt : ReadsStatement depth statement) (word : Token.Of .ifWord) (left : Token.Of .leftParen)
    (C : ExpressionDerivation) (right : Token.Of .rightParen) (T : StmtDerivation .statement)
    (h : (StmtDerivation.branch word left C right T).Admitted depth r) :
    branch expr statement word.val.location
        ⟨(StmtDerivation.branch word left C right T).tokens ++ r, i, f⟩ =
      .ok ((StmtDerivation.branch word left C right T).tree i)
        ⟨r, i + (StmtDerivation.branch word left C right T).size, f⟩ := by
  obtain ⟨⟨hsC, hsT⟩, hn, hdangles⟩ := h
  obtain ⟨hnC, hnT⟩ := Nat.max_le.mp hn
  have hcondition := enclosed_complete hx "after 'if'" "after if condition" left C right hsC hnC
    (T.tokens ++ r) i f
  have hthen := hstmt.complete (D := T) (r := r) ⟨hsT, hnT, fun _ => hdangles rfl⟩ (i + C.size) f
  have helse := optionally_of_ne (i := i + C.size + T.size) (f := f) statement (hdangles rfl)
  rw [branch_eq, bind_of_ok (skip_apply _)]
  simp only [StmtDerivation.tokens, List.cons_append, List.append_assoc, Cursor.advance_cons]
  rw [bind_of_ok hcondition, bind_of_ok hthen, bind_of_ok helse]
  simp [StmtDerivation.tree, StmtDerivation.size, Nat.add_assoc]

theorem branchElse_complete (hx : ReadsOperation BinaryOp.topLevel depth expr)
    (hstmt : ReadsStatement depth statement) (word : Token.Of .ifWord) (left : Token.Of .leftParen)
    (C : ExpressionDerivation) (right : Token.Of .rightParen) (T : StmtDerivation .statement)
    (elseWord : Token.Of .elseWord) (E : StmtDerivation .statement)
    (h : (StmtDerivation.branchElse word left C right T elseWord E).Admitted depth r) :
    branch expr statement word.val.location
        ⟨(StmtDerivation.branchElse word left C right T elseWord E).tokens ++ r, i, f⟩ =
      .ok ((StmtDerivation.branchElse word left C right T elseWord E).tree i)
        ⟨r, i + (StmtDerivation.branchElse word left C right T elseWord E).size, f⟩ := by
  obtain ⟨⟨hsC, hsT, hopen, hsE⟩, hn, hdangles⟩ := h
  obtain ⟨hnC, hn⟩ := Nat.max_le.mp hn
  obtain ⟨hnT, hnE⟩ := Nat.max_le.mp hn
  have hcondition := enclosed_complete hx "after 'if'" "after if condition" left C right hsC hnC
    (T.tokens ++ elseWord.val :: (E.tokens ++ r)) i f
  have hthen := hstmt.complete (D := T) (r := elseWord.val :: (E.tokens ++ r))
    ⟨hsT, hnT, fun hdangles => by rw [hopen] at hdangles; cases hdangles⟩ (i + C.size) f
  have helse := optionally_of statement elseWord
    (hstmt.complete (D := E) (r := r) ⟨hsE, hnE, hdangles⟩ (i + C.size + T.size) f)
  rw [branch_eq, bind_of_ok (skip_apply _)]
  simp only [StmtDerivation.tokens, List.cons_append, List.append_assoc, Cursor.advance_cons]
  rw [bind_of_ok hcondition, bind_of_ok hthen, bind_of_ok helse]
  simp [StmtDerivation.tree, StmtDerivation.size, Nat.add_assoc]

theorem whileLoop_complete (hx : ReadsOperation BinaryOp.topLevel depth expr)
    (hstmt : ReadsStatement depth statement) (word : Token.Of .whileWord)
    (left : Token.Of .leftParen) (C : ExpressionDerivation) (right : Token.Of .rightParen)
    (B : StmtDerivation .statement)
    (h : (StmtDerivation.whileLoop word left C right B).Admitted depth r) :
    whileLoop expr statement word.val.location
        ⟨(StmtDerivation.whileLoop word left C right B).tokens ++ r, i, f⟩ =
      .ok ((StmtDerivation.whileLoop word left C right B).tree i)
        ⟨r, i + (StmtDerivation.whileLoop word left C right B).size, f⟩ := by
  obtain ⟨⟨hsC, hsB⟩, hn, hdangles⟩ := h
  obtain ⟨hnC, hnB⟩ := Nat.max_le.mp hn
  have hcondition := enclosed_complete hx "after 'while'" "after while condition" left C right hsC
    hnC (B.tokens ++ r) i f
  have hbody := hstmt.complete (D := B) (r := r) ⟨hsB, hnB, hdangles⟩ (i + C.size) f
  rw [whileLoop_eq, bind_of_ok (skip_apply _)]
  simp only [StmtDerivation.tokens, List.cons_append, List.append_assoc, Cursor.advance_cons]
  rw [bind_of_ok hcondition, bind_of_ok hbody]
  simp [StmtDerivation.tree, StmtDerivation.size, Nat.add_assoc]

theorem forLoop_complete (hx : ReadsOperation BinaryOp.topLevel depth expr)
    (hstmt : ReadsStatement depth statement) (word : Token.Of .forWord)
    (left : Token.Of .leftParen) (I : Clause) (first : Token.Of .semicolon) (C : Clause)
    (second : Token.Of .semicolon) (U : Clause) (right : Token.Of .rightParen)
    (B : StmtDerivation .statement)
    (h : (StmtDerivation.forLoop word left I first C second U right B).Admitted depth r) :
    forLoop expr statement word.val.location
        ⟨(StmtDerivation.forLoop word left I first C second U right B).tokens ++ r, i, f⟩ =
      .ok ((StmtDerivation.forLoop word left I first C second U right B).tree i)
        ⟨r, i + (StmtDerivation.forLoop word left I first C second U right B).size, f⟩ := by
  obtain ⟨⟨hsI, hsC, hsU, hsB⟩, hn, hdangles⟩ := h
  obtain ⟨hn, hn'⟩ := Nat.max_le.mp hn
  obtain ⟨hnI, hnC⟩ := Nat.max_le.mp hn
  obtain ⟨hnU, hnB⟩ := Nat.max_le.mp hn'
  have hinit := ended_complete (r := C.tokens ++ second.val :: (U.tokens ++
    right.val :: (B.tokens ++ r))) hx "after for initializer" I first rfl rfl hsI hnI i f
  have hcondition := ended_complete (r := U.tokens ++ right.val :: (B.tokens ++ r)) hx
    "after for condition" C second rfl rfl hsC hnC (i + I.size) f
  have hupdate := ended_complete (r := B.tokens ++ r) hx "after for clauses" U right rfl rfl hsU
    hnU (i + I.size + C.size) f
  have hbody := hstmt.complete (D := B) (r := r) ⟨hsB, hnB, hdangles⟩
    (i + I.size + C.size + U.size) f
  rw [forLoop_eq, bind_of_ok (skip_apply _)]
  simp only [StmtDerivation.tokens, List.cons_append, List.append_assoc, Cursor.advance_cons]
  rw [bind_of_ok (expect_of _ _ left _), bind_of_ok hinit, bind_of_ok hcondition,
    bind_of_ok hupdate, bind_of_ok hbody]
  simp [StmtDerivation.tree, StmtDerivation.size, Nat.add_assoc]

theorem ret_complete (hx : ReadsOperation BinaryOp.topLevel depth expr)
    (word : Token.Of .returnWord) (V : Clause) (semicolon : Token.Of .semicolon)
    (h : (StmtDerivation.ret word V semicolon).Admitted depth r) :
    ret expr word.val.location ⟨(StmtDerivation.ret word V semicolon).tokens ++ r, i, f⟩ =
      .ok ((StmtDerivation.ret word V semicolon).tree i)
        ⟨r, i + (StmtDerivation.ret word V semicolon).size, f⟩ := by
  have hvalue := ended_complete (r := r) hx "after return" V semicolon rfl rfl h.settled h.nesting i f
  rw [ret_eq, bind_of_ok (skip_apply _)]
  simp only [StmtDerivation.tokens, List.cons_append, List.append_assoc, List.nil_append,
    Cursor.advance_cons]
  rw [bind_of_ok hvalue]
  rfl

theorem print_complete (hx : ReadsOperation BinaryOp.topLevel depth expr)
    (word : Token.Of .printWord) (left : Token.Of .leftParen) (V : ExpressionDerivation)
    (right : Token.Of .rightParen) (semicolon : Token.Of .semicolon)
    (h : (StmtDerivation.print word left V right semicolon).Admitted depth r) :
    print expr word.val.location
        ⟨(StmtDerivation.print word left V right semicolon).tokens ++ r, i, f⟩ =
      .ok ((StmtDerivation.print word left V right semicolon).tree i)
        ⟨r, i + (StmtDerivation.print word left V right semicolon).size, f⟩ := by
  have hvalue := enclosed_complete hx "after 'print'" "after print argument" left V right h.settled
    h.nesting (semicolon.val :: r) i f
  rw [print_eq, bind_of_ok (skip_apply _)]
  simp only [StmtDerivation.tokens, List.cons_append, List.append_assoc, List.nil_append,
    Cursor.advance_cons]
  rw [bind_of_ok hvalue, bind_of_ok (expect_of _ _ semicolon _)]
  rfl

end Commands

end Grammar
end MiniCheck
