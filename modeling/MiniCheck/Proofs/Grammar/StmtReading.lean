import MiniCheck.Proofs.Grammar.CommandReading

/-!
# Reading statements

A statement is read exactly where a settled derivation that fits into the budget of
nesting levels can be taken off the front, such that no `else` follows that would
belong to it. What stands between braces is read up to the closing one.
-/

namespace MiniCheck
namespace Grammar

open Token (Kind)
open Grammar.Parser
open StmtDerivation (Answers)

/-! ## Lists of statements -/

section Items

variable {depth : Nat} {declaration : Parser (List Stmt)} {statement : Parser Stmt}
  {ts r : List Token} {i : Nat} {f : Location} {d : Cursor}

theorem itemsWithin_of_listEnds (hr : ListEnds r) (bound : List Token) :
    itemsWithin declaration statement bound ⟨r, i, f⟩ = .ok [] ⟨r, i, f⟩ := by
  cases bound with
  | nil => rfl
  | cons b bound =>
    have hend : (decide (Cursor.kind ⟨r, i, f⟩ = .rightBrace) || r.isEmpty) = true := by
      rcases hr with hr | rfl
      · simp [hr]
      · simp
    simp only [itemsWithin, bind_of_ok (peek_apply _), bind_of_ok (remaining_apply _), hend,
      ↓reduceIte]
    rfl

theorem not_end_of_not_listEnds (h : ¬ ListEnds ts) :
    (decide (Cursor.kind ⟨ts, i, f⟩ = .rightBrace) || ts.isEmpty) = false := by
  simp only [ListEnds, not_or] at h
  simp [h.1, h.2]

theorem not_listEnds_of_beginsCommand (h : (headKind ts).beginsCommand = true) :
    ¬ ListEnds ts := by
  rintro (hk | rfl)
  · rw [hk] at h
    exact absurd h (by decide)
  · exact absurd h (by decide)

theorem itemsWithin_of_isType (h : (headKind ts).isType = true) (b : Token) (bound : List Token) :
    itemsWithin declaration statement (b :: bound) ⟨ts, i, f⟩ =
      (declaration >>= fun declared => itemsWithin declaration statement bound >>= fun rest =>
        pure (declared ++ rest)) ⟨ts, i, f⟩ := by
  have hgo : ¬ ListEnds ts := by
    rintro (hk | rfl)
    · rw [hk] at h
      exact absurd h (by decide)
    · exact absurd h (by decide)
  have hk : (Cursor.kind ⟨ts, i, f⟩).isType = true := h
  simp only [itemsWithin, bind_of_ok (peek_apply _), bind_of_ok (remaining_apply _),
    not_end_of_not_listEnds hgo, hk, Bool.false_eq_true, ↓reduceIte]

theorem itemsWithin_semicolon (semicolon : Token.Of .semicolon) (b : Token) (bound : List Token) :
    itemsWithin declaration statement (b :: bound) ⟨semicolon.val :: r, i, f⟩ =
      itemsWithin declaration statement bound ⟨r, i, f⟩ := by
  have hgo : ¬ ListEnds (semicolon.val :: r) := by
    simp [ListEnds]
  have hk : (Cursor.kind ⟨semicolon.val :: r, i, f⟩).isType = false := by
    rw [Cursor.kind_mk, headKind_cons, semicolon.property]
    rfl
  simp only [itemsWithin, bind_of_ok (peek_apply _), bind_of_ok (remaining_apply _),
    not_end_of_not_listEnds hgo, hk, Bool.false_eq_true, ↓reduceIte,
    bind_of_ok (accept_of .semicolon semicolon r)]

theorem itemsWithin_of_ne (hgo : ¬ ListEnds ts) (htype : (headKind ts).isType = false)
    (hsemicolon : headKind ts ≠ .semicolon) (b : Token) (bound : List Token) :
    itemsWithin declaration statement (b :: bound) ⟨ts, i, f⟩ =
      (statement >>= fun s => itemsWithin declaration statement bound >>= fun rest =>
        pure (s :: rest)) ⟨ts, i, f⟩ := by
  have hk : (Cursor.kind ⟨ts, i, f⟩).isType = false := htype
  simp only [itemsWithin, bind_of_ok (peek_apply _), bind_of_ok (remaining_apply _),
    not_end_of_not_listEnds hgo, hk, Bool.false_eq_true, ↓reduceIte,
    bind_of_ok (accept_of_ne hsemicolon)]

/-- The bound does not run out before the tokens do, so a list is read up to its end. -/
theorem itemsWithin_sound (hdecl : ReadsDeclaration depth declaration)
    (hstmt : ReadsStatement depth statement) (bound : List Token)
    (hb : ts.length ≤ bound.length) {ss : List Stmt}
    (h : itemsWithin declaration statement bound ⟨ts, i, f⟩ = .ok ss d) :
    ∃ (D : StmtDerivation .items) (r : List Token), ts = D.tokens ++ r ∧
      (D.Settled ∧ D.nesting ≤ depth ∧ ListEnds r) ∧ ss = D.tree i ∧ d = ⟨r, i + D.size, f⟩ := by
  induction bound generalizing ts i ss d with
  | nil =>
    obtain rfl : ts = [] := List.length_eq_zero_iff.mp (Nat.le_zero.mp hb)
    cases h
    exact ⟨.nil, [], rfl, ⟨trivial, Nat.zero_le _, .inr rfl⟩, rfl, rfl⟩
  | cons b bound ih =>
    by_cases hend : ListEnds ts
    · rw [itemsWithin_of_listEnds hend] at h
      cases h
      exact ⟨.nil, ts, rfl, ⟨trivial, Nat.zero_le _, hend⟩, rfl, rfl⟩
    cases htype : (headKind ts).isType with
    | true =>
      rw [itemsWithin_of_isType htype] at h
      obtain ⟨declared, c, hdeclared, h⟩ := bind_eq_ok_iff.mp h
      obtain ⟨D, r, rfl, ⟨hs, hn⟩, rfl, rfl⟩ := hdecl.sound hdeclared
      obtain ⟨rest, c, hrest, h⟩ := bind_eq_ok_iff.mp h
      have hpos := List.length_pos_iff.mpr D.tokens_ne_nil_of_declaration
      obtain ⟨R, r, rfl, ⟨hsR, hnR, hr⟩, rfl, rfl⟩ := ih
        (by simp only [List.length_append, List.length_cons] at hb; omega) hrest
      cases h
      refine ⟨.cons (.declared D) R, r, ?_, ⟨⟨hs, hsR⟩, Nat.max_le.mpr ⟨hn, hnR⟩, hr⟩, rfl, ?_⟩
      · simp [StmtDerivation.tokens]
      · simp [StmtDerivation.size, Nat.add_assoc]
    | false =>
      by_cases hk : headKind ts = .semicolon
      · obtain ⟨semicolon, r, rfl⟩ := exists_of_headKind hk (by decide)
        rw [itemsWithin_semicolon] at h
        obtain ⟨R, r, rfl, ⟨hsR, hnR, hr⟩, rfl, rfl⟩ := ih (Nat.le_of_succ_le_succ hb) h
        exact ⟨.cons (.empty semicolon) R, r, rfl, ⟨⟨trivial, hsR⟩, hnR, hr⟩, rfl, rfl⟩
      · rw [itemsWithin_of_ne hend htype hk] at h
        obtain ⟨s, c, hstatement, h⟩ := bind_eq_ok_iff.mp h
        obtain ⟨D, r, rfl, ⟨hs, hn, _⟩, rfl, rfl⟩ := hstmt.sound hstatement
        obtain ⟨rest, c, hrest, h⟩ := bind_eq_ok_iff.mp h
        obtain ⟨C, rfl⟩ := D.exists_command htype hk
        have hpos := List.length_pos_iff.mpr C.tokens_ne_nil_of_command
        obtain ⟨R, r, rfl, ⟨hsR, hnR, hr⟩, rfl, rfl⟩ := ih
          (by simp only [StmtDerivation.tokens, List.length_append, List.length_cons] at hb; omega)
          hrest
        cases h
        refine ⟨.cons (.command C) R, r, ?_, ⟨⟨hs, hsR⟩, Nat.max_le.mpr ⟨hn, hnR⟩, hr⟩, rfl, ?_⟩
        · simp [StmtDerivation.tokens]
        · simp [StmtDerivation.size, Nat.add_assoc]

theorem itemsWithin_complete (hdecl : ReadsDeclaration depth declaration)
    (hstmt : ReadsStatement depth statement) (hr : ListEnds r) :
    ∀ (D : StmtDerivation .items) (bound : List Token) (i : Nat), D.Settled → D.nesting ≤ depth →
      (D.tokens ++ r).length ≤ bound.length →
      itemsWithin declaration statement bound ⟨D.tokens ++ r, i, f⟩ =
        .ok (D.tree i) ⟨r, i + D.size, f⟩
  | .nil, bound, i, _, _, _ => itemsWithin_of_listEnds hr bound
  | .cons (.declared D) rest, bound, i, hs, hn, hb => by
    obtain ⟨hnD, hnrest⟩ := Nat.max_le.mp hn
    have hpos := List.length_pos_iff.mpr D.tokens_ne_nil_of_declaration
    have hread := hdecl.complete (D := D) (r := rest.tokens ++ r) ⟨hs.1, hnD⟩ i f
    simp only [StmtDerivation.tokens, List.append_assoc, List.length_append] at hb ⊢
    cases bound with
    | nil =>
      simp only [List.length_nil] at hb
      omega
    | cons b bound =>
      have hrest := itemsWithin_complete hdecl hstmt hr rest bound (i + D.size) hs.2 hnrest
        (by simp only [List.length_append, List.length_cons] at hb ⊢; omega)
      rw [itemsWithin_of_isType (D.isType_headKind _), bind_of_ok hread, bind_of_ok hrest]
      simp [StmtDerivation.tree, StmtDerivation.size, Nat.add_assoc]
  | .cons (.empty semicolon) rest, bound, i, hs, hn, hb => by
    cases bound with
    | nil => exact absurd hb (by simp [StmtDerivation.tokens])
    | cons b bound =>
      have hrest := itemsWithin_complete hdecl hstmt hr rest bound i hs.2 hn
        (Nat.le_of_succ_le_succ hb)
      exact (itemsWithin_semicolon semicolon b bound).trans hrest
  | .cons (.command D) rest, bound, i, hs, hn, hb => by
    obtain ⟨hnD, hnrest⟩ := Nat.max_le.mp hn
    have hpos := List.length_pos_iff.mpr D.tokens_ne_nil_of_command
    have hread := hstmt.complete (D := .command D) (r := rest.tokens ++ r)
      ⟨hs.1, hnD, fun _ => rest.headKind_ne_else hr⟩ i f
    simp only [StmtDerivation.tokens, StmtDerivation.size] at hread
    simp only [StmtDerivation.tokens, List.append_assoc, List.length_append] at hb ⊢
    cases bound with
    | nil =>
      simp only [List.length_nil] at hb
      omega
    | cons b bound =>
      have hrest := itemsWithin_complete hdecl hstmt hr rest bound (i + D.size) hs.2 hnrest
        (by simp only [List.length_append, List.length_cons] at hb ⊢; omega)
      have hhead := D.beginsCommand_headKind (rest.tokens ++ r)
      rw [itemsWithin_of_ne (not_listEnds_of_beginsCommand hhead)
        (Kind.isType_of_beginsCommand hhead) (Kind.ne_semicolon_of_beginsCommand hhead),
        bind_of_ok hread, bind_of_ok hrest]
      simp [StmtDerivation.tree, StmtDerivation.size, Nat.add_assoc]

theorem reads_items (hdecl : ReadsDeclaration depth declaration)
    (hstmt : ReadsStatement depth statement) : ReadsItems depth (items declaration statement) := by
  intro ts i f ss d
  constructor
  · intro h
    simp only [items, bind_of_ok (remaining_apply _)] at h
    exact itemsWithin_sound hdecl hstmt ts (Nat.le_refl _) h
  · rintro ⟨D, r, rfl, ⟨hs, hn, hr⟩, rfl, rfl⟩
    simp only [items, bind_of_ok (remaining_apply _)]
    exact itemsWithin_complete hdecl hstmt hr D _ i hs hn (Nat.le_refl _)

end Items

/-! ## Statements -/

section Statements

variable {depth : Nat} {expr : Parser Expr} {declaration : Parser (List Stmt)}
  {statement : Parser Stmt} {ts r : List Token} {i : Nat} {f : Location} {s : Stmt} {d : Cursor}

/-- The first token decides which kind of statement is read. -/
theorem statementWith_apply (expr : Parser Expr) (declaration : Parser (List Stmt))
    (statement : Parser Stmt) (c : Cursor) :
    statementWith expr declaration statement c =
      match c.kind with
      | .intWord | .floatWord | .voidWord => (Grammar.declared c.location <$> declaration) c
      | .semicolon =>
        .ok (.expr (.omitted ⟨c.nextId, c.location⟩) c.location)
          ⟨c.rest.tail, c.nextId + 1, c.finish⟩
      | .leftBrace =>
        (items declaration statement >>= fun body => expect .rightBrace "after block" >>= fun _ =>
          pure (Stmt.block body c.location)) c.advance
      | .ifWord => branch expr statement c.location c
      | .whileWord => whileLoop expr statement c.location c
      | .forWord => forLoop expr statement c.location c
      | .returnWord => ret expr c.location c
      | .printWord => print expr c.location c
      | _ =>
        (expr >>= fun value => expect .semicolon "after expression" >>= fun _ =>
          pure (Stmt.expr value c.location)) c := by
  simp only [statementWith, bind_of_ok (here_apply _), bind_of_ok (peek_apply _)]
  cases c.kind <;> rfl

theorem declared_sound (hdecl : ReadsDeclaration depth declaration)
    (h : (Grammar.declared (Cursor.location ⟨ts, i, f⟩) <$> declaration) ⟨ts, i, f⟩ = .ok s d) :
    ∃ (D : StmtDerivation .statement) (r : List Token), ts = D.tokens ++ r ∧
      D.Admitted (depth + 1) r ∧ s = D.tree i ∧ d = ⟨r, i + D.size, f⟩ := by
  rw [map_apply] at h
  cases hrun : declaration ⟨ts, i, f⟩ with
  | error m c =>
    rw [hrun] at h
    cases h
  | ok ss c =>
    rw [hrun] at h
    cases h
    obtain ⟨D, r, rfl, ⟨hs, hn⟩, rfl, rfl⟩ := hdecl.sound hrun
    refine ⟨.declared D, r, rfl, .of_closed hs (Nat.succ_le_succ hn) rfl, ?_, rfl⟩
    rw [D.location_append D.tokens_ne_nil_of_declaration]
    rfl

theorem statementWith_sound (hx : ReadsOperation BinaryOp.topLevel depth expr)
    (hdecl : ReadsDeclaration depth declaration) (hstmt : ReadsStatement depth statement)
    (h : statementWith expr declaration statement ⟨ts, i, f⟩ = .ok s d) :
    ∃ (D : StmtDerivation .statement) (r : List Token), ts = D.tokens ++ r ∧
      D.Admitted (depth + 1) r ∧ s = D.tree i ∧ d = ⟨r, i + D.size, f⟩ := by
  have of_command : Answers depth ts i f s d → ∃ (D : StmtDerivation .statement) (r : List Token),
      ts = D.tokens ++ r ∧ D.Admitted (depth + 1) r ∧ s = D.tree i ∧ d = ⟨r, i + D.size, f⟩ := by
    rintro ⟨D, r, rfl, hD, rfl, rfl⟩
    exact ⟨.command D, r, rfl, ⟨hD.settled, Nat.succ_le_succ hD.nesting, hD.dangles⟩, rfl, rfl⟩
  rw [statementWith_apply] at h
  split at h
  case h_1 => exact declared_sound hdecl h
  case h_2 => exact declared_sound hdecl h
  case h_3 => exact declared_sound hdecl h
  case h_4 hk =>
    obtain ⟨semicolon, r, rfl⟩ := exists_of_headKind hk (by decide)
    cases h
    exact ⟨.empty semicolon, r, rfl, .of_closed trivial (Nat.succ_le_succ (Nat.zero_le _)) rfl, rfl, rfl⟩
  case h_5 hk =>
    obtain ⟨left, r, rfl⟩ := exists_of_headKind hk (by decide)
    obtain ⟨body, c, hbody, h⟩ := bind_eq_ok_iff.mp h
    obtain ⟨B, r, rfl, ⟨hs, hn, _⟩, rfl, rfl⟩ := (reads_items hdecl hstmt).sound hbody
    obtain ⟨t, c, ht, h⟩ := bind_eq_ok_iff.mp h
    obtain ⟨right, r, rfl, rfl, rfl⟩ := expect_of_ok ht
    cases h
    refine of_command ⟨.block left B right, r, ?_, .of_closed hs hn rfl, rfl, rfl⟩
    simp [StmtDerivation.tokens]
  case h_6 hk =>
    obtain ⟨word, r, rfl⟩ := exists_of_headKind hk (by decide)
    exact of_command (branch_sound hx hstmt word h)
  case h_7 hk =>
    obtain ⟨word, r, rfl⟩ := exists_of_headKind hk (by decide)
    exact of_command (whileLoop_sound hx hstmt word h)
  case h_8 hk =>
    obtain ⟨word, r, rfl⟩ := exists_of_headKind hk (by decide)
    exact of_command (forLoop_sound hx hstmt word h)
  case h_9 hk =>
    obtain ⟨word, r, rfl⟩ := exists_of_headKind hk (by decide)
    exact of_command (ret_sound hx word h)
  case h_10 hk =>
    obtain ⟨word, r, rfl⟩ := exists_of_headKind hk (by decide)
    exact of_command (print_sound hx word h)
  case h_11 =>
    obtain ⟨value, c, hvalue, h⟩ := bind_eq_ok_iff.mp h
    obtain ⟨V, r, rfl, hV, rfl, rfl⟩ := hx.sound hvalue
    obtain ⟨t, c, ht, h⟩ := bind_eq_ok_iff.mp h
    obtain ⟨semicolon, r, rfl, rfl, rfl⟩ := expect_of_ok ht
    cases h
    refine of_command ⟨.expr V semicolon, r, ?_, .of_closed hV.settled hV.nesting rfl, ?_, rfl⟩
    · simp [StmtDerivation.tokens]
    · rw [V.location_append]
      rfl

/-- A token that begins an expression begins no other statement. -/
theorem statementWith_of_opens (h : (headKind ts).opens = true) :
    statementWith expr declaration statement ⟨ts, i, f⟩ =
      (expr >>= fun value => expect .semicolon "after expression" >>= fun _ =>
        pure (Stmt.expr value (Cursor.location ⟨ts, i, f⟩))) ⟨ts, i, f⟩ := by
  have hk : (Cursor.kind ⟨ts, i, f⟩).opens = true := h
  rw [statementWith_apply]
  split
  case h_11 => rfl
  all_goals
    rename_i heq
    rw [heq] at hk
    exact absurd hk (by decide)

theorem statementWith_of_isType (h : (headKind ts).isType = true) :
    statementWith expr declaration statement ⟨ts, i, f⟩ =
      (Grammar.declared (Cursor.location ⟨ts, i, f⟩) <$> declaration) ⟨ts, i, f⟩ := by
  obtain ⟨b, hb⟩ := BaseType.exists_word h
  have hk : Cursor.kind ⟨ts, i, f⟩ = b.word := hb.symm
  rw [statementWith_apply, hk]
  cases b <;> rfl

theorem statementWith_complete (hx : ReadsOperation BinaryOp.topLevel depth expr)
    (hdecl : ReadsDeclaration depth declaration) (hstmt : ReadsStatement depth statement)
    (D : StmtDerivation .statement) (h : D.Admitted (depth + 1) r) :
    statementWith expr declaration statement ⟨D.tokens ++ r, i, f⟩ =
      .ok (D.tree i) ⟨r, i + D.size, f⟩ := by
  cases D with
  | declared D =>
    have hread := hdecl.complete (D := D) (r := r) ⟨h.settled, Nat.le_of_succ_le_succ h.nesting⟩ i f
    change statementWith expr declaration statement ⟨D.tokens ++ r, i, f⟩ = _
    rw [statementWith_of_isType (D.isType_headKind r), map_apply, hread,
      D.location_append D.tokens_ne_nil_of_declaration]
    rfl
  | empty semicolon =>
    have hk : Cursor.kind ⟨semicolon.val :: r, i, f⟩ = .semicolon := semicolon.property
    simp only [StmtDerivation.tokens, List.cons_append, List.nil_append]
    rw [statementWith_apply, hk]
    rfl
  | command C =>
    have hC : C.Admitted depth r := ⟨h.settled, Nat.le_of_succ_le_succ h.nesting, h.dangles⟩
    change statementWith expr declaration statement ⟨C.tokens ++ r, i, f⟩ = _
    cases C with
    | block left B right =>
      have hread := (reads_items hdecl hstmt).complete (D := B) (r := right.val :: r)
        ⟨hC.settled, hC.nesting, .inl right.property⟩ i f
      have hk : Cursor.kind ⟨left.val :: (B.tokens ++ right.val :: r), i, f⟩ = .leftBrace :=
        left.property
      simp only [StmtDerivation.tokens, List.cons_append, List.append_assoc, List.nil_append]
      rw [statementWith_apply, hk]
      simp only [Cursor.advance_cons]
      rw [bind_of_ok hread, bind_of_ok (expect_of _ _ right _)]
      rfl
    | branch word left C right T =>
      have hk : Cursor.kind ⟨(StmtDerivation.branch word left C right T).tokens ++ r, i, f⟩ =
        .ifWord := word.property
      rw [statementWith_apply, hk]
      exact branch_complete hx hstmt word left C right T hC
    | branchElse word left C right T elseWord E =>
      have hk : Cursor.kind
        ⟨(StmtDerivation.branchElse word left C right T elseWord E).tokens ++ r, i, f⟩ =
          .ifWord := word.property
      rw [statementWith_apply, hk]
      exact branchElse_complete hx hstmt word left C right T elseWord E hC
    | whileLoop word left C right B =>
      have hk : Cursor.kind ⟨(StmtDerivation.whileLoop word left C right B).tokens ++ r, i, f⟩ =
        .whileWord := word.property
      rw [statementWith_apply, hk]
      exact whileLoop_complete hx hstmt word left C right B hC
    | forLoop word left I first C second U right B =>
      have hk : Cursor.kind
        ⟨(StmtDerivation.forLoop word left I first C second U right B).tokens ++ r, i, f⟩ =
          .forWord := word.property
      rw [statementWith_apply, hk]
      exact forLoop_complete hx hstmt word left I first C second U right B hC
    | ret word V semicolon =>
      have hk : Cursor.kind ⟨(StmtDerivation.ret word V semicolon).tokens ++ r, i, f⟩ =
        .returnWord := word.property
      rw [statementWith_apply, hk]
      exact ret_complete hx word V semicolon hC
    | print word left V right semicolon =>
      have hk : Cursor.kind ⟨(StmtDerivation.print word left V right semicolon).tokens ++ r, i, f⟩ =
        .printWord := word.property
      rw [statementWith_apply, hk]
      exact print_complete hx word left V right semicolon hC
    | expr V semicolon =>
      have hread := hx.complete (D := V) (r := semicolon.val :: r) (.of_closes hC.settled
        hC.nesting (by rw [headKind_cons, semicolon.property]; rfl)) i f
      simp only [StmtDerivation.tokens, List.cons_append, List.append_assoc, List.nil_append]
      rw [statementWith_of_opens (V.opens_headKind _), bind_of_ok hread,
        bind_of_ok (expect_of _ _ semicolon _), V.location_append]
      rfl

theorem reads_statementWith (hx : ReadsOperation BinaryOp.topLevel depth expr)
    (hdecl : ReadsDeclaration depth declaration) (hstmt : ReadsStatement depth statement) :
    ReadsStatement (depth + 1) (statementWith expr declaration statement) := by
  intro ts i f s d
  constructor
  · exact statementWith_sound hx hdecl hstmt
  · rintro ⟨D, r, rfl, hD, rfl, rfl⟩
    exact statementWith_complete hx hdecl hstmt D hD

end Statements

namespace StmtDerivation

theorem tokens_ne_nil_of_statement (D : StmtDerivation .statement) : D.tokens ≠ [] := by
  cases D with
  | declared declaration => exact declaration.tokens_ne_nil_of_declaration
  | empty semicolon => exact List.cons_ne_nil _ _
  | command inner => exact inner.tokens_ne_nil_of_command

theorem nesting_pos (D : StmtDerivation .statement) : 0 < D.nesting := by
  cases D <;> exact Nat.succ_pos _

end StmtDerivation

theorem reads_statement_and_body : ∀ depth : Nat,
    ReadsStatement depth (statement depth) ∧ ReadsBody depth (functionBody depth)
  | 0 => by
    constructor
    · intro ts i f s d
      constructor
      · intro h
        simp [statement] at h
      · rintro ⟨D, r, _, hD, _, _⟩
        exact absurd hD.nesting (Nat.not_le.mpr D.nesting_pos)
    · intro ts i f ss d
      constructor
      · intro h
        simp [functionBody] at h
      · rintro ⟨D, r, _, ⟨_, hn, _⟩, _, _⟩
        exact absurd hn (Nat.not_succ_le_zero _)
  | depth + 1 => by
    obtain ⟨hstmt, hbody⟩ := reads_statement_and_body depth
    have hdecl := reads_declaration (reads_expression depth) hbody
    constructor
    · rw [statement]
      exact reads_statementWith (reads_expression depth) hdecl hstmt
    · intro ts i f ss d
      rw [functionBody, reads_items hdecl hstmt ts i f ss d]
      simp only [Nat.succ_le_succ_iff]

theorem reads_declarations_of_depth (depth : Nat) :
    ReadsDeclaration depth (declaration (expression depth) (functionBody depth)) :=
  reads_declaration (reads_expression depth) (reads_statement_and_body depth).2

end Grammar
end MiniCheck
