import MiniCheck.Proofs.Grammar.Anchoring
import MiniCheck.Proofs.Text.Delimiters
import MiniCheck.Proofs.Token.Lexemes
import MiniCheck.Proofs.Typing.FirstDeclarations
import MiniCheck.Session.Failure
import MiniCheck.Typing.Report

/-!
# What a report on a symbol table shows

The names in a symbol table were read from a text, so they hold neither blanks nor ends of lines.
Hence the report can be read in one way only, row by row and column by column, even where a name is
too long for its column. It shows all that the table lists, in its order.
-/

namespace MiniCheck

open Text (padRight rule cut_unique padRight_unique joined_unique)
open Token (IsName IsNamed Stands)

/-! ## Rows -/

theorem BaseType.name_injective {a b : BaseType} (h : a.name = b.name) : a = b := by
  cases a <;> cases b <;> first | rfl | exact absurd h (by decide)

/-- The names of types are letters only. -/
theorem BaseType.isAlpha_of_mem_name {b : BaseType} {c : Char} (h : c ∈ b.name.toList) :
    c.isAlpha = true := by
  have hletters : b.name.toList.all Char.isAlpha = true := by cases b <;> rfl
  exact List.all_eq_true.mp hletters c h

namespace Signature

/-- The parts of a list of parameters. -/
def columns (s : Signature) : List String :=
  if s.params.isEmpty then ["(no parameters)"] else s.params.map BaseType.name

theorem parameterList_eq (s : Signature) : s.parameterList = ", ".intercalate s.columns := by
  simp only [parameterList, columns]
  split <;> rfl

theorem columns_ne_nil (s : Signature) : s.columns ≠ [] := by
  cases hparams : s.params <;> simp [columns, hparams]

theorem mem_columns {s : Signature} {column : String} (h : column ∈ s.columns) :
    column = "(no parameters)" ∨ ∃ b : BaseType, column = b.name := by
  simp only [columns] at h
  split at h
  · exact .inl (List.mem_singleton.mp h)
  · obtain ⟨b, _, rfl⟩ := List.mem_map.mp h
    exact .inr ⟨b, rfl⟩

theorem not_mem_column {s : Signature} {column : String} (h : column ∈ s.columns) {c : Char}
    (hc : c.isAlpha = false) (hplaceholder : c ∉ "(no parameters)".toList) :
    c ∉ column.toList := by
  intro hmem
  obtain rfl | ⟨b, rfl⟩ := mem_columns h
  · exact hplaceholder hmem
  · exact absurd (BaseType.isAlpha_of_mem_name hmem) (by simp [hc])

theorem params_of_columns {s t : Signature} (h : s.columns = t.columns) : s.params = t.params := by
  have hplaceholder : ∀ b : BaseType, b.name ≠ "(no parameters)" := fun b => by cases b <;> decide
  simp only [columns] at h
  split at h <;> split at h
  case isTrue.isTrue hs ht => rw [List.isEmpty_iff.mp hs, List.isEmpty_iff.mp ht]
  case isFalse.isFalse => exact (List.map_inj_right fun _ _ => BaseType.name_injective).mp h
  case isTrue.isFalse =>
    obtain ⟨b, _, hb⟩ := List.mem_map.mp (h ▸ List.mem_singleton.mpr rfl)
    exact absurd hb (hplaceholder b)
  case isFalse.isTrue =>
    obtain ⟨b, _, hb⟩ := List.mem_map.mp (h ▸ List.mem_singleton.mpr rfl)
    exact absurd hb (hplaceholder b)

theorem params_of_parameterList {s t : Signature} (h : s.parameterList = t.parameterList) :
    s.params = t.params := by
  have hcomma : ∀ s : Signature, ∀ column ∈ s.columns, ',' ∉ column.toList :=
    fun _ _ hmem => not_mem_column hmem (by decide) (by decide)
  rw [parameterList_eq, parameterList_eq] at h
  exact params_of_columns
    (joined_unique rfl (hcomma s) (hcomma t) s.columns_ne_nil t.columns_ne_nil h)

end Signature

/-! ## Tables of rows -/

section Tables

variable {α : Type} {heading line : String} {row : α → String}

/-- A table with its heading and a rule, or a placeholder for no rows. -/
def tableRows (heading line : String) (row : α → String) (entries : List α) : List String :=
  if entries.isEmpty then ["(none)"] else heading :: line :: entries.map row

theorem forall_mem_tableRows {P : String → Prop} {entries : List α} (hnone : P "(none)")
    (hheading : P heading) (hline : P line) (hrow : ∀ e ∈ entries, P (row e)) :
    ∀ r ∈ tableRows heading line row entries, P r := by
  rw [tableRows]
  split
  · exact List.forall_mem_singleton.mpr hnone
  · exact List.forall_mem_cons.mpr
      ⟨hheading, List.forall_mem_cons.mpr ⟨hline, List.forall_mem_map.mpr hrow⟩⟩

theorem map_unique {xs ys : List α} (hrow : ∀ x ∈ xs, ∀ y ∈ ys, row x = row y → x = y)
    (h : xs.map row = ys.map row) : xs = ys := by
  induction xs generalizing ys with
  | nil => exact (List.map_eq_nil_iff.mp h.symm).symm
  | cons x xs ih =>
    obtain ⟨y, rest, rfl, hxy, hrest⟩ := List.map_eq_cons_iff.mp h.symm
    obtain rfl := hrow x List.mem_cons_self y List.mem_cons_self hxy.symm
    have htails : ∀ x' ∈ xs, ∀ y' ∈ rest, row x' = row y' → x' = y' := fun x' hx y' hy =>
      hrow x' (List.mem_cons_of_mem _ hx) y' (List.mem_cons_of_mem _ hy)
    rw [ih htails hrest.symm]

/-- A table shows its entries, if each row shows its own. -/
theorem tableRows_unique {xs ys : List α} (hrow : ∀ x ∈ xs, ∀ y ∈ ys, row x = row y → x = y)
    (h : tableRows heading line row xs = tableRows heading line row ys) : xs = ys := by
  rw [tableRows, tableRows] at h
  split at h <;> split at h
  case isTrue.isTrue hxs hys => rw [List.isEmpty_iff.mp hxs, List.isEmpty_iff.mp hys]
  case isTrue.isFalse => exact absurd (congrArg List.length h) (by simp)
  case isFalse.isTrue => exact absurd (congrArg List.length h) (by simp)
  case isFalse.isFalse => exact map_unique hrow (List.cons.inj (List.cons.inj h).2).2

end Tables

namespace SymbolTable

/-! ## Rows of the two tables -/

theorem variableRow_eq (name type : String) :
    variableRow name type = padRight 20 name ++ (" " ++ type) := by
  change "" ++ padRight 20 name ++ " " ++ type = _
  rw [String.empty_append, String.append_assoc]

theorem functionRow_eq (name returns params : String) :
    functionRow name returns params =
      padRight 20 name ++ (" " ++ (padRight 15 returns ++ (" " ++ params))) := by
  change "" ++ padRight 20 name ++ " " ++ padRight 15 returns ++ " " ++ params = _
  simp only [String.empty_append, String.append_assoc]

theorem variableRow_unique {v w : String × BaseType} (hv : ' ' ∉ v.1.toList)
    (hw : ' ' ∉ w.1.toList) (h : variableRow v.1 v.2.name = variableRow w.1 w.2.name) : v = w := by
  rw [variableRow_eq, variableRow_eq] at h
  obtain ⟨hname, htype⟩ := padRight_unique hv hw h
  exact Prod.ext hname (BaseType.name_injective htype)

theorem functionRow_unique {f g : String × Signature} (hf : ' ' ∉ f.1.toList)
    (hg : ' ' ∉ g.1.toList)
    (h : functionRow f.1 f.2.returns.name f.2.parameterList =
      functionRow g.1 g.2.returns.name g.2.parameterList) : f = g := by
  have hblank : ∀ b : BaseType, ' ' ∉ b.name.toList := fun b hmem =>
    absurd (BaseType.isAlpha_of_mem_name hmem) (by decide)
  rw [functionRow_eq, functionRow_eq] at h
  obtain ⟨hname, hbehind⟩ := padRight_unique hf hg h
  obtain ⟨hreturns, hparams⟩ := padRight_unique (hblank _) (hblank _) hbehind
  obtain ⟨name, returns, params⟩ := f
  obtain ⟨name', returns', params'⟩ := g
  obtain rfl : name = name' := hname
  obtain rfl : returns = returns' := BaseType.name_injective hreturns
  obtain rfl : params = params' := Signature.params_of_parameterList hparams
  rfl

/-! ## Lines of the report -/

/-- All names in the table are identifiers. -/
structure Spelt (t : SymbolTable) : Prop where
  globals : ∀ v ∈ t.globals, IsName v.1.toList
  functions : ∀ f ∈ t.functions, IsName f.1.toList

/-- What stands above the global variables. -/
def banner : List String := [doubleRule, "SYMBOL TABLE", doubleRule, "", "--- Global Variables ---"]

/-- The lines of the report. The first empty one below the banner ends the global variables. -/
def reportLines (t : SymbolTable) : List String :=
  banner ++ (t.variableRows ++ "" :: ("--- Functions ---" :: (t.functionRows ++ ["", doubleRule])))

theorem report_eq (t : SymbolTable) : t.report = Text.lines t.reportLines := by
  simp only [report, reportLines, banner, List.append_assoc]
  rfl

/-- The text is a part of one line. -/
def InLine (s : String) : Prop := '\n' ∉ s.toList

instance (s : String) : Decidable (InLine s) := inferInstanceAs (Decidable (_ ∉ _))

theorem InLine.append {s s' : String} (h : InLine s) (h' : InLine s') : InLine (s ++ s') := by
  rw [InLine, String.toList_append, List.mem_append]
  exact not_or.mpr ⟨h, h'⟩

theorem inLine_rule {c : Char} (hc : '\n' ≠ c) (n : Nat) : InLine (rule c n) := by
  rw [InLine, rule, String.toList_ofList]
  exact fun hmem => hc (List.eq_of_mem_replicate hmem)

theorem inLine_padRight (n : Nat) {s : String} (h : InLine s) : InLine (padRight n s) :=
  h.append (inLine_rule (by decide) _)

theorem inLine_variableRow {name type : String} (hname : InLine name) (htype : InLine type) :
    InLine (variableRow name type) := by
  have hblank : InLine " " := by decide
  rw [variableRow_eq]
  exact (inLine_padRight 20 hname).append (hblank.append htype)

theorem inLine_functionRow {name returns params : String} (hname : InLine name)
    (hreturns : InLine returns) (hparams : InLine params) :
    InLine (functionRow name returns params) := by
  have hblank : InLine " " := by decide
  rw [functionRow_eq]
  exact (inLine_padRight 20 hname).append
    (hblank.append ((inLine_padRight 15 hreturns).append (hblank.append hparams)))

theorem inLine_name {s : String} (h : IsName s.toList) : InLine s :=
  fun hmem => absurd (h.mem _ hmem) (by decide)

theorem inLine_type (b : BaseType) : InLine b.name := by
  cases b <;> decide

theorem inLine_intercalate {sep : String} (hsep : InLine sep) {parts : List String}
    (h : ∀ part ∈ parts, InLine part) : InLine (sep.intercalate parts) := by
  induction parts with
  | nil => exact fun hmem => nomatch hmem
  | cons part rest ih =>
    obtain ⟨hpart, hrest⟩ := List.forall_mem_cons.mp h
    cases rest with
    | nil => exact hpart
    | cons next rest =>
      rw [String.intercalate_cons_cons]
      exact (hpart.append hsep).append (ih hrest)

theorem inLine_parameterList (s : Signature) : InLine s.parameterList := by
  rw [Signature.parameterList_eq]
  exact inLine_intercalate (by decide) fun _ hcolumn =>
    Signature.not_mem_column hcolumn (by decide) (by decide)

variable {t u : SymbolTable}

theorem Spelt.inLine_variableRows (h : t.Spelt) : ∀ r ∈ t.variableRows, InLine r :=
  forall_mem_tableRows (by decide) (inLine_variableRow (by decide) (by decide))
    (inLine_rule (by decide) 35)
    fun v hv => inLine_variableRow (inLine_name (h.globals v hv)) (inLine_type v.2)

theorem Spelt.inLine_functionRows (h : t.Spelt) : ∀ r ∈ t.functionRows, InLine r :=
  forall_mem_tableRows (by decide) (inLine_functionRow (by decide) (by decide) (by decide))
    (inLine_rule (by decide) 65)
    fun f hf => inLine_functionRow (inLine_name (h.functions f hf)) (inLine_type f.2.returns)
      (inLine_parameterList f.2)

theorem Spelt.inLine_reportLines (h : t.Spelt) : ∀ line ∈ t.reportLines, InLine line := by
  have hdouble : InLine doubleRule := inLine_rule (by decide) _
  have hbanner : ∀ line ∈ banner, InLine line :=
    List.forall_mem_cons.mpr ⟨hdouble, List.forall_mem_cons.mpr ⟨by decide,
      List.forall_mem_cons.mpr ⟨hdouble, by decide⟩⟩⟩
  have hend : ∀ line ∈ ["", doubleRule], InLine line :=
    List.forall_mem_cons.mpr ⟨by decide, List.forall_mem_singleton.mpr hdouble⟩
  refine List.forall_mem_append.mpr ⟨hbanner, List.forall_mem_append.mpr ⟨h.inLine_variableRows, ?_⟩⟩
  exact List.forall_mem_cons.mpr ⟨by decide, List.forall_mem_cons.mpr ⟨by decide,
    List.forall_mem_append.mpr ⟨h.inLine_functionRows, hend⟩⟩⟩

/-- No row is empty. -/
theorem empty_not_mem_variableRows (t : SymbolTable) : "" ∉ t.variableRows := by
  have hrow : ∀ name type : String, "" ≠ variableRow name type := by
    intro name type h
    rw [variableRow_eq] at h
    have hchars := congrArg String.toList h
    simp at hchars
  have hrows : ∀ r ∈ t.variableRows, "" ≠ r :=
    forall_mem_tableRows (by decide) (hrow _ _) (by decide) fun v _ => hrow _ _
  exact fun hmem => hrows "" hmem rfl

/-- A report shows the whole table. -/
theorem Spelt.report_unique (ht : t.Spelt) (hu : u.Spelt) (h : t.report = u.report) :
    t.globals = u.globals ∧ t.functions = u.functions := by
  have hblank : ∀ {name : String}, IsName name.toList → ' ' ∉ name.toList :=
    fun h hmem => absurd (h.mem _ hmem) (by decide)
  rw [report_eq, report_eq] at h
  have hlines : t.reportLines = u.reportLines :=
    joined_unique rfl ht.inLine_reportLines hu.inLine_reportLines
      (List.cons_ne_nil _ _) (List.cons_ne_nil _ _) h
  obtain ⟨hvariables, hbehind⟩ := cut_unique t.empty_not_mem_variableRows
    u.empty_not_mem_variableRows (List.append_cancel_left hlines)
  have hfunctions := List.append_cancel_right (List.cons.inj hbehind).2
  exact ⟨tableRows_unique (fun v hv w hw => variableRow_unique (hblank (ht.globals v hv))
      (hblank (hu.globals w hw))) hvariables,
    tableRows_unique (fun f hf g hg => functionRow_unique (hblank (ht.functions f hf))
      (hblank (hu.functions g hg))) hfunctions⟩

end SymbolTable

/-! ## Names that were read -/

/-- The name is one of the tokens. -/
def Token.Occurs (ts : List Token) (name : String) : Prop := ∃ t ∈ ts, IsNamed name t

theorem Token.Stands.occurs {ts : List Token} {name : String} {p : Location}
    (h : Stands ts (IsNamed name) p) : Occurs ts name := by
  obtain ⟨t, ht, _, hnamed⟩ := h
  exact ⟨t, ht, hnamed⟩

open Token (Occurs)

namespace Stmt

variable {ts : List Token}

mutual
theorem occurs_functions : (s : Stmt) → s.Anchored ts → ∀ known : List (String × Signature),
    (∀ f ∈ known, Occurs ts f.1) → ∀ f ∈ s.functions known, Occurs ts f.1
  | declareFun name returns params body _, h, known, hknown => by
    simp only [functions]
    split
    · exact hknown
    · exact occurs_allFunctions body h.2.2 _
        (List.forall_mem_append.mpr ⟨hknown, List.forall_mem_singleton.mpr h.1.occurs⟩)
  | block body _, h, known, hknown => by
    simp only [functions]
    exact occurs_allFunctions body h known hknown
  | branch _ thenBody none _, h, known, hknown => by
    simp only [functions]
    exact occurs_functions thenBody h.2 known hknown
  | branch _ thenBody (some elseBody) _, h, known, hknown => by
    simp only [functions]
    exact occurs_functions elseBody h.2.2 _ (occurs_functions thenBody h.2.1 known hknown)
  | whileLoop _ body _, h, known, hknown => by
    simp only [functions]
    exact occurs_functions body h.2 known hknown
  | forLoop _ _ _ body _, h, known, hknown => by
    simp only [functions]
    exact occurs_functions body h.2.2.2 known hknown
  | declareVar _ _ _ _, _, known, hknown | ret _ _, _, known, hknown | print _ _, _, known, hknown
  | expr _ _, _, known, hknown => by
    simp only [functions]
    exact hknown

theorem occurs_allFunctions : (body : List Stmt) → AllAnchored ts body →
    ∀ known : List (String × Signature), (∀ f ∈ known, Occurs ts f.1) →
      ∀ f ∈ allFunctions known body, Occurs ts f.1
  | [], _, known, hknown => by
    simp only [allFunctions]
    exact hknown
  | s :: rest, h, known, hknown => by
    simp only [allFunctions]
    exact occurs_allFunctions rest h.2 _ (occurs_functions s h.1 known hknown)
end

end Stmt

theorem mem_of_mem_firsts {α : Type} : (entries : List (String × α)) →
    ∀ e ∈ firsts entries, e ∈ entries
  | [], _, h => nomatch h
  | first :: rest, e, h => by
    rw [firsts, List.eraseDupsBy_cons] at h
    rcases List.mem_cons.mp h with rfl | h
    · exact List.mem_cons_self
    · exact List.mem_cons_of_mem _ (List.mem_filter.mp (mem_of_mem_firsts _ e h)).1
termination_by entries => entries.length
decreasing_by exact Nat.lt_succ_of_le (List.length_filter_le _ _)

namespace Program

variable {ts : List Token} {p : Program}

theorem occurs_topVariables (h : Stmt.AllAnchored ts p) :
    ∀ v ∈ topVariables p, Occurs ts v.1 := by
  induction p with
  | nil => exact nofun
  | cons s rest ih =>
    intro v hv
    obtain ⟨s', hs', hvariable⟩ := List.mem_filterMap.mp hv
    rcases List.mem_cons.mp hs' with rfl | hs'
    · cases s' with
      | declareVar name type init q =>
        cases hvariable
        exact h.1.1.occurs
      | _ => cases hvariable
    · exact ih h.2 v (List.mem_filterMap.mpr ⟨s', hs', hvariable⟩)

end Program

theorem Token.isName_of_occurs {s name : String} {ts : List Token} (hs : ofText s = .ok ts)
    (h : Occurs ts name) : IsName name.toList := by
  obtain ⟨t, ht, hkind, rfl⟩ := h
  have hlexeme : IsLexeme t.kind t.lexeme.toList :=
    ((scan_eq_ok_iff.mp hs).readable rfl).lexemes (content t) (List.mem_map_of_mem ht)
  rw [hkind] at hlexeme
  cases hlexeme with
  | name h => exact h
  | spelt h => cases h

namespace Analysis

theorem ofText_eq_ok_iff {s : String} {a : Analysis} :
    ofText s = .ok a ↔
      ∃ ts p, Token.ofText s = .ok ts ∧ Program.ofTokens ts = .ok p ∧ ofProgram p = a := by
  have hread : ∀ {ts}, Token.ofText s = .ok ts →
      ofText s = (Program.ofTokens ts).mapError Failure.parse >>= fun p => .ok (ofProgram p) := by
    intro ts hts
    unfold ofText
    rw [hts]
    rfl
  constructor
  · intro h
    cases hts : Token.ofText s with
    | error e =>
      unfold ofText at h
      rw [hts] at h
      cases h
    | ok ts =>
      rw [hread hts] at h
      cases hp : Program.ofTokens ts with
      | error m =>
        rw [hp] at h
        cases h
      | ok p =>
        rw [hp] at h
        exact ⟨ts, p, rfl, hp, Except.ok.inj h⟩
  · rintro ⟨ts, p, hts, hp, rfl⟩
    rw [hread hts, hp]
    rfl

/-- The table of a text has identifiers for names. -/
theorem spelt_of_ofText {s : String} {a : Analysis} (h : ofText s = .ok a) : a.symbols.Spelt := by
  obtain ⟨ts, p, hts, hp, rfl⟩ := ofText_eq_ok_iff.mp h
  obtain ⟨hglobals, hfunctions⟩ := Program.symbols_of_ofTokens hp
  have hanchored := Program.anchored_of_ofTokens hp
  constructor
  · intro v hv
    rw [hglobals] at hv
    exact Token.isName_of_occurs hts
      (Program.occurs_topVariables hanchored v (mem_of_mem_firsts _ v hv))
  · intro f hf
    rw [hfunctions] at hf
    exact Token.isName_of_occurs hts (Stmt.occurs_allFunctions p hanchored [] nofun f hf)

/-- The report on the table of a text loses nothing: two reports are the same if and only if the
same global variables and the same functions are listed, with their types, in the same order. -/
theorem report_symbols_eq_iff {s s' : String} {a a' : Analysis} (h : ofText s = .ok a)
    (h' : ofText s' = .ok a') :
    a.symbols.report = a'.symbols.report ↔
      a.symbols.globals = a'.symbols.globals ∧ a.symbols.functions = a'.symbols.functions := by
  constructor
  · exact (spelt_of_ofText h).report_unique (spelt_of_ofText h')
  · rintro ⟨hglobals, hfunctions⟩
    simp only [SymbolTable.report, SymbolTable.variableRows, SymbolTable.functionRows, hglobals,
      hfunctions]

/-- The name is too long for its column. A report shows the types of the parameters, but not what
they are called. -/
theorem report_symbols_eq_iff_long :
    ∃ a b c : Analysis,
      ofText "int a_name_of_many_letters(float x) \x7b\x7d" = .ok a ∧
      ofText "int a_name_of_many_letters(float y) \x7b\x7d" = .ok b ∧
      ofText "int a_name_of_many_letters(int   y) \x7b\x7d" = .ok c ∧
      a.symbols.report = b.symbols.report ∧ a.symbols.report ≠ c.symbols.report := by
  let ts (k : Token.Kind) (word x : String) : List Token :=
    [⟨.intWord, "int", ⟨1, 1⟩⟩, ⟨.name, "a_name_of_many_letters", ⟨1, 5⟩⟩,
      ⟨.leftParen, "(", ⟨1, 27⟩⟩, ⟨k, word, ⟨1, 28⟩⟩, ⟨.name, x, ⟨1, 34⟩⟩,
      ⟨.rightParen, ")", ⟨1, 35⟩⟩, ⟨.leftBrace, "\x7b", ⟨1, 37⟩⟩, ⟨.rightBrace, "\x7d", ⟨1, 38⟩⟩]
  let p (x : String) (type : BaseType) : Program :=
    [.declareFun "a_name_of_many_letters" .int [⟨x, type, ⟨1, 34⟩⟩] [] ⟨1, 5⟩]
  have ha : ofText "int a_name_of_many_letters(float x) \x7b\x7d" = .ok (ofProgram (p "x" .float)) :=
    ofText_eq_ok_iff.mpr ⟨ts .floatWord "float" "x", _, by decide +kernel, rfl, rfl⟩
  have hb : ofText "int a_name_of_many_letters(float y) \x7b\x7d" = .ok (ofProgram (p "y" .float)) :=
    ofText_eq_ok_iff.mpr ⟨ts .floatWord "float" "y", _, by decide +kernel, rfl, rfl⟩
  have hc : ofText "int a_name_of_many_letters(int   y) \x7b\x7d" = .ok (ofProgram (p "y" .int)) :=
    ofText_eq_ok_iff.mpr ⟨ts .intWord "int" "y", _, by decide +kernel, rfl, rfl⟩
  have hdiffers : (ofProgram (p "x" .float)).symbols.functions ≠
      (ofProgram (p "y" .int)).symbols.functions := by decide
  exact ⟨_, _, _, ha, hb, hc, (report_symbols_eq_iff ha hb).mpr ⟨rfl, rfl⟩,
    fun heq => hdiffers ((report_symbols_eq_iff ha hc).mp heq).2⟩

end Analysis
end MiniCheck
