import MiniCheck.Proofs.Text.Delimiters
import MiniCheck.Proofs.Token.Lexemes
import MiniCheck.Tree.Summary

/-!
# What a summary shows

A summary can be read in one way only: where the text of one expression ends is settled by the
text itself, whatever stands behind it. So two expressions have the same summary if and only if
they differ in nothing but their marks and the arguments of their calls.
-/

namespace MiniCheck

open Token (IsName IsNumber)

/-- An expression without numbers and places, and with calls that only count their arguments. -/
inductive Sketch
  | binary (op : BinaryOp) (left right : Sketch)
  | unary (op : UnaryOp) (operand : Sketch)
  | assign (name : String) (value : Sketch)
  | var (name : String)
  | number (lexeme : String)
  | omitted
  | call (name : String) (count : Nat)
deriving DecidableEq, Repr

namespace Expr

def sketch : Expr → Sketch
  | binary op left right _ => .binary op left.sketch right.sketch
  | unary op operand _ => .unary op operand.sketch
  | assign name value _ => .assign name value.sketch
  | var name _ => .var name
  | number lexeme _ => .number lexeme
  | omitted _ => .omitted
  | call name args _ => .call name args.length

end Expr

namespace Sketch

/-- All names are identifiers and all literals are numbers. -/
def Spelt : Sketch → Prop
  | binary _ left right => left.Spelt ∧ right.Spelt
  | unary _ operand => operand.Spelt
  | assign name value => IsName name.toList ∧ value.Spelt
  | var name => IsName name.toList
  | number lexeme => IsNumber lexeme.toList
  | omitted => True
  | call name _ => IsName name.toList

/-- The text of a sketch in front of another text. -/
def before : Sketch → List Char → List Char
  | binary op left right, rest =>
    "BinaryOp(".toList ++
      left.before (' ' :: (op.symbol.toList ++ ' ' :: right.before (')' :: rest)))
  | unary op operand, rest => "UnaryOp(".toList ++ (op.symbol.toList ++ operand.before (')' :: rest))
  | assign name value, rest =>
    "Assign(".toList ++ (name.toList ++ ' ' :: ("= ".toList ++ value.before (')' :: rest)))
  | var name, rest => "Var(".toList ++ (name.toList ++ ')' :: rest)
  | number lexeme, rest => "Num(".toList ++ (lexeme.toList ++ ')' :: rest)
  | omitted, rest => "EmptyExpr()".toList ++ rest
  | call name count, rest =>
    "FuncCall(".toList ++ (name.toList ++ ',' :: ' ' ::
      ((toString count).toList ++ ' ' :: ("args)".toList ++ rest)))

end Sketch

/-- The summary of an expression is the text of its sketch. -/
theorem Expr.toList_summary_append : ∀ (e : Expr) (rest : List Char),
    e.summary.toList ++ rest = e.sketch.before rest
  | .binary op left right m, rest => by
    have htext : (binary op left right m).summary =
        "BinaryOp(" ++ (left.summary ++ (" " ++ (op.symbol ++ (" " ++ (right.summary ++ ")"))))) := by
      rw [summary_binary]
      simp only [toString, String.append_assoc]
    change _ = "BinaryOp(".toList ++
      left.sketch.before (' ' :: (op.symbol.toList ++ ' ' :: right.sketch.before (')' :: rest)))
    rw [htext, ← toList_summary_append right, ← toList_summary_append left]
    simp only [String.toList_append, List.append_assoc]
    rfl
  | .unary op operand m, rest => by
    have htext : (unary op operand m).summary =
        "UnaryOp(" ++ (op.symbol ++ (operand.summary ++ ")")) := by
      rw [summary_unary]
      simp only [toString, String.append_assoc]
    change _ = "UnaryOp(".toList ++ (op.symbol.toList ++ operand.sketch.before (')' :: rest))
    rw [htext, ← toList_summary_append operand]
    simp only [String.toList_append, List.append_assoc]
    rfl
  | .assign name value m, rest => by
    have htext : (assign name value m).summary =
        "Assign(" ++ (name ++ (" " ++ ("= " ++ (value.summary ++ ")")))) := by
      rw [summary_assign]
      simp only [toString, String.append_assoc]
      rfl
    change _ = "Assign(".toList ++ (name.toList ++ ' ' ::
      ("= ".toList ++ value.sketch.before (')' :: rest)))
    rw [htext, ← toList_summary_append value]
    simp only [String.toList_append, List.append_assoc]
    rfl
  | .var name m, rest => by
    change ("" ++ "Var(" ++ name ++ ")").toList ++ rest = _
    simp only [String.toList_append, List.append_assoc]
    rfl
  | .number lexeme m, rest => by
    change ("" ++ "Num(" ++ lexeme ++ ")").toList ++ rest = _
    simp only [String.toList_append, List.append_assoc]
    rfl
  | .omitted m, rest => rfl
  | .call name args m, rest => by
    change ("" ++ "FuncCall(" ++ name ++ ", " ++ toString args.length ++ " args)").toList ++ rest = _
    simp only [String.toList_append, List.append_assoc]
    rfl

theorem BinaryOp.symbol_injective {op op' : BinaryOp} (h : op.symbol = op'.symbol) : op = op' := by
  let ops : List BinaryOp := [add, sub, mul, div, mod, eq, ne, lt, le, gt, ge, and, or]
  have hmem : ∀ op : BinaryOp, op ∈ ops := fun op => by cases op <;> decide
  have hinjective : ∀ a ∈ ops, ∀ b ∈ ops, a.symbol = b.symbol → a = b := by decide +kernel
  exact hinjective op (hmem op) op' (hmem op') h

namespace Sketch

open Text (cut_unique)

/-! ## Where the parts of a summary end -/

theorem symbol_cut {op op' : BinaryOp} {rest rest' : List Char}
    (h : op.symbol.toList ++ ' ' :: rest = op'.symbol.toList ++ ' ' :: rest') :
    op = op' ∧ rest = rest' := by
  have hblank : ∀ op : BinaryOp, ' ' ∉ op.symbol.toList := fun op => by cases op <;> decide
  obtain ⟨hsymbols, hrest⟩ := cut_unique (hblank op) (hblank op') h
  exact ⟨BinaryOp.symbol_injective (String.toList_inj.mp hsymbols), hrest⟩

theorem sign_cut {op op' : UnaryOp} {rest rest' : List Char}
    (h : op.symbol.toList ++ rest = op'.symbol.toList ++ rest') : op = op' ∧ rest = rest' := by
  cases op <;> cases op' <;> first | exact ⟨rfl, (List.cons.inj h).2⟩ | cases congrArg List.head? h

theorem name_cut {name name' : String} {c : Char} {rest rest' : List Char}
    (hname : IsName name.toList) (hname' : IsName name'.toList) (hc : ¬ Token.IsWordChar c)
    (h : name.toList ++ c :: rest = name'.toList ++ c :: rest') : name = name' ∧ rest = rest' := by
  obtain ⟨hnames, hrest⟩ :=
    cut_unique (fun hmem => hc (hname.mem c hmem)) (fun hmem => hc (hname'.mem c hmem)) h
  exact ⟨String.toList_inj.mp hnames, hrest⟩

theorem lexeme_cut {lexeme lexeme' : String} {rest rest' : List Char}
    (hnumber : IsNumber lexeme.toList) (hnumber' : IsNumber lexeme'.toList)
    (h : lexeme.toList ++ ')' :: rest = lexeme'.toList ++ ')' :: rest') :
    lexeme = lexeme' ∧ rest = rest' := by
  have hparen : ∀ {cs}, IsNumber cs → ')' ∉ cs := fun h hmem =>
    absurd (h.mem _ hmem) (by decide)
  obtain ⟨hlexemes, hrest⟩ := cut_unique (hparen hnumber) (hparen hnumber') h
  exact ⟨String.toList_inj.mp hlexemes, hrest⟩

theorem count_cut {n n' : Nat} {rest rest' : List Char}
    (h : (toString n).toList ++ ' ' :: rest = (toString n').toList ++ ' ' :: rest') :
    n = n' ∧ rest = rest' := by
  have hdigits : ∀ n : Nat, (toString n).toList = Nat.toDigits 10 n := by
    intro n
    rw [Nat.toString_eq_ofList_toDigits, String.toList_ofList]
  have hblank : ∀ n, ' ' ∉ Nat.toDigits 10 n := fun n hmem =>
    absurd (Nat.isDigit_of_mem_toDigits (by decide) (by decide) hmem) (by decide)
  rw [hdigits, hdigits] at h
  obtain ⟨hcounts, hrest⟩ := cut_unique (hblank n) (hblank n') h
  have hvalue := congrArg (fun ds => Nat.ofDigitChars 10 ds 0) hcounts
  simp only [Nat.ofDigitChars_ten_toDigits] at hvalue
  exact ⟨hvalue, hrest⟩

/-! ## Unique readability -/

/-- The first letter of the text, which tells the form of the sketch. -/
def initial : Sketch → Char
  | binary .. => 'B'
  | unary .. => 'U'
  | assign .. => 'A'
  | var .. => 'V'
  | number .. => 'N'
  | omitted => 'E'
  | call .. => 'F'

theorem head?_before (s : Sketch) (rest : List Char) : (s.before rest).head? = some s.initial := by
  cases s <;> rfl

theorem initial_eq {s t : Sketch} {rest rest' : List Char} (h : s.before rest = t.before rest') :
    s.initial = t.initial := by
  have hhead := congrArg List.head? h
  rw [head?_before, head?_before] at hhead
  exact Option.some.inj hhead

/-- A sketch can be told from its text, and so can what stands behind it. -/
theorem before_unique {s t : Sketch} (hs : s.Spelt) (ht : t.Spelt) {rest rest' : List Char}
    (h : s.before rest = t.before rest') : s = t ∧ rest = rest' := by
  induction s generalizing t rest rest' with
  | binary op left right ihleft ihright =>
    cases t with
    | binary op' left' right' =>
      obtain ⟨rfl, hop⟩ := ihleft hs.1 ht.1 (List.append_cancel_left h)
      obtain ⟨rfl, hright⟩ := symbol_cut (List.cons.inj hop).2
      obtain ⟨rfl, hparen⟩ := ihright hs.2 ht.2 hright
      exact ⟨rfl, (List.cons.inj hparen).2⟩
    | _ => exact absurd (initial_eq h) (by simp [initial])
  | unary op operand ih =>
    cases t with
    | unary op' operand' =>
      obtain ⟨rfl, hoperand⟩ := sign_cut (List.append_cancel_left h)
      have ht : operand'.Spelt := ht
      obtain ⟨rfl, hparen⟩ := ih hs ht hoperand
      exact ⟨rfl, (List.cons.inj hparen).2⟩
    | _ => exact absurd (initial_eq h) (by simp [initial])
  | assign name value ih =>
    cases t with
    | assign name' value' =>
      obtain ⟨rfl, hvalue⟩ := name_cut hs.1 ht.1 (by decide) (List.append_cancel_left h)
      obtain ⟨rfl, hparen⟩ := ih hs.2 ht.2 (List.append_cancel_left hvalue)
      exact ⟨rfl, (List.cons.inj hparen).2⟩
    | _ => exact absurd (initial_eq h) (by simp [initial])
  | var name =>
    cases t with
    | var name' =>
      obtain ⟨rfl, hrest⟩ := name_cut hs ht (by decide) (List.append_cancel_left h)
      exact ⟨rfl, hrest⟩
    | _ => exact absurd (initial_eq h) (by simp [initial])
  | number lexeme =>
    cases t with
    | number lexeme' =>
      obtain ⟨rfl, hrest⟩ := lexeme_cut hs ht (List.append_cancel_left h)
      exact ⟨rfl, hrest⟩
    | _ => exact absurd (initial_eq h) (by simp [initial])
  | omitted =>
    cases t with
    | omitted => exact ⟨rfl, List.append_cancel_left h⟩
    | _ => exact absurd (initial_eq h) (by simp [initial])
  | call name count =>
    cases t with
    | call name' count' =>
      obtain ⟨rfl, hcount⟩ := name_cut hs ht (by decide) (List.append_cancel_left h)
      obtain ⟨rfl, hrest⟩ := count_cut (List.cons.inj hcount).2
      exact ⟨rfl, List.append_cancel_left hrest⟩
    | _ => exact absurd (initial_eq h) (by simp [initial])

end Sketch

/-- Two expressions have the same summary if and only if they are the same but for their numbers
and places and for the arguments of their calls, of which the number counts. -/
theorem Expr.summary_eq_iff {e e' : Expr} (h : e.sketch.Spelt) (h' : e'.sketch.Spelt) :
    e.summary = e'.summary ↔ e.sketch = e'.sketch := by
  rw [← String.toList_inj, ← List.append_nil e.summary.toList, ← List.append_nil e'.summary.toList,
    toList_summary_append, toList_summary_append]
  constructor
  · intro heq
    exact (Sketch.before_unique h h' heq).1
  · intro heq
    rw [heq]

/-- `a - b - c` and `a - (b - c)` have different summaries. `f(a)` and `f(1.5)` have the same one,
although they have other numbers and places. -/
theorem Expr.summary_eq_iff_grouped :
    let m : Mark := ⟨0, .first⟩
    let m' : Mark := ⟨1, ⟨2, 7⟩⟩
    let a := Expr.var "a" m
    let b := Expr.var "b" m
    let c := Expr.var "c" m'
    let leftmost := Expr.binary .sub (.binary .sub a b m) c m'
    let rightmost := Expr.binary .sub a (.binary .sub b c m') m
    let called (e : Expr) (p : Mark) := Expr.call "f" [e] p
    leftmost.sketch.Spelt ∧ rightmost.sketch.Spelt ∧ leftmost.summary ≠ rightmost.summary ∧
      (called a m).sketch.Spelt ∧ (called a m).summary = (called (.number "1.5" m') m').summary := by
  intro m m' a b c leftmost rightmost called
  have hname : ∀ x : Char, x.isAlpha = true → IsName [x] := fun x hx =>
    .intro (.inl hx) fun _ hmem => nomatch hmem
  have hleft : leftmost.sketch.Spelt := ⟨⟨hname 'a' rfl, hname 'b' rfl⟩, hname 'c' rfl⟩
  have hright : rightmost.sketch.Spelt := ⟨hname 'a' rfl, hname 'b' rfl, hname 'c' rfl⟩
  have hcall : ∀ e p, (called e p).sketch.Spelt := fun _ _ => hname 'f' rfl
  have hdiffers : leftmost.sketch ≠ rightmost.sketch := by
    intro heq
    cases heq
  exact ⟨hleft, hright, fun heq => hdiffers ((summary_eq_iff hleft hright).mp heq), hcall a m,
    (summary_eq_iff (hcall _ _) (hcall _ _)).mpr rfl⟩

end MiniCheck
