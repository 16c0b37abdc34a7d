import MiniCheck.Proofs.Tree.Names
import MiniCheck.Proofs.Tree.Renaming
import MiniCheck.Proofs.Typing.Silence

/-!
# Two checks in parallel

Of a symbol table a check looks at names alone, by asking what they mean and whether they are
declared. A check of renamed statements does the same as a check of the statements themselves
if its table gives the same answers to the questions that come up, that is about the names that
are mentioned. What the tables hold besides makes no difference.
-/

namespace MiniCheck

namespace Typing

section Steps

variable {σ α β : Type}

/-- From states that `R` relates, `x` and `y` come to states that it relates, and `A` relates
what they answer. -/
def Relates (R : σ → σ → Prop) (A : α → α → Prop) (x y : StateM σ α) : Prop :=
  ∀ s s', R s s' → A (x s).1 (y s').1 ∧ R (x s).2 (y s').2

namespace Relates

variable {R : σ → σ → Prop} {A : α → α → Prop} {B : β → β → Prop}

theorem pure {a b : α} (h : A a b) : Relates R A (Pure.pure a) (Pure.pure b) :=
  fun _ _ hs => ⟨h, hs⟩

theorem bind {x y : StateM σ α} {g h : α → StateM σ β} (hx : Relates R A x y)
    (hg : ∀ a b, A a b → Relates R B (g a) (h b)) : Relates R B (x >>= g) (y >>= h) := by
  intro s s' hs
  obtain ⟨ha, hs⟩ := hx s s' hs
  exact hg _ _ ha _ _ hs

theorem bind_eq {x y : StateM σ α} {g h : α → StateM σ β} (hx : Relates R Eq x y)
    (hg : ∀ a, Relates R B (g a) (h a)) : Relates R B (x >>= g) (y >>= h) :=
  hx.bind fun a _ hab => hab ▸ hg a

theorem ite {p : Prop} [Decidable p] {x x' y y' : StateM σ α} (hx : Relates R A x x')
    (hy : Relates R A y y') : Relates R A (if p then x else y) (if p then x' else y') := by
  split
  · exact hx
  · exact hy

/-- A second step that does more than the first, where it does not do the same. -/
theorem ite_of_imp {p q : Prop} [Decidable p] [Decidable q] {x x' y y' : StateM σ α} (hpq : q → p)
    (hx : Relates R A x x') (hy : Relates R A y y') (hmore : Relates R A x y') :
    Relates R A (if p then x else y) (if q then x' else y') := by
  by_cases hq : q
  · rw [if_pos hq, if_pos (hpq hq)]
    exact hx
  · rw [if_neg hq]
    split
    · exact hmore
    · exact hy

end Relates

end Steps

end Typing

/-! ## Renamed findings -/

namespace Fault

/-- The same fault, of what has other names. -/
def rename (ρ : Renaming) : Fault → Fault
  | duplicateVariable name => duplicateVariable (ρ.ofVariable name)
  | duplicateFunction name => duplicateFunction (ρ.ofFunction name)
  | undeclaredVariable name => undeclaredVariable (ρ.ofVariable name)
  | undeclaredFunction name => undeclaredFunction (ρ.ofFunction name)
  | initializer name expected found => initializer (ρ.ofVariable name) expected found
  | assignment name expected found => assignment (ρ.ofVariable name) expected found
  | argument function position expected found =>
    argument (ρ.ofFunction function) position expected found
  | argumentCount function expected found =>
    argumentCount (ρ.ofFunction function) expected found
  | returned expected found => returned expected found
  | operands op left right => operands op left right
  | negation found => negation found
  | condition construct found => condition construct found

end Fault

instance : Named Fault := ⟨Fault.rename⟩

instance : Named Diagnostic := ⟨fun ρ d => ⟨rename ρ d.fault, ρ.labels.place d.location⟩⟩

/-- The types of expressions that have new numbers. -/
def relabelTypes (r : Relabelling) (ns : List (Nat × Ty)) : List (Nat × Ty) :=
  ns.map fun n => (r.id n.1, n.2)

instance : Named Findings := ⟨fun ρ f => ⟨rename ρ f.diagnostics, relabelTypes ρ.labels f.types⟩⟩

/-- What was found in addition to `f`. -/
def Findings.onto (new f : Findings) : Findings :=
  ⟨new.diagnostics ++ f.diagnostics, new.types ++ f.types⟩

namespace Typing

/-- What was found since `f'` is what was found since `f`, renamed. -/
def Adds (ρ : Renaming) (f f' g g' : Findings) : Prop :=
  ∃ new : Findings, g = new.onto f ∧ g' = (rename ρ new).onto f'

/-- Tables that `T` relates answer the questions about the symbols of `N` in the same way, and
go on to be related. -/
structure Corresponds (ρ : Renaming) (N : Symbol → Prop) (T : SymbolTable → SymbolTable → Prop) :
    Prop where
  push {t u} (h : T t u) : T t.push u.push
  pop {t u} (h : T t u) : T t.pop u.pop
  typeOf? {t u name} (h : T t u) (hname : N (.ofVariable name)) :
    u.typeOf? (ρ.ofVariable name) = t.typeOf? name
  isSome_innermost {t u name} (h : T t u) (hname : N (.ofVariable name)) :
    (u.innermost.lookup (ρ.ofVariable name)).isSome = (t.innermost.lookup name).isSome
  bind {t u name} (h : T t u) (hname : N (.ofVariable name)) (type : BaseType) :
    T (t.bind name type) (u.bind (ρ.ofVariable name) type)
  signatureOf? {t u name} (h : T t u) (hname : N (.ofFunction name)) :
    u.signatureOf? (ρ.ofFunction name) = t.signatureOf? name
  learn {t u name} (h : T t u) (hname : N (.ofFunction name)) (signature : Signature) :
    T { t with known := (name, signature) :: t.known }
      { u with known := (ρ.ofFunction name, signature) :: u.known }

/-! ## Expressions -/

section Expressions

variable {ρ : Renaming} {N : Symbol → Prop} {T : SymbolTable → SymbolTable → Prop}
  {f f' : Findings} {t u : SymbolTable}

theorem parallel_report (fault : Fault) (p : Location) :
    Relates (Adds ρ f f') Eq (Findings.report fault p)
      (Findings.report (rename ρ fault) (ρ.labels.place p)) := by
  rintro _ _ ⟨new, rfl, rfl⟩
  exact ⟨rfl, ⟨⟨fault, p⟩ :: new.diagnostics, new.types⟩, rfl, rfl⟩

theorem parallel_record (m : Mark) (type : Ty) :
    Relates (Adds ρ f f') Eq (Findings.record m type)
      (Findings.record (relabel ρ.labels m) type) := by
  rintro _ _ ⟨new, rfl, rfl⟩
  exact ⟨rfl, ⟨new.diagnostics, (m.id, type) :: new.types⟩, rfl, rfl⟩

theorem parallel_operation (op : BinaryOp) (left right : Ty) (p : Location) :
    Relates (Adds ρ f f') Eq (operation op left right p)
      (operation op left right (ρ.labels.place p)) := by
  have hreport : Relates (Adds ρ f f') Eq (Findings.report (.operands op left right) p)
      (Findings.report (.operands op left right) (ρ.labels.place p)) := parallel_report _ p
  unfold operation
  refine .ite (.pure rfl) (.ite ?_ ?_)
  · exact hreport.bind_eq fun _ => .ite (.pure rfl) (.pure rfl)
  · exact .ite (.pure rfl) (.pure rfl)

theorem parallel_prefixed (op : UnaryOp) (found : Ty) (p : Location) :
    Relates (Adds ρ f f') Eq (prefixed op found p) (prefixed op found (ρ.labels.place p)) := by
  cases op with
  | not => exact .pure rfl
  | neg => exact .ite (.pure rfl) ((parallel_report (.negation found) p).bind_eq fun _ => .pure rfl)

mutual
theorem parallel_infer (hT : Corresponds ρ N T) (h : T t u) : (e : Expr) →
    (∀ n ∈ e.mentions, N n) → Relates (Adds ρ f f') Eq (infer t e) (infer u (rename ρ e))
  | .binary op left right m, hN => by
    obtain ⟨hleft, hright⟩ := List.forall_mem_append.mp hN
    exact (parallel_infer hT h left hleft).bind_eq fun l =>
      (parallel_infer hT h right hright).bind_eq fun r =>
        (parallel_operation op l r m.location).bind_eq fun type => parallel_record m type
  | .unary op operand m, hN =>
    (parallel_infer hT h operand hN).bind_eq fun found =>
      (parallel_prefixed op found m.location).bind_eq fun type => parallel_record m type
  | .assign name value m, hN => by
    obtain ⟨hname, hvalue⟩ := List.forall_mem_cons.mp hN
    have htypeOf := hT.typeOf? h hname
    change Relates _ _ (infer t (.assign name value m))
      (infer u (.assign (ρ.ofVariable name) (rename ρ value) (relabel ρ.labels m)))
    simp only [infer, htypeOf]
    cases t.typeOf? name with
    | none =>
      exact (parallel_report (.undeclaredVariable name) m.location).bind_eq fun _ =>
        parallel_record m _
    | some target =>
      exact (parallel_infer hT h value hvalue).bind_eq fun found =>
        .ite (parallel_record m _) ((parallel_report (.assignment name target found)
          m.location).bind_eq fun _ => parallel_record m _)
  | .var name m, hN => by
    have htypeOf := hT.typeOf? h (hN _ List.mem_cons_self)
    change Relates _ _ (infer t (.var name m))
      (infer u (.var (ρ.ofVariable name) (relabel ρ.labels m)))
    simp only [infer, htypeOf]
    cases t.typeOf? name with
    | none =>
      exact (parallel_report (.undeclaredVariable name) m.location).bind_eq fun _ =>
        parallel_record m _
    | some type => exact parallel_record m _
  | .number lexeme m, _ => parallel_record m _
  | .omitted m, _ => parallel_record m _
  | .call name args m, hN => by
    obtain ⟨hname, hargs⟩ := List.forall_mem_cons.mp hN
    have hsignature := hT.signatureOf? h hname
    rw [rename_call]
    simp only [infer, length_rename, hsignature]
    cases t.signatureOf? name with
    | none =>
      exact (parallel_report (.undeclaredFunction name) m.location).bind_eq fun _ =>
        parallel_record m _
    | some signature =>
      refine .ite ?_ ?_
      · exact (parallel_inferArguments hT h name 1 args signature.params hargs).bind_eq fun _ =>
          parallel_record m _
      · exact (parallel_report (.argumentCount name signature.params.length args.length)
          m.location).bind_eq fun _ => parallel_record m _

theorem parallel_inferArguments (hT : Corresponds ρ N T) (h : T t u) (function : String)
    (position : Nat) : (args : List Expr) → (params : List BaseType) →
      (∀ n ∈ Expr.allMentions args, N n) →
        Relates (Adds ρ f f') Eq (inferArguments t function position args params)
          (inferArguments u (ρ.ofFunction function) position (rename ρ args) params)
  | arg :: args, param :: params, hN => by
    obtain ⟨harg, hargs⟩ := List.forall_mem_append.mp hN
    rw [rename_cons]
    simp only [inferArguments, location_rename]
    have hrest := parallel_inferArguments hT h function (position + 1) args params hargs
    exact (parallel_infer hT h arg harg).bind_eq fun found =>
      .ite hrest ((parallel_report (.argument function position param found)
        arg.location).bind_eq fun _ => hrest)
  | [], _, _ => by
    unfold inferArguments
    exact .pure rfl
  | _ :: _, [], _ => by
    unfold inferArguments
    exact .pure rfl
end

end Expressions

end Typing

/-! ## Statements -/

/-- Two walks inside a function that returns `returns`, of which the one had found `f` and the
other `f'` when they began to go on alike. -/
structure Walk.Alongside (ρ : Renaming) (T : SymbolTable → SymbolTable → Prop) (f f' : Findings)
    (returns : Option BaseType) (w w' : Walk) : Prop where
  symbols : T w.symbols w'.symbols
  first : w.returns = returns
  second : w'.returns = returns
  findings : Typing.Adds ρ f f' w.findings w'.findings

namespace Walk

open Typing

section Statements

variable {ρ : Renaming} {N : Symbol → Prop} {T : SymbolTable → SymbolTable → Prop}
  {f f' : Findings} {returns : Option BaseType}

theorem parallel_report (fault : Fault) (p : Location) :
    Relates (Alongside ρ T f f' returns) Eq (report fault p)
      (report (rename ρ fault) (ρ.labels.place p)) := fun _ _ hw =>
  ⟨rfl, hw.symbols, hw.first, hw.second, (Typing.parallel_report fault p _ _ hw.findings).2⟩

theorem parallel_infer (hT : Corresponds ρ N T) {e : Expr} (he : ∀ n ∈ e.mentions, N n) :
    Relates (Alongside ρ T f f' returns) Eq (infer e) (infer (rename ρ e)) := fun _ _ hw =>
  have hinfer := Typing.parallel_infer hT hw.symbols e he _ _ hw.findings
  ⟨hinfer.1, hw.symbols, hw.first, hw.second, hinfer.2⟩

theorem parallel_declareVariable (hT : Corresponds ρ N T) {name : String}
    (hname : N (.ofVariable name)) (type : BaseType) (p : Location) :
    Relates (Alongside ρ T f f' returns) Eq (declare fun t => t.declareVariable name type p)
      (declare fun u => u.declareVariable (ρ.ofVariable name) type (ρ.labels.place p)) := by
  intro w w' hw
  have hsame := hT.isSome_innermost hw.symbols hname
  cases hd : (w.symbols.innermost.lookup name).isSome with
  | true =>
    rw [hd] at hsame
    have hrefused : w.symbols.declareVariable name type p =
        .error ⟨.duplicateVariable name, p⟩ := if_pos hd
    have hrefused' : w'.symbols.declareVariable (ρ.ofVariable name) type (ρ.labels.place p) =
        .error ⟨.duplicateVariable (ρ.ofVariable name), ρ.labels.place p⟩ := if_pos hsame
    rw [declare_of_error hrefused, declare_of_error hrefused']
    exact ⟨rfl, (parallel_report (.duplicateVariable name) p w w' hw).2⟩
  | false =>
    rw [hd] at hsame
    have htaken : w.symbols.declareVariable name type p = .ok (w.symbols.bind name type) :=
      if_neg (Bool.eq_false_iff.mp hd)
    have htaken' : w'.symbols.declareVariable (ρ.ofVariable name) type (ρ.labels.place p) =
        .ok (w'.symbols.bind (ρ.ofVariable name) type) := if_neg (Bool.eq_false_iff.mp hsame)
    rw [declare_of_ok htaken, declare_of_ok htaken']
    exact ⟨rfl, hT.bind hw.symbols hname type, hw.first, hw.second, hw.findings⟩

theorem parallel_declareFunction (hT : Corresponds ρ N T) {name : String}
    (hname : N (.ofFunction name)) (signature : Signature) (p : Location) :
    Relates (Alongside ρ T f f' returns) Eq (declare fun t => t.declareFunction name signature p)
      (declare fun u => u.declareFunction (ρ.ofFunction name) signature (ρ.labels.place p)) := by
  intro w w' hw
  have hsame : (w'.symbols.known.lookup (ρ.ofFunction name)).isSome =
      (w.symbols.known.lookup name).isSome :=
    congrArg Option.isSome (hT.signatureOf? hw.symbols hname)
  cases hd : (w.symbols.known.lookup name).isSome with
  | true =>
    rw [hd] at hsame
    have hrefused : w.symbols.declareFunction name signature p =
        .error ⟨.duplicateFunction name, p⟩ := if_pos hd
    have hrefused' : w'.symbols.declareFunction (ρ.ofFunction name) signature
        (ρ.labels.place p) = .error ⟨.duplicateFunction (ρ.ofFunction name), ρ.labels.place p⟩ :=
      if_pos hsame
    rw [declare_of_error hrefused, declare_of_error hrefused']
    exact ⟨rfl, (parallel_report (.duplicateFunction name) p w w' hw).2⟩
  | false =>
    rw [hd] at hsame
    have htaken : w.symbols.declareFunction name signature p =
        .ok { w.symbols with known := (name, signature) :: w.symbols.known } :=
      if_neg (Bool.eq_false_iff.mp hd)
    have htaken' : w'.symbols.declareFunction (ρ.ofFunction name) signature
        (ρ.labels.place p) = .ok { w'.symbols with
          known := (ρ.ofFunction name, signature) :: w'.symbols.known } :=
      if_neg (Bool.eq_false_iff.mp hsame)
    rw [declare_of_ok htaken, declare_of_ok htaken']
    exact ⟨rfl, hT.learn hw.symbols hname signature, hw.first, hw.second, hw.findings⟩

theorem parallel_framed (hT : Corresponds ρ N T) {x y : StateM Walk Unit}
    (h : Relates (Alongside ρ T f f' returns) Eq x y) :
    Relates (Alongside ρ T f f' returns) Eq (framed x) (framed y) := by
  intro w w' hw
  have hpush : Alongside ρ T f f' returns { w with symbols := w.symbols.push }
      { w' with symbols := w'.symbols.push } :=
    ⟨hT.push hw.symbols, hw.first, hw.second, hw.findings⟩
  have hinside := (h _ _ hpush).2
  exact ⟨rfl, hT.pop hinside.symbols, hinside.first, hinside.second, hinside.findings⟩

theorem parallel_returning (type : BaseType) {x y : StateM Walk Unit}
    (h : Relates (Alongside ρ T f f' (some type)) Eq x y) :
    Relates (Alongside ρ T f f' returns) Eq (returning type x) (returning type y) := by
  intro w w' hw
  have hinside := (h { w with returns := some type } { w' with returns := some type }
    ⟨hw.symbols, rfl, rfl, hw.findings⟩).2
  exact ⟨rfl, hinside.symbols, hw.first, hw.second, hinside.findings⟩

theorem parallel_parameters (hT : Corresponds ρ N T) {ps : List Param}
    (h : ∀ p ∈ ps, N (.ofVariable p.name)) :
    Relates (Alongside ρ T f f' returns) Eq (ps.forM parameter) ((rename ρ ps).forM parameter) := by
  induction ps with
  | nil => exact .pure rfl
  | cons p ps ih =>
    obtain ⟨hp, hps⟩ := List.forall_mem_cons.mp h
    have hparameter : Relates (Alongside ρ T f f' returns) Eq (parameter p)
        (parameter (rename ρ p)) :=
      (parallel_declareVariable hT hp p.type p.location).bind_eq fun _ => .pure rfl
    exact hparameter.bind_eq fun _ => ih hps

theorem parallel_condition (hT : Corresponds ρ N T) (construct : Construct) {e : Expr}
    (he : ∀ n ∈ e.mentions, N n) :
    Relates (Alongside ρ T f f' returns) Eq (condition construct e)
      (condition construct (rename ρ e)) := by
  unfold condition
  rw [location_rename]
  exact (parallel_infer hT he).bind_eq fun found =>
    .ite (.pure rfl) (parallel_report (.condition construct found) _)

theorem parallel_evaluate (hT : Corresponds ρ N T) {e : Expr} (he : ∀ n ∈ e.mentions, N n) :
    Relates (Alongside ρ T f f' returns) Eq (evaluate e) (evaluate (rename ρ e)) :=
  (parallel_infer hT he).bind_eq fun _ => .pure rfl

theorem parallel_clause {visit : Expr → StateM Walk Unit} {e : Expr}
    (h : Relates (Alongside ρ T f f' returns) Eq (visit e) (visit (rename ρ e))) :
    Relates (Alongside ρ T f f' returns) Eq (clause e visit) (clause (rename ρ e) visit) := by
  unfold clause
  rw [isOmitted_rename]
  exact .ite (.pure rfl) h

theorem parallel_initializer (hT : Corresponds ρ N T) (name : String) (type : BaseType)
    {init : Expr} (he : ∀ n ∈ init.mentions, N n) :
    Relates (Alongside ρ T f f' returns) Eq (initializer name type (some init))
      (initializer (ρ.ofVariable name) type (some (rename ρ init))) := by
  simp only [initializer, location_rename]
  exact (parallel_infer hT he).bind_eq fun found =>
    .ite (.pure rfl) (parallel_report (.initializer name type found) _)

theorem parallel_ret (hT : Corresponds ρ N T) {value : Expr} (he : ∀ n ∈ value.mentions, N n)
    (p : Location) :
    Relates (Alongside ρ T f f' returns) Eq (ret value p)
      (ret (rename ρ value) (ρ.labels.place p)) := by
  refine (parallel_infer hT he).bind_eq fun found => ?_
  rintro ⟨symbols, inside, findings⟩ ⟨symbols', inside', findings'⟩ hw
  obtain rfl : inside = returns := hw.first
  obtain rfl : inside' = inside := hw.second
  cases inside' with
  | none => exact ⟨rfl, hw⟩
  | some expected =>
    exact (Relates.ite (.pure rfl) (parallel_report (.returned expected found) p)) _ _ hw

mutual
theorem parallel_visit (hT : Corresponds ρ N T) {returns : Option BaseType} :
    (s : Stmt) → (∀ n ∈ s.mentions, N n) →
      Relates (Alongside ρ T f f' returns) Eq (visit s) (visit (rename ρ s))
  | .declareVar name type none p, h => by
    have hname : N (.ofVariable name) := h _ List.mem_cons_self
    change Relates _ _ (visit (.declareVar name type none p))
      (visit (.declareVar (ρ.ofVariable name) type none (ρ.labels.place p)))
    simp only [visit]
    exact (parallel_declareVariable hT hname type p).bind_eq fun _ =>
      .ite (.pure rfl) (.pure rfl)
  | .declareVar name type (some init) p, h => by
    obtain ⟨hname, hinit⟩ := List.forall_mem_cons.mp h
    change Relates _ _ (visit (.declareVar name type (some init) p))
      (visit (.declareVar (ρ.ofVariable name) type (some (rename ρ init)) (ρ.labels.place p)))
    simp only [visit]
    exact (parallel_declareVariable hT hname type p).bind_eq fun _ =>
      .ite (parallel_initializer hT name type hinit) (.pure rfl)
  | .declareFun name type params body p, h => by
    simp only [Stmt.mentions, List.forall_mem_cons, List.forall_mem_append,
      List.forall_mem_map] at h
    obtain ⟨hname, hparams, hbody⟩ := h
    rw [rename_declareFun]
    simp only [visit, map_type_rename]
    refine (parallel_declareFunction hT hname _ p).bind_eq fun _ => .ite ?_ (.pure rfl)
    exact parallel_returning type (parallel_framed hT ((parallel_parameters hT hparams).bind_eq
      fun _ => parallel_framed hT (parallel_visitAll hT body hbody)))
  | .block body p, h => by
    rw [rename_block]
    simp only [visit]
    exact parallel_framed hT (parallel_visitAll hT body h)
  | .branch e thenBody none p, h => by
    obtain ⟨he, hthen⟩ := List.forall_mem_append.mp h
    exact (parallel_condition hT .ifBranch he).bind_eq fun _ => parallel_visit hT thenBody hthen
  | .branch e thenBody (some elseBody) p, h => by
    obtain ⟨he, hbodies⟩ := List.forall_mem_append.mp h
    obtain ⟨hthen, helse⟩ := List.forall_mem_append.mp hbodies
    exact (parallel_condition hT .ifBranch he).bind_eq fun _ =>
      (parallel_visit hT thenBody hthen).bind_eq fun _ => parallel_visit hT elseBody helse
  | .whileLoop e body p, h => by
    obtain ⟨he, hbody⟩ := List.forall_mem_append.mp h
    exact (parallel_condition hT .whileLoop he).bind_eq fun _ => parallel_visit hT body hbody
  | .forLoop init e update body p, h => by
    simp only [Stmt.mentions, List.forall_mem_append] at h
    obtain ⟨hinit, he, hupdate, hbody⟩ := h
    exact (parallel_clause (parallel_evaluate hT hinit)).bind_eq fun _ =>
      (parallel_clause (parallel_condition hT .forLoop he)).bind_eq fun _ =>
        (parallel_clause (parallel_evaluate hT hupdate)).bind_eq fun _ =>
          parallel_visit hT body hbody
  | .ret value p, h => parallel_ret hT h p
  | .print value p, h => parallel_evaluate hT h
  | .expr value p, h => parallel_evaluate hT h

theorem parallel_visitAll (hT : Corresponds ρ N T) {returns : Option BaseType} :
    (body : List Stmt) → (∀ n ∈ Stmt.allMentions body, N n) →
      Relates (Alongside ρ T f f' returns) Eq (visitAll body) (visitAll (rename ρ body))
  | [], _ => .pure rfl
  | s :: rest, h => by
    obtain ⟨hs, hrest⟩ := List.forall_mem_append.mp h
    exact (parallel_visit hT s hs).bind_eq fun _ => parallel_visitAll hT rest hrest
end

end Statements

end Walk
end MiniCheck
