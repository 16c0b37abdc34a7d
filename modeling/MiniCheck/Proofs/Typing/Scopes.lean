import MiniCheck.Typing.StoredTable

/-!
# Stacks of lists

The plainest way to keep symbols is a stack of lists that is never empty, and a list of
functions, all without a name that stands twice. A scope that is opened and closed again leaves
such a stack as it was, whatever has been declared in between. Only functions stay.
-/

namespace MiniCheck

inductive TableRequest
  | push
  | pop
  | declareVariable (name : String) (type : BaseType) (p : Location)
  | declareFunction (name : String) (signature : Signature) (p : Location)
deriving DecidableEq, Repr

/-- What can be seen of a table. -/
structure TableView where
  depth : Nat
  typeOf? : String → Option BaseType
  signatureOf? : String → Option Signature
  globals : List (String × BaseType)
  functions : List (String × Signature)

/-- A way to keep tables, whose states are of type `σ`. -/
structure TableKind (σ : Type) where
  fresh : σ
  answer : TableRequest → σ → Except Diagnostic Unit × σ
  view : σ → TableView

namespace TableKind

variable {σ τ : Type} (k : TableKind σ) (l : TableKind τ)

/-- The answers to requests, one after the other, and the table behind them. -/
def run : List TableRequest → σ → List (Except Diagnostic Unit) × σ
  | [], s => ([], s)
  | r :: rs, s =>
    let (first, s) := k.answer r s
    let (rest, s) := run rs s
    (first :: rest, s)

/-- What can be seen from outside when requests are made of a fresh table. -/
def observe (rs : List TableRequest) : List (Except Diagnostic Unit) × TableView :=
  let (answers, s) := k.run rs k.fresh
  (answers, k.view s)

theorem run_append (rs rs' : List TableRequest) (s : σ) :
    (k.run (rs ++ rs') s).2 = (k.run rs' (k.run rs s).2).2 := by
  induction rs generalizing s with
  | nil => rfl
  | cons r rs ih => exact ih (k.answer r s).2

/-- The states of one kind stand for those of another. -/
structure Represents (f : τ → σ) : Prop where
  fresh : k.fresh = f l.fresh
  answer (r : TableRequest) (t : τ) : k.answer r (f t) = Prod.map id f (l.answer r t)
  view (t : τ) : k.view (f t) = l.view t

variable {k l} {f : τ → σ}

theorem Represents.run (h : Represents k l f) (rs : List TableRequest) (t : τ) :
    k.run rs (f t) = Prod.map id f (l.run rs t) := by
  induction rs generalizing t with
  | nil => rfl
  | cons r rs ih =>
    have hrest := ih (l.answer r t).2
    simp only [TableKind.run, h.answer, Prod.map_fst, Prod.map_snd, hrest]
    rfl

theorem Represents.observe (h : Represents k l f) (rs : List TableRequest) :
    k.observe rs = l.observe rs := by
  simp only [TableKind.observe, h.fresh, h.run]
  exact congrArg (Prod.mk _) (h.view _)

end TableKind

theorem nodup_names_append {α : Type} {list : List (String × α)} {name : String}
    (h : (list.map Prod.fst).Nodup) (hname : name ∉ list.map Prod.fst) (value : α) :
    ((list ++ [(name, value)]).map Prod.fst).Nodup := by
  rw [List.map_append]
  refine List.nodup_append.mpr ⟨h, by simp, ?_⟩
  intro other hother last hlast hsame
  have hlast : last = name := List.mem_singleton.mp hlast
  rw [hsame, hlast] at hother
  exact hname hother

/-- A list of named things in which no name stands twice. -/
structure Entries (α : Type) where
  list : List (String × α)
  nodup : (list.map Prod.fst).Nodup

namespace Entries

variable {α : Type} (e : Entries α)

def empty : Entries α := ⟨[], .nil⟩

def names : List String := e.list.map Prod.fst

def get? (name : String) : Option α := e.list.lookup name

/-- Adds an entry at the end, unless its name stands there already. -/
def declare? (name : String) (value : α) : Option (Entries α) :=
  if h : name ∈ e.names then none
  else some ⟨e.list ++ [(name, value)], nodup_names_append e.nodup h value⟩

theorem isSome_get? (name : String) : (e.get? name).isSome = decide (name ∈ e.names) := by
  rw [Bool.eq_iff_iff, decide_eq_true_iff]
  simp [get?, names, List.lookup_isSome_iff]

variable {e}

theorem declare?_eq_none_iff {name : String} {value : α} :
    e.declare? name value = none ↔ name ∈ e.names := by
  simp [declare?]

/-- What is declared stands at the end, and was not there before. -/
theorem of_declare?_eq_some {e' : Entries α} {name : String} {value : α}
    (h : e.declare? name value = some e') :
    name ∉ e.names ∧ e'.list = e.list ++ [(name, value)] := by
  unfold declare? at h
  split at h
  · cases h
  · rename_i hname
    cases h
    exact ⟨hname, rfl⟩

theorem get?_of_declare? {e' : Entries α} {name : String} {value : α}
    (h : e.declare? name value = some e') (other : String) :
    e'.get? other = if other = name then some value else e.get? other := by
  obtain ⟨hname, hlist⟩ := of_declare?_eq_some h
  have hfresh : e.list.lookup name = none := by
    have hsome := e.isSome_get? name
    simpa [hname, get?] using hsome
  unfold get?
  rw [hlist, List.lookup_append]
  by_cases hother : other = name
  · simp [hother, hfresh]
  · have hne : (other == name) = false := beq_eq_false_iff_ne.mpr hother
    simp [hother, List.lookup_cons, hne]

end Entries

/-- A stack of entries that is never empty, and entries for functions. -/
structure Scopes where
  innermost : Entries BaseType
  outer : List (Entries BaseType)
  functions : Entries Signature

namespace Scopes

variable (m : Scopes)

/-- All frames, the innermost first. -/
def frames : List (Entries BaseType) := m.innermost :: m.outer

def global : Entries BaseType := m.frames.getLast (List.cons_ne_nil _ _)

def push : Scopes := { m with innermost := .empty, outer := m.frames }

def pop : Scopes :=
  match m.outer with
  | [] => m
  | f :: fs => { m with innermost := f, outer := fs }

def declareVariable (name : String) (type : BaseType) (p : Location) :
    Except Diagnostic Unit × Scopes :=
  match m.innermost.declare? name type with
  | none => (.error ⟨.duplicateVariable name, p⟩, m)
  | some f => (.ok (), { m with innermost := f })

def declareFunction (name : String) (signature : Signature) (p : Location) :
    Except Diagnostic Unit × Scopes :=
  match m.functions.declare? name signature with
  | none => (.error ⟨.duplicateFunction name, p⟩, m)
  | some fs => (.ok (), { m with functions := fs })

def answer : TableRequest → Scopes → Except Diagnostic Unit × Scopes
  | .push, m => (.ok (), m.push)
  | .pop, m => (.ok (), m.pop)
  | .declareVariable name type p, m => m.declareVariable name type p
  | .declareFunction name signature p, m => m.declareFunction name signature p

def view : TableView where
  depth := m.frames.length
  typeOf? name := m.frames.findSome? fun f => f.get? name
  signatureOf? := m.functions.get?
  globals := m.global.list
  functions := m.functions.list

def kind : TableKind Scopes := ⟨⟨.empty, [], .empty⟩, answer, view⟩

end Scopes

/-- As many pops as pushes, each of them behind its push. -/
inductive Balanced : List TableRequest → Prop
  | nil : Balanced []
  | declareVariable (name : String) (type : BaseType) (p : Location) {rs : List TableRequest}
      (h : Balanced rs) : Balanced (.declareVariable name type p :: rs)
  | declareFunction (name : String) (signature : Signature) (p : Location)
      {rs : List TableRequest} (h : Balanced rs) :
      Balanced (.declareFunction name signature p :: rs)
  | scope {body rs : List TableRequest} (hbody : Balanced body) (h : Balanced rs) :
      Balanced (.push :: body ++ .pop :: rs)

namespace Scopes

/-- The second state has all frames of the first one, but perhaps more in the innermost, and
perhaps more functions. -/
structure Extends (m m' : Scopes) : Prop where
  outer : m'.outer = m.outer
  functions : m.functions.list <+: m'.functions.list

variable {m m' m'' : Scopes}

theorem Extends.trans (h : Extends m m') (h' : Extends m' m'') : Extends m m'' :=
  ⟨h'.outer.trans h.outer, h.functions.trans h'.functions⟩

theorem extends_declareVariable (m : Scopes) (name : String) (type : BaseType) (p : Location) :
    Extends m (m.declareVariable name type p).2 := by
  unfold declareVariable
  cases m.innermost.declare? name type with
  | none => exact ⟨rfl, List.prefix_rfl⟩
  | some f => exact ⟨rfl, List.prefix_rfl⟩

theorem extends_declareFunction (m : Scopes) (name : String) (signature : Signature)
    (p : Location) : Extends m (m.declareFunction name signature p).2 := by
  unfold declareFunction
  cases hdeclare : m.functions.declare? name signature with
  | none => exact ⟨rfl, List.prefix_rfl⟩
  | some fs =>
    have hlist := (Entries.of_declare?_eq_some hdeclare).2
    exact ⟨rfl, hlist ▸ List.prefix_append _ _⟩

/-- What a scope has done to the frames is undone at its end. -/
theorem pop_of_extends_push (h : Extends m.push m') :
    m'.pop = { m with functions := m'.functions } := by
  unfold pop
  rw [h.outer]
  rfl

theorem run_scope (body rs : List TableRequest) (m : Scopes) :
    (kind.run (.push :: body ++ .pop :: rs) m).2 =
      (kind.run rs (kind.run body m.push).2.pop).2 :=
  kind.run_append body (.pop :: rs) m.push

theorem extends_run {rs : List TableRequest} (h : Balanced rs) (m : Scopes) :
    Extends m (kind.run rs m).2 := by
  induction h generalizing m with
  | nil => exact ⟨rfl, List.prefix_rfl⟩
  | declareVariable name type p h ih =>
    exact (m.extends_declareVariable name type p).trans (ih _)
  | declareFunction name signature p h ih =>
    exact (m.extends_declareFunction name signature p).trans (ih _)
  | @scope body _ hbody h ihbody ih =>
    have hscope := ihbody m.push
    have hbehind : Extends m (kind.run body m.push).2.pop := by
      rw [pop_of_extends_push hscope]
      exact ⟨rfl, hscope.functions⟩
    rw [run_scope]
    exact hbehind.trans (ih _)

/-- A scope leaves all frames as they were and adds functions at most. -/
theorem run_balanced_scope {body : List TableRequest} (h : Balanced body) (m : Scopes) :
    ∃ functions, m.functions.list <+: functions.list ∧
      (kind.run (.push :: body ++ [.pop]) m).2 = { m with functions } := by
  have hscope := extends_run h m.push
  exact ⟨_, hscope.functions, (run_scope body [] m).trans (pop_of_extends_push hscope)⟩

end Scopes
end MiniCheck
