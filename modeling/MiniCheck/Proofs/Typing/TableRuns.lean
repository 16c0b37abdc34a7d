import MiniCheck.Proofs.Typing.Lookups
import MiniCheck.Proofs.Typing.Scopes

/-!
# Runs of symbol tables

Stored tables and the tables of a check cannot be told apart from stacks of lists by anything
that they are asked for, since each of their states is one of a stack written down in another
way.
-/

namespace MiniCheck

/-- Where no name stands twice, look-ups may begin at either end. -/
theorem lookup_reverse {α : Type} {list : List (String × α)} (h : (list.map Prod.fst).Nodup)
    (name : String) : list.reverse.lookup name = list.lookup name :=
  lookup_perm (List.reverse_perm list).symm h name

/-- The value of a name stands at the place of the name. -/
theorem lookup_eq_bind_idxOf? {α : Type} (list : List (String × α)) (name : String) :
    list.lookup name =
      ((list.map Prod.fst).idxOf? name).bind fun i => list[i]?.map Prod.snd := by
  induction list with
  | nil => rfl
  | cons first rest ih =>
    obtain ⟨key, value⟩ := first
    rw [List.map_cons, List.idxOf?, List.findIdx?_cons, List.lookup_cons]
    by_cases hname : key = name
    · simp [hname]
    · have hplace : (key == name) = false := beq_eq_false_iff_ne.mpr hname
      have hvalue : (name == key) = false := beq_eq_false_iff_ne.mpr (Ne.symm hname)
      simp only [hplace, hvalue, ih, List.idxOf?, Bool.false_eq_true, ↓reduceIte,
        Option.bind_map]
      rfl

theorem idxOf?_append_new {names : List String} {name : String} (h : name ∉ names)
    (other : String) :
    (names ++ [name]).idxOf? other =
      if other = name then some names.length else names.idxOf? other := by
  rw [List.idxOf?, List.findIdx?_append]
  by_cases hother : other = name
  · have hnone : names.findIdx? (· == name) = none := List.idxOf?_eq_none_iff.mpr h
    simp [hother, hnone]
  · have hne : (name == other) = false := beq_eq_false_iff_ne.mpr (Ne.symm hother)
    simp [hother, hne]

namespace Entries

/-- The frame that keeps the entries. -/
def stored (e : Entries BaseType) : StoredFrame := ⟨⟨e.get?⟩, e.names⟩

theorem stored_of_declare? {e e' : Entries BaseType} {name : String} {type : BaseType}
    (h : e.declare? name type = some e') : e'.stored = e.stored.insert name type := by
  have htypes : (⟨e'.get?⟩ : NameMap BaseType) = NameMap.insert ⟨e.get?⟩ name type :=
    NameMap.ext (get?_of_declare? h)
  have horder : e'.names = e.names ++ [name] := by
    rw [names, (of_declare?_eq_some h).2, List.map_append]
    rfl
  unfold stored StoredFrame.insert
  rw [htypes, horder]

theorem entries_stored (e : Entries BaseType) : e.stored.entries = e.list := by
  have hvalue (p : String × BaseType) (hp : p ∈ e.list) :
      ((e.get? p.1).map fun type => (p.1, type)) = some p := by
    rw [get?, lookup_of_mem e.nodup hp]
    rfl
  unfold StoredFrame.entries stored names
  rw [List.filterMap_map]
  exact (List.filterMap_congr hvalue).trans List.filterMap_some

theorem isSome_lookup_reverse {α : Type} (e : Entries α) (name : String) :
    (e.list.reverse.lookup name).isSome = decide (name ∈ e.names) := by
  rw [lookup_reverse e.nodup]
  exact e.isSome_get? name

end Entries

/-- The table that keeps the frames and the functions. -/
def Scopes.stored (m : Scopes) : StoredTable where
  scopes := (m.frames.map Entries.stored).reverse
  functions := m.functions.list
  places := ⟨fun name => m.functions.names.idxOf? name⟩

namespace StoredTable

def answer : TableRequest → StoredTable → Except Diagnostic Unit × StoredTable
  | .push, t => (.ok (), t.push)
  | .pop, t => (.ok (), t.pop)
  | .declareVariable name type p, t => t.declareVariable name type p
  | .declareFunction name signature p, t => t.declareFunction name signature p

def kind : TableKind StoredTable where
  fresh := empty
  answer := answer
  view t := ⟨t.depth, t.typeOf?, t.signatureOf?, t.globals, t.functions⟩

open Scopes (stored)

variable (m : Scopes)

theorem push_stored : m.stored.push = m.push.stored := by
  simp only [push, stored, Scopes.push, Scopes.frames, List.map_cons, List.reverse_cons]
  rfl

theorem pop_stored : m.stored.pop = m.pop.stored := by
  obtain ⟨innermost, outer, functions⟩ := m
  cases outer with
  | nil => rfl
  | cons f fs => simp [pop, stored, Scopes.pop, Scopes.frames]

theorem declareVariable_stored (name : String) (type : BaseType) (p : Location) :
    m.stored.declareVariable name type p =
      Prod.map id stored (m.declareVariable name type p) := by
  have hlast : m.stored.scopes.getLast? = some m.innermost.stored := by
    simp [stored, Scopes.frames]
  have hcontains : m.innermost.stored.types.contains name = decide (name ∈ m.innermost.names) :=
    m.innermost.isSome_get? name
  unfold declareVariable Scopes.declareVariable
  rw [hlast]
  simp only [hcontains]
  cases hdeclare : m.innermost.declare? name type with
  | none =>
    have hmem := Entries.declare?_eq_none_iff.mp hdeclare
    simp [hmem]
  | some f =>
    have hnew := (Entries.of_declare?_eq_some hdeclare).1
    simp [hnew, stored, Scopes.frames, Entries.stored_of_declare? hdeclare]

theorem declareFunction_stored (name : String) (signature : Signature) (p : Location) :
    m.stored.declareFunction name signature p =
      Prod.map id stored (m.declareFunction name signature p) := by
  have hcontains : m.stored.places.contains name = decide (name ∈ m.functions.names) := by
    rw [Bool.eq_iff_iff, decide_eq_true_iff]
    exact List.isSome_idxOf?
  unfold declareFunction Scopes.declareFunction
  simp only [hcontains]
  cases hdeclare : m.functions.declare? name signature with
  | none =>
    have hmem := Entries.declare?_eq_none_iff.mp hdeclare
    simp [hmem]
  | some fs =>
    obtain ⟨hnew, hlist⟩ := Entries.of_declare?_eq_some hdeclare
    have hnames : fs.names = m.functions.names ++ [name] := by simp [Entries.names, hlist]
    have hlength : m.functions.names.length = m.functions.list.length := List.length_map _
    have hplaces : (⟨fun other => fs.names.idxOf? other⟩ : NameMap Nat) =
        m.stored.places.insert name m.functions.list.length := by
      apply NameMap.ext
      intro other
      simp only [hnames, idxOf?_append_new hnew, hlength]
      rfl
    simp only [hnew, decide_false, Bool.false_eq_true, ↓reduceIte, Prod.map_apply, id_eq]
    simp only [stored, Scopes.frames, hlist, hplaces]

theorem globals_stored : m.stored.globals = m.global.list := by
  have hfirst : m.stored.scopes.head? = some m.global.stored := by
    rw [stored, List.head?_reverse, List.getLast?_map, List.getLast?_eq_some_getLast]
    rfl
  unfold globals
  rw [hfirst]
  exact m.global.entries_stored

theorem signatureOf?_stored (name : String) :
    m.stored.signatureOf? name = m.functions.get? name := by
  rw [Entries.get?, lookup_eq_bind_idxOf?]
  rfl

theorem typeOf?_stored (name : String) :
    m.stored.typeOf? name = m.frames.findSome? fun f => f.get? name := by
  unfold typeOf? stored
  rw [List.reverse_reverse, List.findSome?_map]
  rfl

theorem represents_scopes : TableKind.Represents kind Scopes.kind stored where
  fresh := rfl
  answer r m := by
    cases r with
    | push => exact congrArg (Prod.mk _) (push_stored m)
    | pop => exact congrArg (Prod.mk _) (pop_stored m)
    | declareVariable name type p => exact declareVariable_stored m name type p
    | declareFunction name signature p => exact declareFunction_stored m name signature p
  view m := by
    have htype : m.stored.typeOf? = m.view.typeOf? := funext (typeOf?_stored m)
    have hsignature : m.stored.signatureOf? = m.view.signatureOf? := funext (signatureOf?_stored m)
    have hdepth : m.stored.depth = m.view.depth := by simp [depth, stored, Scopes.view]
    have hglobals : m.stored.globals = m.view.globals := globals_stored m
    simp only [kind, htype, hsignature, hdepth, hglobals]
    rfl

end StoredTable

/-- The table of a check, which has the latest entries first. -/
def Scopes.listed (m : Scopes) : SymbolTable where
  inner := (m.frames.map fun f => f.list.reverse).dropLast
  outermost := m.global.list.reverse
  known := m.functions.list.reverse

namespace SymbolTable

/-- The answer to a declaration, and the table behind it. -/
def settle (t : SymbolTable) : Except Diagnostic SymbolTable → Except Diagnostic Unit × SymbolTable
  | .ok t' => (.ok (), t')
  | .error d => (.error d, t)

def answer : TableRequest → SymbolTable → Except Diagnostic Unit × SymbolTable
  | .push, t => (.ok (), t.push)
  | .pop, t => (.ok (), t.pop)
  | .declareVariable name type p, t => t.settle (t.declareVariable name type p)
  | .declareFunction name signature p, t => t.settle (t.declareFunction name signature p)

def kind : TableKind SymbolTable where
  fresh := empty
  answer := answer
  view t := ⟨t.depth, t.typeOf?, t.signatureOf?, t.globals, t.functions⟩

open Scopes (listed)

variable (m : Scopes)

theorem push_listed : m.listed.push = m.push.listed := by
  simp [push, listed, Scopes.push, Scopes.frames, Scopes.global, Entries.empty]

theorem pop_listed : m.listed.pop = m.pop.listed := by
  obtain ⟨innermost, outer, functions⟩ := m
  cases outer with
  | nil => rfl
  | cons f fs => simp [pop, listed, Scopes.pop, Scopes.frames, Scopes.global]

theorem innermost_listed : m.listed.innermost = m.innermost.list.reverse := by
  obtain ⟨innermost, outer, functions⟩ := m
  cases outer with
  | nil => rfl
  | cons f fs => rfl

theorem frames_listed : m.listed.frames = m.frames.map fun f => f.list.reverse := by
  have hne : (m.frames.map fun f => f.list.reverse) ≠ [] := List.cons_ne_nil _ _
  have hlast : m.global.list.reverse = (m.frames.map fun f => f.list.reverse).getLast hne :=
    (List.getLast_map hne).symm
  unfold frames listed
  rw [hlast]
  exact List.dropLast_append_getLast hne

theorem bind_listed {name : String} {type : BaseType} {f : Entries BaseType}
    (h : m.innermost.declare? name type = some f) :
    m.listed.bind name type = { m with innermost := f : Scopes }.listed := by
  have hlist := (Entries.of_declare?_eq_some h).2
  obtain ⟨innermost, outer, functions⟩ := m
  cases outer with
  | nil => simp [bind, listed, Scopes.frames, Scopes.global, hlist]
  | cons g fs => simp [bind, listed, Scopes.frames, Scopes.global, hlist]

theorem declareVariable_listed (name : String) (type : BaseType) (p : Location) :
    m.listed.settle (m.listed.declareVariable name type p) =
      Prod.map id listed (m.declareVariable name type p) := by
  unfold declareVariable Scopes.declareVariable
  rw [innermost_listed, Entries.isSome_lookup_reverse]
  cases hdeclare : m.innermost.declare? name type with
  | none =>
    have hmem := Entries.declare?_eq_none_iff.mp hdeclare
    simp [hmem, settle]
  | some f =>
    have hnew := (Entries.of_declare?_eq_some hdeclare).1
    simp [hnew, settle, bind_listed m hdeclare]

theorem declareFunction_listed (name : String) (signature : Signature) (p : Location) :
    m.listed.settle (m.listed.declareFunction name signature p) =
      Prod.map id listed (m.declareFunction name signature p) := by
  have hknown : (m.listed.known.lookup name).isSome = decide (name ∈ m.functions.names) :=
    m.functions.isSome_lookup_reverse name
  unfold declareFunction Scopes.declareFunction
  rw [hknown]
  cases hdeclare : m.functions.declare? name signature with
  | none =>
    have hmem := Entries.declare?_eq_none_iff.mp hdeclare
    simp [hmem, settle]
  | some fs =>
    obtain ⟨hnew, hlist⟩ := Entries.of_declare?_eq_some hdeclare
    simp [hnew, settle, listed, Scopes.frames, Scopes.global, hlist]

theorem typeOf?_listed (name : String) :
    m.listed.typeOf? name = m.frames.findSome? fun f => f.get? name := by
  unfold typeOf?
  rw [frames_listed, List.findSome?_map]
  congr 1
  funext f
  exact lookup_reverse f.nodup name

theorem represents_scopes : TableKind.Represents kind Scopes.kind listed where
  fresh := rfl
  answer r m := by
    cases r with
    | push => exact congrArg (Prod.mk _) (push_listed m)
    | pop => exact congrArg (Prod.mk _) (pop_listed m)
    | declareVariable name type p => exact declareVariable_listed m name type p
    | declareFunction name signature p => exact declareFunction_listed m name signature p
  view m := by
    have htype : m.listed.typeOf? = m.view.typeOf? := funext (typeOf?_listed m)
    have hsignature : m.listed.signatureOf? = m.view.signatureOf? :=
      funext fun name => lookup_reverse m.functions.nodup name
    have hdepth : m.listed.depth = m.view.depth := by
      simp [depth, listed, Scopes.view, Scopes.frames]
    have hglobals : m.listed.globals = m.view.globals := List.reverse_reverse _
    have hfunctions : m.listed.functions = m.view.functions := List.reverse_reverse _
    simp only [kind, htype, hsignature, hdepth, hglobals, hfunctions]
    rfl

end SymbolTable

/-- A stored table and the table of a check answer every sequence of requests like a stack of
lists, and look like it then. No name stands twice among the globals or the functions, and a
scope without loose ends leaves everything as it was, but for functions that are added. -/
theorem StoredTable.observes_scopes (rs : List TableRequest) :
    kind.observe rs = Scopes.kind.observe rs ∧
      SymbolTable.kind.observe rs = Scopes.kind.observe rs ∧
      let seen := (kind.observe rs).2
      (seen.globals.map Prod.fst).Nodup ∧ (seen.functions.map Prod.fst).Nodup ∧
        ∀ body, Balanced body →
          let behind := (kind.observe (rs ++ (.push :: body ++ [.pop]))).2
          behind.typeOf? = seen.typeOf? ∧ behind.globals = seen.globals ∧
            behind.depth = seen.depth ∧ seen.functions <+: behind.functions := by
  have hstored := StoredTable.represents_scopes.observe
  refine ⟨hstored rs, SymbolTable.represents_scopes.observe rs, ?_⟩
  let m := (Scopes.kind.run rs Scopes.kind.fresh).2
  have hseen : (kind.observe rs).2 = m.view := congrArg Prod.snd (hstored rs)
  rw [hseen]
  refine ⟨m.global.nodup, m.functions.nodup, ?_⟩
  intro body hbody
  obtain ⟨functions, hprefix, hscope⟩ := Scopes.run_balanced_scope hbody m
  have hbehind : (kind.observe (rs ++ (.push :: body ++ [.pop]))).2 =
      { m with functions : Scopes }.view := by
    rw [hstored, ← hscope, ← TableKind.run_append]
    rfl
  rw [hbehind]
  exact ⟨rfl, rfl, rfl, hprefix⟩

/-- The inner variable is forgotten and the function is not. -/
theorem StoredTable.observes_scopes_shadowing :
    let body : List TableRequest :=
      [.declareVariable "x" .float ⟨2, 9⟩, .declareFunction "f" ⟨.void, [.int]⟩ ⟨3, 6⟩]
    let seen :=
      (kind.observe (.declareVariable "x" .int ⟨1, 5⟩ :: (.push :: body ++ [.pop]))).2
    Balanced body ∧ seen.typeOf? "x" = some .int ∧ seen.globals = [("x", .int)] ∧
      seen.functions = [("f", ⟨.void, [.int]⟩)] := by
  intro body seen
  have hbody : Balanced body := .declareVariable _ _ _ (.declareFunction _ _ _ .nil)
  obtain ⟨htypes, hglobals, -, -⟩ :=
    (observes_scopes [.declareVariable "x" .int ⟨1, 5⟩]).2.2.2.2 body hbody
  exact ⟨hbody, congrFun htypes "x", hglobals, rfl⟩

end MiniCheck
