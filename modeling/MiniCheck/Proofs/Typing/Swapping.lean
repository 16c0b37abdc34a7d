import MiniCheck.Proofs.Typing.Footprint
import MiniCheck.Proofs.Typing.Framing
import MiniCheck.Proofs.Typing.Skipping

/-!
# Declarations in another order

A check of a statement looks at nothing but what the names in it mean. So two declarations of
which neither declares a name that the other mentions are checked in either order alike, and
what follows them cannot tell in which order they came.
-/

namespace MiniCheck

/-- Neither declaration mentions what the other one declares for what follows it. -/
structure Stmt.Independent (a b : Stmt) : Prop where
  left : ∀ n ∈ a.exports, n ∉ b.mentions
  right : ∀ n ∈ b.exports, n ∉ a.mentions

namespace SymbolTable

/-- The tables differ at most in what global symbols outside of `N` mean. -/
structure Same (N : Symbol → Prop) (t u : SymbolTable) : Prop where
  inner : u.inner = t.inner
  agree : ∀ n, N n → Agree t u n

theorem typeOf?_of_inner {t u : SymbolTable} {name : String} (hinner : u.inner = t.inner)
    (h : Agree t u (.ofVariable name)) : u.typeOf? name = t.typeOf? name := by
  have hglobal : [t.outermost].findSome? (fun frame => frame.lookup name) =
      [u.outermost].findSome? fun frame => frame.lookup name := by
    have hlookup : t.outermost.lookup name = u.outermost.lookup name := h
    rw [List.findSome?_cons, List.findSome?_cons, hlookup]
  unfold typeOf? frames
  rw [hinner, List.findSome?_append, List.findSome?_append, hglobal]

theorem corresponds_same (N : Symbol → Prop) :
    Typing.Corresponds (.ofLabels .unchanged) N (Same N) where
  push h := ⟨congrArg (List.cons []) h.inner, h.agree⟩
  pop h := ⟨congrArg List.tail h.inner, h.agree⟩
  typeOf? h hname := typeOf?_of_inner h.inner (h.agree _ hname)
  isSome_innermost := by
    rintro ⟨inner, outermost, known⟩ ⟨inner', outermost', known'⟩ name ⟨hinner, h⟩ hname
    obtain rfl : inner' = inner := hinner
    cases inner' with
    | nil => exact congrArg Option.isSome (Eq.symm (h _ hname))
    | cons frame inner => rfl
  bind := by
    rintro ⟨inner, outermost, known⟩ ⟨inner', outermost', known'⟩ name ⟨hinner, h⟩ hname type
    obtain rfl : inner' = inner := hinner
    cases inner' with
    | nil =>
      refine ⟨rfl, fun n hn => ?_⟩
      cases n with
      | ofVariable other => exact lookup_cons_congr (h _ hn) (name, type)
      | ofFunction other => exact h _ hn
    | cons frame inner => exact ⟨rfl, h⟩
  signatureOf? h hname := Eq.symm (h.agree _ hname)
  learn := by
    rintro t u name h hname signature
    refine ⟨h.inner, fun n hn => ?_⟩
    cases n with
    | ofVariable other => exact h.agree _ hn
    | ofFunction other => exact lookup_cons_congr (h.agree _ hn) (name, signature)

end SymbolTable

namespace Walk

open SymbolTable (Same Agree)

/-- The walk behind some statements. -/
def behind (w : Walk) (body : List Stmt) : Walk := (visitAll body w).2

section Behind

variable {w v : Walk} {body rest : List Stmt} {a b : Stmt}

theorem behind_append (w : Walk) (body rest : List Stmt) :
    w.behind (body ++ rest) = (w.behind body).behind rest := by
  induction body generalizing w with
  | nil => rfl
  | cons s body ih => exact ih (visit s w).2

theorem symbols_behind (w : Walk) (body : List Stmt) :
    (w.behind body).symbols = w.symbols.afterAll body := symbols_visitAll body w

/-- The walk is neither inside a block nor inside a function. -/
structure AtTop (w : Walk) : Prop where
  inner : w.symbols.inner = []
  returns : w.returns = none

/-- Two walks through the same statements, in which the names mean the same. -/
theorem alongside_behind {N : Symbol → Prop} (body : List Stmt)
    (hbody : ∀ n ∈ Stmt.allMentions body, N n) (hw : w.AtTop) (hv : v.AtTop)
    (h : ∀ n, N n → Agree w.symbols v.symbols n) :
    Alongside (.ofLabels .unchanged) (Same N) w.findings v.findings none (w.behind body)
      (v.behind body) := by
  have hstart : Alongside (.ofLabels .unchanged) (Same N) w.findings v.findings none w v :=
    ⟨⟨hv.inner.trans hw.inner.symm, h⟩, hw.returns, hv.returns, .nothing, rfl, rfl⟩
  have hparallel := parallel_visitAll (SymbolTable.corresponds_same N) body hbody _ _ hstart
  rw [program_rename_unchanged] at hparallel
  exact hparallel.2

theorem AtTop.behind (hw : w.AtTop) (body : List Stmt) : (w.behind body).AtTop := by
  constructor
  · rw [symbols_behind]
    exact (SymbolTable.extends_afterAll body w.symbols).inner_nil hw.inner
  · exact (alongside_behind body (fun _ _ => trivial) hw hw fun n _ => .refl w.symbols n).first

/-- Where the names in them mean the same, the same is found in some statements, and the names
go on to mean the same. -/
theorem exists_findings {N : Symbol → Prop} (body : List Stmt)
    (hbody : ∀ n ∈ Stmt.allMentions body, N n) (hw : w.AtTop) (hv : v.AtTop)
    (h : ∀ n, N n → Agree w.symbols v.symbols n) :
    ∃ new : Findings, (w.behind body).findings = new.onto w.findings ∧
      (v.behind body).findings = new.onto v.findings ∧
      Same N (w.behind body).symbols (v.behind body).symbols := by
  have halongside := alongside_behind body hbody hw hv h
  obtain ⟨new, hnew, hnew'⟩ := halongside.exists_findings
  exact ⟨new, hnew, hnew', halongside.symbols⟩

theorem agree_behind (ha : a.isDeclaration = true) (hw : w.AtTop) {n : Symbol}
    (hn : n ∉ a.exports) : Agree w.symbols (w.behind [a]).symbols n := by
  rw [symbols_behind]
  exact SymbolTable.agree_after ha hw.inner hn

/-- A declaration that does not mention what `b` declares finds the same behind `b`. -/
theorem exists_findings_behind (hb : b.isDeclaration = true) (hw : w.AtTop)
    (h : ∀ n ∈ b.exports, n ∉ a.mentions) :
    ∃ new : Findings, (w.behind [a]).findings = new.onto w.findings ∧
      (w.behind [b, a]).findings = new.onto (w.behind [b]).findings ∧
      ∀ n ∈ a.mentions, Agree (w.behind [a]).symbols (w.behind [b, a]).symbols n := by
  have hmentions : ∀ n ∈ Stmt.allMentions [a], n ∈ a.mentions := by
    intro n hn
    rw [Stmt.allMentions, Stmt.allMentions, List.append_nil] at hn
    exact hn
  obtain ⟨new, hnew, hnew', hsame⟩ := exists_findings [a] hmentions hw (hw.behind [b])
    fun n hn => agree_behind hb hw fun hexports => h n hexports hn
  rw [← behind_append w [b] [a]] at hnew' hsame
  exact ⟨new, hnew, hnew', hsame.agree⟩

theorem agree_swapped_of_not_mem (ha : a.isDeclaration = true) (hb : b.isDeclaration = true)
    (hw : w.AtTop) (h : ∀ n ∈ b.exports, n ∉ a.mentions) {n : Symbol} (hn : n ∉ b.exports) :
    Agree (w.behind [a, b]).symbols (w.behind [b, a]).symbols n := by
  obtain ⟨_, _, _, hmentioned⟩ := exists_findings_behind hb hw h
  have hlast : Agree (w.behind [a]).symbols (w.behind [a, b]).symbols n :=
    agree_behind hb (hw.behind [a]) hn
  refine hlast.symm.trans ?_
  by_cases hmem : n ∈ a.mentions
  · exact hmentioned n hmem
  · -- Neither declaration touches the symbol.
    have hexports : n ∉ a.exports := fun hexports => hmem (a.exports_subset_mentions n hexports)
    have hbehind : Agree (w.behind [b]).symbols (w.behind [b, a]).symbols n :=
      agree_behind ha (hw.behind [b]) hexports
    exact (agree_behind ha hw hexports).symm.trans ((agree_behind hb hw hn).trans hbehind)

/-- Behind independent declarations every symbol means the same in either order. -/
theorem agree_swapped (ha : a.isDeclaration = true) (hb : b.isDeclaration = true)
    (h : a.Independent b) (hw : w.AtTop) (n : Symbol) :
    Agree (w.behind [a, b]).symbols (w.behind [b, a]).symbols n := by
  by_cases hn : n ∈ b.exports
  · have hexports : n ∉ a.exports := fun hexports =>
      h.right n hn (a.exports_subset_mentions n hexports)
    exact (agree_swapped_of_not_mem hb ha hw h.left hexports).symm
  · exact agree_swapped_of_not_mem ha hb hw h.right hn

/-- What is found in two independent declarations and in what follows them is the same in either
order, up to the order. -/
theorem exists_findings_swapped (ha : a.isDeclaration = true) (hb : b.isDeclaration = true)
    (h : a.Independent b) (hw : w.AtTop) (post : List Stmt) :
    ∃ ofA ofB later : Findings,
      ((w.behind [a]).findings = ofA.onto w.findings ∧
        (w.behind [a, b]).findings = ofB.onto (ofA.onto w.findings) ∧
        (w.behind ([a, b] ++ post)).findings = later.onto (ofB.onto (ofA.onto w.findings))) ∧
      ((w.behind [b]).findings = ofB.onto w.findings ∧
        (w.behind [b, a]).findings = ofA.onto (ofB.onto w.findings) ∧
        (w.behind ([b, a] ++ post)).findings = later.onto (ofA.onto (ofB.onto w.findings))) ∧
      Same (fun _ => True) (w.behind ([a, b] ++ post)).symbols
        (w.behind ([b, a] ++ post)).symbols := by
  -- Each declaration finds the same alone as behind the other one.
  obtain ⟨ofA, hA, hBA, _⟩ := exists_findings_behind hb hw h.right
  obtain ⟨ofB, hB, hAB, _⟩ := exists_findings_behind ha hw h.left
  obtain ⟨later, hlater, hlater', hsame⟩ := exists_findings post (fun _ _ => trivial)
    (hw.behind [a, b]) (hw.behind [b, a]) fun n _ => agree_swapped ha hb h hw n
  rw [hA] at hAB
  rw [hB] at hBA
  rw [hAB] at hlater
  rw [hBA] at hlater'
  rw [behind_append, behind_append]
  exact ⟨ofA, ofB, later, ⟨hA, hAB, hlater⟩, ⟨hB, hBA, hlater'⟩, hsame⟩

end Behind

end Walk

namespace Analysis

open Walk (exists_findings_swapped)

theorem ofProgram_append (pre body : Program) :
    ofProgram (pre ++ body) = ofWalk ((Walk.start.behind pre).behind body) :=
  congrArg ofWalk (Walk.behind_append Walk.start pre body)

theorem reverse_diagnostics_onto (new f : Findings) :
    (new.onto f).diagnostics.reverse = f.diagnostics.reverse ++ new.diagnostics.reverse :=
  List.reverse_append

/-- Of types that are recorded once for each expression, the order makes no difference. -/
theorem typeOf?_of_onto {w v : Walk} {ofA ofB later f : Findings}
    (hw : w.findings = later.onto (ofB.onto (ofA.onto f)))
    (hv : v.findings = later.onto (ofA.onto (ofB.onto f)))
    (h : ((ofWalk w).types.map Prod.fst).Nodup) (i : Nat) :
    (ofWalk v).typeOf? i = (ofWalk w).typeOf? i := by
  have hperm : w.findings.types.Perm v.findings.types := by
    have hswap : (ofB.types ++ (ofA.types ++ f.types)).Perm
        (ofA.types ++ (ofB.types ++ f.types)) := List.perm_append_comm_assoc _ _ _
    rw [hw, hv]
    exact hswap.append_left later.types
  exact lookup_perm ((List.reverse_perm _).trans (hperm.trans (List.reverse_perm _).symm)) h i

/-- Two independent declarations that stand next to each other can change places. Every
expression keeps its type and every name its meaning, and of the reports just those that come
from the two declarations change places as well. -/
theorem ofProgram_swap {pre post : Program} {a b : Stmt}
    (hids : (Program.ids (pre ++ [a, b] ++ post)).Nodup) (ha : a.isDeclaration = true)
    (hb : b.isDeclaration = true) (h : a.Independent b) :
    let p := ofProgram (pre ++ [a, b] ++ post)
    let q := ofProgram (pre ++ [b, a] ++ post)
    let before := (ofProgram pre).diagnostics
    (∀ i, q.typeOf? i = p.typeOf? i) ∧
      (∀ name, q.symbols.typeOf? name = p.symbols.typeOf? name) ∧
      (∀ name, q.symbols.signatureOf? name = p.symbols.signatureOf? name) ∧
      ∃ ofA ofB later : List Diagnostic,
        ((ofProgram (pre ++ [a])).diagnostics = before ++ ofA ∧
          (ofProgram (pre ++ [a, b])).diagnostics = before ++ ofA ++ ofB ∧
          p.diagnostics = before ++ ofA ++ ofB ++ later) ∧
        ((ofProgram (pre ++ [b])).diagnostics = before ++ ofB ∧
          (ofProgram (pre ++ [b, a])).diagnostics = before ++ ofB ++ ofA ∧
          q.diagnostics = before ++ ofB ++ ofA ++ later) := by
  rw [List.append_assoc] at hids
  rw [List.append_assoc, List.append_assoc pre [b, a] post]
  intro p q before
  let w := Walk.start.behind pre
  have hw : w.AtTop := Walk.AtTop.behind ⟨rfl, rfl⟩ pre
  obtain ⟨ofA, ofB, later, ⟨hA, hAB, hp⟩, ⟨hB, hBA, hq⟩, hsame⟩ :=
    exists_findings_swapped ha hb h hw post
  have hrun : p = ofWalk (w.behind ([a, b] ++ post)) := ofProgram_append pre _
  have hrun' : q = ofWalk (w.behind ([b, a] ++ post)) := ofProgram_append pre _
  have hnodup : (p.types.map Prod.fst).Nodup := by
    have hall := (Program.types_append_skipped_perm _).nodup_iff.mpr hids
    exact (List.nodup_append.mp hall).1
  have hreports : ∀ {body f}, (w.behind body).findings = f →
      (ofProgram (pre ++ body)).diagnostics = f.diagnostics.reverse := by
    rintro body _ rfl
    exact congrArg Analysis.diagnostics (ofProgram_append pre body)
  have hbefore : before = w.findings.diagnostics.reverse := rfl
  refine ⟨fun i => ?_, fun name => ?_, fun name => ?_, ofA.diagnostics.reverse,
    ofB.diagnostics.reverse, later.diagnostics.reverse, ⟨?_, ?_, ?_⟩, ⟨?_, ?_, ?_⟩⟩
  · rw [hrun] at hnodup ⊢
    rw [hrun']
    exact typeOf?_of_onto hp hq hnodup i
  · rw [hrun, hrun']
    exact SymbolTable.typeOf?_of_inner hsame.inner (hsame.agree (.ofVariable name) trivial)
  · rw [hrun, hrun']
    exact Eq.symm (hsame.agree (.ofFunction name) trivial)
  · rw [hreports hA, reverse_diagnostics_onto, hbefore]
  · rw [hreports hAB, reverse_diagnostics_onto, reverse_diagnostics_onto, hbefore]
  · simp only [p, hreports hp, reverse_diagnostics_onto, hbefore]
  · rw [hreports hB, reverse_diagnostics_onto, hbefore]
  · rw [hreports hBA, reverse_diagnostics_onto, reverse_diagnostics_onto, hbefore]
  · simp only [q, hreports hq, reverse_diagnostics_onto, hbefore]

/-- The reports about `int x = u;` and `int f() \x7b return g(); \x7d` come in the order in which
these stand, and a second `int x;` is refused behind them in either order. -/
theorem ofProgram_swap_unrelated :
    let a : Stmt := .declareVar "x" .int (some (.var "u" ⟨0, ⟨1, 9⟩⟩)) ⟨1, 5⟩
    let b : Stmt := .declareFun "f" .int [] [.ret (.call "g" [] ⟨1, ⟨2, 18⟩⟩) ⟨2, 11⟩] ⟨2, 5⟩
    let post : Program := [.declareVar "x" .int none ⟨3, 5⟩]
    let ofA : Diagnostic := ⟨.undeclaredVariable "u", ⟨1, 9⟩⟩
    let ofB : Diagnostic := ⟨.undeclaredFunction "g", ⟨2, 18⟩⟩
    let later : Diagnostic := ⟨.duplicateVariable "x", ⟨3, 5⟩⟩
    a.Independent b ∧ (ofProgram ([] ++ [a, b] ++ post)).diagnostics = [ofA, ofB, later] ∧
      (ofProgram ([] ++ [b, a] ++ post)).diagnostics = [ofB, ofA, later] ∧
      ∀ i, (ofProgram ([] ++ [b, a] ++ post)).typeOf? i =
        (ofProgram ([] ++ [a, b] ++ post)).typeOf? i := by
  intro a b post ofA ofB later
  have hindependent : a.Independent b := ⟨by decide, by decide⟩
  have hids : (Program.ids ([] ++ [a, b] ++ post)).Nodup := by decide
  exact ⟨hindependent, rfl, rfl, (ofProgram_swap hids rfl rfl hindependent).1⟩

end Analysis
end MiniCheck
