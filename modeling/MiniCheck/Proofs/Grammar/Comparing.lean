import MiniCheck.Grammar.Procedures
import MiniCheck.Proofs.Grammar.Following
import MiniCheck.Proofs.Grammar.ProgramLocality

/-!
# Readers compared from where they begin

Two readers may do the same wherever a certain part of the tokens has been passed over, and differ
elsewhere. What is put together from them does the same too, and it may begin earlier if a token is
passed over first.
-/

namespace MiniCheck
namespace Grammar

open Token (Kind)

namespace Reader

/-- The reader has the tokens `ts`, with `d` levels open and at least `n` tokens passed over. -/
structure Past (ts : List Token) (d n : Nat) (r : Reader) : Prop where
  tokens : r.tokens = ts
  depth : r.depth = d
  position : n ≤ r.position
  within : r.Within

/-- `r` is in front of a token of kind `k`. -/
structure PastAt (ts : List Token) (d n : Nat) (k : Kind) (r : Reader) : Prop extends
    Past ts d n r where
  kind : r.kind = k

variable {ts : List Token} {d n : Nat} {r s : Reader}

theorem Past.mono {n' : Nat} (h : r.Past ts d n') (hn : n ≤ n') : r.Past ts d n :=
  ⟨h.tokens, h.depth, Nat.le_trans hn h.position, h.within⟩

theorem Past.onward (h : r.Past ts d n) (hs : r.Onward s) : s.Past ts d n :=
  ⟨hs.tokens.trans h.tokens, hs.depth.trans h.depth, Nat.le_trans h.position hs.position, hs.within⟩

theorem Past.ahead (h : r.Past ts d n) (hs : r.Onward s) (hlt : r.position < s.position) :
    s.Past ts d (n + 1) :=
  ⟨hs.tokens.trans h.tokens, hs.depth.trans h.depth, Nat.lt_of_le_of_lt h.position hlt, hs.within⟩

theorem Past.opened (h : r.Past ts d n) : r.opened.Past ts (d + 1) n :=
  ⟨h.tokens, congrArg Nat.succ h.depth, h.position, h.within⟩

/-- Only behind the last token there is none to pass over. -/
theorem position_advance (h : r.kind ≠ .eof) : r.position < r.advance.position := by
  have hlt : r.position < r.tokens.length := by
    refine Nat.lt_of_not_le fun hle => h ?_
    rw [kind, current?, List.getElem?_eq_none hle]
    rfl
  rw [advance, if_pos hlt]
  exact Nat.lt_succ_self _

/-- Readers that have gone on from `r` are the same if cursors cannot tell them apart. -/
theorem Onward.unique (hs : r.Onward s) {s' : Reader} (hs' : r.Onward s')
    (h : s.cursor = s'.cursor) : s = s' := by
  obtain ⟨tokens, position, nextId, depth⟩ := s
  obtain ⟨tokens', position', nextId', depth'⟩ := s'
  obtain rfl : tokens = tokens' := hs.tokens.trans hs'.tokens.symm
  obtain rfl : depth = depth' := hs.depth.trans hs'.depth.symm
  obtain rfl : nextId = nextId' := congrArg Cursor.nextId h
  have hleft : (tokens.drop position).length = (tokens.drop position').length :=
    congrArg (fun c => c.rest.length) h
  have hwithin : position ≤ tokens.length := hs.within
  have hwithin' : position' ≤ tokens.length := hs'.within
  rw [List.length_drop, List.length_drop] at hleft
  obtain rfl : position = position' := by omega
  rfl

end Reader

open Reader (Past PastAt)

/-- The reader behind an outcome. -/
def Reading.final {α : Type} : EStateM.Result Mismatch Reader α → Reader
  | .ok _ s | .error _ s => s

section Outcomes

variable {α : Type} {r : Reader} {a b : EStateM.Result Mismatch Reader α}
  {c : EStateM.Result Mismatch Cursor α}

theorem Agrees.onward (h : Agrees r a c) : r.Onward (Reading.final a) := by
  cases h with
  | ok _ hs => exact hs
  | error _ hs => exact hs

theorem Agrees.unique (h : Agrees r a c) (h' : Agrees r b c) : a = b := by
  generalize hc : c = c' at h'
  cases h with
  | ok x hs =>
    cases h' with
    | ok y ht =>
      obtain ⟨rfl, hcursor⟩ := EStateM.Result.ok.inj hc
      rw [hs.unique ht hcursor]
    | error m ht => cases hc
  | error m hs =>
    cases h' with
    | ok y ht => cases hc
    | error m' ht =>
      obtain ⟨rfl, hcursor⟩ := EStateM.Result.error.inj hc
      rw [hs.unique ht hcursor]

end Outcomes

/-- From all readers in `S` on, `x` does what `y` does, and that does not lead back. -/
def Alike (S : Reader → Prop) {α : Type} (x y : Reading α) : Prop :=
  ∀ r, S r → x r = y r ∧ r.Onward (Reading.final (y r))

/-- From all readers in `S` on, `x` passes over a token if it answers. -/
def Forward (S : Reader → Prop) {α : Type} (x : Reading α) : Prop :=
  ∀ r, S r → ∀ a s, x r = .ok a s → r.position < s.position

section Follows

variable {d n : Nat} {ts : List Token} {α : Type} {x x' : Reading α} {y : Parser α}

theorem Follows.alike_of (h : Follows d x y) (h' : Follows d x' y) : Alike (Past ts d n) x x' := by
  intro r hr
  have hagrees := h' r hr.within hr.depth
  exact ⟨(h r hr.within hr.depth).unique hagrees, hagrees.onward⟩

theorem Follows.alike (h : Follows d x y) : Alike (Past ts d n) x x := h.alike_of h

/-- A reader that follows a cursor passes over a token where the cursor does. -/
theorem Follows.forward (h : Follows d x y) (hy : Advances y) : Forward (Past ts d n) x := by
  intro r hr a s hrun
  have hagrees := h r hr.within hr.depth
  rw [hrun] at hagrees
  generalize hparse : y r.cursor = parsed at hagrees
  cases hagrees with
  | ok _ hs =>
    have hlt := hy _ _ _ hparse
    change (s.tokens.drop s.position).length < (r.tokens.drop r.position).length at hlt
    rw [List.length_drop, List.length_drop, hs.tokens] at hlt
    have hwithin : s.position ≤ s.tokens.length := hs.within
    rw [hs.tokens] at hwithin
    omega

end Follows

namespace Alike

variable {S T : Reader → Prop} {α β : Type} {x y z : Reading α} {g h : α → Reading β}
  {ts : List Token} {d n : Nat} {k : Kind}

theorem mono (hxy : Alike S x y) (hS : ∀ r, T r → S r) : Alike T x y := fun r hr =>
  hxy r (hS r hr)

theorem symm (hxy : Alike S x y) : Alike S y x := fun r hr =>
  ⟨(hxy r hr).1.symm, (hxy r hr).1 ▸ (hxy r hr).2⟩

theorem trans (hxy : Alike S x y) (hyz : Alike S y z) : Alike S x z := fun r hr =>
  ⟨(hxy r hr).1.trans (hyz r hr).1, (hyz r hr).2⟩

theorem later (hxy : Alike (Past ts d n) x y) : Alike (Past ts d (n + 1)) x y :=
  hxy.mono fun _ hr => hr.mono (Nat.le_succ n)

theorem at_kind (hxy : Alike (Past ts d n) x y) : Alike (PastAt ts d n k) x y :=
  hxy.mono fun _ hr => hr.toPast

/-- The rest is compared in all readers that the first part may lead to. -/
theorem bind (hxy : Alike S x y)
    (hT : ∀ r a s, S r → y r = .ok a s → r.Onward s → T s)
    (hgh : ∀ a, Alike T (g a) (h a)) : Alike S (x >>= g) (y >>= h) := by
  intro r hr
  obtain ⟨heq, honward⟩ := hxy r hr
  rw [Reading.bind_apply, Reading.bind_apply, heq]
  cases hrun : y r with
  | error m s =>
    rw [hrun] at honward
    exact ⟨rfl, honward⟩
  | ok a s =>
    rw [hrun] at honward
    have hs : r.Onward s := honward
    obtain ⟨hrest, honward'⟩ := hgh a s (hT r a s hr hrun hs)
    exact ⟨hrest, hs.trans honward'⟩

theorem next (hxy : Alike (Past ts d n) x y) (hgh : ∀ a, Alike (Past ts d n) (g a) (h a)) :
    Alike (Past ts d n) (x >>= g) (y >>= h) :=
  hxy.bind (fun _ _ _ hr _ hs => hr.onward hs) hgh

/-- Behind a token the rest is compared only ahead of where it all began. -/
theorem ahead (hxy : Alike (Past ts d n) x y) (hy : Forward (Past ts d n) y)
    (hgh : ∀ a, Alike (Past ts d (n + 1)) (g a) (h a)) : Alike (Past ts d n) (x >>= g) (y >>= h) :=
  hxy.bind (fun r a s hr hrun hs => hr.ahead hs (hy r hr a s hrun)) hgh

theorem map (hxy : Alike S x y) (f : α → β) : Alike S (f <$> x) (f <$> y) := by
  rw [← bind_pure_comp, ← bind_pure_comp]
  exact hxy.bind (T := Reader.Within) (fun _ _ _ _ _ hs => hs.within)
    fun a r hr => ⟨rfl, .refl hr⟩

theorem ite {p : Prop} [Decidable p] {x' y' : Reading α} (hxy : Alike S x y)
    (hxy' : Alike S x' y') : Alike S (if p then x else x') (if p then y else y') := by
  split
  · exact hxy
  · exact hxy'

theorem pure (a : α) : Alike (Past ts d n) (Pure.pure a) (Pure.pure a) := (Follows.pure a).alike

theorem fail (expected : List Kind) (context : String) :
    Alike (Past ts d n) (Reading.fail expected context : Reading α)
      (Reading.fail expected context) :=
  (Follows.fail expected context).alike

theorem fresh_bind {p : Location} {g h : Mark → Reading β}
    (hgh : ∀ m, Alike (Past ts d n) (g m) (h m)) :
    Alike (Past ts d n) (Reading.fresh p >>= g) (Reading.fresh p >>= h) :=
  (Follows.fresh p).alike.next hgh

theorem remaining_bind {g h : List Token → Reading β}
    (hgh : ∀ rest, Alike (Past ts d n) (g rest) (h rest)) :
    Alike (Past ts d n) (Reading.remaining >>= g) (Reading.remaining >>= h) :=
  Follows.remaining.alike.next hgh

theorem here_bind {g h : Location → Reading β} (hgh : ∀ p, Alike (Past ts d n) (g p) (h p)) :
    Alike (Past ts d n) (Reading.here >>= g) (Reading.here >>= h) :=
  Follows.here.alike.next hgh

theorem here_bind_at {g h : Location → Reading β}
    (hgh : ∀ p, Alike (PastAt ts d n k) (g p) (h p)) :
    Alike (PastAt ts d n k) (Reading.here >>= g) (Reading.here >>= h) := by
  have hhere : Alike (Past ts d n) Reading.here Reading.here := Follows.here.alike
  refine hhere.at_kind.bind ?_ hgh
  intro r a s hr hrun _
  cases hrun
  exact hr

theorem peek_bind {g h : Kind → Reading β} (hgh : ∀ k, Alike (PastAt ts d n k) (g k) (h k)) :
    Alike (Past ts d n) (Reading.peek >>= g) (Reading.peek >>= h) :=
  fun r hr => hgh r.kind r ⟨hr, rfl⟩

/-- What comes next can be looked at again. -/
theorem peek_at {f : Kind → Reading β} {y : Reading β} (hfy : Alike (PastAt ts d n k) (f k) y) :
    Alike (PastAt ts d n k) (Reading.peek >>= f) y := by
  intro r hr
  have hrun : (Reading.peek >>= f) r = f k r := hr.kind ▸ rfl
  rw [hrun]
  exact hfy r hr

theorem skip_bind {g h : Unit → Reading β} (hgh : ∀ u, Alike (Past ts d n) (g u) (h u)) :
    Alike (Past ts d n) (Reading.skip >>= g) (Reading.skip >>= h) :=
  Follows.skip.alike.next hgh

/-- In front of a token that is there, skipping leads ahead. -/
theorem skip_bind_at {g h : Unit → Reading β} (hk : k ≠ .eof)
    (hgh : ∀ u, Alike (Past ts d (n + 1)) (g u) (h u)) :
    Alike (PastAt ts d n k) (Reading.skip >>= g) (Reading.skip >>= h) := by
  have hskip : Alike (Past ts d n) Reading.skip Reading.skip := Follows.skip.alike
  refine hskip.at_kind.bind ?_ hgh
  intro r a s hr hrun hs
  cases hrun
  exact hr.ahead hs (Reader.position_advance (hr.kind ▸ hk))

theorem forward_expect {S : Reader → Prop} (k : Kind) (context : String) :
    Forward S (Reading.expect k context) := by
  intro r _ t s hrun
  unfold Reading.expect at hrun
  split at hrun
  · split at hrun
    · cases hrun
      exact Nat.lt_succ_self _
    · cases hrun
  · cases hrun

theorem expect_bind {context : String} {g h : Token → Reading β}
    (hgh : ∀ t, Alike (Past ts d (n + 1)) (g t) (h t)) :
    Alike (Past ts d n) (Reading.expect k context >>= g) (Reading.expect k context >>= h) :=
  (Follows.expect k context).alike.ahead (forward_expect k context) hgh

theorem accept_bind {g h : Bool → Reading β} (hk : k ≠ .eof)
    (htrue : Alike (Past ts d (n + 1)) (g true) (h true))
    (hfalse : Alike (Past ts d n) (g false) (h false)) :
    Alike (Past ts d n) (Reading.accept k >>= g) (Reading.accept k >>= h) := by
  intro r hr
  rw [Reading.bind_apply, Reading.bind_apply]
  unfold Reading.accept
  by_cases hkind : r.kind = k
  · rw [if_pos hkind]
    have hs := Reader.Onward.advance hr.within
    have hlt := Reader.position_advance (hkind ▸ hk)
    obtain ⟨hrest, honward⟩ := htrue r.advance (hr.ahead hs hlt)
    exact ⟨hrest, hs.trans honward⟩
  · rw [if_neg hkind]
    exact hfalse r hr

theorem nested {what : String}
    (hxy : d < maxNesting → Alike (Past ts (d + 1) n) x y) :
    Alike (Past ts d n) (Reading.nested what x) (Reading.nested what y) := by
  intro r hr
  unfold Reading.nested
  by_cases hd : r.depth < maxNesting
  · rw [if_pos hd, if_pos hd]
    obtain ⟨heq, honward⟩ := hxy (hr.depth ▸ hd) r.opened hr.opened
    rw [heq]
    cases hrun : y r.opened with
    | ok a s =>
      rw [hrun] at honward
      exact ⟨rfl, Reader.Onward.closed honward⟩
    | error m s =>
      rw [hrun] at honward
      exact ⟨rfl, Reader.Onward.closed honward⟩
  · rw [if_neg hd, if_neg hd]
    exact fail _ _ r hr

/-! ## Parts of the grammar -/

theorem optionally {x y : Reading α} (hk : k ≠ .eof) (hxy : Alike (Past ts d (n + 1)) x y) :
    Alike (Past ts d n) (Reading.optionally k x) (Reading.optionally k y) :=
  accept_bind hk (hxy.map some) (.pure none)

theorem endedBy {context : String} (hxy : Alike (Past ts d n) x y) :
    Alike (Past ts d n) (Reading.endedBy x k context) (Reading.endedBy y k context) :=
  hxy.next fun a => expect_bind fun _ => .pure a

/-- The token that ends the first part leads ahead. -/
theorem endedBy_bind {context : String} (hxy : Alike (Past ts d n) x y)
    (hgh : ∀ a, Alike (Past ts d (n + 1)) (g a) (h a)) :
    Alike (Past ts d n) (Reading.endedBy x k context >>= g)
      (Reading.endedBy y k context >>= h) := by
  simp only [Reading.endedBy, bind_assoc, pure_bind]
  exact hxy.next fun a => expect_bind fun _ => hgh a

variable {expr expr' : Reading Expr} {stmt stmt' : Reading Stmt} {p : Location}

theorem signed (hk : k ≠ .eof) (op : UnaryOp) (h : Alike (Past ts d (n + 1)) expr expr') :
    Alike (PastAt ts d n k) (Reading.signed op expr) (Reading.signed op expr') :=
  here_bind_at fun _ => skip_bind_at hk fun _ => h.next fun _ => fresh_bind fun _ => .pure _

theorem parenthesized (hk : k ≠ .eof) (h : Alike (Past ts d (n + 1)) expr expr') :
    Alike (PastAt ts d n k) (Reading.parenthesized expr) (Reading.parenthesized expr') :=
  skip_bind_at hk fun _ => h.next fun _ => expect_bind fun _ => .pure _

theorem enclosed_bind {before behind : String} {g h : Expr → Reading β}
    (hexpr : Alike (Past ts d (n + 1)) expr expr')
    (hgh : ∀ e, Alike (Past ts d (n + 1)) (g e) (h e)) :
    Alike (Past ts d n) (Reading.enclosed expr before behind >>= g)
      (Reading.enclosed expr' before behind >>= h) := by
  simp only [Reading.enclosed, bind_assoc, pure_bind]
  exact expect_bind fun _ => hexpr.next fun e => expect_bind fun _ => (hgh e).later

theorem clause (h : Alike (Past ts d n) expr expr') :
    Alike (Past ts d n) (Reading.clause expr k) (Reading.clause expr' k) :=
  Follows.peek.alike.next fun _ => .ite (here_bind fun _ => fresh_bind fun _ => .pure _) h

theorem branch (hexpr : Alike (Past ts d (n + 1)) expr expr')
    (hstmt : Alike (Past ts d (n + 1)) stmt stmt') :
    Alike (Past ts d n) (Reading.branch expr stmt p) (Reading.branch expr' stmt' p) :=
  skip_bind fun _ => hexpr.enclosed_bind fun _ => hstmt.next fun _ =>
    (hstmt.later.optionally (by decide)).next fun _ => .pure _

theorem whileLoop (hexpr : Alike (Past ts d (n + 1)) expr expr')
    (hstmt : Alike (Past ts d (n + 1)) stmt stmt') :
    Alike (Past ts d n) (Reading.whileLoop expr stmt p) (Reading.whileLoop expr' stmt' p) :=
  skip_bind fun _ => hexpr.enclosed_bind fun _ => hstmt.next fun _ => .pure _

theorem print (h : Alike (Past ts d (n + 1)) expr expr') :
    Alike (Past ts d n) (Reading.print expr p) (Reading.print expr' p) :=
  skip_bind fun _ => h.enclosed_bind fun _ => expect_bind fun _ => .pure _

/-! ## Turns of loops -/

theorem separatedWith {item item' : Reading α} {others others' : Reading (List α)}
    (hitem : Alike (Past ts d n) item item') (hothers : Alike (Past ts d (n + 1)) others others') :
    Alike (Past ts d n) (Reading.separatedWith item others)
      (Reading.separatedWith item' others') :=
  hitem.next fun _ => accept_bind (by decide) (hothers.next fun _ => .pure _) (.pure _)

theorem chainWith {level : Nat} {others others' : Expr → Reading Expr}
    (h : Alike (Past ts d (n + 1)) expr expr')
    (hothers : ∀ left, Alike (Past ts d (n + 1)) (others left) (others' left)) (left : Expr) :
    Alike (Past ts d n) (Reading.chainWith level expr others left)
      (Reading.chainWith level expr' others' left) := by
  refine peek_bind fun k => ?_
  cases hop : BinaryOp.atLevel? level k with
  | none => exact (pure left).at_kind
  | some op =>
    have hk : k ≠ .eof := (BinaryOp.atLevel?_eq_some_iff.mp hop).1 ▸ op.sign_ne_eof
    exact here_bind_at fun _ => skip_bind_at hk fun _ => h.next fun _ => fresh_bind fun _ =>
      hothers _

theorem declaratorsWith {type : BaseType} {others others' : Token → Reading (List Stmt)}
    (h : Alike (Past ts d (n + 1)) expr expr')
    (hothers : ∀ name, Alike (Past ts d (n + 1)) (others name) (others' name)) (name : Token) :
    Alike (Past ts d n) (Reading.declaratorsWith expr type others name)
      (Reading.declaratorsWith expr' type others' name) :=
  (h.optionally (by decide)).next fun _ => accept_bind (by decide)
    (expect_bind fun next => (hothers next).later.next fun _ => .pure _) (.pure _)

variable {decl decl' others others' : Reading (List Stmt)}

theorem itemsWith (hdecl : Alike (Past ts d n) decl decl') (hdecl' : Forward (Past ts d n) decl')
    (hstmt : Alike (Past ts d n) stmt stmt') (hstmt' : Forward (Past ts d n) stmt')
    (hothers : Alike (Past ts d (n + 1)) others others') :
    Alike (Past ts d n) (Reading.itemsWith decl stmt others)
      (Reading.itemsWith decl' stmt' others') := by
  refine Follows.peek.alike.next fun k => remaining_bind fun _ => .ite (.pure []) (.ite ?_ ?_)
  · exact hdecl.ahead hdecl' fun _ => hothers.next fun _ => .pure _
  · exact accept_bind (by decide) hothers
      (hstmt.ahead hstmt' fun _ => hothers.next fun _ => .pure _)

theorem declarationsWith (hdecl : Alike (Past ts d n) decl decl')
    (hdecl' : Forward (Past ts d n) decl') (hothers : Alike (Past ts d (n + 1)) others others') :
    Alike (Past ts d n) (Reading.declarationsWith decl others)
      (Reading.declarationsWith decl' others') :=
  Follows.peek.alike.next fun _ =>
    .ite (hdecl.ahead hdecl' fun _ => hothers.next fun _ => .pure _) (.pure [])

end Alike
end Grammar
end MiniCheck
