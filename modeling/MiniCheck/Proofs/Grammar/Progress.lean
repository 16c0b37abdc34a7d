import Mathlib.Logic.Function.Iterate
import Mathlib.Logic.Relation
import MiniCheck.Proofs.Grammar.Resuming
import MiniCheck.Proofs.Grammar.Unfolding

/-!
# Every call makes progress

A call leads to calls ahead of where it began, to calls inside of one more nesting level, or to
calls of procedures that rank lower. There are only so many tokens, levels and ranks: so each call
returns, no matter what calls would do that are nested deeper than all of these allow.
-/

namespace MiniCheck
namespace Grammar

open Token (Kind)
open Reader (Past PastAt)
open Reading (body bounded)

namespace Procedure

/-- How far a procedure stands above those that it calls where it begins. A level stands above the
next tighter one. -/
def rank : Procedure → Nat
  | baseType | primary | operand | statement | chain _ _ | declarators _ _ => 0
  | branch _ | whileLoop _ | forLoop _ | print _ => 0
  | prefixed | declaration | parameters | variableTail _ _ => 1
  | parameterList | items | declarations => 2
  | functionTail _ _ | program => 3
  | level n => n + 1
  | clause _ | arguments => 8
  | argumentList | ret _ => 9
  | command => 10

/-- The procedures that open a nesting level where they begin. -/
def Nests (p : Procedure) : Prop := p = statement ∨ p = operand

end Procedure

/-- Where calls have to be right for `p` to be so, with `d` levels open and `n` tokens passed
over. -/
structure Serves (call : Calling) (ts : List Token) (d n : Nat) (p : Procedure) : Prop where
  ahead : ∀ q, Alike (Past ts d (n + 1)) (call q) (bounded q)
  inside : d < maxNesting → ∀ q, Alike (Past ts (d + 1) (n + 1)) (call q) (bounded q)
  nested : p.Nests → d < maxNesting → ∀ q, Alike (Past ts (d + 1) n) (call q) (bounded q)
  below : ∀ q, q.rank < p.rank → Alike (Past ts d n) (call q) (bounded q)

section Bodies

variable {call : Calling} {ts : List Token} {d n : Nat} {p : Procedure}

theorem forward_declaration (hd : d ≤ maxNesting) : Forward (Past ts d n) (bounded .declaration) :=
  (follows_declaration hd (lt_add_ample d)).forward (advances_declaration _)

theorem forward_statement (hd : d ≤ maxNesting) : Forward (Past ts d n) (bounded .statement) :=
  (Follows.statement_and_body _ hd (lt_add_ample d)).1.forward (advances_statement _)

/-- Of the calls that are made, those count that begin ahead, inside of one more level, or at a
lower rank. -/
theorem alike_body (hd : d ≤ maxNesting) (h : Serves call ts d n p) :
    Alike (Past ts d n) (body call p) (body bounded p) := by
  cases p with
  | program =>
    exact (h.below .declarations (by decide)).next fun _ => .remaining_bind fun _ =>
      .ite (.pure _) (.fail _ _)
  | declarations =>
    exact (h.below .declaration (by decide)).declarationsWith (forward_declaration hd)
      (h.ahead .declarations)
  | declaration =>
    exact (h.below .baseType (by decide)).next fun type => .expect_bind fun name =>
      .accept_bind (by decide) ((h.ahead (.functionTail type name)).later.next fun _ => .pure _)
        (h.ahead (.variableTail type name))
  | baseType => exact Follows.baseType.alike
  | functionTail type name =>
    exact (h.below .parameterList (Nat.lt_succ_self _)).next fun _ =>
      .expect_bind fun _ => .expect_bind fun _ =>
        (Alike.nested fun hlt => (h.inside hlt .items).later).next fun _ =>
          .expect_bind fun _ => .pure _
  | parameterList =>
    exact Follows.peek.alike.next fun _ => .ite (h.below .parameters (by decide)) (.pure [])
  | parameters =>
    refine Alike.separatedWith ?_ (h.ahead .parameters)
    exact (h.below .baseType (by decide)).next fun _ => .expect_bind fun _ => .pure _
  | variableTail type name =>
    exact (h.below (.declarators type name) (Nat.succ_pos _)).endedBy
  | declarators type name =>
    exact (h.ahead .expression).declaratorsWith (fun next => h.ahead (.declarators type next)) name
  | items =>
    exact (h.below .declaration (by decide)).itemsWith (forward_declaration hd)
      (h.below .statement (by decide)) (forward_statement hd) (h.ahead .items)
  | statement => exact .nested fun hlt => h.nested (.inl rfl) hlt .command
  | command =>
    refine .here_bind fun p => .peek_bind fun k => ?_
    cases k
    case intWord => exact ((h.below .declaration (by decide)).map _).at_kind
    case floatWord => exact ((h.below .declaration (by decide)).map _).at_kind
    case voidWord => exact ((h.below .declaration (by decide)).map _).at_kind
    case semicolon => exact (Alike.skip_bind fun _ => .fresh_bind fun _ => .pure _).at_kind
    case leftBrace =>
      exact .skip_bind_at (by decide) fun _ => (h.ahead .items).endedBy.next fun _ => .pure _
    case ifWord => exact (h.below (.branch p) (Nat.succ_pos _)).at_kind
    case whileWord => exact (h.below (.whileLoop p) (Nat.succ_pos _)).at_kind
    case forWord => exact (h.below (.forLoop p) (Nat.succ_pos _)).at_kind
    case returnWord => exact (h.below (.ret p) (Nat.lt_succ_self _)).at_kind
    case printWord => exact (h.below (.print p) (Nat.succ_pos _)).at_kind
    all_goals
      exact ((h.below .expression (by decide)).endedBy.next fun _ => .pure _).at_kind
  | branch p => exact (h.ahead .expression).branch (h.ahead .statement)
  | whileLoop p => exact (h.ahead .expression).whileLoop (h.ahead .statement)
  | forLoop p =>
    have hclause := fun terminator => h.ahead (.clause terminator)
    exact .skip_bind fun _ => .expect_bind fun _ => (hclause .semicolon).endedBy_bind fun _ =>
      (hclause .semicolon).later.endedBy_bind fun _ =>
        (hclause .rightParen).later.later.endedBy_bind fun _ =>
          (h.ahead .statement).later.later.later.next fun _ => .pure _
  | ret p =>
    have hclause := h.below (.clause .semicolon) (Nat.lt_succ_self _)
    exact .skip_bind fun _ => hclause.endedBy.next fun _ => .pure _
  | print p => exact (h.ahead .expression).print
  | clause terminator => exact (h.below .expression (Nat.lt_succ_self _)).clause
  | level k =>
    obtain ⟨k, hk⟩ := k
    cases k with
    | zero => exact h.below .operand (Nat.succ_pos _)
    | succ k =>
      exact (h.below (.level ⟨k, _⟩) (Nat.lt_succ_self _)).next fun left =>
        h.below (.chain ⟨k, _⟩ left) (Nat.succ_pos _)
  | chain k left =>
    exact (h.ahead (.level k.castSucc)).chainWith (fun left => h.ahead (.chain k left)) left
  | operand => exact .nested fun hlt => h.nested (.inr rfl) hlt .prefixed
  | prefixed =>
    refine .peek_bind fun k => ?_
    cases k
    case bang => exact .signed (by decide) .not (h.ahead .operand)
    case minus => exact .signed (by decide) .neg (h.ahead .operand)
    all_goals exact (h.below .primary (by decide)).at_kind
  | primary =>
    refine .peek_bind fun k => ?_
    cases k
    case leftParen => exact .parenthesized (by decide) (h.ahead .expression)
    case number => exact Follows.literal.alike.at_kind
    case name =>
      refine (Alike.expect_bind fun name => .accept_bind (by decide) ?_ ?_).at_kind
      · exact (h.ahead .expression).later.next fun _ => .fresh_bind fun _ => .pure _
      · exact .accept_bind (by decide) ((h.ahead .argumentList).later.endedBy.next fun _ =>
          .fresh_bind fun _ => .pure _) (.fresh_bind fun _ => .pure _)
    all_goals exact (Alike.fail _ _).at_kind
  | argumentList =>
    exact Follows.peek.alike.next fun _ => .ite (.pure []) (h.below .arguments (by decide))
  | arguments =>
    exact (h.below .expression (by decide)).separatedWith (h.ahead .arguments)

end Bodies

/-! ## Calls that return -/

/-- A reader that is within its tokens, with no more levels open than may be. -/
structure Reader.Running (r : Reader) : Prop where
  within : r.Within
  depth : r.depth ≤ maxNesting

theorem Reader.Running.past {r : Reader} (hr : r.Running) : r.Past r.tokens r.depth r.position :=
  ⟨rfl, rfl, Nat.le_refl _, hr.within⟩

theorem Reader.Past.running {ts : List Token} {d n : Nat} {r : Reader} (hr : r.Past ts d n)
    (hd : d ≤ maxNesting) : r.Running :=
  ⟨hr.within, hr.depth ▸ hd⟩

namespace Procedure

/-- The call returns: calls that are `n` deep lead to its outcome, whatever deeper ones would do. -/
def Returns (p : Procedure) (r : Reader) (o : EStateM.Result Mismatch Reader p.Answer) : Prop :=
  ∃ n, ∀ call : Calling, body^[n] call p r = o

theorem Returns.unique {p : Procedure} {r : Reader} {o o' : EStateM.Result Mismatch Reader p.Answer}
    (h : p.Returns r o) (h' : p.Returns r o') : o = o' := by
  obtain ⟨n, hn⟩ := h
  obtain ⟨n', hn'⟩ := h'
  have hdeeper := hn (body^[n'] bounded)
  have hdeeper' := hn' (body^[n] bounded)
  rw [← Function.iterate_add_apply] at hdeeper hdeeper'
  rw [← hdeeper, ← hdeeper', Nat.add_comm]

/-- The call of `p` at `r` makes the call of `q` at `s`: its outcome depends on what that call does,
where all others return what they do. -/
def Calls (p : Procedure) (r : Reader) (q : Procedure) (s : Reader) : Prop :=
  ∃ call call' : Calling,
    (∀ (q' : Procedure) (s' : Reader), s'.Running → q'.Returns s' (call q' s')) ∧
    (∀ (q' : Procedure) (s' : Reader), (q', s') ≠ (q, s) → call' q' s' = call q' s') ∧
    body call' p r ≠ body call p r

/-- From the call of `p` at `r` calls lead to that of `q` at `s`. -/
def Reaches (p : Procedure) (r : Reader) (q : Procedure) (s : Reader) : Prop :=
  Relation.TransGen (fun a b : Procedure × Reader => a.1.Calls a.2 b.1 b.2) (p, r) (q, s)

/-- What a call may make: calls ahead of it, calls inside of one more level, and calls of a lower
rank. -/
structure Descends (p : Procedure) (r : Reader) (q : Procedure) (s : Reader) : Prop where
  tokens : s.tokens = r.tokens
  running : s.Running
  order : r.position < s.position ∨ s.position = r.position ∧
    (p.Nests ∧ s.depth = r.depth + 1 ∨ s.depth = r.depth ∧ q.rank < p.rank)

theorem rank_lt (p : Procedure) : p.rank < 16 := by
  cases p with
  | level n => exact Nat.lt_of_lt_of_le (Nat.succ_lt_succ n.isLt) (by decide)
  | _ => simp only [rank]; omega

/-- How much may still be called. -/
def weight (p : Procedure) (r : Reader) : Nat :=
  ((r.tokens.length - r.position) * (maxNesting + 1) + (maxNesting - r.depth)) * 16 + p.rank

theorem Descends.weight_lt {p q : Procedure} {r s : Reader} (h : p.Descends r q s) :
    q.weight s < p.weight r := by
  have hp := p.rank_lt
  have hq := q.rank_lt
  have hwithin : s.position ≤ s.tokens.length := h.running.within
  have hdepth := h.running.depth
  have htokens := h.tokens
  simp only [weight, maxNesting] at *
  rw [htokens] at hwithin ⊢
  rcases h.order with hlt | ⟨heq, ⟨_, hopen⟩ | ⟨hsame, hrank⟩⟩
  · omega
  · omega
  · omega

/-- A call does what it does with bounds, if the calls do so that it may make. -/
theorem body_eq_of_descends {call : Calling} {p : Procedure} {r : Reader} (hr : r.Running)
    (h : ∀ q s, p.Descends r q s → call q s = bounded q s) : body call p r = bounded p r := by
  have halike : ∀ {d n : Nat}, d ≤ maxNesting → ∀ q, (∀ s, s.Past r.tokens d n → p.Descends r q s) →
      Alike (Past r.tokens d n) (call q) (bounded q) := by
    intro d n hd q hq s hs
    obtain ⟨y, hy⟩ := exists_follows hd q
    exact ⟨h q s (hq s hs), (hy.alike s hs).2⟩
  have hserves : Serves call r.tokens r.depth r.position p := by
    constructor
    · exact fun q => halike hr.depth q fun s hs =>
        ⟨hs.tokens, hs.running hr.depth, .inl hs.position⟩
    · exact fun hd q => halike hd q fun s hs => ⟨hs.tokens, hs.running hd, .inl hs.position⟩
    · intro hnests hd q
      refine halike hd q fun s hs => ⟨hs.tokens, hs.running hd, ?_⟩
      exact (Nat.eq_or_lt_of_le hs.position).symm.imp_right fun heq =>
        ⟨heq.symm, .inl ⟨hnests, hs.depth⟩⟩
    · intro q hrank
      refine halike hr.depth q fun s hs => ⟨hs.tokens, hs.running hr.depth, ?_⟩
      exact (Nat.eq_or_lt_of_le hs.position).symm.imp_right fun heq =>
        ⟨heq.symm, .inr ⟨hs.depth, hrank⟩⟩
  exact ((alike_body hr.depth hserves).trans (unfolds hr.depth p) r hr.past).1

theorem iterate_body (n : Nat) : ∀ {p : Procedure} {r : Reader}, r.Running → p.weight r < n →
    ∀ call : Calling, body^[n] call p r = bounded p r := by
  induction n with
  | zero => exact fun _ hn => absurd hn (Nat.not_lt_zero _)
  | succ n ih =>
    intro p r hr hn call
    rw [Function.iterate_succ_apply']
    exact body_eq_of_descends hr fun q s h =>
      ih h.running (Nat.lt_of_lt_of_le h.weight_lt (Nat.le_of_lt_succ hn)) call

theorem returns_bounded {r : Reader} (hr : r.Running) (p : Procedure) :
    p.Returns r (bounded p r) :=
  ⟨_, iterate_body _ hr (Nat.lt_succ_self _)⟩

theorem Calls.descends {p q : Procedure} {r s : Reader} (hr : r.Running) (h : p.Calls r q s) :
    p.Descends r q s := by
  obtain ⟨call, call', hreturns, hothers, hdiffer⟩ := h
  refine Classical.byContradiction fun hnot => ?_
  have hcall : ∀ q' s', p.Descends r q' s' → call q' s' = bounded q' s' := fun q' s' h =>
    (hreturns q' s' h.running).unique (returns_bounded h.running q')
  have hcall' : ∀ q' s', p.Descends r q' s' → call' q' s' = bounded q' s' := by
    intro q' s' h
    have hne : (q', s') ≠ (q, s) := by
      intro heq
      obtain ⟨rfl, rfl⟩ := Prod.mk.inj heq
      exact hnot h
    exact (hothers q' s' hne).trans (hcall q' s' h)
  exact hdiffer ((body_eq_of_descends hr hcall').trans (body_eq_of_descends hr hcall).symm)

/-- No chain of calls goes back, and where it stays it opens levels or goes down in rank. -/
theorem Reaches.order {p q : Procedure} {r s : Reader} (hr : r.Running) (h : p.Reaches r q s) :
    s.tokens = r.tokens ∧ s.Running ∧ (r.position < s.position ∨ s.position = r.position ∧
      (r.depth < s.depth ∨ s.depth = r.depth ∧ q.rank < p.rank)) := by
  unfold Reaches at h
  generalize hb : (q, s) = b at h
  induction h generalizing q s with
  | single h =>
    obtain rfl := hb
    have hstep := Calls.descends hr h
    refine ⟨hstep.tokens, hstep.running, ?_⟩
    rcases hstep.order with hlt | ⟨heq, ⟨_, hopen⟩ | hlower⟩
    · exact .inl hlt
    · exact .inr ⟨heq, .inl (hopen ▸ Nat.lt_succ_self _)⟩
    · exact .inr ⟨heq, .inr hlower⟩
  | @tail b c _ h ih =>
    obtain rfl := hb
    obtain ⟨q', s'⟩ := b
    obtain ⟨htokens, hrunning, horder⟩ := ih rfl
    have hstep := Calls.descends hrunning h
    refine ⟨hstep.tokens.trans htokens, hstep.running, ?_⟩
    have hlast := hstep.order
    simp only at hlast
    omega

/-! ## What progress is made -/

/-- The procedures that pass over a token if they answer. -/
inductive Consumes : Procedure → Prop
  | declaration : Consumes declaration
  | statement : Consumes statement
  | level (n : Fin (BinaryOp.topLevel + 1)) : Consumes (level n)
  | operand : Consumes operand

/-- `NextTurn p q` if `q` is the loop `p` in a later turn. -/
inductive NextTurn : Procedure → Procedure → Prop
  | declarations : NextTurn declarations declarations
  | parameters : NextTurn parameters parameters
  | declarators (type : BaseType) (name next : Token) :
    NextTurn (declarators type name) (declarators type next)
  | items : NextTurn items items
  | chain (n : Fin BinaryOp.topLevel) (left left' : Expr) : NextTurn (chain n left) (chain n left')
  | arguments : NextTurn arguments arguments

theorem Consumes.forward {p : Procedure} (h : p.Consumes) {ts : List Token} {d n : Nat}
    (hd : d ≤ maxNesting) : Forward (Past ts d n) (bounded p) := by
  have hoperand := Follows.operand Reading.ample hd (lt_add_ample d)
  cases h with
  | declaration => exact forward_declaration hd
  | statement => exact forward_statement hd
  | level k => exact (hoperand.operation k).forward (advances_operation _ k)
  | operand => exact hoperand.forward (advances_operation _ 0)

/-- A loop opens no level where its turns begin, and all of its turns rank alike. -/
theorem NextTurn.position_lt {p q : Procedure} {r s : Reader} (h : p.NextTurn q)
    (hcall : p.Descends r q s) : r.position < s.position := by
  rcases hcall.order with hlt | ⟨_, ⟨hnests, _⟩ | ⟨_, hrank⟩⟩
  · exact hlt
  · cases h <;> rcases hnests with hnests | hnests <;> cases hnests
  · cases h <;> exact absurd hrank (Nat.lt_irrefl _)

/-- A procedure ranks lower than itself only as a tighter level. -/
theorem exists_levels_of_rank_lt {p q : Procedure} (h : q.ctorIdx = p.ctorIdx)
    (hrank : q.rank < p.rank) : ∃ m n, p = .level m ∧ q = .level n ∧ n < m := by
  cases p <;> cases q
  case level.level m n => exact ⟨m, n, rfl, rfl, Nat.lt_of_succ_lt_succ hrank⟩
  all_goals first
    | (cases h; done)
    | exact absurd hrank (Nat.lt_irrefl _)

/-- Each call returns, with what a bounded reader does, and neither it nor a call that it leads to
goes back. A call that stays where it began is one inside of a level that has been opened for it, or
one of a procedure that ranks lower. So a procedure leads back to itself in one place only with more
levels open, or as a tighter level of operations. -/
theorem calls_make_progress :
    (∀ (p : Procedure) (r : Reader), r.Running →
      (∀ o, p.Returns r o ↔ o = bounded p r) ∧
      r.Onward (Reading.final (bounded p r)) ∧
      (p.Consumes → ∀ a s, bounded p r = .ok a s → r.position < s.position) ∧
      (∀ q s, p.Calls r q s → s.Running ∧ s.tokens = r.tokens ∧ r.position ≤ s.position ∧
        (p.NextTurn q → r.position < s.position) ∧
        (s.position = r.position →
          p.Nests ∧ s.depth = r.depth + 1 ∨ s.depth = r.depth ∧ q.rank < p.rank)) ∧
      (∀ q s, p.Reaches r q s → s.Running ∧ s.tokens = r.tokens ∧ r.position ≤ s.position ∧
        (q.ctorIdx = p.ctorIdx → s.position = r.position →
          r.depth < s.depth ∧ s.depth ≤ maxNesting ∨
            s.depth = r.depth ∧ ∃ m n, p = .level m ∧ q = .level n ∧ n < m))) ∧
    (∀ ts : List Token,
      Procedure.program.Returns (.ofTokens ts) (Reading.program (.ofTokens ts)) ∧
      (Reader.ofTokens ts).answer = Program.ofTokens ts) := by
  constructor
  · intro p r hr
    have hreturns := returns_bounded hr p
    refine ⟨fun o => ⟨fun h => h.unique hreturns, fun h => h ▸ hreturns⟩,
      (unfolds hr.depth p r hr.past).2, fun h => h.forward hr.depth r hr.past, fun q s h => ?_,
      fun q s h => ?_⟩
    · have hstep := h.descends hr
      have hstay := hstep.order
      refine ⟨hstep.running, hstep.tokens, by omega, fun hturn => hturn.position_lt hstep, ?_⟩
      exact fun heq => (hstay.resolve_left fun hlt => Nat.ne_of_gt hlt heq).2
    · obtain ⟨htokens, hrunning, horder⟩ := h.order hr
      refine ⟨hrunning, htokens, by omega, fun hsame heq => ?_⟩
      rcases horder with hlt | ⟨_, hopen | ⟨hdepth, hrank⟩⟩
      · omega
      · exact .inl ⟨hopen, hrunning.depth⟩
      · exact .inr ⟨hdepth, exists_levels_of_rank_lt hsame hrank⟩
  · intro ts
    have hr : (Reader.ofTokens ts).Running := ⟨Nat.zero_le _, Nat.zero_le _⟩
    exact ⟨returns_bounded hr .program, Reader.answer_ofTokens ts⟩

/-- A call is made if the caller does something else where it goes wrong. -/
theorem calls_of_error {p q : Procedure} {r s : Reader} (m : Mismatch)
    (h : ∀ call : Calling, call q s = .error m s →
      (∀ (q' : Procedure) (s' : Reader), (q', s') ≠ (q, s) → call q' s' = bounded q' s') →
      body call p r ≠ body bounded p r) :
    p.Calls r q s := by
  classical
  let call : Calling := fun q' s' => if (q', s') = (q, s) then .error m s' else bounded q' s'
  have hothers : ∀ (q' : Procedure) (s' : Reader), (q', s') ≠ (q, s) →
      call q' s' = bounded q' s' := fun q' s' hne => if_neg hne
  exact ⟨bounded, call, fun q' s' hs => returns_bounded hs q', hothers,
    h call (if_pos rfl) hothers⟩

/-- Of two numbers with a comma between them, the second one is read in a further turn. Behind the
comma operations begin with operations of a tighter level. -/
theorem calls_make_progress_numbers :
    let r : Reader := .ofTokens
      [⟨.number, "1", ⟨1, 1⟩⟩, ⟨.comma, ",", ⟨1, 2⟩⟩, ⟨.number, "2", ⟨1, 4⟩⟩]
    let s : Reader := ⟨r.tokens, 2, 1, 0⟩
    arguments.Returns r
        (.ok [.number "1" ⟨0, ⟨1, 1⟩⟩, .number "2" ⟨1, ⟨1, 4⟩⟩] ⟨r.tokens, 3, 2, 0⟩) ∧
      (arguments.Calls r arguments s ∧ s.Running ∧ r.position < s.position) ∧
      (level 1).Reaches s (level 0) s ∧
      ∃ m n, level 1 = .level m ∧ level 0 = .level n ∧ n < m := by
  intro r s
  have hr : r.Running := ⟨Nat.zero_le _, Nat.zero_le _⟩
  have hturn : arguments.Calls r arguments s := by
    refine calls_of_error (s.mismatch [] "") fun call herror hothers heq => ?_
    have hfirst : call expression r = .ok (.number "1" ⟨0, ⟨1, 1⟩⟩) ⟨r.tokens, 1, 1, 0⟩ :=
      hothers expression r (by simp [expression])
    have hsecond : body call arguments r = .error (s.mismatch [] "") s := by
      change (call expression >>= _) r = _
      rw [Reading.bind_apply, hfirst]
      change (call arguments >>= _) s = _
      rw [Reading.bind_apply, herror]
    rw [hsecond] at heq
    cases heq
  obtain ⟨hs, _, _, hlt, _⟩ := (calls_make_progress.1 arguments r hr).2.2.2.1 _ _ hturn
  have hcalls : (level 1).Calls s (level 0) s := by
    refine calls_of_error (s.mismatch [] "") fun call herror _ heq => ?_
    have hbegin : body call (level 1) s = .error (s.mismatch [] "") s := by
      change (call (level 0) >>= _) s = _
      rw [Reading.bind_apply, herror]
    rw [hbegin] at heq
    cases heq
  have hreaches : (level 1).Reaches s (level 0) s := .single hcalls
  have htighter := ((calls_make_progress.1 (level 1) s hs).2.2.2.2 _ _ hreaches).2.2.2 rfl rfl
  refine ⟨((calls_make_progress.1 arguments r hr).1 _).mpr rfl, ⟨hturn, hs, hlt .arguments⟩,
    hreaches, ?_⟩
  exact (htighter.resolve_left fun h => Nat.lt_irrefl _ h.1).2

end Procedure
end Grammar
end MiniCheck
