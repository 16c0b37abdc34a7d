import MiniCheck.CommandLine

/-!
# Runs and transcripts

A run over a text writes line by line and may be stopped by any of its writes. It comes to the
same as a single write of its whole transcript, because two writes in a row are one write of
both texts: where the first one is cut, nothing of the second gets through.
-/

namespace MiniCheck

@[simp] theorem encodeUtf8_append (s t : String) :
    encodeUtf8 (s ++ t) = encodeUtf8 s ++ encodeUtf8 t := by
  simp [encodeUtf8]

namespace Sink

variable (s : Sink)

@[simp] theorem fits_nil : s.fits [] = true := by
  cases s <;> rfl

@[simp] theorem written_nil : s.written [] = [] := by
  cases s <;> simp [written]

@[simp] theorem after_nil : s.after [] = s := by
  cases s <;> rfl

theorem written_append (as bs : Bytes) :
    s.written (as ++ bs) = s.written as ++ (s.after as).written bs := by
  cases s with
  | none => rfl
  | some room => exact List.take_append

theorem after_append (as bs : Bytes) : s.after (as ++ bs) = (s.after as).after bs := by
  cases s with
  | none => rfl
  | some room => simp [after, Nat.sub_sub]

theorem fits_append (as bs : Bytes) :
    s.fits (as ++ bs) = (s.fits as && (s.after as).fits bs) := by
  cases s with
  | none => rfl
  | some room =>
    simp only [fits, after, Option.all_some, Option.map_some, List.length_append,
      ← Bool.decide_and, decide_eq_decide]
    omega

/-- What does not fit leaves no room. -/
theorem after_of_not_fits {as : Bytes} (h : s.fits as = false) : s.after as = some 0 := by
  cases s with
  | none => cases h
  | some room =>
    have hroom : room < as.length := by simpa [fits] using h
    simp only [after, Option.map_some, Option.some.injEq]
    omega

end Sink

namespace Run

variable {α β : Type}

theorem bind_apply (x : Run α) (g : α → Run β) (o : Output) :
    (x >>= g) o =
      match x o with
      | (.ok a, o') => g a o'
      | (.error f, o') => (.error f, o') := by
  change ExceptT.bindCont g (x o).1 (x o).2 = _
  rcases x o with ⟨_ | _, _⟩ <;> rfl

/-- Ends a run. -/
def finish (outcome : Except Failure Unit) : Run Unit := fun o => (outcome, o)

theorem finish_ok : finish (.ok ()) = pure () := rfl

theorem write_nil : write [] = pure () := by
  funext o
  have h : write [] o = (.ok (), o) := by simp [write]
  exact h

/-- Two writes are one. -/
theorem write_append (as bs : Bytes) : (do write as; write bs) = write (as ++ bs) := by
  funext o
  rw [bind_apply]
  unfold write
  simp only [Sink.fits_append, Sink.written_append, Sink.after_append]
  cases h : o.sink.fits as with
  | true => simp
  | false =>
    -- The second write does not happen, and would have no room left.
    have hafter := Sink.after_of_not_fits o.sink h
    simp only [hafter, Bool.false_eq_true, ↓reduceIte, Bool.false_and]
    simp [Sink.after, Sink.written]

/-- A single write and its end as a step of a session. -/
theorem step_write (bytes : Bytes) (outcome : Except Failure Unit) (sink : Sink) :
    step (do write bytes; finish outcome) sink =
      (⟨sink.written bytes,
        if sink.fits bytes then outcome else .error (.unwritten "sink is full")⟩,
        sink.after bytes) := by
  unfold step
  rw [bind_apply]
  by_cases h : sink.fits bytes = true
  · simp [write, finish, h]
  · simp [write, h]

end Run

namespace Passage

/-- What is written of a passage, nothing where it is not shown. -/
def encode (style : Style) (p : Passage) : Bytes :=
  if p.isShown style then encodeUtf8 (p.render style) else []

def perform (style : Style) (p : Passage) : Run Unit := Run.write (p.encode style)

/-- Writes passages one by one before it goes on with `next`. -/
def performAll (style : Style) (next : Run Unit) : List Passage → Run Unit
  | [] => next
  | p :: ps => do
    p.perform style
    performAll style next ps

variable (style : Style)

theorem encodeUtf8_join (ps : List Passage) :
    encodeUtf8 (String.join ((ps.filter (isShown style)).map (render style))) =
      ps.flatMap (encode style) := by
  induction ps with
  | nil => rfl
  | cons p ps ih =>
    rw [List.flatMap_cons]
    cases hshown : p.isShown style with
    | true =>
      rw [List.filter_cons_of_pos hshown, List.map_cons, String.join_cons, encodeUtf8_append, ih,
        encode, if_pos hshown]
    | false =>
      have hhidden : ¬p.isShown style = true := by simp [hshown]
      rw [List.filter_cons_of_neg hhidden, ih, encode, if_neg hhidden, List.nil_append]

theorem performAll_append (next : Run Unit) (ps qs : List Passage) :
    performAll style next (ps ++ qs) = performAll style (performAll style next qs) ps := by
  induction ps with
  | nil => rfl
  | cons p ps ih => simp only [List.cons_append, performAll, ih]

/-- Writing passages one by one is writing all of them at once. -/
theorem performAll_eq (next : Run Unit) (ps : List Passage) :
    performAll style next ps = (do
      Run.write (ps.flatMap (encode style))
      next) := by
  induction ps with
  | nil => rw [List.flatMap_nil, Run.write_nil, pure_bind, performAll]
  | cons p ps ih =>
    rw [performAll, ih, perform, ← bind_assoc, Run.write_append, List.flatMap_cons]

end Passage

namespace Transcript

/-- Writes the passages one by one and ends as the transcript does. -/
def perform (style : Style) (t : Transcript) : Run Unit :=
  Passage.performAll style (Run.finish t.outcome) t.passages

/-- What the transcript writes where nothing is cut. -/
def report (style : Style) (t : Transcript) : Bytes := t.passages.flatMap (Passage.encode style)

variable (style : Style)

theorem perform_after (before : List Passage) (t : Transcript) :
    (t.after before).perform style = Passage.performAll style (t.perform style) before :=
  Passage.performAll_append style _ before t.passages

theorem encodeUtf8_render (t : Transcript) : encodeUtf8 (t.render style) = t.report style :=
  Passage.encodeUtf8_join style t.passages

theorem report_after (before : List Passage) (t : Transcript) :
    (t.after before).report style = before.flatMap (Passage.encode style) ++ t.report style :=
  List.flatMap_append

/-- A step in which the passages are written one by one is one in which they are written at
once. -/
theorem step_perform (sink : Sink) (t : Transcript) :
    (t.perform style).step sink = Session.step style sink t := by
  unfold perform Session.step
  rw [Passage.performAll_eq, Run.step_write, encodeUtf8_render]
  rfl

theorem session_perform (sink : Sink) (ts : List Transcript) :
    Run.session sink (ts.map (perform style)) = Session.run style sink ts := by
  induction ts generalizing sink with
  | nil => rfl
  | cons t ts ih => simp only [List.map_cons, Run.session, Session.run, step_perform, ih]

end Transcript

namespace Driver

open Passage (line banner detail)

variable (d : Driver)

/-- How the driver shows transcripts. -/
def style : Style := ⟨d.config.verbose, d.styled, d.palette⟩

theorem perform_line (text : String) : (line text).perform d.style = Run.writeLine text := rfl

theorem perform_banner (tone : Tone) (title : String) :
    (banner tone title).perform d.style = d.separator title tone := by
  simp only [Passage.perform, Passage.encode, separator, Run.writeLine, Passage.render, style]
  rfl

theorem perform_detail (text : String) :
    (detail text).perform d.style =
      if d.config.verbose then Run.writeLine text else pure () := by
  unfold Passage.perform Passage.encode
  by_cases h : d.config.verbose = true
  · rw [if_pos h, if_pos (show (detail text).isShown d.style = true from h)]
    rfl
  · rw [if_neg h, if_neg (show ¬(detail text).isShown d.style = true from h), Run.write_nil]

theorem fail_eq (title : String) (failure : Failure) :
    d.fail title failure = (Transcript.failed title failure).perform d.style := by
  simp only [Transcript.perform, Transcript.failed, Passage.performAll, perform_line,
    perform_banner]
  rfl

theorem checkProgram_eq (p : Program) :
    d.checkProgram p = Passage.performAll d.style
      ((Transcript.ofAnalysis (.ofProgram p)).perform d.style)
      [banner .heading "PHASE 3: SEMANTIC ANALYSIS"] := by
  simp only [checkProgram, Transcript.ofAnalysis, Passage.performAll, perform_banner]
  cases (Analysis.ofProgram p).isOk with
  | true =>
    simp only [↓reduceIte, Transcript.perform, List.cons_append, List.nil_append,
      Passage.performAll, perform_line, perform_banner, Run.finish_ok, bind_pure_unit]
  | false =>
    simp only [Bool.false_eq_true, ↓reduceIte, Transcript.perform, List.cons_append,
      List.nil_append, Passage.performAll, perform_line, perform_banner]
    rfl

theorem compileTokens_eq (ts : List Token) (h : d.config.stage ≠ .lex) :
    d.compileTokens ts = (Transcript.ofTokens d.config.stage ts).perform d.style := by
  simp only [compileTokens, Transcript.ofTokens, Transcript.perform_after, Passage.performAll,
    perform_banner]
  cases Program.ofTokens ts with
  | error m => simp only [fail_eq]
  | ok p =>
    cases hstage : d.config.stage with
    | lex => exact absurd hstage h
    | parse =>
      simp only [↓reduceIte, Transcript.perform, Passage.performAll, perform_line, Run.finish_ok,
        bind_pure_unit]
    | check =>
      simp only [reduceCtorEq, ↓reduceIte, Transcript.perform_after, Passage.performAll,
        perform_line, perform_detail, checkProgram_eq]
      cases d.config.verbose with
      | true => simp only [↓reduceIte]
      | false => simp only [Bool.false_eq_true, ↓reduceIte, pure_bind]

/-- A run over a text does what its transcript says. -/
theorem compileText_eq (text : String) :
    d.compileText text =
      (Transcript.ofText d.config.stage d.config.preview text).perform d.style := by
  simp only [compileText, Transcript.ofText, Transcript.perform_after, Passage.performAll,
    perform_line, perform_banner]
  cases Token.ofText text with
  | error e => simp only [fail_eq]
  | ok ts =>
    have htokens := d.compileTokens_eq ts
    cases hstage : d.config.stage with
    | lex =>
      simp only [↓reduceIte, Transcript.perform, Passage.performAll, perform_line, Run.finish_ok,
        bind_pure_unit]
    | parse | check =>
      rw [hstage] at htokens
      simp only [reduceCtorEq, ↓reduceIte, Transcript.perform_after, Passage.performAll,
        perform_line, perform_detail, ← htokens (by decide)]
      cases d.config.verbose with
      | true => simp only [↓reduceIte]
      | false => simp only [Bool.false_eq_true, ↓reduceIte, pure_bind]

theorem compileFile_eq (path : String) (content : Except String String) :
    d.compileFile path content =
      (Transcript.ofFile d.config.stage d.config.preview path content).perform d.style := by
  cases content with
  | error cause => exact d.fail_eq _ _
  | ok text =>
    simp only [compileFile, Transcript.ofFile, Transcript.perform_after, Passage.performAll,
      perform_line, compileText_eq]

end Driver

/-- The reply to an order is what its driver writes, and its status says how that ends. -/
theorem CommandLine.Order.reply_eq (order : Order) (palette : Palette) (terminal : Bool)
    (content : Except String String) :
    let d := Driver.ofConfig palette terminal order.toConfig
    let step := ((d.compileFile order.path content).step none).1
    encodeUtf8 (order.reply palette terminal content).output = step.written ∧
      (order.reply palette terminal content).status = if step.outcome.isOk then 0 else 1 := by
  intro d step
  have hstep : step = (Session.step d.style none
      (Transcript.ofFile order.stage order.preview order.path content)).1 := by
    simp only [step, Driver.compileFile_eq, Transcript.step_perform]
    rfl
  rw [hstep]
  exact ⟨rfl, rfl⟩

end MiniCheck
