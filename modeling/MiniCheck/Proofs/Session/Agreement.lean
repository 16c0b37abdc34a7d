import MiniCheck.Proofs.Session.Performing

/-!
# What a driver says and how it ends

A driver ends as the phases do that it goes through, and how its report is shown has no part in
that. A report without details is the one with them, cut where they stand, and a report without
colour is the coloured one with every banner unwrapped.
-/

namespace MiniCheck

/-- What the tokens of a text stand for. -/
def Program.ofText (text : String) : Except Failure Program := do
  let ts ← (Token.ofText text).mapError .scan
  (Program.ofTokens ts).mapError .parse

/-- Diagnostics are no matter of the first two phases. -/
theorem Program.ofText_ne_diagnostics {text : String} {f : Failure} (h : ofText text = .error f)
    (n : Nat) : f ≠ .diagnostics n := by
  unfold ofText at h
  cases hts : Token.ofText text with
  | error e =>
    rw [hts] at h
    cases h
    exact nofun
  | ok ts =>
    rw [hts] at h
    have hparse : (ofTokens ts).mapError Failure.parse = .error f := h
    cases hp : ofTokens ts with
    | error m =>
      rw [hp] at hparse
      cases hparse
      exact nofun
    | ok p =>
      rw [hp] at hparse
      cases hparse

theorem Analysis.ofText_eq (text : String) :
    ofText text = (Program.ofText text).map ofProgram := by
  unfold ofText Program.ofText
  cases Token.ofText text with
  | error e => rfl
  | ok ts =>
    change ((Program.ofTokens ts).mapError Failure.parse >>= fun p => .ok (ofProgram p)) =
      ((Program.ofTokens ts).mapError Failure.parse).map ofProgram
    cases Program.ofTokens ts with
    | error m => rfl
    | ok p => rfl

/-- The outcome is the one that the phases up to this stage lead to. -/
def Stage.Decides (text : String) (outcome : Except Failure Unit) : Stage → Prop
  | lex =>
    (outcome = .ok () ↔ ∃ ts, Token.ofText text = .ok ts) ∧
      ∀ e, Token.ofText text = .error e → outcome = .error (.scan e)
  | parse =>
    (outcome = .ok () ↔ ∃ p, Program.ofText text = .ok p) ∧
      ∀ f, Program.ofText text = .error f → outcome = .error f
  | check =>
    (outcome = .ok () ↔ ∃ a, Analysis.ofText text = .ok a ∧ a.diagnostics = []) ∧
      (∀ n, outcome = .error (.diagnostics n) ↔
        ∃ a, Analysis.ofText text = .ok a ∧ a.diagnostics ≠ [] ∧ a.diagnostics.length = n) ∧
      ∀ f, Analysis.ofText text = .error f → outcome = .error f

namespace Transcript

variable {stage : Stage} {preview : Nat} {text : String}

theorem outcome_ofAnalysis (a : Analysis) :
    (ofAnalysis a).outcome =
      if a.diagnostics = [] then .ok () else .error (.diagnostics a.diagnostics.length) := by
  unfold ofAnalysis Analysis.isOk
  cases a.diagnostics with
  | nil => rfl
  | cons d ds => rfl

theorem outcome_ofTokens_parse (ts : List Token) :
    (ofTokens .parse ts).outcome = ((Program.ofTokens ts).mapError .parse).map fun _ => () := by
  unfold ofTokens
  cases Program.ofTokens ts with
  | error m => rfl
  | ok p => rfl

theorem outcome_ofTokens_check (ts : List Token) :
    (ofTokens .check ts).outcome =
      ((Program.ofTokens ts).mapError .parse >>= fun p => (ofAnalysis (.ofProgram p)).outcome) := by
  unfold ofTokens
  cases Program.ofTokens ts with
  | error m => rfl
  | ok p => rfl

theorem outcome_ofText_lex :
    (ofText .lex preview text).outcome =
      match Token.ofText text with
      | .error e => .error (.scan e)
      | .ok _ => .ok () := by
  unfold ofText
  cases Token.ofText text with
  | error e => rfl
  | ok ts => rfl

theorem outcome_ofText_parse :
    (ofText .parse preview text).outcome = (Program.ofText text).map fun _ => () := by
  unfold ofText Program.ofText
  cases Token.ofText text with
  | error e => rfl
  | ok ts => exact outcome_ofTokens_parse ts

theorem outcome_ofText_check :
    (ofText .check preview text).outcome =
      (Program.ofText text >>= fun p => (ofAnalysis (.ofProgram p)).outcome) := by
  unfold ofText Program.ofText
  cases Token.ofText text with
  | error e => rfl
  | ok ts => exact outcome_ofTokens_check ts

/-- How details are shown has no part in how a run ends. -/
theorem outcome_ofText_preview (preview preview' : Nat) :
    (ofText stage preview text).outcome = (ofText stage preview' text).outcome := by
  cases stage with
  | lex => rw [outcome_ofText_lex, outcome_ofText_lex]
  | parse => rw [outcome_ofText_parse, outcome_ofText_parse]
  | check => rw [outcome_ofText_check, outcome_ofText_check]

theorem decides_outcome_ofText : stage.Decides text (ofText stage preview text).outcome := by
  cases stage with
  | lex =>
    rw [outcome_ofText_lex]
    unfold Stage.Decides
    cases Token.ofText text with
    | error e => simp
    | ok ts => simp
  | parse =>
    rw [outcome_ofText_parse]
    unfold Stage.Decides
    cases Program.ofText text with
    | error f => simp [Except.map]
    | ok p => simp [Except.map]
  | check =>
    rw [outcome_ofText_check]
    unfold Stage.Decides
    rw [Analysis.ofText_eq]
    cases h : Program.ofText text with
    | error f =>
      have hne := Program.ofText_ne_diagnostics h
      simpa [Except.map, bind, Except.bind] using hne
    | ok p =>
      by_cases hfound : (Analysis.ofProgram p).diagnostics = []
      · simp [Except.map, bind, Except.bind, outcome_ofAnalysis, hfound]
      · simp [Except.map, bind, Except.bind, outcome_ofAnalysis, hfound]

end Transcript

/-- The second sequence of bytes is the first one with texts replaced, one after the other. -/
inductive Edited : List (String × String) → Bytes → Bytes → Prop
  | same (bytes : Bytes) : Edited [] bytes bytes
  | replace (before : Bytes) (old new : String) {edits : List (String × String)}
      {after after' : Bytes} (h : Edited edits after after') :
      Edited ((old, new) :: edits) (before ++ encodeUtf8 old ++ after)
        (before ++ encodeUtf8 new ++ after')

theorem Edited.append_left (bytes : Bytes) {edits : List (String × String)} {after after' : Bytes}
    (h : Edited edits after after') : Edited edits (bytes ++ after) (bytes ++ after') := by
  cases h with
  | same after => exact .same (bytes ++ after)
  | replace before old new h =>
    have hall := Edited.replace (bytes ++ before) old new h
    simpa only [List.append_assoc] using hall

/-- Lines of text. -/
def unlines (lines : List String) : String := String.join (lines.map fun line => line ++ "\n")

theorem encodeUtf8_unlines_cons (line : String) (lines : List String) :
    encodeUtf8 (unlines (line :: lines)) =
      encodeUtf8 (line ++ "\n") ++ encodeUtf8 (unlines lines) := by
  unfold unlines
  rw [List.map_cons, String.join_cons, encodeUtf8_append]

namespace Passage

variable (colored : Bool) (palette : Palette)

theorem flatMap_encode_line (style : Style) (text : String) (ps : List Passage) :
    (line text :: ps).flatMap (encode style) =
      encodeUtf8 (text ++ "\n") ++ ps.flatMap (encode style) := rfl

theorem flatMap_encode_details (lines : List String) :
    (lines.map detail).flatMap (encode ⟨true, colored, palette⟩) = encodeUtf8 (unlines lines) := by
  induction lines with
  | nil => rfl
  | cons text lines ih =>
    rw [List.map_cons, List.flatMap_cons, ih, encodeUtf8_unlines_cons]
    rfl

theorem flatMap_encode_hidden (lines : List String) :
    (lines.map detail).flatMap (encode ⟨false, colored, palette⟩) = [] :=
  List.flatMap_eq_nil_iff.mpr (List.forall_mem_map.mpr fun _ _ => rfl)

end Passage

namespace Transcript

open Passage (line banner detail)

/-- Leaves out lines behind another one. -/
def cut (behind : String) (lines : List String) : String × String :=
  (unlines (behind :: lines), unlines [behind])

/-- Takes what opens its tone and the reset from a banner. -/
def unwrap (opening : Tone → String) (reset : String) (banner : Tone × String) :
    String × String :=
  (opening banner.1 ++ Passage.bannerLine banner.2 ++ reset, Passage.bannerLine banner.2)

/-- The details behind the second phase. -/
def treeCuts (stage : Stage) (ts : List Token) : List (String × String) :=
  match stage, Program.ofTokens ts with
  | .check, .ok p => [cut "Syntax analysis completed" ["\nAST structure:", p.outline]]
  | _, _ => []

/-- What a run without details leaves out: the first tokens, behind their number, and the tree,
behind the note that there is one. -/
def cuts (stage : Stage) (preview : Nat) (text : String) : List (String × String) :=
  match stage, Token.ofText text with
  | .lex, _ | _, .error _ => []
  | stage, .ok ts =>
    cut s!"Tokens generated: {ts.length}" [s!"\nFirst {preview} tokens:", Token.preview ts preview]
      :: treeCuts stage ts

variable {stage : Stage} {preview : Nat} {text : String} (colored : Bool) (palette : Palette)

theorem report_ofAnalysis (a : Analysis) :
    (ofAnalysis a).report ⟨true, colored, palette⟩ =
      (ofAnalysis a).report ⟨false, colored, palette⟩ := by
  unfold ofAnalysis
  cases a.isOk with
  | true => rfl
  | false => rfl

theorem after_append (ps qs : List Passage) (t : Transcript) :
    t.after (ps ++ qs) = (t.after qs).after ps := by
  simp [after]

/-- Details come as lines behind a line that is always shown. -/
theorem edited_details (behind : String) (lines : List String) {t : Transcript}
    {edits : List (String × String)}
    (h : Edited edits (t.report ⟨true, colored, palette⟩) (t.report ⟨false, colored, palette⟩)) :
    Edited (cut behind lines :: edits)
      ((t.after (line behind :: lines.map detail)).report ⟨true, colored, palette⟩)
      ((t.after (line behind :: lines.map detail)).report ⟨false, colored, palette⟩) := by
  have hcut := h.replace [] (unlines (behind :: lines)) (unlines [behind])
  rw [encodeUtf8_unlines_cons, encodeUtf8_unlines_cons] at hcut
  rw [report_after, report_after, Passage.flatMap_encode_line, Passage.flatMap_encode_line,
    Passage.flatMap_encode_details, Passage.flatMap_encode_hidden]
  exact hcut

theorem edited_ofTokens (stage : Stage) (ts : List Token) :
    Edited (treeCuts stage ts) ((ofTokens stage ts).report ⟨true, colored, palette⟩)
      ((ofTokens stage ts).report ⟨false, colored, palette⟩) := by
  unfold treeCuts ofTokens
  rw [report_after, report_after]
  apply Edited.append_left
  cases Program.ofTokens ts with
  | error m =>
    cases stage with
    | lex | parse | check => exact .same _
  | ok p =>
    cases stage with
    | lex | parse => exact .same _
    | check =>
      let found := after [banner .heading "PHASE 3: SEMANTIC ANALYSIS"] (ofAnalysis (.ofProgram p))
      have hfound : Edited [] (found.report ⟨true, colored, palette⟩)
          (found.report ⟨false, colored, palette⟩) := by
        rw [report_after, report_after, report_ofAnalysis]
        exact .same _
      have hpassages : [line "Syntax analysis completed", detail "\nAST structure:",
          detail p.outline, banner .heading "PHASE 3: SEMANTIC ANALYSIS"] =
          line "Syntax analysis completed" :: ["\nAST structure:", p.outline].map detail ++
            [banner .heading "PHASE 3: SEMANTIC ANALYSIS"] := rfl
      simp only [hpassages, after_append]
      exact edited_details colored palette "Syntax analysis completed" _ hfound

/-- The number of tokens to show is of no account where none are shown. -/
theorem report_ofText_preview (preview preview' : Nat) :
    (ofText stage preview text).report ⟨false, colored, palette⟩ =
      (ofText stage preview' text).report ⟨false, colored, palette⟩ := by
  unfold ofText
  cases Token.ofText text with
  | error e => rfl
  | ok ts =>
    cases stage with
    | lex | parse | check => rfl

theorem edited_ofText :
    Edited (cuts stage preview text) ((ofText stage preview text).report ⟨true, colored, palette⟩)
      ((ofText stage preview text).report ⟨false, colored, palette⟩) := by
  unfold cuts ofText
  rw [report_after, report_after]
  apply Edited.append_left
  cases Token.ofText text with
  | error e =>
    cases stage with
    | lex | parse | check => exact .same _
  | ok ts =>
    have hpreview (stage : Stage) :=
      edited_details colored palette s!"Tokens generated: {ts.length}"
        [s!"\nFirst {preview} tokens:", Token.preview ts preview]
        (edited_ofTokens colored palette stage ts)
    cases stage with
    | lex => exact .same _
    | parse => exact (hpreview .parse).append_left _
    | check => exact (hpreview .check).append_left _

/-- The banner above the verdict of the check. -/
def verdict (a : Analysis) : Tone × String :=
  if a.diagnostics = [] then (.success, "COMPILATION SUCCEEDED")
  else (.failure, "COMPILATION FAILED")

/-- The banners from the second phase on. -/
def syntaxBanners (stage : Stage) (ts : List Token) : List (Tone × String) :=
  (.heading, "PHASE 2: SYNTAX ANALYSIS") ::
    match stage, Program.ofTokens ts with
    | _, .error _ => [(.failure, "SYNTAX ERROR")]
    | .check, .ok p => [(.heading, "PHASE 3: SEMANTIC ANALYSIS"), verdict (.ofProgram p)]
    | _, .ok _ => []

/-- The banners of a run over a text. -/
def banners (stage : Stage) (text : String) : List (Tone × String) :=
  (.heading, "PHASE 1: LEXICAL ANALYSIS") ::
    match stage, Token.ofText text with
    | _, .error _ => [(.failure, "LEXICAL ERROR")]
    | .lex, .ok _ => []
    | stage, .ok ts => syntaxBanners stage ts

end Transcript

namespace Passage

def banner? : Passage → Option (Tone × String)
  | banner tone title => some (tone, title)
  | _ => none

/-- Passages without colour are those with it, with their banners unwrapped. -/
theorem edited_banners {palette : Palette} {opening : Tone → String} {reset : String}
    (h : palette.Wraps opening reset) (verbose : Bool) (ps : List Passage) :
    Edited ((ps.filterMap banner?).map (Transcript.unwrap opening reset))
      (ps.flatMap (encode ⟨verbose, true, palette⟩))
      (ps.flatMap (encode ⟨verbose, false, palette⟩)) := by
  induction ps with
  | nil => exact .same []
  | cons p ps ih =>
    cases p with
    | banner tone title =>
      have hbanner := (ih.append_left (encodeUtf8 "\n")).replace (encodeUtf8 "\n")
        (opening tone ++ bannerLine title ++ reset) (bannerLine title)
      have hwritten (text : String) (bytes : Bytes) :
          encodeUtf8 ("\n" ++ text ++ "\n") ++ bytes =
            encodeUtf8 "\n" ++ encodeUtf8 text ++ (encodeUtf8 "\n" ++ bytes) := by
        simp only [encodeUtf8_append, List.append_assoc]
      have hcolored : encode ⟨verbose, true, palette⟩ (banner tone title) =
          encodeUtf8 ("\n" ++ (opening tone ++ bannerLine title ++ reset) ++ "\n") :=
        congrArg (fun text => encodeUtf8 ("\n" ++ text ++ "\n")) (h tone (bannerLine title))
      rw [← hwritten, ← hwritten, ← hcolored] at hbanner
      exact hbanner
    | line text => exact ih.append_left (encodeUtf8 (text ++ "\n"))
    | detail text => exact ih.append_left (encode ⟨verbose, false, palette⟩ (detail text))

end Passage

namespace Transcript

variable {stage : Stage} {preview : Nat} {text : String}

theorem banners_ofAnalysis (a : Analysis) :
    (ofAnalysis a).passages.filterMap Passage.banner? = [verdict a] := by
  unfold ofAnalysis Analysis.isOk verdict
  cases a.diagnostics with
  | nil => rfl
  | cons d ds => rfl

theorem banners_ofTokens (stage : Stage) (ts : List Token) :
    (ofTokens stage ts).passages.filterMap Passage.banner? = syntaxBanners stage ts := by
  unfold ofTokens syntaxBanners
  refine congrArg (_ :: ·) ?_
  cases Program.ofTokens ts with
  | error m =>
    cases stage with
    | lex | parse | check => rfl
  | ok p =>
    cases stage with
    | lex | parse => rfl
    | check => exact congrArg (_ :: ·) (banners_ofAnalysis (.ofProgram p))

theorem banners_ofText :
    (ofText stage preview text).passages.filterMap Passage.banner? = banners stage text := by
  unfold ofText banners
  refine congrArg (_ :: ·) ?_
  cases Token.ofText text with
  | error e =>
    cases stage with
    | lex | parse | check => rfl
  | ok ts =>
    cases stage with
    | lex => rfl
    | parse => exact banners_ofTokens .parse ts
    | check => exact banners_ofTokens .check ts

end Transcript

namespace Driver

open Transcript (cuts banners unwrap)

/-- The run over a text where every write succeeds. -/
def unlimited (d : Driver) (text : String) : Session.Step := ((d.compileText text).step none).1

theorem unlimited_eq (d : Driver) (text : String) :
    d.unlimited text =
      let t := Transcript.ofText d.config.stage d.config.preview text
      ⟨t.report d.style, t.outcome⟩ := by
  unfold unlimited
  rw [compileText_eq, Transcript.step_perform, Session.step, Transcript.encodeUtf8_render]
  rfl

/-- How a run ends is decided by the phases that it goes through. The options of the report have
no part in that: without details a report lacks these and nothing else, and without colour only
the banners differ. Where the palette puts a text between two others, these are what the banners
lack. -/
theorem unlimited_decided (palette : Palette) (terminal : Bool) (stage : Stage) (text : String) :
    let run (verbose : Bool) (color : ColorChoice) (preview : Nat) :=
      (ofConfig palette terminal ⟨verbose, stage, color, preview⟩).unlimited text
    (∀ verbose color preview, stage.Decides text (run verbose color preview).outcome) ∧
      (∀ verbose color preview verbose' color' preview',
        (run verbose color preview).outcome = (run verbose' color' preview').outcome) ∧
      (∀ color preview preview',
        Edited (cuts stage preview text) (run true color preview).written
          (run false color preview').written) ∧
      ∀ opening reset, palette.Wraps opening reset → ∀ verbose preview,
        Edited ((banners stage text).map (unwrap opening reset))
          (run verbose .always preview).written (run verbose .never preview).written := by
  intro run
  have hrun (verbose : Bool) (color : ColorChoice) (preview : Nat) :
      run verbose color preview =
        let t := Transcript.ofText stage preview text
        ⟨t.report ⟨verbose, color.enabled terminal, palette⟩, t.outcome⟩ :=
    unlimited_eq _ text
  simp only [hrun]
  refine ⟨?decided, ?independent, ?quiet, ?plain⟩
  case decided => exact fun _ _ _ => Transcript.decides_outcome_ofText
  case independent =>
    exact fun _ _ preview _ _ preview' => Transcript.outcome_ofText_preview preview preview'
  case quiet =>
    intro color preview preview'
    rw [Transcript.report_ofText_preview _ _ preview' preview]
    exact Transcript.edited_ofText _ _
  case plain =>
    intro opening reset hwraps verbose preview
    rw [← Transcript.banners_ofText]
    exact Passage.edited_banners hwraps verbose _

/-- The escapes that the program has around the banners of a run in which a name is undeclared. -/
theorem unlimited_decided_terminal :
    let run (color : ColorChoice) :=
      (ofConfig Terminal.palette false ⟨true, .check, color, 10⟩).unlimited "int a = b;"
    let opened (escapes title : String) :=
      (escapes ++ Passage.bannerLine title ++ "\x1b[0m", Passage.bannerLine title)
    (run .always).outcome = .error (.diagnostics 1) ∧
      Edited
        [opened "\x1b[38;5;14m\x1b[1m" "PHASE 1: LEXICAL ANALYSIS",
          opened "\x1b[38;5;14m\x1b[1m" "PHASE 2: SYNTAX ANALYSIS",
          opened "\x1b[38;5;14m\x1b[1m" "PHASE 3: SEMANTIC ANALYSIS",
          opened "\x1b[38;5;9m\x1b[1m" "COMPILATION FAILED"]
        (run .always).written (run .never).written := by
  intro run opened
  obtain ⟨hdecided, -, -, hplain⟩ :=
    unlimited_decided Terminal.palette false .check "int a = b;"
  let ts : List Token := [⟨.intWord, "int", ⟨1, 1⟩⟩, ⟨.name, "a", ⟨1, 5⟩⟩, ⟨.equal, "=", ⟨1, 7⟩⟩,
    ⟨.name, "b", ⟨1, 9⟩⟩, ⟨.semicolon, ";", ⟨1, 10⟩⟩]
  let p : Program := [.declareVar "a" .int (some (.var "b" ⟨0, ⟨1, 9⟩⟩)) ⟨1, 5⟩]
  have hts : Token.ofText "int a = b;" = .ok ts := rfl
  have hanalyzed : Analysis.ofText "int a = b;" = .ok (.ofProgram p) := by
    rw [Analysis.ofText, hts]
    rfl
  have hfound : (Analysis.ofProgram p).diagnostics = [⟨.undeclaredVariable "b", ⟨1, 9⟩⟩] := by
    decide
  have hfails : (Analysis.ofProgram p).diagnostics ≠ [] ∧
      (Analysis.ofProgram p).diagnostics.length = 1 := by
    rw [hfound]
    exact ⟨List.cons_ne_nil _ _, rfl⟩
  have hbanners : banners .check "int a = b;" =
      [(.heading, "PHASE 1: LEXICAL ANALYSIS"), (.heading, "PHASE 2: SYNTAX ANALYSIS"),
        (.heading, "PHASE 3: SEMANTIC ANALYSIS"), (.failure, "COMPILATION FAILED")] := by
    decide +kernel
  have hedited := hplain Terminal.opening Terminal.reset Terminal.wraps_palette true 10
  rw [hbanners] at hedited
  exact ⟨((hdecided true .always 10).2.1 1).mpr ⟨_, hanalyzed, hfails⟩, hedited⟩

end Driver
end MiniCheck
