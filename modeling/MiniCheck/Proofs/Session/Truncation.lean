import MiniCheck.Proofs.Session.Performing

/-!
# Reports that are cut short

What a session writes is cut where the sink is full, and nothing else is lost. The steps whose
reports got through whole end as they would have ended anyway. The one whose report is cut, and
all behind it, fail because of the sink and for no other reason.
-/

namespace MiniCheck

theorem encodeUtf8_line_ne_nil (text : String) : encodeUtf8 (text ++ "\n") ≠ [] := by
  rw [encodeUtf8_append]
  exact List.append_ne_nil_of_right_ne_nil _ (by decide)

namespace Sink

variable (s : Sink)

/-- Behind something that did not fit nothing fits, unless it is empty. -/
theorem fits_append_of_ne_nil (as : Bytes) {bs : Bytes} (h : bs ≠ []) :
    s.fits (as ++ bs) = (s.after as).fits bs := by
  rw [fits_append]
  cases has : s.fits as with
  | true => rfl
  | false =>
    have hroom : (s.after as).fits bs = false := by
      simp [after_of_not_fits s has, fits, h]
    rw [hroom, Bool.false_and]

end Sink

namespace Transcript

variable {stage : Stage} {preview : Nat} {text : String}

/-- The size of the text is written first. -/
theorem report_ofText_ne_nil (style : Style) :
    (ofText stage preview text).report style ≠ [] := by
  unfold ofText
  rw [report_after, List.flatMap_cons, List.append_assoc]
  exact List.append_ne_nil_of_left_ne_nil (encodeUtf8_line_ne_nil _) _

theorem outcome_ofAnalysis_ne_unwritten (a : Analysis) (cause : String) :
    (ofAnalysis a).outcome ≠ .error (.unwritten cause) := by
  unfold ofAnalysis
  cases a.isOk with
  | true => exact nofun
  | false => exact nofun

theorem outcome_ofTokens_ne_unwritten (ts : List Token) (cause : String) :
    (ofTokens stage ts).outcome ≠ .error (.unwritten cause) := by
  unfold ofTokens
  rw [outcome_after]
  cases Program.ofTokens ts with
  | error m => exact nofun
  | ok p =>
    cases stage with
    | lex | parse => exact nofun
    | check => exact outcome_ofAnalysis_ne_unwritten _ cause

/-- No phase fails for want of a sink. -/
theorem outcome_ofText_ne_unwritten (cause : String) :
    (ofText stage preview text).outcome ≠ .error (.unwritten cause) := by
  unfold ofText
  rw [outcome_after]
  cases Token.ofText text with
  | error e => exact nofun
  | ok ts =>
    cases stage with
    | lex => exact nofun
    | parse | check => simpa only [outcome_after] using outcome_ofTokens_ne_unwritten ts cause

end Transcript

namespace Session

open Transcript (report)

variable (style : Style)

theorem run_cons (sink : Sink) (t : Transcript) (ts : List Transcript) :
    run style sink (t :: ts) =
      ⟨sink.written (t.report style),
        if sink.fits (t.report style) then t.outcome else .error (.unwritten "sink is full")⟩ ::
      run style (sink.after (t.report style)) ts := by
  simp only [run, step, Transcript.encodeUtf8_render]

/-- Where nothing is cut, no step depends on those before it. -/
theorem run_none (ts : List Transcript) :
    run style none ts = ts.map fun t => ⟨t.report style, t.outcome⟩ := by
  induction ts with
  | nil => rfl
  | cons t ts ih =>
    rw [run_cons, List.map_cons, ← ih]
    rfl

theorem length_run (sink : Sink) (ts : List Transcript) :
    (run style sink ts).length = ts.length := by
  induction ts generalizing sink with
  | nil => rfl
  | cons t ts ih => rw [run_cons, List.length_cons, List.length_cons, ih]

/-- All steps together write what fits of all reports together. -/
theorem written_run (sink : Sink) (ts : List Transcript) :
    (run style sink ts).flatMap Step.written = sink.written (ts.flatMap (report style)) := by
  induction ts generalizing sink with
  | nil => exact sink.written_nil.symm
  | cons t ts ih => rw [run_cons, List.flatMap_cons, List.flatMap_cons, Sink.written_append, ih]

/-- A step ends as its transcript does if all that has been written up to its end fits. -/
theorem outcome_run (sink : Sink) {ts : List Transcript} (h : ∀ t ∈ ts, t.report style ≠ [])
    (k : Nat) :
    (run style sink ts)[k]?.map Step.outcome = ts[k]?.map fun t =>
      if sink.fits ((ts.take (k + 1)).flatMap (report style)) then t.outcome
      else .error (.unwritten "sink is full") := by
  induction ts generalizing sink k with
  | nil => rfl
  | cons t ts ih =>
    obtain ⟨-, hts⟩ := List.forall_mem_cons.mp h
    rw [run_cons]
    cases k with
    | zero =>
      simp only [List.take_succ_cons, List.take_zero, List.flatMap_singleton]
      rfl
    | succ k =>
      rw [List.getElem?_cons_succ, List.getElem?_cons_succ, ih _ hts]
      cases hk : ts[k]? with
      | none => rfl
      | some u =>
        -- The step itself writes something, so no room is left for it if those before it had
        -- too much to write.
        have hwrites : (ts.take (k + 1)).flatMap (report style) ≠ [] := by
          have hu := hts u (List.mem_of_getElem? hk)
          rw [List.take_add_one, hk]
          simp [hu]
        rw [List.take_succ_cons, List.flatMap_cons, Sink.fits_append_of_ne_nil _ _ hwrites]

/-- The outcomes under a limit, from what is written and how it ends without one. -/
theorem outcome_run_limit {ts : List Transcript} (h : ∀ t ∈ ts, t.report style ≠ [])
    (limit k : Nat) :
    (run style (some limit) ts)[k]?.map Step.outcome = (run style none ts)[k]?.map fun s =>
      if (((run style none ts).take (k + 1)).flatMap Step.written).length ≤ limit then s.outcome
      else .error (.unwritten "sink is full") := by
  have hwritten : ((run style none ts).take (k + 1)).flatMap Step.written =
      (ts.take (k + 1)).flatMap (report style) := by
    rw [run_none, ← List.map_take, List.flatMap_map]
  rw [outcome_run style (some limit) h, hwritten, run_none, List.getElem?_map, Option.map_map]
  simp only [Sink.fits, Option.all_some, decide_eq_true_eq]
  rfl

end Session

namespace Driver

open Session (Step)

/-- The steps of a driver that runs over texts one after the other. -/
def session (d : Driver) (sink : Sink) (texts : List String) : List Step :=
  Run.session sink (texts.map d.compileText)

theorem session_eq (d : Driver) (sink : Sink) (texts : List String) :
    d.session sink texts =
      Session.run d.style sink
        (texts.map (Transcript.ofText d.config.stage d.config.preview)) := by
  rw [← Transcript.session_perform, List.map_map]
  unfold session
  congr 1
  exact List.map_congr_left fun text _ => d.compileText_eq text

/-- A sink that takes `limit` bytes gets the first `limit` bytes of what is written where
nothing is cut. A step ends as it does there if all that is written up to its end has room,
and else it fails because of the sink, which no step does otherwise. -/
theorem session_truncated (d : Driver) (limit : Nat) (texts : List String) :
    let free := d.session none texts
    let cut := d.session (some limit) texts
    cut.flatMap Step.written = (free.flatMap Step.written).take limit ∧
      (free.length = texts.length ∧ cut.length = texts.length) ∧
      (∀ k, cut[k]?.map Step.outcome = free[k]?.map fun s =>
        if ((free.take (k + 1)).flatMap Step.written).length ≤ limit then s.outcome
        else .error (.unwritten "sink is full")) ∧
      ∀ s ∈ free, ∀ cause, s.outcome ≠ .error (.unwritten cause) := by
  intro free cut
  let ts := texts.map (Transcript.ofText d.config.stage d.config.preview)
  have hfree : free = Session.run d.style none ts := d.session_eq none texts
  have hcut : cut = Session.run d.style (some limit) ts := d.session_eq (some limit) texts
  have hlength : ts.length = texts.length := List.length_map _
  have hreports : ∀ t ∈ ts, t.report d.style ≠ [] :=
    List.forall_mem_map.mpr fun _ _ => Transcript.report_ofText_ne_nil d.style
  have houtcomes : ∀ t ∈ ts, ∀ cause, t.outcome ≠ .error (.unwritten cause) :=
    List.forall_mem_map.mpr fun _ _ => Transcript.outcome_ofText_ne_unwritten
  rw [hfree, hcut, Session.length_run, Session.length_run]
  refine ⟨?_, ⟨hlength, hlength⟩, Session.outcome_run_limit d.style hreports limit, ?_⟩
  · rw [Session.written_run, Session.written_run]
    rfl
  · rw [Session.run_none]
    exact List.forall_mem_map.mpr houtcomes

end Driver
end MiniCheck
