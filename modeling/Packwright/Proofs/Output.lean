import Packwright.Command.Run
import Packwright.Proofs.Documents
import Packwright.Proofs.Staging

/-
  What a run does with its output. Generating code into a new file ends as it does in memory, as
  long as the device does not fail (`Job.generateInto_cases`), so a run and a dry run of it agree.
  Each stage of a run has one statement about its steps, its outcome and the files in the end, and
  `generateWith_all_or_nothing` is put together from them: a target holds what it held, or the
  whole of the new output.
-/

namespace Packwright

open Packwright.Action (Goes Raises)

/-! ## Generating code -/

namespace Job

/-- What a batch comes to as long as the device does not fail: the same error, or the same report,
on every device. -/
theorem verdict_cases (j : Job) (t : Table) (r : Except Fault Report) :
    (∃ e : RunError, e.stage = .generate ∧ ∀ p q : Printer, q.failure = none →
      Batch.generate t j.settings.config j.settings.methods p = Print.conclude r q →
        (j.generateInto t).run p = .error e q) ∨
    ∃ report, ∀ p q : Printer, q.failure = none →
      Batch.generate t j.settings.config j.settings.methods p = Print.conclude r q →
        (j.generateInto t).run p = .ok report q := by
  cases r with
  | error fault =>
    refine .inl ⟨ofFault fault, by cases fault <;> rfl, fun p q hq h => ?_⟩
    rw [Print.conclude_error hq] at h
    simp only [generateInto, EStateM.run, h]
  | ok report =>
    by_cases hclean : (report.isClean || j.keepGoing) = true
    · refine .inr ⟨report, fun p q hq h => ?_⟩
      rw [Print.conclude_ok hq] at h
      simp only [generateInto, EStateM.run, h, hclean, if_true]
    · refine .inl ⟨.failedIdentities (report.failures.map Failure.name), rfl, fun p q hq h => ?_⟩
      rw [Print.conclude_ok hq] at h
      simp only [generateInto, EStateM.run, h, hclean]
      rfl

/-- Generating code into a new file ends as it does in memory, unless the device fails. -/
theorem generateInto_cases (j : Job) (t : Table) {sink : Sink} (hempty : sink.data = #[]) :
    (∃ e p, (j.generateInto t).run { sink } = .error e p ∧ e.stage = .generate ∧
      ((∃ cause, e.deviceFailure? = some cause ∧ sink.Fails cause) ∨ j.generate t = .error e)) ∨
    ∃ report p text, (j.generateInto t).run { sink } = .ok report p ∧
      j.generate t = .ok ⟨text, report⟩ ∧ p.failure = none ∧ sink.Follows p.sink ∧
      p.sink.data.toList = utf8 text ∧ p.written = text.utf8ByteSize := by
  obtain ⟨texts, r, -, hmakes⟩ :=
    Batch.exists_texts t j.settings.config j.settings.methods
  obtain ⟨q, hmemory, hheld⟩ := hmakes.fine Sink.not_fails_memory
  have hdata : q.sink.data.toList = utf8 (String.join texts) := hheld.data
  have hdevice := hmakes { sink } rfl
  rcases Printer.runAll_cases (p := { sink }) rfl (texts.map .print ++ Print.closing r) with
    ⟨p, hall, htook, hwritten⟩ | ⟨_, _, _, p, e, taken, -, hall, -, htook, -⟩
  · rw [hall] at hdevice
    rw [Print.callsText_closing] at htook hwritten
    rcases j.verdict_cases t r with ⟨e, hgenerates, hrun⟩ | ⟨report, hrun⟩
    · refine .inl ⟨e, p, hrun _ _ htook.failure hdevice, hgenerates, .inr ?_⟩
      rw [generate, hrun _ _ hheld.failure hmemory]
    · refine .inr ⟨report, p, String.join texts, hrun _ _ htook.failure hdevice, ?_,
        htook.failure, htook.follows, ?_, ?_⟩
      · rw [generate, hrun _ _ hheld.failure hmemory]
        dsimp only
        rw [hdata, Lossy.decode_utf8]
      · rw [htook.data, hempty]
        rfl
      · rw [hwritten, Nat.zero_add]
  · refine .inl ⟨.generation (.sink e), p, ?_, rfl, .inl ⟨e, rfl, htook.fails⟩⟩
    rw [hall, Print.conclude_failed htook.failure] at hdevice
    simp only [generateInto, EStateM.run, hdevice]
    rfl

/-- If failing identities are passed over, the code is the file of the batch. -/
theorem generate_of_keepGoing {j : Job} {t : Table} {code : String} {report : Report}
    (hkeep : j.keepGoing = true)
    (hfile : Batch.generateFile t j.settings.config j.settings.methods = .ok (code, report)) :
    j.generate t = .ok ⟨code, report⟩ := by
  unfold Batch.generateFile at hfile
  unfold generate generateInto
  cases hrun : (Batch.generate t j.settings.config j.settings.methods).run { sink := .memory } with
  | error fault p =>
    rw [hrun] at hfile
    cases hfile
  | ok report' p =>
    rw [hrun] at hfile
    obtain ⟨rfl, rfl⟩ := Prod.mk.inj (Except.ok.inj hfile)
    have hrun : (Batch.generate t j.settings.config j.settings.methods) { sink := .memory } =
      .ok report' p := hrun
    simp only [EStateM.run, hrun, hkeep, Bool.or_true, if_true]

end Job

namespace Staged

/-- What a target held it still holds. Only if its path leads through the target itself may a
directory have come to be where nothing was. -/
def Holds (target : Path) (t t' : FileTree) : Prop :=
  t'.get? target.location = t.get? target.location ∨
    target.location ∈ target.above ∧ t.get? target.location = none ∧
      t'.get? target.location = some .directory

theorem Apart.holds {target : Path} {t t' : FileTree} (h : Apart target t t') :
    Holds target t t' := by
  rcases h target.location (Ne.symm target.location_staging_ne) with hsame | ⟨habove, hnode⟩
  · exact .inl hsame
  · exact .inr ⟨habove, hnode⟩

/-- A run whose output did not reach its target: the target holds what it held, at every step and in
the end, and a staging file that the run created is gone. -/
structure Kept (target : Path) (w : World) (s : List Step) (v : World) : Prop where
  steps : ∀ step ∈ s, Holds target w.files step.after.files
  final : Holds target w.files v.files
  staging : v.files.get? target.staging.location = none ∨
    ∀ step ∈ s, ¬ step.Creates target.staging

/-- A run that moved a text over its target: the target held what it held until then, right after it
holds the text and there is no staging file, and the number of bytes is told. -/
def Replaced (target : Path) (w : World) (s : List Step) (text : String) : Prop :=
  ∃ before committed told after,
    s = before ++ ⟨.rename target.staging target, .ok (), committed⟩ ::
      ⟨.tell (Written.message ⟨target, text.utf8ByteSize⟩), (), told⟩ :: after ∧
    (∀ step ∈ before, Holds target w.files step.after.files) ∧
    committed.files.read target = .ok (utf8 text) ∧
    committed.files.find target.staging = .error .notFound

theorem kept_of_idle (target : Path) {w v : World} {s : List Step} (h : Idles w s v) :
    Kept target w s v := by
  obtain ⟨hsteps, told, rfl⟩ := h
  refine ⟨fun step hstep => .inl ?_, .inl rfl, .inr fun step hstep => (hsteps step hstep).creates _⟩
  rw [(hsteps step hstep).files]

theorem Undone.kept {target : Path} {w w₁ v : World} {s₁ s₂ : List Step} (h₁ : Idles w s₁ w₁)
    (h₂ : Undone target w₁.files s₂ v) : Kept target w (s₁ ++ s₂) v := by
  have hsteps := (kept_of_idle target h₁).steps
  obtain ⟨hidle, told, rfl⟩ := h₁
  refine ⟨?_, h₂.apart.holds, ?_⟩
  · exact List.forall_mem_append.2 ⟨hsteps, fun step hstep => (h₂.steps step hstep).holds⟩
  · rcases h₂.staging with hnone | hcreates
    · exact .inl hnone
    · exact .inr (List.forall_mem_append.2 ⟨fun step h => (hidle step h).creates _, hcreates⟩)

end Staged

namespace Command

open Staged (Apart Undone Kept Replaced)

variable {j : Job} {t : Table} {w : World}

/-! ## The stages of a run -/

theorem goes_tellReport (r : Report) (w : World) :
    ∃ s w', Goes (tellReport r) w s (.ok ()) w' ∧ Idles w s w' := by
  obtain ⟨s₁, w₁, htell, hidles⟩ := Action.goes_tell
    ("  Generated " ++ Decimal.ofNat r.generated.length ++ " identity(ies)\n") w
  obtain ⟨s₂, w₂, hrest, hidles'⟩ := Action.goes_forIn (fun (f : Failure) w =>
    Action.goes_tell ("  Skipped " ++ f.name ++ ": " ++ f.error.message ++ "\n") w) r.failures w₁
  refine ⟨s₁ ++ (s₂ ++ []), w₂, htell.bind (hrest.bind (.pure _ w₂)), ?_⟩
  rw [List.append_nil]
  exact hidles.append hidles'

/-- The identities are those of a table that the input is the text of. -/
theorem goes_load (input : Path) (d : Directives) (w : World) : ∃ s r,
    Goes (Input.load input d) w s r w ∧ Idles w s w ∧
      ((∃ e, r = .error e ∧ e.stage = .load ∧ ∀ text t, w.files.read input = .ok (utf8 text) →
        Table.read? text = some t → t.size = 0) ∨
      ∃ text t, w.files.read input = .ok (utf8 text) ∧ Table.read? text = some t ∧
        r = .ok (.ofTable d t)) := by
  unfold Input.load
  obtain ⟨s, r, hread, hidles, ⟨cause, rfl, hunread⟩ | ⟨text, rfl, htext⟩⟩ :=
    Action.goes_attempt_readText w input (.unreadableInput input)
  · refine ⟨s, _, hread.bind_error, hidles, .inl ⟨_, rfl, rfl, fun text t htext => ?_⟩⟩
    exact absurd htext (hunread text)
  have hend : Idles w (s ++ []) w := by rwa [List.append_nil]
  have hsame : ∀ text', w.files.read input = .ok (utf8 text') → text' = text :=
    fun text' htext' => utf8_inj (Except.ok.inj (htext'.symm.trans htext))
  cases htable : Table.read? text with
  | none =>
    refine ⟨s ++ [], .error (.malformedInput input), hread.bind ?_, hend, .inl ⟨_, rfl, rfl, ?_⟩⟩
    · rw [htable]
      exact .throw _ w
    · intro text' t htext' ht
      rw [hsame text' htext', htable] at ht
      cases ht
  | some t =>
    by_cases hsize : t.size = 0
    · refine ⟨s ++ [], .error (.emptyInput input), hread.bind ?_, hend, .inl ⟨_, rfl, rfl, ?_⟩⟩
      · simp only [htable, if_pos hsize]
        exact .throw _ w
      · intro text' t' htext' ht'
        rw [hsame text' htext', htable] at ht'
        rw [← Option.some.inj ht', hsize]
    · refine ⟨s ++ [], .ok (.ofTable d t), hread.bind ?_, hend, .inr ⟨text, t, htext, htable, rfl⟩⟩
      simp only [htable, if_neg hsize]
      exact .pure _ w

theorem goes_loadIdentities (input : Path) (d : Directives) (w : World) : ∃ s r w',
    Goes (loadIdentities input d) w s r w' ∧ Idles w s w' ∧
      ((∃ e, r = .error e ∧ e.stage = .load ∧ ∀ text t, w.files.read input = .ok (utf8 text) →
        Table.read? text = some t → t.size = 0) ∨
      ∃ text t, w.files.read input = .ok (utf8 text) ∧ Table.read? text = some t ∧
        r = .ok (.ofTable d t)) := by
  unfold loadIdentities
  obtain ⟨s₁, w₁, htell, hidles⟩ := Action.goes_tell "Loading identities...\n" w
  obtain ⟨s₂, r, hload, hidles₂, hcases⟩ := goes_load input d w₁
  have hidles₂ := hidles.append hidles₂
  obtain ⟨-, told, rfl⟩ := hidles
  rcases hcases with ⟨e, rfl, herror⟩ | ⟨text, t, htext, htable, rfl⟩
  · exact ⟨_, .error e, _, htell.bind hload.bind_error, hidles₂, .inl ⟨e, rfl, herror⟩⟩
  · obtain ⟨s₃, w₃, hfound, hidles₃⟩ := Action.goes_tell ("  Found " ++
      Decimal.ofNat (Input.ofTable d t).declared ++ " identity(ies), " ++
      Decimal.ofNat (Input.ofTable d t).identities.size ++ " after passes\n") { w with told }
    obtain ⟨s₄, w₄, hannounce, hidles₄⟩ := Action.goes_tell "Generating encoders...\n" w₃
    refine ⟨s₁ ++ (s₂ ++ (s₃ ++ (s₄ ++ []))), _, w₄,
      htell.bind (hload.bind (hfound.bind (hannounce.bind (.pure _ w₄)))), ?_,
      .inr ⟨text, t, htext, htable, rfl⟩⟩
    rw [List.append_nil, ← List.append_assoc]
    exact hidles₂.append (hidles₃.append hidles₄)

theorem goes_preview {text : String} {report : Report} (h : j.generate t = .ok ⟨text, report⟩)
    (w : World) : ∃ s w', Goes (preview j t) w s (.ok ()) w' ∧
      Shows w s w' (rule ++ (text ++ "\n") ++ rule) := by
  obtain ⟨s₁, w₁, hreport, hidles⟩ := goes_tellReport report w
  obtain ⟨s₂, w₂, htell, hidles'⟩ :=
    Action.goes_tell ("[dry-run] Would write to " ++ j.settings.outputPath ++ ":\n") w₁
  obtain ⟨s₃, w₃, hrule, hshows⟩ := Action.goes_print rule w₂
  obtain ⟨s₄, w₄, htext, hshows'⟩ := Action.goes_print (text ++ "\n") w₃
  obtain ⟨s₅, w₅, hrule', hshows''⟩ := Action.goes_print rule w₄
  refine ⟨s₁ ++ (s₂ ++ (s₃ ++ (s₄ ++ s₅))), w₅, ?_, ?_⟩
  · unfold preview
    rw [h]
    exact hreport.bind (htell.bind (hrule.bind (htext.bind hrule')))
  · have hall := (hidles.append hidles').shows.append (hshows.append (hshows'.append hshows''))
    simpa only [List.append_assoc, String.append_assoc, String.empty_append] using hall

theorem goes_preview_error {e : RunError} (h : j.generate t = .error e) (w : World) :
    Goes (preview j t) w [] (.error e) w := by
  unfold preview
  rw [h]
  exact .throw e w

/-- Code that is generated into a staged output is committed as a whole, or the output is given up:
because there is no code, because it cannot be written or moved, or because its device fails. -/
theorem goes_complete {target : Path} {files : FileTree} (sink : Sink) (hempty : sink.data = #[])
    (h : Staged.Prepared target files w.files) (j : Job) (t : Table) : ∃ s r v,
    Goes (complete j t ⟨target, target.staging, { sink }⟩) w s r v ∧
      ((∃ e, r = .error e ∧ (e.stage = .generate ∨ e.stage = .write) ∧
        ((∃ step ∈ s, step.Failed) ∧ (∃ content, ∀ saved,
          w.files.write target.staging content = .ok saved →
            ∃ cause, saved.rename target.staging target = .error cause) ∨
          (∃ cause, e.deviceFailure? = some cause ∧ sink.Fails cause) ∨
          j.generate t = .error e) ∧
        Staged.Withdrawn target files s v) ∨
      ∃ text report before saved committed, r = .ok () ∧ j.generate t = .ok ⟨text, report⟩ ∧
        s = before ++ [⟨.rename target.staging target, .ok (), committed⟩,
          ⟨.tell (Written.message ⟨target, text.utf8ByteSize⟩), (), v⟩] ∧
        (∀ step ∈ before, Apart target files step.after.files) ∧
        w.files.write target.staging (utf8 text) = .ok saved ∧
        saved.rename target.staging target = .ok committed.files) := by
  unfold complete
  dsimp only
  rcases j.generateInto_cases t hempty with ⟨e, p, hrun, hstage, hcause⟩ |
    ⟨report, p, text, hrun, hgenerate, hopen, hfollows, hdata, hwritten⟩
  · obtain ⟨s, v, hfail, hwithdrawn⟩ := Staged.goes_fail (α := Unit) h { sink } e
    rw [hrun]
    exact ⟨s, _, v, hfail, .inl ⟨e, rfl, .inl hstage, .inr hcause, hwithdrawn⟩⟩
  · rw [hrun]
    dsimp only
    obtain ⟨s₁, w₁, hreport, hidle, told, rfl⟩ := goes_tellReport report w
    have hsteps : ∀ step ∈ s₁, Apart target files step.after.files := by
      intro step hstep
      rw [(hidle step hstep).files]
      exact h.apart
    obtain ⟨s₂, r, w₂, hcommit, hcommitted⟩ := Staged.goes_commit (w := { w with told }) h hopen
    rw [hdata, hwritten] at hcommitted
    rcases hcommitted with ⟨e, rfl, hstage, hcause, hwithdrawn⟩ |
      ⟨before, saved, rfl, rfl, hbefore, hsave, hrename⟩
    · refine ⟨_, _, w₂, hreport.bind hcommit.bind_error, .inl ⟨e, rfl, .inr hstage, ?_,
        hwithdrawn.after hsteps⟩⟩
      rcases hcause with ⟨⟨step, hstep, hfailed⟩, hstuck⟩ | ⟨cause, hreports, hfails⟩
      · exact .inl ⟨⟨step, List.mem_append_right _ hstep, hfailed⟩, utf8 text, hstuck⟩
      · exact .inr (.inl ⟨cause, hreports, hfollows.fails hfails⟩)
    · obtain ⟨w₃, htell⟩ : ∃ w₃,
          Goes (Action.tell (Written.message ⟨target, text.utf8ByteSize⟩)) w₂
            [⟨.tell (Written.message ⟨target, text.utf8ByteSize⟩), (), w₃⟩] (.ok ()) w₃ :=
        ⟨_, .request rfl⟩
      refine ⟨_, _, w₃, hreport.bind (hcommit.bind htell), .inr ⟨text, report, s₁ ++ before, saved,
        w₂, rfl, hgenerate, by simp, ?_, hsave, hrename⟩⟩
      exact List.forall_mem_append.2 ⟨hsteps, hbefore⟩

/-- Generating code into its file: it is given up, or it is committed as a whole. -/
theorem goes_produce (j : Job) (t : Table) (w : World) : ∃ s r w',
    Goes (produce j t) w s r w' ∧
      ((∃ e, r = .error e ∧ (e.stage = .generate ∨ e.stage = .write) ∧
        ((∃ step ∈ s, step.Failed) ∨
          (∃ cause, e.deviceFailure? = some cause ∧ w.device.Fails cause) ∨
          j.generate t = .error e) ∧
        Undone j.settings.outputPath w.files s w') ∨
      ∃ text report before committed, r = .ok () ∧ j.generate t = .ok ⟨text, report⟩ ∧
        s = before ++ [⟨.rename j.settings.outputPath.staging j.settings.outputPath, .ok (),
          committed⟩,
          ⟨.tell (Written.message ⟨j.settings.outputPath, text.utf8ByteSize⟩), (), w'⟩] ∧
        (∀ step ∈ before, Apart j.settings.outputPath w.files step.after.files) ∧
        committed.files.read j.settings.outputPath = .ok (utf8 text) ∧
        committed.files.find j.settings.outputPath.staging = .error .notFound) := by
  unfold produce
  generalize j.settings.outputPath = target
  obtain ⟨s₁, r, w₁, hcreate, hsteps, ⟨e, rfl, hstage, hfailed, hundone⟩ | ⟨rfl, hprepared⟩⟩ :=
    Staged.goes_create target w
  · exact ⟨s₁, _, w₁, hcreate.bind_error, .inl ⟨e, rfl, .inr hstage, .inl hfailed, hundone⟩⟩
  obtain ⟨s₂, r, w₂, hcomplete, hcases⟩ :=
    goes_complete { w.device with data := #[] } rfl hprepared j t
  refine ⟨s₁ ++ s₂, r, w₂, hcreate.bind hcomplete, ?_⟩
  rcases hcases with ⟨e, rfl, hstage, hcause, hwithdrawn⟩ |
    ⟨text, report, before, saved, committed, rfl, hgenerate, rfl, hbefore, hsave, hrename⟩
  · refine .inl ⟨e, rfl, hstage, hcause.imp ?_ id, (hwithdrawn.after hsteps).undone⟩
    rintro ⟨⟨step, hstep, hfailed⟩, -⟩
    exact ⟨step, List.mem_append_right _ hstep, hfailed⟩
  · refine .inr ⟨text, report, s₁ ++ before, committed, rfl, hgenerate, by simp, ?_,
      Staged.read_of_moved hsave hrename⟩
    exact List.forall_mem_append.2 ⟨hsteps, hbefore⟩

/-! ## The schema -/

theorem raises_schema (j : Job) (t : Table) : Raises (j.schema t) fun e => e.stage = .schema := by
  unfold Job.schema
  split
  · exact .throw rfl
  · split
    · exact .bind (.request _) fun _ => .pure _
    · exact .pure _

theorem raises_send (schema : Schema) (dest : Destination) :
    Raises (schema.send dest) fun e => e.stage = .schema := by
  unfold Schema.send
  dsimp only
  cases dest with
  | standardOutput => exact .request _
  | file p =>
    dsimp only
    split
    · exact .bind (.attempt fun _ => rfl) fun _ => .attempt fun _ => rfl
    · exact .attempt fun _ => rfl

theorem raises_exportRequested (j : Job) (t : Table) (dryRun : Bool) :
    Raises (exportRequested j t dryRun) fun e => e.stage = .schema := by
  unfold exportRequested exportSchema
  split
  · refine .bind (raises_schema j t) fun schema => ?_
    split
    · exact raises_send schema _
    · split
      · exact .request _
      · exact .bind (raises_send schema _) fun _ => .request _
  · exact .pure _

theorem goes_schema (j : Job) (t : Table) (w : World) : ∃ s r w',
    Goes (j.schema t) w s r w' ∧ Shows w s w' "" := by
  unfold Job.schema
  cases Schema.extract t with
  | error cause => exact ⟨[], _, w, .throw _ w, .nil w⟩
  | ok schema =>
    dsimp only
    split
    · have hfresh : Goes (Action.request .freshId) w
          [⟨.freshId, w.nextId, { w with nextId := w.nextId + 1 }⟩] (.ok w.nextId)
          { w with nextId := w.nextId + 1 } := .request rfl
      exact ⟨_, _, _, hfresh.bind (.pure _ _), List.forall_mem_singleton.2 rfl, rfl,
        String.append_empty.symm⟩
    · exact ⟨[], _, w, .pure _ w, .nil w⟩

/-- A schema that is not to be written is at most printed. -/
theorem goes_exportRequested_dry (j : Job) (t : Table) (w : World) : ∃ s r w' more,
    Goes (exportRequested j t true) w s r w' ∧ Shows w s w' more ∧
      (j.settings.destination ≠ some .standardOutput → more = "") := by
  unfold exportRequested
  cases hdest : j.settings.destination with
  | none => exact ⟨[], _, w, "", .pure _ w, .nil w, fun _ => rfl⟩
  | some dest =>
    unfold exportSchema
    obtain ⟨s₁, r, w₁, hschema, hshows⟩ := goes_schema j t w
    cases r with
    | error e => exact ⟨s₁, _, w₁, "", hschema.bind_error, hshows, fun _ => rfl⟩
    | ok schema =>
      cases dest with
      | standardOutput =>
        obtain ⟨s₂, w₂, hprint, hshows'⟩ := Action.goes_print (schema.write ++ "\n") w₁
        exact ⟨s₁ ++ s₂, _, w₂, _, hschema.bind hprint, hshows.append hshows', (absurd rfl ·)⟩
      | file p =>
        obtain ⟨s₂, w₂, htell, hidles⟩ :=
          Action.goes_tell ("[dry-run] Would write schema to " ++ p ++ "\n") w₁
        exact ⟨s₁ ++ s₂, _, w₂, _, hschema.bind htell, hshows.append hidles.shows, fun _ => rfl⟩

/-! ## All or nothing -/

section

variable {input : Path} {w₁ : World} {loaded : Input} {s₁ : List Step}

/-- A dry run shows the code, or ends with the error of generating it. -/
theorem goes_dry (hload : Goes (loadIdentities input j.settings.directives) w s₁ (.ok loaded) w₁)
    (hidles : Idles w s₁ w₁) : ∃ s r v, Goes (generateWith input j true) w s r v ∧
      ∃ shown, Shows w s v shown ∧
        ((∃ e, j.generate loaded.identities = .error e ∧ r = .error e) ∨
        ∃ text report more, j.generate loaded.identities = .ok ⟨text, report⟩ ∧
          (∀ e, r = .error e → e.stage = .schema) ∧
          shown = rule ++ (text ++ "\n") ++ rule ++ more ∧
          (j.settings.destination ≠ some .standardOutput → more = "")) := by
  cases hgenerate : j.generate loaded.identities with
  | error e =>
    exact ⟨_, _, _, hload.bind (goes_preview_error hgenerate w₁).bind_error, _,
      hidles.shows.append (.nil w₁), .inl ⟨e, rfl, rfl⟩⟩
  | ok output =>
    obtain ⟨s₂, w₂, hpreview, hshows⟩ := goes_preview hgenerate w₁
    obtain ⟨s₃, r, w₃, more, hexport, hshows', hmore⟩ :=
      goes_exportRequested_dry j loaded.resolved w₂
    refine ⟨_, _, _, hload.bind (hpreview.bind hexport), _,
      hidles.shows.append (hshows.append hshows'), .inr ⟨_, _, more, rfl, ?_, ?_, hmore⟩⟩
    · rintro e rfl
      exact raises_exportRequested _ _ _ _ _ _ _ hexport
    · rw [String.empty_append]

/-- A run replaces its target by the code, or gives up. If it gives up, an operation failed, the
device of the output failed, or there is no code. -/
theorem goes_real (hload : Goes (loadIdentities input j.settings.directives) w s₁ (.ok loaded) w₁)
    (hidles : Idles w s₁ w₁) : ∃ s r v, Goes (generateWith input j false) w s r v ∧
      ((∃ e, r = .error e ∧ (e.stage = .generate ∨ e.stage = .write) ∧
        ((∃ step ∈ s, step.Failed) ∨
          (∃ cause, e.deviceFailure? = some cause ∧ w.device.Fails cause) ∨
          j.generate loaded.identities = .error e) ∧
        Kept j.settings.outputPath w s v) ∨
      ∃ text report, j.generate loaded.identities = .ok ⟨text, report⟩ ∧
        (∀ e, r = .error e → e.stage = .schema) ∧
        Replaced j.settings.outputPath w s text) := by
  obtain ⟨s₂, r, w₂, hproduce, hcases⟩ := goes_produce j loaded.identities w₁
  rcases hcases with ⟨e, rfl, hkind, hcause, hundone⟩ |
    ⟨text, report, before, committed, rfl, hgenerate, rfl, hbefore, hread, hgone⟩
  · refine ⟨s₁ ++ s₂, .error e, w₂, hload.bind hproduce.bind_error, .inl ⟨e, rfl, hkind, ?_,
      hundone.kept hidles⟩⟩
    obtain ⟨-, told, rfl⟩ := hidles
    refine hcause.imp ?_ id
    rintro ⟨step, hstep, hfailed⟩
    exact ⟨step, List.mem_append_right _ hstep, hfailed⟩
  · obtain ⟨s₃, r, w₃, hexport⟩ : ∃ s₃ r w₃,
        Goes (exportRequested j loaded.resolved false) w₂ s₃ r w₃ := ⟨_, _, _, Action.goes _ _⟩
    refine ⟨_, r, w₃, hload.bind (hproduce.bind hexport), .inr ⟨text, report, hgenerate, ?_, ?_⟩⟩
    · rintro e rfl
      exact raises_exportRequested _ _ _ _ _ _ _ hexport
    · refine ⟨s₁ ++ before, committed, w₂, s₃, by simp, ?_, hread, hgone⟩
      have hidle := (Staged.kept_of_idle j.settings.outputPath hidles).steps
      obtain ⟨-, told, rfl⟩ := hidles
      exact List.forall_mem_append.2 ⟨hidle, fun step hstep => (hbefore step hstep).holds⟩

end

/-- Staged output is all or nothing, and it is what a dry run shows. A dry run changes no file. A
run that stops while it loads, generates or writes leaves the target as it was and no staging file
of its own; any other run replaced the target by the text that a dry run prints, and told its
length. If no operation failed, neither on the files nor on the device of the output, then the run
ends with an error of generation exactly if a dry run does. A target that is on the way to itself is
excepted, as `Holds` says; without a pair of dots no path leads through its own target. -/
theorem generateWith_all_or_nothing {input : Path} {j : Job} {w v v' : World} {s s' : List Step}
    {r r' : Except RunError Unit} (hreal : Goes (generateWith input j false) w s r v)
    (hdry : Goes (generateWith input j true) w s' r' v') :
    ((∀ step ∈ s', step.after.files = w.files) ∧ v'.files = w.files) ∧
    ((∃ e, r = .error e ∧ (e.stage = .load ∨ e.stage = .generate ∨ e.stage = .write) ∧
        Kept j.settings.outputPath w s v) ∨
      (∀ e, r = .error e → e.stage = .schema) ∧
        ∃ text more, Replaced j.settings.outputPath w s text ∧
          v'.printed = w.printed ++ (rule ++ (text ++ "\n") ++ rule ++ more) ∧
          (j.settings.destination ≠ some .standardOutput → more = "")) ∧
    ((∃ step ∈ s, step.Failed) ∨
      (∃ e cause, r = .error e ∧ e.deviceFailure? = some cause ∧ w.device.Fails cause) ∨
      ∀ e, e.stage = .generate → (r = .error e ↔ r' = .error e)) ∧
    (".." ∉ j.settings.outputPath.names →
      j.settings.outputPath.location ∉ j.settings.outputPath.above) := by
  obtain ⟨s₁, _, w₁, hload, hidles, ⟨e, rfl, hstage, -⟩ | ⟨_, t, -, -, rfl⟩⟩ :=
    goes_loadIdentities input j.settings.directives w
  · obtain ⟨rfl, rfl, rfl⟩ := hload.bind_error.unique hreal
    obtain ⟨rfl, rfl, rfl⟩ := hload.bind_error.unique hdry
    exact ⟨⟨hidles.shows.steps, hidles.shows.files⟩,
      .inl ⟨e, rfl, .inl hstage, Staged.kept_of_idle _ hidles⟩, .inr (.inr fun _ _ => Iff.rfl),
      Path.location_notMem_above⟩
  obtain ⟨_, _, _, hgoes, hcases⟩ := goes_real hload hidles
  obtain ⟨_, _, _, hgoes', shown, hshows, hcases'⟩ := goes_dry hload hidles
  obtain ⟨rfl, rfl, rfl⟩ := hgoes.unique hreal
  obtain ⟨rfl, rfl, rfl⟩ := hgoes'.unique hdry
  refine ⟨⟨hshows.steps, hshows.files⟩, and_assoc.1 ⟨?_, Path.location_notMem_above⟩⟩
  rcases hcases with ⟨e, rfl, hstage, hcause, hkept⟩ | ⟨text, report, hgenerate, hschema, hcommit⟩
  · refine ⟨.inl ⟨e, rfl, .inr hstage, hkept⟩, ?_⟩
    rcases hcause with hfailed | ⟨cause, hreports, hfails⟩ | hgenerate
    · exact .inl hfailed
    · exact .inr (.inl ⟨e, cause, rfl, hreports, hfails⟩)
    -- nothing failed, so the dry run has the same error
    · rcases hcases' with ⟨e', hgenerate', rfl⟩ | ⟨_, _, _, hgenerate', -⟩
      · obtain rfl := Except.error.inj (hgenerate.symm.trans hgenerate')
        exact .inr (.inr fun _ _ => Iff.rfl)
      · cases hgenerate.symm.trans hgenerate'
  · rcases hcases' with ⟨e', hgenerate', rfl⟩ | ⟨_, _, more, hgenerate', hschema', rfl, hmore⟩
    · cases hgenerate.symm.trans hgenerate'
    · cases hgenerate.symm.trans hgenerate'
      refine ⟨.inr ⟨hschema, text, more, hcommit, hshows.printed, hmore⟩,
        .inr (.inr fun e hstage => ⟨fun h => ?_, fun h => ?_⟩)⟩
      · cases hstage.symm.trans (hschema e h)
      · cases hstage.symm.trans (hschema' e h)

/-- A working directory with a file of one identity. -/
def desk : World where
  files := ⟨[(["types.json"], .file (utf8 (Table.ofList [Batch.ids]).write))]⟩

/-- The files on the desk and others. -/
def deskWith (entries : List (Location × FileNode)) : FileTree := ⟨entries ++ desk.files.entries⟩

theorem goes_loadIdentities_desk : ∃ s told, Goes (loadIdentities "types.json" {}) desk s
    (.ok (.ofTable {} (Table.ofList [Batch.ids]))) { desk with told } ∧
      Idles desk s { desk with told } := by
  have hcounts : (Table.ofList [Batch.ids]).CountsFit := by
    change ∀ e ∈ [Batch.ids], _
    simp [Batch.ids, Shape.Everywhere, Shape.CountsFit, Shape.ofKind]
  have hdepth : (Table.ofList [Batch.ids]).toJson.depth ≤ Json.nestingLimit := by decide
  have hwrite : Table.read? (Table.ofList [Batch.ids]).write = some (Table.ofList [Batch.ids]) := by
    rw [Table.read?_write_eq hcounts, if_pos hdepth]
  obtain ⟨s, _, _, hgoes, hidles, ⟨e, -, -, hempty⟩ | ⟨text, t, htext, htable, rfl⟩⟩ :=
    goes_loadIdentities "types.json" {} desk
  · cases hempty _ _ rfl hwrite
  · have hread : desk.files.read "types.json" = .ok (utf8 (Table.ofList [Batch.ids]).write) := rfl
    obtain rfl := utf8_inj (Except.ok.inj (hread.symm.trans htext))
    obtain rfl := Option.some.inj (hwrite.symm.trans htable)
    obtain ⟨told, rfl⟩ := hidles.told
    exact ⟨s, told, hgoes, hidles⟩

/-- On the desk nothing is in the way of the output. -/
theorem goes_produce_desk (told : String) : ∃ s v,
    Goes (produce ⟨{}, true⟩ (Table.ofList [Batch.ids])) { desk with told } s (.ok ()) v := by
  obtain ⟨code, report, hfile⟩ := Batch.generateFile_ids
  have hgenerate := Job.generate_of_keepGoing (j := ⟨{}, true⟩) rfl hfile
  have hmake : desk.files.makeDirectories "./generated" =
    (.ok (), deskWith [(["generated"], .directory)]) := rfl
  have hwrite : (deskWith [(["generated"], .directory)]).write
    (Path.staging "./generated/zebrapack_gen.rs") [] = .ok (deskWith
      [(["zebrapack_gen.rs.partial", "generated"], .file []), (["generated"], .directory)]) := rfl
  obtain ⟨s₁, hcreate⟩ := Staged.goes_create_of_fine (w := { desk with told }) rfl hmake hwrite
  obtain ⟨s₂, r, v, hcomplete, hcases⟩ := goes_complete
    (w := { desk with told, files := _ }) { desk.device with data := #[] } rfl
    (Staged.prepared_of_write hwrite).1 ⟨{}, true⟩ (Table.ofList [Batch.ids])
  rcases hcases with ⟨e, -, -, hcause, -⟩ | ⟨_, _, _, _, _, rfl, -⟩
  · rcases hcause with ⟨-, content, hstuck⟩ | ⟨cause, -, hfails⟩ | hnone
    · have hmoved : (deskWith [(["zebrapack_gen.rs.partial", "generated"], .file content),
        (["generated"], .directory)]).rename (Path.staging "./generated/zebrapack_gen.rs")
        "./generated/zebrapack_gen.rs" = .ok (deskWith
          [(["zebrapack_gen.rs", "generated"], .file content), (["generated"], .directory)]) := rfl
      obtain ⟨cause, hcause⟩ := hstuck _ rfl
      cases hmoved.symm.trans hcause
    · exact absurd hfails (Sink.not_fails_memory cause)
    · cases hgenerate.symm.trans hnone
  · exact ⟨s₁ ++ s₂, v, hcreate.bind hcomplete⟩

/-- On the desk the code reaches its file, and a dry run prints the same text. -/
theorem generateWith_desk : ∃ s v s' r' v' text,
    Goes (generateWith "types.json" ⟨{}, true⟩ false) desk s (.ok ()) v ∧
    Goes (generateWith "types.json" ⟨{}, true⟩ true) desk s' r' v' ∧
    Replaced "./generated/zebrapack_gen.rs" desk s text ∧
    v'.printed = rule ++ (text ++ "\n") ++ rule ∧ v'.files = desk.files := by
  obtain ⟨s₁, told, hload, hidles⟩ := goes_loadIdentities_desk
  have hdry := Action.goes (generateWith "types.json" ⟨{}, true⟩ true) desk
  obtain ⟨s, v, hreal⟩ : ∃ s v,
      Goes (generateWith "types.json" ⟨{}, true⟩ false) desk s (.ok ()) v := by
    obtain ⟨s₂, v, hproduce⟩ := goes_produce_desk told
    exact ⟨s₁ ++ (s₂ ++ []), v, hload.bind (hproduce.bind (.pure _ v))⟩
  obtain ⟨⟨-, hfiles⟩, ⟨e, he, -⟩ | ⟨-, text, more, hreplaced, hprinted, hmore⟩, -⟩ :=
    generateWith_all_or_nothing hreal hdry
  · cases he
  · obtain rfl := hmore nofun
    refine ⟨s, v, _, _, _, text, hreal, hdry, hreplaced, ?_, hfiles⟩
    rw [hprinted, String.append_empty]
    exact String.empty_append

/-- A path that goes back through its own target. Its directory is created on the way to it, so
where nothing was there is a directory then, and the output fails on it. -/
theorem generateWith_makes_directory : ∃ s e v,
    Goes (generateWith "types.json" ⟨{ directory := "zebrapack_gen.rs/.." }, false⟩ false) desk s
      (.error e) v ∧ (e.stage = .generate ∨ e.stage = .write) ∧
    desk.files.get? (Path.location "zebrapack_gen.rs/../zebrapack_gen.rs") = none ∧
    v.files.get? (Path.location "zebrapack_gen.rs/../zebrapack_gen.rs") = some .directory := by
  have hmake : desk.files.makeDirectories "zebrapack_gen.rs/.." =
    (.ok (), deskWith [(["zebrapack_gen.rs"], .directory)]) := rfl
  have hwrite : (deskWith [(["zebrapack_gen.rs"], .directory)]).write
    (Path.staging "zebrapack_gen.rs/../zebrapack_gen.rs") [] = .ok (deskWith
      [(["zebrapack_gen.rs.partial"], .file []), (["zebrapack_gen.rs"], .directory)]) := rfl
  obtain ⟨s₁, told, hload, -⟩ := goes_loadIdentities_desk
  obtain ⟨s₂, hcreate⟩ := Staged.goes_create_of_fine (w := { desk with told }) rfl hmake hwrite
  obtain ⟨s₃, r, v, hcomplete, hcases⟩ := goes_complete
    (w := { desk with told, files := _ }) { desk.device with data := #[] } rfl
    (Staged.prepared_of_write hwrite).1 ⟨{ directory := "zebrapack_gen.rs/.." }, false⟩
    (Table.ofList [Batch.ids])
  rcases hcases with ⟨e, rfl, hstage, -, hwithdrawn⟩ |
    ⟨text, _, _, saved, _, -, -, -, -, hsave, hrename⟩
  · refine ⟨_, e, v, hload.bind (Goes.bind_error (hcreate.bind hcomplete)), hstage, rfl, ?_⟩
    exact hwithdrawn.apart.directory (Ne.symm (Path.location_staging_ne _)) rfl
  -- the output cannot be moved over a directory
  · have hstuck : (deskWith [(["zebrapack_gen.rs.partial"], .file (utf8 text)),
        (["zebrapack_gen.rs"], .directory)]).rename
        (Path.staging "zebrapack_gen.rs/../zebrapack_gen.rs")
        "zebrapack_gen.rs/../zebrapack_gen.rs" = .error .isDirectory := rfl
    obtain rfl := Except.ok.inj hsave
    cases hstuck.symm.trans hrename

end Command

end Packwright
