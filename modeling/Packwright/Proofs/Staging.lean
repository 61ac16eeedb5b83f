import Packwright.Files.Staged
import Packwright.Proofs.FileTrees
import Packwright.Proofs.Latching
import Packwright.Proofs.Steps

/-
  Staged output. While an output is staged, everything but its staging file is as it was, except
  that the directories above the target may have come to be (`Apart`). A staged output that is
  given up is removed (`goes_fail`), and one that is committed is moved over its target as a whole
  or given up (`goes_commit`). Each of these says exactly when it is the one and when the other.
-/

namespace Packwright

open FileTree (Keeps)

namespace World

/-- An operation on the files changes them, or fails and changes nothing. -/
theorem change_cases (w : World) (result : Except OsError FileTree) :
    (∃ files, result = .ok files ∧ w.change result = (.ok (), { w with files })) ∨
      ∃ e, result = .error e ∧ w.change result = (.error e, w) := by
  cases result with
  | ok files => exact .inl ⟨files, rfl, rfl⟩
  | error e => exact .inr ⟨e, rfl, rfl⟩

theorem write_cases (w : World) (p : Path) (content : Bytes) :
    (∃ files, w.files.write p content = .ok files ∧
      w.answer (.write p content) = (.ok (), { w with files })) ∨
    ∃ e, w.files.write p content = .error e ∧ w.answer (.write p content) = (.error e, w) :=
  w.change_cases (w.files.write p content)

theorem rename_cases (w : World) (source target : Path) :
    (∃ files, w.files.rename source target = .ok files ∧
      w.answer (.rename source target) = (.ok (), { w with files })) ∨
    ∃ e, w.files.rename source target = .error e ∧
      w.answer (.rename source target) = (.error e, w) :=
  w.change_cases (w.files.rename source target)

end World

/-- The stages of a run. -/
inductive RunStage where
  | settings
  | load
  | generate
  | write
  | schema

namespace RunError

/-- The stage that an error ends. A count that overflows does so while code is generated. -/
def stage : RunError → RunStage
  | unreadableSettings .. | malformedSettings _ | emptySetting _ | settingsExist _
  | unwritableSettings _ => .settings
  | unreadableInput .. | malformedInput _ | emptyInput _ => .load
  | generation _ | failedIdentities _ | fault _ => .generate
  | uncreatableDirectory .. | unwritableFile .. | incompleteFile .. => .write
  | unsupportedShape _ | unwritableSchema .. => .schema

/-- The failure of the output device that an error reports. -/
def deviceFailure? : RunError → Option SinkError
  | generation (.sink e) | incompleteFile _ (.sink e) => some e
  | _ => none

end RunError

namespace Staged

/-! ## The files around a staged output -/

/-- Everything but the staging file of a target is as it was, except that directories above the
target may have come to be. -/
def Apart (target : Path) (t t' : FileTree) : Prop :=
  ∀ l, l ≠ target.staging.location → Keeps target.above t t' l

/-- The staging file of a target is there, and everything else is as it was. -/
structure Prepared (target : Path) (t t' : FileTree) : Prop where
  apart : Apart target t t'
  opens : t'.Opens target.staging
  file : ∃ content, t'.get? target.staging.location = some (.file content)

section

variable {target : Path} {t m t' : FileTree}

theorem Apart.refl (target : Path) (t : FileTree) : Apart target t t := fun l _ => .refl t l

theorem Apart.trans (h : Apart target t m) (h' : Apart target m t') : Apart target t t' :=
  fun l hl => (h l hl).trans (h' l hl)

theorem Apart.directory (h : Apart target t t') {l : Location} (hl : l ≠ target.staging.location)
    (hdirectory : t.get? l = some .directory) : t'.get? l = some .directory :=
  (h l hl).directory hdirectory

theorem Prepared.of_apart (h : Apart target t m) (h' : Prepared target m t') :
    Prepared target t t' :=
  ⟨h.trans h'.apart, h'.opens, h'.file⟩

/-- Creating the directories of a target touches nothing else. -/
theorem apart_makeDirectories {parent : Path}
    (h : target.parent?.filter (fun q => !q.isEmpty) = some parent) (t : FileTree) :
    Apart target t (t.makeDirectories parent).2 := by
  have habove : target.above = parent.ancestors.map Path.location := by
    rw [Path.above, h]
    rfl
  intro l _
  rw [habove]
  exact t.keeps_makeDirectories parent l

/-- Writing the staging file touches nothing else. -/
theorem prepared_of_write {content : Bytes} (h : t.write target.staging content = .ok t') :
    Prepared target t t' ∧ t'.get? target.staging.location = some (.file content) := by
  obtain ⟨hopens, hnode, rfl⟩ := FileTree.write_eq_ok h
  have hfile : (t.set target.staging.location (.file content)).get? target.staging.location =
      some (.file content) := t.get?_set_self _ (FileTree.isGiven_of_ne_directory hnode)
  have hapart : Apart target t (t.set target.staging.location (.file content)) :=
    fun l hl => .inl (t.get?_set_of_ne _ hl)
  refine ⟨⟨hapart, hopens.mono fun l hl => ?_, content, hfile⟩, hfile⟩
  exact hapart.directory (fun heq => hnode (heq ▸ hl)) hl

/-- A staging file can be removed, and then there is none. -/
theorem Prepared.remove (h : Prepared target t m) : ∃ t', m.remove target.staging = .ok t' ∧
    Apart target t t' ∧ t'.get? target.staging.location = none := by
  obtain ⟨content, hfile⟩ := h.file
  refine ⟨_, h.opens.remove hfile, h.apart.trans fun l hl => .inl (m.get?_erase_of_ne hl), ?_⟩
  exact FileTree.get?_erase_self (FileTree.isGiven_of_ne_directory (t := m) (by rw [hfile]; nofun))

/-- A staging file that is written and moved over its target is the target then. -/
theorem read_of_moved {content : Bytes} (hwrite : t.write target.staging content = .ok m)
    (hrename : m.rename target.staging target = .ok t') :
    t'.read target = .ok content ∧ t'.find target.staging = .error .notFound := by
  obtain ⟨h, hfile⟩ := prepared_of_write hwrite
  obtain ⟨content', hsource, hopens, hgoal, rfl⟩ := FileTree.rename_eq_ok hrename
  obtain rfl : content = content' := by
    rw [hfile] at hsource
    cases hsource
    rfl
  have hne := target.location_staging_ne
  -- only the two files changed, so every directory is still there
  have hdirectories : ∀ l, m.get? l = some .directory →
      ((m.erase target.staging.location).set target.location (.file content)).get? l =
        some .directory := by
    intro l hl
    have hl₁ : l ≠ target.location := fun heq => hgoal (heq ▸ hl)
    have hl₂ : l ≠ target.staging.location := by
      intro heq
      rw [heq, hfile] at hl
      cases hl
    rw [FileTree.get?_set_of_ne _ _ hl₁, m.get?_erase_of_ne hl₂, hl]
  constructor
  · refine (hopens.mono hdirectories).read ?_
    exact FileTree.get?_set_self _ _ (FileTree.isGiven_of_ne_directory hgoal)
  · refine (h.opens.mono hdirectories).find_eq_notFound ?_
    rw [FileTree.get?_set_of_ne _ _ hne]
    exact FileTree.get?_erase_self
      (FileTree.isGiven_of_ne_directory (t := m) (by rw [hfile]; nofun))

end

/-! ## Creating, discarding and committing -/

open Packwright.Action (Goes)

section

variable {target : Path} {t : FileTree} {w : World}

/-- A run whose output did not reach its target. It kept everything but the staging file on its way,
and the staging file is gone in the end, if the run created one. -/
structure Undone (target : Path) (t : FileTree) (s : List Step) (w' : World) : Prop where
  steps : ∀ step ∈ s, Apart target t step.after.files
  apart : Apart target t w'.files
  staging : w'.files.get? target.staging.location = none ∨
    ∀ step ∈ s, ¬ step.Creates target.staging

theorem goes_start {files : FileTree} (h : w.files.write target.staging [] = .ok files) :
    Goes (start target) w
      [⟨.create target.staging, .ok { w.device with data := #[] }, { w with files }⟩]
      (.ok ⟨target, target.staging, { sink := { w.device with data := #[] } }⟩)
      { w with files } :=
  (Action.goes_attempt_create w target.staging (.unwritableFile target.staging) h).bind (.pure _ _)

theorem goes_start_error {cause : OsError} (h : w.files.write target.staging [] = .error cause) :
    Goes (start target) w [⟨.create target.staging, .error cause, w⟩]
      (.error (.unwritableFile target.staging cause)) w :=
  (Action.goes_attempt_create_error w target.staging (.unwritableFile target.staging) h).bind_error

/-- What comes of creating a staged output: it failed and left nothing, or there is an empty staging
file. -/
structure Created (target : Path) (w : World) (s : List Step) (r : Except RunError Staged)
    (w' : World) : Prop where
  steps : ∀ step ∈ s, Apart target w.files step.after.files
  outcome : (∃ e, r = .error e ∧ e.stage = .write ∧ (∃ step ∈ s, step.Failed) ∧
      Undone target w.files s w') ∨
    r = .ok ⟨target, target.staging, { sink := { w.device with data := #[] } }⟩ ∧
      Prepared target w.files w'.files

/-- A staging file that is created after the directories above it. -/
theorem created_start (made : List Step) {files : FileTree}
    (hapart : Apart target w.files files)
    (hmade : ∀ step ∈ made, Apart target w.files step.after.files ∧
      ¬ step.Creates target.staging) :
    ∃ s r w', Goes (start target) { w with files } s r w' ∧ Created target w (made ++ s) r w' := by
  cases hwrite : files.write target.staging [] with
  | ok files' =>
    have hprepared := (prepared_of_write hwrite).1.of_apart hapart
    refine ⟨_, _, _, goes_start (w := { w with files }) hwrite, List.forall_mem_append.2
      ⟨fun step h => (hmade step h).1, ?_⟩, .inr ⟨rfl, hprepared⟩⟩
    exact List.forall_mem_singleton.2 hprepared.apart
  | error cause =>
    have hsteps : ∀ step ∈ made ++ [⟨.create target.staging, .error cause, { w with files }⟩],
        Apart target w.files step.after.files ∧ ¬ step.Creates target.staging :=
      List.forall_mem_append.2 ⟨hmade, List.forall_mem_singleton.2
        ⟨hapart, fun hcreates => hcreates.2 rfl⟩⟩
    have hkept := fun step h => (hsteps step h).1
    refine ⟨_, _, _, goes_start_error (w := { w with files }) hwrite, hkept, .inl ⟨_, rfl, rfl,
      ⟨_, List.mem_append_right _ List.mem_cons_self, rfl⟩, hkept, hapart, .inr ?_⟩⟩
    exact fun step h => (hsteps step h).2

theorem goes_create (target : Path) (w : World) :
    ∃ s r w', Goes (create target) w s r w' ∧ Created target w s r w' := by
  unfold create
  cases hparent : target.parent?.filter fun p => !p.isEmpty with
  | none => exact created_start [] (.refl target w.files) (List.forall_mem_nil _)
  | some parent =>
    have hapart := apart_makeDirectories hparent w.files
    obtain ⟨reply, files, hmade⟩ : ∃ reply files, w.files.makeDirectories parent = (reply, files) :=
      ⟨_, _, rfl⟩
    rw [hmade] at hapart
    have hmake := Action.goes_attempt_makeDirectories w parent (.uncreatableDirectory parent) hmade
    cases reply with
    | ok u =>
      obtain ⟨s, r, w', hstart, hcreated⟩ := created_start
        [⟨.makeDirectories parent, .ok u, { w with files }⟩] hapart
        (List.forall_mem_singleton.2 ⟨hapart, fun h => nomatch h.1⟩)
      exact ⟨_, r, w', hmake.bind hstart, hcreated⟩
    | error cause =>
      refine ⟨_, _, _, hmake.bind_error, List.forall_mem_singleton.2 hapart, .inl ⟨_, rfl, rfl,
        ⟨_, List.mem_cons_self, rfl⟩, List.forall_mem_singleton.2 hapart, hapart,
        .inr ?_⟩⟩
      exact List.forall_mem_singleton.2 fun h => nomatch h.1

/-- A staged output is created if its directory and its staging file can be. -/
theorem goes_create_of_fine {parent : Path} {made files : FileTree}
    (hparent : target.parent?.filter (fun p => !p.isEmpty) = some parent)
    (hmake : w.files.makeDirectories parent = (.ok (), made))
    (hwrite : made.write target.staging [] = .ok files) :
    ∃ s, Goes (create target) w s
      (.ok ⟨target, target.staging, { sink := { w.device with data := #[] } }⟩)
      { w with files } := by
  unfold create
  rw [hparent]
  exact ⟨_, (Action.goes_attempt_makeDirectories w parent _ hmake).bind
    (goes_start (w := { w with files := made }) hwrite)⟩

/-- A run whose staging file is gone in the end. -/
structure Withdrawn (target : Path) (t : FileTree) (s : List Step) (w' : World) : Prop where
  steps : ∀ step ∈ s, Apart target t step.after.files
  apart : Apart target t w'.files
  staging : w'.files.get? target.staging.location = none

theorem Withdrawn.after {s₁ s₂ : List Step} {w' : World}
    (h₁ : ∀ step ∈ s₁, Apart target t step.after.files) (h₂ : Withdrawn target t s₂ w') :
    Withdrawn target t (s₁ ++ s₂) w' :=
  ⟨List.forall_mem_append.2 ⟨h₁, h₂.steps⟩, h₂.apart, h₂.staging⟩

theorem Withdrawn.undone {s : List Step} {w' : World} (h : Withdrawn target t s w') :
    Undone target t s w' := ⟨h.steps, h.apart, .inl h.staging⟩

/-- A staged output that is given up is removed. -/
theorem goes_fail {α : Type} (h : Prepared target t w.files) (printer : Printer) (e : RunError) :
    ∃ s w', Goes (fail ⟨target, target.staging, printer⟩ e : Action α) w s (.error e) w' ∧
      Withdrawn target t s w' := by
  obtain ⟨files, hremove, hapart, hnone⟩ := h.remove
  have hanswer : w.answer (.remove target.staging) = (.ok (), { w with files }) := by
    change w.change (w.files.remove target.staging) = _
    rw [hremove]
    rfl
  have hgoes := Goes.request hanswer
  exact ⟨_, _, (hgoes.bind (.pure _ _)).bind (.throw e _), List.forall_mem_singleton.2 hapart,
    hapart, hnone⟩

/-- A staged output that is committed reaches its target as a whole, or it is given up, because it
cannot be written or moved or its device fails. -/
theorem goes_commit {printer : Printer} (h : Prepared target t w.files)
    (hopen : printer.failure = none) : ∃ s r w',
    Goes (commit ⟨target, target.staging, printer⟩) w s r w' ∧
      ((∃ e, r = .error e ∧ e.stage = .write ∧
        ((∃ step ∈ s, step.Failed) ∧
          (∀ files, w.files.write target.staging printer.sink.data.toList = .ok files →
            ∃ cause, files.rename target.staging target = .error cause) ∨
          ∃ cause, e.deviceFailure? = some cause ∧ printer.sink.Fails cause) ∧
        Withdrawn target t s w') ∨
      ∃ before files, r = .ok ⟨target, printer.written⟩ ∧
        s = before ++ [⟨.rename target.staging target, .ok (), w'⟩] ∧
        (∀ step ∈ before, Apart target t step.after.files) ∧
        w.files.write target.staging printer.sink.data.toList = .ok files ∧
        files.rename target.staging target = .ok w'.files) := by
  unfold commit
  dsimp only
  rcases Printer.Call.flush.run_cases hopen with ⟨p, hflush, htook, hwritten⟩ |
    ⟨p, e, taken, hflush, htook, -, -⟩
  · have hflush : printer.flush = (.ok (), p) := hflush
    have hdata : p.sink.data.toList = printer.sink.data.toList :=
      htook.data.trans (List.append_nil _)
    rw [hflush, ← hdata]
    dsimp only
    rcases w.write_cases target.staging p.sink.data.toList with ⟨files, hwrite, hanswer⟩ |
      ⟨cause, hwrite, hanswer⟩
    · have hsave : Goes (ExceptT.lift (save ⟨target, target.staging, p⟩)) w
          [⟨.write target.staging p.sink.data.toList, .ok (), { w with files }⟩] (.ok (.ok ()))
          { w with files } := .request hanswer
      have hprepared : Prepared target t files := (prepared_of_write hwrite).1.of_apart h.apart
      rcases World.rename_cases { w with files } target.staging target with
        ⟨files', hrename, hanswer'⟩ | ⟨cause, hrename, hanswer'⟩
      · have hbytes : p.written = printer.written := hwritten
        rw [hbytes]
        exact ⟨_, _, _, hsave.bind ((Goes.request hanswer').bind (.pure _ _)),
          .inr ⟨_, files, rfl, rfl, List.forall_mem_singleton.2 hprepared.apart, hwrite, hrename⟩⟩
      · obtain ⟨s, w', hgoes, hwithdrawn⟩ := goes_fail (α := Written) (w := { w with files })
          hprepared printer (.unwritableFile target cause)
        refine ⟨_, _, _, hsave.bind ((Goes.request hanswer').bind hgoes), .inl ⟨_, rfl, rfl,
          .inl ⟨⟨_, List.mem_cons_of_mem _ List.mem_cons_self, rfl⟩, ?_⟩,
          .after ?_ (.after ?_ hwithdrawn)⟩⟩
        · intro files' hwrite'
          obtain rfl := Except.ok.inj (hwrite.symm.trans hwrite')
          exact ⟨cause, hrename⟩
        · exact List.forall_mem_singleton.2 hprepared.apart
        · exact List.forall_mem_singleton.2 hprepared.apart
    · have hsave : Goes (ExceptT.lift (save ⟨target, target.staging, p⟩)) w
          [⟨.write target.staging p.sink.data.toList, .error cause, w⟩] (.ok (.error cause)) w :=
        .request hanswer
      obtain ⟨s, w', hgoes, hwithdrawn⟩ := goes_fail (α := Written) h printer
        (.incompleteFile target (.sink ⟨.other, cause.message⟩))
      refine ⟨_, _, _, hsave.bind hgoes, .inl ⟨_, rfl, rfl,
        .inl ⟨⟨_, List.mem_cons_self, rfl⟩, fun files hwrite' => ?_⟩,
        .after (List.forall_mem_singleton.2 h.apart) hwithdrawn⟩⟩
      cases hwrite.symm.trans hwrite'
  · have hflush : printer.flush = (.error e, p) := hflush
    obtain ⟨s, w', hgoes, hwithdrawn⟩ :=
      goes_fail (α := Written) h printer (.incompleteFile target (.sink e))
    rw [hflush]
    exact ⟨s, _, w', hgoes, .inl ⟨_, rfl, rfl, .inr ⟨e, rfl, htook.fails⟩, hwithdrawn⟩⟩

end

end Staged

end Packwright
