import Packwright.Proofs.Printing
import Packwright.Script

/-
  Runs of scripts and actions, step by step. `Script.steps` lists the requests of a run with their
  answers and the worlds after them, and `Goes` ties the steps of an action to its outcome. There
  is one rule for each way to build an action, so a run is put together from those of its parts.

  Two kinds of runs leave the files alone: those that only read and tell something (`Idles`), and
  those that print as well (`Shows`). `Raises` says which errors an action may end with, whatever
  the world is.
-/

namespace Packwright

/-- A request of a run, the answer to it and the world after it. -/
structure Step where
  request : Request
  reply : request.Reply
  after : World

/-- Whether an answer reports a failure. -/
def Request.refused : (r : Request) → r.Reply → Bool
  | .read _, reply => !Except.isOk reply
  | .write _ _, reply => !Except.isOk reply
  | .create _, reply => !Except.isOk reply
  | .makeDirectories _, reply => !Except.isOk reply
  | .rename _ _, reply => !Except.isOk reply
  | .remove _, reply => !Except.isOk reply
  | .present _, _ | .print _, _ | .tell _, _ | .freshId, _ => false

/-- A step whose operation failed. -/
def Step.Failed (s : Step) : Prop := s.request.refused s.reply = true

/-- A step that created a file. -/
def Step.Creates (s : Step) (p : Path) : Prop := s.request = .create p ∧ ¬ s.Failed

/-- A step that changed no file and created none. -/
structure Step.Idle (t : FileTree) (s : Step) : Prop where
  files : s.after.files = t
  creates : ∀ p, ¬ s.Creates p

/-- A run that changed nothing but what the person at the terminal was told. -/
structure Idles (w : World) (s : List Step) (w' : World) : Prop where
  steps : ∀ step ∈ s, step.Idle w.files
  told : ∃ told, w' = { w with told }

theorem Idles.append {w w₁ w' : World} {s₁ s₂ : List Step} (h : Idles w s₁ w₁)
    (h' : Idles w₁ s₂ w') : Idles w (s₁ ++ s₂) w' := by
  obtain ⟨hsteps, told, rfl⟩ := h
  obtain ⟨hsteps', told', rfl⟩ := h'
  exact ⟨List.forall_mem_append.2 ⟨hsteps, hsteps'⟩, told', rfl⟩

/-- A run that changed no file and printed a text. -/
structure Shows (w : World) (s : List Step) (w' : World) (text : String) : Prop where
  steps : ∀ step ∈ s, step.after.files = w.files
  files : w'.files = w.files
  printed : w'.printed = w.printed ++ text

theorem Shows.append {w w₁ w' : World} {s₁ s₂ : List Step} {a b : String} (h : Shows w s₁ w₁ a)
    (h' : Shows w₁ s₂ w' b) : Shows w (s₁ ++ s₂) w' (a ++ b) where
  steps := List.forall_mem_append.2 ⟨h.steps, fun step hstep => (h'.steps step hstep).trans h.files⟩
  files := h'.files.trans h.files
  printed := by rw [h'.printed, h.printed, String.append_assoc]

theorem Shows.nil (w : World) : Shows w [] w "" :=
  ⟨List.forall_mem_nil _, rfl, String.append_empty.symm⟩

theorem Idles.shows {w w' : World} {s : List Step} (h : Idles w s w') : Shows w s w' "" := by
  obtain ⟨hsteps, told, rfl⟩ := h
  exact ⟨fun step hstep => (hsteps step hstep).files, rfl, String.append_empty.symm⟩

/-- The answer to a request as a step. -/
def World.step (w : World) (r : Request) : Step := ⟨r, (w.answer r).1, (w.answer r).2⟩

theorem World.step_eq {w w' : World} {r : Request} {reply : r.Reply}
    (h : w.answer r = (reply, w')) : w.step r = ⟨r, reply, w'⟩ := by
  rw [World.step, h]

namespace Script

variable {α β : Type}

/-- The steps that a script takes in a world. -/
def steps : Script α → World → List Step
  | done _, _ => []
  | ask r next, w => w.step r :: (next (w.answer r).1).steps (w.answer r).2

theorem steps_bind (s : Script α) (f : α → Script β) (w : World) :
    (s >>= f).steps w = s.steps w ++ (f (s.run w).1).steps (s.run w).2 := by
  induction s generalizing w with
  | done a => rfl
  | ask r next ih => exact congrArg (w.step r :: ·) (ih (w.answer r).1 (w.answer r).2)

end Script

namespace Action

variable {α β : Type}

/-- What an action does in a world: the steps it takes, its outcome, and the world in the end. -/
structure Goes (a : Action α) (w : World) (steps : List Step) (r : Except RunError α)
    (w' : World) : Prop where
  steps_eq : a.run.steps w = steps
  run_eq : a.run.run w = (r, w')

variable {w w₁ w' : World} {s s₁ s₂ : List Step}

theorem goes (a : Action α) (w : World) :
    Goes a w (a.run.steps w) (a.run.run w).1 (a.run.run w).2 := ⟨rfl, rfl⟩

namespace Goes

theorem unique {a : Action α} {r r' : Except RunError α} (h : Goes a w s r w')
    (h' : Goes a w s₁ r' w₁) : s = s₁ ∧ r = r' ∧ w' = w₁ := by
  obtain ⟨rfl, rfl⟩ := Prod.mk.inj (h.run_eq.symm.trans h'.run_eq)
  exact ⟨h.steps_eq.symm.trans h'.steps_eq, rfl, rfl⟩

theorem pure (a : α) (w : World) : Goes (pure a) w [] (.ok a) w := ⟨rfl, rfl⟩

theorem throw (e : RunError) (w : World) : Goes (throw e : Action α) w [] (.error e) w :=
  ⟨rfl, rfl⟩

/-- The second of two actions goes on where the first one ended. -/
theorem bind {a : Action α} {f : α → Action β} {x : α} {r : Except RunError β}
    (h : Goes a w s₁ (.ok x) w₁) (h' : Goes (f x) w₁ s₂ r w') :
    Goes (a >>= f) w (s₁ ++ s₂) r w' where
  steps_eq := by
    change (a.run >>= ExceptT.bindCont f).steps w = s₁ ++ s₂
    rw [Script.steps_bind, h.run_eq, h.steps_eq]
    exact congrArg (s₁ ++ ·) h'.steps_eq
  run_eq := by
    change (a.run >>= ExceptT.bindCont f).run w = (r, w')
    rw [Script.run_bind, h.run_eq]
    exact h'.run_eq

/-- If the first of two actions stops, the second is not reached. -/
theorem bind_error {a : Action α} {f : α → Action β} {e : RunError}
    (h : Goes a w s (.error e) w') : Goes (a >>= f) w s (.error e) w' where
  steps_eq := by
    change (a.run >>= ExceptT.bindCont f).steps w = s
    rw [Script.steps_bind, h.run_eq, h.steps_eq]
    exact List.append_nil s
  run_eq := by
    change (a.run >>= ExceptT.bindCont f).run w = (.error e, w')
    rw [Script.run_bind, h.run_eq]
    rfl

theorem lift (x : Script α) (w : World) :
    Goes (ExceptT.lift x : Action α) w (x.steps w) (.ok (x.run w).1) (x.run w).2 where
  steps_eq := by
    change (x >>= fun a => Script.done (Except.ok a)).steps w = _
    rw [Script.steps_bind]
    exact List.append_nil _
  run_eq := by
    change (x >>= fun a => Script.done (Except.ok a)).run w = _
    rw [Script.run_bind]
    rfl

theorem request {q : Request} {reply : q.Reply} (h : w.answer q = (reply, w')) :
    Goes (request q) w [⟨q, reply, w'⟩] (.ok reply) w' := by
  have hlift := lift (.request q) w
  have hrun : (Script.request q).run w = (reply, w') := h
  have hsteps : (Script.request q).steps w = [⟨q, reply, w'⟩] :=
    congrArg ([·]) (World.step_eq h)
  rw [hrun, hsteps] at hlift
  exact hlift

theorem attempt_ok {x : Script (Except OsError α)} (e : OsError → RunError) {a : α}
    (h : x.run w = (.ok a, w')) : Goes (attempt x e) w (x.steps w) (.ok a) w' := by
  have hlift := lift x w
  rw [h] at hlift
  rw [← List.append_nil (x.steps w)]
  exact bind hlift (pure a w')

theorem attempt_error {x : Script (Except OsError α)} (e : OsError → RunError) {cause : OsError}
    (h : x.run w = (.error cause, w')) :
    Goes (attempt x e) w (x.steps w) (.error (e cause)) w' := by
  have hlift := lift x w
  rw [h] at hlift
  rw [← List.append_nil (x.steps w)]
  exact bind hlift (throw (e cause) w')

end Goes

/-- The errors that an action may stop with. -/
def Raises (a : Action α) (P : RunError → Prop) : Prop :=
  ∀ w s e w', Goes a w s (.error e) w' → P e

namespace Raises

variable {P : RunError → Prop}

theorem pure (a : α) : Raises (pure a) P :=
  fun w _ _ _ h => nomatch ((Goes.pure a w).unique h).2.1

theorem request (q : Request) : Raises (request q) P := by
  intro w s e w' h
  have hgoes : Goes (Action.request q) w _ (.ok (w.answer q).1) (w.answer q).2 := .request rfl
  cases (hgoes.unique h).2.1

theorem throw {e : RunError} (he : P e) : Raises (throw e : Action α) P := by
  intro w s e' w' h
  obtain rfl := Except.error.inj ((Goes.throw e w).unique h).2.1
  exact he

theorem bind {a : Action α} {f : α → Action β} (ha : Raises a P) (hf : ∀ x, Raises (f x) P) :
    Raises (a >>= f) P := by
  intro w s e w' h
  obtain ⟨s₁, r, w₁, hgoes⟩ : ∃ s₁ r w₁, Goes a w s₁ r w₁ := ⟨_, _, _, goes a w⟩
  cases r with
  | error e' =>
    obtain rfl := Except.error.inj (hgoes.bind_error.unique h).2.1
    exact ha _ _ _ _ hgoes
  | ok x =>
    have hrest := goes (f x) w₁
    have heq := ((hgoes.bind hrest).unique h).2.1
    rw [heq] at hrest
    exact hf x _ _ _ _ hrest

theorem attempt {x : Script (Except OsError α)} {e : OsError → RunError}
    (he : ∀ cause, P (e cause)) : Raises (attempt x e) P := by
  intro w s e' w' h
  cases hrun : x.run w with
  | mk reply w₁ =>
    cases reply with
    | ok a => cases ((Goes.attempt_ok e hrun).unique h).2.1
    | error cause =>
      obtain rfl := Except.error.inj ((Goes.attempt_error e hrun).unique h).2.1
      exact he cause

end Raises

/-! ## Requests for texts -/

theorem goes_tell (text : String) (w : World) : ∃ s w', Goes (tell text) w s (.ok ()) w' ∧
    Idles w s w' :=
  ⟨_, { w with told := w.told ++ text }, .request rfl,
    List.forall_mem_singleton.2 ⟨rfl, fun _ h => nomatch h.1⟩, _, rfl⟩

/-- A loop goes on with every element of its list. -/
theorem goes_forIn {f : α → Action Unit}
    (hf : ∀ a w, ∃ s w', Goes (f a) w s (.ok ()) w' ∧ Idles w s w') (l : List α) (w : World) :
    ∃ s w', Goes (forIn l PUnit.unit fun a _ => do
        f a
        Pure.pure (ForInStep.yield PUnit.unit)) w s (.ok PUnit.unit) w' ∧ Idles w s w' := by
  induction l generalizing w with
  | nil => exact ⟨[], w, .pure _ w, List.forall_mem_nil _, w.told, rfl⟩
  | cons a l ih =>
    obtain ⟨s₁, w₁, hfirst, hidles⟩ := hf a w
    obtain ⟨s₂, w₂, hrest, hidles'⟩ := ih w₁
    refine ⟨(s₁ ++ []) ++ s₂, w₂, ?_, ?_⟩
    · have hstep : Goes (do
          f a
          Pure.pure (ForInStep.yield PUnit.unit)) w (s₁ ++ []) (.ok (.yield PUnit.unit)) w₁ :=
        hfirst.bind (.pure _ w₁)
      rw [List.forIn_cons]
      exact hstep.bind hrest
    · rw [List.append_nil]
      exact hidles.append hidles'

theorem goes_print (text : String) (w : World) : ∃ s w', Goes (print text) w s (.ok ()) w' ∧
    Shows w s w' text :=
  ⟨_, { w with printed := w.printed ++ text }, .request rfl, List.forall_mem_singleton.2 rfl, rfl,
    rfl⟩

/-! ## Requests for files -/

section

variable (w : World) (p : Path)

theorem goes_attempt_makeDirectories (e : OsError → RunError) {reply : Except OsError Unit}
    {files : FileTree} (h : w.files.makeDirectories p = (reply, files)) :
    Goes (attempt (.request (.makeDirectories p)) e) w
      [⟨.makeDirectories p, reply, { w with files }⟩] (reply.mapError e) { w with files } := by
  have hanswer : w.answer (.makeDirectories p) = (reply, { w with files }) := by
    unfold World.answer
    dsimp only
    rw [h]
  rw [← World.step_eq hanswer]
  cases reply with
  | ok u => exact .attempt_ok e hanswer
  | error cause => exact .attempt_error e hanswer

theorem goes_attempt_create (e : OsError → RunError) {files : FileTree}
    (h : w.files.write p [] = .ok files) :
    Goes (attempt (.request (.create p)) e) w
      [⟨.create p, .ok { w.device with data := #[] }, { w with files }⟩]
      (.ok { w.device with data := #[] }) { w with files } := by
  have hanswer : w.answer (.create p) =
      (.ok { w.device with data := #[] }, { w with files }) := by
    unfold World.answer
    dsimp only
    rw [h]
  rw [← World.step_eq hanswer]
  exact .attempt_ok e hanswer

theorem goes_attempt_create_error (e : OsError → RunError) {cause : OsError}
    (h : w.files.write p [] = .error cause) :
    Goes (attempt (.request (.create p)) e) w [⟨.create p, .error cause, w⟩]
      (.error (e cause)) w := by
  have hanswer : w.answer (.create p) = (.error cause, w) := by
    unfold World.answer
    dsimp only
    rw [h]
  rw [← World.step_eq hanswer]
  exact .attempt_error e hanswer

/-- A file is read once, and its text is what the bytes in it encode. -/
theorem goes_attempt_readText (e : OsError → RunError) : ∃ s r,
    Goes (attempt (.readText p) e) w s r w ∧ Idles w s w ∧
      ((∃ cause, r = .error (e cause) ∧ ∀ text, w.files.read p ≠ .ok (utf8 text)) ∨
      ∃ text, r = .ok text ∧ w.files.read p = .ok (utf8 text)) := by
  obtain ⟨result, hrun, hsteps, hresult⟩ : ∃ result, (Script.readText p).run w = (result, w) ∧
      (Script.readText p).steps w = [⟨.read p, w.files.read p, w⟩] ∧
      ((∃ cause, result = .error cause ∧ ∀ text, w.files.read p ≠ .ok (utf8 text)) ∨
      ∃ text, result = .ok text ∧ w.files.read p = .ok (utf8 text)) := by
    have hread : (Script.request (.read p)).run w = (w.files.read p, w) := rfl
    have hstep : (Script.request (.read p)).steps w = [⟨.read p, w.files.read p, w⟩] := rfl
    unfold Script.readText
    rw [Script.run_bind, Script.steps_bind, hread, hstep]
    generalize w.files.read p = reply
    cases reply with
    | error cause => exact ⟨_, rfl, rfl, .inl ⟨cause, rfl, nofun⟩⟩
    | ok content =>
      dsimp only
      cases htext : Lossy.undamaged? content with
      | some text =>
        exact ⟨_, rfl, rfl, .inr ⟨text, rfl, congrArg _ (Lossy.undamaged?_eq_some_iff.1 htext)⟩⟩
      | none =>
        refine ⟨_, rfl, rfl, .inl ⟨_, rfl, fun text hcontent => ?_⟩⟩
        rw [Lossy.undamaged?_eq_some_iff.2 (Except.ok.inj hcontent)] at htext
        cases htext
  have hidles : Idles w [⟨.read p, w.files.read p, w⟩] w :=
    ⟨List.forall_mem_singleton.2 ⟨rfl, fun _ h => nomatch h.1⟩, w.told, rfl⟩
  rw [← hsteps] at hidles
  rcases hresult with ⟨cause, rfl, hunread⟩ | ⟨text, rfl, hread⟩
  · exact ⟨_, _, .attempt_error e hrun, hidles, .inl ⟨cause, rfl, hunread⟩⟩
  · exact ⟨_, _, .attempt_ok e hrun, hidles, .inr ⟨text, rfl, hread⟩⟩

end

end Action

end Packwright
