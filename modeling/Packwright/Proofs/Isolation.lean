import Packwright.Proofs.Generators
import Packwright.Proofs.Printing

/-
  A batch decomposes by identity. The same generators render all identities, and one that fails is
  left in the middle of its work; still every identity gets what freshly made generators give for
  it alone (`renderAll_eq_fresh`).

  `generateFile_decomposes`: the file is its head and then the blocks of the identities that every
  method renders, in the order of the table. `Becomes` says what becomes of an identity: it is
  generated with one block for each method, or it fails with the error of the first method that
  fails and contributes nothing, or there is nothing to generate.
-/

namespace Packwright

namespace CodeGenerator

/-- Generators that serve methods with the same settings, whatever they rendered before. -/
def Serve (c : Config) (methods : List Method) (gens : List CodeGenerator) : Prop :=
  gens.map (fun g => (g.method, g.config)) = methods.map fun m => (m, c)

theorem serve_generator (c : Config) (methods : List Method) :
    Serve c methods (methods.map (Method.generator c)) := by
  rw [Serve, List.map_map]
  refine List.map_congr_left fun m _ => ?_
  cases m <;> rfl

theorem Serve.cons {c : Config} {m : Method} {methods : List Method} {g : CodeGenerator}
    {gens : List CodeGenerator} (hm : g.method = m) (hc : g.config = c)
    (h : Serve c methods gens) : Serve c (m :: methods) (g :: gens) := by
  rw [Serve, List.map_cons, List.map_cons, hm, hc, h]

theorem Serve.cases {c : Config} {methods : List Method} {g : CodeGenerator}
    {gens : List CodeGenerator} (h : Serve c methods (g :: gens)) :
    ∃ rest, methods = g.method :: rest ∧ g.config = c ∧ Serve c rest gens := by
  cases methods with
  | nil => cases h
  | cons m rest =>
    obtain ⟨hhead, hrest⟩ := List.cons.inj h
    obtain ⟨hm, hc⟩ := Prod.mk.inj hhead
    exact ⟨rest, by rw [hm], hc, hrest⟩

/-- What generators give for an identity: the blocks of the methods up to the first that fails. -/
def blocksOf (c : Config) (name : String) (s : Shape) : List Method → Except Fault (List String)
  | [] => .ok []
  | m :: rest => do
    let block ← m.render c name s
    return block.toList ++ (← blocksOf c name s rest)

/-- Generators in any state render an identity by their methods and settings alone, and still
serve them after it. -/
theorem renderAll_eq {c : Config} {methods : List Method} {gens : List CodeGenerator}
    (h : Serve c methods gens) (name : String) (s : Shape) :
    ∃ gens', renderAll name s gens = (blocksOf c name s methods, gens') ∧
      Serve c methods gens' := by
  induction gens generalizing methods with
  | nil =>
    obtain rfl : methods = [] := by
      cases methods with
      | nil => rfl
      | cons m rest => cases h
    exact ⟨[], rfl, h⟩
  | cons g gens ih =>
    obtain ⟨rest, rfl, hc, hrest⟩ := h.cases
    obtain ⟨g', hrender, hm', hc'⟩ := render_eq g name s
    rw [hc] at hrender hc'
    cases hblock : g.method.render c name s with
    | error fault =>
      refine ⟨g' :: gens, ?_, .cons hm' hc' hrest⟩
      simp only [renderAll, hrender, blocksOf, hblock]
      rfl
    | ok block =>
      obtain ⟨gens', hgens, hserve⟩ := ih hrest
      refine ⟨g' :: gens', ?_, .cons hm' hc' hserve⟩
      simp only [renderAll, hrender, blocksOf, hblock, hgens]
      cases blocksOf c name s rest <;> rfl

/-- Generators that were used before give what freshly made ones give. -/
theorem renderAll_eq_fresh {c : Config} {methods : List Method} {gens : List CodeGenerator}
    (h : Serve c methods gens) (name : String) (s : Shape) :
    (renderAll name s gens).1 = (renderAll name s (methods.map (Method.generator c))).1 := by
  obtain ⟨_, hgens, -⟩ := renderAll_eq h name s
  obtain ⟨_, hfresh, -⟩ := renderAll_eq (serve_generator c methods) name s
  rw [hgens, hfresh]

end CodeGenerator

namespace Batch

open CodeGenerator (Serve blocksOf renderAll)

/-- What a freshly made generator of a method gives for an identity alone. -/
def alone (c : Config) (entry : String × Shape) (m : Method) : Except Fault (Option String) :=
  ((m.generator c).render entry.1 entry.2).1

/-- The blocks that freshly made generators give for an identity alone. -/
def blocksAlone (c : Config) (methods : List Method) (entry : String × Shape) :
    Except Fault (List String) :=
  (renderAll entry.1 entry.2 (methods.map (Method.generator c))).1

/-- What becomes of an identity. -/
inductive Fate where
  | nothing
  | generated (blocks : List String)
  | failed (cause : Error)

/-- What becomes of an identity, by what freshly made generators give for it alone. -/
inductive Becomes (c : Config) (methods : List Method) (entry : String × Shape) : Fate → Prop where
  /-- No code is generated for it, or none is asked for. -/
  | nothing (idle : entry.2.isPrintable = false ∨ methods = []) : Becomes c methods entry .nothing
  /-- Every method renders it: one block for each method, in their order. -/
  | generated {blocks : List String} (printable : entry.2.isPrintable = true)
      (asked : methods ≠ [])
      (rendered : methods.map (alone c entry) = blocks.map fun block => .ok (some block)) :
      Becomes c methods entry (.generated blocks)
  /-- A method fails, and those before it do not. -/
  | failed {before after : List Method} {m : Method} {cause : Error}
      (printable : entry.2.isPrintable = true) (asked : methods = before ++ m :: after)
      (fine : ∀ m' ∈ before, ∃ block, alone c entry m' = .ok (some block))
      (first : alone c entry m = .error (.error cause)) : Becomes c methods entry (.failed cause)

theorem alone_eq (c : Config) (entry : String × Shape) (m : Method) :
    alone c entry m = m.render c entry.1 entry.2 := by
  obtain ⟨_, hrender, -⟩ := CodeGenerator.render_eq (m.generator c) entry.1 entry.2
  rw [alone, hrender]
  cases m <;> rfl

theorem blocksAlone_eq (c : Config) (methods : List Method) (entry : String × Shape) :
    blocksAlone c methods entry = blocksOf c entry.1 entry.2 methods := by
  obtain ⟨_, hrender, -⟩ :=
    CodeGenerator.renderAll_eq (CodeGenerator.serve_generator c methods) entry.1 entry.2
  rw [blocksAlone, hrender]

theorem render_unprintable {s : Shape} (hs : s.isPrintable = false) (m : Method) (c : Config)
    (name : String) : m.render c name s = .ok none := by
  cases m with
  | marshal => simp only [Method.render, Marshal.render, hs]; rfl
  | msgsize => simp only [Method.render, Msgsize.render, hs]; rfl

theorem render_printable {s : Shape} (hs : s.isPrintable = true) {m : Method} {c : Config}
    {name : String} {r : Option String} (h : m.render c name s = .ok r) :
    ∃ block, r = some block := by
  cases m with
  | marshal =>
    simp only [Method.render, Marshal.render, hs] at h
    obtain ⟨code, -, h⟩ := bind_eq_ok h
    obtain ⟨side, -, h⟩ := bind_eq_ok h
    exact ⟨_, (Except.ok.inj h).symm⟩
  | msgsize =>
    simp only [Method.render, Msgsize.render, hs] at h
    obtain ⟨code, -, h⟩ := bind_eq_ok h
    exact ⟨_, (Except.ok.inj h).symm⟩

theorem blocksOf_unprintable {s : Shape} (hs : s.isPrintable = false) (c : Config) (name : String)
    (methods : List Method) : blocksOf c name s methods = .ok [] := by
  induction methods with
  | nil => rfl
  | cons m rest ih => rw [blocksOf, render_unprintable hs, ok_bind, ih]; rfl

/-- An identity that code is generated for gets a block from each method, or the fault of the
first that fails. -/
theorem blocksOf_printable {s : Shape} (hs : s.isPrintable = true) (c : Config) (name : String)
    (methods : List Method) :
    (∃ blocks, blocksOf c name s methods = .ok blocks ∧
      methods.map (fun m => m.render c name s) = blocks.map fun block => .ok (some block)) ∨
    ∃ before m after fault, methods = before ++ m :: after ∧
      (∀ m' ∈ before, ∃ block, m'.render c name s = .ok (some block)) ∧
      m.render c name s = .error fault ∧ blocksOf c name s methods = .error fault := by
  induction methods with
  | nil => exact Or.inl ⟨[], rfl, rfl⟩
  | cons m rest ih =>
    cases hrender : m.render c name s with
    | error fault =>
      refine Or.inr ⟨[], m, rest, fault, rfl, by simp, hrender, ?_⟩
      rw [blocksOf, hrender]
      rfl
    | ok r =>
      obtain ⟨block, rfl⟩ := render_printable hs hrender
      rcases ih with ⟨blocks, hblocks, hall⟩ | ⟨before, m', after, fault, hsplit, hfine, hm', hrest⟩
      · refine Or.inl ⟨block :: blocks, ?_, ?_⟩
        · rw [blocksOf, hrender, ok_bind, hblocks]
          rfl
        · rw [List.map_cons, List.map_cons, hall, hrender]
      · refine Or.inr ⟨m :: before, m', after, fault, by rw [hsplit, List.cons_append], ?_, hm', ?_⟩
        · exact List.forall_mem_cons.2 ⟨⟨block, hrender⟩, hfine⟩
        · rw [blocksOf, hrender, ok_bind, hrest]
          rfl

/-- The blocks of an identity that is generated. -/
def Fate.blocks : Fate → List String
  | generated blocks => blocks
  | _ => []

/-- How generators tell a batch what becomes of an identity. -/
inductive Told : Except Fault (List String) → Fate → Prop where
  | nothing : Told (.ok []) .nothing
  | generated {block : String} {blocks : List String} :
      Told (.ok (block :: blocks)) (.generated (block :: blocks))
  | failed (cause : Error) : Told (.error (.error cause)) (.failed cause)

/-- Every identity has a fate, unless a count overflows. -/
theorem exists_becomes {c : Config} {methods : List Method} {entry : String × Shape}
    (h : blocksAlone c methods entry ≠ .error .overflow) :
    ∃ fate, Becomes c methods entry fate ∧
      Told (blocksOf c entry.1 entry.2 methods) fate := by
  rw [blocksAlone_eq] at h
  cases hs : entry.2.isPrintable with
  | false =>
    rw [blocksOf_unprintable hs]
    exact ⟨.nothing, .nothing (.inl hs), .nothing⟩
  | true =>
    have halone : alone c entry = fun m => m.render c entry.1 entry.2 :=
      funext (alone_eq c entry)
    obtain ⟨blocks, hblocks, hall⟩ | ⟨before, m, after, fault, hsplit, hfine, hm, hblocks⟩ :=
      blocksOf_printable hs c entry.1 methods
    · rw [hblocks]
      cases blocks with
      | nil =>
        refine ⟨.nothing, .nothing (.inr ?_), .nothing⟩
        exact List.map_eq_nil_iff.1 hall
      | cons block rest =>
        refine ⟨.generated (block :: rest), .generated hs ?_ (by rw [halone, hall]), .generated⟩
        rintro rfl
        cases hall
    · rw [hblocks] at h ⊢
      cases fault with
      | error cause =>
        refine ⟨.failed cause, .failed hs hsplit ?_ ?_, .failed cause⟩
        · rw [halone]
          exact hfine
        · rw [halone]
          exact hm
      | overflow => exact absurd rfl h
      | tooDeep => exact absurd hm (Method.render_ne_tooDeep m c entry.1 entry.2)

theorem blocksOf_of_rendered {c : Config} {name : String} {s : Shape} {methods : List Method}
    {blocks : List String}
    (h : methods.map (fun m => m.render c name s) = blocks.map fun block => .ok (some block)) :
    blocksOf c name s methods = .ok blocks := by
  induction methods generalizing blocks with
  | nil =>
    obtain rfl := List.map_eq_nil_iff.1 h.symm
    rfl
  | cons m rest ih =>
    cases blocks with
    | nil => cases h
    | cons block blocks =>
      simp only [List.map_cons, List.cons.injEq] at h
      rw [blocksOf, h.1, ok_bind, ih h.2]
      rfl

theorem blocksOf_of_first {c : Config} {name : String} {s : Shape} {before after : List Method}
    {m : Method} {fault : Fault} (hm : m.render c name s = .error fault)
    (hfine : ∀ m' ∈ before, ∃ block, m'.render c name s = .ok (some block)) :
    blocksOf c name s (before ++ m :: after) = .error fault := by
  induction before with
  | nil => rw [List.nil_append, blocksOf, hm]; rfl
  | cons m' rest ih =>
    obtain ⟨⟨block, hblock⟩, hrest⟩ := List.forall_mem_cons.1 hfine
    rw [List.cons_append, blocksOf, hblock, ok_bind, ih hrest]
    rfl

/-- What becomes of an identity is what its generators tell, so it has one fate only. -/
theorem Becomes.told {c : Config} {methods : List Method} {entry : String × Shape} {fate : Fate}
    (h : Becomes c methods entry fate) : Told (blocksAlone c methods entry) fate := by
  have halone : alone c entry = fun m => m.render c entry.1 entry.2 := funext (alone_eq c entry)
  rw [blocksAlone_eq]
  cases h with
  | nothing idle =>
    rcases idle with hs | rfl
    · rw [blocksOf_unprintable hs]
      exact .nothing
    · exact .nothing
  | @generated blocks hs asked rendered =>
    rw [halone] at rendered
    rw [blocksOf_of_rendered rendered]
    cases blocks with
    | nil => exact absurd (List.map_eq_nil_iff.1 rendered) asked
    | cons block rest => exact .generated
  | failed hs asked fine first =>
    rw [halone] at fine first
    rw [asked, blocksOf_of_first first fine]
    exact .failed _

/-! ## The file and the report -/

/-- An identity that is entered into a report. -/
def enter (report : Report) (name : String) : Fate → Report
  | .nothing => report
  | .generated _ => { report with generated := report.generated ++ [name] }
  | .failed cause => { report with failures := report.failures ++ [⟨name, cause⟩] }

/-- The name of an identity that is generated. -/
def generated? (x : (String × Shape) × Fate) : Option String :=
  match x.2 with
  | .generated _ => some x.1.1
  | _ => none

/-- The entry of an identity that failed. -/
def failure? (x : (String × Shape) × Fate) : Option Failure :=
  match x.2 with
  | .failed cause => some ⟨x.1.1, cause⟩
  | _ => none

/-- The report on identities and what became of them. -/
def reportOf (outcomes : List ((String × Shape) × Fate)) : Report where
  generated := outcomes.filterMap generated?
  failures := outcomes.filterMap failure?

/-- The text of blocks, each on a new line. -/
def blocksText (blocks : List String) : String := String.join (blocks.map ("\n" ++ ·))

/-- The line that brings the runtime into scope, if one is needed. -/
def importPart (c : Config) : String :=
  if c.runtimeImport ≠ "" then c.runtimeImport ++ "\n" else ""

/-- The file of identities and what became of them. -/
def fileText (c : Config) (outcomes : List ((String × Shape) × Fate)) : String :=
  fileHeader ++ "\n\n" ++ importPart c ++ blocksText (outcomes.flatMap fun x => x.2.blocks)

theorem blocksText_append (a b : List String) :
    blocksText (a ++ b) = blocksText a ++ blocksText b := by
  rw [blocksText, List.map_append, String.join_append, blocksText, blocksText]

theorem prints_blocks (blocks : List String) :
    Prints (printBlocks blocks) () (blocksText blocks) := by
  induction blocks with
  | nil => exact .pure ()
  | cons block rest ih =>
    have hblock : Prints (do print "\n"; print block) () ("\n" ++ block) :=
      (Prints.print "\n").bind (Prints.print block)
    rw [blocksText, List.map_cons, String.join_cons]
    exact hblock.bind ih

theorem prints_identity {c : Config} {methods : List Method} {gens : List CodeGenerator}
    {entry : String × Shape} {fate : Fate} (hserve : Serve c methods gens)
    (htold : Told (blocksOf c entry.1 entry.2 methods) fate) (report : Report) :
    ∃ gens', Serve c methods gens' ∧ Prints (identity ⟨gens, report⟩ entry)
      ⟨gens', enter report entry.1 fate⟩ (blocksText fate.blocks) := by
  obtain ⟨gens', hrender, hgens⟩ := CodeGenerator.renderAll_eq hserve entry.1 entry.2
  refine ⟨gens', hgens, Prints.ok.after ?_⟩
  rw [hrender]
  generalize blocksOf c entry.1 entry.2 methods = told at htold
  cases htold with
  | nothing => exact .pure _
  | generated =>
    exact (prints_blocks _).before (.pure _)
  | failed cause => exact .pure _

/-- The report of a batch that goes on from an earlier one. -/
def Report.append (r r' : Report) : Report :=
  ⟨r.generated ++ r'.generated, r.failures ++ r'.failures⟩

theorem enter_append_reportOf (report : Report) (entry : String × Shape) (fate : Fate)
    (outcomes : List ((String × Shape) × Fate)) :
    Report.append (enter report entry.1 fate) (reportOf outcomes) =
      Report.append report (reportOf ((entry, fate) :: outcomes)) := by
  cases fate <;> simp [Report.append, enter, reportOf, generated?, failure?, List.filterMap_cons]

/-- All identities of a batch, by induction on those that are left. The invariant is that the
generators still serve the methods with the settings of the batch. -/
theorem prints_identities {c : Config} {methods : List Method} {entries : List (String × Shape)}
    (hfit : ∀ entry ∈ entries, blocksAlone c methods entry ≠ .error .overflow)
    {gens : List CodeGenerator} (hserve : Serve c methods gens) (report : Report) :
    ∃ outcomes gens', outcomes.map Prod.fst = entries ∧
      (∀ x ∈ outcomes, Becomes c methods x.1 x.2) ∧
      Prints (entries.foldlM identity ⟨gens, report⟩)
        ⟨gens', Report.append report (reportOf outcomes)⟩
        (blocksText (outcomes.flatMap fun x => x.2.blocks)) := by
  induction entries generalizing gens report with
  | nil =>
    refine ⟨[], gens, rfl, by simp, ?_⟩
    have hreport : Report.append report (reportOf []) = report := by
      simp [Report.append, reportOf]
    rw [hreport]
    exact .pure _
  | cons entry rest ih =>
    obtain ⟨fate, hfate, htold⟩ := exists_becomes (hfit entry List.mem_cons_self)
    obtain ⟨gens', hgens, hprints⟩ := prints_identity hserve htold report
    obtain ⟨outcomes, gens'', hentries, hall, hrest⟩ :=
      ih (fun e he => hfit e (List.mem_cons_of_mem _ he)) hgens (enter report entry.1 fate)
    refine ⟨(entry, fate) :: outcomes, gens'', by rw [List.map_cons, hentries],
      List.forall_mem_cons.2 ⟨hfate, hall⟩, ?_⟩
    rw [List.foldlM_cons, List.flatMap_cons, blocksText_append, ← enter_append_reportOf]
    exact hprints.bind hrest

theorem prints_import (c : Config) {x : Print Report} {report : Report} {text : String}
    (h : Prints x report text) :
    Prints (do
      if c.runtimeImport ≠ "" then
        print c.runtimeImport
        print "\n"
      x) report (importPart c ++ text) := by
  unfold importPart
  split
  · have hline : Prints (do print c.runtimeImport; print "\n") () (c.runtimeImport ++ "\n") :=
      (Prints.print c.runtimeImport).bind (Prints.print "\n")
    have hall := hline.bind (f := fun _ => x) h
    rwa [bind_assoc] at hall
  · rw [String.empty_append]
    exact h

/-- A batch on a device that takes everything prints the file and gives the report. -/
theorem prints_generate {t : Table} {c : Config} {methods : List Method}
    (hfit : ∀ entry ∈ t.entries, blocksAlone c methods entry ≠ .error .overflow) :
    ∃ outcomes, outcomes.map Prod.fst = t.entries ∧
      (∀ x ∈ outcomes, Becomes c methods x.1 x.2) ∧
      Prints (generate t c methods) (reportOf outcomes) (fileText c outcomes) := by
  obtain ⟨outcomes, gens, hentries, hall, hprints⟩ :=
    prints_identities hfit (CodeGenerator.serve_generator c methods) {}
  refine ⟨outcomes, hentries, hall, ?_⟩
  have hreport : Report.append {} (reportOf outcomes) = reportOf outcomes := rfl
  rw [hreport] at hprints
  have hrest : Prints (do
      let done ← t.entries.foldlM identity ⟨methods.map (Method.generator c), {}⟩
      Print.call Printer.flush
      return done.report) (reportOf outcomes)
      (blocksText (outcomes.flatMap fun x => x.2.blocks)) :=
    hprints.before (Prints.flush.before (.pure _))
  unfold generate
  rw [fileText, String.append_assoc, String.append_assoc]
  refine (Prints.print fileHeader).bind ?_
  refine (Prints.print "\n\n").bind ?_
  exact prints_import c hrest

/-- A list is two lists, interleaved. -/
inductive Interleaves {α : Type} : List α → List α → List α → Prop where
  | nil : Interleaves [] [] []
  | left {a : α} {whole l r : List α} (h : Interleaves whole l r) :
      Interleaves (a :: whole) (a :: l) r
  | right {a : α} {whole l r : List α} (h : Interleaves whole l r) :
      Interleaves (a :: whole) l (a :: r)

/-- If anything is asked for, every identity that code is generated for is generated or failed. -/
theorem interleaves_reportOf {c : Config} {methods : List Method}
    {outcomes : List ((String × Shape) × Fate)} (hmethods : methods ≠ [])
    (h : ∀ x ∈ outcomes, Becomes c methods x.1 x.2) :
    Interleaves (((outcomes.map Prod.fst).filter fun e => e.2.isPrintable).map Prod.fst)
      (reportOf outcomes).generated ((reportOf outcomes).failures.map Failure.name) := by
  induction outcomes with
  | nil => exact .nil
  | cons x rest ih =>
    obtain ⟨hx, hrest⟩ := List.forall_mem_cons.1 h
    obtain ⟨entry, fate⟩ := x
    have htail := ih hrest
    cases hx with
    | nothing idle =>
      have hs : entry.2.isPrintable = false := idle.resolve_right hmethods
      rw [List.map_cons, List.filter_cons_of_neg (by simp [hs])]
      exact htail
    | generated hs asked rendered =>
      rw [List.map_cons, List.filter_cons_of_pos (by simp [hs])]
      exact .left htail
    | failed hs asked fine first =>
      rw [List.map_cons, List.filter_cons_of_pos (by simp [hs])]
      exact .right htail

/-- The file of a batch is what it prints. -/
theorem generateFile_of_prints {t : Table} {c : Config} {methods : List Method} {report : Report}
    {text : String} (h : Prints (generate t c methods) report text) :
    generateFile t c methods = .ok (text, report) := by
  obtain ⟨p, hrun, -, hdata⟩ := h _ Printer.open_memory
  have hbytes : p.sink.data.toList = utf8 text := hdata
  rw [generateFile, EStateM.run, hrun]
  dsimp only
  rw [hbytes, Lossy.decode_utf8]

/-- A batch in which no count overflows succeeds. Its file is the head and then, in the order of
the table, the blocks of the identities that every method renders; each identity fares as freshly
made generators have it fare alone, and if anything is asked for, the identities that code is
generated for are those generated and those failed, in the order of the table. -/
theorem generateFile_decomposes (t : Table) (c : Config) (methods : List Method)
    (hfit : ∀ entry ∈ t.entries, blocksAlone c methods entry ≠ .error .overflow) :
    ∃ outcomes : List ((String × Shape) × Fate),
      outcomes.map Prod.fst = t.entries ∧
      (∀ x ∈ outcomes, Becomes c methods x.1 x.2) ∧
      generateFile t c methods = .ok (fileText c outcomes, reportOf outcomes) ∧
      (methods ≠ [] → Interleaves ((t.entries.filter fun e => e.2.isPrintable).map Prod.fst)
        (reportOf outcomes).generated ((reportOf outcomes).failures.map Failure.name)) := by
  obtain ⟨outcomes, hentries, hall, hprints⟩ := prints_generate hfit
  refine ⟨outcomes, hentries, hall, generateFile_of_prints hprints, fun hmethods => ?_⟩
  rw [← hentries]
  exact interleaves_reportOf hmethods hall

theorem Told.eq_of_eq {r r' : Except Fault (List String)} {fate fate' : Fate} (h : Told r fate)
    (hr : r = r') (h' : Told r' fate') : fate = fate' := by
  subst hr
  cases h with
  | nothing => cases h'; rfl
  | generated => cases h'; rfl
  | failed cause => cases h'; rfl

def shelf : String × Shape := ("Shelf", .struct { name := "Shelf" } [
  .mk { zid := 0, name := "rows" } (.slice (.ofKind .string))])

/-- This one fails inside a block, with constant bytes written and others held back. -/
def crate : String × Shape := ("Crate", .struct { name := "Crate" } [
  .mk { zid := 0, name := "label" } (.ofKind .string),
  .mk { zid := 1, name := "lids" } (.slice (.struct { name := "Lid" } [
    .mk { name := "hinge" } (.ofKind .int64)]))])

def rack : String × Shape := ("Rack", .ident "Shelf")

def ids : String × Shape := ("Ids", .slice (.ofKind .uint32))

def depotTable : Table := Table.ofList [shelf, crate, rack, ids]

theorem blocksAlone_of_code (c : Config) (entry : String × Shape)
    (hs : entry.2.isPrintable = true) (hbody : (Marshal.body c entry.2).isOk = true)
    (hside : (Marshal.companion c entry.2).isOk = true)
    (hsize : (Msgsize.body c entry.2).isOk = true) :
    ∃ a b, blocksAlone c [.marshal, .msgsize] entry = .ok [a, b] := by
  have hmarshal : ∃ r, Marshal.render c entry.1 entry.2 = .ok r :=
    (Marshal.exists_render hs).2 ⟨hbody, hside⟩
  have hmsgsize : ∃ r, Msgsize.render c entry.1 entry.2 = .ok r :=
    (Msgsize.exists_render hs).2 hsize
  obtain ⟨_, hmarshal⟩ := hmarshal
  obtain ⟨_, hmsgsize⟩ := hmsgsize
  obtain ⟨a, rfl⟩ := render_printable (m := .marshal) hs hmarshal
  obtain ⟨b, rfl⟩ := render_printable (m := .msgsize) hs hmsgsize
  have hrendered : [Method.marshal, .msgsize].map (fun m => m.render c entry.1 entry.2) =
      [a, b].map fun block => .ok (some block) := by
    simp [Method.render, hmarshal, hmsgsize]
  exact ⟨a, b, (blocksAlone_eq c _ entry).trans (blocksOf_of_rendered hrendered)⟩

theorem generateFile_depot : ∃ file,
    generateFile depotTable {} [.marshal, .msgsize] = .ok (file,
      ⟨["Shelf", "Ids"], [⟨"Crate", .missingZid "Lid" "hinge"⟩]⟩) := by
  obtain ⟨shelf₁, shelf₂, hshelf⟩ := blocksAlone_of_code {} shelf rfl rfl rfl rfl
  obtain ⟨ids₁, ids₂, hids⟩ := blocksAlone_of_code {} ids rfl rfl rfl rfl
  have hcrate : blocksAlone {} [.marshal, .msgsize] crate =
      .error (.error (.missingZid "Lid" "hinge")) := by
    have hbody : Marshal.body {} crate.2 = .error (.error (.missingZid "Lid" "hinge")) := rfl
    have hrender : Method.marshal.render {} crate.1 crate.2 =
        .error (.error (.missingZid "Lid" "hinge")) := by
      simp only [Method.render, Marshal.render, hbody]
      rfl
    rw [blocksAlone_eq, blocksOf, hrender]
    rfl
  have hrack : blocksAlone {} [.marshal, .msgsize] rack = .ok [] := by
    rw [blocksAlone_eq]
    exact blocksOf_unprintable rfl _ _ _
  have hfit : ∀ entry ∈ depotTable.entries,
      blocksAlone {} [.marshal, .msgsize] entry ≠ .error .overflow := by
    change ∀ entry ∈ [shelf, crate, rack, ids], _
    simp [hshelf, hcrate, hrack, hids]
  obtain ⟨outcomes, hentries, hall, hfile, -⟩ :=
    generateFile_decomposes depotTable {} [.marshal, .msgsize] hfit
  refine ⟨fileText {} outcomes, hfile.trans ?_⟩
  -- each identity has the one fate that its generators tell
  change outcomes.map Prod.fst = [shelf, crate, rack, ids] at hentries
  obtain ⟨⟨_, f₁⟩, rest₁, rfl, rfl, hrest₁⟩ := List.map_eq_cons_iff.1 hentries
  obtain ⟨⟨_, f₂⟩, rest₂, rfl, rfl, hrest₂⟩ := List.map_eq_cons_iff.1 hrest₁
  obtain ⟨⟨_, f₃⟩, rest₃, rfl, rfl, hrest₃⟩ := List.map_eq_cons_iff.1 hrest₂
  obtain ⟨⟨_, f₄⟩, rest₄, rfl, rfl, hrest₄⟩ := List.map_eq_cons_iff.1 hrest₃
  obtain rfl := List.map_eq_nil_iff.1 hrest₄
  simp only [List.forall_mem_cons] at hall
  obtain ⟨h₁, h₂, h₃, h₄, -⟩ := hall
  obtain rfl := h₁.told.eq_of_eq hshelf .generated
  obtain rfl := h₂.told.eq_of_eq hcrate (.failed _)
  obtain rfl := h₃.told.eq_of_eq hrack .nothing
  obtain rfl := h₄.told.eq_of_eq hids .generated
  rfl

end Batch

end Packwright
