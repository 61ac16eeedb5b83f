import Mathlib.Data.List.Forall2
import Packwright.Proofs.Induction
import Packwright.Shape.Visit

/-
  The traversal as a loop. `callEach` calls a visitor on nodes one after another until a call asks
  to stop. For visitors that leave children alone, a traversal does what that loop does on the nodes
  in pre-order. Both are compared on lists of trees, since a node's children are one: `Walk.node`
  and `Walk.node_of_stop` are the step at a node, `walk_visitAll` the loop over its children, and
  `walk_visit` the whole.
-/

namespace Packwright

namespace Field

theorem map_value_withValues {fields : List Field} {values : List Shape}
    (h : values.length = fields.length) : (withValues fields values).map value = values := by
  induction fields generalizing values with
  | nil =>
    obtain rfl := List.eq_nil_of_length_eq_zero h
    rfl
  | cons f rest ih =>
    cases values with
    | nil => cases h
    | cons v values => rw [withValues, List.map_cons, value_mk, ih (Nat.succ.inj h)]

end Field

namespace Shape

/-! ## Nodes in pre-order -/

mutual

/-- The nodes of a shape in pre-order, those of skipped fields included. -/
def nodes : Shape → List Shape
  | struct info fields => struct info fields :: nodesIn fields
  | map key value => map key value :: nodes value
  | slice element => slice element :: nodes element
  | array info element => array info element :: nodes element
  | ptr pointee => ptr pointee :: nodes pointee
  | base info => [base info]

/-- The nodes of the shapes of fields, in declaration order. -/
def nodesIn : List Field → List Shape
  | [] => []
  | .mk _ value :: rest => nodes value ++ nodesIn rest

end

theorem nodesIn_eq (fields : List Field) :
    nodesIn fields = (fields.map Field.value).flatMap nodes := by
  induction fields with
  | nil => rfl
  | cons f rest ih =>
    obtain ⟨info, value⟩ := f
    rw [nodesIn, ih, List.map_cons, Field.value_mk, List.flatMap_cons]

theorem nodes_eq (s : Shape) : s.nodes = s :: s.children.flatMap nodes := by
  cases s with
  | struct info fields => rw [nodes, nodesIn_eq, children]
  | base info => rfl
  | _ => simp only [nodes, children, List.flatMap_singleton]

theorem children_withChildren {s : Shape} {below : List Shape}
    (h : below.length = s.children.length) : (s.withChildren below).children = below := by
  cases s with
  | struct info fields => exact Field.map_value_withValues (h.trans (List.length_map _))
  | base info => exact (List.eq_nil_of_length_eq_zero h).symm
  | _ =>
    obtain ⟨child, rfl⟩ := List.length_eq_one_iff.1 h
    rfl

/-- Induction over shapes by their children. -/
theorem inductionOnChildren {motive : Shape → Prop}
    (node : ∀ s : Shape, (∀ c ∈ s.children, motive c) → motive s) (s : Shape) : motive s := by
  induction s with
  | struct info fields ih => exact node _ (List.forall_mem_map.2 ih)
  | base info => exact node _ (List.forall_mem_nil _)
  | map key value ih => exact node _ (List.forall_mem_singleton.2 ih)
  | slice element ih => exact node _ (List.forall_mem_singleton.2 ih)
  | array info element ih => exact node _ (List.forall_mem_singleton.2 ih)
  | ptr pointee ih => exact node _ (List.forall_mem_singleton.2 ih)

/-- Two trees of nodes with the same structure, whatever the nodes are. -/
inductive SameTree : Shape → Shape → Prop
  | node {s r : Shape} (children : List.Forall₂ SameTree s.children r.children) : SameTree s r

theorem SameTree.refl (s : Shape) : SameTree s s := by
  induction s using inductionOnChildren with
  | node s ih => exact ⟨List.forall₂_same.2 ih⟩

theorem forall₂_sameTree (trees : List Shape) : List.Forall₂ SameTree trees trees :=
  List.forall₂_same.2 fun s _ => .refl s

section

variable {σ : Type} (f : Shape → StateM σ (Shape × Bool))

/-- Visits trees in order; those after a stop are left as they are. -/
def visitAll : List Shape → StateM σ (List Shape × Bool)
  | [] => pure ([], true)
  | s :: rest => do
    let (s, completed) ← visit f s
    if completed then
      let (rest, completed) ← visitAll rest
      return (s :: rest, completed)
    else
      return (s :: rest, false)

theorem visitAll_singleton (s : Shape) :
    visitAll f [s] = do
      let (s, completed) ← visit f s
      return ([s], completed) := by
  funext st
  rcases h : visit f s st with ⟨⟨r, completed⟩, st'⟩
  simp only [visitAll, bind, StateT.bind, h]
  cases completed <;> rfl

theorem visitFields_eq (fields : List Field) :
    visitFields f fields = visitAll f (fields.map Field.value) := by
  induction fields with
  | nil => rfl
  | cons g rest ih =>
    obtain ⟨info, value⟩ := g
    rw [visitFields, ih, List.map_cons, Field.value_mk, visitAll]

/-- All kinds of nodes are visited alike. -/
theorem visit_eq (s : Shape) : visit f s = visitNode f s (visitAll f s.children) := by
  cases s with
  | struct info fields => rw [visit, visitFields_eq, children]
  | base info => rw [visit, children, visitAll]
  | _ => rw [visit, children, visitAll_singleton]

/-! ## The loop over nodes -/

/-- A call of a visitor: the node it was called on, what it made of it, and whether to go on. -/
structure Call where
  node : Shape
  edited : Shape
  more : Bool

/-- Calls the visitor on nodes one after another until a call asks to stop. Gives the calls and
the state they lead to. -/
def callEach : List Shape → σ → List Call × σ
  | [], st => ([], st)
  | node :: rest, st =>
    let ((edited, more), next) := (f node).run st
    let (log, stop) := if more then callEach rest next else ([], next)
    (⟨node, edited, more⟩ :: log, stop)

variable {f} {st next stop : σ} {log log' : List Call}

theorem callEach_more {node edited : Shape} (h : (f node).run st = ((edited, true), next))
    (rest : List Shape) :
    callEach f (node :: rest) st =
      (⟨node, edited, true⟩ :: (callEach f rest next).1, (callEach f rest next).2) := by
  rw [callEach, h]
  rfl

theorem callEach_stop {node edited : Shape} (h : (f node).run st = ((edited, false), next))
    (rest : List Shape) :
    callEach f (node :: rest) st = ([⟨node, edited, false⟩], next) := by
  rw [callEach, h]
  rfl

theorem callEach_append_of_all {first : List Shape} (h : callEach f first st = (log, next))
    (hall : log.all Call.more = true) (second : List Shape) :
    callEach f (first ++ second) st =
      (log ++ (callEach f second next).1, (callEach f second next).2) := by
  induction first generalizing st log with
  | nil =>
    cases h
    rfl
  | cons node first ih =>
    rcases hnode : (f node).run st with ⟨⟨edited, _ | _⟩, after⟩
    · rw [callEach_stop hnode] at h
      cases h
      cases hall
    · rw [callEach_more hnode] at h
      cases h
      rw [List.cons_append, callEach_more hnode, ih rfl hall]
      rfl

theorem callEach_append_of_stop {first : List Shape} (h : callEach f first st = (log, next))
    (hall : log.all Call.more = false) (second : List Shape) :
    callEach f (first ++ second) st = (log, next) := by
  induction first generalizing st log with
  | nil =>
    cases h
    cases hall
  | cons node first ih =>
    rcases hnode : (f node).run st with ⟨⟨edited, _ | _⟩, after⟩
    · rw [List.cons_append, callEach_stop hnode, ← h, callEach_stop hnode]
    · rw [callEach_more hnode] at h
      cases h
      rw [List.cons_append, callEach_more hnode, ih rfl hall]

/-- The calls are on the first nodes. A call that another follows went on, and if all did, no node
is left. -/
theorem callEach_log (f : Shape → StateM σ (Shape × Bool)) (trees : List Shape) (st : σ) :
    ∃ rest, trees = (callEach f trees st).1.map Call.node ++ rest ∧
      (callEach f trees st).1.Pairwise (fun c _ => c.more = true) ∧
      ((callEach f trees st).1.all Call.more = true → rest = []) := by
  induction trees generalizing st with
  | nil => exact ⟨[], rfl, .nil, fun _ => rfl⟩
  | cons node trees ih =>
    rcases hnode : (f node).run st with ⟨⟨edited, _ | _⟩, next⟩
    · rw [callEach_stop hnode]
      refine ⟨trees, rfl, List.pairwise_singleton .., fun hall => ?_⟩
      cases hall
    · obtain ⟨rest, hnodes, hmore, hall⟩ := ih next
      rw [callEach_more hnode]
      exact ⟨rest, congrArg (node :: ·) hnodes, hmore.cons fun _ _ => rfl, hall⟩

/-- A visitor that keeps a log of its calls. -/
def recording (f : Shape → StateM σ (Shape × Bool)) (node : Shape) :
    StateM (σ × List Call) (Shape × Bool) := fun (st, log) =>
  let ((edited, more), next) := (f node).run st
  ((edited, more), (next, log ++ [⟨node, edited, more⟩]))

theorem recording_run {node edited : Shape} {more : Bool}
    (h : (f node).run st = ((edited, more), next)) (log : List Call) :
    (recording f node).run (st, log) =
      ((edited, more), (next, log ++ [⟨node, edited, more⟩])) := by
  show recording f node (st, log) = _
  rw [recording, h]

theorem children_recording (hf : ∀ node st, ((f node).run st).1.1.children = node.children)
    (node : Shape) (st : σ × List Call) :
    ((recording f node).run st).1.1.children = node.children :=
  hf node st.1

/-- The calls that a visitor keeps are those of the loop. -/
theorem callEach_recording (f : Shape → StateM σ (Shape × Bool)) (trees : List Shape) (st : σ)
    (log : List Call) :
    callEach (recording f) trees (st, log) =
      ((callEach f trees st).1, (callEach f trees st).2, log ++ (callEach f trees st).1) := by
  induction trees generalizing st log with
  | nil => simp [callEach]
  | cons node trees ih =>
    rcases hnode : (f node).run st with ⟨⟨edited, _ | _⟩, next⟩
    · rw [callEach_stop hnode, callEach_stop (recording_run hnode log)]
    · rw [callEach_more hnode, callEach_more (recording_run hnode log), ih]
      simp

/-! ## One node, and the trees below it -/

theorem visitNode_more {node own : Shape} {below : StateM σ (List Shape × Bool)}
    {after : List Shape} {completed : Bool} (h : (f node).run st = ((own, true), next))
    (hbelow : below.run next = ((after, completed), stop)) :
    (visitNode f node below).run st = ((own.withChildren after, completed), stop) := by
  dsimp only [StateT.run] at h hbelow ⊢
  simp only [visitNode, bind, StateT.bind, h, ↓reduceIte, hbelow]
  rfl

theorem visitNode_stop {node own : Shape} (below : StateM σ (List Shape × Bool))
    (h : (f node).run st = ((own, false), next)) :
    (visitNode f node below).run st = ((own.withChildren node.children, false), next) := by
  dsimp only [StateT.run] at h ⊢
  simp only [visitNode, bind, StateT.bind, h]
  rfl

theorem visitAll_more {s r : Shape} {rest after : List Shape} {completed : Bool}
    (h : (visit f s).run st = ((r, true), next))
    (hrest : (visitAll f rest).run next = ((after, completed), stop)) :
    (visitAll f (s :: rest)).run st = ((r :: after, completed), stop) := by
  dsimp only [StateT.run] at h hrest ⊢
  simp only [visitAll, bind, StateT.bind, h, ↓reduceIte, hrest]
  rfl

theorem visitAll_stop {s r : Shape} (rest : List Shape)
    (h : (visit f s).run st = ((r, false), next)) :
    (visitAll f (s :: rest)).run st = ((r :: rest, false), next) := by
  dsimp only [StateT.run] at h ⊢
  simp only [visitAll, bind, StateT.bind, h]
  rfl

/-- What a call leaves of its node: the data it gave the node, with children that may have been
called in turn. -/
def Call.Leaves (c : Call) (left : Shape) : Prop := left = c.edited.withChildren left.children

/-- A walk over trees: the loop over their nodes gives the log, the trees keep their structure, the
called nodes come first in what is left of them, and the others are as they were. -/
structure Walk (f : Shape → StateM σ (Shape × Bool)) (st : σ) (trees : List Shape)
    (log : List Call) (after : List Shape) (stop : σ) : Prop where
  calls : callEach f (trees.flatMap nodes) st = (log, stop)
  same : List.Forall₂ SameTree trees after
  left : ∃ left rest, trees.flatMap nodes = log.map Call.node ++ rest ∧
    after.flatMap nodes = left ++ rest ∧ List.Forall₂ Call.Leaves log left

theorem Walk.nil (f : Shape → StateM σ (Shape × Bool)) (st : σ) : Walk f st [] [] [] st :=
  ⟨rfl, .nil, [], [], rfl, rfl, .nil⟩

/-- A walk on which no call stops goes on with the next trees. -/
theorem Walk.append {trees after trees' after' : List Shape} (h : Walk f st trees log after next)
    (hall : log.all Call.more = true) (h' : Walk f next trees' log' after' stop) :
    Walk f st (trees ++ trees') (log ++ log') (after ++ after') stop where
  calls := by rw [List.flatMap_append, callEach_append_of_all h.calls hall, h'.calls]
  same := List.rel_append h.same h'.same
  left := by
    obtain ⟨rest, hcalled, -, hrest⟩ := callEach_log f (trees.flatMap nodes) st
    obtain ⟨left, unseen, hnodes, hleft, hleaves⟩ := h.left
    obtain ⟨left', rest', hnodes', hleft', hleaves'⟩ := h'.left
    rw [h.calls] at hcalled hrest
    -- all calls went on, so there is no node that was not called
    obtain rfl : unseen = [] := by
      rw [← hrest hall]
      exact List.append_cancel_left (hnodes.symm.trans hcalled)
    refine ⟨left ++ left', rest', ?_, ?_, List.rel_append hleaves hleaves'⟩
    · rw [List.flatMap_append, hnodes, hnodes', List.map_append, List.append_nil,
        List.append_assoc]
    · rw [List.flatMap_append, hleft, hleft', List.append_nil, List.append_assoc]

/-- A walk on which a call stops leaves the next trees alone. -/
theorem Walk.append_of_stop {trees after : List Shape} (h : Walk f st trees log after stop)
    (hall : log.all Call.more = false) (trees' : List Shape) :
    Walk f st (trees ++ trees') log (after ++ trees') stop where
  calls := by rw [List.flatMap_append, callEach_append_of_stop h.calls hall]
  same := List.rel_append h.same (forall₂_sameTree trees')
  left := by
    obtain ⟨left, rest, hnodes, hleft, hleaves⟩ := h.left
    refine ⟨left, rest ++ trees'.flatMap nodes, ?_, ?_, hleaves⟩
    · rw [List.flatMap_append, hnodes, List.append_assoc]
    · rw [List.flatMap_append, hleft, List.append_assoc]

/-- A node whose call goes on is followed by a walk over its children. -/
theorem Walk.node {node own : Shape} {after : List Shape}
    (hnode : (f node).run st = ((own, true), next)) (hown : own.children = node.children)
    (h : Walk f next node.children log after stop) :
    Walk f st [node] (⟨node, own, true⟩ :: log) [own.withChildren after] stop := by
  have hafter : (own.withChildren after).children = after :=
    children_withChildren (by rw [hown, h.same.length_eq])
  obtain ⟨left, rest, hnodes, hleft, hleaves⟩ := h.left
  have hsame : SameTree node (own.withChildren after) := ⟨by rw [hafter]; exact h.same⟩
  refine ⟨?_, .cons hsame .nil, own.withChildren after :: left, rest, ?_, ?_,
    .cons (by rw [Call.Leaves, hafter]) hleaves⟩
  · rw [List.flatMap_singleton, nodes_eq, callEach_more hnode, h.calls]
  · rw [List.flatMap_singleton, nodes_eq, hnodes, List.map_cons, List.cons_append]
  · rw [List.flatMap_singleton, nodes_eq, hafter, hleft, List.cons_append]

/-- A node whose call stops is all that there is to a walk. -/
theorem Walk.node_of_stop {node own : Shape} (hnode : (f node).run st = ((own, false), stop))
    (hown : own.children = node.children) :
    Walk f st [node] [⟨node, own, false⟩] [own.withChildren node.children] stop := by
  have hafter : (own.withChildren node.children).children = node.children :=
    children_withChildren (by rw [hown])
  have hsame : SameTree node (own.withChildren node.children) :=
    ⟨by rw [hafter]; exact forall₂_sameTree _⟩
  refine ⟨?_, .cons hsame .nil, [own.withChildren node.children], node.children.flatMap nodes,
    ?_, ?_, .cons (by rw [Call.Leaves, hafter]) .nil⟩
  · rw [List.flatMap_singleton, nodes_eq, callEach_stop hnode]
  · rw [List.flatMap_singleton, nodes_eq]
    rfl
  · rw [List.flatMap_singleton, nodes_eq, hafter]
    rfl

/-! ## Whole traversals -/

/-- Trees that are each walked over are walked over in order. -/
theorem walk_visitAll {trees : List Shape}
    (h : ∀ s ∈ trees, ∀ st, ∃ log r stop, Walk f st [s] log [r] stop ∧
      (visit f s).run st = ((r, log.all Call.more), stop)) (st : σ) :
    ∃ log after stop, Walk f st trees log after stop ∧
      (visitAll f trees).run st = ((after, log.all Call.more), stop) := by
  induction trees generalizing st with
  | nil => exact ⟨[], [], st, .nil f st, rfl⟩
  | cons s rest ih =>
    obtain ⟨log, r, next, hwalk, hrun⟩ := h s List.mem_cons_self st
    cases hall : log.all Call.more with
    | false =>
      rw [hall] at hrun
      exact ⟨log, r :: rest, next, hwalk.append_of_stop hall rest,
        by rw [visitAll_stop rest hrun, hall]⟩
    | true =>
      rw [hall] at hrun
      obtain ⟨log', after, stop, hwalk', hrun'⟩ :=
        ih (fun s hs => h s (List.mem_cons_of_mem _ hs)) next
      exact ⟨log ++ log', r :: after, stop, hwalk.append hall hwalk',
        by rw [visitAll_more hrun hrun', List.all_append, hall, Bool.true_and]⟩

theorem walk_visit (hf : ∀ node st, ((f node).run st).1.1.children = node.children) (s : Shape)
    (st : σ) :
    ∃ log r stop, Walk f st [s] log [r] stop ∧
      (visit f s).run st = ((r, log.all Call.more), stop) := by
  induction s using inductionOnChildren generalizing st with
  | node s ih =>
    rw [visit_eq]
    rcases hnode : (f s).run st with ⟨⟨own, more⟩, next⟩
    have hown := hf s st
    rw [hnode] at hown
    cases more with
    | false => exact ⟨_, _, _, .node_of_stop hnode hown, visitNode_stop _ hnode⟩
    | true =>
      -- the children are walked over from the state that the call leaves
      obtain ⟨log, after, stop, hwalk, hrun⟩ := walk_visitAll ih next
      exact ⟨_, _, _, .node hnode hown hwalk, visitNode_more hnode hrun⟩

/-- A traversal by a visitor that leaves children alone is the loop over the nodes in pre-order: it
makes the calls of that loop, as a log kept on the way shows, up to the first that stops, and tells
whether none did. What it returns has the same structure; in pre-order, it begins with the called
nodes, each with the data that its call gave it, and all later nodes are as they were. -/
theorem visit_preorder (f : Shape → StateM σ (Shape × Bool))
    (hf : ∀ node st, ((f node).run st).1.1.children = node.children) (s : Shape) (st : σ) :
    ∃ (log : List Call) (r : Shape) (stop : σ) (left rest : List Shape),
      (visit f s).run st = ((r, log.all Call.more), stop) ∧
      callEach f s.nodes st = (log, stop) ∧
      ((visit (recording f) s).run (st, [])).2 = (stop, log) ∧
      s.nodes = log.map Call.node ++ rest ∧
      log.Pairwise (fun c _ => c.more = true) ∧
      (log.all Call.more = true → rest = []) ∧
      SameTree s r ∧
      r.nodes = left ++ rest ∧
      List.Forall₂ Call.Leaves log left := by
  obtain ⟨log, r, stop, hwalk, hrun⟩ := walk_visit hf s st
  obtain ⟨hcalls, hsame, left, rest, hnodes, hleft, hleaves⟩ := hwalk
  simp only [List.flatMap_singleton] at hcalls hnodes hleft
  obtain ⟨unseen, hcalled, hmore, hall⟩ := callEach_log f s.nodes st
  rw [hcalls] at hcalled hmore hall
  obtain rfl : unseen = rest := List.append_cancel_left (hcalled.symm.trans hnodes)
  have hrecorded : ((visit (recording f) s).run (st, [])).2 = (stop, log) := by
    obtain ⟨log', r', stop', ⟨hcalls', -, -⟩, hrun'⟩ :=
      walk_visit (children_recording hf) s (st, [])
    rw [List.flatMap_singleton, callEach_recording, hcalls] at hcalls'
    rw [hrun']
    exact (congrArg Prod.snd hcalls').symm
  exact ⟨log, r, stop, left, unseen, hrun, hcalls, hrecorded, hnodes, hmore, hall,
    (List.forall₂_cons.1 hsame).1, hleft, hleaves⟩

/-- Numbers arrays until two are numbered. -/
def numbering : Shape → StateM Nat (Shape × Bool)
  | array info element => do
    let n ← get
    set (n + 1)
    return (array { info with resolved := some n } element, n < 2)
  | node => return (node, true)

theorem children_numbering (node : Shape) (n : Nat) :
    ((numbering node).run n).1.1.children = node.children := by
  cases node <;> rfl

/-- Three arrays: in a skipped field, behind a pointer and in a map. -/
def crates (first second third : Option Nat) : Shape :=
  .struct { name := "Crates" } [
    .mk { name := "spare", skip := true } (.slice (.array ⟨"N", first⟩ (.ofKind .string))),
    .mk { name := "open" } (.ptr (.array ⟨"N", second⟩ (.ofKind .string))),
    .mk { name := "sealed" } (.map .string (.array ⟨"N", third⟩ (.ofKind .string)))]

/-- The second array is the sixth node of ten, and the last to be numbered. -/
theorem visit_crates : (visit numbering (crates none none none)).run 1 =
      ((crates (some 1) (some 2) none, false), 3) ∧
    ∃ (log : List Call) (left rest : List Shape), log.length = 6 ∧
      (crates none none none).nodes = log.map Call.node ++ rest ∧
      (crates (some 1) (some 2) none).nodes = left ++ rest ∧
      List.Forall₂ Call.Leaves log left := by
  have hrun : (visit numbering (crates none none none)).run 1 =
      ((crates (some 1) (some 2) none, false), 3) := rfl
  obtain ⟨log, r, stop, left, rest, hrun', hcalls, -, hnodes, -, -, -, hleft, hleaves⟩ :=
    visit_preorder numbering children_numbering (crates none none none) 1
  obtain rfl : crates (some 1) (some 2) none = r :=
    congrArg (fun out => out.1.1) (hrun.symm.trans hrun')
  have hlength : log.length = 6 := by
    rw [← show (callEach numbering (crates none none none).nodes 1).1 = log from
      congrArg Prod.fst hcalls]
    rfl
  exact ⟨hrun, log, left, rest, hlength, hnodes, hleft, hleaves⟩

end

end Shape

end Packwright
