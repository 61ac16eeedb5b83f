import Packwright.Files.Staged
import Packwright.Proofs.Format

/-
  Where paths lead. A path is followed name by name through directories; `Path.location` is where
  it leads if all of them are there, and `location_of_follow` says that following it comes out
  nowhere else. A name joined to a path is below it (`location_join`), so the file that an output
  is staged in is never the output itself (`location_staging_ne`).
-/

namespace Packwright

/-- Where a name leads from a directory. -/
def Location.enter (l : Location) (name : String) : Location :=
  if name = "." then l else if name = ".." then parent l else name :: l

namespace Path

/-! ## Names -/

/-- The parts of a path that are names. -/
def parts (cs : List Char) : List (List Char) := (split cs).filter fun part => !part.isEmpty

/-- Where the names of a path lead from a directory. -/
def walk (start : Location) (cs : List Char) : Location :=
  ((parts cs).map String.ofList).foldl Location.enter start

/-- Where a path starts. -/
def start (p : Path) : Location := if p.isAbsolute then .root else []

/-- Where a path leads, if every name on the way is that of a directory. -/
def location (p : Path) : Location := walk p.start p.toList

/-- A text that is the name of an entry. -/
structure IsName (name : String) : Prop where
  noSlash : '/' ∉ name.toList
  ne_empty : name ≠ ""
  ne_dot : name ≠ "."
  ne_dots : name ≠ ".."

theorem split_ne_nil (cs : List Char) : split cs ≠ [] := by
  cases cs with
  | nil => simp [split]
  | cons c rest =>
    simp only [split, List.foldr_cons]
    split
    · simp
    · split <;> simp

theorem split_cons_slash (cs : List Char) : split ('/' :: cs) = [] :: split cs := by
  simp [split]

theorem split_cons_of_ne {c : Char} (hc : c ≠ '/') {cs part : List Char} {rest : List (List Char)}
    (h : split cs = part :: rest) : split (c :: cs) = (c :: part) :: rest := by
  unfold split at h ⊢
  rw [List.foldr_cons, if_neg hc, h]

theorem split_append (cs ds : List Char) : split (cs ++ '/' :: ds) = split cs ++ split ds := by
  induction cs with
  | nil => exact split_cons_slash ds
  | cons c rest ih =>
    by_cases hc : c = '/'
    · subst hc
      rw [List.cons_append, split_cons_slash, split_cons_slash, ih, List.cons_append]
    · obtain ⟨part, more, hrest⟩ := List.exists_cons_of_ne_nil (split_ne_nil rest)
      rw [hrest, List.cons_append] at ih
      rw [List.cons_append, split_cons_of_ne hc ih, split_cons_of_ne hc hrest, List.cons_append]

theorem split_of_notMem {cs : List Char} (h : '/' ∉ cs) : split cs = [cs] := by
  induction cs with
  | nil => rfl
  | cons c rest ih =>
    rw [List.mem_cons, not_or] at h
    exact split_cons_of_ne (Ne.symm h.1) (ih h.2)

theorem parts_append (cs ds : List Char) : parts (cs ++ '/' :: ds) = parts cs ++ parts ds := by
  rw [parts, split_append, List.filter_append]
  rfl

theorem parts_of_notMem {cs : List Char} (h : '/' ∉ cs) (hne : cs ≠ []) : parts cs = [cs] := by
  rw [parts, split_of_notMem h, List.filter_cons_of_pos (by simpa using hne), List.filter_nil]

/-! ## Walks -/

section

variable {l : Location} {cs ds : List Char}

theorem walk_append : walk l (cs ++ '/' :: ds) = walk (walk l cs) ds := by
  rw [walk, parts_append, List.map_append, List.foldl_append]
  rfl

theorem walk_nil : walk l [] = l := rfl

theorem walk_name (h : '/' ∉ cs) (hne : cs ≠ []) : walk l cs = l.enter (String.ofList cs) := by
  rw [walk, parts_of_notMem h hne]
  rfl

/-- What stands behind the last name of a path leads nowhere else. -/
theorem walk_dropTail : walk l (dropTail cs).reverse = walk l cs.reverse := by
  fun_induction dropTail cs with
  | case1 => rfl
  | case2 => rfl
  | case3 rest hne ih => rw [ih, List.reverse_cons, walk_append, walk_nil]
  | case4 rest ih =>
    have hsplit : ('.' :: '/' :: rest).reverse = rest.reverse ++ '/' :: ['.'] := by simp
    have hdot : walk (walk l rest.reverse) ['.'] = walk l rest.reverse := rfl
    rw [ih, hsplit, walk_append, hdot, List.reverse_cons, walk_append, walk_nil]
  | case5 cs => rfl

theorem enter_name {name : String} (h : IsName name) : l.enter name = name :: l := by
  rw [Location.enter, if_neg h.ne_dot, if_neg h.ne_dots]

end

theorem start_append {p q : Path} (hp : p ≠ "") : start (p ++ q) = p.start := by
  obtain ⟨c, rest, hcons⟩ :=
    List.exists_cons_of_ne_nil fun hnil => hp (String.toList_eq_nil_iff.1 hnil)
  simp [start, isAbsolute, hcons]

/-- A name joined to a path is an entry of the directory that the path leads to. -/
theorem location_join {name : String} (h : IsName name) (p : Path) :
    (p.join name).location = name :: p.location := by
  have hne : name.toList ≠ [] := fun hnil => h.ne_empty (String.toList_eq_nil_iff.1 hnil)
  have hname : ∀ l, walk l name.toList = name :: l := fun l => by
    rw [walk_name h.noSlash hne, String.ofList_toList, enter_name h]
  have habsolute : isAbsolute name = false := by
    obtain ⟨c, rest, hcons⟩ := List.exists_cons_of_ne_nil hne
    have hc : c ≠ '/' := fun hc => h.noSlash (by simp [hcons, hc])
    simp [isAbsolute, hcons, hc]
  rw [join, habsolute, if_neg Bool.false_ne_true]
  by_cases hempty : p = ""
  · subst hempty
    have hstart : start name = [] := by simp [start, habsolute]
    have hjoin : ("" : Path) ++ name = name := String.empty_append
    have hopen : (("" : Path).isEmpty || hasFinalSlash "") = true := rfl
    rw [if_pos hopen, hjoin, location, hname, hstart]
    rfl
  · split
    · rename_i hend
      have hslash : p.toList.getLast? = some '/' := by simpa [hempty, hasFinalSlash] using hend
      obtain ⟨q, hq⟩ := List.getLast?_eq_some_iff.1 hslash
      rw [location, location, start_append hempty, String.toList_append, hq, List.append_assoc,
        List.singleton_append, walk_append, walk_append, hname, walk_nil]
    · rw [location, location, String.append_assoc, start_append hempty, String.toList_append,
        String.toList_append]
      exact walk_append.trans (hname _)

/-! ## Staging -/

/-- What stands at the end of a path after its tail was dropped. -/
theorem dropTail_cases (cs : List Char) :
    dropTail cs = [] ∨ dropTail cs = ['/'] ∨
      ((dropTail cs).head? ≠ some '/' ∧ ∀ rest, dropTail cs ≠ '.' :: '/' :: rest) := by
  fun_induction dropTail cs with
  | case1 => exact .inl rfl
  | case2 => exact .inr (.inl rfl)
  | case3 rest hne ih => exact ih
  | case4 rest ih => exact ih
  | case5 cs hnil hroot hslash hdot =>
    refine .inr (.inr ⟨fun hhead => ?_, hdot⟩)
    obtain ⟨rest, rfl⟩ := List.head?_eq_some_iff.1 hhead
    exact hslash rest rfl

theorem dropTail_ne_nil {cs : List Char} (h : cs ≠ []) : dropTail cs ≠ [] := by
  fun_induction dropTail cs with
  | case1 => exact absurd rfl h
  | case2 => exact h
  | case3 rest hne ih => exact ih fun hnil => hne (by rw [hnil])
  | case4 rest ih => exact ih (List.cons_ne_nil _ _)
  | case5 => exact h

theorem dropTail_suffix (cs : List Char) : dropTail cs <:+ cs := by
  fun_induction dropTail cs with
  | case1 | case2 | case5 => exact List.suffix_rfl
  | case3 rest hne ih => exact ih.trans (List.suffix_cons _ _)
  | case4 rest ih => exact ih.trans (List.suffix_cons _ _)

theorem parts_dropTail (cs : List Char) : parts (dropTail cs).reverse <+: parts cs.reverse := by
  fun_induction dropTail cs with
  | case1 | case2 | case5 => exact List.prefix_rfl
  | case3 rest hne ih =>
    rw [List.reverse_cons, parts_append]
    exact ih.trans (List.prefix_append _ _)
  | case4 rest ih =>
    have hsplit : ('.' :: '/' :: rest).reverse = rest.reverse ++ '/' :: ['.'] := by simp
    rw [List.reverse_cons, parts_append] at ih
    rw [hsplit, parts_append]
    exact ih.trans ((List.prefix_append_right_inj _).2 List.nil_prefix)

/-- The last part of a reversed path, and what stands before it. -/
theorem takeWhile_cases (cs : List Char) :
    '/' ∉ cs.takeWhile (· ≠ '/') ∧
      (cs = cs.takeWhile (· ≠ '/') ∧ cs.dropWhile (· ≠ '/') = [] ∨
        ∃ rest, cs = cs.takeWhile (· ≠ '/') ++ '/' :: rest ∧
          cs.dropWhile (· ≠ '/') = '/' :: rest) := by
  induction cs with
  | nil => exact ⟨List.not_mem_nil, .inl ⟨rfl, rfl⟩⟩
  | cons c rest ih =>
    by_cases hc : c = '/'
    · subst hc
      exact ⟨by simp, .inr ⟨rest, by simp⟩⟩
    · have htake : (c :: rest).takeWhile (· ≠ '/') = c :: rest.takeWhile (· ≠ '/') := by simp [hc]
      have hdrop : (c :: rest).dropWhile (· ≠ '/') = rest.dropWhile (· ≠ '/') := by simp [hc]
      rw [htake, hdrop]
      refine ⟨List.not_mem_cons_of_ne_of_not_mem (Ne.symm hc) ih.1, ih.2.imp ?_ ?_⟩
      · exact fun ⟨hrest, hend⟩ => ⟨congrArg (c :: ·) hrest, hend⟩
      · exact fun ⟨more, hrest, hend⟩ => ⟨more, congrArg (c :: ·) hrest, hend⟩

/-- A path starts where a beginning of it does. -/
theorem start_eq_of_beginning {p : Path} {cs : List Char} (h : cs <+: p.toList) (hne : cs ≠ []) :
    p.start = start (String.ofList cs) := by
  obtain ⟨c, rest, rfl⟩ := List.exists_cons_of_ne_nil hne
  obtain ⟨more, hmore⟩ := h
  simp [start, isAbsolute, ← hmore]

/-- What a path says of its end: the path of the directory, and the last name in it. -/
structure EndsIn (p q : Path) (last : String) : Prop where
  parent : p.parent? = some q
  noSlash : '/' ∉ last.toList
  ne_empty : last ≠ ""
  location : p.location = q.location.enter last
  last_mem : last ∈ p.names
  names : q.names ⊆ p.names
  fileName : p.fileName? = if last = "." ∨ last = ".." then none else some last
  alone : last = "." → q = ""

theorem parent?_of_dropTail {p : Path} {cs : List Char} (hcs : dropTail p.toList.reverse = cs)
    (hnil : cs ≠ []) (hroot : cs ≠ ['/']) :
    p.parent? = some (String.ofList (dropTail (cs.dropWhile (· ≠ '/'))).reverse) := by
  unfold parent?
  rw [hcs]
  split
  · exact absurd rfl hnil
  · exact absurd rfl hroot
  · rfl

/-- The last name of a path that is neither empty nor the root; a pair of dots is none, and a
single one is only the last name of a path that has no other. -/
theorem fileName?_of_dropTail {p : Path} {cs : List Char} (hcs : dropTail p.toList.reverse = cs)
    (hnil : cs ≠ []) (hroot : cs ≠ ['/']) (hdot : ∀ rest, cs ≠ '.' :: '/' :: rest) (last : String)
    (hlast : last.toList = (cs.takeWhile (· ≠ '/')).reverse) :
    p.fileName? = (if last = "." ∨ last = ".." then none else some last) := by
  have hname : last = String.ofList (cs.takeWhile (· ≠ '/')).reverse := by
    rw [← hlast, String.ofList_toList]
  have hchars : ∀ text : String, last = text → cs.takeWhile (· ≠ '/') = text.toList.reverse := by
    intro text htext
    rw [← htext, hlast, List.reverse_reverse]
  obtain ⟨-, hcases⟩ := takeWhile_cases cs
  unfold fileName?
  rw [hcs]
  split
  · exact absurd rfl hnil
  · exact absurd rfl hroot
  · rw [hname, if_pos (.inl rfl)]
  · rw [hname, if_pos (.inr rfl)]
  · rw [hname, if_pos (.inr rfl)]
  · rename_i hnil hroot hone htwo hmore
    rw [if_neg, hname]
    rintro (h | h)
    · have htake : cs.takeWhile (· ≠ '/') = ['.'] := hchars _ h
      rw [htake] at hcases
      rcases hcases with ⟨hcs, -⟩ | ⟨rest, hcs, -⟩
      · exact hone hcs
      · exact hdot rest hcs
    · have htake : cs.takeWhile (· ≠ '/') = ['.', '.'] := hchars _ h
      rw [htake] at hcases
      rcases hcases with ⟨hcs, -⟩ | ⟨rest, hcs, -⟩
      · exact htwo hcs
      · exact hmore rest hcs

/-- A path has a last name, unless it is empty or the root. -/
theorem endsIn_or (p : Path) :
    (p.parent? = none ∧ p.fileName? = none) ∨ ∃ q last, p.EndsIn q last := by
  have hlocation : p.location = walk p.start (dropTail p.toList.reverse).reverse := by
    rw [walk_dropTail, List.reverse_reverse]
    rfl
  have hnames : parts (dropTail p.toList.reverse).reverse <+: parts p.toList := by
    simpa using parts_dropTail p.toList.reverse
  have hbegins : (dropTail p.toList.reverse).reverse <+: p.toList := by
    simpa using List.reverse_prefix.2 (dropTail_suffix p.toList.reverse)
  have htail := dropTail_cases p.toList.reverse
  generalize hcs : dropTail p.toList.reverse = cs at hlocation hnames hbegins htail
  by_cases hnil : cs = []
  · left
    simp [parent?, fileName?, hcs, hnil]
  by_cases hroot : cs = ['/']
  · left
    simp [parent?, fileName?, hcs, hroot]
  obtain ⟨hslash, hdot⟩ := (htail.resolve_left hnil).resolve_left hroot
  have hfile := fileName?_of_dropTail hcs hnil hroot hdot
    (String.ofList (cs.takeWhile (· ≠ '/')).reverse) (by rw [String.toList_ofList])
  have hparent := parent?_of_dropTail hcs hnil hroot
  obtain ⟨hno, hcases⟩ := takeWhile_cases cs
  generalize cs.takeWhile (· ≠ '/') = last at hno hcases hfile
  have hlast : last ≠ [] := by
    rintro rfl
    rcases hcases with ⟨hcs, -⟩ | ⟨rest, hcs, -⟩
    · exact hnil hcs
    · exact hslash (by rw [hcs]; rfl)
  have hno' : '/' ∉ last.reverse := fun hmem => hno (List.mem_reverse.1 hmem)
  have hlast' : last.reverse ≠ [] := fun hrev => hlast (List.reverse_eq_nil_iff.1 hrev)
  have hchars : ∀ text : String, String.ofList last.reverse = text →
      last = text.toList.reverse := by
    intro text htext
    rw [← htext, String.toList_ofList, List.reverse_reverse]
  rcases hcases with ⟨rfl, hbefore⟩ | ⟨rest, rfl, hbefore⟩
  · -- a single name
    have hstart : p.start = [] := by
      rw [start_eq_of_beginning hbegins hlast', start, isAbsolute, String.toList_ofList, if_neg]
      exact fun h => hno' (List.mem_of_head? (of_decide_eq_true h))
    rw [hbefore] at hparent
    refine .inr ⟨"", _, hparent, by rwa [String.toList_ofList], fun h => hlast (hchars _ h), ?_,
      ?_, nofun, hfile, fun _ => rfl⟩
    · rw [hlocation, walk_name hno' hlast', hstart]
      rfl
    · rw [parts_of_notMem hno' hlast'] at hnames
      exact List.mem_map_of_mem (hnames.subset List.mem_cons_self)
  · have hsplit : (last ++ '/' :: rest).reverse = rest.reverse ++ '/' :: last.reverse := by simp
    rw [hsplit] at hlocation hnames hbegins
    rw [hbefore] at hparent
    have hopen : (dropTail ('/' :: rest)).reverse <+: p.toList := by
      have hreverse := List.reverse_prefix.2 (dropTail_suffix ('/' :: rest))
      refine hreverse.trans (List.IsPrefix.trans ?_ hbegins)
      rw [List.reverse_cons]
      exact (List.prefix_append_right_inj _).2 (by simp)
    have hstart : p.start = start (String.ofList (dropTail ('/' :: rest)).reverse) :=
      start_eq_of_beginning hopen
        (by simpa using dropTail_ne_nil (List.cons_ne_nil '/' rest))
    rw [parts_append, parts_of_notMem hno' hlast'] at hnames
    refine .inr ⟨_, _, hparent, by rwa [String.toList_ofList], fun h => hlast (hchars _ h), ?_, ?_,
      ?_, hfile, fun h => ?_⟩
    · rw [hlocation, walk_append, walk_name hno' hlast', location, ← hstart, String.toList_ofList,
        walk_dropTail, List.reverse_cons, walk_append, walk_nil]
    · exact List.mem_map_of_mem (hnames.subset (by simp))
    · refine List.map_subset _ ?_
      rw [String.toList_ofList]
      have hdropped := parts_dropTail ('/' :: rest)
      rw [List.reverse_cons, parts_append] at hdropped
      have hrest : parts rest.reverse ++ parts [] = parts rest.reverse := List.append_nil _
      rw [hrest] at hdropped
      exact fun part hpart => hnames.subset (List.mem_append_left _ (hdropped.subset hpart))
    · obtain rfl : last = ['.'] := hchars _ h
      exact absurd rfl (hdot rest)

/-- A path with a last name leads to an entry of its directory. -/
theorem of_fileName? {p : Path} {name : String} (h : p.fileName? = some name) :
    IsName name ∧ ∃ q, p.parent? = some q ∧ p.location = name :: q.location := by
  rcases p.endsIn_or with ⟨-, hnone⟩ | ⟨q, last, hends⟩
  · rw [h] at hnone
    cases hnone
  · rw [hends.fileName] at h
    split at h
    · cases h
    · rename_i hdots
      obtain rfl := Option.some.inj h
      rw [not_or] at hdots
      have hname : IsName last := ⟨hends.noSlash, hends.ne_empty, hdots.1, hdots.2⟩
      exact ⟨hname, q, hends.parent, by rw [hends.location, enter_name hname]⟩

/-- What is added to a name makes a name. -/
theorem isName_staging {name : String} (h : '/' ∉ name.toList) : IsName (name ++ ".partial") := by
  have hlength : ∀ text : String, name ++ ".partial" = text → 8 ≤ text.toList.length := by
    intro text htext
    rw [← htext, String.toList_append, List.length_append]
    exact Nat.le_add_left _ _
  refine ⟨?_, fun h => ?_, fun h => ?_, fun h => ?_⟩
  · rw [String.toList_append, List.mem_append, not_or]
    exact ⟨h, by decide⟩
  all_goals exact absurd (hlength _ h) (by decide)

/-- An output is never staged where it is to go. -/
theorem location_staging_ne (p : Path) : p.staging.location ≠ p.location := by
  unfold staging withFileName
  cases hname : p.fileName? with
  | none =>
    have hstaging : IsName (((none : Option String).getD "") ++ ".partial") :=
      isName_staging List.not_mem_nil
    dsimp only
    rw [location_join hstaging]
    exact List.cons_ne_self _ _
  | some name =>
    obtain ⟨hvalid, q, hparent, hlocation⟩ := of_fileName? hname
    have hstaging : IsName (((some name).getD "") ++ ".partial") := isName_staging hvalid.noSlash
    rw [hparent]
    dsimp only
    rw [location_join hstaging, hlocation]
    intro heq
    have hsame : name ++ ".partial" = name := (List.cons.inj heq).1
    have hlength := congrArg (fun text => text.toList.length) hsame
    simp at hlength

/-! ## The directories above -/

/-- The directories that an output needs: the one it stands in and those above it, as far as the
path names them. -/
def above (p : Path) : List Location :=
  ((p.parent?.filter fun q => !q.isEmpty).map fun q => q.ancestors.map location).getD []

/-- A directory that a path names is not deeper than the path, if the path never goes up. -/
theorem EndsIn.length_le {p q : Path} {last : String} (h : p.EndsIn q last)
    (hdots : ".." ∉ p.names) : q.location.length ≤ p.location.length := by
  have hlast : last ≠ ".." := fun heq => hdots (heq ▸ h.last_mem)
  rw [h.location, Location.enter, if_neg hlast]
  split
  · exact Nat.le_refl _
  · exact Nat.le_succ _

theorem length_le_of_mem_ancestors {fuel : Nat} {p a : Path} (hdots : ".." ∉ p.names)
    (ha : a ∈ ancestors.go fuel p) : a.location.length ≤ p.location.length := by
  induction fuel generalizing p with
  | zero => exact absurd ha List.not_mem_nil
  | succ fuel ih =>
    rcases List.mem_cons.1 ha with rfl | ha
    · exact Nat.le_refl _
    · rcases p.endsIn_or with ⟨hnone, -⟩ | ⟨q, last, hends⟩
      · rw [hnone] at ha
        exact absurd ha List.not_mem_nil
      · rw [hends.parent] at ha
        have hq : ".." ∉ q.names := fun hmem => hdots (hends.names hmem)
        exact Nat.le_trans (ih hq ha) (hends.length_le hdots)

/-- A path that never goes up is not one of the directories above it. -/
theorem location_notMem_above {p : Path} (hdots : ".." ∉ p.names) : p.location ∉ p.above := by
  unfold above
  rcases p.endsIn_or with ⟨hnone, -⟩ | ⟨q, last, hends⟩
  · rw [hnone]
    exact List.not_mem_nil
  · rw [hends.parent]
    by_cases hq : q = ""
    · subst hq
      exact List.not_mem_nil
    · have hfilter : (some q).filter (fun q => !q.isEmpty) = some q := by simp [hq]
      have hlast : last ≠ "." := fun heq => hq (hends.alone heq)
      have hlast' : last ≠ ".." := fun heq => hdots (heq ▸ hends.last_mem)
      have hq' : ".." ∉ q.names := fun hmem => hdots (hends.names hmem)
      rw [hfilter]
      intro hmem
      obtain ⟨a, ha, hlocation⟩ := List.mem_map.1 hmem
      have hshort := length_le_of_mem_ancestors hq' ha
      rw [hlocation, hends.location, Location.enter, if_neg hlast, if_neg hlast'] at hshort
      exact absurd hshort (Nat.not_succ_le_self _)

end Path

namespace FileTree

/-! ## Following paths -/

variable {t : FileTree}

theorem enter_eq_ok {l l' : Location} {name : String} (h : t.enter l name = .ok l') :
    l' = l.enter name := by
  unfold FileTree.enter at h
  obtain ⟨-, -, h⟩ := bind_eq_ok h
  unfold Location.enter
  split at h
  · rw [if_pos ‹_›]
    exact (Except.ok.inj h).symm
  · rw [if_neg ‹_›]
    split at h
    · rw [if_pos ‹_›]
      exact (Except.ok.inj h).symm
    · rw [if_neg ‹_›]
      obtain ⟨-, -, h⟩ := bind_eq_ok h
      exact (Except.ok.inj h).symm

theorem foldlM_enter_eq_ok {names : List String} {l l' : Location}
    (h : names.foldlM t.enter l = .ok l') : l' = names.foldl Location.enter l := by
  induction names generalizing l with
  | nil => exact (Except.ok.inj h).symm
  | cons name rest ih =>
    rw [List.foldlM_cons] at h
    obtain ⟨m, hm, h⟩ := bind_eq_ok h
    rw [ih h, enter_eq_ok hm, List.foldl_cons]

/-- Following a path comes out where the path leads. -/
theorem location_of_follow {p : Path} {target : Target} (h : t.follow p = .ok target) :
    target.location = p.location := by
  change _ = p.names.foldl Location.enter p.start
  unfold follow at h
  obtain ⟨-, -, h⟩ := bind_eq_ok h
  dsimp only at h
  split at h
  · rename_i hnames
    split at h
    · rename_i habsolute
      obtain rfl := Except.ok.inj h
      rw [List.reverse_eq_nil_iff.1 hnames, Path.start, if_pos habsolute]
      rfl
    · cases h
  · rename_i last above hnames
    have hsplit : p.names = above.reverse ++ [last] := by
      rw [← List.reverse_reverse p.names, hnames, List.reverse_cons]
    obtain ⟨directory, hdirectory, h⟩ := bind_eq_ok h
    have hdirectory : directory = above.reverse.foldl Location.enter p.start :=
      foldlM_enter_eq_ok hdirectory
    rw [hsplit, List.foldl_append, ← hdirectory, List.foldl_cons, List.foldl_nil]
    split at h
    · obtain ⟨l, hl, h⟩ := bind_eq_ok h
      obtain rfl := Except.ok.inj h
      exact enter_eq_ok hl
    · rename_i hlast
      obtain ⟨-, -, h⟩ := bind_eq_ok h
      obtain rfl := Except.ok.inj h
      rw [not_or] at hlast
      rw [Location.enter, if_neg hlast.1, if_neg hlast.2]
      rfl

end FileTree

end Packwright
