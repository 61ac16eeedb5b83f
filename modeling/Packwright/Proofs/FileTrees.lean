import Packwright.Proofs.Paths

/-
  What the operations on files change. Each is opened once: writing a file sets one entry
  (`write_eq_ok`), moving a file erases one and sets one (`rename_eq_ok`), and creating
  directories adds directories where there was nothing and changes nothing else
  (`keeps_makeDirectories`). A path that can be opened stays one as long as no directory goes away
  (`Opens.mono`).
-/

namespace Packwright.FileTree

variable {t t' : FileTree} {l : Location} {p : Path}

/-! ## Entries -/

theorem isGiven_of_ne_directory (h : t.get? l ≠ some .directory) : l.isGiven = false := by
  cases hgiven : l.isGiven with
  | false => rfl
  | true => exact absurd (by rw [get?, hgiven, if_pos rfl]) h

theorem lookup_filter_self (entries : List (Location × FileNode)) (l : Location) :
    (entries.filter fun e => e.1 ≠ l).lookup l = none := by
  induction entries with
  | nil => rfl
  | cons e rest ih =>
    by_cases he : e.1 = l
    · rw [List.filter_cons_of_neg (by simpa using he), ih]
    · have hl : (l == e.1) = false := by simpa using Ne.symm he
      rw [List.filter_cons_of_pos (by simpa using he), List.lookup_cons, hl, ih]

/-- An entry that was removed is gone, unless its location is given. -/
theorem get?_erase_self (h : l.isGiven = false) : (t.erase l).get? l = none := by
  rw [get?, h, if_neg Bool.false_ne_true]
  exact lookup_filter_self t.entries l

/-- What was at a location is there still, or nothing was there and a directory came to be, which
only happens at some locations. -/
def Keeps (made : List Location) (t t' : FileTree) (l : Location) : Prop :=
  t'.get? l = t.get? l ∨ l ∈ made ∧ t.get? l = none ∧ t'.get? l = some .directory

section

variable {made : List Location}

theorem Keeps.refl (t : FileTree) (l : Location) : Keeps made t t l := .inl rfl

theorem Keeps.trans {m : FileTree} (h : Keeps made t m l) (h' : Keeps made m t' l) :
    Keeps made t t' l := by
  unfold Keeps at *
  grind

theorem Keeps.mono {more : List Location} (h : Keeps made t t' l) (hmore : made ⊆ more) :
    Keeps more t t' l :=
  h.imp id fun ⟨hl, hnode⟩ => ⟨hmore hl, hnode⟩

theorem Keeps.directory (h : Keeps made t t' l) (hl : t.get? l = some .directory) :
    t'.get? l = some .directory := by
  rcases h with h | ⟨-, hnone, -⟩
  · rw [h, hl]
  · rw [hnone] at hl
    cases hl

end

/-! ## Directories -/

theorem keeps_makeDirectory (h : t.makeDirectory p = .ok t') (l : Location) :
    Keeps [p.location] t t' l := by
  unfold makeDirectory at h
  obtain ⟨target, hfollow, h⟩ := bind_eq_ok h
  obtain ⟨-, -, h⟩ := bind_eq_ok h
  rw [location_of_follow hfollow] at h
  split at h
  · rename_i hnone
    obtain rfl := Except.ok.inj h
    by_cases hl : l = p.location
    · subst hl
      have hgiven : p.location.isGiven = false := isGiven_of_ne_directory (by rw [hnone]; nofun)
      exact .inr ⟨List.mem_cons_self, hnone, t.get?_set_self .directory hgiven⟩
    · exact .inl (t.get?_set_of_ne .directory hl)
  · cases h

theorem keeps_ensureDirectory (t : FileTree) (p : Path) (l : Location) :
    Keeps [p.location] t (t.ensureDirectory p).2 l := by
  unfold ensureDirectory
  split
  · exact keeps_makeDirectory ‹_› l
  · exact .refl t l

theorem keeps_makeChain (t : FileTree) (paths : List Path) (l : Location) :
    Keeps (paths.map Path.location) t (t.makeChain paths).2 l := by
  induction paths with
  | nil => exact .refl t l
  | cons p above ih =>
    have hp : ∀ t : FileTree, Keeps ((p :: above).map Path.location) t (t.ensureDirectory p).2 l :=
      fun t => (keeps_ensureDirectory t p l).mono (by simp)
    have habove := ih.mono (List.subset_cons_self p.location _)
    unfold makeChain
    split
    · exact .refl t l
    · split
      · split
        · rename_i hchain
          rw [hchain] at habove
          exact habove.trans (hp _)
        · exact habove
      · exact hp t

/-- Creating directories adds them where nothing was, and changes nothing else. -/
theorem keeps_makeDirectories (t : FileTree) (p : Path) (l : Location) :
    Keeps (p.ancestors.map Path.location) t (t.makeDirectories p).2 l :=
  keeps_makeChain t p.ancestors l

/-! ## Paths that can be opened -/

theorem checkDirectory_mono (h : ∀ l, t.get? l = some .directory → t'.get? l = some .directory)
    (hl : t.checkDirectory l = .ok ()) : t'.checkDirectory l = .ok () := by
  unfold checkDirectory at hl ⊢
  split at hl
  · rw [h l ‹_›]
  · cases hl
  · cases hl

theorem enter_mono (h : ∀ l, t.get? l = some .directory → t'.get? l = some .directory)
    {l' : Location} {name : String} (hl : t.enter l name = .ok l') : t'.enter l name = .ok l' := by
  unfold FileTree.enter at hl ⊢
  obtain ⟨_, hdirectory, hl⟩ := bind_eq_ok hl
  rw [checkDirectory_mono h hdirectory]
  exact hl

theorem foldlM_enter_mono (h : ∀ l, t.get? l = some .directory → t'.get? l = some .directory)
    {names : List String} {l' : Location} (hl : names.foldlM t.enter l = .ok l') :
    names.foldlM t'.enter l = .ok l' := by
  induction names generalizing l with
  | nil => exact hl
  | cons name rest ih =>
    rw [List.foldlM_cons] at hl ⊢
    obtain ⟨m, hm, hl⟩ := bind_eq_ok hl
    rw [enter_mono h hm]
    exact ih hl

/-- A path that can be followed can be followed as long as no directory goes away. -/
theorem follow_mono (h : ∀ l, t.get? l = some .directory → t'.get? l = some .directory)
    {target : Target} (hp : t.follow p = .ok target) : t'.follow p = .ok target := by
  unfold follow at hp ⊢
  obtain ⟨_, hpath, hp⟩ := bind_eq_ok hp
  rw [hpath, ok_bind]
  dsimp only at hp ⊢
  cases hnames : p.names.reverse with
  | nil =>
    rw [hnames] at hp
    exact hp
  | cons last above =>
    rw [hnames] at hp
    dsimp only at hp ⊢
    obtain ⟨directory, hdirectory, hp⟩ := bind_eq_ok hp
    rw [foldlM_enter_mono h hdirectory, ok_bind]
    split at hp
    · rw [if_pos ‹_›]
      obtain ⟨l, hl, hp⟩ := bind_eq_ok hp
      rw [enter_mono h hl]
      exact hp
    · rw [if_neg ‹_›]
      obtain ⟨_, hl, hp⟩ := bind_eq_ok hp
      rw [checkDirectory_mono h hl]
      exact hp

/-- A path that leads to an entry of a directory, which may be there or not. -/
def Opens (t : FileTree) (p : Path) : Prop :=
  ∃ directory name, t.follow p = .ok ⟨directory, .entry name, false⟩ ∧ checkName name = .ok ()

theorem Opens.mono (h : ∀ l, t.get? l = some .directory → t'.get? l = some .directory)
    (hp : t.Opens p) : t'.Opens p := by
  obtain ⟨directory, name, hfollow, hname⟩ := hp
  exact ⟨directory, name, follow_mono h hfollow, hname⟩

theorem Opens.read (hp : t.Opens p) {content : Bytes}
    (h : t.get? p.location = some (.file content)) : t.read p = .ok content := by
  obtain ⟨directory, name, hfollow, hname⟩ := hp
  unfold FileTree.read FileTree.find
  rw [hfollow, ok_bind, Target.checkName]
  dsimp only
  rw [hname, ok_bind, location_of_follow hfollow, h]
  rfl

theorem Opens.find_eq_notFound (hp : t.Opens p) (h : t.get? p.location = none) :
    t.find p = .error .notFound := by
  obtain ⟨directory, name, hfollow, hname⟩ := hp
  unfold FileTree.find
  rw [hfollow, ok_bind, Target.checkName]
  dsimp only
  rw [hname, ok_bind, location_of_follow hfollow, h]
  rfl

/-! ## Files -/

/-- Writing a file sets its entry, which is no directory. -/
theorem write_eq_ok {content : Bytes} (h : t.write p content = .ok t') :
    t.Opens p ∧ t.get? p.location ≠ some .directory ∧
      t' = t.set p.location (.file content) := by
  unfold write at h
  obtain ⟨⟨directory, last, slash⟩, hfollow, h⟩ := bind_eq_ok h
  have hlocation := location_of_follow hfollow
  cases last with
  | dots => cases h
  | entry name =>
    cases slash with
    | true => cases h
    | false =>
      obtain ⟨_, hname, h⟩ := bind_eq_ok h
      rw [hlocation] at h
      split at h
      · cases h
      · rename_i hnode
        exact ⟨⟨directory, name, hfollow, hname⟩, hnode, (Except.ok.inj h).symm⟩

/-- A file that can be opened can be removed. -/
theorem Opens.remove (hp : t.Opens p) {content : Bytes}
    (h : t.get? p.location = some (.file content)) : t.remove p = .ok (t.erase p.location) := by
  obtain ⟨directory, name, hfollow, hname⟩ := hp
  unfold FileTree.remove
  rw [hfollow, ok_bind, Target.checkName]
  dsimp only
  rw [hname, ok_bind, location_of_follow hfollow, h]
  rfl

/-- Moving a file takes it away and sets it at its goal, which is no directory. -/
theorem rename_eq_ok {source target : Path} (h : t.rename source target = .ok t') :
    ∃ content, t.get? source.location = some (.file content) ∧ t.Opens target ∧
      t.get? target.location ≠ some .directory ∧
      t' = (t.erase source.location).set target.location (.file content) := by
  unfold rename at h
  obtain ⟨⟨directory, last, slash⟩, hsource, h⟩ := bind_eq_ok h
  obtain ⟨⟨directory', last', slash'⟩, htarget, h⟩ := bind_eq_ok h
  have hfrom := location_of_follow hsource
  have hto := location_of_follow htarget
  cases last with
  | dots => cases h
  | entry name =>
    cases last' with
    | dots => cases h
    | entry name' =>
      obtain ⟨_, -, h⟩ := bind_eq_ok h
      rw [hfrom] at h
      split at h
      · cases h
      · cases h
      · rename_i node hfile hnode
        obtain ⟨_, hname, h⟩ := bind_eq_ok h
        dsimp only at h
        split at h
        · cases h
        · rename_i hslash
          have hslash : slash' = false := by simp_all
          rw [hto] at h
          split at h
          · cases h
          · rename_i hgoal
            cases node with
            | directory => exact absurd rfl hfile
            | file content =>
              rw [hslash] at htarget
              exact ⟨content, hnode, ⟨directory', name', htarget, hname⟩, hgoal,
                (Except.ok.inj h).symm⟩

end Packwright.FileTree
