import Packwright.Proofs.JsonTokens

/-
  Texts of JSON documents. The reader makes a document of its tokens exactly if no more brackets
  are open at once than it allows (`takes`).

  `parse?_chars`: a document is read back from its text, if its numbers are integers of 64 bits and
  its brackets are not too many. `depth_le_of_parse?`: in what is read they never are.
-/

namespace Packwright

namespace Json

/-! ## Documents of tokens -/

/-- A number of open brackets that is allowed. -/
def Fits (limit : Option Nat) (n : Nat) : Prop := limit.all (n ≤ ·) = true

instance (limit : Option Nat) (n : Nat) : Decidable (Fits limit n) :=
  inferInstanceAs (Decidable (limit.all (n ≤ ·) = true))

theorem fits_none (n : Nat) : Fits none n := rfl

theorem fits_some {limit n : Nat} : Fits (some limit) n ↔ n ≤ limit := by
  simp [Fits]

theorem Fits.mono {limit : Option Nat} {m n : Nat} (h : Fits limit n) (hmn : m ≤ n) :
    Fits limit m := by
  cases limit with
  | none => exact fits_none m
  | some limit => exact fits_some.2 (Nat.le_trans hmn (fits_some.1 h))

theorem fits_max {limit : Option Nat} {k m n : Nat} :
    Fits limit (k + max m n) ↔ Fits limit (k + m) ∧ Fits limit (k + n) := by
  cases limit with
  | none => simp [fits_none]
  | some limit =>
    rw [fits_some, fits_some, fits_some]
    omega

namespace Reader

/-- The reader takes a document where a value may stand, unless it is too deep there. -/
def Takes (limit : Option Nat) (v : Json) : Prop :=
  ∀ stack e, e = .value ∨ e = .valueOrClose → Fits limit stack.length →
    v.toTokens.foldlM (step limit) ⟨stack, e⟩ =
      if Fits limit (stack.length + v.depth) then complete stack v else none

theorem bind_guard {α β : Type} {P : Prop} [Decidable P] (a : α) (f : α → Option β) :
    ((if P then some a else none) >>= f) = if P then f a else none := by
  split
  · rfl
  · rfl

/-- What is behind two depths is there if the larger one is allowed. -/
theorem guard_max {α : Type} {limit : Option Nat} {k m n : Nat} (x : Option α) :
    (if Fits limit (k + max m n) then x else none) =
      if Fits limit (k + m) then if Fits limit (k + n) then x else none else none := by
  simp only [fits_max, ite_and]

/-- A token that is a whole value. -/
theorem takes_scalar {limit : Option Nat} {v : Json} {t : Token} (ht : v.toTokens = [t])
    (hv : v.depth = 0) (h : ∀ stack, openValue limit stack t = complete stack v)
    (hclose : t ≠ .closeBracket) : Takes limit v := by
  intro stack e he hfits
  have hstep : step limit ⟨stack, e⟩ t = complete stack v := by
    rw [← h stack]
    rcases he with rfl | rfl
    · cases t with
      | _ => rfl
    · cases t with
      | closeBracket => exact absurd rfl hclose
      | _ => rfl
  rw [ht, hv, Nat.add_zero, if_pos hfits, List.foldlM_cons, hstep]
  exact bind_pure _

/-- A container: a bracket, and then what it holds and the bracket that closes it. -/
theorem takes_container {limit : Option Nat} {v : Json} {t : Token} {body : List Token}
    {f : Frame} {first : Expect} {inner : Nat} (ht : v.toTokens = t :: body)
    (hv : v.depth = inner + 1)
    (hopen : ∀ stack, openValue limit stack t = push limit stack f first)
    (hclose : t ≠ .closeBracket) (hbody : ∀ stack : List Frame, Fits limit (stack.length + 1) →
      body.foldlM (step limit) ⟨f :: stack, first⟩ =
        if Fits limit (stack.length + 1 + inner) then complete stack v else none) :
    Takes limit v := by
  intro stack e he _
  have hstep : step limit ⟨stack, e⟩ t =
      if Fits limit (stack.length + 1) then some ⟨f :: stack, first⟩ else none := by
    have hpush : openValue limit stack t =
        if Fits limit (stack.length + 1) then some ⟨f :: stack, first⟩ else none := hopen stack
    rw [← hpush]
    rcases he with rfl | rfl
    · cases t with
      | _ => rfl
    · cases t with
      | closeBracket => exact absurd rfl hclose
      | _ => rfl
  have hdepth : stack.length + v.depth = stack.length + 1 + inner := by omega
  rw [ht, List.foldlM_cons, hstep, bind_guard, hdepth]
  by_cases hfits : Fits limit (stack.length + 1)
  · rw [if_pos hfits, hbody stack hfits]
  · rw [if_neg hfits, if_neg fun hall => hfits (hall.mono (Nat.le_add_right _ _))]

/-- The further items of an array, each behind a comma. -/
theorem foldlM_itemTokens {limit : Option Nat} {items : List Json}
    (h : ∀ v ∈ items, Takes limit v) {stack : List Frame} (hfits : Fits limit (stack.length + 1))
    (acc : List Json) :
    (itemTokens items).foldlM (step limit) ⟨.array acc :: stack, .next⟩ =
      if Fits limit (stack.length + 1 + itemsDepth items) then
        some ⟨.array (items.reverse ++ acc) :: stack, .next⟩ else none := by
  induction items generalizing acc with
  | nil => rw [itemsDepth, Nat.add_zero, if_pos hfits]; rfl
  | cons v rest ih =>
    obtain ⟨hv, hrest⟩ := List.forall_mem_cons.1 h
    have hcomma : (itemTokens (v :: rest)).foldlM (step limit) ⟨.array acc :: stack, .next⟩ =
        (toTokens v ++ itemTokens rest).foldlM (step limit) ⟨.array acc :: stack, .value⟩ := rfl
    rw [hcomma, List.foldlM_append, hv (.array acc :: stack) _ (.inl rfl) hfits]
    simp only [complete, bind_guard, ih hrest, itemsDepth, guard_max, List.length_cons,
      List.reverse_cons, List.append_assoc, List.singleton_append]

/-- The further members of an object, each behind a comma. -/
theorem foldlM_memberTokens {limit : Option Nat} {members : List (String × Json)}
    (h : ∀ m ∈ members, Takes limit m.2) {stack : List Frame}
    (hfits : Fits limit (stack.length + 1)) (acc : List (String × Json)) :
    (memberTokens members).foldlM (step limit) ⟨.object (some acc) :: stack, .next⟩ =
      if Fits limit (stack.length + 1 + membersDepth members) then
        some ⟨.object (some (members.reverse ++ acc)) :: stack, .next⟩ else none := by
  induction members generalizing acc with
  | nil => rw [membersDepth, Nat.add_zero, if_pos hfits]; rfl
  | cons m rest ih =>
    obtain ⟨key, v⟩ := m
    obtain ⟨hv, hrest⟩ := List.forall_mem_cons.1 h
    have hkey : (memberTokens ((key, v) :: rest)).foldlM (step limit)
          ⟨.object (some acc) :: stack, .next⟩ =
        (toTokens v ++ memberTokens rest).foldlM (step limit)
          ⟨.member (some acc) (some key) :: stack, .value⟩ := rfl
    have hmember : complete (.member (some acc) (some key) :: stack) v =
        some ⟨.object (some ((key, v) :: acc)) :: stack, .next⟩ := rfl
    rw [hkey, List.foldlM_append, hv (.member _ _ :: stack) _ (.inl rfl) hfits, hmember]
    simp only [bind_guard, ih hrest, membersDepth, guard_max, List.length_cons,
      List.reverse_cons, List.append_assoc, List.singleton_append]

theorem foldlM_closeBracket (limit : Option Nat) (stack : List Frame) (acc : List Json) :
    [Token.closeBracket].foldlM (step limit) ⟨.array acc :: stack, .next⟩ =
      complete stack (.arr acc.reverse) := by
  rw [List.foldlM_cons]
  exact bind_pure _

theorem foldlM_closeBrace (limit : Option Nat) (stack : List Frame)
    (acc : List (String × Json)) :
    [Token.closeBrace].foldlM (step limit) ⟨.object (some acc) :: stack, .next⟩ =
      complete stack (.obj acc.reverse) := by
  rw [List.foldlM_cons]
  exact bind_pure _

theorem takes_arr {limit : Option Nat} {items : List Json} (h : ∀ v ∈ items, Takes limit v) :
    Takes limit (.arr items) := by
  cases items with
  | nil =>
    refine takes_container rfl rfl (fun _ => rfl) nofun fun stack hfits => ?_
    rw [itemsDepth, Nat.add_zero, if_pos hfits, List.foldlM_cons]
    exact bind_pure _
  | cons v rest =>
    obtain ⟨hv, hrest⟩ := List.forall_mem_cons.1 h
    refine takes_container rfl rfl (fun _ => rfl) nofun fun stack hfits => ?_
    have hitem : complete (.array [] :: stack) v = some ⟨.array [v] :: stack, .next⟩ := rfl
    rw [List.append_assoc, List.foldlM_append, hv (.array [] :: stack) _ (.inr rfl) hfits, hitem]
    simp only [bind_guard, List.foldlM_append, foldlM_itemTokens hrest hfits, foldlM_closeBracket,
      itemsDepth, List.length_cons, List.reverse_append, List.reverse_reverse,
      List.reverse_singleton, List.singleton_append]
    exact (guard_max _).symm

theorem takes_obj {limit : Option Nat} {members : List (String × Json)}
    (h : ∀ m ∈ members, Takes limit m.2) : Takes limit (.obj members) := by
  cases members with
  | nil =>
    refine takes_container rfl rfl (fun _ => rfl) nofun fun stack hfits => ?_
    rw [membersDepth, Nat.add_zero, if_pos hfits, List.foldlM_cons]
    exact bind_pure _
  | cons m rest =>
    obtain ⟨key, v⟩ := m
    obtain ⟨hv, hrest⟩ := List.forall_mem_cons.1 h
    refine takes_container rfl rfl (fun _ => rfl) nofun fun stack hfits => ?_
    have hkey : ∀ body : List Token,
        (Token.str (some key) :: Token.colon :: body).foldlM (step limit)
          ⟨.object (some []) :: stack, .keyOrClose⟩ =
        body.foldlM (step limit) ⟨.member (some []) (some key) :: stack, .value⟩ := fun _ => rfl
    have hmember : complete (.member (some []) (some key) :: stack) v =
        some ⟨.object (some [(key, v)]) :: stack, .next⟩ := rfl
    rw [hkey, List.append_assoc, List.foldlM_append, hv (.member _ _ :: stack) _ (.inl rfl) hfits,
      hmember]
    simp only [bind_guard, List.foldlM_append, foldlM_memberTokens hrest hfits, foldlM_closeBrace,
      membersDepth, List.length_cons, List.reverse_append, List.reverse_reverse,
      List.reverse_singleton, List.singleton_append]
    exact (guard_max _).symm

/-- The reader takes every document, unless it is too deep. -/
theorem takes (limit : Option Nat) (v : Json) : Takes limit v := by
  induction v with
  | null => exact takes_scalar rfl rfl (fun _ => rfl) nofun
  | bool b => exact takes_scalar rfl rfl (fun _ => rfl) nofun
  | int n => exact takes_scalar rfl rfl (fun _ => rfl) nofun
  | real literal => exact takes_scalar rfl rfl (fun _ => rfl) nofun
  | str s => exact takes_scalar rfl rfl (fun _ => rfl) nofun
  | arr items ih => exact takes_arr ih
  | obj members ih => exact takes_obj ih
  | flawed => exact takes_scalar rfl rfl (fun _ => rfl) nofun

end Reader

theorem ofTokens?_toTokens (limit : Option Nat) (v : Json) :
    ofTokens? limit v.toTokens = if Fits limit v.depth then some v else none := by
  have htakes := Reader.takes limit v [] .value (.inl rfl)
    (by cases limit with
      | none => rfl
      | some limit => exact fits_some.2 (Nat.zero_le limit))
  have hinitial : v.toTokens.foldlM (Reader.step limit) Reader.initial =
      if Fits limit v.depth then some ⟨[], .done v⟩ else none := by
    simpa [Reader.complete, Reader.initial] using htakes
  rw [ofTokens?, hinitial, Reader.bind_guard]
  rfl

/-- A document whose text determines it is read back from the text, however it is laid out, unless
more brackets are open in it than are allowed. -/
theorem parse?_chars {style : Style} (hstyle : style.Lawful) (limit : Option Nat) {v : Json}
    (hv : Exact v) :
    parse? limit (String.ofList (v.chars style 0)) =
      if Fits limit v.depth then some v else none := by
  rw [parse?, String.toList_ofList, (lexes_chars hstyle hv 0).tokens?]
  exact ofTokens?_toTokens limit v

theorem read?_compact {v : Json} (hv : Exact v) :
    read? v.compact = if v.depth ≤ nestingLimit then some v else none := by
  rw [read?, compact, parse?_chars Style.lawful_compact _ hv]
  simp only [fits_some]
  split
  · simp [Option.filter, hv.isSound]
  · rfl

theorem parse?_pretty {v : Json} (hv : Exact v) : parse? none v.pretty = some v := by
  rw [pretty, parse?_chars Style.lawful_pretty _ hv]
  exact if_pos (fits_none _)

/-! ## The depth of what is read -/

namespace Reader

/-- What an open container holds is not too deep, if so many brackets are open with it. -/
def FrameFits (limit : Option Nat) (height : Nat) : Frame → Prop
  | .array items => ∀ v ∈ items, Fits limit (height + v.depth)
  | .object members | .member members _ =>
    ∀ ms, members = some ms → ∀ m ∈ ms, Fits limit (height + m.2.depth)

/-- No more containers are open than are allowed, and what they hold is not too deep. -/
def StackFits (limit : Option Nat) : List Frame → Prop
  | [] => True
  | f :: rest =>
    Fits limit (rest.length + 1) ∧ FrameFits limit (rest.length + 1) f ∧ StackFits limit rest

/-- Nothing that was read so far is too deep. -/
def Allowed (limit : Option Nat) (r : Reader) : Prop :=
  StackFits limit r.stack ∧ ∀ v, r.expect = .done v → Fits limit v.depth

theorem allowed_complete {limit : Option Nat} {stack : List Frame} {v : Json} {r : Reader}
    (hstack : StackFits limit stack) (hv : Fits limit (stack.length + v.depth))
    (h : complete stack v = some r) : Allowed limit r := by
  cases stack with
  | nil =>
    obtain rfl := Option.some.inj h
    refine ⟨trivial, fun w hw => ?_⟩
    cases hw
    simpa using hv
  | cons f rest =>
    obtain ⟨hheight, hframe, hrest⟩ := hstack
    cases f with
    | array items =>
      obtain rfl := Option.some.inj h
      exact ⟨⟨hheight, List.forall_mem_cons.2 ⟨hv, hframe⟩, hrest⟩, nofun⟩
    | object members => cases h
    | member members key =>
      obtain rfl := Option.some.inj h
      refine ⟨⟨hheight, fun ms hms => ?_, hrest⟩, nofun⟩
      obtain ⟨k, -, hms⟩ := Option.bind_eq_some_iff.1 hms
      obtain ⟨before, hbefore, hms⟩ := Option.bind_eq_some_iff.1 hms
      obtain rfl := Option.some.inj hms
      exact List.forall_mem_cons.2 ⟨hv, hframe before hbefore⟩

theorem fits_itemsDepth {limit : Option Nat} {k : Nat} {items : List Json} (hk : Fits limit k)
    (h : ∀ v ∈ items, Fits limit (k + v.depth)) : Fits limit (k + itemsDepth items) := by
  induction items with
  | nil => simpa [itemsDepth] using hk
  | cons v rest ih =>
    obtain ⟨hv, hrest⟩ := List.forall_mem_cons.1 h
    exact fits_max.2 ⟨hv, ih hrest⟩

theorem fits_membersDepth {limit : Option Nat} {k : Nat} {members : List (String × Json)}
    (hk : Fits limit k) (h : ∀ m ∈ members, Fits limit (k + m.2.depth)) :
    Fits limit (k + membersDepth members) := by
  induction members with
  | nil => simpa [membersDepth] using hk
  | cons m rest ih =>
    obtain ⟨hm, hrest⟩ := List.forall_mem_cons.1 h
    exact fits_max.2 ⟨hm, ih hrest⟩

theorem allowed_closeArray {limit : Option Nat} {stack : List Frame} {r : Reader}
    (hstack : StackFits limit stack) (h : closeArray stack = some r) : Allowed limit r := by
  unfold closeArray at h
  split at h
  · rename_i items rest
    obtain ⟨hheight, hframe, hrest⟩ := hstack
    refine allowed_complete hrest ?_ h
    have hdeep : Fits limit (rest.length + 1 + itemsDepth items.reverse) :=
      fits_itemsDepth hheight fun v hv => hframe v (List.mem_reverse.1 hv)
    rwa [Nat.add_right_comm, Nat.add_assoc] at hdeep
  · cases h

theorem allowed_closeObject {limit : Option Nat} {stack : List Frame} {r : Reader}
    (hstack : StackFits limit stack) (h : closeObject stack = some r) : Allowed limit r := by
  unfold closeObject at h
  split at h
  · rename_i members rest
    obtain ⟨hheight, hframe, hrest⟩ := hstack
    refine allowed_complete hrest ?_ h
    have hdeep : Fits limit (rest.length + 1 + membersDepth members.reverse) :=
      fits_membersDepth hheight fun m hm => hframe members rfl m (List.mem_reverse.1 hm)
    rwa [Nat.add_right_comm, Nat.add_assoc] at hdeep
  · rename_i rest
    obtain ⟨hheight, -, hrest⟩ := hstack
    exact allowed_complete hrest (hheight.mono (Nat.le_succ _)) h
  · cases h

theorem allowed_openValue {limit : Option Nat} {stack : List Frame} {t : Token} {r : Reader}
    (hstack : StackFits limit stack) (hfits : Fits limit stack.length) (ht : t.IsFlat)
    (h : openValue limit stack t = some r) : Allowed limit r := by
  have hscalar : ∀ v : Json, v.depth = 0 → complete stack v = some r → Allowed limit r :=
    fun v hv hcomplete => allowed_complete hstack (by rwa [hv]) hcomplete
  have hpush : ∀ f e, FrameFits limit (stack.length + 1) f → (∀ v, e ≠ .done v) →
      push limit stack f e = some r → Allowed limit r := by
    intro f e hf he hpush
    unfold push at hpush
    split at hpush
    · rename_i hroom
      obtain rfl := Option.some.inj hpush
      exact ⟨⟨hroom, hf, hstack⟩, fun v hv => absurd hv (he v)⟩
    · cases hpush
  cases t with
  | str s =>
    cases s with
    | none => exact hscalar .flawed rfl h
    | some s => exact hscalar (.str s) rfl h
  | scalar v => exact hscalar v ht h
  | openBracket =>
    exact hpush (.array []) .valueOrClose (fun _ hmem => absurd hmem List.not_mem_nil) nofun h
  | openBrace =>
    refine hpush (.object (some [])) .keyOrClose (fun ms hms m hm => ?_) nofun h
    cases hms
    exact absurd hm List.not_mem_nil
  | _ => cases h

theorem StackFits.height {limit : Option Nat} {stack : List Frame} (h : StackFits limit stack) :
    Fits limit stack.length := by
  cases stack with
  | nil =>
    cases limit with
    | none => rfl
    | some limit => exact fits_some.2 (Nat.zero_le limit)
  | cons f rest => exact h.1

/-- One token leaves everything within the limit. -/
theorem allowed_step {limit : Option Nat} {r r' : Reader} {t : Token} (h : Allowed limit r)
    (ht : t.IsFlat) (hstep : step limit r t = some r') : Allowed limit r' := by
  obtain ⟨stack, e⟩ := r
  obtain ⟨hstack, -⟩ := h
  change StackFits limit stack at hstack
  have hkeep : ∀ e, (∀ v, e ≠ .done v) → some (⟨stack, e⟩ : Reader) = some r' →
      Allowed limit r' := by
    rintro e he ⟨⟩
    exact ⟨hstack, fun v hv => absurd hv (he v)⟩
  unfold step at hstep
  dsimp only at hstep
  split at hstep
  · exact allowed_closeArray hstack hstep
  · exact allowed_openValue hstack hstack.height ht hstep
  · exact allowed_openValue hstack hstack.height ht hstep
  · exact allowed_closeObject hstack hstep
  · exact hkeep (.colon _) nofun hstep
  · exact hkeep (.colon _) nofun hstep
  · split at hstep
    · obtain rfl := Option.some.inj hstep
      exact ⟨hstack, nofun⟩
    · cases hstep
  · split at hstep
    · exact hkeep .value nofun hstep
    · exact hkeep .key nofun hstep
    · cases hstep
  · exact allowed_closeArray hstack hstep
  · exact allowed_closeObject hstack hstep
  · cases hstep

end Reader

/-- What is read has no more brackets open at once than are allowed. -/
theorem depth_le_of_parse? {limit : Nat} {text : String} {v : Json}
    (h : parse? (some limit) text = some v) : v.depth ≤ limit := by
  obtain ⟨tokens, htokens, h⟩ := Option.bind_eq_some_iff.1 h
  obtain ⟨r, hrun, hresult⟩ := Option.bind_eq_some_iff.1 h
  have hinitial : Reader.Allowed (some limit) .initial := ⟨trivial, nofun⟩
  have hallowed : Reader.Allowed (some limit) r :=
    foldlM_invariant (Q := Token.IsFlat) (fun _ _ _ hr ht => Reader.allowed_step hr ht)
      (isFlat_of_tokens? htokens) hinitial hrun
  unfold Reader.result? at hresult
  split at hresult
  · rename_i w hdone
    obtain rfl := Option.some.inj hresult
    exact fits_some.1 (hallowed.2 w hdone)
  · cases hresult

theorem depth_le_of_read? {text : String} {v : Json} (h : read? text = some v) :
    v.depth ≤ nestingLimit :=
  depth_le_of_parse? (Option.filter_eq_some_iff.1 h).1

end Json

end Packwright
