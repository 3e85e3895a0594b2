import PieLab.Tui.OverlayFocus

/-
  The links between overlays

  Every overlay remembers the component that had the focus when it was shown. What is kept
  about these links, and about the target an `unfocus` has asked for, while overlays are
  hidden, shown and removed.

  What is proved:
    1. `Linked.visible` — a visible overlay of the stack is neither hidden nor removed.
    2. `topmost_none`, `topmost_some` — what the frontmost overlay is.
    3. `Linked.without` — removing an overlay bends the links to it so that none leads to a
       removed one.
-/

namespace PieLab.Tui.TUI
variable {κ : Type} {s t : TUI κ}

/-! ## Hidden and removed overlays -/

def isHidden (s : TUI κ) (overlay : Nat) : Bool :=
  s.entries[overlay]?.any OverlayStackEntry.hidden

/-- The component of an overlay that is hidden. -/
def Hidden (s : TUI κ) (component : κ) : Prop :=
  ∃ overlay, s.componentOf overlay = some component ∧ s.isHidden overlay = true

/-- The component of an overlay that is no longer on the stack. -/
def Removed (s : TUI κ) (component : κ) : Prop :=
  ∃ overlay, s.componentOf overlay = some component ∧ overlay ∉ s.overlayStack

def Gone (s : TUI κ) (component : κ) : Prop := s.Hidden component ∨ s.Removed component

/-- The target that an `unfocus` asked to go to when the blocker lets the focus go. -/
def pendingTarget (s : TUI κ) : Option (Option κ) :=
  match s.overlayFocusRestore with
  | .blocked _ _ (.focusTarget target) => some target
  | _ => none

/-- The components, links and flags of the overlays, and the stack, are the same. -/
structure Alike (s t : TUI κ) : Prop where
  component : ∀ overlay, t.componentOf overlay = s.componentOf overlay
  preFocus : ∀ overlay, t.preFocusOf overlay = s.preFocusOf overlay
  hidden : ∀ overlay, t.isHidden overlay = s.isHidden overlay
  stack : t.overlayStack = s.overlayStack

theorem alike_of_entries (hentries : t.entries = s.entries)
    (hstack : t.overlayStack = s.overlayStack) : Alike s t where
  component overlay := by rw [componentOf, componentOf, hentries]
  preFocus overlay := by rw [preFocusOf, preFocusOf, hentries]
  hidden overlay := by rw [isHidden, isHidden, hentries]
  stack := hstack

theorem removed_congr (hcomponent : ∀ overlay, t.componentOf overlay = s.componentOf overlay)
    (hstack : t.overlayStack = s.overlayStack) (c : κ) : t.Removed c ↔ s.Removed c := by
  simp only [Removed, hcomponent, hstack]

theorem Alike.gone (h : Alike s t) (c : κ) : t.Gone c ↔ s.Gone c := by
  simp only [Gone, Hidden, h.component, h.hidden, removed_congr h.component h.stack]

theorem Alike.removed (h : Alike s t) (c : κ) : t.Removed c ↔ s.Removed c :=
  removed_congr h.component h.stack c

theorem Alike.trans {u : TUI κ} (h : Alike s t) (h' : Alike t u) : Alike s u where
  component overlay := by rw [h'.component, h.component]
  preFocus overlay := by rw [h'.preFocus, h.preFocus]
  hidden overlay := by rw [h'.hidden, h.hidden]
  stack := by rw [h'.stack, h.stack]

/-! ## The invariant -/

/-- What holds of the overlays: they have components of their own, no link leads to a
removed one, and the pending target is none that is hidden or removed. -/
structure Linked (s : TUI κ) : Prop where
  distinct : ∀ {overlay overlay' : Nat} {c : κ}, s.componentOf overlay = some c →
    s.componentOf overlay' = some c → overlay = overlay'
  links : ∀ {overlay : Nat} {c : κ}, overlay ∈ s.overlayStack → s.preFocusOf overlay = some c →
    ¬ s.Removed c
  target : ∀ {c : κ}, s.pendingTarget = some (some c) → ¬ s.Gone c

/-- And no removed overlay has the focus. A hidden one may. -/
structure Intact (s : TUI κ) : Prop extends Linked s where
  focus : ∀ {c : κ}, s.focusedComponent = some c → ¬ s.Removed c

theorem isHidden_of_visible {overlay : Nat} (h : s.isOverlayVisible overlay = true) :
    s.isHidden overlay = false := by
  rw [isHidden]
  rw [isOverlayVisible] at h
  cases hentry : s.entries[overlay]? with
  | none => rfl
  | some entry =>
    rw [hentry, Option.any_some, isEntryVisible] at h
    rw [Option.any_some]
    cases hhidden : entry.hidden with
    | false => rfl
    | true =>
      rw [hhidden] at h
      cases h

theorem Linked.stacked (h : s.Linked) {overlay : Nat} {c : κ} (hmem : overlay ∈ s.overlayStack)
    (hc : s.componentOf overlay = some c) : ¬ s.Removed c := by
  rintro ⟨overlay', hc', hnot⟩
  rw [h.distinct hc' hc] at hnot
  exact hnot hmem

/-- A visible overlay of the stack is neither hidden nor removed. -/
theorem Linked.visible (h : s.Linked) {overlay : Nat} {c : κ} (hmem : overlay ∈ s.overlayStack)
    (hvisible : s.isOverlayVisible overlay = true) (hc : s.componentOf overlay = some c) :
    ¬ s.Gone c := by
  rintro (⟨overlay', hc', hhidden⟩ | hremoved)
  · rw [h.distinct hc' hc, isHidden_of_visible hvisible] at hhidden
    cases hhidden
  · exact h.stacked hmem hc hremoved

theorem Linked.update (h : s.Linked)
    (hcomponent : ∀ overlay, t.componentOf overlay = s.componentOf overlay)
    (hpreFocus : ∀ overlay, t.preFocusOf overlay = s.preFocusOf overlay)
    (hstack : t.overlayStack = s.overlayStack)
    (htarget : ∀ c, t.pendingTarget = some (some c) →
      s.pendingTarget = some (some c) ∧ ¬ t.Hidden c) : t.Linked where
  distinct hc hc' := by
    rw [hcomponent] at hc hc'
    exact h.distinct hc hc'
  links hmem hc := by
    rw [hstack] at hmem
    rw [hpreFocus] at hc
    rw [removed_congr hcomponent hstack]
    exact h.links hmem hc
  target hc := by
    obtain ⟨hpending, hhidden⟩ := htarget _ hc
    rintro (hgone | hremoved)
    · exact hhidden hgone
    · rw [removed_congr hcomponent hstack] at hremoved
      exact h.target hpending (.inr hremoved)

theorem Linked.alike (h : s.Linked) (halike : Alike s t)
    (hpending : t.pendingTarget = none ∨ t.pendingTarget = s.pendingTarget) : t.Linked := by
  apply h.update halike.component halike.preFocus halike.stack
  intro c hc
  rcases hpending with hnone | hsame
  · rw [hnone] at hc
    cases hc
  · rw [hsame] at hc
    refine ⟨hc, ?_⟩
    intro hhidden
    exact h.target hc ((halike.gone c).mp (.inl hhidden))

/-! ## The frontmost overlay -/

theorem frontmost_some {overlay : Nat} {topmost : Option Nat}
    (h : s.frontmost topmost overlay = none) :
    topmost = none ∧ (s.isNonCapturing overlay = true ∨ s.isOverlayVisible overlay = false) := by
  unfold frontmost at h
  split at h
  · rename_i hskip
    exact ⟨h, by simpa using hskip⟩
  · cases topmost with
    | none => cases h
    | some top =>
      dsimp only at h
      split at h <;> cases h

/-- Without a frontmost overlay every overlay of the stack is invisible or leaves the focus
alone. -/
theorem topmost_none (h : s.getTopmostVisibleOverlay = none) {overlay : Nat}
    (hmem : overlay ∈ s.overlayStack) :
    s.isNonCapturing overlay = true ∨ s.isOverlayVisible overlay = false := by
  unfold getTopmostVisibleOverlay at h
  generalize s.overlayStack = stack at h hmem
  have hall : ∀ topmost, stack.foldl s.frontmost topmost = none →
      topmost = none ∧ ∀ overlay ∈ stack,
        s.isNonCapturing overlay = true ∨ s.isOverlayVisible overlay = false := by
    clear h hmem
    induction stack with
    | nil => exact fun topmost h => ⟨h, by simp⟩
    | cons first rest ih =>
      intro topmost h
      have hrest := ih _ h
      have hfirst := frontmost_some hrest.1
      exact ⟨hfirst.1, List.forall_mem_cons.mpr ⟨hfirst.2, hrest.2⟩⟩
  exact (hall none h).2 overlay hmem

theorem topmost_some {top : Nat} (h : s.getTopmostVisibleOverlay = some top) :
    top ∈ s.overlayStack ∧ s.isOverlayVisible top = true := by
  unfold getTopmostVisibleOverlay at h
  have hall : ∀ (stack : List Nat) (topmost : Option Nat),
      stack.foldl s.frontmost topmost = some top →
        topmost = some top ∨ top ∈ stack ∧ s.isOverlayVisible top = true := by
    intro stack
    induction stack with
    | nil => exact fun topmost h => .inl h
    | cons first rest ih =>
      intro topmost h
      rcases ih _ h with hfirst | hrest
      · unfold frontmost at hfirst
        split at hfirst
        · exact .inl hfirst
        · rename_i hvisible
          have hvis : s.isOverlayVisible first = true := by
            simp only [Bool.or_eq_true, not_or] at hvisible
            simpa using hvisible.2
          cases topmost with
          | none =>
            cases hfirst
            exact .inr ⟨List.mem_cons_self, hvis⟩
          | some old =>
            dsimp only at hfirst
            split at hfirst
            · cases hfirst
              exact .inr ⟨List.mem_cons_self, hvis⟩
            · exact .inl hfirst
      · exact .inr ⟨List.mem_cons_of_mem _ hrest.1, hrest.2⟩
  exact (hall _ _ h).resolve_left (by simp)

theorem Intact.focused_stacked (h : s.Intact) {overlay : Nat} {c : κ}
    (hc : s.componentOf overlay = some c) (hfocused : s.focusedComponent = s.componentOf overlay) :
    overlay ∈ s.overlayStack := by
  by_contra hnot
  exact h.focus (by rw [hfocused, hc]) ⟨overlay, hc, hnot⟩

theorem Linked.fallbackTarget (h : s.Linked) {overlay : Nat} (hmem : overlay ∈ s.overlayStack)
    {c : κ} (hc : s.fallbackTarget overlay = some c) : ¬ s.Removed c := by
  unfold TUI.fallbackTarget at hc
  cases htop : s.getTopmostVisibleOverlay with
  | none =>
    rw [htop] at hc
    exact h.links hmem hc
  | some top =>
    rw [htop] at hc
    dsimp only at hc
    split at hc
    · exact h.stacked (topmost_some htop).1 hc
    · exact h.links hmem hc

/-! ## Giving up the restore state -/

theorem clearFor_cases (s : TUI κ) (overlay : Nat) :
    s.clearOverlayFocusRestoreFor overlay = s ∨
      s.clearOverlayFocusRestoreFor overlay = s.clearOverlayFocusRestore := by
  unfold clearOverlayFocusRestoreFor
  split
  · exact .inr rfl
  · exact .inl rfl

theorem Linked.clear (h : s.Linked) : s.clearOverlayFocusRestore.Linked :=
  h.alike (alike_of_entries rfl rfl) (.inl rfl)

theorem Intact.clearFor (h : s.Intact) (overlay : Nat) :
    (s.clearOverlayFocusRestoreFor overlay).Intact := by
  rcases s.clearFor_cases overlay with he | he
  · rw [he]
    exact h
  · rw [he]
    exact ⟨h.toLinked.clear, h.focus⟩

/-! ## Showing an overlay -/

theorem shown_cases {entries : List (OverlayStackEntry κ)} {entry found : OverlayStackEntry κ}
    {overlay : Nat} (h : (entries ++ [entry])[overlay]? = some found) :
    entries[overlay]? = some found ∨ overlay = entries.length ∧ found = entry := by
  rcases Nat.lt_trichotomy overlay entries.length with hlt | heq | hgt
  · rw [List.getElem?_append_left hlt] at h
    exact .inl h
  · subst heq
    rw [List.getElem?_concat_length] at h
    exact .inr ⟨rfl, (Option.some.inj h).symm⟩
  · rw [List.getElem?_eq_none (by simp; omega)] at h
    cases h

section Shown
variable {entry : OverlayStackEntry κ} {overlay : Nat} {c : κ}

theorem componentOf_push (h : (s.pushEntry entry).componentOf overlay = some c) :
    s.componentOf overlay = some c ∨ overlay = s.entries.length ∧ c = entry.component := by
  obtain ⟨found, hfound, rfl⟩ := Option.map_eq_some_iff.mp h
  rcases shown_cases hfound with hold | ⟨hnew, rfl⟩
  · exact .inl (by rw [componentOf, hold]; rfl)
  · exact .inr ⟨hnew, rfl⟩

theorem preFocusOf_push (h : (s.pushEntry entry).preFocusOf overlay = some c) :
    s.preFocusOf overlay = some c ∨ overlay = s.entries.length ∧ entry.preFocus = some c := by
  obtain ⟨found, hfound, hc⟩ := Option.bind_eq_some_iff.mp h
  rcases shown_cases hfound with hold | ⟨hnew, rfl⟩
  · exact .inl (by rw [preFocusOf, hold]; exact hc)
  · exact .inr ⟨hnew, hc⟩

theorem removed_push (h : (s.pushEntry entry).Removed c) : s.Removed c := by
  obtain ⟨overlay, hc, hnot⟩ := h
  rcases componentOf_push hc with hold | ⟨hnew, _⟩
  · exact ⟨overlay, hold, fun hmem => hnot (List.mem_append_left _ hmem)⟩
  · exact absurd (List.mem_append_right _ (List.mem_singleton.mpr hnew)) hnot

theorem hidden_push (hentry : entry.hidden = false) (h : (s.pushEntry entry).Hidden c) :
    s.Hidden c := by
  obtain ⟨overlay, hc, hhidden⟩ := h
  rw [isHidden, Option.any_eq_true] at hhidden
  obtain ⟨found, hfound, hflag⟩ := hhidden
  rcases shown_cases hfound with hold | ⟨_, rfl⟩
  · refine ⟨overlay, ?_, by rw [isHidden, hold]; exact hflag⟩
    rw [componentOf, hfound] at hc
    rw [componentOf, hold]
    exact hc
  · rw [hentry] at hflag
    cases hflag

theorem Intact.pushEntry (h : s.Intact)
    (hfresh : ∀ other, s.componentOf other ≠ some entry.component)
    (hfocus : entry.preFocus = s.focusedComponent) (hhidden : entry.hidden = false) :
    (s.pushEntry entry).Intact where
  distinct hc hc' := by
    rcases componentOf_push hc with hold | ⟨hnew, rfl⟩
    · rcases componentOf_push hc' with hold' | ⟨_, rfl⟩
      · exact h.distinct hold hold'
      · exact absurd hold (hfresh _)
    · rcases componentOf_push hc' with hold' | ⟨hnew', _⟩
      · exact absurd hold' (hfresh _)
      · rw [hnew, hnew']
  links hmem hc hremoved := by
    rcases preFocusOf_push hc with hold | ⟨_, hentry⟩
    · rcases List.mem_append.mp hmem with hmem | hmem
      · exact h.links hmem hold (removed_push hremoved)
      · -- there is no entry at the new place before
        rw [List.mem_singleton.mp hmem, preFocusOf, List.getElem?_eq_none (by omega)] at hold
        cases hold
    · exact h.focus (by rw [← hfocus, hentry]) (removed_push hremoved)
  target hc hgone := by
    rcases hgone with hgone | hremoved
    · exact h.target hc (.inl (hidden_push hhidden hgone))
    · exact h.target hc (.inr (removed_push hremoved))
  focus hc hremoved := h.focus hc (removed_push hremoved)

end Shown

/-! ## Updating an entry -/

section Update
variable {f : OverlayStackEntry κ → OverlayStackEntry κ}

theorem entry_update (overlay other : Nat) :
    (s.updateEntry overlay f).entries[other]? =
      if overlay = other then s.entries[other]?.map f else s.entries[other]? := by
  rw [updateEntry, List.getElem?_modify]
  by_cases h : overlay = other
  · rw [if_pos h]
    simp [h]
  · rw [if_neg h]
    simp [h]

theorem componentOf_update (hf : ∀ entry, (f entry).component = entry.component)
    (overlay other : Nat) : (s.updateEntry overlay f).componentOf other = s.componentOf other := by
  rw [componentOf, entry_update, componentOf]
  split
  · cases s.entries[other]? with
    | none => rfl
    | some entry => exact congrArg some (hf entry)
  · rfl

theorem preFocusOf_update (hf : ∀ entry, (f entry).preFocus = entry.preFocus)
    (overlay other : Nat) : (s.updateEntry overlay f).preFocusOf other = s.preFocusOf other := by
  rw [preFocusOf, entry_update, preFocusOf]
  split
  · cases s.entries[other]? with
    | none => rfl
    | some entry => exact hf entry
  · rfl

theorem isHidden_update_ne {overlay other : Nat} (h : overlay ≠ other) :
    (s.updateEntry overlay f).isHidden other = s.isHidden other := by
  rw [isHidden, entry_update, if_neg h, isHidden]

end Update

theorem bringToFront_alike (s : TUI κ) (overlay : Nat) : Alike s (s.bringToFront overlay) where
  component other := by
    show (s.updateEntry overlay _).componentOf other = s.componentOf other
    apply componentOf_update
    exact fun _ => rfl
  preFocus other := by
    show (s.updateEntry overlay _).preFocusOf other = s.preFocusOf other
    apply preFocusOf_update
    exact fun _ => rfl
  hidden other := by
    show (s.updateEntry overlay _).isHidden other = s.isHidden other
    rw [isHidden, entry_update, isHidden]
    split
    · cases s.entries[other]? <;> rfl
    · rfl
  stack := rfl

theorem componentOf_setFlag (overlay other : Nat) (hidden : Bool) :
    (s.updateEntry overlay fun entry => { entry with hidden }).componentOf other =
      s.componentOf other := by
  apply componentOf_update
  exact fun _ => rfl

theorem Linked.setHiddenFlag (h : s.Linked) {overlay : Nat} {hidden : Bool}
    (htarget : hidden = true → ∀ c, s.componentOf overlay = some c →
      s.pendingTarget ≠ some (some c)) :
    (s.updateEntry overlay fun entry => { entry with hidden }).Linked := by
  refine h.update (fun other => componentOf_setFlag overlay other hidden) ?_ rfl ?_
  · apply preFocusOf_update
    exact fun _ => rfl
  · intro c hc
    refine ⟨hc, ?_⟩
    rintro ⟨other, hother, hflag⟩
    rw [componentOf_setFlag] at hother
    by_cases he : overlay = other
    · subst he
      cases hidden with
      | true => exact htarget rfl c hother hc
      | false =>
        rw [isHidden, entry_update, if_pos rfl] at hflag
        cases hentry : s.entries[overlay]? <;> simp [hentry] at hflag
    · rw [isHidden_update_ne he] at hflag
      exact h.target hc (.inl ⟨other, hother, hflag⟩)

theorem Intact.setHiddenFlag (h : s.Intact) {overlay : Nat} {hidden : Bool}
    (htarget : hidden = true → ∀ c, s.componentOf overlay = some c →
      s.pendingTarget ≠ some (some c)) :
    (s.updateEntry overlay fun entry => { entry with hidden }).Intact := by
  refine ⟨h.toLinked.setHiddenFlag htarget, ?_⟩
  intro c hc
  rw [removed_congr (fun other => componentOf_setFlag overlay other hidden) rfl]
  exact h.focus hc

/-! ## Removing an overlay -/

/-- What must hold for an overlay to go without leaving a dangling reference: its component
is not the pending target, and an overlay that falls back to itself has no one to fall back
to it and does not need to. -/
structure SafeRemoval (s : TUI κ) (overlay : Nat) : Prop where
  pending : ∀ c, s.componentOf overlay = some c → s.pendingTarget ≠ some (some c)
  links : ∀ c, s.componentOf overlay = some c → s.preFocusOf overlay = some c →
    ∀ other ∈ s.overlayStack, other ≠ overlay → s.preFocusOf other ≠ some c
  focus : ∀ c, s.componentOf overlay = some c → s.preFocusOf overlay = some c →
    s.focusedComponent = some c → ∃ other ∈ s.overlayStack, other ≠ overlay ∧
      s.isOverlayVisible other = true ∧ s.isNonCapturing other = false

theorem SafeRemoval.clearFor {overlay : Nat} (h : s.SafeRemoval overlay) (other : Nat) :
    (s.clearOverlayFocusRestoreFor other).SafeRemoval overlay := by
  rcases s.clearFor_cases other with he | he
  · rw [he]
    exact h
  · rw [he]
    refine ⟨?_, h.links, h.focus⟩
    intro c _ hc
    cases hc

variable [DecidableEq κ]

theorem retarget_map {β : Type} (f : OverlayStackEntry κ → β)
    (hf : ∀ entry preFocus, f { entry with preFocus } = f entry) (overlay other : Nat) :
    (s.retargetOverlayPreFocus overlay).entries[other]?.map f = s.entries[other]?.map f := by
  simp only [retargetOverlayPreFocus, List.getElem?_mapIdx]
  cases s.entries[other]? with
  | none => rfl
  | some entry =>
    simp only [Option.map_some]
    split
    · rw [hf]
    · rfl

theorem preFocusOf_retarget {overlay other : Nat} {c : κ}
    (h : (s.retargetOverlayPreFocus overlay).preFocusOf other = some c) :
    (other ≠ overlay ∧ s.preFocusOf other = s.componentOf overlay ∧
        s.preFocusOf overlay = some c) ∨
      s.preFocusOf other = some c ∧
        (other ∈ s.overlayStack → other ≠ overlay → s.componentOf overlay ≠ some c) := by
  rw [preFocusOf, retargetOverlayPreFocus, List.getElem?_mapIdx] at h
  rw [preFocusOf]
  cases hentry : s.entries[other]? with
  | none =>
    rw [hentry] at h
    cases h
  | some entry =>
    rw [hentry, Option.map_some, Option.bind_some] at h
    rw [Option.bind_some]
    split at h
    · rename_i hlink
      exact .inl ⟨hlink.2.1, hlink.2.2, h⟩
    · rename_i hother
      refine .inr ⟨h, ?_⟩
      intro hmem hne hc
      exact hother ⟨hmem, hne, by rw [h, hc]⟩

section Removal
variable {overlay : Nat} {rest : List Nat}

theorem componentOf_without (other : Nat) :
    ({ s.retargetOverlayPreFocus overlay with overlayStack := rest } : TUI κ).componentOf other =
      s.componentOf other :=
  retarget_map OverlayStackEntry.component (fun _ _ => rfl) overlay other

theorem any_retarget (f : OverlayStackEntry κ → Bool)
    (hf : ∀ entry preFocus, f { entry with preFocus } = f entry) (overlay other : Nat) :
    (s.retargetOverlayPreFocus overlay).entries[other]?.any f = s.entries[other]?.any f := by
  have h := retarget_map (s := s) f hf overlay other
  cases hentry : s.entries[other]? <;>
    cases hentry' : (s.retargetOverlayPreFocus overlay).entries[other]? <;>
      simp_all

theorem removed_without (hrest : ∀ other ∈ s.overlayStack, other ≠ overlay → other ∈ rest) {c : κ}
    (h : ({ s.retargetOverlayPreFocus overlay with overlayStack := rest } : TUI κ).Removed c) :
    s.Removed c ∨ s.componentOf overlay = some c ∧ overlay ∉ rest := by
  obtain ⟨other, hc, hnot⟩ := h
  rw [componentOf_without] at hc
  by_cases hother : other = overlay
  · subst hother
    exact .inr ⟨hc, hnot⟩
  · exact .inl ⟨other, hc, fun hmem => hnot (hrest other hmem hother)⟩

/-- Removing an overlay keeps the links from leading to a removed one. -/
theorem Linked.without (h : s.Linked) (hsafe : s.SafeRemoval overlay)
    (hmem : overlay ∈ s.overlayStack) (hsub : ∀ other ∈ rest, other ∈ s.overlayStack)
    (hrest : ∀ other ∈ s.overlayStack, other ≠ overlay → other ∈ rest) :
    ({ s.retargetOverlayPreFocus overlay with overlayStack := rest } : TUI κ).Linked where
  distinct hc hc' := by
    rw [componentOf_without] at hc hc'
    exact h.distinct hc hc'
  links := by
    intro other c hother hc hremoved
    rcases preFocusOf_retarget hc with ⟨hne, hlink, hfall⟩ | ⟨hlink, hkept⟩
    · -- the link led to the overlay, and leads now where that one falls back to
      rcases removed_without hrest hremoved with hold | ⟨hcomponent, _⟩
      · exact h.links hmem hfall hold
      · exact hsafe.links c hcomponent hfall other (hsub other hother) hne
          (by rw [hlink, hcomponent])
    · rcases removed_without hrest hremoved with hold | ⟨hcomponent, hnot⟩
      · exact h.links (hsub other hother) hlink hold
      · have hne : other ≠ overlay := fun e => hnot (e ▸ hother)
        exact hkept (hsub other hother) hne hcomponent
  target := by
    intro c hc hgone
    have hpending : s.pendingTarget = some (some c) := hc
    rcases hgone with ⟨other, hcomponent, hhidden⟩ | hremoved
    · rw [componentOf_without] at hcomponent
      refine h.target hpending (.inl ⟨other, hcomponent, ?_⟩)
      rw [isHidden, ← any_retarget OverlayStackEntry.hidden (fun _ _ => rfl) overlay other]
      exact hhidden
    · rcases removed_without hrest hremoved with hold | ⟨hcomponent, _⟩
      · exact h.target hpending (.inr hold)
      · exact hsafe.pending c hcomponent hpending

end Removal

end PieLab.Tui.TUI
