import Mathlib.Data.List.Nodup
import PieLab.Tui.OverlayLinks
import PieLab.Lib.Runs

/-
  Where keys go

  A key must not reach an overlay that is hidden or was removed. Overlays remember the
  component that had the focus when they were shown; removing an overlay bends the links
  that lead to it, hiding one does not.

  What is proved:
    1. `isOverlayFocusAncestor_fuel` — the loop along the links has enough fuel.
    2. `keys_stay_visible` — the runs in which every key goes to a component that is no
       hidden or removed overlay.
    3. `key_to_hidden_overlay` — three overlays hidden from the bottom up, after which a
       key goes to the first.
-/

open PieLab.Lib

namespace PieLab.Tui

namespace TUI
variable {κ : Type} {s t : TUI κ}

/-! ## Moving the focus -/

/-- What moving the focus may do: the overlays stay, no target becomes pending, and the
focus goes where it was asked to, to a visible overlay, or to the pending target. -/
structure Moved (s t : TUI κ) (component : Option κ) : Prop where
  entries : t.entries = s.entries
  overlayStack : t.overlayStack = s.overlayStack
  pending : t.pendingTarget = none ∨ t.pendingTarget = s.pendingTarget
  focus : t.focusedComponent = component ∨
    (∃ overlay ∈ s.overlayStack, s.isOverlayVisible overlay = true ∧
      t.focusedComponent = s.componentOf overlay) ∨
    s.pendingTarget = some t.focusedComponent

theorem getVisibleOverlayFocusRestore_cases (s : TUI κ) :
    s.getVisibleOverlayFocusRestore = .inactive ∨
      s.getVisibleOverlayFocusRestore = s.overlayFocusRestore ∧
        ∀ overlay, s.restoreOverlay? = some overlay →
          overlay ∈ s.overlayStack ∧ s.isOverlayVisible overlay = true := by
  unfold getVisibleOverlayFocusRestore
  cases h : s.restoreOverlay? with
  | none => exact .inl rfl
  | some overlay =>
    by_cases hvisible : (decide (overlay ∈ s.overlayStack) && s.isOverlayVisible overlay) = true
    · refine .inr ⟨by simp only [hvisible, if_true], ?_⟩
      intro overlay' he
      cases he
      simpa using hvisible
    · exact .inl (by simp only [hvisible]; rfl)

theorem resolve_moved {overlay : Nat} {blockedBy : κ} {resume : OverlayBlockedFocusResume κ}
    (h : s.getVisibleOverlayFocusRestore = .blocked overlay blockedBy resume)
    (component : Option κ) :
    Moved s { (s.resolveBlockedOverlayFocusResume overlay resume).1 with
      focusedComponent := (s.resolveBlockedOverlayFocusResume overlay resume).2 } component := by
  rcases s.getVisibleOverlayFocusRestore_cases with hnone | ⟨hstate, hvisible⟩
  · rw [hnone] at h
    cases h
  · rw [hstate] at h
    cases resume with
    | restoreOverlay =>
      refine ⟨rfl, rfl, .inr rfl, .inr (.inl ⟨overlay, ?_⟩)⟩
      have hoverlay := hvisible overlay (by rw [restoreOverlay?, h])
      exact ⟨hoverlay.1, hoverlay.2, rfl⟩
    | focusTarget target =>
      refine ⟨rfl, rfl, .inl rfl, .inr (.inr ?_)⟩
      rw [pendingTarget, h]
      rfl

variable {component : Option κ}

theorem Moved.alike (h : Moved s t component) : Alike s t :=
  alike_of_entries h.entries h.overlayStack

theorem Moved.focus_not (hmoved : Moved s t component) {Bad : κ → Prop}
    (hcomponent : ∀ c, component = some c → ¬ Bad c)
    (hvisible : ∀ overlay c, overlay ∈ s.overlayStack → s.isOverlayVisible overlay = true →
      s.componentOf overlay = some c → ¬ Bad c)
    (htarget : ∀ c, s.pendingTarget = some (some c) → ¬ Bad c) :
    ∀ c, t.focusedComponent = some c → ¬ Bad c := by
  intro c hc
  rcases hmoved.focus with hasked | ⟨overlay, hmem, hvis, hoverlay⟩ | hpending
  · exact hcomponent c (by rw [← hasked, hc])
  · exact hvisible overlay c hmem hvis (by rw [← hoverlay, hc])
  · exact htarget c (by rw [hpending, hc])

theorem Linked.moved_intact (h : s.Linked) (hmoved : Moved s t component)
    (hcomponent : ∀ c, component = some c → ¬ s.Removed c) : t.Intact where
  toLinked := h.alike hmoved.alike hmoved.pending
  focus hc := by
    rw [hmoved.alike.removed]
    refine hmoved.focus_not hcomponent ?_ ?_ _ hc
    · intro overlay c hmem _ hc
      exact h.stacked hmem hc
    · intro c hc hremoved
      exact h.target hc (.inr hremoved)

theorem Linked.moved_not_gone (h : s.Linked) (hmoved : Moved s t component)
    (hcomponent : ∀ c, component = some c → ¬ s.Gone c) :
    ∀ c, t.focusedComponent = some c → ¬ t.Gone c := by
  intro c hc
  rw [hmoved.alike.gone]
  refine hmoved.focus_not hcomponent ?_ ?_ c hc
  · intro overlay c hmem hvis hc
    exact h.visible hmem hvis hc
  · intro c hc
    exact h.target hc

/-- The focus is not on a hidden or removed overlay. -/
structure Clear (s : TUI κ) : Prop extends Intact s where
  shown : ∀ {c : κ}, s.focusedComponent = some c → ¬ s.Gone c

theorem Linked.moved_clear (h : s.Linked) (hmoved : Moved s t component)
    (hcomponent : ∀ c, component = some c → ¬ s.Gone c) : t.Clear where
  toIntact := h.moved_intact hmoved fun c hc hremoved => hcomponent c hc (.inr hremoved)
  shown hc := h.moved_not_gone hmoved hcomponent _ hc

variable [DecidableEq κ]

/-! ## The loop along the links -/

theorem overlayOf_mem {component : κ} {overlay : Nat} (h : s.overlayOf component = some overlay) :
    overlay ∈ s.overlayStack ∧ s.componentOf overlay = some component := by
  have hfind := List.find?_some h
  exact ⟨List.mem_of_find?_eq_some h, by simpa using hfind⟩

theorem focusAncestor_fuel (component : κ) (fuel : Nat) (visited : List κ) (current : Option κ)
    (hnodup : visited.Nodup) (hvisited : ∀ c ∈ visited, (s.overlayOf c).isSome)
    (hfuel : s.overlayStack.length + 1 ≤ visited.length + fuel) (more : Nat) :
    s.focusAncestor component (fuel + more) visited current =
      s.focusAncestor component fuel visited current := by
  -- the overlays of the components visited are different overlays of the stack
  have hbound : ∀ l : List κ, l.Nodup → (∀ c ∈ l, (s.overlayOf c).isSome) →
      l.length ≤ s.overlayStack.length := by
    intro l hl hall
    have hsub : l.filterMap s.overlayOf ⊆ s.overlayStack := by
      intro overlay hmem
      obtain ⟨c, _, hc⟩ := List.mem_filterMap.mp hmem
      exact (overlayOf_mem hc).1
    have hdistinct : (l.filterMap s.overlayOf).Nodup := by
      apply List.Nodup.filterMap ?_ hl
      intro c c' overlay hc hc'
      have h := (overlayOf_mem hc).2
      rw [(overlayOf_mem hc').2] at h
      exact (Option.some.inj h).symm
    have hlength := List.filterMap_length_eq_length.mpr hall
    rw [← hlength]
    exact (List.subperm_of_subset hdistinct hsub).length_le
  induction fuel generalizing visited current with
  | zero =>
    have hle := hbound visited hnodup hvisited
    omega
  | succ fuel ih =>
    rw [show fuel + 1 + more = fuel + more + 1 by omega]
    cases current with
    | none => simp [focusAncestor]
    | some current =>
      unfold focusAncestor
      by_cases hseen : current ∈ visited
      · rw [if_pos hseen, if_pos hseen]
      · rw [if_neg hseen, if_neg hseen]
        by_cases hfound : current = component
        · rw [if_pos hfound, if_pos hfound]
        · rw [if_neg hfound, if_neg hfound]
          cases hoverlay : s.overlayOf current with
          | none => cases fuel <;> cases more <;> simp [focusAncestor]
          | some overlay =>
            refine ih (current :: visited) _ (List.nodup_cons.mpr ⟨hseen, hnodup⟩) ?_ ?_
            · intro c hc
              rcases List.mem_cons.mp hc with rfl | hc
              · rw [hoverlay]
                rfl
              · exact hvisited c hc
            · rw [List.length_cons]
              omega

/-- More fuel finds no more ancestors. -/
theorem isOverlayFocusAncestor_fuel (overlay : Nat) (component : κ) (more : Nat) :
    s.focusAncestor component (s.overlayStack.length + 1 + more) [] (s.preFocusOf overlay) =
      s.isOverlayFocusAncestor overlay component :=
  focusAncestor_fuel component _ [] _ List.nodup_nil (by simp) (by simp) more

/-! ## Where the focus goes -/

theorem blockPreviousOverlay_moved (overlay : Nat) (next : κ) :
    Moved s { s.blockPreviousOverlay overlay next with focusedComponent := some next }
      (some next) := by
  unfold blockPreviousOverlay
  split
  · exact ⟨rfl, rfl, .inl rfl, .inl rfl⟩
  · exact ⟨rfl, rfl, .inr rfl, .inl rfl⟩

theorem nextFocus_moved (s : TUI κ) (component : Option κ) (policy : OverlayFocusRestorePolicy) :
    Moved s { (s.nextFocus component policy).1 with
      focusedComponent := (s.nextFocus component policy).2 } component := by
  have hstay : Moved s { s with focusedComponent := component } component :=
    ⟨rfl, rfl, .inr rfl, .inl rfl⟩
  have hclear : Moved s { s.clearOverlayFocusRestore with focusedComponent := component }
      component := ⟨rfl, rfl, .inl rfl, .inl rfl⟩
  cases component with
  | none =>
    unfold nextFocus focusNothing
    dsimp only
    cases hstate : s.getVisibleOverlayFocusRestore with
    | blocked overlay blockedBy resume =>
      dsimp only
      by_cases hby : s.focusedComponent = some blockedBy
      · rw [if_pos hby]
        exact resolve_moved hstate none
      · rw [if_neg hby]
        by_cases hpolicy : policy = .clear
        · rw [if_pos hpolicy]
          exact hclear
        · rw [if_neg hpolicy]
          exact hstay
    | inactive | eligible overlay =>
      dsimp only
      by_cases hpolicy : policy = .clear
      · rw [if_pos hpolicy]
        exact hclear
      · rw [if_neg hpolicy]
        exact hstay
  | some next =>
    unfold nextFocus focusBase
    dsimp only
    by_cases hoverlay : (s.overlayOf next).isSome
    · rw [if_pos hoverlay]
      exact hstay
    · rw [if_neg hoverlay]
      cases hstate : s.getVisibleOverlayFocusRestore with
      | inactive => exact hstay
      | eligible overlay => exact blockPreviousOverlay_moved overlay next
      | blocked overlay blockedBy resume =>
        dsimp only
        by_cases hby : s.focusedComponent = some blockedBy
        · rw [if_pos hby]
          cases resume with
          | focusTarget target => exact resolve_moved hstate (some next)
          | restoreOverlay =>
            dsimp only
            by_cases hmounted : s.isComponentMounted blockedBy
            · rw [if_pos hmounted]
              exact ⟨rfl, rfl, .inl rfl, .inl rfl⟩
            · rw [if_neg hmounted]
              exact resolve_moved hstate (some next)
        · rw [if_neg hby]
          exact blockPreviousOverlay_moved overlay next

theorem setFocusInternal_moved (s : TUI κ) (component : Option κ)
    (policy : OverlayFocusRestorePolicy) :
    Moved s (s.setFocusInternal component policy) component := by
  have h := s.nextFocus_moved component policy
  unfold setFocusInternal giveFocus
  split
  · exact ⟨h.entries, h.overlayStack, .inl rfl, h.focus⟩
  · exact h

theorem setFocus_moved (s : TUI κ) (component : Option κ) :
    Moved s (s.setFocus component) component := s.setFocusInternal_moved component .clear

theorem Linked.releaseFocus {overlay : Nat} (h : s.Linked)
    (hfocus : ∀ c, s.focusedComponent = some c → s.componentOf overlay ≠ some c → ¬ s.Removed c)
    (hlink : s.focusedComponent = s.componentOf overlay → s.getTopmostVisibleOverlay = none →
      ∀ c, s.preFocusOf overlay = some c → ¬ s.Removed c) :
    (s.releaseFocus overlay).Intact := by
  unfold TUI.releaseFocus
  split
  · rename_i hfocused
    unfold fallBack
    cases htop : s.getTopmostVisibleOverlay with
    | some top =>
      refine h.moved_intact (s.setFocus_moved _) ?_
      intro c hc
      exact h.stacked (topmost_some htop).1 hc
    | none => exact h.moved_intact (s.setFocus_moved _) (hlink hfocused htop)
  · rename_i hother
    exact ⟨h, fun hc => hfocus _ hc fun e => hother (by rw [hc, e])⟩

/-! ## The operations -/

section Removal
variable {overlay : Nat} {rest : List Nat}

theorem Intact.removeOverlay (h : s.Intact) (hsafe : s.SafeRemoval overlay)
    (hmem : overlay ∈ s.overlayStack) (hsub : ∀ other ∈ rest, other ∈ s.overlayStack)
    (hrest : ∀ other ∈ s.overlayStack, other ≠ overlay → other ∈ rest) :
    (s.removeOverlay overlay rest).Intact := by
  have hclear := h.clearFor overlay
  have hsafe' := hsafe.clearFor overlay
  have hstack : (s.clearOverlayFocusRestoreFor overlay).overlayStack = s.overlayStack := by
    rcases s.clearFor_cases overlay with he | he <;> rw [he]
    rfl
  rw [← hstack] at hmem hsub hrest
  unfold TUI.removeOverlay
  generalize s.clearOverlayFocusRestoreFor overlay = s at hclear hsafe' hmem hsub hrest
  have hcomponent : ∀ other : Nat, ({ s.retargetOverlayPreFocus overlay with
      overlayStack := rest } : TUI κ).componentOf other = s.componentOf other :=
    componentOf_without
  apply (hclear.toLinked.without hsafe' hmem hsub hrest).releaseFocus
  · intro c hc hne hremoved
    rcases removed_without hrest hremoved with hold | ⟨hgone, _⟩
    · exact hclear.focus hc hold
    · exact hne (by rw [hcomponent, hgone])
  · intro hfocused htop c hc hremoved
    have hfall : s.preFocusOf overlay = some c := by
      rcases preFocusOf_retarget hc with ⟨hne, _⟩ | ⟨hkept, _⟩
      · exact absurd rfl hne
      · exact hkept
    rcases removed_without hrest hremoved with hold | ⟨hself, _⟩
    · exact hclear.links hmem hfall hold
    · -- it falls back to itself, so another overlay is there to take the focus
      have hfocused' : s.focusedComponent = some c := by
        rw [← hself, ← hcomponent]
        exact hfocused
      obtain ⟨other, hother, hne, hvisible, hcapturing⟩ := hsafe'.focus c hself hfall hfocused'
      have hentry := fun f hf => any_retarget (s := s) f hf overlay other
      rcases topmost_none htop (hrest other hother hne) with hnon | hinvisible
      · have hnon' : s.isNonCapturing other = true := by
          rw [isNonCapturing, ← hentry _ fun _ _ => rfl]
          exact hnon
        rw [hnon'] at hcapturing
        cases hcapturing
      · have hinvisible' : s.isOverlayVisible other = false := by
          rw [isOverlayVisible, ← hentry _ fun _ _ => rfl]
          exact hinvisible
        rw [hinvisible'] at hvisible
        cases hvisible

end Removal

theorem Linked.setFocus_intact (h : s.Linked)
    (hcomponent : ∀ c, component = some c → ¬ s.Removed c) : (s.setFocus component).Intact :=
  h.moved_intact (s.setFocus_moved component) hcomponent

theorem Intact.showOverlay (h : s.Intact) {component : κ}
    (hfresh : ∀ other, s.componentOf other ≠ some component) (options : OverlayOptions) :
    (s.showOverlay component options).Intact := by
  have hpush : (s.pushEntry (s.newEntry component options)).Intact := h.pushEntry hfresh rfl rfl
  unfold TUI.showOverlay
  dsimp only
  split
  · apply hpush.toLinked.setFocus_intact
    intro c hc
    have hmem : s.entries.length ∈
        (s.pushEntry (s.newEntry component options)).overlayStack :=
      List.mem_append_right _ (List.mem_singleton.mpr rfl)
    refine hpush.stacked hmem ?_
    rw [componentOf, TUI.pushEntry, List.getElem?_concat_length, ← hc]
    rfl
  · exact hpush

theorem Intact.hideOverlay (h : s.Intact)
    (hsafe : ∀ overlay, s.overlayStack.getLast? = some overlay → s.SafeRemoval overlay) :
    s.hideOverlay.Intact := by
  unfold TUI.hideOverlay
  cases hlast : s.overlayStack.getLast? with
  | none => exact h
  | some overlay =>
    obtain ⟨front, hfront⟩ : ∃ front, s.overlayStack = front ++ [overlay] :=
      ⟨_, (List.dropLast_append_getLast? overlay hlast).symm⟩
    have hrest : s.overlayStack.dropLast = front := by
      rw [hfront, List.dropLast_concat]
    apply h.removeOverlay (hsafe overlay hlast)
    · rw [hfront]
      exact List.mem_append_right _ List.mem_cons_self
    · intro other hother
      exact List.dropLast_subset _ hother
    · intro other hother hne
      rw [hfront] at hother
      rw [hrest]
      exact (List.mem_append.mp hother).resolve_right fun hmem => hne (List.mem_singleton.mp hmem)

theorem Intact.hide (h : s.Intact) {overlay : Nat}
    (hsafe : overlay ∈ s.overlayStack → s.SafeRemoval overlay) : (s.hide overlay).Intact := by
  unfold TUI.hide
  split
  · rename_i hmem
    apply h.removeOverlay (hsafe hmem) hmem
    · intro other hother
      exact List.mem_of_mem_erase hother
    · intro other hother hne
      exact (List.mem_erase_of_ne hne).mpr hother
  · exact h

theorem Intact.setHidden (h : s.Intact) {overlay : Nat} {hidden : Bool}
    (htarget : hidden = true → ∀ c, s.componentOf overlay = some c →
      s.pendingTarget ≠ some (some c))
    (hshown : hidden = false → s.isHidden overlay = true → s.isNonCapturing overlay = false →
      overlay ∈ s.overlayStack) : (s.setHidden overlay hidden).Intact := by
  unfold TUI.setHidden
  cases hentry : s.entries[overlay]? with
  | none => exact h
  | some entry =>
    dsimp only
    by_cases hsame : entry.hidden = hidden
    · rw [if_pos hsame]
      exact h
    · rw [if_neg hsame]
      have hflag := h.setHiddenFlag htarget
      have hcomponent : (s.updateEntry overlay fun entry => { entry with hidden }).componentOf
          overlay = some entry.component := by
        rw [componentOf_setFlag, componentOf, hentry]
        rfl
      cases hidden with
      | true =>
        rw [if_pos rfl]
        have hclear := hflag.clearFor overlay
        have hcomponent' : ((s.updateEntry overlay fun entry =>
            { entry with hidden := true }).clearOverlayFocusRestoreFor overlay).componentOf
              overlay = some entry.component := by
          rcases clearFor_cases _ overlay with he | he <;> rw [he] <;> exact hcomponent
        apply hclear.toLinked.releaseFocus
        · intro c hc _
          exact hclear.focus hc
        · intro hfocused _ c hc
          exact hclear.links (hclear.focused_stacked hcomponent' hfocused) hc
      | false =>
        rw [if_neg Bool.false_ne_true]
        split
        · rename_i hvisible
          have hcapturing : s.isNonCapturing overlay = false := by
            rw [isNonCapturing, hentry]
            simpa using (Bool.and_eq_true_iff.mp hvisible).1
          have hhidden : s.isHidden overlay = true := by
            rw [isHidden, hentry]
            simpa using hsame
          have hmem : overlay ∈ s.overlayStack := hshown rfl hhidden hcapturing
          have hfront := hflag.toLinked.alike (bringToFront_alike _ overlay) (.inr rfl)
          apply hfront.setFocus_intact
          intro c hc
          refine hfront.stacked hmem ?_
          rw [(bringToFront_alike _ overlay).component, hcomponent]
          exact hc
        · exact hflag

theorem Intact.focusHandle (h : s.Intact) (overlay : Nat) : (TUI.focus s overlay).Intact := by
  unfold TUI.focus
  split
  · rename_i hshown
    have hmem : overlay ∈ s.overlayStack := by
      simpa using (Bool.and_eq_true_iff.mp hshown).1
    have hfront := h.toLinked.alike (bringToFront_alike s overlay) (.inr rfl)
    apply hfront.setFocus_intact
    intro c hc
    exact hfront.stacked hmem (by rw [(bringToFront_alike s overlay).component, hc])
  · exact h

theorem Intact.unfocus (h : s.Intact) {overlay : Nat} {c : κ}
    (hcomponent : s.componentOf overlay = some c) {unfocusOptions : Option (Option κ)}
    (htarget : ∀ c, unfocusOptions = some (some c) → ¬ s.Gone c) :
    (s.unfocus overlay unfocusOptions).Intact := by
  unfold TUI.unfocus
  split
  · exact h
  · cases hblocker : s.blockerOf overlay with
    | some blockedBy =>
      cases unfocusOptions with
      | none => exact ⟨h.toLinked.clear, h.focus⟩
      | some target =>
        refine ⟨⟨h.distinct, h.links, ?_⟩, h.focus⟩
        intro c hc
        have hc' : target = some c := Option.some.inj hc
        exact htarget c (by rw [hc'])
    | none =>
      have hclear := h.clearFor overlay
      dsimp only
      cases unfocusOptions with
      | some target =>
        apply hclear.toLinked.setFocus_intact
        intro c hc hremoved
        refine htarget c (by rw [hc]) (.inr ?_)
        rcases s.clearFor_cases overlay with he | he <;> rw [he] at hremoved <;> exact hremoved
      | none =>
        dsimp only
        split
        · rename_i hfocused
          have hmem : overlay ∈ (s.clearOverlayFocusRestoreFor overlay).overlayStack := by
            have hstack := h.focused_stacked hcomponent hfocused
            rcases s.clearFor_cases overlay with he | he <;> rw [he] <;> exact hstack
          apply hclear.toLinked.setFocus_intact
          intro c hc
          exact hclear.toLinked.fallbackTarget hmem hc
        · exact hclear

/-! ## A key -/

/-- When a key meets a hidden overlay with the focus, the link along which the focus leaves
it, if no overlay is in front, leads to none that is hidden too: only one link is followed. -/
def SafeKey (s : TUI κ) : Prop :=
  ∀ overlay c, s.focusedComponent.bind s.overlayOf = some overlay →
    s.isOverlayVisible overlay = false → s.getTopmostVisibleOverlay = none →
      s.preFocusOf overlay = some c → ¬ s.Hidden c

theorem Intact.leaveHiddenOverlay (h : s.Intact) (hsafe : s.SafeKey) :
    s.leaveHiddenOverlay.Clear := by
  unfold TUI.leaveHiddenOverlay
  cases hfocused : s.focusedComponent.bind s.overlayOf with
  | none =>
    refine ⟨h, ?_⟩
    rintro c hc (⟨overlay, hcomponent, _⟩ | hremoved)
    · -- an overlay that is not found on the stack would be removed
      rw [hc, Option.bind_some, overlayOf, List.find?_eq_none] at hfocused
      refine h.focus hc ⟨overlay, hcomponent, ?_⟩
      intro hmem
      exact hfocused overlay hmem (by rw [hcomponent]; exact beq_self_eq_true _)
    · exact h.focus hc hremoved
  | some overlay =>
    dsimp only
    obtain ⟨focused, hc, hoverlay⟩ := Option.bind_eq_some_iff.mp hfocused
    obtain ⟨hmem, hcomponent⟩ := overlayOf_mem hoverlay
    by_cases hvisible : s.isOverlayVisible overlay = true
    · rw [if_pos hvisible]
      refine ⟨h, ?_⟩
      intro c hc'
      rw [hc] at hc'
      exact h.visible hmem hvisible (by rw [hcomponent, hc'])
    · rw [if_neg hvisible]
      cases htop : s.getTopmostVisibleOverlay with
      | some top =>
        apply h.toLinked.moved_clear (s.setFocus_moved _)
        intro c hc'
        exact h.visible (topmost_some htop).1 (topmost_some htop).2 hc'
      | none =>
        apply h.toLinked.moved_clear (s.setFocusInternal_moved _ .preserve)
        rintro c hc' (hhidden | hremoved)
        · exact hsafe overlay c hfocused (by simpa using hvisible) htop hc' hhidden
        · exact h.links hmem hc' hremoved

theorem Clear.restoreFocus (h : s.Clear) : s.restoreFocus.Clear := by
  unfold TUI.restoreFocus
  split
  · exact h
  · rcases s.getVisibleOverlayFocusRestore_cases with hnone | ⟨hstate, hvisible⟩
    · rw [hnone]
      exact h
    · rw [hstate]
      have hback : ∀ overlay, s.restoreOverlay? = some overlay →
          (s.setFocus (s.componentOf overlay)).Clear := by
        intro overlay hoverlay
        apply h.toLinked.moved_clear (s.setFocus_moved _)
        intro c hc
        exact h.visible (hvisible overlay hoverlay).1 (hvisible overlay hoverlay).2 hc
      cases hrestore : s.overlayFocusRestore with
      | inactive => exact h
      | eligible overlay => exact hback overlay (by rw [restoreOverlay?, hrestore])
      | blocked overlay blockedBy resume =>
        dsimp only
        split
        · exact h
        · cases resume with
          | restoreOverlay => exact hback overlay (by rw [restoreOverlay?, hrestore])
          | focusTarget target =>
            have hclear := h.toLinked.clear
            apply hclear.moved_clear (setFocus_moved _ target)
            intro c hc
            exact h.target (by rw [pendingTarget, hrestore, hc])

theorem handleInput_alike (s : TUI κ) (takes : κ → Bool) : Alike s (s.handleInput takes).1 := by
  have hleave : Alike s s.leaveHiddenOverlay := by
    unfold TUI.leaveHiddenOverlay
    split
    · exact alike_of_entries rfl rfl
    · split
      · exact alike_of_entries rfl rfl
      · split
        · exact (s.setFocus_moved _).alike
        · exact (s.setFocusInternal_moved _ _).alike
  have hrestore : ∀ s : TUI κ, Alike s s.restoreFocus := by
    intro s
    have hsame : Alike s s := alike_of_entries rfl rfl
    unfold TUI.restoreFocus
    split
    · exact hsame
    · split
      · exact hsame
      · exact (s.setFocus_moved _).alike
      · split
        · exact hsame
        · split
          · exact (s.setFocus_moved _).alike
          · have hcleared : Alike s s.clearOverlayFocusRestore := alike_of_entries rfl rfl
            exact hcleared.trans (setFocus_moved _ _).alike
  exact hleave.trans (hrestore _)

theorem Intact.handleInput (h : s.Intact) (hsafe : s.SafeKey) (takes : κ → Bool) :
    (s.handleInput takes).1.Clear := (h.leaveHiddenOverlay hsafe).restoreFocus

end TUI

/-! ## Runs -/

/-- What the program, the user and the terminal do. A handle is the number of its overlay. -/
inductive Op (κ : Type) where
  | setFocus (component : Option κ)
  | showOverlay (component : κ) (options : OverlayOptions)
  | hideOverlay
  | hide (overlay : Nat)
  | setHidden (overlay : Nat) (hidden : Bool)
  | focus (overlay : Nat)
  | unfocus (overlay : Nat) (unfocusOptions : Option (Option κ))
  | setChildren (children : List (Node κ))
  | resize (columns rows : Nat)
  | key (takes : κ → Bool)

variable {κ : Type}

/-- A new terminal UI. -/
structure Fresh (s : TUI κ) : Prop where
  entries : s.entries = []
  overlayStack : s.overlayStack = []
  overlayFocusRestore : s.overlayFocusRestore = .inactive

theorem Fresh.intact {s : TUI κ} (h : Fresh s) : s.Intact := by
  have hnone : ∀ overlay, s.componentOf overlay = none := by
    intro overlay
    rw [TUI.componentOf, h.entries]
    rfl
  have hpending : s.pendingTarget = none := by
    rw [TUI.pendingTarget, h.overlayFocusRestore]
  refine ⟨⟨?_, ?_, ?_⟩, ?_⟩
  · intro overlay overlay' c hc
    rw [hnone] at hc
    cases hc
  · intro overlay c hmem
    rw [h.overlayStack] at hmem
    cases hmem
  · intro c hc
    rw [hpending] at hc
    cases hc
  · rintro c _ ⟨overlay, hc, _⟩
    rw [hnone] at hc
    cases hc

variable [DecidableEq κ]

def step (s : TUI κ) : Op κ → TUI κ
  | .setFocus component => s.setFocus component
  | .showOverlay component options => s.showOverlay component options
  | .hideOverlay => s.hideOverlay
  | .hide overlay => s.hide overlay
  | .setHidden overlay hidden => s.setHidden overlay hidden
  | .focus overlay => s.focus overlay
  | .unfocus overlay unfocusOptions => s.unfocus overlay unfocusOptions
  | .setChildren children => { s with children }
  | .resize columns rows => { s with columns, rows }
  | .key takes => (s.handleInput takes).1

/-- Overlays have components of their own, and the focus is sent to no hidden or removed
overlay. -/
def Permitted (s : TUI κ) : Op κ → Prop
  | .setFocus component => ∀ c, component = some c → ¬ s.Gone c
  | .showOverlay component _ => ∀ overlay, s.componentOf overlay ≠ some component
  | .unfocus overlay unfocusOptions =>
    overlay < s.entries.length ∧ ∀ c, unfocusOptions = some (some c) → ¬ s.Gone c
  | _ => True

/-- No overlay goes that leaves a dangling reference, no removed overlay is shown again, and
a key meets no two hidden overlays in a row. -/
def Careful (s : TUI κ) : Op κ → Prop
  | .hideOverlay => ∀ overlay, s.overlayStack.getLast? = some overlay → s.SafeRemoval overlay
  | .hide overlay => overlay ∈ s.overlayStack → s.SafeRemoval overlay
  | .setHidden overlay hidden =>
    if hidden then ∀ c, s.componentOf overlay = some c → s.pendingTarget ≠ some (some c)
    else s.isHidden overlay = true → s.isNonCapturing overlay = false → overlay ∈ s.overlayStack
  | .key _ => s.SafeKey
  | _ => True

theorem step_intact {s : TUI κ} {op : Op κ} (h : s.Intact) (hpermitted : Permitted s op)
    (hcareful : Careful s op) : (step s op).Intact := by
  cases op with
  | setFocus component =>
    apply h.toLinked.setFocus_intact
    intro c hc hremoved
    exact hpermitted c hc (.inr hremoved)
  | showOverlay component options => exact h.showOverlay hpermitted options
  | hideOverlay => exact h.hideOverlay hcareful
  | hide overlay => exact h.hide hcareful
  | setHidden overlay hidden =>
    apply h.setHidden
    · rintro rfl
      simpa [Careful] using hcareful
    · rintro rfl
      simpa [Careful] using hcareful
  | focus overlay => exact h.focusHandle overlay
  | unfocus overlay unfocusOptions =>
    obtain ⟨hlt, htarget⟩ := hpermitted
    have hcomponent : s.componentOf overlay = some (s.entries[overlay]).component := by
      rw [TUI.componentOf, List.getElem?_eq_getElem hlt]
      rfl
    exact h.unfocus hcomponent htarget
  | setChildren children =>
    exact ⟨h.toLinked.alike (TUI.alike_of_entries rfl rfl) (.inr rfl), h.focus⟩
  | resize columns rows =>
    exact ⟨h.toLinked.alike (TUI.alike_of_entries rfl rfl) (.inr rfl), h.focus⟩
  | key takes => exact (h.handleInput hcareful takes).toIntact

/-- A step that keeps to what is permitted. -/
def PermittedStep (s : TUI κ) (op : Op κ) (t : TUI κ) : Prop := Permitted s op ∧ t = step s op

/-- A step that is careful besides. -/
def CarefulStep (s : TUI κ) (op : Op κ) (t : TUI κ) : Prop :=
  Permitted s op ∧ Careful s op ∧ t = step s op

/-- In a run of careful steps, the next key goes to no hidden or removed overlay. -/
theorem keys_stay_visible {s t : TUI κ} {ops : List (Op κ)} (hfresh : Fresh s)
    (hrun : Run CarefulStep s ops t) {takes : κ → Bool} (hkey : Careful t (.key takes)) {c : κ}
    (hc : (t.handleInput takes).2 = some c) : ¬ t.Gone c := by
  have hintact : t.Intact := by
    apply hrun.invariant hfresh.intact
    rintro s op t ⟨hpermitted, hcareful, rfl⟩ h
    exact step_intact h hpermitted hcareful
  have hclear := hintact.handleInput hkey takes
  rw [← (t.handleInput_alike takes).gone]
  exact hclear.shown (Option.eq_some_of_filter_eq_some hc)

section Examples

def captures : OverlayOptions where
  nonCapturing := false
  visible := none

def newTUI : TUI String where
  columns := 80
  rows := 24
  children := [.mk "editor" []]
  focusedComponent := none
  focusOrderCounter := 0
  entries := []
  overlayStack := []
  overlayFocusRestore := .inactive

/-- Every component takes the key. -/
def passes (_ : String) : Bool := true

theorem newTUI_fresh : Fresh newTUI := ⟨rfl, rfl, rfl⟩

theorem componentOf_ne {s : TUI String} {component : String}
    (h : component ∉ s.entries.map OverlayStackEntry.component) (overlay : Nat) :
    s.componentOf overlay ≠ some component := by
  intro hc
  obtain ⟨entry, hentry, rfl⟩ := Option.map_eq_some_iff.mp hc
  exact h (List.mem_map_of_mem (List.mem_of_getElem? hentry))

theorem not_gone {s : TUI String} {component : String}
    (h : component ∉ s.entries.map OverlayStackEntry.component) : ¬ s.Gone component := by
  rintro (⟨overlay, hc, _⟩ | ⟨overlay, hc, _⟩)
  · exact componentOf_ne h overlay hc
  · exact componentOf_ne h overlay hc

/-- The editor with a menu over it. -/
def withMenu : TUI String := (newTUI.setFocus (some "editor")).showOverlay "menu" captures

theorem focusEditor_permitted : Permitted newTUI (.setFocus (some "editor")) := by
  intro c hc
  obtain rfl := Option.some.inj hc
  exact not_gone (by decide)

theorem showMenu_permitted :
    Permitted (newTUI.setFocus (some "editor")) (.showOverlay "menu" captures) :=
  componentOf_ne (by decide)

/-- A menu is shown over the editor and removed, and the next key goes to the editor. -/
theorem keys_stay_visible_example : ¬ (withMenu.hide 0).Gone "editor" := by
  have hsafe : withMenu.SafeRemoval 0 := by
    have hself : ∀ c, withMenu.componentOf 0 = some c → withMenu.preFocusOf 0 ≠ some c := by
      rintro c hc
      obtain rfl : "menu" = c := Option.some.inj hc
      decide
    refine ⟨?_, ?_, ?_⟩
    · intro c _
      exact nofun
    · intro c hc hlink
      exact absurd hlink (hself c hc)
    · intro c hc hlink
      exact absurd hlink (hself c hc)
  have hkey : Careful (withMenu.hide 0) (.key passes) := by
    intro overlay c hfocused
    cases hfocused
  have hrun : Run CarefulStep newTUI
      [.setFocus (some "editor"), .showOverlay "menu" captures, .hide 0] (withMenu.hide 0) :=
    .cons ⟨focusEditor_permitted, trivial, rfl⟩ <| .cons ⟨showMenu_permitted, trivial, rfl⟩ <|
      .cons ⟨trivial, fun _ => hsafe, rfl⟩ <| .nil _
  exact keys_stay_visible newTUI_fresh hrun hkey rfl

/-! ## Two hidden overlays in a row -/

/-- A dialog over the menu, and a prompt over the dialog. -/
def stacked : TUI String :=
  (withMenu.showOverlay "dialog" captures).showOverlay "prompt" captures

/-- They are hidden from the bottom up. The prompt leaves the focus to the dialog, and the
next key follows one more link, to the menu. -/
theorem key_to_hidden_overlay :
    ∃ (ops : List (Op String)) (t : TUI String), Run PermittedStep newTUI ops t ∧
      (t.handleInput passes).2 = some "menu" ∧ t.Gone "menu" := by
  refine ⟨[.setFocus (some "editor"), .showOverlay "menu" captures,
    .showOverlay "dialog" captures, .showOverlay "prompt" captures,
    .setHidden 0 true, .setHidden 1 true, .setHidden 2 true],
    ((stacked.setHidden 0 true).setHidden 1 true).setHidden 2 true, ?_, ?_, ?_⟩
  · have hdialog : Permitted withMenu (.showOverlay "dialog" captures) := componentOf_ne (by decide)
    have hprompt : Permitted (withMenu.showOverlay "dialog" captures)
        (.showOverlay "prompt" captures) := componentOf_ne (by decide)
    exact .cons ⟨focusEditor_permitted, rfl⟩ <| .cons ⟨showMenu_permitted, rfl⟩ <| .cons ⟨hdialog,
      rfl⟩ <|
      .cons ⟨hprompt, rfl⟩ <| .cons ⟨trivial, rfl⟩ <| .cons ⟨trivial, rfl⟩ <|
      .cons ⟨trivial, rfl⟩ <| .nil _
  · decide
  · exact .inl ⟨0, by decide, by decide⟩

/-! The other conditions are needed too: a removed overlay that is shown again, one that was
the focus before it was shown, and one that is the pending target when it is removed. -/

example : ((((withMenu.setHidden 0 true).hide 0).setHidden 0 false).handleInput passes).2 =
    some "menu" := by decide

example : ((((newTUI.setFocus (some "menu")).showOverlay "menu" captures).hide 0).handleInput
    passes).2 = some "menu" := by decide

def leavesFocus : OverlayOptions := { captures with nonCapturing := true }

example : (((((withMenu.setFocus (some "form")).showOverlay "hints" leavesFocus).unfocus 0
    (some (some "hints"))).hide 1).setFocus (some "editor")).focusedComponent =
      some "hints" := by decide

end Examples

end PieLab.Tui
